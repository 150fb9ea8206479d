import IcapService.Lib.CString
import IcapService.Lib.DotNet

/-! The replies of the adaptation service, as `AdaptationOutcomeProcessor` of the proxy application reads
them. -/

namespace IcapService

open CString DotNet

/-- `ReturnOutcome`. -/
inductive ReturnOutcome where
  | unprocessed
  | rebuilt
  | failed
  | error
  deriving DecidableEq

/-- The exit code of an outcome. -/
def ReturnOutcome.code : ReturnOutcome → Int
  | .unprocessed => 0
  | .rebuilt => 1
  | .failed => 2
  | .error => 9

inductive AdaptationOutcome where
  | replace
  | unmodified
  | failed
  deriving DecidableEq

namespace AdaptationOutcome

def value : AdaptationOutcome → Nat
  | .replace => 0
  | .unmodified => 1
  | .failed => 2

def names : List (Text × AdaptationOutcome) :=
  [("Replace".toList, .replace), ("Unmodified".toList, .unmodified), ("Failed".toList, .failed)]

/-- `OutcomeMap`. -/
def outcome : AdaptationOutcome → ReturnOutcome
  | .unmodified => .unprocessed
  | .replace => .rebuilt
  | .failed => .failed

/-- The member of a number, if there is one. -/
def ofValue (n : Int) : Option AdaptationOutcome :=
  if n = 0 then some .replace else if n = 1 then some .unmodified else if n = 2 then some .failed else none

end AdaptationOutcome

/-- A value of a header map: null, a byte array or another object. -/
inductive HeaderValue where
  | null
  | bytes (data : Bytes)
  | other
  deriving DecidableEq

abbrev HeaderMap := String → Option HeaderValue

/-- The exceptions of `Process`; `argument` is any `ArgumentException`. -/
inductive ProcessException where
  | argument
  | jsonReader
  | adaptationServiceClient
  | invalidCast
  | overflow
  deriving DecidableEq

/-- The cast to a byte array, and `GetString`. -/
def HeaderValue.text : HeaderValue → Except ProcessException Text
  | .null => .error .argument
  | .bytes data => .ok (getString data)
  | .other => .error .invalidCast

/-- What is made of the text of an outcome. -/
def outcomeOf (t : Text) : Except ProcessException ReturnOutcome :=
  match enumParse AdaptationOutcome.names AdaptationOutcome.value t with
  | .error .argument => .error .argument
  | .error .overflow => .error .overflow
  | .ok n => .ok (((AdaptationOutcome.ofValue n).map AdaptationOutcome.outcome).getD .error)

/-- The block of `Process` that exceptions are caught around. -/
def processHeaders (headers : HeaderMap) : Except ProcessException ReturnOutcome :=
  match headers "file-id" with
  | none => .error .adaptationServiceClient
  | some id =>
      match id.text with
      | .error e => .error e
      | .ok text =>
          match guidTryParse text with
          | none => .ok .error
          | some _ =>
              match headers "file-outcome" with
              | none => .error .adaptationServiceClient
              | some outcome =>
                  match outcome.text with
                  | .error e => .error e
                  | .ok text => outcomeOf text

/-- `Process`: three kinds of exceptions are caught. -/
def process (headers : HeaderMap) : Except ProcessException ReturnOutcome :=
  match processHeaders headers with
  | .ok outcome => .ok outcome
  | .error .argument => .ok .error
  | .error .jsonReader => .ok .error
  | .error .adaptationServiceClient => .ok .error
  | .error .invalidCast => .error .invalidCast
  | .error .overflow => .error .overflow

/-! ### The words -/

/-- The outcome whose name the text is, up to letter case. -/
def outcomeWord (t : Text) : Option AdaptationOutcome :=
  (AdaptationOutcome.names.find? (fun entry => equalsIgnoreCase t entry.1)).map Prod.snd

/-- The outcome of a reply: that of its word, where the file id is a GUID. -/
def expectedOutcome (headers : HeaderMap) : ReturnOutcome :=
  match headers "file-id", headers "file-outcome" with
  | some (.bytes id), some (.bytes outcome) =>
      if (guidTryParse (getString id)).isSome then
        ((outcomeWord (getString outcome)).map AdaptationOutcome.outcome).getD .error
      else .error
  | _, _ => .error

/-- A text that is not one of the words and that `Enum.Parse` takes for a mapped outcome or rejects as too
large: one of three numbers, a number outside of 32 bits, or names that do not combine to an unmapped
value. -/
def Lenient (t : Text) : Prop :=
  (∃ n, integer (trimStart t) = some n ∧ (int32 n = false ∨ 0 ≤ n ∧ n ≤ 2)) ∨
    integer (trimStart t) = none ∧ ∃ found, members AdaptationOutcome.names (trimStart t) = some found ∧
      ¬ (AdaptationOutcome.unmodified ∈ found ∧ AdaptationOutcome.failed ∈ found)

/-- A header map that is read as its words say: the two values are byte arrays where they are looked at, and
the outcome is a word or no lenient text. -/
structure HeaderMap.Regular (headers : HeaderMap) : Prop where
  id : headers "file-id" ≠ some .other
  outcome : ∀ id, headers "file-id" = some (.bytes id) → (guidTryParse (getString id)).isSome = true →
    headers "file-outcome" ≠ some .other ∧ ∀ outcome, headers "file-outcome" = some (.bytes outcome) →
      (outcomeWord (getString outcome)).isSome = true ∨ ¬ Lenient (getString outcome)

theorem outcomeWord_letters {t : Text} {m : AdaptationOutcome} (word : outcomeWord t = some m) : Letters t := by
  obtain ⟨entry, found, -⟩ := Option.map_eq_some_iff.mp word
  have same : t.map Char.toLower = entry.1.map Char.toLower :=
    eq_of_beq (List.find?_some (p := fun entry : Text × AdaptationOutcome => equalsIgnoreCase t entry.1) found)
  have listed : entry ∈ AdaptationOutcome.names := List.mem_of_find?_eq_some found
  have lower : AdaptationOutcome.names.all (fun e => !e.1.isEmpty &&
      (e.1.map Char.toLower).all (fun c => decide (97 ≤ c.toNat ∧ c.toNat ≤ 122))) = true := by decide
  have entries := List.all_eq_true.mp lower entry listed
  rw [Bool.and_eq_true, ← same] at entries
  obtain ⟨nonempty, range⟩ := entries
  refine ⟨?_, fun c inside => ?_⟩
  · rintro rfl
    rw [List.map_eq_nil_iff.mp same.symm] at nonempty
    cases nonempty
  · obtain ⟨low, high⟩ := of_decide_eq_true (List.all_eq_true.mp range _ (List.mem_map_of_mem inside))
    exact IsLetter.of_toLower low high

theorem ofValue_value (m : AdaptationOutcome) : AdaptationOutcome.ofValue m.value = some m := by cases m <;> rfl

/-- A word gives its outcome. -/
theorem outcomeOf_word {t : Text} {m : AdaptationOutcome} (word : outcomeWord t = some m) :
    outcomeOf t = .ok m.outcome := by
  simp only [outcomeOf, enumParse_word (outcomeWord_letters word) word, ofValue_value, Option.map_some,
    Option.getD_some]

/-- The values of two members in one number. -/
def combined (unmodified failed : Bool) : Nat := (if unmodified then 1 else 0) + (if failed then 2 else 0)

theorem foldl_combined (found : List AdaptationOutcome) (unmodified failed : Bool) :
    found.foldl (fun all m => all ||| m.value) (combined unmodified failed) =
      combined (unmodified || decide (AdaptationOutcome.unmodified ∈ found))
        (failed || decide (AdaptationOutcome.failed ∈ found)) := by
  induction found generalizing unmodified failed with
  | nil => simp
  | cons m rest ih =>
      have next : combined unmodified failed ||| m.value =
          combined (unmodified || decide (m = .unmodified)) (failed || decide (m = .failed)) := by
        cases unmodified <;> cases failed <;> cases m <;> decide
      rw [List.foldl_cons, next, ih]
      simp only [List.mem_cons, Bool.decide_or, Bool.or_assoc, eq_comm]

theorem ofValue_combined (unmodified failed : Bool) :
    AdaptationOutcome.ofValue (combined unmodified failed) = none ↔ unmodified = true ∧ failed = true := by
  cases unmodified <;> cases failed <;> decide

theorem ofValue_none {n : Int} : AdaptationOutcome.ofValue n = none ↔ ¬ (0 ≤ n ∧ n ≤ 2) := by
  simp only [AdaptationOutcome.ofValue]
  split
  · simp_all
  · split
    · simp_all
    · split
      · simp_all
      · simp only [true_iff]
        omega

theorem empty_strict {t : Text} (empty : trimStart t = []) : ¬ Lenient t := by
  rintro (⟨n, read, -⟩ | ⟨-, found, read, -⟩)
  · rw [empty] at read
    cases read
  · rw [empty] at read
    cases read

/-- A text is an error unless it is lenient or a word. -/
theorem outcomeOf_error (t : Text) :
    (outcomeOf t = .ok .error ∨ outcomeOf t = .error .argument) ↔ ¬ Lenient t := by
  by_cases empty : trimStart t = []
  · have failed : outcomeOf t = .error .argument := by simp only [outcomeOf, enumParse, if_pos empty]
    exact iff_of_true (.inr failed) (empty_strict empty)
  · have mapped : ∀ n : Int, (((AdaptationOutcome.ofValue n).map AdaptationOutcome.outcome).getD .error = .error) ↔
        AdaptationOutcome.ofValue n = none := by
      intro n
      cases AdaptationOutcome.ofValue n with
      | none => simp
      | some m => cases m <;> simp [AdaptationOutcome.outcome]
    cases number : integer (trimStart t) with
    | some n =>
        have lenient : Lenient t ↔ int32 n = false ∨ 0 ≤ n ∧ n ≤ 2 := by simp [Lenient, number]
        rw [lenient]
        cases fits : int32 n with
        | false => simp [outcomeOf, enumParse, empty, number, fits]
        | true => simp [outcomeOf, enumParse, empty, number, fits, mapped, ofValue_none]
    | none =>
        cases named : members AdaptationOutcome.names (trimStart t) with
        | none =>
            have strict : ¬ Lenient t := by simp [Lenient, number, named]
            exact iff_of_true (.inr (by simp [outcomeOf, enumParse, empty, number, named])) strict
        | some found =>
            have lenient : Lenient t ↔
                ¬ (AdaptationOutcome.unmodified ∈ found ∧ AdaptationOutcome.failed ∈ found) := by
              simp [Lenient, number, named]
            have all := foldl_combined found false false
            rw [show combined false false = 0 from rfl, Bool.false_or, Bool.false_or] at all
            rw [lenient, not_not]
            simp only [outcomeOf, enumParse, if_neg empty, number, named, all, Except.ok.injEq, reduceCtorEq, or_false,
              mapped, ofValue_combined, decide_eq_true_eq]

/-- What `Process` gives for a text of an outcome is what its word says, exactly for words and for texts
that are not lenient. -/
theorem outcomeOf_iff (t : Text) :
    (match outcomeOf t with
      | .error .argument => Except.ok ReturnOutcome.error
      | result => result) = .ok (((outcomeWord t).map AdaptationOutcome.outcome).getD .error) ↔
      (outcomeWord t).isSome = true ∨ ¬ Lenient t := by
  cases word : outcomeWord t with
  | some m => simp [outcomeOf_word word]
  | none =>
      rw [← outcomeOf_error t]
      simp only [Option.map_none, Option.getD_none, Option.isSome_none, Bool.false_eq_true, false_or]
      split
      · rename_i failed
        simp [failed]
      · rename_i other
        exact ⟨.inl, fun either => either.resolve_right other⟩

/-- `outcomeOf` throws two kinds of exceptions. -/
theorem outcomeOf_throws {t : Text} {e : ProcessException} (thrown : outcomeOf t = .error e) :
    e = .argument ∨ e = .overflow := by
  simp only [outcomeOf] at thrown
  split at thrown
  · cases thrown
    exact .inl rfl
  · cases thrown
    exact .inr rfl
  · cases thrown

/-- `Process` gives the outcome that the words of a reply say, exactly for regular header maps. -/
theorem process_expected_iff (headers : HeaderMap) :
    process headers = .ok (expectedOutcome headers) ↔ headers.Regular := by
  have regular : ∀ value, headers "file-id" = value → (∀ id, value ≠ some (.bytes id)) → value ≠ some .other →
      headers.Regular := by
    intro value same text other
    exact ⟨fun found => other (same.symm.trans found), fun id found => absurd (same.symm.trans found) (text id)⟩
  cases fileId : headers "file-id" with
  | none =>
      refine iff_of_true ?_ (regular _ fileId (by simp) (by simp))
      simp [process, processHeaders, expectedOutcome, fileId]
  | some id =>
      cases id with
      | null =>
          refine iff_of_true ?_ (regular _ fileId (by simp) (by simp))
          simp [process, processHeaders, expectedOutcome, fileId, HeaderValue.text]
      | other =>
          refine iff_of_false ?_ (fun regular => regular.id fileId)
          simp [process, processHeaders, fileId, HeaderValue.text]
      | bytes id =>
          cases guid : guidTryParse (getString id) with
          | none =>
              refine iff_of_true ?_ ⟨by simp [fileId], fun id' found valid => ?_⟩
              · simp only [process, processHeaders, expectedOutcome, fileId, HeaderValue.text, guid]
                cases headers "file-outcome" with
                | none => rfl
                | some outcome => cases outcome <;> simp [guid]
              · rw [fileId] at found
                cases found
                rw [guid] at valid
                cases valid
          | some number =>
              have valid : (guidTryParse (getString id)).isSome = true := by rw [guid]; rfl
              cases fileOutcome : headers "file-outcome" with
              | none =>
                  refine iff_of_true ?_ ⟨by simp [fileId], fun _ _ _ => by simp [fileOutcome]⟩
                  simp [process, processHeaders, expectedOutcome, fileId, fileOutcome, HeaderValue.text, guid]
              | some outcome =>
                  cases outcome with
                  | null =>
                      refine iff_of_true ?_ ⟨by simp [fileId], fun _ _ _ => by simp [fileOutcome]⟩
                      simp [process, processHeaders, expectedOutcome, fileId, fileOutcome, HeaderValue.text, guid]
                  | other =>
                      refine iff_of_false ?_ (fun regular => (regular.outcome id fileId valid).1 fileOutcome)
                      simp [process, processHeaders, fileId, fileOutcome, HeaderValue.text, guid]
                  | bytes data =>
                      have text := outcomeOf_iff (getString data)
                      have strict : headers.Regular ↔
                          (outcomeWord (getString data)).isSome = true ∨ ¬ Lenient (getString data) := by
                        refine ⟨fun regular => (regular.outcome id fileId valid).2 data fileOutcome, fun either => ?_⟩
                        refine ⟨by simp [fileId], fun _ _ _ => ⟨by simp [fileOutcome], fun data' found => ?_⟩⟩
                        rw [fileOutcome] at found
                        cases found
                        exact either
                      rw [strict, ← text]
                      have same : process headers = (match outcomeOf (getString data) with
                          | .error .argument => Except.ok ReturnOutcome.error
                          | result => result) := by
                        simp only [process, processHeaders, fileId, fileOutcome, HeaderValue.text, guid]
                        cases result : outcomeOf (getString data) with
                        | ok outcome => rfl
                        | error e =>
                            rcases outcomeOf_throws result with rfl | rfl <;> rfl
                      rw [same, expectedOutcome, fileId, fileOutcome]
                      simp only [valid, if_true]

/-- A reply that says `1`. -/
def numberReply : HeaderMap := fun key =>
  if key = "file-id" then some (.bytes (ascii "737ba1cc492c42929a2cfc7bfc722dc6"))
  else if key = "file-outcome" then some (.bytes (ascii "1"))
  else none

/-- The number is taken for the outcome that releases the file. -/
theorem number_taken_for_unmodified :
    process numberReply = .ok .unprocessed ∧ expectedOutcome numberReply = .error ∧
      process numberReply ≠ .ok (expectedOutcome numberReply) := by
  decide +kernel

end IcapService
