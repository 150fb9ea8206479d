import Mathlib.Data.List.Find
import Mathlib.Data.Nat.Bitwise
import IcapService.Lib.Memory

/-! The `time` acl of `acl.c`.

A string of the form `[DAY[,DAY[,..]]][/][HH:MM-HH:MM]` is read into a mask of days and a range of minutes of
the day, which the time of the request is compared with. -/

namespace IcapService

open CString CInt

/-- `struct acl_time_data`. -/
structure AclTimeData where
  days : Nat
  startTime : Nat
  endTime : Nat
  deriving DecidableEq

/-- The table `days` of `acl_time_dup`. -/
def timeDays : List (Bytes × Nat) :=
  [(ascii "Sunday", 0), (ascii "Monday", 1), (ascii "Tuesday", 2), (ascii "Wednesday", 3), (ascii "Thursday", 4),
    (ascii "Friday", 5), (ascii "Saturday", 6), (ascii "S", 0), (ascii "M", 1), (ascii "T", 2), (ascii "W", 3),
    (ascii "H", 4), (ascii "F", 5), (ascii "A", 6)]

/-- The first name of the table that the text starts with. -/
@[irreducible] def matchDay (s : Bytes) : Option (Bytes × Nat) := timeDays.find? (fun d => strncaseeq d.1.length s d.1)

/-- The loop over the days, which goes on at a comma: the mask, and where the text goes on. -/
def dayLoop : Nat → Bytes → Nat → Option (Nat × Bytes)
  | 0, _, _ => none
  | fuel + 1, s, days =>
      let here := if at0 s 0 = 44 then s.drop 1 else s
      match matchDay here with
      | none => none
      | some d =>
          if at0 (here.drop d.1.length) 0 = 44 then dayLoop fuel (here.drop d.1.length) (days ||| 1 <<< d.2)
          else some (days ||| 1 <<< d.2, here.drop d.1.length)

/-- The days in front: none before a digit, else the loop and a slash. -/
def timeFront (s : Bytes) : Option (Nat × Bytes) :=
  if isDigit 10 (at0 s 0) then some (0, s)
  else
    match dayLoop (s.length + 1) s 0 with
    | none => none
    | some out => if at0 out.2 0 = 47 then some (out.1, out.2.drop 1) else none

/-- A number of hours or minutes, converted to `int` and held against its bounds. -/
@[irreducible] def timeNumber (bound : Nat) (s : Bytes) : Option (Nat × Bytes) :=
  let value := wrap32 (strtol 10 s).1
  if value < 0 ∨ bound < value then none else some (value.toNat, s.drop (strtol 10 s).2)

/-- A number with a mark behind it and a digit behind that. -/
def timePart (bound : Nat) (mark : UInt8) (s : Bytes) : Option (Nat × Bytes) :=
  match timeNumber bound s with
  | none => none
  | some out => if at0 out.2 0 = mark ∧ isDigit 10 (at0 out.2 1) then some (out.1, out.2.drop 1) else none

/-- The range `HH:MM-HH:MM` in minutes of the day. -/
def timeRange (s : Bytes) : Option (Nat × Nat) :=
  if isDigit 10 (at0 s 0) then
    (timePart 24 58 s).bind fun h1 =>
      (timePart 59 45 h1.2).bind fun m1 =>
        (timePart 24 58 m1.2).bind fun h2 =>
          (timeNumber 59 h2.2).map fun m2 => (h1.1 * 60 + m1.1, h2.1 * 60 + m2.1)
  else none

/-- `acl_time_dup`. -/
def aclTimeDup (str : Bytes) : Option AclTimeData :=
  (timeFront (str.take 1023)).bind fun front =>
    (timeRange front.2).bind fun range =>
      if range.1 ≤ range.2 then some ⟨front.1, range.1, range.2⟩ else none

/-- `acl_time_equal`. -/
def aclTimeEqual (acl request : AclTimeData) : Bool :=
  acl.days &&& request.days ≠ 0 && acl.startTime ≤ request.startTime && request.startTime ≤ acl.endTime

/-- The fields of a `struct tm` that are looked at. -/
structure Tm where
  wday : Fin 7
  hour : Fin 24
  min : Fin 60

/-- `get_time_data`. -/
def getTimeData (t : Tm) : AclTimeData := ⟨1 <<< (t.wday : Nat), t.hour * 60 + t.min, 0⟩

/-! ### The documented form -/

/-- The name of a day, in letters of either case. -/
structure DayWord where
  text : Bytes
  id : Nat
  named : ∃ d ∈ timeDays, d.2 = id ∧ text.map toLower = d.1.map toLower

/-- A time of the day: hours of one or two digits and minutes of two. -/
structure ClockTime where
  hour : Bytes
  minute : Bytes
  digits : ∀ c ∈ hour ++ minute, isDigit 10 c
  hourWidth : hour.length = 1 ∨ hour.length = 2
  minuteWidth : minute.length = 2
  hourBound : number 10 hour ≤ 24
  minuteBound : number 10 minute ≤ 59

def ClockTime.text (t : ClockTime) : Bytes := t.hour ++ 58 :: t.minute

def ClockTime.minutes (t : ClockTime) : Nat := number 10 t.hour * 60 + number 10 t.minute

structure ClockRange where
  start : ClockTime
  stop : ClockTime
  ordered : start.minutes ≤ stop.minutes

def ClockRange.text (r : ClockRange) : Bytes := r.start.text ++ 45 :: r.stop.text

/-- The names with commas between them. -/
def dayList : List DayWord → Bytes
  | [] => []
  | d :: rest => d.text ++ (rest.map (fun e => 44 :: e.text)).flatten

/-- A string of the documented form, every part of which may be left out. -/
structure TimeForm where
  days : List DayWord
  slash : Bool
  range : Option ClockRange

def TimeForm.text (f : TimeForm) : Bytes :=
  dayList f.days ++ ((if f.slash then [47] else []) ++ (f.range.map ClockRange.text).getD [])

/-- The day is listed, or none is, and the minute lies in the range, if there is one. -/
def TimeForm.Covers (f : TimeForm) (t : Tm) : Prop :=
  (f.days = [] ∨ ∃ d ∈ f.days, d.id = t.wday) ∧
    ∀ r ∈ f.range, r.start.minutes ≤ t.hour * 60 + t.min ∧ (t.hour : Nat) * 60 + t.min ≤ r.stop.minutes

/-- There is a range, with days and a slash in front of it, or with neither when it starts at the end of the day. -/
def TimeForm.Complete (f : TimeForm) : Prop :=
  ∃ r, f.range = some r ∧
    (f.days ≠ [] ∧ f.slash = true ∨ f.days = [] ∧ f.slash = false ∧ 1440 ≤ r.start.minutes)

/-- A C string that fits into the buffer. -/
structure TimeText where
  bytes : Bytes
  plain : 0 ∉ bytes
  short : bytes.length < 1024

/-- The string is of the documented form. -/
def TimeText.Documented (s : TimeText) : Prop := ∃ f : TimeForm, f.text = s.bytes

/-- A documented string is accepted and matches what it covers, any other string is rejected. -/
structure TimeText.Honoured (s : TimeText) : Prop where
  accepted : ∀ f : TimeForm, f.text = s.bytes →
    ∃ acl, aclTimeDup s.bytes = some acl ∧ ∀ t, aclTimeEqual acl (getTimeData t) = true ↔ f.Covers t
  rejected : ¬ s.Documented → aclTimeDup s.bytes = none

/-! ### The form that is read -/

/-- Digits of any width whose number, as an `int`, is within the bounds. -/
structure LooseNumber (bound : Nat) where
  text : Bytes
  value : Nat
  some : text ≠ []
  digits : ∀ c ∈ text, isDigit 10 c
  converted : wrap32 (clampLong (number 10 text)) = value
  bounded : value ≤ bound

/-- What is read: days with a comma in front or not and a slash behind, or none of these; the four numbers; and
any text behind them. -/
structure LooseForm where
  comma : Bool
  days : List DayWord
  h1 : LooseNumber 24
  m1 : LooseNumber 59
  h2 : LooseNumber 24
  m2 : LooseNumber 59
  tail : Bytes
  stop : isDigit 10 (at0 tail 0) = false
  ordered : h1.value * 60 + m1.value ≤ h2.value * 60 + m2.value

def LooseForm.range (f : LooseForm) : Bytes :=
  f.h1.text ++ 58 :: (f.m1.text ++ 45 :: (f.h2.text ++ 58 :: (f.m2.text ++ f.tail)))

def LooseForm.text (f : LooseForm) : Bytes :=
  (if f.days = [] then [] else (if f.comma then [44] else []) ++ (dayList f.days ++ [47])) ++ f.range

def TimeText.Loose (s : TimeText) : Prop := ∃ f : LooseForm, f.text = s.bytes

/-! ### Days -/

theorem timeDays_plain : ∀ d ∈ timeDays, 0 ∉ d.1 := by decide

theorem timeDays_long : ∀ d ∈ timeDays, 0 < d.1.length := by decide

/-- A text starts with the name of a day as a prefix of its small letters. -/
theorem startsWith_day {d : Bytes × Nat} (member : d ∈ timeDays) (s : Bytes) :
    strncaseeq d.1.length s d.1 = (d.1.map toLower).isPrefixOf (s.map toLower) := by
  rw [Bool.eq_iff_iff, strncaseeq_iff d.1 s (timeDays_plain d member), List.isPrefixOf_iff_prefix]
  constructor
  · rintro ⟨n, rest, rfl, same⟩
    exact ⟨rest.map toLower, by rw [← same, List.map_append]⟩
  · rintro ⟨more, whole⟩
    obtain ⟨n, rest, split, front, back⟩ := List.map_eq_append_iff.mp whole.symm
    exact ⟨n, rest, split, front⟩

theorem matchDay_lower (s : Bytes) :
    matchDay s = timeDays.find? (fun d => (d.1.map toLower).isPrefixOf (s.map toLower)) := by
  rw [matchDay]
  exact List.find?_congr (fun _ member => startsWith_day member s)

/-- A byte that a word does not hold ends every front of it. -/
theorem isPrefixOf_stop {c : UInt8} {word : Bytes} (front rest : Bytes) (other : c ∉ word) :
    word.isPrefixOf (front ++ c :: rest) = word.isPrefixOf front := by
  induction word generalizing front with
  | nil => simp
  | cons d word ih =>
      have apart : d ≠ c := fun same => other (by simp [same])
      cases front with
      | nil => simp [List.isPrefixOf, apart]
      | cons e front => simp [List.isPrefixOf, ih front (fun member => other (List.mem_cons_of_mem _ member))]

theorem timeDays_letters : ∀ d ∈ timeDays, ∀ c ∈ d.1.map toLower, 97 ≤ c := by decide +kernel

theorem timeDays_found : ∀ d ∈ timeDays,
    timeDays.find? (fun e => (e.1.map toLower).isPrefixOf (d.1.map toLower)) = some d := by decide +kernel

/-- A day that no letter follows is found, whatever case it is written in. -/
theorem matchDay_complete (w : DayWord) (tail : Bytes) (ends : toLower (at0 tail 0) < 97) :
    ∃ d, matchDay (w.text ++ tail) = some d ∧ d.2 = w.id ∧ d.1.length = w.text.length := by
  obtain ⟨d, member, id, same⟩ := w.named
  have width : d.1.length = w.text.length := by
    simpa using (congrArg List.length same).symm
  refine ⟨d, ?_, id, width⟩
  rw [matchDay_lower, List.map_append, same]
  cases tail with
  | nil => simpa using timeDays_found d member
  | cons c tail =>
      refine Eq.trans (List.find?_congr (fun e entry => ?_)) (timeDays_found d member)
      refine isPrefixOf_stop _ _ (fun letter => ?_)
      exact absurd ends (UInt8.not_lt.mpr (timeDays_letters e entry _ letter))

theorem matchDay_sound {s : Bytes} {d : Bytes × Nat} (found : matchDay s = some d) :
    ∃ (w : DayWord) (rest : Bytes), w.id = d.2 ∧ s = w.text ++ rest ∧ s.drop d.1.length = rest := by
  rw [matchDay] at found
  have member := List.mem_of_find?_eq_some found
  have starts := List.find?_some found
  obtain ⟨n, rest, rfl, same⟩ := (strncaseeq_iff d.1 s (timeDays_plain d member)).mp starts
  have width : d.1.length = n.length := by
    simpa using (congrArg List.length same).symm
  exact ⟨⟨n, d.2, d, member, rfl, same⟩, rest, rfl, rfl, by rw [width, List.drop_left]⟩

/-- The comma that the loop steps over. -/
theorem comma_split (s : Bytes) :
    s = (if at0 s 0 = 44 then [44] else []) ++ (if at0 s 0 = 44 then s.drop 1 else s) := by
  by_cases first : at0 s 0 = 44
  · simpa [first] using drop_of_at0 first (by decide)
  · simp [first]

/-- What the loop has read: the days behind a comma or not, up to where it stops. -/
theorem dayLoop_sound {fuel : Nat} {s tail : Bytes} {days mask : Nat} (read : dayLoop fuel s days = some (mask, tail)) :
    ∃ (w : DayWord) (rest : List DayWord), s = (if at0 s 0 = 44 then [44] else []) ++ (dayList (w :: rest) ++ tail) ∧
      mask = (w :: rest).foldl (fun m d => m ||| 1 <<< d.id) days ∧ at0 tail 0 ≠ 44 := by
  induction fuel generalizing s days with
  | zero => cases read
  | succ fuel ih =>
      have split := comma_split s
      simp only [dayLoop] at read
      generalize (if at0 s 0 = 44 then s.drop 1 else s) = here at split read
      cases found : matchDay here with
      | none => simp [found] at read
      | some d =>
          obtain ⟨w, rest, id, word, behind⟩ := matchDay_sound found
          simp only [found, behind, ← id] at read
          by_cases more : at0 rest 0 = 44
          · rw [if_pos more] at read
            obtain ⟨v, others, list, whole, stop⟩ := ih read
            rw [if_pos more] at list
            refine ⟨w, v :: others, split.trans ?_, whole, stop⟩
            rw [word, list]
            simp [dayList]
          · rw [if_neg more] at read
            cases read
            refine ⟨w, [], split.trans ?_, rfl, more⟩
            rw [word]
            simp [dayList]

theorem DayWord.letters (w : DayWord) : ∀ c ∈ w.text, 97 ≤ toLower c := by
  obtain ⟨d, member, -, same⟩ := w.named
  intro c letter
  exact timeDays_letters d member _ (same ▸ List.mem_map_of_mem letter)

theorem DayWord.long (w : DayWord) : w.text ≠ [] := by
  obtain ⟨d, member, -, same⟩ := w.named
  rintro empty
  have width := congrArg List.length same
  have long := timeDays_long d member
  simp only [empty, List.length_map, List.length_nil] at width
  omega

/-- The first letter of a day is no comma, no slash and no digit. -/
theorem DayWord.first (w : DayWord) (rest : Bytes) : 97 ≤ toLower (at0 (w.text ++ rest) 0) := by
  obtain ⟨c, more, text⟩ := List.exists_cons_of_ne_nil w.long
  have letter := w.letters c (by simp [text])
  simpa [text, at0] using letter

theorem dayLoop_step (comma : Bool) (w : DayWord) (more : Bytes) (days fuel : Nat) (ends : toLower (at0 more 0) < 97) :
    dayLoop (fuel + 1) ((if comma then [44] else []) ++ (w.text ++ more)) days =
      if at0 more 0 = 44 then dayLoop fuel more (days ||| 1 <<< w.id) else some (days ||| 1 <<< w.id, more) := by
  obtain ⟨d, found, id, width⟩ := matchDay_complete w more ends
  have here : (if at0 ((if comma then [44] else []) ++ (w.text ++ more)) 0 = 44
      then ((if comma then [44] else []) ++ (w.text ++ more)).drop 1
      else (if comma then [44] else []) ++ (w.text ++ more)) = w.text ++ more := by
    cases comma with
    | true => simp [at0]
    | false =>
        have letter : at0 (w.text ++ more) 0 ≠ 44 := by
          intro same
          exact absurd (w.first more) (by rw [same]; decide)
        simp [letter]
  simp only [dayLoop, here, found, id, width, List.drop_left]

/-- Days with commas between them are read up to a byte that is neither a comma nor a letter. -/
theorem dayLoop_complete (comma : Bool) (w : DayWord) (rest : List DayWord) (tail : Bytes) (days fuel : Nat)
    (ends : toLower (at0 tail 0) < 97) (stop : at0 tail 0 ≠ 44) (enough : rest.length < fuel) :
    dayLoop fuel ((if comma then [44] else []) ++ (dayList (w :: rest) ++ tail)) days =
      some ((w :: rest).foldl (fun m d => m ||| 1 <<< d.id) days, tail) := by
  obtain ⟨fuel, rfl⟩ : ∃ n, fuel = n + 1 := ⟨fuel - 1, by omega⟩
  induction rest generalizing comma w days fuel with
  | nil =>
      have single : dayList [w] ++ tail = w.text ++ tail := by simp [dayList]
      rw [single, dayLoop_step comma w tail days fuel ends, if_neg stop]
      rfl
  | cons v rest ih =>
      obtain ⟨fuel, rfl⟩ : ∃ n, fuel = n + 1 := ⟨fuel - 1, by simp only [List.length_cons] at enough; omega⟩
      have list : dayList (w :: v :: rest) ++ tail = w.text ++ ([44] ++ (dayList (v :: rest) ++ tail)) := by
        simp [dayList]
      rw [list, dayLoop_step comma w _ days (fuel + 1) (by simp [at0, toLower]), if_pos (by simp [at0])]
      exact ih true v (days ||| 1 <<< w.id) fuel (by simpa using enough)

/-- The mask has the bits of the days. -/
theorem dayMask_testBit (days : List DayWord) (m i : Nat) :
    (days.foldl (fun m d => m ||| 1 <<< d.id) m).testBit i = true ↔ m.testBit i = true ∨ ∃ d ∈ days, d.id = i := by
  induction days generalizing m with
  | nil => simp
  | cons d days ih =>
      have bit : (1 <<< d.id).testBit i = true ↔ d.id = i := by
        rw [Nat.one_shiftLeft, Nat.testBit_two_pow, decide_eq_true_iff]
      rw [List.foldl_cons, ih, Nat.testBit_or, Bool.or_eq_true, bit, List.exists_mem_cons_iff, or_assoc]

/-! ### Numbers -/

theorem timeNumber_digits {bound : Nat} (text rest : Bytes) (some : text ≠ []) (all : ∀ c ∈ text, isDigit 10 c)
    (stop : isDigit 10 (at0 rest 0) = false) :
    timeNumber bound (text ++ rest) =
      if wrap32 (clampLong (number 10 text)) < 0 ∨ bound < wrap32 (clampLong (number 10 text)) then none
      else .some ((wrap32 (clampLong (number 10 text))).toNat, rest) := by
  have read : strtol 10 (text ++ rest) = (clampLong (number 10 text), text.length) := by
    apply strtol_number 10 text rest (by decide) some all
    · intro c first
      obtain ⟨more, rfl⟩ := List.head?_eq_some_iff.mp first
      exact stop
    · obtain ⟨d, ds, rfl⟩ := List.exists_cons_of_ne_nil some
      exact strtolHex_eq_zero 10 d _ (fun x _ sixteen => absurd sixteen (by decide))
  simp only [timeNumber, read, List.drop_left]

theorem timeNumber_iff {bound v : Nat} {s rest : Bytes} (first : isDigit 10 (at0 s 0) = true) :
    timeNumber bound s = some (v, rest) ↔
      ∃ n : LooseNumber bound, n.value = v ∧ s = n.text ++ rest ∧ isDigit 10 (at0 rest 0) = false := by
  constructor
  · intro read
    obtain ⟨all, split, stop⟩ := takeWhile_split (isDigit 10) s
    generalize s.takeWhile (isDigit 10) = text at all split stop
    generalize s.drop text.length = more at split stop
    have behind : isDigit 10 (at0 more 0) = false := by
      cases more with
      | nil => decide
      | cons c more => exact stop c rfl
    have some : text ≠ [] := by
      rintro rfl
      rw [split, List.nil_append, behind] at first
      cases first
    rw [split, timeNumber_digits text more some all behind] at read
    split at read
    · cases read
    · rename_i within
      push Not at within
      simp only [Option.some.injEq, Prod.mk.injEq] at read
      obtain ⟨value, rfl⟩ := read
      exact ⟨⟨text, v, some, all, by omega, by omega⟩, rfl, split, behind⟩
  · rintro ⟨n, rfl, rfl, stop⟩
    have bounded := n.bounded
    rw [timeNumber_digits n.text rest n.some n.digits stop, n.converted, if_neg (by omega)]
    rfl

theorem timePart_iff {bound v : Nat} {mark : UInt8} {s rest : Bytes} (first : isDigit 10 (at0 s 0) = true)
    (visible : mark ≠ 0) (other : isDigit 10 mark = false) :
    timePart bound mark s = some (v, rest) ↔
      ∃ n : LooseNumber bound, n.value = v ∧ s = n.text ++ mark :: rest ∧ isDigit 10 (at0 rest 0) = true := by
  rw [timePart]
  constructor
  · intro read
    cases number : timeNumber bound s with
    | none => simp [number] at read
    | some out =>
        obtain ⟨w, e⟩ := out
        obtain ⟨n, value, split, -⟩ := (timeNumber_iff first).mp number
        simp only [number] at read
        split at read
        · rename_i marked
          cases read
          have behind := drop_of_at0 marked.1 visible
          rw [List.drop_zero] at behind
          refine ⟨n, value, behind ▸ split, ?_⟩
          rw [at0_drop]
          exact marked.2
        · cases read
  · rintro ⟨n, value, split, digit⟩
    have number := (timeNumber_iff first).mpr ⟨n, value, split, other⟩
    simp only [number]
    exact if_pos ⟨rfl, digit⟩

theorem LooseNumber.first {bound : Nat} (n : LooseNumber bound) (rest : Bytes) :
    isDigit 10 (at0 (n.text ++ rest) 0) = true := by
  obtain ⟨c, more, text⟩ := List.exists_cons_of_ne_nil n.some
  have digit := n.digits c (by simp [text])
  simpa [text, at0] using digit

/-- A range is read from the four numbers with the marks between them. -/
theorem timeRange_iff {s : Bytes} {a b : Nat} :
    timeRange s = some (a, b) ↔
      ∃ (h1 : LooseNumber 24) (m1 : LooseNumber 59) (h2 : LooseNumber 24) (m2 : LooseNumber 59) (tail : Bytes),
        s = h1.text ++ 58 :: (m1.text ++ 45 :: (h2.text ++ 58 :: (m2.text ++ tail))) ∧
          isDigit 10 (at0 tail 0) = false ∧ a = h1.value * 60 + m1.value ∧ b = h2.value * 60 + m2.value := by
  rw [timeRange]
  constructor
  · intro read
    split at read
    · rename_i first
      obtain ⟨⟨v1, s1⟩, part1, read1⟩ := Option.bind_eq_some_iff.mp read
      obtain ⟨h1, value1, split1, first1⟩ := (timePart_iff first (by decide) (by decide)).mp part1
      obtain ⟨⟨v2, s2⟩, part2, read2⟩ := Option.bind_eq_some_iff.mp read1
      obtain ⟨m1, value2, split2, first2⟩ := (timePart_iff first1 (by decide) (by decide)).mp part2
      obtain ⟨⟨v3, s3⟩, part3, read3⟩ := Option.bind_eq_some_iff.mp read2
      obtain ⟨h2, value3, split3, first3⟩ := (timePart_iff first2 (by decide) (by decide)).mp part3
      obtain ⟨⟨v4, s4⟩, part4, sums⟩ := Option.map_eq_some_iff.mp read3
      obtain ⟨m2, value4, split4, stop⟩ := (timeNumber_iff first3).mp part4
      subst value1 value2 value3 value4
      simp only [Prod.mk.injEq] at sums
      exact ⟨h1, m1, h2, m2, s4, by rw [split1, split2, split3, split4], stop, sums.1.symm, sums.2.symm⟩
    · cases read
  · rintro ⟨h1, m1, h2, m2, tail, rfl, stop, rfl, rfl⟩
    have part4 := (timeNumber_iff (m2.first tail)).mpr ⟨m2, rfl, rfl, stop⟩
    have part3 := (timePart_iff (h2.first (58 :: (m2.text ++ tail))) (by decide) (by decide)).mpr
      ⟨h2, rfl, rfl, m2.first _⟩
    have part2 := (timePart_iff (m1.first (45 :: (h2.text ++ 58 :: (m2.text ++ tail)))) (by decide) (by decide)).mpr
      ⟨m1, rfl, rfl, h2.first _⟩
    have part1 := (timePart_iff (h1.first (58 :: (m1.text ++ 45 :: (h2.text ++ 58 :: (m2.text ++ tail)))))
      (by decide) (by decide)).mpr ⟨h1, rfl, rfl, m1.first _⟩
    rw [if_pos (h1.first _), part1, Option.bind_some, part2, Option.bind_some, part3, Option.bind_some, part4]
    rfl

/-! ### What is accepted -/

/-- What a string of the loose form stands for. -/
def LooseForm.data (f : LooseForm) : AclTimeData :=
  ⟨f.days.foldl (fun m d => m ||| 1 <<< d.id) 0, f.h1.value * 60 + f.m1.value, f.h2.value * 60 + f.m2.value⟩

theorem digit_range {c : UInt8} (digit : isDigit 10 c = true) : 48 ≤ c ∧ c ≤ 57 := by
  by_contra outside
  simp only [isDigit, digitVal, Bool.and_eq_true, decide_eq_true_iff, if_neg outside] at digit
  split at digit
  · rename_i small
    have low := UInt8.le_iff_toNat_le.mp small.1
    simp only [UInt8.reduceToNat] at low
    omega
  · split at digit
    · rename_i capital
      have low := UInt8.le_iff_toNat_le.mp capital.1
      simp only [UInt8.reduceToNat] at low
      omega
    · omega

theorem digit_small {c : UInt8} (digit : isDigit 10 c = true) : toLower c < 97 ∧ c ≠ 44 ∧ c ≠ 47 := by
  obtain ⟨low, high⟩ := digit_range digit
  have same : toLower c = c := by
    rw [toLower, if_neg]
    rintro capital
    simp only [Bool.and_eq_true, decide_eq_true_iff] at capital
    exact absurd (UInt8.le_trans capital.1 high) (by decide)
  refine ⟨?_, ?_, ?_⟩
  · rw [same]
    exact UInt8.lt_of_le_of_lt high (by decide)
  · rintro rfl
    exact absurd low (by decide)
  · rintro rfl
    exact absurd low (by decide)

theorem letter_not_digit {c : UInt8} (letter : 97 ≤ toLower c) : isDigit 10 c = false := by
  cases digit : isDigit 10 c with
  | false => rfl
  | true => exact absurd (digit_small digit).1 (UInt8.not_lt.mpr letter)

theorem timeFront_digit {s : Bytes} (digit : isDigit 10 (at0 s 0) = true) : timeFront s = some (0, s) := if_pos digit

theorem commas_long (days : List DayWord) : days.length ≤ (days.map (fun e => 44 :: e.text)).flatten.length := by
  induction days with
  | nil => simp
  | cons d days ih =>
      simp only [List.map_cons, List.flatten_cons, List.length_append, List.length_cons]
      omega

/-- Days that a digit, a slash or the end follows are read when the slash is there. -/
theorem timeFront_days (comma : Bool) (w : DayWord) (rest : List DayWord) (tail : Bytes)
    (ends : toLower (at0 tail 0) < 97) (stop : at0 tail 0 ≠ 44) :
    timeFront ((if comma then [44] else []) ++ (dayList (w :: rest) ++ tail)) =
      if at0 tail 0 = 47 then some ((w :: rest).foldl (fun m d => m ||| 1 <<< d.id) 0, tail.drop 1) else none := by
  have letter : isDigit 10 (at0 ((if comma then [44] else []) ++ (dayList (w :: rest) ++ tail)) 0) = false := by
    cases comma with
    | true => exact (by decide : isDigit 10 44 = false)
    | false =>
        have first := w.first ((rest.map (fun e => 44 :: e.text)).flatten ++ tail)
        simpa [dayList] using letter_not_digit first
  have enough : rest.length < ((if comma then [44] else []) ++ (dayList (w :: rest) ++ tail)).length + 1 := by
    have each := commas_long rest
    simp only [dayList, List.length_append]
    omega
  rw [timeFront, letter, dayLoop_complete comma w rest tail 0 _ ends stop enough]
  rfl

theorem timeFront_sound {s rest : Bytes} {mask : Nat} (read : timeFront s = some (mask, rest)) :
    ∃ (comma : Bool) (days : List DayWord),
      s = (if days = [] then [] else (if comma then [44] else []) ++ (dayList days ++ [47])) ++ rest ∧
        mask = days.foldl (fun m d => m ||| 1 <<< d.id) 0 := by
  rw [timeFront] at read
  split at read
  · cases read
    exact ⟨false, [], by simp, rfl⟩
  · cases loop : dayLoop (s.length + 1) s 0 with
    | none => simp [loop] at read
    | some out =>
        obtain ⟨w, days, split, whole, -⟩ := dayLoop_sound loop
        simp only [loop] at read
        split at read
        · rename_i slash
          cases read
          have behind := drop_of_at0 slash (by decide)
          refine ⟨decide (at0 s 0 = 44), w :: days, split.trans ?_, whole⟩
          simp only [List.drop_zero] at behind
          rw [behind]
          simp
        · cases read

/-- A string is accepted exactly when it is of the loose form, with what that stands for. -/
theorem aclTimeDup_iff (s : TimeText) (acl : AclTimeData) :
    aclTimeDup s.bytes = some acl ↔ ∃ f : LooseForm, f.text = s.bytes ∧ f.data = acl := by
  have whole : s.bytes.take 1023 = s.bytes := List.take_of_length_le (Nat.le_of_lt_succ s.short)
  rw [aclTimeDup, whole]
  constructor
  · intro read
    obtain ⟨⟨mask, rest⟩, front, read1⟩ := Option.bind_eq_some_iff.mp read
    obtain ⟨comma, days, split, rfl⟩ := timeFront_sound front
    obtain ⟨⟨a, b⟩, range, read2⟩ := Option.bind_eq_some_iff.mp read1
    obtain ⟨h1, m1, h2, m2, tail, rfl, stop, rfl, rfl⟩ := timeRange_iff.mp range
    split at read2
    · rename_i ordered
      cases read2
      exact ⟨⟨comma, days, h1, m1, h2, m2, tail, stop, ordered⟩, split.symm, rfl⟩
    · cases read2
  · rintro ⟨f, text, rfl⟩
    have range := timeRange_iff.mpr ⟨f.h1, f.m1, f.h2, f.m2, f.tail, rfl, f.stop, rfl, rfl⟩
    have front : timeFront f.text = some (f.days.foldl (fun m d => m ||| 1 <<< d.id) 0, f.range) := by
      rw [LooseForm.text]
      cases listed : f.days with
      | nil => exact timeFront_digit (f.h1.first _)
      | cons w days =>
          have slash : (dayList (w :: days) ++ [47]) ++ f.range = dayList (w :: days) ++ 47 :: f.range := by simp
          rw [if_neg (List.cons_ne_nil _ _), List.append_assoc, slash,
            timeFront_days f.comma w days (47 :: f.range) (by simp [at0, toLower]) (by simp [at0])]
          exact if_pos rfl
    rw [← text, front, Option.bind_some, LooseForm.range, range, Option.bind_some, if_pos f.ordered]
    rfl

theorem aclTimeEqual_iff (f : LooseForm) (t : Tm) :
    aclTimeEqual f.data (getTimeData t) = true ↔
      (∃ d ∈ f.days, d.id = t.wday) ∧ f.h1.value * 60 + f.m1.value ≤ t.hour * 60 + t.min ∧
        (t.hour : Nat) * 60 + t.min ≤ f.h2.value * 60 + f.m2.value := by
  have bit : f.data.days &&& 1 <<< (t.wday : Nat) ≠ 0 ↔ ∃ d ∈ f.days, d.id = t.wday := by
    have mask := dayMask_testBit f.days 0 t.wday
    rw [Nat.zero_testBit] at mask
    rw [Nat.one_shiftLeft, Nat.and_two_pow, LooseForm.data]
    simp only [Bool.false_eq_true, false_or] at mask
    rw [← mask]
    cases (f.days.foldl (fun m d => m ||| 1 <<< d.id) 0).testBit t.wday <;> simp
  rw [aclTimeEqual, Bool.and_eq_true, Bool.and_eq_true, decide_eq_true_iff, decide_eq_true_iff, decide_eq_true_iff,
    and_assoc]
  exact and_congr_left (fun _ => bit)

/-! ### Documented strings -/

theorem number_int (bound : Nat) (text : Bytes) (bounded : number 10 text ≤ bound) (small : bound ≤ 59) :
    wrap32 (clampLong (number 10 text)) = number 10 text := by
  rw [clampLong_of_le _ (by simp only [longMax]; omega), wrap32_of_range _ (by omega) (by omega)]

/-- A number within its bound is the same as an `int`. -/
def LooseNumber.ofDigits (bound : Nat) (text : Bytes) (some : text ≠ []) (digits : ∀ c ∈ text, isDigit 10 c)
    (bounded : number 10 text ≤ bound) (small : bound ≤ 59) : LooseNumber bound :=
  ⟨text, number 10 text, some, digits, number_int bound text bounded small, bounded⟩

theorem ClockTime.hour_some (t : ClockTime) : t.hour ≠ [] := by
  rintro empty
  have width := t.hourWidth
  simp [empty] at width

theorem ClockTime.minute_some (t : ClockTime) : t.minute ≠ [] := by
  rintro empty
  have width := t.minuteWidth
  simp [empty] at width

def ClockTime.looseHour (t : ClockTime) : LooseNumber 24 :=
  .ofDigits 24 t.hour t.hour_some (fun c member => t.digits c (List.mem_append_left _ member)) t.hourBound (by decide)

def ClockTime.looseMinute (t : ClockTime) : LooseNumber 59 :=
  .ofDigits 59 t.minute t.minute_some (fun c member => t.digits c (List.mem_append_right _ member)) t.minuteBound
    (by decide)

/-- Days and a range as they are read. -/
def ClockRange.loose (r : ClockRange) (days : List DayWord) : LooseForm :=
  ⟨false, days, r.start.looseHour, r.start.looseMinute, r.stop.looseHour, r.stop.looseMinute, [], by decide, r.ordered⟩

theorem ClockRange.loose_range (r : ClockRange) (days : List DayWord) : (r.loose days).range = r.text := by
  simp [LooseForm.range, ClockRange.loose, ClockRange.text, ClockTime.text, ClockTime.looseHour,
    ClockTime.looseMinute, LooseNumber.ofDigits]

theorem ClockRange.loose_text (r : ClockRange) {days : List DayWord} (listed : days ≠ []) :
    (r.loose days).text = dayList days ++ 47 :: r.text := by
  rw [LooseForm.text, r.loose_range]
  simp [ClockRange.loose, listed]

/-- A range alone is accepted, with no day in its mask. -/
theorem range_alone (s : TimeText) (r : ClockRange) (text : r.text = s.bytes) :
    aclTimeDup s.bytes = some (r.loose []).data ∧ ∀ t, aclTimeEqual (r.loose []).data (getTimeData t) = false := by
  have same : (r.loose []).text = s.bytes := by
    rw [LooseForm.text, r.loose_range, ← text]
    rfl
  refine ⟨(aclTimeDup_iff s _).mpr ⟨_, same, rfl⟩, fun t => ?_⟩
  rw [Bool.eq_false_iff, ne_eq, aclTimeEqual_iff]
  rintro ⟨⟨d, none, -⟩, -⟩
  cases none

/-- A complete string is accepted and matches what it covers. -/
theorem complete_honoured (s : TimeText) (f : TimeForm) (text : f.text = s.bytes) (complete : f.Complete) :
    ∃ acl, aclTimeDup s.bytes = some acl ∧ ∀ t, aclTimeEqual acl (getTimeData t) = true ↔ f.Covers t := by
  obtain ⟨r, range, ⟨listed, slash⟩ | ⟨empty, slash, late⟩⟩ := complete
  · have same : (r.loose f.days).text = s.bytes := by
      rw [r.loose_text listed, ← text]
      simp [TimeForm.text, slash, range]
    refine ⟨_, (aclTimeDup_iff s _).mpr ⟨r.loose f.days, same, rfl⟩, fun t => ?_⟩
    rw [aclTimeEqual_iff]
    simp only [TimeForm.Covers, listed, false_or, range, Option.mem_def, Option.some.injEq, forall_eq']
    exact Iff.rfl
  · have alone : r.text = s.bytes := by
      rw [← text]
      simp [TimeForm.text, empty, slash, range, dayList]
    obtain ⟨read, never⟩ := range_alone s r alone
    refine ⟨_, read, fun t => ?_⟩
    rw [never t]
    refine iff_of_false (by decide) (fun covers => ?_)
    have from_ := (covers.2 r range).1
    have hour := t.hour.isLt
    have minute := t.min.isLt
    omega

theorem ClockRange.first (r : ClockRange) : isDigit 10 (at0 r.text 0) = true := by
  rw [← r.loose_range []]
  exact (r.loose []).h1.first _

/-- A string of the loose form starts with a digit, a comma or a letter. -/
theorem LooseForm.first (f : LooseForm) :
    isDigit 10 (at0 f.text 0) = true ∨ at0 f.text 0 = 44 ∨ 97 ≤ toLower (at0 f.text 0) := by
  rw [LooseForm.text]
  cases listed : f.days with
  | nil => exact .inl (f.h1.first _)
  | cons w days =>
      rw [if_neg (List.cons_ne_nil _ _)]
      cases f.comma with
      | true => exact .inr (.inl rfl)
      | false =>
          have letter := w.first ((days.map (fun e => 44 :: e.text)).flatten ++ ([47] ++ f.range))
          exact .inr (.inr (by simpa [dayList] using letter))

/-- Without days only a range can be read. -/
theorem no_days_complete (s : TimeText) (honoured : s.Honoured) (f : TimeForm) (text : f.text = s.bytes)
    (none : f.days = []) : f.Complete := by
  obtain ⟨acl, read, same⟩ := honoured.accepted f text
  obtain ⟨g, whole, -⟩ := (aclTimeDup_iff s acl).mp read
  have first := g.first
  rw [whole, ← text] at first
  cases slash : f.slash with
  | true => simp [TimeForm.text, none, slash, dayList, at0, isDigit, digitVal, toLower] at first
  | false =>
      cases range : f.range with
      | none => simp [TimeForm.text, none, slash, range, dayList, at0, isDigit, digitVal, toLower] at first
      | some r =>
          refine ⟨r, range, .inr ⟨none, slash, ?_⟩⟩
          have alone : r.text = s.bytes := by
            rw [← text]
            simp [TimeForm.text, none, slash, range, dayList]
          obtain ⟨again, never⟩ := range_alone s r alone
          obtain rfl := Option.some.inj (read.symm.trans again)
          by_contra early
          have ordered := r.ordered
          have start : ∃ t : Tm, (t.hour : Nat) * 60 + t.min = r.start.minutes :=
            ⟨⟨0, ⟨r.start.minutes / 60, by omega⟩, ⟨r.start.minutes % 60, by omega⟩⟩, by simp; omega⟩
          obtain ⟨t, minute⟩ := start
          have covered : f.Covers t := by
            refine ⟨.inl none, fun r' member => ?_⟩
            obtain rfl := Option.some.inj (range.symm.trans member)
            omega
          exact absurd ((same t).mpr covered) (by rw [never t]; decide)

/-- Days are read only with a slash and a range behind them. -/
theorem days_complete (s : TimeText) (f : TimeForm) (text : f.text = s.bytes) (some : f.days ≠ [])
    {acl : AclTimeData} (read : aclTimeDup s.bytes = .some acl) : f.Complete := by
  have whole : s.bytes.take 1023 = s.bytes := List.take_of_length_le (Nat.le_of_lt_succ s.short)
  rw [aclTimeDup, whole] at read
  obtain ⟨⟨mask, rest⟩, front, range⟩ := Option.bind_eq_some_iff.mp read
  obtain ⟨w, days, listed⟩ := List.exists_cons_of_ne_nil some
  have read_days (tail : Bytes) (ends : toLower (at0 tail 0) < 97) (stop : at0 tail 0 ≠ 44) :
      timeFront (dayList (w :: days) ++ tail) =
        if at0 tail 0 = 47 then .some ((w :: days).foldl (fun m d => m ||| 1 <<< d.id) 0, tail.drop 1) else none := by
    simpa using timeFront_days false w days tail ends stop
  rw [← text, TimeForm.text, listed] at front
  cases slash : f.slash with
  | false =>
      rw [slash] at front
      have outside : ∀ tail : Bytes, tail = [] ∨ isDigit 10 (at0 tail 0) = true →
          timeFront (dayList (w :: days) ++ tail) = none := by
        rintro tail (rfl | digit)
        · exact (read_days [] (by decide) (by decide)).trans (if_neg (by decide))
        · obtain ⟨small, comma, mark⟩ := digit_small digit
          exact (read_days tail small comma).trans (if_neg mark)
      cases range : f.range with
      | none =>
          rw [range] at front
          exact absurd ((outside [] (.inl rfl)).symm.trans front) (by simp)
      | some r =>
          rw [range] at front
          exact absurd ((outside r.text (.inr r.first)).symm.trans front) (by simp)
  | true =>
      cases ranged : f.range with
      | some r => exact ⟨r, ranged, .inl ⟨some, slash⟩⟩
      | none =>
          rw [slash, ranged] at front
          have behind := (read_days [47] (by decide) (by decide)).symm.trans front
          obtain rfl : [] = rest := by
            rw [if_pos (by decide)] at behind
            exact (Prod.mk.inj (Option.some.inj behind)).2
          exact absurd range (by simp [timeRange, at0, isDigit, digitVal])

/-- A string gets its documented meaning exactly when, being documented, it is complete, and what is read of it
is documented. -/
theorem time_honoured_iff (s : TimeText) :
    s.Honoured ↔ (∀ f : TimeForm, f.text = s.bytes → f.Complete) ∧ (s.Loose → s.Documented) := by
  constructor
  · intro honoured
    refine ⟨fun f text => ?_, fun ⟨f, text⟩ => ?_⟩
    · by_cases none : f.days = []
      · exact no_days_complete s honoured f text none
      · obtain ⟨acl, read, -⟩ := honoured.accepted f text
        exact days_complete s f text none read
    · by_contra other
      have read := (aclTimeDup_iff s f.data).mpr ⟨f, text, rfl⟩
      rw [honoured.rejected other] at read
      cases read
  · rintro ⟨complete, documented⟩
    refine ⟨fun f text => complete_honoured s f text (complete f text), fun other => ?_⟩
    cases read : aclTimeDup s.bytes with
    | none => rfl
    | some acl =>
        obtain ⟨f, text, -⟩ := (aclTimeDup_iff s acl).mp read
        exact absurd (documented ⟨f, text⟩) other

/-- The range `20:00-24:00`. -/
def nightRange : ClockRange :=
  ⟨⟨ascii "20", ascii "00", by decide +kernel, by decide +kernel, by decide, by decide, by decide +kernel⟩,
    ⟨ascii "24", ascii "00", by decide +kernel, by decide +kernel, by decide, by decide, by decide +kernel⟩,
    by decide +kernel⟩

/-- The string `20:00-24:00`. -/
def nightText : TimeText := ⟨ascii "20:00-24:00", by decide, by decide⟩

/-- Without a day the documented range `20:00-24:00` is accepted, and does not match at nine in the evening. -/
theorem range_without_days_never_matches :
    ¬ nightText.Honoured ∧
      (aclTimeDup nightText.bytes).map (fun acl => aclTimeEqual acl (getTimeData ⟨3, 21, 0⟩)) = some false := by
  obtain ⟨read, never⟩ := range_alone nightText nightRange (by decide)
  refine ⟨fun honoured => ?_, by rw [read, Option.map_some, never]⟩
  obtain ⟨r, range, ⟨some, -⟩ | ⟨-, -, late⟩⟩ := ((time_honoured_iff nightText).mp honoured).1
    ⟨[], false, some nightRange⟩ (by decide)
  · exact some rfl
  · cases range
    exact absurd late (by decide)

end IcapService
