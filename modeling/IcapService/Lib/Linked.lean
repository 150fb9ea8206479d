import Mathlib.Data.List.Nodup
import Mathlib.Logic.Function.Basic

/-! Singly linked lists.

The nodes are joined by a function that gives the next one, as a pointer field does. -/

namespace IcapService.Linked

variable {α : Type}

/-- The nodes `l` lead from `start` to `stop`. -/
def Seg (next : α → Option α) : Option α → List α → Option α → Prop
  | start, [], stop => start = stop
  | start, a :: l, stop => start = some a ∧ Seg next (next a) l stop

/-- The nodes `l` lead from `start` to the end. -/
def Chain (next : α → Option α) (start : Option α) (l : List α) : Prop := Seg next start l none

variable {next next' : α → Option α} {start stop : Option α} {l m : List α} {a b : α}

theorem seg_append :
    Seg next start (l ++ m) stop ↔ ∃ mid, Seg next start l mid ∧ Seg next mid m stop := by
  induction l generalizing start with
  | nil => simp [Seg]
  | cons a l ih =>
      simp only [List.cons_append, Seg, ih]
      constructor
      · rintro ⟨first, mid, front, back⟩
        exact ⟨mid, ⟨first, front⟩, back⟩
      · rintro ⟨mid, ⟨first, front⟩, back⟩
        exact ⟨first, mid, front, back⟩

theorem Seg.congr (seg : Seg next start l stop) (same : ∀ a ∈ l, next' a = next a) : Seg next' start l stop := by
  induction l generalizing start with
  | nil => exact seg
  | cons a l ih =>
      refine ⟨seg.1, ?_⟩
      rw [same a List.mem_cons_self]
      exact ih seg.2 (fun b member => same b (List.mem_cons_of_mem _ member))

theorem Chain.congr (chain : Chain next start l) (same : ∀ a ∈ l, next' a = next a) : Chain next' start l :=
  Seg.congr chain same

theorem Chain.nil_of_none (chain : Chain next none l) : l = [] := by
  cases l with
  | nil => rfl
  | cons a l => cases chain.1

theorem Chain.cons_of_some (chain : Chain next (some a) l) : ∃ rest, l = a :: rest ∧ Chain next (next a) rest := by
  cases l with
  | nil => cases chain
  | cons b rest =>
      cases chain.1
      exact ⟨rest, rfl, chain.2⟩

theorem Chain.unique (first : Chain next start l) (second : Chain next start m) : l = m := by
  induction l generalizing start m with
  | nil =>
      rw [show start = none from first] at second
      exact second.nil_of_none.symm
  | cons a l ih =>
      obtain ⟨rfl, rest⟩ := first
      obtain ⟨others, rfl, rest'⟩ := second.cons_of_some
      rw [ih rest rest']

/-- A list that ends meets no node twice. -/
theorem Chain.nodup (chain : Chain next start l) : l.Nodup := by
  induction l generalizing start with
  | nil => exact List.nodup_nil
  | cons a l ih =>
      obtain ⟨rfl, rest⟩ := chain
      refine List.nodup_cons.mpr ⟨fun member => ?_, ih rest⟩
      -- behind the second meeting the list would go on as behind the first
      obtain ⟨front, back, split⟩ := List.append_of_mem member
      rw [split] at rest
      obtain ⟨mid, -, again⟩ := seg_append.mp rest
      have whole : Chain next (some a) (a :: l) := ⟨rfl, split ▸ rest⟩
      have same : a :: l = a :: back := whole.unique (again.1 ▸ again)
      have short := congrArg List.length same
      rw [split] at short
      simp only [List.length_cons, List.length_append] at short
      omega

theorem Chain.link (chain : Chain next start (l ++ a :: b :: m)) : next a = some b := by
  obtain ⟨mid, -, -, rest⟩ := seg_append.mp chain
  exact rest.1

theorem Chain.link_last (chain : Chain next start (l ++ [a])) : next a = none := by
  obtain ⟨mid, -, -, rest⟩ := seg_append.mp chain
  exact rest

theorem Chain.head (chain : Chain next start l) : start = l.head? := by
  cases l with
  | nil => exact chain
  | cons a l => exact chain.1

theorem Chain.next_eq (chain : Chain next start (l ++ a :: m)) : next a = m.head? := by
  obtain ⟨mid, -, -, rest⟩ := seg_append.mp chain
  exact Chain.head rest

theorem chain_of_links (links : ∀ i (inside : i < l.length), next l[i] = l[i + 1]?) : Chain next l.head? l := by
  induction l with
  | nil => rfl
  | cons a l ih =>
      refine ⟨rfl, ?_⟩
      have first := links 0 (Nat.zero_lt_succ _)
      have rest := ih (fun i inside => links (i + 1) (Nat.succ_lt_succ inside))
      rw [List.getElem_cons_zero, List.getElem?_cons_succ, ← List.head?_eq_getElem?] at first
      rw [first]
      exact rest

/-! ### Walking to a node -/

/-- The walk that stops at the first node with the property, or at the end: the node it came from, and where it
stands. -/
def seek (next : α → Option α) (hit : α → Bool) : Nat → Option α → Option α → Option (Option α × Option α)
  | 0, _, _ => none
  | _ + 1, prev, none => some (prev, none)
  | fuel + 1, prev, some a => if hit a then some (prev, some a) else seek next hit fuel (some a) (next a)

theorem getLast?_cons_or (a : α) (l : List α) (prev : Option α) :
    (a :: l).getLast?.or prev = l.getLast?.or (some a) := by
  rw [List.getLast?_cons]
  cases l.getLast? with
  | none => rfl
  | some b => rfl

theorem seek_pass {hit : α → Bool} (fuel : Nat) (prev : Option α) (miss : hit a = false) :
    seek next hit (fuel + 1) prev (some a) = seek next hit fuel (some a) (next a) := by
  rw [seek, if_neg]
  rw [miss]
  exact Bool.false_ne_true

theorem Chain.seek_hit (chain : Chain next start (l ++ a :: m)) {hit : α → Bool} (prev : Option α)
    (misses : ∀ b ∈ l, hit b = false) (hits : hit a = true) {fuel : Nat} (enough : l.length < fuel) :
    seek next hit fuel prev start = some (l.getLast?.or prev, some a) := by
  induction l generalizing start prev fuel with
  | nil =>
      obtain ⟨fuel, rfl⟩ := Nat.exists_eq_add_of_lt enough
      rw [show start = some a from chain.1, seek, if_pos hits]
      rfl
  | cons c l ih =>
      cases fuel with
      | zero => cases enough
      | succ fuel =>
          have rest := ih chain.2 (some c) (fun b member => misses b (List.mem_cons_of_mem _ member))
            (Nat.lt_of_succ_lt_succ enough)
          rw [show start = some c from chain.1, seek_pass fuel prev (misses c List.mem_cons_self), rest,
            getLast?_cons_or]

theorem Chain.seek_miss (chain : Chain next start l) {hit : α → Bool} (prev : Option α)
    (misses : ∀ b ∈ l, hit b = false) {fuel : Nat} (enough : l.length < fuel) :
    seek next hit fuel prev start = some (l.getLast?.or prev, none) := by
  induction l generalizing start prev fuel with
  | nil =>
      obtain ⟨fuel, rfl⟩ := Nat.exists_eq_add_of_lt enough
      rw [show start = none from chain, seek]
      rfl
  | cons c l ih =>
      cases fuel with
      | zero => cases enough
      | succ fuel =>
          have rest := ih chain.2 (some c) (fun b member => misses b (List.mem_cons_of_mem _ member))
            (Nat.lt_of_succ_lt_succ enough)
          rw [show start = some c from chain.1, seek_pass fuel prev (misses c List.mem_cons_self), rest,
            getLast?_cons_or]

/-- Where a walk stops, whether at a node or at the end. -/
theorem Chain.seek_split (chain : Chain next start l) (hit : α → Bool) (prev : Option α) {fuel : Nat}
    (enough : l.length < fuel) :
    ∃ x y, l = x ++ y ∧ (∀ b ∈ x, hit b = false) ∧ (∀ b, y.head? = some b → hit b = true) ∧
      seek next hit fuel prev start = some (x.getLast?.or prev, y.head?) := by
  cases found : l.find? hit with
  | none =>
      have misses : ∀ b ∈ l, hit b = false := fun b member => Bool.eq_false_iff.mpr (List.find?_eq_none.mp found b member)
      refine ⟨l, [], (List.append_nil l).symm, misses, fun b first => ?_, chain.seek_miss prev misses enough⟩
      cases first
  | some a =>
      obtain ⟨hits, x, y, rfl, missed⟩ := List.find?_eq_some_iff_append.mp found
      have misses : ∀ b ∈ x, hit b = false := fun b member => by simpa using missed b member
      rw [List.length_append] at enough
      refine ⟨x, a :: y, rfl, misses, fun b first => ?_,
        chain.seek_hit prev misses hits (Nat.lt_of_le_of_lt (Nat.le_add_right _ _) enough)⟩
      cases first
      exact hits

/-- The nodes of a list, as far as the fuel goes. -/
def walk (next : α → Option α) : Nat → Option α → List α
  | 0, _ => []
  | _ + 1, none => []
  | fuel + 1, some a => a :: walk next fuel (next a)

theorem Chain.walk (chain : Chain next start l) {fuel : Nat} (enough : l.length ≤ fuel) :
    walk next fuel start = l := by
  induction l generalizing start fuel with
  | nil =>
      rw [show start = none from chain]
      cases fuel with
      | zero => rfl
      | succ fuel => rfl
  | cons a l ih =>
      cases fuel with
      | zero => cases enough
      | succ fuel =>
          rw [show start = some a from chain.1, Linked.walk, ih chain.2 (Nat.le_of_succ_le_succ enough)]

/-! ### Changing one link -/

variable [DecidableEq α]

/-- A node that is not on the list may be linked to anything. -/
theorem Chain.update (chain : Chain next start l) (apart : a ∉ l) (link : Option α) :
    Chain (Function.update next a link) start l := by
  refine chain.congr (fun b member => Function.update_of_ne ?_ _ _)
  rintro rfl
  exact apart member

theorem Chain.push (chain : Chain next start l) (fresh : a ∉ l) :
    Chain (Function.update next a start) (some a) (a :: l) := by
  refine ⟨rfl, ?_⟩
  rw [Function.update_self]
  exact chain.update fresh start

/-- A node is taken out by the link around it. -/
theorem Chain.cut (chain : Chain next start (l ++ a :: b :: m)) :
    Chain (Function.update next a (next b)) start (l ++ a :: m) := by
  have nodup := chain.nodup
  rw [List.nodup_append, List.nodup_cons] at nodup
  obtain ⟨-, ⟨behind, -⟩, before⟩ := nodup
  obtain ⟨mid, front, first, -, rest⟩ := seg_append.mp chain
  refine seg_append.mpr ⟨mid, ?_, first, ?_⟩
  · refine front.congr (fun c member => Function.update_of_ne ?_ _ _)
    rintro rfl
    exact before c member c List.mem_cons_self rfl
  · rw [Function.update_self]
    exact Chain.update rest (fun member => behind (List.mem_cons_of_mem _ member)) _

/-- The last node is linked to another one, which ends the list then. -/
theorem Chain.snoc (chain : Chain next start (l ++ [a])) (fresh : b ∉ l ++ [a]) :
    Chain (Function.update (Function.update next a (some b)) b none) start (l ++ [a, b]) := by
  have nodup := chain.nodup
  rw [List.nodup_append] at nodup
  obtain ⟨mid, front, first, -⟩ := seg_append.mp chain
  have apart : b ≠ a := by
    rintro rfl
    exact fresh (by simp)
  refine seg_append.mpr ⟨mid, ?_, first, ?_⟩
  · refine front.congr (fun c member => ?_)
    have other : c ≠ b := by
      rintro rfl
      exact fresh (by simp [member])
    have other' : c ≠ a := nodup.2.2 c member a List.mem_cons_self
    rw [Function.update_of_ne other, Function.update_of_ne other']
  · rw [Function.update_of_ne apart.symm, Function.update_self]
    exact ⟨rfl, Function.update_self _ _ _⟩

/-- A node that leads on as `a` does is put behind it. -/
theorem Chain.insert (chain : Chain next start (l ++ a :: m)) (fresh : b ∉ l ++ a :: m) (onward : next b = next a) :
    Chain (Function.update next a (some b)) start (l ++ a :: b :: m) := by
  have nodup := chain.nodup
  rw [List.nodup_append, List.nodup_cons] at nodup
  obtain ⟨-, ⟨behind, -⟩, before⟩ := nodup
  have apart : b ≠ a := by
    intro same
    apply fresh
    rw [same]
    exact List.mem_append_right _ List.mem_cons_self
  obtain ⟨mid, front, first, rest⟩ := seg_append.mp chain
  refine seg_append.mpr ⟨mid, ?_, first, ?_⟩
  · refine front.congr (fun c member => Function.update_of_ne ?_ _ _)
    rintro rfl
    exact before c member c List.mem_cons_self rfl
  · rw [Function.update_self]
    refine ⟨rfl, ?_⟩
    rw [Function.update_of_ne apart, onward]
    exact Chain.update rest behind _

/-! ### Walking to the node in front of another -/

/-- The walk from a node on that stops in front of `e` or at the last node. -/
def findBefore (next : α → Option α) (e : α) : Nat → α → Option α
  | 0, _ => none
  | fuel + 1, a =>
      match next a with
      | none => some a
      | some b => if b = e then some a else findBefore next e fuel b

theorem Chain.findBefore (chain : Chain next (some a) l) (e : α) {fuel : Nat} (enough : l.length ≤ fuel) :
    ∃ p, findBefore next e fuel a = some p ∧
      ((next p = none ∧ e ∉ l.tail) ∨ ∃ front back, l = front ++ p :: e :: back) := by
  induction fuel generalizing a l with
  | zero =>
      obtain ⟨rest, rfl, -⟩ := chain.cons_of_some
      cases enough
  | succ fuel ih =>
      obtain ⟨rest, rfl, onward⟩ := chain.cons_of_some
      rw [Linked.findBefore]
      cases link : next a with
      | none =>
          rw [link] at onward
          refine ⟨a, rfl, .inl ⟨link, ?_⟩⟩
          rw [onward.nil_of_none]
          exact List.not_mem_nil
      | some b =>
          rw [link] at onward
          obtain ⟨others, rfl, -⟩ := onward.cons_of_some
          by_cases here : b = e
          · subst here
            exact ⟨a, by simp, .inr ⟨[], others, rfl⟩⟩
          · obtain ⟨p, found, stops⟩ := ih onward (Nat.le_of_succ_le_succ enough)
            refine ⟨p, by simp [here, found], ?_⟩
            rcases stops with ⟨last, apart⟩ | ⟨front, back, split⟩
            · refine .inl ⟨last, fun member => ?_⟩
              rcases List.mem_cons.mp member with rfl | member
              · exact here rfl
              · exact apart member
            · exact .inr ⟨a :: front, back, by rw [split]; rfl⟩

end IcapService.Linked
