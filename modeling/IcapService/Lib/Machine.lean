import Mathlib.Order.Basic

/-! Loops as step functions.

A pass of a loop either goes on in a new state or leaves with a result. The rules below turn
facts about one pass into facts about every run. -/

namespace IcapService.Machine

inductive Step (σ ρ : Type) where
  | next (s : σ)
  | done (r : ρ)
  deriving DecidableEq, Repr

variable {σ ρ υ : Type}

namespace Step

def isDone : Step σ ρ → Bool
  | next _ => false
  | done _ => true

/-- Two parts of a pass, the second of them left out when the first leaves. -/
def bind (x : Step σ ρ) (f : σ → Step υ ρ) : Step υ ρ :=
  match x with
  | next s => f s
  | done r => done r

/-- The pass goes on in a state of `P`, or leaves with a result of `R`. -/
def All (P : σ → Prop) (R : ρ → Prop) : Step σ ρ → Prop
  | next s => P s
  | done r => R r

theorem All.imp {P P' : σ → Prop} {R R' : ρ → Prop} {x : Step σ ρ} (all : x.All P R)
    (states : ∀ s, P s → P' s) (results : ∀ r, R r → R' r) : x.All P' R' := by
  cases x with
  | next s => exact states s all
  | done r => exact results r all

theorem All.bind {P : σ → Prop} {Q : υ → Prop} {R : ρ → Prop} {x : Step σ ρ} {f : σ → Step υ ρ}
    (first : x.All P R) (second : ∀ s, P s → (f s).All Q R) : (x.bind f).All Q R := by
  cases x with
  | next s => exact second s first
  | done r => exact first

/-- A pass of a loop that is part of a larger one: `inside` is where the larger loop stands while
the small one goes on, `behind` is what it does with its result. -/
def within {α β : Type} (x : Step α β) (inside : α → σ) (behind : β → Step σ ρ) : Step σ ρ :=
  match x with
  | next a => next (inside a)
  | done r => behind r

theorem All.within {α β : Type} {P : α → Prop} {R : β → Prop} {Q : σ → Prop} {T : ρ → Prop} {x : Step α β}
    {inside : α → σ} {behind : β → Step σ ρ} (all : x.All P R) (states : ∀ a, P a → Q (inside a))
    (results : ∀ r, R r → (behind r).All Q T) : (x.within inside behind).All Q T := by
  cases x with
  | next a => exact states a all
  | done r => exact results r all

theorem All.and {P P' : σ → Prop} {R R' : ρ → Prop} {x : Step σ ρ} (all : x.All P R) (all' : x.All P' R') :
    x.All (fun s => P s ∧ P' s) (fun r => R r ∧ R' r) := by
  cases x with
  | next s => exact ⟨all, all'⟩
  | done r => exact ⟨all, all'⟩

end Step

/-- The result after at most the given number of passes. -/
def run (step : σ → Step σ ρ) : Nat → σ → Option ρ
  | 0, _ => none
  | fuel + 1, s =>
      match step s with
      | .next t => run step fuel t
      | .done r => some r

def Halts (step : σ → Step σ ρ) (s : σ) : Prop := ∃ fuel r, run step fuel s = some r

/-- The states a loop started in the first one passes through, itself included. -/
inductive Visits (step : σ → Step σ ρ) : σ → σ → Prop where
  | here (s : σ) : Visits step s s
  | later {s t u : σ} (pass : step s = .next t) (rest : Visits step t u) : Visits step s u

theorem Visits.snoc {step : σ → Step σ ρ} {s t u : σ} (visited : Visits step s t)
    (pass : step t = .next u) : Visits step s u := by
  induction visited with
  | here => exact .later pass (.here _)
  | later first rest ih => exact .later first (ih pass)

/-- A state that is visited is the first one or is visited from the next. -/
theorem Visits.cases_next {step : σ → Step σ ρ} {s t u : σ} (visited : Visits step s u)
    (pass : step s = .next t) : u = s ∨ Visits step t u := by
  cases visited with
  | here => exact .inl rfl
  | later first rest =>
      rw [pass] at first
      cases first
      exact .inr rest

theorem Visits.eq_of_done {step : σ → Step σ ρ} {s u : σ} (visited : Visits step s u)
    (pass : (step s).isDone) : u = s := by
  cases visited with
  | here => rfl
  | later first rest =>
      rw [first] at pass
      cases pass

theorem run_next {step : σ → Step σ ρ} {s t : σ} (fuel : Nat) (pass : step s = .next t) :
    run step (fuel + 1) s = run step fuel t := by
  simp only [run, pass]

theorem run_done {step : σ → Step σ ρ} {s : σ} {r : ρ} (fuel : Nat) (pass : step s = .done r) :
    run step (fuel + 1) s = some r := by
  simp only [run, pass]

theorem run_mono {step : σ → Step σ ρ} {n m : Nat} {s : σ} {r : ρ} (result : run step n s = some r)
    (more : n ≤ m) : run step m s = some r := by
  induction n generalizing m s with
  | zero => cases result
  | succ n ih =>
      obtain ⟨k, rfl⟩ : ∃ k, m = k + 1 := ⟨m - 1, by omega⟩
      cases pass : step s with
      | done out => rwa [run_done k pass, ← run_done n pass]
      | next t =>
          rw [run_next n pass] at result
          rw [run_next k pass]
          exact ih result (by omega)

/-- A loop whose passes lower a measure in every state it visits ends. -/
theorem run_of_measure (step : σ → Step σ ρ) (measure : σ → Nat) (fuel : Nat) (s : σ)
    (enough : measure s < fuel)
    (lower : ∀ t u, Visits step s t → step t = .next u → measure u < measure t) :
    ∃ r, run step fuel s = some r := by
  induction fuel generalizing s with
  | zero => omega
  | succ fuel ih =>
      cases pass : step s with
      | done r => exact ⟨r, run_done fuel pass⟩
      | next t =>
          have small := lower s t (.here s) pass
          obtain ⟨r, result⟩ := ih t (by omega)
            (fun u v visited => lower u v (.later pass visited))
          exact ⟨r, (run_next fuel pass).trans result⟩

theorem halts_of_measure (step : σ → Step σ ρ) (measure : σ → Nat) (s : σ)
    (lower : ∀ t u, Visits step s t → step t = .next u → measure u < measure t) :
    Halts step s :=
  ⟨measure s + 1, run_of_measure step measure (measure s + 1) s (Nat.lt_succ_self _) lower⟩

/-- A loop that stays in a set of states no pass can leave runs for ever. -/
theorem not_halts_of_trap (step : σ → Step σ ρ) (Trap : σ → Prop)
    (stay : ∀ s, Trap s → ∃ t, step s = .next t ∧ Trap t) (s : σ) (inside : Trap s) :
    ¬ Halts step s := by
  rintro ⟨fuel, r, result⟩
  induction fuel generalizing s with
  | zero => cases result
  | succ fuel ih =>
      obtain ⟨t, pass, inside'⟩ := stay s inside
      rw [run_next fuel pass] at result
      exact ih t inside' result

/-- The loop rule: a pass from a state of the invariant either keeps it with a lower rank, or leaves with the
postcondition. -/
theorem run_ranked (step : σ → Step σ ρ) (Inv : Nat → σ → Prop) (Post : ρ → Prop)
    (pass : ∀ n s, Inv n s → (∃ t, step s = .next t ∧ ∃ k < n, Inv k t) ∨ ∃ r, step s = .done r ∧ Post r)
    {fuel n : Nat} {s : σ} (holds : Inv n s) (enough : n < fuel) : ∃ r, run step fuel s = some r ∧ Post r := by
  induction fuel generalizing n s with
  | zero => omega
  | succ fuel ih =>
      rcases pass n s holds with ⟨t, next, k, lower, invariant⟩ | ⟨r, done, post⟩
      · obtain ⟨r, result, post⟩ := ih invariant (by omega)
        exact ⟨r, (run_next fuel next).trans result, post⟩
      · exact ⟨r, run_done fuel done, post⟩

/-- The loop rule with a measure of the states. -/
theorem run_spec (step : σ → Step σ ρ) (measure : σ → Nat) (Inv : σ → Prop) (Post : ρ → Prop)
    (pass : ∀ s, Inv s → (∃ t, step s = .next t ∧ Inv t ∧ measure t < measure s) ∨
      ∃ r, step s = .done r ∧ Post r)
    (fuel : Nat) (s : σ) (holds : Inv s) (enough : measure s < fuel) :
    ∃ r, run step fuel s = some r ∧ Post r := by
  refine run_ranked step (fun n s => Inv s ∧ measure s = n) Post ?_ ⟨holds, rfl⟩ enough
  rintro n s ⟨invariant, rfl⟩
  rcases pass s invariant with ⟨t, next, kept, lower⟩ | done
  · exact .inl ⟨t, next, measure t, lower, kept, rfl⟩
  · exact .inr done

/-- Partial form of the loop rule: no measure, and the postcondition holds of any result. -/
theorem run_post (step : σ → Step σ ρ) (Inv : σ → Prop) (Post : ρ → Prop)
    (pass : ∀ s, Inv s → (step s).All Inv Post)
    (fuel : Nat) (s : σ) (r : ρ) (holds : Inv s) (result : run step fuel s = some r) :
    Post r := by
  induction fuel generalizing s with
  | zero => cases result
  | succ fuel ih =>
      have keep := pass s holds
      cases way : step s with
      | done out =>
          rw [run_done fuel way] at result
          cases result
          rw [way] at keep
          exact keep
      | next t =>
          rw [run_next fuel way] at result
          rw [way] at keep
          exact ih t keep result

/-- What every pass keeps holds in every state of a run. -/
theorem Visits.inv {step : σ → Step σ ρ} {Inv : σ → Prop} {Post : ρ → Prop}
    (pass : ∀ s, Inv s → (step s).All Inv Post) {s t : σ} (visited : Visits step s t) (holds : Inv s) : Inv t := by
  induction visited with
  | here => exact holds
  | later first rest ih =>
      have keep := pass _ holds
      rw [first] at keep
      exact ih keep

/-- A run that ends visits a state in which the loop leaves. -/
theorem Visits.of_run {step : σ → Step σ ρ} {fuel : Nat} {s : σ} {r : ρ} (result : run step fuel s = some r) :
    ∃ t, Visits step s t ∧ step t = .done r := by
  induction fuel generalizing s with
  | zero => cases result
  | succ fuel ih =>
      cases pass : step s with
      | done out =>
          rw [run_done fuel pass] at result
          cases result
          exact ⟨s, .here s, pass⟩
      | next t =>
          rw [run_next fuel pass] at result
          obtain ⟨u, visited, done⟩ := ih result
          exact ⟨u, .later pass visited, done⟩

/-- A state that is visited and in which the loop leaves gives the result. -/
theorem Visits.to_run {step : σ → Step σ ρ} {s t : σ} {r : ρ} (visited : Visits step s t) (pass : step t = .done r) :
    ∃ fuel, run step fuel s = some r := by
  induction visited with
  | here s => exact ⟨1, run_done 0 pass⟩
  | later first rest ih =>
      obtain ⟨fuel, result⟩ := ih pass
      exact ⟨fuel + 1, (run_next fuel first).trans result⟩

section

variable {α β : Type} {step : σ → Step σ ρ} {inner : α → Step α β} {inside : α → σ} {behind : β → Step σ ρ}

/-- A run of a loop that is part of a larger one. -/
theorem run_within (part : ∀ a, step (inside a) = (inner a).within inside behind) {n k : Nat} {a : α} {r : β}
    {out : ρ} (result : run inner n a = some r)
    (rest : behind r = .done out ∨ ∃ t, behind r = .next t ∧ run step k t = some out) :
    run step (n + k) (inside a) = some out := by
  induction n generalizing a with
  | zero => cases result
  | succ n ih =>
      rw [show n + 1 + k = n + k + 1 by omega]
      have pass := part a
      cases way : inner a with
      | next b =>
          rw [run_next n way] at result
          rw [way] at pass
          rw [run_next (n + k) pass]
          exact ih result
      | done r' =>
          rw [run_done n way] at result
          cases result
          rw [way] at pass
          change step (inside a) = behind r at pass
          rcases rest with done | ⟨t, next, final⟩
          · exact run_done (n + k) (pass.trans done)
          · rw [run_next (n + k) (pass.trans next)]
            exact run_mono final (by omega)

/-- A state visited from inside a small loop belongs to it or is visited behind it. -/
theorem Visits.within (part : ∀ a, step (inside a) = (inner a).within inside behind) {a : α} {u : σ}
    (visited : Visits step (inside a) u) :
    (∃ b, Visits inner a b ∧ u = inside b) ∨
      ∃ b r t, Visits inner a b ∧ inner b = .done r ∧ behind r = .next t ∧ Visits step t u := by
  generalize start : inside a = s at visited
  induction visited generalizing a with
  | here => exact .inl ⟨a, .here a, start.symm⟩
  | later pass rest ih =>
      subst start
      rw [part a] at pass
      cases way : inner a with
      | next b =>
          rw [way] at pass
          cases pass
          rcases ih rfl with ⟨c, visited, same⟩ | ⟨c, r, t, visited, done, next, final⟩
          · exact .inl ⟨c, .later way visited, same⟩
          · exact .inr ⟨c, r, t, .later way visited, done, next, final⟩
      | done r =>
          rw [way] at pass
          exact .inr ⟨a, r, _, .here a, way, pass, rest⟩

end

/-- The states of a run of at most the given number of passes. -/
def trace (step : σ → Step σ ρ) : Nat → σ → List σ
  | 0, _ => []
  | fuel + 1, s =>
      s :: match step s with
        | .next t => trace step fuel t
        | .done _ => []

end IcapService.Machine
