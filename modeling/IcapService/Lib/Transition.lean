import Mathlib.Logic.Basic

/-! Systems that take one action at a time.

Which action comes next is left to the environment, so a fact about every run is a fact about every
list of actions. -/

namespace IcapService.Transition

variable {σ α : Type} {step : σ → α → Option σ}

/-- The states reached from the first one by actions that `ok` allows where they are taken. -/
inductive Reaches (step : σ → α → Option σ) (ok : σ → α → Prop) (first : σ) : σ → Prop where
  | here : Reaches step ok first first
  | later {s t : σ} {a : α} (before : Reaches step ok first s) (allowed : ok s a) (pass : step s a = some t) :
      Reaches step ok first t

/-- What holds at first and is kept by every action holds in every state reached. -/
theorem Reaches.inv {ok : σ → α → Prop} {first s : σ} {P : σ → Prop} (reached : Reaches step ok first s)
    (start : P first) (keeps : ∀ s t a, P s → ok s a → step s a = some t → P t) : P s := by
  induction reached with
  | here => exact start
  | later _ allowed pass ih => exact keeps _ _ _ ih allowed pass

/-- The state behind a list of actions, if all of them can be taken and pass the guard. -/
def replay (step : σ → α → Option σ) (guard : σ → α → Bool) : σ → List α → Option σ
  | s, [] => some s
  | s, a :: rest => if guard s a then (step s a).bind (fun t => replay step guard t rest) else none

theorem Reaches.of_replay {ok : σ → α → Prop} {guard : σ → α → Bool} (passes : ∀ s a, guard s a = true → ok s a)
    {first s t : σ} {actions : List α} (reached : Reaches step ok first s)
    (replayed : replay step guard s actions = some t) : Reaches step ok first t := by
  induction actions generalizing s with
  | nil =>
      cases replayed
      exact reached
  | cons a rest ih =>
      simp only [replay] at replayed
      split at replayed
      · rename_i passed
        obtain ⟨u, pass, onward⟩ := Option.bind_eq_some_iff.mp replayed
        exact ih (.later reached (passes s a passed) pass) onward
      · cases replayed

/-- A system that keeps to its model up to the first bad action, and is seen to leave it there, keeps to it in every
state of a run just when no action of the run is bad. -/
theorem agrees_iff_no_bad {τ : Type} {spec : τ → α → τ} {Inv Good : σ → τ → Prop} {Bad : τ → α → Prop}
    (good : ∀ s p, Inv s p → Good s p)
    (keeps : ∀ s p a, Inv s p → ¬Bad p a → ∃ t, step s a = some t ∧ Inv t (spec p a))
    (breaks : ∀ s p a t, Inv s p → Bad p a → step s a = some t → ¬Good t (spec p a))
    {s : σ} {p : τ} (inv : Inv s p) (actions : List α) :
    (∀ done, done <+: actions → ∃ t, done.foldlM step s = some t ∧ Good t (done.foldl spec p)) ↔
      ∀ done a, done ++ [a] <+: actions → ¬Bad (done.foldl spec p) a := by
  induction actions generalizing s p with
  | nil =>
      constructor
      · intro _ done a run
        simp at run
      · intro _ done run
        rw [List.prefix_nil.mp run]
        exact ⟨s, rfl, good s p inv⟩
  | cons b rest ih =>
      constructor
      · intro agrees done a run
        have fine : ¬Bad p b := by
          intro bad
          obtain ⟨t, pass, holds⟩ := agrees [b] (by simp)
          rw [List.foldlM_cons] at pass
          obtain ⟨u, taken, same⟩ := Option.bind_eq_some_iff.mp pass
          cases same
          exact breaks s p b _ inv bad taken holds
        obtain ⟨t, pass, inv'⟩ := keeps s p b inv fine
        cases done with
        | nil =>
            have same : a = b := (List.cons_prefix_cons.mp run).1
            rw [same]
            exact fine
        | cons c done =>
            obtain ⟨rfl, later⟩ := List.cons_prefix_cons.mp run
            refine (ih inv').mp (fun d onward => ?_) done a later
            obtain ⟨u, result, holds⟩ := agrees (c :: d) (List.cons_prefix_cons.mpr ⟨rfl, onward⟩)
            rw [List.foldlM_cons, pass] at result
            exact ⟨u, result, holds⟩
      · intro fine done run
        cases done with
        | nil => exact ⟨s, rfl, good s p inv⟩
        | cons c done =>
            obtain ⟨rfl, later⟩ := List.cons_prefix_cons.mp run
            obtain ⟨t, pass, inv'⟩ := keeps s p c inv (fine [] c (by simp))
            obtain ⟨u, result, holds⟩ :=
              (ih inv').mpr (fun d a onward => fine (c :: d) a (List.cons_prefix_cons.mpr ⟨rfl, onward⟩)) done later
            refine ⟨u, ?_, holds⟩
            rw [List.foldlM_cons, pass]
            exact result

/-- The same for a property of the states: it holds in every state of a run just when no action of the run is bad. -/
theorem holds_iff_no_bad {Inv Good : σ → Prop} {Bad : σ → α → Prop} (good : ∀ s, Inv s → Good s)
    (keeps : ∀ s a, Inv s → ¬Bad s a → ∃ t, step s a = some t ∧ Inv t)
    (breaks : ∀ s a t, Inv s → Bad s a → step s a = some t → ¬Good t)
    {s : σ} (start : Inv s) (actions : List α) :
    (∀ done, done <+: actions → ∃ t, done.foldlM step s = some t ∧ Good t) ↔
      ∀ done a t, done ++ [a] <+: actions → done.foldlM step s = some t → ¬Bad t a := by
  induction actions generalizing s with
  | nil =>
      constructor
      · intro _ done a t run
        simp at run
      · intro _ done run
        rw [List.prefix_nil.mp run]
        exact ⟨s, rfl, good s start⟩
  | cons b rest ih =>
      constructor
      · intro holds done a t run reached bad
        have fine : ¬Bad s b := by
          intro bad
          obtain ⟨u, pass, fits⟩ := holds [b] (by simp)
          rw [List.foldlM_cons] at pass
          obtain ⟨v, taken, same⟩ := Option.bind_eq_some_iff.mp pass
          cases same
          exact breaks s b _ start bad taken fits
        obtain ⟨u, pass, inv⟩ := keeps s b start fine
        cases done with
        | nil =>
            cases reached
            rw [(List.cons_prefix_cons.mp run).1] at bad
            exact fine bad
        | cons c done =>
            obtain ⟨rfl, later⟩ := List.cons_prefix_cons.mp run
            rw [List.foldlM_cons, pass] at reached
            refine (ih inv).mp (fun d onward => ?_) done a t later reached bad
            obtain ⟨v, result, fits⟩ := holds (c :: d) (List.cons_prefix_cons.mpr ⟨rfl, onward⟩)
            rw [List.foldlM_cons, pass] at result
            exact ⟨v, result, fits⟩
      · intro fine done run
        cases done with
        | nil => exact ⟨s, rfl, good s start⟩
        | cons c done =>
            obtain ⟨rfl, later⟩ := List.cons_prefix_cons.mp run
            obtain ⟨u, pass, inv⟩ := keeps s c start (fine [] c s (by simp) rfl)
            obtain ⟨v, result, fits⟩ := (ih inv).mpr (fun d a t onward reached => fine (c :: d) a t
              (List.cons_prefix_cons.mpr ⟨rfl, onward⟩) (by rw [List.foldlM_cons, pass]; exact reached)) done later
            refine ⟨v, ?_, fits⟩
            rw [List.foldlM_cons, pass]
            exact result

end IcapService.Transition
