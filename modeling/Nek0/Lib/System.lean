/-!
# `Nek0.Lib.System`: labelled transition systems

A `System` has initial states and a partial, deterministic step for each label. Nondeterminism
is in the choice of the label. `Run ok` holds of the states that are reached when every step
satisfies the step condition `ok`. `Reachable` is `Run` with no condition.

* `Run.invariant`: a predicate that holds initially and is kept by every step holds of every
  state reached.
* `Run.of_exec`: a list of labels that executes, with `ok` checked along the way, is a run.
-/

set_option autoImplicit false

namespace Nek0.Lib

/-- A labelled transition system: the initial states, and what a label does to a state, if it
is enabled there. -/
structure System (σ ι : Type) where
  init : σ → Prop
  next : ι → σ → Option σ

namespace System

variable {σ ι : Type} {S : System σ ι} {ok ok' : σ → ι → Prop}

/-- The states of the runs all of whose steps satisfy `ok`. -/
inductive Run (S : System σ ι) (ok : σ → ι → Prop) : σ → Prop where
  | start {s : σ} : S.init s → Run S ok s
  | step {s s' : σ} {i : ι} : Run S ok s → ok s i → S.next i s = some s' → Run S ok s'

/-- The states of all runs. -/
abbrev Reachable (S : System σ ι) : σ → Prop := Run S fun _ _ => True

/-- The invariant rule. -/
theorem Run.invariant {P : σ → Prop} (hinit : ∀ s, S.init s → P s)
    (hstep : ∀ s s' i, P s → ok s i → S.next i s = some s' → P s') {s : σ} (hrun : Run S ok s) :
    P s := by
  induction hrun with
  | start h => exact hinit _ h
  | step _ hok hnext ih => exact hstep _ _ _ ih hok hnext

/-- The invariant rule, with an invariant of the run already at hand. -/
theorem Run.invariant_of {Q P : σ → Prop} (hQ : ∀ s, Run S ok s → Q s)
    (hinit : ∀ s, S.init s → P s)
    (hstep : ∀ s s' i, Q s → Q s' → P s → ok s i → S.next i s = some s' → P s') {s : σ}
    (hrun : Run S ok s) : P s := by
  induction hrun with
  | start h => exact hinit _ h
  | step hs hok hnext ih => exact hstep _ _ _ (hQ _ hs) (hQ _ (hs.step hok hnext)) ih hok hnext

/-- A weaker step condition allows more runs. -/
theorem Run.mono (h : ∀ s i, ok s i → ok' s i) {s : σ} (hrun : Run S ok s) : Run S ok' s := by
  induction hrun with
  | start h0 => exact .start h0
  | step _ hok hnext ih => exact ih.step (h _ _ hok) hnext

/-- Every run is a run without a condition. -/
theorem Run.reachable {s : σ} (hrun : Run S ok s) : S.Reachable s := hrun.mono fun _ _ _ => trivial

/-! ### Executing labels -/

/-- Executes the labels in order. It fails at a label that is not enabled or whose step does not
satisfy the check. -/
def exec (S : System σ ι) (check : σ → ι → Bool) : List ι → σ → Option σ
  | [], s => some s
  | i :: is, s => if check s i then (S.next i s).bind (S.exec check is) else none

/-- An execution from a state of a run ends in a state of a run. -/
theorem Run.of_exec {check : σ → ι → Bool} (hcheck : ∀ s i, check s i = true → ok s i)
    {is : List ι} {s s' : σ} (hrun : Run S ok s) (hexec : S.exec check is s = some s') :
    Run S ok s' := by
  induction is generalizing s with
  | nil =>
      simp only [exec, Option.some.injEq] at hexec
      exact hexec ▸ hrun
  | cons i is ih =>
      simp only [exec] at hexec
      split at hexec
      · rename_i hc
        obtain ⟨s₁, hnext, hrest⟩ := Option.bind_eq_some_iff.mp hexec
        exact ih (hrun.step (hcheck _ _ hc) hnext) hrest
      · exact absurd hexec (by simp)

/-- What can be observed of the state an execution ends in is observed of a state of a run. -/
theorem Run.exists_of_exec {α : Type} (S : System σ ι) (ok : σ → ι → Prop) (check : σ → ι → Bool)
    (is : List ι) (f : σ → α) {s : σ} {a : α} (hcheck : ∀ s i, check s i = true → ok s i)
    (hrun : Run S ok s)
    (hexec : (S.exec check is s).map f = some a) : ∃ s', Run S ok s' ∧ f s' = a := by
  obtain ⟨s', hs', hf⟩ := Option.map_eq_some_iff.mp hexec
  exact ⟨s', hrun.of_exec hcheck hs', hf⟩

end System

end Nek0.Lib
