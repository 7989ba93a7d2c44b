/-
Runs of a step function, and conditions on the steps of a run.

`Always step C s as`: in the run of `as` from `s`, every step satisfies `C` at the state in which it is taken.

Results: `run_always`, the invariant rule for runs whose steps all satisfy a condition, and `run_inv`, the rule without one;
`always_of_inv` and `always_of_forall`, conditions that an invariant gives.
-/
import Mathlib.Tactic.Common

namespace Lib

variable {σ α : Type}

def Always (step : σ → α → σ) (C : σ → α → Prop) : σ → List α → Prop
  | _, [] => True
  | s, a :: as => C s a ∧ Always step C (step s a) as

instance Always.decidable (step : σ → α → σ) (C : σ → α → Prop) [∀ s a, Decidable (C s a)] :
    ∀ s as, Decidable (Always step C s as)
  | _, [] => isTrue trivial
  | s, a :: as => @instDecidableAnd _ _ _ (Always.decidable step C (step s a) as)

theorem run_always {step : σ → α → σ} {C : σ → α → Prop} {I : σ → Prop}
    (hstep : ∀ s a, I s → C s a → I (step s a)) {s : σ} (hs : I s) {as : List α} (h : Always step C s as) :
    I (as.foldl step s) := by
  induction as generalizing s with
  | nil => exact hs
  | cons a as ih => exact ih (hstep s a hs h.1) h.2

theorem run_inv {step : σ → α → σ} {I : σ → Prop} (hstep : ∀ s a, I s → I (step s a)) {s : σ} (hs : I s)
    (as : List α) : I (as.foldl step s) := by
  induction as generalizing s with
  | nil => exact hs
  | cons a as ih => exact ih (hstep s a hs)

theorem Always.concat {step : σ → α → σ} {C : σ → α → Prop} {s : σ} {as : List α} {a : α}
    (h : Always step C s (as ++ [a])) : Always step C s as ∧ C (as.foldl step s) a := by
  induction as generalizing s with
  | nil => exact ⟨trivial, h.1⟩
  | cons b as ih => exact ⟨⟨h.1, (ih h.2).1⟩, (ih h.2).2⟩

/-- a condition that an invariant implies holds of every step of the run -/
theorem always_of_inv {step : σ → α → σ} {C : σ → α → Prop} {I : σ → Prop} (hstep : ∀ s a, I s → I (step s a))
    (hC : ∀ s a, I s → C s a) {s : σ} (hs : I s) (as : List α) : Always step C s as := by
  induction as generalizing s with
  | nil => trivial
  | cons a as ih => exact ⟨hC s a hs, ih (hstep s a hs)⟩

/-- the same, for steps that the invariant survives only under a condition on the step -/
theorem always_of_forall {step : σ → α → σ} {C : σ → α → Prop} {P : α → Prop} {I : σ → Prop}
    (hstep : ∀ s a, I s → P a → I (step s a) ∧ C s a) {s : σ} (hs : I s) {as : List α} (h : ∀ a ∈ as, P a) :
    Always step C s as := by
  induction as generalizing s with
  | nil => trivial
  | cons a as ih =>
    obtain ⟨hnext, hC⟩ := hstep s a hs (h a List.mem_cons_self)
    exact ⟨hC, ih hnext fun b hb => h b (List.mem_cons_of_mem _ hb)⟩

end Lib
