/-
Waiting for something until a deadline: check, read the clock, sleep, and check again.

The number of turns is the fuel of the loop. It runs out only if the clock does not advance.

Results:
- `runs_poll`: if every nap advances the clock, `deadline - now + 1` turns are enough, and a wait in vain has passed the deadline.
-/
import Beetroot.Lib.Prog

namespace Lib.Prog

variable {A C σ ε α : Type} {R : A → Type}

/-- `none` when the deadline has passed in vain -/
def poll (check : ExceptT ε (Prog A R) (Option α)) (now : ExceptT ε (Prog A R) ℕ) (nap : ExceptT ε (Prog A R) Unit) (spin : ε)
    (deadline : ℕ) : ℕ → ExceptT ε (Prog A R) (Option α)
  | 0 => throw spin
  | turns + 1 => do
    let found ← check
    match found with
    | some x => pure (some x)
    | none => do
      let t ← now
      if deadline ≤ t then pure none
      else do
        nap
        poll check now nap spin deadline turns

section Rules

variable {exec : (c : C) → (a : A) → σ → R a × σ} {P : C → Prop} {I : σ → Prop}
  {check : ExceptT ε (Prog A R) (Option α)} {now : ExceptT ε (Prog A R) ℕ} {nap : ExceptT ε (Prog A R) Unit}
  {Q : α → σ → Prop} {E : ε → σ → Prop}

/-- `J` holds before a check, `M` after a check in vain, and `N` after the clock has been read -/
theorem runs_poll (spin : ε) (clock : σ → ℕ) {J M : σ → Prop} {N : ℕ → σ → Prop} {deadline : ℕ}
    (hcheck : ∀ s, J s → Runs exec P I check s (fun found t => clock s ≤ clock t ∧ match found with
      | some x => Q x t
      | none => M t) E)
    (hnow : ∀ s, M s → Runs exec P I now s (fun n t => clock s ≤ n ∧ n ≤ clock t ∧ N n t) E)
    (hnap : ∀ n s, n < deadline → N n s → Runs exec P I nap s (fun _ t => clock s < clock t ∧ J t) E)
    (turns : ℕ) (s : σ) (hs : J s) (henough : deadline ≤ clock s + turns) :
    Runs exec P I (poll check now nap spin deadline (turns + 1)) s
      (fun found t => match found with
        | some x => Q x t
        | none => ∃ n, N n t ∧ deadline ≤ n) E := by
  induction turns generalizing s with
  | zero =>
    apply runs_bind
    refine (hcheck s hs).mono (fun found t hI h => ?_) fun _ _ _ h => h
    obtain ⟨hclock, hfound⟩ := h
    cases found with
    | some x => exact runs_pure hI hfound
    | none =>
      apply runs_bind
      refine (hnow t hfound).mono (fun n u hI h => ?_) fun _ _ _ h => h
      obtain ⟨hn, hu, hread⟩ := h
      have hlate : deadline ≤ n := calc
        deadline ≤ clock s := henough
        _ ≤ clock t := hclock
        _ ≤ n := hn
      rw [if_pos hlate]
      exact runs_pure hI ⟨n, hread, hlate⟩
  | succ turns ih =>
    apply runs_bind
    refine (hcheck s hs).mono (fun found t hI h => ?_) fun _ _ _ h => h
    obtain ⟨hclock, hfound⟩ := h
    cases found with
    | some x => exact runs_pure hI hfound
    | none =>
      apply runs_bind
      refine (hnow t hfound).mono (fun n u hI h => ?_) fun _ _ _ h => h
      obtain ⟨hn, hu, hread⟩ := h
      split_ifs with hlate
      · exact runs_pure hI ⟨n, hread, hlate⟩
      · apply runs_bind
        refine (hnap n u (Nat.lt_of_not_ge hlate) hread).mono (fun _ v _ h => ?_) fun _ _ _ h => h
        have hlater : clock s < clock v := calc
          clock s ≤ clock t := hclock
          _ ≤ n := hn
          _ ≤ clock u := hu
          _ < clock v := h.1
        exact ih v h.2 (by omega)

theorem all_poll {q : A → Prop} {spin : ε} {deadline : ℕ} (hcheck : check.run.All q) (hnow : now.run.All q) (hnap : nap.run.All q)
    (turns : ℕ) : (poll check now nap spin deadline turns).run.All q := by
  induction turns with
  | zero => exact all_throw spin
  | succ turns ih =>
    refine all_seq hcheck fun found => ?_
    cases found with
    | some x => exact all_pure (some x)
    | none =>
      refine all_seq hnow fun t => ?_
      split_ifs
      · exact all_pure none
      · exact all_seq hnap fun _ => ih

end Rules

end Lib.Prog
