/-
Programs that change a state and may raise: `EStateM ε σ α` of the standard library. A program that raises keeps what it did
to the state, as a program on a disk does.

Results:
- `bind_ok_iff`, `bind_error_iff`, `onRaise_ok_iff`, `onRaise_error_iff`: every result of a sequence and of a `try` with a
  cleanup, by the results of its parts;
- `Steps`: what a program does to the state, whether it returns or raises, with its rules for sequences and cleanups.
-/
import Mathlib.Tactic.Common

namespace Lib.Eff

variable {ε σ α β : Type}

/-- raise if the condition holds -/
def refuse (c : Bool) (e : ε) : EStateM ε σ Unit := if c then throw e else pure ()

/-- raise the error of a pure computation -/
def raising : Except ε α → EStateM ε σ α
  | .ok x => pure x
  | .error e => throw e

/-- `try: x` with `except BaseException: cleanup; raise` -/
def onRaise (x : EStateM ε σ α) (cleanup : EStateM ε σ Unit) : EStateM ε σ α :=
  tryCatch x fun e => do
    cleanup
    throw e

/-- `try: x` with `finally: cleanup` -/
def ensure (x : EStateM ε σ α) (cleanup : EStateM ε σ Unit) : EStateM ε σ α := do
  let a ← onRaise x cleanup
  cleanup
  pure a

/-! ## Results of composed programs -/

section Results

variable {x : EStateM ε σ α} {f : α → EStateM ε σ β} {cleanup : EStateM ε σ Unit} {s t : σ} {e : ε}

theorem pure_ok_iff {a b : α} : (pure a : EStateM ε σ α) s = .ok b t ↔ b = a ∧ t = s := by
  constructor
  · intro h
    cases h
    exact ⟨rfl, rfl⟩
  · rintro ⟨rfl, rfl⟩
    rfl

theorem throw_error_iff {e' : ε} : (throw e' : EStateM ε σ α) s = .error e t ↔ e = e' ∧ t = s := by
  constructor
  · intro h
    cases h
    exact ⟨rfl, rfl⟩
  · rintro ⟨rfl, rfl⟩
    rfl

theorem bind_of_ok {a : α} (h : x s = .ok a t) : (x >>= f) s = f a t := by
  change EStateM.bind x f s = _
  rw [EStateM.bind, h]

theorem bind_ok_iff {b : β} : (x >>= f) s = .ok b t ↔ ∃ a u, x s = .ok a u ∧ f a u = .ok b t := by
  change EStateM.bind x f s = _ ↔ _
  unfold EStateM.bind
  cases x s with
  | ok a u => simp
  | error e u => simp

theorem bind_error_iff :
    (x >>= f) s = .error e t ↔ x s = .error e t ∨ ∃ a u, x s = .ok a u ∧ f a u = .error e t := by
  change EStateM.bind x f s = _ ↔ _
  unfold EStateM.bind
  cases x s with
  | ok a u => simp
  | error e u => simp

theorem refuse_ok_iff {c : Bool} {e : ε} {u : Unit} : (refuse c e : EStateM ε σ Unit) s = .ok u t ↔ c = false ∧ t = s := by
  cases c with
  | true => exact ⟨fun h => (nomatch h), fun h => (nomatch h.1)⟩
  | false => exact pure_ok_iff.trans ⟨fun h => ⟨rfl, h.2⟩, fun h => ⟨rfl, h.2⟩⟩

theorem refuse_error_iff {c : Bool} {e' : ε} :
    (refuse c e' : EStateM ε σ Unit) s = .error e t ↔ c = true ∧ e = e' ∧ t = s := by
  cases c with
  | true => exact throw_error_iff.trans ⟨fun h => ⟨rfl, h⟩, fun h => h.2⟩
  | false => exact ⟨fun h => (nomatch h), fun h => (nomatch h.1)⟩

theorem bind_refuse {c : Bool} {g : Unit → EStateM ε σ β} (h : c = false) : (refuse c e >>= g) s = g () s :=
  bind_of_ok (refuse_ok_iff.2 ⟨h, rfl⟩)

theorem raising_ok_iff {r : Except ε α} {a : α} :
    (raising r : EStateM ε σ α) s = .ok a t ↔ r = .ok a ∧ t = s := by
  cases r with
  | ok b => exact pure_ok_iff.trans ⟨fun h => ⟨by rw [h.1], h.2⟩, fun h => ⟨(Except.ok.inj h.1).symm, h.2⟩⟩
  | error e => exact ⟨fun h => (nomatch h), fun h => (nomatch h.1)⟩

theorem raising_error_iff {r : Except ε α} :
    (raising r : EStateM ε σ α) s = .error e t ↔ r = .error e ∧ t = s := by
  cases r with
  | ok b => exact ⟨fun h => (nomatch h), fun h => (nomatch h.1)⟩
  | error e' => exact throw_error_iff.trans ⟨fun h => ⟨by rw [h.1], h.2⟩, fun h => ⟨(Except.error.inj h.1).symm, h.2⟩⟩

theorem tryCatch_ok {f : ε → EStateM ε σ α} {a : α} (h : x s = .ok a t) : tryCatch x f s = .ok a t := by
  change EStateM.tryCatch x f s = _
  rw [EStateM.tryCatch, h]

theorem tryCatch_error {f : ε → EStateM ε σ α} (h : x s = .error e t) : tryCatch x f s = f e t := by
  change EStateM.tryCatch x f s = _
  rw [EStateM.tryCatch, h]
  rfl

theorem onRaise_congr {y : EStateM ε σ α} (h : x s = y s) : onRaise x cleanup s = onRaise y cleanup s := by
  change EStateM.tryCatch x _ s = EStateM.tryCatch y _ s
  unfold EStateM.tryCatch
  rw [h]

theorem onRaise_ok_iff {a : α} : onRaise x cleanup s = .ok a t ↔ x s = .ok a t := by
  change EStateM.tryCatch x _ s = _ ↔ _
  unfold EStateM.tryCatch
  cases x s with
  | ok b u => rfl
  | error e u =>
    refine ⟨fun h => ?_, fun h => (nomatch h)⟩
    have hrun : (cleanup >>= fun _ => (throw e : EStateM ε σ α)) u = .ok a t := h
    obtain ⟨b, v, -, hthrow⟩ := bind_ok_iff.1 hrun
    cases hthrow

/-- either the cleanup has run to its end, or it has raised in turn -/
theorem onRaise_error_iff : onRaise x cleanup s = .error e t ↔
    ∃ e' u, x s = .error e' u ∧ (cleanup u = .error e t ∨ e = e' ∧ cleanup u = .ok () t) := by
  change EStateM.tryCatch x _ s = _ ↔ _
  unfold EStateM.tryCatch
  cases x s with
  | ok b u =>
    refine ⟨fun h => (nomatch h), ?_⟩
    rintro ⟨_, _, h, -⟩
    cases h
  | error e' u =>
    change (cleanup >>= fun _ => (throw e' : EStateM ε σ α)) u = _ ↔ _
    constructor
    · intro h
      refine ⟨e', u, rfl, ?_⟩
      rcases bind_error_iff.1 h with h | ⟨⟨⟩, v, hc, hthrow⟩
      · exact Or.inl h
      · obtain ⟨rfl, rfl⟩ := throw_error_iff.1 hthrow
        exact Or.inr ⟨rfl, hc⟩
    · rintro ⟨e'', u', h, hc⟩
      cases h
      refine bind_error_iff.2 ?_
      rcases hc with hc | ⟨rfl, hc⟩
      · exact Or.inl hc
      · exact Or.inr ⟨(), t, hc, rfl⟩

end Results

/-! ## What a program does to the state -/

/-- the state in which a program returns or raises -/
def final : EStateM.Result ε σ α → σ
  | .ok _ t | .error _ t => t

section Ensure

variable {x : EStateM ε σ α} {cleanup : EStateM ε σ Unit} {s t u : σ} {e : ε} {a : α}

theorem ensure_ok (hx : x s = .ok a u) (hc : cleanup u = .ok () t) : ensure x cleanup s = .ok a t :=
  bind_ok_iff.2 ⟨a, u, onRaise_ok_iff.2 hx, bind_ok_iff.2 ⟨(), t, hc, rfl⟩⟩

theorem ensure_error (hx : x s = .error e u) (hc : cleanup u = .ok () t) : ensure x cleanup s = .error e t :=
  bind_error_iff.2 (.inl (onRaise_error_iff.2 ⟨e, u, hx, .inr ⟨rfl, hc⟩⟩))

/-- what the cleanup raises takes the place of the result -/
theorem ensure_raise (hc : cleanup (final (x s)) = .error e t) : ensure x cleanup s = .error e t := by
  cases hx : x s with
  | ok a u =>
    rw [hx] at hc
    exact bind_error_iff.2 (.inr ⟨a, u, onRaise_ok_iff.2 hx, bind_error_iff.2 (.inl hc)⟩)
  | error e' u =>
    rw [hx] at hc
    exact bind_error_iff.2 (.inl (onRaise_error_iff.2 ⟨e', u, hx, .inl hc⟩))

end Ensure

theorem final_bind_ok {x : EStateM ε σ α} {f : α → EStateM ε σ β} {s u : σ} {a : α} (h : x s = .ok a u) :
    final ((x >>= f) s) = final (f a u) := by
  change final (EStateM.bind x f s) = _
  simp only [EStateM.bind, h]

theorem final_bind_error {x : EStateM ε σ α} {f : α → EStateM ε σ β} {s u : σ} {e : ε} (h : x s = .error e u) :
    final ((x >>= f) s) = u := by
  change final (EStateM.bind x f s) = _
  simp only [EStateM.bind, h, final]

theorem final_bind_pure (x : EStateM ε σ α) (g : α → β) (s : σ) : final ((x >>= fun a => pure (g a)) s) = final (x s) := by
  cases h : x s with
  | ok a t =>
    rw [final_bind_ok h]
    rfl
  | error e t =>
    rw [final_bind_error h]
    rfl

/-- the state before and the state after are related, whether the program returns or raises -/
def Steps (R : σ → σ → Prop) (x : EStateM ε σ α) : Prop := ∀ s, R s (final (x s))

section Steps

variable {R : σ → σ → Prop} {x : EStateM ε σ α} {f : α → EStateM ε σ β} {s t : σ}

theorem Steps.of_ok (h : Steps R x) {a : α} (hx : x s = .ok a t) : R s t := by
  have := h s
  rwa [hx] at this

theorem Steps.of_error (h : Steps R x) {e : ε} (hx : x s = .error e t) : R s t := by
  have := h s
  rwa [hx] at this

theorem Steps.mono {R' : σ → σ → Prop} (h : Steps R x) (hR : ∀ s t, R s t → R' s t) : Steps R' x :=
  fun s => hR _ _ (h s)

theorem steps_pure (hr : ∀ s, R s s) (a : α) : Steps R (pure a : EStateM ε σ α) := hr

theorem steps_throw (hr : ∀ s, R s s) (e : ε) : Steps R (throw e : EStateM ε σ α) := hr

theorem steps_get (hr : ∀ s, R s s) : Steps R (get : EStateM ε σ σ) := hr

theorem steps_refuse (hr : ∀ s, R s s) (c : Bool) (e : ε) : Steps R (refuse c e : EStateM ε σ Unit) := by
  cases c with
  | true => exact steps_throw hr e
  | false => exact steps_pure hr ()

theorem steps_raising (hr : ∀ s, R s s) (r : Except ε α) : Steps R (raising r : EStateM ε σ α) := by
  cases r with
  | ok a => exact steps_pure hr a
  | error e => exact steps_throw hr e

theorem steps_bind (ht : ∀ s t u, R s t → R t u → R s u) (hx : Steps R x) (hf : ∀ a, Steps R (f a)) :
    Steps R (x >>= f) := by
  intro s
  change R s (final (EStateM.bind x f s))
  unfold EStateM.bind
  cases hxs : x s with
  | ok a t => exact ht s t _ (hx.of_ok hxs) (hf a t)
  | error e t => exact hx.of_error hxs

theorem steps_onRaise (ht : ∀ s t u, R s t → R t u → R s u) {cleanup : EStateM ε σ Unit} (hx : Steps R x)
    (hc : Steps R cleanup) : Steps R (onRaise x cleanup) := by
  intro s
  cases h : onRaise x cleanup s with
  | ok a t => exact hx.of_ok (onRaise_ok_iff.1 h)
  | error e t =>
    obtain ⟨e', u, hxu, hcu⟩ := onRaise_error_iff.1 h
    rcases hcu with hcu | ⟨-, hcu⟩
    · exact ht s u t (hx.of_error hxu) (hc.of_error hcu)
    · exact ht s u t (hx.of_error hxu) (hc.of_ok hcu)

end Steps

end Lib.Eff
