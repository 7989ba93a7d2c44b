/-
Validation that collects its errors.

A check ends in a value, in the list of errors that it has found, or in an exception that is not one of them. `both` runs two
checks one after the other and collects the errors of both; an exception goes through at once. `bind` stops at the first check
that does not give a value.

Results: `both_ok_iff`, `bind_ok_iff` say when a composed check gives a value, and `escapes_both`, `escapes_bind` when an
exception goes through it.
-/
import Mathlib.Tactic.Common

namespace Lib

/-- the outcome of a check: a value, the collected errors, or an exception that is not a validation error -/
inductive Checked (ε ξ α : Type) where
  | ok (a : α)
  | invalid (errors : List ε)
  | escape (x : ξ)
deriving DecidableEq, Repr

namespace Checked

variable {ε ξ α β : Type}

def map (f : α → β) : Checked ε ξ α → Checked ε ξ β
  | ok a => ok (f a)
  | invalid es => invalid es
  | escape x => escape x

def bind (c : Checked ε ξ α) (f : α → Checked ε ξ β) : Checked ε ξ β :=
  match c with
  | ok a => f a
  | invalid es => invalid es
  | escape x => escape x

/-- two checks in order, with the errors of both -/
def both (c : Checked ε ξ α) (d : Checked ε ξ β) : Checked ε ξ (α × β) :=
  match c, d with
  | escape x, _ => escape x
  | _, escape x => escape x
  | invalid es, invalid es' => invalid (es ++ es')
  | invalid es, ok _ => invalid es
  | ok _, invalid es => invalid es
  | ok a, ok b => ok (a, b)

/-- the same check, with its errors rewritten -/
def mapErrors (f : ε → ε) : Checked ε ξ α → Checked ε ξ α
  | ok a => ok a
  | invalid es => invalid (es.map f)
  | escape x => escape x

/-- a value that needs the success of a check -/
def withProof : (c : Checked ε ξ Unit) → (c = ok () → α) → Checked ε ξ α
  | ok (), f => ok (f rfl)
  | invalid es, _ => invalid es
  | escape x, _ => escape x

def isOk : Checked ε ξ α → Bool
  | ok _ => true
  | _ => false

/-- an exception that is not a validation error goes through -/
def Escapes (c : Checked ε ξ α) : Prop := ∃ x, c = escape x

/-! ## Values -/

theorem map_ok_iff {f : α → β} {c : Checked ε ξ α} {b : β} : c.map f = ok b ↔ ∃ a, c = ok a ∧ f a = b := by
  cases c <;> simp [map]

theorem bind_ok_iff {c : Checked ε ξ α} {f : α → Checked ε ξ β} {b : β} :
    c.bind f = ok b ↔ ∃ a, c = ok a ∧ f a = ok b := by
  cases c <;> simp [bind]

theorem both_ok_iff {c : Checked ε ξ α} {d : Checked ε ξ β} {p : α × β} :
    both c d = ok p ↔ c = ok p.1 ∧ d = ok p.2 := by
  cases c <;> cases d <;> simp [both, Prod.ext_iff]

theorem mapErrors_ok_iff {f : ε → ε} {c : Checked ε ξ α} {a : α} : c.mapErrors f = ok a ↔ c = ok a := by
  cases c <;> simp [mapErrors]

theorem isOk_iff {c : Checked ε ξ α} : c.isOk = true ↔ ∃ a, c = ok a := by
  cases c <;> simp [isOk]

theorem withProof_ok {c : Checked ε ξ Unit} (h : c = ok ()) (f : c = ok () → α) : c.withProof f = ok (f h) := by
  subst h
  rfl

@[simp] theorem map_ok (f : α → β) (a : α) : (ok a : Checked ε ξ α).map f = ok (f a) := rfl

@[simp] theorem bind_ok (a : α) (f : α → Checked ε ξ β) : (ok a : Checked ε ξ α).bind f = f a := rfl

@[simp] theorem both_ok (a : α) (b : β) : both (ok a : Checked ε ξ α) (ok b) = ok (a, b) := rfl

@[simp] theorem mapErrors_ok (f : ε → ε) (a : α) : (ok a : Checked ε ξ α).mapErrors f = ok a := rfl

/-! ## Exceptions -/

@[simp] theorem escapes_ok (a : α) : ¬ (ok a : Checked ε ξ α).Escapes := by
  intro ⟨x, h⟩
  cases h

@[simp] theorem escapes_invalid (es : List ε) : ¬ (invalid es : Checked ε ξ α).Escapes := by
  intro ⟨x, h⟩
  cases h

@[simp] theorem escapes_escape (x : ξ) : (escape x : Checked ε ξ α).Escapes := ⟨x, rfl⟩

theorem not_escapes_iff {c : Checked ε ξ α} : ¬ c.Escapes ↔ (∃ a, c = ok a) ∨ ∃ es, c = invalid es := by
  cases c <;> simp

@[simp] theorem escapes_map {f : α → β} {c : Checked ε ξ α} : (c.map f).Escapes ↔ c.Escapes := by
  cases c <;> simp [map]

@[simp] theorem escapes_mapErrors {f : ε → ε} {c : Checked ε ξ α} : (c.mapErrors f).Escapes ↔ c.Escapes := by
  cases c <;> simp [mapErrors]

theorem escapes_bind {c : Checked ε ξ α} {f : α → Checked ε ξ β} :
    (c.bind f).Escapes ↔ c.Escapes ∨ ∃ a, c = ok a ∧ (f a).Escapes := by
  cases c <;> simp [bind]

@[simp] theorem escapes_both {c : Checked ε ξ α} {d : Checked ε ξ β} :
    (both c d).Escapes ↔ c.Escapes ∨ d.Escapes := by
  cases c <;> cases d <;> simp [both]

@[simp] theorem escapes_withProof {c : Checked ε ξ Unit} {f : c = ok () → α} : (c.withProof f).Escapes ↔ c.Escapes := by
  cases c <;> simp [withProof]

end Checked

end Lib
