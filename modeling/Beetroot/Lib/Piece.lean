/-
A stream that arrives in pieces, none of them empty and none longer than the reader asks for.
-/
import Mathlib.Data.List.Basic
import Mathlib.Tactic.Common

namespace Lib

/-- what one read returns before the end of the stream -/
structure Piece (α : Type) (max : ℕ) where
  bytes : List α
  ne : bytes ≠ []
  le : bytes.length ≤ max
deriving DecidableEq, Repr

namespace Piece

variable {α : Type} {max : ℕ}

/-- the stream -/
def join (pieces : List (Piece α max)) : List α := pieces.flatMap Piece.bytes

@[simp] theorem join_nil : join ([] : List (Piece α max)) = [] := rfl

@[simp] theorem join_cons (piece : Piece α max) (pieces : List (Piece α max)) :
    join (piece :: pieces) = piece.bytes ++ join pieces := List.flatMap_cons

/-- a stream that arrives one symbol at a time -/
def single (h : 0 < max) (stream : List α) : List (Piece α max) :=
  stream.map fun a => ⟨[a], List.cons_ne_nil a [], h⟩

theorem join_single (h : 0 < max) (stream : List α) : join (single h stream) = stream := by
  induction stream with
  | nil => rfl
  | cons a stream ih =>
    rw [single, List.map_cons, join_cons]
    exact congrArg (a :: ·) ih

end Piece

end Lib
