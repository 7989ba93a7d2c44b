/-
Values grouped by a key, and the mean of a list.

`group` puts each value at the end of the list of its key. The mean depends on neither the order nor the number of copies of
each value, and a common factor comes out of it.

Results:
- `get?_group`: the group of a key holds the values with this key, in order;
- `mean_perm`, `mean_copies`, `mean_scale`, `mean_pos`.
-/
import Beetroot.Lib.Dict
import Mathlib.Algebra.BigOperators.Group.List.Basic
import Mathlib.Algebra.BigOperators.Ring.List
import Mathlib.Algebra.Order.BigOperators.Group.List
import Mathlib.Algebra.Order.Field.Basic

namespace Lib.Mean

/-! ## Groups -/

section Groups

variable {κ ν : Type} [DecidableEq κ]

/-- `grouped.setdefault(key, []).append(value)` -/
def append (d : Dict κ (List ν)) (e : κ × ν) : Dict κ (List ν) := d.set e.1 ((d.get? e.1).getD [] ++ [e.2])

def group (l : List (κ × ν)) : Dict κ (List ν) := l.foldl append ∅

/-- the values with a key -/
def valuesOf (k : κ) (l : List (κ × ν)) : List ν := (l.filter fun e => e.1 = k).map Prod.snd

/-- a list that may be missing -/
def nonempty (l : List ν) : Option (List ν) := if l = [] then none else some l

theorem valuesOf_cons (k : κ) (e : κ × ν) (l : List (κ × ν)) :
    valuesOf k (e :: l) = if e.1 = k then e.2 :: valuesOf k l else valuesOf k l := by
  by_cases h : e.1 = k <;> simp [valuesOf, h]

theorem get?_append (d : Dict κ (List ν)) (e : κ × ν) (k : κ) :
    (append d e).get? k = if k = e.1 then some ((d.get? k).getD [] ++ [e.2]) else d.get? k := by
  rw [append, Dict.get?_set]
  by_cases h : k = e.1
  · rw [if_pos h, if_pos h, h]
  · rw [if_neg h, if_neg h]

/-- a group that is there is not empty -/
theorem get?_foldl_append (l : List (κ × ν)) (d : Dict κ (List ν)) (hd : ∀ k, d.get? k ≠ some []) (k : κ) :
    (l.foldl append d).get? k = nonempty ((d.get? k).getD [] ++ valuesOf k l) := by
  induction l generalizing d with
  | nil =>
    have hk := hd k
    rw [List.foldl_nil, valuesOf, List.filter_nil, List.map_nil, List.append_nil]
    cases hget : d.get? k with
    | none => rfl
    | some values =>
      have hne : values ≠ [] := fun h => hk (by rw [hget, h])
      simp [nonempty, hne]
  | cons e l ih =>
    have hnext : ∀ j, (append d e).get? j ≠ some [] := by
      intro j
      rw [get?_append]
      split_ifs
      · simp
      · exact hd j
    rw [List.foldl_cons, ih _ hnext, get?_append, valuesOf_cons]
    by_cases h : k = e.1
    · rw [if_pos h, if_pos h.symm, Option.getD_some, List.append_assoc, List.singleton_append]
    · rw [if_neg h, if_neg (Ne.symm h)]

theorem get?_group (l : List (κ × ν)) (k : κ) : (group l).get? k = nonempty (valuesOf k l) := by
  have hempty : ∀ j, (∅ : Dict κ (List ν)).get? j = none := fun j => rfl
  rw [group, get?_foldl_append l ∅ (by simp [hempty]) k, hempty, Option.getD_none, List.nil_append]

end Groups

/-! ## Means -/

section Means

variable {F : Type} [Field F]

/-- the arithmetic mean -/
def mean (xs : List F) : F := xs.sum / xs.length

theorem mean_perm {xs ys : List F} (h : xs.Perm ys) : mean xs = mean ys := by
  rw [mean, mean, h.sum_eq, h.length_eq]

theorem mean_scale (k : F) (xs : List F) : mean (xs.map fun x => k * x) = k * mean xs := by
  rw [mean, mean, List.sum_map_mul_left, List.map_id', List.length_map, mul_div_assoc]

theorem sum_copies (n : ℕ) (xs : List F) : (xs.flatMap fun x => List.replicate n x).sum = n * xs.sum := by
  induction xs with
  | nil => simp
  | cons x xs ih =>
    rw [List.flatMap_cons, List.sum_append, List.sum_cons, ih, List.sum_replicate, nsmul_eq_mul, mul_add]

/-- every value as many times -/
theorem mean_copies [CharZero F] {n : ℕ} (hn : 0 < n) (xs : List F) : mean (xs.flatMap fun x => List.replicate n x) = mean xs := by
  have hne : (n : F) ≠ 0 := Nat.cast_ne_zero.2 (Nat.pos_iff_ne_zero.1 hn)
  have hlength : (xs.flatMap fun x => List.replicate n x).length = n * xs.length := by
    rw [List.length_flatMap]
    simp [Nat.mul_comm]
  calc mean (xs.flatMap fun x => List.replicate n x) = n * xs.sum / (n * xs.length : ℕ) := by rw [mean, sum_copies, hlength]
    _ = xs.sum / xs.length := by rw [Nat.cast_mul, mul_div_mul_left _ _ hne]

theorem mean_pos [LinearOrder F] [IsStrictOrderedRing F] {xs : List F} (hne : xs ≠ []) (hpos : ∀ x ∈ xs, 0 < x) : 0 < mean xs := by
  have hsum : 0 < xs.sum := List.sum_pos xs hpos hne
  have hlength : (0 : F) < xs.length := Nat.cast_pos.2 (List.length_pos_iff.2 hne)
  exact div_pos hsum hlength

end Means

end Lib.Mean
