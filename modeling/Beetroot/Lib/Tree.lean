/-
Document trees: what a YAML reader makes of a file. A tree is a scalar, a list, or a mapping whose keys are scalars.

`hashable` and `comparable` are the two questions that Python code asks of a raw value without knowing its type: may it be looked
up in a set or a dictionary, and may it be compared with `<`. A list of keys can be sorted when any two of them can be
compared.

Results: `lookup_cons_self`, `lookup_cons_ne`, `lookup_set`: the value of a text key, entry by entry and after an update.
-/
import Beetroot.Lib.Double

namespace Lib

inductive Scalar where
  | null
  | bool (b : Bool)
  | int (n : ℤ)
  | float (x : Double)
  | str (s : String)
  | bytes (b : List UInt8)
  | date (day : ℤ)
  | datetime (aware : Bool) (instant : ℤ)
deriving DecidableEq

inductive Tree where
  | scalar (s : Scalar)
  | list (items : List Tree)
  | map (entries : List (Scalar × Tree))

/-- the entries of a mapping -/
abbrev Tree.Entries := List (Scalar × Tree)

namespace Tree

def null : Tree := scalar .null

def bool (b : Bool) : Tree := scalar (.bool b)

def int (n : ℤ) : Tree := scalar (.int n)

def float (x : Double) : Tree := scalar (.float x)

def str (s : String) : Tree := scalar (.str s)

/-- a mapping with text keys -/
def record (fields : List (String × Tree)) : Tree := map (fields.map fun f => (.str f.1, f.2))

/-- lists and mappings cannot be looked up in a set -/
def hashable : Tree → Bool
  | scalar _ => true
  | list _ | map _ => false

end Tree

/-! ## Order -/

/-- the values among which `<` is defined; `null` is in none of them -/
def Scalar.orderClass : Scalar → Option (Fin 6)
  | null => none
  | bool _ | int _ | float _ => some 0
  | str _ => some 1
  | bytes _ => some 2
  | date _ => some 3
  | datetime false _ => some 4
  | datetime true _ => some 5

/-- `a < b` does not raise -/
def Scalar.comparable (a b : Scalar) : Bool := a.orderClass.isSome && a.orderClass = b.orderClass

/-- `sorted` does not raise -/
def sortable : List Scalar → Bool
  | [] => true
  | k :: ks => ks.all k.comparable && sortable ks

/-! ## Entries -/

namespace Tree

/-- the value of a text key -/
def lookup (entries : Entries) (key : String) : Option Tree := (entries.find? fun e => e.1 = .str key).map Prod.snd

def has (entries : Entries) (key : String) : Bool := (lookup entries key).isSome

/-- the entries without a text key -/
def without (entries : Entries) (key : String) : Entries := entries.filter fun e => e.1 ≠ .str key

/-- the entries with a value for a text key; a present key keeps its place -/
def set (entries : Entries) (key : String) (value : Tree) : Entries :=
  if has entries key then entries.map fun e => if e.1 = .str key then (e.1, value) else e
  else entries ++ [(.str key, value)]

@[simp] theorem lookup_nil (key : String) : lookup [] key = none := rfl

@[simp] theorem lookup_cons_self (key : String) (value : Tree) (entries : Entries) :
    lookup ((.str key, value) :: entries) key = some value := by
  simp [lookup]

theorem lookup_cons_ne {key : String} {k : Scalar} (h : k ≠ .str key) (value : Tree) (entries : Entries) :
    lookup ((k, value) :: entries) key = lookup entries key := by
  simp [lookup, h]

theorem lookup_cons (key : String) (e : Scalar × Tree) (entries : Entries) :
    lookup (e :: entries) key = if e.1 = .str key then some e.2 else lookup entries key := by
  split_ifs with h
  · obtain ⟨k, value⟩ := e
    cases h
    exact lookup_cons_self key value entries
  · exact lookup_cons_ne h e.2 entries

theorem lookup_without_ne {key other : String} (h : other ≠ key) (entries : Entries) :
    lookup (without entries key) other = lookup entries other := by
  induction entries with
  | nil => rfl
  | cons e entries ih =>
    by_cases hk : e.1 = .str key
    · have hne : e.1 ≠ .str other := by
        rw [hk]
        intro he
        exact h (Scalar.str.inj he).symm
      rw [without, List.filter_cons_of_neg (by simp [hk]), lookup_cons, if_neg hne]
      exact ih
    · rw [without, List.filter_cons_of_pos (by simpa using hk), lookup_cons, lookup_cons]
      split_ifs
      · rfl
      · exact ih

theorem lookup_append (entries rest : Entries) (key : String) :
    lookup (entries ++ rest) key = (lookup entries key).or (lookup rest key) := by
  unfold lookup
  rw [List.find?_append]
  cases entries.find? fun e => e.1 = .str key <;> rfl

/-- an update gives its key the new value and leaves every other text key alone -/
theorem lookup_set (entries : Entries) (key other : String) (value : Tree) :
    lookup (set entries key value) other = if other = key then some value else lookup entries other := by
  unfold set
  have hmap : ∀ l : Entries, lookup (l.map fun e => if e.1 = .str key then (e.1, value) else e) other =
      if other = key then (lookup l other).map fun _ => value else lookup l other := by
    intro l
    induction l with
    | nil => split_ifs <;> rfl
    | cons e l ih =>
      rw [List.map_cons, lookup_cons, ih, lookup_cons]
      by_cases hk : e.1 = .str key
      · by_cases ho : other = key
        · subst ho; simp [hk]
        · have hne : ¬ key = other := fun he => ho he.symm
          simp [hk, ho, hne]
      · by_cases ho : other = key
        · subst ho; simp [hk]
        · simp [hk, ho]
  by_cases hhas : has entries key = true
  · rw [if_pos hhas, hmap]
    split_ifs with ho
    · subst ho
      obtain ⟨v, hv⟩ := Option.isSome_iff_exists.1 hhas
      rw [hv]; rfl
    · rfl
  · rw [if_neg hhas, lookup_append]
    have hnone : lookup entries key = none := by simpa [has] using hhas
    by_cases ho : other = key
    · subst ho
      rw [hnone]; simp
    · have hne : ¬ key = other := fun he => ho he.symm
      rw [lookup_cons, if_neg (by simpa using hne), lookup_nil, Option.or_none, if_neg ho]

end Tree

end Lib
