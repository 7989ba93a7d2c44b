/-
Insertion-ordered dictionaries with unique keys.

`set` overwrites the value of a present key in place and appends an absent one; `erase` keeps the order of the rest.
(Mathlib's `AList.insert` moves the key to the front, so the order of the entries would be lost.) The uniqueness of
the keys is a field of the structure.

Results: `get?_eq_some` / `get?_eq_none` relate lookup to membership, and `mem_set`, `mem_erase`, `get?_set`,
`get?_erase` say what each update does; no proof over a dictionary needs to unfold the operations.
-/
import Mathlib.Data.List.Nodup
import Mathlib.Tactic.Common

namespace Lib

structure Dict (κ ν : Type) where
  entries : List (κ × ν)
  nodup : (entries.map Prod.fst).Nodup
deriving DecidableEq, Repr

namespace Dict

variable {κ ν μ : Type}

theorem ext {d e : Dict κ ν} (h : d.entries = e.entries) : d = e := by
  cases d; cases e; simp only at h; subst h; rfl

/-! ## Operations -/

def empty : Dict κ ν := ⟨[], List.nodup_nil⟩

instance : EmptyCollection (Dict κ ν) := ⟨empty⟩

@[simp] theorem entries_empty : (∅ : Dict κ ν).entries = [] := rfl

def keys (d : Dict κ ν) : List κ := d.entries.map Prod.fst

def values (d : Dict κ ν) : List ν := d.entries.map Prod.snd

theorem mem_keys {d : Dict κ ν} {k : κ} : k ∈ d.keys ↔ ∃ v, (k, v) ∈ d.entries := by
  simp [keys]

theorem mem_keys_of_mem {d : Dict κ ν} {e : κ × ν} (h : e ∈ d.entries) : e.1 ∈ d.keys :=
  List.mem_map_of_mem h

/-- the value of a key is determined by the dictionary -/
theorem eq_of_mem (d : Dict κ ν) {k : κ} {v w : ν} (hv : (k, v) ∈ d.entries) (hw : (k, w) ∈ d.entries) : v = w := by
  have := List.inj_on_of_nodup_map d.nodup hv hw rfl
  exact (Prod.mk.inj this).2

/-- apply `f` to every value, keeping keys and order -/
def mapVals (d : Dict κ ν) (f : ν → μ) : Dict κ μ :=
  ⟨d.entries.map fun e => (e.1, f e.2), by
    have : ((d.entries.map fun e => (e.1, f e.2)).map Prod.fst) = d.entries.map Prod.fst := by simp
    rw [this]; exact d.nodup⟩

@[simp] theorem entries_mapVals (d : Dict κ ν) (f : ν → μ) :
    (d.mapVals f).entries = d.entries.map fun e => (e.1, f e.2) := rfl

@[simp] theorem keys_mapVals (d : Dict κ ν) (f : ν → μ) : (d.mapVals f).keys = d.keys := by
  simp [keys]

/-- keep the entries that satisfy `p` -/
def filter (d : Dict κ ν) (p : κ → ν → Bool) : Dict κ ν :=
  ⟨d.entries.filter fun e => p e.1 e.2, d.nodup.sublist (List.filter_sublist.map _)⟩

theorem mem_filter {d : Dict κ ν} {p : κ → ν → Bool} {e : κ × ν} :
    e ∈ (d.filter p).entries ↔ e ∈ d.entries ∧ p e.1 e.2 = true := by
  simp [filter]

variable [DecidableEq κ]

def get? (d : Dict κ ν) (k : κ) : Option ν := (d.entries.find? fun e => e.1 = k).map Prod.snd

theorem get?_eq_some {d : Dict κ ν} {k : κ} {v : ν} : d.get? k = some v ↔ (k, v) ∈ d.entries := by
  constructor
  · intro h
    obtain ⟨e, he, rfl⟩ := Option.map_eq_some_iff.1 h
    have hk : e.1 = k := by simpa using List.find?_some he
    rw [← hk]; exact List.mem_of_find?_eq_some he
  · intro h
    cases hf : d.entries.find? (fun e => e.1 = k) with
    | none => rw [List.find?_eq_none] at hf; exact absurd (by simp) (hf _ h)
    | some e =>
      have hk : e.1 = k := by simpa using List.find?_some hf
      have hm : (k, e.2) ∈ d.entries := by rw [← hk]; exact List.mem_of_find?_eq_some hf
      simp only [get?, hf, Option.map_some, Option.some.injEq]
      exact d.eq_of_mem hm h

theorem get?_eq_none {d : Dict κ ν} {k : κ} : d.get? k = none ↔ k ∉ d.keys := by
  rw [Option.eq_none_iff_forall_ne_some, mem_keys]
  simp only [ne_eq, get?_eq_some, not_exists]

theorem get?_of_mem {d : Dict κ ν} {e : κ × ν} (h : e ∈ d.entries) : d.get? e.1 = some e.2 :=
  get?_eq_some.2 h

theorem get?_isSome {d : Dict κ ν} {k : κ} : (d.get? k).isSome ↔ k ∈ d.keys := by
  rw [mem_keys, Option.isSome_iff_exists]; simp only [get?_eq_some]

theorem get?_filter (d : Dict κ ν) (p : κ → Bool) (k : κ) :
    (d.filter fun k _ => p k).get? k = if p k then d.get? k else none := by
  cases hk : d.get? k with
  | none =>
    have hnone : (d.filter fun k _ => p k).get? k = none := by
      rw [get?_eq_none, mem_keys] at hk ⊢
      rintro ⟨v, hv⟩
      exact hk ⟨v, (mem_filter.1 hv).1⟩
    rw [hnone, ite_self]
  | some v =>
    split_ifs with h
    · exact get?_eq_some.2 (mem_filter.2 ⟨get?_eq_some.1 hk, h⟩)
    · rw [get?_eq_none, mem_keys]
      rintro ⟨w, hw⟩
      exact h (mem_filter.1 hw).2

theorem get?_mapVals (d : Dict κ ν) (f : ν → μ) (k : κ) : (d.mapVals f).get? k = (d.get? k).map f := by
  cases hk : d.get? k with
  | none =>
    rw [get?_eq_none] at hk
    rw [Option.map_none, get?_eq_none, keys_mapVals]
    exact hk
  | some v => exact get?_eq_some.2 (List.mem_map.2 ⟨(k, v), get?_eq_some.1 hk, rfl⟩)

def set (d : Dict κ ν) (k : κ) (v : ν) : Dict κ ν :=
  if h : k ∈ d.keys then
    ⟨d.entries.map fun e => if e.1 = k then (k, v) else e, by
      have : (d.entries.map fun e => if e.1 = k then (k, v) else e).map Prod.fst = d.entries.map Prod.fst := by
        rw [List.map_map]; apply List.map_congr_left; intro e _
        simp only [Function.comp_apply]; split_ifs with he
        · exact he.symm
        · rfl
      rw [this]; exact d.nodup⟩
  else
    ⟨d.entries ++ [(k, v)], by
      rw [List.map_append, List.map_singleton, List.nodup_append]
      exact ⟨d.nodup, by simp, fun a ha b hb => by
        simp only [List.mem_singleton] at hb; subst hb; exact fun e => h (e ▸ ha)⟩⟩

theorem keys_set (d : Dict κ ν) (k : κ) (v : ν) : (d.set k v).keys = if k ∈ d.keys then d.keys else d.keys ++ [k] := by
  unfold set
  split_ifs with h
  · simp only [keys, List.map_map]; apply List.map_congr_left; intro e _
    simp only [Function.comp_apply]; split_ifs with he
    · exact he.symm
    · rfl
  · simp [keys]

theorem entries_set_new {d : Dict κ ν} {k : κ} (v : ν) (h : k ∉ d.keys) :
    (d.set k v).entries = d.entries ++ [(k, v)] := by
  simp [set, h]

theorem mem_set {d : Dict κ ν} {k : κ} {v : ν} {e : κ × ν} :
    e ∈ (d.set k v).entries ↔ e = (k, v) ∨ (e ∈ d.entries ∧ e.1 ≠ k) := by
  unfold set
  split_ifs with h
  · simp only [List.mem_map]
    constructor
    · rintro ⟨x, hx, rfl⟩
      split_ifs with hk
      · exact Or.inl rfl
      · exact Or.inr ⟨hx, hk⟩
    · rintro (rfl | ⟨he, hk⟩)
      · obtain ⟨w, hw⟩ := mem_keys.1 h
        exact ⟨_, hw, by simp⟩
      · exact ⟨e, he, by simp [hk]⟩
  · simp only [List.mem_append, List.mem_singleton]
    constructor
    · rintro (he | rfl)
      · exact Or.inr ⟨he, fun hk => h (hk ▸ mem_keys_of_mem he)⟩
      · exact Or.inl rfl
    · rintro (rfl | ⟨he, -⟩)
      · exact Or.inr rfl
      · exact Or.inl he

theorem get?_set (d : Dict κ ν) (k l : κ) (v : ν) : (d.set k v).get? l = if l = k then some v else d.get? l := by
  split_ifs with h
  · subst h; exact get?_eq_some.2 (mem_set.2 (Or.inl rfl))
  · cases hl : d.get? l with
    | some w => exact get?_eq_some.2 (mem_set.2 (Or.inr ⟨get?_eq_some.1 hl, h⟩))
    | none =>
      rw [get?_eq_none] at hl ⊢
      rw [keys_set]; split_ifs
      · exact hl
      · simp [hl, h]

theorem mem_keys_set {d : Dict κ ν} {k l : κ} {v : ν} : l ∈ (d.set k v).keys ↔ l = k ∨ l ∈ d.keys := by
  rw [keys_set]; split_ifs with h
  · exact ⟨Or.inr, fun hl => hl.elim (fun e => e ▸ h) id⟩
  · simp [or_comm]

/-- a view of the values that the new value shares with the old one is kept -/
theorem map_set_of_eq {d : Dict κ ν} {k : κ} {v w : ν} (f : ν → μ) (hw : d.get? k = some w) (hf : f v = f w) :
    (d.set k v).entries.map (fun e => f e.2) = d.entries.map fun e => f e.2 := by
  have hk : k ∈ d.keys := get?_isSome.1 (by rw [hw]; rfl)
  simp only [set, dif_pos hk, List.map_map]
  refine List.map_congr_left fun e he => ?_
  simp only [Function.comp_apply]
  split_ifs with h
  · subst h
    rw [hf, d.eq_of_mem (get?_eq_some.1 hw) he]
  · rfl

/-- writing what is there changes nothing -/
theorem set_self {d : Dict κ ν} {k : κ} {v : ν} (h : d.get? k = some v) : d.set k v = d := by
  have hk : k ∈ d.keys := get?_isSome.1 (by rw [h]; rfl)
  refine ext ?_
  simp only [set, dif_pos hk]
  refine (List.map_congr_left fun e he => ?_).trans (List.map_id _)
  split_ifs with hek
  · subst hek
    rw [d.eq_of_mem (get?_eq_some.1 h) he]
    rfl
  · rfl

def erase (d : Dict κ ν) (k : κ) : Dict κ ν :=
  ⟨d.entries.filter fun e => e.1 ≠ k, d.nodup.sublist (List.filter_sublist.map _)⟩

theorem mem_erase {d : Dict κ ν} {k : κ} {e : κ × ν} : e ∈ (d.erase k).entries ↔ e ∈ d.entries ∧ e.1 ≠ k := by
  simp [erase]

theorem get?_erase (d : Dict κ ν) (k l : κ) : (d.erase k).get? l = if l = k then none else d.get? l := by
  split_ifs with h
  · subst h; rw [get?_eq_none, mem_keys]; rintro ⟨v, hv⟩; exact (mem_erase.1 hv).2 rfl
  · cases hl : d.get? l with
    | some w => exact get?_eq_some.2 (mem_erase.2 ⟨get?_eq_some.1 hl, h⟩)
    | none =>
      rw [get?_eq_none, mem_keys] at hl ⊢
      rintro ⟨v, hv⟩; exact hl ⟨v, (mem_erase.1 hv).1⟩

theorem mem_keys_erase {d : Dict κ ν} {k l : κ} : l ∈ (d.erase k).keys ↔ l ∈ d.keys ∧ l ≠ k := by
  simp only [mem_keys, mem_erase, exists_and_right]

theorem erase_set (d : Dict κ ν) (k : κ) (v : ν) : (d.set k v).erase k = d.erase k := by
  refine ext ?_
  by_cases h : k ∈ d.keys
  · simp only [erase, set, dif_pos h, List.filter_map]
    have hcomp : ((fun e : κ × ν => decide (e.1 ≠ k)) ∘ fun e => if e.1 = k then (k, v) else e) =
        fun e => decide (e.1 ≠ k) := by
      funext e
      by_cases he : e.1 = k <;> simp [he]
    rw [hcomp]
    refine (List.map_congr_left fun e he => ?_).trans (List.map_id _)
    have hne : e.1 ≠ k := by simpa using (List.mem_filter.1 he).2
    rw [if_neg hne]
    rfl
  · simp only [erase, entries_set_new v h, List.filter_append]
    simp

theorem erase_of_not_mem {d : Dict κ ν} {k : κ} (h : k ∉ d.keys) : d.erase k = d := by
  refine ext (List.filter_eq_self.2 fun e he => ?_)
  have hne : e.1 ≠ k := fun hk => h (hk ▸ mem_keys_of_mem he)
  simpa using hne

/-! ## Building from a list -/

/-- later values of a repeated key overwrite earlier ones, as in a dict literal -/
def ofList (l : List (κ × ν)) : Dict κ ν := l.foldl (fun d e => d.set e.1 e.2) ∅

theorem foldl_set_entries (l : List (κ × ν)) (d : Dict κ ν) (h : ((d.entries ++ l).map Prod.fst).Nodup) :
    (l.foldl (fun d e => d.set e.1 e.2) d).entries = d.entries ++ l := by
  induction l generalizing d with
  | nil => simp
  | cons e l ih =>
    have hk : e.1 ∉ d.keys := by
      intro hm
      rw [List.map_append, List.nodup_append] at h
      exact h.2.2 _ hm e.1 (by simp) rfl
    have he := entries_set_new e.2 hk
    rw [List.foldl_cons, ih, he, List.append_assoc, List.singleton_append]
    rw [he, List.append_assoc, List.singleton_append]; exact h

theorem ofList_entries (l : List (κ × ν)) (h : (l.map Prod.fst).Nodup) : (ofList l).entries = l := by
  simpa [ofList] using foldl_set_entries l ∅ (by simpa using h)

theorem ofList_self (d : Dict κ ν) : ofList d.entries = d := ext (ofList_entries _ d.nodup)

/-- dictionaries with the same values have the same entries, in some order -/
theorem perm_of_get? {d e : Dict κ ν} (h : ∀ k, d.get? k = e.get? k) : d.entries.Perm e.entries := by
  refine (List.perm_ext_iff_of_nodup (List.Nodup.of_map _ d.nodup) (List.Nodup.of_map _ e.nodup)).2 fun x => ?_
  obtain ⟨k, v⟩ := x
  rw [← get?_eq_some, ← get?_eq_some, h]

end Dict

end Lib
