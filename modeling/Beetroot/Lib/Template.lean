/-
Texts with variables in them, as in a shell or in a compose file: `${NAME}`, and `${NAME:-default}` with a template as its default.

A variable that is unset or empty takes its default. Variables come in layers, of which the outer one wins.

Results:
- `fallback_idem`: a default that is put in already changes nothing any more;
- `fallback_over`: when an outer layer leaves a variable alone, also one that it sets to nothing.
-/
import Mathlib.Data.List.Nodup
import Mathlib.Tactic.Common

namespace Lib

/-! ## Variables -/

abbrev Vars := String → Option String

/-- the outer layer wins, also with an empty value -/
def Vars.over (outer inner : Vars) : Vars := fun name => (outer name).or (inner name)

/-- the last assignment to a name counts -/
def Vars.ofList (assignments : List (String × String)) : Vars := fun name => assignments.reverse.lookup name

/-- `${NAME:-default}` for a value and a default -/
def fallback (value : Option String) (default : String) : String :=
  match value with
  | some v => if v = "" then default else v
  | none => default

@[simp] theorem fallback_none (default : String) : fallback none default = default := rfl

theorem fallback_some {v default : String} (h : v ≠ "") : fallback (some v) default = v := if_neg h

@[simp] theorem fallback_empty (default : String) : fallback (some "") default = default := rfl

/-- what a variable says already is said again -/
theorem fallback_idem (value : Option String) (default : String) :
    fallback (some (fallback value default)) default = fallback value default := by
  by_cases h : fallback value default = ""
  · rw [h, fallback_empty]
    unfold fallback at h
    split at h
    · split_ifs at h with hv
      · exact h
      · exact absurd h hv
    · exact h
  · exact fallback_some h

/-- an outer layer changes nothing exactly if it has no value, the same value, or an empty one where the default is in force -/
theorem fallback_over {outer inner : Vars} {name default : String} :
    fallback (outer.over inner name) default = fallback (inner name) default ↔
      ∀ v, outer name = some v → v = fallback (inner name) default ∨ v = "" ∧ default = fallback (inner name) default := by
  unfold Vars.over
  cases outer name with
  | none => simp
  | some v =>
    simp only [Option.some_or, Option.some.injEq, forall_eq']
    by_cases hv : v = ""
    · subst hv
      rw [fallback_empty]
      refine ⟨fun h => Or.inr ⟨rfl, h⟩, fun h => ?_⟩
      rcases h with h | ⟨-, h⟩
      · -- nothing but an empty default renders to nothing
        rw [← fallback_idem, ← h, fallback_empty]
      · exact h
    · rw [fallback_some hv]
      exact ⟨Or.inl, fun h => h.resolve_right fun h => hv h.1⟩

theorem lookup_of_mem {es : List (String × String)} (h : (es.map Prod.fst).Nodup) {name v : String} (hmem : (name, v) ∈ es) :
    Vars.ofList es name = some v := by
  have hrev : (es.reverse.map Prod.fst).Nodup := by
    rw [List.map_reverse]
    exact List.nodup_reverse.2 h
  have hmem' : (name, v) ∈ es.reverse := List.mem_reverse.2 hmem
  unfold Vars.ofList
  generalize es.reverse = l at hrev hmem'
  induction l with
  | nil => cases hmem'
  | cons e l ih =>
    obtain ⟨k, w⟩ := e
    rw [List.map_cons, List.nodup_cons] at hrev
    rw [List.lookup_cons]
    rcases List.mem_cons.1 hmem' with heq | hl
    · cases heq
      rw [beq_self_eq_true]
    · have hne : (name == k) = false := by
        rw [beq_eq_false_iff_ne]
        intro heq
        have hk : name ∈ l.map Prod.fst := List.mem_map_of_mem hl
        exact hrev.1 (heq ▸ hk)
      rw [hne]
      exact ih hrev.2 hl

theorem lookup_of_not_mem {es : List (String × String)} {name : String} (h : name ∉ es.map Prod.fst) :
    Vars.ofList es name = none := by
  unfold Vars.ofList
  rw [List.lookup_eq_none_iff]
  intro e he
  rw [bne_iff_ne]
  intro heq
  exact h (heq ▸ List.mem_map_of_mem (List.mem_reverse.1 he))

/-! ## Templates -/

inductive Template where
  | text (s : String)
  /-- `${NAME}` -/
  | ref (name : String)
  /-- `${NAME:-default}` -/
  | var (name : String) (default : Template)
  | append (l r : Template)
deriving DecidableEq, Repr

namespace Template

def render (vars : Vars) : Template → String
  | text s => s
  | ref name => (vars name).getD ""
  | var name default => fallback (vars name) (default.render vars)
  | append l r => l.render vars ++ r.render vars

end Template

end Lib
