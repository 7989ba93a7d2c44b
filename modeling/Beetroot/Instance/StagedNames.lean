/-
Do the names clash under which `stage_for_instance` copies the modules?

A name that is in use gets the index of its module in front and is tried again. Nothing bounds the recursion, and a basename may
look like one that has got an index already. The recursion as the source has it is `Returns`, whose derivations are the calls.

Results:
- `destNames_placed`: what the loop chooses at each position, from the list of basenames alone;
- `stageLoop_copies`: what a loop has copied when it returns or raises;
- `staged_names_distinct`: all of it for every list of basenames and every run.
-/
import Beetroot.Instance.Flash

namespace Beetroot.Instance

open Lib Lib.Eff Lib.Fs

variable {T B : Type}

/-! ## The loop over the basenames -/

/-- what the loop does with the basename at a position, where these names are taken -/
structure Placed (taken : String → Prop) (index : ℕ) (name dest : String) : Prop where
  returns : ∃ calls ≤ index, name.length + calls ≤ dest.length ∧ Returns taken index calls name dest
  fresh : ¬ taken dest
  ends : name.toList <:+ dest.toList
  kept : ¬ taken name → dest = name

section Loop

theorem placed_unique {used : List String} {index : ℕ} (hused : used.length = index) (name : String) :
    Placed (· ∈ used) index name (uniqueDestName name used index) := by
  obtain ⟨calls, hcalls, h⟩ := uniqueDestName_returns name used index
  exact ⟨⟨calls, hused ▸ hcalls, h.length_le, h⟩, h.not_taken, h.ends, fun hname => h.of_not_taken hname⟩

/-- the names that a position finds taken are those in use before the loop and those chosen so far -/
theorem destNames_placed (names : List String) (i : ℕ) (used : List String) (hused : used.length = i) (k : ℕ) (name dest : String)
    (hname : names[k]? = some name) (hdest : (destNames i used names)[k]? = some dest) :
    Placed (fun x => x ∈ used ∨ x ∈ (destNames i used names).take k) (i + k) name dest := by
  induction names generalizing i used k with
  | nil => cases hname
  | cons first names ih =>
    rw [destNames] at hdest ⊢
    cases k with
    | zero =>
      have hfirst : first = name := Option.some.inj hname
      have hchosen : uniqueDestName first used i = dest := Option.some.inj hdest
      have htaken : (fun x => x ∈ used ∨ x ∈ (uniqueDestName first used i :: destNames (i + 1)
          (uniqueDestName first used i :: used) names).take 0) = (· ∈ used) := by
        funext x
        simp
      rw [htaken, ← hchosen, ← hfirst]
      exact placed_unique hused first
    | succ k =>
      have hlater := ih (i + 1) (uniqueDestName first used i :: used) (by rw [List.length_cons, hused]) k hname hdest
      have htaken : (fun x => x ∈ uniqueDestName first used i :: used ∨
          x ∈ (destNames (i + 1) (uniqueDestName first used i :: used) names).take k) =
          fun x => x ∈ used ∨ x ∈ (uniqueDestName first used i :: destNames (i + 1)
            (uniqueDestName first used i :: used) names).take (k + 1) := by
        funext x
        rw [List.take_succ_cons, List.mem_cons, List.mem_cons, or_assoc, or_left_comm]
      rw [htaken] at hlater
      have hindex : i + 1 + k = i + (k + 1) := by omega
      rwa [hindex] at hlater

end Loop

/-! ## The copies of a run -/

/-- the copies to these names, as the log has them -/
def copies (root : Path) (names : List String) : List Touch := names.map fun x => .path (instanceModules root ++ [x])

section Run

variable (net : Net B) (f : Faults B) (root : Path)

/-- a copy that raises may have opened its target -/
theorem copyfile_log (i : ℕ) (src : Source B) (dst : Path) (s : Site T B) :
    (∃ t, (copyfile f i src dst : M T B Unit) s = .ok () t ∧ t.log = s.log ++ [.path dst]) ∨
    ∃ e t, (copyfile f i src dst : M T B Unit) s = .error e t ∧ (t.log = s.log ∨ t.log = s.log ++ [.path dst]) := by
  cases h : (copyfile f i src dst : M T B Unit) s with
  | ok u t =>
    obtain ⟨-, -, -, rfl⟩ := copyfile_ok h
    exact .inl ⟨_, rfl, rfl⟩
  | error e t =>
    refine .inr ⟨e, t, rfl, ?_⟩
    rcases bind_error_iff.1 h with hrefuse | ⟨⟨⟩, u, hrefuse, hwrite⟩
    · obtain ⟨-, -, rfl⟩ := refuse_error_iff.1 hrefuse
      exact .inl rfl
    · obtain ⟨-, rfl⟩ := refuse_ok_iff.1 hrefuse
      rcases writeText_error hwrite with ⟨-, rfl⟩ | ⟨-, -, ⟨-, rfl⟩ | ⟨left, -, rfl⟩⟩
      · exact .inl rfl
      · exact .inl rfl
      · exact .inr rfl

/-- a loop that returns or raises has copied to the first of the chosen names -/
theorem stageLoop_copies (ms : List Module) (i : ℕ) (used : List String) (s : Site T B) :
    ∃ done, done <+: destNames i used (ms.map (sourceName net root)) ∧
      (final (stageLoop net f root i used ms s)).log = s.log ++ copies root done := by
  induction ms generalizing i used s with
  | nil => exact ⟨[], List.nil_prefix, (List.append_nil _).symm⟩
  | cons m ms ih =>
    rw [List.map_cons, destNames]
    cases hres : resolveModule net root s.fs i m with
    | error e =>
      rw [stageLoop_error net f root hres]
      exact ⟨[], List.nil_prefix, (List.append_nil _).symm⟩
    | ok src =>
      rw [stageLoop_ok net f root hres, ← resolveModule_name hres, stageOne]
      rcases copyfile_log f i src (instanceModules root ++ [uniqueDestName src.name used i]) s with
        ⟨u, hcopy, hlog⟩ | ⟨e, u, hcopy, hlog⟩
      · -- the copy is made, and the loop goes on
        obtain ⟨done, hprefix, hrest⟩ := ih (i + 1) (uniqueDestName src.name used i :: used) u
        refine ⟨uniqueDestName src.name used i :: done, List.cons_prefix_cons.2 ⟨rfl, hprefix⟩, ?_⟩
        rw [final_bind_ok hcopy, final_bind_pure, hrest, hlog, List.append_assoc]
        rfl
      · rw [final_bind_error hcopy]
        rcases hlog with hlog | hlog
        · exact ⟨[], List.nil_prefix, hlog.trans (List.append_nil _).symm⟩
        · exact ⟨[uniqueDestName src.name used i], List.cons_prefix_cons.2 ⟨rfl, List.nil_prefix⟩, hlog⟩

theorem nodup_copies {names : List String} (h : names.Nodup) : (copies root names).Nodup := by
  refine h.map fun a b hab => ?_
  have hpath : instanceModules root ++ [a] = instanceModules root ++ [b] := Touch.path.inj hab
  simpa using List.append_cancel_left hpath

end Run

/-- For every list of basenames the recursion returns at every position, after at most as many calls as there are names before it;
the chosen names differ, end with their basenames, and are these where they are not taken. A run of the loop copies to the names
of its modules, each at most once, and a run that returns leaves in each the bytes of its own module. -/
theorem staged_names_distinct (T : Type) (net : Net B) (f : Faults B) (root : Path) :
    (∀ names : List String, (destNames 0 [] names).length = names.length ∧ (destNames 0 [] names).Nodup ∧
      ∀ k name dest, names[k]? = some name → (destNames 0 [] names)[k]? = some dest →
        Placed (· ∈ (destNames 0 [] names).take k) k name dest) ∧
    ∀ (ms : List Module) (s : Site T B),
      (∃ done, done <+: destNames 0 [] (ms.map (sourceName net root)) ∧
        (final (stageLoop net f root 0 [] ms s)).log = s.log ++ copies root done ∧ (copies root done).Nodup) ∧
      ∀ paths t, stageLoop net f root 0 [] ms s = .ok paths t →
        paths = (destNames 0 [] (ms.map (sourceName net root))).map (fun x => instanceModules root ++ [x]) ∧
        List.Forall₂ (FromSource net root t.fs) ms.zipIdx (destNames 0 [] (ms.map (sourceName net root))) := by
  constructor
  · intro names
    refine ⟨length_destNames names 0 [], (destNames_nodup names 0 []).1, ?_⟩
    intro k name dest hname hdest
    simpa using destNames_placed names 0 [] rfl k name dest hname hdest
  · intro ms s
    constructor
    · obtain ⟨done, hprefix, hlog⟩ := stageLoop_copies net f root ms 0 [] s
      exact ⟨done, hprefix, hlog, nodup_copies root ((destNames_nodup _ 0 []).1.sublist hprefix.sublist)⟩
    · intro paths t h
      rw [← stagedNames_eq]
      exact ⟨stageLoop_names ms 0 [] h, (stageLoop_staged ms 0 [] h).1⟩

/-- names that look like names with an index -/
example : destNames 0 [] ["m.zip", "2_m.zip", "m.zip", "m.zip"] = ["m.zip", "2_m.zip", "2_2_m.zip", "3_m.zip"] := by decide

end Beetroot.Instance
