/-
Do two registered instances ever share files?

`_check_directory_overlap` (and the loop of `_prepare_destination`) compares a new target with the registered directories and
refuses an equal, containing or contained one. It reads the registry in a step of its own, before `add_allocating` writes the
row; unlike the port check it is not repeated under the lock. Between the two steps a call is in its window.

Results:
- `rows_apart`: in every interleaving of any calls, from an empty registry, in which no call makes its overlap check while
  another one with an overlapping target is in its window, no two rows have overlapping directories;
- `same_directory_twice`: two `create` calls with one target that both pass the check and both register.
-/
import Beetroot.Registration.Machine
import Mathlib.Data.Fintype.Basic

namespace Beetroot.Registration.Overlap

open Lib Lib.Fs

variable {T ι : Type} {p : Paths} {calls : ι → Call T}

/-- no two redroid/vm rows have resolved directories that are equal or one an ancestor of the other -/
def Apart (p : Paths) (d : RegistryFile T) : Prop :=
  ∀ e ∈ d.instances.entries, ∀ f ∈ d.instances.entries, e.1 ≠ f.1 →
    ∀ r ∈ e.2.backend.absolutePath, ∀ q ∈ f.2.backend.absolutePath, ¬ Overlaps (p.resolve r) (p.resolve q)

/-- no redroid/vm row overlaps the directory -/
def FreeOf (p : Paths) (d : RegistryFile T) (target : Path) : Prop :=
  ∀ e ∈ d.instances.entries, ∀ r ∈ e.2.backend.absolutePath, ¬ Overlaps (p.resolve r) target

theorem overlapsRow_false {w : World T} {target : Path} (h : overlapsRow p w target = false) :
    FreeOf p w.reg target := by
  intro e he r hr ho
  have hany : overlapsRow p w target = true := by
    refine List.any_eq_true.2 ⟨e, he, ?_⟩
    rw [Option.mem_def.1 hr]
    simpa using ho
  rw [h] at hany; cases hany

theorem backend_dir (c : Call T) (cfg : Option InstanceConfig) :
    (c.backend p cfg).absolutePath = some (p.str (c.target p)) := by
  unfold Call.backend
  cases cfg with
  | none => rfl
  | some cfg => simp only; split_ifs <;> rfl

/-- the rows after a step are old ones, perhaps with another backend of the same directory, or the row a call in its window
writes for its target -/
theorem next_rows {c : Call T} {w : World T} {pc : Pc T} {e : String × InstanceMeta T}
    (he : e ∈ (next p c w pc).1.reg.instances.entries) :
    (∃ m, (e.1, m) ∈ w.reg.instances.entries ∧ e.2.backend.absolutePath = m.backend.absolutePath) ∨
    (pc.window = true ∧ e.1 = c.name ∧ c.name ∉ w.reg.instances.keys ∧
      e.2.backend.absolutePath = some (p.str (c.target p))) := by
  rcases next_reg p c w pc with h | ⟨created, cfg, i, rfl, ha⟩ | h | ⟨m, b, hm, hb, h⟩
  · rw [h] at he; exact Or.inl ⟨e.2, he, rfl⟩
  · obtain ⟨hn, -, -, h⟩ := allocate_ok ha
    rw [h] at he
    rcases Dict.mem_set.1 he with rfl | ⟨he, -⟩
    · exact Or.inr ⟨rfl, rfl, hn, backend_dir c cfg⟩
    · exact Or.inl ⟨e.2, he, rfl⟩
  · rw [h] at he; exact Or.inl ⟨e.2, (Dict.mem_erase.1 he).1, rfl⟩
  · rw [h] at he
    rcases Dict.mem_set.1 he with rfl | ⟨he, -⟩
    · exact Or.inl ⟨m, Dict.get?_eq_some.1 hm, hb⟩
    · exact Or.inl ⟨e.2, he, rfl⟩

/-! ## The invariant -/

structure Inv (p : Paths) (calls : ι → Call T) (s : St T ι) : Prop where
  rows : Apart p s.world.reg
  /-- a target in its window overlaps no row -/
  free : ∀ i, (s.pc i).window = true → FreeOf p s.world.reg ((calls i).target p)
  /-- two targets in their windows do not overlap -/
  pairs : ∀ i j, i ≠ j → (s.pc i).window = true → (s.pc j).window = true →
    ¬ Overlaps ((calls i).target p) ((calls j).target p)

theorem inv_start (p : Paths) (calls : ι → Call T) (fs : FileTree FileBody) : Inv p calls (start ⟨∅, fs⟩) := by
  refine ⟨fun e he => absurd he List.not_mem_nil, ?_, ?_⟩
  · intro i h; cases h
  · intro i j _ h; cases h

/-- the registry step lemma: an old row is apart from an old row, and the new row of a window's target from all of them -/
theorem apart_next {s : St T ι} (h : Inv p calls s) (i : ι) :
    Apart p (next p (calls i) s.world (s.pc i)).1.reg := by
  intro e he f hf hne r hr q hq
  rcases next_rows he with ⟨m, hm, hbm⟩ | ⟨hwe, hne', hnk, hbe⟩ <;>
    rcases next_rows hf with ⟨n, hn, hbn⟩ | ⟨hwf, hnf, hnk', hbf⟩
  · rw [hbm] at hr; rw [hbn] at hq
    exact h.rows _ hm _ hn hne r hr q hq
  · rw [hbm] at hr; rw [hbf] at hq
    cases hq
    rw [Call.target, p.resolve_str]
    exact h.free i hwf _ hm r hr
  · rw [hbe] at hr; rw [hbn] at hq
    cases hr
    rw [Call.target, p.resolve_str]
    exact fun ho => h.free i hwe _ hn q hq ho.symm
  · exact absurd (hne'.trans hnf.symm) hne

theorem free_next {s : St T ι} {target : Path} (h : FreeOf p s.world.reg target) (i : ι)
    (hw : (s.pc i).window = true → ¬ Overlaps ((calls i).target p) target) :
    FreeOf p (next p (calls i) s.world (s.pc i)).1.reg target := by
  intro e he r hr
  rcases next_rows he with ⟨m, hm, hbm⟩ | ⟨hwe, -, -, hbe⟩
  · rw [hbm] at hr; exact h _ hm r hr
  · rw [hbe] at hr
    cases hr
    rw [Call.target, p.resolve_str]
    exact hw hwe

section Step

variable [DecidableEq ι]

/-- a call about to make its overlap check finds no other call with an overlapping target in its window -/
def Careful (p : Paths) (calls : ι → Call T) (s : St T ι) (a : ι × Bool) : Prop :=
  (s.pc a.1).checksOverlap = true → ∀ j, j ≠ a.1 → (s.pc j).window = true →
    ¬ Overlaps ((calls a.1).target p) ((calls j).target p)

instance [Fintype ι] (s : St T ι) (a : ι × Bool) : Decidable (Careful p calls s a) := by
  unfold Careful; infer_instance

theorem raises_window (pc : Pc T) : pc.raises.window = false := by
  cases pc <;> rfl

/-- a step that raises leaves the registry alone and no window is entered -/
theorem inv_raise {s : St T ι} (h : Inv p calls s) (i : ι) : Inv p calls (step p calls s (i, true)) := by
  have hw : ∀ j, ((step p calls s (i, true)).pc j).window = true → (s.pc j).window = true := by
    intro j hj
    simp only [step, if_true] at hj
    by_cases hji : j = i
    · subst hji; rw [Function.update_self, raises_window] at hj; cases hj
    · rwa [Function.update_of_ne hji] at hj
  exact ⟨h.rows, fun j hj => h.free j (hw j hj), fun j k hjk hj hk => h.pairs j k hjk (hw j hj) (hw k hk)⟩

/-- a step of call `i` that does not raise -/
theorem inv_next {s : St T ι} (h : Inv p calls s) (i : ι) (hc : Careful p calls s (i, false)) :
    Inv p calls (step p calls s (i, false)) := by
  have hpc : ∀ j, j ≠ i → (step p calls s (i, false)).pc j = s.pc j := by
    intro j hj; simp [step, hj]
  have hpci : (step p calls s (i, false)).pc i = (next p (calls i) s.world (s.pc i)).2 := by simp [step]
  -- what was known of a call that is now in its window: it was in it before, or it has just passed the check
  have hsep : ∀ j, j ≠ i → (s.pc j).window = true → (next p (calls i) s.world (s.pc i)).2.window = true →
      ¬ Overlaps ((calls i).target p) ((calls j).target p) := by
    intro j hj hwj hwi
    rcases (next_window hwi).2 with hold | ⟨hov, -⟩
    · exact h.pairs i j (Ne.symm hj) hold hwj
    · exact hc hov j hj hwj
  refine ⟨apart_next h i, fun j hj => ?_, fun j k hjk hj hk => ?_⟩
  · by_cases hji : j = i
    · subst hji
      rw [hpci] at hj
      obtain ⟨hreg, hold | ⟨-, ho⟩⟩ := next_window hj
      · change FreeOf p (next p (calls j) s.world (s.pc j)).1.reg _
        rw [hreg]; exact h.free j hold
      · change FreeOf p (next p (calls j) s.world (s.pc j)).1.reg _
        rw [hreg]; exact overlapsRow_false ho
    · rw [hpc j hji] at hj
      exact free_next (h.free j hj) i fun hwi => h.pairs i j (Ne.symm hji) hwi hj
  · by_cases hji : j = i
    · subst hji
      rw [hpci] at hj; rw [hpc k (Ne.symm hjk)] at hk
      exact hsep k (Ne.symm hjk) hk hj
    · rw [hpc j hji] at hj
      by_cases hki : k = i
      · subst hki
        rw [hpci] at hk
        exact fun ho => hsep j hji hj hk ho.symm
      · rw [hpc k hki] at hk
        exact h.pairs j k hjk hj hk

theorem step_inv {s : St T ι} (h : Inv p calls s) (a : ι × Bool) (hc : Careful p calls s a) :
    Inv p calls (step p calls s a) := by
  obtain ⟨i, fault⟩ := a
  cases fault with
  | false => exact inv_next h i hc
  | true => exact inv_raise h i

/-- Any number of calls of any kind, names and targets, in any interleaving and with any failures, from an empty registry over
any files: if no call makes its overlap check while another one with an overlapping target is in its window, no two
directory-backed rows ever overlap. -/
theorem rows_apart (p : Paths) (calls : ι → Call T) (fs : FileTree FileBody) (sched : List (ι × Bool))
    (h : Always (step p calls) (Careful p calls) (start ⟨∅, fs⟩) sched) :
    Apart p (run p calls (start ⟨∅, fs⟩) sched).world.reg := by
  have hinv : Inv p calls (run p calls (start ⟨∅, fs⟩) sched) :=
    run_always (I := Inv p calls) (fun _ a hi hc => step_inv hi a hc) (inv_start p calls fs) h
  exact hinv.rows

end Step


/-- two `create` calls with the same target -/
def twins (i : Bool) : Call ℕ := .create (if i then "alpha" else "bravo") "/srv/x" .plain 0

/-- one call after the other: the second one finds the first one's row and refuses -/
theorem rows_apart_twins :
    Always (step Paths.sample twins) (Careful Paths.sample twins) (start ⟨∅, ∅⟩)
        (List.replicate 13 (true, false) ++ List.replicate 3 (false, false)) ∧
      Apart Paths.sample (run Paths.sample twins (start ⟨∅, ∅⟩)
        (List.replicate 13 (true, false) ++ List.replicate 3 (false, false))).world.reg := by
  have h : Always (step Paths.sample twins) (Careful Paths.sample twins) (start ⟨∅, ∅⟩)
      (List.replicate 13 (true, false) ++ List.replicate 3 (false, false)) := by decide
  exact ⟨h, rows_apart Paths.sample twins ∅ _ h⟩

/-- both calls pass their checks, then both go on to their row -/
def twinsSchedule : List (Bool × Bool) :=
  (List.replicate 3 (true, false) ++ List.replicate 3 (false, false)) ++
    (List.replicate 4 (true, false) ++ List.replicate 4 (false, false))

theorem same_directory_twice :
    ¬ Apart Paths.sample (run Paths.sample twins (start ⟨∅, ∅⟩) twinsSchedule).world.reg := by
  intro h
  have hrows : ((run Paths.sample twins (start ⟨∅, ∅⟩) twinsSchedule).world.reg.instances.entries.map
      fun e => (e.1, e.2.backend.absolutePath)) = [("alpha", some "/srv/x"), ("bravo", some "/srv/x")] := by
    decide
  have hmem : ∀ n, (n, some "/srv/x") ∈ [("alpha", some "/srv/x"), ("bravo", some "/srv/x")] →
      ∃ e ∈ (run Paths.sample twins (start ⟨∅, ∅⟩) twinsSchedule).world.reg.instances.entries,
        e.1 = n ∧ e.2.backend.absolutePath = some "/srv/x" := by
    intro n hn
    rw [← hrows] at hn
    obtain ⟨e, he, hx⟩ := List.mem_map.1 hn
    exact ⟨e, he, (Prod.mk.inj hx).1, (Prod.mk.inj hx).2⟩
  obtain ⟨e, he, hen, hep⟩ := hmem "alpha" (by simp)
  obtain ⟨f, hf, hfn, hfp⟩ := hmem "bravo" (by simp)
  exact h e he f hf (by rw [hen, hfn]; decide) _ hep _ hfp (overlaps_refl _)

end Beetroot.Registration.Overlap
