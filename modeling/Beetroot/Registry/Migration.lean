/-
The backup rename and the lock.

`list_instances` reads under the shared lock. Before it calls `_read`, which may rename the file to `.bak`, it asks
`_needs_legacy_migration` whether it would, and escalates to the exclusive lock if so. The two were written separately:
`_read` also renames for an unsalvageable row of a version-3 document, and raises on bytes that are not UTF-8.

Results:
- `wouldRename_iff`: the two agree exactly on the contents that are UTF-8 and, at version 3, have no unsalvageable row;
- `rename_exclusive_iff`: exactly for these contents they agree and, in every interleaving of the registry operations from
  the content, a process about to rename holds the exclusive lock;
- `renamed_under_shared_lock`: a content for which `list_instances` renames the file under the shared lock.
-/
import Beetroot.Registry.Sections

namespace Beetroot

open Lib Lib.RwLock

variable {T : Type}

/-- `_read` would rename the file -/
def wouldRename (P : Pydantic T) (c : Content) : Bool :=
  match readContent P c with
  | .backup _ => true
  | _ => false

/-- the content decodes and, as a version-3 document, has no unsalvageable row -/
def Foreseen (P : Pydantic T) : Content → Prop
  | .undecodable => False
  | .malformed => True
  | .json j => isSchemaVersion (versionOf j) = true → ∀ e ∈ rawInstances j, unsalvageable P e.2 = false

/-- the check agrees with the read exactly on the foreseen contents -/
theorem wouldRename_iff (P : Pydantic T) (c : Content) : needsLegacyMigration c = wouldRename P c ↔ Foreseen P c := by
  cases c with
  | undecodable => simp [needsLegacyMigration, wouldRename, readContent, Foreseen]
  | malformed => simp [needsLegacyMigration, wouldRename, readContent, Foreseen]
  | json j =>
    simp only [needsLegacyMigration, wouldRename, readContent, Foreseen]
    cases hv : isSchemaVersion (versionOf j) with
    | false => simp
    | true =>
      simp only [Bool.not_true, if_true, forall_const]
      rcases readRows_eq P (rawInstances j) ∅ with ⟨hs, he⟩ | ⟨⟨e, he, hu⟩, n, hr⟩
      · simpa [he] using hs
      · simp only [hr, Bool.false_eq_true, false_iff, not_forall]
        exact ⟨e, he, by simp [hu]⟩

/-- every text that an operation writes is foreseen -/
theorem foreseen_written (P : Pydantic T) (d : RegistryFile T) : Foreseen P (.json (registryToJson P d)) := by
  rw [← wouldRename_iff, wouldRename, readContent_dump]
  simp [needsLegacyMigration]

/-! ## Interleavings -/

/-- the content of the file, if there is one, is foreseen -/
def ForeseenDisk (P : Pydantic T) (s : Disk) : Prop := ∀ c, s.file = some c → Foreseen P c

section Tame

variable {P : Pydantic T} {s : Disk}

theorem foreseen_initialised (h : ForeseenDisk P s) : ForeseenDisk P (s.initialised P) := by
  unfold Disk.initialised
  cases hf : s.file with
  | some x => simpa only [hf] using h
  | none => intro c hc; cases hc; exact foreseen_written P ∅

theorem foreseen_readOff (h : ForeseenDisk P s) : ForeseenDisk P (s.readOff P).2 := by
  unfold Disk.readOff
  cases hf : s.file with
  | none => exact h
  | some x =>
    simp only
    split
    · exact h
    · intro c hc; cases hc
    · exact h

theorem foreseen_update (h : ForeseenDisk P s) (f : RegistryFile T → Res T × Option (RegistryFile T)) :
    ForeseenDisk P ((registrySystem P).alone (update P f) s).2 := by
  have hr := foreseen_readOff h
  rw [alone_update]
  generalize s.readOff P = x at hr
  obtain ⟨_ | d, t⟩ := x
  · exact hr
  · simp only
    rcases f d with ⟨r, _ | d'⟩
    · exact hr
    · intro c hc; cases hc; exact foreseen_written P d'

/-- a store without a registry file, from which a lock-free check learns nothing -/
def blank : Disk := { file := none }

theorem tame_locked {body : Reg (Res T)} (hbody : ∀ s, Absent blank s →
      Inside (S := registrySystem P) (fun _ => True) (Absent blank) body s)
    (hkeep : ∀ s, ForeseenDisk P s → ForeseenDisk P ((registrySystem P).alone body s).2) (t : Disk) :
    Tame (S := registrySystem P) ReadOnly (ForeseenDisk P) none (locked body) t := by
  intro s hs
  have hblank : ∀ t, Absent blank t := fun _ _ => rfl
  have hin : Inside (S := registrySystem P) (fun _ => True) (Absent blank) (initialise >>= fun _ => body) s :=
    inside_bind (S := registrySystem P) (inside_initialise (hblank s)) (hbody _ (hblank _))
  refine tame_section (S := registrySystem P) hin ?_
  rw [System.alone_bind (registrySystem P), alone_initialise]
  exact hkeep _ (foreseen_initialised hs)

theorem tame_mutate (f : RegistryFile T → Res T × Option (RegistryFile T)) (t : Disk) :
    Tame (S := registrySystem P) ReadOnly (ForeseenDisk P) none (mutate P f) t :=
  tame_locked (fun _ h => inside_update h (fun _ _ _ _ => rfl) f) (fun _ h => foreseen_update h f) t

theorem tame_listShared (hs : ForeseenDisk P s) :
    Tame (S := registrySystem P) ReadOnly (ForeseenDisk P) (some .sh) (listShared P) s := by
  have hro := readOnly_exec P
  refine tame_sh_bind (S := registrySystem P) hro inside_needsMigration ?_
  rw [alone_needsMigration]
  cases hn : s.needs with
  | false =>
    simp only
    refine tame_sh_bind (S := registrySystem P) hro (inside_read_readOnly ?_) ⟨nofun, fun _ => rfl⟩
    -- the check and the read see the same content, since nobody writes under the shared lock
    intro x r hx hb
    have hw := (wouldRename_iff P x).2 (hs x hx)
    simp only [Disk.needs, hx] at hn
    rw [hn, wouldRename, hb] at hw; cases hw
  | true =>
    simp only
    refine ⟨nofun, tame_locked (fun s h => ?_) fun s h => ?_⟩
    · have hr := inside_read (P := P) h (fun _ _ _ _ => rfl)
      exact inside_bind (S := registrySystem P) hr (inside_end (S := registrySystem P) hr)
    · rw [System.alone_bind (registrySystem P), alone_read]
      exact foreseen_readOff h

theorem tame_listInstances (t : Disk) :
    Tame (S := registrySystem P) ReadOnly (ForeseenDisk P) none (listInstances P) t := by
  refine ⟨Or.inl rfl, fun u v => ?_⟩
  change Tame (S := registrySystem P) ReadOnly (ForeseenDisk P) none (if !u.file.isSome then _ else _) v
  cases u.file with
  | none => rfl
  | some _ => exact fun s hs => tame_listShared hs

theorem tame_opProg (o : Op T) (t : Disk) :
    Tame (S := registrySystem P) ReadOnly (ForeseenDisk P) none (opProg P o) t := by
  cases o with
  | addAllocating name path backend now =>
    simp only [opProg, addAllocating]
    cases newBackend path backend with
    | none => rfl
    | some b => exact tame_mutate _ t
  | remove name => exact tame_mutate _ t
  | setStealthPaths name sp => exact tame_mutate _ t
  | reconcileBackendKind name binder => exact tame_mutate _ t
  | listInstances => exact tame_listInstances t

end Tame

/-- in every interleaving of registry operations from the content, a process about to rename the file holds the exclusive
lock -/
def RenamesExclusively (P : Pydantic T) (c : Content) : Prop :=
  ∀ (ι : Type) [DecidableEq ι] (prog : ι → List (Op T)) (sched : List ι) (i : ι) (o : Op T)
    (k : Unit → Reg (Res T)),
    ((run (S := registrySystem P) (init { file := some c } prog) sched).proc i).cur = some (o, .act (.base .rename) k) →
    ((run (S := registrySystem P) (init { file := some c } prog) sched).proc i).held = some .ex

/-- Exactly for the foreseen contents, the check says whether the read would rename, and the file is renamed only under the
exclusive lock. -/
theorem rename_exclusive_iff (P : Pydantic T) (c : Content) :
    ((needsLegacyMigration c = true ↔ wouldRename P c = true) ∧ RenamesExclusively P c) ↔ Foreseen P c := by
  rw [← Bool.eq_iff_iff, wouldRename_iff]
  refine ⟨fun h => h.1, fun h => ⟨h, ?_⟩⟩
  intro ι _ prog sched i o k hcur
  have hsafe : Safe ReadOnly (ForeseenDisk P) (run (S := registrySystem P) (init { file := some c } prog) sched) :=
    run_safe (S := registrySystem P) (readOnly_exec P) (fun o t => tame_opProg o t)
      (safe_init (by intro x hx; cases hx; exact h) prog) sched
  exact (hsafe.exclusive hcur (by rintro (h | h) <;> cases h)).1

/-- a version-3 document whose only row has a null index -/
def nullIndex : Content :=
  .json (.obj [("version", .int 3), ("instances", .obj [("alpha", .obj [("backend", .obj [("kind", .str "redroid"),
    ("absolute_path", .str "/srv/alpha")]), ("index", .null), ("created_at", .str "2026-01-01T00:00:00+00:00")])])])

/-- the check passes the content, the read renames it, and one process's `list_instances` is about to rename it while it
holds the shared lock -/
theorem renamed_under_shared_lock :
    needsLegacyMigration nullIndex = false ∧ wouldRename Pydantic.iso nullIndex = true ∧
      ∃ sched k,
        ((run (S := registrySystem Pydantic.iso) (init { file := some nullIndex } fun _ : Unit => [.listInstances])
          sched).proc ()).cur = some (.listInstances, .act (.base .rename) k) ∧
        ((run (S := registrySystem Pydantic.iso) (init { file := some nullIndex } fun _ : Unit => [.listInstances])
          sched).proc ()).held = some .sh :=
  ⟨rfl, rfl, List.replicate 7 (), _, rfl, rfl⟩

end Beetroot
