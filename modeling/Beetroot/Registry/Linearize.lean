/-
The registry under concurrent processes.

The five operations of `registry.py`, run by any number of processes on one `instances.json`, interleaved at the steps of
`Registry.Store` (lock actions, exists check, read, first initialisation, write of the temporary file, replace). The lock-free
exists check of `list_instances` can fall into another process's section; `Absent` is what it may conclude.

Results:
- `seq_view`: an operation run alone keeps the file sound (it parses as version 3, row by row, with pairwise distinct indices
  in 0..`maxPortIndex`) and is `apply` on the parsed file;
- `registry_linearizable`: in every interleaving the file is sound whenever nobody holds the exclusive lock, and the completed
  operations are those of a sequential run with the same answers.
-/
import Beetroot.Registry.Sections

namespace Beetroot

open Lib Lib.RwLock

variable {T : Type}

/-! ## Sound files -/

/-- pairwise distinct indices in 0..`maxPortIndex` -/
structure RegistryFile.Allocated (d : RegistryFile T) : Prop where
  distinct : d.usedIndices.Nodup
  range : ∀ i ∈ d.usedIndices, 0 ≤ i ∧ i ≤ maxPortIndex

/-- the content is a version-3 document whose rows all parse, to `d` -/
structure Sound (P : Pydantic T) (c : Content) (d : RegistryFile T) : Prop where
  read : readContent P c = .ok d
  rows : ∃ j, c = .json j ∧ isSchemaVersion (versionOf j) = true ∧ (rawInstances j).map Prod.fst = d.instances.keys
  allocated : d.Allocated

/-- the file is absent or sound -/
def SoundDisk (P : Pydantic T) (s : Disk) : Prop := ∀ c, s.file = some c → ∃ d, Sound P c d

theorem usedIndices_eq (d : RegistryFile T) : d.usedIndices = d.instances.entries.map fun e => e.2.index := by
  simp [RegistryFile.usedIndices, Dict.values]

theorem allocated_empty : (∅ : RegistryFile T).Allocated := ⟨List.nodup_nil, fun _ h => absurd h List.not_mem_nil⟩

theorem allocated_outcome {d d' : RegistryFile T} {r : Res T} {o : Op T} (h : d.Allocated)
    (he : outcome o d = (r, some d')) : d'.Allocated := by
  rcases outcome_cases he with ⟨name, -, -, now, b, i, -, -, hn, hi, hc, -, rfl⟩ | ⟨name, -, -, rfl⟩ |
    ⟨name, m, b, hm, -, -, rfl⟩
  · have hu : RegistryFile.usedIndices ⟨d.instances.set name ⟨b, i, now⟩⟩ = d.usedIndices ++ [i] := by
      rw [usedIndices_eq, usedIndices_eq]
      simp [Dict.entries_set_new _ hn]
    have hfree : i ∉ d.usedIndices := by rw [hi]; exact (lowestFreeIndex_spec d.usedIndices).1
    refine ⟨?_, fun j hj => ?_⟩
    · rw [hu, List.nodup_append]
      exact ⟨h.distinct, by simp, fun a ha c hc => by
        simp only [List.mem_singleton] at hc; subst hc; exact fun e => hfree (e ▸ ha)⟩
    · rw [hu, List.mem_append, List.mem_singleton] at hj
      rcases hj with hj | rfl
      · exact h.range j hj
      · exact checkIndex_ok.1 hc
  · have hsub : (RegistryFile.usedIndices ⟨d.instances.erase name⟩).Sublist d.usedIndices := by
      rw [usedIndices_eq, usedIndices_eq]
      exact List.filter_sublist.map _
    exact ⟨h.distinct.sublist hsub, fun j hj => h.range j (hsub.subset hj)⟩
  · have hu : RegistryFile.usedIndices ⟨d.instances.set name { m with backend := b }⟩ = d.usedIndices := by
      rw [usedIndices_eq, usedIndices_eq]
      exact Dict.map_set_of_eq (fun m : InstanceMeta T => m.index) hm rfl
    exact ⟨hu ▸ h.distinct, hu ▸ h.range⟩

theorem allocated_resettle {d : RegistryFile T} (h : d.Allocated) : (resettle d).Allocated := by
  have hu : (resettle d).usedIndices = d.usedIndices := by
    rw [usedIndices_eq, usedIndices_eq]
    simp [resettle]
  exact ⟨hu ▸ h.distinct, hu ▸ h.range⟩

theorem sound_written (P : Pydantic T) {d : RegistryFile T} (h : d.Allocated) :
    Sound P (.json (registryToJson P d)) (resettle d) := by
  refine ⟨readContent_dump P d, ⟨_, rfl, versionOf_registryToJson P d, ?_⟩, allocated_resettle h⟩
  simp [resettle, Dict.keys]

/-! ## The operations on a sound file -/

/-- the parsed file; an absent one is empty -/
def view (P : Pydantic T) (s : Disk) : RegistryFile T :=
  match s.file with
  | none => ∅
  | some c =>
    match readContent P c with
    | .ok d => d
    | _ => ∅

/-- the sequential meaning of an operation on the parsed file: its answer, and what a read finds afterwards -/
def apply (o : Op T) (d : RegistryFile T) : Res T × RegistryFile T :=
  match outcome o d with
  | (r, some d') => (r, resettle d')
  | (r, none) => (r, d)

section Sequential

variable {P : Pydantic T} {s : Disk}

theorem view_some {c : Content} {d : RegistryFile T} (hf : s.file = some c) (h : Sound P c d) : view P s = d := by
  simp [view, hf, h.read]

theorem view_allocated (hs : SoundDisk P s) : (view P s).Allocated := by
  cases hf : s.file with
  | none => simp only [view, hf]; exact allocated_empty
  | some c =>
    obtain ⟨d, hd⟩ := hs c hf
    rw [view_some hf hd]; exact hd.allocated

theorem sound_initialised (hs : SoundDisk P s) : SoundDisk P (s.initialised P) := by
  unfold Disk.initialised
  cases hf : s.file with
  | some x => simpa only [hf] using hs
  | none => intro c hc; cases hc; exact ⟨_, sound_written P allocated_empty⟩

theorem view_initialised (P : Pydantic T) (s : Disk) : view P (s.initialised P) = view P s := by
  unfold Disk.initialised
  cases hf : s.file with
  | some x => rfl
  | none => simp only [view, hf, readContent_dump]; rfl

theorem initialised_file (P : Pydantic T) (s : Disk) : ∃ c, (s.initialised P).file = some c := by
  unfold Disk.initialised
  cases hf : s.file with
  | some x => exact ⟨x, hf⟩
  | none => exact ⟨_, rfl⟩

/-- a sound file is read without a backup -/
theorem readOff_sound (hs : SoundDisk P s) : s.readOff P = (.ok (view P s), s) := by
  unfold Disk.readOff view
  cases hf : s.file with
  | none => rfl
  | some c =>
    obtain ⟨d, hd⟩ := hs c hf
    simp only [hd.read]

theorem no_backup (hs : SoundDisk P s) {x : Content} {r : Reason} (hf : s.file = some x) :
    readContent P x ≠ .backup r := by
  obtain ⟨d, hd⟩ := hs x hf
  rw [hd.read]; exact nofun

theorem alone_mutate_sound (hs : SoundDisk P s) (f : RegistryFile T → Res T × Option (RegistryFile T)) :
    (registrySystem P).alone (mutate P f) s =
      match f (view P s) with
      | (r, some d') => (r, (s.initialised P).written P d')
      | (r, none) => (r, s.initialised P) := by
  rcases hr : f (view P s) with ⟨r, _ | d'⟩ <;>
    simp only [alone_mutate, alone_update, readOff_sound (sound_initialised hs), view_initialised, hr]

/-- the answer and the new file of a mutating operation -/
theorem mutate_view (hs : SoundDisk P s) {o : Op T} {f : RegistryFile T → Res T × Option (RegistryFile T)}
    (hf : ∀ d, outcome o d = f d) :
    ((registrySystem P).alone (mutate P f) s).1 = (apply o (view P s)).1 ∧
      view P ((registrySystem P).alone (mutate P f) s).2 = (apply o (view P s)).2 ∧
      SoundDisk P ((registrySystem P).alone (mutate P f) s).2 := by
  rw [alone_mutate_sound hs]
  unfold apply
  rw [hf]
  cases hx : f (view P s) with
  | mk r d =>
    cases d with
    | none => exact ⟨rfl, view_initialised P s, sound_initialised hs⟩
    | some d' =>
      have hd : d'.Allocated := allocated_outcome (view_allocated hs) ((hf _).trans hx)
      refine ⟨rfl, ?_, fun c hc => ?_⟩
      · exact view_some rfl (sound_written P hd)
      · cases hc; exact ⟨_, sound_written P hd⟩

theorem needs_sound (hs : SoundDisk P s) : s.needs = false := by
  unfold Disk.needs
  cases hf : s.file with
  | none => rfl
  | some c =>
    obtain ⟨d, hd⟩ := hs c hf
    obtain ⟨j, rfl, hv, -⟩ := hd.rows
    simp [needsLegacyMigration, hv]

theorem alone_listShared (hs : SoundDisk P s) :
    (registrySystem P).alone (listShared P) s = (.listing (view P s).instances, s) := by
  unfold listShared
  rw [System.alone_bind (registrySystem P), alone_needsMigration, needs_sound hs]
  simp only
  rw [System.alone_bind (registrySystem P), alone_read, readOff_sound hs]
  rfl

theorem seq_listInstances (hs : SoundDisk P s) :
    (registrySystem P).seq .listInstances s = (.listing (view P s).instances, s) := by
  change (registrySystem P).alone (listInstances P) s = _
  unfold listInstances
  rw [alone_pathExists]
  cases hf : s.file with
  | none => simp only [view, hf]; rfl
  | some c => exact alone_listShared hs

/-- an operation run alone keeps the file sound and is `apply` on the parsed file -/
theorem seq_view (hs : SoundDisk P s) (o : Op T) :
    ((registrySystem P).seq o s).1 = (apply o (view P s)).1 ∧
      view P ((registrySystem P).seq o s).2 = (apply o (view P s)).2 ∧ SoundDisk P ((registrySystem P).seq o s).2 := by
  cases o with
  | addAllocating name path backend now =>
    rw [seq_addAllocating]
    cases hb : newBackend path backend with
    | none =>
      have : apply (.addAllocating name path backend now) (view P s) = (.raised .noBackend, view P s) := by
        simp [apply, outcome, hb]
      rw [this]; exact ⟨rfl, rfl, hs⟩
    | some b => exact mutate_view hs fun d => by simp only [outcome, hb]
  | remove name => rw [seq_remove]; exact mutate_view hs fun d => rfl
  | setStealthPaths name sp => rw [seq_setStealthPaths]; exact mutate_view hs fun d => rfl
  | reconcileBackendKind name binder => rw [seq_reconcileBackendKind]; exact mutate_view hs fun d => rfl
  | listInstances => rw [seq_listInstances hs]; exact ⟨rfl, rfl, hs⟩

end Sequential

/-! ## The operations under the lock -/

section Ready

variable {P : Pydantic T}

theorem ready_mutate {o : Op T} {f : RegistryFile T → Res T × Option (RegistryFile T)}
    (ho : ∀ c, (registrySystem P).seq o c = (registrySystem P).alone (mutate P f) c) :
    Ready (S := registrySystem P) (SoundDisk P) Absent o (mutate P f) := by
  intro c hc
  refine ⟨?_, (ho c).symm⟩
  have hinit := sound_initialised hc
  obtain ⟨x, hx⟩ := initialised_file P c
  have hin : Inside (S := registrySystem P) (fun _ => True) (Absent c) (initialise >>= fun _ => update P f) c := by
    refine inside_bind (S := registrySystem P) (inside_initialise fun h => h) ?_
    rw [alone_initialise]
    exact inside_update (fun h => by rw [hx] at h; cases h) (fun y r hy hb => absurd hb (no_backup hinit hy)) f
  exact closes_section (S := registrySystem P) hin

theorem closesRo_listShared {c : Disk} (hc : SoundDisk P c) : ClosesRo (S := registrySystem P) (listShared P) c := by
  have hro := readOnly_exec P
  refine closesRo_bind (S := registrySystem P) hro inside_needsMigration ?_
  rw [alone_needsMigration, needs_sound hc]
  refine closesRo_bind (S := registrySystem P) hro (inside_read_readOnly fun x r hx => no_backup hc hx) ?_
  exact ⟨_, rfl⟩

theorem ready_listInstances : Ready (S := registrySystem P) (SoundDisk P) Absent .listInstances (listInstances P) := by
  refine ⟨fun s => readOnly_exec P .exists s (Or.inl rfl), fun c s hc hobs => ?_⟩
  cases hf : s.file with
  | none =>
    -- no file was seen, so the committed store has none
    refine Or.inl ⟨.listing ∅, ?_, ?_⟩
    · change (if !s.file.isSome then _ else _) = _
      rw [hf]; rfl
    · rw [seq_listInstances hc]; simp only [view, hobs hf]; rfl
  | some x =>
    refine Or.inr ?_
    change Ready (S := registrySystem P) (SoundDisk P) Absent .listInstances (if !s.file.isSome then _ else _)
    rw [hf]
    intro c hc
    exact ⟨closesRo_listShared hc, by rw [seq_listInstances hc]; exact alone_listShared hc⟩

theorem ready_opProg (o : Op T) : Ready (S := registrySystem P) (SoundDisk P) Absent o (opProg P o) := by
  cases o with
  | addAllocating name path backend now =>
    simp only [opProg, addAllocating]
    cases hb : newBackend path backend with
    | none => exact fun c _ => by rw [seq_addAllocating, hb]
    | some b => exact ready_mutate fun c => by rw [seq_addAllocating, hb]
  | remove name => exact ready_mutate fun c => rfl
  | setStealthPaths name sp => exact ready_mutate fun c => rfl
  | reconcileBackendKind name binder => exact ready_mutate fun c => rfl
  | listInstances => exact ready_listInstances

theorem registry_obligations (P : Pydantic T) : Obligations (registrySystem P) (SoundDisk P) Absent where
  ready := ready_opProg
  obs_refl _ h := h
  good o _ hc := (seq_view hc o).2.2

end Ready

/-! ## Linearizability -/

/-- the operations `h`, one after the other, lead from `d` to `e` with the recorded answers -/
def Serial {ι : Type} : RegistryFile T → List (ι × Op T × Res T) → RegistryFile T → Prop
  | d, [], e => d = e
  | d, x :: h, e => (apply x.2.1 d).1 = x.2.2 ∧ Serial (apply x.2.1 d).2 h e

theorem serial_of_replays {P : Pydantic T} {ι : Type} {s c : Disk} {h : List (ι × Op T × Res T)} (hs : SoundDisk P s)
    (hr : Replays (S := registrySystem P) s h c) : Serial (view P s) h (view P c) := by
  induction h generalizing s with
  | nil => cases hr; rfl
  | cons x h ih =>
    obtain ⟨h1, h2, h3⟩ := seq_view hs x.2.1
    refine ⟨h1 ▸ hr.1, ?_⟩
    rw [← h2]
    exact ih h3 hr.2

/-- Any number of processes, each with any finite list of registry operations, in any interleaving, from an absent or sound
file. Whenever nobody holds the exclusive lock the file is absent or sound. The completed operations have a total order `h`
that keeps each process's own order, in which they run one after the other from the initial to the final file with the answers
they returned: as programs run alone on the store, and as `apply` on the parsed file. -/
theorem registry_linearizable (P : Pydantic T) {ι : Type} [DecidableEq ι] (s0 : Disk) (h0 : SoundDisk P s0)
    (prog : ι → List (Op T)) (sched : List ι) :
    let s := run (S := registrySystem P) (init s0 prog) sched
    (s.ex = none → SoundDisk P s.store) ∧
      ∃ (h : List (ι × Op T × Res T)) (c : Disk),
        (∀ i, (h.filter fun e => e.1 = i).map Prod.snd = (s.proc i).done) ∧
        (∀ i, (s.proc i).done.map Prod.fst <+: prog i) ∧
        Replays (S := registrySystem P) s0 h c ∧ Serial (view P s0) h (view P c) ∧ (s.ex = none → s.store = c) := by
  obtain ⟨h, c, hown, horder, hr, hc, hfree⟩ := linearizable (registry_obligations P) h0 prog sched
  exact ⟨fun he => hfree he ▸ hc, h, c, hown, horder, hr, serial_of_replays h0 hr, hfree⟩

/-- two processes that each register an instance and list -/
def creators (i : Bool) : List (Op String) :=
  [.addAllocating (if i then "alpha" else "bravo") (some "/srv") none "2026-01-01T00:00:00+00:00", .listInstances]

/-- the processes take turns -/
def creatorsSchedule : List Bool := (List.replicate 13 [true, false, false]).flatten ++ List.replicate 13 true

def charlieRow : InstanceMeta String := ⟨.redroid "/srv/charlie" ∅, 0, "2026-01-01T00:00:00+00:00"⟩

def charlieOnly : RegistryFile String := ⟨(∅ : Dict String (InstanceMeta String)).set "charlie" charlieRow⟩

/-- the file that was written with one row in it -/
def charlieDisk : Disk := { file := some (.json (registryToJson Pydantic.iso charlieOnly)) }

theorem charlie_sound : SoundDisk Pydantic.iso charlieDisk := by
  intro c hc
  cases hc
  refine ⟨_, sound_written Pydantic.iso ⟨?_, ?_⟩⟩
  · decide
  · decide

/-- both come to their end, from a file with a row -/
theorem registry_linearizable_creators :
    SoundDisk Pydantic.iso charlieDisk ∧
      let s := run (S := registrySystem Pydantic.iso) (init charlieDisk creators) creatorsSchedule
      (∀ i, (s.proc i).done.length = (creators i).length) ∧ (s.ex = none → SoundDisk Pydantic.iso s.store) ∧
        ∃ (h : List (Bool × Op String × Res String)) (c : Disk),
          (∀ i, (h.filter fun e => e.1 = i).map Prod.snd = (s.proc i).done) ∧
          (∀ i, (s.proc i).done.map Prod.fst <+: creators i) ∧
          Replays (S := registrySystem Pydantic.iso) charlieDisk h c ∧
          Serial (view Pydantic.iso charlieDisk) h (view Pydantic.iso c) ∧ (s.ex = none → s.store = c) :=
  ⟨charlie_sound, by decide +kernel,
    registry_linearizable Pydantic.iso charlieDisk charlie_sound creators creatorsSchedule⟩

end Beetroot
