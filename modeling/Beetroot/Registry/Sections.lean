/-
The registry's programs, part by part: what each part answers and leaves when run alone, and what it performs and passes
through inside a section of the lock.

Results:
- `alone_locked`, `alone_read`, `alone_write`, `alone_update`: one equation per part;
- `inside_update`: the body of a mutating operation takes no lock, and the file is absent in the middle of it only if it was
  absent before;
- `inside_read_readOnly`: a read that takes no backup only looks;
- `seq_addAllocating` and the like: the operations run alone.
-/
import Beetroot.Registry.Store

namespace Beetroot

open Lib Lib.RwLock

variable {T : Type}

section Programs

variable (P : Pydantic T)

/-! ## The programs run alone -/

section Actions

variable {α : Type} (s : Disk)

@[simp] theorem alone_acquire (m : Mode) (f : Unit → Reg α) :
    (registrySystem P).alone ((acquire m : Reg Unit) >>= f) s = (registrySystem P).alone (f ()) s := rfl

@[simp] theorem alone_pathExists (f : Bool → Reg α) :
    (registrySystem P).alone (pathExists >>= f) s = (registrySystem P).alone (f s.file.isSome) s := rfl

@[simp] theorem alone_readText (f : Option Content → Reg α) :
    (registrySystem P).alone (readText >>= f) s = (registrySystem P).alone (f s.file) s := rfl

@[simp] theorem alone_rename (f : Unit → Reg α) :
    (registrySystem P).alone (rename >>= f) s = (registrySystem P).alone (f ()) (Disk.exec P .rename s).2 := by
  change (registrySystem P).alone (f (Disk.exec P .rename s).1) _ = _; rfl

end Actions

/-- an absent file is initialised -/
def Disk.initialised (s : Disk) : Disk :=
  match s.file with
  | some _ => s
  | none => { s with file := some (.json (registryToJson P (∅ : RegistryFile T))) }

/-- the store after `_write` -/
def Disk.written (s : Disk) (d : RegistryFile T) : Disk :=
  { s with file := some (.json (registryToJson P d)), tmp := s.tmp.filter fun e => e.1 ≠ s.fresh, fresh := s.fresh + 1 }

/-- the answer of `_read` and the store after it -/
def Disk.readOff (s : Disk) : Except RegError (RegistryFile T) × Disk :=
  match s.file with
  | none => (.ok ∅, s)
  | some c =>
    match readContent P c with
    | .ok d => (.ok d, s)
    | .backup _ => (.ok ∅, { s with file := none, bak := some c })
    | .raises => (.error .unicodeDecode, s)

theorem alone_initialise (s : Disk) : (registrySystem P).alone initialise s = ((), s.initialised P) := by
  unfold Disk.initialised initialise
  cases hf : s.file with
  | some c => simp only [alone_pathExists, hf]; rfl
  | none => simp only [alone_pathExists, hf]; rfl

theorem alone_locked {α : Type} (body : Reg α) (s : Disk) :
    (registrySystem P).alone (locked body) s = (registrySystem P).alone body (s.initialised P) := by
  have hbody : (registrySystem P).alone (initialise >>= fun _ => body) s =
      (registrySystem P).alone body (s.initialised P) := by
    rw [System.alone_bind (registrySystem P), alone_initialise]
  unfold locked
  rw [alone_acquire, System.alone_bind (registrySystem P), hbody]
  rfl

theorem alone_read (s : Disk) : (registrySystem P).alone (read P) s = s.readOff P := by
  unfold Disk.readOff read
  cases hf : s.file with
  | none => simp only [alone_pathExists, hf]; rfl
  | some c =>
    simp only [alone_pathExists, alone_readText, hf, Option.isSome_some, Bool.not_true, Bool.false_eq_true, if_false]
    cases hc : readContent P c with
    | ok d => rfl
    | backup r => simp only [alone_rename, Disk.exec, hf]; rfl
    | raises => rfl

theorem alone_write (d : RegistryFile T) (s : Disk) :
    (registrySystem P).alone (write P d) s = ((), s.written P d) := by
  change ((), (Disk.exec P (.replace s.fresh) (Disk.exec P (.writeTmp (registryToJson P d)) s).2).2) = _
  simp [Disk.exec, Disk.written]

/-- what `_needs_legacy_migration` answers -/
def Disk.needs (s : Disk) : Bool :=
  match s.file with
  | some c => needsLegacyMigration c
  | none => false

theorem alone_needsMigration (s : Disk) : (registrySystem P).alone needsMigration s = (.ok s.needs, s) := by
  unfold needsMigration Disk.needs
  cases hf : s.file with
  | none => simp only [alone_pathExists, hf]; rfl
  | some c =>
    simp only [alone_pathExists, alone_readText, hf, Option.isSome_some, Bool.not_true, Bool.false_eq_true, if_false]
    rfl

/-- the body of a mutating operation run alone -/
theorem alone_update (decide : RegistryFile T → Res T × Option (RegistryFile T)) (s : Disk) :
    (registrySystem P).alone (update P decide) s =
      match s.readOff P with
      | (.error e, t) => (.raised e, t)
      | (.ok d, t) =>
        match decide d with
        | (r, some d') => (r, t.written P d')
        | (r, none) => (r, t) := by
  unfold update
  rw [System.alone_bind (registrySystem P), alone_read]
  generalize s.readOff P = x
  obtain ⟨_ | d, t⟩ := x
  · rfl
  · simp only
    rcases decide d with ⟨r, _ | d'⟩
    · rfl
    · simp only
      rw [System.alone_bind (registrySystem P), alone_write]
      rfl

theorem alone_mutate (decide : RegistryFile T → Res T × Option (RegistryFile T)) (s : Disk) :
    (registrySystem P).alone (mutate P decide) s = (registrySystem P).alone (update P decide) (s.initialised P) :=
  alone_locked P _ s

/-! ### What the parts of a section perform

`Absent c t`: while an exclusive section is in progress, a lock-free check may find no file only if the committed store has
none. -/

/-- what an absent file seen by a lock-free check says about the committed store -/
def Absent (c t : Disk) : Prop := t.file = none → c.file = none

/-- the actions that only look -/
def ReadOnly (a : Action) : Prop := a = .exists ∨ a = .readText

theorem readOnly_exec (a : Action) (s : Disk) (h : ReadOnly a) : (Disk.exec P a s).2 = s := by
  rcases h with rfl | rfl <;> rfl

section Parts

variable {P} {α : Type} {ok : Action → Prop} {Q : Disk → Prop} {c s : Disk}

theorem inside_pathExists {f : Bool → Reg α} : Inside (S := registrySystem P) ok Q (pathExists >>= f) s ↔
    ok .exists ∧ Q s ∧ Inside (S := registrySystem P) ok Q (f s.file.isSome) s := Iff.rfl

theorem inside_readText {f : Option Content → Reg α} : Inside (S := registrySystem P) ok Q (readText >>= f) s ↔
    ok .readText ∧ Q s ∧ Inside (S := registrySystem P) ok Q (f s.file) s := Iff.rfl

theorem inside_initialise (h : Absent c s) :
    Inside (S := registrySystem P) (fun _ => True) (Absent c) initialise s := by
  unfold initialise
  rw [inside_pathExists]
  refine ⟨trivial, h, ?_⟩
  cases hf : s.file with
  | some x => exact h
  | none => exact ⟨trivial, h, trivial, fun e => by simp [Disk.exec] at e, fun e => by simp [Disk.exec] at e⟩

theorem inside_read (h : Absent c s) (hb : ∀ x r, s.file = some x → readContent P x = .backup r → c.file = none) :
    Inside (S := registrySystem P) (fun _ => True) (Absent c) (read P) s := by
  unfold read
  rw [inside_pathExists]
  refine ⟨trivial, h, ?_⟩
  cases hf : s.file with
  | none => exact h
  | some x =>
    simp only [Option.isSome_some, Bool.not_true, Bool.false_eq_true, if_false]
    rw [inside_readText, hf]
    refine ⟨trivial, h, ?_⟩
    cases hc : readContent P x with
    | ok d => simp only [hc]; exact h
    | backup r =>
      simp only [hc]
      exact ⟨trivial, h, fun _ => hb x r hf hc⟩
    | raises => simp only [hc]; exact h

/-- a read that takes no backup only looks -/
theorem inside_read_readOnly (hb : ∀ x r, s.file = some x → readContent P x ≠ .backup r) :
    Inside (S := registrySystem P) ReadOnly (fun _ => True) (read P) s := by
  unfold read
  rw [inside_pathExists]
  refine ⟨Or.inl rfl, trivial, ?_⟩
  cases hf : s.file with
  | none => trivial
  | some x =>
    simp only [Option.isSome_some, Bool.not_true, Bool.false_eq_true, if_false]
    rw [inside_readText, hf]
    refine ⟨Or.inr rfl, trivial, ?_⟩
    cases hc : readContent P x with
    | ok d => simp only [hc]; trivial
    | backup r => exact absurd hc (hb x r hf)
    | raises => simp only [hc]; trivial

theorem inside_needsMigration :
    Inside (S := registrySystem P) ReadOnly (fun _ => True) needsMigration s := by
  unfold needsMigration
  rw [inside_pathExists]
  refine ⟨Or.inl rfl, trivial, ?_⟩
  cases hf : s.file with
  | none => trivial
  | some x =>
    simp only [Option.isSome_some, Bool.not_true, Bool.false_eq_true, if_false]
    rw [inside_readText, hf]
    exact ⟨Or.inr rfl, trivial, trivial⟩

theorem inside_write (h : Absent c s) (d : RegistryFile T) :
    Inside (S := registrySystem P) (fun _ => True) (Absent c) (write P d) s := by
  refine ⟨trivial, h, trivial, h, fun e => ?_⟩
  have hfile : ((registrySystem P).alone (write P d) s).2.file = none := e
  rw [alone_write] at hfile
  simp [Disk.written] at hfile

theorem inside_update (h : Absent c s) (hb : ∀ x r, s.file = some x → readContent P x = .backup r → c.file = none)
    (decide : RegistryFile T → Res T × Option (RegistryFile T)) :
    Inside (S := registrySystem P) (fun _ => True) (Absent c) (update P decide) s := by
  have hr := inside_read h hb
  unfold update
  refine inside_bind (S := registrySystem P) hr ?_
  have hend := inside_end (S := registrySystem P) hr
  generalize (registrySystem P).alone (read P) s = x at hend
  obtain ⟨_ | d, t⟩ := x
  · exact hend
  · simp only
    rcases decide d with ⟨r, _ | d'⟩
    · exact hend
    · have hw := inside_write (P := P) hend d'
      exact inside_bind (S := registrySystem P) hw (inside_end (S := registrySystem P) hw)

end Parts

/-! ### The operations run alone -/

theorem seq_addAllocating (name : String) (path : Option String) (backend : Option BackendConfig) (now : T) (s : Disk) :
    (registrySystem P).seq (.addAllocating name path backend now) s =
      match newBackend path backend with
      | none => (.raised .noBackend, s)
      | some b => (registrySystem P).alone (mutate P (addDecide name b now)) s := by
  change (registrySystem P).alone (addAllocating P name path backend now) s = _
  unfold addAllocating
  cases newBackend path backend <;> rfl

theorem seq_remove (name : String) (s : Disk) :
    (registrySystem P).seq (.remove name) s = (registrySystem P).alone (mutate P (removeDecide name)) s := rfl

theorem seq_setStealthPaths (name : String) (sp : Dict String String) (s : Disk) :
    (registrySystem P).seq (.setStealthPaths name sp) s =
      (registrySystem P).alone (mutate P (stealthDecide name sp)) s := rfl

theorem seq_reconcileBackendKind (name : String) (binder : Binder) (s : Disk) :
    (registrySystem P).seq (.reconcileBackendKind name binder) s =
      (registrySystem P).alone (mutate P (reconcileDecide name binder)) s := rfl

end Programs

end Beetroot
