/-
The registry file and its operations (`registry.py`): reading, the legacy backup, writing, and the five operations that
other modules call, as programs over file actions and the lock on `<path>.lock`.

A content of `instances.json` is bytes that are not UTF-8, a text that `json.loads` rejects, or a JSON value. `_read`
decodes the text outside its `try`, so undecodable bytes raise; `_needs_legacy_migration` decodes it inside, so for it
they are malformed. The first initialisation (`path.write_text`) creates an empty file and then writes it; `_write` writes a
temporary file of a fresh name and replaces the registry file by it in one step. The clock is read inside the section;
its value is an argument of the operation.

Left out: the stderr hints (`_backup_and_warn`'s note, the v0.2 hint), `mkdir` of the parent, and `fsync`.

Results:
- `readRows_eq`: what the row loop computes, without the loop;
- `readContent_dump`: a written registry file is read back, with every row's payload settled.
-/
import Beetroot.Config
import Beetroot.Lib.RwLock
import Beetroot.Registry.Schema

namespace Beetroot

open Lib Lib.RwLock

variable {T : Type}

/-! ## Reading a content -/

/-- a content of the registry file -/
inductive Content where
  /-- bytes that are not UTF-8 -/
  | undecodable
  /-- a text that `json.loads` rejects -/
  | malformed
  | json (j : Json)

/-- `version == 3`: an integer, or a float of that value -/
def isSchemaVersion : Option Json → Bool
  | some (.int n) => n = 3
  | some (.float v) => v = 3
  | _ => false

/-- `raw.get("version") if isinstance(raw, dict) else None` -/
def versionOf : Json → Option Json
  | .obj fs => field fs "version"
  | _ => none

/-- `raw.get("instances", {})`, an empty dict when it is not one -/
def rawInstances : Json → Fields
  | .obj fs => match field fs "instances" with
    | some (.obj rows) => rows
    | _ => []
  | _ => []

inductive Reason where
  | notJson
  | wrongVersion (version : Option Json)
  | unsalvageableRow (name : String)

/-- what `_read` does with a content -/
inductive ReadResult (T : Type) where
  | ok (data : RegistryFile T)
  /-- rename the file to `.bak` and return an empty registry -/
  | backup (reason : Reason)
  /-- `UnicodeDecodeError` -/
  | raises

/-- the row and its payload, when both are objects -/
def shape : Json → Option (Fields × Fields)
  | .obj fs => match field fs "backend" with
    | some (.obj raw) => some (fs, raw)
    | _ => none
  | _ => none

/-- the row loop; `acc` is `instances` so far -/
def readRows (P : Pydantic T) : Fields → Dict String (InstanceMeta T) → ReadResult T
  | [], acc => .ok ⟨acc⟩
  | (name, row) :: rows, acc =>
    match shape row with
    -- not an object, or no `backend` object: `continue`
    | none => readRows P rows acc
    | some (fs, raw) =>
      match parseRow P fs raw with
      | some m => readRows P rows (acc.set name m)
      | none => .backup (.unsalvageableRow name)

/-- `_read` on an existing file -/
def readContent (P : Pydantic T) : Content → ReadResult T
  | .undecodable => .raises
  | .malformed => .backup .notJson
  | .json j =>
    if isSchemaVersion (versionOf j) then readRows P (rawInstances j) ∅
    else .backup (.wrongVersion (versionOf j))

/-- `_needs_legacy_migration` on an existing file -/
def needsLegacyMigration : Content → Bool
  | .undecodable => true
  | .malformed => true
  | .json j => !isSchemaVersion (versionOf j)

/-! ### The row loop -/

/-- a row that parses, under its name -/
def rowOf (P : Pydantic T) (e : String × Json) : Option (String × InstanceMeta T) :=
  (shape e.2).bind fun s => (parseRow P s.1 s.2).map fun m => (e.1, m)

/-- a row with a payload object, but no usable index or timestamp -/
def unsalvageable (P : Pydantic T) (row : Json) : Bool :=
  match shape row with
  | none => false
  | some (fs, _) => !metaUsable P fs

theorem parseRow_none_iff {P : Pydantic T} {row : Json} {fs raw : Fields} (h : shape row = some (fs, raw)) :
    parseRow P fs raw = none ↔ unsalvageable P row = true := by
  rw [(parseRow_spec P fs raw).1]; simp [unsalvageable, h]

/-- the loop keeps the rows that parse, in order, unless some row is unsalvageable -/
theorem readRows_ok (P : Pydantic T) (rows : Fields) (acc : Dict String (InstanceMeta T))
    (h : ∀ e ∈ rows, unsalvageable P e.2 = false) :
    readRows P rows acc = .ok ⟨(rows.filterMap (rowOf P)).foldl (fun d e => d.set e.1 e.2) acc⟩ := by
  induction rows generalizing acc with
  | nil => rfl
  | cons e rows ih =>
    have htail := fun acc => ih acc fun x hx => h x (List.mem_cons_of_mem _ hx)
    have he := h e List.mem_cons_self
    obtain ⟨name, row⟩ := e
    simp only [readRows]
    cases hs : shape row with
    | none => simpa [rowOf, hs] using htail acc
    | some s =>
      obtain ⟨fs, raw⟩ := s
      cases hp : parseRow P fs raw with
      | none => rw [parseRow_none_iff hs, he] at hp; simp at hp
      | some m => simpa [rowOf, hs, hp] using htail (acc.set name m)

theorem readRows_backup (P : Pydantic T) (rows : Fields) (acc : Dict String (InstanceMeta T))
    (h : ∃ e ∈ rows, unsalvageable P e.2 = true) : ∃ name, readRows P rows acc = .backup (.unsalvageableRow name) := by
  induction rows generalizing acc with
  | nil => simp at h
  | cons e rows ih =>
    obtain ⟨name, row⟩ := e
    cases hs : shape row with
    | none =>
      simp only [readRows, hs]
      refine ih acc ?_
      simpa [unsalvageable, hs] using h
    | some s =>
      obtain ⟨fs, raw⟩ := s
      cases hp : parseRow P fs raw with
      | none => exact ⟨name, by simp only [readRows, hs, hp]⟩
      | some m =>
        have hrow : unsalvageable P row = false := by
          rw [← Bool.not_eq_true, ← parseRow_none_iff hs, hp]; simp
        simp only [readRows, hs, hp]
        refine ih _ ?_
        simpa [hrow] using h

/-- what the row loop computes -/
theorem readRows_eq (P : Pydantic T) (rows : Fields) (acc : Dict String (InstanceMeta T)) :
    ((∀ e ∈ rows, unsalvageable P e.2 = false) ∧
      readRows P rows acc = .ok ⟨(rows.filterMap (rowOf P)).foldl (fun d e => d.set e.1 e.2) acc⟩) ∨
    ((∃ e ∈ rows, unsalvageable P e.2 = true) ∧
      ∃ name, readRows P rows acc = .backup (.unsalvageableRow name)) := by
  by_cases h : ∃ e ∈ rows, unsalvageable P e.2 = true
  · exact Or.inr ⟨h, readRows_backup P rows acc h⟩
  · have h' : ∀ e ∈ rows, unsalvageable P e.2 = false := by
      intro e he
      rw [← Bool.not_eq_true]; exact fun hu => h ⟨e, he, hu⟩
    exact Or.inl ⟨h', readRows_ok P rows acc h'⟩

/-! ### Reading what was written -/

@[simp] theorem versionOf_registryToJson (P : Pydantic T) (d : RegistryFile T) :
    isSchemaVersion (versionOf (registryToJson P d)) = true := by
  simp [registryToJson, versionOf, field_cons, isSchemaVersion]

@[simp] theorem rawInstances_registryToJson (P : Pydantic T) (d : RegistryFile T) :
    rawInstances (registryToJson P d) = d.instances.entries.map fun e => (e.1, .obj (dumpMeta P e.2)) := by
  simp [registryToJson, rawInstances, field_cons]

@[simp] theorem shape_dumpMeta (P : Pydantic T) (m : InstanceMeta T) :
    shape (.obj (dumpMeta P m)) = some (dumpMeta P m, dumpBackendConfig m.backend) := by
  simp [shape, dumpMeta, field_cons]

theorem parseRow_dump (P : Pydantic T) (m : InstanceMeta T) :
    parseRow P (dumpMeta P m) (dumpBackendConfig m.backend) =
      some { m with backend := settle (dumpBackendConfig m.backend) } := by
  rw [parseRow_eq, validateMeta_dump]

theorem unsalvageable_dump (P : Pydantic T) (m : InstanceMeta T) : unsalvageable P (.obj (dumpMeta P m)) = false := by
  rw [← Bool.not_eq_true, ← parseRow_none_iff (shape_dumpMeta P m), parseRow_dump]; simp

/-- the registry file that a read of the written text gives: every row's payload is settled again -/
def resettle (d : RegistryFile T) : RegistryFile T :=
  ⟨d.instances.mapVals fun m => { m with backend := settle (dumpBackendConfig m.backend) }⟩

theorem readContent_dump (P : Pydantic T) (d : RegistryFile T) :
    readContent P (.json (registryToJson P d)) = .ok (resettle d) := by
  have hsal : ∀ e ∈ d.instances.entries.map (fun e => (e.1, Json.obj (dumpMeta P e.2))),
      unsalvageable P e.2 = false := by
    intro e he
    obtain ⟨x, -, rfl⟩ := List.mem_map.1 he
    exact unsalvageable_dump P x.2
  have hrows : (d.instances.entries.map fun e => (e.1, Json.obj (dumpMeta P e.2))).filterMap (rowOf P) =
      (resettle d).instances.entries := by
    rw [List.filterMap_map]
    simp only [resettle, Dict.entries_mapVals, ← List.filterMap_eq_map]
    refine List.filterMap_congr fun e _ => ?_
    simp [rowOf, parseRow_dump]
  simp only [readContent, versionOf_registryToJson, if_true, rawInstances_registryToJson]
  rw [readRows_ok P _ ∅ hsal, hrows]
  exact congrArg _ (congrArg _ (Dict.ofList_self (resettle d).instances))

/-! ## The operations on the data -/

inductive RegError where
  /-- `add_allocating` without a path and without a backend -/
  | noBackend
  | alreadyRegistered (name : String)
  /-- the allocated index is over the cap -/
  | port (e : PortError)
  | unknownInstance (name : String)
  | notRedroid (name kind : String)
  | fileNotFound
  | unicodeDecode
deriving DecidableEq

/-- the backend of a new row: the given one, else the redroid shorthand of the path -/
def newBackend (absolutePath : Option String) (backend : Option BackendConfig) : Option BackendConfig :=
  match backend, absolutePath with
  | some b, _ => some b
  | none, some p => some (.redroid p ∅)
  | none, none => none

/-- the body of `add_allocating`: the index and the registry to write -/
def allocate (d : RegistryFile T) (name : String) (backend : BackendConfig) (now : T) :
    Except RegError (Int × RegistryFile T) :=
  if name ∈ d.instances.keys then .error (.alreadyRegistered name)
  else
    match checkIndex (lowestFreeIndex d.usedIndices) with
    | .error e => .error (.port e)
    | .ok () =>
      .ok (lowestFreeIndex d.usedIndices, ⟨d.instances.set name ⟨backend, lowestFreeIndex d.usedIndices, now⟩⟩)

/-- the body of `set_stealth_paths` -/
def stealth (d : RegistryFile T) (name : String) (stealthPaths : Dict String String) :
    Except RegError (RegistryFile T) :=
  match d.instances.get? name with
  | none => .error (.unknownInstance name)
  | some m =>
    match m.backend with
    | .redroid p _ => .ok ⟨d.instances.set name { m with backend := .redroid p stealthPaths }⟩
    | b => .error (.notRedroid name b.kind)

/-- the body of `reconcile_backend_kind`: the registry to write, if the kind changes -/
def reconcile (d : RegistryFile T) (name : String) (binder : Binder) : Option (RegistryFile T) :=
  match d.instances.get? name with
  | none => none
  | some m =>
    match m.backend with
    | .redroid p _ => if binder = .vm then some ⟨d.instances.set name { m with backend := .vm p }⟩ else none
    | .vm p => if binder = .vm then none else some ⟨d.instances.set name { m with backend := .redroid p ∅ }⟩
    | _ => none

/-! ## The store and its actions -/

/-- the registry file, its backup, and the temporary files by name -/
structure Disk where
  file : Option Content
  bak : Option Content := none
  tmp : List (ℕ × Json) := []
  fresh : ℕ := 0

inductive Action where
  | exists
  | readText
  /-- the two steps of `path.write_text(RegistryFile().model_dump_json())` on an absent file -/
  | createEmpty
  | writeInit
  | writeTmp (payload : Json)
  | replace (tmp : ℕ)
  | rename

def Action.Answer : Action → Type
  | .exists => Bool
  | .readText => Option Content
  | .writeTmp _ => ℕ
  | _ => Unit

def Disk.exec (P : Pydantic T) : (a : Action) → Disk → a.Answer × Disk
  | .exists, s => (s.file.isSome, s)
  | .readText, s => (s.file, s)
  | .createEmpty, s => ((), { s with file := some .malformed })
  | .writeInit, s => ((), { s with file := some (.json (registryToJson P (∅ : RegistryFile T))) })
  | .writeTmp payload, s => (s.fresh, { s with tmp := (s.fresh, payload) :: s.tmp, fresh := s.fresh + 1 })
  | .replace n, s =>
    match s.tmp.find? fun e => e.1 = n with
    | some (_, payload) =>
      ((), { s with file := some (.json payload), tmp := s.tmp.filter fun e => e.1 ≠ n })
    | none => ((), s)
  | .rename, s =>
    match s.file with
    | some c => ((), { s with file := none, bak := some c })
    | none => ((), s)

/-! ## The operations as programs -/

inductive Op (T : Type) where
  | addAllocating (name : String) (absolutePath : Option String) (backend : Option BackendConfig) (now : T)
  | remove (name : String)
  | setStealthPaths (name : String) (stealthPaths : Dict String String)
  | reconcileBackendKind (name : String) (binder : Binder)
  | listInstances

inductive Res (T : Type) where
  | index (i : Int)
  | unit
  | changed (b : Bool)
  | listing (instances : Dict String (InstanceMeta T))
  | raised (e : RegError)

abbrev Reg (α : Type) := LProg Action Action.Answer α

def pathExists : Reg Bool := base Action.exists

def readText : Reg (Option Content) := base Action.readText

def createEmpty : Reg Unit := base Action.createEmpty

def writeInit : Reg Unit := base Action.writeInit

def writeTmp (payload : Json) : Reg ℕ := base (Action.writeTmp payload)

def replace (tmp : ℕ) : Reg Unit := base (Action.replace tmp)

def rename : Reg Unit := base Action.rename

section Programs

variable (P : Pydantic T)

/-- first-time initialisation under the exclusive lock -/
def initialise : Reg Unit := do
  if !(← pathExists) then
    createEmpty
    writeInit

/-- `_locked(path)` -/
def locked {α : Type} (body : Reg α) : Reg α := do
  acquire .ex
  let r ← initialise >>= fun _ => body
  release
  return r

/-- `_read`; the rename of `_backup_and_warn` tolerates that the file is gone -/
def read : Reg (Except RegError (RegistryFile T)) := do
  if !(← pathExists) then return .ok ∅
  match ← readText with
  | none => return .error .fileNotFound
  | some c =>
    match readContent P c with
    | .ok d => return .ok d
    | .backup _ =>
      rename
      return .ok ∅
    | .raises => return .error .unicodeDecode

def write (d : RegistryFile T) : Reg Unit := do
  let n ← writeTmp (registryToJson P d)
  replace n

/-- `_needs_legacy_migration` -/
def needsMigration : Reg (Except RegError Bool) := do
  if !(← pathExists) then return .ok false
  match ← readText with
  | none => return .error .fileNotFound
  | some c => return .ok (needsLegacyMigration c)

/-- the common body of the mutating operations: read, decide, and write if there is something to write -/
def update (decide : RegistryFile T → Res T × Option (RegistryFile T)) : Reg (Res T) := do
  match ← read P with
  | .error e => return .raised e
  | .ok d =>
    match decide d with
    | (r, some d') =>
      write P d'
      return r
    | (r, none) => return r

def mutate (decide : RegistryFile T → Res T × Option (RegistryFile T)) : Reg (Res T) := locked (update P decide)

/-- what a mutating operation answers and writes, on the data it read -/
def addDecide (name : String) (backend : BackendConfig) (now : T) (d : RegistryFile T) :
    Res T × Option (RegistryFile T) :=
  match allocate d name backend now with
  | .ok (i, d') => (.index i, some d')
  | .error e => (.raised e, none)

def removeDecide (name : String) (d : RegistryFile T) : Res T × Option (RegistryFile T) :=
  (.unit, some ⟨d.instances.erase name⟩)

def stealthDecide (name : String) (stealthPaths : Dict String String) (d : RegistryFile T) :
    Res T × Option (RegistryFile T) :=
  match stealth d name stealthPaths with
  | .ok d' => (.unit, some d')
  | .error e => (.raised e, none)

def reconcileDecide (name : String) (binder : Binder) (d : RegistryFile T) : Res T × Option (RegistryFile T) :=
  match reconcile d name binder with
  | some d' => (.changed true, some d')
  | none => (.changed false, none)

/-- what an operation answers on the data it read, and the data it writes, if any -/
def outcome : Op T → RegistryFile T → Res T × Option (RegistryFile T)
  | .addAllocating name path backend now, d =>
    match newBackend path backend with
    | none => (.raised .noBackend, none)
    | some b => addDecide name b now d
  | .remove name, d => removeDecide name d
  | .setStealthPaths name sp, d => stealthDecide name sp d
  | .reconcileBackendKind name binder, d => reconcileDecide name binder d
  | .listInstances, d => (.listing d.instances, none)

theorem allocate_ok {d d' : RegistryFile T} {name : String} {b : BackendConfig} {now : T} {i : Int}
    (h : allocate d name b now = .ok (i, d')) :
    name ∉ d.instances.keys ∧ i = lowestFreeIndex d.usedIndices ∧ checkIndex i = .ok () ∧
      d' = ⟨d.instances.set name ⟨b, i, now⟩⟩ := by
  unfold allocate at h
  split_ifs at h with hn
  cases hc : checkIndex (lowestFreeIndex d.usedIndices) with
  | error e => rw [hc] at h; cases h
  | ok u => rw [hc] at h; cases h; exact ⟨hn, rfl, hc, rfl⟩

theorem stealth_ok {d d' : RegistryFile T} {name : String} {sp : Dict String String}
    (h : stealth d name sp = .ok d') : ∃ m b, d.instances.get? name = some m ∧ b.Typed ∧
      b.absolutePath = m.backend.absolutePath ∧ d' = ⟨d.instances.set name { m with backend := b }⟩ := by
  unfold stealth at h
  cases hg : d.instances.get? name with
  | none => rw [hg] at h; cases h
  | some m =>
    rw [hg] at h
    simp only at h
    cases hb : m.backend with
    | redroid p sp' => rw [hb] at h; cases h; exact ⟨m, .redroid p sp, rfl, trivial, by rw [hb]; rfl, rfl⟩
    | adb s => rw [hb] at h; cases h
    | vm p => rw [hb] at h; cases h
    | unresolved raw => rw [hb] at h; cases h

theorem reconcile_some {d d' : RegistryFile T} {name : String} {binder : Binder}
    (h : reconcile d name binder = some d') : ∃ m b, d.instances.get? name = some m ∧ b.Typed ∧
      b.absolutePath = m.backend.absolutePath ∧ d' = ⟨d.instances.set name { m with backend := b }⟩ := by
  unfold reconcile at h
  cases hg : d.instances.get? name with
  | none => rw [hg] at h; cases h
  | some m =>
    rw [hg] at h
    simp only at h
    cases hb : m.backend with
    | redroid p sp =>
      rw [hb] at h; simp only at h
      split_ifs at h
      cases h; exact ⟨m, .vm p, rfl, trivial, by rw [hb]; rfl, rfl⟩
    | vm p =>
      rw [hb] at h; simp only at h
      split_ifs at h
      cases h; exact ⟨m, .redroid p ∅, rfl, trivial, by rw [hb]; rfl, rfl⟩
    | adb s => rw [hb] at h; cases h
    | unresolved raw => rw [hb] at h; cases h

/-- everything an operation can write: a new row at the lowest free index, one row less, or one row with another typed
backend of the same directory -/
theorem outcome_cases {d d' : RegistryFile T} {r : Res T} {o : Op T} (h : outcome o d = (r, some d')) :
    (∃ name path backend now b i, o = .addAllocating name path backend now ∧ newBackend path backend = some b ∧
      name ∉ d.instances.keys ∧ i = lowestFreeIndex d.usedIndices ∧ checkIndex i = .ok () ∧ r = .index i ∧
      d' = ⟨d.instances.set name ⟨b, i, now⟩⟩) ∨
    (∃ name, o = .remove name ∧ r = .unit ∧ d' = ⟨d.instances.erase name⟩) ∨
    (∃ name m b, d.instances.get? name = some m ∧ b.Typed ∧ b.absolutePath = m.backend.absolutePath ∧
      d' = ⟨d.instances.set name { m with backend := b }⟩) := by
  cases o with
  | addAllocating name path backend now =>
    simp only [outcome] at h
    cases hb : newBackend path backend with
    | none => rw [hb] at h; simp at h
    | some b =>
      rw [hb] at h
      simp only [addDecide] at h
      cases ha : allocate d name b now with
      | error e => rw [ha] at h; simp at h
      | ok x =>
        rw [ha] at h
        simp only [Prod.mk.injEq, Option.some.injEq] at h
        obtain ⟨rfl, rfl⟩ := h
        obtain ⟨h1, h2, h3, h4⟩ := allocate_ok ha
        exact Or.inl ⟨name, path, backend, now, b, _, rfl, hb, h1, h2, h3, rfl, h4⟩
  | remove name => cases h; exact Or.inr (Or.inl ⟨name, rfl, rfl, rfl⟩)
  | setStealthPaths name sp =>
    simp only [outcome, stealthDecide] at h
    cases hs : stealth d name sp with
    | error e => rw [hs] at h; simp at h
    | ok x =>
      rw [hs] at h
      cases h
      obtain ⟨m, b, h⟩ := stealth_ok hs
      exact Or.inr (Or.inr ⟨name, m, b, h⟩)
  | reconcileBackendKind name binder =>
    simp only [outcome, reconcileDecide] at h
    cases hr : reconcile d name binder with
    | none => rw [hr] at h; simp at h
    | some x =>
      rw [hr] at h
      cases h
      obtain ⟨m, b, h⟩ := reconcile_some hr
      exact Or.inr (Or.inr ⟨name, m, b, h⟩)
  | listInstances => simp [outcome] at h

def addAllocating (name : String) (absolutePath : Option String) (backend : Option BackendConfig) (now : T) :
    Reg (Res T) :=
  match newBackend absolutePath backend with
  | none => return .raised .noBackend
  | some b => mutate P (addDecide name b now)

def remove (name : String) : Reg (Res T) := mutate P (removeDecide name)

def setStealthPaths (name : String) (stealthPaths : Dict String String) : Reg (Res T) :=
  mutate P (stealthDecide name stealthPaths)

def reconcileBackendKind (name : String) (binder : Binder) : Reg (Res T) := mutate P (reconcileDecide name binder)

def answerListing : Except RegError (RegistryFile T) → Res T
  | .ok d => .listing d.instances
  | .error e => .raised e

/-- `list_instances` from the shared lock on: the fast path, or the escalation to the exclusive lock -/
def listShared : Reg (Res T) := do
  match ← needsMigration with
  | .error e =>
    release
    return .raised e
  | .ok false =>
    let r ← read P
    release
    return answerListing r
  | .ok true =>
    release
    locked do
      let r ← read P
      return answerListing r

def listInstances : Reg (Res T) := do
  -- without a file the lock is not touched
  if !(← pathExists) then return .listing ∅
  acquire .sh
  listShared P

def opProg : Op T → Reg (Res T)
  | .addAllocating name path backend now => addAllocating P name path backend now
  | .remove name => remove P name
  | .setStealthPaths name sp => setStealthPaths P name sp
  | .reconcileBackendKind name binder => reconcileBackendKind P name binder
  | .listInstances => listInstances P

/-- the registry as a store shared under the lock -/
@[reducible]
def registrySystem : System where
  Store := Disk
  A := Action
  R := Action.Answer
  exec := Disk.exec P
  Op := Op T
  Res := Res T
  prog := opProg P

end Programs

end Beetroot
