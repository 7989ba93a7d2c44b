/-
When does a registry row get lost?

`_read` promises that a row is never silently dropped: it is kept with its index reserved (its payload validated or kept
verbatim), or the whole file is renamed to `.bak`. The row loop has two `continue`s before `_parse_row`: a row that is not an
object, and a row whose `backend` is missing or not an object, are skipped. Such a row's index is free for the next
`add_allocating`, and the next write erases the row.

Results:
- `never_dropped_iff`: over every version-3 document with an `instances` object, the promise holds of a read, of
  `add_allocating` and of `remove` exactly when every row is an object with a `backend` object, or some such row is
  unsalvageable (and the file is backed up);
- `row_without_backend_lost`: a document on which it fails.
-/
import Beetroot.Registry.Sections

namespace Beetroot

open Lib Lib.RwLock

variable {T : Type}

/-! ## Documents -/

/-- a version-3 document whose `instances` value is an object -/
structure Doc where
  fields : Fields
  rows : Dict String Json
  version : isSchemaVersion (field fields "version") = true
  instances : field fields "instances" = some (.obj rows.entries)

/-- the store whose registry file is the document -/
def Doc.disk (doc : Doc) : Disk := { file := some (.json (.obj doc.fields)) }

def Doc.Shaped (doc : Doc) : Prop := ∀ e ∈ doc.rows.entries, (shape e.2).isSome

def Doc.Unsalvageable (P : Pydantic T) (doc : Doc) : Prop := ∃ e ∈ doc.rows.entries, unsalvageable P e.2 = true

/-- the index a row of any JSON value records -/
def rowIndex (P : Pydantic T) : Json → Option Int
  | .obj fs => recordedIndex P fs
  | _ => none

/-- the names in the registry file -/
def Disk.rowNames (s : Disk) : List String :=
  match s.file with
  | some (.json j) => (rawInstances j).map Prod.fst
  | _ => []

/-! ## The promise -/

/-- the registry has an entry for every row, with the row's index and its payload -/
def Keeps (P : Pydantic T) (doc : Doc) (d : RegistryFile T) : Prop :=
  ∀ e ∈ doc.rows.entries, ∃ m, d.instances.get? e.1 = some m ∧ rowIndex P e.2 = some m.index ∧
    ∀ s, shape e.2 = some s → m.backend = settle s.2

/-- a read returns every row, or renames the file to `.bak` and returns an empty registry -/
def ReadKeeps (P : Pydantic T) (doc : Doc) : Prop :=
  (∃ d, (registrySystem P).alone (read P) doc.disk = (.ok d, doc.disk) ∧ Keeps P doc d) ∨
    (registrySystem P).alone (read P) doc.disk =
      (.ok ∅, { doc.disk with file := none, bak := some (.json (.obj doc.fields)) })

/-- an `add_allocating` or `remove` of `n` -/
def Op.Targets (n : String) : Op T → Prop
  | .addAllocating name _ _ _ => name = n
  | .remove name => name = n
  | _ => False

/-- an operation on `n` keeps every other row in the file and returns no recorded index, unless the file was renamed -/
def WriteKeeps (P : Pydantic T) (doc : Doc) (n : String) (o : Op T) : Prop :=
  ((registrySystem P).seq o doc.disk).2.bak = some (.json (.obj doc.fields)) ∨
    ((∀ k ∈ doc.rows.keys, k ≠ n → k ∈ ((registrySystem P).seq o doc.disk).2.rowNames) ∧
      ∀ i, ((registrySystem P).seq o doc.disk).1 = .index i → ∀ e ∈ doc.rows.entries, rowIndex P e.2 ≠ some i)

def NeverDropped (P : Pydantic T) (doc : Doc) : Prop :=
  ReadKeeps P doc ∧ ∀ n (o : Op T), o.Targets n → WriteKeeps P doc n o

/-! ## What a read of a document gives -/

section Read

variable {P : Pydantic T} {doc : Doc}

theorem doc_readContent (P : Pydantic T) (doc : Doc) :
    readContent P (.json (.obj doc.fields)) = readRows P doc.rows.entries ∅ := by
  simp [readContent, versionOf, rawInstances, doc.version, doc.instances]

theorem filterMap_rowOf_nodup (P : Pydantic T) (rows : Dict String Json) :
    ((rows.entries.filterMap (rowOf P)).map Prod.fst).Nodup := by
  refine rows.nodup.sublist ?_
  generalize rows.entries = l
  induction l with
  | nil => simp
  | cons e l ih =>
    cases h : rowOf P e with
    | none => simpa [h] using ih.cons e.1
    | some x =>
      have hx : x.1 = e.1 := by
        simp only [rowOf, Option.bind_eq_some_iff, Option.map_eq_some_iff] at h
        obtain ⟨s, -, m, -, rfl⟩ := h; rfl
      simpa [h, hx] using ih.cons_cons e.1

/-- the registry read from a document without unsalvageable rows -/
def Doc.data (P : Pydantic T) (doc : Doc) : RegistryFile T :=
  ⟨⟨doc.rows.entries.filterMap (rowOf P), filterMap_rowOf_nodup P doc.rows⟩⟩

theorem doc_read_ok (h : ¬ doc.Unsalvageable P) : readContent P (.json (.obj doc.fields)) = .ok (doc.data P) := by
  have hsal : ∀ e ∈ doc.rows.entries, unsalvageable P e.2 = false := by
    intro e he
    rw [← Bool.not_eq_true]; exact fun hu => h ⟨e, he, hu⟩
  rw [doc_readContent, readRows_ok P _ ∅ hsal]
  exact congrArg _ (RegistryFile.ext (Dict.ofList_entries _ (filterMap_rowOf_nodup P doc.rows)))

theorem doc_readOff_ok (h : ¬ doc.Unsalvageable P) : doc.disk.readOff P = (.ok (doc.data P), doc.disk) := by
  simp only [Disk.readOff, Doc.disk, doc_read_ok h]

theorem doc_readOff_backup (h : doc.Unsalvageable P) :
    doc.disk.readOff P = (.ok ∅, { doc.disk with file := none, bak := some (.json (.obj doc.fields)) }) := by
  obtain ⟨n, hn⟩ := readRows_backup P doc.rows.entries ∅ h
  simp only [Disk.readOff, Doc.disk, doc_readContent, hn]

theorem doc_initialised (P : Pydantic T) (doc : Doc) : doc.disk.initialised P = doc.disk := rfl

/-- the rows of a shaped document without unsalvageable rows all parse -/
theorem keeps_data (hs : doc.Shaped) (h : ¬ doc.Unsalvageable P) : Keeps P doc (doc.data P) := by
  intro e he
  obtain ⟨s, hsh⟩ := Option.isSome_iff_exists.1 (hs e he)
  obtain ⟨fs, raw⟩ := s
  cases hp : parseRow P fs raw with
  | none => exact absurd ⟨e, he, (parseRow_none_iff hsh).1 hp⟩ h
  | some m =>
    obtain ⟨hb, hi⟩ := (parseRow_spec P fs raw).2 m hp
    have hobj : e.2 = .obj fs := by
      revert hsh
      cases e.2 with
      | obj gs =>
        simp only [shape]
        split
        · intro hx; cases hx; rfl
        · intro hx; cases hx
      | _ => intro hx; cases hx
    refine ⟨m, Dict.get?_eq_some.2 (List.mem_filterMap.2 ⟨e, he, ?_⟩), ?_, fun s hs' => ?_⟩
    · simp [rowOf, hsh, hp]
    · rw [hobj]; exact hi
    · rw [hsh] at hs'; cases hs'; exact hb

/-- a skipped row is missing from what was read -/
theorem not_keeps_data {e : String × Json} (he : e ∈ doc.rows.entries) (hs : shape e.2 = none) :
    ¬ Keeps P doc (doc.data P) := by
  intro hk
  obtain ⟨m, hm, -⟩ := hk e he
  obtain ⟨x, hx, hr⟩ := List.mem_filterMap.1 (Dict.get?_eq_some.1 hm)
  have hxe : x = e := by
    have h1 : x.1 = e.1 := by
      simp only [rowOf, Option.bind_eq_some_iff, Option.map_eq_some_iff] at hr
      obtain ⟨s, -, m', -, he'⟩ := hr
      exact (Prod.mk.inj he').1
    obtain ⟨xk, xv⟩ := x
    obtain ⟨ek, ev⟩ := e
    cases h1
    rw [doc.rows.eq_of_mem hx he]
  rw [hxe] at hr
  simp [rowOf, hs] at hr

theorem readKeeps_iff (P : Pydantic T) (doc : Doc) : ReadKeeps P doc ↔ doc.Shaped ∨ doc.Unsalvageable P := by
  unfold ReadKeeps
  rw [alone_read]
  by_cases hu : doc.Unsalvageable P
  · simp [hu, doc_readOff_backup hu]
  · rw [doc_readOff_ok hu]
    constructor
    · rintro (⟨d, hd, hk⟩ | hd)
      · have hd' : doc.data P = d := by simpa using congrArg Prod.fst hd
        subst hd'
        refine Or.inl fun e he => ?_
        by_contra hs
        exact not_keeps_data he (by simpa using hs) hk
      · have := congrArg (fun x => x.2.file) hd
        simp [Doc.disk] at this
    · rintro (hs | hu')
      · exact Or.inl ⟨_, rfl, keeps_data hs hu⟩
      · exact absurd hu' hu

end Read

/-! ## Operations on a document -/

section Write

variable {P : Pydantic T} {doc : Doc}

theorem rowNames_written (P : Pydantic T) (s : Disk) (d : RegistryFile T) :
    (s.written P d).rowNames = d.instances.keys := by
  simp only [Disk.rowNames, Disk.written, rawInstances_registryToJson, Dict.keys, List.map_map]
  exact List.map_congr_left fun e _ => rfl

theorem rowNames_disk (doc : Doc) : doc.disk.rowNames = doc.rows.keys := by
  simp [Disk.rowNames, Doc.disk, rawInstances, doc.instances, Dict.keys]

/-- a mutating operation renames the file of an unsalvageable document -/
theorem bak_of_unsalvageable (hu : doc.Unsalvageable P) (f : RegistryFile T → Res T × Option (RegistryFile T)) :
    ((registrySystem P).alone (mutate P f) doc.disk).2.bak = some (.json (.obj doc.fields)) := by
  rw [alone_mutate, alone_update, doc_initialised, doc_readOff_backup hu]
  simp only
  rcases f ∅ with ⟨r, _ | d'⟩ <;> rfl

theorem keys_of_keeps {d : RegistryFile T} (hk : Keeps P doc d) {k : String} (h : k ∈ doc.rows.keys) :
    k ∈ d.instances.keys := by
  obtain ⟨v, hv⟩ := Dict.mem_keys.1 h
  obtain ⟨m, hm, -⟩ := hk _ hv
  exact Dict.get?_isSome.1 (by rw [hm]; rfl)

/-- a call that raises before it takes the lock changes nothing -/
theorem writeKeeps_noBackend (n : String) {path : Option String} {backend : Option BackendConfig} (now : T)
    (hb : newBackend path backend = none) : WriteKeeps P doc n (.addAllocating n path backend now) := by
  unfold WriteKeeps
  rw [seq_addAllocating, hb]
  exact Or.inr ⟨fun k h _ => by simpa [rowNames_disk] using h, fun i h => by simp at h⟩

theorem writeKeeps_add (hk : Keeps P doc (doc.data P)) (hu : ¬ doc.Unsalvageable P) (n : String)
    {path : Option String} {backend : Option BackendConfig} {b : BackendConfig} (now : T)
    (hb : newBackend path backend = some b) : WriteKeeps P doc n (.addAllocating n path backend now) := by
  refine Or.inr ?_
  simp only [seq_addAllocating, hb]
  rw [alone_mutate, alone_update, doc_initialised, doc_readOff_ok hu]
  simp only [addDecide]
  cases ha : allocate (doc.data P) n b now with
  | error e => exact ⟨fun k h _ => by simpa [rowNames_disk] using h, fun i h => by simp at h⟩
  | ok x =>
    obtain ⟨i, d'⟩ := x
    obtain ⟨-, hi, -, rfl⟩ := allocate_ok ha
    refine ⟨fun k h _ => ?_, fun j hj e he hr => ?_⟩
    · rw [rowNames_written]
      exact Dict.mem_keys_set.2 (Or.inr (keys_of_keeps hk h))
    · -- the index is not one of those in use, and every recorded index is in use
      have hij : i = j := by simpa using hj
      obtain ⟨m, hm, hidx, -⟩ := hk e he
      rw [hidx] at hr
      apply (lowestFreeIndex_spec (doc.data P).usedIndices).1
      rw [← hi, hij, ← Option.some.inj hr]
      exact List.mem_map.2 ⟨m, List.mem_map.2 ⟨_, Dict.get?_eq_some.1 hm, rfl⟩, rfl⟩

theorem writeKeeps_remove (hk : Keeps P doc (doc.data P)) (hu : ¬ doc.Unsalvageable P) (n : String) :
    WriteKeeps P doc n (.remove n : Op T) := by
  refine Or.inr ?_
  rw [seq_remove, alone_mutate, alone_update, doc_initialised, doc_readOff_ok hu]
  refine ⟨fun k h hne => ?_, fun i hi => by simp [removeDecide] at hi⟩
  simp only [removeDecide]
  rw [rowNames_written]
  exact Dict.mem_keys_erase.2 ⟨keys_of_keeps hk h, hne⟩

theorem writeKeeps {n : String} {o : Op T} (ho : o.Targets n) (h : doc.Shaped ∨ doc.Unsalvageable P) :
    WriteKeeps P doc n o := by
  cases o with
  | addAllocating name path backend now =>
    cases ho
    cases hb : newBackend path backend with
    | none => exact writeKeeps_noBackend _ now hb
    | some b =>
      by_cases hu : doc.Unsalvageable P
      · refine Or.inl ?_
        simp only [seq_addAllocating, hb]
        exact bak_of_unsalvageable hu _
      · exact writeKeeps_add (keeps_data (h.resolve_right hu) hu) hu _ now hb
  | remove name =>
    cases ho
    by_cases hu : doc.Unsalvageable P
    · refine Or.inl ?_
      rw [seq_remove]
      exact bak_of_unsalvageable hu _
    · exact writeKeeps_remove (keeps_data (h.resolve_right hu) hu) hu _
  | _ => exact ho.elim

end Write

/-- The promise that no row is silently dropped holds exactly of the documents whose rows are all objects with a
`backend` object, and of those with such a row that is unsalvageable. -/
theorem never_dropped_iff (P : Pydantic T) (doc : Doc) :
    NeverDropped P doc ↔ doc.Shaped ∨ doc.Unsalvageable P :=
  ⟨fun h => (readKeeps_iff P doc).1 h.1, fun h => ⟨(readKeeps_iff P doc).2 h, fun _ _ ho => writeKeeps ho h⟩⟩

/-- a document with one row that has an index and a timestamp but no `backend` -/
def lostRow : Doc where
  fields := [("version", .int 3), ("instances", .obj [("alpha", .obj [("index", .int 0),
    ("created_at", .str "2026-01-01T00:00:00+00:00")])])]
  rows := Dict.ofList [("alpha", .obj [("index", .int 0), ("created_at", .str "2026-01-01T00:00:00+00:00")])]
  version := rfl
  instances := rfl

/-- `add_allocating` hands out the recorded index 0 again and the row of `alpha` is gone; nothing is backed up -/
theorem row_without_backend_lost :
    ¬ NeverDropped Pydantic.iso lostRow ∧
      ∃ s, (registrySystem Pydantic.iso).seq
          (.addAllocating "bravo" (some "/srv/bravo") none "2026-01-02T00:00:00+00:00") lostRow.disk = (.index 0, s) ∧
        s.rowNames = ["bravo"] ∧ s.bak.isNone := by
  refine ⟨fun h => ?_, _, rfl, rfl, rfl⟩
  rcases (readKeeps_iff Pydantic.iso lostRow).1 h.1 with hs | ⟨e, he, hu⟩
  · exact absurd (hs _ List.mem_cons_self) (by decide)
  · cases he with
    | head => exact absurd hu (by decide)
    | tail _ he => cases he

end Beetroot
