/-
What does `snapshot` put into an archive?

The instance directory is part of a file tree of regular files and directories. `snapshot` makes the parent directories of the
destination, takes the lock (which makes `.beetroot.lock`), opens the destination, and then packs: the manifest first, and the
directory walked in the order of the names, without the excluded names at its top level and without the destination at any
depth. An archive is its list of members (tar and zstd are taken to be mutually inverse); the member name `./a/b` is the path
of `a` and `b`.

Results:
- `readManifest_pack`: the manifest that is written is the one that is read back;
- `snapshot_exact`: the members are the manifest and, each once, the entries of the directory and the parent directories of the
  destination that `snapshot` has made there, without the excluded names and the destination;
- `packed_new_parent`: a parent directory that was not in the instance directory and is in the archive.
-/
import Beetroot.Instance.Site
import Beetroot.Lib.Walk

namespace Beetroot.Snapshot

open Lib Lib.Fs Instance

variable {T B : Type}

/-! ## The manifest -/

def manifestFilename : String := ".beetroot-snapshot.json"

/-- `schema_version` is always 1 and `kind` always `redroid` -/
structure Manifest where
  name : String
  sourceIndex : Int
  createdAt : String
  beetrootVersion : String
  pathLayout : Dict String String := ∅
  lifecycle : Lifecycle := .durable
deriving DecidableEq

def lifecycleText : Lifecycle → String
  | .ephemeral => "ephemeral"
  | .durable => "durable"

/-- the entries of a dictionary in the order of the keys -/
def sortedEntries (d : Dict String String) : List (String × String) := d.entries.insertionSort fun a b => a.1 ≤ b.1

/-- the value that `_manifest_to_json` dumps; `sort_keys` sorts the layout too -/
def manifestToJson (m : Manifest) : Json :=
  .obj [("beetroot_version", .str m.beetrootVersion), ("created_at", .str m.createdAt), ("kind", .str "redroid"),
    ("lifecycle", .str (lifecycleText m.lifecycle)), ("name", .str m.name),
    ("path_layout", .obj ((sortedEntries m.pathLayout).map fun e => (e.1, .str e.2))),
    ("schema_version", .int 1), ("source_index", .int m.sourceIndex)]

def lifecycleOf : Option Json → Option Lifecycle
  | none => some .durable
  | some (.str s) => if s = "ephemeral" then some .ephemeral else if s = "durable" then some .durable else none
  | some _ => none

def strOf : Option Json → Option String
  | some (.str s) => some s
  | _ => none

/-- `Literal[1]`, defaulted -/
def isSchemaOne : Option Json → Bool
  | none | some (.int 1) => true
  | _ => false

/-- `Literal["redroid"]`, defaulted -/
def isRedroid : Option Json → Bool
  | none => true
  | some (.str s) => s = "redroid"
  | some _ => false

/-- `Manifest.model_validate_json`, after the parse -/
def validateManifest (P : Pydantic T) : Json → Option Manifest
  | .obj fs =>
    if onlyKeys ["schema_version", "name", "source_index", "created_at", "beetroot_version", "kind", "path_layout",
        "lifecycle"] fs && isSchemaOne (field fs "schema_version") && isRedroid (field fs "kind") then do
      let name ← strOf (field fs "name")
      let sourceIndex ← (field fs "source_index").bind P.laxInt
      let createdAt ← strOf (field fs "created_at")
      let beetrootVersion ← strOf (field fs "beetroot_version")
      let pathLayout ← strDict (field fs "path_layout")
      let lifecycle ← lifecycleOf (field fs "lifecycle")
      return ⟨name, sourceIndex, createdAt, beetrootVersion, pathLayout, lifecycle⟩
    else none
  | _ => none

/-- `_manifest_to_json`, and the parse of a JSON text: `none` for bytes that are not UTF-8 or not JSON -/
structure JsonCodec (B : Type) where
  dumps : Manifest → B
  loads : B → Option Json
  loads_dumps : ∀ m, loads (dumps m) = some (manifestToJson m)

/-! ## Archives -/

/-- a member of an archive; its name is relative to the archive root -/
inductive Item (B : Type) where
  | file (name : Path) (body : B)
  | dir (name : Path)
  /-- a link or another odd member: what its extraction puts below the target (a first name, the rest of the path and the
  entry), and whether it raises -/
  | other (name : Path) (puts : List (String × Path × Node B)) (raises : Bool)
  /-- the stream breaks off -/
  | broken

abbrev Archive (B : Type) := List (Item B)

def Item.ofEntry (e : Path × Node B) : Item B :=
  match e.2 with
  | .file b => .file e.1 b
  | .dir => .dir e.1

/-- `_extract_manifest_bytes`: the first member with the manifest's name -/
def extractManifestBytes : Archive B → Except Fail B
  | [] => .error (.snapshot "archive is missing its .beetroot-snapshot.json manifest")
  | .broken :: _ => .error (.snapshot "archive contains a malformed tar stream")
  | .file name body :: rest => if name = [manifestFilename] then .ok body else extractManifestBytes rest
  | .dir name :: rest | .other name _ _ :: rest =>
    if name = [manifestFilename] then .error (.snapshot "manifest member is not a regular file")
    else extractManifestBytes rest

def readManifest (J : JsonCodec B) (P : Pydantic T) (archive : Archive B) : Except Fail Manifest :=
  match extractManifestBytes archive with
  | .error e => .error e
  | .ok raw =>
    match (J.loads raw).bind (validateManifest P) with
    | some m => .ok m
    | none => .error (.snapshot "manifest validation failed")

section Manifest

/-- the same manifest; dictionaries are compared by their lookups, as Python compares them -/
structure Manifest.Same (m m' : Manifest) : Prop where
  name : m'.name = m.name
  sourceIndex : m'.sourceIndex = m.sourceIndex
  createdAt : m'.createdAt = m.createdAt
  beetrootVersion : m'.beetrootVersion = m.beetrootVersion
  pathLayout : ∀ key, m'.pathLayout.get? key = m.pathLayout.get? key
  lifecycle : m'.lifecycle = m.lifecycle

theorem strDict_sorted (d : Dict String String) :
    ∃ d', strDict (some (.obj ((sortedEntries d).map fun e => (e.1, .str e.2)))) = some d' ∧
      ∀ key, d'.get? key = d.get? key := by
  have hperm : (sortedEntries d).Perm d.entries := List.perm_insertionSort _ _
  have hnodup : ((sortedEntries d).map Prod.fst).Nodup := (hperm.map Prod.fst).nodup_iff.2 d.nodup
  refine ⟨Dict.ofList (sortedEntries d), by simp [strDict, strEntries_map], fun key => ?_⟩
  have hmem : ∀ v, (Dict.ofList (sortedEntries d)).get? key = some v ↔ d.get? key = some v := by
    intro v
    rw [Dict.get?_eq_some, Dict.get?_eq_some, Dict.ofList_entries _ hnodup, hperm.mem_iff]
  exact Option.ext hmem

theorem lifecycleOf_text (l : Lifecycle) : lifecycleOf (some (.str (lifecycleText l))) = some l := by
  cases l <;> rfl

/-- a dumped manifest validates as itself -/
theorem validateManifest_toJson (P : Pydantic T) (m : Manifest) :
    ∃ m', validateManifest P (manifestToJson m) = some m' ∧ m.Same m' := by
  obtain ⟨d, hd, hget⟩ := strDict_sorted m.pathLayout
  refine ⟨{ m with pathLayout := d }, ?_, ⟨rfl, rfl, rfl, rfl, hget, rfl⟩⟩
  simp [validateManifest, manifestToJson, onlyKeys, field_cons, isSchemaOne, isRedroid, strOf, P.laxInt_int, hd,
    lifecycleOf_text]

end Manifest

/-! ## `snapshot` -/

def archiveSuffix : String := ".tar.zst"

/-- `_ensure_suffix`, on the file name -/
def ensureSuffix (name : String) : String := if name.endsWith archiveSuffix then name else name ++ archiveSuffix

def lockFilename : String := ".beetroot.lock"

/-- `_EXCLUDED_TOP_LEVEL` -/
def excludedTopLevel : List String := [".env", "compose.override.yaml", manifestFilename, lockFilename]

def unsupportedBackendMessage (verb name kind : String) : String :=
  verb ++ " is only supported for the redroid backend; instance '" ++ name ++ "' uses the " ++ kind ++ " backend — " ++ kind ++
    " " ++ verb ++ " is not yet supported (see issue #128)."

/-- `_find_registry_entry` -/
def findRegistryEntry (p : Paths) (root : Path) :
    List (String × InstanceMeta T) → Except Fail (String × InstanceMeta T × Dict String String)
  | [] => .error (.snapshot ("instance at " ++ p.str root ++ " is not registered; run `beetroot register <path>` first"))
  | (name, m) :: rows =>
    match m.backend with
    | .redroid path sp => if p.resolve path = root then .ok (name, m, sp) else findRegistryEntry p root rows
    | .vm path =>
      if p.resolve path = root then .error (.snapshot (unsupportedBackendMessage "snapshot" name "vm"))
      else findRegistryEntry p root rows
    | _ => findRegistryEntry p root rows

/-- `_read_lifecycle` -/
def readLifecycle (k : Codec B) (fs : FileTree B) (root : Path) : Lifecycle :=
  match (readFile fs (instanceYaml root)).map k.loadYaml with
  | some (.valid cfg) => cfg.lifecycle
  | _ => .durable

/-- the directory and the file name that were asked for -/
structure Dest where
  parent : Path
  name : String

def Dest.final (d : Dest) : Path := d.parent ++ [ensureSuffix d.name]

/-- `_add_instance_tree`; the paths are made relative to the directory -/
def instanceTree (fs : FileTree B) (root dest : Path) : List (Path × Node B) :=
  (((listdir fs root).filter fun x => x ∉ excludedTopLevel && root ++ [x] ≠ dest).flatMap fun x =>
    walk (fun q => q = dest) fs (depth fs) (root ++ [x])).map fun e => (e.1.drop root.length, e.2)

/-- `snapshot`: the archive that is written; `stamp` and `version` are the time and the release of the manifest -/
def snapshot (p : Paths) (k : Codec B) (J : JsonCodec B) (s : Site T B) (root : Path) (dest : Dest) (stamp version : String) :
    Except Fail (Archive B) :=
  if !isFile s.fs (instanceYaml root) then
    .error (.snapshot ("no beetroot.yaml at " ++ p.str (instanceYaml root) ++ "; not a Beetroot instance directory"))
  else
    match findRegistryEntry p root s.reg.instances.entries with
    | .error e => .error e
    | .ok (name, m, stealthPaths) =>
      if dest.name = "" then .error (.snapshot "the destination has an empty name")
      else if fileInWay s.fs dest.parent then .error (.notADirectory dest.parent)
      else
        let fs := mkdirs s.fs dest.parent
        let manifest : Manifest := ⟨name, m.index, stamp, version, stealthPaths, readLifecycle k s.fs root⟩
        -- `instance_lock` opens the lock file for appending
        if isDir fs (root ++ [lockFilename]) then .error (.isADirectory (root ++ [lockFilename]))
        else
          let fs := if isFile fs (root ++ [lockFilename]) then fs else writeFile fs (root ++ [lockFilename]) k.empty
          if isDir fs dest.final then .error (.isADirectory dest.final)
          else
            let fs := writeFile fs dest.final k.empty
            .ok (.file [manifestFilename] (J.dumps manifest) ::
              (instanceTree fs root dest.final).map Item.ofEntry)

/-! ## What is packed -/

/-- a path relative to the directory that belongs into the archive: of the tree or of the new parent directories, under a name
that is not excluded at the top level, and not the destination -/
def Packed (fs : FileTree B) (root : Path) (dest : Dest) (rel : Path) : Prop :=
  ∃ x r, rel = x :: r ∧ x ∉ excludedTopLevel ∧ root ++ rel ≠ dest.final ∧
    (present fs (root ++ rel) = true ∨ root ++ rel <+: dest.parent)

section Exact

variable {fs : FileTree B} {root dest : Path}

theorem mem_instanceTree (hs : Leafy fs) (hdest : isFile fs dest = true) {e : Path × Node B} :
    e ∈ instanceTree fs root dest ↔ (∃ x r, e.1 = x :: r ∧ x ∉ excludedTopLevel) ∧ root ++ e.1 ≠ dest ∧
      present fs (root ++ e.1) = true ∧ e.2 = nodeAt fs (root ++ e.1) := by
  -- only the destination itself is skipped: nothing is below it
  have hskip : ∀ q r, q <+: r → present fs r = true → r ≠ dest → q ≠ dest := by
    intro q r hqr hr hne hq
    subst hq
    exact hne (hs _ _ hdest hqr hr)
  unfold instanceTree
  simp only [List.mem_map, List.mem_flatMap, List.mem_filter, mem_listdir, Bool.and_eq_true, decide_eq_true_eq]
  constructor
  · rintro ⟨e', ⟨x, ⟨hx, hex, hne⟩, he'⟩, rfl⟩
    obtain ⟨r, -, rfl, hp, hr⟩ := (mem_walk hs hx).1 he'
    have hdrop : (root ++ [x] ++ r).drop root.length = x :: r := by simp
    have heq : root ++ (x :: r) = root ++ [x] ++ r := by simp
    rw [hdrop, heq]
    refine ⟨⟨x, r, rfl, hex⟩, ?_, hp, rfl⟩
    simpa using hr r (List.prefix_refl r)
  · rintro ⟨⟨x, r, hrel, hex⟩, hne, hp, hnode⟩
    obtain ⟨rel, n⟩ := e
    simp only at hrel hne hp hnode
    subst hrel hnode
    have heq : root ++ (x :: r) = root ++ [x] ++ r := by simp
    rw [heq] at hne hp
    have hpre : root ++ [x] <+: root ++ [x] ++ r := List.prefix_append _ _
    have hx := present_of_below hpre hp
    refine ⟨(root ++ [x] ++ r, nodeAt fs (root ++ [x] ++ r)), ⟨x, ⟨hx, hex, hskip _ _ hpre hp hne⟩, ?_⟩, ?_⟩
    · refine (mem_walk hs hx).2 ⟨r, ?_, rfl, hp, fun r' hr' => ?_⟩
      · have hlen := length_le_depth hp
        simp only [List.length_append, List.length_singleton] at hlen
        omega
      · have hpre' : root ++ [x] ++ r' <+: root ++ [x] ++ r := (List.prefix_append_right_inj _).2 hr'
        simpa using hskip _ _ hpre' hp hne
    · simp

theorem nodup_instanceTree (fs : FileTree B) (root dest : Path) : ((instanceTree fs root dest).map Prod.fst).Nodup := by
  have hnodup := nodup_flatMap_walk (fun q => decide (q = dest)) fs
    ((nodup_listdir fs root).filter fun x => decide (x ∉ excludedTopLevel) && decide (root ++ [x] ≠ dest))
    fun x _ => nodup_walk (fun q => decide (q = dest)) fs (depth fs) (root ++ [x])
  have hmap : (instanceTree fs root dest).map Prod.fst =
      ((((listdir fs root).filter fun x => x ∉ excludedTopLevel && root ++ [x] ≠ dest).flatMap fun x =>
        walk (fun q => q = dest) fs (depth fs) (root ++ [x])).map Prod.fst).map (List.drop root.length) := by
    unfold instanceTree
    rw [List.map_map, List.map_map]
    rfl
  rw [hmap]
  refine hnodup.map_on fun a ha b hb hab => ?_
  -- every path is below the directory
  have hbelow : ∀ q ∈ ((((listdir fs root).filter fun x => x ∉ excludedTopLevel && root ++ [x] ≠ dest).flatMap fun x =>
      walk (fun q => q = dest) fs (depth fs) (root ++ [x])).map Prod.fst), root <+: q := by
    intro q hq
    obtain ⟨e, he, rfl⟩ := List.mem_map.1 hq
    obtain ⟨x, -, hx⟩ := List.mem_flatMap.1 he
    exact (List.prefix_append root [x]).trans (prefix_of_mem_walk hx)
  obtain ⟨a', rfl⟩ := hbelow a ha
  obtain ⟨b', rfl⟩ := hbelow b hb
  rw [List.drop_left, List.drop_left] at hab
  rw [hab]

end Exact

section Snapshot

variable {p : Paths} {k : Codec B} {J : JsonCodec B} {s : Site T B} {root : Path} {dest : Dest} {stamp version : String}
  {archive : Archive B}

/-- the tree that is walked: with the parent directories, the lock file and the destination -/
def walked (k : Codec B) (fs : FileTree B) (root : Path) (dest : Dest) : FileTree B :=
  let fs := mkdirs fs dest.parent
  let fs := if isFile fs (root ++ [lockFilename]) then fs else writeFile fs (root ++ [lockFilename]) k.empty
  writeFile fs dest.final k.empty

/-- everything a `snapshot` that returns has checked and packed -/
theorem snapshot_ok (h : snapshot p k J s root dest stamp version = .ok archive) :
    ∃ name m sp, isFile s.fs (instanceYaml root) = true ∧
      findRegistryEntry p root s.reg.instances.entries = .ok (name, m, sp) ∧ fileInWay s.fs dest.parent = false ∧
      isDir (mkdirs s.fs dest.parent) (root ++ [lockFilename]) = false ∧
      isDir (if isFile (mkdirs s.fs dest.parent) (root ++ [lockFilename]) then mkdirs s.fs dest.parent
        else writeFile (mkdirs s.fs dest.parent) (root ++ [lockFilename]) k.empty) dest.final = false ∧
      archive = .file [manifestFilename] (J.dumps ⟨name, m.index, stamp, version, sp, readLifecycle k s.fs root⟩) ::
        (instanceTree (walked k s.fs root dest) root dest.final).map Item.ofEntry := by
  unfold snapshot at h
  split at h
  · cases h
  · rename_i hyaml
    split at h
    · cases h
    · rename_i name m sp hentry
      simp only at h
      split_ifs at h with h1 h2 h3 h4 h5 h6
      all_goals
        cases h
        refine ⟨name, m, sp, by simpa using hyaml, hentry, by simpa using h2, by simpa using h3, ?_, ?_⟩
        · simp_all
        · simp_all [walked]

section Walked

variable {fs : FileTree B}

theorem nodeAt_mkdirs (fs : FileTree B) (d q : Path) : nodeAt (mkdirs fs d) q = nodeAt fs q := by
  unfold nodeAt
  rw [get?_mkdirs]
  split_ifs with h
  · rw [get?_of_not_present h.2 (List.prefix_refl q)]
    rfl
  · rfl

theorem nodeAt_write {q w : Path} (b : B) (h : q ≠ w) : nodeAt (writeFile fs w b) q = nodeAt fs q := by
  unfold nodeAt
  rw [get?_write, if_neg h]

theorem walked_leafy (hs : Leafy fs) (hyaml : isFile fs (instanceYaml root) = true)
    (hway : fileInWay fs dest.parent = false) (hlock : isDir (mkdirs fs dest.parent) (root ++ [lockFilename]) = false)
    (hdest : isDir (if isFile (mkdirs fs dest.parent) (root ++ [lockFilename]) then mkdirs fs dest.parent
        else writeFile (mkdirs fs dest.parent) (root ++ [lockFilename]) k.empty) dest.final = false) :
    Leafy (walked k fs root dest) := by
  have hs₁ := hs.mkdirs hway
  have hway₁ : fileInWay (mkdirs fs dest.parent) dest.parent = false := by
    unfold fileInWay at hway ⊢
    simpa only [isFile_mkdirs] using hway
  have hroot : fileInWay (mkdirs fs dest.parent) root = false := by
    obtain ⟨b, hb⟩ := Option.isSome_iff_exists.1 hyaml
    have hy : present fs (instanceYaml root) = true := present_of_get? (readFile_eq_some.1 hb)
    refine hs₁.way (List.prefix_append root ["beetroot.yaml"]) (by simp) ?_
    exact present_mkdirs_iff.2 (Or.inl hy)
  unfold walked
  simp only
  by_cases hf : isFile (mkdirs fs dest.parent) (root ++ [lockFilename]) = true
  · rw [if_pos hf] at hdest ⊢
    exact hs₁.write k.empty hway₁ hdest
  · rw [if_neg hf] at hdest ⊢
    refine (hs₁.write k.empty hroot hlock).write k.empty ?_ hdest
    -- the lock file is not on the way to the destination: it would be a directory
    unfold fileInWay
    rw [List.any_eq_false]
    intro q hq hfile
    have hqd := (List.mem_inits _ _).1 hq
    rcases (isFile_write _ _ q k.empty).1 hfile with rfl | hfile
    · have hp : present (mkdirs fs dest.parent) (root ++ [lockFilename]) = true := present_mkdirs_iff.2 (Or.inr hqd)
      simp [isDir, hp, hf] at hlock
    · exact not_fileInWay hway₁ hqd hfile

theorem walked_dest (k : Codec B) (fs : FileTree B) (root : Path) (dest : Dest) :
    isFile (walked k fs root dest) dest.final = true := (isFile_write _ _ _ _).2 (Or.inl rfl)

/-- under a name that is not the lock file's, and not at the destination: the tree and the new parent directories -/
theorem walked_present {x : String} {r : Path} (hx : x ≠ lockFilename) (hne : root ++ x :: r ≠ dest.final) :
    present (walked k fs root dest) (root ++ x :: r) = true ↔
      present fs (root ++ x :: r) = true ∨ root ++ x :: r <+: dest.parent := by
  have hnotlock : ¬ root ++ x :: r <+: root ++ [lockFilename] := by
    rw [List.prefix_append_right_inj, List.cons_prefix_cons]
    exact fun h => hx h.1
  have hnotdest : root ++ x :: r <+: dest.final ↔ root ++ x :: r <+: dest.parent := by
    unfold Dest.final at hne ⊢
    rw [List.prefix_concat_iff]
    exact ⟨fun h => h.resolve_left hne, Or.inr⟩
  unfold walked
  simp only
  rw [present_write, hnotdest]
  split_ifs
  · rw [present_mkdirs_iff]
    tauto
  · rw [present_write, present_mkdirs_iff]
    tauto

theorem walked_node {x : String} {r : Path} (hx : x ≠ lockFilename) (hne : root ++ x :: r ≠ dest.final) :
    nodeAt (walked k fs root dest) (root ++ x :: r) = nodeAt fs (root ++ x :: r) := by
  have hlock : root ++ x :: r ≠ root ++ [lockFilename] := by
    intro h
    have := List.append_cancel_left h
    simp only [List.cons.injEq] at this
    exact hx this.1
  unfold walked
  simp only
  rw [nodeAt_write k.empty hne]
  split_ifs
  · exact nodeAt_mkdirs fs _ _
  · rw [nodeAt_write k.empty hlock]
    exact nodeAt_mkdirs fs _ _

end Walked

theorem mem_packed (hwalked : Leafy (walked k s.fs root dest)) {e : Path × Node B} :
    e ∈ instanceTree (walked k s.fs root dest) root dest.final ↔
      Packed s.fs root dest e.1 ∧ e.2 = nodeAt s.fs (root ++ e.1) := by
  rw [mem_instanceTree hwalked (walked_dest k s.fs root dest)]
  have hlock : ∀ x, x ∉ excludedTopLevel → x ≠ lockFilename := by
    intro x hx h
    subst h
    simp [excludedTopLevel] at hx
  constructor
  · rintro ⟨⟨x, r, hrel, hex⟩, hne, hp, hnode⟩
    rw [hrel] at hne hp hnode ⊢
    rw [walked_node (hlock x hex) hne] at hnode
    exact ⟨⟨x, r, rfl, hex, hne, (walked_present (hlock x hex) hne).1 hp⟩, hnode⟩
  · rintro ⟨⟨x, r, hrel, hex, hne, hp⟩, hnode⟩
    rw [hrel] at hne hp hnode ⊢
    refine ⟨⟨x, r, rfl, hex⟩, hne, (walked_present (hlock x hex) hne).2 hp, ?_⟩
    rw [walked_node (hlock x hex) hne]
    exact hnode

/-- the manifest that is read back is the one that was written, whatever follows it -/
theorem readManifest_pack (J : JsonCodec B) (P : Pydantic T) (m : Manifest) (rest : Archive B) :
    ∃ m', readManifest J P (.file [manifestFilename] (J.dumps m) :: rest) = .ok m' ∧ m.Same m' := by
  obtain ⟨m', hm', hsame⟩ := validateManifest_toJson P m
  refine ⟨m', ?_, hsame⟩
  simp only [readManifest, extractManifestBytes, if_true, J.loads_dumps, Option.bind_some, hm']

end Snapshot

/-- For every tree of files and directories, every instance directory in it and every destination: the archive that `snapshot`
writes has the manifest as its first member and then, each once, precisely the entries of the directory and the parent
directories of the destination made in it, without the excluded names at the top level and without the destination; and the
manifest read from it is the one built from the row and the `beetroot.yaml`. -/
theorem snapshot_exact (p : Paths) (k : Codec B) (J : JsonCodec B) (P : Pydantic T) (s : Site T B) (root : Path) (dest : Dest)
    (stamp version : String) (archive : Archive B) (hs : Leafy s.fs)
    (h : snapshot p k J s root dest stamp version = .ok archive) :
    ∃ (name : String) (m : InstanceMeta T) (sp : Dict String String) (entries : List (Path × Node B)) (manifest : Manifest)
      (bytes : B), findRegistryEntry p root s.reg.instances.entries = .ok (name, m, sp) ∧
      archive = .file [manifestFilename] bytes :: entries.map Item.ofEntry ∧ (entries.map Prod.fst).Nodup ∧
      (∀ e, e ∈ entries ↔ Packed s.fs root dest e.1 ∧ e.2 = nodeAt s.fs (root ++ e.1)) ∧
      readManifest J P archive = .ok manifest ∧
      Manifest.Same ⟨name, m.index, stamp, version, sp, readLifecycle k s.fs root⟩ manifest := by
  obtain ⟨name, m, sp, hyaml, hentry, hway, hlock, hdest, rfl⟩ := snapshot_ok h
  obtain ⟨manifest, hread, hsame⟩ := readManifest_pack J P ⟨name, m.index, stamp, version, sp, readLifecycle k s.fs root⟩
    ((instanceTree (walked k s.fs root dest) root dest.final).map Item.ofEntry)
  exact ⟨name, m, sp, _, manifest, _, hentry, rfl, nodup_instanceTree _ _ _,
    fun e => mem_packed (walked_leafy hs hyaml hway hlock hdest), hread, hsame⟩

/-- texts, and manifests as themselves -/
abbrev Bytes := String ⊕ Manifest

def Bytes.codec : Codec Bytes where
  loadYaml
    | .inl b => Codec.sample.loadYaml b
    | .inr _ => .invalid
  dumpYaml cfg := .inl (Codec.sample.dumpYaml cfg)
  minimalYaml l := .inl (Codec.sample.minimalYaml l)
  renderEnv name cfg sp := .inl (Codec.sample.renderEnv name cfg sp)
  renderOverride ports := .inl (Codec.sample.renderOverride ports)
  empty := .inl ""

def Bytes.json : JsonCodec Bytes where
  dumps m := .inr m
  loads
    | .inl _ => none
    | .inr m => some (manifestToJson m)
  loads_dumps _ := rfl

/-- `alpha` at `/srv/x`, with a file below `data` that has an excluded name, and an old manifest -/
def alphaSite : Site String Bytes where
  reg := ⟨(∅ : Dict String (InstanceMeta String)).set "alpha" ⟨.redroid "/srv/x" ∅, 0, "then"⟩⟩
  fs := writeFile (writeFile (writeFile ∅ ["srv", "x", "beetroot.yaml"] (.inl "minimal")) ["srv", "x", "data", ".env"] (.inl "mine"))
    ["srv", "x", manifestFilename] (.inl "stale")

/-- an archive at the top level of the directory -/
def topLevel : Dest := ⟨["srv", "x"], "alpha"⟩

def topLevelArchive : Archive Bytes :=
  [.file [manifestFilename] (.inr ⟨"alpha", 0, "now", "1", ∅, .durable⟩), .file ["beetroot.yaml"] (.inl "minimal"), .dir ["data"],
    .file ["data", ".env"] (.inl "mine")]

theorem snapshot_exact_alpha :
    ∃ (name : String) (m : InstanceMeta String) (sp : Dict String String) (entries : List (Path × Node Bytes))
      (manifest : Manifest) (bytes : Bytes),
      findRegistryEntry Paths.sample ["srv", "x"] alphaSite.reg.instances.entries = .ok (name, m, sp) ∧
      topLevelArchive = .file [manifestFilename] bytes :: entries.map Item.ofEntry ∧ (entries.map Prod.fst).Nodup ∧
      (∀ e, e ∈ entries ↔ Packed alphaSite.fs ["srv", "x"] topLevel e.1 ∧ e.2 = nodeAt alphaSite.fs (["srv", "x"] ++ e.1)) ∧
      readManifest Bytes.json Pydantic.iso topLevelArchive = .ok manifest ∧
      Manifest.Same ⟨name, m.index, "now", "1", sp, readLifecycle Bytes.codec alphaSite.fs ["srv", "x"]⟩ manifest :=
  snapshot_exact Paths.sample Bytes.codec Bytes.json Pydantic.iso alphaSite ["srv", "x"] topLevel "now" "1" topLevelArchive
    (by decide) rfl

/-- an archive in a subdirectory that is not there yet -/
def newParent : Dest := ⟨["srv", "x", "backups"], "alpha.tar.zst"⟩

theorem packed_new_parent :
    Leafy alphaSite.fs ∧ ∃ rest : Archive Bytes, snapshot Paths.sample Bytes.codec Bytes.json alphaSite ["srv", "x"] newParent "now" "1" =
        .ok (.file [manifestFilename] (.inr ⟨"alpha", 0, "now", "1", ∅, .durable⟩) :: .dir ["backups"] :: rest) ∧
      present alphaSite.fs (["srv", "x"] ++ ["backups"]) = false :=
  ⟨by decide, _, rfl, by decide⟩

end Beetroot.Snapshot
