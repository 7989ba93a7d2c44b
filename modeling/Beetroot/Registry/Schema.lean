/-
The registry schema (`registry.py`): backend configs, rows, the file, and how each is validated and dumped.

A JSON text is represented by the value `json.loads` returns for it (objects keep their order and have distinct keys);
`json.dumps` and `json.loads` are taken to be mutually inverse. Two validations are pydantic's own and enter as the
parameter `Pydantic`: lax `int` and lax `datetime`, with the two documented facts the registry relies on (an integer is
accepted as itself, and a timestamp's `isoformat` is accepted as that timestamp). The validation of the in-tree backend
models (`extra="forbid"`, required and defaulted string fields) is written out.

`_opaque_backend` is the only place that builds an `UnresolvedBackendConfig`, and it derives `kind` from `raw`; here the
kind is a function of the raw fields, so the two cannot disagree.

Results:
- `parse_dump_typed`: a typed backend config survives a dump and a parse;
- `parse_cases`: the first parse keeps a payload in raw form only when its kind is unknown;
- `parseRow_spec`: a row parses exactly when its index, timestamp and set of keys are usable, whatever its backend, and
  the parsed row keeps the index and the backend payload.
-/
import Beetroot.Lib.Dict
import Mathlib.Data.Rat.Defs

namespace Beetroot

open Lib

/-! ## JSON values -/

/-- a value of `json.loads`; finite floats are represented by their value -/
inductive Json where
  | null
  | bool (b : Bool)
  | int (n : Int)
  | float (v : ℚ)
  | nan
  | inf (neg : Bool)
  | str (s : String)
  | arr (xs : List Json)
  | obj (fields : List (String × Json))

abbrev Fields := List (String × Json)

/-- `fields.get(key)` -/
def field (fs : Fields) (key : String) : Option Json := (fs.find? fun e => e.1 = key).map Prod.snd

theorem field_cons (k : String) (j : Json) (fs : Fields) (key : String) :
    field ((k, j) :: fs) key = if k = key then some j else field fs key := by
  simp only [field, List.find?_cons]
  split_ifs with h <;> simp [h]

/-- `fields.keys() <= allowed`: what `extra="forbid"` checks -/
def onlyKeys (allowed : List String) (fs : Fields) : Bool := fs.all fun e => e.1 ∈ allowed

/-! ## Backend configs -/

inductive BackendConfig where
  | redroid (absolutePath : String) (stealthPaths : Dict String String)
  | adb (serial : String)
  | vm (absolutePath : String)
  /-- a payload kept verbatim (`UnresolvedBackendConfig`) -/
  | unresolved (raw : Fields)

/-- the discriminator of a raw payload; a missing or non-string `kind` reads as the empty string -/
def kindOf (raw : Fields) : String :=
  match field raw "kind" with
  | some (.str s) => s
  | _ => ""

def BackendConfig.kind : BackendConfig → String
  | .redroid _ _ => "redroid"
  | .adb _ => "adb"
  | .vm _ => "vm"
  | .unresolved raw => kindOf raw

/-- the instance directory of a directory-backed (redroid or vm) row -/
def BackendConfig.absolutePath : BackendConfig → Option String
  | .redroid p _ => some p
  | .vm p => some p
  | _ => none

/-- the entries of a `dict[str, str]` value -/
def strEntries : Fields → Option (List (String × String))
  | [] => some []
  | (k, .str s) :: fs => (strEntries fs).map ((k, s) :: ·)
  | _ :: _ => none

/-- validation of `stealth_paths: dict[str, str] = {}` -/
def strDict : Option Json → Option (Dict String String)
  | none => some ∅
  | some (.obj fs) => (strEntries fs).map Dict.ofList
  | some _ => none

/-- `RedroidBackendConfig.model_validate` on a payload of kind `redroid` -/
def validateRedroid (raw : Fields) : Option BackendConfig :=
  if onlyKeys ["kind", "absolute_path", "stealth_paths"] raw then
    match field raw "absolute_path", strDict (field raw "stealth_paths") with
    | some (.str p), some sp => some (.redroid p sp)
    | _, _ => none
  else none

/-- `AdbBackendConfig.model_validate` on a payload of kind `adb` -/
def validateAdb (raw : Fields) : Option BackendConfig :=
  if onlyKeys ["kind", "serial"] raw then
    match field raw "serial" with
    | some (.str s) => some (.adb s)
    | _ => none
  else none

/-- `VmBackendConfig.model_validate` on a payload of kind `vm` -/
def validateVm (raw : Fields) : Option BackendConfig :=
  if onlyKeys ["kind", "absolute_path"] raw then
    match field raw "absolute_path" with
    | some (.str p) => some (.vm p)
    | _ => none
  else none

def backendConfigRegistry : List (String × (Fields → Option BackendConfig)) :=
  [("redroid", validateRedroid), ("adb", validateAdb), ("vm", validateVm)]

/-- the model registered for a kind -/
def registered (kind : String) : Option (Fields → Option BackendConfig) :=
  (backendConfigRegistry.find? fun e => e.1 = kind).map Prod.snd

/-- `none` is a `ValidationError` of the registered model -/
def parseBackendConfig (raw : Fields) : Option BackendConfig :=
  match registered (kindOf raw) with
  | none => some (.unresolved raw)
  | some validate => validate raw

def dumpBackendConfig : BackendConfig → Fields
  | .redroid p sp =>
    [("kind", .str "redroid"), ("absolute_path", .str p),
      ("stealth_paths", .obj (sp.entries.map fun e => (e.1, .str e.2)))]
  | .adb s => [("kind", .str "adb"), ("serial", .str s)]
  | .vm p => [("kind", .str "vm"), ("absolute_path", .str p)]
  | .unresolved raw => raw

def BackendConfig.Typed : BackendConfig → Prop
  | .unresolved _ => False
  | _ => True

theorem strEntries_map (l : List (String × String)) : strEntries (l.map fun e => (e.1, .str e.2)) = some l := by
  induction l with
  | nil => rfl
  | cons e l ih => simp [strEntries, ih]

theorem parse_dump_typed {b : BackendConfig} (hb : b.Typed) : parseBackendConfig (dumpBackendConfig b) = some b := by
  cases b with
  | redroid p sp =>
    have hsp : strDict (some (.obj (sp.entries.map fun e => (e.1, Json.str e.2)))) = some sp := by
      simp [strDict, strEntries_map, Dict.ofList_self]
    simp [dumpBackendConfig, parseBackendConfig, kindOf, field_cons, registered, backendConfigRegistry,
      validateRedroid, onlyKeys, hsp]
  | adb s =>
    simp [dumpBackendConfig, parseBackendConfig, kindOf, field_cons, registered, backendConfigRegistry, validateAdb,
      onlyKeys]
  | vm p =>
    simp [dumpBackendConfig, parseBackendConfig, kindOf, field_cons, registered, backendConfigRegistry, validateVm,
      onlyKeys]
  | unresolved raw => exact hb.elim

theorem validate_typed {kind : String} {validate : Fields → Option BackendConfig} {raw : Fields} {b : BackendConfig}
    (hv : registered kind = some validate) (hb : validate raw = some b) : b.Typed := by
  simp only [registered, Option.map_eq_some_iff] at hv
  obtain ⟨e, he, rfl⟩ := hv
  have hm := List.mem_of_find?_eq_some he
  simp only [backendConfigRegistry, List.mem_cons, List.not_mem_nil, or_false] at hm
  rcases hm with rfl | rfl | rfl
  · simp only [validateRedroid] at hb
    split at hb
    · split at hb
      · cases hb; trivial
      · cases hb
    · cases hb
  · simp only [validateAdb] at hb
    split at hb
    · split at hb
      · cases hb; trivial
      · cases hb
    · cases hb
  · simp only [validateVm] at hb
    split at hb
    · split at hb
      · cases hb; trivial
      · cases hb
    · cases hb

/-- a parsed payload is typed, or kept raw because its kind is not registered -/
theorem parse_cases {raw : Fields} {b : BackendConfig} (h : parseBackendConfig raw = some b) :
    b.Typed ∨ (b = .unresolved raw ∧ registered (kindOf raw) = none) := by
  unfold parseBackendConfig at h
  split at h
  · rename_i hr; cases h; exact Or.inr ⟨rfl, hr⟩
  · rename_i v hv; exact Or.inl (validate_typed hv h)

/-! ## Rows -/

/-- the two pydantic validations the registry uses on a row -/
structure Pydantic (T : Type) where
  laxInt : Json → Option Int
  laxDatetime : Json → Option T
  isoformat : T → String
  laxInt_int : ∀ n, laxInt (.int n) = some n
  laxDatetime_isoformat : ∀ t, laxDatetime (.str (isoformat t)) = some t

/-- timestamps represented by their ISO texts -/
def Pydantic.iso : Pydantic String where
  laxInt
    | .int n => some n
    | .bool b => some (if b then 1 else 0)
    | .float v => if v.den = 1 then some v.num else none
    | .str s => s.toInt?
    | _ => none
  laxDatetime
    | .str s => some s
    | _ => none
  isoformat t := t
  laxInt_int _ := rfl
  laxDatetime_isoformat _ := rfl

structure InstanceMeta (T : Type) where
  backend : BackendConfig
  index : Int
  createdAt : T

variable {T : Type}

/-- `InstanceMeta.model_validate({**meta_dict, "backend": backend})` -/
def validateMeta (P : Pydantic T) (fs : Fields) (backend : BackendConfig) : Option (InstanceMeta T) :=
  if onlyKeys ["backend", "index", "created_at"] fs then
    match (field fs "index").bind P.laxInt, (field fs "created_at").bind P.laxDatetime with
    | some i, some t => some ⟨backend, i, t⟩
    | _, _ => none
  else none

/-- `none` is a `RegistryRowError`; the retry wraps the payload as `UnresolvedBackendConfig` -/
def parseRow (P : Pydantic T) (fs raw : Fields) : Option (InstanceMeta T) :=
  match (parseBackendConfig raw).bind (validateMeta P fs) with
  | some m => some m
  | none => validateMeta P fs (.unresolved raw)

/-- what becomes of a payload: the validated config, or the payload itself when validation rejects it -/
def settle (raw : Fields) : BackendConfig := (parseBackendConfig raw).getD (.unresolved raw)

/-- the row has no foreign key, an index and a timestamp -/
def metaUsable (P : Pydantic T) (fs : Fields) : Bool := (validateMeta P fs (.unresolved [])).isSome

theorem validateMeta_backend (P : Pydantic T) (fs : Fields) (b b' : BackendConfig) :
    validateMeta P fs b' = (validateMeta P fs b).map fun m => { m with backend := b' } := by
  unfold validateMeta
  split_ifs
  · split <;> rfl
  · rfl

theorem validateMeta_isSome (P : Pydantic T) (fs : Fields) (b : BackendConfig) :
    (validateMeta P fs b).isSome = metaUsable P fs := by
  rw [metaUsable, validateMeta_backend P fs (.unresolved []) b, Option.isSome_map]

/-- the index a row records -/
def recordedIndex (P : Pydantic T) (fs : Fields) : Option Int := (field fs "index").bind P.laxInt

theorem validateMeta_some {P : Pydantic T} {fs : Fields} {b : BackendConfig} {m : InstanceMeta T}
    (h : validateMeta P fs b = some m) : m.backend = b ∧ recordedIndex P fs = some m.index := by
  unfold validateMeta at h
  split_ifs at h
  split at h
  · rename_i i t hi ht; cases h; exact ⟨rfl, hi⟩
  · cases h

theorem parseRow_eq (P : Pydantic T) (fs raw : Fields) : parseRow P fs raw = validateMeta P fs (settle raw) := by
  unfold parseRow settle
  cases hp : parseBackendConfig raw with
  | none => rfl
  | some b =>
    simp only [Option.bind_some, Option.getD_some]
    cases hv : validateMeta P fs b with
    | some m => rfl
    | none =>
      have h := validateMeta_isSome P fs b
      rw [hv, ← validateMeta_isSome P fs (.unresolved raw)] at h
      simpa using h.symm

/-- a row parses exactly when its meta fields are usable, and then keeps its index and its payload -/
theorem parseRow_spec (P : Pydantic T) (fs raw : Fields) :
    (parseRow P fs raw = none ↔ metaUsable P fs = false) ∧
      ∀ m, parseRow P fs raw = some m → m.backend = settle raw ∧ recordedIndex P fs = some m.index := by
  rw [parseRow_eq]
  refine ⟨?_, fun m hm => validateMeta_some hm⟩
  rw [← validateMeta_isSome P fs (settle raw)]
  cases validateMeta P fs (settle raw) <;> simp

def dumpMeta (P : Pydantic T) (m : InstanceMeta T) : Fields :=
  [("backend", .obj (dumpBackendConfig m.backend)), ("index", .int m.index),
    ("created_at", .str (P.isoformat m.createdAt))]

theorem validateMeta_dump (P : Pydantic T) (m : InstanceMeta T) (b : BackendConfig) :
    validateMeta P (dumpMeta P m) b = some { m with backend := b } := by
  simp [validateMeta, dumpMeta, onlyKeys, field_cons, P.laxInt_int, P.laxDatetime_isoformat]

/-! ## The file -/

structure RegistryFile (T : Type) where
  instances : Dict String (InstanceMeta T)

instance : EmptyCollection (RegistryFile T) := ⟨⟨∅⟩⟩

theorem RegistryFile.ext {d e : RegistryFile T} (h : d.instances.entries = e.instances.entries) : d = e := by
  cases d; cases e; simp only [mk.injEq]; exact Dict.ext h

/-- `{meta.index for meta in data.instances.values()}` -/
def RegistryFile.usedIndices (d : RegistryFile T) : List Int := d.instances.values.map (·.index)

def registryToJson (P : Pydantic T) (d : RegistryFile T) : Json :=
  .obj [("version", .int 3), ("instances", .obj (d.instances.entries.map fun e => (e.1, .obj (dumpMeta P e.2))))]

end Beetroot
