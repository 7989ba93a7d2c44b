/-
The schema of `beetroot.yaml` (`config.InstanceConfig` and its sections): the validated values, and the validation of a tree.

A section is a structure whose fields carry the checks of the field validators, and whose last fields are the checks of its
`model_validator(mode="after")`; an invalid section cannot be built. `validate` follows pydantic: the `before` validators run
last-defined first, then every field is checked in order and the errors are collected, then the `after` validators run.
A `ValueError` of a validator is one of the collected errors. Any other exception goes through (`Escape`): looking up a list or
a mapping in a set, sorting keys that cannot be compared, and `int` of an infinity.

How pydantic converts a scalar (`"8"`, `8.0` and `True` are accepted for an `int`) is the parameter `Conversions`; its facts say
that a value of the field's own type is kept.

Results: `ensure_val`, `fieldOr_some`: a field that is there and passes its check has its value; `not_escapes_fieldOr`,
`not_escapes_listOf`: no exception comes from a field whose check has none.
-/
import Beetroot.Config
import Beetroot.Config.Text
import Beetroot.Lib.Checked
import Beetroot.Lib.Tree

namespace Beetroot.Config

open Lib

/-! ## Errors -/

inductive Loc where
  | field (name : String)
  | item (index : ℕ)
deriving DecidableEq, Repr

/-- the `ValueError`s that the validators of the schema raise -/
inductive Complaint where
  | gpuModeRenamed
  | legacyShm
  | dockerSize (v : String)
  /-- `float` of a checked size -/
  | sizeText (v : String)
  | reservationAboveMem
  | memswapBelowMem
  | fridaVersion (v : String)
  | sha256Shape (v : String)
  | sha256OfMovingTarget
  | moduleWithoutSource
  | moduleWithBoth
  | moduleScheme (url : String)
  | denylistEntry (entry : String)
  | androidVersion (v : Int)
  | baseImage
  | legacyGapps (old : String)
  | vendorWithNone
  | portRange (v : Int)
  | smpRange (v : Int)
  | stealthKey
  | unknownPorts (keys : List Scalar)
  | duplicatePorts
  | addressing
  | apiVersion (v : Int)
deriving DecidableEq

inductive Problem where
  /-- pydantic does not convert the value to the field's type -/
  | type
  | literal
  | missing
  /-- `gt` or `ge` -/
  | bound
  | value (complaint : Complaint)
deriving DecidableEq

structure Issue where
  loc : List Loc
  problem : Problem
deriving DecidableEq

/-- the exceptions that are not validation errors -/
inductive Escape where
  /-- `TypeError`: a list or a mapping is looked up in a set or a dictionary -/
  | unhashable
  /-- `TypeError`: `sorted` on keys of several types -/
  | incomparable
  /-- `OverflowError`: `int` of an infinity -/
  | overflow
deriving DecidableEq, Repr

abbrev V := Checked Issue Escape

variable {α : Type}

def fail (problem : Problem) : V α := .invalid [⟨[], problem⟩]

/-- the errors of a field lie below its name -/
def under (loc : Loc) (c : V α) : V α := c.mapErrors fun e => { e with loc := loc :: e.loc }

/-- a value that must satisfy a condition -/
def ensure (P : α → Prop) [DecidablePred P] (problem : α → Problem) (a : α) : V {a // P a} :=
  if h : P a then .ok ⟨a, h⟩ else fail (problem a)

/-! ## Fields -/

/-- how pydantic converts a value in lax mode; `none` is a type error -/
structure Conversions where
  int : Tree → Option Int
  float : Tree → Option Double
  str : Tree → Option String
  bool : Tree → Option Bool
  int_int : ∀ n, int (.int n) = some n
  float_float : ∀ x, float (.float x) = some x
  str_str : ∀ s, str (.str s) = some s
  bool_bool : ∀ b, bool (.bool b) = some b

/-- values of the field's own type, and integers for floats -/
def Conversions.exact : Conversions where
  int
    | .scalar (.int n) => some n
    | _ => none
  float
    | .scalar (.float x) => some x
    | .scalar (.int n) => some (.ofRat n)
    | _ => none
  str
    | .scalar (.str s) => some s
    | _ => none
  bool
    | .scalar (.bool b) => some b
    | _ => none
  int_int _ := rfl
  float_float _ := rfl
  str_str _ := rfl
  bool_bool _ := rfl

/-- a conversion, as a check -/
def convert (conv : Tree → Option α) (t : Tree) : V α :=
  match conv t with
  | some a => .ok a
  | none => fail .type

/-- `… | None` -/
def nullable (check : Tree → V α) : Tree → V (Option α)
  | .scalar .null => .ok none
  | t => (check t).map some

/-- a field with a default -/
def fieldOr (entries : Tree.Entries) (key : String) (default : α) (check : Tree → V α) : V α :=
  match Tree.lookup entries key with
  | none => .ok default
  | some t => under (.field key) (check t)

/-- a field without a default -/
def requiredField (entries : Tree.Entries) (key : String) (check : Tree → V α) : V α :=
  match Tree.lookup entries key with
  | none => .invalid [⟨[.field key], .missing⟩]
  | some t => under (.field key) (check t)

/-- the items of a list with their positions -/
def eachItem (check : Tree → V α) (i : ℕ) : List Tree → V (List α)
  | [] => .ok []
  | t :: ts => (Checked.both (under (.item i) (check t)) (eachItem check (i + 1) ts)).map fun p => p.1 :: p.2

/-- `list[…]` -/
def listOf (check : Tree → V α) : Tree → V (List α)
  | .list items => eachItem check 0 items
  | _ => fail .type

/-- `Literal[…]`: the value whose text it is -/
def literal (values : List α) (text : α → String) : Tree → V α
  | .scalar (.str s) =>
    match values.find? fun v => text v = s with
    | some v => .ok v
    | none => fail .literal
  | _ => fail .literal

section Rules

variable {P : α → Prop} [DecidablePred P] {problem : α → Problem} {check : Tree → V α} {entries : Tree.Entries}
  {key : String} {default : α}

theorem ensure_val (a : {a // P a}) : ensure P problem a.1 = .ok a := by
  rw [ensure, dif_pos a.2]

theorem fieldOr_some {es : Tree.Entries} {key : String} {t : Tree} {check : Tree → V α} {a : α} (default : α)
    (hl : Tree.lookup es key = some t) (hc : check t = .ok a) : fieldOr es key default check = .ok a := by
  simp [fieldOr, hl, hc, under]

theorem requiredField_some {es : Tree.Entries} {key : String} {t : Tree} {check : Tree → V α} {a : α}
    (hl : Tree.lookup es key = some t) (hc : check t = .ok a) : requiredField es key check = .ok a := by
  simp [requiredField, hl, hc, under]

theorem convert_int (C : Conversions) (n : Int) : convert C.int (.int n) = .ok n := by simp [convert, C.int_int]

theorem convert_str (C : Conversions) (s : String) : convert C.str (.str s) = .ok s := by simp [convert, C.str_str]

theorem convert_float (C : Conversions) (x : Double) : convert C.float (.float x) = .ok x := by simp [convert, C.float_float]

theorem convert_bool (C : Conversions) (b : Bool) : convert C.bool (.bool b) = .ok b := by simp [convert, C.bool_bool]

theorem not_escapes_ensure (a : α) : ¬ (ensure P problem a).Escapes := by
  unfold ensure
  split_ifs <;> simp [fail]

theorem not_escapes_convert (conv : Tree → Option α) (t : Tree) : ¬ (convert conv t).Escapes := by
  unfold convert
  split <;> simp [fail]

theorem not_escapes_literal (values : List α) (text : α → String) (t : Tree) : ¬ (literal values text t).Escapes := by
  unfold literal
  split
  · split <;> simp [fail]
  · simp [fail]

theorem not_escapes_nullable (h : ∀ t, ¬ (check t).Escapes) (t : Tree) : ¬ (nullable check t).Escapes := by
  unfold nullable
  split
  · simp
  · simpa using h _

theorem not_escapes_fieldOr (h : ∀ t, ¬ (check t).Escapes) : ¬ (fieldOr entries key default check).Escapes := by
  unfold fieldOr
  split
  · simp
  · simpa [under] using h _

theorem not_escapes_requiredField (h : ∀ t, ¬ (check t).Escapes) : ¬ (requiredField entries key check).Escapes := by
  unfold requiredField
  split
  · simp
  · simpa [under] using h _

theorem not_escapes_eachItem (h : ∀ t, ¬ (check t).Escapes) (i : ℕ) (ts : List Tree) :
    ¬ (eachItem check i ts).Escapes := by
  induction ts generalizing i with
  | nil => simp [eachItem]
  | cons t ts ih => simp [eachItem, under, h t, ih]

theorem not_escapes_listOf (h : ∀ t, ¬ (check t).Escapes) (t : Tree) : ¬ (listOf check t).Escapes := by
  unfold listOf
  split
  · exact not_escapes_eachItem h 0 _
  · simp [fail]

end Rules

/-! ## `display:` -/

inductive Rendering where
  | gpu
  | software
  | auto
deriving DecidableEq, Repr

def Rendering.text : Rendering → String
  | gpu => "gpu"
  | software => "software"
  | auto => "auto"

abbrev Positive := {n : Int // 0 < n}

structure Display where
  width : Positive
  height : Positive
  fps : Positive
  rendering : Rendering
deriving DecidableEq

def Display.default : Display := ⟨⟨540, by decide⟩, ⟨960, by decide⟩, ⟨3, by decide⟩, .auto⟩

section Sections

variable (C : Conversions)

/-- `int` with `gt=0` -/
def positive (t : Tree) : V Positive := (convert C.int t).bind (ensure (0 < ·) fun _ => .bound)

def Display.validate : Tree → V Display
  | .map es =>
    if Tree.has es "gpu_mode" then fail (.value .gpuModeRenamed)
    else
      (Checked.both (fieldOr es "width" Display.default.width (positive C))
        (.both (fieldOr es "height" Display.default.height (positive C))
        (.both (fieldOr es "fps" Display.default.fps (positive C))
          (fieldOr es "rendering" .auto (literal [.gpu, .software, .auto] Rendering.text))))).map
        fun (width, height, fps, rendering) => ⟨width, height, fps, rendering⟩
  | _ => fail .type

/-! ## `resources:` -/

abbrev DockerSize := {v : String // checkDockerSize v = true}

/-- a size, or the sentinel of unlimited swap -/
abbrev Memswap := {v : String // v = "-1" ∨ checkDockerSize v = true}

/-- `_docker_size_to_bytes` in a validator -/
def bytesOf (v : String) : V Int :=
  match dockerSizeToBytes v with
  | .ok n => .ok n
  | .error .value => fail (.value (.sizeText v))
  | .error .overflow => .escape .overflow

/-- the soft floor is at most the hard cap -/
def checkReservation (memBytes : Int) : Option String → V Unit
  | none => .ok ()
  | some r => (bytesOf r).bind fun n => if n > memBytes then fail (.value .reservationAboveMem) else .ok ()

/-- the total cap is at least the hard cap; the sentinel means that there is none -/
def checkMemswap (memBytes : Int) : Option String → V Unit
  | none => .ok ()
  | some w =>
    if w = "-1" then .ok ()
    else (bytesOf w).bind fun n => if n < memBytes then fail (.value .memswapBelowMem) else .ok ()

/-- `_check_memory_ordering` -/
def checkMemoryOrdering (mem : String) (reservation memswap : Option String) : V Unit :=
  (bytesOf mem).bind fun memBytes =>
    (checkReservation memBytes reservation).bind fun _ => checkMemswap memBytes memswap

structure Resources where
  mem : DockerSize
  /-- `gt=0` refuses what is at most zero -/
  cpus : {x : Double // x.nonpos = false}
  sharedMem : DockerSize
  memReservation : Option DockerSize
  memswapLimit : Option Memswap
  pidsLimit : {n : Int // 1 ≤ n}
  ordered : checkMemoryOrdering mem (memReservation.map (·.1)) (memswapLimit.map (·.1)) = .ok ()
deriving DecidableEq

def Resources.default : Resources where
  mem := ⟨"3g", by decide +kernel⟩
  cpus := ⟨.fin 2, by decide +kernel⟩
  sharedMem := ⟨"256m", by decide +kernel⟩
  memReservation := none
  memswapLimit := none
  pidsLimit := ⟨4096, by decide⟩
  ordered := by decide +kernel

/-- `str` with `_check_docker_size` -/
def dockerSize (t : Tree) : V DockerSize :=
  (convert C.str t).bind (ensure (fun v => checkDockerSize v = true) fun v => .value (.dockerSize v))

def memswap (t : Tree) : V Memswap :=
  (convert C.str t).bind (ensure (fun v => v = "-1" ∨ checkDockerSize v = true) fun v => .value (.dockerSize v))

/-- `float` with `gt=0` -/
def cpuCount (t : Tree) : V {x : Double // x.nonpos = false} :=
  (convert C.float t).bind (ensure (fun x : Double => x.nonpos = false) fun _ => .bound)

/-- `int` with `ge` -/
def atLeast (least : Int) (t : Tree) : V {n : Int // least ≤ n} :=
  (convert C.int t).bind (ensure (least ≤ ·) fun _ => .bound)

/-- the fields of `resources:` before the sizes are compared -/
def Resources.fields (es : Tree.Entries) :
    V (DockerSize × {x : Double // x.nonpos = false} × DockerSize × Option DockerSize × Option Memswap ×
      {n : Int // 1 ≤ n}) :=
  Checked.both (fieldOr es "mem" Resources.default.mem (dockerSize C))
    (.both (fieldOr es "cpus" Resources.default.cpus (cpuCount C))
    (.both (fieldOr es "shared_mem" Resources.default.sharedMem (dockerSize C))
    (.both (fieldOr es "mem_reservation" none (nullable (dockerSize C)))
    (.both (fieldOr es "memswap_limit" none (nullable (memswap C)))
      (fieldOr es "pids_limit" Resources.default.pidsLimit (atLeast C 1))))))

def Resources.assemble : (DockerSize × {x : Double // x.nonpos = false} × DockerSize × Option DockerSize × Option Memswap ×
    {n : Int // 1 ≤ n}) → V Resources
  | (mem, cpus, shared, reservation, swap, pids) =>
    (checkMemoryOrdering mem (reservation.map (·.1)) (swap.map (·.1))).withProof fun h =>
      ⟨mem, cpus, shared, reservation, swap, pids, h⟩

def Resources.validate : Tree → V Resources
  | .map es =>
    if Tree.has es "shm" then fail (.value .legacyShm) else (Resources.fields C es).bind Resources.assemble
  | _ => fail .type

theorem Resources.validate_map (es : Tree.Entries) : Resources.validate C (.map es) =
    if Tree.has es "shm" then fail (.value .legacyShm) else (Resources.fields C es).bind Resources.assemble := rfl

/-! ## `frida:` and `modules:` -/

abbrev Sha256 := {v : String // checkSha256Shape v = true}

structure Frida where
  version : {v : String // isSymbolicFridaVersion v = true ∨ isPinnedFridaVersion v = true}
  sha256 : Option Sha256
  pinned : sha256 ≠ none → isSymbolicFridaVersion version = false
deriving DecidableEq

def fridaVersion (t : Tree) : V {v : String // isSymbolicFridaVersion v = true ∨ isPinnedFridaVersion v = true} :=
  (convert C.str t).bind (ensure _ fun v => .value (.fridaVersion v))

def sha256Digest (t : Tree) : V Sha256 :=
  (convert C.str t).bind (ensure (fun v => checkSha256Shape v = true) fun v => .value (.sha256Shape v))

def Frida.validate : Tree → V Frida
  | .map es =>
    (Checked.both (fieldOr es "version" ⟨"auto", by decide⟩ (fridaVersion C))
      (fieldOr es "sha256" none (nullable (sha256Digest C)))).bind fun (version, digest) =>
        if h : digest ≠ none → isSymbolicFridaVersion version = false then .ok ⟨version, digest, h⟩
        else fail (.value .sha256OfMovingTarget)
  | _ => fail .type

/-- a text that is set and not empty -/
def truthy (v : Option String) : Bool := v.any (· ≠ "")

/-- `Module.model_post_init` -/
def checkModuleSource (url path : Option String) : V Unit :=
  if !truthy url && !truthy path then fail (.value .moduleWithoutSource)
  else if truthy url && truthy path then fail (.value .moduleWithBoth)
  else if truthy url && !url.any hasHttpScheme then fail (.value (.moduleScheme (url.getD "")))
  else .ok ()

structure Module where
  url : Option String
  path : Option String
  sha256 : Option Sha256
  source : checkModuleSource url path = .ok ()
deriving DecidableEq

def Module.validate : Tree → V Module
  | .map es =>
    (Checked.both (fieldOr es "url" none (nullable (convert C.str)))
      (.both (fieldOr es "path" none (nullable (convert C.str)))
        (fieldOr es "sha256" none (nullable (sha256Digest C))))).bind fun (url, path, digest) =>
          (checkModuleSource url path).withProof fun h => ⟨url, path, digest, h⟩
  | _ => fail .type

/-! ## `magisk:` -/

abbrev DenylistEntry := {e : String // checkDenylistEntry e = true}

structure Magisk where
  denylist : List DenylistEntry
deriving DecidableEq

/-- `_DEFAULT_DENYLIST` -/
def Magisk.default : Magisk :=
  ⟨[⟨"com.google.android.gms", by decide +kernel⟩,
    ⟨"com.google.android.gms/com.google.android.gms.unstable", by decide +kernel⟩]⟩

/-- `_check_packages`: the first entry that does not match is reported -/
def checkPackages (entries : List String) : V (List DenylistEntry) :=
  if h : ∀ e ∈ entries, checkDenylistEntry e = true then .ok (entries.attachWith _ h)
  else fail (.value (.denylistEntry ((entries.find? fun e => !checkDenylistEntry e).getD "")))

def Magisk.validate : Tree → V Magisk
  | .map es =>
    (fieldOr es "denylist" Magisk.default.denylist fun t => (listOf (convert C.str) t).bind checkPackages).map Magisk.mk
  | _ => fail .type

/-! ## `android:` -/

inductive GappsIntent where
  | none
  | minimal
  | full
deriving DecidableEq, Repr

def GappsIntent.text : GappsIntent → String
  | none => "none"
  | minimal => "minimal"
  | full => "full"

inductive GappsVendor where
  | litegapps
  | opengapps
  | mindthegapps
deriving DecidableEq, Repr

def GappsVendor.text : GappsVendor → String
  | litegapps => "litegapps"
  | opengapps => "opengapps"
  | mindthegapps => "mindthegapps"

/-- `_VALID_ANDROID_VERSIONS` -/
def validAndroidVersion (v : Int) : Bool := v ∈ ([11, 12, 13, 14] : List Int)

structure Android where
  version : {v : Int // validAndroidVersion v = true}
  gapps : GappsIntent
  gappsVendor : Option GappsVendor
  consistent : gapps = .none → gappsVendor = none
deriving DecidableEq

/-- `DEFAULT_ANDROID_VERSION` with the minimal Play Services -/
def Android.default : Android := ⟨⟨14, by decide⟩, .minimal, none, by simp⟩

/-- `value in _LEGACY_GAPPS_VENDOR_VALUES` -/
def legacyGapps (value : Option Tree) : V Bool :=
  match value with
  | none => .ok false
  | some (.scalar (.str s)) => .ok (s = "lite" || s = "mindthegapps")
  | some t => if t.hashable then .ok false else .escape .unhashable

def androidVersion (t : Tree) : V {v : Int // validAndroidVersion v = true} :=
  (convert C.int t).bind (ensure (fun v => validAndroidVersion v = true) fun v => .value (.androidVersion v))

def Android.fields (es : Tree.Entries) : V Android :=
  (Checked.both (fieldOr es "version" Android.default.version (androidVersion C))
    (.both (fieldOr es "gapps" .minimal (literal [.none, .minimal, .full] GappsIntent.text))
      (fieldOr es "gapps_vendor" none
        (nullable (literal [.litegapps, .opengapps, .mindthegapps] GappsVendor.text))))).bind fun (version, gapps, vendor) =>
          if h : gapps = .none → vendor = none then .ok ⟨version, gapps, vendor, h⟩ else fail (.value .vendorWithNone)

/-- the check of the legacy values is defined last, so it runs first -/
def Android.validate : Tree → V Android
  | .map es =>
    (legacyGapps (Tree.lookup es "gapps")).bind fun legacy =>
      if legacy then fail (.value (.legacyGapps (((Tree.lookup es "gapps").bind C.str).getD "")))
      else if Tree.has es "base_image" then fail (.value .baseImage)
      else Android.fields C es
  | _ => fail .type

/-! ## `ports:` and `vm:` -/

abbrev Port := {n : Int // minPort ≤ n ∧ n ≤ maxPort}

def port (t : Tree) : V Port :=
  (convert C.int t).bind (ensure (fun n => minPort ≤ n ∧ n ≤ maxPort) fun n => .value (.portRange n))

def portMapping : Tree → V PortMapping
  | .map es =>
    (Checked.both (fieldOr es "service" none (nullable (convert C.str)))
      (.both (requiredField es "guest" (port C)) (fieldOr es "host" none (nullable (port C))))).map
        fun (service, guest, host) =>
          ⟨service, guest, host.map (·.1), guest.2, fun h hh => by
            obtain ⟨n, -, rfl⟩ := Option.map_eq_some_iff.1 hh
            exact n.2⟩
  | _ => fail .type

/-- `int | Literal["auto"]`, with its lower bound -/
def smp : Tree → V (Option {n : Int // 1 ≤ n})
  | .scalar (.str "auto") => .ok none
  | t => ((convert C.int t).bind (ensure (1 ≤ ·) fun n => .value (.smpRange n))).map some

def accelText : Accel → String
  | .auto => "auto"
  | .kvm => "kvm"
  | .tcg => "tcg"

theorem memory_default : (256 : Int) ≤ 8192 := by decide

theorem smp_at_least {smp : Option {n : Int // 1 ≤ n}} (n : Int) (hn : smp.map (·.1) = some n) : 1 ≤ n := by
  obtain ⟨m, -, rfl⟩ := Option.map_eq_some_iff.1 hn
  exact m.2

def vm : Tree → V Vm
  | .map es =>
    (Checked.both (fieldOr es "kernel" none (nullable (convert C.str)))
      (.both (fieldOr es "rootfs" none (nullable (convert C.str)))
      (.both (fieldOr es "accel" .auto (literal [.auto, .kvm, .tcg] accelText))
      (.both (fieldOr es "smp" none (smp C))
      (.both (fieldOr es "memory_mib" ⟨8192, memory_default⟩ (atLeast C 256))
        (fieldOr es "boot_cache" false (convert C.bool))))))).map
          fun (kernel, rootfs, accel, smp, memory, cache) =>
            { kernel := kernel, rootfs := rootfs, accel := accel, smp := smp.map (·.1), memoryMib := memory, bootCache := cache,
              smp_range := smp_at_least,
              memory_range := memory.2 }
  | _ => fail .type

end Sections

end Beetroot.Config
