/-
`InstanceConfig`, `load_yaml` and `write_yaml` on document trees.

`load_yaml` gets the tree that `yaml.safe_load` has made of the file. It looks at the raw `api_version`, upgrades an old one to
the supported one, and validates; the notes that it prints are left out, but the lookups that decide whether to print one are
kept, because they can raise. `dump` is the tree that `write_yaml` writes (`model_dump`).

Results:
- `validate_map`: validation of a mapping, by the two `before` validators and the fields;
- `loadYaml_map`: the load of a mapping, by its `api_version` and the validation.
-/
import Beetroot.Config.Schema

namespace Beetroot.Config

open Lib

/-! ## The config -/

/-- `SUPPORTED_API_VERSION` -/
def supportedApiVersion : Int := 8

structure InstanceConfig where
  apiVersion : Int
  lifecycle : Lifecycle
  android : Android
  display : Display
  resources : Resources
  frida : Option Frida
  modules : List Module
  magisk : Magisk
  ports : List PortMapping
  binder : Binder
  vm : Vm
  distinct : PortsDistinct ports
  addressing : AddressingServices ports frida.isSome
  supported : apiVersion = supportedApiVersion

/-- the source that is set -/
def Module.narrow (m : Module) : Beetroot.Module where
  source := if truthy m.url then .url (m.url.getD "") else .path (m.path.getD "")
  sha256 := m.sha256.map (·.1)

/-- the part that registration, staging and the vm backend read; `rest` stands for what only `render_env` reads -/
def InstanceConfig.narrow (cfg : InstanceConfig) (rest : String) : Beetroot.InstanceConfig where
  ports := cfg.ports
  binder := cfg.binder
  frida := cfg.frida.isSome
  vm := cfg.vm
  lifecycle := cfg.lifecycle
  modules := cfg.modules.map Module.narrow
  rest := rest
  distinct := cfg.distinct
  addressing := cfg.addressing

def lifecycleText : Lifecycle → String
  | .ephemeral => "ephemeral"
  | .durable => "durable"

def binderText : Binder → String
  | .auto => "auto"
  | .host => "host"
  | .vm => "vm"

/-! ## Validation -/

/-- a key of `WELL_KNOWN_SERVICES` -/
def isWellKnownKey (key : Scalar) : Bool := wellKnownServices.any fun w => key = .str w.1

/-- the keys of a legacy mapping that the old form could not express -/
def unknownKeys (ports : Tree.Entries) : List Scalar := (ports.map Prod.fst).filter fun k => !isWellKnownKey k

/-- the list form of a legacy mapping -/
def migratedPorts (ports : Tree.Entries) : Tree :=
  .list (wellKnownServices.map fun w =>
    .record [("service", .str w.1), ("guest", .int w.2), ("host", (Tree.lookup ports w.1).getD .null)])

/-- `_migrate_legacy_ports_mapping` -/
def migrateLegacyPortsMapping (es : Tree.Entries) : V Tree.Entries :=
  match Tree.lookup es "ports" with
  | some (.map ports) =>
    if ports.isEmpty then .ok (Tree.without es "ports")
    else if !sortable (unknownKeys ports) then .escape .incomparable
    else if unknownKeys ports ≠ [] then fail (.value (.unknownPorts (unknownKeys ports)))
    else .ok (Tree.set es "ports" (migratedPorts ports))
  | _ => .ok es

/-- `_reject_stealth_key` -/
def rejectStealthKey (es : Tree.Entries) : V Tree.Entries :=
  if Tree.has es "stealth" then fail (.value .stealthKey) else .ok es

section Load

variable (C : Conversions)

/-- the fields of the config, in the order of the class -/
def InstanceConfig.fields (es : Tree.Entries) :
    V (Int × Lifecycle × Android × Display × Resources × Option Frida × List Module × Magisk × List PortMapping × Binder ×
      Vm) :=
  Checked.both (fieldOr es "api_version" supportedApiVersion (convert C.int))
    (.both (fieldOr es "lifecycle" .durable (literal [.ephemeral, .durable] lifecycleText))
    (.both (fieldOr es "android" Android.default (Android.validate C))
    (.both (fieldOr es "display" Display.default (Display.validate C))
    (.both (fieldOr es "resources" Resources.default (Resources.validate C))
    (.both (fieldOr es "frida" none (nullable (Frida.validate C)))
    (.both (fieldOr es "modules" [] (listOf (Module.validate C)))
    (.both (fieldOr es "magisk" Magisk.default (Magisk.validate C))
    (.both (fieldOr es "ports" defaultPortMappings (listOf (portMapping C)))
    (.both (fieldOr es "binder" .auto (literal [.auto, .host, .vm] binderText))
      (fieldOr es "vm" Vm.unset (Config.vm C)))))))))))

/-- the `after` validators: `_check_ports_distinct`, `_check_required_addressing_services`, `_check_api_version` -/
def InstanceConfig.assemble : (Int × Lifecycle × Android × Display × Resources × Option Frida × List Module × Magisk ×
    List PortMapping × Binder × Vm) → V InstanceConfig
  | (apiVersion, lifecycle, android, display, resources, frida, modules, magisk, ports, binder, vm) =>
    if hd : PortsDistinct ports then
      if ha : AddressingServices ports frida.isSome then
        if hv : apiVersion = supportedApiVersion then
          .ok ⟨apiVersion, lifecycle, android, display, resources, frida, modules, magisk, ports, binder, vm, hd, ha, hv⟩
        else fail (.value (.apiVersion apiVersion))
      else fail (.value .addressing)
    else fail (.value .duplicatePorts)

/-- `InstanceConfig.model_validate`; the migration is defined last of the `before` validators, so it runs first -/
def InstanceConfig.validate : Tree → V InstanceConfig
  | .map es =>
    (migrateLegacyPortsMapping es).bind fun es => (rejectStealthKey es).bind fun es =>
      (InstanceConfig.fields C es).bind InstanceConfig.assemble
  | _ => fail .type

/-- `value in _AUTO_BUMPABLE_API_VERSIONS`; `True` is 1, and `1.0` is -/
def autoBumpable : Option Tree → V Bool
  | none => .ok false
  | some (.scalar s) => .ok (match s with
    | .int n => 1 ≤ n ∧ n ≤ 7
    | .bool b => b
    | .float (.fin q) => ∃ n ∈ ([1, 2, 3, 4, 5, 6, 7] : List ℚ), q = n
    | _ => false)
  | some _ => .escape .unhashable

/-- a mapping in a field -/
def subMap (es : Tree.Entries) (key : String) : Option Tree.Entries :=
  match Tree.lookup es key with
  | some (.map sub) => some sub
  | _ => none

/-- `renamed_key_present` -/
def renamedKeyPresent (es : Tree.Entries) : V Bool :=
  if Tree.has es "stealth" then .ok true
  else if (subMap es "display").any fun d => Tree.has d "gpu_mode" then .ok true
  else
    (match subMap es "android" with
    | some a => legacyGapps (Tree.lookup a "gapps")
    | none => .ok false).bind fun legacy =>
      .ok (legacy || (subMap es "ports").any fun p => unknownKeys p ≠ [])

/-- `load_yaml`, on the tree of the file; an empty file is an all-defaults config -/
def loadYaml : Tree → V InstanceConfig
  | .scalar .null => InstanceConfig.validate C (.map [])
  | .map es =>
    (autoBumpable (Tree.lookup es "api_version")).bind fun bump =>
      if bump then
        (renamedKeyPresent es).bind fun _ =>
          InstanceConfig.validate C (.map (Tree.set es "api_version" (.int supportedApiVersion)))
      else InstanceConfig.validate C (.map es)
  | t => InstanceConfig.validate C t

theorem validate_map (es : Tree.Entries) : InstanceConfig.validate C (.map es) =
    (migrateLegacyPortsMapping es).bind fun es => (rejectStealthKey es).bind fun es =>
      (InstanceConfig.fields C es).bind InstanceConfig.assemble := rfl

theorem loadYaml_map (es : Tree.Entries) : loadYaml C (.map es) =
    (autoBumpable (Tree.lookup es "api_version")).bind fun bump =>
      if bump then
        (renamedKeyPresent es).bind fun _ =>
          InstanceConfig.validate C (.map (Tree.set es "api_version" (.int supportedApiVersion)))
      else InstanceConfig.validate C (.map es) := rfl

end Load

/-! ## Dumping -/

/-- `None`, or the value -/
def dumpOption {α : Type} (dump : α → Tree) : Option α → Tree
  | none => .null
  | some a => dump a

def Android.dump (a : Android) : Tree :=
  .record [("version", .int a.version), ("gapps", .str a.gapps.text),
    ("gapps_vendor", dumpOption (fun v => .str v.text) a.gappsVendor)]

def Display.dump (d : Display) : Tree :=
  .record [("width", .int d.width), ("height", .int d.height), ("fps", .int d.fps), ("rendering", .str d.rendering.text)]

def Resources.dump (r : Resources) : Tree :=
  .record [("mem", .str r.mem), ("cpus", .float r.cpus), ("shared_mem", .str r.sharedMem),
    ("mem_reservation", dumpOption (fun v => .str v.1) r.memReservation),
    ("memswap_limit", dumpOption (fun v => .str v.1) r.memswapLimit), ("pids_limit", .int r.pidsLimit)]

def Frida.dump (f : Frida) : Tree :=
  .record [("version", .str f.version), ("sha256", dumpOption (fun v => .str v.1) f.sha256)]

def Module.dump (m : Module) : Tree :=
  .record [("url", dumpOption .str m.url), ("path", dumpOption .str m.path),
    ("sha256", dumpOption (fun v => .str v.1) m.sha256)]

def Magisk.dump (m : Magisk) : Tree := .record [("denylist", .list (m.denylist.map fun e => .str e.1))]

def dumpPort (m : PortMapping) : Tree :=
  .record [("service", dumpOption .str m.service), ("guest", .int m.guest), ("host", dumpOption .int m.host)]

/-- an unset `smp` is `"auto"` -/
def dumpSmp : Option Int → Tree
  | none => .str "auto"
  | some n => .int n

def dumpVm (v : Vm) : Tree :=
  .record [("kernel", dumpOption .str v.kernel), ("rootfs", dumpOption .str v.rootfs), ("accel", .str (accelText v.accel)),
    ("smp", dumpSmp v.smp), ("memory_mib", .int v.memoryMib), ("boot_cache", .bool v.bootCache)]

def InstanceConfig.dumpFields (cfg : InstanceConfig) : List (String × Tree) :=
  [("api_version", .int cfg.apiVersion), ("lifecycle", .str (lifecycleText cfg.lifecycle)),
    ("android", cfg.android.dump), ("display", cfg.display.dump), ("resources", cfg.resources.dump),
    ("frida", dumpOption Frida.dump cfg.frida), ("modules", .list (cfg.modules.map Module.dump)),
    ("magisk", cfg.magisk.dump), ("ports", .list (cfg.ports.map dumpPort)), ("binder", .str (binderText cfg.binder)),
    ("vm", dumpVm cfg.vm)]

/-- `model_dump`, which `write_yaml` hands to `yaml.safe_dump` -/
def InstanceConfig.dump (cfg : InstanceConfig) : Tree := .record cfg.dumpFields

end Beetroot.Config
