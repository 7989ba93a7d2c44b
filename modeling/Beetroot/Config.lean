/-
The part of the `beetroot.yaml` schema (`config.InstanceConfig`) that registration, staging, snapshots and the vm backend read:
the `ports:` list, the `binder` mode, whether a `frida:` block is present, the `vm:` block, `lifecycle` and `modules:`. What
else `render_env` reads is one text. The checks of the model validators on these fields are fields of the structures, so a
loaded config always satisfies them.

Results: `adb_port`: on every loaded config, a successful port resolution publishes an `adb` port, so the lookup
`well_known(ports)["adb"]` of the backends never fails.
-/
import Beetroot.Ports

namespace Beetroot

open Lib

inductive Binder where
  | auto
  | host
  | vm
deriving DecidableEq, Repr

inductive Lifecycle where
  | ephemeral
  | durable
deriving DecidableEq, Repr

/-- exactly one of `url` and `path` is set -/
inductive ModuleSource where
  | url (url : String)
  | path (path : String)
deriving DecidableEq, Repr

/-- an entry of `modules:` -/
structure Module where
  source : ModuleSource
  sha256 : Option String := none
deriving DecidableEq, Repr

/-- `vm.accel` as configured -/
inductive Accel where
  | auto
  | kvm
  | tcg
deriving DecidableEq, Repr

/-- the `vm:` block; an unset `smp` is `"auto"` -/
structure Vm where
  kernel : Option String := none
  rootfs : Option String := none
  accel : Accel := .auto
  smp : Option Int := none
  memoryMib : Int := 8192
  bootCache : Bool := false
  smp_range : ∀ n ∈ smp, 1 ≤ n := by decide
  memory_range : 256 ≤ memoryMib := by decide
deriving DecidableEq

/-- no `vm:` block -/
def Vm.unset : Vm := {}

def serviceNames (ports : List PortMapping) : List String := ports.filterMap (·.service)

/-- `_check_ports_distinct`: service names, guest ports and explicit host ports are each pairwise distinct -/
def PortsDistinct (ports : List PortMapping) : Prop :=
  (serviceNames ports).Nodup ∧ (ports.map (·.guest)).Nodup ∧ (ports.filterMap (·.host)).Nodup

instance (ports : List PortMapping) : Decidable (PortsDistinct ports) := by unfold PortsDistinct; infer_instance

/-- `_check_required_addressing_services`: a well-known service keeps its guest port, `adb` is always mapped, and a
`frida:` block needs both frida services -/
def AddressingServices (ports : List PortMapping) (frida : Bool) : Prop :=
  (∀ m ∈ ports, ∀ w ∈ wellKnownServices, m.service = some w.1 → m.guest = w.2) ∧ "adb" ∈ serviceNames ports ∧
    (frida = true → "frida" ∈ serviceNames ports ∧ "frida_control" ∈ serviceNames ports)

instance (ports : List PortMapping) (frida : Bool) : Decidable (AddressingServices ports frida) := by
  unfold AddressingServices; infer_instance

structure InstanceConfig where
  ports : List PortMapping := defaultPortMappings
  binder : Binder := .auto
  frida : Bool := false
  vm : Vm := .unset
  lifecycle : Lifecycle := .durable
  modules : List Module := []
  /-- the fields that only `render_env` reads, as one text -/
  rest : String := ""
  distinct : PortsDistinct ports := by decide
  addressing : AddressingServices ports frida := by decide
deriving DecidableEq

/-- the configuration with all defaults -/
def InstanceConfig.plain : InstanceConfig := {}

/-- adb on a pinned host port, and nothing else published -/
def InstanceConfig.pinned (host : Int) (h : minPort ≤ host ∧ host ≤ maxPort) : InstanceConfig where
  ports := [.adb host h]
  distinct := by simp [PortsDistinct, serviceNames, PortMapping.adb]
  addressing := by simp [AddressingServices, serviceNames, wellKnownServices, PortMapping.adb]

/-- the same ports on the vm backend -/
def InstanceConfig.onVm (cfg : InstanceConfig) (kernel rootfs : String) (bootCache : Bool) : InstanceConfig :=
  { cfg with binder := .vm, vm := { kernel := some kernel, rootfs := some rootfs, bootCache := bootCache } }

/-- what `load_yaml` makes of a `beetroot.yaml` -/
inductive Yaml where
  | valid (cfg : InstanceConfig)
  /-- any failure other than that the file is not there, such as a `YAMLError` or a `ValidationError` -/
  | invalid
deriving DecidableEq

theorem mem_wellKnown_keys {resolved : List ResolvedPort} {rp : ResolvedPort} {n : String} (hr : rp ∈ resolved)
    (hn : rp.service = some n) (hw : n ∈ wellKnownServices.map Prod.fst) : n ∈ (wellKnown resolved).keys := by
  have hfold : ∀ (l : List (String × Int)) (d : Dict String Int), (n ∈ d.keys ∨ ∃ e ∈ l, e.1 = n) →
      n ∈ (l.foldl (fun d e => d.set e.1 e.2) d).keys := by
    intro l
    induction l with
    | nil => rintro d (h | ⟨e, he, -⟩); exacts [h, absurd he (by simp)]
    | cons e l ih =>
      intro d h
      apply ih
      rcases h with h | ⟨e', he', rfl⟩
      · exact Or.inl (Dict.mem_keys_set.2 (Or.inr h))
      · rcases List.mem_cons.1 he' with rfl | he'
        · exact Or.inl (Dict.mem_keys_set.2 (Or.inl rfl))
        · exact Or.inr ⟨e', he', rfl⟩
  refine hfold _ _ (Or.inr ⟨(n, rp.host), List.mem_filterMap.2 ⟨rp, hr, ?_⟩, rfl⟩)
  simp only [hn, Option.bind_some]; rw [if_pos hw]

/-- every loaded config that resolves has an `adb` port -/
theorem adb_port (cfg : InstanceConfig) {index : Int} {resolved : List ResolvedPort}
    (h : resolvePorts index cfg.ports = .ok resolved) : ∃ p, (wellKnown resolved).get? "adb" = some p := by
  obtain ⟨m, hm, hadb⟩ := List.mem_filterMap.1 cfg.addressing.2.1
  have hpair : (m.service, m.guest) ∈ resolved.map fun rp => (rp.service, rp.guest) := by
    rw [resolvePorts_shape h]; exact List.mem_map.2 ⟨m, hm, rfl⟩
  obtain ⟨rp, hrp, he⟩ := List.mem_map.1 hpair
  have hs : rp.service = some "adb" := by rw [← hadb]; exact (Prod.mk.inj he).1
  have hk := mem_wellKnown_keys hrp hs (by decide)
  exact Option.isSome_iff_exists.1 (Dict.get?_isSome.2 hk)

end Beetroot
