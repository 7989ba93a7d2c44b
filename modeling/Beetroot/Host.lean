/-
The host as the instance verbs see it: the registry and the file tree, and the cross-instance port scan
(`registry._resolved_host_ports_from`, `find_port_collision`) with local staging (`Instance._stage_local`).

The registry is its parsed data: `Registry.Linearize` shows that its operations take effect one at a time. A file of the tree
is a `beetroot.yaml` (as `load_yaml` reads it), a staged `compose.override.yaml` (its host and guest ports), or any other
file. `Path.resolve` enters as the parameter `Paths`: a fixed function (symbolic links do not change) that gives back the
resolved path from its own text.

Results:
- `findPortCollision_none`: no collision is found exactly when no host port is in a sibling's set;
- `rowHostPorts_resolved`: a sibling whose ports resolve contributes exactly these host ports;
- `stageLocal_ok`: what a successful staging has read and written.
-/
import Beetroot.Config
import Beetroot.Lib.Fs
import Beetroot.Registry.Store

namespace Beetroot

open Lib Lib.Fs

inductive FileBody where
  | yaml (y : Yaml)
  | override (published : List (Int × Int))
  | other
deriving DecidableEq

structure World (T : Type) where
  reg : RegistryFile T
  fs : FileTree FileBody

/-- `Path.resolve` and `str` of a resolved path -/
structure Paths where
  resolve : String → Path
  str : Path → String
  resolve_str : ∀ s, resolve (str (resolve s)) = resolve s

/-- a few absolute paths with their components -/
def Paths.sample : Paths where
  resolve s :=
    if s = "/srv/x" then ["srv", "x"] else if s = "/srv/x/sub" then ["srv", "x", "sub"]
    else if s = "/srv/y" then ["srv", "y"] else [s]
  str q :=
    if q = ["srv", "x"] then "/srv/x" else if q = ["srv", "x", "sub"] then "/srv/x/sub"
    else if q = ["srv", "y"] then "/srv/y" else q.headD ""
  resolve_str s := by
    by_cases h1 : s = "/srv/x"
    · subst h1; decide
    · by_cases h2 : s = "/srv/x/sub"
      · subst h2; decide
      · by_cases h3 : s = "/srv/y"
        · subst h3; decide
        · simp [h1, h2, h3]

variable {T : Type}

/-! ## Files of an instance -/

def instanceYaml (root : Path) : Path := root ++ ["beetroot.yaml"]

def instanceEnv (root : Path) : Path := root ++ [".env"]

def instanceComposeOverride (root : Path) : Path := root ++ ["compose.override.yaml"]

def instanceData (root : Path) : Path := root ++ ["data"]

def instanceModules (root : Path) : Path := root ++ ["modules"]

/-- `load_yaml` of an instance; `none` is a `FileNotFoundError` -/
def loadYaml (fs : FileTree FileBody) (root : Path) : Option Yaml :=
  match readFile fs (instanceYaml root) with
  | some (.yaml y) => some y
  | some _ => some .invalid
  -- `NotADirectoryError`, `IsADirectoryError`
  | none => if blocked fs (instanceYaml root) then some .invalid else none

theorem loadYaml_valid {fs : FileTree FileBody} {root : Path} {cfg : InstanceConfig} :
    loadYaml fs root = some (.valid cfg) ↔ readFile fs (instanceYaml root) = some (.yaml (.valid cfg)) := by
  unfold loadYaml
  split
  · simp_all
  · simp_all
  · split_ifs <;> simp_all

/-! ## The port scan -/

inductive ScanError where
  /-- `load_yaml` raised on a sibling's file -/
  | badYaml
  | port (e : PortError)

def strideHosts (index : Int) : Except ScanError (List Int) :=
  match portsForIndex index with
  | .ok ports => .ok (ports.map Prod.snd)
  | .error e => .error (.port e)

/-- one round of the loop of `_resolved_host_ports_from`; `.ok none` skips an orphan -/
def rowHostPorts (fs : FileTree FileBody) (p : Paths) (m : InstanceMeta T) : Except ScanError (Option (List Int)) :=
  match m.backend.absolutePath with
  | some root =>
    match loadYaml fs (p.resolve root) with
    | none => .ok none
    | some .invalid => .error .badYaml
    | some (.valid cfg) =>
      match resolvePorts m.index cfg.ports with
      | .ok resolved => .ok (some (resolved.map (·.host)))
      -- a config that cannot be resolved still protects its pinned ports and its stride defaults
      | .error _ => (strideHosts m.index).map fun hosts => some (cfg.ports.filterMap (·.host) ++ hosts)
  | none => (strideHosts m.index).map some

/-- `_resolved_host_ports_from` on one file tree -/
def resolvedHostPortsFrom (fs : FileTree FileBody) (p : Paths) :
    List (String × InstanceMeta T) → Except ScanError (List (String × List Int))
  | [] => .ok []
  | (name, m) :: rows => do
    let hosts ← rowHostPorts fs p m
    let rest ← resolvedHostPortsFrom fs p rows
    return match hosts with
      | some hs => (name, hs) :: rest
      | none => rest

/-- the first collision: the port, the sibling, and the service of the new entry -/
def findPortCollision (new : List ResolvedPort) (others : List (String × List Int)) :
    Option (Int × String × Option String) :=
  new.findSome? fun rp => (others.find? fun o => rp.host ∈ o.2).map fun o => (rp.host, o.1, rp.service)

theorem findPortCollision_none {new : List ResolvedPort} {others : List (String × List Int)} :
    findPortCollision new others = none ↔ ∀ rp ∈ new, ∀ o ∈ others, rp.host ∉ o.2 := by
  simp [findPortCollision, List.findSome?_eq_none_iff, List.find?_eq_none]

theorem rowHostPorts_resolved {fs : FileTree FileBody} {p : Paths} {m : InstanceMeta T} {root : String}
    {cfg : InstanceConfig} {resolved : List ResolvedPort} (hp : m.backend.absolutePath = some root)
    (hy : loadYaml fs (p.resolve root) = some (.valid cfg)) (hr : resolvePorts m.index cfg.ports = .ok resolved) :
    rowHostPorts fs p m = .ok (some (resolved.map (·.host))) := by
  simp only [rowHostPorts, hp, hy, hr]

/-! ## Local staging -/

inductive StageError where
  /-- the row disappeared from the registry -/
  | noRow
  | port (e : PortError)

/-- `render_compose_ports_override` -/
def renderComposePortsOverride (resolved : List ResolvedPort) : FileBody :=
  .override (resolved.map fun rp => (rp.host, rp.guest))

/-- `_stage_local`: the directories, `.env` and the override of the instance's ports (the Frida placeholder is left out) -/
def stageLocal (w : World T) (name : String) (root : Path) (cfg : InstanceConfig) : Except StageError (World T) :=
  match w.reg.instances.get? name with
  | none => .error .noRow
  | some m =>
    match resolvePorts m.index cfg.ports with
    | .error e => .error (.port e)
    | .ok resolved =>
      let fs := mkdirP (mkdirP w.fs (instanceData root)) (instanceModules root)
      let fs := writeFile fs (instanceEnv root) .other
      .ok { w with fs := writeFile fs (instanceComposeOverride root) (renderComposePortsOverride resolved) }

theorem stageLocal_ok {w w' : World T} {name : String} {root : Path} {cfg : InstanceConfig}
    (h : stageLocal w name root cfg = .ok w') : ∃ m resolved, w.reg.instances.get? name = some m ∧
      resolvePorts m.index cfg.ports = .ok resolved ∧ w'.reg = w.reg ∧
      ∀ q, readFile w'.fs q = if q = instanceComposeOverride root then some (renderComposePortsOverride resolved)
        else if q = instanceEnv root then some .other else readFile w.fs q := by
  unfold stageLocal at h
  split at h
  · cases h
  · rename_i m hm
    split at h
    · cases h
    · rename_i resolved hr
      simp only [Except.ok.injEq] at h
      subst h
      refine ⟨m, resolved, hm, hr, rfl, fun q => ?_⟩
      simp only [readFile_write, readFile_mkdirP]

/-- staging writes no `beetroot.yaml` -/
theorem readYaml_stageLocal {w w' : World T} {name : String} {root : Path} {cfg : InstanceConfig}
    (h : stageLocal w name root cfg = .ok w') (r : Path) : readFile w'.fs (instanceYaml r) = readFile w.fs (instanceYaml r) := by
  obtain ⟨m, resolved, -, -, -, hread⟩ := stageLocal_ok h
  have h1 : instanceYaml r ≠ instanceComposeOverride root := by
    intro he
    have := (List.append_inj' he rfl).2
    simp at this
  have h2 : instanceYaml r ≠ instanceEnv root := by
    intro he
    have := (List.append_inj' he rfl).2
    simp at this
  simp only [hread, if_neg h1, if_neg h2]

end Beetroot
