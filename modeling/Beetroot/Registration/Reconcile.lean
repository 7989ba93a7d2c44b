/-
Does `apply` bring the registry kind in line with the `binder` of the `beetroot.yaml`, whatever the network does?

The two backends order the parts of `apply` differently. `Instance.apply` stages, reconciles the kind and then fetches;
`VmDeviceBackend.apply` fetches the modules before it reconciles. `apply` here is the function of `Registration.Staging` with
its result: whether it returned, or which fetch failed.

Results:
- `applyRow_world`: the same function of the registry and the files as in `Registration.Staging`;
- `apply_reconciles_iff`: in every state of every run, after an `apply` whose ports resolve and pass the collision check the
  kind agrees with the `beetroot.yaml` if and only if the row was redroid, or the binder is vm, or the modules were fetched;
- `stranded_on_vm`: a run in which a failed fetch leaves the row on the vm backend.
-/
import Beetroot.Registration.Staging

namespace Beetroot.Reconcile

open Lib Lib.Fs Staging

variable {T : Type}

/-! ## `apply` -/

/-- which fetches go well -/
structure Fetches where
  frida : Bool
  modules : Bool

inductive ApplyError where
  /-- no such row, no usable `beetroot.yaml`, a port that does not resolve or collides -/
  | refused
  | fridaFetch
  | moduleFetch
deriving DecidableEq

/-- `reconcile_backend_kind` -/
def reconciled (w : World T) (name : String) (binder : Binder) : World T :=
  { w with reg := (reconcile w.reg name binder).getD w.reg }

/-- `Instance.apply` -/
def instanceApply (p : Paths) (w : World T) (name : String) (root : Path) (index : Int) (cfg : InstanceConfig) (f : Fetches) :
    Except ApplyError Unit × World T :=
  match checkedStage p w name root index cfg with
  | none => (.error .refused, w)
  | some w' =>
    if cfg.frida && !f.frida then (.error .fridaFetch, reconciled w' name cfg.binder)
    else if !f.modules then (.error .moduleFetch, reconciled w' name cfg.binder)
    else (.ok (), reconciled w' name cfg.binder)

/-- `VmDeviceBackend.apply`; frida is not staged for a vm -/
def vmApply (p : Paths) (w : World T) (name : String) (root : Path) (index : Int) (cfg : InstanceConfig) (f : Fetches) :
    Except ApplyError Unit × World T :=
  match checkedStage p w name root index cfg with
  | none => (.error .refused, w)
  | some w' => if !f.modules then (.error .moduleFetch, w') else (.ok (), reconciled w' name cfg.binder)

/-- `Manager.resolve(name).apply()` -/
def applyRow (p : Paths) (w : World T) (name : String) (f : Fetches) : Except ApplyError Unit × World T :=
  match w.reg.instances.get? name with
  | none => (.error .refused, w)
  | some m =>
    match m.backend with
    | .redroid path _ =>
      match loadYaml w.fs (p.resolve path) with
      | some (.valid cfg) => instanceApply p w name (p.resolve path) m.index cfg f
      | _ => (.error .refused, w)
    | .vm path =>
      match loadYaml w.fs (p.resolve path) with
      | some (.valid cfg) => vmApply p w name (p.resolve path) m.index cfg f
      | _ => (.error .refused, w)
    | _ => (.error .refused, w)

section World

variable (p : Paths) (w : World T) (name : String) (f : Fetches)

theorem instanceApply_world (root : Path) (index : Int) (cfg : InstanceConfig) :
    (instanceApply p w name root index cfg f).2 =
      match checkedStage p w name root index cfg with
      | none => w
      | some w' => reconciled w' name cfg.binder := by
  unfold instanceApply
  split
  · rfl
  · split_ifs <;> rfl

theorem vmApply_world (root : Path) (index : Int) (cfg : InstanceConfig) :
    (vmApply p w name root index cfg f).2 =
      match checkedStage p w name root index cfg with
      | none => w
      | some w' => if f.modules then reconciled w' name cfg.binder else w' := by
  unfold vmApply
  split
  · rfl
  · cases f.modules <;> rfl

theorem applyRow_world : (applyRow p w name f).2 = Staging.apply p w name f.modules := by
  unfold applyRow Staging.apply
  cases w.reg.instances.get? name with
  | none => rfl
  | some m =>
    cases hb : m.backend with
    | redroid path sp =>
      simp only [rootOf, hb, BackendConfig.absolutePath, Option.map_some]
      cases loadYaml w.fs (p.resolve path) with
      | none => rfl
      | some y =>
        cases y with
        | invalid => rfl
        | valid cfg =>
          simp only [instanceApply_world]
          cases checkedStage p w name (p.resolve path) m.index cfg <;> rfl
    | vm path =>
      simp only [rootOf, hb, BackendConfig.absolutePath, Option.map_some]
      cases loadYaml w.fs (p.resolve path) with
      | none => rfl
      | some y =>
        cases y with
        | invalid => rfl
        | valid cfg =>
          simp only [vmApply_world]
          cases checkedStage p w name (p.resolve path) m.index cfg with
          | none => rfl
          | some w' => cases f.modules <;> rfl
    | adb serial => simp only [rootOf, hb, BackendConfig.absolutePath, Option.map_none]
    | unresolved raw => simp only [rootOf, hb, BackendConfig.absolutePath, Option.map_none]

end World

/-! ## The kind of the row -/

def isVm : BackendConfig → Bool
  | .vm _ => true
  | _ => false

/-- the row has kept its index and directory, and `Manager.resolve` dispatches on it as the `beetroot.yaml` says -/
def InLine (p : Paths) (w : World T) (name : String) (m : InstanceMeta T) (cfg : InstanceConfig) : Prop :=
  ∃ m', w.reg.instances.get? name = some m' ∧ m'.index = m.index ∧ m'.backend.absolutePath = m.backend.absolutePath ∧
    (∀ root ∈ rootOf p m', loadYaml w.fs root = some (.valid cfg)) ∧ (isVm m'.backend = true ↔ cfg.binder = .vm)

section Kind

variable {p : Paths} {w : World T} {name : String} {m : InstanceMeta T} {cfg : InstanceConfig}

/-- reconciling a directory-backed row -/
theorem inLine_reconciled {root : Path} (hm : w.reg.instances.get? name = some m) (hroot : rootOf p m = some root)
    (hy : loadYaml w.fs root = some (.valid cfg)) : InLine p (reconciled w name cfg.binder) name m cfg := by
  unfold rootOf at hroot
  have hyaml : ∀ b : BackendConfig, b.absolutePath = m.backend.absolutePath →
      ∀ r ∈ rootOf p { m with backend := b }, loadYaml w.fs r = some (.valid cfg) := by
    intro b hb r hr
    unfold rootOf at hr
    rw [hb, hroot] at hr
    cases hr
    exact hy
  cases hb : m.backend with
  | redroid path sp =>
    by_cases hv : cfg.binder = .vm
    · refine ⟨{ m with backend := .vm path }, ?_, rfl, by rw [hb]; rfl, hyaml _ (by rw [hb]; rfl), by simp [isVm, hv]⟩
      simp only [reconciled, reconcile, hm, hb, hv, if_true, Option.getD_some, Dict.get?_set]
    · refine ⟨m, ?_, rfl, by rw [hb], hyaml m.backend rfl, by simp [isVm, hb, hv]⟩
      simp only [reconciled, reconcile, hm, hb, hv, if_false, Option.getD_none]
  | vm path =>
    by_cases hv : cfg.binder = .vm
    · refine ⟨m, ?_, rfl, by rw [hb], hyaml m.backend rfl, by simp [isVm, hb, hv]⟩
      simp only [reconciled, reconcile, hm, hb, hv, if_true, Option.getD_none]
    · refine ⟨{ m with backend := .redroid path ∅ }, ?_, rfl, by rw [hb]; rfl, hyaml _ (by rw [hb]; rfl), by simp [isVm, hv]⟩
      simp only [reconciled, reconcile, hm, hb, hv, if_false, Option.getD_some, Dict.get?_set, if_true]
  | adb serial => rw [hb] at hroot; cases hroot
  | unresolved raw => rw [hb] at hroot; cases hroot

/-- a checked staging goes through, and leaves the registry and every `beetroot.yaml` alone -/
theorem checkedStage_of (root : Path) {ports : List ResolvedPort} (hm : w.reg.instances.get? name = some m)
    (hports : resolvePorts m.index cfg.ports = .ok ports) (hfree : noPortCollision p w name ports = true) :
    ∃ w', checkedStage p w name root m.index cfg = some w' ∧ w'.reg = w.reg ∧
      ∀ r, readFile w'.fs (instanceYaml r) = readFile w.fs (instanceYaml r) := by
  have hstage : ∃ w', stageLocal w name root cfg = .ok w' := by
    simp only [stageLocal, hm, hports]
    exact ⟨_, rfl⟩
  obtain ⟨w', hw'⟩ := hstage
  obtain ⟨-, -, -, -, hreg, -⟩ := stageLocal_ok hw'
  refine ⟨w', ?_, hreg, readYaml_stageLocal hw'⟩
  simp only [checkedStage, hports, hfree, if_true, hw']

end Kind

/-- In every state of every run, whatever the fetches do: after the `apply` of a directory-backed row whose ports resolve and
pass the collision check, the row has its index and directory and the kind of its `beetroot.yaml`, if and only if it was a
redroid row, or the binder is vm, or the modules were fetched. -/
theorem apply_reconciles_iff (p : Paths) (w₀ : World T) (ops : List (Staging.Op T)) (name : String) (f : Fetches)
    (m : InstanceMeta T) (root : Path) (cfg : InstanceConfig) (ports : List ResolvedPort)
    (hm : (ops.foldl (Staging.step p) w₀).reg.instances.get? name = some m) (hroot : rootOf p m = some root)
    (hy : loadYaml (ops.foldl (Staging.step p) w₀).fs root = some (.valid cfg))
    (hports : resolvePorts m.index cfg.ports = .ok ports)
    (hfree : noPortCollision p (ops.foldl (Staging.step p) w₀) name ports = true) :
    InLine p (applyRow p (ops.foldl (Staging.step p) w₀) name f).2 name m cfg ↔
      isVm m.backend = false ∨ cfg.binder = .vm ∨ f.modules = true := by
  revert hm hy hfree
  generalize ops.foldl (Staging.step p) w₀ = w
  intro hm hy hfree
  obtain ⟨w', hstage, hreg, hyaml⟩ := checkedStage_of root hm hports hfree
  have hm' : w'.reg.instances.get? name = some m := by rw [hreg]; exact hm
  have hy' : loadYaml w'.fs root = some (.valid cfg) := by
    rw [loadYaml_valid, hyaml]
    exact loadYaml_valid.1 hy
  have hline := inLine_reconciled hm' hroot hy'
  have happly : Staging.apply p w name f.modules =
      if isVm m.backend && !f.modules then w' else reconciled w' name cfg.binder := by
    simp only [Staging.apply, hm, hroot, hy, hstage]
    cases m.backend <;> cases f.modules <;> rfl
  rw [applyRow_world, happly]
  by_cases hvm : isVm m.backend = true
  · cases hmod : f.modules with
    | true =>
      simp only [Bool.not_true, Bool.and_false, Bool.false_eq_true, if_false, or_true, iff_true]
      exact hline
    | false =>
      -- the row is as it was: a vm row
      simp only [hvm, Bool.not_false, Bool.and_self, if_true, Bool.true_eq_false, false_or, or_false, Bool.false_eq_true]
      constructor
      · intro hline'
        obtain ⟨m', hget, -, -, -, hiff⟩ := hline'
        rw [hm'] at hget
        cases hget
        exact hiff.1 hvm
      · intro hbinder
        refine ⟨m, hm', rfl, rfl, fun r hr => ?_, by simp [hvm, hbinder]⟩
        rw [hroot] at hr
        cases hr
        exact hy'
  · rw [Bool.not_eq_true] at hvm
    refine iff_of_true ?_ (Or.inl hvm)
    rw [hvm, Bool.false_and, if_neg Bool.false_ne_true]
    exact hline

/-- the defaults, with a module to fetch -/
def withModule : InstanceConfig := { InstanceConfig.plain with modules := [⟨.url "https://example.com/mod.zip", none⟩] }

/-- a vm instance is edited to another binder -/
def edited : List (Staging.Op ℕ) :=
  [.create "alpha" "/srv/x" (withModule.onVm "bzImage" "rootfs.img" false) 0, .edit "alpha" (.valid withModule)]

def afterEdit : World ℕ := edited.foldl (Staging.step Paths.sample) ⟨∅, ∅⟩

/-- the row of `alpha` -/
def alphaRow : InstanceMeta ℕ := ⟨.vm "/srv/x", 0, 0⟩

theorem apply_reconciles_fetched :
    InLine Paths.sample (applyRow Paths.sample afterEdit "alpha" ⟨true, true⟩).2 "alpha" alphaRow withModule :=
  (apply_reconciles_iff Paths.sample ⟨∅, ∅⟩ edited "alpha" ⟨true, true⟩ alphaRow ["srv", "x"] withModule
    [⟨some "adb", 5555, 5555⟩, ⟨some "frida", 27042, 27042⟩, ⟨some "frida_control", 27043, 27043⟩] rfl rfl rfl rfl
    (by decide)).2 (by decide)

theorem stranded_on_vm :
    (applyRow Paths.sample afterEdit "alpha" ⟨true, false⟩).1 = .error .moduleFetch ∧
      ¬ InLine Paths.sample (applyRow Paths.sample afterEdit "alpha" ⟨true, false⟩).2 "alpha" alphaRow withModule := by
  refine ⟨rfl, ?_⟩
  rintro ⟨m', hget, -, -, -, hiff⟩
  have hrow : (applyRow Paths.sample afterEdit "alpha" ⟨true, false⟩).2.reg.instances.get? "alpha" = some alphaRow := rfl
  rw [hrow] at hget
  cases hget
  exact absurd (hiff.1 rfl) (by decide)

end Beetroot.Reconcile
