/-
Do the staged `compose.override.yaml` files of registered instances stay disjoint?

`create`, `apply` and the self-heal of `up` resolve the instance's ports, compare them with the ports that the siblings' current
`beetroot.yaml` files reserve, and write the override. The siblings' overrides are not looked at. A sibling whose
`beetroot.yaml` was edited since its last `apply` may still publish a port that its file no longer reserves.

The verbs run one after the other, each as a whole. `edit` replaces an instance's `beetroot.yaml` by anything; `lose` deletes
its override (what makes `up` heal). A failing verb keeps what it has done, as in the source.

Results:
- `create_run`: `create` here is the machine of `Registration.Machine` run alone;
- `staged_disjoint`: in every run in which each staging verb finds every sibling's staged ports reserved by the sibling's
  current `beetroot.yaml`, the staged host ports of any two registered instances are disjoint;
- `staged_port_twice`: a run in which two instances have one host port staged.
-/
import Beetroot.Registration.Overlap
import Mathlib.Logic.Relation

namespace Beetroot.Staging

open Lib Lib.Fs Registration Registration.Overlap

variable {T : Type}

/-! ## The verbs -/

/-- `assert_no_port_collision` passes -/
def noPortCollision (p : Paths) (w : World T) (name : String) (ports : List ResolvedPort) : Bool :=
  match resolvedHostPortsFrom w.fs p w.reg.instances.entries with
  | .ok siblings => (findPortCollision ports (siblings.filter fun e => e.1 ≠ name)).isNone
  | .error _ => false

/-- resolve, check, stage: the common part of `create`, `apply` and the self-heal -/
def checkedStage (p : Paths) (w : World T) (name : String) (root : Path) (index : Int) (cfg : InstanceConfig) :
    Option (World T) :=
  match resolvePorts index cfg.ports with
  | .error _ => none
  | .ok ports =>
    if noPortCollision p w name ports then
      match stageLocal w name root cfg with
      | .ok w' => some w'
      | .error _ => none
    else none

/-- the row's directory -/
def rootOf (p : Paths) (m : InstanceMeta T) : Option Path := m.backend.absolutePath.map p.resolve

def create (p : Paths) (w : World T) (name path : String) (cfg : InstanceConfig) (now : T) : World T :=
  let target := p.resolve path
  if !nameOk name || Registration.registered w name || existsAt w.fs (instanceYaml target) ||
      overlapsRow p w target then w
  else
    let fs := writeFile (mkdirP w.fs target) (instanceYaml target) (.yaml (.valid cfg))
    match allocate w.reg name ((Call.create name path cfg now).backend p (some cfg)) now with
    | .error _ => { w with fs := fs }
    | .ok (index, reg) =>
      match checkedStage p ⟨reg, fs⟩ name target index cfg with
      | some w' => w'
      -- rollback: the row, and the directory if this call made it
      | none => ⟨⟨reg.instances.erase name⟩, if existsAt w.fs target then fs else Fs.rmtree fs target⟩

/-- `Instance.apply`, `VmDeviceBackend.apply`; the vm backend stages modules before it reconciles, and that may raise -/
def apply (p : Paths) (w : World T) (name : String) (modules : Bool) : World T :=
  match w.reg.instances.get? name with
  | none => w
  | some m =>
    match rootOf p m with
    | none => w
    | some root =>
      match loadYaml w.fs root with
      | some (.valid cfg) =>
        match checkedStage p w name root m.index cfg, m.backend, modules with
        | none, _, _ => w
        | some w', .vm _, false => w'
        | some w', _, _ => { w' with reg := (reconcile w'.reg name cfg.binder).getD w'.reg }
      | _ => w

/-- the override or the `.env` is missing -/
def needsHeal (w : World T) (root : Path) : Bool :=
  (readFile w.fs (instanceComposeOverride root)).isNone || (readFile w.fs (instanceEnv root)).isNone

/-- the directory that `up` would heal, with the row's index; the vm backend stages nothing -/
def healing (p : Paths) (w : World T) (name : String) : Option (Path × Int) :=
  match w.reg.instances.get? name with
  | none => none
  | some m =>
    match m.backend with
    | .redroid path _ => if needsHeal w (p.resolve path) then some (p.resolve path, m.index) else none
    | _ => none

/-- the part of `Instance.up` before compose -/
def up (p : Paths) (w : World T) (name : String) : World T :=
  match healing p w name with
  | none => w
  | some (root, index) =>
    match loadYaml w.fs root with
    | some (.valid cfg) => (checkedStage p w name root index cfg).getD w
    | _ => w

/-- a verb or a user's action on a registered instance -/
inductive Op (T : Type) where
  | create (name path : String) (cfg : InstanceConfig) (now : T)
  | edit (name : String) (y : Yaml)
  | lose (name : String)
  | apply (name : String) (modules : Bool)
  | up (name : String)
  | destroy (name : String)

/-- act on a registered instance's directory -/
def onRoot (p : Paths) (w : World T) (name : String) (f : Path → World T) : World T :=
  match (w.reg.instances.get? name).bind (rootOf p) with
  | some root => f root
  | none => w

def step (p : Paths) (w : World T) : Op T → World T
  | .create name path cfg now => create p w name path cfg now
  | .edit name y => onRoot p w name fun root => { w with fs := writeFile w.fs (instanceYaml root) (.yaml y) }
  | .lose name => onRoot p w name fun root => { w with fs := Fs.rmtree w.fs (instanceComposeOverride root) }
  | .apply name modules => apply p w name modules
  | .up name => up p w name
  | .destroy name =>
    onRoot p w name fun root => ⟨⟨w.reg.instances.erase name⟩, Fs.rmtree w.fs root⟩

/-! ## Staged ports -/

/-- the host ports in the staged override of a directory -/
def staged (fs : FileTree FileBody) (root : Path) : List Int :=
  match readFile fs (instanceComposeOverride root) with
  | some (.override published) => published.map Prod.fst
  | _ => []

/-- the host ports that the scan takes for a row -/
def reserved (p : Paths) (fs : FileTree FileBody) (m : InstanceMeta T) : List Int :=
  match rowHostPorts fs p m with
  | .ok (some hosts) => hosts
  | _ => []

/-- no host port is staged for two registered instances -/
def StagedDisjoint (p : Paths) (w : World T) : Prop :=
  ∀ e ∈ w.reg.instances.entries, ∀ f ∈ w.reg.instances.entries, e.1 ≠ f.1 →
    ∀ r ∈ rootOf p e.2, ∀ q ∈ rootOf p f.2, ∀ h ∈ staged w.fs r, h ∉ staged w.fs q

/-- every staged port of every other instance is reserved by its current `beetroot.yaml` -/
def SiblingsReserved (p : Paths) (w : World T) (name : String) : Prop :=
  ∀ e ∈ w.reg.instances.entries, e.1 ≠ name → ∀ r ∈ rootOf p e.2, ∀ h ∈ staged w.fs r, h ∈ reserved p w.fs e.2

/-- the verb stages nothing, or finds the staged ports of the others reserved -/
def Reserved (p : Paths) (w : World T) : Op T → Prop
  | .create name _ _ _ => SiblingsReserved p w name
  | .apply name _ => SiblingsReserved p w name
  | .up name => (healing p w name).isSome = true → SiblingsReserved p w name
  | _ => True

instance (p : Paths) (w : World T) : Decidable (StagedDisjoint p w) := by unfold StagedDisjoint; infer_instance

instance (p : Paths) (w : World T) (name : String) : Decidable (SiblingsReserved p w name) := by
  unfold SiblingsReserved; infer_instance

instance (p : Paths) (w : World T) (o : Op T) : Decidable (Reserved p w o) := by
  unfold Reserved; cases o <;> infer_instance

/-! ## Files that a verb leaves alone -/

section Frame

variable {fs : FileTree FileBody} {r t : Path}

theorem override_ne_yaml (r root : Path) : instanceComposeOverride r ≠ instanceYaml root := by
  intro h
  have := (List.append_inj' h rfl).2
  simp at this

theorem override_inj {r q : Path} (h : instanceComposeOverride r = instanceComposeOverride q) : r = q :=
  List.append_cancel_right h

/-- a tree that does not overlap a directory does not contain the directory's files -/
theorem not_under {x : String} (h : ¬ Overlaps t r) : ¬ t <+: r ++ [x] := by
  intro hp
  rcases List.prefix_concat_iff.1 hp with rfl | hp
  · exact h (Or.inr (List.prefix_append r [x]))
  · exact h (Or.inl hp)

theorem staged_congr {fs' : FileTree FileBody}
    (h : readFile fs' (instanceComposeOverride r) = readFile fs (instanceComposeOverride r)) : staged fs' r = staged fs r := by
  unfold staged; rw [h]

theorem staged_writeYaml (fs : FileTree FileBody) (root r : Path) (y : Yaml) :
    staged (writeFile fs (instanceYaml root) (.yaml y)) r = staged fs r :=
  staged_congr (by rw [readFile_write_ne (override_ne_yaml r root)])

theorem staged_rmtree (h : ¬ Overlaps t r) : staged (Fs.rmtree fs t) r = staged fs r := by
  have hu : ¬ t <+: instanceComposeOverride r := not_under h
  exact staged_congr (by rw [readFile_rmtree, if_neg hu])

theorem staged_mkdirP (fs : FileTree FileBody) (t r : Path) : staged (mkdirP fs t) r = staged fs r :=
  staged_congr (readFile_mkdirP fs t _)

end Frame

/-! ## The check -/

section Check

variable {p : Paths} {w w' : World T} {name : String} {root : Path} {index : Int} {cfg : InstanceConfig}

theorem resolvedHostPortsFrom_mem {fs : FileTree FileBody} {rows : List (String × InstanceMeta T)}
    {siblings : List (String × List Int)} (h : resolvedHostPortsFrom fs p rows = .ok siblings)
    {e : String × InstanceMeta T} (he : e ∈ rows) {hosts : List Int} (hr : rowHostPorts fs p e.2 = .ok (some hosts)) :
    (e.1, hosts) ∈ siblings := by
  induction rows generalizing siblings with
  | nil => exact absurd he List.not_mem_nil
  | cons x rows ih =>
    simp only [resolvedHostPortsFrom] at h
    cases hx : rowHostPorts fs p x.2 with
    | error e => rw [hx] at h; cases h
    | ok found =>
      cases hrest : resolvedHostPortsFrom fs p rows with
      | error e => rw [hx, hrest] at h; cases h
      | ok rest =>
        rw [hx, hrest] at h
        rcases List.mem_cons.1 he with rfl | he
        · rw [hx] at hr
          cases hr
          cases h
          exact List.mem_cons_self
        · have hmem := ih hrest he
          cases found with
          | none => cases h; exact hmem
          | some hs => cases h; exact List.mem_cons_of_mem _ hmem

/-- a passed check keeps the new ports away from everything the siblings reserve -/
theorem noPortCollision_reserved {ports : List ResolvedPort} (h : noPortCollision p w name ports = true)
    {e : String × InstanceMeta T} (he : e ∈ w.reg.instances.entries) (hne : e.1 ≠ name) :
    ∀ rp ∈ ports, rp.host ∉ reserved p w.fs e.2 := by
  intro rp hrp hmem
  unfold noPortCollision at h
  cases hs : resolvedHostPortsFrom w.fs p w.reg.instances.entries with
  | error x => rw [hs] at h; cases h
  | ok siblings =>
    rw [hs] at h
    have hnone := findPortCollision_none.1 (Option.isNone_iff_eq_none.1 h) rp hrp
    unfold reserved at hmem
    split at hmem
    · rename_i hosts hr
      refine hnone _ (List.mem_filter.2 ⟨resolvedHostPortsFrom_mem hs he hr, ?_⟩) hmem
      simpa using hne
    · exact absurd hmem List.not_mem_nil

theorem checkedStage_some (h : checkedStage p w name root index cfg = some w') :
    ∃ ports, resolvePorts index cfg.ports = .ok ports ∧ noPortCollision p w name ports = true ∧
      stageLocal w name root cfg = .ok w' := by
  unfold checkedStage at h
  split at h
  · cases h
  · rename_i ports hp
    split_ifs at h with hc
    cases hs : stageLocal w name root cfg with
    | error e => rw [hs] at h; cases h
    | ok x => rw [hs] at h; cases h; exact ⟨ports, hp, hc, rfl⟩

/-- the staging step: the rows of the others are disjoint among themselves, their staged ports are reserved, and the new
override keeps away from what is reserved -/
theorem staged_checked {m : InstanceMeta T} (hapart : Apart p w.reg) (hm : w.reg.instances.get? name = some m)
    (hindex : m.index = index) (hroot : rootOf p m = some root)
    (hothers : ∀ e ∈ w.reg.instances.entries, ∀ f ∈ w.reg.instances.entries, e.1 ≠ name → f.1 ≠ name → e.1 ≠ f.1 →
      ∀ r ∈ rootOf p e.2, ∀ q ∈ rootOf p f.2, ∀ h ∈ staged w.fs r, h ∉ staged w.fs q)
    (hres : SiblingsReserved p w name) (h : checkedStage p w name root index cfg = some w') :
    w'.reg = w.reg ∧ StagedDisjoint p w' := by
  obtain ⟨ports, hports, hcheck, hstage⟩ := checkedStage_some h
  obtain ⟨m', resolved, hm', hresolved, hreg, hread⟩ := stageLocal_ok hstage
  rw [hm] at hm'
  cases hm'
  rw [hindex, hports] at hresolved
  cases hresolved
  have hmem := Dict.get?_eq_some.1 hm
  -- the override of the staged row, and of every other row
  have hnew : staged w'.fs root = ports.map (·.host) := by
    simp [staged, hread, renderComposePortsOverride]
  have hold : ∀ e ∈ w.reg.instances.entries, e.1 ≠ name → ∀ r ∈ rootOf p e.2, staged w'.fs r = staged w.fs r := by
    intro e he hne r hr
    have hrr : r ≠ root := by
      rintro rfl
      obtain ⟨a, ha, hra⟩ := Option.map_eq_some_iff.1 hr
      obtain ⟨b, hb, hrb⟩ := Option.map_eq_some_iff.1 hroot
      exact hapart e he _ hmem hne a ha b hb (by rw [hra, hrb]; exact overlaps_refl _)
    refine staged_congr ?_
    rw [hread, if_neg fun hx => hrr (override_inj hx)]
    rw [if_neg]
    intro hx
    have := (List.append_inj' hx rfl).2
    simp at this
  have hname : ∀ e ∈ w.reg.instances.entries, e.1 = name → ∀ r ∈ rootOf p e.2, r = root := by
    intro e he hn r hr
    obtain ⟨n, v⟩ := e
    cases hn
    rw [w.reg.instances.eq_of_mem he hmem] at hr
    exact Option.some.inj ((Option.mem_def.1 hr).symm.trans hroot)
  -- a port of the new override is not staged for another row
  have hsep : ∀ e ∈ w.reg.instances.entries, e.1 ≠ name → ∀ r ∈ rootOf p e.2, ∀ x ∈ staged w.fs r,
      x ∉ ports.map (·.host) := by
    intro e he hne r hr x hx hxp
    obtain ⟨rp, hrp, rfl⟩ := List.mem_map.1 hxp
    exact noPortCollision_reserved hcheck he hne rp hrp (hres e he hne r hr _ hx)
  refine ⟨hreg, fun e he f hf hef r hr q hq x hx hxq => ?_⟩
  rw [hreg] at he hf
  by_cases hen : e.1 = name
  · rw [hname e he hen r hr, hnew] at hx
    have hfn : f.1 ≠ name := fun hfn => hef (hen.trans hfn.symm)
    rw [hold f hf hfn q hq] at hxq
    exact hsep f hf hfn q hq x hxq hx
  · rw [hold e he hen r hr] at hx
    by_cases hfn : f.1 = name
    · rw [hname f hf hfn q hq, hnew] at hxq
      exact hsep e he hen r hr x hx hxq
    · rw [hold f hf hfn q hq] at hxq
      exact hothers e he f hf hen hfn hef r hr q hq x hx hxq

end Check

/-! ## `create` is the machine run alone -/

section Alone

variable {p : Paths} {c : Call T}

/-- some steps of call `c`, made one after the other, lead from one point to the other -/
def Leads (p : Paths) (c : Call T) : World T × Pc T → World T × Pc T → Prop :=
  Relation.ReflTransGen fun x y => y = next p c x.1 x.2

theorem Leads.after {w : World T} {pc : Pc T} {y : World T × Pc T} (h : Leads p c (next p c w pc) y) :
    Leads p c (w, pc) y :=
  Relation.ReflTransGen.head rfl h

/-- the scan of the siblings, row by row -/
theorem leads_scan (w : World T) (o : Own) (cfg : InstanceConfig) (ports : List ResolvedPort)
    (pending : List (String × InstanceMeta T)) (others : List (String × List Int)) :
    (∀ rest, resolvedHostPortsFrom w.fs p pending = .ok rest →
      Leads p c (w, .scan o cfg ports pending others) (w, .scan o cfg ports [] (others ++ rest))) ∧
    (∀ x, resolvedHostPortsFrom w.fs p pending = .error x →
      Leads p c (w, .scan o cfg ports pending others) (w, .rollback o.created)) := by
  induction pending generalizing others with
  | nil =>
    refine ⟨fun rest h => ?_, fun x h => by cases h⟩
    cases h
    rw [List.append_nil]
    exact Relation.ReflTransGen.refl
  | cons e pending ih =>
    cases he : rowHostPorts w.fs p e.2 with
    | error x =>
      refine ⟨fun rest h => ?_, fun x h => Leads.after ?_⟩
      · simp only [resolvedHostPortsFrom, he] at h
        cases h
      · simp only [next, he]
        exact Relation.ReflTransGen.refl
    | ok found =>
      -- what this round appends
      have hstep : next p c w (.scan o cfg ports (e :: pending) others) =
          (w, .scan o cfg ports pending (others ++ (found.map fun hosts => (e.1, hosts)).toList)) := by
        cases found <;> simp [next, he]
      obtain ⟨hok, herr⟩ := ih (others ++ (found.map fun hosts => (e.1, hosts)).toList)
      cases hr : resolvedHostPortsFrom w.fs p pending with
      | error x =>
        refine ⟨fun rest h => ?_, fun x' h => Leads.after ?_⟩
        · simp only [resolvedHostPortsFrom, he, hr] at h
          cases h
        · rw [hstep]
          exact herr x hr
      | ok rest' =>
        refine ⟨fun rest h => Leads.after ?_, fun x h => ?_⟩
        · have hrest : rest = (found.map fun hosts => (e.1, hosts)).toList ++ rest' := by
            simp only [resolvedHostPortsFrom, he, hr] at h
            cases found <;> cases h <;> rfl
          rw [hstep, hrest, ← List.append_assoc]
          exact hok rest' hr
        · simp only [resolvedHostPortsFrom, he, hr] at h
          cases h

/-- the scan ends in front of the staging step, or in front of the rollback -/
theorem leads_checked (w : World T) (o : Own) (cfg : InstanceConfig) (ports : List ResolvedPort) :
    Leads p c (w, .scan o cfg ports w.reg.instances.entries [])
      (w, if noPortCollision p w c.name ports then .stage o cfg ports else .rollback o.created) := by
  obtain ⟨hok, herr⟩ := leads_scan (p := p) (c := c) w o cfg ports w.reg.instances.entries []
  unfold noPortCollision
  cases hs : resolvedHostPortsFrom w.fs p w.reg.instances.entries with
  | error x => exact herr x hs
  | ok siblings =>
    refine (hok siblings hs).trans (Leads.after ?_)
    simp only [next, List.nil_append]
    exact Relation.ReflTransGen.refl

/-- from the port resolution on, `create` stages and ends, or comes to its rollback -/
theorem leads_resolve (w : World T) (o : Own) (name path : String) (cfg : InstanceConfig) (now : T) :
    (∀ w', checkedStage p w name (p.resolve path) o.index cfg = some w' →
      ∃ ports, Leads p (.create name path cfg now) (w, .resolve o cfg) (w', .done o cfg ports)) ∧
    (checkedStage p w name (p.resolve path) o.index cfg = none →
      Leads p (.create name path cfg now) (w, .resolve o cfg) (w, .rollback o.created)) := by
  unfold checkedStage
  cases hr : resolvePorts o.index cfg.ports with
  | error x =>
    refine ⟨fun w' h => (by cases h), fun _ => Leads.after ?_⟩
    simp only [next, hr]
    exact Relation.ReflTransGen.refl
  | ok ports =>
    have hscan : Leads p (.create name path cfg now) (w, .resolve o cfg)
        (w, if noPortCollision p w name ports then .stage o cfg ports else .rollback o.created) := by
      refine Leads.after ?_
      simp only [next, hr]
      exact Leads.after (leads_checked w o cfg ports)
    cases hc : noPortCollision p w name ports with
    | false =>
      rw [hc] at hscan
      exact ⟨fun w' h => (by simp [hc] at h), fun _ => hscan⟩
    | true =>
      rw [hc, if_pos rfl] at hscan
      cases hw : stageLocal w name (p.resolve path) cfg with
      | error x =>
        refine ⟨fun w' h => (by simp [hc] at h), fun _ => hscan.trans (Leads.after ?_)⟩
        simp only [next, Call.staged, Call.name, Call.target, Call.path, hw]
        exact Relation.ReflTransGen.refl
      | ok w'' =>
        refine ⟨fun w' h => ⟨ports, hscan.trans (Leads.after ?_)⟩, fun h => (by simp [hc] at h)⟩
        simp only [hc, if_true, Option.some.injEq] at h
        simp only [next, Call.staged, Call.name, Call.target, Call.path, hw, h]
        exact Relation.ReflTransGen.refl

/-- the call has returned or raised -/
def ended : Pc T → Bool
  | .done _ _ _ | .failed => true
  | _ => false

/-- run alone, the statements of `Instance.create` lead to the end of the call in the world that `create` computes -/
theorem create_run (w : World T) (name path : String) (cfg : InstanceConfig) (now : T) :
    ∃ pc, ended pc = true ∧
      Leads p (.create name path cfg now) (w, .begin) (create p w name path cfg now, pc) := by
  have stop : ∀ {w' : World T}, Leads p (.create name path cfg now) (w', .failed) (w', .failed) :=
    Relation.ReflTransGen.refl
  unfold create
  cases hn : nameOk name && !Registration.registered w name with
  | false =>
    refine ⟨.failed, rfl, Leads.after ?_⟩
    have hr : (!nameOk name || Registration.registered w name) = true := by
      cases h1 : nameOk name <;> cases h2 : Registration.registered w name <;> simp_all
    simp only [next, hn, hr, Bool.true_or, if_true]
    exact stop
  | true =>
    obtain ⟨h1, h2⟩ := Bool.and_eq_true_iff.1 hn
    rw [Bool.not_eq_true'] at h2
    have hbegin : ∀ y, Leads p (.create name path cfg now) (w, .yamlExists) y →
        Leads p (.create name path cfg now) (w, .begin) y := by
      intro y hy
      refine Leads.after ?_
      simp only [next, hn, if_true]
      exact hy
    cases hy : existsAt w.fs (instanceYaml (p.resolve path)) with
    | true =>
      refine ⟨.failed, rfl, hbegin _ (Leads.after ?_)⟩
      simp only [next, Call.target, Call.path, hy, if_true, Bool.or_true, Bool.true_or]
      exact stop
    | false =>
      cases ho : overlapsRow p w (p.resolve path) with
      | true =>
        refine ⟨.failed, rfl, hbegin _ (Leads.after ?_)⟩
        simp only [next, Call.target, Call.path, hy, Bool.false_eq_true, if_false]
        refine Leads.after ?_
        simp only [next, Call.target, Call.path, ho, if_true, Bool.or_true]
        exact stop
      | false =>
        -- the checks have passed: directory, file, row
        have halloc : ∀ y, Leads p (.create name path cfg now)
            (⟨w.reg, writeFile (mkdirP w.fs (p.resolve path)) (instanceYaml (p.resolve path)) (.yaml (.valid cfg))⟩,
              .alloc (!existsAt w.fs (p.resolve path)) (some cfg)) y →
            Leads p (.create name path cfg now) (w, .begin) y := by
          intro y hl
          refine hbegin _ (Leads.after ?_)
          simp only [next, Call.target, Call.path, hy, Bool.false_eq_true, if_false]
          refine Leads.after ?_
          simp only [next, Call.target, Call.path, ho, Bool.false_eq_true, if_false]
          exact Leads.after (Leads.after (Leads.after hl))
        simp only [h1, h2, hy, ho, Bool.not_true, Bool.or_false, Bool.false_eq_true, if_false]
        cases ha : allocate w.reg name ((Call.create name path cfg now).backend p (some cfg)) now with
        | error x =>
          refine ⟨.failed, rfl, halloc _ (Leads.after ?_)⟩
          simp only [next, Call.name, Call.now, ha]
          exact stop
        | ok x =>
          have hrow : ∀ y, Leads p (.create name path cfg now)
              (⟨x.2, writeFile (mkdirP w.fs (p.resolve path)) (instanceYaml (p.resolve path)) (.yaml (.valid cfg))⟩,
                .resolve ⟨!existsAt w.fs (p.resolve path), x.1⟩ cfg) y →
              Leads p (.create name path cfg now) (w, .begin) y := by
            intro y hl
            refine halloc _ (Leads.after ?_)
            simp only [next, Call.name, Call.now, ha]
            exact hl
          obtain ⟨hsome, hnone⟩ := leads_resolve (p := p)
            ⟨x.2, writeFile (mkdirP w.fs (p.resolve path)) (instanceYaml (p.resolve path)) (.yaml (.valid cfg))⟩
            ⟨!existsAt w.fs (p.resolve path), x.1⟩ name path cfg now
          simp only
          cases hc : checkedStage p
            ⟨x.2, writeFile (mkdirP w.fs (p.resolve path)) (instanceYaml (p.resolve path)) (.yaml (.valid cfg))⟩ name
            (p.resolve path) x.1 cfg with
          | some w' =>
            obtain ⟨ports, hl⟩ := hsome w' hc
            exact ⟨_, rfl, hrow _ hl⟩
          | none =>
            refine ⟨.failed, rfl, hrow _ ((hnone hc).trans (Leads.after ?_))⟩
            cases hx : existsAt w.fs (p.resolve path) with
            | true => exact stop
            | false => exact Leads.after stop

end Alone

/-! ## The invariant -/

structure Inv (p : Paths) (w : World T) : Prop where
  dirs : Apart p w.reg
  staged : StagedDisjoint p w

section Step

variable {p : Paths} {w : World T}

theorem inv_empty (p : Paths) (fs : FileTree FileBody) : Inv p (⟨∅, fs⟩ : World T) :=
  ⟨fun _ he => absurd he List.not_mem_nil, fun _ he => absurd he List.not_mem_nil⟩

theorem roots_apart (h : Apart p w.reg) {e f : String × InstanceMeta T} (he : e ∈ w.reg.instances.entries)
    (hf : f ∈ w.reg.instances.entries) (hne : e.1 ≠ f.1) {r q : Path} (hr : r ∈ rootOf p e.2) (hq : q ∈ rootOf p f.2) :
    ¬ Overlaps r q := by
  obtain ⟨a, ha, rfl⟩ := Option.map_eq_some_iff.1 hr
  obtain ⟨b, hb, rfl⟩ := Option.map_eq_some_iff.1 hq
  exact h e he f hf hne a ha b hb

theorem root_free {target : Path} (h : FreeOf p w.reg target) {e : String × InstanceMeta T}
    (he : e ∈ w.reg.instances.entries) {r : Path} (hr : r ∈ rootOf p e.2) : ¬ Overlaps target r := by
  obtain ⟨a, ha, rfl⟩ := Option.map_eq_some_iff.1 hr
  exact fun ho => h e he a ha ho.symm

/-- fewer rows, over files whose overrides are the same, keep the invariant -/
theorem inv_of_subset {w' : World T} (h : Inv p w)
    (hrows : ∀ e ∈ w'.reg.instances.entries, e ∈ w.reg.instances.entries)
    (hfiles : ∀ e ∈ w'.reg.instances.entries, ∀ r ∈ rootOf p e.2, Staging.staged w'.fs r = Staging.staged w.fs r) :
    Inv p w' := by
  refine ⟨fun e he f hf => h.dirs e (hrows e he) f (hrows f hf), fun e he f hf hne r hr q hq => ?_⟩
  rw [hfiles e he r hr, hfiles f hf q hq]
  exact h.staged e (hrows e he) f (hrows f hf) hne r hr q hq

/-- a change of backend that keeps the directory keeps the invariant -/
theorem inv_reconcile (h : Inv p w) (name : String) (binder : Binder) :
    Inv p { w with reg := (reconcile w.reg name binder).getD w.reg } := by
  cases hr : reconcile w.reg name binder with
  | none => exact h
  | some d =>
    obtain ⟨m, b, hm, -, hb, rfl⟩ := reconcile_some hr
    have hmem := Dict.get?_eq_some.1 hm
    -- every row was there before, with the same directory
    have hold : ∀ e ∈ (w.reg.instances.set name { m with backend := b }).entries,
        ∃ m', (e.1, m') ∈ w.reg.instances.entries ∧ e.2.backend.absolutePath = m'.backend.absolutePath := by
      intro e he
      rcases Dict.mem_set.1 he with rfl | ⟨he, -⟩
      · exact ⟨m, hmem, hb⟩
      · exact ⟨e.2, he, rfl⟩
    refine ⟨fun e he f hf hne => ?_, fun e he f hf hne r hr' q hq => ?_⟩
    · obtain ⟨me, hme, hbe⟩ := hold e he
      obtain ⟨mf, hmf, hbf⟩ := hold f hf
      rw [hbe, hbf]
      exact h.dirs _ hme _ hmf hne
    · obtain ⟨me, hme, hbe⟩ := hold e he
      obtain ⟨mf, hmf, hbf⟩ := hold f hf
      have er : rootOf p e.2 = rootOf p me := by unfold rootOf; rw [hbe]
      have ef : rootOf p f.2 = rootOf p mf := by unfold rootOf; rw [hbf]
      rw [er] at hr'; rw [ef] at hq
      exact h.staged _ hme _ hmf hne r hr' q hq

theorem inv_apply (h : Inv p w) (name : String) (modules : Bool) (hres : SiblingsReserved p w name) :
    Inv p (apply p w name modules) := by
  unfold apply
  split
  · exact h
  · rename_i m hm
    split
    · exact h
    · rename_i root hroot
      split
      · rename_i cfg _
        have hstaged : ∀ w', checkedStage p w name root m.index cfg = some w' → Inv p w' := by
          intro w' hs
          obtain ⟨hreg, hst⟩ := staged_checked h.dirs hm rfl hroot
            (fun e he f hf _ _ hne => h.staged e he f hf hne) hres hs
          exact ⟨by rw [hreg]; exact h.dirs, hst⟩
        split
        · exact h
        · rename_i w' _ hs _
          exact hstaged w' hs
        · rename_i w' hs _
          exact inv_reconcile (hstaged w' hs) name cfg.binder
      · exact h

theorem healing_some {name : String} {root : Path} {index : Int} (h : healing p w name = some (root, index)) :
    ∃ m, w.reg.instances.get? name = some m ∧ m.index = index ∧ rootOf p m = some root := by
  unfold healing at h
  split at h
  · cases h
  · rename_i m hm
    split at h
    · rename_i path sp hb
      split_ifs at h
      cases h
      exact ⟨m, hm, rfl, by simp [rootOf, hb, BackendConfig.absolutePath]⟩
    · cases h

theorem inv_up (h : Inv p w) (name : String)
    (hres : (healing p w name).isSome = true → SiblingsReserved p w name) : Inv p (up p w name) := by
  unfold up
  cases hh : healing p w name with
  | none => exact h
  | some x =>
    obtain ⟨m, hm, hi, hroot⟩ := healing_some hh
    simp only
    split
    · rename_i cfg _
      cases hs : checkedStage p w name x.1 x.2 cfg with
      | none => exact h
      | some w' =>
        obtain ⟨hreg, hst⟩ := staged_checked h.dirs hm hi hroot
          (fun e he f hf _ _ hne => h.staged e he f hf hne) (hres (by rw [hh]; rfl)) hs
        exact ⟨by rw [Option.getD_some, hreg]; exact h.dirs, hst⟩
    · exact h

theorem reserved_congr {fs fs' : FileTree FileBody} {m : InstanceMeta T}
    (h : ∀ r ∈ rootOf p m, loadYaml fs' r = loadYaml fs r) : reserved p fs' m = reserved p fs m := by
  have hrow : rowHostPorts fs' p m = rowHostPorts fs p m := by
    unfold rowHostPorts
    cases hb : m.backend.absolutePath with
    | none => rfl
    | some root => simp only [h (p.resolve root) (by simp [rootOf, hb])]
  unfold reserved; rw [hrow]

/-- the files of `create` before its row: the directory and its `beetroot.yaml` -/
theorem staged_created (fs : FileTree FileBody) (target r : Path) (y : Yaml) :
    Staging.staged (writeFile (mkdirP fs target) (instanceYaml target) (.yaml y)) r = Staging.staged fs r := by
  rw [staged_writeYaml, staged_mkdirP]

/-- a file or a directory that gets in the way of `r` would make the two directories overlap -/
theorem blocked_created {fs : FileTree FileBody} {target r : Path} {y : Yaml} (h : ¬ Overlaps target r) :
    blocked (writeFile (mkdirP fs target) (instanceYaml target) (.yaml y)) (instanceYaml r) = blocked fs (instanceYaml r) := by
  have hup : ∀ q, q <+: instanceYaml r → q ≠ instanceYaml target := by
    intro q hq he
    subst he
    rcases List.prefix_concat_iff.1 hq with heq | hpre
    · rw [List.append_cancel_right heq] at h
      exact h (overlaps_refl _)
    · exact h (Or.inl ((List.prefix_append _ _).trans hpre))
  have hdown : ∀ q, instanceYaml r <+: q → q ≠ instanceYaml target ∧ ¬ q <+: target := by
    intro q hq
    have hr : r <+: q := (List.prefix_append _ _).trans hq
    refine ⟨fun he => ?_, fun hpre => h (Or.inr (hr.trans hpre))⟩
    subst he
    rcases List.prefix_concat_iff.1 hq with heq | hpre
    · exact hup _ (List.prefix_refl _) heq
    · exact h (Or.inr ((List.prefix_append _ _).trans hpre))
  refine blocked_congr (fun q hq => ?_) fun q hq => ?_
  · rw [readFile_write_ne (hup q hq), readFile_mkdirP]
  · rw [get?_write, if_neg (hdown q hq).1, get?_mkdirP (hdown q hq).2]

theorem loadYaml_created {fs : FileTree FileBody} {target r : Path} {y : Yaml} (h : ¬ Overlaps target r) :
    loadYaml (writeFile (mkdirP fs target) (instanceYaml target) (.yaml y)) r = loadYaml fs r := by
  have hne : instanceYaml r ≠ instanceYaml target := by
    intro he
    rw [List.append_cancel_right he] at h
    exact h (overlaps_refl _)
  unfold loadYaml
  rw [readFile_write_ne hne, readFile_mkdirP, blocked_created h]

/-- a new row for a directory that no row overlaps -/
theorem apart_set {d : RegistryFile T} (h : Apart p d) {name : String} {m : InstanceMeta T} {root : String}
    (hm : m.backend.absolutePath = some root) (hf : FreeOf p d (p.resolve root)) :
    Apart p ⟨d.instances.set name m⟩ := by
  intro e he f hf' hne r hr q hq
  rcases Dict.mem_set.1 he with rfl | ⟨he, -⟩
  · rcases Dict.mem_set.1 hf' with rfl | ⟨hf', -⟩
    · exact absurd rfl hne
    · rw [hm] at hr
      cases hr
      exact fun ho => hf f hf' q hq ho.symm
  · rcases Dict.mem_set.1 hf' with rfl | ⟨hf', -⟩
    · rw [hm] at hq
      cases hq
      exact hf e he r hr
    · exact h e he f hf' hne r hr q hq

theorem inv_create (h : Inv p w) (name path : String) (cfg : InstanceConfig) (now : T)
    (hres : SiblingsReserved p w name) : Inv p (create p w name path cfg now) := by
  unfold create
  simp only
  split
  · exact h
  · rename_i hrefused
    simp only [Bool.or_eq_true, not_or, Bool.not_eq_true] at hrefused
    have hfree : FreeOf p w.reg (p.resolve path) := overlapsRow_false hrefused.2
    have hfiles : ∀ e ∈ w.reg.instances.entries, ∀ r ∈ rootOf p e.2, ¬ Overlaps (p.resolve path) r :=
      fun e he r hr => root_free hfree he hr
    split
    · exact inv_of_subset h (fun e he => he) fun e _ r _ => staged_created w.fs _ r _
    · rename_i i reg ha
      obtain ⟨hn, -, -, rfl⟩ := allocate_ok ha
      have hdir := backend_dir (p := p) (Call.create name path cfg now) (some cfg)
      have hrows : ∀ e ∈ (w.reg.instances.set name
          ⟨(Call.create name path cfg now).backend p (some cfg), i, now⟩).entries, e.1 ≠ name →
          e ∈ w.reg.instances.entries := by
        intro e he hne
        rcases Dict.mem_set.1 he with rfl | ⟨he, -⟩
        · exact absurd rfl hne
        · exact he
      split
      · rename_i w' hs
        have hroot : rootOf p (⟨(Call.create name path cfg now).backend p (some cfg), i, now⟩ : InstanceMeta T) =
            some (p.resolve path) := by
          simp only [rootOf, hdir, Option.map_some, Call.target, Call.path, p.resolve_str]
        have hapart : Apart p ⟨w.reg.instances.set name
            ⟨(Call.create name path cfg now).backend p (some cfg), i, now⟩⟩ := by
          refine apart_set h.dirs hdir ?_
          simpa only [Call.target, Call.path, p.resolve_str] using hfree
        have hget : (w.reg.instances.set name ⟨(Call.create name path cfg now).backend p (some cfg), i, now⟩).get? name =
            some ⟨(Call.create name path cfg now).backend p (some cfg), i, now⟩ := by
          rw [Dict.get?_set, if_pos rfl]
        obtain ⟨hreg, hst⟩ := staged_checked (w := ⟨_, _⟩) hapart hget rfl hroot
          (fun e he f hf hen hfn hne r hr q hq => by
            rw [staged_created, staged_created]
            exact h.staged e (hrows e he hen) f (hrows f hf hfn) hne r hr q hq)
          (fun e he hen r hr x hx => by
            have he' := hrows e he hen
            rw [staged_created] at hx
            rw [reserved_congr fun q hq => loadYaml_created (hfiles e he' q hq)]
            exact hres e he' hen r hr x hx) hs
        exact ⟨by rw [hreg]; exact hapart, hst⟩
      · refine inv_of_subset h (fun e he => ?_) fun e he r hr => ?_
        · obtain ⟨he, hne⟩ := Dict.mem_erase.1 he
          exact hrows e he hne
        · obtain ⟨he, hne⟩ := Dict.mem_erase.1 he
          have he' := hrows e he hne
          have hkept := staged_created w.fs (p.resolve path) r (.valid cfg)
          cases existsAt w.fs (p.resolve path) with
          | true => exact hkept
          | false => exact (staged_rmtree (hfiles e he' r hr)).trans hkept

/-- an action in the directory of one instance that leaves the overrides of the others alone, or only empties its own -/
theorem inv_onRoot (h : Inv p w) (name : String) {f : Path → World T} (hf : ∀ root, Inv p w → (∃ m,
      w.reg.instances.get? name = some m ∧ rootOf p m = some root) → Inv p (f root)) : Inv p (onRoot p w name f) := by
  unfold onRoot
  split
  · rename_i root hr
    obtain ⟨m, hm, hroot⟩ := Option.bind_eq_some_iff.1 hr
    exact hf root h ⟨m, hm, hroot⟩
  · exact h

theorem inv_edit (h : Inv p w) (name : String) (y : Yaml) : Inv p (step p w (.edit name y)) :=
  inv_onRoot h name fun root h _ => inv_of_subset h (fun _ he => he) fun _ _ r _ => staged_writeYaml w.fs root r y

/-- deleting the override of one instance -/
theorem inv_lose (h : Inv p w) (name : String) : Inv p (step p w (.lose name)) := by
  refine inv_onRoot h name fun root h _ => ⟨h.dirs, fun e he f hf hne r hr q hq x hx hxq => ?_⟩
  have hsub : ∀ r x, x ∈ Staging.staged (Fs.rmtree w.fs (instanceComposeOverride root)) r → x ∈ Staging.staged w.fs r := by
    intro r x hx
    unfold Staging.staged at hx ⊢
    rw [readFile_rmtree] at hx
    split_ifs at hx
    · exact absurd hx List.not_mem_nil
    · exact hx
  exact h.staged e he f hf hne r hr q hq x (hsub r x hx) (hsub q x hxq)

theorem inv_destroy (h : Inv p w) (name : String) : Inv p (step p w (.destroy name)) := by
  refine inv_onRoot h name fun root h hm => inv_of_subset h (fun e he => (Dict.mem_erase.1 he).1) fun e he r hr => ?_
  obtain ⟨m, hget, hroot⟩ := hm
  obtain ⟨he, hne⟩ := Dict.mem_erase.1 he
  exact staged_rmtree (roots_apart h.dirs (Dict.get?_eq_some.1 hget) he (Ne.symm hne) hroot hr)

theorem step_inv (h : Inv p w) (o : Op T) (hc : Reserved p w o) : Inv p (step p w o) := by
  cases o with
  | create name path cfg now => exact inv_create h name path cfg now hc
  | edit name y => exact inv_edit h name y
  | lose name => exact inv_lose h name
  | apply name modules => exact inv_apply h name modules hc
  | up name => exact inv_up h name hc
  | destroy name => exact inv_destroy h name

end Step

/-- adb on host port 6000 -/
def pinned6000 : InstanceConfig := .pinned 6000 (by decide)

/-- adb on host port 5555 -/
def pinned5555 : InstanceConfig := .pinned 5555 adb_range

/-- Any finite sequence of verbs, edits and losses over any instances, from an empty registry over any files: if each verb
that stages finds every other instance's staged ports reserved by that instance's current `beetroot.yaml`, no two registered
instances ever have one host port staged. -/
theorem staged_disjoint (p : Paths) (fs : FileTree FileBody) (ops : List (Op T))
    (h : Always (step p) (Reserved p) ⟨∅, fs⟩ ops) : StagedDisjoint p (ops.foldl (step p) ⟨∅, fs⟩) := by
  have hinv : Inv p (ops.foldl (step p) ⟨∅, fs⟩) :=
    run_always (I := Inv p) (fun _ o hw hc => step_inv hw o hc) (inv_empty p fs) h
  exact hinv.staged

/-- `alpha` is created and edited, and the edit applied; then `bravo` is created -/
def applied : List (Op ℕ) :=
  [.create "alpha" "/srv/x" .plain 0, .edit "alpha" (.valid pinned6000), .apply "alpha" true,
    .create "bravo" "/srv/y" pinned5555 0]

theorem staged_disjoint_applied :
    Always (step Paths.sample) (Reserved Paths.sample) ⟨∅, ∅⟩ applied ∧
      StagedDisjoint Paths.sample (applied.foldl (step Paths.sample) ⟨∅, ∅⟩) := by
  have h : Always (step Paths.sample) (Reserved Paths.sample) ⟨∅, ∅⟩ applied := by decide
  exact ⟨h, staged_disjoint Paths.sample ∅ applied h⟩

/-- without the `apply`, the override of `alpha` still publishes 5555 -/
theorem staged_port_twice :
    ¬ StagedDisjoint Paths.sample (([.create "alpha" "/srv/x" .plain 0, .edit "alpha" (.valid pinned6000),
      .create "bravo" "/srv/y" pinned5555 0] : List (Op ℕ)).foldl (step Paths.sample) ⟨∅, ∅⟩) := by
  decide

end Beetroot.Staging
