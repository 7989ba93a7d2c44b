/-
When does a failing `Instance.create` or `Instance.register` leave the host as it found it?

Both calls check, allocate a row and then resolve, check and stage inside a `try` whose `except` removes the row, and the
directory if this call made it. `create` makes the directory and writes the `beetroot.yaml` before the row is allocated,
outside the `try`; and a directory that was there before the call is not cleaned up at all, by either call.

The part before the soft-failing network stage is modelled; every step may raise (`Faults`).

Results:
- `commit_error`: every way in which the common part of the two calls raises, and the state it leaves;
- `create_register_atomic_iff`: the exact condition under which a call that raises has left the registry and the files below the
  target as they were, so that a second try meets the same checks;
- `create_leaves_yaml`: a refused `create` whose second try is refused for another reason.
-/
import Beetroot.Instance.Site

namespace Beetroot.Instance

open Lib Lib.Eff Lib.Fs Registration Staging

variable {T B : Type}

/-! ## The calls -/

section Calls

variable (p : Paths) (k : Codec B) (f : Faults B)

def backendFor (target : Path) (cfg : InstanceConfig) : BackendConfig :=
  if cfg.binder = .vm then .vm (p.str target) else .redroid (p.str target) ∅

/-- the body of the `try` -/
def stageChecked [DecidableEq B] (name : String) (target : Path) (cfg : InstanceConfig) (index : Int) : M T B Unit := do
  let ports ← resolvePortsM index cfg
  checkPortCollisions p k f name ports
  stageLocal k f name target cfg

/-- from `add_allocating` to the end of the `try` -/
def commit [DecidableEq B] (name : String) (target : Path) (cfg : InstanceConfig) (created : Bool) (now : T) : M T B Unit := do
  let index ← addAllocating f name (backendFor p target cfg) now
  onRaise (stageChecked p k f name target cfg index) (rollbackPartialCreate f name target created)

structure CreateArgs where
  name : String
  path : Option String := none
  cfg : Option InstanceConfig := none
  lifecycle : Option Lifecycle := none

def CreateArgs.target (a : CreateArgs) : Path := p.resolve (a.path.getD a.name)

def CreateArgs.effectiveCfg (a : CreateArgs) : InstanceConfig :=
  a.cfg.getD { InstanceConfig.plain with lifecycle := a.lifecycle.getD .durable }

/-- the minimal text on the default path, the dumped model otherwise -/
def CreateArgs.yamlText (a : CreateArgs) : B :=
  match a.cfg with
  | none => k.minimalYaml a.lifecycle
  | some cfg => k.dumpYaml cfg

/-- the checks of `create`, in their order -/
def createRefusal (a : CreateArgs) (s : Site T B) : Option Fail :=
  if f.raises .check then some (.fault .check)
  else if !nameOk a.name then some (.invalidName a.name)
  else if a.cfg.isSome && a.lifecycle.isSome then some .lifecycleWithConfig
  else if Registration.registered (k.view s) a.name then some (.alreadyRegistered a.name)
  else if present s.fs (instanceYaml (a.target p)) then some .yamlExists
  else if overlapsRow p (k.view s) (a.target p) then some .overlap
  else none

def create [DecidableEq B] (a : CreateArgs) (now : T) : M T B Unit := do
  let s ← get
  match createRefusal p k f a s with
  | some e => throw e
  | none =>
    let created := !present s.fs (a.target p)
    mkdirs f .mkdir (a.target p)
    writeText f .yaml (instanceYaml (a.target p)) (a.yamlText k)
    commit p k f a.name (a.target p) a.effectiveCfg created now

structure RegisterArgs where
  path : String
  name : Option String := none

def RegisterArgs.target (a : RegisterArgs) : Path := p.resolve a.path

/-- the given name, or the last component of the target -/
def RegisterArgs.resolvedName (a : RegisterArgs) : String := a.name.getD ((a.target p).getLastD "")

/-- the checks of `register`, in their order, and the loaded config -/
def registerCheck (a : RegisterArgs) (s : Site T B) : Except Fail InstanceConfig :=
  if f.raises .check then .error (.fault .check)
  else if !isFile s.fs (instanceYaml (a.target p)) then .error .noYaml
  else if !nameOk (a.resolvedName p) then .error (.invalidName (a.resolvedName p))
  else if Registration.registered (k.view s) (a.resolvedName p) then .error (.alreadyRegistered (a.resolvedName p))
  else if overlapsRow p (k.view s) (a.target p) then .error .overlap
  else
    match Beetroot.loadYaml (k.view s).fs (a.target p) with
    | some (.valid cfg) => .ok cfg
    | _ => .error .badYaml

def register [DecidableEq B] (a : RegisterArgs) (now : T) : M T B Unit := do
  let s ← get
  let cfg ← raising (registerCheck p k f a s)
  commit p k f (a.resolvedName p) (a.target p) cfg false now

end Calls

/-! ## How the common part raises -/

section Commit

variable {p : Paths} {k : Codec B} {f : Faults B} {s t : Site T B} {e : Fail} {name : String} {target : Path}
  {cfg : InstanceConfig} {created : Bool} {now : T}

/-- every way in which the common part raises -/
theorem commit_error [DecidableEq B] (h : commit p k f name target cfg created now s = .error e t) :
    ((f.raises .alloc = true ∨ ∃ e', allocate s.reg name (backendFor p target cfg) now = .error e') ∧ t = s) ∨
    ∃ index reg, f.raises .alloc = false ∧ allocate s.reg name (backendFor p target cfg) now = .ok (index, reg) ∧
      ((f.raises .committed = true ∧ t = s.added name reg) ∨
        (f.raises .committed = false ∧ ∃ e' u, stageChecked p k f name target cfg index (s.added name reg) = .error e' u ∧
          t = final (rollbackPartialCreate f name target created u))) := by
  rcases bind_error_iff.1 h with h | ⟨index, s', halloc, htry⟩
  · rcases addAllocating_error h with h | ⟨ha, hc, index, reg, hreg, rfl⟩
    · exact Or.inl h
    · exact Or.inr ⟨index, reg, ha, hreg, Or.inl ⟨hc, rfl⟩⟩
  · obtain ⟨reg, ha, hreg, hc, rfl⟩ := addAllocating_ok halloc
    refine Or.inr ⟨index, reg, ha, hreg, Or.inr ⟨hc, ?_⟩⟩
    obtain ⟨e', u, hbody, hclean⟩ := onRaise_error_iff.1 htry
    refine ⟨e', u, hbody, ?_⟩
    rcases hclean with hclean | ⟨-, hclean⟩ <;> rw [hclean] <;> rfl

theorem stageChecked_frame [DecidableEq B] (p : Paths) (k : Codec B) (f : Faults B) (name : String) (target : Path) (cfg : InstanceConfig)
    (index : Int) : Steps (Frame target (Staged target)) (stageChecked p k f name target cfg index : M T B Unit) := by
  unfold stageChecked
  refine steps_bind frame_trans (steps_raising (frame_refl _ _) _) fun ports => steps_bind frame_trans ?_ fun _ => ?_
  · intro s
    unfold checkPortCollisions
    split_ifs <;> exact frame_refl _ _ s
  · exact stageLocal_steps k f name target cfg

/-- the row that `allocate` writes, and that removing it gives the registry back -/
theorem allocate_row {d reg : RegistryFile T} {backend : BackendConfig} {index : Int}
    (h : allocate d name backend now = .ok (index, reg)) :
    name ∉ d.instances.keys ∧ reg.instances.get? name = some ⟨backend, index, now⟩ ∧
      (⟨reg.instances.erase name⟩ : RegistryFile T) = d := by
  obtain ⟨hn, -, -, rfl⟩ := allocate_ok h
  refine ⟨hn, ?_, ?_⟩
  · rw [Dict.get?_set, if_pos rfl]
  · rw [Dict.erase_set, Dict.erase_of_not_mem hn]

/-- every way in which the body of the `try` raises -/
theorem stageChecked_error [DecidableEq B] {m : InstanceMeta T} (hm : s.reg.instances.get? name = some m)
    (h : stageChecked p k f name target cfg m.index s = .error e t) :
    ((∃ e', resolvePorts m.index cfg.ports = .error e') ∧ t = s) ∨
    ∃ ports, resolvePorts m.index cfg.ports = .ok ports ∧
      (((f.raises .scan = true ∨ noPortCollision p (k.view s) name ports = false) ∧ t = s) ∨
        (f.raises .scan = false ∧ noPortCollision p (k.view s) name ports = true ∧
          runOps f (stagePlan k name target cfg m.backend ports) s = .error e t)) := by
  rcases bind_error_iff.1 h with h₁ | ⟨ports, s₁, hrun, h₁⟩
  · exact Or.inl (resolvePortsM_error h₁)
  · obtain ⟨hports, rfl⟩ := resolvePortsM_ok hrun
    refine Or.inr ⟨ports, hports, ?_⟩
    rcases bind_error_iff.1 h₁ with h₂ | ⟨⟨⟩, s₂, hscan, h₂⟩
    · exact Or.inl (checkPortCollisions_error h₂)
    · obtain ⟨hr, hfree, rfl⟩ := checkPortCollisions_ok hscan
      refine Or.inr ⟨hr, hfree, ?_⟩
      -- the row is there, and its ports have just been resolved
      have hmeta : metaOf name s₂ = .ok m s₂ := by simp only [metaOf, hm]
      unfold stageLocal at h₂
      rcases bind_error_iff.1 h₂ with h₃ | ⟨m', s₃, hm', h₃⟩
      · rw [hmeta] at h₃
        cases h₃
      · rw [hmeta] at hm'
        cases hm'
        rcases bind_error_iff.1 h₃ with h₄ | ⟨ports', s₄, hports', h₄⟩
        · rw [hrun] at h₄
          cases h₄
        · rw [hrun] at hports'
          cases hports'
          exact h₄

/-- in a directory that this call has not made, what is not staged stays -/
theorem commit_kept [DecidableEq B] (h : commit p k f name target cfg false now s = .error e t)
    (hpresent : present s.fs target = true) {q : Path} (hq : ¬ Staged target q) : t.fs.get? q = s.fs.get? q := by
  rcases commit_error h with ⟨-, rfl⟩ | ⟨index, reg, -, -, ⟨-, rfl⟩ | ⟨-, e', u, hbody, rfl⟩⟩
  · rfl
  · rfl
  · obtain ⟨-, -, hframe⟩ := (stageChecked_frame p k f name target cfg index).of_error hbody hpresent
    rcases rollback_final f name target false u with ⟨-, hu⟩ | ⟨-, -, hfs⟩
    · rw [hu]
      exact hframe q hq
    · rw [hfs]
      exact hframe q hq

/-- in a directory that this call has made, all is gone exactly when it raises in the `try` and the rollback goes through -/
theorem commit_created_iff [DecidableEq B] (h : commit p k f name target cfg true now s = .error e t)
    (hdir : s.fs.get? target = some .dir) :
    (t.reg = s.reg ∧ ∀ q, target <+: q → t.fs.get? q = none) ↔
      f.raises .alloc = false ∧ (allocate s.reg name (backendFor p target cfg) now).isOk = true ∧
        f.raises .committed = false ∧ f.raises .remove = false ∧ f.raises .rmtree = false := by
  have hself := List.prefix_refl target
  have hpresent := present_of_get? hdir
  -- as long as the directory is there, something is left
  have hleft : t.fs.get? target = some .dir → ¬ (t.reg = s.reg ∧ ∀ q, target <+: q → t.fs.get? q = none) := by
    rintro hd ⟨-, hnone⟩
    rw [hnone target hself] at hd
    cases hd
  rcases commit_error h with ⟨ha, rfl⟩ | ⟨index, reg, ha, hreg, ⟨hc, rfl⟩ | ⟨hc, e', u, hbody, rfl⟩⟩
  · refine iff_of_false (hleft hdir) ?_
    rintro ⟨ha', hok, -⟩
    rcases ha with ha | ⟨e', ha⟩
    · rw [ha] at ha'
      cases ha'
    · rw [ha] at hok
      cases hok
  · refine iff_of_false (hleft hdir) ?_
    rintro ⟨-, -, hc', -⟩
    rw [hc] at hc'
    cases hc'
  · obtain ⟨hureg, -, hframe⟩ := (stageChecked_frame p k f name target cfg index).of_error hbody hpresent
    have hudir : u.fs.get? target = some .dir := (hframe target (not_staged_root target)).trans hdir
    have hback : (⟨u.reg.instances.erase name⟩ : RegistryFile T) = s.reg := by
      rw [hureg]
      exact (allocate_row hreg).2.2
    rw [rollback_created_iff hudir hback]
    have hok : (allocate s.reg name (backendFor p target cfg) now).isOk = true := by
      rw [hreg]
      rfl
    simp only [ha, hok, hc, true_and]

end Commit

/-! ## Exactness -/

section Exact

variable (p : Paths) (k : Codec B) (f : Faults B)

/-- the call raises before it makes the directory; or it cannot open the `beetroot.yaml` in a directory that was there; or the
directory was not there, and the call raises in the `try` and its rollback goes through -/
def CreateKeeps (a : CreateArgs) (now : T) (s : Site T B) : Prop :=
  (createRefusal p k f a s).isSome = true ∨ f.raises .mkdir = true ∨ fileInWay s.fs (a.target p) = true ∨
  (present s.fs (a.target p) = true ∧ f.raises .yaml = true ∧ f.torn .yaml = none) ∨
  (present s.fs (a.target p) = false ∧ f.raises .yaml = false ∧ f.raises .alloc = false ∧
    (allocate s.reg a.name (backendFor p (a.target p) a.effectiveCfg) now).isOk = true ∧ f.raises .committed = false ∧
    f.raises .remove = false ∧ f.raises .rmtree = false)

instance (a : CreateArgs) (now : T) (s : Site T B) : Decidable (CreateKeeps p k f a now s) := by
  unfold CreateKeeps; infer_instance

/-- what local staging would do after the row is written -/
def registerPlan (a : RegisterArgs) (cfg : InstanceConfig) (ports : List ResolvedPort) : List (FileOp B) :=
  stagePlan k (a.resolvedName p) (a.target p) cfg (backendFor p (a.target p) cfg) ports

/-- the call raises before it writes the row; or it raises in the `try`, the row is removed, and local staging was not reached
or found its work done -/
def RegisterKeeps [DecidableEq B] (a : RegisterArgs) (now : T) (s : Site T B) : Prop :=
  match registerCheck p k f a s with
  | .error _ => True
  | .ok cfg =>
    match allocate s.reg (a.resolvedName p) (backendFor p (a.target p) cfg) now with
    | .error _ => True
    | .ok (index, reg) =>
      f.raises .alloc = true ∨ (f.raises .committed = false ∧ f.raises .remove = false ∧
        match resolvePorts index cfg.ports with
        | .error _ => True
        | .ok ports =>
          f.raises .scan = true ∨ noPortCollision p (k.view (s.added (a.resolvedName p) reg)) (a.resolvedName p) ports = false ∨
            undisturbed f s.fs (registerPlan p k a cfg ports) = true)

end Exact

section Create

variable {p : Paths} {k : Codec B} {f : Faults B} {s t : Site T B} {e : Fail} {a : CreateArgs} {now : T}

theorem createRefusal_none (h : createRefusal p k f a s = none) :
    a.name ∉ s.reg.instances.keys ∧ present s.fs (instanceYaml (a.target p)) = false := by
  unfold createRefusal at h
  split_ifs at h with h1 h2 h3 h4 h5 h6
  exact ⟨fun hm => h4 ((k.registered_view s a.name).2 hm), by simpa using h5⟩

/-- the checks read the registry and what is below the target -/
theorem createRefusal_unchanged (h : Unchanged (a.target p) s t) (f' : Faults B) :
    createRefusal p k f' a t = createRefusal p k f' a s := by
  have hyaml : present t.fs (instanceYaml (a.target p)) = present s.fs (instanceYaml (a.target p)) :=
    h.present (List.prefix_append (a.target p) ["beetroot.yaml"])
  obtain ⟨hname, hover⟩ := k.checks_congr h.1 p a.name (a.target p)
  unfold createRefusal
  rw [hname, hover, hyaml]

/-- every way in which `create` raises once its checks have passed -/
theorem create_error [DecidableEq B] (h : create p k f a now s = .error e t) (hnone : createRefusal p k f a s = none) :
    ((f.raises .mkdir = true ∨ fileInWay s.fs (a.target p) = true) ∧ t = s) ∨
    (fileInWay s.fs (a.target p) = false ∧ f.raises .mkdir = false ∧
      ((f.raises .yaml = true ∧ ((f.torn .yaml = none ∧ t = s.made (a.target p)) ∨
          ∃ left, f.torn .yaml = some left ∧ t = (s.made (a.target p)).wrote (instanceYaml (a.target p)) left)) ∨
        (f.raises .yaml = false ∧ commit p k f a.name (a.target p) a.effectiveCfg (!present s.fs (a.target p)) now
          ((s.made (a.target p)).wrote (instanceYaml (a.target p)) (a.yamlText k)) = .error e t))) := by
  have hrun : (mkdirs f .mkdir (a.target p) >>= fun _ => writeText f .yaml (instanceYaml (a.target p)) (a.yamlText k) >>=
      fun _ => commit p k f a.name (a.target p) a.effectiveCfg (!present s.fs (a.target p)) now) s = .error e t := by
    have h' : (match createRefusal p k f a s with
      | some e => throw e
      | none => do
        mkdirs f .mkdir (a.target p)
        writeText f .yaml (instanceYaml (a.target p)) (a.yamlText k)
        commit p k f a.name (a.target p) a.effectiveCfg (!present s.fs (a.target p)) now : M T B Unit) s = .error e t := h
    rw [hnone] at h'
    exact h'
  -- the file is not there, and making the directory does not bring it
  have hfile : isDir (s.made (a.target p)).fs (instanceYaml (a.target p)) = false := by
    have hyaml := (createRefusal_none hnone).2
    have hnot : present (s.made (a.target p)).fs (instanceYaml (a.target p)) = false := by
      rw [Bool.eq_false_iff, ne_eq, present_iff]
      rintro ⟨q, n, hq, hn⟩
      change (Fs.mkdirs s.fs (a.target p)).get? q = some n at hn
      rw [get?_mkdirs, if_neg, get?_of_not_present hyaml hq] at hn
      · cases hn
      · rintro ⟨hpre, -⟩
        have hlen := (hq.trans hpre).length_le
        simp [instanceYaml] at hlen
    simp [isDir, hnot]
  rcases bind_error_iff.1 hrun with h | ⟨⟨⟩, s₁, hmk, h⟩
  · exact Or.inl (mkdirs_error h)
  · obtain ⟨hr, hw, rfl⟩ := mkdirs_ok hmk
    refine Or.inr ⟨hw, hr, ?_⟩
    rcases bind_error_iff.1 h with h | ⟨⟨⟩, s₂, hwrite, h⟩
    · rcases writeText_error h with ⟨hd, -⟩ | ⟨-, hy, hleft⟩
      · rw [hfile] at hd
        cases hd
      · exact Or.inl ⟨hy, hleft⟩
    · obtain ⟨-, hy, rfl⟩ := writeText_ok hwrite
      exact Or.inr ⟨hy, h⟩

theorem create_refused [DecidableEq B] {e' : Fail} (h : create p k f a now s = .error e t)
    (hsome : createRefusal p k f a s = some e') : t = s := by
  have h' : (match createRefusal p k f a s with
    | some e => throw e
    | none => do
      mkdirs f .mkdir (a.target p)
      writeText f .yaml (instanceYaml (a.target p)) (a.yamlText k)
      commit p k f a.name (a.target p) a.effectiveCfg (!present s.fs (a.target p)) now : M T B Unit) s = .error e t := h
  rw [hsome] at h'
  exact (throw_error_iff.1 h').2

theorem create_keeps_iff [DecidableEq B] (h : create p k f a now s = .error e t) :
    Unchanged (a.target p) s t ↔ CreateKeeps p k f a now s := by
  cases hnone : createRefusal p k f a s with
  | some e' =>
    rw [create_refused h hnone]
    exact iff_of_true (unchanged_refl _ s) (Or.inl (by rw [hnone]; rfl))
  | none =>
    obtain ⟨-, hyaml⟩ := createRefusal_none hnone
    have hno := get?_of_not_present hyaml (List.prefix_refl _)
    have hbelow : a.target p <+: instanceYaml (a.target p) := List.prefix_append _ _
    have hmade : present (s.made (a.target p)).fs (a.target p) = true := present_mkdirs s.fs _
    unfold CreateKeeps
    rw [hnone]
    rcases create_error h hnone with ⟨hmk, rfl⟩ | ⟨hway, hmk, ⟨hy, hleft⟩ | ⟨hy, hcommit⟩⟩
    · refine iff_of_true (unchanged_refl _ t) (Or.inr ?_)
      rcases hmk with hmk | hmk
      · exact Or.inl hmk
      · exact Or.inr (Or.inl hmk)
    · simp only [Option.isSome_none, Bool.false_eq_true, hway, hmk, hy, false_or, true_and, false_and, and_false, or_false,
        Bool.true_eq_false]
      rcases hleft with ⟨htorn, rfl⟩ | ⟨left, htorn, rfl⟩
      · cases hp : present s.fs (a.target p) with
        | true =>
          refine iff_of_true ⟨rfl, fun q _ => ?_⟩ ⟨rfl, htorn⟩
          exact congrArg (Dict.get? · q) (mkdirs_of_present hp)
        | false =>
          refine iff_of_false ?_ (by simp)
          refine not_unchanged_entry (List.prefix_refl _) (get?_of_not_present hp (List.prefix_refl _)) (n := .dir) ?_
          exact (get?_mkdirs s.fs _ _).trans (if_pos ⟨List.prefix_refl _, hp⟩)
      · refine iff_of_false ?_ (by simp [htorn])
        refine not_unchanged_entry hbelow hno (n := .file left) ?_
        rw [get?_wrote, if_pos rfl]
    · simp only [Option.isSome_none, Bool.false_eq_true, hway, hmk, hy, false_or, true_and, false_and, and_false]
      cases hp : present s.fs (a.target p) with
      | true =>
        rw [hp] at hcommit
        refine iff_of_false ?_ (by simp)
        refine not_unchanged_entry hbelow hno (n := .file (a.yamlText k)) ?_
        have hpresent := ((frame_wrote (s.made (a.target p)) (a.target p) (instanceYaml (a.target p)) (a.yamlText k)) hmade).2.1
        rw [commit_kept hcommit hpresent (not_staged_yaml _), get?_wrote, if_pos rfl]
      | false =>
        rw [hp] at hcommit
        have hdir : ((s.made (a.target p)).wrote (instanceYaml (a.target p)) (a.yamlText k)).fs.get? (a.target p) =
            some .dir := by
          rw [get?_wrote, if_neg (by simp [instanceYaml])]
          exact (get?_mkdirs s.fs _ _).trans (if_pos ⟨List.prefix_refl _, hp⟩)
        have hnone' : ∀ q, a.target p <+: q → s.fs.get? q = none := fun q hq => get?_of_not_present hp hq
        refine Iff.trans ?_ ((commit_created_iff hcommit hdir).trans ⟨fun h => ⟨rfl, h⟩, fun h => h.2⟩)
        constructor
        · rintro ⟨hreg, hq⟩
          exact ⟨hreg, fun q hpre => (hq q hpre).trans (hnone' q hpre)⟩
        · rintro ⟨hreg, hq⟩
          exact ⟨hreg, fun q hpre => (hq q hpre).trans (hnone' q hpre).symm⟩

end Create

section Register

variable {p : Paths} {k : Codec B} {f : Faults B} {s t : Site T B} {e : Fail} {a : RegisterArgs} {now : T}

theorem registerCheck_ok {cfg : InstanceConfig} (h : registerCheck p k f a s = .ok cfg) :
    present s.fs (a.target p) = true := by
  unfold registerCheck at h
  split_ifs at h with h1 h2
  have hfile : isFile s.fs (instanceYaml (a.target p)) = true := by simpa using h2
  obtain ⟨b, hb⟩ := Option.isSome_iff_exists.1 hfile
  exact present_of_below (List.prefix_append _ _) (present_of_get? (readFile_eq_some.1 hb))

/-- the checks read the registry and the `beetroot.yaml` -/
theorem registerCheck_unchanged (h : Unchanged (a.target p) s t) (f' : Faults B) :
    registerCheck p k f' a t = registerCheck p k f' a s := by
  have hread : readFile t.fs (instanceYaml (a.target p)) = readFile s.fs (instanceYaml (a.target p)) :=
    h.readFile (List.prefix_append (a.target p) ["beetroot.yaml"])
  have hfile : isFile t.fs (instanceYaml (a.target p)) = isFile s.fs (instanceYaml (a.target p)) := by
    unfold isFile
    rw [hread]
  obtain ⟨hname, hover⟩ := k.checks_congr h.1 p (a.resolvedName p) (a.target p)
  unfold registerCheck
  rw [hname, hover, hfile]
  cases hs : readFile s.fs (instanceYaml (a.target p)) with
  | none => simp only [isFile, hs, Option.isSome_none, Bool.not_false, if_true]
  | some b => rw [k.loadYaml_view hs, k.loadYaml_view (hread.trans hs)]

theorem register_keeps_iff [DecidableEq B] (h : register p k f a now s = .error e t) :
    Unchanged (a.target p) s t ↔ RegisterKeeps p k f a now s := by
  have hrun : ((raising (registerCheck p k f a s) : M T B InstanceConfig) >>= fun cfg =>
      commit p k f (a.resolvedName p) (a.target p) cfg false now) s = .error e t := h
  unfold RegisterKeeps
  rcases bind_error_iff.1 hrun with hcheck | ⟨cfg, s₁, hcheck, hcommit⟩
  · obtain ⟨hcheck, rfl⟩ := raising_error_iff.1 hcheck
    rw [hcheck]
    exact iff_of_true (unchanged_refl _ t) trivial
  · obtain ⟨hcheck, rfl⟩ := raising_ok_iff.1 hcheck
    have hpresent := registerCheck_ok hcheck
    rw [hcheck]
    simp only
    rcases commit_error hcommit with ⟨ha, rfl⟩ | ⟨index, reg, ha, hreg, hrest⟩
    · refine iff_of_true (unchanged_refl _ t) ?_
      rcases ha with ha | ⟨e', ha⟩
      · split
        · trivial
        · exact Or.inl ha
      · rw [ha]
        trivial
    · obtain ⟨hnew, hrow, herase⟩ := allocate_row hreg
      rw [hreg]
      simp only [ha, Bool.false_eq_true, false_or]
      rcases hrest with ⟨hc, rfl⟩ | ⟨hc, e', u, hbody, rfl⟩
      · refine iff_of_false (not_unchanged_added hnew hrow) ?_
        rintro ⟨hc', -⟩
        rw [hc] at hc'
        cases hc'
      · obtain ⟨hureg, -⟩ :=
          (stageChecked_frame p k f (a.resolvedName p) (a.target p) cfg index).of_error hbody hpresent
        rcases rollback_final f (a.resolvedName p) (a.target p) false u with ⟨hrm, hu⟩ | ⟨hrm, hrowless, hfs⟩
        · rw [hu]
          refine iff_of_false (not_unchanged_added hnew (by rw [hureg]; exact hrow)) ?_
          rintro ⟨-, hrm', -⟩
          rw [hrm] at hrm'
          cases hrm'
        · -- the row is gone again: what counts is what staging did to the files
          have hfiles : Unchanged (a.target p) s₁ (final (rollbackPartialCreate f (a.resolvedName p) (a.target p) false u)) ↔
              ∀ q, a.target p <+: q → u.fs.get? q = s₁.fs.get? q := by
            unfold Unchanged
            rw [hrowless, hfs, hureg]
            exact ⟨fun h => h.2, fun h => ⟨herase, h⟩⟩
          rw [hfiles]
          simp only [hc, hrm, true_and]
          have hrow' : (s₁.added (a.resolvedName p) reg).reg.instances.get? (a.resolvedName p) =
              some ⟨backendFor p (a.target p) cfg, index, now⟩ := hrow
          rcases stageChecked_error hrow' hbody with ⟨⟨e'', hports⟩, rfl⟩ | ⟨ports, hports, ⟨hscan, rfl⟩ | ⟨hr, hfree, hops⟩⟩
          · simp only at hports
            rw [hports]
            exact iff_of_true (fun _ _ => rfl) trivial
          · simp only at hports
            rw [hports]
            refine iff_of_true (fun _ _ => rfl) ?_
            rcases hscan with hscan | hscan
            · exact Or.inl hscan
            · exact Or.inr (Or.inl hscan)
          · simp only at hports
            rw [hports]
            simp only [hr, hfree, Bool.false_eq_true, Bool.true_eq_false, false_or]
            have hiff := runOps_undisturbed (s := s₁.added (a.resolvedName p) reg) (stagePlan_in k _ _ _ _ _) hpresent hops
            exact hiff

end Register

/-- A `create` or `register` that raises, at whatever step: the registry and everything at or below the target are as before
the call, and every later try meets the checks as this one did, if and only if `CreateKeeps` and `RegisterKeeps` hold. -/
theorem create_register_atomic_iff [DecidableEq B] (p : Paths) (k : Codec B) (f : Faults B) (s t : Site T B) (now : T)
    (e : Fail) :
    (∀ a : CreateArgs, create p k f a now s = .error e t →
      ((Unchanged (a.target p) s t ∧ ∀ f', createRefusal p k f' a t = createRefusal p k f' a s) ↔
        CreateKeeps p k f a now s)) ∧
    (∀ a : RegisterArgs, register p k f a now s = .error e t →
      ((Unchanged (a.target p) s t ∧ ∀ f', registerCheck p k f' a t = registerCheck p k f' a s) ↔
        RegisterKeeps p k f a now s)) := by
  constructor
  · intro a h
    rw [← create_keeps_iff h]
    exact ⟨fun hu => hu.1, fun hu => ⟨hu, createRefusal_unchanged hu⟩⟩
  · intro a h
    rw [← register_keeps_iff h]
    exact ⟨fun hu => hu.1, fun hu => ⟨hu, registerCheck_unchanged hu⟩⟩

/-- `alpha` at `/srv/y` with adb pinned to the port of index 1, and an empty directory `/srv/x` -/
def besideAlpha : Site ℕ String where
  reg := ⟨(∅ : Dict String (InstanceMeta ℕ)).set "alpha" ⟨.redroid "/srv/y" ∅, 0, 0⟩⟩
  fs := writeFile (Fs.mkdirs ∅ ["srv", "x"]) ["srv", "y", "beetroot.yaml"] "pinned"

/-- `create bravo` at a path -/
def bravoAt (path : String) : CreateArgs := ⟨"bravo", some path, none, none⟩

/-- what `create bravo` leaves there -/
def afterBravo (path : String) : Site ℕ String :=
  final (create Paths.sample Codec.sample .none (bravoAt path) 0 besideAlpha)

theorem create_register_atomic_fresh :
    Unchanged ["/srv/new"] besideAlpha (afterBravo "/srv/new") ∧
      ∀ f', createRefusal Paths.sample Codec.sample f' (bravoAt "/srv/new") (afterBravo "/srv/new") =
        createRefusal Paths.sample Codec.sample f' (bravoAt "/srv/new") besideAlpha :=
  ((create_register_atomic_iff Paths.sample Codec.sample .none besideAlpha (afterBravo "/srv/new") 0 .collision).1
    (bravoAt "/srv/new") rfl).2 (by decide +kernel)

/-- the collision is found after the `beetroot.yaml` was written into the directory, and the second try trips over it -/
theorem create_leaves_yaml :
    create Paths.sample Codec.sample .none (bravoAt "/srv/x") 0 besideAlpha = .error .collision (afterBravo "/srv/x") ∧
      ¬ Unchanged ["srv", "x"] besideAlpha (afterBravo "/srv/x") ∧
      createRefusal Paths.sample Codec.sample .none (bravoAt "/srv/x") besideAlpha = none ∧
      createRefusal Paths.sample Codec.sample .none (bravoAt "/srv/x") (afterBravo "/srv/x") = some .yamlExists := by
  refine ⟨rfl, ?_, rfl, rfl⟩
  exact not_unchanged_entry (q := ["srv", "x", "beetroot.yaml"]) (n := .file "minimal") (by decide) rfl rfl

end Beetroot.Instance
