/-
`restore`: which directories does it refuse, and what does it leave when it raises?

The call checks the name, the manifest and the destination, clears the destination under `--force`, makes it and allocates a
row. Inside a `try` it then extracts the archive, replays the layout into the row, checks the ports and stages; the `except`
removes the row, and the directory if this call made it. The archive may be anything: truncated, with members that the
extraction filter refuses, without a `beetroot.yaml`. Of a link or another odd member the model has what its extraction puts
below the target (the filter lets nothing out of it) and whether it raises.

The destination check looks at rows that were parsed. A row whose payload the schema rejects is kept as it is, and still names
its directory (`BackendConfig.recordedPath`).

Results:
- `restoreInto_error`: every way in which `restore` raises after its checks, and the state it leaves;
- `restore_guards_iff`: a `restore` raises a `SnapshotError` before it touches anything if and only if one of its checks says so,
  and the check of the destination sees parsed rows only;
- `restore_over_salvaged_row`: a directory of a registered instance that is cleared;
- `restore_atomic_iff`: the exact condition under which a `restore` that raises has left the registry and the target as before;
- `restore_leaves_files`: an empty directory that keeps half of an archive.
-/
import Beetroot.Instance.Create
import Beetroot.Instance.Modules
import Beetroot.Snapshot.Pack

namespace Beetroot.Snapshot

open Lib Lib.Eff Lib.Fs Instance Registration Staging

variable {T B : Type}

/-! ## `restore` -/

structure RestoreArgs where
  destName : String
  destPath : String
  force : Bool := false

section Calls

variable (p : Paths) (k : Codec B) (J : JsonCodec B) (P : Pydantic T) (f : Faults B)

def RestoreArgs.target (a : RestoreArgs) : Path := p.resolve a.destPath

/-- the checks up to the manifest -/
def restoreManifest (a : RestoreArgs) (archive : Archive B) (s : Site T B) : Except Fail Manifest :=
  if !nameOk a.destName then .error (.invalidName a.destName)
  else
    match s.reg.instances.get? a.destName with
    | some m =>
      match m.backend with
      | .redroid _ _ => .error (.snapshot ("instance '" ++ a.destName ++ "' already registered; pick a different --name <name>"))
      | b => .error (.snapshot (unsupportedBackendMessage "restore" a.destName b.kind))
    | none => readManifest J P archive

/-- the first parsed row whose directory overlaps the target -/
def firstOverlap (reg : RegistryFile T) (target : Path) : Option String :=
  (reg.instances.entries.find? fun e =>
    match e.2.backend.absolutePath with
    | some root => Overlaps (p.resolve root) target
    | none => false).map Prod.fst

/-- `_prepare_destination`, without the removal -/
def destinationRefusal (a : RestoreArgs) (s : Site T B) : Option Fail :=
  if isFile s.fs (a.target p) then some (.snapshot (p.str (a.target p) ++ " exists and is a file, not a directory"))
  else
    match firstOverlap p s.reg (a.target p) with
    | some other =>
      some (.snapshot (p.str (a.target p) ++ " overlaps the registered directory of instance '" ++ other ++
        "'; refusing to overwrite (even with --force). 'beetroot destroy " ++ other ++
        "' first, or pick a different --path."))
    | none =>
      if occupied s.fs (a.target p) && !a.force then
        some (.snapshot (p.str (a.target p) ++
          " already exists and is non-empty; pass --force to overwrite, or pick another path"))
      else none

/-- all checks before anything is touched -/
def restoreCheck (a : RestoreArgs) (archive : Archive B) (s : Site T B) : Except Fail Manifest :=
  if f.raises .check then .error (.fault .check)
  else
    match restoreManifest J P a archive s with
    | .error e => .error e
    | .ok manifest =>
      match destinationRefusal p a s with
      | some e => .error e
      | none => .ok manifest

/-- the parents of member number `i`; what is not there is made from the top down -/
def makeParents (target : Path) (i : ℕ) (parents : Path) : M T B Unit := fun s =>
  if fileInWay s.fs (target ++ parents) then .error (.notADirectory (target ++ parents)) s
  else if f.raises (.parents i) && !present s.fs (target ++ parents) then
    .error (.fault (.parents i)) (s.made (target ++ parents.take (f.depth i)))
  else .ok () (s.made (target ++ parents))

def Site.put (s : Site T B) (q : Path) (n : Node B) : Site T B := { s with fs := s.fs.set q n, log := s.log ++ [.path q] }

def putEntry (target : Path) (e : String × Path × Node B) : M T B Unit := fun s =>
  .ok () (Site.put s (target ++ e.1 :: e.2.1) e.2.2)

def putAll (target : Path) : List (String × Path × Node B) → M T B Unit
  | [] => pure ()
  | e :: es => do
    putEntry target e
    putAll target es

/-- `tar.extract(member, path=target, filter="data")`, for member number `i` -/
def extractItem (target : Path) (i : ℕ) : Item B → M T B Unit
  | .file name body => do
    makeParents f target i name.dropLast
    writeText f (.member i) (target ++ name) body
  | .dir name => do
    makeParents f target i name.dropLast
    mkdirs f (.member i) (target ++ name)
  | .other _ puts raises => do
    refuse (f.raises (.member i)) (.fault (.member i))
    putAll target puts
    refuse raises (.fault (.member i))
  | .broken => throw (.fault (.member i))

def extractAll (target : Path) : ℕ → Archive B → M T B Unit
  | _, [] => pure ()
  | i, item :: items => do
    extractItem f target i item
    extractAll target (i + 1) items

/-- `_extract_archive_into` -/
def extractArchiveInto (target : Path) (archive : Archive B) : M T B Unit := do
  extractAll f target 0 archive
  let s ← get
  refuse (!isFile s.fs (instanceYaml target))
    (.snapshot "archive did not contain a beetroot.yaml; refusing to register")

/-- `config.load_yaml` of an instance -/
def loadYamlM (pt : Point) (root : Path) : M T B InstanceConfig := fun s =>
  if f.raises pt then .error (.fault pt) s
  else
    match (readFile s.fs (instanceYaml root)).map k.loadYaml with
    | some (.valid cfg) => .ok cfg s
    | some .invalid => .error .badYaml s
    | none => .error (if blocked s.fs (instanceYaml root) then .badYaml else .noYaml) s

/-- `registry.set_stealth_paths` -/
def setStealthPaths (name : String) (sp : Dict String String) : M T B Unit := fun s =>
  if f.raises .layout then .error (.fault .layout) s
  else
    match stealth s.reg name sp with
    | .ok reg => .ok () { s with reg := reg }
    | .error e => .error (.registry e) s

/-- `Instance.load`: the directory and the config of a redroid row -/
def loadInstance (name : String) : M T B (Path × InstanceConfig) := do
  let m ← metaOf name
  match m.backend with
  | .redroid path _ =>
    let cfg ← loadYamlM k f .load (p.resolve path)
    return (p.resolve path, cfg)
  | _ => throw .noRow

/-- the layout is replayed unless it is empty -/
def replayLayout (name : String) (manifest : Manifest) : M T B Unit :=
  if manifest.pathLayout.entries = [] then pure () else setStealthPaths f name manifest.pathLayout

/-- the `try` after the extraction; the instance that it loads is staged further after the `try` -/
def restoreRest [DecidableEq B] (name : String) (target : Path) (index : Int) (manifest : Manifest) :
    M T B (Path × InstanceConfig) := do
  let cfg ← loadYamlM k f .reload target
  refuse (cfg.binder = .vm) (.snapshot (unsupportedBackendMessage "restore" name "vm"))
  replayLayout f name manifest
  let cfg ← loadYamlM k f .reload target
  let ports ← resolvePortsM index cfg
  checkPortCollisions p k f name ports
  let inst ← loadInstance p k f name
  Instance.stageLocal k f name inst.1 inst.2
  return inst

/-- the body of the `try` -/
def restoreBody [DecidableEq B] (name : String) (target : Path) (index : Int) (manifest : Manifest) (archive : Archive B) :
    M T B (Path × InstanceConfig) := do
  extractArchiveInto f target archive
  restoreRest p k f name target index manifest

/-- the removal of `_prepare_destination` -/
def clearDestination (target : Path) : M T B Unit := fun s =>
  if occupied s.fs target then rmtree f .clear target s else .ok () s

/-- from the `mkdir` to the end of the `try` -/
def restoreInto [DecidableEq B] (archive : Archive B) (a : RestoreArgs) (manifest : Manifest) (now : T) :
    M T B (Path × InstanceConfig) := do
  let s ← get
  let created := !present s.fs (a.target p)
  mkdirs f .mkdir (a.target p)
  let index ← Instance.addAllocating f a.destName (.redroid (p.str (a.target p)) ∅) now
  onRaise (restoreBody p k f a.destName (a.target p) index manifest archive)
    (rollbackPartialCreate f a.destName (a.target p) created)

/-- `restore`, up to the network stage -/
def restoreLocal [DecidableEq B] (archive : Archive B) (a : RestoreArgs) (now : T) : M T B (Path × InstanceConfig) := do
  let s ← get
  let manifest ← raising (restoreCheck p J P f a archive s)
  clearDestination f (a.target p)
  restoreInto p k f archive a manifest now

/-- what comes out of `restore`: an exception, or an interrupt of the network stage, which catches an `Exception` only -/
inductive Escape where
  | raised (e : Fail)
  | interrupted

/-- `restore`. If the network stage is interrupted, how far it has come by then is what `f` says. -/
def restore [DecidableEq B] (net : Net B) (interrupted : Bool) (archive : Archive B) (a : RestoreArgs) (now : T) :
    EStateM Escape (Site T B) Path := fun s =>
  match restoreLocal p k J P f archive a now s with
  | .error e t => .error (.raised e) t
  | .ok inst t =>
    if interrupted then .error .interrupted (final (stageNetwork net f inst.1 inst.2 t))
    else
      match stageNetworkSoft net f inst.1 inst.2 t with
      | .error e u => .error (.raised e) u
      | .ok _ u => .ok (a.target p) u

end Calls

/-! ## What the body does -/

/-- entries are added and changed, never removed; the target stays a directory; no row but the call's own is written; and
everything is logged -/
structure Grows (name : String) (target : Path) (s t : Site T B) : Prop where
  entries : ∀ q, (s.fs.get? q).isSome = true → (t.fs.get? q).isSome = true
  dir : s.fs.get? target = some .dir → t.fs.get? target = some .dir
  rows : t.reg.instances.erase name = s.reg.instances.erase name
  row : (s.reg.instances.get? name).isSome = true → (t.reg.instances.get? name).isSome = true
  log : s.log <+: t.log

section Grows

variable {name : String} {target : Path}

theorem grows_refl (s : Site T B) : Grows name target s s := ⟨fun _ h => h, fun h => h, rfl, fun h => h, List.prefix_refl _⟩

theorem grows_trans (s t u : Site T B) (h₁ : Grows name target s t) (h₂ : Grows name target t u) : Grows name target s u :=
  ⟨fun q h => h₂.entries q (h₁.entries q h), fun h => h₂.dir (h₁.dir h), h₂.rows.trans h₁.rows, fun h => h₂.row (h₁.row h),
    h₁.log.trans h₂.log⟩

theorem grows_made (s : Site T B) (q : Path) : Grows name target s (s.made q) := by
  refine ⟨fun r hr => ?_, fun hd => get?_mkdirs_of_some hd, rfl, fun h => h, List.prefix_append _ _⟩
  obtain ⟨n, hn⟩ := Option.isSome_iff_exists.1 hr
  exact Option.isSome_iff_exists.2 ⟨n, get?_mkdirs_of_some hn⟩

/-- an entry other than the target is set -/
theorem grows_put (s : Site T B) {q : Path} (n : Node B) (hq : q ≠ target) : Grows name target s (Site.put s q n) := by
  have hget : ∀ r, (Site.put s q n).fs.get? r = if r = q then some n else s.fs.get? r := fun r => Dict.get?_set s.fs q r n
  refine ⟨fun r hr => ?_, fun hd => ?_, rfl, fun h => h, List.prefix_append _ _⟩
  · rw [hget]
    split_ifs
    · rfl
    · exact hr
  · rw [hget, if_neg (Ne.symm hq)]
    exact hd

theorem isDir_of_get? {fs : FileTree B} {q : Path} (h : fs.get? q = some .dir) : isDir fs q = true := by
  simp [isDir, present_of_get? h, isFile, readFile, h]

theorem grows_writeText (f : Faults B) (pt : Point) (q : Path) (b : B) :
    Steps (Grows name target) (writeText f pt q b : M T B Unit) := by
  intro s
  unfold writeText
  by_cases hd : isDir s.fs q = true
  · rw [if_pos hd]
    exact grows_refl s
  · rw [if_neg hd]
    -- a directory is not overwritten
    have hwrote : ∀ b', Grows name target s (s.wrote q b') := by
      intro b'
      by_cases hq : q = target
      · subst hq
        have hput : Grows name (q ++ [""]) s (s.wrote q b') := grows_put s (.file b') (by simp)
        exact ⟨hput.entries, fun h => absurd (isDir_of_get? h) hd, rfl, fun h => h, hput.log⟩
      · exact grows_put s (.file b') hq
    split_ifs
    · cases f.torn pt with
      | none => exact grows_refl s
      | some left => exact hwrote left
    · exact hwrote b

theorem grows_mkdirs (f : Faults B) (pt : Point) (q : Path) : Steps (Grows name target) (mkdirs f pt q : M T B Unit) := by
  intro s
  unfold Instance.mkdirs
  split_ifs
  · exact grows_refl s
  · exact grows_refl s
  · exact grows_made s q

theorem grows_makeParents (f : Faults B) (i : ℕ) (q : Path) :
    Steps (Grows name target) (makeParents f target i q : M T B Unit) := by
  intro s
  unfold makeParents
  split_ifs
  · exact grows_refl s
  · exact grows_made s _
  · exact grows_made s _

theorem makeParents_ok {f : Faults B} {i : ℕ} {q : Path} {s t : Site T B} {u : Unit} (h : makeParents f target i q s = .ok u t) :
    t = s.made (target ++ q) := by
  unfold makeParents at h
  split_ifs at h
  cases h
  rfl

theorem grows_putAll (es : List (String × Path × Node B)) : Steps (Grows name target) (putAll target es : M T B Unit) := by
  induction es with
  | nil => exact steps_pure grows_refl ()
  | cons e es ih =>
    refine steps_bind grows_trans (fun s => ?_) fun _ => ih
    exact grows_put s e.2.2 (by simp)

theorem grows_extractItem (f : Faults B) (i : ℕ) (item : Item B) :
    Steps (Grows name target) (extractItem f target i item : M T B Unit) := by
  cases item with
  | file q body => exact steps_bind grows_trans (grows_makeParents f i _) fun _ => grows_writeText f _ _ _
  | dir q => exact steps_bind grows_trans (grows_makeParents f i _) fun _ => grows_mkdirs f _ _
  | other q puts raises =>
    exact steps_bind grows_trans (steps_refuse grows_refl _ _) fun _ =>
      steps_bind grows_trans (grows_putAll puts) fun _ => steps_refuse grows_refl _ _
  | broken => exact steps_throw grows_refl _

theorem grows_extractAll (f : Faults B) (i : ℕ) (items : Archive B) :
    Steps (Grows name target) (extractAll f target i items : M T B Unit) := by
  induction items generalizing i with
  | nil => exact steps_pure grows_refl ()
  | cons item items ih => exact steps_bind grows_trans (grows_extractItem f i item) fun _ => ih (i + 1)

theorem grows_loadYamlM (k : Codec B) (f : Faults B) (pt : Point) (root : Path) :
    Steps (Grows name target) (loadYamlM k f pt root : M T B InstanceConfig) := by
  intro s
  unfold loadYamlM
  split
  · exact grows_refl s
  · split <;> exact grows_refl s

theorem grows_metaOf (n : String) : Steps (Grows name target) (metaOf n : M T B (InstanceMeta T)) := by
  intro s
  unfold metaOf
  split <;> exact grows_refl s

theorem grows_setStealthPaths (f : Faults B) (sp : Dict String String) :
    Steps (Grows name target) (setStealthPaths f name sp : M T B Unit) := by
  intro s
  unfold setStealthPaths
  split_ifs
  · exact grows_refl s
  · cases hst : stealth s.reg name sp with
    | error e => exact grows_refl s
    | ok reg =>
      obtain ⟨m, b, -, -, -, rfl⟩ := stealth_ok hst
      exact ⟨fun _ h => h, fun h => h, Dict.erase_set _ _ _, fun _ => Dict.get?_isSome.2 (Dict.mem_keys_set.2 (Or.inl rfl)),
        List.prefix_refl _⟩

theorem grows_stageLocal [DecidableEq B] (k : Codec B) (f : Faults B) (n : String) (root : Path) (cfg : InstanceConfig) :
    Steps (Grows name target) (Instance.stageLocal k f n root cfg : M T B Unit) := by
  have hops : ∀ ops : List (FileOp B), Steps (Grows name target) (runOps f ops : M T B Unit) := by
    intro ops
    induction ops with
    | nil => exact steps_pure grows_refl ()
    | cons op ops ih =>
      refine steps_bind grows_trans ?_ fun _ => ih
      cases op with
      | mkdir pt q => exact grows_mkdirs f pt q
      | write pt q b => exact grows_writeText f pt q b
      | fill pt q b =>
        intro s
        simp only [FileOp.run]
        split_ifs
        · exact grows_refl s
        · exact grows_writeText f pt q b s
  unfold Instance.stageLocal
  exact steps_bind grows_trans (grows_metaOf n) fun m =>
    steps_bind grows_trans (steps_raising grows_refl _) fun ports => hops _

theorem grows_restoreRest [DecidableEq B] (p : Paths) (k : Codec B) (f : Faults B) (index : Int) (manifest : Manifest) :
    Steps (Grows name target) (restoreRest p k f name target index manifest : M T B (Path × InstanceConfig)) := by
  unfold restoreRest
  refine steps_bind grows_trans (grows_loadYamlM k f _ _) fun cfg => ?_
  refine steps_bind grows_trans (steps_refuse grows_refl _ _) fun _ => ?_
  refine steps_bind grows_trans ?_ fun _ => ?_
  · unfold replayLayout
    split_ifs
    · exact steps_pure grows_refl ()
    · exact grows_setStealthPaths f _
  refine steps_bind grows_trans (grows_loadYamlM k f _ _) fun cfg' => ?_
  refine steps_bind grows_trans (steps_raising grows_refl _) fun ports => ?_
  refine steps_bind grows_trans (fun s => ?_) fun _ => ?_
  · unfold checkPortCollisions
    split_ifs <;> exact grows_refl s
  refine steps_bind grows_trans ?_ fun inst =>
    steps_bind grows_trans (grows_stageLocal k f name inst.1 inst.2) fun _ => steps_pure grows_refl inst
  refine steps_bind grows_trans (grows_metaOf name) fun m => ?_
  split
  · exact steps_bind grows_trans (grows_loadYamlM k f _ _) fun cfg => steps_pure grows_refl _
  · exact steps_throw grows_refl _

theorem grows_restoreBody [DecidableEq B] (p : Paths) (k : Codec B) (f : Faults B) (index : Int) (manifest : Manifest)
    (archive : Archive B) :
    Steps (Grows name target) (restoreBody p k f name target index manifest archive : M T B (Path × InstanceConfig)) := by
  refine steps_bind grows_trans ?_ fun _ => grows_restoreRest p k f index manifest
  refine steps_bind grows_trans (grows_extractAll f 0 archive) fun _ => ?_
  exact steps_bind grows_trans (steps_get grows_refl) fun s => steps_refuse grows_refl _ _

end Grows

/-! ## How it raises -/

section Errors

variable [DecidableEq B] {p : Paths} {k : Codec B} {J : JsonCodec B} {P : Pydantic T} {f : Faults B} {s t : Site T B}
  {e : Fail} {a : RestoreArgs} {archive : Archive B} {now : T}

/-- a refused call touches nothing -/
theorem restoreLocal_refused {e' : Fail} (hcheck : restoreCheck p J P f a archive s = .error e') :
    restoreLocal p k J P f archive a now s = .error e' s := by
  have hrun : restoreLocal p k J P f archive a now s = ((raising (restoreCheck p J P f a archive s) : M T B Manifest) >>=
      fun manifest => clearDestination f (a.target p) >>= fun _ => restoreInto p k f archive a manifest now) s := rfl
  rw [hrun, bind_error_iff]
  exact Or.inl (raising_error_iff.2 ⟨hcheck, rfl⟩)

theorem restoreLocal_checked {manifest : Manifest} (hcheck : restoreCheck p J P f a archive s = .ok manifest) :
    restoreLocal p k J P f archive a now s =
      (clearDestination f (a.target p) >>= fun _ => restoreInto p k f archive a manifest now) s := by
  have hrun : restoreLocal p k J P f archive a now s = ((raising (restoreCheck p J P f a archive s) : M T B Manifest) >>=
      fun manifest => clearDestination f (a.target p) >>= fun _ => restoreInto p k f archive a manifest now) s := rfl
  rw [hrun, hcheck]
  rfl

/-- every way in which the call raises once the destination is clear -/
theorem restoreInto_error {manifest : Manifest} (h : restoreInto p k f archive a manifest now s = .error e t) :
    ((f.raises .mkdir = true ∨ fileInWay s.fs (a.target p) = true) ∧ t = s) ∨
    (f.raises .mkdir = false ∧ fileInWay s.fs (a.target p) = false ∧
      (((f.raises .alloc = true ∨ ∃ e', allocate s.reg a.destName (.redroid (p.str (a.target p)) ∅) now = .error e') ∧
          t = s.made (a.target p)) ∨
        ∃ index reg, f.raises .alloc = false ∧
          allocate s.reg a.destName (.redroid (p.str (a.target p)) ∅) now = .ok (index, reg) ∧
          ((f.raises .committed = true ∧ t = (s.made (a.target p)).added a.destName reg) ∨
            (f.raises .committed = false ∧ ∃ e' u,
              restoreBody p k f a.destName (a.target p) index manifest archive ((s.made (a.target p)).added a.destName reg) =
                .error e' u ∧
              t = final (rollbackPartialCreate f a.destName (a.target p) (!present s.fs (a.target p)) u))))) := by
  have hrun : (mkdirs f .mkdir (a.target p) >>= fun _ =>
      Instance.addAllocating f a.destName (.redroid (p.str (a.target p)) ∅) now >>= fun index =>
        onRaise (restoreBody p k f a.destName (a.target p) index manifest archive)
          (rollbackPartialCreate f a.destName (a.target p) (!present s.fs (a.target p)))) s = .error e t := h
  rcases bind_error_iff.1 hrun with h₁ | ⟨⟨⟩, s₁, hmk, h₁⟩
  · exact Or.inl (mkdirs_error h₁)
  · obtain ⟨hr, hway, rfl⟩ := mkdirs_ok hmk
    refine Or.inr ⟨hr, hway, ?_⟩
    rcases bind_error_iff.1 h₁ with h₂ | ⟨index, s₂, halloc, h₂⟩
    · rcases addAllocating_error h₂ with h₃ | ⟨ha, hc, index, reg, hreg, rfl⟩
      · exact Or.inl h₃
      · exact Or.inr ⟨index, reg, ha, hreg, Or.inl ⟨hc, rfl⟩⟩
    · obtain ⟨reg, ha, hreg, hc, rfl⟩ := addAllocating_ok halloc
      refine Or.inr ⟨index, reg, ha, hreg, Or.inr ⟨hc, ?_⟩⟩
      obtain ⟨e', u, hbody, hclean⟩ := onRaise_error_iff.1 h₂
      refine ⟨e', u, hbody, ?_⟩
      rcases hclean with hclean | ⟨-, hclean⟩ <;> rw [hclean] <;> rfl

omit [DecidableEq B] in
theorem restoreCheck_manifest {manifest : Manifest} (h : restoreCheck p J P f a archive s = .ok manifest) :
    readManifest J P archive = .ok manifest := by
  unfold restoreCheck at h
  split_ifs at h
  cases hm : restoreManifest J P a archive s with
  | error e =>
    rw [hm] at h
    cases h
  | ok manifest' =>
    rw [hm] at h
    simp only at h
    split at h
    · cases h
    · cases h
      unfold restoreManifest at hm
      split_ifs at hm
      split at hm
      · split at hm <;> cases hm
      · exact hm

/-- the steps of a restore that returns: the checks, the removal, the row, and the body of the `try` -/
theorem restoreLocal_ran {inst : Path × InstanceConfig}
    (h : restoreLocal p k J P f archive a now s = .ok inst t) :
    ∃ manifest index reg s₁, readManifest J P archive = .ok manifest ∧ clearDestination f (a.target p) s = .ok () s₁ ∧
      allocate s₁.reg a.destName (.redroid (p.str (a.target p)) ∅) now = .ok (index, reg) ∧
      restoreBody p k f a.destName (a.target p) index manifest archive ((s₁.made (a.target p)).added a.destName reg) =
        .ok inst t := by
  cases hcheck : restoreCheck p J P f a archive s with
  | error e =>
    rw [restoreLocal_refused hcheck] at h
    cases h
  | ok manifest =>
    rw [restoreLocal_checked hcheck] at h
    obtain ⟨⟨⟩, s₁, h₁, r₁⟩ := bind_ok_iff.1 h
    have hrun : (mkdirs f .mkdir (a.target p) >>= fun _ =>
        Instance.addAllocating f a.destName (.redroid (p.str (a.target p)) ∅) now >>= fun index =>
          onRaise (restoreBody p k f a.destName (a.target p) index manifest archive)
            (rollbackPartialCreate f a.destName (a.target p) (!present s₁.fs (a.target p)))) s₁ = .ok inst t := r₁
    obtain ⟨⟨⟩, s₂, h₂, r₂⟩ := bind_ok_iff.1 hrun
    obtain ⟨-, -, rfl⟩ := mkdirs_ok h₂
    obtain ⟨index, s₃, h₃, r₃⟩ := bind_ok_iff.1 r₂
    obtain ⟨reg, -, halloc, -, rfl⟩ := addAllocating_ok h₃
    exact ⟨manifest, index, reg, s₁, restoreCheck_manifest hcheck, h₁, halloc, onRaise_ok_iff.1 r₃⟩

/-- into a path that is not there yet: there is nothing to clear -/
theorem restoreLocal_ok {inst : Path × InstanceConfig}
    (habsent : present s.fs (a.target p) = false) (h : restoreLocal p k J P f archive a now s = .ok inst t) :
    ∃ manifest index reg, readManifest J P archive = .ok manifest ∧
      allocate s.reg a.destName (.redroid (p.str (a.target p)) ∅) now = .ok (index, reg) ∧
      restoreBody p k f a.destName (a.target p) index manifest archive ((s.made (a.target p)).added a.destName reg) =
        .ok inst t := by
  obtain ⟨manifest, index, reg, s₁, hmanifest, h₁, halloc, hbody⟩ := restoreLocal_ran h
  have hempty : occupied s.fs (a.target p) = false := by
    rw [Bool.eq_false_iff]
    intro hocc
    obtain ⟨q, hq, hpq⟩ := List.any_eq_true.1 hocc
    have hbelow : a.target p <+: q := (by simpa using hpq : a.target p <+: q ∧ q ≠ a.target p).1
    rw [present, List.any_eq_false] at habsent
    exact habsent q hq (by simpa using hbelow)
  rw [clearDestination, hempty] at h₁
  cases h₁
  exact ⟨manifest, index, reg, hmanifest, halloc, hbody⟩

variable {net : Net B} {interrupted : Bool}

theorem restore_raised_iff : restore p k J P f net interrupted archive a now s = .error (.raised e) t ↔
    restoreLocal p k J P f archive a now s = .error e t := by
  unfold restore
  cases restoreLocal p k J P f archive a now s with
  | error e' u => simp
  | ok inst u =>
    simp only [stageNetworkSoft_ok]
    cases interrupted <;> simp

/-- an interrupt comes behind the `try` -/
theorem restore_interrupted (h : restore p k J P f net interrupted archive a now s = .error .interrupted t) :
    interrupted = true ∧ ∃ inst u, restoreLocal p k J P f archive a now s = .ok inst u ∧
      t = final (stageNetwork net f inst.1 inst.2 u) := by
  unfold restore at h
  cases hx : restoreLocal p k J P f archive a now s with
  | error e' u =>
    rw [hx] at h
    cases h
  | ok inst u =>
    rw [hx] at h
    simp only [stageNetworkSoft_ok] at h
    split_ifs at h with hint
    cases h
    exact ⟨hint, inst, u, rfl, rfl⟩

/-- a call that is not interrupted returns what its `try` returns -/
theorem restore_returns {inst : Path × InstanceConfig} (h : restoreLocal p k J P f archive a now s = .ok inst t) :
    restore p k J P f net false archive a now s = .ok (a.target p) (final (stageNetwork net f inst.1 inst.2 t)) := by
  unfold restore
  rw [h]
  simp only [stageNetworkSoft_ok, Bool.false_eq_true, if_false]

end Errors

/-! ## Directories of registered instances -/

/-- the directory that a redroid-kind or vm-kind row records, also when its payload was rejected and kept as it is -/
def recordedPath : BackendConfig → Option String
  | .redroid path _ | .vm path => some path
  | .adb _ => none
  | .unresolved raw => if kindOf raw = "redroid" ∨ kindOf raw = "vm" then strOf (field raw "absolute_path") else none

/-- a row with a recorded directory overlaps the target -/
def RecordedOverlap (p : Paths) (reg : RegistryFile T) (target : Path) : Prop :=
  ∃ e ∈ reg.instances.entries, ∃ path ∈ recordedPath e.2.backend, Overlaps (p.resolve path) target

/-- a row that was parsed does -/
def ParsedOverlap (p : Paths) (reg : RegistryFile T) (target : Path) : Prop :=
  ∃ e ∈ reg.instances.entries, ∃ path ∈ e.2.backend.absolutePath, Overlaps (p.resolve path) target

/-- the call has a valid name, and one of its checks refuses it -/
def Guarded (p : Paths) (J : JsonCodec B) (P : Pydantic T) (f : Faults B) (a : RestoreArgs) (archive : Archive B)
    (s : Site T B) : Prop :=
  f.raises .check = false ∧ nameOk a.destName = true ∧
    (a.destName ∈ s.reg.instances.keys ∨ (readManifest J P archive).isOk = false ∨ isFile s.fs (a.target p) = true ∨
      ParsedOverlap p s.reg (a.target p) ∨ (occupied s.fs (a.target p) = true ∧ a.force = false))

section Guards

variable {p : Paths} {J : JsonCodec B} {P : Pydantic T} {f : Faults B} {s : Site T B} {a : RestoreArgs} {archive : Archive B}

theorem firstOverlap_isSome (p : Paths) (reg : RegistryFile T) (target : Path) :
    (firstOverlap p reg target).isSome = true ↔ ParsedOverlap p reg target := by
  unfold firstOverlap ParsedOverlap
  rw [Option.isSome_map, List.find?_isSome]
  constructor
  · rintro ⟨e, he, ho⟩
    cases hb : e.2.backend.absolutePath with
    | none => rw [hb] at ho; cases ho
    | some path =>
      rw [hb] at ho
      exact ⟨e, he, path, hb, by simpa using ho⟩
  · rintro ⟨e, he, path, hb, ho⟩
    refine ⟨e, he, ?_⟩
    rw [Option.mem_def.1 hb]
    simpa using ho

theorem extractManifestBytes_error {archive : Archive B} {e : Fail} (h : extractManifestBytes archive = .error e) :
    ∃ msg, e = .snapshot msg := by
  induction archive with
  | nil => cases h; exact ⟨_, rfl⟩
  | cons item rest ih =>
    cases item with
    | broken => cases h; exact ⟨_, rfl⟩
    | file name body =>
      simp only [extractManifestBytes] at h
      split_ifs at h
      exact ih h
    | dir name =>
      simp only [extractManifestBytes] at h
      split_ifs at h
      · cases h; exact ⟨_, rfl⟩
      · exact ih h
    | other name puts raises =>
      simp only [extractManifestBytes] at h
      split_ifs at h
      · cases h; exact ⟨_, rfl⟩
      · exact ih h

/-- an unreadable archive is a `SnapshotError` -/
theorem readManifest_error {e : Fail} (h : readManifest J P archive = .error e) : ∃ msg, e = .snapshot msg := by
  unfold readManifest at h
  split at h
  · rename_i e' he'
    cases h
    exact extractManifestBytes_error he'
  · split at h
    · cases h
    · cases h
      exact ⟨_, rfl⟩

theorem destinationRefusal_snapshot :
    (∃ msg, destinationRefusal p a s = some (.snapshot msg)) ↔
      isFile s.fs (a.target p) = true ∨ ParsedOverlap p s.reg (a.target p) ∨
        (occupied s.fs (a.target p) = true ∧ a.force = false) := by
  rw [← firstOverlap_isSome]
  unfold destinationRefusal
  by_cases hf : isFile s.fs (a.target p) = true
  · simp [hf]
  · cases ho : firstOverlap p s.reg (a.target p) with
    | some other => simp [hf]
    | none => cases hocc : occupied s.fs (a.target p) <;> cases hforce : a.force <;> simp [hf]

/-- a call that passes the checks has a directory to clear only under `--force` -/
theorem restoreCheck_ok {manifest : Manifest} (h : restoreCheck p J P f a archive s = .ok manifest) :
    isFile s.fs (a.target p) = false ∧ (occupied s.fs (a.target p) = true → a.force = true) := by
  unfold restoreCheck at h
  split_ifs at h
  split at h
  · cases h
  · split at h
    · cases h
    · rename_i hd
      have hnot : ¬ ∃ msg, destinationRefusal p a s = some (.snapshot msg) := by
        rintro ⟨msg, hmsg⟩
        rw [hd] at hmsg
        cases hmsg
      rw [destinationRefusal_snapshot] at hnot
      push Not at hnot
      exact ⟨by simpa using hnot.1, fun ho => by simpa using hnot.2.2 ho⟩

theorem restoreCheck_snapshot :
    (∃ msg, restoreCheck p J P f a archive s = .error (.snapshot msg)) ↔ Guarded p J P f a archive s := by
  unfold Guarded restoreCheck restoreManifest
  cases hc : f.raises .check with
  | true => simp
  | false =>
    cases hn : nameOk a.destName with
    | false => simp
    | true =>
      simp only [Bool.false_eq_true, if_false, Bool.not_true, true_and]
      cases hm : s.reg.instances.get? a.destName with
      | some m =>
        have hk : a.destName ∈ s.reg.instances.keys := Dict.get?_isSome.1 (by rw [hm]; rfl)
        refine iff_of_true ?_ (Or.inl hk)
        cases hb : m.backend <;> simp only [hb] <;> exact ⟨_, rfl⟩
      | none =>
        have hk : a.destName ∉ s.reg.instances.keys := Dict.get?_eq_none.1 hm
        simp only [hk, false_or]
        cases hr : readManifest J P archive with
        | error e =>
          obtain ⟨msg, rfl⟩ := readManifest_error hr
          exact iff_of_true ⟨msg, rfl⟩ (Or.inl rfl)
        | ok manifest =>
          simp only [Except.isOk, Except.toBool, Bool.true_eq_false, false_or]
          rw [← destinationRefusal_snapshot]
          cases hd : destinationRefusal p a s with
          | none => simp
          | some e => simp

/-! ## Nothing is touched before the checks, something after -/

/-- the log grows -/
def Logged (s t : Site T B) : Prop := s.log <+: t.log

theorem logged_refl (s : Site T B) : Logged s s := List.prefix_refl _

theorem logged_trans (s t u : Site T B) (h₁ : Logged s t) (h₂ : Logged t u) : Logged s u := List.IsPrefix.trans h₁ h₂

theorem logged_rmtree (f : Faults B) (pt : Point) (q : Path) : Steps Logged (rmtree f pt q : M T B Unit) := by
  intro s
  unfold Instance.rmtree
  split_ifs <;> exact List.prefix_append _ _

theorem logged_rollback (f : Faults B) (name : String) (target : Path) (created : Bool) :
    Steps Logged (rollbackPartialCreate f name target created : M T B Unit) := by
  refine steps_bind logged_trans (fun s => ?_) fun _ => steps_bind logged_trans (steps_get logged_refl) fun s => ?_
  · unfold removeRow
    split_ifs <;> exact logged_refl s
  · split_ifs
    · exact logged_rmtree f .rmtree target
    · exact steps_pure logged_refl ()

theorem logged_addAllocating (f : Faults B) (name : String) (backend : BackendConfig) (now : T) :
    Steps Logged (Instance.addAllocating f name backend now : M T B Int) := by
  intro s
  cases h : Instance.addAllocating f name backend now s with
  | ok i t =>
    obtain ⟨reg, -, -, -, rfl⟩ := addAllocating_ok h
    exact List.prefix_append _ _
  | error e t =>
    rcases addAllocating_error h with ⟨-, rfl⟩ | ⟨-, -, i, reg, -, rfl⟩
    · exact logged_refl t
    · exact List.prefix_append _ _

/-- past its checks, a call that raises a `SnapshotError` has touched something -/
theorem restoreLocal_checked_log [DecidableEq B] {k : Codec B} {now : T} {t : Site T B} {manifest : Manifest} {msg : String}
    (hcheck : restoreCheck p J P f a archive s = .ok manifest)
    (h : restoreLocal p k J P f archive a now s = .error (.snapshot msg) t) : t.log ≠ s.log := by
  rw [restoreLocal_checked hcheck] at h
  rcases bind_error_iff.1 h with h₁ | ⟨⟨⟩, s₁, hclear, h₁⟩
  · -- the removal raises an `OSError`
    unfold clearDestination Instance.rmtree at h₁
    split_ifs at h₁
    cases h₁
  · have hlog₁ : Logged s s₁ := by
      unfold clearDestination at hclear
      split_ifs at hclear
      · exact (logged_rmtree f .clear (a.target p)).of_ok hclear
      · cases hclear
        exact logged_refl s
    have hrun : (mkdirs f .mkdir (a.target p) >>= fun _ =>
        Instance.addAllocating f a.destName (.redroid (p.str (a.target p)) ∅) now >>= fun index =>
          onRaise (restoreBody p k f a.destName (a.target p) index manifest archive)
            (rollbackPartialCreate f a.destName (a.target p) (!present s₁.fs (a.target p)))) s₁ = .error (.snapshot msg) t := h₁
    rcases bind_error_iff.1 hrun with h₂ | ⟨⟨⟩, s₂, hmk, h₂⟩
    · unfold Instance.mkdirs at h₂
      split_ifs at h₂ <;> cases h₂
    · obtain ⟨-, -, rfl⟩ := mkdirs_ok hmk
      have hrest : Logged (s₁.made (a.target p)) t := by
        refine Steps.of_error (steps_bind logged_trans (logged_addAllocating f _ _ _) fun index => ?_) h₂
        exact steps_onRaise logged_trans ((grows_restoreBody p k f index manifest archive).mono fun _ _ hg => hg.log)
          (logged_rollback f _ _ _)
      have hlen := List.IsPrefix.length_le hrest
      have hlen₁ := List.IsPrefix.length_le hlog₁
      intro heq
      rw [heq] at hlen
      simp only [Site.made, List.length_append, List.length_singleton] at hlen
      omega

end Guards

/-- For every registry, archive, target and `--force`: a target that overlaps the recorded directory of a redroid-kind or vm-kind
row makes `restore` raise a `SnapshotError` with nothing touched, if and only if no recorded directory overlaps it or the call
is guarded: valid name, and a check that refuses it, of which the destination check sees parsed rows only. -/
theorem restore_guards_iff [DecidableEq B] (p : Paths) (k : Codec B) (J : JsonCodec B) (P : Pydantic T) (f : Faults B)
    (net : Net B) (interrupted : Bool) (archive : Archive B) (a : RestoreArgs) (now : T) (s : Site T B) :
    (RecordedOverlap p s.reg (a.target p) →
        ∃ msg, restore p k J P f net interrupted archive a now s = .error (.raised (.snapshot msg)) s) ↔
      (RecordedOverlap p s.reg (a.target p) → Guarded p J P f a archive s) := by
  have hiff : (∃ msg, restore p k J P f net interrupted archive a now s = .error (.raised (.snapshot msg)) s) ↔
      Guarded p J P f a archive s := by
    simp only [restore_raised_iff]
    rw [← restoreCheck_snapshot]
    constructor
    · rintro ⟨msg, h⟩
      cases hcheck : restoreCheck p J P f a archive s with
      | error e =>
        rw [restoreLocal_refused hcheck] at h
        cases h
        exact ⟨msg, rfl⟩
      | ok manifest => exact absurd rfl (restoreLocal_checked_log hcheck h)
    · rintro ⟨msg, hcheck⟩
      exact ⟨msg, restoreLocal_refused hcheck⟩
  rw [hiff]

/-- `alpha` with a key of a later schema, at `/srv/x` -/
def salvagedRaw : Fields := [("kind", .str "redroid"), ("absolute_path", .str "/srv/x"), ("overlay", .str "ro")]

/-- the registry keeps its row; its directory has a file -/
def salvagedSite : Site String Bytes where
  reg := ⟨(∅ : Dict String (InstanceMeta String)).set "alpha" ⟨settle salvagedRaw, 0, "then"⟩⟩
  fs := writeFile ∅ ["srv", "x", "data", "keep"] (.inl "state")

def bravoOver : RestoreArgs := ⟨"bravo", "/srv/x", true⟩

/-- an archive of the default config -/
def plainArchive : Archive Bytes :=
  [.file [manifestFilename] (.inr ⟨"alpha", 0, "now", "1", ∅, .durable⟩), .file ["beetroot.yaml"] (.inl "minimal")]

/-- a network on which every module fetch has the same outcome -/
def fetching (outcome : Option Bytes) : Net Bytes where
  frida := none
  fetch _ _ := outcome
  urlPrefix _ := "0123456789ab"
  sha256Of _ := ""
  within root path := root ++ [path]
  scan l := l
  scan_perm l := List.Perm.refl l

theorem restore_over_salvaged_row :
    RecordedOverlap Paths.sample salvagedSite.reg (bravoOver.target Paths.sample) ∧
      readFile salvagedSite.fs ["srv", "x", "data", "keep"] = some (.inl "state") ∧
      ∃ t, restore Paths.sample Bytes.codec Bytes.json Pydantic.iso .none (fetching none) false plainArchive bravoOver "now"
          salvagedSite = .ok ["srv", "x"] t ∧
        readFile t.fs ["srv", "x", "data", "keep"] = none := by
  refine ⟨⟨("alpha", ⟨settle salvagedRaw, 0, "then"⟩), List.mem_singleton_self _, "/srv/x", rfl, by decide⟩, rfl, _, rfl, rfl⟩

/-! ## What an extraction leaves -/

/-- making the parents of the member puts something into an empty directory -/
def parentsPut (f : Faults B) (i : ℕ) (name : Path) : Bool := 2 ≤ name.length && (!f.raises (.parents i) || f.depth i ≠ 0)

def parentsPass (f : Faults B) (i : ℕ) (name : Path) : Bool := name.length < 2 || !f.raises (.parents i)

/-- the member puts something into an empty directory -/
def Item.puts (f : Faults B) (i : ℕ) : Item B → Bool
  | .broken => false
  | .dir name => name ≠ [] && (parentsPut f i name || (parentsPass f i name && !f.raises (.member i)))
  | .file name _ =>
    name ≠ [] && (parentsPut f i name || (parentsPass f i name && (!f.raises (.member i) || (f.torn (.member i)).isSome)))
  | .other _ puts _ => !f.raises (.member i) && puts ≠ []

/-- the extraction goes on after the member; the directory itself cannot be opened as a file -/
def Item.passes (f : Faults B) (i : ℕ) : Item B → Bool
  | .broken => false
  | .dir name => parentsPass f i name && !f.raises (.member i)
  | .file name _ => name ≠ [] && parentsPass f i name && !f.raises (.member i)
  | .other _ _ raises => !f.raises (.member i) && !raises

/-- nothing is put up to the member that raises -/
def idle (f : Faults B) : ℕ → Archive B → Bool
  | _, [] => true
  | i, item :: items => !item.puts f i && (!item.passes f i || idle f (i + 1) items)

/-- an empty directory -/
structure Bare (target : Path) (fs : FileTree B) : Prop where
  dir : fs.get? target = some .dir
  way : fileInWay fs target = false
  empty : ∀ x r, fs.get? (target ++ x :: r) = none

/-- something is below it -/
def Filled (target : Path) (fs : FileTree B) : Prop := ∃ x r, (fs.get? (target ++ x :: r)).isSome = true

section Extract

variable {f : Faults B} {target : Path} {s t : Site T B} {e : Fail}

theorem Bare.way_below {fs : FileTree B} (h : Bare target fs) (r : Path) : fileInWay fs (target ++ r) = false := by
  unfold fileInWay
  rw [List.any_eq_false]
  intro q hq hf
  rcases List.prefix_or_prefix_of_prefix ((List.mem_inits _ _).1 hq) (List.prefix_append target r) with hq | ⟨r', rfl⟩
  · exact not_fileInWay h.way hq hf
  · cases r' with
    | nil => exact not_fileInWay h.way (by rw [List.append_nil]) hf
    | cons x r' => simp [isFile, readFile, h.empty x r'] at hf

theorem Bare.not_present {fs : FileTree B} (h : Bare target fs) (x : String) (r : Path) :
    present fs (target ++ x :: r) = false := by
  rw [Bool.eq_false_iff, ne_eq, present_iff]
  rintro ⟨q, n, ⟨r', rfl⟩, hn⟩
  have hnone := h.empty x (r ++ r')
  simp only [List.append_assoc, List.cons_append] at hn
  rw [hnone] at hn
  cases hn

theorem filled_made (s : Site T B) (x : String) (r : Path) (h : Bare target s.fs) :
    Filled target (s.made (target ++ x :: r)).fs := by
  refine ⟨x, r, Option.isSome_iff_exists.2 ⟨.dir, ?_⟩⟩
  exact (get?_mkdirs s.fs _ _).trans (if_pos ⟨List.prefix_refl _, h.not_present x r⟩)

theorem filled_wrote (s : Site T B) (x : String) (r : Path) (b : B) : Filled target (s.wrote (target ++ x :: r) b).fs :=
  ⟨x, r, by rw [get?_wrote, if_pos rfl]; rfl⟩

theorem Filled.grows {name : String} (h : Filled target s.fs) (hg : Grows name target s t) : Filled target t.fs := by
  obtain ⟨x, r, hx⟩ := h
  exact ⟨x, r, hg.entries _ hx⟩

theorem made_nothing (h : Bare target s.fs) : (s.made (target ++ [])).fs = s.fs := by
  rw [List.append_nil]
  exact mkdirs_of_present (present_of_get? h.dir)

/-- the parents of a member in an empty directory -/
theorem makeParents_bare (h : Bare target s.fs) (i : ℕ) (name : Path) :
    (makeParents f target i name.dropLast : M T B Unit) s =
      if parentsPass f i name then .ok () (s.made (target ++ name.dropLast))
      else .error (.fault (.parents i)) (s.made (target ++ name.dropLast.take (f.depth i))) := by
  have hpresent : present s.fs (target ++ name.dropLast) = decide (name.length < 2) := by
    match name with
    | [] | [_] =>
      change present s.fs (target ++ []) = true
      rw [List.append_nil]
      exact present_of_get? h.dir
    | x :: y :: r =>
      rw [List.dropLast_cons_cons, h.not_present]
      simp
  unfold makeParents parentsPass
  rw [if_neg (by rw [h.way_below]; simp), hpresent]
  by_cases hr : f.raises (.parents i) = true <;> by_cases hlen : name.length < 2 <;> simp [hr, hlen]

theorem parentsPut_of_pass {i : ℕ} {name : Path} (hpass : parentsPass f i name = true) :
    parentsPut f i name = decide (2 ≤ name.length) := by
  unfold parentsPass at hpass
  unfold parentsPut
  by_cases hlen : 2 ≤ name.length
  · have hr : f.raises (.parents i) = false := by
      have hlt : ¬ name.length < 2 := by omega
      simpa [hlt] using hpass
    simp [hlen, hr]
  · simp [hlen]

/-- what is left of parents that could not be made -/
theorem parents_stop {i : ℕ} {name : Path} (h : Bare target s.fs) (hpass : parentsPass f i name = false) :
    name ≠ [] ∧ (parentsPut f i name = true → Filled target (s.made (target ++ name.dropLast.take (f.depth i))).fs) ∧
      (parentsPut f i name = false → (s.made (target ++ name.dropLast.take (f.depth i))).fs = s.fs) := by
  unfold parentsPass at hpass
  rw [Bool.or_eq_false_iff, decide_eq_false_iff_not, not_lt, Bool.not_eq_false'] at hpass
  obtain ⟨hlen, hr⟩ := hpass
  match name with
  | x :: y :: r =>
    refine ⟨by simp, ?_⟩
    cases hd : f.depth i with
    | zero =>
      rw [List.take_zero]
      refine ⟨fun hput => ?_, fun _ => made_nothing h⟩
      simp [parentsPut, hr, hd] at hput
    | succ n =>
      rw [List.dropLast_cons_cons, List.take_succ_cons]
      refine ⟨fun _ => filled_made s x _ h, fun hput => ?_⟩
      simp [parentsPut, hd] at hput

/-- a file member in an empty directory -/
theorem extractFile_bare (h : Bare target s.fs) (i : ℕ) (name : Path) (body : B) :
    ((Item.file name body).puts f i = true → Filled target (final (extractItem f target i (.file name body) s)).fs) ∧
    ((Item.file name body).puts f i = false → (Item.file name body).passes f i = false ∧
      ∃ e u, extractItem f target i (.file name body) s = .error e u ∧ u.fs = s.fs) := by
  have hparents := @makeParents_bare T B f target s h i name
  cases hpass : parentsPass f i name with
  | false =>
    rw [if_neg (by rw [hpass]; simp)] at hparents
    have hrun : extractItem f target i (.file name body) s =
        .error (.fault (.parents i)) (s.made (target ++ name.dropLast.take (f.depth i))) := by
      simp only [extractItem, bind, EStateM.bind, hparents]
    obtain ⟨hne, hfill, hsame⟩ := parents_stop h hpass
    have hputs : (Item.file name body).puts f i = parentsPut f i name := by simp [Item.puts, hpass, hne]
    rw [hrun, hputs]
    exact ⟨hfill, fun hput => ⟨by simp [Item.passes, hpass], _, _, rfl, hsame hput⟩⟩
  | true =>
  rw [if_pos hpass] at hparents
  have hrun : extractItem f target i (.file name body) s =
      writeText f (.member i) (target ++ name) body (s.made (target ++ name.dropLast)) := by
    simp only [extractItem, bind, EStateM.bind, hparents]
  have hput := parentsPut_of_pass hpass
  rw [hrun]
  cases name with
  | nil =>
    -- the directory itself cannot be opened as a file
    have hsame : (s.made (target ++ ([] : Path).dropLast)).fs = s.fs := made_nothing h
    have hd : isDir (s.made (target ++ ([] : Path).dropLast)).fs (target ++ []) = true := by
      rw [hsame, List.append_nil]
      exact isDir_of_get? h.dir
    refine ⟨fun hp => by simp [Item.puts] at hp, fun _ => ⟨by simp [Item.passes], ?_⟩⟩
    refine ⟨.isADirectory (target ++ []), s.made (target ++ ([] : Path).dropLast), ?_, hsame⟩
    unfold writeText
    rw [if_pos hd]
  | cons x r =>
    have hd : isDir (s.made (target ++ (x :: r).dropLast)).fs (target ++ x :: r) = false := by
      have hnot : present (s.made (target ++ (x :: r).dropLast)).fs (target ++ x :: r) = false := by
        rw [Bool.eq_false_iff, ne_eq]
        intro hp
        rcases present_mkdirs_iff.1 hp with hp | hp
        · rw [h.not_present x r] at hp
          cases hp
        · have hlen := hp.length_le
          simp at hlen
      simp [isDir, hnot]
    unfold writeText
    rw [if_neg (by rw [hd]; simp)]
    cases hr : f.raises (.member i) with
    | false =>
      refine ⟨fun _ => ?_, fun hp => by simp [Item.puts, hr, hpass] at hp⟩
      exact filled_wrote _ x r body
    | true =>
      cases ht : f.torn (.member i) with
      | some left =>
        refine ⟨fun _ => ?_, fun hp => by simp [Item.puts, hr, ht, hpass] at hp⟩
        exact filled_wrote _ x r left
      | none =>
        cases r with
        | nil =>
          refine ⟨fun hp => by simp [Item.puts, hr, ht, hput] at hp, fun _ => ⟨by simp [Item.passes, hr], _, _, rfl, ?_⟩⟩
          exact made_nothing h
        | cons y r =>
          refine ⟨fun _ => ?_, fun hp => by simp [Item.puts, hput] at hp⟩
          exact filled_made s x ((y :: r).dropLast) h

/-- a directory member in an empty directory -/
theorem extractDir_bare (h : Bare target s.fs) (i : ℕ) (name : Path) :
    ((Item.dir name : Item B).puts f i = true → Filled target (final (extractItem f target i (.dir name) s)).fs) ∧
    ((Item.dir name : Item B).puts f i = false →
      ((Item.dir name : Item B).passes f i = true ∧ ∃ u, extractItem f target i (.dir name) s = .ok () u ∧ u.fs = s.fs) ∨
      ((Item.dir name : Item B).passes f i = false ∧ ∃ e u, extractItem f target i (.dir name) s = .error e u ∧ u.fs = s.fs)) := by
  have hparents := @makeParents_bare T B f target s h i name
  cases hpass : parentsPass f i name with
  | false =>
    rw [if_neg (by rw [hpass]; simp)] at hparents
    have hrun : extractItem f target i (.dir name) s =
        .error (.fault (.parents i)) (s.made (target ++ name.dropLast.take (f.depth i))) := by
      simp only [extractItem, bind, EStateM.bind, hparents]
    obtain ⟨hne, hfill, hsame⟩ := parents_stop h hpass
    have hputs : (Item.dir name : Item B).puts f i = parentsPut f i name := by simp [Item.puts, hpass, hne]
    rw [hrun, hputs]
    exact ⟨hfill, fun hput => Or.inr ⟨by simp [Item.passes, hpass], _, _, rfl, hsame hput⟩⟩
  | true =>
  rw [if_pos hpass] at hparents
  have hrun : extractItem f target i (.dir name) s =
      mkdirs f (.member i) (target ++ name) (s.made (target ++ name.dropLast)) := by
    simp only [extractItem, bind, EStateM.bind, hparents]
  have hput := parentsPut_of_pass hpass
  have hway : fileInWay (s.made (target ++ name.dropLast)).fs (target ++ name) = false := by
    have hsame : fileInWay (s.made (target ++ name.dropLast)).fs (target ++ name) = fileInWay s.fs (target ++ name) :=
      fileInWay_congr fun q _ => readFile_mkdirs _ _ _
    rw [hsame]
    exact h.way_below name
  rw [hrun]
  unfold Instance.mkdirs
  cases hr : f.raises (.member i) with
  | true =>
    rw [if_pos rfl]
    match name with
    | [] =>
      exact ⟨fun hp => by simp [Item.puts] at hp, fun _ => Or.inr ⟨by simp [Item.passes, hr], _, _, rfl, made_nothing h⟩⟩
    | [x] =>
      refine ⟨fun hp => by simp [Item.puts, hr, hput] at hp, fun _ => Or.inr ⟨by simp [Item.passes, hr], _, _, rfl, ?_⟩⟩
      exact made_nothing h
    | x :: y :: r =>
      exact ⟨fun _ => filled_made s x ((y :: r).dropLast) h, fun hp => by simp [Item.puts, hput] at hp⟩
  | false =>
    rw [if_neg (by simp), if_neg (by rw [hway]; simp)]
    match name with
    | [] =>
      refine ⟨fun hp => by simp [Item.puts] at hp, fun _ => Or.inl ⟨by simp [Item.passes, hr, hpass], _, rfl, ?_⟩⟩
      have hsame : (s.made (target ++ ([] : Path).dropLast)).fs = s.fs := made_nothing h
      change Fs.mkdirs (s.made (target ++ ([] : Path).dropLast)).fs (target ++ []) = s.fs
      rw [hsame]
      exact made_nothing h
    | x :: r =>
      refine ⟨fun _ => ?_, fun hp => by simp [Item.puts, hr, hpass] at hp⟩
      refine ⟨x, r, Option.isSome_iff_exists.2 ⟨.dir, ?_⟩⟩
      refine (get?_mkdirs _ _ _).trans (if_pos ⟨List.prefix_refl _, ?_⟩)
      rw [Bool.eq_false_iff, ne_eq]
      intro hp
      rcases present_mkdirs_iff.1 hp with hp | hp
      · rw [h.not_present x r] at hp
        cases hp
      · have hlen := hp.length_le
        simp at hlen

/-- a member of an archive in an empty directory: it fills the directory, or leaves it and does or does not go on -/
theorem extractItem_bare (h : Bare target s.fs) (i : ℕ) (item : Item B) :
    (item.puts f i = true → Filled target (final (extractItem f target i item s)).fs) ∧
    (item.puts f i = false →
      (item.passes f i = true ∧ ∃ u, extractItem f target i item s = .ok () u ∧ u.fs = s.fs) ∨
      (item.passes f i = false ∧ ∃ e u, extractItem f target i item s = .error e u ∧ u.fs = s.fs)) := by
  cases item with
  | broken => exact ⟨fun hp => (nomatch hp), fun _ => Or.inr ⟨rfl, _, s, rfl, rfl⟩⟩
  | file name body =>
    obtain ⟨h₁, h₂⟩ := extractFile_bare (f := f) h i name body
    exact ⟨h₁, fun hp => Or.inr (h₂ hp)⟩
  | dir name => exact extractDir_bare h i name
  | other name puts raises =>
    cases hr : f.raises (.member i) with
    | true =>
      refine ⟨fun hp => by simp [Item.puts, hr] at hp, fun _ => Or.inr ⟨by simp [Item.passes, hr], .fault (.member i), s, ?_, rfl⟩⟩
      simp only [extractItem, hr]
      rfl
    | false =>
      cases puts with
      | nil =>
        refine ⟨fun hp => by simp [Item.puts] at hp, fun _ => ?_⟩
        cases raises with
        | true =>
          refine Or.inr ⟨by simp [Item.passes], .fault (.member i), s, ?_, rfl⟩
          simp only [extractItem, hr]
          rfl
        | false =>
          refine Or.inl ⟨by simp [Item.passes, hr], s, ?_, rfl⟩
          simp only [extractItem, hr]
          rfl
      | cons e es =>
        refine ⟨fun _ => ?_, fun hp => by simp [Item.puts, hr] at hp⟩
        -- the first entry stays
        have hfirst : Filled target (Site.put s (target ++ e.1 :: e.2.1) e.2.2).fs :=
          ⟨e.1, e.2.1, by rw [Site.put, Dict.get?_set, if_pos rfl]; rfl⟩
        have hrest : Steps (Grows "" target) (putAll target es >>= fun _ => refuse raises (.fault (.member i)) : M T B Unit) :=
          steps_bind grows_trans (grows_putAll es) fun _ => steps_refuse grows_refl _ _
        have hrun : extractItem f target i (.other name (e :: es) raises) s =
            (putAll target es >>= fun _ => refuse raises (.fault (.member i)) : M T B Unit)
              (Site.put s (target ++ e.1 :: e.2.1) e.2.2) := by
          simp only [extractItem, hr]
          rfl
        rw [hrun]
        exact hfirst.grows (hrest _)

/-- the whole archive -/
theorem extractAll_bare (h : Bare target s.fs) (i : ℕ) (items : Archive B) :
    (idle f i items = true → (final (extractAll f target i items s)).fs = s.fs) ∧
    (idle f i items = false → Filled target (final (extractAll f target i items s)).fs) := by
  induction items generalizing s i with
  | nil => exact ⟨fun _ => rfl, fun hi => (nomatch hi)⟩
  | cons item items ih =>
    obtain ⟨hput, hnot⟩ := extractItem_bare (f := f) h i item
    have hrest : Steps (Grows "" target) (extractAll f target (i + 1) items : M T B Unit) := grows_extractAll f (i + 1) items
    cases hp : item.puts f i with
    | true =>
      refine ⟨fun hi => by simp [idle, hp] at hi, fun _ => ?_⟩
      have hfilled := hput hp
      cases hx : extractItem f target i item s with
      | error e u =>
        rw [hx] at hfilled
        simp only [extractAll, bind, EStateM.bind, hx]
        exact hfilled
      | ok v u =>
        rw [hx] at hfilled
        simp only [extractAll, bind, EStateM.bind, hx]
        exact hfilled.grows (hrest u)
    | false =>
      rcases hnot hp with ⟨hpass, u, hx, hfs⟩ | ⟨hpass, e, u, hx, hfs⟩
      · have hbare : Bare target u.fs := by rw [hfs]; exact h
        simp only [idle, hp, hpass, Bool.not_false, Bool.not_true, Bool.true_and, Bool.false_or, extractAll, bind,
          EStateM.bind, hx]
        rw [← hfs]
        exact ih hbare (i + 1)
      · simp only [idle, hp, hpass, Bool.not_false, Bool.true_and, Bool.true_or, extractAll, bind, EStateM.bind, hx]
        exact ⟨fun _ => hfs, fun hi => (nomatch hi)⟩

/-- the body of the `try` in an empty directory: if it raises, the directory is as it was exactly when nothing was extracted -/
theorem restoreBody_bare [DecidableEq B] {p : Paths} {k : Codec B} {name : String} {index : Int} {manifest : Manifest}
    {archive : Archive B} (h : Bare target s.fs)
    (hx : restoreBody p k f name target index manifest archive s = .error e t) :
    (idle f 0 archive = true → t.fs = s.fs) ∧ (idle f 0 archive = false → Filled target t.fs) := by
  obtain ⟨hidle, hfill⟩ := extractAll_bare (f := f) h 0 archive
  have hrun : ((extractAll f target 0 archive >>= fun _ => (get : M T B (Site T B)) >>= fun s =>
      refuse (!isFile s.fs (instanceYaml target)) (.snapshot "archive did not contain a beetroot.yaml; refusing to register")) >>=
      fun _ => restoreRest p k f name target index manifest : M T B (Path × InstanceConfig)) s = .error e t := hx
  rcases bind_error_iff.1 hrun with h₁ | ⟨⟨⟩, s₁, h₁, hrest⟩
  · rcases bind_error_iff.1 h₁ with h₂ | ⟨⟨⟩, s₂, h₂, hyaml⟩
    · rw [h₂] at hidle hfill
      exact ⟨hidle, hfill⟩
    · rw [h₂] at hidle hfill
      have hyaml' : (refuse (!isFile s₂.fs (instanceYaml target))
          (.snapshot "archive did not contain a beetroot.yaml; refusing to register") : M T B Unit) s₂ = .error e t := hyaml
      obtain ⟨-, -, rfl⟩ := refuse_error_iff.1 hyaml'
      exact ⟨hidle, hfill⟩
  · obtain ⟨⟨⟩, s₂, h₂, hyaml⟩ := bind_ok_iff.1 h₁
    rw [h₂] at hidle hfill
    have hyaml' : (refuse (!isFile s₂.fs (instanceYaml target))
        (.snapshot "archive did not contain a beetroot.yaml; refusing to register") : M T B Unit) s₂ = .ok () s₁ := hyaml
    obtain ⟨hfile, rfl⟩ := refuse_ok_iff.1 hyaml'
    constructor
    · -- without an extracted file there is no `beetroot.yaml`
      intro hi
      have hsame := hidle hi
      have hnone := h.empty "beetroot.yaml" []
      simp only [final] at hsame
      simp [hsame, isFile, readFile, instanceYaml, hnone] at hfile
    · intro hi
      exact (hfill hi).grows ((grows_restoreRest p k f index manifest).of_error hrest)

end Extract

/-! ## Atomicity -/

/-- the call raises before it makes the directory; or the directory was there and no row is allocated; or the call raises in the
`try`, the rollback goes through, and the directory was not there or nothing was extracted into it -/
def TryKeeps (p : Paths) (J : JsonCodec B) (P : Pydantic T) (f : Faults B) (archive : Archive B) (a : RestoreArgs) (now : T)
    (s : Site T B) : Prop :=
  (restoreCheck p J P f a archive s).isOk = false ∨ f.raises .mkdir = true ∨ fileInWay s.fs (a.target p) = true ∨
  (present s.fs (a.target p) = true ∧
    (f.raises .alloc = true ∨ (allocate s.reg a.destName (.redroid (p.str (a.target p)) ∅) now).isOk = false)) ∨
  (f.raises .alloc = false ∧ (allocate s.reg a.destName (.redroid (p.str (a.target p)) ∅) now).isOk = true ∧
    f.raises .committed = false ∧ f.raises .remove = false ∧
    ((present s.fs (a.target p) = false ∧ f.raises .rmtree = false) ∨
      (present s.fs (a.target p) = true ∧ idle f 0 archive = true)))

/-- an interrupt in the network stage, which stands behind the `try`, finds the call over; and the `try` keeps what is there -/
def RestoreKeeps [DecidableEq B] (p : Paths) (k : Codec B) (J : JsonCodec B) (P : Pydantic T) (f : Faults B) (interrupted : Bool)
    (archive : Archive B) (a : RestoreArgs) (now : T) (s : Site T B) : Prop :=
  (interrupted = true → ∀ inst t, restoreLocal p k J P f archive a now s ≠ .ok inst t) ∧ TryKeeps p J P f archive a now s

section Atomic

variable {p : Paths} {k : Codec B} {J : JsonCodec B} {P : Pydantic T} {f : Faults B} {s t : Site T B} {e : Fail}
  {a : RestoreArgs} {archive : Archive B} {now : T}

/-- something that is there, is not a file and has nothing below it is an empty directory -/
theorem bare_of_present {target : Path} {fs : FileTree B} (hp : present fs target = true) (hf : isFile fs target = false)
    (ho : occupied fs target = false) (hway : fileInWay fs target = false) : Bare target fs := by
  have hbelow : ∀ q n, target <+: q → fs.get? q = some n → q = target := by
    intro q n hq hn
    by_contra hne
    have hk : q ∈ fs.keys := Dict.get?_isSome.1 (by rw [hn]; rfl)
    unfold occupied at ho
    rw [List.any_eq_false] at ho
    exact ho q hk (by simpa using ⟨hq, hne⟩)
  refine ⟨?_, hway, fun x r => ?_⟩
  · obtain ⟨q, n, hq, hn⟩ := present_iff.1 hp
    obtain rfl := hbelow q n hq hn
    cases n with
    | dir => exact hn
    | file b => simp [isFile, readFile, hn] at hf
  · rw [Option.eq_none_iff_forall_ne_some]
    intro n hn
    have := hbelow _ n (List.prefix_append _ _) hn
    simp at this

/-- the directory was there, or was made by the call -/
theorem restore_keeps_absent [DecidableEq B] {manifest : Manifest} (hp : present s.fs (a.target p) = false)
    (h : restoreInto p k f archive a manifest now s = .error e t) :
    Unchanged (a.target p) s t ↔ f.raises .mkdir = true ∨ fileInWay s.fs (a.target p) = true ∨
      (f.raises .alloc = false ∧ (allocate s.reg a.destName (.redroid (p.str (a.target p)) ∅) now).isOk = true ∧
        f.raises .committed = false ∧ f.raises .remove = false ∧ f.raises .rmtree = false) := by
  have hnone : ∀ q, a.target p <+: q → s.fs.get? q = none := fun q hq => get?_of_not_present hp hq
  have hmade : (s.made (a.target p)).fs.get? (a.target p) = some .dir :=
    (get?_mkdirs s.fs _ _).trans (if_pos ⟨List.prefix_refl _, hp⟩)
  have hchanged : ∀ u : Site T B, u.fs.get? (a.target p) = some .dir → ¬ Unchanged (a.target p) s u :=
    fun u hu => not_unchanged_entry (List.prefix_refl _) (hnone _ (List.prefix_refl _)) hu
  rcases restoreInto_error h with ⟨hmk, rfl⟩ | ⟨hmk, hway, ⟨ha, rfl⟩ | ⟨index, reg, ha, hreg, ⟨hc, rfl⟩ | ⟨hc, e', u, hbody, rfl⟩⟩⟩
  · refine iff_of_true (unchanged_refl _ t) ?_
    rcases hmk with hmk | hmk
    · exact Or.inl hmk
    · exact Or.inr (Or.inl hmk)
  · refine iff_of_false (hchanged _ hmade) ?_
    simp only [hmk, hway, Bool.false_eq_true, false_or]
    rintro ⟨ha', hok, -⟩
    rcases ha with ha | ⟨e', ha⟩
    · rw [ha] at ha'
      cases ha'
    · rw [ha] at hok
      cases hok
  · refine iff_of_false (hchanged _ hmade) ?_
    simp [hmk, hway, hc]
  · have hg := (grows_restoreBody p k f index manifest archive).of_error hbody
    have hdir := hg.dir hmade
    have hback : (⟨u.reg.instances.erase a.destName⟩ : RegistryFile T) = s.reg := by
      rw [hg.rows]
      exact (allocate_row hreg).2.2
    have hok : (allocate s.reg a.destName (.redroid (p.str (a.target p)) ∅) now).isOk = true := by
      rw [hreg]
      rfl
    simp only [hmk, hway, ha, hok, hc, Bool.false_eq_true, false_or, true_and]
    rw [hp, Bool.not_false, ← rollback_created_iff hdir hback]
    constructor
    · rintro ⟨hr, hq⟩
      exact ⟨hr, fun q hpre => (hq q hpre).trans (hnone q hpre)⟩
    · rintro ⟨hr, hq⟩
      exact ⟨hr, fun q hpre => (hq q hpre).trans (hnone q hpre).symm⟩

theorem restore_keeps_present [DecidableEq B] {manifest : Manifest} (hp : present s.fs (a.target p) = true)
    (hf : isFile s.fs (a.target p) = false) (ho : occupied s.fs (a.target p) = false)
    (h : restoreInto p k f archive a manifest now s = .error e t) :
    Unchanged (a.target p) s t ↔ f.raises .mkdir = true ∨ fileInWay s.fs (a.target p) = true ∨
      (f.raises .alloc = true ∨ (allocate s.reg a.destName (.redroid (p.str (a.target p)) ∅) now).isOk = false) ∨
      (f.raises .committed = false ∧ f.raises .remove = false ∧ idle f 0 archive = true) := by
  have hsame : (s.made (a.target p)).fs = s.fs := mkdirs_of_present hp
  rcases restoreInto_error h with ⟨hmk, rfl⟩ | ⟨hmk, hway, ⟨ha, rfl⟩ | ⟨index, reg, ha, hreg, ⟨hc, rfl⟩ | ⟨hc, e', u, hbody, rfl⟩⟩⟩
  · refine iff_of_true (unchanged_refl _ t) ?_
    rcases hmk with hmk | hmk
    · exact Or.inl hmk
    · exact Or.inr (Or.inl hmk)
  · refine iff_of_true ⟨rfl, fun q _ => by rw [hsame]⟩ (Or.inr (Or.inr (Or.inl ?_)))
    rcases ha with ha | ⟨e', ha⟩
    · exact Or.inl ha
    · exact Or.inr (by rw [ha]; rfl)
  · obtain ⟨hnew, hrow, -⟩ := allocate_row hreg
    refine iff_of_false (not_unchanged_added hnew hrow) ?_
    simp [hmk, hway, ha, hc, hreg, Except.isOk, Except.toBool]
  · obtain ⟨hnew, hrow, herase⟩ := allocate_row hreg
    have hg := (grows_restoreBody p k f index manifest archive).of_error hbody
    have hbare : Bare (a.target p) ((s.made (a.target p)).added a.destName reg).fs := by
      change Bare (a.target p) (s.made (a.target p)).fs
      rw [hsame]
      exact bare_of_present hp hf ho hway
    obtain ⟨hidle, hfill⟩ := restoreBody_bare hbare hbody
    simp only [hmk, hway, ha, hc, hreg, Except.isOk, Except.toBool, Bool.false_eq_true, Bool.true_eq_false, false_or, true_and]
    rw [hp, Bool.not_true]
    rcases rollback_final f a.destName (a.target p) false u with ⟨hrm, hu⟩ | ⟨hrm, hrowless, hfs⟩
    · -- the row stays
      rw [hu]
      refine iff_of_false ?_ (by simp [hrm])
      obtain ⟨m, hm⟩ := Option.isSome_iff_exists.1 (hg.row (by rw [Site.added, hrow]; rfl))
      exact not_unchanged_added hnew hm
    · -- the row is gone again: what counts is what was extracted
      simp only [hrm, true_and]
      have hfiles : Unchanged (a.target p) s (final (rollbackPartialCreate f a.destName (a.target p) false u)) ↔
          ∀ q, a.target p <+: q → u.fs.get? q = s.fs.get? q := by
        unfold Unchanged
        rw [hrowless, hfs, hg.rows]
        exact ⟨fun hu => hu.2, fun hu => ⟨herase, hu⟩⟩
      rw [hfiles]
      have hbase : ((s.made (a.target p)).added a.destName reg).fs = s.fs := hsame
      cases hi : idle f 0 archive with
      | true => exact iff_of_true (fun q _ => by rw [hidle hi, hbase]) rfl
      | false =>
        refine iff_of_false (fun hq => ?_) (by simp)
        obtain ⟨x, r, hx⟩ := hfill hi
        have hempty := hbare.empty x r
        rw [hbase] at hempty
        rw [hq _ (List.prefix_append _ _), hempty] at hx
        cases hx

theorem restoreLocal_keeps_iff [DecidableEq B] (hforce : a.force = false)
    (h : restoreLocal p k J P f archive a now s = .error e t) :
    Unchanged (a.target p) s t ↔ TryKeeps p J P f archive a now s := by
  unfold TryKeeps
  cases hcheck : restoreCheck p J P f a archive s with
  | error e' =>
    rw [restoreLocal_refused hcheck] at h
    cases h
    exact iff_of_true (unchanged_refl _ s) (Or.inl rfl)
  | ok manifest =>
    obtain ⟨hfile, hocc⟩ := restoreCheck_ok hcheck
    have hempty : occupied s.fs (a.target p) = false := by
      rw [Bool.eq_false_iff]
      intro ho
      rw [hocc ho] at hforce
      cases hforce
    have hclear : (clearDestination f (a.target p) : M T B Unit) s = .ok () s := by
      simp [clearDestination, hempty]
    have hinto : restoreInto p k f archive a manifest now s = .error e t := by
      rw [restoreLocal_checked hcheck] at h
      rcases bind_error_iff.1 h with h₁ | ⟨⟨⟩, s₁, h₁, h₂⟩
      · rw [hclear] at h₁
        cases h₁
      · rw [hclear] at h₁
        cases h₁
        exact h₂
    have hpassed : ¬ (Except.ok manifest : Except Fail Manifest).isOk = false := by simp [Except.isOk, Except.toBool]
    rw [or_iff_right hpassed]
    cases hp : present s.fs (a.target p) with
    | false =>
      rw [restore_keeps_absent hp hinto]
      simp only [Bool.false_eq_true, false_and, false_or, true_and, or_false]
    | true =>
      rw [restore_keeps_present hp hfile hempty hinto]
      simp only [Bool.true_eq_false, false_and, false_or, true_and]
      -- the row is allocated, or it is not
      cases f.raises .alloc <;> cases (allocate s.reg a.destName (.redroid (p.str (a.target p)) ∅) now).isOk <;> simp

/-- the row is there once the `try` is over -/
theorem restoreLocal_row [DecidableEq B] {inst : Path × InstanceConfig}
    (h : restoreLocal p k J P f archive a now s = .ok inst t) :
    a.destName ∉ s.reg.instances.keys ∧ ∃ m, t.reg.instances.get? a.destName = some m := by
  obtain ⟨manifest, index, reg, s₁, -, hclear, halloc, hbody⟩ := restoreLocal_ran h
  obtain ⟨hnew, hrow, -⟩ := allocate_row halloc
  have hreg : s₁.reg = s.reg := by
    unfold clearDestination Instance.rmtree at hclear
    split_ifs at hclear
    · cases hclear
      rfl
    · cases hclear
      rfl
  have hg := (grows_restoreBody p k f index manifest archive).of_ok hbody
  refine ⟨by rw [← hreg]; exact hnew, Option.isSome_iff_exists.1 (hg.row ?_)⟩
  change (reg.instances.get? a.destName).isSome = true
  rw [hrow]
  rfl

end Atomic

/-- `/srv/x` is an empty directory, and `/srv/y` belongs to `alpha` -/
def emptyTarget : Site String Bytes where
  reg := ⟨(∅ : Dict String (InstanceMeta String)).set "alpha" ⟨.redroid "/srv/y" ∅, 0, "then"⟩⟩
  fs := Fs.mkdirs (writeFile ∅ ["srv", "y", "beetroot.yaml"] (.inl "pinned")) ["srv", "x"]

/-- `restore` as `bravo` -/
def bravoInto (path : String) : RestoreArgs := ⟨"bravo", path, false⟩

/-- what it leaves -/
def afterRestore (path : String) : Site String Bytes :=
  final (restoreLocal Paths.sample Bytes.codec Bytes.json Pydantic.iso .none plainArchive (bravoInto path) "now" emptyTarget)

end Beetroot.Snapshot
