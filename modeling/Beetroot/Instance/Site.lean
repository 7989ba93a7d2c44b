/-
The host as a failing call leaves it: the registry, the file tree with the bytes of every file, and the calls that change them
as programs that may raise at any of their steps.

The bytes are of any type `B`. `Codec` has what the source reads from them and writes into them; `view` is the world of
`Host`, in which every file is what `load_yaml` makes of it. `Faults` is what the outside does to a call: the steps that raise,
what a raising write has left of its file, and what a raising removal has left of its tree.

Results:
- `writeText_ok`, `writeText_error`, and so on for `mkdirs`, `addAllocating`, `removeRow` and `rmtree`: every result of each
  operation;
- `runOps_frame`: file operations in a directory touch their own paths only;
- `runOps_undisturbed`: a list of them that raises has left the files alone if and only if each one it has made found its work
  done;
- `stageLocal_steps`: what local staging does to the files elsewhere and to the registry.
-/
import Beetroot.Lib.Eff
import Beetroot.Registration.Staging

namespace Beetroot.Instance

open Lib Lib.Eff Lib.Fs Registration Staging

/-! ## The state -/

/-- `load_yaml` and the renderers, on bytes -/
structure Codec (B : Type) where
  loadYaml : B → Yaml
  /-- `config.write_yaml` -/
  dumpYaml : InstanceConfig → B
  /-- `_MINIMAL_BEETROOT_YAML`, with the lifecycle line -/
  minimalYaml : Option Lifecycle → B
  renderEnv : String → InstanceConfig → Option (Dict String String) → B
  renderOverride : List ResolvedPort → B
  /-- `b""` -/
  empty : B

theorem pin_range : minPort ≤ 5565 ∧ 5565 ≤ maxPort := by decide

/-- texts that name what is in the file -/
def Codec.sample : Codec String where
  loadYaml b :=
    if b = "minimal" then .valid .plain
    else if b = "pinned" then .valid (.pinned 5565 pin_range)
    else if b = "vm" then .valid (InstanceConfig.plain.onVm "bzImage" "rootfs.img" false)
    else .invalid
  dumpYaml _ := "dumped"
  minimalYaml _ := "minimal"
  renderEnv name _ _ := "env of " ++ name
  renderOverride ports := "ports " ++ toString (ports.map (·.host))
  empty := ""

/-- a path that was created, written or removed, or a row that was added -/
inductive Touch where
  | path (p : Path)
  | row (name : String)
deriving DecidableEq

structure Site (T B : Type) where
  reg : RegistryFile T
  fs : FileTree B
  /-- what the calls have touched so far -/
  log : List Touch := []

/-- the steps at which the outside can make a call raise -/
inductive Point where
  /-- a read before anything is changed -/
  | check
  | mkdir
  | yaml
  | alloc
  /-- after the row is written, before the `try` -/
  | committed
  | scan
  | data
  | modules
  | env
  | override
  | frida
  | remove
  | rmtree
  /-- the parents of a member of an archive, and the member -/
  | parents (i : ℕ)
  | member (i : ℕ)
  | reload
  | layout
  | load
  | clear
  | copy
  /-- the network stage: `frida-server`, the `modules` directory and each module -/
  | server
  | zips
  | unlinked (x : String)
  | staged (i : ℕ)
  /-- after the network stage, or an interrupt in it -/
  | late
deriving DecidableEq

structure Faults (B : Type) where
  raises : Point → Bool
  /-- what a write that raises has left of its file; `none` when it could not open the file -/
  torn : Point → Option B
  /-- what a removal that raises has left below its path -/
  kept : Path → Bool
  /-- how many of the parents of a member were made before that raised -/
  depth : ℕ → ℕ := fun _ => 0

/-- nothing raises -/
def Faults.none {B : Type} : Faults B where
  raises _ := false
  torn _ := .none
  kept _ := false

inductive Fail where
  | invalidName (name : String)
  | lifecycleWithConfig
  | alreadyRegistered (name : String)
  | yamlExists
  | noYaml
  | badYaml
  | overlap
  | registry (e : RegError)
  | noRow
  | port (e : PortError)
  /-- a sibling publishes the port, or its file cannot be read -/
  | collision
  | notADirectory (p : Path)
  | isADirectory (p : Path)
  | fault (pt : Point)
  /-- a `SnapshotError` -/
  | snapshot (msg : String)
  | fridaFetch
  /-- a `ModuleFetchError` -/
  | fetch (url : String)
  /-- a `ModuleResolveError` -/
  | escapes (path : String)
  | notFound (p : Path)
  | fileExists (p : Path)
  | sha256Mismatch (name : String)
  | sameFile (p : Path)
  /-- an error message of the command line -/
  | cli (msg : String)

variable {T B : Type}

abbrev M (T B : Type) := EStateM Fail (Site T B)

/-- every file as `load_yaml` reads it -/
def Codec.node (k : Codec B) : Node B → Node FileBody
  | .dir => .dir
  | .file b => .file (.yaml (k.loadYaml b))

def Codec.view (k : Codec B) (s : Site T B) : World T := ⟨s.reg, s.fs.mapVals k.node⟩

theorem Codec.loadYaml_view (k : Codec B) {s : Site T B} {root : Path} {b : B}
    (h : readFile s.fs (instanceYaml root) = some b) : Beetroot.loadYaml (k.view s).fs root = some (k.loadYaml b) := by
  have hview : readFile (k.view s).fs (instanceYaml root) = some (.yaml (k.loadYaml b)) := by
    unfold readFile Codec.view
    rw [Dict.get?_mapVals, readFile_eq_some.1 h]
    rfl
  unfold Beetroot.loadYaml
  rw [hview]

theorem Codec.registered_view (k : Codec B) (s : Site T B) (name : String) :
    Registration.registered (k.view s) name = true ↔ name ∈ s.reg.instances.keys := decide_eq_true_iff

/-- the name and overlap checks read the registry only -/
theorem Codec.checks_congr (k : Codec B) {s t : Site T B} (h : t.reg = s.reg) (p : Paths) (name : String) (target : Path) :
    Registration.registered (k.view t) name = Registration.registered (k.view s) name ∧
      overlapsRow p (k.view t) target = overlapsRow p (k.view s) target := by
  have hreg : (k.view t).reg = (k.view s).reg := h
  unfold Registration.registered overlapsRow
  rw [hreg]
  exact ⟨rfl, rfl⟩

/-! ## Operations -/

section Ops

variable (f : Faults B)

def Site.wrote (s : Site T B) (p : Path) (b : B) : Site T B :=
  { s with fs := writeFile s.fs p b, log := s.log ++ [.path p] }

/-- `write_text`, `write_bytes`: the file is opened, truncated and written -/
def writeText (pt : Point) (p : Path) (b : B) : M T B Unit := fun s =>
  if isDir s.fs p then .error (.isADirectory p) s
  else if f.raises pt then
    .error (.fault pt) (match f.torn pt with
      | some left => s.wrote p left
      | none => s)
  else .ok () (s.wrote p b)

def Site.made (s : Site T B) (p : Path) : Site T B := { s with fs := Fs.mkdirs s.fs p, log := s.log ++ [.path p] }

/-- `mkdir(parents=True, exist_ok=True)` -/
def mkdirs (pt : Point) (p : Path) : M T B Unit := fun s =>
  if f.raises pt then .error (.fault pt) s
  else if fileInWay s.fs p then .error (.notADirectory p) s
  else .ok () (s.made p)

def Site.added (s : Site T B) (name : String) (reg : RegistryFile T) : Site T B :=
  { s with reg := reg, log := s.log ++ [.row name] }

/-- `registry.add_allocating` -/
def addAllocating (name : String) (backend : BackendConfig) (now : T) : M T B Int := fun s =>
  if f.raises .alloc then .error (.fault .alloc) s
  else
    match allocate s.reg name backend now with
    | .error e => .error (.registry e) s
    | .ok (index, reg) =>
      if f.raises .committed then .error (.fault .committed) (s.added name reg) else .ok index (s.added name reg)

/-- `registry.remove` -/
def removeRow (name : String) : M T B Unit := fun s =>
  if f.raises .remove then .error (.fault .remove) s
  else .ok () { s with reg := ⟨s.reg.instances.erase name⟩ }

/-- `shutil.rmtree`; the directory itself goes last -/
def rmtree (pt : Point) (p : Path) : M T B Unit := fun s =>
  if f.raises pt then
    .error (.fault pt) { s with fs := prune s.fs p (fun q => q = p || f.kept q), log := s.log ++ [.path p] }
  else .ok () { s with fs := prune s.fs p (fun _ => false), log := s.log ++ [.path p] }

/-- `_rollback_partial_create`, and the `except` block of `restore` -/
def rollbackPartialCreate (name : String) (target : Path) (created : Bool) : M T B Unit := do
  removeRow f name
  let s ← get
  if created && present s.fs target then rmtree f .rmtree target else pure ()

end Ops

section OpSpecs

variable {f : Faults B} {pt : Point} {p : Path} {b : B} {s t : Site T B} {e : Fail}

theorem writeText_ok {u : Unit} (h : writeText f pt p b s = .ok u t) :
    isDir s.fs p = false ∧ f.raises pt = false ∧ t = s.wrote p b := by
  unfold writeText at h
  split_ifs at h with hd hr
  cases h
  exact ⟨by simpa using hd, by simpa using hr, rfl⟩

theorem writeText_error (h : writeText f pt p b s = .error e t) :
    (isDir s.fs p = true ∧ t = s) ∨ (isDir s.fs p = false ∧ f.raises pt = true ∧
      ((f.torn pt = none ∧ t = s) ∨ ∃ left, f.torn pt = some left ∧ t = s.wrote p left)) := by
  unfold writeText at h
  split_ifs at h with hd hr
  · cases h
    exact Or.inl ⟨hd, rfl⟩
  · refine Or.inr ⟨by simpa using hd, hr, ?_⟩
    cases ht : f.torn pt with
    | none =>
      rw [ht] at h
      cases h
      exact Or.inl ⟨rfl, rfl⟩
    | some left =>
      rw [ht] at h
      cases h
      exact Or.inr ⟨left, rfl, rfl⟩

theorem mkdirs_ok {u : Unit} (h : mkdirs f pt p s = .ok u t) :
    f.raises pt = false ∧ fileInWay s.fs p = false ∧ t = s.made p := by
  unfold mkdirs at h
  split_ifs at h with hr hw
  cases h
  exact ⟨by simpa using hr, by simpa using hw, rfl⟩

theorem mkdirs_error (h : mkdirs f pt p s = .error e t) : (f.raises pt = true ∨ fileInWay s.fs p = true) ∧ t = s := by
  unfold mkdirs at h
  split_ifs at h with hr hw
  · cases h
    exact ⟨Or.inl hr, rfl⟩
  · cases h
    exact ⟨Or.inr hw, rfl⟩

variable {name : String} {backend : BackendConfig} {now : T}

theorem addAllocating_ok {index : Int} (h : addAllocating f name backend now s = .ok index t) :
    ∃ reg, f.raises .alloc = false ∧ allocate s.reg name backend now = .ok (index, reg) ∧ f.raises .committed = false ∧
      t = s.added name reg := by
  unfold addAllocating at h
  cases hr : f.raises .alloc <;> rw [hr] at h
  · cases ha : allocate s.reg name backend now with
    | error e => rw [ha] at h; cases h
    | ok x =>
      cases hc : f.raises .committed <;> rw [ha, hc] at h
      · cases h
        exact ⟨x.2, rfl, rfl, rfl, rfl⟩
      · cases h
  · cases h

theorem addAllocating_error (h : addAllocating f name backend now s = .error e t) :
    ((f.raises .alloc = true ∨ ∃ e', allocate s.reg name backend now = .error e') ∧ t = s) ∨
      (f.raises .alloc = false ∧ f.raises .committed = true ∧ ∃ index reg, allocate s.reg name backend now = .ok (index, reg) ∧
        t = s.added name reg) := by
  unfold addAllocating at h
  cases hr : f.raises .alloc <;> rw [hr] at h
  · cases ha : allocate s.reg name backend now with
    | error e' =>
      rw [ha] at h
      cases h
      exact Or.inl ⟨Or.inr ⟨e', rfl⟩, rfl⟩
    | ok x =>
      cases hc : f.raises .committed <;> rw [ha, hc] at h
      · cases h
      · cases h
        exact Or.inr ⟨rfl, rfl, x.1, x.2, rfl, rfl⟩
  · cases h
    exact Or.inl ⟨Or.inl rfl, rfl⟩

/-- everything a rollback does -/
theorem rollback_final (f : Faults B) (name : String) (target : Path) (created : Bool) (u : Site T B) :
    (f.raises .remove = true ∧ final (rollbackPartialCreate f name target created u) = u) ∨
    (f.raises .remove = false ∧
      (final (rollbackPartialCreate f name target created u)).reg = ⟨u.reg.instances.erase name⟩ ∧
      (final (rollbackPartialCreate f name target created u)).fs =
        if created && present u.fs target then prune u.fs target fun q => f.raises .rmtree && (q = target || f.kept q)
        else u.fs) := by
  cases hr : f.raises .remove with
  | true =>
    refine Or.inl ⟨rfl, ?_⟩
    have : removeRow f name u = .error (.fault .remove) u := by simp [removeRow, hr]
    simp only [rollbackPartialCreate, bind, EStateM.bind, this, final]
  | false =>
    refine Or.inr ⟨rfl, ?_⟩
    have hrow : removeRow f name u = .ok () { u with reg := ⟨u.reg.instances.erase name⟩ } := by simp [removeRow, hr]
    have hrun : rollbackPartialCreate f name target created u =
        (if created && present u.fs target then rmtree f .rmtree target else pure ())
          { u with reg := ⟨u.reg.instances.erase name⟩ } := by
      simp only [rollbackPartialCreate, bind, EStateM.bind, hrow]
      rfl
    rw [hrun]
    by_cases hc : (created && present u.fs target) = true
    · simp only [hc, if_true]
      cases hm : f.raises .rmtree with
      | true => simp [rmtree, hm, final]
      | false => simp [rmtree, hm, final]
    · simp only [hc]
      exact ⟨rfl, rfl⟩

/-- a rollback of a directory that the call has made: nothing is left exactly when it goes through -/
theorem rollback_created_iff {u : Site T B} {target : Path} {d : RegistryFile T} (hdir : u.fs.get? target = some .dir)
    (hreg : (⟨u.reg.instances.erase name⟩ : RegistryFile T) = d) :
    ((final (rollbackPartialCreate f name target true u)).reg = d ∧
        ∀ q, target <+: q → (final (rollbackPartialCreate f name target true u)).fs.get? q = none) ↔
      f.raises .remove = false ∧ f.raises .rmtree = false := by
  have hself := List.prefix_refl target
  rcases rollback_final f name target true u with ⟨hrm, hu⟩ | ⟨hrm, hrow, hfs⟩
  · rw [hu]
    refine iff_of_false ?_ (by simp [hrm])
    rintro ⟨-, hnone⟩
    rw [hnone target hself] at hdir
    cases hdir
  · rw [present_of_get? hdir, Bool.and_self, if_pos rfl] at hfs
    rw [hrow, hfs, hreg]
    cases ht : f.raises .rmtree with
    | true =>
      -- the directory itself goes last
      refine iff_of_false ?_ (by simp)
      rintro ⟨-, hnone⟩
      have hleft := hnone target hself
      rw [get?_prune, if_neg (by simp), hdir] at hleft
      cases hleft
    | false =>
      refine iff_of_true ⟨rfl, fun q hq => ?_⟩ ⟨hrm, rfl⟩
      rw [get?_prune, if_pos ⟨hq, by simp⟩]

end OpSpecs

/-! ## As before -/

/-- the registry and everything at or below the target are as they were -/
def Unchanged (target : Path) (s t : Site T B) : Prop :=
  t.reg = s.reg ∧ ∀ q, target <+: q → t.fs.get? q = s.fs.get? q

theorem unchanged_refl (target : Path) (s : Site T B) : Unchanged target s s := ⟨rfl, fun _ _ => rfl⟩

theorem Unchanged.present {target q : Path} {s t : Site T B} (h : Unchanged target s t) (hq : target <+: q) :
    present t.fs q = present s.fs q := by
  rw [Bool.eq_iff_iff, present_iff, present_iff]
  constructor
  · rintro ⟨r, n, hr, hn⟩
    exact ⟨r, n, hr, by rw [← h.2 r (hq.trans hr)]; exact hn⟩
  · rintro ⟨r, n, hr, hn⟩
    exact ⟨r, n, hr, by rw [h.2 r (hq.trans hr)]; exact hn⟩

theorem Unchanged.readFile {target q : Path} {s t : Site T B} (h : Unchanged target s t) (hq : target <+: q) :
    readFile t.fs q = readFile s.fs q := by
  unfold Fs.readFile
  rw [h.2 q hq]

/-- a row that was added is a change -/
theorem not_unchanged_added {target : Path} {s t : Site T B} {name : String} {m : InstanceMeta T}
    (hn : name ∉ s.reg.instances.keys) (h : t.reg.instances.get? name = some m) : ¬ Unchanged target s t := by
  intro hu
  rw [hu.1, Dict.get?_eq_none.2 hn] at h
  cases h

/-- an entry that was added is a change -/
theorem not_unchanged_entry {target q : Path} {s t : Site T B} {n : Node B} (hq : target <+: q)
    (hs : s.fs.get? q = none) (ht : t.fs.get? q = some n) : ¬ Unchanged target s t := by
  intro hu
  rw [hu.2 q hq, hs] at ht
  cases ht

/-! ## File operations in a directory -/

/-- one statement of local staging -/
inductive FileOp (B : Type) where
  | mkdir (pt : Point) (p : Path)
  | write (pt : Point) (p : Path) (b : B)
  /-- write, unless a directory or a file with other bytes is there -/
  | fill (pt : Point) (p : Path) (b : B)

section FileOps

variable [DecidableEq B] (f : Faults B)

def FileOp.path : FileOp B → Path
  | .mkdir _ p | .write _ p _ | .fill _ p _ => p

def FileOp.skipped (fs : FileTree B) : FileOp B → Bool
  | .fill _ p b => isDir fs p || (readFile fs p).any fun b' => b' ≠ b
  | _ => false

def FileOp.run : FileOp B → M T B Unit
  | .mkdir pt p => mkdirs f pt p
  | .write pt p b => writeText f pt p b
  | .fill pt p b => fun s => if (FileOp.fill pt p b).skipped s.fs then .ok () s else writeText f pt p b s

def runOps : List (FileOp B) → M T B Unit
  | [] => pure ()
  | op :: ops => do
    op.run f
    runOps ops

/-- the operation raises -/
def FileOp.raises (fs : FileTree B) : FileOp B → Bool
  | .mkdir pt p => f.raises pt || fileInWay fs p
  | .write pt p _ => isDir fs p || f.raises pt
  | .fill pt p b => !(FileOp.fill pt p b).skipped fs && f.raises pt

/-- what the operation makes is there already -/
def FileOp.done (fs : FileTree B) : FileOp B → Bool
  | .mkdir _ p => present fs p
  | .write _ p b => readFile fs p = some b
  | .fill _ p _ => isDir fs p || isFile fs p

/-- if it raises, it has left the file as it was -/
def FileOp.harmless (fs : FileTree B) : FileOp B → Bool
  | .mkdir _ _ => true
  | .write pt p _ | .fill pt p _ => isDir fs p || (f.torn pt).all fun left => readFile fs p = some left

/-- every operation up to the one that raises finds its work done, and that one leaves its file as it was -/
def undisturbed (fs : FileTree B) : List (FileOp B) → Bool
  | [] => true
  | op :: ops => if op.raises f fs then op.harmless f fs else op.done fs && undisturbed fs ops

end FileOps

section FileOpSpecs

variable {f : Faults B} {s t : Site T B} {e : Fail} {root : Path}

/-- a file that is written is the only change -/
theorem get?_wrote (s : Site T B) (p q : Path) (b : B) :
    (s.wrote p b).fs.get? q = if q = p then some (.file b) else s.fs.get? q := get?_write s.fs p q b

theorem wrote_self {p : Path} {b : B} (h : readFile s.fs p = some b) : (s.wrote p b).fs = s.fs :=
  Dict.set_self (readFile_eq_some.1 h)

theorem wrote_ne {p : Path} {b : B} (h : readFile s.fs p ≠ some b) : (s.wrote p b).fs.get? p ≠ s.fs.get? p := by
  rw [get?_wrote, if_pos rfl]
  intro hp
  exact h (readFile_eq_some.2 hp.symm)

/-- a write that raises: the file is as it was exactly when nothing was left of the write, or what was there before -/
theorem writeText_raised [DecidableEq B] {pt : Point} {p : Path} {b : B} (h : writeText f pt p b s = .error e t) :
    (isDir s.fs p = true ∨ f.raises pt = true) ∧ t.reg = s.reg ∧ (∀ q ≠ p, t.fs.get? q = s.fs.get? q) ∧
      (t.fs.get? p = s.fs.get? p ↔ (isDir s.fs p || (f.torn pt).all fun left => readFile s.fs p = some left) = true) := by
  rcases writeText_error h with ⟨hd, rfl⟩ | ⟨hd, hr, ⟨ht, rfl⟩ | ⟨left, ht, rfl⟩⟩
  · exact ⟨Or.inl hd, rfl, fun _ _ => rfl, by simp [hd]⟩
  · exact ⟨Or.inr hr, rfl, fun _ _ => rfl, by simp [ht]⟩
  · refine ⟨Or.inr hr, rfl, fun q hq => by rw [get?_wrote, if_neg hq], ?_⟩
    simp only [hd, ht, Bool.false_or, Option.all_some, decide_eq_true_eq]
    constructor
    · intro hp
      by_contra hne
      exact wrote_ne hne hp
    · intro hb
      rw [wrote_self hb]

theorem FileOp.run_error [DecidableEq B] {op : FileOp B} (h : op.run f s = .error e t) :
    op.raises f s.fs = true ∧ t.reg = s.reg ∧ (∀ q ≠ op.path, t.fs.get? q = s.fs.get? q) ∧
      (t.fs.get? op.path = s.fs.get? op.path ↔ op.harmless f s.fs = true) := by
  cases op with
  | mkdir pt p =>
    obtain ⟨hr, rfl⟩ := mkdirs_error h
    exact ⟨by simpa [FileOp.raises] using hr, rfl, fun _ _ => rfl, by simp [FileOp.harmless]⟩
  | write pt p b =>
    obtain ⟨hr, hreg, hq, hp⟩ := writeText_raised h
    exact ⟨by simpa [FileOp.raises] using hr, hreg, hq, hp⟩
  | fill pt p b =>
    simp only [FileOp.run] at h
    split_ifs at h with hskip
    obtain ⟨hr, hreg, hq, hp⟩ := writeText_raised h
    refine ⟨?_, hreg, hq, hp⟩
    have hd : isDir s.fs p = false := by
      simp only [FileOp.skipped, Bool.or_eq_true, not_or] at hskip
      simpa using hskip.1
    simpa [FileOp.raises, hskip, hd] using hr

theorem FileOp.run_ok [DecidableEq B] {op : FileOp B} {u : Unit} {x : String} (hroot : present s.fs root = true)
    (hpath : op.path = root ++ [x]) (h : op.run f s = .ok u t) :
    op.raises f s.fs = false ∧ t.reg = s.reg ∧ (∀ q ≠ op.path, t.fs.get? q = s.fs.get? q) ∧
      (op.done s.fs = true → t.fs = s.fs) ∧ (op.done s.fs = false → t.fs.get? op.path ≠ s.fs.get? op.path) := by
  cases op with
  | mkdir pt p =>
    obtain ⟨hr, hw, rfl⟩ := mkdirs_ok h
    obtain rfl : p = root ++ [x] := hpath
    refine ⟨by simp [FileOp.raises, hr, hw], rfl, fun q hq => get?_mkdirs_child hroot hq,
      fun hd => mkdirs_of_present hd, fun hd => ?_⟩
    change present s.fs (root ++ [x]) = false at hd
    change (Fs.mkdirs s.fs (root ++ [x])).get? (root ++ [x]) ≠ s.fs.get? (root ++ [x])
    rw [get?_mkdirs, if_pos ⟨List.prefix_refl _, hd⟩, get?_of_not_present hd (List.prefix_refl _)]
    simp
  | write pt p b =>
    obtain ⟨hd, hr, rfl⟩ := writeText_ok h
    refine ⟨by simp [FileOp.raises, hd, hr], rfl, fun q hq => ?_, fun hdone => ?_, fun hdone => ?_⟩
    · rw [get?_wrote]
      exact if_neg hq
    · exact wrote_self (by simpa [FileOp.done] using hdone)
    · exact wrote_ne (by simpa [FileOp.done] using hdone)
  | fill pt p b =>
    simp only [FileOp.run] at h
    split_ifs at h with hskip
    · cases h
      refine ⟨by simp [FileOp.raises, hskip], rfl, fun _ _ => rfl, fun _ => rfl, fun hdone => ?_⟩
      -- what is skipped is there
      simp only [FileOp.done, Bool.or_eq_false_iff] at hdone
      simp only [FileOp.skipped, hdone.1, Bool.false_or] at hskip
      have hnone : readFile s.fs p = none := by simpa [isFile] using hdone.2
      rw [hnone] at hskip
      cases hskip
    · obtain ⟨hd, hr, rfl⟩ := writeText_ok h
      refine ⟨by simp [FileOp.raises, hr], rfl, fun q hq => ?_, fun hdone => ?_, fun hdone => ?_⟩
      · rw [get?_wrote]
        exact if_neg hq
      · refine wrote_self ?_
        simp only [FileOp.done, hd, Bool.false_or, isFile] at hdone
        obtain ⟨b', hb'⟩ := Option.isSome_iff_exists.1 hdone
        simp only [FileOp.skipped, hd, Bool.false_or, hb', Option.any_some, decide_eq_true_eq, not_not] at hskip
        rw [hb', hskip]
      · refine wrote_ne fun hb => ?_
        simp [FileOp.done, isFile, hb] at hdone

/-- the operations work on different entries of one directory -/
def In (root : Path) (ops : List (FileOp B)) : Prop :=
  (∀ op ∈ ops, ∃ x, op.path = root ++ [x]) ∧ (ops.map FileOp.path).Nodup

theorem In.tail {op : FileOp B} {ops : List (FileOp B)} (h : In root (op :: ops)) : In root ops :=
  ⟨fun o ho => h.1 o (List.mem_cons_of_mem _ ho), (List.nodup_cons.1 h.2).2⟩

/-- `root` stays present, the registry and everything that is not touched stay as they are -/
def Frame (root : Path) (touched : Path → Prop) (s t : Site T B) : Prop :=
  present s.fs root = true → t.reg = s.reg ∧ present t.fs root = true ∧ ∀ q, ¬ touched q → t.fs.get? q = s.fs.get? q

theorem frame_refl (root : Path) (touched : Path → Prop) (s : Site T B) : Frame root touched s s :=
  fun h => ⟨rfl, h, fun _ _ => rfl⟩

theorem frame_trans {touched : Path → Prop} (s t u : Site T B) (h₁ : Frame root touched s t) (h₂ : Frame root touched t u) :
    Frame root touched s u := by
  intro h
  obtain ⟨hreg, hroot, hq⟩ := h₁ h
  obtain ⟨hreg', hroot', hq'⟩ := h₂ hroot
  exact ⟨hreg'.trans hreg, hroot', fun q hn => (hq' q hn).trans (hq q hn)⟩

/-- one changed entry below `root` -/
theorem frame_of_ne {p : Path} (hreg : t.reg = s.reg) (hp : (s.fs.get? p).isSome = true → (t.fs.get? p).isSome = true)
    (h : ∀ q ≠ p, t.fs.get? q = s.fs.get? q) : Frame root (· = p) s t := by
  intro hroot
  refine ⟨hreg, ?_, h⟩
  obtain ⟨q, n, hq, hn⟩ := present_iff.1 hroot
  by_cases hqp : q = p
  · subst hqp
    obtain ⟨n', hn'⟩ := Option.isSome_iff_exists.1 (hp (by rw [hn]; rfl))
    exact present_iff.2 ⟨q, n', hq, hn'⟩
  · exact present_iff.2 ⟨q, n, hq, by rw [h q hqp]; exact hn⟩

theorem frame_wrote (s : Site T B) (root p : Path) (b : B) : Frame root (· = p) s (s.wrote p b) := by
  refine frame_of_ne rfl (fun _ => ?_) fun q hq => ?_
  · rw [get?_wrote, if_pos rfl]
    rfl
  · rw [get?_wrote, if_neg hq]

theorem writeText_frame (f : Faults B) (pt : Point) (p : Path) (b : B) (root : Path) :
    Steps (Frame root (· = p)) (writeText f pt p b : M T B Unit) := by
  intro s
  unfold writeText
  split_ifs
  · exact frame_refl _ _ s
  · cases f.torn pt with
    | none => exact frame_refl _ _ s
    | some left => exact frame_wrote s root p left
  · exact frame_wrote s root p b

theorem FileOp.run_frame [DecidableEq B] (f : Faults B) {op : FileOp B} {x : String} (hpath : op.path = root ++ [x]) :
    Steps (Frame root (· = op.path)) (op.run f : M T B Unit) := by
  intro s
  cases op with
  | mkdir pt p =>
    obtain rfl : p = root ++ [x] := hpath
    simp only [FileOp.run, mkdirs]
    split_ifs
    · exact frame_refl _ _ s
    · exact frame_refl _ _ s
    · intro hroot
      refine frame_of_ne rfl (fun hp => ?_) (fun q hq => get?_mkdirs_child hroot hq) hroot
      obtain ⟨n, hn⟩ := Option.isSome_iff_exists.1 hp
      have hkept : (Fs.mkdirs s.fs (root ++ [x])).get? (root ++ [x]) = some n := get?_mkdirs_of_some hn
      exact Option.isSome_iff_exists.2 ⟨n, hkept⟩
  | write pt p b => exact writeText_frame f pt p b root s
  | fill pt p b =>
    simp only [FileOp.run]
    split_ifs
    · exact frame_refl _ _ s
    · exact writeText_frame f pt p b root s

theorem runOps_frame [DecidableEq B] (f : Faults B) {ops : List (FileOp B)} (hin : ∀ op ∈ ops, ∃ x, op.path = root ++ [x]) :
    Steps (Frame root fun q => q ∈ ops.map FileOp.path) (runOps f ops : M T B Unit) := by
  induction ops with
  | nil => exact steps_pure (frame_refl _ _) ()
  | cons op ops ih =>
    obtain ⟨x, hx⟩ := hin op List.mem_cons_self
    refine steps_bind frame_trans ?_ fun _ => ?_
    · refine (FileOp.run_frame f hx).mono fun s t h hroot => ?_
      obtain ⟨h1, h2, h3⟩ := h hroot
      exact ⟨h1, h2, fun q hq => h3 q fun he => hq (by rw [he]; exact List.mem_cons_self)⟩
    · refine (ih fun o ho => hin o (List.mem_cons_of_mem _ ho)).mono fun s t h hroot => ?_
      obtain ⟨h1, h2, h3⟩ := h hroot
      exact ⟨h1, h2, fun q hq => h3 q fun he => hq (List.mem_cons_of_mem _ he)⟩

/-- operations that raise have left every file below the directory alone exactly when they were undisturbed -/
theorem runOps_undisturbed [DecidableEq B] {ops : List (FileOp B)} (hin : In root ops) (hroot : present s.fs root = true)
    (h : runOps f ops s = .error e t) :
    (∀ q, root <+: q → t.fs.get? q = s.fs.get? q) ↔ undisturbed f s.fs ops = true := by
  induction ops generalizing s with
  | nil => cases h
  | cons op ops ih =>
    obtain ⟨x, hx⟩ := hin.1 op List.mem_cons_self
    have hbelow : root <+: op.path := by rw [hx]; exact List.prefix_append root [x]
    rcases bind_error_iff.1 h with h | ⟨u, s', hop, hrest⟩
    · -- the operation itself raises
      obtain ⟨hr, -, hne, hiff⟩ := FileOp.run_error h
      rw [undisturbed, if_pos hr, ← hiff]
      constructor
      · intro hq
        exact hq _ hbelow
      · intro hp q _
        by_cases hqp : q = op.path
        · rw [hqp]; exact hp
        · exact hne q hqp
    · obtain ⟨hr, -, hne, hdone, hnot⟩ := FileOp.run_ok hroot hx hop
      have hr' : ¬ op.raises f s.fs = true := by rw [hr]; simp
      rw [undisturbed, if_neg hr']
      cases hd : op.done s.fs with
      | true =>
        have hsame := hdone hd
        rw [Bool.true_and, ← hsame]
        exact ih hin.tail (by rw [hsame]; exact hroot) hrest
      | false =>
        -- nothing later touches the entry it has changed
        rw [Bool.false_and]
        refine iff_of_false (fun hq => ?_) (by simp)
        have hroot' := ((FileOp.run_frame f hx).of_ok hop hroot).2.1
        have hkeep := ((runOps_frame f hin.tail.1).of_error hrest hroot').2.2 op.path (List.nodup_cons.1 hin.2).1
        exact hnot hd (hkeep.symm.trans (hq _ hbelow))

end FileOpSpecs

/-! ## Files elsewhere -/

/-- the registry and every file that is not touched stay as they are -/
def Only (touched : Path → Prop) (s t : Site T B) : Prop :=
  t.reg = s.reg ∧ ∀ q, ¬ touched q → readFile t.fs q = readFile s.fs q

section Only

variable {touched : Path → Prop}

theorem only_refl (s : Site T B) : Only touched s s := ⟨rfl, fun _ _ => rfl⟩

theorem only_trans (s t u : Site T B) (h₁ : Only touched s t) (h₂ : Only touched t u) : Only touched s u :=
  ⟨h₂.1.trans h₁.1, fun q hq => (h₂.2 q hq).trans (h₁.2 q hq)⟩

theorem Only.mono {touched' : Path → Prop} {s t : Site T B} (h : Only touched s t) (hsub : ∀ q, touched q → touched' q) :
    Only touched' s t := ⟨h.1, fun q hq => h.2 q fun hq' => hq (hsub q hq')⟩

theorem only_wrote (s : Site T B) (p : Path) (b : B) : Only (· = p) s (s.wrote p b) :=
  ⟨rfl, fun q hq => by simp only [Site.wrote, readFile_write_ne hq]⟩

theorem writeText_only (f : Faults B) (pt : Point) (p : Path) (b : B) : Steps (Only (· = p)) (writeText f pt p b : M T B Unit) := by
  intro s
  unfold writeText
  split_ifs
  · exact only_refl s
  · cases f.torn pt with
    | none => exact only_refl s
    | some left => exact only_wrote s p left
  · exact only_wrote s p b

theorem mkdirs_only (f : Faults B) (pt : Point) (p : Path) : Steps (Only touched) (mkdirs f pt p : M T B Unit) := by
  intro s
  unfold Instance.mkdirs
  split_ifs
  · exact only_refl s
  · exact only_refl s
  · exact ⟨rfl, fun q _ => readFile_mkdirs s.fs p q⟩

theorem FileOp.run_only [DecidableEq B] (f : Faults B) (op : FileOp B) : Steps (Only (· = op.path)) (op.run f : M T B Unit) := by
  cases op with
  | mkdir pt p => exact mkdirs_only f pt p
  | write pt p b => exact writeText_only f pt p b
  | fill pt p b =>
    intro s
    simp only [FileOp.run, FileOp.path]
    split_ifs
    · exact only_refl s
    · exact writeText_only f pt p b s

theorem runOps_only [DecidableEq B] (f : Faults B) (ops : List (FileOp B)) :
    Steps (Only (· ∈ ops.map FileOp.path)) (runOps f ops : M T B Unit) := by
  induction ops with
  | nil => exact steps_pure only_refl ()
  | cons op ops ih =>
    refine steps_bind only_trans ?_ fun _ => ?_
    · refine (FileOp.run_only f op).mono fun s t h => h.mono fun q hq => ?_
      rw [hq]
      exact List.mem_cons_self
    · exact ih.mono fun s t h => h.mono fun q hq => List.mem_cons_of_mem _ hq

/-- what a list of operations on different paths has written is there at the end -/
theorem runOps_wrote [DecidableEq B] {f : Faults B} {s t : Site T B} {ops : List (FileOp B)} {u : Unit}
    (hnodup : (ops.map FileOp.path).Nodup) {pt : Point} {q : Path} {b : B} (hop : .write pt q b ∈ ops)
    (h : runOps f ops s = .ok u t) : readFile t.fs q = some b := by
  induction ops generalizing s with
  | nil => cases hop
  | cons op ops ih =>
    obtain ⟨⟨⟩, s₁, h₁, hrest⟩ := bind_ok_iff.1 h
    obtain ⟨hnot, hnodup'⟩ := List.nodup_cons.1 hnodup
    rcases List.mem_cons.1 hop with rfl | hop
    · obtain ⟨-, -, rfl⟩ := writeText_ok h₁
      rw [((runOps_only f ops).of_ok hrest).2 q hnot, Site.wrote, readFile_write_self]
    · exact ih hnodup' hop hrest

end Only

/-! ## Local staging -/

def instanceFrida (root : Path) : Path := root ++ ["frida-server"]

/-- `backend.stealth_paths if isinstance(backend, RedroidBackendConfig) else None` -/
def stealthPathsOf : BackendConfig → Option (Dict String String)
  | .redroid _ sp => some sp
  | _ => none

section Stage

variable (p : Paths) (k : Codec B) (f : Faults B)

/-- the statements of `_stage_local`; an empty `frida-server` is placed unless frida is configured and a binary is there -/
def stagePlan (name : String) (root : Path) (cfg : InstanceConfig) (backend : BackendConfig) (ports : List ResolvedPort) :
    List (FileOp B) :=
  [.mkdir .data (instanceData root), .mkdir .modules (instanceModules root),
    .write .env (instanceEnv root) (k.renderEnv name cfg (stealthPathsOf backend)),
    .write .override (instanceComposeOverride root) (k.renderOverride ports),
    if cfg.frida then .fill .frida (instanceFrida root) k.empty else .write .frida (instanceFrida root) k.empty]

/-- the row of a name; `none` is the `KeyError` of a row that has disappeared -/
def metaOf (name : String) : M T B (InstanceMeta T) := fun s =>
  match s.reg.instances.get? name with
  | some m => .ok m s
  | none => .error .noRow s

def resolvePortsM (index : Int) (cfg : InstanceConfig) : M T B (List ResolvedPort) :=
  raising ((resolvePorts index cfg.ports).mapError Fail.port)

/-- `Instance._stage_local` -/
def stageLocal [DecidableEq B] (name : String) (root : Path) (cfg : InstanceConfig) : M T B Unit := do
  let m ← metaOf name
  let ports ← resolvePortsM m.index cfg
  runOps f (stagePlan k name root cfg m.backend ports)

/-- `_check_port_collisions` -/
def checkPortCollisions (name : String) (ports : List ResolvedPort) : M T B Unit := fun s =>
  if f.raises .scan then .error (.fault .scan) s
  else if noPortCollision p (k.view s) name ports then .ok () s
  else .error .collision s

end Stage

/-- the entries that staging may write -/
def Staged (root q : Path) : Prop :=
  ∃ x ∈ ["data", "modules", ".env", "compose.override.yaml", "frida-server"], q = root ++ [x]

theorem not_staged_root (root : Path) : ¬ Staged root root := by
  rintro ⟨x, -, h⟩
  have := congrArg List.length h
  simp at this

theorem not_staged_yaml (root : Path) : ¬ Staged root (instanceYaml root) := by
  rintro ⟨x, hx, h⟩
  have heq : "beetroot.yaml" = x := by simpa [instanceYaml] using h
  subst heq
  simp at hx

section StageSpecs

variable {p : Paths} {k : Codec B} {f : Faults B} {s t : Site T B} {e : Fail} {name : String} {root : Path}
  {cfg : InstanceConfig}

theorem stagePlan_in (k : Codec B) (name : String) (root : Path) (cfg : InstanceConfig) (backend : BackendConfig)
    (ports : List ResolvedPort) : In root (stagePlan k name root cfg backend ports) := by
  have hpaths : (stagePlan k name root cfg backend ports).map FileOp.path =
      ["data", "modules", ".env", "compose.override.yaml", "frida-server"].map fun x => root ++ [x] := by
    cases hf : cfg.frida <;> simp [stagePlan, hf, FileOp.path, instanceData, instanceModules, instanceEnv,
      instanceComposeOverride, instanceFrida]
  constructor
  · intro op hop
    have hmem : op.path ∈ (stagePlan k name root cfg backend ports).map FileOp.path := List.mem_map_of_mem hop
    rw [hpaths] at hmem
    obtain ⟨x, -, hx⟩ := List.mem_map.1 hmem
    exact ⟨x, hx.symm⟩
  · rw [hpaths]
    refine List.Nodup.map (fun a b h => ?_) (by decide)
    simpa using List.append_cancel_left h

/-- the entries that local staging writes -/
theorem stagePlan_paths {backend : BackendConfig} {ports : List ResolvedPort} {q : Path}
    (hq : q ∈ (stagePlan k name root cfg backend ports).map FileOp.path) :
    Staged root q := by
  cases hf : cfg.frida <;>
    simpa [Staged, stagePlan, hf, FileOp.path, instanceData, instanceModules, instanceEnv, instanceComposeOverride,
      instanceFrida] using hq

theorem metaOf_ok {m : InstanceMeta T} (h : metaOf name s = .ok m t) : s.reg.instances.get? name = some m ∧ t = s := by
  unfold metaOf at h
  split at h
  · rename_i m' hm
    cases h
    exact ⟨hm, rfl⟩
  · cases h

theorem resolvePortsM_ok {index : Int} {ports : List ResolvedPort}
    (h : (resolvePortsM index cfg : M T B (List ResolvedPort)) s = .ok ports t) :
    resolvePorts index cfg.ports = .ok ports ∧ t = s := by
  obtain ⟨hr, rfl⟩ := raising_ok_iff.1 h
  refine ⟨?_, rfl⟩
  cases hp : resolvePorts index cfg.ports with
  | error e => rw [hp] at hr; cases hr
  | ok rs => rw [hp] at hr; cases hr; rfl

theorem resolvePortsM_error {index : Int} (h : (resolvePortsM index cfg : M T B (List ResolvedPort)) s = .error e t) :
    (∃ e', resolvePorts index cfg.ports = .error e') ∧ t = s := by
  obtain ⟨hr, rfl⟩ := raising_error_iff.1 h
  refine ⟨?_, rfl⟩
  cases hp : resolvePorts index cfg.ports with
  | error e' => exact ⟨e', rfl⟩
  | ok rs => rw [hp] at hr; cases hr

theorem checkPortCollisions_error {ports : List ResolvedPort} (h : checkPortCollisions p k f name ports s = .error e t) :
    (f.raises .scan = true ∨ noPortCollision p (k.view s) name ports = false) ∧ t = s := by
  unfold checkPortCollisions at h
  split_ifs at h with hr hc
  · cases h
    exact ⟨Or.inl hr, rfl⟩
  · cases h
    exact ⟨Or.inr (by simpa using hc), rfl⟩

theorem checkPortCollisions_ok {u : Unit} {ports : List ResolvedPort}
    (h : checkPortCollisions p k f name ports s = .ok u t) :
    f.raises .scan = false ∧ noPortCollision p (k.view s) name ports = true ∧ t = s := by
  unfold checkPortCollisions at h
  split_ifs at h with hr hc
  cases h
  exact ⟨by simpa using hr, hc, rfl⟩

/-- staging has written the `.env` of its row -/
theorem stageLocal_env [DecidableEq B] {m : InstanceMeta T} {u : Unit} (hm : s.reg.instances.get? name = some m)
    (h : stageLocal k f name root cfg s = .ok u t) :
    readFile t.fs (instanceEnv root) = some (k.renderEnv name cfg (stealthPathsOf m.backend)) := by
  obtain ⟨m', s₁, h₁, r₁⟩ := bind_ok_iff.1 h
  obtain ⟨hm', rfl⟩ := metaOf_ok h₁
  rw [hm] at hm'
  cases hm'
  obtain ⟨ports, s₂, h₂, r₂⟩ := bind_ok_iff.1 r₁
  obtain ⟨-, rfl⟩ := resolvePortsM_ok h₂
  have hop : FileOp.write .env (instanceEnv root) (k.renderEnv name cfg (stealthPathsOf m.backend)) ∈
      stagePlan k name root cfg m.backend ports := by simp [stagePlan]
  exact runOps_wrote (stagePlan_in k name root cfg m.backend ports).2 hop r₂

/-- local staging works on five entries of the directory -/
theorem stageLocal_steps [DecidableEq B] (k : Codec B) (f : Faults B) (name : String) (root : Path) (cfg : InstanceConfig) :
    Steps (Frame root (Staged root)) (stageLocal k f name root cfg : M T B Unit) := by
  unfold stageLocal
  refine steps_bind frame_trans ?_ fun m => steps_bind frame_trans ?_ fun ports => ?_
  · intro s
    unfold metaOf
    split <;> exact frame_refl _ _ s
  · exact steps_raising (frame_refl _ _) _
  · refine (runOps_frame f (stagePlan_in k name root cfg m.backend ports).1).mono fun s t h hroot => ?_
    obtain ⟨h1, h2, h3⟩ := h hroot
    exact ⟨h1, h2, fun q hq => h3 q fun hmem => hq (stagePlan_paths hmem)⟩

end StageSpecs

end Beetroot.Instance
