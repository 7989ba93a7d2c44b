/-
Registering instances: `Instance.create`, `Instance.register` and `snapshot.restore` as step machines over the host.

A call goes through its statements one at a time; a schedule interleaves any number of calls in any order. One step is a
registry operation (atomic, see `Registry.Linearize`), a check, or a file operation. The collision check reads the registry in
one step and then each sibling's `beetroot.yaml` in a step of its own; an extraction leaves a torn `beetroot.yaml` for one
step. At any step the call may instead raise (a failing system call, a bad archive member, `^C`): before the row exists this
ends the call, and inside the `try` it starts the rollback.

Results:
- `next_reg`: everything a step can do to the registry;
- `next_window`: only a passed overlap check brings a call to the steps that lead to its row;
- `next_readYaml`: no step touches the `beetroot.yaml` of another directory, unless it removes a tree that contains it.
-/
import Beetroot.Host
import Beetroot.Lib.Run
import Mathlib.Logic.Function.Basic

namespace Beetroot.Registration

open Lib Lib.Fs

/-! ## Calls -/

/-- a snapshot archive: the manifest's `path_layout` (`none` when `read_manifest` raises), the archived `beetroot.yaml`, and
what a reader finds of it in the middle of the extraction -/
structure Archive where
  manifest : Option (Dict String String)
  yaml : Option Yaml
  torn : Yaml

inductive Call (T : Type) where
  | create (name path : String) (cfg : InstanceConfig) (now : T)
  | register (name path : String) (now : T)
  | restore (name path : String) (archive : Archive) (force : Bool) (now : T)

namespace Call

variable {T : Type}

def name : Call T → String
  | .create name _ _ _ => name
  | .register name _ _ => name
  | .restore name _ _ _ _ => name

def path : Call T → String
  | .create _ path _ _ => path
  | .register _ path _ => path
  | .restore _ path _ _ _ => path

def now : Call T → T
  | .create _ _ _ now => now
  | .register _ _ now => now
  | .restore _ _ _ _ now => now

end Call

/-- `_INSTANCE_NAME_RE`: `[a-z0-9_-]+` -/
def nameOk (name : String) : Bool :=
  name ≠ "" && name.toList.all fun c => ('a' ≤ c && c ≤ 'z') || ('0' ≤ c && c ≤ '9') || c = '_' || c = '-'

/-! ## Program points -/

/-- what a call owns once its row is written -/
structure Own where
  created : Bool
  index : Int
deriving DecidableEq

/-- the point a call is at, with its local variables -/
inductive Pc (T : Type) where
  | begin
  /-- `register`: the name check, after the `beetroot.yaml` was found -/
  | lookup
  | yamlExists
  | manifest
  | occupied
  | overlap (occupied : Bool)
  | clear
  | probe
  | mkdir (created : Bool)
  | writeYaml (created : Bool)
  | load
  /-- `add_allocating`; `restore` does not have a config yet -/
  | alloc (created : Bool) (cfg : Option InstanceConfig)
  | extract (o : Own)
  | extracting (o : Own)
  | binder (o : Own)
  | layout (o : Own)
  | reload (o : Own)
  | resolve (o : Own) (cfg : InstanceConfig)
  | list (o : Own) (cfg : InstanceConfig) (ports : List ResolvedPort)
  | scan (o : Own) (cfg : InstanceConfig) (ports : List ResolvedPort) (pending : List (String × InstanceMeta T))
      (others : List (String × List Int))
  | stage (o : Own) (cfg : InstanceConfig) (ports : List ResolvedPort)
  | done (o : Own) (cfg : InstanceConfig) (ports : List ResolvedPort)
  | rollback (created : Bool)
  | rmtree
  | failed

variable {T : Type}

/-- where an exception leads: to the rollback inside the `try`, to the caller elsewhere -/
def Pc.raises : Pc T → Pc T
  | .extract o | .extracting o | .binder o | .layout o | .reload o | .resolve o _ | .list o _ _ | .scan o _ _ _ _
  | .stage o _ _ => .rollback o.created
  | .done o cfg ports => .done o cfg ports
  | _ => .failed

section Step

variable (p : Paths)

def Call.target (c : Call T) : Path := p.resolve c.path

/-- `registry.get(name) is not None` -/
def registered (w : World T) (name : String) : Bool := name ∈ w.reg.instances.keys

/-- `_check_directory_overlap`, and the loop of `_prepare_destination`: some directory-backed row overlaps the target -/
def overlapsRow (w : World T) (target : Path) : Bool :=
  w.reg.instances.entries.any fun e =>
    match e.2.backend.absolutePath with
    | some root => Overlaps (p.resolve root) target
    | none => false

/-- the backend of the new row -/
def Call.backend (c : Call T) (cfg : Option InstanceConfig) : BackendConfig :=
  match cfg with
  | some cfg => if cfg.binder = .vm then .vm (p.str (c.target p)) else .redroid (p.str (c.target p)) ∅
  | none => .redroid (p.str (c.target p)) ∅

/-- the config that is staged: the call's own, or for `restore` what `Instance.load` reads back -/
def Call.staged (c : Call T) (w : World T) (cfg : InstanceConfig) : Option InstanceConfig :=
  match c with
  | .restore name _ _ _ _ =>
    match w.reg.instances.get? name with
    | none => none
    | some m =>
      match m.backend with
      | .redroid root _ =>
        match loadYaml w.fs (p.resolve root) with
        | some (.valid cfg) => some cfg
        | _ => none
      | _ => none
  | _ => some cfg

/-- one statement of a call that does not raise of itself -/
def next (c : Call T) (w : World T) : Pc T → World T × Pc T
  | .begin =>
    match c with
    | .create name _ _ _ => (w, if nameOk name && !registered w name then .yamlExists else .failed)
    | .register _ _ _ => (w, if (readFile w.fs (instanceYaml (c.target p))).isSome then .lookup else .failed)
    | .restore name _ _ _ _ => (w, if nameOk name && !registered w name then .manifest else .failed)
  | .lookup => (w, if nameOk c.name && !registered w c.name then .overlap false else .failed)
  | .yamlExists => (w, if existsAt w.fs (instanceYaml (c.target p)) then .failed else .overlap false)
  | .manifest =>
    match c with
    | .restore _ _ archive _ _ => (w, if archive.manifest.isSome then .occupied else .failed)
    | _ => (w, .failed)
  | .occupied => (w, .overlap (Fs.occupied w.fs (c.target p)))
  | .overlap occupied =>
    if overlapsRow p w (c.target p) then (w, .failed)
    else
      match c with
      | .create _ _ _ _ => (w, .probe)
      | .register _ _ _ => (w, .load)
      | .restore _ _ _ force _ => (w, if !occupied then .probe else if force then .clear else .failed)
  | .clear => ({ w with fs := Fs.rmtree w.fs (c.target p) }, .probe)
  | .probe => (w, .mkdir (!existsAt w.fs (c.target p)))
  | .mkdir created =>
    match c with
    | .restore _ _ _ _ _ => ({ w with fs := mkdirP w.fs (c.target p) }, .alloc created none)
    | _ => ({ w with fs := mkdirP w.fs (c.target p) }, .writeYaml created)
  | .writeYaml created =>
    match c with
    | .create _ _ cfg _ =>
      ({ w with fs := writeFile w.fs (instanceYaml (c.target p)) (.yaml (.valid cfg)) }, .alloc created (some cfg))
    | _ => (w, .failed)
  | .load =>
    match loadYaml w.fs (c.target p) with
    | some (.valid cfg) => (w, .alloc false (some cfg))
    | _ => (w, .failed)
  | .alloc created cfg =>
    match allocate w.reg c.name (c.backend p cfg) c.now with
    | .error _ => (w, .failed)
    | .ok (i, reg) =>
      match cfg with
      | some cfg => ({ w with reg := reg }, .resolve ⟨created, i⟩ cfg)
      | none => ({ w with reg := reg }, .extract ⟨created, i⟩)
  | .extract o =>
    match c with
    | .restore _ _ archive _ _ =>
      if archive.yaml.isSome then
        ({ w with fs := writeFile w.fs (instanceYaml (c.target p)) (.yaml archive.torn) }, .extracting o)
      else (w, .extracting o)
    | _ => (w, .rollback o.created)
  | .extracting o =>
    match c with
    | .restore _ _ archive _ _ =>
      match archive.yaml with
      | some y => ({ w with fs := writeFile w.fs (instanceYaml (c.target p)) (.yaml y) }, .binder o)
      | none => (w, .binder o)
    | _ => (w, .rollback o.created)
  | .binder o =>
    match loadYaml w.fs (c.target p) with
    | some (.valid cfg) => (w, if cfg.binder = .vm then .rollback o.created else .layout o)
    | _ => (w, .rollback o.created)
  | .layout o =>
    match c with
    | .restore name _ archive _ _ =>
      match archive.manifest with
      | some layout =>
        if layout.entries = [] then (w, .reload o)
        else
          match stealth w.reg name layout with
          | .ok reg => ({ w with reg := reg }, .reload o)
          | .error _ => (w, .rollback o.created)
      | none => (w, .rollback o.created)
    | _ => (w, .rollback o.created)
  | .reload o =>
    match loadYaml w.fs (c.target p) with
    | some (.valid cfg) => (w, .resolve o cfg)
    | _ => (w, .rollback o.created)
  | .resolve o cfg =>
    match resolvePorts o.index cfg.ports with
    | .ok ports => (w, .list o cfg ports)
    | .error _ => (w, .rollback o.created)
  | .list o cfg ports => (w, .scan o cfg ports w.reg.instances.entries [])
  | .scan o cfg ports ((n, m) :: pending) others =>
    match rowHostPorts w.fs p m with
    | .ok (some hosts) => (w, .scan o cfg ports pending (others ++ [(n, hosts)]))
    | .ok none => (w, .scan o cfg ports pending others)
    | .error _ => (w, .rollback o.created)
  | .scan o cfg ports [] others =>
    (w, if (findPortCollision ports (others.filter fun e => e.1 ≠ c.name)).isNone then .stage o cfg ports
      else .rollback o.created)
  | .stage o cfg ports =>
    match c.staged p w cfg with
    | none => (w, .rollback o.created)
    | some cfg' =>
      match stageLocal w c.name (c.target p) cfg' with
      | .ok w' => (w', .done o cfg ports)
      | .error _ => (w, .rollback o.created)
  | .done o cfg ports => (w, .done o cfg ports)
  | .rollback created =>
    ({ w with reg := ⟨w.reg.instances.erase c.name⟩ }, if created then .rmtree else .failed)
  | .rmtree => ({ w with fs := Fs.rmtree w.fs (c.target p) }, .failed)
  | .failed => (w, .failed)

/-! ## Interleavings -/

structure St (T ι : Type) where
  world : World T
  pc : ι → Pc T

variable {ι : Type} [DecidableEq ι] (calls : ι → Call T)

/-- call `i` makes its next step, or raises -/
def step (s : St T ι) (a : ι × Bool) : St T ι :=
  if a.2 then { s with pc := Function.update s.pc a.1 (s.pc a.1).raises }
  else
    { world := (next p (calls a.1) s.world (s.pc a.1)).1
      pc := Function.update s.pc a.1 (next p (calls a.1) s.world (s.pc a.1)).2 }

def start (w : World T) : St T ι := ⟨w, fun _ => .begin⟩

def run (s : St T ι) (sched : List (ι × Bool)) : St T ι := sched.foldl (step p calls) s

end Step

/-! ## What a step can do -/

section Cases

variable {p : Paths} {c : Call T} {w : World T}

/-- a call before its row is written, between its overlap check and `add_allocating` -/
def Pc.window : Pc T → Bool
  | .clear | .probe | .mkdir _ | .writeYaml _ | .load | .alloc _ _ => true
  | _ => false

/-- a call about to make its overlap check -/
def Pc.checksOverlap : Pc T → Bool
  | .overlap _ => true
  | _ => false

/-- everything a step can do to the registry: nothing, write the call's row, remove it, or change its backend in place -/
theorem next_reg (p : Paths) (c : Call T) (w : World T) (pc : Pc T) :
    (next p c w pc).1.reg = w.reg ∨
    (∃ created cfg i, pc = .alloc created cfg ∧
      allocate w.reg c.name (c.backend p cfg) c.now = .ok (i, (next p c w pc).1.reg)) ∨
    (next p c w pc).1.reg = ⟨w.reg.instances.erase c.name⟩ ∨
    (∃ m b, w.reg.instances.get? c.name = some m ∧ b.absolutePath = m.backend.absolutePath ∧
      (next p c w pc).1.reg = ⟨w.reg.instances.set c.name { m with backend := b }⟩) := by
  cases pc with
  | alloc created cfg =>
    cases ha : allocate w.reg c.name (c.backend p cfg) c.now with
    | error e => left; simp only [next, ha]
    | ok x => right; left; refine ⟨created, cfg, x.1, rfl, ?_⟩; cases cfg <;> simp only [next, ha]
  | layout o =>
    cases c with
    | restore name path archive force now =>
      simp only [next]
      split
      · rename_i lay _
        split_ifs
        · exact Or.inl rfl
        · cases hs : stealth w.reg name lay with
          | error e => exact Or.inl rfl
          | ok reg =>
            obtain ⟨m, b, h1, -, h2, h3⟩ := stealth_ok hs
            exact Or.inr (Or.inr (Or.inr ⟨m, b, h1, h2, h3⟩))
      · exact Or.inl rfl
    | create name path cfg now => exact Or.inl rfl
    | register name path now => exact Or.inl rfl
  | rollback created => exact Or.inr (Or.inr (Or.inl rfl))
  | stage o cfg ports =>
    left
    simp only [next]
    split
    · rfl
    · split
      · rename_i hs
        obtain ⟨m, resolved, -, -, hreg, -⟩ := stageLocal_ok hs
        exact hreg
      · rfl
  | scan o cfg ports pending others =>
    left
    cases pending with
    | nil => rfl
    | cons e pending => simp only [next]; split <;> rfl
  | _ =>
    left
    simp only [next]
    repeat' split
    all_goals rfl

/-- a step touches the call's own row only -/
theorem next_get? {pc : Pc T} {n : String} (hn : n ≠ c.name) :
    (next p c w pc).1.reg.instances.get? n = w.reg.instances.get? n := by
  rcases next_reg p c w pc with h | ⟨created, cfg, i, -, ha⟩ | h | ⟨m, b, -, -, h⟩
  · rw [h]
  · obtain ⟨-, -, -, h⟩ := allocate_ok ha
    rw [h, Dict.get?_set, if_neg hn]
  · rw [h, Dict.get?_erase, if_neg hn]
  · rw [h, Dict.get?_set, if_neg hn]

/-- the window is entered by a passed overlap check only, and inside it the registry is not written -/
theorem next_window {pc : Pc T} (h : (next p c w pc).2.window = true) : (next p c w pc).1.reg = w.reg ∧
    (pc.window = true ∨ (pc.checksOverlap = true ∧ overlapsRow p w (c.target p) = false)) := by
  cases pc with
  | overlap occ =>
    cases ho : overlapsRow p w (c.target p) with
    | false => refine ⟨?_, Or.inr ⟨rfl, rfl⟩⟩; cases c <;> simp [next, ho]
    | true => simp [next, ho, Pc.window] at h
  | clear => exact ⟨rfl, Or.inl rfl⟩
  | probe => exact ⟨rfl, Or.inl rfl⟩
  | mkdir created => exact ⟨by cases c <;> rfl, Or.inl rfl⟩
  | writeYaml created => exact ⟨by cases c <;> rfl, Or.inl rfl⟩
  | load => refine ⟨?_, Or.inl rfl⟩; simp only [next]; split <;> rfl
  | alloc created cfg =>
    cases ha : allocate w.reg c.name (c.backend p cfg) c.now with
    | error e => simp [next, ha, Pc.window] at h
    | ok x => cases cfg <;> simp [next, ha, Pc.window] at h
  | scan o cfg ports pending others =>
    cases pending with
    | nil => simp only [next] at h; split_ifs at h <;> simp [Pc.window] at h
    | cons e pending =>
      simp only [next] at h
      split at h <;> simp [Pc.window] at h
  | _ =>
    simp only [next] at h
    repeat' split at h
    all_goals simp [Pc.window] at h

/-- no other directory's `beetroot.yaml` is touched, unless its tree is removed -/
theorem next_readYaml {pc : Pc T} {r : Path} (hne : r ≠ c.target p)
    (hrm : pc = .clear ∨ pc = .rmtree → ¬ c.target p <+: instanceYaml r) :
    readFile (next p c w pc).1.fs (instanceYaml r) = readFile w.fs (instanceYaml r) := by
  have hy : instanceYaml r ≠ instanceYaml (c.target p) := fun h => hne (List.append_cancel_right h)
  cases pc with
  | clear => simp only [next, readFile_rmtree, if_neg (hrm (Or.inl rfl))]
  | rmtree => simp only [next, readFile_rmtree, if_neg (hrm (Or.inr rfl))]
  | mkdir created => cases c <;> simp only [next, readFile_mkdirP]
  | writeYaml created => cases c <;> simp only [next, readFile_write_ne hy]
  | extract o =>
    cases c with
    | restore name path archive force now =>
      simp only [next]
      split_ifs
      · simp only [readFile_write_ne hy]
      · rfl
    | _ => rfl
  | extracting o =>
    cases c with
    | restore name path archive force now =>
      simp only [next]
      split
      · simp only [readFile_write_ne hy]
      · rfl
    | _ => rfl
  | stage o cfg ports =>
    simp only [next]
    split
    · rfl
    · split
      · rename_i hs; exact readYaml_stageLocal hs r
      · rfl
  | scan o cfg ports pending others =>
    cases pending with
    | nil => rfl
    | cons e pending => simp only [next]; split <;> rfl
  | _ =>
    simp only [next]
    repeat' split
    all_goals rfl

end Cases

end Beetroot.Registration
