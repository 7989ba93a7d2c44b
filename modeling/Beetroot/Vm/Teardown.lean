/-
Does `down` or `destroy` leave a QEMU behind?

The verbs of the command line on one instance, each dispatched on the registry row and the `beetroot.yaml` of the moment. The
vm backend finds its QEMU through the pidfile and recognises it by the host adb port that the current file resolves to; it
removes the pidfile whether or not it has recognised anything. The redroid backend, which a changed `binder` and an `apply`
bring in, does not look for a QEMU at all. So the `apply` that gives the row to it must find none.

Processes exit by themselves at any time, and other processes take over their ids; the compose commands and the host checks
answer anything.

Results:
- `keeps_up`: from a state in which every live QEMU is recorded and recognised, `up` ends in such a state, also when it fails;
- `run_kept_all`: all along a run that meets the condition, every live QEMU of the instance is the one in the pidfile, and while
  there is one the row is a vm row;
- `no_leak`: in every run in which each verb of the vm backend recognises the live QEMU, each `apply` that takes the row from
  the vm backend finds none, the QEMU binary is named `qemu-system…` and its pidfile gets written, no QEMU is alive after a
  `down` or `destroy` that returns;
- `leaked`: a port edit, and a change of the binder, that leave a QEMU behind.
-/
import Beetroot.Registration.Staging
import Beetroot.Vm.Backend

namespace Beetroot.Vm.Teardown

open Lib Lib.Fs

variable {T B : Type}

/-! ## The verbs -/

structure St (T B : Type) where
  world : World T
  host : Host B

/-- what a verb meets on its way: settings, probes, deadlines, the answers of the world, and whether the binder preflight, the
compose command and the module staging go well -/
structure Env where
  settings : Settings := {}
  probe : Probe := .usual
  adbRounds : ℕ := 1
  bootRounds : ℕ := 1
  termPolls : ℕ := 1
  choices : List Choice := []
  last : Choice := {}
  preflight : Bool := true
  compose : Bool := true
  modules : Bool := true

/-- what `Manager.resolve` makes of the row and the file -/
inductive Resolved where
  | vm (root : Path) (cfg : InstanceConfig) (index : Int)
  | redroid (root : Path) (cfg : InstanceConfig)
  /-- a directory-backed row without a `beetroot.yaml` -/
  | orphan (root : Path) (vm : Bool)
  | refused

def resolve (p : Paths) (w : World T) (name : String) : Resolved :=
  match w.reg.instances.get? name with
  | none => .refused
  | some m =>
    match m.backend with
    | .vm path =>
      match loadYaml w.fs (p.resolve path) with
      | none => .orphan (p.resolve path) true
      | some .invalid => .refused
      | some (.valid cfg) => .vm (p.resolve path) cfg m.index
    | .redroid path _ =>
      match loadYaml w.fs (p.resolve path) with
      | none => .orphan (p.resolve path) false
      | some .invalid => .refused
      | some (.valid cfg) => .redroid (p.resolve path) cfg
    | _ => .refused

def Env.backend (e : Env) (root : Path) (cfg : InstanceConfig) (index : Int) : Backend :=
  ⟨root, cfg, index, e.settings, e.probe, e.adbRounds, e.bootRounds, e.termPolls⟩

/-- run a program of the vm backend to its end: whether it returned, and the host after it -/
def Env.run {α : Type} (e : Env) (sha256 : B → String) (prog : M α) (s : Host B) : Bool × Host B :=
  ((prog.run.finish (exec sha256) e.last e.choices s).1.isOk, (prog.run.finish (exec sha256) e.last e.choices s).2)

section Verbs

variable (sha256 : B → String) (p : Paths) (name : String)

def up (st : St T B) (e : Env) : St T B :=
  match resolve p st.world name with
  | .vm root cfg index =>
    -- the banner resolves the accelerator first
    if (detectAccel e.probe cfg.vm.accel).isOk then
      { st with host := (e.run sha256 ((e.backend root cfg index).up p) st.host).2 }
    else st
  | .redroid _ cfg => if cfg.binder = .vm || !e.preflight then st else { st with world := Staging.up p st.world name }
  | _ => st

def restart (st : St T B) (e : Env) : St T B :=
  match resolve p st.world name with
  | .vm root cfg index =>
    if (detectAccel e.probe cfg.vm.accel).isOk then
      { st with host := (e.run sha256 ((e.backend root cfg index).restart p) st.host).2 }
    else st
  | .redroid _ _ => if e.compose then { st with world := Staging.up p st.world name } else st
  | _ => st

/-- `down`, and whether it returned without an error -/
def down (st : St T B) (e : Env) : Bool × St T B :=
  match resolve p st.world name with
  | .vm root cfg index =>
    let r := e.run sha256 (e.backend root cfg index).down st.host
    (r.1, { st with host := r.2 })
  | .redroid _ _ => (e.compose, st)
  | _ => (false, st)

/-- the instance directory is gone; processes live on -/
def removed (s : Host B) : Host B :=
  { s with overlay := none, key := none, monitor := none, pidfile := none }

/-- the row and the directory are removed -/
def remove (st : St T B) (root : Path) (host : Host B) : St T B :=
  ⟨⟨⟨st.world.reg.instances.erase name⟩, Fs.rmtree st.world.fs root⟩, removed host⟩

/-- `destroy`, and whether it returned without an error; a failed compose command is only noted -/
def destroy (st : St T B) (e : Env) : Bool × St T B :=
  match resolve p st.world name with
  | .vm root cfg index =>
    let r := e.run sha256 (e.backend root cfg index).down st.host
    if r.1 then (true, remove name st root r.2) else (false, { st with host := r.2 })
  | .redroid root _ => (true, remove name st root st.host)
  | .orphan root true => (true, remove name st root (e.run sha256 (terminate e.termPolls none) st.host).2)
  | .orphan root false => (true, remove name st root st.host)
  | .refused => (false, st)

inductive Op where
  | up (e : Env)
  /-- the user replaces or deletes the `beetroot.yaml` -/
  | edit (y : Option Yaml)
  | apply (e : Env)
  | down (e : Env)
  | restart (e : Env)
  | destroy (e : Env)
  | exit (pids : List ℕ)
  /-- a process of somebody else starts, under an id that is free -/
  | foreign (pid : ℕ) (argv : List String)

def step (st : St T B) : Op → St T B
  | .up e => up sha256 p name st e
  | .edit y => { st with world := Staging.onRoot p st.world name fun root =>
      { st.world with fs := match y with
        | some y => writeFile st.world.fs (instanceYaml root) (.yaml y)
        | none => Fs.rmtree st.world.fs (instanceYaml root) } }
  | .apply e => { st with world := Staging.apply p st.world name e.modules }
  | .down e => (down sha256 p name st e).2
  | .restart e => restart sha256 p name st e
  | .destroy e => (destroy sha256 p name st e).2
  | .exit pids => { st with host := st.host.exit pids }
  | .foreign pid argv =>
    if pid ∈ st.host.procs.keys then st
    else { st with host := { st.host with procs := st.host.procs.set pid ⟨argv, none⟩ } }

/-- a `down` or `destroy` that returns without an error -/
def stops (st : St T B) : Op → Bool
  | .down e => (down sha256 p name st e).1
  | .destroy e => (destroy sha256 p name st e).1
  | _ => false

end Verbs

/-! ## Live QEMUs -/

/-- no live QEMU was launched by this instance -/
def NoGuest (s : Host B) : Prop := ∀ e ∈ s.procs.entries, e.2.guest = none

/-- every live QEMU of this instance is the one in the pidfile -/
def Recorded (s : Host B) : Prop := ∀ e ∈ s.procs.entries, e.2.guest.isSome = true → s.pidfile = some e.1

/-- every live QEMU of this instance is recognised -/
def Known (port : Option Int) (s : Host B) : Prop :=
  ∀ e ∈ s.procs.entries, e.2.guest.isSome = true → namesUs port e.2.argv = true

instance (s : Host B) : Decidable (NoGuest s) := by unfold NoGuest; infer_instance

instance (port : Option Int) (s : Host B) : Decidable (Known port s) := by unfold Known; infer_instance

/-- recognised under the adb port of the configuration, if that resolves -/
def KnownTo (b : Backend) (s : Host B) : Prop :=
  match b.adbPort with
  | .ok port => Known (some port) s
  | .error _ => True

instance (b : Backend) (s : Host B) : Decidable (KnownTo b s) := by
  unfold KnownTo
  cases b.adbPort <;> infer_instance

/-- a launch can be recognised later: the binary has the right name, and the pidfile gets written -/
def Env.launches (e : Env) : Prop :=
  names "qemu-system" [e.settings.qemuBin] = true ∧ e.last.written = true ∧ ∀ c ∈ e.choices, c.written = true

instance (e : Env) : Decidable e.launches := by unfold Env.launches; infer_instance

/-- the vm backend recognises its live QEMU, and an `apply` that gets as far as changing the row to redroid finds none -/
def Tells (p : Paths) (name : String) (st : St T B) : Op → Prop
  | .up e | .restart e =>
    match resolve p st.world name with
    | .vm root cfg index => KnownTo (e.backend root cfg index) st.host ∧ e.launches
    | _ => True
  | .down e =>
    match resolve p st.world name with
    | .vm root cfg index => KnownTo (e.backend root cfg index) st.host
    | _ => True
  | .destroy e =>
    match resolve p st.world name with
    | .vm root cfg index => KnownTo (e.backend root cfg index) st.host
    | .orphan _ true => Known none st.host
    | _ => True
  | .apply e =>
    match resolve p st.world name with
    | .vm _ cfg _ => cfg.binder = .vm ∨ e.modules = false ∨ NoGuest st.host
    | _ => True
  | _ => True

instance (p : Paths) (name : String) (st : St T B) (o : Op) : Decidable (Tells p name st o) := by
  unfold Tells
  cases o <;> simp only <;> (try split) <;> infer_instance

section Guests

variable {X : ℕ → Prop} {s t u : Host B} {port : Option Int}

theorem NoGuest.recorded (h : NoGuest s) : Recorded s := by
  intro e he hg
  rw [h e he] at hg
  cases hg

theorem NoGuest.known (h : NoGuest s) : Known port s := by
  intro e he hg
  rw [h e he] at hg
  cases hg

theorem mem_of_exit {pids : List ℕ} {e : ℕ × Proc B} (h : e ∈ (s.exit pids).procs.entries) : e ∈ s.procs.entries :=
  (Dict.mem_filter.1 h).1

/-- the terminated QEMU was the only one -/
theorem noGuest_of_killed (hr : Recorded s) (hk : Known port s) (h : Killed port s t) : NoGuest t := by
  obtain ⟨⟨pids, rfl⟩, hgone⟩ := h
  intro e he
  cases hg : e.2.guest with
  | none => rfl
  | some g =>
    have hs : e ∈ s.procs.entries := mem_of_exit he
    have hsome : e.2.guest.isSome = true := by rw [hg]; rfl
    have hname := hgone e.1 e.2 (hr e hs hsome) (Dict.get?_of_mem he)
    rw [hk e hs hsome] at hname
    cases hname

theorem knownTo_ok {b : Backend} {port : Int} (hport : b.adbPort = .ok port) : KnownTo b s ↔ Known (some port) s := by
  unfold KnownTo
  rw [hport]

/-- recorded and recognised: what the verbs of the vm backend work with -/
structure Held (b : Backend) (s : Host B) : Prop where
  recorded : Recorded s
  known : KnownTo b s

variable {b : Backend}

theorem NoGuest.held (h : NoGuest s) : Held b s := by
  refine ⟨h.recorded, ?_⟩
  unfold KnownTo
  split
  · exact h.known
  · trivial

/-- no new QEMUs, and the same pidfile -/
structure Thinned (s t : Host B) : Prop where
  pidfile : t.pidfile = s.pidfile
  guests : ∀ e ∈ t.procs.entries, e.2.guest.isSome = true →
    ∃ e' ∈ s.procs.entries, e'.1 = e.1 ∧ e'.2.argv = e.2.argv ∧ e'.2.guest.map (·.launch) = e.2.guest.map (·.launch)

/-- nothing but exits among the processes -/
theorem thinned_of_subset (hp : t.pidfile = s.pidfile) (hsub : ∀ e ∈ t.procs.entries, e ∈ s.procs.entries) :
    Thinned s t :=
  ⟨hp, fun e he _ => ⟨e, hsub e he, rfl, rfl, rfl⟩⟩

theorem thinned_exit (s : Host B) (pids : List ℕ) : Thinned s (s.exit pids) :=
  thinned_of_subset rfl fun _ he => mem_of_exit he

theorem Thinned.trans (h : Thinned s t) (h' : Thinned t u) : Thinned s u := by
  refine ⟨h'.pidfile.trans h.pidfile, fun e he hg => ?_⟩
  obtain ⟨e₁, he₁, hid, hargv, hl⟩ := h'.guests e he hg
  have hg₁ : e₁.2.guest.isSome = true := by rw [← Option.isSome_map, hl, Option.isSome_map, hg]
  obtain ⟨e₂, he₂, hid', hargv', hl'⟩ := h.guests e₁ he₁ hg₁
  exact ⟨e₂, he₂, hid'.trans hid, hargv'.trans hargv, hl'.trans hl⟩

/-- a QEMU that is there now was there before -/
theorem Thinned.guest (h : Thinned s t) {e : ℕ × Proc B} (he : e ∈ t.procs.entries) (hg : e.2.guest.isSome = true) :
    ∃ e' ∈ s.procs.entries, e'.2.guest.isSome = true ∧ e'.1 = e.1 ∧ e'.2.argv = e.2.argv := by
  obtain ⟨e', he', hid, hargv, hl⟩ := h.guests e he hg
  exact ⟨e', he', by rw [← Option.isSome_map, hl, Option.isSome_map, hg], hid, hargv⟩

theorem Thinned.noGuest (h : Thinned s t) (hs : NoGuest s) : NoGuest t := by
  intro e he
  by_contra hg
  obtain ⟨e', he', hg', -, -⟩ := h.guest he (Option.isSome_iff_ne_none.2 hg)
  rw [hs e' he'] at hg'
  cases hg'

theorem Thinned.held (h : Thinned s t) (hs : Held b s) : Held b t := by
  refine ⟨fun e he hg => ?_, ?_⟩
  · obtain ⟨e', he', hg', hid, -⟩ := h.guest he hg
    rw [h.pidfile, hs.recorded e' he' hg', hid]
  · have hk := hs.known
    unfold KnownTo at hk ⊢
    split at hk
    · intro e he hg
      obtain ⟨e', he', hg', -, hargv⟩ := h.guest he hg
      rw [← hargv]
      exact hk e' he' hg'
    · trivial

theorem Held.fades (h : Held b s) (hf : Fades X s t) : Held b t := by
  obtain ⟨pids, -, rfl⟩ := hf
  exact (thinned_exit s pids).held h

/-- not running means that there is none -/
theorem Held.noGuest {port : Int} (h : Held b s) (hport : b.adbPort = .ok port) (hn : ¬ Running (some port) s) :
    NoGuest s := by
  intro e he
  cases hg : e.2.guest with
  | none => rfl
  | some g =>
    have hsome : e.2.guest.isSome = true := by rw [hg]; rfl
    exact absurd ⟨e.1, e.2, h.recorded e he hsome, Dict.get?_of_mem he, (knownTo_ok hport).1 h.known e he hsome⟩ hn

/-- a new QEMU is recorded, and recognised by its own port, if it is the only one -/
theorem held_spawn {str : Path → String} {l : Launch} {base : Path} {pid : ℕ} {pids : List ℕ} (hnone : NoGuest u)
    (hport : b.adbPort = .ok l.hostAdbPort) (hbin : names "qemu-system" [l.qemuBin] = true) :
    Held b { (u.spawn pid (buildQemuArgv str l) l base).exit pids with pidfile := some pid } := by
  -- whatever lives now is the new process, or nobody's
  have hproc : ∀ e ∈ ((u.spawn pid (buildQemuArgv str l) l base).exit pids).procs.entries, e.2.guest.isSome = true →
      e.1 = pid ∧ e.2.argv = buildQemuArgv str l := by
    intro e he hg
    rcases mem_spawn (mem_of_exit he) with rfl | he
    · exact ⟨rfl, rfl⟩
    · rw [hnone e he] at hg
      cases hg
  refine ⟨fun e he hg => ?_, (knownTo_ok hport).2 fun e he hg => ?_⟩
  · rw [(hproc e he hg).1]
  · rw [(hproc e he hg).2]
    exact names_own str l hbin

theorem Held.started {str : Path → String} {l : Launch} {base : Path} (h : Held b s)
    (hport : b.adbPort = .ok l.hostAdbPort) (hbin : names "qemu-system" [l.qemuBin] = true)
    (hst : Started X l.hostAdbPort (buildQemuArgv str l) l base s t) : Held b t := by
  obtain ⟨u, pid, pids, hf, hn, -, rfl⟩ := hst
  exact held_spawn ((h.fades hf).noGuest hport hn) hport hbin

/-- a terminated QEMU leaves none -/
theorem Held.killed {port : Int} (h : Held b s) (hport : b.adbPort = .ok port) (hk : Killed (some port) s t) : NoGuest t :=
  noGuest_of_killed h.recorded ((knownTo_ok hport).1 h.known) hk

end Guests

/-! ## Through the program -/

section Program

variable {sha256 : B → String} {b : Backend}

/-- the pidfile gets written -/
def Writes (c : Choice) : Prop := c.written = true

/-- a program of the vm backend that leaves every live QEMU recorded and recognised, whether it returns or raises -/
abbrev Keeps {α : Type} (sha256 : B → String) (b : Backend) (p : M α) : Prop :=
  Prog.Preserves (exec sha256) Writes (Held (B := B) b) p

theorem any_exit (P : Choice → Prop) : ∀ c, P c → ∀ q ∈ c.exits, (fun _ => True) q := fun _ _ _ _ => trivial

/-- an action that touches neither the pidfile nor the processes, except to mark one -/
def quiet : Act → Bool
  | .popen _ _ _ | .writePid _ | .sigkill _ | .unlinkPid => false
  | _ => true

theorem bootedOn_launch (port : Int) (g : Guest B) : (g.bootedOn port).launch = g.launch := by
  unfold Guest.bootedOn
  split_ifs <;> rfl

theorem thinned_act {a : Act} (h : quiet a = true) (sha256 : B → String) (c : Choice) (s : Host B) :
    Thinned s (act sha256 c s a).2 := by
  cases a with
  | popen argv l base => cases h
  | writePid pid => cases h
  | sigkill pid => cases h
  | unlinkPid => cases h
  | imgCreate base => simp only [act]; split_ifs <;> exact thinned_of_subset rfl fun _ he => he
  | replaceKey id => simp only [act]; split_ifs <;> exact thinned_of_subset rfl fun _ he => he
  | savevm =>
    simp only [act, Host.save]
    split_ifs
    · split <;> exact thinned_of_subset rfl fun _ he => he
    · exact thinned_of_subset rfl fun _ he => he
  | bootCompleted port =>
    simp only [act]
    split_ifs
    · -- marking a guest changes neither its id nor its command line
      refine ⟨rfl, fun e he hg => ?_⟩
      obtain ⟨e', he', rfl⟩ := List.mem_map.1 he
      refine ⟨e', he', rfl, rfl, ?_⟩
      simp only [Option.map_map, Function.comp_def, bootedOn_launch]
    · exact thinned_of_subset rfl fun _ he => he
  | _ => exact thinned_of_subset rfl fun _ he => he

theorem thinned_exec {a : Act} (h : quiet a = true) (sha256 : B → String) (c : Choice) (s : Host B) :
    Thinned s (exec sha256 c a s).2 :=
  (thinned_exit s c.exits).trans (thinned_act h sha256 c _)

/-- a program that performs quiet actions only -/
abbrev Quiet {α : Type} (p : M α) : Prop := p.run.All fun a => quiet a = true

theorem Quiet.keeps {α : Type} {p : M α} (h : Quiet p) : Keeps sha256 b p :=
  h.preserves fun c _ _ ha s hs => (thinned_exec ha sha256 c s).held hs

theorem quiet_ofExcept {α : Type} (x : Except VmError α) : Quiet (MonadExcept.ofExcept x : M α) := by
  cases x <;> trivial

theorem quiet_resolveArtifact (p : Paths) (configured : Option String) (envDefault : String) (label : Artifact) :
    Quiet (resolveArtifact p configured envDefault label) := by
  unfold resolveArtifact
  split
  · exact Prog.all_throw _
  · refine Prog.all_seq (Prog.all_ask rfl) fun a => ?_
    cases a <;> trivial

theorem quiet_baseIdentity (x : Base) : Quiet (baseIdentity x) := by
  have hhash : ∀ q, Quiet (hashFile q) := by
    intro q
    refine Prog.all_seq (Prog.all_ask rfl) fun a => ?_
    cases a <;> trivial
  exact Prog.all_seq (hhash _) fun _ => Prog.all_seq (hhash _) fun _ => Prog.all_pure _

theorem quiet_discard : Quiet discardOverlay := Prog.all_seq (Prog.all_ask rfl) fun _ => Prog.all_ask rfl

theorem quiet_freshOverlay (x : Base) : Quiet (Backend.freshOverlay x) := by
  refine Prog.all_seq (Prog.all_seq (Prog.all_ask rfl) fun a => ?_) fun _ =>
    Prog.all_seq (quiet_baseIdentity x) fun _ => Prog.all_seq (Prog.all_ask rfl) fun a => ?_
  · cases a <;> trivial
  · cases a <;> trivial

theorem quiet_ensureOverlay (x : Base) : Quiet (Backend.ensureOverlay x) := by
  refine Prog.all_seq (Prog.all_ask rfl) fun a => ?_
  cases a with
  | true => exact Prog.all_pure _
  | false => exact quiet_freshOverlay x

theorem quiet_snapshotPresent : Quiet snapshotPresent := by
  refine Prog.all_seq (Prog.all_ask rfl) fun a => ?_
  cases a with
  | true => exact Prog.all_ask rfl
  | false => exact Prog.all_pure _

theorem quiet_dropUnusable (x : Base) : Quiet (Backend.dropUnusable x) := by
  refine Prog.all_seq (Prog.all_seq (Prog.all_ask rfl) fun a => ?_) fun a => ?_
  · cases a with
    | true => exact Prog.all_seq (Prog.all_ask rfl) fun _ => Prog.all_seq (quiet_baseIdentity x) fun _ => Prog.all_pure _
    | false => exact Prog.all_pure _
  · cases a with
    | true => exact quiet_discard
    | false =>
      refine Prog.all_seq (Prog.all_ask rfl) fun a => ?_
      cases a with
      | false => exact Prog.all_pure _
      | true =>
        refine Prog.all_seq quiet_snapshotPresent fun a => ?_
        cases a with
        | true => exact Prog.all_pure _
        | false => exact quiet_discard

theorem quiet_bootLoop (port : Int) (rounds : ℕ) : Quiet (Backend.bootLoop port rounds) := by
  induction rounds with
  | zero => exact Prog.all_pure _
  | succ rounds ih =>
    refine Prog.all_seq (Prog.all_ask rfl) fun a => ?_
    cases a with
    | true => exact Prog.all_pure _
    | false => exact ih

theorem quiet_checkpoint : Quiet b.checkpoint := by
  refine Prog.all_seq (quiet_ofExcept _) fun port => Prog.all_seq (Prog.all_seq (Prog.all_ask rfl) fun a => ?_) fun a => ?_
  · cases a with
    | true => exact quiet_bootLoop port b.bootRounds
    | false => exact Prog.all_throw _
  · cases a with
    | true => exact Prog.all_seq (Prog.all_ask rfl) fun _ => Prog.all_pure _
    | false => exact Prog.all_pure _

/-- a `down` that returns leaves none -/
theorem runs_down {P : Choice → Prop} {s : Host B} (hs : Held b s) :
    Prog.Runs (exec sha256) P (fun _ => True) b.down s (fun _ t => NoGuest t) fun _ t => Held b t := by
  cases hport : b.adbPort with
  | ok port =>
    exact (b.runs_down (any_exit P) hport fun _ _ => trivial).mono (fun _ _ _ h => hs.killed hport h) fun _ _ _ h => h.elim
  | error e =>
    unfold Backend.down
    rw [hport]
    exact Prog.runs_bind (Prog.runs_throw trivial hs)

theorem keeps_down : Keeps sha256 b b.down := fun _ hs => (runs_down hs).mono (fun _ _ _ h => h.held) fun _ _ _ h => h

/-- a launch that fails has not left its QEMU behind -/
theorem keeps_startAndWait {p : Paths} {port : Int} {l : Launch} {base : Path} (hport : b.adbPort = .ok port)
    (hl : l.hostAdbPort = port) (hbin : names "qemu-system" [l.qemuBin] = true) :
    Keeps sha256 b (b.startAndWait p port l base) := by
  subst hl
  intro s hs
  refine (b.runs_startAndWait (any_exit Writes) hport l base (fun _ _ => trivial) fun _ _ => trivial).mono ?_ ?_
  · exact fun _ _ _ h => hs.started hport hbin h
  · rintro e t - (⟨hf, -⟩ | ⟨-, c, hc, hw⟩ | ⟨v, hv, hk⟩)
    · exact hs.fades hf
    · have hc : c.written = true := hc
      rw [hc] at hw
      cases hw
    · exact ((hs.started hport hbin hv).killed hport hk).held

/-- a program that begins with the adb port -/
theorem keeps_adbPort {α : Type} {f : Int → M α} (hf : ∀ port, b.adbPort = .ok port → Keeps sha256 b (f port)) :
    Keeps sha256 b (MonadExcept.ofExcept b.adbPort >>= f) := by
  cases hport : b.adbPort with
  | ok port => exact fun s hs => Prog.runs_bind (Prog.runs_pure trivial (hf port hport s hs))
  | error e => exact fun s hs => Prog.runs_bind (Prog.runs_throw trivial hs)

section Verbs

variable {p : Paths} (hbin : names "qemu-system" [b.settings.qemuBin] = true)

include hbin

theorem keeps_launch (x : Base) (loadvm : Option String) : Keeps sha256 b (b.launch p x loadvm) :=
  keeps_adbPort fun _ hport => keeps_startAndWait hport rfl hbin

theorem keeps_resume (x : Base) : Keeps sha256 b (b.resume p x) := by
  refine Prog.preserves_tryCatch (Prog.preserves_bind (keeps_launch hbin x _) fun _ => Prog.preserves_pure _) fun e => ?_
  cases e with
  | launch e =>
    exact Prog.preserves_bind quiet_discard.keeps fun _ => Prog.preserves_bind (quiet_freshOverlay x).keeps fun _ =>
      Prog.preserves_bind (keeps_launch hbin x none) fun _ => Prog.preserves_pure _
  | _ => exact Prog.preserves_throw _

theorem keeps_bootCached (x : Base) : Keeps sha256 b (b.bootCached p x) := by
  have hunlink : Quiet (ask .unlinkMonitor) := Prog.all_ask rfl
  refine Prog.preserves_bind hunlink.keeps fun _ => Prog.preserves_bind (quiet_dropUnusable x).keeps fun _ =>
    Prog.preserves_bind (quiet_ensureOverlay x).keeps fun _ => Prog.preserves_bind quiet_snapshotPresent.keeps fun a => ?_
  cases a with
  | true =>
    refine Prog.preserves_bind (keeps_resume hbin x) fun resumed => ?_
    cases resumed with
    | true => exact Prog.preserves_pure _
    | false => exact quiet_checkpoint.keeps
  | false => exact Prog.preserves_bind (keeps_launch hbin x none) fun _ => quiet_checkpoint.keeps

theorem keeps_upCached (accel : ResolvedAccel) : Keeps sha256 b (b.upCached p accel) :=
  Prog.preserves_bind (quiet_resolveArtifact p _ _ _).keeps fun _ =>
    Prog.preserves_bind (quiet_resolveArtifact p _ _ _).keeps fun _ => keeps_bootCached hbin _

theorem keeps_upPlain (accel : ResolvedAccel) : Keeps sha256 b (b.upPlain p accel) :=
  Prog.preserves_bind (quiet_resolveArtifact p _ _ _).keeps fun _ =>
    Prog.preserves_bind (quiet_resolveArtifact p _ _ _).keeps fun _ =>
      keeps_adbPort fun _ hport => keeps_startAndWait hport rfl hbin

theorem keeps_up : Keeps sha256 b (b.up p) := by
  intro s hs
  refine b.runs_up trivial (fun _ => hs) (fun _ _ _ => hs) (fun accel _ _ => ?_) fun accel _ _ => ?_
  · exact keeps_upCached hbin accel s hs
  · exact keeps_upPlain hbin accel s hs

theorem keeps_restart : Keeps sha256 b (b.restart p) :=
  Prog.preserves_bind keeps_down fun _ => keeps_up hbin

end Verbs

/-- a program run to its end has returned or raised -/
theorem run_ends {α : Type} {prog : M α} {P : Choice → Prop} {s : Host B} {Q : α → Host B → Prop}
    {E : VmError → Host B → Prop} (e : Env) (h : Prog.Runs (exec sha256) P (fun _ => True) prog s Q E) (hd : P e.last)
    (hcs : ∀ c ∈ e.choices, P c) :
    (∃ x, (e.run sha256 prog s).1 = true ∧ Q x (e.run sha256 prog s).2) ∨
      ∃ x, (e.run sha256 prog s).1 = false ∧ E x (e.run sha256 prog s).2 := by
  unfold Env.run
  rcases h.finish e.last hd e.choices hcs with ⟨x, hx, hq⟩ | ⟨x, hx, he⟩
  · exact Or.inl ⟨x, by rw [hx]; rfl, hq⟩
  · exact Or.inr ⟨x, by rw [hx]; rfl, he⟩

theorem run_kept {α : Type} {prog : M α} {e : Env} {s : Host B} (hk : Keeps sha256 b prog) (hs : Held b s) (he : e.launches) :
    Recorded (e.run sha256 prog s).2 := by
  rcases run_ends e (hk s hs) he.2.1 he.2.2 with ⟨_, -, h⟩ | ⟨_, -, h⟩
  · exact h.recorded
  · exact h.recorded

theorem run_down {s : Host B} (sha256 : B → String) (e : Env) (hs : Held b s) :
    ((e.run sha256 b.down s).1 = true → NoGuest (e.run sha256 b.down s).2) ∧ Recorded (e.run sha256 b.down s).2 := by
  have hruns : Prog.Runs (exec sha256) (fun _ => True) (fun _ => True) b.down s (fun _ t => NoGuest t)
      fun _ t => Held b t := runs_down hs
  rcases run_ends e hruns trivial fun _ _ => trivial with ⟨_, -, h⟩ | ⟨_, hf, h⟩
  · exact ⟨fun _ => h, h.recorded⟩
  · exact ⟨fun hok => absurd (hok.symm.trans hf) (by simp), h.recorded⟩

/-- `terminate` without a configuration -/
theorem run_terminate {s : Host B} (sha256 : B → String) (e : Env) (hr : Recorded s) (hk : Known none s) :
    NoGuest (e.run sha256 (terminate e.termPolls none) s).2 := by
  have hruns : Prog.Runs (exec sha256) (fun _ => True) (fun _ => True) (terminate e.termPolls none) s
      (fun _ t => Killed none s t) fun _ _ => False := runs_terminate (any_exit _) none e.termPolls fun _ _ => trivial
  rcases run_ends e hruns trivial fun _ _ => trivial with ⟨_, -, h⟩ | ⟨_, -, h⟩
  · exact noGuest_of_killed hr hk h
  · exact h.elim

end Program

/-! ## The row -/

/-- the row belongs to the vm backend -/
def VmRow (name : String) (w : World T) : Prop := ∃ m path, w.reg.instances.get? name = some m ∧ m.backend = .vm path

/-- a live QEMU has a vm row -/
def Placed (name : String) (st : St T B) : Prop := NoGuest st.host ∨ VmRow name st.world

section Row

variable {p : Paths} {name : String} {w w' : World T} {st : St T B}

theorem VmRow.of_reg (h : VmRow name w) (hreg : w'.reg = w.reg) : VmRow name w' := by
  unfold VmRow
  rw [hreg]
  exact h

/-- what the vm backend handles has a vm row -/
theorem vmRow_of_vm {root : Path} {cfg : InstanceConfig} {index : Int} (h : resolve p w name = .vm root cfg index) :
    VmRow name w := by
  unfold resolve at h
  split at h
  · cases h
  · rename_i m hm
    split at h
    · rename_i path hb
      exact ⟨m, path, hm, hb⟩
    · split at h <;> cases h
    · cases h

/-- what the redroid backend handles has none -/
theorem not_vmRow {root : Path} (h : (∃ cfg, resolve p w name = .redroid root cfg) ∨ resolve p w name = .orphan root false) :
    ¬ VmRow name w := by
  rintro ⟨m, path, hm, hb⟩
  unfold resolve at h
  simp only [hm, hb] at h
  rcases h with ⟨cfg, h⟩ | h <;> split at h <;> cases h

theorem Placed.noGuest {root : Path} (h : Placed name st)
    (hr : (∃ cfg, resolve p st.world name = .redroid root cfg) ∨ resolve p st.world name = .orphan root false) :
    NoGuest st.host :=
  h.resolve_right (not_vmRow hr)

/-- staging writes files, no rows -/
theorem checkedStage_reg {root : Path} {index : Int} {cfg : InstanceConfig}
    (h : Staging.checkedStage p w name root index cfg = some w') : w'.reg = w.reg := by
  obtain ⟨-, -, -, hstage⟩ := Staging.checkedStage_some h
  obtain ⟨-, -, -, -, hreg, -⟩ := stageLocal_ok hstage
  exact hreg

/-- an `apply` takes the row from the vm backend only under another binder, and when the modules were staged -/
theorem vmRow_apply {modules : Bool} (h : VmRow name w)
    (hflip : ∀ root cfg index, resolve p w name = .vm root cfg index → cfg.binder = .vm ∨ modules = false) :
    VmRow name (Staging.apply p w name modules) := by
  obtain ⟨m, path, hm, hb⟩ := h
  have hrow : VmRow name w := ⟨m, path, hm, hb⟩
  have hroot : Staging.rootOf p m = some (p.resolve path) := by
    unfold Staging.rootOf
    rw [hb]
    rfl
  unfold Staging.apply
  simp only [hm, hroot, hb]
  cases hy : loadYaml w.fs (p.resolve path) with
  | none => exact hrow
  | some y =>
    cases y with
    | invalid => exact hrow
    | valid cfg =>
      simp only
      cases hs : Staging.checkedStage p w name (p.resolve path) m.index cfg with
      | none => exact hrow
      | some w' =>
        have hreg := checkedStage_reg hs
        have hvm : resolve p w name = .vm (p.resolve path) cfg m.index := by
          unfold resolve
          simp only [hm, hb, hy]
        rcases hflip _ _ _ hvm with hbinder | rfl
        · -- the row is what the file asks for
          have hsame : reconcile w.reg name cfg.binder = none := by
            unfold reconcile
            simp only [hm, hb, hbinder, if_true]
          cases modules with
          | true => exact hrow.of_reg (by simp only [hreg, hsame, Option.getD_none])
          | false => exact hrow.of_reg hreg
        · exact hrow.of_reg hreg

end Row

/-! ## Through a run -/

/-- what every step keeps -/
structure Kept (name : String) (st : St T B) : Prop where
  recorded : Recorded st.host
  placed : Placed name st

section Steps

variable {sha256 : B → String} {p : Paths} {name : String} {st : St T B} {e : Env}

theorem kept_of_noGuest (h : NoGuest st.host) : Kept name st := ⟨h.recorded, Or.inl h⟩

/-- a verb of the vm backend leaves its row alone -/
theorem kept_vm {root : Path} {cfg : InstanceConfig} {index : Int} {host : Host B}
    (hr : resolve p st.world name = .vm root cfg index) (h : Recorded host) : Kept name { st with host := host } :=
  ⟨h, Or.inr (vmRow_of_vm hr)⟩

theorem kept_up (h : Kept name st) (ht : Tells p name st (.up e)) : Kept name (up sha256 p name st e) := by
  unfold Tells at ht
  unfold up
  cases hr : resolve p st.world name with
  | vm root cfg index =>
    simp only [hr] at ht ⊢
    split_ifs
    · exact kept_vm hr (run_kept (keeps_up ht.2.1) ⟨h.recorded, ht.1⟩ ht.2)
    · exact h
  | redroid root cfg =>
    have hn := h.placed.noGuest (Or.inl ⟨cfg, hr⟩)
    simp only
    split_ifs
    · exact h
    · exact kept_of_noGuest hn
  | orphan root vm => exact h
  | refused => exact h

theorem kept_restart (h : Kept name st) (ht : Tells p name st (.restart e)) : Kept name (restart sha256 p name st e) := by
  unfold Tells at ht
  unfold restart
  cases hr : resolve p st.world name with
  | vm root cfg index =>
    simp only [hr] at ht ⊢
    split_ifs
    · exact kept_vm hr (run_kept (keeps_restart ht.2.1) ⟨h.recorded, ht.1⟩ ht.2)
    · exact h
  | redroid root cfg =>
    have hn := h.placed.noGuest (Or.inl ⟨cfg, hr⟩)
    simp only
    split_ifs
    · exact kept_of_noGuest hn
    · exact h
  | orphan root vm => exact h
  | refused => exact h

theorem kept_apply (h : Kept name st) (ht : Tells p name st (.apply e)) : Kept name (step sha256 p name st (.apply e)) := by
  unfold Tells at ht
  refine ⟨h.recorded, ?_⟩
  rcases h.placed with hn | hrow
  · exact Or.inl hn
  · by_cases hn : NoGuest st.host
    · exact Or.inl hn
    · refine Or.inr (vmRow_apply hrow fun root cfg index hr => ?_)
      simp only [hr] at ht
      rcases ht with ht | ht | ht
      · exact Or.inl ht
      · exact Or.inr ht
      · exact absurd ht hn

/-- a `down` that returns has stopped every QEMU, and one that fails has not lost any -/
theorem down_stops (h : Kept name st) (ht : Tells p name st (.down e)) :
    ((down sha256 p name st e).1 = true → NoGuest (down sha256 p name st e).2.host) ∧
      Kept name (down sha256 p name st e).2 := by
  unfold Tells at ht
  unfold down
  cases hr : resolve p st.world name with
  | vm root cfg index =>
    simp only [hr] at ht ⊢
    obtain ⟨hok, hrec⟩ := run_down sha256 e ⟨h.recorded, ht⟩
    exact ⟨hok, kept_vm hr hrec⟩
  | redroid root cfg => exact ⟨fun _ => h.placed.noGuest (Or.inl ⟨cfg, hr⟩), h⟩
  | orphan root vm => exact ⟨fun hok => absurd hok Bool.false_ne_true, h⟩
  | refused => exact ⟨fun hok => absurd hok Bool.false_ne_true, h⟩

theorem destroy_stops (h : Kept name st) (ht : Tells p name st (.destroy e)) :
    ((destroy sha256 p name st e).1 = true → NoGuest (destroy sha256 p name st e).2.host) ∧
      Kept name (destroy sha256 p name st e).2 := by
  -- the directory goes when no QEMU is left
  have hgone : ∀ {root : Path} {s : Host B}, NoGuest s → NoGuest (remove name st root s).host ∧
      Kept name (remove name st root s) := fun hn => ⟨hn, kept_of_noGuest hn⟩
  unfold Tells at ht
  unfold destroy
  cases hr : resolve p st.world name with
  | vm root cfg index =>
    simp only [hr] at ht ⊢
    obtain ⟨hok, hrec⟩ := run_down sha256 e ⟨h.recorded, ht⟩
    split_ifs with hr1
    · exact ⟨fun _ => (hgone (hok hr1)).1, (hgone (hok hr1)).2⟩
    · exact ⟨fun hf => hf.elim, kept_vm hr hrec⟩
  | redroid root cfg =>
    have hn := h.placed.noGuest (Or.inl ⟨cfg, hr⟩)
    exact ⟨fun _ => (hgone hn).1, (hgone hn).2⟩
  | orphan root vm =>
    cases vm with
    | true =>
      simp only [hr] at ht ⊢
      have hn := run_terminate sha256 e h.recorded ht
      exact ⟨fun _ => (hgone hn).1, (hgone hn).2⟩
    | false =>
      have hn := h.placed.noGuest (Or.inr hr)
      exact ⟨fun _ => (hgone hn).1, (hgone hn).2⟩
  | refused => exact ⟨fun hf => absurd hf Bool.false_ne_true, h⟩

theorem step_kept (o : Op) (h : Kept name st) (ht : Tells p name st o) : Kept name (step sha256 p name st o) := by
  cases o with
  | up e => exact kept_up h ht
  | edit y =>
    refine ⟨h.recorded, h.placed.imp_right fun hrow => hrow.of_reg ?_⟩
    simp only [step, Staging.onRoot]
    split <;> rfl
  | apply e => exact kept_apply h ht
  | down e => exact (down_stops h ht).2
  | restart e => exact kept_restart h ht
  | destroy e => exact (destroy_stops h ht).2
  | exit pids =>
    refine ⟨fun x hx hg => h.recorded x (mem_of_exit hx) hg, h.placed.imp_left fun hn => ?_⟩
    exact (thinned_exit st.host pids).noGuest hn
  | foreign pid argv =>
    simp only [step]
    split_ifs
    · exact h
    · have hguest : ∀ x ∈ (st.host.procs.set pid ⟨argv, none⟩).entries, x.2.guest = none ∨ x ∈ st.host.procs.entries := by
        intro x hx
        rcases Dict.mem_set.1 hx with rfl | ⟨hx, -⟩
        · exact Or.inl rfl
        · exact Or.inr hx
      refine ⟨fun x hx hg => ?_, h.placed.imp_left fun hn x hx => ?_⟩
      · rcases hguest x hx with hnone | hx
        · rw [hnone] at hg
          cases hg
        · exact h.recorded x hx hg
      · exact (hguest x hx).elim id (hn x)

end Steps

theorem run_kept_all (sha256 : B → String) (p : Paths) (name : String) (st : St T B) (ops : List Op) (h : Kept name st)
    (ha : Always (step sha256 p name) (Tells p name) st ops) : Kept name (ops.foldl (step sha256 p name) st) :=
  run_always (I := Kept name) (fun _ o hk ht => step_kept o hk ht) h ha

/-- a vm instance without port pins -/
def unpinned : InstanceConfig := InstanceConfig.plain.onVm "bzImage" "rootfs.img" false

/-- the same with its adb on host port 6000 -/
def pinned : InstanceConfig := Staging.pinned6000.onVm "bzImage" "rootfs.img" false

/-- the new instance, next to its artifacts -/
def created : St ℕ String :=
  ⟨Staging.create Paths.sample ⟨∅, ∅⟩ "alpha" "/srv/x" unpinned 0,
    Host.new (Dict.ofList [(["bzImage"], "kernel"), (["rootfs.img"], "rootfs")])⟩

/-- the verbs of `alpha` -/
def runAlpha (ops : List Op) : St ℕ String := ops.foldl (step id Paths.sample "alpha") created

/-- the port is moved while the QEMU is down -/
def movedDown : List Op := [.up {}, .down {}, .edit (some (.valid pinned)), .up {}, .restart {}]

/-- the port is moved under a running QEMU: `down` does not recognise it -/
def movedUp : List Op := [.up {}, .edit (some (.valid pinned))]

/-- the binder is changed and applied under a running QEMU: `down` is a `docker compose down` -/
def rebound : List Op := [.up {}, .edit (some (.valid .plain)), .apply {}]

end Beetroot.Vm.Teardown
