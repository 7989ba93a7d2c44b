/-
Does a failed `up` leave a QEMU behind?

`VmDeviceBackend.up` once more, now with exceptions: at every step the world may raise one of the code's own exceptions or any
other (a `KeyboardInterrupt`, say), before or after the step has taken effect. The functions that hold no handler are the
programs of `Vm.Backend`, exposed (`Lib.Interrupt`) under the part of `up` in which they stand; those that hold one are written
out again, and `strips_up` says that nothing was changed on the way.

The handler around the wait for adb is all there is. The pidfile is written before it, the wait for `sys.boot_completed` and
the checkpoint come after it, and the `down` inside it can be interrupted itself. It finds its QEMU by name; a resume that
fails under another name launches the second QEMU beside the first.

Results:
- `strips_up`, `finish_up`: without interruptions this is `Backend.up`;
- `few_up`: at most two launches on every path;
- `clean_startAndWait`: a launch never makes a second live QEMU, and one that raises has left none, if the steps outside the
  handler do not raise, or if it raises what a resume answers with another launch;
- `no_orphan`: an `up` launches at most two QEMUs; it never has two alive if it can recognise them; and a failed one leaves none
  behind in every run without exceptions from the unguarded steps on;
- `orphaned`: a QEMU left behind by each of the unguarded steps, and two of them alive.
-/
import Beetroot.Lib.Interrupt
import Beetroot.Vm.Teardown

namespace Beetroot.Vm.Orphan

open Lib Lib.Fs Teardown
open Lib.Prog (Raised Outcome expose execExposed Strips)

/-! ## `up` with exceptions -/

/-- the part of `up` in which a step stands -/
inductive Region where
  | outside
  /-- the wait for adb, whose exceptions are caught -/
  | waiting
  /-- the `down` of the handler -/
  | cleanup
  /-- the wait for the boot, and `savevm` -/
  | checkpoint
deriving DecidableEq, Repr

/-- the code of `up`, where any step may raise -/
abbrev X := Prog.Exposed Ans Region VmError

/-- what the world does at a step -/
abbrev World := Region × Act → Outcome Choice VmError

section Code

variable (b : Backend)

def startAndWait (p : Paths) (port : Int) (l : Launch) (base : Path) : X Unit := do
  let _ ← expose .outside (start port (buildQemuArgv p.str l) l base)
  tryCatch (expose .waiting (b.waitForAdbConnect port)) fun e => do
    expose .cleanup b.down
    throw e

def launch (p : Paths) (x : Base) (loadvm : Option String) : X Unit := do
  let port ← expose .outside (MonadExcept.ofExcept b.adbPort)
  startAndWait b p port (b.cachedLaunch x port loadvm) x.rootfs

def resume (p : Paths) (x : Base) : X Bool :=
  tryCatch (do launch b p x (some snapshotTag); return true) fun e =>
    match e with
    | .own (.launch _) => do
      expose .outside discardOverlay
      expose .outside (Backend.freshOverlay x)
      launch b p x none
      return false
    | e => throw e

def bootCached (p : Paths) (x : Base) : X Unit := do
  expose .outside (ask .unlinkMonitor)
  expose .outside (Backend.dropUnusable x)
  expose .outside (Backend.ensureOverlay x)
  if ← expose .outside snapshotPresent then
    if ← resume b p x then return () else expose .checkpoint b.checkpoint
  else
    launch b p x none
    expose .checkpoint b.checkpoint

def upCached (p : Paths) (accel : ResolvedAccel) : X Unit := do
  let kernel ← expose .outside (resolveArtifact p b.cfg.vm.kernel b.settings.vmKernel .kernel)
  let rootfs ← expose .outside (resolveArtifact p b.cfg.vm.rootfs b.settings.vmRootfs .rootfs)
  bootCached b p ⟨kernel, rootfs, resolveSmp b.probe b.cfg.vm.smp, b.cfg.vm.memoryMib, accel⟩

def upPlain (p : Paths) (accel : ResolvedAccel) : X Unit := do
  let kernel ← expose .outside (resolveArtifact p b.cfg.vm.kernel b.settings.vmKernel .kernel)
  let rootfs ← expose .outside (resolveArtifact p b.cfg.vm.rootfs b.settings.vmRootfs .rootfs)
  let port ← expose .outside (MonadExcept.ofExcept b.adbPort)
  startAndWait b p port (b.plainLaunch accel kernel rootfs port) rootfs

def up (p : Paths) : X Unit :=
  if b.cfg.binder ≠ .vm then throw (.own (.capability b.cfg.binder))
  else do
    let accel ← expose .outside (MonadExcept.ofExcept (detectAccel b.probe b.cfg.vm.accel))
    if b.cfg.vm.bootCache then upCached b p accel else upPlain b p accel

/-! ## Without interruptions -/

variable {b} {p : Paths}

theorem strips_startAndWait (port : Int) (l : Launch) (base : Path) :
    Strips (startAndWait b p port l base) (b.startAndWait p port l base) :=
  Prog.strips_bind (Prog.strips_expose _ _) fun _ => Prog.strips_tryCatch (Prog.strips_expose _ _) fun e =>
    Prog.strips_bind (Prog.strips_expose _ _) fun _ => Prog.strips_throw e

theorem strips_launch (x : Base) (loadvm : Option String) : Strips (launch b p x loadvm) (b.launch p x loadvm) :=
  Prog.strips_bind (Prog.strips_expose _ _) fun port => strips_startAndWait port _ _

theorem strips_resume (x : Base) : Strips (resume b p x) (b.resume p x) := by
  refine Prog.strips_tryCatch (Prog.strips_bind (strips_launch x _) fun _ => Prog.strips_pure _) fun e => ?_
  cases e with
  | launch e =>
    exact Prog.strips_bind (Prog.strips_expose _ _) fun _ => Prog.strips_bind (Prog.strips_expose _ _) fun _ =>
      Prog.strips_bind (strips_launch x none) fun _ => Prog.strips_pure _
  | _ => exact Prog.strips_throw _

theorem strips_bootCached (x : Base) : Strips (bootCached b p x) (b.bootCached p x) := by
  refine Prog.strips_bind (Prog.strips_expose _ _) fun _ => Prog.strips_bind (Prog.strips_expose _ _) fun _ =>
    Prog.strips_bind (Prog.strips_expose _ _) fun _ => Prog.strips_bind (Prog.strips_expose _ _) fun warm => ?_
  cases warm with
  | true =>
    refine Prog.strips_bind (strips_resume x) fun resumed => ?_
    cases resumed with
    | true => exact Prog.strips_pure _
    | false => exact Prog.strips_expose _ _
  | false => exact Prog.strips_bind (strips_launch x none) fun _ => Prog.strips_expose _ _

/-- with every step answered, this is the `up` of `Vm.Backend` -/
theorem strips_up : Strips (up b p) (b.up p) := by
  unfold up Backend.up
  by_cases hb : b.cfg.binder ≠ .vm
  · rw [if_pos hb, if_pos hb]
    exact Prog.strips_throw _
  · rw [if_neg hb, if_neg hb]
    refine Prog.strips_bind (Prog.strips_expose _ _) fun accel => ?_
    cases b.cfg.vm.bootCache with
    | true =>
      exact Prog.strips_bind (Prog.strips_expose _ _) fun _ => Prog.strips_bind (Prog.strips_expose _ _) fun _ =>
        strips_bootCached _
    | false =>
      exact Prog.strips_bind (Prog.strips_expose _ _) fun _ => Prog.strips_bind (Prog.strips_expose _ _) fun _ =>
        Prog.strips_bind (Prog.strips_expose _ _) fun port => strips_startAndWait port _ _

theorem finish_up {B : Type} (sha256 : B → String) (d : Choice) (cs : List Choice) (s : Host B) :
    (up b p).run.finish (execExposed (exec sha256)) (Prog.answers d) (cs.map Prog.answers) s =
      (Prog.ofOwn ((b.up p).run.finish (exec sha256) d cs s).1, ((b.up p).run.finish (exec sha256) d cs s).2) :=
  strips_up.finish (exec sha256) d cs s

end Code

/-! ## What the parts do -/

section Parts

variable {b : Backend}

/-- the actions of `signalRecorded` -/
def signals : Act → Bool
  | .readPid | .cmdline _ | .sigterm _ | .sigkill _ => true
  | _ => false

theorem quiet_pidIsQemu (port : Option Int) (pid : ℕ) : Quiet (pidIsQemu port pid) := by
  refine Prog.all_seq (Prog.all_ask rfl) fun argv => ?_
  cases argv <;> trivial

theorem quiet_isRunning (port : Option Int) : Quiet (isRunning port) := by
  refine Prog.all_seq (Prog.all_ask rfl) fun pid => ?_
  cases pid with
  | none => exact Prog.all_pure _
  | some pid =>
    refine Prog.all_seq (Prog.all_ask rfl) fun live => ?_
    cases live with
    | true => exact quiet_pidIsQemu port pid
    | false => exact Prog.all_pure _

theorem quiet_adbLoop (port : Int) (rounds : ℕ) : Quiet (Backend.adbLoop port rounds) := by
  induction rounds with
  | zero =>
    refine Prog.all_seq (Prog.all_ask rfl) fun attached => ?_
    cases attached with
    | true => exact Prog.all_pure _
    | false =>
      refine Prog.all_seq (quiet_isRunning _) fun running => ?_
      cases running <;> trivial
  | succ rounds ih =>
    refine Prog.all_seq (Prog.all_ask rfl) fun attached => ?_
    cases attached with
    | true => exact Prog.all_pure _
    | false =>
      refine Prog.all_seq (quiet_isRunning _) fun running => ?_
      cases running with
      | true => exact ih
      | false => exact Prog.all_throw _

theorem quiet_waitForAdbConnect (port : Int) : Quiet (b.waitForAdbConnect port) := by
  refine Prog.all_seq (Prog.all_ask rfl) fun found => ?_
  cases found with
  | true => exact quiet_adbLoop port b.adbRounds
  | false => exact Prog.all_throw _

theorem signals_pidIsQemu (port : Option Int) (pid : ℕ) : (pidIsQemu port pid).run.All fun a => signals a = true := by
  refine Prog.all_seq (Prog.all_ask rfl) fun argv => ?_
  cases argv <;> trivial

theorem signals_escalate (port : Option Int) (pid polls : ℕ) :
    (escalateIfAlive port pid polls).run.All fun a => signals a = true := by
  induction polls with
  | zero =>
    refine Prog.all_seq (signals_pidIsQemu port pid) fun alive => ?_
    cases alive with
    | true => exact Prog.all_ask rfl
    | false => exact Prog.all_pure _
  | succ polls ih =>
    refine Prog.all_seq (signals_pidIsQemu port pid) fun alive => ?_
    cases alive with
    | true => exact ih
    | false => exact Prog.all_pure _

theorem signals_signalRecorded (polls : ℕ) (port : Option Int) :
    (signalRecorded polls port).run.All fun a => signals a = true := by
  refine Prog.all_seq (Prog.all_ask rfl) fun pid => ?_
  cases pid with
  | none => exact Prog.all_pure _
  | some pid =>
    refine Prog.all_seq (signals_pidIsQemu port pid) fun ours => ?_
    cases ours with
    | false => exact Prog.all_pure _
    | true =>
      refine Prog.all_seq (Prog.all_ask rfl) fun delivered => ?_
      cases delivered with
      | true => exact Prog.all_seq (signals_escalate port pid polls) fun _ => Prog.all_pure _
      | false => exact Prog.all_pure _

end Parts

/-! ## How many are launched -/

section Count

variable {B : Type} {b : Backend} {sha256 : B → String} {s t : Host B}

def launches : Act → Bool
  | .popen _ _ _ => true
  | _ => false

theorem launched_eq {a : Act} (ha : launches a = false) (c : Choice) (s : Host B) :
    (exec sha256 c a s).2.launched = s.launched := by
  cases a with
  | popen argv l base => cases ha
  | imgCreate base => simp only [exec, act]; split_ifs <;> rfl
  | replaceKey id => simp only [exec, act]; split_ifs <;> rfl
  | writePid pid => simp only [exec, act]; split_ifs <;> rfl
  | bootCompleted port => simp only [exec, act]; split_ifs <;> rfl
  | savevm =>
    simp only [exec, act, Host.save]
    split_ifs
    · split <;> rfl
    · rfl
  | _ => rfl

theorem launched_exec (a : Act) (c : Choice) (s : Host B) :
    (exec sha256 c a s).2.launched.length ≤ s.launched.length + if launches a then 1 else 0 := by
  cases a with
  | popen argv l base =>
    simp only [exec, act, launches, if_true]
    split_ifs
    · rw [(spawn_same _ _ _ _ _).launched]
      simp [Host.logged, Host.exit]
    · simp [Host.exit]
  | _ =>
    rw [launched_eq rfl]
    exact Nat.le_add_right _ _

theorem launched_execExposed (x : Region × Act) (w : World) (s : Host B) :
    (execExposed (exec sha256) w x s).2.launched.length ≤ s.launched.length + if launches x.2 then 1 else 0 := by
  unfold execExposed
  split
  · exact launched_exec _ _ _
  · exact Nat.le_add_right _ _
  · exact launched_exec _ _ _

variable {p : Paths}

/-- a program that launches nothing -/
abbrev Still {α : Type} (q : M α) : Prop := q.run.All fun a => launches a = false

theorem Quiet.still {α : Type} {q : M α} (h : Quiet q) : Still q := by
  refine h.mono fun a ha => ?_
  cases a with
  | popen argv l base => cases ha
  | _ => rfl

theorem still_signalRecorded (polls : ℕ) (port : Option Int) : Still (signalRecorded polls port) := by
  refine (signals_signalRecorded polls port).mono fun a ha => ?_
  cases a with
  | popen argv l base => cases ha
  | _ => rfl

theorem still_down : Still b.down :=
  Prog.all_seq (Quiet.still (quiet_ofExcept _)) fun _ => Prog.all_seq (Prog.all_seq (still_signalRecorded _ _) fun _ =>
    Prog.all_seq (Prog.all_ask rfl) fun _ => Prog.all_pure _) fun _ => Prog.all_pure _

/-- at most `n` launches on every path -/
abbrev Few {α : Type} (n : ℕ) (q : X α) : Prop := q.run.AtMost (fun x => launches x.2) n

theorem few_still {α : Type} {q : M α} (h : Still q) (r : Region) : Few 0 (expose r q) := (h.atMost 0).expose

theorem few_start (port : Int) (argv : List String) (l : Launch) (base : Path) :
    Few 1 (expose .outside (start port argv l base)) := by
  have hrunning : Still (isRunning (some port)) := Quiet.still (quiet_isRunning _)
  have hrefuse : Still (ask .readPid >>= fun pid => throw (.launch (.alreadyRunning pid)) : M ℕ) :=
    Prog.all_seq (Prog.all_ask rfl) fun _ => Prog.all_throw _
  have hrecord : ∀ pid, Still (ask (.writePid pid) >>= fun w => if w then return pid else throw .os : M ℕ) := by
    refine fun pid => Prog.all_seq (Prog.all_ask rfl) fun w => ?_
    cases w <;> trivial
  refine Prog.AtMost.expose (Prog.atMost_seq (n := 0) (m := 1) (hrunning.atMost 0) fun running => ?_)
  cases running with
  | true => exact hrefuse.atMost 1
  | false =>
    refine ⟨0, rfl, fun pid => ?_⟩
    cases pid with
    | none => exact (Prog.all_throw _ : Still _).atMost 0
    | some pid => exact (hrecord pid).atMost 0

theorem few_startAndWait (port : Int) (l : Launch) (base : Path) : Few 1 (startAndWait b p port l base) := by
  refine Prog.atMost_seq (m := 0) (few_start port _ l base) fun _ => Prog.atMost_tryCatch (n := 0) (m := 0) ?_ fun e => ?_
  · exact few_still (Quiet.still (quiet_waitForAdbConnect _)) .waiting
  · exact Prog.atMost_seq (m := 0) (few_still still_down .cleanup) fun _ => trivial

theorem few_adbPort {α : Type} {n : ℕ} {f : Int → X α} (hf : ∀ port, Few n (f port)) :
    Few n (expose .outside (MonadExcept.ofExcept b.adbPort) >>= f) := by
  cases hport : b.adbPort with
  | ok port => exact hf port
  | error e => trivial

theorem few_launch (x : Base) (loadvm : Option String) : Few 1 (launch b p x loadvm) :=
  few_adbPort fun port => few_startAndWait port (b.cachedLaunch x port loadvm) x.rootfs

/-- one launch, and one more after it has failed -/
theorem few_resume (x : Base) : Few 2 (resume b p x) := by
  refine Prog.atMost_tryCatch (n := 1) (m := 1) (Prog.atMost_seq (m := 0) (few_launch x _) fun _ => trivial) fun e => ?_
  split
  · exact Prog.atMost_seq (n := 0) (m := 1) (few_still (Quiet.still quiet_discard) _) fun _ =>
      Prog.atMost_seq (n := 0) (m := 1) (few_still (Quiet.still (quiet_freshOverlay x)) _) fun _ =>
        Prog.atMost_seq (m := 0) (few_launch x none) fun _ => trivial
  · trivial

theorem few_bootCached (x : Base) : Few 2 (bootCached b p x) := by
  have hunlink : Quiet (ask .unlinkMonitor) := Prog.all_ask rfl
  have hcheckpoint : Few 0 (expose .checkpoint b.checkpoint) := few_still (Quiet.still quiet_checkpoint) _
  refine Prog.atMost_seq (n := 0) (m := 2) (few_still (Quiet.still hunlink) _) fun _ =>
    Prog.atMost_seq (n := 0) (m := 2) (few_still (Quiet.still (quiet_dropUnusable x)) _) fun _ =>
    Prog.atMost_seq (n := 0) (m := 2) (few_still (Quiet.still (quiet_ensureOverlay x)) _) fun _ =>
    Prog.atMost_seq (n := 0) (m := 2) (few_still (Quiet.still quiet_snapshotPresent) _) fun warm => ?_
  cases warm with
  | true =>
    refine Prog.atMost_seq (m := 0) (few_resume x) fun resumed => ?_
    cases resumed with
    | true => trivial
    | false => exact hcheckpoint
  | false => exact (Prog.atMost_seq (few_launch x none) fun _ => hcheckpoint).mono (by decide)

theorem few_up : Few 2 (up b p) := by
  have hartifact : ∀ c e (a : Artifact), Few 0 (expose .outside (resolveArtifact p c e a)) :=
    fun c e a => few_still (Quiet.still (quiet_resolveArtifact p c e a)) _
  unfold up
  split_ifs
  · trivial
  · refine Prog.atMost_seq (n := 0) (m := 2) (few_still (Quiet.still (quiet_ofExcept _)) _) fun accel => ?_
    exact Prog.atMost_seq (n := 0) (m := 2) (hartifact _ _ _) fun _ =>
      Prog.atMost_seq (n := 0) (m := 2) (hartifact _ _ _) fun _ => few_bootCached _
  · refine Prog.atMost_seq (n := 0) (m := 2) (few_still (Quiet.still (quiet_ofExcept _)) _) fun accel => ?_
    refine Prog.atMost_seq (n := 0) (m := 2) (hartifact _ _ _) fun kernel =>
      Prog.atMost_seq (n := 0) (m := 2) (hartifact _ _ _) fun rootfs => ?_
    exact (few_adbPort fun port => few_startAndWait port _ rootfs).mono (by decide : 1 ≤ 2)

/-- along every execution of `up`, wherever it is stopped -/
theorem launched_stopped_up (sha256 : B → String) (b : Backend) (p : Paths) (s : Host B) (ws : List World) :
    ((up b p).run.stopped (execExposed (exec sha256)) ws s).launched.length ≤ s.launched.length + 2 := by
  have hcount : (up b p).run.Along (execExposed (exec sha256)) (fun _ => True)
      (fun t => t.launched.length ≤ s.launched.length + 2) (fun _ _ => True) s :=
    Prog.AtMost.along (μ := fun t : Host B => t.launched.length) (fun w _ x t => launched_execExposed x w t) few_up le_rfl
  exact hcount.stopped fun _ _ => trivial

end Count

/-! ## How many are alive -/

/-- at most one QEMU of the instance is alive -/
def Lone {B : Type} (s : Host B) : Prop :=
  ∀ e ∈ s.procs.entries, ∀ e' ∈ s.procs.entries, e.2.guest.isSome = true → e'.2.guest.isSome = true → e.1 = e'.1

instance {B : Type} (s : Host B) : Decidable (Lone s) := by unfold Lone; infer_instance

section Alive

variable {B : Type} {sha256 : B → String} {s t : Host B}

theorem lone_of_noGuest (h : NoGuest s) : Lone s := by
  intro e he e' _ hg _
  rw [h e he] at hg
  cases hg

theorem Lone.thinned (h : Lone s) (ht : Thinned s t) : Lone t := by
  intro e he e' he' hg hg'
  obtain ⟨e₁, he₁, hg₁, hid, -⟩ := ht.guest he hg
  obtain ⟨e₁', he₁', hg₁', hid', -⟩ := ht.guest he' hg'
  calc e.1 = e₁.1 := hid.symm
    _ = e₁'.1 := h e₁ he₁ e₁' he₁' hg₁ hg₁'
    _ = e'.1 := hid'

/-- a launch that finds no QEMU alive makes one -/
theorem lone_spawn (h : NoGuest s) (pid : ℕ) (argv : List String) (l : Launch) (base : Path) :
    Lone (s.spawn pid argv l base) := by
  have hnew : ∀ e ∈ (s.spawn pid argv l base).procs.entries, e.2.guest.isSome = true → e.1 = pid := by
    intro e he hg
    rcases mem_spawn he with rfl | he
    · rfl
    · rw [h e he] at hg
      cases hg
  intro e he e' he' hg hg'
  rw [hnew e he hg, hnew e' he' hg']

/-- nothing but a launch makes a QEMU -/
theorem lone_exec {a : Act} (ha : launches a = false) (c : Choice) (s : Host B) (h : Lone s) :
    Lone (exec sha256 c a s).2 := by
  have hexit := h.thinned (thinned_exit s c.exits)
  cases hq : quiet a with
  | true => exact h.thinned (thinned_exec hq sha256 c s)
  | false =>
    cases a with
    | popen argv l base => cases ha
    | writePid pid =>
      simp only [exec, act]
      split_ifs <;> exact hexit
    | sigkill pid => exact hexit.thinned (thinned_exit _ _)
    | unlinkPid => exact hexit
    | _ => cases hq

end Alive

/-! ## Which exceptions do no harm -/

/-- what the world does at a step is covered by the handler, or happens while no QEMU is alive -/
structure Harmless (w : World) : Prop where
  /-- the pidfile of a new QEMU is written, and no exception comes in between -/
  recorded : ∀ pid, ∃ c, w (.outside, .writePid pid) = .answer c ∧ c.written = true
  /-- no exception out of a `Popen` that has started its process -/
  spawned : ∀ argv l base c e, w (.outside, .popen argv l base) ≠ .raiseAfter c e
  /-- no exception in the handler, until the pidfile is removed -/
  cleanup : ∀ a, a ≠ .unlinkPid → ∃ c, w (.cleanup, a) = .answer c
  /-- none after the handler, and `adb` is still on PATH -/
  checkpoint : ∀ a, ∃ c, w (.checkpoint, a) = .answer c ∧ (a = .whichAdb → c.found = true)

/-- a `QemuLaunchError`, which a resume answers with a second launch -/
def Relaunch (e : Raised VmError) : Prop := ∃ le, e = .own (.launch le)

/-- while a QEMU may be alive, no exception from outside is a `QemuLaunchError` -/
structure Calm (w : World) : Prop where
  recorded : ∀ pid e, (w (.outside, .writePid pid)).raised = some e → ¬ Relaunch e
  spawned : ∀ argv l base c e, w (.outside, .popen argv l base) = .raiseAfter c e → ¬ Relaunch e
  cleanup : ∀ a, a ≠ .unlinkPid → ∀ e, (w (.cleanup, a)).raised = some e → ¬ Relaunch e

theorem Harmless.calm {w : World} (h : Harmless w) : Calm w where
  recorded pid e he := by
    obtain ⟨c, hc, -⟩ := h.recorded pid
    rw [hc] at he
    cases he
  spawned argv l base c e he := absurd he (h.spawned argv l base c e)
  cleanup a ha e he := by
    obtain ⟨c, hc⟩ := h.cleanup a ha
    rw [hc] at he
    cases he

/-- the world is calm, and harmless if `h` says so -/
structure Meets (h : Prop) (w : World) : Prop where
  calm : Calm w
  harmless : h → Harmless w

/-- the QEMU binary is named `qemu-system…` -/
abbrev Named (b : Backend) : Prop := names "qemu-system" [b.settings.qemuBin] = true

section Clean

variable {B : Type} {b : Backend} {sha256 : B → String} {p : Paths} {s t : Host B} {h : Prop} {k : Raised VmError → Prop}

/-- a program that, from a state without a live QEMU, never has two alive, and returns in `Q`; and if a QEMU can be recognised,
an exception with `k` leaves none -/
def Clean (b : Backend) (sha256 : B → String) (h : Prop) (k : Raised VmError → Prop) {α : Type} (q : X α)
    (Q : Host B → Prop) : Prop :=
  ∀ s : Host B, NoGuest s → Prog.Runs (execExposed (exec sha256)) (Meets h) Lone q s (fun _ t => Q t)
    fun e t => k e → Named b → NoGuest t

theorem clean_throw {α : Type} {Q : Host B → Prop} (e : Raised VmError) : Clean b sha256 h k (throw e : X α) Q :=
  fun _ hs => Prog.runs_throw (lone_of_noGuest hs) fun _ _ => hs

theorem Clean.bind {α β : Type} {Q : Host B → Prop} {q : X α} {f : α → X β} (hq : Clean b sha256 h k q NoGuest)
    (hf : ∀ x, Clean b sha256 h k (f x) Q) : Clean b sha256 h k (q >>= f) Q :=
  fun s hs => Prog.runs_bind ((hq s hs).mono (fun x t _ ht => hf x t ht) fun _ _ _ ht => ht)

theorem Clean.mono {α : Type} {Q : Host B → Prop} {k' : Raised VmError → Prop} {q : X α} (hq : Clean b sha256 h k q Q)
    (hk : ∀ e, k' e → k e) : Clean b sha256 h k' q Q :=
  fun s hs => (hq s hs).mono (fun _ _ _ ht => ht) fun e _ _ ht he => ht (hk e he)

/-- a part that launches nothing may be interrupted anywhere -/
theorem runs_still {α : Type} {q : M α} (hq : Still q) (r : Region) (hl : Lone s) :
    Prog.Runs (execExposed (exec sha256)) (Meets h) Lone (expose r q) s (fun _ _ => True) fun _ _ => True := by
  refine (Prog.All.runs hq.expose (fun w _ x hx s hs => ?_) hl).mono (fun _ _ _ _ => trivial) fun _ _ _ _ => trivial
  exact Prog.exec_keeps (fun c s hs => lone_exec hx.2 c s hs) w hs

/-- and a quiet part has made no QEMU, and lost none -/
theorem runs_quiet {α : Type} {q : M α} (hq : Quiet q) (r : Region) {J : Host B → Prop}
    (hJ : ∀ s t, Thinned s t → J s → J t) (hl : Lone s) (hs : J s) :
    Prog.Runs (execExposed (exec sha256)) (Meets h) Lone (expose r q) s (fun _ t => J t) fun _ t => J t := by
  have hkept : Prog.Runs (execExposed (exec sha256)) (Meets h) J (expose r q) s (fun _ t => J t) fun _ t => J t :=
    Prog.All.runs hq.expose (fun w _ x hx s hs => Prog.exec_keeps (fun c s hs => hJ s _ (thinned_exec hx.2 sha256 c s) hs) w hs) hs
  have hlone : Prog.Runs (execExposed (exec sha256)) (Meets h) Lone (expose r q) s (fun _ _ => True) fun _ _ => True :=
    runs_still (Quiet.still hq) r hl
  exact ((hlone.and hkept).weaken fun _ h => h.1).mono (fun _ _ _ h => h.2) fun _ _ _ h => h.2

theorem clean_quiet {α : Type} {q : M α} (hq : Quiet q) (r : Region) : Clean b sha256 h k (expose r q) NoGuest :=
  fun _ hs => (runs_quiet hq r (fun _ _ ht hs => ht.noGuest hs) (lone_of_noGuest hs) hs).mono (fun _ _ _ ht => ht)
    fun _ _ _ ht _ _ => ht

/-- one exposed action, and what follows it -/
theorem runs_expose_act {α : Type} {a : Act} {f : Ans a → M α} {r : Region} {Q : α → Host B → Prop}
    {E : Raised VmError → Host B → Prop} (hl : Lone s)
    (hanswer : ∀ w c, Meets h w → w (r, a) = .answer c →
      Prog.Runs (execExposed (exec sha256)) (Meets h) Lone (expose r (f (exec sha256 c a s).1)) (exec sha256 c a s).2 Q E)
    (hraise : ∀ w e, Meets h w → w (r, a) = .raise e → E e s)
    (hafter : ∀ w c e, Meets h w → w (r, a) = .raiseAfter c e → Lone (exec sha256 c a s).2 ∧ E e (exec sha256 c a s).2) :
    Prog.Runs (execExposed (exec sha256)) (Meets h) Lone (expose r (ask a >>= f)) s Q E := by
  rw [Prog.expose_bind]
  refine Prog.runs_bind (Prog.runs_expose_ask hl (fun w c hw hx => ?_) hraise hafter)
  have hrest := hanswer w c hw hx
  exact ⟨Prog.Along.inv hrest, hrest⟩

theorem noGuest_exit (hs : NoGuest s) (pids : List ℕ) : NoGuest (s.exit pids) := (thinned_exit s pids).noGuest hs

/-- `start` returns with the new QEMU recorded -/
theorem clean_start {l : Launch} (hport : b.adbPort = .ok l.hostAdbPort) (hbin : l.qemuBin = b.settings.qemuBin)
    (base : Path) :
    Clean b sha256 h (fun e => h ∨ Relaunch e) (expose .outside (start l.hostAdbPort (buildQemuArgv p.str l) l base))
      fun t : Host B => Named b → Held b t := by
  intro s hs
  unfold start
  rw [Prog.expose_bind]
  refine Prog.runs_bind ((clean_quiet (quiet_isRunning _) .outside s hs).mono ?_ fun _ _ _ ht => ht)
  intro running u _ hu
  have hlone := lone_of_noGuest hu
  cases running with
  | true =>
    have hrefuse : Quiet (ask .readPid >>= fun pid => throw (.launch (.alreadyRunning pid)) : M ℕ) :=
      Prog.all_seq (Prog.all_ask rfl) fun _ => Prog.all_throw _
    exact (clean_quiet hrefuse .outside u hu).mono (fun _ _ _ ht _ => ht.held) fun _ _ _ ht => ht
  | false =>
    have hnone := fun c : Choice => noGuest_exit hu c.exits
    refine runs_expose_act hlone (fun w c hw hx => ?_) (fun _ _ _ _ _ _ => hu) fun w c e hw hx => ⟨?_, ?_⟩
    · simp only [exec, act]
      split_ifs with hok
      · -- the process lives: whatever comes next must write its pidfile
        have hspawned := lone_spawn (hnone c) (freshPid (u.exit c.exits).procs c.pid) (buildQemuArgv p.str l) l base
        have hunless : ∀ w' e, Meets h w' → (w' (.outside, .writePid (freshPid (u.exit c.exits).procs c.pid))).raised = some e →
            ¬ (h ∨ Relaunch e) := by
          rintro w' e hw' he (hh | hre)
          · obtain ⟨c', hc', -⟩ := (hw'.harmless hh).recorded (freshPid (u.exit c.exits).procs c.pid)
            rw [hc'] at he
            cases he
          · exact hw'.calm.recorded _ e he hre
        refine runs_expose_act hspawned (fun w' c' hw' hx' => ?_) ?_ ?_
        · have hexit := hspawned.thinned (thinned_exit _ c'.exits)
          cases hwritten : c'.written with
          | true =>
            simp only [exec, act, hwritten, if_true]
            exact Prog.runs_pure hexit fun hn => held_spawn (hnone c) hport (by rw [hbin]; exact hn)
          | false =>
            simp only [exec, act, hwritten, Bool.false_eq_true, if_false]
            refine Prog.runs_throw hexit fun hk => ?_
            rcases hk with hh | ⟨le, hle⟩
            · obtain ⟨c'', hx'', hwritten'⟩ := (hw'.harmless hh).recorded (freshPid (u.exit c.exits).procs c.pid)
              obtain rfl : c' = c'' := Outcome.answer.inj (hx'.symm.trans hx'')
              exact absurd (hwritten.symm.trans hwritten') Bool.false_ne_true
            · cases hle
        · exact fun w' e hw' hx' hk => absurd hk (hunless w' e hw' (by rw [hx']; rfl))
        · exact fun w' c' e hw' hx' => ⟨lone_exec rfl c' _ hspawned, fun hk => absurd hk (hunless w' e hw' (by rw [hx']; rfl))⟩
      · exact Prog.runs_throw (lone_of_noGuest (hnone c)) fun _ _ => hnone c
    · simp only [exec, act]
      split_ifs
      · exact lone_spawn (hnone c) _ _ _ _
      · exact lone_of_noGuest (hnone c)
    · rintro (hh | hre)
      · exact absurd hx ((hw.harmless hh).spawned _ _ _ c e)
      · exact absurd hre (hw.calm.spawned _ _ _ c e hx)

/-- the `down` of the handler removes the QEMU, and then the pidfile -/
theorem runs_cleanup {port : Int} (hport : b.adbPort = .ok port) (hl : Lone s) (hs : Named b → Held b s) :
    Prog.Runs (execExposed (exec sha256)) (Meets h) Lone (expose .cleanup b.down) s (fun _ t => Named b → NoGuest t)
      fun e t => h ∨ Relaunch e → Named b → NoGuest t := by
  by_cases hn : Named b
  · unfold Backend.down terminate
    rw [hport]
    have hsignal : Prog.Runs (exec sha256) (fun _ => True) (fun _ => True) (signalRecorded b.termPolls (some port)) s
        (fun _ t => NoGuest t) fun _ _ => False := by
      refine (runs_signalRecorded (any_exit _) (some port) b.termPolls fun _ _ => trivial).mono ?_ fun _ _ _ h => h
      rintro _ _ - ⟨⟨pids, rfl⟩, hgone⟩
      exact (hs hn).killed (t := { s.exit pids with pidfile := none }) hport ⟨⟨pids, rfl⟩, hgone⟩
    have hlone : Prog.Runs (exec sha256) (fun _ => True) Lone (signalRecorded b.termPolls (some port)) s
        (fun _ t => Lone t) fun _ t => Lone t :=
      Prog.All.runs (still_signalRecorded _ _) (fun c _ a ha s hs => lone_exec ha c s hs) hl
    have hboth := ((hsignal.and hlone).weaken fun _ h => h.2).mono (fun _ _ _ h => h.1) fun _ _ _ h => h.1
    simp only [Prog.expose_bind]
    refine Prog.runs_bind (Prog.runs_pure hl (Prog.runs_bind (Prog.runs_bind ?_)))
    refine (hboth.expose (F := fun e t => h ∨ Relaunch e → Named b → NoGuest t)
      (signals_signalRecorded b.termPolls (some port)) fun w hw a ha e t he _ hk => ?_).mono ?_ ?_
    · -- an interrupted handler raises something else, and nothing is launched after it
      have hunlink : a ≠ .unlinkPid := by
        intro heq
        rw [heq] at ha
        cases ha
      rcases hk with hh | hre
      · obtain ⟨c, hc⟩ := (hw.harmless hh).cleanup a hunlink
        rw [hc] at he
        cases he
      · exact absurd hre (hw.calm.cleanup a hunlink e he)
    · intro _ u _ hu
      have hgone := fun c : Choice => noGuest_exit hu c.exits
      refine Prog.runs_bind (Prog.runs_expose_ask (lone_of_noGuest hu) ?_ (fun _ _ _ _ _ _ => hu) fun w c _ _ _ => ?_)
      · exact fun w c _ _ => ⟨lone_of_noGuest (hgone c),
          Prog.runs_pure (lone_of_noGuest (hgone c)) (Prog.runs_pure (lone_of_noGuest (hgone c)) fun _ => hgone c)⟩
      · exact ⟨lone_of_noGuest (hgone c), fun _ _ => hgone c⟩
    · rintro e t - (⟨_, -, hf⟩ | hk)
      · exact hf.elim
      · exact hk
  · exact (runs_still still_down .cleanup hl).mono (fun _ _ _ _ hn' => absurd hn' hn) fun _ _ _ _ _ hn' => absurd hn' hn

theorem clean_startAndWait {l : Launch} (hport : b.adbPort = .ok l.hostAdbPort) (hbin : l.qemuBin = b.settings.qemuBin)
    (base : Path) :
    Clean (B := B) b sha256 h (fun e => h ∨ Relaunch e) (startAndWait b p l.hostAdbPort l base) fun _ => True := by
  intro s hs
  refine Prog.runs_bind ((clean_start hport hbin base s hs).mono ?_ fun _ _ _ ht => ht)
  intro _ u hlone hu
  have hwait : Prog.Runs (execExposed (exec sha256)) (Meets h) Lone (expose .waiting (b.waitForAdbConnect l.hostAdbPort)) u
      (fun _ t => Named b → Held b t) fun _ t => Named b → Held b t :=
    runs_quiet (quiet_waitForAdbConnect _) .waiting (fun _ _ ht hheld hn => ht.held (hheld hn)) hlone hu
  refine Prog.runs_tryCatch (hwait.mono (fun _ _ _ _ => trivial) ?_)
  intro e v hv hheld
  refine Prog.runs_bind ((runs_cleanup hport hv hheld).mono ?_ fun _ _ _ ht => ht)
  exact fun _ t ht hnone => Prog.runs_throw ht fun _ => hnone

theorem runs_bootLoop (port : Int) (rounds : ℕ) (s : Host B) :
    Prog.Runs (exec sha256) (fun _ => True) (fun _ => True) (Backend.bootLoop port rounds) s (fun _ _ => True)
      fun _ _ => False := by
  induction rounds generalizing s with
  | zero => exact Prog.runs_pure trivial trivial
  | succ rounds ih =>
    refine runs_act trivial fun c _ r t _ => ?_
    cases r with
    | true => exact Prog.runs_pure trivial trivial
    | false => exact ih t

/-- after the handler, what does not raise by itself does not raise in a harmless world -/
theorem runs_after {α : Type} {q : M α} {Q : α → Host B → Prop} (hh : h)
    (hq : Prog.Runs (exec sha256) (fun _ => True) (fun _ => True) q s Q fun _ _ => False) :
    Prog.Runs (execExposed (exec sha256)) (Meets h) (fun _ => True) (expose .checkpoint q) s Q fun _ _ => False := by
  refine (hq.expose (F := fun _ _ => False) (Prog.all_true _) fun w hw a _ e _ he _ => ?_).mono (fun _ _ _ hq => hq) ?_
  · obtain ⟨c, hc, -⟩ := (hw.harmless hh).checkpoint a
    rw [hc] at he
    cases he
  · rintro _ _ - (⟨_, -, hf⟩ | hf) <;> exact hf

theorem runs_waitForBoot (hh : h) (port : Int) (s : Host B) :
    Prog.Runs (execExposed (exec sha256)) (Meets h) (fun _ => True) (expose .checkpoint (b.waitForBootCompleted port)) s
      (fun _ _ => True) fun _ _ => False := by
  unfold Backend.waitForBootCompleted
  rw [Prog.expose_bind]
  refine Prog.runs_bind (Prog.runs_expose_ask trivial (fun w c hw hx => ?_) (fun w e hw hx => ?_) fun w c e hw hx => ?_)
  all_goals obtain ⟨c', hx', hfound⟩ := (hw.harmless hh).checkpoint .whichAdb
  · obtain rfl : c = c' := Outcome.answer.inj (hx.symm.trans hx')
    simp only [exec, act, hfound, if_true]
    exact ⟨trivial, runs_after hh (runs_bootLoop port b.bootRounds _)⟩
  · cases hx.symm.trans hx'
  · cases hx.symm.trans hx'

/-- with `adb` on PATH and no exception from outside, the checkpoint does not raise -/
theorem runs_checkpoint {port : Int} (hport : b.adbPort = .ok port) (hl : Lone s) :
    Prog.Runs (execExposed (exec sha256)) (Meets h) Lone (expose .checkpoint b.checkpoint) s (fun _ _ => True)
      fun _ t => h → Named b → NoGuest t := by
  have hlone : Prog.Runs (execExposed (exec sha256)) (Meets h) Lone (expose .checkpoint b.checkpoint) s (fun _ _ => True)
      fun _ _ => True := runs_still (Quiet.still quiet_checkpoint) .checkpoint hl
  by_cases hh : h
  · have hreturns : Prog.Runs (execExposed (exec sha256)) (Meets h) (fun _ => True) (expose .checkpoint b.checkpoint) s
        (fun _ _ => True) fun _ _ => False := by
      unfold Backend.checkpoint
      rw [hport, Prog.expose_bind]
      refine Prog.runs_bind (Prog.runs_pure trivial ?_)
      rw [Prog.expose_bind]
      refine Prog.runs_bind ((runs_waitForBoot hh port s).mono (fun booted t _ _ => ?_) fun _ _ _ h => h)
      cases booted with
      | true => exact runs_after hh (runs_act trivial fun _ _ _ _ _ => Prog.runs_pure trivial trivial)
      | false => exact Prog.runs_pure trivial trivial
    exact ((hlone.and hreturns).weaken fun _ ht => ht.1).mono (fun _ _ _ _ => trivial) fun _ _ _ ht => ht.2.elim
  · exact hlone.mono (fun _ _ _ _ => trivial) fun _ _ _ _ hh' => absurd hh' hh

theorem clean_adbPort {α : Type} {Q : Host B → Prop} {f : Int → X α}
    (hf : ∀ port, b.adbPort = .ok port → Clean b sha256 h k (f port) Q) :
    Clean b sha256 h k (expose .outside (MonadExcept.ofExcept b.adbPort) >>= f) Q := by
  cases hport : b.adbPort with
  | ok port => exact fun s hs => Prog.runs_bind (Prog.runs_pure (lone_of_noGuest hs) (hf port hport s hs))
  | error e => exact fun s hs => Prog.runs_bind (Prog.runs_throw (lone_of_noGuest hs) fun _ _ => hs)

theorem clean_launch (x : Base) (loadvm : Option String) :
    Clean (B := B) b sha256 h (fun e => h ∨ Relaunch e) (launch b p x loadvm) fun _ => ∃ port, b.adbPort = .ok port := by
  refine clean_adbPort fun port hport s hs => ?_
  have hclean : Clean b sha256 h (fun e => h ∨ Relaunch e) (startAndWait b p port (b.cachedLaunch x port loadvm) x.rootfs)
      fun _ => True := clean_startAndWait (l := b.cachedLaunch x port loadvm) hport rfl x.rootfs
  exact (hclean s hs).mono (fun _ _ _ _ => ⟨port, hport⟩) fun _ _ _ ht => ht

/-- the second launch follows a launch that has left no QEMU -/
theorem clean_resume (hbin : Named b) (x : Base) :
    Clean (B := B) b sha256 h (fun _ => h) (resume b p x) fun _ => ∃ port, b.adbPort = .ok port := by
  intro s hs
  refine Prog.runs_tryCatch (Prog.runs_bind ((clean_launch x _ s hs).mono ?_ fun e t ht hk => ?_))
  · exact fun _ _ hl hport => Prog.runs_pure hl hport
  · split
    · have hnone := hk (Or.inr ⟨_, rfl⟩) hbin
      refine (clean_quiet quiet_discard _).bind (fun _ => (clean_quiet (quiet_freshOverlay x) _).bind fun _ u hu => ?_) t hnone
      refine Prog.runs_bind (((clean_launch x none).mono fun e hh => Or.inl hh) u hu |>.mono ?_ fun _ _ _ ht => ht)
      exact fun _ _ hl hport => Prog.runs_pure hl hport
    · exact Prog.runs_throw ht fun hh => hk (Or.inl hh)

theorem clean_bootCached (hbin : Named b) (x : Base) :
    Clean (B := B) b sha256 h (fun _ => h) (bootCached b p x) fun _ => True := by
  have hunlink : Quiet (ask .unlinkMonitor) := Prog.all_ask rfl
  refine (clean_quiet hunlink _).bind fun _ => (clean_quiet (quiet_dropUnusable x) _).bind fun _ =>
    (clean_quiet (quiet_ensureOverlay x) _).bind fun _ => (clean_quiet quiet_snapshotPresent _).bind fun warm s hs => ?_
  cases warm with
  | true =>
    refine Prog.runs_bind ((clean_resume hbin x s hs).mono (fun resumed t hl hport => ?_) fun _ _ _ ht => ht)
    obtain ⟨port, hport⟩ := hport
    cases resumed with
    | true => exact Prog.runs_pure hl trivial
    | false => exact runs_checkpoint hport hl
  | false =>
    refine Prog.runs_bind (((clean_launch x none).mono fun e hh => Or.inl hh) s hs |>.mono (fun _ t hl hport => ?_)
      fun _ _ _ ht => ht)
    obtain ⟨port, hport⟩ := hport
    exact runs_checkpoint hport hl

theorem clean_up (hbin : b.cfg.vm.bootCache = true → Named b) : Clean (B := B) b sha256 h (fun _ => h) (up b p) fun _ => True := by
  unfold up
  split_ifs with hbinder hcache
  · exact clean_throw _
  · exact (clean_quiet (quiet_ofExcept _) _).bind fun accel => (clean_quiet (quiet_resolveArtifact p _ _ _) _).bind fun _ =>
      (clean_quiet (quiet_resolveArtifact p _ _ _) _).bind fun _ => clean_bootCached (hbin hcache) _
  · refine (clean_quiet (quiet_ofExcept _) _).bind fun accel => (clean_quiet (quiet_resolveArtifact p _ _ _) _).bind
      fun kernel => (clean_quiet (quiet_resolveArtifact p _ _ _) _).bind fun rootfs => clean_adbPort fun port hport => ?_
    exact (clean_startAndWait (l := b.plainLaunch accel kernel rootfs port) hport rfl rootfs).mono fun _ hh => Or.inl hh

end Clean

/-- a vm instance next to its artifacts -/
def sample (bootCache : Bool) : Backend where
  root := ["srv", "x"]
  cfg := InstanceConfig.plain.onVm "bzImage" "rootfs.img" bootCache
  index := 0

def fresh : Host String := Host.new (Dict.ofList [(["bzImage"], "kernel"), (["rootfs.img"], "rootfs")])

/-- `up` in a world that does the same whenever a step is reached -/
def upIn (b : Backend) (w : World) : Except (Raised VmError) Unit × Host String :=
  (up b Paths.sample).run.finish (execExposed (exec id)) w [] fresh

/-- `up` has raised, and a QEMU is alive -/
def Orphans (b : Backend) (w : World) : Prop :=
  NoGuest fresh ∧ (upIn b w).1.isOk = false ∧ ¬ NoGuest (upIn b w).2

instance (b : Backend) (w : World) : Decidable (Orphans b w) := by unfold Orphans; infer_instance

/-- Ctrl-C in the wait for adb -/
def ctrlC : World
  | (.waiting, .adbConnect) => .raise .interrupt
  | _ => .answer {}

theorem harmless_ctrlC : Harmless ctrlC where
  recorded _ := ⟨{}, rfl, rfl⟩
  spawned _ _ _ _ _ h := by cases h
  cleanup _ _ := ⟨{}, rfl⟩
  checkpoint _ := ⟨{}, rfl, fun _ => rfl⟩

/-- adb does not come up -/
def adbRefused : World
  | (.waiting, .adbConnect) => .answer { ok := false }
  | _ => .answer {}

theorem calm_adbRefused : Calm adbRefused where
  recorded _ _ h := by cases h
  spawned _ _ _ _ _ h := by cases h
  cleanup _ _ _ h := by cases h

/-- an `up` has made a checkpoint, and its QEMU has exited -/
def checkpointed : Host String := (upIn (sample true) fun _ => .answer {}).2.exit [1]

/-- `up` on it, stopped after so many steps of a world in which adb does not come up -/
def upRefused (b : Backend) (steps : ℕ) : Host String :=
  (up b Paths.sample).run.stopped (execExposed (exec id)) (List.replicate steps adbRefused) checkpointed

/-- the pidfile cannot be written -/
def diskFull : World
  | (.outside, .writePid _) => .answer { written := false }
  | _ => .answer {}

/-- Ctrl-C once the pidfile is written -/
def ctrlCStarted : World
  | (.outside, .writePid _) => .raiseAfter {} .interrupt
  | _ => .answer {}

/-- Ctrl-C in the wait for adb, and again in the cleanup -/
def ctrlCTwice : World
  | (.waiting, .adbConnect) => .raise .interrupt
  | (.cleanup, .cmdline _) => .raise .interrupt
  | _ => .answer {}

/-- Ctrl-C in the wait for the boot -/
def ctrlCBooting : World
  | (.checkpoint, .bootCompleted _) => .raise .interrupt
  | _ => .answer {}

/-- Ctrl-C in `savevm` -/
def ctrlCSaving : World
  | (.checkpoint, .savevm) => .raise .interrupt
  | _ => .answer {}

/-- `adb` is gone when the wait for the boot begins -/
def adbGone : World
  | (.checkpoint, .whichAdb) => .answer { found := false }
  | _ => .answer {}

/-- a QEMU behind another name, which is not recognised -/
def renamed (bootCache : Bool) : Backend := { sample bootCache with settings := { qemuBin := "/opt/emulator" } }

end Beetroot.Vm.Orphan
