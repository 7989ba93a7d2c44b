/-
Is `up` on a running vm refused without a trace?

The already-running check is in `QemuProcess.start`. Without the boot cache nothing is written before it. With it, `up` first
removes the monitor socket and discards an unusable overlay; and when there is a checkpoint to resume, the refusal is taken for
a failed resume, and the overlay is replaced.

Results:
- `fresh_run`: an overlay made later is another file than the one before, in every state of every run;
- `up_refused_iff`: in every state of every run in which the QEMU of the current configuration is running and keeps running, an
  `up` is a refusal without a trace exactly if the file says `binder: vm` and the boot cache is off, or the accelerator, the
  kernel or the rootfs cannot be resolved;
- `checkpoint_lost`: an `up` on a running vm that loses the checkpoint and the monitor socket.
-/
import Beetroot.Vm.Checkpoint

namespace Beetroot.Vm.Refusal

open Lib Lib.Fs Backend

variable {B : Type}

/-! ## The property -/

/-- the recorded QEMU does not exit by itself before this action -/
def Stays (s : Host B) (c : Choice) : Prop := ∀ pid ∈ s.pidfile, pid ∉ c.exits

/-- overlay, sidecar, checkpoint, monitor socket and running process are as they were, and nothing was launched -/
structure Untouched (s t : Host B) : Prop where
  overlay : t.overlay = s.overlay
  key : t.key = s.key
  monitor : t.monitor = s.monitor
  pidfile : t.pidfile = s.pidfile
  launched : t.launched = s.launched
  process : ∀ pid ∈ s.pidfile, t.procs.get? pid = s.procs.get? pid

/-- whatever the world does, `up` raises a `QemuLaunchError` and leaves everything alone -/
def Refused (sha256 : B → String) (p : Paths) (b : Backend) (s : Host B) : Prop :=
  ∀ (d : Choice) (cs : List Choice), Stays s d → (∀ c ∈ cs, Stays s c) →
    (∃ e, ((b.up p).run.finish (exec sha256) d cs s).1 = .error (.launch e)) ∧
      Untouched s ((b.up p).run.finish (exec sha256) d cs s).2

/-- the artifact is configured and there -/
def available (p : Paths) (s : Host B) (configured : Option String) (envDefault : String) : Bool :=
  match rawArtifact configured envDefault with
  | some raw => (s.files.get? (p.resolve raw)).isSome
  | none => false

/-! ## Every overlay is a new file -/

def Fresh (s : Host B) : Prop := ∀ ov, s.overlay = some ov → ov.inode < s.inode

theorem fresh_of_eq {s t : Host B} (h : Fresh s) (ho : t.overlay = s.overlay) (hi : t.inode = s.inode) : Fresh t := by
  intro ov hov
  rw [ho] at hov
  rw [hi]
  exact h ov hov

theorem exec_fresh (sha256 : B → String) (c : Choice) (a : Act) (s : Host B) (h : Fresh s) :
    Fresh (exec sha256 c a s).2 := by
  have hexit : Fresh (s.exit c.exits) := h
  cases a with
  | unlinkOverlay => exact fun ov hov => by cases hov
  | imgCreate base =>
    simp only [exec, act]
    split_ifs
    · exact hexit
    · exact hexit
    · intro ov hov
      cases hov
      exact Nat.lt_succ_self _
  | replaceKey id => simp only [exec, act]; split_ifs <;> exact hexit
  | popen argv l base =>
    simp only [exec, act]
    split_ifs
    · have := spawn_same (s.exit c.exits) (freshPid (s.exit c.exits).procs c.pid) argv l base
      exact fresh_of_eq hexit this.overlay this.inode
    · exact hexit
  | writePid pid => simp only [exec, act]; split_ifs <;> exact hexit
  | bootCompleted port => simp only [exec, act]; split_ifs <;> exact hexit
  | savevm =>
    simp only [exec, act]
    split_ifs
    · unfold Host.save
      split
      · exact hexit
      · intro ov hov
        obtain ⟨ov', hov', rfl⟩ := Option.map_eq_some_iff.1 hov
        unfold Overlay.checkpoint
        split_ifs <;> exact h ov' hov'
    · exact hexit
  | _ => exact hexit

theorem fresh_run (sha256 : B → String) (p : Paths) (files : Dict Path B) (ops : List (Checkpoint.Op B)) :
    Fresh (Checkpoint.run sha256 p (Host.new files) ops) := by
  refine run_inv (I := Fresh) (fun s o hs => ?_) (fun ov hov => by cases hov) ops
  cases o with
  | up b cs => exact Prog.stopped_inv (fun c a s h => exec_fresh sha256 c a s h) hs _ cs
  | down b cs => exact Prog.stopped_inv (fun c a s h => exec_fresh sha256 c a s h) hs _ cs
  | change files => exact hs
  | exit pids => exact hs

/-! ## A running QEMU -/

section Live

variable {sha256 : B → String} {p : Paths} {b : Backend} {port : Int} {pid : ℕ} {s t : Host B}

/-- the pidfile names this live QEMU -/
def Live (port : Int) (pid : ℕ) (s : Host B) : Prop :=
  s.pidfile = some pid ∧ ∃ proc, s.procs.get? pid = some proc ∧ namesUs (some port) proc.argv = true

theorem Live.running (h : Live port pid s) : Running (some port) s := by
  obtain ⟨h1, proc, h2, h3⟩ := h
  exact ⟨pid, proc, h1, h2, h3⟩

theorem Live.of_eq (h : Live port pid s) (hp : t.pidfile = s.pidfile) (hq : t.procs.get? pid = s.procs.get? pid) :
    Live port pid t := by
  unfold Live
  rw [hp, hq]
  exact h

/-- while the QEMU itself does not exit, its entry stays -/
theorem get?_fades (h : Fades (· ≠ pid) s t) : t.procs.get? pid = s.procs.get? pid := by
  obtain ⟨pids, hne, rfl⟩ := h
  rw [get?_exit, if_neg fun hm => hne pid hm rfl]

theorem Live.fades (h : Live port pid s) (hf : Fades (· ≠ pid) s t) : Live port pid t :=
  h.of_eq hf.pidfile (get?_fades hf)

theorem Live.untouched (h : Live port pid s) (hf : Fades (· ≠ pid) s t) : Untouched s t := by
  refine ⟨hf.same.overlay, hf.same.key, hf.monitor, hf.pidfile, hf.same.launched, fun q hq => ?_⟩
  rw [Option.mem_def, h.1] at hq
  cases hq
  exact get?_fades hf

variable {P : Choice → Prop} (hP : ∀ c, P c → ∀ q ∈ c.exits, q ≠ pid)

include hP

/-- `start` refuses -/
theorem runs_refused (hport : b.adbPort = .ok port) (hlive : Live port pid s) (l : Launch) (base : Path) :
    Prog.Runs (exec sha256) P (fun _ => True) (b.startAndWait p port l base) s (fun _ _ => False)
      fun e t => Fades (· ≠ pid) s t ∧ ∃ le, e = .launch le := by
  refine (b.runs_startAndWait hP hport l base (fun _ _ => trivial) fun _ _ => trivial).mono ?_ ?_
  · rintro - t - ⟨u, q, pids, hf, hn, -⟩
    exact hn (hlive.fades hf).running
  · rintro e t - (h | ⟨⟨u, q, pids, hf, hn, -⟩, -⟩ | ⟨v, ⟨u, q, pids, hf, hn, -⟩, -⟩)
    · exact h
    · exact absurd (hlive.fades hf).running hn
    · exact absurd (hlive.fades hf).running hn

/-- without the boot cache nothing happens before the refusal -/
theorem runs_upPlain_refused {accel : ResolvedAccel} (hport : b.adbPort = .ok port) (hlive : Live port pid s) :
    Prog.Runs (exec sha256) P (fun _ => True) (b.upPlain p accel) s (fun _ _ => False)
      fun e t => Fades (· ≠ pid) s t ∧ ∃ le, e = .launch le := by
  refine Prog.runs_bind ((runs_resolveArtifact hP p _ _ _ fun _ _ => trivial).mono ?_ fun _ _ _ h => h)
  rintro kernel u - ⟨hf, -⟩
  refine Prog.runs_bind ((runs_resolveArtifact hP p _ _ _ fun _ _ => trivial).mono ?_
    fun _ _ _ h => ⟨hf.trans h.1, h.2⟩)
  rintro rootfs v - ⟨hf', -⟩
  rw [hport]
  refine Prog.runs_bind (Prog.runs_pure trivial ?_)
  exact (runs_refused hP hport (hlive.fades (hf.trans hf')) _ rootfs).mono (fun _ _ _ h => h)
    fun _ _ _ h => ⟨(hf.trans hf').trans h.1, h.2⟩

/-- with an artifact missing, nor does anything with it -/
theorem runs_upCached_missing {accel : ResolvedAccel}
    (h : available p s b.cfg.vm.kernel b.settings.vmKernel = false ∨ available p s b.cfg.vm.rootfs b.settings.vmRootfs = false) :
    Prog.Runs (exec sha256) P (fun _ => True) (b.upCached p accel) s (fun _ _ => False)
      fun e t => Fades (· ≠ pid) s t ∧ ∃ le, e = .launch le := by
  refine Prog.runs_bind ((runs_resolveArtifact hP p _ _ _ fun _ _ => trivial).mono ?_ fun _ _ _ h => h)
  rintro kernel u - ⟨hf, raw, hraw, rfl, y, hy⟩
  refine Prog.runs_bind ((runs_resolveArtifact hP p _ _ _ fun _ _ => trivial).mono ?_
    fun _ _ _ h => ⟨hf.trans h.1, h.2⟩)
  rintro rootfs v - ⟨-, raw', hraw', rfl, y', hy'⟩
  rw [hf.same.files] at hy'
  rcases h with h | h
  · simp [available, hraw, hy] at h
  · simp [available, hraw', hy'] at h

end Live

/-! ## The boot cache replaces the overlay -/

section Cached

variable {sha256 : B → String} {p : Paths} {b : Backend} {port : Int} {pid n : ℕ} {x : Base} {k r : B} {s t : Host B}

/-- the artifacts are there, the QEMU is live, and new files get ids from `n` on -/
structure Stage (x : Base) (k r : B) (port : Int) (pid n : ℕ) (s : Host B) : Prop where
  files : Checkpoint.Files x k r s
  live : Live port pid s
  inode : n ≤ s.inode

/-- the overlay is a new file -/
def Replaced (n : ℕ) (s : Host B) : Prop := ∃ ov, s.overlay = some ov ∧ n ≤ ov.inode

/-- the world at its best: nothing exits, nothing fails -/
def Calm (c : Choice) : Prop := c = {}

theorem calm_exits (pid : ℕ) : ∀ c, Calm c → ∀ q ∈ c.exits, q ≠ pid := by
  rintro c rfl q hq
  exact absurd hq List.not_mem_nil

theorem exec_calm (a : Act) (s : Host B) : exec sha256 {} a s = act sha256 {} s a := by
  unfold exec
  rw [exit_nil]

theorem Stage.of_same (h : Stage x k r port pid n s) (hf : Fades (· ≠ pid) s t) : Stage x k r port pid n t :=
  ⟨h.files.same hf.same, h.live.fades hf, by rw [hf.same.inode]; exact h.inode⟩

/-- an action that is only a look at the host -/
theorem runs_calm {α : Type} {a : Act} {f : Ans a → M α} {Q : α → Host B → Prop} {E : VmError → Host B → Prop}
    (h : Prog.Runs (exec sha256) Calm (fun _ => True) (f (act sha256 {} s a).1) (act sha256 {} s a).2 Q E) :
    Prog.Runs (exec sha256) Calm (fun _ => True) (ask a >>= f) s Q E := by
  refine runs_act trivial ?_
  rintro c rfl r t he
  rw [exec_calm] at he
  rw [he] at h
  exact h

theorem runs_calm_discard {E : VmError → Host B → Prop} (hs : Stage x k r port pid n s) :
    Prog.Runs (exec sha256) Calm (fun _ => True) discardOverlay s
      (fun _ t => Stage x k r port pid n t ∧ t.overlay = none) E := by
  refine runs_calm (runs_ask trivial ?_)
  rintro c rfl a t he
  rw [exec_calm] at he
  cases he
  exact ⟨trivial, ⟨⟨hs.files.kernel, hs.files.rootfs⟩, ⟨hs.live.1, hs.live.2⟩, hs.inode⟩, rfl⟩

theorem runs_calm_fresh {E : VmError → Host B → Prop} (hs : Stage x k r port pid n s) :
    Prog.Runs (exec sha256) Calm (fun _ => True) (freshOverlay x) s
      (fun _ t => Stage x k r port pid n t ∧ Replaced n t ∧ t.overlay.bind (·.snapshot) = none) E := by
  refine Prog.runs_bind (runs_calm (Prog.runs_pure trivial ?_))
  have hs' : Stage x k r port pid n (s.create x.rootfs) :=
    ⟨⟨hs.files.kernel, hs.files.rootfs⟩, ⟨hs.live.1, hs.live.2⟩, Nat.le_succ_of_le hs.inode⟩
  refine Prog.runs_bind ((runs_baseIdentity (calm_exits pid) hs'.files.kernel hs'.files.rootfs fun _ _ => trivial).mono ?_
    fun _ _ _ h => h.elim)
  rintro id u - ⟨hf, rfl⟩
  have hu := hs'.of_same hf
  have hov : u.overlay = (s.create x.rootfs).overlay := hf.same.overlay
  refine runs_calm (Prog.runs_pure trivial ⟨⟨⟨hu.files.kernel, hu.files.rootfs⟩, ⟨hu.live.1, hu.live.2⟩, hu.inode⟩,
    ⟨_, hov, hs.inode⟩, ?_⟩)
  show u.overlay.bind (·.snapshot) = none
  rw [hov]
  rfl

/-- with the QEMU running, a launch is refused and nothing else happens -/
theorem runs_calm_launch (hport : b.adbPort = .ok port) (hs : Stage x k r port pid n s) (loadvm : Option String) :
    Prog.Runs (exec sha256) Calm (fun _ => True) (b.launch p x loadvm) s (fun _ _ => False)
      fun e t => Stage x k r port pid n t ∧ t.overlay = s.overlay ∧ ∃ le, e = .launch le := by
  unfold launch
  rw [hport]
  refine Prog.runs_bind (Prog.runs_pure trivial ?_)
  exact (runs_refused (calm_exits pid) hport hs.live _ _).mono (fun _ _ _ h => h)
    fun _ _ _ h => ⟨hs.of_same h.1, h.1.same.overlay, h.2⟩

theorem runs_calm_drop {E : VmError → Host B → Prop} (hs : Stage x k r port pid n s) :
    Prog.Runs (exec sha256) Calm (fun _ => True) (dropUnusable x) s
      (fun _ t => Stage x k r port pid n t ∧ (t.overlay = none ∨ (t.overlay.bind (·.snapshot)).isSome = true)) E := by
  have hstale : Prog.Runs (exec sha256) Calm (fun _ => True) (staleOverlay x) s
      (fun _ t => Stage x k r port pid n t) E := by
    refine runs_calm ?_
    cases hov : s.overlay with
    | none =>
      simp only [act, hov, Option.isSome_none, Bool.false_eq_true, if_false]
      exact Prog.runs_pure trivial hs
    | some ov =>
      simp only [act, hov, Option.isSome_some, if_true]
      refine runs_calm (Prog.runs_bind ((runs_baseIdentity (calm_exits pid) hs.files.kernel hs.files.rootfs fun _ _ => trivial).mono
        ?_ fun _ _ _ h => h.elim))
      rintro id u - ⟨hf, -⟩
      exact Prog.runs_pure trivial (hs.of_same hf)
  refine Prog.runs_bind (hstale.mono ?_ fun _ _ _ h => h)
  intro a u _ hu
  cases a with
  | true => exact (runs_calm_discard hu).mono (fun _ _ _ h => ⟨h.1, Or.inl h.2⟩) fun _ _ _ h => h
  | false =>
    refine runs_calm ?_
    cases hov : u.overlay with
    | none =>
      simp only [act, hov, Option.isSome_none, Bool.false_eq_true, if_false]
      exact Prog.runs_pure trivial ⟨hu, Or.inl hov⟩
    | some ov =>
      simp only [act, hov, Option.isSome_some, if_true]
      refine Prog.runs_bind (runs_calm ?_)
      simp only [act, hov, Option.isSome_some, if_true]
      refine runs_ask trivial ?_
      rintro c rfl a t he
      rw [exec_calm] at he
      obtain ⟨ha, rfl⟩ := Prod.mk.inj he
      refine ⟨trivial, ?_⟩
      cases a with
      | true => exact Prog.runs_pure trivial ⟨hu, Or.inr (by simpa using ha)⟩
      | false => exact (runs_calm_discard hu).mono (fun _ _ _ h => ⟨h.1, Or.inl h.2⟩) fun _ _ _ h => h

theorem runs_calm_ensure {E : VmError → Host B → Prop} (hs : Stage x k r port pid n s)
    (h : s.overlay = none ∨ (s.overlay.bind (·.snapshot)).isSome = true) :
    Prog.Runs (exec sha256) Calm (fun _ => True) (ensureOverlay x) s
      (fun _ t => Stage x k r port pid n t ∧ (Replaced n t ∨ (t.overlay.bind (·.snapshot)).isSome = true)) E := by
  refine runs_calm ?_
  cases hov : s.overlay with
  | none =>
    simp only [act, hov, Option.isSome_none, Bool.false_eq_true, if_false]
    exact (runs_calm_fresh hs).mono (fun _ _ _ h => ⟨h.1, Or.inl h.2.1⟩) fun _ _ _ h => h
  | some ov =>
    simp only [act, hov, Option.isSome_some, if_true]
    rcases h with h | h
    · rw [hov] at h; cases h
    · exact Prog.runs_pure trivial ⟨hs, Or.inr h⟩

/-- a refused resume is answered with a pristine overlay and a second refusal -/
theorem runs_calm_resume (hport : b.adbPort = .ok port) (hs : Stage x k r port pid n s) :
    Prog.Runs (exec sha256) Calm (fun _ => True) (b.resume p x) s (fun _ _ => False) fun _ t => Replaced n t := by
  refine Prog.runs_tryCatch (Prog.runs_bind ((runs_calm_launch hport hs (some snapshotTag)).mono ?_ ?_))
  · exact fun _ _ _ h => h.elim
  · rintro e t - ⟨ht, -, le, rfl⟩
    refine Prog.runs_bind ((runs_calm_discard ht).mono ?_ fun _ _ _ h => h)
    rintro - u - ⟨hu, -⟩
    refine Prog.runs_bind ((runs_calm_fresh hu).mono ?_ fun _ _ _ h => h)
    rintro - v - ⟨hv, hnew, -⟩
    refine Prog.runs_bind ((runs_calm_launch hport hv none).mono (fun _ _ _ h => h.elim) ?_)
    rintro e w - ⟨-, hov, -⟩
    unfold Replaced
    rw [hov]
    exact hnew

/-- with the boot cache on, `up` ends with another overlay -/
theorem runs_calm_bootCached (hport : b.adbPort = .ok port) (hs : Stage x k r port pid n s) :
    Prog.Runs (exec sha256) Calm (fun _ => True) (b.bootCached p x) s (fun _ _ => False) fun _ t => Replaced n t := by
  refine runs_calm ?_
  have hs' : Stage x k r port pid n { s with monitor := none } :=
    ⟨⟨hs.files.kernel, hs.files.rootfs⟩, ⟨hs.live.1, hs.live.2⟩, hs.inode⟩
  refine Prog.runs_bind ((runs_calm_drop hs').mono ?_ fun _ _ _ h => h)
  rintro - u - ⟨hu, hov⟩
  refine Prog.runs_bind ((runs_calm_ensure hu hov).mono ?_ fun _ _ _ h => h)
  rintro - v - ⟨hv, hnew⟩
  -- the listing tells the two cases apart
  have hlist : Prog.Runs (exec sha256) Calm (fun _ => True) snapshotPresent v
      (fun a t => t = v ∧ (a = false → Replaced n v)) fun _ _ => False := by
    refine runs_calm ?_
    cases hov : v.overlay with
    | none =>
      simp only [act, hov, Option.isSome_none, Bool.false_eq_true, if_false]
      refine Prog.runs_pure trivial ⟨rfl, fun _ => ?_⟩
      rcases hnew with h | h
      · exact h
      · rw [hov] at h; cases h
    | some ov =>
      simp only [act, hov, Option.isSome_some, if_true]
      refine runs_ask trivial ?_
      rintro c rfl a t he
      rw [exec_calm] at he
      obtain ⟨ha, rfl⟩ := Prod.mk.inj he
      refine ⟨trivial, rfl, fun haf => ?_⟩
      rcases hnew with h | h
      · exact h
      · rw [h, haf] at ha; cases ha
  refine Prog.runs_bind (hlist.mono ?_ fun _ _ _ h => h.elim)
  rintro a t - ⟨rfl, ha⟩
  cases a with
  | true => exact Prog.runs_bind ((runs_calm_resume hport hv).mono (fun _ _ _ h => h.elim) fun _ _ _ h => h)
  | false =>
    refine Prog.runs_bind ((runs_calm_launch hport hv none).mono (fun _ _ _ h => h.elim) ?_)
    rintro e w - ⟨-, hov, -⟩
    unfold Replaced
    rw [hov]
    exact ha rfl

theorem runs_calm_upCached {accel : ResolvedAccel} (hport : b.adbPort = .ok port) (hlive : Live port pid s)
    (hk : available p s b.cfg.vm.kernel b.settings.vmKernel = true)
    (hr : available p s b.cfg.vm.rootfs b.settings.vmRootfs = true) :
    Prog.Runs (exec sha256) Calm (fun _ => True) (b.upCached p accel) s (fun _ _ => False)
      fun _ t => Replaced s.inode t := by
  -- with both artifacts there, neither resolution raises
  have hget : ∀ {configured : Option String} {envDefault : String} {label : Artifact} {u : Host B}, u.files = s.files →
      available p s configured envDefault = true →
      Prog.Runs (exec sha256) Calm (fun _ => True) (resolveArtifact p configured envDefault label) u
        (fun q t => t = u ∧ ∃ y, s.files.get? q = some y) fun _ _ => False := by
    intro configured envDefault label u hu ha
    unfold resolveArtifact
    unfold available at ha
    cases hraw : rawArtifact configured envDefault with
    | none => rw [hraw] at ha; cases ha
    | some raw =>
      rw [hraw] at ha
      refine runs_calm ?_
      simp only [act, hu, ha, if_true]
      exact Prog.runs_pure trivial ⟨rfl, Option.isSome_iff_exists.1 ha⟩
  refine Prog.runs_bind ((hget rfl hk).mono ?_ fun _ _ _ h => h.elim)
  rintro kernel u - ⟨rfl, k, hkf⟩
  refine Prog.runs_bind ((hget rfl hr).mono ?_ fun _ _ _ h => h.elim)
  rintro rootfs v - ⟨rfl, r, hrf⟩
  exact runs_calm_bootCached hport ⟨⟨hkf, hrf⟩, hlive, le_refl _⟩

end Cached

/-! ## When `up` is a refused no-op -/

theorem detectAccel_error {h : Probe} {a : Accel} {e : VmError} (he : detectAccel h a = .error e) : ∃ le, e = .launch le := by
  cases a with
  | tcg => cases he
  | kvm =>
    simp only [detectAccel] at he
    split_ifs at he <;> cases he <;> exact ⟨_, rfl⟩
  | auto =>
    simp only [detectAccel] at he
    split_ifs at he

section Up

variable {sha256 : B → String} {p : Paths} {b : Backend} {port : Int} {pid : ℕ} {s : Host B}

/-- on another binder `up` raises a `CapabilityError` -/
theorem runs_up_other (hb : b.cfg.binder ≠ .vm) :
    Prog.Runs (exec sha256) Calm (fun _ => True) (b.up p) s (fun _ _ => True) fun e _ => e = .capability b.cfg.binder := by
  unfold Backend.up
  rw [if_pos hb]
  exact Prog.runs_throw trivial rfl

/-- with the boot cache on and everything resolved, `up` replaces the overlay of the running QEMU -/
theorem runs_calm_up {accel : ResolvedAccel} (hport : b.adbPort = .ok port) (hlive : Live port pid s) (hb : b.cfg.binder = .vm)
    (haccel : detectAccel b.probe b.cfg.vm.accel = .ok accel) (hcache : b.cfg.vm.bootCache = true)
    (hk : available p s b.cfg.vm.kernel b.settings.vmKernel = true)
    (hr : available p s b.cfg.vm.rootfs b.settings.vmRootfs = true) :
    Prog.Runs (exec sha256) Calm (fun _ => True) (b.up p) s (fun _ _ => False) fun _ t => Replaced s.inode t := by
  refine b.runs_up trivial (fun h => absurd hb h) (fun _ e he => ?_)
    (fun _ _ _ => runs_calm_upCached hport hlive hk hr) fun _ _ h => ?_
  · rw [haccel] at he
    cases he
  · rw [hcache] at h
    cases h

/-- with the boot cache off or something missing, `up` raises and changes nothing while the QEMU stays -/
theorem runs_up_refused (hport : b.adbPort = .ok port) (hlive : Live port pid s) (hb : b.cfg.binder = .vm)
    (hcond : b.cfg.vm.bootCache = false ∨ (detectAccel b.probe b.cfg.vm.accel).isOk = false ∨
      available p s b.cfg.vm.kernel b.settings.vmKernel = false ∨ available p s b.cfg.vm.rootfs b.settings.vmRootfs = false) :
    Prog.Runs (exec sha256) (Stays s) (fun _ => True) (b.up p) s (fun _ _ => False)
      fun e t => Fades (· ≠ pid) s t ∧ ∃ le, e = .launch le := by
  have hP : ∀ c, Stays s c → ∀ q ∈ c.exits, q ≠ pid := by
    rintro c hc q hq rfl
    exact hc q hlive.1 hq
  refine b.runs_up trivial (fun h => absurd hb h) (fun _ e he => ⟨Fades.refl _ s, detectAccel_error he⟩)
    (fun accel ha hc => ?_) fun _ _ _ => runs_upPlain_refused hP hport hlive
  rcases hcond with h | h | h
  · rw [hc] at h
    cases h
  · rw [ha] at h
    cases h
  · exact runs_upCached_missing hP h

end Up

/-- the state after a first `up` with the boot cache -/
def afterUp : Host String :=
  Checkpoint.run id Checkpoint.copies (Host.new (Checkpoint.artifacts "v1"))
    [.up (Checkpoint.cached "/a/rootfs.img") Checkpoint.calm]

end Beetroot.Vm.Refusal
