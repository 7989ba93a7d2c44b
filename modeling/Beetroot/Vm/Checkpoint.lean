/-
Does every `-loadvm` resume a checkpoint of the current inputs?

A run of one vm instance: `up`s and `down`s, each with a configuration of its own and each possibly cut short after any of its
actions, arbitrary changes of the artifact files in between, and processes that exit. The identity that decides about an
overlay is a digest of base names and contents. It does not name the file the overlay is backed by: after a move of the
configured rootfs to an equal file of the same name it still matches, and a later change of the old file, which still backs
the overlay, goes unseen. It does not tell the kernel from the rootfs either when their base names are equal.

Results:
- `Inv`: a checkpoint in the overlay was saved by a booted guest, and the sidecar is the identity of what the guest was
  launched with; `run_inv` holds after every cut of every run;
- `resume_sound`: in every run in which each `up` that finds a fresh checkpoint has the rootfs configured where the overlay is
  backed, and base names that differ, every `-loadvm` resumes a checkpoint of a booted guest with the same kernel, rootfs,
  geometry and accelerator, over an unchanged backing file;
- `resumed_over_changed_backing`: a run that moves the rootfs and then changes the old file.
-/
import Beetroot.Vm.Backend
import Beetroot.Lib.Run

namespace Beetroot.Vm.Checkpoint

open Lib Lib.Fs Backend

variable {B : Type}

/-! ## The property -/

/-- a `-loadvm` launch resumes a checkpoint of a booted guest with the same inputs, and the backing file holds what it held
when the overlay was made -/
def Sound (e : Launched B) : Prop :=
  e.launch.loadvm.isSome = true → ∃ ov g k r y, e.overlay = some ov ∧ ov.snapshot = some g ∧ g.booted = true ∧
    (g.kernel = some k ∧ e.kernel = some k) ∧ (g.rootfs = some r ∧ e.rootfs = some r) ∧ g.launch.smp = e.launch.smp ∧
    g.launch.memoryMib = e.launch.memoryMib ∧ g.launch.accel = e.launch.accel ∧ ov.bytes = some y ∧ e.backing = some y

/-! ## Runs -/

inductive Op (B : Type) where
  /-- an `up`, cut short where the choices end -/
  | up (b : Backend) (cs : List Choice)
  | down (b : Backend) (cs : List Choice)
  | change (files : Dict Path B)
  | exit (pids : List ℕ)

def step (sha256 : B → String) (p : Paths) (s : Host B) : Op B → Host B
  | .up b cs => (b.up p).run.stopped (exec sha256) cs s
  | .down b cs => b.down.run.stopped (exec sha256) cs s
  | .change files => { s with files := files }
  | .exit pids => s.exit pids

def run (sha256 : B → String) (p : Paths) (s : Host B) (ops : List (Op B)) : Host B := ops.foldl (step sha256 p) s

/-! ## The condition -/

/-- what an `up` builds its overlay from, when kernel, rootfs and accelerator resolve -/
def base? (p : Paths) (b : Backend) : Option Base :=
  match rawArtifact b.cfg.vm.kernel b.settings.vmKernel, rawArtifact b.cfg.vm.rootfs b.settings.vmRootfs,
    detectAccel b.probe b.cfg.vm.accel with
  | some kernel, some rootfs, .ok accel =>
    some ⟨p.resolve kernel, p.resolve rootfs, resolveSmp b.probe b.cfg.vm.smp, b.cfg.vm.memoryMib, accel⟩
  | _, _, _ => none

/-- the identity of the current files -/
def identity? (sha256 : B → String) (s : Host B) (x : Base) : Option Identity :=
  match s.files.get? x.kernel, s.files.get? x.rootfs with
  | some k, some r => some (x.identity (sha256 k) (sha256 r))
  | _, _ => none

/-- an `up` that finds a checkpoint with a fresh identity has its rootfs where the overlay is backed, and two base names -/
def Unmoved (sha256 : B → String) (p : Paths) (s : Host B) : Op B → Prop
  | .up b _ => ∀ x ∈ base? p b, ∀ ov ∈ s.overlay, ov.snapshot.isSome = true → s.key = identity? sha256 s x →
      x.rootfs = ov.backing ∧ fileName x.kernel ≠ fileName x.rootfs
  | _ => True

instance (sha256 : B → String) (p : Paths) (s : Host B) (o : Op B) : Decidable (Unmoved sha256 p s o) := by
  unfold Unmoved; cases o <;> infer_instance

/-! ## The invariant -/

/-- the checkpoint of a booted guest, under the identity of what the guest was launched with -/
def Keyed (sha256 : B → String) (key : Option Identity) (ov : Overlay B) (g : Guest B) : Prop :=
  g.booted = true ∧ ∃ k r, g.kernel = some k ∧ g.rootfs = some r ∧ ov.bytes = some r ∧
    key = some ⟨identityFiles g.launch.kernel ov.backing (sha256 k) (sha256 r), g.launch.smp, g.launch.memoryMib,
      g.launch.accel⟩

structure Inv (sha256 : B → String) (s : Host B) : Prop where
  sound : ∀ e ∈ s.launched, Sound e
  keyed : ∀ ov, s.overlay = some ov → ∀ g, ov.snapshot = some g → Keyed sha256 s.key ov g

/-- the artifacts of this `up` -/
structure Files (x : Base) (k r : B) (s : Host B) : Prop where
  kernel : s.files.get? x.kernel = some k
  rootfs : s.files.get? x.rootfs = some r

/-- the overlay is backed by the current rootfs and keyed by the current identity, and a checkpoint in it fits -/
def Ready (sha256 : B → String) (x : Base) (k r : B) (s : Host B) : Prop :=
  ∃ ov, s.overlay = some ov ∧ ov.backing = x.rootfs ∧ ov.bytes = some r ∧
    s.key = some (x.identity (sha256 k) (sha256 r)) ∧
    ∀ g, ov.snapshot = some g → g.booted = true ∧ g.kernel = some k ∧ g.rootfs = some r ∧ g.launch.smp = x.smp ∧
      g.launch.memoryMib = x.memoryMib ∧ g.launch.accel = x.accel

/-- the guest on the monitor socket is the one that this `up` has launched -/
def Mine (b : Backend) (x : Base) (port : Int) (k r : B) (s : Host B) : Prop :=
  ∀ g, s.monitored = some g → g.launch = b.cachedLaunch x port none ∧ g.kernel = some k ∧ g.rootfs = some r

section Lemmas

variable {sha256 : B → String} {x : Base} {k r : B} {s t : Host B}

theorem Inv.same (h : Inv sha256 s) (hst : Same s t) : Inv sha256 t := by
  refine ⟨?_, ?_⟩
  · rw [hst.launched]; exact h.sound
  · rw [hst.overlay, hst.key]; exact h.keyed

/-- a launch that is sound keeps the invariant -/
theorem Inv.logged (h : Inv sha256 s) {l : Launch} {base : Path} (hs : Sound (s.launch l base)) :
    Inv sha256 (s.logged l base) := by
  refine ⟨fun e he => ?_, h.keyed⟩
  rcases List.mem_append.1 he with he | he
  · exact h.sound e he
  · rw [List.mem_singleton] at he
    rw [he]; exact hs

theorem Files.of_eq (h : Files x k r s) (hst : t.files = s.files) : Files x k r t :=
  ⟨by rw [hst]; exact h.kernel, by rw [hst]; exact h.rootfs⟩

theorem Files.same (h : Files x k r s) (hst : Same s t) : Files x k r t := h.of_eq hst.files

theorem Ready.same (h : Ready sha256 x k r s) (hst : Same s t) : Ready sha256 x k r t := by
  unfold Ready
  rw [hst.overlay, hst.key]
  exact h

/-- no overlay, or one without a checkpoint: nothing to key -/
theorem Inv.blank (h : Inv sha256 s) (hl : t.launched = s.launched) (ho : ∀ ov, t.overlay = some ov → ov.snapshot = none) :
    Inv sha256 t := by
  refine ⟨?_, fun ov hov g hg => ?_⟩
  · rw [hl]; exact h.sound
  · rw [ho ov hov] at hg; cases hg

/-- a checkpoint whose identity is fresh fits, if the rootfs is where it was and the base names differ -/
theorem ready_of_fresh (hsha : Function.Injective sha256) (hinv : Inv sha256 s) {ov : Overlay B} (hov : s.overlay = some ov)
    (hkey : s.key = some (x.identity (sha256 k) (sha256 r))) (hsnap : ov.snapshot.isSome = true)
    (hback : x.rootfs = ov.backing) (hne : fileName x.kernel ≠ fileName x.rootfs) : Ready sha256 x k r s := by
  obtain ⟨g, hg⟩ := Option.isSome_iff_exists.1 hsnap
  obtain ⟨hboot, k', r', hk', hr', hbytes, hkey'⟩ := hinv.keyed ov hov g hg
  rw [hkey] at hkey'
  have hid := Option.some.inj hkey'
  have hf : identityFiles x.kernel x.rootfs (sha256 k) (sha256 r) =
      identityFiles g.launch.kernel x.rootfs (sha256 k') (sha256 r') := by
    have hfold := congrArg Identity.files hid
    simp only [Base.identity, ← hback] at hfold
    exact hfold
  obtain ⟨hkk, hrr⟩ := identityFiles_inj hne hf
  cases hsha hkk
  cases hsha hrr
  refine ⟨ov, hov, hback.symm, hbytes, hkey, fun g' hg' => ?_⟩
  rw [hg] at hg'
  cases hg'
  exact ⟨hboot, hk', hr', (congrArg Identity.smp hid).symm, (congrArg Identity.memoryMib hid).symm,
    (congrArg Identity.accel hid).symm⟩

/-- resuming a ready overlay is sound -/
theorem Ready.sound (h : Ready sha256 x k r s) (hfiles : Files x k r s) (b : Backend) (port : Int) (loadvm : Option String)
    (hsnap : (s.overlay.bind (·.snapshot)).isSome = true) : Sound (s.launch (b.cachedLaunch x port loadvm) x.rootfs) := by
  intro _
  obtain ⟨ov, hov, hback, hbytes, -, hfit⟩ := h
  rw [hov, Option.bind_some] at hsnap
  obtain ⟨g, hg⟩ := Option.isSome_iff_exists.1 hsnap
  obtain ⟨h1, h2, h3, h4, h5, h6⟩ := hfit g hg
  refine ⟨ov, g, k, r, r, hov, hg, h1, ⟨h2, hfiles.kernel⟩, ⟨h3, hfiles.rootfs⟩, h4, h5, h6, hbytes, ?_⟩
  simp only [Host.launch, hov, Option.bind_some, hback, hfiles.rootfs]

theorem sound_cold (s : Host B) (l : Launch) (base : Path) (h : l.loadvm = none) : Sound (s.launch l base) := by
  intro hl
  have hl' : l.loadvm.isSome = true := hl
  rw [h] at hl'
  cases hl'

theorem monitored_exit {pids : List ℕ} {g : Guest B} (h : (s.exit pids).monitored = some g) : s.monitored = some g := by
  unfold Host.monitored at h ⊢
  obtain ⟨pid, hm, h⟩ := Option.bind_eq_some_iff.1 h
  obtain ⟨proc, hproc, h⟩ := Option.bind_eq_some_iff.1 h
  have hm' : s.monitor = some pid := hm
  rw [hm', Option.bind_some, get?_of_exit hproc, Option.bind_some]
  exact h

/-- a new QEMU with a monitor socket is the one that may answer on it -/
theorem monitored_spawn {pid : ℕ} {argv : List String} {l : Launch} {base : Path} {g : Guest B}
    (hl : l.monitorSocket.isSome = true) (h : (s.spawn pid argv l base).monitored = some g) : g = s.guest l base := by
  unfold Host.monitored Host.spawn at h
  simp only [hl, if_true, Option.bind_some, Dict.get?_set, Option.filter_eq_some_iff, Option.some.injEq] at h
  exact h.1.symm

/-- after a cold launch the monitor belongs to the new guest, or to nobody -/
theorem mine_of_started {X : ℕ → Prop} {b : Backend} {port : Int} {argv : List String} (hfiles : Files x k r s)
    (h : Started X port argv (b.cachedLaunch x port none) x.rootfs s t) : Mine b x port k r t := by
  intro g hg
  obtain ⟨u, pid, pids, hf, -, -, rfl⟩ := h
  have hu := hfiles.same hf.same
  have hexit : ((u.spawn pid argv (b.cachedLaunch x port none) x.rootfs).exit pids).monitored = some g := hg
  have hspawn := monitored_exit hexit
  rw [monitored_spawn rfl hspawn]
  exact ⟨rfl, hu.kernel, hu.rootfs⟩

theorem bound_bootedOn (port : Int) (g : Guest B) : (g.bootedOn port).bound = g.bound := by
  unfold Guest.bootedOn
  split_ifs <;> rfl

/-- reading `sys.boot_completed` as 1 marks the guest on the monitor socket, if it is ours -/
theorem monitored_booted {b : Backend} {port : Int} {g : Guest B} (hm : Mine b x port k r s)
    (h : (s.booted port).monitored = some g) :
    g.booted = true ∧ g.launch = b.cachedLaunch x port none ∧ g.kernel = some k ∧ g.rootfs = some r := by
  unfold Host.monitored Host.booted at h
  obtain ⟨pid, hmon, h⟩ := Option.bind_eq_some_iff.1 h
  obtain ⟨proc, hproc, h⟩ := Option.bind_eq_some_iff.1 h
  obtain ⟨e, he, heq⟩ := List.mem_map.1 (Dict.get?_eq_some.1 hproc)
  cases heq
  obtain ⟨h, hbound⟩ := Option.filter_eq_some_iff.1 h
  obtain ⟨g0, hg0, rfl⟩ := Option.map_eq_some_iff.1 h
  rw [bound_bootedOn] at hbound
  have hbefore : s.monitored = some g0 := by
    have hmon' : s.monitor = some e.1 := hmon
    unfold Host.monitored
    rw [hmon', Option.bind_some, Dict.get?_of_mem he, Option.bind_some]
    exact Option.filter_eq_some_iff.2 ⟨hg0, hbound⟩
  obtain ⟨h1, h2, h3⟩ := hm g0 hbefore
  have hport : g0.launch.hostAdbPort = port := by rw [h1]; rfl
  rw [Guest.bootedOn, if_pos (by simp [hbound, hport])]
  exact ⟨rfl, h1, h2, h3⟩

/-- a checkpoint of our booted guest keeps the invariant -/
theorem inv_save {b : Backend} {port : Int} (hinv : Inv sha256 s) (hready : Ready sha256 x k r s)
    (hm : ∀ g, s.monitored = some g →
      g.booted = true ∧ g.launch = b.cachedLaunch x port none ∧ g.kernel = some k ∧ g.rootfs = some r) :
    Inv sha256 s.save := by
  unfold Host.save
  cases hg : s.monitored with
  | none => exact hinv
  | some g =>
    obtain ⟨h1, h2, h3, h4⟩ := hm g hg
    obtain ⟨ov, hov, hback, hbytes, hkey, -⟩ := hready
    refine ⟨hinv.sound, fun ov' hov' g' hg' => ?_⟩
    simp only [hov, Option.map_some, Option.some.injEq] at hov'
    subst hov'
    unfold Overlay.checkpoint at hg' ⊢
    split_ifs at hg' ⊢ with hd
    · cases hg'
      refine ⟨h1, k, r, h3, h4, hbytes, ?_⟩
      rw [h2]
      simpa only [Base.identity, hback, cachedLaunch] using hkey
    · exact hinv.keyed ov hov g' hg'

end Lemmas

/-! ## Through the program -/

section Program

variable {sha256 : B → String} {x : Base} {k r : B} {s t : Host B} {α : Type}

/-- the program keeps the invariant wherever it is cut short, and ends in `Q`, or raises in `E` -/
def Keeps (sha256 : B → String) (p : M α) (s : Host B) (Q : α → Host B → Prop) (E : Host B → Prop) : Prop :=
  Prog.Runs (exec sha256) (fun _ => True) (Inv sha256) p s Q fun _ t => E t

/-- any process may exit at any time -/
theorem any_exit : ∀ c : Choice, True → ∀ q ∈ c.exits, (fun _ => True) q := fun _ _ _ _ => trivial

theorem keeps_discard {E : Host B → Prop} (hinv : Inv sha256 s) (hfiles : Files x k r s) :
    Keeps sha256 discardOverlay s (fun _ t => Files x k r t ∧ t.overlay = none) E := by
  refine runs_act hinv fun c _ _ t h => ?_
  obtain ⟨-, rfl⟩ := Prod.mk.inj h
  have hinv' : Inv sha256 { s.exit c.exits with overlay := none } := hinv.blank rfl fun ov hov => (by cases hov)
  refine runs_ask hinv' fun c' _ _ t h' => ?_
  obtain ⟨-, rfl⟩ := Prod.mk.inj h'
  exact ⟨hinv'.blank rfl fun ov hov => (by cases hov), ⟨hfiles.kernel, hfiles.rootfs⟩, rfl⟩

theorem Inv.created (hinv : Inv sha256 s) (base : Path) : Inv sha256 (s.create base) := by
  refine hinv.blank rfl fun ov hov => ?_
  cases hov
  rfl

/-- a new overlay is backed by the current rootfs; its sidecar follows before anything else happens -/
theorem keeps_freshOverlay (hinv : Inv sha256 s) (hfiles : Files x k r s) :
    Keeps sha256 (freshOverlay x) s (fun _ t => Files x k r t ∧ Ready sha256 x k r t) fun _ => True := by
  refine Prog.runs_bind (runs_act hinv fun c _ a t h => ?_)
  have hexit := hinv.same (Same.exit s c.exits)
  simp only [exec, act] at h
  split_ifs at h with h1 h2
  · obtain ⟨rfl, rfl⟩ := Prod.mk.inj h
    exact Prog.runs_throw hexit trivial
  · obtain ⟨rfl, rfl⟩ := Prod.mk.inj h
    exact Prog.runs_throw hexit trivial
  · obtain ⟨rfl, rfl⟩ := Prod.mk.inj h
    have hnew := hexit.created x.rootfs
    have hfiles' : Files x k r ((s.exit c.exits).create x.rootfs) := ⟨hfiles.kernel, hfiles.rootfs⟩
    refine Prog.runs_pure hnew (Prog.runs_bind ((runs_baseIdentity any_exit hfiles'.kernel hfiles'.rootfs
      fun t ht => hnew.same ht).mono ?_ fun _ _ _ h => h.elim))
    rintro id u hu ⟨hf, rfl⟩
    refine runs_act hu fun c' _ a t h' => ?_
    have hu' := hu.same (Same.exit u c'.exits)
    have hov : u.overlay = ((s.exit c.exits).create x.rootfs).overlay := hf.same.overlay
    simp only [exec, act] at h'
    split_ifs at h'
    · obtain ⟨rfl, rfl⟩ := Prod.mk.inj h'
      refine Prog.runs_pure (hu'.blank rfl fun ov hov' => ?_) ⟨hfiles'.of_eq hf.same.files, _, hov, rfl, ?_, rfl, ?_⟩
      · cases hov.symm.trans hov'
        rfl
      · exact hfiles.rootfs
      · intro g hg
        cases hg
    · obtain ⟨rfl, rfl⟩ := Prod.mk.inj h'
      exact Prog.runs_throw hu' trivial

theorem keeps_overlayExists {E : Host B → Prop} (hinv : Inv sha256 s) :
    Keeps sha256 (ask .overlayExists) s (fun a t => Same s t ∧ (a = true ↔ s.overlay.isSome = true)) E := by
  refine runs_ask hinv fun c _ a t h => ?_
  obtain ⟨rfl, rfl⟩ := Prod.mk.inj h
  exact ⟨hinv.same (Same.exit s _), Same.exit s _, Iff.rfl⟩

/-- a listed snapshot is there; `qemu-img` may also fail to list it -/
theorem keeps_snapshotPresent {E : Host B → Prop} (hinv : Inv sha256 s) :
    Keeps sha256 snapshotPresent s
      (fun a t => Same s t ∧ (a = true → (s.overlay.bind (·.snapshot)).isSome = true)) E := by
  refine Prog.runs_bind ((keeps_overlayExists hinv).mono ?_ fun _ _ _ h => h)
  rintro a u hu ⟨hsame, -⟩
  cases a with
  | true =>
    refine runs_ask hu fun c _ a t h => ?_
    obtain ⟨ha, rfl⟩ := Prod.mk.inj h
    refine ⟨hu.same (Same.exit u _), hsame.trans (Same.exit u _), fun hat => ?_⟩
    have hov : (u.exit c.exits).overlay = s.overlay := hsame.overlay
    rw [hat, hov] at ha
    exact (Bool.and_eq_true_iff.1 ha).2
  | false => exact Prog.runs_pure hu ⟨hsame, fun h => (by cases h)⟩

theorem keeps_overlayIsStale {E : Host B → Prop} (hinv : Inv sha256 s) (hfiles : Files x k r s) :
    Keeps sha256 (overlayIsStale x) s
      (fun a t => Same s t ∧ (a = false → s.key = some (x.identity (sha256 k) (sha256 r)))) E := by
  refine runs_act hinv fun c _ recorded t h => ?_
  obtain ⟨hrec, rfl⟩ := Prod.mk.inj h
  have hrec : s.key = recorded := hrec
  have hexit := hinv.same (Same.exit s c.exits)
  have hfiles' := hfiles.same (Same.exit s c.exits)
  refine Prog.runs_bind ((runs_baseIdentity any_exit hfiles'.kernel hfiles'.rootfs fun t ht => hexit.same ht).mono ?_
    fun _ _ _ h => h.elim)
  rintro id u hu ⟨hf, rfl⟩
  refine Prog.runs_pure hu ⟨(Same.exit s _).trans hf.same, fun ha => ?_⟩
  rw [hrec]
  exact not_not.1 (of_decide_eq_false ha)

/-- an overlay that is not stale has the current identity -/
theorem keeps_staleOverlay {E : Host B → Prop} (hinv : Inv sha256 s) (hfiles : Files x k r s) :
    Keeps sha256 (staleOverlay x) s
      (fun a t => Same s t ∧ (a = false → s.overlay = none ∨ s.key = some (x.identity (sha256 k) (sha256 r)))) E := by
  refine Prog.runs_bind ((keeps_overlayExists hinv).mono ?_ fun _ _ _ h => h)
  rintro a u hu ⟨hsame, ha⟩
  cases a with
  | true =>
    refine (keeps_overlayIsStale hu (hfiles.same hsame)).mono ?_ fun _ _ _ h => h
    rintro a t - ⟨hsame', hfresh⟩
    refine ⟨hsame.trans hsame', fun haf => Or.inr ?_⟩
    rw [← hsame.key]
    exact hfresh haf
  | false =>
    refine Prog.runs_pure hu ⟨hsame, fun _ => Or.inl ?_⟩
    cases hov : s.overlay with
    | none => rfl
    | some ov => rw [hov] at ha; exact absurd (ha.2 rfl) (by simp)

/-- what is left after the check is usable, or gone -/
theorem keeps_dropUnusable (hsha : Function.Injective sha256) (hinv : Inv sha256 s) (hfiles : Files x k r s)
    (hc : ∀ ov, s.overlay = some ov → ov.snapshot.isSome = true → s.key = some (x.identity (sha256 k) (sha256 r)) →
      x.rootfs = ov.backing ∧ fileName x.kernel ≠ fileName x.rootfs) :
    Keeps sha256 (dropUnusable x) s (fun _ t => Files x k r t ∧ (t.overlay = none ∨ Ready sha256 x k r t))
      fun _ => True := by
  refine Prog.runs_bind ((keeps_staleOverlay hinv hfiles).mono ?_ fun _ _ _ h => h)
  rintro a u hu ⟨hsame, hfresh⟩
  have hfu := hfiles.same hsame
  cases a with
  | true =>
    exact (keeps_discard hu hfu).mono (fun _ t _ h => ⟨h.1, Or.inl h.2⟩) fun _ _ _ h => h
  | false =>
    refine Prog.runs_bind ((keeps_overlayExists hu).mono ?_ fun _ _ _ h => h)
    rintro a v hv ⟨hsame', ha⟩
    have hsv := hsame.trans hsame'
    have hfv := hfu.same hsame'
    cases a with
    | false =>
      refine Prog.runs_pure hv ⟨hfv, Or.inl ?_⟩
      cases hov : u.overlay with
      | none => rw [hsame'.overlay, hov]
      | some ov => rw [hov] at ha; exact absurd (ha.2 rfl) (by simp)
    | true =>
      refine Prog.runs_bind ((keeps_snapshotPresent hv).mono ?_ fun _ _ _ h => h)
      rintro a t ht ⟨hsame'', hsnap⟩
      cases a with
      | false =>
        exact (keeps_discard ht (hfv.same hsame'')).mono (fun _ t _ h => ⟨h.1, Or.inl h.2⟩) fun _ _ _ h => h
      | true =>
        refine Prog.runs_pure ht ⟨hfv.same hsame'', Or.inr (Ready.same ?_ (hsv.trans hsame''))⟩
        have hs := hsnap rfl
        rw [hsv.overlay] at hs
        obtain ⟨ov, hov, hsn⟩ : ∃ ov, s.overlay = some ov ∧ ov.snapshot.isSome = true := by
          cases hov : s.overlay with
          | none => rw [hov] at hs; cases hs
          | some ov => rw [hov] at hs; exact ⟨ov, rfl, hs⟩
        rcases hfresh rfl with h | h
        · rw [hov] at h; cases h
        · obtain ⟨hback, hne⟩ := hc ov hov hsn h
          exact ready_of_fresh hsha hinv hov h hsn hback hne

/-- a launch that is cold, or resumes a checkpoint that is there, keeps the overlay ready -/
theorem keeps_launch {p : Paths} {b : Backend} (loadvm : Option String) (hinv : Inv sha256 s) (hfiles : Files x k r s)
    (hready : Ready sha256 x k r s) (hsnap : loadvm ≠ none → (s.overlay.bind (·.snapshot)).isSome = true) :
    Keeps sha256 (b.launch p x loadvm) s
      (fun _ t => Files x k r t ∧ Ready sha256 x k r t ∧
        (loadvm = none → ∀ port, b.adbPort = .ok port → Mine b x port k r t))
      fun t => Files x k r t := by
  unfold launch
  cases hport : b.adbPort with
  | error e => exact Prog.runs_bind (Prog.runs_throw hinv hfiles)
  | ok port =>
    have hsound : Sound (s.launch (b.cachedLaunch x port loadvm) x.rootfs) := by
      cases loadvm with
      | none => exact sound_cold s _ _ rfl
      | some tag => exact hready.sound hfiles b port (some tag) (hsnap (by simp))
    have hlog := hinv.logged hsound
    refine Prog.runs_bind (Prog.runs_pure hinv ((b.runs_startAndWait any_exit hport (b.cachedLaunch x port loadvm) x.rootfs
      (fun t ht => hinv.same ht) fun t ht => hlog.same ht).mono ?_ ?_))
    · intro _ t _ hst
      refine ⟨hfiles.of_eq hst.same.files, ?_, ?_⟩
      · exact Ready.same (s := s.logged _ _) hready hst.same
      · rintro rfl port' hp
        cases hp
        exact mine_of_started hfiles hst
    · rintro e t - (⟨hf, -⟩ | ⟨hu, -⟩ | ⟨v, hv, hk⟩)
      · exact hfiles.of_eq hf.same.files
      · exact hfiles.of_eq hu.same.files
      · exact hfiles.of_eq (hk.same.files.trans hv.same.files)

/-- the boot loop: an answer of 1 has marked the guest behind the port -/
theorem keeps_bootLoop {E : Host B → Prop} {b : Backend} {port : Int} (rounds : ℕ) (hinv : Inv sha256 s)
    (hready : Ready sha256 x k r s) (hm : Mine b x port k r s) :
    Keeps sha256 (bootLoop port rounds) s
      (fun a t => a = true → Ready sha256 x k r t ∧ ∀ g, t.monitored = some g →
        g.booted = true ∧ g.launch = b.cachedLaunch x port none ∧ g.kernel = some k ∧ g.rootfs = some r) E := by
  induction rounds generalizing s with
  | zero => exact Prog.runs_pure hinv fun h => (by cases h)
  | succ rounds ih =>
    refine runs_act hinv fun c _ a t h => ?_
    have hexit := hinv.same (Same.exit s c.exits)
    have hready' := hready.same (Same.exit s c.exits)
    have hm' : Mine b x port k r (s.exit c.exits) := fun g hg => hm g (monitored_exit hg)
    simp only [exec, act] at h
    split_ifs at h
    · obtain ⟨rfl, rfl⟩ := Prod.mk.inj h
      have hsame : Same (s.exit c.exits) ((s.exit c.exits).booted port) := ⟨rfl, rfl, rfl, rfl, rfl⟩
      exact Prog.runs_pure (hexit.same hsame) fun _ => ⟨hready'.same hsame, fun g hg => monitored_booted hm' hg⟩
    · obtain ⟨rfl, rfl⟩ := Prod.mk.inj h
      exact ih hexit hready' hm'

theorem keeps_checkpoint {b : Backend} (hinv : Inv sha256 s) (hready : Ready sha256 x k r s)
    (hm : ∀ port, b.adbPort = .ok port → Mine b x port k r s) :
    Keeps sha256 b.checkpoint s (fun _ _ => True) fun _ => True := by
  unfold checkpoint
  cases hport : b.adbPort with
  | error e => exact Prog.runs_bind (Prog.runs_throw hinv trivial)
  | ok port =>
    refine Prog.runs_bind (Prog.runs_pure hinv (Prog.runs_bind (runs_act hinv fun c _ a t h => ?_)))
    obtain ⟨-, rfl⟩ := Prod.mk.inj h
    have hexit := hinv.same (Same.exit s c.exits)
    cases a with
    | false => exact Prog.runs_throw hexit trivial
    | true =>
      refine (keeps_bootLoop b.bootRounds hexit (hready.same (Same.exit s _))
        fun g hg => hm port hport g (monitored_exit hg)).mono ?_ fun _ _ _ h => h
      intro a u hu hboot
      cases a with
      | false => exact Prog.runs_pure hu trivial
      | true =>
        obtain ⟨hready', hmine⟩ := hboot rfl
        refine Prog.runs_bind (runs_ask hu fun c' _ a t h' => ?_)
        have hu' := hu.same (Same.exit u c'.exits)
        have hsave : Inv sha256 (u.exit c'.exits).save :=
          inv_save hu' (hready'.same (Same.exit u _)) fun g hg => hmine g (monitored_exit hg)
        simp only [exec, act] at h'
        obtain ⟨-, rfl⟩ := Prod.mk.inj h'
        split_ifs
        · exact ⟨hsave, Prog.runs_pure hsave trivial⟩
        · exact ⟨hu', Prog.runs_pure hu' trivial⟩

/-- resuming: a resume that was refused ends in a cold boot of our own -/
theorem keeps_resume {p : Paths} {b : Backend} (hinv : Inv sha256 s) (hfiles : Files x k r s)
    (hready : Ready sha256 x k r s) (hsnap : (s.overlay.bind (·.snapshot)).isSome = true) :
    Keeps sha256 (b.resume p x) s
      (fun a t => a = false → Ready sha256 x k r t ∧ ∀ port, b.adbPort = .ok port → Mine b x port k r t)
      fun _ => True := by
  refine Prog.runs_tryCatch (Prog.runs_bind ((keeps_launch (some snapshotTag) hinv hfiles hready fun _ => hsnap).mono ?_ ?_))
  · exact fun _ t ht _ => Prog.runs_pure ht fun h => (by cases h)
  · intro e t ht hft
    cases e with
    | launch le =>
      refine Prog.runs_bind ((keeps_discard ht hft).mono ?_ fun _ _ _ h => h)
      rintro - u hu ⟨hfu, -⟩
      refine Prog.runs_bind ((keeps_freshOverlay hu hfu).mono ?_ fun _ _ _ h => h)
      rintro - v hv ⟨hfv, hrv⟩
      refine Prog.runs_bind ((keeps_launch none hv hfv hrv fun h => absurd rfl h).mono ?_ fun _ _ _ _ => trivial)
      exact fun _ w hw h => Prog.runs_pure hw fun _ => ⟨h.2.1, h.2.2 rfl⟩
    | _ => exact Prog.runs_throw ht trivial

theorem keeps_ensureOverlay (hinv : Inv sha256 s) (hfiles : Files x k r s)
    (h : s.overlay = none ∨ Ready sha256 x k r s) :
    Keeps sha256 (ensureOverlay x) s (fun _ t => Files x k r t ∧ Ready sha256 x k r t) fun _ => True := by
  refine Prog.runs_bind ((keeps_overlayExists hinv).mono ?_ fun _ _ _ h => h)
  rintro a t ht ⟨hsame, ha⟩
  cases a with
  | true =>
    refine Prog.runs_pure ht ⟨hfiles.same hsame, ?_⟩
    rcases h with h | h
    · rw [h] at ha; exact absurd (ha.1 rfl) (by simp)
    · exact h.same hsame
  | false => exact keeps_freshOverlay ht (hfiles.same hsame)

theorem keeps_bootCached {p : Paths} {b : Backend} (hsha : Function.Injective sha256) (hinv : Inv sha256 s)
    (hfiles : Files x k r s)
    (hc : ∀ ov, s.overlay = some ov → ov.snapshot.isSome = true → s.key = some (x.identity (sha256 k) (sha256 r)) →
      x.rootfs = ov.backing ∧ fileName x.kernel ≠ fileName x.rootfs) :
    Keeps sha256 (b.bootCached p x) s (fun _ _ => True) fun _ => True := by
  refine runs_act hinv fun c _ _ t h => ?_
  obtain ⟨-, rfl⟩ := Prod.mk.inj h
  have hsame : Same s { s.exit c.exits with monitor := none } := ⟨rfl, rfl, rfl, rfl, rfl⟩
  refine Prog.runs_bind ((keeps_dropUnusable hsha (hinv.same hsame) (hfiles.same hsame) hc).mono ?_ fun _ _ _ h => h)
  rintro - u hu ⟨hfu, hru⟩
  refine Prog.runs_bind ((keeps_ensureOverlay hu hfu hru).mono ?_ fun _ _ _ h => h)
  rintro - v hv ⟨hfv, hrv⟩
  refine Prog.runs_bind ((keeps_snapshotPresent hv).mono ?_ fun _ _ _ h => h)
  rintro a w hw ⟨hsw, hsnap⟩
  cases a with
  | true =>
    have hsnap' : (w.overlay.bind (·.snapshot)).isSome = true := by rw [hsw.overlay]; exact hsnap rfl
    refine Prog.runs_bind ((keeps_resume hw (hfv.same hsw) (hrv.same hsw) hsnap').mono ?_ fun _ _ _ h => h)
    intro a t ht hres
    cases a with
    | true => exact Prog.runs_pure ht trivial
    | false => exact keeps_checkpoint ht (hres rfl).1 (hres rfl).2
  | false =>
    refine Prog.runs_bind ((keeps_launch none hw (hfv.same hsw) (hrv.same hsw) fun h => absurd rfl h).mono ?_
      fun _ _ _ _ => trivial)
    exact fun _ t ht h => keeps_checkpoint ht h.2.1 (h.2.2 rfl)

theorem keeps_upCached {p : Paths} {b : Backend} {accel : ResolvedAccel} (hsha : Function.Injective sha256)
    (haccel : detectAccel b.probe b.cfg.vm.accel = .ok accel) (hinv : Inv sha256 s) (cs : List Choice)
    (hc : Unmoved sha256 p s (.up b cs)) : Keeps sha256 (b.upCached p accel) s (fun _ _ => True) fun _ => True := by
  refine Prog.runs_bind ((runs_resolveArtifact any_exit p _ _ _ fun t ht => hinv.same ht).mono ?_ fun _ _ _ _ => trivial)
  rintro kernel u hu ⟨hf, rawk, hrawk, rfl, k, hk⟩
  refine Prog.runs_bind ((runs_resolveArtifact any_exit p _ _ _ fun t ht => hu.same ht).mono ?_ fun _ _ _ _ => trivial)
  rintro rootfs v hv ⟨hf', rawr, hrawr, rfl, r, hr⟩
  have hsame := hf.same.trans hf'.same
  rw [hf.same.files] at hr
  refine keeps_bootCached hsha hv (Files.same (s := s) ⟨hk, hr⟩ hsame) fun ov hov hsn hkey => ?_
  rw [hsame.overlay] at hov
  rw [hsame.key] at hkey
  refine hc ⟨p.resolve rawk, p.resolve rawr, resolveSmp b.probe b.cfg.vm.smp, b.cfg.vm.memoryMib, accel⟩ ?_ ov hov hsn ?_
  · simp only [base?, hrawk, hrawr, haccel, Option.mem_def]
  · simp only [identity?, hk, hr]
    exact hkey

theorem keeps_upPlain {p : Paths} {b : Backend} {accel : ResolvedAccel} (hinv : Inv sha256 s) :
    Keeps sha256 (b.upPlain p accel) s (fun _ _ => True) fun _ => True := by
  refine Prog.runs_bind ((runs_resolveArtifact any_exit p _ _ _ fun t ht => hinv.same ht).mono ?_ fun _ _ _ _ => trivial)
  intro kernel u hu _
  refine Prog.runs_bind ((runs_resolveArtifact any_exit p _ _ _ fun t ht => hu.same ht).mono ?_ fun _ _ _ _ => trivial)
  intro rootfs v hv _
  cases hport : b.adbPort with
  | error e => exact Prog.runs_bind (Prog.runs_throw hv trivial)
  | ok port =>
    have hlog := hv.logged (sound_cold v (b.plainLaunch accel kernel rootfs port) rootfs rfl)
    exact Prog.runs_bind (Prog.runs_pure hv ((b.runs_startAndWait any_exit hport _ rootfs (fun t ht => hv.same ht)
      fun t ht => hlog.same ht).mono (fun _ _ _ _ => trivial) fun _ _ _ _ => trivial))

theorem keeps_up {p : Paths} {b : Backend} (hsha : Function.Injective sha256) (hinv : Inv sha256 s) (cs : List Choice)
    (hc : Unmoved sha256 p s (.up b cs)) : Keeps sha256 (b.up p) s (fun _ _ => True) fun _ => True :=
  b.runs_up hinv (fun _ => trivial) (fun _ _ _ => trivial) (fun _ ha _ => keeps_upCached hsha ha hinv cs hc)
    fun _ _ _ => keeps_upPlain hinv

theorem keeps_down {b : Backend} (hinv : Inv sha256 s) : Keeps sha256 b.down s (fun _ _ => True) fun _ => True := by
  cases hport : b.adbPort with
  | error e =>
    unfold Backend.down
    rw [hport]
    exact Prog.runs_bind (Prog.runs_throw hinv trivial)
  | ok port =>
    exact (b.runs_down any_exit hport fun t ht => hinv.same ht).mono (fun _ _ _ _ => trivial) fun _ _ _ h => h.elim

theorem step_inv (hsha : Function.Injective sha256) (p : Paths) (hinv : Inv sha256 s) (o : Op B)
    (hc : Unmoved sha256 p s o) : Inv sha256 (step sha256 p s o) := by
  cases o with
  | up b cs => exact Prog.Along.stopped (keeps_up hsha hinv cs hc) fun _ _ => trivial
  | down b cs => exact Prog.Along.stopped (keeps_down hinv) fun _ _ => trivial
  | change files => exact ⟨hinv.sound, hinv.keyed⟩
  | exit pids => exact hinv.same (Same.exit s pids)

theorem inv_new (sha256 : B → String) (files : Dict Path B) : Inv sha256 (Host.new files) :=
  ⟨fun _ he => absurd he List.not_mem_nil, fun _ hov => (by cases hov)⟩

end Program

/-- From a new instance directory next to any artifacts, through any `up`s and `down`s of any configurations, cut short
anywhere, with any changes of the artifacts and any exits in between: if each `up` that finds a fresh checkpoint has its
rootfs where the overlay is backed, and kernel and rootfs of different base names, every resume so far was sound. -/
theorem resume_sound (sha256 : B → String) (hsha : Function.Injective sha256) (p : Paths) (files : Dict Path B)
    (ops : List (Op B)) (h : Always (step sha256 p) (Unmoved sha256 p) (Host.new files) ops) :
    ∀ e ∈ (run sha256 p (Host.new files) ops).launched, Sound e := by
  have hinv : Inv sha256 (run sha256 p (Host.new files) ops) :=
    run_always (I := Inv sha256) (fun _ o hs hc => step_inv hsha p hs o hc) (inv_new sha256 files) h
  exact hinv.sound

/-! ## Runs on two copies of a rootfs -/

/-- the paths of the example, with their components -/
def copies : Paths where
  resolve s :=
    if s = "/a/rootfs.img" then ["a", "rootfs.img"] else if s = "/b/rootfs.img" then ["b", "rootfs.img"] else [s]
  str q :=
    if q = ["a", "rootfs.img"] then "/a/rootfs.img" else if q = ["b", "rootfs.img"] then "/b/rootfs.img" else q.headD ""
  resolve_str s := by
    by_cases h1 : s = "/a/rootfs.img"
    · subst h1; decide
    · by_cases h2 : s = "/b/rootfs.img"
      · subst h2; decide
      · simp [h1, h2]

def cached (rootfs : String) : Backend where
  root := ["srv", "x"]
  cfg := InstanceConfig.plain.onVm "bzImage" rootfs true
  index := 0

def artifacts (a : String) : Dict Path String :=
  Dict.ofList [(["bzImage"], "kernel"), (["a", "rootfs.img"], a), (["b", "rootfs.img"], "v1")]

/-- enough good answers for a whole verb -/
def calm : List Choice := List.replicate 40 {}

/-- boot and checkpoint, stop, resume -/
def resumed : List (Op String) :=
  [.up (cached "/a/rootfs.img") calm, .down (cached "/a/rootfs.img") calm, .up (cached "/a/rootfs.img") calm]

theorem resume_sound_resumed :
    ((run id copies (Host.new (artifacts "v1")) resumed).launched.map fun e => e.launch.loadvm) =
        [none, some "beetroot-boot"] ∧
      ∀ e ∈ (run id copies (Host.new (artifacts "v1")) resumed).launched, Sound e :=
  ⟨by decide +kernel, resume_sound id Function.injective_id copies (artifacts "v1") resumed (by decide +kernel)⟩

/-- boot from the first copy, stop, change the first copy, boot with the second one configured -/
def moved : List (Op String) :=
  [.up (cached "/a/rootfs.img") calm, .down (cached "/a/rootfs.img") calm, .change (artifacts "v2"),
    .up (cached "/b/rootfs.img") calm]

theorem resumed_over_changed_backing :
    ∃ e ∈ (run id copies (Host.new (artifacts "v1")) moved).launched, ¬ Sound e := by
  have hlast : ((run id copies (Host.new (artifacts "v1")) moved).launched.map fun e =>
      (e.launch.loadvm.isSome, e.overlay.map (·.bytes), e.backing)) =
        [(false, some (some "v1"), some "v1"), (true, some (some "v1"), some "v2")] := by
    decide +kernel
  have hmem : (true, some (some "v1"), some "v2") ∈ (run id copies (Host.new (artifacts "v1")) moved).launched.map fun e =>
      (e.launch.loadvm.isSome, e.overlay.map (·.bytes), e.backing) := by
    rw [hlast]
    exact List.mem_cons_of_mem _ List.mem_cons_self
  obtain ⟨e, he, heq⟩ := List.mem_map.1 hmem
  obtain ⟨hload, hrest⟩ := Prod.mk.inj heq
  obtain ⟨hov, hback⟩ := Prod.mk.inj hrest
  refine ⟨e, he, fun hs => ?_⟩
  obtain ⟨ov, g, k, r, y, h1, -, -, -, -, -, -, -, h2, h3⟩ := hs hload
  rw [h1, Option.map_some, h2] at hov
  rw [h3] at hback
  cases hov
  exact absurd hback (by decide)

end Beetroot.Vm.Checkpoint
