/-
The boot cache (`vm/boot_cache.py`) and the lifecycle of `VmDeviceBackend` (`backends/vm.py`) as programs over the host.

`up` boots from the raw rootfs, or with `vm.boot_cache` through a qcow2 overlay that is discarded when its recorded identity
no longer matches, resumed when it holds a checkpoint, and otherwise cold-booted and checkpointed. The polling loops take the
number of rounds that fit before their deadline. Notes and warnings, and the copy of the console log made before a cold
retry, are left out.

Results:
- `identityFiles_inj`: for one rootfs path, equal identities mean equal contents, unless the two base names are equal;
- `adbPort_eq`: the lookup of the adb port fails only when the ports do not resolve;
- `runs_down`, `runs_startAndWait`: what a `down`, and a launch with its wait, can do under any choices of the world.
-/
import Beetroot.Vm.Qemu
import Mathlib.Data.List.Sort
import Mathlib.Data.String.Basic

namespace Beetroot.Vm

open Lib Lib.Fs

/-! ## The boot cache -/

def snapshotTag : String := "beetroot-boot"

def overlayPath (root : Path) : Path := root ++ ["vm-overlay.qcow2"]

def monitorPath (root : Path) : Path := root ++ ["qemu-monitor.sock"]

/-- `Path.name` -/
def fileName (q : Path) : String := q.getLastD ""

/-- what an overlay is built from: the arguments of `base_identity` -/
structure Base where
  kernel : Path
  rootfs : Path
  smp : Int
  memoryMib : Int
  accel : ResolvedAccel

/-- the hashed files in the order in which they are folded; one path given twice is one entry of the dict -/
def identityFiles (kernel rootfs : Path) (k r : String) : List (String × String) :=
  List.insertionSort (fun a b => a.1 < b.1 ∨ (a.1 = b.1 ∧ a.2 ≤ b.2))
    (if kernel = rootfs then [(fileName rootfs, r)] else [(fileName kernel, k), (fileName rootfs, r)])

/-- for one rootfs path, equal folds have equal hashes, unless kernel and rootfs have one base name -/
theorem identityFiles_inj {kernel kernel' rootfs : Path} {k k' r r' : String} (hne : fileName kernel ≠ fileName rootfs)
    (h : identityFiles kernel rootfs k r = identityFiles kernel' rootfs k' r') : k = k' ∧ r = r' := by
  have hpath : kernel ≠ rootfs := fun he => hne (by rw [he])
  have hperm : [(fileName kernel, k), (fileName rootfs, r)].Perm
      (if kernel' = rootfs then [(fileName rootfs, r')] else [(fileName kernel', k'), (fileName rootfs, r')]) := by
    have h' := h
    unfold identityFiles at h'
    rw [if_neg hpath] at h'
    exact ((List.perm_insertionSort _ _).symm.trans (by rw [h'])).trans (List.perm_insertionSort _ _)
  split_ifs at hperm with he
  · exact absurd hperm.length_eq (by simp)
  · -- the kernel entry cannot match the rootfs entry, so each matches its own
    have h1 := hperm.subset (List.mem_cons_self (a := (fileName kernel, k)))
    have h2 := hperm.subset (List.mem_cons_of_mem _ (List.mem_singleton_self (fileName rootfs, r)))
    simp only [List.mem_cons, Prod.mk.injEq, List.not_mem_nil, or_false] at h1 h2
    rcases h1 with ⟨hn, hk⟩ | ⟨hn, -⟩
    · rcases h2 with ⟨hn', -⟩ | ⟨-, hr⟩
      · exact absurd (hn.trans hn'.symm) hne
      · exact ⟨hk, hr⟩
    · exact absurd hn hne

def hashFile (q : Path) : M String := do
  match ← ask (.hashFile q) with
  | some digest => return digest
  | none => throw .fileNotFound

/-- the identity, from the two content hashes -/
def Base.identity (x : Base) (k r : String) : Identity :=
  ⟨identityFiles x.kernel x.rootfs k r, x.smp, x.memoryMib, x.accel⟩

def baseIdentity (x : Base) : M Identity := do
  let k ← hashFile x.kernel
  let r ← hashFile x.rootfs
  return x.identity k r

def recordIdentity (x : Base) : M Unit := do
  let id ← baseIdentity x
  if ← ask (.replaceKey id) then return () else throw .os

def overlayIsStale (x : Base) : M Bool := do
  let recorded ← ask .readKey
  let id ← baseIdentity x
  return decide (recorded ≠ some id)

def discardOverlay : M Unit := do
  ask .unlinkOverlay
  ask .unlinkKey

def createOverlay (base : Path) : M Unit := do
  match ← ask (.imgCreate base) with
  | .created => return ()
  | .notFound => throw (.launch .imgNotFound)
  | .failed => throw (.launch .imgFailed)

def snapshotPresent : M Bool := do
  if ← ask .overlayExists then ask .listSnapshots else return false

def saveSnapshot : M Bool := ask .savevm

/-! ## The backend -/

structure Settings where
  qemuBin : String := "qemu-system-x86_64"
  vmKernel : String := ""
  vmRootfs : String := ""

/-- a `VmDeviceBackend` with the settings and the host probes it reads; the last three are the rounds of its polling loops -/
structure Backend where
  root : Path
  cfg : InstanceConfig
  index : Int
  settings : Settings := {}
  probe : Probe := .usual
  adbRounds : ℕ := 1
  bootRounds : ℕ := 1
  termPolls : ℕ := 1

/-- `configured or env_default or None` -/
def rawArtifact (configured : Option String) (envDefault : String) : Option String :=
  match configured with
  | some c => if c ≠ "" then some c else if envDefault ≠ "" then some envDefault else none
  | none => if envDefault ≠ "" then some envDefault else none

def resolveArtifact (p : Paths) (configured : Option String) (envDefault : String) (label : Artifact) : M Path := do
  match rawArtifact configured envDefault with
  | none => throw (.launch (.notConfigured label))
  | some raw =>
    if ← ask (.fileExists (p.resolve raw)) then return p.resolve raw
    else throw (.launch (.missing label raw))

namespace Backend

variable (b : Backend)

/-- `ports.well_known(self.ports)["adb"]` -/
def adbPort : Except VmError Int :=
  match resolvePorts b.index b.cfg.ports with
  | .error e => .error (.port e)
  | .ok ports =>
    match (wellKnown ports).get? "adb" with
    | some port => .ok port
    | none => .error .keyError

/-- the key is always there: the schema asks for an `adb` mapping -/
theorem adbPort_eq : b.adbPort = match resolvePorts b.index b.cfg.ports with
    | .error e => .error (.port e)
    | .ok ports => .ok (((wellKnown ports).get? "adb").getD 0) := by
  unfold adbPort
  cases h : resolvePorts b.index b.cfg.ports with
  | error e => rfl
  | ok ports =>
    obtain ⟨port, hp⟩ := adb_port b.cfg h
    simp only [hp, Option.getD_some]

def down : M Unit := do
  let port ← MonadExcept.ofExcept b.adbPort
  let _ ← terminate b.termPolls (some port)

/-- the loop of `_wait_for_adb_connect`; the last round ends at the deadline -/
def adbLoop (port : Int) : ℕ → M Unit
  | 0 => do
    if ← ask .adbConnect then return ()
    if ← isRunning (some port) then throw (.launch .noAdb) else throw (.launch .exited)
  | rounds + 1 => do
    if ← ask .adbConnect then return ()
    if ← isRunning (some port) then adbLoop port rounds else throw (.launch .exited)

def waitForAdbConnect (port : Int) : M Unit := do
  if ← ask .whichAdb then adbLoop port b.adbRounds else throw .adbNotInstalled

def bootLoop (port : Int) : ℕ → M Bool
  | 0 => return false
  | rounds + 1 => do if ← ask (.bootCompleted port) then return true else bootLoop port rounds

def waitForBootCompleted (port : Int) : M Bool := do
  if ← ask .whichAdb then bootLoop port b.bootRounds else throw .adbNotInstalled

/-- start QEMU and wait for adb; a failed wait must not leave the new QEMU behind -/
def startAndWait (p : Paths) (port : Int) (l : Launch) (base : Path) : M Unit := do
  let _ ← start port (buildQemuArgv p.str l) l base
  tryCatch (b.waitForAdbConnect port) fun e => do
    b.down
    throw e

/-! ## `_up_cached` -/

/-- the arguments that `_launch` gives to `build_qemu_argv` -/
def cachedLaunch (x : Base) (port : Int) (loadvm : Option String) : Launch where
  qemuBin := b.settings.qemuBin
  accel := x.accel
  kernel := x.kernel
  rootfs := overlayPath b.root
  smp := x.smp
  memoryMib := x.memoryMib
  hostAdbPort := port
  diskFormat := .qcow2
  monitorSocket := some (monitorPath b.root)
  loadvm := loadvm

/-- the closure `_launch` -/
def launch (p : Paths) (x : Base) (loadvm : Option String) : M Unit := do
  let port ← MonadExcept.ofExcept b.adbPort
  b.startAndWait p port (b.cachedLaunch x port loadvm) x.rootfs

/-- `overlay.exists() and overlay_is_stale(...)` -/
def staleOverlay (x : Base) : M Bool := do
  if ← ask .overlayExists then overlayIsStale x else return false

/-- discard an overlay that is stale, or fresh but without a checkpoint -/
def dropUnusable (x : Base) : M Unit := do
  if ← staleOverlay x then discardOverlay
  else if ← ask .overlayExists then
    if ← snapshotPresent then return () else discardOverlay

/-- a pristine overlay with its identity -/
def freshOverlay (x : Base) : M Unit := do
  createOverlay x.rootfs
  recordIdentity x

def ensureOverlay (x : Base) : M Unit := do
  if ← ask .overlayExists then return () else freshOverlay x

/-- resume the checkpoint; a `QemuLaunchError` leads to one cold boot on a pristine overlay, and the answer `false` -/
def resume (p : Paths) (x : Base) : M Bool :=
  tryCatch (do b.launch p x (some snapshotTag); return true) fun e =>
    match e with
    | .launch _ => do
      discardOverlay
      freshOverlay x
      b.launch p x none
      return false
    | e => throw e

/-- checkpoint a guest that has booted -/
def checkpoint : M Unit := do
  let port ← MonadExcept.ofExcept b.adbPort
  if ← b.waitForBootCompleted port then
    let _ ← saveSnapshot

/-- `_up_cached`, from the removal of the stale monitor socket on -/
def bootCached (p : Paths) (x : Base) : M Unit := do
  ask .unlinkMonitor
  dropUnusable x
  ensureOverlay x
  if ← snapshotPresent then
    if ← b.resume p x then return () else b.checkpoint
  else
    b.launch p x none
    b.checkpoint

def upCached (p : Paths) (accel : ResolvedAccel) : M Unit := do
  let kernel ← resolveArtifact p b.cfg.vm.kernel b.settings.vmKernel .kernel
  let rootfs ← resolveArtifact p b.cfg.vm.rootfs b.settings.vmRootfs .rootfs
  b.bootCached p ⟨kernel, rootfs, resolveSmp b.probe b.cfg.vm.smp, b.cfg.vm.memoryMib, accel⟩

/-! ## `up` and `restart` -/

/-- the arguments that `build_argv` gives to `build_qemu_argv` -/
def plainLaunch (accel : ResolvedAccel) (kernel rootfs : Path) (port : Int) : Launch where
  qemuBin := b.settings.qemuBin
  accel := accel
  kernel := kernel
  rootfs := rootfs
  smp := resolveSmp b.probe b.cfg.vm.smp
  memoryMib := b.cfg.vm.memoryMib
  hostAdbPort := port

def upPlain (p : Paths) (accel : ResolvedAccel) : M Unit := do
  let kernel ← resolveArtifact p b.cfg.vm.kernel b.settings.vmKernel .kernel
  let rootfs ← resolveArtifact p b.cfg.vm.rootfs b.settings.vmRootfs .rootfs
  let port ← MonadExcept.ofExcept b.adbPort
  b.startAndWait p port (b.plainLaunch accel kernel rootfs port) rootfs

def up (p : Paths) : M Unit :=
  if b.cfg.binder ≠ .vm then throw (.capability b.cfg.binder)
  else do
    let accel ← MonadExcept.ofExcept (detectAccel b.probe b.cfg.vm.accel)
    if b.cfg.vm.bootCache then b.upCached p accel else b.upPlain p accel

def restart (p : Paths) : M Unit := do
  b.down
  b.up p

/-! ## What the functions do -/

section Specs

variable {B : Type} {sha256 : B → String} {P : Choice → Prop} {X : ℕ → Prop} {I : Host B → Prop} {s t : Host B}

/-- `up` refuses, or goes one of its two ways -/
theorem runs_up {p : Paths} {Q : Unit → Host B → Prop} {E : VmError → Host B → Prop} (hI : I s)
    (hbinder : b.cfg.binder ≠ .vm → E (.capability b.cfg.binder) s)
    (haccel : b.cfg.binder = .vm → ∀ e, detectAccel b.probe b.cfg.vm.accel = .error e → E e s)
    (hcached : ∀ accel, detectAccel b.probe b.cfg.vm.accel = .ok accel → b.cfg.vm.bootCache = true →
      Prog.Runs (exec sha256) P I (b.upCached p accel) s Q E)
    (hplain : ∀ accel, detectAccel b.probe b.cfg.vm.accel = .ok accel → b.cfg.vm.bootCache = false →
      Prog.Runs (exec sha256) P I (b.upPlain p accel) s Q E) :
    Prog.Runs (exec sha256) P I (b.up p) s Q E := by
  unfold up
  by_cases hb : b.cfg.binder ≠ .vm
  · rw [if_pos hb]
    exact Prog.runs_throw hI (hbinder hb)
  · rw [if_neg hb]
    cases ha : detectAccel b.probe b.cfg.vm.accel with
    | error e => exact Prog.runs_bind (Prog.runs_throw hI (haccel (not_not.1 hb) e ha))
    | ok accel =>
      refine Prog.runs_bind (Prog.runs_pure hI ?_)
      cases hc : b.cfg.vm.bootCache with
      | true => exact hcached accel ha hc
      | false => exact hplain accel ha hc

variable (hP : ∀ c, P c → ∀ q ∈ c.exits, X q)

include hP

theorem runs_resolveArtifact (p : Paths) (configured : Option String) (envDefault : String) (label : Artifact)
    (hI : ∀ t, Same s t → I t) :
    Prog.Runs (exec sha256) P I (resolveArtifact p configured envDefault label) s
      (fun q t => Fades X s t ∧ ∃ raw, rawArtifact configured envDefault = some raw ∧ q = p.resolve raw ∧
        ∃ y, s.files.get? q = some y)
      fun e t => Fades X s t ∧ ∃ le, e = .launch le := by
  unfold resolveArtifact
  cases hraw : rawArtifact configured envDefault with
  | none => exact Prog.runs_throw (hI s (Same.refl s)) ⟨Fades.refl X s, _, rfl⟩
  | some raw =>
    refine runs_act (hI s (Same.refl s)) fun c hc r t h => ?_
    obtain ⟨hr, rfl⟩ := Prod.mk.inj h
    have hf := fades_exit hP hc s
    cases r with
    | true => exact Prog.runs_pure (hI _ hf.same) ⟨hf, raw, rfl, rfl, Option.isSome_iff_exists.1 hr⟩
    | false => exact Prog.runs_throw (hI _ hf.same) ⟨hf, _, rfl⟩

theorem runs_hashFile {q : Path} {y : B} (hq : s.files.get? q = some y) (hI : ∀ t, Same s t → I t) :
    Prog.Runs (exec sha256) P I (hashFile q) s (fun d t => Fades X s t ∧ d = sha256 y) fun _ _ => False := by
  refine runs_act (hI s (Same.refl s)) fun c hc r t h => ?_
  obtain ⟨hr, rfl⟩ := Prod.mk.inj h
  have hf := fades_exit hP hc s
  have hq' : (s.exit c.exits).files.get? q = some y := hq
  rw [hq'] at hr
  subst hr
  exact Prog.runs_pure (hI _ hf.same) ⟨hf, rfl⟩

theorem runs_baseIdentity {x : Base} {k r : B} (hk : s.files.get? x.kernel = some k) (hr : s.files.get? x.rootfs = some r)
    (hI : ∀ t, Same s t → I t) :
    Prog.Runs (exec sha256) P I (baseIdentity x) s (fun id t => Fades X s t ∧ id = x.identity (sha256 k) (sha256 r))
      fun _ _ => False := by
  refine Prog.runs_bind ((runs_hashFile hP hk hI).mono ?_ fun _ _ _ h => h)
  rintro d u _ ⟨hf, rfl⟩
  have hr' : u.files.get? x.rootfs = some r := by rw [hf.same.files]; exact hr
  refine Prog.runs_bind ((runs_hashFile hP hr' fun t ht => hI t (hf.same.trans ht)).mono ?_ fun _ _ _ h => h)
  rintro d t ht ⟨hf', rfl⟩
  exact Prog.runs_pure ht ⟨hf.trans hf', rfl⟩

theorem runs_adbLoop (port : Int) (rounds : ℕ) (hI : ∀ t, Same s t → I t) :
    Prog.Runs (exec sha256) P I (adbLoop port rounds) s (fun _ t => Fades X s t) fun _ t => Fades X s t := by
  induction rounds generalizing s with
  | zero =>
    refine runs_act (hI s (Same.refl s)) fun c hc r t h => ?_
    obtain ⟨-, rfl⟩ := Prod.mk.inj h
    have hf := fades_exit hP hc s
    cases r with
    | true => exact Prog.runs_pure (hI _ hf.same) hf
    | false =>
      refine Prog.runs_bind ((runs_isRunning hP (some port) fun t ht => hI t (hf.same.trans ht)).mono ?_
        fun _ _ _ h => h.elim)
      rintro r u hu ⟨hf', -⟩
      cases r <;> exact Prog.runs_throw hu (hf.trans hf')
  | succ rounds ih =>
    refine runs_act (hI s (Same.refl s)) fun c hc r t h => ?_
    obtain ⟨-, rfl⟩ := Prod.mk.inj h
    have hf := fades_exit hP hc s
    cases r with
    | true => exact Prog.runs_pure (hI _ hf.same) hf
    | false =>
      refine Prog.runs_bind ((runs_isRunning hP (some port) fun t ht => hI t (hf.same.trans ht)).mono ?_
        fun _ _ _ h => h.elim)
      rintro r u hu ⟨hf', -⟩
      cases r with
      | true =>
        exact (ih fun t ht => hI t ((hf.trans hf').same.trans ht)).mono (fun _ _ _ h => (hf.trans hf').trans h)
          fun _ _ _ h => (hf.trans hf').trans h
      | false => exact Prog.runs_throw hu (hf.trans hf')

theorem runs_waitForAdbConnect (port : Int) (hI : ∀ t, Same s t → I t) :
    Prog.Runs (exec sha256) P I (b.waitForAdbConnect port) s (fun _ t => Fades X s t) fun _ t => Fades X s t := by
  refine runs_act (hI s (Same.refl s)) fun c hc r t h => ?_
  obtain ⟨-, rfl⟩ := Prod.mk.inj h
  have hf := fades_exit hP hc s
  cases r with
  | true =>
    exact (runs_adbLoop hP port b.adbRounds fun t ht => hI t (hf.same.trans ht)).mono (fun _ _ _ h => hf.trans h)
      fun _ _ _ h => hf.trans h
  | false => exact Prog.runs_throw (hI _ hf.same) hf

theorem runs_down {port : Int} (hport : b.adbPort = .ok port) (hI : ∀ t, Same s t → I t) :
    Prog.Runs (exec sha256) P I b.down s (fun _ t => Killed (some port) s t) fun _ _ => False := by
  unfold down
  rw [hport]
  refine Prog.runs_bind (Prog.runs_pure (hI s (Same.refl s)) ?_)
  exact Prog.runs_bind ((runs_terminate hP (some port) b.termPolls hI).mono (fun _ _ ht h => Prog.runs_pure ht h)
    fun _ _ _ h => h)

/-- a call that raises has left things alone, or could not record the new QEMU, or has taken it down again -/
theorem runs_startAndWait {p : Paths} {port : Int} (hport : b.adbPort = .ok port) (l : Launch) (base : Path)
    (hI : ∀ t, Same s t → I t) (hL : ∀ t, Same (s.logged l base) t → I t) :
    Prog.Runs (exec sha256) P I (b.startAndWait p port l base) s
      (fun _ t => Started X port (buildQemuArgv p.str l) l base s t)
      fun e t => (Fades X s t ∧ ∃ le, e = .launch le) ∨
        (Unrecorded X port (buildQemuArgv p.str l) l base s t ∧ ∃ c, P c ∧ c.written = false) ∨
        ∃ v, Started X port (buildQemuArgv p.str l) l base s v ∧ Killed (some port) v t := by
  refine Prog.runs_bind ((runs_start hP port (buildQemuArgv p.str l) l base hI hL).mono ?_ ?_)
  · intro pid v _ hv
    have hI' : ∀ t, Same v t → I t := fun t ht => hL t (hv.same.trans ht)
    refine Prog.runs_tryCatch ((b.runs_waitForAdbConnect hP port hI').mono ?_ ?_)
    · exact fun _ t _ hf => hv.fades hf
    · intro e w _ hf
      refine Prog.runs_bind ((b.runs_down hP hport fun t ht => hI' t (hf.same.trans ht)).mono ?_ fun _ _ _ h => h.elim)
      exact fun _ t ht hk => Prog.runs_throw ht (Or.inr (Or.inr ⟨w, hv.fades hf, hk⟩))
  · intro e t _ h
    rcases h with h | h
    · exact Or.inl h
    · exact Or.inr (Or.inl h)

end Specs

end Backend

end Beetroot.Vm
