/-
The host of a vm instance, and the process management of `vm/qemu.py` over it.

A `Host` holds the artifact files, what `up` writes into the instance directory (overlay, identity sidecar, monitor socket,
pidfile) and the live processes. The code is a program of actions on it. The world answers each action through a `Choice`:
processes may exit before it, and an external command may fail. Three facts about QEMU are part of the world: a QEMU whose host
port is taken serves nothing until it exits, a signalled process is gone after SIGKILL, and `savevm` writes into the disk the
guest runs on.

Ghost data, which no action reads: what a guest was launched with, what the backing file held when the overlay was made, and
the log of launches. The console log is left out, since nothing is decided by it.

Results: the postconditions of the process functions, under any choices of the world:
- `runs_isRunning`, `runs_pidIsQemu`: what an answer says about the process table;
- `runs_start`, `runs_terminate`: what they do to the recorded process;
- `names_own`: a launched QEMU is recognised under its own port.
-/
import Beetroot.Host
import Beetroot.Lib.Prog
import Mathlib.Algebra.Order.BigOperators.Group.List
import Mathlib.Data.List.Infix

namespace Beetroot.Vm

open Lib Lib.Fs

/-! ## The accelerator and the geometry -/

inductive ResolvedAccel where
  | kvm
  | tcg
deriving DecidableEq, Repr

/-- what the host probes find: `host_is_guest_arch`, `_dev_kvm_usable`, `host_physical_cores` -/
structure Probe where
  guestArch : Bool := true
  devKvm : Bool := true
  cores : Int := 4
  cores_pos : 1 ≤ cores := by decide

/-- a host with KVM and four cores -/
def Probe.usual : Probe := {}

inductive Artifact where
  | kernel
  | rootfs
deriving DecidableEq, Repr

/-- a `QemuLaunchError`, by its message -/
inductive LaunchError where
  | kvmForeignArch
  | kvmUnusable
  | notConfigured (label : Artifact)
  | missing (label : Artifact) (raw : String)
  | imgNotFound
  | imgFailed
  | alreadyRunning (pid : Option ℕ)
  | notSpawned
  | exited
  | noAdb
deriving DecidableEq, Repr

inductive VmError where
  | launch (e : LaunchError)
  /-- `BackendCapabilityError`: the row is a vm row, the file says another binder -/
  | capability (binder : Binder)
  | adbNotInstalled
  | port (e : PortError)
  | keyError
  | fileNotFound
  | os
deriving DecidableEq, Repr

def detectAccel (h : Probe) : Accel → Except VmError ResolvedAccel
  | .tcg => .ok .tcg
  | .kvm =>
    if !h.guestArch then .error (.launch .kvmForeignArch)
    else if !h.devKvm then .error (.launch .kvmUnusable)
    else .ok .kvm
  | .auto => if !h.guestArch then .ok .tcg else if h.devKvm then .ok .kvm else .ok .tcg

def resolveSmp (h : Probe) (configured : Option Int) : Int := configured.getD h.cores

/-! ## The command line -/

inductive DiskFormat where
  | raw
  | qcow2
deriving DecidableEq, Repr

/-- the arguments of `build_qemu_argv` -/
structure Launch where
  qemuBin : String
  accel : ResolvedAccel
  kernel : Path
  rootfs : Path
  smp : Int
  memoryMib : Int
  hostAdbPort : Int
  diskFormat : DiskFormat := .raw
  diskCache : Option String := none
  monitorSocket : Option Path := none
  loadvm : Option String := none
deriving DecidableEq, Repr

def hostfwd (port : Int) : String := "hostfwd=tcp:127.0.0.1:" ++ toString port ++ "-"

def accelArgs : ResolvedAccel → List String
  | .kvm => ["-accel", "kvm", "-cpu", "host"]
  | .tcg => ["-accel", "tcg,thread=multi,tb-size=1024", "-cpu", "max"]

/-- the value of `-drive` -/
def driveValue (rootfs : String) (format : DiskFormat) (cache : Option String) : String :=
  let format := match format with
    | .raw => "raw"
    | .qcow2 => "qcow2"
  "file=" ++ rootfs ++ ",format=" ++ format ++ ",if=virtio" ++ (cache.map fun c => ",cache=" ++ c).getD ""

/-- the value of `-monitor` -/
def monitorValue (monitor : String) : String := "unix:" ++ monitor ++ ",server,nowait"

def buildQemuArgv (str : Path → String) (l : Launch) : List String :=
  [l.qemuBin, "-M", "q35"] ++ accelArgs l.accel ++
    ["-smp", toString l.smp, "-m", toString l.memoryMib, "-nographic", "-display", "none", "-no-reboot",
      "-kernel", str l.kernel, "-drive", driveValue (str l.rootfs) l.diskFormat l.diskCache,
      "-netdev", "user,id=net0," ++ hostfwd l.hostAdbPort ++ ":5555", "-device", "virtio-net-pci,netdev=net0"] ++
    ((l.monitorSocket.map fun m => ["-monitor", monitorValue (str m)]).getD []) ++
    ((l.loadvm.map fun tag => ["-loadvm", tag]).getD []) ++
    ["-append", "console=ttyS0 root=/dev/vda rw init=/init panic=1 mitigations=off"]

/-- the text occurs in the command line; no token searched for contains the NUL between the arguments -/
def names (token : String) (argv : List String) : Bool := argv.any fun arg => token.toList <:+: arg.toList

/-- the text checks of `_pid_is_qemu`; without a port (the config is gone) any QEMU will do -/
def namesUs (port : Option Int) (argv : List String) : Bool :=
  names "qemu-system" argv && match port with
    | some port => names (hostfwd port) argv
    | none => true

theorem names_of_mem {token arg : String} {argv : List String} (hm : arg ∈ argv) (h : token.toList <:+: arg.toList) :
    names token argv = true :=
  List.any_eq_true.2 ⟨arg, hm, decide_eq_true h⟩

/-- a QEMU whose binary is named `qemu-system…` is recognised under the port it forwards -/
theorem names_own (str : Path → String) (l : Launch) (h : names "qemu-system" [l.qemuBin] = true) :
    namesUs (some l.hostAdbPort) (buildQemuArgv str l) = true := by
  obtain ⟨arg, ha, hq⟩ := List.any_eq_true.1 h
  rw [List.mem_singleton] at ha
  subst ha
  have hbin : names "qemu-system" (buildQemuArgv str l) = true :=
    names_of_mem (by simp [buildQemuArgv]) (of_decide_eq_true hq)
  have hfwd : names (hostfwd l.hostAdbPort) (buildQemuArgv str l) = true := by
    have hmem : "user,id=net0," ++ hostfwd l.hostAdbPort ++ ":5555" ∈ buildQemuArgv str l := by simp [buildQemuArgv]
    refine names_of_mem hmem ?_
    rw [String.toList_append, String.toList_append]
    exact List.infix_append _ _ _
  simp only [namesUs, hbin, hfwd, Bool.and_self]

/-! ## The host -/

/-- what `base_identity` digests: base names with content hashes in sorted order, then geometry and accelerator. The final
SHA-256 is free of collisions, so the digest is its input. -/
structure Identity where
  files : List (String × String)
  smp : Int
  memoryMib : Int
  accel : ResolvedAccel
deriving DecidableEq, Repr

/-- a QEMU of this instance: its launch, the bytes of the kernel and of the configured rootfs at the launch, the overlay it
runs on, whether its host port was free, and whether `sys.boot_completed` was read as 1 from it -/
structure Guest (B : Type) where
  launch : Launch
  kernel : Option B
  rootfs : Option B
  disk : Option ℕ
  bound : Bool
  booted : Bool
deriving DecidableEq

/-- a live process; one that no `up` of this instance launched has no `guest` -/
structure Proc (B : Type) where
  argv : List String
  guest : Option (Guest B)
deriving DecidableEq

/-- the qcow2 overlay; `inode` tells a recreated file from the old one, `bytes` is what the backing file held at its creation,
and `snapshot` is the guest that was checkpointed -/
structure Overlay (B : Type) where
  inode : ℕ
  backing : Path
  bytes : Option B
  snapshot : Option (Guest B)
deriving DecidableEq

/-- an entry of the log of launches, with the overlay and the files as they were then -/
structure Launched (B : Type) where
  launch : Launch
  kernel : Option B
  rootfs : Option B
  overlay : Option (Overlay B)
  backing : Option B
deriving DecidableEq

structure Host (B : Type) where
  files : Dict Path B
  overlay : Option (Overlay B)
  key : Option Identity
  /-- the monitor socket: the file, with the process that made it -/
  monitor : Option ℕ
  pidfile : Option ℕ
  procs : Dict ℕ (Proc B)
  inode : ℕ
  launched : List (Launched B)
deriving DecidableEq

variable {B : Type}

/-- a new instance directory next to the given artifacts -/
def Host.new (files : Dict Path B) : Host B := ⟨files, none, none, none, none, ∅, 0, []⟩

/-- some processes exit -/
def Host.exit (s : Host B) (pids : List ℕ) : Host B := { s with procs := s.procs.filter fun pid _ => pid ∉ pids }

/-! ## Actions -/

/-- what the world decides about one action -/
structure Choice where
  /-- processes that exit before the action -/
  exits : List ℕ := []
  /-- the binary is on PATH -/
  found : Bool := true
  /-- the command, write or reply is good -/
  ok : Bool := true
  /-- the pidfile is written -/
  written : Bool := true
  /-- `savevm` wrote the checkpoint -/
  saved : Bool := true
  /-- the process id to hand out -/
  pid : ℕ := 1

inductive ImgResult where
  | created
  | notFound
  | failed

inductive Act where
  | fileExists (q : Path)
  | hashFile (q : Path)
  | unlinkMonitor
  | overlayExists
  | readKey
  | listSnapshots
  | unlinkOverlay
  | unlinkKey
  | imgCreate (base : Path)
  | replaceKey (id : Identity)
  | readPid
  | probe (pid : ℕ)
  | cmdline (pid : ℕ)
  | popen (argv : List String) (l : Launch) (base : Path)
  | writePid (pid : ℕ)
  | sigterm (pid : ℕ)
  | sigkill (pid : ℕ)
  | unlinkPid
  | whichAdb
  | adbConnect
  | bootCompleted (port : Int)
  | savevm

@[reducible] def Ans : Act → Type
  | .fileExists _ | .overlayExists | .listSnapshots | .replaceKey _ | .probe _ | .writePid _ | .sigterm _ | .whichAdb
  | .adbConnect | .bootCompleted _ | .savevm => Bool
  | .hashFile _ => Option String
  | .readKey => Option Identity
  | .imgCreate _ => ImgResult
  | .readPid | .popen _ _ _ => Option ℕ
  | .cmdline _ => Option (List String)
  | .unlinkMonitor | .unlinkOverlay | .unlinkKey | .sigkill _ | .unlinkPid => Unit

/-- the id the kernel hands out: the world's choice, unless a live process has it -/
def freshPid (procs : Dict ℕ (Proc B)) (pid : ℕ) : ℕ := if pid ∈ procs.keys then procs.keys.sum + 1 else pid

/-- a live guest already forwards the port -/
def portTaken (procs : Dict ℕ (Proc B)) (port : Int) : Bool :=
  procs.values.any fun proc => proc.guest.any fun g => g.bound && g.launch.hostAdbPort = port

/-- the log entry of a launch -/
def Host.launch (s : Host B) (l : Launch) (base : Path) : Launched B :=
  ⟨l, s.files.get? l.kernel, s.files.get? base, s.overlay, s.overlay.bind fun ov => s.files.get? ov.backing⟩

def Host.guest (s : Host B) (l : Launch) (base : Path) : Guest B where
  launch := l
  kernel := s.files.get? l.kernel
  rootfs := s.files.get? base
  disk := if l.diskFormat = .qcow2 then s.overlay.map (·.inode) else none
  bound := !portTaken s.procs l.hostAdbPort
  booted := false

/-- `Popen`: the new QEMU makes its monitor socket and then binds its host port; if that is taken it lives until it notices -/
def Host.spawn (s : Host B) (pid : ℕ) (argv : List String) (l : Launch) (base : Path) : Host B :=
  { s with
    launched := s.launched ++ [s.launch l base]
    procs := s.procs.set pid ⟨argv, some (s.guest l base)⟩
    monitor := if l.monitorSocket.isSome then some pid else s.monitor }

def Guest.bootedOn (port : Int) (g : Guest B) : Guest B :=
  if g.bound && g.launch.hostAdbPort = port then { g with booted := true } else g

/-- `sys.boot_completed` is read as 1 through a port: mark the guest behind it -/
def Host.booted (s : Host B) (port : Int) : Host B :=
  { s with procs := s.procs.mapVals fun proc => { proc with guest := proc.guest.map (·.bootedOn port) } }

/-- the guest that answers on the monitor socket -/
def Host.monitored (s : Host B) : Option (Guest B) :=
  s.monitor.bind fun pid => (s.procs.get? pid).bind fun proc => proc.guest.filter (·.bound)

/-- a checkpoint of the guest, written into the disk the guest runs on -/
def Overlay.checkpoint (ov : Overlay B) (g : Guest B) : Overlay B :=
  if g.disk = some ov.inode then { ov with snapshot := some g } else ov

/-- `savevm` over the monitor socket -/
def Host.save (s : Host B) : Host B :=
  match s.monitored with
  | none => s
  | some g => { s with overlay := s.overlay.map (·.checkpoint g) }

/-- `qemu-img create`: a new file, backed by the rootfs -/
def Host.create (s : Host B) (base : Path) : Host B :=
  { s with overlay := some ⟨s.inode, base, s.files.get? base, none⟩, inode := s.inode + 1 }

/-- what an action does -/
def act (sha256 : B → String) (c : Choice) (s : Host B) : (a : Act) → Ans a × Host B
  | .fileExists q => ((s.files.get? q).isSome, s)
  | .hashFile q => ((s.files.get? q).map sha256, s)
  | .unlinkMonitor => ((), { s with monitor := none })
  | .overlayExists => (s.overlay.isSome, s)
  | .readKey => (s.key, s)
  | .listSnapshots => (c.found && c.ok && (s.overlay.bind (·.snapshot)).isSome, s)
  | .unlinkOverlay => ((), { s with overlay := none })
  | .unlinkKey => ((), { s with key := none })
  | .imgCreate base =>
    if !c.found then (.notFound, s)
    else if !c.ok then (.failed, s)
    else (.created, s.create base)
  | .replaceKey id => if c.ok then (true, { s with key := some id }) else (false, s)
  | .readPid => (s.pidfile, s)
  | .probe pid => (decide (pid ∈ s.procs.keys), s)
  | .cmdline pid => ((s.procs.get? pid).map (·.argv), s)
  | .popen argv l base =>
    if c.ok then (some (freshPid s.procs c.pid), s.spawn (freshPid s.procs c.pid) argv l base) else (none, s)
  | .writePid pid => if c.written then (true, { s with pidfile := some pid }) else (false, s)
  | .sigterm pid => (decide (pid ∈ s.procs.keys), s)
  | .sigkill pid => ((), s.exit [pid])
  | .unlinkPid => ((), { s with pidfile := none })
  | .whichAdb => (c.found, s)
  | .adbConnect => (c.ok, s)
  | .bootCompleted port => if c.ok then (true, s.booted port) else (false, s)
  | .savevm => (c.ok && s.monitored.isSome, if c.saved then s.save else s)

/-- processes may exit, then the action takes place -/
def exec (sha256 : B → String) (c : Choice) (a : Act) (s : Host B) : Ans a × Host B := act sha256 c (s.exit c.exits) a

/-- the code of the vm backend -/
abbrev M := ExceptT VmError (Prog Act Ans)

def ask (a : Act) : M (Ans a) := Prog.ask a

/-! ## `QemuProcess` -/

def pidIsQemu (port : Option Int) (pid : ℕ) : M Bool := do
  match ← ask (.cmdline pid) with
  | none => return false
  | some argv => return namesUs port argv

def isRunning (port : Option Int) : M Bool := do
  match ← ask .readPid with
  | none => return false
  | some pid => if ← ask (.probe pid) then pidIsQemu port pid else return false

def start (port : Int) (argv : List String) (l : Launch) (base : Path) : M ℕ := do
  if ← isRunning (some port) then
    throw (.launch (.alreadyRunning (← ask .readPid)))
  match ← ask (.popen argv l base) with
  | none => throw (.launch .notSpawned)
  | some pid => if ← ask (.writePid pid) then return pid else throw .os

/-- `_escalate_if_alive`: `polls` looks fit into the grace window -/
def escalateIfAlive (port : Option Int) (pid : ℕ) : ℕ → M Unit
  | 0 => do if ← pidIsQemu port pid then ask (.sigkill pid)
  | polls + 1 => do if ← pidIsQemu port pid then escalateIfAlive port pid polls

/-- the first half of `terminate`: signal the recorded process if it looks like this instance's QEMU -/
def signalRecorded (polls : ℕ) (port : Option Int) : M Bool := do
  match ← ask .readPid with
  | none => return false
  | some pid =>
    if ← pidIsQemu port pid then
      if ← ask (.sigterm pid) then
        escalateIfAlive port pid polls
        return true
      else return false
    else return false

def terminate (polls : ℕ) (port : Option Int) : M Bool := do
  let signalled ← signalRecorded polls port
  ask .unlinkPid
  return signalled

/-! ## What the functions do -/

/-- some processes that may exit have exited, and nothing else has happened -/
def Fades (X : ℕ → Prop) (s t : Host B) : Prop := ∃ pids, (∀ q ∈ pids, X q) ∧ t = s.exit pids

/-- the files of the instance directory that the boot cache works with are the same, and nothing was launched -/
structure Same (s t : Host B) : Prop where
  files : t.files = s.files
  overlay : t.overlay = s.overlay
  key : t.key = s.key
  inode : t.inode = s.inode
  launched : t.launched = s.launched

/-- `is_running`: the pidfile names a live process that looks like this instance's QEMU -/
def Running (port : Option Int) (s : Host B) : Prop :=
  ∃ pid proc, s.pidfile = some pid ∧ s.procs.get? pid = some proc ∧ namesUs port proc.argv = true

/-- a launch is logged -/
def Host.logged (s : Host B) (l : Launch) (base : Path) : Host B := { s with launched := s.launched ++ [s.launch l base] }

/-- `start` has launched a QEMU and recorded it; processes may have exited on the way -/
def Started (X : ℕ → Prop) (port : Int) (argv : List String) (l : Launch) (base : Path) (s t : Host B) : Prop :=
  ∃ u pid pids, Fades X s u ∧ ¬ Running (some port) u ∧ pid ∉ u.procs.keys ∧
    t = { (u.spawn pid argv l base).exit pids with pidfile := some pid }

/-- `start` has launched a QEMU and failed to record it -/
def Unrecorded (X : ℕ → Prop) (port : Int) (argv : List String) (l : Launch) (base : Path) (s t : Host B) : Prop :=
  ∃ u pid pids, Fades X s u ∧ ¬ Running (some port) u ∧ pid ∉ u.procs.keys ∧ t = (u.spawn pid argv l base).exit pids

/-- `terminate`: the pidfile is gone, and no live process under the recorded id looks like this instance's QEMU -/
def Killed (port : Option Int) (s t : Host B) : Prop :=
  (∃ pids, t = { s.exit pids with pidfile := none }) ∧
    ∀ pid proc, s.pidfile = some pid → t.procs.get? pid = some proc → namesUs port proc.argv = false

section Specs

variable {sha256 : B → String} {P : Choice → Prop} {X : ℕ → Prop} {I : Host B → Prop} {s t u : Host B}

theorem get?_exit (s : Host B) (pids : List ℕ) (pid : ℕ) :
    (s.exit pids).procs.get? pid = if pid ∈ pids then none else s.procs.get? pid := by
  have hmem : ∀ proc, (s.exit pids).procs.get? pid = some proc ↔ s.procs.get? pid = some proc ∧ pid ∉ pids := by
    intro proc
    rw [Dict.get?_eq_some, Dict.get?_eq_some]
    simp [Host.exit, Dict.mem_filter]
  split_ifs with h
  · refine Option.eq_none_iff_forall_ne_some.2 fun proc hp => ?_
    exact ((hmem proc).1 hp).2 h
  · refine Option.ext fun proc => ?_
    rw [hmem proc]
    exact and_iff_left h

theorem get?_of_exit {pids : List ℕ} {pid : ℕ} {proc : Proc B} (h : (s.exit pids).procs.get? pid = some proc) :
    s.procs.get? pid = some proc := by
  rw [get?_exit] at h
  split_ifs at h
  exact h

theorem exit_exit (s : Host B) (pids qids : List ℕ) : (s.exit pids).exit qids = s.exit (pids ++ qids) := by
  have h : ((s.procs.filter fun pid _ => pid ∉ pids).filter fun pid _ => pid ∉ qids) =
      s.procs.filter fun pid _ => pid ∉ pids ++ qids := by
    refine Dict.ext ?_
    simp only [Dict.filter, List.filter_filter]
    congr 1
    funext e
    simp [Bool.and_comm]
  simp only [Host.exit, h]

theorem exit_nil (s : Host B) : s.exit [] = s := by
  have h : (s.procs.filter fun pid _ => pid ∉ ([] : List ℕ)) = s.procs := Dict.ext (by simp [Dict.filter])
  simp only [Host.exit, h]

theorem Fades.refl (X : ℕ → Prop) (s : Host B) : Fades X s s := ⟨[], by simp, (exit_nil s).symm⟩

theorem Fades.trans (h : Fades X s t) (h' : Fades X t u) : Fades X s u := by
  obtain ⟨pids, hp, rfl⟩ := h
  obtain ⟨qids, hq, rfl⟩ := h'
  refine ⟨pids ++ qids, fun q hm => ?_, exit_exit s pids qids⟩
  rcases List.mem_append.1 hm with hm | hm
  · exact hp q hm
  · exact hq q hm

theorem Fades.same (h : Fades X s t) : Same s t := by
  obtain ⟨pids, -, rfl⟩ := h
  exact ⟨rfl, rfl, rfl, rfl, rfl⟩

theorem Fades.pidfile (h : Fades X s t) : t.pidfile = s.pidfile := by
  obtain ⟨pids, -, rfl⟩ := h
  rfl

theorem Fades.monitor (h : Fades X s t) : t.monitor = s.monitor := by
  obtain ⟨pids, -, rfl⟩ := h
  rfl

theorem Same.trans (h : Same s t) (h' : Same t u) : Same s u :=
  ⟨h'.files.trans h.files, h'.overlay.trans h.overlay, h'.key.trans h.key, h'.inode.trans h.inode,
    h'.launched.trans h.launched⟩

theorem Same.refl (s : Host B) : Same s s := ⟨rfl, rfl, rfl, rfl, rfl⟩

theorem Same.exit (s : Host B) (pids : List ℕ) : Same s (s.exit pids) := ⟨rfl, rfl, rfl, rfl, rfl⟩

theorem spawn_same (s : Host B) (pid : ℕ) (argv : List String) (l : Launch) (base : Path) :
    Same (s.logged l base) (s.spawn pid argv l base) :=
  ⟨rfl, rfl, rfl, rfl, rfl⟩

/-- after a launch the new process lives, and the old ones -/
theorem mem_spawn {pid : ℕ} {argv : List String} {l : Launch} {base : Path} {e : ℕ × Proc B}
    (h : e ∈ (s.spawn pid argv l base).procs.entries) :
    e = (pid, ⟨argv, some (s.guest l base)⟩) ∨ e ∈ s.procs.entries := by
  rcases Dict.mem_set.1 h with rfl | ⟨h, -⟩
  · exact Or.inl rfl
  · exact Or.inr h

/-- the log entry depends on the files only -/
theorem Same.logged (h : Same s t) (l : Launch) (base : Path) : Same (s.logged l base) (t.logged l base) := by
  refine ⟨h.files, h.overlay, h.key, h.inode, ?_⟩
  simp only [Host.logged, Host.launch, h.launched, h.files, h.overlay]

theorem Started.same {port : Int} {argv : List String} {l : Launch} {base : Path} (h : Started X port argv l base s t) :
    Same (s.logged l base) t := by
  obtain ⟨u, pid, pids, hf, -, -, rfl⟩ := h
  have := (hf.same.logged l base).trans (spawn_same u pid argv l base)
  exact ⟨this.files, this.overlay, this.key, this.inode, this.launched⟩

theorem Started.fades {Y : ℕ → Prop} {port : Int} {argv : List String} {l : Launch} {base : Path}
    (h : Started X port argv l base s t) (hf : Fades Y t u) : Started X port argv l base s u := by
  obtain ⟨v, pid, pids, h1, h2, h3, rfl⟩ := h
  obtain ⟨qids, -, rfl⟩ := hf
  refine ⟨v, pid, pids ++ qids, h1, h2, h3, ?_⟩
  rw [← exit_exit]
  rfl

theorem Unrecorded.same {port : Int} {argv : List String} {l : Launch} {base : Path}
    (h : Unrecorded X port argv l base s t) : Same (s.logged l base) t := by
  obtain ⟨u, pid, pids, hf, -, -, rfl⟩ := h
  exact ((hf.same.logged l base).trans (spawn_same u pid argv l base)).trans (Same.exit _ pids)

theorem Killed.same {port : Option Int} (h : Killed port s t) : Same s t := by
  obtain ⟨⟨pids, rfl⟩, -⟩ := h
  exact ⟨rfl, rfl, rfl, rfl, rfl⟩

theorem freshPid_not_mem (procs : Dict ℕ (Proc B)) (pid : ℕ) : freshPid procs pid ∉ procs.keys := by
  unfold freshPid
  split_ifs with h
  · intro hm
    have := List.single_le_sum (fun _ _ => Nat.zero_le _) _ hm
    omega
  · exact h

theorem runs_ask {a : Act} {Q : Ans a → Host B → Prop} {E : VmError → Host B → Prop} (hI : I s)
    (h : ∀ c, P c → ∀ r t, exec sha256 c a s = (r, t) → I t ∧ Q r t) : Prog.Runs (exec sha256) P I (ask a) s Q E :=
  Prog.runs_ask hI h

theorem runs_act {α : Type} {a : Act} {f : Ans a → M α} {Q : α → Host B → Prop} {E : VmError → Host B → Prop} (hI : I s)
    (h : ∀ c, P c → ∀ r t, exec sha256 c a s = (r, t) → Prog.Runs (exec sha256) P I (f r) t Q E) :
    Prog.Runs (exec sha256) P I (ask a >>= f) s Q E :=
  Prog.runs_act hI h

variable (hP : ∀ c, P c → ∀ q ∈ c.exits, X q)

include hP

theorem fades_exit {c : Choice} (hc : P c) (s : Host B) : Fades X s (s.exit c.exits) := ⟨c.exits, hP c hc, rfl⟩

theorem runs_pidIsQemu (port : Option Int) (pid : ℕ) (hI : ∀ t, Same s t → I t) :
    Prog.Runs (exec sha256) P I (pidIsQemu port pid) s
      (fun r t => Fades X s t ∧ (r = true ↔ ∃ proc, t.procs.get? pid = some proc ∧ namesUs port proc.argv = true))
      fun _ _ => False := by
  refine runs_act (hI s (Same.refl s)) fun c hc r t h => ?_
  obtain ⟨hr, rfl⟩ := Prod.mk.inj h
  have hfade := fades_exit hP hc s
  cases r with
  | none =>
    refine Prog.runs_pure (hI _ hfade.same) ⟨hfade, ?_⟩
    rw [Option.map_eq_none_iff] at hr
    simp [hr]
  | some argv =>
    obtain ⟨proc, hproc, rfl⟩ := Option.map_eq_some_iff.1 hr
    refine Prog.runs_pure (hI _ hfade.same) ⟨hfade, ?_⟩
    simp [hproc]

theorem runs_isRunning (port : Option Int) (hI : ∀ t, Same s t → I t) :
    Prog.Runs (exec sha256) P I (isRunning port) s (fun r t => Fades X s t ∧ (r = true ↔ Running port t))
      fun _ _ => False := by
  refine runs_act (hI s (Same.refl s)) fun c hc r t h => ?_
  obtain ⟨hpid, rfl⟩ := Prod.mk.inj h
  have hfade := fades_exit hP hc s
  cases r with
  | none =>
    refine Prog.runs_pure (hI _ hfade.same) ⟨hfade, ?_⟩
    simp [Running, hpid]
  | some pid =>
    refine runs_act (hI _ hfade.same) fun c' hc' r t h' => ?_
    obtain ⟨hlive, rfl⟩ := Prod.mk.inj h'
    have hfade' := hfade.trans (fades_exit hP hc' _)
    cases r with
    | true =>
      refine (runs_pidIsQemu hP port pid fun t ht => hI t (hfade'.same.trans ht)).mono ?_ fun _ _ _ h => h
      rintro r t - ⟨hf, hr⟩
      have ht : t.pidfile = some pid := (hfade'.trans hf).pidfile.trans hpid
      refine ⟨hfade'.trans hf, hr.trans ⟨?_, ?_⟩⟩
      · rintro ⟨proc, h1, h2⟩
        exact ⟨pid, proc, ht, h1, h2⟩
      · rintro ⟨pid', proc, h0, h1, h2⟩
        rw [ht] at h0
        cases h0
        exact ⟨proc, h1, h2⟩
    | false =>
      refine Prog.runs_pure (hI _ hfade'.same) ⟨hfade', ?_⟩
      have hnone := Dict.get?_eq_none.2 (of_decide_eq_false hlive)
      have ht : ((s.exit c.exits).exit c'.exits).pidfile = some pid := hpid
      simp [Running, ht, hnone]

theorem runs_start (port : Int) (argv : List String) (l : Launch) (base : Path) (hI : ∀ t, Same s t → I t)
    (hL : ∀ t, Same (s.logged l base) t → I t) :
    Prog.Runs (exec sha256) P I (start port argv l base) s (fun _ t => Started X port argv l base s t)
      fun e t => (Fades X s t ∧ ∃ le, e = .launch le) ∨
        (Unrecorded X port argv l base s t ∧ ∃ c, P c ∧ c.written = false) := by
  refine Prog.runs_bind ((runs_isRunning hP (some port) hI).mono ?_ fun _ _ _ h => h.elim)
  rintro r u - ⟨hf, hr⟩
  have hu : ∀ t, Same u t → I t := fun t ht => hI t (hf.same.trans ht)
  cases r with
  | true =>
    refine runs_act (hI u hf.same) fun c hc r t h => ?_
    obtain ⟨-, rfl⟩ := Prod.mk.inj h
    exact Prog.runs_throw (hu _ (Same.exit u _)) (Or.inl ⟨hf.trans (fades_exit hP hc u), _, rfl⟩)
  | false =>
    refine runs_act (hI u hf.same) fun c hc r t h => ?_
    have hfade := hf.trans (fades_exit hP hc u)
    have hnot : ¬ Running (some port) (u.exit c.exits) := by
      rintro ⟨pid, proc, h1, h2, h3⟩
      exact absurd (hr.2 ⟨pid, proc, h1, get?_of_exit h2, h3⟩) (by simp)
    simp only [exec, act] at h
    split_ifs at h with hok
    · obtain ⟨rfl, rfl⟩ := Prod.mk.inj h
      have hfresh := freshPid_not_mem (u.exit c.exits).procs c.pid
      have hspawn : Same (s.logged l base) ((u.exit c.exits).spawn (freshPid (u.exit c.exits).procs c.pid) argv l base) :=
        (hfade.same.logged l base).trans (spawn_same _ _ _ _ _)
      refine runs_act (hL _ hspawn) fun c' hc' r t h' => ?_
      simp only [exec, act] at h'
      split_ifs at h' with hw
      · obtain ⟨rfl, rfl⟩ := Prod.mk.inj h'
        have hstarted : Started X port argv l base s _ := ⟨_, _, c'.exits, hfade, hnot, hfresh, rfl⟩
        exact Prog.runs_pure (hL _ hstarted.same) hstarted
      · obtain ⟨rfl, rfl⟩ := Prod.mk.inj h'
        have hlost : Unrecorded X port argv l base s _ := ⟨_, _, c'.exits, hfade, hnot, hfresh, rfl⟩
        exact Prog.runs_throw (hL _ hlost.same) (Or.inr ⟨hlost, c', hc', by simpa using hw⟩)
    · obtain ⟨rfl, rfl⟩ := Prod.mk.inj h
      exact Prog.runs_throw (hI _ hfade.same) (Or.inl ⟨hfade, _, rfl⟩)

/-- the escalation ends with the process gone: it exited, or it was killed -/
theorem runs_escalate (port : Option Int) (pid polls : ℕ) (hI : ∀ t, Same s t → I t) :
    Prog.Runs (exec sha256) P I (escalateIfAlive port pid polls) s
      (fun _ t => (∃ pids, t = s.exit pids) ∧ ∀ proc, t.procs.get? pid = some proc → namesUs port proc.argv = false)
      fun _ _ => False := by
  induction polls generalizing s with
  | zero =>
    refine Prog.runs_bind ((runs_pidIsQemu hP port pid hI).mono ?_ fun _ _ _ h => h)
    rintro r u hu ⟨⟨pids, hp, rfl⟩, hr⟩
    cases r with
    | true =>
      refine runs_ask hu fun c hc r t h => ?_
      obtain ⟨-, rfl⟩ := Prod.mk.inj h
      rw [exit_exit, exit_exit]
      refine ⟨hI _ (Same.exit s _), ⟨_, rfl⟩, fun proc hproc => ?_⟩
      rw [get?_exit, if_pos (by simp)] at hproc
      cases hproc
    | false =>
      refine Prog.runs_pure hu ⟨⟨pids, rfl⟩, fun proc hproc => ?_⟩
      by_contra hn
      exact absurd (hr.2 ⟨proc, hproc, by simpa using hn⟩) (by simp)
  | succ polls ih =>
    refine Prog.runs_bind ((runs_pidIsQemu hP port pid hI).mono ?_ fun _ _ _ h => h)
    rintro r u hu ⟨⟨pids, hp, rfl⟩, hr⟩
    cases r with
    | true =>
      refine (ih fun t ht => hI t ((Same.exit s pids).trans ht)).mono ?_ fun _ _ _ h => h
      rintro - t - ⟨⟨qids, rfl⟩, hgone⟩
      exact ⟨⟨_, exit_exit s pids qids⟩, hgone⟩
    | false =>
      refine Prog.runs_pure hu ⟨⟨pids, rfl⟩, fun proc hproc => ?_⟩
      by_contra hn
      exact absurd (hr.2 ⟨proc, hproc, by simpa using hn⟩) (by simp)

theorem runs_signalRecorded (port : Option Int) (polls : ℕ) (hI : ∀ t, Same s t → I t) :
    Prog.Runs (exec sha256) P I (signalRecorded polls port) s
      (fun _ t => (∃ pids, t = s.exit pids) ∧
        ∀ pid proc, s.pidfile = some pid → t.procs.get? pid = some proc → namesUs port proc.argv = false)
      fun _ _ => False := by
  refine runs_act (hI s (Same.refl s)) fun c hc r t h => ?_
  obtain ⟨hpid, rfl⟩ := Prod.mk.inj h
  have hpid : s.pidfile = r := hpid
  cases r with
  | none =>
    refine Prog.runs_pure (hI _ (Same.exit s _)) ⟨⟨_, rfl⟩, fun pid proc h0 => ?_⟩
    rw [hpid] at h0
    cases h0
  | some pid =>
    refine Prog.runs_bind ((runs_pidIsQemu hP port pid fun t ht => hI t ((Same.exit s _).trans ht)).mono ?_ fun _ _ _ h => h)
    rintro r u hu ⟨⟨pids, -, rfl⟩, hr⟩
    rw [exit_exit] at hu hr ⊢
    cases r with
    | true =>
      refine runs_act hu fun c' hc' r t h' => ?_
      obtain ⟨hlive, rfl⟩ := Prod.mk.inj h'
      cases r with
      | true =>
        refine Prog.runs_bind ((runs_escalate hP port pid polls
          fun t ht => hI t ((Same.exit s _).trans ((Same.exit _ _).trans ht))).mono ?_ fun _ _ _ h => h)
        rintro - t ht ⟨⟨qids, rfl⟩, hgone⟩
        rw [exit_exit, exit_exit] at ht hgone ⊢
        refine Prog.runs_pure ht ⟨⟨_, rfl⟩, fun pid' proc h0 => ?_⟩
        rw [hpid] at h0
        cases h0
        exact hgone proc
      | false =>
        rw [exit_exit] at hlive ⊢
        refine Prog.runs_pure (hI _ (Same.exit s _)) ⟨⟨_, rfl⟩, fun pid' proc h0 hproc => ?_⟩
        rw [hpid] at h0
        cases h0
        rw [Dict.get?_eq_none.2 (of_decide_eq_false hlive)] at hproc
        cases hproc
    | false =>
      refine Prog.runs_pure hu ⟨⟨_, rfl⟩, fun pid' proc h0 hproc => ?_⟩
      rw [hpid] at h0
      cases h0
      by_contra hn
      exact absurd (hr.2 ⟨proc, hproc, by simpa using hn⟩) (by simp)

theorem runs_terminate (port : Option Int) (polls : ℕ) (hI : ∀ t, Same s t → I t) :
    Prog.Runs (exec sha256) P I (terminate polls port) s (fun _ t => Killed port s t) fun _ _ => False := by
  refine Prog.runs_bind ((runs_signalRecorded hP port polls hI).mono ?_ fun _ _ _ h => h)
  rintro signalled u hu ⟨⟨pids, rfl⟩, hgone⟩
  refine runs_act hu fun c hc r t h => ?_
  obtain ⟨-, rfl⟩ := Prod.mk.inj h
  rw [exit_exit]
  refine Prog.runs_pure (hI _ ⟨rfl, rfl, rfl, rfl, rfl⟩) ⟨⟨_, rfl⟩, fun pid proc h0 hproc => hgone pid proc h0 ?_⟩
  have hproc' : (s.exit (pids ++ c.exits)).procs.get? pid = some proc := hproc
  rw [← exit_exit] at hproc'
  exact get?_of_exit hproc'

end Specs

end Beetroot.Vm
