/-
The init of the micro-VM guest: `templates/vm/guest-init.sh`, as a program of commands, and the machine that it runs on.

The machine's disk outlives a boot: the marker with the image that was baked, the images that docker has, the container of the last
boot and the directories that are mounted as its `/data`. A boot may be cut anywhere. A command answers as the world chooses, time
passes and Android writes to its `/data` while it runs, and the container may die. `poweroff -f` does not return.

What is printed is an action, since the fall-back to an image of another Android has to be heard.
-/
import Beetroot.Boot.Scripts
import Beetroot.Lib.Poll
import Mathlib.Logic.Function.Basic

namespace Beetroot.Vm.GuestInit

open Lib Lib.Prog Lib.Script Lib.Shell Beetroot.Boot

/-! ## The environment -/

/-- the timeouts are numbers -/
structure GuestEnv where
  vars : String → Option String
  containerdTimeout : ℕ
  dockerdTimeout : ℕ
  bootTimeout : ℕ
  containerdIs : fallback (vars "CONTAINERD_TIMEOUT") "180" = toString containerdTimeout
  dockerdIs : fallback (vars "DOCKERD_TIMEOUT") "180" = toString dockerdTimeout
  bootIs : fallback (vars "BOOT_TIMEOUT") "900" = toString bootTimeout

def GuestEnv.dataDir (env : GuestEnv) : String := fallback (env.vars "BEETROOT_GUEST_DATA_DIR") "/var/lib/redroid-data"

def bakedImageFile : String := "/etc/beetroot/redroid-image"

def legacyFallbackImage : String := "redroid/redroid:11.0.0-latest"

def adbTcpPort : ℕ := 5555

def containerdSock : String := "/run/containerd/containerd.sock"

/-! ## Commands -/

inductive GuestCmd where
  | log (line : String)
  | sleep (secs : ℕ)
  /-- `[ -s "$_BAKED_IMAGE_FILE" ]` -/
  | hasMarker
  | readMarker
  | mount (fstype target : String)
  | mkdir (dir : String)
  | ip (args : List String)
  /-- `ip -o link | awk ..` -/
  | firstLink
  /-- `ip -o addr show dev .. | grep -q 10.0.2.15` -/
  | hasAddress (link : String)
  | containerd
  | isSocket (path : String)
  /-- `date +%s` -/
  | date
  | dockerd
  | dockerVersion
  | removeContainer
  | dockerRun (dataDir image : String)
  | inspectStatus
  | containerLogs
  /-- `docker exec redroid getprop sys.boot_completed | grep -q 1` -/
  | bootCompleted
  | uptime
  | dockerExec (args : List String)
  | inspectPid
  | writeInner (pid : List Char)
  | chmodInner
  | relay
  | listeners
  | canProbe
  | adbprobe
  | relayLog
deriving DecidableEq

/-- the commands that open the way to adbd -/
def GuestCmd.opensAdb : GuestCmd → Bool
  | .dockerExec _ | .inspectPid | .writeInner _ | .chmodInner | .relay | .listeners | .canProbe | .adbprobe | .relayLog => true
  | _ => false

def GuestCmd.isRun : GuestCmd → Bool
  | .dockerRun _ _ => true
  | _ => false

structure Printed where
  text : List Char := []
  number : ℕ := 0

/-- what `die` is called for; `spinning` is a loop that runs out of fuel -/
inductive Fatal where
  | binderfs
  | containerd
  | dockerd
  | dockerRun
  | notRunning (state : List Char)
  | boot
  | spinning
deriving DecidableEq

def Fatal.message (env : GuestEnv) : Fatal → String
  | .binderfs => "binderfs mount failed"
  | .containerd => "containerd socket " ++ containerdSock ++ " did not appear in " ++ toString env.containerdTimeout ++ "s"
  | .dockerd => "dockerd did not become ready in " ++ toString env.dockerdTimeout ++ "s"
  | .dockerRun => "docker run failed"
  | .notRunning state => "redroid container is '" ++ String.ofList state ++ "', not running"
  | .boot => "boot did not complete in " ++ toString env.bootTimeout ++ "s"
  | .spinning => ""

abbrev GuestShell := Sh GuestCmd Printed Fatal

/-! ## The script -/

def log (line : String) : GuestShell Unit := attempt (.log ("[guest-init] " ++ line))

def die {α : Type} (env : GuestEnv) (reason : Fatal) : GuestShell α := do
  log ("FATAL: " ++ reason.message env)
  attempt (.sleep 3)
  leave reason

def fallbackWarning : String :=
  "WARN: no usable baked-image marker at " ++ bakedImageFile ++ " (missing or empty); falling back to " ++ legacyFallbackImage ++
    ". The rootfs may be stale or mis-built — a freshly-built rootfs always carries this marker, so if this is one, that is a bug" ++
    " (issue #97)."

def fallBack : GuestShell String := do
  log fallbackWarning
  pure legacyFallbackImage

def useMarker : GuestShell String := do
  let printed ← output .readMarker
  if captured printed.text = [] then fallBack
  else do
    log ("using baked redroid image from " ++ bakedImageFile ++ ": " ++ String.ofList (captured printed.text))
    pure (String.ofList (captured printed.text))

def resolveRedroidImage (env : GuestEnv) : GuestShell String :=
  if fallback (env.vars "REDROID_IMAGE") "" = "" then ifOk .hasMarker useMarker fallBack
  else do
    log ("using REDROID_IMAGE override: " ++ fallback (env.vars "REDROID_IMAGE") "")
    pure (fallback (env.vars "REDROID_IMAGE") "")

def linkName (text : List Char) : String := if captured text = [] then "eth0" else String.ofList (captured text)

def bringUpEth0 : GuestShell Unit := do
  let printed ← output .firstLink
  log ("bringing up " ++ linkName printed.text ++ " (static 10.0.2.15/24 for QEMU user-net hostfwd)")
  attempt (.ip ["link", "set", linkName printed.text, "up"])
  attempt (.ip ["addr", "add", "10.0.2.15/24", "dev", linkName printed.text])
  attempt (.ip ["route", "add", "default", "via", "10.0.2.2", "dev", linkName printed.text])
  ifOk (.hasAddress (linkName printed.text)) (pure ())
    (log ("WARN: " ++ linkName printed.text ++ " has no 10.0.2.15 address after bring-up; the QEMU user-net hostfwd target is" ++
      " unreachable and host adb will time out (issue #238)"))

/-- only binderfs is needed -/
def mountPseudoFilesystems (env : GuestEnv) : GuestShell Unit := do
  log "mounting pseudo-filesystems"
  attempt (.mount "proc" "/proc")
  attempt (.mount "sysfs" "/sys")
  attempt (.mount "devtmpfs" "/dev")
  attempt (.mkdir "/dev/pts")
  attempt (.mkdir "/dev/shm")
  attempt (.mount "devpts" "/dev/pts")
  attempt (.mount "tmpfs" "/dev/shm")
  attempt (.mount "tmpfs" "/run")
  attempt (.mount "tmpfs" "/var/run")
  attempt (.mount "cgroup2" "/sys/fs/cgroup")
  attempt (.mkdir "/dev/binderfs")
  ifOk (.mount "binder" "/dev/binderfs") (pure ()) (die env .binderfs)
  attempt (.ip ["link", "set", "lo", "up"])
  bringUpEth0

def date : GuestShell ℕ := do
  let printed ← output .date
  pure printed.number

/-- one round of a wait for a command to succeed -/
def once (cmd : GuestCmd) : GuestShell (Option Unit) := ifOk cmd (pure (some ())) (pure none)

def waitFor (cmd : GuestCmd) (timeout : ℕ) : GuestShell (Option Unit) := do
  let now ← date
  poll (once cmd) date (attempt (.sleep 1)) (.exit .spinning) (now + timeout) (timeout + 1)

def waitForSocket (path : String) (timeout : ℕ) : GuestShell (Option Unit) := waitFor (.isSocket path) timeout

def orDie (env : GuestEnv) (reason : Fatal) : Option Unit → GuestShell Unit
  | some _ => pure ()
  | none => die env reason

def startContainerd (env : GuestEnv) : GuestShell Unit := do
  log "starting containerd (standalone)"
  attempt .containerd
  let up ← waitForSocket containerdSock env.containerdTimeout
  orDie env .containerd up

def startDockerd (env : GuestEnv) : GuestShell Unit := do
  log "starting dockerd"
  attempt .dockerd
  let up ← waitFor .dockerVersion env.dockerdTimeout
  orDie env .dockerd up

def runRedroid (env : GuestEnv) (image : String) : GuestShell Unit := do
  attempt .removeContainer
  attempt (.mkdir env.dataDir)
  log ("running " ++ image ++ " (--network none, /data persisted at " ++ env.dataDir ++ ")")
  ifOk (.dockerRun env.dataDir image) (pure ()) (die env .dockerRun)

/-- `$(docker inspect .. || echo missing)` -/
def containerState : GuestShell (List Char) := do
  let r ← ask .inspectStatus
  if r.ok then pure (captured r.out.text) else pure (captured (r.out.text ++ "missing\n".toList))

def notRunning (env : GuestEnv) (state : List Char) : GuestShell (Option Unit) := do
  attempt .containerLogs
  die env (.notRunning state)

def bootRound (env : GuestEnv) : GuestShell (Option Unit) := do
  let state ← containerState
  if state = "running".toList then once .bootCompleted else notRunning env state

def bootLine (start now : ℕ) : String :=
  "sys.boot_completed=1 — redroid is up (boot_seconds=" ++ toString ((now : ℤ) - start) ++ ")"

def booted (env : GuestEnv) (start : ℕ) : Option Unit → GuestShell Unit
  | some _ => do
    let now ← output .uptime
    log (bootLine start now.number)
  | none => die env .boot

def waitForBoot (env : GuestEnv) : GuestShell Unit := do
  log "waiting for sys.boot_completed=1 (slow under TCG; not a hang)"
  let now ← date
  let start ← output .uptime
  let up ← poll (bootRound env) date (attempt (.sleep 2)) (.exit .spinning) (now + env.bootTimeout) (env.bootTimeout + 1)
  booted env start.number up

def enableAdbTcp : GuestShell Unit := do
  log ("enabling adbd TCP on :" ++ toString adbTcpPort ++ " inside redroid")
  ifOk (.dockerExec ["sysctl", "-w", "net.ipv6.bindv6only=0"]) (pure ())
    (log ("WARN: could not set net.ipv6.bindv6only=0 in redroid; relay targets TCP6:[::1] so this is non-fatal (issue #238)"))
  attempt (.dockerExec ["setprop", "service.adb.tcp.port", toString adbTcpPort])
  attempt (.dockerExec ["stop", "adbd"])
  attempt (.sleep 1)
  attempt (.dockerExec ["start", "adbd"])
  attempt (.sleep 4)

def probeRelay : GuestShell Unit := do
  let printed ← output .adbprobe
  if "first4=CNXN".toList <:+: captured printed.text then
    log ("ADB_RELAY_OK: self-probe through relay got adbd CNXN (" ++ String.ofList (captured printed.text) ++ ")")
  else do
    log ("ADB_RELAY_WARN: self-probe through relay: " ++ String.ofList (captured printed.text) ++ "; see /var/log/adb-relay.log")
    attempt .relayLog

def verifyAdbRelay : GuestShell Unit := do
  let printed ← output .listeners
  log ("guest listeners: " ++ String.ofList (captured printed.text))
  ifOk .canProbe probeRelay (pure ())

/-- without a pid nothing listens, and the guest idles all the same -/
def startAdbRelay : GuestShell Unit := do
  let printed ← output .inspectPid
  if captured printed.text = [] then log "WARN: could not resolve redroid pid; ADB relay not started"
  else do
    log ("starting ADB relay: guest :" ++ toString adbTcpPort ++ " -> nsenter(redroid netns, pid " ++
      String.ofList (captured printed.text) ++ ") -> adbd")
    attempt (.mkdir "/run")
    attempt (.writeInner (captured printed.text))
    attempt .chmodInner
    attempt .relay
    attempt (.sleep 2)
    verifyAdbRelay

/-- `main`, up to the loop in which it idles -/
def main (env : GuestEnv) : GuestShell Unit := do
  let image ← resolveRedroidImage env
  mountPseudoFilesystems env
  startContainerd env
  startDockerd env
  runRedroid env image
  waitForBoot env
  enableAdbTcp
  startAdbRelay
  log "guest ready; idling as PID 1"

/-! ## The machine -/

structure Container where
  image : String
  dataDir : String
  running : Bool
deriving DecidableEq

structure Machine (D : Type) where
  marker : Option (List Char)
  images : List String
  container : Option Container
  /-- the directories that can be mounted as `/data` -/
  data : String → D
  clock : ℕ
  listening : Bool

/-- a cut of the power; no container is restarted by docker -/
def powerOn {D : Type} (m : Machine D) : Machine D :=
  { m with container := m.container.map fun k => { k with running := false }, listening := false }

/-- the world's choice at a step -/
structure Turn (D : Type) where
  ok : Bool
  printed : List Char
  seconds : ℕ
  /-- what Android does to its `/data` meanwhile -/
  writes : D → D
  dies : Bool

variable {D : Type}

/-- time passes, and the container goes on -/
def Machine.pass (m : Machine D) (turn : Turn D) : Machine D :=
  match m.container with
  | some ⟨image, dataDir, true⟩ =>
    { m with clock := m.clock + turn.seconds, container := some ⟨image, dataDir, !turn.dies⟩,
             data := Function.update m.data dataDir (turn.writes (m.data dataDir)) }
  | _ => { m with clock := m.clock + turn.seconds }

def Machine.isRunning (m : Machine D) : Bool := (m.container.map Container.running).getD false

/-- `docker run`. The name is taken while a container has it, an image that is not there is pulled if that is possible, and a
container that does not start stays behind. -/
def Machine.start (m : Machine D) (turn : Turn D) (dataDir image : String) : Bool × Machine D :=
  match m.container with
  | some _ => (false, m)
  | none =>
    if turn.ok then
      (true, { m with container := some ⟨image, dataDir, true⟩, images := if image ∈ m.images then m.images else image :: m.images })
    else (false, { m with container := if turn.dies then some ⟨image, dataDir, false⟩ else none })

def perform (turn : Turn D) (cmd : GuestCmd) (m : Machine D) : Answer Printed × Machine D :=
  match cmd with
  | .log _ => (⟨true, {}⟩, m)
  | .sleep secs => (⟨true, {}⟩, { m with clock := m.clock + secs })
  | .hasMarker => (⟨(m.marker.getD []) ≠ [], {}⟩, m)
  | .readMarker => (⟨m.marker.isSome, ⟨m.marker.getD [], 0⟩⟩, m)
  | .date => (⟨true, ⟨[], m.clock⟩⟩, m)
  | .uptime => (⟨true, ⟨[], m.clock⟩⟩, m)
  | .removeContainer => if turn.ok then (⟨true, {}⟩, { m with container := none }) else (⟨false, {}⟩, m)
  | .dockerRun dataDir image =>
    match m.start turn dataDir image with
    | (ok, t) => (⟨ok, {}⟩, t)
  | .inspectStatus =>
    match m.container with
    | some k => (⟨turn.ok, ⟨if turn.ok then (if k.running then "running\n".toList else "exited\n".toList) else turn.printed, 0⟩⟩, m)
    | none => (⟨false, ⟨turn.printed, 0⟩⟩, m)
  | .bootCompleted => (⟨turn.ok && m.isRunning, {}⟩, m)
  | .dockerExec _ => (⟨turn.ok && m.isRunning, {}⟩, m)
  | .relay => (⟨true, {}⟩, { m with listening := true })
  | _ => (⟨turn.ok, ⟨turn.printed, 0⟩⟩, m)

def exec (turn : Turn D) (cmd : GuestCmd) (m : Machine D) : Answer Printed × Machine D := perform turn cmd (m.pass turn)

end Beetroot.Vm.GuestInit
