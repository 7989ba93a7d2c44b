/-
The assembly of the guest's rootfs: `_RootfsAssembly.build`, as a program of file operations and commands.

The scratch directory is a file tree. An entry has contents, or is a symbolic link to a name beside it; a data root of docker, and
an archive that `docker save` writes, are the images in it. `shutil.copy`, `chmod` and `write_text` go through a link. The host's
files, the digest and the format of the docker bundle are parameters.

What becomes of an action is a `Verdict`: it succeeds, is refused, or is interrupted; in the last two cases it may leave anything in
the file that it was writing. An interrupt can come when the daemon has been spawned but the build does not know it yet, and when it
is being stopped.

Results:
- `exec_edit`: what an action can do to the scratch directory;
- `all_stageIptables`, `all_stageSocat` and so on: the directories in which the steps of the build write.
-/
import Beetroot.Build.Marker
import Beetroot.Lib.Prog
import Beetroot.Lib.Fs

namespace Beetroot.Build.Rootfs

open Lib Lib.Prog Lib.Fs

/-! ## Files -/

inductive Body (B : Type) where
  | blob (b : B)
  | text (t : List Char)
  | link (target : String)
  | images (l : List String)
deriving DecidableEq

structure File (B : Type) where
  body : Body B
  executable : Bool
deriving DecidableEq

def File.isLink {B : Type} (f : File B) : Bool :=
  match f.body with
  | .link _ => true
  | _ => false

/-- the knobs of one build -/
structure RootfsConfig where
  vmDir : String
  imageSizeMb : Int
  dockerUrl : String
  dockerUrlSha256 : Option String
  redroidImage : String
  redroidTar : Option String
  adbprobeBin : Option String
  busyboxBin : String
  xtablesMulti : String
  socatBin : String
  ldLinux : String

inductive Act where
  | curl (url : String)
  /-- `self.tgz.read_bytes()` -/
  | readBundle
  | untar
  | mkdir (p : Path)
  /-- `shutil.copy` of a file of the host -/
  | copyIn (src : String) (dst : Path)
  | copyWork (src dst : Path)
  | chmod (p : Path)
  /-- `busybox --list` -/
  | applets (busybox : String)
  | unlink (p : Path)
  | symlink (target : String) (p : Path)
  | ldd (binary : String)
  /-- `os.access(.., os.X_OK)` -/
  | canExecute (src : String)
  | isHostFile (src : String)
  /-- `shutil.which("cc")` -/
  | hasCc
  | cc (dst : Path) (src : String)
  | pull (image : String)
  | save (image : String)
  | spawn
  | info
  /-- `none` is the archive that has been saved -/
  | load (tar : Option String)
  | stop
  | sleep
  /-- `cp -a` of the data root -/
  | copyDataRoot
  | writeText (p : Path) (text : List Char)
  | isFile (p : Path)
  | readText (p : Path)
  /-- the marker beside the image -/
  | writeMarker (text : List Char)
  | mke2fs (sizeMb : Int)
deriving DecidableEq

inductive Err where
  /-- a command that fails, a `BootstrapError` -/
  | command
  | os
  | interrupt
  /-- the other `BootstrapError`s -/
  | digestMismatch (expected actual : String)
  | notReady
  | noGuestMarker
  | noMajor (image : String)
deriving DecidableEq, Repr

def Err.isBootstrap : Err → Bool
  | .os | .interrupt => false
  | _ => true

variable {B : Type}

/-- what an action gives back -/
@[reducible] def Ret (B : Type) : Act → Type
  | .readBundle => B
  | .applets _ | .ldd _ | .readText _ => List Char
  | .canExecute _ | .isHostFile _ | .hasCc | .info | .isFile _ => Bool
  | _ => Unit

@[reducible] def Reply (B : Type) (a : Act) : Type := Except Err (Ret B a)

abbrev Bake (B : Type) := ExceptT Err (Prog Act (Reply B))

/-- perform an action, and raise what it raises -/
def call (a : Act) : Bake B (Ret B a) := do
  let r ← ask a
  match r with
  | .ok x => pure x
  | .error e => throw e

/-! ## The steps -/

def docker : Path := ["docker", "docker"]

def root : Path := ["root"]

def rootfsDirs : List Path :=
  [["bin"], ["sbin"], ["proc"], ["sys"], ["dev"], ["run"], ["var", "run"], ["var", "log"], ["var", "lib"],
    ["sys", "fs", "cgroup"], ["dev", "binderfs"], ["etc"], ["tmp"], ["usr", "sbin"], ["usr", "bin"],
    ["lib", "x86_64-linux-gnu"], ["lib64"], ["usr", "lib", "x86_64-linux-gnu"]]

def dockerStaticBins : List String :=
  ["dockerd", "containerd", "containerd-shim-runc-v2", "runc", "docker", "ctr", "docker-proxy", "docker-init"]

def iptablesLinks : List String :=
  ["iptables", "iptables-save", "iptables-restore", "ip6tables", "ip6tables-save", "ip6tables-restore"]

def guestLibDir : Path := ["root", "lib", "x86_64-linux-gnu"]

def guestMarker : Path := ["root", "etc", "beetroot", "redroid-image"]

def forEach {α : Type} (f : α → Bake B Unit) : List α → Bake B Unit
  | [] => pure ()
  | x :: xs => do
    f x
    forEach f xs

/-- `try: body finally: cleanup` -/
def tryFinally (body cleanup : Bake B Unit) : Bake B Unit := do
  let r ← tryCatch (body >>= fun _ => pure none) fun e => pure (some e)
  cleanup
  match r with
  | none => pure ()
  | some e => throw e

def symlink (target : String) (p : Path) : Bake B Unit := do
  call (.unlink p)
  call (.symlink target p)

def lastSegment (src : String) : String := String.ofList ((src.toList.splitOn '/').getLastD [])

/-- `_copy_lib_file`, which ignores an `OSError` -/
def copyLibFile (src : String) (destDir : Path) : Bake B Unit :=
  tryCatch (call (.copyIn src destDir)) fun e => if e = .os then pure () else throw e

/-- the path in a line of `ldd` -/
def lddPath (line : List Char) : Option String :=
  match Str.fields line with
  | _ :: _ :: path :: _ => if path.head? = some '/' then some (String.ofList path) else none
  | _ => none

def copyLib (line : List Char) : Bake B Unit :=
  match lddPath line with
  | some path => copyLibFile path guestLibDir
  | none => pure ()

def copyLibs (binary : String) : Bake B Unit := do
  let out ← call (.ldd binary)
  forEach copyLib (Str.splitLines [] out)

def stageApplet (applet : List Char) : Bake B Unit :=
  if applet = "busybox".toList then pure ()
  else symlink "busybox" ["root", "bin", String.ofList applet]

def stageBusybox (cfg : RootfsConfig) : Bake B Unit := do
  call (.copyIn cfg.busyboxBin ["root", "bin", "busybox"])
  call (.chmod ["root", "bin", "busybox"])
  let list ← call (.applets cfg.busyboxBin)
  forEach stageApplet (Str.fields list)

def stageDockerBinary (name : String) : Bake B Unit := do
  call (.copyWork (docker ++ [name]) ["root", "bin", name])
  call (.chmod ["root", "bin", name])

def stageDockerBinaries : Bake B Unit := forEach stageDockerBinary dockerStaticBins

def stageIptablesLink (name : String) : Bake B Unit := do
  symlink "xtables-legacy-multi" ["root", "usr", "sbin", name]
  symlink "xtables-legacy-multi" ["root", "usr", "sbin", name ++ "-legacy"]

def stageIptables (cfg : RootfsConfig) : Bake B Unit := do
  call (.copyIn cfg.xtablesMulti ["root", "usr", "sbin", "xtables-legacy-multi"])
  forEach stageIptablesLink iptablesLinks
  copyLibs cfg.xtablesMulti
  copyLibFile cfg.ldLinux ["root", "lib64"]

def stageSocat (cfg : RootfsConfig) : Bake B Unit := do
  call (.copyIn cfg.socatBin ["root", "bin", "socat"])
  call (.chmod ["root", "bin", "socat"])
  copyLibs cfg.socatBin

def adbprobe : Path := ["root", "usr", "bin", "adbprobe"]

/-- a failing `cc` is not fatal, the `chmod` behind it is -/
def compileAdbprobe (source : String) : Bake B Unit := do
  let built ← tryCatch (call (.cc adbprobe source) >>= fun _ => pure true)
    fun e => if e.isBootstrap then pure false else throw e
  if built then call (.chmod adbprobe) else pure ()

def findCc (file : Bool) : Bake B Bool := if file then call .hasCc else pure false

def buildAdbprobe (source : String) : Bake B Unit := do
  let file ← call (.isHostFile source)
  let cc ← findCc file
  if cc then compileAdbprobe source else pure ()

def copyAdbprobe (prebuilt : String) : Bake B Unit := do
  call (.copyIn prebuilt adbprobe)
  call (.chmod adbprobe)

def stageAdbprobe (cfg : RootfsConfig) : Bake B Unit :=
  match cfg.adbprobeBin with
  | none => buildAdbprobe (cfg.vmDir ++ "/adbprobe.c")
  | some prebuilt => do
    let usable ← call (.canExecute prebuilt)
    if usable then copyAdbprobe prebuilt else buildAdbprobe (cfg.vmDir ++ "/adbprobe.c")

/-- `_wait_docker_ready`, with the attempts that are left -/
def waitDockerReady : ℕ → Bake B Unit
  | 0 => throw .notReady
  | left + 1 => do
    let ready ← call .info
    if ready then pure ()
    else do
      call .sleep
      waitDockerReady left

def dockerdReadyAttempts : ℕ := 60

/-- the archive that is loaded -/
def obtainTar (cfg : RootfsConfig) : Bake B Unit :=
  match cfg.redroidTar with
  | some _ => pure ()
  | none => do
    call (.pull cfg.redroidImage)
    call (.save cfg.redroidImage)

def loadImage (cfg : RootfsConfig) : Bake B Unit := do
  waitDockerReady dockerdReadyAttempts
  call (.load cfg.redroidTar)

def stageDockerRoot (cfg : RootfsConfig) : Bake B Unit := do
  call (.mkdir ["dockerroot"])
  obtainTar cfg
  call .spawn
  tryFinally (loadImage cfg) (call .stop)
  call .sleep

/-- `_verify_static_bundle_digest` -/
def verifyStaticBundleDigest (digest : B → String) (cfg : RootfsConfig) : Bake B Unit :=
  match cfg.dockerUrlSha256 with
  | none => pure ()
  | some expected => do
    let b ← call .readBundle
    if digest b = expected then pure () else throw (.digestMismatch expected (digest b))

def fetchStaticBundle (digest : B → String) (cfg : RootfsConfig) : Bake B Unit := do
  call (.curl cfg.dockerUrl)
  verifyStaticBundleDigest digest cfg
  call (.mkdir ["docker"])
  call .untar

def makeDirs : Bake B Unit := do
  forEach (fun dir => call (.mkdir (root ++ dir))) rootfsDirs
  call (.chmod ["root", "tmp"])

def recordImage (cfg : RootfsConfig) : Bake B Unit := do
  call (.mkdir ["root", "etc", "beetroot"])
  call (.writeText guestMarker (cfg.redroidImage.toList ++ ['\n']))

def installInit (cfg : RootfsConfig) : Bake B Unit := do
  call (.copyIn (cfg.vmDir ++ "/guest-init.sh") ["root", "init"])
  call (.chmod ["root", "init"])

def buildTree (cfg : RootfsConfig) : Bake B Unit := do
  makeDirs
  stageBusybox cfg
  stageDockerBinaries
  stageIptables cfg
  stageSocat cfg
  stageAdbprobe cfg
  stageDockerRoot cfg
  call .copyDataRoot
  recordImage cfg
  installInit cfg

/-- a marker that is no file counts as an empty one -/
def readMarker (file : Bool) : Bake B (List Char) := if file then call (.readText guestMarker) else pure []

def verifyGuestImageMarker : Bake B Unit := do
  let file ← call (.isFile guestMarker)
  let text ← readMarker file
  if Str.strip text = [] then throw .noGuestMarker else pure ()

def writeVersionMarker (cfg : RootfsConfig) : Bake B Unit :=
  match majorVersionFromImage cfg.redroidImage with
  | none => throw (.noMajor cfg.redroidImage)
  | some baked => call (.writeMarker (markerText baked))

def build (digest : B → String) (cfg : RootfsConfig) : Bake B Unit := do
  fetchStaticBundle digest cfg
  buildTree cfg
  verifyGuestImageMarker
  writeVersionMarker cfg
  call (.mke2fs cfg.imageSizeMb)

/-! ## The host -/

/-- the host's files, which are no links, its commands and what they print, and the docker bundle -/
structure Host (B : Type) where
  file : String → Option (File B)
  plain : ∀ src f, file src = some f → f.isLink = false
  hasCc : Bool
  /-- `busybox --list` -/
  applets : List Char
  ldd : String → List Char
  digest : B → String
  /-- the files below `docker/` in a bundle -/
  unpack : B → Option (List (String × B))

structure Site (B : Type) where
  work : FileTree (File B)
  /-- the staging dockerd runs -/
  daemon : Bool
  /-- what lies below the root of the packed image; `none` if there is no image, or a damaged one -/
  image : Option (Path → Option (Node (File B)))
  marker : Option (List Char)

inductive Verdict (B : Type) where
  | succeeds
  | refuses (left : Option (File B))
  | interrupts (left : Option (File B))

/-- the kind of exception of an action that is refused -/
def Act.refusal : Act → Err
  | .curl _ | .untar | .applets _ | .ldd _ | .cc _ _ | .pull _ | .save _ | .load _ | .copyDataRoot | .mke2fs _ => .command
  | _ => .os

/-- every directory of the tree has been made -/
def dirAt (t : FileTree (File B)) (p : Path) : Bool :=
  match t.get? p with
  | some .dir => true
  | _ => false

/-- the file that is written: the path, or the target of the link that is there -/
def behindLink (t : FileTree (File B)) (p : Path) : Path :=
  match readFile t p with
  | some ⟨.link target, _⟩ => p.dropLast ++ [target]
  | _ => p

def place (t : FileTree (File B)) (p : Path) (f : File B) : FileTree (File B) := writeFile t (behindLink t p) f

/-- a copy to a directory goes below it -/
def copyTarget (t : FileTree (File B)) (name : String) (dst : Path) : Path := if dirAt t dst then dst ++ [name] else dst

def canWrite (t : FileTree (File B)) (p : Path) : Bool := dirAt t p.dropLast && !dirAt t (behindLink t p)

def leave (t : FileTree (File B)) (p : Path) : Option (File B) → FileTree (File B)
  | some f => place t p f
  | none => t

/-- the file that an interrupted action may leave in any state -/
def Act.writes (t : FileTree (File B)) : Act → Option Path
  | .curl _ => some ["docker.tgz"]
  | .copyIn src dst => some (copyTarget t (lastSegment src) dst)
  | .copyWork src dst => some (copyTarget t (src.getLastD "") dst)
  | .cc dst _ => some dst
  | .save _ => some ["redroid.tar"]
  | .writeText p _ => some p
  | _ => none

def extract (t : FileTree (File B)) (files : List (String × B)) : FileTree (File B) :=
  files.foldl (fun t f => writeFile t (docker ++ [f.1]) ⟨.blob f.2, true⟩) (mkdirs t docker)

def imagesOf : Option (File B) → Option (List String)
  | some ⟨.images l, _⟩ => some l
  | _ => none

def setExecutable (t : FileTree (File B)) (p : Path) : FileTree (File B) :=
  match readFile t (behindLink t p) with
  | some f => writeFile t (behindLink t p) { f with executable := true }
  | none => t

/-- the images of the archive that is loaded -/
def tarImages (host : Host B) (t : FileTree (File B)) : Option String → Option (List String)
  | some tar => imagesOf (host.file tar)
  | none => imagesOf (readFile t ["redroid.tar"])

/-- where `cp -a` puts the data root -/
def dataRoot (t : FileTree (File B)) : Path :=
  if dirAt t ["root", "var", "lib", "docker"] then ["root", "var", "lib", "docker", "dockerroot"]
  else ["root", "var", "lib", "docker"]

/-- an action that is not refused from outside; `none` is a refusal for a reason of its own -/
def perform (host : Host B) (bundle : B) (compiled : File B) (s : Site B) : (a : Act) → Option (Ret B a × Site B)
  | .curl _ => some ((), { s with work := place s.work ["docker.tgz"] ⟨.blob bundle, false⟩ })
  | .readBundle =>
    match readFile s.work ["docker.tgz"] with
    | some ⟨.blob b, _⟩ => some (b, s)
    | _ => none
  | .untar =>
    match readFile s.work ["docker.tgz"] with
    | some ⟨.blob b, _⟩ => (host.unpack b).map fun files => ((), { s with work := extract s.work files })
    | _ => none
  | .mkdir p => if fileInWay s.work p then none else some ((), { s with work := mkdirs s.work p })
  | .copyIn src dst =>
    if canWrite s.work (copyTarget s.work (lastSegment src) dst) then
      (host.file src).map fun f => ((), { s with work := place s.work (copyTarget s.work (lastSegment src) dst) f })
    else none
  | .copyWork src dst =>
    if canWrite s.work (copyTarget s.work (src.getLastD "") dst) then
      (readFile s.work src).map fun f => ((), { s with work := place s.work (copyTarget s.work (src.getLastD "") dst) f })
    else none
  | .chmod p => if present s.work (behindLink s.work p) then some ((), { s with work := setExecutable s.work p }) else none
  | .applets _ => some (host.applets, s)
  | .unlink p => if dirAt s.work p then none else some ((), { s with work := s.work.erase p })
  | .symlink target p =>
    if dirAt s.work p.dropLast && !present s.work p then
      some ((), { s with work := writeFile s.work p ⟨.link target, true⟩ })
    else none
  | .ldd binary => some (host.ldd binary, s)
  | .canExecute src => some (((host.file src).map File.executable).getD false, s)
  | .isHostFile src => some ((host.file src).isSome, s)
  | .hasCc => some (host.hasCc, s)
  | .cc dst _ => some ((), { s with work := place s.work dst compiled })
  | .pull _ => some ((), s)
  | .save image => some ((), { s with work := place s.work ["redroid.tar"] ⟨.images [image], false⟩ })
  | .spawn =>
    if Fs.isFile s.work (docker ++ ["dockerd"]) then
      some ((), { s with work := writeFile s.work ["dockerroot"] ⟨.images [], false⟩, daemon := true })
    else none
  | .info => if Fs.isFile s.work (docker ++ ["docker"]) then some (s.daemon, s) else none
  | .load tar =>
    match tarImages host s.work tar, imagesOf (readFile s.work ["dockerroot"]) with
    | some new, some old =>
      if s.daemon then some ((), { s with work := writeFile s.work ["dockerroot"] ⟨.images (old ++ new), false⟩ }) else none
    | _, _ => none
  | .stop => some ((), { s with daemon := false })
  | .sleep => some ((), s)
  | .copyDataRoot =>
    (readFile s.work ["dockerroot"]).map fun f => ((), { s with work := writeFile s.work (dataRoot s.work) f })
  | .writeText p t =>
    if canWrite s.work p then some ((), { s with work := place s.work p ⟨.text t, false⟩ }) else none
  | .isFile p => some (Fs.isFile s.work p, s)
  | .readText p =>
    match readFile s.work p with
    | some ⟨.text t, _⟩ => some (t, s)
    | _ => none
  | .writeMarker t => some ((), { s with marker := some t })
  | .mke2fs _ => some ((), { s with image := some fun q => s.work.get? (root ++ q) })

/-- what an action that fails leaves behind -/
def damaged (a : Act) (left : Option (File B)) (s : Site B) : Site B :=
  match a with
  | .writeMarker _ => if left.isSome then { s with marker := some [] } else s
  | .mke2fs _ => if left.isSome then { s with image := none } else s
  | _ =>
    match a.writes s.work with
    | some p => { s with work := leave s.work p left }
    | none => s

/-- the world's choice at a step: its verdict, and what a download or a compiler gives -/
structure Choice (B : Type) where
  verdict : Act → Verdict B
  bundle : B
  compiled : File B

/-- what an action that is interrupted leaves behind; the staging dockerd may have been started, and may not have ended -/
def cutOff (host : Host B) (c : Choice B) (a : Act) (left : Option (File B)) (s : Site B) : Site B :=
  match a with
  | .spawn => if left.isSome then ((perform host c.bundle c.compiled s .spawn).map Prod.snd).getD s else s
  | .stop => if left.isSome then s else { s with daemon := false }
  | _ => damaged a left s

/-- a readiness probe that fails is no exception -/
def exec (host : Host B) (c : Choice B) (a : Act) (s : Site B) : Reply B a × Site B :=
  match c.verdict a with
  | .succeeds =>
    match perform host c.bundle c.compiled s a with
    | some (x, t) => (.ok x, t)
    | none => (.error a.refusal, s)
  | .refuses left =>
    match a with
    | .info => (.ok false, s)
    | _ => (.error a.refusal, damaged a left s)
  | .interrupts left => (.error .interrupt, cutOff host c a left s)

/-! ## What an action leaves alone -/

/-- the directories in which an action writes -/
def Act.dirs : Act → List Path
  | .curl _ | .save _ | .spawn | .load _ => [[]]
  | .untar => [docker]
  | .copyIn _ dst | .copyWork _ dst => [dst, dst.dropLast]
  | .cc dst _ => [dst.dropLast]
  | .chmod p | .unlink p | .symlink _ p | .writeText p _ => [p.dropLast]
  | .copyDataRoot => [["root", "var", "lib"], ["root", "var", "lib", "docker"]]
  | _ => []

/-- the directory that it makes -/
def Act.made : Act → Option Path
  | .mkdir p => some p
  | .untar => some docker
  | _ => none

/-- the directories in which it writes in this tree -/
def Act.home (t : FileTree (File B)) : Act → List Path
  | .copyIn src dst => [(copyTarget t (lastSegment src) dst).dropLast]
  | .copyWork src dst => [(copyTarget t (src.getLastD "") dst).dropLast]
  | .copyDataRoot => [(dataRoot t).dropLast]
  | a => a.dirs

section Frame

variable {t : FileTree (File B)} {p q : Path} {f g : File B}

theorem dropLast_behindLink (t : FileTree (File B)) (p : Path) : (behindLink t p).dropLast = p.dropLast := by
  unfold behindLink
  split
  · exact List.dropLast_concat
  · rfl

theorem readFile_write_frame (hpq : q.dropLast ≠ p.dropLast) : readFile (writeFile t p g) q = readFile t q :=
  readFile_write_ne fun heq => hpq (congrArg List.dropLast heq)

theorem dropLast_copyTarget (t : FileTree (File B)) (name : String) (dst : Path) :
    (copyTarget t name dst).dropLast = dst ∨ (copyTarget t name dst).dropLast = dst.dropLast := by
  unfold copyTarget
  split_ifs
  · exact Or.inl List.dropLast_concat
  · exact Or.inr rfl

theorem readFile_erase (t : FileTree (File B)) (p q : Path) :
    readFile (t.erase p) q = if q = p then none else readFile t q := by
  unfold readFile
  rw [Dict.get?_erase]
  split_ifs <;> rfl

theorem dirAt_writeFile (p : Path) (g : File B) (h : dirAt t q = false) : dirAt (writeFile t p g) q = false := by
  unfold dirAt at h ⊢
  rw [get?_write]
  by_cases hq : q = p
  · rw [if_pos hq]
  · rw [if_neg hq]
    exact h

theorem dirAt_mkdirs {r : Path} (h : dirAt t q = false) (hr : ¬ q <+: r) : dirAt (mkdirs t r) q = false := by
  unfold dirAt at h ⊢
  rw [get?_mkdirs, if_neg fun hc => hr hc.1]
  exact h

theorem get?_of_dirAt (h : dirAt t q = true) : t.get? q = some .dir := by
  unfold dirAt at h
  split at h
  · assumption
  · cases h

theorem dirAt_of_get? (h : t.get? q = some .dir) : dirAt t q = true := by
  unfold dirAt
  rw [h]

theorem stays_mkdirs (r : Path) (h : dirAt t q = true) : dirAt (mkdirs t r) q = true :=
  dirAt_of_get? (get?_mkdirs_of_some (get?_of_dirAt h))

theorem stays_writeFile (h : dirAt t q = true) (hpq : q.dropLast ≠ p.dropLast) : dirAt (writeFile t p g) q = true := by
  apply dirAt_of_get?
  rw [get?_write, if_neg fun heq => hpq (congrArg List.dropLast heq)]
  exact get?_of_dirAt h

theorem absent_writeFile (h : present t q = false) (hq : ¬ q <+: p) : present (writeFile t p g) q = false := by
  rw [Bool.eq_false_iff]
  intro hp
  obtain ⟨r, n, hqr, hn⟩ := present_iff.1 hp
  have hne : r ≠ p := fun heq => hq (heq ▸ hqr)
  rw [get?_write, if_neg hne, get?_of_not_present h hqr] at hn
  cases hn

theorem absent_mkdirs {r : Path} (h : present t q = false) (hr : ¬ q <+: r) : present (mkdirs t r) q = false := by
  rw [Bool.eq_false_iff]
  intro hp
  obtain ⟨r', n, hqr, hn⟩ := present_iff.1 hp
  rw [get?_mkdirs, if_neg fun hc => hr (hqr.trans hc.1), get?_of_not_present h hqr] at hn
  cases hn

theorem extract_induction {M : FileTree (File B) → Prop} (files : List (String × B)) (h : M (mkdirs t docker))
    (hstep : ∀ u name body, (name, body) ∈ files → M u → M (writeFile u (docker ++ [name]) ⟨.blob body, true⟩)) :
    M (extract t files) := by
  unfold extract
  generalize mkdirs t docker = u at h
  induction files generalizing u with
  | nil => exact h
  | cons x files ih =>
    exact ih (fun u name body hmem => hstep u name body (List.mem_cons_of_mem _ hmem)) _
      (hstep u x.1 x.2 List.mem_cons_self h)

theorem readFile_extract_frame (files : List (String × B)) (hq : q.dropLast ≠ docker) :
    readFile (extract t files) q = readFile t q := by
  refine extract_induction (M := fun v => readFile v q = readFile t q) files (readFile_mkdirs _ _ _) fun u name body _ hu => ?_
  rw [readFile_write_frame (by rw [List.dropLast_concat]; exact hq), hu]

/-- what an action can do to the tree -/
inductive Edit (a : Act) (t : FileTree (File B)) : FileTree (File B) → Prop
  | same : Edit a t t
  | write (p : Path) (f : File B) : p.dropLast ∈ a.home t → Edit a t (writeFile t p f)
  | remove (p : Path) : p.dropLast ∈ a.home t → Edit a t (t.erase p)
  | make (r : Path) : a.made = some r → Edit a t (mkdirs t r)
  | unpack (files : List (String × B)) : a = .untar → Edit a t (extract t files)

variable {host : Host B} {c : Choice B} {a : Act} {s : Site B} {u : FileTree (File B)}

theorem edit_frame (h : Edit a t u) (hq : q.dropLast ∉ a.home t) : readFile u q = readFile t q := by
  have hne : ∀ {p : Path}, p.dropLast ∈ a.home t → q.dropLast ≠ p.dropLast := fun hp heq => hq (heq ▸ hp)
  cases h with
  | same => rfl
  | write p f hp => exact readFile_write_frame (hne hp)
  | remove p hp => exact (readFile_erase _ _ _).trans (if_neg fun heq => hne hp (congrArg List.dropLast heq))
  | make r hr => exact readFile_mkdirs _ _ _
  | unpack files ha =>
    refine readFile_extract_frame files fun heq => hq ?_
    rw [heq, ha]
    exact List.mem_cons_self

theorem edit_dirAt (h : Edit a t u) (hd : dirAt t q = false) (hq : ∀ r, a.made = some r → ¬ q <+: r) : dirAt u q = false := by
  cases h with
  | same => exact hd
  | write p f hp => exact dirAt_writeFile _ _ hd
  | remove p hp =>
    unfold dirAt at hd ⊢
    rw [Dict.get?_erase]
    by_cases heq : q = p
    · rw [if_pos heq]
    · rw [if_neg heq]
      exact hd
  | make r hr => exact dirAt_mkdirs hd (hq r hr)
  | unpack files ha =>
    exact extract_induction (M := fun v => dirAt v q = false) files (dirAt_mkdirs hd (hq docker (by rw [ha, Act.made])))
      fun _ _ _ _ hu => dirAt_writeFile _ _ hu

theorem edit_stays (h : Edit a t u) (hd : dirAt t q = true) (hq : q.dropLast ∉ a.home t) : dirAt u q = true := by
  have hne : ∀ {p : Path}, p.dropLast ∈ a.home t → q.dropLast ≠ p.dropLast := fun hp heq => hq (heq ▸ hp)
  cases h with
  | same => exact hd
  | write p f hp => exact stays_writeFile hd (hne hp)
  | remove p hp =>
    apply dirAt_of_get?
    rw [Dict.get?_erase, if_neg fun heq => hne hp (congrArg List.dropLast heq)]
    exact get?_of_dirAt hd
  | make r hr => exact stays_mkdirs r hd
  | unpack files ha =>
    refine extract_induction (M := fun v => dirAt v q = true) files (stays_mkdirs docker hd)
      fun v name body _ hv => stays_writeFile hv fun heq => hq ?_
    rw [heq, List.dropLast_concat, ha]
    exact List.mem_cons_self

theorem home_dirs {d : Path} (hd : d ∈ a.home t) : d ∈ a.dirs := by
  have hcopy : ∀ {name : String} {dst : Path}, d ∈ [(copyTarget t name dst).dropLast] → d ∈ [dst, dst.dropLast] := by
    intro name dst h
    rw [List.mem_singleton.1 h]
    rcases dropLast_copyTarget t name dst with heq | heq
    · rw [heq]
      exact List.mem_cons_self
    · rw [heq]
      exact List.mem_cons_of_mem _ List.mem_cons_self
  cases a with
  | copyIn src dst => exact hcopy hd
  | copyWork src dst => exact hcopy hd
  | copyDataRoot =>
    have hd' : d ∈ [(dataRoot t).dropLast] := hd
    rw [List.mem_singleton.1 hd']
    unfold dataRoot
    split_ifs
    · exact List.mem_cons_of_mem _ List.mem_cons_self
    · exact List.mem_cons_self
  | _ => exact hd

theorem edit_place {p : Path} (f : File B) (hp : p.dropLast ∈ a.home t) : Edit a t (place t p f) :=
  .write _ f (by rw [dropLast_behindLink]; exact hp)

theorem edit_leave {p : Path} (left : Option (File B)) (hp : p.dropLast ∈ a.home t) : Edit a t (leave t p left) := by
  cases left with
  | none => exact .same
  | some f => exact edit_place f hp

theorem edit_damaged (left : Option (File B)) : Edit a s.work (damaged a left s).work := by
  cases a with
  | writeMarker text =>
    simp only [damaged]
    split_ifs <;> exact .same
  | mke2fs size =>
    simp only [damaged]
    split_ifs <;> exact .same
  | copyIn src dst => exact edit_leave left List.mem_cons_self
  | copyWork src dst => exact edit_leave left List.mem_cons_self
  | curl url => exact edit_leave left List.mem_cons_self
  | cc dst src => exact edit_leave left List.mem_cons_self
  | save image => exact edit_leave left List.mem_cons_self
  | writeText p text => exact edit_leave left List.mem_cons_self
  | _ => exact .same

theorem edit_perform {b : B} {compiled : File B} {x : Ret B a} {s' : Site B}
    (hp : perform host b compiled s a = some (x, s')) : Edit a s.work s'.work := by
  cases a with
  | curl url => cases hp; exact edit_place _ List.mem_cons_self
  | save image => cases hp; exact edit_place _ List.mem_cons_self
  | cc dst src => cases hp; exact edit_place _ List.mem_cons_self
  | readBundle =>
    simp only [perform] at hp
    split at hp <;> cases hp
    exact .same
  | readText p =>
    simp only [perform] at hp
    split at hp <;> cases hp
    exact .same
  | untar =>
    simp only [perform] at hp
    split at hp
    · obtain ⟨files, -, heq⟩ := Option.map_eq_some_iff.1 hp
      cases heq
      exact .unpack files rfl
    · cases hp
  | mkdir p =>
    simp only [perform] at hp
    split_ifs at hp
    cases hp
    exact .make p rfl
  | copyIn src dst =>
    simp only [perform] at hp
    split_ifs at hp
    obtain ⟨g, -, heq⟩ := Option.map_eq_some_iff.1 hp
    cases heq
    exact edit_place _ List.mem_cons_self
  | copyWork src dst =>
    simp only [perform] at hp
    split_ifs at hp
    obtain ⟨g, -, heq⟩ := Option.map_eq_some_iff.1 hp
    cases heq
    exact edit_place _ List.mem_cons_self
  | chmod p =>
    simp only [perform] at hp
    split_ifs at hp
    cases hp
    simp only [setExecutable]
    split
    · refine .write _ _ ?_
      rw [dropLast_behindLink]
      exact List.mem_cons_self
    · exact .same
  | unlink p =>
    simp only [perform] at hp
    split_ifs at hp
    cases hp
    exact .remove p List.mem_cons_self
  | symlink target p =>
    simp only [perform] at hp
    split_ifs at hp
    cases hp
    exact .write p _ List.mem_cons_self
  | spawn =>
    simp only [perform] at hp
    split_ifs at hp
    cases hp
    exact .write _ _ List.mem_cons_self
  | info =>
    simp only [perform] at hp
    split_ifs at hp
    cases hp
    exact .same
  | load tar =>
    simp only [perform] at hp
    split at hp
    · split_ifs at hp
      cases hp
      exact .write _ _ List.mem_cons_self
    · cases hp
  | copyDataRoot =>
    simp only [perform] at hp
    obtain ⟨g, -, heq⟩ := Option.map_eq_some_iff.1 hp
    cases heq
    exact .write _ _ List.mem_cons_self
  | writeText p text =>
    simp only [perform] at hp
    split_ifs at hp
    cases hp
    exact edit_place _ List.mem_cons_self
  | _ => cases hp; exact .same

theorem edit_cutOff (left : Option (File B)) : Edit a s.work (cutOff host c a left s).work := by
  cases a with
  | spawn =>
    simp only [cutOff]
    split_ifs
    · cases hp : perform host c.bundle c.compiled s .spawn with
      | none => exact .same
      | some r => exact edit_perform (x := r.1) hp
    · exact .same
  | stop =>
    simp only [cutOff]
    split_ifs <;> exact .same
  | _ => exact edit_damaged left

theorem exec_edit : Edit a s.work (exec host c a s).2.work := by
  unfold exec
  split
  · split
    · rename_i x t hp
      exact edit_perform hp
    · exact .same
  · split
    · exact .same
    · exact edit_damaged _
  · exact edit_cutOff _

end Frame

/-! ## Where the steps write -/

/-- the action writes in these directories, and makes these -/
def Act.inside (D M : List Path) (a : Act) : Bool :=
  (a.dirs.all fun d => D.contains d) && match a.made with
    | some r => M.contains r
    | none => true

/-- the staging dockerd, the image and the marker beside it are left alone -/
def Act.local : Act → Bool
  | .spawn | .stop | .writeMarker _ | .mke2fs _ => false
  | _ => true

section Footprint

variable {q : Act → Prop} {α : Type}

theorem all_call {a : Act} (h : q a) : (call a : Bake B (Ret B a)).run.All q := by
  refine all_seq (all_ask h) fun r => ?_
  cases r with
  | ok x => exact all_pure x
  | error e => exact all_throw e

theorem all_forEach {f : α → Bake B Unit} {xs : List α} (h : ∀ x ∈ xs, (f x).run.All q) : (forEach f xs).run.All q := by
  induction xs with
  | nil => exact all_pure ()
  | cons x xs ih =>
    exact all_seq (h x List.mem_cons_self) fun _ => ih fun y hy => h y (List.mem_cons_of_mem _ hy)

theorem all_copyLibFile {src : String} {dir : Path} (h : q (.copyIn src dir)) : (copyLibFile src dir : Bake B Unit).run.All q := by
  refine all_tryCatch (all_call h) fun e => ?_
  split_ifs
  · exact all_pure ()
  · exact all_throw e

theorem all_copyLibs {binary : String} (hldd : q (.ldd binary)) (h : ∀ src, q (.copyIn src guestLibDir)) :
    (copyLibs binary : Bake B Unit).run.All q := by
  refine all_seq (all_call hldd) fun out => all_forEach fun line _ => ?_
  unfold copyLib
  split
  · exact all_copyLibFile (h _)
  · exact all_pure ()

theorem all_symlink {target : String} {p : Path} (hunlink : q (.unlink p)) (hlink : q (.symlink target p)) :
    (symlink target p : Bake B Unit).run.All q :=
  all_seq (all_call hunlink) fun _ => all_call hlink

variable (cfg : RootfsConfig) (digest : B → String)

/-- the steps of the build that keep to the scratch directory -/
def Inside (D M : List Path) (a : Act) : Prop := a.inside D M = true ∧ a.local = true

theorem all_fetchStaticBundle : (fetchStaticBundle digest cfg).run.All (Inside [[], docker] [["docker"], docker]) := by
  refine all_seq (all_call ⟨rfl, rfl⟩) fun _ => all_seq ?_ fun _ => all_seq (all_call ⟨rfl, rfl⟩) fun _ => all_call ⟨rfl, rfl⟩
  unfold verifyStaticBundleDigest
  split
  · exact all_pure ()
  · refine all_seq (all_call ⟨rfl, rfl⟩) fun b => ?_
    split_ifs
    · exact all_pure ()
    · exact all_throw _

theorem all_makeDirs : (makeDirs : Bake B Unit).run.All (Inside [["root"]] (rootfsDirs.map (root ++ ·))) := by
  refine all_seq (all_forEach fun dir hdir => all_call ⟨?_, rfl⟩) fun _ => all_call ⟨rfl, rfl⟩
  exact List.contains_iff_mem.2 (List.mem_map_of_mem hdir)

def bin : Path := ["root", "bin"]

theorem all_stageBusybox : (stageBusybox cfg : Bake B Unit).run.All (Inside [bin ++ ["busybox"], bin] []) := by
  refine all_seq (all_call ⟨rfl, rfl⟩) fun _ => all_seq (all_call ⟨rfl, rfl⟩) fun _ => all_seq (all_call ⟨rfl, rfl⟩)
    fun list => all_forEach fun applet _ => ?_
  unfold stageApplet
  split_ifs
  · exact all_pure ()
  · exact all_symlink ⟨rfl, rfl⟩ ⟨rfl, rfl⟩

theorem all_stageDockerBinaries :
    (stageDockerBinaries : Bake B Unit).run.All (Inside (bin :: dockerStaticBins.map (bin ++ [·])) []) := by
  refine all_forEach fun name hname => all_seq (all_call ⟨?_, rfl⟩) fun _ => all_call ⟨rfl, rfl⟩
  refine Bool.and_eq_true_iff.2 ⟨List.all_eq_true.2 fun d hd => List.contains_iff_mem.2 ?_, rfl⟩
  have hd' : d ∈ [bin ++ [name], bin] := hd
  simp only [List.mem_cons, List.not_mem_nil, or_false] at hd'
  rcases hd' with rfl | rfl
  · exact List.mem_cons_of_mem _ (List.mem_map_of_mem hname)
  · exact List.mem_cons_self

def libDirs : List Path := [guestLibDir, ["root", "lib"]]

def xtablesDirs : List Path := [["root", "usr", "sbin"], ["root", "usr", "sbin", "xtables-legacy-multi"]] ++ libDirs

theorem all_stageIptables : (stageIptables cfg : Bake B Unit).run.All
    (Inside (xtablesDirs ++ [["root", "lib64"], ["root"]]) []) := by
  refine all_seq (all_call ⟨rfl, rfl⟩) fun _ => all_seq (all_forEach fun name _ => ?_) fun _ =>
    all_seq (all_copyLibs ⟨rfl, rfl⟩ fun _ => ⟨rfl, rfl⟩) fun _ => all_copyLibFile ⟨rfl, rfl⟩
  exact all_seq (all_symlink ⟨rfl, rfl⟩ ⟨rfl, rfl⟩) fun _ => all_symlink ⟨rfl, rfl⟩ ⟨rfl, rfl⟩

theorem all_stageSocat : (stageSocat cfg : Bake B Unit).run.All (Inside ([bin, bin ++ ["socat"]] ++ libDirs) []) :=
  all_seq (all_call ⟨rfl, rfl⟩) fun _ => all_seq (all_call ⟨rfl, rfl⟩) fun _ => all_copyLibs ⟨rfl, rfl⟩ fun _ => ⟨rfl, rfl⟩

def probeDirs : List Path := [["root", "usr", "bin"], adbprobe]

theorem all_buildAdbprobe (source : String) : (buildAdbprobe source : Bake B Unit).run.All (Inside probeDirs []) := by
  refine all_seq (all_call ⟨rfl, rfl⟩) fun file => all_seq ?_ fun cc => ?_
  · unfold findCc
    split_ifs
    · exact all_call ⟨rfl, rfl⟩
    · exact all_pure _
  · split_ifs
    · refine all_seq (all_tryCatch (all_seq (all_call ⟨rfl, rfl⟩) fun _ => all_pure true) fun e => ?_) fun built => ?_
      · split_ifs
        · exact all_pure _
        · exact all_throw _
      · split_ifs
        · exact all_call ⟨rfl, rfl⟩
        · exact all_pure ()
    · exact all_pure ()

theorem all_stageAdbprobe : (stageAdbprobe cfg : Bake B Unit).run.All (Inside probeDirs []) := by
  unfold stageAdbprobe
  split
  · exact all_buildAdbprobe _
  · refine all_seq (all_call ⟨rfl, rfl⟩) fun usable => ?_
    split_ifs
    · exact all_seq (all_call ⟨rfl, rfl⟩) fun _ => all_call ⟨rfl, rfl⟩
    · exact all_buildAdbprobe _

theorem all_obtainTar : (obtainTar cfg : Bake B Unit).run.All (Inside [[]] []) := by
  unfold obtainTar
  split
  · exact all_pure ()
  · exact all_seq (all_call ⟨rfl, rfl⟩) fun _ => all_call ⟨rfl, rfl⟩

theorem all_waitDockerReady (left : ℕ) : (waitDockerReady left : Bake B Unit).run.All (Inside [[]] []) := by
  induction left with
  | zero => exact all_throw _
  | succ left ih =>
    refine all_seq (all_call ⟨rfl, rfl⟩) fun ready => ?_
    split_ifs
    · exact all_pure ()
    · exact all_seq (all_call ⟨rfl, rfl⟩) fun _ => ih

theorem all_loadImage : (loadImage cfg : Bake B Unit).run.All (Inside [[]] []) :=
  all_seq (all_waitDockerReady _) fun _ => all_call ⟨rfl, rfl⟩

theorem all_recordImage : (recordImage cfg : Bake B Unit).run.All
    (Inside [["root", "etc", "beetroot"]] [["root", "etc", "beetroot"]]) :=
  all_seq (all_call ⟨rfl, rfl⟩) fun _ => all_call ⟨rfl, rfl⟩

theorem all_installInit : (installInit cfg : Bake B Unit).run.All (Inside [["root"], ["root", "init"]] []) :=
  all_seq (all_call ⟨rfl, rfl⟩) fun _ => all_call ⟨rfl, rfl⟩

theorem all_verifyGuestImageMarker : (verifyGuestImageMarker : Bake B Unit).run.All (Inside [] []) := by
  refine all_seq (all_call ⟨rfl, rfl⟩) fun file => all_seq ?_ fun text => ?_
  · unfold readMarker
    split_ifs
    · exact all_call ⟨rfl, rfl⟩
    · exact all_pure _
  · split_ifs
    · exact all_throw _
    · exact all_pure ()

end Footprint

end Beetroot.Build.Rootfs
