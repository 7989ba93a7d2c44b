/-
The boot-time scripts of the container: `docker/entrypoint.sh` and the six helpers that it sources, as programs of commands.

All of it runs in one shell under `set -eu`, so a bare command that fails ends the boot configuration, and an `exit` in a helper
ends all of it. `magisk-path.sh` puts Magisk on the PATH, `magisk-config.sh` waits for the daemon and writes the settings and the
denylist, `magisk-env.sh` fills MAGISKBIN, `flash-modules.sh` installs the modules, `activate-zygisk.sh` restarts the zygote if
this boot has switched Zygisk on, and `launch-frida.sh` starts the server.

The phone answers each command through a `Choice`: it may fail, or report a success without an effect. The settings table of Magisk
has integers in it, and a file is its executable bit. What is printed for the user is left out.

Results:
- `disciplined_entrypoint`: which commands end the boot when they fail.
-/
import Beetroot.Config.Denylist
import Beetroot.Lib.Script
import Beetroot.Lib.Search
import Beetroot.Lib.Template
import Beetroot.Lib.Walk

namespace Beetroot.Boot

open Lib Lib.Prog Lib.Script Lib.Fs Lib.Lines Lib.Shell Beetroot.Config

/-! ## The environment -/

/-- the environment of the scripts, and what the shell makes of a text. The entries of the denylist go into SQL statements as they
are, so a quote in them could be anything. -/
structure Env where
  vars : Vars
  /-- what a text names as a path -/
  pathOf : String → Path
  /-- the files that a pattern matches -/
  glob : List Char → List (List Char)
  /-- what `[ -ge ]` takes a text for; a text that is no number makes it fail -/
  number : String → Option Int
  /-- how many more attempts of a wait without a bound are looked at -/
  patience : ℕ
  unquoted : ∀ v, vars "BEETROOT_DENYLIST_PACKAGES" = some v → '\'' ∉ v.toList

def Env.path (env : Env) (name default : String) : Path := env.pathOf (fallback (env.vars name) default)

def Env.modulesDir (env : Env) : Path := env.path "BEETROOT_MODULES_DIR" "/data/adb/modules_update"
def Env.fridaBin (env : Env) : Path := env.path "BEETROOT_FRIDA_BIN" "/data/local/tmp/frida-server"
def Env.magiskBinDir (env : Env) : Path := env.path "BEETROOT_MAGISK_BIN_DIR" "/data/adb/magisk"
def Env.magiskSrcDir (env : Env) : Path := env.path "BEETROOT_MAGISK_SRC_DIR" "/system/etc/init/magisk"

/-! ## Commands -/

inductive Cmd where
  /-- `command -v magisk` -/
  | resolves
  | isFile (p : Path)
  | isDir (p : Path)
  | isExecutable (p : Path)
  /-- `PATH="$_dir:$PATH"` -/
  | prepend (dir : Path)
  | select1
  | selectZygisk
  | replaceZygisk
  | replaceDenylist
  | insert (row : DenylistRow)
  | sleep
  | mkdir (p : Path)
  | copyBinary (src dir : Path) (name : String)
  | copyScript (src dir : Path) (name : String)
  | chmod (p : Path)
  | remove (p : Path)
  | unzip (apk tmp : Path)
  /-- `"$dir"/*suffix` -/
  | pattern (dir : Path) (suffix : String)
  | install (zip : Path)
  | restartZygote
  | launch (p : Path)
  | wait
deriving DecidableEq, Repr

/-- what a command prints, or the names that a pattern expands to -/
structure Out where
  text : List Char := []
  names : List String := []

/-- an `exit 1` of `magisk-config.sh`, or a wait that does not end -/
inductive Exit where
  | unreachable
  /-- the wait goes on, and is not looked at any more -/
  | waiting
  | notPersisted (value : List Char)
deriving DecidableEq, Repr

abbrev Shell := Sh Cmd Out Exit

/-! ## The scripts -/

/-- the loop of `magisk-path.sh` -/
def prependFirst (env : Env) : List (List Char) → Shell Unit
  | [] => pure ()
  | dir :: dirs =>
    ifOk (.isExecutable (env.pathOf (String.ofList dir) ++ ["magisk"])) (attempt (.prepend (env.pathOf (String.ofList dir))))
      (prependFirst env dirs)

def magiskPath (env : Env) : Shell Unit :=
  ifOk .resolves (pure ())
    (prependFirst env
      (expand env.glob (fieldsAt ':' (fallback (env.vars "BEETROOT_MAGISK_DIRS") "/sbin:/debug_ramdisk").toList)))

/-- `MAGISK_WAIT_SECS` -/
def Env.waitSecs (env : Env) : Option Int := env.number (fallback (env.vars "BEETROOT_MAGISK_WAIT_SECS") "120")

/-- how often the daemon is tried, and what ends the wait -/
def Env.wait (env : Env) : ℕ × Exit :=
  match env.waitSecs with
  | some n => (max 1 n.toNat, .unreachable)
  | none => (env.patience + 1, .waiting)

/-- the wait for the daemon; the number counts the attempts that are left after this one -/
def awaitMagisk (e : Exit) : ℕ → Shell Unit
  | 0 => ifOk .select1 (pure ()) (leave e)
  | left + 1 =>
    ifOk .select1 (pure ()) do
      run .sleep
      awaitMagisk e left

/-- `${ROW##*=}` -/
def rowValue (row : List Char) : List Char := cutLongestPrefix (endsWith '=') row

/-- an entry of the list without the blanks around it -/
def trimmed (field : List Char) : List Char :=
  ((whileLoop trimFront (field.length + 1) field).bind (whileLoop trimBack (field.length + 1))).getD []

def insertFields : List (List Char) → Shell Unit
  | [] => pure ()
  | field :: fields =>
    if trimmed field = [] then insertFields fields
    else do
      run (.insert (denylistRow (trimmed field)))
      insertFields fields

def enrol (env : Env) (packages : String) : Shell Unit :=
  if packages = "" then pure () else insertFields (expand env.glob (fieldsAt ',' packages.toList))

/-- what the next scripts find in `BEETROOT_ZYGISK_NEWLY_ENABLED` -/
def newlyEnabled (env : Env) (prev : List Char) : Option String :=
  if rowValue prev ≠ ['1'] then some "1" else env.vars "BEETROOT_ZYGISK_NEWLY_ENABLED"

def magiskConfig (env : Env) : Shell (Option String) := do
  awaitMagisk env.wait.2 (env.wait.1 - 1)
  let prev ← must .selectZygisk
  run .replaceZygisk
  run .replaceDenylist
  let row ← must .selectZygisk
  if rowValue row.text ≠ ['1'] then leave (.notPersisted (rowValue row.text))
  else do
    enrol env (fallback (env.vars "BEETROOT_DENYLIST_PACKAGES") "")
    pure (newlyEnabled env prev.text)

def magiskBinaries : List String :=
  ["busybox", "magisk", "magiskboot", "magiskpolicy", "magiskinit", "init-ld", "magisk32", "magisk64"]

def copyBinaries (env : Env) : List String → Shell Unit
  | [] => pure ()
  | bin :: bins => do
    ifOk (.isFile (env.magiskSrcDir ++ [bin]))
      (ifOk (.copyBinary (env.magiskSrcDir ++ [bin]) env.magiskBinDir bin) (attempt (.chmod (env.magiskBinDir ++ [bin])))
        (pure ()))
      (pure ())
    copyBinaries env bins

def copyScripts (env : Env) (assets : Path) : List String → Shell Unit
  | [] => pure ()
  | script :: scripts => do
    ifOk (.isFile (assets ++ [script])) (run (.copyScript (assets ++ [script]) env.magiskBinDir script)) (pure ())
    copyScripts env assets scripts

def copyExtracted (env : Env) (assets : Path) : Shell Unit := do
  let scripts ← output (.pattern assets ".sh")
  copyScripts env assets scripts.names

/-- the scripts out of `magisk.apk` -/
def extractScripts (env : Env) (apk tmp : Path) : Shell Unit := do
  run (.remove tmp)
  run (.mkdir tmp)
  ifOk (.unzip apk tmp) (copyExtracted env (tmp ++ ["assets"])) (pure ())
  run (.remove tmp)

/-- the last test is about the message that is printed -/
def populate (env : Env) : Shell Unit := do
  run (.mkdir env.magiskBinDir)
  copyBinaries env magiskBinaries
  ifOk (.isFile (env.magiskSrcDir ++ ["magisk.apk"]))
    (ifOk (.isExecutable (env.magiskBinDir ++ ["busybox"]))
      (extractScripts env (env.magiskSrcDir ++ ["magisk.apk"]) (env.magiskBinDir ++ [".apk_extract"])) (pure ()))
    (pure ())
  attempt (.isFile (env.magiskBinDir ++ ["util_functions.sh"]))

def magiskEnv (env : Env) : Shell Unit :=
  ifOk (.isFile (env.magiskBinDir ++ ["util_functions.sh"])) (pure ())
    (ifOk (.isDir env.magiskSrcDir) (populate env) (pure ()))

def installModules (dir : Path) : List String → Shell Unit
  | [] => pure ()
  | zip :: zips => do
    ifOk (.isFile (dir ++ [zip])) (attempt (.install (dir ++ [zip]))) (pure ())
    installModules dir zips

def installAll (dir : Path) : Shell Unit := do
  let zips ← output (.pattern dir ".zip")
  installModules dir zips.names

def flashModules (env : Env) : Shell Unit := ifOk (.isDir env.modulesDir) (installAll env.modulesDir) (pure ())

def activateZygisk (env : Env) (newly : Option String) : Shell Unit :=
  if fallback (env.vars "BEETROOT_ZYGOTE_RESTART") "1" ≠ "1" then pure ()
  else if fallback newly "0" ≠ "1" then pure ()
  else attempt .restartZygote

def launchFrida (env : Env) : Shell Unit := ifOk (.isExecutable env.fridaBin) (attempt (.launch env.fridaBin)) (pure ())

def entrypoint (env : Env) : Shell Unit := do
  magiskPath env
  let newly ← magiskConfig env
  magiskEnv env
  flashModules env
  activateZygisk env newly
  launchFrida env
  attempt .wait

/-! ## The phone -/

/-- ghost data, which no command reads: how often a `REPLACE` has switched Zygisk on, and how often the zygote was restarted -/
structure Phone where
  /-- each file with its executable bit -/
  files : FileTree Bool
  /-- the names below `assets/` in `magisk.apk` -/
  apk : List String
  path : List Path
  zygisk : Option Int
  denylist : Option Int
  rows : List DenylistRow
  /-- the running zygote was started with Zygisk -/
  injected : Bool
  switched : ℕ
  restarts : ℕ
  /-- the configuration has come to its end -/
  done : Bool

inductive Choice where
  | succeeds
  | fails
  /-- the command reports a success, and nothing has happened -/
  | silent
deriving DecidableEq, Repr

def executable (s : Phone) (p : Path) : Bool := readFile s.files p = some true

def Phone.resolves (s : Phone) : Bool := s.path.any fun dir => executable s (dir ++ ["magisk"])

/-- the pattern `*suffix` of the shell, which does not match a leading dot -/
def isMatch (suffix name : String) : Bool := suffix.toList <:+ name.toList && name.toList.head? ≠ some '.'

/-- a pattern that matches nothing stays as it is -/
def Phone.matching (s : Phone) (dir : Path) (suffix : String) : List String :=
  let names := (listdir s.files dir).filter (isMatch suffix)
  if names = [] then ["*" ++ suffix] else names

def answer (ok : Bool) (s : Phone) : Answer Out × Phone := (⟨ok, {}⟩, s)

/-- a command that turns `s` into `t`, if it can be run -/
def effect (c : Choice) (possible : Bool) (s t : Phone) : Answer Out × Phone :=
  if possible then
    match c with
    | .succeeds => answer true t
    | .fails => answer false s
    | .silent => answer true s
  else answer false s

/-- what `magisk --sqlite` prints for the row -/
def zygiskRow (s : Phone) : List Char :=
  match s.zygisk with
  | some n => "value=".toList ++ (toString n).toList
  | none => []

def copied (s : Phone) (src dir : Path) (name : String) : Phone :=
  let executable := (readFile s.files (dir ++ [name])).getD ((readFile s.files src).getD false)
  { s with files := writeFile s.files (dir ++ [name]) executable }

def canCopy (s : Phone) (src dir : Path) (name : String) : Bool :=
  Fs.isFile s.files src && Fs.isDir s.files dir && !Fs.isDir s.files (dir ++ [name])

def unzipped (s : Phone) (tmp : Path) : Phone :=
  let extract := fun (files : FileTree Bool) name => writeFile files (tmp ++ ["assets", name]) false
  { s with files := s.apk.foldl extract (mkdirs s.files (tmp ++ ["assets"])) }

def exec (c : Choice) (a : Cmd) (s : Phone) : Answer Out × Phone :=
  match a with
  | .resolves => answer s.resolves s
  | .isFile p => answer (Fs.isFile s.files p) s
  | .isDir p => answer (Fs.isDir s.files p) s
  -- a directory passes `[ -x ]`, too
  | .isExecutable p => answer (executable s p || Fs.isDir s.files p) s
  | .prepend dir => answer true { s with path := dir :: s.path }
  | .select1 => effect c s.resolves s s
  | .selectZygisk =>
    if s.resolves && c ≠ .fails then (⟨true, { text := zygiskRow s }⟩, s) else answer false s
  | .replaceZygisk =>
    effect c s.resolves s
      { s with zygisk := some 1, switched := if s.zygisk = some 1 then s.switched else s.switched + 1 }
  | .replaceDenylist => effect c s.resolves s { s with denylist := some 1 }
  | .insert row => effect c s.resolves s { s with rows := if row ∈ s.rows then s.rows else s.rows ++ [row] }
  | .sleep => effect c true s s
  | .mkdir p => effect c (!fileInWay s.files p) s { s with files := mkdirs s.files p }
  | .copyBinary src dir name | .copyScript src dir name => effect c (canCopy s src dir name) s (copied s src dir name)
  | .chmod p => effect c (Fs.isFile s.files p) s { s with files := writeFile s.files p true }
  | .remove p => effect c true s { s with files := rmtree s.files p }
  | .unzip apk tmp => effect c (Fs.isFile s.files apk && Fs.isDir s.files tmp) s (unzipped s tmp)
  | .pattern dir suffix => (⟨true, { names := s.matching dir suffix }⟩, s)
  | .install _ => effect c s.resolves s s
  | .restartZygote => effect c true s { s with injected := s.zygisk = some 1, restarts := s.restarts + 1 }
  | .launch _ => answer true s
  | .wait => answer true { s with done := true }

/-! ## Which failures end the boot -/

def critical : Cmd → Bool
  | .selectZygisk | .replaceZygisk | .replaceDenylist | .insert _ | .sleep | .mkdir _ | .remove _ | .copyScript _ _ _ => true
  | _ => false

/-- what `magisk-path.sh` does -/
def looking : Cmd → Bool
  | .resolves | .isExecutable _ | .prepend _ => true
  | _ => false

/-- what the wait for the daemon does -/
def waiting : Cmd → Bool
  | .select1 | .sleep => true
  | _ => false

/-- what the scripts up to `magisk-env.sh` do -/
def quiet : Cmd → Bool
  | .install _ | .restartZygote | .launch _ | .wait => false
  | _ => true

/-- what `magisk-env.sh` does -/
def populating : Cmd → Bool
  | .isFile _ | .isDir _ | .isExecutable _ | .mkdir _ | .copyBinary _ _ _ | .copyScript _ _ _ | .chmod _ | .remove _ | .unzip _ _
  | .pattern _ _ => true
  | _ => false

/-- what `flash-modules.sh` and `launch-frida.sh` do -/
def flashing : Cmd → Bool
  | .isFile _ | .isDir _ | .isExecutable _ | .pattern _ _ | .install _ | .launch _ => true
  | _ => false

/-- what `activate-zygisk.sh` does -/
def restarting : Cmd → Bool
  | .restartZygote => true
  | _ => false

/-- everything but a restart of the zygote, and the end -/
def steady : Cmd → Bool
  | .restartZygote | .wait => false
  | _ => true

/-- no script gives up -/
def stays (_ : Exit) : Bool := false

def unreached (e : Exit) : Bool := e = .unreachable || e = .waiting

def leaves (_ : Exit) : Bool := true

section Disciplined

variable (env : Env)

theorem quiet_of_waiting (a : Cmd) (h : waiting a = true) : quiet a = true := by
  cases a <;> first | rfl | contradiction

theorem quiet_of_looking (a : Cmd) (h : looking a = true) : quiet a = true := by
  cases a <;> first | rfl | contradiction

theorem quiet_of_populating (a : Cmd) (h : populating a = true) : quiet a = true := by
  cases a <;> first | rfl | contradiction

theorem steady_of_flashing (a : Cmd) (h : flashing a = true) : steady a = true := by
  cases a <;> first | rfl | contradiction

theorem steady_of_quiet (a : Cmd) (h : quiet a = true) : steady a = true := by
  cases a <;> first | rfl | contradiction

theorem disciplined_prependFirst (dirs : List (List Char)) : Disciplined critical looking stays (prependFirst env dirs).run := by
  induction dirs with
  | nil => exact disciplined_pure ()
  | cons dir dirs ih => exact disciplined_ifOk rfl rfl (disciplined_attempt rfl rfl) ih

theorem disciplined_magiskPath : Disciplined critical looking stays (magiskPath env).run :=
  disciplined_ifOk rfl rfl (disciplined_pure ()) (disciplined_prependFirst env _)

theorem unreached_wait : unreached env.wait.2 = true := by
  unfold Env.wait
  split <;> rfl

theorem disciplined_awaitMagisk {e : Exit} (he : unreached e = true) (left : ℕ) :
    Disciplined critical waiting unreached (awaitMagisk e left).run := by
  induction left with
  | zero => exact disciplined_ifOk rfl rfl (disciplined_pure ()) (disciplined_leave he)
  | succ left ih => exact disciplined_ifOk rfl rfl (disciplined_pure ()) (disciplined_bind (disciplined_run rfl rfl) fun _ => ih)

theorem disciplined_insertFields (fields : List (List Char)) : Disciplined critical quiet stays (insertFields fields).run := by
  induction fields with
  | nil => exact disciplined_pure ()
  | cons field fields ih =>
    unfold insertFields
    split_ifs
    · exact ih
    · exact disciplined_bind (disciplined_run rfl rfl) fun _ => ih

theorem disciplined_enrol (packages : String) : Disciplined critical quiet stays (enrol env packages).run := by
  unfold enrol
  split_ifs
  · exact disciplined_pure ()
  · exact disciplined_insertFields _

theorem disciplined_magiskConfig : Disciplined critical quiet leaves (magiskConfig env).run := by
  apply disciplined_bind ((disciplined_awaitMagisk (unreached_wait env) _).mono quiet_of_waiting fun _ _ => rfl)
  intro _
  apply disciplined_bind (disciplined_must rfl rfl)
  intro prev
  apply disciplined_bind (disciplined_run rfl rfl)
  intro _
  apply disciplined_bind (disciplined_run rfl rfl)
  intro _
  apply disciplined_bind (disciplined_must rfl rfl)
  intro row
  split_ifs
  · exact disciplined_leave rfl
  · exact disciplined_bind ((disciplined_enrol env _).mono (fun _ h => h) fun _ _ => rfl) fun _ => disciplined_pure _

theorem disciplined_copyBinaries (bins : List String) : Disciplined critical populating stays (copyBinaries env bins).run := by
  induction bins with
  | nil => exact disciplined_pure ()
  | cons bin bins ih =>
    refine disciplined_bind (disciplined_ifOk rfl rfl ?_ (disciplined_pure ())) fun _ => ih
    exact disciplined_ifOk rfl rfl (disciplined_attempt rfl rfl) (disciplined_pure ())

theorem disciplined_copyScripts (assets : Path) (scripts : List String) :
    Disciplined critical populating stays (copyScripts env assets scripts).run := by
  induction scripts with
  | nil => exact disciplined_pure ()
  | cons script scripts ih =>
    exact disciplined_bind (disciplined_ifOk rfl rfl (disciplined_run rfl rfl) (disciplined_pure ())) fun _ => ih

theorem disciplined_extractScripts (apk tmp : Path) : Disciplined critical populating stays (extractScripts env apk tmp).run := by
  apply disciplined_bind (disciplined_run rfl rfl)
  intro _
  apply disciplined_bind (disciplined_run rfl rfl)
  intro _
  refine disciplined_bind (disciplined_ifOk rfl rfl ?_ (disciplined_pure ())) fun _ => disciplined_run rfl rfl
  exact disciplined_bind (disciplined_output rfl rfl) fun _ => disciplined_copyScripts env _ _

theorem disciplined_magiskEnv : Disciplined critical populating stays (magiskEnv env).run := by
  refine disciplined_ifOk rfl rfl (disciplined_pure ()) (disciplined_ifOk rfl rfl ?_ (disciplined_pure ()))
  apply disciplined_bind (disciplined_run rfl rfl)
  intro _
  apply disciplined_bind (disciplined_copyBinaries env _)
  intro _
  refine disciplined_bind (disciplined_ifOk rfl rfl ?_ (disciplined_pure ())) fun _ => disciplined_attempt rfl rfl
  exact disciplined_ifOk rfl rfl (disciplined_extractScripts env _ _) (disciplined_pure ())

/-- all commands -/
def anyCmd (_ : Cmd) : Bool := true

theorem disciplined_installModules (dir : Path) (zips : List String) :
    Disciplined critical flashing stays (installModules dir zips).run := by
  induction zips with
  | nil => exact disciplined_pure ()
  | cons zip zips ih =>
    exact disciplined_bind (disciplined_ifOk rfl rfl (disciplined_attempt rfl rfl) (disciplined_pure ())) fun _ => ih

theorem disciplined_flashModules : Disciplined critical flashing stays (flashModules env).run :=
  disciplined_ifOk rfl rfl (disciplined_bind (disciplined_output rfl rfl) fun _ => disciplined_installModules _ _)
    (disciplined_pure ())

theorem disciplined_activateZygisk (newly : Option String) :
    Disciplined critical restarting stays (activateZygisk env newly).run := by
  unfold activateZygisk
  split_ifs
  · exact disciplined_pure ()
  · exact disciplined_pure ()
  · exact disciplined_attempt rfl rfl

theorem disciplined_launchFrida : Disciplined critical flashing stays (launchFrida env).run :=
  disciplined_ifOk rfl rfl (disciplined_attempt rfl rfl) (disciplined_pure ())

theorem disciplined_entrypoint : Disciplined critical anyCmd leaves (entrypoint env).run := by
  apply disciplined_bind ((disciplined_magiskPath env).mono (fun _ _ => rfl) fun _ _ => rfl)
  intro _
  apply disciplined_bind ((disciplined_magiskConfig env).mono (fun _ _ => rfl) fun _ _ => rfl)
  intro newly
  apply disciplined_bind ((disciplined_magiskEnv env).mono (fun _ _ => rfl) fun _ _ => rfl)
  intro _
  apply disciplined_bind ((disciplined_flashModules env).mono (fun _ _ => rfl) fun _ _ => rfl)
  intro _
  apply disciplined_bind ((disciplined_activateZygisk env newly).mono (fun _ _ => rfl) fun _ _ => rfl)
  intro _
  apply disciplined_bind ((disciplined_launchFrida env).mono (fun _ _ => rfl) fun _ _ => rfl)
  intro _
  exact disciplined_attempt rfl rfl

end Disciplined

end Beetroot.Boot
