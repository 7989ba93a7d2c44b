/-
Does a batch of module installs account for every module?

`auto_install_modules` probes the device, then takes the sources one by one: it checks the zip on the host, pushes it, installs it
and removes it again. What goes wrong on the host is a `ValueError` and becomes a row. What goes wrong on the device is a
`RuntimeError`: `adb devices` is asked whether the device is still there, and the batch ends with a `DevicePreflightError` if it is
not. Everything else that `subprocess.run` and the file system raise passes through.

The answers of the host and of the device enter as a `World`. Each question is asked at most once for a module, so that a record of
answers for each position is every behaviour there is. `repr` of a string is a parameter.

Results:
- `autoInstallOne_spec`: the calls of one module, and what it ends with, by its answers;
- `offlineMessage_skipped`: the text of the offline error tells how many modules were not tried;
- `installLoop_accounts_iff`: the same for the loop, by induction on the modules that are left;
- `batch_accounts_iff`: a batch accounts for its modules exactly if no answer on its way is one that the code does not foresee.
-/
import Beetroot.Lib.Eff
import Beetroot.Lib.Posix
import Beetroot.Lib.Search
import Beetroot.Lib.Str

namespace Beetroot.Adb

open Lib Lib.Eff Lib.Posix Lib.Str

/-! ## What the host and the device answer -/

/-- captured output -/
structure Output where
  stdout : String
  stderr : String
deriving DecidableEq

/-- `subprocess.run` of an `adb` command with `text=True` and a timeout -/
inductive Ran where
  /-- it has ended; output that is not UTF-8 raises a `UnicodeDecodeError`, whose text this is -/
  | exited (returncode : Int) (output : Except String Output)
  | timedOut (output : Output)
  /-- it could not be started: an `OSError` -/
  | refused (error : String)

/-- `serial_is_available` -/
structure Probe where
  which : Bool
  devices : Ran

/-- the answers for one module; the errors of the file system are texts of an `OSError` -/
structure Attempt where
  found : Except String Bool
  isFile : Except String Bool
  sha256Of : Except String String
  push : Ran
  install : Ran
  remove : Ran
  probe : Probe

/-- the answers for a batch -/
structure World where
  which : Bool
  root : Ran
  magisk : Ran
  probe : Probe
  module : ℕ → Attempt

/-! ## `auto_install_modules`

`str.lower` is compared with `.zip` and with hex digests only, where no letter outside ASCII has its lower case. -/

/-- `ModuleInstallResult` -/
structure Row where
  source : String
  ok : Bool
  detail : String
deriving DecidableEq

inductive Exc where
  | value (text : String)
  | runtime (text : String)
  | os (text : String)
  /-- `DevicePreflightError` -/
  | preflight (text : String) (results : List Row)
  /-- `AdbNotInstalledError` -/
  | notInstalled (text : String)
deriving DecidableEq

/-- a command that was run, and for the module at which position (none for the pre-flight) -/
structure Call where
  index : Option ℕ
  argv : List String
  ran : Ran

abbrev M := EStateM Exc (List Call)

/-- `Path(source).parts`, less the root -/
def pathParts (source : String) : List (List Char) := (source.toList.splitOn '/').filter fun part => part ≠ [] && part ≠ ['.']

def pathRoot (source : String) : List Char :=
  if source.toList.take 2 = ['/', '/'] ∧ source.toList.take 3 ≠ ['/', '/', '/'] then ['/', '/']
  else if source.toList.head? = some '/' then ['/']
  else []

/-- `str(Path(source))` -/
def pathText (source : String) : String :=
  let text := pathRoot source ++ ['/'].intercalate (pathParts source)
  if text = [] then "." else String.ofList text

/-- `Path(source).name` -/
def pathName (source : String) : List Char := (pathParts source).getLast?.getD []

/-- `Path(source).suffix`: from the last dot of the name on, where something stands on both sides of it -/
def pathSuffix (source : String) : List Char :=
  let name := pathName source
  let after := (name.reverse.takeWhile (· ≠ '.')).reverse
  if after ≠ [] ∧ after.length + 1 < name.length then '.' :: after else []

def zipSuffix : List Char := ['.', 'z', 'i', 'p']

section Batch

variable (repr : String → String) (serial : String)

def reprArgs (args : List String) : String := "[" ++ ", ".intercalate (args.map repr) ++ "]"

def validatedZipSource (source : String) (a : Attempt) : Except Exc Unit :=
  match a.found with
  | .error e => .error (.os e)
  | .ok false => .error (.value ("module source " ++ repr source ++
      " does not exist on the host filesystem; download the zip first and pass its local path."))
  | .ok true =>
    match a.isFile with
    | .error e => .error (.os e)
    | .ok false => .error (.value ("module source " ++ repr source ++
        " is a directory, not a zip file; pass the path to the .zip itself."))
    | .ok true =>
      if lower (pathSuffix source) ≠ zipSuffix then
        .error (.value ("module source " ++ repr source ++
          " does not end in .zip; Magisk modules must be packaged as zip archives."))
      else .ok ()

def verifySha256 (source : String) (expected : String) (a : Attempt) : Except Exc Unit :=
  match a.sha256Of with
  | .error e => .error (.os e)
  | .ok actual =>
    if lower actual.toList ≠ lower expected.toList then
      .error (.value ("sha256 mismatch for " ++ String.ofList (pathName source) ++ ": expected " ++ expected ++ ", got " ++ actual))
    else .ok ()

/-- `_adb_unchecked` -/
def adbUnchecked (index : Option ℕ) (argv : List String) (ran : Ran) : M (Int × Output) := do
  let full := ["adb", "-s", serial] ++ argv
  modify (· ++ [⟨index, argv, ran⟩])
  match ran with
  | .refused e => throw (.os e)
  | .exited _ (.error e) => throw (.value e)
  | .exited rc (.ok out) => pure (rc, out)
  | .timedOut out =>
    pure (124, { out with stderr := if out.stderr = "" then "adb command " ++ reprArgs repr full ++ " timed out after 5s" else out.stderr })

def adbFailure (argv : List String) (rc : Int) (stderr : String) : String :=
  "adb command " ++ reprArgs repr (["adb", "-s", serial] ++ argv) ++ " failed (rc=" ++ toString rc ++ "): " ++
    String.ofList (Str.strip stderr.toList)

/-- `_adb` -/
def adb (index : Option ℕ) (argv : List String) (ran : Ran) : M Unit := do
  let res ← adbUnchecked repr serial index argv ran
  if res.1 ≠ 0 then throw (.runtime (adbFailure repr serial argv res.1 res.2.stderr))

/-- `shlex.quote` -/
def quote (s : String) : String := String.ofList (shlexQuote s.toList)

/-- `_adb_shell` through `su -c` -/
def suArgv (command : String) : List String := ["shell", "su", "-c", quote command]

def remote (index : ℕ) : String := "/data/local/tmp" ++ "/beetroot-module-" ++ toString index ++ ".zip"

def installCmd (index : ℕ) : String := "magisk --install-module " ++ quote (remote index)

def pushArgv (index : ℕ) (source : String) : List String := ["push", pathText source, remote index]

def installArgv (index : ℕ) : List String := suArgv (installCmd index)

def removeArgv (index : ℕ) : List String := suArgv ("rm -f " ++ quote (remote index))

/-- the way out of a `with contextlib.suppress(RuntimeError)` -/
def suppressed : Exc → M Unit
  | .runtime _ => pure ()
  | e => throw e

def suppressRuntime (x : M Unit) : M Unit := tryCatch x suppressed

/-- `_auto_install_one`, behind the checks on the host -/
def pushAndInstall (source : String) (index : ℕ) (a : Attempt) : M String := do
  adb repr serial index (pushArgv index source) a.push
  ensure (adb repr serial index (installArgv index) a.install)
    (suppressRuntime (adb repr serial index (removeArgv index) a.remove))
  pure ("installed via `su -c " ++ quote (installCmd index) ++ "`")

def verifyDigest (source : String) (sha256 : Option String) (a : Attempt) : Except Exc Unit :=
  match sha256 with
  | none => .ok ()
  | some expected => verifySha256 source expected a

/-- `_auto_install_one` -/
def autoInstallOne (source : String) (sha256 : Option String) (index : ℕ) (a : Attempt) : M String := do
  raising (validatedZipSource repr source a)
  raising (verifyDigest source sha256 a)
  pushAndInstall repr serial source index a

def listed (line : List Char) : Bool :=
  match Str.fields line with
  | name :: state :: _ => name = serial.toList ∧ state = "device".toList
  | _ => false

def serialIsAvailable (p : Probe) : Except Exc Bool :=
  if !p.which then .ok false
  else
    match p.devices with
    | .timedOut _ => .ok false
    | .refused e => .error (.os e)
    | .exited _ (.error e) => .error (.value e)
    | .exited rc (.ok out) => if rc ≠ 0 then .ok false else .ok ((Str.splitLines [] out.stdout.toList).any (listed serial))

/-- the end of the offline message -/
def skippedNote (skipped : ℕ) : String :=
  if skipped = 0 then ""
  else " (" ++ toString skipped ++ " " ++ ("remaining " ++ (if skipped = 1 then "module" else "modules") ++ " skipped)")

def offlineMessage (adbError : String) (skipped : ℕ) : String :=
  let msg := "device " ++ repr serial ++ " is offline or not connected (reconnect it, accept its USB-debugging authorization prompt " ++
    "if one is shown, and check `adb devices`)"
  let error := Str.strip adbError.toList
  let msg := if error = [] then msg else msg ++ " — last adb error: " ++ String.ofList error
  msg ++ skippedNote skipped

/-- the detail of the row of a module during which the device was lost -/
def offlineDetail (error : String) : String :=
  let adbError := Str.strip error.toList
  if adbError = [] then "device went offline during this module"
  else "device went offline during this module" ++ " — last adb error: " ++ String.ofList adbError

/-- the loop, with the rows so far; `total` is the number of all sources -/
def installLoop (w : World) (total : ℕ) : ℕ → List Row → List (String × Option String) → M (List Row)
  | _, results, [] => pure results
  | index, results, (source, digest) :: rest => fun log =>
    match autoInstallOne repr serial source digest index (w.module index) log with
    | .ok detail log => installLoop w total (index + 1) (results ++ [⟨source, true, detail⟩]) rest log
    | .error (.value e) log => installLoop w total (index + 1) (results ++ [⟨source, false, e⟩]) rest log
    | .error (.runtime e) log =>
      match serialIsAvailable serial (w.module index).probe with
      | .error exc => .error exc log
      | .ok false =>
        .error (.preflight (offlineMessage repr serial "" (total - index - 1)) (results ++ [⟨source, false, offlineDetail e⟩])) log
      | .ok true => installLoop w total (index + 1) (results ++ [⟨source, false, e⟩]) rest log
    | .error exc log => .error exc log

/-- `_abort_if_unavailable` -/
def abortIfUnavailable (w : World) (stderr : String) : M Unit := do
  let available ← raising (serialIsAvailable serial w.probe)
  if !available then throw (.preflight (offlineMessage repr serial stderr 0) [])

/-- a failed probe: the device is gone, or the probe has found something missing on it -/
def diagnose (w : World) (probe : Int × Output) (text : String) : M Unit :=
  if probe.1 ≠ 0 then do
    abortIfUnavailable repr serial w probe.2.stderr
    throw (.preflight text [])
  else pure ()

/-- `_preflight_root_and_magisk` -/
def preflightRootAndMagisk (w : World) : M Unit := do
  let root ← adbUnchecked repr serial none (suArgv "true") w.root
  diagnose repr serial w root ("device " ++ repr serial ++ " has no usable root " ++
    "(su missing or denied root — check the device is rooted and approve the Magisk superuser prompt)")
  let magisk ← adbUnchecked repr serial none (suArgv "command -v magisk") w.magisk
  diagnose repr serial w magisk ("device " ++ repr serial ++ " has root but no usable magisk binary " ++
    "(install or repair the Magisk app, then retry)")

/-- `digests` -/
def digestsOf (sources : List String) (sha256s : Option (List (Option String))) : List (Option String) :=
  sha256s.getD (List.replicate sources.length none)

def autoInstallModules (w : World) (sources : List String) (sha256s : Option (List (Option String))) : M (List Row) := do
  refuse (!w.which) (.notInstalled "adb not found on PATH (install android-tools)")
  let digests := digestsOf sources sha256s
  refuse (digests.length ≠ sources.length) (.value ("sha256s has " ++ toString digests.length ++ " entries for " ++
    toString sources.length ++ " sources; pass one digest per source (use None for unpinned entries)."))
  preflightRootAndMagisk repr serial w
  installLoop repr serial w sources.length 0 [] (sources.zip digests)

end Batch

/-! ## What the answers mean for one module -/

/-- how `_adb` ends: it returns, or raises a `RuntimeError`, a `ValueError` or an `OSError` -/
inductive Kind where
  | done
  | failed
  | garbled
  | refused
deriving DecidableEq

def Ran.kind : Ran → Kind
  | .exited rc (.ok _) => if rc = 0 then .done else .failed
  | .exited _ (.error _) => .garbled
  | .timedOut _ => .failed
  | .refused _ => .refused

/-- the command has succeeded -/
def Ran.zero : Ran → Bool
  | .exited rc _ => rc = 0
  | _ => false

/-- the zip of a module passes the checks on the host -/
def Checked (source : String) (sha256 : Option String) (a : Attempt) : Prop :=
  a.found = .ok true ∧ a.isFile = .ok true ∧ lower (pathSuffix source) = zipSuffix ∧
    ∀ expected ∈ sha256, ∃ actual, a.sha256Of = .ok actual ∧ lower actual.toList = lower expected.toList

/-- the file system answers what it is asked about a module -/
def HostAnswers (source : String) (sha256 : Option String) (a : Attempt) : Prop :=
  (∃ b, a.found = .ok b) ∧ (a.found = .ok true → ∃ b, a.isFile = .ok b) ∧
    (a.found = .ok true → a.isFile = .ok true → lower (pathSuffix source) = zipSuffix → sha256.isSome →
      ∃ actual, a.sha256Of = .ok actual)

/-- the install command of a module is run, and succeeds -/
def Installed (source : String) (sha256 : Option String) (a : Attempt) : Prop :=
  Checked source sha256 a ∧ a.push.kind = .done ∧ a.install.zero = true

/-- a module fails on the device, and nothing else goes wrong on the way -/
def AdbFails (source : String) (sha256 : Option String) (a : Attempt) : Prop :=
  Checked source sha256 a ∧ (a.push.kind = .failed ∨
    (a.push.kind = .done ∧ a.install.kind = .failed ∧ (a.remove.kind = .done ∨ a.remove.kind = .failed)))

def Probe.Answers (p : Probe) : Prop := p.which = true → p.devices.kind = .done ∨ p.devices.kind = .failed

/-- no answer for a module is one that the code does not foresee -/
structure Foreseen (source : String) (sha256 : Option String) (a : Attempt) : Prop where
  host : HostAnswers source sha256 a
  push : Checked source sha256 a → a.push.kind ≠ .refused
  remove : Checked source sha256 a → a.push.kind = .done → a.remove.kind ≠ .refused
  install : Checked source sha256 a → a.push.kind = .done → a.install.kind = .refused → a.remove.kind = .garbled
  heard : Installed source sha256 a → a.install.kind ≠ .garbled ∧ a.remove.kind ≠ .garbled
  probe : AdbFails source sha256 a → a.probe.Answers

/-- the device is gone after a failure -/
def Lost (serial : String) (source : String) (sha256 : Option String) (a : Attempt) : Prop :=
  AdbFails source sha256 a ∧ serialIsAvailable serial a.probe = .ok false

/-- the answers for the modules from a position on, until one of them loses the device -/
def BatchForeseen (serial : String) (w : World) : ℕ → List (String × Option String) → Prop
  | _, [] => True
  | index, (source, sha256) :: rest =>
    Foreseen source sha256 (w.module index) ∧
      (¬ Lost serial source sha256 (w.module index) → BatchForeseen serial w (index + 1) rest)

section Steps

variable {repr : String → String} {serial source : String} {sha256 : Option String} {index : ℕ} {i : Option ℕ} {a : Attempt}
variable {argv : List String} {ran : Ran} {log : List Call}

/-- the end of an `adb` command, by its kind -/
theorem adb_spec (repr : String → String) (serial : String) (i : Option ℕ) (argv : List String) (ran : Ran) (log : List Call) :
    (ran.kind = .done ∧ adb repr serial i argv ran log = .ok () (log ++ [⟨i, argv, ran⟩])) ∨
    (ran.kind = .failed ∧ ∃ e, adb repr serial i argv ran log = .error (.runtime e) (log ++ [⟨i, argv, ran⟩])) ∨
    (ran.kind = .garbled ∧ ∃ e, adb repr serial i argv ran log = .error (.value e) (log ++ [⟨i, argv, ran⟩])) ∨
    (ran.kind = .refused ∧ ∃ e, adb repr serial i argv ran log = .error (.os e) (log ++ [⟨i, argv, ran⟩])) := by
  cases ran with
  | refused e => exact .inr (.inr (.inr ⟨rfl, e, rfl⟩))
  | timedOut out => exact .inr (.inl ⟨rfl, _, rfl⟩)
  | exited rc output =>
    cases output with
    | error e => exact .inr (.inr (.inl ⟨rfl, e, rfl⟩))
    | ok out =>
      by_cases hrc : rc = 0
      · subst hrc
        exact .inl ⟨rfl, rfl⟩
      · refine .inr (.inl ⟨if_neg hrc, adbFailure repr serial argv rc out.stderr, ?_⟩)
        refine bind_error_iff.2 (.inr ⟨(rc, out), _, rfl, ?_⟩)
        rw [if_pos hrc]
        rfl

/-- the same for the removal, which does not fail -/
theorem suppress_spec (repr : String → String) (serial : String) (i : Option ℕ) (argv : List String) (ran : Ran) (log : List Call) :
    ((ran.kind = .done ∨ ran.kind = .failed) ∧
      suppressRuntime (adb repr serial i argv ran) log = .ok () (log ++ [⟨i, argv, ran⟩])) ∨
    (ran.kind = .garbled ∧
      ∃ e, suppressRuntime (adb repr serial i argv ran) log = .error (.value e) (log ++ [⟨i, argv, ran⟩])) ∨
    (ran.kind = .refused ∧
      ∃ e, suppressRuntime (adb repr serial i argv ran) log = .error (.os e) (log ++ [⟨i, argv, ran⟩])) := by
  rcases adb_spec repr serial i argv ran log with ⟨hk, h⟩ | ⟨hk, e, h⟩ | ⟨hk, e, h⟩ | ⟨hk, e, h⟩
  · exact .inl ⟨.inl hk, tryCatch_ok h⟩
  · exact .inl ⟨.inr hk, tryCatch_error h⟩
  · exact .inr (.inl ⟨hk, e, tryCatch_error h⟩)
  · exact .inr (.inr ⟨hk, e, tryCatch_error h⟩)

/-- the install and the removal behind it: what the removal raises comes first -/
theorem install_spec (repr : String → String) (serial : String) (index : ℕ) (a : Attempt) (log : List Call) :
    ∃ t, t = log ++ [⟨some index, installArgv index, a.install⟩, ⟨some index, removeArgv index, a.remove⟩] ∧
      let r := ensure (adb repr serial index (installArgv index) a.install)
        (suppressRuntime (adb repr serial index (removeArgv index) a.remove)) log
      (r = .ok () t ∧ a.install.kind = .done ∧ (a.remove.kind = .done ∨ a.remove.kind = .failed)) ∨
      (∃ e, r = .error (.runtime e) t ∧ a.install.kind = .failed ∧ (a.remove.kind = .done ∨ a.remove.kind = .failed)) ∨
      (∃ e, r = .error (.value e) t ∧ a.remove.kind ≠ .refused ∧ (a.install.kind = .garbled ∨ a.remove.kind = .garbled)) ∨
      (∃ e, r = .error (.os e) t ∧
        (a.remove.kind = .refused ∨ a.install.kind = .refused ∧ a.remove.kind ≠ .garbled)) := by
  refine ⟨_, rfl, ?_⟩
  have hlog : final (adb repr serial index (installArgv index) a.install log) =
      log ++ [⟨some index, installArgv index, a.install⟩] := by
    rcases adb_spec repr serial index (installArgv index) a.install log with ⟨-, h⟩ | ⟨-, e, h⟩ | ⟨-, e, h⟩ | ⟨-, e, h⟩
    all_goals rw [h, final]
  have hremove := suppress_spec repr serial index (removeArgv index) a.remove
    (log ++ [⟨some index, installArgv index, a.install⟩])
  rw [List.append_assoc] at hremove
  rcases hremove with ⟨hquiet, hr⟩ | ⟨hgarbled, e, hr⟩ | ⟨hrefused, e, hr⟩
  · have hne : a.remove.kind ≠ .refused ∧ a.remove.kind ≠ .garbled := by
      rcases hquiet with h | h <;> simp [h]
    rcases adb_spec repr serial index (installArgv index) a.install log with ⟨hk, h⟩ | ⟨hk, e, h⟩ | ⟨hk, e, h⟩ | ⟨hk, e, h⟩
    · exact .inl ⟨ensure_ok h hr, hk, hquiet⟩
    · exact .inr (.inl ⟨e, ensure_error h hr, hk, hquiet⟩)
    · exact .inr (.inr (.inl ⟨e, ensure_error h hr, hne.1, .inl hk⟩))
    · exact .inr (.inr (.inr ⟨e, ensure_error h hr, .inr ⟨hk, hne.2⟩⟩))
  · rw [← hlog] at hr
    exact .inr (.inr (.inl ⟨e, ensure_raise hr, by simp [hgarbled], .inr hgarbled⟩))
  · rw [← hlog] at hr
    exact .inr (.inr (.inr ⟨e, ensure_raise hr, .inl hrefused⟩))

theorem validatedZipSource_spec (repr : String → String) (source : String) (a : Attempt) :
    (validatedZipSource repr source a = .ok () ∧ a.found = .ok true ∧ a.isFile = .ok true ∧
      lower (pathSuffix source) = zipSuffix) ∨
    ((∃ e, validatedZipSource repr source a = .error (.value e)) ∧ ¬ Checked source sha256 a ∧ HostAnswers source sha256 a) ∨
    ((∃ e, validatedZipSource repr source a = .error (.os e)) ∧ ¬ Checked source sha256 a ∧ ¬ HostAnswers source sha256 a) := by
  unfold validatedZipSource Checked HostAnswers
  cases hfound : a.found with
  | error e => simp
  | ok found =>
    cases found with
    | false => simp
    | true =>
      cases hfile : a.isFile with
      | error e => simp
      | ok isFile =>
        cases isFile with
        | false => simp
        | true =>
          by_cases hzip : lower (pathSuffix source) = zipSuffix
          · simp [hzip]
          · simp [hzip]

theorem verifyDigest_spec (hfound : a.found = .ok true) (hfile : a.isFile = .ok true)
    (hzip : lower (pathSuffix source) = zipSuffix) :
    (verifyDigest source sha256 a = .ok () ∧ Checked source sha256 a ∧ HostAnswers source sha256 a) ∨
    ((∃ e, verifyDigest source sha256 a = .error (.value e)) ∧ ¬ Checked source sha256 a ∧ HostAnswers source sha256 a) ∨
    ((∃ e, verifyDigest source sha256 a = .error (.os e)) ∧ ¬ Checked source sha256 a ∧ ¬ HostAnswers source sha256 a) := by
  unfold verifyDigest Checked HostAnswers
  cases sha256 with
  | none => simp [hfound, hfile, hzip]
  | some expected =>
    unfold verifySha256
    cases hdigest : a.sha256Of with
    | error e => simp [hfound, hfile, hzip]
    | ok actual =>
      by_cases heq : lower actual.toList = lower expected.toList
      · simp [hfound, hfile, hzip, heq]
      · simp [hfound, hfile, hzip, heq]

/-- the checks on the host -/
theorem autoInstallOne_host (repr : String → String) (serial source : String) (sha256 : Option String) (index : ℕ) (a : Attempt)
    (log : List Call) :
    (Checked source sha256 a ∧ HostAnswers source sha256 a ∧
      autoInstallOne repr serial source sha256 index a log = pushAndInstall repr serial source index a log) ∨
    (¬ Checked source sha256 a ∧ HostAnswers source sha256 a ∧
      ∃ e, autoInstallOne repr serial source sha256 index a log = .error (.value e) log) ∨
    (¬ Checked source sha256 a ∧ ¬ HostAnswers source sha256 a ∧
      ∃ e, autoInstallOne repr serial source sha256 index a log = .error (.os e) log) := by
  have hraise : ∀ {e}, validatedZipSource repr source a = .error e →
      autoInstallOne repr serial source sha256 index a log = .error e log := by
    intro e h
    exact bind_error_iff.2 (.inl (raising_error_iff.2 ⟨h, rfl⟩))
  rcases @validatedZipSource_spec sha256 repr source a with
    ⟨hok, hfound, hfile, hzip⟩ | ⟨⟨e, h⟩, hchecked, hanswers⟩ | ⟨⟨e, h⟩, hchecked, hanswers⟩
  · have hnext : autoInstallOne repr serial source sha256 index a log =
        (raising (verifyDigest source sha256 a) >>= fun _ => pushAndInstall repr serial source index a) log := by
      unfold autoInstallOne
      rw [hok]
      rfl
    rcases verifyDigest_spec hfound hfile hzip with
      ⟨hok', hchecked, hanswers⟩ | ⟨⟨e, h⟩, hchecked, hanswers⟩ | ⟨⟨e, h⟩, hchecked, hanswers⟩
    · refine .inl ⟨hchecked, hanswers, ?_⟩
      rw [hnext, hok']
      rfl
    · refine .inr (.inl ⟨hchecked, hanswers, e, ?_⟩)
      rw [hnext, h]
      rfl
    · refine .inr (.inr ⟨hchecked, hanswers, e, ?_⟩)
      rw [hnext, h]
      rfl
  · exact .inr (.inl ⟨hchecked, hanswers, e, hraise h⟩)
  · exact .inr (.inr ⟨hchecked, hanswers, e, hraise h⟩)

theorem zero_of_done (h : ran.kind = .done) : ran.zero = true := by
  unfold Ran.kind at h
  split at h
  · split_ifs at h with hrc
    simp [Ran.zero, hrc]
  all_goals cases h

theorem not_zero_of_failed (h : ran.kind = .failed) : ran.zero = false := by
  unfold Ran.kind at h
  split at h
  · split_ifs at h with hrc
    simp [Ran.zero, hrc]
  · cases h
  · rfl
  · cases h

theorem suArgv_injective {x y : String} (h : suArgv x = suArgv y) : x = y := by
  have hquote : quote x = quote y := (List.cons.inj (List.cons.inj (List.cons.inj (List.cons.inj h).2).2).2).1
  exact String.toList_injective (shlexQuote_injective (String.ofList_injective hquote))

theorem rm_ne_magisk (x y : String) : "rm -f " ++ x ≠ "magisk --install-module " ++ y := by
  intro h
  have hrm : ("rm -f " ++ x).toList.head? = some 'r' := by
    rw [String.toList_append]
    rfl
  have hmagisk : ("magisk --install-module " ++ y).toList.head? = some 'm' := by
    rw [String.toList_append]
    rfl
  rw [h, hmagisk] at hrm
  exact absurd hrm (by decide)

theorem removeArgv_ne_installArgv (index : ℕ) : removeArgv index ≠ installArgv index :=
  fun h => rm_ne_magisk _ _ (suArgv_injective h)

/-- the commands of one module -/
structure Calls (source : String) (sha256 : Option String) (index : ℕ) (a : Attempt) (calls : List Call) : Prop where
  own : ∀ c ∈ calls, c.index = some index
  checked : ∀ c ∈ calls, Checked source sha256 a
  installed : (∃ c ∈ calls, c.argv = installArgv index ∧ c.ran.zero = true) ↔ Installed source sha256 a

theorem calls_nil (h : ¬ Checked source sha256 a) : Calls source sha256 index a [] where
  own := by simp
  checked := by simp
  installed := by simp [Installed, h]

theorem calls_push (h : Checked source sha256 a) (hpush : a.push.kind ≠ .done) :
    Calls source sha256 index a [⟨some index, pushArgv index source, a.push⟩] where
  own := by simp
  checked := fun _ _ => h
  installed := by simp [Installed, hpush, pushArgv, installArgv, suArgv]

theorem calls_install (h : Checked source sha256 a) (hpush : a.push.kind = .done) :
    Calls source sha256 index a [⟨some index, pushArgv index source, a.push⟩, ⟨some index, installArgv index, a.install⟩,
      ⟨some index, removeArgv index, a.remove⟩] where
  own := by simp
  checked := fun _ _ => h
  installed := by
    have hremove := removeArgv_ne_installArgv index
    have hne : pushArgv index source ≠ installArgv index := by simp [pushArgv, installArgv, suArgv]
    simp [Installed, h, hpush, hremove, hne]

/-- how a module ends, and what its answers say then -/
def Ends (source : String) (sha256 : Option String) (a : Attempt) (r : EStateM.Result Exc (List Call) String) (t : List Call) : Prop :=
  ((∃ d, r = .ok d t) ∧ Installed source sha256 a ∧ Foreseen source sha256 a ∧ ¬ AdbFails source sha256 a) ∨
  ((∃ e, r = .error (.value e) t) ∧ (Foreseen source sha256 a ↔ ¬ Installed source sha256 a) ∧ ¬ AdbFails source sha256 a) ∨
  ((∃ e, r = .error (.runtime e) t) ∧ ¬ Installed source sha256 a ∧ AdbFails source sha256 a ∧
    (Foreseen source sha256 a ↔ a.probe.Answers)) ∨
  ((∃ e, r = .error (.os e) t) ∧ ¬ Foreseen source sha256 a)

theorem ends_unchecked (hchecked : ¬ Checked source sha256 a) (hanswers : HostAnswers source sha256 a)
    {r : EStateM.Result Exc (List Call) String} {e : String} (h : r = .error (.value e) log) : Ends source sha256 a r log := by
  have hinstalled : ¬ Installed source sha256 a := fun h => hchecked h.1
  have hfails : ¬ AdbFails source sha256 a := fun h => hchecked h.1
  have hforeseen : Foreseen source sha256 a :=
    ⟨hanswers, fun h => absurd h hchecked, fun h => absurd h hchecked, fun h => absurd h hchecked,
      fun h => absurd h hinstalled, fun h => absurd h hfails⟩
  exact .inr (.inl ⟨⟨e, h⟩, ⟨fun _ => hinstalled, fun _ => hforeseen⟩, hfails⟩)

section Checked

variable (hchecked : Checked source sha256 a) (hanswers : HostAnswers source sha256 a)

include hchecked hanswers

/-- the push does not succeed -/
theorem ends_push (hpush : a.push.kind ≠ .done) :
    ∃ calls, Calls source sha256 index a calls ∧
      Ends source sha256 a (pushAndInstall repr serial source index a log) (log ++ calls) := by
  have hinstalled : ¬ Installed source sha256 a := fun h => hpush h.2.1
  have hforeseen : a.push.kind ≠ .refused → (AdbFails source sha256 a → a.probe.Answers) → Foreseen source sha256 a :=
    fun hne hprobe => ⟨hanswers, fun _ => hne, fun _ h => absurd h hpush, fun _ h => absurd h hpush,
      fun h => absurd h hinstalled, hprobe⟩
  refine ⟨_, calls_push hchecked hpush, ?_⟩
  rcases adb_spec repr serial index (pushArgv index source) a.push log with ⟨hk, -⟩ | ⟨hk, e, h⟩ | ⟨hk, e, h⟩ | ⟨hk, e, h⟩
  · exact absurd hk hpush
  · have hfails : AdbFails source sha256 a := ⟨hchecked, .inl hk⟩
    refine .inr (.inr (.inl ⟨⟨e, bind_error_iff.2 (.inl h)⟩, hinstalled, hfails, ?_⟩))
    exact ⟨fun hf => hf.probe hfails, fun hp => hforeseen (by simp [hk]) fun _ => hp⟩
  · have hfails : ¬ AdbFails source sha256 a := by
      intro hf
      simp [AdbFails, hk] at hf
    refine .inr (.inl ⟨⟨e, bind_error_iff.2 (.inl h)⟩, ?_, hfails⟩)
    exact ⟨fun _ => hinstalled, fun _ => hforeseen (by simp [hk]) fun hf => absurd hf hfails⟩
  · exact .inr (.inr (.inr ⟨⟨e, bind_error_iff.2 (.inl h)⟩, fun hf => hf.push hchecked hk⟩))

/-- the push succeeds -/
theorem ends_install (hpush : a.push.kind = .done) :
    ∃ calls, Calls source sha256 index a calls ∧
      Ends source sha256 a (pushAndInstall repr serial source index a log) (log ++ calls) := by
  have hpushed : adb repr serial index (pushArgv index source) a.push log =
      .ok () (log ++ [⟨some index, pushArgv index source, a.push⟩]) := by
    rcases adb_spec repr serial index (pushArgv index source) a.push log with ⟨-, h⟩ | ⟨hk, -⟩ | ⟨hk, -⟩ | ⟨hk, -⟩
    · exact h
    all_goals exact absurd (hpush.symm.trans hk) (by decide)
  obtain ⟨t, ht, hends⟩ := install_spec repr serial index a (log ++ [⟨some index, pushArgv index source, a.push⟩])
  rw [List.append_assoc] at ht
  have hraise : ∀ {e}, ensure (adb repr serial index (installArgv index) a.install)
      (suppressRuntime (adb repr serial index (removeArgv index) a.remove))
        (log ++ [⟨some index, pushArgv index source, a.push⟩]) = .error e t →
      pushAndInstall repr serial source index a log = .error e t :=
    fun h => bind_error_iff.2 (.inr ⟨(), _, hpushed, bind_error_iff.2 (.inl h)⟩)
  have hfailing : AdbFails source sha256 a ↔ a.install.kind = .failed ∧ (a.remove.kind = .done ∨ a.remove.kind = .failed) := by
    simp [AdbFails, hchecked, hpush]
  have hinstalled : Installed source sha256 a ↔ a.install.zero = true := by simp [Installed, hchecked, hpush]
  refine ⟨_, calls_install hchecked hpush, ?_⟩
  rw [← List.singleton_append, ← ht]
  rcases hends with ⟨h, hin, hrm⟩ | ⟨e, h, hin, hrm⟩ | ⟨e, h, hne, hgarbled⟩ | ⟨e, h, hrefused⟩
  · have hfails : ¬ AdbFails source sha256 a := by simp [hfailing, hin]
    have hquiet : a.remove.kind ≠ .refused ∧ a.remove.kind ≠ .garbled := by rcases hrm with h | h <;> simp [h]
    refine .inl ⟨⟨_, bind_ok_iff.2 ⟨(), _, hpushed, bind_ok_iff.2 ⟨(), t, h, rfl⟩⟩⟩, hinstalled.2 (zero_of_done hin), ?_, hfails⟩
    exact ⟨hanswers, fun _ => by simp [hpush], fun _ _ => hquiet.1, fun _ _ hk => by simp [hin] at hk,
      fun _ => ⟨by simp [hin], hquiet.2⟩, fun hf => absurd hf hfails⟩
  · have hzero : ¬ Installed source sha256 a := by simp [hinstalled, not_zero_of_failed hin]
    have hquiet : a.remove.kind ≠ .refused := by rcases hrm with h | h <;> simp [h]
    have hfails : AdbFails source sha256 a := hfailing.2 ⟨hin, hrm⟩
    refine .inr (.inr (.inl ⟨⟨e, hraise h⟩, hzero, hfails, fun hf => hf.probe hfails, fun hp => ?_⟩))
    exact ⟨hanswers, fun _ => by simp [hpush], fun _ _ => hquiet, fun _ _ hk => by simp [hin] at hk,
      fun hi => absurd hi hzero, fun _ => hp⟩
  · have hfails : ¬ AdbFails source sha256 a := by
      rw [hfailing]
      rintro ⟨hin, hrm⟩
      rcases hgarbled with hk | hk <;> simp [hk] at hin hrm
    refine .inr (.inl ⟨⟨e, hraise h⟩, ⟨fun hf hi => ?_, fun hi => ?_⟩, hfails⟩)
    · obtain ⟨hin, hrm⟩ := hf.heard hi
      exact hgarbled.elim hin hrm
    · exact ⟨hanswers, fun _ => by simp [hpush], fun _ _ => hne,
        fun _ _ hk => hgarbled.resolve_left (by simp [hk]), fun h => absurd h hi, fun hf => absurd hf hfails⟩
  · refine .inr (.inr (.inr ⟨⟨e, hraise h⟩, fun hf => ?_⟩))
    rcases hrefused with hrm | ⟨hin, hrm⟩
    · exact hf.remove hchecked hpush hrm
    · exact hrm (hf.install hchecked hpush hin)

end Checked

/-- one module: its commands, and how it ends -/
theorem autoInstallOne_spec (repr : String → String) (serial source : String) (sha256 : Option String) (index : ℕ) (a : Attempt)
    (log : List Call) : ∃ calls, Calls source sha256 index a calls ∧
      Ends source sha256 a (autoInstallOne repr serial source sha256 index a log) (log ++ calls) := by
  rcases autoInstallOne_host repr serial source sha256 index a log with
    ⟨hchecked, hanswers, hrun⟩ | ⟨hchecked, hanswers, e, hrun⟩ | ⟨hchecked, hanswers, e, hrun⟩
  · rw [hrun]
    by_cases hpush : a.push.kind = .done
    · exact ends_install hchecked hanswers hpush
    · exact ends_push hchecked hanswers hpush
  · refine ⟨[], calls_nil hchecked, ?_⟩
    rw [List.append_nil]
    exact ends_unchecked hchecked hanswers hrun
  · refine ⟨[], calls_nil hchecked, .inr (.inr (.inr ⟨⟨e, ?_⟩, fun hf => hanswers hf.host⟩))⟩
    rw [List.append_nil]
    exact hrun

end Steps

/-! ## Batches -/

/-- the rows are those of the first sources, each of them is right, and nothing with a wrong digest was pushed -/
structure Report (w : World) (sources : List String) (digests : List (Option String)) (rows : List Row) (log : List Call) : Prop where
  sources : rows.map Row.source = sources.take rows.length
  right : ∀ i row, rows[i]? = some row →
    (row.ok = true ↔ ∃ c ∈ log, c.index = some i ∧ c.argv = installArgv i ∧ c.ran.zero = true)
  unpushed : ∀ i expected actual, digests[i]? = some (some expected) → (w.module i).sha256Of = .ok actual →
    lower actual.toList ≠ lower expected.toList → ∀ c ∈ log, c.index = some i → c.argv.head? ≠ some "push"

/-- a batch accounts for its modules: a row for each, or the device was lost and the rest was skipped -/
def Accounts (repr : String → String) (serial : String) (w : World) (sources : List String) (digests : List (Option String)) :
    EStateM.Result Exc (List Call) (List Row) → Prop
  | .ok rows log => rows.length = sources.length ∧ Report w sources digests rows log
  | .error (.preflight text rows) log =>
    Report w sources digests rows log ∧ (∃ row, rows.getLast? = some row ∧ row.ok = false) ∧
      ∃ skipped, text = offlineMessage repr serial "" skipped ∧ rows.length + skipped = sources.length
  | .error _ _ => False

section Batches

variable {repr : String → String} {serial source : String} {sha256 : Option String} {i : ℕ} {w : World}
variable {sources : List String} {digests : List (Option String)} {rows results : List Row} {row : Row}
variable {log calls : List Call} {rest : List (String × Option String)}

/-- the state of the loop in front of a position -/
structure Progress (w : World) (sources : List String) (digests : List (Option String)) (i : ℕ) (rows : List Row) (log : List Call) :
    Prop extends Report w sources digests rows log where
  length : rows.length = i
  before : ∀ c ∈ log, ∀ j, c.index = some j → j < i

theorem Progress.step (h : Progress w sources digests i rows log) (hsource : sources[i]? = some source)
    (hdigest : digests[i]? = some sha256) (hcalls : Calls source sha256 i (w.module i) calls)
    (hname : row.source = source) (hrow : row.ok = true ↔ Installed source sha256 (w.module i)) :
    Progress w sources digests (i + 1) (rows ++ [row]) (log ++ calls) where
  sources := by
    rw [List.map_append, h.sources, h.length, List.length_append, h.length, List.length_singleton, List.take_add_one, hsource]
    simp [hname]
  right := by
    intro j row' hj
    rw [List.getElem?_append] at hj
    split_ifs at hj with hlt
    · -- an earlier row: the new commands are not its own
      have hne : j ≠ i := by
        have hlen := h.length
        omega
      rw [h.right j row' hj]
      refine exists_congr fun c => ?_
      rw [List.mem_append]
      refine ⟨fun hc => ⟨.inl hc.1, hc.2⟩, fun hc => ⟨hc.1.resolve_right fun hmem => hne ?_, hc.2⟩⟩
      exact Option.some_inj.1 (hc.2.1.symm.trans (hcalls.own c hmem))
    · have hji : j = i := by
        have hlen := h.length
        have hbound := (List.getElem?_eq_some_iff.1 hj).1
        simp only [List.length_singleton] at hbound
        omega
      subst hji
      rw [h.length, Nat.sub_self, List.getElem?_cons_zero, Option.some_inj] at hj
      subst hj
      rw [hrow, ← hcalls.installed]
      constructor
      · rintro ⟨c, hc, hargv, hzero⟩
        exact ⟨c, List.mem_append_right _ hc, hcalls.own c hc, hargv, hzero⟩
      · rintro ⟨c, hc, hown, hargv, hzero⟩
        refine ⟨c, (List.mem_append.1 hc).resolve_left fun hold => ?_, hargv, hzero⟩
        exact Nat.lt_irrefl _ (h.before c hold j hown)
  unpushed := by
    intro j expected actual hj hactual hne c hc hown
    rcases List.mem_append.1 hc with hold | hnew
    · exact h.unpushed j expected actual hj hactual hne c hold hown
    · have hji : i = j := Option.some_inj.1 ((hcalls.own c hnew).symm.trans hown)
      subst hji
      rw [hdigest, Option.some_inj] at hj
      subst hj
      obtain ⟨-, -, -, hmatch⟩ := hcalls.checked c hnew
      obtain ⟨actual', hactual', heq⟩ := hmatch expected rfl
      rw [hactual, Except.ok.injEq] at hactual'
      exact absurd (hactual' ▸ heq) hne
  length := by rw [List.length_append, h.length, List.length_singleton]
  before := by
    intro c hc j hown
    rcases List.mem_append.1 hc with hold | hnew
    · exact Nat.lt_succ_of_lt (h.before c hold j hown)
    · rw [hcalls.own c hnew, Option.some_inj] at hown
      omega

theorem serialIsAvailable_spec (serial : String) (p : Probe) :
    (p.Answers ∧ ∃ b, serialIsAvailable serial p = .ok b) ∨
    (¬ p.Answers ∧ ((∃ e, serialIsAvailable serial p = .error (.os e)) ∨ ∃ e, serialIsAvailable serial p = .error (.value e))) := by
  unfold Probe.Answers serialIsAvailable
  cases p.which with
  | false => simp
  | true =>
    cases p.devices with
    | timedOut out => simp [Ran.kind]
    | refused e => simp [Ran.kind]
    | exited rc output =>
      cases output with
      | error e => simp [Ran.kind]
      | ok out =>
        by_cases hrc : rc = 0
        · simp [Ran.kind, hrc]
        · simp [Ran.kind, hrc]

/-- the rows and the commands so far are the first of all -/
def Extends (results : List Row) (log : List Call) : EStateM.Result Exc (List Call) (List Row) → Prop
  | .ok rows t => results <+: rows ∧ log <+: t
  | .error (.preflight _ rows) t => results <+: rows ∧ log <+: t
  | .error _ _ => True

theorem Extends.trans {r : EStateM.Result Exc (List Call) (List Row)} (h : Extends (results ++ [row]) (log ++ calls) r) :
    Extends results log r := by
  cases r with
  | ok rows t => exact ⟨(List.prefix_append _ _).trans h.1, (List.prefix_append _ _).trans h.2⟩
  | error e t =>
    cases e with
    | preflight text rows => exact ⟨(List.prefix_append _ _).trans h.1, (List.prefix_append _ _).trans h.2⟩
    | value e => trivial
    | runtime e => trivial
    | os e => trivial
    | notInstalled e => trivial

theorem installLoop_extends (repr : String → String) (serial : String) (w : World) (total i : ℕ) (results : List Row)
    (rest : List (String × Option String)) (log : List Call) :
    Extends results log (installLoop repr serial w total i results rest log) := by
  induction rest generalizing i results log with
  | nil => exact ⟨List.prefix_rfl, List.prefix_rfl⟩
  | cons head rest ih =>
    obtain ⟨source, sha256⟩ := head
    rw [installLoop]
    obtain ⟨calls, -, ⟨⟨d, hr⟩, -⟩ | ⟨⟨e, hr⟩, -⟩ | ⟨⟨e, hr⟩, -⟩ | ⟨⟨e, hr⟩, -⟩⟩ :=
      autoInstallOne_spec repr serial source sha256 i (w.module i) log
    · simp only [hr]
      exact (ih _ _ _).trans
    · simp only [hr]
      exact (ih _ _ _).trans
    · simp only [hr]
      rcases serialIsAvailable_spec serial (w.module i).probe with ⟨-, b, hb⟩ | ⟨-, ⟨e', he⟩ | ⟨e', he⟩⟩
      · simp only [hb]
        cases b with
        | true => exact (ih _ _ _).trans
        | false => exact ⟨List.prefix_append _ _, List.prefix_append _ _⟩
      · simp only [he]
        trivial
      · simp only [he]
        trivial
    · simp only [hr]
      trivial

/-- a row that is wrong stays in the report -/
theorem not_accounts_of_wrong {r : EStateM.Result Exc (List Call) (List Row)} (h : Extends results log r)
    (hrow : results[i]? = some row) (hok : row.ok = false)
    (hcall : ∃ c ∈ log, c.index = some i ∧ c.argv = installArgv i ∧ c.ran.zero = true) :
    ¬ Accounts repr serial w sources digests r := by
  have hwrong : ∀ rows t, results <+: rows ∧ log <+: t → ¬ Report w sources digests rows t := by
    rintro rows t ⟨hrows, ht⟩ hreport
    obtain ⟨c, hc, hown⟩ := hcall
    have hmem : rows[i]? = some row := by
      rw [← hrow]
      exact (List.prefix_iff_getElem?.1 hrows i (List.getElem?_eq_some_iff.1 hrow).1).trans (List.getElem?_eq_getElem _).symm
    have htrue := (hreport.right i row hmem).2 ⟨c, ht.subset hc, hown⟩
    rw [hok] at htrue
    exact Bool.false_ne_true htrue
  cases r with
  | ok rows t => exact fun ha => hwrong rows t h ha.2
  | error e t =>
    cases e with
    | preflight text rows => exact fun ha => hwrong rows t h ha.1
    | value e => exact id
    | runtime e => exact id
    | os e => exact id
    | notInstalled e => exact id

/-- the module at the head of what is left -/
theorem getElem?_of_drop {head : String × Option String} (hrest : (sources.zip digests).drop i = head :: rest) :
    sources[i]? = some head.1 ∧ digests[i]? = some head.2 ∧ (sources.zip digests).drop (i + 1) = rest := by
  have hget : (sources.zip digests)[i]? = some head := by
    rw [← Nat.add_zero i, ← List.getElem?_drop, hrest]
    rfl
  have htail : (sources.zip digests).drop (i + 1) = rest := by
    rw [← List.tail_drop, hrest, List.tail_cons]
  obtain ⟨hs, hd⟩ := List.getElem?_zip_eq_some.1 hget
  exact ⟨hs, hd, htail⟩

/-- behind the last module every module has its row -/
theorem Progress.length_all (hp : Progress w sources digests i results log) (hlen : digests.length = sources.length)
    (hrest : (sources.zip digests).drop i = []) : results.length = sources.length := by
  have hle : sources.length ≤ i := by
    have hdrop := List.drop_eq_nil_iff.1 hrest
    rw [List.length_zip, hlen, Nat.min_self] at hdrop
    exact hdrop
  have hge : i ≤ sources.length := by
    have hmap := congrArg List.length hp.sources
    rw [List.length_map, List.length_take, hp.length] at hmap
    omega
  exact hp.length.trans (Nat.le_antisymm hge hle)

/-- an install that has succeeded with a row that says it has not: no report is right any more -/
theorem Progress.misreported {e : String} (hp : Progress w sources digests i results log)
    (hcalls : Calls source sha256 i (w.module i) calls) (hinstalled : Installed source sha256 (w.module i)) :
    ¬ Accounts repr serial w sources digests
      (installLoop repr serial w sources.length (i + 1) (results ++ [⟨source, false, e⟩]) rest (log ++ calls)) := by
  obtain ⟨c, hc, hargv, hzero⟩ := hcalls.installed.2 hinstalled
  have hlast : (results ++ [⟨source, false, e⟩])[i]? = some ⟨source, false, e⟩ := by
    rw [← hp.length]
    exact List.getElem?_concat_length
  apply not_accounts_of_wrong (installLoop_extends repr serial w sources.length (i + 1) _ rest (log ++ calls)) hlast rfl
  exact ⟨c, List.mem_append_right _ hc, hcalls.own c hc, hargv, hzero⟩

/-- the device is lost behind a failed module -/
theorem Progress.lost (hp : Progress w sources digests (i + 1) (results ++ [row]) log) (hlt : i < sources.length)
    (hok : row.ok = false) : Accounts repr serial w sources digests
      (.error (.preflight (offlineMessage repr serial "" (sources.length - i - 1)) (results ++ [row])) log) := by
  refine ⟨hp.toReport, ⟨row, List.getLast?_concat, hok⟩, _, rfl, ?_⟩
  rw [hp.length]
  omega

theorem installLoop_accounts_iff (hlen : digests.length = sources.length) (hrest : (sources.zip digests).drop i = rest)
    (hp : Progress w sources digests i results log) :
    Accounts repr serial w sources digests (installLoop repr serial w sources.length i results rest log) ↔
      BatchForeseen serial w i rest := by
  induction rest generalizing i results log with
  | nil =>
    exact ⟨fun _ => trivial, fun _ => ⟨hp.length_all hlen hrest, hp.toReport⟩⟩
  | cons head rest ih =>
    obtain ⟨source, sha256⟩ := head
    obtain ⟨hsource, hdigest, htail⟩ := getElem?_of_drop hrest
    have hlt : i < sources.length := (List.getElem?_eq_some_iff.1 hsource).1
    obtain ⟨calls, hcalls, hends⟩ := autoInstallOne_spec repr serial source sha256 i (w.module i) log
    rw [installLoop, BatchForeseen]
    rcases hends with ⟨⟨d, hr⟩, hinstalled, hforeseen, hfails⟩ | ⟨⟨e, hr⟩, hforeseen, hfails⟩ |
      ⟨⟨e, hr⟩, hinstalled, hfails, hforeseen⟩ | ⟨⟨e, hr⟩, hforeseen⟩
    · simp only [hr]
      have hnext : Progress w sources digests (i + 1) (results ++ [⟨source, true, d⟩]) (log ++ calls) :=
        hp.step hsource hdigest hcalls rfl ⟨fun _ => hinstalled, fun _ => rfl⟩
      rw [ih htail hnext]
      exact ⟨fun h => ⟨hforeseen, fun _ => h⟩, fun h => h.2 fun hl => hfails hl.1⟩
    · simp only [hr]
      by_cases hinstalled : Installed source sha256 (w.module i)
      · -- the install has succeeded, and the row says that it has not
        exact ⟨fun h => absurd h (hp.misreported hcalls hinstalled), fun h => absurd hinstalled (hforeseen.1 h.1)⟩
      · have hnext : Progress w sources digests (i + 1) (results ++ [⟨source, false, e⟩]) (log ++ calls) :=
          hp.step hsource hdigest hcalls rfl ⟨fun h => absurd h Bool.false_ne_true, fun h => absurd h hinstalled⟩
        rw [ih htail hnext]
        exact ⟨fun h => ⟨hforeseen.2 hinstalled, fun _ => h⟩, fun h => h.2 fun hl => hfails hl.1⟩
    · simp only [hr]
      have hnext : ∀ detail, Progress w sources digests (i + 1) (results ++ [⟨source, false, detail⟩]) (log ++ calls) :=
        fun detail => hp.step hsource hdigest hcalls rfl ⟨fun h => absurd h Bool.false_ne_true, fun h => absurd h hinstalled⟩
      rcases serialIsAvailable_spec serial (w.module i).probe with ⟨hanswers, b, hb⟩ | ⟨hanswers, ⟨e', he⟩ | ⟨e', he⟩⟩
      · cases b with
        | true =>
          simp only [hb]
          rw [ih htail (hnext e)]
          have hkept : ¬ Lost serial source sha256 (w.module i) := fun hl => by simp [hl.2] at hb
          exact ⟨fun h => ⟨hforeseen.2 hanswers, fun _ => h⟩, fun h => h.2 hkept⟩
        | false =>
          simp only [hb]
          have hlost : Lost serial source sha256 (w.module i) := ⟨hfails, hb⟩
          exact ⟨fun _ => ⟨hforeseen.2 hanswers, fun h => absurd hlost h⟩, fun _ => (hnext _).lost hlt rfl⟩
      · simp only [he]
        exact ⟨False.elim, fun h => absurd (hforeseen.1 h.1) hanswers⟩
      · simp only [he]
        exact ⟨False.elim, fun h => absurd (hforeseen.1 h.1) hanswers⟩
    · simp only [hr]
      exact ⟨False.elim, fun h => absurd h.1 hforeseen⟩

theorem skippedNote_injective {m n : ℕ} (h : skippedNote m = skippedNote n) : m = n := by
  have hopen : ∀ {k}, k ≠ 0 → ∃ rest : List Char, (skippedNote k).toList = ' ' :: '(' :: ((toString k).toList ++ ' ' :: rest) := by
    intro k hk
    rw [skippedNote, if_neg hk]
    generalize "remaining " ++ (if k = 1 then "module" else "modules") ++ " skipped)" = rest
    exact ⟨rest.toList, by simp⟩
  have hblank : ∀ k : ℕ, ' ' ∉ (toString k).toList := by
    intro k hk
    rcases Search.mem_toString (n := (k : Int)) hk with h | h
    · exact absurd h (by decide)
    · exact absurd h (by decide)
  have hlists := congrArg String.toList h
  by_cases hm : m = 0
  · by_cases hn : n = 0
    · rw [hm, hn]
    · obtain ⟨rest, hrest⟩ := hopen hn
      rw [hm, hrest] at hlists
      cases hlists
  · obtain ⟨rest, hrest⟩ := hopen hm
    by_cases hn : n = 0
    · rw [hn, hrest] at hlists
      cases hlists
    · obtain ⟨rest', hrest'⟩ := hopen hn
      rw [hrest, hrest', List.cons.injEq, List.cons.injEq] at hlists
      have hdigits := Search.append_sep_inj (hblank m) (hblank n) hlists.2.2
      have hint := Search.toString_toList_inj (m := (m : Int)) (n := (n : Int)) (Int.natCast_nonneg m) (Int.natCast_nonneg n) hdigits
      exact Int.ofNat.inj hint

/-- the offline message says how many modules were not tried -/
theorem offlineMessage_skipped {m n : ℕ} (h : offlineMessage repr serial "" m = offlineMessage repr serial "" n) : m = n := by
  apply skippedNote_injective
  have hlists := congrArg String.toList h
  rw [offlineMessage, offlineMessage, String.toList_append, String.toList_append] at hlists
  exact String.toList_injective (List.append_cancel_left hlists)

/-! ## The pre-flight -/

/-- `adb` is there, and the device answers the two probes -/
def PreflightPassed (repr : String → String) (serial : String) (w : World) : Prop :=
  w.which = true ∧ ∃ t, preflightRootAndMagisk repr serial w [] = .ok () t

theorem adbUnchecked_ok {index : Option ℕ} {argv : List String} {ran : Ran} {p : Int × Output} {t : List Call}
    (h : adbUnchecked repr serial index argv ran log = .ok p t) : t = log ++ [⟨index, argv, ran⟩] := by
  cases ran with
  | refused e => cases h
  | timedOut out =>
    cases h
    rfl
  | exited rc output =>
    cases output with
    | error e => cases h
    | ok out =>
      cases h
      rfl

theorem diagnose_ok {probe : Int × Output} {text : String} {u : Unit} {t : List Call}
    (h : diagnose repr serial w probe text log = .ok u t) : t = log := by
  unfold diagnose at h
  split_ifs at h with hc
  · obtain ⟨a, v, -, hthrow⟩ := bind_ok_iff.1 h
    cases hthrow
  · exact (pure_ok_iff.1 h).2

theorem preflight_calls {t : List Call} (h : preflightRootAndMagisk repr serial w [] = .ok () t) : ∀ c ∈ t, c.index = none := by
  obtain ⟨root, t₁, hroot, h⟩ := bind_ok_iff.1 h
  obtain ⟨_, t₂, hguard, h⟩ := bind_ok_iff.1 h
  obtain ⟨magisk, t₃, hmagisk, h⟩ := bind_ok_iff.1 h
  rw [diagnose_ok h, adbUnchecked_ok hmagisk, diagnose_ok hguard, adbUnchecked_ok hroot]
  simp

theorem length_digestsOf {sha256s : Option (List (Option String))} (hlen : ∀ ds ∈ sha256s, ds.length = sources.length) :
    (digestsOf sources sha256s).length = sources.length := by
  cases sha256s with
  | none => simp [digestsOf]
  | some ds => exact hlen ds rfl

/-- behind the pre-flight there is the loop -/
theorem autoInstallModules_eq {sha256s : Option (List (Option String))} {t : List Call} (hwhich : w.which = true)
    (hlen : ∀ ds ∈ sha256s, ds.length = sources.length) (hpre : preflightRootAndMagisk repr serial w [] = .ok () t) :
    autoInstallModules repr serial w sources sha256s [] =
      installLoop repr serial w sources.length 0 [] (sources.zip (digestsOf sources sha256s)) t := by
  have hdigests : (digestsOf sources sha256s).length = sources.length := length_digestsOf hlen
  unfold autoInstallModules
  rw [bind_refuse (by rw [hwhich]; rfl), bind_refuse (by simp [hdigests]), bind_of_ok hpre]

theorem progress_start (h : ∀ c ∈ log, c.index = none) : Progress w sources digests 0 [] log where
  sources := rfl
  right := by simp
  unpushed := by
    intro i expected actual _ _ _ c hc hown
    rw [h c hc] at hown
    cases hown
  length := rfl
  before := by
    intro c hc j hown
    rw [h c hc] at hown
    cases hown

/-- After a pre-flight that passed, a batch accounts for its modules, on the host and on the device, exactly if no answer on its way
is one that the code does not foresee. -/
theorem batch_accounts_iff (repr : String → String) (serial : String) (w : World) (sources : List String)
    (sha256s : Option (List (Option String))) (hlen : ∀ ds ∈ sha256s, ds.length = sources.length)
    (hpre : PreflightPassed repr serial w) :
    Accounts repr serial w sources (digestsOf sources sha256s) (autoInstallModules repr serial w sources sha256s []) ↔
      BatchForeseen serial w 0 (sources.zip (digestsOf sources sha256s)) := by
  obtain ⟨hwhich, t, ht⟩ := hpre
  rw [autoInstallModules_eq hwhich hlen ht]
  exact installLoop_accounts_iff (length_digestsOf hlen) List.drop_zero (progress_start (preflight_calls ht))

end Batches

/-! ## A device -/

/-- a string in quotes, as `repr` gives a plain one -/
def quoted (s : String) : String := "'" ++ s ++ "'"

/-- a command that has succeeded without a word -/
def silent : Ran := .exited 0 (.ok ⟨"", ""⟩)

/-- a module that goes through -/
def smooth : Attempt where
  found := .ok true
  isFile := .ok true
  sha256Of := .ok "00"
  push := silent
  install := silent
  remove := silent
  probe := ⟨true, silent⟩

/-- a rooted device, with these answers for every module -/
def rooted (a : Attempt) : World where
  which := true
  root := silent
  magisk := silent
  probe := ⟨true, silent⟩
  module _ := a

theorem preflightPassed_rooted (a : Attempt) : PreflightPassed quoted "emulator-5554" (rooted a) := ⟨rfl, _, rfl⟩

theorem foreseen_smooth (source : String) (sha256 : Option String) : Foreseen source sha256 smooth where
  host := ⟨⟨true, rfl⟩, fun _ => ⟨true, rfl⟩, fun _ _ _ _ => ⟨"00", rfl⟩⟩
  push _ := by decide
  remove _ _ := by decide
  install _ _ h := absurd h (by decide)
  heard _ := by decide
  probe _ _ := .inl rfl

theorem batch_accounts_smooth :
    PreflightPassed quoted "emulator-5554" (rooted smooth) ∧
    Accounts quoted "emulator-5554" (rooted smooth) ["a.zip", "b.zip"] [none, none]
      (autoInstallModules quoted "emulator-5554" (rooted smooth) ["a.zip", "b.zip"] none []) :=
  ⟨preflightPassed_rooted smooth,
    (batch_accounts_iff quoted "emulator-5554" (rooted smooth) ["a.zip", "b.zip"] none (by simp) (preflightPassed_rooted smooth)).2
      ⟨foreseen_smooth _ _, fun _ => ⟨foreseen_smooth _ _, fun _ => trivial⟩⟩⟩

/-- a zip that may not be read -/
def unreadable : Attempt := { smooth with sha256Of := .error "[Errno 13] Permission denied: '/srv/m.zip'" }

/-- with a digest for the zip the batch ends in a `PermissionError`, and no module has a row -/
theorem unreadable_zip_aborts :
    PreflightPassed quoted "emulator-5554" (rooted unreadable) ∧
    ¬ Accounts quoted "emulator-5554" (rooted unreadable) ["/srv/m.zip"] [some "00"]
      (autoInstallModules quoted "emulator-5554" (rooted unreadable) ["/srv/m.zip"] (some [some "00"]) []) := by
  obtain ⟨hwhich, t, ht⟩ := preflightPassed_rooted unreadable
  refine ⟨⟨hwhich, t, ht⟩, fun h => ?_⟩
  have hlen : ∀ ds ∈ some [some "00"], ds.length = ["/srv/m.zip"].length := by simp
  rw [autoInstallModules_eq hwhich hlen ht] at h
  have hforeseen := (installLoop_accounts_iff rfl List.drop_zero (progress_start (preflight_calls ht))).1 h
  obtain ⟨actual, hactual⟩ := hforeseen.1.host.2.2 rfl rfl (by decide +kernel) rfl
  cases hactual

end Beetroot.Adb
