/-
Does `ls` account for every registered instance?

The rows of `ls` come from `Manager.all`, which resolves every name and skips the ones that fail; the orphan advisory comes from
`list_orphans`, a scan of its own over the redroid rows. A row of a kind that is not installed is skipped by design: it is kept
for a later read, and `ls` says nothing about it. Then every row is rendered, and rendering a redroid or a vm row resolves its
ports once more. Every row asks a probe as well, and a probe may raise: what `docker compose ps` or `adb devices` prints may not
be text, and so may `qemu.pid`, which may also hold a number that is no process id.

Results:
- `resolve_ok_iff`: which rows `Manager.all` keeps;
- `mem_listOrphans`: which rows the advisory names;
- `isRunning_ok`: when the probe of a vm row returns;
- `ls_completes_iff`: `ls` returns exactly when the ports of every listed redroid and vm row resolve and every probe returns;
- `ls_partition_iff`: `ls` returns and names every instance in exactly one place, exactly when every row is `Accounted` and
  every probe returns;
- `ls_accounts`: which rows are listed, which are orphans and which are neither;
- `ls_skips_unknown_kind`: a registered name in neither place.
-/
import Mathlib.Data.List.Sort
import Beetroot.Build.Marker
import Beetroot.Registration.Scan
import Beetroot.Vm.Recognise

namespace Beetroot.Listing

open Lib Lib.Fs Scan

variable {T : Type}

/-! ## `Manager.resolve` -/

/-- a `DeviceBackend` -/
inductive Device where
  | redroid (name path : String) (cfg : InstanceConfig)
  | vm (name path : String) (cfg : InstanceConfig) (index : Int)
  | adb (name serial : String) (hostForwardPort : Int)

def Device.name : Device → String
  | .redroid name _ _ | .vm name _ _ _ | .adb name _ _ => name

/-- the ways in which a name fails to resolve; `Manager.all` catches them all -/
inductive ResolveError where
  | notFound
  | noYaml
  | badYaml
  | port (e : PortError)

section Resolve

variable (p : Paths) (w : World T)

/-- the config of a directory-backed row -/
def loadConfig (path : String) : Except ResolveError InstanceConfig :=
  match loadYaml w.fs (p.resolve path) with
  | some (.valid cfg) => .ok cfg
  | some .invalid => .error .badYaml
  | none => .error .noYaml

/-- `cls.from_meta(name, backend)` -/
def fromMeta (name : String) (m : InstanceMeta T) : Except ResolveError Device :=
  match m.backend with
  | .redroid path _ => (loadConfig p w path).map fun cfg => .redroid name path cfg
  | .vm path => (loadConfig p w path).map fun cfg => .vm name path cfg m.index
  | .adb serial =>
    match portsForIndex m.index with
    | .ok table => .ok (.adb name serial ((table.lookup "frida").getD 0))
    | .error e => .error (.port e)
  | .unresolved _ => .error .notFound

def resolve (name : String) : Except ResolveError Device :=
  match w.reg.instances.get? name with
  | some m => fromMeta p w name m
  | none => .error .notFound

def sortedNames (names : List String) : List String := names.insertionSort (· ≤ ·)

/-- `Manager.all` -/
def all : List Device := (sortedNames w.reg.instances.keys).filterMap fun name => (resolve p w name).toOption

/-- a redroid row whose `beetroot.yaml` is not there or does not load -/
def isOrphan (m : InstanceMeta T) : Bool :=
  match m.backend with
  | .redroid path _ =>
    match loadYaml w.fs (p.resolve path) with
    | some (.valid _) => false
    | _ => true
  | _ => false

/-- `Manager.list_orphans` -/
def listOrphans : List String :=
  sortedNames ((w.reg.instances.entries.filter fun e => isOrphan p w e.2).map Prod.fst)

/-- `_ls_rows` -/
def lsRows : List (String × InstanceMeta T × Device) :=
  (all p w).filterMap fun b => (w.reg.instances.get? b.name).map fun m => (b.name, m, b)

end Resolve

/-! ## `ls` -/

/-- what `read_text` gives -/
inductive ReadText where
  /-- an `OSError` -/
  | unreadable
  /-- a `UnicodeDecodeError` -/
  | undecodable
  | text (t : String)
deriving DecidableEq

/-- what the probes of the status columns see -/
structure Probes where
  /-- `compose.ps_status`; `none` if it raises -/
  composeStatus : String → String → Option String
  /-- `serial_is_available`; `none` if it raises -/
  serialIsAvailable : String → Option Bool
  /-- `qemu.pid` of an instance directory -/
  pidfile : String → ReadText
  /-- `os.kill(pid, 0)` finds a process -/
  alive : Int → Bool
  /-- `/proc/<pid>/cmdline` -/
  procCmdline : Int → ReadText

inductive LsError where
  | port (e : PortError)
  /-- no host port for `adb` -/
  | keyError
  | decode
  /-- an `OverflowError` -/
  | overflow
  /-- an exception of the probe of docker or adb -/
  | probe

section Probe

variable (probes : Probes)

/-- `read_pid` -/
def readPid (path : String) : Except LsError (Option Int) :=
  match probes.pidfile path with
  | .unreadable => .ok none
  | .undecodable => .error .decode
  | .text t => .ok (Build.pyInt t.toList)

/-- `_pid_is_qemu` -/
def pidIsQemu (port : Int) (pid : Int) : Except LsError Bool :=
  match probes.procCmdline pid with
  | .unreadable => .ok false
  | .undecodable => .error .decode
  | .text t => .ok (Vm.cmdlineIsQemu (some port) t)

/-- a `pid_t` -/
def IsPid (pid : Int) : Prop := -2 ^ 31 ≤ pid ∧ pid < 2 ^ 31

instance (pid : Int) : Decidable (IsPid pid) := inferInstanceAs (Decidable (_ ∧ _))

/-- `QemuProcess.is_running` of the instance at `path` -/
def isRunning (port : Int) (path : String) : Except LsError Bool := do
  match ← readPid probes path with
  | none => pure false
  | some pid =>
    if IsPid pid then (if probes.alive pid then pidIsQemu probes port pid else pure false)
    else throw .overflow

def answered {α : Type} : Option α → Except LsError α
  | some a => .ok a
  | none => .error .probe

end Probe

/-- the `localhost` address of a well-known service -/
def localhost (host : Int) : String := "localhost:" ++ toString host

/-- `FRIDA_ADDRESS_UNSUPPORTED` -/
def fridaAddressUnsupported : String := "unsupported"

/-- the resolved ports of a config, with the host port of `adb` and the address of `frida` -/
def addresses (index : Int) (cfg : InstanceConfig) : Except LsError (List ResolvedPort × Int × String) :=
  match resolvePorts index cfg.ports with
  | .error e => .error (.port e)
  | .ok resolved =>
    match (wellKnown resolved).get? "adb" with
    | none => .error .keyError
    | some adb =>
      .ok (resolved, adb, (((wellKnown resolved).get? "frida").map localhost).getD fridaAddressUnsupported)

section Ls

variable (probes : Probes) (P : Pydantic T)

def availability (available : Bool) : String := if available then "available" else "unavailable"

/-- `_ls_table_row` -/
def lsTableRow : String × InstanceMeta T × Device → Except LsError (List String)
  | (name, m, .redroid _ path cfg) => do
    let status ← answered (probes.composeStatus name path)
    let a ← addresses m.index cfg
    return [name, "redroid", toString m.index, localhost a.2.1, a.2.2, status, path]
  | (name, m, .vm _ path cfg index) => do
    let a ← addresses index cfg
    let running ← isRunning probes a.2.1 path
    return [name, "vm", toString m.index, localhost a.2.1, fridaAddressUnsupported, availability running, path]
  | (name, m, .adb _ serial port) => do
    let available ← answered (probes.serialIsAvailable serial)
    return [name, "adb", toString m.index, serial, localhost port, availability available, "-"]

def jsonPort (rp : ResolvedPort) : Json :=
  .obj [("service", (rp.service.map Json.str).getD .null), ("guest", .int rp.guest), ("host", .int rp.host)]

def jsonStealthPaths : BackendConfig → Json
  | .redroid _ sp => .obj (sp.entries.map fun e => (e.1, .str e.2))
  | _ => .obj []

/-- `_backend_json_row` -/
def backendJsonRow : String × InstanceMeta T × Device → Except LsError (String × Json)
  | (name, m, .redroid _ path cfg) => do
    let a ← addresses m.index cfg
    let status ← answered (probes.composeStatus name path)
    return (name, .obj [("name", .str name), ("kind", .str "redroid"), ("index", .int m.index),
      ("created_at", .str (P.isoformat m.createdAt)), ("ports", .arr (a.1.map jsonPort)), ("status", .str status),
      ("adb_address", .str (localhost a.2.1)), ("frida_address", .str a.2.2), ("stealth_paths", jsonStealthPaths m.backend),
      ("path", .str path), ("adb", .str (localhost a.2.1)), ("frida", .str a.2.2)])
  | (name, m, .vm _ path cfg index) => do
    let a ← addresses index cfg
    let running ← isRunning probes a.2.1 path
    return (name, .obj [("name", .str name), ("kind", .str "vm"), ("index", .int m.index),
      ("created_at", .str (P.isoformat m.createdAt)), ("adb_address", .str (localhost a.2.1)),
      ("frida_address", .str fridaAddressUnsupported), ("is_available", .bool running),
      ("stealth_paths", .obj []), ("path", .str path)])
  | (name, m, .adb _ serial port) => do
    let available ← answered (probes.serialIsAvailable serial)
    return (name, .obj [("name", .str name), ("kind", .str "adb"), ("index", .int m.index),
      ("created_at", .str (P.isoformat m.createdAt)), ("adb_address", .str serial), ("frida_address", .str (localhost port)),
      ("is_available", .bool available), ("stealth_paths", .obj []), ("serial", .str serial)])

/-- what goes to the output -/
inductive Printed where
  | table (rows : List (List String))
  | json (rows : List (String × Json))

/-- the names in the first column, or the keys of the object -/
def Printed.names : Printed → List String
  | .table rows => rows.filterMap List.head?
  | .json rows => rows.map Prod.fst

/-- the rows and the names of the orphan advisory; an empty table is not printed -/
def ls (p : Paths) (jsonOut : Bool) (w : World T) : Except LsError (Printed × List String) :=
  if jsonOut then ((lsRows p w).mapM (backendJsonRow probes P)).map fun rows => (.json rows, listOrphans p w)
  else ((lsRows p w).mapM (lsTableRow probes)).map fun rows => (.table rows, listOrphans p w)

end Ls

/-! ## Which rows resolve -/

section Except

variable {α β ε : Type} {f : α → β} {g : α → Except ε β}

theorem map_ok_iff {x : Except ε α} {b : β} : x.map f = .ok b ↔ ∃ a, x = .ok a ∧ f a = b := by
  cases x with
  | error e => simp [Except.map]
  | ok a => simp [Except.map]

theorem bind_ok_iff {h : α → Except ε β} {x : Except ε α} {b : β} : x >>= h = .ok b ↔ ∃ a, x = .ok a ∧ h a = .ok b := by
  cases x with
  | error e => simp [bind, Except.bind]
  | ok a => simp [bind, Except.bind]

theorem bind_returns_iff {h : α → Except ε β} {x : Except ε α} :
    (∃ b, x >>= h = .ok b) ↔ ∃ a, x = .ok a ∧ ∃ b, h a = .ok b := by
  simp only [bind_ok_iff]
  rw [exists_comm]
  exact exists_congr fun a => exists_and_left

/-- a loop that may raise returns exactly when every round does -/
theorem mapM_ok_iff {l : List α} {bs : List β} : l.mapM g = .ok bs ↔ List.Forall₂ (fun a b => g a = .ok b) l bs := by
  induction l generalizing bs with
  | nil => simp [pure, Except.pure, eq_comm]
  | cons a l ih =>
    rw [List.mapM_cons, List.forall₂_cons_left_iff]
    cases ha : g a with
    | error e => simp [bind, Except.bind]
    | ok b =>
      cases hl : l.mapM g with
      | error e =>
        have hnone : ∀ bs, ¬ List.Forall₂ (fun a b => g a = .ok b) l bs := by
          intro bs h
          rw [← ih, hl] at h
          cases h
        simp [bind, Except.bind, hnone]
      | ok bs' =>
        have hsome : ∀ bs, List.Forall₂ (fun a b => g a = .ok b) l bs ↔ bs' = bs := by
          intro bs
          rw [← ih, hl, Except.ok.injEq]
        simp [bind, Except.bind, pure, Except.pure, hsome, eq_comm]

theorem mapM_returns_iff {l : List α} : (∃ bs, l.mapM g = .ok bs) ↔ ∀ a ∈ l, ∃ b, g a = .ok b := by
  simp only [mapM_ok_iff]
  induction l with
  | nil => simp
  | cons a l ih =>
    rw [List.forall_mem_cons, ← ih]
    constructor
    · rintro ⟨bs, h⟩
      obtain ⟨b, bs', hb, hbs, -⟩ := List.forall₂_cons_left_iff.1 h
      exact ⟨⟨b, hb⟩, bs', hbs⟩
    · rintro ⟨⟨b, hb⟩, bs, hbs⟩
      exact ⟨b :: bs, .cons hb hbs⟩

end Except

section Names

variable {p : Paths} {w : World T} {name : String} {m : InstanceMeta T}

/-- the directory-backed row has a valid config -/
def Loads (p : Paths) (w : World T) (path : String) (cfg : InstanceConfig) : Prop :=
  loadYaml w.fs (p.resolve path) = some (.valid cfg)

/-- the row becomes a backend: a valid config, or an index in range -/
def Resolves (p : Paths) (w : World T) (m : InstanceMeta T) : Prop :=
  match m.backend with
  | .redroid path _ | .vm path => ∃ cfg, Loads p w path cfg
  | .adb _ => InRange m.index
  | .unresolved _ => False

theorem loadConfig_ok_iff {path : String} {cfg : InstanceConfig} : loadConfig p w path = .ok cfg ↔ Loads p w path cfg := by
  unfold loadConfig Loads
  split
  · rename_i cfg' h
    rw [h]
    simp
  · rename_i h
    rw [h]
    simp
  · rename_i h
    rw [h]
    simp

theorem portsForIndex_ok {index : Int} : (∃ table, portsForIndex index = .ok table) ↔ InRange index := by
  unfold portsForIndex
  constructor
  · rintro ⟨table, h⟩
    cases hc : checkIndex index with
    | error e =>
      rw [hc] at h
      cases h
    | ok u => exact checkIndex_ok.1 hc
  · intro h
    rw [checkIndex_ok.2 h]
    exact ⟨_, rfl⟩

theorem fromMeta_ok_iff : (∃ b, fromMeta p w name m = .ok b) ↔ Resolves p w m := by
  have hload : ∀ (path : String) (f : InstanceConfig → Device),
      (∃ b, (loadConfig p w path).map f = .ok b) ↔ ∃ cfg, Loads p w path cfg := by
    intro path f
    constructor
    · rintro ⟨b, h⟩
      obtain ⟨cfg, hc, -⟩ := map_ok_iff.1 h
      exact ⟨cfg, loadConfig_ok_iff.1 hc⟩
    · rintro ⟨cfg, h⟩
      exact ⟨_, map_ok_iff.2 ⟨cfg, loadConfig_ok_iff.2 h, rfl⟩⟩
  unfold fromMeta Resolves
  cases m.backend with
  | redroid path sp => exact hload path _
  | vm path => exact hload path _
  | adb serial =>
    rw [← portsForIndex_ok]
    cases portsForIndex m.index with
    | ok table => exact iff_of_true ⟨_, rfl⟩ ⟨_, rfl⟩
    | error e =>
      refine iff_of_false ?_ ?_
      · rintro ⟨b, h⟩
        cases h
      · rintro ⟨table, h⟩
        cases h
  | unresolved raw =>
    refine iff_of_false ?_ id
    rintro ⟨b, h⟩
    cases h

theorem fromMeta_name {b : Device} (h : fromMeta p w name m = .ok b) : b.name = name := by
  unfold fromMeta at h
  split at h
  · obtain ⟨cfg, -, rfl⟩ := map_ok_iff.1 h
    rfl
  · obtain ⟨cfg, -, rfl⟩ := map_ok_iff.1 h
    rfl
  · split at h
    · cases h
      rfl
    · cases h
  · cases h

theorem sortedNames_perm (names : List String) : (sortedNames names).Perm names := List.perm_insertionSort _ names

theorem resolve_ok_iff {b : Device} : (resolve p w name).toOption = some b ↔
    ∃ m, w.reg.instances.get? name = some m ∧ fromMeta p w name m = .ok b := by
  unfold resolve
  cases hm : w.reg.instances.get? name with
  | none => simp [Except.toOption]
  | some m =>
    cases hf : fromMeta p w name m with
    | error e => simp [hf, Except.toOption]
    | ok b' => simp [hf, Except.toOption]

/-- the rows are the registered names that resolve, each with its backend -/
theorem mem_lsRows {b : Device} : (name, m, b) ∈ lsRows p w ↔
    w.reg.instances.get? name = some m ∧ fromMeta p w name m = .ok b := by
  unfold lsRows all
  constructor
  · intro h
    obtain ⟨b', hb, hrow⟩ := List.mem_filterMap.1 h
    obtain ⟨m', hm, heq⟩ := Option.map_eq_some_iff.1 hrow
    cases heq
    obtain ⟨n, -, hr⟩ := List.mem_filterMap.1 hb
    obtain ⟨mn, hn, hf⟩ := resolve_ok_iff.1 hr
    rw [fromMeta_name hf] at hm ⊢
    rw [hm] at hn
    cases hn
    exact ⟨hm, hf⟩
  · rintro ⟨hm, hb⟩
    have hmem : name ∈ sortedNames w.reg.instances.keys :=
      (sortedNames_perm _).mem_iff.2 (Dict.get?_isSome.1 (by rw [hm]; rfl))
    have hname := fromMeta_name hb
    refine List.mem_filterMap.2 ⟨b, List.mem_filterMap.2 ⟨name, hmem, resolve_ok_iff.2 ⟨m, hm, hb⟩⟩, ?_⟩
    simp [hname, hm]

theorem mem_lsRows_names : name ∈ (lsRows p w).map Prod.fst ↔
    ∃ m, w.reg.instances.get? name = some m ∧ Resolves p w m := by
  constructor
  · intro h
    obtain ⟨⟨n, m, b⟩, hb, rfl⟩ := List.mem_map.1 h
    obtain ⟨hm, hf⟩ := mem_lsRows.1 hb
    exact ⟨m, hm, fromMeta_ok_iff.1 ⟨b, hf⟩⟩
  · rintro ⟨m, hm, hr⟩
    have hb : ∃ b, fromMeta p w name m = .ok b := fromMeta_ok_iff.2 hr
    obtain ⟨b, hb⟩ := hb
    exact List.mem_map.2 ⟨(name, m, b), mem_lsRows.2 ⟨hm, hb⟩, rfl⟩

/-- what is kept of a list, and named as it was, is a sublist of it -/
theorem filterMap_names_sublist {α : Type} {g : String → Option α} {nameOf : α → String}
    (h : ∀ n a, g n = some a → nameOf a = n) (names : List String) :
    ((names.filterMap g).map nameOf).Sublist names := by
  induction names with
  | nil => exact List.Sublist.refl []
  | cons n names ih =>
    cases hg : g n with
    | none =>
      rw [List.filterMap_cons_none hg]
      exact ih.cons n
    | some a =>
      rw [List.filterMap_cons_some hg, List.map_cons, h n a hg]
      exact ih.cons_cons n

theorem nodup_lsRows : ((lsRows p w).map Prod.fst).Nodup := by
  have hone : lsRows p w = (sortedNames w.reg.instances.keys).filterMap fun n =>
      (resolve p w n).toOption.bind fun b => (w.reg.instances.get? b.name).map fun m => (b.name, m, b) := by
    rw [lsRows, all, List.filterMap_filterMap]
  have hkeep : ∀ n (row : String × InstanceMeta T × Device), ((resolve p w n).toOption.bind fun b =>
      (w.reg.instances.get? b.name).map fun m => (b.name, m, b)) = some row → row.1 = n := by
    intro n row h
    obtain ⟨b, hb, hrow⟩ := Option.bind_eq_some_iff.1 h
    obtain ⟨m, -, rfl⟩ := Option.map_eq_some_iff.1 hrow
    obtain ⟨m', -, hf⟩ := resolve_ok_iff.1 hb
    exact fromMeta_name hf
  rw [hone]
  refine (filterMap_names_sublist hkeep _).nodup ?_
  exact (sortedNames_perm _).nodup_iff.2 w.reg.instances.nodup

theorem mem_listOrphans : name ∈ listOrphans p w ↔ ∃ m, w.reg.instances.get? name = some m ∧ isOrphan p w m = true := by
  unfold listOrphans
  rw [(sortedNames_perm _).mem_iff, List.mem_map]
  constructor
  · rintro ⟨e, he, rfl⟩
    obtain ⟨hmem, ho⟩ := List.mem_filter.1 he
    exact ⟨e.2, Dict.get?_of_mem hmem, ho⟩
  · rintro ⟨m, hm, ho⟩
    exact ⟨(name, m), List.mem_filter.2 ⟨Dict.get?_eq_some.1 hm, ho⟩, rfl⟩

theorem nodup_listOrphans : (listOrphans p w).Nodup := by
  unfold listOrphans
  rw [(sortedNames_perm _).nodup_iff]
  exact w.reg.instances.nodup.sublist (List.filter_sublist.map _)

/-- an orphan does not resolve -/
theorem not_resolves_of_isOrphan (h : isOrphan p w m = true) : ¬ Resolves p w m := by
  unfold isOrphan at h
  unfold Resolves
  split at h
  · rename_i path sp hb
    rw [hb]
    rintro ⟨cfg, hcfg⟩
    rw [Loads] at hcfg
    rw [hcfg] at h
    cases h
  · cases h

end Names

/-! ## Which rows can be rendered -/

section Rendering

variable {p : Paths} {w : World T} {probes : Probes} {P : Pydantic T}

theorem addresses_ok {index : Int} {cfg : InstanceConfig} :
    (∃ a, addresses index cfg = .ok a) ↔ ∃ resolved, resolvePorts index cfg.ports = .ok resolved := by
  unfold addresses
  cases h : resolvePorts index cfg.ports with
  | error e => simp
  | ok resolved =>
    obtain ⟨adb, hadb⟩ := adb_port cfg h
    simp [hadb]

theorem answered_ok {α : Type} {a : Option α} : (∃ b, answered a = .ok b) ↔ a.isSome = true := by
  cases a with
  | none => simp [answered]
  | some a => simp [answered]

/-- the pid file and the command line to which it leads are text where they can be read, and it holds no number beyond a process
id -/
def Readable (probes : Probes) (path : String) : Prop :=
  probes.pidfile path ≠ .undecodable ∧
    ∀ pid, readPid probes path = .ok (some pid) →
      IsPid pid ∧ (probes.alive pid = true → probes.procCmdline pid ≠ .undecodable)

theorem pidIsQemu_ok {port pid : Int} : (∃ b, pidIsQemu probes port pid = .ok b) ↔ probes.procCmdline pid ≠ .undecodable := by
  unfold pidIsQemu
  cases probes.procCmdline pid with
  | _ => simp

theorem readPid_ok {path : String} : (∃ pid, readPid probes path = .ok pid) ↔ probes.pidfile path ≠ .undecodable := by
  unfold readPid
  cases probes.pidfile path with
  | _ => simp

theorem isRunning_ok {port : Int} {path : String} :
    (∃ b, isRunning probes port path = .ok b) ↔ Readable probes path := by
  have hread := @readPid_ok probes path
  unfold isRunning Readable
  rw [bind_returns_iff, ← hread]
  constructor
  · intro ⟨found, hfound, hrest⟩
    refine ⟨⟨found, hfound⟩, fun pid hpid => ?_⟩
    rw [hfound, Except.ok.injEq] at hpid
    subst hpid
    simp only at hrest
    split_ifs at hrest with hbig halive
    · exact ⟨hbig, fun _ => pidIsQemu_ok.1 hrest⟩
    · exact ⟨hbig, fun h => absurd h halive⟩
    · obtain ⟨_, hrest⟩ := hrest
      cases hrest
  · intro ⟨⟨found, hfound⟩, hall⟩
    refine ⟨found, hfound, ?_⟩
    cases found with
    | none => exact ⟨false, rfl⟩
    | some pid =>
      obtain ⟨hpid, hcmd⟩ := hall pid hfound
      simp only
      rw [if_pos hpid]
      split_ifs with halive
      · exact pidIsQemu_ok.2 (hcmd halive)
      · exact ⟨false, rfl⟩

/-- the ports that a row is rendered with resolve -/
def Ports : String × InstanceMeta T × Device → Prop
  | (_, m, .redroid _ _ cfg) => ∃ resolved, resolvePorts m.index cfg.ports = .ok resolved
  | (_, _, .vm _ _ cfg index) => ∃ resolved, resolvePorts index cfg.ports = .ok resolved
  | (_, _, .adb _ _ _) => True

/-- the probe of a row returns -/
def Answers (probes : Probes) : String × InstanceMeta T × Device → Prop
  | (name, _, .redroid _ path _) => (probes.composeStatus name path).isSome = true
  | (_, _, .vm _ path _ _) => Readable probes path
  | (_, _, .adb _ serial _) => (probes.serialIsAvailable serial).isSome = true

theorem lsTableRow_ok (row : String × InstanceMeta T × Device) :
    (∃ r, lsTableRow probes row = .ok r) ↔ Ports row ∧ Answers probes row := by
  obtain ⟨name, m, b⟩ := row
  cases b with
  | redroid n path cfg =>
    calc (∃ r, lsTableRow probes (name, m, .redroid n path cfg) = .ok r)
      _ ↔ ∃ status, answered (probes.composeStatus name path) = .ok status ∧ ∃ a, addresses m.index cfg = .ok a := by
          unfold lsTableRow
          simp only [bind_returns_iff, pure, Except.pure, Except.ok.injEq, exists_eq', and_true]
      _ ↔ (∃ status, answered (probes.composeStatus name path) = .ok status) ∧ ∃ a, addresses m.index cfg = .ok a :=
          exists_and_right
      _ ↔ _ := by
          rw [answered_ok, addresses_ok, and_comm]
          rfl
  | vm n path cfg index =>
    calc (∃ r, lsTableRow probes (name, m, .vm n path cfg index) = .ok r)
      _ ↔ ∃ a, addresses index cfg = .ok a ∧ ∃ running, isRunning probes a.2.1 path = .ok running := by
          unfold lsTableRow
          simp only [bind_returns_iff, pure, Except.pure, Except.ok.injEq, exists_eq', and_true]
      _ ↔ (∃ a, addresses index cfg = .ok a) ∧ Readable probes path := by
          simp only [isRunning_ok, exists_and_right]
      _ ↔ _ := by
          rw [addresses_ok]
          rfl
  | adb n serial port =>
    calc (∃ r, lsTableRow probes (name, m, .adb n serial port) = .ok r)
      _ ↔ ∃ available, answered (probes.serialIsAvailable serial) = .ok available := by
          unfold lsTableRow
          simp only [bind_returns_iff, pure, Except.pure, Except.ok.injEq, exists_eq', and_true]
      _ ↔ _ := by
          rw [answered_ok]
          exact (true_and _).to_iff.symm

theorem backendJsonRow_ok (row : String × InstanceMeta T × Device) :
    (∃ r, backendJsonRow probes P row = .ok r) ↔ Ports row ∧ Answers probes row := by
  obtain ⟨name, m, b⟩ := row
  cases b with
  | redroid n path cfg =>
    calc (∃ r, backendJsonRow probes P (name, m, .redroid n path cfg) = .ok r)
      _ ↔ ∃ a, addresses m.index cfg = .ok a ∧ ∃ status, answered (probes.composeStatus name path) = .ok status := by
          unfold backendJsonRow
          simp only [bind_returns_iff, pure, Except.pure, Except.ok.injEq, exists_eq', and_true]
      _ ↔ (∃ a, addresses m.index cfg = .ok a) ∧ ∃ status, answered (probes.composeStatus name path) = .ok status :=
          exists_and_right
      _ ↔ _ := by
          rw [answered_ok, addresses_ok]
          rfl
  | vm n path cfg index =>
    calc (∃ r, backendJsonRow probes P (name, m, .vm n path cfg index) = .ok r)
      _ ↔ ∃ a, addresses index cfg = .ok a ∧ ∃ running, isRunning probes a.2.1 path = .ok running := by
          unfold backendJsonRow
          simp only [bind_returns_iff, pure, Except.pure, Except.ok.injEq, exists_eq', and_true]
      _ ↔ (∃ a, addresses index cfg = .ok a) ∧ Readable probes path := by
          simp only [isRunning_ok, exists_and_right]
      _ ↔ _ := by
          rw [addresses_ok]
          rfl
  | adb n serial port =>
    calc (∃ r, backendJsonRow probes P (name, m, .adb n serial port) = .ok r)
      _ ↔ ∃ available, answered (probes.serialIsAvailable serial) = .ok available := by
          unfold backendJsonRow
          simp only [bind_returns_iff, pure, Except.pure, Except.ok.injEq, exists_eq', and_true]
      _ ↔ _ := by
          rw [answered_ok]
          exact (true_and _).to_iff.symm

theorem lsTableRow_name {row : String × InstanceMeta T × Device} {r : List String} (h : lsTableRow probes row = .ok r) :
    r.head? = some row.1 := by
  obtain ⟨name, m, b⟩ := row
  cases b with
  | redroid n path cfg =>
    obtain ⟨_, -, h⟩ := bind_ok_iff.1 h
    obtain ⟨_, -, h⟩ := bind_ok_iff.1 h
    cases h
    rfl
  | vm n path cfg index =>
    obtain ⟨_, -, h⟩ := bind_ok_iff.1 h
    obtain ⟨_, -, h⟩ := bind_ok_iff.1 h
    cases h
    rfl
  | adb n serial port =>
    obtain ⟨_, -, h⟩ := bind_ok_iff.1 h
    cases h
    rfl

theorem backendJsonRow_name {row : String × InstanceMeta T × Device} {r : String × Json}
    (h : backendJsonRow probes P row = .ok r) : r.1 = row.1 := by
  obtain ⟨name, m, b⟩ := row
  cases b with
  | redroid n path cfg =>
    obtain ⟨_, -, h⟩ := bind_ok_iff.1 h
    obtain ⟨_, -, h⟩ := bind_ok_iff.1 h
    cases h
    rfl
  | vm n path cfg index =>
    obtain ⟨_, -, h⟩ := bind_ok_iff.1 h
    obtain ⟨_, -, h⟩ := bind_ok_iff.1 h
    cases h
    rfl
  | adb n serial port =>
    obtain ⟨_, -, h⟩ := bind_ok_iff.1 h
    cases h
    rfl

/-- the first column of the table -/
theorem heads_eq {rows : List (String × InstanceMeta T × Device)} {table : List (List String)}
    (h : List.Forall₂ (fun row r => lsTableRow probes row = .ok r) rows table) :
    table.filterMap List.head? = rows.map Prod.fst := by
  induction h with
  | nil => rfl
  | cons hr _ ih => rw [List.filterMap_cons_some (lsTableRow_name hr), List.map_cons, ih]

/-- the keys of the object -/
theorem jsonKeys_eq {rows : List (String × InstanceMeta T × Device)} {object : List (String × Json)}
    (h : List.Forall₂ (fun row r => backendJsonRow probes P row = .ok r) rows object) :
    object.map Prod.fst = rows.map Prod.fst := by
  induction h with
  | nil => rfl
  | cons hr _ ih => rw [List.map_cons, List.map_cons, backendJsonRow_name hr, ih]

/-- the printed names are those of the rows -/
theorem ls_ok {jsonOut : Bool} {printed : Printed} {orphans : List String}
    (h : ls probes P p jsonOut w = .ok (printed, orphans)) :
    printed.names = (lsRows p w).map Prod.fst ∧ orphans = listOrphans p w := by
  unfold ls at h
  split_ifs at h
  · obtain ⟨rows, hrows, heq⟩ := map_ok_iff.1 h
    cases heq
    exact ⟨jsonKeys_eq (mapM_ok_iff.1 hrows), rfl⟩
  · obtain ⟨rows, hrows, heq⟩ := map_ok_iff.1 h
    cases heq
    exact ⟨heads_eq (mapM_ok_iff.1 hrows), rfl⟩

theorem ls_renders {jsonOut : Bool} : (∃ out, ls probes P p jsonOut w = .ok out) ↔
    ∀ row ∈ lsRows p w, Ports row ∧ Answers probes row := by
  unfold ls
  split_ifs
  · rw [map_ok, mapM_returns_iff]
    exact forall₂_congr fun row _ => backendJsonRow_ok row
  · rw [map_ok, mapM_returns_iff]
    exact forall₂_congr fun row _ => lsTableRow_ok row

/-- the ports of every redroid and vm row with a valid config resolve -/
def PortsResolve (p : Paths) (w : World T) : Prop :=
  ∀ name m path cfg, w.reg.instances.get? name = some m → m.backend.absolutePath = some path → Loads p w path cfg →
    ∃ resolved, resolvePorts m.index cfg.ports = .ok resolved

/-- the probe of every row that is listed returns -/
def ProbesAnswer (probes : Probes) (p : Paths) (w : World T) : Prop :=
  ∀ name m, w.reg.instances.get? name = some m →
    match m.backend with
    | .redroid path _ => (∃ cfg, Loads p w path cfg) → (probes.composeStatus name path).isSome = true
    | .vm path => (∃ cfg, Loads p w path cfg) → Readable probes path
    | .adb serial => InRange m.index → (probes.serialIsAvailable serial).isSome = true
    | .unresolved _ => True

theorem row_redroid {name path : String} {m : InstanceMeta T} {sp : Dict String String} {cfg : InstanceConfig}
    (hm : w.reg.instances.get? name = some m) (hb : m.backend = .redroid path sp) (hload : Loads p w path cfg) :
    (name, m, Device.redroid name path cfg) ∈ lsRows p w := by
  refine mem_lsRows.2 ⟨hm, ?_⟩
  rw [fromMeta, hb]
  exact map_ok_iff.2 ⟨cfg, loadConfig_ok_iff.2 hload, rfl⟩

theorem row_vm {name path : String} {m : InstanceMeta T} {cfg : InstanceConfig}
    (hm : w.reg.instances.get? name = some m) (hb : m.backend = .vm path) (hload : Loads p w path cfg) :
    (name, m, Device.vm name path cfg m.index) ∈ lsRows p w := by
  refine mem_lsRows.2 ⟨hm, ?_⟩
  rw [fromMeta, hb]
  exact map_ok_iff.2 ⟨cfg, loadConfig_ok_iff.2 hload, rfl⟩

theorem row_adb {name serial : String} {m : InstanceMeta T} (hm : w.reg.instances.get? name = some m)
    (hb : m.backend = .adb serial) (hin : InRange m.index) :
    ∃ port, (name, m, Device.adb name serial port) ∈ lsRows p w := by
  cases hports : portsForIndex m.index with
  | error e => exact absurd hports (by rw [portsForIndex, checkIndex_ok.2 hin]; simp [bind, Except.bind, pure, Except.pure])
  | ok table =>
    refine ⟨(table.lookup "frida").getD 0, mem_lsRows.2 ⟨hm, ?_⟩⟩
    rw [fromMeta, hb]
    simp only [hports]

theorem ls_completes_iff {jsonOut : Bool} : (∃ out, ls probes P p jsonOut w = .ok out) ↔
    PortsResolve p w ∧ ProbesAnswer probes p w := by
  rw [ls_renders]
  constructor
  · intro h
    constructor
    · intro name m path cfg hm hpath hload
      cases hb : m.backend with
      | redroid path' sp =>
        rw [hb] at hpath
        cases hpath
        exact (h _ (row_redroid hm hb hload)).1
      | vm path' =>
        rw [hb] at hpath
        cases hpath
        exact (h _ (row_vm hm hb hload)).1
      | adb serial =>
        rw [hb] at hpath
        cases hpath
      | unresolved raw =>
        rw [hb] at hpath
        cases hpath
    · intro name m hm
      cases hb : m.backend with
      | redroid path sp =>
        intro ⟨cfg, hload⟩
        exact (h _ (row_redroid hm hb hload)).2
      | vm path =>
        intro ⟨cfg, hload⟩
        exact (h _ (row_vm hm hb hload)).2
      | adb serial =>
        intro hin
        obtain ⟨port, hrow⟩ := row_adb hm hb hin
        exact (h _ hrow).2
      | unresolved raw => trivial
  · intro ⟨hports, hanswers⟩ row hrow
    obtain ⟨name, m, b⟩ := row
    obtain ⟨hm, hf⟩ := mem_lsRows.1 hrow
    have hanswer := hanswers name m hm
    unfold fromMeta at hf
    split at hf
    · rename_i path sp hb
      obtain ⟨cfg, hcfg, rfl⟩ := map_ok_iff.1 hf
      have hload := loadConfig_ok_iff.1 hcfg
      rw [hb] at hanswer
      exact ⟨hports name m path cfg hm (by rw [hb]; rfl) hload, hanswer ⟨cfg, hload⟩⟩
    · rename_i path hb
      obtain ⟨cfg, hcfg, rfl⟩ := map_ok_iff.1 hf
      have hload := loadConfig_ok_iff.1 hcfg
      rw [hb] at hanswer
      exact ⟨hports name m path cfg hm (by rw [hb]; rfl) hload, hanswer ⟨cfg, hload⟩⟩
    · rename_i serial hb
      rw [hb] at hanswer
      split at hf
      · rename_i table htable
        cases hf
        exact ⟨trivial, hanswer (strideHosts_ok.1 ⟨_, by rw [strideHosts, htable]⟩)⟩
      · cases hf
    · cases hf

end Rendering

/-! ## Accounting -/

/-- where `ls` shows a name: the rows and the advisory never share one; a redroid row is listed if its config is valid and an
orphan otherwise; a vm row with a valid config and an adb row with an index in range are listed; a row of an unknown kind is in
neither -/
structure Accounts (p : Paths) (w : World T) (listed orphans : List String) : Prop where
  listed_nodup : listed.Nodup
  orphans_nodup : orphans.Nodup
  disjoint : ∀ name ∈ listed, name ∉ orphans
  registered : ∀ name, name ∈ listed ∨ name ∈ orphans → name ∈ w.reg.instances.keys
  redroid : ∀ name m path sp, w.reg.instances.get? name = some m → m.backend = .redroid path sp →
    ((∃ cfg, Loads p w path cfg) → name ∈ listed) ∧ ((¬ ∃ cfg, Loads p w path cfg) → name ∈ orphans)
  vm : ∀ name m path, w.reg.instances.get? name = some m → m.backend = .vm path → (∃ cfg, Loads p w path cfg) → name ∈ listed
  adb : ∀ name m serial, w.reg.instances.get? name = some m → m.backend = .adb serial → InRange m.index → name ∈ listed
  unknown : ∀ name m raw, w.reg.instances.get? name = some m → m.backend = .unresolved raw → name ∉ listed ∧ name ∉ orphans

section Accounting

variable {p : Paths} {w : World T} {m : InstanceMeta T}

theorem isOrphan_redroid {path : String} {sp : Dict String String} (hb : m.backend = .redroid path sp) :
    isOrphan p w m = true ↔ ¬ ∃ cfg, Loads p w path cfg := by
  unfold isOrphan Loads
  rw [hb]
  simp only
  cases loadYaml w.fs (p.resolve path) with
  | none => simp
  | some y => cases y <;> simp

theorem accounts_lsRows (p : Paths) (w : World T) : Accounts p w ((lsRows p w).map Prod.fst) (listOrphans p w) where
  listed_nodup := nodup_lsRows
  orphans_nodup := nodup_listOrphans
  disjoint := by
    intro name hl ho
    obtain ⟨m, hm, hr⟩ := mem_lsRows_names.1 hl
    obtain ⟨m', hm', horphan⟩ := mem_listOrphans.1 ho
    rw [hm] at hm'
    cases hm'
    exact not_resolves_of_isOrphan horphan hr
  registered := by
    intro name h
    rcases h with h | h
    · obtain ⟨m, hm, -⟩ := mem_lsRows_names.1 h
      exact Dict.get?_isSome.1 (by rw [hm]; rfl)
    · obtain ⟨m, hm, -⟩ := mem_listOrphans.1 h
      exact Dict.get?_isSome.1 (by rw [hm]; rfl)
  redroid := by
    intro name m path sp hm hb
    refine ⟨fun h => mem_lsRows_names.2 ⟨m, hm, ?_⟩, fun h => mem_listOrphans.2 ⟨m, hm, (isOrphan_redroid hb).2 h⟩⟩
    rw [Resolves, hb]
    exact h
  vm := by
    intro name m path hm hb h
    refine mem_lsRows_names.2 ⟨m, hm, ?_⟩
    rw [Resolves, hb]
    exact h
  adb := by
    intro name m serial hm hb h
    refine mem_lsRows_names.2 ⟨m, hm, ?_⟩
    rw [Resolves, hb]
    exact h
  unknown := by
    intro name m raw hm hb
    constructor
    · intro h
      obtain ⟨m', hm', hr⟩ := mem_lsRows_names.1 h
      rw [hm] at hm'
      cases hm'
      rw [Resolves, hb] at hr
      exact hr
    · intro h
      obtain ⟨m', hm', ho⟩ := mem_listOrphans.1 h
      rw [hm] at hm'
      cases hm'
      rw [isOrphan, hb] at ho
      cases ho

/-- the row is shown in one place, and nothing about it stops `ls` -/
def Accounted (p : Paths) (w : World T) (m : InstanceMeta T) : Prop :=
  match m.backend with
  | .redroid path _ => ∀ cfg, Loads p w path cfg → ∃ resolved, resolvePorts m.index cfg.ports = .ok resolved
  | .vm path => ∃ cfg, Loads p w path cfg ∧ ∃ resolved, resolvePorts m.index cfg.ports = .ok resolved
  | .adb _ => InRange m.index
  | .unresolved _ => False

/-- a row is accounted for exactly when its ports resolve and it is listed or an orphan -/
theorem accounted_row_iff : Accounted p w m ↔
    (∀ path cfg, m.backend.absolutePath = some path → Loads p w path cfg → ∃ resolved, resolvePorts m.index cfg.ports = .ok resolved) ∧
      (Resolves p w m ∨ isOrphan p w m = true) := by
  cases hb : m.backend with
  | redroid path sp =>
    rw [Accounted, Resolves, isOrphan_redroid hb, hb]
    simp only [BackendConfig.absolutePath, Option.some.injEq]
    constructor
    · intro h
      refine ⟨?_, em _⟩
      rintro path' cfg rfl hload
      exact h cfg hload
    · intro h cfg hload
      exact h.1 path cfg rfl hload
  | vm path =>
    rw [Accounted, Resolves, isOrphan, hb]
    simp only [BackendConfig.absolutePath, Option.some.injEq, Bool.false_eq_true, or_false]
    constructor
    · intro h
      obtain ⟨cfg, hload, hres⟩ := h
      refine ⟨?_, cfg, hload⟩
      rintro path' cfg' rfl hload'
      rw [Loads, hload] at hload'
      cases hload'
      exact hres
    · intro h
      obtain ⟨hports, cfg, hload⟩ := h
      exact ⟨cfg, hload, hports path cfg rfl hload⟩
  | adb serial =>
    rw [Accounted, Resolves, isOrphan, hb]
    simp [BackendConfig.absolutePath]
  | unresolved raw =>
    rw [Accounted, Resolves, isOrphan, hb]
    simp

/-- every row is accounted for exactly when all ports resolve and every row is listed or an orphan -/
theorem accounted_iff : (∀ name m, w.reg.instances.get? name = some m → Accounted p w m) ↔
    PortsResolve p w ∧ ∀ name m, w.reg.instances.get? name = some m → Resolves p w m ∨ isOrphan p w m = true := by
  simp only [accounted_row_iff]
  constructor
  · intro h
    exact ⟨fun name m path cfg hm => (h name m hm).1 path cfg, fun name m hm => (h name m hm).2⟩
  · intro h name m hm
    exact ⟨fun path cfg => h.1 name m path cfg hm, h.2 name m hm⟩

/-- `ls` returns and shows every registered name in exactly one place, exactly when every row is accounted for and every probe
returns -/
theorem ls_partition_iff {probes : Probes} {P : Pydantic T} {jsonOut : Bool} :
    (∃ printed orphans, ls probes P p jsonOut w = .ok (printed, orphans) ∧
      ∀ name ∈ w.reg.instances.keys,
        (name ∈ printed.names ∧ name ∉ orphans) ∨ (name ∈ orphans ∧ name ∉ printed.names)) ↔
      (∀ name m, w.reg.instances.get? name = some m → Accounted p w m) ∧ ProbesAnswer probes p w := by
  have hdisjoint := (accounts_lsRows p w).disjoint
  have hreturns : (∃ out, ls probes P p jsonOut w = .ok out) ↔ PortsResolve p w ∧ ProbesAnswer probes p w := ls_completes_iff
  rw [accounted_iff, and_right_comm, ← hreturns]
  constructor
  · rintro ⟨printed, orphans, hls, hone⟩
    obtain ⟨hnames, rfl⟩ := ls_ok hls
    refine ⟨⟨_, hls⟩, ?_⟩
    intro name m hm
    rcases hone name (Dict.get?_isSome.1 (by rw [hm]; rfl)) with ⟨hl, -⟩ | ⟨ho, -⟩
    · rw [hnames] at hl
      obtain ⟨m', hm', hr⟩ := mem_lsRows_names.1 hl
      rw [hm] at hm'
      cases hm'
      exact Or.inl hr
    · obtain ⟨m', hm', hr⟩ := mem_listOrphans.1 ho
      rw [hm] at hm'
      cases hm'
      exact Or.inr hr
  · rintro ⟨⟨⟨printed, orphans⟩, hls⟩, hshown⟩
    obtain ⟨hnames, rfl⟩ := ls_ok hls
    refine ⟨printed, _, hls, ?_⟩
    intro name hk
    obtain ⟨m, hm⟩ := Option.isSome_iff_exists.1 (Dict.get?_isSome.2 hk)
    rw [hnames]
    rcases hshown name m hm with hr | ho
    · have hl := mem_lsRows_names.2 ⟨m, hm, hr⟩
      exact Or.inl ⟨hl, hdisjoint name hl⟩
    · have ho' := mem_listOrphans.2 ⟨m, hm, ho⟩
      exact Or.inr ⟨ho', fun hl => hdisjoint name hl ho'⟩

end Accounting

/-- no container, no device and no VM -/
def Probes.silent : Probes :=
  ⟨fun _ _ => some "not-created", fun _ => some false, fun _ => .unreadable, fun _ => false, fun _ => .unreadable⟩

/-- `alpha` at `/srv/x` with the default config, `gone` at a path without a file, and a row of a kind that is not installed -/
def threeRows : World String :=
  ⟨⟨.ofList [("gone", ⟨.redroid "/srv/y" ∅, 1, "then"⟩), ("alpha", ⟨.redroid "/srv/x" ∅, 0, "then"⟩),
    ("cloud", ⟨.unresolved [("kind", .str "cloud")], 2, "then"⟩)]⟩,
    writeFile ∅ ["srv", "x", "beetroot.yaml"] (.yaml (.valid .plain))⟩

theorem threeRows_renders : PortsResolve Paths.sample threeRows ∧ ProbesAnswer .silent Paths.sample threeRows := by
  have hls : ∃ out, ls .silent .iso Paths.sample false threeRows = .ok out := ⟨_, rfl⟩
  exact ls_completes_iff.1 hls

end Beetroot.Listing
