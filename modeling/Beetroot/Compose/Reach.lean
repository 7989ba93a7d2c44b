/-
Does what the `beetroot.yaml` says reach the phone?

On its way it is rendered to the `.env`, read by compose, put into the environment and the mounts of the container, and taken from
there by the boot scripts. The environment of the container is that of the service over that of the image. What a text names as a
path, and which files a pattern matches, are up to the container.

Results:
- `containerVars_phone`: the scripts see the value that compose has put into the mounts;
- `runs_denylist`: the rows that a boot inserts;
- `config_reached`: a boot that completes has enrolled the entries of the config, one row each and in order, has tried the
  modules from where `modules/` is mounted, and has started Frida from where `frida-server` is;
- `modules_reached`: after a stage, a boot that completes has tried one archive for each listed module, and no other.
-/
import Beetroot.Boot.Zygisk
import Beetroot.Compose.Service
import Beetroot.Instance.Flash
import Mathlib.Data.List.Forall2

namespace Beetroot.Compose

open Lib Lib.Prog Lib.Script Lib.Fs Lib.Template Lib.Lines Lib.Shell Beetroot.Config Beetroot.Boot Registration

/-! ## The rows of a boot -/

def inserted : Cmd → Option DenylistRow
  | .insert row => some row
  | _ => none

def inserts (l : Log Cmd) : List DenylistRow := l.filterMap fun e => inserted e.1

theorem inserts_append (l m : Log Cmd) : inserts (l ++ m) = inserts l ++ inserts m := List.filterMap_append

@[simp] theorem inserts_logged (c : Choice) (a : Cmd) (s : Phone × Log Cmd) :
    inserts (logged exec c a s).2.2 = inserts s.2 ++ (inserted a).toList := by
  change inserts (s.2 ++ [(a, _)]) = _
  rw [inserts_append]
  cases a <;> rfl

theorem inserts_within {allowed : Cmd → Bool} (hno : ∀ row, allowed (.insert row) = false) {l : Log Cmd}
    (h : Within allowed l) : inserts l = [] := by
  refine List.filterMap_eq_nil_iff.2 fun e he => ?_
  obtain ⟨a, ok⟩ := e
  have ha : allowed a = true := h _ he
  cases a with
  | insert row =>
    rw [hno row] at ha
    cases ha
  | _ => rfl

/-- the rows for the fields of a value -/
def rowsOf (fields : List (List Char)) : List DenylistRow := ((fields.map trimmed).filter (· ≠ [])).map denylistRow

/-- the rows for a value -/
def enrolled (glob : List Char → List (List Char)) (packages : String) : List DenylistRow :=
  if packages = "" then [] else rowsOf (expand glob (fieldsAt ',' packages.toList))

section Runs

variable {P : Choice → Prop} (env : Boot.Env)

/-- a script without an `INSERT` -/
theorem runs_aside {allowed : Cmd → Bool} {exits : Exit → Bool} {α : Type} {p : Shell α}
    (h : Disciplined critical allowed exits p.run) (hno : ∀ row, allowed (.insert row) = false) (s : Phone × Log Cmd) :
    Runs (logged exec) P (fun _ => True) p s (fun _ t => inserts t.2 = inserts s.2) fun _ _ => True := by
  refine (h.runs s).mono (fun _ t _ ht => ?_) fun _ _ _ _ => trivial
  obtain ⟨l, hl, hwithin, -⟩ := ht
  rw [hl, inserts_append, inserts_within hno hwithin, List.append_nil]

theorem runs_insertFields (fields : List (List Char)) (s : Phone × Log Cmd) :
    Runs (logged exec) P (fun _ => True) (insertFields fields) s (fun _ t => inserts t.2 = inserts s.2 ++ rowsOf fields)
      fun _ _ => True := by
  induction fields generalizing s with
  | nil => exact runs_pure trivial (List.append_nil _).symm
  | cons field fields ih =>
    by_cases hfield : trimmed field = []
    · have hrows : rowsOf (field :: fields) = rowsOf fields := by simp [rowsOf, hfield]
      rw [insertFields, if_pos hfield, hrows]
      exact ih s
    · have hrows : rowsOf (field :: fields) = denylistRow (trimmed field) :: rowsOf fields := by simp [rowsOf, hfield]
      rw [insertFields, if_neg hfield, hrows]
      apply runs_bind
      refine runs_run trivial fun c _ => ⟨trivial, ?_⟩
      split_ifs
      · refine (ih _).mono (fun _ t _ h => ?_) fun _ _ _ h => h
        rw [h, inserts_logged, List.append_assoc]
        rfl

theorem runs_enrol (packages : String) (s : Phone × Log Cmd) :
    Runs (logged exec) P (fun _ => True) (enrol env packages) s
      (fun _ t => inserts t.2 = inserts s.2 ++ enrolled env.glob packages) fun _ _ => True := by
  unfold enrol enrolled
  split_ifs
  · exact runs_pure trivial (List.append_nil _).symm
  · exact runs_insertFields _ s

/-- the value of the denylist that a boot takes -/
def packages : String := fallback (env.vars "BEETROOT_DENYLIST_PACKAGES") ""

theorem runs_config_rows (s : Phone × Log Cmd) :
    Runs (logged exec) P (fun _ => True) (magiskConfig env) s
      (fun _ t => inserts t.2 = inserts s.2 ++ enrolled env.glob (packages env)) fun _ _ => True := by
  apply runs_bind
  refine (runs_aside (disciplined_awaitMagisk (unreached_wait env) _) (fun _ => rfl) s).mono (fun _ t _ ht => ?_) fun _ _ _ _ => trivial
  apply runs_bind
  refine runs_must trivial fun c _ => ⟨trivial, ?_⟩
  split_ifs
  apply runs_bind
  refine runs_run trivial fun c₁ _ => ⟨trivial, ?_⟩
  split_ifs
  apply runs_bind
  refine runs_run trivial fun c₂ _ => ⟨trivial, ?_⟩
  split_ifs
  apply runs_bind
  refine runs_must trivial fun c₃ _ => ⟨trivial, ?_⟩
  split_ifs
  · exact runs_throw trivial trivial
  · apply runs_bind
    refine (runs_enrol env _ _).mono (fun _ v _ hv => runs_pure trivial ?_) fun _ _ _ h => h
    rw [hv]
    simp only [inserts_logged, inserted, Option.toList_none, List.append_nil, ht]
    rfl

theorem runs_denylist (s : Phone × Log Cmd) :
    Runs (logged exec) P (fun _ => True) (entrypoint env) s
      (fun _ t => inserts t.2 = inserts s.2 ++ enrolled env.glob (packages env)) fun _ _ => True := by
  apply runs_bind
  refine (runs_aside (disciplined_magiskPath env) (fun _ => rfl) s).mono (fun _ t₁ _ h₁ => ?_) fun _ _ _ _ => trivial
  apply runs_bind
  refine (runs_config_rows env t₁).mono (fun newly t₂ _ h₂ => ?_) fun _ _ _ _ => trivial
  apply runs_bind
  refine (runs_aside (disciplined_magiskEnv env) (fun _ => rfl) t₂).mono (fun _ t₃ _ h₃ => ?_) fun _ _ _ _ => trivial
  apply runs_bind
  refine (runs_aside (disciplined_flashModules env) (fun _ => rfl) t₃).mono (fun _ t₄ _ h₄ => ?_) fun _ _ _ _ => trivial
  apply runs_bind
  refine (runs_aside (disciplined_activateZygisk env newly) (fun _ => rfl) t₄).mono (fun _ t₅ _ h₅ => ?_)
    fun _ _ _ _ => trivial
  apply runs_bind
  refine (runs_aside (disciplined_launchFrida env) (fun _ => rfl) t₅).mono (fun _ t₆ _ h₆ => ?_) fun _ _ _ _ => trivial
  refine runs_attempt trivial fun c _ => ⟨trivial, ?_⟩
  calc inserts (logged exec c .wait t₆).2.2
    _ = inserts t₆.2 := (inserts_logged c .wait t₆).trans (List.append_nil _)
    _ = inserts t₂.2 := by rw [h₆, h₅, h₄, h₃]
    _ = inserts s.2 ++ enrolled env.glob (packages env) := by rw [h₂, h₁]

/-- what holds wherever a boot comes to its end -/
theorem of_done {env : Boot.Env} {s : Phone} {d : Choice} {cs : List Choice} {Q : Unit → Phone × Log Cmd → Prop}
    {E : Stop Cmd Exit → Phone × Log Cmd → Prop}
    (h : Runs (logged exec) (fun _ => True) (fun _ => True) (entrypoint env) (s, []) Q E)
    (hdone : ((entrypoint env).run.finish (logged exec) d cs (s, [])).1 = .ok ()) :
    Q () ((entrypoint env).run.finish (logged exec) d cs (s, [])).2 := by
  rcases h.finish d trivial cs fun _ _ => trivial with ⟨x, -, hq⟩ | ⟨e, he, -⟩
  · exact hq
  · cases hdone.symm.trans he

end Runs

theorem trimmed_entry {e : List Char} (h : denylistFull e = true) : trimmed e = e := by
  simp [trimmed, whileLoop, trimFront_entry h, trimBack_entry h]

/-- an entry of the grammar is enrolled as it stands, whatever files there are -/
theorem enrolled_entries (glob : List Char → List (List Char)) {entries : List String}
    (h : ∀ e ∈ entries, denylistFull e.toList = true) :
    enrolled glob (denylistValue entries) = entries.map fun e => denylistRow e.toList := by
  have hfields := expand_denylistValue glob h
  unfold enrolled
  split_ifs with hempty
  · rw [hempty] at hfields
    have hnil : entries.map String.toList = [] := hfields.symm
    rw [List.map_eq_nil_iff.1 hnil]
    rfl
  · have htrimmed : (entries.map String.toList).map trimmed = entries.map String.toList := by
      rw [List.map_map]
      exact List.map_congr_left fun e he => trimmed_entry (h e he)
    have hkept : (entries.map String.toList).filter (· ≠ []) = entries.map String.toList := by
      refine List.filter_eq_self.2 fun l hl => ?_
      obtain ⟨e, he, rfl⟩ := List.mem_map.1 hl
      exact decide_eq_true (denylistFull_ne_nil (h e he))
    rw [hfields, rowsOf, htrimmed, hkept, List.map_map]
    rfl

/-! ## The container -/

/-- the environment of a container -/
def containerVars (service : Service String) (image : Vars) : Vars := (Vars.ofList service.environment).over image

/-- a variable that compose passes on has the value that compose has used itself -/
theorem containerVars_phone {vars image : Vars} {ports : List Template} {name default : String}
    (h : (name, dollar name default) ∈ phone.environment) :
    fallback (containerVars (({ phone with ports := ports } : Service Template).map (render vars)) image name) default =
      fallback (vars name) default := by
  have hmem : (name, fallback (vars name) default) ∈
      (({ phone with ports := ports } : Service Template).map (render vars)).environment :=
    List.mem_map.2 ⟨_, h, rfl⟩
  have hnodup : ((({ phone with ports := ports } : Service Template).map (render vars)).environment.map Prod.fst).Nodup := by
    change ["BEETROOT_MAGISK_DB", "BEETROOT_MODULES_DIR", "BEETROOT_FRIDA_BIN", "BEETROOT_DENYLIST_PACKAGES"].Nodup
    decide
  unfold containerVars Vars.over
  rw [lookup_of_mem hnodup hmem, Option.some_or, fallback_idem]

/-! ## What reaches the phone -/

structure Reached (cfg : Config.InstanceConfig) (service : Service String) (env : Boot.Env) (t : Phone) (l : Log Cmd) : Prop where
  /-- one row for each entry, in order -/
  denylist : List.Forall₂ (fun entry row => RowOf entry.toList row) (cfg.magisk.denylist.map (·.1)) (inserts l)
  accepted : ∀ row, (Cmd.insert row, false) ∉ l
  modules : ∃ dir, "./modules:" ++ (dir ++ ":ro") ∈ service.volumes ∧ (installs l).Nodup ∧
    ∀ zip, zip ∈ installs l ↔ Fs.isDir t.files (env.pathOf dir) = true ∧
      ∃ name, zip = env.pathOf dir ++ [name] ∧ isMatch ".zip" name = true ∧ Fs.isFile t.files zip = true
  frida : ∃ bin, "./frida-server:" ++ (bin ++ ":ro") ∈ service.volumes ∧
    launches l = if executable t (env.pathOf bin) || Fs.isDir t.files (env.pathOf bin) then [env.pathOf bin] else []

section Phone

variable {vars image : Vars} {ports : List Template} {env : Boot.Env}

theorem modulesDir_mounted (hvars : env.vars =
    containerVars (({ phone with ports := ports } : Service Template).map (render vars)) image) :
    env.modulesDir = env.pathOf (fallback (vars "BEETROOT_MODULES_DIR") defaultModulesDir) := by
  unfold Boot.Env.modulesDir Boot.Env.path
  rw [hvars]
  exact congrArg env.pathOf (containerVars_phone (by simp [phone, defaultModulesDir]))

theorem fridaBin_mounted (hvars : env.vars =
    containerVars (({ phone with ports := ports } : Service Template).map (render vars)) image) :
    env.fridaBin = env.pathOf (fallback (vars "BEETROOT_FRIDA_BIN") defaultFridaBin) := by
  unfold Boot.Env.fridaBin Boot.Env.path
  rw [hvars]
  exact congrArg env.pathOf (containerVars_phone (by simp [phone, defaultFridaBin]))

theorem packages_kept {value : String} (hvars : env.vars =
    containerVars (({ phone with ports := ports } : Service Template).map (render vars)) image)
    (hvalue : fallback (vars "BEETROOT_DENYLIST_PACKAGES") "" = value) : packages env = value := by
  unfold packages
  rw [hvars, containerVars_phone (by simp [phone]), hvalue]

end Phone

theorem grammar_entries {cfg : Config.InstanceConfig} (h : ∀ t ∈ envTexts cfg, ¬ endsInNewline t = true) :
    ∀ e ∈ cfg.magisk.denylist.map (·.1), denylistFull e.toList = true := by
  intro e he
  have hnewline : ¬ endsInNewline e = true := h e (List.mem_append_right _ he)
  obtain ⟨x, -, rfl⟩ := List.mem_map.1 he
  rcases matchDollar_iff.1 x.2 with hfull | ⟨body, hbody, -⟩
  · exact hfull
  · exact absurd (by simp [endsInNewline, hbody]) hnewline

/-- **From the `beetroot.yaml` to the phone**, whatever else is exported, whatever the image sets and whatever the commands do. -/
theorem config_reached (u : Setup) (e : Engine) (environ : Vars) (files : Files) (root : Path) (renderNode : Bool)
    (name : String) (cfg : Config.InstanceConfig) (layout : Option (Dict String String)) (resolved : List ResolvedPort)
    (hdocker : u.hasDocker = true) (htemplate : files u.template = some .bundled)
    (houtside : u.template ≠ instanceComposeOverride root ∧ u.template ≠ instanceEnv root) (hname : nameOk name = true)
    (htexts : ∀ t ∈ envTexts cfg, ¬ endsInNewline t = true)
    (hlayout : ∀ key ∈ ["magisk_db", "modules_dir", "frida_bin"], isPlain (resolvedPath layout key) = true)
    (hspared : Spared environ ("BEETROOT_DENYLIST_PACKAGES", denylistValue (cfg.magisk.denylist.map (·.1)), ""))
    (text : String) (htext : renderEnv renderNode name cfg layout = some text) (service : Service String)
    (hstart : started u e environ (stagedFiles files root text resolved) name root = some service)
    (image : Vars) (env : Boot.Env) (hvars : env.vars = containerVars service image) (s : Phone) (d : Choice) (cs : List Choice)
    (hdone : ((entrypoint env).run.finish (logged exec) d cs (s, [])).1 = .ok ()) :
    Reached cfg service env ((entrypoint env).run.finish (logged exec) d cs (s, [])).2.1
      ((entrypoint env).run.finish (logged exec) d cs (s, [])).2.2 := by
  obtain ⟨-, rfl⟩ := renderEnv_eq_some.1 htext
  rw [started_staged e environ hdocker htemplate houtside
    (e.dotenv_envText (@plain_entries renderNode name cfg layout hname htexts hlayout)), Option.some.injEq] at hstart
  subst hstart
  have hgrammar := grammar_entries htexts
  have hfile : fallback (Vars.ofList (envEntries renderNode name cfg layout) "BEETROOT_DENYLIST_PACKAGES") "" =
      denylistValue (cfg.magisk.denylist.map (·.1)) :=
    @settings_file renderNode name cfg layout hname
      ("BEETROOT_DENYLIST_PACKAGES", denylistValue (cfg.magisk.denylist.map (·.1)), "") (by simp [settings])
  have hvalue : fallback ((environ.over (.ofList (envEntries renderNode name cfg layout))) "BEETROOT_DENYLIST_PACKAGES") "" =
      denylistValue (cfg.magisk.denylist.map (·.1)) := by
    refine Eq.trans (fallback_over.2 fun v hv => ?_) hfile
    rw [hfile]
    exact hspared v hv
  have hconf := of_done (runs_entrypoint env (s, [])) hdone
  have hrows := of_done (runs_denylist env (s, [])) hdone
  obtain ⟨l, hl, -, hclean⟩ := of_done ((disciplined_entrypoint env).runs (s, [])) hdone
  generalize (entrypoint env).run.finish (logged exec) d cs (s, []) = r at hconf hrows hl ⊢
  obtain ⟨result, t, log⟩ := r
  change log = [] ++ l at hl
  rw [List.nil_append] at hl
  subst hl
  have hinstalls : installs log = moduleZips env t := hconf.installs
  have hlaunches : launches log = fridas env t := hconf.launches
  have hinserts : inserts log = (cfg.magisk.denylist.map (·.1)).map fun entry => denylistRow entry.toList := by
    rw [← enrolled_entries env.glob hgrammar, ← packages_kept hvars hvalue]
    exact hrows
  refine ⟨?_, ?_, ⟨_, List.mem_cons_of_mem _ List.mem_cons_self, ?_, fun zip => ?_⟩,
    ⟨_, List.mem_cons_of_mem _ (List.mem_cons_of_mem _ List.mem_cons_self), ?_⟩⟩
  · rw [hinserts, List.forall₂_map_right_iff]
    exact List.forall₂_same.2 fun entry hentry => (denylistRow_spec (hgrammar entry hentry)).1
  · intro row hrow
    cases hclean _ hrow
  · rw [hinstalls]
    exact nodup_moduleZips env t
  · rw [hinstalls, mem_moduleZips, modulesDir_mounted hvars]
    rfl
  · rw [hlaunches, fridas, fridaBin_mounted hvars]
    rfl

/-! ## The modules of a stage -/

/-- every service that is started is the one of `compose.yaml`, whatever is exported and whatever the `.env` says -/
theorem started_phone {u : Setup} {e : Engine} {environ : Vars} {files : Files} {name : String} {root : Path}
    {service : Service String} (h : started u e environ files name root = some service) :
    ∃ vars ports, service = ({ phone with ports := ports } : Service Template).map (render vars) := by
  unfold started Engine.service at h
  obtain ⟨cmd, -, h⟩ := Option.bind_eq_some_iff.1 h
  obtain ⟨i, -, h⟩ := Option.bind_eq_some_iff.1 h
  obtain ⟨docs, -, h⟩ := Option.bind_eq_some_iff.1 h
  obtain ⟨merged, hmerged, h⟩ := Option.bind_eq_some_iff.1 h
  obtain ⟨env, -, h⟩ := Option.bind_eq_some_iff.1 h
  obtain ⟨text, -, h⟩ := Option.bind_eq_some_iff.1 h
  obtain ⟨assignments, -, h⟩ := Option.bind_eq_some_iff.1 h
  unfold merge at hmerged
  split at hmerged
  · obtain ⟨ports, -, rfl⟩ := Option.map_eq_some_iff.1 hmerged
    exact ⟨_, _, (Option.some.inj h).symm⟩
  · cases hmerged

theorem ne_of_third {before before' after after' : String} (h : before.toList[2]? ≠ before'.toList[2]?)
    (hlong : 2 < before.toList.length) (hlong' : 2 < before'.toList.length) : before ++ after ≠ before' ++ after' := by
  intro heq
  replace heq := congrArg (fun t : String => t.toList[2]?) heq
  simp only [String.toList_append, List.getElem?_append_left hlong, List.getElem?_append_left hlong'] at heq
  exact h heq

/-- `modules/` has one mount -/
theorem modules_volume {vars : Vars} {ports : List Template} {dir : String}
    (h : "./modules:" ++ (dir ++ ":ro") ∈ (({ phone with ports := ports } : Service Template).map (render vars)).volumes) :
    dir = fallback (vars "BEETROOT_MODULES_DIR") defaultModulesDir := by
  change _ ∈ ["./data:" ++ "/data", "./modules:" ++ (fallback (vars "BEETROOT_MODULES_DIR") defaultModulesDir ++ ":ro"),
    "./frida-server:" ++ (fallback (vars "BEETROOT_FRIDA_BIN") defaultFridaBin ++ ":ro")] at h
  simp only [List.mem_cons, List.not_mem_nil, or_false] at h
  rcases h with h | h | h
  · exact absurd h (ne_of_third (by decide) (by decide) (by decide))
  · rwa [String.append_right_inj, String.append_left_inj] at h
  · exact absurd h (ne_of_third (by decide) (by decide) (by decide))

/-- a directory of the host that is mounted: what is a file there is one in the container -/
structure Mounted {B : Type} (fs : FileTree B) (dir : Path) (files : FileTree Bool) (target : Path) : Prop where
  isDir : Fs.isDir files target = true
  isFile : ∀ x, Fs.isFile files (target ++ [x]) = Fs.isFile fs (dir ++ [x])

/-- the boot installs the flashed files of the instance -/
theorem mem_mounted {B : Type} {fs : FileTree B} {root target : Path} {env : Boot.Env} {t : Phone}
    (htarget : env.modulesDir = target) (hmount : Mounted fs (instanceModules root) t.files target) {zip : Path} :
    zip ∈ moduleZips env t ↔ ∃ x, Instance.Flashed root fs x ∧ target ++ [x] = zip := by
  rw [mem_moduleZips, htarget]
  constructor
  · intro h
    obtain ⟨-, x, rfl, hmatch, hfile⟩ := h
    rw [hmount.isFile x] at hfile
    exact ⟨x, ⟨hmatch, hfile⟩, rfl⟩
  · intro h
    obtain ⟨x, ⟨hmatch, hfile⟩, rfl⟩ := h
    exact ⟨hmount.isDir, x, rfl, hmatch, (hmount.isFile x).trans hfile⟩

/-- **From the list of modules to the phone**, whatever is exported, whatever the `.env` says and whatever the commands do.

The module directory of the host is mounted where the volume says. -/
theorem modules_reached {T B : Type} (net : Instance.Net B) (f : Instance.Faults B) (root : Path) (cfg : Beetroot.InstanceConfig)
    (before after : Instance.Site T B) (paths : List Path)
    (hstage : Instance.modulesStageForInstance net f root cfg before = .ok paths after)
    (hnames : ∀ m ∈ cfg.modules, Instance.isFlashName (Instance.sourceName net root m) = true)
    (u : Setup) (e : Engine) (environ : Vars) (files : Files) (name : String) (service : Service String)
    (hstart : started u e environ files name root = some service)
    (image : Vars) (env : Boot.Env) (hvars : env.vars = containerVars service image) (s : Phone) (d : Choice) (cs : List Choice)
    (hdone : ((entrypoint env).run.finish (logged exec) d cs (s, [])).1 = .ok ())
    (dir : String) (hvolume : "./modules:" ++ (dir ++ ":ro") ∈ service.volumes)
    (hmount : Mounted after.fs (instanceModules root) ((entrypoint env).run.finish (logged exec) d cs (s, [])).2.1.files
      (env.pathOf dir)) :
    ∃ names : List String, names.Nodup ∧ List.Forall₂ (Instance.FromSource net root after.fs) cfg.modules.zipIdx names ∧
      (installs ((entrypoint env).run.finish (logged exec) d cs (s, [])).2.2).Perm
        (names.map fun x => env.pathOf dir ++ [x]) := by
  obtain ⟨vars, ports, rfl⟩ := started_phone hstart
  obtain ⟨hstaged, hflashed⟩ := Instance.flashed_staged hstage
  have hnodup := (@Instance.stagedNames_nodup B net root cfg.modules 0 []).1
  have hall := (Instance.stagedNames_flashed cfg.modules 0 [] (by simp)).2 hnames
  have htarget : env.modulesDir = env.pathOf dir := by
    rw [modules_volume hvolume]
    exact modulesDir_mounted hvars
  have hconf := of_done (runs_entrypoint env (s, [])) hdone
  generalize (entrypoint env).run.finish (logged exec) d cs (s, []) = r at hconf hmount ⊢
  obtain ⟨result, t, log⟩ := r
  have hinstalls : installs log = moduleZips env t := hconf.installs
  refine ⟨Instance.stagedNames net root 0 [] cfg.modules, hnodup, hstaged, ?_⟩
  have hinj : Function.Injective fun x : String => env.pathOf dir ++ [x] := by
    intro x y h
    exact List.singleton_inj.1 (List.append_cancel_left h)
  change (installs log).Perm _
  rw [hinstalls, List.perm_ext_iff_of_nodup (nodup_moduleZips env t) (hnodup.map hinj)]
  intro zip
  rw [mem_mounted htarget hmount, List.mem_map]
  constructor
  · intro h
    obtain ⟨x, hx, rfl⟩ := h
    exact ⟨x, hflashed x hx, rfl⟩
  · intro h
    obtain ⟨x, hx, rfl⟩ := h
    exact ⟨x, ⟨hall x hx, Instance.isFile_of_source hstaged hx⟩, rfl⟩

/-! ## A container -/

theorem alpha_texts : ∀ t ∈ envTexts Snapshot.defaultConfig, ¬ endsInNewline t = true := by decide +kernel

def alphaVars : Vars := Vars.over (fun _ => none) (.ofList (envEntries false "alpha" Snapshot.defaultConfig none))

def alphaService : Service String :=
  ({ phone with ports := alphaPorts.map fun rp => .text (toString rp.host ++ ":" ++ toString rp.guest) } : Service Template).map
    (render alphaVars)

theorem alpha_started : startAlpha (fun _ => none) = some alphaService :=
  started_staged plainEngine (fun _ => none) rfl rfl (by decide)
    (plainEngine.dotenv_envText (@plain_entries false "alpha" Snapshot.defaultConfig none (by decide) alpha_texts (by decide)))

theorem alpha_denylist : containerVars alphaService (fun _ => none) "BEETROOT_DENYLIST_PACKAGES" =
    some (denylistValue (Snapshot.defaultConfig.magisk.denylist.map (·.1))) := by
  decide +kernel

theorem alpha_unquoted (v : String) (h : containerVars alphaService (fun _ => none) "BEETROOT_DENYLIST_PACKAGES" = some v) :
    '\'' ∉ v.toList := by
  rw [alpha_denylist, Option.some.injEq] at h
  subst h
  decide +kernel

def alphaEnv : Boot.Env where
  vars := containerVars alphaService fun _ => none
  pathOf text := [text]
  glob _ := []
  number text := if text = "120" then some 120 else none
  patience := 0
  unquoted := alpha_unquoted

/-- a phone with Magisk and nothing else -/
def barePhone : Phone := { newPhone with path := [["sbin"]] }

theorem alpha_reached :
    Reached Snapshot.defaultConfig alphaService alphaEnv
      ((entrypoint alphaEnv).run.finish (logged exec) .succeeds [] (barePhone, [])).2.1
      ((entrypoint alphaEnv).run.finish (logged exec) .succeeds [] (barePhone, [])).2.2 :=
  config_reached sampleSetup plainEngine (fun _ => none) packageFiles ["srv", "alpha"] false "alpha" Snapshot.defaultConfig none
    alphaPorts rfl rfl (by decide) (by decide) alpha_texts (by decide) (fun v hv => absurd hv (by simp)) _ alpha_rendered
    alphaService alpha_started
    (fun _ => none) alphaEnv rfl barePhone .succeeds [] (by decide +kernel)

/-- the phone, with a directory of modules that holds one -/
def modulePhone : Phone :=
  { barePhone with files := writeFile (mkdir barePhone.files [defaultModulesDir]) [defaultModulesDir, "mod.zip"] false }

def moduleConfig : Beetroot.InstanceConfig := Instance.InstanceConfig.listing ["https://example.com/mod.zip"]

def emptySite : Instance.Site String String := Instance.Site.holding []

def stagedSite : Instance.Site String String :=
  (emptySite.made ["srv", "alpha", "modules"]).wrote ["srv", "alpha", "modules", "mod.zip"] "zip"

theorem alpha_files :
    ((entrypoint alphaEnv).run.finish (logged exec) .succeeds [] (modulePhone, [])).2.1.files = modulePhone.files := by
  decide +kernel

theorem alpha_mounted : Mounted stagedSite.fs (instanceModules ["srv", "alpha"])
    ((entrypoint alphaEnv).run.finish (logged exec) .succeeds [] (modulePhone, [])).2.1.files [defaultModulesDir] where
  isDir := by
    rw [alpha_files]
    decide +kernel
  isFile x := by
    rw [alpha_files]
    change (readFile (writeFile _ [defaultModulesDir, "mod.zip"] false) [defaultModulesDir, x]).isSome =
      (readFile (writeFile _ ["srv", "alpha", "modules", "mod.zip"] "zip") ["srv", "alpha", "modules", x]).isSome
    rw [readFile_write, readFile_write]
    by_cases hx : x = "mod.zip"
    · simp [hx]
    · have hphone : readFile (mkdir barePhone.files [defaultModulesDir]) [defaultModulesDir, x] = none := by
        rw [readFile_mkdir]
        change readFile (writeFile (Dict.empty : FileTree Bool) ["sbin", "magisk"] true) [defaultModulesDir, x] = none
        rw [readFile_write_ne (by simp [defaultModulesDir])]
        rfl
      have hsite : readFile (Fs.mkdirs emptySite.fs ["srv", "alpha", "modules"]) ["srv", "alpha", "modules", x] = none := by
        rw [readFile_mkdirs]
        change readFile (writeFile (∅ : FileTree String) ["srv", "x", "beetroot.yaml"] "minimal")
          ["srv", "alpha", "modules", x] = none
        rw [readFile_write_ne (by simp)]
        rfl
      change (if _ then _ else readFile (mkdir barePhone.files [defaultModulesDir]) [defaultModulesDir, x]).isSome =
        (if _ then _ else readFile (Fs.mkdirs emptySite.fs ["srv", "alpha", "modules"]) ["srv", "alpha", "modules", x]).isSome
      rw [hphone, hsite]
      simp [hx]

/-- one module, from its url to the log of a boot -/
theorem alpha_modules : ∃ names : List String, names.Nodup ∧
    List.Forall₂ (Instance.FromSource Instance.Net.sample ["srv", "alpha"] stagedSite.fs) moduleConfig.modules.zipIdx names ∧
      (installs ((entrypoint alphaEnv).run.finish (logged exec) .succeeds [] (modulePhone, [])).2.2).Perm
        (names.map fun x => [defaultModulesDir] ++ [x]) :=
  modules_reached Instance.Net.sample .none ["srv", "alpha"] moduleConfig emptySite stagedSite
    [["srv", "alpha", "modules", "mod.zip"]] rfl (by decide) sampleSetup plainEngine (fun _ => none)
    alphaFiles "alpha" alphaService alpha_started (fun _ => none) alphaEnv rfl modulePhone .succeeds [] (by decide +kernel) defaultModulesDir (by decide +kernel)
    alpha_mounted

end Beetroot.Compose
