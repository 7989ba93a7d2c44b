/-
Is the container that `docker compose` starts the one that the `beetroot.yaml` asks for?

`_base_cmd` names the bundled `compose.yaml`, the override with the ports if there is one, and the `.env` of the instance. Compose
puts the variables into the file. A variable of the environment in which `beetroot` runs wins over a line of the `.env`, and
`subprocess.run` hands that environment on as it is.

How compose reads an `--env-file` is the parameter `Engine`: a file of lines `KEY=VALUE`, in which no value has a quote, a blank, a
backslash, a `#` or a `$`, says what it says.

Results:
- `parseCmd_runCmd`: the command line names these files and no other;
- `stagedFiles_stageLocal`: what `apply` stages, as compose sees it;
- `settings_file`: what the `.env` alone makes of every variable;
- `service_faithful_iff`: the service is the one that the config asks for exactly if the environment leaves every variable alone;
- `limit_shadowed`: an exported `MEM_LIMIT`.
-/
import Beetroot.Config.Env
import Beetroot.Lib.Str
import Beetroot.Lib.Template
import Beetroot.Snapshot.Layout

namespace Beetroot.Compose

open Lib Lib.Fs Lib.Template Beetroot.Config Registration

/-! ## The compose file -/

/-- a service of a compose file -/
structure Service (α : Type) where
  containerName : α
  buildContext : α
  dockerfile : α
  /-- the build argument `BASE_IMAGE` -/
  baseImage : α
  image : α
  privileged : Bool
  restart : α
  memLimit : α
  memReservation : α
  memswapLimit : α
  cpus : α
  shmSize : α
  pidsLimit : α
  volumes : List α
  environment : List (String × α)
  command : List α
  ports : List α
deriving DecidableEq

def Service.map {α β : Type} (f : α → β) (s : Service α) : Service β where
  containerName := f s.containerName
  buildContext := f s.buildContext
  dockerfile := f s.dockerfile
  baseImage := f s.baseImage
  image := f s.image
  privileged := s.privileged
  restart := f s.restart
  memLimit := f s.memLimit
  memReservation := f s.memReservation
  memswapLimit := f s.memswapLimit
  cpus := f s.cpus
  shmSize := f s.shmSize
  pidsLimit := f s.pidsLimit
  volumes := s.volumes.map f
  environment := s.environment.map fun e => (e.1, f e.2)
  command := s.command.map f
  ports := s.ports.map f

def dollar (name default : String) : Template := .var name (.text default)

/-- a variable between two texts -/
def within (before : String) (v : Template) (after : String) : Template := .append (.text before) (.append v (.text after))

def defaultImage : String := "redroid/redroid:14.0.0_litegapps_houdini_magisk"

def defaultMagiskDb : String := "/data/adb/magisk.db"

def defaultModulesDir : String := "/data/adb/modules_update"

def defaultFridaBin : String := "/data/local/tmp/frida-server"

/-- the service `phone` of `compose.yaml` -/
def phone : Service Template where
  containerName := .ref "INSTANCE_NAME"
  buildContext := dollar "BEETROOT_BUILD_CONTEXT" "."
  dockerfile := .text "docker/Dockerfile"
  baseImage := dollar "BASE_IMAGE" defaultImage
  image := .text "beetroot:latest"
  privileged := true
  restart := .text "unless-stopped"
  memLimit := dollar "MEM_LIMIT" "3g"
  memReservation := .var "MEM_RESERVATION" (dollar "MEM_LIMIT" "3g")
  memswapLimit := dollar "MEMSWAP_LIMIT" "0"
  cpus := dollar "CPUS" "2.0"
  shmSize := dollar "SHM_SIZE" "256m"
  pidsLimit := dollar "PIDS_LIMIT" "4096"
  volumes := [.text "./data:/data", within "./modules:" (dollar "BEETROOT_MODULES_DIR" defaultModulesDir) ":ro",
    within "./frida-server:" (dollar "BEETROOT_FRIDA_BIN" defaultFridaBin) ":ro"]
  environment := [("BEETROOT_MAGISK_DB", dollar "BEETROOT_MAGISK_DB" defaultMagiskDb),
    ("BEETROOT_MODULES_DIR", dollar "BEETROOT_MODULES_DIR" defaultModulesDir),
    ("BEETROOT_FRIDA_BIN", dollar "BEETROOT_FRIDA_BIN" defaultFridaBin),
    ("BEETROOT_DENYLIST_PACKAGES", dollar "BEETROOT_DENYLIST_PACKAGES" "")]
  command := [.append (.text "androidboot.redroid_width=") (dollar "DISPLAY_WIDTH" "540"),
    .append (.text "androidboot.redroid_height=") (dollar "DISPLAY_HEIGHT" "960"),
    .append (.text "androidboot.redroid_fps=") (dollar "DISPLAY_FPS" "3"),
    .append (.text "androidboot.redroid_gpu_mode=") (dollar "DISPLAY_GPU" "guest"),
    .text "androidboot.use_memfd=true",
    .text "androidboot.use_redroid_overlayfs=true"]
  ports := []

/-! ## The command line -/

/-- an argument: a text, or a path of the host -/
inductive Word where
  | text (s : String)
  | path (p : Path)
deriving DecidableEq, Repr

/-- what the files of an instance hold, as far as compose reads them -/
inductive Doc where
  /-- the `compose.yaml` of the package -/
  | bundled
  | override (published : List (Int × Int))
  | env (text : String)
deriving DecidableEq

abbrev Files := Path → Option Doc

inductive ComposeError where
  | noDocker
deriving DecidableEq, Repr

/-- where docker and the bundled file are -/
structure Setup where
  dockerBin : String
  hasDocker : Bool
  template : Path

variable (u : Setup)

/-- `_ensure_docker` -/
def ensureDocker : Except ComposeError Unit := if u.hasDocker then .ok () else .error .noDocker

/-- `_base_cmd`; the override is there from the first `apply` on -/
def baseCmd (files : Files) (name : String) (root : Path) : Except ComposeError (List Word) := do
  ensureDocker u
  let cmd := [.text u.dockerBin, .text "compose", .text "-p", .text name, .text "-f", .path u.template]
  let cmd := if (files (instanceComposeOverride root)).isSome then cmd ++ [.text "-f", .path (instanceComposeOverride root)] else cmd
  pure (cmd ++ [.text "--project-directory", .path root, .text "--env-file", .path (instanceEnv root)])

/-- the command of `run` -/
def runCmd (files : Files) (name : String) (root : Path) (args : List String) : Except ComposeError (List Word) :=
  (baseCmd u files name root).map fun cmd => cmd ++ args.map .text

/-- what the options of `docker compose` say -/
structure Invocation where
  project : Option String := none
  files : List Path := []
  directory : Option Path := none
  envFile : Option Path := none
  args : List Word := []
deriving DecidableEq

/-- the options come in pairs, up to the subcommand -/
def parseOptions (i : Invocation) : List Word → Invocation
  | .text "-p" :: .text project :: rest => parseOptions { i with project := some project } rest
  | .text "-f" :: .path file :: rest => parseOptions { i with files := i.files ++ [file] } rest
  | .text "--project-directory" :: .path directory :: rest => parseOptions { i with directory := some directory } rest
  | .text "--env-file" :: .path file :: rest => parseOptions { i with envFile := some file } rest
  | rest => { i with args := rest }

/-- the command line behind `docker compose` -/
def parseCmd : List Word → Option Invocation
  | _ :: .text "compose" :: rest => some (parseOptions {} rest)
  | _ => none

theorem parseCmd_runCmd {files : Files} {name : String} {root : Path} {cmd : List Word}
    (h : runCmd u files name root ["up", "-d"] = .ok cmd) :
    parseCmd cmd = some
      { project := some name
        files := u.template :: if (files (instanceComposeOverride root)).isSome then [instanceComposeOverride root] else []
        directory := some root
        envFile := some (instanceEnv root)
        args := [.text "up", .text "-d"] } := by
  unfold runCmd baseCmd ensureDocker at h
  cases hd : u.hasDocker with
  | false =>
    rw [hd] at h
    cases h
  | true =>
    rw [hd] at h
    by_cases ho : (files (instanceComposeOverride root)).isSome = true
    · simp only [if_pos ho] at h ⊢
      cases h
      rfl
    · simp only [if_neg ho] at h ⊢
      cases h
      rfl

/-! ## `docker compose` -/

/-- the characters that mean something in the value of an `--env-file` -/
def specialChars : List Char :=
  ['$', '"', '\'', '\\', '#'] ++
    ([9, 10, 11, 12, 13, 0x20, 0x60, 0x85, 0xa0, 0x1680, 0x2000, 0x2001, 0x2002, 0x2003, 0x2004, 0x2005, 0x2006, 0x2007, 0x2008,
      0x2009, 0x200a, 0x2028, 0x2029, 0x202f, 0x205f, 0x3000].map Char.ofNat)

def isPlain (value : String) : Bool := value.toList.all fun c => !specialChars.contains c

def isName (name : String) : Bool := name ≠ "" && name.toList.all fun c => c.isUpper || c = '_'

/-- how compose reads an `--env-file`; `none` if it refuses the file -/
structure Engine where
  dotenv : String → Option (List (String × String))
  reads : ∀ text es, parseEnv text = es.map some → (∀ e ∈ es, isName e.1 = true ∧ isPlain e.2 = true) → dotenv text = some es

def Doc.ports : Doc → Option (List Template)
  | .override published => some (published.map fun p => .text (toString p.1 ++ ":" ++ toString p.2))
  | _ => none

def Doc.envText : Doc → Option String
  | .env s => some s
  | _ => none

/-- the files of the `-f` options, where a later one adds to the lists of an earlier one -/
def merge : List Doc → Option (Service Template)
  | .bundled :: overrides => (overrides.mapM Doc.ports).map fun ports => { phone with ports := phone.ports ++ ports.flatten }
  | _ => none

/-- the service that compose brings up -/
def Engine.service (e : Engine) (environ : Vars) (files : Files) (i : Invocation) : Option (Service String) := do
  let docs ← i.files.mapM files
  let merged ← merge docs
  let env ← i.envFile.bind files
  let text ← env.envText
  let assignments ← e.dotenv text
  pure (merged.map (render (environ.over (.ofList assignments))))

/-- `compose.up`, as far as compose gets to start something -/
def started (e : Engine) (environ : Vars) (files : Files) (name : String) (root : Path) : Option (Service String) := do
  let cmd ← (runCmd u files name root ["up", "-d"]).toOption
  let i ← parseCmd cmd
  e.service environ files i

/-! ## What the config asks for -/

/-- the files of `_stage_local` that compose reads -/
def stagedFiles (files : Files) (root : Path) (text : String) (resolved : List ResolvedPort) : Files := fun q =>
  if q = instanceComposeOverride root then some (.override (resolved.map fun rp => (rp.host, rp.guest)))
  else if q = instanceEnv root then some (.env text)
  else files q

/-- a file of an instance as compose reads it, where a file that is neither the override nor the `beetroot.yaml` has the text of
the `.env` -/
def docOf (text : String) : FileBody → Option Doc
  | .override published => some (.override published)
  | .other => some (.env text)
  | .yaml _ => none

theorem stagedFiles_stageLocal {T : Type} {w w' : World T} {name rest : String} {root : Path} {cfg : Config.InstanceConfig}
    (files : Files) (text : String) (h : stageLocal w name root (cfg.narrow rest) = .ok w') :
    ∃ m resolved, w.reg.instances.get? name = some m ∧ resolvePorts m.index cfg.ports = .ok resolved ∧
      ∀ q ∈ [instanceComposeOverride root, instanceEnv root],
        stagedFiles files root text resolved q = (readFile w'.fs q).bind (docOf text) := by
  obtain ⟨m, resolved, hm, hr, -, hfs⟩ := stageLocal_ok h
  refine ⟨m, resolved, hm, hr, fun q hq => ?_⟩
  rw [hfs q]
  unfold stagedFiles
  split_ifs with ho he
  · rfl
  · rfl
  · rcases List.mem_cons.1 hq with heq | hq
    · exact absurd heq ho
    · exact absurd (List.mem_singleton.1 hq) he

section Wanted

variable (renderNode : Bool) (name : String) (cfg : Config.InstanceConfig) (layout : Option (Dict String String))

/-- a path of the layout; an empty one stands for the default -/
def layoutPath (key default : String) : String := fallback (some (resolvedPath layout key)) default

def magiskDb : String := layoutPath layout "magisk_db" defaultMagiskDb

def modulesDir : String := layoutPath layout "modules_dir" defaultModulesDir

def fridaBin : String := layoutPath layout "frida_bin" defaultFridaBin

/-- memory that is not reserved explicitly is reserved up to the limit -/
def reservation : String := (cfg.resources.memReservation.map (·.1)).getD cfg.resources.mem.1

def memswap : String := (cfg.resources.memswapLimit.map (·.1)).getD "0"

/-- each variable of the template, what it should be, and what it is if it is left empty -/
def settings : List (String × String × String) :=
  [("INSTANCE_NAME", name, ""),
    ("BASE_IMAGE", baseImageTag cfg.android, defaultImage),
    ("MEM_LIMIT", cfg.resources.mem.1, "3g"),
    ("MEM_RESERVATION", reservation cfg, cfg.resources.mem.1),
    ("MEMSWAP_LIMIT", memswap cfg, "0"),
    ("CPUS", cfg.resources.cpus.1.repr, "2.0"),
    ("SHM_SIZE", cfg.resources.sharedMem.1, "256m"),
    ("PIDS_LIMIT", toString cfg.resources.pidsLimit.1, "4096"),
    ("DISPLAY_WIDTH", toString cfg.display.width.1, "540"),
    ("DISPLAY_HEIGHT", toString cfg.display.height.1, "960"),
    ("DISPLAY_FPS", toString cfg.display.fps.1, "3"),
    ("DISPLAY_GPU", resolveRendering renderNode cfg.display.rendering, "guest"),
    ("BEETROOT_DENYLIST_PACKAGES", denylistValue (cfg.magisk.denylist.map (·.1)), ""),
    ("BEETROOT_MAGISK_DB", magiskDb layout, defaultMagiskDb),
    ("BEETROOT_MODULES_DIR", modulesDir layout, defaultModulesDir),
    ("BEETROOT_FRIDA_BIN", fridaBin layout, defaultFridaBin)]

/-- the service of a config; the build context is no setting of it -/
def wanted (context : String) (resolved : List ResolvedPort) : Service String where
  containerName := name
  buildContext := context
  dockerfile := "docker/Dockerfile"
  baseImage := baseImageTag cfg.android
  image := "beetroot:latest"
  privileged := true
  restart := "unless-stopped"
  memLimit := cfg.resources.mem.1
  memReservation := reservation cfg
  memswapLimit := memswap cfg
  cpus := cfg.resources.cpus.1.repr
  shmSize := cfg.resources.sharedMem.1
  pidsLimit := toString cfg.resources.pidsLimit.1
  volumes := ["./data:/data", "./modules:" ++ (modulesDir layout ++ ":ro"), "./frida-server:" ++ (fridaBin layout ++ ":ro")]
  environment := [("BEETROOT_MAGISK_DB", magiskDb layout), ("BEETROOT_MODULES_DIR", modulesDir layout),
    ("BEETROOT_FRIDA_BIN", fridaBin layout),
    ("BEETROOT_DENYLIST_PACKAGES", denylistValue (cfg.magisk.denylist.map (·.1)))]
  command := ["androidboot.redroid_width=" ++ toString cfg.display.width.1,
    "androidboot.redroid_height=" ++ toString cfg.display.height.1,
    "androidboot.redroid_fps=" ++ toString cfg.display.fps.1,
    "androidboot.redroid_gpu_mode=" ++ resolveRendering renderNode cfg.display.rendering,
    "androidboot.use_memfd=true",
    "androidboot.use_redroid_overlayfs=true"]
  ports := resolved.map fun rp => toString rp.host ++ ":" ++ toString rp.guest

/-- a setting that the environment leaves alone: the variable is not exported, or says the same, or is empty where the default is
wanted -/
def Spared (environ : Vars) (s : String × String × String) : Prop :=
  ∀ v, environ s.1 = some v → v = s.2.1 ∨ v = "" ∧ s.2.2 = s.2.1

end Wanted

/-! ## What the file says -/

theorem plain_of_chars {value : String} {p : Char → Bool} (hp : specialChars.all (fun c => !p c) = true)
    (h : ∀ c ∈ value.toList, p c = true) : isPlain value = true := by
  refine List.all_eq_true.2 fun c hc => ?_
  rw [Bool.not_eq_true', List.contains_eq_mem, decide_eq_false_iff_not]
  intro hmem
  have hspecial := List.all_eq_true.1 hp c hmem
  rw [h c hc] at hspecial
  cases hspecial

theorem plain_append {v w : String} (hv : isPlain v = true) (hw : isPlain w = true) : isPlain (v ++ w) = true := by
  unfold isPlain
  rw [String.toList_append, List.all_append, Bool.and_eq_true]
  exact ⟨hv, hw⟩

theorem newline_of_plain {v : String} (h : isPlain v = true) : '\n' ∉ v.toList := fun hmem =>
  absurd (List.all_eq_true.1 h _ hmem) (by decide)

theorem plain_name {name : String} (h : nameOk name = true) : isPlain name = true :=
  plain_of_chars (p := fun c => ('a' ≤ c && c ≤ 'z') || ('0' ≤ c && c ≤ '9') || c = '_' || c = '-') (by decide)
    (List.all_eq_true.1 (Bool.and_eq_true_iff.1 h).2)

theorem plain_toString (n : Int) : isPlain (toString n) = true := by
  refine plain_of_chars (p := fun c => c = '-' || c.isDigit) (by decide) fun c hc => ?_
  rcases Search.mem_toString hc with h | h
  · simp [h]
  · simp [h]

theorem plain_repr (x : Double) : isPlain x.repr = true :=
  plain_of_chars (p := Double.isReprChar) (by decide) fun _ => Double.mem_repr

theorem plain_baseImageTag (android : Android) : isPlain (baseImageTag android) = true := by
  have hslug : isPlain (((resolveGappsVendor android).map vendorSlug).getD "") = true := by
    cases resolveGappsVendor android with
    | none => decide
    | some vendor => cases vendor <;> decide
  exact plain_append (plain_append (plain_append (plain_append (by decide) (plain_toString _)) (by decide)) hslug) (by decide)

theorem plain_rendering (renderNode : Bool) (r : Rendering) : isPlain (resolveRendering renderNode r) = true := by
  cases renderNode <;> cases r <;> decide

theorem plain_dockerSize {v : String} (h : checkDockerSize v = true) (hn : ¬ endsInNewline v = true) : isPlain v = true := by
  refine plain_of_chars (p := fun c => isDecimal c || c = '.' || isSizeSuffix c) (by decide) fun c hc => ?_
  rcases matchDollar_iff.1 h with hfull | ⟨body, hbody, -⟩
  · rcases mem_dockerSizeFull hfull hc with h | h | h
    · simp [h]
    · simp [h]
    · simp [h]
  · exact absurd (by simp [endsInNewline, hbody]) hn

theorem plain_memswap {v : String} (h : v = "-1" ∨ checkDockerSize v = true) (hn : ¬ endsInNewline v = true) :
    isPlain v = true := by
  rcases h with rfl | h
  · decide
  · exact plain_dockerSize h hn

theorem plain_denylistValue {ls : List String} (h : ∀ l ∈ ls, checkDenylistEntry l = true ∧ ¬ endsInNewline l = true) :
    isPlain (denylistValue ls) = true := by
  refine plain_of_chars (p := fun c => isPackageChar c || c = '/' || c = ',') (by decide) fun c hc => ?_
  rw [toList_denylistValue] at hc
  by_cases hcomma : c = ','
  · simp [hcomma]
  · obtain ⟨cs, hcs, hmem⟩ := (Lines.mem_intercalate hcomma).1 hc
    obtain ⟨l, hl, rfl⟩ := List.mem_map.1 hcs
    rcases matchDollar_iff.1 (h l hl).1 with hfull | ⟨body, hbody, -⟩
    · rcases mem_denylistFull hfull hmem with h | h
      · simp [h]
      · simp [h]
    · exact absurd (by simp [endsInNewline, hbody]) (h l hl).2

section Staged

variable {renderNode : Bool} {name : String} {cfg : Config.InstanceConfig} {layout : Option (Dict String String)}

theorem plain_limits {r : Resources} (hres : ∀ v ∈ (r.memReservation.map (·.1)).toList, ¬ endsInNewline v = true)
    (hswap : ∀ v ∈ (r.memswapLimit.map (·.1)).toList, ¬ endsInNewline v = true) :
    ∀ e ∈ limitEntries r, isPlain e.2 = true := by
  unfold limitEntries
  rw [List.forall_mem_append]
  refine ⟨fun e he => ?_, fun e he => ?_⟩
  · obtain ⟨v, hv, rfl⟩ := Option.map_eq_some_iff.1 (Option.mem_toList.1 he)
    exact plain_dockerSize v.2 (hres v.1 (by simp [hv]))
  · obtain ⟨v, hv, rfl⟩ := Option.map_eq_some_iff.1 (Option.mem_toList.1 he)
    exact plain_memswap v.2 (hswap v.1 (by simp [hv]))

/-- nothing in the file means anything but itself -/
theorem plain_entries (hname : nameOk name = true) (htexts : ∀ t ∈ envTexts cfg, ¬ endsInNewline t = true)
    (hlayout : ∀ key ∈ ["magisk_db", "modules_dir", "frida_bin"], isPlain (resolvedPath layout key) = true) :
    ∀ e ∈ envEntries renderNode name cfg layout, isPlain e.2 = true := by
  unfold envTexts at htexts
  rw [List.forall_mem_append, List.forall_mem_append, List.forall_mem_append, List.forall_mem_cons,
    List.forall_mem_singleton] at htexts
  obtain ⟨⟨⟨⟨hmem, hshared⟩, hres⟩, hswap⟩, hdeny⟩ := htexts
  have hvalue : isPlain (denylistValue (cfg.magisk.denylist.map (·.1))) = true := by
    refine plain_denylistValue fun l hl => ⟨?_, hdeny l hl⟩
    obtain ⟨x, -, rfl⟩ := List.mem_map.1 hl
    exact x.2
  unfold envEntries
  rw [List.forall_mem_append, List.forall_mem_append]
  refine ⟨⟨?_, ?_⟩, plain_limits hres hswap⟩
  · unfold settingEntries
    simp only [List.forall_mem_cons, List.not_mem_nil, false_imp_iff, implies_true, and_true]
    exact ⟨plain_name hname, plain_baseImageTag _, plain_dockerSize cfg.resources.mem.2 hmem, plain_repr _,
      plain_dockerSize cfg.resources.sharedMem.2 hshared, plain_toString _, plain_toString _, plain_toString _,
      plain_toString _, plain_rendering _ _, hvalue⟩
  · unfold pathEntries
    simp only [List.forall_mem_cons, List.not_mem_nil, false_imp_iff, implies_true, and_true] at hlayout ⊢
    exact hlayout

theorem isName_keysFor : ∀ reservation memswap, ∀ k ∈ keysFor reservation memswap, isName k = true := by decide

/-- compose reads the file as it was written -/
theorem Engine.dotenv_envText (e : Engine) (h : ∀ e ∈ envEntries renderNode name cfg layout, isPlain e.2 = true) :
    e.dotenv (envText renderNode name cfg layout) = some (envEntries renderNode name cfg layout) := by
  refine e.reads _ _ (parseEnv_eq keysOk_envEntries envEntries_ne_nil fun x hx => newline_of_plain (h x hx)) fun x hx => ⟨?_, h x hx⟩
  have hk := List.mem_map_of_mem (f := Prod.fst) hx
  rw [map_fst_envEntries] at hk
  exact isName_keysFor _ _ _ hk

theorem file_some {k v : String} (h : (k, v) ∈ envEntries renderNode name cfg layout) :
    Vars.ofList (envEntries renderNode name cfg layout) k = some v := by
  refine lookup_of_mem ?_ h
  rw [map_fst_envEntries]
  exact keysFor_nodup _ _

theorem file_none {k : String} (h : k ∉ emittedKeys cfg) : Vars.ofList (envEntries renderNode name cfg layout) k = none := by
  refine lookup_of_not_mem ?_
  rw [map_fst_envEntries]
  exact h

theorem dockerSize_ne {v : String} (h : checkDockerSize v = true) : v ≠ "" := by
  rintro rfl
  exact absurd h (by decide)

theorem toString_ne {n : Int} (hn : 0 ≤ n) : toString n ≠ "" := by
  intro h
  have hdigits := Search.toString_toList hn
  rw [h] at hdigits
  exact Nat.toDigits_ne_nil hdigits.symm

theorem reprPos_ne (q : ℚ) : Double.reprPos q ≠ [] := by
  simp only [Double.reprPos]
  split_ifs <;> simp

theorem repr_ne (x : Double) : x.repr ≠ "" := by
  intro h
  replace h := congrArg String.toList h
  cases x with
  | fin q =>
    simp only [Double.repr, String.toList_ofList] at h
    split_ifs at h
    · cases h
    · exact reprPos_ne q h
    · cases h
  | inf => exact absurd h (by decide)
  | negInf => exact absurd h (by decide)
  | nan => exact absurd h (by decide)

theorem baseImageTag_ne (android : Android) : baseImageTag android ≠ "" := by
  unfold baseImageTag
  simp

theorem rendering_ne (renderNode : Bool) (r : Rendering) : resolveRendering renderNode r ≠ "" := by
  cases renderNode <;> cases r <;> decide

theorem file_reservation :
    fallback (Vars.ofList (envEntries renderNode name cfg layout) "MEM_RESERVATION") cfg.resources.mem.1 = reservation cfg := by
  unfold reservation
  cases h : cfg.resources.memReservation with
  | none =>
    rw [file_none (by simp [emittedKeys, keysFor, h])]
    rfl
  | some v =>
    rw [file_some (v := v.1) (List.mem_append_right _ (by simp [limitEntries, h]))]
    exact fallback_some (dockerSize_ne v.2)

theorem file_memswap :
    fallback (Vars.ofList (envEntries renderNode name cfg layout) "MEMSWAP_LIMIT") "0" = memswap cfg := by
  unfold memswap
  cases h : cfg.resources.memswapLimit with
  | none =>
    rw [file_none (by simp [emittedKeys, keysFor, h])]
    rfl
  | some v =>
    rw [file_some (v := v.1) (List.mem_append_right _ (by simp [limitEntries, h]))]
    refine fallback_some ?_
    rcases v.2 with hv | hv
    · rw [hv]
      decide
    · exact dockerSize_ne hv

/-- the variables that the file alone gives -/
theorem settings_file (hname : nameOk name = true) : ∀ s ∈ settings renderNode name cfg layout,
    fallback (Vars.ofList (envEntries renderNode name cfg layout) s.1) s.2.2 = s.2.1 := by
  have hsetting : ∀ {k v : String}, (k, v) ∈ settingEntries renderNode name cfg →
      Vars.ofList (envEntries renderNode name cfg layout) k = some v := fun h =>
    file_some (List.mem_append_left _ (List.mem_append_left _ h))
  have hvalue : ∀ {k v d : String}, (k, v) ∈ settingEntries renderNode name cfg → v ≠ "" →
      fallback (Vars.ofList (envEntries renderNode name cfg layout) k) d = v := fun h hv => by
    rw [hsetting h]
    exact fallback_some hv
  have hpath : ∀ {k key d : String}, (k, resolvedPath layout key) ∈ pathEntries layout →
      fallback (Vars.ofList (envEntries renderNode name cfg layout) k) d = layoutPath layout key d := fun h => by
    rw [file_some (List.mem_append_left _ (List.mem_append_right _ h))]
    rfl
  have hne : name ≠ "" := of_decide_eq_true (Bool.and_eq_true_iff.1 hname).1
  unfold settings
  simp only [List.forall_mem_cons, List.not_mem_nil, false_imp_iff, implies_true, and_true]
  refine ⟨hvalue (by simp [settingEntries]) hne, hvalue (by simp [settingEntries]) (baseImageTag_ne _),
    hvalue (by simp [settingEntries]) (dockerSize_ne cfg.resources.mem.2), file_reservation, file_memswap,
    hvalue (by simp [settingEntries]) (repr_ne _), hvalue (by simp [settingEntries]) (dockerSize_ne cfg.resources.sharedMem.2),
    hvalue (by simp [settingEntries]) (toString_ne (by have := cfg.resources.pidsLimit.2; omega)),
    hvalue (by simp [settingEntries]) (toString_ne cfg.display.width.2.le),
    hvalue (by simp [settingEntries]) (toString_ne cfg.display.height.2.le),
    hvalue (by simp [settingEntries]) (toString_ne cfg.display.fps.2.le), hvalue (by simp [settingEntries]) (rendering_ne _ _), ?_,
    hpath (by simp [pathEntries]), hpath (by simp [pathEntries]), hpath (by simp [pathEntries])⟩
  rw [hsetting (v := denylistValue (cfg.magisk.denylist.map (·.1))) (by simp [settingEntries])]
  simp only [fallback]
  split_ifs with h
  · exact h.symm
  · rfl

/-- the rendered service is the wanted one exactly if each variable is -/
theorem rendered_iff (vars : Vars) (resolved : List ResolvedPort) (ports : List Template)
    (hports : ports.map (render vars) = (wanted renderNode name cfg layout "" resolved).ports) :
    ({ phone with ports := ports } : Service Template).map (render vars) =
        wanted renderNode name cfg layout (fallback (vars "BEETROOT_BUILD_CONTEXT") ".") resolved ↔
      ∀ s ∈ settings renderNode name cfg layout, fallback (vars s.1) s.2.2 = s.2.1 := by
  have href : ∀ key, (vars key).getD "" = fallback (vars key) "" := by
    intro key
    cases vars key with
    | none => rfl
    | some v =>
      simp only [fallback, Option.getD_some]
      split_ifs with h
      · exact h
      · rfl
  unfold settings
  simp only [List.forall_mem_cons, List.not_mem_nil, false_imp_iff, implies_true, and_true]
  simp only [Service.map, wanted, phone, dollar, within, render, List.map_cons, List.map_nil, Service.mk.injEq, List.cons.injEq,
    Prod.mk.injEq, String.append_right_inj, String.append_left_inj, href, hports, true_and, and_true]
  constructor
  · intro h
    obtain ⟨hname, himage, hmem, hres, hswap, hcpus, hshm, hpids, -, ⟨hdb, hmodules, hfrida, hdeny⟩, hw, hh, hf, hg⟩ := h
    rw [hmem] at hres
    exact ⟨hname, himage, hmem, hres, hswap, hcpus, hshm, hpids, hw, hh, hf, hg, hdeny, hdb, hmodules, hfrida⟩
  · intro h
    obtain ⟨hname, himage, hmem, hres, hswap, hcpus, hshm, hpids, hw, hh, hf, hg, hdeny, hdb, hmodules, hfrida⟩ := h
    rw [hmem]
    exact ⟨hname, himage, rfl, hres, hswap, hcpus, hshm, hpids, ⟨hmodules, hfrida⟩, ⟨hdb, hmodules, hfrida, hdeny⟩, hw, hh, hf, hg⟩

end Staged

/-! ## What is started -/

section Started

variable {u : Setup} {files : Files} {root : Path}

theorem started_staged (e : Engine) (environ : Vars) {name text : String} {resolved : List ResolvedPort}
    {es : List (String × String)} (hdocker : u.hasDocker = true) (htemplate : files u.template = some .bundled)
    (houtside : u.template ≠ instanceComposeOverride root ∧ u.template ≠ instanceEnv root) (henv : e.dotenv text = some es) :
    started u e environ (stagedFiles files root text resolved) name root =
      some (({ phone with ports := resolved.map fun rp => .text (toString rp.host ++ ":" ++ toString rp.guest) } :
        Service Template).map (render (environ.over (.ofList es)))) := by
  have hoverride : stagedFiles files root text resolved (instanceComposeOverride root) =
      some (.override (resolved.map fun rp => (rp.host, rp.guest))) := if_pos rfl
  have hfile : stagedFiles files root text resolved (instanceEnv root) = some (.env text) := by
    have hne : instanceEnv root ≠ instanceComposeOverride root := by simp [instanceEnv, instanceComposeOverride]
    exact (if_neg hne).trans (if_pos rfl)
  have hbundled : stagedFiles files root text resolved u.template = some .bundled :=
    (if_neg houtside.1).trans ((if_neg houtside.2).trans htemplate)
  cases hcmd : runCmd u (stagedFiles files root text resolved) name root ["up", "-d"] with
  | error err =>
    unfold runCmd baseCmd ensureDocker at hcmd
    rw [hdocker] at hcmd
    cases hcmd
  | ok cmd =>
    have hparse := parseCmd_runCmd u hcmd
    rw [hoverride] at hparse
    simp [started, hcmd, hparse, Except.toOption, Engine.service, hbundled, hoverride, hfile, merge, Doc.ports, Doc.envText, henv,
      phone, List.map_map, Function.comp_def]

end Started

/-- **The service that compose brings up is the one of the config, exactly if no exported variable gets in the way.** -/
theorem service_faithful_iff (u : Setup) (e : Engine) (environ : Vars) (files : Files) (root : Path) (renderNode : Bool)
    (name : String) (cfg : Config.InstanceConfig) (layout : Option (Dict String String)) (resolved : List ResolvedPort)
    (hdocker : u.hasDocker = true) (htemplate : files u.template = some .bundled)
    (houtside : u.template ≠ instanceComposeOverride root ∧ u.template ≠ instanceEnv root) (hname : nameOk name = true)
    (htexts : ∀ t ∈ envTexts cfg, ¬ endsInNewline t = true)
    (hlayout : ∀ key ∈ ["magisk_db", "modules_dir", "frida_bin"], isPlain (resolvedPath layout key) = true)
    (text : String) (htext : renderEnv renderNode name cfg layout = some text) :
    started u e environ (stagedFiles files root text resolved) name root =
        some (wanted renderNode name cfg layout (fallback (environ "BEETROOT_BUILD_CONTEXT") ".") resolved) ↔
      ∀ s ∈ settings renderNode name cfg layout, Spared environ s := by
  obtain ⟨-, rfl⟩ := renderEnv_eq_some.1 htext
  have henv := e.dotenv_envText (@plain_entries renderNode name cfg layout hname htexts hlayout)
  have hcontext : (environ.over (.ofList (envEntries renderNode name cfg layout))) "BEETROOT_BUILD_CONTEXT" =
      environ "BEETROOT_BUILD_CONTEXT" := by
    have hnone : Vars.ofList (envEntries renderNode name cfg layout) "BEETROOT_BUILD_CONTEXT" = none := by
      refine file_none ?_
      unfold emittedKeys
      generalize cfg.resources.memReservation.isSome = a
      generalize cfg.resources.memswapLimit.isSome = b
      revert a b
      decide
    rw [Vars.over, hnone, Option.or_none]
  rw [started_staged e environ hdocker htemplate houtside henv, Option.some.injEq, ← hcontext,
    rendered_iff _ _ _ (by simp [wanted, render, List.map_map, Function.comp_def])]
  refine forall₂_congr fun s hs => ?_
  have hfile := @settings_file renderNode name cfg layout hname s hs
  rw [← hfile, fallback_over, hfile]
  rfl

theorem mapM_some (es : List (String × String)) : (es.map some).mapM id = some es := by
  induction es with
  | nil => rfl
  | cons e es ih =>
    rw [List.map_cons, List.mapM_cons, ih]
    rfl

/-- a reader that takes every line as it stands -/
def plainDotenv (text : String) : Option (List (String × String)) := (parseEnv text).mapM id

theorem plainDotenv_reads (text : String) (es : List (String × String)) (h : parseEnv text = es.map some)
    (_ : ∀ e ∈ es, isName e.1 = true ∧ isPlain e.2 = true) : plainDotenv text = some es := by
  rw [plainDotenv, h, mapM_some]

def plainEngine : Engine := ⟨plainDotenv, plainDotenv_reads⟩

def sampleSetup : Setup := ⟨"docker", true, ["pkg", "compose.yaml"]⟩

/-- the files of the package -/
def packageFiles : Files := fun q => if q = ["pkg", "compose.yaml"] then some .bundled else none

/-- the ports of the defaults -/
def alphaPorts : List ResolvedPort := [⟨some "adb", 5555, 5555⟩, ⟨some "frida", 27042, 27042⟩, ⟨some "frida_control", 27043, 27043⟩]

/-- the instance directory of `alpha` after an `apply` of a config with nothing but defaults -/
def alphaFiles : Files :=
  stagedFiles packageFiles ["srv", "alpha"] (envText false "alpha" Snapshot.defaultConfig none) alphaPorts

def startAlpha (environ : Vars) : Option (Service String) :=
  started sampleSetup plainEngine environ alphaFiles "alpha" ["srv", "alpha"]

theorem alpha_rendered : renderEnv false "alpha" Snapshot.defaultConfig none =
    some (envText false "alpha" Snapshot.defaultConfig none) := renderEnv_eq_some.2 ⟨by decide, rfl⟩

/-- an exported `MEM_LIMIT` takes the place of the configured one, for whatever program it was meant -/
theorem limit_shadowed :
    resolvePorts 0 Snapshot.defaultConfig.ports = .ok alphaPorts ∧
      startAlpha (fun _ => none) = some (wanted false "alpha" Snapshot.defaultConfig none "." alphaPorts) ∧
      startAlpha (fun key => if key = "MEM_LIMIT" then some "1g" else none) ≠
        some (wanted false "alpha" Snapshot.defaultConfig none "." alphaPorts) := by
  have hiff := fun environ : Vars => service_faithful_iff sampleSetup plainEngine environ packageFiles ["srv", "alpha"] false "alpha"
    Snapshot.defaultConfig none alphaPorts rfl rfl (by decide) (by decide) (by decide +kernel) (by decide) _ alpha_rendered
  refine ⟨by decide, (hiff fun _ => none).2 fun s _ v hv => absurd hv (by simp), fun h => ?_⟩
  have hspared := (hiff fun key => if key = "MEM_LIMIT" then some "1g" else none).1 h
    ("MEM_LIMIT", Snapshot.defaultConfig.resources.mem.1, "3g") (by simp [settings])
  rcases hspared "1g" rfl with hmem | ⟨hmem, -⟩
  · exact absurd hmem (by decide)
  · exact absurd hmem (by decide)

end Beetroot.Compose
