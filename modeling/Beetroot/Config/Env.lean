/-
Does the `.env` file say what the config says?

`render_env` writes one `KEY=VALUE` line for each setting and escapes nothing, so a value with a newline becomes two lines. Every
text it writes has passed a check: the name in full (`fullmatch`), the sizes and the denylist entries by a pattern whose `$` also
matches before a final newline. An integer with more digits than the interpreter's bound makes `str` raise.

Results:
- `parseEnv_envText`: what a written file says, line by line, whatever the values are;
- `newline_entries`: none of the written values has a newline exactly when no checked text ends in one;
- `renderEnv_faithful`: a file is rendered, and faithful, exactly when no checked text ends in a newline and no number is too long;
- `renderEnv_blank_line`: a size with a final newline passes the schema and leaves a blank line.
-/
import Beetroot.Lib.Dict
import Beetroot.Lib.Lines
import Beetroot.Lib.Search
import Beetroot.Lib.Str
import Beetroot.Config.Load
import Beetroot.Registration.Machine

namespace Beetroot.Config

open Lib Lib.Lines Registration

/-! ## `render_env` -/

/-- `auto` probes the host for a render node -/
def resolveRendering (renderNode : Bool) : Rendering → String
  | .gpu => "host"
  | .software => "guest"
  | .auto => if renderNode then "host" else "guest"

/-- an explicit vendor wins, otherwise the intent picks it -/
def resolveGappsVendor (android : Android) : Option GappsVendor :=
  match android.gappsVendor with
  | some vendor => some vendor
  | none =>
    match android.gapps with
    | .none => none
    | .minimal => some .litegapps
    | .full => some .opengapps

/-- `_VENDOR_SLUG` -/
def vendorSlug : GappsVendor → String
  | .litegapps => "_litegapps"
  | .opengapps => "_gapps"
  | .mindthegapps => "_mindthegapps"

def baseImageTag (android : Android) : String :=
  "redroid/redroid:" ++ toString android.version.1 ++ ".0.0" ++ ((resolveGappsVendor android).map vendorSlug).getD "" ++
    "_houdini_magisk"

/-- `_STEALTH_PATH_DEFAULTS` -/
def stealthPathDefaults : Dict String String :=
  .ofList [("magisk_db", "/data/adb/magisk.db"), ("modules_dir", "/data/adb/modules_update"),
    ("frida_bin", "/data/local/tmp/frida-server")]

/-- `{**_STEALTH_PATH_DEFAULTS, **(stealth_paths or {})}` -/
def resolvedPaths (stealthPaths : Option (Dict String String)) : Dict String String :=
  ((stealthPaths.getD ∅).entries).foldl (fun d e => d.set e.1 e.2) stealthPathDefaults

def resolvedPath (stealthPaths : Option (Dict String String)) (key : String) : String :=
  ((resolvedPaths stealthPaths).get? key).getD ""

/-- the entries have no comma, so that a comma can join them -/
def denylistValue (entries : List String) : String := ",".intercalate entries

/-- the settings that come before the three paths -/
def settingEntries (renderNode : Bool) (name : String) (cfg : InstanceConfig) : List (String × String) :=
  [("INSTANCE_NAME", name),
    ("BASE_IMAGE", baseImageTag cfg.android),
    ("MEM_LIMIT", cfg.resources.mem.1),
    ("CPUS", cfg.resources.cpus.1.repr),
    ("SHM_SIZE", cfg.resources.sharedMem.1),
    ("PIDS_LIMIT", toString cfg.resources.pidsLimit.1),
    ("DISPLAY_WIDTH", toString cfg.display.width.1),
    ("DISPLAY_HEIGHT", toString cfg.display.height.1),
    ("DISPLAY_FPS", toString cfg.display.fps.1),
    ("DISPLAY_GPU", resolveRendering renderNode cfg.display.rendering),
    ("BEETROOT_DENYLIST_PACKAGES", denylistValue (cfg.magisk.denylist.map (·.1)))]

def pathEntries (stealthPaths : Option (Dict String String)) : List (String × String) :=
  [("BEETROOT_MAGISK_DB", resolvedPath stealthPaths "magisk_db"),
    ("BEETROOT_MODULES_DIR", resolvedPath stealthPaths "modules_dir"),
    ("BEETROOT_FRIDA_BIN", resolvedPath stealthPaths "frida_bin")]

/-- the two limits that are written only if they are set -/
def limitEntries (r : Resources) : List (String × String) :=
  (r.memReservation.map fun v => ("MEM_RESERVATION", v.1)).toList ++
    (r.memswapLimit.map fun v => ("MEMSWAP_LIMIT", v.1)).toList

def envEntries (renderNode : Bool) (name : String) (cfg : InstanceConfig) (stealthPaths : Option (Dict String String)) :
    List (String × String) :=
  settingEntries renderNode name cfg ++ pathEntries stealthPaths ++ limitEntries cfg.resources

def renderLines (es : List (String × String)) : String := "\n".intercalate (es.map fun e => e.1 ++ "=" ++ e.2) ++ "\n"

/-- the text of the file -/
def envText (renderNode : Bool) (name : String) (cfg : InstanceConfig) (stealthPaths : Option (Dict String String)) : String :=
  renderLines (envEntries renderNode name cfg stealthPaths)

/-- the integers of the config that go into the file -/
def envNumbers (cfg : InstanceConfig) : List Int :=
  [cfg.resources.pidsLimit.1, cfg.display.width.1, cfg.display.height.1, cfg.display.fps.1]

/-- `none` is the `ValueError` of an integer with too many digits -/
def renderEnv (renderNode : Bool) (name : String) (cfg : InstanceConfig) (stealthPaths : Option (Dict String String)) :
    Option String :=
  if ∀ n ∈ envNumbers cfg, Str.Printable n then some (envText renderNode name cfg stealthPaths) else none

theorem renderEnv_eq_some {renderNode : Bool} {name : String} {cfg : InstanceConfig} {stealthPaths : Option (Dict String String)}
    {text : String} : renderEnv renderNode name cfg stealthPaths = some text ↔
      (∀ n ∈ envNumbers cfg, Str.Printable n) ∧ envText renderNode name cfg stealthPaths = text := by
  unfold renderEnv
  split_ifs with h
  · rw [Option.some.injEq]
    exact (and_iff_right h).symm
  · simp [h]

/-! ## Reading a file line by line -/

def textPair (e : List Char × List Char) : String × String := (String.ofList e.1, String.ofList e.2)

/-- one item for each line; `none` for a line that is no `KEY=VALUE` -/
def parseEnv (text : String) : List (Option (String × String)) := (parse text.toList).map (Option.map textPair)

/-- the lines that a value adds after its own -/
def addedLines (value : String) : List (Option (String × String)) := (overflow value.toList).map (Option.map textPair)

/-- a key has neither a `=` nor a newline -/
def KeysOk (es : List (String × String)) : Prop := ∀ e ∈ es, '=' ∉ e.1.toList ∧ '\n' ∉ e.1.toList

theorem toList_renderLines {es : List (String × String)} (h : es ≠ []) :
    (renderLines es).toList = unlines ((es.map fun e => (e.1.toList, e.2.toList)).map entry) := by
  have hmap : (es.map fun e => (e.1 ++ "=" ++ e.2).toList) = (es.map fun e => (e.1.toList, e.2.toList)).map entry := by
    rw [List.map_map]
    refine List.map_congr_left ?_
    intro e _
    simp [entry]
  have hne : ((es.map fun e => (e.1.toList, e.2.toList)).map entry) ≠ [] := by simpa using h
  rw [renderLines, String.toList_append, String.toList_intercalate, List.map_map]
  rw [← intercalate_newline hne, ← hmap]
  rfl

theorem parseEnv_renderLines {es : List (String × String)} (hk : KeysOk es) (h : es ≠ []) :
    parseEnv (renderLines es) =
      es.flatMap fun e => some (e.1, String.ofList (firstLine e.2.toList)) :: addedLines e.2 := by
  have hpairs : ∀ e ∈ es.map fun e => (e.1.toList, e.2.toList), '=' ∉ e.1 ∧ '\n' ∉ e.1 := by
    intro e he
    obtain ⟨x, hx, rfl⟩ := List.mem_map.1 he
    exact hk x hx
  rw [parseEnv, toList_renderLines h, parse_unlines hpairs, List.flatMap_map, List.map_flatMap]
  refine List.flatMap_congr ?_
  intro e _
  rw [List.map_cons, Option.map_some, textPair, String.ofList_toList, addedLines]

/-- the lines come back as written exactly when no value has a newline -/
theorem length_parseEnv {es : List (String × String)} (hk : KeysOk es) (h : es ≠ []) :
    (parseEnv (renderLines es)).length = es.length ↔ ∀ e ∈ es, '\n' ∉ e.2.toList := by
  rw [parseEnv, List.length_map, parse, List.length_map, toList_renderLines h]
  have hlen : es.length = ((es.map fun e => (e.1.toList, e.2.toList)).map entry).length := by simp
  rw [hlen, length_lines_unlines_eq, List.map_map, List.forall_mem_map]
  refine forall₂_congr ?_
  intro e he
  have hnl := (hk e he).2
  simp [entry, hnl]

theorem parseEnv_eq {es : List (String × String)} (hk : KeysOk es) (h : es ≠ []) (hn : ∀ e ∈ es, '\n' ∉ e.2.toList) :
    parseEnv (renderLines es) = es.map some := by
  rw [parseEnv_renderLines hk h, List.map_eq_flatMap]
  refine List.flatMap_congr ?_
  intro e he
  rw [addedLines, overflow_eq_nil (hn e he), firstLine_eq_self (hn e he), String.ofList_toList]
  rfl

/-! ## What the file should say -/

/-- the keys of a file, by whether the two optional limits are set -/
def keysFor (reservation memswap : Bool) : List String :=
  ["INSTANCE_NAME", "BASE_IMAGE", "MEM_LIMIT", "CPUS", "SHM_SIZE", "PIDS_LIMIT", "DISPLAY_WIDTH", "DISPLAY_HEIGHT",
    "DISPLAY_FPS", "DISPLAY_GPU", "BEETROOT_DENYLIST_PACKAGES", "BEETROOT_MAGISK_DB", "BEETROOT_MODULES_DIR",
    "BEETROOT_FRIDA_BIN"] ++
    (if reservation then ["MEM_RESERVATION"] else []) ++ (if memswap then ["MEMSWAP_LIMIT"] else [])

def emittedKeys (cfg : InstanceConfig) : List String :=
  keysFor cfg.resources.memReservation.isSome cfg.resources.memswapLimit.isSome

/-- the comma split of a list; the empty text is the empty list -/
def commaSplit (v : String) : List String := if v = "" then [] else (v.toList.splitOn ',').map String.ofList

/-- the entries give every emitted key once, with the value of the config, and no other key -/
structure Says (renderNode : Bool) (name : String) (cfg : InstanceConfig) (entries : List (String × String)) : Prop where
  once : (entries.map Prod.fst).Nodup
  keys : ∀ k, k ∈ entries.map Prod.fst ↔ k ∈ emittedKeys cfg
  instanceName : ("INSTANCE_NAME", name) ∈ entries
  baseImage : ("BASE_IMAGE", baseImageTag cfg.android) ∈ entries
  memLimit : ("MEM_LIMIT", cfg.resources.mem.1) ∈ entries
  cpus : ("CPUS", cfg.resources.cpus.1.repr) ∈ entries
  shmSize : ("SHM_SIZE", cfg.resources.sharedMem.1) ∈ entries
  pidsLimit : ("PIDS_LIMIT", toString cfg.resources.pidsLimit.1) ∈ entries
  width : ("DISPLAY_WIDTH", toString cfg.display.width.1) ∈ entries
  height : ("DISPLAY_HEIGHT", toString cfg.display.height.1) ∈ entries
  fps : ("DISPLAY_FPS", toString cfg.display.fps.1) ∈ entries
  gpu : ("DISPLAY_GPU", resolveRendering renderNode cfg.display.rendering) ∈ entries
  denylist : ∃ v, ("BEETROOT_DENYLIST_PACKAGES", v) ∈ entries ∧ commaSplit v = cfg.magisk.denylist.map (·.1)
  magiskDb : ("BEETROOT_MAGISK_DB", "/data/adb/magisk.db") ∈ entries
  modulesDir : ("BEETROOT_MODULES_DIR", "/data/adb/modules_update") ∈ entries
  fridaBin : ("BEETROOT_FRIDA_BIN", "/data/local/tmp/frida-server") ∈ entries
  memReservation : ∀ v, ("MEM_RESERVATION", v) ∈ entries ↔ cfg.resources.memReservation.map (·.1) = some v
  memswapLimit : ∀ v, ("MEMSWAP_LIMIT", v) ∈ entries ↔ cfg.resources.memswapLimit.map (·.1) = some v

/-- every line of the text is one of the entries that the file should have -/
def Faithful (renderNode : Bool) (name : String) (cfg : InstanceConfig) (text : String) : Prop :=
  ∃ entries, parseEnv text = entries.map some ∧ Says renderNode name cfg entries

/-- a file is rendered, and is faithful -/
def Encoded (renderNode : Bool) (name : String) (cfg : InstanceConfig) (rendered : Option String) : Prop :=
  ∃ text, rendered = some text ∧ Faithful renderNode name cfg text

/-- the texts of the config that go into the file as they are -/
def envTexts (cfg : InstanceConfig) : List String :=
  [cfg.resources.mem.1, cfg.resources.sharedMem.1] ++ (cfg.resources.memReservation.map (·.1)).toList ++
    (cfg.resources.memswapLimit.map (·.1)).toList ++ cfg.magisk.denylist.map (·.1)

def endsInNewline (text : String) : Bool := text.toList.getLast? = some '\n'

theorem keysFor_nodup : ∀ reservation memswap, (keysFor reservation memswap).Nodup := by decide

theorem keysFor_ok : ∀ reservation memswap, ∀ k ∈ keysFor reservation memswap, '=' ∉ k.toList ∧ '\n' ∉ k.toList := by
  decide

section Entries

variable {renderNode : Bool} {name : String} {cfg : InstanceConfig} {stealthPaths : Option (Dict String String)}

theorem map_fst_envEntries : (envEntries renderNode name cfg stealthPaths).map Prod.fst = emittedKeys cfg := by
  have hlimits : (limitEntries cfg.resources).map Prod.fst =
      (if cfg.resources.memReservation.isSome then ["MEM_RESERVATION"] else []) ++
        (if cfg.resources.memswapLimit.isSome then ["MEMSWAP_LIMIT"] else []) := by
    unfold limitEntries
    cases cfg.resources.memReservation <;> cases cfg.resources.memswapLimit <;> rfl
  rw [envEntries, List.map_append, hlimits, emittedKeys, keysFor, List.append_assoc]
  rfl

theorem keysOk_envEntries : KeysOk (envEntries renderNode name cfg stealthPaths) := by
  intro e he
  have hk := List.mem_map_of_mem (f := Prod.fst) he
  rw [map_fst_envEntries] at hk
  exact keysFor_ok _ _ _ hk

theorem envEntries_ne_nil : envEntries renderNode name cfg stealthPaths ≠ [] := by simp [envEntries, settingEntries]

/-- what a rendered file says, whatever the values are -/
theorem parseEnv_envText : parseEnv (envText renderNode name cfg stealthPaths) =
    (envEntries renderNode name cfg stealthPaths).flatMap fun e =>
      some (e.1, String.ofList (firstLine e.2.toList)) :: addedLines e.2 :=
  parseEnv_renderLines keysOk_envEntries envEntries_ne_nil

end Entries

/-! ## Newlines in the values -/

theorem newline_of_matchDollar {full : List Char → Bool} (hfull : ∀ cs, full cs = true → '\n' ∉ cs) {cs : List Char}
    (h : matchDollar full cs = true) : '\n' ∉ cs ↔ ¬ cs.getLast? = some '\n' := by
  rcases matchDollar_iff.1 h with h | ⟨body, rfl, -⟩
  · refine iff_of_true (hfull cs h) ?_
    intro hlast
    exact hfull cs h (List.mem_of_getLast? hlast)
  · simp

theorem newline_dockerSize {v : String} (h : checkDockerSize v = true) :
    '\n' ∉ v.toList ↔ ¬ endsInNewline v = true := by
  have hfull : ∀ cs, dockerSizeFull cs = true → '\n' ∉ cs := by
    intro cs hcs hmem
    exact absurd (mem_dockerSizeFull hcs hmem) (by decide)
  rw [newline_of_matchDollar hfull h, endsInNewline, decide_eq_true_eq]

theorem newline_memswap {v : String} (h : v = "-1" ∨ checkDockerSize v = true) :
    '\n' ∉ v.toList ↔ ¬ endsInNewline v = true := by
  rcases h with rfl | h
  · decide
  · exact newline_dockerSize h

theorem newline_denylistEntry {v : String} (h : checkDenylistEntry v = true) :
    '\n' ∉ v.toList ↔ ¬ endsInNewline v = true := by
  have hfull : ∀ cs, denylistFull cs = true → '\n' ∉ cs := by
    intro cs hcs hmem
    exact absurd (mem_denylistFull hcs hmem) (by decide)
  rw [newline_of_matchDollar hfull h, endsInNewline, decide_eq_true_eq]

theorem newline_toString (n : Int) : '\n' ∉ (toString n).toList := by
  intro hmem
  rcases Search.mem_toString hmem with h | h
  · exact absurd h (by decide)
  · exact absurd h (by decide)

theorem newline_name {name : String} (h : nameOk name = true) : '\n' ∉ name.toList := by
  intro hmem
  have hall := (Bool.and_eq_true_iff.1 h).2
  exact absurd (List.all_eq_true.1 hall _ hmem) (by decide)

theorem newline_repr (x : Double) : '\n' ∉ x.repr.toList := by
  intro hmem
  exact absurd (Double.mem_repr hmem) (by decide)

theorem newline_baseImageTag (android : Android) : '\n' ∉ (baseImageTag android).toList := by
  have hslug : '\n' ∉ (((resolveGappsVendor android).map vendorSlug).getD "").toList := by
    cases resolveGappsVendor android with
    | none => decide
    | some vendor => cases vendor <;> decide
  unfold baseImageTag
  simp only [String.toList_append, List.mem_append, not_or]
  exact ⟨⟨⟨⟨by decide, newline_toString _⟩, by decide⟩, hslug⟩, by decide⟩

theorem newline_rendering (renderNode : Bool) (r : Rendering) : '\n' ∉ (resolveRendering renderNode r).toList := by
  cases renderNode <;> cases r <;> decide

theorem toList_denylistValue (ls : List String) : (denylistValue ls).toList = [','].intercalate (ls.map String.toList) :=
  String.toList_intercalate

/-- a joined list has a newline exactly when one of its items has -/
theorem newline_denylistValue {ls : List String} : '\n' ∉ (denylistValue ls).toList ↔ ∀ l ∈ ls, '\n' ∉ l.toList := by
  rw [toList_denylistValue, mem_intercalate (by decide)]
  simp

section Faithfulness

variable {renderNode : Bool} {name : String} {cfg : InstanceConfig}

theorem newline_settings (hname : nameOk name = true) :
    (∀ e ∈ settingEntries renderNode name cfg, '\n' ∉ e.2.toList) ↔
      ¬ endsInNewline cfg.resources.mem.1 = true ∧ ¬ endsInNewline cfg.resources.sharedMem.1 = true ∧
        ∀ e ∈ cfg.magisk.denylist.map (·.1), ¬ endsInNewline e = true := by
  have hdeny : '\n' ∉ (denylistValue (cfg.magisk.denylist.map (·.1))).toList ↔
      ∀ e ∈ cfg.magisk.denylist.map (·.1), ¬ endsInNewline e = true := by
    rw [newline_denylistValue]
    refine forall₂_congr ?_
    intro e he
    obtain ⟨x, -, rfl⟩ := List.mem_map.1 he
    exact newline_denylistEntry x.2
  unfold settingEntries
  simp only [List.forall_mem_cons, List.not_mem_nil, false_imp_iff, implies_true, and_true]
  rw [hdeny, newline_dockerSize cfg.resources.mem.2, newline_dockerSize cfg.resources.sharedMem.2]
  simp only [newline_name hname, newline_baseImageTag, newline_repr, newline_toString, newline_rendering, not_false_eq_true,
    true_and]

theorem newline_paths : ∀ e ∈ pathEntries none, '\n' ∉ e.2.toList := by decide

theorem newline_limits {r : Resources} : (∀ e ∈ limitEntries r, '\n' ∉ e.2.toList) ↔
    (∀ v ∈ (r.memReservation.map (·.1)).toList, ¬ endsInNewline v = true) ∧
      ∀ v ∈ (r.memswapLimit.map (·.1)).toList, ¬ endsInNewline v = true := by
  unfold limitEntries
  rw [List.forall_mem_append]
  refine and_congr ?_ ?_
  · cases r.memReservation with
    | none => simp
    | some v => simpa using newline_dockerSize v.2
  · cases r.memswapLimit with
    | none => simp
    | some v => simpa using newline_memswap v.2

/-- none of the written values has a newline exactly when none of the checked texts ends in one -/
theorem newline_entries (hname : nameOk name = true) :
    (∀ e ∈ envEntries renderNode name cfg none, '\n' ∉ e.2.toList) ↔ ∀ v ∈ envTexts cfg, ¬ endsInNewline v = true := by
  unfold envEntries envTexts
  rw [List.forall_mem_append, List.forall_mem_append, newline_settings hname, newline_limits]
  rw [List.forall_mem_append, List.forall_mem_append, List.forall_mem_append, List.forall_mem_cons, List.forall_mem_singleton]
  have hpaths := newline_paths
  tauto

theorem commaSplit_denylistValue {ls : List String} (h : ∀ l ∈ ls, l ≠ "" ∧ ',' ∉ l.toList) :
    commaSplit (denylistValue ls) = ls := by
  by_cases hls : ls = []
  · subst hls
    rfl
  have hsplit : (denylistValue ls).toList.splitOn ',' = ls.map String.toList := by
    have hitems : ∀ l ∈ ls.map String.toList, ',' ∉ l := by
      intro l hl
      obtain ⟨x, hx, rfl⟩ := List.mem_map.1 hl
      exact (h x hx).2
    rw [toList_denylistValue]
    exact List.splitOn_intercalate ',' hitems (by simpa using hls)
  have hne : denylistValue ls ≠ "" := by
    intro he
    rw [he] at hsplit
    obtain ⟨l, ls', rfl⟩ := List.exists_cons_of_ne_nil hls
    have hl : l.toList = [] := (List.cons.inj hsplit).1.symm
    exact (h l List.mem_cons_self).1 (String.toList_eq_nil_iff.1 hl)
  rw [commaSplit, if_neg hne, hsplit, List.map_map]
  simp

/-- an entry is not empty and has no comma, with or without a final newline -/
theorem denylistEntry_ok {e : String} (h : checkDenylistEntry e = true) : e ≠ "" ∧ ',' ∉ e.toList := by
  have hfull : ∀ cs, denylistFull cs = true → ',' ∉ cs := by
    intro cs hcs hmem
    exact absurd (mem_denylistFull hcs hmem) (by decide)
  constructor
  · intro he
    subst he
    exact absurd h (by decide)
  · rcases checkDenylistEntry_iff.1 h with h | ⟨body, hb, h⟩
    · exact hfull _ h
    · rw [hb]
      simpa using hfull _ h

/-- the written entries say what the config says -/
theorem says_envEntries : Says renderNode name cfg (envEntries renderNode name cfg none) := by
  have hsetting : ∀ e ∈ settingEntries renderNode name cfg, e ∈ envEntries renderNode name cfg none := fun e he =>
    List.mem_append_left _ (List.mem_append_left _ he)
  have hpath : ∀ e ∈ pathEntries none, e ∈ envEntries renderNode name cfg none := fun e he =>
    List.mem_append_left _ (List.mem_append_right _ he)
  have hdeny : ∀ l ∈ cfg.magisk.denylist.map (·.1), l ≠ "" ∧ ',' ∉ l.toList := by
    intro l hl
    obtain ⟨x, -, rfl⟩ := List.mem_map.1 hl
    exact denylistEntry_ok x.2
  refine
    { once := ?_
      keys := ?_
      instanceName := hsetting _ (by simp [settingEntries])
      baseImage := hsetting _ (by simp [settingEntries])
      memLimit := hsetting _ (by simp [settingEntries])
      cpus := hsetting _ (by simp [settingEntries])
      shmSize := hsetting _ (by simp [settingEntries])
      pidsLimit := hsetting _ (by simp [settingEntries])
      width := hsetting _ (by simp [settingEntries])
      height := hsetting _ (by simp [settingEntries])
      fps := hsetting _ (by simp [settingEntries])
      gpu := hsetting _ (by simp [settingEntries])
      denylist := ⟨_, hsetting _ (by simp [settingEntries]), commaSplit_denylistValue hdeny⟩
      magiskDb := hpath _ (by decide)
      modulesDir := hpath _ (by decide)
      fridaBin := hpath _ (by decide)
      memReservation := ?_
      memswapLimit := ?_ }
  · rw [map_fst_envEntries]
    exact keysFor_nodup _ _
  · intro k
    rw [map_fst_envEntries]
  · intro v
    simp [envEntries, settingEntries, pathEntries, limitEntries]
  · intro v
    simp [envEntries, settingEntries, pathEntries, limitEntries]

/-- a faithful file has as many lines as it has keys -/
theorem newline_of_faithful (h : Faithful renderNode name cfg (envText renderNode name cfg none)) :
    ∀ e ∈ envEntries renderNode name cfg none, '\n' ∉ e.2.toList := by
  obtain ⟨entries, hparse, hsays⟩ := h
  rw [← length_parseEnv keysOk_envEntries envEntries_ne_nil]
  have hperm : (entries.map Prod.fst).Perm (emittedKeys cfg) :=
    (List.perm_ext_iff_of_nodup hsays.once (keysFor_nodup _ _)).2 hsays.keys
  calc (parseEnv (envText renderNode name cfg none)).length
      = (entries.map Prod.fst).length := by rw [hparse, List.length_map, List.length_map]
    _ = (emittedKeys cfg).length := hperm.length_eq
    _ = (envEntries renderNode name cfg none).length := by
        rw [← @map_fst_envEntries renderNode name cfg none, List.length_map]

end Faithfulness

/-- the file is rendered and faithful exactly when no size and no denylist entry ends in a newline, and no number is too long -/
theorem renderEnv_faithful (renderNode : Bool) (name : String) (hname : nameOk name = true) (cfg : InstanceConfig) :
    Encoded renderNode name cfg (renderEnv renderNode name cfg none) ↔
      (∀ v ∈ envTexts cfg, ¬ endsInNewline v = true) ∧ ∀ n ∈ envNumbers cfg, Str.Printable n := by
  rw [← @newline_entries renderNode name cfg hname]
  constructor
  · intro h
    obtain ⟨text, hrendered, hfaithful⟩ := h
    obtain ⟨hnumbers, rfl⟩ := renderEnv_eq_some.1 hrendered
    exact ⟨newline_of_faithful hfaithful, hnumbers⟩
  · intro h
    obtain ⟨htexts, hnumbers⟩ := h
    refine ⟨_, renderEnv_eq_some.2 ⟨hnumbers, rfl⟩, _, parseEnv_eq keysOk_envEntries envEntries_ne_nil htexts, says_envEntries⟩

/-- the config of an empty file -/
theorem renderEnv_faithful_default : ∃ cfg, loadYaml .exact (.record []) = .ok cfg ∧
    Encoded true "alpha" cfg (renderEnv true "alpha" cfg none) := by
  have hloaded : (loadYaml .exact (.record [])).map (fun cfg => (envTexts cfg, envNumbers cfg)) = .ok
      (["3g", "256m", "com.google.android.gms", "com.google.android.gms/com.google.android.gms.unstable"],
        [4096, 540, 960, 3]) := by
    decide +kernel
  obtain ⟨cfg, hcfg, hc⟩ := Checked.map_ok_iff.1 hloaded
  obtain ⟨htexts, hnumbers⟩ := Prod.ext_iff.1 hc
  refine ⟨cfg, hcfg, (renderEnv_faithful true "alpha" (by decide) cfg).2 ?_⟩
  change envTexts cfg = _ at htexts
  change envNumbers cfg = _ at hnumbers
  rw [htexts, hnumbers]
  decide

/-- the block scalar of a YAML file ends in a newline; the size passes, and the file gets a line of its own for it -/
theorem renderEnv_blank_line :
    ∃ cfg text, loadYaml .exact (.record [("resources", .record [("shared_mem", .str "256m\n")])]) = .ok cfg ∧
      renderEnv true "alpha" cfg none = some text ∧ ¬ Faithful true "alpha" cfg text := by
  have hloaded : (loadYaml .exact (.record [("resources", .record [("shared_mem", .str "256m\n")])])).map
      (fun cfg => (cfg.resources.sharedMem.1, envNumbers cfg)) = .ok ("256m\n", [4096, 540, 960, 3]) := by decide +kernel
  obtain ⟨cfg, hcfg, hc⟩ := Checked.map_ok_iff.1 hloaded
  obtain ⟨hshm, hnumbers⟩ := Prod.ext_iff.1 hc
  change cfg.resources.sharedMem.1 = _ at hshm
  change envNumbers cfg = _ at hnumbers
  refine ⟨cfg, _, hcfg, renderEnv_eq_some.2 ⟨?_, rfl⟩, ?_⟩
  · rw [hnumbers]
    decide
  · intro h
    have hmem : ("SHM_SIZE", cfg.resources.sharedMem.1) ∈ envEntries true "alpha" cfg none := says_envEntries.shmSize
    refine newline_of_faithful h _ hmem ?_
    rw [hshm]
    decide

end Beetroot.Config
