/-
Can the layout of a manifest set anything but the three paths?

`path_layout` is any map from texts to texts. `restore` puts it into the row, and `_stage_local` renders the `.env` with it: the
values of `magisk_db`, `modules_dir` and `frida_bin` go into their lines as they are, so a value with a newline adds lines of its
own. Of two restores of one config, the files are compared line by line: the values of a key are all of them, in order, so
nothing depends on which of two lines for one key wins.

Results:
- `restore_env`: the `.env` that a restore has staged is the one rendered with the layout of its manifest;
- `valuesOf_envText`: the values of a key are those of the settings, those the layout adds, and those of the limits;
- `layout_confined`: two layouts agree outside the three keys exactly when they add the same lines for every other key;
- `layout_injects`: a layout that replaces the base image.
-/
import Beetroot.Config.Env
import Beetroot.Snapshot.Fidelity

namespace Beetroot.Snapshot

open Lib Lib.Eff Lib.Fs Instance Registration Staging Config

variable {T B : Type}

/-! ## The files -/

/-- the bytes of a text -/
structure TextFile (B : Type) where
  encode : String → B
  decode : B → String
  decode_encode : ∀ v, decode (encode v) = v

/-- the codec that writes the `.env` of `render_env`; `expand` gives the whole config behind the fields that a restore reads -/
def withEnv (k : Codec B) (text : TextFile B) (renderNode : Bool) (expand : Beetroot.InstanceConfig → Config.InstanceConfig) :
    Codec B :=
  { k with renderEnv := fun name cfg sp => text.encode (envText renderNode name (expand cfg) sp) }

/-- the keys of the three paths -/
def pathKeys : List String := ["BEETROOT_MAGISK_DB", "BEETROOT_MODULES_DIR", "BEETROOT_FRIDA_BIN"]

/-- the values that some lines give to a key, in order -/
def valuesAt (lines : List (Option (String × String))) (key : String) : List String :=
  lines.filterMap fun line => line.bind fun e => if e.1 = key then some e.2 else none

def valuesOf (text : String) (key : String) : List String := valuesAt (parseEnv text) key

/-- two files agree on every other key and have the same keys -/
def Confined (text₁ text₂ : String) : Prop :=
  (∀ key, key ∉ pathKeys → valuesOf text₁ key = valuesOf text₂ key) ∧
    ∀ key, valuesOf text₁ key ≠ [] ↔ valuesOf text₂ key ≠ []

/-- the lines that the paths of a layout add, after the first newline of each -/
def layoutLines (layout : Dict String String) : List (Option (String × String)) :=
  ["magisk_db", "modules_dir", "frida_bin"].flatMap fun key => addedLines (resolvedPath (some layout) key)

/-! ## The values of a key -/

theorem valuesAt_append (l₁ l₂ : List (Option (String × String))) (key : String) :
    valuesAt (l₁ ++ l₂) key = valuesAt l₁ key ++ valuesAt l₂ key := List.filterMap_append

theorem mem_valuesAt {lines : List (Option (String × String))} {key v : String} :
    v ∈ valuesAt lines key ↔ some (key, v) ∈ lines := by
  unfold valuesAt
  rw [List.mem_filterMap]
  constructor
  · rintro ⟨line, hl, hv⟩
    obtain ⟨e, rfl, he⟩ := Option.bind_eq_some_iff.1 hv
    split_ifs at he with hk
    cases he
    subst hk
    exact hl
  · intro h
    exact ⟨_, h, by simp⟩

/-- the lines that entries are read back as -/
def readBack (es : List (String × String)) : List (Option (String × String)) :=
  es.flatMap fun e => some (e.1, String.ofList (Lines.firstLine e.2.toList)) :: addedLines e.2

theorem readBack_append (es₁ es₂ : List (String × String)) : readBack (es₁ ++ es₂) = readBack es₁ ++ readBack es₂ :=
  List.flatMap_append

theorem valuesAt_paths (layout : Dict String String) {key : String} (hk : key ∉ pathKeys) :
    valuesAt (readBack (pathEntries (some layout))) key = valuesAt (layoutLines layout) key := by
  have hne : "BEETROOT_MAGISK_DB" ≠ key ∧ "BEETROOT_MODULES_DIR" ≠ key ∧ "BEETROOT_FRIDA_BIN" ≠ key := by
    simp only [pathKeys, List.mem_cons, List.not_mem_nil, or_false, not_or] at hk
    exact ⟨Ne.symm hk.1, Ne.symm hk.2.1, Ne.symm hk.2.2⟩
  simp [valuesAt, readBack, pathEntries, layoutLines, hne]

section Values

variable (renderNode : Bool) (name : String) (cfg : Config.InstanceConfig) (layout : Dict String String)

theorem valuesOf_envText (key : String) : valuesOf (envText renderNode name cfg (some layout)) key =
    valuesAt (readBack (settingEntries renderNode name cfg)) key ++ valuesAt (readBack (pathEntries (some layout))) key ++
      valuesAt (readBack (limitEntries cfg.resources)) key := by
  have hparse : parseEnv (envText renderNode name cfg (some layout)) =
      readBack (envEntries renderNode name cfg (some layout)) := parseEnv_envText
  rw [valuesOf, hparse, envEntries, readBack_append, readBack_append, valuesAt_append, valuesAt_append]

/-- each of the three keys has a value -/
theorem valuesOf_path {key : String} (hk : key ∈ pathKeys) :
    valuesOf (envText renderNode name cfg (some layout)) key ≠ [] := by
  have hpath : valuesAt (readBack (pathEntries (some layout))) key ≠ [] := by
    obtain ⟨e, he, hek⟩ : ∃ e ∈ pathEntries (some layout), e.1 = key := by
      simpa [pathKeys, pathEntries, eq_comm] using hk
    refine List.ne_nil_of_mem (a := String.ofList (Lines.firstLine e.2.toList)) (mem_valuesAt.2 ?_)
    rw [← hek]
    exact List.mem_flatMap.2 ⟨e, he, List.mem_cons_self⟩
  rw [valuesOf_envText]
  simp [hpath]

end Values

/-- the files agree exactly when the layouts add the same lines for the other keys -/
theorem confined_envText (renderNode : Bool) (name : String) (cfg : Config.InstanceConfig)
    (layout₁ layout₂ : Dict String String) :
    Confined (envText renderNode name cfg (some layout₁)) (envText renderNode name cfg (some layout₂)) ↔
      ∀ key, key ∉ pathKeys → valuesAt (layoutLines layout₁) key = valuesAt (layoutLines layout₂) key := by
  have hvalues : ∀ key, key ∉ pathKeys →
      (valuesOf (envText renderNode name cfg (some layout₁)) key =
        valuesOf (envText renderNode name cfg (some layout₂)) key ↔
          valuesAt (layoutLines layout₁) key = valuesAt (layoutLines layout₂) key) := by
    intro key hk
    rw [valuesOf_envText, valuesOf_envText, valuesAt_paths layout₁ hk, valuesAt_paths layout₂ hk,
      List.append_left_inj, List.append_right_inj]
  constructor
  · intro h key hk
    exact (hvalues key hk).1 (h.1 key hk)
  · intro h
    refine ⟨fun key hk => (hvalues key hk).2 (h key hk), ?_⟩
    intro key
    by_cases hk : key ∈ pathKeys
    · exact iff_of_true (valuesOf_path _ _ _ _ hk) (valuesOf_path _ _ _ _ hk)
    · rw [(hvalues key hk).2 (h key hk)]

/-- a layout whose paths have no newline adds nothing -/
theorem layoutLines_eq_nil {layout : Dict String String}
    (h : ∀ key ∈ ["magisk_db", "modules_dir", "frida_bin"], '\n' ∉ (resolvedPath (some layout) key).toList) :
    layoutLines layout = [] := by
  unfold layoutLines
  rw [List.flatMap_eq_nil_iff]
  intro key hk
  rw [addedLines, Lines.overflow_eq_nil (h key hk)]
  rfl

/-! ## The restored file -/

section Restored

variable {p : Paths} {k : Codec B} {J : JsonCodec B} {P : Pydantic T} {f : Faults B} {s t : Site T B} {target : Path}

/-- an extraction leaves the registry alone -/
theorem extractAll_reg (archive : Archive B) (i : ℕ) :
    Steps (fun s t => t.reg = s.reg) (extractAll f target i archive : M T B Unit) := by
  have hrefl : ∀ s : Site T B, s.reg = s.reg := fun _ => rfl
  have htrans : ∀ s t u : Site T B, t.reg = s.reg → u.reg = t.reg → u.reg = s.reg := fun _ _ _ h₁ h₂ => h₂.trans h₁
  have hputs : ∀ puts : List (String × Path × Node B), Steps (fun s t => t.reg = s.reg) (putAll target puts : M T B Unit) := by
    intro puts
    induction puts with
    | nil => exact steps_pure hrefl ()
    | cons e es ih =>
      refine steps_bind htrans ?_ fun _ => ih
      intro s
      rfl
  have hparents : ∀ (i : ℕ) (q : Path), Steps (fun s t => t.reg = s.reg) (makeParents f target i q : M T B Unit) := by
    intro i q s
    unfold makeParents
    split_ifs
    · rfl
    · rfl
    · rfl
  have hitem : ∀ (i : ℕ) (item : Item B), Steps (fun s t => t.reg = s.reg) (extractItem f target i item : M T B Unit) := by
    intro i item
    cases item with
    | file name body =>
      exact steps_bind htrans (hparents i name.dropLast) fun _ => (writeText_only f _ _ _).mono fun _ _ h => h.1
    | dir name =>
      have hdir : Steps (Only fun _ => False) (mkdirs f (.member i) (target ++ name) : M T B Unit) := mkdirs_only f _ _
      exact steps_bind htrans (hparents i name.dropLast) fun _ => hdir.mono fun _ _ h => h.1
    | other name puts raises =>
      exact steps_bind htrans (steps_refuse hrefl _ _) fun _ =>
        steps_bind htrans (hputs puts) fun _ => steps_refuse hrefl _ _
    | broken => exact steps_throw hrefl _
  induction archive generalizing i with
  | nil => exact steps_pure hrefl ()
  | cons item items ih => exact steps_bind htrans (hitem i item) fun _ => ih (i + 1)

theorem restore_env [DecidableEq B] {archive : Archive B} {a : RestoreArgs} {now : T} {inst : Path × Beetroot.InstanceConfig}
    (h : restoreLocal p k J P f archive a now s = .ok inst t) : ∃ manifest, readManifest J P archive = .ok manifest ∧
      readFile t.fs (instanceEnv (a.target p)) = some (k.renderEnv a.destName inst.2 (some manifest.pathLayout)) := by
  obtain ⟨manifest, index, reg, s₁, hmanifest, -, halloc, hbody⟩ := restoreLocal_ran h
  obtain ⟨-, hrow, -⟩ := allocate_row halloc
  obtain ⟨⟨⟩, s₂, h₂, hrest⟩ := bind_ok_iff.1 hbody
  obtain ⟨⟨⟩, s₃, hextract, h₃⟩ := bind_ok_iff.1 h₂
  have hyaml : (refuse (!isFile s₃.fs (instanceYaml (a.target p)))
      (.snapshot "archive did not contain a beetroot.yaml; refusing to register") : M T B Unit) s₃ = .ok () s₂ := h₃
  obtain ⟨-, rfl⟩ := refuse_ok_iff.1 hyaml
  have hreg := (extractAll_reg archive 0).of_ok hextract
  have hrow₂ : s₂.reg.instances.get? a.destName = some ⟨.redroid (p.str (a.target p)) ∅, index, now⟩ := by
    rw [hreg]
    exact hrow
  obtain ⟨-, -, -, -, henv⟩ := restoreRest_ok (p.resolve_str a.destPath) hrow₂ hrest
  exact ⟨manifest, hmanifest, henv⟩

end Restored

/-- Two restores of one config, whose manifests have any two layouts: the staged files agree on every key but the three, and have
the same keys, exactly when the layouts add the same lines for every other key. -/
theorem layout_confined [DecidableEq B] (p : Paths) (k : Codec B) (J : JsonCodec B) (P : Pydantic T) (f : Faults B)
    (text : TextFile B) (renderNode : Bool) (expand : Beetroot.InstanceConfig → Config.InstanceConfig)
    (archive₁ archive₂ : Archive B) (a : RestoreArgs) (now : T) (s t₁ t₂ : Site T B) (inst : Path × Beetroot.InstanceConfig)
    (h₁ : restoreLocal p (withEnv k text renderNode expand) J P f archive₁ a now s = .ok inst t₁)
    (h₂ : restoreLocal p (withEnv k text renderNode expand) J P f archive₂ a now s = .ok inst t₂) :
    ∃ m₁ m₂ b₁ b₂, readManifest J P archive₁ = .ok m₁ ∧ readManifest J P archive₂ = .ok m₂ ∧
      readFile t₁.fs (instanceEnv (a.target p)) = some b₁ ∧ readFile t₂.fs (instanceEnv (a.target p)) = some b₂ ∧
      (Confined (text.decode b₁) (text.decode b₂) ↔
        ∀ key, key ∉ pathKeys → valuesAt (layoutLines m₁.pathLayout) key = valuesAt (layoutLines m₂.pathLayout) key) := by
  obtain ⟨m₁, hm₁, hb₁⟩ := restore_env h₁
  obtain ⟨m₂, hm₂, hb₂⟩ := restore_env h₂
  refine ⟨m₁, m₂, _, _, hm₁, hm₂, hb₁, hb₂, ?_⟩
  simp only [withEnv, text.decode_encode]
  exact confined_envText renderNode a.destName (expand inst.2) m₁.pathLayout m₂.pathLayout

/-! ## Two archives -/

def Bytes.text : TextFile Bytes := ⟨.inl, Sum.elim id fun _ => "", fun _ => rfl⟩

/-- a config with nothing but defaults -/
def defaultConfig : Config.InstanceConfig where
  apiVersion := supportedApiVersion
  lifecycle := .durable
  android := .default
  display := .default
  resources := .default
  frida := none
  modules := []
  magisk := .default
  ports := InstanceConfig.plain.ports
  binder := .auto
  vm := .unset
  distinct := InstanceConfig.plain.distinct
  addressing := InstanceConfig.plain.addressing
  supported := rfl

example : defaultConfig.narrow "" = .plain := rfl

/-- an archive of the default config, with a value for `magisk_db` -/
def layoutArchive (magiskDb : String) : Archive Bytes :=
  [.file [manifestFilename] (.inr ⟨"alpha", 0, "now", "1", .ofList [("magisk_db", magiskDb)], .durable⟩),
    .file ["beetroot.yaml"] (.inl "minimal")]

def freshSite : Site String Bytes := ⟨⟨∅⟩, ∅, []⟩

def restoreLayout (magiskDb : String) : EStateM.Result Fail (Site String Bytes) (Path × Beetroot.InstanceConfig) :=
  restoreLocal Paths.sample (withEnv Bytes.codec Bytes.text true fun _ => defaultConfig) Bytes.json Pydantic.iso .none
    (layoutArchive magiskDb) ⟨"bravo", "/srv/new", false⟩ "now" freshSite

theorem restoreLayout_manifest (magiskDb : String) : readManifest Bytes.json Pydantic.iso (layoutArchive magiskDb) =
    .ok ⟨"alpha", 0, "now", "1", .ofList [("magisk_db", magiskDb)], .durable⟩ := rfl

/-- paths without a newline stay in their lines -/
theorem layout_confined_plain : ∃ t₁ t₂ b₁ b₂, restoreLayout "/data/adb/a.db" = .ok (["/srv/new"], .plain) t₁ ∧
    restoreLayout "/data/adb/b.db" = .ok (["/srv/new"], .plain) t₂ ∧ readFile t₁.fs ["/srv/new", ".env"] = some b₁ ∧
    readFile t₂.fs ["/srv/new", ".env"] = some b₂ ∧ Confined (Bytes.text.decode b₁) (Bytes.text.decode b₂) := by
  obtain ⟨m₁, m₂, b₁, b₂, hm₁, hm₂, hb₁, hb₂, hiff⟩ := layout_confined Paths.sample Bytes.codec Bytes.json Pydantic.iso .none
    Bytes.text true (fun _ => defaultConfig) (layoutArchive "/data/adb/a.db") (layoutArchive "/data/adb/b.db")
    ⟨"bravo", "/srv/new", false⟩ "now" freshSite (final (restoreLayout "/data/adb/a.db"))
    (final (restoreLayout "/data/adb/b.db")) (["/srv/new"], .plain) rfl rfl
  refine ⟨_, _, b₁, b₂, rfl, rfl, hb₁, hb₂, hiff.2 ?_⟩
  rw [restoreLayout_manifest] at hm₁ hm₂
  cases hm₁
  cases hm₂
  intro key _
  rw [layoutLines_eq_nil (by decide), layoutLines_eq_nil (by decide)]

/-- a value that ends its line and names another base image -/
theorem layout_injects : ∃ t₁ t₂ b₁ b₂, restoreLayout "/data/adb/magisk.db" = .ok (["/srv/new"], .plain) t₁ ∧
    restoreLayout "/data/adb/magisk.db\nBASE_IMAGE=evil/image\nMEM_RESERVATION=1g" = .ok (["/srv/new"], .plain) t₂ ∧
    readFile t₁.fs ["/srv/new", ".env"] = some b₁ ∧ readFile t₂.fs ["/srv/new", ".env"] = some b₂ ∧
    ¬ Confined (Bytes.text.decode b₁) (Bytes.text.decode b₂) := by
  have h₁ : restoreLayout "/data/adb/magisk.db" =
      .ok (["/srv/new"], .plain) (final (restoreLayout "/data/adb/magisk.db")) := rfl
  have h₂ : restoreLayout "/data/adb/magisk.db\nBASE_IMAGE=evil/image\nMEM_RESERVATION=1g" =
      .ok (["/srv/new"], .plain)
        (final (restoreLayout "/data/adb/magisk.db\nBASE_IMAGE=evil/image\nMEM_RESERVATION=1g")) := rfl
  obtain ⟨m₁, hm₁, hb₁⟩ := restore_env h₁
  obtain ⟨m₂, hm₂, hb₂⟩ := restore_env h₂
  rw [restoreLayout_manifest] at hm₁ hm₂
  cases hm₁
  cases hm₂
  refine ⟨_, _, _, _, h₁, h₂, hb₁, hb₂, ?_⟩
  simp only [withEnv, Bytes.text.decode_encode]
  rw [confined_envText]
  intro h
  exact absurd (h "BASE_IMAGE" (by decide)) (by decide +kernel)

end Beetroot.Snapshot
