/-
Which modules does the guest flash, and what does a failed stage leave?

`stage_for_instance` wipes `modules/*.zip` and copies the listed modules into it under the basenames of their sources;
`flash-modules.sh` installs the regular files that the shell pattern `*.zip` gives. The three filters on names differ: a copy may
have any basename, and the shell's pattern skips a name with a leading dot. The wipe comes before the first fetch, so a module
that cannot be resolved or copied ends the call with the old zips gone.

Results:
- `stageLoop_staged`: a loop that returns has copied every module, and its sources are as they were when they were read;
- `stage_flashes_iff`: after a stage that returns, the guest flashes one file for each module with the bytes of its source, and
  nothing else, exactly when the basename of every source is flashed;
- `stageLoop_restores`: a loop that raises has put everything back exactly when the copies it has made stood there before;
- `failed_stage_iff`: a stage that raises, on its own or in `add_module`, has left everything as it was exactly when it is `intact`.
-/
import Beetroot.Config.Text
import Beetroot.Instance.Modules
import Mathlib.Data.List.Nodup

namespace Beetroot.Instance

open Lib Lib.Eff Lib.Fs

variable {T B : Type}

/-! ## What is flashed -/

/-- the pattern `*.zip` of the shell, which does not match a leading dot -/
def isFlashName (name : String) : Bool := isZip name && name.toList.head? ≠ some '.'

/-- `flash-modules.sh` installs the file -/
def Flashed (root : Path) (fs : FileTree B) (x : String) : Prop :=
  isFlashName x = true ∧ isFile fs (instanceModules root ++ [x]) = true

/-- the file has the bytes of the source of the module at this position -/
def FromSource (net : Net B) (root : Path) (fs : FileTree B) (e : Module × ℕ) (x : String) : Prop :=
  ∃ src, resolveModule net root fs e.2 e.1 = .ok src ∧ readFile fs (instanceModules root ++ [x]) = some src.body

/-- one flashed file for each module, under different names, with the bytes of its source, and no other -/
def FlashesAll (net : Net B) (root : Path) (ms : List Module) (fs : FileTree B) : Prop :=
  ∃ names : List String, names.Nodup ∧ List.Forall₂ (FromSource net root fs) ms.zipIdx names ∧
    ∀ x, Flashed root fs x ↔ x ∈ names

/-! ## Names -/

section Names

variable {net : Net B} {root : Path}

theorem uniqueDestName_self {name : String} {used : List String} (h : name ∉ used) (i : ℕ) :
    uniqueDestName name used i = name := by
  obtain ⟨calls, -, hreturns⟩ := uniqueDestName_returns name used i
  exact hreturns.of_not_taken h

/-- a name with the position in front of it is still flashed -/
theorem isFlashName_renamed {name : String} (h : isFlashName name = true) (i : ℕ) :
    isFlashName (toString i ++ "_" ++ name) = true := by
  obtain ⟨hzip, -⟩ := Bool.and_eq_true_iff.1 h
  have hchars : (toString i ++ "_" ++ name).toList = Nat.toDigits 10 i ++ ('_' :: name.toList) := by
    rw [String.toList_append, String.toList_append, Nat.toString_eq_repr, Nat.toList_repr]
    simp
  refine Bool.and_eq_true_iff.2 ⟨?_, ?_⟩
  · unfold isZip at hzip ⊢
    rw [hchars]
    have hsuffix : ".zip".toList <:+ name.toList := by simpa using hzip
    have hlong : name.toList <:+ Nat.toDigits 10 i ++ ('_' :: name.toList) :=
      (List.suffix_cons _ _).trans (List.suffix_append _ _)
    simpa using hsuffix.trans hlong
  · rw [hchars]
    cases hd : Nat.toDigits 10 i with
    | nil => simp
    | cons d ds =>
      have hdigit : d.isDigit = true := Nat.isDigit_of_mem_toDigits (by decide) (by decide) (hd ▸ List.mem_cons_self)
      have hne : d ≠ '.' := by
        intro he
        rw [he] at hdigit
        exact absurd hdigit (by decide)
      simpa using hne

theorem isFlashName_unique {name : String} (h : isFlashName name = true) (used : List String) (i : ℕ) :
    isFlashName (uniqueDestName name used i) = true := by
  obtain ⟨calls, -, hreturns⟩ := uniqueDestName_returns name used i
  generalize uniqueDestName name used i = out at hreturns ⊢
  induction hreturns with
  | unused _ => exact h
  | again _ _ ih => exact ih (isFlashName_renamed h i)

/-- all staged names are flashed exactly when all basenames are: a name is changed only if it is used already -/
theorem stagedNames_flashed (ms : List Module) (i : ℕ) (used : List String) (hused : ∀ x ∈ used, isFlashName x = true) :
    (∀ x ∈ stagedNames net root i used ms, isFlashName x = true) ↔
      ∀ m ∈ ms, isFlashName (sourceName net root m) = true := by
  induction ms generalizing i used with
  | nil => simp [stagedNames]
  | cons m ms ih =>
    rw [stagedNames, List.forall_mem_cons, List.forall_mem_cons]
    have hhead : isFlashName (uniqueDestName (sourceName net root m) used i) = true ↔
        isFlashName (sourceName net root m) = true := by
      constructor
      · intro h
        by_cases hmem : sourceName net root m ∈ used
        · exact hused _ hmem
        · rwa [uniqueDestName_self hmem] at h
      · intro h
        exact isFlashName_unique h used i
    constructor
    · intro hall
      obtain ⟨h, hrest⟩ := hall
      refine ⟨hhead.1 h, (ih _ _ ?_).1 hrest⟩
      exact List.forall_mem_cons.2 ⟨h, hused⟩
    · intro hall
      obtain ⟨h, hrest⟩ := hall
      refine ⟨hhead.2 h, (ih _ _ ?_).2 hrest⟩
      exact List.forall_mem_cons.2 ⟨hhead.2 h, hused⟩

/-- the staged names differ from each other and from the used ones -/
theorem stagedNames_nodup (ms : List Module) (i : ℕ) (used : List String) :
    (stagedNames net root i used ms).Nodup ∧ ∀ x ∈ stagedNames net root i used ms, x ∉ used := by
  rw [stagedNames_eq]
  exact destNames_nodup _ i used

theorem length_stagedNames (ms : List Module) (i : ℕ) (used : List String) :
    (stagedNames net root i used ms).length = ms.length := by
  rw [stagedNames_eq, length_destNames, List.length_map]

end Names

/-! ## A stage that returns -/

section Staged

variable {net : Net B} {f : Faults B} {root : Path} {s t : Site T B}

/-- a resolved `path:` entry is the file that its path names -/
theorem resolveModule_path {fs : FileTree B} {i : ℕ} {m : Module} {path : String} {src : Source B} (hm : m.source = .path path)
    (h : resolveModule net root fs i m = .ok src) : src.path = some (net.within root path) := by
  unfold resolveModule at h
  rw [hm] at h
  simp only at h
  split_ifs at h
  split at h
  · cases h
  · rw [verifySha256_ok h]

/-- only the file of a `path:` entry is read -/
theorem resolveModule_congr {fs fs' : FileTree B} {m : Module} (i : ℕ)
    (h : ∀ path, m.source = .path path → readFile fs' (net.within root path) = readFile fs (net.within root path)) :
    resolveModule net root fs' i m = resolveModule net root fs i m := by
  unfold resolveModule
  cases hm : m.source with
  | url url => rfl
  | path path => simp only [h path hm]

/-- the source of a module is not written by its own round or a later one -/
theorem source_kept {ms : List Module} {m : Module} {i : ℕ} {used : List String} {src : Source B} {u : List Path}
    (hres : resolveModule net root s.fs i m = .ok src)
    (hne : src.path ≠ some (instanceModules root ++ [uniqueDestName src.name used i]))
    (h : stageLoop net f root i used (m :: ms) s = .ok u t) :
    resolveModule net root t.fs i m = .ok src := by
  rw [← hres]
  refine resolveModule_congr i ?_
  intro path hm
  refine ((stageLoop_only net f root (m :: ms) i used).of_ok h).2 _ ?_
  rintro ⟨x, hx, hq⟩
  -- an unused basename is kept, and then the copy is refused
  have hname : src.name = x := by
    rw [resolveModule_name hres, sourceName, hm]
    change (net.within root path).getLastD "" = x
    rw [hq]
    simp
  rw [hname, uniqueDestName_self hx, resolveModule_path hm hres, hq] at hne
  exact hne rfl

/-- a loop that returns: every module is copied under its staged name, and no other name is written -/
theorem stageLoop_staged (ms : List Module) (i : ℕ) (used : List String) {s t : Site T B} {paths : List Path}
    (h : stageLoop net f root i used ms s = .ok paths t) :
    List.Forall₂ (FromSource net root t.fs) (ms.zipIdx i) (stagedNames net root i used ms) ∧
      ∀ x, x ∉ stagedNames net root i used ms →
        readFile t.fs (instanceModules root ++ [x]) = readFile s.fs (instanceModules root ++ [x]) := by
  induction ms generalizing i used s t paths with
  | nil =>
    cases h
    exact ⟨.nil, fun _ _ => rfl⟩
  | cons m ms ih =>
    cases hres : resolveModule net root s.fs i m with
    | error e =>
      rw [stageLoop_error net f root hres] at h
      cases h
    | ok src =>
      have hrun := h
      rw [stageLoop_ok net f root hres] at hrun
      obtain ⟨⟨⟩, s₁, hcopy, hrun⟩ := bind_ok_iff.1 hrun
      obtain ⟨staged, s₂, hstaged, hrun⟩ := bind_ok_iff.1 hrun
      obtain ⟨-, rfl⟩ := pure_ok_iff.1 hrun
      obtain ⟨hne, -, -, rfl⟩ := copyfile_ok hcopy
      obtain ⟨hrest, hkeep⟩ := ih _ _ hstaged
      have hsrc := source_kept hres hne h
      rw [resolveModule_name hres] at hrest hkeep
      have hfresh : ∀ x ∈ stagedNames net root (i + 1) (uniqueDestName (sourceName net root m) used i :: used) ms,
          x ∉ uniqueDestName (sourceName net root m) used i :: used := (stagedNames_nodup ms _ _).2
      rw [stagedNames, List.zipIdx_cons]
      constructor
      · refine .cons ⟨src, hsrc, ?_⟩ hrest
        rw [hkeep _ fun hmem => hfresh _ hmem List.mem_cons_self, readFile_wrote, if_pos rfl]
      · intro x hx
        obtain ⟨hx₁, hx₂⟩ := not_or.1 (mt List.mem_cons.2 hx)
        rw [hkeep x hx₂, readFile_wrote, if_neg ?_]
        intro heq
        exact hx₁ (by simpa using heq)

theorem isFile_of_source {fs : FileTree B} {es : List (Module × ℕ)} {names : List String}
    (h : List.Forall₂ (FromSource net root fs) es names) {x : String} (hx : x ∈ names) :
    isFile fs (instanceModules root ++ [x]) = true := by
  induction h with
  | nil => cases hx
  | cons hhead htail ih =>
    rcases List.mem_cons.1 hx with rfl | hx
    · obtain ⟨src, -, hfile⟩ := hhead
      rw [isFile, hfile]
      rfl
    · exact ih hx

/-- the sweep of a stage that returns has removed every zip -/
theorem modulesStage_ran {cfg : InstanceConfig} {paths : List Path} (h : modulesStageForInstance net f root cfg s = .ok paths t) :
    ∃ u : Site T B, stageLoop net f root 0 [] cfg.modules u = .ok paths t ∧
      ∀ x, isZip x = true → readFile u.fs (instanceModules root ++ [x]) = none := by
  obtain ⟨⟨⟩, s₁, -, hrest⟩ := bind_ok_iff.1 h
  obtain ⟨s₁', s₂, hget, hrest'⟩ := bind_ok_iff.1 hrest
  obtain ⟨⟨⟩, u, hsweep, hloop⟩ := bind_ok_iff.1 hrest'
  have hs : s₁' = s₁ ∧ s₂ = s₁ := by
    cases hget
    exact ⟨rfl, rfl⟩
  obtain ⟨rfl, rfl⟩ := hs
  refine ⟨u, hloop, ?_⟩
  intro x hx
  rcases unlinkAll_spec (instanceModules root) _ (globZips_nodup net root s₂.fs) s₂ with ⟨-, v, hrun, hfs⟩ | ⟨-, e, v, hrun, -⟩
  · rw [hrun] at hsweep
    cases hsweep
    rw [hfs, readFile_eraseAll]
    split_ifs with hmem
    · rfl
    · -- a name that is not listed has no file
      cases hb : readFile s₂.fs (instanceModules root ++ [x]) with
      | none => rfl
      | some b => exact absurd (mem_globZips net root hx hb) hmem
  · rw [hrun] at hsweep
    cases hsweep

/-- after a stage that returns, every module is staged, and a flashed file is a staged one, since all zips are gone before the
loop -/
theorem flashed_staged {cfg : InstanceConfig} {paths : List Path} (h : modulesStageForInstance net f root cfg s = .ok paths t) :
    List.Forall₂ (FromSource net root t.fs) cfg.modules.zipIdx (stagedNames net root 0 [] cfg.modules) ∧
      ∀ x, Flashed root t.fs x → x ∈ stagedNames net root 0 [] cfg.modules := by
  obtain ⟨u, hloop, hswept⟩ := modulesStage_ran h
  obtain ⟨hstaged, hkeep⟩ := stageLoop_staged cfg.modules 0 [] hloop
  refine ⟨hstaged, ?_⟩
  intro x hx
  by_contra hnot
  have hnone := hswept x (Bool.and_eq_true_iff.1 hx.1).1
  have hfile := hx.2
  rw [isFile, hkeep x hnot, hnone] at hfile
  cases hfile

end Staged

/-- After a stage that returns, the guest flashes the modules, all of them and nothing else, exactly when the basename of every
source is one that it flashes. -/
theorem stage_flashes_iff (net : Net B) (f : Faults B) (root : Path) (cfg : InstanceConfig) (s t : Site T B)
    (paths : List Path) (h : modulesStageForInstance net f root cfg s = .ok paths t) :
    FlashesAll net root cfg.modules t.fs ↔ ∀ m ∈ cfg.modules, isFlashName (sourceName net root m) = true := by
  obtain ⟨hstaged, hflashed⟩ := flashed_staged h
  have hnodup : (stagedNames net root 0 [] cfg.modules).Nodup := (stagedNames_nodup cfg.modules 0 []).1
  rw [← stagedNames_flashed cfg.modules 0 [] (by simp)]
  constructor
  · rintro ⟨names, hnames, hfrom, hiff⟩
    have hsub : names ⊆ stagedNames net root 0 [] cfg.modules := fun x hx => hflashed x ((hiff x).2 hx)
    have hlen : (stagedNames net root 0 [] cfg.modules).length ≤ names.length := by
      have := hfrom.length_eq
      rw [List.length_zipIdx] at this
      rw [length_stagedNames, this]
    have hperm := (hnames.subperm hsub).perm_of_length_le hlen
    intro x hx
    exact ((hiff x).2 (hperm.mem_iff.2 hx)).1
  · intro hall
    refine ⟨_, hnodup, hstaged, ?_⟩
    intro x
    constructor
    · exact hflashed x
    · intro hx
      refine ⟨hall x hx, ?_⟩
      exact isFile_of_source hstaged hx

/-- a network on which one zip is missing -/
def Net.sample : Net String where
  frida := none
  fetch _ url := if url = "https://example.com/missing.zip" then none else some "zip"
  urlPrefix _ := "0123456789ab"
  sha256Of _ := ""
  within root path := root ++ [path]
  scan l := l
  scan_perm l := List.Perm.refl l

/-- the default configuration with modules from these urls -/
def InstanceConfig.listing (urls : List String) : InstanceConfig :=
  { InstanceConfig.plain with modules := urls.map fun url => ⟨.url url, none⟩ }

/-- an instance at `/srv/x`, with these files in `modules/` -/
def Site.holding (names : List String) : Site String String where
  reg := ⟨∅⟩
  fs := names.foldl (fun fs x => writeFile fs ["srv", "x", "modules", x] "zip") (writeFile ∅ ["srv", "x", "beetroot.yaml"] "minimal")

/-- two modules with one basename, and a zip of a module that is not listed any more -/
theorem stage_flashes_renamed :
    FlashesAll Net.sample ["srv", "x"] (InstanceConfig.listing ["https://example.com/mod.zip", "https://example.com/mod.zip"]).modules
      (final (modulesStageForInstance Net.sample .none ["srv", "x"]
        (InstanceConfig.listing ["https://example.com/mod.zip", "https://example.com/mod.zip"]) (Site.holding ["x.zip"]))).fs := by
  refine (stage_flashes_iff Net.sample .none ["srv", "x"] _ (Site.holding ["x.zip"]) _
    [["srv", "x", "modules", "mod.zip"], ["srv", "x", "modules", "1_mod.zip"]] rfl).2 ?_
  decide

/-- a module whose url does not end in a file name: it is staged, and no file is flashed -/
theorem stage_unflashed :
    ∃ t, modulesStageForInstance Net.sample .none ["srv", "x"] (InstanceConfig.listing ["https://cloud.example/api"])
        (Site.holding []) = .ok [["srv", "x", "modules", "api"]] t ∧
      ¬ FlashesAll Net.sample ["srv", "x"] (InstanceConfig.listing ["https://cloud.example/api"]).modules t.fs := by
  refine ⟨((Site.holding []).made ["srv", "x", "modules"]).wrote ["srv", "x", "modules", "api"] "zip", rfl, ?_⟩
  rintro ⟨names, -, hfrom, hiff⟩
  have hlen : 1 = names.length := hfrom.length_eq
  obtain ⟨x, rfl⟩ := List.length_eq_one_iff.1 hlen.symm
  obtain ⟨hname, hfile⟩ := (hiff x).2 List.mem_cons_self
  -- the only file of the directory is not a zip
  by_cases hx : x = "api"
  · rw [hx] at hname
    exact absurd hname (by decide)
  · have hread : readFile (((Site.holding []).made ["srv", "x", "modules"]).wrote ["srv", "x", "modules", "api"] "zip").fs
        (instanceModules ["srv", "x"] ++ [x]) = none := by
      rw [readFile_wrote, if_neg (by simpa [instanceModules] using hx), Site.made, readFile_mkdirs]
      exact (readFile_write ∅ _ _ _).trans (if_neg (by simp [instanceModules]))
    rw [isFile, hread] at hfile
    cases hfile

/-! ## Adding a module -/

/-- an `Instance` with its host: the config in memory, and the site -/
structure Handle (T B : Type) where
  cfg : InstanceConfig
  site : Site T B

/-- the statement of `add_module` that raises -/
inductive AddFail where
  /-- a `ValidationError` of `config.Module` -/
  | invalid
  | stage (e : Fail)
  | write (e : Fail)

/-- `config.Module(url=source, sha256=sha256)`, or with `path=source` -/
def newModule (source : String) (sha256 : Option String) : Except AddFail Module :=
  if (sha256.all Config.checkSha256Shape) = false then .error .invalid
  else if Config.hasHttpScheme source then .ok ⟨.url source, sha256⟩
  else if source = "" then .error .invalid
  else .ok ⟨.path source, sha256⟩

/-- `cfg.model_copy(update={"modules": [*cfg.modules, new_module]})` -/
def withModule (cfg : InstanceConfig) (m : Module) : InstanceConfig := { cfg with modules := cfg.modules ++ [m] }

/-- `config.write_yaml` -/
def writeYaml (k : Codec B) (f : Faults B) (root : Path) (cfg : InstanceConfig) : M T B Unit := do
  mkdirs f .mkdir root
  writeText f .yaml (instanceYaml root) (k.dumpYaml cfg)

/-- a program on the site, with its errors under a tag -/
def onSite {α : Type} (tag : Fail → AddFail) (x : M T B α) : EStateM AddFail (Handle T B) α := fun h =>
  match x h.site with
  | .ok a t => .ok a { h with site := t }
  | .error e t => .error (tag e) { h with site := t }

/-- `Instance.add_module` -/
def addModule (k : Codec B) (net : Net B) (f : Faults B) (root : Path) (source : String) (sha256 : Option String) :
    EStateM AddFail (Handle T B) Unit := do
  let m ← raising (newModule source sha256)
  let h ← get
  let transient := withModule h.cfg m
  let _ ← onSite .stage (modulesStageForInstance net f root transient)
  modify fun h => { h with cfg := transient }
  onSite .write (writeYaml k f root transient)

/-! ## A stage that raises -/

/-- `modules/` has the same files with the same bytes -/
def SameModules (root : Path) (fs fs' : FileTree B) : Prop :=
  ∀ q, instanceModules root <+: q → readFile fs' q = readFile fs q

section Intact

variable [DecidableEq B] (net : Net B) (f : Faults B) (root : Path)

/-- of the modules up to the one that fails, each has stood in `modules/` already under its staged name with its bytes, and no
other zip has; `zips` are the removed names, `used` the names that are staged again -/
def standing (before : FileTree B) (zips : List String) : ℕ → FileTree B → List String → List Module → Bool
  | _, _, used, [] => zips.all (· ∈ used)
  | i, now, used, m :: ms =>
    match resolveModule net root now i m with
    | .error _ => zips.all (· ∈ used)
    | .ok src =>
      let dst := uniqueDestName src.name used i
      if src.path = some (instanceModules root ++ [dst]) || isDir now (instanceModules root ++ [dst]) then zips.all (· ∈ used)
      else if f.raises (.staged i) then
        -- a copy that breaks off
        match f.torn (.staged i) with
        | none => zips.all (· ∈ used)
        | some left => readFile before (instanceModules root ++ [dst]) = some left && zips.all (· ∈ dst :: used)
      else readFile before (instanceModules root ++ [dst]) = some src.body &&
        standing before zips (i + 1) (writeFile now (instanceModules root ++ [dst]) src.body) (dst :: used) ms

/-- a stage that raises leaves `modules/` as it was: it cannot make the directory, or its sweep stops before the first file is
gone, or all zips were copies of the modules up to the one that fails -/
def intact (cfg : InstanceConfig) (fs : FileTree B) : Bool :=
  let start := Fs.mkdirs fs (instanceModules root)
  let zips := globZips net root start
  f.raises .zips || fileInWay fs (instanceModules root) ||
    if zips.all fun x => isFile start (instanceModules root ++ [x]) then
      standing net f root fs zips 0 (eraseAll (instanceModules root) zips start) [] cfg.modules
    else (zips.takeWhile fun x => isFile start (instanceModules root ++ [x])).isEmpty

end Intact

section Raised

variable {net : Net B} {f : Faults B} {root : Path} {s t : Site T B} {e : Fail}

/-- the names of `modules/` decide -/
theorem sameModules_iff {cfg : InstanceConfig} (h : modulesStageForInstance net f root cfg s = .error e t) :
    SameModules root s.fs t.fs ↔
      ∀ x, readFile t.fs (instanceModules root ++ [x]) = readFile s.fs (instanceModules root ++ [x]) := by
  constructor
  · intro hsame x
    exact hsame _ (List.prefix_append _ _)
  · intro hsame q _
    by_cases hq : ∃ x, q = instanceModules root ++ [x]
    · obtain ⟨x, rfl⟩ := hq
      exact hsame x
    · exact ((modulesStage_only net f root cfg).of_error h).2 q hq

/-- the loop is under way: the names it has used are as they were before, and the other zips are gone -/
structure Restoring (root : Path) (before : FileTree B) (zips used : List String) (now : FileTree B) : Prop where
  gone : ∀ x ∈ zips, (readFile before (instanceModules root ++ [x])).isSome = true
  back : ∀ x ∈ used, readFile now (instanceModules root ++ [x]) = readFile before (instanceModules root ++ [x])
  rest : ∀ x ∉ used, readFile now (instanceModules root ++ [x]) =
    if x ∈ zips then none else readFile before (instanceModules root ++ [x])

variable {before : FileTree B} {zips used : List String} {now : FileTree B}

/-- a loop that stops here has restored everything exactly when no zip is missing -/
theorem Restoring.stop_iff (h : Restoring root before zips used now) :
    (∀ x, readFile now (instanceModules root ++ [x]) = readFile before (instanceModules root ++ [x])) ↔
      zips.all (· ∈ used) = true := by
  rw [List.all_eq_true]
  constructor
  · intro hsame x hx
    by_contra hnot
    have hused : x ∉ used := by simpa using hnot
    have hsome := h.gone x hx
    rw [← hsame x, h.rest x hused, if_pos hx] at hsome
    cases hsome
  · intro hall x
    by_cases hused : x ∈ used
    · exact h.back x hused
    · rw [h.rest x hused, if_neg]
      intro hx
      exact hused (by simpa using hall x hx)

/-- a copy with the bytes from before -/
theorem Restoring.copy (h : Restoring root before zips used now) {dst : String} {b : B}
    (hb : readFile before (instanceModules root ++ [dst]) = some b) :
    Restoring root before zips (dst :: used) (writeFile now (instanceModules root ++ [dst]) b) := by
  have hread : ∀ x, readFile (writeFile now (instanceModules root ++ [dst]) b) (instanceModules root ++ [x]) =
      if x = dst then some b else readFile now (instanceModules root ++ [x]) := by
    intro x
    rw [readFile_write]
    by_cases hx : x = dst <;> simp [hx]
  refine ⟨h.gone, ?_, ?_⟩
  · intro x hx
    rw [hread]
    split_ifs with hd
    · rw [hd, hb]
    · rcases List.mem_cons.1 hx with hx | hx
      · exact absurd hx hd
      · exact h.back x hx
  · intro x hx
    obtain ⟨hd, hused⟩ := not_or.1 (mt List.mem_cons.2 hx)
    rw [hread, if_neg hd, h.rest x hused]

/-- a loop that raises: everything is as it was before the sweep exactly when the copies it has made stood there -/
theorem stageLoop_restores [DecidableEq B] (ms : List Module) (i : ℕ) (used : List String) {s t : Site T B} {e : Fail}
    (hinv : Restoring root before zips used s.fs) (h : stageLoop net f root i used ms s = .error e t) :
    (∀ x, readFile t.fs (instanceModules root ++ [x]) = readFile before (instanceModules root ++ [x])) ↔
      standing net f root before zips i s.fs used ms = true := by
  induction ms generalizing i used s with
  | nil => cases h
  | cons m ms ih =>
    cases hres : resolveModule net root s.fs i m with
    | error e' =>
      rw [stageLoop_error net f root hres] at h
      cases h
      simp only [standing, hres]
      exact hinv.stop_iff
    | ok src =>
      rw [stageLoop_ok net f root hres] at h
      simp only [standing, hres]
      unfold stageOne at h
      generalize hdst : uniqueDestName src.name used i = dst at h ⊢
      rcases bind_error_iff.1 h with h | ⟨⟨⟩, s₁, hcopy, h⟩
      · rcases copyfile_error h with ⟨hsame, rfl⟩ | ⟨hne, ⟨hd, rfl⟩ | ⟨hd, hr, ⟨htorn, rfl⟩ | ⟨left, htorn, rfl⟩⟩⟩
        · rw [if_pos (by simp [hsame])]
          exact hinv.stop_iff
        · rw [if_pos (by simp [hd])]
          exact hinv.stop_iff
        · rw [if_neg (by simp [hne, hd]), if_pos hr, htorn]
          exact hinv.stop_iff
        · rw [if_neg (by simp [hne, hd]), if_pos hr, htorn, Bool.and_eq_true, decide_eq_true_iff]
          have hwrote : readFile (s.wrote (instanceModules root ++ [dst]) left).fs (instanceModules root ++ [dst]) = some left := by
            rw [readFile_wrote, if_pos rfl]
          constructor
          · intro hsame
            have hb := (hsame dst).symm.trans hwrote
            exact ⟨hb, (hinv.copy hb).stop_iff.1 hsame⟩
          · rintro ⟨hb, hall⟩
            exact (hinv.copy hb).stop_iff.2 hall
      · obtain ⟨hne, hd, hr, rfl⟩ := copyfile_ok hcopy
        have hloop : stageLoop net f root (i + 1) (dst :: used) ms (s.wrote (instanceModules root ++ [dst]) src.body) = .error e t := by
          rcases bind_error_iff.1 h with h | ⟨paths, u, -, h⟩
          · exact h
          · cases h
        -- no later copy is made under this name
        have hkeep : readFile t.fs (instanceModules root ++ [dst]) = some src.body := by
          rw [((stageLoop_only net f root ms (i + 1) (dst :: used)).of_error hloop).2 _ ?_, readFile_wrote, if_pos rfl]
          rintro ⟨y, hy, heq⟩
          have hdy : dst = y := by simpa using heq
          exact hy (hdy ▸ List.mem_cons_self)
        rw [if_neg (by simp [hne, hd]), if_neg (by simp [hr]), Bool.and_eq_true, decide_eq_true_iff]
        constructor
        · intro hsame
          have hb := (hsame dst).symm.trans hkeep
          exact ⟨hb, (ih _ _ (hinv.copy hb) hloop).1 hsame⟩
        · rintro ⟨hb, hstand⟩
          exact (ih _ _ (hinv.copy hb) hloop).2 hstand

/-- what the sweep leaves, for the loop and for the end of the call -/
theorem restoring_swept (hzips : ∀ x ∈ zips, isFile before (instanceModules root ++ [x]) = true)
    (hnow : ∀ x, readFile now (instanceModules root ++ [x]) =
      if x ∈ zips then none else readFile before (instanceModules root ++ [x])) :
    Restoring root before zips [] now := by
  refine ⟨hzips, ?_, ?_⟩
  · intro x hx
    cases hx
  · intro x _
    exact hnow x

/-- every way in which a stage raises: it does not begin, its sweep meets a directory, or its loop raises -/
theorem modulesStage_error {cfg : InstanceConfig} {start : FileTree B} (hstart : Fs.mkdirs s.fs (instanceModules root) = start)
    (h : modulesStageForInstance net f root cfg s = .error e t) :
    ((f.raises .zips = true ∨ fileInWay s.fs (instanceModules root) = true) ∧ t = s) ∨
    (f.raises .zips = false ∧ fileInWay s.fs (instanceModules root) = false ∧
      (((globZips net root start).all (fun x => isFile start (instanceModules root ++ [x])) = false ∧
        t.fs = eraseAll (instanceModules root)
          ((globZips net root start).takeWhile fun x => isFile start (instanceModules root ++ [x])) start) ∨
      ((globZips net root start).all (fun x => isFile start (instanceModules root ++ [x])) = true ∧
        ∃ u : Site T B, u.fs = eraseAll (instanceModules root) (globZips net root start) start ∧
          stageLoop net f root 0 [] cfg.modules u = .error e t))) := by
  rcases bind_error_iff.1 h with h | ⟨⟨⟩, s₁, hmake, h⟩
  · exact Or.inl (mkdirs_error h)
  obtain ⟨hr, hway, rfl⟩ := mkdirs_ok hmake
  have hfs : (s.made (instanceModules root)).fs = start := hstart
  have hrun : (unlinkAll (instanceModules root) (globZips net root (s.made (instanceModules root)).fs) >>= fun _ =>
      stageLoop net f root 0 [] cfg.modules) (s.made (instanceModules root)) = .error e t := h
  rw [hfs] at hrun
  refine Or.inr ⟨hr, hway, ?_⟩
  rcases unlinkAll_spec (instanceModules root) _ (globZips_nodup net root start) (s.made (instanceModules root)) with
    ⟨hall, u, hsweep, hu⟩ | ⟨hall, e', u, hsweep, hu⟩
  · rw [hfs] at hall hu
    rcases bind_error_iff.1 hrun with hrun | ⟨⟨⟩, u', hsweep', hloop⟩
    · rw [hsweep] at hrun
      cases hrun
    · rw [hsweep] at hsweep'
      cases hsweep'
      exact Or.inr ⟨hall, u, hu, hloop⟩
  · rw [hfs] at hall hu
    rcases bind_error_iff.1 hrun with hrun | ⟨⟨⟩, u', hsweep', -⟩
    · rw [hsweep] at hrun
      cases hrun
      exact Or.inl ⟨hall, hu⟩
    · rw [hsweep] at hsweep'
      cases hsweep'

theorem modulesStage_error_iff [DecidableEq B] {cfg : InstanceConfig}
    (h : modulesStageForInstance net f root cfg s = .error e t) :
    SameModules root s.fs t.fs ↔ intact net f root cfg s.fs = true := by
  rw [sameModules_iff h]
  unfold intact
  have hread : ∀ q, readFile (Fs.mkdirs s.fs (instanceModules root)) q = readFile s.fs q := readFile_mkdirs _ _
  generalize hstart : Fs.mkdirs s.fs (instanceModules root) = start at hread ⊢
  rcases modulesStage_error hstart h with ⟨hr, rfl⟩ | ⟨hr, hway, ⟨hall, ht⟩ | ⟨hall, u, hu, hloop⟩⟩
  · rcases hr with hr | hr <;> simp [hr]
  · -- what the sweep has removed is not put back
    have hswept : Restoring root s.fs ((globZips net root start).takeWhile fun x => isFile start (instanceModules root ++ [x]))
        [] t.fs := by
      refine restoring_swept ?_ ?_
      · intro x hx
        have hx' := List.mem_takeWhile_imp hx
        change isFile start (instanceModules root ++ [x]) = true at hx'
        rwa [isFile, hread] at hx'
      · intro x
        rw [ht, readFile_eraseAll, hread]
    rw [hswept.stop_iff]
    simp only [hr, hway, hall, Bool.false_or, Bool.false_eq_true, if_false]
    cases (globZips net root start).takeWhile fun x => isFile start (instanceModules root ++ [x]) <;> rfl
  · simp only [hr, hway, Bool.false_or]
    rw [if_pos hall, ← hu]
    refine stageLoop_restores cfg.modules 0 [] (restoring_swept ?_ ?_) hloop
    · intro x hx
      rw [isFile, ← hread]
      exact List.all_eq_true.1 hall x hx
    · intro x
      rw [hu, readFile_eraseAll, hread]

theorem modulesStage_yaml {cfg : InstanceConfig} (h : modulesStageForInstance net f root cfg s = .error e t) :
    readFile t.fs (instanceYaml root) = readFile s.fs (instanceYaml root) := by
  refine ((modulesStage_only net f root cfg).of_error h).2 _ ?_
  rintro ⟨x, hx⟩
  have hlen := congrArg List.length hx
  simp [instanceYaml, instanceModules] at hlen

theorem onSite_error_iff {α : Type} {tag : Fail → AddFail} {x : M T B α} {h h' : Handle T B} {a : AddFail} :
    onSite tag x h = .error a h' ↔ ∃ e t, x h.site = .error e t ∧ a = tag e ∧ h' = { h with site := t } := by
  unfold onSite
  cases hx : x h.site with
  | ok b t => simp
  | error e t =>
    constructor
    · intro hr
      cases hr
      exact ⟨e, t, rfl, rfl, rfl⟩
    · rintro ⟨e', t', he, rfl, rfl⟩
      cases he
      rfl

/-- `add_module` has raised in its stage: the module is a valid one, and only the site has changed -/
theorem addModule_stage {k : Codec B} {source : String} {sha256 : Option String} {h h' : Handle T B}
    (hadd : addModule k net f root source sha256 h = .error (.stage e) h') :
    ∃ m t, newModule source sha256 = .ok m ∧ modulesStageForInstance net f root (withModule h.cfg m) h.site = .error e t ∧
      h' = { h with site := t } := by
  rcases bind_error_iff.1 hadd with hnew | ⟨m, h₁, hnew, hrest⟩
  · obtain ⟨hnew, -⟩ := raising_error_iff.1 hnew
    unfold newModule at hnew
    split_ifs at hnew <;> cases hnew
  obtain ⟨hm, rfl⟩ := raising_ok_iff.1 hnew
  refine ⟨m, ?_⟩
  have hrun : (onSite .stage (modulesStageForInstance net f root (withModule h₁.cfg m)) >>= fun _ =>
      modify (fun h => { h with cfg := withModule h₁.cfg m }) >>= fun _ =>
        onSite .write (writeYaml k f root (withModule h₁.cfg m))) h₁ = .error (.stage e) h' := hrest
  rcases bind_error_iff.1 hrun with hstage | ⟨paths, h₂, -, hrest⟩
  · obtain ⟨e', t, hstage, he, rfl⟩ := onSite_error_iff.1 hstage
    cases he
    exact ⟨t, hm, hstage, rfl⟩
  · rcases bind_error_iff.1 hrest with hmod | ⟨⟨⟩, h₃, -, hwrite⟩
    · cases hmod
    · obtain ⟨e', t, -, he, -⟩ := onSite_error_iff.1 hwrite
      cases he

end Raised

/-- A stage that raises, on its own or in `add_module`, has left `modules/`, `beetroot.yaml` and the config in memory as they were
exactly when it is intact. -/
theorem failed_stage_iff [DecidableEq B] (k : Codec B) (net : Net B) (f : Faults B) (root : Path) (e : Fail) :
    (∀ (cfg : InstanceConfig) (s t : Site T B), modulesStageForInstance net f root cfg s = .error e t →
      (SameModules root s.fs t.fs ∧ readFile t.fs (instanceYaml root) = readFile s.fs (instanceYaml root) ↔
        intact net f root cfg s.fs = true)) ∧
    ∀ (source : String) (sha256 : Option String) (h h' : Handle T B),
      addModule k net f root source sha256 h = .error (.stage e) h' →
      ∃ m, newModule source sha256 = .ok m ∧
        (SameModules root h.site.fs h'.site.fs ∧
            readFile h'.site.fs (instanceYaml root) = readFile h.site.fs (instanceYaml root) ∧ h'.cfg = h.cfg ↔
          intact net f root (withModule h.cfg m) h.site.fs = true) := by
  constructor
  · intro cfg s t hstage
    rw [← modulesStage_error_iff hstage]
    exact and_iff_left (modulesStage_yaml hstage)
  · intro source sha256 h h' hadd
    obtain ⟨m, t, hm, hstage, rfl⟩ := addModule_stage hadd
    refine ⟨m, hm, ?_⟩
    rw [← modulesStage_error_iff hstage]
    exact and_iff_left ⟨modulesStage_yaml hstage, rfl⟩

/-- a module whose zip is missing, after one that is staged: the stage copies that one again, also when the missing one is added -/
theorem failed_stage_restaged :
    (∃ t, modulesStageForInstance Net.sample .none ["srv", "x"]
        (InstanceConfig.listing ["https://example.com/mod.zip", "https://example.com/missing.zip"]) (Site.holding ["mod.zip"]) =
          .error (.fetch "https://example.com/missing.zip") t ∧
      SameModules ["srv", "x"] (Site.holding ["mod.zip"]).fs t.fs) ∧
    ∃ h' : Handle String String, addModule Codec.sample Net.sample .none ["srv", "x"] "https://example.com/missing.zip" none
        ⟨InstanceConfig.listing ["https://example.com/mod.zip"], Site.holding ["mod.zip"]⟩ =
          .error (.stage (.fetch "https://example.com/missing.zip")) h' ∧
      SameModules ["srv", "x"] (Site.holding ["mod.zip"]).fs h'.site.fs ∧
      h'.cfg = InstanceConfig.listing ["https://example.com/mod.zip"] := by
  obtain ⟨hstage, hadd⟩ := failed_stage_iff Codec.sample Net.sample .none ["srv", "x"] (.fetch "https://example.com/missing.zip")
  constructor
  · refine ⟨_, rfl, ?_⟩
    have hiff := hstage (InstanceConfig.listing ["https://example.com/mod.zip", "https://example.com/missing.zip"])
      (Site.holding ["mod.zip"]) _ rfl
    exact (hiff.2 (by decide)).1
  · refine ⟨_, rfl, ?_⟩
    obtain ⟨m, hm, hiff⟩ := hadd "https://example.com/missing.zip" none
      ⟨InstanceConfig.listing ["https://example.com/mod.zip"], Site.holding ["mod.zip"]⟩ _ rfl
    cases hm
    obtain ⟨hsame, -, hcfg⟩ := hiff.2 (by decide)
    exact ⟨hsame, hcfg⟩

/-- the missing one is listed already and was staged earlier: its zip is gone after the call -/
theorem failed_stage_loses :
    ∃ h' : Handle String String, addModule Codec.sample Net.sample .none ["srv", "x"] "https://example.com/mod.zip" none
        ⟨InstanceConfig.listing ["https://example.com/missing.zip"], Site.holding ["missing.zip"]⟩ =
          .error (.stage (.fetch "https://example.com/missing.zip")) h' ∧
      ¬ SameModules ["srv", "x"] (Site.holding ["missing.zip"]).fs h'.site.fs := by
  refine ⟨_, rfl, ?_⟩
  intro hsame
  have hgone := hsame ["srv", "x", "modules", "missing.zip"] (by decide)
  exact absurd hgone (by decide)

end Beetroot.Instance
