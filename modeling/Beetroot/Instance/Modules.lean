/-
The network stage of an instance: the frida server and the module zips (`_stage_network`, `modules_download`).

`modules_download.stage_for_instance` removes every `*.zip` of `modules/` and then resolves and copies the listed modules one
after the other; a module that cannot be resolved ends the loop. After a commit the stage is soft: its error is reported and
swallowed. `Net` is what it meets outside the tree: the outcome of each fetch, what a `path:` entry resolves to, and the order
in which a directory is listed.

Results:
- `uniqueDestName_returns`: the recursion of `_unique_dest_name` returns, after at most as many calls as there are names in use;
- `uniqueDestName_not_mem`: the name that it ends with is unused;
- `destNames_nodup`: the names that the loop chooses differ;
- `stageLoop_names`: the names of a loop that goes through, from the list of modules alone;
- `stageNetwork_frame`: the stage touches `frida-server` and the entries of `modules/`, and no row;
- `stageNetwork_zip`: a zip that was there is there afterwards with the same bytes if and only if the stage did not get to its
  removal, or a listed module was staged under its name with these bytes (`zipKept`).
-/
import Beetroot.Config.Text
import Beetroot.Instance.Site
import Beetroot.Lib.Walk
import Mathlib.Data.List.TakeWhile

namespace Beetroot.Instance

open Lib Lib.Eff Lib.Fs

variable {T B : Type}

/-! ## Names -/

/-- `urlsplit(url).path`, for a url with a scheme and a network location -/
def urlPath (url : String) : List Char :=
  let chars := url.toList.filter fun c => c ∉ ['\t', '\n', '\r']
  let rest := (chars.dropWhile fun c => c ≠ '/').drop 2
  (rest.dropWhile fun c => c ∉ ['/', '?', '#']).takeWhile fun c => c ∉ ['?', '#']

/-- `Path.is_absolute` -/
def isAbsolute (path : String) : Bool := path.toList.head? = some '/'

/-- `_filename_from_url` -/
def filenameFromUrl (url : String) : String :=
  let name := String.ofList ((urlPath url).reverse.takeWhile fun c => c ≠ '/').reverse
  if name = "" then "module.zip" else name

/-- the name of `_cache_path_for_url`; joining a `.` stays at the directory of the url -/
def cacheName (urlPrefix url : String) : String := if filenameFromUrl url = "." then urlPrefix else filenameFromUrl url

/-- the recursion of `_unique_dest_name`, to a depth -/
def uniqueDestNameFrom (index : ℕ) (used : List String) : ℕ → String → String
  | 0, name => name
  | n + 1, name => if name ∈ used then uniqueDestNameFrom index used n (toString index ++ "_" ++ name) else name

/-- `_unique_dest_name` -/
def uniqueDestName (name : String) (used : List String) (index : ℕ) : String :=
  uniqueDestNameFrom index used (used.length + 1) name

theorem length_renamed (index : ℕ) (name : String) : name.length < (toString index ++ "_" ++ name).length := by
  simp only [String.length_append]
  have : "_".length = 1 := rfl
  omega

/-- fewer used names are as long as a longer name -/
theorem count_lt_of_mem {used : List String} {name longer : String} (hmem : name ∈ used) (hlt : name.length < longer.length) :
    (used.filter fun u => longer.length ≤ u.length).length < (used.filter fun u => name.length ≤ u.length).length := by
  have hsplit : (used.filter fun u => longer.length ≤ u.length) =
      (used.filter fun u => name.length ≤ u.length).filter fun u => longer.length ≤ u.length := by
    rw [List.filter_filter]
    refine List.filter_congr fun u _ => ?_
    by_cases hu : longer.length ≤ u.length
    · have : name.length ≤ u.length := by omega
      simp [hu, this]
    · simp [hu]
  rw [hsplit, List.length_filter_lt_length_iff_exists]
  exact ⟨name, List.mem_filter.2 ⟨hmem, by simp⟩, by simpa using hlt⟩

/-- `_unique_dest_name` returns `out` for a name, and calls itself this often -/
inductive Returns (taken : String → Prop) (index : ℕ) : ℕ → String → String → Prop where
  | unused {name : String} (h : ¬ taken name) : Returns taken index 0 name name
  | again {calls : ℕ} {name out : String} (h : taken name)
      (rest : Returns taken index calls (toString index ++ "_" ++ name) out) : Returns taken index (calls + 1) name out

section Recursion

variable {taken : String → Prop} {index calls : ℕ} {name out : String}

theorem Returns.not_taken (h : Returns taken index calls name out) : ¬ taken out := by
  induction h with
  | unused h => exact h
  | again _ _ ih => exact ih

theorem Returns.ends (h : Returns taken index calls name out) : name.toList <:+ out.toList := by
  induction h with
  | unused _ => exact List.suffix_refl _
  | again _ _ ih =>
    refine List.IsSuffix.trans ?_ ih
    rw [String.toList_append]
    exact List.suffix_append _ _

/-- every call makes the name longer -/
theorem Returns.length_le (h : Returns taken index calls name out) : name.length + calls ≤ out.length := by
  induction h with
  | unused _ => exact Nat.le_refl _
  | @again calls name out _ _ ih =>
    have hlonger := length_renamed index name
    omega

theorem Returns.of_not_taken (hname : ¬ taken name) (h : Returns taken index calls name out) : out = name := by
  cases h with
  | unused _ => rfl
  | again htaken _ => exact absurd htaken hname

/-- the fuel lasts: each call uses up a name that is in use -/
theorem uniqueDestNameFrom_returns (index : ℕ) (used : List String) (n : ℕ) (name : String)
    (h : (used.filter fun u => name.length ≤ u.length).length < n) :
    ∃ calls ≤ (used.filter fun u => name.length ≤ u.length).length,
      Returns (· ∈ used) index calls name (uniqueDestNameFrom index used n name) := by
  induction n generalizing name with
  | zero => omega
  | succ n ih =>
    unfold uniqueDestNameFrom
    split_ifs with hmem
    · have hfewer := count_lt_of_mem hmem (length_renamed index name)
      obtain ⟨calls, hcalls, hrest⟩ := ih (toString index ++ "_" ++ name) (by omega)
      exact ⟨calls + 1, by omega, .again hmem hrest⟩
    · exact ⟨0, Nat.zero_le _, .unused hmem⟩

theorem uniqueDestName_returns (name : String) (used : List String) (index : ℕ) :
    ∃ calls ≤ used.length, Returns (· ∈ used) index calls name (uniqueDestName name used index) := by
  have hall := List.length_filter_le (fun u => decide (name.length ≤ u.length)) used
  obtain ⟨calls, hcalls, h⟩ := uniqueDestNameFrom_returns index used (used.length + 1) name (by omega)
  exact ⟨calls, by omega, h⟩

theorem uniqueDestName_not_mem (name : String) (used : List String) (index : ℕ) : uniqueDestName name used index ∉ used := by
  obtain ⟨calls, -, h⟩ := uniqueDestName_returns name used index
  exact h.not_taken

end Recursion

/-! ## The stage -/

/-- what the network stage meets outside the tree -/
structure Net (B : Type) where
  /-- `frida_download.download` of the configured version -/
  frida : Option B
  /-- `_fetch_url`, for the module at a position of the list: the bytes of the cache file -/
  fetch : ℕ → String → Option B
  /-- the name of the directory that `_cache_path_for_url` gives a url -/
  urlPrefix : String → String
  /-- `frida_download.sha256_of` -/
  sha256Of : B → String
  /-- `(instance_root / path).resolve()` -/
  within : Path → String → Path
  /-- the order in which `glob` gives the names of a directory -/
  scan : List String → List String
  scan_perm : ∀ l, (scan l).Perm l

/-- a resolved module; the file of a fetched one lies in the cache -/
structure Source (B : Type) where
  name : String
  body : B
  path : Option Path

section Stage

variable (net : Net B) (f : Faults B) (root : Path)

/-- `verify_sha256`, if a digest is given -/
def verifySha256 (m : Module) (src : Source B) : Except Fail (Source B) :=
  match m.sha256 with
  | none => .ok src
  | some expected =>
    if (net.sha256Of src.body).toLower = expected.toLower then .ok src else .error (.sha256Mismatch src.name)

/-- `_resolve`, for the module at position `i` -/
def resolveModule (fs : FileTree B) (i : ℕ) (m : Module) : Except Fail (Source B) :=
  match m.source with
  | .url url =>
    if !Config.hasHttpScheme url then .error (.fetch url)
    else
      match net.fetch i url with
      | none => .error (.fetch url)
      | some body => verifySha256 net m ⟨cacheName (net.urlPrefix url) url, body, none⟩
  | .path path =>
    if !isAbsolute path && !(root <+: net.within root path) then .error (.escapes path)
    else
      -- a directory is found, and then cannot be read
      match readFile fs (net.within root path) with
      | none => .error (.notFound (net.within root path))
      | some body => verifySha256 net m ⟨(net.within root path).getLastD "", body, some (net.within root path)⟩

/-- `shutil.copyfile` -/
def copyfile (i : ℕ) (src : Source B) (dst : Path) : M T B Unit := do
  refuse (src.path = some dst) (.sameFile dst)
  writeText f (.staged i) dst src.body

/-- the loop of `stage_for_instance` over the modules -/
def stageLoop : ℕ → List String → List Module → M T B (List Path)
  | _, _, [] => pure []
  | i, used, m :: ms => do
    let s ← get
    let src ← raising (resolveModule net root s.fs i m)
    let dst := uniqueDestName src.name used i
    copyfile f i src (instanceModules root ++ [dst])
    let staged ← stageLoop (i + 1) (dst :: used) ms
    return (instanceModules root ++ [dst]) :: staged

/-- `Path.unlink` -/
def unlink (q : Path) : M T B Unit := fun s =>
  if isFile s.fs q then .ok () { s with fs := s.fs.erase q, log := s.log ++ [.path q] } else .error (.isADirectory q) s

def unlinkAll (dir : Path) : List String → M T B Unit
  | [] => pure ()
  | x :: xs => do
    unlink (dir ++ [x])
    unlinkAll dir xs

/-- the pattern `*.zip` -/
def isZip (name : String) : Bool := ".zip".toList <:+ name.toList

/-- `glob("*.zip")` in `modules/` -/
def globZips (fs : FileTree B) : List String := net.scan ((listdir fs (instanceModules root)).filter isZip)

/-- `modules_download.stage_for_instance` -/
def modulesStageForInstance (cfg : InstanceConfig) : M T B (List Path) := do
  mkdirs f .zips (instanceModules root)
  let s ← get
  unlinkAll (instanceModules root) (globZips net root s.fs)
  stageLoop net f root 0 [] cfg.modules

/-- `frida_download.stage_for_instance`; the copy is made beside the target and replaces it at the end -/
def fridaStageForInstance : M T B Unit := fun s =>
  match net.frida with
  | none => .error .fridaFetch s
  | some body =>
    if isDir s.fs (instanceFrida root) then .error (.isADirectory (instanceFrida root)) s
    else if f.raises .server then .error (.fault .server) s
    else .ok () (s.wrote (instanceFrida root) body)

/-- frida is staged if it is configured -/
def stageFrida (cfg : InstanceConfig) : M T B Unit := if cfg.frida then fridaStageForInstance net f root else pure ()

/-- `Instance._stage_network` -/
def stageNetwork (cfg : InstanceConfig) : M T B Unit := do
  stageFrida net f root cfg
  let _ ← modulesStageForInstance net f root cfg
  return ()

/-- `_stage_network_soft` -/
def stageNetworkSoft (cfg : InstanceConfig) : M T B Unit := tryCatch (stageNetwork net f root cfg) fun _ => pure ()

end Stage

section Rounds

variable (net : Net B) (f : Faults B) (root : Path)

/-- one round of the loop -/
def stageOne (used : List String) (i : ℕ) (ms : List Module) (src : Source B) : M T B (List Path) :=
  copyfile f i src (instanceModules root ++ [uniqueDestName src.name used i]) >>= fun _ =>
    stageLoop net f root (i + 1) (uniqueDestName src.name used i :: used) ms >>= fun staged =>
      pure ((instanceModules root ++ [uniqueDestName src.name used i]) :: staged)

theorem stageLoop_error {m : Module} {ms : List Module} {i : ℕ} {used : List String} {s : Site T B} {e : Fail}
    (h : resolveModule net root s.fs i m = .error e) : stageLoop net f root i used (m :: ms) s = .error e s := by
  have hrun : stageLoop net f root i used (m :: ms) s =
      ((raising (resolveModule net root s.fs i m) : M T B (Source B)) >>= stageOne net f root used i ms) s := rfl
  rw [hrun, h]
  rfl

theorem stageLoop_ok {m : Module} {ms : List Module} {i : ℕ} {used : List String} {s : Site T B} {src : Source B}
    (h : resolveModule net root s.fs i m = .ok src) :
    stageLoop net f root i used (m :: ms) s = stageOne net f root used i ms src s := by
  have hrun : stageLoop net f root i used (m :: ms) s =
      ((raising (resolveModule net root s.fs i m) : M T B (Source B)) >>= stageOne net f root used i ms) s := rfl
  rw [hrun, h]
  rfl

end Rounds

/-- the basename of what a module resolves to -/
def sourceName (net : Net B) (root : Path) (m : Module) : String :=
  match m.source with
  | .url url => cacheName (net.urlPrefix url) url
  | .path path => (net.within root path).getLastD ""

/-- the names that the loop chooses for a list of basenames -/
def destNames : ℕ → List String → List String → List String
  | _, _, [] => []
  | i, used, name :: names => uniqueDestName name used i :: destNames (i + 1) (uniqueDestName name used i :: used) names

theorem length_destNames (names : List String) (i : ℕ) (used : List String) : (destNames i used names).length = names.length := by
  induction names generalizing i used with
  | nil => rfl
  | cons name names ih => rw [destNames, List.length_cons, ih, List.length_cons]

/-- the chosen names differ from each other and from those in use -/
theorem destNames_nodup (names : List String) (i : ℕ) (used : List String) :
    (destNames i used names).Nodup ∧ ∀ x ∈ destNames i used names, x ∉ used := by
  induction names generalizing i used with
  | nil => exact ⟨List.nodup_nil, by simp [destNames]⟩
  | cons name names ih =>
    obtain ⟨hnodup, hfresh⟩ := ih (i + 1) (uniqueDestName name used i :: used)
    rw [destNames, List.nodup_cons, List.forall_mem_cons]
    refine ⟨⟨fun hmem => hfresh _ hmem List.mem_cons_self, hnodup⟩, uniqueDestName_not_mem _ _ _, ?_⟩
    intro x hx hmem
    exact hfresh x hx (List.mem_cons_of_mem _ hmem)

/-- the names under which the loop stages a list of modules -/
def stagedNames (net : Net B) (root : Path) : ℕ → List String → List Module → List String
  | _, _, [] => []
  | i, used, m :: ms =>
    uniqueDestName (sourceName net root m) used i ::
      stagedNames net root (i + 1) (uniqueDestName (sourceName net root m) used i :: used) ms

theorem stagedNames_eq (net : Net B) (root : Path) (ms : List Module) (i : ℕ) (used : List String) :
    stagedNames net root i used ms = destNames i used (ms.map (sourceName net root)) := by
  induction ms generalizing i used with
  | nil => rfl
  | cons m ms ih => rw [stagedNames, List.map_cons, destNames, ih]

theorem verifySha256_ok {net : Net B} {m : Module} {src src' : Source B} (h : verifySha256 net m src' = .ok src) : src = src' := by
  unfold verifySha256 at h
  split at h
  · cases h
    rfl
  · split_ifs at h
    cases h
    rfl

theorem resolveModule_name {net : Net B} {root : Path} {fs : FileTree B} {i : ℕ} {m : Module} {src : Source B}
    (h : resolveModule net root fs i m = .ok src) : src.name = sourceName net root m := by
  unfold resolveModule at h
  unfold sourceName
  split at h
  · split_ifs at h
    split at h
    · cases h
    · rw [verifySha256_ok h]
  · split_ifs at h
    split at h
    · cases h
    · rw [verifySha256_ok h]

/-- the paths that a loop returns -/
theorem stageLoop_names {net : Net B} {f : Faults B} {root : Path} (ms : List Module) (i : ℕ) (used : List String)
    {s t : Site T B} {paths : List Path} (h : stageLoop net f root i used ms s = .ok paths t) :
    paths = (stagedNames net root i used ms).map fun x => instanceModules root ++ [x] := by
  induction ms generalizing i used s t paths with
  | nil =>
    cases h
    rfl
  | cons m ms ih =>
    cases hres : resolveModule net root s.fs i m with
    | error e =>
      rw [stageLoop_error net f root hres] at h
      cases h
    | ok src =>
      rw [stageLoop_ok net f root hres] at h
      obtain ⟨⟨⟩, s₁, -, h⟩ := bind_ok_iff.1 h
      obtain ⟨staged, s₂, hstaged, h⟩ := bind_ok_iff.1 h
      obtain ⟨rfl, rfl⟩ := pure_ok_iff.1 h
      rw [ih _ _ hstaged, resolveModule_name hres]
      rfl

/-! ## What is touched -/

/-- an entry of the directory under a name that is not used yet -/
def Unused (dir : Path) (used : List String) (q : Path) : Prop := ∃ x, x ∉ used ∧ q = dir ++ [x]

/-- `frida-server`, and the entries of `modules/` -/
def NetTouched (root q : Path) : Prop := q = instanceFrida root ∨ ∃ x, q = instanceModules root ++ [x]

section Frame

variable (net : Net B) (f : Faults B) (root : Path)

theorem copyfile_only (i : ℕ) (src : Source B) (dst : Path) : Steps (Only (· = dst)) (copyfile f i src dst : M T B Unit) :=
  steps_bind only_trans (steps_refuse only_refl _ _) fun _ => writeText_only f _ dst _

theorem stageLoop_only (ms : List Module) (i : ℕ) (used : List String) :
    Steps (Only (Unused (instanceModules root) used)) (stageLoop net f root i used ms : M T B (List Path)) := by
  induction ms generalizing i used with
  | nil => exact steps_pure only_refl []
  | cons m ms ih =>
    unfold stageLoop
    refine steps_bind only_trans (steps_get only_refl) fun s => ?_
    refine steps_bind only_trans (steps_raising only_refl _) fun src => ?_
    refine steps_bind only_trans ?_ fun _ => steps_bind only_trans ?_ fun staged => steps_pure only_refl _
    · refine (copyfile_only f i src _).mono fun s t h => h.mono fun q hq => ?_
      exact ⟨_, uniqueDestName_not_mem src.name used i, hq⟩
    · refine (ih (i + 1) _).mono fun s t h => h.mono fun q hq => ?_
      obtain ⟨x, hx, rfl⟩ := hq
      exact ⟨x, fun hmem => hx (List.mem_cons_of_mem _ hmem), rfl⟩

theorem unlink_only (q : Path) : Steps (Only (· = q)) (unlink q : M T B Unit) := by
  intro s
  unfold unlink
  split_ifs
  · refine ⟨rfl, fun r hr => ?_⟩
    simp only [final, readFile, Dict.get?_erase, if_neg hr]
  · exact only_refl s

theorem unlinkAll_only (dir : Path) (xs : List String) :
    Steps (Only fun q => ∃ x, q = dir ++ [x]) (unlinkAll dir xs : M T B Unit) := by
  induction xs with
  | nil => exact steps_pure only_refl ()
  | cons x xs ih =>
    exact steps_bind only_trans ((unlink_only (dir ++ [x])).mono fun s t h => h.mono fun q hq => ⟨x, hq⟩) fun _ => ih

theorem modulesStage_only (cfg : InstanceConfig) :
    Steps (Only fun q => ∃ x, q = instanceModules root ++ [x]) (modulesStageForInstance net f root cfg : M T B (List Path)) := by
  refine steps_bind only_trans (mkdirs_only f _ _) fun _ => steps_bind only_trans (steps_get only_refl) fun s => ?_
  refine steps_bind only_trans (unlinkAll_only _ _) fun _ => ?_
  refine (stageLoop_only net f root cfg.modules 0 []).mono fun s t h => h.mono fun q hq => ?_
  obtain ⟨x, -, rfl⟩ := hq
  exact ⟨x, rfl⟩

theorem fridaStage_only : Steps (Only (· = instanceFrida root)) (fridaStageForInstance net f root : M T B Unit) := by
  intro s
  unfold fridaStageForInstance
  split
  · exact only_refl s
  · split_ifs
    · exact only_refl s
    · exact only_refl s
    · exact only_wrote s _ _

/-- network staging touches `frida-server` and `modules/` only -/
theorem stageNetwork_frame (cfg : InstanceConfig) :
    Steps (Only (NetTouched root)) (stageNetwork net f root cfg : M T B Unit) := by
  refine steps_bind only_trans ?_ fun _ => steps_bind only_trans ?_ fun _ => steps_pure only_refl ()
  · unfold stageFrida
    split_ifs
    · exact (fridaStage_only net f root).mono fun s t h => h.mono fun q hq => Or.inl hq
    · exact steps_pure only_refl ()
  · exact (modulesStage_only net f root cfg).mono fun s t h => h.mono fun q hq => Or.inr hq

/-- a soft stage returns, in the state that the stage has left -/
theorem stageNetworkSoft_ok (cfg : InstanceConfig) (s : Site T B) :
    stageNetworkSoft net f root cfg s = .ok () (final (stageNetwork net f root cfg s)) := by
  change EStateM.tryCatch (stageNetwork net f root cfg) _ s = _
  unfold EStateM.tryCatch
  cases stageNetwork net f root cfg s with
  | ok u t => rfl
  | error e t => rfl

end Frame

/-! ## The zips -/

/-- what a write leaves in its file; `none` if the file is not opened -/
def Faults.leaves (f : Faults B) (pt : Point) (b : B) : Option B := if f.raises pt then f.torn pt else some b

section Zips

variable (net : Net B) (f : Faults B) (root : Path)

/-- the loop stages the bytes under the name: every module up to that one is resolved and copied, and that one has the bytes -/
def delivers [DecidableEq B] (x : String) (b : B) : ℕ → FileTree B → List String → List Module → Bool
  | _, _, _, [] => false
  | i, fs, used, m :: ms =>
    match resolveModule net root fs i m with
    | .error _ => false
    | .ok src =>
      let dst := uniqueDestName src.name used i
      src.path ≠ some (instanceModules root ++ [dst]) && !isDir fs (instanceModules root ++ [dst]) &&
        if dst = x then f.leaves (.staged i) src.body = some b
        else !f.raises (.staged i) && delivers x b (i + 1) (writeFile fs (instanceModules root ++ [dst]) src.body) (dst :: used) ms

/-- what the loop has left under the name, if it has got to a module with this name -/
def landed (x : String) : ℕ → FileTree B → List String → List Module → Option B
  | _, _, _, [] => none
  | i, fs, used, m :: ms =>
    match resolveModule net root fs i m with
    | .error _ => none
    | .ok src =>
      let dst := uniqueDestName src.name used i
      if src.path = some (instanceModules root ++ [dst]) || isDir fs (instanceModules root ++ [dst]) then none
      else if dst = x then f.leaves (.staged i) src.body
      else if f.raises (.staged i) then none
      else landed x (i + 1) (writeFile fs (instanceModules root ++ [dst]) src.body) (dst :: used) ms

variable {f : Faults B}

/-- every way in which a copy raises -/
theorem copyfile_error {i : ℕ} {src : Source B} {dst : Path} {s t : Site T B} {e : Fail}
    (h : copyfile f i src dst s = .error e t) :
    (src.path = some dst ∧ t = s) ∨ (src.path ≠ some dst ∧ ((isDir s.fs dst = true ∧ t = s) ∨
      (isDir s.fs dst = false ∧ f.raises (.staged i) = true ∧
        ((f.torn (.staged i) = none ∧ t = s) ∨ ∃ left, f.torn (.staged i) = some left ∧ t = s.wrote dst left)))) := by
  rcases bind_error_iff.1 h with h | ⟨⟨⟩, u, h₁, h₂⟩
  · obtain ⟨hsame, -, rfl⟩ := refuse_error_iff.1 h
    exact Or.inl ⟨by simpa using hsame, rfl⟩
  · obtain ⟨hsame, rfl⟩ := refuse_ok_iff.1 h₁
    exact Or.inr ⟨by simpa using hsame, writeText_error h₂⟩

theorem copyfile_ok {i : ℕ} {src : Source B} {dst : Path} {s t : Site T B} {u : Unit}
    (h : copyfile f i src dst s = .ok u t) :
    src.path ≠ some dst ∧ isDir s.fs dst = false ∧ f.raises (.staged i) = false ∧ t = s.wrote dst src.body := by
  obtain ⟨⟨⟩, v, h₁, h₂⟩ := bind_ok_iff.1 h
  obtain ⟨hsame, rfl⟩ := refuse_ok_iff.1 h₁
  exact ⟨by simpa using hsame, writeText_ok h₂⟩

theorem readFile_wrote (s : Site T B) (p q : Path) (b : B) :
    readFile (s.wrote p b).fs q = if q = p then some b else readFile s.fs q := readFile_write s.fs p q b

theorem delivers_iff [DecidableEq B] {x : String} {b : B} (ms : List Module) (i : ℕ) (fs : FileTree B) (used : List String) :
    delivers net f root x b i fs used ms = true ↔ landed net f root x i fs used ms = some b := by
  induction ms generalizing i fs used with
  | nil => simp [delivers, landed]
  | cons m ms ih =>
    unfold delivers landed
    cases resolveModule net root fs i m with
    | error e => simp
    | ok src =>
      simp only
      generalize uniqueDestName src.name used i = dst
      by_cases hsame : src.path = some (instanceModules root ++ [dst])
      · simp [hsame]
      · cases hd : isDir fs (instanceModules root ++ [dst]) with
        | true => simp
        | false =>
          by_cases hx : dst = x
          · simp [hx]
          · cases hr : f.raises (.staged i) with
            | true => simp [hsame, hx]
            | false => simpa [hsame, hx] using ih (i + 1) _ (dst :: used)

/-- a name that is not used yet has the bytes that the loop has left under it, or the ones from before -/
theorem readFile_stageLoop {x : String} (ms : List Module) (i : ℕ) (used : List String) (s : Site T B) (hx : x ∉ used) :
    readFile (final (stageLoop net f root i used ms s)).fs (instanceModules root ++ [x]) =
      (landed net f root x i s.fs used ms).or (readFile s.fs (instanceModules root ++ [x])) := by
  induction ms generalizing i used s with
  | nil =>
    have hs : final (stageLoop net f root i used [] s) = s := rfl
    rw [hs, landed, Option.none_or]
  | cons m ms ih =>
    cases hres : resolveModule net root s.fs i m with
    | error e =>
      rw [stageLoop_error net f root hres]
      simp [final, landed, hres]
    | ok src =>
      rw [stageLoop_ok net f root hres]
      unfold stageOne
      simp only [landed, hres]
      generalize hdst : uniqueDestName src.name used i = dst
      have hother : dst ≠ x → instanceModules root ++ [x] ≠ instanceModules root ++ [dst] := by
        intro hdx heq
        exact hdx (by simpa using heq.symm)
      cases hcopy : (copyfile f i src (instanceModules root ++ [dst]) : M T B Unit) s with
      | error e t =>
        rw [final_bind_error hcopy]
        rcases copyfile_error hcopy with ⟨hsame, rfl⟩ | ⟨hne, ⟨hd, rfl⟩ | ⟨hd, hr, ⟨htorn, rfl⟩ | ⟨left, htorn, rfl⟩⟩⟩
        · simp [hsame]
        · simp [hd]
        · by_cases hdx : dst = x <;> simp [hne, hd, hdx, hr, htorn, Faults.leaves]
        · rw [readFile_wrote]
          by_cases hdx : dst = x
          · subst hdx
            simp [hne, hd, hr, htorn, Faults.leaves]
          · simp [hother hdx, hne, hd, hdx, hr]
      | ok u t =>
        rw [final_bind_ok hcopy]
        obtain ⟨hne, hd, hr, rfl⟩ := copyfile_ok hcopy
        rw [final_bind_pure]
        by_cases hdx : dst = x
        · -- no later module is staged under its name
          subst hdx
          have hkeep := ((stageLoop_only net f root ms (i + 1) (dst :: used)) (s.wrote (instanceModules root ++ [dst]) src.body)).2
            (instanceModules root ++ [dst]) (by
              intro hun
              obtain ⟨y, hy, heq⟩ := hun
              have : dst = y := by simpa using heq
              exact hy (by rw [this]; exact List.mem_cons_self))
          rw [hkeep, readFile_wrote, if_pos rfl]
          simp [hne, hd, hr, Faults.leaves]
        · have hx' : x ∉ dst :: used := by
            intro hmem
            rcases List.mem_cons.1 hmem with h | h
            · exact hdx h.symm
            · exact hx h
          rw [ih (i + 1) (dst :: used) _ hx', readFile_wrote, if_neg (hother hdx)]
          simp [hne, hd, hr, hdx, Site.wrote]

/-- the names without an entry any more -/
def eraseAll (dir : Path) (xs : List String) (fs : FileTree B) : FileTree B := xs.foldl (fun fs x => fs.erase (dir ++ [x])) fs

theorem readFile_eraseAll (dir : Path) (xs : List String) (fs : FileTree B) (x : String) :
    readFile (eraseAll dir xs fs) (dir ++ [x]) = if x ∈ xs then none else readFile fs (dir ++ [x]) := by
  induction xs generalizing fs with
  | nil => rfl
  | cons y xs ih =>
    have hrun : eraseAll dir (y :: xs) fs = eraseAll dir xs (fs.erase (dir ++ [y])) := rfl
    rw [hrun, ih]
    have herase : readFile (fs.erase (dir ++ [y])) (dir ++ [x]) = if x = y then none else readFile fs (dir ++ [x]) := by
      simp only [readFile, Dict.get?_erase, List.append_cancel_left_eq, List.cons.injEq, and_true]
      split_ifs <;> rfl
    rw [herase]
    by_cases hxy : x = y <;> by_cases hx : x ∈ xs <;> simp [hxy, hx]

theorem takeWhile_congr_mem {p q : String → Bool} {xs : List String} (h : ∀ y ∈ xs, p y = q y) :
    xs.all p = xs.all q ∧ xs.takeWhile p = xs.takeWhile q := by
  induction xs with
  | nil => exact ⟨rfl, rfl⟩
  | cons y xs ih =>
    obtain ⟨hall, htake⟩ := ih fun z hz => h z (List.mem_cons_of_mem _ hz)
    rw [List.all_cons, List.all_cons, List.takeWhile_cons, List.takeWhile_cons, h y List.mem_cons_self, hall, htake]
    exact ⟨rfl, rfl⟩

/-- a removal goes on to the first directory -/
theorem unlinkAll_spec (dir : Path) (xs : List String) (hnodup : xs.Nodup) (s : Site T B) :
    (xs.all (fun x => isFile s.fs (dir ++ [x])) = true ∧
      ∃ t, unlinkAll dir xs s = .ok () t ∧ t.fs = eraseAll dir xs s.fs) ∨
    (xs.all (fun x => isFile s.fs (dir ++ [x])) = false ∧
      ∃ e t, unlinkAll dir xs s = .error e t ∧
        t.fs = eraseAll dir (xs.takeWhile fun x => isFile s.fs (dir ++ [x])) s.fs) := by
  induction xs generalizing s with
  | nil => exact Or.inl ⟨rfl, s, rfl, rfl⟩
  | cons x xs ih =>
    cases hx : isFile s.fs (dir ++ [x]) with
    | false =>
      have hone : (unlink (dir ++ [x]) : M T B Unit) s = .error (.isADirectory (dir ++ [x])) s := by simp [unlink, hx]
      refine Or.inr ⟨by simp [hx], _, s, bind_error_iff.2 (Or.inl hone), ?_⟩
      simp [hx, eraseAll]
    | true =>
      obtain ⟨hnot, hnodup'⟩ := List.nodup_cons.1 hnodup
      have hone : (unlink (dir ++ [x]) : M T B Unit) s =
          .ok () { s with fs := s.fs.erase (dir ++ [x]), log := s.log ++ [.path (dir ++ [x])] } := by simp [unlink, hx]
      -- the other names are files as before
      have hsame : ∀ y ∈ xs, isFile (s.fs.erase (dir ++ [x])) (dir ++ [y]) = isFile s.fs (dir ++ [y]) := by
        intro y hy
        have hne : ¬ dir ++ [y] = dir ++ [x] := by
          intro heq
          have : y = x := by simpa using heq
          exact hnot (this ▸ hy)
        simp only [isFile, readFile, Dict.get?_erase, if_neg hne]
      obtain ⟨hall, htake⟩ := takeWhile_congr_mem hsame
      rcases ih hnodup' { s with fs := s.fs.erase (dir ++ [x]), log := s.log ++ [.path (dir ++ [x])] } with
        ⟨hok, t, hrun, hfs⟩ | ⟨hbad, e, t, hrun, hfs⟩
      · refine Or.inl ⟨?_, t, bind_ok_iff.2 ⟨(), _, hone, hrun⟩, hfs⟩
        rw [List.all_cons, hx, Bool.true_and, ← hall]
        exact hok
      · refine Or.inr ⟨?_, e, t, bind_error_iff.2 (Or.inr ⟨(), _, hone, hrun⟩), ?_⟩
        · rw [List.all_cons, hx, Bool.true_and, ← hall]
          exact hbad
        · rw [hfs, htake, List.takeWhile_cons, if_pos hx]
          rfl

theorem globZips_nodup (fs : FileTree B) : (globZips net root fs).Nodup :=
  (net.scan_perm _).nodup_iff.2 ((nodup_listdir _ _).filter _)

/-- the pattern gives every zip that is there -/
theorem mem_globZips {fs : FileTree B} {x : String} {b : B} (hx : isZip x = true)
    (hb : readFile fs (instanceModules root ++ [x]) = some b) : x ∈ globZips net root fs := by
  refine (net.scan_perm _).mem_iff.2 (List.mem_filter.2 ⟨mem_listdir.2 ?_, hx⟩)
  exact present_of_get? (readFile_eq_some.1 hb)

/-- the tree with the staged frida server -/
def served (cfg : InstanceConfig) (fs : FileTree B) : FileTree B :=
  match net.frida with
  | some body => if cfg.frida then writeFile fs (instanceFrida root) body else fs
  | none => fs

/-- the stage gets to the modules: the frida server is staged or not configured, and `modules/` can be made -/
def reachesModules (f : Faults B) (cfg : InstanceConfig) (fs : FileTree B) : Bool :=
  (!cfg.frida || (net.frida.isSome && !isDir fs (instanceFrida root) && !f.raises .server)) && !f.raises .zips &&
    !fileInWay (served net root cfg fs) (instanceModules root)

/-- a zip of `modules/` outlives the stage: it is not removed, because the stage does not get to the modules or the removal
stops at a directory before it; or all zips are removed, and a module is staged under its name with its bytes -/
def zipKept [DecidableEq B] (f : Faults B) (cfg : InstanceConfig) (fs : FileTree B) (x : String) (b : B) : Bool :=
  let start := Fs.mkdirs (served net root cfg fs) (instanceModules root)
  let zips := globZips net root start
  !reachesModules net root f cfg fs ||
    x ∉ zips.takeWhile (fun y => isFile start (instanceModules root ++ [y])) ||
    (zips.all (fun y => isFile start (instanceModules root ++ [y])) &&
      delivers net f root x b 0 (eraseAll (instanceModules root) zips start) [] cfg.modules)

theorem stageFrida_cases (cfg : InstanceConfig) (s : Site T B) :
    ((!cfg.frida || (net.frida.isSome && !isDir s.fs (instanceFrida root) && !f.raises .server)) = true ∧
      ∃ t, stageFrida net f root cfg s = .ok () t ∧ t.fs = served net root cfg s.fs) ∨
    ((!cfg.frida || (net.frida.isSome && !isDir s.fs (instanceFrida root) && !f.raises .server)) = false ∧
      ∃ e, stageFrida net f root cfg s = .error e s) := by
  unfold stageFrida served
  cases hcfg : cfg.frida with
  | false =>
    refine Or.inl ⟨rfl, s, rfl, ?_⟩
    cases net.frida <;> rfl
  | true =>
    unfold fridaStageForInstance
    cases hnet : net.frida with
    | none => exact Or.inr ⟨rfl, _, rfl⟩
    | some body =>
      cases hd : isDir s.fs (instanceFrida root) with
      | true => exact Or.inr ⟨rfl, .isADirectory (instanceFrida root), by simp [hd]⟩
      | false =>
        cases hr : f.raises .server with
        | true => exact Or.inr ⟨rfl, .fault .server, by simp [hd]⟩
        | false => exact Or.inl ⟨rfl, s.wrote (instanceFrida root) body, by simp [hd], rfl⟩

theorem frida_ne_zip (x : String) : instanceModules root ++ [x] ≠ instanceFrida root := by
  intro h
  have := congrArg List.length h
  simp [instanceModules, instanceFrida] at this

/-- an entry of `modules/` after the stage: as it was if the directory cannot be made; else the zips up to the first directory
are gone, and if that was all of them the loop has run -/
theorem readFile_modulesStage {cfg : InstanceConfig} {start : FileTree B} (s : Site T B)
    (hstart : Fs.mkdirs s.fs (instanceModules root) = start) (x : String) :
    readFile (final (modulesStageForInstance net f root cfg s)).fs (instanceModules root ++ [x]) =
      if f.raises .zips || fileInWay s.fs (instanceModules root) then readFile s.fs (instanceModules root ++ [x])
      else if (globZips net root start).all fun y => isFile start (instanceModules root ++ [y]) then
        (landed net f root x 0 (eraseAll (instanceModules root) (globZips net root start) start) [] cfg.modules).or
          (if x ∈ globZips net root start then none else readFile s.fs (instanceModules root ++ [x]))
      else if x ∈ (globZips net root start).takeWhile fun y => isFile start (instanceModules root ++ [y]) then none
      else readFile s.fs (instanceModules root ++ [x]) := by
  have hrun : modulesStageForInstance net f root cfg s = (mkdirs f .zips (instanceModules root) >>= fun _ =>
      get >>= fun u : Site T B => unlinkAll (instanceModules root) (globZips net root u.fs) >>= fun _ =>
        stageLoop net f root 0 [] cfg.modules) s := rfl
  rw [hrun]
  cases hmake : (mkdirs f .zips (instanceModules root) : M T B Unit) s with
  | error e t =>
    rw [final_bind_error hmake]
    obtain ⟨hr, rfl⟩ := mkdirs_error hmake
    rw [if_pos (by rcases hr with hr | hr <;> simp [hr])]
  | ok u t =>
    rw [final_bind_ok hmake]
    obtain ⟨hr, hway, rfl⟩ := mkdirs_ok hmake
    have hfs : (s.made (instanceModules root)).fs = start := hstart
    have hread : readFile start (instanceModules root ++ [x]) = readFile s.fs (instanceModules root ++ [x]) := by
      rw [← hstart]
      exact readFile_mkdirs _ _ _
    have hget : (get >>= fun u : Site T B => unlinkAll (instanceModules root) (globZips net root u.fs) >>= fun _ =>
        stageLoop net f root 0 [] cfg.modules : M T B (List Path)) (s.made (instanceModules root)) =
        (unlinkAll (instanceModules root) (globZips net root start) >>= fun _ =>
          stageLoop net f root 0 [] cfg.modules) (s.made (instanceModules root)) := by
      rw [← hfs]
      rfl
    rw [hget, if_neg (by simp [hr, hway])]
    rcases unlinkAll_spec (instanceModules root) _ (globZips_nodup net root start) (s.made (instanceModules root)) with
      ⟨hall, v, hsweep, hv⟩ | ⟨hall, e, v, hsweep, hv⟩
    · rw [hfs] at hall hv
      rw [final_bind_ok hsweep, if_pos hall, readFile_stageLoop net root cfg.modules 0 [] v List.not_mem_nil, hv, readFile_eraseAll,
        hread]
    · rw [hfs] at hall hv
      rw [final_bind_error hsweep, if_neg (by simp [hall]), hv, readFile_eraseAll, hread]

/-- a zip of `modules/` after the stage of the modules -/
theorem modulesStage_zip [DecidableEq B] {cfg : InstanceConfig} {s : Site T B} {x : String} {b : B} {start : FileTree B}
    (hstart : Fs.mkdirs s.fs (instanceModules root) = start) (hr : f.raises .zips = false)
    (hway : fileInWay s.fs (instanceModules root) = false) (hx : isZip x = true)
    (hb : readFile s.fs (instanceModules root ++ [x]) = some b) :
    readFile (final (modulesStageForInstance net f root cfg s)).fs (instanceModules root ++ [x]) = some b ↔
      x ∉ (globZips net root start).takeWhile (fun y => isFile start (instanceModules root ++ [y])) ∨
      ((globZips net root start).all (fun y => isFile start (instanceModules root ++ [y])) = true ∧
        delivers net f root x b 0 (eraseAll (instanceModules root) (globZips net root start) start) [] cfg.modules = true) := by
  have hmem : x ∈ globZips net root start := by
    refine mem_globZips net root hx (b := b) ?_
    rw [← hstart, readFile_mkdirs]
    exact hb
  rw [readFile_modulesStage net root s hstart, if_neg (by simp [hr, hway]), delivers_iff]
  cases hall : (globZips net root start).all fun y => isFile start (instanceModules root ++ [y]) with
  | true =>
    have htake : x ∈ (globZips net root start).takeWhile fun y => isFile start (instanceModules root ++ [y]) := by
      rw [List.takeWhile_eq_self_iff.2 (List.all_eq_true.1 hall)]
      exact hmem
    simp [htake, hmem]
  | false =>
    by_cases hin : x ∈ (globZips net root start).takeWhile fun y => isFile start (instanceModules root ++ [y]) <;> simp [hin, hb]

/-- a zip that was there is there afterwards with the same bytes if and only if `zipKept` holds -/
theorem stageNetwork_zip [DecidableEq B] {cfg : InstanceConfig} {s : Site T B} {x : String} {b : B} (hx : isZip x = true)
    (hb : readFile s.fs (instanceModules root ++ [x]) = some b) :
    readFile (final (stageNetwork net f root cfg s)).fs (instanceModules root ++ [x]) = some b ↔
      zipKept net root f cfg s.fs x b = true := by
  have hrun : stageNetwork net f root cfg s = (stageFrida net f root cfg >>= fun _ =>
      modulesStageForInstance net f root cfg >>= fun _ => (pure () : M T B Unit)) s := rfl
  rw [hrun]
  rcases stageFrida_cases (f := f) net root cfg s with ⟨hreach, s₁, h₁, hfs₁⟩ | ⟨hreach, e, h₁⟩
  · rw [final_bind_ok h₁]
    have hb₁ : readFile s₁.fs (instanceModules root ++ [x]) = some b := by
      rw [← hb]
      have honly : Steps (Only (· = instanceFrida root)) (stageFrida net f root cfg : M T B Unit) := by
        unfold stageFrida
        split_ifs
        · exact fridaStage_only net f root
        · exact steps_pure only_refl ()
      exact (honly.of_ok h₁).2 _ (frida_ne_zip root x)
    rw [final_bind_pure]
    by_cases hmake : f.raises .zips = true ∨ fileInWay s₁.fs (instanceModules root) = true
    · have hnot : reachesModules net root f cfg s.fs = false := by
        unfold reachesModules
        rw [← hfs₁]
        rcases hmake with hr | hr <;> simp [hr]
      rw [readFile_modulesStage net root s₁ rfl, if_pos (by rcases hmake with hr | hr <;> simp [hr]), hb₁]
      simp [zipKept, hnot]
    · obtain ⟨hr, hway⟩ := not_or.1 hmake
      have hr' : f.raises .zips = false := by simpa using hr
      have hway' : fileInWay s₁.fs (instanceModules root) = false := by simpa using hway
      have hreaches : reachesModules net root f cfg s.fs = true := by
        unfold reachesModules
        rw [← hfs₁, hreach, hr', hway']
        rfl
      rw [modulesStage_zip net root rfl hr' hway' hx hb₁, hfs₁]
      simp [zipKept, hreaches]
  · rw [final_bind_error h₁, hb]
    have hnot : reachesModules net root f cfg s.fs = false := by
      unfold reachesModules
      rw [hreach]
      rfl
    simp [zipKept, hnot]

end Zips

end Beetroot.Instance
