/-
`beetroot create --from-data`: the command, and what it leaves behind at each step.

The command checks the name, the options, the registry and the `beetroot.yaml` of the target, and then copies the source to
`data/` of the target: whatever is there is removed first. Only then does it call `Instance.create`.

A copy that raises may have left anything below `data/`, a removal that raises anything that was there. `shutil.copytree` lists
a directory before it makes the copy of it, so a source that is the target itself is copied, and one further up is copied into
itself until that raises.

Results:
- `copyFromData_ok`, `copyFromData_error`: what the copy leaves;
- `copyFromData_goes`: a source at the target, or at its `modules/`, is copied;
- `Copied.create_ok`, `Copied.create_error`: until it stages, a `create` after the copy changes its `beetroot.yaml` only;
- `Copied.plan_agree`: staging meets after the copy what it would have met before.
-/
import Beetroot.Instance.Create
import Beetroot.Instance.Rewrite
import Beetroot.Lib.Walk

namespace Beetroot.Instance

open Lib Lib.Eff Lib.Fs Registration Staging

variable {T B : Type}

/-! ## The command -/

structure FromDataArgs where
  name : String
  path : Option String := none
  fromData : String
  lifecycle : Option String := none
  preset : Option String := none

section Calls

variable (p : Paths) (k : Codec B) (f : Faults B)

def FromDataArgs.target (a : FromDataArgs) : Path := p.resolve (a.path.getD a.name)

def FromDataArgs.src (a : FromDataArgs) : Path := p.resolve a.fromData

/-- where the source is copied to -/
def FromDataArgs.dst (a : FromDataArgs) : Path := instanceData (a.target p)

def resolvedLifecycle (lifecycle : Option String) : Option Lifecycle :=
  lifecycle.map fun l => if l = "ephemeral" then .ephemeral else .durable

/-- the checks of the command, in their order -/
def fromDataRefusal (a : FromDataArgs) (s : Site T B) : Option Fail :=
  if !nameOk a.name then some (.invalidName a.name)
  else if a.lifecycle.any fun l => l ≠ "ephemeral" && l ≠ "durable" then
    some (.cli ("--lifecycle must be 'ephemeral' or 'durable', got '" ++ a.lifecycle.getD "" ++ "'."))
  else if a.preset.isSome then
    some (.cli ("--preset was removed in v0.3 — copy examples/" ++ a.preset.getD "" ++
      ".yaml over your fresh beetroot.yaml and run 'beetroot apply " ++ a.name ++ "'."))
  else if Registration.registered (k.view s) a.name then some (.cli ("instance '" ++ a.name ++ "' already exists."))
  else if present s.fs (instanceYaml (a.target p)) then
    some (.cli (p.str (a.target p) ++ "/beetroot.yaml already exists — use `beetroot register " ++ p.str (a.target p) ++
      "` to adopt it."))
  else if !isDir s.fs (a.src p) then some (.cli ("--from-data path " ++ p.str (a.src p) ++ " is not a directory."))
  else none

/-- the entries below the source as they were, below the destination -/
def graft (old : FileTree B) (src dst : Path) (fs : FileTree B) : FileTree B :=
  (old.entries.filter fun e => src <+: e.1).foldl (fun fs e => fs.set (dst ++ e.1.drop src.length) e.2) fs

/-- entries below the destination -/
def leave (dst : Path) (left : List (Path × Node B)) (fs : FileTree B) : FileTree B :=
  left.foldl (fun fs e => fs.set (dst ++ e.1) e.2) fs

/-- the copy comes to its own destination: the entry of the source that leads there was listed before the copy made it -/
def recurses (fs : FileTree B) (src dst : Path) : Bool := src <+: dst && present fs (dst.take (src.length + 1))

/-- `shutil.copytree`; `left` is what a copy that raises has left -/
def copytree (left : List (Path × Node B)) (src dst : Path) : M T B Unit := fun s =>
  if !isDir s.fs src then .error (.notFound src) s
  else if present s.fs dst then .error (.fileExists dst) s
  else if f.raises .copy || recurses s.fs src dst then
    .error (.fault .copy) { s with fs := leave dst left s.fs, log := s.log ++ [.path dst] }
  else .ok () { s with fs := graft s.fs src dst (Fs.mkdirs s.fs dst), log := s.log ++ [.path dst] }

/-- `if dst.exists(): shutil.rmtree(dst)`; the directory that it is in stays, with nothing else in it too -/
def clearData (dst : Path) : M T B Unit := fun s =>
  if isFile s.fs dst then .error (.notADirectory dst) s
  else if present s.fs dst then rmtree f .clear dst { s with fs := Fs.mkdir s.fs dst.dropLast }
  else .ok () s

/-- the lines that copy the source -/
def copyFromData (left : List (Path × Node B)) (a : FromDataArgs) : M T B Unit := do
  mkdirs f .mkdir (a.target p)
  clearData f (a.dst p)
  copytree f left (a.src p) (a.dst p)

/-- the call of `Instance.create` -/
def FromDataArgs.createArgs (a : FromDataArgs) : CreateArgs :=
  ⟨a.name, some (p.str (a.target p)), none, resolvedLifecycle a.lifecycle⟩

def FromDataArgs.cfg (a : FromDataArgs) : InstanceConfig := (a.createArgs p).effectiveCfg

/-- `beetroot create --from-data`; an interrupt in the network stage ends it where a fault would, and is not caught -/
def createFromData [DecidableEq B] (net : Net B) (left : List (Path × Node B)) (a : FromDataArgs) (now : T) : M T B Unit := do
  let s ← get
  match fromDataRefusal p k a s with
  | some e => throw e
  | none =>
    copyFromData p f left a
    create p k f (a.createArgs p) now
    stageNetworkSoft net f (a.target p) (a.cfg p)
    refuse (f.raises .late) (.fault .late)

end Calls

theorem createArgs_target (p : Paths) (a : FromDataArgs) : (a.createArgs p).target p = a.target p :=
  p.resolve_str (a.path.getD a.name)

/-! ## The copy -/

section Entries

variable {dst q : Path}

theorem get?_sets {ι : Type} (l : List ι) (key : ι → Path) (node : ι → Node B) (hkey : ∀ i ∈ l, dst <+: key i)
    (fs : FileTree B) (hq : ¬ dst <+: q) : (l.foldl (fun fs i => fs.set (key i) (node i)) fs).get? q = fs.get? q := by
  induction l generalizing fs with
  | nil => rfl
  | cons i l ih =>
    rw [List.foldl_cons, ih fun j hj => hkey j (List.mem_cons_of_mem _ hj), Dict.get?_set, if_neg]
    rintro rfl
    exact hq (hkey i List.mem_cons_self)

theorem get?_leave (left : List (Path × Node B)) (fs : FileTree B) (hq : ¬ dst <+: q) :
    (leave dst left fs).get? q = fs.get? q :=
  get?_sets left (fun e => dst ++ e.1) (fun e => e.2) (fun _ _ => List.prefix_append _ _) fs hq

theorem get?_graft (old : FileTree B) (src : Path) (fs : FileTree B) (hq : ¬ dst <+: q) :
    (graft old src dst fs).get? q = fs.get? q :=
  get?_sets _ (fun e : Path × Node B => dst ++ e.1.drop src.length) (fun e => e.2) (fun _ _ => List.prefix_append _ _) fs hq

theorem present_sets {ι : Type} (l : List ι) (key : ι → Path) (node : ι → Node B) {fs : FileTree B} {q : Path}
    (h : present fs q = true) : present (l.foldl (fun fs i => fs.set (key i) (node i)) fs) q = true := by
  induction l generalizing fs with
  | nil => exact h
  | cons i l ih =>
    refine ih ?_
    obtain ⟨r, n, hqr, hn⟩ := present_iff.1 h
    by_cases hr : r = key i
    · exact present_iff.2 ⟨r, node i, hqr, by rw [Dict.get?_set, if_pos hr]⟩
    · exact present_iff.2 ⟨r, n, hqr, by rw [Dict.get?_set, if_neg hr]; exact hn⟩

/-- a directory that is copied is a directory -/
theorem isFile_graft {old fs : FileTree B} {src : Path} (hsrc : isFile old src = false) (hfs : isFile fs dst = false) :
    isFile (graft old src dst fs) dst = false := by
  have hfold : ∀ (l : List (Path × Node B)) (u : FileTree B), (∀ e ∈ l, e ∈ old.entries ∧ src <+: e.1) → isFile u dst = false →
      isFile (l.foldl (fun fs e => fs.set (dst ++ e.1.drop src.length) e.2) u) dst = false := by
    intro l
    induction l with
    | nil => exact fun _ _ hu => hu
    | cons e l ih =>
      intro u hl hu
      refine ih _ (fun e' he' => hl e' (List.mem_cons_of_mem _ he')) ?_
      obtain ⟨hmem, r, hr⟩ := hl e List.mem_cons_self
      simp only [isFile, readFile, Dict.get?_set]
      split_ifs with heq
      · -- the entry is that of the source itself
        have hnil : r = [] := by simpa [← hr] using heq.symm
        rw [hnil, List.append_nil] at hr
        have hget : old.get? src = some e.2 := by rw [hr]; exact Dict.get?_of_mem hmem
        simpa [isFile, readFile, hget] using hsrc
      · exact hu
  refine hfold _ fs (fun e he => ?_) hfs
  obtain ⟨hmem, hpre⟩ := List.mem_filter.1 he
  exact ⟨hmem, by simpa using hpre⟩

theorem get?_mkdir (fs : FileTree B) (p q : Path) :
    (Fs.mkdir fs p).get? q = if q = p ∧ fs.get? p = none then some .dir else fs.get? q := by
  unfold Fs.mkdir
  by_cases hp : p ∈ fs.keys
  · rw [if_pos hp, if_neg]
    rintro ⟨-, hnone⟩
    exact Dict.get?_eq_none.1 hnone hp
  · rw [if_neg hp, Dict.get?_set, Dict.get?_eq_none.2 hp]
    simp

end Entries

/-- the files beside `data/` after the copy, for a source that is not further up than the target -/
structure Copied (p : Paths) (a : FromDataArgs) (s t : Site T B) : Prop where
  reg : t.reg = s.reg
  read : ∀ q, ¬ a.dst p <+: q → readFile t.fs q = readFile s.fs q
  get : ∀ q, ¬ a.dst p <+: q → ¬ q <+: a.dst p → t.fs.get? q = s.fs.get? q
  root : present t.fs (a.target p) = true
  data : isFile t.fs (a.dst p) = false
  way : fileInWay s.fs (a.target p) = false
  old : isFile s.fs (a.dst p) = false
  apart : a.src p <+: a.target p → a.src p = a.target p

section Copy

variable {p : Paths} {f : Faults B} {s t : Site T B} {e : Fail} {a : FromDataArgs} {left : List (Path × Node B)}

theorem dst_not_above (a : FromDataArgs) : ¬ a.dst p <+: a.target p := by
  intro h
  have := h.length_le
  simp [FromDataArgs.dst, instanceData] at this

/-- the state when `data/` has gone -/
theorem clearData_ok {u : Unit} (h : clearData f (a.dst p) s = .ok u t) (hroot : present s.fs (a.target p) = true) :
    isFile s.fs (a.dst p) = false ∧ t.reg = s.reg ∧ present t.fs (a.target p) = true ∧ present t.fs (a.dst p) = false ∧
      (∀ q, ¬ a.dst p <+: q → readFile t.fs q = readFile s.fs q) ∧
      ∀ q, ¬ a.dst p <+: q → q ≠ a.target p → t.fs.get? q = s.fs.get? q := by
  have hlast : (a.dst p).dropLast = a.target p := by simp [FromDataArgs.dst, instanceData]
  unfold clearData at h
  split_ifs at h with hfile hpresent
  · have hfile : isFile s.fs (a.dst p) = false := by simpa using hfile
    unfold Instance.rmtree at h
    split_ifs at h with hr
    cases h
    have hget : ∀ q, ¬ a.dst p <+: q → (prune (Fs.mkdir s.fs (a.dst p).dropLast) (a.dst p) fun _ => false).get? q =
        (Fs.mkdir s.fs (a.target p)).get? q := by
      intro q hq
      rw [get?_prune, if_neg (by simp [hq]), hlast]
    refine ⟨hfile, rfl, ?_, ?_, fun q hq => ?_, fun q hq hne => ?_⟩
    · cases hnode : s.fs.get? (a.target p) with
      | none =>
        refine present_of_get? (n := .dir) ?_
        rw [hget _ (dst_not_above a), get?_mkdir, if_pos ⟨rfl, hnode⟩]
      | some n =>
        refine present_of_get? (n := n) ?_
        rw [hget _ (dst_not_above a), get?_mkdir, if_neg (by simp [hnode]), hnode]
    · rw [Bool.eq_false_iff]
      intro hp
      obtain ⟨q, n, hq, hn⟩ := present_iff.1 hp
      rw [get?_prune, if_pos ⟨hq, rfl⟩] at hn
      cases hn
    · rw [readFile, hget q hq]
      exact readFile_mkdir s.fs (a.target p) q
    · rw [hget q hq, get?_mkdir, if_neg fun hc => hne hc.1]
  · have hfile : isFile s.fs (a.dst p) = false := by simpa using hfile
    have hpresent : present s.fs (a.dst p) = false := by simpa using hpresent
    cases h
    exact ⟨hfile, rfl, hroot, hpresent, fun _ _ => rfl, fun _ _ _ => rfl⟩

theorem clearData_only (f : Faults B) (a : FromDataArgs) :
    Steps (Only (a.dst p <+: ·)) (clearData f (a.dst p) : M T B Unit) := by
  intro s
  have hprune : ∀ kept : Path → Bool, ∀ q, ¬ a.dst p <+: q →
      readFile (prune (Fs.mkdir s.fs (a.dst p).dropLast) (a.dst p) kept) q = readFile s.fs q := by
    intro kept q hq
    rw [readFile, get?_prune, if_neg (by simp [hq])]
    exact readFile_mkdir s.fs _ q
  unfold clearData
  split_ifs
  · exact only_refl s
  · unfold Instance.rmtree
    split_ifs
    · exact ⟨rfl, fun q hq => hprune _ q hq⟩
    · exact ⟨rfl, fun q hq => hprune _ q hq⟩
  · exact only_refl s

theorem copytree_only {src dst : Path} (f : Faults B) (left : List (Path × Node B)) :
    Steps (Only (dst <+: ·)) (copytree f left src dst : M T B Unit) := by
  intro s
  unfold copytree
  split_ifs
  · exact only_refl s
  · exact only_refl s
  · exact ⟨rfl, fun q hq => by simp only [final, readFile, get?_leave left s.fs hq]⟩
  · refine ⟨rfl, fun q hq => ?_⟩
    simp only [final, readFile, get?_graft _ _ _ hq]
    exact readFile_mkdirs s.fs _ q

/-- a copy that raises has changed the files below `data/` only, and none if nothing could be made or removed -/
theorem copyFromData_error (h : copyFromData p f left a s = .error e t) :
    ((fileInWay s.fs (a.target p) = true ∨ isFile s.fs (a.dst p) = true) → ∀ q, readFile t.fs q = readFile s.fs q) ∧
      ∀ q, ¬ a.dst p <+: q → readFile t.fs q = readFile s.fs q := by
  rcases bind_error_iff.1 h with h₁ | ⟨⟨⟩, s₁, h₁, r₁⟩
  · obtain ⟨-, rfl⟩ := mkdirs_error h₁
    exact ⟨fun _ _ => rfl, fun _ _ => rfl⟩
  · obtain ⟨-, hway, rfl⟩ := mkdirs_ok h₁
    have hmade : ∀ q, readFile (s.made (a.target p)).fs q = readFile s.fs q := fun q => readFile_mkdirs _ _ q
    have hfile : isFile s.fs (a.dst p) = true → clearData f (a.dst p) (s.made (a.target p)) =
        .error (.notADirectory (a.dst p)) (s.made (a.target p)) := by
      intro hf
      have hf' : isFile (s.made (a.target p)).fs (a.dst p) = true := by rw [isFile, hmade]; exact hf
      simp [clearData, hf']
    rcases bind_error_iff.1 r₁ with h₂ | ⟨⟨⟩, s₂, h₂, r₂⟩
    · refine ⟨fun hearly => ?_, fun q hq => (((clearData_only f a).of_error h₂).2 q hq).trans (hmade q)⟩
      rcases hearly with hw | hf
      · rw [hway] at hw
        cases hw
      · rw [hfile hf] at h₂
        cases h₂
        exact hmade
    · refine ⟨fun hearly => ?_, fun q hq => ?_⟩
      · rcases hearly with hw | hf
        · rw [hway] at hw
          cases hw
        · rw [hfile hf] at h₂
          cases h₂
      · rw [((copytree_only f left).of_error r₂).2 q hq, ((clearData_only f a).of_ok h₂).2 q hq, hmade]

/-- a source above the target is listed with the entry that leads to it -/
theorem recurses_of_above {fs : FileTree B} (hroot : present fs (a.target p) = true) (hpre : a.src p <+: a.target p)
    (hne : a.src p ≠ a.target p) : recurses fs (a.src p) (a.dst p) = true := by
  obtain ⟨r, hr⟩ := hpre
  cases r with
  | nil => exact absurd (by simpa using hr) hne
  | cons x r =>
    have htake : (a.dst p).take ((a.src p).length + 1) = a.src p ++ [x] := by
      simp [FromDataArgs.dst, instanceData, ← hr, List.take_append]
    have hbelow : a.src p ++ [x] <+: a.target p := ⟨r, by rw [← hr]; simp⟩
    rw [recurses, htake, present_of_below hbelow hroot]
    have hdst : a.src p <+: a.dst p := List.IsPrefix.trans ⟨x :: r, hr⟩ (List.prefix_append (a.target p) ["data"])
    simpa using hdst

theorem copyFromData_ok {u : Unit} (h : copyFromData p f left a s = .ok u t) : Copied p a s t := by
  obtain ⟨⟨⟩, s₁, h₁, r₁⟩ := bind_ok_iff.1 h
  obtain ⟨-, hway, rfl⟩ := mkdirs_ok h₁
  obtain ⟨⟨⟩, s₂, h₂, h₃⟩ := bind_ok_iff.1 r₁
  obtain ⟨hold, hreg, hroot, hgone, hread, hget⟩ := clearData_ok h₂ (present_mkdirs s.fs _)
  unfold copytree at h₃
  split_ifs at h₃ with hsrc hpresent hraise
  cases h₃
  have hsrcFile : isFile s₂.fs (a.src p) = false := by
    simp only [isDir, Bool.not_eq_true, Bool.not_eq_false', Bool.and_eq_true] at hsrc
    simpa using hsrc.2
  have hfile : isFile s₂.fs (a.dst p) = false := by
    simp [isFile, readFile, get?_of_not_present hgone (List.prefix_refl _)]
  refine ⟨hreg, fun q hq => ?_, fun q hq hup => ?_, ?_, ?_, hway, ?_, fun hpre => ?_⟩
  · simp only [readFile, get?_graft _ _ _ hq]
    exact (readFile_mkdirs _ _ _).trans ((hread q hq).trans (readFile_mkdirs _ _ _))
  · have htarget : ¬ q <+: a.target p := fun hpre => hup (hpre.trans (List.prefix_append _ _))
    rw [get?_graft _ _ _ hq, get?_mkdirs, if_neg fun hc => hup hc.1, hget q hq fun heq => htarget (heq ▸ List.prefix_refl _)]
    exact (get?_mkdirs s.fs _ _).trans (if_neg fun hc => htarget hc.1)
  · refine present_sets _ _ _ ?_
    exact present_of_below (List.prefix_append _ ["data"]) (present_mkdirs s₂.fs _)
  · exact isFile_graft hsrcFile (by rw [isFile, readFile_mkdirs]; exact hfile)
  · rw [isFile]
    exact (congrArg Option.isSome (readFile_mkdirs s.fs _ _).symm).trans hold
  · by_contra hne
    rw [recurses_of_above hroot hpre hne] at hraise
    simp at hraise

/-- a source at the target, or at its `modules/`, is copied -/
theorem copyFromData_goes (hway : fileInWay s.fs (a.target p) = false) (hold : isFile s.fs (a.dst p) = false)
    (hsrc : isDir s.fs (a.src p) = true) (hat : a.src p = a.target p ∨ a.src p = instanceModules (a.target p))
    (hr : f.raises .mkdir = false ∧ f.raises .clear = false ∧ f.raises .copy = false) :
    ∃ t, copyFromData p f left a s = .ok () t := by
  have h₁ : (mkdirs f .mkdir (a.target p) : M T B Unit) s = .ok () (s.made (a.target p)) := by
    simp [Instance.mkdirs, hr.1, hway]
  have hold' : isFile (s.made (a.target p)).fs (a.dst p) = false := by
    rw [isFile, Site.made, readFile_mkdirs]
    exact hold
  obtain ⟨s₂, h₂⟩ : ∃ s₂, (clearData f (a.dst p) : M T B Unit) (s.made (a.target p)) = .ok () s₂ := by
    unfold clearData
    simp only [hold', Bool.false_eq_true, if_false]
    split_ifs
    · simp [Instance.rmtree, hr.2.1]
    · exact ⟨_, rfl⟩
  obtain ⟨-, -, hroot, hgone, hread, hget⟩ := clearData_ok h₂ (present_mkdirs s.fs _)
  have hbeside : ¬ a.dst p <+: a.src p := by
    rcases hat with hat | hat
    · rw [hat]
      exact dst_not_above a
    · rw [hat]
      intro hpre
      have heq := hpre.eq_of_length (by simp [FromDataArgs.dst, instanceData, instanceModules])
      simp [FromDataArgs.dst, instanceData, instanceModules] at heq
  have hfile : isFile s₂.fs (a.src p) = false := by
    rw [isFile, hread _ hbeside, Site.made, readFile_mkdirs]
    simp only [isDir, Bool.and_eq_true, Bool.not_eq_true'] at hsrc
    exact hsrc.2
  have hpresent : present s₂.fs (a.src p) = true := by
    rcases hat with hat | hat
    · rw [hat]
      exact hroot
    · simp only [isDir, Bool.and_eq_true] at hsrc
      rw [← hsrc.1]
      refine present_congr fun q hq => ?_
      have hlen : (a.target p).length < q.length := by
        have := hq.length_le
        simp [hat, instanceModules] at this
        omega
      have hup : ¬ q <+: a.target p := fun hpre => absurd hpre.length_le (by omega)
      have hdown : ¬ a.dst p <+: q := by
        intro hpre
        have heq := List.prefix_of_prefix_length_le hpre hq (by simp [hat, FromDataArgs.dst, instanceData, instanceModules])
        exact hbeside heq
      rw [hget q hdown fun heq => hup (heq ▸ List.prefix_refl _)]
      exact (get?_mkdirs s.fs _ _).trans (if_neg fun hc => hup hc.1)
  have hrecurses : recurses s₂.fs (a.src p) (a.dst p) = false := by
    rcases hat with hat | hat
    · have htake : (a.dst p).take ((a.target p).length + 1) = a.dst p := by simp [FromDataArgs.dst, instanceData]
      rw [recurses, hat, htake, hgone, Bool.and_false]
    · have hnot : ¬ a.src p <+: a.dst p := by
        intro hpre
        refine hbeside (hpre.eq_of_length ?_ ▸ List.prefix_refl _)
        simp [hat, FromDataArgs.dst, instanceData, instanceModules]
      simp [recurses, hnot]
  have h₃ : ∃ t, (copytree f left (a.src p) (a.dst p) : M T B Unit) s₂ = .ok () t := by
    simp [copytree, isDir, hfile, hpresent, hgone, hr.2.2, hrecurses]
  obtain ⟨t, h₃⟩ := h₃
  exact ⟨t, bind_ok_iff.2 ⟨(), _, h₁, bind_ok_iff.2 ⟨(), _, h₂, h₃⟩⟩⟩

end Copy

/-! ## The call of `create` -/

section Staged

variable (p : Paths) (k : Codec B)

/-- what `create` stages -/
def FromDataArgs.plan (a : FromDataArgs) (ports : List ResolvedPort) : List (FileOp B) :=
  stagePlan k a.name (a.target p) (a.cfg p) (backendFor p (a.target p) (a.cfg p)) ports

/-- its `beetroot.yaml` and its row are written -/
def FromDataArgs.entered (a : FromDataArgs) (reg : RegistryFile T) (s : Site T B) : Site T B :=
  (s.wrote (instanceYaml (a.target p)) ((a.createArgs p).yamlText k)).added a.name reg

/-- the ports with which `create` comes to its staging, if it does -/
def stagedPorts (a : FromDataArgs) (now : T) (s : Site T B) : Option (List ResolvedPort) :=
  if overlapsRow p (k.view s) (a.target p) then none
  else
    match allocate s.reg a.name (backendFor p (a.target p) (a.cfg p)) now with
    | .error _ => none
    | .ok (index, reg) =>
      match resolvePorts index (a.cfg p).ports with
      | .error _ => none
      | .ok ports => if noPortCollision p (k.view (a.entered p k reg s)) a.name ports then some ports else none

end Staged

section Create

variable {p : Paths} {k : Codec B} {f : Faults B} {s t : Site T B} {e : Fail} {name : String} {target : Path}
  {cfg : InstanceConfig} {now : T}

/-- once nothing is left to refuse, the body of the `try` is local staging -/
theorem stageChecked_goes [DecidableEq B] {m : InstanceMeta T} {ports : List ResolvedPort}
    (hm : s.reg.instances.get? name = some m) (hports : resolvePorts m.index cfg.ports = .ok ports)
    (hscan : f.raises .scan = false) (hfree : noPortCollision p (k.view s) name ports = true) :
    stageChecked p k f name target cfg m.index s = runOps f (stagePlan k name target cfg m.backend ports) s := by
  have hresolve : (resolvePortsM m.index cfg : M T B (List ResolvedPort)) s = .ok ports s := by
    simp only [resolvePortsM, hports]
    rfl
  have hcheck : checkPortCollisions p k f name ports s = .ok () s := by simp [checkPortCollisions, hscan, hfree]
  have hmeta : metaOf name s = .ok m s := by simp only [metaOf, hm]
  unfold stageChecked stageLocal
  rw [bind_of_ok hresolve, bind_of_ok hcheck, bind_of_ok hmeta, bind_of_ok hresolve]

/-- local staging that goes through -/
theorem stageChecked_ok [DecidableEq B] {m : InstanceMeta T} {u : Unit} (hm : s.reg.instances.get? name = some m)
    (h : stageChecked p k f name target cfg m.index s = .ok u t) :
    ∃ ports, resolvePorts m.index cfg.ports = .ok ports ∧ noPortCollision p (k.view s) name ports = true ∧
      runOps f (stagePlan k name target cfg m.backend ports) s = .ok () t := by
  obtain ⟨ports, s₁, h₁, r₁⟩ := bind_ok_iff.1 h
  obtain ⟨hports, rfl⟩ := resolvePortsM_ok h₁
  obtain ⟨⟨⟩, s₂, h₂, -⟩ := bind_ok_iff.1 r₁
  obtain ⟨hscan, hfree, -⟩ := checkPortCollisions_ok h₂
  rw [stageChecked_goes hm hports hscan hfree] at h
  exact ⟨ports, hports, hfree, h⟩

theorem noPortCollision_congr {w w' : World T} {ports : List ResolvedPort} (hreg : w'.reg = w.reg)
    (h : ∀ e ∈ w.reg.instances.entries, ∀ r ∈ e.2.backend.absolutePath,
      Beetroot.loadYaml w'.fs (p.resolve r) = Beetroot.loadYaml w.fs (p.resolve r)) :
    noPortCollision p w' name ports = noPortCollision p w name ports := by
  have hscan : ∀ rows : List (String × InstanceMeta T), (∀ e ∈ rows, ∀ r ∈ e.2.backend.absolutePath,
      Beetroot.loadYaml w'.fs (p.resolve r) = Beetroot.loadYaml w.fs (p.resolve r)) →
      resolvedHostPortsFrom w'.fs p rows = resolvedHostPortsFrom w.fs p rows := by
    intro rows hrows
    induction rows with
    | nil => rfl
    | cons e rows ih =>
      have hrow : rowHostPorts w'.fs p e.2 = rowHostPorts w.fs p e.2 := by
        unfold rowHostPorts
        split
        · rw [hrows e List.mem_cons_self _ ‹_›]
        · rfl
      rw [resolvedHostPortsFrom, resolvedHostPortsFrom, hrow, ih fun e' he' => hrows e' (List.mem_cons_of_mem _ he')]
  unfold noPortCollision
  rw [hreg, hscan _ h]

theorem Codec.loadYaml_congr (k : Codec B) {root : Path} (hup : ∀ q, q <+: instanceYaml root → readFile s.fs q = readFile t.fs q)
    (hdown : ∀ q, instanceYaml root <+: q → s.fs.get? q = t.fs.get? q) :
    Beetroot.loadYaml (k.view s).fs root = Beetroot.loadYaml (k.view t).fs root := by
  have hmap : ∀ (u : Site T B) q, (k.view u).fs.get? q = (u.fs.get? q).map k.node := fun u q => Dict.get?_mapVals u.fs k.node q
  have hread : ∀ q, q <+: instanceYaml root → readFile (k.view s).fs q = readFile (k.view t).fs q := by
    have hbody : ∀ (u : Site T B) q, readFile (k.view u).fs q = (readFile u.fs q).map fun b => .yaml (k.loadYaml b) := by
      intro u q
      simp only [readFile, hmap]
      cases u.fs.get? q with
      | none => rfl
      | some n => cases n <;> rfl
    intro q hq
    rw [hbody, hbody, hup q hq]
  unfold Beetroot.loadYaml
  rw [hread _ (List.prefix_refl _), blocked_congr hread fun q hq => by rw [hmap, hmap, hdown q hq]]

end Create

section AfterCopy

variable {p : Paths} {k : Codec B} {f : Faults B} {s t u : Site T B} {e : Fail} {a : FromDataArgs} {now : T}

/-- an entry of the target that is neither `data/` nor below it -/
theorem dst_not_below {x : String} {r : Path} (hx : x ≠ "data") : ¬ a.dst p <+: a.target p ++ x :: r := by
  intro h
  obtain ⟨r', hr'⟩ := h
  simp only [FromDataArgs.dst, instanceData, List.append_assoc, List.singleton_append, List.append_cancel_left_eq,
    List.cons.injEq] at hr'
  exact hx hr'.1.symm

/-- what an operation on an entry of the target looks at, beside `data/` and `beetroot.yaml` -/
theorem Copied.agreeAt (h : Copied p a s t) {x : String} (hdata : x ≠ "data") (hyaml : x ≠ "beetroot.yaml") (b : B) :
    AgreeAt (a.target p ++ [x]) s.fs (writeFile t.fs (instanceYaml (a.target p)) b) := by
  have hne : ∀ q, q <+: a.target p ++ [x] ∨ a.target p ++ [x] <+: q → q ≠ instanceYaml (a.target p) := by
    rintro q hpre rfl
    have heq : a.target p ++ [x] = instanceYaml (a.target p) := by
      rcases hpre with hpre | hpre
      · exact (hpre.eq_of_length (by simp [instanceYaml])).symm
      · exact hpre.eq_of_length (by simp [instanceYaml])
    exact hyaml (by simpa [instanceYaml] using heq)
  have hbeside := dst_not_below (p := p) (a := a) (r := []) hdata
  constructor
  · intro q hq
    rw [readFile_write_ne (hne q (Or.inl hq)), h.read q fun hpre => hbeside (hpre.trans hq)]
  · intro q hq
    obtain ⟨r, rfl⟩ := hq
    rw [get?_write, if_neg (hne _ (Or.inr (List.prefix_append _ _)))]
    refine (h.get _ ?_ fun hpre => ?_).symm
    · rw [List.append_assoc]
      exact dst_not_below hdata
    · refine hbeside (((List.prefix_append _ r).trans hpre).eq_of_length ?_ ▸ List.prefix_refl _)
      simp [FromDataArgs.dst, instanceData]

/-- the operations of local staging meet what they would have met before the copy -/
theorem Copied.plan_agree [DecidableEq B] (h : Copied p a s t) (reg : RegistryFile T) {ports : List ResolvedPort}
    {op : FileOp B} (hop : op ∈ a.plan p k ports) :
    op.raises .none s.fs = op.raises .none (a.entered p k reg t).fs ∧
      op.overwrites s.fs = op.overwrites (a.entered p k reg t).fs := by
  have hin := stagePlan_in k a.name (a.target p) (a.cfg p) (backendFor p (a.target p) (a.cfg p)) ports
  rcases List.mem_cons.1 hop with rfl | hrest
  · -- `data/` itself, which is no file before or after the copy
    have hway : fileInWay s.fs (a.dst p) = fileInWay (a.entered p k reg t).fs (a.dst p) := by
      refine fileInWay_congr fun q hq => ?_
      have hyaml : q ≠ instanceYaml (a.target p) := by
        rintro rfl
        have heq := hq.eq_of_length (by simp [instanceYaml, FromDataArgs.dst, instanceData])
        simp [instanceYaml, FromDataArgs.dst, instanceData] at heq
      simp only [FromDataArgs.entered, Site.added, Site.wrote, readFile_write_ne hyaml]
      rcases List.prefix_concat_iff.1 hq with rfl | hq
      · have hold := h.old
        have hdata := h.data
        simp only [isFile, Option.isSome_eq_false_iff, Option.isNone_iff_eq_none, FromDataArgs.dst, instanceData] at hold hdata
        rw [hold, hdata]
      · exact (h.read q fun hpre => dst_not_above a (hpre.trans hq)).symm
    exact ⟨congrArg (false || ·) hway, rfl⟩
  · obtain ⟨x, hx⟩ := hin.tail.1 op hrest
    have hdata : x ≠ "data" := by
      rintro rfl
      exact (List.nodup_cons.1 hin.2).1 (List.mem_map.2 ⟨op, hrest, hx⟩)
    have hyaml : x ≠ "beetroot.yaml" := by
      rintro rfl
      have hmem : instanceYaml (a.target p) ∈ (a.plan p k ports).map FileOp.path := List.mem_map.2 ⟨op, hop, hx⟩
      exact not_staged_yaml (a.target p) (stagePlan_paths hmem)
    refine FileOp.agree ?_
    rw [hx]
    exact h.agreeAt hdata hyaml _

/-- the checks of `create`, after those of the command have passed -/
theorem Copied.refusal_iff (h : Copied p a s t) (hnone : fromDataRefusal p k a s = none) :
    createRefusal p k f (a.createArgs p) t = none ↔ f.raises .check = false ∧ overlapsRow p (k.view s) (a.target p) = false := by
  unfold fromDataRefusal at hnone
  split_ifs at hnone with h1 h2 h3 h4 h5 h6
  obtain ⟨hname, hover⟩ := k.checks_congr h.reg p a.name (a.target p)
  have hyaml : present t.fs (instanceYaml (a.target p)) = false := by
    rw [← Bool.not_eq_true, ← present_congr (t := s.fs) fun q hq => ?_]
    · exact h5
    · obtain ⟨r, rfl⟩ := hq
      refine (h.get _ ?_ fun hpre => ?_).symm
      · rw [instanceYaml, List.append_assoc]
        exact dst_not_below (by decide)
      · have heq := ((List.prefix_append _ r).trans hpre).eq_of_length (by simp [instanceYaml, FromDataArgs.dst, instanceData])
        simp [instanceYaml, FromDataArgs.dst, instanceData] at heq
  have hargs : (a.createArgs p).name = a.name := rfl
  have hcfg : (a.createArgs p).cfg = none := rfl
  unfold createRefusal
  rw [createArgs_target, hargs, hcfg, hname, hover, hyaml]
  cases f.raises .check <;> cases hrow : overlapsRow p (k.view s) (a.target p) <;> simp_all

theorem Copied.port_check (h : Copied p a s t) (hover : overlapsRow p (k.view s) (a.target p) = false) {index : Int}
    {reg : RegistryFile T} (hreg : allocate s.reg a.name (backendFor p (a.target p) (a.cfg p)) now = .ok (index, reg))
    (ports : List ResolvedPort) :
    noPortCollision p (k.view (a.entered p k reg t)) a.name ports =
      noPortCollision p (k.view (a.entered p k reg s)) a.name ports := by
  refine noPortCollision_congr rfl fun row hrow r hr => ?_
  obtain ⟨-, -, -, rfl⟩ := allocate_ok hreg
  rcases Dict.mem_set.1 hrow with rfl | ⟨hrow, -⟩
  · -- the new row: its `beetroot.yaml` has just been written
    have hback : p.resolve r = a.target p := by
      have habs : (backendFor p (a.target p) (a.cfg p)).absolutePath = some (p.str (a.target p)) := by
        unfold backendFor
        split_ifs <;> rfl
      rw [habs] at hr
      cases hr
      exact p.resolve_str _
    have hyaml : ∀ (v : Site T B) (d : RegistryFile T), readFile (a.entered p k d v).fs (instanceYaml (a.target p)) =
        some ((a.createArgs p).yamlText k) := fun v d => readFile_write_self v.fs _ _
    rw [hback, k.loadYaml_view (hyaml t _), k.loadYaml_view (hyaml s _)]
  · -- a row that does not overlap the target
    have hfree : ¬ Overlaps (p.resolve r) (a.target p) := Overlap.overlapsRow_false hover row hrow r hr
    have hroot : ∀ q, (q <+: instanceYaml (p.resolve r) ∨ instanceYaml (p.resolve r) <+: q) → ¬ a.target p <+: q := by
      rintro q (hq | hq) hpre
      · refine hfree ?_
        rcases List.prefix_concat_iff.1 (hpre.trans hq) with heq | hpre
        · exact Or.inl ⟨["beetroot.yaml"], heq.symm⟩
        · exact Or.inr hpre
      · refine hfree (List.prefix_or_prefix_of_prefix ((List.prefix_append _ ["beetroot.yaml"]).trans hq) hpre)
    have hbeside : ∀ q, ¬ a.target p <+: q → q ≠ instanceYaml (a.target p) ∧ ¬ a.dst p <+: q := by
      intro q hq
      refine ⟨?_, fun hpre => hq ((List.prefix_append _ ["data"]).trans hpre)⟩
      rintro rfl
      exact hq (List.prefix_append _ _)
    refine k.loadYaml_congr (fun q hq => ?_) fun q hq => ?_
    · obtain ⟨hne, hdst⟩ := hbeside q (hroot q (Or.inl hq))
      simp only [FromDataArgs.entered, Site.added, Site.wrote, readFile_write_ne hne]
      exact h.read q hdst
    · obtain ⟨hne, hdst⟩ := hbeside q (hroot q (Or.inr hq))
      simp only [FromDataArgs.entered, Site.added, Site.wrote, get?_write, if_neg hne]
      refine h.get q hdst fun hpre => ?_
      -- a row above the target overlaps it
      rcases List.prefix_concat_iff.1 (((List.prefix_append _ ["beetroot.yaml"]).trans hq).trans hpre) with heq | hpre
      · exact hfree (Or.inr ⟨["data"], heq.symm⟩)
      · exact hfree (Or.inl hpre)

theorem stagedPorts_eq {ports : List ResolvedPort} : stagedPorts p k a now s = some ports ↔
    overlapsRow p (k.view s) (a.target p) = false ∧ ∃ index reg,
      allocate s.reg a.name (backendFor p (a.target p) (a.cfg p)) now = .ok (index, reg) ∧
      resolvePorts index (a.cfg p).ports = .ok ports ∧ noPortCollision p (k.view (a.entered p k reg s)) a.name ports = true := by
  unfold stagedPorts
  cases hover : overlapsRow p (k.view s) (a.target p) with
  | true => simp
  | false =>
    cases hreg : allocate s.reg a.name (backendFor p (a.target p) (a.cfg p)) now with
    | error e => simp
    | ok r =>
      cases hports : resolvePorts r.1 (a.cfg p).ports with
      | error e =>
        simp only [hports, Bool.false_eq_true, if_false, true_and, reduceCtorEq, false_iff]
        rintro ⟨index, reg, hr, hports', -⟩
        cases hr
        rw [hports] at hports'
        cases hports'
      | ok ports' =>
        cases hfree : noPortCollision p (k.view (a.entered p k r.2 s)) a.name ports' with
        | true =>
          simp only [hports, hfree, Bool.false_eq_true, if_false, if_true, Option.some.injEq, true_and]
          constructor
          · rintro rfl
            exact ⟨r.1, r.2, rfl, hports, hfree⟩
          · rintro ⟨index, reg, hr, hports', -⟩
            cases hr
            rw [hports] at hports'
            cases hports'
            rfl
        | false =>
          simp only [hports, hfree, Bool.false_eq_true, if_false, true_and, reduceCtorEq, false_iff]
          rintro ⟨index, reg, hr, hports', hfree'⟩
          cases hr
          rw [hports] at hports'
          cases hports'
          rw [hfree] at hfree'
          cases hfree'

/-- making the target again changes nothing -/
theorem Copied.made (h : Copied p a s t) : Copied p a s (t.made (a.target p)) := by
  have hfs : (t.made (a.target p)).fs = t.fs := mkdirs_of_present h.root
  refine ⟨h.reg, ?_, ?_, ?_, ?_, h.way, h.old, h.apart⟩
  all_goals rw [hfs]
  exacts [h.read, h.get, h.root, h.data]

theorem Copied.way_after (h : Copied p a s t) : fileInWay t.fs (a.target p) = false := by
  rw [← h.way]
  exact fileInWay_congr fun q hq => h.read q fun hpre => dst_not_above a (hpre.trans hq)

theorem entered_root (reg : RegistryFile T) (t : Site T B) : present (a.entered p k reg t).fs (a.target p) = true :=
  present_of_below (List.prefix_append _ ["beetroot.yaml"]) (present_of_get? ((get?_write t.fs _ _ _).trans (if_pos rfl)))

end AfterCopy

section Outcomes

variable [DecidableEq B] {p : Paths} {k : Codec B} {f : Faults B} {s t u : Site T B} {e : Fail} {a : FromDataArgs} {now : T}

/-- past its checks -/
theorem create_checked {c : CreateArgs} (hnone : createRefusal p k f c s = none) :
    create p k f c now s = (mkdirs f .mkdir (c.target p) >>= fun _ => writeText f .yaml (instanceYaml (c.target p)) (c.yamlText k) >>=
      fun _ => commit p k f c.name (c.target p) c.effectiveCfg (!present s.fs (c.target p)) now) s := by
  have hrun : create p k f c now s = (match createRefusal p k f c s with
    | some e => throw e
    | none => do
      mkdirs f .mkdir (c.target p)
      writeText f .yaml (instanceYaml (c.target p)) (c.yamlText k)
      commit p k f c.name (c.target p) c.effectiveCfg (!present s.fs (c.target p)) now : M T B Unit) s := rfl
  rw [hrun, hnone]

/-- a `create` that returns has staged -/
theorem Copied.create_ok {v : Unit} (h : Copied p a s t) (hnone : fromDataRefusal p k a s = none)
    (hrun : create p k f (a.createArgs p) now t = .ok v u) :
    ∃ reg ports, stagedPorts p k a now s = some ports ∧
      runOps f (a.plan p k ports) (a.entered p k reg (t.made (a.target p))) = .ok () u := by
  cases hc : createRefusal p k f (a.createArgs p) t with
  | some e =>
    have hthrow : create p k f (a.createArgs p) now t = .error e t := by
      have heq : create p k f (a.createArgs p) now t = (match createRefusal p k f (a.createArgs p) t with
        | some e => throw e
        | none => do
          mkdirs f .mkdir ((a.createArgs p).target p)
          writeText f .yaml (instanceYaml ((a.createArgs p).target p)) ((a.createArgs p).yamlText k)
          commit p k f (a.createArgs p).name ((a.createArgs p).target p) (a.createArgs p).effectiveCfg
            (!present t.fs ((a.createArgs p).target p)) now : M T B Unit) t := rfl
      rw [heq, hc]
      rfl
    rw [hthrow] at hrun
    cases hrun
  | none =>
    obtain ⟨-, hover⟩ := (h.refusal_iff hnone).1 hc
    rw [create_checked hc, createArgs_target] at hrun
    obtain ⟨⟨⟩, s₁, h₁, r₁⟩ := bind_ok_iff.1 hrun
    obtain ⟨-, -, rfl⟩ := mkdirs_ok h₁
    obtain ⟨⟨⟩, s₂, h₂, hcommit⟩ := bind_ok_iff.1 r₁
    obtain ⟨-, -, rfl⟩ := writeText_ok h₂
    obtain ⟨index, s₃, h₃, htry⟩ := bind_ok_iff.1 hcommit
    obtain ⟨reg, -, hreg, -, rfl⟩ := addAllocating_ok h₃
    have hreg' : allocate s.reg a.name (backendFor p (a.target p) (a.cfg p)) now = .ok (index, reg) := by
      rw [← h.reg]
      exact hreg
    obtain ⟨ports, hports, hfree, hops⟩ := stageChecked_ok (m := ⟨_, index, now⟩) (allocate_row hreg').2.1
      (onRaise_ok_iff.1 htry)
    exact ⟨reg, ports, stagedPorts_eq.2 ⟨hover, index, reg, hreg', hports, (h.made.port_check hover hreg' ports).symm.trans hfree⟩, hops⟩

/-- a `create` that raises after the copy has changed its `beetroot.yaml` only, or its staging has raised -/
theorem Copied.create_error (h : Copied p a s t) (hnone : fromDataRefusal p k a s = none)
    (hrun : create p k f (a.createArgs p) now t = .error e u) :
    (∀ q ≠ instanceYaml (a.target p), readFile u.fs q = readFile t.fs q) ∨
      ∃ reg ports e' v, stagedPorts p k a now s = some ports ∧
        runOps f (a.plan p k ports) (a.entered p k reg (t.made (a.target p))) = .error e' v ∧ u.fs = v.fs := by
  have hmade : ∀ q, readFile (t.made (a.target p)).fs q = readFile t.fs q := fun q => readFile_mkdirs _ _ q
  have hwrote : ∀ b q, q ≠ instanceYaml (a.target p) →
      readFile ((t.made (a.target p)).wrote (instanceYaml (a.target p)) b).fs q = readFile t.fs q := by
    intro b q hq
    rw [Site.wrote, readFile_write_ne hq]
    exact hmade q
  cases hc : createRefusal p k f (a.createArgs p) t with
  | some e' =>
    rw [create_refused hrun hc]
    exact Or.inl fun _ _ => rfl
  | none =>
    obtain ⟨-, hover⟩ := (h.refusal_iff hnone).1 hc
    have hcases := Instance.create_error hrun hc
    rw [createArgs_target, h.root] at hcases
    rcases hcases with ⟨-, rfl⟩ | ⟨-, -, ⟨-, ⟨-, rfl⟩ | ⟨left, -, rfl⟩⟩ | ⟨-, hcommit⟩⟩
    · exact Or.inl fun _ _ => rfl
    · exact Or.inl fun q _ => hmade q
    · exact Or.inl (hwrote left)
    · rcases commit_error hcommit with ⟨-, rfl⟩ | ⟨index, reg, -, hreg, ⟨-, rfl⟩ | ⟨-, e', v, hbody, rfl⟩⟩
      · exact Or.inl (hwrote _)
      · exact Or.inl (hwrote _)
      · have hreg' : allocate s.reg a.name (backendFor p (a.target p) (a.cfg p)) now = .ok (index, reg) := by
          rw [← h.reg]
          exact hreg
        -- a directory that was there is not removed
        have hfs : (final (rollbackPartialCreate f a.name (a.target p) false v)).fs = v.fs := by
          rcases rollback_final f a.name (a.target p) false v with ⟨-, hv⟩ | ⟨-, -, hv⟩
          · rw [hv]
          · exact hv
        rcases stageChecked_error (m := ⟨_, index, now⟩) (allocate_row hreg').2.1 hbody with
          ⟨-, rfl⟩ | ⟨ports, hports, ⟨-, rfl⟩ | ⟨-, hfree, hops⟩⟩
        · exact Or.inl fun q hq => (congrArg (readFile · q) hfs).trans (hwrote _ q hq)
        · exact Or.inl fun q hq => (congrArg (readFile · q) hfs).trans (hwrote _ q hq)
        · exact Or.inr ⟨reg, ports, e', v, stagedPorts_eq.2 ⟨hover, index, reg, hreg', hports,
            (h.made.port_check hover hreg' ports).symm.trans hfree⟩, hops, hfs⟩

/-- a `create` in which nothing raises before its staging comes to it -/
theorem Copied.create_goes (h : Copied p a s t) (hnone : fromDataRefusal p k a s = none) {ports : List ResolvedPort}
    (hports : stagedPorts p k a now s = some ports)
    (hr : ∀ pt ∈ [Point.check, .mkdir, .yaml, .alloc, .committed, .scan], f.raises pt = false) :
    ∃ reg, create p k f (a.createArgs p) now t =
      onRaise (runOps f (a.plan p k ports)) (rollbackPartialCreate f a.name (a.target p) false)
        (a.entered p k reg (t.made (a.target p))) := by
  obtain ⟨hover, index, reg, hreg, hresolve, hfree⟩ := stagedPorts_eq.1 hports
  have hc : createRefusal p k f (a.createArgs p) t = none := (h.refusal_iff hnone).2 ⟨hr _ (by simp), hover⟩
  have hmk : (mkdirs f .mkdir (a.target p) : M T B Unit) t = .ok () (t.made (a.target p)) := by
    simp [Instance.mkdirs, hr .mkdir (by simp), h.way_after]
  have hyaml : isDir (t.made (a.target p)).fs (instanceYaml (a.target p)) = false := by
    have hno := (createRefusal_none hc).2
    rw [createArgs_target] at hno
    rw [Site.made, mkdirs_of_present h.root, isDir, hno, Bool.false_and]
  have hwrite : (writeText f .yaml (instanceYaml (a.target p)) ((a.createArgs p).yamlText k) : M T B Unit)
      (t.made (a.target p)) = .ok () ((t.made (a.target p)).wrote (instanceYaml (a.target p)) ((a.createArgs p).yamlText k)) := by
    simp [writeText, hyaml, hr .yaml (by simp)]
  have hreg' : allocate ((t.made (a.target p)).wrote (instanceYaml (a.target p)) ((a.createArgs p).yamlText k)).reg a.name
      (backendFor p (a.target p) (a.cfg p)) now = .ok (index, reg) := by
    rw [← hreg, ← h.reg]
    rfl
  have halloc : addAllocating f a.name (backendFor p (a.target p) (a.cfg p)) now
      ((t.made (a.target p)).wrote (instanceYaml (a.target p)) ((a.createArgs p).yamlText k)) =
      .ok index (a.entered p k reg (t.made (a.target p))) := by
    simp [addAllocating, hr .alloc (by simp), hr .committed (by simp), hreg', FromDataArgs.entered]
  refine ⟨reg, ?_⟩
  rw [create_checked hc, createArgs_target, h.root, bind_of_ok hmk, bind_of_ok hwrite]
  refine (bind_of_ok halloc).trans ?_
  have hgo : stageChecked p k f a.name (a.target p) (a.cfg p) index (a.entered p k reg (t.made (a.target p))) =
      runOps f (a.plan p k ports) (a.entered p k reg (t.made (a.target p))) :=
    stageChecked_goes (m := ⟨_, index, now⟩) (allocate_row hreg).2.1 hresolve (hr .scan (by simp))
      ((h.made.port_check hover hreg ports).trans hfree)
  exact onRaise_congr hgo

end Outcomes

end Beetroot.Instance
