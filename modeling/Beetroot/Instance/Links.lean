/-
`modules_download.stage_for_instance` on a disk with links.

`modules/` may be a link, and so may its entries: a symbolic link, or one more name of a file that has others. Removing such an
entry removes the name; copying onto it writes into the file that it leads to, or makes the one that it misses. A fetched module
lies in the cache, and goes from there when its digest is wrong; that file can be the source of another entry.

The tree holds each file under one name, and `Links` has what the names on the disk lead to. Staging neither makes a link nor a
directory below `modules/`, so after the removal of the zips nothing that is resolved or opened changes its place.

Results:
- `stageLinked_plain`: without links, and with the cache out of the tree, this is `modulesStageForInstance`;
- `sweep_spec`: a removal goes on to the first entry that it cannot remove;
- `stageLinkedLoop_fs`: what the loop leaves is what its `changes` make of the files;
- `readFile_changes`: the last change of a place decides.
-/
import Beetroot.Instance.Modules

namespace Beetroot.Instance

open Lib Lib.Eff Lib.Fs

variable {T B : Type}

/-! ## The disk -/

/-- what the names on the disk lead to -/
structure Links (B : Type) where
  /-- the directory that `modules/` leads to, if it is a link -/
  dir : Option Path
  /-- the file of a resolved path, by the name that the tree has for it -/
  file : Path → Path
  /-- `(instance_root / path).resolve()` before the zips are removed -/
  before : String → Path
  /-- the same after that -/
  after : String → Path
  /-- the file that an entry of `modules/` opens which is a link; `none` if it cannot be opened -/
  leads : String → Option Path
  /-- the cache file of a url, if the tree has it -/
  cached : String → Option Path
  /-- `b""` -/
  empty : B

/-- no links, and no cache -/
def Links.plain (net : Net B) (root : Path) (empty : B) : Links B where
  dir := none
  file p := p
  before := net.within root
  after := net.within root
  leads _ := none
  cached _ := none
  empty := empty

structure Linked (T B : Type) where
  site : Site T B
  /-- the entries of `modules/` that are links -/
  links : List String

abbrev L (T B : Type) := EStateM Fail (Linked T B)

/-- a step that leaves the links alone -/
def liftSite {α : Type} (x : M T B α) : L T B α := fun d =>
  match x d.site with
  | .ok a s => .ok a { d with site := s }
  | .error e s => .error e { d with site := s }

/-- the name of an entry of the directory -/
def entryOf (dir p : Path) : Option String := if p ≠ [] ∧ p.dropLast = dir then some (p.getLastD "") else none

theorem entryOf_eq_some {dir p : Path} {x : String} : entryOf dir p = some x ↔ p = dir ++ [x] := by
  unfold entryOf
  constructor
  · intro h
    split_ifs at h with hp
    obtain ⟨hne, rfl⟩ := hp
    cases h
    rw [List.getLastD_eq_getLast?, List.getLast?_eq_getLast_of_ne_nil hne]
    exact (List.dropLast_append_getLast hne).symm
  · rintro rfl
    simp

/-- one change of the files: written, or removed -/
abbrev Change (B : Type) := Path × Option B

def change (fs : FileTree B) (c : Change B) : FileTree B :=
  match c.2 with
  | some b => writeFile fs c.1 b
  | none => fs.erase c.1

/-- the last thing that the changes do to a place -/
def lastChange (q : Path) : List (Change B) → Option (Option B)
  | [] => none
  | c :: cs => (lastChange q cs).or (if c.1 = q then some c.2 else none)

theorem readFile_changes (cs : List (Change B)) (fs : FileTree B) (q : Path) :
    readFile (cs.foldl change fs) q = (lastChange q cs).getD (readFile fs q) := by
  induction cs generalizing fs with
  | nil => rfl
  | cons c cs ih =>
    have hone : readFile (change fs c) q = if c.1 = q then c.2 else readFile fs q := by
      obtain ⟨p, body⟩ := c
      cases body with
      | some b =>
        simp only [change, readFile_write]
        by_cases h : p = q
        · rw [if_pos h.symm, if_pos h]
        · rw [if_neg (Ne.symm h), if_neg h]
      | none =>
        simp only [change, readFile, Dict.get?_erase]
        by_cases h : p = q
        · rw [if_pos h.symm, if_pos h]
        · rw [if_neg (Ne.symm h), if_neg h]
    rw [List.foldl_cons, ih, hone, lastChange]
    cases lastChange q cs with
    | some r => rfl
    | none => by_cases h : c.1 = q <;> simp [h]

/-! ## The stage -/

section Stage

variable (net : Net B) (f : Faults B) (root : Path) (l : Links B)

/-- the directory of the modules -/
def Links.modules : Path := l.dir.getD (instanceModules root)

/-- the file that a resolved path names now: an entry of `modules/` that is no link names its own -/
def Links.fileAt (links : List String) (p : Path) : Path :=
  match entryOf (l.modules root) p with
  | some x => if x ∈ links then l.file p else p
  | none => l.file p

/-- the file that `open` finds or makes at an entry of `modules/` -/
def Links.opened (links : List String) (x : String) : Option Path :=
  if x ∈ links then l.leads x else some (l.modules root ++ [x])

/-- `target.mkdir(parents=True, exist_ok=True)`: a link to nothing is in the way -/
def makeModules : L T B Unit :=
  match l.dir with
  | none => liftSite (mkdirs f .zips (instanceModules root))
  | some dir => fun d =>
    if f.raises .zips then .error (.fault .zips) d
    else if isDir d.site.fs dir then .ok () d
    else .error (.fileExists (instanceModules root)) d

/-- `Path.unlink` of an entry of `modules/`: of a link, the name goes -/
def unlinkEntry (x : String) : L T B Unit := fun d =>
  if f.raises (.unlinked x) then .error (.fault (.unlinked x)) d
  else if x ∈ d.links then
    .ok () ⟨{ d.site with fs := d.site.fs.erase (l.modules root ++ [x]), log := d.site.log ++ [.path (l.modules root ++ [x])] },
      d.links.filter (· ≠ x)⟩
  else liftSite (unlink (l.modules root ++ [x])) d

def sweep : List String → L T B Unit
  | [] => pure ()
  | x :: xs => do
    unlinkEntry f root l x
    sweep xs

/-- `glob("*.zip")` in `modules/` -/
def globLinked (d : Linked T B) : List String :=
  net.scan (((listdir d.site.fs (l.modules root)) ++ d.links).dedup.filter isZip)

/-- `_fetch_url`: a cache file that is not empty is taken as it is -/
def fetchCached [DecidableEq B] (fs : FileTree B) (i : ℕ) (url : String) : Option B :=
  match (l.cached url).bind (readFile fs) with
  | some b => if b = l.empty then net.fetch i url else some b
  | none => net.fetch i url

/-- `_resolve`, and what it changes: a fetched file is in the cache, and goes from there when its digest is wrong -/
def resolveLinked [DecidableEq B] (links : List String) (fs : FileTree B) (i : ℕ) (m : Module) : Except Fail (Source B) × List (Change B) :=
  match m.source with
  | .url url =>
    if !Config.hasHttpScheme url then (.error (.fetch url), [])
    else
      match fetchCached net l fs i url with
      | none => (.error (.fetch url), [])
      | some body =>
        let written := (l.cached url).toList.map fun c => (c, some body)
        match verifySha256 net m ⟨cacheName (net.urlPrefix url) url, body, l.cached url⟩ with
        | .ok src => (.ok src, written)
        | .error e => (.error e, written ++ (l.cached url).toList.map fun c => (c, none))
  | .path path =>
    if !isAbsolute path && !(root <+: l.after path) then (.error (.escapes path), [])
    else
      match readFile fs (l.fileAt root links (l.after path)) with
      | none => (.error (.notFound (l.after path)), [])
      | some body =>
        (verifySha256 net m ⟨(l.after path).getLastD "", body, some (l.fileAt root links (l.after path))⟩, [])

/-- `shutil.copyfile`, onto an entry of `modules/` -/
def copyLinked (i : ℕ) (src : Source B) (x : String) : L T B Unit := fun d =>
  match l.opened root d.links x with
  | none => .error (.notFound (l.modules root ++ [x])) d
  | some q => liftSite (copyfile f i src q) d

/-- the loop of `stage_for_instance` over the modules -/
def stageLinkedLoop [DecidableEq B] : ℕ → List String → List Module → L T B (List Path)
  | _, _, [] => pure []
  | i, used, m :: ms => fun d =>
    let r := resolveLinked net root l d.links d.site.fs i m
    let d' := { d with site := { d.site with fs := r.2.foldl change d.site.fs } }
    match r.1 with
    | .error e => .error e d'
    | .ok src =>
      let x := uniqueDestName src.name used i
      (copyLinked f root l i src x >>= fun _ => stageLinkedLoop (i + 1) (x :: used) ms >>= fun staged =>
        pure ((instanceModules root ++ [x]) :: staged)) d'

/-- `modules_download.stage_for_instance` -/
def stageLinked [DecidableEq B] (cfg : InstanceConfig) : L T B (List Path) := do
  makeModules f root l
  let d ← get
  sweep f root l (globLinked net root l d)
  stageLinkedLoop net f root l 0 [] cfg.modules

end Stage

/-! ## Without links -/

section Plain

variable {net : Net B} {f : Faults B} {root : Path} {empty : B}

/-- a result on a disk without links -/
def unlinked {α : Type} : EStateM.Result Fail (Site T B) α → EStateM.Result Fail (Linked T B) α
  | .ok a s => .ok a ⟨s, []⟩
  | .error e s => .error e ⟨s, []⟩

theorem liftSite_unlinked {α : Type} (x : M T B α) (s : Site T B) : liftSite x ⟨s, []⟩ = unlinked (x s) := by
  unfold liftSite
  cases x s <;> rfl

/-- what is done step by step to the disk is done to the site -/
theorem unlinked_bind {α β : Type} {x : L T B α} {x' : M T B α} {g : α → L T B β} {g' : α → M T B β} {s : Site T B}
    (hx : x ⟨s, []⟩ = unlinked (x' s)) (hg : ∀ a t, g a ⟨t, []⟩ = unlinked (g' a t)) :
    (x >>= g) ⟨s, []⟩ = unlinked ((x' >>= g') s) := by
  cases h : x' s with
  | ok a t =>
    rw [h] at hx
    rw [bind_of_ok hx, bind_of_ok h, hg]
  | error e t =>
    rw [h] at hx
    have hleft : (x >>= g) ⟨s, []⟩ = .error e ⟨t, []⟩ := bind_error_iff.2 (Or.inl hx)
    have hright : (x' >>= g') s = .error e t := bind_error_iff.2 (Or.inl h)
    rw [hleft, hright]
    rfl

theorem resolveLinked_plain [DecidableEq B] (fs : FileTree B) (i : ℕ) (m : Module) :
    resolveLinked net root (.plain net root empty) [] fs i m = (resolveModule net root fs i m, []) := by
  have hfile : ∀ p, (Links.plain net root empty).fileAt root [] p = p := by
    intro p
    unfold Links.fileAt
    split <;> rfl
  unfold resolveLinked resolveModule fetchCached
  cases m.source with
  | url url =>
    simp only [Links.plain, Option.bind_none, Option.toList_none, List.map_nil, List.append_nil]
    split_ifs
    · rfl
    · cases net.fetch i url with
      | none => rfl
      | some body =>
        simp only
        cases verifySha256 net m ⟨cacheName (net.urlPrefix url) url, body, none⟩ <;> rfl
  | path path =>
    simp only [hfile]
    have hafter : (Links.plain net root empty).after path = net.within root path := rfl
    rw [hafter]
    split_ifs
    · rfl
    · cases readFile fs (net.within root path) <;> rfl

theorem sweep_plain (hf : ∀ x, f.raises (.unlinked x) = false) (xs : List String) (s : Site T B) :
    sweep f root (.plain net root empty) xs ⟨s, []⟩ = unlinked (unlinkAll (instanceModules root) xs s) := by
  induction xs generalizing s with
  | nil => rfl
  | cons x xs ih =>
    refine unlinked_bind ?_ fun _ t => ih t
    simp only [unlinkEntry, hf x, Bool.false_eq_true, if_false, List.not_mem_nil]
    exact liftSite_unlinked _ s

theorem stageLinkedLoop_plain [DecidableEq B] (ms : List Module) (i : ℕ) (used : List String) (s : Site T B) :
    stageLinkedLoop net f root (.plain net root empty) i used ms ⟨s, []⟩ = unlinked (stageLoop net f root i used ms s) := by
  induction ms generalizing i used s with
  | nil => rfl
  | cons m ms ih =>
    unfold stageLinkedLoop
    simp only [resolveLinked_plain]
    cases hres : resolveModule net root s.fs i m with
    | error e =>
      rw [stageLoop_error net f root hres]
      rfl
    | ok src =>
      rw [stageLoop_ok net f root hres]
      unfold stageOne
      refine unlinked_bind ?_ fun _ t => unlinked_bind (ih _ _ t) fun _ _ => rfl
      exact liftSite_unlinked (copyfile f i src (instanceModules root ++ [uniqueDestName src.name used i])) s

/-- without links, and with the cache out of the tree, staging is as before -/
theorem stageLinked_plain [DecidableEq B] (hf : ∀ x, f.raises (.unlinked x) = false) (cfg : InstanceConfig) (s : Site T B) :
    stageLinked net f root (.plain net root empty) cfg ⟨s, []⟩ = unlinked (modulesStageForInstance net f root cfg s) := by
  have hglob : ∀ t : Site T B, globLinked net root (.plain net root empty) ⟨t, []⟩ = globZips net root t.fs := by
    intro t
    unfold globLinked globZips
    rw [List.append_nil, (nodup_listdir _ _).dedup]
    rfl
  unfold stageLinked modulesStageForInstance
  refine unlinked_bind (liftSite_unlinked _ s) fun _ t => ?_
  change (sweep f root (.plain net root empty) (globLinked net root (.plain net root empty) ⟨t, []⟩) >>= fun _ =>
      stageLinkedLoop net f root (.plain net root empty) 0 [] cfg.modules) ⟨t, []⟩ =
    unlinked ((unlinkAll (instanceModules root) (globZips net root t.fs) >>= fun _ => stageLoop net f root 0 [] cfg.modules) t)
  rw [hglob]
  exact unlinked_bind (sweep_plain hf _ t) fun _ u => stageLinkedLoop_plain cfg.modules 0 [] u

end Plain

/-! ## What each part leaves -/

section Parts

variable (net : Net B) (f : Faults B) (root : Path) (l : Links B)

/-- the removal of an entry goes through -/
def goes (d : Linked T B) (x : String) : Bool :=
  !f.raises (.unlinked x) && (x ∈ d.links || isFile d.site.fs (l.modules root ++ [x]))

/-- what the loop does to the files, in its order -/
def changes [DecidableEq B] (links : List String) : ℕ → FileTree B → List String → List Module → List (Change B)
  | _, _, _, [] => []
  | i, fs, used, m :: ms =>
    let r := resolveLinked net root l links fs i m
    let fs' := r.2.foldl change fs
    r.2 ++ match r.1 with
      | .error _ => []
      | .ok src =>
        let x := uniqueDestName src.name used i
        match l.opened root links x with
        | none => []
        | some q =>
          if src.path = some q || isDir fs' q then []
          else if f.raises (.staged i) then (f.torn (.staged i)).toList.map fun left => (q, some left)
          else (q, some src.body) :: changes links (i + 1) (writeFile fs' q src.body) (x :: used) ms

variable {net f root l}

theorem readFile_eraseAll_iff (dir : Path) (xs : List String) (fs : FileTree B) (q : Path) :
    readFile (eraseAll dir xs fs) q = if q ∈ xs.map fun x => dir ++ [x] then none else readFile fs q := by
  induction xs generalizing fs with
  | nil => rfl
  | cons x xs ih =>
    have hrun : eraseAll dir (x :: xs) fs = eraseAll dir xs (fs.erase (dir ++ [x])) := rfl
    have herase : readFile (fs.erase (dir ++ [x])) q = if q = dir ++ [x] then none else readFile fs q := by
      simp only [readFile, Dict.get?_erase]
      split_ifs <;> rfl
    rw [hrun, ih, herase, List.map_cons]
    by_cases hx : q = dir ++ [x] <;> by_cases hmem : q ∈ xs.map fun x => dir ++ [x] <;> simp [hx, hmem]

theorem unlinkEntry_ok {d : Linked T B} {x : String} (h : goes f root l d x = true) :
    ∃ t, unlinkEntry f root l x d = .ok () t ∧ t.site.fs = d.site.fs.erase (l.modules root ++ [x]) ∧
      t.links = d.links.filter (· ≠ x) := by
  simp only [goes, Bool.and_eq_true, Bool.not_eq_true', Bool.or_eq_true, decide_eq_true_eq] at h
  unfold unlinkEntry
  rw [h.1]
  by_cases hx : x ∈ d.links
  · simp [hx]
  · have hfile : isFile d.site.fs (l.modules root ++ [x]) = true := h.2.resolve_left hx
    have hlinks : d.links.filter (· ≠ x) = d.links := by
      refine List.filter_eq_self.2 fun y hy => ?_
      simpa using fun heq : y = x => hx (heq ▸ hy)
    refine ⟨⟨{ d.site with fs := d.site.fs.erase (l.modules root ++ [x]), log := d.site.log ++ [.path (l.modules root ++ [x])] },
      d.links⟩, ?_, rfl, hlinks.symm⟩
    simp [hx, liftSite, unlink, hfile]

theorem unlinkEntry_error {d : Linked T B} {x : String} (h : goes f root l d x = false) :
    ∃ e, unlinkEntry f root l x d = .error e d := by
  unfold unlinkEntry
  cases hr : f.raises (.unlinked x) with
  | true => exact ⟨_, rfl⟩
  | false =>
    simp only [goes, hr, Bool.not_false, Bool.true_and, Bool.or_eq_false_iff, decide_eq_false_iff_not] at h
    simp [h.1, liftSite, unlink, h.2]

variable (f root l) in
/-- a removal goes on to the first entry that it cannot remove -/
theorem sweep_spec (xs : List String) (hnodup : xs.Nodup) (d : Linked T B) :
    ∃ t, t.site.fs = eraseAll (l.modules root) (xs.takeWhile (goes f root l d)) d.site.fs ∧
      t.links = d.links.filter (· ∉ xs.takeWhile (goes f root l d)) ∧
      ((xs.all (goes f root l d) = true ∧ sweep f root l xs d = .ok () t) ∨
        (xs.all (goes f root l d) = false ∧ ∃ e, sweep f root l xs d = .error e t)) := by
  induction xs generalizing d with
  | nil => exact ⟨d, rfl, by simp, Or.inl ⟨rfl, rfl⟩⟩
  | cons x xs ih =>
    obtain ⟨hnot, hnodup'⟩ := List.nodup_cons.1 hnodup
    cases hx : goes f root l d x with
    | false =>
      obtain ⟨e, hone⟩ := unlinkEntry_error hx
      refine ⟨d, by simp [hx, eraseAll], by simp [hx], Or.inr ⟨by simp [hx], e, bind_error_iff.2 (Or.inl hone)⟩⟩
    | true =>
      obtain ⟨d', hone, hfs, hlinks⟩ := unlinkEntry_ok hx
      -- the other names are as before
      have hsame : ∀ y ∈ xs, goes f root l d' y = goes f root l d y := by
        intro y hy
        have hyx : y ≠ x := fun heq => hnot (heq ▸ hy)
        have hne : ¬ l.modules root ++ [y] = l.modules root ++ [x] := fun heq => hyx (by simpa using heq)
        simp only [goes, hlinks, hfs, isFile, readFile, Dict.get?_erase, if_neg hne, List.mem_filter, hyx, ne_eq, not_false_eq_true,
          decide_true, and_true]
      obtain ⟨hall, htake⟩ := takeWhile_congr_mem hsame
      obtain ⟨t, htfs, htlinks, hrun⟩ := ih hnodup' d'
      refine ⟨t, ?_, ?_, ?_⟩
      · rw [htfs, htake, hfs, List.takeWhile_cons, if_pos hx]
        rfl
      · rw [htlinks, htake, hlinks, List.takeWhile_cons, if_pos hx, List.filter_filter]
        refine List.filter_congr fun y _ => ?_
        by_cases hyx : y = x <;> simp [hyx]
      · rw [List.all_cons, hx, Bool.true_and, ← hall]
        rcases hrun with ⟨hok, hrun⟩ | ⟨hbad, e, hrun⟩
        · exact Or.inl ⟨hok, bind_ok_iff.2 ⟨(), d', hone, hrun⟩⟩
        · exact Or.inr ⟨hbad, e, bind_error_iff.2 (Or.inr ⟨(), d', hone, hrun⟩)⟩

variable (net f root l) in
/-- what the loop leaves is what its changes make of the files -/
theorem stageLinkedLoop_fs [DecidableEq B] (ms : List Module) (i : ℕ) (used : List String) (d : Linked T B) :
    (final (stageLinkedLoop net f root l i used ms d)).links = d.links ∧
      (final (stageLinkedLoop net f root l i used ms d)).site.fs =
        (changes net f root l d.links i d.site.fs used ms).foldl change d.site.fs := by
  induction ms generalizing i used d with
  | nil => exact ⟨rfl, rfl⟩
  | cons m ms ih =>
    unfold stageLinkedLoop changes
    simp only [List.foldl_append]
    generalize hr : resolveLinked net root l d.links d.site.fs i m = r
    cases r.1 with
    | error e => exact ⟨rfl, rfl⟩
    | ok src =>
      simp only
      generalize uniqueDestName src.name used i = x
      generalize hd' : ({ d with site := { d.site with fs := r.2.foldl change d.site.fs } } : Linked T B) = d'
      have hlinks : d.links = d'.links := by rw [← hd']
      have hfs : r.2.foldl change d.site.fs = d'.site.fs := by rw [← hd']
      rw [hfs, hlinks]
      cases hopen : l.opened root d'.links x with
      | none =>
        have hcopy : copyLinked f root l i src x d' = .error (.notFound (l.modules root ++ [x])) d' := by
          simp only [copyLinked, hopen]
        rw [final_bind_error hcopy]
        exact ⟨rfl, rfl⟩
      | some q =>
        have hcopy : copyLinked f root l i src x d' = liftSite (copyfile f i src q) d' := by simp only [copyLinked, hopen]
        simp only
        cases hone : (copyfile f i src q : M T B Unit) d'.site with
        | error e s =>
          have hraise : copyLinked f root l i src x d' = .error e { d' with site := s } := by rw [hcopy, liftSite, hone]
          rw [final_bind_error hraise]
          refine ⟨rfl, ?_⟩
          rcases copyfile_error hone with ⟨hsame, rfl⟩ | ⟨hne, ⟨hdir, rfl⟩ | ⟨hdir, hraises, ⟨htorn, rfl⟩ | ⟨left, htorn, rfl⟩⟩⟩
          · simp [hsame]
          · simp [hdir]
          · simp [hne, hdir, hraises, htorn]
          · simp [hne, hdir, hraises, htorn, change, Site.wrote]
        | ok u s =>
          have hgo : copyLinked f root l i src x d' = .ok u { d' with site := s } := by rw [hcopy, liftSite, hone]
          obtain ⟨hne, hdir, hraises, rfl⟩ := copyfile_ok hone
          rw [final_bind_ok hgo, final_bind_pure]
          obtain ⟨ihlinks, ihfs⟩ := ih (i + 1) (x :: used) { d' with site := d'.site.wrote q src.body }
          refine ⟨ihlinks, ?_⟩
          rw [ihfs]
          simp [hne, hdir, hraises, change, Site.wrote]

end Parts

end Beetroot.Instance
