/-
Does staging leave a user's own module files alone?

A `path:` entry may name a file below `modules/`, the directory that `stage_for_instance` sweeps and fills again: a zip in it is
swept before the entry is resolved, and a copy for another entry can land on a file in it that is no zip. An entry of `modules/`
that is a link takes a copy to the file that it leads to, wherever that is. And a file of the module cache goes when the digest of
its url is wrong.

Results:
- `content_stage`: after a stage, whether it returns or raises, the last change of the place of a file decides what is in it;
- `spared_beside`: a file outside `modules/` to which no link leads, and which no url has in the cache, is spared;
- `stage_spares_iff`: all sources are as they were exactly when each of them is `spared`.
-/
import Beetroot.Instance.Flash
import Beetroot.Instance.Links

namespace Beetroot.Instance

open Lib Lib.Eff Lib.Fs

variable {T B : Type}

/-! ## The question -/

section Defs

variable (net : Net B) (f : Faults B) (root : Path) (l : Links B)

/-- the bytes of the file at a resolved path -/
def content (d : Linked T B) (p : Path) : Option B := readFile d.site.fs (l.fileAt root d.links p)

/-- every file that a `path:` entry was resolved to before is still there with the same bytes -/
def SourcesKept (cfg : InstanceConfig) (d d' : Linked T B) : Prop :=
  ∀ m ∈ cfg.modules, ∀ path b, m.source = .path path → content root l d (l.before path) = some b →
    content root l d' (l.before path) = some b

/-- `modules/` can be made, or is there -/
def canMake (fs : FileTree B) : Bool :=
  !f.raises .zips && match l.dir with
    | none => !fileInWay fs (instanceModules root)
    | some dir => isDir fs dir

/-- the disk with `modules/` -/
def withModules (d : Linked T B) : Linked T B :=
  match l.dir with
  | none => { d with site := d.site.made (instanceModules root) }
  | some _ => d

/-- the zips that are removed before one cannot be -/
def sweptZips (d : Linked T B) : List String := (globLinked net root l d).takeWhile (goes f root l d)

/-- what the stage does to the files after the removal: nothing, if that has stopped before its end -/
def laterChanges [DecidableEq B] (cfg : InstanceConfig) (d : Linked T B) : List (Change B) :=
  if (globLinked net root l d).all (goes f root l d) then
    changes net f root l (d.links.filter (· ∉ sweptZips net f root l d)) 0
      (eraseAll (l.modules root) (sweptZips net f root l d) d.site.fs) [] cfg.modules
  else []

/-- A file with these bytes at a resolved path outlives a stage: `modules/` cannot be made; or the last thing that the loop does to
its place leaves the bytes there, or the loop does nothing to it and it is not swept. -/
def spared [DecidableEq B] (cfg : InstanceConfig) (d : Linked T B) (p : Path) (b : B) : Bool :=
  !canMake f root l d.site.fs ||
    let start := withModules root l d
    let place := l.fileAt root (d.links.filter (· ∉ sweptZips net f root l start)) p
    match lastChange place (laterChanges net f root l cfg start) with
    | some left => left = some b
    | none => ∀ x ∈ sweptZips net f root l start, place ≠ l.modules root ++ [x]

end Defs

section Sources

variable {net : Net B} {f : Faults B} {root : Path} {l : Links B} {cfg : InstanceConfig} {d : Linked T B}

variable (f root l) in
theorem makeModules_eq (d : Linked T B) :
    (canMake f root l d.site.fs = true ∧ makeModules f root l d = .ok () (withModules root l d)) ∨
      (canMake f root l d.site.fs = false ∧ ∃ e, makeModules f root l d = .error e d) := by
  unfold canMake makeModules withModules
  cases hr : f.raises .zips with
  | true =>
    refine Or.inr ⟨rfl, ?_⟩
    cases l.dir with
    | none => exact ⟨.fault .zips, by simp [liftSite, Instance.mkdirs, hr]⟩
    | some dir => exact ⟨.fault .zips, by simp⟩
  | false =>
    cases l.dir with
    | none =>
      cases hway : fileInWay d.site.fs (instanceModules root) with
      | true => exact Or.inr ⟨rfl, _, by simp only [liftSite, Instance.mkdirs, hr, hway]; rfl⟩
      | false => exact Or.inl ⟨rfl, by simp only [liftSite, Instance.mkdirs, hr, hway]; rfl⟩
    | some dir =>
      cases hdir : isDir d.site.fs dir with
      | true => exact Or.inl ⟨by simp [hdir], by simp [hdir]⟩
      | false => exact Or.inr ⟨by simp [hdir], .fileExists (instanceModules root), by simp [hdir]⟩

variable (root l) in
theorem readFile_withModules (d : Linked T B) (q : Path) :
    (withModules root l d).links = d.links ∧ readFile (withModules root l d).site.fs q = readFile d.site.fs q := by
  unfold withModules
  cases l.dir with
  | none => exact ⟨rfl, readFile_mkdirs _ _ _⟩
  | some dir => exact ⟨rfl, rfl⟩

theorem globLinked_nodup (d : Linked T B) : (globLinked net root l d).Nodup :=
  (net.scan_perm _).nodup_iff.2 ((List.nodup_dedup _).filter _)

/-- after a stage that could make `modules/`, the last change decides -/
theorem content_stage [DecidableEq B] (hmake : canMake f root l d.site.fs = true) (p : Path) :
    content root l (final (stageLinked net f root l cfg d)) p =
      let start := withModules root l d
      let place := l.fileAt root (d.links.filter (· ∉ sweptZips net f root l start)) p
      (lastChange place (laterChanges net f root l cfg start)).getD
        (if place ∈ (sweptZips net f root l start).map fun x => l.modules root ++ [x] then none
        else readFile start.site.fs place) := by
  obtain ⟨-, hmk⟩ | ⟨hnot, -⟩ := makeModules_eq f root l d
  · have hrun : stageLinked net f root l cfg d = (makeModules f root l >>= fun _ => get >>= fun d' =>
        sweep f root l (globLinked net root l d') >>= fun _ => stageLinkedLoop net f root l 0 [] cfg.modules) d := rfl
    rw [hrun, final_bind_ok hmk]
    have hlinks : (withModules root l d).links = d.links := (readFile_withModules root l d []).1
    rw [← hlinks]
    generalize withModules root l d = start
    have hget : (get >>= fun d' => sweep f root l (globLinked net root l d') >>= fun _ =>
        stageLinkedLoop net f root l 0 [] cfg.modules : L T B (List Path)) start =
        (sweep f root l (globLinked net root l start) >>= fun _ => stageLinkedLoop net f root l 0 [] cfg.modules) start := rfl
    rw [hget]
    dsimp only
    obtain ⟨t, hfs, htlinks, ⟨hall, hsweep⟩ | ⟨hall, e, hsweep⟩⟩ :=
      sweep_spec f root l (globLinked net root l start) (globLinked_nodup start) start
    · rw [final_bind_ok hsweep]
      obtain ⟨hloopLinks, hloopFs⟩ := stageLinkedLoop_fs net f root l cfg.modules 0 [] t
      unfold content laterChanges
      rw [hloopLinks, hloopFs, if_pos hall, readFile_changes, htlinks, hfs, readFile_eraseAll_iff]
      rfl
    · rw [final_bind_error hsweep]
      unfold content laterChanges
      rw [hall, htlinks, hfs, readFile_eraseAll_iff]
      rfl
  · rw [hnot] at hmake
    cases hmake

/-- a file outlives the stage exactly when it is spared -/
theorem content_spared [DecidableEq B] {p : Path} {b : B} (hb : content root l d p = some b) :
    content root l (final (stageLinked net f root l cfg d)) p = some b ↔ spared net f root l cfg d p b = true := by
  unfold spared
  cases hmake : canMake f root l d.site.fs with
  | false =>
    -- the stage has raised at once
    obtain ⟨hcan, -⟩ | ⟨-, e, hmk⟩ := makeModules_eq f root l d
    · rw [hmake] at hcan
      cases hcan
    · have hrun : final (stageLinked net f root l cfg d) = d := by
        have hraise : stageLinked net f root l cfg d = .error e d := bind_error_iff.2 (Or.inl hmk)
        rw [hraise]
        rfl
      rw [hrun, hb]
      simp
  | true =>
    rw [content_stage hmake]
    dsimp only
    simp only [Bool.not_true, Bool.false_or]
    obtain ⟨hlinks, -⟩ := readFile_withModules root l d []
    have hread := fun q => (readFile_withModules root l d q).2
    generalize hgone : sweptZips net f root l (withModules root l d) = gone
    cases lastChange (l.fileAt root (d.links.filter (· ∉ gone)) p) (laterChanges net f root l cfg (withModules root l d)) with
    | some left => simp
    | none =>
      have hswept : (∀ x ∈ gone, l.fileAt root (d.links.filter (· ∉ gone)) p ≠ l.modules root ++ [x]) ↔
          l.fileAt root (d.links.filter (· ∉ gone)) p ∉ gone.map fun x => l.modules root ++ [x] := by
        simp [eq_comm]
      dsimp only
      rw [Option.getD_none, hread, decide_eq_true_eq, hswept]
      by_cases hmem : l.fileAt root (d.links.filter (· ∉ gone)) p ∈ gone.map fun x => l.modules root ++ [x]
      · rw [if_pos hmem]
        exact iff_of_false (by simp) (not_not_intro hmem)
      · -- a name that is still there leads where it led
        have hplace : l.fileAt root (d.links.filter (· ∉ gone)) p = l.fileAt root d.links p := by
          unfold Links.fileAt at hmem ⊢
          cases hentry : entryOf (l.modules root) p with
          | none => rfl
          | some x =>
            simp only [hentry] at hmem ⊢
            by_cases hx : x ∈ gone
            · have hmem' : p ∈ gone.map fun x => l.modules root ++ [x] :=
                List.mem_map.2 ⟨x, hx, (entryOf_eq_some.1 hentry).symm⟩
              have hnotLink : x ∉ d.links.filter (· ∉ gone) := by simp [hx]
              rw [if_neg hnotLink] at hmem
              exact absurd hmem' hmem
            · simp [hx]
        rw [if_neg hmem, hplace]
        have hsame : readFile d.site.fs (l.fileAt root d.links p) = some b := hb
        rw [hplace] at hmem
        simp only [hsame, hmem, not_false_eq_true]

theorem lastChange_eq_none {q : Path} {cs : List (Change B)} (h : ∀ c ∈ cs, c.1 ≠ q) : lastChange q cs = none := by
  induction cs with
  | nil => rfl
  | cons c cs ih =>
    rw [lastChange, ih fun c' hc' => h c' (List.mem_cons_of_mem _ hc'), if_neg (h c List.mem_cons_self)]
    rfl

/-- resolving a module changes the cache file of its url only -/
theorem resolveLinked_changes [DecidableEq B] {links : List String} {fs : FileTree B} {i : ℕ} {m : Module} :
    ∀ c ∈ (resolveLinked net root l links fs i m).2, ∃ url, l.cached url = some c.1 := by
  unfold resolveLinked
  cases m.source with
  | url url =>
    simp only
    split_ifs
    · simp
    · split
      · simp
      · split
        · simp only [List.mem_map, Option.mem_toList]
          rintro c ⟨q, hq, rfl⟩
          exact ⟨url, hq⟩
        · simp only [List.mem_append, List.mem_map, Option.mem_toList]
          rintro c (⟨q, hq, rfl⟩ | ⟨q, hq, rfl⟩)
          · exact ⟨url, hq⟩
          · exact ⟨url, hq⟩
  | path path =>
    simp only
    split_ifs
    · simp
    · split <;> simp

/-- the loop changes cache files, and what the entries of `modules/` open -/
theorem changes_places [DecidableEq B] (links : List String) (ms : List Module) (i : ℕ) (fs : FileTree B) (used : List String) :
    ∀ c ∈ changes net f root l links i fs used ms,
      (∃ url, l.cached url = some c.1) ∨ ∃ x, l.opened root links x = some c.1 := by
  induction ms generalizing i fs used with
  | nil => exact fun c hc => absurd hc List.not_mem_nil
  | cons m ms ih =>
    unfold changes
    intro c hc
    rcases List.mem_append.1 hc with hc | hc
    · exact Or.inl (resolveLinked_changes c hc)
    · split at hc
      · cases hc
      · dsimp only at hc
        split at hc
        · cases hc
        · rename_i q hopen
          split_ifs at hc
          · cases hc
          · simp only [List.mem_map, Option.mem_toList] at hc
            obtain ⟨left, -, rfl⟩ := hc
            exact Or.inr ⟨_, hopen⟩
          · rcases List.mem_cons.1 hc with rfl | hc
            · exact Or.inr ⟨_, hopen⟩
            · exact ih _ _ _ c hc

/-- a file outside `modules/` that no link leads to and no url has in the cache is spared -/
theorem spared_beside [DecidableEq B] {p : Path} {b : B} (hp : entryOf (l.modules root) p = none) (hfile : entryOf (l.modules root) (l.file p) = none)
    (hlinks : ∀ x ∈ d.links, l.leads x ≠ some (l.file p)) (hcache : ∀ url, l.cached url ≠ some (l.file p)) :
    spared net f root l cfg d p b = true := by
  have hplace : ∀ links, l.fileAt root links p = l.file p := by
    intro links
    simp only [Links.fileAt, hp]
  have hentry : ∀ x, l.file p ≠ l.modules root ++ [x] := by
    intro x hx
    rw [entryOf_eq_some.2 hx] at hfile
    cases hfile
  have hnone : lastChange (l.file p) (laterChanges net f root l cfg (withModules root l d)) = none := by
    unfold laterChanges
    split_ifs
    · refine lastChange_eq_none fun c hc heq => ?_
      rcases changes_places _ _ _ _ _ c hc with ⟨url, hurl⟩ | ⟨x, hx⟩
      · exact hcache url (hurl.trans (congrArg some heq))
      · unfold Links.opened at hx
        split_ifs at hx with hmem
        · rw [(readFile_withModules root l d []).1] at hmem
          exact hlinks x (List.mem_filter.1 hmem).1 (hx.trans (congrArg some heq))
        · exact hentry x ((Option.some.inj hx).trans heq).symm
    · rfl
  unfold spared
  rw [Bool.or_eq_true]
  refine Or.inr ?_
  simp only [hplace, hnone]
  exact decide_eq_true fun x _ => hentry x

end Sources

/-- After a stage, whether it returns or raises, every source of a `path:` entry is there with its bytes exactly when each of them
is spared. -/
theorem stage_spares_iff [DecidableEq B] (net : Net B) (f : Faults B) (root : Path) (l : Links B) (cfg : InstanceConfig)
    (d : Linked T B) :
    SourcesKept root l cfg d (final (stageLinked net f root l cfg d)) ↔
      ∀ m ∈ cfg.modules, ∀ path b, m.source = .path path → content root l d (l.before path) = some b →
        spared net f root l cfg d (l.before path) b = true := by
  constructor
  · intro h m hm path b hsrc hb
    exact (content_spared hb).1 (h m hm path b hsrc hb)
  · intro h m hm path b hsrc hb
    exact (content_spared hb).2 (h m hm path b hsrc hb)

/-- a host on which `modules/mod.zip` is the file of that name in the instance directory -/
def Net.inModules : Net String :=
  { Net.sample with within := fun root path => if path = "modules/mod.zip" then root ++ ["modules", "mod.zip"] else root ++ [path] }

/-- an instance with its own zip in `modules/`, and no links -/
def ownZip : Linked String String := ⟨Site.holding ["mod.zip"], []⟩

/-- a module that the user has put into `modules/` himself: it is swept, and then it is not found -/
theorem stage_sweeps_source :
    ¬ SourcesKept ["srv", "x"] (.plain Net.inModules ["srv", "x"] "")
      { InstanceConfig.plain with modules := [⟨.path "modules/mod.zip", none⟩] } ownZip
      (final (stageLinked Net.inModules .none ["srv", "x"] (.plain Net.inModules ["srv", "x"] "")
        { InstanceConfig.plain with modules := [⟨.path "modules/mod.zip", none⟩] } ownZip)) := by
  intro h
  have hkept := h ⟨.path "modules/mod.zip", none⟩ List.mem_cons_self "modules/mod.zip" "zip" rfl (by decide)
  exact absurd hkept (by decide)

end Beetroot.Instance
