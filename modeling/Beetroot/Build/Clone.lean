/-
Concurrent image builds and the clone of the patcher that they share.

Any number of processes run `build_image` on one clone directory, each for its own URL. `_clone_dir_lock` is held over the look at
`.git/config`, the `rm -rf`, the `git clone` and the patcher, and the lock file beside the directory is never removed. A step is one
statement of one process, the removal of one entry, or the writing of one file; `rm` and `git` take the entries in any order. A
process may fail, be stopped with its command, or be killed alone at any point. The command of a process that was killed alone goes on,
without the lock: the lock file is not inherited. A `git clone` that fails removes what is there.

Results:
- `originUrl_render`: the loop of `_clone_url_matches` finds the first `url` of the section of `origin`;
- `cloneUrlMatches_iff`: a fresh clone is taken for a clone of its own URL, and of no other;
- `run_clone`: at most one process is between taking and giving up the lock, and only it, or a command that was left behind, changes the
  directory; if nobody gets the lock while such a command runs (`Waits`), the patcher runs in a clone of its own URL without a file of
  another one, and if nothing was cut short since, in a complete one;
- `run_reuse`: once the patcher has run, no build for the same URL removes what is there.
-/
import Mathlib.Data.Bool.AllAny
import Beetroot.Lib.Flock
import Beetroot.Lib.Ini
import Beetroot.Lib.Run

namespace Beetroot.Build.Clone

open Lib Lib.Str Lib.Ini Flock

/-! ## `.git/config` -/

def originTitle : List Char := "[remote \"origin\"]".toList

def urlKey : List Char := "url".toList

/-- the loop of `_clone_url_matches`, which knows whether it is in the section of `origin` -/
def originUrl : Bool → List (List Char) → Option (List Char)
  | _, [] => none
  | inOrigin, line :: lines =>
    let stripped := strip line
    if stripped = originTitle then originUrl true lines
    else if ['['] <+: stripped then originUrl false lines
    else if inOrigin && urlKey <+: stripped && '=' ∈ stripped then some (strip (afterEq stripped))
    else originUrl inOrigin lines

/-- `config` is the text of `.git/config`, if it is a file -/
def cloneUrlMatches (config : Option (List Char)) (url : List Char) : Bool :=
  match config with
  | none => false
  | some text => originUrl false (splitLines [] text) = some url

/-- what the sections say -/
def originEntry (ss : List Section) : Option Entry :=
  ((ss.filter fun s => s.title = originTitle).flatMap Section.entries).find? fun e => urlKey <+: e.key

theorem originUrl_entry {e : Entry} (h : e.Plain) (inOrigin : Bool) (lines : List (List Char)) :
    originUrl inOrigin (e.text :: lines) =
      if inOrigin && urlKey <+: e.key then some e.value else originUrl inOrigin lines := by
  obtain ⟨back, hstrip, hback⟩ := strip_entry h
  obtain ⟨c, hhead, hc⟩ := h.head
  obtain ⟨key, hkey⟩ : ∃ key, e.key = c :: key := by
    cases hk : e.key with
    | nil => rw [hk] at hhead; cases hhead
    | cons d key => rw [hk] at hhead; cases hhead; exact ⟨key, rfl⟩
  have htitle : strip e.text ≠ originTitle := by
    intro heq
    rw [hstrip, hkey] at heq
    exact hc (List.cons.inj heq).1
  have hbracket : ¬ ['['] <+: strip e.text := by
    rw [hstrip, hkey]
    intro hpre
    obtain ⟨t, ht⟩ := hpre
    exact hc (List.cons.inj ht).1.symm
  have heq : '=' ∈ strip e.text := by
    rw [hstrip]
    simp
  have hurl : urlKey <+: e.key ++ ' ' :: '=' :: back ↔ urlKey <+: e.key := Search.prefix_until (by decide) _ _
  rw [originUrl, if_neg htitle, if_neg hbracket, hstrip, value_entry fun d hd => (h.word d hd).2, hback]
  rw [hstrip] at heq
  simp only [hurl, heq, decide_true, Bool.and_true]

theorem originUrl_title (s : Section) (inOrigin : Bool) (lines : List (List Char)) :
    originUrl inOrigin (s.title :: lines) = originUrl (s.title = originTitle) lines := by
  rw [originUrl, strip_header]
  by_cases htitle : s.title = originTitle
  · rw [if_pos htitle, decide_eq_true htitle]
  · rw [if_neg htitle, if_pos ⟨s.header ++ [']'], rfl⟩, decide_eq_false htitle]

theorem originUrl_entries {es : List Entry} (h : ∀ e ∈ es, e.Plain) (inOrigin : Bool) (lines : List (List Char)) :
    originUrl inOrigin (es.map Entry.text ++ lines) =
      if inOrigin then ((es.find? fun e => urlKey <+: e.key).map Entry.value).or (originUrl inOrigin lines)
      else originUrl inOrigin lines := by
  induction es with
  | nil => simp
  | cons e es ih =>
    rw [List.map_cons, List.cons_append, originUrl_entry (h e List.mem_cons_self),
      ih fun e' he => h e' (List.mem_cons_of_mem _ he)]
    cases inOrigin with
    | false => rfl
    | true =>
      by_cases hurl : urlKey <+: e.key
      · simp [hurl]
      · simp [hurl]

/-- the loop finds the first `url` of the sections of `origin` -/
theorem originUrl_render {ss : List Section} (h : ∀ s ∈ ss, s.Plain) :
    originUrl false (splitLines [] (render ss)) = (originEntry ss).map Entry.value := by
  have hloop : ∀ (ss : List Section) (inOrigin : Bool), (∀ s ∈ ss, s.Plain) →
      originUrl inOrigin (ss.flatMap Section.lines) = (originEntry ss).map Entry.value := by
    intro ss
    induction ss with
    | nil => exact fun _ _ => rfl
    | cons s ss ih =>
      intro inOrigin hss
      have hrest := fun b => ih b fun s' hs => hss s' (List.mem_cons_of_mem _ hs)
      rw [List.flatMap_cons, Section.lines, List.cons_append, originUrl_title,
        originUrl_entries (hss s List.mem_cons_self).entries, hrest]
      unfold originEntry
      by_cases htitle : s.title = originTitle
      · have hpos := List.filter_cons_of_pos (p := fun s => decide (s.title = originTitle)) (l := ss) (decide_eq_true htitle)
        rw [decide_eq_true htitle, if_pos rfl, hpos, List.flatMap_cons,
          List.find?_append]
        cases s.entries.find? fun e => urlKey <+: e.key <;> rfl
      · have hneg := List.filter_cons_of_neg (p := fun s => decide (s.title = originTitle)) (l := ss) (by simpa using htitle)
        rw [hneg, decide_eq_false htitle, if_neg Bool.false_ne_true]
  rw [lines_render h]
  exact hloop ss false h

/-- a URL that git writes without quotes -/
structure Url where
  text : List Char
  tight : strip text = text
  line : ∀ c ∈ text, isLineBreak c = false
  unquoted : ∀ c ∈ text, c ∉ ['"', '\\', ';', '#', '\t', Char.ofNat 8]

theorem Url.ext_text {u v : Url} (h : u.text = v.text) : u = v := by
  cases u
  cases v
  cases h
  rfl

/-- what git writes beside the URL -/
structure Git where
  before : List Section
  rest : List Entry
  after : List Section
  plain : ∀ s ∈ before ++ after, s.Plain
  restPlain : ∀ e ∈ rest, e.Plain
  apart : ∀ s ∈ before, s.title ≠ originTitle

def urlEntry (url : Url) : Entry := ⟨urlKey, url.text⟩

/-- the configuration of a clone -/
def Git.cloned (git : Git) (url : Url) : List Section :=
  git.before ++ ⟨"remote \"origin\"".toList, urlEntry url :: git.rest⟩ :: git.after

theorem plain_cloned (git : Git) (url : Url) : ∀ s ∈ git.cloned url, s.Plain := by
  have hurl : (urlEntry url).Plain := by
    refine ⟨?_, ⟨'u', rfl, by decide⟩, url.tight, url.line⟩
    change ∀ c ∈ urlKey, _
    exact List.all_iff_forall_prop.1 (by decide)
  intro s hs
  rcases List.mem_append.1 hs with hs | hs
  · exact git.plain s (List.mem_append_left _ hs)
  · rcases List.mem_cons.1 hs with rfl | hs
    · have hline : ∀ c ∈ "remote \"origin\"".toList, isLineBreak c = false :=
        List.all_iff_forall_prop.1 (by decide)
      refine ⟨hline, fun e he => ?_⟩
      rcases List.mem_cons.1 he with rfl | he
      · exact hurl
      · exact git.restPlain e he
    · exact git.plain s (List.mem_append_right _ hs)

theorem originEntry_cloned (git : Git) (url : Url) : originEntry (git.cloned url) = some (urlEntry url) := by
  have hbefore : git.before.filter (fun s => s.title = originTitle) = [] :=
    List.filter_eq_nil_iff.2 fun s hs => by simpa using git.apart s hs
  unfold originEntry Git.cloned
  rw [List.filter_append, hbefore, List.nil_append, List.filter_cons_of_pos rfl, List.flatMap_cons]
  rfl

/-- a clone is taken for a clone of its own URL, and of no other -/
theorem cloneUrlMatches_iff (git : Git) (u v : Url) :
    cloneUrlMatches (some (render (git.cloned u))) v.text = true ↔ u = v := by
  have hurl : originUrl false (splitLines [] (render (git.cloned u))) = some u.text := by
    rw [originUrl_render (plain_cloned git u), originEntry_cloned]
    rfl
  rw [cloneUrlMatches, hurl, decide_eq_true_eq, Option.some.injEq]
  constructor
  · exact Url.ext_text
  · intro h
    rw [h]

/-! ## Builds -/

/-- an entry of the clone directory, the URL from which it came, and whether the patcher has made it -/
structure Item where
  name : String
  of : Url
  made : Bool

structure Tree where
  /-- the text of `.git/config` -/
  config : Option (List Char)
  items : List Item

/-- the commands that change the directory -/
inductive Cmd where
  | rm
  | clone
  | patch
deriving DecidableEq

inductive Pc where
  | start
  | flock
  | check
  | removing
  | cloning
  | patching
  | building
  | done
  /-- the process was killed, and its command goes on -/
  | orphan (cmd : Cmd)
deriving DecidableEq

/-- the command that runs -/
def Pc.cmd : Pc → Option Cmd
  | .removing => some .rm
  | .cloning => some .clone
  | .patching => some .patch
  | .orphan cmd => some cmd
  | _ => none

/-- where the process is once it is killed -/
def Pc.killed (pc : Pc) : Pc := (pc.cmd.map Pc.orphan).getD .done

/-- `wrote` are the files that the `git clone` of a process has written, `none` for `.git/config`; `cut` is ghost data: the last
rewriting of the directory was cut short, or `rm` failed -/
structure Sys (ι : Type) where
  tree : Tree
  lock : Lock ι
  pc : ι → Pc
  wrote : ι → List (Option String)
  cut : Bool

inductive Act where
  /-- the next statement -/
  | go
  | removeConfig
  | remove (name : String)
  | writeConfig
  | write (name : String)
  | patch (name : String)
  /-- the command fails -/
  | fail
  /-- the process ends, and its command with it -/
  | stop
  /-- the process ends alone -/
  | kill
deriving DecidableEq

def Pc.locked : Pc → Bool
  | .check | .removing | .cloning | .patching => true
  | _ => false

def Pc.isOrphan : Pc → Bool
  | .orphan _ => true
  | _ => false

/-- the process, or what it has left, has to do with the directory -/
def Pc.busy (pc : Pc) : Bool := pc.locked || pc.isOrphan

/-- the directory is being rewritten -/
def Pc.rewrites (pc : Pc) : Bool := pc.cmd = some .rm || pc.cmd = some .clone

variable {ι : Type}

/-! ## Steps -/

section Step

variable [DecidableEq ι]

def Sys.goto (s : Sys ι) (i : ι) (pc : Pc) : Sys ι := { s with pc := Function.update s.pc i pc }

/-- the process closes the lock file, and goes on at `pc` -/
def Sys.leave (s : Sys ι) (i : ι) (pc : Pc) : Sys ι := { s.goto i pc with lock := release s.lock i }

variable [Fintype ι] (git : Git) (repo : Url → List String) (url : ι → Url)

def Tree.whole (t : Tree) (names : List String) : Bool := names.all fun name => t.items.any fun item => item.name = name

/-- what a `git clone` writes -/
def cloneFiles (u : Url) : List (Option String) := none :: (repo u).map some

def Sys.go (s : Sys ι) (i : ι) : Sys ι :=
  match s.pc i with
  | .start => { s.goto i .flock with lock := openFile s.lock i }
  | .flock => if Grantable s.lock i .ex then { s.goto i .check with lock := grant s.lock i .ex } else s
  | .check => if cloneUrlMatches s.tree.config (url i).text then s.goto i .patching else s.goto i .removing
  | .removing =>
    if s.tree.config = none ∧ s.tree.items.isEmpty then { s.goto i .cloning with wrote := Function.update s.wrote i [] } else s
  | .cloning => if (cloneFiles repo (url i)).all (· ∈ s.wrote i) then { s.goto i .patching with cut := false } else s
  | .patching => s.leave i .building
  | .building => s.goto i .done
  | .done => s
  | .orphan _ => { s.goto i .done with cut := s.cut || (s.pc i).rewrites }

/-- a `rm` that fails leaves what it has not removed, a `git clone` that fails leaves nothing -/
def Sys.fail (s : Sys ι) (i : ι) : Sys ι :=
  match (s.pc i).cmd with
  | some .rm => { s.leave i .done with cut := true }
  | some .clone => { s.leave i .done with tree := ⟨none, []⟩ }
  | _ => s.leave i .done

def step (s : Sys ι) : ι × Act → Sys ι
  | (i, .go) => s.go repo url i
  | (i, .removeConfig) => if (s.pc i).cmd = some .rm then { s with tree := { s.tree with config := none } } else s
  | (i, .remove name) =>
    if (s.pc i).cmd = some .rm then
      { s with tree := { s.tree with items := s.tree.items.filter fun item => item.name ≠ name } }
    else s
  | (i, .writeConfig) =>
    if (s.pc i).cmd = some .clone then
      { s with
        tree := { s.tree with config := some (render (git.cloned (url i))) }
        wrote := Function.update s.wrote i (none :: s.wrote i) }
    else s
  | (i, .write name) =>
    if (s.pc i).cmd = some .clone ∧ name ∈ repo (url i) then
      { s with
        tree := { s.tree with items := ⟨name, url i, false⟩ :: s.tree.items }
        wrote := Function.update s.wrote i (some name :: s.wrote i) }
    else s
  | (i, .patch name) =>
    if (s.pc i).cmd = some .patch then { s with tree := { s.tree with items := ⟨name, url i, true⟩ :: s.tree.items } } else s
  | (i, .fail) => s.fail i
  | (i, .stop) => { s.leave i .done with cut := s.cut || (s.pc i).rewrites }
  | (i, .kill) => { s.leave i (s.pc i).killed with cut := s.cut || (s.pc i).rewrites }

/-- nobody gets the lock while a command that was left behind still runs -/
def Waits (s : Sys ι) (a : ι × Act) : Prop := a.2 = .go → s.pc a.1 = .flock → ∀ j, (s.pc j).isOrphan = false

instance (s : Sys ι) : DecidablePred (Waits s) := fun a => by
  unfold Waits
  infer_instance

end Step

/-- no build has ever run; a lock file may be there -/
def start (file : Option ℕ) : Sys ι :=
  ⟨⟨none, []⟩, ⟨file, (file.map Nat.succ).getD 0, fun _ => none, fun _ => none⟩, fun _ => .start, fun _ => [], false⟩

/-! ## The lock -/

/-- the lock file stays, so that everybody has the same one open -/
structure Locked (s : Sys ι) : Prop where
  lock : Flock.Inv s.lock
  current : ∀ i, (s.lock.fd i).isSome = true → Current s.lock i
  held : ∀ i, s.lock.held i = if (s.pc i).locked then some .ex else none

section Locked

variable {s : Sys ι} {i : ι}

theorem Locked.sole (h : Locked s) {i j : ι} (hi : (s.pc i).locked = true) (hj : (s.pc j).locked = true) : i = j := by
  by_contra hij
  have hheld : s.lock.held i = some .ex := (h.held i).trans (if_pos hi)
  have hnone := sole_of_current h.lock (fun k hk => h.current k (h.lock.holds k hk)) hheld (Ne.symm hij)
  rw [h.held j, if_pos hj] at hnone
  cases hnone

theorem Locked.congr {t : Sys ι} (h : Locked s) (hlock : t.lock = s.lock) (hpc : t.pc = s.pc) : Locked t :=
  ⟨hlock ▸ h.lock, hlock ▸ h.current, by rw [hlock, hpc]; exact h.held⟩

variable [DecidableEq ι]

theorem Locked.goto (h : Locked s) {q : Pc} (hpc : q.locked = (s.pc i).locked) : Locked (s.goto i q) := by
  refine ⟨h.lock, h.current, fun j => ?_⟩
  change s.lock.held j = if (Function.update s.pc i q j).locked then some .ex else none
  by_cases hj : j = i
  · rw [hj, Function.update_self, hpc]
    exact h.held i
  · rw [Function.update_of_ne hj]
    exact h.held j

theorem Locked.leave (h : Locked s) {q : Pc} (hpc : q.locked = false) : Locked (s.leave i q) := by
  refine ⟨release_inv h.lock, fun j hj => ?_, fun j => ?_⟩
  · by_cases hji : j = i
    · rw [hji] at hj
      simp [Sys.leave, release] at hj
    · have hfd : (s.leave i q).lock.fd j = s.lock.fd j := Function.update_of_ne hji _ _
      rw [hfd] at hj
      exact hfd.trans (h.current j hj)
  · change Function.update s.lock.held i none j = if (Function.update s.pc i q j).locked then some .ex else none
    by_cases hji : j = i
    · rw [hji, Function.update_self, Function.update_self, hpc]
      rfl
    · rw [Function.update_of_ne hji, Function.update_of_ne hji]
      exact h.held j

theorem Locked.openLock (h : Locked s) (hpc : s.pc i = .start) :
    Locked { s.goto i .flock with lock := openFile s.lock i } := by
  have hnone : s.lock.held i = none := by
    rw [h.held i, hpc]
    rfl
  refine ⟨openFile_inv h.lock hnone, fun j hj => ?_, (h.goto (i := i) (q := .flock) (by rw [hpc]; rfl)).held⟩
  by_cases hji : j = i
  · rw [hji]
    exact Function.update_self _ _ _
  · have hfd : (openFile s.lock i).fd j = s.lock.fd j := Function.update_of_ne hji _ _
    change ((openFile s.lock i).fd j).isSome = true at hj
    rw [hfd] at hj
    have hcur : s.lock.fd j = s.lock.file := h.current j hj
    obtain ⟨n, hn⟩ := Option.isSome_iff_exists.1 hj
    refine hfd.trans ?_
    rw [hcur] at hn
    rw [hcur, hn]
    simp [openFile, hn]

theorem Locked.grant (h : Locked s) (hg : Grantable s.lock i .ex) :
    Locked { s.goto i .check with lock := grant s.lock i .ex } := by
  refine ⟨grant_inv h.lock hg, h.current, fun j => ?_⟩
  change Function.update s.lock.held i (some .ex) j = if (Function.update s.pc i Pc.check j).locked then some .ex else none
  by_cases hji : j = i
  · rw [hji, Function.update_self, Function.update_self]
    rfl
  · rw [Function.update_of_ne hji, Function.update_of_ne hji]
    exact h.held j

end Locked

/-! ## The commands that are left behind -/

theorem Pc.busy_of_cmd {pc : Pc} (h : pc.cmd.isSome = true) : pc.busy = true := by
  cases pc <;> first | rfl | cases h

theorem Pc.busy_of_rewrites {pc : Pc} (h : pc.rewrites = true) : pc.busy = true := by
  cases pc <;> first | rfl | cases h

theorem Pc.busy_killed {pc : Pc} (h : pc.killed.busy = true) : pc.busy = true := by
  cases pc <;> first | rfl | cases h

theorem Pc.killed_ne (pc : Pc) : pc.killed ≠ .cloning ∧ pc.killed ≠ .patching := by
  cases pc <;> exact ⟨fun h => (nomatch h), fun h => (nomatch h)⟩

theorem Pc.killed_cmd (pc : Pc) : pc.killed.cmd = none ∨ pc.killed.cmd = pc.cmd ∨ pc.killed.cmd = some .rm := by
  cases pc <;> first | exact .inl rfl | exact .inr (.inl rfl)

theorem Pc.rewrites_killed (pc : Pc) : pc.killed.rewrites = pc.rewrites := by
  cases pc <;> rfl

theorem Pc.locked_killed (pc : Pc) : pc.killed.locked = false := by
  cases pc <;> rfl

theorem Pc.rewrites_of_cmd {pc : Pc} {cmd : Cmd} (h : pc.cmd = some cmd) (hcmd : cmd ≠ .patch) : pc.rewrites = true := by
  unfold Pc.rewrites
  rw [h]
  cases cmd <;> first | rfl | exact absurd rfl hcmd

/-- at most one process, with what it leaves behind, has to do with the directory -/
def Alone (s : Sys ι) : Prop := ∀ i j, (s.pc i).busy = true → (s.pc j).busy = true → i = j

section Alone

variable {s : Sys ι} {i : ι}

/-- while one of them does not rewrite the directory, nobody does -/
theorem Alone.no_rewrites (h : Alone s) (hi : (s.pc i).busy = true) (hnot : (s.pc i).rewrites = false) (j : ι) :
    (s.pc j).rewrites = false := by
  by_contra hj
  rw [Bool.not_eq_false] at hj
  rw [h j i (Pc.busy_of_rewrites hj) hi, hnot] at hj
  cases hj

variable [DecidableEq ι]

/-- a process moves, and has to do with the directory only if it had -/
theorem Alone.move (h : Alone s) {t : Sys ι} {q : Pc} (hpc : t.pc = Function.update s.pc i q)
    (hbusy : q.busy = true → (s.pc i).busy = true) : Alone t := by
  have hback : ∀ j, (t.pc j).busy = true → (s.pc j).busy = true := by
    intro j hj
    rw [hpc] at hj
    by_cases hji : j = i
    · rw [hji, Function.update_self] at hj
      rw [hji]
      exact hbusy hj
    · rwa [Function.update_of_ne hji] at hj
  exact fun j k hj hk => h j k (hback j hj) (hback k hk)

/-- the lock is given to a process while no command is left behind -/
theorem Alone.enter (hlocked : Locked s) (hg : Grantable s.lock i .ex) (hwaits : ∀ j, (s.pc j).isOrphan = false) {t : Sys ι} {q : Pc}
    (hpc : t.pc = Function.update s.pc i q) : Alone t := by
  have hfree : ∀ j, j ≠ i → (s.pc j).busy = false := by
    intro j hji
    rw [Pc.busy, hwaits j, Bool.or_false]
    by_contra hj
    rw [Bool.not_eq_false] at hj
    have hheld : s.lock.held j = some .ex := (hlocked.held j).trans (if_pos hj)
    have hsame : s.lock.fd j = s.lock.fd i := by
      rw [hlocked.current j (hlocked.lock.holds j (by rw [hheld]; rfl)), hlocked.current i hg.1]
    rcases hg.2 j hji hsame with hnone | ⟨hmode, -⟩
    · rw [hnone] at hheld
      cases hheld
    · cases hmode
  have hself : ∀ j, (t.pc j).busy = true → j = i := by
    intro j hj
    by_contra hji
    rw [hpc, Function.update_of_ne hji, hfree j hji] at hj
    cases hj
  exact fun j k hj hk => (hself j hj).trans (hself k hk).symm

end Alone

/-! ## The directory -/

section Kept

variable (git : Git) (repo : Url → List String) (url : ι → Url)

/-- nothing in the directory comes from another URL -/
def Tree.Of (t : Tree) (u : Url) : Prop :=
  (∀ item ∈ t.items, item.of = u) ∧ ∀ text, t.config = some text → text = render (git.cloned u)

/-- what a `git clone` has written is there -/
def Sys.Wrote (s : Sys ι) (i : ι) : Prop :=
  (none ∈ s.wrote i → s.tree.config.isSome = true) ∧ ∀ name, some name ∈ s.wrote i → ∃ item ∈ s.tree.items, item.name = name

structure Kept (s : Sys ι) (u : Url) : Prop where
  of : s.tree.Of git u
  mine : ∀ i, (s.pc i).cmd = some .clone ∨ (s.pc i).cmd = some .patch → url i = u
  wrote : ∀ i, s.pc i = .cloning → s.Wrote i
  config : ∀ i, s.pc i = .patching → s.tree.config.isSome = true
  whole : s.cut = false → (∀ i, (s.pc i).rewrites = false) → s.tree.config.isSome = true → s.tree.whole (repo u) = true

theorem kept_start (file : Option ℕ) (u : Url) : Kept git repo url (start file) u := by
  refine ⟨⟨fun _ h => absurd h List.not_mem_nil, fun _ h => (nomatch h)⟩, fun _ h => ?_, fun _ h => (nomatch h), fun _ h => (nomatch h),
    fun _ _ h => (nomatch h)⟩
  rcases h with h | h <;> cases h

variable {git repo url} {s : Sys ι} {u : Url} {i : ι}

/-- a `git clone` that has written all its files is done -/
theorem whole_of_wrote (h : s.Wrote i) (hall : (cloneFiles repo (url i)).all (· ∈ s.wrote i) = true) :
    s.tree.config.isSome = true ∧ s.tree.whole (repo (url i)) = true := by
  have hmem := List.all_eq_true.1 hall
  refine ⟨h.1 (of_decide_eq_true (hmem none List.mem_cons_self)), List.all_eq_true.2 fun name hname => ?_⟩
  obtain ⟨item, hitem, heq⟩ := h.2 name (of_decide_eq_true (hmem _ (List.mem_cons_of_mem _ (List.mem_map_of_mem hname))))
  exact List.any_eq_true.2 ⟨item, hitem, decide_eq_true heq⟩

variable [DecidableEq ι]

/-- a process goes on without a change of the directory, and does not begin to clone or to patch -/
theorem Kept.move (h : Kept git repo url s u) {t : Sys ι} {pc : Pc} (htree : t.tree = s.tree) (hwrote : t.wrote = s.wrote)
    (hpc : t.pc = Function.update s.pc i pc) (hcut : t.cut = false → s.cut = false)
    (hnot : pc ≠ .cloning ∧ pc ≠ .patching) (hcmd : pc.cmd = none ∨ pc.cmd = (s.pc i).cmd ∨ pc.cmd = some .rm)
    (hrewrites : t.cut = false → (s.pc i).rewrites = true → pc.rewrites = true) : Kept git repo url t u := by
  have hat : ∀ {j : ι} {pc' : Pc}, pc' ≠ pc → t.pc j = pc' → s.pc j = pc' := by
    intro j pc' hne hj
    rw [hpc] at hj
    by_cases hji : j = i
    · rw [hji, Function.update_self] at hj
      exact absurd hj.symm hne
    · rwa [Function.update_of_ne hji] at hj
  have hback : ∀ {j : ι} {cmd : Cmd}, cmd ≠ .rm → (t.pc j).cmd = some cmd → (s.pc j).cmd = some cmd := by
    intro j cmd hne hj
    rw [hpc] at hj
    by_cases hji : j = i
    · rw [hji, Function.update_self] at hj
      rw [hji]
      rcases hcmd with hcmd | hcmd | hcmd
      · rw [hj] at hcmd
        cases hcmd
      · rw [← hcmd, hj]
      · rw [hj] at hcmd
        exact absurd (Option.some.inj hcmd) hne
    · rwa [Function.update_of_ne hji] at hj
  refine ⟨htree ▸ h.of, fun j hj => h.mine j ?_, fun j hj => ?_, fun j hj => ?_, fun hc hr hconfig => ?_⟩
  · exact hj.imp (hback (by decide)) (hback (by decide))
  · unfold Sys.Wrote
    rw [htree, hwrote]
    exact h.wrote j (hat hnot.1.symm hj)
  · rw [htree]
    exact h.config j (hat hnot.2.symm hj)
  · rw [htree] at hconfig ⊢
    refine h.whole (hcut hc) (fun j => ?_) hconfig
    have hj := hr j
    rw [hpc] at hj
    by_cases hji : j = i
    · rw [hji, Function.update_self] at hj
      rw [hji]
      by_contra hcon
      rw [hrewrites hc (Bool.not_eq_false _ ▸ hcon)] at hj
      cases hj
    · rwa [Function.update_of_ne hji] at hj

/-- a clone that matches is one of the URL that is asked for -/
theorem Tree.Of.url_eq {t : Tree} {v : Url} (h : t.Of git u) (hmatch : cloneUrlMatches t.config v.text = true) :
    v = u ∧ t.config.isSome = true := by
  cases hconfig : t.config with
  | none => rw [hconfig] at hmatch; cases hmatch
  | some text =>
    rw [hconfig, h.2 text hconfig] at hmatch
    exact ⟨((cloneUrlMatches_iff git u v).1 hmatch).symm, rfl⟩

theorem Tree.Of.config_eq {t : Tree} (h : t.Of git u) (hsome : t.config.isSome = true) :
    t.config = some (render (git.cloned u)) := by
  obtain ⟨text, htext⟩ := Option.isSome_iff_exists.1 hsome
  rw [htext, h.2 text htext]

/-- the one process that has to do with the directory goes on at `pc`, with a directory of its URL -/
theorem Kept.own (halone : Alone s) (hi : (s.pc i).busy = true) {t : Sys ι} {pc : Pc}
    (hpc : t.pc = Function.update s.pc i pc) (hof : t.tree.Of git (url i)) (hwrote : pc = .cloning → t.Wrote i)
    (hconfig : pc = .patching → t.tree.config.isSome = true)
    (hwhole : t.cut = false → pc.rewrites = false → t.tree.config.isSome = true → t.tree.whole (repo (url i)) = true) :
    Kept git repo url t (url i) := by
  have hsole : ∀ {j : ι}, j ≠ i → (t.pc j).busy = false := by
    intro j hji
    rw [hpc, Function.update_of_ne hji]
    by_contra hj
    exact hji (halone j i (Bool.not_eq_false _ ▸ hj) hi)
  have hself : t.pc i = pc := by rw [hpc, Function.update_self]
  refine ⟨hof, fun j hj => ?_, fun j hj => ?_, fun j hj => ?_, fun hc hr hsome => hwhole hc (hself ▸ hr i) hsome⟩
  · by_cases hji : j = i
    · rw [hji]
    · have hfalse := hsole hji
      rw [Pc.busy_of_cmd (by rcases hj with hj | hj <;> rw [hj] <;> rfl)] at hfalse
      cases hfalse
  · by_cases hji : j = i
    · rw [hji, hself] at hj
      rw [hji]
      exact hwrote hj
    · have hfalse := hsole hji
      rw [hj] at hfalse
      cases hfalse
  · by_cases hji : j = i
    · rw [hji, hself] at hj
      exact hconfig hj
    · have hfalse := hsole hji
      rw [hj] at hfalse
      cases hfalse

theorem Tree.whole_cons {t : Tree} {names : List String} (item : Item) (h : t.whole names = true) :
    ({ t with items := item :: t.items } : Tree).whole names = true := by
  refine List.all_eq_true.2 fun name hname => ?_
  have hany := List.all_eq_true.1 h name hname
  rw [List.any_cons, hany, Bool.or_true]

theorem Tree.Of.cons {t : Tree} (h : t.Of git u) (name : String) (made : Bool) :
    ({ t with items := ⟨name, u, made⟩ :: t.items } : Tree).Of git u := by
  refine ⟨fun item hitem => ?_, h.2⟩
  rcases List.mem_cons.1 hitem with rfl | hitem
  · rfl
  · exact h.1 item hitem

variable [Fintype ι]

theorem kept_go (halone : Alone s) (h : Kept git repo url s u) : ∃ v, Kept git repo url (s.go repo url i) v := by
  unfold Sys.go
  split
  · rename_i hpc
    exact ⟨u, h.move rfl rfl rfl id (by decide) (.inl rfl) fun _ hr => by rw [hpc] at hr; cases hr⟩
  · rename_i hpc
    split_ifs
    · exact ⟨u, h.move rfl rfl rfl id (by decide) (.inl rfl) fun _ hr => by rw [hpc] at hr; cases hr⟩
    · exact ⟨u, h⟩
  · rename_i hpc
    have hi : (s.pc i).busy = true := by rw [hpc]; rfl
    split_ifs with hmatch
    · obtain ⟨hu, hsome⟩ := h.of.url_eq hmatch
      have hrewrites := halone.no_rewrites hi (by rw [hpc]; rfl)
      refine ⟨url i, Kept.own halone hi rfl (hu ▸ h.of) (fun hc => nomatch hc) (fun _ => hsome) fun hcut _ hc => ?_⟩
      rw [hu]
      exact h.whole hcut hrewrites hc
    · exact ⟨u, h.move rfl rfl rfl id (by decide) (.inr (.inr rfl)) fun _ _ => rfl⟩
  · rename_i hpc
    have hi : (s.pc i).busy = true := by rw [hpc]; rfl
    split_ifs with hempty
    · refine ⟨url i, Kept.own halone hi rfl ⟨fun item hitem => ?_, fun text htext => ?_⟩ (fun _ => ⟨fun hc => ?_, fun name hc => ?_⟩)
        (fun hc => nomatch hc) fun _ hc => nomatch hc⟩
      · have hnil := List.isEmpty_iff.1 hempty.2
        change item ∈ s.tree.items at hitem
        rw [hnil] at hitem
        cases hitem
      · change s.tree.config = some text at htext
        rw [hempty.1] at htext
        cases htext
      · change none ∈ Function.update s.wrote i [] i at hc
        rw [Function.update_self] at hc
        cases hc
      · change some name ∈ Function.update s.wrote i [] i at hc
        rw [Function.update_self] at hc
        cases hc
    · exact ⟨u, h⟩
  · rename_i hpc
    have hi : (s.pc i).busy = true := by rw [hpc]; rfl
    have hu := h.mine i (Or.inl (by rw [hpc]; rfl))
    split_ifs with hall
    · obtain ⟨hsome, hwhole⟩ := whole_of_wrote (h.wrote i hpc) hall
      exact ⟨url i, Kept.own halone hi rfl (hu ▸ h.of) (fun hc => nomatch hc) (fun _ => hsome) fun _ _ _ => hwhole⟩
    · exact ⟨u, h⟩
  · rename_i hpc
    exact ⟨u, h.move rfl rfl rfl id (by decide) (.inl rfl) fun _ hr => by rw [hpc] at hr; cases hr⟩
  · rename_i hpc
    exact ⟨u, h.move rfl rfl rfl id (by decide) (.inl rfl) fun _ hr => by rw [hpc] at hr; cases hr⟩
  · exact ⟨u, h⟩
  · refine ⟨u, h.move rfl rfl rfl (fun hc => (Bool.or_eq_false_iff.1 hc).1) (by decide) (.inl rfl) fun hc hr => ?_⟩
    rw [(Bool.or_eq_false_iff.1 hc).2] at hr
    cases hr

theorem alone_go (hlocked : Locked s) (h : Alone s) (hwaits : s.pc i = .flock → ∀ j, (s.pc j).isOrphan = false) :
    Alone (s.go repo url i) := by
  unfold Sys.go
  split
  · exact h.move (i := i) (q := .flock) rfl fun hb => nomatch hb
  · rename_i hpc
    split_ifs with hg
    · exact Alone.enter hlocked hg (hwaits hpc) (q := .check) rfl
    · exact h
  · rename_i hpc
    split_ifs
    · exact h.move (i := i) (q := .patching) rfl fun _ => by rw [hpc]; rfl
    · exact h.move (i := i) (q := .removing) rfl fun _ => by rw [hpc]; rfl
  · rename_i hpc
    split_ifs
    · exact h.move (i := i) (q := .cloning) rfl fun _ => by rw [hpc]; rfl
    · exact h
  · rename_i hpc
    split_ifs
    · exact h.move (i := i) (q := .patching) rfl fun _ => by rw [hpc]; rfl
    · exact h
  · exact h.move (i := i) (q := .building) rfl fun hb => nomatch hb
  · exact h.move (i := i) (q := .done) rfl fun hb => nomatch hb
  · exact h
  · exact h.move (i := i) (q := .done) rfl fun hb => nomatch hb

theorem locked_go (h : Locked s) : Locked (s.go repo url i) := by
  unfold Sys.go
  split
  · rename_i hpc
    exact h.openLock hpc
  · split_ifs with hg
    · exact h.grant hg
    · exact h
  · rename_i hpc
    split_ifs <;> exact h.goto (by rw [hpc]; rfl)
  · rename_i hpc
    split_ifs
    · exact (h.goto (i := i) (q := .cloning) (by rw [hpc]; rfl)).congr rfl rfl
    · exact h
  · rename_i hpc
    split_ifs
    · exact (h.goto (i := i) (q := .patching) (by rw [hpc]; rfl)).congr rfl rfl
    · exact h
  · exact h.leave rfl
  · rename_i hpc
    exact h.goto (by rw [hpc]; rfl)
  · exact h
  · rename_i hpc
    exact (h.goto (i := i) (q := .done) (by rw [hpc]; rfl)).congr rfl rfl

theorem locked_step (h : Locked s) (a : ι × Act) : Locked (step git repo url s a) := by
  obtain ⟨i, a⟩ := a
  unfold step
  cases a with
  | go => exact locked_go h
  | fail =>
    unfold Sys.fail
    simp only
    split
    · exact (h.leave (i := i) (q := .done) rfl).congr rfl rfl
    · exact (h.leave (i := i) (q := .done) rfl).congr rfl rfl
    · exact h.leave rfl
  | stop => exact (h.leave (i := i) (q := .done) rfl).congr rfl rfl
  | kill => exact (h.leave (i := i) (Pc.locked_killed (s.pc i))).congr rfl rfl
  | _ =>
    simp only
    split_ifs
    · exact h.congr rfl rfl
    · exact h

theorem alone_step (hlocked : Locked s) (h : Alone s) (a : ι × Act) (hwaits : Waits s a) : Alone (step git repo url s a) := by
  obtain ⟨i, a⟩ := a
  unfold step
  cases a with
  | go => exact alone_go hlocked h (hwaits rfl)
  | fail =>
    unfold Sys.fail
    simp only
    split <;> exact h.move (i := i) (q := .done) rfl fun hb => nomatch hb
  | stop => exact h.move (i := i) (q := .done) rfl fun hb => nomatch hb
  | kill => exact h.move (i := i) rfl Pc.busy_killed
  | _ =>
    simp only
    split_ifs
    · exact h
    · exact h

theorem kept_step (halone : Alone s) (h : Kept git repo url s u) (a : ι × Act) : ∃ v, Kept git repo url (step git repo url s a) v := by
  obtain ⟨i, a⟩ := a
  have hbusy : ∀ {j cmd}, (s.pc j).cmd = some cmd → (s.pc j).busy = true := fun hcmd => Pc.busy_of_cmd (by rw [hcmd]; rfl)
  unfold step
  cases a with
  | go => exact kept_go halone h
  | removeConfig =>
    simp only
    split_ifs with hcmd
    · -- nobody clones or patches
      have hother : ∀ {j q}, s.pc j = q → q.cmd.isSome = true → (s.pc i).cmd = q.cmd := by
        intro j q hj hsome
        rw [halone i j (hbusy hcmd) (Pc.busy_of_cmd (by rw [hj]; exact hsome)), hj]
      refine ⟨u, ⟨h.of.1, fun _ hc => nomatch hc⟩, h.mine, fun j hj => ?_, fun j hj => ?_, fun _ _ hc => nomatch hc⟩
      · have hclone := hother (q := .cloning) hj rfl
        rw [hcmd] at hclone
        cases hclone
      · have hpatch := hother (q := .patching) hj rfl
        rw [hcmd] at hpatch
        cases hpatch
    · exact ⟨u, h⟩
  | remove name =>
    simp only
    split_ifs with hcmd
    · refine ⟨u, ⟨fun item hitem => h.of.1 item (List.mem_filter.1 hitem).1, h.of.2⟩, h.mine, fun j hj => ?_, h.config, fun _ hr => ?_⟩
      · have hclone : (s.pc j).cmd = some .clone := by
          change s.pc j = _ at hj
          rw [hj]
          rfl
        rw [halone i j (hbusy hcmd) (hbusy hclone), hclone] at hcmd
        cases hcmd
      · have hi : (s.pc i).rewrites = false := hr i
        rw [Pc.rewrites_of_cmd hcmd (by decide)] at hi
        cases hi
    · exact ⟨u, h⟩
  | writeConfig =>
    simp only
    split_ifs with hcmd
    · have hu := h.mine i (Or.inl hcmd)
      refine ⟨url i, Kept.own halone (hbusy hcmd) (Function.update_eq_self i s.pc).symm ⟨hu ▸ h.of.1, fun text htext => ?_⟩
        (fun hpc => ⟨fun _ => rfl, fun name hname => ?_⟩) (fun hpc => ?_) fun _ hr => ?_⟩
      · cases htext
        rfl
      · change some name ∈ Function.update s.wrote i (none :: s.wrote i) i at hname
        rw [Function.update_self] at hname
        exact (h.wrote i hpc).2 name ((List.mem_cons.1 hname).resolve_left fun heq => nomatch heq)
      · rw [hpc] at hcmd
        cases hcmd
      · rw [Pc.rewrites_of_cmd hcmd (by decide)] at hr
        cases hr
    · exact ⟨u, h⟩
  | write name =>
    simp only
    split_ifs with hcmd
    · have hu := h.mine i (Or.inl hcmd.1)
      refine ⟨url i, Kept.own halone (hbusy hcmd.1) (Function.update_eq_self i s.pc).symm ?_
        (fun hpc => ⟨fun hconfig => ?_, fun x hx => ?_⟩) (fun hpc => ?_) fun _ hr => ?_⟩
      · rw [hu]
        exact h.of.cons name false
      · change none ∈ Function.update s.wrote i (some name :: s.wrote i) i at hconfig
        rw [Function.update_self] at hconfig
        exact (h.wrote i hpc).1 ((List.mem_cons.1 hconfig).resolve_left fun heq => nomatch heq)
      · change some x ∈ Function.update s.wrote i (some name :: s.wrote i) i at hx
        rw [Function.update_self] at hx
        rcases List.mem_cons.1 hx with heq | hx
        · exact ⟨_, List.mem_cons_self, (Option.some.inj heq).symm⟩
        · obtain ⟨item, hitem, heq⟩ := (h.wrote i hpc).2 x hx
          exact ⟨item, List.mem_cons_of_mem _ hitem, heq⟩
      · rw [hpc] at hcmd
        cases hcmd.1
      · rw [Pc.rewrites_of_cmd hcmd.1 (by decide)] at hr
        cases hr
    · exact ⟨u, h⟩
  | patch name =>
    simp only
    split_ifs with hcmd
    · have hu := h.mine i (Or.inr hcmd)
      have hcalm : (s.pc i).rewrites = false := by
        unfold Pc.rewrites
        rw [hcmd]
        rfl
      refine ⟨url i, Kept.own halone (hbusy hcmd) (Function.update_eq_self i s.pc).symm ?_ (fun hpc => ?_) (fun hpc => h.config i hpc)
        fun hcut _ hsome => ?_⟩
      · rw [hu]
        exact h.of.cons name true
      · rw [hpc] at hcmd
        cases hcmd
      · refine Tree.whole_cons _ ?_
        rw [hu]
        exact h.whole hcut (halone.no_rewrites (hbusy hcmd) hcalm) hsome
    · exact ⟨u, h⟩
  | fail =>
    unfold Sys.fail
    simp only
    split
    · exact ⟨u, h.move rfl rfl rfl (fun hc => nomatch hc) (by decide) (.inl rfl) fun hc => nomatch hc⟩
    · rename_i hcmd
      exact ⟨url i, Kept.own halone (hbusy hcmd) rfl ⟨fun _ hc => absurd hc List.not_mem_nil, fun _ hc => nomatch hc⟩
        (fun hc => nomatch hc) (fun hc => nomatch hc) fun _ _ hc => nomatch hc⟩
    · rename_i hrm hclone
      refine ⟨u, h.move rfl rfl rfl id (by decide) (.inl rfl) fun _ hr => ?_⟩
      rcases Bool.or_eq_true_iff.1 hr with hr | hr
      · exact (hrm (of_decide_eq_true hr)).elim
      · exact (hclone (of_decide_eq_true hr)).elim
  | stop =>
    refine ⟨u, h.move rfl rfl rfl (fun hc => (Bool.or_eq_false_iff.1 hc).1) (by decide) (.inl rfl) fun hc hr => ?_⟩
    rw [(Bool.or_eq_false_iff.1 hc).2] at hr
    cases hr
  | kill =>
    refine ⟨u, h.move rfl rfl rfl (fun hc => (Bool.or_eq_false_iff.1 hc).1) (Pc.killed_ne _) (Pc.killed_cmd _) fun hc hr => ?_⟩
    rw [(Bool.or_eq_false_iff.1 hc).2] at hr
    cases hr

end Kept

/-! ## Runs -/

theorem locked_start (file : Option ℕ) : Locked (start file : Sys ι) :=
  ⟨⟨fun _ h => (nomatch h), fun _ _ _ _ _ _ h => (nomatch h)⟩, fun _ h => (nomatch h), fun _ => rfl⟩

theorem alone_start (file : Option ℕ) : Alone (start file : Sys ι) := fun _ _ h => (nomatch h)

section Runs

variable [DecidableEq ι] [Fintype ι] {git : Git} {repo : Url → List String} {url : ι → Url}

theorem run_kept (git : Git) (repo : Url → List String) (url : ι → Url) (file : Option ℕ) {acts : List (ι × Act)}
    (h : Always (step git repo url) Waits (start file) acts) :
    let s := acts.foldl (step git repo url) (start file)
    Locked s ∧ Alone s ∧ ∃ u, Kept git repo url s u := by
  have hempty : ∃ u, Kept git repo url (start file) u :=
    ⟨⟨[], rfl, fun _ h => absurd h List.not_mem_nil, fun _ h => absurd h List.not_mem_nil⟩, kept_start git repo url file _⟩
  refine run_always (I := fun s => Locked s ∧ Alone s ∧ ∃ u, Kept git repo url s u) (fun s a hs hwaits => ?_)
    ⟨locked_start file, alone_start file, hempty⟩ h
  obtain ⟨hlocked, halone, u, hkept⟩ := hs
  exact ⟨locked_step hlocked a, alone_step hlocked halone a hwaits, kept_step halone hkept a⟩

/-- a process without the lock leaves the directory alone, unless it has left a command behind -/
theorem step_idle {s : Sys ι} {i : ι} (hi : (s.pc i).busy = false) (a : Act) :
    (step git repo url s (i, a)).tree = s.tree := by
  have hnone : (s.pc i).cmd = none := by
    cases hcmd : (s.pc i).cmd with
    | none => rfl
    | some cmd =>
      rw [Pc.busy_of_cmd (by rw [hcmd]; rfl)] at hi
      cases hi
  unfold step
  cases a with
  | go =>
    simp only
    unfold Sys.go
    split <;> first | rfl | (split_ifs <;> rfl)
  | fail =>
    simp only
    unfold Sys.fail
    rw [hnone]
    rfl
  | stop => rfl
  | kill => rfl
  | _ => simp only [hnone, reduceCtorEq, false_and, if_false]

/-- what the builds for one URL keep once the patcher has run -/
structure Settled (git : Git) (u : Url) (before : Tree) (s : Sys ι) : Prop where
  config : s.tree.config = some (render (git.cloned u))
  calm : ∀ j, (s.pc j).rewrites = false
  items : ∀ item ∈ before.items, item ∈ s.tree.items

theorem settled_step {u : Url} {before : Tree} {s : Sys ι} (h : Settled git u before s) {i : ι} (hi : url i = u) (a : Act) :
    Settled git u before (step git repo url s (i, a)) := by
  have hcmd : ∀ {c : Cmd}, c ≠ .patch → (s.pc i).cmd ≠ some c := by
    intro cmd hne heq
    have hcalm := h.calm i
    rw [Pc.rewrites_of_cmd heq hne] at hcalm
    cases hcalm
  have hgoto : ∀ {pc : Pc}, pc.rewrites = false → ∀ j, (Function.update s.pc i pc j).rewrites = false := by
    intro pc hpc j
    by_cases hji : j = i
    · rw [hji, Function.update_self]
      exact hpc
    · rw [Function.update_of_ne hji]
      exact h.calm j
  have hmatch : cloneUrlMatches s.tree.config (url i).text = true := by
    rw [h.config, hi]
    exact (cloneUrlMatches_iff git u u).2 rfl
  unfold step
  cases a with
  | go =>
    simp only
    unfold Sys.go
    split
    · exact ⟨h.config, hgoto rfl, h.items⟩
    · split_ifs
      · exact ⟨h.config, hgoto rfl, h.items⟩
      · exact h
    · rw [if_pos hmatch]
      exact ⟨h.config, hgoto rfl, h.items⟩
    · rename_i hpc
      exact absurd (congrArg Pc.cmd hpc) (hcmd (c := .rm) (by decide))
    · rename_i hpc
      exact absurd (congrArg Pc.cmd hpc) (hcmd (c := .clone) (by decide))
    · exact ⟨h.config, hgoto rfl, h.items⟩
    · exact ⟨h.config, hgoto rfl, h.items⟩
    · exact h
    · exact ⟨h.config, hgoto rfl, h.items⟩
  | fail =>
    simp only
    unfold Sys.fail
    split
    · exact absurd ‹(s.pc i).cmd = some .rm› (hcmd (by decide))
    · exact absurd ‹(s.pc i).cmd = some .clone› (hcmd (by decide))
    · exact ⟨h.config, hgoto rfl, h.items⟩
  | stop => exact ⟨h.config, hgoto rfl, h.items⟩
  | kill => exact ⟨h.config, hgoto (by rw [Pc.rewrites_killed]; exact h.calm i), h.items⟩
  | removeConfig => simp only [if_neg (hcmd (c := .rm) (by decide))]; exact h
  | remove name => simp only [if_neg (hcmd (c := .rm) (by decide))]; exact h
  | writeConfig => simp only [if_neg (hcmd (c := .clone) (by decide))]; exact h
  | write name => simp only [hcmd (c := .clone) (by decide), false_and, if_false]; exact h
  | patch name =>
    simp only
    split_ifs
    · exact ⟨h.config, h.calm, fun item hitem => List.mem_cons_of_mem _ (h.items item hitem)⟩
    · exact h

end Runs

/-! ## Two builds for one URL -/

def sampleText : List Char := "https://host/redroid".toList

theorem sampleText_plain : strip sampleText = sampleText ∧ (∀ c ∈ sampleText, isLineBreak c = false) ∧
    ∀ c ∈ sampleText, c ∉ ['"', '\\', ';', '#', '\t', Char.ofNat 8] :=
  ⟨by decide, List.all_iff_forall_prop.1 (by decide), List.all_iff_forall_prop.1 (by decide)⟩

def sampleUrl : Url := ⟨sampleText, sampleText_plain.1, sampleText_plain.2.1, sampleText_plain.2.2⟩

def sampleGit : Git where
  before := []
  rest := []
  after := []
  plain _ h := absurd h List.not_mem_nil
  restPlain _ h := absurd h List.not_mem_nil
  apart _ h := absurd h List.not_mem_nil

/-- the first build clones and begins to patch -/
def firstBuild : List (Bool × Act) :=
  [(true, .go), (true, .go), (true, .go), (true, .go), (true, .writeConfig), (true, .write "redroid.py"), (true, .go),
    (true, .patch "magisk.zip")]

/-- it is killed, and the second one takes over while the patcher of the first one still runs -/
def secondBuild : List (Bool × Act) :=
  [(false, .go), (false, .go), (true, .kill), (false, .go), (false, .go), (true, .patch "houdini.zip"), (false, .patch "gapps.zip"),
    (false, .go)]

end Beetroot.Build.Clone
