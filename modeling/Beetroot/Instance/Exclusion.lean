/-
Do `snapshot` and the deletions of `destroy` and `reset` exclude each other?

Any number of processes run `snapshot`, `Instance.destroy`, `Instance.reset` and `Instance.create` at one directory.
`instance_lock` makes the directory, opens `.beetroot.lock` in it and takes `flock` on what it has opened, shared for a snapshot
and exclusive for the others; `create` takes no lock. A `snapshot` reads the `beetroot.yaml` once before it takes the lock, for the
manifest. The lock file lies in the directory that `destroy` deletes. A `snapshot`
that opens it after `destroy` has removed it makes a new one, and the two hold locks on different files.

A step is one statement of one process: a precheck, the `mkdir`, the open, the `flock` (a step that changes nothing while it
cannot be granted), one read, one removal, one write; a process may also be killed at any point. Removals come in any order in
which directories are empty when they go.

Results:
- `step_inv`: under `Guarded`, every holder has the file at the path open, or a deletion has removed it and its process is
  the only holder;
- `snapshot_excluded`: in every run in which each step is `Guarded`, no snapshot reads between the first and the last removal of a
  destroy or reset;
- `torn_snapshot`: a run in which a snapshot reads under its lock between two removals of a destroy, and one in which it reads
  before it takes the lock.
-/
import Beetroot.Host
import Beetroot.Lib.Flock
import Beetroot.Lib.Run

namespace Beetroot.Exclusion

open Lib Lib.Fs Flock

/-! ## Processes -/

inductive Verb where
  | snapshot
  | destroy
  | reset
  | create
deriving DecidableEq

inductive Pc where
  | start
  /-- the second precheck of `snapshot` and `create` -/
  | lookup
  /-- `_read_lifecycle` of `snapshot`, without the lock -/
  | lifecycle
  /-- `instance_lock`: `mkdir`, `open`, `flock` -/
  | mkdir
  | openLock
  | flock
  /-- `snapshot`: the archive is written -/
  | reading
  /-- `destroy`: `compose.down` and `registry.remove` -/
  | teardown
  /-- is the directory there? -/
  | rmtree
  /-- `shutil.rmtree`; has anything been removed yet? -/
  | deleting (begun : Bool)
  /-- `create` -/
  | making
  | writing (created : Bool)
  | rollback (created : Bool)
  | done
deriving DecidableEq

/-- the directory with its entries relative to it, the lock file apart; whether its instance is registered; and the processes -/
structure Sys (ι : Type) where
  root : Bool
  tree : List Path
  row : Bool
  lock : Lock ι
  pc : ι → Pc

inductive Act where
  /-- the next statement -/
  | go
  | read (p : Path)
  | remove (p : Path)
  | write (p : Path)
  /-- `add_allocating` -/
  | enlist
  /-- `create` raises in its `try` -/
  | fail
  | kill
deriving DecidableEq

/-- `_INSTANCE_LOCK_FILENAME`, in the directory -/
def lockPath : Path := [".beetroot.lock"]

def dataPath : Path := instanceData []

def Verb.mode : Verb → Mode
  | .snapshot => .sh
  | _ => .ex

/-- what follows the lock -/
def Verb.locked : Verb → Pc
  | .snapshot => .reading
  | .destroy => .teardown
  | _ => .deleting false

variable {ι : Type}

/-- one `unlink` or `rmdir` -/
def Sys.removeEntry (s : Sys ι) (p : Path) : Option (Sys ι) :=
  if p = [] then if s.root = true ∧ s.tree = [] ∧ s.lock.file = none then some { s with root := false } else none
  else if p = lockPath then if s.lock.file.isSome then some { s with lock := unlinkFile s.lock } else none
  else if s.tree.contains p ∧ ∀ q ∈ s.tree, p <+: q → q = p then some { s with tree := s.tree.filter (· ≠ p) } else none

/-- `destroy` removes the directory, `reset` its `data` -/
def Verb.removes (v : Verb) (p : Path) : Bool := v = .destroy || dataPath <+: p

def Sys.isWriting (s : Sys ι) (i : ι) : Bool :=
  match s.pc i with
  | .writing _ => true
  | _ => false

/-! ## The property and the invariant -/

/-- the process reads the path: anything for the archive, and `beetroot.yaml` before that -/
def Sys.Reads (s : Sys ι) (i : ι) (p : Path) : Prop := s.pc i = .reading ∨ (s.pc i = .lifecycle ∧ p = instanceYaml [])

/-- a snapshot reads while a destroy or reset has begun to remove and has not ended -/
def Torn (s : Sys ι) : ι × Act → Prop
  | (i, .read p) => s.Reads i p ∧ ∃ j, s.pc j = .deleting true
  | _ => False

/-- the program points at which a lock can be held -/
def Pc.mayHold : Pc → Bool
  | .reading | .teardown | .rmtree | .deleting _ => true
  | _ => false

structure Inv (s : Sys ι) : Prop where
  lock : Flock.Inv s.lock
  idle : ∀ i, (s.pc i).mayHold = false → s.lock.held i = none
  reading : ∀ i, s.pc i = .reading → s.lock.held i = some .sh
  deleting : ∀ i, s.pc i = .deleting true → s.lock.held i = some .ex
  unlocked : ∀ i, s.pc i = .lifecycle → ∀ j, s.pc j ≠ .deleting true
  /-- every holder has the file at the path open; or a deletion has removed it, and its process is the only holder -/
  valid : (∀ i, (s.lock.held i).isSome = true → Current s.lock i) ∨
    (s.lock.file = none ∧ ∃ d, s.pc d = .deleting true ∧ ∀ j, j ≠ d → s.lock.held j = none)

/-- the directory, its entries and the row are not part of the invariant -/
theorem Inv.congr {s t : Sys ι} (h : Inv s) (hlock : t.lock = s.lock) (hpc : t.pc = s.pc) : Inv t := by
  refine ⟨?_, ?_, ?_, ?_, ?_, ?_⟩
  · rw [hlock]
    exact h.lock
  · rw [hlock, hpc]
    exact h.idle
  · rw [hlock, hpc]
    exact h.reading
  · rw [hlock, hpc]
    exact h.deleting
  · rw [hpc]
    exact h.unlocked
  · rw [hlock, hpc]
    exact h.valid

/-- nobody has begun; a lock file of an earlier operation may be there -/
def start (root : Bool) (tree : List Path) (row : Bool) (file : Option ℕ) : Sys ι :=
  ⟨root, tree, row, ⟨file, (file.map Nat.succ).getD 0, fun _ => none, fun _ => none⟩, fun _ => .start⟩

theorem inv_start (root : Bool) (tree : List Path) (row : Bool) (file : Option ℕ) : Inv (start root tree row file : Sys ι) := by
  refine ⟨⟨fun i hi => (nomatch hi), fun i j _ _ m m' hm => (nomatch hm)⟩, fun _ _ => rfl, fun i hi => (nomatch hi),
    fun i hi => (nomatch hi), fun i hi => (nomatch hi), Or.inl fun i hi => (nomatch hi)⟩

/-- a snapshot that reads and a process that deletes would both be current, or both the only holder -/
theorem not_torn {s : Sys ι} (h : Inv s) (a : ι × Act) : ¬ Torn s a := by
  obtain ⟨i, a⟩ := a
  cases a with
  | read p =>
    intro htorn
    obtain ⟨hread | ⟨hread, -⟩, j, hdel⟩ := htorn
    swap
    · exact h.unlocked i hread j hdel
    have hi := h.reading i hread
    have hj := h.deleting j hdel
    have hij : i ≠ j := by
      intro heq
      rw [heq, hdel] at hread
      cases hread
    rcases h.valid with hcur | ⟨-, d, hd, hsole⟩
    · rw [sole_of_current h.lock hcur hj hij] at hi
      cases hi
    · have hid : i ≠ d := by
        intro heq
        rw [heq, hd] at hread
        cases hread
      rw [hsole i hid] at hi
      cases hi
  | _ => exact id

section Unlink

variable {s t : Sys ι} {i : ι}

/-- the lock file itself is removed by a process that deletes -/
theorem inv_unlink (h : Inv s) (hpc : s.pc i = .deleting true) (hfile : s.lock.file.isSome = true) :
    Inv { s with lock := unlinkFile s.lock } := by
  refine ⟨unlinkFile_inv h.lock, h.idle, h.reading, h.deleting, h.unlocked, Or.inr ⟨rfl, i, hpc, fun j hj => ?_⟩⟩
  rcases h.valid with hcur | ⟨hnone, -⟩
  · exact sole_of_current h.lock hcur (h.deleting i hpc) hj
  · rw [hnone] at hfile
    cases hfile

theorem inv_unlink_free (h : Inv s) (hfree : ∀ j, s.lock.held j = none) : Inv { s with lock := unlinkFile s.lock } := by
  refine ⟨unlinkFile_inv h.lock, h.idle, h.reading, h.deleting, h.unlocked, Or.inl fun j hj => ?_⟩
  change (s.lock.held j).isSome = true at hj
  rw [hfree j] at hj
  cases hj

/-- a removal is of the lock file, or leaves the lock alone -/
theorem removeEntry_some {p : Path} (h : s.removeEntry p = some t) :
    (t.lock = s.lock ∧ t.pc = s.pc) ∨ (p = lockPath ∧ s.lock.file.isSome = true ∧ t = { s with lock := unlinkFile s.lock }) := by
  unfold Sys.removeEntry at h
  split_ifs at h with h1 h2 h3 h4 h5
  · cases h
    exact Or.inl ⟨rfl, rfl⟩
  · cases h
    exact Or.inr ⟨h3, h4, rfl⟩
  · cases h
    exact Or.inl ⟨rfl, rfl⟩

end Unlink

/-! ## Steps -/

variable [DecidableEq ι]

def Sys.goto (s : Sys ι) (i : ι) (pc : Pc) : Sys ι := { s with pc := Function.update s.pc i pc }

/-- the process ends, and its lock with it -/
def Sys.leave (s : Sys ι) (i : ι) : Sys ι := { s with lock := release s.lock i, pc := Function.update s.pc i .done }

/-- the first unlocked precheck: `yaml_path.is_file()`, `root.exists()`, `registry.get(name)` -/
def Sys.check (s : Sys ι) (i : ι) : Verb → Sys ι
  | .snapshot => if s.tree.contains (instanceYaml []) then s.goto i .lookup else s.goto i .done
  | .destroy => if s.root then s.goto i .mkdir else s.goto i .teardown
  | .reset => s.goto i .mkdir
  | .create => if s.row then s.goto i .done else s.goto i .lookup

/-- the second one: the row of the directory, `yaml_path.exists()` -/
def Sys.lookup (s : Sys ι) (i : ι) : Verb → Sys ι
  | .create => if s.tree.contains (instanceYaml []) then s.goto i .done else s.goto i .making
  | .snapshot => if s.row then s.goto i .lifecycle else s.goto i .done
  -- no other verb comes here
  | _ => s.goto i .done

section Step

variable [Fintype ι] (verbs : ι → Verb)

/-- the next statement of a process -/
def Sys.go (s : Sys ι) (i : ι) : Sys ι :=
  match s.pc i with
  | .start => s.check i (verbs i)
  | .lookup => s.lookup i (verbs i)
  | .lifecycle => s.goto i .mkdir
  | .mkdir => { s.goto i .openLock with root := true }
  | .openLock => if s.root then { s.goto i .flock with lock := openFile s.lock i } else s.goto i .done
  | .flock =>
    if Grantable s.lock i (verbs i).mode then { s.goto i (verbs i).locked with lock := grant s.lock i (verbs i).mode } else s
  | .reading => s.leave i
  | .teardown => { s.goto i .rmtree with row := false }
  | .rmtree => if s.root then s.goto i (.deleting false) else s.leave i
  | .deleting _ =>
    match verbs i with
    -- `reset` makes the directory again
    | .reset => { s.leave i with root := true, tree := s.tree.insert dataPath }
    | _ => s.leave i
  | .making => { s.goto i (.writing !s.root) with root := true }
  | .writing _ | .rollback _ => s.goto i .done
  | .done => s

def Sys.remove (s : Sys ι) (i : ι) (p : Path) : Sys ι :=
  match s.pc i with
  | .deleting _ => if (verbs i).removes p then ((s.removeEntry p).map fun t => t.goto i (.deleting true)).getD s else s
  -- the directory is removed if the call has made it
  | .rollback true => (s.removeEntry p).getD s
  | _ => s

def step (s : Sys ι) : ι × Act → Sys ι
  | (i, .go) => s.go verbs i
  | (_, .read _) => s
  | (i, .remove p) => s.remove verbs i p
  | (i, .write p) => if s.isWriting i && s.root then { s with tree := s.tree.insert p } else s
  | (i, .enlist) => if s.isWriting i then { s with row := true } else s
  | (i, .fail) =>
    match s.pc i with
    | .writing created => { s.goto i (.rollback created) with row := false }
    | _ => s
  | (i, .kill) => s.leave i

end Step

/-! ## The condition -/

/-- A lock file is not made anew while a deletion is going on; a lock that is granted is on the file at the path; a process that
deletes holds the lock, so a `destroy` that has found no directory finds none later; and the rollback of a `create` does not
remove a lock file that is held. For the read without the lock: a snapshot does not find its row while a deletion is going on, and
no deletion begins between that and the lock. -/
def Guarded (verbs : ι → Verb) (s : Sys ι) : ι × Act → Prop
  | (i, .go) => (s.pc i = .openLock → s.lock.file = none → ∀ j, s.pc j ≠ .deleting true) ∧
      (s.pc i = .flock → Grantable s.lock i (verbs i).mode → Current s.lock i) ∧
      (s.pc i = .lookup → verbs i = .snapshot → s.row = true → ∀ j, s.pc j ≠ .deleting true)
  | (i, .remove p) => (∀ b, s.pc i = .deleting b → s.lock.held i = some .ex) ∧
      (s.pc i = .rollback true → p = lockPath → ∀ j, s.lock.held j = none) ∧
      (s.pc i = .deleting false → ∀ j, s.pc j ≠ .lifecycle)
  | _ => True

/-! ## What one step keeps -/

section Steps

variable {s t : Sys ι} {i : ι}

/-- a process that is not deleting goes on, and neither reads under the lock nor deletes yet -/
theorem inv_goto (h : Inv s) (pc : Pc) (hnot : s.pc i ≠ .deleting true) (hread : pc ≠ .reading) (hdel : pc ≠ .deleting true)
    (hheld : pc.mayHold = false → s.lock.held i = none) (hquiet : pc = .lifecycle → ∀ j, s.pc j ≠ .deleting true) :
    Inv (s.goto i pc) := by
  have hpc : ∀ j, j ≠ i → (s.goto i pc).pc j = s.pc j := fun j hj => Function.update_of_ne hj _ _
  have hpci : (s.goto i pc).pc i = pc := Function.update_self _ _ _
  have hold : ∀ j, (s.goto i pc).pc j = .deleting true → s.pc j = .deleting true := by
    intro j hj
    by_cases hji : j = i
    · rw [hji, hpci] at hj
      exact absurd hj hdel
    · rwa [hpc j hji] at hj
  refine ⟨h.lock, fun j hj => ?_, fun j hj => ?_, fun j hj => h.deleting j (hold j hj), fun j hj k hk => ?_, ?_⟩
  · by_cases hji : j = i
    · subst hji
      rw [hpci] at hj
      exact hheld hj
    · rw [hpc j hji] at hj
      exact h.idle j hj
  · by_cases hji : j = i
    · subst hji
      rw [hpci] at hj
      exact absurd hj hread
    · rw [hpc j hji] at hj
      exact h.reading j hj
  · by_cases hji : j = i
    · subst hji
      rw [hpci] at hj
      exact hquiet hj k (hold k hk)
    · rw [hpc j hji] at hj
      exact h.unlocked j hj k (hold k hk)
  · rcases h.valid with hcur | ⟨hfile, d, hd, hsole⟩
    · exact Or.inl hcur
    · refine Or.inr ⟨hfile, d, ?_, hsole⟩
      have hdi : d ≠ i := by
        intro heq
        exact hnot (heq ▸ hd)
      rw [hpc d hdi]
      exact hd

/-- a process ends -/
theorem inv_leave (h : Inv s) : Inv (s.leave i) := by
  have hpc : ∀ j, j ≠ i → (s.leave i).pc j = s.pc j := fun j hj => Function.update_of_ne hj _ _
  have hheld : ∀ j, j ≠ i → (s.leave i).lock.held j = s.lock.held j := fun j hj => Function.update_of_ne hj _ _
  have hfd : ∀ j, j ≠ i → (s.leave i).lock.fd j = s.lock.fd j := fun j hj => Function.update_of_ne hj _ _
  have hpci : (s.leave i).pc i = .done := Function.update_self _ _ _
  have hheldi : (s.leave i).lock.held i = none := Function.update_self _ _ _
  have hstays : ∀ j (pc : Pc), (s.leave i).pc j = pc → pc ≠ .done → j ≠ i ∧ s.pc j = pc := by
    intro j pc hj hne
    have hji : j ≠ i := by
      intro heq
      rw [heq, hpci] at hj
      exact hne hj.symm
    rw [hpc j hji] at hj
    exact ⟨hji, hj⟩
  refine ⟨release_inv h.lock, fun j hj => ?_, fun j hj => ?_, fun j hj => ?_, fun j hj k hk => ?_, ?_⟩
  · by_cases hji : j = i
    · subst hji
      exact hheldi
    · rw [hpc j hji] at hj
      rw [hheld j hji]
      exact h.idle j hj
  · obtain ⟨hji, hj⟩ := hstays j _ hj (by decide)
    rw [hheld j hji]
    exact h.reading j hj
  · obtain ⟨hji, hj⟩ := hstays j _ hj (by decide)
    rw [hheld j hji]
    exact h.deleting j hj
  · exact h.unlocked j (hstays j _ hj (by decide)).2 k (hstays k _ hk (by decide)).2
  · have hcurrent : ∀ (hcur : ∀ j, j ≠ i → (s.lock.held j).isSome = true → Current s.lock j) (j : ι),
        ((s.leave i).lock.held j).isSome = true → Current (s.leave i).lock j := by
      intro hcur j hj
      have hji : j ≠ i := by
        intro heq
        rw [heq, hheldi] at hj
        cases hj
      rw [hheld j hji] at hj
      exact (hfd j hji).trans (hcur j hji hj)
    rcases h.valid with hcur | ⟨hfile, d, hd, hsole⟩
    · exact Or.inl (hcurrent fun j _ hj => hcur j hj)
    · by_cases hdi : d = i
      · -- the deletion has ended, and nobody holds the lock
        subst hdi
        refine Or.inl (hcurrent fun j hj hsome => ?_)
        rw [hsole j hj] at hsome
        cases hsome
      · refine Or.inr ⟨hfile, d, by rw [hpc d hdi]; exact hd, fun j hj => ?_⟩
        by_cases hji : j = i
        · subst hji
          exact hheldi
        · rw [hheld j hji]
          exact hsole j hj

/-- a process opens the lock file; if it is not there, no deletion is going on -/
theorem inv_open (h : Inv s) (hpc : s.pc i = .openLock) (hg : s.lock.file = none → ∀ j, s.pc j ≠ .deleting true) :
    Inv { s.goto i .flock with lock := openFile s.lock i } := by
  have hi : s.lock.held i = none := h.idle i (by rw [hpc]; rfl)
  have hgo := inv_goto h .flock (by rw [hpc]; decide) (by decide) (by decide) (fun _ => hi) fun hm => (nomatch hm)
  refine ⟨openFile_inv h.lock hi, hgo.idle, hgo.reading, hgo.deleting, hgo.unlocked, ?_⟩
  rcases h.valid with hcur | ⟨hfile, d, hd, -⟩
  · refine Or.inl fun j hj => ?_
    have hji : j ≠ i := by
      intro heq
      have hnone : (openFile s.lock i).held j = none := by
        rw [heq]
        exact hi
      rw [hnone] at hj
      cases hj
    -- a holder has the file open, so it is there
    have hjcur : Current s.lock j := hcur j hj
    obtain ⟨n, hn⟩ := Option.isSome_iff_exists.1 (h.lock.holds j hj)
    have hfile : s.lock.file = some n := hjcur.symm.trans hn
    simp only [Current, openFile, Function.update_of_ne hji, hfile, Option.getD_some]
    exact hn
  · exact absurd hd (hg hfile d)

/-- a lock is granted on the file at the path -/
theorem inv_grant (h : Inv s) {v : Verb} (hpc : s.pc i = .flock) (hg : Grantable s.lock i v.mode) (hcur : Current s.lock i) :
    Inv { s.goto i v.locked with lock := grant s.lock i v.mode } := by
  have hpcj : ∀ j, j ≠ i → (s.goto i v.locked).pc j = s.pc j := fun j hj => Function.update_of_ne hj _ _
  have hpci : (s.goto i v.locked).pc i = v.locked := Function.update_self _ _ _
  have hheld : ∀ j, j ≠ i → (grant s.lock i v.mode).held j = s.lock.held j := fun j hj => Function.update_of_ne hj _ _
  have hheldi : (grant s.lock i v.mode).held i = some v.mode := Function.update_self _ _ _
  have hstays : ∀ j (pc : Pc), (s.goto i v.locked).pc j = pc → pc = .lifecycle ∨ pc = .deleting true → j ≠ i ∧ s.pc j = pc := by
    intro j pc hj hor
    have hji : j ≠ i := by
      intro heq
      rw [heq, hpci] at hj
      rcases hor with rfl | rfl <;> cases v <;> cases hj
    rw [hpcj j hji] at hj
    exact ⟨hji, hj⟩
  refine ⟨grant_inv h.lock hg, fun j hj => ?_, fun j hj => ?_, fun j hj => ?_, fun j hj k hk => ?_, ?_⟩
  · have hji : j ≠ i := by
      intro heq
      rw [heq] at hj
      change ((s.goto i v.locked).pc i).mayHold = false at hj
      rw [hpci] at hj
      cases v <;> cases hj
    change ((s.goto i v.locked).pc j).mayHold = false at hj
    rw [hpcj j hji] at hj
    exact (hheld j hji).trans (h.idle j hj)
  · change (s.goto i v.locked).pc j = .reading at hj
    by_cases hji : j = i
    · subst hji
      rw [hpci] at hj
      refine hheldi.trans ?_
      cases v <;> first | rfl | cases hj
    · rw [hpcj j hji] at hj
      exact (hheld j hji).trans (h.reading j hj)
  · obtain ⟨hji, hj⟩ := hstays j _ hj (Or.inr rfl)
    exact (hheld j hji).trans (h.deleting j hj)
  · exact h.unlocked j (hstays j _ hj (Or.inl rfl)).2 k (hstays k _ hk (Or.inr rfl)).2
  · rcases h.valid with hall | ⟨hfile, -⟩
    · refine Or.inl fun j hj => ?_
      by_cases hji : j = i
      · subst hji
        exact hcur
      · change ((grant s.lock i v.mode).held j).isSome = true at hj
        rw [hheld j hji] at hj
        exact hall j hj
    · -- no file at the path, so nobody is current
      have hsome := hg.1
      rw [hcur, hfile] at hsome
      cases hsome

/-- an exclusive holder removes an entry -/
theorem inv_begin (h : Inv s) (hi : s.lock.held i = some .ex) (hquiet : ∀ j, s.pc j ≠ .lifecycle) :
    Inv (s.goto i (.deleting true)) := by
  have hpc : ∀ j, j ≠ i → (s.goto i (.deleting true)).pc j = s.pc j := fun j hj => Function.update_of_ne hj _ _
  have hpci : (s.goto i (.deleting true)).pc i = .deleting true := Function.update_self _ _ _
  refine ⟨h.lock, fun j hj => ?_, fun j hj => ?_, fun j hj => ?_, fun j hj => ?_, ?_⟩
  · have hji : j ≠ i := by
      intro heq
      rw [heq, hpci] at hj
      cases hj
    rw [hpc j hji] at hj
    exact h.idle j hj
  · have hji : j ≠ i := by
      intro heq
      rw [heq, hpci] at hj
      cases hj
    rw [hpc j hji] at hj
    exact h.reading j hj
  · by_cases hji : j = i
    · rw [hji]
      exact hi
    · rw [hpc j hji] at hj
      exact h.deleting j hj
  · have hji : j ≠ i := by
      intro heq
      rw [heq, hpci] at hj
      cases hj
    rw [hpc j hji] at hj
    exact absurd hj (hquiet j)
  · rcases h.valid with hcur | ⟨hfile, d, hd, hsole⟩
    · exact Or.inl hcur
    · refine Or.inr ⟨hfile, d, ?_, hsole⟩
      by_cases hdi : d = i
      · rw [hdi]
        exact hpci
      · rw [hpc d hdi]
        exact hd

theorem inv_remove {verbs : ι → Verb} (h : Inv s) {p : Path}
    (hdel : ∀ b, s.pc i = .deleting b → s.lock.held i = some .ex)
    (hroll : s.pc i = .rollback true → p = lockPath → ∀ j, s.lock.held j = none)
    (hfirst : s.pc i = .deleting false → ∀ j, s.pc j ≠ .lifecycle) : Inv (s.remove verbs i p) := by
  unfold Sys.remove
  split
  · rename_i b hb
    split_ifs
    · cases hrem : s.removeEntry p with
      | none => exact h
      | some t =>
        -- a deletion that has begun has found nobody before the lock
        have hquiet : ∀ j, s.pc j ≠ .lifecycle := by
          cases b with
          | false => exact hfirst hb
          | true => exact fun j hj => h.unlocked j hj i hb
        have hbegin := inv_begin h (hdel b hb) hquiet
        rcases removeEntry_some hrem with ⟨hlock, hpc⟩ | ⟨-, hfile, rfl⟩
        · refine hbegin.congr hlock ?_
          simp only [Option.map_some, Option.getD_some, Sys.goto, hpc]
        · exact inv_unlink (i := i) hbegin (Function.update_self _ _ _) hfile
    · exact h
  · rename_i hb
    cases hrem : s.removeEntry p with
    | none => exact h
    | some t =>
      rcases removeEntry_some hrem with ⟨hlock, hpc⟩ | ⟨hp, -, rfl⟩
      · exact h.congr hlock hpc
      · exact inv_unlink_free h (hroll hb hp)
  · exact h

/-- a process without a lock goes on -/
theorem inv_idle (h : Inv s) (hpc : (s.pc i).mayHold = false) (pc : Pc) (hread : pc ≠ .reading) (hdel : pc ≠ .deleting true)
    (hlook : pc ≠ .lifecycle) : Inv (s.goto i pc) := by
  refine inv_goto h pc ?_ hread hdel (fun _ => h.idle i hpc) fun heq => absurd heq hlook
  intro heq
  rw [heq] at hpc
  cases hpc

theorem inv_check (h : Inv s) (hpc : s.pc i = .start) (v : Verb) : Inv (s.check i v) := by
  have hidle : (s.pc i).mayHold = false := by
    rw [hpc]
    rfl
  cases v with
  | snapshot =>
    simp only [Sys.check]
    split_ifs <;> exact inv_idle h hidle _ (by decide) (by decide) (by decide)
  | destroy =>
    simp only [Sys.check]
    split_ifs <;> exact inv_idle h hidle _ (by decide) (by decide) (by decide)
  | reset => exact inv_idle h hidle _ (by decide) (by decide) (by decide)
  | create =>
    simp only [Sys.check]
    split_ifs <;> exact inv_idle h hidle _ (by decide) (by decide) (by decide)

variable [Fintype ι] {verbs : ι → Verb}

theorem inv_go (h : Inv s) (hopen : s.pc i = .openLock → s.lock.file = none → ∀ j, s.pc j ≠ .deleting true)
    (hgrant : s.pc i = .flock → Grantable s.lock i (verbs i).mode → Current s.lock i)
    (hlook : s.pc i = .lookup → verbs i = .snapshot → s.row = true → ∀ j, s.pc j ≠ .deleting true) : Inv (s.go verbs i) := by
  unfold Sys.go
  split
  · rename_i hpc
    exact inv_check h hpc (verbs i)
  · rename_i hpc
    have hidle : (s.pc i).mayHold = false := by rw [hpc]; rfl
    unfold Sys.lookup
    split
    · split_ifs <;> exact inv_idle h hidle _ (by decide) (by decide) (by decide)
    · rename_i hverb
      split_ifs with hrow
      · refine inv_goto h .lifecycle ?_ (by decide) (by decide) (fun _ => h.idle i hidle) fun _ => hlook hpc hverb hrow
        rw [hpc]
        decide
      · exact inv_idle h hidle _ (by decide) (by decide) (by decide)
    · exact inv_idle h hidle _ (by decide) (by decide) (by decide)
  · rename_i hpc
    exact inv_idle h (by rw [hpc]; rfl) .mkdir (by decide) (by decide) (by decide)
  · rename_i hpc
    exact (inv_idle h (by rw [hpc]; rfl) .openLock (by decide) (by decide) (by decide)).congr rfl rfl
  · rename_i hpc
    split_ifs
    · exact inv_open h hpc (hopen hpc)
    · exact inv_idle h (by rw [hpc]; rfl) _ (by decide) (by decide) (by decide)
  · rename_i hpc
    split_ifs with hg
    · exact inv_grant h hpc hg (hgrant hpc hg)
    · exact h
  · exact inv_leave h
  · rename_i hpc
    refine (inv_goto h (i := i) .rmtree ?_ (by decide) (by decide) (fun hm => ?_) fun hm => (nomatch hm)).congr rfl rfl
    · rw [hpc]
      decide
    · cases hm
  · rename_i hpc
    split_ifs
    · refine inv_goto h _ ?_ (by decide) (by decide) (fun hm => ?_) fun hm => (nomatch hm)
      · rw [hpc]
        decide
      · cases hm
    · exact inv_leave h
  · split
    · exact (inv_leave (i := i) h).congr rfl rfl
    · exact inv_leave h
  · rename_i hpc
    exact (inv_idle h (by rw [hpc]; rfl) (.writing !s.root) (by simp) (by simp) (by simp)).congr rfl rfl
  · rename_i hpc
    exact inv_idle h (by rw [hpc]; rfl) _ (by decide) (by decide) (by decide)
  · rename_i hpc
    exact inv_idle h (by rw [hpc]; rfl) _ (by decide) (by decide) (by decide)
  · exact h

theorem step_inv (h : Inv s) (a : ι × Act) (hg : Guarded verbs s a) : Inv (step verbs s a) := by
  obtain ⟨i, a⟩ := a
  cases a with
  | go => exact inv_go h hg.1 hg.2.1 hg.2.2
  | read p => exact h
  | remove p => exact inv_remove h hg.1 hg.2.1 hg.2.2
  | write p =>
    simp only [step]
    split_ifs
    · exact h.congr rfl rfl
    · exact h
  | enlist =>
    simp only [step]
    split_ifs
    · exact h.congr rfl rfl
    · exact h
  | fail =>
    simp only [step]
    split
    · rename_i created hpc
      exact (inv_idle h (by rw [hpc]; rfl) (.rollback created) (by simp) (by simp) (by simp)).congr rfl rfl
    · exact h
  | kill => exact inv_leave h

end Steps

/-! ## Runs -/

theorem always_quiet [Fintype ι] {verbs : ι → Verb} {s : Sys ι} (hs : Inv s) {as : List (ι × Act)}
    (h : Always (step verbs) (Guarded verbs) s as) : Always (step verbs) (fun s a => ¬ Torn s a) s as := by
  induction as generalizing s with
  | nil => trivial
  | cons a as ih => exact ⟨not_torn hs a, ih (step_inv hs a h.1) h.2⟩

/-- Any number of processes with any verbs at one directory, in any interleaving and with any of them killed: if every step of the
run is `Guarded`, no step of it is a read of a snapshot while a destroy or reset is between its first and its last removal. -/
theorem snapshot_excluded [Fintype ι] (verbs : ι → Verb) (root : Bool) (tree : List Path) (row : Bool) (file : Option ℕ)
    (as : List (ι × Act)) (h : Always (step verbs) (Guarded verbs) (start root tree row file) as) :
    Always (step verbs) (fun s a => ¬ Torn s a) (start root tree row file) as := always_quiet (inv_start root tree row file) h

instance [Fintype ι] (verbs : ι → Verb) (s : Sys ι) (a : ι × Act) : Decidable (Guarded verbs s a) := by
  obtain ⟨i, a⟩ := a
  cases a <;> unfold Guarded <;> infer_instance

/-- a snapshot and a destroy -/
def pair (i : Bool) : Verb := if i then .snapshot else .destroy

def gos (i : Bool) (n : ℕ) : List (Bool × Act) := List.replicate n (i, .go)

/-- the destroy waits for the snapshot, and then removes everything -/
def inTurn : List (Bool × Act) :=
  gos true 2 ++ [(true, .read (instanceYaml []))] ++ gos true 4 ++ [(true, .read (instanceYaml []))] ++ gos false 4 ++
    [(true, .read dataPath)] ++ gos true 1 ++ gos false 3 ++
    [(false, .remove lockPath), (false, .remove (instanceYaml [])), (false, .remove dataPath), (false, .remove [])] ++ gos false 1

theorem snapshot_excluded_in_turn :
    Always (step pair) (fun s a => ¬ Torn s a) (start true [instanceYaml [], dataPath] true none) inTurn :=
  snapshot_excluded pair true [instanceYaml [], dataPath] true none inTurn (by decide)

/-- the snapshot is about to take the lock, the destroy has removed the lock file, and the snapshot makes and locks a new one -/
def recreated : List (Bool × Act) := gos true 3 ++ gos false 6 ++ [(false, .remove lockPath)] ++ gos true 3

def midway : Sys Bool := recreated.foldl (step pair) (start true [instanceYaml [], dataPath] true none)

/-- the snapshot has found its row, and the destroy has removed the lock file -/
def beforeLock : List (Bool × Act) := gos true 2 ++ gos false 6 ++ [(false, .remove lockPath)]

def unlocked : Sys Bool := beforeLock.foldl (step pair) (start true [instanceYaml [], dataPath] true none)

theorem torn_snapshot :
    (Torn midway (true, .read (instanceYaml [])) ∧ instanceYaml [] ∈ midway.tree ∧
      instanceYaml [] ∉ (step pair midway (false, .remove (instanceYaml []))).tree) ∧
      Torn unlocked (true, .read (instanceYaml [])) :=
  ⟨⟨⟨Or.inl (by decide), false, by decide⟩, by decide, by decide⟩, Or.inr (by decide), false, by decide⟩

end Beetroot.Exclusion
