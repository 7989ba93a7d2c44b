/-
Processes that share a store guarded by one readers-writer lock.

Each process runs a finite list of operations; an operation is a program (`Lib.Prog`) whose actions are store actions
and acquire/release of the lock. A schedule is any list of process names: at each entry the named process makes its
next step (an acquire that cannot be granted is a step that changes nothing). The exclusive mode admits one holder, the
shared mode only other shared holders.

An operation may read the store before it holds the lock (a lock-free check). Such a read can fall into the middle of
another process's critical section; `Obs c s` says what it may conclude about the committed store `c`, the store as the
last exclusive section left it, from the store `s` it sees.

Results, for programs that meet `Ready`:
- `run_inv`: the invariant `Inv` in every state of every schedule;
- `linearizable`: the completed operations, in the order of their completion, replay sequentially (each one run alone)
  with the results they returned, from the initial store to the committed store; each process's own order is kept; the
  store is the committed store whenever nobody holds the exclusive lock, and it is then good.
For programs that meet the weaker `Tame`:
- `run_safe`, `Safe.exclusive`: a writing action is performed by the exclusive holder only.
Nothing is assumed of the scheduler, and the number of processes is arbitrary.
-/
import Beetroot.Lib.Prog
import Mathlib.Logic.Function.Basic
import Mathlib.Tactic.Common

namespace Lib.RwLock

/-! ## Model -/

inductive Mode where
  | sh
  | ex
deriving DecidableEq, Repr

/-- a lock action or a store action -/
inductive Act (A : Type) where
  | acquire (m : Mode)
  | release
  | base (a : A)

def Resp {A : Type} (R : A → Type) : Act A → Type
  | .acquire _ => Unit
  | .release => Unit
  | .base a => R a

abbrev LProg (A : Type) (R : A → Type) (α : Type) := Prog (Act A) (Resp R) α

def acquire {A : Type} {R : A → Type} (m : Mode) : LProg A R Unit := Prog.perform (R := Resp R) (.acquire m)

def release {A : Type} {R : A → Type} : LProg A R Unit := Prog.perform (R := Resp R) .release

def base {A : Type} {R : A → Type} (a : A) : LProg A R (R a) := Prog.perform (R := Resp R) (.base a)

/-- a store with its actions, and the operations on it -/
structure System where
  Store : Type
  A : Type
  R : A → Type
  exec : (a : A) → Store → R a × Store
  Op : Type
  Res : Type
  prog : Op → LProg A R Res

namespace System

variable (S : System)

/-- an action run alone: the lock is free, so acquire and release do nothing -/
def execAlone : (a : Act S.A) → S.Store → Resp S.R a × S.Store
  | .acquire _, s => ((), s)
  | .release, s => ((), s)
  | .base a, s => S.exec a s

/-- a program run alone -/
def alone {α : Type} (p : LProg S.A S.R α) (s : S.Store) : α × S.Store := p.solo S.execAlone s

theorem alone_bind {α β : Type} (p : LProg S.A S.R α) (f : α → LProg S.A S.R β) (s : S.Store) :
    S.alone (p >>= f) s = S.alone (f (S.alone p s).1) (S.alone p s).2 := p.solo_bind S.execAlone f s

/-- the sequential meaning of an operation: its program run alone -/
def seq (o : S.Op) (s : S.Store) : S.Res × S.Store := S.alone (S.prog o) s

end System

variable {S : System} {ι : Type}

structure Proc (S : System) where
  todo : List S.Op
  /-- the operation in progress and what is left of its program -/
  cur : Option (S.Op × LProg S.A S.R S.Res)
  held : Option Mode
  done : List (S.Op × S.Res)

structure Sys (S : System) (ι : Type) where
  store : S.Store
  ex : Option ι
  sh : List ι
  proc : ι → Proc S
  /-- completed operations in the order of their completion -/
  hist : List (ι × S.Op × S.Res)

def init (s0 : S.Store) (prog : ι → List S.Op) : Sys S ι := ⟨s0, none, [], fun i => ⟨prog i, none, none, []⟩, []⟩

section Step

variable [DecidableEq ι]

/-- process `i` goes on with `p`, holding `m`; an operation whose program has ended is recorded as completed -/
def advance (s : Sys S ι) (i : ι) (o : S.Op) (m : Option Mode) : LProg S.A S.R S.Res → Sys S ι
  | .ret r =>
    { s with
      proc := Function.update s.proc i { s.proc i with cur := none, held := m, done := (s.proc i).done ++ [(o, r)] }
      hist := s.hist ++ [(i, o, r)] }
  | p => { s with proc := Function.update s.proc i { s.proc i with cur := some (o, p), held := m } }

def step (s : Sys S ι) (i : ι) : Sys S ι :=
  match (s.proc i).cur with
  | none =>
    match (s.proc i).todo with
    | [] => s
    | o :: os => advance { s with proc := Function.update s.proc i { s.proc i with todo := os } } i o none (S.prog o)
  | some (o, .ret r) => advance s i o (s.proc i).held (.ret r)
  | some (o, .act (.acquire .ex) k) =>
    if s.ex = none ∧ s.sh = [] then advance { s with ex := some i } i o (some .ex) (k ()) else s
  | some (o, .act (.acquire .sh) k) =>
    if s.ex = none then advance { s with sh := i :: s.sh } i o (some .sh) (k ()) else s
  | some (o, .act .release k) =>
    advance { s with ex := if s.ex = some i then none else s.ex, sh := s.sh.filter fun j => j ≠ i } i o none (k ())
  | some (o, .act (.base a) k) =>
    advance { s with store := (S.exec a s.store).2 } i o (s.proc i).held (k (S.exec a s.store).1)

def run (s : Sys S ι) (sched : List ι) : Sys S ι := sched.foldl step s

end Step

/-! ## What the programs must satisfy -/

/-- the rest of an exclusive section entered at the committed store `c`: it observes only stores related to `c` and
ends by releasing the lock and returning -/
def Closes (Obs : S.Store → S.Store → Prop) (c : S.Store) : LProg S.A S.R S.Res → S.Store → Prop
  | .ret _, _ => False
  | .act (.acquire _) _, _ => False
  | .act .release k, s => Obs c s ∧ ∃ r, k () = .ret r
  | .act (.base a) k, s => Obs c s ∧ Closes Obs c (k (S.exec a s).1) (S.exec a s).2

/-- the rest of a shared section: it changes nothing and ends by releasing the lock and returning -/
def ClosesRo : LProg S.A S.R S.Res → S.Store → Prop
  | .ret _, _ => False
  | .act (.acquire _) _, _ => False
  | .act .release k, _ => ∃ r, k () = .ret r
  | .act (.base a) k, s => (S.exec a s).2 = s ∧ ClosesRo (k (S.exec a s).1) s

/-- a program of operation `o` that holds no lock: its sections behave on every good store as the whole operation run
alone, and a lock-free action changes nothing and may end the operation only with the sequential answer -/
def Ready (Good : S.Store → Prop) (Obs : S.Store → S.Store → Prop) (o : S.Op) : LProg S.A S.R S.Res → Prop
  | .ret r => ∀ c, Good c → S.seq o c = (r, c)
  | .act (.acquire .ex) k => ∀ c, Good c → Closes Obs c (k ()) c ∧ S.alone (k ()) c = S.seq o c
  | .act (.acquire .sh) k => ∀ c, Good c → ClosesRo (k ()) c ∧ S.alone (k ()) c = S.seq o c
  | .act .release _ => False
  | .act (.base a) k =>
    (∀ s, (S.exec a s).2 = s) ∧ ∀ c s, Good c → Obs c s →
      (∃ r, k (S.exec a s).1 = .ret r ∧ S.seq o c = (r, c)) ∨ Ready Good Obs o (k (S.exec a s).1)

structure Obligations (S : System) (Good : S.Store → Prop) (Obs : S.Store → S.Store → Prop) : Prop where
  ready : ∀ o, Ready Good Obs o (S.prog o)
  obs_refl : ∀ c, Obs c c
  good : ∀ o c, Good c → Good (S.seq o c).2

/-- the completed operations `h`, each run alone, lead from `s` to `t` and give the recorded results -/
def Replays : S.Store → List (ι × S.Op × S.Res) → S.Store → Prop
  | s, [], t => s = t
  | s, e :: h, t => (S.seq e.2.1 s).1 = e.2.2 ∧ Replays (S.seq e.2.1 s).2 h t

theorem replays_snoc {s t : S.Store} {h : List (ι × S.Op × S.Res)} (hr : Replays s h t) (e : ι × S.Op × S.Res)
    (he : (S.seq e.2.1 t).1 = e.2.2) : Replays s (h ++ [e]) (S.seq e.2.1 t).2 := by
  induction h generalizing s with
  | nil => cases hr; exact ⟨he, rfl⟩
  | cons x h ih => exact ⟨hr.1, ih hr.2⟩

/-! ## Parts of a section

A part of a program that takes and releases no lock is run as if alone; `Inside` collects what it performs and passes
through. The rules below compose the parts of a section. -/

/-- a part without lock actions: it performs only `ok` actions, and `Q` holds of every store it passes through -/
def Inside {α : Type} (ok : S.A → Prop) (Q : S.Store → Prop) : LProg S.A S.R α → S.Store → Prop
  | .ret _, s => Q s
  | .act (.acquire _) _, _ => False
  | .act .release _, _ => False
  | .act (.base a) k, s => ok a ∧ Q s ∧ Inside ok Q (k (S.exec a s).1) (S.exec a s).2

section Inside

variable {α β : Type} {ok : S.A → Prop} {Q : S.Store → Prop} {Obs : S.Store → S.Store → Prop} {c s : S.Store}

theorem inside_bind {p : LProg S.A S.R α} {f : α → LProg S.A S.R β} (hp : Inside ok Q p s)
    (hf : Inside ok Q (f (S.alone p s).1) (S.alone p s).2) : Inside ok Q (p >>= f) s := by
  induction p generalizing s with
  | ret x => exact hf
  | act a k ih =>
    match a, k, ih, hp with
    | .base a, k, ih, hp => exact ⟨hp.1, hp.2.1, ih _ hp.2.2 hf⟩

theorem inside_end {p : LProg S.A S.R α} (hp : Inside ok Q p s) : Q (S.alone p s).2 := by
  induction p generalizing s with
  | ret x => exact hp
  | act a k ih =>
    match a, k, ih, hp with
    | .base a, k, ih, hp => exact ih _ hp.2.2

theorem closes_bind {p : LProg S.A S.R α} {f : α → LProg S.A S.R S.Res} (hp : Inside ok (Obs c) p s)
    (hf : Closes Obs c (f (S.alone p s).1) (S.alone p s).2) : Closes Obs c (p >>= f) s := by
  induction p generalizing s with
  | ret x => exact hf
  | act a k ih =>
    match a, k, ih, hp with
    | .base a, k, ih, hp => exact ⟨hp.2.1, ih _ hp.2.2 hf⟩

theorem closesRo_bind (hro : ∀ a s, ok a → (S.exec a s).2 = s) {p : LProg S.A S.R α} {f : α → LProg S.A S.R S.Res}
    (hp : Inside ok Q p s) (hf : ClosesRo (f (S.alone p s).1) s) : ClosesRo (p >>= f) s := by
  induction p with
  | ret x => exact hf
  | act a k ih =>
    match a, k, ih, hp with
    | .base a, k, ih, hp =>
      have h1 := hro a s hp.1
      have hal : S.alone (.act (.base a) k) s = S.alone (k (S.exec a s).1) s := by
        change S.alone (k (S.exec a s).1) (S.exec a s).2 = _; rw [h1]
      rw [hal] at hf
      have hk := hp.2.2
      rw [h1] at hk
      exact ⟨h1, ih _ hk hf⟩

/-- an exclusive section: a part, the release, and the answer of the part -/
theorem closes_section {p : LProg S.A S.R S.Res} (hp : Inside ok (Obs c) p s) :
    Closes Obs c (p >>= fun r => release >>= fun _ => pure r) s :=
  closes_bind hp ⟨inside_end hp, _, rfl⟩

end Inside

/-! ## The invariant -/

/-- what process `i` may assume of the shared state, by what it holds -/
def Local (Good : S.Store → Prop) (Obs : S.Store → S.Store → Prop) (c : S.Store) (s : Sys S ι) (i : ι) (p : Proc S) :
    Prop :=
  match p.cur, p.held with
  | none, h => h = none
  | some (o, q), none => Ready Good Obs o q
  | some (o, q), some .ex => s.ex = some i ∧ Closes Obs c q s.store ∧ S.alone q s.store = S.seq o c
  | some (o, q), some .sh => i ∈ s.sh ∧ ClosesRo q s.store ∧ S.alone q s.store = S.seq o s.store

/-- the shared state `s`, reached from `s0`, with committed store `c` -/
structure Core (Good : S.Store → Prop) (Obs : S.Store → S.Store → Prop) (s0 c : S.Store) (s : Sys S ι) : Prop where
  replay : Replays s0 s.hist c
  good : Good c
  obs : Obs c s.store
  free : s.ex = none → s.store = c
  mutex : s.ex ≠ none → s.sh = []

structure Inv (Good : S.Store → Prop) (Obs : S.Store → S.Store → Prop) (s0 c : S.Store) (s : Sys S ι) : Prop
    extends Core Good Obs s0 c s where
  procs : ∀ i, Local Good Obs c s i (s.proc i)

section Frame

variable {Good : S.Store → Prop} {Obs : S.Store → S.Store → Prop} {s0 c : S.Store}

theorem Core.not_sh {s : Sys S ι} (h : Core Good Obs s0 c s) {j k : ι} (hj : s.ex = some j) (hk : k ∈ s.sh) : False := by
  rw [h.mutex (by rw [hj]; simp)] at hk
  exact List.not_mem_nil hk

theorem Core.free_of_sh {s : Sys S ι} (h : Core Good Obs s0 c s) {k : ι} (hk : k ∈ s.sh) : s.ex = none := by
  cases hex : s.ex with
  | none => rfl
  | some j => exact (h.not_sh hex hk).elim

/-- a process's assumption survives when its own lock entry, the store and the committed store it relies on are kept -/
theorem local_frame {s t : Sys S ι} {c' : S.Store} {j : ι} {p : Proc S} (h : Local Good Obs c s j p)
    (hex : s.ex = some j → t.ex = some j ∧ t.store = s.store ∧ c' = c)
    (hsh : j ∈ s.sh → j ∈ t.sh ∧ t.store = s.store) : Local Good Obs c' t j p := by
  unfold Local at h ⊢
  split at h
  · exact h
  · exact h
  · obtain ⟨h1, h2⟩ := h
    obtain ⟨e1, e2, e3⟩ := hex h1
    rw [e2, e3]; exact ⟨e1, h2⟩
  · obtain ⟨h1, h2⟩ := h
    obtain ⟨e1, e2⟩ := hsh h1
    rw [e2]; exact ⟨e1, h2⟩

theorem inv_init (hS : Obligations S Good Obs) (hg : Good s0) (prog : ι → List S.Op) :
    Inv Good Obs s0 s0 (init s0 prog) :=
  ⟨⟨rfl, hg, hS.obs_refl s0, fun _ => rfl, fun h => absurd rfl h⟩, fun _ => rfl⟩

end Frame

section StepInv

variable [DecidableEq ι] {Good : S.Store → Prop} {Obs : S.Store → S.Store → Prop} {s0 c : S.Store} {s : Sys S ι}
  {i : ι} {o : S.Op} {m : Option Mode} {p : LProg S.A S.R S.Res}

/-- process `i` goes on inside its operation -/
theorem inv_go (hp : ∀ r, p ≠ .ret r) (h : Core Good Obs s0 c s)
    (hothers : ∀ j, j ≠ i → Local Good Obs c s j (s.proc j))
    (hown : Local Good Obs c s i { s.proc i with cur := some (o, p), held := m }) :
    Inv Good Obs s0 c (advance s i o m p) := by
  have he : advance s i o m p =
      { s with proc := Function.update s.proc i { s.proc i with cur := some (o, p), held := m } } := by
    cases p with
    | ret r => exact absurd rfl (hp r)
    | act a k => rfl
  rw [he]
  refine ⟨⟨h.replay, h.good, h.obs, h.free, h.mutex⟩, fun j => ?_⟩
  by_cases hj : j = i
  · subst hj; simpa only [Function.update_self, Local] using hown
  · simpa only [Function.update_of_ne hj, Local] using hothers j hj

/-- process `i` completes its operation `o` with result `r`, which commits the store `c'` -/
theorem inv_done {c' : S.Store} {r : S.Res} (hr : Replays s0 s.hist c) (hseq : S.seq o c = (r, c')) (hg : Good c')
    (ho : Obs c' s.store) (hf : s.ex = none → s.store = c') (hm : s.ex ≠ none → s.sh = [])
    (hothers : ∀ j, j ≠ i → Local Good Obs c' s j (s.proc j)) : Inv Good Obs s0 c' (advance s i o none (.ret r)) := by
  refine ⟨⟨?_, hg, ho, hf, hm⟩, fun j => ?_⟩
  · have := replays_snoc hr (i, o, r) (by rw [hseq])
    rw [hseq] at this; exact this
  · by_cases hj : j = i
    · subst hj; simp only [advance, Function.update_self, Local]
    · simpa only [advance, Function.update_of_ne hj, Local] using hothers j hj

/-- a step of a process that holds no lock -/
theorem step_free (h : Inv Good Obs s0 c s) (hcur : (s.proc i).cur = some (o, p))
    (hheld : (s.proc i).held = none) (hp : Ready Good Obs o p) : Inv Good Obs s0 c (step s i) := by
  unfold step
  rw [hcur]
  match p, hp with
  | .ret r, hp =>
    simp only [hheld]
    exact inv_done h.replay (hp c h.good) h.good h.obs h.free h.mutex (fun j _ => h.procs j)
  | .act (.acquire .ex) k, hp =>
    simp only
    split_ifs with hfree
    · obtain ⟨hcl, hal⟩ := hp c h.good
      refine inv_go ?_ ⟨h.replay, h.good, h.obs, by simp, fun _ => hfree.2⟩ ?_ ?_
      · intro r hr; rw [hr] at hcl; exact hcl
      · intro j hj
        exact local_frame (h.procs j) (fun e => by rw [hfree.1] at e; simp at e)
          (fun e => by rw [hfree.2] at e; simp at e)
      · simp only [Local]; rw [h.free hfree.1]; exact ⟨trivial, hcl, hal⟩
    · exact h
  | .act (.acquire .sh) k, hp =>
    simp only
    split_ifs with hfree
    · obtain ⟨hcl, hal⟩ := hp c h.good
      refine inv_go ?_ ⟨h.replay, h.good, h.obs, h.free, fun e => absurd hfree e⟩ ?_ ?_
      · intro r hr; rw [hr] at hcl; exact hcl
      · intro j hj
        exact local_frame (h.procs j) (fun e => ⟨e, rfl, rfl⟩) (fun e => ⟨List.mem_cons_of_mem _ e, rfl⟩)
      · simp only [Local]; rw [h.free hfree]; exact ⟨List.mem_cons_self, hcl, hal⟩
    · exact h
  | .act (.base a) k, hp =>
    simp only
    obtain ⟨hro, hnext⟩ := hp
    rw [hro, hheld]
    rcases hnext c s.store h.good h.obs with ⟨r, hr, hseq⟩ | hready
    · rw [hr]
      exact inv_done h.replay hseq h.good h.obs h.free h.mutex (fun j _ => h.procs j)
    · revert hready
      cases k (S.exec a s.store).1 with
      | ret r =>
        exact fun hready => inv_done h.replay (hready c h.good) h.good h.obs h.free h.mutex (fun j _ => h.procs j)
      | act b l =>
        exact fun hready => inv_go (by simp) h.toCore (fun j _ => h.procs j) (by simp only [Local]; exact hready)

/-- a step of the exclusive holder: inside its section it works on the store alone, and its release commits it -/
theorem step_ex (hS : Obligations S Good Obs) (h : Inv Good Obs s0 c s) (hcur : (s.proc i).cur = some (o, p))
    (hheld : (s.proc i).held = some .ex) (hex : s.ex = some i) (hcl : Closes Obs c p s.store)
    (hal : S.alone p s.store = S.seq o c) : ∃ c', Inv Good Obs s0 c' (step s i) := by
  have hother : ∀ j, j ≠ i → s.ex ≠ some j := fun j hj e => hj (by rw [hex] at e; simpa using e.symm)
  unfold step
  rw [hcur]
  match p, hcl, hal with
  | .act .release k, hcl, hal =>
    simp only
    obtain ⟨-, r, hr⟩ := hcl
    have hseq : S.seq o c = (r, s.store) := by
      rw [← hal]; change S.alone (k ()) s.store = _; rw [hr]; rfl
    have hg : Good s.store := by have := hS.good o c h.good; rwa [hseq] at this
    rw [hr]
    refine ⟨s.store, inv_done h.replay hseq hg (hS.obs_refl _) (fun _ => rfl) ?_ ?_⟩
    · simp [hex]
    · intro j hj
      exact local_frame (h.procs j) (fun e => absurd e (hother j hj)) (fun e => (h.not_sh hex e).elim)
  | .act (.base a) k, hcl, hal =>
    simp only
    have hcl' := hcl.2
    have hobs' : Obs c (S.exec a s.store).2 := by
      revert hcl'
      cases k (S.exec a s.store).1 with
      | ret r => exact fun e => e.elim
      | act b l =>
        cases b with
        | acquire m => exact fun e => e.elim
        | release => exact fun e => e.1
        | base b => exact fun e => e.1
    refine ⟨c, inv_go ?_ ⟨h.replay, h.good, hobs', by simp [hex], h.mutex⟩ ?_ ?_⟩
    · intro r hr; rw [hr] at hcl'; exact hcl'
    · intro j hj
      exact local_frame (h.procs j) (fun e => absurd e (hother j hj)) (fun e => (h.not_sh hex e).elim)
    · simp only [Local, hheld]; exact ⟨hex, hcl', hal⟩

/-- a step of a shared holder: the store is the committed one and stays so -/
theorem step_sh (h : Inv Good Obs s0 c s) (hcur : (s.proc i).cur = some (o, p)) (hheld : (s.proc i).held = some .sh)
    (hsh : i ∈ s.sh) (hcl : ClosesRo p s.store) (hal : S.alone p s.store = S.seq o s.store) :
    Inv Good Obs s0 c (step s i) := by
  have hex := h.free_of_sh hsh
  have hst := h.free hex
  unfold step
  rw [hcur]
  match p, hcl, hal with
  | .act .release k, hcl, hal =>
    simp only
    obtain ⟨r, hr⟩ := hcl
    have hseq : S.seq o c = (r, c) := by
      rw [← hst, ← hal]; change S.alone (k ()) s.store = _; rw [hr]; rfl
    rw [hr]
    refine inv_done h.replay hseq h.good h.obs (fun _ => hst) (by simp [hex]) ?_
    intro j hj
    exact local_frame (h.procs j) (fun e => by rw [hex] at e; simp at e)
      (fun e => ⟨List.mem_filter.2 ⟨e, by simpa using hj⟩, rfl⟩)
  | .act (.base a) k, hcl, hal =>
    simp only
    obtain ⟨hro, hcl'⟩ := hcl
    rw [hro, hheld]
    have hal' : S.alone (k (S.exec a s.store).1) s.store = S.seq o s.store := by
      rw [← hal]; change _ = S.alone (k (S.exec a s.store).1) (S.exec a s.store).2; rw [hro]
    refine inv_go ?_ h.toCore (fun j _ => h.procs j) (by simp only [Local]; exact ⟨hsh, hcl', hal'⟩)
    intro r hr; rw [hr] at hcl'; exact hcl'

/-- one step keeps the invariant, for some committed store -/
theorem step_inv (hS : Obligations S Good Obs) (h : Inv Good Obs s0 c s) (i : ι) :
    ∃ c', Inv Good Obs s0 c' (step s i) := by
  have hi := h.procs i
  unfold Local at hi
  split at hi
  · rename_i hcur
    unfold step
    rw [hcur]
    simp only
    split
    · exact ⟨c, h⟩
    · rename_i o os _
      have hothers : ∀ j, j ≠ i → Local Good Obs c s j
          (Function.update s.proc i { s.proc i with todo := os } j) := by
        intro j hj; rw [Function.update_of_ne hj]; exact h.procs j
      have hready := hS.ready o
      cases hp : S.prog o with
      | ret r =>
        rw [hp] at hready
        exact ⟨c, inv_done h.replay (hready c h.good) h.good h.obs h.free h.mutex fun j hj =>
          local_frame (hothers j hj) (fun e => ⟨e, rfl, rfl⟩) (fun e => ⟨e, rfl⟩)⟩
      | act a k =>
        rw [hp] at hready
        refine ⟨c, inv_go (by simp) ⟨h.replay, h.good, h.obs, h.free, h.mutex⟩ ?_ ?_⟩
        · intro j hj
          exact local_frame (hothers j hj) (fun e => ⟨e, rfl, rfl⟩) (fun e => ⟨e, rfl⟩)
        · simp only [Local]; exact hready
  · rename_i hcur hheld; exact ⟨c, step_free h hcur hheld hi⟩
  · rename_i hcur hheld; exact step_ex hS h hcur hheld hi.1 hi.2.1 hi.2.2
  · rename_i hcur hheld; exact ⟨c, step_sh h hcur hheld hi.1 hi.2.1 hi.2.2⟩

theorem run_inv (hS : Obligations S Good Obs) (h : Inv Good Obs s0 c s) (sched : List ι) :
    ∃ c', Inv Good Obs s0 c' (run s sched) := by
  induction sched generalizing s c with
  | nil => exact ⟨c, h⟩
  | cons i sched ih =>
    obtain ⟨c', h'⟩ := step_inv hS h i
    exact ih h'

/-! ## Each process's own order -/

/-- what is left of a process's operations, and the history, agree with the list it was given -/
structure Book (prog : ι → List S.Op) (s : Sys S ι) : Prop where
  own : ∀ i, (s.hist.filter fun e => e.1 = i).map Prod.snd = (s.proc i).done
  order : ∀ i, prog i =
    (s.proc i).done.map Prod.fst ++ ((s.proc i).cur.map Prod.fst).toList ++ (s.proc i).todo

theorem book_advance {prog : ι → List S.Op} (hown : ∀ j, (s.hist.filter fun e => e.1 = j).map Prod.snd = (s.proc j).done)
    (hothers : ∀ j, j ≠ i → prog j =
      (s.proc j).done.map Prod.fst ++ ((s.proc j).cur.map Prod.fst).toList ++ (s.proc j).todo)
    (hi : prog i = (s.proc i).done.map Prod.fst ++ [o] ++ (s.proc i).todo) : Book prog (advance s i o m p) := by
  cases p with
  | ret r =>
    refine ⟨fun j => ?_, fun j => ?_⟩ <;> by_cases hj : j = i
    · subst hj; simp [advance, List.filter_append, hown]
    · simp [advance, List.filter_append, hown, hj, Ne.symm hj]
    · subst hj; simp [advance, hi]
    · simpa [advance, hj] using hothers j hj
  | act a k =>
    refine ⟨fun j => ?_, fun j => ?_⟩ <;> by_cases hj : j = i
    · subst hj; simp [advance, hown]
    · simp [advance, hown, hj]
    · subst hj; simp [advance, hi]
    · simpa [advance, hj] using hothers j hj

theorem step_book {prog : ι → List S.Op} (h : Book prog s) (i : ι) : Book prog (step s i) := by
  unfold step
  cases hcur : (s.proc i).cur with
  | none =>
    simp only
    cases htodo : (s.proc i).todo with
    | nil => exact h
    | cons o os =>
      refine book_advance (fun j => ?_) (fun j hj => ?_) ?_
      · by_cases hj : j = i
        · subst hj; simp [h.own]
        · simp [hj, h.own]
      · simpa [hj] using h.order j
      · have := h.order i; rw [hcur, htodo] at this; simpa using this
  | some q =>
    have hi : prog i = (s.proc i).done.map Prod.fst ++ [q.1] ++ (s.proc i).todo := by
      have := h.order i; rw [hcur] at this; simpa using this
    match q, hi with
    | (o, .ret r), hi => exact book_advance h.own (fun j _ => h.order j) hi
    | (o, .act (.acquire .ex) k), hi =>
      simp only; split_ifs
      · exact book_advance h.own (fun j _ => h.order j) hi
      · exact h
    | (o, .act (.acquire .sh) k), hi =>
      simp only; split_ifs
      · exact book_advance h.own (fun j _ => h.order j) hi
      · exact h
    | (o, .act .release k), hi => exact book_advance h.own (fun j _ => h.order j) hi
    | (o, .act (.base a) k), hi => exact book_advance h.own (fun j _ => h.order j) hi

theorem run_book {prog : ι → List S.Op} (h : Book prog s) (sched : List ι) : Book prog (run s sched) := by
  induction sched generalizing s with
  | nil => exact h
  | cons i sched ih => exact ih (step_book h i)

theorem book_init (s0 : S.Store) (prog : ι → List S.Op) : Book prog (init s0 prog) :=
  ⟨fun _ => rfl, fun _ => rfl⟩

/-- Linearizability: after any schedule, the completed operations have a total order that keeps each process's own
order, replays sequentially to the committed store with the results that were returned, and whose final store is the
shared store whenever nobody holds the exclusive lock. -/
theorem linearizable (hS : Obligations S Good Obs) (hg : Good s0) (prog : ι → List S.Op) (sched : List ι) :
    ∃ (h : List (ι × S.Op × S.Res)) (c : S.Store),
      (∀ i, (h.filter fun e => e.1 = i).map Prod.snd = ((run (init s0 prog) sched).proc i).done) ∧
      (∀ i, ((run (init s0 prog) sched).proc i).done.map Prod.fst <+: prog i) ∧
      Replays s0 h c ∧ Good c ∧
      ((run (init s0 prog) sched).ex = none → (run (init s0 prog) sched).store = c) := by
  obtain ⟨c, hc⟩ := run_inv hS (inv_init hS hg prog) sched
  have hb := run_book (book_init s0 prog) sched
  refine ⟨_, c, hb.own, fun i => ?_, hc.replay, hc.good, hc.free⟩
  rw [hb.order i, List.append_assoc]
  exact List.prefix_append _ _

end StepInv

/-! ## Who may write

A weaker discipline, for stores of which nothing is known but an invariant at the ends of the exclusive sections: outside
an exclusive section a process performs only actions of a read-only kind `ro`. Operations may take the lock several times
(a shared section that ends in an escalation to the exclusive lock). -/

section Discipline

variable (ro : S.A → Prop) (I : S.Store → Prop)

/-- the rest of a program that holds `m`, at the store `s`. While it holds the lock, `s` is the store it works on;
without the lock the store is arbitrary -/
def Tame : Option Mode → LProg S.A S.R S.Res → S.Store → Prop
  | m, .ret _, _ => m = none
  | none, .act (.acquire m) k, _ => ∀ s, I s → Tame (some m) (k ()) s
  | some _, .act (.acquire _) _, _ => False
  | none, .act .release _, _ => False
  | some m, .act .release k, s => (m = .ex → I s) ∧ ∀ t, Tame none (k ()) t
  | none, .act (.base a) k, _ => ro a ∧ ∀ t u, Tame none (k (S.exec a t).1) u
  | some .sh, .act (.base a) k, s => ro a ∧ Tame (some .sh) (k (S.exec a s).1) s
  | some .ex, .act (.base a) k, s => Tame (some .ex) (k (S.exec a s).1) (S.exec a s).2

section TameBind

variable {ro I} {α : Type} {ok : S.A → Prop} {Q : S.Store → Prop} {s : S.Store}

theorem tame_ex_bind {p : LProg S.A S.R α} {f : α → LProg S.A S.R S.Res} (hp : Inside ok Q p s)
    (hf : Tame ro I (some .ex) (f (S.alone p s).1) (S.alone p s).2) : Tame ro I (some .ex) (p >>= f) s := by
  induction p generalizing s with
  | ret x => exact hf
  | act a k ih =>
    match a, k, ih, hp with
    | .base a, k, ih, hp => exact ih _ hp.2.2 hf

theorem tame_sh_bind (hro : ∀ a s, ro a → (S.exec a s).2 = s) {p : LProg S.A S.R α} {f : α → LProg S.A S.R S.Res}
    (hp : Inside ro Q p s) (hf : Tame ro I (some .sh) (f (S.alone p s).1) s) : Tame ro I (some .sh) (p >>= f) s := by
  induction p with
  | ret x => exact hf
  | act a k ih =>
    match a, k, ih, hp with
    | .base a, k, ih, hp =>
      have h1 := hro a s hp.1
      have hal : S.alone (.act (.base a) k) s = S.alone (k (S.exec a s).1) s := by
        change S.alone (k (S.exec a s).1) (S.exec a s).2 = _; rw [h1]
      rw [hal] at hf
      have hk := hp.2.2
      rw [h1] at hk
      exact ⟨hp.1, ih _ hk hf⟩

/-- an exclusive section that keeps the invariant -/
theorem tame_section {p : LProg S.A S.R S.Res} (hp : Inside ok Q p s) (hI : I (S.alone p s).2) :
    Tame ro I (some .ex) (p >>= fun r => release >>= fun _ => pure r) s :=
  tame_ex_bind hp ⟨fun _ => hI, fun _ => rfl⟩

end TameBind

/-- what process `i` may assume, by what it holds -/
def Kept (s : Sys S ι) (i : ι) (p : Proc S) : Prop :=
  match p.cur, p.held with
  | none, h => h = none
  | some (_, q), none => ∀ t, Tame ro I none q t
  | some (_, q), some .ex => s.ex = some i ∧ Tame ro I (some .ex) q s.store
  | some (_, q), some .sh => i ∈ s.sh ∧ Tame ro I (some .sh) q s.store

structure Safe (s : Sys S ι) : Prop where
  free : s.ex = none → I s.store
  mutex : s.ex ≠ none → s.sh = []
  procs : ∀ i, Kept ro I s i (s.proc i)

variable {ro I}

theorem kept_frame {s t : Sys S ι} {j : ι} {p : Proc S} (h : Kept ro I s j p)
    (hex : s.ex = some j → t.ex = some j ∧ t.store = s.store) (hsh : j ∈ s.sh → j ∈ t.sh ∧ t.store = s.store) :
    Kept ro I t j p := by
  unfold Kept at h ⊢
  split at h
  · exact h
  · exact h
  · obtain ⟨e1, e2⟩ := hex h.1
    rw [e2]; exact ⟨e1, h.2⟩
  · obtain ⟨e1, e2⟩ := hsh h.1
    rw [e2]; exact ⟨e1, h.2⟩

theorem safe_init {s0 : S.Store} (h0 : I s0) (prog : ι → List S.Op) : Safe ro I (init s0 prog) :=
  ⟨fun _ => h0, fun h => absurd rfl h, fun _ => rfl⟩

/-- an action that is not of the read-only kind is performed by the holder of the exclusive lock only -/
theorem Safe.exclusive {s : Sys S ι} (h : Safe ro I s) {i : ι} {o : S.Op} {a : S.A}
    {k : S.R a → LProg S.A S.R S.Res} (hcur : (s.proc i).cur = some (o, .act (.base a) k)) (ha : ¬ ro a) :
    (s.proc i).held = some .ex ∧ s.ex = some i := by
  have hi := h.procs i
  simp only [Kept, hcur] at hi
  cases hheld : (s.proc i).held with
  | none => rw [hheld] at hi; exact absurd (hi s.store).1 ha
  | some m =>
    rw [hheld] at hi
    cases m with
    | ex => exact ⟨rfl, hi.1⟩
    | sh => exact absurd hi.2.1 ha

variable [DecidableEq ι] {s : Sys S ι} {i : ι} {o : S.Op} {m : Option Mode} {p : LProg S.A S.R S.Res}

/-- process `i` goes on with a tame rest, or ends without the lock -/
theorem safe_advance (hfree : s.ex = none → I s.store) (hmutex : s.ex ≠ none → s.sh = [])
    (hothers : ∀ j, j ≠ i → Kept ro I s j (s.proc j))
    (hown : Kept ro I s i { s.proc i with cur := some (o, p), held := m }) : Safe ro I (advance s i o m p) := by
  cases p with
  | ret r =>
    have hm : m = none := by
      cases m with
      | none => rfl
      | some m => cases m <;> simp [Kept, Tame] at hown
    refine ⟨hfree, hmutex, fun j => ?_⟩
    by_cases hj : j = i
    · subst hj; simp only [advance, Function.update_self, Kept]; exact hm
    · simpa only [advance, Function.update_of_ne hj, Kept] using hothers j hj
  | act a k =>
    refine ⟨hfree, hmutex, fun j => ?_⟩
    by_cases hj : j = i
    · subst hj; simpa only [advance, Function.update_self, Kept] using hown
    · simpa only [advance, Function.update_of_ne hj, Kept] using hothers j hj

theorem step_safe (hro : ∀ a s, ro a → (S.exec a s).2 = s) (hprog : ∀ o t, Tame ro I none (S.prog o) t)
    (h : Safe ro I s) (i : ι) : Safe ro I (step s i) := by
  have hi := h.procs i
  unfold step
  cases hcur : (s.proc i).cur with
  | none =>
    simp only
    cases htodo : (s.proc i).todo with
    | nil => exact h
    | cons o os =>
      refine safe_advance h.free h.mutex (fun j hj => ?_) ?_
      · simp only [Function.update_of_ne hj]
        exact kept_frame (h.procs j) (fun e => ⟨e, rfl⟩) (fun e => ⟨e, rfl⟩)
      · simp only [Kept]; exact hprog o
  | some q =>
    obtain ⟨o, p⟩ := q
    cases hheld : (s.proc i).held with
    | none =>
      have hq : ∀ t, Tame ro I none p t := by simpa only [Kept, hcur, hheld] using hi
      match p, hq with
      | .ret r, hq =>
        simp only
        exact safe_advance h.free h.mutex (fun j _ => h.procs j) (by simp only [Kept]; exact hq)
      | .act (.acquire .ex) k, hq =>
        simp only
        split_ifs with hc
        · refine safe_advance (by simp) (fun _ => hc.2) (fun j hj => ?_) ?_
          · exact kept_frame (h.procs j) (fun e => by rw [hc.1] at e; simp at e)
              (fun e => by rw [hc.2] at e; simp at e)
          · simp only [Kept]; exact ⟨trivial, hq s.store s.store (h.free hc.1)⟩
        · exact h
      | .act (.acquire .sh) k, hq =>
        simp only
        split_ifs with hc
        · refine safe_advance h.free (fun e => absurd hc e) (fun j hj => ?_) ?_
          · exact kept_frame (h.procs j) (fun e => ⟨e, rfl⟩) (fun e => ⟨List.mem_cons_of_mem _ e, rfl⟩)
          · simp only [Kept]; exact ⟨List.mem_cons_self, hq s.store s.store (h.free hc)⟩
        · exact h
      | .act .release k, hq => exact (hq s.store).elim
      | .act (.base a) k, hq =>
        simp only
        have hst := hro a s.store (hq s.store).1
        rw [hst]
        refine safe_advance h.free h.mutex (fun j _ => h.procs j) ?_
        simp only [Kept]; exact fun t => (hq s.store).2 s.store t
    | some m =>
      cases m with
      | ex =>
        obtain ⟨hex, hq⟩ : s.ex = some i ∧ Tame ro I (some .ex) p s.store := by
          simpa only [Kept, hcur, hheld] using hi
        have hsh : s.sh = [] := h.mutex (by rw [hex]; simp)
        have hother : ∀ j, j ≠ i → s.ex ≠ some j := fun j hj e => hj (by rw [hex] at e; simpa using e.symm)
        match p, hq with
        | .act .release k, hq =>
          simp only
          refine safe_advance (fun _ => hq.1 rfl) (by simp [hex]) (fun j hj => ?_) ?_
          · exact kept_frame (h.procs j) (fun e => absurd e (hother j hj)) (fun e => by rw [hsh] at e; simp at e)
          · simp only [Kept]; exact hq.2
        | .act (.base a) k, hq =>
          simp only
          refine safe_advance (by simp [hex]) h.mutex (fun j hj => ?_) ?_
          · exact kept_frame (h.procs j) (fun e => absurd e (hother j hj)) (fun e => by rw [hsh] at e; simp at e)
          · simp only [Kept]; exact ⟨hex, hq⟩
      | sh =>
        obtain ⟨hmem, hq⟩ : i ∈ s.sh ∧ Tame ro I (some .sh) p s.store := by
          simpa only [Kept, hcur, hheld] using hi
        have hex : s.ex = none := by
          by_contra hne
          rw [h.mutex hne] at hmem; exact List.not_mem_nil hmem
        match p, hq with
        | .act .release k, hq =>
          simp only
          refine safe_advance (fun _ => h.free hex) (by simp [hex]) (fun j hj => ?_) ?_
          · exact kept_frame (h.procs j) (fun e => by rw [hex] at e; simp at e)
              (fun e => ⟨List.mem_filter.2 ⟨e, by simpa using hj⟩, rfl⟩)
          · simp only [Kept]; exact hq.2
        | .act (.base a) k, hq =>
          simp only
          rw [hro a s.store hq.1]
          refine safe_advance h.free h.mutex (fun j _ => h.procs j) ?_
          simp only [Kept]; exact ⟨hmem, hq.2⟩

theorem run_safe (hro : ∀ a s, ro a → (S.exec a s).2 = s) (hprog : ∀ o t, Tame ro I none (S.prog o) t)
    (h : Safe ro I s) (sched : List ι) : Safe ro I (run s sched) := by
  induction sched generalizing s with
  | nil => exact h
  | cons i sched ih => exact ih (step_safe hro hprog h i)

end Discipline

end Lib.RwLock
