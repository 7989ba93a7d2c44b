/-
Programs as trees of actions.

`Prog A R α` is a program that performs actions `a : A`, each answered by a value of type `R a`, and ends with a
value of type `α`. The world is not part of the tree: a program is run alone by `solo` (a deterministic world), step by
step by a scheduler, or in a world that chooses its answers (`stopped`, `finish`). Programs that may raise are
`ExceptT ε (Prog A R)`.

Results:
- `solo_bind`: running a sequence alone is running its parts one after the other;
- `Along.stopped`: what `Along` promises holds wherever the program is stopped (the rule for crashes);
- `Along.finish`: and its postcondition holds at the end of every execution;
- `runs_bind`, `runs_tryCatch`, `runs_ask`: the rules for sequences, handlers and single actions;
- `All.along`, `AtMost.along`: invariants, and bounds on a measure, from the actions that a program performs at all.
-/
import Mathlib.Tactic.Common

namespace Lib

inductive Prog (A : Type) (R : A → Type) (α : Type) : Type where
  | ret (x : α)
  | act (a : A) (k : R a → Prog A R α)

namespace Prog

variable {A : Type} {R : A → Type} {α β σ : Type}

def bind : Prog A R α → (α → Prog A R β) → Prog A R β
  | .ret x, f => f x
  | .act a k, f => .act a fun r => (k r).bind f

instance : Monad (Prog A R) where
  pure := Prog.ret
  bind := Prog.bind

/-- perform one action and return its answer -/
def perform (a : A) : Prog A R (R a) := .act a .ret

@[simp] theorem act_bind (a : A) (k : R a → Prog A R α) (f : α → Prog A R β) :
    (Prog.act a k) >>= f = .act a fun r => k r >>= f := rfl

/-! ## Running alone in a deterministic world -/

section Solo

variable (exec : (a : A) → σ → R a × σ)

def solo : Prog A R α → σ → α × σ
  | .ret x, s => (x, s)
  | .act a k, s => (k (exec a s).1).solo (exec a s).2

theorem solo_bind (p : Prog A R α) (f : α → Prog A R β) (s : σ) :
    (p >>= f).solo exec s = (f (p.solo exec s).1).solo exec (p.solo exec s).2 := by
  induction p generalizing s with
  | ret x => rfl
  | act a k ih => exact ih _ _

end Solo

/-! ## Running in a world that makes choices -/

section World

-- `exec c a s`: what the world answers to action `a` in state `s`, and the state after, where `c` is the world's choice
variable {C : Type} (exec : C → (a : A) → σ → R a × σ)

/-- the state after one action per choice; if the choices end before the program does, it was stopped there -/
def stopped : List C → Prog A R α → σ → σ
  | c :: cs, .act a k, s => stopped cs (k (exec c a s).1) (exec c a s).2
  | _, _, s => s

/-- the whole execution; after the listed choices the world keeps choosing `d` -/
def finish (d : C) : Prog A R α → List C → σ → α × σ
  | .ret x, _, s => (x, s)
  | .act a k, [], s => (k (exec d a s).1).finish d [] (exec d a s).2
  | .act a k, c :: cs, s => (k (exec c a s).1).finish d cs (exec c a s).2

/-- whatever choices in `P` the world makes, `I` holds in every state on the way, and `Q` where the program ends -/
def Along (P : C → Prop) (I : σ → Prop) (Q : α → σ → Prop) : Prog A R α → σ → Prop
  | .ret x, s => I s ∧ Q x s
  | .act a k, s => I s ∧ ∀ c, P c → (k (exec c a s).1).Along P I Q (exec c a s).2

variable {exec} {P : C → Prop} {I : σ → Prop}

theorem Along.inv {Q : α → σ → Prop} {p : Prog A R α} {s : σ} (hp : p.Along exec P I Q s) : I s := by
  cases p with
  | ret x => exact hp.1
  | act a k => exact hp.1

theorem Along.stopped {Q : α → σ → Prop} {p : Prog A R α} {s : σ} (hp : p.Along exec P I Q s) {cs : List C}
    (hcs : ∀ c ∈ cs, P c) : I (p.stopped exec cs s) := by
  induction cs generalizing p s with
  | nil => exact hp.inv
  | cons c cs ih =>
    cases p with
    | ret x => exact hp.1
    | act a k => exact ih (hp.2 c (hcs c List.mem_cons_self)) fun c' hc => hcs c' (List.mem_cons_of_mem _ hc)

theorem Along.finish {Q : α → σ → Prop} {p : Prog A R α} {s : σ} (hp : p.Along exec P I Q s) {d : C} (hd : P d)
    {cs : List C} (hcs : ∀ c ∈ cs, P c) : Q (p.finish exec d cs s).1 (p.finish exec d cs s).2 := by
  induction p generalizing s cs with
  | ret x => exact hp.2
  | act a k ih =>
    cases cs with
    | nil => exact ih _ (hp.2 d hd) (by simp)
    | cons c cs => exact ih _ (hp.2 c (hcs c List.mem_cons_self)) fun c' hc => hcs c' (List.mem_cons_of_mem _ hc)

/-- what every action keeps holds wherever the program is stopped -/
theorem stopped_inv (hstep : ∀ c a s, I s → I (exec c a s).2) {s : σ} (hs : I s) (p : Prog A R α) (cs : List C) :
    I (p.stopped exec cs s) := by
  induction cs generalizing p s with
  | nil => exact hs
  | cons c cs ih =>
    cases p with
    | ret x => exact hs
    | act a k => exact ih (hstep c a s hs) _

theorem Along.mono {Q Q' : α → σ → Prop} {p : Prog A R α} {s : σ} (hp : p.Along exec P I Q s)
    (hQ : ∀ x t, I t → Q x t → Q' x t) : p.Along exec P I Q' s := by
  induction p generalizing s with
  | ret x => exact ⟨hp.1, hQ x s hp.1 hp.2⟩
  | act a k ih => exact ⟨hp.1, fun c hc => ih _ (hp.2 c hc)⟩

theorem Along.and {Q Q' : α → σ → Prop} {J : σ → Prop} {p : Prog A R α} {s : σ} (hp : p.Along exec P I Q s)
    (hq : p.Along exec P J Q' s) : p.Along exec P (fun t => I t ∧ J t) (fun x t => Q x t ∧ Q' x t) s := by
  induction p generalizing s with
  | ret x => exact ⟨⟨hp.1, hq.1⟩, hp.2, hq.2⟩
  | act a k ih => exact ⟨⟨hp.1, hq.1⟩, fun c hc => ih _ (hp.2 c hc) (hq.2 c hc)⟩

theorem along_bind {Q : β → σ → Prop} {p : Prog A R α} {f : α → Prog A R β} {s : σ}
    (hp : p.Along exec P I (fun x t => (f x).Along exec P I Q t) s) : (p >>= f).Along exec P I Q s := by
  induction p generalizing s with
  | ret x => exact hp.2
  | act a k ih => exact ⟨hp.1, fun c hc => ih _ (hp.2 c hc)⟩

theorem Along.weaken {J : σ → Prop} {Q : α → σ → Prop} {p : Prog A R α} {s : σ} (hp : p.Along exec P I Q s)
    (hJ : ∀ t, I t → J t) : p.Along exec P J Q s := by
  induction p generalizing s with
  | ret x => exact ⟨hJ s hp.1, hp.2⟩
  | act a k ih => exact ⟨hJ s hp.1, fun c hc => ih _ (hp.2 c hc)⟩

end World

/-! ## The actions of a program -/

section Actions

/-- every action of the program is in `q` -/
def All (q : A → Prop) : Prog A R α → Prop
  | .ret _ => True
  | .act a k => q a ∧ ∀ r, (k r).All q

/-- on every path through the program at most `n` actions are in `q` -/
def AtMost (q : A → Bool) : ℕ → Prog A R α → Prop
  | _, .ret _ => True
  | n, .act a k => if q a then ∃ m, n = m + 1 ∧ ∀ r, (k r).AtMost q m else ∀ r, (k r).AtMost q n

variable {C : Type} {exec : C → (a : A) → σ → R a × σ} {P : C → Prop} {I : σ → Prop}

theorem All.mono {q q' : A → Prop} {p : Prog A R α} (h : p.All q) (hq : ∀ a, q a → q' a) : p.All q' := by
  induction p with
  | ret x => trivial
  | act a k ih => exact ⟨hq a h.1, fun r => ih r (h.2 r)⟩

theorem all_true (p : Prog A R α) : p.All fun _ => True := by
  induction p with
  | ret x => trivial
  | act a k ih => exact ⟨trivial, ih⟩

theorem all_bind {q : A → Prop} {p : Prog A R α} {f : α → Prog A R β} (hp : p.All q) (hf : ∀ x, (f x).All q) :
    (p >>= f).All q := by
  induction p with
  | ret x => exact hf x
  | act a k ih => exact ⟨hp.1, fun r => ih r (hp.2 r)⟩

theorem AtMost.mono {q : A → Bool} {n m : ℕ} {p : Prog A R α} (h : p.AtMost q n) (hle : n ≤ m) : p.AtMost q m := by
  induction p generalizing n m with
  | ret x => trivial
  | act a k ih =>
    unfold AtMost at h ⊢
    split_ifs at h ⊢ with hq
    · obtain ⟨n, rfl, hk⟩ := h
      exact ⟨m - 1, by omega, fun r => ih r (hk r) (by omega)⟩
    · exact fun r => ih r (h r) hle

theorem atMost_bind {q : A → Bool} {n m : ℕ} {p : Prog A R α} {f : α → Prog A R β} (hp : p.AtMost q n)
    (hf : ∀ x, (f x).AtMost q m) : (p >>= f).AtMost q (n + m) := by
  induction p generalizing n with
  | ret x => exact (hf x).mono (by omega)
  | act a k ih =>
    rw [act_bind]
    unfold AtMost at hp ⊢
    split_ifs at hp ⊢ with hq
    · obtain ⟨n, rfl, hk⟩ := hp
      exact ⟨n + m, by omega, fun r => ih r (hk r)⟩
    · exact fun r => ih r (hp r)

theorem All.atMost {q : A → Bool} {p : Prog A R α} (h : p.All fun a => q a = false) (n : ℕ) : p.AtMost q n := by
  induction p with
  | ret x => trivial
  | act a k ih =>
    unfold AtMost
    rw [if_neg (by rw [h.1]; exact Bool.false_ne_true)]
    exact fun r => ih r (h.2 r)

/-- what the actions in `q` keep is kept by a program that performs only these -/
theorem All.along {q : A → Prop} {p : Prog A R α} (h : p.All q)
    (hstep : ∀ c, P c → ∀ a, q a → ∀ s, I s → I (exec c a s).2) {s : σ} (hs : I s) :
    p.Along exec P I (fun _ t => I t) s := by
  induction p generalizing s with
  | ret x => exact ⟨hs, hs⟩
  | act a k ih => exact ⟨hs, fun c hc => ih _ (h.2 _) (hstep c hc a h.1 s hs)⟩

/-- a measure that only the counted actions raise, each by at most one, rises at most by their number -/
theorem AtMost.along {q : A → Bool} {p : Prog A R α} {μ : σ → ℕ}
    (hcount : ∀ c, P c → ∀ a s, μ (exec c a s).2 ≤ μ s + if q a then 1 else 0) {n k : ℕ} (h : p.AtMost q n) {s : σ}
    (hs : μ s ≤ k) : p.Along exec P (fun t => μ t ≤ k + n) (fun _ _ => True) s := by
  induction p generalizing s n k with
  | ret x => exact ⟨by omega, trivial⟩
  | act a f ih =>
    refine ⟨by omega, fun c hc => ?_⟩
    have hle := hcount c hc a s
    unfold AtMost at h
    split_ifs at h hle with hq
    · obtain ⟨n, rfl, hk⟩ := h
      have hnext := ih _ (hk (exec c a s).1) (s := (exec c a s).2) (k := k + 1) (by omega)
      exact hnext.weaken fun t ht => by omega
    · exact ih _ (h _) (by omega)

end Actions

/-! ## Programs that may raise -/

section Raise

variable {ε C : Type} {exec : C → (a : A) → σ → R a × σ} {P : C → Prop} {I : σ → Prop}

/-- perform one action, in a program that may raise -/
def ask (a : A) : ExceptT ε (Prog A R) (R a) := ExceptT.lift (perform a)

/-- `I` all the way, `Q` if the program returns, `E` if it raises -/
def Runs (exec : C → (a : A) → σ → R a × σ) (P : C → Prop) (I : σ → Prop) (p : ExceptT ε (Prog A R) α) (s : σ)
    (Q : α → σ → Prop) (E : ε → σ → Prop) : Prop :=
  p.run.Along exec P I (fun r t => match r with | .ok x => Q x t | .error e => E e t) s

variable {Q : α → σ → Prop} {E : ε → σ → Prop} {s : σ}

theorem runs_pure {x : α} (hI : I s) (h : Q x s) : Runs exec P I (pure x : ExceptT ε (Prog A R) α) s Q E := ⟨hI, h⟩

theorem runs_throw {e : ε} (hI : I s) (h : E e s) : Runs exec P I (throw e : ExceptT ε (Prog A R) α) s Q E := ⟨hI, h⟩

theorem runs_ask {a : A} {Q : R a → σ → Prop} (hI : I s)
    (h : ∀ c, P c → ∀ r t, exec c a s = (r, t) → I t ∧ Q r t) :
    Runs exec P I (ask a : ExceptT ε (Prog A R) (R a)) s Q E :=
  ⟨hI, fun c hc => h c hc _ _ rfl⟩

/-- an action and what follows it -/
theorem runs_act {a : A} {f : R a → ExceptT ε (Prog A R) α} (hI : I s)
    (h : ∀ c, P c → ∀ r t, exec c a s = (r, t) → Runs exec P I (f r) t Q E) :
    Runs exec P I ((ask a : ExceptT ε (Prog A R) (R a)) >>= f) s Q E :=
  ⟨hI, fun c hc => h c hc _ _ rfl⟩

theorem runs_bind {Q : β → σ → Prop} {p : ExceptT ε (Prog A R) α} {f : α → ExceptT ε (Prog A R) β}
    (h : Runs exec P I p s (fun x t => Runs exec P I (f x) t Q E) E) : Runs exec P I (p >>= f) s Q E := by
  refine along_bind (Along.mono h fun r t hI hr => ?_)
  cases r with
  | ok x => exact hr
  | error e => exact ⟨hI, hr⟩

theorem runs_tryCatch {p : ExceptT ε (Prog A R) α} {f : ε → ExceptT ε (Prog A R) α}
    (h : Runs exec P I p s Q (fun e t => Runs exec P I (f e) t Q E)) : Runs exec P I (tryCatch p f) s Q E := by
  refine along_bind (Along.mono h fun r t hI hr => ?_)
  cases r with
  | ok x => exact ⟨hI, hr⟩
  | error e => exact hr

/-- an invariant of its actions holds all along, and where the program returns or raises -/
theorem All.runs {q : A → Prop} {p : ExceptT ε (Prog A R) α} (h : p.run.All q)
    (hstep : ∀ c, P c → ∀ a, q a → ∀ s, I s → I (exec c a s).2) (hs : I s) :
    Runs exec P I p s (fun _ t => I t) fun _ t => I t := by
  refine Along.mono (h.along hstep hs) fun r t _ hr => ?_
  cases r with
  | ok x => exact hr
  | error e => exact hr

theorem Runs.mono {p : ExceptT ε (Prog A R) α} {Q' : α → σ → Prop} {E' : ε → σ → Prop} (h : Runs exec P I p s Q E)
    (hQ : ∀ x t, I t → Q x t → Q' x t) (hE : ∀ e t, I t → E e t → E' e t) : Runs exec P I p s Q' E' := by
  refine Along.mono h fun r t hI hr => ?_
  cases r with
  | ok x => exact hQ x t hI hr
  | error e => exact hE e t hI hr

theorem Runs.and {p : ExceptT ε (Prog A R) α} {J : σ → Prop} {Q' : α → σ → Prop} {E' : ε → σ → Prop}
    (h : Runs exec P I p s Q E) (h' : Runs exec P J p s Q' E') :
    Runs exec P (fun t => I t ∧ J t) p s (fun x t => Q x t ∧ Q' x t) fun e t => E e t ∧ E' e t := by
  refine Along.mono (Along.and h h') fun r t _ hr => ?_
  cases r with
  | ok x => exact hr
  | error e => exact hr

theorem Runs.weaken {p : ExceptT ε (Prog A R) α} {J : σ → Prop} (h : Runs exec P I p s Q E) (hJ : ∀ t, I t → J t) :
    Runs exec P J p s Q E :=
  Along.weaken h hJ

/-- an execution to the end has returned with `Q` or raised with `E` -/
theorem Runs.finish {p : ExceptT ε (Prog A R) α} (h : Runs exec P I p s Q E) (d : C) (hd : P d) (cs : List C)
    (hcs : ∀ c ∈ cs, P c) :
    (∃ x, (p.run.finish exec d cs s).1 = .ok x ∧ Q x (p.run.finish exec d cs s).2) ∨
      ∃ e, (p.run.finish exec d cs s).1 = .error e ∧ E e (p.run.finish exec d cs s).2 := by
  have hend := Along.finish h hd hcs
  revert hend
  cases (p.run.finish exec d cs s).1 with
  | ok x => exact fun hq => Or.inl ⟨x, rfl, hq⟩
  | error e => exact fun he => Or.inr ⟨e, rfl, he⟩

/-- from `J` the program ends in `J`, whether it returns or raises -/
def Preserves (exec : C → (a : A) → σ → R a × σ) (P : C → Prop) (J : σ → Prop) (p : ExceptT ε (Prog A R) α) : Prop :=
  ∀ s, J s → Runs exec P (fun _ => True) p s (fun _ t => J t) fun _ t => J t

variable {J : σ → Prop}

theorem preserves_pure (x : α) : Preserves exec P J (pure x : ExceptT ε (Prog A R) α) := fun _ h => runs_pure trivial h

theorem preserves_throw (e : ε) : Preserves exec P J (throw e : ExceptT ε (Prog A R) α) := fun _ h => runs_throw trivial h

theorem preserves_bind {p : ExceptT ε (Prog A R) α} {f : α → ExceptT ε (Prog A R) β} (hp : Preserves exec P J p)
    (hf : ∀ x, Preserves exec P J (f x)) : Preserves exec P J (p >>= f) :=
  fun s h => runs_bind ((hp s h).mono (fun x t _ ht => hf x t ht) fun _ _ _ ht => ht)

theorem preserves_tryCatch {p : ExceptT ε (Prog A R) α} {f : ε → ExceptT ε (Prog A R) α} (hp : Preserves exec P J p)
    (hf : ∀ e, Preserves exec P J (f e)) : Preserves exec P J (tryCatch p f) :=
  fun s h => runs_tryCatch ((hp s h).mono (fun _ _ _ ht => ht) fun e t _ ht => hf e t ht)

theorem All.preserves {q : A → Prop} {p : ExceptT ε (Prog A R) α} (h : p.run.All q)
    (hstep : ∀ c, P c → ∀ a, q a → ∀ s, J s → J (exec c a s).2) : Preserves exec P J p :=
  fun _ hs => (h.runs hstep hs).weaken fun _ _ => trivial

variable {q : A → Prop}

theorem all_pure (x : α) : (pure x : ExceptT ε (Prog A R) α).run.All q := trivial

theorem all_throw (e : ε) : (throw e : ExceptT ε (Prog A R) α).run.All q := trivial

theorem all_ask {a : A} (h : q a) : (ask a : ExceptT ε (Prog A R) (R a)).run.All q := ⟨h, fun _ => trivial⟩

theorem all_seq {p : ExceptT ε (Prog A R) α} {f : α → ExceptT ε (Prog A R) β} (hp : p.run.All q)
    (hf : ∀ x, (f x).run.All q) : (p >>= f).run.All q := by
  refine all_bind hp fun r => ?_
  cases r with
  | ok x => exact hf x
  | error e => trivial

theorem all_tryCatch {p : ExceptT ε (Prog A R) α} {f : ε → ExceptT ε (Prog A R) α} (hp : p.run.All q)
    (hf : ∀ e, (f e).run.All q) : (tryCatch p f).run.All q := by
  refine all_bind hp fun r => ?_
  cases r with
  | ok x => trivial
  | error e => exact hf e

variable {r : A → Bool} {n m : ℕ}

theorem atMost_seq {p : ExceptT ε (Prog A R) α} {f : α → ExceptT ε (Prog A R) β} (hp : p.run.AtMost r n)
    (hf : ∀ x, (f x).run.AtMost r m) : (p >>= f).run.AtMost r (n + m) := by
  refine atMost_bind hp fun x => ?_
  cases x with
  | ok x => exact hf x
  | error e => trivial

theorem atMost_tryCatch {p : ExceptT ε (Prog A R) α} {f : ε → ExceptT ε (Prog A R) α} (hp : p.run.AtMost r n)
    (hf : ∀ e, (f e).run.AtMost r m) : (tryCatch p f).run.AtMost r (n + m) := by
  refine atMost_bind hp fun x => ?_
  cases x with
  | ok x => trivial
  | error e => exact hf e

end Raise

end Prog

end Lib
