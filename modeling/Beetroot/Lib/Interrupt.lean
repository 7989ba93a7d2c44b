/-
Programs that may be interrupted at any action.

`expose l p` is the program `p` (`Lib.Prog`) with each of its actions marked by a label `l`, where an action may raise instead
of answering. The exception is one that the program knows, or one from outside (`interrupt`); it comes before the action has
taken effect, or after. The labels say in which part of a larger program an action stands, so that conditions on the world can
depend on it. An exposed program has lost none of its handlers as long as `p` itself has none: larger programs are put
together from exposed parts with `>>=` and `tryCatch`.

Results:
- `strips_expose`, `strips_bind`, `strips_tryCatch`: where nothing is interrupted, the exposed program is the program;
- `Strips.finish`: so it ends in the same way;
- `runs_expose_ask`, `Runs.expose`: what an exposed action can do, and an exposed program;
- `All.expose`, `AtMost.expose`: exposing a program does not change which actions it performs.
-/
import Beetroot.Lib.Prog

namespace Lib.Prog

/-- an exception that passes through a program: one that it knows, or one from outside -/
inductive Raised (ε : Type) where
  | own (e : ε)
  | interrupt
deriving DecidableEq, Repr

/-- what becomes of an action: it is answered, or it raises before or after it has taken effect -/
inductive Outcome (C ε : Type) where
  | answer (c : C)
  | raise (e : Raised ε)
  | raiseAfter (c : C) (e : Raised ε)

variable {A L ε C α β σ : Type} {R : A → Type}

/-- the exception of an action that raises -/
def Outcome.raised : Outcome C ε → Option (Raised ε)
  | .answer _ => none
  | .raise e | .raiseAfter _ e => some e

/-- what a labelled action gives back -/
@[reducible] def Reply (R : A → Type) (L ε : Type) (x : L × A) : Type := Except (Raised ε) (R x.2)

abbrev Exposed (R : A → Type) (L ε : Type) := ExceptT (Raised ε) (Prog (L × A) (Reply R L ε))

/-- an exception of the program, seen from the exposed one -/
def ofOwn : Except ε α → Except (Raised ε) α
  | .ok x => .ok x
  | .error e => .error (.own e)

def exposeTree (l : L) : Prog A R (Except ε α) → Prog (L × A) (Reply R L ε) (Except (Raised ε) α)
  | .ret x => .ret (ofOwn x)
  | .act a k => .act (l, a) (ExceptT.bindCont fun r => exposeTree l (k r))

def expose (l : L) (p : ExceptT ε (Prog A R) α) : Exposed R L ε α := exposeTree l p.run

/-- the world of the exposed programs; its choice at a step may depend on the label and the action -/
def execExposed (exec : C → (a : A) → σ → R a × σ) (w : L × A → Outcome C ε) (x : L × A) (s : σ) : Reply R L ε x × σ :=
  match w x with
  | .answer c => (.ok (exec c x.2 s).1, (exec c x.2 s).2)
  | .raise e => (.error e, s)
  | .raiseAfter c e => (.error e, (exec c x.2 s).2)

section Rules

variable {exec : C → (a : A) → σ → R a × σ} {P : (L × A → Outcome C ε) → Prop} {I : σ → Prop} {l : L} {s : σ}

theorem All.exposeTree {q : A → Prop} {p : Prog A R (Except ε α)} (h : p.All q) :
    (exposeTree l p).All fun x : L × A => x.1 = l ∧ q x.2 := by
  induction p with
  | ret x => trivial
  | act a k ih =>
    refine ⟨⟨rfl, h.1⟩, fun r => ?_⟩
    cases r with
    | ok r => exact ih r (h.2 r)
    | error e => trivial

/-- the actions of an exposed program are those of the program -/
theorem All.expose {q : A → Prop} {p : ExceptT ε (Prog A R) α} (h : p.run.All q) :
    (expose l p).run.All fun x : L × A => x.1 = l ∧ q x.2 :=
  h.exposeTree

theorem AtMost.exposeTree {q : A → Bool} {n : ℕ} {p : Prog A R (Except ε α)} (h : p.AtMost q n) :
    (exposeTree l p).AtMost (fun x : L × A => q x.2) n := by
  induction p generalizing n with
  | ret x => trivial
  | act a k ih =>
    unfold Prog.exposeTree
    unfold AtMost at h ⊢
    have hreply : ∀ m, (∀ r, (k r).AtMost q m) → ∀ r : Reply R L ε (l, a),
        (ExceptT.bindCont (fun r => Prog.exposeTree l (k r)) r).AtMost (fun x : L × A => q x.2) m := by
      intro m hk r
      cases r with
      | ok r => exact ih r (hk r)
      | error e => trivial
    split_ifs at h ⊢ with hq
    · obtain ⟨m, rfl, hk⟩ := h
      exact ⟨m, rfl, hreply m hk⟩
    · exact hreply n h

theorem AtMost.expose {q : A → Bool} {n : ℕ} {p : ExceptT ε (Prog A R) α} (h : p.run.AtMost q n) :
    (expose l p).run.AtMost (fun x : L × A => q x.2) n :=
  h.exposeTree

/-- what every effect of an action keeps is kept when it raises, too -/
theorem exec_keeps {x : L × A} (hstep : ∀ c s, I s → I (exec c x.2 s).2) (w : L × A → Outcome C ε) (hs : I s) :
    I (execExposed exec w x s).2 := by
  unfold execExposed
  split
  · exact hstep _ _ hs
  · exact hs
  · exact hstep _ _ hs

theorem expose_bind (l : L) (p : ExceptT ε (Prog A R) α) (f : α → ExceptT ε (Prog A R) β) :
    expose l (p >>= f) = expose l p >>= fun x => expose l (f x) := by
  have h : ∀ p : Prog A R (Except ε α), Prog.exposeTree l (p >>= ExceptT.bindCont f) =
      Prog.exposeTree l p >>= ExceptT.bindCont fun x => expose l (f x) := by
    intro p
    induction p with
    | ret x => cases x <;> rfl
    | act a k ih =>
      refine congrArg (Prog.act (l, a)) (funext fun r => ?_)
      cases r with
      | ok r => exact ih r
      | error e => rfl
  exact h p.run

variable {Q : α → σ → Prop} {E : Raised ε → σ → Prop}

/-- one exposed action -/
theorem runs_expose_ask {a : A} {Q : R a → σ → Prop} (hI : I s)
    (hanswer : ∀ w c, P w → w (l, a) = .answer c → I (exec c a s).2 ∧ Q (exec c a s).1 (exec c a s).2)
    (hraise : ∀ w e, P w → w (l, a) = .raise e → E e s)
    (hafter : ∀ w c e, P w → w (l, a) = .raiseAfter c e → I (exec c a s).2 ∧ E e (exec c a s).2) :
    Runs (execExposed exec) P I (expose l (ask a : ExceptT ε (Prog A R) (R a))) s Q E := by
  refine ⟨hI, fun w hw => ?_⟩
  unfold execExposed
  cases hx : w (l, a) with
  | answer c => exact hanswer w c hw hx
  | raise e => exact ⟨hI, hraise w e hw hx⟩
  | raiseAfter c e => exact hafter w c e hw hx

/-- an exposed program does what the program does, until one of its actions raises -/
theorem Runs.expose {q : A → Prop} {E : ε → σ → Prop} {F : Raised ε → σ → Prop} {p : ExceptT ε (Prog A R) α}
    (h : Runs exec (fun _ => True) I p s Q E) (hq : p.run.All q)
    (hE : ∀ w, P w → ∀ a, q a → ∀ e t, (w (l, a)).raised = some e → I t → F e t) :
    Runs (execExposed exec) P I (expose l p) s Q fun e t => (∃ e₀, e = .own e₀ ∧ E e₀ t) ∨ F e t := by
  have htree : ∀ (p : Prog A R (Except ε α)) s, p.All q → Runs exec (fun _ => True) I (ExceptT.mk p) s Q E →
      Runs (execExposed exec) P I (Prog.expose l (ExceptT.mk p)) s Q fun e t => (∃ e₀, e = .own e₀ ∧ E e₀ t) ∨ F e t := by
    intro p
    induction p with
    | ret x =>
      intro s _ h
      cases x with
      | ok x => exact h
      | error e => exact ⟨h.1, Or.inl ⟨e, rfl, h.2⟩⟩
    | act a k ih =>
      intro s hall h
      refine ⟨h.1, fun w hw => ?_⟩
      unfold execExposed
      cases hx : w (l, a) with
      | answer c => exact ih _ _ (hall.2 _) (h.2 c trivial)
      | raise e => exact ⟨h.1, Or.inr (hE w hw a hall.1 e s (by rw [hx]; rfl) h.1)⟩
      | raiseAfter c e =>
        have hI : I (exec c a s).2 := Along.inv (h.2 c trivial)
        exact ⟨hI, Or.inr (hE w hw a hall.1 e _ (by rw [hx]; rfl) hI)⟩
  exact htree p.run s hq h

end Rules

/-! ## Without interruptions -/

/-- the program of an exposed program in which every action is answered -/
def strip : Prog (L × A) (Reply R L ε) α → Prog A R α
  | .ret x => .ret x
  | .act x k => .act x.2 fun r => (k (.ok r)).strip

/-- where nothing is interrupted, the exposed program `q` is the program `p` -/
def Strips (q : Exposed R L ε α) (p : ExceptT ε (Prog A R) α) : Prop := q.run.strip = p.run >>= fun x => .ret (ofOwn x)

theorem bind_assoc {γ : Type} (p : Prog A R α) (f : α → Prog A R β) (g : β → Prog A R γ) :
    (p >>= f) >>= g = p >>= fun x => f x >>= g := by
  induction p with
  | ret x => rfl
  | act a k ih => exact congrArg (Prog.act a) (funext fun r => ih r)

theorem strip_bind (p : Prog (L × A) (Reply R L ε) α) (f : α → Prog (L × A) (Reply R L ε) β) :
    (p >>= f).strip = p.strip >>= fun x => (f x).strip := by
  induction p with
  | ret x => rfl
  | act x k ih => exact congrArg (Prog.act x.2) (funext fun r => ih (.ok r))

theorem strips_expose (l : L) (p : ExceptT ε (Prog A R) α) : Strips (expose l p) p := by
  have h : ∀ p : Prog A R (Except ε α), (exposeTree l p).strip = p >>= fun x => .ret (ofOwn x) := by
    intro p
    induction p with
    | ret x => rfl
    | act a k ih => exact congrArg (Prog.act a) (funext fun r => ih r)
  exact h p.run

theorem strips_pure (x : α) : Strips (pure x : Exposed R L ε α) (pure x) := rfl

theorem strips_throw (e : ε) : Strips (throw (.own e) : Exposed R L ε α) (throw e) := rfl

theorem strips_bind {q : Exposed R L ε α} {p : ExceptT ε (Prog A R) α} {g : α → Exposed R L ε β}
    {f : α → ExceptT ε (Prog A R) β} (h : Strips q p) (hf : ∀ x, Strips (g x) (f x)) : Strips (q >>= g) (p >>= f) := by
  unfold Strips at h ⊢
  calc (q >>= g).run.strip
      = q.run.strip >>= fun x => (ExceptT.bindCont g x).strip := strip_bind _ _
    _ = p.run >>= fun x => (ExceptT.bindCont g (ofOwn x)).strip := by rw [h, bind_assoc]; rfl
    _ = p.run >>= fun x => ExceptT.bindCont f x >>= fun y => .ret (ofOwn y) := by
      congr 1
      funext x
      cases x with
      | ok x => exact hf x
      | error e => rfl
    _ = (p >>= f).run >>= fun x => .ret (ofOwn x) := (bind_assoc _ _ _).symm

/-- what `tryCatch` continues with -/
def onError {δ : Type} (f : δ → ExceptT δ (Prog A R) α) : Except δ α → Prog A R (Except δ α)
  | .ok x => .ret (.ok x)
  | .error e => (f e).run

theorem run_tryCatch {δ : Type} (p : ExceptT δ (Prog A R) α) (f : δ → ExceptT δ (Prog A R) α) :
    (tryCatch p f).run = p.run >>= onError f := by
  refine congrArg (p.run >>= ·) (funext fun x => ?_)
  cases x <;> rfl

theorem strips_tryCatch {q : Exposed R L ε α} {p : ExceptT ε (Prog A R) α} {g : Raised ε → Exposed R L ε α}
    {f : ε → ExceptT ε (Prog A R) α} (h : Strips q p) (hf : ∀ e, Strips (g (.own e)) (f e)) :
    Strips (tryCatch q g) (tryCatch p f) := by
  unfold Strips at h ⊢
  rw [run_tryCatch, run_tryCatch, strip_bind, h, bind_assoc, bind_assoc]
  congr 1
  funext x
  cases x with
  | ok x => rfl
  | error e => exact hf e

theorem finish_bind_ret (exec : C → (a : A) → σ → R a × σ) (d : C) (cs : List C) (p : Prog A R α) (f : α → β) (s : σ) :
    (p >>= fun x => .ret (f x)).finish exec d cs s = (f (p.finish exec d cs s).1, (p.finish exec d cs s).2) := by
  induction p generalizing cs s with
  | ret x => rfl
  | act a k ih =>
    cases cs with
    | nil => exact ih _ [] _
    | cons c cs => exact ih _ cs _

/-- the answers of a world that does not interrupt -/
def answers (c : C) : L × A → Outcome C ε := fun _ => .answer c

theorem finish_strip (exec : C → (a : A) → σ → R a × σ) (d : C) (cs : List C) (q : Prog (L × A) (Reply R L ε) α) (s : σ) :
    q.finish (execExposed exec) (answers d) (cs.map answers) s = q.strip.finish exec d cs s := by
  induction q generalizing cs s with
  | ret x => rfl
  | act x k ih =>
    cases cs with
    | nil => exact ih _ [] _
    | cons c cs => exact ih _ cs _

theorem Strips.finish {q : Exposed R L ε α} {p : ExceptT ε (Prog A R) α} (h : Strips q p)
    (exec : C → (a : A) → σ → R a × σ) (d : C) (cs : List C) (s : σ) :
    q.run.finish (execExposed exec) (answers d) (cs.map answers) s =
      (ofOwn (p.run.finish exec d cs s).1, (p.run.finish exec d cs s).2) := by
  rw [finish_strip, h, finish_bind_ret]

end Lib.Prog
