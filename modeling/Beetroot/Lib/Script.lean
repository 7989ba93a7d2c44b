/-
Scripts: programs of commands that have an exit status, some of which end the script when they fail.

`must` and `run` perform a command that ends the script when it fails, `test`, `attempt` and `ifOk` one whose status the script
looks at. A script may also end itself (`leave`). Which commands are critical can be read off the program: `Disciplined critical
allowed exits p` says that `p` performs allowed commands only, and ends at once when a critical one fails, and only then, or by
one of the `exits`. The world is logged: each command with its success.

Results:
- `disciplined_bind`, `disciplined_must`, `disciplined_ifOk` and so on: the rules for programs;
- `Disciplined.runs`: a script that returns has seen no critical command fail, one that ends early has seen exactly one, the
  last command, or has ended itself;
- `runs_must`, `runs_ifOk` and so on: the rules for what a script does to the world.
-/
import Beetroot.Lib.Prog

namespace Lib.Script

open Lib.Prog

/-- the exit status of a command, and what it prints -/
structure Answer (O : Type) where
  ok : Bool
  out : O

/-- why a script ends early -/
inductive Stop (A ε : Type) where
  | failed (a : A)
  | exit (e : ε)
deriving DecidableEq, Repr

variable {A O ε C σ α β : Type}

abbrev Sh (A O ε : Type) := ExceptT (Stop A ε) (Prog A fun _ => Answer O)

/-- what the command prints; its failure ends the script -/
def must (a : A) : Sh A O ε O := do
  let r ← ask a
  if r.ok then pure r.out else throw (.failed a)

def run (a : A) : Sh A O ε Unit := do
  let _ ← must a
  pure ()

/-- whether the command succeeds -/
def test (a : A) : Sh A O ε Bool := do
  let r ← ask a
  pure r.ok

/-- `a || :` -/
def attempt (a : A) : Sh A O ε Unit := do
  let _ ← test a
  pure ()

/-- `if a; then p; else q; fi` -/
def ifOk (a : A) (p : Sh A O ε α) (q : Sh A O ε α) : Sh A O ε α := do
  let ok ← test a
  if ok then p else q

/-- what the command prints, whatever its status -/
def output (a : A) : Sh A O ε O := do
  let r ← ask a
  pure r.out

/-- the script ends itself -/
def leave (e : ε) : Sh A O ε α := throw (.exit e)

/-- the commands so far, each with its success -/
abbrev Log (A : Type) := List (A × Bool)

/-- the world, and what has been noted of the commands so far -/
def noted {N : Type} (note : A → Answer O → N) (exec : C → A → σ → Answer O × σ) (c : C) (a : A) (s : σ × List N) :
    Answer O × (σ × List N) :=
  ((exec c a s.1).1, (exec c a s.1).2, s.2 ++ [note a (exec c a s.1).1])

abbrev logged (exec : C → A → σ → Answer O × σ) : C → A → σ × Log A → Answer O × (σ × Log A) := noted (fun a r => (a, r.ok)) exec

/-! ## Discipline -/

section Discipline

variable (critical allowed : A → Bool) (exits : ε → Bool)

/-- no critical command has failed -/
def Clean (l : Log A) : Prop := ∀ a, (a, false) ∈ l → critical a = false

/-- the program performs allowed commands, and ends when a critical one fails, and only then, or by one of the exits -/
def Disciplined : Prog A (fun _ => Answer O) (Except (Stop A ε) α) → Prop
  | .ret (.ok _) => True
  | .ret (.error (.exit e)) => exits e = true
  | .ret (.error (.failed _)) => False
  | .act a k => allowed a = true ∧
    ∀ r : Answer O, if critical a && !r.ok then k r = .ret (.error (.failed a)) else Disciplined (k r)

variable {critical allowed} {exits} {a : A}

theorem disciplined_pure (x : α) : Disciplined critical allowed exits (pure x : Sh A O ε α).run := trivial

theorem disciplined_leave {e : ε} (h : exits e = true) : Disciplined critical allowed exits (leave e : Sh A O ε α).run := h

theorem disciplined_must (h : critical a = true) (ha : allowed a = true) :
    Disciplined critical allowed exits (must a : Sh A O ε O).run := by
  refine ⟨ha, fun r => ?_⟩
  cases hr : r.ok with
  | true =>
    rw [Bool.not_true, Bool.and_false, if_neg Bool.false_ne_true]
    change Disciplined critical allowed exits (if r.ok then (pure r.out : Sh A O ε O) else throw (.failed a)).run
    rw [hr]
    exact disciplined_pure _
  | false =>
    rw [h, Bool.not_false, Bool.and_self, if_pos rfl]
    change (if r.ok then (pure r.out : Sh A O ε O) else throw (.failed a)).run = _
    rw [hr]
    rfl

theorem disciplined_test (h : critical a = false) (ha : allowed a = true) :
    Disciplined critical allowed exits (test a : Sh A O ε Bool).run := by
  refine ⟨ha, fun r => ?_⟩
  rw [h, Bool.false_and, if_neg Bool.false_ne_true]
  trivial

theorem disciplined_output (h : critical a = false) (ha : allowed a = true) :
    Disciplined critical allowed exits (output a : Sh A O ε O).run := by
  refine ⟨ha, fun r => ?_⟩
  rw [h, Bool.false_and, if_neg Bool.false_ne_true]
  trivial

theorem disciplined_bind {p : Sh A O ε α} {f : α → Sh A O ε β} (hp : Disciplined critical allowed exits p.run)
    (hf : ∀ x, Disciplined critical allowed exits (f x).run) : Disciplined critical allowed exits (p >>= f).run := by
  have htree : ∀ p : Prog A (fun _ => Answer O) (Except (Stop A ε) α), Disciplined critical allowed exits p →
      Disciplined critical allowed exits (p >>= ExceptT.bindCont f) := by
    intro p
    induction p with
    | ret x =>
      intro h
      cases x with
      | ok x => exact hf x
      | error e => cases e with
        | failed a => exact h.elim
        | exit e => exact h
    | act a k ih =>
      intro h
      refine ⟨h.1, fun r => ?_⟩
      have hr := h.2 r
      split_ifs at hr ⊢ with hc
      · change k r >>= ExceptT.bindCont f = _
        rw [hr]
        rfl
      · exact ih r hr
  exact htree p.run hp

theorem disciplined_run (h : critical a = true) (ha : allowed a = true) :
    Disciplined critical allowed exits (run a : Sh A O ε Unit).run :=
  disciplined_bind (disciplined_must h ha) fun _ => disciplined_pure ()

theorem disciplined_attempt (h : critical a = false) (ha : allowed a = true) :
    Disciplined critical allowed exits (attempt a : Sh A O ε Unit).run :=
  disciplined_bind (disciplined_test h ha) fun _ => disciplined_pure ()

theorem disciplined_ifOk {p q : Sh A O ε α} (h : critical a = false) (ha : allowed a = true)
    (hp : Disciplined critical allowed exits p.run) (hq : Disciplined critical allowed exits q.run) :
    Disciplined critical allowed exits (ifOk a p q).run := by
  apply disciplined_bind (disciplined_test h ha)
  intro ok
  cases ok with
  | true => exact hp
  | false => exact hq

theorem Disciplined.mono {allowed' : A → Bool} {exits' : ε → Bool}
    {p : Prog A (fun _ => Answer O) (Except (Stop A ε) α)} (h : Disciplined critical allowed exits p)
    (hle : ∀ a, allowed a = true → allowed' a = true) (hexits : ∀ e, exits e = true → exits' e = true) :
    Disciplined critical allowed' exits' p := by
  induction p with
  | ret x =>
    cases x with
    | ok x => trivial
    | error e => cases e with
      | failed a => exact h.elim
      | exit e => exact hexits e h
  | act a k ih =>
    refine ⟨hle a h.1, fun r => ?_⟩
    have hr := h.2 r
    split_ifs at hr ⊢ with hc
    · exact hr
    · exact ih r hr

theorem Disciplined.all {p : Prog A (fun _ => Answer O) (Except (Stop A ε) α)} (h : Disciplined critical allowed exits p) :
    p.All fun a => allowed a = true := by
  induction p with
  | ret x => trivial
  | act a k ih =>
    refine ⟨h.1, fun r => ?_⟩
    have hr := h.2 r
    split_ifs at hr with hc
    · rw [hr]
      trivial
    · exact ih r hr

theorem clean_append {l m : Log A} (hl : Clean critical l) (hm : Clean critical m) : Clean critical (l ++ m) := by
  intro a ha
  rcases List.mem_append.1 ha with ha | ha
  · exact hl a ha
  · exact hm a ha

/-- what a log says about the end of the script -/
def Cause (critical : A → Bool) (exits : ε → Bool) (l : Log A) : Stop A ε → Prop
  | .failed a => critical a = true ∧ ∃ l', l = l' ++ [(a, false)] ∧ Clean critical l'
  | .exit e => exits e = true ∧ Clean critical l

/-- the commands of a log are allowed -/
def Within (allowed : A → Bool) (l : Log A) : Prop := ∀ x ∈ l, allowed x.1 = true

theorem Disciplined.runs {exec : C → A → σ → Answer O × σ} {P : C → Prop} {p : Sh A O ε α}
    (h : Disciplined critical allowed exits p.run) (s : σ × Log A) :
    Runs (logged exec) P (fun _ => True) p s
      (fun _ t => ∃ l, t.2 = s.2 ++ l ∧ Within allowed l ∧ Clean critical l)
      fun e t => ∃ l, t.2 = s.2 ++ l ∧ Within allowed l ∧ Cause critical exits l e := by
  have htree : ∀ (p : Prog A (fun _ => Answer O) (Except (Stop A ε) α)) (l : Log A) (t : σ × Log A),
      Disciplined critical allowed exits p → t.2 = s.2 ++ l → Within allowed l → Clean critical l →
      Runs (logged exec) P (fun _ => True) (ExceptT.mk p) t
        (fun _ u => ∃ m, u.2 = s.2 ++ m ∧ Within allowed m ∧ Clean critical m)
        fun e u => ∃ m, u.2 = s.2 ++ m ∧ Within allowed m ∧ Cause critical exits m e := by
    intro p
    induction p with
    | ret x =>
      intro l t h ht hw hl
      refine ⟨trivial, ?_⟩
      cases x with
      | ok x => exact ⟨l, ht, hw, hl⟩
      | error e => cases e with
        | failed a => exact h.elim
        | exit e => exact ⟨l, ht, hw, h, hl⟩
    | act a k ih =>
      intro l t h ht hw hl
      refine ⟨trivial, fun c _ => ?_⟩
      have hlog : (logged exec c a t).2.2 = s.2 ++ (l ++ [(a, (exec c a t.1).1.ok)]) := by
        rw [← List.append_assoc, ← ht]
        rfl
      have hwithin : Within allowed (l ++ [(a, (exec c a t.1).1.ok)]) := by
        intro x hx
        rcases List.mem_append.1 hx with hx | hx
        · exact hw x hx
        · rw [List.mem_singleton.1 hx]
          exact h.1
      have hr := h.2 (exec c a t.1).1
      split_ifs at hr with hc
      · obtain ⟨hcrit, hok⟩ := Bool.and_eq_true_iff.1 hc
        rw [Bool.not_eq_true'] at hok
        rw [hok] at hlog hwithin
        change Along _ _ _ _ (k (exec c a t.1).1) _
        rw [hr]
        exact ⟨trivial, _, hlog, hwithin, hcrit, l, rfl, hl⟩
      · refine ih _ _ _ hr hlog hwithin (clean_append hl ?_)
        intro b hb
        have heq : (b, false) = (a, (exec c a t.1).1.ok) := List.mem_singleton.1 hb
        obtain ⟨rfl, hok⟩ := Prod.ext_iff.1 heq
        have hfalse : (exec c b t.1).1.ok = false := hok.symm
        rw [hfalse] at hc
        simpa using hc
  exact htree p.run [] s h (List.append_nil _).symm (fun x hx => absurd hx List.not_mem_nil)
    fun a ha => absurd ha List.not_mem_nil

end Discipline

/-! ## What a script does to the world -/

/-- what the allowed commands keep holds where the script returns or ends -/
theorem Disciplined.keeps {exec : C → A → σ → Answer O × σ} {P : C → Prop} {critical allowed : A → Bool}
    {exits : ε → Bool} {p : Sh A O ε α} (h : Disciplined critical allowed exits p.run) {J : σ → Prop}
    (hstep : ∀ c a s, allowed a = true → J s → J (exec c a s).2) {s : σ × Log A} (hs : J s.1) :
    Runs (logged exec) P (fun t => J t.1) p s (fun _ t => J t.1) fun _ t => J t.1 :=
  h.all.runs (fun c _ a ha t ht => hstep c a t.1 ha ht) hs

/-- a script that ends early has seen a critical command fail, or has ended itself -/
theorem Disciplined.ends {exec : C → A → σ → Answer O × σ} {P : C → Prop} {critical allowed : A → Bool}
    {exits : ε → Bool} {p : Sh A O ε α} (h : Disciplined critical allowed exits p.run) (s : σ) :
    Runs exec P (fun _ => True) p s (fun _ _ => True) fun e _ =>
      (∃ a, e = .failed a ∧ critical a = true) ∨ ∃ r, e = .exit r ∧ exits r = true := by
  have htree : ∀ (p : Prog A (fun _ => Answer O) (Except (Stop A ε) α)) (t : σ), Disciplined critical allowed exits p →
      Runs exec P (fun _ => True) (ExceptT.mk p) t (fun _ _ => True) fun e _ =>
        (∃ a, e = .failed a ∧ critical a = true) ∨ ∃ r, e = .exit r ∧ exits r = true := by
    intro p
    induction p with
    | ret x =>
      intro t h
      refine ⟨trivial, ?_⟩
      cases x with
      | ok x => trivial
      | error e => cases e with
        | failed a => exact h.elim
        | exit r => exact .inr ⟨r, rfl, h⟩
    | act a k ih =>
      intro t h
      refine ⟨trivial, fun c _ => ?_⟩
      have hr := h.2 (exec c a t).1
      split_ifs at hr with hc
      · rw [hr]
        exact ⟨trivial, .inl ⟨a, rfl, (Bool.and_eq_true_iff.1 hc).1⟩⟩
      · exact ih _ _ hr
  exact htree p.run s h

section Footprint

variable {q : A → Prop} {a : A}

theorem all_test (h : q a) : (test a : Sh A O ε Bool).run.All q := all_seq (all_ask h) fun _ => all_pure _

theorem all_attempt (h : q a) : (attempt a : Sh A O ε Unit).run.All q := all_seq (all_test h) fun _ => all_pure ()

theorem all_output (h : q a) : (output a : Sh A O ε O).run.All q := all_seq (all_ask h) fun _ => all_pure _

theorem all_ifOk {x y : Sh A O ε α} (h : q a) (hx : x.run.All q) (hy : y.run.All q) : (ifOk a x y).run.All q := by
  refine all_seq (all_test h) fun ok => ?_
  cases ok with
  | true => exact hx
  | false => exact hy

end Footprint

section Rules

variable {N : Type} {note : A → Answer O → N} {exec : C → A → σ → Answer O × σ} {P : C → Prop} {I : σ × List N → Prop}
  {s : σ × List N} {a : A} {Q : α → σ × List N → Prop} {E : Stop A ε → σ × List N → Prop}

theorem runs_ifOk {p q : Sh A O ε α} (hI : I s)
    (h : ∀ c, P c → Runs (noted note exec) P I (if (exec c a s.1).1.ok then p else q) (noted note exec c a s).2 Q E) :
    Runs (noted note exec) P I (ifOk a p q) s Q E :=
  ⟨hI, h⟩

theorem runs_attempt {Q : Unit → σ × List N → Prop} (hI : I s)
    (h : ∀ c, P c → I (noted note exec c a s).2 ∧ Q () (noted note exec c a s).2) :
    Runs (noted note exec) P I (attempt a : Sh A O ε Unit) s Q E :=
  ⟨hI, h⟩

theorem runs_output {Q : O → σ × List N → Prop} (hI : I s)
    (h : ∀ c, P c → I (noted note exec c a s).2 ∧ Q (exec c a s.1).1.out (noted note exec c a s).2) :
    Runs (noted note exec) P I (output a : Sh A O ε O) s Q E :=
  ⟨hI, h⟩

theorem runs_must {Q : O → σ × List N → Prop} (hI : I s)
    (h : ∀ c, P c → I (noted note exec c a s).2 ∧ if (exec c a s.1).1.ok then Q (exec c a s.1).1.out (noted note exec c a s).2
      else E (.failed a) (noted note exec c a s).2) : Runs (noted note exec) P I (must a : Sh A O ε O) s Q E := by
  refine runs_act hI fun c hc r t hr => ?_
  cases hr
  obtain ⟨hI', h'⟩ := h c hc
  change if (exec c a s.1).1.ok then _ else _ at h'
  change Runs _ _ _ (if (exec c a s.1).1.ok then _ else _) _ _ _
  split_ifs at h' ⊢ with hok
  · exact runs_pure hI' h'
  · exact runs_throw hI' h'

theorem runs_run {Q : Unit → σ × List N → Prop} (hI : I s)
    (h : ∀ c, P c → I (noted note exec c a s).2 ∧ if (exec c a s.1).1.ok then Q () (noted note exec c a s).2
      else E (.failed a) (noted note exec c a s).2) : Runs (noted note exec) P I (run a : Sh A O ε Unit) s Q E := by
  apply runs_bind
  refine (runs_must (Q := fun _ t => Q () t) hI h).mono ?_ fun _ _ _ he => he
  intro _ t hI' hq
  exact runs_pure hI' hq

end Rules

end Lib.Script
