/-
Transcripts: the commands of a script, each with its answer, and the languages of the transcripts that a script writes.

Where a script does one thing after another it writes the product of two languages, where it chooses their sum, and where it does
a thing again and again the star of one. `Writes exec P F p L E` says that `p` has written a transcript of `L x` where it returns
`x`, and one of `E e` where it ends by `e`; the world has gone forward in the preorder `F` meanwhile.

Results:
- `writes_bind`, `writes_seq`, `writes_ifOk` and so on: the rules for scripts;
- `writes_of_disciplined`: the language of a script of which only the kind of its commands is known.
-/
import Beetroot.Lib.Script
import Mathlib

namespace Lib.Transcript

open Lib.Prog Lib.Script
open scoped Computability

variable {A O ε C σ α β : Type}

/-- the commands so far, each with its answer -/
abbrev Record (A O : Type) := List (A × Answer O)

abbrev recorded (exec : C → A → σ → Answer O × σ) : C → A → σ × Record A O → Answer O × (σ × Record A O) :=
  noted Prod.mk exec

/-! ## Languages -/

/-- commands of a kind, whatever they are answered -/
def only (q : A → Bool) : Language (A × Answer O) := {l | ∀ x ∈ l, q x.1 = true}

/-- one command, and an answer such as `φ` says -/
def answer (a : A) (φ : Answer O → Prop) : Language (A × Answer O) := {l | ∃ r, φ r ∧ l = [(a, r)]}

def asked (a : A) : Language (A × Answer O) := answer a fun _ => True

def did (a : A) : Language (A × Answer O) := answer a fun r => r.ok = true

def refused (a : A) : Language (A × Answer O) := answer a fun r => r.ok = false

/-- the script ends itself by `r`, after a transcript of `L` -/
def ends (r : ε) (L : Language (A × Answer O)) (e : Stop A ε) : Language (A × Answer O) := {l | e = .exit r ∧ l ∈ L}

section Languages

variable {q : A → Bool} {a : A} {φ ψ : Answer O → Prop} {L M : Language (A × Answer O)}

theorem answer_mono (h : ∀ r, φ r → ψ r) : answer a φ ≤ answer a ψ := by
  rintro l ⟨r, hr, rfl⟩
  exact ⟨r, h r hr, rfl⟩

theorem answer_le_only (h : q a = true) : answer a φ ≤ only q := by
  rintro l ⟨r, -, rfl⟩ x hx
  rw [List.mem_singleton.1 hx]
  exact h

theorem one_le_only : (1 : Language (A × Answer O)) ≤ only q := by
  intro l hl
  rw [(Language.mem_one l).1 hl]
  exact fun x hx => absurd hx List.not_mem_nil

theorem mul_le_only (hL : L ≤ only q) (hM : M ≤ only q) : L * M ≤ only q := by
  intro l hl
  obtain ⟨u, hu, v, hv, rfl⟩ := Language.mem_mul.1 hl
  intro x hx
  exact (List.mem_append.1 hx).elim (hL hu x) (hM hv x)

theorem only_mul_only : only q * only q ≤ (only q : Language (A × Answer O)) := mul_le_only le_rfl le_rfl

theorem kstar_le_only (h : L ≤ only q) : L∗ ≤ only q :=
  kstar_le_of_mul_le_left one_le_only (mul_le_only le_rfl h)

theorem only_mono {q' : A → Bool} (h : ∀ a, q a = true → q' a = true) : (only q : Language (A × Answer O)) ≤ only q' :=
  fun _ hl x hx => h x.1 (hl x hx)

@[simp] theorem ends_self (r : ε) (L : Language (A × Answer O)) : ends r L (.exit r) = L := by
  ext l
  exact ⟨fun h => h.2, fun h => ⟨rfl, h⟩⟩

theorem ends_of_ne {r : ε} {e : Stop A ε} (h : e ≠ .exit r) (L : Language (A × Answer O)) : ends r L e = 0 := by
  ext l
  exact ⟨fun hl => absurd hl.1 h, fun hl => absurd hl (Language.notMem_zero l)⟩

theorem mul_ends (r : ε) (L M : Language (A × Answer O)) (e : Stop A ε) : L * ends r M e = ends r (L * M) e := by
  by_cases h : e = .exit r
  · rw [h, ends_self, ends_self]
  · rw [ends_of_ne h, ends_of_ne h, mul_zero]

theorem ends_le {r : ε} {E : Stop A ε → Language (A × Answer O)} {e : Stop A ε} (h : L ≤ E (.exit r)) : ends r L e ≤ E e := by
  intro l hl
  rw [hl.1]
  exact h hl.2

end Languages

/-! ## What a script writes -/

/-- a preorder in which every command takes the world forward -/
structure Frame (exec : C → A → σ → Answer O × σ) (F : σ → σ → Prop) : Prop where
  refl : ∀ s, F s s
  trans : ∀ {s t u}, F s t → F t u → F s u
  step : ∀ c a s, F s (exec c a s).2

/-- a transcript of the language has been written, and the world has gone forward -/
structure Wrote (F : σ → σ → Prop) (L : Language (A × Answer O)) (s t : σ × Record A O) : Prop where
  log : ∃ l ∈ L, t.2 = s.2 ++ l
  frame : F s.1 t.1

def Writes (exec : C → A → σ → Answer O × σ) (P : C → Prop) (F : σ → σ → Prop) (p : Sh A O ε α)
    (L : α → Language (A × Answer O)) (E : Stop A ε → Language (A × Answer O)) : Prop :=
  ∀ s, Runs (recorded exec) P (fun _ => True) p s (fun x t => Wrote F (L x) s t) fun e t => Wrote F (E e) s t

section Rules

variable {exec : C → A → σ → Answer O × σ} {P : C → Prop} {F : σ → σ → Prop} {s t u : σ × Record A O}
  {L M : Language (A × Answer O)} {a : A} {c : C}

theorem Wrote.mono (h : Wrote F L s t) (hle : L ≤ M) : Wrote F M s t := by
  obtain ⟨l, hl, heq⟩ := h.log
  exact ⟨⟨l, hle hl, heq⟩, h.frame⟩

theorem not_wrote_zero (h : Wrote F 0 s t) : False := by
  obtain ⟨l, hl, -⟩ := h.log
  exact Language.notMem_zero l hl

section Framed

variable (hF : Frame exec F)
include hF

theorem Wrote.trans (h : Wrote F L s t) (h' : Wrote F M t u) : Wrote F (L * M) s u := by
  obtain ⟨l, hl, heq⟩ := h.log
  obtain ⟨m, hm, heq'⟩ := h'.log
  refine ⟨⟨l ++ m, Language.append_mem_mul hl hm, ?_⟩, hF.trans h.frame h'.frame⟩
  rw [heq', heq, List.append_assoc]

theorem wrote_nothing : Wrote F 1 s s := ⟨⟨[], (Language.mem_one _).2 rfl, (List.append_nil _).symm⟩, hF.refl _⟩

theorem wrote_answer {φ : Answer O → Prop} (h : φ (exec c a s.1).1) : Wrote F (answer a φ) s (recorded exec c a s).2 :=
  ⟨⟨_, ⟨_, h, rfl⟩, rfl⟩, hF.step c a s.1⟩

end Framed

variable {p : Sh A O ε α} {K K' : α → Language (A × Answer O)} {E E' : Stop A ε → Language (A × Answer O)}

theorem Writes.mono (h : Writes exec P F p K E) (hK : ∀ x, K x ≤ K' x) (hE : ∀ e, E e ≤ E' e) : Writes exec P F p K' E' :=
  fun s => (h s).mono (fun x _ _ hx => hx.mono (hK x)) fun e _ _ he => he.mono (hE e)

theorem Writes.more {q : A → Bool} (h : Writes exec P F p K E) :
    Writes exec P F p (fun y => only q * K y) fun e => only q * E e :=
  h.mono (fun _ => le_mul_of_one_le_left' one_le_only) fun _ => le_mul_of_one_le_left' one_le_only

section Framed

variable (hF : Frame exec F)
include hF

theorem writes_pure (x : α) (h : 1 ≤ K x) : Writes exec P F (pure x) K E :=
  fun _ => runs_pure trivial ((wrote_nothing hF).mono h)

theorem writes_bind {f : α → Sh A O ε β} {N : α → β → Language (A × Answer O)} {G : α → Stop A ε → Language (A × Answer O)}
    {R : β → Language (A × Answer O)} (hp : Writes exec P F p K E) (hf : ∀ x, Writes exec P F (f x) (N x) (G x))
    (hret : ∀ x y, K x * N x y ≤ R y) (hend : ∀ e, E e ≤ E' e) (hlate : ∀ x e, K x * G x e ≤ E' e) :
    Writes exec P F (p >>= f) R E' := by
  intro s
  apply runs_bind
  refine (hp s).mono (fun x t _ ht => ?_) fun e _ _ he => he.mono (hend e)
  exact (hf x t).mono (fun y _ _ hu => (ht.trans hF hu).mono (hret x y)) fun e _ _ hu => (ht.trans hF hu).mono (hlate x e)

theorem writes_seq {q : Sh A O ε β} {N : β → Language (A × Answer O)} {G : Stop A ε → Language (A × Answer O)}
    (hp : Writes exec P F p (fun _ => L) E) (hq : Writes exec P F q N G) :
    Writes exec P F (p >>= fun _ => q) (fun y => L * N y) fun e => E e + L * G e :=
  writes_bind hF hp (fun _ => hq) (fun _ _ => le_rfl) (fun _ => le_self_add) fun _ _ => le_add_self

theorem writes_output : Writes exec P F (output a : Sh A O ε O) (fun x => answer a fun r => r.out = x) fun _ => 0 :=
  fun _ => runs_output trivial fun _ _ => ⟨trivial, wrote_answer hF rfl⟩

theorem writes_attempt : Writes exec P F (attempt a : Sh A O ε Unit) (fun _ => asked a) fun _ => 0 :=
  fun _ => runs_attempt trivial fun _ _ => ⟨trivial, wrote_answer hF trivial⟩

theorem writes_ifOk {x y : Sh A O ε α} (hx : Writes exec P F x K E) (hy : Writes exec P F y K' E') :
    Writes exec P F (ifOk a x y) (fun v => did a * K v + refused a * K' v) fun e => did a * E e + refused a * E' e := by
  intro s
  refine runs_ifOk trivial fun c _ => ?_
  split_ifs with hok
  · have hdid : Wrote F (did a) s (recorded exec c a s).2 := wrote_answer hF hok
    exact (hx _).mono (fun _ _ _ h => (hdid.trans hF h).mono le_self_add) fun _ _ _ h => (hdid.trans hF h).mono le_self_add
  · rw [Bool.not_eq_true] at hok
    have hrefused : Wrote F (refused a) s (recorded exec c a s).2 := wrote_answer hF hok
    exact (hy _).mono (fun _ _ _ h => (hrefused.trans hF h).mono le_add_self) fun _ _ _ h => (hrefused.trans hF h).mono le_add_self

theorem writes_leave (e : ε) : Writes exec P F (leave e : Sh A O ε α) K (ends e 1) :=
  fun _ => runs_throw trivial ((wrote_nothing hF).mono fun _ hl => ⟨rfl, hl⟩)

variable {q : A → Bool}

/-- a command of the kind before a script that begins with commands of the kind -/
theorem writes_more {x : Sh A O ε α} (h : q a = true) (hx : Writes exec P F x (fun y => only q * K y) fun e => only q * E e) :
    Writes exec P F (attempt a >>= fun _ => x) (fun y => only q * K y) fun e => only q * E e := by
  have hle : ∀ M : Language (A × Answer O), asked a * (only q * M) ≤ only q * M := by
    intro M
    calc asked a * (only q * M) = asked a * only q * M := (mul_assoc _ _ _).symm
      _ ≤ only q * M := by gcongr; exact mul_le_only (answer_le_only h) le_rfl
  exact (writes_seq hF (writes_attempt hF) hx).mono (fun y => hle (K y)) fun e => by rw [zero_add]; exact hle (E e)

/-- commands of a kind, none of which ends the script -/
theorem writes_of_disciplined (h : Disciplined (fun _ => false) q (fun _ => false) p.run) :
    Writes exec P F p (fun _ => only q) fun _ => 0 := by
  intro s
  have hkeep : Runs (recorded exec) P (fun t => Wrote F (only q) s t) p s (fun _ t => Wrote F (only q) s t)
      fun _ t => Wrote F (only q) s t := by
    refine h.all.runs (fun c _ a ha t ht => ?_) ((wrote_nothing hF).mono one_le_only)
    have hstep : Wrote F (only q) t (recorded exec c a t).2 := (wrote_answer (φ := fun _ => True) hF trivial).mono (answer_le_only ha)
    exact (ht.trans hF hstep).mono only_mul_only
  have hends : Runs (recorded exec) P (fun _ => True) p s (fun _ _ => True) fun e _ =>
      (∃ a, e = .failed a ∧ false = true) ∨ ∃ r : ε, e = .exit r ∧ false = true := h.ends s
  refine ((hkeep.weaken fun _ _ => trivial).and hends).weaken (fun _ _ => trivial) |>.mono (fun _ _ _ ht => ht.1) fun e _ _ ht => ?_
  obtain ⟨-, ⟨a, -, hfalse⟩ | ⟨r, -, hfalse⟩⟩ := ht
  · exact absurd hfalse Bool.false_ne_true
  · exact absurd hfalse Bool.false_ne_true

end Framed

end Rules

end Lib.Transcript
