/-
Searching for a text in a text that is put together from pieces.

A substring search runs over the whole text and does not know where its pieces end. What it finds is in one of the pieces when the
text searched for does not hold the character between them, or cannot start at the end of the piece in front.

Results:
- `infix_sep`, `infix_joined`: pieces with a separator between them;
- `infix_after`: a fixed piece in front, no end of which can start the text;
- `takeWhile_until`, `dropWhile_until`: the text up to the first separator, and from it on;
- `append_sep_inj`, `terminated_inj`: two texts up to the first separator, and texts of terminated fields;
- `mem_toString`, `toString_inj`: the characters of a number's text, and the number of a text.
-/
import Mathlib.Data.List.Infix
import Mathlib.Data.List.TakeWhile
import Mathlib.Tactic.Common

namespace Lib.Search

variable {α : Type*} {t : List α} {c : α}

theorem mem_of_dropWhile {p : α → Bool} (h : c ∈ t) : p c = true ∨ c ∈ t.dropWhile p := by
  rw [← List.takeWhile_append_dropWhile (p := p) (l := t)] at h
  rcases List.mem_append.1 h with h | h
  · exact Or.inl (List.mem_takeWhile_imp h)
  · exact Or.inr h

section Until

variable [DecidableEq α]

theorem all_ne_of_not_mem (h : c ∉ t) : ∀ d ∈ t, decide (d ≠ c) = true := by
  intro d hd
  rw [decide_eq_true_eq]
  intro he
  exact h (he ▸ hd)

theorem takeWhile_until (h : c ∉ t) (rest : List α) : (t ++ rest).takeWhile (· ≠ c) = t ++ rest.takeWhile (· ≠ c) :=
  List.takeWhile_append_of_pos (all_ne_of_not_mem h)

theorem dropWhile_until (h : c ∉ t) (rest : List α) : (t ++ c :: rest).dropWhile (· ≠ c) = c :: rest := by
  rw [List.dropWhile_append_of_pos (all_ne_of_not_mem h), List.dropWhile_cons_of_neg (by simp)]

end Until

theorem not_prefix_cons (h : c ∉ t) (hne : t ≠ []) (b : List α) : ¬ t <+: c :: b := by
  intro hp
  rcases List.prefix_cons_iff.1 hp with hnil | ⟨u, rfl, -⟩
  · exact hne hnil
  · exact h List.mem_cons_self

theorem prefix_until (h : c ∉ t) (a b : List α) : t <+: a ++ c :: b ↔ t <+: a := by
  constructor
  · intro hpre
    rcases List.prefix_or_prefix_of_prefix hpre (List.prefix_append a (c :: b)) with hle | ⟨u, rfl⟩
    · exact hle
    · have hu : u <+: c :: b := (List.prefix_append_right_inj a).1 hpre
      cases u with
      | nil => rw [List.append_nil]
      | cons d u =>
        obtain ⟨w, hw⟩ := hu
        exact absurd (List.mem_append_right a (by rw [(List.cons.inj hw).1]; exact List.mem_cons_self)) h
  · exact fun hpre => hpre.trans (List.prefix_append _ _)

theorem infix_sep (h : c ∉ t) (hne : t ≠ []) (a b : List α) : t <:+: a ++ c :: b ↔ t <:+: a ∨ t <:+: b := by
  induction a with
  | nil =>
    rw [List.nil_append, List.infix_cons_iff, List.infix_nil]
    simp only [not_prefix_cons h hne b, hne, false_or]
  | cons x a ih =>
    have hfront : t <+: x :: (a ++ c :: b) ↔ t <+: x :: a := by
      refine ⟨?_, fun hp => hp.trans ⟨c :: b, rfl⟩⟩
      intro hp
      -- of two initial parts of one text the shorter starts the longer, and the longer one would hold the separator
      rcases List.prefix_or_prefix_of_prefix hp (⟨c :: b, rfl⟩ : x :: a <+: x :: a ++ c :: b) with hp' | ⟨u, rfl⟩
      · exact hp'
      · rw [List.cons_append, List.cons_prefix_cons, List.prefix_append_right_inj] at hp
        by_cases hu : u = []
        · rw [hu, List.append_nil]
        · exact absurd hp.2 (not_prefix_cons (fun hm => h (List.mem_append_right _ hm)) hu b)
    rw [List.cons_append, List.infix_cons_iff, List.infix_cons_iff, hfront, ih, or_assoc]

theorem infix_joined (h : c ∉ t) (hne : t ≠ []) (ls : List (List α)) :
    t <:+: [c].intercalate ls ↔ ∃ l ∈ ls, t <:+: l := by
  induction ls with
  | nil => simp [List.infix_nil, hne]
  | cons l ls ih =>
    cases ls with
    | nil => simp
    | cons l' ls =>
      have hjoin : [c].intercalate (l :: l' :: ls) = l ++ c :: [c].intercalate (l' :: ls) := by
        simp [List.intercalate_cons_cons]
      rw [hjoin, infix_sep h hne, ih, ← List.exists_mem_cons_iff]

/-- a fixed piece in front: no end of it is the start of the text searched for -/
theorem infix_after {v w a : List α} (hlen : a.length ≤ v.length) (h : ∀ s ∈ a.tails, s <+: v → s = []) (b : List α) :
    v ++ w <:+: a ++ b ↔ v ++ w <:+: b := by
  induction a with
  | nil => rw [List.nil_append]
  | cons x a ih =>
    have hstart : ¬ v ++ w <+: x :: (a ++ b) := by
      intro hp
      have hv : v <+: x :: a ++ b := (List.prefix_append v w).trans hp
      have hxa : x :: a <+: v := List.prefix_of_prefix_length_le (List.prefix_append _ b) hv hlen
      exact List.cons_ne_nil x a (h _ (by simp) hxa)
    rw [List.cons_append, List.infix_cons_iff]
    simp only [hstart, false_or]
    rw [List.length_cons] at hlen
    exact ih (by omega) fun s hs => h s (by rw [List.tails_cons]; exact List.mem_cons_of_mem _ hs)

/-- what stands before the first separator is determined by the text -/
theorem append_sep_inj {u v x y : List α} (hu : c ∉ u) (hv : c ∉ v) (h : u ++ c :: x = v ++ c :: y) : u = v := by
  induction u generalizing v with
  | nil =>
    cases v with
    | nil => rfl
    | cons d v => exact absurd (List.head_eq_of_cons_eq h ▸ List.mem_cons_self) hv
  | cons d u ih =>
    cases v with
    | nil => exact absurd (List.head_eq_of_cons_eq h ▸ List.mem_cons_self) hu
    | cons e v =>
      have htail : u ++ c :: x = v ++ c :: y := List.tail_eq_of_cons_eq h
      rw [List.head_eq_of_cons_eq h,
        ih (fun hm => hu (List.mem_cons_of_mem _ hm)) (fun hm => hv (List.mem_cons_of_mem _ hm)) htail]

/-- the text of a number has digits and a sign -/
theorem mem_toString {n : Int} {d : Char} (h : d ∈ (toString n).toList) : d = '-' ∨ d.isDigit = true := by
  have hdigits : ∀ m : ℕ, d ∈ m.repr.toList → d.isDigit = true := by
    intro m hm
    rw [Nat.toList_repr] at hm
    exact Nat.isDigit_of_mem_toDigits (by decide) (by decide) hm
  rw [Int.toString_eq_repr, Int.repr_eq_if] at h
  split_ifs at h
  · exact .inr (hdigits _ h)
  · rw [String.toList_append] at h
    rcases List.mem_append.1 h with h | h
    · exact .inl (List.mem_singleton.1 h)
    · exact .inr (hdigits _ h)

theorem toString_toList {n : Int} (hn : 0 ≤ n) : (toString n).toList = Nat.toDigits 10 n.toNat := by
  rw [Int.toString_eq_repr, Int.repr_eq_if, if_pos hn, Nat.toList_repr]

/-- and no sign unless the number is negative -/
theorem sign_not_mem_toString {n : Int} (hn : 0 ≤ n) : '-' ∉ (toString n).toList := by
  intro h
  rw [toString_toList hn] at h
  exact absurd (Nat.isDigit_of_mem_toDigits (by decide) (by decide) h) (by decide)

theorem toString_toList_inj {m n : Int} (hm : 0 ≤ m) (hn : 0 ≤ n) (h : (toString m).toList = (toString n).toList) :
    m = n := by
  rw [toString_toList hm, toString_toList hn] at h
  have hnat : m.toNat = n.toNat := by
    calc m.toNat = Nat.ofDigitChars 10 (Nat.toDigits 10 m.toNat) 0 := Nat.ofDigitChars_ten_toDigits.symm
      _ = Nat.ofDigitChars 10 (Nat.toDigits 10 n.toNat) 0 := by rw [h]
      _ = n.toNat := Nat.ofDigitChars_ten_toDigits
  omega

theorem toString_inj {m n : Int} (h : toString m = toString n) : m = n := by
  have hsign : ∀ {k : Int}, k < 0 → (toString k).toList = '-' :: Nat.toDigits 10 (-k).toNat := by
    intro k hk
    rw [Int.toString_eq_repr, Int.repr_eq_if, if_neg (Int.not_le.2 hk), String.toList_append, Nat.toList_repr]
    rfl
  have hlist := congrArg String.toList h
  rcases Int.lt_or_le m 0 with hm | hm
  · rcases Int.lt_or_le n 0 with hn | hn
    · rw [hsign hm, hsign hn, List.cons.injEq] at hlist
      have hnat : (-m).toNat = (-n).toNat := by
        calc (-m).toNat = Nat.ofDigitChars 10 (Nat.toDigits 10 (-m).toNat) 0 := Nat.ofDigitChars_ten_toDigits.symm
          _ = Nat.ofDigitChars 10 (Nat.toDigits 10 (-n).toNat) 0 := by rw [hlist.2]
          _ = (-n).toNat := Nat.ofDigitChars_ten_toDigits
      omega
    · rw [hsign hm] at hlist
      exact absurd (hlist ▸ List.mem_cons_self) (sign_not_mem_toString hn)
  · rcases Int.lt_or_le n 0 with hn | hn
    · rw [hsign hn] at hlist
      exact absurd (hlist.symm ▸ List.mem_cons_self) (sign_not_mem_toString hm)
    · exact toString_toList_inj hm hn hlist

/-- fields with a terminator behind each of them -/
def terminated (c : α) (fields : List (List α)) : List α := fields.flatMap fun f => f ++ [c]

/-- a text of terminated fields determines the fields, and how many there are -/
theorem terminated_inj {fs gs : List (List α)} (hf : ∀ f ∈ fs, c ∉ f) (hg : ∀ g ∈ gs, c ∉ g)
    (h : terminated c fs = terminated c gs) : fs = gs := by
  have hcons : ∀ (f : List α) (fs : List (List α)), terminated c (f :: fs) = f ++ c :: terminated c fs := by
    intro f fs
    rw [terminated, List.flatMap_cons, List.append_assoc, List.singleton_append]
    rfl
  induction fs generalizing gs with
  | nil =>
    cases gs with
    | nil => rfl
    | cons g gs =>
      rw [hcons] at h
      exact absurd h.symm (by simp [terminated])
  | cons f fs ih =>
    cases gs with
    | nil =>
      rw [hcons] at h
      exact absurd h (by simp [terminated])
    | cons g gs =>
      rw [hcons, hcons] at h
      have hhead : f = g := append_sep_inj (hf f List.mem_cons_self) (hg g List.mem_cons_self) h
      subst hhead
      have htail := List.tail_eq_of_cons_eq (List.append_cancel_left h)
      rw [ih (fun x hx => hf x (List.mem_cons_of_mem _ hx)) (fun x hx => hg x (List.mem_cons_of_mem _ hx)) htail]

end Lib.Search
