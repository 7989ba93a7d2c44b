/-
Python's `str`: blanks, lines and fields of a text, as lists of characters.

`strip`, `splitLines` and `fields` are `str.strip()`, `str.splitlines()` and `str.split()`.

`ofInt` is `str` of an integer, with the interpreter's bound on its digits.

Results: `strip_self` and `strip_line`, a text without blanks is left as it is, and comes back from a line of its own;
`mem_strip`, only blanks are lost; `splitLines_terminated`, lines that end in a newline come back; `strip_front`, a line that does
not start with a blank loses those at its end.
-/
import Beetroot.Lib.Search
import Mathlib.Data.List.Basic
import Mathlib.Tactic.Common

namespace Lib.Str

/-- `str.isspace` of one character -/
def isSpace (c : Char) : Bool :=
  (9 ≤ c.toNat && c.toNat ≤ 13) || (28 ≤ c.toNat && c.toNat ≤ 32) || (0x2000 ≤ c.toNat && c.toNat ≤ 0x200a) ||
    c.toNat ∈ [0x85, 0xa0, 0x1680, 0x2028, 0x2029, 0x202f, 0x205f, 0x3000]

/-- the line boundaries of `str.splitlines` -/
def isLineBreak (c : Char) : Bool :=
  (10 ≤ c.toNat && c.toNat ≤ 13) || (28 ≤ c.toNat && c.toNat ≤ 30) || c.toNat ∈ [0x85, 0x2028, 0x2029]

/-- `str.lower` of the letters of ASCII -/
def lower (s : List Char) : List Char := s.map Char.toLower

def strip (s : List Char) : List Char := ((s.dropWhile isSpace).reverse.dropWhile isSpace).reverse

/-- a carriage return and a newline behind it are one boundary; the text behind the last boundary is a line if it is not empty -/
def splitLines : List Char → List Char → List (List Char)
  | line, [] => if line.isEmpty then [] else [line]
  | line, '\r' :: '\n' :: cs => line :: splitLines [] cs
  | line, c :: cs => if isLineBreak c then line :: splitLines [] cs else splitLines (line ++ [c]) cs

def fields (s : List Char) : List (List Char) := (s.splitOnP isSpace).filter fun w => !w.isEmpty

/-- `sys.int_info.default_max_str_digits` -/
def maxStrDigits : ℕ := 4300

/-- a number that `str` and `int` convert -/
def Printable (n : Int) : Prop := (Nat.toDigits 10 n.natAbs).length ≤ maxStrDigits

instance (n : Int) : Decidable (Printable n) := inferInstanceAs (Decidable (_ ≤ _))

/-- `str(n)`; `none` is a `ValueError` -/
def ofInt (n : Int) : Option String := if Printable n then some (toString n) else none

theorem dropWhile_of_head {s : List Char} (h : ∀ c ∈ s, isSpace c = false) (rest : List Char) (hne : s ≠ []) :
    (s ++ rest).dropWhile isSpace = s ++ rest := by
  obtain ⟨c, s, rfl⟩ := List.exists_cons_of_ne_nil hne
  rw [List.cons_append, List.dropWhile_cons_of_neg (by simp [h c List.mem_cons_self])]

theorem strip_line {s : List Char} (h : ∀ c ∈ s, isSpace c = false) : strip (s ++ ['\n']) = s := by
  by_cases hne : s = []
  · rw [hne]
    decide
  · have hreverse : ∀ c ∈ s.reverse, isSpace c = false := fun c hc => h c (List.mem_reverse.1 hc)
    rw [strip, dropWhile_of_head h _ hne, List.reverse_append, List.reverse_singleton, List.singleton_append,
      List.dropWhile_cons_of_pos (by decide), ← List.append_nil s.reverse,
      dropWhile_of_head hreverse [] (by simpa using hne), List.append_nil, List.reverse_reverse]

theorem strip_self {s : List Char} (h : ∀ c ∈ s, isSpace c = false) : strip s = s := by
  by_cases hne : s = []
  · rw [hne]
    rfl
  · have hreverse : ∀ c ∈ s.reverse, isSpace c = false := fun c hc => h c (List.mem_reverse.1 hc)
    rw [strip, ← List.append_nil s, dropWhile_of_head h [] hne, List.append_nil, ← List.append_nil s.reverse,
      dropWhile_of_head hreverse [] (by simpa using hne), List.append_nil, List.reverse_reverse]

theorem mem_strip {s : List Char} {c : Char} (hc : isSpace c = false) (h : c ∈ s) : c ∈ strip s := by
  have hkept : ∀ cs : List Char, c ∈ cs → c ∈ cs.dropWhile isSpace := by
    intro cs hcs
    rcases Search.mem_of_dropWhile (p := isSpace) hcs with hspace | hmem
    · rw [hc] at hspace
      cases hspace
    · exact hmem
  rw [strip, List.mem_reverse]
  exact hkept _ (List.mem_reverse.2 (hkept s h))

/-! ## Lines -/

theorem splitLines_line {l : List Char} (h : ∀ c ∈ l, isLineBreak c = false) (acc rest : List Char) :
    splitLines acc (l ++ '\n' :: rest) = (acc ++ l) :: splitLines [] rest := by
  induction l generalizing acc with
  | nil =>
    rw [List.nil_append, List.append_nil, splitLines, if_pos (by decide)]
    intro cs h _
    cases h
  | cons c l ih =>
    have hc := h c List.mem_cons_self
    rw [List.cons_append, splitLines, if_neg (by rw [hc]; exact Bool.false_ne_true), ih fun d hd => h d (List.mem_cons_of_mem _ hd),
      List.append_assoc, List.singleton_append]
    intro cs hr _
    rw [hr] at hc
    revert hc
    decide

theorem splitLines_terminated {ls : List (List Char)} (h : ∀ l ∈ ls, ∀ c ∈ l, isLineBreak c = false) :
    splitLines [] (ls.flatMap fun l => l ++ ['\n']) = ls := by
  induction ls with
  | nil => rfl
  | cons l ls ih =>
    rw [List.flatMap_cons, List.append_assoc, List.singleton_append, splitLines_line (h l List.mem_cons_self), List.nil_append,
      ih fun m hm => h m (List.mem_cons_of_mem _ hm)]

/-! ## Blanks -/

def rstrip (s : List Char) : List Char := (s.reverse.dropWhile isSpace).reverse

theorem strip_blank {c : Char} (hc : isSpace c = true) (s : List Char) : strip (c :: s) = strip s := by
  rw [strip, List.dropWhile_cons_of_pos hc]
  rfl

theorem rstrip_word {c : Char} (hc : isSpace c = false) (front back : List Char) :
    rstrip (front ++ c :: back) = front ++ c :: rstrip back := by
  have hdrop : ∀ r : List Char, (r ++ c :: front.reverse).dropWhile isSpace = r.dropWhile isSpace ++ c :: front.reverse := by
    intro r
    induction r with
    | nil => rw [List.nil_append, List.dropWhile_cons_of_neg (by simp [hc])]; rfl
    | cons d r ih =>
      by_cases hd : isSpace d = true
      · rw [List.cons_append, List.dropWhile_cons_of_pos hd, List.dropWhile_cons_of_pos hd, ih]
      · rw [List.cons_append, List.dropWhile_cons_of_neg hd, List.dropWhile_cons_of_neg hd, List.cons_append]
  rw [rstrip, List.reverse_append, List.reverse_cons, List.append_assoc, List.singleton_append, hdrop, List.reverse_append,
    List.reverse_cons, List.reverse_reverse, List.append_assoc, List.singleton_append, rstrip]

/-- a line that does not start with a blank -/
theorem strip_front {front : List Char} {c : Char} (hfront : ∀ d, front.head? = some d → isSpace d = false)
    (hc : isSpace c = false) (back : List Char) : strip (front ++ c :: back) = front ++ c :: rstrip back := by
  have hhead : (front ++ c :: back).dropWhile isSpace = front ++ c :: back := by
    cases front with
    | nil => rw [List.nil_append, List.dropWhile_cons_of_neg (by simp [hc])]
    | cons d front => rw [List.cons_append, List.dropWhile_cons_of_neg (by simp [hfront d rfl])]
  rw [← rstrip_word hc, rstrip, strip, hhead]

theorem rstrip_of_strip {s : List Char} (h : strip s = s) : rstrip s = s := by
  have hl : (s.dropWhile isSpace).length ≤ s.length := (List.dropWhile_sublist _).length_le
  have hlength : ∀ t : List Char, (t.reverse.dropWhile isSpace).reverse.length ≤ t.length := by
    intro t
    rw [List.length_reverse]
    exact (List.dropWhile_sublist _).length_le.trans (le_of_eq List.length_reverse)
  have hle := hlength (s.dropWhile isSpace)
  rw [← strip, h] at hle
  have hs : s.dropWhile isSpace = s := (List.dropWhile_sublist _).eq_of_length (Nat.le_antisymm hl hle)
  rw [strip, hs] at h
  exact h

end Lib.Str
