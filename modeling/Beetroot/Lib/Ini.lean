/-
Files of sections with `key = value` lines, as `git config` writes them.

Results:
- `lines_render`: the lines of a file are the headers and the entries of its sections, in order;
- `strip_entry`, `strip_header`: what is left of these lines without the blanks around them;
- `value_entry`: what follows the first `=` of an entry is its value.
-/
import Beetroot.Lib.Str

namespace Lib.Ini

open Str

structure Entry where
  key : List Char
  value : List Char
deriving DecidableEq

structure Section where
  header : List Char
  entries : List Entry

def Entry.text (e : Entry) : List Char := '\t' :: e.key ++ ' ' :: '=' :: ' ' :: e.value

def Section.title (s : Section) : List Char := '[' :: s.header ++ [']']

def Section.lines (s : Section) : List (List Char) := s.title :: s.entries.map Entry.text

def render (ss : List Section) : List Char := (ss.flatMap Section.lines).flatMap fun l => l ++ ['\n']

/-- what follows the first `=` -/
def afterEq (line : List Char) : List Char := (line.dropWhile (· ≠ '=')).tail

/-- the key is a word, and the value a line without blanks around it -/
structure Entry.Plain (e : Entry) : Prop where
  word : ∀ c ∈ e.key, isSpace c = false ∧ c ≠ '='
  head : ∃ c, e.key.head? = some c ∧ c ≠ '['
  tight : strip e.value = e.value
  line : ∀ c ∈ e.value, isLineBreak c = false

structure Section.Plain (s : Section) : Prop where
  line : ∀ c ∈ s.header, isLineBreak c = false
  entries : ∀ e ∈ s.entries, e.Plain

theorem isLineBreak_of_word {c : Char} (h : isSpace c = false) : isLineBreak c = false := by
  by_contra hc
  rw [Bool.not_eq_false] at hc
  unfold isLineBreak at hc
  unfold isSpace at h
  simp only [Bool.or_eq_true, Bool.and_eq_true, decide_eq_true_eq, List.mem_cons, List.not_mem_nil, or_false] at hc
  simp only [Bool.or_eq_false_iff, Bool.and_eq_false_iff, decide_eq_false_iff_not, List.mem_cons, List.not_mem_nil,
    or_false] at h
  omega

theorem strip_header (s : Section) : strip s.title = s.title := by
  have h : strip ('[' :: s.header ++ [']']) = '[' :: rstrip (s.header ++ [']']) :=
    strip_front (fun d (h : ([] : List Char).head? = some d) => by cases h) (by decide) _
  rw [Section.title, h, rstrip_word (by decide)]
  rfl

/-- the line of an entry without the blanks around it -/
theorem strip_entry {e : Entry} (h : e.Plain) :
    ∃ back, strip e.text = e.key ++ ' ' :: '=' :: back ∧ strip back = e.value := by
  refine ⟨rstrip (' ' :: e.value), ?_, ?_⟩
  · obtain ⟨c, hc, -⟩ := h.head
    have hfront : ∀ d, (e.key ++ [' ']).head? = some d → isSpace d = false := by
      intro d hd
      rw [List.head?_append, hc] at hd
      cases hd
      exact (h.word c (List.mem_of_head? hc)).1
    have hline := strip_front hfront (c := '=') (by decide) (' ' :: e.value)
    rw [List.append_assoc, List.append_assoc] at hline
    rw [Entry.text, List.cons_append, strip_blank (by decide)]
    exact hline
  · cases hv : e.value with
    | nil => decide
    | cons c v =>
      have htight := h.tight
      rw [hv] at htight
      have hc : isSpace c = false := by
        by_contra hc
        rw [Bool.not_eq_false] at hc
        have hlength : (strip (c :: v)).length ≤ v.length := by
          rw [strip_blank hc, strip, List.length_reverse]
          refine (List.dropWhile_sublist _).length_le.trans ?_
          rw [List.length_reverse]
          exact (List.dropWhile_sublist _).length_le
        rw [htight] at hlength
        exact absurd hlength (Nat.not_succ_le_self _)
      have hrstrip := rstrip_of_strip htight
      have hcons : rstrip (' ' :: c :: v) = ' ' :: c :: v := by
        have h₁ : rstrip ([' '] ++ c :: v) = [' '] ++ c :: rstrip v := rstrip_word hc _ _
        have h₂ : rstrip ([] ++ c :: v) = [] ++ c :: rstrip v := rstrip_word hc _ _
        rw [List.nil_append, List.nil_append, hrstrip] at h₂
        rw [← h₂] at h₁
        exact h₁
      rw [hcons, strip_blank (by decide)]
      exact htight

theorem value_entry {key back : List Char} (h : ∀ c ∈ key, c ≠ '=') : afterEq (key ++ ' ' :: '=' :: back) = back := by
  have hkey : '=' ∉ key ++ [' '] := by
    intro hmem
    rcases List.mem_append.1 hmem with hmem | hmem
    · exact h _ hmem rfl
    · exact absurd (List.mem_singleton.1 hmem) (by decide)
  have hdrop := Search.dropWhile_until hkey back
  rw [List.append_assoc, List.singleton_append] at hdrop
  rw [afterEq, hdrop, List.tail_cons]

theorem lines_render {ss : List Section} (h : ∀ s ∈ ss, s.Plain) : splitLines [] (render ss) = ss.flatMap Section.lines := by
  refine splitLines_terminated fun l hl c hc => ?_
  obtain ⟨s, hs, hl⟩ := List.mem_flatMap.1 hl
  rcases List.mem_cons.1 hl with rfl | hl
  · rcases List.mem_append.1 hc with hc | hc
    · rcases List.mem_cons.1 hc with rfl | hc
      · decide
      · exact (h s hs).line c hc
    · rw [List.mem_singleton.1 hc]
      decide
  · obtain ⟨e, he, rfl⟩ := List.mem_map.1 hl
    have hplain := (h s hs).entries e he
    rcases List.mem_append.1 hc with hc | hc
    · rcases List.mem_cons.1 hc with rfl | hc
      · decide
      · exact isLineBreak_of_word (hplain.word c hc).1
    · simp only [List.mem_cons] at hc
      rcases hc with rfl | rfl | rfl | hc
      · decide
      · decide
      · decide
      · exact hplain.line c hc

end Lib.Ini
