/-
Line-based texts of `KEY=VALUE` lines.

`unlines` ends every line with a newline, `lines` splits a text at its newlines; the piece after the last newline counts as a line
if it is not empty (`fieldsAt`, for any separator). `keyValue` splits a line at its first `=`.

Results:
- `lines_unlines`: the lines of a written text are the pieces of what was written, so a line with a newline in it comes back as
  several;
- `length_lines_unlines_eq`: as many lines come back as were written exactly when none of them has a newline;
- `fieldsAt_intercalate`: fields that are joined and split again come back;
- `parse_unlines`: what a file of `KEY=VALUE` lines says, also when a value has newlines in it.
-/
import Beetroot.Lib.Search
import Mathlib.Data.List.Basic
import Mathlib.Data.List.TakeWhile
import Mathlib.Tactic.Common

namespace Lib.Lines

/-- every line with its newline -/
def unlines (ls : List (List Char)) : List Char := ls.flatMap fun l => l ++ ['\n']

/-- the pieces between separators; nothing follows a separator at the end -/
def fieldsAt (sep : Char) (cs : List Char) : List (List Char) :=
  if (cs.splitOn sep).getLast? = some [] then (cs.splitOn sep).dropLast else cs.splitOn sep

def lines (cs : List Char) : List (List Char) := fieldsAt '\n' cs

/-- a line at its first `=`; `none` for a line without one -/
def keyValue (line : List Char) : Option (List Char × List Char) :=
  if '=' ∈ line then some (line.takeWhile (· ≠ '='), (line.dropWhile (· ≠ '=')).tail) else none

theorem lines_append_newline (l rest : List Char) : lines (l ++ '\n' :: rest) = l.splitOn '\n' ++ lines rest := by
  unfold lines fieldsAt
  rw [List.splitOn_append_cons_self]
  have hne := List.splitOn_ne_nil '\n' rest
  have hlast : (l.splitOn '\n' ++ rest.splitOn '\n').getLast? = (rest.splitOn '\n').getLast? := by
    rw [List.getLast?_append, List.getLast?_eq_some_getLast hne, Option.some_or]
  rw [hlast]
  split_ifs with h
  · rw [List.dropLast_append_of_ne_nil hne]
  · rfl

theorem lines_unlines (ls : List (List Char)) : lines (unlines ls) = ls.flatMap (List.splitOn '\n') := by
  induction ls with
  | nil => rfl
  | cons l ls ih =>
    have hcons : unlines (l :: ls) = l ++ '\n' :: unlines ls := by simp [unlines]
    rw [hcons, lines_append_newline, ih, List.flatMap_cons]

theorem length_splitOn (c : Char) (cs : List Char) : (cs.splitOn c).length = cs.count c + 1 := by
  induction cs with
  | nil => simp
  | cons d cs ih =>
    rw [List.splitOn_cons_eq_if_modifyHead, List.count_cons]
    by_cases h : d = c
    · simp [h, ih]
    · simp [h, ih]

theorem length_le_lines_unlines (ls : List (List Char)) : ls.length ≤ (lines (unlines ls)).length := by
  rw [lines_unlines]
  induction ls with
  | nil => simp
  | cons l ls ih =>
    rw [List.flatMap_cons, List.length_append, length_splitOn, List.length_cons]
    omega

/-- as many lines come back as were written exactly when none of them has a newline -/
theorem length_lines_unlines_eq {ls : List (List Char)} :
    (lines (unlines ls)).length = ls.length ↔ ∀ l ∈ ls, '\n' ∉ l := by
  induction ls with
  | nil => simp [lines_unlines]
  | cons l ls ih =>
    have hle := length_le_lines_unlines ls
    rw [lines_unlines] at ih hle ⊢
    rw [List.forall_mem_cons, ← ih, ← List.count_eq_zero, List.flatMap_cons, List.length_append, length_splitOn,
      List.length_cons]
    constructor
    · intro h
      exact ⟨by omega, by omega⟩
    · intro h
      omega

theorem splitOn_append {c : Char} {front : List Char} (h : c ∉ front) (cs : List Char) :
    (front ++ cs).splitOn c = (cs.splitOn c).modifyHead (front ++ ·) := by
  induction front with
  | nil =>
    rw [List.nil_append]
    cases cs.splitOn c <;> rfl
  | cons d front ih =>
    have hd : ¬ d = c := fun he => h (he ▸ List.mem_cons_self)
    have hf : c ∉ front := fun hm => h (List.mem_cons_of_mem _ hm)
    rw [List.cons_append, List.splitOn_cons_eq_if_modifyHead, if_neg (by simpa using hd), ih hf]
    cases cs.splitOn c <;> rfl

theorem keyValue_pair {k : List Char} (hk : '=' ∉ k) (v : List Char) : keyValue (k ++ '=' :: v) = some (k, v) := by
  unfold keyValue
  rw [if_pos (by simp), Search.takeWhile_until hk, Search.dropWhile_until hk, List.takeWhile_cons_of_neg (by simp),
    List.append_nil, List.tail_cons]

/-! ## Files of `KEY=VALUE` lines -/

def entry (e : List Char × List Char) : List Char := e.1 ++ '=' :: e.2

/-- every line of a file, read as `KEY=VALUE` -/
def parse (cs : List Char) : List (Option (List Char × List Char)) := (lines cs).map keyValue

def firstLine (v : List Char) : List Char := (v.splitOn '\n').headD []

/-- the lines that a value adds to its own: what follows its newlines -/
def overflow (v : List Char) : List (Option (List Char × List Char)) := (v.splitOn '\n').tail.map keyValue

/-- a written file says its keys, each with the first line of its value, and whatever the rest of the value says -/
theorem parse_unlines {es : List (List Char × List Char)} (h : ∀ e ∈ es, '=' ∉ e.1 ∧ '\n' ∉ e.1) :
    parse (unlines (es.map entry)) =
      es.flatMap fun e => some (e.1, firstLine e.2) :: overflow e.2 := by
  unfold parse
  rw [lines_unlines, List.flatMap_map, List.map_flatMap]
  refine List.flatMap_congr ?_
  intro e he
  obtain ⟨heq, hnl⟩ := h e he
  have hfront : '\n' ∉ e.1 ++ ['='] := by simpa using hnl
  have happ : entry e = (e.1 ++ ['=']) ++ e.2 := by simp [entry]
  rw [happ, splitOn_append hfront]
  obtain ⟨first, rest, hsplit⟩ := List.exists_cons_of_ne_nil (List.splitOn_ne_nil '\n' e.2)
  have hpair : keyValue (e.1 ++ ['='] ++ first) = some (e.1, first) := by
    rw [List.append_assoc]
    exact keyValue_pair heq first
  rw [firstLine, overflow, hsplit, List.modifyHead_cons, List.map_cons, hpair, List.headD_cons, List.tail_cons]

theorem firstLine_eq_self {v : List Char} (h : '\n' ∉ v) : firstLine v = v := by
  rw [firstLine, List.splitOn_eq_singleton h]
  rfl

theorem overflow_eq_nil {v : List Char} (h : '\n' ∉ v) : overflow v = [] := by
  rw [overflow, List.splitOn_eq_singleton h]
  rfl

theorem mem_intercalate {c d : Char} (h : c ≠ d) {ls : List (List Char)} : c ∈ [d].intercalate ls ↔ ∃ l ∈ ls, c ∈ l := by
  induction ls with
  | nil => simp
  | cons l ls ih =>
    by_cases hls : ls = []
    · subst hls
      simp
    · rw [List.intercalate_cons_of_ne_nil hls, List.mem_append, List.mem_append, ih]
      simp [h]

/-- what was joined comes back, if no item is empty or has the separator -/
theorem fieldsAt_intercalate {sep : Char} {ls : List (List Char)} (h : ∀ l ∈ ls, l ≠ [] ∧ sep ∉ l) :
    fieldsAt sep ([sep].intercalate ls) = ls := by
  by_cases hls : ls = []
  · subst hls
    simp [fieldsAt]
  have hsplit : ([sep].intercalate ls).splitOn sep = ls := List.splitOn_intercalate sep (fun l hl => (h l hl).2) hls
  have hlast : ¬ ls.getLast? = some [] := fun hl => (h [] (List.mem_of_getLast? hl)).1 rfl
  rw [fieldsAt, hsplit, if_neg hlast]

/-- joined by newlines, with one at the end -/
theorem intercalate_newline {ls : List (List Char)} (h : ls ≠ []) : ['\n'].intercalate ls ++ ['\n'] = unlines ls := by
  induction ls with
  | nil => exact absurd rfl h
  | cons l ls ih =>
    by_cases hls : ls = []
    · subst hls
      simp [unlines]
    · rw [List.intercalate_cons_of_ne_nil hls, List.append_assoc, List.append_assoc, ih hls]
      simp [unlines]

end Lib.Lines
