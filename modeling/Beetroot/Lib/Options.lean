/-
Option texts of a command line: `key=value` and flags, with commas between them.

A value runs to the first comma that is not doubled, and a doubled comma in it stands for one. A key runs to the first `=` or
comma. An option without `=` is a flag (`nofoo` switches `foo` off), except that the first option of some texts has a key of its
own, so that its value is written alone.

Results:
- `option_named`, `option_first`: a value without a comma is read back as it was written;
- `value_exact`: and only such a value is.
-/
import Mathlib.Data.List.Induction
import Mathlib.Data.List.TakeWhile
import Mathlib.Tactic.Common

namespace Lib.Options

/-- a value and what stands behind the comma that ends it -/
def value : List Char → List Char × List Char
  | [] => ([], [])
  | [c] => if c = ',' then ([], []) else ([c], [])
  | c :: d :: cs =>
    if c ≠ ',' then (c :: (value (d :: cs)).1, (value (d :: cs)).2)
    else if d = ',' then (',' :: (value cs).1, (value cs).2)
    else ([], d :: cs)

/-- the characters of a key -/
def inKey (c : Char) : Bool := c ≠ '=' && c ≠ ','

/-- an option that is a key alone -/
def flag (key : List Char) : List Char × List Char :=
  if key.take 2 = ['n', 'o'] then (key.drop 2, ['o', 'f', 'f']) else (key, ['o', 'n'])

/-- one option, and what stands behind it; `first` is the key of a value that is written alone -/
def option (first : Option (List Char)) (cs : List Char) : (List Char × List Char) × List Char :=
  let key := cs.takeWhile inKey
  let rest := cs.dropWhile inKey
  if rest.head? = some '=' then ((key, (value rest.tail).1), (value rest.tail).2)
  else match first with
    | some first => ((first, (value cs).1), (value cs).2)
    | none => (flag key, rest.tail)

/-- the options of a text; each takes a character at least, so that the fuel lasts -/
def parseFrom : ℕ → Option (List Char) → List Char → List (List Char × List Char)
  | 0, _, _ => []
  | fuel + 1, first, cs => if cs = [] then [] else (option first cs).1 :: parseFrom fuel none (option first cs).2

def parse (first : Option (List Char)) (cs : List Char) : List (List Char × List Char) := parseFrom cs.length first cs

/-! ## Values -/

theorem value_cons {c : Char} (h : c ≠ ',') (cs : List Char) : value (c :: cs) = (c :: (value cs).1, (value cs).2) := by
  cases cs with
  | nil => simp [value, h]
  | cons d cs => simp [value, h]

theorem value_append {v : List Char} (h : ',' ∉ v) (cs : List Char) :
    value (v ++ cs) = (v ++ (value cs).1, (value cs).2) := by
  induction v with
  | nil => rfl
  | cons c v ih =>
    have hc : c ≠ ',' := fun he => h (he ▸ List.mem_cons_self)
    rw [List.cons_append, value_cons hc, ih fun hm => h (List.mem_cons_of_mem _ hm)]
    rfl

/-- a comma with something else behind it ends the value -/
theorem value_comma {cs : List Char} (h : cs.head? ≠ some ',') : value (',' :: cs) = ([], cs) := by
  cases cs with
  | nil => rfl
  | cons d cs =>
    have hd : d ≠ ',' := fun he => h (he ▸ rfl)
    simp [value, hd]

theorem value_whole {v : List Char} (h : ',' ∉ v) : value v = (v, []) := by
  simpa [value] using value_append h []

theorem value_until {v cs : List Char} (h : ',' ∉ v) (hcs : cs.head? ≠ some ',') : value (v ++ ',' :: cs) = (v, cs) := by
  rw [value_append h, value_comma hcs, List.append_nil]

theorem value_length (v : List Char) : (value v).1.length ≤ v.length ∧ ((value v).1.length = v.length → ',' ∉ v) := by
  induction v using List.twoStepInduction with
  | nil => simp [value]
  | singleton c =>
    by_cases hc : c = ','
    · simp [value, hc]
    · simp [value, hc, Ne.symm hc]
  | cons_cons c d cs ih ih' =>
    by_cases hc : c = ','
    · by_cases hd : d = ','
      · simp only [value, hc, hd, ne_eq, not_true_eq_false, if_false, if_true, List.length_cons]
        omega
      · simp [value, hc, hd]
    · obtain ⟨hle, heq⟩ := ih' d
      simp only [value, hc, ne_eq, not_false_eq_true, if_true, List.length_cons] at hle heq ⊢
      refine ⟨by omega, fun h => ?_⟩
      simp only [List.mem_cons, not_or]
      exact ⟨Ne.symm hc, by simpa using heq (by omega)⟩

theorem value_whole_iff {v : List Char} : (value v).1 = v ↔ ',' ∉ v := by
  refine ⟨fun h => (value_length v).2 (congrArg List.length h), fun h => ?_⟩
  rw [value_whole h]

theorem head_ne_comma {y : List Char} (hy : ',' ∉ y) (hne : y ≠ []) (z : List Char) :
    (y ++ ',' :: z).head? ≠ some ',' := by
  obtain ⟨c, y, rfl⟩ := List.exists_cons_of_ne_nil hne
  intro he
  exact hy (Option.some.inj he ▸ List.mem_cons_self)

theorem last_ne_comma {y w : List Char} (hy : ',' ∉ y) (hne : y ≠ []) (h : y <:+ w) : w.getLast? ≠ some ',' := by
  obtain ⟨front, rfl⟩ := h
  rw [List.getLast?_append, List.getLast?_eq_some_getLast hne, Option.some_or]
  intro he
  exact hy (Option.some.inj he ▸ List.getLast_mem hne)

/-- a value with a further option `y` behind it: either the value takes less than its text, or the last comma of its text and
the one behind it are read as one, and `y` becomes part of the value -/
theorem value_reach {y z : List Char} (hy : ',' ∉ y) (hne : y ≠ []) (hz : z.head? ≠ some ',') (r : List Char) :
    ((value (r ++ ',' :: (y ++ ',' :: z))).1.length ≤ r.length ∧
      ((value (r ++ ',' :: (y ++ ',' :: z))).1.length = r.length → ',' ∉ r)) ∨
    (r.getLast? = some ',' ∧ y <:+ (value (r ++ ',' :: (y ++ ',' :: z))).1) := by
  have hhead := head_ne_comma hy hne z
  induction r using List.twoStepInduction with
  | nil =>
    left
    rw [List.nil_append, value_comma hhead]
    simp
  | singleton c =>
    by_cases hc : c = ','
    · right
      refine ⟨by rw [hc]; rfl, ?_⟩
      have hjoin : value ([c] ++ ',' :: (y ++ ',' :: z)) = (',' :: y, z) := by
        rw [hc, List.singleton_append, value]
        simp [value_until hy hz]
      rw [hjoin]
      exact List.suffix_cons _ _
    · left
      rw [List.singleton_append, value_cons hc, value_comma hhead]
      simp [Ne.symm hc]
  | cons_cons c d r ih ih' =>
    by_cases hc : c = ','
    · by_cases hd : d = ','
      · have hjoin : (value (c :: d :: r ++ ',' :: (y ++ ',' :: z))).1 = ',' :: (value (r ++ ',' :: (y ++ ',' :: z))).1 := by
          rw [hc, hd, List.cons_append, List.cons_append, value]
          simp
        rw [hjoin]
        rcases ih with ⟨hle, -⟩ | ⟨hlast, hsuffix⟩
        · left
          simp only [List.length_cons]
          omega
        · right
          refine ⟨?_, hsuffix.trans (List.suffix_cons _ _)⟩
          rw [List.getLast?_cons, List.getLast?_cons, hlast]
          rfl
      · left
        have hjoin : (value (c :: d :: r ++ ',' :: (y ++ ',' :: z))).1 = [] := by
          rw [hc, List.cons_append, value_comma]
          simpa using hd
        rw [hjoin]
        simp
    · rw [List.cons_append, value_cons hc]
      rcases ih' d with ⟨hle, heq⟩ | ⟨hlast, hsuffix⟩
      · left
        simp only [List.length_cons] at hle heq ⊢
        refine ⟨by omega, fun h => ?_⟩
        rw [List.mem_cons, not_or]
        exact ⟨Ne.symm hc, heq (by omega)⟩
      · right
        refine ⟨?_, hsuffix.trans (List.suffix_cons _ _)⟩
        rw [List.getLast?_cons, hlast]
        rfl

/-- a value is read back as it was written exactly when it has no comma -/
theorem value_exact {y z : List Char} (hy : ',' ∉ y) (hne : y ≠ []) (hz : z.head? ≠ some ',') {r : List Char} :
    (value (r ++ ',' :: (y ++ ',' :: z))).1 = r ↔ ',' ∉ r := by
  refine ⟨fun h => ?_, fun h => ?_⟩
  · rcases value_reach hy hne hz r with ⟨-, heq⟩ | ⟨hlast, hsuffix⟩
    · exact heq (congrArg List.length h)
    · rw [h] at hsuffix
      exact absurd hlast (last_ne_comma hy hne hsuffix)
  · rw [value_append h]
    rw [value_comma (head_ne_comma hy hne z), List.append_nil]

/-! ## Options -/

theorem value_rest (cs : List Char) : (value cs).2.length ≤ cs.length := by
  induction cs using List.twoStepInduction with
  | nil => simp [value]
  | singleton c =>
    by_cases hc : c = ','
    · simp [value, hc]
    · simp [value, hc]
  | cons_cons c d cs ih ih' =>
    have hd := ih' d
    simp only [value, List.length_cons] at hd ⊢
    split_ifs
    · simp only
      omega
    · simp only
      omega
    · simp

theorem value_rest_lt {cs : List Char} (h : cs ≠ []) : (value cs).2.length < cs.length := by
  cases cs with
  | nil => exact absurd rfl h
  | cons c cs =>
    by_cases hc : c = ','
    · cases cs with
      | nil => simp [value, hc]
      | cons d cs =>
        have := value_rest cs
        by_cases hd : d = ','
        · simp only [value, hc, hd, ne_eq, not_true_eq_false, if_false, if_true, List.length_cons]
          omega
        · simp [value, hc, hd]
    · have := value_rest cs
      rw [value_cons hc, List.length_cons]
      exact Nat.lt_succ_of_le this

theorem option_rest (first : Option (List Char)) {cs : List Char} (h : cs ≠ []) :
    (option first cs).2.length < cs.length := by
  have hdrop : (cs.dropWhile inKey).length ≤ cs.length := List.length_dropWhile_le ..
  have hpos : 0 < cs.length := List.length_pos_iff.2 h
  by_cases heq : (cs.dropWhile inKey).head? = some '='
  · obtain ⟨rest, hrest⟩ := List.head?_eq_some_iff.1 heq
    have := value_rest rest
    have hopt : (option first cs).2 = (value rest).2 := by simp [option, hrest]
    rw [hrest, List.length_cons] at hdrop
    rw [hopt]
    omega
  · cases first with
    | some first =>
      simp only [option, heq, if_false]
      exact value_rest_lt h
    | none =>
      simp only [option, heq, if_false, List.length_tail]
      omega

theorem parseFrom_fuel {first : Option (List Char)} {cs : List Char} {fuel fuel' : ℕ} (h : cs.length ≤ fuel)
    (h' : cs.length ≤ fuel') : parseFrom fuel first cs = parseFrom fuel' first cs := by
  induction fuel generalizing first cs fuel' with
  | zero =>
    rw [List.length_eq_zero_iff.1 (Nat.le_zero.1 h)]
    cases fuel' with
    | zero => rfl
    | succ fuel' => rfl
  | succ fuel ih =>
    cases cs with
    | nil =>
      cases fuel' with
      | zero => rfl
      | succ fuel' => rfl
    | cons c cs =>
      have hlt := option_rest first (List.cons_ne_nil c cs)
      rw [List.length_cons] at h h' hlt
      obtain ⟨fuel', rfl⟩ : ∃ n, fuel' = n + 1 := ⟨fuel' - 1, by omega⟩
      rw [parseFrom, parseFrom, ih (by omega) (by omega : _ ≤ fuel')]

theorem parse_nil (first : Option (List Char)) : parse first [] = [] := rfl

theorem parse_cons (first : Option (List Char)) {cs : List Char} (h : cs ≠ []) :
    parse first cs = (option first cs).1 :: parse none (option first cs).2 := by
  obtain ⟨c, cs, rfl⟩ := List.exists_cons_of_ne_nil h
  have hlt := option_rest first (List.cons_ne_nil c cs)
  rw [List.length_cons] at hlt
  rw [parse, List.length_cons, parseFrom, if_neg (List.cons_ne_nil c cs)]
  exact congrArg _ (parseFrom_fuel (by omega) le_rfl)

theorem dropWhile_key {key : List Char} (h : key.all inKey = true) {cs : List Char} (hcs : ∀ c ∈ cs.head?, inKey c = false) :
    (key ++ cs).takeWhile inKey = key ∧ (key ++ cs).dropWhile inKey = cs := by
  have hall : ∀ c ∈ key, inKey c = true := List.all_eq_true.1 h
  rw [List.takeWhile_append_of_pos hall, List.dropWhile_append_of_pos hall]
  cases cs with
  | nil => simp
  | cons c cs =>
    have hc : inKey c = false := hcs c rfl
    simp [hc]

theorem option_named (first : Option (List Char)) {key : List Char} (h : key.all inKey = true) (cs : List Char) :
    option first (key ++ '=' :: cs) = ((key, (value cs).1), (value cs).2) := by
  have hcs : ∀ c ∈ ('=' :: cs).head?, inKey c = false := by simp [inKey]
  obtain ⟨htake, hdrop⟩ := dropWhile_key h hcs
  simp [option, htake, hdrop]

/-- a first value that is written alone -/
theorem option_first (first : List Char) {v : List Char} (h : '=' ∉ v) (cs : List Char) :
    option (some first) (v ++ ',' :: cs) = ((first, (value (v ++ ',' :: cs)).1), (value (v ++ ',' :: cs)).2) := by
  have hhead : ((v ++ ',' :: cs).dropWhile inKey).head? ≠ some '=' := by
    induction v with
    | nil => simp [inKey]
    | cons c v ih =>
      have hc : c ≠ '=' := fun he => h (he ▸ List.mem_cons_self)
      rw [List.cons_append, List.dropWhile_cons]
      split_ifs
      · exact ih fun hm => h (List.mem_cons_of_mem _ hm)
      · simpa using hc
  simp [option, hhead]

end Lib.Options
