/-
A few words of the POSIX shell, over texts as lists of characters.

- `whileLoop`: a loop that leaves by `break`; `none` if the fuel runs out first;
- `expand`: pathname expansion of the fields of an unquoted expansion. A field without `*`, `?` or `[` stays as it is, and so does
  one that matches no file;
- `cutLongestSuffix`, `cutShortestPrefix`, `cutLongestPrefix`, `cutShortestSuffix`: the expansions `%%`, `#`, `##` and `%` of a
  variable;
- `captured`: command substitution.

Results:
- `whileLoop_break`, `whileLoop_terminates`: a loop that breaks at once, and one that makes its state smaller;
- `cutLongestSuffix_from`, `cutShortestPrefix_through`, `cutShortestPrefix_self`: `%%c*` and `#*c` cut at the first `c`;
- `cutLongestPrefix_through`: `##*c` cuts at the last `c`;
- `captured_line`: a line that was printed comes back.
-/
import Mathlib.Data.List.Basic
import Mathlib.Data.List.TakeWhile
import Mathlib.Tactic.Common

namespace Lib.Shell

/-! ## Loops -/

section Loops

variable {α : Type} {step : α → Option α} {a b : α}

/-- `while :; do … done`, where `none` is the `break` -/
def whileLoop (step : α → Option α) : ℕ → α → Option α
  | 0, _ => none
  | fuel + 1, a =>
    match step a with
    | none => some a
    | some b => whileLoop step fuel b

theorem whileLoop_break (h : step a = none) {fuel : ℕ} (hf : 0 < fuel) : whileLoop step fuel a = some a := by
  obtain ⟨n, rfl⟩ := Nat.exists_eq_succ_of_ne_zero (Nat.pos_iff_ne_zero.1 hf)
  rw [whileLoop, h]

theorem whileLoop_next (h : step a = some b) (fuel : ℕ) : whileLoop step (fuel + 1) a = whileLoop step fuel b := by
  rw [whileLoop, h]

/-- a loop whose state gets smaller in every round leaves -/
theorem whileLoop_terminates (size : α → ℕ) (hstep : ∀ a b, step a = some b → size b < size a) (a : α) {fuel : ℕ}
    (hf : size a < fuel) : ∃ b, whileLoop step fuel a = some b ∧ size b ≤ size a := by
  induction fuel generalizing a with
  | zero => omega
  | succ fuel ih =>
    cases h : step a with
    | none => exact ⟨a, whileLoop_break h (Nat.succ_pos _), le_rfl⟩
    | some b =>
      have hlt := hstep a b h
      obtain ⟨c, hc, hle⟩ := ih b (by omega)
      exact ⟨c, (whileLoop_next h fuel).trans hc, by omega⟩

end Loops

/-! ## Expansions -/

def isGlobChar (c : Char) : Bool := c = '*' || c = '?' || c = '['

/-- pathname expansion; `glob` gives the files that match a pattern -/
def expand (glob : List Char → List (List Char)) (fields : List (List Char)) : List (List Char) :=
  fields.flatMap fun field => if field.any isGlobChar && (glob field ≠ []) then glob field else [field]

theorem expand_eq_self {glob : List Char → List (List Char)} {fields : List (List Char)}
    (h : ∀ field ∈ fields, ∀ c ∈ field, isGlobChar c = false) : expand glob fields = fields := by
  have hstep : ∀ field ∈ fields,
      (if field.any isGlobChar && (glob field ≠ []) then glob field else [field]) = [field] := by
    intro field hf
    have hany : field.any isGlobChar = false := List.any_eq_false.2 fun c hc => by simp [h field hf c hc]
    simp [hany]
  calc expand glob fields = fields.flatMap fun field => [field] := List.flatMap_congr hstep
    _ = fields := List.flatMap_singleton' fields

variable (p : List Char → Bool)

/-- `${v%%pattern}` -/
def cutLongestSuffix : List Char → List Char
  | [] => []
  | c :: cs => if p (c :: cs) then [] else c :: cutLongestSuffix cs

/-- the rest after the first point at which what was seen matches -/
def restAfter (seen : List Char) : List Char → Option (List Char)
  | [] => if p seen then some [] else none
  | c :: cs => if p seen then some (c :: cs) else restAfter (seen ++ [c]) cs

/-- `${v#pattern}` -/
def cutShortestPrefix (cs : List Char) : List Char := (restAfter p [] cs).getD cs

/-- `${v%pattern}` -/
def cutShortestSuffix (cs : List Char) : List Char :=
  ((restAfter (fun seen => p seen.reverse) [] cs.reverse).map List.reverse).getD cs

/-- the pattern `?` -/
def anyChar (cs : List Char) : Bool := cs.length = 1

theorem cutShortestPrefix_anyChar (c : Char) (cs : List Char) : cutShortestPrefix anyChar (c :: cs) = cs := by
  cases cs with
  | nil => rfl
  | cons d cs => rfl

theorem cutShortestSuffix_anyChar (cs : List Char) (c : Char) : cutShortestSuffix anyChar (cs ++ [c]) = cs := by
  have hrest : restAfter (fun seen => anyChar seen.reverse) [] (c :: cs.reverse) = some cs.reverse := by
    cases cs.reverse with
    | nil => rfl
    | cons d ds => rfl
  rw [cutShortestSuffix, List.reverse_append, List.reverse_singleton, List.singleton_append, hrest, Option.map_some,
    List.reverse_reverse, Option.getD_some]

/-- the pattern `c*` -/
def startsWith (c : Char) (cs : List Char) : Bool := cs.head? = some c

/-- the pattern `*c` -/
def endsWith (c : Char) (cs : List Char) : Bool := cs.getLast? = some c

/-- `%%c*` keeps what stands before the first `c` -/
theorem cutLongestSuffix_from (c : Char) (cs : List Char) :
    cutLongestSuffix (startsWith c) cs = cs.takeWhile (· ≠ c) := by
  induction cs with
  | nil => rfl
  | cons d cs ih =>
    rw [cutLongestSuffix, List.takeWhile_cons, ih]
    by_cases h : d = c
    · simp [h, startsWith]
    · simp [h, startsWith]

theorem endsWith_append_singleton (c d : Char) (cs : List Char) : endsWith c (cs ++ [d]) = decide (d = c) := by
  simp [endsWith]

/-- `#*c` drops everything through the first `c` -/
theorem cutShortestPrefix_through {c : Char} {front : List Char} (h : c ∉ front) (rest : List Char) :
    cutShortestPrefix (endsWith c) (front ++ c :: rest) = rest := by
  have hgo : ∀ seen, endsWith c seen = false → restAfter (endsWith c) seen (front ++ c :: rest) = some rest := by
    induction front with
    | nil =>
      intro seen hs
      rw [List.nil_append, restAfter, hs]
      have hhit : endsWith c (seen ++ [c]) = true := by simp [endsWith]
      cases rest <;> simp [restAfter, hhit]
    | cons d front ih =>
      intro seen hs
      have hd : d ≠ c := fun he => h (he ▸ List.mem_cons_self)
      have hf : c ∉ front := fun hm => h (List.mem_cons_of_mem _ hm)
      rw [List.cons_append, restAfter, hs]
      exact ih hf _ (by simp [endsWith_append_singleton, hd])
  rw [cutShortestPrefix, hgo [] rfl, Option.getD_some]

/-- `#*c` leaves a text without `c` as it is -/
theorem cutShortestPrefix_self {c : Char} {cs : List Char} (h : c ∉ cs) : cutShortestPrefix (endsWith c) cs = cs := by
  have hgo : ∀ seen, endsWith c seen = false → restAfter (endsWith c) seen cs = none := by
    induction cs with
    | nil =>
      intro seen hs
      rw [restAfter, hs]
      rfl
    | cons d cs ih =>
      intro seen hs
      have hd : d ≠ c := fun he => h (he ▸ List.mem_cons_self)
      have hf : c ∉ cs := fun hm => h (List.mem_cons_of_mem _ hm)
      rw [restAfter, hs]
      exact ih hf _ (by simp [endsWith_append_singleton, hd])
  rw [cutShortestPrefix, hgo [] rfl, Option.getD_none]

/-- the rest after the last point at which what was seen matches -/
def restAfterLast (seen : List Char) : List Char → Option (List Char)
  | [] => if p seen then some [] else none
  | c :: cs =>
    match restAfterLast (seen ++ [c]) cs with
    | some rest => some rest
    | none => if p seen then some (c :: cs) else none

/-- `${v##pattern}` -/
def cutLongestPrefix (cs : List Char) : List Char := (restAfterLast p [] cs).getD cs

theorem restAfterLast_none {c : Char} {cs : List Char} (h : c ∉ cs) {seen : List Char} (hs : endsWith c seen = false) :
    restAfterLast (endsWith c) seen cs = none := by
  induction cs generalizing seen with
  | nil =>
    rw [restAfterLast, hs]
    rfl
  | cons d cs ih =>
    have hd : d ≠ c := fun he => h (he ▸ List.mem_cons_self)
    have hf : c ∉ cs := fun hm => h (List.mem_cons_of_mem _ hm)
    rw [restAfterLast, ih hf (by simp [endsWith_append_singleton, hd]), hs]
    rfl

/-- `##*c` drops everything through the last `c` -/
theorem cutLongestPrefix_through {c : Char} {rest : List Char} (h : c ∉ rest) (front : List Char) :
    cutLongestPrefix (endsWith c) (front ++ c :: rest) = rest := by
  have hend : ∀ seen, endsWith c seen = true → restAfterLast (endsWith c) seen rest = some rest := by
    intro seen hs
    cases rest with
    | nil => simp [restAfterLast, hs]
    | cons d rest =>
      have hd : d ≠ c := fun he => h (he ▸ List.mem_cons_self)
      have hf : c ∉ rest := fun hm => h (List.mem_cons_of_mem _ hm)
      rw [restAfterLast, restAfterLast_none hf (by simp [endsWith_append_singleton, hd]), hs]
      rfl
  have hgo : ∀ seen, restAfterLast (endsWith c) seen (front ++ c :: rest) = some rest := by
    induction front with
    | nil =>
      intro seen
      rw [List.nil_append, restAfterLast, hend _ (by simp [endsWith])]
    | cons d front ih =>
      intro seen
      rw [List.cons_append, restAfterLast, ih]
  rw [cutLongestPrefix, hgo, Option.getD_some]

/-! ## Command substitution -/

/-- `$(..)`: what is printed, without the newlines at its end -/
def captured (out : List Char) : List Char := (out.reverse.dropWhile fun c => c = '\n').reverse

theorem captured_of_last {out : List Char} (h : out.getLast? ≠ some '\n') : captured out = out := by
  unfold captured
  cases hout : out.reverse with
  | nil => rw [List.dropWhile_nil, List.reverse_nil, List.reverse_eq_nil_iff.1 hout]
  | cons c cs =>
    have hlast : out.getLast? = some c := by
      rw [← List.head?_reverse, hout, List.head?_cons]
    have hc : ¬ c = '\n' := fun heq => h (by rw [hlast, heq])
    rw [List.dropWhile_cons_of_neg (by simpa using hc), ← hout, List.reverse_reverse]

theorem captured_line {line : List Char} (h : line.getLast? ≠ some '\n') : captured (line ++ ['\n']) = line := by
  have hcut : captured (line ++ ['\n']) = captured line := by
    unfold captured
    rw [List.reverse_append, List.reverse_singleton, List.singleton_append, List.dropWhile_cons_of_pos (by simp)]
  rw [hcut, captured_of_last h]

end Lib.Shell
