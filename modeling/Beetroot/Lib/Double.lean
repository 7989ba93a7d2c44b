/-
Double-precision numbers by their values: a rational, an infinity or not a number. Signed zeros are not told apart.

`ofRat` is the nearest double, ties to the even one: 53 significant bits, multiples of 2^-1074 below the normal range, and
infinity from 2^1024 on after rounding. `repr` is the text of a double: the shortest digits that round back to it, in positional
form for exponents from -4 to 15.

Results: `mem_repr`: the characters of a text are digits, signs, a point and letters of `e`, `inf`, `nan`.
-/
import Mathlib.Algebra.Order.Floor.Ring
import Mathlib.Data.Int.Log
import Mathlib.Data.Rat.Floor

namespace Lib

inductive Double where
  | fin (q : ℚ)
  | inf
  | negInf
  | nan
deriving DecidableEq

namespace Double

def roundHalfEven (q : ℚ) : ℤ :=
  let r := q - ⌊q⌋
  if r < 1 / 2 then ⌊q⌋ else if 1 / 2 < r then ⌊q⌋ + 1 else if ⌊q⌋ % 2 = 0 then ⌊q⌋ else ⌊q⌋ + 1

/-- `b ^ k`, for a negative `k` too -/
def power (b : ℕ) (k : ℤ) : ℚ := if 0 ≤ k then ((b ^ k.toNat : ℕ) : ℚ) else ((b ^ (-k).toNat : ℕ) : ℚ)⁻¹

/-- 2^1024 -/
def limit : ℚ := ((2 ^ 1024 : ℕ) : ℚ)

/-- the nearest multiple of the spacing of the doubles around a positive rational -/
def roundPos (q : ℚ) : ℚ :=
  let spacing := power 2 (max (Int.log 2 q - 52) (-1074))
  roundHalfEven (q / spacing) * spacing

/-- the nearest double -/
def ofRat (q : ℚ) : Double :=
  if q = 0 then fin 0
  else if 0 < q then (if limit ≤ roundPos q then inf else fin (roundPos q))
  else if limit ≤ roundPos (-q) then negInf else fin (-roundPos (-q))

/-- at most zero; never so for a NaN -/
def nonpos : Double → Bool
  | fin q => q ≤ 0
  | negInf => true
  | inf | nan => false

/-! ## Texts -/

/-- the nearest decimal of `p` digits to a positive rational: its digits and the exponent of its last one -/
def nearestDecimal (q : ℚ) (p : ℕ) : ℕ × ℤ :=
  let last := Int.log 10 q + 1 - p
  ((roundHalfEven (q / power 10 last)).toNat, last)

/-- the shortest decimal that rounds back to a positive double -/
def shortest (q : ℚ) : ℕ × ℤ :=
  ((List.range 17).map fun p => nearestDecimal q (p + 1)).find? (fun d => ofRat (d.1 * power 10 d.2) = fin q)
    |>.getD (nearestDecimal q 17)

def zeros (n : ℕ) : List Char := List.replicate n '0'

/-- digits without the zeros at their end -/
def digitsOf (n : ℕ) : List Char := ((Nat.toDigits 10 n).reverse.dropWhile (· = '0')).reverse

/-- two digits at least -/
def exponentText (e : ℤ) : List Char :=
  (if e < 0 then ['-'] else ['+']) ++ (if e.natAbs < 10 then ['0'] else []) ++ Nat.toDigits 10 e.natAbs

/-- the text of a positive double -/
def reprPos (q : ℚ) : List Char :=
  let d := shortest q
  let ds := digitsOf d.1
  -- the point stands before the digit with this index
  let point : ℤ := (Nat.toDigits 10 d.1).length + d.2
  if point ≤ -4 ∨ 16 < point then
    ds.take 1 ++ (if ds.length ≤ 1 then [] else '.' :: ds.drop 1) ++ 'e' :: exponentText (point - 1)
  else if point ≤ 0 then '0' :: '.' :: zeros (-point).toNat ++ ds
  else if (ds.length : ℤ) ≤ point then ds ++ zeros (point.toNat - ds.length) ++ ['.', '0']
  else ds.take point.toNat ++ '.' :: ds.drop point.toNat

/-- `repr` of a double -/
def repr : Double → String
  | fin q => String.ofList (if q = 0 then ['0', '.', '0'] else if 0 < q then reprPos q else '-' :: reprPos (-q))
  | inf => "inf"
  | negInf => "-inf"
  | nan => "nan"

/-- the characters of a text -/
def isReprChar (c : Char) : Bool := c.isDigit || c ∈ ['.', '-', '+', 'e', 'i', 'n', 'f', 'a']

theorem isReprChar_toDigits {n : ℕ} {c : Char} (h : c ∈ Nat.toDigits 10 n) : isReprChar c = true := by
  have := Nat.isDigit_of_mem_toDigits (by decide) (by decide) h
  simp [isReprChar, this]

theorem isReprChar_digitsOf {n : ℕ} {c : Char} (h : c ∈ digitsOf n) : isReprChar c = true := by
  have h1 := (List.dropWhile_suffix _).mem (List.mem_reverse.1 h)
  exact isReprChar_toDigits (List.mem_reverse.1 h1)

theorem isReprChar_zeros {n : ℕ} {c : Char} (h : c ∈ zeros n) : isReprChar c = true := by
  rw [List.eq_of_mem_replicate h]; decide

theorem isReprChar_exponentText {e : ℤ} {c : Char} (h : c ∈ exponentText e) : isReprChar c = true := by
  unfold exponentText at h
  rcases List.mem_append.1 h with h | h
  · rcases List.mem_append.1 h with h | h
    · split_ifs at h
      · rw [List.mem_singleton.1 h]; decide
      · rw [List.mem_singleton.1 h]; decide
    · split_ifs at h
      · rw [List.mem_singleton.1 h]; decide
      · simp at h
  · exact isReprChar_toDigits h

theorem isReprChar_reprPos {q : ℚ} {c : Char} (h : c ∈ reprPos q) : isReprChar c = true := by
  have hlit : ∀ {d : Char}, c = d → isReprChar d = true → isReprChar c = true := fun he hd => he ▸ hd
  have htake : ∀ {k : ℕ}, c ∈ (digitsOf (shortest q).1).take k → isReprChar c = true :=
    fun hc => isReprChar_digitsOf (List.mem_of_mem_take hc)
  have hdrop : ∀ {k : ℕ}, c ∈ (digitsOf (shortest q).1).drop k → isReprChar c = true :=
    fun hc => isReprChar_digitsOf (List.mem_of_mem_drop hc)
  unfold reprPos at h
  simp only at h
  split_ifs at h <;> simp only [List.mem_append, List.mem_cons, List.not_mem_nil, or_false, List.append_nil] at h
  · rcases h with h | h | h
    · exact htake h
    · exact hlit h (by decide)
    · exact isReprChar_exponentText h
  · rcases h with (h | h | h) | h | h
    · exact htake h
    · exact hlit h (by decide)
    · exact hdrop h
    · exact hlit h (by decide)
    · exact isReprChar_exponentText h
  · rcases h with (h | h | h) | h
    · exact hlit h (by decide)
    · exact hlit h (by decide)
    · exact isReprChar_zeros h
    · exact isReprChar_digitsOf h
  · rcases h with (h | h) | h | h
    · exact isReprChar_digitsOf h
    · exact isReprChar_zeros h
    · exact hlit h (by decide)
    · exact hlit h (by decide)
  · rcases h with h | h | h
    · exact htake h
    · exact hlit h (by decide)
    · exact hdrop h

theorem isReprChar_of_all {cs : List Char} (hcs : cs.all isReprChar = true) {c : Char} (h : c ∈ cs) :
    isReprChar c = true := List.all_eq_true.1 hcs c h

theorem mem_repr {x : Double} {c : Char} (h : c ∈ x.repr.toList) : isReprChar c = true := by
  cases x with
  | fin q =>
    simp only [repr, String.toList_ofList] at h
    split_ifs at h with h0 h1
    · exact isReprChar_of_all (by decide) h
    · exact isReprChar_reprPos h
    · rcases List.mem_cons.1 h with rfl | h
      · decide
      · exact isReprChar_reprPos h
  | inf => exact isReprChar_of_all (by decide) h
  | negInf => exact isReprChar_of_all (by decide) h
  | nan => exact isReprChar_of_all (by decide) h

end Double

end Lib
