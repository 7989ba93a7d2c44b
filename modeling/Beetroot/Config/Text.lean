/-
The texts of `beetroot.yaml`: the regular expressions of the schema, and the byte count of a Docker size.

`re.match` with a pattern that ends in `$` also accepts one newline after the text; `re.fullmatch` does not. The denylist, the
Docker sizes and the Frida version are checked with the first, the sha256 digests with the second. `\d` is any decimal digit of
Unicode.

Results:
- `checkDockerSize_iff`, `checkDenylistEntry_iff`: an accepted text is a full match, or a full match and a newline;
- `mem_dockerSizeFull`, `mem_denylistFull`: the characters of a full match, so that neither a newline nor a comma is one.
-/
import Beetroot.Lib.Double
import Beetroot.Lib.Search
import Mathlib.Data.List.TakeWhile

namespace Beetroot.Config

open Lib

/-! ## Patterns -/

/-- the code points of the digit zero in the blocks of decimal digits (Unicode 15.1); the other nine follow each -/
def decimalZeros : List ℕ :=
  [0x30, 0x660, 0x6F0, 0x7C0, 0x966, 0x9E6, 0xA66, 0xAE6, 0xB66, 0xBE6, 0xC66, 0xCE6, 0xD66, 0xDE6, 0xE50, 0xED0, 0xF20,
    0x1040, 0x1090, 0x17E0, 0x1810, 0x1946, 0x19D0, 0x1A80, 0x1A90, 0x1B50, 0x1BB0, 0x1C40, 0x1C50, 0xA620, 0xA8D0, 0xA900,
    0xA9D0, 0xA9F0, 0xAA50, 0xABF0, 0xFF10, 0x104A0, 0x10D30, 0x11066, 0x110F0, 0x11136, 0x111D0, 0x112F0, 0x11450, 0x114D0,
    0x11650, 0x116C0, 0x11730, 0x118E0, 0x11950, 0x11C50, 0x11D50, 0x11DA0, 0x11F50, 0x16A60, 0x16AC0, 0x16B50, 0x1D7CE,
    0x1D7D8, 0x1D7E2, 0x1D7EC, 0x1D7F6, 0x1E140, 0x1E2F0, 0x1E4F0, 0x1E950, 0x1FBF0]

/-- the value of a decimal digit -/
def digitValue (c : Char) : Option ℕ :=
  (decimalZeros.find? fun z => z ≤ c.toNat ∧ c.toNat < z + 10).map fun z => c.toNat - z

/-- `\d` -/
def isDecimal (c : Char) : Bool := (digitValue c).isSome

/-- `re.match` of a pattern that ends in `$` -/
def matchDollar (full : List Char → Bool) (cs : List Char) : Bool :=
  full cs || (cs.getLast? = some '\n' && full cs.dropLast)

theorem matchDollar_iff {full : List Char → Bool} {cs : List Char} :
    matchDollar full cs = true ↔ full cs = true ∨ ∃ body, cs = body ++ ['\n'] ∧ full body = true := by
  unfold matchDollar
  rw [Bool.or_eq_true, Bool.and_eq_true]
  refine or_congr Iff.rfl ?_
  constructor
  · intro ⟨hlast, hfull⟩
    have hne : cs ≠ [] := by
      intro h
      subst h
      simp at hlast
    refine ⟨cs.dropLast, ?_, hfull⟩
    have hl : cs.getLast hne = '\n' := by
      rw [List.getLast?_eq_some_getLast hne] at hlast
      simpa using hlast
    rw [← hl]
    exact (List.dropLast_append_getLast hne).symm
  · intro ⟨body, hcs, hfull⟩
    subst hcs
    simpa using hfull

/-! ## Docker sizes -/

def isSizeSuffix (c : Char) : Bool := c ∈ ['b', 'k', 'm', 'g', 't', 'B', 'K', 'M', 'G', 'T']

/-- `[bkmgtBKMGT]?` at the end of the text -/
def sizeSuffix : List Char → Bool
  | [] => true
  | [c] => isSizeSuffix c
  | _ => false

/-- a text that starts with a digit -/
def startsDecimal (cs : List Char) : Bool := cs.head?.any isDecimal

/-- a full match of `\d+(\.\d+)?[bkmgtBKMGT]?` -/
def dockerSizeFull (cs : List Char) : Bool :=
  startsDecimal cs &&
    match cs.dropWhile isDecimal with
    | '.' :: frac => startsDecimal frac && sizeSuffix (frac.dropWhile isDecimal)
    | rest => sizeSuffix rest

/-- `_check_docker_size` passes -/
def checkDockerSize (v : String) : Bool := matchDollar dockerSizeFull v.toList

theorem checkDockerSize_iff {v : String} : checkDockerSize v = true ↔
    dockerSizeFull v.toList = true ∨ ∃ body, v.toList = body ++ ['\n'] ∧ dockerSizeFull body = true := matchDollar_iff

theorem sizeSuffix_mem {cs : List Char} (h : sizeSuffix cs = true) {c : Char} (hc : c ∈ cs) : isSizeSuffix c = true := by
  match cs with
  | [] => simp at hc
  | [d] => rw [List.mem_singleton.1 hc]; exact h
  | _ :: _ :: _ => simp [sizeSuffix] at h

/-- a size has digits, a point and a suffix -/
theorem mem_dockerSizeFull {cs : List Char} (h : dockerSizeFull cs = true) {c : Char} (hc : c ∈ cs) :
    isDecimal c = true ∨ c = '.' ∨ isSizeSuffix c = true := by
  unfold dockerSizeFull at h
  rcases Search.mem_of_dropWhile (p := isDecimal) hc with hd | hd
  · exact Or.inl hd
  · obtain ⟨-, h⟩ := Bool.and_eq_true_iff.1 h
    split at h
    · rename_i frac hrest
      rw [hrest] at hd
      obtain ⟨-, hs⟩ := Bool.and_eq_true_iff.1 h
      rcases List.mem_cons.1 hd with hd | hd
      · exact Or.inr (Or.inl hd)
      · rcases Search.mem_of_dropWhile (p := isDecimal) hd with hd | hd
        · exact Or.inl hd
        · exact Or.inr (Or.inr (sizeSuffix_mem hs hd))
    · exact Or.inr (Or.inr (sizeSuffix_mem h hd))

/-- the number that decimal digits stand for -/
def number (ds : List Char) : ℕ := ds.foldl (fun n c => 10 * n + (digitValue c).getD 0) 0

/-- `float(text)` for a text `digits[.digits]`, with the newline that a checked size can end in; `none` is a `ValueError` -/
def parseFloat (cs : List Char) : Option Double :=
  let cs := if cs.getLast? = some '\n' then cs.dropLast else cs
  let whole := cs.takeWhile isDecimal
  if whole = [] then none
  else
    match cs.dropWhile isDecimal with
    | [] => some (Double.ofRat (number whole))
    | '.' :: frac =>
      if startsDecimal frac && frac.all isDecimal then
        some (Double.ofRat (number (whole ++ frac) / Double.power 10 frac.length))
      else none
    | _ => none

inductive SizeError where
  | value
  | overflow
deriving DecidableEq, Repr

/-- `int(x)`; an infinity raises `OverflowError` -/
def intOfFloat : Double → Except SizeError ℤ
  | .fin q => .ok (if 0 ≤ q then ⌊q⌋ else ⌈q⌉)
  | .inf | .negInf => .error .overflow
  | .nan => .error .value

/-- `x * k` with a positive integer -/
def timesNat (x : Double) (k : ℕ) : Double :=
  match x with
  | .fin q => .ofRat (q * k)
  | x => x

/-- `_DOCKER_SIZE_MULTIPLIERS` -/
def dockerSizeMultiplier (suffix : Char) : Option ℕ :=
  match suffix with
  | 'b' => some 1
  | 'k' => some 1024
  | 'm' => some (1024 ^ 2)
  | 'g' => some (1024 ^ 3)
  | 't' => some (1024 ^ 4)
  | _ => none

/-- `_docker_size_to_bytes`, on the characters of a text that passed `_check_docker_size` -/
def sizeToBytes (cs : List Char) : Except SizeError ℤ :=
  match cs.getLast?.bind fun c => dockerSizeMultiplier c.toLower with
  | some k =>
    match parseFloat cs.dropLast with
    | some x => intOfFloat (timesNat x k)
    | none => .error .value
  | none =>
    match parseFloat cs with
    | some x => intOfFloat x
    | none => .error .value

def dockerSizeToBytes (v : String) : Except SizeError ℤ := sizeToBytes v.toList

-- a suffix before the newline cannot be read
example : dockerSizeToBytes "1.5G" = .ok 1610612736 ∧ dockerSizeToBytes "3\n" = .ok 3 ∧
    dockerSizeToBytes "3g\n" = .error .value := by decide +kernel

/-! ## The denylist -/

/-- `[a-zA-Z0-9._]` -/
def isPackageChar (c : Char) : Bool := c.isAlphanum || c = '.' || c = '_'

/-- a full match of `[a-zA-Z0-9._]+(/[a-zA-Z0-9._]+)?` -/
def denylistFull (cs : List Char) : Bool :=
  cs.takeWhile isPackageChar ≠ [] &&
    match cs.dropWhile isPackageChar with
    | [] => true
    | '/' :: process => process ≠ [] && process.all isPackageChar
    | _ => false

/-- an entry passes `_check_packages` -/
def checkDenylistEntry (entry : String) : Bool := matchDollar denylistFull entry.toList

theorem checkDenylistEntry_iff {v : String} : checkDenylistEntry v = true ↔
    denylistFull v.toList = true ∨ ∃ body, v.toList = body ++ ['\n'] ∧ denylistFull body = true := matchDollar_iff

/-- a full match is a package, or a package, a slash and a process -/
theorem denylistFull_iff {cs : List Char} : denylistFull cs = true ↔
    ∃ pkg, pkg ≠ [] ∧ (∀ c ∈ pkg, isPackageChar c = true) ∧
      (cs = pkg ∨ ∃ process, process ≠ [] ∧ (∀ c ∈ process, isPackageChar c = true) ∧ cs = pkg ++ '/' :: process) := by
  unfold denylistFull
  rw [Bool.and_eq_true]
  have hsplit := List.takeWhile_append_dropWhile (p := isPackageChar) (l := cs)
  have hpkg : ∀ c ∈ cs.takeWhile isPackageChar, isPackageChar c = true := fun c hc => List.mem_takeWhile_imp hc
  constructor
  · intro ⟨hne, h⟩
    refine ⟨cs.takeWhile isPackageChar, by simpa using hne, hpkg, ?_⟩
    split at h
    · rename_i hrest
      rw [hrest, List.append_nil] at hsplit
      exact Or.inl hsplit.symm
    · rename_i process hrest
      rw [hrest] at hsplit
      obtain ⟨h1, h2⟩ := Bool.and_eq_true_iff.1 h
      exact Or.inr ⟨process, by simpa using h1, by simpa using h2, hsplit.symm⟩
    · cases h
  · intro ⟨pkg, hne, hall, h⟩
    rcases h with h | ⟨process, hp, hpall, h⟩
    · subst h
      have h1 : cs.takeWhile isPackageChar = cs := List.takeWhile_eq_self_iff.2 hall
      have h2 : cs.dropWhile isPackageChar = [] := List.dropWhile_eq_nil_iff.2 hall
      rw [h1, h2]
      exact ⟨by simpa using hne, rfl⟩
    · subst h
      have h1 : (pkg ++ '/' :: process).takeWhile isPackageChar = pkg := by
        rw [List.takeWhile_append_of_pos hall, List.takeWhile_cons_of_neg (by decide), List.append_nil]
      have h2 : (pkg ++ '/' :: process).dropWhile isPackageChar = '/' :: process := by
        rw [List.dropWhile_append_of_pos hall, List.dropWhile_cons_of_neg (by decide)]
      rw [h1, h2]
      exact ⟨by simpa using hne, by simpa [hp] using hpall⟩

theorem mem_denylistFull {cs : List Char} (h : denylistFull cs = true) {c : Char} (hc : c ∈ cs) :
    isPackageChar c = true ∨ c = '/' := by
  obtain ⟨pkg, -, hall, h | ⟨process, -, hpall, h⟩⟩ := denylistFull_iff.1 h
  · subst h
    exact Or.inl (hall c hc)
  · subst h
    rcases List.mem_append.1 hc with hc | hc
    · exact Or.inl (hall c hc)
    · rcases List.mem_cons.1 hc with hc | hc
      · exact Or.inr hc
      · exact Or.inl (hpall c hc)

/-! ## Versions, digests and URLs -/

/-- a full match of `[0-9]+\.[0-9]+\.[0-9]+` -/
def fridaVersionFull (cs : List Char) : Bool :=
  (cs.splitOn '.').length = 3 && (cs.splitOn '.').all fun group => group ≠ [] && group.all Char.isDigit

def isPinnedFridaVersion (v : String) : Bool := matchDollar fridaVersionFull v.toList

/-- `_FRIDA_SYMBOLIC_VERSIONS` -/
def isSymbolicFridaVersion (v : String) : Bool := v = "auto" || v = "latest"

def isHexDigit (c : Char) : Bool := c.isDigit || ('a' ≤ c && c ≤ 'f') || ('A' ≤ c && c ≤ 'F')

/-- a full match of `[0-9a-fA-F]{64}` -/
def checkSha256Shape (v : String) : Bool := v.toList.length = 64 && v.toList.all isHexDigit

/-- `url.startswith(("http://", "https://"))`, the test of `_ALLOWED_URL_SCHEMES` -/
def hasHttpScheme (url : String) : Bool := "http://".toList <+: url.toList || "https://".toList <+: url.toList

end Beetroot.Config
