/-
Paths with `..` in them: what they come to by their text, and what is found at them in a tree without links, where every component
that is passed has to be a directory.

Results:
- `lookup_eq`: what is reached is the path without its `..`;
- `foldl_up_of_plain`: a path without `..` is its own normalization;
- `stat_of_plain`, `stat_of_file`: what is found at a path without `..`.
-/
import Beetroot.Lib.Fs

namespace Lib.Fs

variable {F : Type}

/-- one component further -/
def up (dir : Path) (c : String) : Path := if c = ".." then dir.dropLast else dir ++ [c]

/-- the path without its `..`; there is nothing above the root -/
def normpath (p : Path) : Path := p.foldl up []

/-- follow the components from a directory -/
def lookup (t : FileTree F) : Path → List String → Option Path
  | dir, [] => some dir
  | dir, c :: cs => if isDir t dir then lookup t (up dir c) cs else none

/-- `os.stat`; `none` if nothing is there -/
def stat (t : FileTree F) (p : Path) : Option (Node F) :=
  match lookup t [] p with
  | none => none
  | some q =>
    match readFile t q with
    | some body => some (.file body)
    | none => if present t q then some .dir else none

theorem lookup_eq {t : FileTree F} {cs : List String} {dir q : Path} (h : lookup t dir cs = some q) : q = cs.foldl up dir := by
  induction cs generalizing dir with
  | nil => exact (Option.some.inj h).symm
  | cons c cs ih =>
    rw [lookup] at h
    split_ifs at h
    exact ih h

theorem foldl_up_of_plain {cs : List String} (h : ".." ∉ cs) (dir : Path) : cs.foldl up dir = dir ++ cs := by
  induction cs generalizing dir with
  | nil => exact (List.append_nil dir).symm
  | cons c cs ih =>
    obtain ⟨hc, hcs⟩ := not_or.1 (mt List.mem_cons.2 h)
    rw [List.foldl_cons, up, if_neg (Ne.symm hc), ih hcs, List.append_assoc, List.singleton_append]

/-- the components that are passed are directories, so the path is reached -/
theorem lookup_of_dirs {t : FileTree F} {cs : List String} {dir : Path} (hplain : ".." ∉ cs)
    (h : ∀ l, l <+: cs → l ≠ cs → isDir t (dir ++ l) = true) : lookup t dir cs = some (dir ++ cs) := by
  induction cs generalizing dir with
  | nil => rw [lookup, List.append_nil]
  | cons c cs ih =>
    obtain ⟨hc, hcs⟩ := not_or.1 (mt List.mem_cons.2 hplain)
    have hhere : isDir t dir = true := by simpa using h [] List.nil_prefix (List.cons_ne_nil c cs).symm
    rw [lookup, if_pos hhere, up, if_neg (Ne.symm hc), ih hcs, List.append_assoc, List.singleton_append]
    intro l hl hne
    rw [List.append_assoc, List.singleton_append]
    refine h (c :: l) (List.cons_prefix_cons.2 ⟨rfl, hl⟩) fun heq => hne ?_
    exact (List.cons.inj heq).2

/-- what is found at a path without `..` is at this path -/
theorem stat_of_plain {t : FileTree F} {p : Path} {n : Node F} (hplain : ".." ∉ p) (h : stat t p = some n) :
    (∃ body, readFile t p = some body ∧ n = .file body) ∨ (isDir t p = true ∧ n = .dir) := by
  unfold stat at h
  cases hl : lookup t [] p with
  | none =>
    rw [hl] at h
    cases h
  | some q =>
    have hq : q = p := by rw [lookup_eq hl, foldl_up_of_plain hplain, List.nil_append]
    rw [hl, hq] at h
    cases hr : readFile t p with
    | some body =>
      simp only [hr] at h
      exact .inl ⟨body, rfl, (Option.some.inj h).symm⟩
    | none =>
      simp only [hr] at h
      split_ifs at h with hp
      exact .inr ⟨by simp [isDir, isFile, hp, hr], (Option.some.inj h).symm⟩

theorem stat_of_file {t : FileTree F} {p : Path} {body : F} (hplain : ".." ∉ p)
    (hdirs : ∀ l, l <+: p → l ≠ p → isDir t l = true) (h : readFile t p = some body) : stat t p = some (.file body) := by
  have hl : lookup t [] p = some p := lookup_of_dirs hplain hdirs
  simp only [stat, hl, h]

end Lib.Fs
