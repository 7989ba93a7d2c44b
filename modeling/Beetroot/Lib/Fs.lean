/-
A file tree: paths are lists of components, and a tree maps the paths that exist to directories and files.

A path is `present` when an entry is at it or below it, so a directory need not have an entry of its own. `mkdirs` adds the
entries of what is not present.

Results: `readFile_write`, `readFile_mkdirP`, `readFile_rmtree` say what a reader finds after each operation, and
`get?_write`, `get?_mkdirs`, `get?_prune` what is at each path; `Overlaps` is the relation "one is the other or contains it".
-/
import Beetroot.Lib.Dict
import Mathlib.Data.List.Infix

namespace Lib.Fs

abbrev Path := List String

/-- one path is the other, or an ancestor of it -/
def Overlaps (p q : Path) : Prop := p <+: q ∨ q <+: p

instance (p q : Path) : Decidable (Overlaps p q) := inferInstanceAs (Decidable (_ ∨ _))

theorem Overlaps.symm {p q : Path} (h : Overlaps p q) : Overlaps q p := Or.comm.1 h

theorem overlaps_refl (p : Path) : Overlaps p p := Or.inl (List.prefix_refl p)

inductive Node (F : Type) where
  | dir
  | file (body : F)
deriving DecidableEq

abbrev FileTree (F : Type) := Dict Path (Node F)

variable {F : Type}

def existsAt (t : FileTree F) (p : Path) : Bool := p ∈ t.keys

/-- some entry lies strictly below the path -/
def occupied (t : FileTree F) (p : Path) : Bool := t.keys.any fun q => p <+: q ∧ q ≠ p

def readFile (t : FileTree F) (p : Path) : Option F :=
  match t.get? p with
  | some (.file body) => some body
  | _ => none

def writeFile (t : FileTree F) (p : Path) (body : F) : FileTree F := t.set p (.file body)

def mkdir (t : FileTree F) (p : Path) : FileTree F := if p ∈ t.keys then t else t.set p .dir

/-- `mkdir(parents=True, exist_ok=True)` -/
def mkdirP (t : FileTree F) (p : Path) : FileTree F := p.inits.foldl mkdir t

/-- remove the path and everything below it -/
def rmtree (t : FileTree F) (p : Path) : FileTree F := t.filter fun q _ => ¬ p <+: q

theorem readFile_eq_some {t : FileTree F} {p : Path} {body : F} : readFile t p = some body ↔ t.get? p = some (.file body) := by
  unfold readFile
  cases t.get? p with
  | none => simp
  | some n => cases n <;> simp

theorem readFile_write (t : FileTree F) (p q : Path) (body : F) :
    readFile (writeFile t p body) q = if q = p then some body else readFile t q := by
  unfold readFile writeFile
  rw [Dict.get?_set]
  split_ifs <;> rfl

theorem readFile_write_self (t : FileTree F) (p : Path) (body : F) : readFile (writeFile t p body) p = some body := by
  rw [readFile_write, if_pos rfl]

theorem readFile_write_ne {t : FileTree F} {p q : Path} {body : F} (h : q ≠ p) :
    readFile (writeFile t p body) q = readFile t q := by
  rw [readFile_write, if_neg h]

theorem readFile_mkdir (t : FileTree F) (p q : Path) : readFile (mkdir t p) q = readFile t q := by
  unfold readFile mkdir
  split_ifs with h
  · rfl
  · rw [Dict.get?_set]
    split_ifs with hq
    · subst hq; rw [Dict.get?_eq_none.2 h]
    · rfl

/-- making directories hides no file -/
theorem readFile_mkdirP (t : FileTree F) (p q : Path) : readFile (mkdirP t p) q = readFile t q := by
  unfold mkdirP
  generalize p.inits = l
  induction l generalizing t with
  | nil => rfl
  | cons r l ih => rw [List.foldl_cons, ih, readFile_mkdir]

theorem get?_mkdirP {t : FileTree F} {p q : Path} (h : ¬ q <+: p) : (mkdirP t p).get? q = t.get? q := by
  have hne : q ∉ p.inits := fun hq => h ((List.mem_inits q p).1 hq)
  unfold mkdirP
  generalize p.inits = l at hne
  induction l generalizing t with
  | nil => rfl
  | cons r l ih =>
    rw [List.mem_cons, not_or] at hne
    rw [List.foldl_cons, ih hne.2, mkdir]
    split_ifs
    · rfl
    · rw [Dict.get?_set, if_neg hne.1]

theorem readFile_rmtree (t : FileTree F) (p q : Path) :
    readFile (rmtree t p) q = if p <+: q then none else readFile t q := by
  unfold readFile rmtree
  rw [Dict.get?_filter t (fun q => ¬ p <+: q)]
  by_cases h : p <+: q <;> simp [h]

/-! ## Entries -/

/-- something is at the path or below it -/
def present (t : FileTree F) (p : Path) : Bool := t.keys.any fun q => p <+: q

def isFile (t : FileTree F) (p : Path) : Bool := (readFile t p).isSome

/-- a directory is at the path -/
def isDir (t : FileTree F) (p : Path) : Bool := present t p && !isFile t p

/-- a file is at the path or at an ancestor of it -/
def fileInWay (t : FileTree F) (p : Path) : Bool := p.inits.any fun q => isFile t q

/-- a read of the path, at which no file is, fails with another error than that nothing is there -/
def blocked (t : FileTree F) (p : Path) : Bool := fileInWay t p || isDir t p

/-- a file in the way is a file above the path -/
theorem fileInWay_congr {t u : FileTree F} {p : Path} (h : ∀ q, q <+: p → readFile t q = readFile u q) :
    fileInWay t p = fileInWay u p := by
  rw [Bool.eq_iff_iff, fileInWay, fileInWay, List.any_eq_true, List.any_eq_true]
  refine exists_congr fun q => and_congr_right fun hq => ?_
  rw [isFile, isFile, h q ((List.mem_inits q p).1 hq)]

/-- `mkdir(parents=True, exist_ok=True)`: the missing ancestors, and the path -/
def mkdirs (t : FileTree F) (p : Path) : FileTree F :=
  (p.inits.filter fun q => !present t q).foldl (fun t q => t.set q .dir) t

/-- a removal of the path that keeps some of its entries -/
def prune (t : FileTree F) (p : Path) (kept : Path → Bool) : FileTree F := t.filter fun q _ => !(p <+: q) || kept q

theorem present_iff {t : FileTree F} {p : Path} : present t p = true ↔ ∃ q n, p <+: q ∧ t.get? q = some n := by
  unfold present
  rw [List.any_eq_true]
  constructor
  · rintro ⟨q, hq, hpq⟩
    obtain ⟨n, hn⟩ := Option.isSome_iff_exists.1 (Dict.get?_isSome.2 hq)
    exact ⟨q, n, by simpa using hpq, hn⟩
  · rintro ⟨q, n, hpq, hn⟩
    exact ⟨q, Dict.get?_isSome.1 (by rw [hn]; rfl), by simpa using hpq⟩

theorem present_of_get? {t : FileTree F} {p : Path} {n : Node F} (h : t.get? p = some n) : present t p = true :=
  present_iff.2 ⟨p, n, List.prefix_refl p, h⟩

theorem present_of_isFile {t : FileTree F} {p : Path} (h : isFile t p = true) : present t p = true := by
  obtain ⟨body, hbody⟩ := Option.isSome_iff_exists.1 h
  unfold readFile at hbody
  cases hn : t.get? p with
  | none => rw [hn] at hbody; cases hbody
  | some n => exact present_of_get? hn

theorem get?_of_not_present {t : FileTree F} {p q : Path} (h : present t p = false) (hq : p <+: q) : t.get? q = none := by
  rw [Option.eq_none_iff_forall_ne_some]
  intro n hn
  rw [present_iff.2 ⟨q, n, hq, hn⟩] at h
  cases h

theorem present_congr {t u : FileTree F} {p : Path} (h : ∀ q, p <+: q → t.get? q = u.get? q) : present t p = present u p := by
  rw [Bool.eq_iff_iff, present_iff, present_iff]
  constructor
  · intro ⟨q, n, hq, hn⟩
    exact ⟨q, n, hq, by rw [← h q hq, hn]⟩
  · intro ⟨q, n, hq, hn⟩
    exact ⟨q, n, hq, by rw [h q hq, hn]⟩

/-- a read is blocked by the files above the path and by what is below it -/
theorem blocked_congr {t u : FileTree F} {p : Path} (hup : ∀ q, q <+: p → readFile t q = readFile u q)
    (hdown : ∀ q, p <+: q → t.get? q = u.get? q) : blocked t p = blocked u p := by
  have hfile : isFile t p = isFile u p := by rw [isFile, isFile, hup p (List.prefix_refl p)]
  unfold blocked isDir
  rw [fileInWay_congr hup, present_congr hdown, hfile]

/-- a path is present if something below it is -/
theorem present_of_below {t : FileTree F} {p q : Path} (hpq : p <+: q) (h : present t q = true) : present t p = true := by
  obtain ⟨r, n, hqr, hn⟩ := present_iff.1 h
  exact present_iff.2 ⟨r, n, hpq.trans hqr, hn⟩

theorem get?_write (t : FileTree F) (p q : Path) (body : F) :
    (writeFile t p body).get? q = if q = p then some (.file body) else t.get? q := Dict.get?_set t p q _

theorem get?_prune (t : FileTree F) (p : Path) (kept : Path → Bool) (q : Path) :
    (prune t p kept).get? q = if p <+: q ∧ kept q = false then none else t.get? q := by
  unfold prune
  rw [Dict.get?_filter t (fun q => !(p <+: q) || kept q)]
  by_cases h : p <+: q <;> cases hk : kept q <;> simp [h]

theorem get?_mkdirs (t : FileTree F) (p q : Path) :
    (mkdirs t p).get? q = if q <+: p ∧ present t q = false then some .dir else t.get? q := by
  have hfold : ∀ (l : List Path) (u : FileTree F),
      (l.foldl (fun t q => t.set q .dir) u).get? q = if q ∈ l then some .dir else u.get? q := by
    intro l
    induction l with
    | nil => intro u; rfl
    | cons r l ih =>
      intro u
      rw [List.foldl_cons, ih, Dict.get?_set]
      by_cases hl : q ∈ l <;> by_cases hr : q = r <;> simp [hl, hr]
  unfold mkdirs
  rw [hfold]
  simp [List.mem_filter, List.mem_inits]

/-- making directories leaves every entry, and adds only directories -/
theorem get?_mkdirs_of_some {t : FileTree F} {p q : Path} {n : Node F} (h : t.get? q = some n) :
    (mkdirs t p).get? q = some n := by
  rw [get?_mkdirs, if_neg, h]
  rintro ⟨-, hp⟩
  rw [present_of_get? h] at hp
  cases hp

theorem mkdirs_of_present {t : FileTree F} {p : Path} (h : present t p = true) : mkdirs t p = t := by
  have hnil : (p.inits.filter fun q => !present t q) = [] := by
    refine List.filter_eq_nil_iff.2 fun q hq => ?_
    rw [present_of_below ((List.mem_inits _ _).1 hq) h]
    simp
  unfold mkdirs
  rw [hnil]
  rfl

/-- below a directory that is present, only the path itself is made -/
theorem get?_mkdirs_child {t : FileTree F} {root q : Path} {x : String} (h : present t root = true)
    (hq : q ≠ root ++ [x]) : (mkdirs t (root ++ [x])).get? q = t.get? q := by
  rw [get?_mkdirs, if_neg]
  rintro ⟨hpre, hq'⟩
  rcases List.prefix_concat_iff.1 hpre with rfl | hpre
  · exact hq rfl
  · rw [present_of_below hpre h] at hq'
    cases hq'

theorem readFile_mkdirs (t : FileTree F) (p q : Path) : readFile (mkdirs t p) q = readFile t q := by
  cases h : t.get? q with
  | some n => simp only [readFile, get?_mkdirs_of_some h, h]
  | none =>
    simp only [readFile, get?_mkdirs, h]
    split_ifs <;> rfl

/-- the path of `mkdirs` is present afterwards -/
theorem present_mkdirs (t : FileTree F) (p : Path) : present (mkdirs t p) p = true := by
  cases h : present t p with
  | true =>
    obtain ⟨q, n, hpq, hn⟩ := present_iff.1 h
    exact present_iff.2 ⟨q, n, hpq, get?_mkdirs_of_some hn⟩
  | false =>
    refine present_of_get? (n := .dir) ?_
    rw [get?_mkdirs, if_pos ⟨List.prefix_refl p, h⟩]

end Lib.Fs
