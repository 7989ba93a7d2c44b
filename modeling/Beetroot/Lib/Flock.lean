/-
An advisory lock on a file that can be removed and made again while processes use it.

`flock` locks the inode that a process has opened, not the path. Processes that have opened the path before and after the file
was replaced hold locks on different inodes, and these do not exclude each other. A process is `Current` if the inode that it has
opened is the one at the path.

Results:
- `openFile_inv`, `grant_inv`, `release_inv`, `unlinkFile_inv`: two holders of one inode are both shared, always;
- `sole_of_current`: if every holder is current, an exclusive holder is the only holder.
-/
import Mathlib.Data.Fintype.Basic

namespace Lib.Flock

inductive Mode where
  | sh
  | ex
deriving DecidableEq

/-- the inode at the path, the next inode, and the inode and the lock of each process -/
structure Lock (ι : Type) where
  file : Option ℕ
  next : ℕ
  fd : ι → Option ℕ
  held : ι → Option Mode

variable {ι : Type}

structure Inv (l : Lock ι) : Prop where
  holds : ∀ i, (l.held i).isSome = true → (l.fd i).isSome = true
  apart : ∀ i j, i ≠ j → l.fd i = l.fd j → ∀ m m', l.held i = some m → l.held j = some m' → m = .sh ∧ m' = .sh

/-- the inode that the process has opened is the one at the path -/
def Current (l : Lock ι) (i : ι) : Prop := l.fd i = l.file

instance (l : Lock ι) (i : ι) : Decidable (Current l i) := inferInstanceAs (Decidable (_ = _))

section Held

variable {l : Lock ι} {i : ι}

theorem sole_of_current (h : Inv l) (hcur : ∀ j, (l.held j).isSome = true → Current l j) (hi : l.held i = some .ex) {j : ι}
    (hji : j ≠ i) : l.held j = none := by
  cases hj : l.held j with
  | none => rfl
  | some m =>
    have hfd : l.fd j = l.fd i := by
      rw [hcur j (by rw [hj]; rfl), hcur i (by rw [hi]; rfl)]
    have := (h.apart j i hji hfd m .ex hj hi).2
    cases this

end Held

/-- the file is removed; its inode stays with those who have opened it -/
def unlinkFile (l : Lock ι) : Lock ι := { l with file := none }

theorem unlinkFile_inv {l : Lock ι} (h : Inv l) : Inv (unlinkFile l) := ⟨h.holds, h.apart⟩

/-! ## What a process does -/

variable [DecidableEq ι]

/-- `open(path, "a+")`: a file that is not there is made, with a new inode -/
def openFile (l : Lock ι) (i : ι) : Lock ι :=
  { l with
    file := some (l.file.getD l.next)
    next := l.next + 1
    fd := Function.update l.fd i (some (l.file.getD l.next)) }

/-- nobody else holds the inode in a way that excludes the mode -/
def Grantable (l : Lock ι) (i : ι) (m : Mode) : Prop :=
  (l.fd i).isSome = true ∧ ∀ j, j ≠ i → l.fd j = l.fd i → l.held j = none ∨ (m = .sh ∧ l.held j = some .sh)

instance [Fintype ι] (l : Lock ι) (i : ι) (m : Mode) : Decidable (Grantable l i m) := by
  unfold Grantable; infer_instance

/-- `flock(fd, mode)`, once it is granted -/
def grant (l : Lock ι) (i : ι) (m : Mode) : Lock ι := { l with held := Function.update l.held i (some m) }

/-- the lock is given up and the file is closed -/
def release (l : Lock ι) (i : ι) : Lock ι :=
  { l with held := Function.update l.held i none, fd := Function.update l.fd i none }

section Rules

variable {l : Lock ι} {i : ι}

/-- a process that holds nothing opens the file -/
theorem openFile_inv (h : Inv l) (hi : l.held i = none) : Inv (openFile l i) := by
  have hne : ∀ j m, l.held j = some m → j ≠ i := by
    intro j m hj heq
    rw [heq, hi] at hj
    cases hj
  constructor
  · intro j hj
    obtain ⟨m, hm⟩ := Option.isSome_iff_exists.1 hj
    simp only [openFile, Function.update_of_ne (hne j m hm)]
    exact h.holds j hj
  · intro j k hjk hfd m m' hm hm'
    simp only [openFile, Function.update_of_ne (hne j m hm), Function.update_of_ne (hne k m' hm')] at hfd
    exact h.apart j k hjk hfd m m' hm hm'

theorem grant_inv {m : Mode} (h : Inv l) (hg : Grantable l i m) : Inv (grant l i m) := by
  -- a holder of the same inode beside the one that is granted
  have hpair : ∀ j m₁ m', j ≠ i → l.fd j = l.fd i → (grant l i m).held j = some m' → (grant l i m).held i = some m₁ →
      m₁ = .sh ∧ m' = .sh := by
    intro j m₁ m' hji hfd hj hi
    simp only [grant, Function.update_of_ne hji, Function.update_self] at hj hi
    cases hi
    rcases hg.2 j hji hfd with hn | ⟨hsh, hn⟩
    · rw [hn] at hj
      cases hj
    · rw [hn] at hj
      cases hj
      exact ⟨hsh, rfl⟩
  constructor
  · intro j hj
    by_cases hji : j = i
    · subst hji
      exact hg.1
    · simp only [grant, Function.update_of_ne hji] at hj
      exact h.holds j hj
  · intro j k hjk hfd m₁ m₂ hj hk
    by_cases hji : j = i
    · subst hji
      exact hpair k m₁ m₂ (Ne.symm hjk) hfd.symm hk hj
    · by_cases hki : k = i
      · subst hki
        exact (hpair j m₂ m₁ hji hfd hj hk).symm
      · simp only [grant, Function.update_of_ne hji, Function.update_of_ne hki] at hj hk
        exact h.apart j k hjk hfd m₁ m₂ hj hk

theorem release_inv (h : Inv l) : Inv (release l i) := by
  have hne : ∀ j m, (release l i).held j = some m → j ≠ i := by
    intro j m hj heq
    rw [heq] at hj
    simp [release] at hj
  constructor
  · intro j hj
    obtain ⟨m, hm⟩ := Option.isSome_iff_exists.1 hj
    have hji := hne j m hm
    simp only [release, Function.update_of_ne hji] at hj ⊢
    exact h.holds j hj
  · intro j k hjk hfd m m' hm hm'
    have hji := hne j m hm
    have hki := hne k m' hm'
    simp only [release, Function.update_of_ne hji, Function.update_of_ne hki] at hfd hm hm'
    exact h.apart j k hjk hfd m m' hm hm'

end Rules

end Lib.Flock
