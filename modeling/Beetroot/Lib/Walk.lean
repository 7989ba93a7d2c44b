/-
A depth-first walk of a file tree: each entry, then what is below it in the order of the names. What `skip` names is left out
together with everything below it.

Results:
- `mem_listdir`, `nodup_listdir`: a directory lists each name in it once;
- `mem_walk`: the walk gives exactly the present paths that no skipped path leads to, each with what is there;
- `nodup_walk`: it gives each path once;
- `length_le_depth`: the number of levels that a walk needs;
- `Leafy.mkdirs`, `Leafy.write`: making directories and writing files keeps files free of entries below them.
-/
import Beetroot.Lib.Fs
import Mathlib.Data.List.Sort
import Mathlib.Data.List.Dedup
import Mathlib.Data.List.Flatten
import Mathlib.Order.MinMax

namespace Lib.Fs

variable {F : Type}

/-- the name under which the directory leads to the path -/
def childName (d q : Path) : Option String := if d <+: q then (q.drop d.length).head? else none

/-- `sorted(os.listdir(d))` -/
def listdir (t : FileTree F) (d : Path) : List String := (t.keys.filterMap (childName d)).dedup.insertionSort (· ≤ ·)

/-- a path without an entry of its own is a directory -/
def nodeAt (t : FileTree F) (p : Path) : Node F := (t.get? p).getD .dir

/-- the entries at and below a path, down to a number of levels -/
def walk (skip : Path → Bool) (t : FileTree F) : ℕ → Path → List (Path × Node F)
  | 0, _ => []
  | n + 1, p =>
    if skip p then []
    else (p, nodeAt t p) :: if isFile t p then [] else (listdir t p).flatMap fun x => walk skip t n (p ++ [x])

/-- the length of the longest path -/
def depth (t : FileTree F) : ℕ := (t.keys.map List.length).foldr max 0

/-- nothing lies below a file -/
def Leafy (t : FileTree F) : Prop := ∀ p q, isFile t p = true → p <+: q → present t q = true → q = p

theorem childName_eq_some {d q : Path} {x : String} : childName d q = some x ↔ d ++ [x] <+: q := by
  unfold childName
  constructor
  · intro h
    split_ifs at h with hd
    obtain ⟨r, rfl⟩ := hd
    rw [List.drop_left] at h
    cases r with
    | nil => cases h
    | cons y r =>
      cases h
      exact ⟨r, by simp⟩
  · rintro ⟨r, rfl⟩
    rw [if_pos ((List.prefix_append d [x]).trans (List.prefix_append _ r))]
    simp

theorem mem_listdir {t : FileTree F} {d : Path} {x : String} : x ∈ listdir t d ↔ present t (d ++ [x]) = true := by
  unfold listdir present
  rw [List.mem_insertionSort, List.mem_dedup, List.mem_filterMap, List.any_eq_true]
  simp only [childName_eq_some, decide_eq_true_eq]

theorem nodup_listdir (t : FileTree F) (d : Path) : (listdir t d).Nodup :=
  (List.perm_insertionSort _ _).nodup_iff.2 (List.nodup_dedup _)

theorem length_le_depth {t : FileTree F} {q : Path} (h : present t q = true) : q.length ≤ depth t := by
  obtain ⟨r, n, hqr, hn⟩ := present_iff.1 h
  have hmem : r.length ∈ t.keys.map List.length := List.mem_map_of_mem (Dict.get?_isSome.1 (by rw [hn]; rfl))
  have hle : ∀ l : List ℕ, r.length ∈ l → r.length ≤ l.foldr max 0 := by
    intro l
    induction l with
    | nil => intro hl; cases hl
    | cons a l ih =>
      intro hl
      rcases List.mem_cons.1 hl with h | h
      · exact le_max_of_le_left (le_of_eq h)
      · exact le_max_of_le_right (ih h)
  exact hqr.length_le.trans (hle _ hmem)

/-! ## Files without entries below them -/

theorem present_write {t : FileTree F} {p q : Path} {b : F} :
    present (writeFile t p b) q = true ↔ present t q = true ∨ q <+: p := by
  simp only [present_iff, get?_write]
  constructor
  · rintro ⟨r, n, hqr, hn⟩
    split_ifs at hn with h
    · exact Or.inr (h ▸ hqr)
    · exact Or.inl ⟨r, n, hqr, hn⟩
  · rintro (⟨r, n, hqr, hn⟩ | h)
    · by_cases hr : r = p
      · exact ⟨r, .file b, hqr, by rw [if_pos hr]⟩
      · exact ⟨r, n, hqr, by rw [if_neg hr]; exact hn⟩
    · exact ⟨p, .file b, h, by rw [if_pos rfl]⟩

theorem present_mkdirs_iff {t : FileTree F} {p q : Path} :
    present (mkdirs t p) q = true ↔ present t q = true ∨ q <+: p := by
  constructor
  · intro h
    obtain ⟨r, n, hqr, hn⟩ := present_iff.1 h
    rw [get?_mkdirs] at hn
    split_ifs at hn with hr
    · exact Or.inr (hqr.trans hr.1)
    · exact Or.inl (present_iff.2 ⟨r, n, hqr, hn⟩)
  · rintro (h | h)
    · obtain ⟨r, n, hqr, hn⟩ := present_iff.1 h
      exact present_iff.2 ⟨r, n, hqr, get?_mkdirs_of_some hn⟩
    · exact present_of_below h (present_mkdirs t p)

theorem isFile_mkdirs (t : FileTree F) (p q : Path) : isFile (mkdirs t p) q = isFile t q := by
  unfold isFile
  rw [readFile_mkdirs]

theorem isFile_write (t : FileTree F) (p q : Path) (b : F) :
    isFile (writeFile t p b) q = true ↔ q = p ∨ isFile t q = true := by
  unfold isFile
  rw [readFile_write]
  by_cases h : q = p <;> simp [h]

theorem not_fileInWay {t : FileTree F} {p q : Path} (h : fileInWay t p = false) (hq : q <+: p) : ¬ isFile t q = true := by
  intro hf
  unfold fileInWay at h
  rw [List.any_eq_false] at h
  exact h q ((List.mem_inits _ _).2 hq) hf

/-- the way to something that is present is free, up to that thing itself -/
theorem Leafy.way {t : FileTree F} (hs : Leafy t) {p q : Path} (hpq : p <+: q) (hne : p ≠ q) (h : present t q = true) :
    fileInWay t p = false := by
  unfold fileInWay
  rw [List.any_eq_false]
  intro r hr hf
  have hrp := (List.mem_inits _ _).1 hr
  have hqr := hs r q hf (hrp.trans hpq) h
  subst hqr
  exact hne (hpq.eq_of_length (le_antisymm hpq.length_le hrp.length_le))

/-- it is enough to look at the entries -/
theorem leafy_iff {t : FileTree F} : Leafy t ↔ ∀ q ∈ t.keys, ∀ p ∈ t.keys, isFile t p = true → p <+: q → q = p := by
  constructor
  · intro hs q hq p _ hf hpq
    obtain ⟨n, hn⟩ := Option.isSome_iff_exists.1 (Dict.get?_isSome.2 hq)
    exact hs p q hf hpq (present_of_get? hn)
  · intro h p q hf hpq hq
    obtain ⟨r, n, hqr, hn⟩ := present_iff.1 hq
    have hr : r ∈ t.keys := Dict.get?_isSome.1 (by rw [hn]; rfl)
    have hp : p ∈ t.keys := by
      rw [← Dict.get?_isSome]
      unfold isFile readFile at hf
      split at hf
      · rename_i b hb
        rw [hb]
        rfl
      · cases hf
    obtain rfl := h r hr p hp hf (hpq.trans hqr)
    exact (hpq.eq_of_length (le_antisymm hpq.length_le hqr.length_le)).symm

instance (t : FileTree F) : Decidable (Leafy t) := decidable_of_iff _ leafy_iff.symm

theorem Leafy.mkdirs {t : FileTree F} (hs : Leafy t) {p : Path} (hway : fileInWay t p = false) : Leafy (mkdirs t p) := by
  intro q r hf hqr hr
  rw [isFile_mkdirs] at hf
  rcases present_mkdirs_iff.1 hr with hr | hr
  · exact hs q r hf hqr hr
  · exact absurd hf (not_fileInWay hway (hqr.trans hr))

/-- a file is written where no directory is, into a directory -/
theorem Leafy.write {t : FileTree F} (hs : Leafy t) {d : Path} {x : String} (b : F) (hway : fileInWay t d = false)
    (hdir : isDir t (d ++ [x]) = false) : Leafy (writeFile t (d ++ [x]) b) := by
  intro q r hf hqr hr
  by_cases hq : q = d ++ [x]
  · subst hq
    rcases present_write.1 hr with hr | hr
    · -- what was at the path is a file, as something is below it
      have hp := present_of_below hqr hr
      have hfile : isFile t (d ++ [x]) = true := by simpa [isDir, hp] using hdir
      exact hs _ r hfile hqr hr
    · exact (hqr.eq_of_length (le_antisymm hqr.length_le hr.length_le)).symm
  · have hf' : isFile t q = true := ((isFile_write t _ q b).1 hf).resolve_left hq
    rcases present_write.1 hr with hr | hr
    · exact hs q r hf' hqr hr
    · rcases List.prefix_concat_iff.1 (hqr.trans hr) with h | h
      · exact absurd h hq
      · exact absurd hf' (not_fileInWay hway h)

section Walk

variable {skip : Path → Bool} {t : FileTree F}

theorem mem_walk (hs : Leafy t) {n : ℕ} {p : Path} (hp : present t p = true) {e : Path × Node F} :
    e ∈ walk skip t n p ↔ ∃ r, r.length < n ∧ e = (p ++ r, nodeAt t (p ++ r)) ∧ present t (p ++ r) = true ∧
      ∀ r', r' <+: r → skip (p ++ r') = false := by
  induction n generalizing p with
  | zero => simp [walk]
  | succ n ih =>
    rw [walk]
    by_cases hskip : skip p = true
    · rw [if_pos hskip]
      refine iff_of_false List.not_mem_nil ?_
      rintro ⟨r, -, -, -, hr⟩
      have := hr [] List.nil_prefix
      rw [List.append_nil, hskip] at this
      cases this
    · rw [if_neg hskip, List.mem_cons]
      constructor
      · rintro (rfl | he)
        · refine ⟨[], by simp, by simp, by simpa using hp, fun r' hr' => ?_⟩
          rw [List.prefix_nil.1 hr', List.append_nil]
          simpa using hskip
        · split_ifs at he
          · cases he
          · obtain ⟨x, hx, he⟩ := List.mem_flatMap.1 he
            obtain ⟨r, hlen, rfl, hpr, hr⟩ := (ih (mem_listdir.1 hx)).1 he
            refine ⟨x :: r, by simpa using hlen, by simp, by simpa using hpr, fun r' hr' => ?_⟩
            rcases List.prefix_cons_iff.1 hr' with rfl | ⟨r'', rfl, hr''⟩
            · rw [List.append_nil]
              simpa using hskip
            · simpa using hr r'' hr''
      · rintro ⟨r, hlen, rfl, hpr, hr⟩
        cases r with
        | nil => exact Or.inl (by simp)
        | cons x r =>
          right
          -- a directory: something is below it
          have hdir : ¬ isFile t p = true := by
            intro hf
            have := hs p (p ++ x :: r) hf (List.prefix_append _ _) hpr
            simp at this
          have hpre : p ++ [x] <+: p ++ x :: r := ⟨r, by simp⟩
          rw [if_neg hdir, List.mem_flatMap]
          have hx := present_of_below hpre hpr
          refine ⟨x, mem_listdir.2 hx, (ih hx).2 ⟨r, by simpa using hlen, by simp, by simpa using hpr, fun r' hr' => ?_⟩⟩
          have := hr (x :: r') (List.cons_prefix_cons.2 ⟨rfl, hr'⟩)
          simpa using this

/-- the paths of a walk are at or below the path it starts at -/
theorem prefix_of_mem_walk {n : ℕ} {p : Path} {e : Path × Node F} (h : e ∈ walk skip t n p) : p <+: e.1 := by
  induction n generalizing p with
  | zero => cases h
  | succ n ih =>
    rw [walk] at h
    split_ifs at h
    · cases h
    · rcases List.mem_cons.1 h with rfl | h
      · exact List.prefix_refl _
      · cases h
    · rcases List.mem_cons.1 h with rfl | h
      · exact List.prefix_refl _
      · obtain ⟨x, -, hx⟩ := List.mem_flatMap.1 h
        exact (List.prefix_append p [x]).trans (ih hx)

/-- walks of different entries of a directory have no path in common -/
theorem nodup_flatMap_walk (skip : Path → Bool) (t : FileTree F) {n : ℕ} {p : Path} {xs : List String} (hxs : xs.Nodup)
    (h : ∀ x ∈ xs, ((walk skip t n (p ++ [x])).map Prod.fst).Nodup) :
    ((xs.flatMap fun x => walk skip t n (p ++ [x])).map Prod.fst).Nodup := by
  rw [List.map_flatMap, List.nodup_flatMap]
  refine ⟨h, hxs.imp fun {x y} hne => ?_⟩
  refine List.disjoint_left.2 fun q hq hq' => ?_
  obtain ⟨e, he, rfl⟩ := List.mem_map.1 hq
  obtain ⟨e', he', heq⟩ := List.mem_map.1 hq'
  obtain ⟨r, hr⟩ := prefix_of_mem_walk he
  obtain ⟨r', hr'⟩ := prefix_of_mem_walk he'
  rw [heq, ← hr] at hr'
  simp only [List.append_assoc, List.append_cancel_left_eq, List.singleton_append, List.cons.injEq] at hr'
  exact hne hr'.1.symm

theorem nodup_walk (skip : Path → Bool) (t : FileTree F) (n : ℕ) (p : Path) : ((walk skip t n p).map Prod.fst).Nodup := by
  induction n generalizing p with
  | zero => exact List.nodup_nil
  | succ n ih =>
    rw [walk]
    split_ifs
    · exact List.nodup_nil
    · simp
    · rw [List.map_cons, List.nodup_cons]
      refine ⟨fun hmem => ?_, nodup_flatMap_walk skip t (nodup_listdir t p) fun x _ => ih (p ++ [x])⟩
      obtain ⟨e, he, heq⟩ := List.mem_map.1 hmem
      obtain ⟨x, -, hx⟩ := List.mem_flatMap.1 he
      have hlen := (prefix_of_mem_walk hx).length_le
      rw [heq, List.length_append] at hlen
      exact absurd hlen (Nat.not_succ_le_self _)

end Walk

end Lib.Fs
