/-
What staging writes over.

Local staging makes two directories and writes three files of the instance directory. A file of these names that was there is
opened again, and a write that breaks off has left it with any bytes. The network stage of the default configuration adds that
the zips of `modules/` are swept. For a directory that holds files of somebody else, this says which of them staging can
change, and that it can also fail after it has changed them.

Results:
- `runOps_spares`: file operations that overwrite nothing leave every file with its bytes;
- `runOps_breaks`: of those that do, one can break off with other bytes in a file that was there;
- `network_spares`, `network_sweeps`: the same for the network stage of a configuration without frida and modules.
-/
import Beetroot.Instance.Modules

namespace Beetroot.Instance

open Lib Lib.Eff Lib.Fs

variable {T B : Type}

/-! ## One file operation -/

section Operation

variable [DecidableEq B]

/-- the step at which the operation may raise -/
def FileOp.point : FileOp B → Point
  | .mkdir pt _ | .write pt _ _ | .fill pt _ _ => pt

/-- the operation opens a file that is there -/
def FileOp.overwrites (fs : FileTree B) : FileOp B → Bool
  | .mkdir _ _ => false
  | .write _ p _ => isFile fs p
  | .fill _ p b => readFile fs p = some b

/-- one write breaks off with these bytes, and nothing else raises -/
def Faults.breaking (pt : Point) (left : B) : Faults B where
  raises q := q = pt
  torn _ := some left
  kept _ := false

variable {f : Faults B} {op : FileOp B} {fs fs' : FileTree B} {s t : Site T B}

theorem FileOp.raises_of_point (h : f.raises op.point = false) : op.raises f fs = op.raises .none fs := by
  cases op with
  | mkdir pt p => simp only [FileOp.point] at h; simp [FileOp.raises, Faults.none, h]
  | write pt p b => simp only [FileOp.point] at h; simp [FileOp.raises, Faults.none, h]
  | fill pt p b => simp only [FileOp.point] at h; simp [FileOp.raises, Faults.none, h]

/-- what raises by itself raises under any faults -/
theorem FileOp.raises_none (h : op.raises f fs = false) : op.raises .none fs = false := by
  cases op with
  | mkdir pt p => simp_all [FileOp.raises, Faults.none]
  | write pt p b => simp_all [FileOp.raises, Faults.none]
  | fill pt p b => simp [FileOp.raises, Faults.none]

theorem FileOp.run_of_not_raises (h : op.raises f s.fs = false) : ∃ t, op.run f s = .ok () t := by
  cases hrun : op.run f s with
  | ok u t => exact ⟨t, rfl⟩
  | error e t =>
    rw [(FileOp.run_error hrun).1] at h
    cases h

/-- a file that the operation does not open keeps its bytes -/
theorem FileOp.run_spares (hover : op.overwrites s.fs = false) {q : Path} {b : B} (hb : readFile s.fs q = some b) :
    readFile (final (op.run f s)).fs q = some b := by
  have hother : q ≠ op.path → readFile (final (op.run f s)).fs q = some b :=
    fun hq => ((FileOp.run_only f op s).2 q hq).trans hb
  by_cases hq : q = op.path
  · subst hq
    cases op with
    | mkdir pt p => exact ((@mkdirs_only T B (fun _ => False) f pt p s).2 p id).trans hb
    | write pt p b' =>
      simp only [FileOp.path] at hb
      simp [FileOp.overwrites, isFile, hb] at hover
    | fill pt p b' =>
      -- other bytes are there, so the operation is skipped
      simp only [FileOp.path] at hb
      have hne : b ≠ b' := by simpa [FileOp.overwrites, hb] using hover
      have hskip : (FileOp.fill pt p b').skipped s.fs = true := by simp [FileOp.skipped, hb, hne]
      simp only [FileOp.run, hskip, if_true]
      exact hb
  · exact hother hq

/-- up to the path the same files, and below it the same entries -/
def AgreeAt (p : Path) (fs fs' : FileTree B) : Prop :=
  (∀ q, q <+: p → readFile fs q = readFile fs' q) ∧ ∀ q, p <+: q → fs.get? q = fs'.get? q

/-- an operation looks at its own path -/
theorem FileOp.agree (h : AgreeAt op.path fs fs') :
    op.raises f fs = op.raises f fs' ∧ op.overwrites fs = op.overwrites fs' := by
  obtain ⟨hup, hdown⟩ := h
  have hread := hup op.path (List.prefix_refl _)
  have hfile : isFile fs op.path = isFile fs' op.path := by rw [isFile, isFile, hread]
  have hdir : isDir fs op.path = isDir fs' op.path := by rw [isDir, isDir, present_congr hdown, hfile]
  have hway := fileInWay_congr hup
  cases op <;> simp only [FileOp.path] at hread hfile hdir hway <;>
    simp only [FileOp.raises, FileOp.skipped, FileOp.overwrites, hread, hfile, hdir, hway, and_self]

/-- an operation on one entry of a directory is out of sight of those on the others -/
theorem FileOp.run_agree {root : Path} {x y : String} (hroot : present s.fs root = true) (hpath : op.path = root ++ [y])
    (hne : x ≠ y) {u : Unit} (h : op.run f s = .ok u t) : AgreeAt (root ++ [x]) s.fs t.fs := by
  obtain ⟨-, -, hkeep, -⟩ := FileOp.run_ok hroot hpath h
  have hq : ∀ q, q <+: root ++ [x] ∨ root ++ [x] <+: q → q ≠ op.path := by
    rintro q hpre rfl
    rw [hpath] at hpre
    have heq : root ++ [y] = root ++ [x] := by
      rcases hpre with hpre | hpre
      · exact hpre.eq_of_length (by simp)
      · exact (hpre.eq_of_length (by simp)).symm
    exact hne (by simpa using heq.symm)
  refine ⟨fun q hpre => ?_, fun q hpre => (hkeep q (hq q (Or.inr hpre))).symm⟩
  unfold readFile
  rw [hkeep q (hq q (Or.inl hpre))]

end Operation

/-! ## A list of them -/

section Operations

variable [DecidableEq B]

/-- some operation opens a file that is there, and none before it must raise -/
def overwrites (fs : FileTree B) : List (FileOp B) → Bool
  | [] => false
  | op :: ops => op.overwrites fs || (!op.raises .none fs && overwrites fs ops)

variable {f : Faults B} {fs fs' : FileTree B} {ops : List (FileOp B)} {s : Site T B} {root : Path}

theorem overwrites_congr
    (h : ∀ op ∈ ops, op.raises .none fs = op.raises .none fs' ∧ op.overwrites fs = op.overwrites fs') :
    overwrites fs ops = overwrites fs' ops := by
  induction ops with
  | nil => rfl
  | cons op ops ih =>
    obtain ⟨hr, ho⟩ := h op List.mem_cons_self
    rw [overwrites, overwrites, hr, ho, ih fun o hmem => h o (List.mem_cons_of_mem _ hmem)]

/-- an operation that goes through shows the later ones what was there before -/
theorem In.agree {op : FileOp B} {t : Site T B} {u : Unit} (hin : In root (op :: ops)) (hroot : present s.fs root = true)
    (h : op.run f s = .ok u t) {o : FileOp B} (ho : o ∈ ops) : AgreeAt o.path s.fs t.fs := by
  obtain ⟨y, hy⟩ := hin.1 op List.mem_cons_self
  obtain ⟨x, hx⟩ := hin.1 o (List.mem_cons_of_mem _ ho)
  rw [hx]
  refine FileOp.run_agree hroot hy (fun hxy => ?_) h
  refine (List.nodup_cons.1 hin.2).1 (List.mem_map.2 ⟨o, ho, ?_⟩)
  rw [hx, hy, hxy]

theorem runOps_spares (hin : In root ops) (hroot : present s.fs root = true) (hover : overwrites s.fs ops = false) {q : Path}
    {b : B} (hb : readFile s.fs q = some b) : readFile (final (runOps f ops s)).fs q = some b := by
  induction ops generalizing s with
  | nil => exact hb
  | cons op ops ih =>
    obtain ⟨hop, hrest⟩ := Bool.or_eq_false_iff.1 hover
    have hkept : readFile (final (op.run f s)).fs q = some b := FileOp.run_spares hop hb
    have hrun : runOps f (op :: ops) s = (op.run f >>= fun _ => runOps f ops) s := rfl
    rw [hrun]
    cases hone : op.run f s with
    | error e t =>
      rw [hone] at hkept
      rw [final_bind_error hone]
      exact hkept
    | ok u t =>
      rw [hone] at hkept
      rw [final_bind_ok hone]
      obtain ⟨x, hx⟩ := hin.1 op List.mem_cons_self
      have hr : op.raises .none s.fs = false := FileOp.raises_none (FileOp.run_ok hroot hx hone).1
      rw [hr, Bool.not_false, Bool.true_and] at hrest
      refine ih hin.tail ((FileOp.run_frame f hx).of_ok hone hroot).2.1 ?_ hkept
      rw [← hrest]
      exact (overwrites_congr fun o ho => FileOp.agree (hin.agree hroot hone ho)).symm

/-- operations of which none raises go through -/
theorem runOps_goes (hin : In root ops) (hroot : present s.fs root = true) (h : ∀ op ∈ ops, op.raises f s.fs = false) :
    ∃ t, runOps f ops s = .ok () t := by
  induction ops generalizing s with
  | nil => exact ⟨s, rfl⟩
  | cons op ops ih =>
    obtain ⟨t, hone⟩ := FileOp.run_of_not_raises (h op List.mem_cons_self)
    obtain ⟨x, hx⟩ := hin.1 op List.mem_cons_self
    obtain ⟨u, hrest⟩ := ih (s := t) hin.tail ((FileOp.run_frame f hx).of_ok hone hroot).2.1 fun o ho => by
      rw [← (FileOp.agree (hin.agree hroot hone ho)).1]
      exact h o (List.mem_cons_of_mem _ ho)
    exact ⟨u, bind_ok_iff.2 ⟨(), t, hone, hrest⟩⟩

theorem FileOp.overwrites_file {op : FileOp B} (h : op.overwrites fs = true) : ∃ b, readFile fs op.path = some b := by
  cases op with
  | mkdir pt p => cases h
  | write pt p body => exact Option.isSome_iff_exists.1 h
  | fill pt p body =>
    have hb : readFile fs p = some body := by simpa [FileOp.overwrites] using h
    exact ⟨body, hb⟩

/-- the write that opens a file breaks off -/
theorem FileOp.run_breaks {op : FileOp B} (h : op.overwrites s.fs = true) (left : B) :
    op.run (.breaking op.point left) s = .error (.fault op.point) (s.wrote op.path left) := by
  obtain ⟨b, hb⟩ := FileOp.overwrites_file h
  cases op with
  | mkdir pt p => cases h
  | write pt p body =>
    simp only [FileOp.path] at hb
    simp [FileOp.run, FileOp.point, FileOp.path, writeText, Faults.breaking, isDir, isFile, hb]
  | fill pt p body =>
    have hb : readFile s.fs p = some body := by simpa [FileOp.overwrites] using h
    simp [FileOp.run, FileOp.point, FileOp.path, FileOp.skipped, writeText, Faults.breaking, isDir, isFile, hb]

/-- operations that went through would go through by themselves -/
theorem runOps_ok_raises {u : Unit} (hin : In root ops) (hroot : present s.fs root = true) {t : Site T B}
    (h : runOps f ops s = .ok u t) : ∀ op ∈ ops, op.raises .none s.fs = false := by
  induction ops generalizing s with
  | nil => exact fun op hop => absurd hop List.not_mem_nil
  | cons op ops ih =>
    obtain ⟨⟨⟩, s₁, hone, hrest⟩ := bind_ok_iff.1 h
    obtain ⟨x, hx⟩ := hin.1 op List.mem_cons_self
    intro o ho
    rcases List.mem_cons.1 ho with rfl | ho
    · exact FileOp.raises_none (FileOp.run_ok hroot hx hone).1
    · rw [(FileOp.agree (hin.agree hroot hone ho)).1]
      exact ih hin.tail ((FileOp.run_frame f hx).of_ok hone hroot).2.1 hrest o ho

/-- where a directory is made, no file is written -/
theorem runOps_made (hnodup : (ops.map FileOp.path).Nodup) {pt : Point} {q : Path} (hop : .mkdir pt q ∈ ops) :
    readFile (final (runOps f ops s)).fs q = readFile s.fs q := by
  induction ops generalizing s with
  | nil => cases hop
  | cons op ops ih =>
    obtain ⟨hnot, hnodup'⟩ := List.nodup_cons.1 hnodup
    have hrun : runOps f (op :: ops) s = (op.run f >>= fun _ => runOps f ops) s := rfl
    have hfirst : readFile (final (op.run f s)).fs q = readFile s.fs q := by
      rcases List.mem_cons.1 hop with rfl | hop
      · exact (@mkdirs_only T B (fun _ => False) f pt q s).2 q id
      · exact (FileOp.run_only f op s).2 q fun heq => hnot (heq ▸ List.mem_map_of_mem hop)
    rw [hrun]
    cases hone : op.run f s with
    | error e t =>
      rw [final_bind_error hone, ← hfirst, hone]
      rfl
    | ok u t =>
      rw [final_bind_ok hone, ← hfirst, hone]
      rcases List.mem_cons.1 hop with rfl | hop
      · exact (runOps_only f ops t).2 q hnot
      · exact ih hnodup' hop

theorem overwrites_split (h : overwrites fs ops = true) : ∃ before op after, ops = before ++ op :: after ∧
    op.overwrites fs = true ∧ ∀ o ∈ before, o.raises .none fs = false := by
  induction ops with
  | nil => cases h
  | cons op ops ih =>
    cases hop : op.overwrites fs with
    | true => exact ⟨[], op, ops, rfl, hop, fun o ho => absurd ho List.not_mem_nil⟩
    | false =>
      simp only [overwrites, hop, Bool.false_or, Bool.and_eq_true, Bool.not_eq_true'] at h
      obtain ⟨before, o, after, rfl, ho, hbefore⟩ := ih h.2
      exact ⟨op :: before, o, after, rfl, ho, List.forall_mem_cons.2 ⟨h.1, hbefore⟩⟩

/-- after operations that go through, the write that opens a file breaks off -/
theorem runOps_breaks {before after : List (FileOp B)} {op : FileOp B} (hin : In root (before ++ op :: after))
    (hroot : present s.fs root = true) (hpoints : ((before ++ op :: after).map FileOp.point).Nodup)
    (hop : op.overwrites s.fs = true) (hbefore : ∀ o ∈ before, o.raises .none s.fs = false) (left : B) :
    ∃ e t, runOps (.breaking op.point left) (before ++ op :: after) s = .error e t ∧ readFile t.fs op.path = some left := by
  induction before generalizing s with
  | nil =>
    refine ⟨_, _, bind_error_iff.2 (Or.inl (FileOp.run_breaks hop left)), ?_⟩
    rw [Site.wrote, readFile_write_self]
  | cons o before ih =>
    obtain ⟨hr, hrest⟩ := List.forall_mem_cons.1 hbefore
    obtain ⟨hnot, hpoints'⟩ := List.nodup_cons.1 hpoints
    obtain ⟨x, hx⟩ := hin.1 o List.mem_cons_self
    have hpoint : (Faults.breaking op.point left).raises o.point = false := by
      refine decide_eq_false fun heq => hnot ?_
      rw [heq]
      exact List.mem_map_of_mem (List.mem_append_right _ List.mem_cons_self)
    obtain ⟨t, hone⟩ : ∃ t, o.run (.breaking op.point left) s = .ok () t :=
      FileOp.run_of_not_raises (by rw [FileOp.raises_of_point hpoint]; exact hr)
    have hagree : ∀ o' ∈ before ++ op :: after, AgreeAt o'.path s.fs t.fs := fun o' ho' => hin.agree hroot hone ho'
    have hroot' := ((FileOp.run_frame (.breaking op.point left) hx).of_ok hone hroot).2.1
    obtain ⟨e, u, hbroken, hleft⟩ := ih hin.tail hroot' hpoints'
      (by rw [← (FileOp.agree (f := .none) (hagree op (by simp))).2]; exact hop)
      (fun o' ho' => by
        rw [← (FileOp.agree (hagree o' (List.mem_append_left _ ho'))).1]
        exact hrest o' ho')
    exact ⟨e, u, bind_error_iff.2 (Or.inr ⟨(), t, hone, hbroken⟩), hleft⟩

end Operations

/-! ## The sweep -/

/-- there is a zip for the sweep of `modules/` -/
def sweeps (root : Path) (fs : FileTree B) : Bool :=
  (listdir fs (instanceModules root)).any fun x => isZip x && isFile fs (instanceModules root ++ [x])

section Sweep

variable {net : Net B} {f : Faults B} {root : Path} {cfg : InstanceConfig} {s : Site T B}

theorem sweeps_iff {fs : FileTree B} : sweeps root fs = true ↔
    ∃ x b, isZip x = true ∧ readFile fs (instanceModules root ++ [x]) = some b := by
  unfold sweeps
  rw [List.any_eq_true]
  constructor
  · rintro ⟨x, -, hx⟩
    obtain ⟨hzip, hfile⟩ := Bool.and_eq_true_iff.1 hx
    obtain ⟨b, hb⟩ := Option.isSome_iff_exists.1 hfile
    exact ⟨x, b, hzip, hb⟩
  · rintro ⟨x, b, hzip, hb⟩
    refine ⟨x, mem_listdir.2 (present_of_get? (readFile_eq_some.1 hb)), ?_⟩
    simp [hzip, isFile, hb]

/-- without frida the network stage is that of the modules -/
theorem stageNetwork_unfrida (hfrida : cfg.frida = false) :
    final (stageNetwork net f root cfg s) = final (modulesStageForInstance net f root cfg s) := by
  have hrun : stageNetwork net f root cfg s = (stageFrida net f root cfg >>= fun _ =>
      modulesStageForInstance net f root cfg >>= fun _ => (pure () : M T B Unit)) s := rfl
  have hnone : (stageFrida net f root cfg : M T B Unit) s = .ok () s := by simp [stageFrida, hfrida]; rfl
  rw [hrun, final_bind_ok hnone, final_bind_pure]

theorem network_spares (hfrida : cfg.frida = false) (hmodules : cfg.modules = []) (h : sweeps root s.fs = false) {q : Path} {b : B}
    (hb : readFile s.fs q = some b) : readFile (final (stageNetwork net f root cfg s)).fs q = some b := by
  rw [stageNetwork_unfrida hfrida]
  by_cases hq : ∃ x, q = instanceModules root ++ [x]
  · obtain ⟨x, rfl⟩ := hq
    have hnot : x ∉ globZips net root (Fs.mkdirs s.fs (instanceModules root)) := by
      intro hmem
      have hzip : isZip x = true := (List.mem_filter.1 ((net.scan_perm _).mem_iff.1 hmem)).2
      rw [sweeps_iff.2 ⟨x, b, hzip, hb⟩] at h
      cases h
    rw [readFile_modulesStage net root s rfl, hmodules]
    split_ifs with h1 h2 h3
    · exact hb
    · exact hb
    · exact absurd ((List.takeWhile_prefix _).subset h3) hnot
    · exact hb
  · rw [(modulesStage_only net f root cfg s).2 q hq]
    exact hb

/-- a directory that is listed with one of its names first -/
def Net.startingAt (x : String) : Net B where
  frida := none
  fetch _ _ := none
  urlPrefix _ := ""
  sha256Of _ := ""
  within root _ := root
  scan l := if x ∈ l then x :: l.erase x else l
  scan_perm l := by
    split_ifs with h
    · exact (List.perm_cons_erase h).symm
    · exact List.Perm.refl l

theorem network_sweeps (hfrida : cfg.frida = false) (hmodules : cfg.modules = []) {x : String} {b : B} (hx : isZip x = true)
    (hb : readFile s.fs (instanceModules root ++ [x]) = some b) (hway : fileInWay s.fs (instanceModules root) = false)
    (hr : f.raises .zips = false) :
    readFile (final (stageNetwork (.startingAt x) f root cfg s)).fs (instanceModules root ++ [x]) = none := by
  have hb' : readFile (Fs.mkdirs s.fs (instanceModules root)) (instanceModules root ++ [x]) = some b :=
    (readFile_mkdirs _ _ _).trans hb
  have hmem := mem_globZips (.startingAt x) root hx hb'
  have hfirst : x ∈ (globZips (.startingAt x) root (Fs.mkdirs s.fs (instanceModules root))).takeWhile
      fun y => isFile (Fs.mkdirs s.fs (instanceModules root)) (instanceModules root ++ [y]) := by
    have hlisted := ((Net.startingAt (B := B) x).scan_perm _).mem_iff.1 hmem
    have hglob : globZips (.startingAt x) root (Fs.mkdirs s.fs (instanceModules root)) =
        x :: ((listdir (Fs.mkdirs s.fs (instanceModules root)) (instanceModules root)).filter isZip).erase x := if_pos hlisted
    rw [hglob, List.takeWhile_cons, if_pos (by rw [isFile, hb']; rfl)]
    exact List.mem_cons_self
  rw [stageNetwork_unfrida hfrida, readFile_modulesStage _ root s rfl, hmodules]
  rw [if_neg (by simp [hr, hway])]
  split_ifs with h1
  · rfl
  · rfl

end Sweep

end Beetroot.Instance
