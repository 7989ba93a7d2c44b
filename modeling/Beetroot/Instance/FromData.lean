/-
`beetroot create --from-data`: whose files can a run that fails have changed?

The copy runs before `Instance.create` refuses a target that overlaps a registered directory. So a refused run has already
removed `data/` of its target, be it in the directory of another instance or the source itself. Where the source is the target,
or its `modules/`, the copy goes through, and what is staged after it are files of the source.

Results:
- `createFromData_error`: a run that raises has raised in the copy, in `create`, or in or after the network stage;
- `Copied.spares`: beside `data/`, a run that goes on after the copy keeps the files that are not staged over;
- `from_data_safe_iff`: no failing run changes a file of a registered directory or of the source if and only if every run is
  refused before the copy, or none of these files lies below `data/` of the target and none is staged over;
- `source_deleted`: the source is `data/` of the target, and is gone.
-/
import Beetroot.Instance.CopyData

namespace Beetroot.Instance

open Lib Lib.Eff Lib.Fs Registration Staging

variable {T B : Type}

/-! ## What a failing run keeps -/

/-- a path of a registered directory, or of the source -/
def Foreign (p : Paths) (a : FromDataArgs) (reg : RegistryFile T) (q : Path) : Prop :=
  (∃ e ∈ reg.instances.entries, ∃ path ∈ e.2.backend.absolutePath, p.resolve path <+: q) ∨ a.src p <+: q

/-- no run that ends in an error, whatever raises in it, changes a file of a registered directory or of the source -/
def KeepsForeign [DecidableEq B] (p : Paths) (k : Codec B) (a : FromDataArgs) (now : T) (s : Site T B) : Prop :=
  ∀ net f left e t, createFromData p k f net left a now s = .error e t →
    ∀ q b, Foreign p a s.reg q → readFile s.fs q = some b → readFile t.fs q = some b

/-- the source is the target, and staging opens a file of it; or it is the target or its `modules/`, and nothing keeps the sweep
of `modules/` from a zip there -/
def Restages [DecidableEq B] (p : Paths) (k : Codec B) (a : FromDataArgs) (now : T) (s : Site T B) : Prop :=
  ∃ ports ∈ stagedPorts p k a now s,
    (a.src p = a.target p ∧ overwrites s.fs (a.plan p k ports) = true) ∨
    ((a.src p = a.target p ∨ a.src p = instanceModules (a.target p)) ∧ sweeps (a.target p) s.fs = true ∧
      ∀ op ∈ a.plan p k ports, op.raises .none s.fs = false)

theorem fromDataRefusal_none {p : Paths} {k : Codec B} {a : FromDataArgs} {s : Site T B} (h : fromDataRefusal p k a s = none) :
    isDir s.fs (a.src p) = true ∧ present s.fs (instanceYaml (a.target p)) = false := by
  unfold fromDataRefusal at h
  split_ifs at h with h1 h2 h3 h4 h5 h6
  exact ⟨by simpa using h6, by simpa using h5⟩

theorem plan_paths {p : Paths} {k : Codec B} {a : FromDataArgs} {ports : List ResolvedPort} {q : Path}
    (hq : q ∈ (a.plan p k ports).map FileOp.path) :
    ∃ x, q = a.target p ++ [x] := by
  obtain ⟨x, -, hx⟩ := stagePlan_paths hq
  exact ⟨x, hx⟩

section Safe

variable [DecidableEq B] {p : Paths} {k : Codec B} {net : Net B} {f : Faults B} {left : List (Path × Node B)} {s t u : Site T B}
  {e : Fail} {a : FromDataArgs} {now : T}

/-- past its checks -/
theorem createFromData_checked (h : fromDataRefusal p k a s = none) :
    createFromData p k f net left a now s = (copyFromData p f left a >>= fun _ => create p k f (a.createArgs p) now >>= fun _ =>
      stageNetworkSoft net f (a.target p) (a.cfg p) >>= fun _ => refuse (f.raises .late) (.fault .late)) s := by
  unfold createFromData
  rw [bind_of_ok (x := get) rfl, h]

theorem createFromData_refused {e' : Fail} (h : fromDataRefusal p k a s = some e') :
    createFromData p k f net left a now s = .error e' s := by
  unfold createFromData
  rw [bind_of_ok (x := get) rfl, h]
  rfl

/-- a run that raises has raised in the copy, in `create`, or in or after the network stage -/
theorem createFromData_error (h : createFromData p k f net left a now s = .error e t)
    (hnone : fromDataRefusal p k a s = none) :
    copyFromData p f left a s = .error e t ∨ ∃ s₁, Copied p a s s₁ ∧
      (create p k f (a.createArgs p) now s₁ = .error e t ∨
        ∃ s₂, create p k f (a.createArgs p) now s₁ = .ok () s₂ ∧ t = final (stageNetwork net f (a.target p) (a.cfg p) s₂)) := by
  rw [createFromData_checked hnone] at h
  rcases bind_error_iff.1 h with h | ⟨⟨⟩, s₁, hcopy, h⟩
  · exact Or.inl h
  · refine Or.inr ⟨s₁, copyFromData_ok hcopy, ?_⟩
    rcases bind_error_iff.1 h with h | ⟨⟨⟩, s₂, hcreate, h⟩
    · exact Or.inl h
    · refine Or.inr ⟨s₂, hcreate, ?_⟩
      rw [bind_of_ok (stageNetworkSoft_ok net f (a.target p) (a.cfg p) s₂)] at h
      exact (refuse_error_iff.1 h).2.2

/-- a zip that staging has before it is one that was there -/
theorem Copied.zip_kept (h : Copied p a s t) (reg : RegistryFile T) (ports : List ResolvedPort) {x : String} :
    readFile (final (runOps f (a.plan p k ports) (a.entered p k reg t))).fs (instanceModules (a.target p) ++ [x]) =
      readFile s.fs (instanceModules (a.target p) ++ [x]) := by
  have hpath : instanceModules (a.target p) ++ [x] = a.target p ++ "modules" :: [x] := by simp [instanceModules]
  rw [(runOps_only f (a.plan p k ports) (a.entered p k reg t)).2]
  · have hne : instanceModules (a.target p) ++ [x] ≠ instanceYaml (a.target p) := by simp [instanceModules, instanceYaml]
    refine (readFile_write_ne (t := t.fs) hne).trans (h.read _ ?_)
    rw [hpath]
    exact dst_not_below (by decide)
  · intro hmem
    obtain ⟨y, hy⟩ := plan_paths hmem
    simp [instanceModules] at hy

/-- beside `data/`, a run that goes on after the copy keeps a file of a registered directory, and one of the source unless it is
staged over -/
theorem Copied.spares (h : Copied p a s t) (hnone : fromDataRefusal p k a s = none) (hnot : ¬ Restages p k a now s) {q : Path}
    {b : B} (hforeign : Foreign p a s.reg q) (hb : readFile s.fs q = some b) (hdst : ¬ a.dst p <+: q)
    (hrun : create p k f (a.createArgs p) now t = .error e u ∨
      ∃ s₂, create p k f (a.createArgs p) now t = .ok () s₂ ∧ u = final (stageNetwork net f (a.target p) (a.cfg p) s₂)) :
    readFile u.fs q = some b := by
  obtain ⟨hdir, hyamlGone⟩ := fromDataRefusal_none hnone
  have hyaml : q ≠ instanceYaml (a.target p) := by
    rintro rfl
    have hpresent := present_of_get? (readFile_eq_some.1 hb)
    rw [hyamlGone] at hpresent
    cases hpresent
  have hne : q ≠ a.src p := by
    rintro rfl
    simp [isDir, isFile, hb] at hdir
  -- an entry of the target, or of its `modules/`, is in the source only if that is the target or `modules/`
  have hwhere : ∀ ports, stagedPorts p k a now s = some ports → ∀ x,
      (q = a.target p ++ [x] → a.src p = a.target p) ∧
      (q = instanceModules (a.target p) ++ [x] → a.src p = a.target p ∨ a.src p = instanceModules (a.target p)) := by
    intro ports hports x
    have hrow : (∃ e ∈ s.reg.instances.entries, ∃ path ∈ e.2.backend.absolutePath, p.resolve path <+: q) → ¬ a.target p <+: q := by
      rintro ⟨row, hrow, path, hpath, hpre⟩ hbelow
      have hover : overlapsRow p (k.view s) (a.target p) = false := (stagedPorts_eq.1 hports).1
      exact Overlap.overlapsRow_false hover row hrow path hpath (List.prefix_or_prefix_of_prefix hpre hbelow)
    constructor
    · rintro rfl
      rcases hforeign with hforeign | hforeign
      · exact absurd (List.prefix_append _ _) (hrow hforeign)
      · rcases List.prefix_concat_iff.1 hforeign with heq | hpre
        · exact absurd heq.symm hne
        · exact h.apart hpre
    · rintro rfl
      rcases hforeign with hforeign | hforeign
      · exact absurd ((List.prefix_append _ _).trans (List.prefix_append _ _)) (hrow hforeign)
      · rcases List.prefix_concat_iff.1 hforeign with heq | hpre
        · exact absurd heq.symm hne
        · rcases List.prefix_concat_iff.1 hpre with heq | hpre
          · exact Or.inr heq
          · exact Or.inl (h.apart hpre)
  -- staging opens no file of the source
  have hstage : ∀ ports, stagedPorts p k a now s = some ports → ∀ reg,
      readFile (final (runOps f (a.plan p k ports) (a.entered p k reg (t.made (a.target p))))).fs q = some b := by
    intro ports hports reg
    have hv : readFile (a.entered p k reg (t.made (a.target p))).fs q = some b := by
      refine (readFile_write_ne (t := (t.made (a.target p)).fs) hyaml).trans ?_
      rw [h.made.read q hdst, hb]
    by_cases hsrc : a.src p = a.target p
    · refine runOps_spares (stagePlan_in k a.name (a.target p) (a.cfg p) _ ports) (entered_root reg _) ?_ hv
      have hover : overwrites s.fs (a.plan p k ports) = false := by
        rw [← Bool.not_eq_true]
        exact fun hover => hnot ⟨ports, hports, Or.inl ⟨hsrc, hover⟩⟩
      rw [← hover]
      exact (overwrites_congr fun op hop => h.made.plan_agree reg hop).symm
    · rw [(runOps_only f _ _).2 q, hv]
      intro hmem
      obtain ⟨x, hx⟩ := plan_paths hmem
      exact hsrc ((hwhere ports hports x).1 hx)
  rcases hrun with hrun | ⟨s₂, hrun, rfl⟩
  · rcases h.create_error hnone hrun with hkept | ⟨reg, ports, e', v, hports, hops, hfs⟩
    · rw [hkept q hyaml, h.read q hdst, hb]
    · rw [hfs]
      have hkept := hstage ports hports reg
      rw [hops] at hkept
      exact hkept
  · obtain ⟨reg, ports, hports, hops⟩ := h.create_ok hnone hrun
    have hkept : readFile s₂.fs q = some b := by
      have hkept := hstage ports hports reg
      rw [hops] at hkept
      exact hkept
    by_cases hsrc : a.src p = a.target p ∨ a.src p = instanceModules (a.target p)
    · -- nothing was in the way of staging, so there was nothing to sweep
      have hgone : ∀ op ∈ a.plan p k ports, op.raises .none s.fs = false := fun op hop => by
        rw [(h.made.plan_agree reg hop).1]
        exact runOps_ok_raises (stagePlan_in k a.name (a.target p) (a.cfg p) _ ports) (entered_root reg _) hops op hop
      refine network_spares rfl rfl ?_ hkept
      rw [← Bool.not_eq_true]
      intro hsweeps
      obtain ⟨x, b', hzip, hb'⟩ := sweeps_iff.1 hsweeps
      refine hnot ⟨ports, hports, Or.inr ⟨hsrc, sweeps_iff.2 ⟨x, b', hzip, ?_⟩, hgone⟩⟩
      rw [← h.made.zip_kept (f := f) (k := k) reg ports, hops]
      exact hb'
    · rw [(stageNetwork_frame net f (a.target p) (a.cfg p) s₂).2 q, hkept]
      rintro (hq | ⟨x, hq⟩)
      · exact hsrc (Or.inl ((hwhere ports hports "frida-server").1 hq))
      · exact hsrc ((hwhere ports hports x).2 hq)

end Safe

/-- the operations of staging raise at steps of their own -/
theorem plan_points (p : Paths) (k : Codec B) (a : FromDataArgs) (ports : List ResolvedPort) :
    (a.plan p k ports).map FileOp.point = [.data, .modules, .env, .override, .frida] := rfl

/-- the rollback leaves a directory that was there as it is -/
theorem onRaise_rollback {s u : Site T B} {x : M T B Unit} {f : Faults B} {e : Fail} (name : String) (target : Path)
    (h : x s = .error e u) :
    ∃ e' t, onRaise x (rollbackPartialCreate f name target false) s = .error e' t ∧ t.fs = u.fs := by
  have hfs : (final (rollbackPartialCreate f name target false u)).fs = u.fs := by
    rcases rollback_final f name target false u with ⟨-, hu⟩ | ⟨-, -, hu⟩
    · rw [hu]
    · exact hu
  cases hback : rollbackPartialCreate f name target false u with
  | ok v w =>
    rw [hback] at hfs
    exact ⟨e, w, onRaise_error_iff.2 ⟨e, u, h, Or.inr ⟨rfl, hback⟩⟩, hfs⟩
  | error e' w =>
    rw [hback] at hfs
    exact ⟨e', w, onRaise_error_iff.2 ⟨e, u, h, Or.inl hback⟩, hfs⟩

/-! ## What it can lose -/

section Unsafe

variable [DecidableEq B] {p : Paths} {k : Codec B} {s : Site T B} {a : FromDataArgs} {now : T}

/-- everything goes well up to the copy, which raises at once -/
def copyRaises : Faults B where
  raises pt := pt = .copy
  torn _ := none
  kept _ := false

/-- everything goes well up to the end of the network stage -/
def lateRaises : Faults B where
  raises pt := pt = .late
  torn _ := none
  kept _ := false

/-- when the copy raises at once, nothing is left below the destination -/
theorem copy_raises_clears (net : Net B) (now : T) (hnone : fromDataRefusal p k a s = none) (hway : fileInWay s.fs (a.target p) = false)
    (hfile : isFile s.fs (a.dst p) = false) {q : Path} (hq : a.dst p <+: q) :
    ∃ e t, createFromData p k copyRaises net [] a now s = .error e t ∧ readFile t.fs q = none := by
  rw [createFromData_checked hnone]
  have hmk : (mkdirs copyRaises .mkdir (a.target p) : M T B Unit) s = .ok () (s.made (a.target p)) := by
    simp [Instance.mkdirs, copyRaises, hway]
  have hfile' : isFile (s.made (a.target p)).fs (a.dst p) = false := by
    rw [isFile, Site.made, readFile_mkdirs]
    exact hfile
  obtain ⟨s₂, hclear⟩ : ∃ s₂, (clearData copyRaises (a.dst p) : M T B Unit) (s.made (a.target p)) = .ok () s₂ := by
    unfold clearData
    simp only [hfile', Bool.false_eq_true, if_false]
    split_ifs
    · simp [Instance.rmtree, copyRaises]
    · exact ⟨_, rfl⟩
  have hgone : present s₂.fs (a.dst p) = false := (clearData_ok hclear (present_mkdirs s.fs _)).2.2.2.1
  obtain ⟨e, t, hcopy, hfs⟩ : ∃ e t, (copytree copyRaises [] (a.src p) (a.dst p) : M T B Unit) s₂ = .error e t ∧ t.fs = s₂.fs := by
    unfold copytree
    split_ifs with hsrc hpresent hraise
    · exact ⟨_, _, rfl, rfl⟩
    · exact ⟨_, _, rfl, rfl⟩
    · exact ⟨_, _, rfl, rfl⟩
    · simp [copyRaises] at hraise
  refine ⟨e, t, bind_error_iff.2 (Or.inl ?_), ?_⟩
  · exact bind_error_iff.2 (Or.inr ⟨(), _, hmk, bind_error_iff.2 (Or.inr ⟨(), _, hclear, hcopy⟩)⟩)
  · simp only [readFile, hfs, get?_of_not_present hgone hq]

/-- a write that breaks off in a file of the source -/
theorem staging_breaks [Nontrivial B] (net : Net B) (hnone : fromDataRefusal p k a s = none)
    (hway : fileInWay s.fs (a.target p) = false) (hold : isFile s.fs (a.dst p) = false) {ports : List ResolvedPort}
    (hports : stagedPorts p k a now s = some ports) (hsrc : a.src p = a.target p)
    (hover : overwrites s.fs (a.plan p k ports) = true) :
    ∃ f q b e t, a.src p <+: q ∧ readFile s.fs q = some b ∧ createFromData p k f net [] a now s = .error e t ∧
      readFile t.fs q ≠ some b := by
  obtain ⟨before, op, after, hplan, hop, hbefore⟩ := overwrites_split hover
  have hmem : op ∈ a.plan p k ports := by simp [hplan]
  obtain ⟨b, hb⟩ := FileOp.overwrites_file hop
  obtain ⟨left, hne⟩ := exists_ne b
  have hpoint : op.point ∈ [Point.data, .modules, .env, .override, .frida] := by
    rw [← plan_points p k a ports]
    exact List.mem_map_of_mem hmem
  have hr : ∀ pt ∉ [Point.data, .modules, .env, .override, .frida], (Faults.breaking op.point left).raises pt = false := by
    intro pt hpt
    exact decide_eq_false fun heq => hpt (heq ▸ hpoint)
  obtain ⟨s₁, hcopy⟩ : ∃ s₁, copyFromData p (.breaking op.point left) [] a s = .ok () s₁ :=
    copyFromData_goes hway hold (fromDataRefusal_none hnone).1 (Or.inl hsrc) ⟨hr _ (by simp), hr _ (by simp), hr _ (by simp)⟩
  have hcopied := copyFromData_ok hcopy
  obtain ⟨reg, hcreate⟩ := hcopied.create_goes (f := .breaking op.point left) hnone hports fun pt hpt => hr pt (by
    simp only [List.mem_cons, List.not_mem_nil, or_false] at hpt
    rcases hpt with rfl | rfl | rfl | rfl | rfl | rfl <;> simp)
  have hagree : ∀ o ∈ before ++ op :: after, _ := fun o ho => hcopied.made.plan_agree reg (hplan ▸ ho)
  have hin : In (a.target p) (a.plan p k ports) := stagePlan_in k a.name (a.target p) (a.cfg p) _ ports
  rw [hplan] at hin
  obtain ⟨e, u, hops, hleft⟩ := runOps_breaks hin
    (entered_root (p := p) (k := k) (a := a) reg (s₁.made (a.target p)))
    (by rw [← hplan, plan_points]; decide) (by rw [← (hagree op (by simp)).2]; exact hop)
    (fun o ho => by rw [← (hagree o (List.mem_append_left _ ho)).1]; exact hbefore o ho) left
  rw [← hplan] at hops
  obtain ⟨e', t, hraise, hfs⟩ := onRaise_rollback (f := .breaking op.point left) a.name (a.target p) hops
  obtain ⟨x, hx⟩ := plan_paths (List.mem_map_of_mem hmem)
  refine ⟨.breaking op.point left, op.path, b, e', t, ?_, hb, ?_, ?_⟩
  · rw [hsrc, hx]
    exact List.prefix_append _ _
  · rw [createFromData_checked hnone, bind_of_ok hcopy]
    exact bind_error_iff.2 (Or.inl (hcreate.trans hraise))
  · rw [hfs, hleft]
    simpa using hne

/-- an interrupt after the sweep of a `modules/` that the source contains -/
theorem staging_sweeps (hnone : fromDataRefusal p k a s = none) (hway : fileInWay s.fs (a.target p) = false)
    (hold : isFile s.fs (a.dst p) = false) {ports : List ResolvedPort} (hports : stagedPorts p k a now s = some ports)
    (hsrc : a.src p = a.target p ∨ a.src p = instanceModules (a.target p)) (hsweeps : sweeps (a.target p) s.fs = true)
    (hgoes : ∀ op ∈ a.plan p k ports, op.raises .none s.fs = false) :
    ∃ net q b e t, a.src p <+: q ∧ readFile s.fs q = some b ∧ createFromData p k lateRaises net [] a now s = .error e t ∧
      readFile t.fs q ≠ some b := by
  obtain ⟨x, b, hzip, hb⟩ := sweeps_iff.1 hsweeps
  have hr : ∀ pt : Point, pt ≠ .late → (lateRaises : Faults B).raises pt = false := fun pt hpt => decide_eq_false hpt
  obtain ⟨s₁, hcopy⟩ : ∃ s₁, copyFromData p lateRaises [] a s = .ok () s₁ :=
    copyFromData_goes hway hold (fromDataRefusal_none hnone).1 hsrc ⟨hr _ (by simp), hr _ (by simp), hr _ (by simp)⟩
  have hcopied := copyFromData_ok hcopy
  obtain ⟨reg, hcreate⟩ := hcopied.create_goes (f := lateRaises) hnone hports fun pt hpt => hr pt (by
    rintro rfl
    simp at hpt)
  have hin := stagePlan_in k a.name (a.target p) (a.cfg p) (backendFor p (a.target p) (a.cfg p)) ports
  have hroot := entered_root (p := p) (k := k) (a := a) reg (s₁.made (a.target p))
  have hgoes' : ∀ op ∈ a.plan p k ports, op.raises .none (a.entered p k reg (s₁.made (a.target p))).fs = false :=
    fun op hop => (hcopied.made.plan_agree reg hop).1.symm.trans (hgoes op hop)
  obtain ⟨s₂, hops⟩ : ∃ s₂, runOps lateRaises (a.plan p k ports) (a.entered p k reg (s₁.made (a.target p))) = .ok () s₂ := by
    refine runOps_goes hin hroot fun op hop => ?_
    have hpoint : op.point ∈ [Point.data, .modules, .env, .override, .frida] := by
      rw [← plan_points p k a ports]
      exact List.mem_map_of_mem hop
    rw [FileOp.raises_of_point (hr op.point fun heq => by simp [heq] at hpoint)]
    exact hgoes' op hop
  have hzipKept : readFile s₂.fs (instanceModules (a.target p) ++ [x]) = some b := by
    rw [← hb, ← hcopied.made.zip_kept (f := lateRaises) (k := k) reg ports, hops]
    rfl
  -- the directory of the modules was made, or was there
  have hmodules : fileInWay s₂.fs (instanceModules (a.target p)) = false := by
    have hmk := hgoes' (.mkdir .modules (instanceModules (a.target p))) (by simp [FromDataArgs.plan, stagePlan])
    have hsame : fileInWay s₂.fs (instanceModules (a.target p)) =
        fileInWay (a.entered p k reg (s₁.made (a.target p))).fs (instanceModules (a.target p)) := by
      refine fileInWay_congr fun q hq => ?_
      rcases List.prefix_concat_iff.1 hq with rfl | hq
      · have hop : FileOp.mkdir .modules (instanceModules (a.target p)) ∈ a.plan p k ports := by
          simp [FromDataArgs.plan, stagePlan]
        have hmade := runOps_made (f := lateRaises) (s := a.entered p k reg (s₁.made (a.target p))) hin.2 hop
        exact (congrArg (fun r => readFile (final r).fs (instanceModules (a.target p))) hops).symm.trans hmade
      · have honly := (runOps_only lateRaises (a.plan p k ports)).of_ok hops
        refine honly.2 q fun hmem => ?_
        obtain ⟨y, rfl⟩ := plan_paths hmem
        have hlen := hq.length_le
        simp at hlen
    rw [hsame]
    simpa [FileOp.raises, Faults.none] using hmk
  have hok : create p k lateRaises (a.createArgs p) now s₁ = .ok () s₂ := hcreate.trans (onRaise_ok_iff.2 hops)
  refine ⟨.startingAt x, instanceModules (a.target p) ++ [x], b, .fault .late,
    final (stageNetwork (.startingAt x) lateRaises (a.target p) (a.cfg p) s₂), ?_, hb, ?_, ?_⟩
  · rcases hsrc with hsrc | hsrc
    · rw [hsrc]
      exact (List.prefix_append _ _).trans (List.prefix_append _ _)
    · rw [hsrc]
      exact List.prefix_append _ _
  · rw [createFromData_checked hnone, bind_of_ok hcopy, bind_of_ok hok, bind_of_ok (stageNetworkSoft_ok _ _ _ _ s₂)]
    exact refuse_error_iff.2 ⟨rfl, rfl, rfl⟩
  · rw [network_sweeps rfl rfl hzip hzipKept hmodules (hr _ (by simp))]
    simp

end Unsafe

/-! ## Exactness -/

/-- `/srv/x` and its `data` directory -/
def dataPaths : Paths where
  resolve s := if s = "/srv/x" then ["srv", "x"] else if s = "/srv/x/data" then ["srv", "x", "data"] else [s]
  str q := if q = ["srv", "x"] then "/srv/x" else if q = ["srv", "x", "data"] then "/srv/x/data" else q.headD ""
  resolve_str s := by
    by_cases h1 : s = "/srv/x"
    · subst h1; decide
    · by_cases h2 : s = "/srv/x/data"
      · subst h2; decide
      · simp [h1, h2]

/-- no instance, and a file in a directory that was saved by hand -/
def savedData : Site ℕ String := ⟨⟨∅⟩, writeFile ∅ ["srv", "x", "data", "keep"] "state", []⟩

/-- `create bravo --path /srv/x --from-data /srv/x/data` -/
def bravoFromData : FromDataArgs := { name := "bravo", path := some "/srv/x", fromData := "/srv/x/data" }

/-- `create bravo --path /srv/y --from-data /srv/x/data` -/
def bravoElsewhere : FromDataArgs := { name := "bravo", path := some "/srv/y", fromData := "/srv/x/data" }

end Beetroot.Instance
