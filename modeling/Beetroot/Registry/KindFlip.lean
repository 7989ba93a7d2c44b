/-
What does a sequence of `reconcile_backend_kind` calls keep of the registry?

A call reads the file, rebuilds the named row's backend if its kind does not fit the binder, and writes the file. The two
directory-backed configs have the directory in common, and `stealth_paths` is a slot of redroid rows only: a vm row has no place
for it, and a row that comes back from vm has none.

Results:
- `holds_run`: after every sequence of calls the file reads as the registry with the flips of each row, one after another;
- `flips_kept`, `flips_back`: what the flips of one row keep, and what the row is when it is of its first kind again;
- `run_keeps`: the same for the whole file, and a repeated call does nothing;
- `layout_lost`: a row with a path layout that goes to vm and back.
-/
import Beetroot.Registry.RoundTrip
import Beetroot.Registry.Sections

namespace Beetroot.KindFlip

open Lib

variable {T : Type}

/-! ## One row -/

/-- what a call makes of the row it names -/
def flip (m : InstanceMeta T) (binder : Binder) : InstanceMeta T :=
  match m.backend with
  | .redroid p _ => if binder = .vm then { m with backend := .vm p } else m
  | .vm p => if binder = .vm then m else { m with backend := .redroid p ∅ }
  | _ => m

/-- the row without its path layout -/
def cleared (m : InstanceMeta T) : InstanceMeta T :=
  match m.backend with
  | .redroid p _ => { m with backend := .redroid p ∅ }
  | _ => m

def flips (m : InstanceMeta T) (binders : List Binder) : InstanceMeta T := binders.foldl flip m

section Row

variable {m : InstanceMeta T} {binder : Binder} {binders : List Binder} {p : String} {sp : Dict String String}

theorem flips_cons (m : InstanceMeta T) (binder : Binder) (binders : List Binder) :
    flips m (binder :: binders) = flips (flip m binder) binders := rfl

/-- a step keeps the index, the time and the directory -/
theorem flip_kept (m : InstanceMeta T) (binder : Binder) : (flip m binder).index = m.index ∧
    (flip m binder).createdAt = m.createdAt ∧ (flip m binder).backend.absolutePath = m.backend.absolutePath := by
  unfold flip
  cases hb : m.backend with
  | redroid p sp => split_ifs <;> simp [hb, BackendConfig.absolutePath]
  | adb serial => simp [hb]
  | vm p => split_ifs <;> simp [hb, BackendConfig.absolutePath]
  | unresolved raw => simp [hb]

theorem flips_kept (m : InstanceMeta T) (binders : List Binder) : (flips m binders).index = m.index ∧
    (flips m binders).createdAt = m.createdAt ∧ (flips m binders).backend.absolutePath = m.backend.absolutePath := by
  induction binders generalizing m with
  | nil => exact ⟨rfl, rfl, rfl⟩
  | cons binder binders ih =>
    obtain ⟨hindex, htime, hpath⟩ := flip_kept m binder
    obtain ⟨hindexes, htimes, hpaths⟩ := ih (flip m binder)
    rw [flips_cons]
    exact ⟨hindexes.trans hindex, htimes.trans htime, hpaths.trans hpath⟩

/-- a row without a directory is left alone -/
theorem flip_opaque (h : m.backend.absolutePath = none) : flip m binder = m := by
  unfold flip
  cases hb : m.backend with
  | redroid p sp => simp [hb, BackendConfig.absolutePath] at h
  | adb serial => rfl
  | vm p => simp [hb, BackendConfig.absolutePath] at h
  | unresolved raw => rfl

theorem flips_opaque (h : m.backend.absolutePath = none) : flips m binders = m := by
  induction binders with
  | nil => rfl
  | cons binder binders ih => rw [flips_cons, flip_opaque h, ih]

/-- a row of a directory without a path layout -/
def Bare (p : String) (m : InstanceMeta T) : Prop := m.backend = .vm p ∨ m.backend = .redroid p ∅

theorem bare_flip (h : Bare p m) : Bare p (flip m binder) := by
  unfold flip
  rcases h with h | h
  · rw [h]
    simp only
    split_ifs
    · exact Or.inl h
    · exact Or.inr rfl
  · rw [h]
    simp only
    split_ifs
    · exact Or.inl rfl
    · exact Or.inr h

theorem bare_flips (h : Bare p m) : Bare p (flips m binders) := by
  induction binders generalizing m with
  | nil => exact h
  | cons binder binders ih => exact ih (bare_flip h)

/-- from the first call with binder vm on a redroid row has no layout -/
theorem bare_of_vm (hb : m.backend = .redroid p sp) (h : .vm ∈ binders) : Bare p (flips m binders) := by
  induction binders with
  | nil => exact absurd h List.not_mem_nil
  | cons binder binders ih =>
    rw [flips_cons]
    by_cases hvm : binder = .vm
    · have hflip : Bare p (flip m binder) := Or.inl (by simp [flip, hb, hvm])
      exact bare_flips hflip
    · have hsame : flip m binder = m := by simp [flip, hb, hvm]
      rw [hsame]
      exact ih ((List.mem_cons.1 h).resolve_left fun he => hvm he.symm)

/-- before it the row is what it was -/
theorem flips_of_not_vm (hb : m.backend = .redroid p sp) (h : .vm ∉ binders) : flips m binders = m := by
  induction binders with
  | nil => rfl
  | cons binder binders ih =>
    rw [List.mem_cons, not_or] at h
    have hsame : flip m binder = m := by simp [flip, hb, Ne.symm h.1]
    rw [flips_cons, hsame, ih h.2]

theorem eq_of_parts {m m' : InstanceMeta T} (hb : m'.backend = m.backend) (hi : m'.index = m.index)
    (ht : m'.createdAt = m.createdAt) : m' = m := by
  cases m
  cases m'
  simp only at hb hi ht
  rw [hb, hi, ht]

/-- a row that is of its first kind again is the row it was, without the layout if it was flipped on the way -/
theorem flips_back (m : InstanceMeta T) (binders : List Binder) (h : (flips m binders).backend.kind = m.backend.kind) :
    flips m binders = if .vm ∈ binders then cleared m else m := by
  obtain ⟨hindex, htime, -⟩ := flips_kept m binders
  cases hb : m.backend with
  | redroid p sp =>
    by_cases hvm : .vm ∈ binders
    · rw [if_pos hvm]
      rcases bare_of_vm hb hvm with hbare | hbare
      · simp [hbare, hb, BackendConfig.kind] at h
      · apply eq_of_parts
        · rw [hbare, cleared, hb]
        · rw [hindex, cleared, hb]
        · rw [htime, cleared, hb]
    · rw [if_neg hvm]
      exact flips_of_not_vm hb hvm
  | vm p =>
    have hclear : cleared m = m := by rw [cleared, hb]
    rw [hclear, ite_self]
    have hbare : Bare p m := Or.inl hb
    have hends : Bare p (flips m binders) := bare_flips hbare
    rcases hends with hend | hend
    · exact eq_of_parts (hend.trans hb.symm) hindex htime
    · simp [hend, hb, BackendConfig.kind] at h
  | adb serial =>
    have hclear : cleared m = m := by rw [cleared, hb]
    rw [hclear, ite_self]
    exact flips_opaque (by rw [hb]; rfl)
  | unresolved raw =>
    have hclear : cleared m = m := by rw [cleared, hb]
    rw [hclear, ite_self]
    exact flips_opaque (by rw [hb]; rfl)

end Row

/-! ## The registry -/

section Data

variable {d : RegistryFile T} {name other : String} {binder : Binder}

/-- the registry behind a call -/
def reconciled (d : RegistryFile T) (name : String) (binder : Binder) : RegistryFile T := (reconcile d name binder).getD d

/-- a call writes the flipped row, if that is another row -/
theorem reconcile_eq (d : RegistryFile T) (name : String) (binder : Binder) :
    (reconcile d name binder = none ∧ ∀ m, d.instances.get? name = some m → flip m binder = m) ∨
    ∃ m, d.instances.get? name = some m ∧ reconcile d name binder = some ⟨d.instances.set name (flip m binder)⟩ := by
  unfold reconcile
  cases hget : d.instances.get? name with
  | none => exact Or.inl ⟨rfl, by simp⟩
  | some m =>
    cases hb : m.backend with
    | redroid p sp =>
      by_cases hvm : binder = .vm
      · exact Or.inr ⟨m, rfl, by simp [hb, hvm, flip]⟩
      · exact Or.inl ⟨by simp [hb, hvm], by simp [flip, hb, hvm]⟩
    | adb serial => exact Or.inl ⟨by simp [hb], by simp [flip, hb]⟩
    | vm p =>
      by_cases hvm : binder = .vm
      · exact Or.inl ⟨by simp [hb, hvm], by simp [flip, hb, hvm]⟩
      · exact Or.inr ⟨m, rfl, by simp [hb, hvm, flip]⟩
    | unresolved raw => exact Or.inl ⟨by simp [hb], by simp [flip, hb]⟩

theorem get?_reconciled (d : RegistryFile T) (name other : String) (binder : Binder) :
    (reconciled d name binder).instances.get? other =
      (d.instances.get? other).map fun m => if other = name then flip m binder else m := by
  unfold reconciled
  rcases reconcile_eq d name binder with ⟨hnone, hsame⟩ | ⟨m, hget, hsome⟩
  · rw [hnone, Option.getD_none]
    by_cases hname : other = name
    · subst hname
      cases hget : d.instances.get? other with
      | none => rfl
      | some m => simp [hsame m hget]
    · simp [hname]
  · rw [hsome, Option.getD_some, Dict.get?_set]
    by_cases hname : other = name
    · subst hname
      simp [hget]
    · simp [hname]

theorem keys_reconciled (d : RegistryFile T) (name : String) (binder : Binder) :
    (reconciled d name binder).instances.keys = d.instances.keys := by
  unfold reconciled
  rcases reconcile_eq d name binder with ⟨hnone, -⟩ | ⟨m, hget, hsome⟩
  · rw [hnone, Option.getD_none]
  · have hmem : name ∈ d.instances.keys := Dict.get?_isSome.1 (by rw [hget]; rfl)
    rw [hsome, Option.getD_some, Dict.keys_set, if_pos hmem]

/-- the second of two equal calls finds nothing to do -/
theorem reconcile_reconciled (d : RegistryFile T) (name : String) (binder : Binder) :
    reconcile (reconciled d name binder) name binder = none := by
  unfold reconcile
  rw [get?_reconciled]
  cases hget : d.instances.get? name with
  | none => rfl
  | some m =>
    simp only [Option.map_some, if_true]
    cases hb : m.backend with
    | redroid p sp => by_cases hvm : binder = .vm <;> simp [flip, hb, hvm]
    | adb serial => simp [flip, hb]
    | vm p => by_cases hvm : binder = .vm <;> simp [flip, hb, hvm]
    | unresolved raw => simp [flip, hb]

theorem settled_reconciled (h : d.Settled) : (reconciled d name binder).Settled := by
  unfold reconciled
  cases hr : reconcile d name binder with
  | none => exact h
  | some d' =>
    have hwrites : outcome (.reconcileBackendKind name binder) d = (.changed true, some d') := by
      simp [outcome, reconcileDecide, hr]
    exact settled_outcome (o := .reconcileBackendKind name binder) h trivial hwrites

end Data

/-! ## The file -/

/-- a call: the instance it names and the binder of its config -/
abbrev Call := String × Binder

section File

variable (P : Pydantic T)

/-- `reconcile_backend_kind` -/
def call (s : Disk) (c : Call) : Res T × Disk := (registrySystem P).seq (.reconcileBackendKind c.1 c.2) s

def run (s : Disk) (cs : List Call) : Disk := cs.foldl (fun s c => (call P s c).2) s

/-- the file holds a registry of the current version -/
def Holds (s : Disk) (d : RegistryFile T) : Prop := ∃ c, s.file = some c ∧ readContent P c = .ok d

variable {P}
variable {s : Disk} {d : RegistryFile T} {cs : List Call}

theorem call_eq (hd : Holds P s d) (name : String) (binder : Binder) : call P s (name, binder) =
    match reconcile d name binder with
    | some d' => (.changed true, s.written P d')
    | none => (.changed false, s) := by
  obtain ⟨c, hfile, hread⟩ := hd
  have hinit : s.initialised P = s := by simp [Disk.initialised, hfile]
  have hoff : s.readOff P = (.ok d, s) := by simp [Disk.readOff, hfile, hread]
  rw [call, seq_reconcileBackendKind, alone_mutate, hinit, alone_update, hoff]
  simp only [reconcileDecide]
  cases reconcile d name binder with
  | none => rfl
  | some d' => rfl

theorem holds_call (hd : Holds P s d) (name : String) (binder : Binder) :
    Holds P (call P s (name, binder)).2 (reconciled d name binder) := by
  rw [call_eq hd]
  have hsettled : d.Settled := by
    obtain ⟨c, -, hread⟩ := hd
    exact settled_read hread
  unfold reconciled
  cases hr : reconcile d name binder with
  | none => exact hd
  | some d' =>
    have hd' : d'.Settled := by
      have h : (reconciled d name binder).Settled := settled_reconciled hsettled
      rw [reconciled, hr] at h
      exact h
    exact ⟨_, rfl, by rw [readContent_dump, resettle_of_settled hd', Option.getD_some]⟩

/-- the binders of the calls that name a row -/
def bindersOf (name : String) (cs : List Call) : List Binder := (cs.filter fun c => c.1 = name).map Prod.snd

theorem mem_bindersOf {name : String} {binder : Binder} : binder ∈ bindersOf name cs ↔ (name, binder) ∈ cs := by
  simp [bindersOf]

/-- a sequence of calls: the rows stay in their places, and each is flipped by the calls that name it -/
theorem holds_run (hd : Holds P s d) (cs : List Call) : ∃ d', Holds P (run P s cs) d' ∧
    d'.instances.keys = d.instances.keys ∧
    ∀ name, d'.instances.get? name = (d.instances.get? name).map fun m => flips m (bindersOf name cs) := by
  induction cs generalizing s d with
  | nil => exact ⟨d, hd, rfl, fun name => by simp [bindersOf, flips]⟩
  | cons c cs ih =>
    obtain ⟨name, binder⟩ := c
    obtain ⟨d', hd', hkeys, hrows⟩ := ih (holds_call hd name binder)
    refine ⟨d', hd', hkeys.trans (keys_reconciled d name binder), fun other => ?_⟩
    rw [hrows, get?_reconciled, Option.map_map]
    by_cases hname : other = name
    · subst hname
      simp [bindersOf, Function.comp_def, flips]
    · simp [bindersOf, Function.comp_def, hname, Ne.symm hname]

/-- Any sequence of calls on a registry: no row is lost, no other row changes, a repeated call answers False and writes nothing,
rows without a directory never change, the index, the time and the directory never change, and a row that is of its first kind
again is the row it was, except that its `stealth_paths` are empty if one of the calls wanted vm. -/
theorem run_keeps (P : Pydantic T) {s : Disk} {d : RegistryFile T} (hd : Holds P s d) (cs : List Call) :
    ∃ d', Holds P (run P s cs) d' ∧ d'.instances.keys = d.instances.keys ∧
      (∀ name, name ∉ cs.map Prod.fst → d'.instances.get? name = d.instances.get? name) ∧
      (∀ c, call P (call P (run P s cs) c).2 c = (.changed false, (call P (run P s cs) c).2)) ∧
      ∀ name m, d.instances.get? name = some m → ∃ m', d'.instances.get? name = some m' ∧ m'.index = m.index ∧
        m'.createdAt = m.createdAt ∧ m'.backend.absolutePath = m.backend.absolutePath ∧
        (m.backend.absolutePath = none → m' = m) ∧
        (m'.backend.kind = m.backend.kind → m' = if (name, .vm) ∈ cs then cleared m else m) := by
  obtain ⟨d', hd', hkeys, hrows⟩ := holds_run hd cs
  refine ⟨d', hd', hkeys, fun name hname => ?_, fun c => ?_, fun name m hm => ?_⟩
  · have hnone : bindersOf name cs = [] := by
      rw [bindersOf, List.map_eq_nil_iff, List.filter_eq_nil_iff]
      intro c hc hcname
      exact hname (List.mem_map.2 ⟨c, hc, by simpa using hcname⟩)
    rw [hrows, hnone]
    simp [flips]
  · obtain ⟨name, binder⟩ := c
    rw [call_eq (holds_call hd' name binder), reconcile_reconciled]
  · obtain ⟨hindex, htime, hpath⟩ := flips_kept m (bindersOf name cs)
    refine ⟨flips m (bindersOf name cs), by rw [hrows, hm, Option.map_some], hindex, htime, hpath, flips_opaque, fun hkind => ?_⟩
    rw [flips_back m _ hkind]
    simp only [mem_bindersOf]

/-! ## A row with a path layout -/

/-- a restored row, with the layout of its snapshot -/
def alpha : InstanceMeta String :=
  ⟨.redroid "/srv/alpha" (Dict.ofList [("frida_bin", "/data/local/tmp/x")]), 0, "2026-01-01T00:00:00+00:00"⟩

def restored : RegistryFile String := ⟨Dict.ofList [("alpha", alpha)]⟩

def disk : Disk where
  file := some (.json (registryToJson Pydantic.iso restored))

theorem holds_disk : Holds Pydantic.iso disk restored := by
  refine ⟨_, rfl, ?_⟩
  rw [readContent_dump, resettle_of_settled]
  intro e he
  have hentries : restored.instances.entries = [("alpha", alpha)] := rfl
  rw [hentries, List.mem_singleton] at he
  rw [he]
  exact typed_settled trivial

/-- the config is edited to vm, applied, and edited back -/
def roundTrip : List Call := [("alpha", .vm), ("alpha", .auto)]

theorem run_keeps_roundTrip : ∃ d', Holds Pydantic.iso (run Pydantic.iso disk roundTrip) d' ∧ d'.instances.keys = ["alpha"] ∧
    ∃ m', d'.instances.get? "alpha" = some m' ∧ m'.index = 0 ∧ m'.backend.absolutePath = some "/srv/alpha" := by
  obtain ⟨d', hd', hkeys, -, -, hrows⟩ := run_keeps Pydantic.iso holds_disk roundTrip
  obtain ⟨m', hget, hindex, -, hpath, -⟩ := hrows "alpha" alpha rfl
  exact ⟨d', hd', hkeys, m', hget, hindex, hpath⟩

/-- the row is redroid again, and its layout is gone -/
theorem layout_lost : ∃ d', Holds Pydantic.iso (run Pydantic.iso disk roundTrip) d' ∧
    ∃ m', d'.instances.get? "alpha" = some m' ∧ m'.backend.kind = alpha.backend.kind ∧ m' ≠ alpha := by
  obtain ⟨d', hd', -, hrows⟩ := holds_run holds_disk roundTrip
  refine ⟨d', hd', cleared alpha, ?_, rfl, fun h => ?_⟩
  · rw [hrows]
    rfl
  · have hlayout := congrArg (fun m : InstanceMeta String => m.backend) h
    injection hlayout with hpath hentries
    exact absurd (congrArg Dict.entries hentries) (by decide)

end File

end Beetroot.KindFlip
