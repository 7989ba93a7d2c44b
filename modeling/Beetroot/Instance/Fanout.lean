/-
Which instances do `up`, `down` and `restart` act on, and in which order?

With `--all` a verb first resolves every registered name, in sorted order, and skips a row that cannot be resolved (an orphan, or a
kind that is not installed) or has no lifecycle (adb). A `beetroot.yaml` that does not parse ends the verb there. Then it goes
through the names that are left, resolves each once more, and stops at the first that fails. What the backends do to the host is a
parameter, as are the probes of the host.

Results:
- `lifecycleNames_cases`: the names that are left, or the row that ends the verb;
- `actOn_spec`: a round refuses the name for a reason of its own and does nothing, or calls the backend;
- `loop_spec`: the loop calls the backends in order, each call but the last returns, and it ends early only where a name is refused
  or a backend raises;
- `fanOut_named`: explicit names;
- `mem_targets`: the names on which `--all` acts are the rows of `ls` with a lifecycle;
- `fanOut_all`: `--all` acts on every instance with a lifecycle that can be resolved, once and in sorted order, up to the first
  that fails, and no name that has passed the first look is refused later.
-/
import Beetroot.Instance.Listing

namespace Beetroot.Fanout

open Lib Lib.Fs Listing

variable {T : Type}

/-! ## The verbs -/

inductive Verb where
  | up
  | down
  | restart
deriving DecidableEq, Repr

inductive BinderState where
  | ready
  | loadable
  | unsupported
  | unknown
deriving DecidableEq, Repr

/-- `CONFIG_ANDROID_BINDER_IPC` of the host's kernel -/
inductive KernelBinderConfig where
  | y
  | m
  | notSet
deriving DecidableEq, Repr

/-- `_classify`, without its texts -/
def classify (devPresent binderfs : Bool) (kconfig : Option KernelBinderConfig) : BinderState :=
  if devPresent || binderfs then .ready
  else
    match kconfig with
    | some .y | some .m => .loadable
    | some .notSet => .unsupported
    | none => .unknown

inductive BinderAction where
  | proceed
  | warn
  | block
  | vm
deriving DecidableEq, Repr

/-- `plan_binder_runtime`, without its texts -/
def planBinderRuntime (mode : Binder) (state : BinderState) : BinderAction :=
  if mode = .vm then .vm else if state = .ready then .proceed else if mode = .host then .block else .warn

/-- why a verb ends early -/
inductive Stop where
  /-- `--all` and names -/
  | exclusive
  | noNames
  /-- the exit code is 0 -/
  | noInstances
  | missing (name : String)
  | unresolved (e : ResolveError)
  /-- `BackendCapabilityError` -/
  | unsupported (name : String)
  /-- a redroid row whose `beetroot.yaml` says `binder: vm` -/
  | outOfSync (name : String)
  | noBinder (name : String)
  | noAccel (name : String)
  /-- the backend raised -/
  | failed (name : String)

/-- what the host does: the probe of the binder driver, `resolved_accel` of a VM, and the verbs of the backends
together with what `up` prints of the instance afterwards, which may raise -/
structure Outside (T : Type) where
  devPresent : World T → Bool
  binderfs : World T → Bool
  kconfig : World T → Option KernelBinderConfig
  accel : Device → World T → Bool
  act : Verb → Device → World T → Bool × World T

/-- the names on which the backends were called, and the advisories about binder -/
structure Run (T : Type) where
  world : World T
  warned : Bool := false
  acted : List String := []
  advisories : ℕ := 0

/-- `isinstance(backend, Lifecycle)` -/
def hasLifecycle : Device → Bool
  | .adb .. => false
  | _ => true

section Verbs

variable (o : Outside T) (p : Paths) (w : World T)

/-- `_resolve_names` -/
def resolveNames (names : List String) (all : Bool) : Except Stop (List String) :=
  if all = true ∧ names ≠ [] then .error .exclusive
  else if all then if w.reg.instances.keys = [] then .error .noInstances else .ok (sortedNames w.reg.instances.keys)
  else if names = [] then .error .noNames
  else .ok names

/-- `InstanceNotFoundError`; what else can be raised is not skipped -/
def isNotFound : ResolveError → Bool
  | .notFound | .noYaml => true
  | _ => false

/-- the filter of `_resolve_lifecycle_names` -/
def lifecycleNames : List String → Except Stop (List String)
  | [] => .ok []
  | name :: rest =>
    match resolve p w name with
    | .ok d => if hasLifecycle d then (lifecycleNames rest).map (name :: ·) else lifecycleNames rest
    | .error e => if isNotFound e then lifecycleNames rest else .error (.unresolved e)

def resolveLifecycleNames (names : List String) (all : Bool) : Except Stop (List String) := do
  let raw ← resolveNames w names all
  if all then lifecycleNames p w raw else pure raw

/-- `_binder_preflight` -/
def binderPreflight (name : String) (mode : Binder) (r : Run T) : Except Stop (Run T) :=
  match planBinderRuntime mode (classify (o.devPresent r.world) (o.binderfs r.world) (o.kconfig r.world)) with
  | .proceed => .ok r
  | .block => .error (.noBinder name)
  | _ => .ok { r with warned := true, advisories := if r.warned then r.advisories else r.advisories + 1 }

/-- what stands in front of the verb of the backend -/
def preflight (verb : Verb) (name : String) (d : Device) (r : Run T) : Except Stop (Run T) :=
  match verb, d with
  | .up, .redroid _ _ cfg => if cfg.binder = .vm then .error (.outOfSync name) else binderPreflight o name cfg.binder r
  | .up, .vm .. | .restart, .vm .. => if o.accel d r.world then .ok r else .error (.noAccel name)
  | _, _ => .ok r

/-- the verb of the backend -/
def call (verb : Verb) (name : String) (d : Device) (r : Run T) : Option Stop × Run T :=
  let done := { r with world := (o.act verb d r.world).2, acted := r.acted ++ [name] }
  if (o.act verb d r.world).1 then (none, done) else (some (.failed name), done)

/-- a round of the loop -/
def actOn (verb : Verb) (name : String) (r : Run T) : Option Stop × Run T :=
  if name ∈ r.world.reg.instances.keys then
    match resolve p r.world name with
    | .error e => (some (.unresolved e), r)
    | .ok d =>
      if hasLifecycle d then
        match preflight o verb name d r with
        | .error e => (some e, r)
        | .ok r => call o verb name d r
      else (some (.unsupported name), r)
  else (some (.missing name), r)

def loop (verb : Verb) : List String → Run T → Option Stop × Run T
  | [], r => (none, r)
  | name :: rest, r =>
    match actOn o p verb name r with
    | (none, r) => loop verb rest r
    | (some e, r) => (some e, r)

/-- `up`, `down` and `restart` -/
def fanOut (verb : Verb) (names : List String) (all : Bool) : Option Stop × Run T :=
  match resolveLifecycleNames p w names all with
  | .error e => (some e, { world := w })
  | .ok names => loop o p verb names { world := w }

end Verbs

/-! ## One round -/

section Round

variable (o : Outside T) (p : Paths) (verb : Verb)

/-- what `binder_status` makes of the host -/
def Outside.binder (w : World T) : BinderState := classify (o.devPresent w) (o.binderfs w) (o.kconfig w)

/-- why a name is not acted on -/
inductive Refuses (name : String) (w : World T) : Stop → Prop where
  | missing (row : name ∉ w.reg.instances.keys) : Refuses name w (.missing name)
  | unresolved {e : ResolveError} (row : name ∈ w.reg.instances.keys) (bad : resolve p w name = .error e) :
      Refuses name w (.unresolved e)
  | unsupported {d : Device} (resolved : resolve p w name = .ok d) (other : hasLifecycle d = false) :
      Refuses name w (.unsupported name)
  | outOfSync {n path : String} {cfg : InstanceConfig} (resolved : resolve p w name = .ok (.redroid n path cfg)) (up : verb = .up)
      (vm : cfg.binder = .vm) : Refuses name w (.outOfSync name)
  | noBinder {n path : String} {cfg : InstanceConfig} (resolved : resolve p w name = .ok (.redroid n path cfg)) (up : verb = .up)
      (host : cfg.binder = .host) (state : o.binder w ≠ .ready) : Refuses name w (.noBinder name)
  | noAccel {n path : String} {cfg : InstanceConfig} {index : Int} (resolved : resolve p w name = .ok (.vm n path cfg index))
      (starts : verb ≠ .down) (accel : o.accel (.vm n path cfg index) w = false) : Refuses name w (.noAccel name)

/-- an `up` that lacks the binder driver and starts anyway -/
def warns (d : Device) (w : World T) : Bool :=
  match verb, d with
  | .up, .redroid _ _ cfg => cfg.binder = .auto && o.binder w ≠ .ready
  | _, _ => false

/-- the advisory is printed once -/
def Run.noted (r : Run T) (warning : Bool) : Run T :=
  { r with warned := r.warned || warning, advisories := if warning && !r.warned then r.advisories + 1 else r.advisories }

/-- the run behind a call of the backend -/
def Run.called (name : String) (d : Device) (r : Run T) : Run T :=
  { r.noted (warns o verb d r.world) with world := (o.act verb d r.world).2, acted := r.acted ++ [name] }

/-- a stop that comes after the name was resolved -/
def Stop.isLate : Stop → Bool
  | .outOfSync _ | .noBinder _ | .noAccel _ | .failed _ => true
  | _ => false

/-- the name can be resolved, and its backend has a lifecycle -/
def Passes (p : Paths) (w : World T) (name : String) : Prop := ∃ d, resolve p w name = .ok d ∧ hasLifecycle d = true

theorem row_of_resolve {p : Paths} {w : World T} {name : String} {d : Device} (h : resolve p w name = .ok d) :
    ∃ m, w.reg.instances.get? name = some m ∧ fromMeta p w name m = .ok d := by
  have hsome : (resolve p w name).toOption = some d := congrArg Except.toOption h
  exact resolve_ok_iff.1 hsome

variable {o p verb} {name : String} {d : Device} {r : Run T}

/-- a name that passes is refused for what the host lacks only -/
theorem Refuses.late {w : World T} {e : Stop} (h : Refuses o p verb name w e) (hpass : Passes p w name) : e.isLate = true := by
  obtain ⟨d, hd, hlife⟩ := hpass
  cases h with
  | missing row =>
    obtain ⟨m, hm, -⟩ := row_of_resolve hd
    exact absurd (Dict.get?_isSome.1 (Option.isSome_of_eq_some hm)) row
  | unresolved row bad => cases bad.symm.trans hd
  | unsupported resolved other =>
    cases resolved.symm.trans hd
    rw [hlife] at other
    cases other
  | outOfSync => rfl
  | noBinder => rfl
  | noAccel => rfl

theorem binderPreflight_spec (mode : Binder) (hvm : mode ≠ .vm) :
    binderPreflight o name mode r =
      if mode = .host ∧ o.binder r.world ≠ .ready then .error (.noBinder name)
      else .ok (r.noted (mode = .auto && o.binder r.world ≠ .ready)) := by
  unfold binderPreflight planBinderRuntime
  change (match (if mode = .vm then _ else if o.binder r.world = .ready then _ else if mode = .host then _ else _ : BinderAction) with
    | .proceed => _
    | .block => _
    | _ => _) = _
  by_cases hready : o.binder r.world = .ready
  · simp [hready, hvm, Run.noted]
  · cases mode with
    | vm => exact absurd rfl hvm
    | host => simp [hready]
    | auto => cases hw : r.warned <;> simp [hready, Run.noted, hw]

theorem preflight_spec (hd : resolve p r.world name = .ok d) (hlife : hasLifecycle d = true) :
    (∃ e, preflight o verb name d r = .error e ∧ Refuses o p verb name r.world e) ∨
      (preflight o verb name d r = .ok (r.noted (warns o verb d r.world)) ∧ ∀ e, ¬ Refuses o p verb name r.world e) := by
  have hrow : name ∈ r.world.reg.instances.keys := by
    obtain ⟨m, hm, -⟩ := row_of_resolve hd
    exact Dict.get?_isSome.1 (Option.isSome_of_eq_some hm)
  -- what is left of the causes once the name is resolved
  have hclear : (∀ n path cfg, d = .redroid n path cfg → verb = .up →
        cfg.binder ≠ .vm ∧ (cfg.binder = .host → o.binder r.world = .ready)) →
      (∀ n path cfg index, d = .vm n path cfg index → verb ≠ .down → o.accel d r.world = true) →
      ∀ e, ¬ Refuses o p verb name r.world e := by
    intro hred hvm e he
    cases he with
    | missing row => exact row hrow
    | unresolved row bad => cases bad.symm.trans hd
    | unsupported resolved other =>
      cases resolved.symm.trans hd
      rw [hlife] at other
      cases other
    | outOfSync resolved up vm =>
      cases resolved.symm.trans hd
      exact (hred _ _ _ rfl up).1 vm
    | noBinder resolved up host state =>
      cases resolved.symm.trans hd
      exact state ((hred _ _ _ rfl up).2 host)
    | noAccel resolved starts accel =>
      cases resolved.symm.trans hd
      rw [hvm _ _ _ _ rfl starts] at accel
      cases accel
  have hquiet : r.noted false = r := by simp [Run.noted]
  cases d with
  | redroid n path cfg =>
    by_cases hup : verb = .up
    · subst hup
      by_cases hvm : cfg.binder = .vm
      · exact Or.inl ⟨.outOfSync name, if_pos hvm, .outOfSync hd rfl hvm⟩
      · have hpre : preflight o .up name (.redroid n path cfg) r = binderPreflight o name cfg.binder r := if_neg hvm
        rw [hpre, binderPreflight_spec cfg.binder hvm]
        split_ifs with hblock
        · exact Or.inl ⟨.noBinder name, rfl, .noBinder hd rfl hblock.1 hblock.2⟩
        · refine Or.inr ⟨rfl, hclear ?_ fun _ _ _ _ h => nomatch h⟩
          intro _ _ _ heq _
          cases heq
          exact ⟨hvm, fun hhost => by_contra fun hready => hblock ⟨hhost, hready⟩⟩
    · refine Or.inr ⟨?_, hclear (fun _ _ _ _ h => absurd h hup) fun _ _ _ _ h => nomatch h⟩
      cases verb with
      | up => exact absurd rfl hup
      | down | restart => exact congrArg Except.ok hquiet.symm
  | vm n path cfg index =>
    by_cases hdown : verb = .down
    · subst hdown
      exact Or.inr ⟨congrArg Except.ok hquiet.symm, hclear (fun _ _ _ h => nomatch h) fun _ _ _ _ _ h => absurd rfl h⟩
    · have hpre : preflight o verb name (.vm n path cfg index) r =
          if o.accel (.vm n path cfg index) r.world then .ok r else .error (.noAccel name) := by
        cases verb with
        | down => exact absurd rfl hdown
        | up | restart => rfl
      rw [hpre]
      split_ifs with haccel
      · refine Or.inr ⟨?_, hclear (fun _ _ _ h => nomatch h) fun _ _ _ _ _ _ => haccel⟩
        cases verb <;> exact congrArg Except.ok hquiet.symm
      · exact Or.inl ⟨.noAccel name, rfl, .noAccel hd hdown (Bool.eq_false_iff.2 haccel)⟩
  | adb n serial port => cases hlife

/-- a round refuses the name and does nothing, or calls the backend -/
theorem actOn_spec : (∃ e, actOn o p verb name r = (some e, r) ∧ Refuses o p verb name r.world e) ∨
    ∃ d, resolve p r.world name = .ok d ∧ (∀ e, ¬ Refuses o p verb name r.world e) ∧
      actOn o p verb name r =
        (if (o.act verb d r.world).1 then none else some (.failed name), r.called o verb name d) := by
  unfold actOn
  split_ifs with hkeys
  · cases hd : resolve p r.world name with
    | error e => exact Or.inl ⟨_, rfl, .unresolved hkeys hd⟩
    | ok d =>
      by_cases hlife : hasLifecycle d = true
      · simp only [if_pos hlife]
        rcases preflight_spec hd hlife with h | h
        · obtain ⟨e, he, hcause⟩ := h
          rw [he]
          exact Or.inl ⟨e, rfl, hcause⟩
        · obtain ⟨hok, hclear⟩ := h
          rw [hok]
          refine Or.inr ⟨d, rfl, hclear, ?_⟩
          change call o verb name d (r.noted (warns o verb d r.world)) = _
          unfold call
          split_ifs with hact hact' hact'
          · rfl
          · exact absurd hact hact'
          · exact absurd hact' hact
          · rfl
      · simp only [if_neg hlife]
        exact Or.inl ⟨_, rfl, .unsupported hd (Bool.eq_false_iff.2 hlife)⟩
  · exact Or.inl ⟨_, rfl, .missing hkeys⟩

end Round

/-! ## The loop -/

section Loop

variable (o : Outside T) (p : Paths) (verb : Verb)

/-- a verb leaves the resolution of the other names alone -/
def Frame : Prop := ∀ verb d w name, name ≠ d.name → resolve p (o.act verb d w).2 name = resolve p w name

/-- the backends of the names are called one after another, each on what the calls before it have left, none of the names is refused,
and every call returns -/
inductive Calls : Run T → List String → Run T → Prop where
  | nil {r : Run T} : Calls r [] r
  | cons {r r' : Run T} {name : String} {names : List String} {d : Device} (resolved : resolve p r.world name = .ok d)
      (clear : ∀ e, ¬ Refuses o p verb name r.world e) (returned : (o.act verb d r.world).1 = true)
      (rest : Calls (r.called o verb name d) names r') : Calls r (name :: names) r'

/-- the calls go through the names in order, until a name is refused or its backend raises -/
inductive Fanned (r : Run T) (names : List String) : Option Stop × Run T → Prop where
  | all {r' : Run T} (calls : Calls o p verb r names r') : Fanned r names (none, r')
  | refused {r' : Run T} {before after : List String} {name : String} {e : Stop} (split : names = before ++ name :: after)
      (calls : Calls o p verb r before r') (cause : Refuses o p verb name r'.world e) : Fanned r names (some e, r')
  | failed {r' : Run T} {before after : List String} {name : String} {d : Device} (split : names = before ++ name :: after)
      (calls : Calls o p verb r before r') (resolved : resolve p r'.world name = .ok d)
      (clear : ∀ e, ¬ Refuses o p verb name r'.world e) (raised : (o.act verb d r'.world).1 = false) :
      Fanned r names (some (.failed name), r'.called o verb name d)

variable {o p verb} {r r' : Run T} {names : List String}

theorem Fanned.cons {name : String} {d : Device} (hd : resolve p r.world name = .ok d)
    (hclear : ∀ e, ¬ Refuses o p verb name r.world e) (hreturned : (o.act verb d r.world).1 = true)
    {q : Option Stop × Run T} (h : Fanned o p verb (r.called o verb name d) names q) : Fanned o p verb r (name :: names) q := by
  cases h with
  | all calls => exact .all (.cons hd hclear hreturned calls)
  | @refused _ before _ _ _ split calls cause =>
    have hnames : name :: names = (name :: before) ++ _ :: _ := congrArg (name :: ·) split
    exact .refused hnames (.cons hd hclear hreturned calls) cause
  | @failed _ before _ _ _ split calls resolved clear raised =>
    have hnames : name :: names = (name :: before) ++ _ :: _ := congrArg (name :: ·) split
    exact .failed hnames (.cons hd hclear hreturned calls) resolved clear raised

theorem loop_spec (names : List String) (r : Run T) : Fanned o p verb r names (loop o p verb names r) := by
  induction names generalizing r with
  | nil => exact .all .nil
  | cons name rest ih =>
    have hfirst : name :: rest = [] ++ name :: rest := rfl
    unfold loop
    rcases @actOn_spec T o p verb name r with h | h
    · obtain ⟨e, hact, hcause⟩ := h
      rw [hact]
      exact .refused hfirst .nil hcause
    · obtain ⟨d, hd, hclear, hact⟩ := h
      rw [hact]
      by_cases hreturned : (o.act verb d r.world).1 = true
      · rw [if_pos hreturned]
        exact .cons hd hclear hreturned (ih _)
      · rw [if_neg hreturned]
        exact .failed hfirst .nil hd hclear (Bool.eq_false_iff.2 hreturned)

theorem Calls.acted (h : Calls o p verb r names r') : r'.acted = r.acted ++ names := by
  induction h with
  | nil => exact (List.append_nil _).symm
  | cons _ _ _ _ ih =>
    rw [ih]
    exact List.append_assoc _ _ _

/-- the advisory is printed when the flag is set -/
def Run.Counted (r : Run T) : Prop := r.advisories = if r.warned then 1 else 0

theorem counted_called {name : String} {d : Device} (hr : r.Counted) : (r.called o verb name d).Counted := by
  change (if warns o verb d r.world && !r.warned then r.advisories + 1 else r.advisories) =
    if r.warned || warns o verb d r.world then 1 else 0
  unfold Run.Counted at hr
  rw [hr]
  cases r.warned <;> cases warns o verb d r.world <;> rfl

theorem Calls.counted (h : Calls o p verb r names r') (hr : r.Counted) : r'.Counted := by
  induction h with
  | nil => exact hr
  | cons _ _ _ _ ih => exact ih (counted_called hr)

theorem Fanned.counted {q : Option Stop × Run T} (h : Fanned o p verb r names q) (hr : r.Counted) : q.2.Counted := by
  cases h with
  | all calls => exact calls.counted hr
  | refused _ calls _ => exact calls.counted hr
  | failed _ calls _ _ _ => exact counted_called (calls.counted hr)

/-- the calls leave the names behind them as they were -/
theorem Calls.passes (hframe : Frame o p) {name : String} (h : Calls o p verb r names r') (hname : name ∉ names)
    (hpass : Passes p r.world name) : Passes p r'.world name := by
  induction h with
  | nil => exact hpass
  | @cons r _ n _ d resolved _ _ _ ih =>
    rw [List.mem_cons, not_or] at hname
    refine ih hname.2 ?_
    obtain ⟨d', hd', hlife⟩ := hpass
    obtain ⟨m, -, hmeta⟩ := row_of_resolve resolved
    refine ⟨d', ?_, hlife⟩
    calc resolve p (o.act verb d r.world).2 name
      _ = resolve p r.world name := hframe verb d r.world name (by rw [fromMeta_name hmeta]; exact hname.1)
      _ = .ok d' := hd'

/-- a name that passed the first look is not refused later, unless the host lacks something -/
theorem Fanned.late (hframe : Frame o p) {q : Option Stop × Run T} (h : Fanned o p verb r names q) (hnodup : names.Nodup)
    (hpass : ∀ n ∈ names, Passes p r.world n) {e : Stop} (he : q.1 = some e) : e.isLate = true := by
  cases h with
  | all calls => cases he
  | @refused _ before _ name _ split calls cause =>
    cases he
    subst split
    have hname : name ∉ before := fun h => (List.nodup_append.1 hnodup).2.2 name h name List.mem_cons_self rfl
    exact cause.late (calls.passes hframe hname (hpass name (List.mem_append_right _ List.mem_cons_self)))
  | failed =>
    cases he
    rfl

/-- the backends that were called are those of the first names, and of all if nothing stops the verb -/
theorem Fanned.acted {q : Option Stop × Run T} (h : Fanned o p verb r names q) :
    ∃ before, before <+: names ∧ q.2.acted = r.acted ++ before ∧ (q.1 = none → before = names) := by
  cases h with
  | all calls => exact ⟨names, List.prefix_refl _, calls.acted, fun _ => rfl⟩
  | @refused _ before after name e split calls cause =>
    exact ⟨before, ⟨name :: after, split.symm⟩, calls.acted, fun h => nomatch h⟩
  | @failed r' before after name d split calls resolved clear raised =>
    refine ⟨before ++ [name], ⟨after, ?_⟩, ?_, fun h => nomatch h⟩
    · rw [split, List.append_assoc]
      rfl
    · change r'.acted ++ [name] = _
      rw [calls.acted, List.append_assoc]

end Loop

/-- explicit names are taken as they stand -/
theorem fanOut_named (o : Outside T) (p : Paths) (verb : Verb) (w : World T) {names : List String} (hnames : names ≠ []) :
    Fanned o p verb { world := w } names (fanOut o p w verb names false) := by
  have hraw : resolveLifecycleNames p w names false = .ok names := by
    simp [resolveLifecycleNames, resolveNames, hnames, bind, Except.bind, pure, Except.pure]
  unfold fanOut
  rw [hraw]
  exact loop_spec names { world := w }

/-! ## All instances -/

section All

variable {p : Paths} {w : World T}

def passes (p : Paths) (w : World T) (name : String) : Bool :=
  match resolve p w name with
  | .ok d => hasLifecycle d
  | .error _ => false

theorem passes_iff {name : String} : passes p w name = true ↔ Passes p w name := by
  unfold passes Passes
  cases resolve p w name with
  | error e => simp
  | ok d => simp

/-- the instances on which `--all` acts -/
def targets (p : Paths) (w : World T) : List String := (sortedNames w.reg.instances.keys).filter (passes p w)

theorem nodup_targets : (targets p w).Nodup :=
  ((sortedNames_perm _).nodup_iff.2 w.reg.instances.nodup).filter _

theorem sorted_targets : (targets p w).Pairwise (· ≤ ·) :=
  (List.pairwise_insertionSort _ _).filter _

/-- they are the rows of `ls` with a lifecycle -/
theorem mem_targets {name : String} : name ∈ targets p w ↔ ∃ m d, (name, m, d) ∈ lsRows p w ∧ hasLifecycle d = true := by
  unfold targets
  rw [List.mem_filter, passes_iff]
  constructor
  · intro h
    obtain ⟨-, d, hd, hlife⟩ := h
    obtain ⟨m, hm, hmeta⟩ := row_of_resolve hd
    exact ⟨m, d, mem_lsRows.2 ⟨hm, hmeta⟩, hlife⟩
  · intro h
    obtain ⟨m, d, hrow, hlife⟩ := h
    obtain ⟨hm, hmeta⟩ := mem_lsRows.1 hrow
    have hd : resolve p w name = .ok d := by
      unfold resolve
      rw [hm]
      exact hmeta
    have hkey : name ∈ w.reg.instances.keys := Dict.get?_isSome.1 (Option.isSome_of_eq_some hm)
    exact ⟨(sortedNames_perm _).mem_iff.2 hkey, d, hd, hlife⟩

/-- a row that ends the verb, or the names that pass -/
theorem lifecycleNames_cases (names : List String) :
    (∃ name ∈ names, ∃ e, resolve p w name = .error e ∧ isNotFound e = false ∧
      lifecycleNames p w names = .error (.unresolved e)) ∨
      (∀ name ∈ names, ∀ e, resolve p w name = .error e → isNotFound e = true) ∧
        lifecycleNames p w names = .ok (names.filter (passes p w)) := by
  induction names with
  | nil => exact Or.inr ⟨fun _ h => absurd h List.not_mem_nil, rfl⟩
  | cons name rest ih =>
    unfold lifecycleNames
    cases hd : resolve p w name with
    | error e =>
      have hpass : ¬ passes p w name = true := by simp [passes, hd]
      rw [List.filter_cons_of_neg hpass]
      simp only
      split_ifs with hfound
      · rcases ih with h | h
        · obtain ⟨n, hn, h⟩ := h
          exact Or.inl ⟨n, List.mem_cons_of_mem _ hn, h⟩
        · refine Or.inr ⟨List.forall_mem_cons.2 ⟨fun e' he' => ?_, h.1⟩, h.2⟩
          cases hd.symm.trans he'
          exact hfound
      · exact Or.inl ⟨name, List.mem_cons_self, e, hd, Bool.eq_false_iff.2 hfound, rfl⟩
    | ok d =>
      have hpass : passes p w name = hasLifecycle d := by simp [passes, hd]
      rcases ih with h | h
      · obtain ⟨n, hn, e, he, hloud, h⟩ := h
        refine Or.inl ⟨n, List.mem_cons_of_mem _ hn, e, he, hloud, ?_⟩
        simp only [h]
        split_ifs <;> rfl
      · refine Or.inr ⟨List.forall_mem_cons.2 ⟨fun e' he' => (nomatch hd.symm.trans he'), h.1⟩, ?_⟩
        rw [List.filter_cons, hpass]
        simp only [h.2]
        split_ifs <;> rfl

end All

/-- how a verb with `--all` can go -/
inductive AllOutcome (o : Outside T) (p : Paths) (verb : Verb) (w : World T) : Option Stop × Run T → Prop where
  | nothing (none : w.reg.instances.keys = []) : AllOutcome o p verb w (some .noInstances, { world := w })
  /-- a `beetroot.yaml` or a port of a row is bad, and nothing was touched -/
  | loud {name : String} {e : ResolveError} (registered : name ∈ w.reg.instances.keys) (bad : resolve p w name = .error e)
      (other : isNotFound e = false) : AllOutcome o p verb w (some (.unresolved e), { world := w })
  | acted {q : Option Stop × Run T} (quiet : ∀ name ∈ w.reg.instances.keys, ∀ e, resolve p w name = .error e → isNotFound e = true)
      (fanned : Fanned o p verb { world := w } (targets p w) q) (once : q.2.advisories ≤ 1)
      (late : ∀ e, q.1 = some e → e.isLate = true) (inOrder : q.2.acted <+: targets p w)
      (all : q.1 = none → q.2.acted = targets p w) : AllOutcome o p verb w q

theorem fanOut_all (o : Outside T) (p : Paths) (verb : Verb) (w : World T) (hframe : Frame o p) :
    AllOutcome o p verb w (fanOut o p w verb [] true) ∧ (targets p w).Nodup ∧ (targets p w).Pairwise (· ≤ ·) := by
  refine ⟨?_, nodup_targets, sorted_targets⟩
  by_cases hnone : w.reg.instances.keys = []
  · have hnames : resolveLifecycleNames p w [] true = .error .noInstances := by
      simp [resolveLifecycleNames, resolveNames, hnone, bind, Except.bind]
    unfold fanOut
    rw [hnames]
    exact .nothing hnone
  have hnames : resolveLifecycleNames p w [] true = lifecycleNames p w (sortedNames w.reg.instances.keys) := by
    simp [resolveLifecycleNames, resolveNames, hnone, bind, Except.bind]
  unfold fanOut
  rw [hnames]
  rcases @lifecycleNames_cases T p w (sortedNames w.reg.instances.keys) with h | h
  · obtain ⟨name, hmem, e, hbad, hloud, h⟩ := h
    rw [h]
    exact .loud ((sortedNames_perm _).mem_iff.1 hmem) hbad hloud
  · obtain ⟨hquiet, h⟩ := h
    rw [h]
    change AllOutcome o p verb w (loop o p verb (targets p w) { world := w })
    have hfanned := @loop_spec T o p verb (targets p w) { world := w }
    obtain ⟨before, hprefix, hacted, hall⟩ := hfanned.acted
    have hbefore : (loop o p verb (targets p w) { world := w }).2.acted = before := hacted
    refine .acted (fun name hname => hquiet name ((sortedNames_perm _).mem_iff.2 hname)) hfanned ?_ (fun e he => ?_) ?_ fun hstop => ?_
    · have hcounted := hfanned.counted rfl
      unfold Run.Counted at hcounted
      rw [hcounted]
      split_ifs <;> decide
    · refine hfanned.late hframe nodup_targets (fun n hn => ?_) he
      exact passes_iff.1 (List.mem_filter.1 hn).2
    · rw [hbefore]
      exact hprefix
    · rw [hbefore]
      exact hall hstop

/-- a host on which everything goes well -/
def Outside.calm : Outside T := ⟨fun _ => true, fun _ => true, fun _ => none, fun _ _ => true, fun _ _ w => (true, w)⟩

theorem fanOut_three : AllOutcome .calm Paths.sample .up threeRows (fanOut .calm Paths.sample threeRows .up [] true) ∧
    (targets Paths.sample threeRows).Nodup ∧ (targets Paths.sample threeRows).Pairwise (· ≤ ·) :=
  fanOut_all .calm Paths.sample .up threeRows fun _ _ _ _ _ => rfl

end Beetroot.Fanout
