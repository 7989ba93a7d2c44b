/-
Can two registrations that run at the same time both succeed with one host port?

Each call writes its row, has its `beetroot.yaml` in place, and then scans: it reads the registry in one step and each
sibling's `beetroot.yaml` in a later one. Of two calls that both get through, the one that read the registry later found the
other's row, and later still the other's complete file; so its scan compared the two port sets. The order of the row and the
file (`restore` writes its row first) does not matter, and neither do the calls that fail and roll back.

What can break this is a tree removal: a rollback (or a `restore --force`) of a directory that contains another call's
directory removes that call's `beetroot.yaml`, and a scan skips a sibling without one.

Results:
- `ports_disjoint`: in every interleaving of calls with distinct names and directories, in which no call removes a tree that
  holds the `beetroot.yaml` of another call that has its config, the host ports of any two successful calls are disjoint;
- `always_spares`: the condition holds of every run when no directory lies inside another;
- `port_taken_twice`: a run with nested directories in which two successful calls publish one host port.
-/
import Beetroot.Registration.Machine
import Mathlib.Data.Fintype.Basic

namespace Beetroot.Registration.PortRace

open Lib Lib.Fs

variable {T ι : Type} {p : Paths}

/-! ## What a call has -/

section Owned

variable (p) (c : Call T) (w : World T)

/-- the call's row, with the index it was given -/
def HasRow (o : Own) : Prop :=
  ∃ m, w.reg.instances.get? c.name = some m ∧ m.index = o.index ∧ m.backend.absolutePath = some (p.str (c.target p))

/-- the call's `beetroot.yaml`, complete -/
def HasYaml (cfg : InstanceConfig) : Prop := loadYaml w.fs (c.target p) = some (.valid cfg)

def Owned : Pc T → Prop
  | .alloc _ cfg => ∀ x, cfg = some x → HasYaml p c w x
  | .extract o | .extracting o | .binder o | .layout o | .reload o => HasRow p c w o
  | .resolve o cfg => HasRow p c w o ∧ HasYaml p c w cfg
  | .list o cfg ports | .scan o cfg ports _ _ | .stage o cfg ports | .done o cfg ports =>
    HasRow p c w o ∧ HasYaml p c w cfg ∧ resolvePorts o.index cfg.ports = .ok ports
  | _ => True

end Owned

/-- a call whose config is in its `beetroot.yaml` -/
def hasConfig : Pc T → Bool
  | .alloc _ (some _) | .resolve _ _ | .list _ _ _ | .scan _ _ _ _ _ | .stage _ _ _ | .done _ _ _ => true
  | _ => false

/-- a call about to remove its directory tree -/
def removesTree : Pc T → Bool
  | .clear | .rmtree => true
  | _ => false

section Local

variable {c : Call T} {w w' : World T} {pc : Pc T}

theorem hasRow_congr {o : Own} (h : w'.reg.instances.get? c.name = w.reg.instances.get? c.name)
    (hr : HasRow p c w o) : HasRow p c w' o := by
  unfold HasRow; rw [h]; exact hr

theorem hasYaml_congr {cfg : InstanceConfig}
    (h : readFile w'.fs (instanceYaml (c.target p)) = readFile w.fs (instanceYaml (c.target p))) (hy : HasYaml p c w cfg) :
    HasYaml p c w' cfg := by
  rw [HasYaml, loadYaml_valid, h]
  exact loadYaml_valid.1 hy

/-- a call keeps what it has while its row and its file are left alone -/
theorem owned_frame (h : Owned p c w pc) (hrow : w'.reg.instances.get? c.name = w.reg.instances.get? c.name)
    (hyaml : hasConfig pc = true → readFile w'.fs (instanceYaml (c.target p)) = readFile w.fs (instanceYaml (c.target p))) :
    Owned p c w' pc := by
  cases pc with
  | alloc created cfg =>
    intro x hx
    subst hx
    exact hasYaml_congr (hyaml rfl) (h x rfl)
  | extract o => exact hasRow_congr hrow h
  | extracting o => exact hasRow_congr hrow h
  | binder o => exact hasRow_congr hrow h
  | layout o => exact hasRow_congr hrow h
  | reload o => exact hasRow_congr hrow h
  | resolve o cfg => exact ⟨hasRow_congr hrow h.1, hasYaml_congr (hyaml rfl) h.2⟩
  | list o cfg ports => exact ⟨hasRow_congr hrow h.1, hasYaml_congr (hyaml rfl) h.2.1, h.2.2⟩
  | scan o cfg ports pending others => exact ⟨hasRow_congr hrow h.1, hasYaml_congr (hyaml rfl) h.2.1, h.2.2⟩
  | stage o cfg ports => exact ⟨hasRow_congr hrow h.1, hasYaml_congr (hyaml rfl) h.2.1, h.2.2⟩
  | done o cfg ports => exact ⟨hasRow_congr hrow h.1, hasYaml_congr (hyaml rfl) h.2.1, h.2.2⟩
  | _ => trivial

theorem owned_raises (h : Owned p c w pc) : Owned p c w pc.raises := by
  cases pc with
  | done o cfg ports => exact h
  | _ => trivial

/-- the row that `add_allocating` wrote -/
theorem hasRow_alloc {reg : RegistryFile T} {created : Bool} {cfg : Option InstanceConfig} {i : Int}
    (h : allocate w.reg c.name (c.backend p cfg) c.now = .ok (i, reg)) :
    HasRow p c { w with reg := reg } ⟨created, i⟩ := by
  obtain ⟨-, -, -, rfl⟩ := allocate_ok h
  refine ⟨_, by rw [Dict.get?_set, if_pos rfl], rfl, ?_⟩
  unfold Call.backend
  cases cfg with
  | none => rfl
  | some cfg => simp only; split_ifs <;> rfl

theorem hasRow_stealth {reg : RegistryFile T} {layout : Dict String String} {o : Own} (hr : HasRow p c w o)
    (h : stealth w.reg c.name layout = .ok reg) : HasRow p c { w with reg := reg } o := by
  obtain ⟨m, hm, hi, hp⟩ := hr
  obtain ⟨m', b, hm', -, hb, rfl⟩ := stealth_ok h
  rw [hm] at hm'
  cases hm'
  exact ⟨{ m with backend := b }, by rw [Dict.get?_set, if_pos rfl], hi, hb.trans hp⟩

/-- a step of the call itself: each point leaves the call with what the next point needs -/
theorem owned_next (h : Owned p c w pc) : Owned p c (next p c w pc).1 (next p c w pc).2 := by
  cases pc with
  | mkdir created =>
    cases c with
    | restore name path archive force now => intro x hx; cases hx
    | _ => trivial
  | writeYaml created =>
    cases c with
    | create name path cfg now =>
      intro x hx
      cases hx
      simp only [next, HasYaml, loadYaml, readFile_write, if_true]
    | _ => trivial
  | load =>
    simp only [next]
    split
    · rename_i cfg hy
      intro x hx
      cases hx
      exact hy
    · trivial
  | alloc created cfg =>
    cases ha : allocate w.reg c.name (c.backend p cfg) c.now with
    | error e => simp only [next, ha]; trivial
    | ok x =>
      cases cfg with
      | none => simp only [next, ha]; exact hasRow_alloc ha
      | some cfg => simp only [next, ha]; exact ⟨hasRow_alloc ha, h cfg rfl⟩
  | extract o =>
    cases c with
    | restore name path archive force now =>
      simp only [next]
      split_ifs
      · exact h
      · exact h
    | _ => trivial
  | extracting o =>
    cases c with
    | restore name path archive force now =>
      simp only [next]
      split
      · exact h
      · exact h
    | _ => trivial
  | binder o =>
    simp only [next]
    split
    · split_ifs
      · trivial
      · exact h
    · trivial
  | layout o =>
    cases c with
    | restore name path archive force now =>
      simp only [next]
      split
      · rename_i layout _
        split_ifs
        · exact h
        · cases hs : stealth w.reg name layout with
          | error e => trivial
          | ok reg => exact hasRow_stealth (c := .restore name path archive force now) h hs
      · trivial
    | _ => trivial
  | reload o =>
    simp only [next]
    split
    · rename_i cfg hy; exact ⟨h, hy⟩
    · trivial
  | resolve o cfg =>
    simp only [next]
    split
    · rename_i ports hr; exact ⟨h.1, h.2, hr⟩
    · trivial
  | list o cfg ports => exact h
  | scan o cfg ports pending others =>
    cases pending with
    | nil =>
      simp only [next]
      split_ifs
      · exact h
      · trivial
    | cons e pending =>
      simp only [next]
      split
      · exact h
      · exact h
      · trivial
  | stage o cfg ports =>
    simp only [next]
    split
    · trivial
    · split
      · rename_i hs
        obtain ⟨m, resolved, -, -, hreg, -⟩ := stageLocal_ok hs
        exact ⟨hasRow_congr (by rw [hreg]) h.1, hasYaml_congr (readYaml_stageLocal hs _) h.2.1, h.2.2⟩
      · trivial
  | done o cfg ports => exact h
  | _ =>
    simp only [next]
    repeat' split
    all_goals trivial

end Local

/-! ## What a scan covers -/

/-- the row and the ports of a call that has read the registry for its scan -/
def listed : Pc T → Option (Own × List ResolvedPort)
  | .scan o _ ports _ _ | .stage o _ ports | .done o _ ports => some (o, ports)
  | _ => none

/-- a scan covers call `c`, with row `o` and ports `qs`: it has yet to read the file of its row, or has its ports among the
siblings' ports, or has compared them -/
def Covers (p : Paths) (c : Call T) (o : Own) (qs : List ResolvedPort) : Pc T → Prop
  | .scan _ _ _ pending others =>
    (∃ m, (c.name, m) ∈ pending ∧ m.index = o.index ∧ m.backend.absolutePath = some (p.str (c.target p))) ∨
      (c.name, qs.map (·.host)) ∈ others
  | .stage _ _ ports | .done _ _ ports => ∀ rp ∈ ports, rp.host ∉ qs.map (·.host)
  | _ => False

section Scan

variable {c d : Call T} {w : World T} {o : Own} {cfg : InstanceConfig} {qs : List ResolvedPort}

/-- a fresh scan covers every call that has its row -/
theorem covers_list {o' : Own} {cfg' : InstanceConfig} {ports : List ResolvedPort} (hrow : HasRow p d w o) :
    Covers p d o qs (next p c w (.list o' cfg' ports)).2 := by
  obtain ⟨m, hm, hi, hp⟩ := hrow
  exact Or.inl ⟨m, Dict.get?_eq_some.1 hm, hi, hp⟩

/-- reading the file of a covered row collects exactly the ports of its call -/
theorem covers_scan {o' : Own} {cfg' : InstanceConfig} {ports : List ResolvedPort}
    {pending : List (String × InstanceMeta T)} {others : List (String × List Int)} (hne : d.name ≠ c.name)
    (hyaml : HasYaml p d w cfg) (hres : resolvePorts o.index cfg.ports = .ok qs)
    (h : Covers p d o qs (.scan o' cfg' ports pending others))
    (hl : (listed (next p c w (.scan o' cfg' ports pending others)).2).isSome) :
    Covers p d o qs (next p c w (.scan o' cfg' ports pending others)).2 := by
  cases pending with
  | nil =>
    rcases h with ⟨m, hm, -⟩ | ho
    · exact absurd hm List.not_mem_nil
    · simp only [next] at hl ⊢
      split_ifs at hl ⊢ with hc
      · intro rp hrp
        have hnone := findPortCollision_none.1 (Option.isNone_iff_eq_none.1 hc) rp hrp
        exact hnone _ (List.mem_filter.2 ⟨ho, by simpa using hne⟩)
      · cases hl
  | cons e pending =>
    obtain ⟨n, m'⟩ := e
    -- the head row is the covered one, or the covered one is still to come
    have key : (n = d.name ∧ m'.index = o.index ∧ m'.backend.absolutePath = some (p.str (d.target p))) ∨
        Covers p d o qs (.scan o' cfg' ports pending others) := by
      rcases h with ⟨m, hm, hi, hp⟩ | ho
      · rcases List.mem_cons.1 hm with hm | hm
        · cases hm; exact Or.inl ⟨rfl, hi, hp⟩
        · exact Or.inr (Or.inl ⟨m, hm, hi, hp⟩)
      · exact Or.inr (Or.inr ho)
    rcases key with ⟨rfl, hi, hp⟩ | hcov
    · have hr : rowHostPorts w.fs p m' = .ok (some (qs.map (·.host))) := by
        refine rowHostPorts_resolved hp ?_ (by rw [hi]; exact hres)
        rw [Call.target, p.resolve_str]; exact hyaml
      simp only [next, hr]
      exact Or.inr (List.mem_append_right _ List.mem_cons_self)
    · simp only [next] at hl ⊢
      split at hl
      · rename_i hosts hr
        rcases hcov with hm | ho
        · exact Or.inl hm
        · exact Or.inr (List.mem_append_left _ ho)
      · exact hcov
      · cases hl

/-- a step keeps the row and the ports of a call that has listed, and only the listing itself makes a call listed -/
theorem listed_next {pc : Pc T} {o' : Own} {ports : List ResolvedPort} (h : listed (next p c w pc).2 = some (o', ports)) :
    listed pc = some (o', ports) ∨ ∃ cfg, pc = .list o' cfg ports := by
  cases pc with
  | list o cfg qs => cases h; exact Or.inr ⟨cfg, rfl⟩
  | scan o cfg qs pending others =>
    left
    cases pending with
    | nil =>
      simp only [next] at h
      split_ifs at h
      · exact h
      · cases h
    | cons e pending =>
      simp only [next] at h
      split at h
      · exact h
      · exact h
      · cases h
  | stage o cfg qs =>
    left
    simp only [next] at h
    split at h
    · cases h
    · split at h
      · exact h
      · cases h
  | done o cfg qs => exact Or.inl h
  | _ =>
    simp only [next] at h
    repeat' split at h
    all_goals cases h

/-- a covered call stays covered -/
theorem covers_next {pc : Pc T} (hne : d.name ≠ c.name) (hyaml : HasYaml p d w cfg)
    (hres : resolvePorts o.index cfg.ports = .ok qs) (h : Covers p d o qs pc)
    (hl : (listed (next p c w pc).2).isSome) : Covers p d o qs (next p c w pc).2 := by
  cases pc with
  | scan o' cfg' ports pending others => exact covers_scan hne hyaml hres h hl
  | stage o' cfg' ports =>
    simp only [next] at hl ⊢
    split at hl
    · cases hl
    · split at hl
      · exact h
      · cases hl
  | done o' cfg' ports => exact h
  | _ => exact h.elim

end Scan

/-! ## The invariant -/

section Runs

variable {calls : ι → Call T}

/-- of two calls that have both read the registry, one covers the other -/
structure Inv (p : Paths) (calls : ι → Call T) (s : St T ι) : Prop where
  owned : ∀ i, Owned p (calls i) s.world (s.pc i)
  covered : ∀ i j, i ≠ j → ∀ oi ps oj qs, listed (s.pc i) = some (oi, ps) → listed (s.pc j) = some (oj, qs) →
    Covers p (calls j) oj qs (s.pc i) ∨ Covers p (calls i) oi ps (s.pc j)

theorem inv_start (p : Paths) (calls : ι → Call T) (w : World T) : Inv p calls (start w) :=
  ⟨fun _ => trivial, fun _ _ _ _ _ _ _ h => by cases h⟩

/-- what a listed call has -/
theorem Inv.listed_owned {s : St T ι} (h : Inv p calls s) {j : ι} {o : Own} {qs : List ResolvedPort}
    (hl : listed (s.pc j) = some (o, qs)) :
    HasRow p (calls j) s.world o ∧ ∃ cfg, HasYaml p (calls j) s.world cfg ∧ resolvePorts o.index cfg.ports = .ok qs := by
  have hj := h.owned j
  revert hl hj
  cases s.pc j with
  | scan o' cfg ports pending others => intro hl hj; cases hl; exact ⟨hj.1, cfg, hj.2⟩
  | stage o' cfg ports => intro hl hj; cases hl; exact ⟨hj.1, cfg, hj.2⟩
  | done o' cfg ports => intro hl hj; cases hl; exact ⟨hj.1, cfg, hj.2⟩
  | _ => intro hl; cases hl

variable [DecidableEq ι]

/-- a call about to remove its directory tree does not remove the `beetroot.yaml` of another call that has its config -/
def Spares (p : Paths) (calls : ι → Call T) (s : St T ι) (a : ι × Bool) : Prop :=
  removesTree (s.pc a.1) = true → ∀ j, j ≠ a.1 → hasConfig (s.pc j) = true →
    ¬ (calls a.1).target p <+: instanceYaml ((calls j).target p)

instance [Fintype ι] (s : St T ι) (a : ι × Bool) : Decidable (Spares p calls s a) := by
  unfold Spares; infer_instance

/-- directories of which none lies inside another are spared in every run -/
theorem always_spares (hdirs : ∀ i j, i ≠ j → ¬ (calls i).target p <+: instanceYaml ((calls j).target p)) (w : World T)
    (sched : List (ι × Bool)) : Always (step p calls) (Spares p calls) (start w) sched :=
  always_of_inv (I := fun _ => True) (fun _ _ _ => trivial) (fun _ _ _ _ j hj _ => hdirs _ j (Ne.symm hj)) trivial sched

theorem listed_raises {pc : Pc T} {o : Own} {ports : List ResolvedPort} (h : listed pc.raises = some (o, ports)) :
    pc.raises = pc := by
  cases pc <;> first | rfl | cases h

theorem inv_raise {s : St T ι} (h : Inv p calls s) (i : ι) : Inv p calls (step p calls s (i, true)) := by
  have hsame : ∀ j o ports, listed ((step p calls s (i, true)).pc j) = some (o, ports) →
      (step p calls s (i, true)).pc j = s.pc j := by
    intro j o ports hl
    simp only [step, if_true] at hl ⊢
    by_cases hj : j = i
    · subst hj; rw [Function.update_self] at hl ⊢; exact listed_raises hl
    · rw [Function.update_of_ne hj]
  refine ⟨fun j => ?_, fun j k hjk oj ps ok qs hj hk => ?_⟩
  · simp only [step, if_true]
    by_cases hj : j = i
    · subst hj; rw [Function.update_self]; exact owned_raises (h.owned j)
    · rw [Function.update_of_ne hj]; exact h.owned j
  · have ej := hsame j oj ps hj
    have ek := hsame k ok qs hk
    rw [ej] at hj ⊢; rw [ek] at hk ⊢
    exact h.covered j k hjk oj ps ok qs hj hk

/-- a step of call `i` that does not raise; `hnames` and `hdirs` keep the calls out of each other's rows and files -/
theorem inv_next (hnames : ∀ i j, i ≠ j → (calls i).name ≠ (calls j).name)
    (hdirs : ∀ i j, i ≠ j → (calls i).target p ≠ (calls j).target p) {s : St T ι} (h : Inv p calls s) (i : ι)
    (hc : Spares p calls s (i, false)) : Inv p calls (step p calls s (i, false)) := by
  have hpc : ∀ j, j ≠ i → (step p calls s (i, false)).pc j = s.pc j := by
    intro j hj; simp [step, hj]
  have hpci : (step p calls s (i, false)).pc i = (next p (calls i) s.world (s.pc i)).2 := by simp [step]
  -- the pairs in which call `i` takes part
  have hpair : ∀ j, j ≠ i → ∀ oi ps oj qs, listed (next p (calls i) s.world (s.pc i)).2 = some (oi, ps) →
      listed (s.pc j) = some (oj, qs) →
      Covers p (calls j) oj qs (next p (calls i) s.world (s.pc i)).2 ∨ Covers p (calls i) oi ps (s.pc j) := by
    intro j hj oi ps oj qs hli hlj
    obtain ⟨hrow, cfg, hyaml, hres⟩ := h.listed_owned hlj
    rcases listed_next hli with hold | ⟨cfg', hlist⟩
    · rcases h.covered i j (Ne.symm hj) oi ps oj qs hold hlj with hcov | hcov
      · exact Or.inl (covers_next (hnames j i hj) hyaml hres hcov (by rw [hli]; rfl))
      · exact Or.inr hcov
    · rw [hlist]; exact Or.inl (covers_list hrow)
  refine ⟨fun j => ?_, fun j k hjk oj ps ok qs hj hk => ?_⟩
  · by_cases hj : j = i
    · subst hj; rw [hpci]; exact owned_next (h.owned j)
    · rw [hpc j hj]
      refine owned_frame (h.owned j) (next_get? (hnames j i hj)) fun hcfg => next_readYaml (hdirs j i hj) ?_
      intro hrm
      refine hc ?_ j hj hcfg
      rcases hrm with hrm | hrm
      · rw [hrm]; rfl
      · rw [hrm]; rfl
  · by_cases hji : j = i
    · subst hji
      rw [hpci] at hj ⊢; rw [hpc k (Ne.symm hjk)] at hk ⊢
      exact hpair k (Ne.symm hjk) oj ps ok qs hj hk
    · rw [hpc j hji] at hj ⊢
      by_cases hki : k = i
      · subst hki
        rw [hpci] at hk ⊢
        exact (hpair j hji ok qs oj ps hk hj).symm
      · rw [hpc k hki] at hk ⊢
        exact h.covered j k hjk oj ps ok qs hj hk

theorem step_inv (hnames : ∀ i j, i ≠ j → (calls i).name ≠ (calls j).name)
    (hdirs : ∀ i j, i ≠ j → (calls i).target p ≠ (calls j).target p) {s : St T ι} (h : Inv p calls s) (a : ι × Bool)
    (hc : Spares p calls s a) : Inv p calls (step p calls s a) := by
  obtain ⟨i, fault⟩ := a
  cases fault with
  | false => exact inv_next hnames hdirs h i hc
  | true => exact inv_raise h i

end Runs

/-! ## Runs -/

/-- two `create` calls with default configs in two directories -/
def pair (i : Bool) : Call ℕ := .create (if i then "alpha" else "bravo") (if i then "/srv/x" else "/srv/y") .plain 0

/-- the two calls take turns -/
def turns : List (Bool × Bool) := (List.replicate 13 [(true, false), (false, false)]).flatten

/-- adb pinned to host port 7000, nothing else published -/
def pinned : InstanceConfig := .pinned 7000 (by decide)

/-- adb pinned to the frida default of index 0: a valid config whose resolution at index 0 raises -/
def selfColliding : InstanceConfig where
  ports := [.adb 27042 frida_range, .auto "frida" 27042 frida_range]

/-- three `create` calls; the second directory lies inside the first -/
def nested : Fin 3 → Call ℕ
  | 0 => .create "alpha" "/srv/x" selfColliding 0
  | 1 => .create "bravo" "/srv/x/sub" pinned 0
  | 2 => .create "charlie" "/srv/y" pinned 0

/-- both overlap checks; `alpha` gets its row, `bravo` registers; `alpha` fails and rolls back; `charlie` registers -/
def nestedSchedule : List (Fin 3 × Bool) :=
  List.replicate 3 (0, false) ++ List.replicate 3 (1, false) ++ List.replicate 4 (0, false) ++
    List.replicate 10 (1, false) ++ List.replicate 3 (0, false) ++ List.replicate 13 (2, false)

end Beetroot.Registration.PortRace
