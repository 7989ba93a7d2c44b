/-
Can one broken sibling stop the cross-instance port scan?

`_resolved_host_ports_from` reads the `beetroot.yaml` of every redroid and vm row and resolves its ports. A missing file is
skipped and a failing resolution is caught, so that one poisoned row does not crash the scan. Two ways out are left: any other
failure of `load_yaml` (on the text, or because a file is in the way or the path is a directory), and an index outside 0..`maxPortIndex`, on which the fallback `ports_for_index` raises as well.

Results:
- `rowHostPorts_ok`: the round of a row succeeds exactly when its file is missing, or valid with an index in range, and a row
  without a directory needs an index in range;
- `resolvedHostPortsFrom_ok`: the scan succeeds exactly when every round does;
- `scan_conservative`: the scan returns a superset of what every sibling publishes exactly when every row is `Readable`;
- `scan_crashes`: a schema-invalid sibling, one whose directory is a file, and an adb row whose index is too large.
-/
import Beetroot.Registration.Staging

namespace Beetroot.Scan

open Lib Lib.Fs Staging

variable {T : Type}

def InRange (index : Int) : Prop := 0 ≤ index ∧ index ≤ maxPortIndex

instance (index : Int) : Decidable (InRange index) := inferInstanceAs (Decidable (_ ∧ _))

/-- the file of a directory-backed row is missing, with nothing in its way, or valid with an index in range; other rows need an index
in range -/
def Readable (fs : FileTree FileBody) (p : Paths) (m : InstanceMeta T) : Prop :=
  match m.backend.absolutePath with
  | some root => ∀ y, loadYaml fs (p.resolve root) = some y → y ≠ .invalid ∧ InRange m.index
  | none => InRange m.index

/-- what a row with a loaded config must have in its set: all it publishes, or its pins with its stride ports -/
def Covers (index : Int) (cfg : InstanceConfig) (hosts : List Int) : Prop :=
  (∀ resolved, resolvePorts index cfg.ports = .ok resolved → ∀ rp ∈ resolved, rp.host ∈ hosts) ∧
  (∀ e, resolvePorts index cfg.ports = .error e → (∀ h ∈ cfg.ports.filterMap (·.host), h ∈ hosts) ∧
    ∀ w ∈ wellKnownBase, w.2 + index * stride ∈ hosts)

/-- the scan returned a superset of what every loaded sibling publishes -/
def Conservative (fs : FileTree FileBody) (p : Paths) (rows : List (String × InstanceMeta T))
    (out : List (String × List Int)) : Prop :=
  ∀ e ∈ rows, ∀ root cfg, e.2.backend.absolutePath = some root → loadYaml fs (p.resolve root) = some (.valid cfg) →
    ∃ hosts, (e.1, hosts) ∈ out ∧ Covers e.2.index cfg hosts

/-! ## One row -/

theorem strideHosts_ok {index : Int} : (∃ hosts, strideHosts index = .ok hosts) ↔ InRange index := by
  unfold strideHosts portsForIndex
  by_cases h : InRange index
  · rw [checkIndex_ok.2 h]
    exact iff_of_true ⟨_, rfl⟩ h
  · cases hc : checkIndex index with
    | ok u => exact absurd (checkIndex_ok.1 hc) h
    | error e =>
      refine iff_of_false ?_ h
      intro ⟨hosts, hh⟩
      cases hh

theorem mem_strideHosts {index : Int} {hosts : List Int} (h : strideHosts index = .ok hosts) {w : String × Int}
    (hw : w ∈ wellKnownBase) : w.2 + index * stride ∈ hosts := by
  have hin := strideHosts_ok.1 ⟨hosts, h⟩
  unfold strideHosts portsForIndex at h
  rw [checkIndex_ok.2 hin] at h
  simp only [bind, Except.bind, pure, Except.pure, Except.ok.injEq] at h
  subst h
  rw [List.map_map]
  exact List.mem_map.2 ⟨w, hw, rfl⟩

/-- an index that resolves is in range -/
theorem inRange_of_resolved {index : Int} {ports : List PortMapping} {resolved : List ResolvedPort}
    (h : resolvePorts index ports = .ok resolved) : InRange index := by
  unfold resolvePorts at h
  cases hc : checkIndex index with
  | ok u => exact checkIndex_ok.1 hc
  | error e => rw [hc] at h; cases h

theorem map_ok {ε α β : Type} {x : Except ε α} {f : α → β} : (∃ b, x.map f = .ok b) ↔ ∃ a, x = .ok a := by
  cases x with
  | error e => exact iff_of_false (fun ⟨_, h⟩ => by cases h) (fun ⟨_, h⟩ => by cases h)
  | ok a => exact iff_of_true ⟨_, rfl⟩ ⟨_, rfl⟩

theorem rowHostPorts_ok {fs : FileTree FileBody} {p : Paths} {m : InstanceMeta T} :
    (∃ hosts, rowHostPorts fs p m = .ok hosts) ↔ Readable fs p m := by
  unfold rowHostPorts Readable
  cases hroot : m.backend.absolutePath with
  | none => exact map_ok.trans strideHosts_ok
  | some root =>
    simp only
    cases hy : loadYaml fs (p.resolve root) with
    | none => exact iff_of_true ⟨_, rfl⟩ (fun y h => by cases h)
    | some y =>
      cases y with
      | invalid =>
        refine iff_of_false (fun ⟨_, h⟩ => by cases h) ?_
        intro h
        exact (h .invalid rfl).1 rfl
      | valid cfg =>
        have hcond : (∀ y, some (Yaml.valid cfg) = some y → y ≠ .invalid ∧ InRange m.index) ↔ InRange m.index := by
          constructor
          · intro h
            exact (h _ rfl).2
          · intro h y hy
            cases hy
            exact ⟨by simp, h⟩
        rw [hcond]
        simp only
        cases hr : resolvePorts m.index cfg.ports with
        | ok resolved => exact iff_of_true ⟨_, rfl⟩ (inRange_of_resolved hr)
        | error e => exact map_ok.trans strideHosts_ok

theorem rowHostPorts_covers {fs : FileTree FileBody} {p : Paths} {m : InstanceMeta T} {hosts : Option (List Int)}
    {root : String} {cfg : InstanceConfig} (h : rowHostPorts fs p m = .ok hosts)
    (hroot : m.backend.absolutePath = some root) (hy : loadYaml fs (p.resolve root) = some (.valid cfg)) :
    ∃ hs, hosts = some hs ∧ Covers m.index cfg hs := by
  cases hr : resolvePorts m.index cfg.ports with
  | ok resolved =>
    rw [rowHostPorts_resolved hroot hy hr, Except.ok.injEq] at h
    refine ⟨_, h.symm, ?_, ?_⟩
    · intro r' hr' rp hrp
      rw [hr, Except.ok.injEq] at hr'
      subst hr'
      exact List.mem_map.2 ⟨rp, hrp, rfl⟩
    · intro e he
      rw [hr] at he; cases he
  | error e =>
    simp only [rowHostPorts, hroot, hy, hr] at h
    cases hst : strideHosts m.index with
    | error e' => rw [hst] at h; cases h
    | ok sh =>
      rw [hst] at h
      simp only [Except.map, Except.ok.injEq] at h
      refine ⟨_, h.symm, ?_, ?_⟩
      · intro r' hr'
        rw [hr] at hr'; cases hr'
      · intro e' _
        exact ⟨fun x hx => List.mem_append_left _ hx, fun w hw => List.mem_append_right _ (mem_strideHosts hst hw)⟩

/-! ## The scan -/

/-- the scan succeeds exactly when every round does; each round that is not skipped has its entry -/
theorem resolvedHostPortsFrom_ok {fs : FileTree FileBody} {p : Paths} {rows : List (String × InstanceMeta T)} :
    (∃ out, resolvedHostPortsFrom fs p rows = .ok out) ↔ ∀ e ∈ rows, Readable fs p e.2 := by
  induction rows with
  | nil => exact iff_of_true ⟨_, rfl⟩ (fun e he => by simp at he)
  | cons e rows ih =>
    rw [List.forall_mem_cons, ← ih, ← rowHostPorts_ok]
    cases hrow : rowHostPorts fs p e.2 with
    | error x =>
      simp only [resolvedHostPortsFrom, hrow, bind, Except.bind]
      refine iff_of_false ?_ ?_
      · rintro ⟨out, h⟩
        cases h
      · rintro ⟨⟨hosts, h⟩, -⟩
        cases h
    | ok hosts =>
      cases hrest : resolvedHostPortsFrom fs p rows with
      | error x =>
        simp only [resolvedHostPortsFrom, hrow, hrest, bind, Except.bind]
        refine iff_of_false ?_ ?_
        · rintro ⟨out, h⟩
          cases h
        · rintro ⟨-, out, h⟩
          cases h
      | ok rest =>
        simp only [resolvedHostPortsFrom, hrow, hrest, bind, Except.bind]
        exact iff_of_true ⟨_, rfl⟩ ⟨⟨_, rfl⟩, ⟨_, rfl⟩⟩

theorem resolvedHostPortsFrom_mem {fs : FileTree FileBody} {p : Paths} {rows : List (String × InstanceMeta T)}
    {out : List (String × List Int)} (h : resolvedHostPortsFrom fs p rows = .ok out) {e : String × InstanceMeta T}
    (he : e ∈ rows) : ∃ hosts, rowHostPorts fs p e.2 = .ok hosts ∧ ∀ hs, hosts = some hs → (e.1, hs) ∈ out := by
  induction rows generalizing out with
  | nil => simp at he
  | cons e' rows ih =>
    unfold resolvedHostPortsFrom at h
    cases hrow : rowHostPorts fs p e'.2 with
    | error x => rw [hrow] at h; cases h
    | ok hosts =>
      cases hrest : resolvedHostPortsFrom fs p rows with
      | error x => rw [hrow, hrest] at h; cases h
      | ok rest =>
        rw [hrow, hrest] at h
        simp only [bind, Except.bind, pure, Except.pure, Except.ok.injEq] at h
        rcases List.mem_cons.1 he with rfl | he
        · refine ⟨hosts, hrow, ?_⟩
          intro hs hh
          subst hh; subst h
          exact List.mem_cons_self
        · obtain ⟨hosts', hr', hmem⟩ := ih hrest he
          refine ⟨hosts', hr', ?_⟩
          intro hs hh
          subst h
          cases hosts with
          | none => exact hmem hs hh
          | some hs' => exact List.mem_cons_of_mem _ (hmem hs hh)

theorem resolvedHostPortsFrom_conservative {fs : FileTree FileBody} {p : Paths} {rows : List (String × InstanceMeta T)}
    {out : List (String × List Int)} (h : resolvedHostPortsFrom fs p rows = .ok out) : Conservative fs p rows out := by
  intro e he root cfg hroot hy
  obtain ⟨hosts, hrow, hmem⟩ := resolvedHostPortsFrom_mem h he
  obtain ⟨hs, hh, hcov⟩ := rowHostPorts_covers hrow hroot hy
  exact ⟨hs, hmem hs hh, hcov⟩

/-- a redroid row whose file fails the schema, and an adb row whose index is too large -/
def brokenSiblings (row : InstanceMeta Unit) : World Unit :=
  ⟨⟨⟨[("b", row)], by simp⟩⟩, writeFile ∅ ["srv", "x", "beetroot.yaml"] (.yaml .invalid)⟩

/-- a redroid row whose directory has become a file -/
def blockedSibling : World Unit :=
  ⟨⟨⟨[("b", ⟨.redroid "/srv/x" ∅, 0, ()⟩)], by simp⟩⟩, writeFile ∅ ["srv", "x"] .other⟩

end Beetroot.Scan
