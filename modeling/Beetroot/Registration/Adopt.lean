/-
Does adopting an adb device keep the reserved host ports apart?

`adopt` writes an adb row at the lowest free index. The row reserves the three stride ports of its index, and `AdbDevice`
forwards the frida one. Unlike `create`, `register`, `apply` and `restore`, it does not look for these ports in the siblings'
reserved sets, and a sibling may have pinned any of them.

`str.lower` enters as the parameter `lower`.

Results:
- `rowHostPorts_adopted`: what the new row reserves;
- `adopt_disjoint_iff`: after an `adopt` over disjoint reserved sets they are disjoint again if and only if no sibling
  reserves a stride port of the lowest free index;
- `adopted_pinned_port`: a pinned port of `alpha` that is reserved a second time.
-/
import Beetroot.Registration.Staging

namespace Beetroot.Adopt

open Lib Lib.Fs Registration Staging

variable {T : Type}

/-! ## `adopt` -/

/-- `re.sub(r"[^a-z0-9]+", "-", s)` -/
def hyphenate : List Char → List Char
  | [] => []
  | c :: cs =>
    if ('a' ≤ c && c ≤ 'z') || ('0' ≤ c && c ≤ '9') then c :: hyphenate cs
    else
      match hyphenate cs with
      | '-' :: rest => '-' :: rest
      | rest => '-' :: rest

def adoptDefaultName (lower : String → String) (serial : String) : String :=
  let candidate := ("adb-".toList ++ hyphenate (lower serial).toList).take 24
  let stripped := (candidate.reverse.dropWhile (· = '-')).reverse
  if stripped = [] then "adb-device" else String.ofList stripped

inductive AdoptError where
  | invalidName (name : String)
  | alreadyRegistered (name : String)
  | adbNotFound
  | notListed (serial : String)
  | registry (e : RegError)

/-- what `--verify` finds: adb is on PATH, and lists the serial as a device -/
structure Verify where
  adb : Bool
  listed : Bool

def adopt (lower : String → String) (w : World T) (serial : String) (name : Option String) (verify : Option Verify)
    (now : T) : Except AdoptError (Int × World T) :=
  let name := name.getD (adoptDefaultName lower serial)
  if !nameOk name then .error (.invalidName name)
  else if Registration.registered w name then .error (.alreadyRegistered name)
  else if verify.any fun v => !v.adb then .error .adbNotFound
  else if verify.any fun v => !v.listed then .error (.notListed serial)
  else
    match allocate w.reg name (.adb serial) now with
    | .error e => .error (.registry e)
    | .ok (index, reg) => .ok (index, { w with reg := reg })

/-- `AdbDevice.from_meta`: the host port that is forwarded to frida -/
def hostForwardPort (m : InstanceMeta T) : Option Int :=
  match portsForIndex m.index with
  | .ok ports => (ports.find? fun e => e.1 = "frida").map Prod.snd
  | .error _ => none

example : adoptDefaultName id "192.168.1.10:5555" = "adb-192-168-1-10-5555" := by decide

/-! ## Reserved sets -/

/-- the scan goes through, and no port is in the sets of two rows -/
def ReservedDisjoint (p : Paths) (w : World T) : Prop :=
  ∃ sets, resolvedHostPortsFrom w.fs p w.reg.instances.entries = .ok sets ∧
    ∀ a ∈ sets, ∀ b ∈ sets, a.1 ≠ b.1 → ∀ h ∈ a.2, h ∉ b.2

/-- no directory-backed row publishes a port that an adb row forwards -/
def ForwardsApart (p : Paths) (w : World T) : Prop :=
  ∀ e ∈ w.reg.instances.entries, ∀ serial, e.2.backend = .adb serial → ∀ h ∈ hostForwardPort e.2,
    ∀ f ∈ w.reg.instances.entries, f.2.backend.absolutePath.isSome → h ∉ reserved p w.fs f.2

/-- no row reserves a stride port of the lowest free index -/
def StrideFree (p : Paths) (w : World T) : Prop :=
  ∀ base ∈ wellKnownBase, ∀ e ∈ w.reg.instances.entries,
    base.2 + lowestFreeIndex w.reg.usedIndices * stride ∉ reserved p w.fs e.2

instance (p : Paths) (w : World T) : Decidable (StrideFree p w) := by unfold StrideFree; infer_instance

section Scan

variable {p : Paths} {fs : FileTree FileBody} {rows : List (String × InstanceMeta T)} {sets : List (String × List Int)}

theorem resolvedHostPortsFrom_append {e : String × InstanceMeta T} {hosts : List Int}
    (h : resolvedHostPortsFrom fs p rows = .ok sets) (he : rowHostPorts fs p e.2 = .ok (some hosts)) :
    resolvedHostPortsFrom fs p (rows ++ [e]) = .ok (sets ++ [(e.1, hosts)]) := by
  induction rows generalizing sets with
  | nil =>
    cases h
    simp only [List.nil_append, resolvedHostPortsFrom, he]
    rfl
  | cons x rows ih =>
    simp only [resolvedHostPortsFrom] at h
    cases hx : rowHostPorts fs p x.2 with
    | error _ => rw [hx] at h; cases h
    | ok found =>
      cases hrest : resolvedHostPortsFrom fs p rows with
      | error _ => rw [hx, hrest] at h; cases h
      | ok rest =>
        rw [hx, hrest] at h
        simp only [List.cons_append, resolvedHostPortsFrom, hx, ih hrest]
        cases found <;> cases h <;> rfl

/-- a set of the scan belongs to a row -/
theorem mem_resolvedHostPortsFrom (h : resolvedHostPortsFrom fs p rows = .ok sets) {x : String × List Int} (hx : x ∈ sets) :
    ∃ e ∈ rows, e.1 = x.1 ∧ rowHostPorts fs p e.2 = .ok (some x.2) := by
  induction rows generalizing sets with
  | nil => cases h; exact absurd hx List.not_mem_nil
  | cons y rows ih =>
    simp only [resolvedHostPortsFrom] at h
    cases hy : rowHostPorts fs p y.2 with
    | error _ => rw [hy] at h; cases h
    | ok found =>
      cases hrest : resolvedHostPortsFrom fs p rows with
      | error _ => rw [hy, hrest] at h; cases h
      | ok rest =>
        rw [hy, hrest] at h
        have hlater : x ∈ rest → ∃ e ∈ y :: rows, e.1 = x.1 ∧ rowHostPorts fs p e.2 = .ok (some x.2) := by
          intro hm
          obtain ⟨e, he, h1, h2⟩ := ih hrest hm
          exact ⟨e, List.mem_cons_of_mem _ he, h1, h2⟩
        cases found with
        | none => cases h; exact hlater hx
        | some hosts =>
          cases h
          rcases List.mem_cons.1 hx with rfl | hx
          · exact ⟨y, List.mem_cons_self, rfl, hy⟩
          · exact hlater hx

end Scan

section Adopted

variable {p : Paths} {w w' : World T}

/-- the new row reserves the stride ports of its index -/
theorem rowHostPorts_adopted (fs : FileTree FileBody) (p : Paths) {index : Int} (hi : checkIndex index = .ok ())
    (serial : String) (now : T) :
    rowHostPorts fs p ⟨.adb serial, index, now⟩ = .ok (some (wellKnownBase.map fun e => e.2 + index * stride)) := by
  simp only [rowHostPorts, BackendConfig.absolutePath, strideHosts, portsForIndex, hi]
  rfl

/-- everything a successful `adopt` does -/
theorem adopt_ok {lower : String → String} {serial : String} {name : Option String} {verify : Option Verify} {now : T}
    {index : Int} (h : adopt lower w serial name verify now = .ok (index, w')) :
    ∃ n, n ∉ w.reg.instances.keys ∧ index = lowestFreeIndex w.reg.usedIndices ∧ checkIndex index = .ok () ∧
      w' = ⟨⟨w.reg.instances.set n ⟨.adb serial, index, now⟩⟩, w.fs⟩ := by
  unfold adopt at h
  simp only at h
  split_ifs at h
  split at h
  · cases h
  · rename_i i reg ha
    obtain ⟨hn, rfl, hc, rfl⟩ := allocate_ok ha
    cases h
    exact ⟨_, hn, rfl, hc, rfl⟩

theorem reserved_of_row {m : InstanceMeta T} {hosts : List Int} (h : rowHostPorts w.fs p m = .ok (some hosts)) :
    reserved p w.fs m = hosts := by
  unfold reserved
  rw [h]

/-- a forwarded port is one of the row's stride ports, and these are apart from the ports of the others -/
theorem forwardsApart_of_disjoint (h : ReservedDisjoint p w) : ForwardsApart p w := by
  obtain ⟨sets, hscan, hdisj⟩ := h
  intro e he serial hb port hport f hf hdir hmem
  -- the adb row is in the scan, with its stride ports
  have hrow : ∃ hosts, rowHostPorts w.fs p e.2 = .ok (some hosts) ∧ port ∈ hosts := by
    unfold hostForwardPort at hport
    cases hp : portsForIndex e.2.index with
    | error x => rw [hp] at hport; cases hport
    | ok ports =>
      rw [hp] at hport
      obtain ⟨x, hx, rfl⟩ := Option.map_eq_some_iff.1 hport
      refine ⟨ports.map Prod.snd, ?_, List.mem_map_of_mem (List.mem_of_find?_eq_some hx)⟩
      simp only [rowHostPorts, hb, BackendConfig.absolutePath, strideHosts, hp]
      rfl
  obtain ⟨hosts, hrow, hin⟩ := hrow
  unfold reserved at hmem
  split at hmem
  · rename_i others hothers
    refine hdisj _ (resolvedHostPortsFrom_mem hscan he hrow) _ (resolvedHostPortsFrom_mem hscan hf hothers) ?_ port hin hmem
    -- one name is one row, and the rows have different backends
    intro hname
    have hsame : e.2 = f.2 := Dict.eq_of_mem _ he (by rw [show e.1 = f.1 from hname]; exact hf)
    rw [← hsame, hb] at hdir
    cases hdir
  · exact absurd hmem List.not_mem_nil

end Adopted

/-- Over any registry and files whose reserved sets are pairwise disjoint: after an `adopt` that succeeds they are pairwise
disjoint, and no forwarded frida port is published by a directory-backed instance, if and only if no registered row reserves a
stride port of the lowest free index. -/
theorem adopt_disjoint_iff (lower : String → String) (p : Paths) (w w' : World T) (serial : String) (name : Option String)
    (verify : Option Verify) (now : T) (index : Int) (hd : ReservedDisjoint p w)
    (h : adopt lower w serial name verify now = .ok (index, w')) :
    ReservedDisjoint p w' ∧ ForwardsApart p w' ↔ StrideFree p w := by
  obtain ⟨n, hn, hidx, hc, rfl⟩ := adopt_ok h
  obtain ⟨sets, hscan, hdisj⟩ := hd
  have hnew := rowHostPorts_adopted w.fs p hc serial now
  have hrows := Dict.entries_set_new (⟨.adb serial, index, now⟩ : InstanceMeta T) hn
  have hscan' : resolvedHostPortsFrom w.fs p (w.reg.instances.set n ⟨.adb serial, index, now⟩).entries =
      .ok (sets ++ [(n, wellKnownBase.map fun e => e.2 + index * stride)]) := by
    rw [hrows]
    exact resolvedHostPortsFrom_append hscan hnew
  -- the old sets carry old names
  have hold : ∀ x ∈ sets, x.1 ≠ n ∧ ∃ e ∈ w.reg.instances.entries, reserved p w.fs e.2 = x.2 := by
    intro x hx
    obtain ⟨e, he, hname, hrow⟩ := mem_resolvedHostPortsFrom hscan hx
    refine ⟨?_, e, he, reserved_of_row hrow⟩
    rintro rfl
    exact hn (hname ▸ Dict.mem_keys_of_mem he)
  constructor
  · rintro ⟨⟨sets', hs', hd'⟩, -⟩ base hbase e he hmem
    have hsets : sets' = sets ++ [(n, wellKnownBase.map fun e => e.2 + index * stride)] :=
      Except.ok.inj (hs'.symm.trans hscan')
    subst hsets
    unfold reserved at hmem
    split at hmem
    · rename_i hosts hhosts
      have hin := resolvedHostPortsFrom_mem hscan he hhosts
      refine hd' _ (List.mem_append_left _ hin) _ (List.mem_append_right _ (List.mem_singleton_self _)) (hold _ hin).1 _ hmem ?_
      rw [← hidx]
      exact List.mem_map_of_mem hbase
    · exact absurd hmem List.not_mem_nil
  · intro hfree
    have hapart : ∀ x ∈ sets, ∀ port ∈ wellKnownBase.map (fun e => e.2 + index * stride), port ∉ x.2 := by
      intro x hx port hport hmem
      obtain ⟨base, hbase, rfl⟩ := List.mem_map.1 hport
      obtain ⟨-, e, he, hr⟩ := hold x hx
      refine hfree base hbase e he ?_
      rw [hr, ← hidx]
      exact hmem
    have hdisj' : ReservedDisjoint p ⟨⟨w.reg.instances.set n ⟨.adb serial, index, now⟩⟩, w.fs⟩ := by
      refine ⟨_, hscan', fun a ha b hb hne port hpa hpb => ?_⟩
      rcases List.mem_append.1 ha with ha | ha <;> rcases List.mem_append.1 hb with hb | hb
      · exact hdisj a ha b hb hne port hpa hpb
      · rw [List.mem_singleton.1 hb] at hpb
        exact hapart a ha port hpb hpa
      · rw [List.mem_singleton.1 ha] at hpa
        exact hapart b hb port hpa hpb
      · exact hne (by rw [List.mem_singleton.1 ha, List.mem_singleton.1 hb])
    exact ⟨hdisj', forwardsApart_of_disjoint hdisj'⟩

/-- the world with one instance -/
def withAlpha (cfg : InstanceConfig) : World ℕ := Staging.create Paths.sample ⟨∅, ∅⟩ "alpha" "/srv/x" cfg 0

/-- and with an emulator adopted next to it -/
def adopted (cfg : InstanceConfig) : World ℕ :=
  ⟨⟨(withAlpha cfg).reg.instances.set "adb-emulator-5554" ⟨.adb "emulator-5554", 1, 0⟩⟩, (withAlpha cfg).fs⟩

theorem adopt_disjoint_default :
    ReservedDisjoint Paths.sample (adopted .plain) ∧ ForwardsApart Paths.sample (adopted .plain) :=
  (adopt_disjoint_iff id Paths.sample (withAlpha .plain) (adopted .plain) "emulator-5554" none none 0 1
    ⟨[("alpha", [5555, 27042, 27043])], rfl, by decide⟩ rfl).2 (by decide)

/-- adb pinned to the adb port of index 1 -/
def pinned5565 : InstanceConfig := .pinned 5565 (by decide)

theorem adopted_pinned_port :
    ReservedDisjoint Paths.sample (withAlpha pinned5565) ∧
      (adopt id (withAlpha pinned5565) "emulator-5554" none none 0).toOption = some (1, adopted pinned5565) ∧
      ¬ ReservedDisjoint Paths.sample (adopted pinned5565) := by
  refine ⟨⟨[("alpha", [5565])], rfl, by decide⟩, rfl, ?_⟩
  rintro ⟨sets, hscan, hdisj⟩
  have hsets : sets = [("alpha", [5565]), ("adb-emulator-5554", [5565, 27052, 27053])] := (Except.ok.inj hscan).symm
  subst hsets
  exact absurd hdisj (by decide)

end Beetroot.Adopt
