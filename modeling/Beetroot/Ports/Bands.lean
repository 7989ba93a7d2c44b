/-
Where `resolve_ports` puts the host ports, and why the bands of two instances never meet.

`hostFor` says what the host port of one mapping is: a pinned host as it stands, the stride default of a well-known service,
or the extra-pool slot counted by the entries of that kind in front of it. It is compared with the allocation loop of
`resolve_ports`, whose slot counter runs along the list.

Results:
- `resolveLoop_eq`: the loop computes `hostFor` for every mapping, and fails exactly when an eleventh slot is asked for;
- `resolvePorts_eq_ok`: a resolution succeeds with a result exactly when the slots suffice, the hosts are distinct and the
  result is the allocation;
- `resolvePorts_correct`: success, shape and range of the result, and disjointness of the auto-allocated ports across
  indices and across bands.
-/
import Beetroot.Ports
import Mathlib.Data.List.Dedup
import Mathlib.Data.List.Infix
import Mathlib.Data.List.Forall2

namespace Beetroot.Bands

/-! ## Where a mapping goes -/

/-- not pinned and not of a well-known service: an entry that takes a slot of the extra pool -/
def isExtra (m : PortMapping) : Bool := m.host.isNone && (baseOf m.service).isNone

def extras (ports : List PortMapping) : ℕ := ports.countP isExtra

/-- the host port of a mapping that stands behind the entries `before` -/
def hostFor (index : Int) (before : List PortMapping) (m : PortMapping) : Int :=
  if let some h := m.host then h
  else if let some b := baseOf m.service then b + index * stride
  else extraPoolBase + index * stride + extras before

/-- every mapping with its host port, behind the entries `before` -/
def allocationAfter (index : Int) (before ports : List PortMapping) : List (PortMapping × Int) :=
  List.zipWith (fun front m => (m, hostFor index (before ++ front) m)) ports.inits ports

def allocation (index : Int) (ports : List PortMapping) : List (PortMapping × Int) := allocationAfter index [] ports

def hosts (index : Int) (ports : List PortMapping) : List Int := (allocation index ports).map Prod.snd

def ResolvedPort.ofPair (e : PortMapping × Int) : ResolvedPort := ⟨e.1.service, e.1.guest, e.2⟩

theorem hostFor_pinned {m : PortMapping} {h : Int} (hm : m.host = some h) (index : Int) (before : List PortMapping) :
    hostFor index before m = h := by
  simp [hostFor, hm]

theorem hostFor_stride {m : PortMapping} {b : Int} (hm : m.host = none) (hb : baseOf m.service = some b) (index : Int)
    (before : List PortMapping) : hostFor index before m = b + index * stride := by
  simp [hostFor, hm, hb]

theorem hostFor_extra {m : PortMapping} (hm : m.host = none) (hb : baseOf m.service = none) (index : Int)
    (before : List PortMapping) : hostFor index before m = extraPoolBase + index * stride + extras before := by
  simp [hostFor, hm, hb]

@[simp] theorem extras_nil : extras [] = 0 := rfl

theorem extras_append (before ports : List PortMapping) : extras (before ++ ports) = extras before + extras ports :=
  List.countP_append ..

theorem extras_cons (m : PortMapping) (ports : List PortMapping) :
    extras (m :: ports) = (if isExtra m then 1 else 0) + extras ports := by
  unfold extras
  rw [List.countP_cons, Nat.add_comm]

theorem allocationAfter_cons (index : Int) (before : List PortMapping) (m : PortMapping) (ports : List PortMapping) :
    allocationAfter index before (m :: ports) =
      (m, hostFor index before m) :: allocationAfter index (before ++ [m]) ports := by
  simp [allocationAfter, List.zipWith_map_left]

/-! ## The loop -/

/-- the allocation loop hands out the allocation, unless it runs out of slots -/
theorem resolveLoop_eq (index : Int) (before ports : List PortMapping) (hb : (extras before : Int) ≤ stride) :
    resolveLoop index ports (extras before) =
      if (extras (before ++ ports) : Int) ≤ stride
      then .ok ((allocationAfter index before ports).map ResolvedPort.ofPair) else .error (.tooManyExtras index) := by
  -- the slot counter of the loop is the number of extra entries behind it
  induction ports generalizing before with
  | nil => simp [resolveLoop, hb, allocationAfter]
  | cons m ports ih =>
    have hsplit : before ++ m :: ports = before ++ [m] ++ ports := by simp
    rw [hsplit, allocationAfter_cons]
    unfold resolveLoop
    cases hm : m.host with
    | some h =>
      have hx : extras (before ++ [m]) = extras before := by simp [extras_append, extras_cons, isExtra, hm]
      have := ih (before ++ [m]) (by rw [hx]; exact hb)
      rw [hx] at this
      simp only [this, hostFor_pinned hm]
      split_ifs <;> rfl
    | none =>
      cases hs : baseOf m.service with
      | some b =>
        have hx : extras (before ++ [m]) = extras before := by simp [extras_append, extras_cons, isExtra, hs]
        have := ih (before ++ [m]) (by rw [hx]; exact hb)
        rw [hx] at this
        simp only [this, hostFor_stride hm hs]
        split_ifs <;> rfl
      | none =>
        have hx : extras (before ++ [m]) = extras before + 1 := by simp [extras_append, extras_cons, isExtra, hm, hs]
        have hle : extras before + 1 ≤ extras (before ++ [m] ++ ports) := by rw [extras_append _ ports, hx]; omega
        by_cases hfull : (extras before : Int) ≥ stride
        · have hno : ¬ (extras (before ++ [m] ++ ports) : Int) ≤ stride := by omega
          simp only [if_pos hfull, if_neg hno]
        · have := ih (before ++ [m]) (by rw [hx]; push_cast; omega)
          rw [hx] at this
          push_cast at this
          simp only [if_neg hfull, this, hostFor_extra hm hs]
          split_ifs <;> rfl

theorem duplicateHosts_nil {resolved : List ResolvedPort} :
    duplicateHosts resolved = [] ↔ (resolved.map (·.host)).Nodup := by
  rw [duplicateHosts, List.map_eq_nil_iff, List.filter_eq_nil_iff, List.nodup_iff_count_le_one]
  constructor
  · intro h a
    by_cases ha : a ∈ resolved.map (·.host)
    · have := h a (List.mem_eraseDups.2 ha)
      simpa using this
    · rw [List.count_eq_zero.2 ha]; omega
  · intro h a _
    have := h a
    simpa using this

theorem map_host_ofPair (l : List (PortMapping × Int)) :
    (l.map ResolvedPort.ofPair).map (·.host) = l.map Prod.snd := by
  rw [List.map_map]; rfl

/-- the result is the allocation, when the slots suffice and the hosts are distinct -/
theorem resolvePorts_eq_ok {index : Int} (hi : 0 ≤ index ∧ index ≤ maxPortIndex) {ports : List PortMapping}
    {resolved : List ResolvedPort} : resolvePorts index ports = .ok resolved ↔
      (extras ports : Int) ≤ stride ∧ (hosts index ports).Nodup ∧
        resolved = (allocation index ports).map ResolvedPort.ofPair := by
  have hloop := resolveLoop_eq index [] ports (by decide)
  have hcheck := checkIndex_ok.2 hi
  have hdup := @duplicateHosts_nil ((allocation index ports).map ResolvedPort.ofPair)
  rw [map_host_ofPair] at hdup
  simp only [extras_nil, Nat.cast_zero, List.nil_append] at hloop
  unfold resolvePorts
  rw [hcheck, hloop]
  by_cases hx : (extras ports : Int) ≤ stride
  · rw [if_pos hx]
    simp only [bind, Except.bind]
    split
    · rename_i hnil
      simp only [pure, Except.pure, Except.ok.injEq]
      constructor
      · intro h
        exact ⟨hx, hdup.1 hnil, h.symm⟩
      · intro h
        exact h.2.2.symm
    · rename_i hne
      constructor
      · intro h
        cases h
      · intro h
        exact absurd (hdup.2 h.2.1) hne
  · rw [if_neg hx]
    constructor
    · intro h
      cases h
    · intro h
      exact absurd h.1 hx

/-! ## Bands -/

theorem mem_allocationAfter {index : Int} {before ports : List PortMapping} {e : PortMapping × Int}
    (h : e ∈ allocationAfter index before ports) :
    e.1 ∈ ports ∧ ∃ front, e.2 = hostFor index front e.1 ∧ extras front ≤ extras (before ++ ports) ∧
      (isExtra e.1 = true → extras front < extras (before ++ ports)) := by
  induction ports generalizing before with
  | nil => simp [allocationAfter] at h
  | cons m ports ih =>
    have hsplit : before ++ m :: ports = before ++ [m] ++ ports := by simp
    rw [allocationAfter_cons] at h
    rcases List.mem_cons.1 h with rfl | h
    · refine ⟨List.mem_cons_self, before, rfl, ?_, ?_⟩
      · rw [extras_append]; omega
      · intro hx
        rw [extras_append, extras_cons, if_pos hx]; omega
    · obtain ⟨hm, front, he, hle, hlt⟩ := ih h
      rw [← hsplit] at hle hlt
      exact ⟨List.mem_cons_of_mem _ hm, front, he, hle, hlt⟩

theorem baseOf_cases (service : Option String) :
    baseOf service = none ∨ baseOf service = some adbBase ∨ baseOf service = some fridaBase ∨
      baseOf service = some fridaControlBase := by
  cases service with
  | none => exact Or.inl rfl
  | some n =>
    by_cases h1 : "adb" = n
    · subst h1; right; left; decide
    by_cases h2 : "frida" = n
    · subst h2; right; right; left; decide
    by_cases h3 : "frida_control" = n
    · subst h3; right; right; right; decide
    left
    simp [baseOf, wellKnownBase, h1, h2, h3]

/-- an auto-allocated host port lies in the band of its service: the stride default of the index, or a slot of the pool -/
theorem auto_host {index : Int} {ports : List PortMapping} {e : PortMapping × Int} (he : e ∈ allocation index ports)
    (hx : (extras ports : Int) ≤ stride) (hauto : e.1.host = none) :
    (∃ b, baseOf e.1.service = some b ∧ e.2 = b + index * stride) ∨
      (baseOf e.1.service = none ∧ extraPoolBase + index * stride ≤ e.2 ∧
        e.2 < extraPoolBase + index * stride + stride) := by
  obtain ⟨-, front, hh, -, hlt⟩ := mem_allocationAfter he
  rw [List.nil_append] at hlt
  cases hb : baseOf e.1.service with
  | some b => exact Or.inl ⟨b, rfl, by rw [hh, hostFor_stride hauto hb]⟩
  | none =>
    have hfront := hlt (by simp [isExtra, hauto, hb])
    rw [hostFor_extra hauto hb] at hh
    refine Or.inr ⟨rfl, ?_, ?_⟩ <;> omega

theorem maxPortIndex_eq : maxPortIndex = 1295 := by decide

/-- two auto-allocated ports of different indices or of different bands differ -/
theorem auto_ne {index index' : Int} (hi : 0 ≤ index ∧ index ≤ maxPortIndex) (hi' : 0 ≤ index' ∧ index' ≤ maxPortIndex)
    {ports ports' : List PortMapping} {e e' : PortMapping × Int} (hx : (extras ports : Int) ≤ stride)
    (hx' : (extras ports' : Int) ≤ stride) (he : e ∈ allocation index ports) (he' : e' ∈ allocation index' ports')
    (ha : e.1.host = none) (ha' : e'.1.host = none)
    (hne : index ≠ index' ∨ baseOf e.1.service ≠ baseOf e'.1.service) : e.2 ≠ e'.2 := by
  rw [maxPortIndex_eq] at hi hi'
  intro heq
  have h1 := auto_host he hx ha
  have h2 := auto_host he' hx' ha'
  rcases baseOf_cases e.1.service with hb | hb | hb | hb <;> rcases baseOf_cases e'.1.service with hb' | hb' | hb' | hb' <;>
    simp only [hb, hb', Option.some.injEq, exists_eq_left', reduceCtorEq, false_and, true_and, or_false, false_or,
      exists_false, ne_eq, not_true_eq_false, not_false_eq_true, or_true, adbBase, fridaBase, fridaControlBase,
      extraPoolBase, stride] at h1 h2 hne <;> omega

/-- every host port of an allocation is a port number -/
theorem host_range {index : Int} (hi : 0 ≤ index ∧ index ≤ maxPortIndex) {ports : List PortMapping}
    {e : PortMapping × Int} (hx : (extras ports : Int) ≤ stride) (he : e ∈ allocation index ports) :
    minPort ≤ e.2 ∧ e.2 ≤ maxPort := by
  rw [maxPortIndex_eq] at hi
  cases hm : e.1.host with
  | some h =>
    obtain ⟨-, front, hh, -⟩ := mem_allocationAfter he
    rw [hh, hostFor_pinned hm]
    exact e.1.host_range h hm
  | none =>
    have h1 := auto_host he hx hm
    unfold minPort maxPort
    rcases baseOf_cases e.1.service with hb | hb | hb | hb <;>
      simp only [hb, Option.some.injEq, exists_eq_left', reduceCtorEq, false_and, true_and, or_false, false_or,
        exists_false, adbBase, fridaBase, fridaControlBase, extraPoolBase, stride] at h1 <;> omega

theorem allocationAfter_forall₂ (index : Int) (before ports : List PortMapping) :
    List.Forall₂ (fun m rp => rp.service = m.service ∧ rp.guest = m.guest ∧ ∀ h, m.host = some h → rp.host = h) ports
      ((allocationAfter index before ports).map ResolvedPort.ofPair) := by
  induction ports generalizing before with
  | nil => exact List.Forall₂.nil
  | cons m ports ih =>
    rw [allocationAfter_cons, List.map_cons]
    refine List.Forall₂.cons ⟨rfl, rfl, ?_⟩ (ih _)
    intro h hm
    exact hostFor_pinned hm index before

/-- `resolve_ports` is correct and its bands never overlap -/
theorem resolvePorts_correct {index : Int} (hi : 0 ≤ index ∧ index ≤ maxPortIndex) (ports : List PortMapping) :
    ((∃ resolved, resolvePorts index ports = .ok resolved) ↔
      (extras ports : Int) ≤ stride ∧ (hosts index ports).Nodup) ∧
    (∀ resolved, resolvePorts index ports = .ok resolved →
      List.Forall₂ (fun m rp => rp.service = m.service ∧ rp.guest = m.guest ∧ ∀ h, m.host = some h → rp.host = h)
        ports resolved ∧
      resolved.map (·.host) = hosts index ports ∧ (∀ rp ∈ resolved, minPort ≤ rp.host ∧ rp.host ≤ maxPort) ∧
      (resolved.map (·.host)).Nodup) ∧
    ∀ index' ports', 0 ≤ index' ∧ index' ≤ maxPortIndex → (extras ports : Int) ≤ stride → (extras ports' : Int) ≤ stride →
      ∀ e ∈ allocation index ports, ∀ e' ∈ allocation index' ports', e.1.host = none → e'.1.host = none →
        index ≠ index' ∨ baseOf e.1.service ≠ baseOf e'.1.service → e.2 ≠ e'.2 := by
  refine ⟨⟨?_, ?_⟩, ?_, ?_⟩
  · intro ⟨resolved, h⟩
    obtain ⟨hx, hnd, -⟩ := (resolvePorts_eq_ok hi).1 h
    exact ⟨hx, hnd⟩
  · intro ⟨hx, hnd⟩
    exact ⟨_, (resolvePorts_eq_ok hi).2 ⟨hx, hnd, rfl⟩⟩
  · intro resolved h
    obtain ⟨hx, hnd, rfl⟩ := (resolvePorts_eq_ok hi).1 h
    refine ⟨allocationAfter_forall₂ index [] ports, map_host_ofPair _, ?_, ?_⟩
    · intro rp hrp
      obtain ⟨e, he, rfl⟩ := List.mem_map.1 hrp
      exact host_range hi hx he
    · rw [map_host_ofPair]; exact hnd
  · intro index' ports' hi' hx hx' e he e' he' ha ha' hne
    exact auto_ne hi hi' hx hx' he he' ha ha' hne

/-- the seeded list resolves at the last index -/
theorem resolvePorts_correct_last : (0 ≤ maxPortIndex ∧ maxPortIndex ≤ maxPortIndex) ∧
    ((∃ resolved, resolvePorts maxPortIndex defaultPortMappings = .ok resolved) ↔
      (extras defaultPortMappings : Int) ≤ stride ∧ (hosts maxPortIndex defaultPortMappings).Nodup) ∧
    (extras defaultPortMappings : Int) ≤ stride ∧ (hosts maxPortIndex defaultPortMappings).Nodup :=
  ⟨by decide, (resolvePorts_correct (by decide) defaultPortMappings).1, by decide, by decide +kernel⟩

end Beetroot.Bands
