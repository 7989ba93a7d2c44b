/-
Port allocation (`ports.py`) with the port list of the config schema (`config.PortMapping`).

Instance index N owns the stride defaults 5555 + 10N (adb), 27042 + 10N and 27043 + 10N (frida), and the extra-pool
slots 40000 + 10N + 0..9. `resolvePorts` turns a `ports:` list into concrete host ports; `lowestFreeIndex` picks the
index of a new registry row. The privileged-port advisory that `resolve_ports` prints (and its `quiet` flag) has no
effect on the result and is left out.

Results:
- `lowestFreeIndex_spec`: the loop stops, at the least non-negative integer that is not used;
- `checkIndex_ok`: an index passes the check exactly when it is in 0..`maxPortIndex`;
- `resolvePorts_shape`: a successful resolution keeps the order, the services and the guest ports of the list.
-/
import Beetroot.Lib.Dict
import Mathlib.Algebra.Order.Ring.Int
import Mathlib.Data.List.Range
import Mathlib.Data.List.Perm.Subperm
import Mathlib.Tactic.Linarith

namespace Beetroot

open Lib

/-! ## The `ports:` list -/

def minPort : Int := 1

def maxPort : Int := 65535

/-- the well-known services with their guest ports, in the order of the seeded list -/
def wellKnownServices : List (String × Int) := [("adb", 5555), ("frida", 27042), ("frida_control", 27043)]

/-- a guest→host mapping; the range checks of the schema are fields -/
structure PortMapping where
  service : Option String
  guest : Int
  host : Option Int
  guest_range : minPort ≤ guest ∧ guest ≤ maxPort
  host_range : ∀ h ∈ host, minPort ≤ h ∧ h ≤ maxPort
deriving DecidableEq

theorem adb_range : minPort ≤ 5555 ∧ 5555 ≤ maxPort := by decide

theorem frida_range : minPort ≤ 27042 ∧ 27042 ≤ maxPort := by decide

theorem fridaControl_range : minPort ≤ 27043 ∧ 27043 ≤ maxPort := by decide

/-- a service with an auto-allocated host port -/
def PortMapping.auto (service : String) (guest : Int) (h : minPort ≤ guest ∧ guest ≤ maxPort) : PortMapping :=
  ⟨some service, guest, none, h, by simp⟩

/-- adb with a pinned host port -/
def PortMapping.adb (host : Int) (h : minPort ≤ host ∧ host ≤ maxPort) : PortMapping :=
  ⟨some "adb", 5555, some host, adb_range, by simpa using h⟩

/-- the three well-known services with auto-allocated host ports -/
def defaultPortMappings : List PortMapping :=
  [.auto "adb" 5555 adb_range, .auto "frida" 27042 frida_range, .auto "frida_control" 27043 fridaControl_range]

/-! ## Constants -/

def adbBase : Int := 5555

def fridaBase : Int := 27042

def fridaControlBase : Int := 27043

def stride : Int := 10

def wellKnownBase : List (String × Int) :=
  [("adb", adbBase), ("frida", fridaBase), ("frida_control", fridaControlBase)]

def extraPoolBase : Int := 40000

/-- the largest index whose well-known ports stay below the extra pool and whose pool window stays below 65536 -/
def maxPortIndex : Int :=
  min ((extraPoolBase - 1 - (wellKnownBase.map Prod.snd).foldl max 0) / stride)
    ((maxPort - extraPoolBase - stride) / stride)

example : maxPortIndex = 1295 := by decide

/-- the stride base of a service, if it is a well-known one -/
def baseOf (service : Option String) : Option Int :=
  service.bind fun n => (wellKnownBase.find? fun e => e.1 = n).map Prod.snd

/-! ## Resolution -/

/-- the ways `_check_index` and `resolve_ports` raise; `hostsCollide` carries the duplicated hosts with the services
that landed on them -/
inductive PortError where
  | negativeIndex (index : Int)
  | indexTooLarge (index : Int)
  | tooManyExtras (index : Int)
  | hostsCollide (dupes : List (Int × List String))
deriving DecidableEq, Repr

structure ResolvedPort where
  service : Option String
  guest : Int
  host : Int
deriving DecidableEq, Repr

def checkIndex (index : Int) : Except PortError Unit :=
  if index < 0 then .error (.negativeIndex index)
  else if index > maxPortIndex then .error (.indexTooLarge index)
  else .ok ()

theorem checkIndex_ok {index : Int} : checkIndex index = .ok () ↔ 0 ≤ index ∧ index ≤ maxPortIndex := by
  unfold checkIndex
  split_ifs <;> simp <;> omega

def portsForIndex (index : Int) : Except PortError (List (String × Int)) := do
  checkIndex index
  return wellKnownBase.map fun e => (e.1, e.2 + index * stride)

/-- the allocation loop; `slot` counts the extra-pool slots handed out so far -/
def resolveLoop (index : Int) : List PortMapping → Int → Except PortError (List ResolvedPort)
  | [], _ => .ok []
  | m :: ms, slot =>
    match m.host, baseOf m.service with
    | some h, _ => (resolveLoop index ms slot).map (⟨m.service, m.guest, h⟩ :: ·)
    | none, some b => (resolveLoop index ms slot).map (⟨m.service, m.guest, b + index * stride⟩ :: ·)
    | none, none =>
      if slot ≥ stride then .error (.tooManyExtras index)
      else (resolveLoop index ms (slot + 1)).map
        (⟨m.service, m.guest, extraPoolBase + index * stride + slot⟩ :: ·)

/-- the hosts that occur more than once, in the order of their first entries, each with the sorted texts of its services -/
def duplicateHosts (resolved : List ResolvedPort) : List (Int × List String) :=
  ((resolved.map (·.host)).eraseDups.filter fun h => 1 < (resolved.map (·.host)).count h).map fun h =>
    (h, ((resolved.filter fun rp => rp.host = h).map fun rp => rp.service.getD "None").mergeSort fun a b => a ≤ b)

def resolvePorts (index : Int) (ports : List PortMapping) : Except PortError (List ResolvedPort) := do
  checkIndex index
  let resolved ← resolveLoop index ports 0
  match duplicateHosts resolved with
  | [] => return resolved
  | dupes => throw (.hostsCollide dupes)

/-- the well-known entries of a resolved list, by service -/
def wellKnown (resolved : List ResolvedPort) : Dict String Int :=
  Dict.ofList (resolved.filterMap fun rp =>
    rp.service.bind fun n => if n ∈ wellKnownServices.map Prod.fst then some (n, rp.host) else none)

theorem resolveLoop_shape {index : Int} {ports : List PortMapping} {slot : Int} {resolved : List ResolvedPort}
    (h : resolveLoop index ports slot = .ok resolved) :
    resolved.map (fun rp => (rp.service, rp.guest)) = ports.map fun m => (m.service, m.guest) := by
  induction ports generalizing slot resolved with
  | nil => simp only [resolveLoop, Except.ok.injEq] at h; subst h; rfl
  | cons m ms ih =>
    have key : ∀ {sl : Int} {hst : Int}, (resolveLoop index ms sl).map (⟨m.service, m.guest, hst⟩ :: ·) = .ok resolved →
        resolved.map (fun rp => (rp.service, rp.guest)) = (m :: ms).map fun m => (m.service, m.guest) := by
      intro sl hst he
      cases hr : resolveLoop index ms sl with
      | error e => rw [hr] at he; simp [Except.map] at he
      | ok rest =>
        rw [hr] at he; simp only [Except.map, Except.ok.injEq] at he
        subst he; simp [ih hr]
    unfold resolveLoop at h
    split at h
    · exact key h
    · exact key h
    · split_ifs at h
      exact key h

/-- a successful resolution has one entry per mapping, in order, with its service and guest port -/
theorem resolvePorts_shape {index : Int} {ports : List PortMapping} {resolved : List ResolvedPort}
    (h : resolvePorts index ports = .ok resolved) :
    resolved.map (fun rp => (rp.service, rp.guest)) = ports.map fun m => (m.service, m.guest) := by
  unfold resolvePorts at h
  cases hc : checkIndex index with
  | error e => rw [hc] at h; simp [bind, Except.bind] at h
  | ok u =>
    cases hl : resolveLoop index ports 0 with
    | error e => rw [hc, hl] at h; simp [bind, Except.bind] at h
    | ok rs =>
      rw [hc, hl] at h; simp only [bind, Except.bind] at h
      split at h
      · simp only [pure, Except.pure, Except.ok.injEq] at h; subst h; exact resolveLoop_shape hl
      · simp [throw, throwThe, MonadExceptOf.throw] at h

/-! ## The lowest free index -/

/-- the loop `while i in used: i += 1`, with a bound on the number of increments -/
def lowestFreeFrom (used : List Int) : ℕ → Int → Int
  | 0, i => i
  | n + 1, i => if i ∈ used then lowestFreeFrom used n (i + 1) else i

/-- the loop needs at most one increment per used index -/
def lowestFreeIndex (used : List Int) : Int := lowestFreeFrom used (used.length + 1) 0

theorem lowestFreeFrom_below (used : List Int) (n : ℕ) (i : Int) :
    i ≤ lowestFreeFrom used n i ∧ ∀ j, i ≤ j → j < lowestFreeFrom used n i → j ∈ used := by
  induction n generalizing i with
  | zero => exact ⟨le_refl _, fun j h1 h2 => absurd h2 (by simp only [lowestFreeFrom]; omega)⟩
  | succ n ih =>
    simp only [lowestFreeFrom]
    split_ifs with hi
    · obtain ⟨h1, h2⟩ := ih (i + 1)
      refine ⟨by omega, fun j hij hj => ?_⟩
      rcases eq_or_lt_of_le hij with rfl | hlt
      · exact hi
      · exact h2 j (by omega) hj
    · exact ⟨le_refl _, fun j h1 h2 => absurd h2 (by omega)⟩

/-- either the loop stopped at a free index or it used up its bound -/
theorem lowestFreeFrom_stops (used : List Int) (n : ℕ) (i : Int) :
    lowestFreeFrom used n i ∉ used ∨ lowestFreeFrom used n i = i + n := by
  induction n generalizing i with
  | zero => right; simp [lowestFreeFrom]
  | succ n ih =>
    simp only [lowestFreeFrom]
    split_ifs with hi
    · rcases ih (i + 1) with h | h
      · exact Or.inl h
      · right; rw [h]; push_cast; omega
    · exact Or.inl hi

/-- `lowest_free_index` returns the least non-negative integer that is not used -/
theorem lowestFreeIndex_spec (used : List Int) :
    lowestFreeIndex used ∉ used ∧ 0 ≤ lowestFreeIndex used ∧
      ∀ j, 0 ≤ j → j < lowestFreeIndex used → j ∈ used := by
  obtain ⟨h1, h2⟩ := lowestFreeFrom_below used (used.length + 1) 0
  refine ⟨?_, h1, h2⟩
  rcases lowestFreeFrom_stops used (used.length + 1) 0 with h | h
  · exact h
  · -- more distinct used indices than entries in the list
    exfalso
    have hsub : (List.range (used.length + 1)).map (fun k : ℕ => (k : Int)) ⊆ used := by
      intro j hj
      obtain ⟨k, hk, rfl⟩ := List.mem_map.1 hj
      have hk' : (k : Int) < (used.length + 1 : ℕ) := by exact_mod_cast List.mem_range.1 hk
      exact h2 _ (by omega) (by rw [h]; omega)
    have hnd : ((List.range (used.length + 1)).map (fun k : ℕ => (k : Int))).Nodup :=
      List.nodup_range.map fun a b h => by exact_mod_cast h
    have := (hnd.subperm hsub).length_le
    simp at this

example : lowestFreeIndex [0, 1, 3] = 2 := by decide

end Beetroot
