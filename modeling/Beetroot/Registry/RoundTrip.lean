/-
The registry's encoder and decoder agree: what `_registry_to_json` writes, `_read` reads back.

Decoding dispatches on `kind`, validates, and retries with the payload kept raw; so a raw payload written back must fail
validation again, and a typed one must pass it. `Settled` says that a config is the one its own dump settles to. Every
payload that `_read` returns is settled, every operation keeps that, and a settled registry survives a write and a read
unchanged.

Results: `settle_settled`, `settled_read`, `settled_outcome` (one step), `built_settled` (any sequence of operations), and
the round trip `read_write_built`.
-/
import Beetroot.Registry.Store
import Mathlib.Logic.Function.Iterate

namespace Beetroot

open Lib

variable {T : Type}

/-- a config that its own dump settles to: a typed one, or a payload that validation does not accept -/
def BackendConfig.Settled (b : BackendConfig) : Prop := settle (dumpBackendConfig b) = b

theorem typed_settled {b : BackendConfig} (hb : b.Typed) : b.Settled := by
  unfold BackendConfig.Settled settle
  rw [parse_dump_typed hb]; rfl

/-- the payload a read settles on is settled, whatever the payload was -/
theorem settle_settled (raw : Fields) : (settle raw).Settled := by
  cases hp : parseBackendConfig raw with
  | none =>
    have h : settle raw = .unresolved raw := by simp [settle, hp]
    rw [h]; exact h
  | some b =>
    have h : settle raw = b := by simp [settle, hp]
    rcases parse_cases hp with ht | ⟨rfl, -⟩
    · rw [h]; exact typed_settled ht
    · rw [h]; exact h

def RegistryFile.Settled (d : RegistryFile T) : Prop := ∀ e ∈ d.instances.entries, e.2.backend.Settled

theorem resettle_of_settled {d : RegistryFile T} (h : d.Settled) : resettle d = d := by
  apply RegistryFile.ext
  simp only [resettle, Dict.entries_mapVals]
  conv_rhs => rw [← List.map_id d.instances.entries]
  refine List.map_congr_left fun e he => ?_
  have := h e he
  unfold BackendConfig.Settled at this
  simp only [this, id]

/-! ## One step -/

theorem settled_set {d : RegistryFile T} (h : d.Settled) {name : String} {m : InstanceMeta T}
    (hm : m.backend.Settled) : RegistryFile.Settled ⟨d.instances.set name m⟩ := by
  intro e he
  rcases Dict.mem_set.1 he with rfl | ⟨he, -⟩
  · exact hm
  · exact h e he

theorem settled_foldl (rows : List (String × InstanceMeta T)) (d : RegistryFile T) (h : d.Settled)
    (hrows : ∀ e ∈ rows, e.2.backend.Settled) :
    RegistryFile.Settled ⟨rows.foldl (fun d e => d.set e.1 e.2) d.instances⟩ := by
  induction rows generalizing d with
  | nil => exact h
  | cons e rows ih =>
    exact ih ⟨d.instances.set e.1 e.2⟩ (settled_set h (hrows e List.mem_cons_self))
      fun x hx => hrows x (List.mem_cons_of_mem _ hx)

theorem settled_read {P : Pydantic T} {c : Content} {d : RegistryFile T} (h : readContent P c = .ok d) : d.Settled := by
  cases c with
  | undecodable => simp [readContent] at h
  | malformed => simp [readContent] at h
  | json j =>
    simp only [readContent] at h
    split_ifs at h
    rcases readRows_eq P (rawInstances j) ∅ with ⟨-, he⟩ | ⟨-, n, he⟩
    · rw [he] at h
      cases h
      refine settled_foldl _ ∅ (by intro e he; simp [EmptyCollection.emptyCollection, Dict.empty] at he) ?_
      intro e he
      obtain ⟨x, -, hx⟩ := List.mem_filterMap.1 he
      simp only [rowOf, Option.bind_eq_some_iff, Option.map_eq_some_iff] at hx
      obtain ⟨s, -, m, hm, rfl⟩ := hx
      simp only [((parseRow_spec P s.1 s.2).2 m hm).1, settle_settled]
    · rw [he] at h; cases h

/-- the payloads an operation brings in: `add_allocating` is given a typed config, or an opaque one that validation does
not accept -/
def Op.BringsSettled : Op T → Prop
  | .addAllocating _ path backend _ => ∀ b ∈ newBackend path backend, b.Settled
  | _ => True

theorem settled_outcome {d d' : RegistryFile T} {r : Res T} {o : Op T} (h : d.Settled) (ho : o.BringsSettled)
    (he : outcome o d = (r, some d')) : d'.Settled := by
  rcases outcome_cases he with ⟨name, path, backend, now, b, i, rfl, hb, -, -, -, -, rfl⟩ | ⟨name, -, -, rfl⟩ |
    ⟨name, m, b, -, hb, -, rfl⟩
  · exact settled_set h (ho b hb)
  · intro e he
    exact h e (Dict.mem_erase.1 he).1
  · exact settled_set h (typed_settled hb)

/-! ## Runs -/

/-- the registry files that `_read` can return, or that operations build from one -/
inductive Built (P : Pydantic T) : RegistryFile T → Prop
  /-- an absent file, or one that was renamed to `.bak` -/
  | fresh : Built P ∅
  | read {c : Content} {d : RegistryFile T} (h : readContent P c = .ok d) : Built P d
  | op {d d' : RegistryFile T} {r : Res T} {o : Op T} (hd : Built P d) (ho : o.BringsSettled)
      (h : outcome o d = (r, some d')) : Built P d'

theorem built_settled {P : Pydantic T} {d : RegistryFile T} (h : Built P d) : d.Settled := by
  induction h with
  | fresh => intro e he; simp [EmptyCollection.emptyCollection, Dict.empty] at he
  | read h => exact settled_read h
  | op _ ho he ih => exact settled_outcome ih ho he

/-- one read/write cycle of the file's content -/
def cycle (P : Pydantic T) (c : Content) : Content :=
  match readContent P c with
  | .ok d => .json (registryToJson P d)
  | _ => c

theorem readContent_built {P : Pydantic T} {d : RegistryFile T} (h : Built P d) :
    readContent P (.json (registryToJson P d)) = .ok d := by
  rw [readContent_dump, resettle_of_settled (built_settled h)]

/-- Round trip: the text written for a registry file is read back as that file (names, order, indices, timestamps, typed
fields and raw payloads), so re-encoding it gives the same text, after any number of cycles. -/
theorem read_write_built (P : Pydantic T) (d : RegistryFile T) (h : Built P d) :
    readContent P (.json (registryToJson P d)) = .ok d ∧
      (∀ d', readContent P (.json (registryToJson P d)) = .ok d' → registryToJson P d' = registryToJson P d) ∧
      ∀ n : ℕ, (cycle P)^[n] (.json (registryToJson P d)) = .json (registryToJson P d) ∧
        readContent P ((cycle P)^[n] (.json (registryToJson P d))) = .ok d := by
  have hr := readContent_built h
  have hfix : cycle P (.json (registryToJson P d)) = .json (registryToJson P d) := by
    unfold cycle; rw [hr]
  refine ⟨hr, fun d' h' => ?_, fun n => ?_⟩
  · rw [hr] at h'; cases h'; rfl
  · rw [Function.iterate_fixed hfix n]; exact ⟨rfl, hr⟩

/-- a redroid row and a row of a kind nobody registered -/
def twoRows : RegistryFile String :=
  ⟨Dict.ofList [("alpha", ⟨.redroid "/srv/alpha" (Dict.ofList [("su", "/x")]), 0, "2026-01-01T00:00:00+00:00"⟩),
    ("bravo", ⟨.unresolved [("kind", .str "cuttlefish"), ("port", .float (1 / 2))], 1, "2026-01-02T00:00:00+00:00"⟩)]⟩

theorem built_twoRows : Built Pydantic.iso twoRows := by
  have h1 := Built.op (P := Pydantic.iso) (o := .addAllocating "alpha" none
    (some (.redroid "/srv/alpha" (Dict.ofList [("su", "/x")]))) "2026-01-01T00:00:00+00:00") .fresh
    (by rintro b ⟨⟩; exact typed_settled trivial) rfl
  exact Built.op (o := .addAllocating "bravo" none
    (some (.unresolved [("kind", .str "cuttlefish"), ("port", .float (1 / 2))])) "2026-01-02T00:00:00+00:00") h1
    (by rintro b ⟨⟩; exact settle_settled [("kind", .str "cuttlefish"), ("port", .float (1 / 2))]) rfl

theorem read_write_twoRows :
    readContent Pydantic.iso (.json (registryToJson Pydantic.iso twoRows)) = .ok twoRows ∧
      (∀ d', readContent Pydantic.iso (.json (registryToJson Pydantic.iso twoRows)) = .ok d' →
        registryToJson Pydantic.iso d' = registryToJson Pydantic.iso twoRows) ∧
      ∀ n : ℕ, (cycle Pydantic.iso)^[n] (.json (registryToJson Pydantic.iso twoRows)) =
          .json (registryToJson Pydantic.iso twoRows) ∧
        readContent Pydantic.iso ((cycle Pydantic.iso)^[n] (.json (registryToJson Pydantic.iso twoRows))) = .ok twoRows :=
  read_write_built Pydantic.iso twoRows built_twoRows

end Beetroot
