/-
Which exceptions can leave `load_yaml`?

It is documented to raise `pydantic.ValidationError`. A validator that raises a `ValueError` does; but the code that looks at the
raw tree before any type is checked can raise `TypeError`, and the comparison of the memory sizes `OverflowError`, and pydantic
lets both through.

Results:
- `escapes_android`, `escapes_resources`: the two sections through which an exception goes, and when;
- `load_documented`: exactly the trees on which `load_yaml` returns or raises a `ValidationError`;
- `load_escapes`: four files that end in `TypeError` and `OverflowError`.
-/
import Beetroot.Config.Load

namespace Beetroot.Config

open Lib

/-! ## Sections that let nothing through -/

section Quiet

variable (C : Conversions)

theorem not_escapes_checked {α : Type} {P : α → Prop} [DecidablePred P] {problem : α → Problem} (conv : Tree → Option α)
    (t : Tree) : ¬ ((convert conv t).bind (ensure P problem)).Escapes := by
  rw [Checked.escapes_bind]
  intro h
  rcases h with h | ⟨a, -, h⟩
  · exact not_escapes_convert conv t h
  · exact not_escapes_ensure a h

theorem not_escapes_display (t : Tree) : ¬ (Display.validate C t).Escapes := by
  unfold Display.validate
  split
  · split_ifs
    · simp [fail]
    · simp only [Checked.escapes_map, Checked.escapes_both, not_or]
      exact ⟨not_escapes_fieldOr (not_escapes_checked C.int), not_escapes_fieldOr (not_escapes_checked C.int),
        not_escapes_fieldOr (not_escapes_checked C.int), not_escapes_fieldOr (not_escapes_literal _ _)⟩
  · simp [fail]

theorem not_escapes_frida (t : Tree) : ¬ (Frida.validate C t).Escapes := by
  unfold Frida.validate
  split
  · rw [Checked.escapes_bind]
    intro h
    rcases h with h | ⟨p, -, h⟩
    · rcases Checked.escapes_both.1 h with h | h
      · exact not_escapes_fieldOr (not_escapes_checked C.str) h
      · exact not_escapes_fieldOr (not_escapes_nullable (not_escapes_checked C.str)) h
    · revert h
      simp only
      split_ifs <;> simp [fail]
  · simp [fail]

theorem not_escapes_module (t : Tree) : ¬ (Module.validate C t).Escapes := by
  unfold Module.validate
  split
  · rw [Checked.escapes_bind]
    intro h
    rcases h with h | ⟨p, -, h⟩
    · simp only [Checked.escapes_both] at h
      rcases h with h | h | h
      · exact not_escapes_fieldOr (not_escapes_nullable (not_escapes_convert C.str)) h
      · exact not_escapes_fieldOr (not_escapes_nullable (not_escapes_convert C.str)) h
      · exact not_escapes_fieldOr (not_escapes_nullable (not_escapes_checked C.str)) h
    · revert h
      simp only [Checked.escapes_withProof, checkModuleSource]
      split_ifs <;> simp [fail]
  · simp [fail]

theorem not_escapes_magisk (t : Tree) : ¬ (Magisk.validate C t).Escapes := by
  unfold Magisk.validate
  split
  · rw [Checked.escapes_map]
    refine not_escapes_fieldOr fun t => ?_
    rw [Checked.escapes_bind]
    intro h
    rcases h with h | ⟨entries, -, h⟩
    · exact not_escapes_listOf (not_escapes_convert C.str) t h
    · revert h
      unfold checkPackages
      split_ifs <;> simp [fail]
  · simp [fail]

theorem not_escapes_portMapping (t : Tree) : ¬ (portMapping C t).Escapes := by
  unfold portMapping
  split
  · simp only [Checked.escapes_map, Checked.escapes_both, not_or]
    exact ⟨not_escapes_fieldOr (not_escapes_nullable (not_escapes_convert C.str)),
      not_escapes_requiredField (not_escapes_checked C.int),
      not_escapes_fieldOr (not_escapes_nullable (not_escapes_checked C.int))⟩
  · simp [fail]

theorem not_escapes_smp (t : Tree) : ¬ (smp C t).Escapes := by
  unfold smp
  split
  · simp
  · rw [Checked.escapes_map]
    exact not_escapes_checked C.int _

theorem not_escapes_vm (t : Tree) : ¬ (vm C t).Escapes := by
  unfold vm
  split
  · simp only [Checked.escapes_map, Checked.escapes_both, not_or]
    exact ⟨not_escapes_fieldOr (not_escapes_nullable (not_escapes_convert C.str)),
      not_escapes_fieldOr (not_escapes_nullable (not_escapes_convert C.str)), not_escapes_fieldOr (not_escapes_literal _ _),
      not_escapes_fieldOr (not_escapes_smp C), not_escapes_fieldOr (not_escapes_checked C.int),
      not_escapes_fieldOr (not_escapes_convert C.bool)⟩
  · simp [fail]

end Quiet

/-! ## `android:` and `resources:` -/

section Loud

variable {C : Conversions}

/-- the field has a list or a mapping -/
def unhashableAt (es : Tree.Entries) (key : String) : Bool := (Tree.lookup es key).any fun t => !t.hashable

theorem escapes_legacyGapps {es : Tree.Entries} :
    (legacyGapps (Tree.lookup es "gapps")).Escapes ↔ unhashableAt es "gapps" = true := by
  unfold unhashableAt
  cases Tree.lookup es "gapps" with
  | none => simp [legacyGapps]
  | some t =>
    cases t with
    | scalar s => cases s <;> simp [legacyGapps, Tree.hashable]
    | list items => simp [legacyGapps, Tree.hashable]
    | map entries => simp [legacyGapps, Tree.hashable]

theorem not_escapes_androidFields (es : Tree.Entries) : ¬ (Android.fields C es).Escapes := by
  unfold Android.fields
  rw [Checked.escapes_bind]
  intro h
  rcases h with h | ⟨p, -, h⟩
  · simp only [Checked.escapes_both] at h
    rcases h with h | h | h
    · exact not_escapes_fieldOr (not_escapes_checked C.int) h
    · exact not_escapes_fieldOr (not_escapes_literal _ _) h
    · exact not_escapes_fieldOr (not_escapes_nullable (not_escapes_literal _ _)) h
  · revert h
    simp only
    split_ifs <;> simp [fail]

theorem escapes_android {es : Tree.Entries} :
    (Android.validate C (.map es)).Escapes ↔ unhashableAt es "gapps" = true := by
  unfold Android.validate
  rw [Checked.escapes_bind, escapes_legacyGapps]
  refine or_iff_left ?_
  intro ⟨legacy, _, h⟩
  revert h
  split_ifs
  · simp [fail]
  · simp [fail]
  · exact not_escapes_androidFields es

/-- the size is too large for a double -/
def Overflows (v : String) : Prop := dockerSizeToBytes v = .error .overflow

theorem escapes_bytesOf {v : String} : (bytesOf v).Escapes ↔ Overflows v := by
  unfold bytesOf Overflows
  cases dockerSizeToBytes v with
  | ok n => simp
  | error e => cases e <;> simp [fail]

theorem bytesOf_ok {v : String} {n : Int} : bytesOf v = .ok n ↔ dockerSizeToBytes v = .ok n := by
  unfold bytesOf
  cases dockerSizeToBytes v with
  | ok m => simp
  | error e => cases e <;> simp [fail]

/-- a size that the comparison reaches is too large: `mem`, the reservation, or the swap limit when the reservation fits -/
def SizesOverflow (mem : String) (reservation memswap : Option String) : Prop :=
  Overflows mem ∨ ∃ m, dockerSizeToBytes mem = .ok m ∧
    ((∃ r, reservation = some r ∧ Overflows r) ∨
      (∀ r, reservation = some r → ∃ n, dockerSizeToBytes r = .ok n ∧ n ≤ m) ∧
        ∃ w, memswap = some w ∧ w ≠ "-1" ∧ Overflows w)

theorem not_escapes_ite (c : Prop) [Decidable c] (problem : Problem) :
    ¬ (if c then fail problem else .ok () : V Unit).Escapes := by
  split_ifs <;> simp [fail]

theorem escapes_checkReservation {m : Int} {reservation : Option String} :
    (checkReservation m reservation).Escapes ↔ ∃ r, reservation = some r ∧ Overflows r := by
  cases reservation with
  | none => simp [checkReservation]
  | some r => simp [checkReservation, Checked.escapes_bind, escapes_bytesOf, not_escapes_ite]

theorem checkReservation_ok {m : Int} {reservation : Option String} : checkReservation m reservation = .ok () ↔
    ∀ r, reservation = some r → ∃ n, dockerSizeToBytes r = .ok n ∧ n ≤ m := by
  cases reservation with
  | none => simp [checkReservation]
  | some r =>
    simp only [checkReservation, Option.some.injEq, forall_eq']
    rw [Checked.bind_ok_iff]
    refine exists_congr fun n => and_congr bytesOf_ok ?_
    split_ifs with hn
    · exact iff_of_false (by simp [fail]) (by omega)
    · exact iff_of_true rfl (by omega)

theorem escapes_checkMemswap {m : Int} {memswap : Option String} :
    (checkMemswap m memswap).Escapes ↔ ∃ w, memswap = some w ∧ w ≠ "-1" ∧ Overflows w := by
  cases memswap with
  | none => simp [checkMemswap]
  | some w =>
    by_cases hw : w = "-1"
    · simp [checkMemswap, hw]
    · simp [checkMemswap, hw, Checked.escapes_bind, escapes_bytesOf, not_escapes_ite]

theorem escapes_checkMemoryOrdering {mem : String} {reservation memswap : Option String} :
    (checkMemoryOrdering mem reservation memswap).Escapes ↔ SizesOverflow mem reservation memswap := by
  unfold checkMemoryOrdering SizesOverflow
  rw [Checked.escapes_bind, escapes_bytesOf]
  refine or_congr Iff.rfl (exists_congr fun m => and_congr bytesOf_ok ?_)
  rw [Checked.escapes_bind, escapes_checkReservation]
  refine or_congr Iff.rfl ?_
  constructor
  · intro ⟨u, hu, hw⟩
    exact ⟨checkReservation_ok.1 hu, escapes_checkMemswap.1 hw⟩
  · intro ⟨hu, hw⟩
    exact ⟨(), checkReservation_ok.2 hu, escapes_checkMemswap.2 hw⟩

theorem not_escapes_resourcesFields (es : Tree.Entries) : ¬ (Resources.fields C es).Escapes := by
  simp only [Resources.fields, Checked.escapes_both, not_or]
  exact ⟨not_escapes_fieldOr (not_escapes_checked C.str), not_escapes_fieldOr (not_escapes_checked C.float),
    not_escapes_fieldOr (not_escapes_checked C.str),
    not_escapes_fieldOr (not_escapes_nullable (not_escapes_checked C.str)),
    not_escapes_fieldOr (not_escapes_nullable (not_escapes_checked C.str)), not_escapes_fieldOr (not_escapes_checked C.int)⟩

theorem escapes_resources {es : Tree.Entries} : (Resources.validate C (.map es)).Escapes ↔
    Tree.has es "shm" = false ∧ ∃ mem cpus shared reservation swap pids,
      Resources.fields C es = .ok (mem, cpus, shared, reservation, swap, pids) ∧
      SizesOverflow mem (reservation.map (·.1)) (swap.map (·.1)) := by
  rw [Resources.validate_map]
  cases hshm : Tree.has es "shm" with
  | true => simp [fail]
  | false =>
    rw [if_neg (by simp), Checked.escapes_bind]
    simp only [not_escapes_resourcesFields, false_or, true_and]
    constructor
    · rintro ⟨⟨mem, cpus, shared, reservation, swap, pids⟩, hf, h⟩
      exact ⟨mem, cpus, shared, reservation, swap, pids, hf, escapes_checkMemoryOrdering.1 (Checked.escapes_withProof.1 h)⟩
    · rintro ⟨mem, cpus, shared, reservation, swap, pids, hf, h⟩
      exact ⟨_, hf, Checked.escapes_withProof.2 (escapes_checkMemoryOrdering.2 h)⟩

/-! ## The whole file -/

/-- the exceptions of a field whose check has none except on a mapping -/
theorem escapes_fieldOr {α : Type} {es : Tree.Entries} {key : String} {default : α} {check : Tree → V α}
    (h : ∀ t, (check t).Escapes → ∃ sub, t = .map sub) :
    (fieldOr es key default check).Escapes ↔ ∃ sub, subMap es key = some sub ∧ (check (.map sub)).Escapes := by
  unfold fieldOr subMap
  cases Tree.lookup es key with
  | none => simp
  | some t =>
    simp only [under, Checked.escapes_mapErrors]
    constructor
    · intro he
      obtain ⟨sub, rfl⟩ := h t he
      exact ⟨sub, rfl, he⟩
    · intro ⟨sub, hs, he⟩
      split at hs
      · rename_i sub' heq
        rw [Option.some.inj heq, Option.some.inj hs]
        exact he
      · cases hs

theorem android_map {t : Tree} (h : (Android.validate C t).Escapes) : ∃ sub, t = .map sub := by
  cases t with
  | map sub => exact ⟨sub, rfl⟩
  | scalar s => exact absurd h (by simp [Android.validate, fail])
  | list items => exact absurd h (by simp [Android.validate, fail])

theorem resources_map {t : Tree} (h : (Resources.validate C t).Escapes) : ∃ sub, t = .map sub := by
  cases t with
  | map sub => exact ⟨sub, rfl⟩
  | scalar s => exact absurd h (by simp [Resources.validate, fail])
  | list items => exact absurd h (by simp [Resources.validate, fail])

/-- the fields through which an exception can go -/
theorem escapes_fields {es : Tree.Entries} : (InstanceConfig.fields C es).Escapes ↔
    (∃ a, subMap es "android" = some a ∧ unhashableAt a "gapps" = true) ∨
      ∃ r, subMap es "resources" = some r ∧ (Resources.validate C (.map r)).Escapes := by
  have hquiet : ∀ {α : Type} {key : String} {default : α} {check : Tree → V α}, (∀ t, ¬ (check t).Escapes) →
      ((fieldOr es key default check).Escapes ↔ False) := fun h => iff_false_intro (not_escapes_fieldOr h)
  simp only [InstanceConfig.fields, Checked.escapes_both, hquiet (not_escapes_convert C.int),
    hquiet (not_escapes_literal _ _), hquiet (not_escapes_display C), hquiet (not_escapes_nullable (not_escapes_frida C)),
    hquiet (not_escapes_listOf (not_escapes_module C)), hquiet (not_escapes_magisk C),
    hquiet (not_escapes_listOf (not_escapes_portMapping C)), hquiet (not_escapes_vm C), escapes_fieldOr fun _ => android_map,
    escapes_fieldOr fun _ => resources_map, false_or, or_false, escapes_android]

/-- a legacy mapping with keys that cannot be sorted -/
def unsortablePorts (es : Tree.Entries) : Bool := (subMap es "ports").any fun p => !sortable (unknownKeys p)

/-- neither a renamed section nor an unknown port key ends the validation before the fields -/
def reachesFields (es : Tree.Entries) : Bool :=
  !Tree.has es "stealth" && (subMap es "ports").all fun p => unknownKeys p = []

theorem escapes_migrate {es : Tree.Entries} : (migrateLegacyPortsMapping es).Escapes ↔ unsortablePorts es = true := by
  unfold migrateLegacyPortsMapping unsortablePorts subMap
  cases Tree.lookup es "ports" with
  | none => simp
  | some t =>
    cases t with
    | scalar s => simp
    | list items => simp
    | map ports =>
      simp only [Option.any_some]
      by_cases he : ports.isEmpty = true
      · rw [if_pos he, List.isEmpty_iff.1 he]
        simp [unknownKeys, sortable]
      · rw [if_neg he]
        cases hs : sortable (unknownKeys ports) with
        | false => simp
        | true =>
          simp only [Bool.not_true, Bool.false_eq_true, if_false, iff_false]
          split_ifs <;> simp [fail]

/-- the migration gives entries exactly when there is no unknown key, and changes `ports:` only -/
theorem migrate_ok {es es' : Tree.Entries} (h : migrateLegacyPortsMapping es = .ok es') :
    ((subMap es "ports").all fun p => unknownKeys p = []) = true ∧
      ∀ key, key ≠ "ports" → Tree.lookup es' key = Tree.lookup es key := by
  unfold migrateLegacyPortsMapping at h
  unfold subMap
  cases hl : Tree.lookup es "ports" with
  | none =>
    rw [hl] at h
    rw [← Checked.ok.inj h]
    exact ⟨rfl, fun _ _ => rfl⟩
  | some t =>
    rw [hl] at h
    cases t with
    | scalar s =>
      rw [← Checked.ok.inj h]
      exact ⟨rfl, fun _ _ => rfl⟩
    | list items =>
      rw [← Checked.ok.inj h]
      exact ⟨rfl, fun _ _ => rfl⟩
    | map ports =>
      simp only at h
      split_ifs at h with he hs hu
      · rw [← Checked.ok.inj h]
        refine ⟨?_, fun key hk => Tree.lookup_without_ne hk es⟩
        rw [List.isEmpty_iff.1 he]
        rfl
      · exact absurd h (by simp [fail])
      · rw [← Checked.ok.inj h]
        refine ⟨by simpa using hu, fun key hk => ?_⟩
        rw [Tree.lookup_set, if_neg hk]

theorem migrate_exists {es : Tree.Entries} (h : ((subMap es "ports").all fun p => unknownKeys p = []) = true) :
    ∃ es', migrateLegacyPortsMapping es = .ok es' := by
  unfold subMap at h
  unfold migrateLegacyPortsMapping
  cases hl : Tree.lookup es "ports" with
  | none => exact ⟨es, rfl⟩
  | some t =>
    rw [hl] at h
    cases t with
    | scalar s => exact ⟨es, rfl⟩
    | list items => exact ⟨es, rfl⟩
    | map ports =>
      have hu : unknownKeys ports = [] := by simpa using h
      simp only [hu, sortable]
      split_ifs
      · exact ⟨_, rfl⟩
      · simp at *
      · simp at *
      · exact ⟨_, rfl⟩

theorem subMap_congr {es es' : Tree.Entries} {key : String} (h : Tree.lookup es' key = Tree.lookup es key) :
    subMap es' key = subMap es key := by
  unfold subMap
  rw [h]

theorem escapes_validate {es : Tree.Entries} : (InstanceConfig.validate C (.map es)).Escapes ↔
    unsortablePorts es = true ∨ (reachesFields es = true ∧
      ((∃ a, subMap es "android" = some a ∧ unhashableAt a "gapps" = true) ∨
        ∃ r, subMap es "resources" = some r ∧ (Resources.validate C (.map r)).Escapes)) := by
  have hassemble : ∀ parts, ¬ (InstanceConfig.assemble parts).Escapes := by
    intro parts
    unfold InstanceConfig.assemble
    split
    split_ifs <;> simp [fail]
  rw [validate_map, Checked.escapes_bind, escapes_migrate]
  refine or_congr Iff.rfl ?_
  constructor
  · rintro ⟨es', hmig, h⟩
    obtain ⟨hkeys, hlook⟩ := migrate_ok hmig
    unfold rejectStealthKey at h
    split_ifs at h with hs
    · exact absurd h (by simp [fail, Checked.bind])
    · rw [Checked.bind_ok, Checked.escapes_bind, escapes_fields, subMap_congr (hlook "android" (by decide)),
        subMap_congr (hlook "resources" (by decide))] at h
      have hst : Tree.has es "stealth" = false := by
        rw [Tree.has, ← hlook "stealth" (by decide)]
        simpa [Tree.has] using hs
      refine ⟨by rw [reachesFields, hst, hkeys]; rfl, ?_⟩
      rcases h with h | ⟨parts, _, h⟩
      · exact h
      · exact absurd h (hassemble parts)
  · rintro ⟨hreach, h⟩
    unfold reachesFields at hreach
    obtain ⟨hst, hkeys⟩ := Bool.and_eq_true_iff.1 hreach
    obtain ⟨es', hmig⟩ := migrate_exists hkeys
    obtain ⟨-, hlook⟩ := migrate_ok hmig
    refine ⟨es', hmig, ?_⟩
    have hs : ¬ Tree.has es' "stealth" = true := by
      rw [Tree.has, hlook "stealth" (by decide)]
      simpa [Tree.has] using hst
    rw [rejectStealthKey, if_neg hs, Checked.bind_ok, Checked.escapes_bind, escapes_fields,
      subMap_congr (hlook "android" (by decide)), subMap_congr (hlook "resources" (by decide))]
    exact Or.inl h

theorem escapes_autoBumpable {es : Tree.Entries} :
    (autoBumpable (Tree.lookup es "api_version")).Escapes ↔ unhashableAt es "api_version" = true := by
  unfold unhashableAt
  cases Tree.lookup es "api_version" with
  | none => simp [autoBumpable]
  | some t => cases t <;> simp [autoBumpable, Tree.hashable]

/-- `load_yaml` itself looks `android.gapps` up: the version is upgraded, and no renamed key is found before -/
def looksUpGapps (es : Tree.Entries) : Bool :=
  autoBumpable (Tree.lookup es "api_version") = .ok true && !Tree.has es "stealth" &&
    !(subMap es "display").any fun d => Tree.has d "gpu_mode"

theorem escapes_renamedKeyPresent {es : Tree.Entries} : (renamedKeyPresent es).Escapes ↔
    Tree.has es "stealth" = false ∧ ((subMap es "display").any fun d => Tree.has d "gpu_mode") = false ∧
      ∃ a, subMap es "android" = some a ∧ unhashableAt a "gapps" = true := by
  unfold renamedKeyPresent
  split_ifs with hs hd
  · simp [hs]
  · simp [hs, hd]
  · rw [Checked.escapes_bind]
    simp only [Checked.escapes_ok, and_false, exists_false, or_false]
    have h1 : Tree.has es "stealth" = false := by simpa using hs
    have h2 : ((subMap es "display").any fun d => Tree.has d "gpu_mode") = false := by simpa using hd
    simp only [h1, h2, true_and]
    cases subMap es "android" with
    | none => simp
    | some a => simp [escapes_legacyGapps]

/-- everything on which an exception other than `ValidationError` leaves `load_yaml` -/
def Raises (C : Conversions) (es : Tree.Entries) : Prop :=
  unhashableAt es "api_version" = true ∨ unsortablePorts es = true ∨
  (∃ a, subMap es "android" = some a ∧ unhashableAt a "gapps" = true ∧
    (looksUpGapps es = true ∨ reachesFields es = true)) ∨
  (∃ r, subMap es "resources" = some r ∧ reachesFields es = true ∧ Tree.has r "shm" = false ∧
    ∃ mem cpus shared reservation swap pids, Resources.fields C r = .ok (mem, cpus, shared, reservation, swap, pids) ∧
      SizesOverflow mem (reservation.map (·.1)) (swap.map (·.1)))

theorem raises_iff {es : Tree.Entries} : Raises C es ↔ unhashableAt es "api_version" = true ∨
    (looksUpGapps es = true ∧ ∃ a, subMap es "android" = some a ∧ unhashableAt a "gapps" = true) ∨
      (InstanceConfig.validate C (.map es)).Escapes := by
  rw [escapes_validate]
  simp only [escapes_resources]
  unfold Raises
  constructor
  · intro h
    rcases h with h | h | ⟨a, ha, hg, hl | hr⟩ | ⟨r, hr, hf, h⟩
    · exact Or.inl h
    · exact Or.inr (Or.inr (Or.inl h))
    · exact Or.inr (Or.inl ⟨hl, a, ha, hg⟩)
    · exact Or.inr (Or.inr (Or.inr ⟨hr, Or.inl ⟨a, ha, hg⟩⟩))
    · exact Or.inr (Or.inr (Or.inr ⟨hf, Or.inr ⟨r, hr, h⟩⟩))
  · intro h
    rcases h with h | ⟨hl, a, ha, hg⟩ | h | ⟨hf, ⟨a, ha, hg⟩ | ⟨r, hr, h⟩⟩
    · exact Or.inl h
    · exact Or.inr (Or.inr (Or.inl ⟨a, ha, hg, Or.inl hl⟩))
    · exact Or.inr (Or.inl h)
    · exact Or.inr (Or.inr (Or.inl ⟨a, ha, hg, Or.inr hf⟩))
    · exact Or.inr (Or.inr (Or.inr ⟨r, hr, hf, h⟩))

/-- the upgrade changes no section -/
theorem escapes_upgraded {es : Tree.Entries} :
    (InstanceConfig.validate C (.map (Tree.set es "api_version" (.int supportedApiVersion)))).Escapes ↔
      (InstanceConfig.validate C (.map es)).Escapes := by
  have hset : ∀ key, key ≠ "api_version" →
      Tree.lookup (Tree.set es "api_version" (.int supportedApiVersion)) key = Tree.lookup es key := by
    intro key hk
    rw [Tree.lookup_set, if_neg hk]
  rw [escapes_validate, escapes_validate]
  simp only [unsortablePorts, reachesFields, Tree.has, hset "stealth" (by decide),
    subMap_congr (hset "ports" (by decide)), subMap_congr (hset "android" (by decide)),
    subMap_congr (hset "resources" (by decide))]

theorem renamedKeyPresent_ne_invalid (es : Tree.Entries) (errors : List Issue) :
    renamedKeyPresent es ≠ .invalid errors := by
  have hlegacy : ∀ v, legacyGapps v ≠ .invalid errors := by
    intro v
    unfold legacyGapps
    split
    · simp
    · simp
    · split_ifs <;> simp
  unfold renamedKeyPresent
  split_ifs
  · simp
  · simp
  · cases subMap es "android" with
    | none => simp
    | some a =>
      simp only
      cases hl : legacyGapps (Tree.lookup a "gapps") with
      | ok b => simp
      | escape x => simp [Checked.bind]
      | invalid es' =>
        intro h
        exact hlegacy _ (hl.trans h)

theorem escapes_load {es : Tree.Entries} : (loadYaml C (.map es)).Escapes ↔ Raises C es := by
  rw [raises_iff, loadYaml_map]
  cases hb : autoBumpable (Tree.lookup es "api_version") with
  | escape x => exact iff_of_true ⟨x, rfl⟩ (Or.inl (escapes_autoBumpable.1 ⟨x, hb⟩))
  | invalid errors =>
    unfold autoBumpable at hb
    split at hb <;> cases hb
  | ok bump =>
    have hun : ¬ unhashableAt es "api_version" = true := by
      rw [← escapes_autoBumpable, hb]
      simp
    rw [Checked.bind_ok, or_iff_right hun]
    cases bump with
    | false =>
      have hl : ¬ looksUpGapps es = true := by simp [looksUpGapps, hb]
      rw [if_neg (by simp)]
      simp only [hl, Bool.false_eq_true, false_and, false_or]
    | true =>
      have hl : looksUpGapps es = true ∧ (∃ a, subMap es "android" = some a ∧ unhashableAt a "gapps" = true) ↔
          (renamedKeyPresent es).Escapes := by
        rw [escapes_renamedKeyPresent]
        simp [looksUpGapps, hb, and_assoc]
      rw [if_pos rfl, hl, Checked.escapes_bind, escapes_upgraded]
      refine or_congr_right' fun hr => ?_
      rcases Checked.not_escapes_iff.1 hr with ⟨b, hb⟩ | ⟨errors, he⟩
      · exact ⟨fun ⟨_, _, h⟩ => h, fun h => ⟨b, hb, h⟩⟩
      · exact absurd he (renamedKeyPresent_ne_invalid es errors)

end Loud

/-- `load_yaml` returns a config or raises a `ValidationError`, exactly when the file is no mapping that `Raises` -/
theorem load_documented (C : Conversions) (raw : Tree) :
    ((∃ cfg, loadYaml C raw = .ok cfg) ∨ ∃ errors, loadYaml C raw = .invalid errors) ↔
      ∀ es, raw = .map es → ¬ Raises C es := by
  rw [← Checked.not_escapes_iff]
  cases raw with
  | map es =>
    rw [escapes_load]
    constructor
    · intro h es' he
      cases he
      exact h
    · intro h
      exact h es rfl
  | list items => exact iff_of_true (by simp [loadYaml, InstanceConfig.validate, fail]) (fun es he => by cases he)
  | scalar s =>
    refine iff_of_true ?_ (fun es he => by cases he)
    cases s with
    | null =>
      rw [show loadYaml C (.scalar .null) = InstanceConfig.validate C (.map []) from rfl, escapes_validate]
      simp [unsortablePorts, subMap]
    | _ => simp [loadYaml, InstanceConfig.validate, fail]

/-- four hundred digits -/
def hugeSize : String := String.ofList (List.replicate 400 '9')

theorem hugeSize_checked : checkDockerSize hugeSize = true := by
  unfold checkDockerSize hugeSize
  rw [String.toList_ofList]
  decide +kernel

theorem hugeSize_float : parseFloat (List.replicate 400 '9') = some (Double.ofRat (10 ^ 400 - 1 : ℕ)) := by
  have hnumber : number (List.replicate 400 '9') = 10 ^ 400 - 1 := by decide +kernel
  have hlast : (List.replicate 400 '9').getLast? ≠ some '\n' := by decide +kernel
  have hwhole : (List.replicate 400 '9').takeWhile isDecimal = List.replicate 400 '9' := by decide +kernel
  have hrest : (List.replicate 400 '9').dropWhile isDecimal = [] := by decide +kernel
  have hne : List.replicate 400 '9' ≠ [] := by decide +kernel
  simp only [parseFloat, if_neg hlast, hwhole, hrest, if_neg hne, hnumber]

theorem hugeSize_overflows : Overflows hugeSize := by
  have hsuffix : ((List.replicate 400 '9').getLast?.bind fun c => dockerSizeMultiplier c.toLower) = none := by
    decide +kernel
  have hint : intOfFloat (Double.ofRat (10 ^ 400 - 1 : ℕ)) = .error .overflow := by decide +kernel
  have hbytes : sizeToBytes (List.replicate 400 '9') = .error .overflow := by
    unfold sizeToBytes
    simp only [hsuffix, hugeSize_float]
    exact hint
  have hchars : hugeSize.toList = List.replicate 400 '9' := String.toList_ofList
  exact (congrArg sizeToBytes hchars).trans hbytes

/-- a list as the version, port keys of two types, a list as the GApps intent, and a size of four hundred digits -/
theorem load_escapes :
    (loadYaml .exact (.record [("api_version", .list [.int 8])])).Escapes ∧
    (loadYaml .exact (.record [("ports", .map [(.int 80, .int 8080), (.str "web", .int 8081)])])).Escapes ∧
    (loadYaml .exact (.record [("android", .record [("gapps", .list [.str "full"])])])).Escapes ∧
    (loadYaml .exact (.record [("resources", .record [("mem", .str hugeSize)])])).Escapes := by
  -- the exception alone decides, not the config
  refine ⟨(Checked.escapes_map (f := fun _ => ())).1 ⟨.unhashable, by decide +kernel⟩,
    (Checked.escapes_map (f := fun _ => ())).1 ⟨.incomparable, by decide +kernel⟩,
    (Checked.escapes_map (f := fun _ => ())).1 ⟨.unhashable, by decide +kernel⟩, ?_⟩
  have hmem : dockerSize .exact (.str hugeSize) = .ok ⟨hugeSize, hugeSize_checked⟩ := by
    rw [dockerSize, convert_str, Checked.bind_ok, ensure_val (⟨hugeSize, hugeSize_checked⟩ : DockerSize)]
  have hfields : Resources.fields .exact [(.str "mem", .str hugeSize)] =
      .ok (⟨hugeSize, hugeSize_checked⟩, Resources.default.cpus, Resources.default.sharedMem, none, none,
        Resources.default.pidsLimit) := by
    rw [Resources.fields, fieldOr_some _ (Tree.lookup_cons_self ..) hmem]
    rfl
  refine escapes_load.2 (Or.inr (Or.inr (Or.inr ⟨_, rfl, by decide, by decide, _, _, _, _, _, _, hfields, ?_⟩)))
  exact Or.inl hugeSize_overflows

end Beetroot.Config
