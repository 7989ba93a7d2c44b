/-
Does a config survive being written and loaded again?

`write_yaml` dumps every field of the config, so the second load meets the supported `api_version`, the list form of `ports:` and
no section that is absent: none of the migrations fires again, and every check is one that the value already carries. That
`yaml.safe_load` gives back what `yaml.safe_dump` was given is taken as it is; so a file is its tree.

Results:
- `validate_dump` of every section: the dump of a section validates to the section itself;
- `load_dump`: the dump of a config loads to the config;
- `load_save_load`: on every accepted tree saving and loading again changes nothing, and a legacy `ports:` mapping publishes
  exactly the three well-known services, each on its mapped host port or on its stride default.
-/
import Beetroot.Config.Load
import Beetroot.Ports.Bands

namespace Beetroot.Config

open Lib

variable {α : Type}

/-! ## Fields -/

theorem nullable_dumpOption {check : Tree → V α} {dump : α → Tree} (h : ∀ a, check (dump a) = .ok a)
    (hn : ∀ a, dump a ≠ .null) (o : Option α) : nullable check (dumpOption dump o) = .ok o := by
  cases o with
  | none => rfl
  | some a =>
    have hstep : nullable check (dump a) = (check (dump a)).map some := by
      unfold nullable
      split
      · rename_i he
        exact absurd he (hn a)
      · rfl
    rw [dumpOption, hstep, h a]
    rfl

theorem literal_text {values : List α} {text : α → String} (hinj : ∀ a b, text a = text b → a = b)
    {a : α} (ha : a ∈ values) : literal values text (.str (text a)) = .ok a := by
  have hfind : values.find? (fun v => text v = text a) = some a := by
    cases hf : values.find? (fun v => text v = text a) with
    | none => exact absurd (List.find?_eq_none.1 hf a ha) (by simp)
    | some b =>
      have := List.find?_some hf
      rw [hinj b a (by simpa using this)]
  simp only [literal, Tree.str, hfind]

theorem eachItem_map {check : Tree → V α} {dump : α → Tree} (h : ∀ a, check (dump a) = .ok a) (i : ℕ) (as : List α) :
    eachItem check i (as.map dump) = .ok as := by
  induction as generalizing i with
  | nil => rfl
  | cons a as ih => simp [eachItem, h a, ih, under]

theorem listOf_map {check : Tree → V α} {dump : α → Tree} (h : ∀ a, check (dump a) = .ok a) (as : List α) :
    listOf check (.list (as.map dump)) = .ok as := eachItem_map h 0 as

theorem str_ne_null (s : String) : Tree.str s ≠ .null := by
  intro h
  cases h

theorem int_ne_null (n : Int) : Tree.int n ≠ .null := by
  intro h
  cases h

/-! ## Sections -/

section Sections

variable (C : Conversions)

theorem positive_dump (n : Positive) : positive C (.int n) = .ok n := by
  rw [positive, convert_int, Checked.bind_ok, ensure_val]

theorem atLeast_dump (least : Int) (n : {n : Int // least ≤ n}) : atLeast C least (.int n) = .ok n := by
  rw [atLeast, convert_int, Checked.bind_ok, ensure_val]

theorem port_dump (n : Port) : port C (.int n) = .ok n := by
  rw [port, convert_int, Checked.bind_ok, ensure_val]

theorem dockerSize_dump (v : DockerSize) : dockerSize C (.str v) = .ok v := by
  rw [dockerSize, convert_str, Checked.bind_ok, ensure_val]

theorem memswap_dump (v : Memswap) : memswap C (.str v) = .ok v := by
  rw [memswap, convert_str, Checked.bind_ok, ensure_val]

theorem sha256Digest_dump (v : Sha256) : sha256Digest C (.str v) = .ok v := by
  rw [sha256Digest, convert_str, Checked.bind_ok, ensure_val]

theorem Display.validate_dump (d : Display) : Display.validate C d.dump = .ok d := by
  have hr : literal [.gpu, .software, .auto] Rendering.text (.str d.rendering.text) = .ok d.rendering :=
    literal_text (fun a b h => by cases a <;> cases b <;> first | rfl | (revert h; decide)) (by cases d.rendering <;> simp)
  simp [Display.validate, Display.dump, Tree.record, Tree.has, Tree.lookup_cons, fieldOr, under, positive_dump, hr]

theorem Android.validate_dump (a : Android) : Android.validate C a.dump = .ok a := by
  have hg : literal [.none, .minimal, .full] GappsIntent.text (.str a.gapps.text) = .ok a.gapps :=
    literal_text (fun a b h => by cases a <;> cases b <;> first | rfl | (revert h; decide)) (by cases a.gapps <;> simp)
  have hv : nullable (literal [.litegapps, .opengapps, .mindthegapps] GappsVendor.text)
      (dumpOption (fun v => .str v.text) a.gappsVendor) = .ok a.gappsVendor := by
    refine nullable_dumpOption (fun v => literal_text ?_ ?_) (fun v => str_ne_null _) _
    · intro x y h
      cases x <;> cases y <;> first | rfl | (revert h; decide)
    · cases v <;> simp
  have hver : androidVersion C (.int a.version) = .ok a.version := by
    rw [androidVersion, convert_int, Checked.bind_ok, ensure_val]
  have hlegacy : legacyGapps (some (.str a.gapps.text)) = .ok false := by
    cases a.gapps <;> decide
  have hfields : Android.fields C [(.str "version", .int a.version), (.str "gapps", .str a.gapps.text),
      (.str "gapps_vendor", dumpOption (fun v => .str v.text) a.gappsVendor)] = .ok a := by
    rw [Android.fields, fieldOr_some _ (Tree.lookup_cons_self ..) hver, fieldOr_some _ (by simp [Tree.lookup_cons]) hg,
      fieldOr_some _ (by simp [Tree.lookup_cons]) hv, Checked.both_ok, Checked.both_ok, Checked.bind_ok]
    exact dif_pos a.consistent
  simp [Android.validate, Android.dump, Tree.record, Tree.has, Tree.lookup_cons, hlegacy, hfields]

theorem Resources.validate_dump (r : Resources) : Resources.validate C r.dump = .ok r := by
  have hres : nullable (dockerSize C) (dumpOption (fun v => .str v.1) r.memReservation) = .ok r.memReservation :=
    nullable_dumpOption (dockerSize_dump C) (fun _ => str_ne_null _) _
  have hswap : nullable (memswap C) (dumpOption (fun v => .str v.1) r.memswapLimit) = .ok r.memswapLimit :=
    nullable_dumpOption (memswap_dump C) (fun _ => str_ne_null _) _
  have hcpus : cpuCount C (.float r.cpus) = .ok r.cpus := by
    rw [cpuCount, convert_float, Checked.bind_ok, ensure_val]
  simp [Resources.validate, Resources.fields, Resources.assemble, Resources.dump, Tree.record, Tree.has, Tree.lookup_cons, fieldOr, under,
    dockerSize_dump, atLeast_dump, hres, hswap, hcpus, Checked.withProof_ok r.ordered]

theorem Frida.validate_dump (f : Frida) : Frida.validate C f.dump = .ok f := by
  have hver : fridaVersion C (.str f.version) = .ok f.version := by
    rw [fridaVersion, convert_str, Checked.bind_ok, ensure_val]
  have hsha : nullable (sha256Digest C) (dumpOption (fun v => .str v.1) f.sha256) = .ok f.sha256 :=
    nullable_dumpOption (sha256Digest_dump C) (fun _ => str_ne_null _) _
  have hpin := f.pinned
  simp only [Frida.validate, Frida.dump, Tree.record, List.map_cons, List.map_nil]
  rw [fieldOr_some _ (Tree.lookup_cons_self ..) hver, fieldOr_some _ (by simp [Tree.lookup_cons]) hsha,
    Checked.both_ok, Checked.bind_ok, dif_pos hpin]

theorem Module.validate_dump (m : Module) : Module.validate C m.dump = .ok m := by
  have hurl : nullable (convert C.str) (dumpOption .str m.url) = .ok m.url :=
    nullable_dumpOption (convert_str C) str_ne_null _
  have hpath : nullable (convert C.str) (dumpOption .str m.path) = .ok m.path :=
    nullable_dumpOption (convert_str C) str_ne_null _
  have hsha : nullable (sha256Digest C) (dumpOption (fun v => .str v.1) m.sha256) = .ok m.sha256 :=
    nullable_dumpOption (sha256Digest_dump C) (fun _ => str_ne_null _) _
  simp [Module.validate, Module.dump, Tree.record, Tree.lookup_cons, fieldOr, under, hurl, hpath, hsha,
    Checked.withProof_ok m.source]

theorem Magisk.validate_dump (m : Magisk) : Magisk.validate C m.dump = .ok m := by
  have hlist : listOf (convert C.str) (.list (m.denylist.map fun e => .str e.1)) = .ok (m.denylist.map (·.1)) := by
    have hmap : listOf (convert C.str) (.list ((m.denylist.map (·.1)).map Tree.str)) = .ok (m.denylist.map (·.1)) :=
      listOf_map (convert_str C) _
    rwa [List.map_map] at hmap
  have hall : ∀ e ∈ m.denylist.map (·.1), checkDenylistEntry e = true := by
    intro e he
    obtain ⟨x, -, rfl⟩ := List.mem_map.1 he
    exact x.2
  have hpkg : checkPackages (m.denylist.map (·.1)) = .ok m.denylist := by
    rw [checkPackages, dif_pos hall]
    congr 1
    exact List.map_injective_iff.2 Subtype.val_injective (by simp)
  simp only [Magisk.validate, Magisk.dump, Tree.record, List.map_cons, List.map_nil]
  rw [fieldOr_some _ (Tree.lookup_cons_self ..) (by rw [hlist, Checked.bind_ok, hpkg]), Checked.map_ok]

theorem portMapping_dump (m : PortMapping) : portMapping C (dumpPort m) = .ok m := by
  have hservice : nullable (convert C.str) (dumpOption .str m.service) = .ok m.service :=
    nullable_dumpOption (convert_str C) str_ne_null _
  have hguest : port C (.int m.guest) = .ok ⟨m.guest, m.guest_range⟩ := port_dump C ⟨m.guest, m.guest_range⟩
  have hhost : ∃ host, nullable (port C) (dumpOption .int m.host) = .ok host ∧ host.map (·.1) = m.host := by
    cases hm : m.host with
    | none => exact ⟨none, rfl, rfl⟩
    | some h =>
      refine ⟨some ⟨h, m.host_range h hm⟩, ?_, rfl⟩
      have hport : nullable (port C) (dumpOption (fun n : Port => .int n.1) (some ⟨h, m.host_range h hm⟩)) =
          .ok (some ⟨h, m.host_range h hm⟩) := nullable_dumpOption (port_dump C) (fun _ => int_ne_null _) _
      exact hport
  obtain ⟨host, hhost, hval⟩ := hhost
  simp only [portMapping, dumpPort, Tree.record, List.map_cons, List.map_nil]
  rw [fieldOr_some _ (Tree.lookup_cons_self ..) hservice, requiredField_some (by simp [Tree.lookup_cons]) hguest,
    fieldOr_some _ (by simp [Tree.lookup_cons]) hhost, Checked.both_ok, Checked.both_ok, Checked.map_ok]
  cases m
  simp only at hval
  subst hval
  rfl

theorem vm_dump (v : Vm) : vm C (dumpVm v) = .ok v := by
  have hkernel : nullable (convert C.str) (dumpOption .str v.kernel) = .ok v.kernel :=
    nullable_dumpOption (convert_str C) str_ne_null _
  have hrootfs : nullable (convert C.str) (dumpOption .str v.rootfs) = .ok v.rootfs :=
    nullable_dumpOption (convert_str C) str_ne_null _
  have haccel : literal [.auto, .kvm, .tcg] accelText (.str (accelText v.accel)) = .ok v.accel :=
    literal_text (fun a b h => by cases a <;> cases b <;> first | rfl | (revert h; decide)) (by cases v.accel <;> simp)
  have hmem : atLeast C 256 (.int v.memoryMib) = .ok ⟨v.memoryMib, v.memory_range⟩ :=
    atLeast_dump C 256 ⟨v.memoryMib, v.memory_range⟩
  have hsmp : ∃ n, smp C (dumpSmp v.smp) = .ok n ∧ n.map (·.1) = v.smp := by
    cases hv : v.smp with
    | none => exact ⟨none, rfl, rfl⟩
    | some n =>
      refine ⟨some ⟨n, v.smp_range n hv⟩, ?_, rfl⟩
      have hstep : smp C (.int n) = ((convert C.int (.int n)).bind (ensure (1 ≤ ·) fun n => .value (.smpRange n))).map some := rfl
      rw [dumpSmp, hstep, convert_int, Checked.bind_ok, ensure_val (P := (1 ≤ ·)) ⟨n, v.smp_range n hv⟩]
      rfl
  obtain ⟨n, hsmp, hval⟩ := hsmp
  simp only [Config.vm, dumpVm, Tree.record, List.map_cons, List.map_nil]
  rw [fieldOr_some _ (Tree.lookup_cons_self ..) hkernel, fieldOr_some _ (by simp [Tree.lookup_cons]) hrootfs,
    fieldOr_some _ (by simp [Tree.lookup_cons]) haccel, fieldOr_some _ (by simp [Tree.lookup_cons]) hsmp,
    fieldOr_some _ (by simp [Tree.lookup_cons]) hmem, fieldOr_some _ (by simp [Tree.lookup_cons]) (convert_bool C v.bootCache)]
  simp only [Checked.both_ok, Checked.map_ok]
  cases v
  simp only at hval
  subst hval
  rfl

/-! ## The config -/

/-- the dump of a config validates to the config -/
theorem validate_dump (cfg : InstanceConfig) : InstanceConfig.validate C cfg.dump = .ok cfg := by
  have hlife : literal [.ephemeral, .durable] lifecycleText (.str (lifecycleText cfg.lifecycle)) = .ok cfg.lifecycle :=
    literal_text (fun a b h => by cases a <;> cases b <;> first | rfl | (revert h; decide)) (by cases cfg.lifecycle <;> simp)
  have hbinder : literal [.auto, .host, .vm] binderText (.str (binderText cfg.binder)) = .ok cfg.binder :=
    literal_text (fun a b h => by cases a <;> cases b <;> first | rfl | (revert h; decide)) (by cases cfg.binder <;> simp)
  have hfrida : nullable (Frida.validate C) (dumpOption Frida.dump cfg.frida) = .ok cfg.frida :=
    nullable_dumpOption (Frida.validate_dump C) (fun f h => by cases h) _
  have hmodules : listOf (Module.validate C) (.list (cfg.modules.map Module.dump)) = .ok cfg.modules :=
    listOf_map (Module.validate_dump C) _
  have hports : listOf (portMapping C) (.list (cfg.ports.map dumpPort)) = .ok cfg.ports :=
    listOf_map (portMapping_dump C) _
  have hfields : InstanceConfig.fields C (cfg.dumpFields.map fun f => (.str f.1, f.2)) =
      .ok (cfg.apiVersion, cfg.lifecycle, cfg.android, cfg.display, cfg.resources, cfg.frida, cfg.modules, cfg.magisk,
        cfg.ports, cfg.binder, cfg.vm) := by
    simp only [InstanceConfig.dumpFields, List.map_cons, List.map_nil]
    rw [InstanceConfig.fields, fieldOr_some _ (Tree.lookup_cons_self ..) (convert_int C _),
      fieldOr_some _ (by simp [Tree.lookup_cons]) hlife,
      fieldOr_some _ (by simp [Tree.lookup_cons]) (Android.validate_dump C cfg.android),
      fieldOr_some _ (by simp [Tree.lookup_cons]) (Display.validate_dump C cfg.display),
      fieldOr_some _ (by simp [Tree.lookup_cons]) (Resources.validate_dump C cfg.resources),
      fieldOr_some _ (by simp [Tree.lookup_cons]) hfrida, fieldOr_some _ (by simp [Tree.lookup_cons]) hmodules,
      fieldOr_some _ (by simp [Tree.lookup_cons]) (Magisk.validate_dump C cfg.magisk),
      fieldOr_some _ (by simp [Tree.lookup_cons]) hports, fieldOr_some _ (by simp [Tree.lookup_cons]) hbinder,
      fieldOr_some _ (by simp [Tree.lookup_cons]) (vm_dump C cfg.vm)]
    rfl
  have hmigrate : migrateLegacyPortsMapping (cfg.dumpFields.map fun f => (.str f.1, f.2)) =
      .ok (cfg.dumpFields.map fun f => (.str f.1, f.2)) := by
    have hl : Tree.lookup (cfg.dumpFields.map fun f => (Scalar.str f.1, f.2)) "ports" =
        some (.list (cfg.ports.map dumpPort)) := by
      simp [InstanceConfig.dumpFields, Tree.lookup_cons]
    simp only [migrateLegacyPortsMapping, hl]
  have hstealth : rejectStealthKey (cfg.dumpFields.map fun f => (.str f.1, f.2)) =
      .ok (cfg.dumpFields.map fun f => (.str f.1, f.2)) := by
    rw [rejectStealthKey, if_neg]
    simp [InstanceConfig.dumpFields, Tree.has, Tree.lookup_cons]
  rw [InstanceConfig.dump, Tree.record, validate_map, hmigrate, Checked.bind_ok, hstealth, Checked.bind_ok, hfields, Checked.bind_ok, InstanceConfig.assemble,
    dif_pos cfg.distinct, dif_pos cfg.addressing, dif_pos cfg.supported]

/-- the dump has the supported version, so it is not upgraded -/
theorem load_dump (cfg : InstanceConfig) : loadYaml C cfg.dump = .ok cfg := by
  have hversion : autoBumpable (Tree.lookup (cfg.dumpFields.map fun f => (Scalar.str f.1, f.2)) "api_version") = .ok false := by
    have hl : Tree.lookup (cfg.dumpFields.map fun f => (Scalar.str f.1, f.2)) "api_version" = some (.int cfg.apiVersion) := by
      simp [InstanceConfig.dumpFields, Tree.lookup_cons]
    rw [hl, cfg.supported]
    decide
  rw [InstanceConfig.dump, Tree.record, loadYaml_map, hversion, Checked.bind_ok, if_neg (by simp)]
  exact validate_dump C cfg

/-! ## Legacy ports -/

/-- the host port that a legacy mapping gives a service -/
def mappedHost (ports : Tree.Entries) (service : String) : Option Int :=
  match Tree.lookup ports service with
  | none | some (.scalar .null) => none
  | some t => C.int t

variable {C}

theorem fieldOr_eq {es : Tree.Entries} {key : String} {t : Tree} {check : Tree → V α} {default a : α}
    (hl : Tree.lookup es key = some t) (h : fieldOr es key default check = .ok a) : check t = .ok a := by
  simp only [fieldOr, hl] at h
  exact Checked.mapErrors_ok_iff.1 h

theorem nullable_eq {check : Tree → V α} {t : Tree} {o : Option α} (h : nullable check t = .ok o) :
    (t = .null ∧ o = none) ∨ (t ≠ .null ∧ ∃ a, o = some a ∧ check t = .ok a) := by
  unfold nullable at h
  split at h
  · exact Or.inl ⟨rfl, (Checked.ok.inj h).symm⟩
  · rename_i hne
    obtain ⟨a, ha, rfl⟩ := Checked.map_ok_iff.1 h
    exact Or.inr ⟨fun he => hne he, a, rfl, ha⟩

theorem port_eq {t : Tree} {n : Port} (h : port C t = .ok n) : C.int t = some n.1 := by
  obtain ⟨m, hm, hn⟩ := Checked.bind_ok_iff.1 h
  unfold ensure at hn
  split_ifs at hn with hr
  · have hmn : (⟨m, hr⟩ : Port) = n := Checked.ok.inj hn
    unfold convert at hm
    split at hm
    · rename_i k hk
      rw [hk, Checked.ok.inj hm, ← hmn]
    · cases hm
  · cases hn

/-- the `host` of a migrated entry: a missing value is a null one -/
theorem host_migrated {ports : Tree.Entries} {service : String} {o : Option Port}
    (h : nullable (port C) ((Tree.lookup ports service).getD .null) = .ok o) :
    o.map (·.1) = mappedHost C ports service := by
  unfold mappedHost
  rcases nullable_eq h with ⟨hnull, rfl⟩ | ⟨hne, a, rfl, hport⟩
  · split
    · rfl
    · rfl
    · rename_i t hnot hl
      rw [hl] at hnull
      exact absurd hnull hnot
  · split
    · rename_i hl
      rw [hl] at hne
      exact absurd rfl hne
    · rename_i hl
      rw [hl] at hne
      exact absurd rfl hne
    · rename_i t hnot hl
      rw [hl] at hport
      exact (port_eq hport).symm

/-- an entry of the migrated list -/
theorem portMapping_migrated {ports : Tree.Entries} {service : String} {guest : Int} {m : PortMapping}
    (h : portMapping C (.record [("service", .str service), ("guest", .int guest),
      ("host", (Tree.lookup ports service).getD .null)]) = .ok m) :
    m.service = some service ∧ m.guest = guest ∧ m.host = mappedHost C ports service := by
  simp only [portMapping, Tree.record, List.map_cons, List.map_nil] at h
  obtain ⟨⟨s, g, o⟩, hp, hm⟩ := Checked.map_ok_iff.1 h
  obtain ⟨hs, hp⟩ := Checked.both_ok_iff.1 hp
  obtain ⟨hg, ho⟩ := Checked.both_ok_iff.1 hp
  subst hm
  have hs' := fieldOr_eq (Tree.lookup_cons_self ..) hs
  have hg' : C.int (.int guest) = some g.1 := by
    simp only [requiredField] at hg
    rw [Tree.lookup_cons_ne (by simp), Tree.lookup_cons_self] at hg
    exact port_eq (Checked.mapErrors_ok_iff.1 hg)
  have ho' := fieldOr_eq (t := (Tree.lookup ports service).getD .null) (by simp [Tree.lookup_cons]) ho
  refine ⟨?_, ?_, host_migrated ho'⟩
  · rcases nullable_eq hs' with ⟨h0, -⟩ | ⟨-, a, ha, hc⟩
    · exact absurd h0 (str_ne_null service)
    · rw [convert_str, Checked.ok.injEq] at hc
      exact ha.trans (congrArg some hc.symm)
  · rw [C.int_int] at hg'
    exact (Option.some.inj hg').symm

/-- a legacy mapping that migrates has well-known keys only -/
theorem migrate_legacy {es ports es' : Tree.Entries} (hl : Tree.lookup es "ports" = some (.map ports)) (hne : ports ≠ [])
    (h : migrateLegacyPortsMapping es = .ok es') :
    unknownKeys ports = [] ∧ es' = Tree.set es "ports" (migratedPorts ports) := by
  simp only [migrateLegacyPortsMapping, hl] at h
  split_ifs at h with he hs hu
  · exact absurd (List.isEmpty_iff.1 he) hne
  · exact absurd h (by simp [fail])
  · exact ⟨not_not.1 hu, (Checked.ok.inj h).symm⟩

theorem unknownKeys_of_legacy {es ports : Tree.Entries} {cfg : InstanceConfig}
    (hl : Tree.lookup es "ports" = some (.map ports)) (hne : ports ≠ [])
    (h : InstanceConfig.validate C (.map es) = .ok cfg) : unknownKeys ports = [] := by
  rw [validate_map] at h
  obtain ⟨es₁, hmig, -⟩ := Checked.bind_ok_iff.1 h
  exact (migrate_legacy hl hne hmig).1

/-- a loaded config with a legacy mapping has the migrated list -/
theorem ports_of_legacy {es ports : Tree.Entries} {cfg : InstanceConfig} (hl : Tree.lookup es "ports" = some (.map ports))
    (hne : ports ≠ []) (h : InstanceConfig.validate C (.map es) = .ok cfg) :
    listOf (portMapping C) (migratedPorts ports) = .ok cfg.ports := by
  rw [validate_map] at h
  obtain ⟨es₁, hmig, h⟩ := Checked.bind_ok_iff.1 h
  obtain ⟨es₂, hst, h⟩ := Checked.bind_ok_iff.1 h
  obtain ⟨parts, hfields, h⟩ := Checked.bind_ok_iff.1 h
  have h1 := (migrate_legacy hl hne hmig).2
  have h2 : es₂ = es₁ := by
    unfold rejectStealthKey at hst
    split_ifs at hst
    · exact absurd hst (by simp [fail])
    · exact (Checked.ok.inj hst).symm
  have hlook : Tree.lookup es₂ "ports" = some (migratedPorts ports) := by
    rw [h2, h1, Tree.lookup_set, if_pos rfl]
  obtain ⟨v, l, an, di, re, fr, mo, ma, po, bi, vm⟩ := parts
  have hcfg : po = cfg.ports := by
    unfold InstanceConfig.assemble at h
    simp only at h
    split_ifs at h
    · rw [← Checked.ok.inj h]
    all_goals exact absurd h (by simp [fail])
  simp only [InstanceConfig.fields, Checked.both_ok_iff] at hfields
  obtain ⟨-, -, -, -, -, -, -, -, hpo, -, -⟩ := hfields
  rw [← hcfg]
  exact fieldOr_eq hlook hpo

/-- the three entries of a migrated list -/
theorem migrated_entries {ports : Tree.Entries} {ms : List PortMapping}
    (h : listOf (portMapping C) (migratedPorts ports) = .ok ms) :
    List.Forall₂ (fun m (w : String × Int) => m.service = some w.1 ∧ m.guest = w.2 ∧ m.host = mappedHost C ports w.1)
      ms wellKnownServices := by
  simp only [listOf, migratedPorts, wellKnownServices, List.map_cons, List.map_nil, eachItem] at h
  obtain ⟨⟨m₁, r₁⟩, h₁, rfl⟩ := Checked.map_ok_iff.1 h
  obtain ⟨ha, h₁⟩ := Checked.both_ok_iff.1 h₁
  obtain ⟨⟨m₂, r₂⟩, h₂, hr₁⟩ := Checked.map_ok_iff.1 h₁
  obtain ⟨hb, h₂⟩ := Checked.both_ok_iff.1 h₂
  obtain ⟨⟨m₃, r₃⟩, h₃, hr₂⟩ := Checked.map_ok_iff.1 h₂
  obtain ⟨hc, hr₃⟩ := Checked.both_ok_iff.1 h₃
  simp only at ha hb hc hr₁ hr₂ hr₃
  rw [← hr₁, ← hr₂, ← Checked.ok.inj hr₃]
  exact List.Forall₂.cons (portMapping_migrated (Checked.mapErrors_ok_iff.1 ha))
    (List.Forall₂.cons (portMapping_migrated (Checked.mapErrors_ok_iff.1 hb))
      (List.Forall₂.cons (portMapping_migrated (Checked.mapErrors_ok_iff.1 hc)) List.Forall₂.nil))

/-- the three services that a migrated list publishes at an index -/
def migratedHosts (C : Conversions) (ports : Tree.Entries) (index : Int) : List ResolvedPort :=
  [⟨some "adb", 5555, (mappedHost C ports "adb").getD (adbBase + index * stride)⟩,
    ⟨some "frida", 27042, (mappedHost C ports "frida").getD (fridaBase + index * stride)⟩,
    ⟨some "frida_control", 27043, (mappedHost C ports "frida_control").getD (fridaControlBase + index * stride)⟩]

theorem ofPair_wellKnown {m : PortMapping} {service : String} {guest b : Int} {host : Option Int} (index : Int)
    (before : List PortMapping) (hb : baseOf (some service) = some b)
    (hm : m.service = some service ∧ m.guest = guest ∧ m.host = host) :
    Bands.ResolvedPort.ofPair (m, Bands.hostFor index before m) =
      ⟨some service, guest, host.getD (b + index * stride)⟩ := by
  obtain ⟨hs, hg, hh⟩ := hm
  have hhost : Bands.hostFor index before m = host.getD (b + index * stride) := by
    cases hmh : m.host with
    | some h =>
      rw [Bands.hostFor_pinned hmh, ← hh, hmh]
      rfl
    | none =>
      rw [Bands.hostFor_stride hmh (by rw [hs]; exact hb), ← hh, hmh]
      rfl
  simp only [Bands.ResolvedPort.ofPair, hs, hg, hhost]

theorem resolve_migrated {ports : Tree.Entries} {ms : List PortMapping} {index : Int} {resolved : List ResolvedPort}
    (h : listOf (portMapping C) (migratedPorts ports) = .ok ms) (hr : resolvePorts index ms = .ok resolved) :
    resolved = migratedHosts C ports index := by
  have hi : 0 ≤ index ∧ index ≤ maxPortIndex := by
    cases hc : checkIndex index with
    | ok u => exact checkIndex_ok.1 hc
    | error e =>
      unfold resolvePorts at hr
      rw [hc] at hr
      cases hr
  obtain ⟨-, -, rfl⟩ := (Bands.resolvePorts_eq_ok hi).1 hr
  have hentries := migrated_entries h
  unfold wellKnownServices at hentries
  cases hentries with
  | cons h₁ hentries =>
    cases hentries with
    | cons h₂ hentries =>
      cases hentries with
      | cons h₃ hentries =>
        cases hentries
        simp only [Bands.allocation, Bands.allocationAfter_cons, List.map_cons]
        rw [ofPair_wellKnown (b := adbBase) index _ (by decide) h₁, ofPair_wellKnown (b := fridaBase) index _ (by decide) h₂,
          ofPair_wellKnown (b := fridaControlBase) index _ (by decide) h₃]
        rfl

/-- saving and loading again changes nothing, and a legacy mapping publishes its hosts or the stride defaults -/
theorem load_save_load {raw : Tree} {cfg : InstanceConfig} (h : loadYaml C raw = .ok cfg) :
    loadYaml C cfg.dump = .ok cfg ∧
    ∀ es ports, raw = .map es → Tree.lookup es "ports" = some (.map ports) → ports ≠ [] →
      unknownKeys ports = [] ∧
      ∀ index resolved, resolvePorts index cfg.ports = .ok resolved → resolved = migratedHosts C ports index := by
  refine ⟨load_dump C cfg, ?_⟩
  intro es ports hraw hl hne
  subst hraw
  rw [loadYaml_map] at h
  obtain ⟨bump, -, h⟩ := Checked.bind_ok_iff.1 h
  -- the upgrade of the version leaves the ports alone
  obtain ⟨es', hl', hval⟩ : ∃ es', Tree.lookup es' "ports" = some (.map ports) ∧
      InstanceConfig.validate C (.map es') = .ok cfg := by
    cases bump with
    | false => exact ⟨es, hl, h⟩
    | true =>
      obtain ⟨_, -, h⟩ := Checked.bind_ok_iff.1 h
      exact ⟨_, by rw [Tree.lookup_set, if_neg (by decide)]; exact hl, h⟩
  refine ⟨unknownKeys_of_legacy hl' hne hval, ?_⟩
  intro index resolved hr
  exact resolve_migrated (ports_of_legacy hl' hne hval) hr

end Sections

/-- a file of an old version that pins adb and leaves frida to its default -/
def legacyFile : Tree :=
  .record [("api_version", .int 7), ("ports", .record [("adb", .int 9000), ("frida", .null)])]

theorem load_save_load_legacy : ∃ cfg, loadYaml .exact legacyFile = .ok cfg ∧ loadYaml .exact cfg.dump = .ok cfg ∧
    resolvePorts 3 cfg.ports =
      .ok [⟨some "adb", 5555, 9000⟩, ⟨some "frida", 27042, 27072⟩, ⟨some "frida_control", 27043, 27073⟩] := by
  obtain ⟨cfg, hcfg⟩ := Checked.isOk_iff.1 (show (loadYaml .exact legacyFile).isOk = true by decide +kernel)
  obtain ⟨hdump, hports⟩ := load_save_load hcfg
  obtain ⟨resolved, hres⟩ : ∃ resolved, resolvePorts 3 cfg.ports = .ok resolved := by
    have hok : (loadYaml .exact legacyFile).map (fun cfg => (resolvePorts 3 cfg.ports).isOk) = .ok true := by decide +kernel
    rw [hcfg, Checked.map_ok, Checked.ok.injEq] at hok
    cases hr : resolvePorts 3 cfg.ports with
    | ok resolved => exact ⟨resolved, rfl⟩
    | error e => rw [hr] at hok; cases hok
  refine ⟨cfg, hcfg, hdump, ?_⟩
  rw [hres, (hports _ _ rfl (by rfl) (by simp)).2 3 resolved hres]
  decide +kernel

end Beetroot.Config
