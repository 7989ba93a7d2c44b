/-
`snapshot` and then `restore`: does the restored directory have what was archived?

The archive is one that `snapshot` has written; the target of the restore does not exist yet. After the `try` of `restore` comes
the network stage, which is soft: whatever it raises, the restore returns. It removes every `modules/*.zip` before it fetches
the listed modules again, so a fetch that fails leaves the restored instance without zips that the archive had.

Results:
- `extractAll_entries`: an extraction of packed entries that returns leaves each file with its bytes;
- `restoreLocal_committed`: what a restore of such an archive has established when the `try` ends;
- `restore_faithful_iff`: the restored instance has the archived files under `data/`, the zips of the listed modules, the same
  `beetroot.yaml` and a row with the least free index, its directory and the archived layout, if and only if every archived zip
  of a listed module outlives the network stage;
- `zip_lost`: an archived zip that is gone because its url cannot be reached.
-/
import Beetroot.Instance.Modules
import Beetroot.Snapshot.Restore

namespace Beetroot.Snapshot

open Lib Lib.Eff Lib.Fs Instance Registration Staging

variable {T B : Type}

/-! ## The whole call -/

/-- the row has the least free index, the target as its directory, and the layout of the manifest -/
structure Replayed (p : Paths) (a : RestoreArgs) (manifest : Manifest) (reg : RegistryFile T) (m : InstanceMeta T) : Prop where
  backend : m.backend = .redroid (p.str (a.target p)) manifest.pathLayout
  free : m.index ∉ reg.usedIndices
  nonneg : 0 ≤ m.index
  least : ∀ j, 0 ≤ j → j < m.index → j ∈ reg.usedIndices

/-- what a restored instance owes its archive; `fs` is the tree that was archived from `root`, `s` the host before the restore
and `u` the host after it -/
structure Faithful (p : Paths) (J : JsonCodec B) (P : Pydantic T) (net : Net B) (fs : FileTree B) (root : Path)
    (archive : Archive B) (cfg : InstanceConfig) (a : RestoreArgs) (s u : Site T B) : Prop where
  data : ∀ rel b, rel ≠ [] → .file ("data" :: rel) b ∈ archive → readFile u.fs (instanceData (a.target p) ++ rel) = some b
  zips : ∀ x b, isZip x = true → x ∈ stagedNames net root 0 [] cfg.modules → .file ["modules", x] b ∈ archive →
    readFile u.fs (instanceModules (a.target p) ++ [x]) = some b
  yaml : readFile u.fs (instanceYaml (a.target p)) = readFile fs (instanceYaml root)
  row : ∃ m manifest, u.reg.instances.get? a.destName = some m ∧ readManifest J P archive = .ok manifest ∧
    Replayed p a manifest s.reg m

/-! ## Extraction -/

section Extract

variable {f : Faults B} {target : Path} {s t : Site T B}

/-- a packed entry leaves its bytes, and every other file as it was -/
theorem extractItem_entry {i : ℕ} {e : Path × Node B} {u : Unit} (h : extractItem f target i (Item.ofEntry e) s = .ok u t) :
    t.reg = s.reg ∧ (∀ b, e.2 = .file b → readFile t.fs (target ++ e.1) = some b) ∧
      ∀ q, q ≠ target ++ e.1 ∨ e.2 = .dir → readFile t.fs q = readFile s.fs q := by
  obtain ⟨name, n⟩ := e
  cases n with
  | dir =>
    have hrun : (makeParents f target i name.dropLast >>= fun _ => mkdirs f (.member i) (target ++ name) : M T B Unit) s =
        .ok u t := h
    obtain ⟨⟨⟩, s₁, hmade, hdir⟩ := bind_ok_iff.1 hrun
    obtain rfl := makeParents_ok hmade
    obtain ⟨-, -, rfl⟩ := mkdirs_ok hdir
    refine ⟨rfl, fun b hb => ?_, fun q _ => (readFile_mkdirs _ _ _).trans (readFile_mkdirs _ _ _)⟩
    cases hb
  | file body =>
    have hrun : (makeParents f target i name.dropLast >>= fun _ => writeText f (.member i) (target ++ name) body : M T B Unit) s =
        .ok u t := h
    obtain ⟨⟨⟩, s₁, hmade, hwrite⟩ := bind_ok_iff.1 hrun
    obtain ⟨-, -, rfl⟩ := writeText_ok hwrite
    obtain rfl := makeParents_ok hmade
    refine ⟨rfl, fun b hb => ?_, fun q hq => ?_⟩
    · cases hb
      rw [readFile_wrote, if_pos rfl]
    · rcases hq with hq | hq
      · rw [readFile_wrote, if_neg hq]
        exact readFile_mkdirs _ _ _
      · cases hq

theorem extractAll_entries {entries : List (Path × Node B)} (hnodup : (entries.map Prod.fst).Nodup) {i : ℕ} {u : Unit}
    (h : extractAll f target i (entries.map Item.ofEntry) s = .ok u t) :
    t.reg = s.reg ∧ (∀ name b, (name, .file b) ∈ entries → readFile t.fs (target ++ name) = some b) ∧
      ∀ q, (∀ name b, (name, .file b) ∈ entries → q ≠ target ++ name) → readFile t.fs q = readFile s.fs q := by
  induction entries generalizing i s with
  | nil =>
    cases h
    exact ⟨rfl, fun name b hmem => (by cases hmem), fun _ _ => rfl⟩
  | cons e entries ih =>
    have hrun : (extractItem f target i (Item.ofEntry e) >>= fun _ =>
        extractAll f target (i + 1) (entries.map Item.ofEntry)) s = .ok u t := h
    obtain ⟨⟨⟩, s₁, hone, hrest⟩ := bind_ok_iff.1 hrun
    obtain ⟨hnot, hnodup'⟩ := List.nodup_cons.1 hnodup
    obtain ⟨hreg, hbytes, hkeep⟩ := extractItem_entry hone
    obtain ⟨hreg', hbytes', hkeep'⟩ := ih hnodup' hrest
    refine ⟨hreg'.trans hreg, fun name b hmem => ?_, fun q hq => ?_⟩
    · rcases List.mem_cons.1 hmem with rfl | hmem
      · -- no later member has its name
        rw [hkeep' _ fun name' b' hmem' heq => ?_]
        · exact hbytes b rfl
        · have : name = name' := List.append_cancel_left heq
          exact hnot (List.mem_map.2 ⟨_, hmem', this.symm⟩)
      · exact hbytes' name b hmem
    · rw [hkeep' q fun name b hmem => hq name b (List.mem_cons_of_mem _ hmem), hkeep q ?_]
      cases hn : e.2 with
      | dir => exact Or.inr rfl
      | file b =>
        refine Or.inl (hq e.1 b ?_)
        rw [← hn]
        exact List.mem_cons_self

end Extract

/-! ## What the `try` establishes -/

section Committed

variable {p : Paths} {k : Codec B} {J : JsonCodec B} {P : Pydantic T} {f : Faults B} {s t : Site T B} {name : String}
  {target : Path} {manifest : Manifest}

theorem loadYamlM_ok {pt : Point} {root : Path} {cfg : InstanceConfig} (h : loadYamlM k f pt root s = .ok cfg t) :
    (readFile s.fs (instanceYaml root)).map k.loadYaml = some (.valid cfg) ∧ t = s := by
  unfold loadYamlM at h
  split at h
  · cases h
  · split at h
    · rename_i cfg' hy
      cases h
      exact ⟨hy, rfl⟩
    · cases h
    · cases h

/-- the layout is replayed into the row of a fresh restore -/
theorem replayLayout_ok {path : String} {index : Int} {now : T} {u : Unit}
    (hrow : s.reg.instances.get? name = some ⟨.redroid path ∅, index, now⟩) (h : replayLayout f name manifest s = .ok u t) :
    t.fs = s.fs ∧ t.reg.instances.get? name = some ⟨.redroid path manifest.pathLayout, index, now⟩ := by
  unfold replayLayout at h
  split_ifs at h with hempty
  · obtain ⟨-, rfl⟩ := pure_ok_iff.1 h
    have hlayout : manifest.pathLayout = ∅ := Dict.ext hempty
    rw [hlayout]
    exact ⟨rfl, hrow⟩
  · unfold setStealthPaths at h
    split_ifs at h
    simp only [stealth, hrow] at h
    cases h
    exact ⟨rfl, by simp only [Dict.get?_set, if_true]⟩

/-- the `try` after the extraction: the row has the layout, the instance is the restored one, only staged entries have changed,
and the `.env` is rendered with the layout -/
theorem restoreRest_ok [DecidableEq B] {path : String} {index : Int} {now : T} {inst : Path × InstanceConfig}
    (hpath : p.resolve path = target) (hrow : s.reg.instances.get? name = some ⟨.redroid path ∅, index, now⟩)
    (h : restoreRest p k f name target index manifest s = .ok inst t) :
    inst.1 = target ∧ (readFile s.fs (instanceYaml target)).map k.loadYaml = some (.valid inst.2) ∧
      t.reg.instances.get? name = some ⟨.redroid path manifest.pathLayout, index, now⟩ ∧
      (∀ q, ¬ Staged target q → readFile t.fs q = readFile s.fs q) ∧
      readFile t.fs (instanceEnv target) = some (k.renderEnv name inst.2 (some manifest.pathLayout)) := by
  obtain ⟨cfg, s₁, h₁, r₁⟩ := bind_ok_iff.1 h
  obtain ⟨-, rfl⟩ := loadYamlM_ok h₁
  obtain ⟨⟨⟩, s₂, h₂, r₂⟩ := bind_ok_iff.1 r₁
  obtain ⟨-, rfl⟩ := refuse_ok_iff.1 h₂
  obtain ⟨⟨⟩, s₃, h₃, r₃⟩ := bind_ok_iff.1 r₂
  obtain ⟨hfs, hrow₃⟩ := replayLayout_ok hrow h₃
  obtain ⟨cfg', s₄, h₄, r₄⟩ := bind_ok_iff.1 r₃
  obtain ⟨-, rfl⟩ := loadYamlM_ok h₄
  obtain ⟨ports, s₅, h₅, r₅⟩ := bind_ok_iff.1 r₄
  obtain ⟨-, rfl⟩ := resolvePortsM_ok h₅
  obtain ⟨⟨⟩, s₆, h₆, r₆⟩ := bind_ok_iff.1 r₅
  obtain ⟨-, -, rfl⟩ := checkPortCollisions_ok h₆
  obtain ⟨inst', s₇, h₇, r₇⟩ := bind_ok_iff.1 r₆
  -- the row is read back, and its directory is the target
  obtain ⟨m, s₈, h₈, r₈⟩ := bind_ok_iff.1 h₇
  obtain ⟨hm, rfl⟩ := metaOf_ok h₈
  rw [hrow₃] at hm
  cases hm
  obtain ⟨cfg'', s₉, h₉, r₉⟩ := bind_ok_iff.1 r₈
  obtain ⟨hyaml, rfl⟩ := loadYamlM_ok h₉
  obtain ⟨rfl, rfl⟩ := pure_ok_iff.1 r₉
  obtain ⟨⟨⟩, s₁₀, h₁₀, r₁₀⟩ := bind_ok_iff.1 r₇
  obtain ⟨rfl, rfl⟩ := pure_ok_iff.1 r₁₀
  rw [hpath, hfs] at hyaml
  have hroot : present s₇.fs target = true := by
    rw [hfs]
    cases hb : readFile s₂.fs (instanceYaml target) with
    | none =>
      rw [hb] at hyaml
      cases hyaml
    | some b => exact present_of_below (List.prefix_append _ _) (present_of_get? (readFile_eq_some.1 hb))
  rw [hpath] at h₁₀
  obtain ⟨hreg, -, hkeep⟩ := (stageLocal_steps k f name target cfg'').of_ok h₁₀ hroot
  refine ⟨hpath, hyaml, by rw [hreg]; exact hrow₃, fun q hq => ?_, stageLocal_env hrow₃ h₁₀⟩
  rw [← hfs]
  unfold readFile
  rw [hkeep q hq]

/-- of packed entries: each file that is not staged has its bytes, and no other file is there -/
theorem restoreLocal_committed [DecidableEq B] {entries : List (Path × Node B)} {a : RestoreArgs} {now : T}
    {inst : Path × InstanceConfig} (hnodup : (entries.map Prod.fst).Nodup) (habsent : present s.fs (a.target p) = false)
    (h : restoreLocal p k J P f (entries.map Item.ofEntry) a now s = .ok inst t) :
    inst.1 = a.target p ∧ (readFile t.fs (instanceYaml (a.target p))).map k.loadYaml = some (.valid inst.2) ∧
      (∃ m manifest, t.reg.instances.get? a.destName = some m ∧ readManifest J P (entries.map Item.ofEntry) = .ok manifest ∧
        Replayed p a manifest s.reg m) ∧
      (∀ name b, (name, .file b) ∈ entries → ¬ Staged (a.target p) (a.target p ++ name) →
        readFile t.fs (a.target p ++ name) = some b) ∧
      ∀ q, a.target p <+: q → ¬ Staged (a.target p) q → (∀ name b, (name, .file b) ∈ entries → q ≠ a.target p ++ name) →
        readFile t.fs q = none := by
  obtain ⟨manifest, index, reg, hmanifest, halloc, hbody⟩ := restoreLocal_ok habsent h
  obtain ⟨-, hrow, -⟩ := allocate_row halloc
  obtain ⟨-, hindex, -, -⟩ := allocate_ok halloc
  obtain ⟨hfree, hnonneg, hleast⟩ := lowestFreeIndex_spec s.reg.usedIndices
  obtain ⟨⟨⟩, s₁, h₁, hrest⟩ := bind_ok_iff.1 hbody
  obtain ⟨⟨⟩, s₂, hextract, h₂⟩ := bind_ok_iff.1 h₁
  have hyaml : (refuse (!isFile s₂.fs (instanceYaml (a.target p)))
      (.snapshot "archive did not contain a beetroot.yaml; refusing to register") : M T B Unit) s₂ = .ok () s₁ := h₂
  obtain ⟨-, rfl⟩ := refuse_ok_iff.1 hyaml
  obtain ⟨hreg, hbytes, hkeep⟩ := extractAll_entries hnodup hextract
  have hresolve : p.resolve (p.str (a.target p)) = a.target p := p.resolve_str a.destPath
  have hrow₁ : s₁.reg.instances.get? a.destName = some ⟨.redroid (p.str (a.target p)) ∅, index, now⟩ := by
    rw [hreg]
    exact hrow
  obtain ⟨hroot, hload, hrow₂, hstaged, -⟩ := restoreRest_ok hresolve hrow₁ hrest
  refine ⟨hroot, ?_, ⟨_, manifest, hrow₂, hmanifest, ?_⟩, fun name b hmem hns => ?_, fun q hq hns hother => ?_⟩
  · rw [hstaged _ (not_staged_yaml _)]
    exact hload
  · rw [← hindex] at hfree hnonneg hleast
    exact ⟨rfl, hfree, hnonneg, hleast⟩
  · rw [hstaged _ hns]
    exact hbytes name b hmem
  · rw [hstaged q hns, hkeep q hother]
    have hnone : readFile (s.made (a.target p)).fs q = none := by
      have hfs : readFile (s.made (a.target p)).fs q = readFile s.fs q := readFile_mkdirs _ _ _
      rw [hfs, readFile, get?_of_not_present habsent hq]
    exact hnone

end Committed

/-! ## Fidelity -/

section Fidelity

variable {p : Paths} {k : Codec B} {J : JsonCodec B} {s : Site T B} {root : Path} {dest : Dest} {stamp version : String}
  {archive : Archive B}

theorem mem_ofEntry {entries : List (Path × Node B)} {rel : Path} {b : B} :
    .file rel b ∈ entries.map Item.ofEntry ↔ (rel, .file b) ∈ entries := by
  rw [List.mem_map]
  constructor
  · rintro ⟨⟨rel', n⟩, hmem, heq⟩
    cases n with
    | dir => cases heq
    | file b' =>
      cases heq
      exact hmem
  · intro hmem
    exact ⟨_, hmem, rfl⟩

/-- an archive that `snapshot` writes is a list of packed entries, and its `beetroot.yaml` is the one of the directory -/
theorem snapshot_entries (hs : Leafy s.fs) (h : snapshot p k J s root dest stamp version = .ok archive) :
    ∃ entries : List (Path × Node B), archive = entries.map Item.ofEntry ∧ (entries.map Prod.fst).Nodup ∧
      ∀ b, (["beetroot.yaml"], .file b) ∈ entries → readFile s.fs (instanceYaml root) = some b := by
  obtain ⟨name, m, sp, hyaml, -, hway, hlock, hdest, rfl⟩ := snapshot_ok h
  have hmem := fun e => mem_packed (k := k) (e := e) (walked_leafy hs hyaml hway hlock hdest)
  refine ⟨([manifestFilename], .file _) :: instanceTree (walked k s.fs root dest) root dest.final, rfl, ?_, fun b hb => ?_⟩
  · refine List.nodup_cons.2 ⟨fun hin => ?_, nodup_instanceTree _ _ _⟩
    obtain ⟨e, he, heq⟩ := List.mem_map.1 hin
    obtain ⟨x, r, hrel, hex, -⟩ := ((hmem e).1 he).1
    rw [heq] at hrel
    cases hrel
    simp [excludedTopLevel] at hex
  · rcases List.mem_cons.1 hb with heq | hb
    · have hname : ["beetroot.yaml"] = [manifestFilename] := congrArg Prod.fst heq
      exact absurd hname (by decide)
    · have hnode := ((hmem _).1 hb).2
      unfold nodeAt at hnode
      cases hget : s.fs.get? (root ++ ["beetroot.yaml"]) with
      | none =>
        rw [hget] at hnode
        cases hnode
      | some n =>
        rw [hget] at hnode
        simp only [Option.getD_some] at hnode
        rw [← hnode] at hget
        exact readFile_eq_some.2 hget

end Fidelity

theorem not_staged_below {root : Path} {x y : String} (r : Path) : ¬ Staged root (root ++ x :: y :: r) := by
  rintro ⟨z, -, h⟩
  have := congrArg List.length h
  simp at this

theorem not_netTouched {root : Path} {x : String} (r : Path) (hx : x ≠ "frida-server") (hm : x ≠ "modules") :
    ¬ NetTouched root (root ++ x :: r) := by
  rintro (h | ⟨z, h⟩)
  · exact hx (by simpa [instanceFrida] using (List.cons.inj (List.append_cancel_left h)).1)
  · rw [instanceModules, List.append_assoc] at h
    exact hm (List.cons.inj (List.append_cancel_left h)).1

/-- For every archive that `snapshot` has written of a tree of files and directories with a loadable `beetroot.yaml`, and every
restore of it into a path that does not exist yet whose `try` goes through: the restore returns, whatever the network stage
does, and the restored instance is `Faithful` if and only if each archived zip that was staged for a listed module outlives the
network stage. -/
theorem restore_faithful_iff [DecidableEq B] (p : Paths) (k : Codec B) (J : JsonCodec B) (P : Pydantic T) (net : Net B)
    (f : Faults B) (s₀ s t : Site T B) (root : Path) (dest : Dest) (stamp version : String) (archive : Archive B)
    (cfg : InstanceConfig) (a : RestoreArgs) (now : T) (inst : Path × InstanceConfig) (hs : Leafy s₀.fs)
    (hsnap : snapshot p k J s₀ root dest stamp version = .ok archive)
    (hcfg : (readFile s₀.fs (instanceYaml root)).map k.loadYaml = some (.valid cfg))
    (habsent : present s.fs (a.target p) = false) (hrestore : restoreLocal p k J P f archive a now s = .ok inst t) :
    ∃ u, restore p k J P f net false archive a now s = .ok (a.target p) u ∧
      (Faithful p J P net s₀.fs root archive cfg a s u ↔
        ∀ x b, isZip x = true → x ∈ stagedNames net root 0 [] cfg.modules → .file ["modules", x] b ∈ archive →
          zipKept net (a.target p) f cfg t.fs x b = true) := by
  obtain ⟨entries, rfl, hnodup, hyaml⟩ := snapshot_entries hs hsnap
  obtain ⟨hroot, hload, hrow, hbytes, hnone⟩ := restoreLocal_committed hnodup habsent hrestore
  -- the restored `beetroot.yaml` is the archived one
  have hsame : readFile t.fs (instanceYaml (a.target p)) = readFile s₀.fs (instanceYaml root) := by
    by_cases hex : ∃ b, (["beetroot.yaml"], .file b) ∈ entries
    · obtain ⟨b, hb⟩ := hex
      rw [hyaml b hb]
      exact hbytes _ b hb (not_staged_yaml _)
    · have hread := hnone (instanceYaml (a.target p)) (List.prefix_append _ _) (not_staged_yaml _) ?_
      · rw [hread] at hload
        cases hload
      · intro name b hmem heq
        have hname : ["beetroot.yaml"] = name := List.append_cancel_left heq
        subst hname
        exact hex ⟨b, hmem⟩
  have hinst : inst = (a.target p, cfg) := by
    rw [hsame, hcfg] at hload
    cases hload
    exact Prod.ext hroot rfl
  subst hinst
  refine ⟨final (stageNetwork net f (a.target p) cfg t), ?_, ?_⟩
  · exact restore_returns hrestore
  obtain ⟨hreg, hkeep⟩ := stageNetwork_frame net f (a.target p) cfg t
  have hzip : ∀ x b, .file ["modules", x] b ∈ entries.map Item.ofEntry →
      readFile t.fs (instanceModules (a.target p) ++ [x]) = some b := by
    intro x b hmem
    have hb := hbytes _ b (mem_ofEntry.1 hmem) (not_staged_below [])
    rw [instanceModules, List.append_assoc]
    exact hb
  constructor
  · intro hfaith x b hx hlisted hmem
    exact (stageNetwork_zip net (a.target p) hx (hzip x b hmem)).1 (hfaith.zips x b hx hlisted hmem)
  · intro hkept
    refine ⟨fun rel b hrel hmem => ?_, fun x b hx hlisted hmem => ?_, ?_, ?_⟩
    · obtain ⟨y, r, rfl⟩ := List.exists_cons_of_ne_nil hrel
      rw [instanceData, List.append_assoc, List.singleton_append, hkeep _ (not_netTouched _ (by decide) (by decide))]
      exact hbytes _ b (mem_ofEntry.1 hmem) (not_staged_below r)
    · exact (stageNetwork_zip net (a.target p) hx (hzip x b hmem)).2 (hkept x b hx hlisted hmem)
    · rw [instanceYaml, hkeep _ (not_netTouched [] (by decide) (by decide))]
      exact hsame
    · rw [hreg]
      exact hrow

/-- one module, from a url -/
def listed : InstanceConfig := { InstanceConfig.plain with modules := [⟨.url "https://example.com/mod.zip", none⟩] }

def listingCodec : Codec Bytes :=
  { Bytes.codec with loadYaml := fun b => if b = .inl "listed" then .valid listed else Bytes.codec.loadYaml b }

/-- `alpha` at `/srv/x`, with its module staged -/
def modSite : Site String Bytes where
  reg := ⟨(∅ : Dict String (InstanceMeta String)).set "alpha" ⟨.redroid "/srv/x" ∅, 0, "then"⟩⟩
  fs := writeFile (writeFile (writeFile ∅ ["srv", "x", "beetroot.yaml"] (.inl "listed")) ["srv", "x", "data", "app"] (.inl "state"))
    ["srv", "x", "modules", "mod.zip"] (.inl "zip")

def modDest : Dest := ⟨["backups"], "alpha"⟩

def modArchive : Archive Bytes :=
  [.file [manifestFilename] (.inr ⟨"alpha", 0, "now", "1", ∅, .durable⟩), .file ["beetroot.yaml"] (.inl "listed"), .dir ["data"],
    .file ["data", "app"] (.inl "state"), .dir ["modules"], .file ["modules", "mod.zip"] (.inl "zip")]

def bravoBeside : RestoreArgs := ⟨"bravo", "/srv/y", false⟩

/-- the host when the `try` of the restore ends -/
def modCommitted : Site String Bytes :=
  final (restoreLocal Paths.sample listingCodec Bytes.json Pydantic.iso .none modArchive bravoBeside "now" modSite)

theorem restore_faithful_fetched :
    ∃ u, restore Paths.sample listingCodec Bytes.json Pydantic.iso .none (fetching (some (.inl "zip"))) false modArchive bravoBeside
        "now" modSite = .ok ["srv", "y"] u ∧
      Faithful Paths.sample Bytes.json Pydantic.iso (fetching (some (.inl "zip"))) modSite.fs ["srv", "x"] modArchive listed bravoBeside
        modSite u := by
  obtain ⟨u, hu, hiff⟩ := restore_faithful_iff Paths.sample listingCodec Bytes.json Pydantic.iso (fetching (some (.inl "zip"))) .none
    modSite modSite modCommitted ["srv", "x"] modDest "now" "1" modArchive listed bravoBeside "now" (["srv", "y"], listed)
    (by decide) rfl rfl rfl rfl
  refine ⟨u, hu, hiff.2 fun x b _ _ hmem => ?_⟩
  have hzip : x = "mod.zip" ∧ b = .inl "zip" := by simpa [modArchive] using hmem
  obtain ⟨rfl, rfl⟩ := hzip
  decide +kernel

theorem zip_lost :
    Leafy modSite.fs ∧ snapshot Paths.sample listingCodec Bytes.json modSite ["srv", "x"] modDest "now" "1" = .ok modArchive ∧
      present modSite.fs (bravoBeside.target Paths.sample) = false ∧
      ∃ u, restore Paths.sample listingCodec Bytes.json Pydantic.iso .none (fetching none) false modArchive bravoBeside "now"
          modSite = .ok ["srv", "y"] u ∧
        ¬ Faithful Paths.sample Bytes.json Pydantic.iso (fetching none) modSite.fs ["srv", "x"] modArchive listed bravoBeside
          modSite u := by
  refine ⟨by decide, rfl, rfl, _, rfl, fun hfaith => ?_⟩
  have hzip := hfaith.zips "mod.zip" (.inl "zip") (by decide) (by decide) (by simp [modArchive])
  cases hzip

end Beetroot.Snapshot
