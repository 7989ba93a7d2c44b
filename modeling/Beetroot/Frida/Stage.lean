/-
The frida server of an instance over a sequence of `apply` and self-healing `up` calls.

`download` keeps decompressed binaries in a cache that all instances share: it takes a file that is there and not empty, or fetches
one into a temporary file and renames it, and in both cases checks the digest and drops a file that does not match.
`stage_for_instance` copies the cache file beside `frida-server` and renames the copy. `_stage_local` places an empty file only
where none is that could be kept. Everything may be interrupted anywhere: a `Fetch` says how far a download gets, and `Faults` what
the steps on the instance's directory meet.

Ghost data: `completed`, the whole content of every download whose loop has come to its end.

Results:
- `download_spec`: what a download returns, and what it leaves in the cache;
- `stageLocal_keeps`: local staging keeps a server that is not empty;
- `step_kept`: so does every call, or it puts a completed download there;
- `frida_never_degraded`: the same along every run in which no payload decompresses to nothing or has something behind its first
  stream;
- `empty_download_degrades`: a payload that decompresses to nothing.
-/
import Beetroot.Frida.Download
import Beetroot.Instance.Flash
import Beetroot.Lib.Run
import Beetroot.Registration.Reconcile

namespace Beetroot.Frida

open Lib Lib.Eff Lib.Fs Lib.Decoder Instance

abbrev Bytes := List UInt8

/-! ## The cache -/

structure Cache where
  files : Dict String Bytes
  completed : List Bytes

/-- what a download meets -/
structure Fetch where
  /-- the cache file of the resolved version and architecture; `none` when the version cannot be resolved -/
  file : Option String
  /-- `frida.sha256` -/
  sha256 : Option String := none
  /-- the temporary file and the connection can be opened -/
  opens : Bool := true
  reads : List (Piece UInt8 chunkSize)
  breaks : Bool := false
  /-- an interrupt comes after so many passes of the loop -/
  passes : ℕ
  /-- the temporary file is made executable and renamed -/
  renames : Bool := true
  /-- the digest is computed and the path returned -/
  returns : Bool := true
  /-- a file that does not match is removed -/
  evicts : Bool := true

section Download

variable (F : Format UInt8) (sha256Of : Bytes → String) (e : Fetch)

/-- `_check_sha256` on a cache file, and the return -/
def checkSha256 (file : String) (body : Bytes) (c : Cache) : Option Bytes × Cache :=
  if !e.returns then (none, c)
  else match e.sha256 with
    | none => (some body, c)
    | some expected =>
      if (sha256Of body).toLower = expected.toLower then (some body, c)
      else (none, if e.evicts then { c with files := c.files.erase file } else c)

/-- the fetch of a file that is not cached -/
def fetch (file : String) (c : Cache) : Option Bytes × Cache :=
  if !e.opens then (none, c)
  else match decodeLoop F e.breaks e.passes .new [] e.reads with
    | some (.ok written) =>
      let c := { c with completed := c.completed ++ (decompress F (Piece.join e.reads)).toList }
      if e.renames then checkSha256 sha256Of e file written { c with files := c.files.set file written } else (none, c)
    | some (.error _) => (none, c)
    -- the interrupt
    | none => (none, c)

/-- `download`: the content of the file whose path it returns -/
def download (c : Cache) : Option Bytes × Cache :=
  match e.file with
  | none => (none, c)
  | some file =>
    match c.files.get? file with
    | none => fetch F sha256Of e file c
    | some body => if body = [] then fetch F sha256Of e file c else checkSha256 sha256Of e file body c

end Download

/-! ## Calls on an instance -/

/-- an instance, the configuration its object has in memory, and the shared cache -/
structure Rig (T : Type) where
  site : Site T Bytes
  cache : Cache
  cfg : InstanceConfig

inductive Op where
  /-- `Instance.apply`: what `load_yaml` returns, whether the registry is written, and what the stages meet -/
  | apply (loaded : Option InstanceConfig) (reconciles : Bool) (e : Fetch) (net : Net Bytes) (f : Faults Bytes)
  | up (f : Faults Bytes)
  /-- a download for another instance -/
  | elsewhere (e : Fetch)

section Step

variable {T : Type} (F : Format UInt8) (sha256Of : Bytes → String) (p : Paths) (k : Codec Bytes) (name : String) (root : Path)

/-- the re-resolved ports, checked, and the local stage -/
def restage (f : Faults Bytes) (cfg : InstanceConfig) : M T Bytes Unit := do
  let m ← metaOf name
  let ports ← resolvePortsM m.index cfg
  checkPortCollisions p k f name ports
  Instance.stageLocal k f name root cfg

/-- `registry.reconcile_backend_kind` -/
def reconcileKind (goes : Bool) (binder : Binder) : M T Bytes Unit := fun s =>
  if goes then .ok () { s with reg := (reconcile s.reg name binder).getD s.reg } else .error .noRow s

/-- `Instance.apply` up to the network stage -/
def applyLocal (reconciles : Bool) (f : Faults Bytes) (cfg : InstanceConfig) : M T Bytes Unit := do
  restage p k name root f cfg
  reconcileKind name reconciles cfg.binder

def step (r : Rig T) : Op → Rig T
  | .apply none _ _ _ _ => r
  | .apply (some cfg) reconciles e net f =>
    match applyLocal p k name root reconciles f cfg r.site with
    | .error _ s => { r with site := s, cfg := cfg }
    | .ok _ s =>
      if cfg.frida then
        let d := download F sha256Of e r.cache
        ⟨final (stageNetwork { net with frida := d.1 } f root cfg s), d.2, cfg⟩
      else ⟨final (stageNetwork net f root cfg s), r.cache, cfg⟩
  | .up f =>
    if isFile r.site.fs (instanceComposeOverride root) && isFile r.site.fs (instanceEnv root) then r
    else { r with site := final (restage p k name root f r.cfg r.site) }
  | .elsewhere e => { r with cache := (download F sha256Of e r.cache).2 }

end Step

/-- the content of `frida-server` -/
def Rig.server {T : Type} (root : Path) (r : Rig T) : Option Bytes := readFile r.site.fs (instanceFrida root)

/-- an instance on a host where nothing was downloaded yet -/
def Rig.fresh {T : Type} (site : Site T Bytes) (cfg : InstanceConfig) : Rig T := ⟨site, ⟨∅, []⟩, cfg⟩

/-! ## Downloads -/

/-- the payload decompresses to something, and to nothing more behind its first stream -/
def CleanPayload (F : Format UInt8) (payload : Bytes) : Prop :=
  ∀ out rest, run F (some F.init) payload = .done out rest → out.length ≤ maxDecompressedBytes →
    out ≠ [] ∧ trailing F rest.length rest = some []

/-- a file that is used holds a completed download -/
def Cache.Sound (c : Cache) : Prop := ∀ file body, c.files.get? file = some body → body ≠ [] → body ∈ c.completed

section Specs

variable {F : Format UInt8} {sha256Of : Bytes → String} {e : Fetch} {c : Cache} {file : String} {body : Bytes}

/-- what a download has written is the whole content of its payload -/
theorem decodeLoop_clean {breaks : Bool} {fuel : ℕ} {reads : List (Piece UInt8 chunkSize)}
    (hclean : CleanPayload F (Piece.join reads)) (h : decodeLoop F breaks fuel .new [] reads = some (.ok body)) :
    body ≠ [] ∧ decompress F (Piece.join reads) = some body := by
  obtain ⟨n, r, hr, hiff⟩ := decodeLoop_new (F := F) breaks reads
  have hok : r = .ok body :=
    Option.some.inj ((hr (n + fuel) (by omega)).symm.trans (decodeLoop_more h (by omega : fuel ≤ n + fuel)))
  obtain ⟨hcontent, hle⟩ := (hiff body).1 hok
  cases hrun : run F (some F.init) (Piece.join reads) with
  | more s out => simp [hrun, Outcome.content] at hcontent
  | corrupt => simp [hrun, Outcome.content] at hcontent
  | done out rest =>
    have hout : out = body := by simpa [hrun, Outcome.content] using hcontent
    obtain ⟨hne, htrailing⟩ := hclean out rest hrun (hout ▸ hle)
    refine ⟨hout ▸ hne, ?_⟩
    simp [decompress, hrun, htrailing, hout]

/-- what a call gives back: nothing, or a completed download that has the digest -/
def Delivered (sha256Of : Bytes → String) (e : Fetch) (r : Option Bytes × Cache) : Prop :=
  r.2.Sound ∧ ∀ body, r.1 = some body → body ≠ [] ∧ body ∈ r.2.completed ∧
    ∀ expected ∈ e.sha256, (sha256Of body).toLower = expected.toLower

theorem Cache.Sound.erase (h : c.Sound) (file : String) : Cache.Sound { c with files := c.files.erase file } := by
  intro x b hx hb
  rw [Dict.get?_erase] at hx
  split_ifs at hx
  exact h x b hx hb

theorem checkSha256_spec (hc : c.Sound) (hne : body ≠ []) (hin : body ∈ c.completed) :
    Delivered sha256Of e (checkSha256 sha256Of e file body c) := by
  unfold checkSha256
  cases e.returns with
  | false => exact ⟨hc, nofun⟩
  | true =>
    rw [Bool.not_true, if_neg Bool.false_ne_true]
    cases hsha : e.sha256 with
    | none =>
      refine ⟨hc, fun b hb => ?_⟩
      cases hb
      exact ⟨hne, hin, by simp [hsha]⟩
    | some expected =>
      dsimp only
      split_ifs with hmatch
      · refine ⟨hc, fun b hb => ?_⟩
        cases hb
        refine ⟨hne, hin, fun x hx => ?_⟩
        rw [hsha] at hx
        rw [← Option.some.inj hx]
        exact hmatch
      · exact ⟨hc.erase file, nofun⟩
      · exact ⟨hc, nofun⟩

theorem fetch_spec (hclean : CleanPayload F (Piece.join e.reads)) (hc : c.Sound) :
    Delivered sha256Of e (fetch F sha256Of e file c) := by
  unfold fetch
  cases e.opens with
  | false => exact ⟨hc, nofun⟩
  | true =>
    rw [Bool.not_true, if_neg Bool.false_ne_true]
    cases hloop : decodeLoop F e.breaks e.passes .new [] e.reads with
    | none => exact ⟨hc, nofun⟩
    | some r =>
      cases r with
      | error err => exact ⟨hc, nofun⟩
      | ok written =>
        obtain ⟨hne, hwhole⟩ := decodeLoop_clean hclean hloop
        have hmore : Cache.Sound { c with completed := c.completed ++ [written] } := fun x b hx hb =>
          List.mem_append_left _ (hc x b hx hb)
        simp only [hwhole, Option.toList_some]
        cases e.renames with
        | false => exact ⟨hmore, nofun⟩
        | true =>
          refine checkSha256_spec ?_ hne (List.mem_append_right _ List.mem_cons_self)
          intro x b hx hb
          rw [Dict.get?_set] at hx
          split_ifs at hx
          · rw [← Option.some.inj hx]
            exact List.mem_append_right _ List.mem_cons_self
          · exact hmore x b hx hb

theorem download_spec (hclean : CleanPayload F (Piece.join e.reads)) (hc : c.Sound) :
    Delivered sha256Of e (download F sha256Of e c) := by
  unfold download
  cases e.file with
  | none => exact ⟨hc, nofun⟩
  | some file =>
    dsimp only
    cases hcached : c.files.get? file with
    | none => exact fetch_spec hclean hc
    | some body =>
      dsimp only
      split_ifs with hempty
      · exact fetch_spec hclean hc
      · exact checkSha256_spec hc hempty (hc file body hcached hempty)

end Specs

/-! ## Stages -/

/-- a file that has something in it keeps its content -/
def Keeps {T : Type} (q : Path) (s t : Site T Bytes) : Prop := ∀ b, b ≠ [] → readFile s.fs q = some b → readFile t.fs q = some b

section Stages

variable {T : Type} {k : Codec Bytes} {f : Faults Bytes} {net : Net Bytes} {name : String} {root q : Path}
  {cfg : InstanceConfig}

theorem keeps_refl (s : Site T Bytes) : Keeps q s s := fun _ _ h => h

theorem keeps_trans (s t u : Site T Bytes) (h₁ : Keeps q s t) (h₂ : Keeps q t u) : Keeps q s u :=
  fun b hb h => h₂ b hb (h₁ b hb h)

theorem keeps_of_only {touched : Path → Prop} {s t : Site T Bytes} (h : Only touched s t) (hq : ¬ touched q) : Keeps q s t :=
  fun b _ hb => by rw [h.2 q hq, hb]

/-- an operation elsewhere, or one that fills the file with nothing -/
theorem fileOp_keeps {op : FileOp Bytes} (h : op.path = q → ∃ pt, op = .fill pt q []) :
    Steps (Keeps q) (op.run f : M T Bytes Unit) := by
  intro s
  by_cases hpath : op.path = q
  · obtain ⟨pt, rfl⟩ := h hpath
    intro b hb hs
    have hskip : (FileOp.fill pt q ([] : Bytes)).skipped s.fs = true := by simp [FileOp.skipped, hs, hb]
    simp only [FileOp.run, hskip, if_true, final]
    exact hs
  · exact keeps_of_only (FileOp.run_only f op s) fun he => hpath he.symm

theorem runOps_keeps {ops : List (FileOp Bytes)} (h : ∀ op ∈ ops, op.path = q → ∃ pt, op = .fill pt q []) :
    Steps (Keeps q) (runOps f ops : M T Bytes Unit) := by
  induction ops with
  | nil => exact steps_pure keeps_refl ()
  | cons op ops ih =>
    refine steps_bind keeps_trans (fileOp_keeps (h op List.mem_cons_self)) fun _ => ?_
    exact ih fun o ho => h o (List.mem_cons_of_mem _ ho)

theorem stageLocal_keeps (hk : k.empty = []) (hcfg : cfg.frida = true) :
    Steps (Keeps (instanceFrida root)) (Instance.stageLocal k f name root cfg : M T Bytes Unit) := by
  unfold Instance.stageLocal
  refine steps_bind keeps_trans ?_ fun m => steps_bind keeps_trans (steps_raising keeps_refl _) fun ports => ?_
  · intro s
    unfold metaOf
    split <;> exact keeps_refl s
  · refine runOps_keeps fun op hop hpath => ?_
    simp only [stagePlan, hcfg, if_true, hk, List.mem_cons, List.not_mem_nil, or_false] at hop
    rcases hop with rfl | rfl | rfl | rfl | rfl
    · simp [FileOp.path, instanceData, instanceFrida] at hpath
    · simp [FileOp.path, instanceModules, instanceFrida] at hpath
    · simp [FileOp.path, instanceEnv, instanceFrida] at hpath
    · simp [FileOp.path, instanceComposeOverride, instanceFrida] at hpath
    · exact ⟨.frida, rfl⟩

theorem restage_keeps {p : Paths} (hk : k.empty = []) (hcfg : cfg.frida = true) :
    Steps (Keeps (instanceFrida root)) (restage p k name root f cfg : M T Bytes Unit) := by
  unfold restage
  refine steps_bind keeps_trans ?_ fun m => steps_bind keeps_trans (steps_raising keeps_refl _) fun ports => ?_
  · intro s
    unfold metaOf
    split <;> exact keeps_refl s
  · refine steps_bind keeps_trans ?_ fun _ => stageLocal_keeps hk hcfg
    intro s
    unfold checkPortCollisions
    split_ifs <;> exact keeps_refl s

theorem applyLocal_keeps {p : Paths} (hk : k.empty = []) (hcfg : cfg.frida = true) (reconciles : Bool) :
    Steps (Keeps (instanceFrida root)) (applyLocal p k name root reconciles f cfg : M T Bytes Unit) := by
  unfold applyLocal
  refine steps_bind keeps_trans (restage_keeps hk hcfg) fun _ => ?_
  intro s
  unfold reconcileKind
  split_ifs <;> exact keeps_refl s

/-- the network stage leaves the server, or puts the download there -/
theorem stageNetwork_server (s : Site T Bytes) :
    readFile (final (stageNetwork net f root cfg s)).fs (instanceFrida root) = readFile s.fs (instanceFrida root) ∨
      ∃ body, net.frida = some body ∧
        readFile (final (stageNetwork net f root cfg s)).fs (instanceFrida root) = some body := by
  have hmodules : ∀ t : Site T Bytes,
      readFile (final ((modulesStageForInstance net f root cfg >>= fun _ => pure ()) t)).fs (instanceFrida root) =
        readFile t.fs (instanceFrida root) := by
    intro t
    rw [final_bind_pure]
    refine (modulesStage_only net f root cfg t).2 _ ?_
    rintro ⟨x, hx⟩
    exact frida_ne_zip root x hx.symm
  have hrun : stageNetwork net f root cfg s =
      (stageFrida net f root cfg >>= fun _ => modulesStageForInstance net f root cfg >>= fun _ => pure ()) s := rfl
  rw [hrun]
  rcases stageFrida_cases (f := f) net root cfg s with ⟨-, t, hok, hfs⟩ | ⟨-, e, herr⟩
  · rw [final_bind_ok hok, hmodules t, hfs, served]
    cases hnet : net.frida with
    | none => exact .inl rfl
    | some body =>
      dsimp only
      split_ifs
      · exact .inr ⟨body, rfl, by rw [readFile_write_self]⟩
      · exact .inl rfl
  · rw [final_bind_error herr]
    exact .inl rfl

end Stages

/-! ## Runs -/

/-- the digest that a call requires -/
def Op.sha256 : Op → Option String
  | .apply _ _ e _ _ => e.sha256
  | .up _ => none
  | .elsewhere _ => none

/-- the payload of the call, if it downloads, is clean -/
def Op.Clean (F : Format UInt8) : Op → Prop
  | .apply _ _ e _ _ => CleanPayload F (Piece.join e.reads)
  | .up _ => True
  | .elsewhere e => CleanPayload F (Piece.join e.reads)

/-- a configuration that is loaded has its `frida:` block -/
def Op.KeepsFrida : Op → Prop
  | .apply loaded _ _ _ _ => ∀ cfg ∈ loaded, cfg.frida = true
  | .up _ => True
  | .elsewhere _ => True

/-- the server is not empty after the call, and is what it was or a completed download that has the digest -/
def Kept {T : Type} (sha256Of : Bytes → String) (root : Path) (op : Op) (r t : Rig T) : Prop :=
  ∃ b b', r.server root = some b ∧ t.server root = some b' ∧ b' ≠ [] ∧
    (b' = b ∨ (b' ∈ t.cache.completed ∧ ∀ expected ∈ op.sha256, (sha256Of b').toLower = expected.toLower))

/-- a server that works, with frida configured and a sound cache -/
structure Working {T : Type} (root : Path) (r : Rig T) : Prop where
  sound : r.cache.Sound
  frida : r.cfg.frida = true
  server : ∃ b, b ≠ [] ∧ r.server root = some b

section Runs

variable {T : Type} {F : Format UInt8} {sha256Of : Bytes → String} {p : Paths} {k : Codec Bytes} {name : String} {root : Path}

theorem step_sound {r : Rig T} {op : Op} (h : r.cache.Sound) (hclean : op.Clean F) :
    (step F sha256Of p k name root r op).cache.Sound := by
  cases op with
  | apply loaded reconciles e net f =>
    cases loaded with
    | none => exact h
    | some cfg =>
      cases hlocal : applyLocal p k name root reconciles f cfg r.site with
      | error err s =>
        simp only [step, hlocal]
        exact h
      | ok u s =>
        simp only [step, hlocal]
        split_ifs
        · exact (download_spec hclean h).1
        · exact h
  | up f =>
    unfold step
    split_ifs
    · exact h
    · exact h
  | elsewhere e => exact (download_spec hclean h).1

theorem step_kept (hk : k.empty = []) {r : Rig T} {op : Op} (h : Working root r) (hclean : op.Clean F)
    (hfrida : op.KeepsFrida) : Working root (step F sha256Of p k name root r op) ∧
      Kept sha256Of root op r (step F sha256Of p k name root r op) := by
  obtain ⟨hsound, hcfg, b, hb, hserver⟩ := h
  have hsound' : (step F sha256Of p k name root r op).cache.Sound := step_sound hsound hclean
  cases op with
  | apply loaded reconciles e net f =>
    cases loaded with
    | none => exact ⟨⟨hsound, hcfg, b, hb, hserver⟩, b, b, hserver, hserver, hb, .inl rfl⟩
    | some cfg =>
      have hloaded : cfg.frida = true := hfrida cfg rfl
      cases hlocal : applyLocal p k name root reconciles f cfg r.site with
      | error err s =>
        simp only [step, hlocal]
        have hs : readFile s.fs (instanceFrida root) = some b :=
          (applyLocal_keeps hk hloaded reconciles).of_error hlocal b hb hserver
        exact ⟨⟨hsound, hloaded, b, hb, hs⟩, b, b, hserver, hs, hb, .inl rfl⟩
      | ok u s =>
        have hs : readFile s.fs (instanceFrida root) = some b :=
          (applyLocal_keeps hk hloaded reconciles).of_ok hlocal b hb hserver
        simp only [step, hlocal, hloaded, if_true] at hsound' ⊢
        rcases @stageNetwork_server T f { net with frida := (download F sha256Of e r.cache).1 } root cfg s with
          hsame | ⟨body, hbody, hstaged⟩
        · rw [hs] at hsame
          exact ⟨⟨hsound', hloaded, b, hb, hsame⟩, b, b, hserver, hsame, hb, .inl rfl⟩
        · obtain ⟨hne, hin, hsha⟩ := (download_spec hclean hsound).2 body hbody
          exact ⟨⟨hsound', hloaded, body, hne, hstaged⟩, b, body, hserver, hstaged, hne, .inr ⟨hin, hsha⟩⟩
  | up f =>
    unfold step
    split_ifs
    · exact ⟨⟨hsound, hcfg, b, hb, hserver⟩, b, b, hserver, hserver, hb, .inl rfl⟩
    · have hrestage : Steps (Keeps (instanceFrida root)) (restage p k name root f r.cfg : M T Bytes Unit) :=
        restage_keeps hk hcfg
      have hs := hrestage r.site b hb hserver
      exact ⟨⟨hsound, hcfg, b, hb, hs⟩, b, b, hserver, hs, hb, .inl rfl⟩
  | elsewhere e => exact ⟨⟨hsound', hcfg, b, hb, hserver⟩, b, b, hserver, hserver, hb, .inl rfl⟩

/-- From a host where nothing was downloaded yet, after any calls, a server that is not empty stays one over every further
sequence of calls, and each call leaves it as it was or puts a completed download there, as long as frida stays configured and
every payload is clean. -/
theorem frida_never_degraded (F : Format UInt8) (sha256Of : Bytes → String) (p : Paths) (k : Codec Bytes) (name : String)
    (root : Path) (site : Site T Bytes) (cfg : InstanceConfig) (history ops : List Op) (hk : k.empty = [])
    (hclean : ∀ op ∈ history ++ ops, op.Clean F) (hfrida : ∀ op ∈ ops, op.KeepsFrida)
    (hcfg : (history.foldl (step F sha256Of p k name root) (.fresh site cfg)).cfg.frida = true)
    (hserver : ∃ b, b ≠ [] ∧ (history.foldl (step F sha256Of p k name root) (.fresh site cfg)).server root = some b) :
    Always (step F sha256Of p k name root) (fun r op => Kept sha256Of root op r (step F sha256Of p k name root r op))
      (history.foldl (step F sha256Of p k name root) (.fresh site cfg)) ops := by
  have hsound : (history.foldl (step F sha256Of p k name root) (.fresh site cfg)).cache.Sound := by
    have hhistory : Always (step F sha256Of p k name root) (fun _ op => op.Clean F) (.fresh site cfg) history :=
      always_of_forall (P := Op.Clean F) (I := fun _ => True) (fun _ _ _ h => ⟨trivial, h⟩) trivial
        fun op hop => hclean op (List.mem_append_left _ hop)
    refine run_always (I := fun r : Rig T => r.cache.Sound) (fun r op hr hop => step_sound hr hop) ?_ hhistory
    intro file body hfile
    cases hfile
  refine always_of_forall (P := fun op => op.Clean F ∧ op.KeepsFrida) (I := Working root) ?_ ⟨hsound, hcfg, hserver⟩ ?_
  · exact fun r op hr hop => step_kept hk hr hop.1 hop.2
  · exact fun op hop => ⟨hclean op (List.mem_append_right _ hop), hfrida op hop⟩

end Runs

/-! ## Sample runs -/

theorem addressing_frida : AddressingServices InstanceConfig.plain.ports true := by decide

/-- frida on the default ports -/
def fridaConfig : InstanceConfig := { InstanceConfig.plain with frida := true, addressing := addressing_frida }

/-- renderers that write something -/
def sampleCodec : Codec Bytes where
  loadYaml _ := .valid fridaConfig
  dumpYaml _ := [0]
  minimalYaml _ := [0]
  renderEnv _ _ _ := [1]
  renderOverride _ := [2]
  empty := []

/-- an instance at `/srv/x` with a server in its directory -/
def sampleSite : Site ℕ Bytes where
  reg := ⟨(∅ : Dict String (InstanceMeta ℕ)).set "x" ⟨.redroid "/srv/x" ∅, 0, 0⟩⟩
  fs := writeFile (writeFile ∅ ["srv", "x", "beetroot.yaml"] [0]) ["srv", "x", "frida-server"] [127, 69, 76, 70]

/-- no modules are configured -/
def sampleNet : Net Bytes where
  frida := none
  fetch _ _ := none
  urlPrefix _ := "0123456789ab"
  sha256Of _ := ""
  within root path := root ++ [path]
  scan l := l
  scan_perm l := List.Perm.refl l

/-- an apply that fetches this payload in one read, and is not disturbed -/
def applyOf (payload : Bytes) (h : payload ≠ [] ∧ payload.length ≤ chunkSize) : Op :=
  .apply (some fridaConfig) true
    { file := some "frida-server-16.4.10-android-x86_64", reads := [⟨payload, h.1, h.2⟩], passes := 10 } sampleNet .none

def sampleStep : Rig ℕ → Op → Rig ℕ := step xzSample (fun _ => "") Paths.sample sampleCodec "x" ["srv", "x"]

/-- the first stream of a payload -/
def sampleRun (payload : Bytes) : Outcome (List UInt8) UInt8 := run xzSample (some xzSample.init) payload

theorem run_xzA : sampleRun xzA = .done [97] [] := by decide +kernel

theorem clean_xzA : CleanPayload xzSample xzA := by
  intro out rest h _
  cases run_xzA.symm.trans h
  exact ⟨by decide, rfl⟩

theorem frida_never_degraded_apply :
    Always sampleStep (fun r op => Kept (fun _ => "") ["srv", "x"] op r (sampleStep r op)) (.fresh sampleSite fridaConfig)
      [applyOf xzA (by decide)] := by
  refine frida_never_degraded xzSample (fun _ => "") Paths.sample sampleCodec "x" ["srv", "x"] sampleSite fridaConfig []
    [applyOf xzA (by decide)] rfl ?_ ?_ rfl ⟨[127, 69, 76, 70], by decide, rfl⟩
  · intro op hop
    rw [List.nil_append, List.mem_singleton] at hop
    rw [hop]
    exact clean_xzA
  · intro op hop
    rw [List.mem_singleton] at hop
    rw [hop]
    intro cfg hcfg
    cases hcfg
    rfl

/-- a payload that decompresses to nothing is downloaded and staged, and frida is disabled -/
theorem empty_download_degrades :
    (applyOf xzEmpty (by decide)).KeepsFrida ∧ (Rig.fresh sampleSite fridaConfig).server ["srv", "x"] = some [127, 69, 76, 70] ∧
      ¬ Kept (fun _ => "") ["srv", "x"] (applyOf xzEmpty (by decide)) (.fresh sampleSite fridaConfig)
        (sampleStep (.fresh sampleSite fridaConfig) (applyOf xzEmpty (by decide))) := by
  have hafter : (sampleStep (.fresh sampleSite fridaConfig) (applyOf xzEmpty (by decide))).server ["srv", "x"] = some [] := by
    decide +kernel
  refine ⟨?_, rfl, ?_⟩
  · intro cfg hcfg
    cases hcfg
    rfl
  · intro h
    obtain ⟨b, b', -, hb', hne, -⟩ := h
    rw [hafter] at hb'
    exact hne (Option.some.inj hb').symm

end Beetroot.Frida
