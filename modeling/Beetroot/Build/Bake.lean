/-
What a rootfs build leaves behind, whatever the commands do.

Results:
- `runs_daemon`: the staging dockerd is stopped on every way out, unless an interrupt hits its start or its stop;
- `runs_image`: an image that is new or damaged has the marker of this build beside it, also while the build runs;
- `bake_spec`: a build that returns has packed a tree with the image reference, the images of the archive that was loaded, the
  binaries of a bundle with the expected digest, and a shell;
- `build_markers`, `build_truthful`: its markers are those of `Build.BakedVersion`, and the disk is truthful as in `Build.Marker`.
-/
import Beetroot.Build.BakedVersion
import Beetroot.Build.Rootfs

namespace Beetroot.Build.Rootfs

open Lib Lib.Prog Lib.Fs

variable {B : Type} {host : Host B} {s t u : Site B} {a : Act} {P : Choice B → Prop}

/-! ## Steps -/

/-- what a step in these directories leaves alone -/
structure Kept (D M : List Path) (s t : Site B) : Prop where
  files : ∀ q, q.dropLast ∉ D → readFile t.work q = readFile s.work q
  dirs : ∀ q, dirAt s.work q = false → (∀ r ∈ M, ¬ q <+: r) → dirAt t.work q = false
  stays : ∀ q, dirAt s.work q = true → q.dropLast ∉ D → dirAt t.work q = true

structure Apart (s t : Site B) : Prop where
  daemon : t.daemon = s.daemon
  image : t.image = s.image
  marker : t.marker = s.marker

theorem Kept.trans {D M : List Path} (h : Kept D M s t) (h' : Kept D M t u) : Kept D M s u :=
  ⟨fun q hq => (h'.files q hq).trans (h.files q hq), fun q hd hM => h'.dirs q (h.dirs q hd hM) hM,
    fun q hd hq => h'.stays q (h.stays q hd hq) hq⟩

theorem Apart.trans (h : Apart s t) (h' : Apart t u) : Apart s u :=
  ⟨h'.daemon.trans h.daemon, h'.image.trans h.image, h'.marker.trans h.marker⟩

theorem exec_kept {c : Choice B} {D M : List Path} (ha : a.inside D M = true) : Kept D M s (exec host c a s).2 := by
  obtain ⟨hdirs, hmade⟩ := Bool.and_eq_true_iff.1 ha
  have hhome : ∀ {d : Path}, d ∉ D → d ∉ a.home s.work := fun hd h =>
    hd (List.contains_iff_mem.1 (List.all_eq_true.1 hdirs _ (home_dirs h)))
  refine ⟨fun q hq => edit_frame exec_edit (hhome hq), fun q hd hM => edit_dirAt exec_edit hd fun r hr => hM r ?_,
    fun q hd hq => edit_stays exec_edit hd (hhome hq)⟩
  rw [hr] at hmade
  exact List.contains_iff_mem.1 hmade

theorem damaged_apart (left : Option (File B)) (ha : a.local = true) : Apart s (damaged a left s) := by
  cases a <;> first | exact ⟨rfl, rfl, rfl⟩ | cases ha

theorem perform_apart {b : B} {compiled : File B} {x : Ret B a} (hp : perform host b compiled s a = some (x, t))
    (ha : a.local = true) : Apart s t := by
  cases a with
  | spawn => cases ha
  | stop => cases ha
  | writeMarker text => cases ha
  | mke2fs size => cases ha
  | _ =>
    simp only [perform] at hp
    first
    | (cases hp; exact ⟨rfl, rfl, rfl⟩)
    | (split_ifs at hp; cases hp; exact ⟨rfl, rfl, rfl⟩)
    | (obtain ⟨g, -, heq⟩ := Option.map_eq_some_iff.1 hp; cases heq; exact ⟨rfl, rfl, rfl⟩)
    | (split_ifs at hp; obtain ⟨g, -, heq⟩ := Option.map_eq_some_iff.1 hp; cases heq; exact ⟨rfl, rfl, rfl⟩)
    | (split at hp <;> cases hp; exact ⟨rfl, rfl, rfl⟩)
    | (split at hp
       · obtain ⟨g, -, heq⟩ := Option.map_eq_some_iff.1 hp; cases heq; exact ⟨rfl, rfl, rfl⟩
       · cases hp)
    | (split at hp
       · split_ifs at hp; cases hp; exact ⟨rfl, rfl, rfl⟩
       · cases hp)

theorem cutOff_apart {c : Choice B} (left : Option (File B)) (ha : a.local = true) : Apart s (cutOff host c a left s) := by
  cases a with
  | spawn => cases ha
  | stop => cases ha
  | _ => exact damaged_apart left ha

theorem exec_apart {c : Choice B} (ha : a.local = true) : Apart s (exec host c a s).2 := by
  unfold exec
  split
  · split
    · rename_i x t hp
      exact perform_apart hp ha
    · exact ⟨rfl, rfl, rfl⟩
  · split
    · exact ⟨rfl, rfl, rfl⟩
    · exact damaged_apart _ ha
  · exact cutOff_apart _ ha

/-- a step of the build that keeps to its directories -/
theorem runs_inside {D M : List Path} {α : Type} {p : Bake B α} (h : p.run.All (Inside D M)) (s : Site B) :
    Runs (exec host) P (fun _ => True) p s (fun _ t => Kept D M s t ∧ Apart s t) fun _ t => Kept D M s t ∧ Apart s t := by
  refine (h.runs (I := fun t => Kept D M s t ∧ Apart s t) (fun c _ a ha t ht => ?_) ?_).weaken fun _ _ => trivial
  · exact ⟨ht.1.trans (exec_kept ha.1), ht.2.trans (exec_apart ha.2)⟩
  · exact ⟨⟨fun _ _ => rfl, fun _ hd _ => hd, fun _ hd _ => hd⟩, rfl, rfl, rfl⟩

theorem exec_ok {c : Choice B} {x : Ret B a} (ha : a ≠ .info) (h : exec host c a s = (.ok x, t)) :
    perform host c.bundle c.compiled s a = some (x, t) := by
  unfold exec at h
  split at h
  · split at h
    · rename_i hp
      cases h
      exact hp
    · cases h
  · split at h
    · exact absurd rfl ha
    · cases h
  · cases h

/-- an action that is performed, where the ways out do not matter -/
theorem runs_perform {Q : Ret B a → Site B → Prop} (ha : a ≠ .info)
    (h : ∀ b compiled x t, perform host b compiled s a = some (x, t) → Q x t) :
    Runs (exec host) P (fun _ => True) (call a) s Q fun _ _ => True := by
  refine runs_act trivial fun c _ r t hr => ?_
  cases r with
  | ok x => exact runs_pure trivial (h _ _ _ _ (exec_ok ha hr))
  | error e => exact runs_throw trivial trivial

theorem all_stageDockerRoot (cfg : RootfsConfig) {q : Act → Prop} (h : ∀ a, Inside [[]] [["dockerroot"]] a → q a) (hspawn : q .spawn)
    (hstop : q .stop) : (stageDockerRoot cfg : Bake B Unit).run.All q := by
  have hinside : ∀ {α : Type} {p : Bake B α}, p.run.All (Inside [[]] []) → p.run.All q := by
    intro α p hp
    refine hp.mono fun a ha => h a ⟨?_, ha.2⟩
    obtain ⟨hdirs, hmade⟩ := Bool.and_eq_true_iff.1 ha.1
    refine Bool.and_eq_true_iff.2 ⟨hdirs, ?_⟩
    split at hmade
    · cases hmade
    · rfl
  refine all_seq (all_call (h _ ⟨rfl, rfl⟩)) fun _ => all_seq (hinside (all_obtainTar cfg)) fun _ => all_seq (all_call hspawn)
    fun _ => all_seq ?_ fun _ => all_call (h _ ⟨rfl, rfl⟩)
  refine all_seq (all_tryCatch (all_seq (hinside (all_loadImage cfg)) fun _ => all_pure none) fun e => all_pure (some e)) fun r =>
    all_seq (all_call hstop) fun _ => ?_
  cases r with
  | none => exact all_pure ()
  | some e => exact all_throw e

/-! ## The daemon, the image and the marker -/

section Outside

variable {I : Site B → Prop} {Q : Unit → Site B → Prop} {E : Err → Site B → Prop}

theorem runs_tryFinally {p cleanup : Bake B Unit}
    (h : Runs (exec host) P I p s (fun _ t => Runs (exec host) P I cleanup t Q E)
      fun e t => Runs (exec host) P I cleanup t (fun _ u => E e u) E) :
    Runs (exec host) P I (tryFinally p cleanup) s Q E := by
  apply runs_bind
  apply runs_tryCatch
  apply runs_bind
  refine h.mono (fun _ t hI ht => runs_pure hI ?_) fun e t hI ht => runs_pure hI ?_
  · apply runs_bind
    exact ht.mono (fun _ u hI hu => runs_pure hI hu) fun _ _ _ he => he
  · apply runs_bind
    exact ht.mono (fun _ u hI hu => runs_throw hI hu) fun _ _ _ he => he

/-- the daemon is stopped, and the image and the marker are untouched -/
def Quiet (s t : Site B) : Prop := t.daemon = false ∧ t.image = s.image ∧ t.marker = s.marker

theorem Quiet.apart (h : Quiet s t) (h' : Apart t u) : Quiet s u :=
  ⟨h'.daemon.trans h.1, h'.image.trans h.2.1, h'.marker.trans h.2.2⟩

theorem runs_quiet {D M : List Path} {α : Type} {p : Bake B α} (h : p.run.All (Inside D M)) (hs : Quiet s t) :
    Runs (exec host) P (fun _ => True) p t (fun _ u => Quiet s u) fun _ u => Quiet s u :=
  (runs_inside h t).mono (fun _ _ _ hu => hs.apart hu.2) fun _ _ _ hu => hs.apart hu.2

variable (cfg : RootfsConfig)

/-- the stop of the daemon succeeds, and no interrupt comes between its start and the `try` -/
def Choice.Tidy (c : Choice B) : Prop := c.verdict .stop = .succeeds ∧ ∀ f, c.verdict .spawn ≠ .interrupts (some f)

/-- a way out, if the daemon is stopped there as long as every choice is tidy -/
def Stopped (P : Choice B → Prop) (t : Site B) : Prop := (∀ c, P c → c.Tidy) → t.daemon = false

theorem Quiet.stopped (h : Quiet s t) : Stopped P t := fun _ => h.1

theorem runs_stop : Runs (exec host) P (fun _ => True) (call .stop) s (fun _ t => t = { s with daemon := false })
    fun _ t => Stopped P t := by
  refine runs_act trivial fun c hc r t hr => ?_
  unfold exec at hr
  split at hr
  · cases hr
    exact runs_pure trivial rfl
  all_goals
    rename_i hverdict
    cases hr
    refine runs_throw trivial fun htidy => ?_
    rw [(htidy c hc).1] at hverdict
    cases hverdict

theorem perform_spawn {b : B} {compiled : File B} {x : Unit} (hp : perform host b compiled s .spawn = some (x, t)) :
    t.image = s.image ∧ t.marker = s.marker := by
  simp only [perform] at hp
  split_ifs at hp
  cases hp
  exact ⟨rfl, rfl⟩

theorem runs_spawn (hs : s.daemon = false) : Runs (exec host) P (fun _ => True) (call .spawn) s
    (fun _ t => t.image = s.image ∧ t.marker = s.marker) fun _ t => Stopped P t := by
  refine runs_act trivial fun c hc r t hr => ?_
  unfold exec at hr
  split at hr
  · split at hr
    · rename_i hp
      cases hr
      exact runs_pure trivial (perform_spawn hp)
    · cases hr
      exact runs_throw trivial fun _ => hs
  · cases hr
    exact runs_throw trivial fun _ => hs
  · rename_i left hverdict
    cases hr
    refine runs_throw trivial fun htidy => ?_
    cases left with
    | none => exact hs
    | some f => exact absurd hverdict ((htidy c hc).2 f)

/-- what happens while the daemon runs is followed by its stop -/
theorem runs_daemon (hs : Quiet s t) : Runs (exec host) P (fun _ => True) (stageDockerRoot cfg) t (fun _ u => Quiet s u)
    fun _ u => Stopped P u := by
  apply runs_bind
  refine (runs_quiet (all_call (q := Inside [] [["dockerroot"]]) ⟨rfl, rfl⟩) hs).mono (fun _ t₁ _ h₁ => ?_) fun _ _ _ h => h.stopped
  apply runs_bind
  refine (runs_quiet (all_obtainTar cfg) h₁).mono (fun _ t₂ _ h₂ => ?_) fun _ _ _ h => h.stopped
  apply runs_bind
  refine (runs_spawn h₂.1).mono (fun _ t₃ _ h₃ => ?_) fun _ _ _ h => h
  apply runs_bind
  apply runs_tryFinally
  have hstopped : ∀ t₄ : Site B, Apart t₃ t₄ → Quiet s { t₄ with daemon := false } := fun t₄ h₄ =>
    ⟨rfl, h₄.image.trans (h₃.1.trans h₂.2.1), h₄.marker.trans (h₃.2.trans h₂.2.2)⟩
  refine (runs_inside (all_loadImage cfg) t₃).mono (fun _ t₄ _ h₄ => ?_) fun e t₄ _ h₄ => ?_
  · refine runs_stop.mono (fun _ t₅ _ h₅ => ?_) fun _ _ _ h => h
    rw [h₅]
    exact (runs_quiet (all_call (q := Inside [] []) ⟨rfl, rfl⟩) (hstopped t₄ h₄.2)).mono (fun _ _ _ h => h) fun _ _ _ h => h.stopped
  · refine runs_stop.mono (fun _ t₅ _ h₅ => ?_) fun _ _ _ h => h
    rw [h₅]
    exact (hstopped t₄ h₄.2).stopped

theorem runs_buildTree_quiet (hs : Quiet s t) :
    Runs (exec host) P (fun _ => True) (buildTree cfg) t (fun _ u => Quiet s u) fun _ u => Stopped P u := by
  apply runs_bind
  refine (runs_quiet all_makeDirs hs).mono (fun _ t₁ _ h₁ => ?_) fun _ _ _ h => h.stopped
  apply runs_bind
  refine (runs_quiet (all_stageBusybox cfg) h₁).mono (fun _ t₂ _ h₂ => ?_) fun _ _ _ h => h.stopped
  apply runs_bind
  refine (runs_quiet all_stageDockerBinaries h₂).mono (fun _ t₃ _ h₃ => ?_) fun _ _ _ h => h.stopped
  apply runs_bind
  refine (runs_quiet (all_stageIptables cfg) h₃).mono (fun _ t₄ _ h₄ => ?_) fun _ _ _ h => h.stopped
  apply runs_bind
  refine (runs_quiet (all_stageSocat cfg) h₄).mono (fun _ t₅ _ h₅ => ?_) fun _ _ _ h => h.stopped
  apply runs_bind
  refine (runs_quiet (all_stageAdbprobe cfg) h₅).mono (fun _ t₆ _ h₆ => ?_) fun _ _ _ h => h.stopped
  apply runs_bind
  refine (runs_daemon cfg h₆).mono (fun _ t₇ _ h₇ => ?_) fun _ _ _ h => h
  apply runs_bind
  refine (runs_quiet (all_call (q := Inside [["root", "var", "lib"], ["root", "var", "lib", "docker"]] []) ⟨rfl, rfl⟩) h₇).mono
    (fun _ t₈ _ h₈ => ?_) fun _ _ _ h => h.stopped
  apply runs_bind
  refine (runs_quiet (all_recordImage cfg) h₈).mono (fun _ t₉ _ h₉ => ?_) fun _ _ _ h => h.stopped
  exact (runs_quiet (all_installInit cfg) h₉).mono (fun _ _ _ h => h) fun _ _ _ h => h.stopped

/-- the marker of this build is beside the image -/
def Marked (cfg : RootfsConfig) (t : Site B) : Prop :=
  ∃ v, majorVersionFromImage cfg.redroidImage = some v ∧ t.marker = some (markerText v)

theorem exec_writeMarker (host : Host B) (c : Choice B) (text : List Char) (s : Site B) :
    match exec host c (.writeMarker text) s with
    | (.ok _, t) => t = { s with marker := some text }
    | (.error _, t) => t.daemon = s.daemon ∧ t.image = s.image := by
  have hdamaged : ∀ left, (damaged (.writeMarker text) left s).daemon = s.daemon ∧
      (damaged (.writeMarker text) left s).image = s.image := by
    intro left
    simp only [damaged]
    split_ifs <;> exact ⟨rfl, rfl⟩
  unfold exec
  cases c.verdict (.writeMarker text) with
  | succeeds => rfl
  | refuses left => exact hdamaged left
  | interrupts left => exact hdamaged left

theorem exec_mke2fs (host : Host B) (c : Choice B) (size : Int) (s : Site B) :
    match exec host c (.mke2fs size) s with
    | (r, t) => t.daemon = s.daemon ∧ t.marker = s.marker ∧
      match r with
      | .ok _ => True
      | .error _ => t.image = s.image ∨ t.image = none := by
  have hdamaged : ∀ left, (damaged (.mke2fs size) left s).daemon = s.daemon ∧
      (damaged (.mke2fs size) left s).marker = s.marker ∧
      ((damaged (.mke2fs size) left s).image = s.image ∨ (damaged (.mke2fs size) left s).image = none) := by
    intro left
    simp only [damaged]
    split_ifs
    · exact ⟨rfl, rfl, Or.inr rfl⟩
    · exact ⟨rfl, rfl, Or.inl rfl⟩
  unfold exec
  cases c.verdict (.mke2fs size) with
  | succeeds => exact ⟨rfl, rfl, trivial⟩
  | refuses left => exact hdamaged left
  | interrupts left => exact hdamaged left

/-! ### At every moment -/

/-- the image is the one before -/
def Act.unsealed : Act → Bool
  | .writeMarker _ | .mke2fs _ => false
  | _ => true

theorem exec_image {c : Choice B} (ha : a.unsealed = true) : (exec host c a s).2.image = s.image := by
  cases a with
  | writeMarker text => cases ha
  | mke2fs size => cases ha
  | spawn =>
    unfold exec
    split
    · split
      · rename_i hp
        exact (perform_spawn hp).1
      · rfl
    · rfl
    · simp only [cutOff]
      split_ifs
      · cases hp : perform host c.bundle c.compiled s .spawn with
        | none => rfl
        | some r => exact (perform_spawn (x := r.1) hp).1
      · rfl
  | stop =>
    unfold exec
    split
    · rfl
    · rfl
    · simp only [cutOff]
      split_ifs <;> rfl
  | _ => exact (exec_apart rfl).image

theorem unsealed_of_local (h : a.local = true) : a.unsealed = true := by
  cases a <;> first | rfl | cases h

theorem all_unsealed {D M : List Path} {α : Type} {p : Bake B α} (h : p.run.All (Inside D M)) :
    p.run.All fun a => a.unsealed = true :=
  h.mono fun _ ha => unsealed_of_local ha.2

theorem all_buildTree : (buildTree cfg : Bake B Unit).run.All fun a => a.unsealed = true :=
  all_seq (all_unsealed all_makeDirs) fun _ => all_seq (all_unsealed (all_stageBusybox cfg)) fun _ =>
    all_seq (all_unsealed all_stageDockerBinaries) fun _ => all_seq (all_unsealed (all_stageIptables cfg)) fun _ =>
    all_seq (all_unsealed (all_stageSocat cfg)) fun _ => all_seq (all_unsealed (all_stageAdbprobe cfg)) fun _ =>
    all_seq (all_stageDockerRoot cfg (fun _ ha => unsealed_of_local ha.2) rfl rfl) fun _ => all_seq (all_call rfl) fun _ =>
    all_seq (all_unsealed (all_recordImage cfg)) fun _ => all_unsealed (all_installInit cfg)

theorem runs_unsealed {α : Type} {p : Bake B α} {Q : α → Site B → Prop} {E : Err → Site B → Prop}
    (hp : p.run.All fun a => a.unsealed = true) (ht : t.image = s.image) (h : Runs (exec host) P (fun _ => True) p t Q E) :
    Runs (exec host) P (fun u => u.image = s.image ∨ Marked cfg u) p t Q fun e u => E e u ∧ u.image = s.image := by
  have himage : Runs (exec host) P (fun u => u.image = s.image) p t (fun _ u => u.image = s.image) fun _ u => u.image = s.image :=
    hp.runs (fun c _ a ha u hu => (exec_image ha).trans hu) ht
  exact ((h.and himage).weaken fun _ h => Or.inl h.2).mono (fun _ _ _ h => h.1) fun _ _ _ h => h

/-- the last steps -/
theorem runs_seal (ht : Quiet s t) : Runs (exec host) P (fun u => u.image = s.image ∨ Marked cfg u)
    (do
      writeVersionMarker cfg
      call (.mke2fs cfg.imageSizeMb)) t (fun _ u => u.daemon = false ∧ Marked cfg u)
    fun _ u => u.daemon = false ∧ (u.image = s.image ∨ (u.image = none ∧ Marked cfg u)) := by
  have himage : t.image = s.image := ht.2.1
  apply runs_bind
  unfold writeVersionMarker
  split
  · exact runs_throw (Or.inl himage) ⟨ht.1, Or.inl himage⟩
  · rename_i v hv
    refine runs_act (Or.inl himage) fun c _ r t₁ hr => ?_
    have hmarker := exec_writeMarker host c (markerText v) t
    rw [hr] at hmarker
    cases r with
    | error e =>
      have hsame : t₁.image = s.image := hmarker.2.trans himage
      exact runs_throw (Or.inl hsame) ⟨hmarker.1.trans ht.1, Or.inl hsame⟩
    | ok x =>
      obtain rfl : t₁ = { t with marker := some (markerText v) } := hmarker
      have hmarked : Marked cfg { t with marker := some (markerText v) } := ⟨v, hv, rfl⟩
      refine runs_pure (Or.inr hmarked) (runs_act (Or.inr hmarked) fun c' _ r' t₂ hr' => ?_)
      have hpacked := exec_mke2fs host c' cfg.imageSizeMb { t with marker := some (markerText v) }
      rw [hr'] at hpacked
      obtain ⟨hdaemon, hmarker', himage'⟩ := hpacked
      have hmarked' : Marked cfg t₂ := ⟨v, hv, hmarker'⟩
      cases r' with
      | ok x => exact runs_pure (Or.inr hmarked') ⟨hdaemon.trans ht.1, hmarked'⟩
      | error e =>
        refine runs_throw (Or.inr hmarked') ⟨hdaemon.trans ht.1, ?_⟩
        exact himage'.imp (fun h => h.trans himage) fun h => ⟨h, hmarked'⟩

variable (host) in
/-- an image that is new or damaged has its marker, also while the build runs -/
theorem runs_image (hs : s.daemon = false) :
    Runs (exec host) P (fun t => t.image = s.image ∨ Marked cfg t) (build host.digest cfg) s
      (fun _ t => t.daemon = false ∧ Marked cfg t)
      fun _ t => Stopped P t ∧ (t.image = s.image ∨ (t.image = none ∧ Marked cfg t)) := by
  apply runs_bind
  refine (runs_unsealed cfg (all_unsealed (all_fetchStaticBundle cfg host.digest)) rfl
    (runs_quiet (all_fetchStaticBundle cfg host.digest) ⟨hs, rfl, rfl⟩)).mono (fun _ t₁ _ h₁ => ?_)
      fun _ _ _ h => ⟨h.1.stopped, Or.inl h.2⟩
  apply runs_bind
  refine (runs_unsealed cfg (all_buildTree cfg) h₁.2.1 (runs_buildTree_quiet cfg h₁)).mono (fun _ t₂ _ h₂ => ?_)
    fun _ _ _ h => ⟨h.1, Or.inl h.2⟩
  apply runs_bind
  refine (runs_unsealed cfg (all_unsealed all_verifyGuestImageMarker) h₂.2.1 (runs_quiet all_verifyGuestImageMarker h₂)).mono
    (fun _ t₃ _ h₃ => ?_) fun _ _ _ h => ⟨h.1.stopped, Or.inl h.2⟩
  exact (runs_seal cfg h₃).mono (fun _ _ _ h => h) fun _ _ _ h => ⟨fun _ => h.1, h.2⟩

end Outside

/-! ## The tree -/

section Tree

variable {b : B} {compiled : File B}

theorem behindLink_eq {t : FileTree (File B)} {p : Path} (h : ∀ f, readFile t p = some f → f.isLink = false) :
    behindLink t p = p := by
  unfold behindLink
  split
  · rename_i target x hf
    cases h _ hf
  · rfl

theorem perform_copyIn {src : String} {dst : Path} {x : Unit} (hp : perform host b compiled s (.copyIn src dst) = some (x, t))
    (hdir : dirAt s.work dst = false) (hlink : ∀ f, readFile s.work dst = some f → f.isLink = false) :
    ∃ f, host.file src = some f ∧ t = { s with work := writeFile s.work dst f } := by
  simp only [perform, copyTarget, hdir, Bool.false_eq_true, if_false] at hp
  split_ifs at hp
  obtain ⟨f, hf, heq⟩ := Option.map_eq_some_iff.1 hp
  cases heq
  refine ⟨f, hf, ?_⟩
  rw [place, behindLink_eq hlink]

theorem perform_copyWork {src dst : Path} {x : Unit} (hp : perform host b compiled s (.copyWork src dst) = some (x, t))
    (hdir : dirAt s.work dst = false) (hlink : ∀ f, readFile s.work dst = some f → f.isLink = false) :
    ∃ f, readFile s.work src = some f ∧ t = { s with work := writeFile s.work dst f } := by
  simp only [perform, copyTarget, hdir, Bool.false_eq_true, if_false] at hp
  split_ifs at hp
  obtain ⟨f, hf, heq⟩ := Option.map_eq_some_iff.1 hp
  cases heq
  refine ⟨f, hf, ?_⟩
  rw [place, behindLink_eq hlink]

theorem perform_chmod {p : Path} {f : File B} {x : Unit} (hp : perform host b compiled s (.chmod p) = some (x, t))
    (hf : readFile s.work p = some f) (hlink : f.isLink = false) :
    t = { s with work := writeFile s.work p { f with executable := true } } := by
  have hbehind : behindLink s.work p = p := by
    apply behindLink_eq
    intro g hg
    rw [hf] at hg
    cases hg
    exact hlink
  simp only [perform] at hp
  split_ifs at hp
  cases hp
  rw [setExecutable, hbehind, hf]

variable (cfg : RootfsConfig)

/-- the archive and what was taken out of it -/
def Unpacked (host : Host B) (cfg : RootfsConfig) (files : List (String × B)) (t : Site B) : Prop :=
  (∃ b, (∀ expected, cfg.dockerUrlSha256 = some expected → host.digest b = expected) ∧ host.unpack b = some files) ∧
    ∀ name f, readFile t.work (docker ++ [name]) = some f → ∃ body, (name, body) ∈ files ∧ f = ⟨.blob body, true⟩

theorem extract_files {t : FileTree (File B)} (files : List (String × B)) (h : ∀ name, readFile t (docker ++ [name]) = none)
    {name : String} {f : File B} (hf : readFile (extract t files) (docker ++ [name]) = some f) :
    ∃ body, (name, body) ∈ files ∧ f = ⟨.blob body, true⟩ := by
  have hall : ∀ f, readFile (extract t files) (docker ++ [name]) = some f → ∃ body, (name, body) ∈ files ∧ f = ⟨.blob body, true⟩ := by
    refine extract_induction (M := fun u => ∀ f, readFile u (docker ++ [name]) = some f →
      ∃ body, (name, body) ∈ files ∧ f = ⟨.blob body, true⟩) files (fun f hf => ?_) fun u n body hmem hu f hf => ?_
    · rw [readFile_mkdirs, h name] at hf
      cases hf
    · rw [readFile_write] at hf
      split_ifs at hf with hname
      · cases hf
        exact ⟨body, List.singleton_inj.1 (List.append_cancel_left hname) ▸ hmem, rfl⟩
      · exact hu f hf
  exact hall f hf

/-- the bundle that is unpacked is the one whose digest was compared -/
theorem runs_fetchStaticBundle (hempty : ∀ q, s.work.get? q = none) :
    Runs (exec host) P (fun _ => True) (fetchStaticBundle host.digest cfg) s
      (fun _ t => (∃ files, Unpacked host cfg files t) ∧ readFile t.work ["redroid.tar"] = none ∧ present t.work root = false)
      fun _ _ => True := by
  have hwork : ∀ q, readFile s.work q = none := by
    intro q
    unfold readFile
    rw [hempty]
  have habsent : present s.work root = false := by
    rw [Bool.eq_false_iff]
    intro hp
    obtain ⟨q, n, -, hn⟩ := present_iff.1 hp
    rw [hempty] at hn
    cases hn
  apply runs_bind
  refine runs_perform (by simp) fun b compiled x t₁ hp => ?_
  cases hp
  have hplace : place s.work ["docker.tgz"] ⟨.blob b, false⟩ = writeFile s.work ["docker.tgz"] ⟨.blob b, false⟩ := by
    rw [place, behindLink_eq]
    intro f hf
    rw [hwork] at hf
    cases hf
  rw [hplace]
  generalize ht₁ : ({ s with work := writeFile s.work ["docker.tgz"] ⟨.blob b, false⟩ } : Site B) = t₁
  have hbundle : readFile t₁.work ["docker.tgz"] = some ⟨.blob b, false⟩ := by
    rw [← ht₁, readFile_write_self]
  have habsent' : present t₁.work root = false := by
    rw [← ht₁]
    exact absent_writeFile habsent (by decide)
  have hrest : ∀ q, q ≠ ["docker.tgz"] → readFile t₁.work q = none := by
    intro q hq
    rw [← ht₁, readFile_write_ne hq]
    exact hwork q
  apply runs_bind
  have hverify : Runs (exec host) P (fun _ => True) (verifyStaticBundleDigest host.digest cfg) t₁
      (fun _ t => t = t₁ ∧ ∀ expected, cfg.dockerUrlSha256 = some expected → host.digest b = expected) fun _ _ => True := by
    unfold verifyStaticBundleDigest
    split
    · rename_i hnone
      exact runs_pure trivial ⟨rfl, fun expected h => by rw [hnone] at h; cases h⟩
    · rename_i expected hsome
      apply runs_bind
      refine runs_perform (by simp) fun b' compiled' x t₂ hp => ?_
      simp only [perform, hbundle] at hp
      cases hp
      split_ifs with hdigest
      · refine runs_pure trivial ⟨rfl, fun e he => ?_⟩
        rw [hsome] at he
        cases he
        exact hdigest
      · exact runs_throw trivial trivial
  refine hverify.mono (fun _ t₂ _ h₂ => ?_) fun _ _ _ h => h
  obtain ⟨rfl, hdigest⟩ := h₂
  apply runs_bind
  refine runs_perform (by simp) fun b' compiled' x t₃ hp => ?_
  simp only [perform] at hp
  split_ifs at hp
  cases hp
  refine runs_perform (by simp) fun b'' compiled'' x t₄ hp => ?_
  simp only [perform, readFile_mkdirs, hbundle] at hp
  obtain ⟨files, hfiles, heq⟩ := Option.map_eq_some_iff.1 hp
  cases heq
  refine ⟨⟨files, ⟨b, hdigest, hfiles⟩, fun name f hf => ?_⟩, ?_, ?_⟩
  · refine extract_files files (fun name => ?_) hf
    rw [readFile_mkdirs]
    exact hrest _ (by simp [docker])
  · rw [readFile_extract_frame files (by decide), readFile_mkdirs]
    exact hrest _ (by decide)
  · refine extract_induction (M := fun u => present u root = false) files (absent_mkdirs ?_ (by decide))
      fun u name body _ hu => absent_writeFile hu (by simp [root, docker])
    exact absent_mkdirs habsent' (by decide)

/-! ### The shell -/

/-- the applets are links to busybox, and nothing else is in the directory yet -/
structure Applets (host : Host B) (cfg : RootfsConfig) (done : List (List Char)) (t : Site B) : Prop where
  busybox : ∃ f, host.file cfg.busyboxBin = some f ∧ readFile t.work (bin ++ ["busybox"]) = some { f with executable := true }
  links : ∀ w ∈ done, w ≠ "busybox".toList → readFile t.work (bin ++ [String.ofList w]) = some ⟨.link "busybox", true⟩
  others : ∀ x, x ≠ "busybox" → x ∉ done.map String.ofList → readFile t.work (bin ++ [x]) = none

theorem bin_ne {x y : String} (h : x ≠ y) : bin ++ [x] ≠ bin ++ [y] := fun heq =>
  h (List.singleton_inj.1 (List.append_cancel_left heq))

theorem runs_stageApplet {done : List (List Char)} (h : Applets host cfg done t) (w : List Char) :
    Runs (exec host) P (fun _ => True) (stageApplet w) t (fun _ u => Applets host cfg (done ++ [w]) u) fun _ _ => True := by
  unfold stageApplet
  split_ifs with hw
  · refine runs_pure trivial ⟨h.busybox, fun v hv hne => ?_, fun x hx hmem => h.others x hx fun hd => hmem ?_⟩
    · rcases List.mem_append.1 hv with hv | hv
      · exact h.links v hv hne
      · rw [List.mem_singleton.1 hv] at hne
        exact absurd hw hne
    · rw [List.map_append]
      exact List.mem_append_left _ hd
  · have hname : String.ofList w ≠ "busybox" := by
      intro heq
      exact hw (by rw [← heq, String.toList_ofList])
    apply runs_bind
    refine runs_perform (by simp) fun b compiled x t₁ hp => ?_
    simp only [perform] at hp
    split_ifs at hp
    cases hp
    refine runs_perform (by simp) fun b' compiled' x t₂ hp => ?_
    simp only [perform] at hp
    split_ifs at hp
    cases hp
    have hfile : ∀ x, readFile (writeFile (t.work.erase (bin ++ [String.ofList w])) (bin ++ [String.ofList w])
        ⟨.link "busybox", true⟩) (bin ++ [x]) =
          if x = String.ofList w then some ⟨.link "busybox", true⟩ else readFile t.work (bin ++ [x]) := by
      intro x
      by_cases hx : x = String.ofList w
      · rw [hx, if_pos rfl, readFile_write_self]
      · rw [if_neg hx, readFile_write_ne (bin_ne hx), readFile_erase, if_neg (bin_ne hx)]
    refine ⟨?_, fun v hv hne => ?_, fun x hx hmem => ?_⟩
    · obtain ⟨f, hf, hbusybox⟩ := h.busybox
      refine ⟨f, hf, ?_⟩
      exact (hfile "busybox").trans ((if_neg hname.symm).trans hbusybox)
    · refine (hfile (String.ofList v)).trans ?_
      split_ifs with heq
      · rfl
      · rcases List.mem_append.1 hv with hv | hv
        · exact h.links v hv hne
        · rw [List.mem_singleton.1 hv] at heq
          exact absurd rfl heq
    · refine (hfile x).trans ?_
      rw [List.map_append, List.mem_append, not_or] at hmem
      rw [if_neg fun heq => hmem.2 (by rw [heq]; exact List.mem_singleton.2 rfl)]
      exact h.others x hx hmem.1

theorem runs_applets (done : List (List Char)) (h : Applets host cfg done t) (ws : List (List Char)) :
    Runs (exec host) P (fun _ => True) (forEach stageApplet ws) t (fun _ u => Applets host cfg (done ++ ws) u)
      fun _ _ => True := by
  induction ws generalizing done t with
  | nil =>
    rw [List.append_nil]
    exact runs_pure trivial h
  | cons w ws ih =>
    apply runs_bind
    refine (runs_stageApplet cfg h w).mono (fun _ u _ hu => ?_) fun _ _ _ h => h
    have hrest := ih (done ++ [w]) hu
    rw [List.append_assoc] at hrest
    exact hrest

theorem runs_stageBusybox (hbin : ∀ x, readFile t.work (bin ++ [x]) = none) (hdir : dirAt t.work (bin ++ ["busybox"]) = false) :
    Runs (exec host) P (fun _ => True) (stageBusybox cfg) t
      (fun _ u => Applets host cfg (Str.fields host.applets) u) fun _ _ => True := by
  apply runs_bind
  refine runs_perform (by simp) fun b compiled x t₁ hp => ?_
  obtain ⟨f, hf, rfl⟩ := perform_copyIn hp hdir fun f hf => absurd ((hbin "busybox").symm.trans hf) (by simp)
  apply runs_bind
  refine runs_perform (by simp) fun b' compiled' x t₂ hp => ?_
  have hcopied : readFile (writeFile t.work (bin ++ ["busybox"]) f) (bin ++ ["busybox"]) = some f := by
    rw [readFile_write_self]
  rw [perform_chmod hp hcopied (host.plain _ _ hf)]
  apply runs_bind
  refine runs_perform (by simp) fun b'' compiled'' x t₃ hp => ?_
  cases hp
  refine (runs_applets cfg [] ⟨⟨f, hf, ?_⟩, fun w hw => absurd hw List.not_mem_nil, fun x hx _ => ?_⟩
    (Str.fields host.applets))
  · exact readFile_write_self _ _ _
  · calc _ = readFile (writeFile t.work (bin ++ ["busybox"]) f) (bin ++ [x]) := readFile_write_ne (bin_ne hx)
      _ = readFile t.work (bin ++ [x]) := readFile_write_ne (bin_ne hx)
      _ = none := hbin x

/-! ### The binaries of docker -/

/-- the binaries that have been copied; the other files are as they were -/
structure Binaries (files : List (String × B)) (names : List String) (t u : Site B) : Prop where
  copied : ∀ name ∈ names, ∃ body, (name, body) ∈ files ∧ readFile u.work (bin ++ [name]) = some ⟨.blob body, true⟩
  others : ∀ q, (∀ name ∈ names, q ≠ bin ++ [name]) → readFile u.work q = readFile t.work q
  dirs : ∀ q, dirAt t.work q = false → dirAt u.work q = false

theorem runs_stageDockerBinary {files : List (String × B)} (hdocker : Unpacked host cfg files t) {name : String}
    (hlink : ∀ f, readFile t.work (bin ++ [name]) = some f → f.isLink = false) (hdir : dirAt t.work (bin ++ [name]) = false) :
    Runs (exec host) P (fun _ => True) (stageDockerBinary name) t (fun _ u => Binaries files [name] t u) fun _ _ => True := by
  apply runs_bind
  refine runs_perform (by simp) fun b compiled x t₁ hp => ?_
  obtain ⟨f, hf, rfl⟩ := perform_copyWork hp hdir hlink
  obtain ⟨body, hbody, rfl⟩ := hdocker.2 name f hf
  refine runs_perform (by simp) fun b' compiled' x t₂ hp => ?_
  have hcopied : readFile (writeFile t.work (bin ++ [name]) ⟨.blob body, true⟩) (bin ++ [name]) = some ⟨.blob body, true⟩ := by
    exact readFile_write_self _ _ _
  rw [perform_chmod hp hcopied rfl]
  refine ⟨fun n hn => ?_, fun q hq => ?_, fun q hd => dirAt_writeFile _ _ (dirAt_writeFile _ _ hd)⟩
  · rw [List.mem_singleton.1 hn]
    exact ⟨body, hbody, readFile_write_self _ _ _⟩
  · have hne : q ≠ bin ++ [name] := hq name (List.mem_singleton.2 rfl)
    calc _ = readFile (writeFile t.work (bin ++ [name]) ⟨.blob body, true⟩) q := readFile_write_ne hne
      _ = readFile t.work q := readFile_write_ne hne

theorem runs_binaries {files : List (String × B)} (names : List String) (hnodup : names.Nodup)
    (hdocker : Unpacked host cfg files t)
    (hlink : ∀ name ∈ names, ∀ f, readFile t.work (bin ++ [name]) = some f → f.isLink = false)
    (hdir : ∀ name ∈ names, dirAt t.work (bin ++ [name]) = false) :
    Runs (exec host) P (fun _ => True) (forEach stageDockerBinary names) t (fun _ u => Binaries files names t u)
      fun _ _ => True := by
  induction names generalizing t with
  | nil => exact runs_pure trivial ⟨fun _ h => absurd h List.not_mem_nil, fun _ _ => rfl, fun _ h => h⟩
  | cons name names ih =>
    obtain ⟨hnew, hnodup⟩ := List.nodup_cons.1 hnodup
    apply runs_bind
    refine (runs_stageDockerBinary cfg hdocker (hlink name List.mem_cons_self) (hdir name List.mem_cons_self)).mono
      (fun _ u _ hu => ?_) fun _ _ _ h => h
    have hother : ∀ q, q ≠ bin ++ [name] → readFile u.work q = readFile t.work q := fun q hq =>
      hu.others q fun n hn => by rw [List.mem_singleton.1 hn]; exact hq
    have hsame : ∀ n ∈ names, readFile u.work (bin ++ [n]) = readFile t.work (bin ++ [n]) := fun n hn =>
      hother _ (bin_ne fun heq => hnew (heq ▸ hn))
    have hdocker' : Unpacked host cfg files u := by
      refine ⟨hdocker.1, fun n f hf => hdocker.2 n f ?_⟩
      rw [← hother _ (by simp [docker, bin]), hf]
    refine (ih hnodup hdocker' (fun n hn f hf => hlink n (List.mem_cons_of_mem _ hn) f ?_) fun n hn =>
      hu.dirs _ (hdir n (List.mem_cons_of_mem _ hn))).mono (fun _ v _ hv => ?_) fun _ _ _ h => h
    · rw [← hsame n hn, hf]
    · refine ⟨fun n hn => ?_, fun q hq => ?_, fun q hd => hv.dirs q (hu.dirs q hd)⟩
      · rcases List.mem_cons.1 hn with rfl | hn
        · obtain ⟨body, hbody, hfile⟩ := hu.copied n (List.mem_singleton.2 rfl)
          refine ⟨body, hbody, ?_⟩
          exact (hv.others (bin ++ [n]) fun m hm => bin_ne fun heq => hnew (heq ▸ hm)).trans hfile
        · exact hv.copied n hn
      · rw [hv.others q fun n hn => hq n (List.mem_cons_of_mem _ hn), hother q (hq name List.mem_cons_self)]

/-! ### The data root -/

/-- the images of the archive that is loaded -/
def Loads (host : Host B) (cfg : RootfsConfig) (images : List String) : Prop :=
  match cfg.redroidTar with
  | none => images = [cfg.redroidImage]
  | some tar => imagesOf (host.file tar) = some images

theorem runs_obtainTar (hfree : readFile t.work ["redroid.tar"] = none) :
    Runs (exec host) P (fun _ => True) (obtainTar cfg) t
      (fun _ u => ∀ images, tarImages host u.work cfg.redroidTar = some images → Loads host cfg images) fun _ _ => True := by
  unfold obtainTar Loads
  split
  · rename_i tar htar
    rw [htar]
    exact runs_pure trivial fun images h => h
  · rename_i hnone
    rw [hnone]
    apply runs_bind
    refine runs_perform (by simp) fun b compiled x t₁ hp => ?_
    cases hp
    refine runs_perform (by simp) fun b' compiled' x t₂ hp => ?_
    cases hp
    have hbehind : behindLink t.work ["redroid.tar"] = ["redroid.tar"] :=
      behindLink_eq fun f hf => absurd (hfree.symm.trans hf) (by simp)
    have hsaved : readFile (place t.work ["redroid.tar"] ⟨.images [cfg.redroidImage], false⟩) ["redroid.tar"] =
        some ⟨.images [cfg.redroidImage], false⟩ := by
      rw [place, hbehind, readFile_write_self]
    intro images himages
    simp only [tarImages, hsaved, imagesOf, Option.some.injEq] at himages
    exact himages.symm

theorem runs_waitDockerReady (left : ℕ) :
    Runs (exec host) P (fun _ => True) (waitDockerReady left) t (fun _ u => u = t) fun _ _ => True := by
  induction left generalizing t with
  | zero => exact runs_throw trivial trivial
  | succ left ih =>
    apply runs_bind
    refine runs_act trivial fun c _ r t₁ hr => ?_
    cases r with
    | error e => exact runs_throw trivial trivial
    | ok ready =>
      have hsame : t₁ = t := by
        unfold exec at hr
        split at hr
        · split at hr
          · rename_i hp
            simp only [perform] at hp
            split_ifs at hp
            cases hp
            cases hr
            rfl
          · cases hr
        · cases hr
          rfl
        · cases hr
      rw [hsame]
      refine runs_pure trivial ?_
      split_ifs
      · exact runs_pure trivial rfl
      · apply runs_bind
        refine runs_perform (by simp) fun b compiled x t₂ hp => ?_
        cases hp
        exact ih

theorem runs_stageDockerRoot (hfree : readFile t.work ["redroid.tar"] = none) :
    Runs (exec host) P (fun _ => True) (stageDockerRoot cfg) t
      (fun _ u => ∃ images, Loads host cfg images ∧ readFile u.work ["dockerroot"] = some ⟨.images images, false⟩)
      fun _ _ => True := by
  apply runs_bind
  refine runs_perform (by simp) fun b compiled x t₁ hp => ?_
  simp only [perform] at hp
  split_ifs at hp
  cases hp
  apply runs_bind
  refine (runs_obtainTar cfg ((readFile_mkdirs _ _ _).trans hfree)).mono (fun _ t₂ _ htar => ?_) fun _ _ _ h => h
  apply runs_bind
  refine runs_perform (by simp) fun b' compiled' x t₃ hp => ?_
  simp only [perform] at hp
  split_ifs at hp
  cases hp
  apply runs_bind
  apply runs_tryFinally
  have hload : Runs (exec host) P (fun _ => True) (loadImage cfg)
      { t₂ with work := writeFile t₂.work ["dockerroot"] ⟨.images [], false⟩, daemon := true }
      (fun _ u => ∃ images, Loads host cfg images ∧ readFile u.work ["dockerroot"] = some ⟨.images images, false⟩)
      fun _ _ => True := by
    apply runs_bind
    refine (runs_waitDockerReady _).mono (fun _ t₄ _ h₄ => ?_) fun _ _ _ h => h
    rw [h₄]
    refine runs_perform (by simp) fun b'' compiled'' x t₅ hp => ?_
    have hroot : readFile (writeFile t₂.work ["dockerroot"] ⟨.images [], false⟩) ["dockerroot"] = some ⟨.images [], false⟩ := by
      rw [readFile_write_self]
    have htar' : tarImages host (writeFile t₂.work ["dockerroot"] ⟨.images [], false⟩) cfg.redroidTar =
        tarImages host t₂.work cfg.redroidTar := by
      unfold tarImages
      split
      · rfl
      · rw [readFile_write_ne (by decide)]
    simp only [perform, hroot, htar'] at hp
    split at hp
    · rename_i new old hnew hold
      split_ifs at hp
      cases hp
      cases hold
      exact ⟨new, htar new hnew, readFile_write_self _ _ _⟩
    · cases hp
  refine hload.mono (fun _ t₄ _ h₄ => ?_) fun e t₄ _ _ => ?_
  · refine runs_stop.mono (fun _ t₅ _ h₅ => ?_) fun _ _ _ _ => trivial
    rw [h₅]
    refine runs_perform (by simp) fun b'' compiled'' x t₆ hp => ?_
    cases hp
    exact h₄
  · exact runs_stop.mono (fun _ _ _ _ => trivial) fun _ _ _ _ => trivial

/-! ### The guest's files -/

/-- a step in these directories leaves the rest alone -/
theorem runs_kept {D M : List Path} {α : Type} {p : Bake B α} {Q : α → Site B → Prop}
    (h : p.run.All fun a => a.inside D M = true) (hspec : Runs (exec host) P (fun _ => True) p s Q fun _ _ => True) :
    Runs (exec host) P (fun _ => True) p s (fun x t => Q x t ∧ Kept D M s t) fun _ _ => True := by
  have hkept : Runs (exec host) P (fun t => Kept D M s t) p s (fun _ t => Kept D M s t) fun _ t => Kept D M s t :=
    h.runs (fun c _ a ha t ht => ht.trans (exec_kept ha)) ⟨fun _ _ => rfl, fun _ hd _ => hd, fun _ hd _ => hd⟩
  exact ((hspec.and hkept).weaken fun _ _ => trivial).mono (fun _ _ _ h => h) fun _ _ _ _ => trivial

theorem runs_any {α : Type} (p : Bake B α) (s : Site B) :
    Runs (exec host) P (fun _ => True) p s (fun _ _ => True) fun _ _ => True :=
  ((all_true p.run).runs (I := fun _ => True) (fun _ _ _ _ _ _ => trivial) trivial)

/-- what the steps before the last ones have not touched -/
structure Blank (t : Site B) : Prop where
  init : readFile t.work ["root", "init"] = none
  record : readFile t.work guestMarker = none
  tar : readFile t.work ["redroid.tar"] = none
  dirs : ∀ q, root <+: q → (∀ dir ∈ rootfsDirs, ¬ q <+: root ++ dir) → dirAt t.work q = false

theorem Blank.kept {D : List Path} (h : Blank t) (hk : Kept D [] t u) (hD : ∀ p ∈ [["root", "init"], guestMarker, ["redroid.tar"]],
    p.dropLast ∉ D) : Blank u := by
  simp only [List.mem_cons, List.not_mem_nil, or_false, forall_eq_or_imp, forall_eq] at hD
  obtain ⟨hinit, hrecord, htar⟩ := hD
  exact ⟨(hk.files _ hinit).trans h.init, (hk.files _ hrecord).trans h.record, (hk.files _ htar).trans h.tar,
    fun q hq hdir => hk.dirs q (h.dirs q hq hdir) fun _ hr => absurd hr List.not_mem_nil⟩

theorem runs_mkdirs {q : Path} (dirs : List Path) (h : (present t.work q = false ∧ q ∈ dirs.map (root ++ ·)) ∨ dirAt t.work q = true)
    (hbelow : ∀ dir ∈ dirs, q <+: root ++ dir → root ++ dir = q) :
    Runs (exec host) P (fun _ => True) (forEach (fun dir => call (.mkdir (root ++ dir))) dirs) t
      (fun _ u => dirAt u.work q = true ∧ ∀ r, readFile u.work r = readFile t.work r) fun _ _ => True := by
  induction dirs generalizing t with
  | nil =>
    rcases h with h | h
    · exact absurd h.2 List.not_mem_nil
    · exact runs_pure trivial ⟨h, fun _ => rfl⟩
  | cons dir dirs ih =>
    apply runs_bind
    refine runs_perform (by simp) fun b compiled x t₁ hp => ?_
    simp only [perform] at hp
    split_ifs at hp
    cases hp
    refine (ih ?_ fun d hd => hbelow d (List.mem_cons_of_mem _ hd)).mono (fun _ u _ hu => ?_) fun _ _ _ h => h
    · rcases h with ⟨habsent, hmem⟩ | h
      · by_cases hq : q <+: root ++ dir
        · right
          apply dirAt_of_get?
          rw [get?_mkdirs, if_pos ⟨hq, habsent⟩]
        · left
          refine ⟨absent_mkdirs habsent hq, ?_⟩
          rcases List.mem_cons.1 hmem with heq | hmem
          · exact absurd (heq ▸ List.prefix_refl q) hq
          · exact hmem
      · exact Or.inr (stays_mkdirs _ h)
    · exact ⟨hu.1, fun r => (hu.2 r).trans (readFile_mkdirs _ _ _)⟩

theorem runs_makeDirs (h : present t.work root = false) : Runs (exec host) P (fun _ => True) makeDirs t
    (fun _ u => dirAt u.work ["root", "lib64"] = true ∧ ∀ q, readFile u.work q = readFile t.work q) fun _ _ => True := by
  have hnone : ∀ q, root <+: q → readFile t.work q = none := by
    intro q hq
    unfold readFile
    rw [get?_of_not_present h hq]
  have habsent : present t.work ["root", "lib64"] = false := by
    rw [Bool.eq_false_iff]
    intro hp
    rw [present_of_below (by decide) hp] at h
    cases h
  apply runs_bind
  refine (runs_mkdirs rootfsDirs (Or.inl ⟨habsent, by decide⟩) (by decide)).mono (fun _ t₁ _ h₁ => ?_) fun _ _ _ h => h
  have htmp : readFile t₁.work ["root", "tmp"] = none := (h₁.2 _).trans (hnone _ (by decide))
  have hbehind : behindLink t₁.work ["root", "tmp"] = ["root", "tmp"] :=
    behindLink_eq fun f hf => absurd (htmp.symm.trans hf) (by simp)
  refine runs_perform (by simp) fun b compiled x t₂ hp => ?_
  simp only [perform] at hp
  split_ifs at hp
  cases hp
  rw [setExecutable, hbehind, htmp]
  exact h₁

/-- a copy to a directory leaves the directory above alone -/
theorem exec_copyIn_below {c : Choice B} {src : String} {dst q : Path} (hd : dirAt s.work dst = true) (hq : q.dropLast ≠ dst) :
    readFile (exec host c (.copyIn src dst) s).2.work q = readFile s.work q := by
  refine edit_frame exec_edit fun hmem => hq ?_
  have hhome : q.dropLast ∈ [(copyTarget s.work (lastSegment src) dst).dropLast] := hmem
  rw [List.mem_singleton.1 hhome, copyTarget, if_pos hd, List.dropLast_concat]

/-- the loader goes below `/lib64` -/
theorem runs_stageIptables (hlib : dirAt t.work ["root", "lib64"] = true) : Runs (exec host) P (fun _ => True) (stageIptables cfg) t
    (fun _ u => readFile u.work ["root", "init"] = readFile t.work ["root", "init"]) fun _ _ => True := by
  have hinside : ∀ {u v : Site B}, Kept xtablesDirs [] u v →
      dirAt u.work ["root", "lib64"] = true ∧ readFile u.work ["root", "init"] = readFile t.work ["root", "init"] →
      dirAt v.work ["root", "lib64"] = true ∧ readFile v.work ["root", "init"] = readFile t.work ["root", "init"] :=
    fun hk h => ⟨hk.stays _ h.1 (by decide), (hk.files _ (by decide)).trans h.2⟩
  apply runs_bind
  refine (runs_inside (D := xtablesDirs) (M := []) (all_call ⟨rfl, rfl⟩) t).mono (fun _ t₁ _ h₁ => ?_) fun _ _ _ _ => trivial
  apply runs_bind
  refine (runs_inside (D := xtablesDirs) (M := []) (all_forEach fun name _ => ?_) t₁).mono (fun _ t₂ _ h₂ => ?_) fun _ _ _ _ => trivial
  · exact all_seq (all_symlink ⟨rfl, rfl⟩ ⟨rfl, rfl⟩) fun _ => all_symlink ⟨rfl, rfl⟩ ⟨rfl, rfl⟩
  apply runs_bind
  refine (runs_inside (D := xtablesDirs) (M := []) (all_copyLibs ⟨rfl, rfl⟩ fun _ => ⟨rfl, rfl⟩) t₂).mono (fun _ t₃ _ h₃ => ?_) fun _ _ _ _ => trivial
  obtain ⟨hlib₃, hinit₃⟩ := hinside h₃.1 (hinside h₂.1 (hinside h₁.1 ⟨hlib, rfl⟩))
  unfold copyLibFile
  apply runs_tryCatch
  refine runs_act trivial fun c _ r t₄ hr => ?_
  have hfile : readFile t₄.work ["root", "init"] = readFile t₃.work ["root", "init"] := by
    rw [show t₄ = (exec host c (.copyIn cfg.ldLinux ["root", "lib64"]) t₃).2 by rw [hr]]
    exact exec_copyIn_below hlib₃ (by decide)
  cases r with
  | ok x => exact runs_pure trivial (hfile.trans hinit₃)
  | error e =>
    refine runs_throw trivial ?_
    split_ifs
    · exact runs_pure trivial (hfile.trans hinit₃)
    · exact runs_throw trivial trivial

theorem runs_stageSocat (hdir : dirAt t.work (bin ++ ["socat"]) = false) (hfree : readFile t.work (bin ++ ["socat"]) = none) :
    Runs (exec host) P (fun _ => True) (stageSocat cfg) t
      (fun _ u => (∃ f, host.file cfg.socatBin = some f ∧ readFile u.work (bin ++ ["socat"]) = some { f with executable := true }) ∧
        ∀ x, x ≠ "socat" → readFile u.work (bin ++ [x]) = readFile t.work (bin ++ [x])) fun _ _ => True := by
  apply runs_bind
  refine runs_perform (by simp) fun b compiled x t₁ hp => ?_
  obtain ⟨f, hf, rfl⟩ := perform_copyIn hp hdir fun f hf => absurd (hfree.symm.trans hf) (by simp)
  apply runs_bind
  refine runs_perform (by simp) fun b' compiled' x t₂ hp => ?_
  have hcopied : readFile (writeFile t.work (bin ++ ["socat"]) f) (bin ++ ["socat"]) = some f := by
    rw [readFile_write_self]
  rw [perform_chmod hp hcopied (host.plain _ _ hf)]
  refine (runs_inside (D := libDirs) (M := []) (all_copyLibs ⟨rfl, rfl⟩ fun _ => ⟨rfl, rfl⟩) _).mono (fun _ u _ hu => ?_)
    fun _ _ _ _ => trivial
  have hlibs : ∀ x, (bin ++ [x]).dropLast ∉ libDirs := by
    intro x
    rw [List.dropLast_concat]
    decide
  refine ⟨⟨f, hf, (hu.1.files _ (hlibs _)).trans (readFile_write_self _ _ _)⟩, fun x hx => ?_⟩
  calc _ = _ := hu.1.files _ (hlibs x)
    _ = readFile (writeFile t.work (bin ++ ["socat"]) f) (bin ++ [x]) := readFile_write_ne (bin_ne hx)
    _ = readFile t.work (bin ++ [x]) := readFile_write_ne (bin_ne hx)

/-- the files of `/bin` but for socat -/
structure Bin (host : Host B) (cfg : RootfsConfig) (files : List (String × B)) (read : String → Option (File B)) : Prop where
  busybox : ∃ f, host.file cfg.busyboxBin = some f ∧ read "busybox" = some { f with executable := true }
  applets : ∀ w ∈ Str.fields host.applets, w ≠ "busybox".toList → read (String.ofList w) = some ⟨.link "busybox", true⟩
  docker : ∀ name ∈ dockerStaticBins, ∃ body, (name, body) ∈ files ∧ read name = some ⟨.blob body, true⟩

/-- no applet has the name of another program that is staged -/
def Host.Distinct (host : Host B) : Prop := ∀ w ∈ Str.fields host.applets, String.ofList w ∉ "socat" :: dockerStaticBins

theorem bin_of_binaries {files : List (String × B)} (hdistinct : host.Distinct)
    (ha : Applets host cfg (Str.fields host.applets) t) (hb : Binaries files dockerStaticBins t u) :
    Bin host cfg files fun x => readFile u.work (bin ++ [x]) := by
  have hother : ∀ x, x ∉ dockerStaticBins → readFile u.work (bin ++ [x]) = readFile t.work (bin ++ [x]) := fun x hx =>
    hb.others _ fun name hname => bin_ne fun heq => hx (heq ▸ hname)
  refine ⟨?_, fun w hw hne => ?_, hb.copied⟩
  · obtain ⟨f, hf, hbusybox⟩ := ha.busybox
    exact ⟨f, hf, (hother _ (by decide)).trans hbusybox⟩
  · exact (hother _ fun hmem => hdistinct w hw (List.mem_cons_of_mem _ hmem)).trans (ha.links w hw hne)

theorem Bin.congr {files : List (String × B)} {read read' : String → Option (File B)} (h : Bin host cfg files read)
    (hdistinct : host.Distinct) (heq : ∀ x, x ≠ "socat" → read' x = read x) : Bin host cfg files read' := by
  refine ⟨?_, fun w hw hne => ?_, fun name hname => ?_⟩
  · obtain ⟨f, hf, hbusybox⟩ := h.busybox
    exact ⟨f, hf, (heq _ (by decide)).trans hbusybox⟩
  · refine (heq _ fun hsocat => hdistinct w hw ?_).trans (h.applets w hw hne)
    rw [hsocat]
    exact List.mem_cons_self
  · obtain ⟨body, hbody, hfile⟩ := h.docker name hname
    refine ⟨body, hbody, (heq _ fun hsocat => ?_).trans hfile⟩
    rw [hsocat] at hname
    exact absurd hname (by decide)

/-- the bundle with the expected digest from which the programs of docker are -/
def Genuine (host : Host B) (cfg : RootfsConfig) (files : List (String × B)) : Prop :=
  ∃ b, (∀ expected, cfg.dockerUrlSha256 = some expected → host.digest b = expected) ∧ host.unpack b = some files

/-- the programs have been staged -/
structure Staged (host : Host B) (cfg : RootfsConfig) (t : Site B) : Prop where
  bin : ∃ files, Genuine host cfg files ∧ Bin host cfg files fun x => readFile t.work (bin ++ [x])
  socat : ∃ f, host.file cfg.socatBin = some f ∧ readFile t.work (Rootfs.bin ++ ["socat"]) = some { f with executable := true }

theorem Staged.kept {D M : List Path} (h : Staged host cfg t) (hk : Kept D M t u) (hD : Rootfs.bin ∉ D) : Staged host cfg u := by
  have hfile : ∀ x, readFile u.work (Rootfs.bin ++ [x]) = readFile t.work (Rootfs.bin ++ [x]) := fun x =>
    hk.files _ (by rw [List.dropLast_concat]; exact hD)
  obtain ⟨files, hfiles, hbin⟩ := h.bin
  obtain ⟨f, hf, hsocat⟩ := h.socat
  refine ⟨⟨files, hfiles, ?_⟩, f, hf, (hfile "socat").trans hsocat⟩
  rw [funext hfile]
  exact hbin

theorem blank_of_absent (habsent : present t.work root = false) (htar : readFile t.work ["redroid.tar"] = none)
    (hfile : ∀ q, readFile u.work q = readFile t.work q) (hk : Kept [["root"]] (rootfsDirs.map (root ++ ·)) t u) : Blank u := by
  have hnone : ∀ q, root <+: q → t.work.get? q = none := fun q hq => get?_of_not_present habsent hq
  have hread : ∀ q, root <+: q → readFile u.work q = none := by
    intro q hq
    rw [hfile, readFile, hnone q hq]
  refine ⟨hread _ (by decide), hread _ (by decide), (hfile _).trans htar, fun q hq hdir => hk.dirs q ?_ fun r hr => ?_⟩
  · rw [dirAt, hnone q hq]
  · obtain ⟨dir, hmem, rfl⟩ := List.mem_map.1 hr
    exact hdir dir hmem

theorem Blank.iptables (h : Blank t) (hinit : readFile u.work ["root", "init"] = readFile t.work ["root", "init"])
    (hk : Kept (xtablesDirs ++ [["root", "lib64"], ["root"]]) [] t u) : Blank u :=
  ⟨hinit.trans h.init, (hk.files _ (by decide)).trans h.record, (hk.files _ (by decide)).trans h.tar,
    fun q hq hd => hk.dirs q (h.dirs q hq hd) fun _ hr => absurd hr List.not_mem_nil⟩

theorem Blank.binDir (h : Blank t) (x : String) : dirAt t.work (bin ++ [x]) = false := by
  refine h.dirs _ ⟨["bin", x], rfl⟩ ?_
  simp [rootfsDirs, root, bin]

/-- the programs of `/bin`, from the bundle that has been unpacked -/
theorem runs_programs {files : List (String × B)} (hdistinct : host.Distinct) (hgenuine : Unpacked host cfg files t) (hblank : Blank t)
    (hbin : ∀ x, readFile t.work (bin ++ [x]) = none) (hlib : dirAt t.work ["root", "lib64"] = true) {rest : Bake B Unit}
    {Q : Unit → Site B → Prop}
    (hrest : ∀ u, Staged host cfg u → Blank u → Runs (exec host) P (fun _ => True) rest u Q fun _ _ => True) :
    Runs (exec host) P (fun _ => True)
      (do
        stageBusybox cfg
        stageDockerBinaries
        stageIptables cfg
        stageSocat cfg
        stageAdbprobe cfg
        rest) t Q fun _ _ => True := by
  apply runs_bind
  refine (runs_kept ((all_stageBusybox cfg).mono fun _ h => h.1) (runs_stageBusybox cfg hbin (hblank.binDir _))).mono
    (fun _ t₁ _ h₁ => ?_) fun _ _ _ h => h
  obtain ⟨happlets, hk₁⟩ := h₁
  have hblank₁ : Blank t₁ := hblank.kept hk₁ (by decide)
  have hunpacked : Unpacked host cfg files t₁ := by
    refine ⟨hgenuine.1, fun name f hf => hgenuine.2 name f ?_⟩
    rw [← hk₁.files _ (by rw [List.dropLast_concat]; decide), hf]
  have hfree : ∀ name ∈ "socat" :: dockerStaticBins, readFile t₁.work (bin ++ [name]) = none := by
    intro name hname
    refine happlets.others name (fun heq => ?_) fun hmem => ?_
    · rw [heq] at hname
      exact absurd hname (by decide)
    · obtain ⟨w, hw, rfl⟩ := List.mem_map.1 hmem
      exact hdistinct w hw hname
  apply runs_bind
  refine (runs_kept (all_stageDockerBinaries.mono fun _ h => h.1) (runs_binaries cfg dockerStaticBins (by decide) hunpacked
    (fun name hname f hf => ?_) fun name _ => hblank₁.binDir name)).mono (fun _ t₂ _ h₂ => ?_) fun _ _ _ h => h
  · rw [hfree name (List.mem_cons_of_mem _ hname)] at hf
    cases hf
  obtain ⟨hbinaries, hk₂⟩ := h₂
  have hblank₂ : Blank t₂ := hblank₁.kept hk₂ (by decide)
  have hbin₂ := bin_of_binaries cfg hdistinct happlets hbinaries
  have hsocat₂ : readFile t₂.work (bin ++ ["socat"]) = none :=
    (hbinaries.others _ fun name hname => bin_ne fun heq => absurd (heq ▸ hname) (by decide)).trans
      (hfree "socat" List.mem_cons_self)
  apply runs_bind
  refine (runs_kept ((all_stageIptables cfg).mono fun _ h => h.1) (runs_stageIptables cfg ?_)).mono
    (fun _ t₃ _ h₃ => ?_) fun _ _ _ h => h
  · exact hk₂.stays _ (hk₁.stays _ hlib (by decide)) (by decide)
  obtain ⟨hinit, hk₃⟩ := h₃
  have hblank₃ : Blank t₃ := hblank₂.iptables hinit hk₃
  have hsame₃ : ∀ x, readFile t₃.work (bin ++ [x]) = readFile t₂.work (bin ++ [x]) := fun x =>
    hk₃.files _ (by rw [List.dropLast_concat]; decide)
  apply runs_bind
  refine (runs_kept ((all_stageSocat cfg).mono fun _ h => h.1)
    (runs_stageSocat cfg (hblank₃.binDir _) ((hsame₃ _).trans hsocat₂))).mono (fun _ t₄ _ h₄ => ?_) fun _ _ _ h => h
  obtain ⟨⟨hsocat, hothers⟩, hk₄⟩ := h₄
  have hstaged : Staged host cfg t₄ :=
    ⟨⟨files, hunpacked.1, hbin₂.congr cfg hdistinct fun x hx => (hothers x hx).trans (hsame₃ x)⟩, hsocat⟩
  have hblank₄ : Blank t₄ := hblank₃.kept hk₄ (by decide)
  apply runs_bind
  refine (runs_kept ((all_stageAdbprobe cfg).mono fun _ h => h.1) (runs_any _ t₄)).mono (fun _ t₅ _ h₅ => ?_) fun _ _ _ h => h
  exact hrest t₅ (hstaged.kept cfg h₅.2 (by decide)) (hblank₄.kept h₅.2 (by decide))

/-- whatever the names of the applets, the rest of the tree is as it was -/
theorem runs_programs_blank (hblank : Blank t) (hlib : dirAt t.work ["root", "lib64"] = true) {rest : Bake B Unit}
    {Q : Unit → Site B → Prop} (hrest : ∀ u, Blank u → Runs (exec host) P (fun _ => True) rest u Q fun _ _ => True) :
    Runs (exec host) P (fun _ => True)
      (do
        stageBusybox cfg
        stageDockerBinaries
        stageIptables cfg
        stageSocat cfg
        stageAdbprobe cfg
        rest) t Q fun _ _ => True := by
  apply runs_bind
  refine (runs_kept ((all_stageBusybox cfg).mono fun _ h => h.1) (runs_any _ t)).mono (fun _ t₁ _ h₁ => ?_) fun _ _ _ h => h
  have hblank₁ : Blank t₁ := hblank.kept h₁.2 (by decide)
  apply runs_bind
  refine (runs_kept (all_stageDockerBinaries.mono fun _ h => h.1) (runs_any _ t₁)).mono (fun _ t₂ _ h₂ => ?_) fun _ _ _ h => h
  have hblank₂ : Blank t₂ := hblank₁.kept h₂.2 (by decide)
  have hlib₂ : dirAt t₂.work ["root", "lib64"] = true := h₂.2.stays _ (h₁.2.stays _ hlib (by decide)) (by decide)
  apply runs_bind
  refine (runs_kept ((all_stageIptables cfg).mono fun _ h => h.1) (runs_stageIptables cfg hlib₂)).mono (fun _ t₃ _ h₃ => ?_)
    fun _ _ _ h => h
  have hblank₃ : Blank t₃ := hblank₂.iptables h₃.1 h₃.2
  apply runs_bind
  refine (runs_kept ((all_stageSocat cfg).mono fun _ h => h.1) (runs_any _ t₃)).mono (fun _ t₄ _ h₄ => ?_) fun _ _ _ h => h
  apply runs_bind
  refine (runs_kept ((all_stageAdbprobe cfg).mono fun _ h => h.1) (runs_any _ t₄)).mono (fun _ t₅ _ h₅ => ?_) fun _ _ _ h => h
  exact hrest t₅ ((hblank₃.kept h₄.2 (by decide)).kept h₅.2 (by decide))

/-- the files of the guest that the build is for -/
structure Tree (host : Host B) (cfg : RootfsConfig) (read : Path → Option (File B)) : Prop where
  record : read ["etc", "beetroot", "redroid-image"] = some ⟨.text (cfg.redroidImage.toList ++ ['\n']), false⟩
  images : ∃ images, Loads host cfg images ∧ read ["var", "lib", "docker"] = some ⟨.images images, false⟩
  init : ∃ f, host.file (cfg.vmDir ++ "/guest-init.sh") = some f ∧ read ["init"] = some { f with executable := true }
  programs : host.Distinct → ∃ files, Genuine host cfg files ∧ Bin host cfg files fun x => read ["bin", x]
  socat : host.Distinct → ∃ f, host.file cfg.socatBin = some f ∧ read ["bin", "socat"] = some { f with executable := true }

theorem runs_recordImage (h : readFile t.work guestMarker = none) : Runs (exec host) P (fun _ => True) (recordImage cfg) t
    (fun _ u => readFile u.work guestMarker = some ⟨.text (cfg.redroidImage.toList ++ ['\n']), false⟩) fun _ _ => True := by
  apply runs_bind
  refine runs_perform (by simp) fun b compiled x t₁ hp => ?_
  simp only [perform] at hp
  split_ifs at hp
  cases hp
  have hfree : readFile (mkdirs t.work ["root", "etc", "beetroot"]) guestMarker = none := (readFile_mkdirs _ _ _).trans h
  refine runs_perform (by simp) fun b' compiled' x t₂ hp => ?_
  simp only [perform] at hp
  split_ifs at hp
  cases hp
  have hbehind : behindLink (mkdirs t.work ["root", "etc", "beetroot"]) guestMarker = guestMarker :=
    behindLink_eq fun f hf => absurd (hfree.symm.trans hf) (by simp)
  rw [place, hbehind, readFile_write_self]

theorem runs_installInit (hdir : dirAt t.work ["root", "init"] = false) (hfree : readFile t.work ["root", "init"] = none) :
    Runs (exec host) P (fun _ => True) (installInit cfg) t
      (fun _ u => (∃ f, host.file (cfg.vmDir ++ "/guest-init.sh") = some f ∧
        readFile u.work ["root", "init"] = some { f with executable := true }) ∧
          ∀ q, q ≠ ["root", "init"] → readFile u.work q = readFile t.work q) fun _ _ => True := by
  apply runs_bind
  refine runs_perform (by simp) fun b compiled x t₁ hp => ?_
  obtain ⟨f, hf, rfl⟩ := perform_copyIn hp hdir fun f hf => absurd (hfree.symm.trans hf) (by simp)
  refine runs_perform (by simp) fun b' compiled' x t₂ hp => ?_
  have hcopied : readFile (writeFile t.work ["root", "init"] f) ["root", "init"] = some f := by
    exact readFile_write_self _ _ _
  rw [perform_chmod hp hcopied (host.plain _ _ hf)]
  refine ⟨⟨f, hf, readFile_write_self _ _ _⟩, fun q hq => ?_⟩
  calc _ = readFile (writeFile t.work ["root", "init"] f) q := readFile_write_ne hq
    _ = readFile t.work q := readFile_write_ne hq

/-- where the data root goes -/
theorem perform_copyDataRoot {images : List String} {x : Unit} (hp : perform host b compiled s .copyDataRoot = some (x, t))
    (hdir : dirAt s.work ["root", "var", "lib", "docker"] = false)
    (hroot : readFile s.work ["dockerroot"] = some ⟨.images images, false⟩) :
    t = { s with work := writeFile s.work ["root", "var", "lib", "docker"] ⟨.images images, false⟩ } := by
  have hdata : dataRoot s.work = ["root", "var", "lib", "docker"] := by
    rw [dataRoot, hdir, if_neg Bool.false_ne_true]
  simp only [perform, hroot, hdata] at hp
  cases hp
  rfl

theorem runs_buildTree {files : List (String × B)} (hunpacked : Unpacked host cfg files t) (habsent : present t.work root = false)
    (htar : readFile t.work ["redroid.tar"] = none) :
    Runs (exec host) P (fun _ => True) (buildTree cfg) t (fun _ u => Tree host cfg fun q => readFile u.work (root ++ q))
      fun _ _ => True := by
  apply runs_bind
  refine (runs_kept (all_makeDirs.mono fun _ h => h.1) (runs_makeDirs habsent)).mono (fun _ t₁ _ h₁ => ?_) fun _ _ _ h => h
  obtain ⟨⟨hlib, hfile⟩, hk₁⟩ := h₁
  have hbin : ∀ x, readFile t₁.work (bin ++ [x]) = none := by
    intro x
    rw [hfile, readFile, get?_of_not_present (q := bin ++ [x]) habsent ⟨["bin", x], rfl⟩]
  have hunpacked₁ : Unpacked host cfg files t₁ := ⟨hunpacked.1, fun name f hf => hunpacked.2 name f ((hfile _).symm.trans hf)⟩
  have hblank₁ : Blank t₁ := blank_of_absent habsent htar hfile hk₁
  have hprograms : ∀ {rest : Bake B Unit} {Q : Unit → Site B → Prop},
      (∀ u, (host.Distinct → Staged host cfg u) → Blank u → Runs (exec host) P (fun _ => True) rest u Q fun _ _ => True) →
      Runs (exec host) P (fun _ => True)
        (do
          stageBusybox cfg
          stageDockerBinaries
          stageIptables cfg
          stageSocat cfg
          stageAdbprobe cfg
          rest) t₁ Q fun _ _ => True := by
    intro rest Q hrest
    by_cases hdistinct : host.Distinct
    · exact runs_programs cfg hdistinct hunpacked₁ hblank₁ hbin hlib fun u hu => hrest u fun _ => hu
    · exact runs_programs_blank cfg hblank₁ hlib fun u => hrest u fun h => absurd h hdistinct
  refine hprograms fun t₂ hstaged₂ hblank₂ => ?_
  apply runs_bind
  refine (runs_kept (all_stageDockerRoot cfg (fun _ h => h.1) rfl rfl) (runs_stageDockerRoot cfg hblank₂.tar)).mono (fun _ t₃ _ h₃ => ?_) fun _ _ _ h => h
  obtain ⟨⟨images, hloads, hroot⟩, hk₃⟩ := h₃
  have hdirs₃ : ∀ q, root <+: q → (∀ dir ∈ rootfsDirs, ¬ q <+: root ++ dir) → dirAt t₃.work q = false := by
    intro q hq hdir
    refine hk₃.dirs q (hblank₂.dirs q hq hdir) fun r hr hqr => ?_
    rw [List.mem_singleton.1 hr] at hqr
    exact absurd (hq.trans hqr) (by decide)
  apply runs_bind
  refine (runs_kept (D := [["root", "var", "lib"], ["root", "var", "lib", "docker"]]) (M := []) (all_call rfl)
    (runs_perform (Q := fun _ u => readFile u.work ["root", "var", "lib", "docker"] = some ⟨.images images, false⟩) (by simp)
      fun b compiled x t₄ hp => ?_)).mono (fun _ t₄ _ h₄ => ?_) fun _ _ _ h => h
  · rw [perform_copyDataRoot hp (hdirs₃ _ (by decide) (by decide)) hroot]
    exact readFile_write_self _ _ _
  obtain ⟨himages, hk₄⟩ := h₄
  have hstaged₄ : host.Distinct → Staged host cfg t₄ := fun h => ((hstaged₂ h).kept cfg hk₃ (by decide)).kept cfg hk₄ (by decide)
  apply runs_bind
  refine (runs_kept ((all_recordImage cfg).mono fun _ h => h.1) (runs_recordImage cfg ?_)).mono (fun _ t₅ _ h₅ => ?_) fun _ _ _ h => h
  · exact (hk₄.files _ (by decide)).trans ((hk₃.files _ (by decide)).trans hblank₂.record)
  obtain ⟨hrecord, hk₅⟩ := h₅
  have hstaged₅ : host.Distinct → Staged host cfg t₅ := fun h => (hstaged₄ h).kept cfg hk₅ (by decide)
  have hdir₅ : dirAt t₅.work ["root", "init"] = false :=
    hk₅.dirs _ (hk₄.dirs _ (hdirs₃ _ (by decide) (by decide)) (by decide)) (by decide)
  have hfree₅ : readFile t₅.work ["root", "init"] = none :=
    calc readFile t₅.work ["root", "init"] = readFile t₄.work ["root", "init"] := hk₅.files _ (by decide)
      _ = readFile t₃.work ["root", "init"] := hk₄.files _ (by decide)
      _ = readFile t₂.work ["root", "init"] := hk₃.files _ (by decide)
      _ = none := hblank₂.init
  refine (runs_kept ((all_installInit cfg).mono fun _ h => h.1) (runs_installInit cfg hdir₅ hfree₅)).mono
    (fun _ t₆ _ h₆ => ?_) fun _ _ _ h => h
  obtain ⟨⟨hinit, hothers⟩, hk₆⟩ := h₆
  have hstaged₆ : host.Distinct → Staged host cfg t₆ := fun h => (hstaged₅ h).kept cfg hk₆ (by decide)
  refine ⟨(hothers _ (by decide)).trans hrecord, ⟨images, hloads, ?_⟩, hinit, fun h => (hstaged₆ h).bin, fun h => (hstaged₆ h).socat⟩
  calc _ = readFile t₅.work ["root", "var", "lib", "docker"] := hothers _ (by decide)
    _ = readFile t₄.work ["root", "var", "lib", "docker"] := hk₅.files _ (by decide)
    _ = some ⟨.images images, false⟩ := himages

/-- the file in a packed image -/
def packed (tree : Path → Option (Node (File B))) (q : Path) : Option (File B) :=
  match tree q with
  | some (.file f) => some f
  | _ => none

theorem packed_root (t : FileTree (File B)) : packed (fun q => t.get? (root ++ q)) = fun q => readFile t (root ++ q) := by
  funext q
  cases hn : t.get? (root ++ q) with
  | none => simp only [packed, readFile, hn]
  | some n => cases n <;> simp only [packed, readFile, hn]

theorem runs_packed (hempty : ∀ q, s.work.get? q = none) : Runs (exec host) P (fun _ => True) (build host.digest cfg) s
      (fun _ t => ∃ tree, t.image = some tree ∧ Tree host cfg (packed tree)) fun _ _ => True := by
  apply runs_bind
  refine (runs_fetchStaticBundle cfg hempty).mono (fun _ t₁ _ h₁ => ?_) fun _ _ _ h => h
  obtain ⟨⟨files, hunpacked⟩, htar, habsent⟩ := h₁
  apply runs_bind
  refine (runs_buildTree cfg hunpacked habsent htar).mono (fun _ t₂ _ h₂ => ?_) fun _ _ _ h => h
  apply runs_bind
  refine (runs_inside all_verifyGuestImageMarker t₂).mono (fun _ t₃ _ h₃ => ?_) fun _ _ _ _ => trivial
  have htree₃ : Tree host cfg fun q => readFile t₃.work (root ++ q) := by
    rw [funext fun q => h₃.1.files (root ++ q) List.not_mem_nil]
    exact h₂
  apply runs_bind
  unfold writeVersionMarker
  split
  · exact runs_throw trivial trivial
  · refine runs_perform (by simp) fun b compiled x t₄ hp => ?_
    cases hp
    refine runs_perform (by simp) fun b' compiled' x' t₅ hp => ?_
    cases hp
    refine ⟨_, rfl, ?_⟩
    rw [packed_root]
    exact htree₃

variable (host) in
theorem runs_build (hempty : ∀ q, s.work.get? q = none) (hdaemon : s.daemon = false) :
    Runs (exec host) P (fun t => t.image = s.image ∨ Marked cfg t) (build host.digest cfg) s
      (fun _ t => t.daemon = false ∧ Marked cfg t ∧ ∃ tree, t.image = some tree ∧ Tree host cfg (packed tree))
      fun _ t => Stopped P t ∧ (t.image = s.image ∨ (t.image = none ∧ Marked cfg t)) := by
  have hends := (runs_image (P := P) host cfg hdaemon).and (runs_packed cfg hempty)
  exact (hends.weaken fun _ h => h.1).mono (fun _ _ _ h => ⟨h.1.1, h.1.2, h.2⟩) fun _ _ _ h => h.1

/-- a build in an empty scratch directory, whatever the commands do: no image is replaced before its marker is there, a build that
returns has packed the guest that was asked for, and the staging dockerd outlives no build in which its start and its stop are not
interrupted -/
theorem bake_spec (host : Host B) (cfg : RootfsConfig) (s : Site B) (hempty : ∀ q, s.work.get? q = none) (hdaemon : s.daemon = false) :
    Runs (exec host) (fun _ => True) (fun t => t.image = s.image ∨ Marked cfg t) (build host.digest cfg) s
        (fun _ t => t.daemon = false ∧ Marked cfg t ∧ ∃ tree, t.image = some tree ∧ Tree host cfg (packed tree))
        (fun _ t => t.image = s.image ∨ (t.image = none ∧ Marked cfg t)) ∧
      Runs (exec host) Choice.Tidy (fun _ => True) (build host.digest cfg) s (fun _ t => t.daemon = false) fun _ t => t.daemon = false := by
  refine ⟨(runs_build host cfg hempty hdaemon).mono (fun _ _ _ h => h) fun _ _ _ h => h.2, ?_⟩
  exact ((runs_build host cfg hempty hdaemon).weaken fun _ _ => trivial).mono (fun _ _ _ h => h.1) fun _ _ _ h => h.1 fun _ hc => hc

end Tree

/-! ## The markers -/

section Markers

/-- the image, said to be of a version, and its marker -/
def Site.disk (t : Site B) (version : Int) : Disk := ⟨t.image.map fun _ => ⟨version, true⟩, t.marker⟩

variable (host) (cfg : RootfsConfig)

/-- a build that returns has both markers right, so its reference has no colon before the tag -/
theorem build_markers (hempty : ∀ q, s.work.get? q = none) (hdaemon : s.daemon = false) {r : Baked.ImageRef}
    (hr : cfg.redroidImage = r.text) : Runs (exec host) P (fun _ => True) (build host.digest cfg) s
      (fun _ t => (':' ∉ r.name ∧ r.major.length ≤ Str.maxStrDigits) ∧ t.marker = some (markerText r.version) ∧
        ∃ tree, t.image = some tree ∧
          packed tree ["etc", "beetroot", "redroid-image"] = some ⟨.text (r.text.toList ++ ['\n']), false⟩)
      fun _ _ => True := by
  refine ((runs_build host cfg hempty hdaemon).weaken fun _ _ => trivial).mono (fun _ t _ h => ?_) fun _ _ _ _ => trivial
  obtain ⟨-, ⟨v, hv, hmarker⟩, tree, himage, htree⟩ := h
  rw [hr, Baked.majorVersionFromImage_eq] at hv
  split_ifs at hv with hplain
  cases hv
  exact ⟨hplain, hmarker, tree, himage, hr ▸ htree.record⟩

/-- after a build without `REDROID_IMAGE` the marker is read as the version of the image -/
theorem build_truthful (hempty : ∀ q, s.work.get? q = none) (hdaemon : s.daemon = false) {version : ℕ}
    (hr : cfg.redroidImage = vmRedroidImage version) : Runs (exec host) P (fun _ => True) (build host.digest cfg) s
      (fun _ t => Truthful (t.disk version) ∧ readRootfsVersion (t.disk version) = some (version : Int)) fun _ _ => True := by
  refine (build_markers host cfg hempty hdaemon (hr.trans (Baked.vmImageRef_text version).symm)).mono (fun _ t _ h => ?_)
    fun _ _ _ h => h
  obtain ⟨⟨-, hdigits⟩, hmarker, -⟩ := h
  rw [Baked.vmImageRef_version] at hmarker
  have hread : readRootfsVersion (t.disk version) = some (version : Int) := readRootfsVersion_marker hdigits hmarker
  refine ⟨fun image himage v hv => ?_, hread⟩
  obtain ⟨tree, -, rfl⟩ := Option.map_eq_some_iff.1 himage
  exact Option.some.inj (hv.symm.trans hread)

end Markers

/-! ## A build that returns -/

def bareFile (src : String) : Option (File String) :=
  if src ∈ ["/bin/busybox", "/bin/socat", "/sbin/xtables", "/lib/ld.so", "vm/guest-init.sh"] then some ⟨.blob src, false⟩ else none

theorem bareFile_plain (src : String) (f : File String) (hf : bareFile src = some f) : f.isLink = false := by
  unfold bareFile at hf
  split_ifs at hf
  cases hf
  rfl

/-- a host with busybox, socat, iptables and their loader -/
def bareHost : Host String where
  file := bareFile
  plain := bareFile_plain
  hasCc := false
  applets := "busybox sh".toList
  ldd _ := []
  digest b := b
  unpack b := if b = "docker" then some (dockerStaticBins.map fun name => (name, name)) else none

def bareConfig : RootfsConfig where
  vmDir := "vm"
  imageSizeMb := 4096
  dockerUrl := "url"
  dockerUrlSha256 := some "docker"
  redroidImage := "redroid/redroid:12.0.0-latest"
  redroidTar := none
  adbprobeBin := none
  busyboxBin := "/bin/busybox"
  xtablesMulti := "/sbin/xtables"
  socatBin := "/bin/socat"
  ldLinux := "/lib/ld.so"

def emptySite : Site String := ⟨Dict.empty, false, none, none⟩

def allSucceeds : Choice String := ⟨fun _ => .succeeds, "docker", ⟨.blob "", true⟩⟩

theorem bareBuild_packs :
    bareHost.Distinct ∧ ((build bareHost.digest bareConfig).run.finish (exec bareHost) allSucceeds [] emptySite).1 = .ok () ∧
      Runs (exec bareHost) (fun _ => True) (fun t => t.image = emptySite.image ∨ Marked bareConfig t)
        (build bareHost.digest bareConfig) emptySite
        (fun _ t => t.daemon = false ∧ Marked bareConfig t ∧ ∃ tree, t.image = some tree ∧ Tree bareHost bareConfig (packed tree))
        (fun _ t => t.image = emptySite.image ∨ (t.image = none ∧ Marked bareConfig t)) ∧
      Runs (exec bareHost) Choice.Tidy (fun _ => True) (build bareHost.digest bareConfig) emptySite (fun _ t => t.daemon = false)
        fun _ t => t.daemon = false :=
  ⟨by unfold Host.Distinct; decide, rfl, bake_spec bareHost bareConfig emptySite (fun _ => rfl) rfl⟩

end Beetroot.Build.Rootfs
