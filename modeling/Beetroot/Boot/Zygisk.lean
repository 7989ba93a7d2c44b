/-
Zygisk over the life of a phone.

Zygisk is injected when the zygote starts, and the first boot switches it on only after that, so `activate-zygisk.sh` restarts the
zygote once. init starts the configuration whenever `sys.boot_completed` is set: after the phone has been switched on, and again
after the zygote has come back. A configuration may be killed at any point, and between two of them the user may write the setting.

Results:
- `run_zygisk`: in any run the zygote is restarted at most once for each time that the setting was found off, so that there is no
  loop, and a configuration that comes to its end after the phone was switched on leaves Zygisk injected, unless the restart is
  disabled or has had no effect.
-/
import Beetroot.Boot.Outcome
import Beetroot.Lib.Run

namespace Beetroot.Boot

open Lib Lib.Prog Lib.Script Lib.Fs Lib.Shell Beetroot.Config

/-! ## The runs -/

structure World where
  phone : Phone
  /-- how often the setting was switched off by others -/
  offs : ℕ
  /-- the commands of the last configuration -/
  log : Log Cmd

inductive Event where
  /-- the phone is switched on, and the configuration runs until the choices end -/
  | boot (env : Env) (path : List Path) (cs : List Choice)
  /-- init starts it again -/
  | again (env : Env) (path : List Path) (cs : List Choice)
  /-- others write the setting -/
  | written (value : Option Int)

def powerOn (s : Phone) : Phone := { s with injected := s.zygisk = some 1 }

def configure (env : Env) (path : List Path) (cs : List Choice) (s : Phone) : Phone × Log Cmd :=
  (entrypoint env).run.stopped (logged exec) cs ({ s with path := path, done := false }, [])

def step (w : World) : Event → World
  | .boot env path cs =>
    let r := configure env path cs (powerOn w.phone)
    ⟨r.1, w.offs, r.2⟩
  | .again env path cs =>
    let r := configure env path cs w.phone
    ⟨r.1, w.offs, r.2⟩
  | .written value =>
    { w with
      phone := { w.phone with zygisk := value },
      offs := if w.phone.zygisk = some 1 ∧ value ≠ some 1 then w.offs + 1 else w.offs }

/-- nothing outside the scripts sets the variable; `compose.yaml` does not -/
def Plain : Event → Prop
  | .boot env _ _ | .again env _ _ => env.vars "BEETROOT_ZYGISK_NEWLY_ENABLED" ≠ some "1"
  | .written _ => True

/-- one if the setting is off -/
def off (s : Phone) : ℕ := if s.zygisk = some 1 then 0 else 1

theorem effect_eq (c : Choice) (possible : Bool) (s t : Phone) :
    (effect c possible s t).2 = s ∨ (effect c possible s t).2 = t := by
  unfold effect
  split_ifs
  · cases c with
    | succeeds => exact Or.inr rfl
    | fails => exact Or.inl rfl
    | silent => exact Or.inl rfl
  · exact Or.inl rfl

/-- a phone on which the setting is on after the command was switched on by it, or before -/
theorem exec_replaceZygisk (c : Choice) (s : Phone) (h : (exec c .replaceZygisk s).2.zygisk = some 1) :
    s.zygisk = some 1 ∨ (exec c .replaceZygisk s).2.switched = s.switched + 1 := by
  by_cases hs : s.zygisk = some 1
  · exact Or.inl hs
  · right
    rcases effect_eq c s.resolves s
      { s with zygisk := some 1, switched := if s.zygisk = some 1 then s.switched else s.switched + 1 } with he | he
    · exact absurd (he ▸ h) hs
    · exact (congrArg Phone.switched he).trans (if_neg hs)

theorem exec_replaceDenylist (c : Choice) (s : Phone) :
    (exec c .replaceDenylist s).2.zygisk = s.zygisk ∧ (exec c .replaceDenylist s).2.switched = s.switched :=
  effect_keeps (I := fun t => t.zygisk = s.zygisk ∧ t.switched = s.switched) ⟨rfl, rfl⟩ ⟨rfl, rfl⟩

theorem off_of_on {s : Phone} (h : s.zygisk = some 1) : off s = 0 := if_pos h

theorem off_of_off {s : Phone} (h : s.zygisk ≠ some 1) : off s = 1 := if_neg h

/-! ## One configuration -/

/-- what a configuration that has begun at `s` may have counted -/
structure Counted (s t : Phone) : Prop where
  grows : s.switched ≤ t.switched
  switched : t.switched + off t ≤ s.switched + off s
  restarts : t.restarts + s.switched ≤ s.restarts + t.switched

theorem Counted.refl (s : Phone) : Counted s s := ⟨le_rfl, le_rfl, le_rfl⟩

theorem Counted.trans {s t u : Phone} (h : Counted s t) (h' : Counted t u) : Counted s u :=
  ⟨h.grows.trans h'.grows, h'.switched.trans h.switched, by
    have := h.restarts
    have := h'.restarts
    omega⟩

/-- the setting stays on, and nothing but a restart injects -/
theorem exec_counted {c : Choice} {a : Cmd} {s : Phone} (ha : steady a = true) :
    Counted s (exec c a s).2 ∧ (exec c a s).2.restarts = s.restarts ∧ (exec c a s).2.injected = s.injected ∧
      (exec c a s).2.done = s.done := by
  have hsame : ∀ {t : Phone}, t.zygisk = s.zygisk → t.switched = s.switched → t.restarts = s.restarts → Counted s t := by
    intro t hz hs hr
    refine ⟨hs.ge, ?_, by rw [hs, hr]⟩
    rw [hs, off, off, hz]
  have hrefl := Counted.refl s
  cases a with
  | restartZygote => cases ha
  | wait => cases ha
  | selectZygisk => rw [exec_selectZygisk]; exact ⟨hrefl, rfl, rfl, rfl⟩
  | replaceZygisk =>
    refine effect_keeps (I := fun t => Counted s t ∧ t.restarts = s.restarts ∧ t.injected = s.injected ∧ t.done = s.done)
      ⟨hrefl, rfl, rfl, rfl⟩ ⟨?_, rfl, rfl, rfl⟩
    by_cases h : s.zygisk = some 1
    · exact hsame h.symm (if_pos h) rfl
    · refine ⟨?_, ?_, ?_⟩ <;> simp only [off, if_neg h, if_true] <;> omega
  | _ =>
    first
    | exact ⟨hrefl, rfl, rfl, rfl⟩
    | exact ⟨hsame rfl rfl rfl, rfl, rfl, rfl⟩
    | exact effect_keeps (I := fun t => Counted s t ∧ t.restarts = s.restarts ∧ t.injected = s.injected ∧ t.done = s.done)
        ⟨hrefl, rfl, rfl, rfl⟩ ⟨hsame rfl rfl rfl, rfl, rfl, rfl⟩

section Runs

variable {P : Choice → Prop} (env : Env)

/-- what the steady scripts do to what is counted -/
theorem runs_steady {exits : Exit → Bool} {α : Type} {p : Shell α} (h : Disciplined critical steady exits p.run)
    (s : Phone × Log Cmd) :
    Runs (logged exec) P (fun t => Counted s.1 t.1 ∧ t.1.done = s.1.done) p s
      (fun _ t => Counted s.1 t.1 ∧ t.1.restarts = s.1.restarts ∧ t.1.injected = s.1.injected ∧ t.1.done = s.1.done)
      fun _ _ => True := by
  refine ((h.keeps (J := fun t : Phone => Counted s.1 t ∧ t.restarts = s.1.restarts ∧ t.injected = s.1.injected ∧
    t.done = s.1.done) ?_ ⟨Counted.refl _, rfl, rfl, rfl⟩).weaken fun t ht => ⟨ht.1, ht.2.2.2⟩).mono
    (fun _ _ _ ht => ht) fun _ _ _ _ => trivial
  intro c a t ha ht
  obtain ⟨hcounted, hrestarts, hinjected, hdone⟩ := exec_counted (c := c) (s := t) ha
  exact ⟨ht.1.trans hcounted, hrestarts.trans ht.2.1, hinjected.trans ht.2.2.1, hdone.trans ht.2.2.2⟩

theorem exec_waiting {c : Choice} {a : Cmd} {s : Phone} (ha : waiting a = true) : (exec c a s).2 = s := by
  cases a with
  | select1 => exact effect_keeps (I := fun t => t = s) rfl rfl
  | sleep => exact effect_keeps (I := fun t => t = s) rfl rfl
  | _ => cases ha

theorem exec_looking {c : Choice} {a : Cmd} {s : Phone} (ha : looking a = true) : (exec c a s).2.zygisk = s.zygisk := by
  cases a <;> first | rfl | contradiction

/-- the variable tells that the setting was off, and has been switched on since -/
theorem runs_newly (hplain : env.vars "BEETROOT_ZYGISK_NEWLY_ENABLED" ≠ some "1") (s : Phone × Log Cmd) :
    Runs (logged exec) P (fun _ => True) (magiskConfig env) s
      (fun newly t => (newly = some "1" → s.1.switched + 1 ≤ t.1.switched) ∧ (newly ≠ some "1" → s.1.zygisk = some 1))
      fun _ _ => True := by
  apply runs_bind
  have hwait : Runs (logged exec) P (fun t => t.1 = s.1) (awaitMagisk env.wait.2 (env.wait.1 - 1)) s (fun _ t => t.1 = s.1)
      fun _ t => t.1 = s.1 :=
    (disciplined_awaitMagisk (unreached_wait env) _).keeps (J := fun t : Phone => t = s.1) (fun c a t ha ht => (exec_waiting ha).trans ht) rfl
  refine (hwait.weaken fun _ _ => trivial).mono (fun _ t _ ht => ?_) fun _ _ _ _ => trivial
  apply runs_bind
  refine runs_must trivial fun c _ => ⟨trivial, ?_⟩
  by_cases hok : (exec c .selectZygisk t.1).1.ok = true
  swap
  · rw [if_neg hok]
    trivial
  have hprev : (logged exec c .selectZygisk t).2.1 = s.1 := (exec_selectZygisk c t.1).trans ht
  rw [if_pos hok, exec_selectZygisk_ok hok]
  generalize (logged exec c .selectZygisk t).2 = u₁ at hprev
  apply runs_bind
  refine runs_run trivial fun c₁ _ => ⟨trivial, ?_⟩
  split_ifs
  have hswitch := exec_replaceZygisk c₁ u₁.1
  rw [hprev] at hswitch
  generalize hu₂ : (logged exec c₁ .replaceZygisk u₁).2 = u₂
  have hu₂' : (exec c₁ .replaceZygisk s.1).2 = u₂.1 := by
    rw [← hprev, ← hu₂]
    rfl
  rw [hu₂'] at hswitch
  apply runs_bind
  refine runs_run trivial fun c₂ _ => ⟨trivial, ?_⟩
  split_ifs
  obtain ⟨hzygisk₃, hswitched₃⟩ := exec_replaceDenylist c₂ u₂.1
  generalize hu₃ : (logged exec c₂ .replaceDenylist u₂).2 = u₃
  have hu₃' : (exec c₂ .replaceDenylist u₂.1).2 = u₃.1 := by
    rw [← hu₃]
    rfl
  rw [hu₃'] at hzygisk₃ hswitched₃
  apply runs_bind
  refine runs_must trivial fun c₃ _ => ⟨trivial, ?_⟩
  by_cases hok : (exec c₃ .selectZygisk u₃.1).1.ok = true
  swap
  · rw [if_neg hok]
    trivial
  rw [if_pos hok, exec_selectZygisk_ok hok]
  split_ifs with hvalue
  · exact runs_throw trivial trivial
  have hon : u₂.1.zygisk = some 1 := by
    rw [← hzygisk₃]
    exact (rowValue_zygiskRow u₃.1).1 (not_not.1 hvalue)
  have hsame : (logged exec c₃ .selectZygisk u₃).2.1 = u₃.1 := exec_selectZygisk c₃ u₃.1
  apply runs_bind
  refine ((runs_steady ((disciplined_enrol env _).mono steady_of_quiet fun _ h => h) _).weaken fun _ _ => trivial).mono
    (fun _ v _ hv => runs_pure trivial ?_) fun _ _ _ _ => trivial
  have hgrows := hv.1.grows
  rw [hsame, hswitched₃] at hgrows
  rw [ht]
  unfold newlyEnabled
  by_cases hone : rowValue (zygiskRow s.1) = ['1']
  · rw [if_neg (not_not.2 hone)]
    exact ⟨fun h => absurd h hplain, fun _ => (rowValue_zygiskRow s.1).1 hone⟩
  · rw [if_pos hone]
    refine ⟨fun _ => ?_, fun h => absurd rfl h⟩
    rcases hswitch hon with h | h
    · exact absurd ((rowValue_zygiskRow s.1).2 h) hone
    · rw [← h]
      exact hgrows

/-- what is found at the end of a configuration that has begun at `s` -/
def Final (env : Env) (s : Phone) (t : Phone × Log Cmd) : Prop :=
  t.1.zygisk = some 1 ∧
    ((s.zygisk = some 1 → s.injected = true) → t.1.injected = true ∨ fallback (env.vars "BEETROOT_ZYGOTE_RESTART") "1" ≠ "1" ∨
      (t.1.restarts = s.restarts ∧ ∃ ok, (Cmd.restartZygote, ok) ∈ t.2))

theorem Final.mono {env : Env} {s : Phone} {t u : Phone × Log Cmd} (h : Final env s t) (hz : u.1.zygisk = t.1.zygisk)
    (hi : u.1.injected = t.1.injected) (hr : u.1.restarts = t.1.restarts) (hsub : t.2 ⊆ u.2) : Final env s u := by
  refine ⟨hz.trans h.1, fun hs => ?_⟩
  rcases h.2 hs with hinjected | hdisabled | ⟨hrestarts, ok, hasked⟩
  · exact Or.inl (hi.trans hinjected)
  · exact Or.inr (Or.inl hdisabled)
  · exact Or.inr (Or.inr ⟨hr.trans hrestarts, ok, hsub hasked⟩)

theorem runs_restart (newly : Option String) {s : Phone} {t : Phone × Log Cmd} (hcounted : Counted s t.1)
    (hrestarts : t.1.restarts = s.restarts) (hinjected : t.1.injected = s.injected) (hdone : t.1.done = false)
    (hone : t.1.zygisk = some 1) (hnewly : newly = some "1" → s.switched + 1 ≤ t.1.switched)
    (hold : newly ≠ some "1" → s.zygisk = some 1) :
    Runs (logged exec) P (fun u => Counted s u.1 ∧ u.1.done = false) (activateZygisk env newly) t
      (fun _ u => Final env s u) fun _ _ => True := by
  unfold activateZygisk
  split_ifs with henabled hvalue
  · exact runs_pure ⟨hcounted, hdone⟩ ⟨hone, fun _ => Or.inr (Or.inl henabled)⟩
  · have hnot : newly ≠ some "1" := by
      intro h
      rw [h] at hvalue
      exact hvalue (by decide)
    exact runs_pure ⟨hcounted, hdone⟩ ⟨hone, fun h => Or.inl (hinjected.trans (h (hold hnot)))⟩
  · have hnew : newly = some "1" := by
      cases newly with
      | none => exact absurd (by decide) hvalue
      | some v =>
        have hv := not_not.1 hvalue
        unfold fallback at hv
        simp only at hv
        split_ifs at hv with hempty
        · exact absurd hv (by decide)
        · rw [hv]
    have hswitched := hnewly hnew
    refine runs_attempt ⟨hcounted, hdone⟩ fun c _ => ?_
    have hasked : ∃ ok, (Cmd.restartZygote, ok) ∈ (logged exec c .restartZygote t).2.2 :=
      ⟨_, List.mem_append_right _ (List.mem_singleton.2 rfl)⟩
    rcases effect_eq c true t.1 { t.1 with injected := t.1.zygisk = some 1, restarts := t.1.restarts + 1 } with he | he
    · have hstate : (logged exec c .restartZygote t).2.1 = t.1 := he
      unfold Final
      rw [hstate]
      exact ⟨⟨hcounted, hdone⟩, hone, fun _ => Or.inr (Or.inr ⟨hrestarts, hasked⟩)⟩
    · have hstate : (logged exec c .restartZygote t).2.1 =
        { t.1 with injected := t.1.zygisk = some 1, restarts := t.1.restarts + 1 } := he
      unfold Final
      rw [hstate]
      refine ⟨⟨⟨hcounted.grows, hcounted.switched, ?_⟩, hdone⟩, hone, fun _ => Or.inl (decide_eq_true hone)⟩
      change t.1.restarts + 1 + s.switched ≤ s.restarts + t.1.switched
      omega

theorem runs_configure (hplain : env.vars "BEETROOT_ZYGISK_NEWLY_ENABLED" ≠ some "1") (s : Phone) (hs : s.done = false) :
    Runs (logged exec) P (fun t => Counted s t.1 ∧ (t.1.done = true → Final env s t)) (entrypoint env) (s, [])
      (fun _ _ => True) fun _ _ => True := by
  have hweaken : ∀ {t u : Phone × Log Cmd}, Counted s t.1 → t.1.done = false → Counted t.1 u.1 ∧ u.1.done = t.1.done →
      Counted s u.1 ∧ (u.1.done = true → Final env s u) := by
    intro t u ht hdone h
    refine ⟨ht.trans h.1, fun hu => ?_⟩
    rw [h.2, hdone] at hu
    cases hu
  apply runs_bind
  have hpath := (runs_steady (P := P) ((disciplined_magiskPath env).mono
    (fun a h => steady_of_quiet a (quiet_of_looking a h)) fun _ h => h) (s, [])).and
    ((disciplined_magiskPath env).keeps (J := fun t : Phone => t.zygisk = s.zygisk)
      (fun c a t ha ht => (exec_looking ha).trans ht) rfl)
  refine (hpath.weaken fun u hu => hweaken (Counted.refl s) hs hu.1).mono (fun _ t₁ _ h₁ => ?_) fun _ _ _ _ => trivial
  obtain ⟨⟨hcounted₁, hrestarts₁, hinjected₁, hdone₁⟩, hzygisk₁⟩ := h₁
  rw [hs] at hdone₁
  apply runs_bind
  have hconfig := ((runs_steady (P := P) ((disciplined_magiskConfig env).mono steady_of_quiet fun _ h => h) t₁).and
    (runs_newly env hplain t₁)).and (runs_magiskConfig env t₁)
  refine (hconfig.weaken fun u hu => hweaken hcounted₁ hdone₁ hu.1.1).mono (fun newly t₂ _ h₂ => ?_) fun _ _ _ _ => trivial
  obtain ⟨⟨⟨hcounted₂, hrestarts₂, hinjected₂, hdone₂⟩, hnewly, hold⟩, hone₂⟩ := h₂
  have hc₂ := hcounted₁.trans hcounted₂
  rw [hdone₁] at hdone₂
  apply runs_bind
  have henv := (runs_steady (P := P) ((disciplined_magiskEnv env).mono (fun a h => steady_of_quiet a (quiet_of_populating a h)) fun _ h => h) t₂).and
    (runs_settled (disciplined_magiskEnv env) hone₂)
  refine (henv.weaken fun u hu => hweaken hc₂ hdone₂ hu.1).mono (fun _ t₃ _ h₃ => ?_) fun _ _ _ _ => trivial
  obtain ⟨⟨hcounted₃, hrestarts₃, hinjected₃, hdone₃⟩, hone₃⟩ := h₃
  have hc₃ := hc₂.trans hcounted₃
  rw [hdone₂] at hdone₃
  apply runs_bind
  have hflash := (runs_steady (P := P) ((disciplined_flashModules env).mono steady_of_flashing fun _ h => h) t₃).and
    (runs_settled (disciplined_flashModules env) hone₃)
  refine (hflash.weaken fun u hu => hweaken hc₃ hdone₃ hu.1).mono (fun _ t₄ _ h₄ => ?_) fun _ _ _ _ => trivial
  obtain ⟨⟨hcounted₄, hrestarts₄, hinjected₄, hdone₄⟩, hone₄⟩ := h₄
  have hc₄ := hc₃.trans hcounted₄
  rw [hdone₃] at hdone₄
  apply runs_bind
  have hrestart : Runs (logged exec) P (fun u => Counted s u.1 ∧ u.1.done = false) (activateZygisk env newly) t₄
      (fun _ u => Final env s u) fun _ _ => True := by
    refine runs_restart env newly hc₄ ?_ ?_ hdone₄ hone₄ (fun h => ?_) fun h => ?_
    · rw [hrestarts₄, hrestarts₃, hrestarts₂, hrestarts₁]
    · rw [hinjected₄, hinjected₃, hinjected₂, hinjected₁]
    · have h₁ : s.switched ≤ t₁.1.switched := hcounted₁.grows
      have h₂ := hnewly h
      have h₃ := hcounted₃.grows
      have h₄ := hcounted₄.grows
      omega
    · rw [← hzygisk₁]
      exact hold h
  refine (hrestart.mono (fun _ t₅ h₅ hfinal₅ => ?_) fun _ _ _ _ => trivial).weaken fun u hu => ⟨hu.1, fun h => ?_⟩
  swap
  · rw [hu.2] at h
    cases h
  obtain ⟨hc₅, hdone₅⟩ := h₅
  apply runs_bind
  have hfrida := ((runs_steady (P := P) ((disciplined_launchFrida env).mono steady_of_flashing fun _ h => h) t₅).and (runs_launchFrida env t₅)).and
    ((disciplined_launchFrida env).runs t₅)
  refine (hfrida.weaken fun u hu => hweaken hc₅ hdone₅ hu.1.1).mono (fun _ t₆ _ h₆ => ?_) fun _ _ _ _ => trivial
  obtain ⟨⟨⟨hcounted₆, -, -, hdone₆⟩, hstate₆, -⟩, l, hlog, -⟩ := h₆
  have hc₆ := hc₅.trans hcounted₆
  have hsub : t₅.2 ⊆ t₆.2 := by
    rw [hlog]
    exact List.subset_append_left _ _
  have hfinal₆ := hfinal₅.mono (u := t₆) (by rw [hstate₆]) (by rw [hstate₆]) (by rw [hstate₆]) hsub
  refine runs_attempt ⟨hc₆, fun _ => hfinal₆⟩ fun c _ => ⟨⟨⟨hc₆.grows, hc₆.switched, hc₆.restarts⟩, fun _ => ?_⟩, trivial⟩
  exact hfinal₆.mono rfl rfl rfl (List.subset_append_left _ _)

end Runs

/-- wherever a configuration is stopped -/
theorem configure_spec {env : Env} (hplain : env.vars "BEETROOT_ZYGISK_NEWLY_ENABLED" ≠ some "1") (path : List Path)
    (cs : List Choice) (s : Phone) :
    Counted s (configure env path cs s).1 ∧ ((configure env path cs s).1.done = true → Final env s (configure env path cs s)) := by
  have hruns := runs_configure (P := fun _ => True) env hplain { s with path := path, done := false } rfl
  obtain ⟨hcounted, hfinal⟩ := Along.stopped hruns fun c (_ : c ∈ cs) => trivial
  exact ⟨⟨hcounted.grows, hcounted.switched, hcounted.restarts⟩, hfinal⟩

/-! ## Runs -/

structure Inv (s : Phone) (w : World) : Prop where
  restarts : w.phone.restarts ≤ w.phone.switched
  switched : w.phone.switched + off w.phone ≤ off s + w.offs

theorem inv_step {s : Phone} {w : World} {e : Event} (h : Inv s w) (he : Plain e) : Inv s (step w e) := by
  have hcount : ∀ {t : Phone} {r : Phone × Log Cmd}, t.switched = w.phone.switched → t.restarts = w.phone.restarts →
      t.zygisk = w.phone.zygisk → Counted t r.1 → Inv s ⟨r.1, w.offs, r.2⟩ := by
    intro t r hs hr hz hc
    have hrestarts := hc.restarts
    have hswitched := hc.switched
    have hoff : off t = off w.phone := by rw [off, off, hz]
    have h₁ := h.restarts
    have h₂ := h.switched
    exact ⟨by simp only; omega, by simp only; omega⟩
  cases e with
  | boot env path cs => exact hcount (t := powerOn w.phone) rfl rfl rfl (configure_spec he path cs _).1
  | again env path cs => exact hcount rfl rfl rfl (configure_spec he path cs _).1
  | written value =>
    refine ⟨h.restarts, ?_⟩
    have h₂ := h.switched
    change w.phone.switched + (if value = some 1 then 0 else 1) ≤
      off s + if w.phone.zygisk = some 1 ∧ value ≠ some 1 then w.offs + 1 else w.offs
    by_cases hon : w.phone.zygisk = some 1
    · rw [off_of_on hon] at h₂
      by_cases hvalue : value = some 1
      · rw [if_pos hvalue, if_neg fun h => h.2 hvalue]
        exact h₂
      · rw [if_neg hvalue, if_pos ⟨hon, hvalue⟩]
        omega
    · rw [off_of_off hon] at h₂
      rw [if_neg (c := w.phone.zygisk = some 1 ∧ _) fun h => hon h.1]
      split_ifs <;> omega

theorem Counted.restarts_of_on {s t : Phone} (h : Counted s t) (hon : s.zygisk = some 1) : t.restarts ≤ s.restarts := by
  have hswitched := h.switched
  have hrestarts := h.restarts
  rw [off_of_on hon] at hswitched
  omega

/-- a phone on which the setting is on is not restarted -/
theorem restarts_of_on {w : World} {e : Event} (he : Plain e) (hon : w.phone.zygisk = some 1) :
    (step w e).phone.restarts ≤ w.phone.restarts := by
  cases e with
  | boot env path cs => exact (configure_spec he path cs (powerOn w.phone)).1.restarts_of_on hon
  | again env path cs => exact (configure_spec he path cs w.phone).1.restarts_of_on hon
  | written value => exact le_rfl

/-- a configuration keeps the setting from being found off a second time, so that the zygote is not restarted in a loop -/
theorem run_zygisk (s : Phone) (hs : s.switched = 0 ∧ s.restarts = 0) (es : List Event) (hes : ∀ e ∈ es, Plain e) :
    let w := es.foldl step ⟨s, 0, []⟩
    w.phone.restarts ≤ w.phone.switched ∧ w.phone.switched + off w.phone ≤ off s + w.offs ∧
      (∀ e, Plain e → w.phone.zygisk = some 1 → (step w e).phone.restarts ≤ w.phone.restarts) ∧
      (∀ env path cs, Plain (.boot env path cs) → (step w (.boot env path cs)).phone.done = true →
        (step w (.boot env path cs)).phone.zygisk = some 1 ∧
        ((step w (.boot env path cs)).phone.injected = true ∨ fallback (env.vars "BEETROOT_ZYGOTE_RESTART") "1" ≠ "1" ∨
          ((step w (.boot env path cs)).phone.restarts = w.phone.restarts ∧
            ∃ ok, (Cmd.restartZygote, ok) ∈ (step w (.boot env path cs)).log))) := by
  have hinv : Inv s (es.foldl step ⟨s, 0, []⟩) := by
    refine run_always (C := fun _ e => Plain e) (fun w e h he => inv_step h he) ?_ ?_
    · exact ⟨by simp [hs.1, hs.2], by simp [hs.1]⟩
    · exact always_of_forall (I := fun _ => True) (fun _ _ _ he => ⟨trivial, he⟩) trivial hes
  refine ⟨hinv.restarts, hinv.switched, fun e he hon => restarts_of_on he hon, fun env path cs hplain hdone => ?_⟩
  obtain ⟨hone, hinjected⟩ := (configure_spec hplain path cs (powerOn (es.foldl step ⟨s, 0, []⟩).phone)).2 hdone
  exact ⟨hone, hinjected fun h => decide_eq_true h⟩

/-! ## A new phone -/

def plainEnv : Env where
  vars name := if name = "BEETROOT_DENYLIST_PACKAGES" then some "" else none
  pathOf text := [text]
  glob _ := []
  number text := if text = "60" then some 60 else none
  patience := 0
  unquoted v h := by
    cases h
    decide

def newPhone : Phone where
  files := Dict.empty.set ["sbin", "magisk"] (.file true)
  apk := []
  path := []
  zygisk := none
  denylist := none
  rows := []
  injected := false
  switched := 0
  restarts := 0
  done := false

theorem plain_plainEnv (path : List Path) (cs : List Choice) :
    Plain (.boot plainEnv path cs) ∧ Plain (.again plainEnv path cs) := by
  have h : plainEnv.vars "BEETROOT_ZYGISK_NEWLY_ENABLED" ≠ some "1" := by decide
  exact ⟨h, h⟩

/-- a first boot, the configuration that follows its restart, and a second boot that is killed -/
def twoBoots : List Event :=
  [.boot plainEnv [["sbin"]] (List.replicate 12 .succeeds), .again plainEnv [["sbin"]] (List.replicate 12 .succeeds),
    .boot plainEnv [["sbin"]] (List.replicate 6 .succeeds)]

/-- whatever they do, the zygote has been restarted once at most -/
theorem twoBoots_restarts : (twoBoots.foldl step ⟨newPhone, 0, []⟩).phone.restarts ≤ 1 := by
  have hplain : ∀ e ∈ twoBoots, Plain e := by
    intro e he
    simp only [twoBoots, List.mem_cons, List.not_mem_nil, or_false] at he
    rcases he with rfl | rfl | rfl
    · exact (plain_plainEnv _ _).1
    · exact (plain_plainEnv _ _).2
    · exact (plain_plainEnv _ _).1
  obtain ⟨hrestarts, hswitched, -⟩ := run_zygisk newPhone ⟨rfl, rfl⟩ twoBoots hplain
  have hoffs : (twoBoots.foldl step ⟨newPhone, 0, []⟩).offs = 0 := rfl
  have hoff : off newPhone = 1 := rfl
  omega

example : (twoBoots.foldl step ⟨newPhone, 0, []⟩).phone.restarts = 1 := by decide +kernel

end Beetroot.Boot
