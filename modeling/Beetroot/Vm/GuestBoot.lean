/-
Any boots of the guest, each cut anywhere.

Results:
- `reboots_spec`: only the image of the marker runs, and its `/data` is never lost.
-/
import Beetroot.Lib.Run
import Beetroot.Vm.GuestStory

namespace Beetroot.Vm.GuestInit

open Lib Lib.Prog Lib.Script Lib.Shell Lib.Transcript Beetroot.Boot

variable {D : Type} {P : Turn D → Prop} {α : Type}

/-! ## Any boots -/

section Boots

variable (env : GuestEnv)

/-- the only container that is started is this one -/
def GuestCmd.starts (dataDir image : String) : GuestCmd → Bool
  | .dockerRun d i => d = dataDir && i = image
  | _ => true

theorem starts_of_container {a : GuestCmd} {dataDir image : String} (h : a.changesContainer = false) :
    a.starts dataDir image = true := by
  cases a <;> first | rfl | cases h

section Footprint

variable {c : GuestCmd → Prop}

theorem all_waitFor {cmd : GuestCmd} (timeout : ℕ) (hcmd : c cmd) (hdate : c .date) (hsleep : c (.sleep 1)) :
    (waitFor cmd timeout).run.All c :=
  all_seq (all_date hdate) fun _ => all_poll (all_once hcmd) (all_date hdate) (all_attempt hsleep) _

theorem all_orDie {reason : Fatal} (hlog : ∀ line, c (.log line)) (hsleep : c (.sleep 3)) (up : Option Unit) :
    (orDie env reason up).run.All c := by
  cases up with
  | some x => exact all_pure ()
  | none => exact all_die env hlog hsleep

end Footprint

theorem all_starts {q : GuestCmd → Bool} {p : GuestShell α} {exits : Fatal → Bool} (h : Disciplined (fun _ => false) q exits p.run)
    (hq : ∀ a, q a = true → a.changesContainer = false) (dataDir image : String) :
    p.run.All fun a => a.starts dataDir image = true :=
  h.all.mono fun a ha => starts_of_container (hq a ha)

theorem all_mounts (dataDir image : String) : (mountPseudoFilesystems env).run.All fun a => a.starts dataDir image = true := by
  refine all_seq (all_log (fun _ => rfl) _) fun _ => ?_
  refine all_seq (all_attempt rfl) fun _ => all_seq (all_attempt rfl) fun _ => all_seq (all_attempt rfl) fun _ => ?_
  refine all_seq (all_attempt rfl) fun _ => all_seq (all_attempt rfl) fun _ => all_seq (all_attempt rfl) fun _ => ?_
  refine all_seq (all_attempt rfl) fun _ => all_seq (all_attempt rfl) fun _ => all_seq (all_attempt rfl) fun _ => ?_
  refine all_seq (all_attempt rfl) fun _ => all_seq (all_attempt rfl) fun _ => ?_
  refine all_seq (all_ifOk rfl (all_pure ()) (all_die env (fun _ => rfl) rfl)) fun _ => all_seq (all_attempt rfl) fun _ => ?_
  exact all_starts disciplined_bringUpEth0 (fun _ => sets_container) _ _

theorem all_afterwards (image : String) : (afterwards env image).run.All fun a => a.starts env.dataDir image = true := by
  have hlog : ∀ line, (log line).run.All fun a => a.starts env.dataDir image = true := all_log fun _ => rfl
  have hdie : ∀ reason up, (orDie env reason up).run.All fun a => a.starts env.dataDir image = true := fun _ up =>
    all_orDie env (c := fun a => a.starts env.dataDir image = true) (fun _ => rfl) rfl up
  refine all_seq (all_mounts env _ _) fun _ => ?_
  refine all_seq (all_seq (hlog _) fun _ => all_seq (all_attempt rfl) fun _ =>
    all_seq (all_waitFor _ rfl rfl rfl) fun up => hdie _ up) fun _ => ?_
  refine all_seq (all_seq (hlog _) fun _ => all_seq (all_attempt rfl) fun _ =>
    all_seq (all_waitFor _ rfl rfl rfl) fun up => hdie _ up) fun _ => ?_
  refine all_seq (all_seq (all_attempt rfl) fun _ => all_seq (all_attempt rfl) fun _ => all_seq (hlog _) fun _ =>
    all_ifOk ?_ (all_pure ()) (all_die env (fun _ => rfl) rfl)) fun _ => ?_
  · simp [GuestCmd.starts]
  exact all_seq (all_waitForBoot env fun a ha => starts_of_container ha) fun _ =>
    all_seq (all_starts disciplined_enableAdbTcp (fun _ => relays_container) _ _) fun _ =>
      all_seq (all_starts disciplined_startAdbRelay (fun _ => relays_container) _ _) fun _ => hlog _

/-- what every boot keeps of the machine `m`, of whose `/data` `K` holds -/
structure Kept (env : GuestEnv) (K : D → Prop) (m t : Machine D) : Prop where
  marker : t.marker = m.marker
  running : ∀ k, t.container = some k → k.running = true →
    k.image = resolvedImage env m.marker ∧ k.dataDir = env.dataDir
  data : K (t.data env.dataDir)
  others : ∀ dir, dir ≠ env.dataDir → t.data dir = m.data dir
  images : resolvedImage env m.marker ∈ m.images → t.images = m.images

variable {env} {K : D → Prop} {m t : Machine D} {turn : Turn D}

theorem kept_pass (h : Kept env K m t) (hturn : ∀ x, K x → K (turn.writes x)) : Kept env K m (t.pass turn) := by
  unfold Machine.pass
  split
  · rename_i image dataDir hk
    obtain ⟨himage, hdir⟩ := h.running _ hk rfl
    change image = _ at himage
    change dataDir = _ at hdir
    subst hdir
    refine ⟨h.marker, fun k hk' _ => ?_, ?_, fun dir hne => ?_, h.images⟩
    · cases hk'
      exact ⟨himage, rfl⟩
    · change K (Function.update t.data env.dataDir _ env.dataDir)
      rw [Function.update_self]
      exact hturn _ h.data
    · change Function.update t.data env.dataDir _ dir = _
      rw [Function.update_of_ne hne]
      exact h.others dir hne
  · exact ⟨h.marker, h.running, h.data, h.others, h.images⟩

theorem kept_start (h : Kept env K m t) : Kept env K m (t.start turn env.dataDir (resolvedImage env m.marker)).2 := by
  unfold Machine.start
  split
  · exact h
  · split_ifs with hok hmem hdies
    · refine ⟨h.marker, fun k hk _ => ?_, h.data, h.others, h.images⟩
      cases hk
      exact ⟨rfl, rfl⟩
    · refine ⟨h.marker, fun k hk _ => ?_, h.data, h.others, fun hm => absurd ?_ hmem⟩
      · cases hk
        exact ⟨rfl, rfl⟩
      · rw [h.images hm]
        exact hm
    · refine ⟨h.marker, fun k hk hrun => ?_, h.data, h.others, h.images⟩
      cases hk
      cases hrun
    · exact ⟨h.marker, fun k hk _ => (Option.some_ne_none k hk.symm).elim, h.data, h.others, h.images⟩

theorem kept_exec (h : Kept env K m t) (hturn : ∀ x, K x → K (turn.writes x)) {cmd : GuestCmd}
    (hcmd : cmd.starts env.dataDir (resolvedImage env m.marker) = true) : Kept env K m (exec turn cmd t).2 := by
  have hpass := kept_pass h hturn
  unfold exec
  generalize t.pass turn = u at hpass
  cases cmd with
  | dockerRun dataDir image =>
    obtain ⟨hdir, himage⟩ := Bool.and_eq_true_iff.1 hcmd
    rw [of_decide_eq_true hdir, of_decide_eq_true himage]
    exact kept_start hpass
  | removeContainer =>
    simp only [perform]
    split_ifs
    · exact ⟨hpass.marker, fun k hk _ => (Option.some_ne_none k hk.symm).elim, hpass.data, hpass.others, hpass.images⟩
    · exact hpass
  | inspectStatus =>
    simp only [perform]
    split <;> exact hpass
  | sleep secs => exact ⟨hpass.marker, hpass.running, hpass.data, hpass.others, hpass.images⟩
  | relay => exact ⟨hpass.marker, hpass.running, hpass.data, hpass.others, hpass.images⟩
  | _ => exact hpass

theorem runs_kept (hturns : ∀ turn : Turn D, P turn → ∀ x, K x → K (turn.writes x)) (h : Kept env K m t) (l : Record GuestCmd Printed) :
    Runs (recorded exec) P (fun u => Kept env K m u.1) (main env) (t, l) (fun _ u => Kept env K m u.1)
      fun _ u => Kept env K m u.1 := by
  have hstep : ∀ turn, P turn → ∀ a, a.starts env.dataDir (resolvedImage env m.marker) = true → ∀ u : World D,
      Kept env K m u.1 → Kept env K m (recorded exec turn a u).2.1 :=
    fun turn hturn a ha u hu => kept_exec hu (hturns turn hturn) ha
  have hresolve : Runs (recorded exec) P (fun u : World D => Kept env K m u.1) (resolveRedroidImage env) (t, l)
      (fun _ u => Kept env K m u.1) fun _ u => Kept env K m u.1 :=
    All.runs (all_starts (disciplined_resolveRedroidImage env) (fun _ => sets_container) _ _) hstep h
  apply runs_bind
  refine ((hresolve.and (runs_resolveRedroidImage env (t, l))).weaken fun _ hu => hu.1).mono (fun image u _ hu => ?_)
    fun _ _ _ hu => hu.1
  obtain ⟨hkept, -, himage, -⟩ := hu
  rw [himage, h.marker]
  exact (all_afterwards env _).runs hstep hkept

/-- a boot, up to where it is cut -/
def boot (env : GuestEnv) (m : Machine D) (turns : List (Turn D)) : Machine D :=
  ((main env).run.stopped (recorded exec) turns (powerOn m, [])).1

theorem kept_powerOn (h : Kept env K m t) : Kept env K m (powerOn t) := by
  refine ⟨h.marker, fun k hk hrun => ?_, h.data, h.others, h.images⟩
  obtain ⟨k', -, rfl⟩ := Option.map_eq_some_iff.1 hk
  cases hrun

theorem kept_boot (h : Kept env K m t) {turns : List (Turn D)} (hturns : ∀ turn ∈ turns, ∀ x, K x → K (turn.writes x)) :
    Kept env K m (boot env t turns) :=
  Along.stopped (runs_kept (P := fun turn => ∀ x, K x → K (turn.writes x)) (fun _ h => h) (kept_powerOn h) []) hturns

theorem kept_off (hoff : m.isRunning = false) (hdata : K (m.data env.dataDir)) : Kept env K m m := by
  refine ⟨rfl, fun k hk hrun => ?_, hdata, fun _ _ => rfl, fun _ => rfl⟩
  unfold Machine.isRunning at hoff
  rw [hk] at hoff
  exact absurd (hoff.symm.trans hrun) Bool.false_ne_true

theorem kept_boots (h : Kept env K m t) {boots : List (List (Turn D))}
    (hwrites : ∀ turns ∈ boots, ∀ turn ∈ turns, ∀ x, K x → K (turn.writes x)) : Kept env K m (boots.foldl (boot env) t) :=
  run_always (I := Kept env K m) (C := fun _ (turns : List (Turn D)) => ∀ turn ∈ turns, ∀ x, K x → K (turn.writes x))
    (fun _ _ ht hturns => kept_boot ht hturns) h (always_of_forall (I := fun _ => True) (fun _ _ _ h => ⟨trivial, h⟩) trivial hwrites)

/-- any boots, each cut anywhere: they run nothing but the image of the marker, and lose nothing that Android keeps -/
theorem reboots_spec (env : GuestEnv) (K : D → Prop) (m : Machine D) (hoff : m.isRunning = false) (hdata : K (m.data env.dataDir))
    (boots : List (List (Turn D))) (hwrites : ∀ turns ∈ boots, ∀ turn ∈ turns, ∀ x, K x → K (turn.writes x)) :
    Kept env K m (boots.foldl (boot env) m) :=
  kept_boots (kept_off hoff hdata) hwrites

end Boots

/-! ## Two boots -/

def plainEnv : GuestEnv where
  vars _ := none
  containerdTimeout := 180
  dockerdTimeout := 180
  bootTimeout := 900
  containerdIs := rfl
  dockerdIs := rfl
  bootIs := rfl

/-- Android counts its boots -/
def countingTurn : Turn ℕ := ⟨true, "eth0\n".toList, 1, (· + 1), false⟩

def countingMachine : Machine ℕ where
  marker := some "redroid/redroid:12.0.0-latest\n".toList
  images := ["redroid/redroid:12.0.0-latest"]
  container := none
  data _ := 3
  clock := 0
  listening := false

theorem twoBoots_keep : Kept plainEnv (3 ≤ ·) countingMachine
    ([List.replicate 60 countingTurn, List.replicate 9 countingTurn].foldl (boot plainEnv) countingMachine) := by
  refine reboots_spec plainEnv (3 ≤ ·) countingMachine rfl le_rfl _ fun turns hturns turn hturn x hx => ?_
  have hsame : turn = countingTurn := by
    rcases List.mem_cons.1 hturns with rfl | hturns
    · exact List.eq_of_mem_replicate hturn
    · rw [List.mem_singleton.1 hturns] at hturn
      exact List.eq_of_mem_replicate hturn
  rw [hsame]
  exact Nat.le_succ_of_le hx

end Beetroot.Vm.GuestInit
