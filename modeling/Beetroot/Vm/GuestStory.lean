/-
The story of a boot of the guest: what its init has asked and was answered when it idles or powers off.

Each way in which a boot ends has a language of transcripts. A wait reads the clock, and is given up only after a round in vain
when a later reading has reached the deadline of its own.

Results:
- `main_outcome`: a boot has written the story of its end. The guest idles only with the container that it was built for, booted,
  and opens the way to adbd not before; it powers off for one of six reasons, and each is seen in the transcript.
-/
import Beetroot.Lib.Transcript
import Beetroot.Vm.GuestInit

namespace Beetroot.Vm.GuestInit

open Lib Lib.Prog Lib.Script Lib.Shell Lib.Transcript Beetroot.Boot
open scoped Computability

variable {D : Type} {P : Turn D → Prop} {α : Type}

/-! ## Commands -/

def GuestCmd.changesContainer : GuestCmd → Bool
  | .removeContainer | .dockerRun _ _ => true
  | _ => false

/-- the commands before the daemons -/
def GuestCmd.sets : GuestCmd → Bool
  | .log _ | .hasMarker | .readMarker | .mount _ _ | .mkdir _ | .ip _ | .firstLink | .hasAddress _ => true
  | _ => false

/-- the commands after the boot -/
def GuestCmd.relays (cmd : GuestCmd) : Bool :=
  cmd.opensAdb || match cmd with
    | .log _ | .sleep _ | .mkdir _ => true
    | _ => false

theorem sets_container {a : GuestCmd} (h : a.sets = true) : a.changesContainer = false := by
  cases a <;> first | rfl | cases h

theorem relays_container {a : GuestCmd} (h : a.relays = true) : a.changesContainer = false := by
  cases a <;> first | rfl | cases h

/-- the identity of a container -/
def Container.named (k : Container) : String × String := (k.image, k.dataDir)

theorem pass_clock (m : Machine D) (turn : Turn D) : (m.pass turn).clock = m.clock + turn.seconds := by
  unfold Machine.pass
  split <;> rfl

theorem pass_marker (m : Machine D) (turn : Turn D) : (m.pass turn).marker = m.marker := by
  unfold Machine.pass
  split <;> rfl

theorem pass_named (m : Machine D) (turn : Turn D) :
    (m.pass turn).container.map Container.named = m.container.map Container.named := by
  unfold Machine.pass
  split
  · rename_i hk
    rw [hk]
    rfl
  · rfl

theorem start_frame (m : Machine D) (turn : Turn D) (dataDir image : String) :
    (m.start turn dataDir image).2.clock = m.clock ∧ (m.start turn dataDir image).2.marker = m.marker := by
  unfold Machine.start
  split
  · exact ⟨rfl, rfl⟩
  · split_ifs <;> exact ⟨rfl, rfl⟩

theorem perform_clock (turn : Turn D) (cmd : GuestCmd) (m : Machine D) : m.clock ≤ (perform turn cmd m).2.clock := by
  cases cmd with
  | sleep secs => exact Nat.le_add_right _ _
  | removeContainer =>
    simp only [perform]
    split_ifs <;> exact le_rfl
  | dockerRun dataDir image => exact (start_frame m turn dataDir image).1.ge
  | inspectStatus =>
    simp only [perform]
    split <;> exact le_rfl
  | _ => exact le_rfl

theorem perform_marker (turn : Turn D) (cmd : GuestCmd) (m : Machine D) : (perform turn cmd m).2.marker = m.marker := by
  cases cmd with
  | removeContainer =>
    simp only [perform]
    split_ifs <;> rfl
  | dockerRun dataDir image => exact (start_frame m turn dataDir image).2
  | inspectStatus =>
    simp only [perform]
    split <;> rfl
  | _ => rfl

theorem perform_container (turn : Turn D) {cmd : GuestCmd} (h : cmd.changesContainer = false) (m : Machine D) :
    (perform turn cmd m).2.container = m.container := by
  cases cmd with
  | removeContainer => cases h
  | dockerRun dataDir image => cases h
  | inspectStatus =>
    simp only [perform]
    split <;> rfl
  | _ => rfl

theorem exec_clock (turn : Turn D) (cmd : GuestCmd) (m : Machine D) : m.clock ≤ (exec turn cmd m).2.clock := by
  calc m.clock ≤ m.clock + turn.seconds := Nat.le_add_right _ _
    _ = (m.pass turn).clock := (pass_clock m turn).symm
    _ ≤ (exec turn cmd m).2.clock := perform_clock turn cmd _

theorem exec_marker (turn : Turn D) (cmd : GuestCmd) (m : Machine D) : (exec turn cmd m).2.marker = m.marker :=
  (perform_marker turn cmd _).trans (pass_marker m turn)

theorem exec_named (turn : Turn D) {cmd : GuestCmd} (h : cmd.changesContainer = false) (m : Machine D) :
    (exec turn cmd m).2.container.map Container.named = m.container.map Container.named := by
  calc (perform turn cmd (m.pass turn)).2.container.map Container.named
      = (m.pass turn).container.map Container.named := by rw [perform_container turn h]
    _ = m.container.map Container.named := pass_named m turn

theorem start_ok {m : Machine D} {turn : Turn D} {dataDir image : String} (h : (m.start turn dataDir image).1 = true) :
    (m.start turn dataDir image).2.container.map Container.named = some (image, dataDir) := by
  unfold Machine.start at h ⊢
  split at h
  · cases h
  · split_ifs at h ⊢ <;> rfl

/-- time goes on -/
def later (m m' : Machine D) : Prop := m.clock ≤ m'.clock

theorem later_frame : Frame exec (later (D := D)) := ⟨fun _ => Nat.le_refl _, Nat.le_trans, fun turn cmd m => exec_clock turn cmd m⟩

/-! ## The languages -/

abbrev Entry := GuestCmd × Answer Printed

abbrev World (D : Type) := Machine D × Record GuestCmd Printed

def said (line : String) : Language Entry := asked (.log ("[guest-init] " ++ line))

/-- the clock is read -/
def clockRead (φ : ℕ → Prop) : Language Entry := answer .date fun r => φ r.out.number

def uptimeRead (φ : ℕ → Prop) : Language Entry := answer .uptime fun r => φ r.out.number

/-- rounds in vain, each before the deadline -/
def vain (miss : Language Entry) (nap deadline : ℕ) : Language Entry := (miss * clockRead (· < deadline) * asked (.sleep nap))∗

/-- the clock is read, and what is waited for is seen in the end -/
def waited (hit miss : Language Entry) (nap timeout : ℕ) : Language Entry :=
  {l | ∃ now, l ∈ clockRead (· = now) * (vain miss nap (now + timeout) * hit)}

/-- the wait is given up after a round in vain, at a time that has reached the deadline -/
def gaveUp (miss : Language Entry) (nap timeout : ℕ) : Language Entry :=
  {l | ∃ now, l ∈ clockRead (· = now) * (vain miss nap (now + timeout) * (miss * clockRead (now + timeout ≤ ·)))}

def fatal (env : GuestEnv) (reason : Fatal) : Language Entry := said ("FATAL: " ++ reason.message env) * asked (.sleep 3)

def binderMount : GuestCmd := .mount "binder" "/dev/binderfs"

/-- the filesystems are mounted, and binderfs is -/
def mounted : Language Entry := only GuestCmd.sets * (did binderMount * only GuestCmd.sets)

def daemonUp (line : String) (start ready : GuestCmd) (timeout : ℕ) : Language Entry :=
  said line * (asked start * waited (did ready) (refused ready) 1 timeout)

def daemonDown (line : String) (start ready : GuestCmd) (timeout : ℕ) : Language Entry :=
  said line * (asked start * gaveUp (refused ready) 1 timeout)

def containerdUp (env : GuestEnv) : Language Entry :=
  daemonUp "starting containerd (standalone)" .containerd (.isSocket containerdSock) env.containerdTimeout

def containerdDown (env : GuestEnv) : Language Entry :=
  daemonDown "starting containerd (standalone)" .containerd (.isSocket containerdSock) env.containerdTimeout

def dockerdUp (env : GuestEnv) : Language Entry := daemonUp "starting dockerd" .dockerd .dockerVersion env.dockerdTimeout

def dockerdDown (env : GuestEnv) : Language Entry := daemonDown "starting dockerd" .dockerd .dockerVersion env.dockerdTimeout

/-- the old container is removed before the new one is run -/
def replaced (env : GuestEnv) (image : String) (run : Language Entry) : Language Entry :=
  asked .removeContainer * (asked (.mkdir env.dataDir) *
    (said ("running " ++ image ++ " (--network none, /data persisted at " ++ env.dataDir ++ ")") * run))

def ranRedroid (env : GuestEnv) (image : String) : Language Entry := replaced env image (did (.dockerRun env.dataDir image))

def notRun (env : GuestEnv) (image : String) : Language Entry := replaced env image (refused (.dockerRun env.dataDir image))

/-- `$(docker inspect .. || echo missing)` -/
def stateOf (r : Answer Printed) : List Char :=
  if r.ok then captured r.out.text else captured (r.out.text ++ "missing\n".toList)

def seesState (φ : List Char → Prop) : Language Entry := answer .inspectStatus fun r => φ (stateOf r)

def running : Language Entry := seesState fun state => state = "running".toList

def bootSeen : Language Entry := running * did .bootCompleted

def bootMissed : Language Entry := running * refused .bootCompleted

def bootWait : Language Entry := said "waiting for sys.boot_completed=1 (slow under TCG; not a hang)"

/-- the boot is seen completed, and the uptime that has passed meanwhile is printed -/
def hasBooted (env : GuestEnv) : Language Entry :=
  {l | ∃ now start stop, l ∈ bootWait * (clockRead (· = now) * (uptimeRead (· = start) *
    (vain bootMissed 2 (now + env.bootTimeout) * (bootSeen * (uptimeRead (· = stop) * said (bootLine start stop))))))}

/-- the container is seen in another state -/
def died (env : GuestEnv) (state : List Char) : Language Entry :=
  {l | ∃ now, l ∈ bootWait * (clockRead (· = now) * (asked .uptime * (vain bootMissed 2 (now + env.bootTimeout) *
    (seesState (fun s => s = state ∧ s ≠ "running".toList) * asked .containerLogs))))}

def neverBooted (env : GuestEnv) : Language Entry :=
  {l | ∃ now, l ∈ bootWait * (clockRead (· = now) * (asked .uptime * (vain bootMissed 2 (now + env.bootTimeout) *
    (bootMissed * clockRead (now + env.bootTimeout ≤ ·)))))}

/-- what has been asked and answered when a boot is over -/
def story (env : GuestEnv) (image : String) : Except (Stop GuestCmd Fatal) Unit → Language Entry
  | .ok _ => mounted * (containerdUp env * (dockerdUp env * (ranRedroid env image * (hasBooted env *
      (only GuestCmd.relays * said "guest ready; idling as PID 1")))))
  | .error (.exit .binderfs) => only GuestCmd.sets * (refused binderMount * fatal env .binderfs)
  | .error (.exit .containerd) => mounted * (containerdDown env * fatal env .containerd)
  | .error (.exit .dockerd) => mounted * (containerdUp env * (dockerdDown env * fatal env .dockerd))
  | .error (.exit .dockerRun) => mounted * (containerdUp env * (dockerdUp env * (notRun env image * fatal env .dockerRun)))
  | .error (.exit (.notRunning state)) => mounted * (containerdUp env * (dockerdUp env * (ranRedroid env image *
      (died env state * fatal env (.notRunning state)))))
  | .error (.exit .boot) => mounted * (containerdUp env * (dockerdUp env * (ranRedroid env image *
      (neverBooted env * fatal env .boot))))
  | .error (.exit .spinning) => 0
  | .error (.failed _) => 0

/-! ## Waiting -/

section Waits

/-- the language of a search, by what it has found -/
def found (hit miss : Language Entry) : Option Unit → Language Entry
  | some _ => hit
  | none => miss

theorem runs_date (s : World D) : Runs (recorded exec) P (fun _ => True) date s
    (fun n t => s.1.clock ≤ n ∧ n ≤ t.1.clock ∧ Wrote later (clockRead (· = n)) s t) fun _ _ => False := by
  apply runs_bind
  refine runs_output trivial fun turn _ => ⟨trivial, runs_pure trivial ⟨?_, le_rfl, wrote_answer later_frame rfl⟩⟩
  exact exec_clock turn .date s.1

/-- a nap moves the clock -/
theorem runs_nap (secs : ℕ) (s : World D) : Runs (recorded exec) P (fun _ => True) (attempt (.sleep (secs + 1))) s
    (fun _ t => s.1.clock < t.1.clock ∧ Wrote later (asked (.sleep (secs + 1))) s t)
    (fun _ _ => False : Stop GuestCmd Fatal → World D → Prop) := by
  refine runs_attempt trivial fun turn _ => ⟨trivial, ?_, wrote_answer later_frame trivial⟩
  calc s.1.clock ≤ (s.1.pass turn).clock := by rw [pass_clock]; exact Nat.le_add_right _ _
    _ < (s.1.pass turn).clock + (secs + 1) := Nat.lt_add_of_pos_right (Nat.succ_pos secs)

/-- the rounds after the first reading of the clock -/
theorem runs_polled {round : GuestShell (Option Unit)} {hit miss : Language Entry} {E : Stop GuestCmd Fatal → Language Entry}
    (hround : Writes exec P later round (found hit miss) E) (secs : ℕ) {now timeout : ℕ} {t : World D} (hnow : now ≤ t.1.clock) :
    Runs (recorded exec) P (fun _ => True)
      (poll round date (attempt (.sleep (secs + 1))) (.exit .spinning) (now + timeout) (timeout + 1)) t
      (fun up u => Wrote later (vain miss (secs + 1) (now + timeout) *
        found hit (miss * clockRead (now + timeout ≤ ·)) up) t u)
      fun e u => Wrote later (vain miss (secs + 1) (now + timeout) * E e) t u := by
  have hpoll := runs_poll (P := P) (I := fun _ : World D => True)
    (Q := fun _ u => Wrote later (vain miss (secs + 1) (now + timeout) * hit) t u)
    (E := fun e u => Wrote later (vain miss (secs + 1) (now + timeout) * E e) t u) (.exit Fatal.spinning) (fun u => u.1.clock)
    (J := fun u => Wrote later (vain miss (secs + 1) (now + timeout)) t u)
    (M := fun u => Wrote later (vain miss (secs + 1) (now + timeout) * miss) t u)
    (N := fun n u => Wrote later (vain miss (secs + 1) (now + timeout) * miss * clockRead (· = n)) t u)
    (fun u hu => (hround u).mono (fun up v _ hv => ⟨hv.frame, ?_⟩) fun e v _ hv => hu.trans later_frame hv)
    (fun u hu => (runs_date u).mono (fun n v _ hv => ⟨hv.1, hv.2.1, hu.trans later_frame hv.2.2⟩) fun _ _ _ h => h.elim)
    (fun n u hn hu => (runs_nap secs u).mono (fun _ v _ hv => ⟨hv.1, ?_⟩) fun _ _ _ h => h.elim)
    timeout t ((wrote_nothing later_frame).mono one_le_kstar) (Nat.add_le_add_right hnow timeout)
  · refine hpoll.mono (fun up u _ hu => ?_) fun _ _ _ h => h
    cases up with
    | some x => exact hu
    | none =>
      obtain ⟨n, hn, hlate⟩ := hu
      refine hn.mono ?_
      rw [mul_assoc]
      change _ ≤ vain miss (secs + 1) (now + timeout) * (miss * clockRead _)
      gcongr
      exact answer_mono fun r hr => hr ▸ hlate
  · cases up with
    | some x => exact hu.trans later_frame hv
    | none => exact hu.trans later_frame hv
  · -- one more round in vain
    refine (hu.trans later_frame hv.2).mono ?_
    calc vain miss (secs + 1) (now + timeout) * miss * clockRead (· = n) * asked (.sleep (secs + 1))
        ≤ vain miss (secs + 1) (now + timeout) * (miss * clockRead (· < now + timeout) * asked (.sleep (secs + 1))) := by
          simp only [mul_assoc]
          gcongr
          exact answer_mono fun r hr => hr ▸ hn
      _ ≤ vain miss (secs + 1) (now + timeout) := kstar_mul_le_kstar

theorem writes_once (cmd : GuestCmd) : Writes exec P (later (D := D)) (once cmd) (found (did cmd) (refused cmd)) fun _ => 0 := by
  have hsome : (1 : Language Entry) ≤ found 1 0 (some ()) := le_rfl
  have hnone : (1 : Language Entry) ≤ found 0 1 none := le_rfl
  refine (writes_ifOk later_frame (writes_pure later_frame (some ()) (E := fun _ => 0) hsome)
    (writes_pure later_frame none (E := fun _ => 0) hnone)).mono (fun up => ?_) fun _ => ?_
  · cases up <;> simp [found]
  · simp

theorem writes_waitFor (cmd : GuestCmd) (timeout : ℕ) : Writes exec P (later (D := D)) (waitFor cmd timeout)
    (found (waited (did cmd) (refused cmd) 1 timeout) (gaveUp (refused cmd) 1 timeout)) fun _ => 0 := by
  intro s
  apply runs_bind
  refine (runs_date s).mono (fun now t _ ht => ?_) fun _ _ _ h => h.elim
  refine (runs_polled (writes_once cmd) 0 ht.2.1).mono (fun up u _ hu => ?_) fun _ u _ hu => ?_
  · refine (ht.2.2.trans later_frame hu).mono ?_
    cases up with
    | some x => exact fun l hl => ⟨now, hl⟩
    | none => exact fun l hl => ⟨now, hl⟩
  · rw [mul_zero] at hu
    exact (not_wrote_zero hu).elim

end Waits

/-! ## The steps of a boot -/

section Steps

variable (env : GuestEnv)

theorem writes_log (line : String) : Writes exec P (later (D := D)) (log line) (fun _ => said line) fun _ => 0 :=
  writes_attempt later_frame

theorem writes_die (reason : Fatal) {L : α → Language Entry} :
    Writes exec P (later (D := D)) (die env reason) L (ends reason (fatal env reason)) := by
  refine (writes_seq later_frame (writes_log _) (writes_seq later_frame (writes_attempt later_frame)
    (writes_leave later_frame (K := fun _ => 0) reason))).mono (fun _ => ?_) fun e => ?_
  · simp
  · rw [zero_add, zero_add, mul_ends, mul_ends, mul_one]
    rfl

theorem writes_orDie (reason : Fatal) (up : Option Unit) : Writes exec P (later (D := D)) (orDie env reason up)
    (fun _ => found 1 0 up) fun e => found 0 (ends reason (fatal env reason) e) up := by
  cases up with
  | some x => exact writes_pure later_frame () le_rfl
  | none => exact writes_die env reason

theorem writes_daemon (line : String) (start ready : GuestCmd) (timeout : ℕ) (reason : Fatal) :
    Writes exec P (later (D := D))
      (do
        log line
        attempt start
        let up ← waitFor ready timeout
        orDie env reason up)
      (fun _ => daemonUp line start ready timeout) (ends reason (daemonDown line start ready timeout * fatal env reason)) := by
  have hwait : Writes exec P (later (D := D)) (waitFor ready timeout >>= orDie env reason)
      (fun _ => waited (did ready) (refused ready) 1 timeout)
      (ends reason (gaveUp (refused ready) 1 timeout * fatal env reason)) := by
    refine writes_bind later_frame (writes_waitFor ready timeout) (writes_orDie env reason) (fun up _ => ?_) (fun _ => zero_le)
      fun up e => ?_
    · cases up <;> simp [found]
    · cases up with
      | some x => simp [found]
      | none => exact (mul_ends _ _ _ _).le
  refine (writes_seq later_frame (writes_log line) (writes_seq later_frame (writes_attempt later_frame) hwait)).mono
    (fun _ => le_rfl) fun e => ?_
  rw [zero_add, zero_add, mul_ends, mul_ends]
  simp only [daemonDown, mul_assoc, le_rfl]

theorem disciplined_log {q : GuestCmd → Bool} {exits : Fatal → Bool} {line : String} (h : ∀ line, q (.log line) = true) :
    Disciplined (fun _ => false) q exits (log line).run :=
  disciplined_attempt rfl (h _)

theorem disciplined_fallBack : Disciplined (fun _ => false) GuestCmd.sets (fun _ => false) fallBack.run :=
  disciplined_bind (disciplined_log fun _ => rfl) fun _ => disciplined_pure _

theorem disciplined_resolveRedroidImage :
    Disciplined (fun _ => false) GuestCmd.sets (fun _ => false) (resolveRedroidImage env).run := by
  have hmarker : Disciplined (fun _ => false) GuestCmd.sets (fun _ => false) useMarker.run := by
    refine disciplined_bind (disciplined_output rfl rfl) fun printed => ?_
    split_ifs
    · exact disciplined_fallBack
    · exact disciplined_bind (disciplined_log fun _ => rfl) fun _ => disciplined_pure _
  unfold resolveRedroidImage
  split_ifs
  · exact disciplined_ifOk rfl rfl hmarker disciplined_fallBack
  · exact disciplined_bind (disciplined_log fun _ => rfl) fun _ => disciplined_pure _

theorem disciplined_bringUpEth0 : Disciplined (fun _ => false) GuestCmd.sets (fun _ => false) bringUpEth0.run := by
  refine disciplined_bind (disciplined_output rfl rfl) fun printed => ?_
  refine disciplined_bind (disciplined_log fun _ => rfl) fun _ => ?_
  refine disciplined_bind (disciplined_attempt rfl rfl) fun _ => ?_
  refine disciplined_bind (disciplined_attempt rfl rfl) fun _ => ?_
  refine disciplined_bind (disciplined_attempt rfl rfl) fun _ => ?_
  exact disciplined_ifOk rfl rfl (disciplined_pure ()) (disciplined_log fun _ => rfl)

/-- one of them ends the boot -/
theorem writes_mounts : Writes exec P (later (D := D)) (mountPseudoFilesystems env) (fun _ => mounted)
    (ends .binderfs (only GuestCmd.sets * (refused binderMount * fatal env .binderfs))) := by
  have hafter : Writes exec P (later (D := D)) (attempt (.ip ["link", "set", "lo", "up"]) >>= fun _ => bringUpEth0)
      (fun _ => only GuestCmd.sets) fun _ => 0 :=
    writes_of_disciplined later_frame
      (disciplined_bind (disciplined_attempt rfl rfl) fun _ => disciplined_bringUpEth0)
  have hbinder : Writes exec P (later (D := D)) (ifOk binderMount (pure ()) (die env .binderfs)) (fun _ => did binderMount)
      (ends .binderfs (refused binderMount * fatal env .binderfs)) := by
    refine (writes_ifOk later_frame (writes_pure later_frame () (K := fun _ => 1) (E := fun _ => 0) le_rfl)
      (writes_die env .binderfs (L := fun _ => 0))).mono (fun _ => ?_) fun e => ?_
    · simp
    · rw [mul_zero, zero_add, mul_ends]
  have hrest : Writes exec P (later (D := D))
      (ifOk binderMount (pure ()) (die env .binderfs) >>= fun _ => attempt (.ip ["link", "set", "lo", "up"]) >>= fun _ => bringUpEth0)
      (fun _ => did binderMount * only GuestCmd.sets) (ends .binderfs (refused binderMount * fatal env .binderfs)) := by
    refine (writes_seq later_frame hbinder hafter).mono (fun _ => le_rfl) fun e => ?_
    rw [mul_zero, add_zero]
  have hall : Writes exec P (later (D := D)) (mountPseudoFilesystems env)
      (fun _ => only GuestCmd.sets * (did binderMount * only GuestCmd.sets))
      fun e => only GuestCmd.sets * ends .binderfs (refused binderMount * fatal env .binderfs) e := by
    refine writes_more later_frame rfl ?_
    refine writes_more later_frame rfl (writes_more later_frame rfl (writes_more later_frame rfl ?_))
    refine writes_more later_frame rfl (writes_more later_frame rfl (writes_more later_frame rfl ?_))
    refine writes_more later_frame rfl (writes_more later_frame rfl (writes_more later_frame rfl ?_))
    exact writes_more later_frame rfl (writes_more later_frame rfl hrest.more)
  exact hall.mono (fun _ => le_rfl) fun e => (mul_ends _ _ _ _).le

/-- the end of `runRedroid` -/
theorem writes_runRedroid (image : String) : Writes exec P (later (D := D)) (runRedroid env image) (fun _ => ranRedroid env image)
    (ends .dockerRun (notRun env image * fatal env .dockerRun)) := by
  have hrun : Writes exec P (later (D := D)) (ifOk (.dockerRun env.dataDir image) (pure ()) (die env .dockerRun))
      (fun _ => did (.dockerRun env.dataDir image))
      (ends .dockerRun (refused (.dockerRun env.dataDir image) * fatal env .dockerRun)) := by
    refine (writes_ifOk later_frame (writes_pure later_frame () (K := fun _ => 1) (E := fun _ => 0) le_rfl)
      (writes_die env .dockerRun (L := fun _ => 0))).mono (fun _ => ?_) fun e => ?_
    · simp
    · rw [mul_zero, zero_add, mul_ends]
  refine (writes_seq later_frame (writes_attempt later_frame) (writes_seq later_frame (writes_attempt later_frame)
    (writes_seq later_frame (writes_log _) hrun))).mono (fun _ => le_rfl) fun e => ?_
  simp only [zero_add, mul_ends, notRun, replaced, mul_assoc, le_rfl]

theorem writes_containerState :
    Writes exec P (later (D := D)) containerState (fun state => seesState (· = state)) fun _ => 0 := by
  intro s
  refine runs_act trivial fun turn _ r t hr => ?_
  cases hr
  split_ifs with hok
  · exact runs_pure trivial (wrote_answer later_frame (if_pos hok))
  · exact runs_pure trivial (wrote_answer later_frame (if_neg hok))

/-- the ends by the state of the container -/
def byState (L : List Char → Language Entry) : Stop GuestCmd Fatal → Language Entry
  | .exit (.notRunning state) => L state
  | _ => 0

theorem writes_bootRound : Writes exec P (later (D := D)) (bootRound env) (found bootSeen bootMissed) (byState fun state =>
    seesState (fun s => s = state ∧ s ≠ "running".toList) * (asked .containerLogs * fatal env (.notRunning state))) := by
  intro s
  apply runs_bind
  refine (writes_containerState s).mono (fun state t _ ht => ?_) fun _ _ _ h => (not_wrote_zero h).elim
  split_ifs with hstate
  · subst hstate
    refine (writes_once .bootCompleted t).mono (fun up u _ hu => ?_) fun _ _ _ h => (not_wrote_zero h).elim
    have hround := ht.trans later_frame hu
    cases up <;> exact hround
  · have hdies : Writes exec P (later (D := D)) (notRunning env state) (fun _ => 0)
        (ends (.notRunning state) (asked .containerLogs * fatal env (.notRunning state))) := by
      refine (writes_seq later_frame (writes_attempt later_frame) (writes_die env (.notRunning state) (L := fun _ => 0))).mono
        (fun _ => ?_) fun e => ?_
      · simp
      · rw [zero_add, mul_ends]
    refine (hdies t).mono (fun _ _ _ h => (not_wrote_zero h).elim) fun e u _ hu => ?_
    refine (ht.trans later_frame hu).mono ?_
    rw [mul_ends]
    refine ends_le ?_
    change seesState (· = state) * _ ≤ seesState _ * _
    gcongr
    exact answer_mono fun r hr => ⟨hr, hr ▸ hstate⟩

/-- the ends of the wait for the boot -/
def bootEnds (env : GuestEnv) : Stop GuestCmd Fatal → Language Entry
  | .exit (.notRunning state) => died env state * fatal env (.notRunning state)
  | .exit .boot => neverBooted env * fatal env .boot
  | _ => 0

theorem writes_waitForBoot : Writes exec P (later (D := D)) (waitForBoot env) (fun _ => hasBooted env) (bootEnds env) := by
  intro s
  apply runs_bind
  refine (writes_log _ s).mono (fun _ t₁ _ h₁ => ?_) fun _ _ _ h => (not_wrote_zero h).elim
  apply runs_bind
  refine (runs_date t₁).mono (fun now t₂ _ h₂ => ?_) fun _ _ _ h => h.elim
  obtain ⟨-, hnow, hdate⟩ := h₂
  apply runs_bind
  refine (writes_output later_frame t₂).mono (fun start t₃ _ h₃ => ?_) fun _ _ _ h => (not_wrote_zero h).elim
  have hread : Wrote later (clockRead (· = now) * uptimeRead (· = start.number)) t₁ t₃ :=
    hdate.trans later_frame (h₃.mono (answer_mono fun r hr => hr ▸ rfl))
  have hasked : Wrote later (clockRead (· = now) * asked .uptime) t₁ t₃ :=
    hdate.trans later_frame (h₃.mono (answer_mono fun _ _ => trivial))
  apply runs_bind
  refine (runs_polled (writes_bootRound env) 1 (hnow.trans h₃.frame)).mono (fun up u _ hu => ?_) fun e u _ hu => ?_
  · cases up with
    | some x =>
      have hseen : Wrote later (vain bootMissed 2 (now + env.bootTimeout) * bootSeen) t₃ u := hu
      apply runs_bind
      refine (writes_output later_frame u).mono (fun stop v _ hv => ?_) fun _ _ _ h => (not_wrote_zero h).elim
      have hstop : Wrote later (uptimeRead (· = stop.number)) u v := hv.mono (answer_mono fun r hr => hr ▸ rfl)
      refine (writes_log _ v).mono (fun _ w _ hw => ?_) fun _ _ _ h => (not_wrote_zero h).elim
      have hall := h₁.trans later_frame (hread.trans later_frame (hseen.trans later_frame (hstop.trans later_frame hw)))
      refine hall.mono ?_
      simp only [mul_assoc]
      exact fun l hl => ⟨now, start.number, stop.number, hl⟩
    | none =>
      have hvain : Wrote later (vain bootMissed 2 (now + env.bootTimeout) * (bootMissed * clockRead (now + env.bootTimeout ≤ ·))) t₃ u := hu
      have hnever : Wrote later (neverBooted env) s u := by
        refine (h₁.trans later_frame (hasked.trans later_frame hvain)).mono ?_
        rw [mul_assoc (clockRead _)]
        exact fun l hl => ⟨now, hl⟩
      refine (writes_die env .boot (L := fun _ => 0) u).mono (fun _ _ _ h => (not_wrote_zero h).elim) fun e v _ hv => ?_
      refine (hnever.trans later_frame hv).mono ?_
      rw [mul_ends]
      exact ends_le (E := bootEnds env) le_rfl
  · have hround := h₁.trans later_frame (hasked.trans later_frame hu)
    cases e with
    | failed a => exact (not_wrote_zero (hround.mono (by simp [byState]))).elim
    | exit r =>
      cases r with
      | notRunning state =>
        have hdies : Wrote later (vain bootMissed 2 (now + env.bootTimeout) * (seesState (fun s => s = state ∧ s ≠ "running".toList) *
            (asked .containerLogs * fatal env (.notRunning state)))) t₃ u := hu
        have hdied : bootWait * (clockRead (· = now) * (asked .uptime * (vain bootMissed 2 (now + env.bootTimeout) *
            (seesState (fun s => s = state ∧ s ≠ "running".toList) * asked .containerLogs)))) ≤ died env state :=
          fun l hl => ⟨now, hl⟩
        refine (h₁.trans later_frame (hasked.trans later_frame hdies)).mono ?_
        calc _ = bootWait * (clockRead (· = now) * (asked .uptime * (vain bootMissed 2 (now + env.bootTimeout) *
                (seesState (fun s => s = state ∧ s ≠ "running".toList) * asked .containerLogs)))) *
                fatal env (.notRunning state) := by simp only [bootWait, mul_assoc]
          _ ≤ died env state * fatal env (.notRunning state) := by gcongr
      | _ => exact (not_wrote_zero (hround.mono (by simp [byState]))).elim

theorem disciplined_enableAdbTcp : Disciplined (fun _ => false) GuestCmd.relays (fun _ => false) enableAdbTcp.run := by
  refine disciplined_bind (disciplined_log fun _ => rfl) fun _ => ?_
  refine disciplined_bind (disciplined_ifOk rfl rfl (disciplined_pure ()) (disciplined_log fun _ => rfl)) fun _ => ?_
  refine disciplined_bind (disciplined_attempt rfl rfl) fun _ => disciplined_bind (disciplined_attempt rfl rfl) fun _ => ?_
  refine disciplined_bind (disciplined_attempt rfl rfl) fun _ => disciplined_bind (disciplined_attempt rfl rfl) fun _ => ?_
  exact disciplined_attempt rfl rfl

theorem disciplined_startAdbRelay : Disciplined (fun _ => false) GuestCmd.relays (fun _ => false) startAdbRelay.run := by
  have hprobe : Disciplined (fun _ => false) GuestCmd.relays (fun _ => false) probeRelay.run := by
    refine disciplined_bind (disciplined_output rfl rfl) fun printed => ?_
    split_ifs
    · exact disciplined_log fun _ => rfl
    · exact disciplined_bind (disciplined_log fun _ => rfl) fun _ => disciplined_attempt rfl rfl
  refine disciplined_bind (disciplined_output rfl rfl) fun printed => ?_
  split_ifs
  · exact disciplined_log fun _ => rfl
  · refine disciplined_bind (disciplined_log fun _ => rfl) fun _ => disciplined_bind (disciplined_attempt rfl rfl) fun _ => ?_
    refine disciplined_bind (disciplined_attempt rfl rfl) fun _ => disciplined_bind (disciplined_attempt rfl rfl) fun _ => ?_
    refine disciplined_bind (disciplined_attempt rfl rfl) fun _ => disciplined_bind (disciplined_attempt rfl rfl) fun _ => ?_
    refine disciplined_bind (disciplined_output rfl rfl) fun _ => disciplined_bind (disciplined_log fun _ => rfl) fun _ => ?_
    exact disciplined_ifOk rfl rfl hprobe (disciplined_pure ())

/-- the commands of a boot that has found its image -/
def afterwards (env : GuestEnv) (image : String) : GuestShell Unit := do
  mountPseudoFilesystems env
  startContainerd env
  startDockerd env
  runRedroid env image
  waitForBoot env
  enableAdbTcp
  startAdbRelay
  log "guest ready; idling as PID 1"

theorem writes_afterwards (image : String) : Writes exec P (later (D := D)) (afterwards env image)
    (fun _ => story env image (.ok ())) fun e => story env image (.error e) := by
  have hrelay : Writes exec P (later (D := D)) (enableAdbTcp >>= fun _ => startAdbRelay >>= fun _ => log "guest ready; idling as PID 1")
      (fun _ => only GuestCmd.relays * said "guest ready; idling as PID 1") fun _ => 0 := by
    refine (writes_seq later_frame (writes_of_disciplined later_frame disciplined_enableAdbTcp)
      (writes_seq later_frame (writes_of_disciplined later_frame disciplined_startAdbRelay) (writes_log _))).mono (fun _ => ?_) fun e => ?_
    · rw [← mul_assoc]
      gcongr
      exact only_mul_only
    · simp
  refine (writes_seq later_frame (writes_mounts env) (writes_seq later_frame (writes_daemon env _ _ _ _ .containerd)
    (writes_seq later_frame (writes_daemon env _ _ _ _ .dockerd) (writes_seq later_frame (writes_runRedroid env image)
      (writes_seq later_frame (writes_waitForBoot env) hrelay))))).mono (fun _ => le_rfl) fun e => ?_
  cases e with
  | failed a => simp [ends_of_ne, bootEnds]
  | exit r => cases r <;> simp [ends_of_ne, bootEnds, story, containerdDown, dockerdDown, containerdUp, dockerdUp]

end Steps

/-! ## The image -/

/-- the image that a boot runs -/
def resolvedImage (env : GuestEnv) (marker : Option (List Char)) : String :=
  if fallback (env.vars "REDROID_IMAGE") "" = "" then
    if captured (marker.getD []) = [] then legacyFallbackImage else String.ofList (captured (marker.getD []))
  else fallback (env.vars "REDROID_IMAGE") ""

/-- neither the environment nor the marker says what to run -/
def FallsBack (env : GuestEnv) (marker : Option (List Char)) : Prop :=
  fallback (env.vars "REDROID_IMAGE") "" = "" ∧ captured (marker.getD []) = []

def warned (l : Record GuestCmd Printed) : Prop := ∃ r, (.log ("[guest-init] " ++ fallbackWarning), r) ∈ l

section Image

variable (env : GuestEnv)

theorem Wrote.warned {L : Language Entry} {s t : World D} (h : Wrote later L s t) (hw : warned s.2) : warned t.2 := by
  obtain ⟨l, -, hl⟩ := h.log
  obtain ⟨r, hr⟩ := hw
  rw [hl]
  exact ⟨r, List.mem_append_left l hr⟩

theorem runs_fallBack (s : World D) : Runs (recorded exec) P (fun _ => True) fallBack s
    (fun image t => image = legacyFallbackImage ∧ warned t.2) fun _ _ => False := by
  apply runs_bind
  refine runs_attempt trivial fun turn _ => ⟨trivial, runs_pure trivial ⟨rfl, (exec turn (.log ("[guest-init] " ++ fallbackWarning)) s.1).1, ?_⟩⟩
  exact List.mem_append_right _ (List.mem_singleton.2 rfl)

theorem runs_useMarker (s : World D) : Runs (recorded exec) P (fun _ => True) useMarker s
    (fun image t => if captured (s.1.marker.getD []) = [] then image = legacyFallbackImage ∧ warned t.2
      else image = String.ofList (captured (s.1.marker.getD []))) fun _ _ => False := by
  apply runs_bind
  refine runs_output trivial fun turn _ => ⟨trivial, ?_⟩
  have hread : (exec turn .readMarker s.1).1.out.text = s.1.marker.getD [] := by
    change (s.1.pass turn).marker.getD [] = s.1.marker.getD []
    rw [pass_marker]
  rw [hread]
  split_ifs with hblank
  · exact runs_fallBack _
  · apply runs_bind
    exact runs_attempt trivial fun turn _ => ⟨trivial, runs_pure trivial rfl⟩

theorem runs_resolvedImage (s : World D) : Runs (recorded exec) P (fun _ => True) (resolveRedroidImage env) s
    (fun image t => image = resolvedImage env s.1.marker ∧ (FallsBack env s.1.marker → warned t.2)) fun _ _ => False := by
  unfold resolveRedroidImage resolvedImage FallsBack
  split_ifs with hvar hblank
  · refine runs_ifOk trivial fun turn _ => ?_
    have hmarker : (recorded exec turn .hasMarker s).2.1.marker = s.1.marker := exec_marker turn .hasMarker s.1
    split_ifs
    · refine (runs_useMarker _).mono (fun image t _ h => ?_) fun _ _ _ h => h
      rw [hmarker, if_pos hblank] at h
      exact ⟨h.1, fun _ => h.2⟩
    · exact (runs_fallBack _).mono (fun _ _ _ h => ⟨h.1, fun _ => h.2⟩) fun _ _ _ h => h
  · refine runs_ifOk trivial fun turn _ => ?_
    have hmarker : (recorded exec turn .hasMarker s).2.1.marker = s.1.marker := exec_marker turn .hasMarker s.1
    have hthere : (exec turn .hasMarker s.1).1.ok = true := by
      change decide ((s.1.pass turn).marker.getD [] ≠ []) = true
      rw [pass_marker]
      refine decide_eq_true fun hempty => hblank ?_
      rw [hempty]
      rfl
    rw [if_pos hthere]
    refine (runs_useMarker _).mono (fun image t _ h => ?_) fun _ _ _ h => h
    rw [hmarker, if_neg hblank] at h
    exact ⟨h, fun hfalls => absurd hfalls.2 hblank⟩
  · apply runs_bind
    exact runs_attempt trivial fun turn _ => ⟨trivial, runs_pure trivial ⟨rfl, fun hfalls => absurd hfalls.1 hvar⟩⟩

theorem runs_resolveRedroidImage (s : World D) : Runs (recorded exec) P (fun _ => True) (resolveRedroidImage env) s
    (fun image t => Wrote later (only GuestCmd.sets) s t ∧ image = resolvedImage env s.1.marker ∧
      (FallsBack env s.1.marker → warned t.2)) fun _ _ => False :=
  ((writes_of_disciplined later_frame (disciplined_resolveRedroidImage env) s).and (runs_resolvedImage env s)).weaken
    (fun _ _ => trivial) |>.mono (fun _ _ _ h => h) fun _ _ _ h => h.2

end Image

/-! ## The container -/

section Footprint

variable {c : GuestCmd → Prop} (env : GuestEnv)

theorem all_log (h : ∀ line, c (.log line)) (line : String) : (log line).run.All c := all_attempt (h _)

theorem all_die {reason : Fatal} (hlog : ∀ line, c (.log line)) (hsleep : c (.sleep 3)) :
    (die env reason : GuestShell α).run.All c :=
  all_seq (all_log hlog _) fun _ => all_seq (all_attempt hsleep) fun _ => all_throw _

theorem all_date (h : c .date) : date.run.All c := all_seq (all_output h) fun _ => all_pure _

theorem all_once {cmd : GuestCmd} (h : c cmd) : (once cmd).run.All c := all_ifOk h (all_pure _) (all_pure _)

theorem all_waitForBoot (h : ∀ a, a.changesContainer = false → c a) : (waitForBoot env).run.All c := by
  have hdate : date.run.All c := all_date (h _ rfl)
  have hdie : ∀ {β : Type} (reason : Fatal), (die env reason : GuestShell β).run.All c := fun _ => all_die env (fun _ => h _ rfl) (h _ rfl)
  have hstate : containerState.run.All c := by
    refine all_seq (all_ask (h _ rfl)) fun r => ?_
    split_ifs <;> exact all_pure _
  have hround : (bootRound env).run.All c := by
    refine all_seq hstate fun state => ?_
    split_ifs
    · exact all_once (h _ rfl)
    · exact all_seq (all_attempt (h _ rfl)) fun _ => hdie _
  refine all_seq (all_log (fun _ => h _ rfl) _) fun _ => all_seq hdate fun now => all_seq (all_output (h _ rfl)) fun start =>
    all_seq (all_poll hround hdate (all_attempt (h _ rfl)) _) fun up => ?_
  cases up with
  | some x => exact all_seq (all_output (h _ rfl)) fun _ => all_log (fun _ => h _ rfl) _
  | none => exact hdie _

end Footprint

section Container

variable (env : GuestEnv) (image : String)

theorem runs_any (p : GuestShell α) (s : World D) :
    Runs (recorded exec) P (fun _ => True) p s (fun _ _ => True) fun _ _ => True :=
  All.runs (all_true p.run) (fun _ _ _ _ _ _ => trivial) trivial

theorem runs_named (s : World D) : Runs (recorded exec) P (fun _ => True) (afterwards env image) s
    (fun _ t => t.1.container.map Container.named = some (image, env.dataDir)) fun _ _ => True := by
  apply runs_bind
  refine (runs_any _ s).mono (fun _ t₁ _ _ => ?_) fun _ _ _ h => h
  apply runs_bind
  refine (runs_any _ t₁).mono (fun _ t₂ _ _ => ?_) fun _ _ _ h => h
  apply runs_bind
  refine (runs_any _ t₂).mono (fun _ t₃ _ _ => ?_) fun _ _ _ h => h
  have htail : (waitForBoot env >>= fun _ => enableAdbTcp >>= fun _ => startAdbRelay >>= fun _ =>
      log "guest ready; idling as PID 1").run.All fun a => a.changesContainer = false :=
    all_seq (all_waitForBoot env fun _ h => h) fun _ => all_seq (disciplined_enableAdbTcp.all.mono fun _ => relays_container) fun _ =>
      all_seq (disciplined_startAdbRelay.all.mono fun _ => relays_container) fun _ => all_log (fun _ => rfl) _
  have hrun : Runs (recorded exec) P (fun _ => True) (runRedroid env image) t₃
      (fun _ t => t.1.container.map Container.named = some (image, env.dataDir)) fun _ _ => True := by
    apply runs_bind
    refine (runs_any _ t₃).mono (fun _ u₁ _ _ => ?_) fun _ _ _ h => h
    apply runs_bind
    refine (runs_any _ u₁).mono (fun _ u₂ _ _ => ?_) fun _ _ _ h => h
    apply runs_bind
    refine (runs_any _ u₂).mono (fun _ u₃ _ _ => ?_) fun _ _ _ h => h
    refine runs_ifOk trivial fun turn _ => ?_
    split_ifs with hok
    · exact runs_pure trivial (start_ok hok)
    · exact (writes_die env .dockerRun (L := fun _ => 0) _).mono (fun _ _ _ h => (not_wrote_zero h).elim) fun _ _ _ _ => trivial
  apply runs_bind
  refine hrun.mono (fun _ t₄ _ h₄ => ?_) fun _ _ _ h => h
  refine (All.runs (I := fun t => t.1.container.map Container.named = some (image, env.dataDir)) htail
    (fun turn _ a ha t ht => (exec_named turn ha t.1).trans ht) h₄).weaken (fun _ _ => trivial) |>.mono (fun _ _ _ h => h)
    fun _ _ _ _ => trivial

end Container

/-! ## The outcome -/

/-- neither a container is run, nor is the way to adbd opened -/
def GuestCmd.quiet (cmd : GuestCmd) : Bool := !cmd.isRun && !cmd.opensAdb

theorem sets_quiet {a : GuestCmd} (h : a.sets = true) : a.quiet = true := by
  cases a <;> first | rfl | cases h

section Order

variable {q : GuestCmd → Bool} (h : ∀ a, a.quiet = true → q a = true)
include h

theorem mounted_le : mounted ≤ only q := by
  have hsets : (only GuestCmd.sets : Language Entry) ≤ only q := only_mono fun a ha => h a (sets_quiet ha)
  exact mul_le_only hsets (mul_le_only (answer_le_only (h _ rfl)) hsets)

theorem said_le (line : String) : said line ≤ only q := answer_le_only (h _ rfl)

theorem fatal_le (env : GuestEnv) (reason : Fatal) : fatal env reason ≤ only q :=
  mul_le_only (said_le h _) (answer_le_only (h _ rfl))

theorem vain_le {miss : Language Entry} (hmiss : miss ≤ only q) (nap deadline : ℕ) : vain miss nap deadline ≤ only q :=
  kstar_le_only (mul_le_only (mul_le_only hmiss (answer_le_only (h _ rfl))) (answer_le_only (h _ rfl)))

theorem daemonUp_le {start ready : GuestCmd} (hstart : start.quiet = true) (hready : ready.quiet = true) (line : String) (timeout : ℕ) :
    daemonUp line start ready timeout ≤ only q := by
  refine mul_le_only (said_le h line) (mul_le_only (answer_le_only (h _ hstart)) ?_)
  rintro l ⟨now, hl⟩
  exact mul_le_only (answer_le_only (h _ rfl)) (mul_le_only (vain_le h (answer_le_only (h _ hready)) _ _)
    (answer_le_only (h _ hready))) hl

theorem daemonDown_le {start ready : GuestCmd} (hstart : start.quiet = true) (hready : ready.quiet = true) (line : String) (timeout : ℕ) :
    daemonDown line start ready timeout ≤ only q := by
  refine mul_le_only (said_le h line) (mul_le_only (answer_le_only (h _ hstart)) ?_)
  rintro l ⟨now, hl⟩
  have hmiss : (refused ready : Language Entry) ≤ only q := answer_le_only (h _ hready)
  exact mul_le_only (answer_le_only (h _ rfl)) (mul_le_only (vain_le h hmiss _ _) (mul_le_only hmiss (answer_le_only (h _ rfl)))) hl

theorem daemons_le (env : GuestEnv) : mounted * (containerdUp env * dockerdUp env) ≤ only q :=
  mul_le_only (mounted_le h) (mul_le_only (daemonUp_le h rfl rfl _ _) (daemonUp_le h rfl rfl _ _))

theorem replaced_le (env : GuestEnv) (image : String) {run : Language Entry} (hrun : run ≤ only q) :
    replaced env image run ≤ only q :=
  mul_le_only (answer_le_only (h _ rfl)) (mul_le_only (answer_le_only (h _ rfl)) (mul_le_only (said_le h _) hrun))

theorem bootMissed_le : bootMissed ≤ only q := mul_le_only (answer_le_only (h _ rfl)) (answer_le_only (h _ rfl))

theorem died_le (env : GuestEnv) (state : List Char) : died env state ≤ only q := by
  rintro l ⟨now, hl⟩
  exact mul_le_only (said_le h _) (mul_le_only (answer_le_only (h _ rfl)) (mul_le_only (answer_le_only (h _ rfl))
    (mul_le_only (vain_le h (bootMissed_le h) _ _) (mul_le_only (answer_le_only (h _ rfl)) (answer_le_only (h _ rfl)))))) hl

theorem neverBooted_le (env : GuestEnv) : neverBooted env ≤ only q := by
  rintro l ⟨now, hl⟩
  exact mul_le_only (said_le h _) (mul_le_only (answer_le_only (h _ rfl)) (mul_le_only (answer_le_only (h _ rfl))
    (mul_le_only (vain_le h (bootMissed_le h) _ _) (mul_le_only (bootMissed_le h) (answer_le_only (h _ rfl)))))) hl

end Order

theorem hasBooted_le (env : GuestEnv) : hasBooted env ≤ only GuestCmd.quiet * (did .bootCompleted * only GuestCmd.quiet) := by
  have hquiet : ∀ a : GuestCmd, a.quiet = true → a.quiet = true := fun _ h => h
  rintro l ⟨now, start, stop, hl⟩
  have hbefore : bootWait * (clockRead (· = now) * (uptimeRead (· = start) * (vain bootMissed 2 (now + env.bootTimeout) * running))) ≤
      only GuestCmd.quiet :=
    mul_le_only (said_le hquiet _) (mul_le_only (answer_le_only rfl) (mul_le_only (answer_le_only rfl)
      (mul_le_only (vain_le hquiet (bootMissed_le hquiet) _ _) (answer_le_only rfl))))
  have hafter : uptimeRead (· = stop) * said (bootLine start stop) ≤ only GuestCmd.quiet :=
    mul_le_only (answer_le_only rfl) (said_le hquiet _)
  refine (show _ ≤ only GuestCmd.quiet * (did .bootCompleted * only GuestCmd.quiet) from ?_) hl
  calc _ = bootWait * (clockRead (· = now) * (uptimeRead (· = start) * (vain bootMissed 2 (now + env.bootTimeout) * running))) *
          (did .bootCompleted * (uptimeRead (· = stop) * said (bootLine start stop))) := by simp only [bootSeen, mul_assoc]
    _ ≤ only GuestCmd.quiet * (did .bootCompleted * only GuestCmd.quiet) := by gcongr

theorem story_ready (env : GuestEnv) (image : String) : story env image (.ok ()) ≤ only GuestCmd.quiet *
    (did (.dockerRun env.dataDir image) * (only GuestCmd.quiet * (did .bootCompleted * only fun a => !a.isRun))) := by
  have hquiet : ∀ a : GuestCmd, a.quiet = true → a.quiet = true := fun _ h => h
  have hrun : ∀ a : GuestCmd, a.quiet = true → (!a.isRun) = true := fun _ h => (Bool.and_eq_true_iff.1 h).1
  have hbefore : mounted * (containerdUp env * dockerdUp env) * (asked .removeContainer * (asked (.mkdir env.dataDir) *
      said ("running " ++ image ++ " (--network none, /data persisted at " ++ env.dataDir ++ ")"))) ≤ only GuestCmd.quiet :=
    mul_le_only (daemons_le hquiet env) (mul_le_only (answer_le_only rfl) (mul_le_only (answer_le_only rfl) (said_le hquiet _)))
  have hafter : only GuestCmd.quiet * (only GuestCmd.relays * said "guest ready; idling as PID 1") ≤ only fun a => !a.isRun := by
    refine mul_le_only (only_mono hrun) (mul_le_only (only_mono fun a ha => ?_) (said_le hrun _))
    cases a <;> first | rfl | cases ha
  calc story env image (.ok ())
      = mounted * (containerdUp env * dockerdUp env) * (asked .removeContainer * (asked (.mkdir env.dataDir) *
          said ("running " ++ image ++ " (--network none, /data persisted at " ++ env.dataDir ++ ")"))) *
          (did (.dockerRun env.dataDir image) * (hasBooted env * (only GuestCmd.relays * said "guest ready; idling as PID 1"))) := by
        simp only [story, ranRedroid, replaced, mul_assoc]
    _ ≤ only GuestCmd.quiet * (did (.dockerRun env.dataDir image) * (only GuestCmd.quiet * (did .bootCompleted * only GuestCmd.quiet) *
          (only GuestCmd.relays * said "guest ready; idling as PID 1"))) := by
        gcongr
        exact hasBooted_le env
    _ = only GuestCmd.quiet * (did (.dockerRun env.dataDir image) * (only GuestCmd.quiet * (did .bootCompleted *
          (only GuestCmd.quiet * (only GuestCmd.relays * said "guest ready; idling as PID 1"))))) := by simp only [mul_assoc]
    _ ≤ _ := by gcongr

theorem story_closed (env : GuestEnv) (image : String) (e : Stop GuestCmd Fatal) :
    story env image (.error e) ≤ only fun a => !a.opensAdb := by
  have hquiet : ∀ a : GuestCmd, a.quiet = true → (!a.opensAdb) = true := fun _ h => (Bool.and_eq_true_iff.1 h).2
  have hup : ∀ {L : Language Entry}, L ≤ only (fun a => !a.opensAdb) → mounted * (containerdUp env * (dockerdUp env * L)) ≤
      only fun a => !a.opensAdb := by
    intro L hL
    exact mul_le_only (mounted_le hquiet) (mul_le_only (daemonUp_le hquiet rfl rfl _ _) (mul_le_only (daemonUp_le hquiet rfl rfl _ _) hL))
  have hran : ranRedroid env image ≤ only fun a => !a.opensAdb := replaced_le hquiet env image (answer_le_only rfl)
  cases e with
  | failed a => exact zero_le
  | exit r =>
    cases r with
    | binderfs =>
      exact mul_le_only (only_mono fun a ha => hquiet a (sets_quiet ha)) (mul_le_only (answer_le_only rfl) (fatal_le hquiet env _))
    | containerd =>
      exact mul_le_only (mounted_le hquiet) (mul_le_only (daemonDown_le hquiet rfl rfl _ _) (fatal_le hquiet env _))
    | dockerd =>
      exact mul_le_only (mounted_le hquiet) (mul_le_only (daemonUp_le hquiet rfl rfl _ _)
        (mul_le_only (daemonDown_le hquiet rfl rfl _ _) (fatal_le hquiet env _)))
    | dockerRun => exact hup (mul_le_only (replaced_le hquiet env image (answer_le_only rfl)) (fatal_le hquiet env _))
    | notRunning state => exact hup (mul_le_only hran (mul_le_only (died_le hquiet env state) (fatal_le hquiet env _)))
    | boot => exact hup (mul_le_only hran (mul_le_only (neverBooted_le hquiet env) (fatal_le hquiet env _)))
    | spinning => exact zero_le

/-- what is said of a transcript and its end -/
structure Outcome (env : GuestEnv) (image : String) (m : Machine D) (l : Record GuestCmd Printed)
    (r : Except (Stop GuestCmd Fatal) Unit) : Prop where
  /-- the story of the end has been written -/
  story : l ∈ story env image r
  /-- one container has been run, and the way to adbd is opened after the boot has been seen -/
  ready : r = .ok () → l ∈ only GuestCmd.quiet * (did (.dockerRun env.dataDir image) * (only GuestCmd.quiet *
    (did .bootCompleted * only fun a => !a.isRun)))
  closed : r ≠ .ok () → l ∈ only fun a => !a.opensAdb
  container : r = .ok () → m.container.map Container.named = some (image, env.dataDir)

theorem sets_story (env : GuestEnv) (image : String) (r : Except (Stop GuestCmd Fatal) Unit) :
    only GuestCmd.sets * story env image r ≤ story env image r := by
  have hmore : ∀ M : Language Entry, only GuestCmd.sets * (only GuestCmd.sets * M) ≤ only GuestCmd.sets * M := by
    intro M
    rw [← mul_assoc]
    gcongr
    exact only_mul_only
  have hmounted : ∀ M : Language Entry, only GuestCmd.sets * (mounted * M) ≤ mounted * M := by
    intro M
    rw [mounted, mul_assoc (only GuestCmd.sets)]
    exact hmore _
  cases r with
  | ok x => exact hmounted _
  | error e => cases e with
    | failed a => exact (mul_zero _).le
    | exit r => cases r with
      | binderfs => exact hmore _
      | spinning => exact (mul_zero _).le
      | _ => exact hmounted _

theorem runs_main (env : GuestEnv) (s : World D) : Runs (recorded exec) P (fun _ => True) (main env) s
    (fun _ t => (Wrote later (story env (resolvedImage env s.1.marker) (.ok ())) s t ∧
      t.1.container.map Container.named = some (resolvedImage env s.1.marker, env.dataDir)) ∧
      (FallsBack env s.1.marker → warned t.2))
    fun e t => Wrote later (story env (resolvedImage env s.1.marker) (.error e)) s t ∧ (FallsBack env s.1.marker → warned t.2) := by
  apply runs_bind
  refine (runs_resolveRedroidImage env s).mono (fun image t _ ht => ?_) fun _ _ _ h => h.elim
  obtain ⟨hsets, rfl, hwarn⟩ := ht
  refine ((writes_afterwards env _ t).and (runs_named env _ t)).weaken (fun _ _ => trivial) |>.mono (fun _ u _ hu => ?_) fun e u _ hu => ?_
  · exact ⟨⟨(hsets.trans later_frame hu.1).mono (sets_story _ _ _), hu.2⟩, fun hf => Wrote.warned hu.1 (hwarn hf)⟩
  · exact ⟨(hsets.trans later_frame hu.1).mono (sets_story _ _ _), fun hf => Wrote.warned hu.1 (hwarn hf)⟩

/-- one boot, whatever the commands do -/
theorem main_outcome (env : GuestEnv) (m : Machine D) (d : Turn D) (turns : List (Turn D)) :
    Outcome env (resolvedImage env m.marker) ((main env).run.finish (recorded exec) d turns (m, [])).2.1
        ((main env).run.finish (recorded exec) d turns (m, [])).2.2 ((main env).run.finish (recorded exec) d turns (m, [])).1 ∧
      (FallsBack env m.marker → warned ((main env).run.finish (recorded exec) d turns (m, [])).2.2) := by
  have hruns := runs_main (P := fun _ => True) env (m, [])
  rcases hruns.finish d trivial turns fun _ _ => trivial with ⟨x, hx, ⟨hwrote, hnamed⟩, hwarn⟩ | ⟨e, he, hwrote, hwarn⟩
  · obtain ⟨l, hl, heq⟩ := hwrote.log
    rw [hx, heq, List.nil_append]
    exact ⟨⟨hl, fun _ => story_ready _ _ hl, fun h => absurd rfl h, fun _ => hnamed⟩, fun hf => by simpa [heq] using hwarn hf⟩
  · obtain ⟨l, hl, heq⟩ := hwrote.log
    rw [he, heq, List.nil_append]
    exact ⟨⟨hl, fun h => (nomatch h), fun _ => story_closed _ _ e hl, fun h => (nomatch h)⟩, fun hf => by simpa [heq] using hwarn hf⟩

end Beetroot.Vm.GuestInit
