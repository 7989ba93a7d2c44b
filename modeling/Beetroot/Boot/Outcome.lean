/-
How a boot configuration of the container can end.

The scripts say of themselves that they never abort the boot once the settings are written. Three commands of `magisk-env.sh` are
not guarded, though: a failure of `mkdir`, `rm` or the copy of a script ends the boot before the modules are flashed.

Results:
- `rowValue_zygiskRow`: what the expansion `${ROW##*=}` makes of a row;
- `runs_awaitMagisk`, `runs_magiskConfig`: when the scripts give up by themselves;
- `boot_outcome`: an aborted boot has one of three causes and has flashed and launched nothing; any other one has seen no critical
  command fail, and has tried each module once, in order, and launched Frida if there is one.
-/
import Beetroot.Boot.Scripts

namespace Beetroot.Boot

open Lib Lib.Prog Lib.Script Lib.Fs Lib.Shell Beetroot.Config

/-! ## What a log says -/

def installed : Cmd → Option Path
  | .install zip => some zip
  | _ => none

def launched : Cmd → Option Path
  | .launch p => some p
  | _ => none

def installs (l : Log Cmd) : List Path := l.filterMap fun e => installed e.1

def launches (l : Log Cmd) : List Path := l.filterMap fun e => launched e.1

def probe : Cmd × Bool → Option Bool
  | (.select1, ok) => some ok
  | _ => none

/-- the attempts to reach the daemon -/
def probes (l : Log Cmd) : List Bool := l.filterMap probe

@[simp] theorem installs_append (l m : Log Cmd) : installs (l ++ m) = installs l ++ installs m := List.filterMap_append

@[simp] theorem launches_append (l m : Log Cmd) : launches (l ++ m) = launches l ++ launches m := List.filterMap_append

@[simp] theorem probes_append (l m : Log Cmd) : probes (l ++ m) = probes l ++ probes m := List.filterMap_append

@[simp] theorem installs_logged (c : Choice) (a : Cmd) (s : Phone × Log Cmd) :
    installs (logged exec c a s).2.2 = installs s.2 ++ (installed a).toList := by
  change installs (s.2 ++ [(a, _)]) = _
  rw [installs_append]
  cases a <;> rfl

@[simp] theorem launches_logged (c : Choice) (a : Cmd) (s : Phone × Log Cmd) :
    launches (logged exec c a s).2.2 = launches s.2 ++ (launched a).toList := by
  change launches (s.2 ++ [(a, _)]) = _
  rw [launches_append]
  cases a <;> rfl

theorem quiet_log {l : Log Cmd} (h : Within quiet l) : installs l = [] ∧ launches l = [] := by
  constructor
  · refine List.filterMap_eq_nil_iff.2 fun e he => ?_
    obtain ⟨a, ok⟩ := e
    have ha : quiet a = true := h _ he
    cases a with
    | install zip => cases ha
    | _ => rfl
  · refine List.filterMap_eq_nil_iff.2 fun e he => ?_
    obtain ⟨a, ok⟩ := e
    have ha : quiet a = true := h _ he
    cases a with
    | launch p => cases ha
    | _ => rfl

theorem looking_log {l : Log Cmd} (h : Within looking l) : probes l = [] := by
  refine List.filterMap_eq_nil_iff.2 fun e he => ?_
  obtain ⟨a, ok⟩ := e
  have ha : looking a = true := h _ he
  cases a with
  | select1 => cases ha
  | _ => rfl

/-! ## The row of a setting -/

/-- the value that is read from the table is `1` exactly if the setting is -/
theorem rowValue_zygiskRow (s : Phone) : rowValue (zygiskRow s) = ['1'] ↔ s.zygisk = some 1 := by
  unfold zygiskRow
  cases s.zygisk with
  | none => simp [rowValue, cutLongestPrefix, restAfterLast, endsWith]
  | some n =>
    have hdigits : '=' ∉ (toString n).toList := by
      intro h
      rcases Search.mem_toString h with h | h
      · cases h
      · exact absurd h (by decide)
    have hvalue : rowValue ("value=".toList ++ (toString n).toList) = (toString n).toList :=
      cutLongestPrefix_through hdigits "value".toList
    rw [hvalue, Option.some.injEq]
    constructor
    · intro h
      exact Search.toString_inj (String.toList_inj.1 h)
    · intro h
      rw [h]
      rfl

/-! ## What the commands keep -/

theorem effect_keeps {I : Phone → Prop} {c : Choice} {possible : Bool} {s t : Phone} (hs : I s) (ht : I t) :
    I (effect c possible s t).2 := by
  unfold effect
  split_ifs
  · cases c with
    | succeeds => exact ht
    | fails => exact hs
    | silent => exact hs
  · exact hs

theorem exec_selectZygisk (c : Choice) (s : Phone) : (exec c .selectZygisk s).2 = s := by
  unfold exec
  split_ifs <;> rfl

/-- a read that succeeds prints the row -/
theorem exec_selectZygisk_ok {c : Choice} {s : Phone} (h : (exec c .selectZygisk s).1.ok = true) :
    (exec c .selectZygisk s).1 = ⟨true, { text := zygiskRow s }⟩ := by
  simp only [exec] at h ⊢
  split_ifs at h ⊢
  · rfl
  · cases h

theorem exec_zygisk {c : Choice} {a : Cmd} {s : Phone} (h : s.zygisk = some 1) : (exec c a s).2.zygisk = some 1 := by
  cases a with
  | selectZygisk => rw [exec_selectZygisk, h]
  | replaceZygisk => exact effect_keeps (I := fun s => s.zygisk = some 1) h rfl
  | _ => first | exact h | exact effect_keeps (I := fun s => s.zygisk = some 1) h h

theorem exec_done {c : Choice} {a : Cmd} {s : Phone} (ha : quiet a = true) : (exec c a s).2.done = s.done := by
  cases a with
  | wait => cases ha
  | selectZygisk => rw [exec_selectZygisk]
  | _ => first | rfl | exact effect_keeps (I := fun t => t.done = s.done) rfl rfl

/-! ## When the scripts give up -/

/-- what is known when `magisk-config.sh` ends the boot itself, `probed` being the attempts before it -/
def GaveUp (env : Env) (probed : List Bool) (e : Stop Cmd Exit) (t : Phone × Log Cmd) : Prop :=
  match e with
  | .failed _ => True
  | .exit .unreachable => ∃ n, env.waitSecs = some n ∧ probes t.2 = probed ++ List.replicate (max 1 n.toNat) false
  | .exit .waiting => env.waitSecs = none ∧ probes t.2 = probed ++ List.replicate (env.patience + 1) false
  | .exit (.notPersisted value) => value ≠ ['1'] ∧ t.1.zygisk ≠ some 1

section Runs

variable {P : Choice → Prop} (env : Env)

/-- the daemon has not answered `n` times -/
def Unanswered (limit : Exit) (probed : List Bool) (n : ℕ) (e : Stop Cmd Exit) (t : Phone × Log Cmd) : Prop :=
  match e with
  | .failed _ => True
  | .exit e => e = limit ∧ probes t.2 = probed ++ List.replicate n false

theorem runs_awaitMagisk (limit : Exit) (left : ℕ) (s : Phone × Log Cmd) :
    Runs (logged exec) P (fun _ => True) (awaitMagisk limit left) s (fun _ _ => True)
      (Unanswered limit (probes s.2) (left + 1)) := by
  induction left generalizing s with
  | zero =>
    apply runs_ifOk trivial
    intro c _
    split_ifs with hok
    · exact runs_pure trivial trivial
    · apply runs_throw trivial
      refine ⟨rfl, ?_⟩
      change probes (s.2 ++ [(Cmd.select1, (exec c .select1 s.1).1.ok)]) = _
      rw [Bool.eq_false_iff.2 hok, probes_append]
      rfl
  | succ left ih =>
    apply runs_ifOk trivial
    intro c _
    split_ifs with hok
    · exact runs_pure trivial trivial
    · apply runs_bind
      refine runs_run trivial fun c' _ => ⟨trivial, ?_⟩
      split_ifs with hsleep
      · refine (ih _).mono (fun _ _ _ h => h) fun e t _ h => ?_
        cases e with
        | failed a => trivial
        | exit e =>
          have hprobes : probes (logged exec c' .sleep (logged exec c .select1 s).2).2.2 = probes s.2 ++ [false] := by
            change probes ((s.2 ++ [(Cmd.select1, (exec c .select1 s.1).1.ok)]) ++ [(Cmd.sleep, _)]) = _
            rw [Bool.eq_false_iff.2 hok, probes_append, probes_append]
            exact List.append_nil _
          obtain ⟨he, hall⟩ := h
          refine ⟨he, ?_⟩
          rw [hall, hprobes, List.append_assoc, List.replicate_succ (n := left + 1)]
          rfl
      · trivial

/-- a script that keeps the setting and does not give up by itself -/
theorem runs_settled {allowed : Cmd → Bool} {α : Type} {p : Shell α} (h : Disciplined critical allowed stays p.run)
    {s : Phone × Log Cmd} (hs : s.1.zygisk = some 1) :
    Runs (logged exec) P (fun _ => True) p s (fun _ t => t.1.zygisk = some 1) fun e _ => ∃ a, e = .failed a := by
  have hkept : Runs (logged exec) P (fun t => t.1.zygisk = some 1) p s (fun _ t => t.1.zygisk = some 1)
      fun _ t => t.1.zygisk = some 1 :=
    h.keeps (J := fun t : Phone => t.zygisk = some 1) (fun _ _ _ _ hs => exec_zygisk hs) hs
  refine ((hkept.and (h.runs s)).weaken fun _ _ => trivial).mono (fun _ _ _ h => h.1) fun e t _ h => ?_
  cases e with
  | failed a => exact ⟨a, rfl⟩
  | exit e =>
    obtain ⟨-, l, -, -, hexit, -⟩ := h
    cases hexit

theorem gaveUp_of_wait {probed : List Bool} {e : Exit} {t : Phone × Log Cmd}
    (h : Unanswered env.wait.2 probed (env.wait.1 - 1 + 1) (.exit e) t) : GaveUp env probed (.exit e) t := by
  obtain ⟨rfl, hprobes⟩ := h
  unfold Env.wait at hprobes ⊢
  cases hwait : env.waitSecs with
  | none =>
    rw [hwait] at hprobes
    exact ⟨hwait, hprobes⟩
  | some n =>
    rw [hwait] at hprobes
    have hmax : max 1 n.toNat - 1 + 1 = max 1 n.toNat := by omega
    rw [hmax] at hprobes
    exact ⟨n, hwait, hprobes⟩

/-- a configuration that comes through has found the setting in the table -/
theorem runs_magiskConfig (s : Phone × Log Cmd) :
    Runs (logged exec) P (fun _ => True) (magiskConfig env) s (fun _ t => t.1.zygisk = some 1)
      (GaveUp env (probes s.2)) := by
  apply runs_bind
  refine (runs_awaitMagisk env.wait.2 (env.wait.1 - 1) s).mono ?_ ?_
  · intro _ t _ _
    apply runs_bind
    refine runs_must trivial fun c _ => ⟨trivial, ?_⟩
    split_ifs
    swap
    · trivial
    apply runs_bind
    refine runs_run trivial fun c₁ _ => ⟨trivial, ?_⟩
    split_ifs
    swap
    · trivial
    apply runs_bind
    refine runs_run trivial fun c₂ _ => ⟨trivial, ?_⟩
    split_ifs
    swap
    · trivial
    apply runs_bind
    refine runs_must trivial fun c₃ _ => ⟨trivial, ?_⟩
    generalize (logged exec c₂ .replaceDenylist _).2 = u
    by_cases hok : (exec c₃ .selectZygisk u.1).1.ok = true
    swap
    · rw [if_neg hok]
      trivial
    rw [if_pos hok, exec_selectZygisk_ok hok]
    have hsame : (logged exec c₃ .selectZygisk u).2.1 = u.1 := exec_selectZygisk c₃ u.1
    split_ifs with hvalue
    · apply runs_throw trivial
      refine ⟨hvalue, ?_⟩
      rw [hsame]
      exact fun h => hvalue ((rowValue_zygiskRow u.1).2 h)
    · have hone : (logged exec c₃ .selectZygisk u).2.1.zygisk = some 1 := by
        rw [hsame]
        exact (rowValue_zygiskRow u.1).1 (not_not.1 hvalue)
      apply runs_bind
      refine (runs_settled (disciplined_enrol env _) hone).mono (fun _ v _ hv => runs_pure trivial hv) fun e v _ h => ?_
      obtain ⟨a, rfl⟩ := h
      trivial
  · intro e t _ h
    cases e with
    | failed a => trivial
    | exit e => exact gaveUp_of_wait env h

/-- what the scripts up to `magisk-env.sh` leave alone -/
def Untouched (s t : Phone × Log Cmd) : Prop :=
  installs t.2 = installs s.2 ∧ launches t.2 = launches s.2 ∧ t.1.done = s.1.done

theorem runs_quiet {exits : Exit → Bool} {α : Type} {p : Shell α} (h : Disciplined critical quiet exits p.run)
    (s : Phone × Log Cmd) :
    Runs (logged exec) P (fun _ => True) p s (fun _ t => Untouched s t) fun _ t => Untouched s t := by
  have hdone : Runs (logged exec) P (fun t => t.1.done = s.1.done) p s (fun _ t => t.1.done = s.1.done)
      fun _ t => t.1.done = s.1.done :=
    h.keeps (J := fun t : Phone => t.done = s.1.done) (fun c a t ha ht => (exec_done ha).trans ht) rfl
  have hlog : ∀ {t : Phone × Log Cmd} {l : Log Cmd}, t.2 = s.2 ++ l → Within quiet l →
      installs t.2 = installs s.2 ∧ launches t.2 = launches s.2 := by
    intro t l ht hl
    obtain ⟨hinstalls, hlaunches⟩ := quiet_log hl
    rw [ht, installs_append, launches_append, hinstalls, hlaunches, List.append_nil, List.append_nil]
    exact ⟨rfl, rfl⟩
  refine ((h.runs s).and hdone).weaken (fun _ _ => trivial) |>.mono ?_ ?_
  · intro x t _ ht
    obtain ⟨⟨l, htl, hl, -⟩, ht⟩ := ht
    exact ⟨(hlog htl hl).1, (hlog htl hl).2, ht⟩
  · intro e t _ ht
    obtain ⟨⟨l, htl, hl, -⟩, ht⟩ := ht
    exact ⟨(hlog htl hl).1, (hlog htl hl).2, ht⟩

/-! ## The modules and Frida -/

theorem runs_installModules (dir : Path) (zips : List String) (s : Phone × Log Cmd) :
    Runs (logged exec) P (fun _ => True) (installModules dir zips) s
      (fun _ t => t.1 = s.1 ∧ launches t.2 = launches s.2 ∧
        installs t.2 = installs s.2 ++ (zips.filter fun z => Fs.isFile s.1.files (dir ++ [z])).map fun z => dir ++ [z])
      fun _ _ => False := by
  induction zips generalizing s with
  | nil => exact runs_pure trivial ⟨rfl, rfl, (List.append_nil _).symm⟩
  | cons zip zips ih =>
    apply runs_bind
    apply runs_ifOk trivial
    intro c _
    change Runs _ _ _ (if Fs.isFile s.1.files (dir ++ [zip]) then _ else _) _ _ _
    split_ifs with hfile
    · refine runs_attempt trivial fun c' _ => ⟨trivial, ?_⟩
      generalize hu : (logged exec c (.isFile (dir ++ [zip])) s).2 = u
      have husame : u.1 = s.1 := by rw [← hu]; rfl
      have hsame : (logged exec c' (.install (dir ++ [zip])) u).2.1 = s.1 :=
        (effect_keeps (I := fun t => t = u.1) rfl rfl).trans husame
      refine (ih _).mono (fun _ t _ h => ?_) fun _ _ _ h => h
      obtain ⟨hstate, hlaunches, hinstalls⟩ := h
      refine ⟨hstate.trans hsame, ?_, ?_⟩
      · rw [hlaunches, launches_logged, ← hu, launches_logged]
        simp [launched]
      · rw [hinstalls, hsame, installs_logged, ← hu, installs_logged, List.filter_cons, if_pos hfile, List.map_cons]
        simp [installed]
    · refine runs_pure trivial ((ih _).mono (fun _ t _ h => ?_) fun _ _ _ h => h)
      obtain ⟨hstate, hlaunches, hinstalls⟩ := h
      refine ⟨hstate, ?_, ?_⟩
      · rw [hlaunches, launches_logged]
        simp [launched]
      · rw [hinstalls, installs_logged, List.filter_cons, if_neg hfile]
        simp only [installed, Option.toList_none, List.append_nil]
        rfl

/-- the modules in the order in which they are tried -/
def moduleZips (env : Env) (s : Phone) : List Path :=
  if Fs.isDir s.files env.modulesDir then
    ((s.matching env.modulesDir ".zip").filter fun z => Fs.isFile s.files (env.modulesDir ++ [z])).map
      fun z => env.modulesDir ++ [z]
  else []

/-- what the pattern names and is a file -/
theorem mem_filter_matching {s : Phone} {dir : Path} {suffix name : String} (hstar : isMatch suffix ("*" ++ suffix) = true) :
    (name ∈ s.matching dir suffix ∧ Fs.isFile s.files (dir ++ [name]) = true) ↔
      isMatch suffix name = true ∧ Fs.isFile s.files (dir ++ [name]) = true := by
  have hlisted : Fs.isFile s.files (dir ++ [name]) = true → isMatch suffix name = true →
      name ∈ (listdir s.files dir).filter (isMatch suffix) := by
    intro hfile hmatch
    exact List.mem_filter.2 ⟨mem_listdir.2 (present_of_isFile hfile), hmatch⟩
  apply and_congr_left
  intro hfile
  unfold Phone.matching
  simp only
  split_ifs with hnone
  · constructor
    · intro h
      rw [List.mem_singleton.1 h]
      exact hstar
    · intro h
      have hmem := hlisted hfile h
      rw [hnone] at hmem
      cases hmem
  · constructor
    · intro h
      exact (List.mem_filter.1 h).2
    · intro h
      exact hlisted hfile h

theorem nodup_matching (s : Phone) (dir : Path) (suffix : String) : (s.matching dir suffix).Nodup := by
  unfold Phone.matching
  simp only
  split_ifs
  · exact List.nodup_singleton _
  · exact (nodup_listdir _ _).filter _

theorem mem_moduleZips {s : Phone} {p : Path} : p ∈ moduleZips env s ↔ Fs.isDir s.files env.modulesDir = true ∧
    ∃ name, p = env.modulesDir ++ [name] ∧ isMatch ".zip" name = true ∧ Fs.isFile s.files p = true := by
  have hstar : isMatch ".zip" ("*" ++ ".zip") = true := by decide
  unfold moduleZips
  split_ifs with hdir
  · rw [List.mem_map]
    constructor
    · intro h
      obtain ⟨name, hname, rfl⟩ := h
      rw [List.mem_filter] at hname
      obtain ⟨hmatch, hfile⟩ := (mem_filter_matching hstar).1 hname
      exact ⟨hdir, name, rfl, hmatch, hfile⟩
    · intro h
      obtain ⟨-, name, rfl, hmatch, hfile⟩ := h
      exact ⟨name, List.mem_filter.2 ((mem_filter_matching hstar).2 ⟨hmatch, hfile⟩), rfl⟩
  · simp [hdir]

theorem moduleZips_congr {s t : Phone} (h : s.files = t.files) : moduleZips env s = moduleZips env t := by
  unfold moduleZips Phone.matching
  rw [h]

theorem nodup_moduleZips (s : Phone) : (moduleZips env s).Nodup := by
  unfold moduleZips
  split_ifs
  · refine ((nodup_matching s _ _).filter _).map ?_
    intro x y h
    exact List.singleton_inj.1 (List.append_cancel_left h)
  · exact List.nodup_nil

theorem runs_flashModules (s : Phone × Log Cmd) :
    Runs (logged exec) P (fun _ => True) (flashModules env) s
      (fun _ t => t.1 = s.1 ∧ launches t.2 = launches s.2 ∧ installs t.2 = installs s.2 ++ moduleZips env s.1)
      fun _ _ => False := by
  apply runs_ifOk trivial
  intro c _
  change Runs _ _ _ (if Fs.isDir s.1.files env.modulesDir then _ else _) _ _ _
  split_ifs with hdir
  · apply runs_bind
    refine runs_output trivial fun c' _ => ⟨trivial, ?_⟩
    refine (runs_installModules _ _ _).mono (fun _ t _ h => ?_) fun _ _ _ h => h
    obtain ⟨hstate, hlaunches, hinstalls⟩ := h
    refine ⟨hstate, ?_, ?_⟩
    · rw [hlaunches, launches_logged, launches_logged]
      simp [launched]
    · rw [hinstalls, installs_logged, installs_logged, moduleZips, if_pos hdir]
      simp only [installed, Option.toList_none, List.append_nil]
      rfl
  · refine runs_pure trivial ⟨rfl, ?_, ?_⟩
    · rw [launches_logged]
      simp [launched]
    · rw [installs_logged, moduleZips, if_neg hdir]
      simp [installed]

theorem runs_activateZygisk (newly : Option String) (s : Phone × Log Cmd) :
    Runs (logged exec) P (fun _ => True) (activateZygisk env newly) s
      (fun _ t => t.1.files = s.1.files ∧ t.1.zygisk = s.1.zygisk ∧ launches t.2 = launches s.2 ∧ installs t.2 = installs s.2)
      fun _ _ => False := by
  unfold activateZygisk
  split_ifs
  · exact runs_pure trivial ⟨rfl, rfl, rfl, rfl⟩
  · exact runs_pure trivial ⟨rfl, rfl, rfl, rfl⟩
  · refine runs_attempt trivial fun c _ => ⟨trivial, ?_, ?_, ?_, ?_⟩
    · exact effect_keeps (I := fun t => t.files = s.1.files) rfl rfl
    · exact effect_keeps (I := fun t => t.zygisk = s.1.zygisk) rfl rfl
    · rw [launches_logged]
      simp [launched]
    · rw [installs_logged]
      simp [installed]

def fridas (s : Phone) : List Path := if executable s env.fridaBin || Fs.isDir s.files env.fridaBin then [env.fridaBin] else []

theorem runs_launchFrida (s : Phone × Log Cmd) :
    Runs (logged exec) P (fun _ => True) (launchFrida env) s
      (fun _ t => t.1 = s.1 ∧ launches t.2 = launches s.2 ++ fridas env s.1 ∧ installs t.2 = installs s.2)
      fun _ _ => False := by
  apply runs_ifOk trivial
  intro c _
  change Runs _ _ _ (if executable s.1 env.fridaBin || Fs.isDir s.1.files env.fridaBin then _ else _) _ _ _
  unfold fridas
  split_ifs with hexec
  · refine runs_attempt trivial fun c' _ => ⟨trivial, rfl, ?_, ?_⟩
    · rw [launches_logged, launches_logged]
      simp [launched]
    · rw [installs_logged, installs_logged]
      simp [installed]
  · refine runs_pure trivial ⟨rfl, ?_, ?_⟩
    · rw [launches_logged]
      simp [launched]
    · rw [installs_logged]
      simp [installed]

/-- a configuration that has come through -/
structure Configured (env : Env) (s t : Phone × Log Cmd) : Prop where
  zygisk : t.1.zygisk = some 1
  done : t.1.done = true
  installs : installs t.2 = installs s.2 ++ moduleZips env t.1
  launches : launches t.2 = launches s.2 ++ fridas env t.1

theorem Untouched.trans {s t u : Phone × Log Cmd} (h : Untouched s t) (h' : Untouched t u) : Untouched s u :=
  ⟨h'.1.trans h.1, h'.2.1.trans h.2.1, h'.2.2.trans h.2.2⟩

theorem runs_magiskPath (s : Phone × Log Cmd) :
    Runs (logged exec) P (fun _ => True) (magiskPath env) s (fun _ t => Untouched s t ∧ probes t.2 = probes s.2)
      fun _ _ => False := by
  have hquiet := runs_quiet (P := P) ((disciplined_magiskPath env).mono quiet_of_looking fun _ h => h) s
  refine ((hquiet.and ((disciplined_magiskPath env).runs s)).weaken fun _ _ => trivial).mono (fun _ t _ h => ?_)
    fun e t _ h => ?_
  · obtain ⟨huntouched, l, hlog, hl, -⟩ := h
    rw [hlog, probes_append, looking_log hl, List.append_nil]
    exact ⟨huntouched, rfl⟩
  · obtain ⟨-, l, -, hl, hcause⟩ := h
    cases e with
    | failed a =>
      obtain ⟨hcritical, l', rfl, -⟩ := hcause
      have hallowed : looking a = true := hl (a, false) (List.mem_append_right _ (List.mem_singleton.2 rfl))
      cases a <;> contradiction
    | exit e => cases hcause.1

/-- where the configuration ends early, nothing has been flashed or launched -/
theorem runs_entrypoint (s : Phone × Log Cmd) :
    Runs (logged exec) P (fun _ => True) (entrypoint env) s (fun _ t => Configured env s t)
      fun e t => Untouched s t ∧ GaveUp env (probes s.2) e t := by
  apply runs_bind
  refine (runs_magiskPath env s).mono (fun _ t₁ _ h₁ => ?_) fun _ _ _ h => h.elim
  obtain ⟨hu₁, hprobes⟩ := h₁
  apply runs_bind
  refine (((runs_magiskConfig env t₁).and (runs_quiet (disciplined_magiskConfig env) t₁)).weaken fun _ _ => trivial).mono
    (fun newly t₂ _ h₂ => ?_) fun e t _ h => ⟨hu₁.trans h.2, by rw [← hprobes]; exact h.1⟩
  obtain ⟨hone₂, hu₂⟩ := h₂
  apply runs_bind
  refine (((runs_settled (disciplined_magiskEnv env) hone₂).and (runs_quiet ((disciplined_magiskEnv env).mono quiet_of_populating fun _ h => h) t₂)).weaken
    fun _ _ => trivial).mono (fun _ t₃ _ h₃ => ?_) fun e t _ h => ?_
  swap
  · obtain ⟨⟨a, rfl⟩, hu⟩ := h
    exact ⟨(hu₁.trans hu₂).trans hu, trivial⟩
  obtain ⟨hone₃, hu₃⟩ := h₃
  obtain ⟨hinstalls, hlaunches, -⟩ := (hu₁.trans hu₂).trans hu₃
  apply runs_bind
  refine (runs_flashModules env t₃).mono (fun _ t₄ _ h₄ => ?_) fun _ _ _ h => h.elim
  obtain ⟨hstate₄, hlaunches₄, hinstalls₄⟩ := h₄
  apply runs_bind
  refine (runs_activateZygisk env newly t₄).mono (fun _ t₅ _ h₅ => ?_) fun _ _ _ h => h.elim
  obtain ⟨hfiles₅, hzygisk₅, hlaunches₅, hinstalls₅⟩ := h₅
  apply runs_bind
  refine (runs_launchFrida env t₅).mono (fun _ t₆ _ h₆ => ?_) fun _ _ _ h => h.elim
  obtain ⟨hstate₆, hlaunches₆, hinstalls₆⟩ := h₆
  have hfiles : t₃.1.files = t₆.1.files := by rw [hstate₆, hfiles₅, hstate₄]
  refine runs_attempt trivial fun c _ => ⟨trivial, ?_, rfl, ?_, ?_⟩
  · change t₆.1.zygisk = some 1
    rw [hstate₆, hzygisk₅, hstate₄]
    exact hone₃
  · rw [installs_logged, hinstalls₆, hinstalls₅, hinstalls₄, hinstalls]
    change _ ++ [] = _ ++ moduleZips env t₆.1
    rw [List.append_nil, moduleZips_congr env hfiles]
  · rw [launches_logged, hlaunches₆, hlaunches₅, hlaunches₄, hlaunches]
    change _ ++ [] = _ ++ fridas env t₆.1
    rw [List.append_nil, hstate₆]

end Runs

/-- how a configuration of the phone `s` ends, with the commands `l` behind it -/
def Outcome (env : Env) (s : Phone) (l : Log Cmd) (t : Phone) : Except (Stop Cmd Exit) Unit → Prop
  | .ok () => Clean critical l ∧ t.zygisk = some 1 ∧ t.done = true ∧ installs l = moduleZips env t ∧ (installs l).Nodup ∧
    (∀ zip, zip ∈ installs l ↔ Fs.isDir t.files env.modulesDir = true ∧
      ∃ name, zip = env.modulesDir ++ [name] ∧ isMatch ".zip" name = true ∧ Fs.isFile t.files zip = true) ∧
    launches l = if executable t env.fridaBin || Fs.isDir t.files env.fridaBin then [env.fridaBin] else []
  | .error e => installs l = [] ∧ launches l = [] ∧ t.done = s.done ∧
    match e with
    | .failed a => critical a = true ∧ ∃ l', l = l' ++ [(a, false)] ∧ Clean critical l'
    | .exit .unreachable => Clean critical l ∧
      ∃ n, env.waitSecs = some n ∧ probes l = List.replicate (max 1 n.toNat) false
    | .exit .waiting => Clean critical l ∧ env.waitSecs = none ∧ probes l = List.replicate (env.patience + 1) false
    | .exit (.notPersisted value) => Clean critical l ∧ value ≠ ['1'] ∧ t.zygisk ≠ some 1

theorem boot_outcome (env : Env) (s : Phone) (d : Choice) (cs : List Choice) :
    Outcome env s ((entrypoint env).run.finish (logged exec) d cs (s, [])).2.2
      ((entrypoint env).run.finish (logged exec) d cs (s, [])).2.1
      ((entrypoint env).run.finish (logged exec) d cs (s, [])).1 := by
  have hruns := (runs_entrypoint (P := fun _ => True) env (s, [])).and ((disciplined_entrypoint env).runs (s, []))
  have hfinish := hruns.finish d trivial cs fun _ _ => trivial
  generalize (entrypoint env).run.finish (logged exec) d cs (s, []) = r at hfinish ⊢
  obtain ⟨result, t, log⟩ := r
  rcases hfinish with ⟨x, hx, hconf, l, hl, -, hclean⟩ | ⟨e, he, ⟨hsame, hgave⟩, l, hl, -, hcause⟩
  · cases hx
    change log = [] ++ l at hl
    rw [List.nil_append] at hl
    subst hl
    have hinstalls : installs log = moduleZips env t := hconf.installs
    refine ⟨hclean, hconf.zygisk, hconf.done, hinstalls, ?_, fun zip => ?_, hconf.launches⟩
    · rw [hinstalls]
      exact nodup_moduleZips env t
    · rw [hinstalls]
      exact mem_moduleZips env
  · cases he
    change log = [] ++ l at hl
    rw [List.nil_append] at hl
    subst hl
    obtain ⟨hinstalls, hlaunches, hdone⟩ := hsame
    refine ⟨hinstalls, hlaunches, hdone, ?_⟩
    cases e with
    | failed a => exact hcause
    | exit e => cases e with
      | unreachable => exact ⟨hcause.2, hgave⟩
      | waiting => exact ⟨hcause.2, hgave⟩
      | notPersisted value => exact ⟨hcause.2, hgave⟩

end Beetroot.Boot
