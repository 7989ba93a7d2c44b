/-
The paths in the command line, as QEMU reads them.

`build_qemu_argv` writes the path of the disk into the value of `-drive` and the path of the monitor socket into the value of
`-monitor`, as they are. Both values are option texts, where a comma ends a value and an `=` ends a key, and neither character is
escaped. A comma in the path of the disk cuts it, and what stands behind the comma is read as further options.

Results:
- `valuesOf_drive`, `valuesOf_monitor`: which values QEMU takes from the command line;
- `parse_drive_iff`, `parse_monitor_iff`: when they say what the launch says;
- `paths_faithful_iff`: both, for every launch;
- `comma_cuts_drive`: a rootfs with a comma in its path.
-/
import Beetroot.Lib.Options
import Beetroot.Vm.Qemu

namespace Beetroot.Vm

open Lib Lib.Fs Lib.Options

/-! ## The command line, read by QEMU -/

/-- the flags of ours that QEMU takes no value for -/
def noValue : List String := ["-nographic", "-no-reboot"]

/-- the options of a command line behind the name of the binary, each with its value -/
def commandOptions : List String → List (String × Option String)
  | [] => []
  | [arg] => [(arg, none)]
  | arg :: val :: args =>
    if arg ∈ noValue then (arg, none) :: commandOptions (val :: args) else (arg, some val) :: commandOptions args

/-- the values of an option -/
def valuesOf (opt : String) (argv : List String) : List String :=
  (commandOptions argv.tail).filterMap fun o => if o.1 = opt then o.2 else none

/-- the value of `-drive` -/
def parseDrive (text : String) : List (List Char × List Char) := parse none text.toList

/-- the value of `-monitor`: a socket, the path of which is written without its key -/
def parseMonitor (text : String) : Option (List (List Char × List Char)) :=
  if "unix:".toList <+: text.toList then some (parse (some "path".toList) (text.toList.drop 5)) else none

/-! ## What is meant -/

/-- the options of the root drive -/
def driveOptions (rootfs : String) (format : DiskFormat) (cache : Option String) : List (List Char × List Char) :=
  [("file".toList, rootfs.toList),
    ("format".toList, match format with
      | .raw => "raw".toList
      | .qcow2 => "qcow2".toList),
    ("if".toList, "virtio".toList)] ++ (cache.map fun c => ("cache".toList, c.toList)).toList

/-- the options of the monitor: a listening socket that nobody has to be connected to -/
def monitorOptions (monitor : String) : List (List Char × List Char) :=
  [("path".toList, monitor.toList), ("server".toList, "on".toList), ("wait".toList, "off".toList)]

/-- QEMU takes one disk and the monitor, if there is one, from the command line, with the options that are meant -/
def PathsFaithful (str : Path → String) (l : Launch) : Prop :=
  (valuesOf "-drive" (buildQemuArgv str l)).map parseDrive = [driveOptions (str l.rootfs) l.diskFormat l.diskCache] ∧
  (valuesOf "-monitor" (buildQemuArgv str l)).map parseMonitor =
    (l.monitorSocket.map fun m => some (monitorOptions (str m))).toList

theorem commandOptions_buildQemuArgv (str : Path → String) (l : Launch) : ∃ accel cpu,
    commandOptions (buildQemuArgv str l).tail =
      [("-M", some "q35"), ("-accel", some accel), ("-cpu", some cpu), ("-smp", some (toString l.smp)),
        ("-m", some (toString l.memoryMib)), ("-nographic", none), ("-display", some "none"), ("-no-reboot", none),
        ("-kernel", some (str l.kernel)), ("-drive", some (driveValue (str l.rootfs) l.diskFormat l.diskCache)),
        ("-netdev", some ("user,id=net0," ++ hostfwd l.hostAdbPort ++ ":5555")),
        ("-device", some "virtio-net-pci,netdev=net0")] ++
      (l.monitorSocket.map fun m => ("-monitor", some (monitorValue (str m)))).toList ++
      (l.loadvm.map fun tag => ("-loadvm", some tag)).toList ++
      [("-append", some "console=ttyS0 root=/dev/vda rw init=/init panic=1 mitigations=off")] := by
  rw [buildQemuArgv]
  cases l.accel with
  | kvm =>
    refine ⟨"kvm", "host", ?_⟩
    cases l.monitorSocket with
    | none =>
      cases l.loadvm with
      | none => rfl
      | some tag => rfl
    | some m =>
      cases l.loadvm with
      | none => rfl
      | some tag => rfl
  | tcg =>
    refine ⟨"tcg,thread=multi,tb-size=1024", "max", ?_⟩
    cases l.monitorSocket with
    | none =>
      cases l.loadvm with
      | none => rfl
      | some tag => rfl
    | some m =>
      cases l.loadvm with
      | none => rfl
      | some tag => rfl

theorem valuesOf_drive (str : Path → String) (l : Launch) :
    valuesOf "-drive" (buildQemuArgv str l) = [driveValue (str l.rootfs) l.diskFormat l.diskCache] := by
  obtain ⟨accel, cpu, hargv⟩ := commandOptions_buildQemuArgv str l
  rw [valuesOf, hargv]
  cases l.monitorSocket with
  | none =>
    cases l.loadvm with
    | none => simp
    | some tag => simp
  | some m =>
    cases l.loadvm with
    | none => simp
    | some tag => simp

theorem valuesOf_monitor (str : Path → String) (l : Launch) :
    valuesOf "-monitor" (buildQemuArgv str l) = (l.monitorSocket.map fun m => monitorValue (str m)).toList := by
  obtain ⟨accel, cpu, hargv⟩ := commandOptions_buildQemuArgv str l
  rw [valuesOf, hargv]
  cases l.monitorSocket with
  | none =>
    cases l.loadvm with
    | none => simp
    | some tag => simp
  | some m =>
    cases l.loadvm with
    | none => simp
    | some tag => simp

/-! ## The drive -/

/-- the options behind the path -/
def furtherOptions (format : List Char) (cache : Option (List Char)) : List Char :=
  "format=".toList ++ format ++ ',' :: ("if=virtio".toList ++ (cache.map fun c => ",cache=".toList ++ c).getD [])

theorem driveValue_toList (rootfs : String) (format : DiskFormat) (cache : Option String) : ∃ f, ',' ∉ f ∧
    (driveValue rootfs format cache).toList =
      "file".toList ++ '=' :: (rootfs.toList ++ ',' :: furtherOptions f (cache.map String.toList)) ∧
    driveOptions rootfs format cache = ("file".toList, rootfs.toList) :: ([("format".toList, f), ("if".toList, "virtio".toList)] ++
      ((cache.map String.toList).map fun c => ("cache".toList, c)).toList) := by
  unfold furtherOptions
  cases format with
  | raw =>
    refine ⟨"raw".toList, by decide, ?_⟩
    cases cache with
    | none => simp [driveValue, driveOptions]
    | some c => simp [driveValue, driveOptions]
  | qcow2 =>
    refine ⟨"qcow2".toList, by decide, ?_⟩
    cases cache with
    | none => simp [driveValue, driveOptions]
    | some c => simp [driveValue, driveOptions]

/-- a value at the end of the text -/
theorem parse_last_iff {key : List Char} (hkey : key.all inKey = true) (v : List Char) :
    parse none (key ++ '=' :: v) = [(key, v)] ↔ ',' ∉ v := by
  rw [parse_cons none (by simp), option_named none hkey]
  refine ⟨fun h => ?_, fun h => ?_⟩
  · rw [List.cons.injEq, Prod.mk.injEq] at h
    exact value_whole_iff.1 h.1.2
  · rw [value_whole h, parse_nil]

/-- a value with further options behind it that are read as they are meant -/
theorem parse_named {key v : List Char} (hkey : key.all inKey = true) (hv : ',' ∉ v) {cs : List Char}
    (hcs : cs.head? ≠ some ',') : parse none (key ++ '=' :: (v ++ ',' :: cs)) = (key, v) :: parse none cs := by
  rw [parse_cons none (by simp), option_named none hkey, value_until hv hcs]

theorem parse_further {f : List Char} (hf : ',' ∉ f) (cache : Option (List Char)) :
    parse none (furtherOptions f cache) = [("format".toList, f), ("if".toList, "virtio".toList)] ++
        (cache.map fun c => ("cache".toList, c)).toList ↔ ∀ c ∈ cache, ',' ∉ c := by
  have hformat : ∀ rest : List Char, (("if=virtio".toList) ++ rest).head? ≠ some ',' := by simp
  have hsplit : furtherOptions f cache =
      "format".toList ++ '=' :: (f ++ ',' :: ("if=virtio".toList ++ (cache.map fun c => ",cache=".toList ++ c).getD [])) := by
    unfold furtherOptions
    simp
  rw [hsplit, parse_named (by decide) hf (hformat _), List.cons_append, List.cons.injEq]
  cases cache with
  | none =>
    have hvirtio : parse none "if=virtio".toList = [("if".toList, "virtio".toList)] := by decide
    simpa using hvirtio
  | some c =>
    have hif : "if=virtio".toList ++ ",cache=".toList ++ c =
        "if".toList ++ '=' :: ("virtio".toList ++ ',' :: ("cache".toList ++ '=' :: c)) := by simp
    have hcache : ("cache".toList ++ '=' :: c).head? ≠ some ',' := by simp
    rw [Option.map_some, Option.getD_some, ← List.append_assoc, hif, parse_named (by decide) (by decide) hcache]
    have hlast : parse none ("cache".toList ++ '=' :: c) = [("cache".toList, c)] ↔ ',' ∉ c := parse_last_iff (by decide) c
    simpa using hlast

theorem parse_drive_iff (rootfs : String) (format : DiskFormat) (cache : Option String) :
    parseDrive (driveValue rootfs format cache) = driveOptions rootfs format cache ↔
      ',' ∉ rootfs.toList ∧ ∀ c ∈ cache, ',' ∉ c.toList := by
  obtain ⟨f, hf, htext, hopts⟩ := driveValue_toList rootfs format cache
  have hfurther := parse_further hf (cache.map String.toList)
  have hhead : ("format=".toList ++ f ++ ',' :: ("if=virtio".toList ++
      ((cache.map String.toList).map fun c => ",cache=".toList ++ c).getD [])).head? ≠ some ',' := by simp
  have hy : ',' ∉ "format=".toList ++ f := by simpa using hf
  have hne : "format=".toList ++ f ≠ [] := by simp
  have hcache : (∀ c ∈ cache.map String.toList, ',' ∉ c) ↔ ∀ c ∈ cache, ',' ∉ c.toList := by
    cases cache with
    | none => simp
    | some c => simp
  rw [parseDrive, htext, hopts, parse_cons none (by simp), option_named none (by decide)]
  unfold furtherOptions at hfurther ⊢
  refine ⟨fun h => ?_, fun h => ?_⟩
  · rw [List.cons.injEq, Prod.mk.injEq] at h
    have hroot : ',' ∉ rootfs.toList := (value_exact hy hne (by simp)).1 h.1.2
    refine ⟨hroot, hcache.1 (hfurther.1 ?_)⟩
    rw [value_until hroot hhead] at h
    exact h.2
  · rw [value_until h.1 hhead, hfurther.2 (hcache.2 h.2)]

/-! ## The monitor -/

theorem head_key_eq {m : List Char} (hcomma : ',' ∉ m) (heq : '=' ∈ m) (cs : List Char) :
    ((m ++ cs).dropWhile inKey).head? = some '=' := by
  induction m with
  | nil => exact absurd heq List.not_mem_nil
  | cons c m ih =>
    have hc : c ≠ ',' := fun he => hcomma (he ▸ List.mem_cons_self)
    by_cases he : c = '='
    · simp [he, inKey]
    · have hkey : inKey c = true := by simp [inKey, he, hc]
      rw [List.cons_append, List.dropWhile_cons, if_pos hkey]
      exact ih (fun hm => hcomma (List.mem_cons_of_mem _ hm)) ((List.mem_cons.1 heq).resolve_left (Ne.symm he))

/-- where the key in front of a text with a comma behind it ends at an `=`, that is one of the text -/
theorem split_of_head_eq {m cs : List Char} (h : ((m ++ ',' :: cs).dropWhile inKey).head? = some '=') :
    ∃ key m', key.all inKey = true ∧ m = key ++ '=' :: m' := by
  induction m with
  | nil => exact absurd h (by simp [inKey])
  | cons c m ih =>
    by_cases hc : inKey c = true
    · rw [List.cons_append, List.dropWhile_cons, if_pos hc] at h
      obtain ⟨key, m', hkey, rfl⟩ := ih h
      refine ⟨c :: key, m', ?_, rfl⟩
      rw [List.all_cons, hc, hkey, Bool.and_self]
    · rw [List.cons_append, List.dropWhile_cons, if_neg hc] at h
      exact ⟨[], m, rfl, by rw [Option.some.inj h]; rfl⟩

theorem parse_monitor_iff (m : String) :
    parseMonitor (monitorValue m) = some (monitorOptions m) ↔ ',' ∉ m.toList ∧ '=' ∉ m.toList := by
  have htext : (monitorValue m).toList = "unix:".toList ++ (m.toList ++ ',' :: ("server".toList ++ ',' :: "nowait".toList)) := by
    simp [monitorValue]
  have hdrop : (monitorValue m).toList.drop 5 = m.toList ++ ',' :: ("server".toList ++ ',' :: "nowait".toList) := by
    rw [htext]
    simp
  have hflags : parse none ("server".toList ++ ',' :: "nowait".toList) =
      [("server".toList, "on".toList), ("wait".toList, "off".toList)] := by decide
  have hne : m.toList ++ ',' :: ("server".toList ++ ',' :: "nowait".toList) ≠ [] := by simp
  rw [parseMonitor, if_pos (htext ▸ List.prefix_append _ _), hdrop, Option.some_inj, monitorOptions, parse_cons _ hne]
  refine ⟨fun h => ?_, fun h => ?_⟩
  · have hval := congrArg Prod.snd (List.cons.inj h).1
    by_cases heq : ((m.toList ++ ',' :: ("server".toList ++ ',' :: "nowait".toList)).dropWhile inKey).head? = some '='
    · -- the path is cut at its first `=`, and what is left is too short
      obtain ⟨key, m', hkey, hm⟩ := split_of_head_eq heq
      rw [hm, List.append_assoc, List.cons_append, option_named _ hkey] at hval
      dsimp only at hval
      rcases value_reach (y := "server".toList) (z := "nowait".toList) (by decide) (by decide) (by decide) m' with
        ⟨hle, -⟩ | ⟨hlast, hsuffix⟩
      · rw [hval] at hle
        simp only [List.length_append, List.length_cons] at hle
        omega
      · rw [hval] at hsuffix
        exfalso
        apply last_ne_comma (by decide) (by decide) hsuffix
        rw [List.getLast?_append, List.getLast?_cons, hlast]
        rfl
    · have hfirst : option (some "path".toList) (m.toList ++ ',' :: ("server".toList ++ ',' :: "nowait".toList)) =
          (("path".toList, (value (m.toList ++ ',' :: ("server".toList ++ ',' :: "nowait".toList))).1),
            (value (m.toList ++ ',' :: ("server".toList ++ ',' :: "nowait".toList))).2) := by simp only [option, heq, if_false]
      rw [hfirst] at hval
      have hcomma : ',' ∉ m.toList := (value_exact (by decide) (by decide) (by decide)).1 hval
      exact ⟨hcomma, fun hm => heq (head_key_eq hcomma hm _)⟩
  · rw [option_first _ h.2, value_until h.1 (by decide), hflags]

/-! ## Launches -/

/-- QEMU takes the paths of a launch as they are, and no option from them, exactly when no path of a disk has a comma and no path
of a monitor socket a comma or an `=` -/
theorem paths_faithful_iff (str : Path → String) (l : Launch) : PathsFaithful str l ↔
    (',' ∉ (str l.rootfs).toList ∧ ∀ c ∈ l.diskCache, ',' ∉ c.toList) ∧
      ∀ m ∈ l.monitorSocket, ',' ∉ (str m).toList ∧ '=' ∉ (str m).toList := by
  have hmonitor : (l.monitorSocket.map fun m => monitorValue (str m)).toList.map parseMonitor =
      (l.monitorSocket.map fun m => some (monitorOptions (str m))).toList ↔
        ∀ m ∈ l.monitorSocket, ',' ∉ (str m).toList ∧ '=' ∉ (str m).toList := by
    cases l.monitorSocket with
    | none => simp
    | some m => simpa using parse_monitor_iff (str m)
  rw [PathsFaithful, valuesOf_drive, valuesOf_monitor, hmonitor, List.map_cons, List.map_nil, List.cons.injEq,
    parse_drive_iff, and_iff_left rfl]

/-- a plain launch on this disk -/
def plainLaunch (rootfs : Path) : Launch where
  qemuBin := "qemu-system-x86_64"
  accel := .tcg
  kernel := ["bzImage"]
  rootfs := rootfs
  smp := 2
  memoryMib := 2048
  hostAdbPort := 5555

/-- the image `a,b.img` is opened as `a`, and `b.img` is read as a flag -/
theorem comma_cuts_drive : ¬ PathsFaithful (fun p => "/" ++ "/".intercalate p) (plainLaunch ["a,b.img"]) := by
  rw [PathsFaithful, valuesOf_drive, List.map_cons, List.map_nil, List.cons.injEq, parse_drive_iff]
  decide

end Beetroot.Vm
