/-
Recognising a running VM by its command line.

`_pid_is_qemu` reads `/proc/<pid>/cmdline`, the arguments with a NUL between them, and searches that text for `qemu-system` and
for the forward of the instance's ADB port. `build_qemu_argv` puts texts of the user into the same line: the binary, the paths
and the snapshot tag. So a VM can be missed, when none of them spells `qemu-system`, and can be taken for another instance's, when
one of them spells that instance's forward.

Results:
- `cmdlineIsQemu_cmdline`: the search over the flat text finds what the search over the arguments finds;
- `names_buildQemuArgv`: the fixed arguments hold neither text, so that only the user's texts and the port decide;
- `recognised_iff_own_port`: exactly when a launch is recognised under its own port and no other;
- `kvm_unrecognised`: the binary `/usr/libexec/qemu-kvm` is not.
-/
import Beetroot.Lib.Search
import Beetroot.Vm.Qemu

namespace Beetroot.Vm

open Lib Lib.Fs

/-! ## The text of a command line -/

/-- `/proc/<pid>/cmdline` of a process with these arguments -/
def cmdline (argv : List String) : String := String.ofList (['\x00'].intercalate (argv.map String.toList))

/-- `token in text` -/
def occurs (token text : String) : Bool := token.toList <:+: text.toList

/-- `_pid_is_qemu` on the text it has read -/
def cmdlineIsQemu (hostAdbPort : Option Int) (cmdline : String) : Bool :=
  let namesQemu := occurs "qemu-system" cmdline
  match hostAdbPort with
  | none => namesQemu
  | some port => namesQemu && occurs (hostfwd port) cmdline

/-- the texts of a launch that are the user's -/
def Launch.texts (str : Path → String) (l : Launch) : List String :=
  [l.qemuBin, str l.kernel, str l.rootfs] ++ l.diskCache.toList ++ (l.monitorSocket.map str).toList ++ l.loadvm.toList

theorem occurs_cmdline {token : String} (hnul : '\x00' ∉ token.toList) (hne : token.toList ≠ []) (argv : List String) :
    occurs token (cmdline argv) = names token argv := by
  rw [Bool.eq_iff_iff, names, List.any_eq_true, occurs, decide_eq_true_iff, cmdline, String.toList_ofList,
    Search.infix_joined hnul hne]
  simp only [List.mem_map, exists_exists_and_eq_and, decide_eq_true_eq]

theorem mem_hostfwd {port : Int} {d : Char} (h : d ∈ (hostfwd port).toList) :
    d ∈ "hostfwd=tcp:127.0.0.1:".toList ∨ d = '-' ∨ d.isDigit = true := by
  unfold hostfwd at h
  simp only [String.toList_append, List.mem_append] at h
  rcases h with (h | h) | h
  · exact .inl h
  · exact .inr (Search.mem_toString h)
  · exact .inr (.inl (List.mem_singleton.1 h))

theorem comma_hostfwd (port : Int) : ',' ∉ (hostfwd port).toList := by
  intro h
  rcases mem_hostfwd h with h | h | h
  · exact absurd h (by decide)
  · exact absurd h (by decide)
  · exact absurd h (by decide)

theorem nul_hostfwd (port : Int) : '\x00' ∉ (hostfwd port).toList := by
  intro h
  rcases mem_hostfwd h with h | h | h
  · exact absurd h (by decide)
  · exact absurd h (by decide)
  · exact absurd h (by decide)

theorem hostfwd_toList (port : Int) :
    (hostfwd port).toList = "hostfwd=".toList ++ ("tcp:127.0.0.1:".toList ++ (toString port).toList ++ ['-']) := by
  have hhead : "hostfwd=tcp:127.0.0.1:".toList = "hostfwd=".toList ++ "tcp:127.0.0.1:".toList := by decide
  have hdash : "-".toList = ['-'] := by decide
  unfold hostfwd
  simp only [String.toList_append, hhead, hdash, List.append_assoc]

/-- the flat text says what the arguments say -/
theorem cmdlineIsQemu_cmdline (port : Option Int) (argv : List String) :
    cmdlineIsQemu port (cmdline argv) = namesUs port argv := by
  have hqemu : occurs "qemu-system" (cmdline argv) = names "qemu-system" argv :=
    occurs_cmdline (by decide) (by decide) argv
  cases port with
  | none => simp [cmdlineIsQemu, namesUs, hqemu]
  | some port =>
    have hne : (hostfwd port).toList ≠ [] := by rw [hostfwd_toList]; exact List.cons_ne_nil _ _
    simp only [cmdlineIsQemu, namesUs, hqemu, occurs_cmdline (nul_hostfwd port) hne]

/-! ## What the arguments hold -/

/-- how the texts that are searched for start -/
def starts : List (List Char) := ["qemu-system".toList, "hostfwd=".toList]

/-- the arguments that do not depend on the launch, and the pieces between two commas of those that do -/
def fixedArgs : List String :=
  ["-M", "q35", "-accel", "kvm", "-cpu", "host", "tcg,thread=multi,tb-size=1024", "max", "-smp", "-m", "-nographic", "-display",
    "none", "-no-reboot", "-kernel", "-drive", "-netdev", "-device", "virtio-net-pci,netdev=net0", "-monitor", "-loadvm",
    "-append", "console=ttyS0 root=/dev/vda rw init=/init panic=1 mitigations=off", "format=raw", "format=qcow2", "if=virtio",
    "server,nowait", "user,id=net0"]

section Token

variable {v w : List Char} {token : String} (htoken : token.toList = v ++ w) (hv : v ∈ starts) (hcomma : ',' ∉ token.toList)

include htoken hv

theorem fixedArgs_clear {arg : String} (harg : arg ∈ fixedArgs) : occurs token arg = false := by
  have hclear : ∀ v ∈ starts, ∀ arg ∈ fixedArgs, ¬ v <:+: arg.toList := by decide +kernel
  rw [occurs, decide_eq_false_iff_not, htoken]
  intro h
  exact hclear v hv arg harg ((List.prefix_append v w).isInfix.trans h)

theorem number_clear (n : Int) : occurs token (toString n) = false := by
  rw [occurs, decide_eq_false_iff_not, htoken]
  intro h
  have hletter : ∀ v ∈ starts, (v.any fun c => c ≠ '-' && !c.isDigit) = true := by decide
  obtain ⟨c, hc, hboth⟩ := List.any_eq_true.1 (hletter v hv)
  obtain ⟨hsign, hdigit⟩ : c ≠ '-' ∧ c.isDigit = false := by simpa using hboth
  rcases Search.mem_toString (h.subset (List.mem_append_left w hc)) with he | he
  · exact hsign he
  · rw [hdigit] at he
    exact Bool.false_ne_true he

/-- a text of the user behind a fixed piece -/
theorem occurs_after {front : String} (hfront : front ∈ ["file=", "cache=", "unix:"]) (text : String) :
    occurs token (front ++ text) = occurs token text := by
  have hclear : ∀ v ∈ starts, ∀ front ∈ ["file=", "cache=", "unix:"],
      front.toList.length ≤ v.length ∧ ∀ s ∈ front.toList.tails, s <+: v → s = [] := by decide
  obtain ⟨hlen, hends⟩ := hclear v hv front hfront
  rw [occurs, occurs, String.toList_append, htoken, Bool.eq_iff_iff, decide_eq_true_iff, decide_eq_true_iff,
    Search.infix_after hlen hends]

include hcomma

theorem occurs_comma (a b : String) : occurs token (a ++ "," ++ b) = (occurs token a || occurs token b) := by
  have hne : token.toList ≠ [] := by
    have hstart : ∀ v ∈ starts, v ≠ [] := by decide
    rw [htoken]
    exact List.append_ne_nil_of_left_ne_nil (hstart v hv) w
  have hjoin : (a ++ "," ++ b).toList = a.toList ++ ',' :: b.toList := by
    simp only [String.toList_append, List.append_assoc]
    rfl
  rw [occurs, hjoin, Bool.eq_iff_iff, Bool.or_eq_true, occurs, occurs, decide_eq_true_iff, decide_eq_true_iff,
    decide_eq_true_iff, Search.infix_sep hcomma hne]

theorem occurs_drive (rootfs : String) (format : DiskFormat) (cache : Option String) :
    occurs token (driveValue rootfs format cache) = (occurs token rootfs || cache.any (occurs token)) := by
  have hformat : ∀ text ∈ ["format=raw", "format=qcow2"], ∀ rest,
      occurs token ("file=" ++ (rootfs ++ "," ++ (text ++ "," ++ rest))) = (occurs token rootfs || occurs token rest) := by
    intro text htext rest
    have hfixed : text ∈ fixedArgs := by
      have hall : ∀ text ∈ ["format=raw", "format=qcow2"], text ∈ fixedArgs := by decide
      exact hall text htext
    rw [occurs_after htoken hv (by decide), occurs_comma htoken hv hcomma, occurs_comma htoken hv hcomma,
      fixedArgs_clear htoken hv hfixed, Bool.false_or]
  have hrest : ∀ cache : Option String, occurs token ("if=virtio" ++ (cache.map fun c => ",cache=" ++ c).getD "") =
      cache.any (occurs token) := by
    intro cache
    cases cache with
    | none => exact fixedArgs_clear htoken hv (by decide)
    | some c =>
      have htext : "if=virtio" ++ (",cache=" ++ c) = "if=virtio" ++ "," ++ ("cache=" ++ c) := by
        rw [← String.toList_inj]
        simp
      rw [Option.map_some, Option.getD_some, htext, occurs_comma htoken hv hcomma, fixedArgs_clear htoken hv (by decide),
        occurs_after htoken hv (by decide), Bool.false_or, Option.any_some]
  have htext : ∃ text ∈ ["format=raw", "format=qcow2"], driveValue rootfs format cache =
      "file=" ++ (rootfs ++ "," ++ (text ++ "," ++ ("if=virtio" ++ (cache.map fun c => ",cache=" ++ c).getD ""))) := by
    cases format with
    | raw =>
      refine ⟨"format=raw", by decide, ?_⟩
      rw [← String.toList_inj]
      simp [driveValue]
    | qcow2 =>
      refine ⟨"format=qcow2", by decide, ?_⟩
      rw [← String.toList_inj]
      simp [driveValue]
  obtain ⟨text, htext, heq⟩ := htext
  rw [heq, hformat text htext, hrest]

theorem occurs_monitor (m : String) : occurs token (monitorValue m) = occurs token m := by
  have htext : monitorValue m = "unix:" ++ (m ++ "," ++ "server,nowait") := by
    rw [← String.toList_inj]
    simp [monitorValue]
  have hfixed : occurs token "server,nowait" = false := fixedArgs_clear htoken hv (by decide)
  rw [htext, occurs_after htoken hv (by decide), occurs_comma htoken hv hcomma, hfixed, Bool.or_false]

/-- only the user's texts and the forward of the port are of account -/
theorem names_buildQemuArgv (str : Path → String) (l : Launch) : names token (buildQemuArgv str l) =
    (names token (l.texts str) || occurs token ("user,id=net0," ++ hostfwd l.hostAdbPort ++ ":5555")) := by
  have hfixed : ∀ arg ∈ fixedArgs, occurs token arg = false := fun arg harg => fixedArgs_clear htoken hv harg
  have hnames : ∀ args, names token args = args.any (occurs token) := fun _ => rfl
  have hmonitor : ((l.monitorSocket.map fun m => ["-monitor", monitorValue (str m)]).getD []).any (occurs token) =
      (l.monitorSocket.map str).any (occurs token) := by
    cases l.monitorSocket with
    | none => rfl
    | some m => simp [hfixed "-monitor" (by decide), occurs_monitor htoken hv hcomma]
  have hloadvm : ((l.loadvm.map fun tag => ["-loadvm", tag]).getD []).any (occurs token) = l.loadvm.any (occurs token) := by
    cases l.loadvm with
    | none => rfl
    | some tag => simp [hfixed "-loadvm" (by decide)]
  have haccel : (accelArgs l.accel).any (occurs token) = false := by
    rw [List.any_eq_false]
    intro arg harg
    have hall : ∀ a : ResolvedAccel, ∀ arg ∈ accelArgs a, arg ∈ fixedArgs := by
      intro a
      cases a with
      | kvm => decide
      | tcg => decide
    rw [hfixed arg (hall l.accel arg harg)]
    exact Bool.false_ne_true
  have hlist : ∀ o : Option String, o.toList.any (occurs token) = o.any (occurs token) := by
    intro o
    cases o with
    | none => rfl
    | some x => simp
  rw [hnames, hnames, buildQemuArgv, Launch.texts]
  simp (disch := decide) only [List.any_append, List.any_cons, List.any_nil, haccel, hmonitor, hloadvm, hlist, hfixed,
    number_clear htoken hv, occurs_drive htoken hv hcomma, Bool.or_false, Bool.false_or]
  ac_rfl

end Token

/-! ## The forward of the port -/

theorem netdev_qemu (p : Int) : occurs "qemu-system" ("user,id=net0," ++ hostfwd p ++ ":5555") = false := by
  rw [occurs, decide_eq_false_iff_not]
  intro h
  have hq : 'q' ∈ ("user,id=net0," ++ hostfwd p ++ ":5555").toList := h.subset (by decide)
  simp only [String.toList_append, List.mem_append] at hq
  rcases hq with (hq | hq) | hq
  · exact absurd hq (by decide)
  · rcases mem_hostfwd hq with hq | hq | hq
    · exact absurd hq (by decide)
    · exact absurd hq (by decide)
    · exact absurd hq (by decide)
  · exact absurd hq (by decide)

theorem hostfwd_cons (port : Int) :
    (hostfwd port).toList = 'h' :: ("ostfwd=tcp:127.0.0.1:".toList ++ ((toString port).toList ++ ['-'])) := by
  rw [hostfwd_toList]
  simp

theorem h_not_mem_tail (port : Int) :
    'h' ∉ "ostfwd=tcp:127.0.0.1:".toList ++ ((toString port).toList ++ ['-']) ++ ":5555".toList := by
  have hnumber : 'h' ∉ (toString port).toList := by
    intro h
    rcases Search.mem_toString h with h | h
    · exact absurd h (by decide)
    · exact absurd h (by decide)
  simpa using hnumber

/-- the digits of a port end at the dash behind them -/
theorem port_eq_of_text {p q : Int} (hp : 0 ≤ p) (hq : 0 ≤ q) {rest : List Char}
    (h : (toString q).toList ++ ['-'] <+: (toString p).toList ++ '-' :: rest) : q = p := by
  obtain ⟨tail, htail⟩ := h
  rw [List.append_assoc, List.singleton_append] at htail
  have hdigits : (toString q).toList = (toString p).toList :=
    Search.append_sep_inj (Search.sign_not_mem_toString hq) (Search.sign_not_mem_toString hp) htail
  exact Search.toString_toList_inj hq hp hdigits

theorem netdev_hostfwd {p q : Int} (hp : 0 ≤ p) (hq : 0 ≤ q) :
    occurs (hostfwd q) ("user,id=net0," ++ hostfwd p ++ ":5555") = true ↔ p = q := by
  have hstart : "hostfwd=".toList ∈ starts := by decide
  have htext : "user,id=net0," ++ hostfwd p ++ ":5555" = "user,id=net0" ++ "," ++ (hostfwd p ++ ":5555") := by
    rw [← String.toList_inj]
    simp
  have hfixed : occurs (hostfwd q) "user,id=net0" = false := fixedArgs_clear (hostfwd_toList q) hstart (by decide)
  rw [htext, occurs_comma (hostfwd_toList q) hstart (comma_hostfwd q), hfixed, Bool.false_or, occurs, decide_eq_true_iff,
    String.toList_append]
  refine ⟨?_, ?_⟩
  · intro h
    -- no later character of the forward is an `h`, so that it is found at its start or not at all
    rw [hostfwd_cons, hostfwd_cons, List.cons_append, List.infix_cons_iff, List.cons_prefix_cons] at h
    rcases h with ⟨-, h⟩ | h
    · rw [List.append_assoc, List.prefix_append_right_inj, List.append_assoc] at h
      exact (port_eq_of_text hp hq h).symm
    · exact absurd (h.subset List.mem_cons_self) (h_not_mem_tail p)
  · rintro rfl
    exact List.infix_append_left

/-! ## Recognition -/

theorem recognised_iff (str : Path → String) (l : Launch) {q : Int} (hp : 0 ≤ l.hostAdbPort) (hq : 0 ≤ q) :
    cmdlineIsQemu (some q) (cmdline (buildQemuArgv str l)) = true ↔
      names "qemu-system" (l.texts str) = true ∧ (names (hostfwd q) (l.texts str) = true ∨ l.hostAdbPort = q) := by
  have hqemu : names "qemu-system" (buildQemuArgv str l) = names "qemu-system" (l.texts str) := by
    rw [names_buildQemuArgv (v := "qemu-system".toList) (w := []) (by decide) (by decide) (by decide), netdev_qemu,
      Bool.or_false]
  rw [cmdlineIsQemu_cmdline, namesUs, hqemu, Bool.and_eq_true,
    names_buildQemuArgv (hostfwd_toList q) (by decide) (comma_hostfwd q), Bool.or_eq_true, netdev_hostfwd hp hq]

/-- a launch is recognised under port `q` exactly when `q` is its port, if and only if: under its own port one of the user's texts
spells `qemu-system`, and under another port not both `qemu-system` and the forward of that port are spelled -/
theorem recognised_iff_own_port (str : Path → String) (l : Launch) (q : Int)
    (hp : 1 ≤ l.hostAdbPort ∧ l.hostAdbPort ≤ 65535) (hq : 1 ≤ q ∧ q ≤ 65535) :
    (cmdlineIsQemu (some q) (cmdline (buildQemuArgv str l)) = true ↔ l.hostAdbPort = q) ↔
      if l.hostAdbPort = q then names "qemu-system" (l.texts str) = true
      else ¬ (names "qemu-system" (l.texts str) = true ∧ names (hostfwd q) (l.texts str) = true) := by
  rw [recognised_iff str l (by omega) (by omega)]
  split_ifs with h
  · simp only [h, or_true, and_true, iff_true]
  · simp only [h, or_false, iff_false]

/-- the launch of an instance with the default binary and the images of the artifact cache -/
def sampleLaunch (qemuBin : String) (port : Int) : Launch where
  qemuBin := qemuBin
  accel := .kvm
  kernel := ["home", "user", "bzImage"]
  rootfs := ["home", "user", "rootfs.img"]
  smp := 4
  memoryMib := 4096
  hostAdbPort := port

theorem recognised_default_binary :
    (cmdlineIsQemu (some 5555) (cmdline (buildQemuArgv (fun p => "/" ++ "/".intercalate p)
        (sampleLaunch "qemu-system-x86_64" 5555))) = true ↔ (5555 : Int) = 5555) :=
  (recognised_iff_own_port _ (sampleLaunch "qemu-system-x86_64" 5555) 5555 (by decide) (by decide)).2 (by decide)

/-- the QEMU of some distributions is not called `qemu-system…`: a VM launched with it is not recognised at all -/
theorem kvm_unrecognised :
    ¬ (cmdlineIsQemu (some 5555) (cmdline (buildQemuArgv (fun p => "/" ++ "/".intercalate p)
        (sampleLaunch "/usr/libexec/qemu-kvm" 5555))) = true ↔ (sampleLaunch "/usr/libexec/qemu-kvm" 5555).hostAdbPort = 5555) := by
  rw [recognised_iff _ _ (by decide) (by decide)]
  decide

end Beetroot.Vm
