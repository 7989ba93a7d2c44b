/-
Do the host and the guest agree on the Android version that was baked?

`_RootfsAssembly.build` writes the image reference into the tree of the guest, and the major version of its tag beside the image.
`_major_version_from_image` looks for the tag behind the first colon of the reference. Its docstring says that the tag follows the
last one; a registry may have a port, or be an IPv6 address, and then there is an earlier colon.

An `ImageRef` is a reference with its parts. The other steps of the build are parameters: they may change anything but the two
markers, and they may raise. The writes of the markers go through.

Results:
- `majorVersionFromImage_eq`: the parser finds the version exactly if there is no colon before the tag, and raises otherwise;
- `build_spec`: every result of a build;
- `markers_agree_iff`: the references for which every build has both markers right;
- `registry_port_rejected`: a registry on this host, with its port.
-/
import Beetroot.Build.Marker
import Beetroot.Lib.Eff

namespace Beetroot.Build.Baked

open Lib Lib.Eff Config

/-! ## References -/

/-- a registry host; the grammar of the references has fewer of them -/
inductive Host where
  | name (text : List Char) (plain : ':' ∉ text)
  /-- an IPv6 address, in brackets -/
  | ipv6 (text : List Char) (plain : '.' ∉ text)

def Host.text : Host → List Char
  | .name text _ => text
  | .ipv6 text _ => '[' :: text ++ [']']

structure Registry where
  host : Host
  port : Option {digits : List Char // digits.all Char.isDigit = true}

def Registry.text (r : Registry) : List Char :=
  match r.port with
  | none => r.host.text
  | some port => r.host.text ++ ':' :: port.val

/-- `[host[:port]/]path:tag`, with a tag that is a major version, a dot and any text -/
structure ImageRef where
  registry : Option Registry
  path : List Char
  path_plain : ':' ∉ path
  major : List Char
  major_ne : major ≠ []
  major_digits : major.all Char.isDigit = true
  rest : List Char

namespace ImageRef

/-- what stands before the tag -/
def name (r : ImageRef) : List Char :=
  match r.registry with
  | none => r.path
  | some registry => registry.text ++ '/' :: r.path

def tag (r : ImageRef) : List Char := r.major ++ '.' :: r.rest

def text (r : ImageRef) : String := String.ofList (r.name ++ ':' :: r.tag)

/-- the major version of the tag -/
def version (r : ImageRef) : Int := (Nat.ofDigitChars 10 r.major 0 : ℕ)

end ImageRef

/-! ## The build -/

/-- the two markers, and everything else that a build works on -/
structure Site (R : Type) where
  rest : R
  /-- `/etc/beetroot/redroid-image` in the tree of the guest -/
  guest : Option (List Char)
  /-- the version marker beside the image -/
  host : Option (List Char)

inductive Fail (E : Type) where
  /-- a step that is a parameter has raised -/
  | step (e : E)
  /-- the `BootstrapError` of a guest marker that is missing or empty -/
  | noGuestMarker
  /-- the `BootstrapError` of `_major_version_from_image` -/
  | noMajor (image : String)

abbrev M (R E : Type) := EStateM (Fail E) (Site R)

/-- the steps of a build that do not work on the markers -/
structure Work (R E : Type) where
  fetchStaticBundle : EStateM E R Unit
  rootfsDirs : EStateM E R Unit
  stageBusybox : EStateM E R Unit
  stageDockerBinaries : EStateM E R Unit
  stageIptables : EStateM E R Unit
  stageSocat : EStateM E R Unit
  stageAdbprobe : EStateM E R Unit
  /-- the pull, or the tarball, and the staging dockerd -/
  stageDockerRoot : String → EStateM E R Unit
  copyDockerRoot : EStateM E R Unit
  installInit : EStateM E R Unit
  packImage : EStateM E R Unit

section Build

variable {R E : Type}

def perform (x : EStateM E R Unit) : M R E Unit := fun s =>
  match x s.rest with
  | .ok _ rest => .ok () { s with rest := rest }
  | .error e rest => .error (.step e) { s with rest := rest }

/-- `marker.write_text` of the guest marker -/
def writeGuestMarker (image : String) : M R E Unit := modify fun s => { s with guest := some (image.toList ++ ['\n']) }

/-- `_build_tree`, up to the guest marker -/
def stageTree (work : Work R E) (image : String) : M R E Unit := do
  perform work.rootfsDirs
  perform work.stageBusybox
  perform work.stageDockerBinaries
  perform work.stageIptables
  perform work.stageSocat
  perform work.stageAdbprobe
  perform (work.stageDockerRoot image)
  perform work.copyDockerRoot

/-- `_build_tree` -/
def buildTree (work : Work R E) (image : String) : M R E Unit := do
  stageTree work image
  writeGuestMarker image
  perform work.installInit

/-- `_verify_guest_image_marker` -/
def verifyGuestImageMarker : M R E Unit := fun s =>
  match s.guest with
  | none => .error .noGuestMarker s
  | some text => if Str.strip text = [] then .error .noGuestMarker s else .ok () s

/-- `_write_version_marker` -/
def writeVersionMarker (image : String) : M R E Unit := fun s =>
  match majorVersionFromImage image with
  | none => .error (.noMajor image) s
  | some baked => .ok () { s with host := some (markerText baked) }

/-- `_RootfsAssembly.build` -/
def build (work : Work R E) (image : String) : M R E Unit := do
  perform work.fetchStaticBundle
  buildTree work image
  verifyGuestImageMarker
  writeVersionMarker image
  perform work.packImage

end Build

/-- a marker is as it was, or has this text -/
def Untorn (old new : Option (List Char)) (text : List Char) : Prop := new = old ∨ new = some text

/-- a build that returns has written both markers; one that raises has raised in another step, and has written nothing else -/
def Agrees {R E : Type} (work : Work R E) (r : ImageRef) (s : Site R) : Prop :=
  match build work r.text s with
  | .ok _ t => t.guest = some (r.text.toList ++ ['\n']) ∧ t.host = some (markerText r.version)
  | .error (.step _) t =>
    Untorn s.guest t.guest (r.text.toList ++ ['\n']) ∧ Untorn s.host t.host (markerText r.version)
  | .error _ _ => False

/-! ## The parser -/

section Parser

/-- every character of a number is an underscore or a digit -/
theorem mem_of_digitsOk {b : Bool} {cs : List Char} (h : digitsOk b cs = true) : ∀ c ∈ cs, c = '_' ∨ isDecimal c = true := by
  induction cs generalizing b with
  | nil =>
    intro c hc
    cases hc
  | cons d cs ih =>
    rw [digitsOk] at h
    rw [List.forall_mem_cons]
    split_ifs at h with hd
    · exact ⟨.inl hd, ih (Bool.and_eq_true_iff.1 h).2⟩
    · exact ⟨.inr (Bool.and_eq_true_iff.1 h).1, ih (Bool.and_eq_true_iff.1 h).2⟩

theorem magnitude_none {cs : List Char} {c : Char} (hmem : c ∈ cs) (hunderscore : c ≠ '_') (hdigit : isDecimal c = false) :
    magnitude cs = none := by
  have hbad : ¬ digitsOk false cs = true := by
    intro hok
    rcases mem_of_digitsOk hok c hmem with h | h
    · exact hunderscore h
    · rw [hdigit] at h
      cases h
  simp [magnitude, hbad]

/-- a text with a slash or a bracket in it is no number -/
theorem pyInt_none {cs : List Char} {c : Char} (hmem : c ∈ cs) (hc : c = '/' ∨ c = ']') : pyInt cs = none := by
  have hspace : Str.isSpace c = false := by rcases hc with rfl | rfl <;> decide
  have hunderscore : c ≠ '_' := by rcases hc with rfl | rfl <;> decide
  have hdigit : isDecimal c = false := by rcases hc with rfl | rfl <;> decide
  have hstripped := Str.mem_strip hspace hmem
  have htail : ∀ d, d ≠ c → (Str.strip cs).head? = some d → c ∈ (Str.strip cs).tail := by
    intro d hne hhead
    cases hcs : Str.strip cs with
    | nil =>
      rw [hcs] at hhead
      cases hhead
    | cons e es =>
      rw [hcs] at hhead hstripped
      rcases List.mem_cons.1 hstripped with h | h
      · exact absurd (h.trans (Option.some.inj hhead)).symm hne
      · exact h
  simp only [pyInt]
  split_ifs with hminus hplus
  · rw [magnitude_none (htail '-' (by rcases hc with rfl | rfl <;> decide) hminus) hunderscore hdigit]
    rfl
  · rw [magnitude_none (htail '+' (by rcases hc with rfl | rfl <;> decide) hplus) hunderscore hdigit]
    rfl
  · rw [magnitude_none hstripped hunderscore hdigit]
    rfl

/-- digits are read as their number, up to the limit of `int` -/
theorem pyInt_digits {ds : List Char} (hne : ds ≠ []) (h : ∀ c ∈ ds, c.isDigit = true) :
    pyInt ds = if ds.length ≤ Str.maxStrDigits then some (Nat.ofDigitChars 10 ds 0 : Int) else none := by
  have hspace : ∀ c ∈ ds, Str.isSpace c = false := by
    intro c hc
    have hrange := digit_range (h c hc)
    simp [Str.isSpace]
    omega
  have hhead : ∀ c, c.isDigit = false → ds.head? ≠ some c := by
    intro c hc hh
    rw [h c (List.mem_of_mem_head? hh)] at hc
    cases hc
  have hfilter : ds.filter (· ≠ '_') = ds := by
    apply List.filter_eq_self.2
    intro c hc
    rw [decide_eq_true_eq]
    intro he
    have hdigit := h c hc
    rw [he] at hdigit
    exact absurd hdigit (by decide)
  simp only [pyInt, Str.strip_self hspace]
  rw [if_neg (hhead '-' (by decide)), if_neg (hhead '+' (by decide))]
  simp only [magnitude, hfilter, digitsOk_ascii h (.inr hne), true_and]
  split_ifs
  · rw [number_ascii h]
    rfl
  · rfl

variable (r : ImageRef)

/-- behind a colon that is not the one before the tag, a slash or a bracket comes before the first dot -/
theorem first_colon (h : ':' ∈ r.name) : ∃ front digits c rest, r.name ++ ':' :: r.tag = front ++ ':' :: (digits ++ c :: rest) ∧
    ':' ∉ front ∧ '.' ∉ digits ∧ (c = '/' ∨ c = ']') := by
  have hport : ∀ port : {digits : List Char // digits.all Char.isDigit = true}, '.' ∉ port.val := by
    intro port hmem
    exact absurd (List.all_eq_true.1 port.property _ hmem) (by decide)
  cases hregistry : r.registry with
  | none =>
    rw [ImageRef.name, hregistry] at h
    exact absurd h r.path_plain
  | some registry =>
    obtain ⟨host, port⟩ := registry
    rw [ImageRef.name, hregistry] at h ⊢
    cases host with
    | name text plain =>
      cases port with
      | none =>
        simp only [Registry.text, Host.text, List.mem_append, List.mem_cons, r.path_plain, plain, or_false, false_or] at h
        exact absurd h (by decide)
      | some port =>
        refine ⟨text, port.val, '/', r.path ++ ':' :: r.tag, ?_, plain, hport port, .inl rfl⟩
        simp [Registry.text, Host.text]
    | ipv6 text plain =>
      by_cases hcolon : ':' ∈ text
      · -- a colon of the address, with the bracket behind it
        obtain ⟨front, back, rfl, hfront⟩ := List.eq_append_cons_of_mem hcolon
        have hback : '.' ∉ back := fun hmem => plain (List.mem_append_right _ (List.mem_cons_of_mem _ hmem))
        have hopen : ':' ∉ '[' :: front := by simpa using hfront
        cases port with
        | none =>
          refine ⟨'[' :: front, back, ']', '/' :: (r.path ++ ':' :: r.tag), ?_, hopen, hback, .inr rfl⟩
          simp [Registry.text, Host.text]
        | some port =>
          refine ⟨'[' :: front, back, ']', ':' :: (port.val ++ '/' :: (r.path ++ ':' :: r.tag)), ?_, hopen, hback, .inr rfl⟩
          simp [Registry.text, Host.text]
      · cases port with
        | none =>
          simp only [Registry.text, Host.text, List.mem_append, List.mem_cons, List.not_mem_nil, r.path_plain, hcolon,
            or_false] at h
          exact absurd h (by decide)
        | some port =>
          refine ⟨'[' :: text ++ [']'], port.val, '/', r.path ++ ':' :: r.tag, ?_, ?_, hport port, .inl rfl⟩
          · simp [Registry.text, Host.text]
          · simpa using hcolon

/-- the parser finds the version exactly if the first colon of the reference is the one before the tag -/
theorem majorVersionFromImage_eq : majorVersionFromImage r.text =
    if ':' ∉ r.name ∧ r.major.length ≤ Str.maxStrDigits then some r.version else none := by
  simp only [majorVersionFromImage, ImageRef.text, String.toList_ofList]
  by_cases h : ':' ∈ r.name
  · obtain ⟨front, digits, c, rest, htext, hfront, hdigits, hc⟩ := first_colon r h
    have hmem : c ∈ ((digits ++ c :: rest).takeWhile (· ≠ '.')) := by
      rw [Search.takeWhile_until hdigits, List.takeWhile_cons_of_pos (by rcases hc with rfl | rfl <;> decide)]
      exact List.mem_append_right _ List.mem_cons_self
    rw [htext, Search.dropWhile_until hfront, List.tail_cons, pyInt_none hmem hc, if_neg]
    exact fun hcond => hcond.1 h
  · have hall : ∀ c ∈ r.major, c.isDigit = true := List.all_eq_true.1 r.major_digits
    have hdot : '.' ∉ r.major := by
      intro hmem
      exact absurd (hall _ hmem) (by decide)
    have hleading : r.tag.takeWhile (· ≠ '.') = r.major := by
      rw [ImageRef.tag, Search.takeWhile_until hdot, List.takeWhile_cons_of_neg (by simp), List.append_nil]
    calc pyInt (((r.name ++ ':' :: r.tag).dropWhile (· ≠ ':')).tail.takeWhile (· ≠ '.'))
        = pyInt (r.tag.takeWhile (· ≠ '.')) := by rw [Search.dropWhile_until h, List.tail_cons]
      _ = pyInt r.major := by rw [hleading]
      _ = if r.major.length ≤ Str.maxStrDigits then some r.version else none := pyInt_digits r.major_ne hall
      _ = _ := by simp only [h, not_false_iff, true_and]

end Parser

/-! ## Every build -/

section Outcomes

variable {R E : Type} {image : String}

/-- the program returns, or raises in a step that is a parameter, and the markers stay -/
def Quiet (x : M R E Unit) : Prop :=
  ∀ s, (∃ t, x s = .ok () t ∧ t.guest = s.guest ∧ t.host = s.host) ∨
    ∃ e t, x s = .error (.step e) t ∧ t.guest = s.guest ∧ t.host = s.host

theorem quiet_perform (x : EStateM E R Unit) : Quiet (perform x) := by
  intro s
  unfold perform
  cases x s.rest with
  | ok u rest => exact .inl ⟨_, rfl, rfl, rfl⟩
  | error e rest => exact .inr ⟨e, _, rfl, rfl, rfl⟩

theorem Quiet.bind {x y : M R E Unit} (hx : Quiet x) (hy : Quiet y) : Quiet (x >>= fun _ => y) := by
  intro s
  rcases hx s with ⟨t, hrun, hguest, hhost⟩ | ⟨e, t, hrun, hmarkers⟩
  · rw [bind_of_ok hrun, ← hguest, ← hhost]
    exact hy t
  · exact .inr ⟨e, t, bind_error_iff.2 (.inl hrun), hmarkers⟩

theorem quiet_stageTree (work : Work R E) (image : String) : Quiet (stageTree work image) := by
  unfold stageTree
  apply (quiet_perform _).bind
  apply (quiet_perform _).bind
  apply (quiet_perform _).bind
  apply (quiet_perform _).bind
  apply (quiet_perform _).bind
  apply (quiet_perform _).bind
  exact (quiet_perform _).bind (quiet_perform _)

/-- the guest marker that was written is not empty -/
theorem verify_ok {s : Site R} {c : Char} (hguest : s.guest = some (image.toList ++ ['\n'])) (hc : c ∈ image.toList)
    (hspace : Str.isSpace c = false) : (verifyGuestImageMarker : M R E Unit) s = .ok () s := by
  have hmem := Str.mem_strip hspace (List.mem_append_left ['\n'] hc)
  have hne : Str.strip (image.toList ++ ['\n']) ≠ [] := List.ne_nil_of_mem hmem
  simp only [verifyGuestImageMarker, hguest, if_neg hne]

/-- a build of an image whose name is not blank -/
theorem build_spec (work : Work R E) (s : Site R) {c : Char} (hc : c ∈ image.toList) (hspace : Str.isSpace c = false) :
    (∃ e t, build work image s = .error (.step e) t ∧ Untorn s.guest t.guest (image.toList ++ ['\n']) ∧
      (t.host = s.host ∨ ∃ v, majorVersionFromImage image = some v ∧ t.host = some (markerText v))) ∨
    (majorVersionFromImage image = none ∧ ∃ t, build work image s = .error (.noMajor image) t) ∨
    ∃ v t, majorVersionFromImage image = some v ∧ build work image s = .ok () t ∧ t.guest = some (image.toList ++ ['\n']) ∧
      t.host = some (markerText v) := by
  have hrun : build work image s = ((perform work.fetchStaticBundle >>= fun _ => stageTree work image) >>= fun _ =>
      writeGuestMarker image >>= fun _ => perform work.installInit >>= fun _ => verifyGuestImageMarker >>= fun _ =>
        writeVersionMarker image >>= fun _ => perform work.packImage) s := by
    unfold build buildTree
    simp only [bind_assoc]
  rw [hrun]
  rcases (quiet_perform work.fetchStaticBundle).bind (quiet_stageTree work image) s with
    ⟨t, hstage, -, hhost⟩ | ⟨e, t, hstage, hguest, hhost⟩
  · rw [bind_of_ok hstage]
    have hwrite : (writeGuestMarker image : M R E Unit) t = .ok () { t with guest := some (image.toList ++ ['\n']) } := rfl
    rw [bind_of_ok hwrite]
    rcases quiet_perform work.installInit { t with guest := some (image.toList ++ ['\n']) } with
      ⟨u, hinit, hguest', hhost'⟩ | ⟨e, u, hinit, hguest', hhost'⟩
    · rw [bind_of_ok hinit, bind_of_ok (verify_ok hguest' hc hspace)]
      cases hmajor : majorVersionFromImage image with
      | none =>
        have hmark : (writeVersionMarker image : M R E Unit) u = .error (.noMajor image) u := by
          simp only [writeVersionMarker, hmajor]
        exact .inr (.inl ⟨rfl, u, bind_error_iff.2 (.inl hmark)⟩)
      | some v =>
        have hmark : (writeVersionMarker image : M R E Unit) u = .ok () { u with host := some (markerText v) } := by
          simp only [writeVersionMarker, hmajor]
        rw [bind_of_ok hmark]
        rcases quiet_perform work.packImage { u with host := some (markerText v) } with
          ⟨x, hpack, hguest'', hhost''⟩ | ⟨e, x, hpack, hguest'', hhost''⟩
        · exact .inr (.inr ⟨v, x, rfl, hpack, hguest''.trans hguest', hhost''⟩)
        · exact .inl ⟨e, x, hpack, .inr (hguest''.trans hguest'), .inr ⟨v, rfl, hhost''⟩⟩
    · exact .inl ⟨e, u, bind_error_iff.2 (.inl hinit), .inr hguest', .inl (hhost'.trans hhost)⟩
  · exact .inl ⟨e, t, bind_error_iff.2 (.inl hstage), .inl hguest, .inl hhost⟩

end Outcomes

/-- steps that all return -/
def Work.idle (R E : Type) : Work R E :=
  ⟨pure (), pure (), pure (), pure (), pure (), pure (), pure (), fun _ => pure (), pure (), pure (), pure ()⟩

section Agree

variable {R E : Type}

/-- a digit of the tag is not a blank -/
theorem exists_digit (r : ImageRef) : ∃ c ∈ r.text.toList, Str.isSpace c = false := by
  obtain ⟨c, ds, hmajor⟩ := List.exists_cons_of_ne_nil r.major_ne
  have hc : c ∈ r.major := by rw [hmajor]; exact List.mem_cons_self
  have hrange := digit_range (List.all_eq_true.1 r.major_digits c hc)
  refine ⟨c, ?_, ?_⟩
  · simp [ImageRef.text, ImageRef.tag, hc]
  · simp [Str.isSpace]
    omega

theorem agrees_of_version {r : ImageRef} (h : majorVersionFromImage r.text = some r.version) (work : Work R E) (s : Site R) :
    Agrees work r s := by
  obtain ⟨c, hc, hspace⟩ := exists_digit r
  unfold Agrees
  rcases build_spec work s hc hspace with ⟨e, t, hrun, hguest, hhost⟩ | ⟨hmajor, -⟩ | ⟨v, t, hmajor, hrun, hguest, hhost⟩
  · rw [hrun]
    refine ⟨hguest, ?_⟩
    rcases hhost with hhost | ⟨v, hmajor, hhost⟩
    · exact .inl hhost
    · rw [h] at hmajor
      cases hmajor
      exact .inr hhost
  · rw [h] at hmajor
    cases hmajor
  · rw [h] at hmajor
    cases hmajor
    rw [hrun]
    exact ⟨hguest, hhost⟩

/-- steps that cannot raise do not save a build whose version is not found -/
theorem not_agrees {r : ImageRef} (h : majorVersionFromImage r.text = none) (work : Work R Empty) (s : Site R) :
    ¬ Agrees work r s := by
  obtain ⟨c, hc, hspace⟩ := exists_digit r
  unfold Agrees
  rcases build_spec work s hc hspace with ⟨e, -⟩ | ⟨-, t, hrun⟩ | ⟨v, t, hmajor, -⟩
  · exact e.elim
  · rw [hrun]
    exact id
  · rw [h] at hmajor
    cases hmajor

end Agree

/-- Whatever the other steps of the builds do, both markers are right, or another step has raised, exactly if the reference has no
colon before its tag, and no more digits in its version than `int` reads. -/
theorem markers_agree_iff (r : ImageRef) :
    (∀ (R E : Type) (work : Work R E) (s : Site R), Agrees work r s) ↔ ':' ∉ r.name ∧ r.major.length ≤ Str.maxStrDigits := by
  constructor
  · intro h
    by_contra hcond
    have hmajor : majorVersionFromImage r.text = none := by rw [majorVersionFromImage_eq, if_neg hcond]
    exact not_agrees hmajor (Work.idle Unit Empty) ⟨(), none, none⟩ (h Unit Empty _ _)
  · intro h R E work s
    exact agrees_of_version (by rw [majorVersionFromImage_eq, if_pos h]) work s

/-! ## Two references -/

theorem redroid_plain : ':' ∉ "redroid/redroid".toList := by decide

theorem all_toDigits (version : ℕ) : (Nat.toDigits 10 version).all Char.isDigit = true :=
  List.all_eq_true.2 (isDigit_toDigits version)

/-- the reference of a build without `REDROID_IMAGE` -/
def vmImageRef (version : ℕ) : ImageRef :=
  ⟨none, "redroid/redroid".toList, redroid_plain, Nat.toDigits 10 version, Nat.toDigits_ne_nil, all_toDigits version,
    "0.0-latest".toList⟩

theorem vmImageRef_text (version : ℕ) : (vmImageRef version).text = vmRedroidImage version := by
  apply String.toList_injective
  have hdigits : (toString (version : Int)).toList = Nat.toDigits 10 version := by
    rw [Int.toString_eq_repr, Int.repr_eq_if, if_pos (Int.natCast_nonneg version), Nat.toList_repr, Int.toNat_natCast]
  have himage : vmRedroidImage version = "redroid/redroid:" ++ toString (version : Int) ++ ".0.0-latest" := rfl
  rw [himage, String.toList_append, String.toList_append, hdigits]
  simp [ImageRef.text, ImageRef.name, ImageRef.tag, vmImageRef]

theorem vmImageRef_version (version : ℕ) : (vmImageRef version).version = version := by
  change ((Nat.ofDigitChars 10 (Nat.toDigits 10 version) 0 : ℕ) : Int) = version
  rw [Nat.ofDigitChars_ten_toDigits]

theorem localhost_plain : ':' ∉ "localhost".toList := by decide

theorem port_digits : "5000".toList.all Char.isDigit = true := by decide

theorem thirteen_ne : "13".toList ≠ [] := by decide

theorem thirteen_digits : "13".toList.all Char.isDigit = true := by decide

/-- a registry on this host -/
def localRef : ImageRef :=
  ⟨some ⟨.name "localhost".toList localhost_plain, some ⟨"5000".toList, port_digits⟩⟩, "redroid/redroid".toList, redroid_plain,
    "13".toList, thirteen_ne, thirteen_digits, "0.0-latest".toList⟩

/-- what stands behind the first colon up to a dot is no number, so the build fails at its last step but one -/
theorem registry_port_rejected : localRef.text = "localhost:5000/redroid/redroid:13.0.0-latest" ∧
    ¬ Agrees (Work.idle Unit Empty) localRef ⟨(), none, none⟩ := by
  constructor
  · decide
  · refine not_agrees ?_ _ _
    rw [majorVersionFromImage_eq, if_neg]
    exact fun h => absurd h.1 (by decide)

end Beetroot.Build.Baked
