/-
Does the version marker beside a rootfs image tell the version of the image?

`fetch_prebuilt` and `_RootfsAssembly.build` work in a staging directory. Then they write `<out_image>.android-version`, and after
it the image: a fetch renames the image into place, a build has `mke2fs` write it there. `read_rootfs_version` reads the marker.

Every call is a list of file-system steps, and may end behind any of them: it is killed, or a step fails. A
`write_text` truncates the file before it writes. An image that `mke2fs` has begun to write is the new one.

Results:
- `readRootfsVersion_marker`: a marker that was written in full reads as its version;
- `run_truthful_iff`: a call keeps the marker true exactly if it does not end between the marker and the image over an image of
  another version;
- `marker_never_lies`: and so does every sequence of such calls.
-/
import Beetroot.Config.Text
import Beetroot.Lib.Run
import Beetroot.Lib.Search
import Beetroot.Lib.Str

namespace Beetroot.Build

open Lib Config

/-! ## `int(text)` -/

/-- digits, with single underscores between them -/
def digitsOk : Bool → List Char → Bool
  | behindDigit, [] => behindDigit
  | behindDigit, c :: cs => if c = '_' then behindDigit && digitsOk false cs else isDecimal c && digitsOk true cs

def magnitude (cs : List Char) : Option ℕ :=
  let digits := cs.filter (· ≠ '_')
  if digitsOk false cs = true ∧ digits.length ≤ Str.maxStrDigits then some (number digits) else none

/-- `int(text)`; `none` is a `ValueError` -/
def pyInt (text : List Char) : Option Int :=
  let cs := Str.strip text
  if cs.head? = some '-' then (magnitude cs.tail).map fun n : ℕ => -(n : Int)
  else if cs.head? = some '+' then (magnitude cs.tail).map fun n : ℕ => (n : Int)
  else (magnitude cs).map fun n : ℕ => (n : Int)

section Int

theorem digit_range {c : Char} (h : c.isDigit = true) : 48 ≤ c.toNat ∧ c.toNat ≤ 57 := Char.isDigit_iff_toNat.1 h

theorem digitValue_ascii {c : Char} (h : c.isDigit = true) : digitValue c = some (c.toNat - 48) := by
  have hrange := digit_range h
  have hfirst : decimalZeros.find? (fun z => decide (z ≤ c.toNat ∧ c.toNat < z + 10)) = some 48 := by
    rw [decimalZeros, List.find?_cons_of_pos]
    rw [decide_eq_true_eq]
    omega
  rw [digitValue, hfirst]
  rfl

theorem digitsOk_ascii {cs : List Char} (h : ∀ c ∈ cs, c.isDigit = true) {b : Bool} (hb : b = true ∨ cs ≠ []) :
    digitsOk b cs = true := by
  induction cs generalizing b with
  | nil => simpa [digitsOk] using hb
  | cons c cs ih =>
    have hc := h c List.mem_cons_self
    have hunderscore : c ≠ '_' := by
      intro he
      rw [he] at hc
      exact absurd hc (by decide)
    rw [digitsOk, if_neg hunderscore, isDecimal, digitValue_ascii hc, ih (fun d hd => h d (List.mem_cons_of_mem _ hd)) (.inl rfl)]
    rfl

theorem number_ascii {cs : List Char} (h : ∀ c ∈ cs, c.isDigit = true) : number cs = Nat.ofDigitChars 10 cs 0 := by
  rw [number, Nat.ofDigitChars_eq_foldl]
  refine List.foldl_ext _ _ _ fun n c hc => ?_
  rw [digitValue_ascii (h c hc)]
  rfl

theorem isDigit_toDigits (n : ℕ) : ∀ c ∈ Nat.toDigits 10 n, c.isDigit = true :=
  fun _ hc => Nat.isDigit_of_mem_toDigits (by decide) (by decide) hc

theorem magnitude_toDigits {n : ℕ} (h : (Nat.toDigits 10 n).length ≤ Str.maxStrDigits) : magnitude (Nat.toDigits 10 n) = some n := by
  have hdigits := isDigit_toDigits n
  have hfilter : (Nat.toDigits 10 n).filter (· ≠ '_') = Nat.toDigits 10 n := by
    apply List.filter_eq_self.2
    intro c hc
    rw [decide_eq_true_eq]
    intro he
    rw [he] at hc
    exact Nat.underscore_not_in_toDigits hc
  have hok : digitsOk false (Nat.toDigits 10 n) = true := digitsOk_ascii hdigits (.inr Nat.toDigits_ne_nil)
  simp only [magnitude, hfilter, hok, h, and_self, if_true]
  rw [number_ascii hdigits, Nat.ofDigitChars_ten_toDigits]

theorem isSpace_toString (v : Int) : ∀ c ∈ (toString v).toList, Str.isSpace c = false := by
  intro c hc
  rcases Search.mem_toString hc with rfl | hdigit
  · decide
  · have hrange := digit_range hdigit
    simp [Str.isSpace]
    omega

/-- the text of a number, on a line of its own, is read as this number -/
theorem pyInt_line {v : Int} (h : Str.Printable v) : pyInt ((toString v).toList ++ ['\n']) = some v := by
  simp only [pyInt, Str.strip_line (isSpace_toString v)]
  rw [Int.toString_eq_repr, Int.repr_eq_if]
  by_cases hv : 0 ≤ v
  · have hhead : ∀ c, c.isDigit = false → (Nat.toDigits 10 v.toNat).head? ≠ some c := by
      intro c hc hh
      rw [isDigit_toDigits _ c (List.mem_of_mem_head? hh)] at hc
      cases hc
    have hnat : v.natAbs = v.toNat := by omega
    rw [Str.Printable, hnat] at h
    rw [if_pos hv, Nat.toList_repr, if_neg (hhead '-' (by decide)), if_neg (hhead '+' (by decide)), magnitude_toDigits h,
      Option.map_some, Int.toNat_of_nonneg hv]
  · have htext : ("-" ++ (-v).toNat.repr).toList = '-' :: Nat.toDigits 10 (-v).toNat := by
      rw [String.toList_append, Nat.toList_repr]
      rfl
    have hnat : v.natAbs = (-v).toNat := by omega
    rw [Str.Printable, hnat] at h
    rw [if_neg hv, htext, List.head?_cons, if_pos rfl, List.tail_cons, magnitude_toDigits h, Option.map_some]
    congr 1
    omega

end Int

/-! ## The marker and the image -/

/-- an image, as far as it is written -/
structure Image where
  version : Int
  complete : Bool
deriving DecidableEq, Repr

/-- the files `<out_image>` and `<out_image>.android-version` -/
structure Disk where
  image : Option Image
  marker : Option (List Char)
deriving DecidableEq, Repr

def readRootfsVersion (s : Disk) : Option Int := s.marker.bind pyInt

/-- a file-system step of a fetch or a build -/
inductive Step where
  /-- in the staging directory, or in a scratch directory elsewhere -/
  | scratch
  | truncateMarker
  | writeMarker (text : List Char)
  /-- `tmp.replace(out_image)` -/
  | replaceImage (version : Int)
  /-- a write of `mke2fs`, the last one or an earlier one -/
  | packImage (version : Int) (last : Bool)
deriving DecidableEq, Repr

def Step.apply (s : Disk) : Step → Disk
  | .scratch => s
  | .truncateMarker => { s with marker := some [] }
  | .writeMarker text => { s with marker := some text }
  | .replaceImage v => { s with image := some ⟨v, true⟩ }
  | .packImage v last => { s with image := some ⟨v, last⟩ }

/-- `f"\x7bversion\x7d\n"` -/
def markerText (v : Int) : List Char := (toString v).toList ++ ['\n']

/-- `marker.write_text`; the text of a number that `str` does not convert is not reached -/
def writeVersionMarker (v : Int) : List Step := [.truncateMarker, .writeMarker (markerText v)]

/-- `_major_version_from_image`; `none` is a `BootstrapError` -/
def majorVersionFromImage (image : String) : Option Int :=
  let tag := (image.toList.dropWhile (· ≠ ':')).tail
  pyInt (tag.takeWhile (· ≠ '.'))

/-- what `vm_redroid_image` names for a version -/
def vmRedroidImage (version : Int) : String := "redroid/redroid:" ++ toString version ++ ".0.0-latest"

/-- the calls on `out_image`, a build with the environment's `REDROID_IMAGE`; the counts are the steps in other places, and the
writes of `mke2fs` before the last one -/
inductive Producer where
  | fetchPrebuilt (androidVersion : Int) (before after : ℕ)
  | buildRootfs (androidVersion : Int) (redroidImage : Option String) (before writes after : ℕ)
deriving DecidableEq, Repr

/-- the version that a call is for; `none` if it does not get as far as the marker -/
def Producer.version : Producer → Option Int
  | .fetchPrebuilt v _ _ => if Str.Printable v then some v else none
  | .buildRootfs v image _ _ _ => (majorVersionFromImage (image.getD (vmRedroidImage v))).filter fun w => Str.Printable w

/-- the steps before the marker -/
def Producer.before : Producer → ℕ
  | .fetchPrebuilt _ before _ => before
  | .buildRootfs _ _ before _ _ => before

/-- the steps behind the marker -/
def Producer.behind (v : Int) : Producer → List Step
  | .fetchPrebuilt _ _ after => .replaceImage v :: List.replicate after .scratch
  | .buildRootfs _ _ _ writes after =>
    List.replicate writes (.packImage v false) ++ .packImage v true :: List.replicate after .scratch

/-- from the marker on -/
def Producer.publish (p : Producer) : List Step :=
  match p.version with
  | none => []
  | some v => writeVersionMarker v ++ p.behind v

def Producer.steps (p : Producer) : List Step := List.replicate p.before .scratch ++ p.publish

/-- a call that ends behind some of its steps: it is interrupted there, or fails -/
structure Op where
  producer : Producer
  stop : ℕ
deriving DecidableEq, Repr

def run (s : Disk) (op : Op) : Disk := (op.producer.steps.take op.stop).foldl Step.apply s

/-- the marker does not name another version than that of the image -/
def Truthful (s : Disk) : Prop := ∀ image ∈ s.image, ∀ v ∈ readRootfsVersion s, v = image.version

/-- a call does not end between the marker and the image over an image of another version -/
def Safe (s : Disk) (op : Op) : Prop :=
  op.stop = op.producer.before + 2 → ∀ v ∈ op.producer.version, ∀ image ∈ s.image, image.version = v

instance (s : Disk) : Decidable (Truthful s) :=
  inferInstanceAs (Decidable (∀ image ∈ s.image, ∀ v ∈ readRootfsVersion s, v = image.version))

instance (s : Disk) (op : Op) : Decidable (Safe s op) :=
  inferInstanceAs (Decidable (op.stop = op.producer.before + 2 → ∀ v ∈ op.producer.version, ∀ image ∈ s.image, image.version = v))

section Runs

variable {s : Disk} {v : Int} {p : Producer} {op : Op}

theorem foldl_scratch (n : ℕ) (s : Disk) : (List.replicate n Step.scratch).foldl Step.apply s = s := by
  induction n with
  | zero => rfl
  | succ n ih => rw [List.replicate_succ, List.foldl_cons, Step.apply, ih]

/-- a step that touches nothing but the image, and puts this version there -/
def Step.ImagesOnly (v : Int) : Step → Prop
  | .scratch => True
  | .replaceImage w => w = v
  | .packImage w _ => w = v
  | _ => False

/-- the image at the path has this version -/
def Disk.Holds (s : Disk) (v : Int) : Prop := ∃ image, s.image = some image ∧ image.version = v

theorem foldl_imagesOnly {steps : List Step} (h : ∀ x ∈ steps, x.ImagesOnly v) (s : Disk) :
    (steps.foldl Step.apply s).marker = s.marker ∧ (s.Holds v → (steps.foldl Step.apply s).Holds v) := by
  induction steps generalizing s with
  | nil => exact ⟨rfl, id⟩
  | cons x steps ih =>
    have hx := h x List.mem_cons_self
    have hone : (x.apply s).marker = s.marker ∧ (s.Holds v → (x.apply s).Holds v) := by
      cases x with
      | scratch => exact ⟨rfl, id⟩
      | truncateMarker => exact hx.elim
      | writeMarker text => exact hx.elim
      | replaceImage w => exact ⟨rfl, fun _ => ⟨_, rfl, hx⟩⟩
      | packImage w last => exact ⟨rfl, fun _ => ⟨_, rfl, hx⟩⟩
    obtain ⟨hmarker, hholds⟩ := ih (fun y hy => h y (List.mem_cons_of_mem _ hy)) (x.apply s)
    exact ⟨hmarker.trans hone.1, fun hs => hholds (hone.2 hs)⟩

/-- behind the marker the first step puts the new image in place -/
theorem behind_cons (p : Producer) (v : Int) : ∃ x xs, p.behind v = x :: xs ∧
    (∀ s, (x.apply s).marker = s.marker ∧ (x.apply s).Holds v) ∧ ∀ y ∈ xs, y.ImagesOnly v := by
  have hscratch : ∀ n, ∀ y ∈ List.replicate n Step.scratch, y.ImagesOnly v := by
    intro n y hy
    rw [List.eq_of_mem_replicate hy]
    trivial
  cases p with
  | fetchPrebuilt w before after => exact ⟨_, _, rfl, fun s => ⟨rfl, _, rfl, rfl⟩, hscratch after⟩
  | buildRootfs w image before writes after =>
    cases writes with
    | zero => exact ⟨_, _, rfl, fun s => ⟨rfl, _, rfl, rfl⟩, hscratch after⟩
    | succ writes =>
      refine ⟨_, _, rfl, fun s => ⟨rfl, _, rfl, rfl⟩, fun y hy => ?_⟩
      rcases List.mem_append.1 hy with hpack | hlast
      · rw [List.eq_of_mem_replicate hpack]
        rfl
      · rcases List.mem_cons.1 hlast with rfl | hrest
        · rfl
        · exact hscratch after y hrest

theorem foldl_behind (k : ℕ) (s : Disk) :
    (((p.behind v).take (k + 1)).foldl Step.apply s).marker = s.marker ∧
      (((p.behind v).take (k + 1)).foldl Step.apply s).Holds v := by
  obtain ⟨x, xs, hbehind, hx, hxs⟩ := behind_cons p v
  have hmore : ∀ y ∈ xs.take k, y.ImagesOnly v := fun y hy => hxs y (List.mem_of_mem_take hy)
  obtain ⟨hmarker, hholds⟩ := foldl_imagesOnly hmore (x.apply s)
  rw [hbehind, List.take_succ_cons, List.foldl_cons]
  exact ⟨hmarker.trans (hx s).1, hholds (hx s).2⟩

/-- a marker that was written in full -/
theorem readRootfsVersion_marker (hv : Str.Printable v) (h : s.marker = some (markerText v)) : readRootfsVersion s = some v := by
  rw [readRootfsVersion, h]
  exact pyInt_line hv

theorem readable_version (h : p.version = some v) : Str.Printable v := by
  cases p with
  | fetchPrebuilt w before after =>
    rw [Producer.version] at h
    split_ifs at h with hw
    cases h
    exact hw
  | buildRootfs w image before writes after =>
    exact decide_eq_true_iff.1 (Option.filter_eq_some_iff.1 h).2

/-- the steps elsewhere do not count -/
theorem run_eq (s : Disk) (op : Op) :
    run s op = (op.producer.publish.take (op.stop - op.producer.before)).foldl Step.apply s := by
  rw [run, Producer.steps, List.take_append, List.length_replicate, List.foldl_append, List.take_replicate, foldl_scratch]

/-- one call, by how far it gets -/
theorem run_truthful_iff (h : Truthful s) : Truthful (run s op) ↔ Safe s op := by
  rw [run_eq, Producer.publish]
  cases hversion : op.producer.version with
  | none =>
    rw [List.take_nil, List.foldl_nil, Safe, hversion]
    refine ⟨fun _ _ v hv => ?_, fun _ => h⟩
    cases hv
  | some v =>
    have hread := readable_version hversion
    have hsafe : op.stop ≠ op.producer.before + 2 → Safe s op := fun hne heq => absurd heq hne
    generalize hk : op.stop - op.producer.before = k
    rcases k with _ | _ | _ | k
    · exact ⟨fun _ => hsafe (by omega), fun _ => h⟩
    · -- the marker is empty, and reads as none
      refine ⟨fun _ => hsafe (by omega), fun _ image _ w hw => ?_⟩
      cases hw
    · -- the marker is the new one, and the image the old one
      have hmarker : ({ s with marker := some (markerText v) } : Disk).marker = some (markerText v) := rfl
      have hnew := readRootfsVersion_marker hread hmarker
      have hstop : op.stop = op.producer.before + 2 := by omega
      change Truthful { s with marker := some (markerText v) } ↔ _
      rw [Truthful, hnew, Safe, hversion]
      constructor
      · intro hall _ w hw image himage
        cases hw
        exact (hall image himage v rfl).symm
      · intro hall image himage w hw
        cases hw
        exact (hall hstop v rfl image himage).symm
    · -- the new image is in place
      obtain ⟨hmarker, image, himage, hholds⟩ := @foldl_behind v op.producer k { s with marker := some (markerText v) }
      have hnew := readRootfsVersion_marker hread hmarker
      refine ⟨fun _ => hsafe (by omega), fun _ => ?_⟩
      change Truthful (((op.producer.behind v).take (k + 1)).foldl Step.apply { s with marker := some (markerText v) })
      intro image' himage' w hw
      rw [himage, Option.mem_some_iff] at himage'
      rw [hnew, Option.mem_some_iff] at hw
      rw [← himage', hholds, hw]

theorem run_truthful (h : Truthful s) (hsafe : Safe s op) : Truthful (run s op) := (run_truthful_iff h).2 hsafe

/-- The marker names the version of the image, or none, after every sequence of fetches and builds, each of which may end behind any
of its steps, as long as none ends between its marker and its image over an image of another version. -/
theorem marker_never_lies (start : Disk) (ops : List Op) (hstart : Truthful start) (hsafe : Always run Safe start ops) :
    Truthful (ops.foldl run start) :=
  run_always (fun _ _ h hop => run_truthful h hop) hstart hsafe

end Runs

/-- nothing at the path -/
def Disk.fresh : Disk := ⟨none, none⟩

/-- a fetch that takes three steps in its staging directory -/
def fetch (v : Int) (stop : ℕ) : Op := ⟨.fetchPrebuilt v 3 1, stop⟩

/-- a build of a version, without a `REDROID_IMAGE` -/
def build (v : Int) (stop : ℕ) : Op := ⟨.buildRootfs v none 5 2 1, stop⟩

theorem marker_after_upgrade :
    Truthful Disk.fresh ∧ Always run Safe Disk.fresh [fetch 13 7, build 14 8, fetch 14 5] ∧
      Truthful ([fetch 13 7, build 14 8, fetch 14 5].foldl run Disk.fresh) := by
  have hstart : Truthful Disk.fresh := by decide +kernel
  have hsafe : Always run Safe Disk.fresh [fetch 13 7, build 14 8, fetch 14 5] := by decide +kernel
  exact ⟨hstart, hsafe, marker_never_lies Disk.fresh [fetch 13 7, build 14 8, fetch 14 5] hstart hsafe⟩

/-- an upgrade from 13 to 14 that ends behind its marker: the image is still the old one -/
theorem upgrade_leaves_false_marker :
    ([fetch 13 7, fetch 14 5].foldl run Disk.fresh).image = some ⟨13, true⟩ ∧
    readRootfsVersion ([fetch 13 7, fetch 14 5].foldl run Disk.fresh) = some 14 ∧
    ¬ Truthful ([fetch 13 7, fetch 14 5].foldl run Disk.fresh) := by
  decide +kernel

end Beetroot.Build
