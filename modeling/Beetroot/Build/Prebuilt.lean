/-
Does a fetch of a prebuilt kernel or rootfs install verified bytes, or fall back?

`fetch_prebuilt` streams an asset into a staging file, fetches its `.sha256` sidecar, compares the digests and renames the file
into place; the rootfs is decompressed in between. `build_vm_kernel` catches the error class of each fetch and builds the artifact
locally then. The handlers name `HTTPError`, `TimeoutError` and `URLError`. A connection that is reset, or a response that breaks
the protocol, raises neither of them once the request is sent; and `float` and `int` of a header raise a `ValueError`.

What the transport does for a URL is a `Reply`. The progress bar and zstd are parameters: which totals the bar draws, and what a
compressed text decodes to.

Results:
- `receive_spec`: a download, by what the transport does;
- `kernelFetchPrebuilt_eq`, `rootfsFetchPrebuilt_eq`: a fetch is a computation of bytes, with nothing left behind;
- `kernel_meets_iff`, `rootfs_meets_iff`: it installs verified bytes or raises its own error exactly if every exception and every
  header on its way is one that the handlers know;
- `prebuilt_iff`: both, and then every exception of `build_vm_kernel` is one of the local builds.
-/
import Beetroot.Build.Marker
import Beetroot.Lib.Double
import Beetroot.Lib.Eff
import Beetroot.Lib.Piece

namespace Beetroot.Build

open Lib Lib.Eff Config

abbrev Bytes := List UInt8

/-! ## `Content-Length` -/

/-- a sign, and what stands behind it -/
def signed (cs : List Char) : Bool × List Char :=
  if cs.head? = some '-' then (true, cs.tail) else if cs.head? = some '+' then (false, cs.tail) else (false, cs)

/-- the digits of a part of a number, without its underscores; `none` if it is not one -/
def digitPart (cs : List Char) : Option (List Char) := if digitsOk false cs then some (cs.filter (· ≠ '_')) else none

/-- `e` and a number, at the end of a float -/
def exponentPart (cs : List Char) : Option Int :=
  if cs = [] then some 0
  else
    let (negative, digits) := signed cs.tail
    (digitPart digits).map fun ds => if negative then -(number ds : Int) else number ds

/-- digits around a point; one side may be empty -/
def mantissaPart (cs : List Char) : Option (List Char × List Char) :=
  let whole := cs.takeWhile (· ≠ '.')
  let rest := cs.dropWhile (· ≠ '.')
  let frac := rest.tail
  if whole = [] ∧ frac = [] then none
  else
    match (if whole = [] then some [] else digitPart whole), (if frac = [] then some [] else digitPart frac) with
    | some w, some f => some (w, f)
    | _, _ => none

/-- a float without a sign -/
def decimalFloat (cs : List Char) : Option ℚ :=
  let isE := fun c => c = 'e' || c = 'E'
  match mantissaPart (cs.takeWhile fun c => !isE c), exponentPart (cs.dropWhile fun c => !isE c) with
  | some (whole, frac), some e => some (number (whole ++ frac) * Double.power 10 (e - frac.length))
  | _, _ => none

/-- `float(text)`; `none` is a `ValueError` -/
def pyFloat (text : List Char) : Option Double :=
  let (negative, body) := signed (Str.strip text)
  let word := Str.lower body
  if word = "inf".toList ∨ word = "infinity".toList then some (if negative then .negInf else .inf)
  else if word = "nan".toList then some .nan
  else (decimalFloat body).map fun q => Double.ofRat (if negative then -q else q)

/-- the first and the last code point of the blocks of digits that are not decimal (Unicode 15.1) -/
def digitBlocks : List (ℕ × ℕ) :=
  [(0xB2, 0xB3), (0xB9, 0xB9), (0x1369, 0x1371), (0x19DA, 0x19DA), (0x2070, 0x2070), (0x2074, 0x2079), (0x2080, 0x2089),
    (0x2460, 0x2468), (0x2474, 0x247C), (0x2488, 0x2490), (0x24EA, 0x24EA), (0x24F5, 0x24FD), (0x24FF, 0x24FF), (0x2776, 0x277E),
    (0x2780, 0x2788), (0x278A, 0x2792), (0x10A40, 0x10A43), (0x10E60, 0x10E68), (0x11052, 0x1105A), (0x1F100, 0x1F10A)]

/-- `str.isdigit` -/
def pyIsdigit (cs : List Char) : Bool :=
  !cs.isEmpty && cs.all fun c => isDecimal c || digitBlocks.any fun b => b.1 ≤ c.toNat && c.toNat ≤ b.2

/-! ## The transport -/

/-- `_CHUNK_SIZE` -/
def chunkSize : ℕ := 65536

/-- what `urlopen` and `read` raise -/
inductive NetError where
  | http (code : ℕ)
  | url (reason : String)
  | timeout
  /-- another `OSError`: a connection that is reset behind the request -/
  | connection (text : String)
  /-- an `HTTPException` -/
  | protocol (text : String)
deriving DecidableEq

structure Response where
  contentLength : Option (List Char)
  reads : List (Piece UInt8 chunkSize)
  /-- what the last read raises; the end of the stream otherwise -/
  ending : Option NetError

/-- what the transport does for a URL -/
inductive Reply where
  | raises (e : NetError)
  | responds (r : Response)

/-- an exception that no handler of a fetch names -/
inductive Other where
  | value
  | overflow
  | bar
  | connection (text : String)
  | protocol (text : String)
deriving DecidableEq

inductive Exc where
  /-- `KernelFetchError` -/
  | kernelFetch (text : String)
  /-- `RootfsFetchError` -/
  | rootfsFetch (text : String)
  /-- `BootstrapError`, of a local build -/
  | bootstrap (text : String)
  | other (e : Other)
deriving DecidableEq

/-- what `ZstdDecompressor().stream_reader` gives for a compressed text: the chunks, and a `ZstdError` behind them -/
structure Inflated where
  chunks : List (Piece UInt8 chunkSize)
  error : Option String

/-- the directory of the artifacts -/
structure Dir where
  kernel : Option Bytes
  rootfs : Option Bytes
  marker : Option (List Char)
deriving DecidableEq

/-- with what a fetch has in its staging place -/
structure Site where
  dir : Dir
  staging : List (String × Bytes)
deriving DecidableEq

abbrev M := EStateM Exc Site

/-- the world of a fetch; `bar` tells the totals that the progress bar draws -/
structure World where
  net : String → Reply
  bar : Option Double → Bool
  sha256 : Bytes → String
  zstd : Bytes → Inflated
  /-- the text of a `UnicodeDecodeError` -/
  decodeError : Bytes → String
  httpTimeout : String

/-- the handlers of the downloads -/
def mapError (w : World) (fail : String → Exc) (url : String) : NetError → Exc
  | .http code => fail ("HTTP " ++ toString code ++ " fetching " ++ url)
  | .timeout => fail ("timed out after " ++ w.httpTimeout ++ "s: " ++ url)
  | .url reason => fail ("cannot reach " ++ url ++ ": " ++ reason)
  | .connection text => .other (.connection text)
  | .protocol text => .other (.protocol text)

/-- `float(raw_length) if raw_length else None` -/
def floatLength (raw : Option (List Char)) : Except Other (Option Double) :=
  match raw with
  | none => .ok none
  | some text =>
    if text = [] then .ok none
    else
      match pyFloat text with
      | none => .error .value
      | some x => .ok (some x)

/-- `expected_bytes`, for a header that is all digits -/
def expectedBytes (raw : Option (List Char)) : Except Other (Option Int) :=
  match raw with
  | none => .ok none
  | some text =>
    if pyIsdigit text then
      match pyInt text with
      | none => .error .value
      | some n => .ok (some n)
    else .ok none

/-- `float(n)` -/
def floatOfInt (n : Int) : Except Other Double :=
  match Double.ofRat n with
  | .inf => .error .overflow
  | .negInf => .error .overflow
  | x => .ok x

/-- the total of `expected_bytes` -/
def intLength (raw : Option (List Char)) : Except Other (Option Double) :=
  match expectedBytes raw with
  | .error e => .error e
  | .ok none => .ok none
  | .ok (some n) =>
    match floatOfInt n with
    | .error e => .error e
    | .ok x => .ok (some x)

/-- a download: the bytes that arrive, and the header, or what is raised -/
def receive (w : World) (fail : String → Exc) (length : Option (List Char) → Except Other (Option Double)) (url : String) :
    Bytes × Except Exc (Option (List Char)) :=
  match w.net url with
  | .raises e => ([], .error (mapError w fail url e))
  | .responds r =>
    match length r.contentLength with
    | .error e => ([], .error (.other e))
    | .ok total =>
      if !w.bar total then ([], .error (.other .bar))
      else
        match r.ending with
        | some e => (Piece.join r.reads, .error (mapError w fail url e))
        | none => (Piece.join r.reads, .ok r.contentLength)

/-- a file in the staging place -/
def stage (name : String) (bytes : Bytes) : M Unit :=
  modify fun s => { s with staging := (name, bytes) :: s.staging.filter fun f => f.1 ≠ name }

def staged (name : String) : M Bytes := do
  let s ← get
  pure ((s.staging.lookup name).getD [])

/-- `release_url`, of a tag and an asset -/
def releaseUrl (tag asset : String) : String := "https://github.com/Xiddoc/Beetroot/releases/download/" ++ tag ++ "/" ++ asset

def kernelReleaseUrl (version fingerprint : String) : String :=
  releaseUrl ("vm-kernel-" ++ version ++ "-" ++ fingerprint) ("bzImage-" ++ version ++ "-" ++ fingerprint)

def rootfsReleaseUrl (version : Int) (fingerprint : String) : String :=
  releaseUrl ("vm-rootfs-" ++ toString version ++ "-" ++ fingerprint)
    ("rootfs-" ++ toString version ++ "-" ++ fingerprint ++ ".img.zst")

/-- `_fetch_bytes`, of either module -/
def fetchBytes (w : World) (fail : String → Exc) (url : String) : Except Exc Bytes :=
  let (bytes, outcome) := receive w fail floatLength url
  match outcome with
  | .error e => .error e
  | .ok _ => .ok bytes

/-- `sidecar.decode().split()[0].strip()` -/
def firstField (w : World) (bytes : Bytes) : Except String (List Char) :=
  match (ByteArray.mk bytes.toArray).utf8Decode? with
  | none => .error (w.decodeError bytes)
  | some cs =>
    match Str.fields cs.toList with
    | [] => .error "list index out of range"
    | field :: _ => .ok (Str.strip field)

/-- the digest of the sidecar -/
def sidecarDigest (w : World) (fail : String → Exc) (url : String) : Except Exc (List Char) :=
  match fetchBytes w fail (url ++ ".sha256") with
  | .error e => .error e
  | .ok bytes =>
    match firstField w bytes with
    | .error e => .error (fail ("malformed/empty checksum sidecar " ++ url ++ ".sha256: " ++ e))
    | .ok digest => .ok digest

def mismatchText (url : String) (expected actual : List Char) : String :=
  "sha256 mismatch for " ++ url ++ ": expected " ++ String.ofList (Str.lower expected) ++ ", got " ++
    String.ofList (Str.lower actual)

/-- the sidecar is fetched, and its digest compared -/
def verifyDigest (w : World) (fail : String → Exc) (url : String) (actual : List Char) : Except Exc Unit :=
  match sidecarDigest w fail url with
  | .error e => .error e
  | .ok expected => if Str.lower actual ≠ Str.lower expected then .error (fail (mismatchText url expected actual)) else .ok ()

/-! ## The kernel -/

def kernelTmp : String := ".tmp"

/-- `_stream_to_handle` -/
def streamToHandle (w : World) (url : String) : M (List Char) := do
  let (bytes, outcome) := receive w .kernelFetch floatLength url
  stage kernelTmp bytes
  let _ ← raising outcome
  pure (w.sha256 bytes).toList

/-- `tmp.unlink(missing_ok=True)` -/
def unlink (name : String) : M Unit := modify fun s => { s with staging := s.staging.filter fun f => f.1 ≠ name }

/-- `kernel_download.fetch_prebuilt` -/
def kernelFetchPrebuilt (w : World) (url : String) : M Unit := do
  stage kernelTmp []
  onRaise (do
    let actual ← streamToHandle w url
    raising (verifyDigest w .kernelFetch url actual)
    let bytes ← staged kernelTmp
    modify fun s => { s with dir := { s.dir with kernel := some bytes } }
    unlink kernelTmp)
    (unlink kernelTmp)

/-! ## The rootfs -/

def imageZst : String := "image.img.zst"

def imageTmp : String := "image.img"

/-- `_MAX_DECOMPRESSED_BYTES` -/
def maxDecompressedBytes : ℕ := 64 * 1024 * 1024 * 1024

def truncatedText (url : String) (written : ℕ) (expected : Int) : String :=
  "download truncated: got " ++ toString written ++ " of " ++ toString expected ++ " bytes for " ++ url ++
    "; the connection dropped mid-stream — retry the fetch"

/-- the check of the number of bytes behind the download -/
def checkLength (url : String) (header : Option (List Char)) (bytes : Bytes) : Except Exc Unit :=
  match expectedBytes header with
  | .ok (some n) => if (bytes.length : Int) ≠ n then .error (.rootfsFetch (truncatedText url bytes.length n)) else .ok ()
  | _ => .ok ()

/-- `_download_to_file` -/
def downloadToFile (w : World) (url : String) : M (List Char) := do
  let (bytes, outcome) := receive w .rootfsFetch intLength url
  -- empty if the request itself raises: the source has no file then, and the directory goes with what is in it
  stage imageZst bytes
  let header ← raising outcome
  raising (checkLength url header bytes)
  pure (w.sha256 bytes).toList

def capText (url : String) : String :=
  "decompressed rootfs from " ++ url ++ " exceeds the " ++ toString maxDecompressedBytes ++
    "-byte cap; refusing to write (possible decompression bomb)"

/-- the loop of `_decompress_to_file`, with what is written so far -/
def inflateLoop (url : String) (error : Option String) : Bytes → List (Piece UInt8 chunkSize) → Except Exc Bytes
  | written, [] =>
    match error with
    | some e => .error (.rootfsFetch ("corrupt/truncated zstd payload for " ++ url ++ ": " ++ e))
    | none => .ok written
  | written, chunk :: chunks =>
    if maxDecompressedBytes < written.length + chunk.bytes.length then .error (.rootfsFetch (capText url))
    else inflateLoop url error (written ++ chunk.bytes) chunks

/-- `_decompress_to_file`, with the handler around it -/
def decompressToFile (w : World) (url : String) : M Unit := do
  let compressed ← staged imageZst
  let image ← raising (inflateLoop url (w.zstd compressed).error [] (w.zstd compressed).chunks)
  stage imageTmp image

/-- the end of the `TemporaryDirectory` -/
def removeStaging : M Unit := do
  unlink imageTmp
  unlink imageZst

/-- `rootfs_download.fetch_prebuilt` -/
def rootfsFetchPrebuilt (w : World) (version : Int) (url : String) : M Unit :=
  ensure (do
    let actual ← downloadToFile w url
    raising (verifyDigest w .rootfsFetch url actual)
    decompressToFile w url
    modify fun s => { s with dir := { s.dir with marker := some (markerText version) } }
    let image ← staged imageTmp
    modify fun s => { s with dir := { s.dir with rootfs := some image } })
    removeStaging

/-! ## `build_vm_kernel` -/

def isKernelFetch : Exc → Bool
  | .kernelFetch _ => true
  | _ => false

def isRootfsFetch : Exc → Bool
  | .rootfsFetch _ => true
  | _ => false

/-- a fetch with its `except`: true if the artifact was fetched -/
def tryFetch (fetch : M Unit) (caught : Exc → Bool) : M Bool :=
  tryCatch (do
    fetch
    pure true) fun e => if caught e then pure false else throw e

/-- an artifact: fetched, or built locally -/
def obtainArtifact (skip : Bool) (fetch : M Unit) (caught : Exc → Bool) (build : M Unit) : M Unit := do
  let fetched ← (if skip then pure false else tryFetch fetch caught)
  if fetched then pure () else build

/-- the two artifacts, with their local builds; `overridden` is an override in the environment -/
def buildVmKernel (w : World) (kernelUrl rootfsUrl : String) (version : Int) (fromSource overridden : Bool)
    (compile bake : M Unit) : M Unit := do
  obtainArtifact fromSource (kernelFetchPrebuilt w kernelUrl) isKernelFetch compile
  obtainArtifact (fromSource || overridden) (rootfsFetchPrebuilt w version rootfsUrl) isRootfsFetch bake

/-! ## What a fetch comes to -/

/-- the bytes of the kernel -/
def kernelBytes (w : World) (url : String) : Except Exc Bytes := do
  let (bytes, outcome) := receive w .kernelFetch floatLength url
  let _ ← outcome
  verifyDigest w .kernelFetch url (w.sha256 bytes).toList
  pure bytes

/-- the bytes of the rootfs -/
def rootfsBytes (w : World) (url : String) : Except Exc Bytes := do
  let (compressed, outcome) := receive w .rootfsFetch intLength url
  let header ← outcome
  checkLength url header compressed
  verifyDigest w .rootfsFetch url (w.sha256 compressed).toList
  inflateLoop url (w.zstd compressed).error [] (w.zstd compressed).chunks

/-- the end of a fetch -/
def settle (put : Bytes → Dir) (old : Dir) (staging : List (String × Bytes)) : Except Exc Bytes → EStateM.Result Exc Site Unit
  | .ok bytes => .ok () ⟨put bytes, staging⟩
  | .error e => .error e ⟨old, staging⟩

/-- the files of the staging place with other names -/
def others (name : String) (staging : List (String × Bytes)) : List (String × Bytes) := staging.filter fun f => f.1 ≠ name

section Programs

variable {w : World} {url : String}

theorem others_cons (name : String) (bytes : Bytes) (staging : List (String × Bytes)) :
    others name ((name, bytes) :: others name staging) = others name staging := by
  simp [others]

theorem stage_eq (name : String) (bytes : Bytes) (s : Site) :
    stage name bytes s = .ok () ⟨s.dir, (name, bytes) :: others name s.staging⟩ := rfl

theorem onRaise_unlink {name : String} {x : M Unit} {s t : Site} {e : Exc} (h : x s = .error e t) :
    onRaise x (unlink name) s = .error e ⟨t.dir, others name t.staging⟩ :=
  onRaise_error_iff.2 ⟨e, t, h, .inr ⟨rfl, rfl⟩⟩

theorem onRaise_done {x cleanup : M Unit} {s t : Site} (h : x s = .ok () t) : onRaise x cleanup s = .ok () t :=
  onRaise_ok_iff.2 h

theorem kernelFetchPrebuilt_eq (w : World) (url : String) (s : Site) :
    kernelFetchPrebuilt w url s =
      settle (fun b => { s.dir with kernel := some b }) s.dir (others kernelTmp s.staging) (kernelBytes w url) := by
  unfold kernelFetchPrebuilt kernelBytes streamToHandle
  rw [bind_of_ok (stage_eq kernelTmp [] s)]
  cases receive w .kernelFetch floatLength url with
  | mk bytes outcome =>
    -- the staging place behind the download
    let downloaded : Site := ⟨s.dir, (kernelTmp, bytes) :: others kernelTmp ((kernelTmp, []) :: others kernelTmp s.staging)⟩
    have hclean : others kernelTmp downloaded.staging = others kernelTmp s.staging := by
      rw [others_cons, others_cons]
    cases outcome with
    | error e =>
      calc _ = .error e ⟨s.dir, others kernelTmp downloaded.staging⟩ := onRaise_unlink (t := downloaded) rfl
        _ = _ := by
          rw [hclean]
          rfl
    | ok header =>
      cases hverify : verifyDigest w .kernelFetch url (w.sha256 bytes).toList with
      | error e =>
        have hraises : (raising (verifyDigest w .kernelFetch url (w.sha256 bytes).toList) : M Unit) downloaded =
            .error e downloaded := raising_error_iff.2 ⟨hverify, rfl⟩
        calc _ = .error e ⟨s.dir, others kernelTmp downloaded.staging⟩ := by
              apply onRaise_unlink (t := downloaded)
              exact bind_error_iff.2 (.inr ⟨_, downloaded, rfl, bind_error_iff.2 (.inl hraises)⟩)
          _ = _ := by
            rw [hclean]
            simp only [hverify]
            rfl
      | ok u =>
        have hpasses : (raising (verifyDigest w .kernelFetch url (w.sha256 bytes).toList) : M Unit) downloaded =
            .ok () downloaded := raising_ok_iff.2 ⟨hverify, rfl⟩
        calc _ = .ok () ⟨{ s.dir with kernel := some bytes }, others kernelTmp downloaded.staging⟩ := by
              apply onRaise_done
              exact bind_ok_iff.2 ⟨_, downloaded, rfl, bind_ok_iff.2 ⟨(), downloaded, hpasses, rfl⟩⟩
          _ = _ := by
            rw [hclean]
            simp only [hverify]
            rfl

/-- what is left behind the end of the `TemporaryDirectory` -/
def leftover (staging : List (String × Bytes)) : List (String × Bytes) := others imageZst (others imageTmp staging)

theorem leftover_zst (bytes : Bytes) (staging : List (String × Bytes)) :
    leftover ((imageZst, bytes) :: others imageZst staging) = leftover staging := by
  have hne : imageZst ≠ imageTmp := by decide
  rw [leftover, others, others, List.filter_cons_of_pos (by simpa using hne), others, List.filter_cons_of_neg (by simp),
    List.filter_filter, List.filter_filter, leftover, others, others, List.filter_filter]
  apply List.filter_congr
  intro f _
  cases decide (f.1 ≠ imageZst) <;> simp

theorem leftover_tmp (bytes : Bytes) (staging : List (String × Bytes)) :
    leftover ((imageTmp, bytes) :: others imageTmp staging) = leftover staging := by
  rw [leftover, others_cons]
  rfl

theorem ensure_removed {x : M Unit} {s t : Site} (hclean : leftover t.staging = leftover s.staging) (h : x s = .ok () t) :
    ensure x removeStaging s = .ok () ⟨t.dir, leftover s.staging⟩ := by
  rw [← hclean]
  exact ensure_ok h rfl

theorem ensure_raised {x : M Unit} {s t : Site} {e : Exc} (hclean : leftover t.staging = leftover s.staging)
    (h : x s = .error e t) : ensure x removeStaging s = .error e ⟨t.dir, leftover s.staging⟩ := by
  rw [← hclean]
  exact ensure_error h rfl

/-- a download with the check of its length -/
theorem downloadToFile_eq {bytes : Bytes} {outcome : Except Exc (Option (List Char))}
    (h : receive w .rootfsFetch intLength url = (bytes, outcome)) (s : Site) :
    downloadToFile w url s =
      (raising (outcome >>= fun header => checkLength url header bytes) >>= fun _ => (pure (w.sha256 bytes).toList : M _))
        ⟨s.dir, (imageZst, bytes) :: others imageZst s.staging⟩ := by
  unfold downloadToFile
  rw [h]
  cases outcome with
  | error e => rfl
  | ok header => rfl

theorem rootfsBytes_eq {bytes : Bytes} {outcome : Except Exc (Option (List Char))}
    (h : receive w .rootfsFetch intLength url = (bytes, outcome)) :
    rootfsBytes w url = (do
      outcome >>= fun header => checkLength url header bytes
      verifyDigest w .rootfsFetch url (w.sha256 bytes).toList
      inflateLoop url (w.zstd bytes).error [] (w.zstd bytes).chunks) := by
  unfold rootfsBytes
  rw [h]
  cases outcome with
  | error e => rfl
  | ok header => rfl

theorem decompressToFile_eq (w : World) (url : String) (dir : Dir) (bytes : Bytes) (rest : List (String × Bytes)) :
    decompressToFile w url ⟨dir, (imageZst, bytes) :: rest⟩ =
      (raising (inflateLoop url (w.zstd bytes).error [] (w.zstd bytes).chunks) >>= fun image => stage imageTmp image)
        ⟨dir, (imageZst, bytes) :: rest⟩ := rfl

theorem rootfsFetchPrebuilt_eq (w : World) (version : Int) (url : String) (s : Site) :
    rootfsFetchPrebuilt w version url s =
      settle (fun b => { s.dir with rootfs := some b, marker := some (markerText version) }) s.dir (leftover s.staging)
        (rootfsBytes w url) := by
  rcases hreceive : receive w .rootfsFetch intLength url with ⟨bytes, outcome⟩
  -- the staging place behind the download
  let downloaded : Site := ⟨s.dir, (imageZst, bytes) :: others imageZst s.staging⟩
  have hclean : leftover downloaded.staging = leftover s.staging := leftover_zst bytes s.staging
  have hdownload := downloadToFile_eq hreceive s
  rw [rootfsBytes_eq hreceive]
  unfold rootfsFetchPrebuilt
  generalize (outcome >>= fun header => checkLength url header bytes) = checked at hdownload ⊢
  cases checked with
  | error e =>
    exact ensure_raised (t := downloaded) hclean (bind_error_iff.2 (.inl hdownload))
  | ok u =>
    have hstart : downloadToFile w url s = .ok (w.sha256 bytes).toList downloaded := hdownload
    cases hverify : verifyDigest w .rootfsFetch url (w.sha256 bytes).toList with
    | error e =>
      apply ensure_raised (t := downloaded) hclean
      rw [bind_of_ok hstart, hverify]
      rfl
    | ok u =>
      have hdecompress := decompressToFile_eq w url s.dir bytes (others imageZst s.staging)
      cases hinflate : inflateLoop url (w.zstd bytes).error [] (w.zstd bytes).chunks with
      | error e =>
        rw [hinflate] at hdecompress
        apply ensure_raised (t := downloaded) hclean
        rw [bind_of_ok hstart, hverify]
        exact bind_error_iff.2 (.inr ⟨(), downloaded, rfl, bind_error_iff.2 (.inl hdecompress)⟩)
      | ok image =>
        rw [hinflate] at hdecompress
        let put : Dir := { s.dir with rootfs := some image, marker := some (markerText version) }
        let inflated : List (String × Bytes) := (imageTmp, image) :: others imageTmp downloaded.staging
        have hinflated : leftover inflated = leftover s.staging := (leftover_tmp image downloaded.staging).trans hclean
        apply ensure_removed (t := ⟨put, inflated⟩) hinflated
        rw [bind_of_ok hstart, hverify]
        exact bind_ok_iff.2 ⟨(), downloaded, rfl, bind_ok_iff.2 ⟨(), ⟨s.dir, inflated⟩, hdecompress, rfl⟩⟩

end Programs

/-! ## What the handlers know -/

/-- an exception with a handler of its own -/
def NetError.Known : NetError → Prop
  | .connection _ => False
  | .protocol _ => False
  | _ => True

/-- every exception of a download is one with a handler, and its header is a number that the bar draws, or none -/
def Smooth (w : World) (length : Option (List Char) → Except Other (Option Double)) (url : String) : Prop :=
  (∀ e, w.net url = .raises e → e.Known) ∧ ∀ r, w.net url = .responds r →
    (∃ total, length r.contentLength = .ok total ∧ w.bar total = true) ∧ ∀ e ∈ r.ending, e.Known

/-- a response that comes to its end, with these bytes -/
def Delivers (w : World) (url : String) (bytes : Bytes) : Prop :=
  ∃ r, w.net url = .responds r ∧ r.ending = none ∧ Piece.join r.reads = bytes

/-- a response that comes to its end, with as many bytes as its header says -/
def Complete (w : World) (url : String) : Prop :=
  ∃ r, w.net url = .responds r ∧ r.ending = none ∧
    ∀ n, expectedBytes r.contentLength = .ok (some n) → ((Piece.join r.reads).length : Int) = n

/-- the sidecar has this digest -/
def Verified (w : World) (url : String) (actual : List Char) : Prop :=
  ∃ sidecar digest, Delivers w (url ++ ".sha256") sidecar ∧ firstField w sidecar = .ok digest ∧
    Str.lower actual = Str.lower digest

/-- the fetch of the kernel meets nothing that has no handler; the sidecar is asked for behind the kernel only -/
def KernelForeseen (w : World) (url : String) : Prop :=
  Smooth w floatLength url ∧ ((∃ bytes, Delivers w url bytes) → Smooth w floatLength (url ++ ".sha256"))

def RootfsForeseen (w : World) (url : String) : Prop :=
  Smooth w intLength url ∧ (Complete w url → Smooth w floatLength (url ++ ".sha256"))

section Specs

variable {w : World} {fail : String → Exc} {length : Option (List Char) → Except Other (Option Double)} {url : String}

theorem mapError_spec (w : World) (fail : String → Exc) (url : String) (e : NetError) :
    (e.Known ∧ ∃ text, mapError w fail url e = fail text) ∨ (¬ e.Known ∧ ∃ o, mapError w fail url e = .other o) := by
  cases e with
  | http code => exact .inl ⟨trivial, _, rfl⟩
  | url reason => exact .inl ⟨trivial, _, rfl⟩
  | timeout => exact .inl ⟨trivial, _, rfl⟩
  | connection text => exact .inr ⟨id, _, rfl⟩
  | protocol text => exact .inr ⟨id, _, rfl⟩

theorem smooth_raises {e : NetError} (hnet : w.net url = .raises e) : Smooth w length url ↔ e.Known := by
  simp [Smooth, hnet]

theorem smooth_responds {r : Response} (hnet : w.net url = .responds r) : Smooth w length url ↔
    (∃ total, length r.contentLength = .ok total ∧ w.bar total = true) ∧ ∀ e ∈ r.ending, e.Known := by
  simp [Smooth, hnet]

theorem not_delivers_of_raises {e : NetError} (hnet : w.net url = .raises e) (bytes : Bytes) : ¬ Delivers w url bytes := by
  rintro ⟨r, hr, -⟩
  rw [hnet] at hr
  cases hr

theorem not_delivers_of_ending {r : Response} {e : NetError} (hnet : w.net url = .responds r) (hending : r.ending = some e)
    (bytes : Bytes) : ¬ Delivers w url bytes := by
  rintro ⟨r', hr, hend, -⟩
  rw [hnet] at hr
  cases hr
  rw [hending] at hend
  cases hend

/-- one download -/
theorem receive_spec (w : World) (fail : String → Exc) (length : Option (List Char) → Except Other (Option Double))
    (url : String) :
    (∃ r, receive w fail length url = (Piece.join r.reads, .ok r.contentLength) ∧ w.net url = .responds r ∧ r.ending = none ∧
      Smooth w length url) ∨
    (∃ bytes text, receive w fail length url = (bytes, .error (fail text)) ∧ Smooth w length url ∧ ∀ b, ¬ Delivers w url b) ∨
    (∃ bytes o, receive w fail length url = (bytes, .error (.other o)) ∧ ¬ Smooth w length url) := by
  unfold receive
  cases hnet : w.net url with
  | raises e =>
    rw [smooth_raises hnet]
    rcases mapError_spec w fail url e with ⟨hknown, text, htext⟩ | ⟨hknown, o, ho⟩
    · exact .inr (.inl ⟨[], text, by simp only [htext], hknown, not_delivers_of_raises hnet⟩)
    · exact .inr (.inr ⟨[], o, by simp only [ho], hknown⟩)
  | responds r =>
    rw [smooth_responds hnet]
    cases hlength : length r.contentLength with
    | error o => exact .inr (.inr ⟨[], o, by simp [hlength], by simp⟩)
    | ok total =>
      cases hbar : w.bar total with
      | false => exact .inr (.inr ⟨[], .bar, by simp [hlength, hbar], by simp [hbar]⟩)
      | true =>
        have hdraws : ∃ drawn, (.ok total : Except Other (Option Double)) = .ok drawn ∧ w.bar drawn = true := ⟨total, rfl, hbar⟩
        cases hending : r.ending with
        | none => exact .inl ⟨r, by simp [hlength, hbar, hending], rfl, hending, hdraws, by simp⟩
        | some e =>
          rcases mapError_spec w fail url e with ⟨hknown, text, htext⟩ | ⟨hknown, o, ho⟩
          · exact .inr (.inl ⟨Piece.join r.reads, text, by simp [hlength, hbar, hending, htext],
              ⟨hdraws, by simpa using hknown⟩, not_delivers_of_ending hnet hending⟩)
          · exact .inr (.inr ⟨Piece.join r.reads, o, by simp [hlength, hbar, hending, ho], fun h => hknown (h.2 e rfl)⟩)

/-- the sidecar and its digest -/
theorem verifyDigest_spec (w : World) (fail : String → Exc) (url : String) (actual : List Char) :
    (verifyDigest w fail url actual = .ok () ∧ Verified w url actual ∧ Smooth w floatLength (url ++ ".sha256")) ∨
    (∃ text, verifyDigest w fail url actual = .error (fail text) ∧ Smooth w floatLength (url ++ ".sha256")) ∨
    (∃ o, verifyDigest w fail url actual = .error (.other o) ∧ ¬ Smooth w floatLength (url ++ ".sha256")) := by
  unfold verifyDigest sidecarDigest fetchBytes
  rcases receive_spec w fail floatLength (url ++ ".sha256") with
    ⟨r, hreceive, hnet, hending, hsmooth⟩ | ⟨bytes, text, hreceive, hsmooth, -⟩ | ⟨bytes, o, hreceive, hsmooth⟩
  · rw [hreceive]
    cases hfield : firstField w (Piece.join r.reads) with
    | error e =>
      exact .inr (.inl ⟨"malformed/empty checksum sidecar " ++ url ++ ".sha256: " ++ e, by simp only [hfield], hsmooth⟩)
    | ok digest =>
      by_cases hmatch : Str.lower actual = Str.lower digest
      · exact .inl ⟨by simp [hfield, hmatch], ⟨_, digest, ⟨r, hnet, hending, rfl⟩, hfield, hmatch⟩, hsmooth⟩
      · exact .inr (.inl ⟨mismatchText url digest actual, by simp [hfield, hmatch], hsmooth⟩)
  · rw [hreceive]
    exact .inr (.inl ⟨text, rfl, hsmooth⟩)
  · rw [hreceive]
    exact .inr (.inr ⟨o, rfl, hsmooth⟩)

/-- the bytes of the kernel -/
theorem kernelBytes_spec (w : World) (url : String) :
    (∃ bytes, kernelBytes w url = .ok bytes ∧ Delivers w url bytes ∧ Verified w url (w.sha256 bytes).toList ∧
      KernelForeseen w url) ∨
    (∃ text, kernelBytes w url = .error (.kernelFetch text) ∧ KernelForeseen w url) ∨
    (∃ o, kernelBytes w url = .error (.other o) ∧ ¬ KernelForeseen w url) := by
  unfold kernelBytes
  rcases receive_spec w .kernelFetch floatLength url with
    ⟨r, hreceive, hnet, hending, hsmooth⟩ | ⟨bytes, text, hreceive, hsmooth, hnone⟩ | ⟨bytes, o, hreceive, hsmooth⟩
  · have hdelivers : Delivers w url (Piece.join r.reads) := ⟨r, hnet, hending, rfl⟩
    rw [hreceive]
    rcases verifyDigest_spec w .kernelFetch url (w.sha256 (Piece.join r.reads)).toList with
      ⟨hverify, hverified, hsidecar⟩ | ⟨text, hverify, hsidecar⟩ | ⟨o, hverify, hsidecar⟩
    · exact .inl ⟨_, by simp only [hverify]; rfl, hdelivers, hverified, hsmooth, fun _ => hsidecar⟩
    · exact .inr (.inl ⟨text, by simp only [hverify]; rfl, hsmooth, fun _ => hsidecar⟩)
    · exact .inr (.inr ⟨o, by simp only [hverify]; rfl, fun h => hsidecar (h.2 ⟨_, hdelivers⟩)⟩)
  · rw [hreceive]
    refine .inr (.inl ⟨text, rfl, hsmooth, fun h => ?_⟩)
    obtain ⟨b, hb⟩ := h
    exact absurd hb (hnone b)
  · rw [hreceive]
    exact .inr (.inr ⟨o, rfl, fun h => hsmooth h.1⟩)

/-- the number of bytes that the header of a response announces -/
theorem checkLength_spec (url : String) (header : Option (List Char)) (bytes : Bytes) :
    (checkLength url header bytes = .ok () ∧ ∀ n, expectedBytes header = .ok (some n) → (bytes.length : Int) = n) ∨
    (∃ text, checkLength url header bytes = .error (.rootfsFetch text) ∧
      ∃ n, expectedBytes header = .ok (some n) ∧ (bytes.length : Int) ≠ n) := by
  unfold checkLength
  cases hexpected : expectedBytes header with
  | error e => exact .inl ⟨rfl, by simp⟩
  | ok expected =>
    cases expected with
    | none => exact .inl ⟨rfl, by simp⟩
    | some n =>
      by_cases hlength : (bytes.length : Int) = n
      · exact .inl ⟨by simp [hlength], by simpa using hlength⟩
      · exact .inr ⟨truncatedText url bytes.length n, by simp [hlength], n, rfl, hlength⟩

/-- the loop writes the whole stream, below the cap, or raises -/
theorem inflateLoop_spec (url : String) (error : Option String) (chunks : List (Piece UInt8 chunkSize)) :
    ∀ written : Bytes, written.length ≤ maxDecompressedBytes →
      (inflateLoop url error written chunks = .ok (written ++ Piece.join chunks) ∧ error = none ∧
        (written ++ Piece.join chunks).length ≤ maxDecompressedBytes) ∨
      ∃ text, inflateLoop url error written chunks = .error (.rootfsFetch text) := by
  induction chunks with
  | nil =>
    intro written hle
    cases error with
    | none =>
      rw [Piece.join_nil, List.append_nil]
      exact .inl ⟨rfl, rfl, hle⟩
    | some e => exact .inr ⟨_, rfl⟩
  | cons chunk chunks ih =>
    intro written hle
    rw [inflateLoop]
    by_cases hcap : maxDecompressedBytes < written.length + chunk.bytes.length
    · rw [if_pos hcap]
      exact .inr ⟨_, rfl⟩
    · rw [if_neg hcap, Piece.join_cons, ← List.append_assoc]
      apply ih
      rw [List.length_append]
      omega

theorem rootfsBytes_received {bytes : Bytes} {header : Option (List Char)}
    (h : receive w .rootfsFetch intLength url = (bytes, .ok header)) :
    rootfsBytes w url = (do
      checkLength url header bytes
      verifyDigest w .rootfsFetch url (w.sha256 bytes).toList
      inflateLoop url (w.zstd bytes).error [] (w.zstd bytes).chunks) := rootfsBytes_eq h

/-- the bytes of the rootfs -/
theorem rootfsBytes_spec (w : World) (url : String) :
    (∃ compressed, rootfsBytes w url = .ok (Piece.join (w.zstd compressed).chunks) ∧ Delivers w url compressed ∧
      Verified w url (w.sha256 compressed).toList ∧ (w.zstd compressed).error = none ∧
      (Piece.join (w.zstd compressed).chunks).length ≤ maxDecompressedBytes ∧ RootfsForeseen w url) ∨
    (∃ text, rootfsBytes w url = .error (.rootfsFetch text) ∧ RootfsForeseen w url) ∨
    (∃ o, rootfsBytes w url = .error (.other o) ∧ ¬ RootfsForeseen w url) := by
  rcases receive_spec w .rootfsFetch intLength url with
    ⟨r, hreceive, hnet, hending, hsmooth⟩ | ⟨bytes, text, hreceive, hsmooth, hnone⟩ | ⟨bytes, o, hreceive, hsmooth⟩
  · rw [rootfsBytes_received hreceive]
    rcases checkLength_spec url r.contentLength (Piece.join r.reads) with
      ⟨hlength, hcomplete⟩ | ⟨text, hlength, n, hexpected, hne⟩
    · have hdelivers : Delivers w url (Piece.join r.reads) := ⟨r, hnet, hending, rfl⟩
      have hwhole : Complete w url := ⟨r, hnet, hending, hcomplete⟩
      rcases verifyDigest_spec w .rootfsFetch url (w.sha256 (Piece.join r.reads)).toList with
        ⟨hverify, hverified, hsidecar⟩ | ⟨text, hverify, hsidecar⟩ | ⟨o, hverify, hsidecar⟩
      · have hforeseen : RootfsForeseen w url := ⟨hsmooth, fun _ => hsidecar⟩
        rcases inflateLoop_spec url (w.zstd (Piece.join r.reads)).error (w.zstd (Piece.join r.reads)).chunks []
          (Nat.zero_le _) with ⟨hinflate, hwell, hcap⟩ | ⟨text, hinflate⟩
        · exact .inl ⟨_, by rw [hlength, hverify, hinflate]; rfl, hdelivers, hverified, hwell, hcap, hforeseen⟩
        · exact .inr (.inl ⟨text, by rw [hlength, hverify, hinflate]; rfl, hforeseen⟩)
      · exact .inr (.inl ⟨text, by rw [hlength, hverify]; rfl, hsmooth, fun _ => hsidecar⟩)
      · exact .inr (.inr ⟨o, by rw [hlength, hverify]; rfl, fun h => hsidecar (h.2 hwhole)⟩)
    · refine .inr (.inl ⟨text, by rw [hlength]; rfl, hsmooth, fun h => ?_⟩)
      obtain ⟨r', hnet', -, hcomplete⟩ := h
      rw [hnet] at hnet'
      cases hnet'
      exact absurd (hcomplete n hexpected) hne
  · rw [rootfsBytes_eq hreceive]
    refine .inr (.inl ⟨text, rfl, hsmooth, fun h => ?_⟩)
    obtain ⟨r, hnet, hending, -⟩ := h
    exact absurd ⟨r, hnet, hending, rfl⟩ (hnone _)
  · rw [rootfsBytes_eq hreceive]
    exact .inr (.inr ⟨o, rfl, fun h => hsmooth h.1⟩)

end Specs

/-! ## Verified bytes, or a fallback -/

/-- a fetch of the kernel: verified bytes in its place, or its own error; nothing else changes -/
def KernelOutcome (w : World) (url : String) (dir : Dir) : EStateM.Result Exc Site Unit → Prop
  | .ok _ t => ∃ bytes, t = ⟨{ dir with kernel := some bytes }, []⟩ ∧ Delivers w url bytes ∧
      Verified w url (w.sha256 bytes).toList
  | .error (.kernelFetch _) t => t = ⟨dir, []⟩
  | .error _ _ => False

/-- a fetch of the rootfs: what verified bytes decode to in its place, below the cap, or its own error -/
def RootfsOutcome (w : World) (version : Int) (url : String) (dir : Dir) : EStateM.Result Exc Site Unit → Prop
  | .ok _ t => ∃ compressed image, t = ⟨{ dir with rootfs := some image, marker := some (markerText version) }, []⟩ ∧
      Delivers w url compressed ∧ Verified w url (w.sha256 compressed).toList ∧
      image = Piece.join (w.zstd compressed).chunks ∧ (w.zstd compressed).error = none ∧ image.length ≤ maxDecompressedBytes
  | .error (.rootfsFetch _) t => t = ⟨dir, []⟩
  | .error _ _ => False

/-- what `build_vm_kernel` raises, one of the local builds has raised -/
def FallsBack (w : World) (kernelUrl rootfsUrl : String) (version : Int) : Prop :=
  ∀ (fromSource overridden : Bool) (compile bake : M Unit) (s t : Site) (e : Exc),
    buildVmKernel w kernelUrl rootfsUrl version fromSource overridden compile bake s = .error e t →
      (∃ u, compile u = .error e t) ∨ ∃ u, bake u = .error e t

section Outcomes

variable {w : World} {url : String} {version : Int} {dir : Dir}

theorem kernel_meets_iff (w : World) (url : String) (dir : Dir) :
    KernelOutcome w url dir (kernelFetchPrebuilt w url ⟨dir, []⟩) ↔ KernelForeseen w url := by
  rw [kernelFetchPrebuilt_eq]
  rcases kernelBytes_spec w url with ⟨bytes, hbytes, hdelivers, hverified, hforeseen⟩ | ⟨text, hbytes, hforeseen⟩ |
    ⟨o, hbytes, hforeseen⟩
  · rw [hbytes]
    exact iff_of_true ⟨bytes, rfl, hdelivers, hverified⟩ hforeseen
  · rw [hbytes]
    exact iff_of_true rfl hforeseen
  · rw [hbytes]
    exact iff_of_false id hforeseen

theorem rootfs_meets_iff (w : World) (version : Int) (url : String) (dir : Dir) :
    RootfsOutcome w version url dir (rootfsFetchPrebuilt w version url ⟨dir, []⟩) ↔ RootfsForeseen w url := by
  rw [rootfsFetchPrebuilt_eq]
  rcases rootfsBytes_spec w url with ⟨compressed, hbytes, hdelivers, hverified, hwell, hcap, hforeseen⟩ |
    ⟨text, hbytes, hforeseen⟩ | ⟨o, hbytes, hforeseen⟩
  · rw [hbytes]
    exact iff_of_true ⟨compressed, _, rfl, hdelivers, hverified, rfl, hwell, hcap⟩ hforeseen
  · rw [hbytes]
    exact iff_of_true rfl hforeseen
  · rw [hbytes]
    exact iff_of_false id hforeseen

/-- an exception of a foreseen fetch is caught -/
theorem kernel_caught (h : KernelForeseen w url) {s t : Site} {e : Exc} (hfetch : kernelFetchPrebuilt w url s = .error e t) :
    isKernelFetch e = true := by
  rw [kernelFetchPrebuilt_eq] at hfetch
  rcases kernelBytes_spec w url with ⟨bytes, hbytes, -⟩ | ⟨text, hbytes, -⟩ | ⟨o, hbytes, hforeseen⟩
  · rw [hbytes] at hfetch
    cases hfetch
  · rw [hbytes] at hfetch
    cases hfetch
    rfl
  · exact absurd h hforeseen

theorem rootfs_caught (h : RootfsForeseen w url) {s t : Site} {e : Exc}
    (hfetch : rootfsFetchPrebuilt w version url s = .error e t) : isRootfsFetch e = true := by
  rw [rootfsFetchPrebuilt_eq] at hfetch
  rcases rootfsBytes_spec w url with ⟨compressed, hbytes, -⟩ | ⟨text, hbytes, -⟩ | ⟨o, hbytes, hforeseen⟩
  · rw [hbytes] at hfetch
    cases hfetch
  · rw [hbytes] at hfetch
    cases hfetch
    rfl
  · exact absurd h hforeseen

theorem tryFetch_error {fetch : M Unit} {caught : Exc → Bool} {s t : Site} {e : Exc} (h : fetch s = .error e t) :
    tryFetch fetch caught s = (if caught e then pure false else throw e : M Bool) t :=
  tryCatch_error (bind_error_iff.2 (.inl h))

theorem tryFetch_caught {fetch : M Unit} {caught : Exc → Bool} (hcaught : ∀ s t e, fetch s = .error e t → caught e = true)
    (s : Site) : ∃ fetched t, tryFetch fetch caught s = .ok fetched t := by
  cases hfetch : fetch s with
  | ok u t => exact ⟨true, t, tryCatch_ok (bind_ok_iff.2 ⟨u, t, hfetch, rfl⟩)⟩
  | error e t =>
    refine ⟨false, t, ?_⟩
    calc tryFetch fetch caught s = (if caught e then pure false else throw e : M Bool) t := tryFetch_error hfetch
      _ = .ok false t := by
        rw [if_pos (hcaught s t e hfetch)]
        rfl

/-- with a fetch whose exceptions are caught, an artifact fails as its local build does -/
theorem obtainArtifact_error {skip : Bool} {fetch build : M Unit} {caught : Exc → Bool}
    (hcaught : ∀ s t e, fetch s = .error e t → caught e = true) {s t : Site} {e : Exc}
    (h : obtainArtifact skip fetch caught build s = .error e t) : ∃ u, build u = .error e t := by
  have hstart : ∃ fetched u, (if skip then pure false else tryFetch fetch caught : M Bool) s = .ok fetched u := by
    cases skip with
    | true => exact ⟨false, s, rfl⟩
    | false => exact tryFetch_caught hcaught s
  obtain ⟨fetched, u, hstart⟩ := hstart
  unfold obtainArtifact at h
  rw [bind_of_ok hstart] at h
  cases fetched with
  | true => cases h
  | false => exact ⟨u, h⟩

/-- every fetch meets its outcome, and the build falls back, exactly if the transport does nothing that has no handler -/
theorem prebuilt_iff (w : World) (kernelUrl rootfsUrl : String) (version : Int) (dir : Dir) :
    (KernelOutcome w kernelUrl dir (kernelFetchPrebuilt w kernelUrl ⟨dir, []⟩) ∧
      RootfsOutcome w version rootfsUrl dir (rootfsFetchPrebuilt w version rootfsUrl ⟨dir, []⟩) ∧
      FallsBack w kernelUrl rootfsUrl version) ↔
    KernelForeseen w kernelUrl ∧ RootfsForeseen w rootfsUrl := by
  rw [kernel_meets_iff, rootfs_meets_iff, ← and_assoc, and_iff_left_iff_imp]
  intro hforeseen fromSource overridden compile bake s t e h
  rcases bind_error_iff.1 h with h | ⟨_, _, -, h⟩
  · exact .inl (obtainArtifact_error (fun _ _ _ hfetch => kernel_caught hforeseen.1 hfetch) h)
  · exact .inr (obtainArtifact_error (fun _ _ _ hfetch => rootfs_caught hforeseen.2 hfetch) h)

end Outcomes

/-- a connection that is reset behind the request -/
def resetWorld : World where
  net _ := .responds ⟨some "12000000".toList, [], some (.connection "[Errno 104] Connection reset by peer")⟩
  bar _ := true
  sha256 _ := ""
  zstd _ := ⟨[], none⟩
  decodeError _ := ""
  httpTimeout := "30.0"

/-- the kernel is reset at its first read: the fetch raises what nobody catches, and no local build runs -/
theorem reset_aborts_build :
    let dir : Dir := ⟨none, none, none⟩
    let kernelUrl := kernelReleaseUrl "6.12.9" "abc123def456"
    let reset : Exc := .other (.connection "[Errno 104] Connection reset by peer")
    kernelFetchPrebuilt resetWorld kernelUrl ⟨dir, []⟩ = .error reset ⟨dir, []⟩ ∧
    ¬ KernelOutcome resetWorld kernelUrl dir (kernelFetchPrebuilt resetWorld kernelUrl ⟨dir, []⟩) ∧
    buildVmKernel resetWorld kernelUrl (rootfsReleaseUrl 14 "abc123def456") 14 false false (pure ()) (pure ()) ⟨dir, []⟩ =
      .error reset ⟨dir, []⟩ := by
  intro dir kernelUrl reset
  have hbytes : kernelBytes resetWorld kernelUrl = .error reset := by decide +kernel
  have hfetch : kernelFetchPrebuilt resetWorld kernelUrl ⟨dir, []⟩ = .error reset ⟨dir, []⟩ := by
    rw [kernelFetchPrebuilt_eq, hbytes]
    rfl
  refine ⟨hfetch, ?_, ?_⟩
  · rw [hfetch]
    exact id
  · apply bind_error_iff.2
    refine .inl (bind_error_iff.2 (.inl ?_))
    exact tryFetch_error hfetch

end Beetroot.Build
