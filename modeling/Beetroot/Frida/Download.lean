/-
Decoding a frida-server download: the loop of `download` in `frida_download.py`.

The compressed payload is read in pieces and fed to an incremental decompressor, whose output goes to a temporary file next to the
cache file. The loop ends with the stream. It replaced a call of `lzma.decompress` on the whole payload, which decodes one stream
after another; the loop stops behind the first. The compressed format is a parameter.

Results:
- `decodeLoop_spec`: the loop ends on every way the payload is cut, with the content of the first stream or with an error;
- `streaming_iff_oneShot`: exactly when it does what the one-shot decoder did;
- `second_stream_dropped`: two xz streams, of which the second is lost.
-/
import Beetroot.Lib.Decoder
import Beetroot.Lib.Piece

namespace Beetroot.Frida

open Lib Lib.Decoder

/-! ## The loop -/

/-- `_CHUNK_SIZE` -/
def chunkSize : ℕ := 65536

/-- `_MAX_DECOMPRESSED_BYTES` -/
def maxDecompressedBytes : ℕ := 512 * 1024 * 1024

/-- why nothing is published, each a `FridaFetchError` -/
inductive FetchError where
  /-- the input ended before the stream -/
  | truncated
  /-- `LZMAError` -/
  | corrupt
  | ceiling
  /-- the connection failed during a read -/
  | connection
deriving DecidableEq, Repr

variable (F : Format UInt8)

/-- what the decompressor is fed next: a read when it asks for input, nothing otherwise; `breaks` says that a read behind the last
one fails, where it would find the end of the payload else -/
def nextFeed (breaks : Bool) (d : Decompressor F) (reads : List (Piece UInt8 chunkSize)) :
    Except FetchError (List UInt8 × List (Piece UInt8 chunkSize)) :=
  if d.needsInput then
    match reads with
    | [] => .error (if breaks then .connection else .truncated)
    | read :: reads => .ok (read.bytes, reads)
  else .ok ([], reads)

/-- one call of the decompressor; `decompressed_total` is the length of what was written -/
def decodePiece (d : Decompressor F) (written toFeed : List UInt8) : Except FetchError (Decompressor F × List UInt8) :=
  match d.decompress chunkSize toFeed with
  | none => .error .corrupt
  | some (piece, d) =>
    if maxDecompressedBytes < written.length + piece.length then .error .ceiling else .ok (d, written ++ piece)

/-- `while not decompressor.eof`, for at most `fuel` passes -/
def decodeLoop (breaks : Bool) : ℕ → Decompressor F → List UInt8 → List (Piece UInt8 chunkSize) →
    Option (Except FetchError (List UInt8))
  | 0, _, _, _ => none
  | fuel + 1, d, written, reads =>
    if d.eof then some (.ok written)
    else match nextFeed F breaks d reads with
      | .error e => some (.error e)
      | .ok (toFeed, reads) => match decodePiece F d written toFeed with
        | .error e => some (.error e)
        | .ok (d, written) => decodeLoop breaks fuel d written reads

/-- the cache file, given what it was before and how the loop ended: the temporary file replaces it, or is removed -/
def publish (cache : Option (List UInt8)) : Except FetchError (List UInt8) → Option (List UInt8)
  | .ok written => some written
  | .error _ => cache

/-! ## What the loop returns -/

variable {F}

section NextFeed

variable {breaks : Bool} {d : Decompressor F} {reads rest : List (Piece UInt8 chunkSize)} {toFeed : List UInt8} {e : FetchError}

theorem nextFeed_error (h : nextFeed F breaks d reads = .error e) : d.needsInput = true ∧ reads = [] := by
  by_cases hneeds : d.needsInput = true
  · cases reads with
    | nil => exact ⟨hneeds, rfl⟩
    | cons read reads => simp [nextFeed, hneeds] at h
  · simp [nextFeed, hneeds] at h

theorem nextFeed_ok (h : nextFeed F breaks d reads = .ok (toFeed, rest)) :
    Piece.join reads = toFeed ++ Piece.join rest ∧ (d.needsInput = true → toFeed ≠ []) := by
  by_cases hneeds : d.needsInput = true
  · cases reads with
    | nil => simp [nextFeed, hneeds] at h
    | cons read reads =>
      simp only [nextFeed, hneeds, if_true, Except.ok.injEq, Prod.mk.injEq] at h
      obtain ⟨rfl, rfl⟩ := h
      exact ⟨Piece.join_cons _ _, fun _ => read.ne⟩
  · simp only [nextFeed, hneeds, Bool.false_eq_true, if_false, Except.ok.injEq, Prod.mk.injEq] at h
    obtain ⟨rfl, rfl⟩ := h
    exact ⟨rfl, fun hn => absurd hn hneeds⟩

end NextFeed

/-- the loop ends; it succeeds exactly when the first stream is complete and below the ceiling, with its content -/
theorem decodeLoop_spec {breaks : Bool} {payload : List UInt8} {fuel : ℕ} {d : Decompressor F} {written : List UInt8}
    {reads : List (Piece UInt8 chunkSize)}
    (hinv : (d.future (Piece.join reads)).push written = run F (some F.init) payload)
    (hmax : written.length ≤ maxDecompressedBytes) (hfuel : d.measure (Piece.join reads) < fuel) :
    ∃ r, decodeLoop F breaks fuel d written reads = some r ∧
      ∀ w, r = .ok w ↔ (run F (some F.init) payload).content = some w ∧ w.length ≤ maxDecompressedBytes := by
  induction fuel generalizing d written reads with
  | zero => exact absurd hfuel (Nat.not_lt_zero _)
  | succ fuel ih =>
    rw [decodeLoop, ← hinv]
    by_cases heof : d.eof = true
    · refine ⟨.ok written, if_pos heof, fun w => ?_⟩
      rw [Decompressor.future_eof heof, Outcome.push, List.append_nil, Outcome.content, Option.some_inj, Except.ok.injEq]
      refine ⟨fun h => ⟨h, h ▸ hmax⟩, fun h => h.1⟩
    · rw [if_neg heof]
      cases hfeed : nextFeed F breaks d reads with
      | error e =>
        obtain ⟨hneeds, hreads⟩ := nextFeed_error hfeed
        obtain ⟨s, hmore⟩ := Decompressor.future_hungry hneeds
        refine ⟨.error e, rfl, fun w => ?_⟩
        rw [hreads, Piece.join_nil, hmore]
        simp [Outcome.push, Outcome.content]
      | ok p =>
        obtain ⟨toFeed, rest⟩ := p
        obtain ⟨hjoin, hfed⟩ := nextFeed_ok hfeed
        rw [hjoin] at hfuel hinv ⊢
        cases hcall : d.decompress chunkSize toFeed with
        | none =>
          refine ⟨.error .corrupt, by simp [decodePiece, hcall], fun w => ?_⟩
          rw [Decompressor.decompress_none hcall]
          simp [Outcome.push, Outcome.content]
        | some q =>
          obtain ⟨piece, d'⟩ := q
          obtain ⟨hfuture, hmeasure⟩ :=
            Decompressor.decompress_some (by decide) (Bool.eq_false_iff.2 heof) hfed hcall (Piece.join rest)
          rw [hfuture, Outcome.push_push] at hinv ⊢
          by_cases hceil : maxDecompressedBytes < written.length + piece.length
          · refine ⟨.error .ceiling, by simp [decodePiece, hcall, hceil], fun w => ?_⟩
            -- what was written is a front of the content, so that the content is past the ceiling too
            refine ⟨fun h => by (cases h), fun h => ?_⟩
            obtain ⟨hw, hle⟩ := h
            rw [Outcome.content_push, Option.map_eq_some_iff] at hw
            obtain ⟨out, -, rfl⟩ := hw
            simp only [List.length_append] at hle
            omega
          · have hnext : decodePiece F d written toFeed = .ok (d', written ++ piece) := by simp [decodePiece, hcall, hceil]
            simp only [hnext]
            obtain ⟨r, hr, hiff⟩ := ih hinv (by rw [List.length_append]; omega) (by omega)
            exact ⟨r, hr, fun w => by rw [hiff w, ← hinv]⟩

/-! ## The one-shot decoder -/

/-- what the one-shot decoder publishes, with the ceiling -/
def oneShot (F : Format UInt8) (payload : List UInt8) : Option (List UInt8) :=
  (decompress F payload).filter fun data => data.length ≤ maxDecompressedBytes

/-- however the payload is cut into reads, the loop ends, and publishes exactly what the one-shot decoder does -/
def StreamsAsOneShot (F : Format UInt8) (payload : List UInt8) : Prop :=
  ∀ reads : List (Piece UInt8 chunkSize), Piece.join reads = payload →
    ∃ n r, (∀ fuel, n ≤ fuel → decodeLoop F false fuel .new [] reads = some r) ∧ publish none r = oneShot F payload

/-- more fuel does not change a result -/
theorem decodeLoop_more {breaks : Bool} {fuel fuel' : ℕ} {d : Decompressor F} {written : List UInt8}
    {reads : List (Piece UInt8 chunkSize)} {r : Except FetchError (List UInt8)}
    (h : decodeLoop F breaks fuel d written reads = some r) (hle : fuel ≤ fuel') :
    decodeLoop F breaks fuel' d written reads = some r := by
  induction fuel generalizing fuel' d written reads with
  | zero => cases h
  | succ fuel ih =>
    obtain ⟨fuel', rfl⟩ : ∃ n, fuel' = n + 1 := ⟨fuel' - 1, by omega⟩
    rw [decodeLoop] at h ⊢
    by_cases heof : d.eof = true
    · rw [if_pos heof] at h ⊢
      exact h
    · rw [if_neg heof] at h ⊢
      cases hfeed : nextFeed F breaks d reads with
      | error e => simpa [hfeed] using h
      | ok p =>
        obtain ⟨toFeed, rest⟩ := p
        cases hcall : decodePiece F d written toFeed with
        | error e => simpa [hfeed, hcall] using h
        | ok q =>
          simp only [hfeed, hcall] at h ⊢
          exact ih h (by omega)

/-- a whole download ends with the content of the first stream, or with an error -/
theorem decodeLoop_new (breaks : Bool) (reads : List (Piece UInt8 chunkSize)) : ∃ n r,
    (∀ fuel, n ≤ fuel → decodeLoop F breaks fuel .new [] reads = some r) ∧
      ∀ w, r = .ok w ↔ (run F (some F.init) (Piece.join reads)).content = some w ∧ w.length ≤ maxDecompressedBytes := by
  have hinv : ((Decompressor.new : Decompressor F).future (Piece.join reads)).push [] =
      run F (some F.init) (Piece.join reads) := by simp [Decompressor.new, Decompressor.future]
  obtain ⟨r, hr, hiff⟩ := @decodeLoop_spec F breaks _ _ _ _ _ hinv (Nat.zero_le _) (Nat.lt_succ_self _)
  exact ⟨_, r, fun fuel hle => decodeLoop_more hr hle, hiff⟩

theorem publish_iff {r : Except FetchError (List UInt8)} {w : List UInt8} : publish none r = some w ↔ r = .ok w := by
  cases r with
  | error e => simp [publish]
  | ok v => simp [publish]

/-- the loop does what the one-shot decoder did, if and only if a first stream below the ceiling is followed by nothing: by no
further stream with content and by none that breaks off -/
theorem streaming_iff_oneShot (F : Format UInt8) (payload : List UInt8) : StreamsAsOneShot F payload ↔
    ∀ out rest, run F (some F.init) payload = .done out rest → out.length ≤ maxDecompressedBytes →
      trailing F rest.length rest = some [] := by
  refine ⟨fun h out rest hrun hle => ?_, fun h reads hreads => ?_⟩
  · obtain ⟨n, r, hr, hpub⟩ := h (Piece.single (by decide) payload) (Piece.join_single _ _)
    obtain ⟨n', r', hr', hiff⟩ := decodeLoop_new (F := F) false (Piece.single (by decide) payload)
    have hsame : r = r' := Option.some.inj ((hr (n + n') (by omega)).symm.trans (hr' (n + n') (by omega)))
    have hok : r' = .ok out := (hiff out).2 (by rw [Piece.join_single, hrun]; exact ⟨rfl, hle⟩)
    rw [hsame, hok, publish, eq_comm, oneShot, Option.filter_eq_some_iff] at hpub
    have hdata : (trailing F rest.length rest).map (out ++ ·) = some out := by simpa [decompress, hrun] using hpub.1
    obtain ⟨t, ht, happend⟩ := Option.map_eq_some_iff.1 hdata
    have hnil : t = [] := by simpa using happend
    rw [ht, hnil]
  · obtain ⟨n, r, hr, hiff⟩ := decodeLoop_new (F := F) false reads
    refine ⟨n, r, hr, Option.ext fun w => ?_⟩
    rw [publish_iff, hiff w, hreads, oneShot, Option.filter_eq_some_iff, decide_eq_true_iff]
    refine and_congr_left fun hle => ?_
    cases hrun : run F (some F.init) payload with
    | more s out => simp [decompress, hrun, Outcome.content]
    | corrupt => simp [decompress, hrun, Outcome.content]
    | done out rest =>
      have hdecompress : decompress F payload = (trailing F rest.length rest).map (out ++ ·) := by simp [decompress, hrun]
      rw [hdecompress, Outcome.content, Option.some_inj]
      refine ⟨fun hw => ?_, fun hw => ?_⟩
      · rw [h out rest hrun (hw ▸ hle), hw, Option.map_some, List.append_nil]
      · obtain ⟨t, ht, happend⟩ := Option.map_eq_some_iff.1 hw
        have hout : out.length ≤ maxDecompressedBytes := by
          rw [← happend, List.length_append] at hle
          omega
        rw [h out rest hrun hout, Option.some_inj] at ht
        rw [← happend, ← ht, List.append_nil]

/-- streams in the xz format, with the contents `a` and `b` and with none -/
def xzA : List UInt8 :=
  [253, 55, 122, 88, 90, 0, 0, 4, 230, 214, 180, 70, 2, 0, 33, 1, 22, 0, 0, 0, 116, 47, 229, 163, 1, 0, 0, 97, 0, 0, 0, 0, 5, 43,
    101, 46, 119, 132, 2, 51, 0, 1, 25, 1, 165, 44, 129, 204, 31, 182, 243, 125, 1, 0, 0, 0, 0, 4, 89, 90]

def xzB : List UInt8 :=
  [253, 55, 122, 88, 90, 0, 0, 4, 230, 214, 180, 70, 2, 0, 33, 1, 22, 0, 0, 0, 116, 47, 229, 163, 1, 0, 0, 98, 0, 0, 0, 0, 49,
    212, 130, 133, 158, 254, 168, 116, 0, 1, 25, 1, 165, 44, 129, 204, 31, 182, 243, 125, 1, 0, 0, 0, 0, 4, 89, 90]

def xzEmpty : List UInt8 :=
  [253, 55, 122, 88, 90, 0, 0, 4, 230, 214, 180, 70, 0, 0, 0, 0, 28, 223, 68, 33, 31, 182, 243, 125, 1, 0, 0, 0, 0, 4, 89, 90]

/-- the xz format, as far as these streams go -/
def xzSample : Format UInt8 := .ofTable [(xzA, [97]), (xzB, [98]), (xzEmpty, [])]

/-- `lzma.decompress` returns `ab`, the loop publishes `a` -/
theorem second_stream_dropped : ¬ StreamsAsOneShot xzSample (xzA ++ xzB) := by
  intro h
  obtain ⟨n, r, hr, hpub⟩ := h (Piece.single (by decide) (xzA ++ xzB)) (Piece.join_single _ _)
  obtain ⟨n', r', hr', hiff⟩ := decodeLoop_new (F := xzSample) false (Piece.single (by decide) (xzA ++ xzB))
  have hsame : r = r' := Option.some.inj ((hr (n + n') (by omega)).symm.trans (hr' (n + n') (by omega)))
  have hone : oneShot xzSample (xzA ++ xzB) = some [97, 98] := by decide +kernel
  have hfirst : (run xzSample (some xzSample.init) (xzA ++ xzB)).content = some [97] := by decide +kernel
  rw [hone, hsame, publish_iff, hiff, Piece.join_single, hfirst] at hpub
  exact absurd hpub.1 (by decide)

end Beetroot.Frida
