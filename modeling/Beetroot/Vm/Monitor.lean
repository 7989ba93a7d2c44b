/-
The dialogue with the QEMU monitor: `save_snapshot` and `_read_to_prompt` of `vm/boot_cache.py`.

The monitor sends a banner that ends in a prompt, takes a command, and sends its reply with the next prompt. The bytes arrive in
pieces of any size the socket likes. A read stops when what it has read so far ends in a prompt, white space aside, or when the
connection is closed; it looks at the end only, after each piece.

The UTF-8 decoding of the reply and its lower case are left to the bytes: an ASCII byte decodes to itself in any surroundings, and
no other character has an `e`, `r` or `o` as its lower case.

Results:
- `readToPrompt_ok`, `readToPrompt_error`: what a read returns, and when it fails;
- `saveSnapshot_sound`: a checkpoint is reported saved only when the reply has no error report and ends in a prompt or with the
  connection;
- `saveSnapshot_settled`: where the reply alone decides, the pieces do not matter;
- `saved_confirmed`: both together;
- `saved_after_hangup`: a monitor that hangs up behind the banner.
-/
import Beetroot.Lib.Piece
import Mathlib.Data.List.DropRight
import Mathlib.Data.List.Infix
import Mathlib.Tactic.Common

namespace Beetroot.Vm.Monitor

open Lib

/-! ## The monitor's side -/

/-- how the stream of the monitor ends: it closes the connection, or the socket fails (a reset, or the timeout of a silent one) -/
inductive Ending where
  | eof
  | osError
deriving DecidableEq, Repr

/-- what a dialogue meets -/
structure Dialogue where
  /-- the socket can be connected to -/
  connects : Bool := true
  /-- the command can be sent -/
  sends : Bool := true
  /-- what `recv` returns, one piece of at most `_MONITOR_CHUNK` bytes at a time -/
  pieces : List (Piece UInt8 4096)
  ending : Ending
deriving DecidableEq, Repr

/-- all the bytes the monitor sends -/
def Dialogue.stream (d : Dialogue) : List UInt8 := Piece.join d.pieces

/-! ## The reader -/

def ascii (text : String) : List UInt8 := text.toList.map fun c => c.toNat.toUInt8

/-- `_HMP_PROMPT` -/
def hmpPrompt : List UInt8 := ascii "(qemu)"

/-- white space of `bytes.rstrip` -/
def isSpace (b : UInt8) : Bool := b ∈ ascii " \t\n\r\x0b\x0c"

/-- `buf.rstrip().endswith(_HMP_PROMPT)` -/
def atPrompt (buf : List UInt8) : Bool := hmpPrompt <:+ buf.rdropWhile isSpace

/-- `"error" in reply.lower()` -/
def reportsError (reply : List UInt8) : Bool :=
  ascii "error" <:+: reply.map fun b => if 65 ≤ b ∧ b ≤ 90 then b + 32 else b

/-- `_read_to_prompt` with `buf` read so far: what it returns and the pieces that are left, or the failure of the socket -/
def readToPrompt (ending : Ending) : List UInt8 → List (Piece UInt8 4096) → Option (List UInt8 × List (Piece UInt8 4096))
  | buf, [] => if atPrompt buf || ending = .eof then some (buf, []) else none
  | buf, piece :: pieces => if atPrompt buf then some (buf, piece :: pieces) else readToPrompt ending (buf ++ piece.bytes) pieces

def saveSnapshot (d : Dialogue) : Bool :=
  if !d.connects then false
  else match readToPrompt d.ending [] d.pieces with
    | none => false
    | some (_, pieces) =>
      if !d.sends then false
      else match readToPrompt d.ending [] pieces with
        | none => false
        | some (reply, _) => !reportsError reply

/-- where in the stream the command is sent, if it is -/
def Dialogue.sentAt (d : Dialogue) : Option ℕ :=
  if !d.connects then none
  else match readToPrompt d.ending [] d.pieces with
    | none => none
    | some (banner, _) => if d.sends then some banner.length else none

/-! ## Reads -/

section Reads

variable {ending : Ending} {buf reply : List UInt8} {pieces rest : List (Piece UInt8 4096)}

/-- a read returns a front of the stream, up to a prompt or up to the end -/
theorem readToPrompt_ok (h : readToPrompt ending buf pieces = some (reply, rest)) :
    reply ++ Piece.join rest = buf ++ Piece.join pieces ∧ (atPrompt reply = true ∨ (rest = [] ∧ ending = .eof)) := by
  induction pieces generalizing buf with
  | nil =>
    rw [readToPrompt] at h
    split_ifs at h with hp
    cases h
    rw [Bool.or_eq_true, decide_eq_true_eq] at hp
    exact ⟨rfl, hp.imp_right fun he => ⟨rfl, he⟩⟩
  | cons piece pieces ih =>
    rw [readToPrompt] at h
    by_cases hp : atPrompt buf = true
    · rw [if_pos hp] at h
      cases h
      exact ⟨rfl, .inl hp⟩
    · rw [if_neg hp] at h
      obtain ⟨hjoin, hend⟩ := ih h
      refine ⟨?_, hend⟩
      rw [hjoin, Piece.join_cons, List.append_assoc]

/-- a read fails only with the socket, and not when the stream ends in a prompt -/
theorem readToPrompt_error (h : readToPrompt ending buf pieces = none) :
    ending = .osError ∧ atPrompt (buf ++ Piece.join pieces) = false := by
  induction pieces generalizing buf with
  | nil =>
    rw [readToPrompt] at h
    split_ifs at h with hp
    rw [Bool.or_eq_true, decide_eq_true_eq, not_or] at hp
    cases ending with
    | eof => exact absurd rfl hp.2
    | osError => exact ⟨rfl, by simpa using hp.1⟩
  | cons piece pieces ih =>
    rw [readToPrompt] at h
    by_cases hp : atPrompt buf = true
    · rw [if_pos hp] at h
      cases h
    · rw [if_neg hp] at h
      rw [Piece.join_cons, ← List.append_assoc]
      exact ih h

end Reads

/-! ## Replies -/

/-- an error report stays one when more is read -/
theorem reportsError_mono {u v : List UInt8} (h : u <+: v) (hu : reportsError u = true) : reportsError v = true := by
  unfold reportsError at hu ⊢
  rw [decide_eq_true_iff] at hu ⊢
  exact hu.trans (h.map _).isInfix

/-- what ends in a prompt, white space aside, has one with nothing but white space behind it -/
theorem atPrompt_split {buf : List UInt8} (h : atPrompt buf = true) :
    ∃ front tail, buf = front ++ hmpPrompt ++ tail ∧ tail.all isSpace = true := by
  obtain ⟨front, hfront⟩ := of_decide_eq_true h
  refine ⟨front, buf.rtakeWhile isSpace, ?_, ?_⟩
  · rw [hfront, List.rdropWhile_append_rtakeWhile]
  · rw [List.all_eq_true]
    exact fun b hb => List.mem_rtakeWhile_imp hb

/-- the text decides, whatever the pieces: it has no error report and the read ends with it, or it has one before a prompt is
complete, or it has no prompt and the socket fails -/
def Settled (ending : Ending) (reply : List UInt8) : Prop :=
  (reportsError reply = false ∧ (ending = .eof ∨ atPrompt reply = true)) ∨
  (∃ u, u <+: reply ∧ reportsError u = true ∧ ∀ w, w <+: u → w ≠ u → ¬ hmpPrompt <:+ w) ∨
  (ending = .osError ∧ ¬ hmpPrompt <:+: reply)

/-- what the second read makes of the pieces -/
def replyOk (ending : Ending) (pieces : List (Piece UInt8 4096)) : Bool :=
  match readToPrompt ending [] pieces with
  | none => false
  | some (reply, _) => !reportsError reply

theorem replyOk_iff {ending : Ending} {pieces : List (Piece UInt8 4096)} (h : Settled ending (Piece.join pieces)) :
    replyOk ending pieces = true ↔
      reportsError (Piece.join pieces) = false ∧ (ending = .eof ∨ atPrompt (Piece.join pieces) = true) := by
  cases hread : readToPrompt ending [] pieces with
  | none =>
    obtain ⟨hend, hprompt⟩ := readToPrompt_error hread
    rw [List.nil_append] at hprompt
    have hfailed : replyOk ending pieces = false := by simp [replyOk, hread]
    rw [hfailed, hend, hprompt]
    simp
  | some r =>
    obtain ⟨reply, rest⟩ := r
    obtain ⟨hjoin, hstop⟩ := readToPrompt_ok hread
    rw [List.nil_append] at hjoin
    have hfront : reply <+: Piece.join pieces := ⟨_, hjoin⟩
    have hok : replyOk ending pieces = !reportsError reply := by simp [replyOk, hread]
    rw [hok]
    rcases h with ⟨hnone, hend⟩ | ⟨u, hu, herr, hbefore⟩ | ⟨hos, hno⟩
    · have hreply : reportsError reply = false := by
        rw [Bool.eq_false_iff]
        exact fun he => Bool.eq_false_iff.1 hnone (reportsError_mono hfront he)
      simp [hreply, hnone, hend]
    · -- the prompt that stopped the read is not inside the text with the report, so that the reply has the report
      have hreply : reportsError reply = true := by
        rcases hstop with hprompt | ⟨hrest, -⟩
        · obtain ⟨front, tail, hsplit, -⟩ := atPrompt_split hprompt
          have hw : front ++ hmpPrompt <+: reply := ⟨tail, hsplit.symm⟩
          by_cases he : front ++ hmpPrompt = u
          · exact reportsError_mono (he ▸ hw) herr
          · rcases List.prefix_or_prefix_of_prefix hu (hw.trans hfront) with hle | hle
            · exact reportsError_mono (hle.trans hw) herr
            · exact absurd (List.suffix_append _ _) (hbefore _ hle he)
        · rw [hrest, Piece.join_nil, List.append_nil] at hjoin
          rw [hjoin]
          exact reportsError_mono hu herr
      simp [hreply, reportsError_mono hu herr]
    · exfalso
      rcases hstop with hprompt | ⟨-, heof⟩
      · obtain ⟨front, tail, hsplit, -⟩ := atPrompt_split hprompt
        exact hno ((hsplit ▸ List.infix_append front hmpPrompt tail : hmpPrompt <:+: reply).trans hfront.isInfix)
      · exact absurd (hos.symm.trans heof) (by decide)

/-! ## Checkpoints -/

/-- without the command nothing is reported saved; with it, the second read decides on what is left of the stream -/
theorem saveSnapshot_cases (d : Dialogue) : (d.sentAt = none ∧ saveSnapshot d = false) ∨
    ∃ k pieces, d.sentAt = some k ∧ Piece.join pieces = d.stream.drop k ∧ saveSnapshot d = replyOk d.ending pieces := by
  unfold Dialogue.sentAt saveSnapshot
  cases hconnects : d.connects with
  | false => exact .inl ⟨rfl, rfl⟩
  | true =>
    cases hread : readToPrompt d.ending [] d.pieces with
    | none => exact .inl ⟨rfl, rfl⟩
    | some r =>
      obtain ⟨banner, pieces⟩ := r
      cases hsends : d.sends with
      | false => exact .inl ⟨rfl, rfl⟩
      | true =>
        right
        refine ⟨banner.length, pieces, rfl, ?_, rfl⟩
        have hjoin : banner ++ Piece.join pieces = d.stream := by simpa [Dialogue.stream] using (readToPrompt_ok hread).1
        rw [← hjoin, List.drop_left]

/-- the reply has no error report, and ends in a prompt or with the connection -/
theorem saveSnapshot_sound {d : Dialogue} (h : saveSnapshot d = true) : ∃ k reply, d.sentAt = some k ∧
    reply <+: d.stream.drop k ∧ reportsError reply = false ∧
      (atPrompt reply = true ∨ (reply = d.stream.drop k ∧ d.ending = .eof)) := by
  rcases saveSnapshot_cases d with ⟨-, hfalse⟩ | ⟨k, pieces, hsent, hpieces, hreply⟩
  · rw [hfalse] at h
    cases h
  · rw [hreply, replyOk] at h
    cases hread : readToPrompt d.ending [] pieces with
    | none => simp [hread] at h
    | some r =>
      obtain ⟨reply, rest⟩ := r
      obtain ⟨hjoin, hstop⟩ := readToPrompt_ok hread
      rw [List.nil_append, hpieces] at hjoin
      refine ⟨k, reply, hsent, ⟨_, hjoin⟩, by simpa [hread] using h, hstop.imp_right ?_⟩
      rintro ⟨hrest, heof⟩
      rw [hrest, Piece.join_nil, List.append_nil] at hjoin
      exact ⟨hjoin, heof⟩

/-- the same bytes with the command at the same place give the same result, where the reply decides it -/
theorem saveSnapshot_settled {d d' : Dialogue} (hstream : d.stream = d'.stream) (hending : d.ending = d'.ending)
    (hsent : d.sentAt = d'.sentAt) (hsettled : ∀ k ∈ d.sentAt, Settled d.ending (d.stream.drop k)) :
    saveSnapshot d = saveSnapshot d' := by
  rcases saveSnapshot_cases d with ⟨hk, hd⟩ | ⟨k, pieces, hk, hpieces, hd⟩
  · rcases saveSnapshot_cases d' with ⟨-, hd'⟩ | ⟨k, pieces, hk', -, -⟩
    · rw [hd, hd']
    · rw [← hsent, hk] at hk'
      cases hk'
  · rcases saveSnapshot_cases d' with ⟨hk', -⟩ | ⟨k', pieces', hk', hpieces', hd'⟩
    · rw [← hsent, hk] at hk'
      cases hk'
    · rw [← hsent, hk] at hk'
      cases hk'
      have hs := hsettled k hk
      rw [← hstream, ← hpieces] at hpieces'
      rw [← hpieces] at hs
      rw [hd, hd', ← hending, Bool.eq_iff_iff, replyOk_iff hs, replyOk_iff (hpieces'.symm ▸ hs), hpieces']

/-- a checkpoint is reported saved only when the command was sent and the text behind it has no error report and ends in a
complete prompt, or with the connection; and where the text decides, the result depends on the stream and on the place of the
command alone -/
theorem saved_confirmed (d : Dialogue) :
    (saveSnapshot d = true → ∃ k reply, d.sentAt = some k ∧ reply <+: d.stream.drop k ∧ reportsError reply = false ∧
      (atPrompt reply = true ∨ (reply = d.stream.drop k ∧ d.ending = .eof))) ∧
    ∀ d' : Dialogue, d.stream = d'.stream → d.ending = d'.ending → d.sentAt = d'.sentAt →
      (∀ k ∈ d.sentAt, Settled d.ending (d.stream.drop k)) → saveSnapshot d = saveSnapshot d' :=
  ⟨saveSnapshot_sound, fun _ hstream hending hsent hsettled => saveSnapshot_settled hstream hending hsent hsettled⟩

/-- a piece of text -/
def piece (text : List UInt8) (h : text ≠ [] ∧ text.length ≤ 4096) : Piece UInt8 4096 := ⟨text, h.1, h.2⟩

/-- the banner, and the reply to a checkpoint that went well -/
def savedDialogue : Dialogue where
  pieces := [piece (ascii "QEMU 8.2.2 monitor\n(qemu) ") (by decide), piece (ascii "(qemu) ") (by decide)]
  ending := .osError

/-- the same, with the last prompt in two pieces -/
def savedInPieces : Dialogue where
  pieces := [piece (ascii "QEMU 8.2.2 monitor\n(qemu) ") (by decide), piece (ascii "(qe") (by decide),
    piece (ascii "mu) ") (by decide)]
  ending := .osError

theorem saved_confirmed_pieces : saveSnapshot savedDialogue = saveSnapshot savedInPieces := by
  have hsettled : ∀ k ∈ savedDialogue.sentAt, Settled savedDialogue.ending (savedDialogue.stream.drop k) := by
    intro k hk
    have hk' : k = 26 := by
      have : savedDialogue.sentAt = some 26 := by decide
      rw [this] at hk
      exact (Option.some.inj hk).symm
    rw [hk']
    exact .inl ⟨by decide, .inr (by decide)⟩
  exact (saved_confirmed savedDialogue).2 savedInPieces (by decide) (by decide) (by decide) hsettled

/-- a monitor that hangs up behind the banner -/
def hangup : Dialogue where
  pieces := [piece (ascii "QEMU 8.2.2 monitor\n(qemu) ") (by decide)]
  ending := .eof

/-- the checkpoint is reported saved, and no prompt arrived after the command -/
theorem saved_after_hangup : ¬ ∀ d : Dialogue, saveSnapshot d = true →
    ∃ k ∈ d.sentAt, ∃ reply, reply <+: d.stream.drop k ∧ atPrompt reply = true ∧ reportsError reply = false := by
  intro h
  obtain ⟨k, hk, reply, hreply, hprompt, -⟩ := h hangup (by decide)
  have hsent : hangup.sentAt = some 26 := by decide
  have hrest : hangup.stream.drop 26 = [] := by decide
  rw [hsent] at hk
  rw [← Option.some.inj hk, hrest, List.prefix_nil] at hreply
  rw [hreply] at hprompt
  exact absurd hprompt (by decide)

end Beetroot.Vm.Monitor
