/-
Incremental decoders of a compressed format.

A `Format` reads its input symbol by symbol: each symbol yields some output, or ends the stream, or shows that the stream is corrupt.
Over it stand the two ways to decode. `decompress` takes the whole input and decodes one stream after another. A `Decompressor`
is fed in pieces and hands out at most so much per call: it buffers input and output, says at which point the stream has ended and
when it has to be fed, and stops behind the first stream.

Results:
- `drain_spec`, `drain_corrupt`: a call takes from what is still to come exactly what it hands out, and does something;
- `Decompressor.decompress_none`, `Decompressor.decompress_some`: the same for a whole call;
- `trailing_fuel`: the streams behind the first are all read, for every input.
-/
import Mathlib.Data.List.Basic
import Mathlib.Tactic.Common

namespace Lib.Decoder

/-- what one symbol of the input does -/
inductive Step (S α : Type) where
  | next (s : S) (out : List α)
  | last (out : List α)
  | corrupt

structure Format (α : Type) where
  S : Type
  init : S
  step : S → α → Step S α

/-- how the decoding of an input ends: the stream goes on, or it has ended with some input left, or it is corrupt -/
inductive Outcome (S α : Type) where
  | more (s : S) (out : List α)
  | done (out rest : List α)
  | corrupt
deriving DecidableEq

/-- output that comes before -/
def Outcome.push {S α : Type} (front : List α) : Outcome S α → Outcome S α
  | .more s out => .more s (front ++ out)
  | .done out rest => .done (front ++ out) rest
  | .corrupt => .corrupt

/-- the content of a stream that has ended -/
def Outcome.content {S α : Type} : Outcome S α → Option (List α)
  | .more _ _ => none
  | .done out _ => some out
  | .corrupt => none

theorem Outcome.content_push {S α : Type} (front : List α) (o : Outcome S α) :
    (o.push front).content = o.content.map (front ++ ·) := by
  cases o with
  | more s out => rfl
  | done out rest => rfl
  | corrupt => rfl

@[simp] theorem Outcome.push_nil {S α : Type} (o : Outcome S α) : o.push [] = o := by
  cases o with
  | more s out => rfl
  | done out rest => rfl
  | corrupt => rfl

theorem Outcome.push_push {S α : Type} (a b : List α) (o : Outcome S α) : (o.push b).push a = o.push (a ++ b) := by
  cases o with
  | more s out => simp [Outcome.push]
  | done out rest => simp [Outcome.push]
  | corrupt => rfl

variable {α : Type} (F : Format α)

/-- one stream; without a state it has ended -/
def run : Option F.S → List α → Outcome F.S α
  | none, input => .done [] input
  | some s, [] => .more s []
  | some s, b :: input => match F.step s b with
    | .corrupt => .corrupt
    | .last out => .done out input
    | .next s' out => (run (some s') input).push out

/-- how much output is still to come, also when the stream turns out to be corrupt -/
def size : Option F.S → List α → ℕ
  | none, _ => 0
  | some _, [] => 0
  | some s, b :: input => match F.step s b with
    | .corrupt => 0
    | .last out => out.length
    | .next s' out => out.length + size (some s') input

/-! ## One shot -/

/-- the streams behind the first; what is no stream is ignored, a stream that breaks off is an error -/
def trailing : ℕ → List α → Option (List α)
  | 0, _ => some []
  | fuel + 1, data =>
    if data.isEmpty then some []
    else match run F (some F.init) data with
      | .corrupt => some []
      | .more _ _ => none
      | .done out rest => (trailing fuel rest).map (out ++ ·)

/-- all streams of the input; every stream takes a symbol at least, so that the fuel lasts -/
def decompress (data : List α) : Option (List α) :=
  match run F (some F.init) data with
  | .corrupt => none
  | .more _ _ => none
  | .done out rest => (trailing F rest.length rest).map (out ++ ·)

theorem run_rest {s : F.S} {input out rest : List α} (h : run F (some s) input = .done out rest) :
    rest.length < input.length := by
  induction input generalizing s out rest with
  | nil => simp [run] at h
  | cons b input ih =>
    rw [run] at h
    cases hstep : F.step s b with
    | corrupt => simp [hstep] at h
    | last o =>
      simp only [hstep, Outcome.done.injEq] at h
      rw [← h.2, List.length_cons]
      omega
    | next s' o =>
      simp only [hstep] at h
      cases hrun : run F (some s') input with
      | corrupt => simp [hrun, Outcome.push] at h
      | more s'' o' => simp [hrun, Outcome.push] at h
      | done o' rest' =>
        simp only [hrun, Outcome.push, Outcome.done.injEq] at h
        have := ih hrun
        rw [← h.2, List.length_cons]
        omega

/-- the fuel lasts: more of it changes nothing -/
theorem trailing_fuel {m n : ℕ} {data : List α} (hm : data.length ≤ m) (hn : data.length ≤ n) :
    trailing F m data = trailing F n data := by
  induction m generalizing n data with
  | zero =>
    have hnil : data = [] := List.length_eq_zero_iff.1 (Nat.le_zero.1 hm)
    subst hnil
    cases n with
    | zero => rfl
    | succ n => rfl
  | succ m ih =>
    cases n with
    | zero =>
      have hnil : data = [] := List.length_eq_zero_iff.1 (Nat.le_zero.1 hn)
      subst hnil
      rfl
    | succ n =>
      rw [trailing, trailing]
      cases hrun : run F (some F.init) data with
      | corrupt => rfl
      | more s out => rfl
      | done out rest =>
        have hshort := run_rest F hrun
        simp only
        rw [ih (show rest.length ≤ m by omega) (show rest.length ≤ n by omega)]

/-! ## In pieces -/

/-- decode buffered input until there is output for a whole call -/
def drain (room : ℕ) : Option F.S → List α → List α → Option (Option F.S × List α × List α)
  | none, pending, input => some (none, pending, input)
  | some s, pending, [] => some (some s, pending, [])
  | some s, pending, b :: input =>
    if room ≤ pending.length then some (some s, pending, b :: input)
    else match F.step s b with
      | .corrupt => none
      | .last out => some (none, pending ++ out, input)
      | .next s' out => drain room (some s') (pending ++ out) input

/-- a decoder between two calls -/
structure Decompressor where
  state : Option F.S
  input : List α
  pending : List α
  needsInput : Bool
  /-- it asks for input only when it has none and the stream goes on -/
  idle : needsInput = true → state.isSome ∧ input = [] ∧ pending = []

variable {F}

def Decompressor.new : Decompressor F := ⟨some F.init, [], [], true, fun _ => ⟨rfl, rfl, rfl⟩⟩

/-- the end of the stream has been read and handed out -/
def Decompressor.eof (d : Decompressor F) : Bool := d.state.isNone && d.pending.isEmpty

/-- it has to be fed when the stream goes on, its input is used up and the call was not filled -/
def asksForInput (room : ℕ) (state : Option F.S) (pending input : List α) : Bool :=
  !(state.isNone && (pending.drop room).isEmpty) && input.isEmpty && (pending.take room).length < room

theorem idle_of_asks {room : ℕ} {state : Option F.S} {pending input : List α}
    (h : asksForInput room state pending input = true) : state.isSome ∧ input = [] ∧ pending.drop room = [] := by
  simp only [asksForInput, Bool.and_eq_true, Bool.not_eq_true', decide_eq_true_eq, List.isEmpty_iff, List.length_take] at h
  obtain ⟨⟨hgoes, hinput⟩, hroom⟩ := h
  have hdrop : pending.drop room = [] := List.drop_eq_nil_of_le (by omega)
  refine ⟨?_, hinput, hdrop⟩
  cases state with
  | none => simp [hdrop] at hgoes
  | some s => rfl

/-- `decompress(data, max_length)`: at most `room` symbols of output, `none` for a corrupt stream -/
def Decompressor.decompress (room : ℕ) (d : Decompressor F) (data : List α) : Option (List α × Decompressor F) :=
  (drain F room d.state d.pending (d.input ++ data)).map fun r =>
    (r.2.1.take room, ⟨r.1, r.2.2, r.2.1.drop room, asksForInput room r.1 r.2.1 r.2.2, idle_of_asks⟩)

section Drain

variable {room : ℕ} {st st' : Option F.S} {pending pending' input input' : List α}

theorem run_none (input : List α) : run F none input = .done [] input := by
  cases input with
  | nil => rfl
  | cons b input => rfl

theorem size_none (input : List α) : size F none input = 0 := by
  cases input with
  | nil => rfl
  | cons b input => rfl

theorem drain_none : drain F room none pending input = some (none, pending, input) := by
  cases input with
  | nil => rfl
  | cons b input => rfl

/-- what a call has done to the decoder: what is still to come is the same, and so is its size; it stops at the end of the
stream, at the end of its input or when it is filled; and it takes no input only when it could not -/
structure Drained (room : ℕ) (st : Option F.S) (pending input : List α) (st' : Option F.S) (pending' input' : List α) :
    Prop where
  run : ∀ rest, (run F st (input ++ rest)).push pending = (Decoder.run F st' (input' ++ rest)).push pending'
  size : ∀ rest, pending.length + size F st (input ++ rest) = pending'.length + Decoder.size F st' (input' ++ rest)
  stop : st' = none ∨ input' = [] ∨ room ≤ pending'.length
  le : input'.length ≤ input.length
  same : input'.length = input.length → st' = st ∧ pending' = pending
  progress : st.isSome → input ≠ [] → pending.length < room → input'.length < input.length

theorem drain_spec (h : drain F room st pending input = some (st', pending', input')) :
    Drained room st pending input st' pending' input' := by
  induction input generalizing st pending with
  | nil =>
    cases st with
    | none =>
      rw [drain_none] at h
      cases h
      exact ⟨fun _ => rfl, fun _ => rfl, .inl rfl, Nat.le_refl _, fun _ => ⟨rfl, rfl⟩, fun hs => by simp at hs⟩
    | some s =>
      rw [drain] at h
      cases h
      exact ⟨fun _ => rfl, fun _ => rfl, .inr (.inl rfl), Nat.le_refl _, fun _ => ⟨rfl, rfl⟩, fun _ hne => absurd rfl hne⟩
  | cons b input ih =>
    cases st with
    | none =>
      rw [drain_none] at h
      cases h
      exact ⟨fun _ => rfl, fun _ => rfl, .inl rfl, Nat.le_refl _, fun _ => ⟨rfl, rfl⟩, fun hs => by simp at hs⟩
    | some s =>
      rw [drain] at h
      split_ifs at h with hroom
      · cases h
        exact ⟨fun _ => rfl, fun _ => rfl, .inr (.inr hroom), Nat.le_refl _, fun _ => ⟨rfl, rfl⟩,
          fun _ _ hlt => absurd hroom (by omega)⟩
      · cases hstep : F.step s b with
        | corrupt => simp [hstep] at h
        | last out =>
          simp only [hstep, Option.some.injEq, Prod.mk.injEq] at h
          obtain ⟨rfl, rfl, rfl⟩ := h
          refine ⟨fun rest => ?_, fun rest => ?_, .inl rfl, by simp, fun hsame => by simp at hsame, fun _ _ _ => by simp⟩
          · simp [Decoder.run, hstep, run_none, Outcome.push]
          · simp [Decoder.size, hstep, size_none]
        | next s' out =>
          simp only [hstep] at h
          obtain ⟨hrun, hsize, hstop, hle, -, -⟩ := ih h
          have hlt : input'.length < (b :: input).length := by
            rw [List.length_cons]
            omega
          refine ⟨fun rest => ?_, fun rest => ?_, hstop, Nat.le_of_lt hlt,
            fun hsame => absurd hsame (Nat.ne_of_lt hlt), fun _ _ _ => hlt⟩
          · rw [← hrun rest, List.cons_append, Decoder.run, hstep]
            exact Outcome.push_push _ _ _
          · rw [← hsize rest, List.cons_append, Decoder.size, hstep, List.length_append]
            dsimp only
            omega

theorem drain_corrupt (h : drain F room st pending input = none) (rest : List α) :
    run F st (input ++ rest) = .corrupt := by
  induction input generalizing st pending with
  | nil =>
    cases st with
    | none => simp [drain_none] at h
    | some s => simp [drain] at h
  | cons b input ih =>
    cases st with
    | none => simp [drain_none] at h
    | some s =>
      rw [drain] at h
      split_ifs at h with hroom
      rw [List.cons_append, run]
      cases hstep : F.step s b with
      | corrupt => rfl
      | last out => simp [hstep] at h
      | next s' out =>
        simp only [hstep] at h
        simp only [ih h, Outcome.push]

end Drain

/-! ## Calls -/

namespace Decompressor

variable {room : ℕ} {d d' : Decompressor F} {data piece : List α}

/-- what is still to come out of the decoder, when this input follows -/
def future (d : Decompressor F) (rest : List α) : Outcome F.S α := (run F d.state (d.input ++ rest)).push d.pending

/-- an upper bound on the calls that are left -/
def measure (d : Decompressor F) (rest : List α) : ℕ :=
  2 * (d.input.length + rest.length) + (d.pending.length + size F d.state (d.input ++ rest)) +
    (if d.needsInput then 0 else 1)

theorem future_eof (h : d.eof = true) (rest : List α) : d.future rest = .done [] (d.input ++ rest) := by
  simp only [eof, Bool.and_eq_true, Option.isNone_iff_eq_none, List.isEmpty_iff] at h
  rw [future, h.1, h.2, run_none, Outcome.push_nil]

/-- a decoder that has to be fed and gets nothing stands in the middle of the stream -/
theorem future_hungry (h : d.needsInput = true) : ∃ s, d.future [] = .more s [] := by
  obtain ⟨hstate, hinput, hpending⟩ := d.idle h
  obtain ⟨s, hs⟩ := Option.isSome_iff_exists.1 hstate
  refine ⟨s, ?_⟩
  rw [future, hs, hinput, hpending, List.append_nil, run, Outcome.push_nil]

theorem decompress_none (h : d.decompress room data = none) (rest : List α) : d.future (data ++ rest) = .corrupt := by
  rw [decompress, Option.map_eq_none_iff] at h
  rw [future, ← List.append_assoc, drain_corrupt h rest]
  rfl

/-- a call hands out the front of what is to come, and brings the decoder nearer to its end -/
theorem decompress_some (hroom : 0 < room) (heof : d.eof = false) (hfed : d.needsInput = true → data ≠ [])
    (h : d.decompress room data = some (piece, d')) (rest : List α) :
    d.future (data ++ rest) = (d'.future rest).push piece ∧ d'.measure rest < d.measure (data ++ rest) := by
  obtain ⟨⟨st, pending, input⟩, hdrain, hcall⟩ := Option.map_eq_some_iff.1 h
  obtain ⟨hrun, hsize, hstop, hle, hsame, hprogress⟩ := drain_spec hdrain
  rw [Prod.mk.injEq] at hcall
  obtain ⟨rfl, rfl⟩ := hcall
  refine ⟨?_, ?_⟩
  · rw [future, future, Outcome.push_push, ← List.append_assoc, hrun rest, List.take_append_drop]
  · have hleft := hsize rest
    have hpiece : (pending.take room).length + (pending.drop room).length = pending.length := by
      rw [← List.length_append, List.take_append_drop]
    rw [List.append_assoc] at hleft
    rw [List.length_append] at hle hsame hprogress
    simp only [measure, List.length_append]
    by_cases hneeds : d.needsInput = true
    · -- a call that feeds the decoder uses up some of its input
      obtain ⟨hstate, hinput, hpending⟩ := d.idle hneeds
      have hlt := hprogress hstate (by simp [hfed hneeds]) (by simp [hpending, hroom])
      split_ifs <;> omega
    · by_cases hlt : input.length < d.input.length + data.length
      · split_ifs <;> omega
      · obtain ⟨hst, hpend⟩ := hsame (by omega)
        by_cases hnil : pending = []
        · -- nothing was taken and nothing came out: the decoder asks for input now
          have hgoes : st ≠ none := by
            rintro hnone
            rw [hnone] at hst
            simp [eof, ← hst, ← hpend, hnil] at heof
          have hused : input = [] := by
            rcases hstop with hstop | hstop | hstop
            · exact absurd hstop hgoes
            · exact hstop
            · rw [hnil, List.length_nil] at hstop
              omega
          have hasks : asksForInput room st pending input = true := by
            simpa [asksForInput, hnil, hused, hroom] using Option.isSome_iff_ne_none.2 hgoes
          simp only [hasks, hneeds, if_true, Bool.false_eq_true, if_false]
          omega
        · have hpos : 0 < (pending.take room).length := by
            rw [List.length_take]
            have := List.length_pos_iff.2 hnil
            omega
          simp only [hneeds, Bool.false_eq_true, if_false]
          split_ifs <;> omega

end Decompressor

/-- the format that knows these streams, each with its content -/
def Format.ofTable [DecidableEq α] (table : List (List α × List α)) : Format α where
  S := List α
  init := []
  step := fun seen b =>
    match table.find? fun e => e.1 = seen ++ [b] with
    | some e => .last e.2
    | none => if table.any fun e => (seen ++ [b]).isPrefixOf e.1 then .next (seen ++ [b]) [] else .corrupt

end Lib.Decoder
