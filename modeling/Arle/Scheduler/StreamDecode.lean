import Arle.ServerEngine.Stream
import Arle.ServerEngine.Types

/-!
# Streamed decoding

`StreamDecodeState` and `check_stop_sequences` of `infer/src/scheduler/cuda/request.rs`. The
deltas handed to `delta_tx` are returned, and a slice that is out of range or inside a character
is a panic (`none`). Warnings are left out.
-/

namespace Arle.Scheduler

open ServerEngine

/-- The decoder of token ids; an error is `none`. -/
structure Tokenizer where
  decode : List UInt32 → Option Str

inductive StopCheckResult
  | noStop (safeLen : Nat)
  | stopFound (stopPos : Nat)

/-- `check_stop_sequences`. -/
def checkStopSequences (text : Str) (stops : List Str) : StopCheckResult :=
  match (stops.filter (· ≠ [])).findSome? text.find with
  | some pos => .stopFound pos
  | none => .noStop (text.floorCharBoundary (text.len - Str.maxLen stops))

inductive EmitOutcome
  | continue
  | finished

structure StreamDecodeState where
  fullDecoded : Str
  decodedTokenCount : Nat
  sentLen : Nat
  prefixByteLen : Nat

/-- The number of tokens that are decoded again. -/
def overlap : Nat := 4

/-- A delta with text only. -/
def textOnly (text : Str) (logprob : Option Float32) : CompletionStreamDelta where
  textDelta := text
  finishReason := none
  usage := none
  logprob := logprob
  tokenIds := []
  error := none

/-- `send_finish`. -/
def sendFinish (promptTokens completionTokens : Nat) (reason : FinishReason)
    (generatedTokens : List UInt32) : CompletionStreamDelta where
  textDelta := []
  finishReason := some reason
  usage := some ⟨promptTokens, completionTokens, promptTokens + completionTokens⟩
  logprob := none
  tokenIds := generatedTokens
  error := none

namespace StreamDecodeState

/-- `StreamDecodeState::default`. -/
def default : StreamDecodeState := ⟨[], 0, 0, 0⟩

/-- `safe_point`. -/
def safePoint (st : StreamDecodeState) : Nat := st.decodedTokenCount - overlap

/-- The decoding part of `emit_delta`, after the text of the new tokens. -/
def extend (st : StreamDecodeState) (generatedTokens : List UInt32) (tokenizer : Tokenizer)
    (newText : Str) : Option StreamDecodeState :=
  let kept : Option Str :=
    if 0 < st.safePoint then
      let prefixLen := st.fullDecoded.floorCharBoundary (min st.prefixByteLen st.fullDecoded.len)
      (st.fullDecoded.split prefixLen).map Prod.fst
    else some []
  kept.map fun kept =>
    let fullDecoded := kept ++ newText
    let newSafe := generatedTokens.length - overlap
    let prefixByteLen :=
      if 0 < newSafe then
        let suffix := (tokenizer.decode (generatedTokens.drop newSafe)).getD []
        fullDecoded.floorCharBoundary (fullDecoded.len - suffix.len)
      else 0
    { st with
      fullDecoded := fullDecoded
      prefixByteLen := prefixByteLen
      decodedTokenCount := generatedTokens.length }

/-- The part of `emit_delta` that sends, with stop strings. -/
def sendUntilStop (st : StreamDecodeState) (generatedTokens : List UInt32)
    (logprob : Option Float32) (stops : List Str) (promptTokens : Nat) :
    Option (EmitOutcome × StreamDecodeState × List CompletionStreamDelta) :=
  match checkStopSequences st.fullDecoded stops with
  | .stopFound stopPos =>
    let last := sendFinish promptTokens generatedTokens.length .stop generatedTokens
    if st.sentLen < stopPos then
      (st.fullDecoded.slice st.sentLen stopPos).map fun text =>
        (.finished, { st with sentLen := stopPos }, [textOnly text logprob, last])
    else some (.finished, { st with sentLen := stopPos }, [last])
  | .noStop safeLen =>
    if st.sentLen < safeLen then
      (st.fullDecoded.slice st.sentLen safeLen).map fun text =>
        (.continue, { st with sentLen := safeLen }, [textOnly text logprob])
    else some (.continue, st, [])

/-- The part of `emit_delta` that sends, without stop strings. -/
def sendAll (st : StreamDecodeState) (logprob : Option Float32) :
    Option (EmitOutcome × StreamDecodeState × List CompletionStreamDelta) :=
  let stop := st.fullDecoded.len
  if st.sentLen < stop then
    let start := st.fullDecoded.floorCharBoundary st.sentLen
    if start < stop then
      (st.fullDecoded.slice start stop).map fun text =>
        (.continue, { st with sentLen := stop }, [textOnly text logprob])
    else some (.continue, { st with sentLen := stop }, [])
  else some (.continue, st, [])

/-- `emit_delta`. -/
def emitDelta (st : StreamDecodeState) (generatedTokens : List UInt32) (tokenizer : Tokenizer)
    (logprob : Option Float32) (stops : Option (List Str)) (promptTokens : Nat) :
    Option (EmitOutcome × StreamDecodeState × List CompletionStreamDelta) :=
  if generatedTokens.length = 0 then some (.continue, st, [])
  else if generatedTokens.length < st.safePoint then none
  else
    match tokenizer.decode (generatedTokens.drop st.safePoint) with
    | none => some (.continue, st, [])
    | some newText =>
      match st.extend generatedTokens tokenizer newText with
      | none => none
      | some st =>
        match stops with
        | some stops => st.sendUntilStop generatedTokens logprob stops promptTokens
        | none => st.sendAll logprob

/-- Where the text of `finish` ends. -/
def finishEnd (fullText : Str) : Option (List Str) → Nat
  | some stops =>
    match checkStopSequences fullText stops with
    | .stopFound stopPos => stopPos
    | .noStop _ => fullText.len
  | none => fullText.len

/-- `finish`. -/
def finish (st : StreamDecodeState) (generatedTokens : List UInt32) (tokenizer : Tokenizer)
    (promptTokens : Nat) (reason : FinishReason) (stops : Option (List Str)) :
    Option (List CompletionStreamDelta) :=
  let last := sendFinish promptTokens generatedTokens.length reason generatedTokens
  if generatedTokens = [] then some [last]
  else
    match tokenizer.decode generatedTokens with
    | none => some [last]
    | some fullText =>
      let start := fullText.floorCharBoundary st.sentLen
      let stop := fullText.floorCharBoundary (finishEnd fullText stops)
      if start < stop then
        (fullText.slice start stop).map fun text => [textOnly text none, last]
      else some [last]

/-- One request: `emit_delta` for each part of the tokens until it returns `Finished`, else
`finish` with the tokens that are left. Returns the tokens of the last call and the deltas. -/
def stream (tokenizer : Tokenizer) (stops : Option (List Str)) (promptTokens : Nat)
    (reason : FinishReason) (rest : List UInt32) : List (List UInt32 × Option Float32) →
    List UInt32 → StreamDecodeState → Option (List UInt32 × List CompletionStreamDelta)
  | [], generated, st =>
    (st.finish (generated ++ rest) tokenizer promptTokens reason stops).map fun deltas =>
      (generated ++ rest, deltas)
  | (part, logprob) :: parts, generated, st =>
    match st.emitDelta (generated ++ part) tokenizer logprob stops promptTokens with
    | none => none
    | some (.finished, _, deltas) => some (generated ++ part, deltas)
    | some (.continue, st, deltas) =>
      (stream tokenizer stops promptTokens reason rest parts (generated ++ part) st).map
        fun (tokens, more) => (tokens, deltas ++ more)

/-! ## The decoded text -/

/-- The decoding of the tokens is that of the first `k` and that of the others. -/
def SplitsAt (text : List UInt32 → Str) (tokens : List UInt32) (k : Nat) : Prop :=
  text tokens = text (tokens.take k) ++ text (tokens.drop k)

instance (text : List UInt32 → Str) (tokens : List UInt32) (k : Nat) :
    Decidable (SplitsAt text tokens k) := inferInstanceAs (Decidable (_ = _))

/-- The state has decoded these tokens. -/
structure Tracks (text : List UInt32 → Str) (st : StreamDecodeState) (tokens : List UInt32) :
    Prop where
  fullDecoded : st.fullDecoded = text tokens
  decodedTokenCount : st.decodedTokenCount = tokens.length
  prefixByteLen : 0 < st.safePoint → st.prefixByteLen =
    (text tokens).floorCharBoundary
      ((text tokens).len - (text (tokens.drop st.safePoint)).len)

section Tracks

variable {text : List UInt32 → Str} {tokenizer : Tokenizer} {st : StreamDecodeState}
  {tokens : List UInt32}

theorem Tracks.default (hnil : text [] = []) : Tracks text StreamDecodeState.default [] :=
  ⟨hnil.symm, rfl, fun h => absurd h (Nat.lt_irrefl 0)⟩

/-- The state decodes more tokens when the decoding splits at the overlap. -/
theorem Tracks.extend (h : Tracks text st tokens)
    (htext : ∀ ids, tokenizer.decode ids = some (text ids)) (more : List UInt32)
    (hsplit : 0 < st.safePoint →
      SplitsAt text tokens st.safePoint ∧ SplitsAt text (tokens ++ more) st.safePoint) :
    ∃ st', st.extend (tokens ++ more) tokenizer (text ((tokens ++ more).drop st.safePoint)) =
      some st' ∧ Tracks text st' (tokens ++ more) ∧ st'.sentLen = st.sentLen := by
  obtain ⟨kept, hkept, hfull⟩ : ∃ kept,
      (if 0 < st.safePoint then
        (st.fullDecoded.split (st.fullDecoded.floorCharBoundary
          (min st.prefixByteLen st.fullDecoded.len))).map Prod.fst
      else some []) = some kept ∧
      kept ++ text ((tokens ++ more).drop st.safePoint) = text (tokens ++ more) := by
    by_cases hpos : 0 < st.safePoint
    · obtain ⟨hold, hnew⟩ := hsplit hpos
      have hlen : st.prefixByteLen = (text (tokens.take st.safePoint)).len := by
        rw [h.prefixByteLen hpos, hold, Str.len_append, Nat.add_sub_cancel,
          Str.floorCharBoundary_len_append]
      have hle : st.safePoint ≤ tokens.length := by
        rw [← h.decodedTokenCount]
        exact Nat.sub_le _ _
      have htake : (tokens ++ more).take st.safePoint = tokens.take st.safePoint :=
        List.take_append_of_le_length hle
      refine ⟨text (tokens.take st.safePoint), ?_, ?_⟩
      · rw [if_pos hpos, h.fullDecoded, hlen, Nat.min_eq_left ?_]
        · rw [hold, Str.floorCharBoundary_len_append, Str.split_append]
          rfl
        · rw [hold]
          exact Str.len_le_of_prefix (List.prefix_append _ _)
      · rw [← htake]
        exact hnew.symm
    · refine ⟨[], if_neg hpos, ?_⟩
      rw [Nat.le_zero.mp (Nat.le_of_not_lt hpos)]
      rfl
  refine ⟨_, congrArg (Option.map _) hkept, ⟨hfull, rfl, fun hpos => ?_⟩, rfl⟩
  simp only [safePoint] at hpos hfull ⊢
  rw [if_pos hpos, htext, Option.getD_some, hfull]

end Tracks

end StreamDecodeState

end Arle.Scheduler
