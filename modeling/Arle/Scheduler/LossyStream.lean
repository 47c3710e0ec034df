import Arle.Lib.Utf8
import Arle.Scheduler.StopStream

/-!
# Streams without stop strings

What `emit_delta` and `finish` send when there are no stop strings, for a tokenizer that decodes
the bytes of the tokens lossily. A character whose bytes are in several tokens may be cut at the
end of a call, or where a call begins to decode again; the text sent is the decoding of all
tokens when neither happens.
-/

namespace Arle.Scheduler

open ServerEngine

/-- The text of tokens whose bytes are decoded together. -/
def lossyText (bytes : UInt32 → List UInt8) (tokens : List UInt32) : Str :=
  Str.lossy (tokens.flatMap bytes)

/-- Every token has bytes of its own, which are decoded together. -/
def Tokenizer.byteLevel (bytes : UInt32 → List UInt8) : Tokenizer :=
  ⟨fun ids => some (lossyText bytes ids)⟩

/-- Where a call decodes again, the decoding of the tokens before it splits, and that of the
tokens with the new ones. -/
def OverlapsSplit (text : List UInt32 → Str) :
    List (List UInt32 × Option Float32) → List UInt32 → Prop
  | [], _ => True
  | (part, _) :: parts, generated =>
    (0 < generated.length - overlap →
      StreamDecodeState.SplitsAt text generated (generated.length - overlap) ∧
      StreamDecodeState.SplitsAt text (generated ++ part) (generated.length - overlap)) ∧
    OverlapsSplit text parts (generated ++ part)

/-- The text at every call is a beginning of the whole text. -/
def CallsBegin (text : List UInt32 → Str) (whole : Str) :
    List (List UInt32 × Option Float32) → List UInt32 → Prop
  | [], _ => True
  | (part, _) :: parts, generated =>
    text (generated ++ part) <+: whole ∧ CallsBegin text whole parts (generated ++ part)

namespace StreamDecodeState

section Calls

variable {bytes : UInt32 → List UInt8} {st : StreamDecodeState} {tokens : List UInt32}

/-- `sendAll` sends the text behind what was sent. -/
theorem sendAll_spec (st : StreamDecodeState) (logprob : Option Float32) : ∃ st' deltas,
    st.sendAll logprob = some (.continue, st', deltas) ∧
      st' = { st with sentLen := st'.sentLen } ∧
      (∀ sent, st.sentLen = Str.len sent → sent <+: st.fullDecoded →
        st'.sentLen = Str.len st.fullDecoded ∧
          sent ++ CompletionStreamDelta.texts deltas = st.fullDecoded) ∧
      (Str.len st.fullDecoded ≤ st.sentLen → st'.sentLen = st.sentLen ∧ deltas = []) := by
  rw [sendAll]
  dsimp only
  split
  · rename_i hlt
    obtain ⟨a, ha, hfloor, hsame⟩ := Str.exists_floorCharBoundary st.fullDecoded st.sentLen
    obtain ⟨delta, hdelta, hslice⟩ := Str.slice_of_prefix ha (List.prefix_refl st.fullDecoded)
    have hle : Str.len a ≤ st.sentLen := by
      rw [← hfloor]
      exact Str.floorCharBoundary_le _ _
    rw [hfloor, if_pos (by omega), hslice]
    refine ⟨_, _, rfl, rfl, fun sent hsent hstart => ⟨rfl, ?_⟩, fun h => by omega⟩
    rw [← hsame sent hsent hstart]
    simpa [CompletionStreamDelta.texts, textOnly] using hdelta.symm
  · rename_i hle
    refine ⟨_, _, rfl, rfl, fun sent hsent hstart => ?_, fun _ => ⟨rfl, rfl⟩⟩
    have heq := Str.eq_of_prefix_of_len_le hstart (by omega)
    rw [← heq, CompletionStreamDelta.texts, List.flatMap_nil, List.append_nil]
    exact ⟨hsent, rfl⟩

/-- A call of `emit_delta` on more tokens. -/
theorem emitDelta_sendAll (htracks : Tracks (lossyText bytes) st tokens) (part : List UInt32)
    (hsplit : 0 < tokens.length - overlap →
      SplitsAt (lossyText bytes) tokens (tokens.length - overlap) ∧
      SplitsAt (lossyText bytes) (tokens ++ part) (tokens.length - overlap))
    (logprob : Option Float32) (promptTokens : Nat) : ∃ st' deltas,
    st.emitDelta (tokens ++ part) (.byteLevel bytes) logprob none promptTokens =
        some (.continue, st', deltas) ∧ Tracks (lossyText bytes) st' (tokens ++ part) ∧
      (∀ sent, st.sentLen = Str.len sent → sent <+: lossyText bytes (tokens ++ part) →
        st'.sentLen = Str.len (lossyText bytes (tokens ++ part)) ∧
          sent ++ CompletionStreamDelta.texts deltas = lossyText bytes (tokens ++ part)) ∧
      (Str.len (lossyText bytes (tokens ++ part)) ≤ st.sentLen →
        st'.sentLen = st.sentLen ∧ deltas = []) := by
  rw [emitDelta]
  by_cases hempty : (tokens ++ part).length = 0
  · have hnil := List.append_eq_nil_iff.mp (List.length_eq_zero_iff.mp hempty)
    rw [if_pos hempty, hnil.1, hnil.2, List.append_nil]
    rw [hnil.1] at htracks
    refine ⟨_, _, rfl, htracks, fun sent hsent hstart => ?_, fun _ => ⟨rfl, rfl⟩⟩
    rw [List.prefix_nil.mp hstart] at hsent ⊢
    exact ⟨hsent, rfl⟩
  · have hle : ¬ (tokens ++ part).length < st.safePoint := by
      rw [safePoint, htracks.decodedTokenCount, List.length_append]
      omega
    have hsafe : st.safePoint = tokens.length - overlap := by
      rw [safePoint, htracks.decodedTokenCount]
    have htext : ∀ ids, (Tokenizer.byteLevel bytes).decode ids = some (lossyText bytes ids) :=
      fun _ => rfl
    obtain ⟨st₁, hextend, htracks₁, hsentLen⟩ := htracks.extend htext part
      (by rw [hsafe]; exact hsplit)
    obtain ⟨st', deltas, hsend, hst', hsent, hshort⟩ := sendAll_spec st₁ logprob
    rw [if_neg hempty, if_neg hle]
    simp only [Tokenizer.byteLevel] at hextend ⊢
    rw [hextend]
    refine ⟨st', deltas, hsend, ?_, ?_, ?_⟩
    · rw [hst']
      exact ⟨htracks₁.fullDecoded, htracks₁.decodedTokenCount, htracks₁.prefixByteLen⟩
    · rw [← htracks₁.fullDecoded, ← hsentLen]
      exact hsent
    · rw [← htracks₁.fullDecoded, ← hsentLen]
      exact hshort

/-- `finish` sends the rest of the whole text. -/
theorem finish_all (bytes : UInt32 → List UInt8) (st : StreamDecodeState) (all : List UInt32)
    (promptTokens : Nat) (reason : FinishReason) : ∃ deltas,
    st.finish all (.byteLevel bytes) promptTokens reason none = some deltas ∧
      ∀ sent, st.sentLen = Str.len sent → sent <+: lossyText bytes all →
        sent ++ CompletionStreamDelta.texts deltas = lossyText bytes all := by
  rw [finish]
  split
  · rename_i hnil
    rw [hnil]
    refine ⟨_, rfl, fun sent _ hstart => ?_⟩
    rw [List.prefix_nil.mp hstart]
    rfl
  · have hend : finishEnd (lossyText bytes all) none = Str.len (lossyText bytes all) := rfl
    obtain ⟨a, ha, hfloor, hsame⟩ :=
      Str.exists_floorCharBoundary (lossyText bytes all) st.sentLen
    obtain ⟨delta, hdelta, hslice⟩ :=
      Str.slice_of_prefix ha (List.prefix_refl (lossyText bytes all))
    simp only [Tokenizer.byteLevel]
    rw [hend, Str.floorCharBoundary_of_le (Nat.le_refl _), hfloor]
    split
    · rw [hslice]
      refine ⟨_, rfl, fun sent hsent hstart => ?_⟩
      rw [← hsame sent hsent hstart]
      simpa [CompletionStreamDelta.texts, textOnly, sendFinish] using hdelta.symm
    · rename_i hshort
      refine ⟨_, rfl, fun sent hsent hstart => ?_⟩
      rw [← hsame sent hsent hstart,
        Str.eq_of_prefix_of_len_le ha (Nat.le_of_not_lt hshort)]
      simp [CompletionStreamDelta.texts, sendFinish]

/-! ## Whole streams -/

/-- All tokens of a request. -/
def allTokens (generated : List UInt32) (parts : List (List UInt32 × Option Float32))
    (rest : List UInt32) : List UInt32 := generated ++ ((parts.map Prod.fst).flatten ++ rest)

theorem allTokens_cons (generated part : List UInt32) (logprob : Option Float32)
    (parts : List (List UInt32 × Option Float32)) (rest : List UInt32) :
    allTokens generated ((part, logprob) :: parts) rest =
      allTokens (generated ++ part) parts rest := by
  simp only [allTokens, List.map_cons, List.flatten_cons, List.append_assoc]

/-- No call panics. -/
theorem stream_total (htracks : Tracks (lossyText bytes) st tokens) (promptTokens : Nat)
    (reason : FinishReason) (rest : List UInt32) (parts : List (List UInt32 × Option Float32))
    (hoverlaps : OverlapsSplit (lossyText bytes) parts tokens) : ∃ deltas,
    stream (.byteLevel bytes) none promptTokens reason rest parts tokens st =
      some (allTokens tokens parts rest, deltas) := by
  induction parts generalizing tokens st with
  | nil =>
    obtain ⟨deltas, hfinish, -⟩ := finish_all bytes st (tokens ++ rest) promptTokens reason
    exact ⟨deltas, by rw [stream, hfinish]; rfl⟩
  | cons part parts ih =>
    obtain ⟨part, logprob⟩ := part
    obtain ⟨st', deltas, hemit, htracks', -⟩ :=
      emitDelta_sendAll htracks part hoverlaps.1 logprob promptTokens
    obtain ⟨more, hstream⟩ := ih htracks' hoverlaps.2
    refine ⟨deltas ++ more, ?_⟩
    rw [stream, hemit, allTokens_cons]
    simp only [hstream, Option.map_some]

/-- What was sent is the decoding of earlier tokens. -/
structure Sending (bytes : UInt32 → List UInt8) (st : StreamDecodeState)
    (tokens : List UInt32) (sent : Str) : Prop where
  tracks : Tracks (lossyText bytes) st tokens
  sentLen : st.sentLen = Str.len sent
  source : sent = [] ∨ ∃ earlier, earlier <+: tokens ∧ sent = lossyText bytes earlier

/-- A call whose text is not a beginning of the whole text sends all of it. -/
theorem Sending.lt_of_not_prefix {sent : Str} {part later : List UInt32}
    (h : Sending bytes st tokens sent)
    (hsent : sent <+: lossyText bytes (tokens ++ part ++ later))
    (hnot : ¬ lossyText bytes (tokens ++ part) <+: lossyText bytes (tokens ++ part ++ later)) :
    sent <+: lossyText bytes (tokens ++ part) ∧
      Str.len sent < Str.len (lossyText bytes (tokens ++ part)) := by
  rcases h.source with rfl | ⟨earlier, ⟨between, rfl⟩, rfl⟩
  · refine ⟨List.nil_prefix, Nat.pos_of_ne_zero fun hzero => hnot ?_⟩
    rw [Str.len_eq_zero.mp hzero]
    exact List.nil_prefix
  · simp only [lossyText, List.flatMap_append, List.append_assoc] at hsent hnot ⊢
    rw [← List.append_assoc (between.flatMap bytes)] at hsent hnot
    exact Str.lossy_of_not_prefix hsent hnot

/-- All calls of one request, with what was sent before them. -/
theorem stream_begins {sent : Str} (h : Sending bytes st tokens sent) (promptTokens : Nat)
    (reason : FinishReason) (rest : List UInt32) (parts : List (List UInt32 × Option Float32))
    (hsent : sent <+: lossyText bytes (allTokens tokens parts rest))
    (hoverlaps : OverlapsSplit (lossyText bytes) parts tokens) : ∃ deltas,
    stream (.byteLevel bytes) none promptTokens reason rest parts tokens st =
        some (allTokens tokens parts rest, deltas) ∧
      (sent ++ CompletionStreamDelta.texts deltas =
          lossyText bytes (allTokens tokens parts rest) ↔
        CallsBegin (lossyText bytes) (lossyText bytes (allTokens tokens parts rest)) parts
          tokens) := by
  induction parts generalizing tokens st sent with
  | nil =>
    obtain ⟨deltas, hfinish, hall⟩ := finish_all bytes st (tokens ++ rest) promptTokens reason
    refine ⟨deltas, by rw [stream, hfinish]; rfl, iff_of_true ?_ trivial⟩
    exact hall sent h.sentLen hsent
  | cons part parts ih =>
    obtain ⟨part, logprob⟩ := part
    obtain ⟨st', deltas, hemit, htracks, hlonger, hshorter⟩ :=
      emitDelta_sendAll h.tracks part hoverlaps.1 logprob promptTokens
    rw [allTokens_cons] at hsent ⊢
    rw [stream, hemit]
    by_cases hbegins : lossyText bytes (tokens ++ part) <+:
        lossyText bytes (allTokens (tokens ++ part) parts rest)
    · -- the call sends what its text has more than the text that was sent
      obtain ⟨sent', hdeltas, hsending, hsent'⟩ : ∃ sent',
          sent ++ CompletionStreamDelta.texts deltas = sent' ∧
          Sending bytes st' (tokens ++ part) sent' ∧
          sent' <+: lossyText bytes (allTokens (tokens ++ part) parts rest) := by
        rcases Nat.lt_or_ge (Str.len sent) (Str.len (lossyText bytes (tokens ++ part))) with
          hlt | hge
        · obtain ⟨hlen, htext⟩ := hlonger sent h.sentLen
            (Str.prefix_of_len_le hsent hbegins (Nat.le_of_lt hlt))
          exact ⟨_, htext, ⟨htracks, hlen, Or.inr ⟨_, List.prefix_refl _, rfl⟩⟩, hbegins⟩
        · obtain ⟨hlen, hnil⟩ := hshorter (h.sentLen ▸ hge)
          refine ⟨sent, by rw [hnil]; exact List.append_nil sent, ⟨htracks, hlen ▸ h.sentLen,
            h.source.imp_right ?_⟩, hsent⟩
          rintro ⟨earlier, hearlier, htext⟩
          exact ⟨earlier, hearlier.trans (List.prefix_append _ _), htext⟩
      obtain ⟨more, hstream, hiff⟩ := ih hsending hsent' hoverlaps.2
      refine ⟨deltas ++ more, by simp only [hstream, Option.map_some], ?_⟩
      rw [CompletionStreamDelta.texts_append, ← List.append_assoc, hdeltas, hiff, CallsBegin]
      exact ⟨fun hnext => ⟨hbegins, hnext⟩, And.right⟩
    · -- the call sends a text that the whole text does not begin with
      obtain ⟨hstart, hlt⟩ := h.lt_of_not_prefix hsent hbegins
      obtain ⟨-, htext⟩ := hlonger sent h.sentLen hstart
      obtain ⟨more, hstream⟩ := stream_total htracks promptTokens reason rest parts hoverlaps.2
      refine ⟨deltas ++ more, by simp only [hstream, Option.map_some],
        iff_of_false (fun heq => ?_) fun hcalls => hbegins hcalls.1⟩
      rw [CompletionStreamDelta.texts_append, ← List.append_assoc, htext] at heq
      exact hbegins ⟨_, heq⟩

end Calls

/-- When the decoding splits wherever a call decodes again, the whole text is sent exactly when
the text at every call is a beginning of it. -/
theorem stream_lossless (bytes : UInt32 → List UInt8) (promptTokens : Nat)
    (reason : FinishReason) (parts : List (List UInt32 × Option Float32)) (rest : List UInt32)
    (hoverlaps : OverlapsSplit (lossyText bytes) parts []) : ∃ deltas,
    stream (.byteLevel bytes) none promptTokens reason rest parts [] StreamDecodeState.default =
        some (allTokens [] parts rest, deltas) ∧
      (CompletionStreamDelta.texts deltas = lossyText bytes (allTokens [] parts rest) ↔
        CallsBegin (lossyText bytes) (lossyText bytes (allTokens [] parts rest)) parts []) :=
  stream_begins ⟨Tracks.default rfl, rfl, Or.inl rfl⟩ promptTokens reason rest parts
    List.nil_prefix hoverlaps

/-- Bytes of a three-byte character, each in a token of its own. -/
def splitCharacter (token : UInt32) : List UInt8 :=
  if token = 0 then [0xE4] else if token = 1 then [0xBD] else [0xA0]

/-- A call for every token of a character: the first one sends U+FFFD. -/
theorem stream_lossless_fails : ¬ ∀ (bytes : UInt32 → List UInt8) (promptTokens : Nat)
    (reason : FinishReason) (parts : List (List UInt32 × Option Float32)) (rest : List UInt32),
    ∃ deltas, stream (.byteLevel bytes) none promptTokens reason rest parts []
        StreamDecodeState.default = some (allTokens [] parts rest, deltas) ∧
      CompletionStreamDelta.texts deltas = lossyText bytes (allTokens [] parts rest) := by
  intro hall
  obtain ⟨deltas, hstream, htexts⟩ :=
    hall splitCharacter 0 .length [([0], none), ([1], none), ([2], none)] []
  cases hstream
  exact absurd htexts (by decide +kernel)

/-- Seven tokens of a character each, with a call in the middle and one at the end. -/
theorem stream_lossless_seven : ∃ deltas,
    stream (.byteLevel fun _ => [0xC3, 0xA9]) none 0 .length [] [([0, 1, 2, 3, 4], none),
        ([5, 6], none)] [] StreamDecodeState.default = some ([0, 1, 2, 3, 4, 5, 6], deltas) ∧
      CompletionStreamDelta.texts deltas = "ééééééé".toList := by
  have hoverlaps : OverlapsSplit (lossyText fun _ => [0xC3, 0xA9]) [([0, 1, 2, 3, 4], none),
      ([5, 6], none)] [] := by
    refine ⟨fun h => absurd h (by decide), fun _ => ⟨?_, ?_⟩, trivial⟩
    · decide +kernel
    · decide +kernel
  obtain ⟨deltas, hstream, hiff⟩ := stream_lossless _ 0 .length _ [] hoverlaps
  refine ⟨deltas, hstream, ?_⟩
  rw [hiff.mpr ⟨by decide +kernel, by decide +kernel, trivial⟩]
  decide +kernel

end StreamDecodeState

end Arle.Scheduler
