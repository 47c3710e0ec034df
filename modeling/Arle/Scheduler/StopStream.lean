import Arle.Scheduler.StreamDecode

/-!
# Stop strings of a stream

What `emit_delta` and `finish` send when there are stop strings, for tokens that decode to
complete strings. The text is cut at the first match when the first stop string of the list that
occurs in it is one that matches there: `check_stop_sequences` stops at that one, whatever the
later ones match.
-/

namespace Arle.Scheduler

open ServerEngine Search

/-- Every token has a text of its own. -/
def Tokenizer.ofTexts (text : UInt32 → Str) : Tokenizer := ⟨fun ids => some (ids.flatMap text)⟩

/-- The stop string occurs in the text. -/
def occurs (text s : Str) : Bool := decide (s ≠ [] ∧ s <:+: text)

/-- The first stop string of the list that occurs is one that matches first. -/
def ListedFirst (stops : List Str) (text : Str) : Prop :=
  ∀ s, stops.find? (occurs text) = some s → ∀ p, IsFirst stops text p → s <+: text.drop p

/-- `ListedFirst` at the first call at which a stop string occurs, or at the last call. -/
def StopsListedFirst (text : UInt32 → Str) (stops : List Str) (rest : List UInt32) :
    List (List UInt32 × Option Float32) → List UInt32 → Prop
  | [], generated => ListedFirst stops ((generated ++ rest).flatMap text)
  | (part, _) :: parts, generated =>
    ListedFirst stops ((generated ++ part).flatMap text) ∧
      ((∀ i, ¬ MatchAt stops ((generated ++ part).flatMap text) i) →
        StopsListedFirst text stops rest parts (generated ++ part))

/-- The deltas carry the text up to the first match, nothing of a stop string, and one end. -/
structure CutOnce (stops : List Str) (text : Str) (deltas : List CompletionStreamDelta) :
    Prop where
  cut : CutAtFirst stops text (CompletionStreamDelta.texts deltas)
  unsent : ∀ s ∈ stops, s ≠ [] → ¬ s <:+: CompletionStreamDelta.texts deltas
  once : CompletionStreamDelta.EndsOnce deltas

/-! ## The check -/

section Check

variable {stops : List Str} {text : Str}

theorem findSome?_find (stops : List Str) (text : Str) :
    (stops.filter (· ≠ [])).findSome? text.find = (stops.find? (occurs text)).bind text.find := by
  induction stops with
  | nil => rfl
  | cons s stops ih =>
    by_cases hs : s = []
    · rw [List.filter_cons_of_neg (by simpa using hs), List.find?_cons_of_neg, ih]
      simp [occurs, hs]
    · rw [List.filter_cons_of_pos (by simpa using hs), List.findSome?_cons]
      cases hfind : text.find s with
      | some pos =>
        have hoccurs : s <:+: text := Str.find_isSome.mp (by rw [hfind]; rfl)
        rw [List.find?_cons_of_pos (by simp [occurs, hs, hoccurs])]
        exact hfind.symm
      | none =>
        have hoccurs : ¬ s <:+: text := fun h => by
          have := Str.find_isSome.mpr h
          rw [hfind] at this
          cases this
        rw [List.find?_cons_of_neg (by simp [occurs, hoccurs])]
        exact ih

/-- Where the check stops: at the first stop string of the list that occurs. -/
structure StopsAt (stops : List Str) (text : Str) (s : Str) (i : Nat) : Prop where
  find : stops.find? (occurs text) = some s
  first : Search.first s text = some i
  matchAt : MatchAt stops text i

theorem checkStopSequences_spec (stops : List Str) (text : Str) :
    (∃ s i, StopsAt stops text s i ∧
      checkStopSequences text stops = .stopFound (Str.len (text.take i))) ∨
    ((∀ i, ¬ MatchAt stops text i) ∧ checkStopSequences text stops =
      .noStop (text.floorCharBoundary (text.len - Str.maxLen stops))) := by
  rw [checkStopSequences, findSome?_find]
  cases hfind : stops.find? (occurs text) with
  | some s =>
    left
    have hoccurs := List.find?_some hfind
    have hs : s ≠ [] ∧ s <:+: text := of_decide_eq_true hoccurs
    obtain ⟨i, hi⟩ := Option.isSome_iff_exists.mp (first_isSome.mpr hs.2)
    have hmatch : MatchAt stops text i :=
      ⟨s, List.mem_of_find?_eq_some hfind, hs.1, (first_eq_some.mp hi).2.1⟩
    refine ⟨s, i, ⟨hfind, hi, hmatch⟩, ?_⟩
    rw [Option.bind_some, Str.find, hi]
    rfl
  | none =>
    right
    refine ⟨fun i hmatch => ?_, rfl⟩
    obtain ⟨s, hs, hne, hinfix⟩ := exists_matchAt.mp ⟨i, hmatch⟩
    have := List.find?_eq_none.mp hfind s hs
    exact this (decide_eq_true ⟨hne, hinfix⟩)

/-- A text without a match is sent as a whole. -/
theorem listedFirst_of_unmatched (h : ∀ i, ¬ MatchAt stops text i) : ListedFirst stops text :=
  fun _ _ p hp => absurd hp.1 (h p)

/-- Where the check stops is the first match exactly when the list begins with it. -/
theorem StopsAt.cutAtFirst_iff {s : Str} {i : Nat} (h : StopsAt stops text s i) :
    CutAtFirst stops text (text.take i) ↔ ListedFirst stops text := by
  obtain ⟨-, hpat, hmin⟩ := first_eq_some.mp h.first
  constructor
  · rintro (⟨hnone, -⟩ | ⟨p, hp, htake⟩)
    · exact absurd h.matchAt (hnone i)
    · intro t ht q hq
      cases h.find.symm.trans ht
      have hlen := congrArg List.length htake
      rw [List.length_take, List.length_take, Nat.min_eq_left (Nat.le_of_lt h.matchAt.lt),
        Nat.min_eq_left (Nat.le_of_lt hp.1.lt)] at hlen
      rw [← hp.unique hq, ← hlen]
      exact hpat
  · intro hlisted
    obtain ⟨p, hp⟩ := exists_isFirst h.matchAt
    refine Or.inr ⟨p, hp, ?_⟩
    have hps := hlisted s h.find p hp
    have hip : i = p := by
      rcases Nat.lt_trichotomy i p with hlt | heq | hlt
      · exact absurd h.matchAt (hp.2 i hlt)
      · exact heq
      · exact absurd hps (hmin p hlt)
    rw [hip]

end Check

namespace StreamDecodeState

/-! ## Calls before a match -/

/-- No stop string has matched, `sent` has been sent, and what is held back is long enough. -/
structure Waiting (text : UInt32 → Str) (stops : List Str) (st : StreamDecodeState)
    (tokens : List UInt32) (sent : Str) : Prop where
  tracks : Tracks (·.flatMap text) st tokens
  sentLen : st.sentLen = Str.len sent
  sent_prefix : sent <+: tokens.flatMap text
  unmatched : ∀ i, ¬ MatchAt stops (tokens.flatMap text) i
  held : sent = [] ∨ Str.len sent + (Str.maxLen stops - 1) ≤ Str.len (tokens.flatMap text)

theorem splitsAt_flatMap (text : UInt32 → Str) (tokens : List UInt32) (k : Nat) :
    SplitsAt (·.flatMap text) tokens k := by
  dsimp only [SplitsAt]
  rw [← List.flatMap_append, List.take_append_drop]

section Calls

variable {text : UInt32 → Str} {stops : List Str} {st : StreamDecodeState}
  {tokens : List UInt32} {sent : Str}

theorem Waiting.default (text : UInt32 → Str) (stops : List Str) :
    Waiting text stops StreamDecodeState.default [] [] :=
  ⟨Tracks.default rfl, rfl, List.nil_prefix, fun _ hi => absurd hi.lt (Nat.not_lt_zero _),
    Or.inl rfl⟩

/-- A match that more tokens bring does not begin in the text that was sent. -/
theorem Waiting.length_le (h : Waiting text stops st tokens sent) (more : List UInt32) {i : Nat}
    (hmatch : MatchAt stops ((tokens ++ more).flatMap text) i) : sent.length ≤ i := by
  rw [List.flatMap_append] at hmatch
  exact length_le_of_held h.sent_prefix h.unmatched h.held hmatch

theorem Waiting.sent_prefix_append (h : Waiting text stops st tokens sent)
    (more : List UInt32) : sent <+: (tokens ++ more).flatMap text := by
  rw [List.flatMap_append]
  exact h.sent_prefix.trans (List.prefix_append _ _)

/-- What was sent is a part of the text before a match that more tokens bring. -/
theorem Waiting.sent_prefix_take (h : Waiting text stops st tokens sent) (more : List UInt32)
    {i : Nat} (hmatch : MatchAt stops ((tokens ++ more).flatMap text) i) :
    sent <+: ((tokens ++ more).flatMap text).take i := by
  refine List.prefix_of_prefix_length_le (h.sent_prefix_append more) (List.take_prefix _ _) ?_
  rw [List.length_take, Nat.min_eq_left (Nat.le_of_lt hmatch.lt)]
  exact h.length_le more hmatch

/-- What a call of `emit_delta` leaves: the wait goes on, or the check has stopped the text. -/
inductive Emitted (text : UInt32 → Str) (stops : List Str) (tokens : List UInt32) (sent : Str) :
    EmitOutcome × StreamDecodeState × List CompletionStreamDelta → Prop
  | waits {st deltas} (hwaiting : Waiting text stops st tokens
        (sent ++ CompletionStreamDelta.texts deltas))
      (hopen : ∀ delta ∈ deltas, delta.finishReason = none) :
      Emitted text stops tokens sent (.continue, st, deltas)
  | stops {st deltas s i} (hstops : StopsAt stops (tokens.flatMap text) s i)
      (hsent : sent ++ CompletionStreamDelta.texts deltas = (tokens.flatMap text).take i)
      (honce : CompletionStreamDelta.EndsOnce deltas) :
      Emitted text stops tokens sent (.finished, st, deltas)

/-- `sendUntilStop` sends up to the match, or up to the text that is held back. -/
theorem sendUntilStop_spec (hsent : sent <+: tokens.flatMap text)
    (htracks : Tracks (·.flatMap text) st tokens) (hlen : st.sentLen = Str.len sent)
    (hheld : sent = [] ∨ Str.len sent + (Str.maxLen stops - 1) ≤ Str.len (tokens.flatMap text))
    (hearly : ∀ i, MatchAt stops (tokens.flatMap text) i →
      sent <+: (tokens.flatMap text).take i)
    (logprob : Option Float32) (promptTokens : Nat) : ∃ result,
    st.sendUntilStop tokens logprob stops promptTokens = some result ∧
      Emitted text stops tokens sent result := by
  rw [sendUntilStop, htracks.fullDecoded, hlen]
  rcases checkStopSequences_spec stops (tokens.flatMap text) with
    ⟨s, i, hstops, hcheck⟩ | ⟨hunmatched, hcheck⟩
  · simp only [hcheck]
    have hstart := hearly i hstops.matchAt
    have honce : CompletionStreamDelta.EndsOnce
        [sendFinish promptTokens tokens.length .stop tokens] :=
      ⟨[], _, rfl, rfl, fun _ h => absurd h List.not_mem_nil⟩
    split
    · obtain ⟨delta, htake, hslice⟩ := Str.slice_of_prefix hstart (List.take_prefix _ _)
      rw [hslice]
      refine ⟨_, rfl, .stops hstops ?_ (honce.cons rfl)⟩
      rw [htake]
      simp [CompletionStreamDelta.texts, textOnly, sendFinish]
    · rename_i hle
      refine ⟨_, rfl, .stops hstops ?_ honce⟩
      rw [Str.eq_of_prefix_of_len_le hstart (Nat.le_of_not_lt hle)]
      simp [CompletionStreamDelta.texts, sendFinish]
  · simp only [hcheck]
    obtain ⟨a, b, htext, hfloor, hle, -⟩ := Str.floorCharBoundary_spec (tokens.flatMap text)
      (Str.len (tokens.flatMap text) - Str.maxLen stops)
    rw [hfloor]
    have ha : a <+: tokens.flatMap text := ⟨b, htext.symm⟩
    split
    · rename_i hlt
      have hstart : sent <+: a := Str.prefix_of_len_le hsent ha (Nat.le_of_lt hlt)
      obtain ⟨delta, rfl, hslice⟩ := Str.slice_of_prefix hstart ha
      rw [hslice]
      refine ⟨_, rfl, .waits ⟨⟨rfl, htracks.decodedTokenCount, htracks.prefixByteLen⟩, ?_, ?_,
        hunmatched, Or.inr ?_⟩ ?_⟩
      · simp [CompletionStreamDelta.texts, textOnly]
      · simpa [CompletionStreamDelta.texts, textOnly] using ha
      · have := Str.len_le_of_prefix ha
        simp only [CompletionStreamDelta.texts, textOnly, List.flatMap_cons, List.flatMap_nil,
          List.append_nil]
        omega
      · intro d hd
        rw [List.mem_singleton.mp hd]
        rfl
    · refine ⟨_, rfl, .waits ?_ fun d hd => absurd hd List.not_mem_nil⟩
      rw [CompletionStreamDelta.texts, List.flatMap_nil, List.append_nil]
      exact ⟨htracks, hlen, hsent, hunmatched, hheld⟩

/-- A call of `emit_delta` on more tokens. -/
theorem emitDelta_spec (h : Waiting text stops st tokens sent) (more : List UInt32)
    (logprob : Option Float32) (promptTokens : Nat) : ∃ result,
    st.emitDelta (tokens ++ more) (.ofTexts text) logprob (some stops) promptTokens =
        some result ∧ Emitted text stops (tokens ++ more) sent result := by
  rw [emitDelta]
  by_cases hempty : (tokens ++ more).length = 0
  · rw [if_pos hempty]
    refine ⟨_, rfl, .waits ?_ fun d hd => absurd hd List.not_mem_nil⟩
    have hnil := List.append_eq_nil_iff.mp (List.length_eq_zero_iff.mp hempty)
    rw [CompletionStreamDelta.texts, List.flatMap_nil, List.append_nil, hnil.2,
      List.append_nil]
    exact h
  · have hle : ¬ (tokens ++ more).length < st.safePoint := by
      rw [safePoint, h.tracks.decodedTokenCount, List.length_append]
      omega
    have htext : ∀ ids, (Tokenizer.ofTexts text).decode ids = some (ids.flatMap text) :=
      fun _ => rfl
    obtain ⟨st', hextend, htracks, hsentLen⟩ := h.tracks.extend htext more
      fun _ => ⟨splitsAt_flatMap _ _ _, splitsAt_flatMap _ _ _⟩
    rw [if_neg hempty, if_neg hle]
    simp only [Tokenizer.ofTexts] at hextend ⊢
    rw [hextend]
    refine sendUntilStop_spec (h.sent_prefix_append more) htracks (hsentLen.trans h.sentLen)
      (h.held.imp_right fun hheld => ?_) (fun i => h.sent_prefix_take more) logprob promptTokens
    rw [List.flatMap_append, Str.len_append]
    omega

/-- `finish` sends what is left. -/
theorem finish_spec (h : Waiting text stops st tokens sent) (rest : List UInt32)
    (promptTokens : Nat) (reason : FinishReason) : ∃ deltas,
    st.finish (tokens ++ rest) (.ofTexts text) promptTokens reason (some stops) = some deltas ∧
      CompletionStreamDelta.EndsOnce deltas ∧
      (CutAtFirst stops ((tokens ++ rest).flatMap text)
          (sent ++ CompletionStreamDelta.texts deltas) ↔
        ListedFirst stops ((tokens ++ rest).flatMap text)) := by
  -- it sends the text up to the end that the check gives
  obtain ⟨stop, hstart, hstop, hend, hiff⟩ : ∃ stop, sent <+: stop ∧
      stop <+: (tokens ++ rest).flatMap text ∧
      finishEnd ((tokens ++ rest).flatMap text) (some stops) = Str.len stop ∧
      (CutAtFirst stops ((tokens ++ rest).flatMap text) stop ↔
        ListedFirst stops ((tokens ++ rest).flatMap text)) := by
    rcases checkStopSequences_spec stops ((tokens ++ rest).flatMap text) with
      ⟨s, i, hstops, hcheck⟩ | ⟨hunmatched, hcheck⟩
    · refine ⟨_, h.sent_prefix_take rest hstops.matchAt, List.take_prefix _ _, ?_,
        hstops.cutAtFirst_iff⟩
      simp only [finishEnd, hcheck]
    · refine ⟨_, h.sent_prefix_append rest, List.prefix_refl _, ?_,
        iff_of_true (Or.inl ⟨hunmatched, rfl⟩) (listedFirst_of_unmatched hunmatched)⟩
      simp only [finishEnd, hcheck]
  have honce : CompletionStreamDelta.EndsOnce
      [sendFinish promptTokens (tokens ++ rest).length reason (tokens ++ rest)] :=
    ⟨[], _, rfl, rfl, fun _ h => absurd h List.not_mem_nil⟩
  rw [finish]
  split
  · rename_i hempty
    refine ⟨_, rfl, honce, ?_⟩
    have hnil : stop = [] := by
      rw [hempty] at hstop
      exact List.prefix_nil.mp hstop
    rw [hnil] at hstart hiff
    rw [List.prefix_nil.mp hstart]
    exact hiff
  · simp only [Tokenizer.ofTexts]
    rw [h.sentLen, hend, Str.floorCharBoundary_of_prefix (hstart.trans hstop),
      Str.floorCharBoundary_of_prefix hstop]
    split
    · obtain ⟨delta, rfl, hslice⟩ := Str.slice_of_prefix hstart hstop
      rw [hslice]
      refine ⟨_, rfl, honce.cons rfl, ?_⟩
      simpa [CompletionStreamDelta.texts, textOnly, sendFinish] using hiff
    · rename_i hle
      refine ⟨_, rfl, honce, ?_⟩
      rw [Str.eq_of_prefix_of_len_le hstart (Nat.le_of_not_lt hle)]
      simpa [CompletionStreamDelta.texts, sendFinish] using hiff

/-- All calls of one request, with what was sent before them. -/
theorem stream_spec (h : Waiting text stops st tokens sent) (promptTokens : Nat)
    (reason : FinishReason) (rest : List UInt32) (parts : List (List UInt32 × Option Float32)) :
    ∃ final deltas, stream (.ofTexts text) (some stops) promptTokens reason rest parts tokens st =
        some (final, deltas) ∧ CompletionStreamDelta.EndsOnce deltas ∧
      (CutAtFirst stops (final.flatMap text) (sent ++ CompletionStreamDelta.texts deltas) ↔
        StopsListedFirst text stops rest parts tokens) := by
  induction parts generalizing tokens st sent with
  | nil =>
    obtain ⟨deltas, hfinish, honce, hiff⟩ := finish_spec h rest promptTokens reason
    exact ⟨_, deltas, by rw [stream, hfinish]; rfl, honce, hiff⟩
  | cons part parts ih =>
    obtain ⟨part, logprob⟩ := part
    obtain ⟨result, hemit, hemitted⟩ := emitDelta_spec h part logprob promptTokens
    rw [stream, hemit]
    cases hemitted with
    | waits hwaiting hopen =>
      rename_i st' deltas
      obtain ⟨final, more, hstream, honce, hiff⟩ := ih hwaiting
      refine ⟨final, deltas ++ more, by simp only [hstream, Option.map_some],
        honce.append hopen, ?_⟩
      rw [CompletionStreamDelta.texts_append, ← List.append_assoc, hiff, StopsListedFirst]
      exact ⟨fun hnext => ⟨listedFirst_of_unmatched hwaiting.unmatched, fun _ => hnext⟩,
        fun hnext => hnext.2 hwaiting.unmatched⟩
    | stops hstops hsent honce =>
      refine ⟨_, _, rfl, honce, ?_⟩
      rw [hsent, hstops.cutAtFirst_iff, StopsListedFirst]
      exact ⟨fun hlisted => ⟨hlisted, fun hnone => absurd hstops.matchAt (hnone _)⟩, And.left⟩

end Calls

/-- The stream is cut at the first match exactly when the stop string that ends it, the first
one of the list, is one that matches first. -/
theorem stops_cut (text : UInt32 → Str) (stops : List Str) (promptTokens : Nat)
    (reason : FinishReason) (parts : List (List UInt32 × Option Float32)) (rest : List UInt32) :
    ∃ tokens deltas, stream (.ofTexts text) (some stops) promptTokens reason rest parts []
        StreamDecodeState.default = some (tokens, deltas) ∧
      CompletionStreamDelta.EndsOnce deltas ∧
      (CutOnce stops (tokens.flatMap text) deltas ↔ StopsListedFirst text stops rest parts []) := by
  obtain ⟨tokens, deltas, hstream, honce, hiff⟩ :=
    stream_spec (Waiting.default text stops) promptTokens reason rest parts
  rw [List.nil_append] at hiff
  refine ⟨tokens, deltas, hstream, honce, ?_⟩
  rw [← hiff]
  refine ⟨CutOnce.cut, fun hcut => ⟨hcut, fun s hs hne hinfix => ?_, honce⟩⟩
  obtain ⟨i, hi⟩ := exists_matchAt.mpr ⟨s, hs, hne, hinfix⟩
  exact hcut.unmatched i hi

/-- The list names a later match first: the text before it is sent, with the other match. -/
theorem stops_cut_fails : ¬ ∀ (text : UInt32 → Str) (stops : List Str) (promptTokens : Nat)
    (reason : FinishReason) (parts : List (List UInt32 × Option Float32)) (rest : List UInt32),
    ∃ tokens deltas, stream (.ofTexts text) (some stops) promptTokens reason rest parts []
        StreamDecodeState.default = some (tokens, deltas) ∧
      CutOnce stops (tokens.flatMap text) deltas := by
  intro hall
  obtain ⟨tokens, deltas, hstream, hcut⟩ := hall (fun _ => ['a', 'b']) [['b'], ['a']] 0 .length
    [([0], none)] []
  cases hstream
  exact hcut.unsent ['a'] (by decide) (by decide) (by decide)

end StreamDecodeState

end Arle.Scheduler
