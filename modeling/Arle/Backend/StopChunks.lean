import Arle.ServerEngine.Stream

/-!
# Stop strings of a chunked text

`StopChunkProcessor` of `infer/src/backend/runtime.rs`, and its agreement with
`truncate_at_first_stop`. Nothing that is sent is part of a match, because the text that is
held back is as long as all but the last byte of the longest stop string.
-/

namespace Arle.Backend

open ServerEngine Search

structure StopChunkProcessor where
  accumulated : Str
  sentLen : Nat
  stops : List Str
  maxStopLen : Nat
  hitStop : Bool

/-- The loop of `clamp_char_boundary`. -/
def clampLoop (text : Str) : Nat → Nat
  | 0 => 0
  | idx + 1 => if text.isCharBoundary (idx + 1) then idx + 1 else clampLoop text idx

/-- `clamp_char_boundary`. -/
def clampCharBoundary (text : Str) (idx : Nat) : Nat := clampLoop text (min idx text.len)

namespace StopChunkProcessor

def new (stops : List Str) : StopChunkProcessor where
  accumulated := []
  sentLen := 0
  stops := stops
  maxStopLen := Str.maxLen stops
  hitStop := false

/-- `flush_ready`. -/
def flushReady (p : StopChunkProcessor) (stop : Nat) :
    Option (Option Str × StopChunkProcessor) :=
  if stop ≤ p.sentLen then some (none, p)
  else
    (p.accumulated.slice p.sentLen stop).map fun delta => (some delta, { p with sentLen := stop })

/-- `find_earliest_stop`. -/
def findEarliestStop (p : StopChunkProcessor) : Option (Option Nat) :=
  (p.accumulated.split p.sentLen).map fun (_, unsent) =>
    earliestStop (fun s => (unsent.find s).map (p.sentLen + ·)) p.stops

/-- `push_chunk`. -/
def pushChunk (p : StopChunkProcessor) (chunk : Str) :
    Option (Option Str × StopChunkProcessor) :=
  if p.hitStop then some (none, p)
  else
    let p := { p with accumulated := p.accumulated ++ chunk }
    match p.findEarliestStop with
    | none => none
    | some (some stopPos) =>
      (p.accumulated.slice p.sentLen stopPos).map fun delta =>
        (some delta, { p with sentLen := stopPos, hitStop := true })
    | some none =>
      if p.maxStopLen ≤ 1 then p.flushReady p.accumulated.len
      else
        let safeEnd := p.accumulated.len - (p.maxStopLen - 1)
        p.flushReady (clampCharBoundary p.accumulated safeEnd)

/-- `finish`. -/
def finish (p : StopChunkProcessor) : Option (Option Str × StopChunkProcessor) :=
  if p.hitStop then some (none, p) else p.flushReady p.accumulated.len

/-- The deltas of the chunks and of `finish` after them. -/
def stream : List Str → StopChunkProcessor → Option (List Str × StopChunkProcessor)
  | [], p => p.finish.map fun (delta, p) => (delta.toList, p)
  | chunk :: chunks, p =>
    match p.pushChunk chunk with
    | none => none
    | some (delta, p) => (stream chunks p).map fun (deltas, p) => (delta.toList ++ deltas, p)

end StopChunkProcessor

/-! ## Places to cut -/

theorem isCharBoundary_iff {s : Str} {n : Nat} :
    s.isCharBoundary n = true ↔ ∃ a b, s = a ++ b ∧ n = Str.len a := by
  rw [Str.isCharBoundary, Option.isSome_iff_exists]
  constructor
  · rintro ⟨⟨a, b⟩, h⟩
    exact ⟨a, b, Str.split_eq_some.mp h⟩
  · rintro ⟨a, b, h⟩
    exact ⟨(a, b), Str.split_eq_some.mpr h⟩

/-- The loop goes down to a place to cut. -/
theorem clampCharBoundary_spec (s : Str) (n : Nat) : ∃ a b, s = a ++ b ∧
    clampCharBoundary s n = Str.len a ∧ Str.len a ≤ n := by
  have hloop : ∀ m, ∃ a b, s = a ++ b ∧ clampLoop s m = Str.len a ∧ Str.len a ≤ m := by
    intro m
    induction m with
    | zero => exact ⟨[], s, rfl, rfl, Nat.le_refl 0⟩
    | succ m ih =>
      rw [clampLoop]
      split
      · rename_i hboundary
        obtain ⟨a, b, hs, hm⟩ := isCharBoundary_iff.mp hboundary
        exact ⟨a, b, hs, hm, Nat.le_of_eq hm.symm⟩
      · obtain ⟨a, b, hs, hclamp, hle⟩ := ih
        exact ⟨a, b, hs, hclamp, Nat.le_succ_of_le hle⟩
  obtain ⟨a, b, hs, hclamp, hle⟩ := hloop (min n s.len)
  exact ⟨a, b, hs, hclamp, Nat.le_trans hle (Nat.min_le_left _ _)⟩

namespace StopChunkProcessor

/-! ## Before a match -/

/-- No stop string has matched, `sent` has been sent, and what is held back is long enough. -/
structure Waiting (stops : List Str) (p : StopChunkProcessor) (sent : Str) : Prop where
  stops_eq : p.stops = stops
  maxStopLen_eq : p.maxStopLen = Str.maxLen stops
  hitStop : p.hitStop = false
  sentLen : p.sentLen = Str.len sent
  sent_prefix : sent <+: p.accumulated
  unmatched : ∀ i, ¬ MatchAt stops p.accumulated i
  held : sent = [] ∨ Str.len sent + (Str.maxLen stops - 1) ≤ Str.len p.accumulated

section Steps

variable {stops : List Str} {p : StopChunkProcessor} {sent chunk : Str}

/-- A match that the new chunk brings does not begin in the text that was sent. -/
theorem Waiting.length_le (h : Waiting stops p sent) {i : Nat}
    (hmatch : MatchAt stops (p.accumulated ++ chunk) i) : sent.length ≤ i :=
  length_le_of_held h.sent_prefix h.unmatched h.held hmatch

/-- A match in the text that is not sent is a match in the whole text. -/
theorem matchAt_append_left (a b : Str) (i : Nat) :
    MatchAt stops (a ++ b) (a.length + i) ↔ MatchAt stops b i := by
  rw [MatchAt, MatchAt, List.drop_length_add_append]

/-- What `flush_ready` does with the text up to a place to cut. -/
theorem flushReady_spec (h : Waiting stops p sent) {a b : Str} (hacc : p.accumulated = a ++ b)
    (hheld : Str.len a + (Str.maxLen stops - 1) ≤ Str.len p.accumulated) :
    ∃ delta p', p.flushReady (Str.len a) = some (delta, p') ∧
      p'.accumulated = p.accumulated ∧ Waiting stops p' (sent ++ delta.getD []) ∧
      (b = [] → sent ++ delta.getD [] = p.accumulated) := by
  rw [flushReady, h.sentLen]
  by_cases hle : Str.len a ≤ Str.len sent
  · rw [if_pos hle]
    refine ⟨none, p, rfl, rfl, (List.append_nil sent).symm ▸ h, fun hb => ?_⟩
    obtain ⟨rest, hrest⟩ := h.sent_prefix
    rw [hb, List.append_nil] at hacc
    have hlen := congrArg Str.len hrest
    rw [Str.len_append, hacc] at hlen
    have hnil : rest = [] := Str.len_eq_zero.mp (by omega)
    rw [hnil] at hrest
    exact hrest
  · rw [if_neg hle]
    -- `sent` is a part of `a`, and the rest of `a` is sent now
    obtain ⟨delta, rfl⟩ : sent <+: a := by
      obtain ⟨rest, hrest⟩ := h.sent_prefix
      rcases List.append_eq_append_iff.mp (hrest.trans hacc) with ⟨x, hx, -⟩ | ⟨x, hx, -⟩
      · exact ⟨x, hx.symm⟩
      · rw [hx, Str.len_append] at hle
        omega
    have hslice : p.accumulated.slice (Str.len sent) (Str.len (sent ++ delta)) = some delta := by
      rw [hacc, List.append_assoc]
      exact Str.slice_append sent delta b
    rw [hslice]
    refine ⟨some delta, _, rfl, rfl, ⟨h.stops_eq, h.maxStopLen_eq, h.hitStop, rfl, ?_,
      h.unmatched, Or.inr hheld⟩, fun hb => ?_⟩
    · rw [hacc]
      exact List.prefix_append _ _
    · rw [hacc, hb, List.append_nil]
      rfl

/-- The first match in the text that is not sent is the first one in the whole text. -/
theorem isFirst_append (a : Str) {b : Str} {q : Nat} (h : IsFirst stops b q)
    (hearly : ∀ i, MatchAt stops (a ++ b) i → a.length ≤ i) :
    IsFirst stops (a ++ b) (a.length + q) := by
  refine ⟨(matchAt_append_left a b q).mpr h.1, fun j hj hmatch => ?_⟩
  obtain ⟨i, rfl⟩ := Nat.exists_eq_add_of_le (hearly j hmatch)
  exact h.2 i (by omega) ((matchAt_append_left a b i).mp hmatch)

/-- A stop string has matched: the text before the first match has been sent. -/
structure Stopped (stops : List Str) (p : StopChunkProcessor) (text sent : Str) : Prop where
  hitStop : p.hitStop = true
  first : ∃ q, IsFirst stops text q ∧ sent = text.take q

/-- A chunk either brings the first match or leaves the processor waiting. -/
theorem pushChunk_spec (h : Waiting stops p sent) (chunk : Str) : ∃ delta p',
    p.pushChunk chunk = some (delta, p') ∧
      ((Waiting stops p' (sent ++ delta.getD []) ∧ p'.accumulated = p.accumulated ++ chunk) ∨
        Stopped stops p' (p.accumulated ++ chunk) (sent ++ delta.getD [])) := by
  obtain ⟨unsent, hunsent⟩ := h.sent_prefix
  have hacc : p.accumulated ++ chunk = sent ++ (unsent ++ chunk) := by
    rw [← hunsent, List.append_assoc]
  have hearly : ∀ i, MatchAt stops (sent ++ (unsent ++ chunk)) i → sent.length ≤ i :=
    fun i hi => h.length_le (hacc.symm ▸ hi)
  have hfind : findEarliestStop { p with accumulated := p.accumulated ++ chunk } =
      some (earliestStop (fun s => (Str.find (unsent ++ chunk) s).map (Str.len sent + ·))
        stops) := by
    simp only [findEarliestStop, h.sentLen, h.stops_eq, hacc, Str.split_append, Option.map_some]
  rw [pushChunk, if_neg (by rw [h.hitStop]; exact Bool.false_ne_true)]
  by_cases hmatch : ∃ i, MatchAt stops (unsent ++ chunk) i
  · -- the first match of the whole text is found
    obtain ⟨q, hq⟩ := exists_isFirst hmatch.choose_spec
    have hslice : Str.slice (p.accumulated ++ chunk) p.sentLen
        (Str.len sent + Str.len ((unsent ++ chunk).take q)) = some ((unsent ++ chunk).take q) := by
      have := Str.slice_append sent ((unsent ++ chunk).take q) ((unsent ++ chunk).drop q)
      rw [h.sentLen, hacc]
      rwa [List.take_append_drop, Str.len_append] at this
    simp only [hfind, earliestStop_isFirst _ hq, hslice, Option.map_some]
    refine ⟨_, _, rfl, Or.inr ⟨rfl, sent.length + q, ?_, ?_⟩⟩
    · rw [hacc]
      exact isFirst_append sent hq hearly
    · rw [hacc, List.take_length_add_append]
      rfl
  · have hnone : ∀ i, ¬ MatchAt stops (unsent ++ chunk) i := fun i hi => hmatch ⟨i, hi⟩
    have hwaiting : Waiting stops { p with accumulated := p.accumulated ++ chunk } sent := by
      refine ⟨h.stops_eq, h.maxStopLen_eq, h.hitStop, h.sentLen,
        h.sent_prefix.trans (List.prefix_append _ _), fun i hi => ?_, ?_⟩
      · rw [hacc] at hi
        obtain ⟨j, rfl⟩ := Nat.exists_eq_add_of_le (hearly i hi)
        exact hnone j ((matchAt_append_left sent _ j).mp hi)
      · refine h.held.imp_right fun hheld => ?_
        rw [Str.len_append]
        omega
    simp only [hfind, earliestStop_none _ hnone]
    split
    · rename_i hshort
      rw [h.maxStopLen_eq] at hshort
      obtain ⟨delta, p', hflush, hacc', hwaiting', -⟩ :=
        flushReady_spec hwaiting (b := []) (List.append_nil _).symm (by
          dsimp only
          omega)
      exact ⟨delta, p', hflush, Or.inl ⟨hwaiting', hacc'⟩⟩
    · rename_i hlong
      obtain ⟨a, b, hab, hclamp, hle⟩ := clampCharBoundary_spec (p.accumulated ++ chunk)
        ((p.accumulated ++ chunk).len - (p.maxStopLen - 1))
      rw [hclamp]
      by_cases hempty : Str.len a ≤ Str.len sent
      · -- nothing new is ready
        refine ⟨none, _, ?_, Or.inl ⟨(List.append_nil sent).symm ▸ hwaiting, rfl⟩⟩
        rw [flushReady, if_pos (h.sentLen.symm ▸ hempty)]
      · have hheld : Str.len a + (Str.maxLen stops - 1) ≤
            Str.len (p.accumulated ++ chunk) := by
          rw [h.maxStopLen_eq] at hle
          omega
        obtain ⟨delta, p', hflush, hacc', hwaiting', -⟩ := flushReady_spec hwaiting hab hheld
        exact ⟨delta, p', hflush, Or.inl ⟨hwaiting', hacc'⟩⟩

/-- Everything is sent at the end of a text without a match. -/
theorem finish_spec (h : Waiting stops p sent) : ∃ delta p', p.finish = some (delta, p') ∧
    p'.hitStop = false ∧ sent ++ delta.getD [] = p.accumulated := by
  rw [finish, if_neg (by rw [h.hitStop]; exact Bool.false_ne_true), flushReady, h.sentLen]
  obtain ⟨unsent, hunsent⟩ := h.sent_prefix
  have hlen : Str.len p.accumulated = Str.len sent + Str.len unsent := by
    rw [← hunsent, Str.len_append]
  by_cases hle : Str.len p.accumulated ≤ Str.len sent
  · rw [if_pos hle]
    have hnil : unsent = [] := Str.len_eq_zero.mp (by omega)
    exact ⟨none, p, rfl, h.hitStop, by rw [← hunsent, hnil]; rfl⟩
  · have hslice : p.accumulated.slice (Str.len sent) (Str.len p.accumulated) = some unsent := by
      have := Str.slice_append sent unsent []
      rwa [List.append_nil, hunsent] at this
    rw [if_neg hle, hslice]
    exact ⟨some unsent, _, rfl, h.hitStop, hunsent⟩

end Steps

/-! ## Whole texts -/

section Stream

variable {stops : List Str} {p : StopChunkProcessor} {sent : Str}

/-- After a match nothing more is sent. -/
theorem stream_stopped {text : Str} (h : Stopped stops p text sent) (chunks : List Str) :
    stream chunks p = some ([], p) := by
  induction chunks with
  | nil => rw [stream, finish, if_pos h.hitStop]; rfl
  | cons chunk chunks ih =>
    rw [stream, pushChunk, if_pos h.hitStop]
    simp only [ih]
    rfl

/-- The deltas of a waiting processor, with what it sent before them. -/
theorem stream_waiting (hind : Independent stops) (h : Waiting stops p sent)
    (chunks : List Str) : ∃ deltas p', stream chunks p = some (deltas, p') ∧
      ((∀ i, ¬ MatchAt stops (p.accumulated ++ chunks.flatten) i) ∧ p'.hitStop = false ∧
          sent ++ deltas.flatten = p.accumulated ++ chunks.flatten ∨
        Stopped stops p' (p.accumulated ++ chunks.flatten) (sent ++ deltas.flatten)) := by
  induction chunks generalizing p sent with
  | nil =>
    obtain ⟨delta, p', hfinish, hhit, hsent⟩ := finish_spec h
    refine ⟨delta.toList, p', by rw [stream, hfinish]; rfl, Or.inl ⟨?_, hhit, ?_⟩⟩
    · rw [List.flatten_nil, List.append_nil]
      exact h.unmatched
    · rw [List.flatten_nil, List.append_nil, ← hsent]
      cases delta <;> simp
  | cons chunk chunks ih =>
    obtain ⟨delta, p₁, hpush, hcase⟩ := pushChunk_spec h chunk
    have hflatten : ∀ deltas : List Str, sent ++ (delta.toList ++ deltas).flatten =
        (sent ++ delta.getD []) ++ deltas.flatten := fun deltas => by
      cases delta <;> simp
    rcases hcase with ⟨hwaiting, hacc⟩ | hstopped
    · obtain ⟨deltas, p', hstream, hresult⟩ := ih hwaiting
      refine ⟨delta.toList ++ deltas, p', by rw [stream, hpush]; simp [hstream], ?_⟩
      rw [hflatten, List.flatten_cons, ← List.append_assoc p.accumulated, ← hacc]
      exact hresult
    · refine ⟨delta.toList ++ [], p₁, by rw [stream, hpush]; simp [stream_stopped hstopped], ?_⟩
      right
      obtain ⟨q, hq, hsent⟩ := hstopped.first
      refine ⟨hstopped.hitStop, q, ?_, ?_⟩
      · rw [List.flatten_cons, ← List.append_assoc]
        exact hq.append hind _
      · rw [hflatten, List.flatten_nil, List.append_nil, hsent, List.flatten_cons,
          ← List.append_assoc, List.take_append_of_le_length (Nat.le_of_lt hq.1.lt)]

/-- The chunked text is cut where the whole text is cut. -/
theorem stop_chunks_agree (hind : Independent stops) (chunks : List Str) :
    ∃ deltas p cut, stream chunks (new stops) = some (deltas, p) ∧
      truncateAtFirstStop chunks.flatten stops = some cut ∧
      deltas.flatten = cut.getD chunks.flatten ∧
      (p.hitStop = true ↔ ∃ s ∈ stops, s ≠ [] ∧ s <:+: chunks.flatten) := by
  have hnew : Waiting stops (new stops) [] := by
    refine ⟨rfl, rfl, rfl, rfl, List.nil_prefix, fun i hi => ?_, Or.inl rfl⟩
    exact absurd hi.lt (Nat.not_lt_zero i)
  have hinfix : (∃ s ∈ stops, s ≠ [] ∧ s <:+: chunks.flatten) ↔
      ∃ i, MatchAt stops chunks.flatten i := by
    constructor
    · rintro ⟨s, hs, hne, before, after, htext⟩
      refine ⟨before.length, s, hs, hne, ?_⟩
      rw [← htext, List.append_assoc, List.drop_left]
      exact List.prefix_append _ _
    · rintro ⟨i, s, hs, hne, hpat⟩
      exact ⟨s, hs, hne, hpat.isInfix.trans (List.drop_suffix _ _).isInfix⟩
  obtain ⟨deltas, p, hstream, hresult⟩ := stream_waiting hind hnew chunks
  rcases hresult with ⟨hnone, hhit, hsent⟩ | ⟨hhit, q, hq, hsent⟩
  · refine ⟨deltas, p, none, hstream, truncateAtFirstStop_none hnone, hsent, ?_⟩
    rw [hhit, hinfix]
    exact ⟨fun h => absurd h Bool.false_ne_true, fun h => absurd h.choose_spec (hnone _)⟩
  · refine ⟨deltas, p, _, hstream, truncateAtFirstStop_isFirst hq, hsent, ?_⟩
    rw [hhit, hinfix]
    exact ⟨fun _ => ⟨q, hq.1⟩, fun _ => rfl⟩

/-- The stop string comes in two chunks, and none of its text is sent. -/
theorem stop_chunks_agree_end : ∃ deltas p,
    stream ["helloE".toList, "NDworld".toList] (new ["END".toList]) = some (deltas, p) ∧
      p.hitStop = true ∧ deltas.flatten = "hello".toList := by
  have hind : Independent ["END".toList] := by
    intro s hs t ht _ hne
    exact absurd ((List.mem_singleton.mp hs).trans (List.mem_singleton.mp ht).symm) hne
  obtain ⟨deltas, p, cut, hstream, hcut, hdeltas, hhit⟩ :=
    stop_chunks_agree hind ["helloE".toList, "NDworld".toList]
  have hfirst : truncateAtFirstStop "helloENDworld".toList ["END".toList] =
      some (some "hello".toList) := by decide +kernel
  obtain rfl := Option.some.inj (hcut.symm.trans hfirst)
  refine ⟨deltas, p, hstream, hhit.mpr ⟨_, .head _, ?_, "hello".toList, "world".toList, ?_⟩, hdeltas⟩
  · decide
  · decide +kernel

end Stream

end StopChunkProcessor

end Arle.Backend
