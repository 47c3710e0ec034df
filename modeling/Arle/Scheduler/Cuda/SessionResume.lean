import Arle.Lib.Run
import Arle.PrefixCache.Insert
import Arle.Scheduler.Cuda.SessionRefs

/-!
# Session resume

What an admission that finds a session slot reuses (`build_prefix_admission_plan` of
`infer/src/scheduler/cuda/runtime/admission.rs`, up to the session lookup). The slots are keyed
by the session alone, so that a prompt whose tokens drifted still finds its session. The blocks
returned are the first blocks that the session published last, under the names that retags gave
them since; they hold the tokens of the admitted prompt if this prompt and the published one do
not differ where both have committed tokens.
-/

namespace Arle.Scheduler.Cuda

open KvTier PrefixCache

/-- The settings that the session lookup of an admission reads. -/
structure AdmissionConfig where
  prefixCacheEnabled : Bool
  shortPromptBypassTokens : Nat

namespace SessionState

/-- The session lookup of `build_prefix_admission_plan`. -/
def admissionSessionLookup (s : SessionState) (config : AdmissionConfig)
    (promptTokens : List Token) (sessionId : Option SessionId) (heuristics : LookupHeuristics) :
    Option SessionSlotLookup × SessionState :=
  if !config.prefixCacheEnabled then (none, s)
  else if config.shortPromptBypassTokens > 0 ∧
      promptTokens.length ≤ config.shortPromptBypassTokens then (none, s)
  else
    match sessionId with
    | none => (none, s)
    | some sessionId => s.lookupSessionSlotOrStage sessionId promptTokens.length heuristics

variable {s s' : SessionState} {sessionId : SessionId} {heuristics : LookupHeuristics}

theorem admissionSessionLookup_cases {config : AdmissionConfig} {promptTokens : List Token}
    {sessionId : Option SessionId} {result : Option SessionSlotLookup}
    (hcall : s.admissionSessionLookup config promptTokens sessionId heuristics = (result, s')) :
    result = none ∧ s' = s ∨ ∃ id, sessionId = some id ∧
      s.lookupSessionSlotOrStage id promptTokens.length heuristics = (result, s') := by
  unfold admissionSessionLookup at hcall
  split at hcall
  · cases hcall
    exact Or.inl ⟨rfl, rfl⟩
  · split at hcall
    · cases hcall
      exact Or.inl ⟨rfl, rfl⟩
    · cases sessionId with
      | none =>
        cases hcall
        exact Or.inl ⟨rfl, rfl⟩
      | some id => exact Or.inr ⟨id, rfl, hcall⟩

/-- The reusable blocks are the first blocks asked for. -/
theorem lookupSessionBlocksLoop_spec (s : SessionState) (heuristics : LookupHeuristics)
    (blocks : List BlockId) :
    (s.lookupSessionBlocksLoop heuristics blocks).2.1 ≤ blocks.length ∧
      ((s.lookupSessionBlocksLoop heuristics blocks).1.take
        (s.lookupSessionBlocksLoop heuristics blocks).2.1).map LookupBlock.blockId =
        (blocks.take (s.lookupSessionBlocksLoop heuristics blocks).2.1).map some := by
  induction blocks with
  | nil => exact ⟨Nat.le_refl _, rfl⟩
  | cons block blocks ih =>
    rw [lookupSessionBlocksLoop]
    split
    · exact ⟨Nat.zero_le _, rfl⟩
    · dsimp only
      split
      · exact ⟨Nat.zero_le _, rfl⟩
      · refine ⟨Nat.succ_le_succ ih.1, ?_⟩
        rw [List.take_succ_cons, List.take_succ_cons, List.map_cons, List.map_cons, ih.2]

/-- What a session lookup returns: whole blocks, from the start of the slot, within the
committed tokens and the prompt. -/
theorem lookupSessionSlotOrStage_found {promptLen : Nat} {found : SessionSlotLookup}
    (hcall : s.lookupSessionSlotOrStage sessionId promptLen heuristics = (some found, s')) :
    ∃ slot count, s.sessionSlots.lookup sessionId = some slot ∧
      found.lookup.matchedLen = count * s.prefixCache.blockSize ∧ 0 < s.prefixCache.blockSize ∧
      found.lookup.matchedLen ≤ min slot.committedLen promptLen ∧
      (found.lookup.blocks.take count).map LookupBlock.blockId =
        (slot.blocks.take count).map some := by
  rcases lookupSessionSlotOrStage_cases hcall with
    ⟨hnone, -⟩ | ⟨-, slot, hslot, blockCount, hcount, hne, hfound, -⟩
  · cases hnone
  · cases hfound
    obtain ⟨hle, hblocks⟩ :=
      s.lookupSessionBlocksLoop_spec heuristics (slot.blocks.take blockCount)
    obtain ⟨count, hreusable⟩ : ∃ count, count = (s.lookupSessionBlocksLoop heuristics
      (slot.blocks.take blockCount)).2.1 := ⟨_, rfl⟩
    rw [← hreusable] at hle hblocks
    have hwithin : count ≤ blockCount := Nat.le_trans hle (List.length_take_le _ _)
    have hmatched : (s.lookupSessionBlocks (slot.blocks.take blockCount)
        (blockCount * s.prefixCache.blockSize) heuristics).matchedLen =
        count * s.prefixCache.blockSize := by
      rw [lookupSessionBlocks]
      dsimp only
      rw [← hreusable, Nat.min_eq_right (Nat.mul_le_mul_right _ hwithin)]
    refine ⟨slot, count, hslot, hmatched,
      Nat.pos_of_ne_zero (Nat.div_ne_zero_iff.mp (hcount ▸ hne)).1, ?_, ?_⟩
    · rw [hmatched]
      refine Nat.le_trans (Nat.mul_le_mul_right _ hwithin) ?_
      rw [hcount]
      exact Nat.div_mul_le_self _ _
    · rw [List.take_take, Nat.min_eq_left hwithin] at hblocks
      exact hblocks

end SessionState

/-- What a session published: the sealed blocks of the first `committedLen` tokens of a prompt,
under their present names. -/
structure Publication (blockSize : Nat) where
  prompt : List Token
  committedLen : Nat
  blocks : List BlockId
  committed : committedLen ≤ prompt.length
  sealed_blocks : blocks.length * blockSize = committedLen

/-- A publication after one of its blocks was renamed. -/
def Publication.retag {blockSize : Nat} (old new : BlockId) (pub : Publication blockSize) :
    Publication blockSize :=
  { pub with
    blocks := pub.blocks.map fun block => if block = old then new else block
    sealed_blocks := by rw [List.length_map, pub.sealed_blocks] }

/-- The session slots with the last publication of every session. -/
structure ResumeState (blockSize : Nat) where
  state : SessionState
  published : SessionId → Option (Publication blockSize)

namespace ResumeState

variable {blockSize : Nat}

inductive ResumeOp (blockSize : Nat)
  | publish (sessionId : SessionId) (pub : Publication blockSize)
  | admission (config : AdmissionConfig) (promptTokens : List Token) (sessionId : Option SessionId)
      (heuristics : LookupHeuristics)
  | release (hold : Option SessionSlotHold)
  | pressure (mode : PressureMode) (maxSlots : Nat) (tierFilter : Option Tier)
  | retag (old new : BlockId)
  /-- Whatever the rest of the scheduler does to the radix cache. -/
  | prefixCache (cache : RadixCache)

/-- One operation. The block size of the radix cache never changes. -/
inductive ResumeStep : ResumeState blockSize → ResumeOp blockSize → ResumeState blockSize → Prop
  | publish (r : ResumeState blockSize) (sessionId : SessionId) (pub : Publication blockSize) :
      ResumeStep r (.publish sessionId pub)
        ⟨r.state.publishSessionSlot sessionId pub.blocks pub.committedLen,
          if pub.blocks = [] ∨ pub.committedLen = 0 then r.published
          else Function.update r.published sessionId (some pub)⟩
  | admission (r : ResumeState blockSize) {config : AdmissionConfig} {promptTokens : List Token}
      {sessionId : Option SessionId} {heuristics : LookupHeuristics}
      {result : Option SessionSlotLookup} {s' : SessionState}
      (hcall : r.state.admissionSessionLookup config promptTokens sessionId heuristics =
        (result, s')) :
      ResumeStep r (.admission config promptTokens sessionId heuristics) ⟨s', r.published⟩
  | release (r : ResumeState blockSize) (hold : Option SessionSlotHold) :
      ResumeStep r (.release hold) ⟨r.state.releaseSessionSlotHold hold, r.published⟩
  | pressure (r : ResumeState blockSize) (mode : PressureMode) (maxSlots : Nat)
      (tierFilter : Option Tier) :
      ResumeStep r (.pressure mode maxSlots tierFilter)
        ⟨(r.state.evictInactiveSessionSlotsForPressure mode maxSlots tierFilter).2, r.published⟩
  | retag (r : ResumeState blockSize) (old new : BlockId) :
      ResumeStep r (.retag old new)
        ⟨r.state.retagSessionSlotBlock old new,
          fun sessionId => (r.published sessionId).map (Publication.retag old new)⟩
  | prefixCache (r : ResumeState blockSize) {cache : RadixCache}
      (hsize : cache.blockSize = blockSize) :
      ResumeStep r (.prefixCache cache) ⟨{ r.state with prefixCache := cache }, r.published⟩

/-- A scheduler starts without session slots. -/
def Initial (r : ResumeState blockSize) : Prop :=
  r.state.prefixCache.blockSize = blockSize ∧ r.state.sessionSlots = ∅ ∧
    r.state.sessionBlockRefs = ∅ ∧ r.published = fun _ => none

/-- No count of `session_block_refs` exceeds a `u32`. -/
def CountsFit (r : ResumeState blockSize) : ResumeOp blockSize → Prop
  | .publish sessionId pub => r.state.PublishFits sessionId pub.blocks
  | .retag old new => r.state.RetagFits old new
  | _ => True

/-- Every slot has the blocks and the length of the last publication of its session. -/
structure Mirrors (r : ResumeState blockSize) : Prop where
  size : r.state.prefixCache.blockSize = blockSize
  refs : r.state.RefsCounted
  slot : ∀ sessionId slot, r.state.sessionSlots.lookup sessionId = some slot →
    ∃ pub, r.published sessionId = some pub ∧ slot.blocks = pub.blocks ∧
      slot.committedLen = pub.committedLen

variable {r r' : ResumeState blockSize}

/-- Slots that are dropped or keep their blocks. -/
theorem Mirrors.mono (h : r.Mirrors) {s' : SessionState}
    (hsize : s'.prefixCache.blockSize = r.state.prefixCache.blockSize) (hrefs : s'.RefsCounted)
    (hslots : ∀ sessionId slot', s'.sessionSlots.lookup sessionId = some slot' →
      ∃ slot, r.state.sessionSlots.lookup sessionId = some slot ∧
        slot'.blocks = slot.blocks ∧ slot'.committedLen = slot.committedLen) :
    Mirrors ⟨s', r.published⟩ where
  size := hsize.trans h.size
  refs := hrefs
  slot sessionId slot' hslot' := by
    obtain ⟨slot, hslot, hblocks, hlen⟩ := hslots sessionId slot' hslot'
    obtain ⟨pub, hpub, hpubBlocks, hpubLen⟩ := h.slot sessionId slot hslot
    exact ⟨pub, hpub, hblocks.trans hpubBlocks, hlen.trans hpubLen⟩

theorem Mirrors.publish (h : r.Mirrors) {sessionId : SessionId} {pub : Publication blockSize}
    (hfits : r.state.PublishFits sessionId pub.blocks) :
    Mirrors ⟨r.state.publishSessionSlot sessionId pub.blocks pub.committedLen,
      if pub.blocks = [] ∨ pub.committedLen = 0 then r.published
      else Function.update r.published sessionId (some pub)⟩ := by
  refine
    { size := (congrArg RadixCache.blockSize (SessionState.publishSessionSlot_prefixCache _ _ _
        _)).trans h.size, refs := h.refs.publish hfits, slot := fun id slot hslot => ?_ }
  by_cases hnoop : pub.blocks = [] ∨ pub.committedLen = 0
  · rw [SessionState.publishSessionSlot, if_pos hnoop] at hslot
    rw [if_pos hnoop]
    exact h.slot id slot hslot
  · obtain ⟨hblocks, hlen⟩ := not_or.mp hnoop
    rw [SessionState.publishSessionSlot_lookup hblocks hlen] at hslot
    rw [if_neg hnoop]
    dsimp only
    rw [Function.update_apply]
    split at hslot
    · rename_i hid
      cases hslot
      exact ⟨pub, if_pos hid, rfl, rfl⟩
    · rename_i hid
      rw [if_neg hid]
      exact h.slot id slot hslot

theorem Mirrors.dropSessionSlot (h : r.Mirrors) (sessionId : SessionId) :
    Mirrors ⟨r.state.dropSessionSlot sessionId, r.published⟩ := by
  refine h.mono (by rw [SessionState.dropSessionSlot_prefixCache])
    (h.refs.dropSessionSlot sessionId) fun id slot hslot => ?_
  rw [SessionState.dropSessionSlot_lookup] at hslot
  split at hslot
  · cases hslot
  · exact ⟨slot, hslot, rfl, rfl⟩

theorem Mirrors.admission (h : r.Mirrors) {config : AdmissionConfig} {promptTokens : List Token}
    {sessionId : Option SessionId} {heuristics : LookupHeuristics}
    {result : Option SessionSlotLookup} {s' : SessionState}
    (hcall : r.state.admissionSessionLookup config promptTokens sessionId heuristics =
      (result, s')) :
    Mirrors ⟨s', r.published⟩ := by
  rcases SessionState.admissionSessionLookup_cases hcall with ⟨-, rfl⟩ | ⟨id, -, hlookup⟩
  · exact h
  · have hrefs := h.refs.lookup hlookup
    rcases SessionState.lookupSessionSlotOrStage_cases hlookup with
      ⟨-, rfl | rfl⟩ | ⟨-, slot, hslot, -, -, -, -, rfl⟩
    · exact h
    · exact h.dropSessionSlot id
    · refine h.mono rfl hrefs fun id' slot' hslot' => ?_
      have hread := (Assoc.lookup_insert_eq _ _ _ _).symm.trans hslot'
      split at hread
      · rename_i hid
        cases hread
        exact ⟨slot, hid ▸ hslot, rfl, rfl⟩
      · exact ⟨slot', hread, rfl, rfl⟩

theorem Mirrors.release (h : r.Mirrors) (hold : Option SessionSlotHold) :
    Mirrors ⟨r.state.releaseSessionSlotHold hold, r.published⟩ := by
  refine h.mono (by rw [SessionState.releaseSessionSlotHold_prefixCache]) (h.refs.release hold)
    fun id slot' hslot' => ?_
  cases hold with
  | none => exact ⟨slot', hslot', rfl, rfl⟩
  | some hold =>
    rw [SessionState.releaseSessionSlotHold_lookup] at hslot'
    split at hslot'
    · obtain ⟨slot, hslot, rfl⟩ := Option.map_eq_some_iff.mp hslot'
      exact ⟨slot, hslot, rfl, rfl⟩
    · exact ⟨slot', hslot', rfl, rfl⟩

theorem Mirrors.pressure (h : r.Mirrors) (mode : PressureMode) (maxSlots : Nat)
    (tierFilter : Option Tier) :
    Mirrors ⟨(r.state.evictInactiveSessionSlotsForPressure mode maxSlots tierFilter).2,
      r.published⟩ := by
  refine h.mono (congrArg RadixCache.blockSize (SessionState.releaseSessionSlots_prefixCache _ _))
    (h.refs.releaseSessionSlots _) fun id slot hslot => ?_
  rw [SessionState.evictInactiveSessionSlotsForPressure,
    SessionState.releaseSessionSlots_lookup] at hslot
  split at hslot
  · cases hslot
  · exact ⟨slot, hslot, rfl, rfl⟩

theorem Mirrors.retag (h : r.Mirrors) {old new : BlockId} (hfits : r.state.RetagFits old new) :
    Mirrors ⟨r.state.retagSessionSlotBlock old new,
      fun sessionId => (r.published sessionId).map (Publication.retag old new)⟩ where
  size := by
    rw [SessionState.retagSessionSlotBlock_prefixCache]
    exact h.size
  refs := h.refs.retag hfits
  slot sessionId slot' hslot' := by
    rw [h.refs.retag_lookup] at hslot'
    obtain ⟨slot, hslot, rfl⟩ := Option.map_eq_some_iff.mp hslot'
    obtain ⟨pub, hpub, hblocks, hlen⟩ := h.slot sessionId slot hslot
    refine ⟨pub.retag old new, congrArg (Option.map (Publication.retag old new)) hpub, ?_, hlen⟩
    rw [SessionSlot.retag, Publication.retag, hblocks]

/-- One operation keeps the slots and the publications together. -/
theorem mirrors_step :
    Preserved (guarded (@CountsFit blockSize) ResumeStep) Mirrors := by
  rintro r op r' h ⟨hguard, hstep⟩
  cases hstep with
  | publish => exact h.publish hguard
  | admission hcall => exact h.admission hcall
  | release hold => exact h.release hold
  | pressure mode maxSlots tierFilter => exact h.pressure mode maxSlots tierFilter
  | retag => exact h.retag hguard
  | prefixCache hsize => exact ⟨hsize, h.refs, h.slot⟩

theorem Initial.mirrors (h0 : r.Initial) : r.Mirrors where
  size := h0.1
  refs := by
    rw [SessionState.RefsCounted, SessionState.namedBlocks, h0.2.1, h0.2.2.1]
    exact Tally.counts_empty
  slot sessionId slot hslot := by
    rw [h0.2.1] at hslot
    cases hslot

/-- A session that published one block, and a prompt of one token. -/
theorem oneBlock_run (t : Token) : ∃ (r : ResumeState 1) (pub : Publication 1)
    (found : SessionSlotLookup) (s' : SessionState),
    Reachable Initial (guarded CountsFit ResumeStep) r ∧ r.published ⟨"a"⟩ = some pub ∧
      pub.prompt = [1] ∧ pub.blocks = [⟨7⟩] ∧
      r.state.admissionSessionLookup ⟨true, 0⟩ [t] (some ⟨"a"⟩) ⟨fun _ _ _ => false⟩ =
        (some found, s') ∧
      found.lookup.matchedLen = 1 ∧ found.lookup.blocks.map LookupBlock.blockId = [some ⟨7⟩] := by
  obtain ⟨c₀, hc₀⟩ : ∃ c, RadixCache.new 1 = some c := ⟨_, rfl⟩
  obtain ⟨c, hc⟩ : ∃ c, c₀.insertWithFingerprints [1] [⟨7⟩] [⟨0⟩] = some (1, c) := by
    cases hc₀
    exact ⟨_, rfl⟩
  obtain ⟨pub, hpub⟩ : ∃ pub : Publication 1, pub = ⟨[1], 1, [⟨7⟩], Nat.le_refl 1, rfl⟩ := ⟨_, rfl⟩
  obtain ⟨s, hs⟩ : ∃ s, s = (⟨c, ∅, ∅, 0⟩ : SessionState).publishSessionSlot ⟨"a"⟩ pub.blocks
      pub.committedLen := ⟨_, rfl⟩
  have hsize : c.blockSize = 1 := by
    cases hc₀
    cases hc
    rfl
  obtain ⟨found, s', hcall, hmatched, hblocks⟩ : ∃ found s',
      s.lookupSessionSlotOrStage ⟨"a"⟩ 1 ⟨fun _ _ _ => false⟩ = (some found, s') ∧
      found.lookup.matchedLen = 1 ∧
      found.lookup.blocks.map LookupBlock.blockId = [some ⟨7⟩] := by
    cases hc₀
    cases hc
    subst hs hpub
    exact ⟨_, _, rfl, rfl, rfl⟩
  have hfits : CountsFit ⟨⟨c, ∅, ∅, 0⟩, fun _ => none⟩ (.publish ⟨"a"⟩ pub) := by
    subst hpub
    intro block hblock
    rw [List.mem_singleton.mp hblock]
    change ([] : List BlockId).count ⟨7⟩ + [(⟨7⟩ : BlockId)].count ⟨7⟩ ≤ Word.maxVal 32
    decide
  have hstart : Reachable Initial (guarded CountsFit ResumeStep)
      (⟨⟨c, ∅, ∅, 0⟩, fun _ => none⟩ : ResumeState 1) := Reachable.start ⟨hsize, rfl, rfl, rfl⟩
  have hrun := Reachable.next hstart ⟨hfits, ResumeStep.publish _ ⟨"a"⟩ pub⟩
  refine ⟨_, pub, found, s', hrun, ?_, by rw [hpub], by rw [hpub], ?_, hmatched, hblocks⟩
  · subst hpub
    rfl
  · rw [← hs, SessionState.admissionSessionLookup, if_neg (by simp), if_neg (by simp)]
    exact hcall

/-- A session lookup of an admission reuses whole blocks, from the start of what the session
published last, within the committed tokens and the prompt. Where the two prompts agree on the
tokens that both have, the reused blocks are those of the admitted prompt. -/
theorem resume_reuses_published (r : ResumeState blockSize)
    (hrun : Reachable Initial (guarded CountsFit ResumeStep) r) {config : AdmissionConfig}
    {promptTokens : List Token} {sessionId : SessionId} {heuristics : LookupHeuristics}
    {found : SessionSlotLookup} {s' : SessionState}
    (hcall : r.state.admissionSessionLookup config promptTokens (some sessionId) heuristics =
      (some found, s')) :
    ∃ pub count, r.published sessionId = some pub ∧
      found.lookup.matchedLen = count * blockSize ∧
      found.lookup.matchedLen ≤ min pub.committedLen promptTokens.length ∧
      (found.lookup.blocks.take count).map LookupBlock.blockId = (pub.blocks.take count).map some ∧
      count ≤ pub.blocks.length ∧
      (promptTokens.take (min pub.committedLen promptTokens.length) =
          pub.prompt.take (min pub.committedLen promptTokens.length) →
        promptTokens.take found.lookup.matchedLen = pub.prompt.take found.lookup.matchedLen) := by
  have h : r.Mirrors := hrun.invariant (fun _ h0 => h0.mirrors) mirrors_step
  rcases SessionState.admissionSessionLookup_cases hcall with ⟨hnone, -⟩ | ⟨id, hid, hlookup⟩
  · cases hnone
  · cases hid
    obtain ⟨slot, count, hslot, hmatched, hpos, hle, hblocks⟩ :=
      SessionState.lookupSessionSlotOrStage_found hlookup
    obtain ⟨pub, hpub, hpubBlocks, hpubLen⟩ := h.slot sessionId slot hslot
    rw [h.size] at hmatched hpos
    rw [hpubLen] at hle
    refine ⟨pub, count, hpub, hmatched, hle, hpubBlocks ▸ hblocks, ?_, fun hagree => ?_⟩
    · refine Nat.le_of_mul_le_mul_right ?_ hpos
      rw [pub.sealed_blocks, ← hmatched]
      exact Nat.le_trans hle (Nat.min_le_left _ _)
    · have := congrArg (List.take found.lookup.matchedLen) hagree
      rwa [List.take_take, List.take_take, Nat.min_eq_left hle] at this

/-- The block that a session published for a prompt, reused for the same prompt. -/
theorem resume_reuses_published_one : ∃ (r : ResumeState 1) (pub : Publication 1)
    (found : SessionSlotLookup), r.published ⟨"a"⟩ = some pub ∧ found.lookup.matchedLen = 1 ∧
      found.lookup.blocks.map LookupBlock.blockId = pub.blocks.map some ∧
      [1].take found.lookup.matchedLen = pub.prompt.take found.lookup.matchedLen := by
  obtain ⟨r, pub, found, s', hrun, hpub, hprompt, hids, hcall, hmatched, hblocks⟩ := oneBlock_run 1
  obtain ⟨pub', count, hpub', -, -, -, -, htokens⟩ := resume_reuses_published r hrun hcall
  obtain rfl : pub = pub' := Option.some.inj (hpub.symm.trans hpub')
  refine ⟨r, pub, found, hpub, hmatched, by rw [hblocks, hids]; rfl, htokens ?_⟩
  rw [hprompt]

/-- A session that published a block for one token reuses it for another token. -/
theorem resume_tokens_fails : ∃ (r : ResumeState 1) (pub : Publication 1)
    (found : SessionSlotLookup) (s' : SessionState),
    Reachable Initial ResumeStep r ∧ r.published ⟨"a"⟩ = some pub ∧
      r.state.admissionSessionLookup ⟨true, 0⟩ [2] (some ⟨"a"⟩) ⟨fun _ _ _ => false⟩ =
        (some found, s') ∧
      found.lookup.matchedLen = 1 ∧
      found.lookup.blocks.map LookupBlock.blockId = pub.blocks.map some ∧
      [2].take found.lookup.matchedLen ≠ pub.prompt.take found.lookup.matchedLen := by
  obtain ⟨r, pub, found, s', hrun, hpub, hprompt, hids, hcall, hmatched, hblocks⟩ := oneBlock_run 2
  refine ⟨r, pub, found, s', hrun.mono fun _ _ _ hstep => hstep.2, hpub, hcall, hmatched,
    by rw [hblocks, hids]; rfl, ?_⟩
  rw [hmatched, hprompt]
  decide

end ResumeState

end Arle.Scheduler.Cuda
