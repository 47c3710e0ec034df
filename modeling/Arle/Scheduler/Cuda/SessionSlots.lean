import Arle.PrefixCache.Lookup

/-!
# Session slots

`infer/src/scheduler/cuda/core/session_slots.rs`: the index from a session to the KV blocks
of its last turn, which the scheduler keeps beside the radix cache. A slot counts the
admitted requests that hold it; a table counts the slots that name a block.

The metrics and the log lines are left out.
-/

namespace Arle.Scheduler.Cuda

open KvTier PrefixCache

structure SessionSlot where
  blocks : List BlockId
  committedLen : Nat
  refCount : Nat
  lastAccessTick : Nat
deriving DecidableEq

structure SessionSlotHold where
  sessionId : SessionId
deriving DecidableEq

structure SessionSlotLookup where
  lookup : LookupOutcome
  hold : SessionSlotHold
deriving DecidableEq

inductive PressureMode
  | soft
  | hard
deriving DecidableEq

/-- `PressureMode::min_idle_ticks`. -/
def PressureMode.minIdleTicks (mode : PressureMode) (keepaliveTicks : Nat) : Nat :=
  match mode with
  | .soft => keepaliveTicks
  | .hard => 0

/-- The fields of the scheduler that the session slots read and write. -/
structure SessionState where
  prefixCache : RadixCache
  sessionSlots : Assoc SessionId SessionSlot
  sessionBlockRefs : Assoc BlockId Nat
  /-- `config.prefix_cache_keepalive_ticks`. -/
  prefixCacheKeepaliveTicks : Nat

/-- `inactive_session_slot_eviction_candidates`: the unheld, idle slots that match the
pressure, the least recently used first. -/
def inactiveSessionSlotEvictionCandidates (slots : Assoc SessionId SessionSlot)
    (now minIdleTicks maxSlots : Nat) (slotMatchesPressure : SessionSlot → Bool) :
    List SessionId :=
  if maxSlots = 0 then []
  else
    let candidates := (slots.entries.filter fun e =>
        decide (e.2.refCount = 0) &&
          decide (Word.saturatingAdd 64 e.2.lastAccessTick minIdleTicks ≤ now))
      |>.filter (fun e => slotMatchesPressure e.2)
      |>.map fun e => (e.2.lastAccessTick, e.1)
    let sorted := candidates.mergeSort fun a b =>
      decide (a.1 < b.1 ∨ a.1 = b.1 ∧ a.2.val ≤ b.2.val)
    (sorted.take maxSlots).map Prod.snd

/-- The blocks of a slot after `old` was renamed. -/
def SessionSlot.retag (old new : BlockId) (slot : SessionSlot) : SessionSlot :=
  { slot with blocks := slot.blocks.map fun block => if block = old then new else block }

/-- `block_metadata_tier`. -/
def blockMetadataTier (location : Option KvTier.BlockLocation) : Tier :=
  (location.map KvTier.BlockLocation.tier).getD .gpu

namespace SessionState

/-- `Scheduler::block_metadata`. -/
def blockMetadata (s : SessionState) (block : BlockId) : Option RadixCache.BlockMetadata :=
  s.prefixCache.blockMetadata block

/-- The counts of `session_block_refs` are `u32`. -/
def addSessionBlockRefs (s : SessionState) (blocks : List BlockId) : SessionState :=
  { s with
    sessionBlockRefs := blocks.foldl
      (fun refs block => refs.insert block (Word.wrappingAdd 32 ((refs.lookup block).getD 0) 1))
      s.sessionBlockRefs }

def removeSessionBlockRefs (s : SessionState) (blocks : List BlockId) : SessionState :=
  { s with
    sessionBlockRefs := blocks.foldl
      (fun refs block =>
        match refs.lookup block with
        | none => refs
        | some count => if count - 1 = 0 then refs.erase block else refs.insert block (count - 1))
      s.sessionBlockRefs }

def dropSessionSlot (s : SessionState) (sessionId : SessionId) : SessionState :=
  match s.sessionSlots.lookup sessionId with
  | none => s
  | some slot =>
    { s with sessionSlots := s.sessionSlots.erase sessionId }.removeSessionBlockRefs slot.blocks

def publishSessionSlot (s : SessionState) (sessionId : SessionId) (blocks : List BlockId)
    (committedLen : Nat) : SessionState :=
  if blocks = [] ∨ committedLen = 0 then s
  else
    let s := (s.dropSessionSlot sessionId).addSessionBlockRefs blocks
    { s with
      sessionSlots := s.sessionSlots.insert sessionId
        { blocks, committedLen, refCount := 0, lastAccessTick := s.prefixCache.clock } }

/-- The loop of `lookup_session_blocks`: the blocks it visits, how many of them are reusable,
and whether a recompute is advised. The first block that is missing ends it. -/
def lookupSessionBlocksLoop (s : SessionState) (heuristics : LookupHeuristics) :
    List BlockId → List LookupBlock × Nat × Bool
  | [] => ([], 0, false)
  | blockId :: blocks =>
    match s.blockMetadata blockId with
    | none => ([⟨some blockId, .miss⟩], 0, false)
    | some metadata =>
      let hitKind := classifyHit metadata.location metadata.entryState
      if hitKind = .miss then ([⟨some blockId, hitKind⟩], 0, false)
      else
        let blockSize := s.prefixCache.blockSize
        let advised := decide (hitKind = .stagingFromHost ∨ hitKind = .stagingFromDisk) &&
          heuristics.adviseRecompute hitKind blockSize (max metadata.byteLen (blockSize % 2 ^ 32))
        let (lookupBlocks, reusableBlocks, recomputeAdvised) :=
          s.lookupSessionBlocksLoop heuristics blocks
        (⟨some blockId, hitKind⟩ :: lookupBlocks, reusableBlocks + 1, advised || recomputeAdvised)

def lookupSessionBlocks (s : SessionState) (blocks : List BlockId) (matchedLen : Nat)
    (heuristics : LookupHeuristics) : LookupOutcome :=
  let (lookupBlocks, reusableBlocks, recomputeAdvised) :=
    s.lookupSessionBlocksLoop heuristics blocks
  ⟨min matchedLen (reusableBlocks * s.prefixCache.blockSize), lookupBlocks, recomputeAdvised⟩

/-- The block size of a cache is positive, so the division does not panic. -/
def lookupSessionSlotOrStage (s : SessionState) (sessionId : SessionId) (promptLen : Nat)
    (heuristics : LookupHeuristics) : Option SessionSlotLookup × SessionState :=
  let blockSize := s.prefixCache.blockSize
  match s.sessionSlots.lookup sessionId with
  | none => (none, s)
  | some slot =>
    let blockCount := min slot.committedLen promptLen / blockSize
    if blockCount = 0 then (none, s)
    else
      let selected := slot.blocks.take blockCount
      let lookup := s.lookupSessionBlocks selected (blockCount * blockSize) heuristics
      if lookup.matchedLen = 0 then (none, s.dropSessionSlot sessionId)
      else
        (some ⟨lookup, ⟨sessionId⟩⟩, { s with
          sessionSlots := s.sessionSlots.insert sessionId
            { slot with
              refCount := Word.saturatingAdd 32 slot.refCount 1
              lastAccessTick := s.prefixCache.clock } })

def releaseSessionSlotHold (s : SessionState) (hold : Option SessionSlotHold) : SessionState :=
  match hold with
  | none => s
  | some hold =>
    match s.sessionSlots.lookup hold.sessionId with
    | none => s
    | some slot =>
      { s with
        sessionSlots := s.sessionSlots.insert hold.sessionId
          { slot with refCount := slot.refCount - 1 } }

def retagSessionSlotBlock (s : SessionState) (old new : BlockId) : SessionState :=
  match s.sessionBlockRefs.lookup old with
  | none => s
  | some count =>
    let refs := s.sessionBlockRefs.erase old
    { s with
      sessionBlockRefs := refs.insert new (Word.wrappingAdd 32 ((refs.lookup new).getD 0) count)
      sessionSlots := s.sessionSlots.mapValues (SessionSlot.retag old new) }

def blockHasActiveSessionRef (s : SessionState) (block : BlockId) : Bool :=
  (Assoc.values s.sessionSlots).any fun slot =>
    decide (slot.refCount > 0) && decide (block ∈ slot.blocks)

def sessionProtectedBlocks (s : SessionState) : List BlockId := s.sessionBlockRefs.keys

def sessionSlotHasTierBlocks (s : SessionState) (slot : SessionSlot) (tierFilter : Option Tier) :
    Bool :=
  tierFilter.all fun tier => slot.blocks.any fun block =>
    decide ((s.blockMetadata block).map (fun m => blockMetadataTier m.location) = some tier)

/-- The loop of `evict_inactive_session_slots_for_pressure` over its candidates, with the
number of blocks it released. -/
def releaseSessionSlots (s : SessionState) : List SessionId → Nat × SessionState
  | [] => (0, s)
  | sessionId :: candidates =>
    match s.sessionSlots.lookup sessionId with
    | none => s.releaseSessionSlots candidates
    | some slot =>
      let (releasedBlocks, s) := (s.dropSessionSlot sessionId).releaseSessionSlots candidates
      (slot.blocks.length + releasedBlocks, s)

def evictInactiveSessionSlotsForPressure (s : SessionState) (mode : PressureMode)
    (maxSlots : Nat) (tierFilter : Option Tier) : Nat × SessionState :=
  s.releaseSessionSlots (inactiveSessionSlotEvictionCandidates s.sessionSlots
    s.prefixCache.clock (mode.minIdleTicks s.prefixCacheKeepaliveTicks) maxSlots
    fun slot => s.sessionSlotHasTierBlocks slot tierFilter)

/-! ## The slots after each operation -/

section Slots

variable {s : SessionState} {sessionId : SessionId}

theorem blockHasActiveSessionRef_iff {block : BlockId} :
    s.blockHasActiveSessionRef block = true ↔ ∃ sessionId slot,
      s.sessionSlots.lookup sessionId = some slot ∧ 0 < slot.refCount ∧ block ∈ slot.blocks := by
  simp only [blockHasActiveSessionRef, List.any_eq_true, Assoc.mem_values, Bool.and_eq_true,
    decide_eq_true_eq]
  constructor
  · rintro ⟨slot, ⟨sessionId, hslot⟩, hactive⟩
    exact ⟨sessionId, slot, hslot, hactive⟩
  · rintro ⟨sessionId, slot, hslot, hactive⟩
    exact ⟨slot, ⟨sessionId, hslot⟩, hactive⟩

theorem mem_inactiveSessionSlotEvictionCandidates {slots : Assoc SessionId SessionSlot}
    {now minIdleTicks maxSlots : Nat} {slotMatchesPressure : SessionSlot → Bool}
    (h : sessionId ∈ inactiveSessionSlotEvictionCandidates slots now minIdleTicks maxSlots
      slotMatchesPressure) :
    ∃ slot, slots.lookup sessionId = some slot ∧ slot.refCount = 0 := by
  unfold inactiveSessionSlotEvictionCandidates at h
  split at h
  · cases h
  · obtain ⟨⟨tick, _⟩, hmem, rfl⟩ := List.mem_map.mp h
    have hmem := List.mem_mergeSort.mp (List.mem_of_mem_take hmem)
    obtain ⟨⟨id, slot⟩, he, heq⟩ := List.mem_map.mp hmem
    obtain ⟨hentry, hidle⟩ := List.mem_filter.mp (List.mem_of_mem_filter he)
    simp only [Bool.and_eq_true, decide_eq_true_eq] at hidle
    cases heq
    exact ⟨slot, Assoc.lookup_eq_some.mpr hentry, hidle.1⟩

theorem dropSessionSlot_lookup (s : SessionState) (sessionId id : SessionId) :
    (s.dropSessionSlot sessionId).sessionSlots.lookup id =
      if id = sessionId then none else s.sessionSlots.lookup id := by
  unfold dropSessionSlot
  split
  · rename_i hnone
    split
    · rename_i hid
      rw [hid, hnone]
    · rfl
  · exact Assoc.lookup_erase_eq _ _ _

@[simp] theorem dropSessionSlot_prefixCache (s : SessionState) (sessionId : SessionId) :
    (s.dropSessionSlot sessionId).prefixCache = s.prefixCache := by
  unfold dropSessionSlot
  split <;> rfl

theorem publishSessionSlot_lookup {blocks : List BlockId} {committedLen : Nat}
    (hblocks : blocks ≠ []) (hlen : committedLen ≠ 0) (s : SessionState)
    (sessionId id : SessionId) :
    (s.publishSessionSlot sessionId blocks committedLen).sessionSlots.lookup id =
      if id = sessionId then some ⟨blocks, committedLen, 0, s.prefixCache.clock⟩
      else s.sessionSlots.lookup id := by
  rw [publishSessionSlot, if_neg (not_or.mpr ⟨hblocks, hlen⟩)]
  refine (Assoc.lookup_insert_eq _ _ _ _).trans ?_
  split
  · rw [← dropSessionSlot_prefixCache s sessionId]
    rfl
  · rename_i hid
    refine (dropSessionSlot_lookup s sessionId id).trans ?_
    rw [if_neg hid]

theorem releaseSessionSlotHold_lookup (s : SessionState) (hold : SessionSlotHold)
    (id : SessionId) :
    (s.releaseSessionSlotHold (some hold)).sessionSlots.lookup id =
      if id = hold.sessionId then
        (s.sessionSlots.lookup id).map fun slot => { slot with refCount := slot.refCount - 1 }
      else s.sessionSlots.lookup id := by
  unfold releaseSessionSlotHold
  dsimp only
  split
  · rename_i hnone
    split
    · rename_i hid
      rw [hid, hnone]
      rfl
    · rfl
  · rename_i slot hslot
    refine (Assoc.lookup_insert_eq _ _ _ _).trans ?_
    split
    · rename_i hid
      rw [hid, hslot]
      rfl
    · rfl

theorem releaseSessionSlots_lookup (s : SessionState) (candidates : List SessionId)
    (id : SessionId) :
    (s.releaseSessionSlots candidates).2.sessionSlots.lookup id =
      if id ∈ candidates then none else s.sessionSlots.lookup id := by
  induction candidates generalizing s with
  | nil => rfl
  | cons sessionId candidates ih =>
    rw [releaseSessionSlots]
    split
    · rename_i hnone
      rw [ih]
      by_cases hid : id = sessionId
      · rw [hid, hnone]
        simp
      · simp [hid]
    · refine (ih _).trans ?_
      rw [dropSessionSlot_lookup]
      by_cases hid : id = sessionId <;> simp [hid]

theorem publishSessionSlot_prefixCache (s : SessionState) (sessionId : SessionId)
    (blocks : List BlockId) (committedLen : Nat) :
    (s.publishSessionSlot sessionId blocks committedLen).prefixCache = s.prefixCache := by
  unfold publishSessionSlot
  split
  · rfl
  · exact dropSessionSlot_prefixCache s sessionId

theorem releaseSessionSlotHold_prefixCache (s : SessionState) (hold : Option SessionSlotHold) :
    (s.releaseSessionSlotHold hold).prefixCache = s.prefixCache := by
  unfold releaseSessionSlotHold
  split
  · rfl
  · split <;> rfl

theorem releaseSessionSlots_prefixCache (s : SessionState) (candidates : List SessionId) :
    (s.releaseSessionSlots candidates).2.prefixCache = s.prefixCache := by
  induction candidates generalizing s with
  | nil => rfl
  | cons sessionId candidates ih =>
    rw [releaseSessionSlots]
    split
    · exact ih s
    · exact (ih _).trans (dropSessionSlot_prefixCache s sessionId)

theorem retagSessionSlotBlock_prefixCache (s : SessionState) (old new : BlockId) :
    (s.retagSessionSlotBlock old new).prefixCache = s.prefixCache := by
  unfold retagSessionSlotBlock
  split <;> rfl

/-- A session whose slot holds a block that a prompt of this length can reuse. -/
def Resumes (s : SessionState) (sessionId : SessionId) (promptLen : Nat) : Prop :=
  ∃ slot block blocks metadata, s.sessionSlots.lookup sessionId = some slot ∧
    s.prefixCache.blockSize ≤ min slot.committedLen promptLen ∧
    slot.blocks = block :: blocks ∧ s.blockMetadata block = some metadata ∧
    metadata.entryState = .ready

/-- The blocks that `lookup_session_blocks` may reuse are ready. -/
theorem lookupSessionBlocksLoop_ready {heuristics : LookupHeuristics} {blocks : List BlockId}
    (h : (s.lookupSessionBlocksLoop heuristics blocks).2.1 ≠ 0) :
    ∃ block rest metadata, blocks = block :: rest ∧ s.blockMetadata block = some metadata ∧
      metadata.entryState = .ready := by
  cases blocks with
  | nil => exact absurd rfl h
  | cons block rest =>
    rw [lookupSessionBlocksLoop] at h
    cases hmeta : s.blockMetadata block with
    | none =>
      rw [hmeta] at h
      exact absurd rfl h
    | some metadata =>
      rw [hmeta] at h
      refine ⟨block, rest, metadata, rfl, hmeta, ?_⟩
      by_contra hready
      dsimp only at h
      rw [if_pos (classifyHit_miss_iff.mpr hready)] at h
      exact h rfl

/-- What `lookup_session_slot_or_stage` does: nothing, or it drops the slot, or it returns a
hold and counts it. -/
theorem lookupSessionSlotOrStage_cases {promptLen : Nat} {heuristics : LookupHeuristics}
    {result : Option SessionSlotLookup} {s' : SessionState}
    (h : s.lookupSessionSlotOrStage sessionId promptLen heuristics = (result, s')) :
    result = none ∧ (s' = s ∨ s' = s.dropSessionSlot sessionId) ∨
      s.Resumes sessionId promptLen ∧ ∃ slot, s.sessionSlots.lookup sessionId = some slot ∧
        ∃ blockCount, blockCount = min slot.committedLen promptLen / s.prefixCache.blockSize ∧
        blockCount ≠ 0 ∧
        result = some ⟨s.lookupSessionBlocks (slot.blocks.take blockCount)
          (blockCount * s.prefixCache.blockSize) heuristics, ⟨sessionId⟩⟩ ∧
        s' = { s with
          sessionSlots := s.sessionSlots.insert sessionId
            { slot with
              refCount := Word.saturatingAdd 32 slot.refCount 1
              lastAccessTick := s.prefixCache.clock } } := by
  unfold lookupSessionSlotOrStage at h
  cases hslot : s.sessionSlots.lookup sessionId with
  | none =>
    rw [hslot] at h
    cases h
    exact Or.inl ⟨rfl, Or.inl rfl⟩
  | some slot =>
    rw [hslot] at h
    dsimp only at h
    split at h
    · cases h
      exact Or.inl ⟨rfl, Or.inl rfl⟩
    · rename_i hcount
      split at h
      · cases h
        exact Or.inl ⟨rfl, Or.inr rfl⟩
      · rename_i hmatched
        cases h
        refine Or.inr ⟨?_, slot, rfl, _, rfl, hcount, rfl, rfl⟩
        have hreusable : (s.lookupSessionBlocksLoop heuristics
            (slot.blocks.take (min slot.committedLen promptLen / s.prefixCache.blockSize))).2.1 ≠
            0 := by
          intro hzero
          refine hmatched ?_
          rw [lookupSessionBlocks]
          dsimp only
          rw [hzero, Nat.zero_mul, Nat.min_zero]
        obtain ⟨block, rest, metadata, hblocks, hmeta, hready⟩ :=
          lookupSessionBlocksLoop_ready hreusable
        have hstart : slot.blocks = block :: slot.blocks.tail := by
          cases hb : slot.blocks with
          | nil =>
            rw [hb, List.take_nil] at hblocks
            cases hblocks
          | cons b bs =>
            obtain ⟨n, hn⟩ := Nat.exists_eq_succ_of_ne_zero hcount
            rw [hb, hn, List.take_succ_cons] at hblocks
            cases hblocks
            rfl
        exact ⟨slot, block, _, metadata, hslot, (Nat.div_ne_zero_iff.mp hcount).2, hstart, hmeta,
          hready⟩

end Slots

end SessionState

end Arle.Scheduler.Cuda
