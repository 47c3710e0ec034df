import Arle.KvTier.Coordinator.Types
import Arle.PrefixCache.Insert
import Arle.Scheduler.Cuda.TierEvict

/-!
# Promotion into device memory

`promote_fetched_prefix` of `infer/src/scheduler/cuda/runtime/admission.rs`, which copies the
staged blocks of a prefix to fresh pages, and `install_restored_kv` of `core.rs`, which does the
same with the blocks of a restored session. The eviction that may precede a promotion and the
answer of the device to a copy are parameters. A panic is `none`; a failed call returns its error
beside the state that it leaves.
-/

namespace Arle.Scheduler.Cuda

open KvTier PrefixCache CudaKernels
open KvTier.Coordinator (FetchedBlock)

inductive ReadmissionSource
  | hostPinned (region : HostPinnedRegion)
  | disk (fingerprint : BlockFingerprint) (payloadLen : Nat)
  | remote (desc : RemoteBlockDesc) (payloadLen : Nat)

structure ReadmissionBlock where
  blockId : BlockId
  fingerprint : BlockFingerprint
  /-- Where a staged block comes from; a block that is on the device has no source. -/
  source : Option ReadmissionSource

structure ReadmissionPlan where
  matchedLen : Nat
  blocks : List ReadmissionBlock

/-- The length of a vector of tokens is below the largest word. -/
structure FetchWaiter where
  slotIdx : Nat
  requestId : Nat
  promptTokens : List Token
  sessionId : Option SessionId
  stagedPrefix : ReadmissionPlan
  sessionSlotHold : Option SessionSlotHold
  promptTokens_fit : promptTokens.length < Word.maxVal 64

inductive PromoteError
  | invalidShape (request matched blocks prompt : Nat)
  | missingFetch (block : BlockId)
  | pool (err : KvPoolError)
  | host (err : PoolError)
  | payloadLength (got expected : Nat)
  | device (message : String)
  | retagFailed (old new : BlockId)
  | insertedShort (inserted expected request : Nat)

/-- The fields of the scheduler that a promotion reads and writes. -/
structure PromotionState extends TierState where
  /-- `paged_kv_pool.storage_bytes_per_token()`. -/
  storageBytesPerToken : Nat
  /-- `config.t1_host_pinned_min_prompt_tokens`. -/
  t1HostPinnedMinPromptTokens : Nat
  /-- What the device answers to a copy to these pages. -/
  memcpyHtod : List Nat → Except String Unit

/-- A staged block that has been copied, with its new id and its pages. -/
structure PromotedBlock where
  oldBlockId : BlockId
  newBlockId : BlockId
  pages : List Nat

/-- The accumulators of the loop over the blocks of a plan. -/
structure Promotion where
  promotedPages : List PromotedBlock
  finalBlockIds : List BlockId
  fingerprints : List BlockFingerprint
  consumedHostRegions : List HostPinnedRegion

def Promotion.start : Promotion :=
  { promotedPages := [], finalBlockIds := [], fingerprints := [], consumedHostRegions := [] }

/-- A block is named by its first page. -/
def blockOfPage (page : Nat) : BlockId := ⟨UInt32.ofNat page⟩

/-- `sealed_block_token_count`. -/
def sealedBlockTokenCount (blockSize blockCount : Nat) : Nat :=
  min (blockSize * blockCount) (Word.maxVal 64)

/-- `is_full_sealed_prefix`. -/
def isFullSealedPrefix (matchedLen blockSize blockCount : Nat) : Bool :=
  decide (blockCount > 0) && decide (matchedLen = sealedBlockTokenCount blockSize blockCount)

/-- The entry of `fetched_by_id`; of several entries for a block the last one counts. -/
def fetchedById (fetchedBlocks : List FetchedBlock) (block : BlockId) : Option FetchedBlock :=
  fetchedBlocks.reverse.find? fun fetched => decide (fetched.blockId = block)

namespace PromotionState

variable (s : PromotionState)

def pagesPerBlock : Nat := max (s.pagedKvPool.pagesFor s.prefixCache.blockSize) 1

/-- `partial_tail_capacity` of the slots. -/
def poolPartialTailCapacity : Nat :=
  (s.pagedKvPool.seqLens.map fun seqLen =>
    s.pagedKvPool.availableInLastPage (seqLen % s.pagedKvPool.pageSize)).sum

/-- `pool_free_pages`, from the `free_count` of the pool. -/
def poolFreePages : Nat :=
  let freeCount := s.pagedKvPool.freePages.length * s.pagedKvPool.pageSize +
    s.poolPartialTailCapacity
  (freeCount - s.poolPartialTailCapacity) / max s.pagedKvPool.pageSize 1

/-- `validate_staged_sealed_prefix`. -/
def validateStagedSealedPrefix (requestId : Nat) (promptTokens : List Token)
    (stagedPrefix : ReadmissionPlan) : Except PromoteError Unit :=
  if stagedPrefix.blocks.isEmpty then .ok ()
  else if stagedPrefix.matchedLen > promptTokens.length ∨
      !isFullSealedPrefix stagedPrefix.matchedLen s.prefixCache.blockSize
        stagedPrefix.blocks.length then
    .error (.invalidShape requestId stagedPrefix.matchedLen stagedPrefix.blocks.length
      promptTokens.length)
  else .ok ()

/-- `copy_pages_from_host` with a payload of so many bytes. -/
def copyPagesFromHost (pages : List Nat) (payloadLen : Nat) : Except PromoteError Unit :=
  let expectedLen := pages.length * (s.storageBytesPerToken * s.pagedKvPool.pageSize)
  if payloadLen ≠ expectedLen then .error (.payloadLength payloadLen expectedLen)
  else (s.memcpyHtod pages).mapError .device

/-- The copy from a region of host memory (`with_region_slice`). -/
def copyRegion (pages : List Nat) (region : HostPinnedRegion) : Except PromoteError Unit :=
  if s.hostPinnedPool.poisoned then .error (.host .poisoned)
  else
    match s.hostPinnedPool.inner.validateLiveRegion region with
    | .error err => .error (.host err)
    | .ok _ => s.copyPagesFromHost pages region.len

/-- A round of the loop over the blocks of a plan. -/
def promoteBlock (fetchedBlocks : List FetchedBlock) (block : ReadmissionBlock) (acc : Promotion)
    (pool : TokenKVPool) : Option (Except PromoteError Promotion × TokenKVPool) :=
  let acc := { acc with fingerprints := acc.fingerprints ++ [block.fingerprint] }
  match block.source with
  | none => some (.ok { acc with finalBlockIds := acc.finalBlockIds ++ [block.blockId] }, pool)
  | some source =>
    match fetchedById fetchedBlocks block.blockId with
    | none => some (.error (.missingFetch block.blockId), pool)
    | some fetched =>
      match pool.allocDetachedPages s.pagesPerBlock with
      | none => none
      | some (.error err, pool) => some (.error (.pool err), pool)
      | some (.ok pages, pool) =>
        match s.copyRegion pages fetched.hostRegion with
        | .error err => (pool.releasePages pages).map fun released => (.error err, released.2)
        | .ok () => pages.head?.map fun page =>
          (.ok { acc with
            promotedPages := acc.promotedPages ++ [⟨block.blockId, blockOfPage page, pages⟩]
            finalBlockIds := acc.finalBlockIds ++ [blockOfPage page]
            consumedHostRegions := acc.consumedHostRegions ++
              match source with
              | .hostPinned region => [region]
              | _ => [] }, pool)

/-- The loop over the blocks of a plan. An error returns at once: the pages of the blocks before
are not released. -/
def promoteBlocks (fetchedBlocks : List FetchedBlock) :
    List ReadmissionBlock → Promotion → TokenKVPool →
      Option (Except PromoteError Promotion × TokenKVPool)
  | [], acc, pool => some (.ok acc, pool)
  | block :: blocks, acc, pool =>
    match s.promoteBlock fetchedBlocks block acc pool with
    | none => none
    | some (.error err, pool) => some (.error err, pool)
    | some (.ok acc, pool) => promoteBlocks fetchedBlocks blocks acc pool

/-- The pages of the promoted blocks are released. -/
def releasePromoted : List PromotedBlock → TokenKVPool → Option TokenKVPool
  | [], pool => some pool
  | promoted :: promotedPages, pool => do
    let (_, pool) ← pool.releasePages promoted.pages
    releasePromoted promotedPages pool

/-- The loop of the session branch: the retags before a failing one stay. -/
def retagPromoted : List PromotedBlock → SessionState → Except PromoteError Unit × SessionState
  | [], sessions => (.ok (), sessions)
  | promoted :: promotedPages, sessions =>
    let retagged := sessions.prefixCache.retagBlock promoted.oldBlockId promoted.newBlockId
    let sessions := { sessions with prefixCache := retagged.2 }
    if retagged.1 then
      retagPromoted promotedPages
        (sessions.retagSessionSlotBlock promoted.oldBlockId promoted.newBlockId)
    else (.error (.retagFailed promoted.oldBlockId promoted.newBlockId), sessions)

/-- One block of `record_sealed_gpu_blocks`, without an owner slot. -/
def recordSealedGpuBlock (waiter : FetchWaiter) (promoted : PromotedBlock) : PromotionState :=
  let hostSwapEligible := waiter.sessionId.isSome &&
    decide (waiter.promptTokens.length ≥ s.t1HostPinnedMinPromptTokens)
  { s with
    blockToPages :=
      if (s.blockToPages.lookup promoted.newBlockId).isSome then s.blockToPages
      else s.blockToPages.insert promoted.newBlockId promoted.pages
    prefixCache := (s.prefixCache.updateBlockMetadata promoted.newBlockId {
      location := some (.gpu (waiter.slotIdx % 2 ^ 32))
      byteLen := some (min (s.storageBytesPerToken * s.prefixCache.blockSize) (Word.maxVal 32))
      sessionId := some waiter.sessionId
      hostSwapEligible := some hostSwapEligible
      softPinUntil := some (waiter.sessionId.map fun _ =>
        Word.saturatingAdd 64 s.prefixCache.clock s.prefixCacheKeepaliveTicks) }).2 }

/-- The end of a promotion that succeeds. -/
def finishPromotion (waiter : FetchWaiter) (acc : Promotion) : PromotionState :=
  let s := { s with
    blockOwnerSlots := (acc.promotedPages.map PromotedBlock.oldBlockId).foldl
      (fun owners block => owners.erase block) s.blockOwnerSlots }
  let s := acc.promotedPages.foldl
    (fun s promoted => s.recordSealedGpuBlock waiter promoted) s
  { s with
    toTierState := acc.consumedHostRegions.foldl TierState.releaseHostRegion s.toTierState }

/-- The promotion after the eviction. -/
def promotePlan (waiter : FetchWaiter) (fetchedBlocks : List FetchedBlock) :
    Option (Except PromoteError Unit × PromotionState) :=
  match s.promoteBlocks fetchedBlocks waiter.stagedPrefix.blocks .start s.pagedKvPool with
  | none => none
  | some (.error err, pool) => some (.error err, { s with pagedKvPool := pool })
  | some (.ok acc, pool) =>
    if waiter.sessionSlotHold.isSome then
      match retagPromoted acc.promotedPages s.toSessionState with
      | (.error err, sessions) => do
        let pool ← releasePromoted acc.promotedPages pool
        some (.error err, { s with toSessionState := sessions, pagedKvPool := pool })
      | (.ok (), sessions) =>
        let s := { s with toSessionState := sessions, pagedKvPool := pool }
        some (.ok (), s.finishPromotion waiter acc)
    else
      let prefixTokens := waiter.promptTokens.take waiter.stagedPrefix.matchedLen
      match s.prefixCache.insertWithFingerprints prefixTokens acc.finalBlockIds
          acc.fingerprints with
      | none => none
      | some (inserted, cache) =>
        if inserted ≠ prefixTokens.length then do
          let pool ← releasePromoted acc.promotedPages pool
          some (.error (.insertedShort inserted prefixTokens.length waiter.requestId),
            { s with prefixCache := cache, pagedKvPool := pool })
        else
          let s := { s with prefixCache := cache, pagedKvPool := pool }
          some (.ok (), s.finishPromotion waiter acc)

/-- The pages that a promotion asks the eviction for. -/
def requiredPromotePages (waiter : FetchWaiter) : Nat :=
  let stagedBlockCount :=
    (waiter.stagedPrefix.blocks.filter fun block => block.source.isSome).length
  min (stagedBlockCount * s.pagesPerBlock) (Word.maxVal 64)

/-- The state after the eviction up front. -/
def makeRoom (evictPrefixCacheForAllocation : PromotionState → Nat → Option PromotionState)
    (waiter : FetchWaiter) : Option PromotionState :=
  if s.requiredPromotePages waiter > s.poolFreePages then
    evictPrefixCacheForAllocation s (s.requiredPromotePages waiter)
  else some s

/-- `promote_fetched_prefix`. -/
def promoteFetchedPrefix
    (evictPrefixCacheForAllocation : PromotionState → Nat → Option PromotionState)
    (waiter : FetchWaiter) (fetchedBlocks : List FetchedBlock) :
    Option (Except PromoteError Unit × PromotionState) :=
  if waiter.stagedPrefix.blocks.isEmpty then some (.ok (), s)
  else
    match s.validateStagedSealedPrefix waiter.requestId waiter.promptTokens
        waiter.stagedPrefix with
    | .error err => some (.error err, s)
    | .ok () => do
      let s ← s.makeRoom evictPrefixCacheForAllocation waiter
      s.promotePlan waiter fetchedBlocks

/-- The loop of `install_restored_kv` over the payloads, in the order of their map. -/
def installPayloads : List (BlockFingerprint × List UInt8) → PromotionState →
    Assoc BlockFingerprint BlockId →
    Option (Assoc BlockFingerprint BlockId × PromotionState)
  | [], s, prepared => some (prepared, s)
  | (fingerprint, payload) :: payloads, s, prepared =>
    match s.pagedKvPool.allocDetachedPages s.pagesPerBlock with
    | none => none
    | some (.error _, _) => some (prepared, s)
    | some (.ok pages, pool) =>
      let s := { s with pagedKvPool := pool }
      match s.copyPagesFromHost pages payload.length with
      | .error _ => installPayloads payloads s prepared
      | .ok () => do
        let page ← pages.head?
        installPayloads payloads
          { s with blockToPages := s.blockToPages.insert (blockOfPage page) pages }
          (prepared.insert fingerprint (blockOfPage page))

/-- `install_restored_kv`: the blocks that the returned closure hands out, and the state. -/
def installRestoredKv (payloads : List (BlockFingerprint × List UInt8)) :
    Option (Assoc BlockFingerprint BlockId × PromotionState) :=
  installPayloads payloads s ∅

end PromotionState

end Arle.Scheduler.Cuda
