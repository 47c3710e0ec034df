import Arle.CudaKernels.PagedKv
import Arle.KvTier.HostPool
import Arle.PrefixCache.Evict
import Arle.Scheduler.Cuda.SessionSlots

/-!
# Tier eviction

The evictions of `infer/src/scheduler/cuda/core.rs` that drop cached blocks:
`evict_host_blocks_for_demote_headroom`, which frees host memory, and the last resort of both
`evict_prefix_cache_*` functions, which drops blocks from the device. Both take the blocks out
of the radix cache first and release what backs them afterwards.

The disk store is the list of the fingerprints that have a block file; deleting a file does not
fail. The product of the capacity and the high-water fraction is a floating point number, so its
integer part is a function of the capacity. A panic is `none`.
-/

namespace Arle.Scheduler.Cuda

open KvTier PrefixCache CudaKernels RadixCache

/-- The fields of the scheduler that the evictions read and write. -/
structure TierState extends SessionState where
  hostPinnedPool : SharedHostPinnedPool
  pagedKvPool : TokenKVPool
  /-- The fingerprints that have a file in `disk_store`. -/
  diskStore : List BlockFingerprint
  blockToPages : Assoc BlockId (List Nat)
  blockOwnerSlots : Assoc BlockId Nat
  /-- `waiting.len()`. -/
  waiting : Nat
  /-- `running_batch.len()`. -/
  runningBatch : Nat
  hostLeafHeadroomExhausted : Bool
  /-- `(capacity as f64 * config.t1_host_pinned_high_water) as usize`. -/
  demoteHighWater : Nat → Nat

namespace TierState

/-- `Scheduler::eviction_signals`. -/
def evictionSignals (s : TierState) : SchedulerSignals :=
  SchedulerSignals.queueState s.waiting s.runningBatch

/-- `Scheduler::host_region_from_metadata`. -/
def hostRegionFromMetadata (metadata : BlockMetadata) : Option HostPinnedRegion :=
  match metadata.location with
  | some (.hostPinned offset) => some ⟨offset, metadata.byteLen⟩
  | _ => none

/-- `Scheduler::host_pool_demote_headroom_bytes`; a poisoned lock leaves no headroom. -/
def hostPoolDemoteHeadroomBytes (s : TierState) : Nat :=
  if s.hostPinnedPool.poisoned then 0
  else
    let capacity := s.hostPinnedPool.inner.capacityBytes
    if capacity = 0 then 0
    else s.demoteHighWater capacity - s.hostPinnedPool.inner.reservedBytes

/-- `Scheduler::release_host_region`; an error is logged. -/
def releaseHostRegion (s : TierState) (region : HostPinnedRegion) : TierState :=
  { s with hostPinnedPool := (s.hostPinnedPool.releaseRegion region).2 }

/-- `Scheduler::delete_disk_block_if_present`. -/
def deleteDiskBlockIfPresent (s : TierState) (metadata : BlockMetadata) : TierState :=
  match metadata.location with
  | some (.disk fingerprint _) =>
    { s with diskStore := s.diskStore.filter fun f => decide (f ≠ fingerprint) }
  | _ => s

/-- Release the pages of a dropped block. -/
def releaseBlockPages (s : TierState) (block : BlockId) : Option (Nat × TierState) :=
  match s.blockToPages.lookup block with
  | none => some (0, s)
  | some pages => do
    let (freed, pool) ← s.pagedKvPool.releasePages pages
    some (freed.length,
      { s with blockToPages := s.blockToPages.erase block, pagedKvPool := pool })

/-- One round of `Scheduler::drop_cached_blocks`, with the number of reclaimed pages. -/
def dropCachedBlock (s : TierState) (block : BlockId) : Option (Nat × TierState) :=
  if (s.sessionBlockRefs.lookup block).isSome then some (0, s)
  else do
    let metadata := s.blockMetadata block
    let (reclaimed, s) ← s.releaseBlockPages block
    let s := match metadata.bind hostRegionFromMetadata with
      | some region => s.releaseHostRegion region
      | none => s
    let s := { s with blockOwnerSlots := s.blockOwnerSlots.erase block }
    let s := match metadata with
      | some metadata => s.deleteDiskBlockIfPresent metadata
      | none => s
    some (reclaimed, s)

/-- `Scheduler::drop_cached_blocks`. -/
def dropCachedBlocks (s : TierState) : List BlockId → Option (Nat × TierState)
  | [] => some (0, s)
  | block :: blocks => do
    let (reclaimed, s) ← s.dropCachedBlock block
    let (reclaimedPages, s) ← s.dropCachedBlocks blocks
    some (reclaimed + reclaimedPages, s)

/-- `Scheduler::consume_host_leaf_pressure_mode`. -/
def consumeHostLeafPressureMode (s : TierState) : PressureMode × TierState :=
  if s.hostLeafHeadroomExhausted then
    (.hard, { s with hostLeafHeadroomExhausted := false })
  else (.soft, s)

/-- Release one inactive session slot that has blocks in the tier; with the number of blocks
that it named. -/
def releaseOneSessionSlot (s : TierState) (mode : PressureMode) (tier : Tier) :
    Nat × TierState :=
  let (releasedBlocks, sessions) :=
    s.evictInactiveSessionSlotsForPressure mode 1 (some tier)
  (releasedBlocks, { s with toSessionState := sessions })

/-- The request of an eviction that spares the blocks that session slots name. -/
def evictRequest (s : TierState) (policy : EvictionPolicy) (tier : Tier)
    (intent : BlockSelectionIntent) : EvictRequest where
  policy := policy
  signals := s.evictionSignals
  tierFilter := some tier
  intent := intent
  excludedBlocks := some s.sessionProtectedBlocks

/-- Take up to `n` blocks of a tier out of the radix cache. -/
def evictFromCache (s : TierState) (policy : EvictionPolicy) (tier : Tier)
    (intent : BlockSelectionIntent) (n : Nat) : List BlockId × TierState :=
  let (evicted, cache) :=
    s.prefixCache.evictWithPolicyForIntentExcluding (s.evictRequest policy tier intent) n
  (evicted, { s with prefixCache := cache })

/-- The passes of `evict_host_blocks_for_demote_headroom`, with the number of bytes that it
counts as released. -/
def hostEvictionLoop (policy : EvictionPolicy) (requiredBytes : Nat) (mode : PressureMode) :
    Nat → TierState → Nat → Option (Nat × TierState)
  | 0, s, releasedBytes => some (releasedBytes, s)
  | passes + 1, s, releasedBytes =>
    if s.hostPoolDemoteHeadroomBytes ≥ requiredBytes then some (releasedBytes, s)
    else
      let (releasedSlotBlocks, s) := s.releaseOneSessionSlot mode .hostPinned
      let (evicted, s) := s.evictFromCache policy .hostPinned .drain 1
      if evicted = [] then
        if releasedSlotBlocks > 0 then
          hostEvictionLoop policy requiredBytes mode passes s releasedBytes
        else some (releasedBytes, s)
      else do
        let regions := (evicted.filterMap s.blockMetadata).filterMap hostRegionFromMetadata
        let (_, dropped) ← s.dropCachedBlocks evicted
        hostEvictionLoop policy requiredBytes mode passes dropped
          (Word.saturatingAdd 64 releasedBytes (regions.map Extent.len).sum)

/-- `Scheduler::evict_host_blocks_for_demote_headroom`. -/
def evictHostBlocksForDemoteHeadroom (s : TierState) (policy : EvictionPolicy)
    (requiredBytes : Nat) (mode : PressureMode) : Option (Nat × TierState) :=
  if requiredBytes = 0 ∨ s.hostPoolDemoteHeadroomBytes ≥ requiredBytes then some (0, s)
  else hostEvictionLoop policy requiredBytes mode s.prefixCache.cachedBlockCount s 0

/-- The last resort of `evict_prefix_cache_if_pressured` and of
`evict_prefix_cache_for_allocation`: drop blocks from the device, with the number of reclaimed
pages. -/
def dropBlocksFromGpu (s : TierState) (policy : EvictionPolicy) (blocksToDrop : Nat) :
    Option (Nat × TierState) :=
  let (mode, s) := s.consumeHostLeafPressureMode
  let (_, s) := s.releaseOneSessionSlot mode .gpu
  let (evicted, s) := s.evictFromCache policy .gpu .evict blocksToDrop
  s.dropCachedBlocks evicted

end TierState

end Arle.Scheduler.Cuda
