import Mathlib

/-!
# Shared types of the tiered KV cache

The domain types of `infer/src/types.rs`, `kv_tier/tier.rs`, `kv_tier/lookup.rs` and
`kv_tier/chunk.rs` that the prefix cache, the scheduler and the coordinator exchange.
Words that are only compared or copied are `UInt32` or bit vectors; words the code
computes with are natural numbers, and the operation on them says how it overflows.
-/

namespace Arle

/-- A token id. -/
abbrev Token := UInt32

/-- Identifier of a KV block resident in some tier: a pool slot, not a content hash. -/
structure BlockId where
  val : UInt32
deriving DecidableEq, Repr

/-- Content fingerprint of a KV block: sixteen bytes. -/
structure BlockFingerprint where
  bytes : BitVec 128
deriving DecidableEq, Repr

/-- Client-supplied conversation identifier. -/
structure SessionId where
  val : String
deriving DecidableEq, Repr

namespace KvTier

/-- Storage medium of a KV block, nearest to compute first. -/
inductive Tier
  | gpu
  | hostPinned
  | disk
  | remote
deriving DecidableEq, Repr

/-- Which transport decodes the payload of a remote descriptor. -/
inductive TransportId
  | nixl
  | sharedFilesystem
  | mooncake
  | reserved
deriving DecidableEq, Repr

/-- Opaque remote descriptor. -/
structure RemoteBlockDesc where
  transport : TransportId
  payload : List UInt8
deriving DecidableEq, Repr

/-- Physical location of a block's bytes. -/
inductive BlockLocation
  | gpu (slot : Nat)
  | hostPinned (offset : Nat)
  | disk (fingerprint : BlockFingerprint) (payloadLen : Nat)
  | remote (desc : RemoteBlockDesc)
deriving DecidableEq, Repr

/-- The tier a location lives in. -/
def BlockLocation.tier : BlockLocation → Tier
  | .gpu _ => .gpu
  | .hostPinned _ => .hostPinned
  | .disk _ _ => .disk
  | .remote _ => .remote

/-- Readiness of an index entry. -/
inductive IndexEntryState
  | ready
  | pending
  | evicting
deriving DecidableEq, Repr

/-- Write-side persistence state of an index entry. -/
inductive StoreState
  | idle
  | pending
  | storing
  | stored
  | failed
deriving DecidableEq, Repr

/-- Scheduler-visible result of matching one cached block. -/
inductive HitKind
  | readyOnGpu
  | stagingFromHost
  | stagingFromDisk
  | miss
deriving DecidableEq, Repr

/-- One matched block of a lookup; `none` when only a tombstone is left. -/
structure LookupBlock where
  blockId : Option BlockId
  hitKind : HitKind
deriving DecidableEq, Repr

/-- Result of a staging lookup. -/
structure LookupOutcome where
  matchedLen : Nat
  blocks : List LookupBlock
  recomputeAdvised : Bool
deriving DecidableEq, Repr

/-- The blocks that a staging lookup returns. -/
def LookupOutcome.blockIds (outcome : LookupOutcome) : List BlockId :=
  outcome.blocks.filterMap LookupBlock.blockId

/-- The bandwidth model behind the recompute advice. Its three rates are floating point
numbers; all that the lookups read of them is the verdict for a hit kind, a number of
tokens and a number of bytes. -/
structure LookupHeuristics where
  stagingAdvice : HitKind → Nat → Nat → Bool

/-- `LookupHeuristics::advise_recompute`: a block that is on the GPU, or missing, is never
worth a recompute advice. -/
def LookupHeuristics.adviseRecompute (h : LookupHeuristics) (hitKind : HitKind)
    (stagingTokens stagingBytes : Nat) : Bool :=
  match hitKind with
  | .stagingFromHost | .stagingFromDisk =>
    if stagingTokens = 0 ∨ stagingBytes = 0 then false
    else h.stagingAdvice hitKind stagingTokens stagingBytes
  | .readyOnGpu | .miss => false

/-- The hit kind of a block from its location and its readiness, as every lookup
computes it. -/
def classifyHit (location : Option BlockLocation) (entryState : IndexEntryState) : HitKind :=
  let hitKind : HitKind :=
    match location with
    | some (.hostPinned _) => .stagingFromHost
    | some (.disk _ _) | some (.remote _) => .stagingFromDisk
    | some (.gpu _) | none => .readyOnGpu
  if entryState = .ready then hitKind else .miss

theorem classifyHit_miss_iff {location : Option BlockLocation} {entryState : IndexEntryState} :
    classifyHit location entryState = .miss ↔ entryState ≠ .ready := by
  unfold classifyHit
  dsimp only
  split
  · rename_i h
    simp only [h, ne_eq, not_true_eq_false, iff_false]
    split <;> simp
  · rename_i h
    simp [h]

end KvTier

end Arle
