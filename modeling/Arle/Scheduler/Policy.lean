import Mathlib

/-!
# Policies

The interface of `scheduler/policy.rs` that the prefix cache evicts through, and the chunking
policy of the batch scheduler. An eviction policy is any pure scoring function; scores are
32-bit floats, of which the eviction loop reads only whether they are finite and how they
compare in the total order of the floats.
-/

namespace Arle.Scheduler

/-- A 32-bit float, as its bit pattern. -/
structure F32 where
  bits : BitVec 32
deriving DecidableEq, Repr

namespace F32

/-- `f32::is_finite`: the exponent bits are not all ones. -/
def isFinite (x : F32) : Bool := x.bits.extractLsb' 23 8 != 255#8

/-- The sort key of `f32::total_cmp`: the bits as a signed word, with the low 31 bits
flipped when the sign is set. -/
def totalKey (x : F32) : Int := (x.bits ^^^ (x.bits.sshiftRight 31 >>> 1)).toInt

/-- `f32::total_cmp`. -/
def totalCmp (x y : F32) : Ordering := compare x.totalKey y.totalKey

end F32

/-- What the scheduler tells a policy about itself. -/
structure SchedulerSignals where
  queuedRequests : Nat := 0
  activeDecodes : Nat := 0
  prefixHitTokens : Nat := 0
  sessionAffinitySlot : Option Nat := none
  turnDepth : Nat := 0
deriving DecidableEq, Repr

/-- What a policy is told about one candidate. -/
structure EvictionCandidate where
  slot : Nat
  tokens : Nat
  lastAccessStep : Nat
  hitCount : Nat
  prefixDepth : Nat
  pinned : Bool
deriving DecidableEq, Repr

/-- A policy ranks candidates: the lowest score is evicted first. -/
structure EvictionPolicy where
  score : EvictionCandidate → SchedulerSignals → F32

/-- Which kind of work a chunk is for. -/
inductive InferenceMode
  | prefill
  | decode
deriving DecidableEq, Repr

/-- `SchedulerSignals::queue_state`. -/
def SchedulerSignals.queueState (queuedRequests activeDecodes : Nat) : SchedulerSignals where
  queuedRequests := queuedRequests
  activeDecodes := activeDecodes

structure DecodeAwareChunking where
  decodeActiveChunk : Nat
  idleChunk : Nat
deriving DecidableEq, Repr

/-- `DecodeAwareChunking::next_chunk_size`. -/
def DecodeAwareChunking.nextChunkSize (policy : DecodeAwareChunking) (mode : InferenceMode)
    (signals : SchedulerSignals) : Nat :=
  match mode with
  | .decode => policy.decodeActiveChunk
  | .prefill => if signals.activeDecodes > 0 then policy.decodeActiveChunk else policy.idleChunk

end Arle.Scheduler
