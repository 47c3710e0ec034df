import Arle.KvTier.Types
import Arle.KvTier.HostPool

/-!
# Tickets, requests and events of the coordinator

The value types of `coordinator/types.rs` and `coordinator/events.rs` that the queue
control and the fetch path exchange. The number of a ticket comes from one counter of 64
bits, which is taken not to wrap around.
-/

namespace Arle.KvTier.Coordinator

structure PlanTicket where
  val : Nat
deriving DecidableEq, Repr

structure FetchTicket where
  val : Nat
deriving DecidableEq, Repr

structure StoreTicket where
  val : Nat
deriving DecidableEq, Repr

inductive QueueKind
  | plan
  | fetch
  | store
deriving DecidableEq, Repr

inductive QueueTicket
  | plan (ticket : PlanTicket)
  | fetch (ticket : FetchTicket)
  | store (ticket : StoreTicket)
deriving DecidableEq, Repr

def QueueTicket.kind : QueueTicket → QueueKind
  | .plan _ => .plan
  | .fetch _ => .fetch
  | .store _ => .store

/-- How a queued task ended. -/
inductive QueueOutcome
  | completed
  | failed
  | cancelled
deriving DecidableEq, Repr

/-- How a queued task failed. -/
inductive FailureClass
  | cancelled
  | failed
deriving DecidableEq, Repr

def FailureClass.intoOutcome : FailureClass → QueueOutcome
  | .cancelled => .cancelled
  | .failed => .failed

/-- A pool is shared by its handles; requests with the same handle share one pool. -/
structure PoolId where
  val : Nat
deriving DecidableEq, Repr

structure FetchRequest where
  blockId : BlockId
  source : BlockLocation
  byteLen : Nat
  hostPool : PoolId
deriving DecidableEq, Repr

/-- The answer to one request. `releaseAfterPromote`: the region was reserved for this
fetch, and the scheduler releases it after the promotion. -/
structure FetchedBlock where
  blockId : BlockId
  hostRegion : HostPinnedRegion
  byteLen : Nat
  releaseAfterPromote : Bool
deriving DecidableEq, Repr

/-- The events of a fetch. -/
inductive CoordinatorEvent
  | fetchQueued (ticket : FetchTicket) (blockCount : Nat)
  | fetchCompleted (ticket : FetchTicket) (blocks : List FetchedBlock)
  | fetchFailed (ticket : FetchTicket) (failedBlock : BlockId) (failure : FailureClass)
      (reason : String)
deriving DecidableEq, Repr

end Arle.KvTier.Coordinator
