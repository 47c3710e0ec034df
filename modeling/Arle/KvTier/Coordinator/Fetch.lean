import Mathlib
import Arle.KvTier.Coordinator.Types

/-!
# The fetch handler of the coordinator

`Coordinator::handle_fetch` of `kv_tier/coordinator.rs` with the region guard of
`coordinator/builder.rs`. What a call meets on its way (the cancellation flag at each
check, the files of the disk store, the remote backend, the event channel) is the
parameter `FetchEnv`; an answer may change from one block to the next, so it is asked by
the number of blocks before. A panic is `none`.
-/

namespace Arle.KvTier.Coordinator

/-- Where the disk store looks for a block. -/
structure DiskBlockLocation where
  path : String
  payloadLen : Nat
  fingerprint : BlockFingerprint

/-- What a fetch sees of the disk store. -/
structure DiskStore where
  blockPathFor : BlockFingerprint → String
  getBlock : Nat → DiskBlockLocation → Option BlockFingerprint → Except String (List UInt8)

/-- A handle to a remote block, with no span and epoch `0`. -/
structure KVHandle where
  blockId : BlockId
  location : BlockLocation
  byteLen : Nat

/-- What a remote operation ends in; of an unexpected end only its debug text is used. -/
inductive KVBackendCompletion
  | loaded (payload : List UInt8)
  | other (debug : String)

inductive Poll (α : Type)
  | ready (value : α)
  | pending

/-- What a fetch sees of the remote backend. -/
structure ClusterSharedBackend (Op : Type) where
  fetch : Nat → KVHandle → Except String Op
  poll : Nat → Op → Poll (Except String KVBackendCompletion)

/-- The surroundings of one call. `cancelled k` is what the `k`-th check of the
cancellation flag sees. -/
structure FetchEnv (Op : Type) where
  connected : Bool
  cancelled : Nat → Bool
  diskStore : Option DiskStore
  clusterSharedBackend : Option (ClusterSharedBackend Op)

/-- The state a call changes: the shared pools and the events sent. -/
structure World where
  pools : PoolId → SharedHostPinnedPool
  events : List CoordinatorEvent

/-- The receiver of the events is gone. -/
inductive CoordinatorError
  | eventSendFailed
deriving DecidableEq, Repr

namespace World

def setPool (w : World) (id : PoolId) (pool : SharedHostPinnedPool) : World :=
  { w with pools := Function.update w.pools id pool }

def releaseRegion (w : World) (id : PoolId) (region : HostPinnedRegion) : World :=
  w.setPool id ((w.pools id).releaseRegion region).2

variable {Op : Type}

/-- `Coordinator::emit_required`. -/
def emitRequired (w : World) (env : FetchEnv Op) (event : CoordinatorEvent) :
    Except CoordinatorError Unit × World :=
  if env.connected then (.ok (), { w with events := w.events ++ [event] })
  else (.error .eventSendFailed, w)

/-- `Coordinator::report_failure` for a fetch ticket. -/
def reportFailure (w : World) (env : FetchEnv Op) (ticket : FetchTicket) (failedBlock : BlockId)
    (failure : FailureClass) (reason : String) : Except CoordinatorError QueueOutcome × World :=
  let (sent, w) := w.emitRequired env (.fetchFailed ticket failedBlock failure reason)
  (sent.map fun _ => failure.intoOutcome, w)

/-- `Coordinator::stage_into_host_pool`. Writing the payload checks the region and its
length again, and panics when the check fails. -/
def stageIntoHostPool (w : World) (id : PoolId) (payload : List UInt8) :
    Option (Except String HostPinnedRegion × World) :=
  if (w.pools id).poisoned then
    some (.error "SharedHostPinnedPool poisoned: poisoned lock: another task failed inside", w)
  else
    match (w.pools id).inner.reserve payload.length with
    | none => none
    | some (result, pool) =>
      let w := w.setPool id { w.pools id with inner := pool }
      match result with
      | .error err =>
        some (.error ("HostPinnedPool reserve native query failed: " ++ err.message), w)
      | .ok none => some (.error "host pinned pool exhausted", w)
      | .ok (some region) =>
        match pool.validateLiveRegion region with
        | .error _ => none
        | .ok _ => if region.len = payload.length then some (.ok region, w) else none

end World

namespace FetchEnv

variable {Op : Type}

/-- `Coordinator::fetch_disk_payload`. -/
def fetchDiskPayload (env : FetchEnv Op) (i : Nat) (fingerprint : BlockFingerprint)
    (payloadLen : Nat) : Except String (List UInt8) :=
  match env.diskStore with
  | none => .error "coordinator disk store not configured"
  | some diskStore =>
    let location : DiskBlockLocation :=
      ⟨diskStore.blockPathFor fingerprint, payloadLen, fingerprint⟩
    diskStore.getBlock i location (some fingerprint)

/-- `Coordinator::fetch_remote_payload`. -/
def fetchRemotePayload (env : FetchEnv Op) (i : Nat) (block : FetchRequest) :
    Except String (List UInt8) :=
  match env.clusterSharedBackend with
  | none => .error "coordinator remote store not configured"
  | some backend =>
    let handle : KVHandle := ⟨block.blockId, block.source, block.byteLen⟩
    match backend.fetch i handle with
    | .error err => .error err
    | .ok op =>
      match backend.poll i op with
      | .ready (.ok (.loaded payload)) => .ok payload
      | .ready (.ok (.other debug)) => .error ("unexpected remote fetch completion: " ++ debug)
      | .ready (.error err) => .error err
      | .pending => .error "remote fetch unexpectedly returned Pending"

end FetchEnv

/-- The guard of the regions that a fetch has reserved so far. -/
structure AllocatedRegions where
  regions : List (PoolId × HostPinnedRegion)
  committed : Bool

namespace AllocatedRegions

def new : AllocatedRegions := ⟨[], false⟩

def push (guard : AllocatedRegions) (id : PoolId) (region : HostPinnedRegion) :
    AllocatedRegions := { guard with regions := guard.regions ++ [(id, region)] }

def commit (guard : AllocatedRegions) : AllocatedRegions := { guard with committed := true }

/-- The loop of `drain_and_release`; an error of a release is only logged. -/
def releaseAll (regions : List (PoolId × HostPinnedRegion)) (w : World) : World :=
  regions.foldl (fun w entry => w.releaseRegion entry.1 entry.2) w

def drainAndRelease (guard : AllocatedRegions) (w : World) : AllocatedRegions × World :=
  ({ guard with regions := [] }, releaseAll guard.regions w)

def releaseNow (guard : AllocatedRegions) (w : World) : AllocatedRegions × World :=
  if guard.committed then (guard, w)
  else
    let (guard, w) := guard.drainAndRelease w
    ({ guard with committed := true }, w)

/-- The destructor. -/
def drop (guard : AllocatedRegions) (w : World) : World :=
  if guard.committed then w else (guard.drainAndRelease w).2

end AllocatedRegions

section Handler

variable {Op : Type} (env : FetchEnv Op) (ticket : FetchTicket)

/-- What the loop returns: the result, with the guard that is dropped afterwards. -/
abbrev FetchExit := Except CoordinatorError QueueOutcome × AllocatedRegions × World

/-- The two statements of every early return of the loop. -/
def abortFetch (failedBlock : BlockId) (failure : FailureClass) (reason : String)
    (regions : AllocatedRegions) (w : World) : FetchExit :=
  let (regions, w) := regions.releaseNow w
  let (result, w) := w.reportFailure env ticket failedBlock failure reason
  (result, regions, w)

/-- The loop of `handle_fetch` from the `i`-th block on, and what follows it. -/
def fetchLoop : List FetchRequest → Nat → World → AllocatedRegions → List FetchedBlock →
    Option FetchExit
  | [], _, w, regions, fetched =>
    let regions := regions.commit
    let (sent, w) := w.emitRequired env (.fetchCompleted ticket fetched)
    some (sent.map fun _ => .completed, regions, w)
  | block :: blocks, i, w, regions, fetched =>
    if env.cancelled (i + 1) then
      some (abortFetch env ticket block.blockId .cancelled "fetch cancelled" regions w)
    else
      match block.source with
      | .hostPinned offset =>
        fetchLoop blocks (i + 1) w regions (fetched ++ [{
          blockId := block.blockId
          hostRegion := ⟨offset, block.byteLen⟩
          byteLen := block.byteLen
          releaseAfterPromote := false }])
      | .disk fingerprint payloadLen =>
        match env.fetchDiskPayload i fingerprint payloadLen with
        | .error reason => some (abortFetch env ticket block.blockId .failed reason regions w)
        | .ok payload =>
          match w.stageIntoHostPool block.hostPool payload with
          | none => none
          | some (.error reason, w) =>
            some (abortFetch env ticket block.blockId .failed reason regions w)
          | some (.ok region, w) =>
            fetchLoop blocks (i + 1) w (regions.push block.hostPool region) (fetched ++ [{
              blockId := block.blockId
              hostRegion := region
              byteLen := payload.length
              releaseAfterPromote := true }])
      | .remote _ =>
        match env.fetchRemotePayload i block with
        | .error reason => some (abortFetch env ticket block.blockId .failed reason regions w)
        | .ok payload =>
          match w.stageIntoHostPool block.hostPool payload with
          | none => none
          | some (.error reason, w) =>
            some (abortFetch env ticket block.blockId .failed reason regions w)
          | some (.ok region, w) =>
            fetchLoop blocks (i + 1) w (regions.push block.hostPool region) (fetched ++ [{
              blockId := block.blockId
              hostRegion := region
              byteLen := payload.length
              releaseAfterPromote := true }])
      | .gpu _ =>
        some (abortFetch env ticket block.blockId .failed
          "gpu source should not go through fetch queue" regions w)

/-- `Coordinator::handle_fetch`. -/
def handleFetch (w : World) (blocks : List FetchRequest) :
    Option (Except CoordinatorError QueueOutcome × World) :=
  match w.emitRequired env (.fetchQueued ticket blocks.length) with
  | (.error err, w) => some (.error err, w)
  | (.ok (), w) =>
    if env.cancelled 0 then
      let failedBlock := (blocks.head?.map FetchRequest.blockId).getD ⟨0⟩
      some (w.reportFailure env ticket failedBlock .cancelled "fetch cancelled")
    else do
      let (result, regions, w) ← fetchLoop env ticket blocks 0 w AllocatedRegions.new []
      some (result, regions.drop w)

end Handler

end Arle.KvTier.Coordinator
