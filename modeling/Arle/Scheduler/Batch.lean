import Arle.Lib.Word
import Arle.Scheduler.BlockManager
import Arle.Scheduler.Policy

/-!
# The batch scheduler

`BatchScheduler` of `infer/src/scheduler/batch.rs`: pure accounting of which requests wait,
which run, and which blocks they hold. The running requests are a finite map, the waiting
ones a list whose head is the front of the queue. Events are left out; a panic is `none`.
-/

namespace Arle.Scheduler

structure RequestId where
  val : Nat
deriving DecidableEq, Repr

inductive RequestPriority
  | low
  | normal
  | high
deriving DecidableEq, Repr

/-- A request waiting to begin or resume prefill. -/
structure PendingRequest where
  reqId : RequestId
  promptTokens : List Token
  maxTokens : Nat
  priority : RequestPriority
  prefillProgress : Nat
  allocatedBlocks : List BlockId
deriving DecidableEq, Repr

/-- A request in the decode phase. -/
structure RunningRequest where
  reqId : RequestId
  promptTokens : List Token
  generatedTokens : Nat
  maxTokens : Nat
  blocks : List BlockId
  kvTokens : Nat
deriving DecidableEq, Repr

structure BatchSchedulerConfig where
  maxTokensPerStep : Nat
  prefillChunkSize : Nat
  chunkingPolicy : DecodeAwareChunking
deriving DecidableEq, Repr

/-- `LogicalDecodeRow`; the input token is always zero here. -/
structure LogicalDecodeRow where
  rowIndex : Nat
  reqId : RequestId
  inputToken : Token
  logicalKvOffset : Nat
deriving DecidableEq, Repr

structure LogicalPrefillRow where
  rowIndex : Nat
  reqId : RequestId
  inputTokens : List Token
  promptStart : Nat
  promptEnd : Nat
  promptLen : Nat
deriving DecidableEq, Repr

/-- `LogicalServePlan`, without the parts that the batch scheduler leaves empty. -/
structure LogicalServePlan where
  decodeRows : List LogicalDecodeRow
  prefillRows : List LogicalPrefillRow
deriving DecidableEq, Repr

def LogicalServePlan.idle : LogicalServePlan := ⟨[], []⟩

structure BatchScheduler where
  config : BatchSchedulerConfig
  waiting : List PendingRequest
  running : Assoc RequestId RunningRequest
  blockManager : BlockManager
  nextReqId : Nat

namespace BatchScheduler

/-- `BatchScheduler::new`. -/
def new (config : BatchSchedulerConfig) (blockManager : BlockManager) : BatchScheduler where
  config := config
  waiting := []
  running := ∅
  blockManager := blockManager
  nextReqId := 0

/-- `add_request`; the counter is a `u64`. -/
def addRequest (s : BatchScheduler) (promptTokens : List Token) (maxTokens : Nat)
    (priority : RequestPriority) : RequestId × BatchScheduler :=
  let reqId : RequestId := ⟨s.nextReqId⟩
  (reqId, { s with
    nextReqId := Word.wrappingAdd 64 s.nextReqId 1
    waiting := s.waiting ++ [⟨reqId, promptTokens, maxTokens, priority, 0, []⟩] })

/-- `advance_decode`. The token is counted before its block is allocated. -/
def advanceDecode (s : BatchScheduler) (reqId : RequestId) : Option (Bool × BatchScheduler) :=
  match s.running.lookup reqId with
  | none => some (false, s)
  | some req =>
    let req := { req with
      generatedTokens := req.generatedTokens + 1
      kvTokens := req.kvTokens + 1 }
    let blocksNeeded := s.blockManager.blocksForTokens req.kvTokens
    if blocksNeeded > req.blocks.length then
      match s.blockManager.allocateGpu (blocksNeeded - req.blocks.length) with
      | none => none
      | some (.error _, m) =>
        some (false, { s with running := s.running.insert reqId req, blockManager := m })
      | some (.ok newBlocks, m) =>
        some (true, { s with
          running := s.running.insert reqId { req with blocks := req.blocks ++ newBlocks }
          blockManager := m })
    else some (true, { s with running := s.running.insert reqId req })

/-- `finish_request`. -/
def finishRequest (s : BatchScheduler) (reqId : RequestId) : Option BatchScheduler :=
  match s.running.lookup reqId with
  | none => some { s with waiting := s.waiting.filter fun r => r.reqId ≠ reqId }
  | some req =>
    (BlockManager.free req.blocks s.blockManager).map fun m =>
      { s with
        running := s.running.erase reqId
        blockManager := m
        waiting := s.waiting.filter fun r => r.reqId ≠ reqId }

/-- The blocks that all running requests need together to decode one more token. -/
def newBlocksNeeded (s : BatchScheduler) : Nat :=
  ((Assoc.values s.running).map fun r =>
    s.blockManager.blocksForTokens (r.kvTokens + 1) - r.blocks.length).sum

/-- The running request with the highest id. -/
def newestRunning (s : BatchScheduler) : Option RequestId :=
  (s.running.keys.map RequestId.val).max?.map RequestId.mk

/-- The loop of `ensure_decode_memory`; every round takes a running request away. -/
def ensureLoop : Nat → BatchScheduler → Bool → Option (Bool × BatchScheduler)
  | 0, s, preempted => some (preempted, s)
  | fuel + 1, s, preempted =>
    if s.newBlocksNeeded ≤ s.blockManager.freeGpu.length then some (preempted, s)
    else
      match s.newestRunning with
      | none => some (preempted, s)
      | some preemptId =>
        match s.running.lookup preemptId with
        | none => none
        | some req =>
          match BlockManager.free req.blocks s.blockManager with
          | none => none
          | some m =>
            ensureLoop fuel
              { s with
                running := s.running.erase preemptId
                blockManager := m
                waiting := ⟨preemptId, req.promptTokens, req.maxTokens, .normal, 0, []⟩ ::
                  s.waiting } true

/-- `ensure_decode_memory`. -/
def ensureDecodeMemory (s : BatchScheduler) : Option (Bool × BatchScheduler) :=
  ensureLoop s.running.keys.length s false

/-- `build_decode_rows`: the running requests in the order of their ids. -/
def buildDecodeRows (s : BatchScheduler) : List LogicalDecodeRow :=
  ((s.running.keys.map RequestId.val).mergeSort.zipIdx).filterMap fun (id, rowIndex) =>
    (s.running.lookup ⟨id⟩).map fun req =>
      ⟨rowIndex, req.reqId, 0, req.promptTokens.length + (req.generatedTokens - 1)⟩

/-- `prefill_chunk_budget`. -/
def prefillChunkBudget (s : BatchScheduler) : Nat :=
  let signals := SchedulerSignals.queueState s.waiting.length s.running.keys.length
  min (max (s.config.chunkingPolicy.nextChunkSize .prefill signals) 1) s.config.prefillChunkSize

/-- Blocks for a chunk that ends at `promptEnd`, beside those the request has. -/
def growPending (m : BlockManager) (pending : PendingRequest) (promptEnd : Nat) :
    Option (Except AllocationError PendingRequest × BlockManager) :=
  let extraNeeded := m.blocksForTokens promptEnd - pending.allocatedBlocks.length
  if extraNeeded > 0 then
    match m.allocateGpu extraNeeded with
    | none => none
    | some (.error err, m) => some (.error err, m)
    | some (.ok newBlocks, m) =>
      some (.ok { pending with allocatedBlocks := pending.allocatedBlocks ++ newBlocks }, m)
  else some (.ok pending, m)

/-- `try_admit_prefill_chunk`. -/
def tryAdmitPrefillChunk (s : BatchScheduler) (tokenBudget rowIndex : Nat) :
    Option (Option LogicalPrefillRow × BatchScheduler) :=
  match s.waiting with
  | [] => some (none, s)
  | pending :: rest =>
    let totalTokens := pending.promptTokens.length
    let promptStart := pending.prefillProgress
    if promptStart ≥ totalTokens then some (none, { s with waiting := rest })
    else
      let chunkTokens := min (min (totalTokens - promptStart) s.prefillChunkBudget) tokenBudget
      if chunkTokens = 0 then some (none, s)
      else
        let promptEnd := promptStart + chunkTokens
        match growPending s.blockManager pending promptEnd with
        | none => none
        | some (.error _, m) => some (none, { s with blockManager := m })
        | some (.ok pending, m) =>
          let row : LogicalPrefillRow := ⟨rowIndex, pending.reqId,
            (pending.promptTokens.drop promptStart).take chunkTokens, promptStart, promptEnd,
            totalTokens⟩
          if promptEnd ≥ totalTokens then
            some (some row, { s with
              waiting := rest
              running := s.running.insert pending.reqId ⟨pending.reqId, pending.promptTokens, 0,
                pending.maxTokens, pending.allocatedBlocks, totalTokens⟩
              blockManager := m })
          else
            some (some row, { s with
              waiting := { pending with prefillProgress := promptEnd } :: rest
              blockManager := m })

/-- `schedule_step`. -/
def scheduleStep (s : BatchScheduler) : Option (LogicalServePlan × BatchScheduler) :=
  match s.ensureDecodeMemory with
  | none => none
  | some (preempted, s) =>
    let hasWaiting := !s.waiting.isEmpty
    if s.running.keys.isEmpty && !hasWaiting then some (.idle, s)
    else
      let decodeRows := s.buildDecodeRows
      let budget := s.config.maxTokensPerStep - s.running.keys.length
      if !preempted && hasWaiting && decide (budget > 0) then
        (s.tryAdmitPrefillChunk budget decodeRows.length).map fun (row, s) =>
          (⟨decodeRows, row.toList⟩, s)
      else some (⟨decodeRows, []⟩, s)

end BatchScheduler

end Arle.Scheduler
