import Mathlib
import Arle.Lib.Assoc
import Arle.Lib.MinBy
import Arle.Scheduler.Batch

/-!
# The scheduler of the Metal backend

The scheduler keeps which requests wait and which are admitted. How far each admitted request is
comes from the runtime, which passes its states to every step. A panic is `none`.
-/

namespace Arle.Backend.Metal

open Arle.Scheduler (RequestId LogicalDecodeRow LogicalPrefillRow LogicalServePlan)

inductive MetalRequestPriority
  | low
  | normal
  | high
deriving DecidableEq, Repr

def MetalRequestPriority.rank : MetalRequestPriority → Nat
  | .low => 0
  | .normal => 1
  | .high => 2

inductive MetalSchedulerError
  | invalidConfig (msg : String)
  | emptyPrompt
  | unknownRequest (reqId : RequestId)
deriving DecidableEq, Repr

structure MetalSchedulerConfig where
  maxRunningRequests : Nat
  maxBatchTokens : Nat
deriving DecidableEq, Repr

def MetalSchedulerConfig.validate (self : MetalSchedulerConfig) :
    Except MetalSchedulerError Unit :=
  if self.maxRunningRequests = 0 then
    .error (.invalidConfig "max_running_requests must be >= 1")
  else if self.maxBatchTokens = 0 then
    .error (.invalidConfig "max_batch_tokens must be >= 1")
  else
    .ok ()

inductive MetalRequestPhase
  | waiting
  | prefilling
  | decoding
deriving DecidableEq, Repr

/-- What the runtime says of a request. -/
structure MetalRuntimeRequestState where
  reqId : RequestId
  phase : MetalRequestPhase
  promptProgress : Nat
  generatedTokens : Nat
  lastToken : Option Token
deriving DecidableEq, Repr

structure MetalRequestState where
  reqId : RequestId
  promptTokens : List Token
  priority : MetalRequestPriority
  arrivalOrder : Nat
  admitted : Bool
deriving DecidableEq, Repr

structure MetalDecodeBatch where
  reqIds : List RequestId
  inputTokens : List Token
deriving DecidableEq, Repr

structure MetalPrefillChunk where
  reqId : RequestId
  inputTokens : List Token
  promptStart : Nat
  promptEnd : Nat
  promptLen : Nat
deriving DecidableEq, Repr

structure MetalScheduleStep where
  decode : Option MetalDecodeBatch
  prefill : List MetalPrefillChunk
  plan : LogicalServePlan
deriving DecidableEq, Repr

/-- `MetalScheduleStep::from`. -/
def MetalScheduleStep.ofPlan (plan : LogicalServePlan) : MetalScheduleStep :=
  { decode :=
      if plan.decodeRows.isEmpty then none
      else some {
        reqIds := plan.decodeRows.map LogicalDecodeRow.reqId
        inputTokens := plan.decodeRows.map LogicalDecodeRow.inputToken }
    prefill := plan.prefillRows.map fun row => {
      reqId := row.reqId
      inputTokens := row.inputTokens
      promptStart := row.promptStart
      promptEnd := row.promptEnd
      promptLen := row.promptLen }
    plan }

structure MetalScheduler where
  config : MetalSchedulerConfig
  nextReqId : Nat
  nextArrivalOrder : Nat
  waiting : List RequestId
  requests : Assoc RequestId MetalRequestState

/-! ## Orders -/

def comparePriorityWaiting (a b : MetalRequestState) : Ordering :=
  match (compare a.priority.rank b.priority.rank).swap with
  | .eq => compare a.arrivalOrder b.arrivalOrder
  | other => other

def comparePrefillOrder (a b : MetalRequestState) : Ordering :=
  match compare a.arrivalOrder b.arrivalOrder with
  | .eq => compare a.reqId.val b.reqId.val
  | other => other

def compareDecodeOrder (a b : MetalRequestState) : Ordering :=
  match (compare a.priority.rank b.priority.rank).swap with
  | .eq =>
    match compare a.arrivalOrder b.arrivalOrder with
    | .eq => compare a.reqId.val b.reqId.val
    | other => other
  | other => other

def runtimeState (runtimeStates : List MetalRuntimeRequestState) (reqId : RequestId) :
    Option MetalRuntimeRequestState :=
  runtimeStates.find? fun state => state.reqId = reqId

namespace MetalScheduler

variable (s : MetalScheduler)

/-! ## Requests -/

def new (config : MetalSchedulerConfig) : Except MetalSchedulerError MetalScheduler := do
  config.validate
  return {
    config
    nextReqId := 0
    nextArrivalOrder := 0
    waiting := []
    requests := ∅ }

def submit (promptTokens : List Token) (maxTokens : Nat) (priority : MetalRequestPriority) :
    Except MetalSchedulerError RequestId × MetalScheduler :=
  if promptTokens.isEmpty then
    (.error .emptyPrompt, s)
  else if maxTokens = 0 then
    (.error (.invalidConfig "max_tokens must be >= 1"), s)
  else
    let reqId : RequestId := ⟨s.nextReqId⟩
    (.ok reqId, { s with
      nextReqId := s.nextReqId + 1
      nextArrivalOrder := s.nextArrivalOrder + 1
      waiting := s.waiting ++ [reqId]
      requests := s.requests.insert reqId {
        reqId
        promptTokens
        priority
        arrivalOrder := s.nextArrivalOrder
        admitted := false } })

def isWaiting (reqId : RequestId) : Bool :=
  (s.requests.lookup reqId).any fun state => !state.admitted

def runningLen : Nat := ((Assoc.values s.requests).filter MetalRequestState.admitted).length

def rewriteWaitingPrompt (reqId : RequestId) (promptTokens : List Token) :
    Except MetalSchedulerError Unit × MetalScheduler :=
  if promptTokens.isEmpty then
    (.error .emptyPrompt, s)
  else
    match s.requests.lookup reqId with
    | none => (.error (.unknownRequest reqId), s)
    | some state =>
      (.ok (), { s with requests := s.requests.insert reqId { state with promptTokens } })

def removeRequest (reqId : RequestId) : Option MetalRequestState × MetalScheduler :=
  match s.requests.lookup reqId with
  | none => (none, s)
  | some removed =>
    (some removed, { s with
      requests := s.requests.erase reqId
      waiting := s.waiting.erase reqId })

def finishRequest (reqId : RequestId) : Bool × MetalScheduler :=
  let removed := s.removeRequest reqId
  (removed.1.isSome, removed.2)

/-! ## A step -/

/-- Whether `validate_runtime_snapshots` passes. -/
def validateRuntimeSnapshots (runtimeStates : List MetalRuntimeRequestState) : Bool :=
  ((Assoc.values s.requests).filter MetalRequestState.admitted).all fun state =>
    match runtimeState runtimeStates state.reqId with
    | none => false
    | some runtime => !(runtime.phase = .decoding && runtime.lastToken.isNone)

/-- The entry of a request in the decode batch, if it has one. -/
def decodeEntry (runtimeStates : List MetalRuntimeRequestState) (state : MetalRequestState) :
    Option (Option (MetalRequestState × Token × Nat)) :=
  if !state.admitted then
    some none
  else
    match runtimeState runtimeStates state.reqId with
    | none => none
    | some runtime =>
      if runtime.phase ≠ .decoding then
        some none
      else
        match runtime.lastToken with
        | none => none
        | some lastToken =>
          some (some (state, lastToken, runtime.promptProgress + (runtime.generatedTokens - 1)))

def buildDecodeRows (runtimeStates : List MetalRuntimeRequestState) :
    Option (List LogicalDecodeRow) :=
  ((Assoc.values s.requests).mapM (decodeEntry runtimeStates)).map fun entries =>
    (sortBy (fun a b => compareDecodeOrder a.1 b.1) entries.reduceOption).mapIdx
      fun rowIndex entry => {
        rowIndex
        reqId := entry.1.reqId
        inputToken := entry.2.1
        logicalKvOffset := entry.2.2 }

def findPrefillingRequest (runtimeStates : List MetalRuntimeRequestState) : Option RequestId :=
  (minBy comparePrefillOrder ((Assoc.values s.requests).filter fun state =>
    state.admitted && (runtimeState runtimeStates state.reqId).any fun runtime =>
      runtime.phase = .prefilling)).map MetalRequestState.reqId

def admitNextWaitingRequest : Option RequestId × MetalScheduler :=
  let queued := s.waiting.zipIdx.filterMap fun entry =>
    (s.requests.lookup entry.1).map fun state => (entry.2, state)
  match minBy (fun a b => comparePriorityWaiting a.2 b.2) queued with
  | none => (none, s)
  | some best =>
    match s.waiting[best.1]? with
    | none => (none, s)
    | some reqId =>
      let s := { s with waiting := s.waiting.eraseIdx best.1 }
      match s.requests.lookup reqId with
      | none => (none, s)
      | some state =>
        (some reqId,
          { s with requests := s.requests.insert reqId { state with admitted := true } })

def countDecodeRuntime (runtimeStates : List MetalRuntimeRequestState) : Nat :=
  (runtimeStates.filter fun runtime => runtime.phase = .decoding).length

def prefillChunkBudget (decodeCount : Nat) : Nat := s.config.maxBatchTokens - decodeCount

/-- The request that the next chunk is for, and whether it is newly admitted. -/
def choosePrefill (runtimeStates : List MetalRuntimeRequestState) :
    Option (RequestId × Bool) × MetalScheduler :=
  match s.findPrefillingRequest runtimeStates with
  | some reqId => (some (reqId, false), s)
  | none =>
    if s.runningLen < s.config.maxRunningRequests then
      let admitted := s.admitNextWaitingRequest
      (admitted.1.map fun reqId => (reqId, true), admitted.2)
    else
      (none, s)

/-- The row of a chosen request, if it is known. -/
def prefillRow (runtimeStates : List MetalRuntimeRequestState) (rowIndex chunkCap : Nat)
    (reqId : RequestId) (newlyAdmitted : Bool) : Option (List LogicalPrefillRow) :=
  match s.requests.lookup reqId with
  | none => some []
  | some state =>
    let promptLen := state.promptTokens.length
    let promptStart? :=
      if newlyAdmitted then some 0
      else (runtimeState runtimeStates reqId).map fun runtime =>
        min runtime.promptProgress promptLen
    promptStart?.map fun promptStart =>
      let promptEnd := min (promptStart + chunkCap) promptLen
      [{ rowIndex
         reqId
         inputTokens := (state.promptTokens.drop promptStart).take (promptEnd - promptStart)
         promptStart
         promptEnd
         promptLen }]

def buildPrefillRows (runtimeStates : List MetalRuntimeRequestState) (rowIndex : Nat) :
    Option (List LogicalPrefillRow × MetalScheduler) :=
  let decodeCount := countDecodeRuntime runtimeStates
  let chunkCap := s.prefillChunkBudget decodeCount
  if chunkCap = 0 then
    some ([], s)
  else
    let chosen := s.choosePrefill runtimeStates
    match chosen.1 with
    | none => some ([], chosen.2)
    | some request =>
      (chosen.2.prefillRow runtimeStates rowIndex chunkCap request.1 request.2).map fun rows =>
        (rows, chosen.2)

def buildLogicalPlan (runtimeStates : List MetalRuntimeRequestState) :
    Option (LogicalServePlan × MetalScheduler) :=
  match s.buildDecodeRows runtimeStates with
  | none => none
  | some decodeRows =>
    (s.buildPrefillRows runtimeStates decodeRows.length).map fun prefill =>
      ({ decodeRows, prefillRows := prefill.1 }, prefill.2)

def step (runtimeStates : List MetalRuntimeRequestState) :
    Option (MetalScheduleStep × MetalScheduler) :=
  if s.validateRuntimeSnapshots runtimeStates then
    (s.buildLogicalPlan runtimeStates).map fun planned =>
      (.ofPlan planned.1, planned.2)
  else
    none

end MetalScheduler

end Arle.Backend.Metal
