import Arle.Scheduler.Cuda.PageGrowth

/-!
# The plan of a step

`infer/src/scheduler/cuda/execution.rs`: in every tick the scheduler reserves tokens and pages for
chunks of prompts, plans decode rows, prefill rows or both, and launches the plan, either as it is
or by way of a logical plan of requests and token spans. A launch is the call that is made with its
prefill rows; metrics, traces and the passes themselves are left out.
-/

namespace Arle.Scheduler.Cuda.Execution

/-! ## Budgets -/

def clippedMaxNewTokensEstimate (maxTokens : Nat) : Nat := min maxTokens 4096

structure StepTokenBudget where
  remainingTokens : Nat
  remainingRequests : Nat

namespace StepTokenBudget

def forPrefill (maxNumBatchedTokens maxPrefillTokens runningDecodeTokens remainingRequests : Nat) :
    StepTokenBudget :=
  ⟨min (maxNumBatchedTokens - runningDecodeTokens) maxPrefillTokens, remainingRequests⟩

def canFit (self : StepTokenBudget) (tokens : Nat) : Bool :=
  tokens > 0 && tokens ≤ self.remainingTokens && self.remainingRequests > 0

def reserve (self : StepTokenBudget) (tokens : Nat) : StepTokenBudget :=
  ⟨self.remainingTokens - tokens, self.remainingRequests - 1⟩

end StepTokenBudget

structure PrefillReservation where
  prefillTokens : Nat
  pageGrowth : PageGrowth

structure PrefillCandidate where
  slotIdx : Nat
  reservation : PrefillReservation

structure PrefillBudget where
  tokenBudget : StepTokenBudget
  longPrefillTokenThreshold : Nat
  decodeActive : Bool
  pageBudget : PageBudget

namespace PrefillBudget

def canSchedule (self : PrefillBudget) (reservation : PrefillReservation) : Bool :=
  self.tokenBudget.canFit reservation.prefillTokens &&
    self.pageBudget.canFitGrowth reservation.pageGrowth

def reserve (self : PrefillBudget) (reservation : PrefillReservation) : PrefillBudget :=
  { self with
    tokenBudget := self.tokenBudget.reserve reservation.prefillTokens
    pageBudget := self.pageBudget.reserveGrowth reservation.pageGrowth }

end PrefillBudget

def coalesceTinyPrefillTail (remainingTokens prefillTokenCap tinyTailLimit : Nat) : Nat :=
  let capped := min remainingTokens prefillTokenCap
  if capped = 0 ∨ capped ≥ remainingTokens then capped
  else if remainingTokens - capped ≤ max tinyTailLimit 1 then remainingTokens
  else capped

structure ScoredPrefillCandidate where
  candidate : PrefillCandidate
  queueRank : Nat

def scorePrefillCandidates (queuedCandidates : List PrefillCandidate) :
    List ScoredPrefillCandidate :=
  queuedCandidates.zipIdx.map fun (candidate, queueRank) => ⟨candidate, queueRank⟩

/-- The loop of `select_prefill_candidates`. -/
def selectLoop (budget : PrefillBudget) : List PrefillCandidate → List PrefillCandidate
  | [] => []
  | candidate :: rest =>
    if budget.canSchedule candidate.reservation then
      candidate :: selectLoop (budget.reserve candidate.reservation) rest
    else selectLoop budget rest

def selectPrefillCandidates (budget : PrefillBudget)
    (scoredCandidates : List ScoredPrefillCandidate) : List PrefillCandidate :=
  selectLoop budget ((scoredCandidates.insertionSort fun a b => a.queueRank ≤ b.queueRank).map
    ScoredPrefillCandidate.candidate)

/-! ## The scheduler -/

inductive Phase
  | waitingFetch
  | prefilling (effectiveTokens : List Token) (progress : Nat)
  | decoding
  | finished

/-- `closed` says that the client has closed the channel of the deltas. -/
structure ActiveRequest where
  id : Nat
  promptTokens : List Token
  generatedTokens : List Token
  maxTokens : Nat
  phase : Phase
  closed : Bool

/-- `matches!(req.phase, Phase::Decoding) && !req.delta_tx.is_closed()`. -/
def ActiveRequest.isDecoding (req : ActiveRequest) : Bool :=
  match req.phase with
  | .decoding => !req.closed
  | _ => false

structure SchedulerConfig where
  chunkedPrefillSize : Nat
  maxNumBatchedTokens : Nat
  maxPrefillTokens : Nat
  longPrefillTokenThreshold : Nat
  prefillMaxRequests : Option Nat
  shortPromptBypassTokens : Nat
  specEnabled : Bool

/-- `SchedulerMixedPolicy::allows_mixed`; there is one policy. -/
def SchedulerConfig.allowsMixed (_ : SchedulerConfig) : Bool := true

def SchedulerConfig.mixedPrefillTokenBudget (self : SchedulerConfig) (decodeRows : Nat) : Nat :=
  self.chunkedPrefillSize - decodeRows

def SchedulerConfig.mixedPrefillWorkspaceTokenBudget (self : SchedulerConfig) : Nat :=
  if self.allowsMixed then max self.chunkedPrefillSize 1 else 0

/-- What the model says of itself; `supportsMixedBatch` is for the format of the pool. -/
structure ModelTraits where
  prefillUsesPagedPool : Bool
  maxConcurrentPrefillRequests : Option Nat
  supportsMixedBatch : Bool

/-- `Scheduler`, as far as plans depend on it. -/
structure State where
  config : SchedulerConfig
  model : ModelTraits
  active : List (Option ActiveRequest)
  runningBatch : List Nat
  prefillQueue : List Nat
  /-- The slots of the decode batch whose emits are deferred. -/
  deferredDecodeEmit : Option (List Nat)
  /-- The slot that waits for the gate of a request. -/
  emitGateWaiting : Nat → Option Nat
  /-- `effective_pool_free_pages`. -/
  freePages : Nat
  seqLens : List Nat
  appendCowPages : List Nat
  pageSize : Nat

/-- `CONTIGUOUS_KV_TOKENS`. -/
def contiguousKvTokens : Nat := 512

namespace State

variable (self : State)

def request (slotIdx : Nat) : Option ActiveRequest := (self.active[slotIdx]?).join

def slotIsEmitGated (slotIdx : Nat) : Bool :=
  (self.request slotIdx).any fun req => self.emitGateWaiting req.id == some slotIdx

def deferredDecodeWouldReachMax (slotIdx : Nat) : Bool :=
  if (self.deferredDecodeEmit.any fun indices => indices.contains slotIdx) then
    (self.request slotIdx).any fun req => req.generatedTokens.length + 1 ≥ req.maxTokens
  else false

def slotIsRunnableDecode (slotIdx : Nat) : Bool :=
  (self.request slotIdx).any ActiveRequest.isDecoding && !self.slotIsEmitGated slotIdx &&
    !self.deferredDecodeWouldReachMax slotIdx

def dequeuePrefill (slotIdx : Nat) : State :=
  { self with prefillQueue := self.prefillQueue.filter (· ≠ slotIdx) }

/-- `finish_slot_client_closed`, as far as plans depend on it. -/
def finishSlotClientClosed (slotIdx : Nat) : State :=
  { self with
    active := self.active.modify slotIdx fun req => req.map fun req =>
      { req with phase := .finished }
    emitGateWaiting := match self.request slotIdx with
      | some req => Function.update self.emitGateWaiting req.id none
      | none => self.emitGateWaiting
    prefillQueue := self.prefillQueue.filter (· ≠ slotIdx)
    runningBatch := self.runningBatch.filter (· ≠ slotIdx) }

/-! ## Reservations -/

def prefillChunkSize : Nat :=
  let contiguousCap := if self.model.prefillUsesPagedPool then Word.maxVal 64 else contiguousKvTokens
  min (max self.config.chunkedPrefillSize 1) contiguousCap

def remainingDecodeReservationTokens (slotIdx : Nat) : Nat :=
  match self.request slotIdx with
  | some req => clippedMaxNewTokensEstimate (req.maxTokens - req.generatedTokens.length)
  | none => 0

/-- The tokens of the prompt that a slot still has to prefill, if it can go on. -/
def prefillRemaining (slotIdx : Nat) : Option Nat :=
  match self.request slotIdx with
  | some req =>
    if req.closed then none
    else match req.phase with
      | .prefilling effectiveTokens progress => some (effectiveTokens.length - progress)
      | _ => none
  | none => none

def cappedPrefillReservation (slotIdx prefillTokenCap : Nat) : Option PrefillReservation :=
  if prefillTokenCap = 0 then none
  else
    match self.prefillRemaining slotIdx with
    | none => none
    | some remainingTokens =>
      if remainingTokens = 0 then none
      else
        let tinyTailLimit := max self.pageSize 1
        let prefillTokens := coalesceTinyPrefillTail remainingTokens prefillTokenCap tinyTailLimit
        let firstDecodeToken :=
          if prefillTokens ≥ remainingTokens then
            (if self.remainingDecodeReservationTokens slotIdx > 0 then 1 else 0)
          else 0
        some ⟨prefillTokens, ⟨slotIdx, Word.saturatingAdd 64 prefillTokens firstDecodeToken⟩⟩

/-- `per_request_cap`. -/
def perRequestCap (decodeActive : Bool) (longPrefillTokenThreshold : Nat) : Nat :=
  if decodeActive then min self.prefillChunkSize longPrefillTokenThreshold
  else self.prefillChunkSize

def prefillReservation (slotIdx : Nat) (decodeActive : Bool) (longPrefillTokenThreshold : Nat) :
    Option PrefillReservation :=
  self.cappedPrefillReservation slotIdx
    (max (self.perRequestCap decodeActive longPrefillTokenThreshold) 1)

/-- `PageBudget::from_scheduler`. -/
def pageBudget (active : Bool) : PageBudget :=
  { PageBudget.new self.freePages self.seqLens self.pageSize active with
    appendCowPages := self.appendCowPages }

def decodeReservationSlots : List Nat :=
  self.runningBatch.filter fun slotIdx => (self.request slotIdx).any ActiveRequest.isDecoding

def reserveDecodeHeadroomForSlots (pageBudget : PageBudget) (decodeSlots : List Nat) :
    PageBudget :=
  decodeSlots.foldl (fun pageBudget slotIdx =>
    let remaining := self.remainingDecodeReservationTokens slotIdx
    if remaining > 0 then pageBudget.reserveGrowth ⟨slotIdx, remaining⟩ else pageBudget) pageBudget

/-- `PrefillBudget::from_scheduler_for_decode_slots`. -/
def prefillBudget (decodeSlots : List Nat) : PrefillBudget where
  tokenBudget := .forPrefill self.config.maxNumBatchedTokens self.config.maxPrefillTokens
    decodeSlots.length (min (self.config.prefillMaxRequests.getD (Word.maxVal 64))
      (self.model.maxConcurrentPrefillRequests.getD (Word.maxVal 64)))
  longPrefillTokenThreshold := self.config.longPrefillTokenThreshold
  decodeActive := !decodeSlots.isEmpty
  pageBudget := self.reserveDecodeHeadroomForSlots (self.pageBudget true)
    self.decodeReservationSlots

/-! ## Candidates -/

/-- The loop of `select_mixed_launch_prefill_candidates`. -/
def selectMixedLoop : PrefillBudget → Nat → List PrefillCandidate → List PrefillCandidate
  | _, _, [] => []
  | budget, remainingTokens, candidate :: rest =>
    let tokenCap := min candidate.reservation.prefillTokens remainingTokens
    match self.cappedPrefillReservation candidate.slotIdx tokenCap with
    | none => selectMixedLoop budget remainingTokens rest
    | some reservation =>
      if budget.canSchedule reservation then
        let remainingTokens := remainingTokens - reservation.prefillTokens
        ⟨candidate.slotIdx, reservation⟩ ::
          (if remainingTokens = 0 then []
          else selectMixedLoop (budget.reserve reservation) remainingTokens rest)
      else selectMixedLoop budget remainingTokens rest

def selectMixedLaunchPrefillCandidates (candidates : List PrefillCandidate)
    (decodeSlots : List Nat) : List PrefillCandidate :=
  let remainingTokens := self.config.mixedPrefillTokenBudget decodeSlots.length
  if remainingTokens = 0 then []
  else self.selectMixedLoop (self.prefillBudget decodeSlots) remainingTokens candidates

/-- The loop of `collect_prefill_candidates` over the slots that have been queued. -/
def collectLoop (budget : PrefillBudget) :
    List Nat → State → List PrefillCandidate → State × List PrefillCandidate
  | [], scheduler, queuedCandidates => (scheduler, queuedCandidates)
  | slotIdx :: rest, scheduler, queuedCandidates =>
    if ((scheduler.request slotIdx).any fun req => req.closed) then
      collectLoop budget rest (scheduler.finishSlotClientClosed slotIdx) queuedCandidates
    else
      match scheduler.prefillReservation slotIdx budget.decodeActive
        budget.longPrefillTokenThreshold with
      | none => collectLoop budget rest (scheduler.dequeuePrefill slotIdx) queuedCandidates
      | some reservation =>
        collectLoop budget rest scheduler (queuedCandidates ++ [⟨slotIdx, reservation⟩])

def collectPrefillCandidates (budget : PrefillBudget) : State × List ScoredPrefillCandidate :=
  let (scheduler, queuedCandidates) := collectLoop budget self.prefillQueue self []
  (scheduler, scorePrefillCandidates queuedCandidates)

end State

/-! ## Plans -/

inductive StepPlan
  | idle
  | decode
  | specDecode
  | prefill (candidates : List PrefillCandidate)
  | split (candidates : List PrefillCandidate)
  | mixed (candidates : List PrefillCandidate)

namespace StepPlan

def expectsDecode : StepPlan → Bool
  | decode | specDecode | split _ | mixed _ => true
  | idle | prefill _ => false

/-- The prefill rows of a plan. -/
def candidates : StepPlan → List PrefillCandidate
  | prefill candidates | split candidates | mixed candidates => candidates
  | idle | decode | specDecode => []

end StepPlan

def routeSpecPlan (specEnabled : Bool) : StepPlan → StepPlan
  | .decode => if specEnabled then .specDecode else .decode
  | plan => plan

namespace State

variable (self : State)

def runnableDecodeSlots : List Nat := self.runningBatch.filter self.slotIsRunnableDecode

def mixedAvailable : Bool := self.config.allowsMixed && self.model.supportsMixedBatch

/-- The plan for a tick that has decode rows. -/
def decodePlan (candidates : List PrefillCandidate) : StepPlan :=
  if candidates.isEmpty then .decode
  else if self.mixedAvailable then .mixed candidates
  else if self.config.shortPromptBypassTokens > 0 ∧ ∀ candidate ∈ candidates,
      candidate.reservation.prefillTokens ≤ self.config.shortPromptBypassTokens then
    .prefill candidates
  else .split candidates

def planStep : State × StepPlan :=
  let hasDecode := self.runningBatch.any self.slotIsRunnableDecode
  let budget := self.prefillBudget self.runnableDecodeSlots
  let (scheduler, scoredCandidates) := self.collectPrefillCandidates budget
  let candidates := selectPrefillCandidates budget scoredCandidates
  let specAllowed := scheduler.config.specEnabled && scheduler.deferredDecodeEmit.isNone
  if hasDecode then
    if scheduler.deferredDecodeEmit.isSome && (candidates.isEmpty || !scheduler.mixedAvailable)
    then (scheduler, .decode)
    else (scheduler, routeSpecPlan specAllowed (scheduler.decodePlan candidates))
  else
    (scheduler, routeSpecPlan specAllowed
      (if candidates.isEmpty then .idle else .prefill candidates))

end State

/-! ## Logical plans -/

structure LogicalDecodeRow where
  rowIndex : Nat
  reqId : Nat
  inputToken : Token
  logicalKvOffset : Nat

structure LogicalPrefillRow where
  rowIndex : Nat
  reqId : Nat
  inputTokens : List Token
  promptStart : Nat
  promptEnd : Nat
  promptLen : Nat
  logicalKvStart : Nat
  logicalKvEnd : Nat

structure LogicalServePlan where
  decodeRows : List LogicalDecodeRow
  prefillRows : List LogicalPrefillRow

namespace State

variable (self : State)

def logicalDecodeRowsForCurrentBatch : List LogicalDecodeRow :=
  self.runningBatch.foldl (fun rows slotIdx =>
    if self.slotIsRunnableDecode slotIdx then
      match self.request slotIdx with
      | none => rows
      | some req =>
        match req.generatedTokens.getLast? with
        | none => rows
        | some inputToken => rows ++ [⟨rows.length, req.id, inputToken,
            req.promptTokens.length + (req.generatedTokens.length - 1)⟩]
    else rows) []

/-- The row of a candidate, but for its index. -/
def logicalPrefillRow (candidate : PrefillCandidate) (rowIndex : Nat) : Option LogicalPrefillRow :=
  match self.request candidate.slotIdx with
  | none => none
  | some req =>
    match req.phase with
    | .prefilling effectiveTokens progress =>
      let totalEffectiveTokens := effectiveTokens.length
      let chunkEnd := min (progress + candidate.reservation.prefillTokens) totalEffectiveTokens
      if chunkEnd ≤ progress then none
      else
        let promptBase := req.promptTokens.length - totalEffectiveTokens
        let promptStart := promptBase + progress
        let promptEnd := promptBase + chunkEnd
        some ⟨rowIndex, req.id, (effectiveTokens.drop progress).take (chunkEnd - progress),
          promptStart, promptEnd, req.promptTokens.length, promptStart, promptEnd⟩
    | _ => none

def logicalPrefillRowsForCandidates (candidates : List PrefillCandidate) (rowIndexStart : Nat) :
    List LogicalPrefillRow :=
  candidates.foldl (fun rows candidate =>
    match self.logicalPrefillRow candidate (rowIndexStart + rows.length) with
    | none => rows
    | some row => rows ++ [row]) []

def logicalShadowPlanFromStepPlan : StepPlan → Option LogicalServePlan
  | .specDecode => none
  | .idle => some ⟨[], []⟩
  | .decode => some ⟨self.logicalDecodeRowsForCurrentBatch, []⟩
  | .prefill candidates => some ⟨[], self.logicalPrefillRowsForCandidates candidates 0⟩
  | .split candidates | .mixed candidates =>
    let decodeRows := self.logicalDecodeRowsForCurrentBatch
    some ⟨decodeRows, self.logicalPrefillRowsForCandidates candidates decodeRows.length⟩

def slotForRequestId (reqId : Nat) : Option Nat :=
  self.active.findIdx? fun req => req.any fun active => active.id == reqId

def prefillCandidatesFromLogicalPlan (logicalPlan : LogicalServePlan) : List PrefillCandidate :=
  logicalPlan.prefillRows.filterMap fun row =>
    (self.slotForRequestId row.reqId).bind fun slotIdx =>
      (self.cappedPrefillReservation slotIdx row.inputTokens.length).map fun reservation =>
        ⟨slotIdx, reservation⟩

end State

/-! ## Launches -/

/-- The call that launches a step. -/
inductive Launch
  | none
  | decode
  | draftThenVerify
  | prefillBatch (candidates : List PrefillCandidate)
  /-- A prefill batch and then a decode batch. -/
  | prefillThenDecode (candidates : List PrefillCandidate)
  | mixed (candidates : List PrefillCandidate)

def launchLegacyStepPlan : StepPlan → Launch
  | .idle => .none
  | .decode => .decode
  | .specDecode => .draftThenVerify
  | .prefill candidates => .prefillBatch candidates
  | .split candidates => .prefillThenDecode candidates
  | .mixed candidates => .mixed candidates

namespace State

variable (self : State)

def launchLogicalServePlan (logicalPlan : LogicalServePlan) : Launch :=
  let hasDecode := !logicalPlan.decodeRows.isEmpty
  let prefillCandidates := self.prefillCandidatesFromLogicalPlan logicalPlan
  match hasDecode, prefillCandidates.isEmpty with
  | false, true => .none
  | true, true => .decode
  | false, false => .prefillBatch prefillCandidates
  | true, false =>
    if self.mixedAvailable then .mixed prefillCandidates else .prefillThenDecode prefillCandidates

/-- `launch_planned_step`; `unified` is the feature `unified_scheduler`. -/
def launchPlannedStep (unified : Bool) (plan : StepPlan) : Launch :=
  match unified, self.logicalShadowPlanFromStepPlan plan with
  | true, some logicalPlan =>
    if plan.expectsDecode && logicalPlan.decodeRows.isEmpty then launchLegacyStepPlan plan
    else self.launchLogicalServePlan logicalPlan
  | _, _ => launchLegacyStepPlan plan

end State

end Arle.Scheduler.Cuda.Execution
