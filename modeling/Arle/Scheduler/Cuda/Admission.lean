import Mathlib
import Arle.KvTier.Types
import Arle.Lib.Word

/-!
# The waiting queue and its admission

In every tick the scheduler takes all requests out of the waiting queue, plans how each would
reuse cached prefixes, admits some and puts the others back. The plans, the free slots and the
page budget come from the rest of the scheduler and are given for each tick.
-/

namespace Arle.Scheduler.Cuda

/-! ## The page budget -/

def normalizedPageSize (pageSize : Nat) : Nat := max pageSize 1

/-- Tokens that a request needs to be admitted: its prompt and one more. -/
def estimatedRequestTargetTokens (promptTokens _maxTokens : Nat) : Nat :=
  Word.saturatingAdd 64 promptTokens 1

/-- `a.div_ceil(b)`. -/
def divCeil (a b : Nat) : Nat := (a + b - 1) / b

def additionalPagesNeeded (seqLen additionalTokens pageSize : Nat) : Nat :=
  if additionalTokens = 0 then
    0
  else
    let pageSize := normalizedPageSize pageSize
    divCeil (Word.saturatingAdd 64 seqLen additionalTokens) pageSize - divCeil seqLen pageSize

structure PageTarget where
  slotIdx : Nat
  seqFloor : Nat
  targetSeq : Nat

def estimatedRequestTarget (slotIdx promptTokens maxTokens reservedPrefixTokens : Nat) :
    PageTarget :=
  { slotIdx
    seqFloor := reservedPrefixTokens
    targetSeq := estimatedRequestTargetTokens promptTokens maxTokens }

structure PageBudget where
  remainingFreePages : Nat
  plannedSeqLens : List Nat
  appendCowPages : List Nat
  pageSize : Nat
  active : Bool

namespace PageBudget

variable (self : PageBudget)

def effectiveSeqLen (slotIdx seqFloor : Nat) : Nat :=
  max (self.plannedSeqLens.getD slotIdx 0) seqFloor

def additionalPagesForTarget (target : PageTarget) : Nat :=
  let currentSeq := self.effectiveSeqLen target.slotIdx target.seqFloor
  let targetSeq := max target.targetSeq target.seqFloor
  additionalPagesNeeded currentSeq (targetSeq - currentSeq) self.pageSize +
    (if targetSeq > currentSeq then self.appendCowPages.getD target.slotIdx 0 else 0)

def canFitTarget (target : PageTarget) : Bool :=
  !self.active || self.additionalPagesForTarget target ≤ self.remainingFreePages

def reserveTarget (target : PageTarget) : PageBudget :=
  if self.active then
    let currentSeq := self.effectiveSeqLen target.slotIdx target.seqFloor
    let targetSeq := max target.targetSeq target.seqFloor
    { self with
      remainingFreePages := self.remainingFreePages - self.additionalPagesForTarget target
      plannedSeqLens := self.plannedSeqLens.set target.slotIdx targetSeq
      appendCowPages :=
        if targetSeq > currentSeq then self.appendCowPages.set target.slotIdx 0
        else self.appendCowPages }
  else
    self

end PageBudget

/-! ## Requests and plans -/

inductive RequestPriority
  | low
  | normal
  | high
deriving DecidableEq, Repr

def RequestPriority.rank : RequestPriority → Nat
  | .low => 0
  | .normal => 1
  | .high => 2

/-- A request in the waiting queue. `deltaTx` is the number of the channel of its client. -/
structure IncomingRequest where
  deltaTx : Nat
  priority : RequestPriority
  promptTokens : Option (List Token)
  maxTokens : Nat

/-- What the admission reads of a `PrefixAdmissionPlan`. -/
structure PrefixAdmissionPlan where
  matchedLen : Nat
  recomputeAdvised : Bool
  reusable : Option (Nat × Nat × Nat)
  directGpuAttach : Bool
  stagedMatchedLen : Option Nat
  sessionSlotHold : Bool
  sessionAffinityTokens : Nat

structure WaitingRequestHint where
  sessionAffinityTokens : Nat
  immediateReuseTokens : Nat
  totalReuseTokens : Nat
deriving DecidableEq, Repr

namespace WaitingRequestHint

def default : WaitingRequestHint := ⟨0, 0, 0⟩

/-- `from_plan` and `with_session_affinity_tokens`. -/
def fromPlan (plan : PrefixAdmissionPlan) : WaitingRequestHint :=
  let reusablePrefixLen := (plan.reusable.map fun reusable => reusable.2.1).getD 0
  let immediateReuseTokens := if plan.directGpuAttach then plan.matchedLen else reusablePrefixLen
  { sessionAffinityTokens := plan.sessionAffinityTokens
    immediateReuseTokens
    totalReuseTokens :=
      if immediateReuseTokens > 0 then immediateReuseTokens else plan.stagedMatchedLen.getD 0 }

/-- Hints are compared as tuples. -/
def key (self : WaitingRequestHint) : Nat ×ₗ Nat ×ₗ Nat :=
  toLex (self.sessionAffinityTokens, toLex (self.immediateReuseTokens, self.totalReuseTokens))

end WaitingRequestHint

structure QueuedAdmissionCandidate where
  incoming : IncomingRequest
  promptTokens : List Token
  plan : PrefixAdmissionPlan
  hint : WaitingRequestHint

/-- Why a request is put back in a tick. -/
inductive BlockedBy
  | policy
  | blockedPriority
  | longPrefillLimit
  | noFreeSlot
  | pageBudget
deriving DecidableEq, Repr

/-- A request that is put back. The code does not keep `blockedBy`. -/
structure DeferredWaitingRequest where
  incoming : IncomingRequest
  promptTokens : List Token
  hint : WaitingRequestHint
  blockedBy : BlockedBy

def QueuedAdmissionCandidate.defer (self : QueuedAdmissionCandidate) (blockedBy : BlockedBy) :
    DeferredWaitingRequest :=
  { incoming := self.incoming, promptTokens := self.promptTokens, hint := self.hint, blockedBy }

/-! ## The order of the queue -/

inductive WaitingInsertBias
  | beforeEqual
  | afterEqual
deriving DecidableEq, Repr

def waitingRequestPrecedes (incomingPriority : RequestPriority) (incomingHint : WaitingRequestHint)
    (queuedPriority : RequestPriority) (queuedHint : WaitingRequestHint)
    (bias : WaitingInsertBias) : Bool :=
  match compare incomingPriority.rank queuedPriority.rank with
  | .gt => true
  | .lt => false
  | .eq =>
    match compare incomingHint.key queuedHint.key with
    | .gt => true
    | .lt => false
    | .eq => bias = .beforeEqual

/-- Insert at the first position whose element is preceded, or at the end. -/
def insertWaiting {α : Type} (waiting : List α) (precedes : α → Bool) (incoming : α) : List α :=
  waiting.insertIdx (waiting.findIdx precedes) incoming

def insertWaitingRequestByPriority (waiting : List IncomingRequest) (incoming : IncomingRequest)
    (bias : WaitingInsertBias) : List IncomingRequest :=
  insertWaiting waiting (fun queued =>
    waitingRequestPrecedes incoming.priority .default queued.priority .default bias) incoming

def insertDeferredWaitingRequest (waiting : List DeferredWaitingRequest)
    (incoming : DeferredWaitingRequest) (bias : WaitingInsertBias) :
    List DeferredWaitingRequest :=
  insertWaiting waiting (fun queued => waitingRequestPrecedes incoming.incoming.priority
    incoming.hint queued.incoming.priority queued.hint bias) incoming

/-! ## A tick -/

structure SchedulerConfig where
  prefixAware : Bool
  prefixCacheEnabled : Bool
  maxWaitingRequests : Nat
  coldHeadroom : Option Nat
  maxSlots : Nat
  longPrefillActiveLimit : Option Nat
  longPrefillTokenThreshold : Nat

/-- The cooldown after a prefill that ran out of memory: none, one with work in flight, or one
without. -/
inductive OomCooldown
  | inactive
  | busy
  | idle
deriving DecidableEq

/-- What the rest of the scheduler is in a tick: which clients are gone, the plans of the
requests, the free slots, the pages after the reservations of the active requests, and the number
of long prefills among them. -/
structure TickView where
  isClosed : IncomingRequest → Bool
  plan : IncomingRequest → PrefixAdmissionPlan
  cooldown : OomCooldown
  freeSlots : List Nat
  admissionBudget : PageBudget
  longPrefillActive : Nat

section Tick

variable (config : SchedulerConfig) (view : TickView)

/-- `prefix_aware_reusable_prefix_tokens`. -/
def prefixAwareReusablePrefixTokens (plan : PrefixAdmissionPlan) : Nat :=
  if plan.recomputeAdvised then 0
  else if plan.directGpuAttach then plan.matchedLen
  else
    match plan.reusable with
    | some reusable => reusable.2.1
    | none => plan.stagedMatchedLen.getD 0

/-- `is_cold_request` of the signals of a plan. -/
def isColdRequest (plan : PrefixAdmissionPlan) : Bool :=
  prefixAwareReusablePrefixTokens plan = 0 && !plan.sessionSlotHold

def prefixAwareAdmissionAllowsPlan (plan : PrefixAdmissionPlan) (queuedRequests : Nat) : Bool :=
  if !config.prefixAware || !config.prefixCacheEnabled then
    true
  else if !isColdRequest plan || config.maxWaitingRequests = 0 then
    true
  else
    queuedRequests < config.maxWaitingRequests -
      config.coldHeadroom.getD (config.maxWaitingRequests / 4)

/-- The candidate of a request, unless the client is gone or the prompt is missing or empty. -/
def candidate? (incoming : IncomingRequest) : Option QueuedAdmissionCandidate :=
  if view.isClosed incoming then
    none
  else
    match incoming.promptTokens with
    | none => none
    | some [] => none
    | some promptTokens => some {
        incoming
        promptTokens
        plan := view.plan incoming
        hint := .fromPlan (view.plan incoming) }

/-- `defer_candidates_below_blocked_priority`: the candidates that stay and those that are put
back behind the ones of the policy. -/
def splitBelowBlockedPriority (candidates policyDeferred : List QueuedAdmissionCandidate) :
    List QueuedAdmissionCandidate × List QueuedAdmissionCandidate :=
  match (policyDeferred.map fun candidate => candidate.incoming.priority.rank).max? with
  | none => (candidates, [])
  | some blockingPriority =>
    candidates.partition fun candidate => !(candidate.incoming.priority.rank < blockingPriority)

/-- A candidate that the policy holds back, with the reason. -/
structure PolicyDeferred where
  candidate : QueuedAdmissionCandidate
  blockedBy : BlockedBy

def PolicyDeferred.rank (self : PolicyDeferred) : Nat := self.candidate.incoming.priority.rank

def prefixAwareFailOpenCandidate (candidates : List PolicyDeferred) : Option Nat :=
  match (candidates.map PolicyDeferred.rank).max? with
  | none => none
  | some highestPriority =>
    let warm := candidates.findIdx fun deferred =>
      deferred.rank = highestPriority && !isColdRequest deferred.candidate.plan
    if warm < candidates.length then some warm
    else some (candidates.findIdx fun deferred => deferred.rank = highestPriority)

/-- The loop that fills the free slots with candidates of the policy. Every round takes one. -/
def failOpen (target : Nat) : Nat → List QueuedAdmissionCandidate → List PolicyDeferred →
    List QueuedAdmissionCandidate × List PolicyDeferred
  | 0, candidates, policyDeferred => (candidates, policyDeferred)
  | fuel + 1, candidates, policyDeferred =>
    if candidates.length < target then
      match prefixAwareFailOpenCandidate policyDeferred with
      | none => (candidates, policyDeferred)
      | some idx =>
        match policyDeferred[idx]? with
        | none => (candidates, policyDeferred)
        | some deferred =>
          failOpen target fuel (candidates ++ [deferred.candidate]) (policyDeferred.eraseIdx idx)
    else
      (candidates, policyDeferred)

/-- `collect_admission_candidates`: the candidates, and those that are put back at once. -/
def collectAdmissionCandidates (freeSlots : List Nat) (waiting : List IncomingRequest) :
    List QueuedAdmissionCandidate × List DeferredWaitingRequest :=
  let scanned := waiting.filterMap (candidate? view)
  let allowed := scanned.partition fun candidate =>
    prefixAwareAdmissionAllowsPlan config candidate.plan waiting.length
  let split := splitBelowBlockedPriority allowed.1 allowed.2
  let policyDeferred := allowed.2.map (PolicyDeferred.mk · .policy) ++
    split.2.map (PolicyDeferred.mk · .blockedPriority)
  let opened := failOpen freeSlots.length policyDeferred.length split.1 policyDeferred
  (opened.1, opened.2.foldl (fun deferredWaiting deferred =>
    insertDeferredWaitingRequest deferredWaiting (deferred.candidate.defer deferred.blockedBy)
      .afterEqual) [])

/-- The state of the loop of `assign_slots`. -/
structure AdmissionPass where
  candidates : List QueuedAdmissionCandidate
  availableFreeSlots : List Nat
  admissionBudget : PageBudget
  longPrefillActive : Nat
  deferredWaiting : List DeferredWaitingRequest
  admitted : List (QueuedAdmissionCandidate × Nat)

/-- The first candidate of the priority of the head that its session favours, or the head. -/
def chooseSessionAffinityCandidate (candidates : List QueuedAdmissionCandidate) : Nat :=
  match candidates with
  | [] => 0
  | head :: _ =>
    let chosen := candidates.findIdx fun candidate =>
      candidate.incoming.priority = head.incoming.priority &&
        candidate.hint.sessionAffinityTokens > 0
    if chosen < candidates.length then chosen else 0

def chooseAdmissionSlot (plan : PrefixAdmissionPlan) (freeSlots : List Nat) :
    Option (Nat × Nat × Nat) :=
  match freeSlots with
  | [] => none
  | firstSlot :: _ =>
    match plan.reusable with
    | some reusable => if reusable.1 ∈ freeSlots then some reusable else some (firstSlot, 0, 0)
    | none => some (firstSlot, 0, 0)

def fullIslReservedTokens (plan : PrefixAdmissionPlan) (reusablePrefixLen : Nat) : Nat :=
  if plan.directGpuAttach then plan.matchedLen else reusablePrefixLen

def candidateNeedsLongPrefillActiveLimit (candidate : QueuedAdmissionCandidate) : Bool :=
  candidate.promptTokens.length - candidate.hint.totalReuseTokens ≥
    config.longPrefillTokenThreshold

/-- Whether a candidate is admitted, and the slot and target it gets. -/
def admits (pass : AdmissionPass) (candidate : QueuedAdmissionCandidate) :
    Except BlockedBy (Nat × PageTarget) :=
  let limit := config.longPrefillActiveLimit.map fun limit => max (min limit config.maxSlots) 1
  if candidateNeedsLongPrefillActiveLimit config candidate &&
      limit.any (fun limit => pass.longPrefillActive ≥ limit) then
    .error .longPrefillLimit
  else
    match chooseAdmissionSlot candidate.plan pass.availableFreeSlots with
    | none => .error .noFreeSlot
    | some chosen =>
      let target := estimatedRequestTarget chosen.1 candidate.promptTokens.length
        candidate.incoming.maxTokens (fullIslReservedTokens candidate.plan chosen.2.1)
      if pass.admissionBudget.canFitTarget target then .ok (chosen.1, target)
      else .error .pageBudget

/-- A round of the loop with the chosen candidate taken out. -/
def AdmissionPass.round (pass : AdmissionPass) (candidate : QueuedAdmissionCandidate)
    (rest : List QueuedAdmissionCandidate) : AdmissionPass :=
  match admits config pass candidate with
  | .error blockedBy => { pass with
      candidates := rest
      deferredWaiting := insertDeferredWaitingRequest pass.deferredWaiting
        (candidate.defer blockedBy) .beforeEqual }
  | .ok slot => { pass with
      candidates := rest
      availableFreeSlots := pass.availableFreeSlots.erase slot.1
      admissionBudget := pass.admissionBudget.reserveTarget slot.2
      longPrefillActive :=
        if candidateNeedsLongPrefillActiveLimit config candidate then pass.longPrefillActive + 1
        else pass.longPrefillActive
      admitted := pass.admitted ++ [(candidate, slot.1)] }

/-- The loop of `assign_slots`. Every round takes a candidate. -/
def admissionLoop : Nat → AdmissionPass → AdmissionPass
  | 0, pass => pass
  | fuel + 1, pass =>
    let idx := chooseSessionAffinityCandidate pass.candidates
    match pass.candidates[idx]? with
    | none => pass
    | some candidate =>
      admissionLoop fuel (pass.round config candidate (pass.candidates.eraseIdx idx))

/-- The queue of the next tick. -/
def restoreDeferredWaitingRequests (deferredWaiting : List DeferredWaitingRequest) :
    List IncomingRequest :=
  deferredWaiting.map fun deferred =>
    { deferred.incoming with promptTokens := some deferred.promptTokens }

/-- The loop of `assign_slots` at its end, for a tick that is not skipped. -/
def admissionPass (waiting : List IncomingRequest) : AdmissionPass :=
  let freeSlots := if view.cooldown = .idle then view.freeSlots.take 1 else view.freeSlots
  let collected := collectAdmissionCandidates config view freeSlots waiting
  admissionLoop config collected.1.length {
    candidates := collected.1
    availableFreeSlots := freeSlots
    admissionBudget := view.admissionBudget
    longPrefillActive := view.longPrefillActive
    deferredWaiting := collected.2
    admitted := [] }

/-- `assign_slots`: the waiting queue after the tick. -/
def assignSlots (waiting : List IncomingRequest) : List IncomingRequest :=
  if waiting.isEmpty then
    waiting
  else if view.cooldown = .busy then
    waiting
  else
    restoreDeferredWaitingRequests (admissionPass config view waiting).deferredWaiting

end Tick

end Arle.Scheduler.Cuda
