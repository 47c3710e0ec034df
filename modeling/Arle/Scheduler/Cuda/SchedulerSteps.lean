import Mathlib
import Arle.Lib.Run
import Arle.Scheduler.Cuda.StepPlanSpec

/-!
# The scheduler keeps its slots ordered

What happens to the slots between two plans: `admit_waiting_candidate` gives a slot to a request
under the next id, `step_new` starts the prefill, the passes move it on, a decode that is preempted
or finished leaves, and `cleanup` frees its slot. Every state that the scheduler reaches is
`Ordered`, so every plan it makes is launched as planned.
-/

namespace Arle.Scheduler.Cuda.Execution

namespace State

variable (self : State)

/-! ## Slots -/

/-- A write through `request_mut`. -/
def updateRequest (slotIdx : Nat) (f : ActiveRequest → ActiveRequest) : State :=
  { self with active := self.active.modify slotIdx (Option.map f) }

def queuePrefill (slotIdx : Nat) : State :=
  if slotIdx ∈ self.prefillQueue then self
  else { self with prefillQueue := self.prefillQueue ++ [slotIdx] }

def queuePrefillFront (slotIdx : Nat) : State :=
  let dequeued := self.dequeuePrefill slotIdx
  { dequeued with prefillQueue := slotIdx :: dequeued.prefillQueue }

def queueRunning (slotIdx : Nat) : State :=
  if slotIdx ∈ self.runningBatch then self
  else { self with runningBatch := self.runningBatch ++ [slotIdx] }

/-- `finish_slot`; the abort reason of `finish_slot_client_closed` is left out. -/
def finishSlot (slotIdx : Nat) : State := self.finishSlotClientClosed slotIdx

def moveToDecode (slotIdx : Nat) : State :=
  ((self.dequeuePrefill slotIdx).updateRequest slotIdx fun req =>
    { req with phase := .decoding }).queueRunning slotIdx

def pushToken (slotIdx : Nat) (token : Token) : State :=
  self.updateRequest slotIdx fun req =>
    { req with generatedTokens := req.generatedTokens ++ [token] }

/-! ## What happens to a slot -/

/-- A slot is given to a request. -/
def admitWaitingCandidate (slotIdx id : Nat) (promptTokens : List Token) (maxTokens : Nat)
    (waitingFetch : Bool) : State :=
  let admitted := { self with active := self.active.set slotIdx (some {
    id
    promptTokens
    generatedTokens := []
    maxTokens
    phase := if waitingFetch then .waitingFetch else .prefilling [] 0
    closed := false }) }
  if maxTokens = 0 then admitted.finishSlot slotIdx else admitted

/-- A prefix is promoted, or its fetch is given up. -/
def resetPrefill (slotIdx : Nat) : State :=
  self.updateRequest slotIdx fun req => { req with phase := .prefilling [] 0 }

/-- `step_new` where it does not fail, and `queue_prefill`: the prefill starts behind the tokens
that are reused. -/
def startPrefill (slotIdx reused : Nat) : State :=
  if (self.request slotIdx).isSome then
    (self.updateRequest slotIdx fun req =>
      { req with phase := .prefilling (req.promptTokens.drop reused) 0 }).queuePrefill slotIdx
  else self

/-- A chunk of a prefill is done, and another one is left. -/
def advancePrefill (slotIdx nextProgress : Nat) : State :=
  match self.request slotIdx with
  | none => self
  | some req =>
    match req.phase with
    | .prefilling effectiveTokens _ =>
      (self.updateRequest slotIdx fun req =>
        { req with phase := .prefilling effectiveTokens nextProgress }).queuePrefillFront slotIdx
    | _ => self

/-- The request decodes with its first token. -/
def completePrefill (slotIdx : Nat) (token : Token) : State :=
  (self.pushToken slotIdx token).moveToDecode slotIdx

/-- `requeue_preempted_decode`: the prompt goes back to the waiting queue. -/
def preempt (slotIdx : Nat) : State :=
  (self.updateRequest slotIdx fun req =>
    { req with promptTokens := [], phase := .finished }).finishSlot slotIdx

/-- `cleanup` of a slot. -/
def cleanup (slotIdx : Nat) : State :=
  let checked :=
    if ((self.request slotIdx).any fun req => req.closed) then self.finishSlot slotIdx else self
  match (checked.request slotIdx).map ActiveRequest.phase with
  | some .finished => { checked.dequeuePrefill slotIdx with
      active := checked.active.set slotIdx none
      runningBatch := checked.runningBatch.filter (· ≠ slotIdx) }
  | _ => checked

end State

/-- The state with the id of the next request. -/
structure SchedulerState where
  state : State
  nextId : Nat

inductive SchedulerOp
  | plan
  | admitWaitingCandidate (slotIdx : Nat) (promptTokens : List Token) (maxTokens : Nat)
    (waitingFetch : Bool)
  | resetPrefill (slotIdx : Nat)
  | startPrefill (slotIdx reused : Nat)
  /-- A chunk of the slot is launched. -/
  | dequeuePrefill (slotIdx : Nat)
  | advancePrefill (slotIdx nextProgress : Nat)
  | completePrefill (slotIdx : Nat) (token : Token)
  | pushToken (slotIdx : Nat) (token : Token)
  | preempt (slotIdx : Nat)
  | finishSlot (slotIdx : Nat)
  | cleanup (slotIdx : Nat)
  /-- The client of the slot closes its channel. -/
  | close (slotIdx : Nat)
  /-- The running batch, the emits and the pages change. -/
  | rest (runningBatch : List Nat) (deferredDecodeEmit : Option (List Nat))
    (emitGateWaiting : Nat → Option Nat) (freePages : Nat) (seqLens appendCowPages : List Nat)

def SchedulerOp.performOn (s : State) (id : Nat) : SchedulerOp → State
  | .plan => s.planStep.1
  | .admitWaitingCandidate slotIdx promptTokens maxTokens waitingFetch =>
    s.admitWaitingCandidate slotIdx id promptTokens maxTokens waitingFetch
  | .resetPrefill slotIdx => s.resetPrefill slotIdx
  | .startPrefill slotIdx reused => s.startPrefill slotIdx reused
  | .dequeuePrefill slotIdx => s.dequeuePrefill slotIdx
  | .advancePrefill slotIdx nextProgress => s.advancePrefill slotIdx nextProgress
  | .completePrefill slotIdx token => s.completePrefill slotIdx token
  | .pushToken slotIdx token => s.pushToken slotIdx token
  | .preempt slotIdx => s.preempt slotIdx
  | .finishSlot slotIdx => s.finishSlot slotIdx
  | .cleanup slotIdx => s.cleanup slotIdx
  | .close slotIdx => s.updateRequest slotIdx fun req => { req with closed := true }
  | .rest runningBatch deferredDecodeEmit emitGateWaiting freePages seqLens appendCowPages =>
    { s with runningBatch, deferredDecodeEmit, emitGateWaiting, freePages, seqLens, appendCowPages }

/-- Only an admission takes an id; the counter is a `u64` that wraps. -/
def SchedulerOp.takesId : SchedulerOp → Bool
  | .admitWaitingCandidate .. => true
  | _ => false

/-- A step, as long as the ids last. -/
def SchedulerStep (s : SchedulerState) (op : SchedulerOp) (s' : SchedulerState) : Prop :=
  s.nextId + 1 < 2 ^ 64 ∧ s' = {
    state := op.performOn s.state s.nextId
    nextId := if op.takesId then Word.wrappingAdd 64 s.nextId 1 else s.nextId }

/-- A scheduler whose slots are free. -/
def Started (s : SchedulerState) : Prop :=
  (∀ i, s.state.request i = none) ∧ s.state.prefillQueue = [] ∧ s.nextId = 0

namespace State

variable {s s' s'' : State} {slotIdx : Nat}

/-- What is kept up of a request. -/
def Valid (req : ActiveRequest) : Prop :=
  (req.phase = .decoding → req.generatedTokens ≠ []) ∧
    ∀ {effectiveTokens progress}, req.phase = .prefilling effectiveTokens progress →
      effectiveTokens <:+ req.promptTokens

theorem Ordered.valid (hs : s.Ordered) {i : Nat} {req : ActiveRequest}
    (hreq : s.request i = some req) : Valid req :=
  ⟨hs.started hreq, hs.suffix hreq⟩

/-! ## Steps that keep the ids -/

/-- The requests of the later state are those of the earlier one, moved on. -/
structure Moves (s s' : State) : Prop where
  requests : ∀ {i req}, s'.request i = some req →
    ∃ old, s.request i = some old ∧ old.id = req.id ∧ (Valid old → Valid req)
  queue : s.prefillQueue.Nodup → s'.prefillQueue.Nodup

namespace Moves

theorem ordered (h : Moves s s') (hs : s.Ordered) : s'.Ordered where
  ids hi hj heq := by
    obtain ⟨old, hold, hid, -⟩ := h.requests hi
    obtain ⟨old', hold', hid', -⟩ := h.requests hj
    exact hs.ids hold hold' (hid.trans (heq.trans hid'.symm))
  started hi := by
    obtain ⟨old, hold, -, hvalid⟩ := h.requests hi
    exact (hvalid (hs.valid hold)).1
  queue := h.queue hs.queue
  suffix hi := by
    obtain ⟨old, hold, -, hvalid⟩ := h.requests hi
    exact (hvalid (hs.valid hold)).2

theorem refl (s : State) : Moves s s := ⟨fun h => ⟨_, h, rfl, id⟩, id⟩

theorem trans (h : Moves s s') (h' : Moves s' s'') : Moves s s'' where
  requests hreq := by
    obtain ⟨mid, hmid, hid, hvalid⟩ := h'.requests hreq
    obtain ⟨old, hold, hid', hvalid'⟩ := h.requests hmid
    exact ⟨old, hold, hid'.trans hid, fun hv => hvalid (hvalid' hv)⟩
  queue hnodup := h'.queue (h.queue hnodup)

/-- The slots stay as they are. -/
theorem of_active (hactive : s'.active = s.active)
    (hqueue : s.prefillQueue.Nodup → s'.prefillQueue.Nodup) : Moves s s' := by
  refine ⟨fun {i req} hreq => ⟨req, ?_, rfl, id⟩, hqueue⟩
  rw [request, hactive] at hreq
  exact hreq

theorem dequeuePrefill : Moves s (s.dequeuePrefill slotIdx) :=
  of_active rfl fun h => h.filter _

theorem queuePrefill : Moves s (s.queuePrefill slotIdx) := by
  unfold State.queuePrefill
  split
  · exact .refl s
  · rename_i hnew
    refine of_active rfl fun h => ?_
    exact List.nodup_append'.mpr ⟨h, List.nodup_singleton _, by simpa using hnew⟩

theorem queuePrefillFront : Moves s (s.queuePrefillFront slotIdx) := by
  refine of_active rfl fun h => ?_
  refine List.nodup_cons.mpr ⟨fun hin => ?_, h.filter _⟩
  exact absurd rfl (of_decide_eq_true (List.mem_filter.mp hin).2)

theorem queueRunning : Moves s (s.queueRunning slotIdx) := by
  unfold State.queueRunning
  split
  · exact .refl s
  · exact of_active rfl id

end Moves

theorem request_updateRequest (s : State) (slotIdx : Nat) (f : ActiveRequest → ActiveRequest)
    (i : Nat) : (s.updateRequest slotIdx f).request i =
      if slotIdx = i then (s.request i).map f else s.request i := by
  unfold request updateRequest
  dsimp only
  rw [List.getElem?_modify]
  by_cases h : slotIdx = i
  · simp only [if_pos h]
    cases s.active[i]? <;> rfl
  · simp only [if_neg h]
    cases s.active[i]? <;> rfl

/-- A write to a slot that keeps its id and leaves it valid. -/
theorem Moves.update {f : ActiveRequest → ActiveRequest} (hid : ∀ req, (f req).id = req.id)
    (hvalid : ∀ req, s.request slotIdx = some req → Valid req → Valid (f req)) :
    Moves s (s.updateRequest slotIdx f) := by
  refine ⟨fun {i req} hreq => ?_, id⟩
  rw [request_updateRequest] at hreq
  split at hreq
  · rename_i hslot
    subst hslot
    obtain ⟨old, hold, rfl⟩ := Option.map_eq_some_iff.mp hreq
    exact ⟨old, hold, (hid old).symm, hvalid old hold⟩
  · exact ⟨req, hreq, rfl, id⟩

theorem Moves.finishSlot : Moves s (s.finishSlot slotIdx) := by
  refine ⟨fun {i req} hreq => ?_, fun h => h.filter _⟩
  unfold State.finishSlot at hreq
  rw [request_finish] at hreq
  split at hreq
  · obtain ⟨old, hold, rfl⟩ := Option.map_eq_some_iff.mp hreq
    exact ⟨old, hold, rfl, fun _ => ⟨(fun h => by cases h), fun h => by cases h⟩⟩
  · exact ⟨req, hreq, rfl, id⟩

/-! ## Every step -/

theorem moves_pushToken (token : Token) : Moves s (s.pushToken slotIdx token) :=
  .update (fun _ => rfl) fun _ _ hvalid =>
    ⟨fun _ h => List.cons_ne_nil _ _ (List.append_eq_nil_iff.mp h).2, hvalid.2⟩

theorem moves_startPrefill (reused : Nat) : Moves s (s.startPrefill slotIdx reused) := by
  unfold startPrefill
  split
  · refine .trans (.update ?_ ?_) .queuePrefill
    · exact fun _ => rfl
    · refine fun req _ _ => ⟨(fun h => by cases h), fun h => ?_⟩
      cases h
      exact List.drop_suffix _ _
  · exact .refl s

theorem moves_resetPrefill : Moves s (s.resetPrefill slotIdx) := by
  refine .update (fun _ => rfl) fun _ _ _ => ⟨(fun h => by cases h), fun h => ?_⟩
  cases h
  exact List.nil_suffix

theorem moves_advancePrefill (nextProgress : Nat) :
    Moves s (s.advancePrefill slotIdx nextProgress) := by
  unfold advancePrefill
  split
  · exact .refl s
  · rename_i req hreq
    split
    · rename_i effective progress hphase
      refine .trans (.update ?_ ?_) .queuePrefillFront
      · exact fun _ => rfl
      · refine fun req' hreq' hvalid => ⟨(fun h => by cases h), fun h => ?_⟩
        obtain rfl := Option.some.inj (hreq.symm.trans hreq')
        cases h
        exact hvalid.2 hphase
    · exact .refl s

theorem moves_completePrefill (token : Token) : Moves s (s.completePrefill slotIdx token) := by
  refine (moves_pushToken token).trans
    (.trans .dequeuePrefill (.trans (.update ?_ ?_) .queueRunning))
  · exact fun _ => rfl
  · refine fun req hreq _ => ⟨fun _ => ?_, fun h => by cases h⟩
    -- The token that has just been pushed is the first one at the latest.
    have hreq : (s.pushToken slotIdx token).request slotIdx = some req := hreq
    rw [pushToken, request_updateRequest, if_pos rfl] at hreq
    obtain ⟨old, -, rfl⟩ := Option.map_eq_some_iff.mp hreq
    exact fun h => List.cons_ne_nil _ _ (List.append_eq_nil_iff.mp h).2

theorem moves_preempt : Moves s (s.preempt slotIdx) := by
  refine .trans (.update ?_ ?_) .finishSlot
  · exact fun _ => rfl
  · exact fun _ _ _ => ⟨(fun h => by cases h), fun h => by cases h⟩

/-- A slot that is freed. -/
theorem moves_free : Moves s { s.dequeuePrefill slotIdx with
    active := s.active.set slotIdx none
    runningBatch := s.runningBatch.filter (· ≠ slotIdx) } := by
  refine ⟨fun {i req} hreq => ⟨req, ?_, rfl, id⟩, fun h => h.filter _⟩
  rw [request, List.getElem?_set] at hreq
  split at hreq
  · split at hreq
    · cases hreq
    · cases hreq
  · exact hreq

theorem moves_cleanup : Moves s (s.cleanup slotIdx) := by
  unfold cleanup
  have hchecked : Moves s (if ((s.request slotIdx).any fun req => req.closed) then
      s.finishSlot slotIdx else s) := by
    split
    · exact .finishSlot
    · exact .refl s
  dsimp only
  split
  · exact hchecked.trans moves_free
  · exact hchecked

theorem moves_collectLoop (budget : PrefillBudget) (slots : List Nat) (s : State)
    (queued : List PrefillCandidate) : Moves s (collectLoop budget slots s queued).1 := by
  induction slots generalizing s queued with
  | nil => exact .refl s
  | cons slotIdx rest ih =>
    rw [collectLoop]
    split
    · exact .trans .finishSlot (ih _ _)
    · split
      · exact .trans .dequeuePrefill (ih _ _)
      · exact ih _ _

theorem moves_planStep : Moves s s.planStep.1 := by
  have hcollect := moves_collectLoop (s.prefillBudget s.runnableDecodeSlots) s.prefillQueue s []
  unfold planStep collectPrefillCandidates
  dsimp only
  split
  · split
    · exact hcollect
    · exact hcollect
  · exact hcollect

/-- A slot that is given to a request under a new id. -/
theorem ordered_admitWaitingCandidate (slotIdx : Nat) (hs : s.Ordered) {id : Nat}
    (hnew : ∀ i req, s.request i = some req → req.id < id) (promptTokens : List Token)
    (maxTokens : Nat) (waitingFetch : Bool) :
    (s.admitWaitingCandidate slotIdx id promptTokens maxTokens waitingFetch).Ordered ∧
      ∀ i req, (s.admitWaitingCandidate slotIdx id promptTokens maxTokens waitingFetch).request i =
        some req → req.id ≤ id := by
  generalize hadmitted : { s with active := s.active.set slotIdx (some {
    id
    promptTokens
    generatedTokens := []
    maxTokens
    phase := if waitingFetch then .waitingFetch else .prefilling [] 0
    closed := false }) } = admitted
  have hold : ∀ {i req}, admitted.request i = some req →
      Valid req ∧ ((i = slotIdx ∧ req.id = id) ∨ s.request i = some req) := by
    intro i req hreq
    rw [← hadmitted, request, List.getElem?_set] at hreq
    split at hreq
    · rename_i hslot
      split at hreq
      · cases hreq
        refine ⟨?_, .inl ⟨hslot.symm, rfl⟩⟩
        cases waitingFetch with
        | true => exact ⟨(fun h => by cases h), fun h => by cases h⟩
        | false =>
          refine ⟨(fun h => by cases h), fun h => ?_⟩
          cases h
          exact List.nil_suffix
      · cases hreq
    · exact ⟨hs.valid hreq, .inr hreq⟩
  have hordered : admitted.Ordered := by
    refine ⟨fun hi hj heq => ?_, fun hi => (hold hi).1.1, ?_, fun hi => (hold hi).1.2⟩
    · rcases (hold hi).2 with ⟨rfl, hid⟩ | hi
      · rcases (hold hj).2 with ⟨rfl, -⟩ | hj
        · rfl
        · exact absurd (hnew _ _ hj) (heq ▸ hid ▸ Nat.lt_irrefl _)
      · rcases (hold hj).2 with ⟨rfl, hid⟩ | hj
        · exact absurd (hnew _ _ hi) (heq ▸ hid ▸ Nat.lt_irrefl _)
        · exact hs.ids hi hj heq
    · rw [← hadmitted]
      exact hs.queue
  have hmoves : Moves admitted
      (s.admitWaitingCandidate slotIdx id promptTokens maxTokens waitingFetch) := by
    unfold admitWaitingCandidate
    dsimp only
    rw [hadmitted]
    split
    · exact .finishSlot
    · exact .refl _
  refine ⟨hmoves.ordered hordered, fun i req hreq => ?_⟩
  obtain ⟨old, hslot, hid, -⟩ := hmoves.requests hreq
  rw [← hid]
  rcases (hold hslot).2 with ⟨-, hid⟩ | hslot
  · exact hid.le
  · exact (hnew i old hslot).le

end State

/-! ## Runs -/

namespace SchedulerState

open State

/-- The slots are ordered, and their ids have been handed out. -/
def Numbered (s : SchedulerState) : Prop :=
  s.state.Ordered ∧ ∀ i req, s.state.request i = some req → req.id < s.nextId

theorem numbered_of_moves {s : SchedulerState} (hs : s.Numbered) {state : State}
    (h : Moves s.state state) : Numbered ⟨state, s.nextId⟩ := by
  refine ⟨h.ordered hs.1, fun i req hreq => ?_⟩
  obtain ⟨old, hold, hid, -⟩ := h.requests hreq
  exact hid ▸ hs.2 i old hold

theorem numbered_step : Preserved SchedulerStep Numbered := by
  rintro s op s' hs ⟨hids, rfl⟩
  cases op with
  | plan => exact numbered_of_moves hs moves_planStep
  | admitWaitingCandidate slotIdx promptTokens maxTokens waitingFetch =>
    obtain ⟨hordered, hle⟩ :=
      ordered_admitWaitingCandidate slotIdx hs.1 hs.2 promptTokens maxTokens waitingFetch
    refine ⟨hordered, fun i req hreq => ?_⟩
    have hnext : Word.wrappingAdd 64 s.nextId 1 = s.nextId + 1 := Word.wrappingAdd_of_lt hids
    exact hnext ▸ Nat.lt_succ_of_le (hle i req hreq)
  | resetPrefill slotIdx => exact numbered_of_moves hs moves_resetPrefill
  | startPrefill slotIdx reused => exact numbered_of_moves hs (moves_startPrefill reused)
  | dequeuePrefill slotIdx => exact numbered_of_moves hs .dequeuePrefill
  | advancePrefill slotIdx nextProgress =>
    exact numbered_of_moves hs (moves_advancePrefill nextProgress)
  | completePrefill slotIdx token => exact numbered_of_moves hs (moves_completePrefill token)
  | pushToken slotIdx token => exact numbered_of_moves hs (moves_pushToken token)
  | preempt slotIdx => exact numbered_of_moves hs moves_preempt
  | finishSlot slotIdx => exact numbered_of_moves hs .finishSlot
  | cleanup slotIdx => exact numbered_of_moves hs moves_cleanup
  | close slotIdx =>
    exact numbered_of_moves hs (.update (fun _ => rfl) fun _ _ hvalid => hvalid)
  | rest => exact numbered_of_moves hs (.of_active rfl id)

/-- Every state that the scheduler reaches is ordered. -/
theorem ordered_of_reachable {s : SchedulerState} (h : Reachable Started SchedulerStep s) :
    s.state.Ordered := by
  refine (h.invariant (P := Numbered) ?_ numbered_step).1
  rintro s ⟨hnone, hqueue, -⟩
  have hempty : ∀ {i req}, s.state.request i ≠ some req := fun {i req} hreq => by
    rw [hnone i] at hreq
    cases hreq
  refine ⟨⟨fun hi => absurd hi hempty, fun hi => absurd hi hempty, ?_, fun hi => absurd hi hempty⟩,
    fun i req hreq => absurd hreq hempty⟩
  rw [hqueue]
  exact List.nodup_nil

/-- Every plan that the scheduler makes is launched as planned, with the unified scheduler and
without. -/
theorem launchPlannedStep_of_reachable {s : SchedulerState} (h : Reachable Started SchedulerStep s)
    {s' : State} {plan : StepPlan} (hplan : s.state.planStep = (s', plan)) (unified : Bool) :
    s'.launchPlannedStep unified plan = launchLegacyStepPlan plan :=
  launchPlannedStep_eq (ordered_of_reachable h) hplan unified

end SchedulerState

end Arle.Scheduler.Cuda.Execution
