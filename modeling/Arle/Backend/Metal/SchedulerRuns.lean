import Mathlib
import Arle.Backend.Metal.SchedulerSpec
import Arle.Lib.Run

/-!
# Runs of the Metal scheduler

The scheduler and a runtime that executes each step and passes the states of the admitted requests
to the next one. In every reachable state the two agree, so that no step panics, every prompt is
prefilled from its first token to its last one, and no step exceeds its budget.
-/

namespace Arle.Backend.Metal

open Arle.Scheduler (RequestId LogicalDecodeRow LogicalPrefillRow LogicalServePlan)

/-! ## The runtime -/

/-- The state of a request that is admitted. -/
def MetalRuntimeRequestState.start (reqId : RequestId) : MetalRuntimeRequestState :=
  { reqId
    phase := .waiting
    promptProgress := 0
    generatedTokens := 0
    lastToken := none }

/-- The runtime decodes one token of a request in the batch. -/
def runDecode (batch : Option MetalDecodeBatch) (sampled : RequestId → Token)
    (r : MetalRuntimeRequestState) : MetalRuntimeRequestState :=
  if batch.any fun batch => r.reqId ∈ batch.reqIds then
    { r with generatedTokens := r.generatedTokens + 1, lastToken := some (sampled r.reqId) }
  else
    r

/-- The runtime executes a chunk; the last one gives the first token. -/
def MetalPrefillChunk.run (chunk : MetalPrefillChunk) (sampled : RequestId → Token)
    (r : MetalRuntimeRequestState) : MetalRuntimeRequestState :=
  if chunk.promptEnd = chunk.promptLen then
    { r with
      phase := .decoding
      promptProgress := chunk.promptEnd
      generatedTokens := r.generatedTokens + 1
      lastToken := some (sampled r.reqId) }
  else
    { r with phase := .prefilling, promptProgress := chunk.promptEnd }

/-- The chunk is executed for its request, which may be new. -/
def runChunk (sampled : RequestId → Token) (runtime : List MetalRuntimeRequestState)
    (chunk : MetalPrefillChunk) : List MetalRuntimeRequestState :=
  if chunk.reqId ∈ runtime.map MetalRuntimeRequestState.reqId then
    runtime.map fun r => if r.reqId = chunk.reqId then chunk.run sampled r else r
  else
    runtime ++ [chunk.run sampled (.start chunk.reqId)]

/-- The decode batch first, then the chunks. -/
def MetalScheduleStep.execute (out : MetalScheduleStep) (sampled : RequestId → Token)
    (runtime : List MetalRuntimeRequestState) : List MetalRuntimeRequestState :=
  out.prefill.foldl (runChunk sampled) (runtime.map (runDecode out.decode sampled))

/-! ## The system -/

/-- The scheduler and the runtime. `prompts` and `emitted` record the prompt of every request and
all chunks. -/
structure System where
  scheduler : MetalScheduler
  runtime : List MetalRuntimeRequestState
  prompts : RequestId → List Token
  emitted : List MetalPrefillChunk

inductive SystemOp
  | submit (promptTokens : List Token) (maxTokens : Nat) (priority : MetalRequestPriority)
  | rewriteWaitingPrompt (reqId : RequestId) (promptTokens : List Token)
  | step (runtimeStates : List MetalRuntimeRequestState) (sampled : RequestId → Token)
  | finishRequest (reqId : RequestId)

namespace System

inductive Step : System → SystemOp → System → Prop
  | submit {s : System} {promptTokens : List Token} {maxTokens : Nat}
      {priority : MetalRequestPriority} {reqId : RequestId} {scheduler : MetalScheduler}
      (hsubmit : s.scheduler.submit promptTokens maxTokens priority = (.ok reqId, scheduler)) :
      Step s (.submit promptTokens maxTokens priority)
        { s with scheduler, prompts := Function.update s.prompts reqId promptTokens }
  | rejected {s : System} {promptTokens : List Token} {maxTokens : Nat}
      {priority : MetalRequestPriority} {err : MetalSchedulerError} {scheduler : MetalScheduler}
      (hsubmit : s.scheduler.submit promptTokens maxTokens priority = (.error err, scheduler)) :
      Step s (.submit promptTokens maxTokens priority) { s with scheduler }
  | rewriteWaitingPrompt {s : System} {reqId : RequestId} {promptTokens : List Token}
      {scheduler : MetalScheduler} (hwaiting : s.scheduler.isWaiting reqId = true)
      (hrewrite : s.scheduler.rewriteWaitingPrompt reqId promptTokens = (.ok (), scheduler)) :
      Step s (.rewriteWaitingPrompt reqId promptTokens)
        { s with scheduler, prompts := Function.update s.prompts reqId promptTokens }
  | notRewritten {s : System} {reqId : RequestId} {promptTokens : List Token}
      {err : MetalSchedulerError} {scheduler : MetalScheduler}
      (hrewrite : s.scheduler.rewriteWaitingPrompt reqId promptTokens = (.error err, scheduler)) :
      Step s (.rewriteWaitingPrompt reqId promptTokens) { s with scheduler }
  | step {s : System} {runtimeStates : List MetalRuntimeRequestState}
      {sampled : RequestId → Token} {out : MetalScheduleStep} {scheduler : MetalScheduler}
      (hstates : s.runtime.Perm runtimeStates)
      (hstep : s.scheduler.step runtimeStates = some (out, scheduler)) :
      Step s (.step runtimeStates sampled)
        { s with
          scheduler
          runtime := out.execute sampled s.runtime
          emitted := s.emitted ++ out.prefill }
  | finishRequest {s : System} {reqId : RequestId} :
      Step s (.finishRequest reqId)
        { s with
          scheduler := (s.scheduler.finishRequest reqId).2
          runtime := s.runtime.filter fun r => r.reqId ≠ reqId }

def Initial (config : MetalSchedulerConfig) (s : System) : Prop :=
  MetalScheduler.new config = .ok s.scheduler ∧ s.runtime = [] ∧ s.emitted = []

end System

/-! ## The chunks of a prompt -/

/-- The chunks follow each other from the start of the prompt to this position. -/
inductive Tiles (prompt : List Token) : List MetalPrefillChunk → Nat → Prop
  | nil : Tiles prompt [] 0
  | snoc {chunks : List MetalPrefillChunk} {chunk : MetalPrefillChunk}
      (h : Tiles prompt chunks chunk.promptStart) (hlt : chunk.promptStart < chunk.promptEnd)
      (hle : chunk.promptEnd ≤ prompt.length)
      (htokens : chunk.inputTokens =
        (prompt.drop chunk.promptStart).take (chunk.promptEnd - chunk.promptStart))
      (hlen : chunk.promptLen = prompt.length) :
      Tiles prompt (chunks ++ [chunk]) chunk.promptEnd

/-! ## What executing a step does to the runtime -/

section Execute

variable {sampled : RequestId → Token} {batch : Option MetalDecodeBatch}
  {runtime : List MetalRuntimeRequestState} {chunk : MetalPrefillChunk}
  {r : MetalRuntimeRequestState}

@[simp] theorem runDecode_reqId : (runDecode batch sampled r).reqId = r.reqId := by
  unfold runDecode
  split <;> rfl

@[simp] theorem runDecode_phase : (runDecode batch sampled r).phase = r.phase := by
  unfold runDecode
  split <;> rfl

@[simp] theorem runDecode_promptProgress :
    (runDecode batch sampled r).promptProgress = r.promptProgress := by
  unfold runDecode
  split <;> rfl

theorem runDecode_progress {promptLen : Nat} (h : Progress promptLen r) :
    Progress promptLen (runDecode batch sampled r) := by
  unfold runDecode
  split
  · rcases h with h | ⟨hphase, hprogress, _, _⟩
    · exact .inl h
    · exact .inr ⟨hphase, hprogress, Nat.succ_pos _, rfl⟩
  · exact h

@[simp] theorem run_reqId : (chunk.run sampled r).reqId = r.reqId := by
  unfold MetalPrefillChunk.run
  split <;> rfl

@[simp] theorem run_promptProgress :
    (chunk.run sampled r).promptProgress = chunk.promptEnd := by
  unfold MetalPrefillChunk.run
  split <;> rfl

theorem run_progress (hle : chunk.promptEnd ≤ chunk.promptLen) :
    Progress chunk.promptLen (chunk.run sampled r) := by
  unfold MetalPrefillChunk.run
  split
  · rename_i heq
    exact .inr ⟨rfl, heq, Nat.succ_pos _, rfl⟩
  · rename_i hne
    exact .inl ⟨rfl, lt_of_le_of_ne hle hne⟩

theorem runChunk_ids : (runChunk sampled runtime chunk).map MetalRuntimeRequestState.reqId =
    if chunk.reqId ∈ runtime.map MetalRuntimeRequestState.reqId then
      runtime.map MetalRuntimeRequestState.reqId
    else
      runtime.map MetalRuntimeRequestState.reqId ++ [chunk.reqId] := by
  unfold runChunk
  split
  · rw [List.map_map]
    apply List.map_congr_left
    intro r _
    change (if r.reqId = chunk.reqId then chunk.run sampled r else r).reqId = r.reqId
    split <;> simp
  · rw [List.map_append]
    simp [MetalRuntimeRequestState.start]

theorem length_runChunk : (runChunk sampled runtime chunk).length =
    if chunk.reqId ∈ runtime.map MetalRuntimeRequestState.reqId then runtime.length
    else runtime.length + 1 := by
  have hids : ((runChunk sampled runtime chunk).map MetalRuntimeRequestState.reqId).length = _ :=
    congrArg List.length runChunk_ids
  rw [List.length_map] at hids
  rw [hids]
  split
  · exact List.length_map _
  · rw [List.length_append, List.length_map]
    rfl

/-- Each state is an old one of another request, or that of the request of the chunk. -/
theorem mem_runChunk (h : r ∈ runChunk sampled runtime chunk) :
    (r ∈ runtime ∧ r.reqId ≠ chunk.reqId) ∨
      ∃ old, r = chunk.run sampled old ∧ old.reqId = chunk.reqId := by
  unfold runChunk at h
  split at h
  · obtain ⟨old, hold, heq⟩ := List.mem_map.mp h
    split at heq
    · rename_i hid
      exact .inr ⟨old, heq.symm, hid⟩
    · rename_i hid
      rw [← heq]
      exact .inl ⟨hold, hid⟩
  · rename_i hnew
    rcases List.mem_append.mp h with hold | hold
    · exact .inl ⟨hold, fun heq => hnew (heq ▸ List.mem_map_of_mem hold)⟩
    · exact .inr ⟨_, List.mem_singleton.mp hold, rfl⟩

end Execute

/-! ## The invariant -/

namespace MetalScheduler

section Tracks

variable {s t : MetalScheduler} {runtime : List MetalRuntimeRequestState}
  {sampled : RequestId → Token} {batch : Option MetalDecodeBatch} {chunk : MetalPrefillChunk}

theorem decode_ids : (runtime.map (runDecode batch sampled)).map MetalRuntimeRequestState.reqId =
    runtime.map MetalRuntimeRequestState.reqId := by
  rw [List.map_map]
  apply List.map_congr_left
  intro r _
  exact runDecode_reqId

theorem Tracks.decode (hT : s.Tracks runtime) :
    s.Tracks (runtime.map (runDecode batch sampled)) where
  nodup := by
    rw [decode_ids]
    exact hT.nodup
  admitted_iff := by
    rw [decode_ids]
    exact hT.admitted_iff
  progress := by
    intro r hr state hlookup
    obtain ⟨old, hold, rfl⟩ := List.mem_map.mp hr
    rw [runDecode_reqId] at hlookup
    exact runDecode_progress (hT.progress old hold state hlookup)
  prefilling := by
    intro r hr r' hr' hphase hphase'
    obtain ⟨old, hold, rfl⟩ := List.mem_map.mp hr
    obtain ⟨old', hold', rfl⟩ := List.mem_map.mp hr'
    rw [runDecode_phase] at hphase hphase'
    rw [hT.prefilling old hold old' hold' hphase hphase']
  running := by
    rw [List.length_map]
    exact hT.running

/-- A chunk for the only request that is being prefilled, or for a new one. -/
theorem Tracks.runChunk (hT : s.Tracks runtime)
    (hothers : ∀ reqId, reqId ≠ chunk.reqId →
      t.requests.lookup reqId = s.requests.lookup reqId)
    (hchunk : ∃ state, t.requests.lookup chunk.reqId = some state ∧ state.admitted = true ∧
      state.promptTokens.length = chunk.promptLen)
    (hle : chunk.promptEnd ≤ chunk.promptLen)
    (honly : ∀ r ∈ runtime, r.phase = .prefilling → r.reqId = chunk.reqId)
    (hlength : (Metal.runChunk sampled runtime chunk).length ≤ t.config.maxRunningRequests) :
    t.Tracks (Metal.runChunk sampled runtime chunk) := by
  obtain ⟨state, hlookup, hadmitted, hlen⟩ := hchunk
  have hnodup : ((Metal.runChunk sampled runtime chunk).map
      MetalRuntimeRequestState.reqId).Nodup := by
    rw [runChunk_ids]
    split
    · exact hT.nodup
    · rename_i hnew
      apply List.nodup_append'.mpr
      exact ⟨hT.nodup, List.nodup_singleton _, List.disjoint_singleton.mpr hnew⟩
  have hprefilling : ∀ r ∈ Metal.runChunk sampled runtime chunk, r.phase = .prefilling →
      r.reqId = chunk.reqId := by
    intro r hr hphase
    rcases mem_runChunk hr with ⟨hold, _⟩ | ⟨old, rfl, hid⟩
    · exact honly r hold hphase
    · exact run_reqId.trans hid
  refine ⟨hnodup, ?_, ?_, ?_, hlength⟩
  · intro reqId
    rw [runChunk_ids]
    by_cases heq : reqId = chunk.reqId
    · rw [heq]
      refine ⟨fun _ => ⟨state, hlookup, hadmitted⟩, fun _ => ?_⟩
      split
      · assumption
      · exact List.mem_append_right _ List.mem_cons_self
    · rw [hothers reqId heq, ← hT.admitted_iff]
      split
      · exact .rfl
      · rw [List.mem_append, List.mem_singleton]
        exact or_iff_left heq
  · intro r hr state' hlookup'
    rcases mem_runChunk hr with ⟨hold, hid⟩ | ⟨old, rfl, hid⟩
    · rw [hothers _ hid] at hlookup'
      exact hT.progress r hold state' hlookup'
    · rw [run_reqId, hid, hlookup] at hlookup'
      cases hlookup'
      rw [hlen]
      exact run_progress hle
  · intro r hr r' hr' hphase hphase'
    exact eq_of_nodup_map hnodup hr hr'
      ((hprefilling r hr hphase).trans (hprefilling r' hr' hphase').symm)

/-- Requests that are not admitted do not matter. -/
theorem Tracks.congr (hT : s.Tracks runtime) (hconfig : t.config = s.config)
    (hsame : ∀ reqId state, state.admitted = true →
      (t.requests.lookup reqId = some state ↔ s.requests.lookup reqId = some state)) :
    t.Tracks runtime where
  nodup := hT.nodup
  admitted_iff := by
    intro reqId
    rw [hT.admitted_iff]
    apply exists_congr
    intro state
    exact and_congr_left fun hadmitted => (hsame reqId state hadmitted).symm
  progress := by
    intro r hr state hlookup
    obtain ⟨state', hlookup', hadmitted⟩ := hT.lookup hr
    rw [(hsame r.reqId state' hadmitted).mpr hlookup'] at hlookup
    cases hlookup
    exact hT.progress r hr state hlookup'
  prefilling := hT.prefilling
  running := hconfig ▸ hT.running

theorem Tracks.erase (hT : s.Tracks runtime) (reqId : RequestId) (waiting : List RequestId) :
    Tracks { s with requests := s.requests.erase reqId, waiting }
      (runtime.filter fun r => r.reqId ≠ reqId) where
  nodup := hT.nodup.sublist (List.filter_sublist.map _)
  admitted_iff := by
    intro reqId'
    dsimp only
    rw [Assoc.lookup_erase_eq]
    constructor
    · intro hin
      obtain ⟨r, hr, rfl⟩ := List.mem_map.mp hin
      obtain ⟨hr, hne⟩ := List.mem_filter.mp hr
      rw [if_neg (of_decide_eq_true hne)]
      exact hT.lookup hr
    · rintro ⟨state, hlookup, hadmitted⟩
      split at hlookup
      · cases hlookup
      · rename_i hne
        obtain ⟨r, hr, rfl⟩ :=
          List.mem_map.mp ((hT.admitted_iff reqId').mpr ⟨state, hlookup, hadmitted⟩)
        exact List.mem_map_of_mem (List.mem_filter.mpr ⟨hr, decide_eq_true hne⟩)
  progress := by
    intro r hr state hlookup
    obtain ⟨hr, hne⟩ := List.mem_filter.mp hr
    dsimp only at hlookup
    rw [Assoc.lookup_erase_eq, if_neg (of_decide_eq_true hne)] at hlookup
    exact hT.progress r hr state hlookup
  prefilling := fun r hr r' hr' =>
    hT.prefilling r (List.mem_filter.mp hr).1 r' (List.mem_filter.mp hr').1
  running := (List.length_filter_le _ _).trans hT.running

end Tracks

section WellFormed

variable {s : MetalScheduler} {reqId : RequestId} {state new : MetalRequestState}

/-- A request is replaced by another state of it. -/
theorem WellFormed.update (h : s.WellFormed) (hlookup : s.requests.lookup reqId = some state)
    (hid : new.reqId = state.reqId) (harrival : new.arrivalOrder = state.arrivalOrder)
    (hnonempty : new.promptTokens ≠ []) {waiting : List RequestId} (hqueue : waiting.Nodup)
    (hwaiting : ∀ reqId', reqId' ∈ waiting ↔
      if reqId' = reqId then new.admitted = false else reqId' ∈ s.waiting) :
    WellFormed { s with waiting, requests := s.requests.insert reqId new } := by
  have hcases : ∀ reqId' state', (s.requests.insert reqId new).lookup reqId' = some state' →
      (reqId' = reqId ∧ state' = new) ∨ s.requests.lookup reqId' = some state' := by
    intro reqId' state' hlookup'
    rw [Assoc.lookup_insert_eq] at hlookup'
    split at hlookup'
    · rename_i heq
      cases hlookup'
      exact .inl ⟨heq, rfl⟩
    · exact .inr hlookup'
  refine ⟨?_, ?_, ?_, ?_, h.counters, hqueue, ?_⟩
  · intro reqId' state' hlookup'
    rcases hcases reqId' state' hlookup' with ⟨rfl, rfl⟩ | hold
    · exact hid.trans (h.ids _ _ hlookup)
    · exact h.ids _ _ hold
  · intro reqId' state' hlookup'
    rcases hcases reqId' state' hlookup' with ⟨rfl, rfl⟩ | hold
    · exact hnonempty
    · exact h.nonempty _ _ hold
  · intro reqId' state' hlookup'
    rcases hcases reqId' state' hlookup' with ⟨rfl, rfl⟩ | hold
    · exact harrival.trans (h.arrival _ _ hlookup)
    · exact h.arrival _ _ hold
  · intro reqId' state' hlookup'
    rcases hcases reqId' state' hlookup' with ⟨rfl, rfl⟩ | hold
    · exact h.fresh _ _ hlookup
    · exact h.fresh _ _ hold
  · intro reqId'
    dsimp only
    rw [hwaiting, Assoc.lookup_insert_eq]
    split
    · simp
    · exact h.waiting_iff reqId'

theorem WellFormed.erase (h : s.WellFormed) (reqId : RequestId) :
    WellFormed { s with
      requests := s.requests.erase reqId
      waiting := s.waiting.erase reqId } := by
  have hcases : ∀ reqId' state', (s.requests.erase reqId).lookup reqId' = some state' →
      s.requests.lookup reqId' = some state' := by
    intro reqId' state' hlookup
    rw [Assoc.lookup_erase_eq] at hlookup
    split at hlookup
    · cases hlookup
    · exact hlookup
  refine ⟨fun _ _ hlookup => h.ids _ _ (hcases _ _ hlookup),
    fun _ _ hlookup => h.nonempty _ _ (hcases _ _ hlookup),
    fun _ _ hlookup => h.arrival _ _ (hcases _ _ hlookup),
    fun _ _ hlookup => h.fresh _ _ (hcases _ _ hlookup), h.counters, h.queue.erase reqId, ?_⟩
  intro reqId'
  dsimp only
  rw [h.queue.mem_erase_iff, h.waiting_iff, Assoc.lookup_erase_eq]
  split
  · rename_i heq
    simp [heq]
  · rename_i hne
    simp [hne]

/-- `submit` rejects the request or puts it at the end of the queue. -/
theorem submit_cases (s : MetalScheduler) (promptTokens : List Token) (maxTokens : Nat)
    (priority : MetalRequestPriority) :
    (∃ err, s.submit promptTokens maxTokens priority = (.error err, s)) ∨
      promptTokens ≠ [] ∧ s.submit promptTokens maxTokens priority =
        (.ok ⟨s.nextReqId⟩, { s with
          nextReqId := s.nextReqId + 1
          nextArrivalOrder := s.nextArrivalOrder + 1
          waiting := s.waiting ++ [⟨s.nextReqId⟩]
          requests := s.requests.insert ⟨s.nextReqId⟩
            ⟨⟨s.nextReqId⟩, promptTokens, priority, s.nextArrivalOrder, false⟩ }) := by
  unfold submit
  split
  · exact .inl ⟨_, rfl⟩
  · rename_i hne
    split
    · exact .inl ⟨_, rfl⟩
    · exact .inr ⟨fun heq => hne (by rw [heq]; rfl), rfl⟩

theorem rewriteWaitingPrompt_cases (s : MetalScheduler) (reqId : RequestId)
    (promptTokens : List Token) :
    (∃ err, s.rewriteWaitingPrompt reqId promptTokens = (.error err, s)) ∨
      promptTokens ≠ [] ∧ ∃ state, s.requests.lookup reqId = some state ∧
        s.rewriteWaitingPrompt reqId promptTokens =
          (.ok (), { s with requests := s.requests.insert reqId { state with promptTokens } }) := by
  unfold rewriteWaitingPrompt
  split
  · exact .inl ⟨_, rfl⟩
  · rename_i hne
    cases hlookup : s.requests.lookup reqId with
    | none => exact .inl ⟨_, rfl⟩
    | some state => exact .inr ⟨fun heq => hne (by rw [heq]; rfl), state, rfl, rfl⟩

theorem WellFormed.lookup_next (h : s.WellFormed) : s.requests.lookup ⟨s.nextReqId⟩ = none := by
  by_contra hsome
  obtain ⟨state, hlookup⟩ := Option.ne_none_iff_exists'.mp hsome
  exact lt_irrefl _ (h.fresh _ _ hlookup)

theorem WellFormed.enqueue (h : s.WellFormed) {promptTokens : List Token}
    (hnonempty : promptTokens ≠ []) (priority : MetalRequestPriority) :
    WellFormed { s with
      nextReqId := s.nextReqId + 1
      nextArrivalOrder := s.nextArrivalOrder + 1
      waiting := s.waiting ++ [⟨s.nextReqId⟩]
      requests := s.requests.insert ⟨s.nextReqId⟩
        ⟨⟨s.nextReqId⟩, promptTokens, priority, s.nextArrivalOrder, false⟩ } := by
  have hcases : ∀ reqId state', (s.requests.insert ⟨s.nextReqId⟩
      ⟨⟨s.nextReqId⟩, promptTokens, priority, s.nextArrivalOrder, false⟩).lookup reqId =
        some state' →
      (reqId = ⟨s.nextReqId⟩ ∧
        state' = ⟨⟨s.nextReqId⟩, promptTokens, priority, s.nextArrivalOrder, false⟩) ∨
      s.requests.lookup reqId = some state' := by
    intro reqId state' hlookup
    rw [Assoc.lookup_insert_eq] at hlookup
    split at hlookup
    · rename_i heq
      cases hlookup
      exact .inl ⟨heq, rfl⟩
    · exact .inr hlookup
  have hnew : (⟨s.nextReqId⟩ : RequestId) ∉ s.waiting := by
    intro hin
    obtain ⟨state', hlookup, _⟩ := (h.waiting_iff _).mp hin
    rw [h.lookup_next] at hlookup
    cases hlookup
  refine ⟨?_, ?_, ?_, ?_, congrArg (· + 1) h.counters, ?_, ?_⟩
  · intro reqId state' hlookup
    rcases hcases reqId state' hlookup with ⟨rfl, rfl⟩ | hold
    · rfl
    · exact h.ids _ _ hold
  · intro reqId state' hlookup
    rcases hcases reqId state' hlookup with ⟨rfl, rfl⟩ | hold
    · exact hnonempty
    · exact h.nonempty _ _ hold
  · intro reqId state' hlookup
    rcases hcases reqId state' hlookup with ⟨rfl, rfl⟩ | hold
    · exact h.counters
    · exact h.arrival _ _ hold
  · intro reqId state' hlookup
    rcases hcases reqId state' hlookup with ⟨rfl, rfl⟩ | hold
    · exact Nat.lt_succ_self _
    · exact (h.fresh _ _ hold).trans (Nat.lt_succ_self _)
  · apply List.nodup_append'.mpr
    exact ⟨h.queue, List.nodup_singleton _, List.disjoint_singleton.mpr hnew⟩
  · intro reqId
    dsimp only
    rw [List.mem_append, List.mem_singleton, Assoc.lookup_insert_eq]
    split
    · rename_i heq
      simp [heq]
    · rename_i hne
      rw [or_iff_left hne]
      exact h.waiting_iff reqId

end WellFormed

end MetalScheduler

/-- `prefill` of a step from the row of a chunk. -/
def chunkAt (chunkCap promptStart : Nat) (state : MetalRequestState) : MetalPrefillChunk :=
  let row := MetalScheduler.chunkRow 0 chunkCap promptStart state
  { reqId := row.reqId
    inputTokens := row.inputTokens
    promptStart := row.promptStart
    promptEnd := row.promptEnd
    promptLen := row.promptLen }

namespace System

/-- The chunks of a request, in their order. -/
def chunksOf (s : System) (reqId : RequestId) : List MetalPrefillChunk :=
  s.emitted.filter fun chunk => chunk.reqId = reqId

/-- The two halves of the state agree, and the chunks of each request tile its prompt up to where
the runtime is. -/
structure Consistent (config : MetalSchedulerConfig) (s : System) : Prop where
  config : s.scheduler.config = config
  wellFormed : s.scheduler.WellFormed
  tracks : s.scheduler.Tracks s.runtime
  prompts : ∀ reqId state, s.scheduler.requests.lookup reqId = some state →
    s.prompts reqId = state.promptTokens
  tiles : ∀ reqId, ∃ n, Tiles (s.prompts reqId) (s.chunksOf reqId) n ∧
    ∀ r ∈ s.runtime, r.reqId = reqId → r.promptProgress = n
  unseen : ∀ chunk ∈ s.emitted, chunk.reqId.val < s.scheduler.nextReqId ∧
    ∀ state, s.scheduler.requests.lookup chunk.reqId = some state → state.admitted = true

section Steps

variable {config : MetalSchedulerConfig} {s : System} {reqId : RequestId}

/-- A request that is not admitted has no chunk and is unknown to the runtime. -/
theorem Consistent.untouched (h : s.Consistent config)
    (hnot : ∀ state, s.scheduler.requests.lookup reqId = some state → state.admitted = false)
    (hnew : s.scheduler.requests.lookup reqId = none → s.scheduler.nextReqId ≤ reqId.val) :
    s.chunksOf reqId = [] ∧ ∀ r ∈ s.runtime, r.reqId ≠ reqId := by
  constructor
  · apply List.filter_eq_nil_iff.mpr
    intro chunk hchunk hid
    obtain ⟨hlt, hadmitted⟩ := h.unseen chunk hchunk
    rw [of_decide_eq_true hid] at hlt hadmitted
    cases hlookup : s.scheduler.requests.lookup reqId with
    | none => exact absurd hlt (Nat.not_lt.mpr (hnew hlookup))
    | some state =>
      have htrue := hadmitted state hlookup
      rw [hnot state hlookup] at htrue
      cases htrue
  · rintro r hr rfl
    obtain ⟨state, hlookup, hadmitted⟩ := h.tracks.lookup hr
    rw [hnot state hlookup] at hadmitted
    cases hadmitted

theorem Consistent.submitted (h : s.Consistent config) {promptTokens : List Token}
    (hnonempty : promptTokens ≠ []) (priority : MetalRequestPriority) :
    Consistent config { s with
      scheduler := { s.scheduler with
        nextReqId := s.scheduler.nextReqId + 1
        nextArrivalOrder := s.scheduler.nextArrivalOrder + 1
        waiting := s.scheduler.waiting ++ [⟨s.scheduler.nextReqId⟩]
        requests := s.scheduler.requests.insert ⟨s.scheduler.nextReqId⟩
          ⟨⟨s.scheduler.nextReqId⟩, promptTokens, priority, s.scheduler.nextArrivalOrder,
            false⟩ }
      prompts := Function.update s.prompts ⟨s.scheduler.nextReqId⟩ promptTokens } := by
  have hnext := h.wellFormed.lookup_next
  obtain ⟨hchunks, hruntime⟩ : s.chunksOf ⟨s.scheduler.nextReqId⟩ = [] ∧ _ := h.untouched
    (fun state hlookup => by rw [hnext] at hlookup; cases hlookup) (fun _ => le_refl _)
  refine ⟨h.config, h.wellFormed.enqueue hnonempty priority, ?_, ?_, ?_, ?_⟩
  · refine h.tracks.congr ?_ ?_
    · rfl
    intro reqId state hadmitted
    dsimp only
    rw [Assoc.lookup_insert_eq]
    split
    · rename_i heq
      rw [heq, hnext]
      constructor
      · intro heq
        cases heq
        cases hadmitted
      · intro heq
        cases heq
    · exact .rfl
  · intro reqId state hlookup
    dsimp only at hlookup ⊢
    rw [Assoc.lookup_insert_eq] at hlookup
    split at hlookup
    · rename_i heq
      cases hlookup
      rw [heq, Function.update_self]
    · rename_i hne
      rw [Function.update_of_ne hne]
      exact h.prompts reqId state hlookup
  · intro reqId
    by_cases heq : reqId = ⟨s.scheduler.nextReqId⟩
    · rw [heq]
      refine ⟨0, ?_, fun r hr hid => absurd hid (hruntime r hr)⟩
      change Tiles _ (s.chunksOf _) 0
      rw [hchunks]
      exact .nil
    · obtain ⟨n, htiles, hprogress⟩ := h.tiles reqId
      refine ⟨n, ?_, hprogress⟩
      dsimp only
      rw [Function.update_of_ne heq]
      exact htiles
  · intro chunk hchunk
    obtain ⟨hlt, hadmitted⟩ := h.unseen chunk hchunk
    refine ⟨hlt.trans (Nat.lt_succ_self _), fun state hlookup => ?_⟩
    dsimp only at hlookup
    rw [Assoc.lookup_insert_eq, if_neg] at hlookup
    · exact hadmitted state hlookup
    · intro heq
      rw [heq] at hlt
      exact lt_irrefl _ hlt

theorem Consistent.rewritten (h : s.Consistent config) {state : MetalRequestState}
    (hlookup : s.scheduler.requests.lookup reqId = some state) (hwaiting : state.admitted = false)
    {promptTokens : List Token} (hnonempty : promptTokens ≠ []) :
    Consistent config { s with
      scheduler := { s.scheduler with
        requests := s.scheduler.requests.insert reqId { state with promptTokens } }
      prompts := Function.update s.prompts reqId promptTokens } := by
  obtain ⟨hchunks, hruntime⟩ : s.chunksOf reqId = [] ∧ _ := h.untouched
    (fun state' hlookup' => by rw [hlookup] at hlookup'; cases hlookup'; exact hwaiting)
    (fun hnone => by rw [hlookup] at hnone; cases hnone)
  refine ⟨h.config, ?_, ?_, ?_, ?_, ?_⟩
  · refine h.wellFormed.update hlookup ?_ ?_ hnonempty h.wellFormed.queue ?_
    · rfl
    · rfl
    intro reqId'
    split
    · rename_i heq
      rw [heq, h.wellFormed.waiting_iff]
      exact ⟨fun _ => hwaiting, fun _ => ⟨state, hlookup, hwaiting⟩⟩
    · exact .rfl
  · refine h.tracks.congr ?_ ?_
    · rfl
    intro reqId' state' hadmitted
    dsimp only
    rw [Assoc.lookup_insert_eq]
    split
    · rename_i heq
      rw [heq, hlookup]
      constructor
      · intro heq
        cases heq
        rw [hwaiting] at hadmitted
        cases hadmitted
      · intro heq
        cases heq
        rw [hwaiting] at hadmitted
        cases hadmitted
    · exact .rfl
  · intro reqId' state' hlookup'
    dsimp only at hlookup' ⊢
    rw [Assoc.lookup_insert_eq] at hlookup'
    split at hlookup'
    · rename_i heq
      cases hlookup'
      rw [heq, Function.update_self]
    · rename_i hne
      rw [Function.update_of_ne hne]
      exact h.prompts reqId' state' hlookup'
  · intro reqId'
    by_cases heq : reqId' = reqId
    · rw [heq]
      refine ⟨0, ?_, fun r hr hid => absurd hid (hruntime r hr)⟩
      change Tiles _ (s.chunksOf _) 0
      rw [hchunks]
      exact .nil
    · obtain ⟨n, htiles, hprogress⟩ := h.tiles reqId'
      refine ⟨n, ?_, hprogress⟩
      dsimp only
      rw [Function.update_of_ne heq]
      exact htiles
  · intro chunk hchunk
    obtain ⟨hlt, hadmitted⟩ := h.unseen chunk hchunk
    refine ⟨hlt, fun state' hlookup' => ?_⟩
    dsimp only at hlookup'
    rw [Assoc.lookup_insert_eq] at hlookup'
    split at hlookup'
    · rename_i heq
      cases hlookup'
      rw [heq] at hadmitted
      exact hadmitted state hlookup
    · exact hadmitted state' hlookup'

theorem Consistent.finished (h : s.Consistent config) (reqId : RequestId) :
    Consistent config { s with
      scheduler := (s.scheduler.finishRequest reqId).2
      runtime := s.runtime.filter fun r => r.reqId ≠ reqId } := by
  have htiles : ∀ reqId', ∃ n, Tiles (s.prompts reqId') (s.chunksOf reqId') n ∧
      ∀ r ∈ s.runtime.filter fun r => r.reqId ≠ reqId, r.reqId = reqId' →
        r.promptProgress = n := by
    intro reqId'
    obtain ⟨n, htiles, hprogress⟩ := h.tiles reqId'
    exact ⟨n, htiles, fun r hr => hprogress r (List.mem_filter.mp hr).1⟩
  unfold MetalScheduler.finishRequest MetalScheduler.removeRequest
  cases hlookup : s.scheduler.requests.lookup reqId with
  | none =>
    have hall : (s.runtime.filter fun r => r.reqId ≠ reqId) = s.runtime := by
      apply List.filter_eq_self.mpr
      intro r hr
      apply decide_eq_true
      rintro rfl
      obtain ⟨state, hsome, _⟩ := h.tracks.lookup hr
      rw [hlookup] at hsome
      cases hsome
    refine ⟨h.config, h.wellFormed, ?_, h.prompts, htiles, h.unseen⟩
    dsimp only
    rw [hall]
    exact h.tracks
  | some state =>
    have hcases : ∀ reqId' state', (s.scheduler.requests.erase reqId).lookup reqId' =
        some state' → s.scheduler.requests.lookup reqId' = some state' := by
      intro reqId' state' hlookup'
      rw [Assoc.lookup_erase_eq] at hlookup'
      split at hlookup'
      · cases hlookup'
      · exact hlookup'
    refine ⟨h.config, h.wellFormed.erase reqId, h.tracks.erase reqId _,
      fun reqId' state' hlookup' => h.prompts _ _ (hcases _ _ hlookup'), htiles, ?_⟩
    intro chunk hchunk
    obtain ⟨hlt, hadmitted⟩ := h.unseen chunk hchunk
    exact ⟨hlt, fun state' hlookup' => hadmitted state' (hcases _ _ hlookup')⟩

/-- A chunk from the position that the request has reached. -/
theorem Consistent.chunked (h : s.Consistent config) {t : MetalScheduler}
    {state : MetalRequestState} {chunkCap promptStart : Nat} {batch : Option MetalDecodeBatch}
    {sampled : RequestId → Token}
    (hlookup : s.scheduler.requests.lookup reqId = some state)
    (htiles : Tiles (s.prompts reqId) (s.chunksOf reqId) promptStart)
    (hstart : promptStart < state.promptTokens.length) (hcap : 0 < chunkCap)
    (hconfig : t.config = config) (hwellFormed : t.WellFormed)
    (hnext : t.nextReqId = s.scheduler.nextReqId)
    (hothers : ∀ reqId', reqId' ≠ reqId →
      t.requests.lookup reqId' = s.scheduler.requests.lookup reqId')
    (hadmitted : t.requests.lookup reqId = some { state with admitted := true })
    (honly : ∀ r ∈ s.runtime, r.phase = .prefilling → r.reqId = reqId)
    (hlength : (runChunk sampled (s.runtime.map (runDecode batch sampled))
      (chunkAt chunkCap promptStart state)).length ≤ config.maxRunningRequests) :
    Consistent config { s with
      scheduler := t
      runtime := runChunk sampled (s.runtime.map (runDecode batch sampled))
        (chunkAt chunkCap promptStart state)
      emitted := s.emitted ++ [chunkAt chunkCap promptStart state] } := by
  have hid : (chunkAt chunkCap promptStart state).reqId = reqId :=
    h.wellFormed.ids _ _ hlookup
  have hle : (chunkAt chunkCap promptStart state).promptEnd ≤
      (chunkAt chunkCap promptStart state).promptLen := Nat.min_le_right _ _
  refine ⟨hconfig, hwellFormed, ?_, ?_, ?_, ?_⟩
  · have hdecode : s.scheduler.Tracks (s.runtime.map (runDecode batch sampled)) :=
      h.tracks.decode
    apply hdecode.runChunk
    · rw [hid]
      exact hothers
    · rw [hid]
      exact ⟨_, hadmitted, rfl, rfl⟩
    · exact hle
    · intro r hr hphase
      obtain ⟨old, hold, rfl⟩ := List.mem_map.mp hr
      rw [runDecode_phase] at hphase
      rw [runDecode_reqId, hid]
      exact honly old hold hphase
    · rw [hconfig]
      exact hlength
  · intro reqId' state' hlookup'
    by_cases heq : reqId' = reqId
    · dsimp only at hlookup'
      rw [heq, hadmitted] at hlookup'
      cases hlookup'
      rw [heq]
      exact h.prompts reqId state hlookup
    · dsimp only at hlookup'
      rw [hothers _ heq] at hlookup'
      exact h.prompts reqId' state' hlookup'
  · intro reqId'
    unfold chunksOf
    dsimp only
    rw [List.filter_append]
    by_cases heq : reqId' = reqId
    · rw [heq, List.filter_cons, if_pos (decide_eq_true hid), List.filter_nil]
      have hprompt := h.prompts reqId state hlookup
      refine ⟨_, .snoc htiles ?_ ?_ ?_ ?_, ?_⟩
      · exact lt_min (Nat.lt_add_of_pos_right hcap) hstart
      · rw [hprompt]
        exact hle
      · rw [hprompt]
        rfl
      · rw [hprompt]
        rfl
      · intro r hr hrid
        rcases mem_runChunk hr with ⟨_, hne⟩ | ⟨old, rfl, _⟩
        · exact absurd (hrid.trans hid.symm) hne
        · exact run_promptProgress
    · obtain ⟨n, htiles', hprogress⟩ := h.tiles reqId'
      have hne : (chunkAt chunkCap promptStart state).reqId ≠ reqId' := by
        rw [hid]
        exact fun heq' => heq heq'.symm
      rw [List.filter_cons, if_neg (by simpa using hne), List.filter_nil, List.append_nil]
      refine ⟨n, htiles', ?_⟩
      intro r hr hrid
      rcases mem_runChunk hr with ⟨hold, _⟩ | ⟨old, rfl, hold⟩
      · obtain ⟨before, hbefore, rfl⟩ := List.mem_map.mp hold
        rw [runDecode_promptProgress]
        exact hprogress before hbefore (runDecode_reqId.symm.trans hrid)
      · exact absurd (hold.symm.trans (run_reqId.symm.trans hrid)) hne
  · intro chunk hchunk
    dsimp only at hchunk ⊢
    rw [hnext]
    by_cases heq : chunk.reqId = reqId
    · rw [heq, hadmitted]
      refine ⟨h.wellFormed.fresh _ _ hlookup, ?_⟩
      intro state' heq'
      cases heq'
      rfl
    · rw [hothers _ heq]
      rcases List.mem_append.mp hchunk with hold | hnew
      · exact h.unseen chunk hold
      · rw [List.mem_singleton.mp hnew] at heq
        exact absurd hid heq

theorem Consistent.idle (h : s.Consistent config) (batch : Option MetalDecodeBatch)
    (sampled : RequestId → Token) :
    Consistent config { s with
      runtime := s.runtime.map (runDecode batch sampled)
      emitted := s.emitted ++ [] } := by
  rw [List.append_nil]
  refine ⟨h.config, h.wellFormed, h.tracks.decode, h.prompts, ?_, h.unseen⟩
  intro reqId
  obtain ⟨n, htiles, hprogress⟩ := h.tiles reqId
  refine ⟨n, htiles, fun r hr hid => ?_⟩
  obtain ⟨before, hbefore, rfl⟩ := List.mem_map.mp hr
  rw [runDecode_promptProgress]
  exact hprogress before hbefore (runDecode_reqId.symm.trans hid)

/-- The state after a step, whatever the prefill part of it is. -/
theorem Consistent.stepped (h : s.Consistent config)
    {runtimeStates : List MetalRuntimeRequestState} (hstates : s.runtime.Perm runtimeStates)
    {rowIndex chunkCap : Nat} {rows : List LogicalPrefillRow} {t : MetalScheduler}
    (hprefilled : s.scheduler.Prefilled runtimeStates rowIndex chunkCap rows t)
    (decodeRows : List LogicalDecodeRow) (sampled : RequestId → Token) :
    Consistent config { s with
      scheduler := t
      runtime := (MetalScheduleStep.ofPlan ⟨decodeRows, rows⟩).execute sampled s.runtime
      emitted := s.emitted ++ (MetalScheduleStep.ofPlan ⟨decodeRows, rows⟩).prefill } := by
  cases hprefilled with
  | idle => exact h.idle _ sampled
  | @continued r state hr hphase hlookup hcap =>
    have hr := hstates.mem_iff.mpr hr
    obtain ⟨n, htiles, hprogress⟩ := h.tiles r.reqId
    rw [← hprogress r hr rfl] at htiles
    obtain ⟨state', hlookup', hadmitted⟩ := h.tracks.lookup hr
    rw [hlookup] at hlookup'
    cases hlookup'
    have hstart : r.promptProgress < state.promptTokens.length := by
      rcases h.tracks.progress r hr state hlookup with ⟨_, hlt⟩ | ⟨hdecoding, _⟩
      · exact hlt
      · rw [hphase] at hdecoding
        cases hdecoding
    refine h.chunked hlookup htiles hstart hcap h.config h.wellFormed rfl
      (fun _ _ => rfl) ?_ ?_ ?_
    · rw [hlookup, ← hadmitted]
    · intro r' hr' hphase'
      rw [h.tracks.prefilling r' hr' r hr hphase' hphase]
    · have hid : (chunkAt chunkCap r.promptProgress state).reqId = r.reqId :=
        h.wellFormed.ids _ _ hlookup
      rw [length_runChunk, MetalScheduler.decode_ids, hid, if_pos (List.mem_map_of_mem hr),
        List.length_map, ← h.config]
      exact h.tracks.running
  | @admitted rest reqId state hnone hroom hqueue hlookup hfirst hcap =>
    have hwaiting := hqueue.symm.subset List.mem_cons_self
    obtain ⟨state', hlookup', hstate⟩ := (h.wellFormed.waiting_iff reqId).mp hwaiting
    rw [hlookup] at hlookup'
    cases hlookup'
    obtain ⟨hchunks, hruntime⟩ : s.chunksOf reqId = [] ∧ _ := h.untouched
      (fun state' hlookup' => by rw [hlookup] at hlookup'; cases hlookup'; exact hstate)
      (fun hnone => by rw [hlookup] at hnone; cases hnone)
    have hqueued := hqueue.nodup h.wellFormed.queue
    obtain ⟨hreq, hrest⟩ := List.nodup_cons.mp hqueued
    have hnonempty := h.wellFormed.nonempty _ _ hlookup
    refine h.chunked hlookup ?_ (List.length_pos_of_ne_nil hnonempty) hcap h.config ?_
      rfl ?_ ?_ ?_ ?_
    · rw [hchunks]
      exact .nil
    · unfold MetalScheduler.afterAdmission
      refine h.wellFormed.update hlookup ?_ ?_ ?_ hrest ?_
      · rfl
      · rfl
      · exact hnonempty
      intro reqId'
      split
      · rename_i heq
        rw [heq]
        exact ⟨fun hin => absurd hin hreq, fun heq => by cases heq⟩
      · rename_i hne
        rw [hqueue.mem_iff, List.mem_cons, or_iff_right hne]
    · intro reqId' hne
      exact AList.lookup_insert_ne hne
    · exact AList.lookup_insert _
    · intro r hr hphase
      exact absurd hphase (hnone r (hstates.subset hr))
    · rw [← h.config]
      rw [← hstates.length_eq] at hroom
      rw [length_runChunk, List.length_map]
      split
      · exact hroom.le
      · exact hroom

theorem Consistent.step (h : s.Consistent config) {op : SystemOp} {t : System}
    (hstep : Step s op t) : t.Consistent config := by
  cases hstep with
  | @submit promptTokens maxTokens priority reqId scheduler hsubmit =>
    rcases s.scheduler.submit_cases promptTokens maxTokens priority with
      ⟨err, heq⟩ | ⟨hnonempty, heq⟩
    · rw [heq] at hsubmit
      cases hsubmit
    · rw [heq] at hsubmit
      cases hsubmit
      exact h.submitted hnonempty priority
  | @rejected promptTokens maxTokens priority err scheduler hsubmit =>
    rcases s.scheduler.submit_cases promptTokens maxTokens priority with
      ⟨err', heq⟩ | ⟨hnonempty, heq⟩
    · rw [heq] at hsubmit
      cases hsubmit
      exact h
    · rw [heq] at hsubmit
      cases hsubmit
  | @rewriteWaitingPrompt reqId promptTokens scheduler hwaiting hrewrite =>
    rcases s.scheduler.rewriteWaitingPrompt_cases reqId promptTokens with
      ⟨err, heq⟩ | ⟨hnonempty, state, hlookup, heq⟩
    · rw [heq] at hrewrite
      cases hrewrite
    · rw [heq] at hrewrite
      cases hrewrite
      unfold MetalScheduler.isWaiting at hwaiting
      rw [hlookup] at hwaiting
      exact h.rewritten hlookup ((Bool.not_eq_true' _).mp hwaiting) hnonempty
  | @notRewritten reqId promptTokens err scheduler hrewrite =>
    rcases s.scheduler.rewriteWaitingPrompt_cases reqId promptTokens with
      ⟨err', heq⟩ | ⟨_, state, _, heq⟩
    · rw [heq] at hrewrite
      cases hrewrite
      exact h
    · rw [heq] at hrewrite
      cases hrewrite
  | step hstates hstep =>
    obtain ⟨decodeRows, prefillRows, t, heq, _, _, _, hprefilled⟩ :=
      MetalScheduler.step_spec h.wellFormed (h.tracks.perm hstates)
    rw [heq] at hstep
    cases hstep
    exact h.stepped hstates hprefilled decodeRows _
  | finishRequest => exact h.finished _

end Steps

theorem Initial.consistent {config : MetalSchedulerConfig} {s : System}
    (h : Initial config s) : s.Consistent config := by
  obtain ⟨hnew, hruntime, hemitted⟩ := h
  obtain ⟨scheduler, runtime, prompts, emitted⟩ := s
  dsimp only at hnew hruntime hemitted
  rw [hruntime, hemitted]
  unfold MetalScheduler.new at hnew
  cases hvalid : config.validate with
  | error err =>
    rw [hvalid] at hnew
    cases hnew
  | ok =>
    rw [hvalid] at hnew
    cases hnew
    have hempty : ∀ reqId (state : MetalRequestState),
        (∅ : Assoc RequestId MetalRequestState).lookup reqId ≠ some state := by
      intro reqId state heq
      rw [AList.lookup_empty] at heq
      cases heq
    refine ⟨rfl, ⟨?_, ?_, ?_, ?_, rfl, List.nodup_nil, ?_⟩, ⟨List.nodup_nil, ?_, ?_, ?_, ?_⟩,
      ?_, ?_, ?_⟩
    · exact fun reqId state hlookup => absurd hlookup (hempty reqId state)
    · exact fun reqId state hlookup => absurd hlookup (hempty reqId state)
    · exact fun reqId state hlookup => absurd hlookup (hempty reqId state)
    · exact fun reqId state hlookup => absurd hlookup (hempty reqId state)
    · intro reqId
      refine ⟨fun hin => ?_, fun hex => ?_⟩
      · cases hin
      · obtain ⟨state, hlookup, _⟩ := hex
        exact absurd hlookup (hempty reqId state)
    · intro reqId
      refine ⟨fun hin => ?_, fun hex => ?_⟩
      · cases hin
      · obtain ⟨state, hlookup, _⟩ := hex
        exact absurd hlookup (hempty reqId state)
    · intro r hr
      cases hr
    · intro r hr
      cases hr
    · exact Nat.zero_le _
    · exact fun reqId state hlookup => absurd hlookup (hempty reqId state)
    · exact fun reqId => ⟨0, .nil, fun r hr => by cases hr⟩
    · intro chunk hchunk
      cases hchunk

/-! ## What holds in every run -/

/-- The running set is bounded, one request is prefilled at a time, and its chunks, like those of
every other request, tile the prompt from its start. -/
structure Sound (config : MetalSchedulerConfig) (s : System) : Prop where
  admitted : s.scheduler.runningLen ≤ config.maxRunningRequests
  prefilling : (s.runtime.filter fun r => r.phase = .prefilling).length ≤ 1
  tiles : ∀ reqId, ∃ n, Tiles (s.prompts reqId) (s.chunksOf reqId) n ∧
    ∀ r ∈ s.runtime, r.reqId = reqId → r.promptProgress = n ∧
      (r.phase = .decoding → n = (s.prompts reqId).length)

/-- The step keeps to the budget, decodes every decoding request once, and admits by priority and
arrival. -/
structure StepSound (config : MetalSchedulerConfig) (s : System) (out : MetalScheduleStep)
    (t : MetalScheduler) : Prop where
  budget : out.plan.decodeRows.length +
    (out.prefill.map fun chunk => chunk.inputTokens.length).sum ≤ config.maxBatchTokens
  decodes : ∀ r ∈ s.runtime, r.phase = .decoding →
    ∃ row, (out.plan.decodeRows.filter fun row => row.reqId = r.reqId) = [row] ∧
      r.lastToken = some row.inputToken ∧
      row.logicalKvOffset = (s.prompts r.reqId).length + r.generatedTokens - 1
  order : ∀ first ∈ s.scheduler.waiting, first ∉ t.waiting →
    ∀ other ∈ s.scheduler.waiting, other ≠ first → ∀ a b,
      s.scheduler.requests.lookup first = some a →
      s.scheduler.requests.lookup other = some b →
      b.priority.rank < a.priority.rank ∨
        (a.priority.rank = b.priority.rank ∧ a.arrivalOrder < b.arrivalOrder)

section Sound

variable {config : MetalSchedulerConfig} {s : System}

theorem Consistent.sound (h : s.Consistent config) : s.Sound config := by
  refine ⟨?_, ?_, ?_⟩
  · rw [MetalScheduler.runningLen_eq h.wellFormed h.tracks, ← h.config]
    exact h.tracks.running
  · have hnodup : (s.runtime.filter fun r => r.phase = .prefilling).Nodup :=
      h.tracks.nodup.of_map.filter _
    cases hlist : s.runtime.filter fun r => r.phase = .prefilling with
    | nil => exact Nat.zero_le 1
    | cons r rest =>
      cases rest with
      | nil => exact le_refl 1
      | cons r' rest =>
        rw [hlist] at hnodup
        have hmem : ∀ x ∈ r :: r' :: rest, x ∈ s.runtime ∧ x.phase = .prefilling := by
          intro x hx
          rw [← hlist] at hx
          exact ⟨(List.mem_filter.mp hx).1, of_decide_eq_true (List.mem_filter.mp hx).2⟩
        have hr := hmem r List.mem_cons_self
        have hr' := hmem r' (List.mem_cons_of_mem r List.mem_cons_self)
        have heq := h.tracks.prefilling r hr.1 r' hr'.1 hr.2 hr'.2
        rw [heq] at hnodup
        exact absurd List.mem_cons_self (List.nodup_cons.mp hnodup).1
  · intro reqId
    obtain ⟨n, htiles, hprogress⟩ := h.tiles reqId
    refine ⟨n, htiles, ?_⟩
    rintro r hr rfl
    refine ⟨hprogress r hr rfl, fun hphase => ?_⟩
    obtain ⟨state, hlookup, _⟩ := h.tracks.lookup hr
    rw [h.prompts _ _ hlookup, ← hprogress r hr rfl]
    rcases h.tracks.progress r hr state hlookup with ⟨hprefilling, _⟩ | ⟨_, heq, _⟩
    · rw [hphase] at hprefilling
      cases hprefilling
    · exact heq

theorem chunkRow_tokens (rowIndex chunkCap promptStart : Nat) (state : MetalRequestState) :
    (MetalScheduler.chunkRow rowIndex chunkCap promptStart state).inputTokens.length ≤
      chunkCap := by
  apply (List.length_take_le _ _).trans
  apply Nat.sub_le_of_le_add
  rw [Nat.add_comm]
  exact Nat.min_le_left _ _

theorem Consistent.stepSound (h : s.Consistent config)
    (hbudget : config.maxRunningRequests ≤ config.maxBatchTokens)
    {runtimeStates : List MetalRuntimeRequestState} (hstates : s.runtime.Perm runtimeStates) :
    ∃ out t, s.scheduler.step runtimeStates = some (out, t) ∧ s.StepSound config out t := by
  have hT := h.tracks.perm hstates
  obtain ⟨decodeRows, prefillRows, t, hstep, hlength, hnodup, hrows, hprefilled⟩ :=
    MetalScheduler.step_spec h.wellFormed hT
  refine ⟨_, t, hstep, ?_, ?_, ?_⟩
  · have hdecode : decodeRows.length ≤ config.maxBatchTokens := by
      rw [hlength]
      have hcount : MetalScheduler.countDecodeRuntime runtimeStates ≤ runtimeStates.length :=
        List.length_filter_le _ _
      rw [← h.config] at hbudget ⊢
      exact hcount.trans (hT.running.trans hbudget)
    rw [h.config] at hprefilled
    change decodeRows.length + _ ≤ _
    have hrow : ∀ promptStart state, decodeRows.length +
        (MetalScheduler.chunkRow decodeRows.length (config.maxBatchTokens - decodeRows.length)
          promptStart state).inputTokens.length ≤ config.maxBatchTokens := by
      intro promptStart state
      have htokens := chunkRow_tokens decodeRows.length
        (config.maxBatchTokens - decodeRows.length) promptStart state
      omega
    cases hprefilled with
    | idle => exact hdecode
    | @continued r state => exact hrow r.promptProgress state
    | @admitted rest reqId state => exact hrow 0 state
  · intro r hr hphase
    obtain ⟨row, hrow, hid, _, hlast, hoffset⟩ := hrows r (hstates.subset hr) hphase
    obtain ⟨state, hlookup, _⟩ := h.tracks.lookup hr
    have hsingle := filter_eq_singleton hnodup hrow
    rw [← hid] at hsingle
    refine ⟨row, hsingle, hlast, ?_⟩
    rw [hoffset, h.prompts _ _ hlookup]
    rcases h.tracks.progress r hr state hlookup with ⟨hprefilling, _⟩ | ⟨_, heq, hpos, _⟩
    · rw [hphase] at hprefilling
      cases hprefilling
    · rw [heq, Nat.add_sub_assoc hpos]
  · intro first hfirst hgone other hother hne a b ha hb
    cases hprefilled with
    | idle => exact absurd hfirst hgone
    | continued => exact absurd hfirst hgone
    | @admitted rest reqId state hnone hroom hqueue hlookup hleast =>
      have heq : first = reqId :=
        (List.mem_cons.mp (hqueue.subset hfirst)).resolve_right hgone
      rw [heq] at ha hne
      rw [hlookup] at ha
      cases ha
      rcases Prod.Lex.toLex_le_toLex.mp (hleast other hother b hb) with hlt | ⟨hrank, hle⟩
      · exact .inl hlt
      · refine .inr ⟨hrank, lt_of_le_of_ne hle fun harrival => hne ?_⟩
        -- The arrival order is the number of the request.
        rw [h.wellFormed.arrival _ _ hlookup, h.wellFormed.arrival _ _ hb] at harrival
        exact (congrArg RequestId.mk harrival).symm

/-- The chunk is the next one of the request: it starts where the request is, and is not empty. -/
structure NextChunk (chunk : MetalPrefillChunk) (reqId : RequestId) (progress : Nat) : Prop where
  reqId : chunk.reqId = reqId
  start : chunk.promptStart = progress
  nonempty : progress < chunk.promptEnd

/-- A step whose decode rows leave some of the budget emits the next chunk: of the request that is
being prefilled, or, without one, of a waiting request if there is room for it. -/
theorem Consistent.progresses (h : s.Consistent config)
    {runtimeStates : List MetalRuntimeRequestState} (hstates : s.runtime.Perm runtimeStates)
    {out : MetalScheduleStep} {t : MetalScheduler}
    (hstep : s.scheduler.step runtimeStates = some (out, t))
    (hfree : out.plan.decodeRows.length < config.maxBatchTokens) :
    (∀ r ∈ s.runtime, r.phase = .prefilling →
      ∃ chunk, out.prefill = [chunk] ∧ NextChunk chunk r.reqId r.promptProgress) ∧
    ((∀ r ∈ s.runtime, r.phase ≠ .prefilling) →
      s.runtime.length < config.maxRunningRequests → s.scheduler.waiting ≠ [] →
      ∃ chunk, out.prefill = [chunk] ∧ ∃ reqId ∈ s.scheduler.waiting, NextChunk chunk reqId 0) := by
  obtain ⟨decodeRows, prefillRows, t', hstep', -, -, -, hprefilled⟩ :=
    MetalScheduler.step_spec h.wellFormed (h.tracks.perm hstates)
  rw [hstep] at hstep'
  cases hstep'
  have hfree : decodeRows.length < config.maxBatchTokens := hfree
  rw [h.config] at hprefilled
  cases hprefilled with
  | idle hidle =>
    rcases hidle with hcap | ⟨hnone, hrest⟩
    · omega
    · refine ⟨fun r hr hphase => absurd hphase (hnone r (hstates.subset hr)),
        fun _ hroom hqueue => ?_⟩
      rcases hrest with hempty | hfull
      · exact absurd hempty hqueue
      · rw [h.config, ← hstates.length_eq] at hfull
        omega
  | @continued r state hr hphase hlookup hcap =>
    have hr := hstates.mem_iff.mpr hr
    have hlt : r.promptProgress < state.promptTokens.length := by
      rcases h.tracks.progress r hr state hlookup with ⟨_, hlt⟩ | ⟨hdecoding, _⟩
      · exact hlt
      · rw [hphase] at hdecoding
        cases hdecoding
    refine ⟨fun r' hr' hphase' => ?_, fun hnone => absurd hphase (hnone r hr)⟩
    rw [h.tracks.prefilling r' hr' r hr hphase' hphase]
    refine ⟨_, rfl, h.wellFormed.ids _ _ hlookup, rfl, ?_⟩
    exact lt_min (Nat.lt_add_of_pos_right hcap) hlt
  | @admitted rest reqId state hnone hroom hqueue hlookup hfirst hcap =>
    refine ⟨fun r hr hphase => absurd hphase (hnone r (hstates.subset hr)), fun _ _ _ => ?_⟩
    refine ⟨_, rfl, reqId, hqueue.symm.subset List.mem_cons_self, h.wellFormed.ids _ _ hlookup, rfl,
      ?_⟩
    exact lt_min (Nat.lt_add_of_pos_right hcap)
      (List.length_pos_of_ne_nil (h.wellFormed.nonempty _ _ hlookup))

end Sound

/-- In every run no step panics, the steps keep to the budget, and the chunks of every request
tile its prompt. -/
theorem prefills_once (config : MetalSchedulerConfig)
    (hbudget : config.maxRunningRequests ≤ config.maxBatchTokens) (s : System)
    (h : Reachable (Initial config) Step s) :
    s.Sound config ∧ ∀ runtimeStates, s.runtime.Perm runtimeStates →
      ∃ out t, s.scheduler.step runtimeStates = some (out, t) ∧ s.StepSound config out t := by
  have hconsistent : s.Consistent config :=
    h.invariant (fun _ hinit => hinit.consistent) fun _ _ _ hs hstep => hs.step hstep
  exact ⟨hconsistent.sound, fun _ hstates => hconsistent.stepSound hbudget hstates⟩

/-- In every run a step whose decode rows leave some of the budget moves a prompt on. -/
theorem emits_next_chunk {config : MetalSchedulerConfig} {s : System}
    (h : Reachable (Initial config) Step s) {runtimeStates : List MetalRuntimeRequestState}
    (hstates : s.runtime.Perm runtimeStates) {out : MetalScheduleStep} {t : MetalScheduler}
    (hstep : s.scheduler.step runtimeStates = some (out, t))
    (hfree : out.plan.decodeRows.length < config.maxBatchTokens)
    (hprompt : (∃ r ∈ s.runtime, r.phase = .prefilling) ∨
      s.runtime.length < config.maxRunningRequests ∧ s.scheduler.waiting ≠ []) :
    ∃ chunk, out.prefill = [chunk] ∧ chunk.promptStart < chunk.promptEnd := by
  have hconsistent : s.Consistent config :=
    h.invariant (fun _ hinit => hinit.consistent) fun _ _ _ hs hstep => hs.step hstep
  obtain ⟨hrunning, hwaiting⟩ := hconsistent.progresses hstates hstep hfree
  by_cases hphase : ∃ r ∈ s.runtime, r.phase = .prefilling
  · obtain ⟨r, hr, hphase⟩ := hphase
    obtain ⟨chunk, hout, hnext⟩ := hrunning r hr hphase
    exact ⟨chunk, hout, hnext.start ▸ hnext.nonempty⟩
  · obtain ⟨hroom, hqueue⟩ := hprompt.resolve_left hphase
    obtain ⟨chunk, hout, reqId, -, hnext⟩ :=
      hwaiting (fun r hr heq => hphase ⟨r, hr, heq⟩) hroom hqueue
    exact ⟨chunk, hout, hnext.start ▸ hnext.nonempty⟩

/-! ## One request -/

def tightConfig : MetalSchedulerConfig := { maxRunningRequests := 2, maxBatchTokens := 4 }

/-- The scheduler with one waiting request, whose prompt does not fit into one chunk. -/
def oneRequest (admitted : Bool) : MetalScheduler :=
  { config := tightConfig
    nextReqId := 1
    nextArrivalOrder := 1
    waiting := if admitted then [] else [⟨0⟩]
    requests := (∅ : Assoc RequestId MetalRequestState).insert ⟨0⟩
      ⟨⟨0⟩, [1, 2, 3, 4, 5], .normal, 0, admitted⟩ }

def chunked : System :=
  { scheduler := oneRequest true
    runtime := [⟨⟨0⟩, .prefilling, 4, 0, none⟩]
    prompts := Function.update (fun _ => []) ⟨0⟩ [1, 2, 3, 4, 5]
    emitted := [⟨⟨0⟩, [1, 2, 3, 4], 0, 4, 5⟩] }

theorem chunked_reachable : Reachable (Initial tightConfig) Step chunked := by
  refine ⟨⟨⟨tightConfig, 0, 0, [], ∅⟩, [], fun _ => [], []⟩,
    [.submit [1, 2, 3, 4, 5] 8 .normal, .step [] fun _ => 9], ⟨rfl, rfl, rfl⟩, ?_⟩
  apply Run.cons (t := ⟨oneRequest false, [], Function.update (fun _ => []) ⟨0⟩ [1, 2, 3, 4, 5],
    []⟩)
  · exact .submit rfl
  · have hstep : (oneRequest false).step [] = some (.ofPlan ⟨[], [MetalScheduler.chunkRow 0 4 0
        ⟨⟨0⟩, [1, 2, 3, 4, 5], .normal, 0, false⟩]⟩, oneRequest true) := rfl
    exact Run.cons (Step.step (List.Perm.refl []) hstep) (.nil _)

theorem prefills_once_chunked :
    chunked.Sound tightConfig ∧ ∀ runtimeStates, chunked.runtime.Perm runtimeStates →
      ∃ out t, chunked.scheduler.step runtimeStates = some (out, t) ∧
        chunked.StepSound tightConfig out t :=
  prefills_once tightConfig (by decide) chunked chunked_reachable

end System

end Arle.Backend.Metal
