import Arle.Scheduler.Cuda.StepPlan

/-!
# The logical plan launches the step plan

A reservation that is made again from the tokens of its row is the same reservation: a chunk that
takes the tail of a prompt leaves nothing, and one that does not leaves more than a tail. So the
logical plan of a step gives back the prefill rows of its plan, and the launch by way of it is that
of the plan.
-/

namespace Arle.Scheduler.Cuda.Execution

/-! ## Reservations -/

theorem coalesce_le (remaining cap limit : Nat) :
    coalesceTinyPrefillTail remaining cap limit ≤ remaining := by
  unfold coalesceTinyPrefillTail
  dsimp only
  split
  · exact Nat.min_le_left _ _
  · split
    · exact Nat.le_refl _
    · exact Nat.min_le_left _ _

theorem coalesce_pos {remaining cap : Nat} (hremaining : remaining ≠ 0) (hcap : cap ≠ 0)
    (limit : Nat) : coalesceTinyPrefillTail remaining cap limit ≠ 0 := by
  unfold coalesceTinyPrefillTail
  dsimp only
  split
  · omega
  · split <;> omega

/-- A cap that is a chunk already gives this chunk. -/
theorem coalesce_coalesce (remaining : Nat) {cap : Nat} (hcap : cap ≠ 0) (limit : Nat) :
    coalesceTinyPrefillTail remaining (coalesceTinyPrefillTail remaining cap limit) limit =
      coalesceTinyPrefillTail remaining cap limit := by
  have hwhole : coalesceTinyPrefillTail remaining remaining limit = remaining := by
    unfold coalesceTinyPrefillTail
    dsimp only
    rw [Nat.min_self, if_pos (.inr (Nat.le_refl _))]
  rcases Nat.lt_or_ge cap remaining with hlt | hge
  · have hmin : min remaining cap = cap := Nat.min_eq_right (Nat.le_of_lt hlt)
    have hsplit : coalesceTinyPrefillTail remaining cap limit =
        if remaining - cap ≤ max limit 1 then remaining else cap := by
      unfold coalesceTinyPrefillTail
      dsimp only
      rw [hmin, if_neg (by omega)]
    rw [hsplit]
    split
    · exact hwhole
    · rename_i htail
      rw [hsplit, if_neg htail]
  · have hall : coalesceTinyPrefillTail remaining cap limit = remaining := by
      unfold coalesceTinyPrefillTail
      dsimp only
      rw [Nat.min_eq_left hge, if_pos (.inr (Nat.le_refl _))]
    rw [hall, hwhole]

namespace State

variable {s s' : State} {slotIdx cap : Nat} {reservation : PrefillReservation}

/-- What a reservation says of the request it is for. -/
theorem cappedPrefillReservation_some
    (h : s.cappedPrefillReservation slotIdx cap = some reservation) : ∃ remaining,
    s.prefillRemaining slotIdx = some remaining ∧ remaining ≠ 0 ∧ cap ≠ 0 ∧
      reservation.prefillTokens = coalesceTinyPrefillTail remaining cap (max s.pageSize 1) := by
  unfold cappedPrefillReservation at h
  split at h
  · cases h
  rename_i hcap
  split at h
  · cases h
  rename_i remaining hremaining
  split at h
  · cases h
  rename_i hne
  cases h
  exact ⟨remaining, hremaining, hne, hcap, rfl⟩

theorem cappedPrefillReservation_again
    (h : s.cappedPrefillReservation slotIdx cap = some reservation) :
    s.cappedPrefillReservation slotIdx reservation.prefillTokens = some reservation := by
  obtain ⟨remaining, hremaining, hne, hcap, htokens⟩ := cappedPrefillReservation_some h
  have hpos := coalesce_pos hne hcap (max s.pageSize 1)
  have hagain := coalesce_coalesce remaining hcap (max s.pageSize 1)
  rw [← h, htokens]
  unfold cappedPrefillReservation
  rw [hremaining, if_neg hcap, if_neg hpos]
  dsimp only
  rw [if_neg hne, if_neg hne, hagain]

theorem prefillRemaining_eq_some {remaining : Nat}
    (h : s.prefillRemaining slotIdx = some remaining) : ∃ req effectiveTokens progress,
    s.request slotIdx = some req ∧ req.closed = false ∧
      req.phase = .prefilling effectiveTokens progress ∧
      remaining = effectiveTokens.length - progress := by
  unfold prefillRemaining at h
  split at h
  · rename_i req hreq
    split at h
    · cases h
    rename_i hclosed
    split at h
    · rename_i effectiveTokens progress hphase
      cases h
      exact ⟨req, effectiveTokens, progress, hreq, by simpa using hclosed, hphase, rfl⟩
    · cases h
  · cases h

/-! ## Finished slots -/

theorem request_finish (i : Nat) : (s.finishSlotClientClosed slotIdx).request i =
    if slotIdx = i then (s.request i).map fun req => { req with phase := .finished }
    else s.request i := by
  unfold request finishSlotClientClosed
  dsimp only
  rw [List.getElem?_modify]
  by_cases h : slotIdx = i
  · simp only [if_pos h]
    cases s.active[i]? <;> rfl
  · simp only [if_neg h]
    cases s.active[i]? <;> rfl

/-- A slot that is finished as its client has gone away leaves the requests of others as they
are. -/
theorem request_finish_of_open (hclosed : (s.request slotIdx).any fun req => req.closed)
    {i : Nat} {req : ActiveRequest} (hreq : s.request i = some req) (hopen : req.closed = false) :
    (s.finishSlotClientClosed slotIdx).request i = some req := by
  have hne : slotIdx ≠ i := by
    rintro rfl
    rw [hreq, Option.any_some, hopen] at hclosed
    cases hclosed
  rw [request_finish, if_neg hne, hreq]

/-- What plans and launches read of the state, on requests whose clients are there. -/
structure Keeps (s s' : State) : Prop where
  config : s'.config = s.config
  model : s'.model = s.model
  pageSize : s'.pageSize = s.pageSize
  deferred : s'.deferredDecodeEmit = s.deferredDecodeEmit
  request : ∀ {i req}, s.request i = some req → req.closed = false → s'.request i = some req
  gate : ∀ {id slot}, s'.emitGateWaiting id = some slot → s.emitGateWaiting id = some slot
  running : ∀ {i}, i ∈ s.runningBatch → s.slotIsRunnableDecode i → i ∈ s'.runningBatch

theorem Keeps.refl (s : State) : Keeps s s :=
  ⟨rfl, rfl, rfl, rfl, fun h _ => h, id, fun h _ => h⟩

theorem runnable_request {i : Nat} (h : s.slotIsRunnableDecode i) : ∃ req,
    s.request i = some req ∧ req.closed = false ∧ req.phase = .decoding := by
  unfold slotIsRunnableDecode at h
  rw [Bool.and_eq_true, Bool.and_eq_true] at h
  obtain ⟨⟨hdecoding, -⟩, -⟩ := h
  cases hreq : s.request i with
  | none =>
    rw [hreq] at hdecoding
    cases hdecoding
  | some req =>
    rw [hreq, Option.any_some] at hdecoding
    unfold ActiveRequest.isDecoding at hdecoding
    split at hdecoding
    · rename_i hphase
      exact ⟨req, rfl, by simpa using hdecoding, hphase⟩
    · cases hdecoding

theorem Keeps.runnable (h : Keeps s s') {i : Nat} (hi : s.slotIsRunnableDecode i) :
    s'.slotIsRunnableDecode i := by
  obtain ⟨req, hreq, hopen, hphase⟩ := runnable_request hi
  have hreq' := h.request hreq hopen
  unfold slotIsRunnableDecode at hi ⊢
  rw [Bool.and_eq_true, Bool.and_eq_true, Bool.not_eq_true', Bool.not_eq_true'] at hi ⊢
  obtain ⟨⟨hdecoding, hgate⟩, hmax⟩ := hi
  refine ⟨⟨?_, ?_⟩, ?_⟩
  · rwa [hreq', ← hreq]
  · unfold slotIsEmitGated at hgate ⊢
    rw [hreq, Option.any_some, beq_eq_false_iff_ne] at hgate
    rw [hreq', Option.any_some, beq_eq_false_iff_ne]
    exact fun hslot => hgate (h.gate hslot)
  · unfold deferredDecodeWouldReachMax at hmax ⊢
    rwa [h.deferred, hreq', ← hreq]

theorem Keeps.trans {s'' : State} (h : Keeps s s') (h' : Keeps s' s'') : Keeps s s'' where
  config := h'.config.trans h.config
  model := h'.model.trans h.model
  pageSize := h'.pageSize.trans h.pageSize
  deferred := h'.deferred.trans h.deferred
  request hreq hopen := h'.request (h.request hreq hopen) hopen
  gate hslot := h.gate (h'.gate hslot)
  running hi hrunnable := h'.running (h.running hi hrunnable) (h.runnable hrunnable)

theorem keeps_finish (hclosed : (s.request slotIdx).any fun req => req.closed) :
    Keeps s (s.finishSlotClientClosed slotIdx) where
  config := rfl
  model := rfl
  pageSize := rfl
  deferred := rfl
  request hreq hopen := request_finish_of_open hclosed hreq hopen
  gate {id slot} hslot := by
    unfold finishSlotClientClosed at hslot
    cases hreq : s.request slotIdx with
    | none =>
      rw [hreq] at hslot
      exact hslot
    | some req =>
      rw [hreq] at hslot
      dsimp only at hslot
      by_cases hid : id = req.id
      · rw [hid, Function.update_self] at hslot
        cases hslot
      · rwa [Function.update_of_ne hid] at hslot
  running {i} hi hrunnable := by
    obtain ⟨req, hreq, hopen, -⟩ := runnable_request hrunnable
    have hne : i ≠ slotIdx := by
      rintro rfl
      rw [hreq, Option.any_some, hopen] at hclosed
      cases hclosed
    exact List.mem_filter.mpr ⟨hi, by simpa using hne⟩

theorem keeps_dequeue : Keeps s (s.dequeuePrefill slotIdx) :=
  ⟨rfl, rfl, rfl, rfl, fun h _ => h, id, fun h _ => h⟩

/-- A reservation depends on what is kept. -/
theorem Keeps.capped (h : Keeps s s')
    (hreservation : s.cappedPrefillReservation slotIdx cap = some reservation) :
    s'.cappedPrefillReservation slotIdx cap = some reservation := by
  obtain ⟨remaining, hremaining, -⟩ := cappedPrefillReservation_some hreservation
  obtain ⟨req, effectiveTokens, progress, hreq, hopen, -⟩ := prefillRemaining_eq_some hremaining
  have hreq' := h.request hreq hopen
  rw [← hreservation]
  unfold cappedPrefillReservation prefillRemaining remainingDecodeReservationTokens
  rw [hreq', hreq, h.pageSize]

/-! ## States between ticks -/

/-- What the scheduler keeps up: a request has an id of its own, it decodes only after its first
token, a slot is queued once for its prefill, and what is prefilled is a suffix of the prompt. -/
structure Ordered (s : State) : Prop where
  ids : ∀ {i j req req'}, s.request i = some req → s.request j = some req' → req.id = req'.id →
    i = j
  started : ∀ {i req}, s.request i = some req → req.phase = .decoding → req.generatedTokens ≠ []
  queue : s.prefillQueue.Nodup
  suffix : ∀ {i req effectiveTokens progress}, s.request i = some req →
    req.phase = .prefilling effectiveTokens progress → effectiveTokens <:+ req.promptTokens

theorem Ordered.finish (h : s.Ordered) : (s.finishSlotClientClosed slotIdx).Ordered := by
  have hold : ∀ {i req}, (s.finishSlotClientClosed slotIdx).request i = some req →
      ∃ old, s.request i = some old ∧ req.id = old.id ∧
        (req = old ∨ req.phase = .finished) := by
    intro i req hreq
    rw [request_finish] at hreq
    split at hreq
    · obtain ⟨old, hold, rfl⟩ := Option.map_eq_some_iff.mp hreq
      exact ⟨old, hold, rfl, .inr rfl⟩
    · exact ⟨req, hreq, rfl, .inl rfl⟩
  refine ⟨fun hi hj hid => ?_, fun hi hphase => ?_, h.queue.filter _, fun hi hphase => ?_⟩
  · obtain ⟨old, hold₁, hid₁, -⟩ := hold hi
    obtain ⟨old', hold₂, hid₂, -⟩ := hold hj
    exact h.ids hold₁ hold₂ (hid₁.symm.trans (hid.trans hid₂))
  · obtain ⟨old, hold₁, -, rfl | hfinished⟩ := hold hi
    · exact h.started hold₁ hphase
    · cases hfinished.symm.trans hphase
  · obtain ⟨old, hold₁, -, rfl | hfinished⟩ := hold hi
    · exact h.suffix hold₁ hphase
    · cases hfinished.symm.trans hphase

theorem Ordered.dequeue (h : s.Ordered) : (s.dequeuePrefill slotIdx).Ordered :=
  ⟨h.ids, h.started, h.queue.filter _, h.suffix⟩

/-! ## Candidates -/

/-- The candidate has the reservation that the state makes for its slot under some cap. -/
def Reserved (s : State) (candidate : PrefillCandidate) : Prop :=
  ∃ cap, s.cappedPrefillReservation candidate.slotIdx cap = some candidate.reservation

theorem Keeps.reserved (h : Keeps s s') {candidate : PrefillCandidate}
    (hreserved : s.Reserved candidate) : s'.Reserved candidate := by
  obtain ⟨cap, hcap⟩ := hreserved
  exact ⟨cap, h.capped hcap⟩

/-- The loop that collects the candidates keeps what plans read, and makes its reservations on
the state that it ends in. -/
theorem collectLoop_keeps (budget : PrefillBudget) (slots : List Nat) {s : State}
    {queued : List PrefillCandidate} (hs : s.Ordered) (hqueued : ∀ c ∈ queued, s.Reserved c) :
    Keeps s (collectLoop budget slots s queued).1 ∧
      (collectLoop budget slots s queued).1.Ordered ∧
      (∀ c ∈ (collectLoop budget slots s queued).2,
        (collectLoop budget slots s queued).1.Reserved c) ∧
      ∃ taken, taken.Sublist slots ∧ (collectLoop budget slots s queued).2.map
        PrefillCandidate.slotIdx = queued.map PrefillCandidate.slotIdx ++ taken := by
  induction slots generalizing s queued with
  | nil => exact ⟨.refl s, hs, hqueued, [], .refl _, (List.append_nil _).symm⟩
  | cons slotIdx rest ih =>
    rw [collectLoop]
    split
    · rename_i hclosed
      have hkeeps := keeps_finish hclosed
      obtain ⟨hrest, hordered, hreserved, taken, htaken, hslots⟩ :=
        ih hs.finish fun c hc => hkeeps.reserved (hqueued c hc)
      exact ⟨hkeeps.trans hrest, hordered, hreserved, taken, htaken.cons _, hslots⟩
    · split
      · have hkeeps : Keeps s (s.dequeuePrefill slotIdx) := keeps_dequeue
        obtain ⟨hrest, hordered, hreserved, taken, htaken, hslots⟩ :=
          ih hs.dequeue fun c hc => hkeeps.reserved (hqueued c hc)
        exact ⟨hkeeps.trans hrest, hordered, hreserved, taken, htaken.cons _, hslots⟩
      · rename_i reservation hreservation
        have hqueued' : ∀ c ∈ queued ++ [⟨slotIdx, reservation⟩], s.Reserved c := by
          intro c hc
          rcases List.mem_append.mp hc with hc | hc
          · exact hqueued c hc
          · rw [List.mem_singleton.mp hc]
            exact ⟨_, hreservation⟩
        obtain ⟨hrest, hordered, hreserved, taken, htaken, hslots⟩ := ih hs hqueued'
        refine ⟨hrest, hordered, hreserved, slotIdx :: taken, htaken.cons_cons _, ?_⟩
        rw [hslots, List.map_append, List.append_assoc]
        rfl

theorem selectLoop_sublist (budget : PrefillBudget) (candidates : List PrefillCandidate) :
    (selectLoop budget candidates).Sublist candidates := by
  induction candidates generalizing budget with
  | nil => exact .refl _
  | cons candidate rest ih =>
    rw [selectLoop]
    split
    · exact (ih _).cons_cons _
    · exact (ih _).cons _

/-- The candidates are scored in their order, so the sort leaves them there. -/
theorem selectPrefillCandidates_score (budget : PrefillBudget)
    (candidates : List PrefillCandidate) :
    selectPrefillCandidates budget (scorePrefillCandidates candidates) =
      selectLoop budget candidates := by
  have hsorted : (scorePrefillCandidates candidates).Pairwise
      fun a b => a.queueRank ≤ b.queueRank := by
    have hranks : (candidates.zipIdx.map Prod.snd).Pairwise (· ≤ ·) := by
      rw [List.zipIdx_map_snd]
      exact (List.pairwise_lt_range').imp Nat.le_of_lt
    unfold scorePrefillCandidates
    rw [List.pairwise_map] at hranks ⊢
    exact hranks
  unfold selectPrefillCandidates
  rw [hsorted.insertionSort_eq, scorePrefillCandidates, List.map_map]
  change selectLoop budget (candidates.zipIdx.map Prod.fst) = _
  rw [List.zipIdx_map_fst]

/-! ## Rows -/

/-- The row of a candidate: the next tokens of the part of the prompt that is not prefilled yet, at
their positions in the prompt. -/
def RowOf (s : State) (candidate : PrefillCandidate) (row : LogicalPrefillRow) : Prop :=
  ∃ req effectiveTokens progress, s.request candidate.slotIdx = some req ∧
    req.phase = .prefilling effectiveTokens progress ∧ row.reqId = req.id ∧
    row.promptLen = req.promptTokens.length ∧
    req.promptTokens.drop row.promptStart = effectiveTokens.drop progress ∧
    row.promptStart = req.promptTokens.length - effectiveTokens.length + progress ∧
    row.promptEnd = row.promptStart + candidate.reservation.prefillTokens ∧
    row.promptEnd ≤ req.promptTokens.length ∧
    row.inputTokens = (req.promptTokens.drop row.promptStart).take (row.promptEnd - row.promptStart) ∧
    row.logicalKvStart = row.promptStart ∧ row.logicalKvEnd = row.promptEnd

theorem logicalPrefillRow_eq (hs : s.Ordered) {candidate : PrefillCandidate}
    (hreserved : s.Reserved candidate) (rowIndex : Nat) : ∃ row,
    s.logicalPrefillRow candidate rowIndex = some row ∧ s.RowOf candidate row := by
  obtain ⟨cap, hcap⟩ := hreserved
  obtain ⟨remaining, hremaining, hne, hcap', htokens⟩ := cappedPrefillReservation_some hcap
  obtain ⟨req, effectiveTokens, progress, hreq, -, hphase, rfl⟩ :=
    prefillRemaining_eq_some hremaining
  have hle := coalesce_le (effectiveTokens.length - progress) cap (max s.pageSize 1)
  have hpos := coalesce_pos hne hcap' (max s.pageSize 1)
  rw [← htokens] at hle hpos
  obtain ⟨front, hprompt⟩ := hs.suffix hreq hphase
  have hlength : req.promptTokens.length = front.length + effectiveTokens.length := by
    rw [← hprompt, List.length_append]
  have hbase : req.promptTokens.length - effectiveTokens.length = front.length := by omega
  have hend : min (progress + candidate.reservation.prefillTokens) effectiveTokens.length =
      progress + candidate.reservation.prefillTokens := Nat.min_eq_left (by omega)
  have hdrop : req.promptTokens.drop (front.length + progress) = effectiveTokens.drop progress := by
    rw [← hprompt, ← List.drop_drop, List.drop_left]
  refine ⟨⟨rowIndex, req.id, (effectiveTokens.drop progress).take
      candidate.reservation.prefillTokens, front.length + progress,
      front.length + (progress + candidate.reservation.prefillTokens), req.promptTokens.length,
      front.length + progress, front.length + (progress + candidate.reservation.prefillTokens)⟩,
    ?_, req, effectiveTokens, progress, hreq, hphase, rfl, rfl, hdrop, ?_, ?_, ?_, ?_, rfl, rfl⟩
  · unfold logicalPrefillRow
    rw [hreq]
    dsimp only
    rw [hphase]
    dsimp only
    rw [hend, if_neg (by omega), hbase, Nat.add_sub_cancel_left]
  · dsimp only
    rw [hbase]
  · dsimp only
    omega
  · dsimp only
    omega
  · dsimp only
    rw [hdrop, show front.length + (progress + candidate.reservation.prefillTokens) -
      (front.length + progress) = candidate.reservation.prefillTokens by omega]

theorem logicalPrefillRows_forall₂ (hs : s.Ordered) {candidates : List PrefillCandidate}
    (hreserved : ∀ c ∈ candidates, s.Reserved c) (rowIndexStart : Nat) :
    List.Forall₂ s.RowOf candidates
      (s.logicalPrefillRowsForCandidates candidates rowIndexStart) := by
  have hloop : ∀ step : List LogicalPrefillRow → PrefillCandidate → List LogicalPrefillRow,
      (∀ rows candidate row, s.logicalPrefillRow candidate (rowIndexStart + rows.length) =
        some row → step rows candidate = rows ++ [row]) →
      ∀ (rest done : List PrefillCandidate) (rows : List LogicalPrefillRow),
        (∀ c ∈ rest, s.Reserved c) → List.Forall₂ s.RowOf done rows →
          List.Forall₂ s.RowOf (done ++ rest) (rest.foldl step rows) := by
    intro step hstep rest
    induction rest with
    | nil =>
      intro done rows _ hrows
      rwa [List.append_nil]
    | cons candidate rest ih =>
      intro done rows hrest hrows
      obtain ⟨row, hrow, hof⟩ := logicalPrefillRow_eq hs (hrest candidate List.mem_cons_self)
        (rowIndexStart + rows.length)
      rw [List.foldl_cons, hstep _ _ _ hrow, List.append_cons]
      exact ih _ _ (fun c hc => hrest c (List.mem_cons_of_mem _ hc))
        (List.rel_append hrows (.cons hof .nil))
  unfold logicalPrefillRowsForCandidates
  exact hloop _ (fun _ _ _ hrow => by rw [hrow]) candidates [] [] hreserved .nil

theorem slotForRequestId_eq (hs : s.Ordered) {req : ActiveRequest}
    (hreq : s.request slotIdx = some req) : s.slotForRequestId req.id = some slotIdx := by
  have hactive : s.active[slotIdx]? = some (some req) := by
    unfold request at hreq
    cases hslot : s.active[slotIdx]? with
    | none =>
      rw [hslot] at hreq
      cases hreq
    | some entry =>
      rw [hslot] at hreq
      exact congrArg some hreq
  obtain ⟨hlt, hget⟩ := List.getElem?_eq_some_iff.mp hactive
  unfold slotForRequestId
  rw [List.findIdx?_eq_some_iff_getElem]
  refine ⟨hlt, by rw [hget, Option.any_some, beq_self_eq_true], fun j hj hid => ?_⟩
  cases hother : s.active[j] with
  | none =>
    rw [hother] at hid
    cases hid
  | some other =>
    rw [hother, Option.any_some, beq_iff_eq] at hid
    have hreq' : s.request j = some other := by
      unfold request
      rw [List.getElem?_eq_getElem (Nat.lt_trans hj hlt), hother]
      rfl
    exact absurd (hs.ids hreq' hreq hid) (Nat.ne_of_lt hj)

/-- A row gives back the candidate that it is of. -/
theorem candidate_of_row (hs : s.Ordered) {candidate : PrefillCandidate} {row : LogicalPrefillRow}
    (hreserved : s.Reserved candidate) (hrow : s.RowOf candidate row) :
    ((s.slotForRequestId row.reqId).bind fun slotIdx =>
      (s.cappedPrefillReservation slotIdx row.inputTokens.length).map fun reservation =>
        ⟨slotIdx, reservation⟩) = some candidate := by
  obtain ⟨req, effectiveTokens, progress, hreq, -, hid, -, -, -, hend, hle, htokens, -⟩ := hrow
  obtain ⟨cap, hcap⟩ := hreserved
  have hlength : row.inputTokens.length = candidate.reservation.prefillTokens := by
    rw [htokens, List.length_take, List.length_drop]
    omega
  rw [hid, slotForRequestId_eq hs hreq, hlength, Option.bind_some,
    cappedPrefillReservation_again hcap]
  rfl

theorem prefillCandidates_of_rows (hs : s.Ordered) {candidates : List PrefillCandidate}
    (hreserved : ∀ c ∈ candidates, s.Reserved c) {logicalPlan : LogicalServePlan}
    (hrows : List.Forall₂ s.RowOf candidates logicalPlan.prefillRows) :
    s.prefillCandidatesFromLogicalPlan logicalPlan = candidates := by
  unfold prefillCandidatesFromLogicalPlan
  generalize logicalPlan.prefillRows = rows at hrows
  induction hrows with
  | nil => rfl
  | cons hrow _ ih =>
    rw [List.filterMap_cons, candidate_of_row hs (hreserved _ List.mem_cons_self) hrow]
    exact congrArg _ (ih fun c hc => hreserved c (List.mem_cons_of_mem _ hc))

theorem decodeRows_ne_nil (hs : s.Ordered) {i : Nat} (hi : i ∈ s.runningBatch)
    (hrunnable : s.slotIsRunnableDecode i) : s.logicalDecodeRowsForCurrentBatch ≠ [] := by
  obtain ⟨req, hreq, -, hphase⟩ := runnable_request hrunnable
  obtain ⟨inputToken, htoken⟩ := Option.isSome_iff_exists.mp
    (List.getLast?_isSome.mpr (hs.started hreq hphase))
  have hloop : ∀ step : List LogicalDecodeRow → Nat → List LogicalDecodeRow,
      (∀ rows slotIdx, rows ≠ [] → step rows slotIdx ≠ []) → (∀ rows, step rows i ≠ []) →
      ∀ (slots : List Nat) (rows : List LogicalDecodeRow), rows ≠ [] ∨ i ∈ slots →
        slots.foldl step rows ≠ [] := by
    intro step hkeep hadd slots
    induction slots with
    | nil =>
      rintro rows (hne | hmem)
      · exact hne
      · exact absurd hmem List.not_mem_nil
    | cons slotIdx slots ih =>
      intro rows hor
      rw [List.foldl_cons]
      refine ih _ ?_
      rcases hor with hne | hmem
      · exact .inl (hkeep rows slotIdx hne)
      · rcases List.mem_cons.mp hmem with rfl | hmem
        · exact .inl (hadd rows)
        · exact .inr hmem
  unfold logicalDecodeRowsForCurrentBatch
  refine hloop _ (fun rows slotIdx hne => ?_) (fun rows => ?_) s.runningBatch [] (.inr hi)
  · split
    · split
      · exact hne
      · split
        · exact hne
        · exact List.append_ne_nil_of_left_ne_nil hne _
    · exact hne
  · rw [if_pos hrunnable, hreq]
    dsimp only
    rw [htoken]
    exact List.append_ne_nil_of_right_ne_nil _ (List.cons_ne_nil _ _)

/-! ## The plan and its launch -/

/-- A plan that fits a state and its prefill rows: it has decode rows only if some slot is runnable,
it has prefill rows if it is for them, and mixes them if the model can. -/
def Fits (s : State) (candidates : List PrefillCandidate) : StepPlan → Prop
  | .idle => True
  | .decode | .specDecode => ∃ i ∈ s.runningBatch, s.slotIsRunnableDecode i
  | .prefill cs => cs = candidates ∧ cs ≠ []
  | .split cs => cs = candidates ∧ cs ≠ [] ∧ s.mixedAvailable = false ∧
      ∃ i ∈ s.runningBatch, s.slotIsRunnableDecode i
  | .mixed cs => cs = candidates ∧ cs ≠ [] ∧ s.mixedAvailable = true ∧
      ∃ i ∈ s.runningBatch, s.slotIsRunnableDecode i

theorem fits_route {candidates : List PrefillCandidate} {plan : StepPlan}
    (h : s.Fits candidates plan) (spec : Bool) : s.Fits candidates (routeSpecPlan spec plan) := by
  cases plan <;> try exact h
  cases spec <;> exact h

theorem fits_decodePlan (candidates : List PrefillCandidate)
    (hrunnable : ∃ i ∈ s.runningBatch, s.slotIsRunnableDecode i) :
    s.Fits candidates (s.decodePlan candidates) := by
  unfold decodePlan
  split
  · exact hrunnable
  · rename_i hempty
    have hne : candidates ≠ [] := fun h => hempty (List.isEmpty_iff.mpr h)
    split
    · rename_i hmixed
      exact ⟨rfl, hne, hmixed, hrunnable⟩
    · rename_i hmixed
      split
      · exact ⟨rfl, hne⟩
      · exact ⟨rfl, hne, Bool.eq_false_of_not_eq_true hmixed, hrunnable⟩

/-- What a plan is made of: its prefill rows are reserved in the state that the planning leaves,
each slot once. -/
theorem planStep_spec (hs : s.Ordered) {plan : StepPlan} (hplan : s.planStep = (s', plan)) :
    s'.Ordered ∧ ∃ candidates, (∀ c ∈ candidates, s'.Reserved c) ∧
      (candidates.map PrefillCandidate.slotIdx).Nodup ∧ s'.Fits candidates plan := by
  have hnone : ∀ c ∈ ([] : List PrefillCandidate), s.Reserved c := fun _ h => by cases h
  obtain ⟨hkeeps, hordered, hreserved, taken, htaken, hslots⟩ :=
    collectLoop_keeps (s.prefillBudget s.runnableDecodeSlots) s.prefillQueue hs hnone
  obtain ⟨⟨scheduler, queued⟩, hloop⟩ : ∃ collected,
      collectLoop (s.prefillBudget s.runnableDecodeSlots) s.prefillQueue s [] = collected := ⟨_, rfl⟩
  rw [hloop] at hkeeps hordered hreserved hslots
  dsimp only at hkeeps hordered hreserved hslots
  unfold planStep collectPrefillCandidates at hplan
  simp only [hloop] at hplan
  rw [selectPrefillCandidates_score] at hplan
  have hsublist := selectLoop_sublist (s.prefillBudget s.runnableDecodeSlots) queued
  generalize selectLoop (s.prefillBudget s.runnableDecodeSlots) queued = candidates
    at hsublist hplan
  have hcandidates : ∀ c ∈ candidates, scheduler.Reserved c := fun c hc =>
    hreserved c (hsublist.subset hc)
  have hnodup : (candidates.map PrefillCandidate.slotIdx).Nodup := by
    refine (hsublist.map _).nodup ?_
    rw [hslots]
    exact htaken.nodup hs.queue
  split at hplan
  · rename_i hdecode
    obtain ⟨i, hi, hrunnable⟩ := List.any_eq_true.mp hdecode
    have hrunnable' : ∃ i ∈ scheduler.runningBatch, scheduler.slotIsRunnableDecode i :=
      ⟨i, hkeeps.running hi hrunnable, hkeeps.runnable hrunnable⟩
    split at hplan
    · cases hplan
      exact ⟨hordered, candidates, hcandidates, hnodup, hrunnable'⟩
    · cases hplan
      exact ⟨hordered, candidates, hcandidates, hnodup,
        fits_route (fits_decodePlan candidates hrunnable') _⟩
  · cases hplan
    refine ⟨hordered, candidates, hcandidates, hnodup, fits_route ?_ _⟩
    split
    · trivial
    · rename_i hempty
      exact ⟨rfl, fun h => hempty (List.isEmpty_iff.mpr h)⟩

/-- The logical plan of a step launches the step plan. -/
theorem launchLogical_of_fits (hs : s.Ordered) {candidates : List PrefillCandidate}
    {plan : StepPlan} (hreserved : ∀ c ∈ candidates, s.Reserved c) (hfits : s.Fits candidates plan)
    (hspec : plan ≠ .specDecode) : ∃ logicalPlan,
    s.logicalShadowPlanFromStepPlan plan = some logicalPlan ∧
      s.launchLogicalServePlan logicalPlan = launchLegacyStepPlan plan ∧
      List.Forall₂ s.RowOf plan.candidates logicalPlan.prefillRows := by
  have hrows := logicalPrefillRows_forall₂ hs hreserved
  have hdecode : (∃ i ∈ s.runningBatch, s.slotIsRunnableDecode i) →
      s.logicalDecodeRowsForCurrentBatch.isEmpty = false := by
    rintro ⟨i, hi, hrunnable⟩
    exact List.isEmpty_eq_false_iff.mpr (decodeRows_ne_nil hs hi hrunnable)
  cases plan with
  | specDecode => exact absurd rfl hspec
  | idle => exact ⟨_, rfl, rfl, .nil⟩
  | decode =>
    refine ⟨_, rfl, ?_, .nil⟩
    unfold launchLogicalServePlan
    dsimp only
    rw [hdecode hfits]
    rfl
  | prefill cs =>
    obtain ⟨rfl, hne⟩ := hfits
    refine ⟨_, rfl, ?_, hrows 0⟩
    unfold launchLogicalServePlan
    dsimp only
    rw [prefillCandidates_of_rows hs hreserved (hrows 0), List.isEmpty_eq_false_iff.mpr hne]
    rfl
  | split cs | mixed cs =>
    obtain ⟨rfl, hne, hmixed, hrunnable⟩ := hfits
    refine ⟨_, rfl, ?_, hrows _⟩
    unfold launchLogicalServePlan
    dsimp only
    rw [prefillCandidates_of_rows hs hreserved (hrows _), List.isEmpty_eq_false_iff.mpr hne,
      hdecode hrunnable, hmixed]
    rfl

/-- `launch_planned_step` launches the plan, by way of the logical plan or not. -/
theorem launchPlannedStep_eq (hs : s.Ordered) {plan : StepPlan} (hplan : s.planStep = (s', plan))
    (unified : Bool) : s'.launchPlannedStep unified plan = launchLegacyStepPlan plan := by
  obtain ⟨hordered, candidates, hreserved, -, hfits⟩ := planStep_spec hs hplan
  by_cases hspec : plan = .specDecode
  · rw [hspec]
    cases unified <;> rfl
  · obtain ⟨logicalPlan, hlogical, hlaunch, -⟩ :=
      launchLogical_of_fits hordered hreserved hfits hspec
    unfold launchPlannedStep
    rw [hlogical]
    cases unified with
    | false => rfl
    | true =>
      dsimp only
      split
      · rfl
      · exact hlaunch

/-- Every plan that is not speculative launches what it plans when it is lowered to a logical plan,
and its logical rows are those of distinct slots. So `launch_planned_step` launches it either
way. -/
theorem logical_launch_eq (hs : s.Ordered) {plan : StepPlan} (hplan : s.planStep = (s', plan))
    (hspec : plan ≠ .specDecode) : ∃ logicalPlan,
    s'.logicalShadowPlanFromStepPlan plan = some logicalPlan ∧
      s'.launchLogicalServePlan logicalPlan = launchLegacyStepPlan plan ∧
      (∀ unified, s'.launchPlannedStep unified plan = launchLegacyStepPlan plan) ∧
      List.Forall₂ s'.RowOf plan.candidates logicalPlan.prefillRows ∧
      (plan.candidates.map PrefillCandidate.slotIdx).Nodup := by
  obtain ⟨hordered, candidates, hreserved, hnodup, hfits⟩ := planStep_spec hs hplan
  obtain ⟨logicalPlan, hlogical, hlaunch, hrows⟩ :=
    launchLogical_of_fits hordered hreserved hfits hspec
  refine ⟨logicalPlan, hlogical, hlaunch, launchPlannedStep_eq hs hplan, hrows, ?_⟩
  cases plan with
  | idle | decode | specDecode => exact List.nodup_nil
  | prefill cs | split cs | mixed cs =>
    obtain ⟨rfl, -⟩ := hfits
    exact hnodup

/-! A slot that decodes, and one with a prompt of which a token is cached. -/

def oneOfEach : State where
  config := ⟨2048, 16384, 16384, 2048, none, 0, false⟩
  model := ⟨true, none, true⟩
  active := [some ⟨7, [1, 2], [5], 16, .decoding, false⟩,
    some ⟨8, [1, 2, 3, 4], [], 16, .prefilling [2, 3, 4] 0, false⟩]
  runningBatch := [0]
  prefillQueue := [1]
  deferredDecodeEmit := none
  emitGateWaiting _ := none
  freePages := 64
  seqLens := [2, 1]
  appendCowPages := [0, 0]
  pageSize := 16

theorem ordered_oneOfEach : oneOfEach.Ordered := by
  have hrequest : ∀ {i req}, oneOfEach.request i = some req →
      i = 0 ∧ req = ⟨7, [1, 2], [5], 16, .decoding, false⟩ ∨
        i = 1 ∧ req = ⟨8, [1, 2, 3, 4], [], 16, .prefilling [2, 3, 4] 0, false⟩ := by
    intro i req h
    rcases i with _ | _ | i
    · exact .inl ⟨rfl, (Option.some.inj h).symm⟩
    · exact .inr ⟨rfl, (Option.some.inj h).symm⟩
    · cases h
  refine ⟨fun hi hj hid => ?_, fun hi hphase => ?_, List.nodup_singleton _, fun hi hphase => ?_⟩
  · rcases hrequest hi with ⟨rfl, rfl⟩ | ⟨rfl, rfl⟩ <;>
      rcases hrequest hj with ⟨rfl, rfl⟩ | ⟨rfl, rfl⟩
    · rfl
    · exact absurd hid (by decide)
    · exact absurd hid (by decide)
    · rfl
  · rcases hrequest hi with ⟨-, rfl⟩ | ⟨-, rfl⟩
    · exact List.cons_ne_nil _ _
    · cases hphase
  · rcases hrequest hi with ⟨-, rfl⟩ | ⟨-, rfl⟩
    · cases hphase
    · cases hphase
      exact ⟨[1], rfl⟩

theorem logical_launch_eq_oneOfEach : ∃ logicalPlan,
    oneOfEach.logicalShadowPlanFromStepPlan (.mixed [⟨1, ⟨3, ⟨1, 4⟩⟩⟩]) = some logicalPlan ∧
      oneOfEach.launchLogicalServePlan logicalPlan = .mixed [⟨1, ⟨3, ⟨1, 4⟩⟩⟩] ∧
      (∀ unified, oneOfEach.launchPlannedStep unified (.mixed [⟨1, ⟨3, ⟨1, 4⟩⟩⟩]) =
        .mixed [⟨1, ⟨3, ⟨1, 4⟩⟩⟩]) ∧
      List.Forall₂ oneOfEach.RowOf [⟨1, ⟨3, ⟨1, 4⟩⟩⟩] logicalPlan.prefillRows ∧
      ([1] : List Nat).Nodup := by
  have hplan : oneOfEach.planStep = (oneOfEach, .mixed [⟨1, ⟨3, ⟨1, 4⟩⟩⟩]) := rfl
  exact logical_launch_eq ordered_oneOfEach hplan StepPlan.noConfusion

end State

end Arle.Scheduler.Cuda.Execution
