import Mathlib
import Arle.Backend.Metal.Scheduler

/-!
# What a step of the scheduler does

`Tracks s runtimeStates` joins the two halves of the state: the admitted requests of the scheduler
are those of the runtime, and at most one of them is not through with its prompt. A step then does
not panic; its decode rows are the decoding requests, and its chunk continues the request that is
being prefilled or starts the first one of the queue.
-/

namespace Arle.Backend.Metal

open Arle.Scheduler (RequestId LogicalDecodeRow LogicalPrefillRow LogicalServePlan)

/-! ## Orders -/

def MetalRequestState.waitingKey (state : MetalRequestState) : Natᵒᵈ ×ₗ Nat :=
  toLex (OrderDual.toDual state.priority.rank, state.arrivalOrder)

theorem comparePriorityWaiting_eq (a b : MetalRequestState) :
    comparePriorityWaiting a b = compare a.waitingKey b.waitingKey := by
  unfold comparePriorityWaiting MetalRequestState.waitingKey
  rcases lt_trichotomy a.priority.rank b.priority.rank with hrank | hrank | hrank
  · rw [compare_lt_iff_lt.mpr hrank]
    exact (compare_gt_iff_gt.mpr (Prod.Lex.toLex_lt_toLex.mpr (.inl hrank))).symm
  · rw [compare_eq_iff_eq.mpr hrank, hrank]
    change compare a.arrivalOrder b.arrivalOrder = _
    symm
    rcases lt_trichotomy a.arrivalOrder b.arrivalOrder with harrival | harrival | harrival
    · rw [compare_lt_iff_lt.mpr harrival]
      exact compare_lt_iff_lt.mpr (Prod.Lex.toLex_lt_toLex.mpr (.inr ⟨rfl, harrival⟩))
    · rw [compare_eq_iff_eq.mpr harrival, harrival]
      exact compare_eq_iff_eq.mpr rfl
    · rw [compare_gt_iff_gt.mpr harrival]
      exact compare_gt_iff_gt.mpr (Prod.Lex.toLex_lt_toLex.mpr (.inr ⟨rfl, harrival⟩))
  · rw [compare_gt_iff_gt.mpr hrank]
    exact (compare_lt_iff_lt.mpr (Prod.Lex.toLex_lt_toLex.mpr (.inl hrank))).symm

/-! ## Lists with distinct ids -/

section Distinct

variable {α β : Type} {f : α → β} {l : List α} {a b : α}

theorem eq_of_nodup_map (hnodup : (l.map f).Nodup) (ha : a ∈ l) (hb : b ∈ l) (h : f a = f b) :
    a = b :=
  List.inj_on_of_nodup_map hnodup ha hb h

/-- The entry with an id is the only one. -/
theorem filter_eq_singleton [DecidableEq β] (hnodup : (l.map f).Nodup) (ha : a ∈ l) :
    (l.filter fun b => f b = f a) = [a] := by
  induction l with
  | nil => cases ha
  | cons c l ih =>
    obtain ⟨hc, hl⟩ := List.nodup_cons.mp hnodup
    rcases List.mem_cons.mp ha with rfl | hal
    · have hrest : (l.filter fun b => f b = f a) = [] := by
        apply List.filter_eq_nil_iff.mpr
        intro b hb heq
        exact hc (of_decide_eq_true heq ▸ List.mem_map_of_mem hb)
      rw [List.filter_cons, if_pos (decide_eq_true rfl), hrest]
    · have hne : f c ≠ f a := fun heq => hc (heq ▸ List.mem_map_of_mem hal)
      rw [List.filter_cons, if_neg (by simpa using hne), ih hl hal]

theorem runtimeState_eq_some {runtimeStates : List MetalRuntimeRequestState}
    (hnodup : (runtimeStates.map MetalRuntimeRequestState.reqId).Nodup)
    {r : MetalRuntimeRequestState} (hr : r ∈ runtimeStates) :
    runtimeState runtimeStates r.reqId = some r := by
  unfold runtimeState
  rw [← List.head?_filter, filter_eq_singleton hnodup hr]
  rfl

end Distinct

/-! ## The state of a run -/

/-- How far a request with a prompt of this length is. -/
def Progress (promptLen : Nat) (r : MetalRuntimeRequestState) : Prop :=
  (r.phase = .prefilling ∧ r.promptProgress < promptLen) ∨
    (r.phase = .decoding ∧ r.promptProgress = promptLen ∧ 0 < r.generatedTokens ∧
      r.lastToken.isSome)

namespace MetalScheduler

structure WellFormed (s : MetalScheduler) : Prop where
  ids : ∀ reqId state, s.requests.lookup reqId = some state → state.reqId = reqId
  nonempty : ∀ reqId state, s.requests.lookup reqId = some state → state.promptTokens ≠ []
  arrival : ∀ reqId state, s.requests.lookup reqId = some state → state.arrivalOrder = reqId.val
  fresh : ∀ reqId state, s.requests.lookup reqId = some state → reqId.val < s.nextReqId
  counters : s.nextArrivalOrder = s.nextReqId
  queue : s.waiting.Nodup
  waiting_iff : ∀ reqId, reqId ∈ s.waiting ↔
    ∃ state, s.requests.lookup reqId = some state ∧ state.admitted = false

structure Tracks (s : MetalScheduler) (runtimeStates : List MetalRuntimeRequestState) : Prop where
  nodup : (runtimeStates.map MetalRuntimeRequestState.reqId).Nodup
  admitted_iff : ∀ reqId, reqId ∈ runtimeStates.map MetalRuntimeRequestState.reqId ↔
    ∃ state, s.requests.lookup reqId = some state ∧ state.admitted = true
  progress : ∀ r ∈ runtimeStates, ∀ state, s.requests.lookup r.reqId = some state →
    Progress state.promptTokens.length r
  prefilling : ∀ r ∈ runtimeStates, ∀ r' ∈ runtimeStates, r.phase = .prefilling →
    r'.phase = .prefilling → r = r'
  running : runtimeStates.length ≤ s.config.maxRunningRequests

theorem Tracks.perm {s : MetalScheduler} {runtimeStates snapshots : List MetalRuntimeRequestState}
    (h : s.Tracks runtimeStates) (hperm : runtimeStates.Perm snapshots) : s.Tracks snapshots where
  nodup := (hperm.map _).nodup h.nodup
  admitted_iff := fun reqId => ((hperm.map _).mem_iff.symm).trans (h.admitted_iff reqId)
  progress := fun r hr => h.progress r (hperm.mem_iff.mpr hr)
  prefilling := fun r hr r' hr' => h.prefilling r (hperm.mem_iff.mpr hr) r' (hperm.mem_iff.mpr hr')
  running := hperm.length_eq ▸ h.running

section Step

variable {s : MetalScheduler} {runtimeStates : List MetalRuntimeRequestState}

/-- The runtime knows every admitted request. -/
theorem Tracks.runtimeState (h : s.Tracks runtimeStates) {reqId : RequestId}
    {state : MetalRequestState} (hlookup : s.requests.lookup reqId = some state)
    (hadmitted : state.admitted = true) :
    ∃ r ∈ runtimeStates, r.reqId = reqId ∧ runtimeState runtimeStates reqId = some r := by
  obtain ⟨r, hr, rfl⟩ := List.mem_map.mp ((h.admitted_iff reqId).mpr ⟨state, hlookup, hadmitted⟩)
  exact ⟨r, hr, rfl, runtimeState_eq_some h.nodup hr⟩

theorem Tracks.lookup (h : s.Tracks runtimeStates) {r : MetalRuntimeRequestState}
    (hr : r ∈ runtimeStates) :
    ∃ state, s.requests.lookup r.reqId = some state ∧ state.admitted = true :=
  (h.admitted_iff r.reqId).mp (List.mem_map_of_mem hr)

theorem mem_values (h : s.WellFormed) {state : MetalRequestState}
    (hmem : state ∈ Assoc.values s.requests) :
    s.requests.lookup state.reqId = some state := by
  obtain ⟨reqId, hlookup⟩ := Assoc.mem_values.mp hmem
  rw [h.ids reqId state hlookup]
  exact hlookup

theorem values_ids (h : s.WellFormed) :
    ((Assoc.values s.requests).map MetalRequestState.reqId).Nodup := by
  have heq : (Assoc.values s.requests).map MetalRequestState.reqId = s.requests.keys := by
    unfold Assoc.values
    rw [List.map_map]
    apply List.map_congr_left
    intro e he
    exact h.ids e.1 e.2 (Assoc.lookup_eq_some.mpr he)
  rw [heq]
  exact s.requests.nodupKeys

/-- The admitted requests are as many as the states of the runtime. -/
theorem runningLen_eq (h : s.WellFormed) (hT : s.Tracks runtimeStates) :
    s.runningLen = runtimeStates.length := by
  have hsub := (List.filter_sublist (p := MetalRequestState.admitted)
    (l := Assoc.values s.requests)).map MetalRequestState.reqId
  have hperm : (((Assoc.values s.requests).filter MetalRequestState.admitted).map
      MetalRequestState.reqId).Perm (runtimeStates.map MetalRuntimeRequestState.reqId) := by
    apply (List.perm_ext_iff_of_nodup ((values_ids h).sublist hsub) hT.nodup).mpr
    intro reqId
    rw [hT.admitted_iff]
    constructor
    · intro hin
      obtain ⟨state, hstate, rfl⟩ := List.mem_map.mp hin
      obtain ⟨hmem, hadmitted⟩ := List.mem_filter.mp hstate
      exact ⟨state, mem_values h hmem, hadmitted⟩
    · rintro ⟨state, hlookup, hadmitted⟩
      rw [← h.ids reqId state hlookup]
      apply List.mem_map_of_mem
      exact List.mem_filter.mpr ⟨Assoc.mem_values.mpr ⟨reqId, hlookup⟩, hadmitted⟩
  have hlength := hperm.length_eq
  rw [List.length_map, List.length_map] at hlength
  exact hlength

theorem validate_eq_true (h : s.WellFormed) (hT : s.Tracks runtimeStates) :
    s.validateRuntimeSnapshots runtimeStates = true := by
  unfold validateRuntimeSnapshots
  apply List.all_eq_true.mpr
  intro state hstate
  obtain ⟨hmem, hadmitted⟩ := List.mem_filter.mp hstate
  have hlookup := mem_values h hmem
  obtain ⟨r, hr, hid, hruntime⟩ := hT.runtimeState hlookup hadmitted
  rw [hruntime]
  rcases hT.progress r hr state (hid ▸ hlookup) with ⟨hphase, _⟩ | ⟨hphase, _, _, hlast⟩
  · simp [hphase]
  · obtain ⟨token, htoken⟩ := Option.isSome_iff_exists.mp hlast
    simp [htoken]

/-! ## The decode rows -/

/-- A list whose elements all succeed. -/
theorem mapM_eq_some {α β : Type} {f : α → Option β} {g : α → β} {l : List α}
    (h : ∀ a ∈ l, f a = some (g a)) : l.mapM f = some (l.map g) := by
  induction l with
  | nil => rfl
  | cons a l ih =>
    rw [List.mapM_cons, h a List.mem_cons_self, ih fun b hb => h b (List.mem_cons_of_mem a hb)]
    rfl

/-- The entries of the decode batch stand for the decoding requests. -/
theorem decodeEntry_spec (hT : s.Tracks runtimeStates) (h : s.WellFormed)
    {state : MetalRequestState} (hstate : state ∈ Assoc.values s.requests) :
    ∃ entry, decodeEntry runtimeStates state = some entry ∧
      (∀ e, entry = some e → e.1 = state ∧ ∃ r ∈ runtimeStates, r.reqId = state.reqId ∧
        r.phase = .decoding ∧ r.lastToken = some e.2.1 ∧
        e.2.2 = r.promptProgress + (r.generatedTokens - 1)) ∧
      (∀ r ∈ runtimeStates, r.reqId = state.reqId → r.phase = .decoding → entry.isSome) := by
  have hlookup := mem_values h hstate
  unfold decodeEntry
  by_cases hadmitted : state.admitted = true
  · obtain ⟨r, hr, hid, hruntime⟩ := hT.runtimeState hlookup hadmitted
    have honly : ∀ r' ∈ runtimeStates, r'.reqId = state.reqId → r' = r :=
      fun r' hr' hid' => eq_of_nodup_map hT.nodup hr' hr (hid'.trans hid.symm)
    rw [hruntime, if_neg (by simp [hadmitted])]
    dsimp only
    rcases hT.progress r hr state (hid ▸ hlookup) with ⟨hphase, _⟩ | ⟨hphase, _, _, hlast⟩
    · rw [if_pos (by simp [hphase])]
      refine ⟨none, rfl, ⟨fun e he => (by cases he), fun r' hr' hid' hphase' => ?_⟩⟩
      rw [honly r' hr' hid', hphase] at hphase'
      cases hphase'
    · obtain ⟨token, htoken⟩ := Option.isSome_iff_exists.mp hlast
      rw [if_neg (by simp [hphase]), htoken]
      refine ⟨_, rfl, fun e he => ?_, fun _ _ _ _ => rfl⟩
      cases he
      exact ⟨rfl, r, hr, hid, hphase, htoken, rfl⟩
  · rw [if_pos (by simpa using hadmitted)]
    refine ⟨none, rfl, fun e he => (by cases he), fun r hr hid _ => ?_⟩
    obtain ⟨state', hlookup', hadmitted'⟩ := hT.lookup hr
    rw [hid, hlookup] at hlookup'
    cases hlookup'
    exact absurd hadmitted' hadmitted

/-- A decode row is that of a decoding request. -/
def RowOf (row : LogicalDecodeRow) (r : MetalRuntimeRequestState) : Prop :=
  r.reqId = row.reqId ∧ r.phase = .decoding ∧ r.lastToken = some row.inputToken ∧
    row.logicalKvOffset = r.promptProgress + (r.generatedTokens - 1)

/-- A partial map with a left inverse makes a part of the list. -/
theorem filterMap_sublist {α β : Type} {g : α → Option β} {f : β → α} {l : List α}
    (h : ∀ a ∈ l, ∀ b, g a = some b → f b = a) : ((l.filterMap g).map f).Sublist l := by
  induction l with
  | nil => exact .refl _
  | cons a l ih =>
    have hrest := ih fun b hb => h b (List.mem_cons_of_mem a hb)
    rw [List.filterMap_cons]
    split
    · exact hrest.cons a
    · rename_i b hb
      rw [List.map_cons, h a List.mem_cons_self b hb]
      exact hrest.cons_cons a

theorem map_mapIdx {α β γ : Type} {f : Nat → α → β} {g : β → γ} {k : α → γ} {l : List α}
    (h : ∀ i a, g (f i a) = k a) : (l.mapIdx f).map g = l.map k := by
  apply List.ext_getElem?
  intro i
  rw [List.getElem?_map, List.getElem?_mapIdx, List.getElem?_map, Option.map_map]
  exact congrArg (fun k => Option.map k l[i]?) (funext fun a => h i a)

/-- The entries of the decode batch, in their order. -/
def decodeEntries (s : MetalScheduler) (runtimeStates : List MetalRuntimeRequestState) :
    List (MetalRequestState × Token × Nat) :=
  sortBy (fun a b => compareDecodeOrder a.1 b.1)
    ((Assoc.values s.requests).filterMap fun state =>
      (decodeEntry runtimeStates state).getD none)

def decodeRow (rowIndex : Nat) (entry : MetalRequestState × Token × Nat) : LogicalDecodeRow :=
  { rowIndex
    reqId := entry.1.reqId
    inputToken := entry.2.1
    logicalKvOffset := entry.2.2 }

theorem buildDecodeRows_eq (h : s.WellFormed) (hT : s.Tracks runtimeStates) :
    s.buildDecodeRows runtimeStates =
      some ((decodeEntries s runtimeStates).mapIdx decodeRow) := by
  have hentry : ∀ state ∈ Assoc.values s.requests, decodeEntry runtimeStates state =
      some ((decodeEntry runtimeStates state).getD none) := by
    intro state hstate
    obtain ⟨entry, heq, _⟩ := decodeEntry_spec hT h hstate
    rw [heq]
    rfl
  unfold buildDecodeRows decodeEntries
  rw [mapM_eq_some hentry, Option.map_some, List.reduceOption, List.filterMap_map]
  rfl

theorem mem_decodeEntries {e : MetalRequestState × Token × Nat} :
    e ∈ decodeEntries s runtimeStates ↔
      ∃ state ∈ Assoc.values s.requests, (decodeEntry runtimeStates state).getD none = some e :=
  (sortBy_perm _ _).mem_iff.trans List.mem_filterMap

theorem decodeEntries_spec (h : s.WellFormed) (hT : s.Tracks runtimeStates)
    {e : MetalRequestState × Token × Nat} (he : e ∈ decodeEntries s runtimeStates) :
    ∃ r ∈ runtimeStates, RowOf (decodeRow 0 e) r := by
  obtain ⟨state, hstate, hsome⟩ := mem_decodeEntries.mp he
  obtain ⟨entry, heq, hspec, _⟩ := decodeEntry_spec hT h hstate
  rw [heq] at hsome
  obtain ⟨rfl, r, hr, hrow⟩ := hspec e hsome
  exact ⟨r, hr, hrow⟩

/-- The entries have the ids of different requests. -/
theorem decodeEntries_ids (h : s.WellFormed) (hT : s.Tracks runtimeStates) :
    ((decodeEntries s runtimeStates).map fun e => e.1.reqId).Nodup := by
  apply ((sortBy_perm _ _).map _).symm.nodup
  have hleft : ∀ state ∈ Assoc.values s.requests, ∀ e : MetalRequestState × Token × Nat,
      (decodeEntry runtimeStates state).getD none = some e → e.1 = state := by
    intro state hstate e he
    obtain ⟨entry, heq, hspec, _⟩ := decodeEntry_spec hT h hstate
    rw [heq] at he
    exact (hspec e he).1
  have hsub := (filterMap_sublist hleft).map MetalRequestState.reqId
  rw [List.map_map] at hsub
  exact (values_ids h).sublist hsub

theorem decodeEntries_complete (h : s.WellFormed) (hT : s.Tracks runtimeStates)
    {r : MetalRuntimeRequestState} (hr : r ∈ runtimeStates) (hphase : r.phase = .decoding) :
    ∃ e ∈ decodeEntries s runtimeStates, RowOf (decodeRow 0 e) r := by
  obtain ⟨state, hlookup, _⟩ := hT.lookup hr
  have hid := h.ids _ _ hlookup
  have hstate := Assoc.mem_values.mpr ⟨_, hlookup⟩
  obtain ⟨entry, heq, hspec, hsome⟩ := decodeEntry_spec hT h hstate
  obtain ⟨e, he⟩ := Option.isSome_iff_exists.mp (hsome r hr hid.symm hphase)
  obtain ⟨rfl, r', hr', hid', hrow⟩ := hspec e he
  have hsame := eq_of_nodup_map hT.nodup hr' hr (hid'.trans hid)
  rw [hsame] at hid' hrow
  refine ⟨e, mem_decodeEntries.mpr ⟨_, hstate, ?_⟩, hid', hrow⟩
  rw [heq]
  exact he

/-- The decode rows are those of the decoding requests. -/
theorem buildDecodeRows_spec (h : s.WellFormed) (hT : s.Tracks runtimeStates) :
    ∃ rows, s.buildDecodeRows runtimeStates = some rows ∧
      rows.length = countDecodeRuntime runtimeStates ∧
      (rows.map LogicalDecodeRow.reqId).Nodup ∧
      ∀ r ∈ runtimeStates, r.phase = .decoding → ∃ row ∈ rows, RowOf row r := by
  have hids : ((decodeEntries s runtimeStates).mapIdx decodeRow).map LogicalDecodeRow.reqId =
      (decodeEntries s runtimeStates).map fun e => e.1.reqId := map_mapIdx fun _ _ => rfl
  refine ⟨_, buildDecodeRows_eq h hT, ?_, hids ▸ decodeEntries_ids h hT, ?_⟩
  · have hperm : ((decodeEntries s runtimeStates).map fun e => e.1.reqId).Perm
        ((runtimeStates.filter fun r => r.phase = .decoding).map
          MetalRuntimeRequestState.reqId) := by
      apply (List.perm_ext_iff_of_nodup (decodeEntries_ids h hT)
        (hT.nodup.sublist (List.filter_sublist.map _))).mpr
      intro reqId
      constructor
      · intro hin
        obtain ⟨e, he, rfl⟩ := List.mem_map.mp hin
        obtain ⟨r, hr, hid, hphase, _⟩ := decodeEntries_spec h hT he
        apply List.mem_map.mpr
        exact ⟨r, List.mem_filter.mpr ⟨hr, decide_eq_true hphase⟩, hid⟩
      · intro hin
        obtain ⟨r, hr, rfl⟩ := List.mem_map.mp hin
        obtain ⟨hr, hphase⟩ := List.mem_filter.mp hr
        obtain ⟨e, he, hid, _⟩ := decodeEntries_complete h hT hr (of_decide_eq_true hphase)
        rw [hid]
        exact List.mem_map.mpr ⟨e, he, rfl⟩
    have hlength := hperm.length_eq
    rw [List.length_map, List.length_map] at hlength
    rw [List.length_mapIdx]
    exact hlength
  · intro r hr hphase
    obtain ⟨e, he, hrow⟩ := decodeEntries_complete h hT hr hphase
    obtain ⟨i, hi, rfl⟩ := List.mem_iff_getElem.mp he
    exact ⟨_, List.mem_mapIdx.mpr ⟨i, hi, rfl⟩, hrow⟩

/-! ## The chunk -/

/-- The chunk of a request from this position on. -/
def chunkRow (rowIndex chunkCap promptStart : Nat) (state : MetalRequestState) :
    LogicalPrefillRow :=
  let promptLen := state.promptTokens.length
  let promptEnd := min (promptStart + chunkCap) promptLen
  { rowIndex
    reqId := state.reqId
    inputTokens := (state.promptTokens.drop promptStart).take (promptEnd - promptStart)
    promptStart
    promptEnd
    promptLen }

/-- The scheduler with a request taken out of the queue. -/
def afterAdmission (s : MetalScheduler) (rest : List RequestId) (reqId : RequestId)
    (state : MetalRequestState) : MetalScheduler :=
  { s with
    waiting := rest
    requests := s.requests.insert reqId { state with admitted := true } }

/-- What the prefill part of a step does: nothing, if the budget is used up or no request can be
prefilled, or it continues the request that is being prefilled, or, without one, it admits the first
of the queue. -/
inductive Prefilled (s : MetalScheduler) (runtimeStates : List MetalRuntimeRequestState)
    (rowIndex chunkCap : Nat) : List LogicalPrefillRow → MetalScheduler → Prop
  | idle (hidle : chunkCap = 0 ∨ (∀ r ∈ runtimeStates, r.phase ≠ .prefilling) ∧
      (s.waiting = [] ∨ s.config.maxRunningRequests ≤ runtimeStates.length)) :
      Prefilled s runtimeStates rowIndex chunkCap [] s
  | continued {r : MetalRuntimeRequestState} {state : MetalRequestState} (hr : r ∈ runtimeStates)
      (hphase : r.phase = .prefilling) (hlookup : s.requests.lookup r.reqId = some state)
      (hcap : 0 < chunkCap) :
      Prefilled s runtimeStates rowIndex chunkCap
        [chunkRow rowIndex chunkCap r.promptProgress state] s
  | admitted {rest : List RequestId} {reqId : RequestId} {state : MetalRequestState}
      (hnone : ∀ r ∈ runtimeStates, r.phase ≠ .prefilling)
      (hroom : runtimeStates.length < s.config.maxRunningRequests)
      (hqueue : s.waiting.Perm (reqId :: rest))
      (hlookup : s.requests.lookup reqId = some state)
      (hfirst : ∀ reqId' ∈ s.waiting, ∀ state', s.requests.lookup reqId' = some state' →
        state.waitingKey ≤ state'.waitingKey)
      (hcap : 0 < chunkCap) :
      Prefilled s runtimeStates rowIndex chunkCap [chunkRow rowIndex chunkCap 0 state]
        (s.afterAdmission rest reqId state)

theorem findPrefillingRequest_some (h : s.WellFormed) (hT : s.Tracks runtimeStates)
    {reqId : RequestId} (hfind : s.findPrefillingRequest runtimeStates = some reqId) :
    ∃ r ∈ runtimeStates, r.reqId = reqId ∧ r.phase = .prefilling := by
  unfold findPrefillingRequest at hfind
  obtain ⟨state, hmin, rfl⟩ := Option.map_eq_some_iff.mp hfind
  obtain ⟨hstate, htest⟩ := List.mem_filter.mp (minBy_mem hmin)
  obtain ⟨hadmitted, hphase⟩ := Bool.and_eq_true_iff.mp htest
  obtain ⟨r, hr, hid, hruntime⟩ := hT.runtimeState (mem_values h hstate) hadmitted
  rw [hruntime] at hphase
  exact ⟨r, hr, hid, of_decide_eq_true hphase⟩

theorem findPrefillingRequest_none (h : s.WellFormed) (hT : s.Tracks runtimeStates)
    (hfind : s.findPrefillingRequest runtimeStates = none) :
    ∀ r ∈ runtimeStates, r.phase ≠ .prefilling := by
  intro r hr hphase
  obtain ⟨state, hlookup, hadmitted⟩ := hT.lookup hr
  have hmem : state ∈ (Assoc.values s.requests).filter fun state =>
      state.admitted && (Metal.runtimeState runtimeStates state.reqId).any fun runtime =>
        runtime.phase = .prefilling := by
    refine List.mem_filter.mpr ⟨Assoc.mem_values.mpr ⟨_, hlookup⟩, ?_⟩
    rw [h.ids _ _ hlookup, runtimeState_eq_some hT.nodup hr, hadmitted]
    exact decide_eq_true hphase
  obtain ⟨least, hleast⟩ : ∃ least, minBy comparePrefillOrder _ = some least :=
    minBy_ne_none _ (List.ne_nil_of_mem hmem)
  unfold findPrefillingRequest at hfind
  rw [hleast] at hfind
  cases hfind

/-- The first request of the queue, by priority and then by arrival. -/
theorem admitNextWaitingRequest_spec (h : s.WellFormed) :
    (s.admitNextWaitingRequest = (none, s) ∧ s.waiting = []) ∨
      ∃ rest reqId state,
        s.admitNextWaitingRequest = (some reqId, s.afterAdmission rest reqId state) ∧
        s.waiting.Perm (reqId :: rest) ∧ s.requests.lookup reqId = some state ∧
        ∀ reqId' ∈ s.waiting, ∀ state', s.requests.lookup reqId' = some state' →
          state.waitingKey ≤ state'.waitingKey := by
  unfold admitNextWaitingRequest
  dsimp only
  split
  · rename_i hnone
    refine .inl ⟨rfl, List.eq_nil_iff_forall_not_mem.mpr fun reqId hreq => ?_⟩
    obtain ⟨i, hi⟩ := List.mem_iff_getElem?.mp hreq
    obtain ⟨state, hlookup, -⟩ := (h.waiting_iff reqId).mp hreq
    have hmem : (i, state) ∈ s.waiting.zipIdx.filterMap fun entry =>
        (s.requests.lookup entry.1).map fun state => (entry.2, state) := by
      refine List.mem_filterMap.mpr ⟨(reqId, i), List.mem_zipIdx_iff_getElem?.mpr hi, ?_⟩
      rw [hlookup]
      rfl
    obtain ⟨best, hbest⟩ := minBy_ne_none
      (fun a b : Nat × MetalRequestState => comparePriorityWaiting a.2 b.2)
      (List.ne_nil_of_mem hmem)
    rw [hbest] at hnone
    cases hnone
  · rename_i best hbest
    obtain ⟨entry, hentry, hstate⟩ := List.mem_filterMap.mp (minBy_mem hbest)
    obtain ⟨state, hlookup, rfl⟩ := Option.map_eq_some_iff.mp hstate
    have hget := List.mem_zipIdx_iff_getElem?.mp hentry
    dsimp only
    rw [hget]
    dsimp only
    rw [hlookup]
    obtain ⟨hlt, helem⟩ := List.getElem?_eq_some_iff.mp hget
    refine .inr ⟨_, _, state, rfl, ?_, hlookup, ?_⟩
    · have hperm := (List.getElem_cons_eraseIdx_perm hlt).symm
      rw [helem] at hperm
      exact hperm
    · intro reqId' hreq' state' hlookup'
      obtain ⟨i, hi⟩ := List.mem_iff_getElem?.mp hreq'
      apply minBy_le (fun entry : Nat × MetalRequestState => entry.2.waitingKey)
        (fun a b => comparePriorityWaiting_eq a.2 b.2) hbest (b := (i, state'))
      apply List.mem_filterMap.mpr
      refine ⟨(reqId', i), List.mem_zipIdx_iff_getElem?.mpr hi, ?_⟩
      rw [hlookup']
      rfl

theorem buildPrefillRows_spec (h : s.WellFormed) (hT : s.Tracks runtimeStates)
    (rowIndex : Nat) :
    ∃ rows t, s.buildPrefillRows runtimeStates rowIndex = some (rows, t) ∧
      Prefilled s runtimeStates rowIndex
        (s.config.maxBatchTokens - countDecodeRuntime runtimeStates) rows t := by
  unfold buildPrefillRows prefillChunkBudget
  dsimp only
  generalize s.config.maxBatchTokens - countDecodeRuntime runtimeStates = chunkCap
  by_cases hcap : chunkCap = 0
  · rw [if_pos hcap]
    exact ⟨_, _, rfl, .idle (.inl hcap)⟩
  · rw [if_neg hcap]
    have hpos := Nat.pos_of_ne_zero hcap
    unfold choosePrefill
    cases hfind : s.findPrefillingRequest runtimeStates with
    | some reqId =>
      obtain ⟨r, hr, rfl, hphase⟩ := findPrefillingRequest_some h hT hfind
      obtain ⟨state, hlookup, _⟩ := hT.lookup hr
      have hid := h.ids _ _ hlookup
      -- What the runtime reports lies within the prompt.
      have hle : min r.promptProgress state.promptTokens.length = r.promptProgress := by
        rcases hT.progress r hr state hlookup with ⟨_, hlt⟩ | ⟨_, heq, _⟩
        · exact Nat.min_eq_left hlt.le
        · exact Nat.min_eq_left heq.le
      refine ⟨_, _, ?_, .continued hr hphase hlookup hpos⟩
      dsimp only
      unfold prefillRow chunkRow
      rw [hlookup, runtimeState_eq_some hT.nodup hr]
      dsimp only
      rw [if_neg (by simp), Option.map_some, hle, hid]
      rfl
    | none =>
      dsimp only
      by_cases hroom : s.runningLen < s.config.maxRunningRequests
      · rw [if_pos hroom]
        rw [runningLen_eq h hT] at hroom
        rcases admitNextWaitingRequest_spec h with ⟨heq, hempty⟩ |
          ⟨rest, reqId, state, heq, hqueue, hlookup, hfirst⟩
        · rw [heq]
          exact ⟨_, _, rfl, .idle (.inr ⟨findPrefillingRequest_none h hT hfind, .inl hempty⟩)⟩
        · refine ⟨_, _, ?_, .admitted (findPrefillingRequest_none h hT hfind) hroom hqueue hlookup
            hfirst hpos⟩
          rw [heq]
          dsimp only [Option.map_some]
          unfold prefillRow chunkRow afterAdmission
          dsimp only
          rw [AList.lookup_insert, h.ids _ _ hlookup]
          rfl
      · rw [if_neg hroom]
        rw [runningLen_eq h hT] at hroom
        exact ⟨_, _, rfl, .idle (.inr ⟨findPrefillingRequest_none h hT hfind,
          .inr (Nat.le_of_not_lt hroom)⟩)⟩

/-- A step does not panic. -/
theorem step_spec (h : s.WellFormed) (hT : s.Tracks runtimeStates) :
    ∃ decodeRows prefillRows t,
      s.step runtimeStates = some (.ofPlan ⟨decodeRows, prefillRows⟩, t) ∧
      decodeRows.length = countDecodeRuntime runtimeStates ∧
      (decodeRows.map LogicalDecodeRow.reqId).Nodup ∧
      (∀ r ∈ runtimeStates, r.phase = .decoding → ∃ row ∈ decodeRows, RowOf row r) ∧
      Prefilled s runtimeStates decodeRows.length
        (s.config.maxBatchTokens - decodeRows.length) prefillRows t := by
  obtain ⟨decodeRows, hdecode, hlength, hnodup, hrows⟩ := buildDecodeRows_spec h hT
  obtain ⟨prefillRows, t, hprefill, hspec⟩ := buildPrefillRows_spec h hT decodeRows.length
  refine ⟨decodeRows, prefillRows, t, ?_, hlength, hnodup, hrows, hlength ▸ hspec⟩
  unfold step buildLogicalPlan
  rw [validate_eq_true h hT, if_pos rfl, hdecode]
  dsimp only
  rw [hprefill]
  rfl

end Step

end MetalScheduler

end Arle.Backend.Metal
