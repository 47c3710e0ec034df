import Mathlib
import Arle.Scheduler.Cuda.WaitingOrder

/-!
# The waiting queue over many ticks

Two equal requests that one condition holds back in a tick keep their order exactly if the
admission loop is not given both in this order: the loop puts each candidate it blocks in front of
its equals. The tick that admits one of them admits the one that its loop takes first.
-/

namespace Arle.Scheduler.Cuda

open InOrder

def waitingIds (waiting : List IncomingRequest) : List Nat := waiting.map IncomingRequest.deltaTx

section Tick

variable (config : SchedulerConfig) (view : TickView) (waiting : List IncomingRequest)

/-- The slots that a tick may fill. -/
def TickView.slots (view : TickView) : List Nat :=
  if view.cooldown = .idle then view.freeSlots.take 1 else view.freeSlots

/-- The candidates that the loop of a tick is given. -/
def candidates : List QueuedAdmissionCandidate :=
  (collectAdmissionCandidates config view view.slots waiting).1

/-- The loop of a tick at its start. -/
def startPass : AdmissionPass :=
  { candidates := candidates config view waiting
    availableFreeSlots := view.slots
    admissionBudget := view.admissionBudget
    longPrefillActive := view.longPrefillActive
    deferredWaiting := (collectAdmissionCandidates config view view.slots waiting).2
    admitted := [] }

theorem admissionPass_eq : admissionPass config view waiting =
    admissionLoop config (candidates config view waiting).length
      (startPass config view waiting) := rfl

theorem startPass_ids (hnodup : (waitingIds waiting).Nodup) :
    (startPass config view waiting).ids.Nodup := by
  obtain ⟨held, _, _, hperm, hput⟩ := collect_spec config view view.slots waiting
  have hscanned := hnodup.sublist (scanned_ids view waiting)
  apply List.Perm.nodup _ hscanned
  apply ((hperm.map QueuedAdmissionCandidate.id).symm).trans
  unfold AdmissionPass.ids startPass
  rw [List.map_append, hput]
  apply List.Perm.append_left
  have hheld := (putBack_perm (held.map PolicyDeferred.defer) []).map DeferredWaitingRequest.id
  rw [List.append_nil, List.map_map] at hheld
  rw [List.map_map, List.map_nil, List.append_nil]
  exact hheld.symm

/-- The loop of a tick repeats no request. -/
theorem admissionPass_ids (hnodup : (waitingIds waiting).Nodup) :
    (admissionPass config view waiting).ids.Nodup := by
  rw [admissionPass_eq]
  exact (ids_admissionLoop config _ _).symm.nodup (startPass_ids config view waiting hnodup)

theorem restore_ids (deferred : List DeferredWaitingRequest) :
    waitingIds (restoreDeferredWaitingRequests deferred) =
      deferred.map DeferredWaitingRequest.id := by
  unfold waitingIds restoreDeferredWaitingRequests
  rw [List.map_map]
  rfl

theorem assignSlots_nodup (hnodup : (waitingIds waiting).Nodup) :
    (waitingIds (assignSlots config view waiting)).Nodup := by
  unfold assignSlots
  split
  · exact hnodup
  · split
    · exact hnodup
    · rw [restore_ids]
      have hids := admissionPass_ids config view waiting hnodup
      exact (List.nodup_append'.mp (List.nodup_append'.mp hids).2.1).1

/-- In a tick that is not skipped both requests are put back, with equal priorities and hints, and
for one reason. -/
def HeldAlike (i j : Nat) : Prop :=
  view.cooldown = .busy ∨
    ∃ x ∈ (admissionPass config view waiting).deferredWaiting,
      ∃ y ∈ (admissionPass config view waiting).deferredWaiting, x.id = i ∧ y.id = j ∧
        x.incoming.priority = y.incoming.priority ∧ x.hint = y.hint ∧ x.blockedBy = y.blockedBy

/-- The tick looks at both requests, and they have equal priorities and hints. -/
def EqualRequests (i j : Nat) : Prop :=
  ∃ x ∈ scanned view waiting, ∃ y ∈ scanned view waiting, x.id = i ∧ y.id = j ∧
    x.incoming.priority = y.incoming.priority ∧ x.hint = y.hint

/-- The requests that the loop of a tick is given. -/
def handedIds : List Nat := (candidates config view waiting).map QueuedAdmissionCandidate.id

/-- The one of two requests that the loop of a tick is given first, if it is given one. -/
def givenFirst (i j : Nat) : Option Nat :=
  if view.cooldown = .busy then none
  else (handedIds config view waiting).find? fun id => id = i || id = j

/-- The requests that a tick admits, in the order in which its loop admits them. -/
def admittedIds : List Nat :=
  if waiting.isEmpty || view.cooldown = .busy then []
  else (admissionPass config view waiting).admittedIds

/-- The tick admits the one of two equal requests that its loop is given first. -/
def AdmitsFirst (i j : Nat) : Prop :=
  EqualRequests view waiting i j ∧
    ∃ first ∈ admittedIds config view waiting, givenFirst config view waiting i j = some first

variable {config view waiting}

/-- A request that is put back was held back by the policy or blocked by the loop. -/
theorem putBack_cases {d : DeferredWaitingRequest}
    (hd : d ∈ (admissionPass config view waiting).deferredWaiting) :
    (d ∈ (startPass config view waiting).deferredWaiting ∧ d.blockedBy.inLoop = false) ∨
      ∃ c ∈ candidates config view waiting, d.blockedBy.inLoop = true ∧ d = c.defer d.blockedBy := by
  rw [admissionPass_eq] at hd
  rcases admissionLoop_blocked config _ _ hd with hold | hnew
  · obtain ⟨held, _, hpolicy, _, hput⟩ := collect_spec config view view.slots waiting
    refine .inl ⟨hold, ?_⟩
    unfold startPass at hold
    rw [hput] at hold
    have hmem := (putBack_perm _ _).subset hold
    rw [List.append_nil] at hmem
    obtain ⟨p, hp, rfl⟩ := List.mem_map.mp hmem
    exact hpolicy p hp
  · exact .inr hnew

/-- Equal requests that the policy holds back for one reason keep the order of the queue. -/
theorem policy_inOrder (hnodup : (waitingIds waiting).Nodup) {x y : DeferredWaitingRequest}
    (hx : x ∈ (startPass config view waiting).deferredWaiting)
    (hy : y ∈ (startPass config view waiting).deferredWaiting)
    (hxy : InOrder x.id y.id (waitingIds waiting)) (hkey : x.key = y.key)
    (hreason : x.blockedBy = y.blockedBy) :
    InOrder x y (startPass config view waiting).deferredWaiting := by
  obtain ⟨held, hsub, _, _, hput⟩ := collect_spec config view view.slots waiting
  unfold startPass at hx hy ⊢
  rw [hput] at hx hy ⊢
  have hxheld := (putBack_perm _ _).subset hx
  have hyheld := (putBack_perm _ _).subset hy
  rw [List.append_nil] at hxheld hyheld
  obtain ⟨p, hp, rfl⟩ := List.mem_map.mp hxheld
  obtain ⟨q, hq, rfl⟩ := List.mem_map.mp hyheld
  -- Among those with the same reason the order is that of the queue.
  have hpsame : p ∈ held.filter fun d => d.blockedBy = q.blockedBy :=
    List.mem_filter.mpr ⟨hp, decide_eq_true hreason⟩
  have hqsame : q ∈ held.filter fun d => d.blockedBy = q.blockedBy :=
    List.mem_filter.mpr ⟨hq, decide_eq_true rfl⟩
  have hids := (((hsub q.blockedBy).map QueuedAdmissionCandidate.id).trans
    (scanned_ids view waiting))
  rw [List.map_map] at hids
  have hin := hxy.restrict hnodup hids (List.mem_map_of_mem hpsame) (List.mem_map_of_mem hqsame)
  have hpq := InOrder.of_map _ (hnodup.sublist hids) hin hpsame hqsame
  apply putBack_inOrder List.Pairwise.nil _ hkey
  exact (hpq.mono List.filter_sublist).map PolicyDeferred.defer

theorem EqualRequests.symm {i j : Nat} (h : EqualRequests view waiting i j) :
    EqualRequests view waiting j i := by
  obtain ⟨x, hx, y, hy, hxi, hyj, hpriority, hhint⟩ := h
  exact ⟨y, hy, x, hx, hyj, hxi, hpriority.symm, hhint.symm⟩

theorem handedIds_nodup (hnodup : (waitingIds waiting).Nodup) :
    (handedIds config view waiting).Nodup :=
  nodup_candidates (startPass_ids config view waiting hnodup)

theorem givenFirst_comm (i j : Nat) :
    givenFirst config view waiting i j = givenFirst config view waiting j i := by
  unfold givenFirst
  simp only [Bool.or_comm]

theorem givenFirst_of_inOrder (hnodup : (waitingIds waiting).Nodup)
    (hbusy : view.cooldown ≠ .busy) {i j : Nat}
    (h : InOrder i j (handedIds config view waiting)) :
    givenFirst config view waiting i j = some i := by
  rw [givenFirst, if_neg hbusy]
  exact h.find?_eq (handedIds_nodup hnodup)

theorem mem_of_givenFirst {i j first : Nat}
    (h : givenFirst config view waiting i j = some first) :
    first ∈ handedIds config view waiting ∧ (first = i ∨ first = j) := by
  unfold givenFirst at h
  split at h
  · cases h
  · refine ⟨List.mem_of_find?_eq_some h, ?_⟩
    simpa using List.find?_some h

/-- Of two requests that the loop is given, the one that it is given first is in front. -/
theorem inOrder_of_givenFirst (hnodup : (waitingIds waiting).Nodup) {i j : Nat} (hne : i ≠ j)
    (h : givenFirst config view waiting i j = some i)
    (hj : j ∈ handedIds config view waiting) : InOrder i j (handedIds config view waiting) := by
  have hbusy : view.cooldown ≠ .busy := by
    intro heq
    rw [givenFirst, if_pos heq] at h
    cases h
  rcases total (mem_of_givenFirst h).1 hj hne with hin | hin
  · exact hin
  · rw [givenFirst_comm, givenFirst_of_inOrder hnodup hbusy hin] at h
    exact absurd (Option.some.inj h).symm hne

/-- What a tick does to the order of two equal requests that it holds back for one reason. -/
theorem assignSlots_inOrder (hnodup : (waitingIds waiting).Nodup) {i j : Nat}
    (hij : InOrder i j (waitingIds waiting)) (hheld : HeldAlike config view waiting i j) :
    InOrder i j (waitingIds (assignSlots config view waiting)) ↔
      givenFirst config view waiting i j ≠ some i := by
  have hafter := assignSlots_nodup config view waiting hnodup
  have hne := hij.ne hnodup
  unfold assignSlots at hafter ⊢
  rw [if_neg (by cases waiting with | nil => cases hij | cons => simp)] at hafter ⊢
  by_cases hbusy : view.cooldown = .busy
  · rw [if_pos hbusy, givenFirst, if_pos hbusy]
    exact iff_of_true hij (by simp)
  · rw [if_neg hbusy, restore_ids] at hafter ⊢
    obtain ⟨x, hx, y, hy, rfl, rfl, hpriority, hhint, hreason⟩ := hheld.resolve_left hbusy
    have hkey : x.key = y.key := by
      unfold DeferredWaitingRequest.key
      rw [hpriority, hhint]
    have hstart := startPass_ids config view waiting hnodup
    have hcandidates := nodup_candidates hstart
    rcases putBack_cases hx with ⟨hxp, hxl⟩ | ⟨c, hc, hxl, hxc⟩
    · rcases putBack_cases hy with ⟨hyp, _⟩ | ⟨d, hd, hyl, _⟩
      · have hkept := (policy_inOrder hnodup hxp hyp hij hkey hreason).mono
          (sublist_admissionLoop config (candidates config view waiting).length _).1
        refine iff_of_true (hkept.map DeferredWaitingRequest.id) fun hfirst => ?_
        obtain ⟨c, hc, hid⟩ := List.mem_map.mp (mem_of_givenFirst hfirst).1
        exact not_mem_deferred hstart hc hxp hid.symm
      · rw [hreason, hyl] at hxl
        cases hxl
    · rcases putBack_cases hy with ⟨_, hyl⟩ | ⟨d, hd, _, hyd⟩
      · rw [hreason, hyl] at hxl
        cases hxl
      · have hcd : c.incoming.priority = d.incoming.priority := by
          rw [hxc, hyd] at hpriority
          exact hpriority
        have hcdhint : c.hint = d.hint := by
          rw [hxc, hyd] at hhint
          exact hhint
        have hxid : x.id = c.id := congrArg DeferredWaitingRequest.id hxc
        have hyid : y.id = d.id := congrArg DeferredWaitingRequest.id hyd
        rw [hxid, hyid] at hij hne ⊢
        have hchand : c.id ∈ handedIds config view waiting := List.mem_map_of_mem hc
        have hdhand : d.id ∈ handedIds config view waiting := List.mem_map_of_mem hd
        constructor
        · intro hkept hfirst
          have hgiven := InOrder.of_map _ hcandidates
            (inOrder_of_givenFirst hnodup hne hfirst hdhand) hc hd
          have hswapped := (inverts config hstart hgiven hcd hcdhint hx hxid hy hyid).map
            DeferredWaitingRequest.id
          rw [hxid, hyid] at hswapped
          exact hkept.asymm hafter hswapped
        · intro hnot
          rcases total hchand hdhand hne with h | h
          · exact absurd (givenFirst_of_inOrder hnodup hbusy h) hnot
          · have hgiven := InOrder.of_map _ hcandidates h hd hc
            have hswapped := (inverts config hstart hgiven hcd.symm hcdhint.symm hy hyid hx
              hxid).map DeferredWaitingRequest.id
            rw [hxid, hyid] at hswapped
            exact hswapped

/-- A tick that admits a request runs the loop. -/
theorem admittedIds_eq {i : Nat} (hi : i ∈ admittedIds config view waiting) :
    ¬ waiting.isEmpty ∧ view.cooldown ≠ .busy ∧
      admittedIds config view waiting = (admissionPass config view waiting).admittedIds := by
  unfold admittedIds at hi ⊢
  split at hi
  · cases hi
  · rename_i hruns
    rw [Bool.or_eq_true, not_or, decide_eq_true_eq] at hruns
    exact ⟨hruns.1, hruns.2, if_neg (by simpa using hruns)⟩

theorem admittedIds_nodup (hnodup : (waitingIds waiting).Nodup) :
    (admittedIds config view waiting).Nodup := by
  unfold admittedIds
  split
  · exact List.nodup_nil
  · have hids := admissionPass_ids config view waiting hnodup
    exact (List.nodup_append'.mp (List.nodup_append'.mp hids).2.1).2.1

/-- A request that a tick admits was given to its loop. -/
theorem admittedIds_subset {i : Nat} (hi : i ∈ admittedIds config view waiting) :
    i ∈ handedIds config view waiting := by
  rw [(admittedIds_eq hi).2.2, admissionPass_eq] at hi
  obtain ⟨more, hmore, hin⟩ := admissionLoop_admitted config
    (candidates config view waiting).length (startPass config view waiting)
  unfold AdmissionPass.admittedIds at hi
  rw [hmore] at hi
  obtain ⟨a, ha, rfl⟩ := List.mem_map.mp hi
  exact List.mem_map_of_mem (hin a ha)

/-- A request that a tick admits does not wait any more. -/
theorem admitted_not_waiting (hnodup : (waitingIds waiting).Nodup) {i : Nat}
    (hi : i ∈ admittedIds config view waiting) :
    i ∉ waitingIds (assignSlots config view waiting) := by
  obtain ⟨hsome, hbusy, heq⟩ := admittedIds_eq hi
  rw [heq] at hi
  rw [assignSlots, if_neg hsome, if_neg hbusy, restore_ids]
  have hids := admissionPass_ids config view waiting hnodup
  exact fun hin => (List.nodup_append'.mp (List.nodup_append'.mp hids).2.1).2.2 hin hi

/-- Requests that a tick holds back alike still wait after it. -/
theorem HeldAlike.stay {i j : Nat} (h : HeldAlike config view waiting i j)
    (hij : InOrder i j (waitingIds waiting)) :
    i ∈ waitingIds (assignSlots config view waiting) ∧
      j ∈ waitingIds (assignSlots config view waiting) := by
  rw [assignSlots, if_neg (by cases waiting with | nil => cases hij | cons => simp)]
  split
  · exact ⟨hij.left_mem, hij.right_mem⟩
  · rename_i hbusy
    obtain ⟨x, hx, y, hy, rfl, rfl, _⟩ := h.resolve_left hbusy
    rw [restore_ids]
    exact ⟨List.mem_map_of_mem hx, List.mem_map_of_mem hy⟩

/-- Of two equal requests that a tick admits, the one that its loop is given first comes first. -/
theorem admits_givenFirst (hnodup : (waitingIds waiting).Nodup) {i j : Nat} (hne : i ≠ j)
    (hequal : EqualRequests view waiting i j)
    (hfirst : givenFirst config view waiting i j = some i)
    (hi : i ∈ admittedIds config view waiting) (hj : j ∈ admittedIds config view waiting) :
    InOrder i j (admittedIds config view waiting) := by
  obtain ⟨x, hx, y, hy, rfl, rfl, hpriority, hhint⟩ := hequal
  have hstart := startPass_ids config view waiting hnodup
  have hscanned := hnodup.sublist (scanned_ids view waiting)
  obtain ⟨held, _, _, hperm, _⟩ := collect_spec config view view.slots waiting
  -- The loop is given the scanned requests themselves.
  have hgiven : ∀ z ∈ scanned view waiting, z.id ∈ handedIds config view waiting →
      z ∈ candidates config view waiting := by
    intro z hz hin
    obtain ⟨c, hc, hid⟩ := List.mem_map.mp hin
    have hcs := hperm.subset (List.mem_append_left _ hc)
    exact List.inj_on_of_nodup_map hscanned hcs hz hid ▸ hc
  have hin := inOrder_of_givenFirst hnodup hne hfirst (admittedIds_subset hj)
  have hxy := InOrder.of_map QueuedAdmissionCandidate.id (nodup_candidates hstart) hin
    (hgiven x hx (admittedIds_subset hi)) (hgiven y hy (admittedIds_subset hj))
  have heq := (admittedIds_eq hi).2.2
  rw [heq, admissionPass_eq] at hi hj ⊢
  exact admits_inOrder config hstart hxy hpriority hhint hi hj

/-- What a tick does to two equal requests that it holds back alike, or of which it admits one. -/
theorem tick_inOrder (hnodup : (waitingIds waiting).Nodup) {i j : Nat}
    (hij : InOrder i j (waitingIds waiting))
    (halike : HeldAlike config view waiting i j ∨ AdmitsFirst config view waiting i j) :
    ((i ∈ waitingIds (assignSlots config view waiting) →
        j ∈ waitingIds (assignSlots config view waiting) →
        InOrder i j (waitingIds (assignSlots config view waiting))) ∧
      (j ∈ admittedIds config view waiting → InOrder i j (admittedIds config view waiting))) ↔
    (HeldAlike config view waiting i j → givenFirst config view waiting i j ≠ some i) ∧
      (AdmitsFirst config view waiting i j → givenFirst config view waiting i j ≠ some j) := by
  have hne := hij.ne hnodup
  -- A tick does not do both.
  have hexcl : HeldAlike config view waiting i j → ¬ AdmitsFirst config view waiting i j := by
    rintro hheld ⟨_, first, hadmitted, hfirst⟩
    obtain ⟨hi, hj⟩ := hheld.stay hij
    rcases (mem_of_givenFirst hfirst).2 with rfl | rfl
    · exact admitted_not_waiting hnodup hadmitted hi
    · exact admitted_not_waiting hnodup hadmitted hj
  rcases halike with hheld | hadmits
  · obtain ⟨hi, hj⟩ := hheld.stay hij
    have hkept := assignSlots_inOrder hnodup hij hheld
    constructor
    · rintro ⟨horder, _⟩
      exact ⟨fun _ => hkept.mp (horder hi hj), fun h => absurd h (hexcl hheld)⟩
    · rintro ⟨hgiven, _⟩
      exact ⟨fun _ _ => hkept.mpr (hgiven hheld),
        fun h => absurd hj (admitted_not_waiting hnodup h)⟩
  · obtain ⟨hequal, first, hadmitted, hfirst⟩ := hadmits
    have hwaits := admitted_not_waiting hnodup hadmitted
    rcases (mem_of_givenFirst hfirst).2 with rfl | rfl
    · -- The earlier one is given first.
      refine iff_of_true ⟨fun hi => absurd hi hwaits, fun hj => ?_⟩ ⟨fun h => ?_, fun _ => ?_⟩
      · exact admits_givenFirst hnodup hne hequal hfirst hadmitted hj
      · exact absurd (h.stay hij).1 hwaits
      · rw [hfirst]
        exact fun heq => hne (Option.some.inj heq)
    · refine iff_of_false ?_ fun h => h.2 ⟨hequal, _, hadmitted, hfirst⟩ hfirst
      rintro ⟨_, horder⟩
      have hin := horder hadmitted
      rw [givenFirst_comm] at hfirst
      have hswapped := admits_givenFirst hnodup hne.symm hequal.symm hfirst hadmitted hin.left_mem
      exact hin.asymm (admittedIds_nodup hnodup) hswapped

end Tick

/-! ## Runs -/

/-- What happens to the queue: a tick, a request that arrives, and one that is preempted. -/
inductive QueueOp
  | tick (view : TickView)
  | arrive (incoming : IncomingRequest)
  | requeue (incoming : IncomingRequest)

section Runs

variable (config : SchedulerConfig)

def QueueOp.apply (waiting : List IncomingRequest) : QueueOp → List IncomingRequest
  | .tick view => assignSlots config view waiting
  | .arrive incoming => insertWaitingRequestByPriority waiting incoming .afterEqual
  | .requeue incoming => insertWaitingRequestByPriority waiting incoming .beforeEqual

/-- The queue after a run. -/
def queueAfter (waiting : List IncomingRequest) (ops : List QueueOp) : List IncomingRequest :=
  ops.foldl (QueueOp.apply config) waiting

/-- Up to this operation both requests have waited all the time. -/
def BothWait (waiting : List IncomingRequest) (ops : List QueueOp) (i j k : Nat) : Prop :=
  ∀ m ≤ k, i ∈ waitingIds (queueAfter config waiting (ops.take m)) ∧
    j ∈ waitingIds (queueAfter config waiting (ops.take m))

/-- A tick holds both requests back in the same way, or admits the one that its loop is given first;
other requests are new. -/
def QueueOp.Alike (waiting : List IncomingRequest) (i j : Nat) : QueueOp → Prop
  | .tick view => HeldAlike config view waiting i j ∨ AdmitsFirst config view waiting i j
  | .arrive incoming => incoming.deltaTx ∉ waitingIds waiting
  | .requeue incoming => incoming.deltaTx ∉ waitingIds waiting

/-- A tick that holds both back does not give its loop the earlier one first, and a tick that admits
one does not give it the later one first. -/
def QueueOp.InTurn (waiting : List IncomingRequest) (i j : Nat) : QueueOp → Prop
  | .tick view =>
    (HeldAlike config view waiting i j → givenFirst config view waiting i j ≠ some i) ∧
      (AdmitsFirst config view waiting i j → givenFirst config view waiting i j ≠ some j)
  | .arrive _ => True
  | .requeue _ => True

def QueueOp.admits (waiting : List IncomingRequest) : QueueOp → List Nat
  | .tick view => admittedIds config view waiting
  | .arrive _ => []
  | .requeue _ => []

/-- As long as both wait, the earlier request is in front of the later one, and the later one is not
admitted before it. -/
def ComesFirst (waiting : List IncomingRequest) (ops : List QueueOp) (i j : Nat) : Prop :=
  ∀ k, BothWait config waiting ops i j k →
    InOrder i j (waitingIds (queueAfter config waiting (ops.take k))) ∧
    ∀ op, ops[k]? = some op →
      j ∈ op.admits config (queueAfter config waiting (ops.take k)) →
      InOrder i j (op.admits config (queueAfter config waiting (ops.take k)))

variable {config} {waiting : List IncomingRequest}

theorem insertWaiting_nodup {incoming : IncomingRequest} {bias : WaitingInsertBias}
    (hnodup : (waitingIds waiting).Nodup) (hnew : incoming.deltaTx ∉ waitingIds waiting) :
    (waitingIds (insertWaitingRequestByPriority waiting incoming bias)).Nodup := by
  have hperm := (insertFirst_perm (fun queued => waitingRequestPrecedes incoming.priority .default
    queued.priority .default bias) incoming waiting).map IncomingRequest.deltaTx
  exact hperm.symm.nodup (List.nodup_cons.mpr ⟨hnew, hnodup⟩)

theorem insertWaiting_inOrder {incoming : IncomingRequest} {bias : WaitingInsertBias} {i j : Nat}
    (hij : InOrder i j (waitingIds waiting)) :
    InOrder i j (waitingIds (insertWaitingRequestByPriority waiting incoming bias)) :=
  hij.mono ((sublist_insertFirst _ incoming waiting).map IncomingRequest.deltaTx)

theorem apply_nodup {op : QueueOp} {i j : Nat} (hnodup : (waitingIds waiting).Nodup)
    (hop : op.Alike config waiting i j) : (waitingIds (op.apply config waiting)).Nodup := by
  cases op with
  | tick view => exact assignSlots_nodup config view waiting hnodup
  | arrive incoming => exact insertWaiting_nodup hnodup hop
  | requeue incoming => exact insertWaiting_nodup hnodup hop

/-- What an operation does to two equal requests. -/
theorem apply_inOrder {op : QueueOp} {i j : Nat} (hnodup : (waitingIds waiting).Nodup)
    (hij : InOrder i j (waitingIds waiting)) (hop : op.Alike config waiting i j) :
    ((i ∈ waitingIds (op.apply config waiting) → j ∈ waitingIds (op.apply config waiting) →
        InOrder i j (waitingIds (op.apply config waiting))) ∧
      (j ∈ op.admits config waiting → InOrder i j (op.admits config waiting))) ↔
    op.InTurn config waiting i j := by
  cases op with
  | tick view => exact tick_inOrder hnodup hij hop
  | arrive incoming | requeue incoming =>
    exact iff_of_true ⟨fun _ _ => insertWaiting_inOrder hij, fun h => absurd h List.not_mem_nil⟩
      trivial

section Cons

variable {op : QueueOp} {ops : List QueueOp} {i j : Nat}

theorem bothWait_zero (hij : InOrder i j (waitingIds waiting)) :
    BothWait config waiting ops i j 0 := by
  intro m hm
  obtain rfl := Nat.le_zero.mp hm
  exact ⟨hij.left_mem, hij.right_mem⟩

theorem bothWait_succ (hij : InOrder i j (waitingIds waiting)) {k : Nat} :
    BothWait config waiting (op :: ops) i j (k + 1) ↔
      BothWait config (op.apply config waiting) ops i j k := by
  constructor
  · exact fun h m hm => h (m + 1) (Nat.succ_le_succ hm)
  · intro h m hm
    cases m with
    | zero => exact ⟨hij.left_mem, hij.right_mem⟩
    | succ m => exact h m (Nat.le_of_succ_le_succ hm)

end Cons

/-- Of two equal requests the earlier one stays in front and is admitted first, whatever else
arrives, exactly if every tick of the run takes the two in turn. -/
theorem equal_order_kept_iff (config : SchedulerConfig) (waiting : List IncomingRequest)
    (ops : List QueueOp) (i j : Nat) (hnodup : (waitingIds waiting).Nodup)
    (hij : InOrder i j (waitingIds waiting))
    (halike : ∀ (k : Nat) (op : QueueOp), ops[k]? = some op →
      BothWait config waiting ops i j k →
      op.Alike config (queueAfter config waiting (ops.take k)) i j) :
    ComesFirst config waiting ops i j ↔
      ∀ (k : Nat) (op : QueueOp), ops[k]? = some op → BothWait config waiting ops i j k →
        op.InTurn config (queueAfter config waiting (ops.take k)) i j := by
  induction ops generalizing waiting with
  | nil =>
    constructor
    · intro _ k op hop
      cases hop
    · intro _ k _
      rw [List.take_nil]
      exact ⟨hij, fun op hop => by cases hop⟩
  | cons op ops ih =>
    have hfirst := halike 0 op rfl (bothWait_zero hij)
    have hstep := apply_inOrder hnodup hij hfirst
    have hnext := apply_nodup hnodup hfirst
    have hrest : ∀ (k : Nat) (op' : QueueOp), ops[k]? = some op' →
        BothWait config (op.apply config waiting) ops i j k →
        op'.Alike config (queueAfter config (op.apply config waiting) (ops.take k)) i j :=
      fun k op' hop hwait => halike (k + 1) op' hop ((bothWait_succ hij).mpr hwait)
    constructor
    · intro hcomes k op' hop hwait
      cases k with
      | zero =>
        cases hop
        refine hstep.mp ⟨fun hi hj => ?_, (hcomes 0 hwait).2 op rfl⟩
        refine (hcomes 1 ((bothWait_succ hij).mpr fun m hm => ?_)).1
        obtain rfl := Nat.le_zero.mp hm
        exact ⟨hi, hj⟩
      | succ k =>
        have hwait' := (bothWait_succ hij).mp hwait
        have hone := (hcomes 1 ((bothWait_succ hij).mpr fun m hm =>
          hwait' m (Nat.le_trans hm (Nat.zero_le k)))).1
        exact (ih _ hnext hone hrest).mp
          (fun k hwait => hcomes (k + 1) ((bothWait_succ hij).mpr hwait)) k op' hop hwait'
    · intro hturn k hwait
      obtain ⟨horder, hadmits⟩ := hstep.mpr (hturn 0 op rfl (bothWait_zero hij))
      cases k with
      | zero =>
        refine ⟨hij, fun op' hop => ?_⟩
        cases hop
        exact hadmits
      | succ k =>
        have hwait' := (bothWait_succ hij).mp hwait
        obtain ⟨hi, hj⟩ := hwait' 0 (Nat.zero_le k)
        exact (ih _ hnext (horder hi hj) hrest).mpr (fun k op' hop hwait =>
          hturn (k + 1) op' hop ((bothWait_succ hij).mpr hwait)) k hwait'

end Runs

/-! ## Two cold requests -/

def coldRequest (deltaTx : Nat) : IncomingRequest :=
  { deltaTx, priority := .normal, promptTokens := some [7], maxTokens := 4 }

def coldPlan : PrefixAdmissionPlan :=
  { matchedLen := 0
    recomputeAdvised := false
    reusable := none
    directGpuAttach := false
    stagedMatchedLen := none
    sessionSlotHold := false
    sessionAffinityTokens := 0 }

/-- A tick in which only these slots are free. -/
def coldTick (freeSlots : List Nat) : TickView :=
  { isClosed := fun _ => false
    plan := fun _ => coldPlan
    cooldown := .inactive
    freeSlots
    admissionBudget := ⟨0, [], [], 16, false⟩
    longPrefillActive := 0 }

def plainConfig : SchedulerConfig :=
  { prefixAware := false
    prefixCacheEnabled := true
    maxWaitingRequests := 4
    coldHeadroom := some 3
    maxSlots := 1
    longPrefillActiveLimit := none
    longPrefillTokenThreshold := 512 }

/-- One cold request may wait; the policy holds the others back. -/
def prefixAwareConfig : SchedulerConfig := { plainConfig with prefixAware := true }

/-- Two equal requests wait, and there is no free slot. After one tick the later one is in front,
and the next tick gives it the slot that has become free. -/
theorem later_request_overtakes :
    (HeldAlike plainConfig (coldTick []) [coldRequest 1, coldRequest 2] 1 2 ∧
      assignSlots plainConfig (coldTick []) [coldRequest 1, coldRequest 2] =
        [coldRequest 2, coldRequest 1]) ∧
    (admittedIds plainConfig (coldTick [0]) [coldRequest 2, coldRequest 1] = [2] ∧
      assignSlots plainConfig (coldTick [0]) [coldRequest 2, coldRequest 1] = [coldRequest 1]) ∧
    ¬ ComesFirst plainConfig [coldRequest 1, coldRequest 2]
      [.tick (coldTick []), .tick (coldTick [0])] 1 2 := by
  refine ⟨⟨.inr ⟨_, .tail _ (.head _), _, .head _, rfl, rfl, rfl, rfl, rfl⟩, rfl⟩, ⟨rfl, rfl⟩, ?_⟩
  intro hcomes
  have hwait : BothWait plainConfig [coldRequest 1, coldRequest 2]
      [.tick (coldTick []), .tick (coldTick [0])] 1 2 1 := by
    intro m hm
    rcases m with _ | _ | m
    · exact ⟨.head _, .tail _ (.head _)⟩
    · exact ⟨.tail _ (.head _), .head _⟩
    · omega
  have horder : InOrder 1 2 [2, 1] := (hcomes 1 hwait).1
  exact horder.asymm (by decide) (.refl _)

/-- The policy holds both back until a slot is free. -/
def coldRun : List QueueOp :=
  [.tick (coldTick []), .arrive (coldRequest 3), .tick (coldTick []), .tick (coldTick [0])]

/-- The earlier request gets the slot. -/
theorem equal_order_kept_iff_cold :
    ComesFirst prefixAwareConfig [coldRequest 1, coldRequest 2] coldRun 1 2 ∧
      admittedIds prefixAwareConfig (coldTick [0])
        (queueAfter prefixAwareConfig [coldRequest 1, coldRequest 2] (coldRun.take 3)) = [1] := by
  refine ⟨(equal_order_kept_iff prefixAwareConfig [coldRequest 1, coldRequest 2] coldRun 1 2
    (by decide) (.refl _) ?_).mpr ?_, rfl⟩
  · intro k op hop _
    rcases k with _ | _ | _ | _ | k
    · cases hop
      exact .inl (.inr ⟨_, .head _, _, .tail _ (.head _), rfl, rfl, rfl, rfl, rfl⟩)
    · cases hop
      show 3 ∉ [1, 2]
      decide
    · cases hop
      exact .inl (.inr ⟨_, .head _, _, .tail _ (.head _), rfl, rfl, rfl, rfl, rfl⟩)
    · cases hop
      exact .inr ⟨⟨_, .head _, _, .tail _ (.head _), rfl, rfl, rfl, rfl⟩, 1, .head _, rfl⟩
    · cases hop
  · intro k op hop _
    rcases k with _ | _ | _ | _ | k
    · cases hop
      exact ⟨fun _ => by decide, fun _ => by decide⟩
    · cases hop
      trivial
    · cases hop
      exact ⟨fun _ => by decide, fun _ => by decide⟩
    · cases hop
      refine ⟨fun hheld => ?_, fun _ => by decide⟩
      -- The last tick admits the earlier one, so it does not hold it back.
      have hin := (hheld.stay (cons_iff.mpr (.inl ⟨rfl, .head _⟩))).1
      exact absurd hin (by decide)
    · cases hop

end Arle.Scheduler.Cuda
