import Mathlib
import Arle.Lib.InOrder
import Arle.Lib.Run
import Arle.Scheduler.Cuda.Admission

/-!
# The order of equal requests

Requests that the policy holds back keep their order; those that the loop puts back are inserted
before their equals, so that two of them change places in every tick.
-/

namespace Arle.Scheduler.Cuda

open InOrder

/-! ## The test of the insertions -/

/-- What a deferred request is inserted by. -/
def DeferredWaitingRequest.key (self : DeferredWaitingRequest) : Nat ×ₗ Nat ×ₗ Nat ×ₗ Nat :=
  toLex (self.incoming.priority.rank, self.hint.key)

theorem precedes_afterEqual {ip qp : RequestPriority} {ih qh : WaitingRequestHint} :
    waitingRequestPrecedes ip ih qp qh .afterEqual = true ↔
      toLex (qp.rank, qh.key) < toLex (ip.rank, ih.key) := by
  unfold waitingRequestPrecedes
  rw [Prod.Lex.toLex_lt_toLex]
  rcases lt_trichotomy ip.rank qp.rank with hrank | hrank | hrank
  · rw [compare_lt_iff_lt.mpr hrank]
    simp [hrank.not_gt, hrank.ne']
  · rw [compare_eq_iff_eq.mpr hrank]
    rcases lt_trichotomy ih.key qh.key with hkey | hkey | hkey
    · rw [compare_lt_iff_lt.mpr hkey]
      simp [hrank, hkey.not_gt]
    · rw [compare_eq_iff_eq.mpr hkey]
      simp [hrank, hkey]
    · rw [compare_gt_iff_gt.mpr hkey]
      simp [hrank, hkey]
  · rw [compare_gt_iff_gt.mpr hrank]
    simp [hrank]

theorem precedes_beforeEqual {ip qp : RequestPriority} {ih qh : WaitingRequestHint} :
    waitingRequestPrecedes ip ih qp qh .beforeEqual = true ↔
      toLex (qp.rank, qh.key) ≤ toLex (ip.rank, ih.key) := by
  unfold waitingRequestPrecedes
  rw [Prod.Lex.toLex_le_toLex]
  rcases lt_trichotomy ip.rank qp.rank with hrank | hrank | hrank
  · rw [compare_lt_iff_lt.mpr hrank]
    simp [hrank.not_gt, hrank.ne']
  · rw [compare_eq_iff_eq.mpr hrank]
    rcases lt_trichotomy ih.key qh.key with hkey | hkey | hkey
    · rw [compare_lt_iff_lt.mpr hkey]
      simp [hrank, hkey]
    · rw [compare_eq_iff_eq.mpr hkey]
      simp [hrank, hkey]
    · rw [compare_gt_iff_gt.mpr hkey]
      simp [hrank, hkey.le]
  · rw [compare_gt_iff_gt.mpr hrank]
    simp [hrank]

section Deferred

variable {waiting : List DeferredWaitingRequest} {incoming x : DeferredWaitingRequest}
  {bias : WaitingInsertBias}

theorem insertDeferred_perm (waiting : List DeferredWaitingRequest)
    (incoming : DeferredWaitingRequest) (bias : WaitingInsertBias) :
    (insertDeferredWaitingRequest waiting incoming bias).Perm (incoming :: waiting) :=
  insertFirst_perm _ _ _

theorem sublist_insertDeferred (waiting : List DeferredWaitingRequest)
    (incoming : DeferredWaitingRequest) (bias : WaitingInsertBias) :
    waiting.Sublist (insertDeferredWaitingRequest waiting incoming bias) :=
  sublist_insertFirst _ _ _

/-- A request that is inserted before its equals comes before them. -/
theorem insertDeferred_before (hx : x ∈ waiting) (hkey : x.key = incoming.key) :
    InOrder incoming x (insertDeferredWaitingRequest waiting incoming .beforeEqual) := by
  apply insertFirst_before hx
  exact precedes_beforeEqual.mpr hkey.le

/-- A request that is inserted after its equals comes behind them, if the keys fall. -/
theorem insertDeferred_behind
    (hsorted : waiting.Pairwise fun a b => b.key ≤ a.key) (hx : x ∈ waiting)
    (hkey : x.key = incoming.key) :
    InOrder x incoming (insertDeferredWaitingRequest waiting incoming .afterEqual) := by
  apply insertFirst_behind DeferredWaitingRequest.key hsorted _ hx hkey.ge
  exact fun y hy => precedes_afterEqual.mp hy

theorem insertDeferred_sorted (hsorted : waiting.Pairwise fun a b => b.key ≤ a.key) :
    (insertDeferredWaitingRequest waiting incoming .afterEqual).Pairwise
      fun a b => b.key ≤ a.key := by
  apply insertFirst_sorted DeferredWaitingRequest.key hsorted
  · exact fun y hy => (precedes_afterEqual.mp hy).le
  · intro y hy
    by_contra hlt
    rw [precedes_afterEqual.mpr (not_le.mp hlt)] at hy
    cases hy

end Deferred

/-! ## The policy -/

/-- The requests that the policy holds back, in the order in which they are put back. -/
def putBack (xs waiting : List DeferredWaitingRequest) : List DeferredWaitingRequest :=
  xs.foldl (fun waiting x => insertDeferredWaitingRequest waiting x .afterEqual) waiting

section PutBack

variable {xs waiting : List DeferredWaitingRequest} {x y : DeferredWaitingRequest}

theorem putBack_perm (xs waiting : List DeferredWaitingRequest) :
    (putBack xs waiting).Perm (xs ++ waiting) := by
  induction xs generalizing waiting with
  | nil => exact .refl _
  | cons x xs ih =>
    have hperm := (insertDeferred_perm waiting x .afterEqual).append_left xs
    exact (ih _).trans (hperm.trans List.perm_middle)

theorem sublist_putBack (xs waiting : List DeferredWaitingRequest) :
    waiting.Sublist (putBack xs waiting) := by
  induction xs generalizing waiting with
  | nil => exact .refl _
  | cons x xs ih => exact (sublist_insertDeferred waiting x .afterEqual).trans (ih _)

theorem putBack_behind (hsorted : waiting.Pairwise fun a b => b.key ≤ a.key) (hx : x ∈ waiting)
    (hy : y ∈ xs) (hkey : x.key = y.key) : InOrder x y (putBack xs waiting) := by
  induction xs generalizing waiting with
  | nil => cases hy
  | cons z xs ih =>
    rcases List.mem_cons.mp hy with rfl | hyl
    · exact (insertDeferred_behind hsorted hx hkey).mono (sublist_putBack xs _)
    · apply ih (insertDeferred_sorted hsorted) _ hyl
      exact (sublist_insertDeferred waiting z .afterEqual).subset hx

/-- Equal requests keep their order. -/
theorem putBack_inOrder (hsorted : waiting.Pairwise fun a b => b.key ≤ a.key)
    (h : InOrder x y xs) (hkey : x.key = y.key) : InOrder x y (putBack xs waiting) := by
  induction xs generalizing waiting with
  | nil => cases h
  | cons z xs ih =>
    rcases cons_iff.mp h with ⟨rfl, hy⟩ | hl
    · apply putBack_behind (insertDeferred_sorted hsorted) _ hy hkey
      exact (insertDeferred_perm waiting x .afterEqual).symm.subset List.mem_cons_self
    · exact ih (insertDeferred_sorted hsorted) hl

end PutBack

/-! ## The loop -/

def QueuedAdmissionCandidate.id (self : QueuedAdmissionCandidate) : Nat := self.incoming.deltaTx

def DeferredWaitingRequest.id (self : DeferredWaitingRequest) : Nat := self.incoming.deltaTx

/-- The condition is one that the loop checks. -/
def BlockedBy.inLoop : BlockedBy → Bool
  | .policy => false
  | .blockedPriority => false
  | .longPrefillLimit => true
  | .noFreeSlot => true
  | .pageBudget => true

/-- The requests that a pass has in its three lists. -/
def AdmissionPass.ids (pass : AdmissionPass) : List Nat :=
  pass.candidates.map QueuedAdmissionCandidate.id ++
    (pass.deferredWaiting.map DeferredWaitingRequest.id ++ pass.admitted.map fun a => a.1.id)

theorem chooseSessionAffinityCandidate_lt {candidates : List QueuedAdmissionCandidate}
    (h : candidates ≠ []) : chooseSessionAffinityCandidate candidates < candidates.length := by
  cases candidates with
  | nil => exact absurd rfl h
  | cons head rest =>
    unfold chooseSessionAffinityCandidate
    dsimp only
    split
    · assumption
    · exact Nat.succ_pos _

/-- A candidate is not chosen before an equal one that comes before it. -/
theorem choose_of_inOrder {candidates : List QueuedAdmissionCandidate} {i j : Nat}
    {x y : QueuedAdmissionCandidate} (hi : candidates[i]? = some x) (hj : candidates[j]? = some y)
    (hij : i < j) (hpriority : x.incoming.priority = y.incoming.priority)
    (hhint : x.hint = y.hint) : chooseSessionAffinityCandidate candidates ≠ j := by
  cases candidates with
  | nil => cases hi
  | cons head rest =>
    unfold chooseSessionAffinityCandidate
    dsimp only
    split
    · rename_i hlt
      intro heq
      obtain ⟨hjlt, hget⟩ := List.getElem?_eq_some_iff.mp hj
      obtain ⟨hilt, higet⟩ := List.getElem?_eq_some_iff.mp hi
      have hchosen := List.findIdx_getElem (w := hlt)
      have hbefore := List.not_of_lt_findIdx (heq ▸ hij)
      simp only [heq, hget] at hchosen
      rw [higet, hpriority, hhint, hchosen] at hbefore
      cases hbefore
    · omega

section Round

variable {config : SchedulerConfig} {pass : AdmissionPass} {c x y : QueuedAdmissionCandidate}
  {rest : List QueuedAdmissionCandidate}

@[simp] theorem candidates_round : (pass.round config c rest).candidates = rest := by
  unfold AdmissionPass.round
  split <;> rfl

/-- A round puts its candidate back or admits it. -/
theorem round_cases (config : SchedulerConfig) (pass : AdmissionPass)
    (c : QueuedAdmissionCandidate) (rest : List QueuedAdmissionCandidate) :
    (∃ blockedBy, blockedBy.inLoop = true ∧ (pass.round config c rest).deferredWaiting =
        insertDeferredWaitingRequest pass.deferredWaiting (c.defer blockedBy) .beforeEqual ∧
      (pass.round config c rest).admitted = pass.admitted) ∨
    ∃ slot, (pass.round config c rest).deferredWaiting = pass.deferredWaiting ∧
      (pass.round config c rest).admitted = pass.admitted ++ [(c, slot)] := by
  unfold AdmissionPass.round
  cases hadmits : admits config pass c with
  | ok slot => exact .inr ⟨slot.1, rfl, rfl⟩
  | error blockedBy =>
    refine .inl ⟨blockedBy, ?_, rfl, rfl⟩
    unfold admits at hadmits
    dsimp only at hadmits
    split at hadmits
    · cases hadmits
      rfl
    · split at hadmits
      · cases hadmits
        rfl
      · split at hadmits
        · cases hadmits
        · cases hadmits
          rfl

theorem ids_round (hperm : pass.candidates.Perm (c :: rest)) :
    (pass.round config c rest).ids.Perm pass.ids := by
  have hcandidates : (pass.candidates.map QueuedAdmissionCandidate.id).Perm
      (c.id :: rest.map QueuedAdmissionCandidate.id) := hperm.map _
  unfold AdmissionPass.ids
  rw [candidates_round]
  refine .trans ?_ (hcandidates.append_right _).symm
  rw [List.cons_append]
  refine .trans (.append_left _ ?_) List.perm_middle
  rcases round_cases config pass c rest with ⟨blockedBy, _, hdeferred, hadmitted⟩ |
    ⟨slot, hdeferred, hadmitted⟩
  · rw [hdeferred, hadmitted]
    exact ((insertDeferred_perm pass.deferredWaiting (c.defer blockedBy)
      .beforeEqual).map DeferredWaitingRequest.id).append_right _
  · rw [hdeferred, hadmitted, List.map_append, ← List.append_assoc]
    exact List.perm_append_singleton _ _

end Round

section Loop

variable (config : SchedulerConfig)

/-- The loop ends, or takes the chosen candidate. -/
theorem admissionLoop_succ (fuel : Nat) (pass : AdmissionPass) :
    (pass.candidates = [] ∧ admissionLoop config (fuel + 1) pass = pass) ∨
    ∃ c, pass.candidates[chooseSessionAffinityCandidate pass.candidates]? = some c ∧
      pass.candidates.Perm
        (c :: pass.candidates.eraseIdx (chooseSessionAffinityCandidate pass.candidates)) ∧
      admissionLoop config (fuel + 1) pass = admissionLoop config fuel (pass.round config c
        (pass.candidates.eraseIdx (chooseSessionAffinityCandidate pass.candidates))) := by
  by_cases hnil : pass.candidates = []
  · refine .inl ⟨hnil, ?_⟩
    simp only [admissionLoop, hnil, List.getElem?_nil]
  · have hlt := chooseSessionAffinityCandidate_lt hnil
    have hget := List.getElem?_eq_getElem hlt
    refine .inr ⟨_, hget, (List.getElem_cons_eraseIdx_perm hlt).symm, ?_⟩
    simp only [admissionLoop, hget]

theorem ids_admissionLoop (fuel : Nat) (pass : AdmissionPass) :
    (admissionLoop config fuel pass).ids.Perm pass.ids := by
  induction fuel generalizing pass with
  | zero => exact .refl _
  | succ fuel ih =>
    rcases admissionLoop_succ config fuel pass with ⟨_, heq⟩ | ⟨c, _, hperm, heq⟩
    · rw [heq]
    · rw [heq]
      exact (ih _).trans (ids_round hperm)

theorem sublist_admissionLoop (fuel : Nat) (pass : AdmissionPass) :
    pass.deferredWaiting.Sublist (admissionLoop config fuel pass).deferredWaiting ∧
      pass.admitted.Sublist (admissionLoop config fuel pass).admitted := by
  induction fuel generalizing pass with
  | zero => exact ⟨.refl _, .refl _⟩
  | succ fuel ih =>
    rcases admissionLoop_succ config fuel pass with ⟨_, heq⟩ | ⟨c, _, _, heq⟩
    · rw [heq]
      exact ⟨.refl _, .refl _⟩
    · rw [heq]
      obtain ⟨hdeferred, hadmitted⟩ := ih (pass.round config c
        (pass.candidates.eraseIdx (chooseSessionAffinityCandidate pass.candidates)))
      rcases round_cases config pass c (pass.candidates.eraseIdx
        (chooseSessionAffinityCandidate pass.candidates)) with
        ⟨_, _, hd, ha⟩ | ⟨_, hd, ha⟩
      · rw [hd] at hdeferred
        rw [ha] at hadmitted
        exact ⟨(sublist_insertDeferred _ _ _).trans hdeferred, hadmitted⟩
      · rw [hd] at hdeferred
        rw [ha] at hadmitted
        exact ⟨hdeferred, (List.sublist_append_left _ _).trans hadmitted⟩

/-- What the loop puts back was put back before, or is a candidate that it blocked. -/
theorem admissionLoop_blocked (fuel : Nat) (pass : AdmissionPass) {d : DeferredWaitingRequest}
    (hd : d ∈ (admissionLoop config fuel pass).deferredWaiting) :
    d ∈ pass.deferredWaiting ∨
      ∃ c ∈ pass.candidates, d.blockedBy.inLoop = true ∧ d = c.defer d.blockedBy := by
  induction fuel generalizing pass with
  | zero => exact .inl hd
  | succ fuel ih =>
    rcases admissionLoop_succ config fuel pass with ⟨_, heq⟩ | ⟨c, _, hperm, heq⟩
    · rw [heq] at hd
      exact .inl hd
    · rw [heq] at hd
      rcases ih _ hd with hold | ⟨c', hc', hloop, hd'⟩
      · rcases round_cases config pass c (pass.candidates.eraseIdx
          (chooseSessionAffinityCandidate pass.candidates)) with
          ⟨blockedBy, hloop, hround, _⟩ | ⟨_, hround, _⟩
        · rw [hround] at hold
          rcases List.mem_cons.mp ((insertDeferred_perm _ _ _).subset hold) with rfl | hold
          · exact .inr ⟨c, hperm.symm.subset List.mem_cons_self, hloop, rfl⟩
          · exact .inl hold
        · rw [hround] at hold
          exact .inl hold
      · rw [candidates_round] at hc'
        exact .inr ⟨c', List.mem_of_mem_eraseIdx hc', hloop, hd'⟩

/-- A candidate that is taken is put back in front of its equals, or it is admitted. -/
theorem admissionLoop_taken {fuel : Nat} {pass : AdmissionPass} (hnodup : pass.ids.Nodup)
    {c : QueuedAdmissionCandidate} {rest : List QueuedAdmissionCandidate}
    (hperm : pass.candidates.Perm (c :: rest)) {c' : DeferredWaitingRequest}
    (hc' : c' ∈ (admissionLoop config fuel (pass.round config c rest)).deferredWaiting)
    (hid : c'.id = c.id) :
    ∃ blockedBy, c' = c.defer blockedBy ∧ (pass.round config c rest).deferredWaiting =
      insertDeferredWaitingRequest pass.deferredWaiting c' .beforeEqual := by
  obtain ⟨hdeferred, hadmitted⟩ :=
    sublist_admissionLoop config fuel (pass.round config c rest)
  have hids : (admissionLoop config fuel (pass.round config c rest)).ids.Nodup :=
    ((ids_admissionLoop config fuel _).trans (ids_round hperm)).symm.nodup hnodup
  have hparts := (List.nodup_append'.mp (List.nodup_append'.mp hids).2.1)
  rcases round_cases config pass c rest with ⟨blockedBy, _, hround, _⟩ | ⟨slot, _, hround⟩
  · have hmem : c.defer blockedBy ∈
        (admissionLoop config fuel (pass.round config c rest)).deferredWaiting := by
      apply hdeferred.subset
      rw [hround]
      exact (insertDeferred_perm _ _ _).symm.subset List.mem_cons_self
    have heq : c' = c.defer blockedBy := List.inj_on_of_nodup_map hparts.1 hc' hmem hid
    exact ⟨blockedBy, heq, heq ▸ hround⟩
  · have hmem : (c, slot) ∈ (admissionLoop config fuel (pass.round config c rest)).admitted := by
      apply hadmitted.subset
      rw [hround]
      exact List.mem_append_right _ List.mem_cons_self
    have hin := List.mem_map_of_mem (f := DeferredWaitingRequest.id) hc'
    rw [hid] at hin
    exact absurd (List.mem_map_of_mem (f := fun a => a.1.id) hmem) (hparts.2.2 hin)

/-- What the loop admits comes behind what is admitted already, and was a candidate. -/
theorem admissionLoop_admitted (fuel : Nat) (pass : AdmissionPass) :
    ∃ more, (admissionLoop config fuel pass).admitted = pass.admitted ++ more ∧
      ∀ a ∈ more, a.1 ∈ pass.candidates := by
  induction fuel generalizing pass with
  | zero => exact ⟨[], (List.append_nil _).symm, fun a ha => absurd ha List.not_mem_nil⟩
  | succ fuel ih =>
    rcases admissionLoop_succ config fuel pass with ⟨_, heq⟩ | ⟨c, _, hperm, heq⟩
    · rw [heq]
      exact ⟨[], (List.append_nil _).symm, fun a ha => absurd ha List.not_mem_nil⟩
    · rw [heq]
      obtain ⟨more, hmore, hin⟩ := ih (pass.round config c
        (pass.candidates.eraseIdx (chooseSessionAffinityCandidate pass.candidates)))
      rw [candidates_round] at hin
      have hrest : ∀ a ∈ more, a.1 ∈ pass.candidates :=
        fun a ha => List.mem_of_mem_eraseIdx (hin a ha)
      rcases round_cases config pass c (pass.candidates.eraseIdx
        (chooseSessionAffinityCandidate pass.candidates)) with ⟨_, _, _, ha⟩ | ⟨slot, _, ha⟩
      · rw [ha] at hmore
        exact ⟨more, hmore, hrest⟩
      · rw [ha, List.append_assoc] at hmore
        refine ⟨_, hmore, fun a ha => ?_⟩
        rcases List.mem_cons.mp ha with rfl | ha
        · exact hperm.symm.subset List.mem_cons_self
        · exact hrest a ha

/-- The requests that a pass has admitted. -/
def AdmissionPass.admittedIds (pass : AdmissionPass) : List Nat :=
  pass.admitted.map fun a => a.1.id

def QueuedAdmissionCandidate.key (self : QueuedAdmissionCandidate) : Nat ×ₗ Nat ×ₗ Nat ×ₗ Nat :=
  toLex (self.incoming.priority.rank, self.hint.key)

section Order

variable {fuel : Nat} {pass : AdmissionPass}

/-- A list of a pass has no two requests with one id. -/
theorem nodup_candidates (hnodup : pass.ids.Nodup) :
    (pass.candidates.map QueuedAdmissionCandidate.id).Nodup :=
  (List.nodup_append'.mp hnodup).1

theorem not_mem_deferred (hnodup : pass.ids.Nodup) {c : QueuedAdmissionCandidate}
    {d : DeferredWaitingRequest} (hc : c ∈ pass.candidates) (hd : d ∈ pass.deferredWaiting) :
    d.id ≠ c.id := by
  intro heq
  have hin := List.mem_map_of_mem (f := QueuedAdmissionCandidate.id) hc
  apply (List.nodup_append'.mp hnodup).2.2 hin
  rw [← heq]
  exact List.mem_append_left _ (List.mem_map_of_mem hd)

/-- A candidate that the loop puts back comes before an equal one that is put back already. -/
theorem overtakes (hnodup : pass.ids.Nodup) {x y' : DeferredWaitingRequest}
    {y : QueuedAdmissionCandidate} (hx : x ∈ pass.deferredWaiting) (hy : y ∈ pass.candidates)
    (hkey : x.key = y.key)
    (hy' : y' ∈ (admissionLoop config fuel pass).deferredWaiting) (hid : y'.id = y.id) :
    InOrder y' x (admissionLoop config fuel pass).deferredWaiting := by
  induction fuel generalizing pass with
  | zero => exact absurd hid (not_mem_deferred hnodup hy hy')
  | succ fuel ih =>
    rcases admissionLoop_succ config fuel pass with ⟨hnil, _⟩ | ⟨c, _, hperm, heq⟩
    · rw [hnil] at hy
      cases hy
    · rw [heq] at hy' ⊢
      have hround : (pass.round config c _).ids.Nodup := (ids_round hperm).symm.nodup hnodup
      rcases List.mem_cons.mp (hperm.subset hy) with hyc | hyrest
      · rw [← hyc] at hy' hperm ⊢
        obtain ⟨blockedBy, rfl, hput⟩ := admissionLoop_taken config hnodup hperm hy' hid
        apply InOrder.mono _ (sublist_admissionLoop config fuel _).1
        rw [hput]
        exact insertDeferred_before hx hkey
      · apply ih hround _ _ hy'
        · rcases round_cases config pass c (pass.candidates.eraseIdx
            (chooseSessionAffinityCandidate pass.candidates)) with ⟨_, _, hput, _⟩ | ⟨_, hput, _⟩
          · rw [hput]
            exact (sublist_insertDeferred _ _ _).subset hx
          · rw [hput]
            exact hx
        · rw [candidates_round]
          exact hyrest

/-- Of two equal candidates the later one is not the one that is taken. -/
theorem later_not_taken (hnodup : pass.ids.Nodup) {x y c : QueuedAdmissionCandidate}
    (hxy : InOrder x y pass.candidates)
    (hpriority : x.incoming.priority = y.incoming.priority) (hhint : x.hint = y.hint)
    (hget : pass.candidates[chooseSessionAffinityCandidate pass.candidates]? = some c) :
    y ≠ c := by
  rintro rfl
  obtain ⟨i, j, hij, hi, hj⟩ := hxy.exists_index
  apply choose_of_inOrder hi hj hij hpriority hhint
  obtain ⟨hlt, _⟩ := List.getElem?_eq_some_iff.mp hget
  exact (List.getElem?_inj hlt (nodup_candidates hnodup).of_map).mp (hget.trans hj.symm)

/-- Two equal candidates that the loop puts back change places. -/
theorem inverts (hnodup : pass.ids.Nodup) {x y : QueuedAdmissionCandidate}
    {x' y' : DeferredWaitingRequest} (hxy : InOrder x y pass.candidates)
    (hpriority : x.incoming.priority = y.incoming.priority) (hhint : x.hint = y.hint)
    (hx' : x' ∈ (admissionLoop config fuel pass).deferredWaiting) (hxid : x'.id = x.id)
    (hy' : y' ∈ (admissionLoop config fuel pass).deferredWaiting) (hyid : y'.id = y.id) :
    InOrder y' x' (admissionLoop config fuel pass).deferredWaiting := by
  induction fuel generalizing pass with
  | zero => exact absurd hxid (not_mem_deferred hnodup hxy.left_mem hx')
  | succ fuel ih =>
    rcases admissionLoop_succ config fuel pass with ⟨hnil, _⟩ | ⟨c, hget, hperm, heq⟩
    · rw [hnil] at hxy
      cases hxy
    · rw [heq] at hx' hy' ⊢
      have hround : (pass.round config c _).ids.Nodup := (ids_round hperm).symm.nodup hnodup
      have hcandidates : pass.candidates.Nodup := (nodup_candidates hnodup).of_map
      have hcy := later_not_taken hnodup hxy hpriority hhint hget
      have hyrest := (List.mem_cons.mp (hperm.subset hxy.right_mem)).resolve_left hcy
      rcases List.mem_cons.mp (hperm.subset hxy.left_mem) with hxc | hxrest
      · rw [← hxc] at hx' hy' hperm hround ⊢
        obtain ⟨blockedBy, rfl, hput⟩ := admissionLoop_taken config hnodup hperm hx' hxid
        refine overtakes config hround (y := y) ?_ ?_ ?_ hy' hyid
        · rw [hput]
          exact (insertDeferred_perm _ _ _).symm.subset List.mem_cons_self
        · rw [candidates_round]
          exact hyrest
        · exact congrArg₂ (fun priority hint => toLex (priority.rank, hint.key)) hpriority hhint
      · apply ih hround _ hx' hy'
        rw [candidates_round]
        exact hxy.restrict hcandidates (List.eraseIdx_sublist _ _) hxrest hyrest

theorem not_mem_admitted (hnodup : pass.ids.Nodup) {c : QueuedAdmissionCandidate}
    (hc : c ∈ pass.candidates) : c.id ∉ pass.admittedIds := by
  intro hin
  apply (List.nodup_append'.mp hnodup).2.2 (List.mem_map_of_mem hc)
  exact List.mem_append_right _ hin

/-- A candidate that the loop admits comes behind what is admitted already. -/
theorem admitted_behind (hnodup : pass.ids.Nodup) {y : QueuedAdmissionCandidate} {i : Nat}
    (hi : i ∈ pass.admittedIds) (hy : y ∈ pass.candidates)
    (hy' : y.id ∈ (admissionLoop config fuel pass).admittedIds) :
    InOrder i y.id (admissionLoop config fuel pass).admittedIds := by
  obtain ⟨more, hmore, _⟩ := admissionLoop_admitted config fuel pass
  unfold AdmissionPass.admittedIds at hy' ⊢
  rw [hmore, List.map_append] at hy' ⊢
  apply InOrder.append hi
  exact (List.mem_append.mp hy').resolve_left (not_mem_admitted hnodup hy)

/-- Two equal candidates that the loop admits are admitted in their order. -/
theorem admits_inOrder (hnodup : pass.ids.Nodup) {x y : QueuedAdmissionCandidate}
    (hxy : InOrder x y pass.candidates)
    (hpriority : x.incoming.priority = y.incoming.priority) (hhint : x.hint = y.hint)
    (hx' : x.id ∈ (admissionLoop config fuel pass).admittedIds)
    (hy' : y.id ∈ (admissionLoop config fuel pass).admittedIds) :
    InOrder x.id y.id (admissionLoop config fuel pass).admittedIds := by
  induction fuel generalizing pass with
  | zero => exact absurd hx' (not_mem_admitted hnodup hxy.left_mem)
  | succ fuel ih =>
    rcases admissionLoop_succ config fuel pass with ⟨hnil, _⟩ | ⟨c, hget, hperm, heq⟩
    · rw [hnil] at hxy
      cases hxy
    · rw [heq] at hx' hy' ⊢
      have hround : (pass.round config c _).ids.Nodup := (ids_round hperm).symm.nodup hnodup
      have hcy := later_not_taken hnodup hxy hpriority hhint hget
      have hyrest := (List.mem_cons.mp (hperm.subset hxy.right_mem)).resolve_left hcy
      rcases List.mem_cons.mp (hperm.subset hxy.left_mem) with hxc | hxrest
      · rw [← hxc] at hx' hy' hperm hround ⊢
        apply admitted_behind config hround _ _ hy'
        · rcases round_cases config pass x (pass.candidates.eraseIdx
            (chooseSessionAffinityCandidate pass.candidates)) with
            ⟨blockedBy, _, hput, _⟩ | ⟨slot, _, hadmitted⟩
          · -- What is put back is not admitted later.
            have hids := (ids_admissionLoop config fuel _).symm.nodup hround
            have hdeferred := (sublist_admissionLoop config fuel _).1.subset (hput ▸
              (insertDeferred_perm _ (x.defer blockedBy) _).symm.subset List.mem_cons_self)
            have hin := List.mem_map_of_mem (f := DeferredWaitingRequest.id) hdeferred
            exact absurd hx' ((List.nodup_append'.mp (List.nodup_append'.mp hids).2.1).2.2 hin)
          · unfold AdmissionPass.admittedIds
            rw [hadmitted, List.map_append]
            exact List.mem_append_right _ List.mem_cons_self
        · rw [candidates_round]
          exact hyrest
      · apply ih hround _ hx' hy'
        rw [candidates_round]
        have hcandidates : pass.candidates.Nodup := (nodup_candidates hnodup).of_map
        exact hxy.restrict hcandidates (List.eraseIdx_sublist _ _) hxrest hyrest

end Order

end Loop

/-! ## The candidates -/

section Collect

variable (config : SchedulerConfig) (view : TickView)

/-- The requests that a tick looks at. -/
def scanned (waiting : List IncomingRequest) : List QueuedAdmissionCandidate :=
  waiting.filterMap (candidate? view)

def PolicyDeferred.defer (self : PolicyDeferred) : DeferredWaitingRequest :=
  self.candidate.defer self.blockedBy

theorem candidate?_incoming {incoming : IncomingRequest} {c : QueuedAdmissionCandidate}
    (h : candidate? view incoming = some c) : c.incoming = incoming := by
  unfold candidate? at h
  split at h
  · cases h
  · split at h
    · cases h
    · cases h
    · cases h
      rfl

theorem scanned_ids (waiting : List IncomingRequest) :
    ((scanned view waiting).map QueuedAdmissionCandidate.id).Sublist
      (waiting.map IncomingRequest.deltaTx) := by
  induction waiting with
  | nil => exact .refl _
  | cons incoming waiting ih =>
    unfold scanned at ih ⊢
    rw [List.filterMap_cons]
    split
    · exact ih.cons _
    · rename_i c hc
      rw [List.map_cons, List.map_cons]
      unfold QueuedAdmissionCandidate.id at ih ⊢
      rw [candidate?_incoming view hc]
      exact ih.cons_cons _

theorem split_eq (candidates policyDeferred : List QueuedAdmissionCandidate) :
    ∃ stays : QueuedAdmissionCandidate → Bool,
      splitBelowBlockedPriority candidates policyDeferred =
        (candidates.filter stays, candidates.filter fun c => !stays c) := by
  unfold splitBelowBlockedPriority
  split
  · refine ⟨fun _ => true, ?_⟩
    simp
  · rename_i blockingPriority _
    refine ⟨fun c => !(c.incoming.priority.rank < blockingPriority), ?_⟩
    rw [List.partition_eq_filter_filter]
    rfl

/-- The requests that the policy holds back are moved to the candidates one by one. -/
theorem failOpen_spec (target fuel : Nat) (candidates : List QueuedAdmissionCandidate)
    (policyDeferred : List PolicyDeferred) :
    (failOpen target fuel candidates policyDeferred).2.Sublist policyDeferred ∧
      ((failOpen target fuel candidates policyDeferred).1 ++
        (failOpen target fuel candidates policyDeferred).2.map PolicyDeferred.candidate).Perm
        (candidates ++ policyDeferred.map PolicyDeferred.candidate) := by
  induction fuel generalizing candidates policyDeferred with
  | zero => exact ⟨.refl _, .refl _⟩
  | succ fuel ih =>
    unfold failOpen
    split
    · split
      · exact ⟨.refl _, .refl _⟩
      · rename_i idx _
        split
        · exact ⟨.refl _, .refl _⟩
        · rename_i deferred hget
          obtain ⟨hsub, hperm⟩ := ih (candidates ++ [deferred.candidate])
            (policyDeferred.eraseIdx idx)
          obtain ⟨hlt, hdeferred⟩ := List.getElem?_eq_some_iff.mp hget
          have htaken := (List.getElem_cons_eraseIdx_perm hlt).map PolicyDeferred.candidate
          rw [hdeferred] at htaken
          refine ⟨hsub.trans (List.eraseIdx_sublist _ _), hperm.trans ?_⟩
          rw [List.append_assoc]
          exact htaken.append_left candidates
    · exact ⟨.refl _, .refl _⟩

theorem filter_reason (reason blockedBy : BlockedBy) (candidates : List QueuedAdmissionCandidate) :
    ((candidates.map (PolicyDeferred.mk · blockedBy)).filter fun d => d.blockedBy = reason).map
      PolicyDeferred.candidate = if blockedBy = reason then candidates else [] := by
  rw [List.filter_map, List.map_map]
  split
  · rename_i heq
    rw [List.filter_eq_self.mpr]
    · exact List.map_id' candidates
    · intro c _
      exact decide_eq_true heq
  · rename_i hne
    rw [List.filter_eq_nil_iff.mpr]
    · rfl
    · intro c _
      simpa using hne

/-- The scanned requests are the candidates and those that the policy holds back. The latter have,
for each reason, the order of the queue, and they are put back in this order. -/
theorem collect_spec (freeSlots : List Nat) (waiting : List IncomingRequest) :
    ∃ held : List PolicyDeferred,
      (∀ reason, ((held.filter fun d => d.blockedBy = reason).map
        PolicyDeferred.candidate).Sublist (scanned view waiting)) ∧
      (∀ d ∈ held, d.blockedBy.inLoop = false) ∧
      ((collectAdmissionCandidates config view freeSlots waiting).1 ++
        held.map PolicyDeferred.candidate).Perm (scanned view waiting) ∧
      (collectAdmissionCandidates config view freeSlots waiting).2 =
        putBack (held.map PolicyDeferred.defer) [] := by
  unfold collectAdmissionCandidates
  dsimp only
  rw [List.partition_eq_filter_filter]
  obtain ⟨stays, hsplit⟩ := split_eq
    ((waiting.filterMap (candidate? view)).filter fun candidate =>
      prefixAwareAdmissionAllowsPlan config candidate.plan waiting.length)
    ((waiting.filterMap (candidate? view)).filter (not ∘ fun candidate =>
      prefixAwareAdmissionAllowsPlan config candidate.plan waiting.length))
  rw [hsplit]
  dsimp only
  generalize hallowed : (fun candidate : QueuedAdmissionCandidate =>
    prefixAwareAdmissionAllowsPlan config candidate.plan waiting.length) = allowed
  rw [show waiting.filterMap (candidate? view) = scanned view waiting from rfl]
  generalize hpolicy : ((scanned view waiting).filter (not ∘ allowed)).map
      (PolicyDeferred.mk · .policy) ++
    (((scanned view waiting).filter allowed).filter fun c => !stays c).map
      (PolicyDeferred.mk · .blockedPriority) = policyDeferred
  obtain ⟨hsub, hperm⟩ := failOpen_spec freeSlots.length policyDeferred.length
    (((scanned view waiting).filter allowed).filter stays) policyDeferred
  refine ⟨_, ?_, ?_, hperm.trans ?_, ?_⟩
  · intro reason
    apply ((hsub.filter _).map _).trans
    rw [← hpolicy, List.filter_append, List.map_append, filter_reason, filter_reason]
    cases reason with
    | policy => exact (List.append_nil _).symm ▸ List.filter_sublist
    | blockedPriority => exact List.filter_sublist.trans List.filter_sublist
    | longPrefillLimit => exact List.nil_sublist _
    | noFreeSlot => exact List.nil_sublist _
    | pageBudget => exact List.nil_sublist _
  · intro d hd
    have hmem := hsub.subset hd
    rw [← hpolicy] at hmem
    rcases List.mem_append.mp hmem with hmem | hmem
    · obtain ⟨c, _, rfl⟩ := List.mem_map.mp hmem
      rfl
    · obtain ⟨c, _, rfl⟩ := List.mem_map.mp hmem
      rfl
  · rw [← hpolicy, List.map_append, List.map_map, List.map_map]
    have hkept := List.filter_append_perm stays ((scanned view waiting).filter allowed)
    have hall := List.filter_append_perm allowed (scanned view waiting)
    apply List.Perm.trans (List.perm_append_comm_assoc _ _ _)
    apply List.Perm.trans List.perm_append_comm
    refine List.Perm.trans (.append ?_ ?_) hall
    · exact .trans (.append_left _ (.of_eq (List.map_id' _))) hkept
    · exact .of_eq (List.map_id' _)
  · unfold putBack
    rw [List.foldl_map]
    rfl

end Collect

end Arle.Scheduler.Cuda
