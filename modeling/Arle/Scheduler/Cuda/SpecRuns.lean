import Mathlib
import Arle.Scheduler.Cuda.SpecGreedy

/-!
# Runs of speculative and plain decode steps

In every run whose launches are fed the last token of the request, the pool sequence is the tokens
of the request without the last one, and the request ends as a run of plain steps ends.
-/

namespace Arle.Scheduler.Cuda.SpecPath

open Arle.ServerEngine (FinishReason)

/-- The tokens sampled by launches that are not read back. -/
def DecodeSlot.inFlight (slot : DecodeSlot) : List Token :=
  slot.deferredDecodeEmit.toList ++ (slot.pendingDecode.map PendingDecode.sampled).toList

/-- A plain launch is fed the last token: what is staged for the slot, if anything is, is the last
token sampled or committed for it. -/
def HandoffFresh : RequestState → DecodeOp → Prop
  | .decoding slot, .launch _ =>
    ∀ token, slot.handoff = some token →
      (slot.generatedTokens ++ slot.inFlight).getLast? = some token
  | _, _ => True

variable (target : TargetModel) (req : DecodeRequest)

/-- The slot goes on with the greedy continuation. -/
structure Sound (slot : DecodeSlot) : Prop where
  nonempty : slot.generatedTokens ≠ []
  live : slot.generatedTokens.length < req.maxTokens
  follows : Follows target.greedy (req.promptTokens ++ slot.generatedTokens) slot.inFlight
  kv : slot.kv = (req.promptTokens ++ slot.generatedTokens ++ slot.inFlight).dropLast
  staged : ∀ token, slot.pendingDecode = some ⟨token, true⟩ → slot.handoff = some token
  deferred : ∀ token, slot.deferredDecodeEmit = some token → slot.pendingDecode = none →
    slot.runnable req = true → slot.handoff = some token
  result : remainder target req slot.generatedTokens = plainResult target req

/-- The invariant of the runs. -/
def Invariant : RequestState → Prop
  | .waiting => True
  | .decoding slot => Sound target req slot
  | .finished generatedTokens reason => (generatedTokens, reason) = plainResult target req
  | .aborted => False

section Steps

variable {target : TargetModel} {req : DecodeRequest} {slot : DecodeSlot}

/-- Nothing is in flight. -/
theorem DecodeSlot.inFlight_nil (hread : slot.deferredDecodeEmit = none)
    (hidle : slot.pendingDecode = none) : slot.inFlight = [] := by
  unfold DecodeSlot.inFlight
  rw [hread, hidle]
  rfl

theorem Sound.last (h : Sound target req slot) {lastToken : Token}
    (hread : slot.deferredDecodeEmit = none) (hidle : slot.pendingDecode = none)
    (hlast : slot.generatedTokens.getLast? = some lastToken) :
    slot.kv ++ [lastToken] = req.promptTokens ++ slot.generatedTokens := by
  obtain ⟨front, hfront⟩ := List.getLast?_eq_some_iff.mp hlast
  rw [h.kv, DecodeSlot.inFlight_nil hread hidle, List.append_nil, hfront, ← List.append_assoc,
    List.dropLast_concat]

theorem Sound.firstToken :
    Invariant target req
      (applyPrefillCompletionToken target req (target.greedy req.promptTokens)) := by
  unfold applyPrefillCompletionToken
  split
  · rename_i hstop
    change ([], FinishReason.stop) = plainResult target req
    unfold plainResult
    dsimp only
    rw [if_pos hstop]
  · rename_i hgo
    have hresult : plainResult target req =
        remainder target req [target.greedy req.promptTokens] := by
      unfold plainResult
      dsimp only
      rw [if_neg hgo]
    split
    · rename_i hfull
      change ([_], FinishReason.length) = plainResult target req
      rw [hresult, remainder_full hfull]
    · rename_i hlive
      refine ⟨?_, Nat.not_le.mp hlive, trivial, ?_, ?_, ?_, hresult.symm⟩
      · exact List.cons_ne_nil _ _
      · change req.promptTokens = (req.promptTokens ++ [_] ++ []).dropLast
        rw [List.append_nil, List.dropLast_concat]
      · intro token hpending
        cases hpending
      · intro token hdeferred
        cases hdeferred

/-- The token that a launch is fed. -/
theorem Sound.input (h : Sound target req slot) {lastToken : Token} {allGreedy : Bool}
    (hidle : slot.pendingDecode = none) (hrunnable : slot.runnable req = true)
    (hlast : slot.generatedTokens.getLast? = some lastToken)
    (hfresh : HandoffFresh (.decoding slot) (.launch allGreedy)) :
    slot.kv ++ [slot.handoff.getD lastToken] =
      req.promptTokens ++ slot.generatedTokens ++ slot.inFlight := by
  have htoken : (slot.generatedTokens ++ slot.inFlight).getLast? =
      some (slot.handoff.getD lastToken) := by
    cases hhandoff : slot.handoff with
    | some token => exact hfresh token hhandoff
    | none =>
      cases hread : slot.deferredDecodeEmit with
      | some token =>
        have hstaged := h.deferred token hread hidle hrunnable
        rw [hhandoff] at hstaged
        cases hstaged
      | none =>
        rw [DecodeSlot.inFlight_nil hread hidle, List.append_nil]
        exact hlast
  obtain ⟨front, hfront⟩ := List.getLast?_eq_some_iff.mp htoken
  rw [h.kv, List.append_assoc, hfront, ← List.append_assoc, List.dropLast_concat]

theorem Sound.launch (h : Sound target req slot) {lastToken : Token} {allGreedy : Bool}
    (hidle : slot.pendingDecode = none) (hrunnable : slot.runnable req = true)
    (hlast : slot.generatedTokens.getLast? = some lastToken)
    (hfresh : HandoffFresh (.decoding slot) (.launch allGreedy)) :
    Sound target req (slot.launch target allGreedy lastToken) := by
  have hkv := h.input hidle hrunnable hlast hfresh
  have hinFlight : (slot.launch target allGreedy lastToken).inFlight =
      slot.inFlight ++ [target.greedy (slot.kv ++ [slot.handoff.getD lastToken])] := by
    unfold DecodeSlot.inFlight
    rw [hidle]
    simp [DecodeSlot.launch]
  refine ⟨h.nonempty, h.live, ?_, ?_, ?_, ?_, h.result⟩
  · rw [hinFlight, hkv]
    exact Follows.append_iff.mpr ⟨h.follows, Follows.single⟩
  · rw [hinFlight]
    change slot.kv ++ [slot.handoff.getD lastToken] = _
    rw [hkv, ← List.append_assoc, List.dropLast_concat]
    rfl
  · intro token hpending
    change some (PendingDecode.mk _ allGreedy) = _ at hpending
    cases hpending
    rfl
  · intro token _ hpending
    cases hpending

/-- Reading back the first launch in flight. -/
theorem Sound.apply (h : Sound target req slot) {slot' : DecodeSlot} {token : Token}
    (hsame : slot'.generatedTokens = slot.generatedTokens ∧ slot'.kv = slot.kv)
    (hflight : slot.inFlight = token :: slot'.inFlight) (hread : slot'.deferredDecodeEmit = none)
    (hstaged : ∀ token, slot'.pendingDecode = some ⟨token, true⟩ → slot'.handoff = some token) :
    Invariant target req (applySampledDecodeToken target req token slot') := by
  have hfollows := h.follows
  rw [hflight] at hfollows
  rw [applySampledDecodeToken_eq, hsame.1]
  rcases commitTokens_remainder [token] ⟨hfollows.1, trivial⟩ h.live with
    ⟨G', reason, hcommit, heq⟩ | ⟨hcommit, hlive, heq⟩
  · rw [hcommit]
    exact heq.symm.trans h.result
  · rw [hcommit]
    refine ⟨?_, hlive, ?_, ?_, hstaged, ?_, heq.trans h.result⟩
    · exact List.append_ne_nil_of_right_ne_nil _ (List.cons_ne_nil _ _)
    · rw [← List.append_assoc]
      exact hfollows.2
    · change slot'.kv = (req.promptTokens ++ (slot.generatedTokens ++ [token]) ++
        slot'.inFlight).dropLast
      rw [hsame.2, h.kv, hflight]
      simp [List.append_assoc]
    · intro token' hdeferred
      change slot'.deferredDecodeEmit = _ at hdeferred
      rw [hread] at hdeferred
      cases hdeferred

/-- Verification and rollback of one row. -/
theorem Sound.verify (h : Sound target req slot) {slot' : DecodeSlot} {lastToken : Token}
    (hread : slot.deferredDecodeEmit = none) (hidle : slot.pendingDecode = none)
    (hlast : slot.generatedTokens.getLast? = some lastToken)
    (hsame : slot'.generatedTokens = slot.generatedTokens ∧ slot'.kv = slot.kv)
    (hread' : slot'.deferredDecodeEmit = none) (hidle' : slot'.pendingDecode = none)
    (draftTokens : List Token) :
    Invariant target req (verifyAndCommitRow target req draftTokens lastToken slot') := by
  have hw := h.last hread hidle hlast
  obtain ⟨rejected, bonus, hdraft, hbonus, hfollows⟩ :=
    verify_follows target (req.promptTokens ++ slot.generatedTokens) draftTokens
  unfold verifyAndCommitRow
  dsimp only
  rw [forwardSpecVerify_kv, forwardSpecVerify, hsame.1, hsame.2]
  dsimp only
  rw [hw]
  unfold verifyTokensGreedy
  dsimp only
  generalize acceptedPrefix draftTokens (target.greedy (req.promptTokens ++ slot.generatedTokens) ::
    (forwardSpecVerify target (req.promptTokens ++ slot.generatedTokens) draftTokens).1) =
    accepted at hdraft hbonus hfollows ⊢
  rw [hbonus, Option.some_or]
  dsimp only
  -- The pool sequence keeps the last token and the accepted ones.
  have hkept : truncateSlot (slot.kv ++ lastToken :: draftTokens)
      (slot.kv.length + 1 + accepted.length) = some (slot.kv ++ lastToken :: accepted) := by
    have hlen : slot.kv.length + 1 + accepted.length =
        (slot.kv ++ lastToken :: accepted).length := by
      rw [List.length_append, List.length_cons]
      omega
    rw [hlen, hdraft, ← List.cons_append, ← List.append_assoc]
    exact truncateSlot_append _ _
  rw [hkept]
  dsimp only
  rcases commitTokens_remainder _ hfollows h.live with
    ⟨G', reason, hcommit, heq⟩ | ⟨hcommit, hlive, heq⟩
  · rw [hcommit]
    exact heq.symm.trans h.result
  · rw [hcommit]
    have hnone : ({ slot' with
        generatedTokens := slot.generatedTokens ++ (accepted ++ [bonus])
        kv := slot.kv ++ lastToken :: accepted } : DecodeSlot).inFlight = [] :=
      DecodeSlot.inFlight_nil hread' hidle'
    refine ⟨?_, hlive, ?_, ?_, ?_, ?_, heq.trans h.result⟩
    · exact List.append_ne_nil_of_right_ne_nil _
        (List.append_ne_nil_of_right_ne_nil _ (List.cons_ne_nil _ _))
    · rw [hnone]
      exact Follows.nil
    · rw [hnone, List.append_nil]
      change slot.kv ++ ([lastToken] ++ accepted) = _
      rw [← List.append_assoc, hw, ← List.append_assoc, ← List.append_assoc,
        List.dropLast_concat]
    · intro token hpending
      change slot'.pendingDecode = _ at hpending
      rw [hidle'] at hpending
      cases hpending
    · intro token hdeferred
      change slot'.deferredDecodeEmit = _ at hdeferred
      rw [hread'] at hdeferred
      cases hdeferred

theorem invariant_step :
    Preserved (guarded HandoffFresh (Step target req)) (Invariant target req) := by
  rintro s op t h ⟨hfresh, hstep⟩
  cases hstep with
  | prefill => exact Sound.firstToken
  | launch hidle hrunnable hlast => exact Sound.launch h hidle hrunnable hlast hfresh
  | @launchOthers slot hidle hrunnable =>
    refine ⟨h.nonempty, h.live, h.follows, h.kv, ?_, ?_, h.result⟩
    · intro token hpending
      change slot.pendingDecode = _ at hpending
      rw [hidle] at hpending
      cases hpending
    · intro token _ _ hrun
      change slot.runnable req = true at hrun
      rw [hrunnable] at hrun
      cases hrun
  | @defer slot token hread hpending =>
    have hinFlight : slot.inFlight = [token] := by
      unfold DecodeSlot.inFlight
      rw [hread, hpending]
      rfl
    refine ⟨h.nonempty, h.live, ?_, ?_, ?_, ?_, h.result⟩
    · have hfollows := h.follows
      rw [hinFlight] at hfollows
      exact hfollows
    · have hkv := h.kv
      rw [hinFlight] at hkv
      exact hkv
    · intro token' hnone
      cases hnone
    · intro token' hdeferred _ _
      cases hdeferred
      exact h.staged token hpending
  | @readbackDeferred slot token hdeferred =>
    refine Sound.apply h ?_ ?_ ?_ ?_
    · exact ⟨rfl, rfl⟩
    · unfold DecodeSlot.inFlight
      rw [hdeferred]
      rfl
    · rfl
    · exact h.staged
  | @readbackPending slot pending hread hpending =>
    refine Sound.apply h ?_ ?_ ?_ ?_
    · exact ⟨rfl, rfl⟩
    · unfold DecodeSlot.inFlight
      rw [hread, hpending]
      rfl
    · exact hread
    · intro token hnone
      cases hnone
  | @draftThenVerify slot draftTokens lastToken hidle hread hlast =>
    unfold draftThenVerify
    split
    · exact h
    · exact Sound.verify h hread hidle hlast ⟨rfl, rfl⟩ hread hidle draftTokens
  | @draftSelfSparse slot sparseNext overwritten draftK lastToken hidle hread hlast =>
    obtain ⟨rest, hrest⟩ := draftLoop_kv req sparseNext slot.generatedTokens.length draftK slot.kv
      lastToken []
    unfold draftSelfSparse
    dsimp only
    rw [hrest, truncateSlot_append]
    dsimp only
    split
    · exact h
    · refine Sound.verify h hread hidle hlast ?_ ?_ ?_ _
      · exact ⟨rfl, rfl⟩
      · exact hread
      · exact hidle
  | preempt => trivial

end Steps

/-! ## Plain runs -/

/-- Steps that do not speculate. -/
def Plain (_ : RequestState) (op : DecodeOp) : Prop := op.isPlain = true

/-- Nothing stale is staged while no step speculates. -/
def PlainInvariant : RequestState → Prop
  | .decoding slot => ∀ token, slot.handoff = some token →
      (slot.generatedTokens ++ slot.inFlight).getLast? = some token
  | _ => True

section PlainRuns

variable {target : TargetModel} {req : DecodeRequest}

/-- The token is moved from the launches to the request. -/
theorem PlainInvariant.apply {slot slot' : DecodeSlot} {token : Token}
    (h : PlainInvariant (.decoding slot))
    (hsame : slot'.generatedTokens = slot.generatedTokens ∧ slot'.handoff = slot.handoff)
    (hflight : slot.inFlight = token :: slot'.inFlight) :
    PlainInvariant (applySampledDecodeToken target req token slot') := by
  unfold applySampledDecodeToken
  split
  · trivial
  · dsimp only
    split
    · trivial
    · intro token' hhandoff
      change slot'.handoff = some token' at hhandoff
      change (slot'.generatedTokens ++ [token] ++ slot'.inFlight).getLast? = some token'
      rw [List.append_assoc, hsame.1]
      have hlast := h token' (hsame.2 ▸ hhandoff)
      rw [hflight] at hlast
      exact hlast

theorem plainInvariant_step : Preserved (guarded Plain (Step target req)) PlainInvariant := by
  rintro s op t h ⟨hplain, hstep⟩
  cases hstep with
  | prefill =>
    unfold applyPrefillCompletionToken
    split
    · trivial
    · split
      · trivial
      · intro token hhandoff
        cases hhandoff
  | @launch slot allGreedy lastToken hidle _ _ =>
    intro token hhandoff
    have hinFlight : (slot.launch target allGreedy lastToken).inFlight =
        slot.inFlight ++ [target.greedy (slot.kv ++ [slot.handoff.getD lastToken])] := by
      unfold DecodeSlot.inFlight
      rw [hidle]
      simp [DecodeSlot.launch]
    rw [hinFlight, ← List.append_assoc, List.getLast?_concat]
    change (if allGreedy then some _ else none) = _ at hhandoff
    split at hhandoff
    · exact hhandoff
    · cases hhandoff
  | launchOthers =>
    intro token hhandoff
    cases hhandoff
  | @defer slot token hread hpending =>
    intro token' hhandoff
    have hlast := h token' hhandoff
    unfold DecodeSlot.inFlight at hlast ⊢
    rw [hread, hpending] at hlast
    exact hlast
  | @readbackDeferred slot token hdeferred =>
    refine PlainInvariant.apply h ?_ ?_
    · exact ⟨rfl, rfl⟩
    · unfold DecodeSlot.inFlight
      rw [hdeferred]
      rfl
  | @readbackPending slot pending hread hpending =>
    refine PlainInvariant.apply h ?_ ?_
    · exact ⟨rfl, rfl⟩
    · unfold DecodeSlot.inFlight
      rw [hread, hpending]
      rfl
  | draftThenVerify => cases hplain
  | draftSelfSparse => cases hplain
  | preempt => trivial

/-- A plain run keeps both invariants. -/
theorem plain_reachable {s : RequestState}
    (h : Reachable Initial (guarded Plain (Step target req)) s) :
    PlainInvariant s ∧ Invariant target req s := by
  apply h.invariant (P := fun s => PlainInvariant s ∧ Invariant target req s)
  · rintro s rfl
    exact ⟨trivial, trivial⟩
  · rintro s op t ⟨hplain, hinv⟩ hstep
    refine ⟨plainInvariant_step s op t hplain hstep, invariant_step s op t hinv ⟨?_, hstep.2⟩⟩
    cases s with
    | decoding slot =>
      cases op with
      | launch allGreedy => exact hplain
      | _ => trivial
    | _ => trivial

/-- From a slot with nothing in flight, plain steps finish the request. -/
theorem plain_finishes {slot : DecodeSlot}
    (h : Reachable Initial (guarded Plain (Step target req)) (.decoding slot))
    (hread : slot.deferredDecodeEmit = none) (hidle : slot.pendingDecode = none) :
    ∃ G reason, Reachable Initial (guarded Plain (Step target req)) (.finished G reason) := by
  generalize hn : req.maxTokens - slot.generatedTokens.length = n
  induction n generalizing slot with
  | zero =>
    have hlive := (plain_reachable h).2.live
    omega
  | succ n ih =>
    obtain ⟨lastToken, hlast⟩ := Option.ne_none_iff_exists'.mp
      (mt List.getLast?_eq_none_iff.mp (plain_reachable h).2.nonempty)
    have hrunnable : slot.runnable req = true := by
      unfold DecodeSlot.runnable
      rw [hread]
      rfl
    have hlaunched := h.next (a := DecodeOp.launch true)
      (And.intro rfl (.launch hidle hrunnable hlast))
    have hreadback := hlaunched.next (a := DecodeOp.readback)
      (And.intro rfl (.readbackPending hread rfl))
    unfold applySampledDecodeToken at hreadback
    split at hreadback
    · exact ⟨_, _, hreadback⟩
    · dsimp only at hreadback
      split at hreadback
      · exact ⟨_, _, hreadback⟩
      · apply ih hreadback hread rfl
        change req.maxTokens - (slot.generatedTokens ++ [_]).length = n
        rw [List.length_append, List.length_singleton]
        omega

theorem exists_plain_finish : ∃ G reason,
    Reachable Initial (guarded Plain (Step target req)) (.finished G reason) := by
  have hstart : Reachable Initial (guarded Plain (Step target req)) .waiting :=
    Reachable.start rfl
  have hprefilled := hstart.next (a := DecodeOp.prefill) (And.intro rfl .prefill)
  unfold applyPrefillCompletionToken at hprefilled
  split at hprefilled
  · exact ⟨_, _, hprefilled⟩
  · split at hprefilled
    · exact ⟨_, _, hprefilled⟩
    · exact plain_finishes hprefilled rfl rfl

end PlainRuns

/-! ## The law -/

/-- A live request has all its tokens but the last one in the pool sequence, and the inputs of the
launches in flight; a finished one ends as plain runs end. -/
def SpeculationLaw : RequestState → Prop
  | .waiting => True
  | .decoding slot =>
    slot.kv.length + 1 =
      req.promptTokens.length + slot.generatedTokens.length + slot.inFlight.length
  | .finished generatedTokens reason =>
    Reachable Initial (guarded Plain (Step target req)) (.finished generatedTokens reason) ∧
      ∀ generatedTokens' reason', Reachable Initial (guarded Plain (Step target req))
        (.finished generatedTokens' reason') →
        generatedTokens' = generatedTokens ∧ reason' = reason
  | .aborted => False

/-- In every run whose plain launches are fed the last token of the request. -/
theorem speculation_law (target : TargetModel) (req : DecodeRequest) {s : RequestState}
    (h : Reachable Initial (guarded HandoffFresh (Step target req)) s) :
    SpeculationLaw target req s := by
  have hinv : Invariant target req s :=
    h.invariant (fun _ hs => by rw [hs]; trivial) invariant_step
  cases s with
  | waiting => trivial
  | decoding slot =>
    have hpos := List.length_pos_of_ne_nil hinv.nonempty
    change slot.kv.length + 1 = _
    rw [hinv.kv, List.length_dropLast, List.length_append, List.length_append]
    omega
  | finished G reason =>
    have hplain : ∀ G' reason', Reachable Initial (guarded Plain (Step target req))
        (.finished G' reason') → G' = G ∧ reason' = reason := by
      intro G' reason' hreach
      have hsame : (G', reason') = (G, reason) := (plain_reachable hreach).2.trans hinv.symm
      exact Prod.mk.inj hsame
    obtain ⟨G', reason', hreach⟩ := @exists_plain_finish target req
    obtain ⟨rfl, rfl⟩ := hplain G' reason' hreach
    exact ⟨hreach, hplain⟩
  | aborted => exact hinv

/-- A model that counts. -/
def counting : TargetModel where
  greedy := fun tokens => tokens.getLastD 0 + 1
  isStopToken := fun _ => false

def fiveTokens : DecodeRequest where
  promptTokens := [1]
  maxTokens := 5
  ignoreEos := false

/-- Two draft tokens are accepted, then a plain step gives the last token. -/
theorem speculation_law_counting :
    SpeculationLaw counting fiveTokens (.finished [2, 3, 4, 5, 6] .length) := by
  have hstart : Reachable Initial (guarded HandoffFresh (Step counting fiveTokens)) .waiting :=
    Reachable.start rfl
  have hprefilled := hstart.next (a := DecodeOp.prefill) (And.intro trivial .prefill)
  have hverified := hprefilled.next (a := DecodeOp.draftThenVerify [3, 4])
    (And.intro trivial (.draftThenVerify rfl rfl rfl))
  have hlaunched := hverified.next (a := DecodeOp.launch true)
    (And.intro (fun _ hhandoff => by cases hhandoff) (.launch rfl rfl rfl))
  have hreadback := hlaunched.next (a := DecodeOp.readback)
    (And.intro trivial (.readbackPending rfl rfl))
  exact speculation_law counting fiveTokens hreadback

/-- The plain launch behind the speculative step is fed the token that was staged before it. -/
theorem stale_handoff_diverges :
    Reachable Initial (Step counting fiveTokens) (.finished [2, 3, 4, 5, 4] .length) ∧
      ¬ SpeculationLaw counting fiveTokens (.finished [2, 3, 4, 5, 4] .length) := by
  have hstart : Reachable Initial (Step counting fiveTokens) .waiting := Reachable.start rfl
  have hprefilled := hstart.next (a := DecodeOp.prefill) .prefill
  have hlaunched := hprefilled.next (a := DecodeOp.launch true) (.launch rfl rfl rfl)
  have hreadback := hlaunched.next (a := DecodeOp.readback) (.readbackPending rfl rfl)
  have hverified := hreadback.next (a := DecodeOp.draftThenVerify [4])
    (.draftThenVerify rfl rfl rfl)
  have hstale := hverified.next (a := DecodeOp.launch true) (.launch rfl rfl rfl)
  have hfinished := hstale.next (a := DecodeOp.readback) (.readbackPending rfl rfl)
  refine ⟨hfinished, fun hlaw => ?_⟩
  have hresult : ([2, 3, 4, 5, 4], FinishReason.length) = plainResult counting fiveTokens :=
    (plain_reachable hlaw.1).2
  revert hresult
  change ([2, 3, 4, 5, 4], FinishReason.length) = ([2, 3, 4, 5, 6], FinishReason.length) → False
  intro hresult
  cases hresult

end Arle.Scheduler.Cuda.SpecPath
