import Arle.KvTier.Coordinator.Fetch

/-!
# A fetch ends once and leaks nothing

The pools during a fetch are the pools before it with the regions of the guard added
(`Staged`). Staging a payload adds a region, a release of the guard takes all of them away
again; so a failure leaves the pools as they were, and a completion leaves the regions it
reports.
-/

namespace Arle.KvTier.Coordinator

open HostPinnedPool

/-- The regions of a list that belong to one pool. -/
def regionsIn (id : PoolId) (L : List (PoolId × HostPinnedRegion)) : List HostPinnedRegion :=
  (L.filter fun entry => decide (entry.1 = id)).map Prod.snd

section RegionsIn

variable {id id' : PoolId} {region : HostPinnedRegion} {L : List (PoolId × HostPinnedRegion)}

theorem regionsIn_cons_self : regionsIn id ((id, region) :: L) = region :: regionsIn id L := by
  simp [regionsIn]

theorem regionsIn_cons_ne (h : id' ≠ id) : regionsIn id ((id', region) :: L) = regionsIn id L := by
  simp [regionsIn, h]

theorem regionsIn_append (L M : List (PoolId × HostPinnedRegion)) :
    regionsIn id (L ++ M) = regionsIn id L ++ regionsIn id M := by
  simp [regionsIn]

end RegionsIn

/-- The pools now are the pools before with the regions in `L` reserved on top. -/
structure Staged (before now : PoolId → SharedHostPinnedPool)
    (L : List (PoolId × HostPinnedRegion)) : Prop where
  sound : ∀ id, (now id).inner.Sound
  poisoned : ∀ id, (now id).poisoned = (before id).poisoned
  healthy : ∀ entry ∈ L, (before entry.1).poisoned = false
  live : ∀ id, (now id).inner.liveRegions.Perm
    (regionsIn id L ++ (before id).inner.liveRegions)

namespace Staged

variable {before now : PoolId → SharedHostPinnedPool} {L : List (PoolId × HostPinnedRegion)}
  {id : PoolId} {region : HostPinnedRegion} {pool : HostPinnedPool}

theorem refl (h : ∀ id, (before id).inner.Sound) : Staged before before [] where
  sound := h
  poisoned _ := rfl
  healthy _ he := by cases he
  live _ := List.Perm.refl _

/-- One pool changes, and the list with it. -/
theorem update (h : Staged before now L) {M : List (PoolId × HostPinnedRegion)}
    (hsound : pool.Sound) (hhealthy : ∀ entry ∈ M, (before entry.1).poisoned = false)
    (hlive : pool.liveRegions.Perm (regionsIn id M ++ (before id).inner.liveRegions))
    (hother : ∀ id', id' ≠ id → regionsIn id' M = regionsIn id' L) :
    Staged before (Function.update now id { now id with inner := pool }) M := by
  refine ⟨fun id' => ?_, fun id' => ?_, hhealthy, fun id' => ?_⟩
  all_goals
    by_cases hid : id' = id
    · subst hid
      rw [Function.update_self]
      first | exact hsound | exact h.poisoned id' | exact hlive
    · rw [Function.update_of_ne hid]
      first | exact h.sound id' | exact h.poisoned id' | exact (hother id' hid).symm ▸ h.live id'

theorem reserve (h : Staged before now L) (hhealthy : (now id).poisoned = false)
    (hsound : pool.Sound)
    (hlive : pool.liveRegions = region :: (now id).inner.liveRegions) :
    Staged before (Function.update now id { now id with inner := pool })
      (L ++ [(id, region)]) := by
  refine h.update hsound ?_ ?_ ?_
  · intro entry he
    rcases List.mem_append.mp he with he | he
    · exact h.healthy entry he
    · obtain rfl := List.mem_singleton.mp he
      exact (h.poisoned id).symm.trans hhealthy
  · rw [hlive, regionsIn_append, regionsIn_cons_self]
    exact (List.Perm.cons region (h.live id)).trans
      (((List.perm_append_singleton region _).append_right _).symm)
  · intro id' hid
    rw [regionsIn_append, regionsIn_cons_ne (Ne.symm hid)]
    exact List.append_nil _

/-- A release of the first region of the list. -/
theorem release (h : Staged before now ((id, region) :: L)) :
    Staged before (Function.update now id ((now id).releaseRegion region).2) L := by
  have hlive := h.live id
  rw [regionsIn_cons_self] at hlive
  obtain ⟨pool, hrelease, hsound, hpool⟩ :=
    release_spec (h.sound id) (hlive.mem_iff.mpr List.mem_cons_self)
  have hok : (now id).poisoned = false :=
    (h.poisoned id).trans (h.healthy (id, region) List.mem_cons_self)
  have heq : ((now id).releaseRegion region).2 = { now id with inner := pool } := by
    simp [SharedHostPinnedPool.releaseRegion, hok, hrelease]
  rw [heq]
  refine h.update hsound (fun entry he => h.healthy entry (List.mem_cons_of_mem _ he)) ?_ ?_
  · rw [hpool]
    exact (hlive.erase region).trans (by simp)
  · intro id' hid
    rw [regionsIn_cons_ne (Ne.symm hid)]

theorem releaseAll {w : World} (h : Staged before w.pools L) :
    Staged before (AllocatedRegions.releaseAll L w).pools [] ∧
      (AllocatedRegions.releaseAll L w).events = w.events := by
  induction L generalizing w with
  | nil => exact ⟨h, rfl⟩
  | cons entry L ih => exact ih (w := w.releaseRegion entry.1 entry.2) h.release

/-- Staging a payload returns: it changes nothing, or it adds one region. -/
theorem stageIntoHostPool {w : World} (h : Staged before w.pools L) (id : PoolId)
    (payload : List UInt8) : ∃ result w', w.stageIntoHostPool id payload = some (result, w') ∧
      w'.events = w.events ∧
      match result with
      | .error _ => w' = w
      | .ok region => region.len = payload.length ∧
          Staged before w'.pools (L ++ [(id, region)]) := by
  rw [World.stageIntoHostPool]
  cases hpoisoned : (w.pools id).poisoned with
  | true => exact ⟨_, w, rfl, rfl, rfl⟩
  | false =>
    rw [if_neg Bool.false_ne_true]
    obtain ⟨result, pool, hreserve, hsound, hspec⟩ := reserve_spec (h.sound id) payload.length
    rw [hreserve]
    cases result with
    | none =>
      refine ⟨_, _, rfl, rfl, ?_⟩
      subst hspec
      change w.setPool id (w.pools id) = w
      rw [World.setPool, Function.update_eq_self]
    | some region =>
      obtain ⟨hlen, hlive, -⟩ := hspec
      have hvalid := hsound.validate (hlive ▸ List.mem_cons_self)
      simp only [hvalid, if_pos hlen]
      exact ⟨_, _, rfl, rfl, hlen, h.reserve hpoisoned hsound hlive⟩

end Staged

/-- The answer to a request: a region of the host pool is reported back as it is, a block on
disk or on a remote store gets a region of its own. -/
def Answers (block : FetchRequest) (answer : FetchedBlock) : Prop :=
  answer.blockId = block.blockId ∧
    match block.source with
    | .hostPinned offset =>
      answer.hostRegion = ⟨offset, block.byteLen⟩ ∧ answer.releaseAfterPromote = false
    | .disk _ _ | .remote _ =>
      answer.hostRegion.len = answer.byteLen ∧ answer.releaseAfterPromote = true
    | .gpu _ => False

/-- The regions reserved for the answered requests, in the order of the requests. -/
def stagedRegions (blocks : List FetchRequest) (fetched : List FetchedBlock) :
    List (PoolId × HostPinnedRegion) :=
  (blocks.zip fetched).filterMap fun pair =>
    if pair.2.releaseAfterPromote then some (pair.1.hostPool, pair.2.hostRegion) else none

theorem stagedRegions_append {blocks : List FetchRequest} {fetched : List FetchedBlock}
    (h : List.Forall₂ Answers blocks fetched) (block : FetchRequest) (answer : FetchedBlock) :
    stagedRegions (blocks ++ [block]) (fetched ++ [answer]) = stagedRegions blocks fetched ++
      if answer.releaseAfterPromote then [(block.hostPool, answer.hostRegion)] else [] := by
  rw [stagedRegions, List.zip_append h.length_eq, List.filterMap_append]
  congr 1
  cases hrel : answer.releaseAfterPromote <;> simp [hrel]

/-- How the loop ends: the guard has nothing left to release, and either a failure was
reported with the pools as before, or all blocks were, with their regions. -/
structure Ends (before : PoolId → SharedHostPinnedPool) (events : List CoordinatorEvent)
    (ticket : FetchTicket) (blocks : List FetchRequest) (exit : FetchExit) : Prop where
  settled : exit.2.1.committed = true
  outcome : (∃ failedBlock failure reason, exit.1 = .ok failure.intoOutcome ∧
      exit.2.2.events = events ++ [.fetchFailed ticket failedBlock failure reason] ∧
      Staged before exit.2.2.pools []) ∨
    (∃ fetched, exit.1 = .ok .completed ∧
      exit.2.2.events = events ++ [.fetchCompleted ticket fetched] ∧
      List.Forall₂ Answers blocks fetched ∧
      Staged before exit.2.2.pools (stagedRegions blocks fetched))

section Handler

variable {Op : Type} {env : FetchEnv Op} {ticket : FetchTicket}
  {before : PoolId → SharedHostPinnedPool} {blocks done rest : List FetchRequest}
  {fetched : List FetchedBlock} {w : World}

theorem World.emitRequired_eq (hconn : env.connected = true) (event : CoordinatorEvent) :
    w.emitRequired env event = (.ok (), { w with events := w.events ++ [event] }) := if_pos hconn

theorem World.reportFailure_eq (hconn : env.connected = true) (failedBlock : BlockId)
    (failure : FailureClass) (reason : String) :
    w.reportFailure env ticket failedBlock failure reason = (.ok failure.intoOutcome,
      { w with events := w.events ++ [.fetchFailed ticket failedBlock failure reason] }) := by
  rw [World.reportFailure, World.emitRequired_eq hconn]
  rfl

theorem abortFetch_ends (hconn : env.connected = true) {L : List (PoolId × HostPinnedRegion)}
    (h : Staged before w.pools L) (failedBlock : BlockId) (failure : FailureClass)
    (reason : String) : Ends before w.events ticket blocks
      (abortFetch env ticket failedBlock failure reason ⟨L, false⟩ w) := by
  obtain ⟨hpools, hevents⟩ := h.releaseAll
  have heq : abortFetch env ticket failedBlock failure reason ⟨L, false⟩ w =
      (.ok failure.intoOutcome, ⟨[], true⟩, { AllocatedRegions.releaseAll L w with
        events := (AllocatedRegions.releaseAll L w).events ++
          [.fetchFailed ticket failedBlock failure reason] }) := by
    simp [abortFetch, AllocatedRegions.releaseNow, AllocatedRegions.drainAndRelease,
      World.reportFailure_eq hconn]
  rw [heq]
  refine ⟨rfl, Or.inl ⟨failedBlock, failure, reason, rfl, ?_, hpools⟩⟩
  rw [hevents]

/-- The loop, with `done` already answered by `fetched`. -/
theorem fetchLoop_ends (hconn : env.connected = true) (hanswers : List.Forall₂ Answers done fetched)
    (h : Staged before w.pools (stagedRegions done fetched)) (i : Nat) :
    ∃ exit, fetchLoop env ticket rest i w ⟨stagedRegions done fetched, false⟩ fetched = some exit ∧
      Ends before w.events ticket (done ++ rest) exit := by
  induction rest generalizing done fetched w i with
  | nil =>
    rw [fetchLoop, World.emitRequired_eq hconn, List.append_nil]
    exact ⟨_, rfl, rfl, Or.inr ⟨fetched, rfl, rfl, hanswers, h⟩⟩
  | cons block rest ih =>
    -- one more block answered, with or without a region of its own
    have hnext : ∀ {w' : World} {answer : FetchedBlock}, Answers block answer →
        w'.events = w.events →
        Staged before w'.pools (stagedRegions (done ++ [block]) (fetched ++ [answer])) →
        ∃ exit, fetchLoop env ticket rest (i + 1) w'
            ⟨stagedRegions (done ++ [block]) (fetched ++ [answer]), false⟩
            (fetched ++ [answer]) = some exit ∧
          Ends before w.events ticket (done ++ block :: rest) exit := by
      intro w' answer hanswer hevents hw'
      have := ih (List.rel_append hanswers (List.Forall₂.cons hanswer List.Forall₂.nil)) hw' (i + 1)
      rw [hevents, List.append_assoc] at this
      exact this
    have hstage : ∀ payload : List UInt8, (∀ region : HostPinnedRegion,
          region.len = payload.length →
          Answers block ⟨block.blockId, region, payload.length, true⟩) →
        (∃ reason, w.stageIntoHostPool block.hostPool payload = some (.error reason, w)) ∨
        ∃ region w' exit, w.stageIntoHostPool block.hostPool payload = some (.ok region, w') ∧
          fetchLoop env ticket rest (i + 1) w'
              (AllocatedRegions.push ⟨stagedRegions done fetched, false⟩ block.hostPool region)
              (fetched ++ [⟨block.blockId, region, payload.length, true⟩]) = some exit ∧
          Ends before w.events ticket (done ++ block :: rest) exit := by
      intro payload hanswer
      obtain ⟨result, w', hstaged, hevents, hspec⟩ := h.stageIntoHostPool block.hostPool payload
      cases result with
      | error reason =>
        subst hspec
        exact Or.inl ⟨reason, hstaged⟩
      | ok region =>
        obtain ⟨hlen, hspec⟩ := hspec
        have := hnext (hanswer region hlen) hevents
          (by rw [stagedRegions_append hanswers]; exact hspec)
        rw [stagedRegions_append hanswers] at this
        obtain ⟨exit, hexit⟩ := this
        exact Or.inr ⟨region, w', exit, hstaged, hexit⟩
    rw [fetchLoop]
    split
    · exact ⟨_, rfl, abortFetch_ends hconn h _ _ _⟩
    · cases hsource : block.source with
      | gpu slot => exact ⟨_, rfl, abortFetch_ends hconn h _ _ _⟩
      | hostPinned offset =>
        have hanswer : Answers block ⟨block.blockId, ⟨offset, block.byteLen⟩, block.byteLen,
            false⟩ := by
          simp [Answers, hsource]
        have hregions := stagedRegions_append hanswers block
          ⟨block.blockId, ⟨offset, block.byteLen⟩, block.byteLen, false⟩
        rw [if_neg Bool.false_ne_true, List.append_nil] at hregions
        have := hnext hanswer rfl (by rw [hregions]; exact h)
        rw [hregions] at this
        exact this
      | disk fingerprint payloadLen =>
        dsimp only
        cases env.fetchDiskPayload i fingerprint payloadLen with
        | error reason => exact ⟨_, rfl, abortFetch_ends hconn h _ _ _⟩
        | ok payload =>
          rcases hstage payload fun region hlen => by simp [Answers, hsource, hlen] with
            ⟨reason, hstaged⟩ | ⟨region, w', exit, hstaged, hexit, hends⟩
          · simp only [hstaged]
            exact ⟨_, rfl, abortFetch_ends hconn h _ _ _⟩
          · exact ⟨exit, by simp only [hstaged, hexit], hends⟩
      | remote desc =>
        dsimp only
        cases env.fetchRemotePayload i block with
        | error reason => exact ⟨_, rfl, abortFetch_ends hconn h _ _ _⟩
        | ok payload =>
          rcases hstage payload fun region hlen => by simp [Answers, hsource, hlen] with
            ⟨reason, hstaged⟩ | ⟨region, w', exit, hstaged, hexit, hends⟩
          · simp only [hstaged]
            exact ⟨_, rfl, abortFetch_ends hconn h _ _ _⟩
          · exact ⟨exit, by simp only [hstaged, hexit], hends⟩

end Handler

/-! ## The ticket -/

namespace World

/-- The live regions of a pool. -/
def liveRegions (w : World) (id : PoolId) : List HostPinnedRegion := (w.pools id).inner.liveRegions

end World

/-- `staged` are exactly the regions that became live, and they overlap neither each other nor
a region that was live before. -/
structure NewlyLive (before after staged : List HostPinnedRegion) : Prop where
  kept : ∀ region ∈ before, region ∈ after
  exact_new : ∀ region, region ∈ staged ↔ region ∈ after ∧ region ∉ before
  distinct : staged.Nodup
  apart : staged.Pairwise Extent.Apart
  apart_before : ∀ region ∈ staged, ∀ other ∈ before, region.Apart other

theorem Staged.newlyLive {before now : PoolId → SharedHostPinnedPool}
    {L : List (PoolId × HostPinnedRegion)} (h : Staged before now L) (id : PoolId) :
    NewlyLive (before id).inner.liveRegions (now id).inner.liveRegions (regionsIn id L) := by
  have hperm := h.live id
  obtain ⟨hdistinct, -, hdisjoint⟩ := List.nodup_append.mp (hperm.nodup_iff.mp (h.sound id).nodup)
  obtain ⟨hapart, -, hbefore⟩ := List.pairwise_append.mp
    ((hperm.pairwise_iff Extent.Apart.symm).mp (h.sound id).apart)
  refine ⟨fun region hr => ?_, fun region => ⟨fun hr => ?_, fun hr => ?_⟩, hdistinct, hapart,
    hbefore⟩
  · exact hperm.mem_iff.mpr (List.mem_append_right _ hr)
  · exact ⟨hperm.mem_iff.mpr (List.mem_append_left _ hr),
      fun hb => hdisjoint region hr region hb rfl⟩
  · exact (List.mem_append.mp (hperm.mem_iff.mp hr.1)).resolve_right hr.2

/-- A fetch that ended in `w'`: the queued event, then one event more. After a failure the live
regions are those before the call; after a completion every request is answered, and the
newly live regions are those of the answers to release after the promotion, in order. -/
def FetchEnded (ticket : FetchTicket) (blocks : List FetchRequest) (w w' : World)
    (outcome : QueueOutcome) : Prop :=
  ∃ last, w'.events = w.events ++ [.fetchQueued ticket blocks.length, last] ∧
    ((∃ failedBlock failure reason, last = .fetchFailed ticket failedBlock failure reason ∧
        outcome = failure.intoOutcome ∧
        ∀ id region, region ∈ w'.liveRegions id ↔ region ∈ w.liveRegions id) ∨
      (∃ fetched, last = .fetchCompleted ticket fetched ∧ outcome = .completed ∧
        List.Forall₂ Answers blocks fetched ∧
        ∀ id, NewlyLive (w.liveRegions id) (w'.liveRegions id)
          (regionsIn id (stagedRegions blocks fetched))))

/-- A fetch over pools in use returns; it ends its ticket once and leaks no region. -/
theorem handleFetch_ends {Op : Type} (env : FetchEnv Op) (ticket : FetchTicket) (w : World)
    (blocks : List FetchRequest) (hconn : env.connected = true)
    (hpools : ∀ id, (w.pools id).inner.InUse) :
    ∃ outcome w', handleFetch env ticket w blocks = some (.ok outcome, w') ∧
      FetchEnded ticket blocks w w' outcome := by
  have hsound : ∀ id, (w.pools id).inner.Sound := fun id => (hpools id).sound
  rw [handleFetch, World.emitRequired_eq hconn]
  dsimp only
  split
  · generalize (blocks.head?.map FetchRequest.blockId).getD ⟨0⟩ = failedBlock
    rw [World.reportFailure_eq hconn]
    exact ⟨_, _, rfl, .fetchFailed ticket failedBlock .cancelled "fetch cancelled",
      List.append_assoc _ _ _, Or.inl ⟨failedBlock, _, _, rfl, rfl, fun id region => Iff.rfl⟩⟩
  · obtain ⟨⟨result, regions, w'⟩, hloop, hsettled, hends⟩ := fetchLoop_ends
      (w := { w with events := w.events ++ [.fetchQueued ticket blocks.length] })
      hconn List.Forall₂.nil (Staged.refl hsound) 0
    have hdrop : regions.drop w' = w' := if_pos hsettled
    rw [show AllocatedRegions.new = ⟨stagedRegions [] [], false⟩ from rfl, hloop]
    rcases hends with ⟨failedBlock, failure, reason, hresult, hevents, hpools'⟩ |
      ⟨fetched, hresult, hevents, hanswers, hpools'⟩
    · refine ⟨failure.intoOutcome, w', ?_, _, ?_, Or.inl ⟨failedBlock, failure, reason, rfl, rfl,
        fun id region => (hpools'.live id).mem_iff⟩⟩
      · change some (result, regions.drop w') = _
        rw [hdrop, show result = _ from hresult]
      · rw [hevents]
        exact List.append_assoc _ _ _
    · refine ⟨.completed, w', ?_, _, ?_, Or.inr ⟨fetched, rfl, rfl, hanswers,
        fun id => hpools'.newlyLive id⟩⟩
      · change some (result, regions.drop w') = _
        rw [hdrop, show result = _ from hresult]
      · rw [hevents]
        exact List.append_assoc _ _ _

/-- A pool of four bytes, a store whose blocks have two, and two requests. -/
def smallWorld : Option World :=
  (HostPinnedPool.new 4).map fun pool => ⟨fun _ => ⟨pool, false⟩, []⟩

def smallEnv : FetchEnv Unit where
  connected := true
  cancelled _ := false
  diskStore := some ⟨fun _ => "kv", fun _ _ _ => .ok [1, 2]⟩
  clusterSharedBackend := none

def diskRequests : List FetchRequest :=
  [⟨⟨1⟩, .disk ⟨0⟩ 2, 2, ⟨0⟩⟩, ⟨⟨2⟩, .disk ⟨1⟩ 2, 2, ⟨0⟩⟩]

theorem handleFetch_ends_two : ∃ w w', smallWorld = some w ∧
    handleFetch smallEnv ⟨7⟩ w diskRequests = some (.ok .completed, w') ∧
    w'.liveRegions ⟨0⟩ = [⟨2, 2⟩, ⟨0, 2⟩] ∧ FetchEnded ⟨7⟩ diskRequests w w' .completed := by
  obtain ⟨pool, hpool⟩ : ∃ pool, HostPinnedPool.new 4 = some pool := ⟨_, rfl⟩
  obtain ⟨w, hw⟩ : ∃ w : World, w = ⟨fun _ => ⟨pool, false⟩, []⟩ := ⟨_, rfl⟩
  have huse : ∀ id, (w.pools id).inner.InUse := by
    intro id
    rw [hw]
    exact Reachable.start ⟨4, hpool⟩
  obtain ⟨outcome, w', hfetch, hended⟩ := handleFetch_ends smallEnv ⟨7⟩ w diskRequests rfl huse
  have hrun : (handleFetch smallEnv ⟨7⟩ w diskRequests).map
      (fun r => (r.1.toOption, r.2.liveRegions ⟨0⟩)) =
      some (some .completed, [⟨2, 2⟩, ⟨0, 2⟩]) := by
    cases hpool
    subst hw
    decide +kernel
  rw [hfetch] at hrun
  obtain ⟨houtcome, hlive⟩ := Prod.mk.inj (Option.some.inj hrun)
  obtain rfl : outcome = .completed := Option.some.inj houtcome
  refine ⟨w, w', ?_, hfetch, hlive, hended⟩
  rw [smallWorld, hpool, hw]
  rfl

end Arle.KvTier.Coordinator
