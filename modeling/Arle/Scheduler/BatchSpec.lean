import Arle.Lib.Run
import Arle.Scheduler.Batch

/-!
# The blocks of the batch scheduler

A block is free, or it is held by one waiting or one running request. `Kept` says so, with
the distinct ids that the queue and the running map rely on. Only `finish_request` can break
it: it drops a waiting request with the blocks of its finished chunks. A running request has
blocks for its tokens (`Fed`) until an `advance_decode` counts a token and finds no block for it.
-/

namespace Arle.Scheduler

namespace BlockManager

variable {m : BlockManager} {held : List BlockId} {n : Nat}

/-- Every request for blocks gets them all, or too few are free and it leaves the manager as it
is. -/
theorem allocateGpu_spec (h : m.Holds held) (n : Nat) :
    (m.freeGpu.length < n ∧ ∃ err, m.allocateGpu n = some (.error err, m)) ∨
      ∃ more m', m.allocateGpu n = some (.ok more, m') ∧ more.length = n ∧
        m'.Holds (held ++ more) ∧ m'.blockSize = m.blockSize ∧
        m.freeGpu = more ++ m'.freeGpu := by
  rw [allocateGpu]
  by_cases hn : m.freeGpu.length < n
  · rw [if_pos hn]
    exact Or.inl ⟨hn, _, rfl⟩
  · rw [if_neg hn]
    obtain ⟨more, m', hloop, hlen, hholds, hsize, hfree⟩ :=
      allocateLoop_spec ((List.append_nil held).symm ▸ h) (Nat.not_lt.mp hn)
    rw [hloop]
    exact Or.inr ⟨more, m', rfl, hlen, hholds, hsize, hfree⟩

theorem blocksForTokens_congr {m' : BlockManager} (h : m'.blockSize = m.blockSize) (n : Nat) :
    m'.blocksForTokens n = m.blocksForTokens n := by
  rw [blocksForTokens, blocksForTokens, h]

end BlockManager

namespace BatchScheduler

/-! ## What every call keeps -/

/-- The blocks of the waiting and of the running requests. -/
def held (s : BatchScheduler) : List BlockId :=
  s.waiting.flatMap PendingRequest.allocatedBlocks ++
    (Assoc.values s.running).flatMap RunningRequest.blocks

structure Kept (pool : List BlockId) (s : BatchScheduler) : Prop where
  holds : s.blockManager.Holds s.held
  pool : (s.blockManager.freeGpu ++ s.held).Perm pool
  ids : (s.waiting.map PendingRequest.reqId ++ s.running.keys).Nodup
  progress : ∀ r ∈ s.waiting, r.allocatedBlocks ≠ [] → r.prefillProgress < r.promptTokens.length

/-- The request has blocks for its tokens. -/
def Fed (m : BlockManager) (r : RunningRequest) : Prop :=
  m.blocksForTokens r.kvTokens ≤ r.blocks.length

instance (m : BlockManager) (r : RunningRequest) : Decidable (Fed m r) :=
  inferInstanceAs (Decidable (_ ≤ _))

section Calls

variable {pool : List BlockId} {s : BatchScheduler} {reqId : RequestId}

theorem held_insert {r : RunningRequest} (h : s.running.lookup reqId = none) :
    (Assoc.values (s.running.insert reqId r)).flatMap RunningRequest.blocks =
      r.blocks ++ (Assoc.values s.running).flatMap RunningRequest.blocks := by
  rw [Assoc.values_insert, Assoc.erase_of_lookup_eq_none h, List.flatMap_cons]

theorem held_erase {r : RunningRequest} (h : s.running.lookup reqId = some r) :
    ((Assoc.values s.running).flatMap RunningRequest.blocks).Perm
      (r.blocks ++ (Assoc.values (s.running.erase reqId)).flatMap RunningRequest.blocks) := by
  rw [← List.flatMap_cons]
  exact (Assoc.values_erase_perm h).flatMap_right _

theorem mem_keys {r : RunningRequest} (h : s.running.lookup reqId = some r) :
    reqId ∈ s.running.keys :=
  AList.lookup_isSome.mp (by rw [h]; rfl)

theorem addRequest_kept (h : s.Kept pool) (promptTokens : List Token) (maxTokens : Nat)
    (priority : RequestPriority) (hfresh : (∀ r ∈ s.waiting, r.reqId ≠ ⟨s.nextReqId⟩) ∧
      s.running.lookup ⟨s.nextReqId⟩ = none) :
    (s.addRequest promptTokens maxTokens priority).2.Kept pool := by
  have hheld : (s.addRequest promptTokens maxTokens priority).2.held = s.held := by
    simp [held, addRequest]
  refine ⟨hheld.symm ▸ h.holds, hheld.symm ▸ h.pool, ?_, fun r hr => ?_⟩
  · simp only [addRequest, List.map_append, List.map_cons, List.map_nil]
    rw [List.append_assoc, List.singleton_append, List.nodup_middle, List.nodup_cons]
    refine ⟨fun hin => ?_, h.ids⟩
    rcases List.mem_append.mp hin with hin | hin
    · obtain ⟨r, hr, heq⟩ := List.mem_map.mp hin
      exact hfresh.1 r hr heq
    · exact absurd (AList.lookup_eq_none.mp hfresh.2) (not_not.mpr hin)
  · rcases List.mem_append.mp hr with hr | hr
    · exact h.progress r hr
    · obtain rfl := List.mem_singleton.mp hr
      exact fun hne => absurd rfl hne

/-- A running request whose entry is replaced, with blocks that were free. -/
theorem Kept.grow (h : s.Kept pool) {old new : RunningRequest} {more : List BlockId}
    {m : BlockManager} (hrun : s.running.lookup reqId = some old)
    (hblocks : new.blocks = old.blocks ++ more) (hholds : m.Holds (s.held ++ more))
    (hfree : s.blockManager.freeGpu = more ++ m.freeGpu) :
    Kept pool { s with running := s.running.insert reqId new, blockManager := m } := by
  have hheld : (s.held ++ more).Perm
      (held { s with running := s.running.insert reqId new, blockManager := m }) := by
    simp only [held, Assoc.values_insert, List.flatMap_cons, hblocks, List.append_assoc]
    refine List.Perm.append_left _ ?_
    refine ((held_erase hrun).append_right more).trans ?_
    rw [List.append_assoc]
    exact List.Perm.append_left _ List.perm_append_comm
  refine ⟨hholds.perm hheld, ?_, ?_, h.progress⟩
  · refine ((hheld.symm.append_left m.freeGpu).trans ?_).trans h.pool
    rw [hfree, List.append_assoc]
    exact (List.perm_append_comm.append_left _).trans (by
      rw [← List.append_assoc, ← List.append_assoc]
      exact List.perm_append_comm.append_right _)
  · have hperm : (s.running.insert reqId new).keys.Perm s.running.keys := by
      rw [AList.keys_insert]
      exact (List.perm_cons_erase (mem_keys hrun)).symm
    exact (hperm.append_left _).nodup_iff.mpr h.ids

/-- There are blocks for one more token of the request. -/
def HasRoom (s : BatchScheduler) (r : RunningRequest) : Prop :=
  s.blockManager.blocksForTokens (r.kvTokens + 1) ≤ r.blocks.length + s.blockManager.freeGpu.length

instance (s : BatchScheduler) (r : RunningRequest) : Decidable (s.HasRoom r) :=
  inferInstanceAs (Decidable (_ ≤ _))

/-- `advance_decode` feeds the request or reports that it could not, which is only for want of
blocks. -/
theorem advanceDecode_spec (h : s.Kept pool) (reqId : RequestId) : ∃ advanced s',
    s.advanceDecode reqId = some (advanced, s') ∧ s'.Kept pool ∧
      s'.blockManager.blockSize = s.blockManager.blockSize ∧
      (∀ id, id ≠ reqId → s'.running.lookup id = s.running.lookup id) ∧
      (advanced = true → ∃ r, s'.running.lookup reqId = some r ∧ Fed s'.blockManager r) ∧
      (s.running.lookup reqId = none → s'.running = s.running) ∧
      (∀ r, s.running.lookup reqId = some r → s.HasRoom r → advanced = true) := by
  rw [advanceDecode]
  cases hrun : s.running.lookup reqId with
  | none =>
    exact ⟨false, s, rfl, h, rfl, fun _ _ => rfl, fun hb => (by cases hb), fun _ => rfl,
      fun r hr => (by cases hr)⟩
  | some req =>
    have hother : ∀ (r : RunningRequest) id, id ≠ reqId →
        (s.running.insert reqId r).lookup id = s.running.lookup id := fun r id hid =>
      AList.lookup_insert_ne hid
    have hsame : ∀ r : RunningRequest, r.blocks = req.blocks →
        Kept pool { s with running := s.running.insert reqId r } := fun r hr =>
      h.grow hrun (by rw [hr, List.append_nil])
        ((List.append_nil s.held).symm ▸ h.holds) rfl
    by_cases hmore : s.blockManager.blocksForTokens (req.kvTokens + 1) > req.blocks.length
    · simp only [if_pos hmore]
      rcases BlockManager.allocateGpu_spec h.holds
        (s.blockManager.blocksForTokens (req.kvTokens + 1) - req.blocks.length) with
        ⟨hfew, err, halloc⟩ | ⟨more, m', halloc, hlen, hholds, hsize, hfree⟩
      · rw [halloc]
        refine ⟨false, _, rfl, hsame _ rfl, rfl, hother _, fun hb => (by cases hb),
          fun hnone => (by cases hnone), fun r hr hroom => ?_⟩
        obtain rfl := Option.some.inj hr
        unfold HasRoom at hroom
        omega
      · rw [halloc]
        refine ⟨true, _, rfl, h.grow hrun rfl hholds hfree, hsize, hother _,
          fun _ => ⟨_, AList.lookup_insert _, ?_⟩, fun hnone => (by cases hnone), fun _ _ _ => rfl⟩
        rw [Fed, BlockManager.blocksForTokens_congr hsize, List.length_append, hlen]
        dsimp only
        omega
    · simp only [if_neg hmore]
      exact ⟨true, _, rfl, hsame _ rfl, rfl, hother _,
        fun _ => ⟨_, AList.lookup_insert _, Nat.not_lt.mp hmore⟩, fun hnone => (by cases hnone),
        fun _ _ _ => rfl⟩

/-- A running request that goes away, with its blocks free again. -/
theorem Kept.drop (h : s.Kept pool) {req : RunningRequest}
    (hrun : s.running.lookup reqId = some req) : ∃ m,
    BlockManager.free req.blocks s.blockManager = some m ∧
      m.blockSize = s.blockManager.blockSize ∧
      Kept pool { s with running := s.running.erase reqId, blockManager := m } := by
  have hperm : s.held.Perm (req.blocks ++
      held { s with running := s.running.erase reqId }) := by
    refine ((held_erase hrun).append_left _).trans ?_
    rw [← List.append_assoc, held, ← List.append_assoc]
    exact List.perm_append_comm.append_right _
  obtain ⟨m, hfree, hholds, hsize, hqueue⟩ := BlockManager.free_spec (h.holds.perm hperm)
  refine ⟨m, hfree, hsize, hholds, ?_, ?_, h.progress⟩
  · change (m.freeGpu ++ held { s with running := s.running.erase reqId }).Perm pool
    rw [hqueue, List.append_assoc]
    exact (hperm.symm.append_left _).trans h.pool
  · rw [AList.keys_erase]
    exact h.ids.sublist (List.Sublist.append_left List.erase_sublist _)

/-- The queue without a request that holds nothing. -/
theorem Kept.filter (h : s.Kept pool)
    (hnone : ∀ r ∈ s.waiting, r.reqId = reqId → r.allocatedBlocks = []) :
    Kept pool { s with waiting := s.waiting.filter fun r => r.reqId ≠ reqId } := by
  have hblocks : ∀ L : List PendingRequest,
      (∀ r ∈ L, r.reqId = reqId → r.allocatedBlocks = []) →
      (L.filter fun r => r.reqId ≠ reqId).flatMap PendingRequest.allocatedBlocks =
        L.flatMap PendingRequest.allocatedBlocks := by
    intro L hL
    induction L with
    | nil => rfl
    | cons r L ih =>
      have htail := ih fun r hr => hL r (List.mem_cons_of_mem _ hr)
      by_cases hr : r.reqId = reqId
      · rw [List.filter_cons_of_neg (by simp [hr]), htail, List.flatMap_cons,
          hL r List.mem_cons_self hr, List.nil_append]
      · rw [List.filter_cons_of_pos (by simp [hr]), List.flatMap_cons, htail, List.flatMap_cons]
  have hheld : held { s with waiting := s.waiting.filter fun r => r.reqId ≠ reqId } = s.held := by
    rw [held, held, hblocks s.waiting hnone]
  refine ⟨hheld.symm ▸ h.holds, hheld.symm ▸ h.pool, ?_, fun r hr =>
    h.progress r (List.mem_of_mem_filter hr)⟩
  exact h.ids.sublist (List.Sublist.append_right (List.filter_sublist.map _) _)

/-- `finish_request` of a request that does not wait with blocks. -/
theorem finishRequest_spec (h : s.Kept pool)
    (hnone : ∀ r ∈ s.waiting, r.reqId = reqId → r.allocatedBlocks = []) : ∃ s',
    s.finishRequest reqId = some s' ∧ s'.Kept pool ∧
      s'.blockManager.blockSize = s.blockManager.blockSize ∧
      ∀ id r, s'.running.lookup id = some r → s.running.lookup id = some r ∧ id ≠ reqId := by
  rw [finishRequest]
  cases hrun : s.running.lookup reqId with
  | none =>
    refine ⟨_, rfl, h.filter hnone, rfl, fun id r hr => ⟨hr, fun heq => ?_⟩⟩
    rw [heq] at hr
    exact absurd (hrun.symm.trans hr) (by simp)
  | some req =>
    obtain ⟨m, hfree, hsize, hkept⟩ := h.drop hrun
    simp only [hfree, Option.map_some]
    refine ⟨_, rfl, hkept.filter hnone, hsize, fun id r hr => ?_⟩
    rw [Assoc.lookup_erase_eq] at hr
    split at hr
    · cases hr
    · rename_i hne
      exact ⟨hr, hne⟩

/-! ## Preemption -/

theorem newestRunning_lookup (h : s.newestRunning = some reqId) :
    ∃ req, s.running.lookup reqId = some req := by
  obtain ⟨n, hn, rfl⟩ := Option.map_eq_some_iff.mp h
  obtain ⟨id, hid, rfl⟩ := List.mem_map.mp (List.max?_mem hn)
  exact Option.isSome_iff_exists.mp (AList.lookup_isSome.mpr hid)

/-- A running request goes back to the front of the queue. -/
theorem Kept.requeue (h : s.Kept pool) {req : RunningRequest}
    (hrun : s.running.lookup reqId = some req) {m : BlockManager}
    (hkept : Kept pool { s with running := s.running.erase reqId, blockManager := m })
    (priority : RequestPriority) :
    Kept pool { s with
      running := s.running.erase reqId
      blockManager := m
      waiting := ⟨reqId, req.promptTokens, req.maxTokens, priority, 0, []⟩ :: s.waiting } := by
  refine ⟨hkept.holds, hkept.pool, ?_, fun r hr => ?_⟩
  · rw [List.map_cons, List.cons_append, AList.keys_erase, ← List.nodup_middle]
    have hperm := (List.perm_cons_erase (mem_keys hrun)).append_left
      (s.waiting.map PendingRequest.reqId)
    exact hperm.nodup_iff.mp h.ids
  · rcases List.mem_cons.mp hr with rfl | hr
    · exact fun hne => absurd rfl hne
    · exact h.progress r hr

theorem newBlocksNeeded_empty (h : s.running.keys.length = 0) : s.newBlocksNeeded = 0 := by
  have hentries : s.running.entries = [] := by
    have := List.length_eq_zero_iff.mp h
    exact List.map_eq_nil_iff.mp this
  rw [newBlocksNeeded, Assoc.values, hentries]
  rfl

/-- `ensure_decode_memory` preempts until the running requests have room for a token each. -/
theorem ensureLoop_spec {fuel : Nat} (h : s.Kept pool) (hfuel : s.running.keys.length ≤ fuel)
    (preempted : Bool) : ∃ preempted' s', ensureLoop fuel s preempted = some (preempted', s') ∧
      s'.Kept pool ∧ s'.blockManager.blockSize = s.blockManager.blockSize ∧
      s'.newBlocksNeeded ≤ s'.blockManager.freeGpu.length ∧
      ∀ id r, s'.running.lookup id = some r → s.running.lookup id = some r := by
  induction fuel generalizing s preempted with
  | zero =>
    refine ⟨preempted, s, rfl, h, rfl, ?_, fun _ _ hr => hr⟩
    rw [newBlocksNeeded_empty (Nat.le_zero.mp hfuel)]
    exact Nat.zero_le _
  | succ fuel ih =>
    rw [ensureLoop]
    by_cases hroom : s.newBlocksNeeded ≤ s.blockManager.freeGpu.length
    · rw [if_pos hroom]
      exact ⟨preempted, s, rfl, h, rfl, hroom, fun _ _ hr => hr⟩
    · rw [if_neg hroom]
      cases hnewest : s.newestRunning with
      | none =>
        have hkeys : s.running.keys.length = 0 := by
          rw [newestRunning, Option.map_eq_none_iff, List.max?_eq_none_iff,
            List.map_eq_nil_iff] at hnewest
          rw [hnewest]
          rfl
        exact absurd (newBlocksNeeded_empty hkeys ▸ Nat.zero_le _) hroom
      | some preemptId =>
        obtain ⟨req, hrun⟩ := newestRunning_lookup hnewest
        obtain ⟨m, hfree, hsize, hkept⟩ := h.drop hrun
        have hlen : (s.running.erase preemptId).keys.length ≤ fuel := by
          rw [AList.keys_erase, List.length_erase_of_mem (mem_keys hrun)]
          omega
        obtain ⟨preempted', s', hloop, hkept', hsize', hroom', hrunning⟩ :=
          ih (h.requeue hrun hkept .normal) hlen true
        simp only [hrun, hfree]
        refine ⟨preempted', s', hloop, hkept', hsize'.trans hsize, hroom', fun id r hr => ?_⟩
        have := hrunning id r hr
        rw [Assoc.lookup_erase_eq] at this
        split at this
        · cases this
        · exact this

/-! ## Admission -/

theorem growPending_spec {m : BlockManager} {blocks : List BlockId} (h : m.Holds blocks)
    (pending : PendingRequest) (promptEnd : Nat) :
    (∃ err, growPending m pending promptEnd = some (.error err, m)) ∨
      ∃ more m', growPending m pending promptEnd = some
          (.ok { pending with allocatedBlocks := pending.allocatedBlocks ++ more }, m') ∧
        m'.Holds (blocks ++ more) ∧ m'.blockSize = m.blockSize ∧
        m.freeGpu = more ++ m'.freeGpu ∧
        m.blocksForTokens promptEnd ≤ (pending.allocatedBlocks ++ more).length := by
  rw [growPending]
  by_cases hextra : m.blocksForTokens promptEnd - pending.allocatedBlocks.length > 0
  · simp only [if_pos hextra]
    rcases BlockManager.allocateGpu_spec h
      (m.blocksForTokens promptEnd - pending.allocatedBlocks.length) with
      ⟨-, err, halloc⟩ | ⟨more, m', halloc, hlen, hholds, hsize, hfree⟩
    · rw [halloc]
      exact Or.inl ⟨err, rfl⟩
    · rw [halloc]
      refine Or.inr ⟨more, m', rfl, hholds, hsize, hfree, ?_⟩
      rw [List.length_append, hlen]
      omega
  · simp only [if_neg hextra]
    refine Or.inr ⟨[], m, ?_, (List.append_nil blocks).symm ▸ h, rfl, rfl, ?_⟩
    · rw [List.append_nil]
    · rw [List.append_nil]
      omega

/-- The pool after `more` blocks went from the free queue to a holder. -/
theorem Kept.take (h : s.Kept pool) {m : BlockManager} {more held' : List BlockId}
    (hholds : m.Holds (s.held ++ more)) (hfree : s.blockManager.freeGpu = more ++ m.freeGpu)
    (hheld : (s.held ++ more).Perm held') :
    m.Holds held' ∧ (m.freeGpu ++ held').Perm pool := by
  refine ⟨hholds.perm hheld, ((hheld.symm.append_left m.freeGpu).trans ?_).trans h.pool⟩
  rw [hfree, ← List.append_assoc, List.append_assoc more]
  exact List.perm_append_comm

/-- `try_admit_prefill_chunk` keeps the blocks of the chunk with its request; a request that
starts to run has blocks for its prompt. -/
theorem tryAdmitPrefillChunk_spec (h : s.Kept pool) (tokenBudget rowIndex : Nat) : ∃ row s',
    s.tryAdmitPrefillChunk tokenBudget rowIndex = some (row, s') ∧ s'.Kept pool ∧
      s'.blockManager.blockSize = s.blockManager.blockSize ∧
      ∀ id r, s'.running.lookup id = some r →
        s.running.lookup id = some r ∨ Fed s'.blockManager r := by
  rw [tryAdmitPrefillChunk]
  cases hwaiting : s.waiting with
  | nil => exact ⟨none, s, rfl, h, rfl, fun _ _ hr => Or.inl hr⟩
  | cons pending rest =>
    have hids := h.ids
    rw [hwaiting, List.map_cons, List.cons_append, List.nodup_cons] at hids
    have hrest : ∀ r ∈ rest, r ∈ s.waiting := fun r hr => hwaiting ▸ List.mem_cons_of_mem _ hr
    by_cases hempty : pending.prefillProgress ≥ pending.promptTokens.length
    · -- an empty prompt, which holds no blocks
      have hnone : pending.allocatedBlocks = [] := by
        by_contra hne
        have := h.progress pending (hwaiting ▸ List.mem_cons_self) hne
        omega
      have hheld : held { s with waiting := rest } = s.held := by
        rw [held, held, hwaiting, List.flatMap_cons, hnone, List.nil_append]
      simp only [if_pos hempty]
      exact ⟨none, _, rfl, ⟨hheld.symm ▸ h.holds, hheld.symm ▸ h.pool, hids.2,
        fun r hr => h.progress r (hrest r hr)⟩, rfl, fun _ _ hr => Or.inl hr⟩
    simp only [if_neg hempty]
    split
    · exact ⟨none, s, rfl, h, rfl, fun _ _ hr => Or.inl hr⟩
    generalize hchunk : min (min (pending.promptTokens.length - pending.prefillProgress)
      s.prefillChunkBudget) tokenBudget = chunkTokens
    have hheld : s.held = pending.allocatedBlocks ++
        (rest.flatMap PendingRequest.allocatedBlocks ++
          (Assoc.values s.running).flatMap RunningRequest.blocks) := by
      rw [held, hwaiting, List.flatMap_cons, List.append_assoc]
    rcases growPending_spec h.holds pending (pending.prefillProgress + chunkTokens) with
      ⟨err, hgrow⟩ | ⟨more, m, hgrow, hholds, hsize, hfree, hblocks⟩
    · rw [hgrow]
      refine ⟨none, _, rfl, ?_, rfl, fun _ _ hr => Or.inl hr⟩
      rw [← hwaiting]
      exact h
    rw [hgrow]
    dsimp only
    split
    · -- the last chunk: the request starts to run
      rename_i hlast
      have hnew : s.running.lookup pending.reqId = none :=
        AList.lookup_eq_none.mpr fun hin => hids.1 (List.mem_append_right _ hin)
      have hmove : (s.held ++ more).Perm (rest.flatMap PendingRequest.allocatedBlocks ++
          ((pending.allocatedBlocks ++ more) ++
            (Assoc.values s.running).flatMap RunningRequest.blocks)) := by
        refine List.perm_iff_count.mpr fun id => ?_
        simp only [hheld, List.count_append]
        omega
      obtain ⟨hholds', hpool⟩ := h.take hholds hfree hmove
      rw [← held_insert (s := s) (r := ⟨pending.reqId, pending.promptTokens, 0, pending.maxTokens,
        pending.allocatedBlocks ++ more, pending.promptTokens.length⟩) hnew] at hholds' hpool
      refine ⟨_, _, rfl, ⟨hholds', hpool, ?_, fun r hr => h.progress r (hrest r hr)⟩, hsize,
        fun id r hr => ?_⟩
      · rw [AList.keys_insert, List.erase_of_not_mem fun hin =>
          hids.1 (List.mem_append_right _ hin), List.nodup_middle]
        exact List.nodup_cons.mpr hids
      · rw [Assoc.lookup_insert_eq] at hr
        split at hr
        · cases hr
          right
          rw [Fed, BlockManager.blocksForTokens_congr hsize]
          refine Nat.le_trans (Nat.le_of_eq ?_) hblocks
          congr 1
          dsimp only
          omega
        · exact Or.inl hr
    · -- an earlier chunk: the request waits with its blocks
      rename_i hlast
      have hmove : (s.held ++ more).Perm ((pending.allocatedBlocks ++ more) ++
          (rest.flatMap PendingRequest.allocatedBlocks ++
            (Assoc.values s.running).flatMap RunningRequest.blocks)) := by
        refine List.perm_iff_count.mpr fun id => ?_
        simp only [hheld, List.count_append]
        omega
      have hheld' : held { s with
          waiting := { pending with
            allocatedBlocks := pending.allocatedBlocks ++ more
            prefillProgress := pending.prefillProgress + chunkTokens } :: rest
          blockManager := m } = (pending.allocatedBlocks ++ more) ++
            (rest.flatMap PendingRequest.allocatedBlocks ++
              (Assoc.values s.running).flatMap RunningRequest.blocks) := by
        rw [held, List.flatMap_cons, List.append_assoc]
      obtain ⟨hholds', hpool⟩ := h.take hholds hfree hmove
      rw [← hheld'] at hholds' hpool
      refine ⟨_, _, rfl, ⟨hholds', hpool, ?_, fun r hr => ?_⟩, hsize, fun _ _ hr => Or.inl hr⟩
      · exact List.nodup_cons.mpr hids
      · rcases List.mem_cons.mp hr with rfl | hr
        · exact fun _ => Nat.not_le.mp hlast
        · exact h.progress r (hrest r hr)

/-- `schedule_step` returns; a request that runs after it ran before, or is fed. -/
theorem scheduleStep_spec (h : s.Kept pool) : ∃ plan s',
    s.scheduleStep = some (plan, s') ∧ s'.Kept pool ∧
      s'.blockManager.blockSize = s.blockManager.blockSize ∧
      ∀ id r, s'.running.lookup id = some r →
        s.running.lookup id = some r ∨ Fed s'.blockManager r := by
  obtain ⟨preempted, s₁, hensure, hkept, hsize, -, hrunning⟩ :=
    ensureLoop_spec h (Nat.le_refl _) false
  rw [scheduleStep, ensureDecodeMemory, hensure]
  dsimp only
  split
  · exact ⟨_, s₁, rfl, hkept, hsize, fun id r hr => Or.inl (hrunning id r hr)⟩
  · split
    · obtain ⟨row, s₂, hadmitted, hkept₂, hsize₂, hrunning₂⟩ := tryAdmitPrefillChunk_spec hkept
        (s₁.config.maxTokensPerStep - s₁.running.keys.length) s₁.buildDecodeRows.length
      rw [hadmitted]
      exact ⟨_, s₂, rfl, hkept₂, hsize₂.trans hsize, fun id r hr =>
        (hrunning₂ id r hr).imp_left (hrunning id r)⟩
    · exact ⟨_, s₁, rfl, hkept, hsize, fun id r hr => Or.inl (hrunning id r hr)⟩

end Calls

/-! ## Runs -/

/-- The calls on the scheduler. -/
inductive BatchOp
  | addRequest (promptTokens : List Token) (maxTokens : Nat) (priority : RequestPriority)
  | scheduleStep
  | advanceDecode (reqId : RequestId)
  | finishRequest (reqId : RequestId)

def BatchStep (s : BatchScheduler) (op : BatchOp) (s' : BatchScheduler) : Prop :=
  match op with
  | .addRequest promptTokens maxTokens priority =>
    s' = (s.addRequest promptTokens maxTokens priority).2
  | .scheduleStep => ∃ plan, s.scheduleStep = some (plan, s')
  | .advanceDecode reqId => ∃ advanced, s.advanceDecode reqId = some (advanced, s')
  | .finishRequest reqId => s.finishRequest reqId = some s'

/-- A new scheduler with `numGpuBlocks` blocks; the ids of the blocks are distinct words. -/
def Created (numGpuBlocks : Nat) (s : BatchScheduler) : Prop :=
  ∃ config numCpuBlocks blockSize h, numGpuBlocks + numCpuBlocks ≤ 2 ^ 32 ∧
    s = new config (BlockManager.new numGpuBlocks numCpuBlocks blockSize h)

/-- A new request gets an id that is not in use, and a request that is finished does not wait
with blocks. -/
def KeepsBlocks (s : BatchScheduler) (op : BatchOp) : Prop :=
  match op with
  | .addRequest _ _ _ => (∀ r ∈ s.waiting, r.reqId ≠ ⟨s.nextReqId⟩) ∧
    s.running.lookup ⟨s.nextReqId⟩ = none
  | .finishRequest reqId => ∀ r ∈ s.waiting, r.reqId = reqId → r.allocatedBlocks = []
  | _ => True

/-- A running request that is advanced has room for its token. -/
def FindsBlocks (s : BatchScheduler) (op : BatchOp) : Prop :=
  match op with
  | .advanceDecode reqId => ∀ r, s.running.lookup reqId = some r → s.HasRoom r
  | _ => True

/-- Every running request has blocks for its tokens. -/
def AllFed (s : BatchScheduler) : Prop :=
  ∀ id r, s.running.lookup id = some r → Fed s.blockManager r

section Created

open BlockManager

/-- A new manager holds nothing. -/
theorem holds_new {numGpuBlocks numCpuBlocks blockSize : Nat} (h : 0 < blockSize)
    (hcount : numGpuBlocks + numCpuBlocks ≤ 2 ^ 32) :
    (BlockManager.new numGpuBlocks numCpuBlocks blockSize h).Holds [] := by
  refine ⟨?_, fun id hid => ⟨0, ?_⟩, fun id hid => absurd hid List.not_mem_nil⟩
  · rw [List.append_nil]
    exact nodup_blockIds (by omega)
  · obtain ⟨i, hi, rfl⟩ := List.mem_map.mp hid
    rw [List.mem_range'_1] at hi
    have hcpu : (⟨UInt32.ofNat i⟩ : BlockId) ∉ blockIds numGpuBlocks numCpuBlocks := fun hin => by
      have := (mem_blockIds hcount (by omega)).mp hin
      omega
    rw [BlockManager.new, Assoc.lookup_foldl_insert, if_neg hcpu, Assoc.lookup_foldl_insert]
    exact if_pos hid

end Created

theorem kept_new {config : BatchSchedulerConfig} {numGpuBlocks numCpuBlocks blockSize : Nat}
    (h : 0 < blockSize) (hcount : numGpuBlocks + numCpuBlocks ≤ 2 ^ 32) :
    (new config (BlockManager.new numGpuBlocks numCpuBlocks blockSize h)).Kept
      (BlockManager.blockIds 0 numGpuBlocks) := by
  refine ⟨holds_new h hcount, ?_, List.nodup_nil, fun r hr => absurd hr List.not_mem_nil⟩
  exact (List.append_nil (BlockManager.blockIds 0 numGpuBlocks)).symm ▸ List.Perm.refl _

theorem fed_congr {m m' : BlockManager} (h : m'.blockSize = m.blockSize) {r : RunningRequest}
    (hr : Fed m r) : Fed m' r := by
  rwa [Fed, BlockManager.blocksForTokens_congr h]

/-- The state after a step is that of the call's spec. -/
theorem result_eq {α : Type} {call : Option (α × BatchScheduler)} {a a' : α}
    {s₁ s₂ : BatchScheduler} (h : call = some (a, s₁)) (h' : call = some (a', s₂)) : s₂ = s₁ := by
  rw [h] at h'
  exact (Prod.mk.inj (Option.some.inj h')).2.symm

theorem kept_step (pool : List BlockId) : Preserved (guarded KeepsBlocks BatchStep)
    (Kept pool) := by
  rintro s op s' hkept ⟨hguard, hstep⟩
  cases op with
  | addRequest promptTokens maxTokens priority =>
    obtain rfl : s' = _ := hstep
    exact addRequest_kept hkept promptTokens maxTokens priority hguard
  | scheduleStep =>
    obtain ⟨plan, hcall⟩ := hstep
    obtain ⟨plan', s₁, hcall', hkept', -, -⟩ := scheduleStep_spec hkept
    obtain rfl := result_eq hcall hcall'
    exact hkept'
  | advanceDecode reqId =>
    obtain ⟨advanced, hcall⟩ := hstep
    obtain ⟨advanced', s₁, hcall', hkept', -⟩ := advanceDecode_spec hkept reqId
    obtain rfl := result_eq hcall hcall'
    exact hkept'
  | finishRequest reqId =>
    obtain ⟨s₁, hcall', hkept', -, -⟩ := finishRequest_spec hkept hguard
    obtain rfl := Option.some.inj (hcall'.symm.trans hstep)
    exact hkept'

/-- The step loses no block and finds the blocks it needs. -/
def Provided (s : BatchScheduler) (op : BatchOp) : Prop := KeepsBlocks s op ∧ FindsBlocks s op

theorem fed_step (pool : List BlockId) : Preserved (guarded Provided BatchStep)
    (fun s => s.Kept pool ∧ s.AllFed) := by
  rintro s op s' ⟨hkept, hfed⟩ ⟨⟨hguard, hroom⟩, hstep⟩
  refine ⟨kept_step pool s op s' hkept ⟨hguard, hstep⟩, fun id r hr => ?_⟩
  cases op with
  | addRequest promptTokens maxTokens priority =>
    obtain rfl : s' = _ := hstep
    exact hfed id r hr
  | scheduleStep =>
    obtain ⟨plan, hcall⟩ := hstep
    obtain ⟨plan', s₁, hcall', -, hsize, hrunning⟩ := scheduleStep_spec hkept
    obtain rfl := result_eq hcall hcall'
    rcases hrunning id r hr with hold | hnew
    · exact fed_congr hsize (hfed id r hold)
    · exact hnew
  | advanceDecode reqId =>
    obtain ⟨advanced, hcall⟩ := hstep
    obtain ⟨advanced', s₁, hcall', -, hsize, hother, hadvanced, hnone, hfound⟩ :=
      advanceDecode_spec hkept reqId
    obtain rfl := result_eq hcall hcall'
    by_cases hsame : id = reqId
    · subst hsame
      cases hold : s.running.lookup id with
      | none =>
        rw [hnone hold, hold] at hr
        cases hr
      | some r' =>
        obtain ⟨r₁, hr₁, hfed₁⟩ := hadvanced (hfound r' hold (hroom r' hold))
        obtain rfl : r₁ = r := Option.some.inj (hr₁.symm.trans hr)
        exact hfed₁
    · exact fed_congr hsize (hfed id r (hother id hsame ▸ hr))
  | finishRequest reqId =>
    obtain ⟨s₁, hcall', -, hsize, hrunning⟩ := finishRequest_spec hkept hguard
    obtain rfl := Option.some.inj (hcall'.symm.trans hstep)
    exact fed_congr hsize (hfed id r (hrunning id r hr).1)

/-- In every run in which no waiting request is finished while it holds blocks, every block of
the pool is free or has one holder, and a request that is advanced has blocks for its tokens. When
every `advance_decode` of a running request finds the blocks it needs, all running requests have
them. -/
theorem blocks_accounted {numGpuBlocks : Nat} {s : BatchScheduler}
    (h : Reachable (Created numGpuBlocks) (guarded KeepsBlocks BatchStep) s) :
    (s.blockManager.freeGpu ++ s.held).Perm (BlockManager.blockIds 0 numGpuBlocks) ∧
      (s.blockManager.freeGpu ++ s.held).Nodup ∧
      (∀ reqId s', s.advanceDecode reqId = some (true, s') →
        ∃ r, s'.running.lookup reqId = some r ∧ Fed s'.blockManager r) ∧
      (Reachable (Created numGpuBlocks) (guarded Provided BatchStep) s → s.AllFed) := by
  have hcreated : ∀ s, Created numGpuBlocks s →
      s.Kept (BlockManager.blockIds 0 numGpuBlocks) ∧ s.AllFed := by
    rintro s ⟨config, numCpuBlocks, blockSize, hsize, hcount, rfl⟩
    exact ⟨kept_new hsize hcount, fun id r hr => by cases hr⟩
  have hkept : s.Kept (BlockManager.blockIds 0 numGpuBlocks) :=
    h.invariant (fun s hs => (hcreated s hs).1) (kept_step _)
  refine ⟨hkept.pool, hkept.holds.nodup, fun reqId s' hcall => ?_,
    fun hwhen => (hwhen.invariant hcreated (fed_step _)).2⟩
  obtain ⟨advanced, s₁, hcall', -, -, -, hfed, -, -⟩ := advanceDecode_spec hkept reqId
  rw [hcall] at hcall'
  obtain ⟨rfl, rfl⟩ := Prod.mk.inj (Option.some.inj hcall')
  exact hfed rfl

/-- A request of two tokens is prefilled in two chunks and decoded once. -/
theorem blocks_accounted_two : ∃ s : BatchScheduler,
    Reachable (Created 3) (guarded Provided BatchStep) s ∧
    s.blockManager.freeGpu = [] ∧ s.held = [⟨0⟩, ⟨1⟩, ⟨2⟩] ∧
    s.held.Perm (BlockManager.blockIds 0 3) ∧ s.AllFed := by
  have h₁ : Reachable (Created 3) (guarded Provided BatchStep) _ :=
    Reachable.next (Reachable.start
      ⟨⟨8, 1, ⟨1, 1⟩⟩, 0, 1, Nat.one_pos, by decide, rfl⟩) (a := .addRequest [5, 6] 4 .normal)
      ⟨⟨⟨fun r hr => absurd hr List.not_mem_nil, rfl⟩, trivial⟩, rfl⟩
  have h₂ : Reachable (Created 3) (guarded Provided BatchStep) _ :=
    Reachable.next h₁ (a := .scheduleStep) ⟨⟨trivial, trivial⟩, _, rfl⟩
  have h₃ : Reachable (Created 3) (guarded Provided BatchStep) _ :=
    Reachable.next h₂ (a := .scheduleStep) ⟨⟨trivial, trivial⟩, _, rfl⟩
  have h₄ : Reachable (Created 3) (guarded Provided BatchStep) _ :=
    Reachable.next h₃ (a := .advanceDecode ⟨0⟩) ⟨⟨trivial, fun r hr => by
      obtain rfl := Option.some.inj hr
      decide +kernel⟩, true, rfl⟩
  obtain ⟨hpool, -, -, hfed⟩ := blocks_accounted (h₄.mono fun _ _ _ h => ⟨h.1.1, h.2⟩)
  exact ⟨_, h₄, by decide +kernel, by decide +kernel, hpool, hfed h₄⟩

/-- A half-prefilled request is finished: its block is lost. A request that finds no block for its
token is left with too few of them, also when another one is advanced. -/
theorem blocks_accounted_fails :
    (∃ s : BatchScheduler, Reachable (Created 2) BatchStep s ∧ s.waiting = [] ∧
      s.running.keys = [] ∧ ¬ (s.blockManager.freeGpu ++ s.held).Perm
        (BlockManager.blockIds 0 2)) ∧
    ∃ s s' : BatchScheduler, Reachable (Created 2) (guarded KeepsBlocks BatchStep) s ∧
      s.advanceDecode ⟨1⟩ = some (true, s') ∧
      ∃ r, s'.running.lookup ⟨0⟩ = some r ∧ ¬ Fed s'.blockManager r := by
  constructor
  · have h₁ : Reachable (Created 2) BatchStep _ :=
      Reachable.next (Reachable.start
        ⟨⟨8, 1, ⟨1, 1⟩⟩, 0, 1, Nat.one_pos, by decide, rfl⟩) (a := .addRequest [5, 6] 4 .normal) rfl
    have h₂ : Reachable (Created 2) BatchStep _ :=
      Reachable.next h₁ (a := .scheduleStep) ⟨_, rfl⟩
    have h₃ : Reachable (Created 2) BatchStep _ :=
      Reachable.next h₂ (a := .finishRequest ⟨0⟩) rfl
    refine ⟨_, h₃, by decide +kernel, by decide +kernel, fun hperm => ?_⟩
    exact absurd hperm.length_eq (by decide +kernel)
  · have h₁ : Reachable (Created 2) (guarded KeepsBlocks BatchStep) _ :=
      Reachable.next (Reachable.start
        ⟨⟨8, 8, ⟨8, 8⟩⟩, 0, 2, by decide, by decide, rfl⟩) (a := .addRequest [1, 2] 4 .normal)
        ⟨⟨fun r hr => absurd hr List.not_mem_nil, rfl⟩, rfl⟩
    have h₂ : Reachable (Created 2) (guarded KeepsBlocks BatchStep) _ :=
      Reachable.next h₁ (a := .addRequest [3] 4 .normal)
        ⟨⟨fun r hr => by rw [List.mem_singleton.mp hr]; decide, rfl⟩, rfl⟩
    have h₃ : Reachable (Created 2) (guarded KeepsBlocks BatchStep) _ :=
      Reachable.next h₂ (a := .scheduleStep) ⟨trivial, _, rfl⟩
    have h₄ : Reachable (Created 2) (guarded KeepsBlocks BatchStep) _ :=
      Reachable.next h₃ (a := .scheduleStep) ⟨trivial, _, rfl⟩
    have h₅ : Reachable (Created 2) (guarded KeepsBlocks BatchStep) _ :=
      Reachable.next h₄ (a := .advanceDecode ⟨0⟩) ⟨trivial, false, rfl⟩
    exact ⟨_, _, h₅, rfl, _, rfl, by decide +kernel⟩

end BatchScheduler

end Arle.Scheduler
