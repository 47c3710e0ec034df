import Arle.CudaKernels.PagedKvRuns
import Arle.Scheduler.Cuda.RestoredPages

/-!
# When a failed promotion leaves no trace

Once all blocks are copied, a failure gives every page back. A retag that succeeds before another
one fails is not undone, and neither is an insertion that falls short.
-/

namespace Arle.PrefixCache.RadixCache

open KvTier

section Retag

variable {c : RadixCache} {old new : BlockId}

/-- A retag to an id that the cache lacks fails and changes nothing if the cache lacks the old id;
otherwise the cache loses the old id. -/
theorem retagBlock_fresh (h : Indexes c.blockIndex c.block)
    (hnew : c.blockIndex.lookup new = none) (old : BlockId) :
    (c.blockIndex.lookup old = none ∧ c.retagBlock old new = (false, c)) ∨
    (c.blockIndex.lookup old ≠ none ∧ (c.retagBlock old new).1 = true ∧
      (c.retagBlock old new).2.blockIndex.lookup old = none) := by
  cases hold : c.blockIndex.lookup old with
  | none =>
    refine .inl ⟨rfl, ?_⟩
    unfold retagBlock
    by_cases hon : old = new
    · rw [if_pos hon, hold]
      rfl
    · simp [hon, hnew, hold]
  | some idx =>
    have hon : old ≠ new := by
      intro hon
      rw [hon, hnew] at hold
      cases hold
    obtain ⟨node, hnode, hid⟩ := block_eq_some.mp ((h old idx).mp hold)
    have hretag : c.retagBlock old new = (true, { c with
        nodes := c.nodes.set idx { node with blockId := some new }
        blockIndex := (c.blockIndex.erase old).insert new idx }) := by
      simp [retagBlock, hon, hnew, hold, hnode, hid]
    refine .inr ⟨Option.some_ne_none idx, by rw [hretag], ?_⟩
    rw [hretag]
    show ((c.blockIndex.erase old).insert new idx).lookup old = none
    rw [Assoc.lookup_insert_eq, if_neg hon, AList.lookup_erase]

/-- A retag brings back no id but the new one. -/
theorem retagBlock_lookup_none {b : BlockId} (hb : c.blockIndex.lookup b = none) (hne : b ≠ new) :
    (c.retagBlock old new).2.blockIndex.lookup b = none := by
  have herase : (c.blockIndex.erase old).lookup b = none := by
    rw [Assoc.lookup_erase_eq, hb, ite_self]
  unfold retagBlock
  split
  · exact hb
  split
  · exact hb
  split
  · exact hb
  next idx hold =>
    have hbo : b ≠ old := by
      intro hbo
      rw [hbo, hold] at hb
      cases hb
    split
    · exact herase
    split
    · show ((c.blockIndex.erase old).insert old idx).lookup b = none
      rw [Assoc.lookup_insert_eq, if_neg hbo, herase]
    · show ((c.blockIndex.erase old).insert new idx).lookup b = none
      rw [Assoc.lookup_insert_eq, if_neg hne, herase]

end Retag

end Arle.PrefixCache.RadixCache

namespace Arle.Scheduler.Cuda.PromotionState

open KvTier PrefixCache CudaKernels TokenKVPool RadixCache
open KvTier.Coordinator (FetchedBlock)

/-! ## The failures behind the loop -/

section Rollback

variable {promotedPages : List PromotedBlock} {att refs : Nat → Nat} {pool : TokenKVPool}
  {sessions sessions' : SessionState} {err : PromoteError}

/-- The pages of all promoted blocks are given back. -/
theorem releasePromoted_spec
    (h : pool.Balanced att (plus refs (promotedPages.flatMap PromotedBlock.pages)))
    (hpages : ∀ p ∈ promotedPages.flatMap PromotedBlock.pages, p < pool.maxTotalPages) :
    ∃ pool', releasePromoted promotedPages pool = some pool' ∧ pool'.Balanced att refs ∧
      pool'.layout = pool.layout := by
  induction promotedPages generalizing pool with
  | nil => exact ⟨pool, rfl, h, rfl⟩
  | cons promoted promotedPages ih =>
    rw [List.flatMap_cons] at h hpages
    have hswap : plus refs (promoted.pages ++ promotedPages.flatMap PromotedBlock.pages) =
        plus (plus refs (promotedPages.flatMap PromotedBlock.pages)) promoted.pages := by
      funext p
      simp only [plus, List.count_append]
      omega
    rw [hswap] at h
    obtain ⟨newlyFreed, pool₁, hrelease, h₁, hlayout₁⟩ :=
      releasePages_retained h fun p hp => hpages p (List.mem_append_left _ hp)
    obtain ⟨pool', hrest, h', hlayout⟩ := ih h₁ fun p hp => by
      rw [(layout_eq hlayout₁).2.2.1]
      exact hpages p (List.mem_append_right _ hp)
    refine ⟨pool', ?_, h', hlayout.trans hlayout₁⟩
    rw [releasePromoted, hrelease]
    exact hrest

theorem retagPromoted_lookup_none {b : BlockId}
    (hb : sessions.prefixCache.blockIndex.lookup b = none)
    (hnew : ∀ promoted ∈ promotedPages, b ≠ promoted.newBlockId) :
    (retagPromoted promotedPages sessions).2.prefixCache.blockIndex.lookup b = none := by
  induction promotedPages generalizing sessions with
  | nil => exact hb
  | cons promoted promotedPages ih =>
    have hretag : (sessions.prefixCache.retagBlock promoted.oldBlockId
        promoted.newBlockId).2.blockIndex.lookup b = none :=
      retagBlock_lookup_none hb (hnew promoted List.mem_cons_self)
    unfold retagPromoted
    dsimp only
    split
    · refine ih ?_ fun next hnext => hnew next (List.mem_cons_of_mem _ hnext)
      rw [SessionState.retagSessionSlotBlock_prefixCache]
      exact hretag
    · exact hretag

/-- The first retag fails and nothing has changed, or it succeeds and its old id is gone. -/
theorem retagPromoted_error
    (h : Indexes sessions.prefixCache.blockIndex sessions.prefixCache.block)
    (hnew : ∀ promoted ∈ promotedPages,
      sessions.prefixCache.blockIndex.lookup promoted.newBlockId = none)
    (hr : retagPromoted promotedPages sessions = (.error err, sessions')) :
    ∃ first rest, promotedPages = first :: rest ∧
      ((sessions.prefixCache.blockIndex.lookup first.oldBlockId = none ∧ sessions' = sessions) ∨
        (sessions.prefixCache.blockIndex.lookup first.oldBlockId ≠ none ∧
          sessions'.prefixCache.blockIndex.lookup first.oldBlockId = none)) := by
  cases promotedPages with
  | nil => cases hr
  | cons first rest =>
    refine ⟨first, rest, rfl, ?_⟩
    rcases retagBlock_fresh h (hnew first List.mem_cons_self) first.oldBlockId with
      ⟨hold, hretag⟩ | ⟨hold, hok, hgone⟩
    · rw [retagPromoted, hretag] at hr
      obtain ⟨-, rfl⟩ := Prod.mk.inj hr
      exact .inl ⟨hold, rfl⟩
    · refine .inr ⟨hold, ?_⟩
      rw [retagPromoted, if_pos hok] at hr
      have hsessions := congrArg Prod.snd hr
      dsimp only at hsessions
      rw [← hsessions]
      refine retagPromoted_lookup_none ?_ fun promoted hmem heq => ?_
      · rw [SessionState.retagSessionSlotBlock_prefixCache]
        exact hgone
      · exact hold (heq ▸ hnew promoted (List.mem_cons_of_mem _ hmem))

end Rollback

/-! ## A promotion as a whole -/

section Promote

variable {s s' : PromotionState} {waiter : FetchWaiter} {fetchedBlocks : List FetchedBlock}
  {att refs : Nat → Nat} {done : List ReadmissionBlock} {acc : Promotion} {pool : TokenKVPool}
  {err : PromoteError}

theorem promoting_start (h : s.pagedKvPool.Balanced att refs) :
    s.Promoting att refs [] .start s.pagedKvPool where
  room := by
    show 0 * s.pagesPerBlock ≤ _
    omega
  taken := by
    show [] = s.pagedKvPool.freePages.reverse.take (0 * s.pagesPerBlock)
    rw [Nat.zero_mul, List.take_zero]
  left := by
    show s.pagedKvPool.freePages.reverse =
      s.pagedKvPool.freePages.reverse.drop (0 * s.pagesPerBlock)
    rw [Nat.zero_mul, List.drop_zero]
  balanced := h
  layout := rfl
  old := rfl
  new := fun _ h => by cases h
  final := .nil
  fingerprints := rfl

/-- The loop leaves the pool as it was if and only if it stops at the first staged block. -/
theorem StoppedAfter.noTrace_iff {n : Nat} (h : s.pagedKvPool.Balanced att refs)
    (hstopped : s.StoppedAfter att refs n pool) :
    s.NoTrace { s with pagedKvPool := pool } ↔ n = 0 := by
  constructor
  · intro htrace
    by_contra hn
    have hle : s.pagesPerBlock ≤ n * s.pagesPerBlock :=
      Nat.le_mul_of_pos_left _ (Nat.pos_of_ne_zero hn)
    have hpos := s.pagesPerBlock_pos
    have hroom := hstopped.room
    obtain ⟨p, hp⟩ := List.exists_mem_of_length_pos
      (l := s.pagedKvPool.freePages.reverse.take (n * s.pagesPerBlock)) (by
        rw [List.length_take, List.length_reverse]
        omega)
    have hfree := List.mem_reverse.mp (List.mem_of_mem_take hp)
    exact h.refs_changed hstopped.balanced hstopped.layout hp ((h.free p).mp hfree).1 htrace.refs
  · rintro rfl
    have hback := hstopped.balanced
    rw [Nat.zero_mul, List.take_zero, plus_nil] at hback
    obtain ⟨hlength, hrefs⟩ := h.same hback hstopped.layout
    exact ⟨hlength, hrefs, SameIndex.refl _, fun _ => rfl⟩

/-- The pages of the promoted blocks are below the size of the pool. -/
theorem Promoting.pages_lt (h : s.Promoting att refs done acc pool)
    (hbalanced : s.pagedKvPool.Balanced att refs) :
    ∀ p ∈ acc.promotedPages.flatMap PromotedBlock.pages, p < pool.maxTotalPages := by
  intro p hp
  rw [h.taken] at hp
  rw [(layout_eq h.layout).2.2.1]
  exact ((hbalanced.free p).mp (List.mem_reverse.mp (List.mem_of_mem_take hp))).1

/-- A failure behind the loop gives all pages back. -/
theorem Promoting.released (h : s.Promoting att refs done acc pool)
    (hbalanced : s.pagedKvPool.Balanced att refs) : ∃ pool',
    releasePromoted acc.promotedPages pool = some pool' ∧
      pool'.freePages.length = s.pagedKvPool.freePages.length ∧
      pool'.pageRefCount = s.pagedKvPool.pageRefCount := by
  obtain ⟨pool', hrelease, hback, hlayout⟩ :=
    releasePromoted_spec h.balanced (h.pages_lt hbalanced)
  exact ⟨pool', hrelease, hbalanced.same hback (hlayout.trans h.layout)⟩

/-- The new ids of the promoted blocks are not in the cache. -/
theorem Promoting.new_unnamed (h : s.Promoting att refs done acc pool) (hs : s.Consistent) :
    ∀ promoted ∈ acc.promotedPages,
      s.prefixCache.blockIndex.lookup promoted.newBlockId = none := by
  intro promoted hmem
  obtain ⟨page, hpage, hnew⟩ := h.new promoted hmem
  rw [hnew]
  exact hs.unnamed page hpage

/-- The index of the cache changes if a named id is no longer named. -/
theorem NoTrace.keeps_name (h : s.NoTrace s') {b : BlockId}
    (hb : s.prefixCache.blockIndex.lookup b ≠ none) :
    s'.prefixCache.blockIndex.lookup b ≠ none := by
  rw [h.index.lookup]
  exact hb

/-- The tokens of a valid plan are those of its blocks. -/
theorem validate_length
    (hvalid : s.validateStagedSealedPrefix waiter.requestId waiter.promptTokens
      waiter.stagedPrefix = .ok ())
    (hblocks : waiter.stagedPrefix.blocks ≠ []) :
    (waiter.promptTokens.take waiter.stagedPrefix.matchedLen).length =
      waiter.stagedPrefix.blocks.length * s.prefixCache.blockSize := by
  unfold validateStagedSealedPrefix at hvalid
  rw [if_neg (by rw [List.isEmpty_iff]; exact hblocks)] at hvalid
  split at hvalid
  · cases hvalid
  next hshape =>
    rw [not_or] at hshape
    obtain ⟨hle, hsealed⟩ := hshape
    have hfull : isFullSealedPrefix waiter.stagedPrefix.matchedLen s.prefixCache.blockSize
        waiter.stagedPrefix.blocks.length = true := by simpa using hsealed
    have hmatched := of_decide_eq_true (Bool.and_eq_true_iff.mp hfull).2
    unfold sealedBlockTokenCount at hmatched
    -- the count does not saturate, as the prompt is shorter than the largest word
    have hfit := waiter.promptTokens_fit
    have hfits := Nat.not_lt.mp hle
    rw [List.length_take, Nat.min_eq_left hfits, Nat.mul_comm]
    omega

/-- A block that the cache holds is one of the plan's own exactly if the final ids have it. -/
theorem Promoting.holdsPlan_iff
    (h : s.Promoting att refs waiter.stagedPrefix.blocks acc pool) (hs : s.Consistent)
    (js : List Nat) :
    s.prefixCache.HoldsAlready js acc.finalBlockIds acc.fingerprints ↔
      ∀ k v : Nat, (s.prefixCache.blockNodes js)[k]? = some v →
        ∃ block, waiter.stagedPrefix.blocks[k]? = some block ∧ block.source = none ∧
          s.prefixCache.block v = some block.blockId ∧
          s.prefixCache.fprint v = some block.fingerprint := by
  constructor
  · intro hholds k v hv
    obtain ⟨hblock, hfprint⟩ := hholds k v hv
    have hmem := List.mem_of_getElem? hv
    have hsome := (List.mem_filter.mp hmem).2
    obtain ⟨id, hid⟩ := Option.isSome_iff_exists.mp hsome
    rw [hid] at hblock
    obtain ⟨hk, hget⟩ := List.getElem?_eq_some_iff.mp hblock.symm
    have hlt : k < waiter.stagedPrefix.blocks.length := h.final.length_eq ▸ hk
    refine ⟨waiter.stagedPrefix.blocks[k], List.getElem?_eq_getElem hlt, ?_⟩
    rw [hfprint, h.fingerprints, List.getElem?_map, List.getElem?_eq_getElem hlt]
    rcases h.final.get hlt hk with ⟨hnone, heq⟩ | ⟨-, page, hpage, heq⟩
    · refine ⟨hnone, ?_, rfl⟩
      rw [hid, ← hget]
      exact congrArg some heq
    · -- the id of a fresh page is in no node
      have hunnamed := hs.unnamed page hpage
      have hnew : id = blockOfPage page := hget.symm.trans heq
      rw [← hnew, hs.index.lookup_eq_none] at hunnamed
      exact absurd hid (hunnamed v)
  · intro hplan k v hv
    obtain ⟨block, hget, hnone, hblock, hfprint⟩ := hplan k v hv
    obtain ⟨hk, heq⟩ := List.getElem?_eq_some_iff.mp hget
    have hk' : k < acc.finalBlockIds.length := h.final.length_eq ▸ hk
    rw [hblock, hfprint, h.fingerprints, List.getElem?_map, hget, List.getElem?_eq_getElem hk']
    refine ⟨?_, rfl⟩
    rcases h.final.get hk hk' with ⟨-, hid⟩ | ⟨hne, -⟩
    · refine congrArg some (Eq.trans ?_ hid.symm)
      exact congrArg ReadmissionBlock.blockId heq.symm
    · refine absurd ?_ hne
      have hsource : waiter.stagedPrefix.blocks[k].source = none := by rw [heq, hnone]
      exact hsource

/-- A failed retag leaves no trace if and only if it is the first one. -/
theorem Promoting.retag_noTrace_iff (h : s.Promoting att refs done acc pool) (hs : s.Consistent)
    {sessions : SessionState} {pool' : TokenKVPool}
    (hretag : retagPromoted acc.promotedPages s.toSessionState = (.error err, sessions))
    (hlength : pool'.freePages.length = s.pagedKvPool.freePages.length)
    (hrefs : pool'.pageRefCount = s.pagedKvPool.pageRefCount) :
    s.NoTrace { s with toSessionState := sessions, pagedKvPool := pool' } ↔
      ∀ first, (done.filter fun block => block.source.isSome)[0]? = some first →
        s.prefixCache.blockIndex.lookup first.blockId = none := by
  obtain ⟨promoted, rest, hpages, hcases⟩ :=
    retagPromoted_error hs.index (h.new_unnamed hs) hretag
  have hfirst : ((done.filter fun block => block.source.isSome)[0]?).map
      ReadmissionBlock.blockId = some promoted.oldBlockId := by
    rw [← List.getElem?_map, ← h.old, hpages]
    rfl
  obtain ⟨block, hblock, hid⟩ := Option.map_eq_some_iff.mp hfirst
  rcases hcases with ⟨hnone, rfl⟩ | ⟨hsome, hgone⟩
  · refine iff_of_true ⟨hlength, hrefs, SameIndex.refl _, fun _ => rfl⟩ fun first hget => ?_
    rw [hblock, Option.some.injEq] at hget
    rw [← hget, hid]
    exact hnone
  · refine iff_of_false (fun htrace => htrace.keeps_name hsome hgone) fun hall => ?_
    have hlost := hall block hblock
    rw [hid] at hlost
    exact hsome hlost

/-- An insertion that falls short leaves no trace if and only if it writes back what the cache
holds. -/
theorem Promoting.insert_noTrace_iff
    (h : s.Promoting att refs waiter.stagedPrefix.blocks acc pool) (hs : s.Consistent)
    (hwhole : (waiter.promptTokens.take waiter.stagedPrefix.matchedLen).length =
      waiter.stagedPrefix.blocks.length * s.prefixCache.blockSize)
    {inserted : Nat} {cache : RadixCache} {pool' : TokenKVPool}
    (hinsert : s.prefixCache.insertWithFingerprints
      (waiter.promptTokens.take waiter.stagedPrefix.matchedLen) acc.finalBlockIds
      acc.fingerprints = some (inserted, cache))
    (hshort : inserted ≠ (waiter.promptTokens.take waiter.stagedPrefix.matchedLen).length)
    (hlength : pool'.freePages.length = s.pagedKvPool.freePages.length)
    (hrefs : pool'.pageRefCount = s.pagedKvPool.pageRefCount) :
    s.NoTrace { s with prefixCache := cache, pagedKvPool := pool' } ↔
      s.HoldsPlan (waiter.promptTokens.take waiter.stagedPrefix.matchedLen)
        waiter.stagedPrefix := by
  rw [h.final.length_eq] at hwhole
  have hiff : ∀ {js}, s.prefixCache.trie.Walk root
      (waiter.promptTokens.take waiter.stagedPrefix.matchedLen) js →
      (s.prefixCache.SameIndex cache ↔ _) := fun hwalk =>
    (insert_short_iff hs.tree hs.free_nodup hs.index hwhole hwalk hinsert hshort).trans
      (h.holdsPlan_iff hs _)
  constructor
  · intro htrace js hwalk
    exact (hiff hwalk).mp htrace.index
  · intro hplan
    obtain ⟨js, hwalk⟩ := RadixTree.exists_walk hs.tree.tree root
      (waiter.promptTokens.take waiter.stagedPrefix.matchedLen)
    exact ⟨hlength, hrefs, (hiff hwalk).mpr (hplan js hwalk), fun _ => rfl⟩

/-- A valid plan whose promotion fails leaves no trace if and only if the failure comes first. -/
theorem promotePlan_noTrace_iff (hs : s.Consistent)
    (hwhole : (waiter.promptTokens.take waiter.stagedPrefix.matchedLen).length =
      waiter.stagedPrefix.blocks.length * s.prefixCache.blockSize)
    (hr : s.promotePlan waiter fetchedBlocks = some (.error err, s')) :
    s.NoTrace s' ↔ s.FailsFirst fetchedBlocks waiter := by
  obtain ⟨att, refs, hbalanced⟩ := hs.pool
  have hpages : ∀ p ∈ s.pagedKvPool.freePages, p < s.pagedKvPool.maxTotalPages :=
    fun p hp => ((hbalanced.free p).mp hp).1
  unfold promotePlan at hr
  rcases promoteBlocks_spec fetchedBlocks waiter.stagedPrefix.blocks
      (promoting_start hbalanced) hpages with
    ⟨acc, pool, hloop, h, hall⟩ | ⟨err', n, block, pool, hloop, hstopped, hblock, hcannot, hbefore⟩
  · have hcan : ∀ j block, waiter.stagedPrefix.staged[j]? = some block →
        s.CanPromote fetchedBlocks j block := fun j block hj => hall j block hj (Nat.zero_le j)
    obtain ⟨pool', hrelease, hlength, hrefs⟩ := h.released hbalanced
    rw [hloop] at hr
    dsimp only at hr
    by_cases hhold : waiter.sessionSlotHold = none
    · rw [if_neg (by rw [hhold]; exact (fun h => by cases h))] at hr
      cases hinsert : s.prefixCache.insertWithFingerprints
          (waiter.promptTokens.take waiter.stagedPrefix.matchedLen) acc.finalBlockIds
          acc.fingerprints with
      | none =>
        rw [hinsert] at hr
        cases hr
      | some result =>
        rw [hinsert] at hr
        dsimp only at hr
        split at hr
        · next hshort =>
          rw [hrelease] at hr
          cases hr
          rw [h.insert_noTrace_iff hs hwhole hinsert hshort hlength hrefs]
          constructor
          · intro hplan
            exact {
              promote := fun j block hj hcannot => absurd (hcan j block hj) hcannot
              retag := fun _ hne => absurd hhold hne
              insert := fun _ _ => hplan }
          · intro hfirst
            exact hfirst.insert hcan hhold
        · cases hr
    · rw [if_pos (Option.isSome_iff_ne_none.mpr hhold)] at hr
      split at hr
      · next err'' sessions hretag =>
        rw [hrelease] at hr
        cases hr
        rw [h.retag_noTrace_iff hs hretag hlength hrefs]
        constructor
        · intro hnone
          exact {
            promote := fun j block hj hcannot => absurd (hcan j block hj) hcannot
            retag := fun _ _ => hnone
            insert := fun _ hnone => absurd hnone hhold }
        · intro hfirst
          exact hfirst.retag hcan hhold
      · cases hr
  · rw [hloop] at hr
    cases hr
    have hnot : ¬ ∀ j block, waiter.stagedPrefix.staged[j]? = some block →
        s.CanPromote fetchedBlocks j block := fun hcan => hcannot (hcan n block hblock)
    rw [StoppedAfter.noTrace_iff hbalanced hstopped]
    constructor
    · rintro rfl
      exact {
        promote := fun _ _ _ _ => ⟨block, hblock, hcannot⟩
        retag := fun hcan => absurd hcan hnot
        insert := fun hcan => absurd hcan hnot }
    · intro hfirst
      by_contra hn
      obtain ⟨first, hget, hstuck⟩ := hfirst.promote n block hblock hcannot
      exact hstuck (hbefore 0 first hget (Nat.zero_le 0) (Nat.pos_of_ne_zero hn))

end Promote

/-- The state behind the eviction up front, if a promotion comes to it. -/
def promotionStart (s : PromotionState)
    (evictPrefixCacheForAllocation : PromotionState → Nat → Option PromotionState)
    (waiter : FetchWaiter) : Option PromotionState :=
  match s.validateStagedSealedPrefix waiter.requestId waiter.promptTokens waiter.stagedPrefix with
  | .error _ => some s
  | .ok () => s.makeRoom evictPrefixCacheForAllocation waiter

/-- A failed promotion leaves no trace if and only if its plan has an invalid shape or the failure
comes before anything that it would leave behind; a restoration records all pages that it takes if
and only if no copy fails. -/
theorem failures_leave_no_trace_iff (s : PromotionState) :
    (∀ (evict : PromotionState → Nat → Option PromotionState) (waiter : FetchWaiter)
      (fetchedBlocks : List FetchedBlock) (err : PromoteError) (s₁ s' : PromotionState),
      s.promotionStart evict waiter = some s₁ →
      s₁.prefixCache.blockSize = s.prefixCache.blockSize → s₁.Consistent →
      s.promoteFetchedPrefix evict waiter fetchedBlocks = some (.error err, s') →
      (s₁.NoTrace s' ↔
        s.validateStagedSealedPrefix waiter.requestId waiter.promptTokens
            waiter.stagedPrefix ≠ .ok () ∨
          s₁.FailsFirst fetchedBlocks waiter)) ∧
    (∀ (payloads : List (BlockFingerprint × List UInt8)) (prepared : Assoc BlockFingerprint BlockId)
      (s' : PromotionState), s.Consistent → s.installRestoredKv payloads = some (prepared, s') →
      ((∀ p ∈ s.pagedKvPool.freePages, p ∉ s'.pagedKvPool.freePages → s'.Recorded p) ↔
        s.CopiesAll payloads)) := by
  constructor
  · intro evict waiter fetchedBlocks err s₁ s' hstart hsize hs hr
    have hblocks : waiter.stagedPrefix.blocks ≠ [] := by
      intro hnil
      rw [promoteFetchedPrefix, hnil] at hr
      cases hr
    rw [promoteFetchedPrefix, if_neg (by rw [List.isEmpty_iff]; exact hblocks)] at hr
    unfold promotionStart at hstart
    cases hvalid : s.validateStagedSealedPrefix waiter.requestId waiter.promptTokens
        waiter.stagedPrefix with
    | error e =>
      rw [hvalid] at hr hstart
      cases hr
      cases hstart
      exact iff_of_true ⟨rfl, rfl, SameIndex.refl _, fun _ => rfl⟩ (.inl (fun h => by cases h))
    | ok =>
      have hwhole := validate_length hvalid hblocks
      rw [← hsize] at hwhole
      rw [hvalid] at hr hstart
      dsimp only at hr hstart
      rw [hstart] at hr
      have hplan : s₁.promotePlan waiter fetchedBlocks = some (.error err, s') := hr
      rw [promotePlan_noTrace_iff hs hwhole hplan]
      exact ⟨.inr, fun hor => hor.resolve_left fun hne => hne rfl⟩
  · intro payloads prepared s' hs hr
    exact installRestoredKv_recorded_iff hs hr

/-- A new scheduler with pages of eight bytes, each a block, and two regions of host memory. -/
def twoRegions (pages : Nat) : PromotionState where
  prefixCache :=
    { nodes := [Node.new [] none 0]
      freeNodes := []
      blockSize := 1
      clock := 0
      softPinKeepaliveTicks := none
      blockIndex := ∅
      namespaceTag := 0 }
  sessionSlots := ∅
  sessionBlockRefs := ∅
  prefixCacheKeepaliveTicks := 0
  hostPinnedPool := {
    inner := {
      capacityBytes := 16
      arena := { capacityBytes := 16, nextOffset := 16, reservedBytes := 16, freeList := [] }
      liveRegions := [⟨8, 8⟩, ⟨0, 8⟩] }
    poisoned := false }
  pagedKvPool := TokenKVPool.new pages 1 1 Nat.one_pos
  diskStore := []
  blockToPages := ∅
  blockOwnerSlots := ∅
  waiting := 0
  runningBatch := 0
  hostLeafHeadroomExhausted := false
  demoteHighWater := id
  storageBytesPerToken := 8
  t1HostPinnedMinPromptTokens := 0
  memcpyHtod := fun _ => .ok ()

/-- A request that waits for two blocks of a host tier. -/
def twoStaged : FetchWaiter where
  slotIdx := 0
  requestId := 1
  promptTokens := [1, 2]
  sessionId := none
  stagedPrefix :=
    { matchedLen := 2
      blocks := [⟨⟨100⟩, ⟨1⟩, some (.hostPinned ⟨0, 8⟩)⟩,
        ⟨⟨101⟩, ⟨2⟩, some (.hostPinned ⟨8, 8⟩)⟩] }
  sessionSlotHold := none
  promptTokens_fit := by decide

def bothFetched : List FetchedBlock :=
  [⟨⟨100⟩, ⟨0, 8⟩, 8, false⟩, ⟨⟨101⟩, ⟨8, 8⟩, 8, false⟩]

theorem consistent_twoRegions {pages : Nat} (h : pages ≤ 2 ^ 32) :
    (twoRegions pages).Consistent := by
  have hcache : RadixCache.new 1 = some (twoRegions pages).prefixCache := rfl
  exact {
    pool := ⟨_, _, (owned_new pages 1 1 Nat.one_pos).balanced⟩
    pages := h
    tree := new_sound hcache
    free_nodup := List.nodup_nil
    index := (indexed_new hcache).index
    unnamed := fun p _ => AList.lookup_empty _
    unrecorded := by
      intro block pages hlookup
      rw [show (twoRegions _).blockToPages = ∅ from rfl, AList.lookup_empty] at hlookup
      cases hlookup }

/-- With nothing fetched the first block stops the promotion, and a payload of the right length is
recorded. -/
theorem failures_leave_no_trace_first :
    (∃ err s', (twoRegions 1).promoteFetchedPrefix (fun s _ => some s) twoStaged [] =
      some (.error err, s') ∧ (twoRegions 1).NoTrace s') ∧
    ∃ prepared s', (twoRegions 1).installRestoredKv [(⟨1⟩, List.replicate 8 0)] =
      some (prepared, s') ∧ 0 ∉ s'.pagedKvPool.freePages ∧ s'.Recorded 0 := by
  have hs : (twoRegions 1).Consistent := consistent_twoRegions (by decide)
  have hcannot : ¬ (twoRegions 1).CanPromote [] 0 ⟨⟨100⟩, ⟨1⟩, some (.hostPinned ⟨0, 8⟩)⟩ := by
    rintro ⟨fetched, hfetched, -⟩
    cases hfetched
  constructor
  · refine ⟨_, _, rfl, ?_⟩
    refine ((failures_leave_no_trace_iff (twoRegions 1)).1 (fun s _ => some s) twoStaged [] _
      (twoRegions 1) _ rfl rfl hs rfl).mpr (.inr ?_)
    exact {
      promote := fun _ _ _ _ => ⟨_, rfl, hcannot⟩
      retag := fun hall => absurd (hall 0 _ rfl) hcannot
      insert := fun hall => absurd (hall 0 _ rfl) hcannot }
  · refine ⟨_, _, rfl, by decide, ?_⟩
    refine ((failures_leave_no_trace_iff (twoRegions 1)).2 [(⟨1⟩, List.replicate 8 0)] _ _ hs
      rfl).mpr ?_ 0 (by decide) (by decide)
    intro k entry hk hroom
    cases k with
    | zero =>
      cases hk
      rfl
    | succ k => cases hk

/-- With one page, the second of two fetched blocks finds none: the page of the first one stays
retained. A payload that is too short leaves its page retained, and recorded nowhere. -/
theorem failed_promotion_keeps_pages :
    (twoRegions 1).Consistent ∧
    (∃ err s', (twoRegions 1).promotionStart (fun s _ => some s) twoStaged = some (twoRegions 1) ∧
      (twoRegions 1).promoteFetchedPrefix (fun s _ => some s) twoStaged bothFetched =
        some (.error err, s') ∧
      (twoRegions 1).pagedKvPool.freePages = [0] ∧ s'.pagedKvPool.freePages = [] ∧
      ¬ (twoRegions 1).NoTrace s') ∧
    ∃ prepared s', (twoRegions 1).installRestoredKv [(⟨1⟩, [])] = some (prepared, s') ∧
      s'.pagedKvPool.freePages = [] ∧ ¬ s'.Recorded 0 := by
  refine ⟨consistent_twoRegions (by decide), ⟨_, _, rfl, rfl, rfl, rfl, fun htrace => ?_⟩,
    _, _, rfl, rfl, ?_⟩
  · exact absurd htrace.freePages (by decide)
  · rintro ⟨block, pages, hlookup, -⟩
    cases hlookup

end Arle.Scheduler.Cuda.PromotionState
