import Arle.CudaKernels.PagedKvDetached
import Arle.PrefixCache.ShortInsert
import Arle.Scheduler.Cuda.Promotion

/-!
# What a failed promotion leaves behind

A promotion that fails releases the pages of the block at which it fails, and, once all blocks are
copied, the pages of all of them. The pages of the blocks before the failing one stay retained,
and so do the retags before a failing one. A failure leaves no trace if and only if nothing came
before it.
-/

namespace Arle.Scheduler.Cuda

open KvTier PrefixCache CudaKernels TokenKVPool RadixCache
open KvTier.Coordinator (FetchedBlock)

/-- The staged blocks of a plan, in its order. -/
def ReadmissionPlan.staged (plan : ReadmissionPlan) : List ReadmissionBlock :=
  plan.blocks.filter fun block => block.source.isSome

namespace PromotionState

/-- What holds of a scheduler between two calls: the free stack of the pool agrees with its
counters, the tree of the radix cache is sound and its index names the nodes with a block. No page
that is free names a block (`allocate_tier_block_id` gives a demoted block an id above all pages),
and none is recorded for one. -/
structure Consistent (s : PromotionState) : Prop where
  pool : ∃ att refs, s.pagedKvPool.Balanced att refs
  pages : s.pagedKvPool.maxTotalPages ≤ 2 ^ 32
  tree : s.prefixCache.Sound
  free_nodup : s.prefixCache.freeNodes.Nodup
  index : Indexes s.prefixCache.blockIndex s.prefixCache.block
  unnamed : ∀ p ∈ s.pagedKvPool.freePages, s.prefixCache.blockIndex.lookup (blockOfPage p) = none
  unrecorded : ∀ block pages, s.blockToPages.lookup block = some pages →
    ∀ p ∈ pages, p ∉ s.pagedKvPool.freePages

/-- The number of free pages, the counts of all pages, the radix index and the blocks of the
session slots are the same. -/
structure NoTrace (s s' : PromotionState) : Prop where
  freePages : s'.pagedKvPool.freePages.length = s.pagedKvPool.freePages.length
  refs : s'.pagedKvPool.pageRefCount = s.pagedKvPool.pageRefCount
  index : s.prefixCache.SameIndex s'.prefixCache
  slots : ∀ id, (s'.sessionSlots.lookup id).map SessionSlot.blocks =
    (s.sessionSlots.lookup id).map SessionSlot.blocks

variable (s : PromotionState) (fetchedBlocks : List FetchedBlock)

/-- The pages that the `j`-th staged block gets: the topmost free ones that the blocks before it
leave. -/
def stagedPages (j : Nat) : List Nat :=
  (s.pagedKvPool.freePages.reverse.drop (j * s.pagesPerBlock)).take s.pagesPerBlock

/-- The `j`-th staged block can be promoted: it has been fetched, there are pages for it, its
region can be read and the device accepts the copy. -/
def CanPromote (j : Nat) (block : ReadmissionBlock) : Prop :=
  ∃ fetched, fetchedById fetchedBlocks block.blockId = some fetched ∧
    (j + 1) * s.pagesPerBlock ≤ s.pagedKvPool.freePages.length ∧
    s.copyRegion (s.stagedPages j) fetched.hostRegion = .ok ()

/-- The blocks that the cache still holds on the path of the tokens are the first of the plan, and
are on the device. -/
def HoldsPlan (tokens : List Token) (plan : ReadmissionPlan) : Prop :=
  ∀ js, s.prefixCache.trie.Walk root tokens js →
    ∀ k v : Nat, (s.prefixCache.blockNodes js)[k]? = some v →
      ∃ block, plan.blocks[k]? = some block ∧ block.source = none ∧
        s.prefixCache.block v = some block.blockId ∧
        s.prefixCache.fprint v = some block.fingerprint

/-- A failure comes before anything that it would leave behind: if a staged block cannot be
promoted, the first one cannot; a retag that fails is the first one; an insertion that falls short
meets no block that it changes. -/
structure FailsFirst (waiter : FetchWaiter) : Prop where
  promote : ∀ j block, waiter.stagedPrefix.staged[j]? = some block →
    ¬ s.CanPromote fetchedBlocks j block → ∃ first, waiter.stagedPrefix.staged[0]? = some first ∧
      ¬ s.CanPromote fetchedBlocks 0 first
  retag : (∀ j block, waiter.stagedPrefix.staged[j]? = some block →
      s.CanPromote fetchedBlocks j block) → waiter.sessionSlotHold ≠ none →
    ∀ first, waiter.stagedPrefix.staged[0]? = some first →
      s.prefixCache.blockIndex.lookup first.blockId = none
  insert : (∀ j block, waiter.stagedPrefix.staged[j]? = some block →
      s.CanPromote fetchedBlocks j block) → waiter.sessionSlotHold = none →
    s.HoldsPlan (waiter.promptTokens.take waiter.stagedPrefix.matchedLen) waiter.stagedPrefix

/-! ## The loop over the blocks -/

/-- Where the loop stands after the blocks `done`: which pages it has taken, and what it has
collected. -/
structure Promoting (att refs : Nat → Nat) (done : List ReadmissionBlock) (acc : Promotion)
    (pool : TokenKVPool) : Prop where
  room : acc.promotedPages.length * s.pagesPerBlock ≤ s.pagedKvPool.freePages.length
  taken : acc.promotedPages.flatMap PromotedBlock.pages =
    s.pagedKvPool.freePages.reverse.take (acc.promotedPages.length * s.pagesPerBlock)
  left : pool.freePages.reverse =
    s.pagedKvPool.freePages.reverse.drop (acc.promotedPages.length * s.pagesPerBlock)
  balanced : pool.Balanced att (plus refs (acc.promotedPages.flatMap PromotedBlock.pages))
  layout : pool.layout = s.pagedKvPool.layout
  old : acc.promotedPages.map PromotedBlock.oldBlockId =
    (done.filter fun block => block.source.isSome).map ReadmissionBlock.blockId
  new : ∀ promoted ∈ acc.promotedPages,
    ∃ page ∈ s.pagedKvPool.freePages, promoted.newBlockId = blockOfPage page
  final : List.Forall₂ (fun block id => (block.source = none ∧ id = block.blockId) ∨
    (block.source ≠ none ∧ ∃ page ∈ s.pagedKvPool.freePages, id = blockOfPage page)) done
    acc.finalBlockIds
  fingerprints : acc.fingerprints = done.map ReadmissionBlock.fingerprint

/-- The pool after a failure at the block behind `n` promoted ones. -/
structure StoppedAfter (att refs : Nat → Nat) (n : Nat) (pool : TokenKVPool) : Prop where
  room : n * s.pagesPerBlock ≤ s.pagedKvPool.freePages.length
  balanced : pool.Balanced att
    (plus refs (s.pagedKvPool.freePages.reverse.take (n * s.pagesPerBlock)))
  layout : pool.layout = s.pagedKvPool.layout

section Loop

variable {s fetchedBlocks} {att refs : Nat → Nat} {done : List ReadmissionBlock}
  {acc : Promotion} {pool : TokenKVPool}

theorem pagesPerBlock_pos (s : PromotionState) : 0 < s.pagesPerBlock :=
  Nat.lt_of_lt_of_le Nat.zero_lt_one (Nat.le_max_right _ _)

theorem Promoting.length (h : s.Promoting att refs done acc pool) :
    (done.filter fun block => block.source.isSome).length = acc.promotedPages.length := by
  have hlength := congrArg List.length h.old
  simpa using hlength.symm

theorem Promoting.stopped (h : s.Promoting att refs done acc pool) :
    s.StoppedAfter att refs acc.promotedPages.length pool :=
  ⟨h.room, h.taken ▸ h.balanced, h.layout⟩

theorem Promoting.length_free (h : s.Promoting att refs done acc pool) :
    pool.freePages.length =
      s.pagedKvPool.freePages.length - acc.promotedPages.length * s.pagesPerBlock := by
  have hlength := congrArg List.length h.left
  simpa using hlength

/-- The pages that the next staged block gets, and the first of them. -/
theorem Promoting.next_pages (h : s.Promoting att refs done acc pool)
    (hroom : s.pagesPerBlock ≤ pool.freePages.length) :
    pool.freePages.reverse.take s.pagesPerBlock = s.stagedPages acc.promotedPages.length ∧
      (∀ p ∈ s.stagedPages acc.promotedPages.length, p ∈ s.pagedKvPool.freePages) ∧
      ∃ page ∈ s.pagedKvPool.freePages,
        (s.stagedPages acc.promotedPages.length).head? = some page := by
  have hpages : pool.freePages.reverse.take s.pagesPerBlock =
      s.stagedPages acc.promotedPages.length := by
    rw [h.left]
    rfl
  have hfree : ∀ p ∈ s.stagedPages acc.promotedPages.length, p ∈ s.pagedKvPool.freePages :=
    fun p hp => List.mem_reverse.mp (List.mem_of_mem_drop (List.mem_of_mem_take hp))
  refine ⟨hpages, hfree, ?_⟩
  cases hhead : (s.stagedPages acc.promotedPages.length).head? with
  | none =>
    rw [List.head?_eq_none_iff, ← hpages] at hhead
    have hlength := congrArg List.length hhead
    rw [List.length_take, List.length_reverse, List.length_nil] at hlength
    have hpos := s.pagesPerBlock_pos
    omega
  | some page => exact ⟨page, hfree page (List.mem_of_mem_head? hhead), rfl⟩

/-- A staged block that has been copied to its pages. -/
theorem Promoting.push (h : s.Promoting att refs done acc pool) {block : ReadmissionBlock}
    {source : ReadmissionSource} (hsource : block.source = some source) {pool' : TokenKVPool}
    (hroom : s.pagesPerBlock ≤ pool.freePages.length)
    (hleft : pool'.freePages.reverse = pool.freePages.reverse.drop s.pagesPerBlock)
    (hbalanced : pool'.Balanced att (plus (plus refs
      (acc.promotedPages.flatMap PromotedBlock.pages)) (s.stagedPages acc.promotedPages.length)))
    (hlayout : pool'.layout = pool.layout) {page : Nat} (hpage : page ∈ s.pagedKvPool.freePages)
    (consumed : List HostPinnedRegion) :
    s.Promoting att refs (done ++ [block]) {
      promotedPages := acc.promotedPages ++
        [⟨block.blockId, blockOfPage page, s.stagedPages acc.promotedPages.length⟩]
      finalBlockIds := acc.finalBlockIds ++ [blockOfPage page]
      fingerprints := acc.fingerprints ++ [block.fingerprint]
      consumedHostRegions := consumed } pool' := by
  have hlength := h.length_free
  have hfits := h.room
  refine
    { room := ?_, taken := ?_, left := ?_, balanced := ?_, layout := hlayout.trans h.layout,
      old := ?_, new := ?_, final := ?_, fingerprints := ?_ }
  · rw [List.length_append, List.length_singleton, Nat.succ_mul]
    omega
  · rw [List.flatMap_append, h.taken, List.length_append, List.length_singleton, Nat.succ_mul,
      List.take_add]
    simp [stagedPages]
  · rw [hleft, h.left, List.drop_drop, List.length_append, List.length_singleton, Nat.succ_mul]
  · rw [List.flatMap_append, plus_append]
    simpa using hbalanced
  · rw [List.filter_append, List.map_append, List.map_append, h.old]
    simp [hsource]
  · intro promoted hmem
    rcases List.mem_append.mp hmem with hbefore | hlast
    · exact h.new promoted hbefore
    · rw [List.mem_singleton.mp hlast]
      exact ⟨page, hpage, rfl⟩
  · refine List.rel_append h.final (.cons (.inr ⟨?_, page, hpage, rfl⟩) .nil)
    rw [hsource]
    exact fun h => by cases h
  · rw [List.map_append, h.fingerprints]
    rfl

/-- A round promotes its block, or leaves it as it is on the device, or stops. -/
theorem promoteBlock_spec (fetchedBlocks : List FetchedBlock)
    (h : s.Promoting att refs done acc pool)
    (hpages : ∀ p ∈ s.pagedKvPool.freePages, p < s.pagedKvPool.maxTotalPages)
    (block : ReadmissionBlock) :
    (∃ acc' pool', s.promoteBlock fetchedBlocks block acc pool = some (.ok acc', pool') ∧
      s.Promoting att refs (done ++ [block]) acc' pool' ∧
      (block.source ≠ none → s.CanPromote fetchedBlocks acc.promotedPages.length block)) ∨
    (∃ err pool', s.promoteBlock fetchedBlocks block acc pool = some (.error err, pool') ∧
      s.StoppedAfter att refs acc.promotedPages.length pool' ∧ block.source ≠ none ∧
      ¬ s.CanPromote fetchedBlocks acc.promotedPages.length block) := by
  unfold promoteBlock
  dsimp only
  cases hsource : block.source with
  | none =>
    refine .inl ⟨_, pool, rfl, ?_, fun hne => absurd rfl hne⟩
    exact {
      room := h.room
      taken := h.taken
      left := h.left
      balanced := h.balanced
      layout := h.layout
      old := by
        rw [List.filter_append]
        simpa [hsource] using h.old
      new := h.new
      final := List.rel_append h.final (.cons (.inl ⟨hsource, rfl⟩) .nil)
      fingerprints := by
        rw [List.map_append, h.fingerprints]
        rfl }
  | some source =>
    have hstaged : some source ≠ none := Option.some_ne_none source
    dsimp only
    cases hfetched : fetchedById fetchedBlocks block.blockId with
    | none =>
      refine .inr ⟨_, pool, rfl, h.stopped, hstaged, ?_⟩
      rintro ⟨fetched, hfound, -⟩
      rw [hfetched] at hfound
      cases hfound
    | some fetched =>
      have hlength := h.length_free
      have hfits := h.room
      rcases allocDetachedPages_takes h.balanced s.pagesPerBlock_pos with
        ⟨hfull, err, halloc⟩ | ⟨hroom, pool', halloc, hleft, hbalanced, hlayout⟩
      · refine .inr ⟨.pool err, pool, by rw [halloc], h.stopped, hstaged, ?_⟩
        rintro ⟨_, -, hroom, -⟩
        rw [Nat.succ_mul] at hroom
        omega
      · obtain ⟨hnext, hfree, page, hpage, hhead⟩ := h.next_pages hroom
        rw [hnext] at halloc hbalanced
        rw [halloc]
        dsimp only
        cases hcopy : s.copyRegion (s.stagedPages acc.promotedPages.length) fetched.hostRegion with
        | error err =>
          have hmax := (layout_eq (hlayout.trans h.layout)).2.2.1
          obtain ⟨newlyFreed, released, hrelease, hback, hkept⟩ :=
            releasePages_retained hbalanced fun p hp => by
              rw [hmax]
              exact hpages p (hfree p hp)
          refine .inr ⟨err, released, by rw [hrelease]; rfl, ?_, hstaged, ?_⟩
          · exact ⟨h.room, h.taken ▸ hback, hkept.trans (hlayout.trans h.layout)⟩
          · rintro ⟨fetched', hfound, -, hcopied⟩
            rw [hfetched] at hfound
            cases hfound
            rw [hcopy] at hcopied
            cases hcopied
        | ok =>
          rw [hhead]
          refine .inl ⟨_, pool', rfl, h.push hsource hroom hleft hbalanced hlayout hpage _, ?_⟩
          intro _
          refine ⟨fetched, hfetched, ?_, hcopy⟩
          rw [Nat.succ_mul]
          omega

/-- The staged block that comes next. -/
theorem Promoting.next_staged (h : s.Promoting att refs done acc pool) {block : ReadmissionBlock}
    (hsource : block.source ≠ none) (blocks : List ReadmissionBlock) :
    ((done ++ block :: blocks).filter fun block => block.source.isSome)[
      acc.promotedPages.length]? = some block := by
  rw [List.filter_append, List.getElem?_append_right (Nat.le_of_eq h.length), h.length,
    Nat.sub_self, List.filter_cons, if_pos (Option.isSome_iff_ne_none.mpr hsource)]
  rfl

/-- The loop promotes every staged block, or it stops at the first one that it cannot promote. -/
theorem promoteBlocks_spec (fetchedBlocks : List FetchedBlock) (blocks : List ReadmissionBlock)
    (h : s.Promoting att refs done acc pool)
    (hpages : ∀ p ∈ s.pagedKvPool.freePages, p < s.pagedKvPool.maxTotalPages) :
    let staged := (done ++ blocks).filter fun block => block.source.isSome
    (∃ acc' pool', s.promoteBlocks fetchedBlocks blocks acc pool = some (.ok acc', pool') ∧
      s.Promoting att refs (done ++ blocks) acc' pool' ∧
      ∀ (j : Nat) block, staged[j]? = some block → acc.promotedPages.length ≤ j →
        s.CanPromote fetchedBlocks j block) ∨
    (∃ err n block pool', s.promoteBlocks fetchedBlocks blocks acc pool = some (.error err, pool') ∧
      s.StoppedAfter att refs n pool' ∧ staged[n]? = some block ∧
      ¬ s.CanPromote fetchedBlocks n block ∧
      ∀ (j : Nat) block, staged[j]? = some block → acc.promotedPages.length ≤ j → j < n →
        s.CanPromote fetchedBlocks j block) := by
  induction blocks generalizing done acc pool with
  | nil =>
    refine .inl ⟨acc, pool, rfl, (List.append_nil done).symm ▸ h, fun j block hj hle => ?_⟩
    have hlt := (List.getElem?_eq_some_iff.mp hj).1
    rw [List.append_nil, h.length] at hlt
    omega
  | cons block blocks ih =>
    intro staged
    rcases promoteBlock_spec fetchedBlocks h hpages block with
      ⟨acc', pool', hround, h', hcan⟩ | ⟨err, pool', hround, hstopped, hsource, hcannot⟩
    · -- the round counts its block if it is a staged one
      have hstep : ∀ (j : Nat) b, staged[j]? = some b → acc.promotedPages.length ≤ j →
          j < acc'.promotedPages.length → s.CanPromote fetchedBlocks j b := by
        intro j b hj hle hlt
        have hlength := h'.length
        rw [List.filter_append, List.length_append, h.length] at hlength
        cases hsource : block.source with
        | none =>
          simp [hsource] at hlength
          omega
        | some source =>
          have hne : block.source ≠ none := by
            rw [hsource]
            exact fun h => by cases h
          simp [hsource] at hlength
          obtain rfl : j = acc.promotedPages.length := by omega
          rw [h.next_staged hne blocks] at hj
          rw [← Option.some.inj hj]
          exact hcan hne
      have hassoc : done ++ [block] ++ blocks = done ++ block :: blocks := by simp
      have hrun : s.promoteBlocks fetchedBlocks (block :: blocks) acc pool =
          s.promoteBlocks fetchedBlocks blocks acc' pool' := by
        rw [promoteBlocks, hround]
      rw [hrun]
      have hrest := ih h'
      rw [hassoc] at hrest
      rcases hrest with ⟨acc'', pool'', hloop, h'', hall⟩ |
        ⟨err, n, b, pool'', hloop, hstopped, hb, hcannot, hbefore⟩
      · refine .inl ⟨acc'', pool'', hloop, h'', fun j b hj hle => ?_⟩
        rcases Nat.lt_or_ge j acc'.promotedPages.length with hlt | hge
        · exact hstep j b hj hle hlt
        · exact hall j b hj hge
      · refine .inr ⟨err, n, b, pool'', hloop, hstopped, hb, hcannot, fun j b' hj hle hlt => ?_⟩
        rcases Nat.lt_or_ge j acc'.promotedPages.length with hlt' | hge
        · exact hstep j b' hj hle hlt'
        · exact hbefore j b' hj hge hlt
    · have hrun : s.promoteBlocks fetchedBlocks (block :: blocks) acc pool =
          some (.error err, pool') := by
        rw [promoteBlocks, hround]
      refine .inr ⟨err, _, block, pool', hrun, hstopped, h.next_staged hsource blocks, hcannot, ?_⟩
      intro j b hj hle hlt
      omega

end Loop

end PromotionState

end Arle.Scheduler.Cuda
