import Arle.PrefixCache.Insert
import Arle.PrefixCache.PolicyEvict
import Arle.Scheduler.Cuda.TierEvict

/-!
# What tier evictions leak

The evictions take a block out of the index before `drop_cached_blocks` looks up its metadata,
so neither a host region nor a disk file is ever released for an evicted block. On the device
nothing is lost by this. In host memory the region of every evicted block leaks, so an eviction
for headroom leaks nothing if and only if it finds no block to evict.
-/

namespace Arle.Scheduler.Cuda

open KvTier PrefixCache RadixCache

/-- The region of the host pool that a node of the radix cache names. -/
def nodeRegion (c : RadixCache) (v : Nat) : Option HostPinnedRegion :=
  match c.place v with
  | some (some (.hostPinned offset), byteLen) => some ⟨offset, byteLen⟩
  | _ => none

/-- The block file that a node of the radix cache names. -/
def nodeFile (c : RadixCache) (v : Nat) : Option BlockFingerprint :=
  match c.place v with
  | some (some (.disk fingerprint _), _) => some fingerprint
  | _ => none

/-- The nodes that lost their block. -/
def evictedNodes (c c' : RadixCache) : List Nat :=
  (List.range c.nodes.length).filter fun v => (c.block v).isSome && (c'.block v).isNone

namespace TierState

/-- What backed the evicted blocks is released. -/
structure LeaksNothing (s s' : TierState) : Prop where
  regions : ∀ v ∈ evictedNodes s.prefixCache s'.prefixCache, ∀ region,
    nodeRegion s.prefixCache v = some region →
      region ∉ s'.hostPinnedPool.inner.liveRegions
  bytes : s'.hostPinnedPool.inner.reservedBytes +
    (((evictedNodes s.prefixCache s'.prefixCache).filterMap (nodeRegion s.prefixCache)).map
      Extent.len).sum = s.hostPinnedPool.inner.reservedBytes
  files : ∀ v ∈ evictedNodes s.prefixCache s'.prefixCache, ∀ fingerprint,
    nodeFile s.prefixCache v = some fingerprint → fingerprint ∉ s'.diskStore

/-- Every cached block in host memory owns a live region of the pool. -/
def Backed (s : TierState) : Prop :=
  ∀ v region, s.prefixCache.block v ≠ none → nodeRegion s.prefixCache v = some region →
    region ∈ s.hostPinnedPool.inner.liveRegions

/-- No pass of the eviction for headroom finds a block: none is evictable that the session slots
do not name, also after the slots that the passes release. -/
def FindsNothing (policy : EvictionPolicy) (mode : PressureMode) : Nat → TierState → Prop
  | 0, _ => True
  | passes + 1, s =>
    let (releasedSlotBlocks, s) := s.releaseOneSessionSlot mode .hostPinned
    (∀ v, ¬ s.prefixCache.FirstVictim (s.evictRequest policy .hostPinned .drain) v) ∧
      (releasedSlotBlocks > 0 → FindsNothing policy mode passes
        { s with prefixCache := s.prefixCache.gcOrphanTombstones })

/-! ## What no eviction touches -/

/-- The host pool and the disk store are kept, and nodes only lose their blocks. -/
structure Kept (s s' : TierState) : Prop where
  pool : s'.hostPinnedPool = s.hostPinnedPool
  disk : s'.diskStore = s.diskStore
  highWater : s'.demoteHighWater = s.demoteHighWater
  block : ∀ v, s'.prefixCache.block v = none ∨ s'.prefixCache.block v = s.prefixCache.block v
  place : s'.prefixCache.place = s.prefixCache.place

variable {s s' s'' : TierState} {policy : EvictionPolicy} {mode : PressureMode}

theorem Kept.refl (s : TierState) : Kept s s := ⟨rfl, rfl, rfl, fun _ => Or.inr rfl, rfl⟩

theorem Kept.trans (h : Kept s s') (h' : Kept s' s'') : Kept s s'' where
  pool := h'.pool.trans h.pool
  disk := h'.disk.trans h.disk
  highWater := h'.highWater.trans h.highWater
  block v := by
    rcases h'.block v with hnone | hsame
    · exact Or.inl hnone
    · rw [hsame]
      exact h.block v
  place := h'.place.trans h.place

theorem Kept.headroom (h : Kept s s') :
    s'.hostPoolDemoteHeadroomBytes = s.hostPoolDemoteHeadroomBytes := by
  simp only [hostPoolDemoteHeadroomBytes, h.pool, h.highWater]

theorem blockMetadata_of_unindexed {block : BlockId}
    (h : s.prefixCache.blockIndex.lookup block = none) : s.blockMetadata block = none := by
  rw [SessionState.blockMetadata, RadixCache.blockMetadata, h]
  rfl

/-- A block that is not in the index is dropped without its region and its file. -/
theorem dropCachedBlock_unindexed {block : BlockId} {reclaimed : Nat}
    (h : s.prefixCache.blockIndex.lookup block = none)
    (hcall : s.dropCachedBlock block = some (reclaimed, s')) :
    Kept s s' ∧ s'.prefixCache = s.prefixCache := by
  unfold dropCachedBlock at hcall
  split at hcall
  · cases hcall
    exact ⟨Kept.refl s, rfl⟩
  · rw [blockMetadata_of_unindexed h] at hcall
    obtain ⟨⟨n, s₁⟩, hpages, hcall⟩ := Option.bind_eq_some_iff.mp hcall
    cases hcall
    unfold releaseBlockPages at hpages
    split at hpages
    · cases hpages
      exact ⟨⟨rfl, rfl, rfl, fun _ => Or.inr rfl, rfl⟩, rfl⟩
    · obtain ⟨⟨freed, pool⟩, -, hpages⟩ := Option.bind_eq_some_iff.mp hpages
      cases hpages
      exact ⟨⟨rfl, rfl, rfl, fun _ => Or.inr rfl, rfl⟩, rfl⟩

theorem dropCachedBlocks_unindexed {blocks : List BlockId} {reclaimed : Nat}
    (h : ∀ block ∈ blocks, s.prefixCache.blockIndex.lookup block = none)
    (hcall : s.dropCachedBlocks blocks = some (reclaimed, s')) :
    Kept s s' ∧ s'.prefixCache = s.prefixCache := by
  induction blocks generalizing s reclaimed with
  | nil =>
    cases hcall
    exact ⟨Kept.refl _, rfl⟩
  | cons block blocks ih =>
    obtain ⟨⟨n, s₁⟩, hfirst, hcall⟩ := Option.bind_eq_some_iff.mp hcall
    obtain ⟨⟨m, s₂⟩, hrest, hcall⟩ := Option.bind_eq_some_iff.mp hcall
    cases hcall
    obtain ⟨hkept, hcache⟩ := dropCachedBlock_unindexed (h block List.mem_cons_self) hfirst
    obtain ⟨hkept', hcache'⟩ := ih
      (fun b hb => by rw [hcache]; exact h b (List.mem_cons_of_mem _ hb)) hrest
    exact ⟨hkept.trans hkept', hcache'.trans hcache⟩

theorem releaseOneSessionSlot_cache (s : TierState) (mode : PressureMode) (tier : Tier) :
    (s.releaseOneSessionSlot mode tier).2.prefixCache = s.prefixCache :=
  SessionState.releaseSessionSlots_prefixCache _ _

theorem releaseOneSessionSlot_kept (s : TierState) (mode : PressureMode) (tier : Tier) :
    Kept s (s.releaseOneSessionSlot mode tier).2 where
  pool := rfl
  disk := rfl
  highWater := rfl
  block _ := by rw [releaseOneSessionSlot_cache]; exact Or.inr rfl
  place := by rw [releaseOneSessionSlot_cache]

theorem evictFromCache_kept (s : TierState) (policy : EvictionPolicy) (tier : Tier)
    (intent : BlockSelectionIntent) (n : Nat) :
    Kept s (s.evictFromCache policy tier intent n).2 := by
  obtain ⟨evicted, -, -, hblock, hplace, -⟩ :=
    evictWithPolicy_spec s.prefixCache (s.evictRequest policy tier intent) n
  refine ⟨rfl, rfl, rfl, fun v => ?_, hplace⟩
  change (s.prefixCache.evictWithPolicyForIntentExcluding _ n).2.block v = none ∨
    (s.prefixCache.evictWithPolicyForIntentExcluding _ n).2.block v = _
  rw [hblock]
  split
  · exact Or.inl rfl
  · exact Or.inr rfl

theorem evictFromCache_unindexed (s : TierState) (policy : EvictionPolicy) (tier : Tier)
    (intent : BlockSelectionIntent) (n : Nat) :
    ∀ block ∈ (s.evictFromCache policy tier intent n).1,
      (s.evictFromCache policy tier intent n).2.prefixCache.blockIndex.lookup block = none := by
  obtain ⟨-, -, -, -, -, hindex⟩ :=
    evictWithPolicy_spec s.prefixCache (s.evictRequest policy tier intent) n
  exact hindex

/-! ## The eviction for headroom -/

/-- A block in host memory whose block is gone. -/
def Lost (s s' : TierState) : Prop :=
  ∃ v region, s.prefixCache.block v ≠ none ∧ s'.prefixCache.block v = none ∧
    nodeRegion s.prefixCache v = some region

theorem nodeRegion_of_place {c c' : RadixCache} (h : c'.place = c.place) :
    nodeRegion c' = nodeRegion c := by
  funext v
  simp only [nodeRegion, h]

theorem Kept.lost_left (h : Kept s s') (hlost : Lost s' s'') : Lost s s'' := by
  obtain ⟨v, region, hblock, hnone, hregion⟩ := hlost
  refine ⟨v, region, fun hv => ?_, hnone, nodeRegion_of_place h.place ▸ hregion⟩
  rcases h.block v with hv' | hv'
  · exact hblock hv'
  · exact hblock (hv'.trans hv)

theorem Kept.lost_right (h : Kept s' s'') (hlost : Lost s s') : Lost s s'' := by
  obtain ⟨v, region, hblock, hnone, hregion⟩ := hlost
  refine ⟨v, region, hblock, ?_, hregion⟩
  rcases h.block v with hv | hv
  · exact hv
  · exact hv.trans hnone

/-- A victim of an eviction from host memory names a region. -/
theorem region_of_evictable {c : RadixCache} {req : EvictRequest} {v : Nat}
    (h : c.Evictable req v) (htier : req.tierFilter = some .hostPinned) :
    ∃ region, nodeRegion c v = some region := by
  obtain ⟨-, node, hnode, hmay, -⟩ := h
  have haccepted := mayEvict_accepted hmay
  rw [htier, tierAccepts, decide_eq_true_eq] at haccepted
  obtain ⟨location, hlocation, htier⟩ := Option.map_eq_some_iff.mp haccepted
  cases location with
  | hostPinned offset =>
    refine ⟨⟨offset, node.byteLen⟩, ?_⟩
    rw [nodeRegion, place, hnode, Option.map_some, hlocation]
  | gpu | disk | remote => cases htier

/-- One pass that finds a block takes it, and its region is lost. -/
theorem evictFromCache_lost {v : Nat}
    (h : s.prefixCache.FirstVictim (s.evictRequest policy .hostPinned .drain) v) :
    ∃ b, (s.evictFromCache policy .hostPinned .drain 1).1 = [b] ∧
      Lost s (s.evictFromCache policy .hostPinned .drain 1).2 := by
  obtain ⟨i, b, hfirst, hblock, hfreed, hnone⟩ := evictOne_of_some h
  obtain ⟨region, hregion⟩ := region_of_evictable hfirst.1 rfl
  exact ⟨b, hfreed, i, region, by rw [hblock]; simp, hnone, hregion⟩

/-- The passes keep the host pool; they lose a region exactly if one of them finds a block. -/
theorem hostEvictionLoop_spec {requiredBytes passes releasedBytes n : Nat}
    (hroom : s.hostPoolDemoteHeadroomBytes < requiredBytes)
    (hcall : hostEvictionLoop policy requiredBytes mode passes s releasedBytes = some (n, s')) :
    Kept s s' ∧ (FindsNothing policy mode passes s →
        s'.prefixCache.block = s.prefixCache.block) ∧
      (¬ FindsNothing policy mode passes s → Lost s s') := by
  induction passes generalizing s releasedBytes with
  | zero =>
    cases hcall
    exact ⟨Kept.refl _, fun _ => rfl, fun hfinds => absurd trivial hfinds⟩
  | succ passes ih =>
    rw [hostEvictionLoop, if_neg (Nat.not_le.mpr hroom)] at hcall
    have hslot := s.releaseOneSessionSlot_kept mode .hostPinned
    have hcache := s.releaseOneSessionSlot_cache mode .hostPinned
    rw [FindsNothing]
    generalize s.releaseOneSessionSlot mode .hostPinned = released at *
    obtain ⟨releasedSlotBlocks, s₁⟩ := released
    dsimp only at hcall hslot hcache ⊢
    by_cases hfirst : ∀ v,
        ¬ s₁.prefixCache.FirstVictim (s₁.evictRequest policy .hostPinned .drain) v
    · -- the pass only collects tombstones
      have hevict : s₁.evictFromCache policy .hostPinned .drain 1 =
          ([], { s₁ with prefixCache := s₁.prefixCache.gcOrphanTombstones }) := by
        rw [evictFromCache, evictOne_of_none hfirst]
      have hkept := hslot.trans (hevict ▸ s₁.evictFromCache_kept policy .hostPinned .drain 1)
      have hblocks : s₁.prefixCache.gcOrphanTombstones.block = s.prefixCache.block := by
        rw [gc_block, hcache]
      rw [hevict] at hcall
      dsimp only at hcall
      rw [if_pos rfl] at hcall
      by_cases hreleased : releasedSlotBlocks > 0
      · rw [if_pos hreleased] at hcall
        obtain ⟨hkept', hnothing, hsome⟩ := ih (hkept.headroom ▸ hroom) hcall
        refine ⟨hkept.trans hkept', fun hfinds => ?_, fun hfinds => ?_⟩
        · exact (hnothing (hfinds.2 hreleased)).trans hblocks
        · exact hkept.lost_left (hsome fun hrest => hfinds ⟨hfirst, fun _ => hrest⟩)
      · rw [if_neg hreleased] at hcall
        cases hcall
        exact ⟨hkept, fun _ => hblocks, fun hfinds =>
          absurd ⟨hfirst, fun hpos => absurd hpos hreleased⟩ hfinds⟩
    · -- the pass takes a block
      simp only [not_forall, not_not] at hfirst
      obtain ⟨v, hv⟩ := hfirst
      obtain ⟨b, hb, hlost⟩ := evictFromCache_lost hv
      have hunindexed := s₁.evictFromCache_unindexed policy .hostPinned .drain 1
      have hkept := hslot.trans (s₁.evictFromCache_kept policy .hostPinned .drain 1)
      generalize s₁.evictFromCache policy .hostPinned .drain 1 = evicted at *
      obtain ⟨freed, s₂⟩ := evicted
      dsimp only at hcall hb hlost hunindexed hkept
      subst hb
      rw [if_neg (List.cons_ne_nil _ _)] at hcall
      obtain ⟨⟨m, s₃⟩, hdrop, hcall⟩ := Option.bind_eq_some_iff.mp hcall
      obtain ⟨hdropped, -⟩ := dropCachedBlocks_unindexed hunindexed hdrop
      have hkept₃ := hkept.trans hdropped
      obtain ⟨hkept', -, -⟩ := ih (hkept₃.headroom ▸ hroom) hcall
      have hlost' := hkept'.lost_right (hdropped.lost_right (hslot.lost_left hlost))
      exact ⟨hkept₃.trans hkept', fun hfinds => absurd hv (hfinds.1 v), fun _ => hlost'⟩

/-! ## Every eviction -/

/-- The evictions that drop cached blocks. -/
inductive TierEviction
  /-- The last resort of an `evict_prefix_cache_*` function. -/
  | prefixCache (blocksToDrop : Nat)
  /-- `evict_host_blocks_for_demote_headroom`. -/
  | demoteHeadroom (requiredBytes : Nat) (mode : PressureMode)

def evictTier (s : TierState) (policy : EvictionPolicy) : TierEviction → Option (Nat × TierState)
  | .prefixCache blocksToDrop => s.dropBlocksFromGpu policy blocksToDrop
  | .demoteHeadroom requiredBytes mode =>
    s.evictHostBlocksForDemoteHeadroom policy requiredBytes mode

/-- The eviction has no block in host memory to take. -/
def NothingToLeak (s : TierState) (policy : EvictionPolicy) : TierEviction → Prop
  | .prefixCache _ => True
  | .demoteHeadroom requiredBytes mode =>
    requiredBytes = 0 ∨ s.hostPoolDemoteHeadroomBytes ≥ requiredBytes ∨
      FindsNothing policy mode s.prefixCache.cachedBlockCount s

theorem mem_evictedNodes {c c' : RadixCache} {v : Nat} (h : v ∈ evictedNodes c c') :
    c.block v ≠ none ∧ c'.block v = none := by
  have hlost := (List.mem_filter.mp h).2
  rw [Bool.and_eq_true, Option.isSome_iff_ne_none, Option.isNone_iff_eq_none] at hlost
  exact hlost

theorem evictedNodes_mem {c c' : RadixCache} {v : Nat} (hblock : c.block v ≠ none)
    (hnone : c'.block v = none) : v ∈ evictedNodes c c' := by
  obtain ⟨b, hb⟩ := Option.ne_none_iff_exists'.mp hblock
  refine List.mem_filter.mpr ⟨List.mem_range.mpr (lt_length_of_block hblock), ?_⟩
  rw [hb, hnone]
  rfl

/-- The host pool is kept, and no evicted block was in host memory or on disk. -/
theorem Kept.leaksNothing (h : Kept s s')
    (helsewhere : ∀ v ∈ evictedNodes s.prefixCache s'.prefixCache,
      nodeRegion s.prefixCache v = none ∧ nodeFile s.prefixCache v = none) : LeaksNothing s s' where
  regions v hv region hregion := by
    rw [(helsewhere v hv).1] at hregion
    cases hregion
  bytes := by
    rw [List.filterMap_eq_nil_iff.mpr fun v hv => (helsewhere v hv).1, h.pool]
    rfl
  files v hv fingerprint hfile := by
    rw [(helsewhere v hv).2] at hfile
    cases hfile

/-- The host pool is kept, but a region is lost. -/
theorem Kept.leaks (h : Kept s s') (hbacked : s.Backed) (hlost : Lost s s') :
    ¬ LeaksNothing s s' := by
  intro hclean
  obtain ⟨v, region, hblock, hnone, hregion⟩ := hlost
  refine hclean.regions v (evictedNodes_mem hblock hnone) region hregion ?_
  rw [h.pool]
  exact hbacked v region hblock hregion

theorem not_host_of_evictable {c : RadixCache} {req : EvictRequest} {v : Nat}
    (h : c.Evictable req v) (htier : req.tierFilter = some .gpu) :
    nodeRegion c v = none ∧ nodeFile c v = none := by
  obtain ⟨-, node, hnode, hmay, -⟩ := h
  have haccepted := mayEvict_accepted hmay
  rw [htier, tierAccepts, decide_eq_true_eq] at haccepted
  obtain ⟨location, hlocation, htier⟩ := Option.map_eq_some_iff.mp haccepted
  cases location with
  | gpu slot =>
    have hplace : c.place v = some (some (.gpu slot), node.byteLen) := by
      rw [place, hnode, Option.map_some, hlocation]
    rw [nodeRegion, nodeFile, hplace]
    exact ⟨rfl, rfl⟩
  | hostPinned | disk | remote => cases htier

theorem consumeHostLeafPressureMode_kept (s : TierState) :
    Kept s s.consumeHostLeafPressureMode.2 ∧
      s.consumeHostLeafPressureMode.2.prefixCache = s.prefixCache := by
  unfold consumeHostLeafPressureMode
  split
  · exact ⟨⟨rfl, rfl, rfl, fun _ => Or.inr rfl, rfl⟩, rfl⟩
  · exact ⟨Kept.refl s, rfl⟩

theorem dropBlocksFromGpu_spec {blocksToDrop n : Nat}
    (hcall : s.dropBlocksFromGpu policy blocksToDrop = some (n, s')) : LeaksNothing s s' := by
  rw [dropBlocksFromGpu] at hcall
  obtain ⟨hmode, hcache⟩ := s.consumeHostLeafPressureMode_kept
  generalize s.consumeHostLeafPressureMode = consumed at *
  obtain ⟨mode, s₁⟩ := consumed
  dsimp only at hcall hmode hcache
  have hslot := s₁.releaseOneSessionSlot_kept mode .gpu
  have hcache₂ := (s₁.releaseOneSessionSlot_cache mode .gpu).trans hcache
  generalize s₁.releaseOneSessionSlot mode .gpu = released at *
  obtain ⟨releasedBlocks, s₂⟩ := released
  dsimp only at hcall hslot hcache₂
  have hkept := (hmode.trans hslot).trans (s₂.evictFromCache_kept policy .gpu .evict blocksToDrop)
  obtain ⟨hdropped, hcache'⟩ := dropCachedBlocks_unindexed
    (s₂.evictFromCache_unindexed policy .gpu .evict blocksToDrop) hcall
  refine (hkept.trans hdropped).leaksNothing fun v hv => ?_
  obtain ⟨hblock, hnone⟩ := mem_evictedNodes hv
  obtain ⟨evicted, hevictable, -, hblocks, -, -⟩ :=
    evictWithPolicy_spec s₂.prefixCache (s₂.evictRequest policy .gpu .evict) blocksToDrop
  rw [hcache'] at hnone
  have hgone := (hblocks v).symm.trans hnone
  split at hgone
  · rename_i hv
    rw [← hcache₂]
    exact not_host_of_evictable (hevictable v hv) rfl
  · rw [hcache₂] at hgone
    exact absurd hgone hblock

theorem evictHostBlocksForDemoteHeadroom_spec {requiredBytes n : Nat}
    (hcall : s.evictHostBlocksForDemoteHeadroom policy requiredBytes mode = some (n, s')) :
    (s.NothingToLeak policy (.demoteHeadroom requiredBytes mode) → LeaksNothing s s') ∧
      (¬ s.NothingToLeak policy (.demoteHeadroom requiredBytes mode) →
        Kept s s' ∧ Lost s s') := by
  rw [evictHostBlocksForDemoteHeadroom] at hcall
  split at hcall
  · rename_i hnone
    cases hcall
    refine ⟨fun _ => (Kept.refl s).leaksNothing fun v hv => ?_, fun hleak => ?_⟩
    · obtain ⟨hblock, hgone⟩ := mem_evictedNodes hv
      exact absurd hgone hblock
    · exact absurd (hnone.imp_right Or.inl) hleak
  · rename_i hneeded
    obtain ⟨hpos, hroom⟩ := not_or.mp hneeded
    obtain ⟨hkept, hnothing, hsome⟩ := hostEvictionLoop_spec (Nat.not_le.mp hroom) hcall
    refine ⟨fun hnone => hkept.leaksNothing fun v hv => ?_, fun hleak => ⟨hkept, hsome fun hfinds =>
      hleak (Or.inr (Or.inr hfinds))⟩⟩
    obtain ⟨hblock, hgone⟩ := mem_evictedNodes hv
    have hfinds := (hnone.resolve_left hpos).resolve_left hroom
    rw [hnothing hfinds] at hgone
    exact absurd hgone hblock

/-- A state with one cached block, in a region of eight bytes of the host pool, and a high-water
mark that leaves no headroom. -/
theorem oneHostBlock : ∃ s : TierState, s.Backed ∧ s.prefixCache.block 1 = some ⟨7⟩ ∧
    nodeRegion s.prefixCache 1 = some ⟨0, 8⟩ ∧
    ((s.evictTier ⟨fun _ _ => ⟨0⟩⟩ (.demoteHeadroom 1 .soft)).map fun r =>
      (r.2.prefixCache.block 1, r.2.hostPinnedPool.inner.liveRegions)) =
        some (none, [⟨0, 8⟩]) := by
  obtain ⟨c₀, hc₀⟩ : ∃ c, RadixCache.new 1 = some c := ⟨_, rfl⟩
  obtain ⟨c₁, hc₁⟩ : ∃ c, c₀.insertWithFingerprints [1] [⟨7⟩] [⟨0⟩] = some (1, c) := by
    cases hc₀
    exact ⟨_, rfl⟩
  obtain ⟨c, hc⟩ : ∃ c, c = (c₁.updateBlockMetadata ⟨7⟩
      { location := some (.hostPinned 0), byteLen := some 8 }).2 := ⟨_, rfl⟩
  obtain ⟨pool₀, hpool₀⟩ : ∃ pool, HostPinnedPool.new 64 = some pool := ⟨_, rfl⟩
  obtain ⟨pool, hpool⟩ : ∃ pool, pool₀.reserve 8 = some (.ok (some ⟨0, 8⟩), pool) := by
    cases hpool₀
    exact ⟨_, rfl⟩
  have hnodes : c.nodes.length = 2 ∧ c.block 0 = none ∧ c.block 1 = some ⟨7⟩ ∧
      nodeRegion c 1 = some ⟨0, 8⟩ := by
    cases hc₀
    cases hc₁
    subst hc
    exact ⟨rfl, rfl, by decide +kernel, by decide +kernel⟩
  obtain ⟨hlen, hroot, hblock, hregion⟩ := hnodes
  refine ⟨⟨⟨c, ∅, ∅, 0⟩, ⟨pool, false⟩, CudaKernels.TokenKVPool.new 2 1 1 Nat.one_pos, [], ∅, ∅,
    0, 0, false, fun _ => 0⟩, ?_, hblock, hregion, ?_⟩
  · intro v region hv hr
    have hlt : v < 2 := hlen ▸ lt_length_of_block hv
    obtain rfl : v = 1 := by
      refine Nat.le_antisymm (Nat.le_of_lt_succ hlt) (Nat.pos_of_ne_zero fun hzero => ?_)
      exact hv (hzero ▸ hroot)
    obtain rfl : region = ⟨0, 8⟩ := Option.some.inj (hr.symm.trans hregion)
    cases hpool₀
    cases hpool
    exact List.mem_cons_self
  · cases hc₀
    cases hc₁
    cases hpool₀
    cases hpool
    subst hc
    decide +kernel

/-- A state with one cached block on the device, which retains page `0` of two. -/
theorem oneGpuBlock : ∃ s : TierState, s.Backed ∧ s.prefixCache.block 1 = some ⟨7⟩ ∧
    s.pagedKvPool.freePages = [1] ∧
    ((s.evictTier ⟨fun _ _ => ⟨0⟩⟩ (.prefixCache 1)).map fun r =>
      (r.1, r.2.prefixCache.block 1, r.2.pagedKvPool.freePages)) = some (1, none, [1, 0]) := by
  obtain ⟨c₀, hc₀⟩ : ∃ c, RadixCache.new 1 = some c := ⟨_, rfl⟩
  obtain ⟨c₁, hc₁⟩ : ∃ c, c₀.insertWithFingerprints [1] [⟨7⟩] [⟨0⟩] = some (1, c) := by
    cases hc₀
    exact ⟨_, rfl⟩
  obtain ⟨c, hc⟩ : ∃ c, c = (c₁.updateBlockMetadata ⟨7⟩ { location := some (.gpu 0) }).2 :=
    ⟨_, rfl⟩
  obtain ⟨pool, hpool⟩ : ∃ pool, HostPinnedPool.new 64 = some pool := ⟨_, rfl⟩
  have hnodes : c.nodes.length = 2 ∧ c.block 0 = none ∧ c.block 1 = some ⟨7⟩ ∧
      nodeRegion c 1 = none := by
    cases hc₀
    cases hc₁
    subst hc
    exact ⟨rfl, rfl, by decide +kernel, by decide +kernel⟩
  obtain ⟨hlen, hroot, hblock, hregion⟩ := hnodes
  refine ⟨⟨⟨c, ∅, ∅, 0⟩, ⟨pool, false⟩, ⟨[1], [[]], [0], [0], [0, 0], [1, 0], 2, 1, Nat.one_pos⟩, [],
    (∅ : Assoc BlockId (List Nat)).insert ⟨7⟩ [0], ∅, 0, 0, false, fun _ => 0⟩, ?_, hblock, rfl, ?_⟩
  · intro v region hv hr
    have hlt : v < 2 := hlen ▸ lt_length_of_block hv
    obtain rfl : v = 1 := by
      refine Nat.le_antisymm (Nat.le_of_lt_succ hlt) (Nat.pos_of_ne_zero fun hzero => ?_)
      exact hv (hzero ▸ hroot)
    cases hr.symm.trans hregion
  · cases hc₀
    cases hc₁
    cases hpool
    subst hc
    decide +kernel

/-- An eviction that returns leaks nothing if and only if it finds no block in host memory. -/
theorem tier_eviction_leaks_nothing (s s' : TierState) (policy : EvictionPolicy)
    (eviction : TierEviction) (n : Nat) (hbacked : s.Backed)
    (hcall : s.evictTier policy eviction = some (n, s')) :
    LeaksNothing s s' ↔ s.NothingToLeak policy eviction := by
  cases eviction with
  | prefixCache blocksToDrop => exact iff_of_true (dropBlocksFromGpu_spec hcall) trivial
  | demoteHeadroom requiredBytes mode =>
    obtain ⟨hclean, hleak⟩ := evictHostBlocksForDemoteHeadroom_spec hcall
    refine ⟨fun h => ?_, hclean⟩
    by_contra hnone
    obtain ⟨hkept, hlost⟩ := hleak hnone
    exact hkept.leaks hbacked hlost h

/-- The block on the device is evicted, its page is free again, and nothing leaks. -/
theorem tier_eviction_leaks_nothing_gpu : ∃ s s' : TierState,
    s.prefixCache.block 1 = some ⟨7⟩ ∧ s'.prefixCache.block 1 = none ∧
      s.pagedKvPool.freePages = [1] ∧ s'.pagedKvPool.freePages = [1, 0] ∧ LeaksNothing s s' := by
  obtain ⟨s, hbacked, hblock, hfree, hcall⟩ := oneGpuBlock
  obtain ⟨⟨n, s'⟩, hcall, hread⟩ := Option.map_eq_some_iff.mp hcall
  simp only [Prod.mk.injEq] at hread
  obtain ⟨-, hblock', hfree'⟩ := hread
  exact ⟨s, s', hblock, hblock', hfree, hfree',
    (tier_eviction_leaks_nothing s s' _ _ n hbacked hcall).mpr trivial⟩

/-- The eviction for headroom takes the block, and its region stays reserved. -/
theorem tier_eviction_leaks : ∃ s s' : TierState, s.Backed ∧
    ∃ n, s.evictTier ⟨fun _ _ => ⟨0⟩⟩ (.demoteHeadroom 1 .soft) = some (n, s') ∧
      s.prefixCache.block 1 = some ⟨7⟩ ∧ nodeRegion s.prefixCache 1 = some ⟨0, 8⟩ ∧
      s'.prefixCache.block 1 = none ∧ s'.hostPinnedPool.inner.liveRegions = [⟨0, 8⟩] ∧
      ¬ LeaksNothing s s' := by
  obtain ⟨s, hbacked, hblock, hregion, hcall⟩ := oneHostBlock
  obtain ⟨⟨n, s'⟩, hcall, hread⟩ := Option.map_eq_some_iff.mp hcall
  obtain ⟨hnone, hlive⟩ := Prod.mk.injEq _ _ _ _ ▸ hread
  refine ⟨s, s', hbacked, n, hcall, hblock, hregion, hnone, hlive, fun hclean => ?_⟩
  refine hclean.regions 1 (evictedNodes_mem (by rw [hblock]; simp) hnone) _ hregion ?_
  rw [hlive]
  exact List.mem_cons_self

end TierState

end Arle.Scheduler.Cuda
