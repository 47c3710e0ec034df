import Mathlib
import Arle.PrefixCache.EvictLaw

/-!
# The evictability estimate

`cascade_evictable_blocks` lists the blocks that the scheduler counts on when it admits a
request: a bottom-up recursion that needs every child of a node to be evictable itself. The
eviction only looks at the blocks of the filtered tier below a victim. Both name the same
blocks exactly if nothing that the eviction can take has a node without a block, or with a
block of another tier, below it (`cascade_estimate_iff`).
-/

namespace Arle.PrefixCache.RadixCache

open KvTier Scheduler

/-! ## The estimate -/

/-- `RadixCache::node_is_reclaimable_now`. -/
def nodeIsReclaimableNow (c : RadixCache) (node : Node) (tierFilter : Option Tier) : Bool :=
  node.blockId.isSome && decide (node.refCount = 0) && decide (node.entryState = .ready) &&
    (node.softPinUntil.all fun deadline => decide (deadline ≤ c.clock)) &&
    tierAccepts tierFilter node.tierLocation

/-- `RadixCache::node_counts_as_sparse_dropped`. -/
def nodeCountsAsSparseDropped (c : RadixCache) (node : Node) (tierFilter : Option Tier) : Bool :=
  node.sparseDropped && c.nodeIsReclaimableNow node tierFilter

/-- `RadixCache::collect_cascade_evictable_blocks`: whether the whole subtree is evictable, and
the blocks collected so far. The fuel bounds the depth of the recursion, which in a tree is
below the number of nodes. -/
def collectCascadeEvictableBlocks (c : RadixCache) (tierFilter : Option Tier) :
    Nat → Nat → List BlockId → Bool × List BlockId
  | 0, _, out => (false, out)
  | fuel + 1, idx, out =>
    match c.nodes[idx]? with
    | none => (false, out)
    | some node =>
      let r := (Assoc.values node.children).foldl
        (fun acc childIdx =>
          let r := c.collectCascadeEvictableBlocks tierFilter fuel childIdx acc.2
          (acc.1 && r.1, r.2))
        (true, out)
      let evictable := (c.nodeCountsAsSparseDropped node tierFilter ||
        c.nodeIsReclaimableNow node tierFilter) && r.1
      match evictable, node.blockId with
      | true, some blockId => (evictable, r.2 ++ [blockId])
      | _, _ => (evictable, r.2)

/-- `RadixCache::cascade_evictable_blocks`. -/
def cascadeEvictableBlocks (c : RadixCache) (tierFilter : Option Tier) : List BlockId :=
  match c.nodes[root]? with
  | none => []
  | some node => (Assoc.values node.children).foldl
      (fun blocks childIdx =>
        (c.collectCascadeEvictableBlocks tierFilter (c.nodes.length + 1) childIdx blocks).2)
      []

/-- What `RadixCache::evict_with_policy` asks for. -/
def evictRequest (policy : EvictionPolicy) (signals : SchedulerSignals)
    (tierFilter : Option Tier) : EvictRequest where
  policy := policy
  signals := signals
  tierFilter := tierFilter
  intent := .evict
  excludedBlocks := none

/-- `RadixCache::evict_with_policy`. -/
def evictWithPolicy (c : RadixCache) (policy : EvictionPolicy) (signals : SchedulerSignals)
    (n : Nat) (tierFilter : Option Tier) : List BlockId × RadixCache :=
  c.evictWithPolicyForIntentExcluding (evictRequest policy signals tierFilter) n

/-! ## What the estimate lists -/

/-- The node is reclaimable now. -/
def Reclaimable (c : RadixCache) (tierFilter : Option Tier) (i : Nat) : Prop :=
  ∃ node, c.nodes[i]? = some node ∧ c.nodeIsReclaimableNow node tierFilter = true

/-- The node is reclaimable now with every node below it. -/
def CascadeReclaimable (c : RadixCache) (tierFilter : Option Tier) (i : Nat) : Prop :=
  ∀ d, c.trie.Below i d → c.Reclaimable tierFilter d

/-- What the recursion finds below `i`. -/
def Collects (c : RadixCache) (tierFilter : Option Tier) (i : Nat) (b : BlockId) : Prop :=
  ∃ d, c.trie.Below i d ∧ c.CascadeReclaimable tierFilter d ∧ c.block d = some b

section Collect

variable {c : RadixCache} {tierFilter : Option Tier}

theorem cascadeReclaimable_iff {i : Nat} {node : Node} (hnode : c.nodes[i]? = some node) :
    c.CascadeReclaimable tierFilter i ↔ c.nodeIsReclaimableNow node tierFilter = true ∧
      ∀ j ∈ Assoc.values node.children, c.CascadeReclaimable tierFilter j := by
  constructor
  · intro h
    refine ⟨?_, fun j hj d hd => ?_⟩
    · obtain ⟨node', hnode', hrec⟩ := h i (.refl i)
      obtain rfl := Option.some.inj (hnode.symm.trans hnode')
      exact hrec
    · obtain ⟨t, hlookup⟩ := Assoc.mem_values.mp hj
      exact h d (.step (t := t) (child_eq_some.mpr ⟨node, hnode, hlookup⟩) hd)
  · rintro ⟨hrec, hall⟩ d hd
    rcases hd.cases_child with rfl | ⟨t, j, hj, hjd⟩
    · exact ⟨node, hnode, hrec⟩
    · obtain ⟨node', hnode', hlookup⟩ := child_eq_some.mp hj
      obtain rfl := Option.some.inj (hnode.symm.trans hnode')
      exact hall j (Assoc.mem_values.mpr ⟨t, hlookup⟩) d hjd

theorem collects_iff {i : Nat} {node : Node} (hnode : c.nodes[i]? = some node) {b : BlockId} :
    c.Collects tierFilter i b ↔
      (c.CascadeReclaimable tierFilter i ∧ node.blockId = some b) ∨
        ∃ j ∈ Assoc.values node.children, c.Collects tierFilter j b := by
  have hblock : c.block i = node.blockId := by simp [block, hnode]
  constructor
  · rintro ⟨d, hd, hrec, hb⟩
    rcases hd.cases_child with rfl | ⟨t, j, hj, hjd⟩
    · exact Or.inl ⟨hrec, hblock ▸ hb⟩
    · obtain ⟨node', hnode', hlookup⟩ := child_eq_some.mp hj
      obtain rfl := Option.some.inj (hnode.symm.trans hnode')
      exact Or.inr ⟨j, Assoc.mem_values.mpr ⟨t, hlookup⟩, d, hjd, hrec, hb⟩
  · rintro (⟨hrec, hb⟩ | ⟨j, hj, d, hd, hrec, hb⟩)
    · exact ⟨i, .refl i, hrec, hblock.trans hb⟩
    · obtain ⟨t, hlookup⟩ := Assoc.mem_values.mp hj
      exact ⟨d, .step (t := t) (child_eq_some.mpr ⟨node, hnode, hlookup⟩) hd, hrec, hb⟩

section Children

variable {step : Nat → List BlockId → Bool × List BlockId} {ok : Nat → Prop}
  {finds : Nat → BlockId → Prop}

/-- The loop over the children: all verdicts, and all that the children find. -/
theorem foldl_children (js : List Nat)
    (h : ∀ j ∈ js, ∀ out, ((step j out).1 = true ↔ ok j) ∧
      ∀ b, b ∈ (step j out).2 ↔ b ∈ out ∨ finds j b)
    (acc : Bool × List BlockId) :
    ((js.foldl (fun acc j => (acc.1 && (step j acc.2).1, (step j acc.2).2)) acc).1 = true ↔
      acc.1 = true ∧ ∀ j ∈ js, ok j) ∧
    ∀ b, b ∈ (js.foldl (fun acc j => (acc.1 && (step j acc.2).1, (step j acc.2).2)) acc).2 ↔
      b ∈ acc.2 ∨ ∃ j ∈ js, finds j b := by
  induction js generalizing acc with
  | nil => simp
  | cons j js ih =>
    obtain ⟨hok, hfinds⟩ := h j List.mem_cons_self acc.2
    obtain ⟨hall, hmem⟩ := ih (fun k hk => h k (List.mem_cons_of_mem j hk))
      (acc.1 && (step j acc.2).1, (step j acc.2).2)
    rw [List.foldl_cons]
    refine ⟨?_, fun b => ?_⟩
    · rw [hall, Bool.and_eq_true, hok, List.forall_mem_cons, and_assoc]
    · rw [hmem, hfinds, List.exists_mem_cons_iff, or_assoc]

theorem foldl_blocks (js : List Nat) (acc : Bool × List BlockId) :
    js.foldl (fun blocks j => (step j blocks).2) acc.2 =
      (js.foldl (fun acc j => (acc.1 && (step j acc.2).1, (step j acc.2).2)) acc).2 := by
  induction js generalizing acc with
  | nil => rfl
  | cons j js ih => exact ih (acc.1 && (step j acc.2).1, (step j acc.2).2)

end Children

/-- The recursion over one subtree says whether all of it is evictable, and adds what it
finds. -/
theorem collect_spec {fuel idx : Nat} (hs : c.Sound) (hidx : idx < c.nodes.length)
    (hfuel : ∀ js, c.trie.Chain idx js → js.length < fuel) (out : List BlockId) :
    ((c.collectCascadeEvictableBlocks tierFilter fuel idx out).1 = true ↔
      c.CascadeReclaimable tierFilter idx) ∧
    ∀ b, b ∈ (c.collectCascadeEvictableBlocks tierFilter fuel idx out).2 ↔
      b ∈ out ∨ c.Collects tierFilter idx b := by
  induction fuel generalizing idx out with
  | zero => exact absurd (hfuel [] (.nil idx)) (Nat.lt_irrefl 0)
  | succ fuel ih =>
    obtain ⟨node, hnode⟩ : ∃ node, c.nodes[idx]? = some node :=
      ⟨_, List.getElem?_eq_getElem hidx⟩
    have hchild : ∀ j ∈ Assoc.values node.children, ∀ out,
        ((c.collectCascadeEvictableBlocks tierFilter fuel j out).1 = true ↔
          c.CascadeReclaimable tierFilter j) ∧
        ∀ b, b ∈ (c.collectCascadeEvictableBlocks tierFilter fuel j out).2 ↔
          b ∈ out ∨ c.Collects tierFilter j b := by
      intro j hj out
      obtain ⟨t, hlookup⟩ := Assoc.mem_values.mp hj
      have hij : c.child idx t = some j := child_eq_some.mpr ⟨node, hnode, hlookup⟩
      refine ih (hs.child_lt hij) (fun js hjs => ?_) out
      have := hfuel (j :: js) (.cons hij hjs)
      rw [List.length_cons] at this
      omega
    obtain ⟨hall, hmem⟩ := foldl_children (Assoc.values node.children) hchild (true, out)
    have hsparse : (c.nodeCountsAsSparseDropped node tierFilter ||
        c.nodeIsReclaimableNow node tierFilter) = c.nodeIsReclaimableNow node tierFilter := by
      unfold nodeCountsAsSparseDropped
      cases c.nodeIsReclaimableNow node tierFilter <;> simp
    have hverdict : (c.nodeIsReclaimableNow node tierFilter &&
        ((Assoc.values node.children).foldl (fun acc childIdx =>
          (acc.1 && (c.collectCascadeEvictableBlocks tierFilter fuel childIdx acc.2).1,
            (c.collectCascadeEvictableBlocks tierFilter fuel childIdx acc.2).2))
          (true, out)).1) = true ↔ c.CascadeReclaimable tierFilter idx := by
      rw [cascadeReclaimable_iff hnode, Bool.and_eq_true, hall]
      simp
    rw [collectCascadeEvictableBlocks, hnode]
    simp only [hsparse]
    refine ⟨?_, fun b => ?_⟩
    · rw [← hverdict]
      split
      · rename_i hyes _
        simp [hyes]
      · rfl
    · rw [collects_iff hnode, ← hverdict]
      split
      · rename_i blockId hyes hb
        rw [List.mem_append, hmem, List.mem_singleton, hb, Option.some.injEq, hyes,
          eq_comm (a := b), or_assoc, or_comm (a := ∃ _, _)]
        simp
      · -- the verdict is no, or there is no block
        rename_i hother
        have hnone : ¬ ((c.nodeIsReclaimableNow node tierFilter &&
            ((Assoc.values node.children).foldl (fun acc childIdx =>
              (acc.1 && (c.collectCascadeEvictableBlocks tierFilter fuel childIdx acc.2).1,
                (c.collectCascadeEvictableBlocks tierFilter fuel childIdx acc.2).2))
              (true, out)).1) = true ∧ node.blockId = some b) := fun h => hother b h.1 h.2
        rw [hmem]
        simp only [hnone, false_or]

/-- The estimate lists the reclaimable blocks below which everything is reclaimable too. -/
theorem mem_cascadeEvictableBlocks (hs : c.Sound) (b : BlockId) :
    b ∈ c.cascadeEvictableBlocks tierFilter ↔ c.Collects tierFilter root b := by
  obtain ⟨node, hnode⟩ : ∃ node, c.nodes[root]? = some node :=
    ⟨_, List.getElem?_eq_getElem hs.root_lt⟩
  have hchild : ∀ j ∈ Assoc.values node.children, ∀ out,
      ((c.collectCascadeEvictableBlocks tierFilter (c.nodes.length + 1) j out).1 = true ↔
        c.CascadeReclaimable tierFilter j) ∧
      ∀ b, b ∈ (c.collectCascadeEvictableBlocks tierFilter (c.nodes.length + 1) j out).2 ↔
        b ∈ out ∨ c.Collects tierFilter j b := by
    intro j hj out
    obtain ⟨t, hlookup⟩ := Assoc.mem_values.mp hj
    have hij : c.child root t = some j := child_eq_some.mpr ⟨node, hnode, hlookup⟩
    exact collect_spec hs (hs.child_lt hij)
      (fun js hjs => Nat.lt_succ_of_le (chain_length_le hs.tree hs.child_lt hjs)) out
  have hroot : node.blockId = none := by
    have := hs.root_block
    simpa [block, hnode] using this
  rw [cascadeEvictableBlocks, hnode]
  simp only
  rw [foldl_blocks (Assoc.values node.children) (true, []),
    (foldl_children (Assoc.values node.children) hchild (true, [])).2, collects_iff hnode]
  simp [hroot]

end Collect

/-! ## The estimate and the eviction -/

/-- Whatever an eviction can take, together with the blocks of the tier below it, is part of the
tree, and every node below it holds a block of the tier. -/
def EstimateExact (c : RadixCache) (tierFilter : Option Tier) : Prop :=
  ∀ v, c.Reclaimable tierFilter v →
    (∀ d, c.trie.Below v d → c.nodeMatchesTierFilter d tierFilter = true →
      c.Reclaimable tierFilter d) →
    (∃ p, c.trie.Reaches v p) ∧
      ∀ d, c.trie.Below v d → c.nodeMatchesTierFilter d tierFilter = true

section Law

variable {c : RadixCache} {tierFilter : Option Tier} {req : EvictRequest}

theorem Reclaimable.matches {i : Nat} (h : c.Reclaimable tierFilter i) :
    c.nodeMatchesTierFilter i tierFilter = true := by
  obtain ⟨node, hnode, hrec⟩ := h
  simp only [nodeIsReclaimableNow, Bool.and_eq_true] at hrec
  simp [nodeMatchesTierFilter, hnode, hrec.1.1.1.1, hrec.2]

theorem nodeIsReclaimableNow_iff {node : Node} :
    c.nodeIsReclaimableNow node tierFilter = true ↔ node.blockId ≠ none ∧ node.refCount = 0 ∧
      node.entryState = .ready ∧ pinActive node.softPinUntil c.clock = false ∧
      tierAccepts tierFilter node.tierLocation = true := by
  have hpin : (node.softPinUntil.all fun deadline => decide (deadline ≤ c.clock)) = true ↔
      pinActive node.softPinUntil c.clock = false := by
    unfold pinActive
    cases node.softPinUntil <;> simp
  simp only [nodeIsReclaimableNow, Bool.and_eq_true, decide_eq_true_eq, hpin,
    Option.isSome_iff_ne_none, and_assoc]

/-- An eviction without exclusions whose scores are finite may take what is reclaimable. -/
theorem evictable_iff_reclaimable (req : EvictRequest) (hs : c.Sound)
    (hintent : req.intent = .evict) (hexcluded : req.excludedBlocks = none)
    (hfinite : ∀ candidate, (req.policy.score candidate req.signals).isFinite = true) {v : Nat} :
    c.Evictable req v ↔ c.Reclaimable req.tierFilter v := by
  constructor
  · rintro ⟨-, node, hnode, hmay, -⟩
    obtain ⟨hblock, hel, -⟩ := mayEvict_iff.mp hmay
    refine ⟨node, hnode, nodeIsReclaimableNow_iff.mpr
      ⟨hblock, hel.unpinned, hel.ready, ?_, tierAccepts_iff.mpr hel.tier⟩⟩
    simpa [selectionPinActive, hintent] using hel.pin
  · rintro ⟨node, hnode, hrec⟩
    obtain ⟨hblock, hrefs, hready, hpin, htier⟩ := nodeIsReclaimableNow_iff.mp hrec
    refine ⟨?_, node, hnode, mayEvict_iff.mpr ⟨hblock, ?_, Or.inl hintent⟩, hfinite _⟩
    · rintro rfl
      apply hblock
      simpa [block, hnode] using hs.root_block
    · exact
        { unexcluded := fun _ h => by rw [hexcluded] at h; cases h
          tier := tierAccepts_iff.mp htier
          unpinned := hrefs
          ready := hready
          pin := by simpa [selectionPinActive, hintent] using hpin }

/-- The blocks that an eviction frees when it is asked for all of them. -/
theorem mem_freed_iff (hs : c.Sound) {n : Nat} (hn : c.cachedBlockCount ≤ n) (b : BlockId) :
    b ∈ (c.evictWithPolicyForIntentExcluding req n).1 ↔
      ∃ v, c.CascadeTakes req v ∧ c.block v = some b := by
  by_cases h0 : n = 0
  · -- there is no block
    subst h0
    rw [evictWithPolicyForIntentExcluding, evictBy_zero]
    refine ⟨fun h => absurd h List.not_mem_nil, ?_⟩
    rintro ⟨v, -, hb⟩
    have hmem := mem_blockSlots (c := c) (i := v) (by rw [hb]; simp)
    have hnil : c.blockSlots = [] :=
      List.length_eq_zero_iff.mp (by rw [length_blockSlots]; omega)
    rw [hnil] at hmem
    cases hmem
  · have h := taken_evicting c req n
    obtain ⟨-, hend⟩ := policyLoop_end c req n
    rw [evictWithPolicyForIntentExcluding, evictBy_eq h0]
    have hmem : b ∈ (c.taken (fun c evicted => c.policyVictim req evicted) n).2.2 ↔
        some b ∈ (c.taken (fun c evicted => c.policyVictim req evicted) n).2.1.map c.block := by
      rw [← h.freed]
      simp
    simp only [hmem, List.mem_map, h.taken_iff hs hn hend]

end Law

/-- The estimate names the blocks that an eviction of everything frees if and only if nothing
that the eviction can take has a node below it without a block of the tier. -/
theorem cascade_estimate_iff {c : RadixCache} (hs : c.Sound)
    (hindex : Indexes c.blockIndex c.block) (policy : EvictionPolicy) (signals : SchedulerSignals)
    (hfinite : ∀ candidate, (policy.score candidate signals).isFinite = true) {n : Nat}
    (hn : c.cachedBlockCount ≤ n) (tierFilter : Option Tier) :
    (∀ b, b ∈ c.cascadeEvictableBlocks tierFilter ↔
      b ∈ (c.evictWithPolicy policy signals n tierFilter).1) ↔ c.EstimateExact tierFilter := by
  have htakes : ∀ v, c.CascadeTakes (evictRequest policy signals tierFilter) v ↔
      c.Reclaimable tierFilter v ∧ ∀ d, c.trie.Below v d →
        c.nodeMatchesTierFilter d tierFilter = true → c.Reclaimable tierFilter d := by
    intro v
    have hiff : ∀ d, c.Evictable (evictRequest policy signals tierFilter) d ↔
        c.Reclaimable tierFilter d := fun d =>
      evictable_iff_reclaimable (evictRequest policy signals tierFilter) hs rfl rfl hfinite
    unfold CascadeTakes
    rw [hiff]
    refine and_congr_right fun _ => forall_congr' fun d => ?_
    rw [hiff]
    rfl
  have hfreed : ∀ b, b ∈ (c.evictWithPolicy policy signals n tierFilter).1 ↔
      ∃ v, c.CascadeTakes (evictRequest policy signals tierFilter) v ∧ c.block v = some b :=
    fun b => mem_freed_iff hs hn b
  constructor
  · intro h v hv hall
    obtain ⟨node, hnode, hrec⟩ := hv
    obtain ⟨b, hb⟩ := Option.ne_none_iff_exists'.mp (nodeIsReclaimableNow_iff.mp hrec).1
    have hblock : c.block v = some b := block_eq_some.mpr ⟨node, hnode, hb⟩
    -- the estimate names the block, so it found the node
    obtain ⟨d, hd, hcascade, hdb⟩ := (mem_cascadeEvictableBlocks hs b).mp ((h b).mpr
      ((hfreed b).mpr ⟨v, (htakes v).mpr ⟨⟨node, hnode, hrec⟩, hall⟩, hblock⟩))
    obtain rfl : d = v := hindex.slot_unique hdb hblock
    exact ⟨RadixTree.reaches_iff_below.mpr hd, fun e he => (hcascade e he).matches⟩
  · intro h b
    rw [mem_cascadeEvictableBlocks hs, hfreed]
    constructor
    · rintro ⟨d, -, hcascade, hb⟩
      exact ⟨d, (htakes d).mpr ⟨hcascade d (.refl d), fun e he _ => hcascade e he⟩, hb⟩
    · rintro ⟨v, hv, hb⟩
      obtain ⟨hrec, hall⟩ := (htakes v).mp hv
      obtain ⟨hreach, hmatches⟩ := h v hrec hall
      exact ⟨v, RadixTree.reaches_iff_below.mp hreach,
        fun d hd => hall d hd (hmatches d hd), hb⟩

/-- Two prompts of two windows that part in the second window: the split leaves a node without
a block between the first window and both second ones. -/
theorem splitWindow : ∃ c₀ c₁ c₂ : RadixCache, new 2 = some c₀ ∧
    c₀.insertWithFingerprints [1, 2, 3, 4] [⟨7⟩, ⟨8⟩] [⟨0⟩, ⟨1⟩] = some (4, c₁) ∧
    c₁.insertWithFingerprints [1, 2, 3, 5] [⟨7⟩, ⟨9⟩] [⟨0⟩, ⟨2⟩] = some (4, c₂) ∧ c₁.Indexed := by
  obtain ⟨c₀, hc₀⟩ : ∃ c, new 2 = some c := ⟨_, rfl⟩
  obtain ⟨c₁, hc₁, c₂, hc₂⟩ : ∃ c₁,
      c₀.insertWithFingerprints [1, 2, 3, 4] [⟨7⟩, ⟨8⟩] [⟨0⟩, ⟨1⟩] = some (4, c₁) ∧
      ∃ c₂, c₁.insertWithFingerprints [1, 2, 3, 5] [⟨7⟩, ⟨9⟩] [⟨0⟩, ⟨2⟩] = some (4, c₂) := by
    cases hc₀
    exact ⟨_, rfl, _, rfl⟩
  refine ⟨c₀, c₁, c₂, hc₀, hc₁, hc₂, Indexed.insert (indexed_new hc₀) ?_ ⟨?_, ?_⟩ hc₁⟩
  · rw [new_freeNodes hc₀]
    exact List.nodup_nil
  · exact List.Nodup.sublist (List.take_sublist _ _) (by decide)
  · intro k b _ _
    exact Or.inr fun i => by rw [new_block hc₀]; simp

/-- Before the split the estimate and the eviction agree. -/
theorem cascade_estimate_iff_two : ∃ c : RadixCache, c.cachedBlockCount = 2 ∧
    c.cascadeEvictableBlocks none = [⟨8⟩, ⟨7⟩] ∧ c.EstimateExact none := by
  obtain ⟨c₀, c₁, c₂, hc₀, hc₁, -, hindexed⟩ := splitWindow
  obtain ⟨hcount, hestimate, hfreed⟩ : c₁.cachedBlockCount = 2 ∧
      c₁.cascadeEvictableBlocks none = [⟨8⟩, ⟨7⟩] ∧
      (c₁.evictWithPolicy ⟨fun _ _ => ⟨0⟩⟩ {} 2 none).1 = [⟨8⟩, ⟨7⟩] := by
    cases hc₀
    cases hc₁
    exact ⟨rfl, by decide +kernel, by decide +kernel⟩
  refine ⟨c₁, hcount, hestimate, (cascade_estimate_iff hindexed.sound hindexed.index
    ⟨fun _ _ => ⟨0⟩⟩ {} (fun _ => show F32.isFinite ⟨0⟩ = true by decide) (le_of_eq hcount)
    none).mp ?_⟩
  intro b
  rw [hestimate, hfreed]

/-- After the split the eviction frees all three blocks, and the estimate leaves out the block
above the node without one. -/
theorem cascade_estimate_fails : ∃ c₀ c₁ c₂ : RadixCache, new 2 = some c₀ ∧
    c₀.insertWithFingerprints [1, 2, 3, 4] [⟨7⟩, ⟨8⟩] [⟨0⟩, ⟨1⟩] = some (4, c₁) ∧
    c₁.insertWithFingerprints [1, 2, 3, 5] [⟨7⟩, ⟨9⟩] [⟨0⟩, ⟨2⟩] = some (4, c₂) ∧
    c₂.cachedBlockCount = 3 ∧
    ⟨7⟩ ∉ c₂.cascadeEvictableBlocks none ∧
    ⟨7⟩ ∈ (c₂.evictWithPolicy ⟨fun _ _ => ⟨0⟩⟩ {} 3 none).1 := by
  obtain ⟨c₀, c₁, c₂, hc₀, hc₁, hc₂, -⟩ := splitWindow
  refine ⟨c₀, c₁, c₂, hc₀, hc₁, hc₂, ?_⟩
  cases hc₀
  cases hc₁
  cases hc₂
  exact ⟨rfl, by decide +kernel, by decide +kernel⟩

end Arle.PrefixCache.RadixCache
