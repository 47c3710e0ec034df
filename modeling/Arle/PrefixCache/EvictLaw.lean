import Mathlib
import Arle.PrefixCache.Index

/-!
# Evictions are safe and maximal

Every block that `evict_with_policy_for_intent_excluding` returns passed the checks of the
call, and no block of the filtered tier survives below it. If it returns fewer blocks than it
was asked for, every remaining node that passes the checks still has a block of the tier
below it (`evict_safe_maximal`).
-/

namespace Arle.PrefixCache.RadixCache

open KvTier Scheduler

/-! ## What blocks a victim -/

section Subtree

variable {c : RadixCache} {tierFilter : Option Tier} {selected : List Nat}

/-- A subtree test that has fuel for the longest chain finds an unselected block. -/
theorem subtree_found {fuel idx : Nat}
    (hfuel : ∀ js, c.trie.Chain idx js → js.length < fuel)
    (h : c.subtreeHasUnselectedBlockInTier tierFilter selected fuel idx = true) :
    ∃ d, c.trie.Below idx d ∧ c.nodeMatchesTierFilter d tierFilter = true ∧ d ∉ selected := by
  induction fuel generalizing idx with
  | zero => exact absurd (hfuel [] (.nil idx)) (Nat.lt_irrefl 0)
  | succ fuel ih =>
    rw [subtreeHasUnselectedBlockInTier] at h
    split at h
    · cases h
    · rename_i hsel
      split at h
      · rename_i hmatch
        exact ⟨idx, .refl idx, hmatch, hsel⟩
      · split at h
        · cases h
        · rename_i node hnode
          obtain ⟨j, hj, hfound⟩ := List.any_eq_true.mp h
          obtain ⟨t, hlookup⟩ := Assoc.mem_values.mp hj
          have hchild : c.child idx t = some j := child_eq_some.mpr ⟨node, hnode, hlookup⟩
          obtain ⟨d, hd, hmatch, hsel'⟩ := ih (fun js hjs => by
            have := hfuel (j :: js) (.cons hchild hjs)
            rw [List.length_cons] at this
            omega) hfound
          exact ⟨d, .step hchild hd, hmatch, hsel'⟩

/-- No chain of a well-formed tree is longer than the vector of nodes. -/
theorem chain_length_le (htree : c.trie.WellFormed)
    (hlt : ∀ {i t j}, c.child i t = some j → j < c.nodes.length) {i : Nat} {js : List Nat}
    (h : c.trie.Chain i js) : js.length ≤ c.nodes.length := by
  have hsub : js ⊆ List.range c.nodes.length := by
    intro j hj
    obtain ⟨i', t, hchild⟩ := h.exists_parent hj
    exact List.mem_range.mpr (hlt hchild)
  have := ((h.nodup htree).subperm hsub).length_le
  rwa [List.length_range] at this

/-- A node that is no active leaf has an unselected block of the tier below it. -/
theorem not_activeLeaf (htree : c.trie.WellFormed)
    (hlt : ∀ {i t j}, c.child i t = some j → j < c.nodes.length) {v : Nat}
    (hv : v < c.nodes.length) (h : c.nodeIsActiveLeafForTier v tierFilter selected = false) :
    ∃ t j d, c.child v t = some j ∧ c.trie.Below j d ∧
      c.nodeMatchesTierFilter d tierFilter = true ∧ d ∉ selected := by
  have hnode : c.nodes[v]? = some c.nodes[v] := List.getElem?_eq_getElem hv
  rw [nodeIsActiveLeafForTier, hnode] at h
  obtain ⟨j, hj, hfound⟩ := List.all_eq_false.mp h
  obtain ⟨t, hlookup⟩ := Assoc.mem_values.mp hj
  obtain ⟨d, hd, hmatch, hsel⟩ := subtree_found (fun js hjs =>
    Nat.lt_succ_of_le (chain_length_le htree hlt hjs)) (by simpa using hfound)
  exact ⟨t, j, d, child_eq_some.mpr ⟨_, hnode, hlookup⟩, hd, hmatch, hsel⟩

end Subtree

/-! ## How the loop ends -/

section Loop

variable {c : RadixCache} {victim : RadixCache → List Nat → Option Nat}

variable (victim) in
/-- A loop whose victims hold blocks frees one block a round, and stops early only when there
is no victim left. -/
theorem evictLoop_end (hblock : ∀ {c evicted v}, victim c evicted = some v → c.block v ≠ none)
    (n : Nat) (c : RadixCache) (evicted : List Nat) (freed : List BlockId) :
    (evictLoop victim n c evicted freed).2.2.length ≤ freed.length + n ∧
      ((evictLoop victim n c evicted freed).2.2.length < freed.length + n →
        victim (evictLoop victim n c evicted freed).1
          (evictLoop victim n c evicted freed).2.1 = none) := by
  induction n generalizing c evicted freed with
  | zero => exact ⟨Nat.le_refl _, fun h => absurd h (Nat.lt_irrefl _)⟩
  | succ n ih =>
    rw [evictLoop]
    cases hv : victim c evicted with
    | none => exact ⟨Nat.le_add_right _ _, fun _ => hv⟩
    | some v =>
      obtain ⟨b, hb⟩ := Option.ne_none_iff_exists'.mp (hblock hv)
      obtain ⟨c', hc'⟩ := takeBlock_isSome hb
      obtain ⟨hle, hend⟩ := ih c' (evicted ++ [v]) (freed ++ [b])
      rw [List.length_append, List.length_singleton] at hle hend
      simp only [hc']
      exact ⟨by omega, fun h => hend (by omega)⟩

/-- How the loop of a policy ends: with `n` blocks, or without a victim left. -/
theorem policyLoop_end (c : RadixCache) (req : EvictRequest) (n : Nat) :
    (c.taken (fun c evicted => c.policyVictim req evicted) n).2.2.length ≤ n ∧
      ((c.taken (fun c evicted => c.policyVictim req evicted) n).2.2.length < n →
        (c.taken (fun c evicted => c.policyVictim req evicted) n).1.policyVictim req
          (c.taken (fun c evicted => c.policyVictim req evicted) n).2.1 = none) := by
  have hblock : ∀ {c : RadixCache} {evicted v}, c.policyVictim req evicted = some v →
      c.block v ≠ none := by
    intro c evicted v hv
    obtain ⟨b, hb⟩ := (policyVictim_some hv).2.1.block
    simp [hb]
  have hend := evictLoop_end (fun c evicted => c.policyVictim req evicted) hblock n c [] []
  rw [List.length_nil, Nat.zero_add] at hend
  exact hend

end Loop

/-! ## What is left -/

section Left

variable {c c' : RadixCache} {req : EvictRequest} {evicted : List Nat} {freed : List BlockId}

/-- What could be taken at the start may still be taken. -/
theorem Evicting.evictable_now (h : Evicting c req c' evicted freed) {v : Nat}
    (hv : v ∉ evicted) (he : c.Evictable req v) : c'.Evictable req v := by
  obtain ⟨hroot, node, hnode, hmay, hfinite⟩ := he
  refine ⟨hroot, node, by rw [h.get_of_not_mem hv, hnode], ?_, ?_⟩
  · unfold mayEvict at hmay ⊢
    rw [h.clock]
    exact hmay
  · unfold evictionCandidate at hfinite ⊢
    rw [h.blockSize]
    exact hfinite

theorem Evicting.length (h : Evicting c req c' evicted freed) :
    c'.nodes.length = c.nodes.length := by
  have hnone : ∀ i : Nat, c'.nodes[i]? = none ↔ c.nodes[i]? = none := by
    intro i
    rw [h.get]
    split <;> simp
  refine Nat.le_antisymm ?_ ?_
  · exact List.getElem?_eq_none_iff.mp ((hnone _).mpr (List.getElem?_eq_none (Nat.le_refl _)))
  · exact List.getElem?_eq_none_iff.mp ((hnone _).mp (List.getElem?_eq_none (Nat.le_refl _)))

theorem Evicting.matches_iff (h : Evicting c req c' evicted freed) (d : Nat) :
    c'.nodeMatchesTierFilter d req.tierFilter = true ↔
      c.nodeMatchesTierFilter d req.tierFilter = true ∧ d ∉ evicted := by
  unfold nodeMatchesTierFilter
  rw [h.get]
  by_cases hd : d ∈ evicted
  · rw [if_pos hd]
    cases c.nodes[d]? <;> simp [hd]
  · rw [if_neg hd]
    simp [hd]

/-- When no victim is left, whatever could still be taken has a block of the tier below it. -/
theorem Evicting.maximal (h : Evicting c req c' evicted freed) (hs : c.Sound)
    (hnone : c'.policyVictim req evicted = none) {v : Nat} (hv : v ∉ evicted)
    (he : c.Evictable req v) : ∃ t j d, c.child v t = some j ∧ c.trie.Below j d ∧
      c.nodeMatchesTierFilter d req.tierFilter = true ∧ d ∉ evicted := by
  obtain ⟨hroot, node, hnode, hmay, hfinite⟩ := h.evictable_now hv he
  have hkey := scanBest_none (Option.map_eq_none_iff.mp hnone) hnode
  rw [policyCandidate, if_neg (by simp [hroot, hv]), hmay, Bool.true_and] at hkey
  have hleaf : c'.nodeIsActiveLeafForTier v req.tierFilter evicted = false := by
    cases hleaf : c'.nodeIsActiveLeafForTier v req.tierFilter evicted with
    | false => rfl
    | true => simp [hleaf, hfinite] at hkey
  obtain ⟨t, j, d, hj, hd, hmatch, hnot⟩ := not_activeLeaf (h.trie ▸ hs.tree)
    (by rw [h.child, h.length]; exact hs.child_lt) (List.getElem?_eq_some_iff.mp hnode).1 hleaf
  rw [h.child] at hj
  rw [h.trie] at hd
  exact ⟨t, j, d, hj, hd, ((h.matches_iff d).mp hmatch).1, hnot⟩

/-! ## The cache after the call -/

/-- A node that still holds a block keeps everything but its pointers. -/
theorem Evicting.final_get (h : Evicting c req c' evicted freed) {i : Nat}
    (hi : (c'.detach evicted).gcOrphanTombstones.block i ≠ none) :
    i ∉ evicted ∧ ∃ node children, c.nodes[i]? = some node ∧
      (c'.detach evicted).gcOrphanTombstones.nodes[i]? =
        some { node with children := children } := by
  rw [gc_block, detach_block] at hi
  have hnot : i ∉ evicted := by
    intro hmem
    rw [h.block, if_pos hmem] at hi
    exact hi rfl
  obtain ⟨node, hnode⟩ : ∃ node, c.nodes[i]? = some node :=
    ⟨_, List.getElem?_eq_getElem (h.length ▸ lt_length_of_block hi)⟩
  have hget : (c'.detach evicted).nodes[i]? = some { node with
      children := node.children.retain fun _ childIdx => decide (childIdx ∉ evicted) } := by
    rw [detach_get, h.get_of_not_mem hnot, hnode]
    rfl
  refine ⟨hnot, node, ?_⟩
  by_cases hg : (c'.detach evicted).gcReclaimable = []
  · rw [gc_of_nil hg]
    exact ⟨_, hnode, hget⟩
  · have hkeep : i ∉ (c'.detach evicted).gcReclaimable := by
      intro hmem
      have := (mem_gcReclaimable hmem).2.2.1
      rw [detach_block] at this
      exact hi this
    rw [gc_get hg, detach_get, hget]
    simp only [Option.map_some, if_neg hkeep]
    exact ⟨_, hnode, rfl⟩

theorem Evicting.final_clock (h : Evicting c req c' evicted freed) :
    (c'.detach evicted).gcOrphanTombstones.clock = c.clock := by
  rw [← h.clock]
  unfold gcOrphanTombstones
  dsimp only
  split <;> rfl

theorem Evicting.final_blockSize (h : Evicting c req c' evicted freed) :
    (c'.detach evicted).gcOrphanTombstones.blockSize = c.blockSize :=
  gc_shrunk.blockSize.trans (detach_shrunk.blockSize.trans h.blockSize)

/-- What may be taken after the call could be taken before it. -/
theorem Evicting.final_evictable (h : Evicting c req c' evicted freed) {i : Nat}
    (hi : (c'.detach evicted).gcOrphanTombstones.Evictable req i) :
    i ∉ evicted ∧ c.Evictable req i := by
  obtain ⟨b, hb⟩ := hi.block
  obtain ⟨hnot, node, children, hnode, hfinal⟩ := h.final_get (by rw [hb]; simp)
  obtain ⟨hroot, node', hnode', hmay, hfinite⟩ := hi
  obtain rfl := Option.some.inj (hfinal.symm.trans hnode')
  refine ⟨hnot, hroot, node, hnode, ?_, ?_⟩
  · unfold mayEvict at hmay ⊢
    rw [h.final_clock] at hmay
    exact hmay
  · unfold evictionCandidate at hfinite ⊢
    rw [h.final_blockSize] at hfinite
    exact hfinite

theorem matches_block {d : Nat} {tierFilter : Option Tier}
    (h : c.nodeMatchesTierFilter d tierFilter = true) : c.block d ≠ none := by
  unfold nodeMatchesTierFilter at h
  cases hnode : c.nodes[d]? with
  | none => simp [hnode] at h
  | some node =>
    simp only [hnode, Bool.and_eq_true] at h
    simpa [block, hnode, Option.isSome_iff_ne_none] using h.1

theorem Evicting.final_block (h : Evicting c req c' evicted freed) (i : Nat) :
    (c'.detach evicted).gcOrphanTombstones.block i = if i ∈ evicted then none else c.block i := by
  rw [gc_block, detach_block]
  exact h.block i

theorem Evicting.final_matches (h : Evicting c req c' evicted freed) {d : Nat}
    (hd : d ∉ evicted) (hmatch : c.nodeMatchesTierFilter d req.tierFilter = true) :
    (c'.detach evicted).gcOrphanTombstones.nodeMatchesTierFilter d req.tierFilter = true := by
  obtain ⟨-, node, children, hnode, hfinal⟩ := h.final_get (i := d) (by
    rw [h.final_block, if_neg hd]
    exact matches_block hmatch)
  unfold nodeMatchesTierFilter at hmatch ⊢
  rw [hnode] at hmatch
  rw [hfinal]
  exact hmatch

theorem Evicting.detached_child (h : Evicting c req c' evicted freed) {i j d : Nat} {t : Token}
    (hd : d ∉ evicted) (hmatch : c.nodeMatchesTierFilter d req.tierFilter = true)
    (hj : c.child i t = some j) (hbelow : c.trie.Below j d) :
    (c'.detach evicted).child i t = some j := by
  refine detach_child.mpr ⟨?_, fun hmem => hd (h.cleared j hmem _ hbelow hmatch)⟩
  rw [h.child]
  exact hj

theorem Evicting.detached_below (h : Evicting c req c' evicted freed) {a d : Nat}
    (hd : d ∉ evicted) (hmatch : c.nodeMatchesTierFilter d req.tierFilter = true)
    (hbelow : c.trie.Below a d) : (c'.detach evicted).trie.Below a d := by
  induction hbelow with
  | refl i => exact .refl i
  | step hj hrest ih => exact .step (h.detached_child hd hmatch hj hrest) (ih hd hmatch)

/-- The pointers that lead to a block of the tier that survives are kept. -/
theorem Evicting.final_child (h : Evicting c req c' evicted freed) {i j d : Nat} {t : Token}
    (hd : d ∉ evicted) (hmatch : c.nodeMatchesTierFilter d req.tierFilter = true)
    (hj : c.child i t = some j) (hbelow : c.trie.Below j d) :
    (c'.detach evicted).gcOrphanTombstones.child i t = some j := by
  have hblock : (c'.detach evicted).block d ≠ none := by
    rw [detach_block, h.block, if_neg hd]
    exact matches_block hmatch
  have hkeep : ∀ {a}, c.trie.Below a d → a ∉ (c'.detach evicted).gcReclaimable := by
    intro a ha hmem
    exact hblock (mem_gcReclaimable
      (gcReclaimable_below hmem (h.detached_below hd hmatch ha))).2.2.1
  exact gc_child.mpr ⟨h.detached_child hd hmatch hj hbelow, hkeep hbelow, hkeep (.step hj hbelow)⟩

theorem Evicting.final_below (h : Evicting c req c' evicted freed) {a d : Nat}
    (hd : d ∉ evicted) (hmatch : c.nodeMatchesTierFilter d req.tierFilter = true)
    (hbelow : c.trie.Below a d) :
    (c'.detach evicted).gcOrphanTombstones.trie.Below a d := by
  induction hbelow with
  | refl i => exact .refl i
  | step hj hrest ih => exact .step (h.final_child hd hmatch hj hrest) (ih hd hmatch)

end Left

/-! ## Evictions that are asked for everything -/

section Exhaustive

variable {c c' : RadixCache} {req : EvictRequest} {evicted : List Nat} {freed : List BlockId}

theorem Evicting.freed_length (h : Evicting c req c' evicted freed) :
    freed.length = evicted.length := by
  simpa using congrArg List.length h.freed

/-- A node that may be taken with every block of the tier below it. -/
def CascadeTakes (c : RadixCache) (req : EvictRequest) (v : Nat) : Prop :=
  c.Evictable req v ∧ ∀ d, c.trie.Below v d →
    c.nodeMatchesTierFilter d req.tierFilter = true → c.Evictable req d

theorem Evicting.takes (h : Evicting c req c' evicted freed) {v : Nat} (hv : v ∈ evicted) :
    c.CascadeTakes req v :=
  ⟨h.evictable v hv, fun d hd hmatch => h.evictable d (h.cleared v hv d hd hmatch)⟩

/-- When no victim is left, everything that a cascade can take is taken. -/
theorem Evicting.takes_all (h : Evicting c req c' evicted freed) (hs : c.Sound)
    (hnone : c'.policyVictim req evicted = none) {v : Nat} (hv : c.CascadeTakes req v) :
    v ∈ evicted := by
  by_contra hnot
  -- a node of the longest chain that is left has nothing of the tier below it
  obtain ⟨rank, hrank⟩ := hs.tree.ranked
  have hbelow : ∀ {i j}, c.trie.Below i j → rank i ≤ rank j := by
    intro i j hij
    induction hij with
    | refl => exact Nat.le_refl _
    | step hj _ ih => exact Nat.le_trans (Nat.le_of_lt (hrank _ _ _ hj)) ih
  obtain ⟨bound, hbound⟩ : ∃ bound, ∀ i < c.nodes.length, rank i ≤ bound :=
    ⟨(Finset.range c.nodes.length).sup rank, fun i hi =>
      Finset.le_sup (f := rank) (Finset.mem_range.mpr hi)⟩
  induction hmeasure : bound - rank v using Nat.strongRecOn generalizing v with
  | ind measure ih =>
    obtain ⟨t, j, d, hj, hd, hmatch, hleft⟩ := h.maximal hs hnone hnot hv.1
    have hvd : c.trie.Below v d := .step hj hd
    have hlt : rank v < rank d := Nat.lt_of_lt_of_le (hrank _ _ _ hj) (hbelow hd)
    have hle := hbound d (lt_length_of_block (matches_block hmatch))
    refine ih (bound - rank d) (by omega) (v := d) ⟨hv.2 d hvd hmatch, fun e he => ?_⟩ hleft rfl
    exact hv.2 e (hvd.trans he)

/-- The slots that hold a block. -/
def blockSlots (c : RadixCache) : List Nat :=
  (c.nodes.zipIdx.filter fun p => p.1.blockId.isSome).map Prod.snd

theorem length_blockSlots (c : RadixCache) : c.blockSlots.length = c.cachedBlockCount := by
  rw [blockSlots, cachedBlockCount, List.length_map]
  conv_rhs => rw [← List.zipIdx_map_fst 0 c.nodes]
  rw [List.filter_map, List.length_map]
  rfl

theorem mem_blockSlots {c : RadixCache} {i : Nat} (hi : c.block i ≠ none) :
    i ∈ c.blockSlots := by
  obtain ⟨b, hb⟩ := Option.ne_none_iff_exists'.mp hi
  obtain ⟨node, hnode, hblock⟩ := block_eq_some.mp hb
  refine List.mem_map.mpr ⟨(node, i), List.mem_filter.mpr ⟨?_, by simp [hblock]⟩, rfl⟩
  exact List.mem_zipIdx_iff_getElem?.mpr hnode

/-- A call that is asked for as many blocks as there are takes exactly what a cascade can
take. -/
theorem Evicting.taken_iff (h : Evicting c req c' evicted freed) (hs : c.Sound) {n : Nat}
    (hn : c.cachedBlockCount ≤ n) (hend : freed.length < n → c'.policyVictim req evicted = none)
    {v : Nat} : v ∈ evicted ↔ c.CascadeTakes req v := by
  refine ⟨h.takes, fun hv => ?_⟩
  by_cases hfew : freed.length < n
  · exact h.takes_all hs (hend hfew) hv
  · -- every block is taken
    have hsub : evicted ⊆ c.blockSlots := by
      intro i hi
      obtain ⟨b, hb⟩ := (h.evictable i hi).block
      exact mem_blockSlots (by rw [hb]; simp)
    have hperm := (h.nodup.subperm hsub).perm_of_length_le (by
      rw [length_blockSlots, ← h.freed_length]
      omega)
    obtain ⟨b, hb⟩ := hv.1.block
    exact hperm.mem_iff.mpr (mem_blockSlots (by rw [hb]; simp))

end Exhaustive

/-! ## The law -/

/-- What the call promises of a block that it takes. -/
structure Eligible (c : RadixCache) (req : EvictRequest) (node : Node) : Prop where
  unexcluded : ∀ excluded, req.excludedBlocks = some excluded →
    ∀ b, node.blockId = some b → b ∉ excluded
  tier : ∀ tier, req.tierFilter = some tier →
    node.tierLocation.map KvTier.BlockLocation.tier = some tier
  unpinned : node.refCount = 0
  ready : node.entryState = .ready
  pin : selectionPinActive node req.tierFilter req.intent c.clock = false

/-- Spilling and draining also leave a block alone while it is being stored. -/
def Storable (req : EvictRequest) (node : Node) : Prop :=
  req.intent = .evict ∨ node.storeState = .idle ∨ node.storeState = .failed

theorem tierAccepts_iff {tierFilter : Option Tier} {location : Option KvTier.BlockLocation} :
    tierAccepts tierFilter location = true ↔
      ∀ tier, tierFilter = some tier → location.map KvTier.BlockLocation.tier = some tier := by
  cases tierFilter with
  | none => simp [tierAccepts]
  | some tier => simp [tierAccepts]

theorem mayEvict_iff {c : RadixCache} {req : EvictRequest} {node : Node} :
    c.mayEvict req node = true ↔ node.blockId ≠ none ∧ c.Eligible req node ∧ Storable req node := by
  unfold mayEvict
  cases hb : node.blockId with
  | none => simp
  | some b =>
    simp only [Bool.and_eq_true, Bool.or_eq_true, Bool.not_eq_true', decide_eq_true_eq,
      tierAccepts_iff, Storable]
    constructor
    · rintro ⟨⟨⟨⟨⟨hexcl, hrefs⟩, htier⟩, hpin⟩, hready⟩, hstore⟩
      refine ⟨by simp, ⟨fun excluded he b' hb' => ?_, htier, hrefs, hready, hpin⟩, ?_⟩
      · rw [hb, Option.some.injEq] at hb'
        rw [he] at hexcl
        simpa [hb'] using hexcl
      · rwa [← or_assoc]
    · rintro ⟨-, hel, hstore⟩
      refine ⟨⟨⟨⟨⟨?_, hel.unpinned⟩, hel.tier⟩, hel.pin⟩, hel.ready⟩, or_assoc.mpr hstore⟩
      cases he : req.excludedBlocks with
      | none => rfl
      | some excluded => simpa using hel.unexcluded excluded he b hb

/-- The score that the policy gives a node is finite. -/
def FiniteScore (c : RadixCache) (req : EvictRequest) (node : Node) : Prop :=
  (req.policy.score (c.evictionCandidate node) req.signals).isFinite = true

section Law

variable {c c' : RadixCache} {req : EvictRequest} {evicted : List Nat} {freed : List BlockId}

/-- Distinct nodes hold distinct blocks, so no block is freed twice. -/
theorem Evicting.freed_nodup (h : Evicting c req c' evicted freed)
    (hindex : Indexes c.blockIndex c.block) : freed.Nodup := by
  refine List.Nodup.of_map some ?_
  rw [h.freed]
  refine h.nodup.map_on fun i hi j _ hij => ?_
  obtain ⟨b, hb⟩ := (h.evictable i hi).block
  exact hindex.slot_unique hb (hij ▸ hb)

theorem Evicting.freed_safe (h : Evicting c req c' evicted freed) {b : BlockId}
    (hb : b ∈ freed) : ∃ i node, c.nodes[i]? = some node ∧ node.blockId = some b ∧
      c.Eligible req node ∧ ∀ d, c.trie.Below i d →
        c.nodeMatchesTierFilter d req.tierFilter = true →
        (c'.detach evicted).gcOrphanTombstones.block d = none := by
  have hmem : some b ∈ evicted.map c.block := h.freed ▸ List.mem_map_of_mem hb
  obtain ⟨i, hi, hblock⟩ := List.mem_map.mp hmem
  obtain ⟨-, node, hnode, hmay, -⟩ := h.evictable i hi
  obtain ⟨node', hnode', hb'⟩ := block_eq_some.mp hblock
  obtain rfl := Option.some.inj (hnode.symm.trans hnode')
  refine ⟨i, node, hnode, hb', (mayEvict_iff.mp hmay).2.1, fun d hd hmatch => ?_⟩
  rw [h.final_block, if_pos (h.cleared i hi d hd hmatch)]

end Law

/-- The call returns at most `n` distinct blocks that were eligible, and no block of the tier
survives below one of them; if it returns fewer, every remaining block that may be taken still
has a block of the tier below it. -/
theorem evict_safe_maximal {c : RadixCache} (hs : c.Sound)
    (hindex : Indexes c.blockIndex c.block) (req : EvictRequest) (n : Nat) :
    (c.evictWithPolicyForIntentExcluding req n).1.length ≤ n ∧
    (c.evictWithPolicyForIntentExcluding req n).1.Nodup ∧
    (∀ b ∈ (c.evictWithPolicyForIntentExcluding req n).1, ∃ i node,
      c.nodes[i]? = some node ∧ node.blockId = some b ∧ c.Eligible req node ∧
        ∀ d, c.trie.Below i d → c.nodeMatchesTierFilter d req.tierFilter = true →
          (c.evictWithPolicyForIntentExcluding req n).2.block d = none) ∧
    ((c.evictWithPolicyForIntentExcluding req n).1.length < n → ∀ i node,
      (c.evictWithPolicyForIntentExcluding req n).2.nodes[i]? = some node →
      node.blockId ≠ none → (c.evictWithPolicyForIntentExcluding req n).2.Eligible req node →
      Storable req node → (c.evictWithPolicyForIntentExcluding req n).2.FiniteScore req node →
      ∃ t j d, (c.evictWithPolicyForIntentExcluding req n).2.child i t = some j ∧
        (c.evictWithPolicyForIntentExcluding req n).2.trie.Below j d ∧
        (c.evictWithPolicyForIntentExcluding req n).2.nodeMatchesTierFilter d req.tierFilter =
          true) := by
  by_cases hn : n = 0
  · subst hn
    rw [evictWithPolicyForIntentExcluding, evictBy_zero]
    exact ⟨Nat.le_refl 0, List.nodup_nil, by simp, fun h => absurd h (Nat.lt_irrefl 0)⟩
  · have h := taken_evicting c req n
    have hroot : (c.evictBy (fun c evicted => c.policyVictim req evicted) n).2.block root = none :=
      (evictBy_sound hs).root_block
    obtain ⟨hle, hend⟩ := policyLoop_end c req n
    rw [evictWithPolicyForIntentExcluding]
    rw [evictBy_eq hn] at hroot ⊢
    refine ⟨hle, h.freed_nodup hindex, fun b hb => h.freed_safe hb, ?_⟩
    intro hfew i node hnode hblock hel hstore hfinite
    have hi : ((c.taken (fun c evicted => c.policyVictim req evicted) n).1.detach
        (c.taken (fun c evicted => c.policyVictim req evicted) n).2.1).gcOrphanTombstones.Evictable
          req i := by
      refine ⟨?_, node, hnode, mayEvict_iff.mpr ⟨hblock, hel, hstore⟩, hfinite⟩
      rintro rfl
      apply hblock
      simpa [block, hnode] using hroot
    obtain ⟨hnot, he⟩ := h.final_evictable hi
    obtain ⟨t, j, d, hj, hd, hmatch, hsurvives⟩ := h.maximal hs (hend hfew) hnot he
    exact ⟨t, j, d, h.final_child hsurvives hmatch hj hd, h.final_below hsurvives hmatch hd,
      h.final_matches hsurvives hmatch⟩

/-- A request for any block, with a policy that ranks all blocks the same. -/
def anyBlock (intent : BlockSelectionIntent) : EvictRequest where
  policy := ⟨fun _ _ => ⟨0⟩⟩
  signals := {}
  tierFilter := none
  intent := intent
  excludedBlocks := none

/-- A cache of one block, which is being stored. -/
theorem storingBlock : ∃ c₀ c₁ : RadixCache, new 1 = some c₀ ∧
    c₀.insertWithFingerprints [1] [⟨7⟩] [⟨0⟩] = some (1, c₁) ∧
    (c₁.setBlockStoreState ⟨7⟩ .storing).2.Indexed := by
  obtain ⟨c₀, hc₀⟩ : ∃ c, new 1 = some c := ⟨_, rfl⟩
  obtain ⟨c₁, hc₁⟩ : ∃ c₁, c₀.insertWithFingerprints [1] [⟨7⟩] [⟨0⟩] = some (1, c₁) := by
    cases hc₀
    exact ⟨_, rfl⟩
  refine ⟨c₀, c₁, hc₀, hc₁, Indexed.metadata (Indexed.insert (indexed_new hc₀) ?_ ⟨?_, ?_⟩ hc₁)
    (.setStoreState ⟨7⟩ .storing)⟩
  · rw [new_freeNodes hc₀]
    exact List.nodup_nil
  · exact (List.nodup_singleton _).sublist (List.take_sublist _ _)
  · intro k b _ _
    exact Or.inr fun i => by rw [new_block hc₀]; simp

/-- A cache of two blocks, one below the other. -/
theorem chainedBlocks : ∃ c₀ c : RadixCache, new 1 = some c₀ ∧
    c₀.insertWithFingerprints [1, 2] [⟨7⟩, ⟨8⟩] [⟨0⟩, ⟨0⟩] = some (2, c) ∧ c.Indexed := by
  obtain ⟨c₀, hc₀⟩ : ∃ c, new 1 = some c := ⟨_, rfl⟩
  obtain ⟨c, hc⟩ : ∃ c, c₀.insertWithFingerprints [1, 2] [⟨7⟩, ⟨8⟩] [⟨0⟩, ⟨0⟩] = some (2, c) := by
    cases hc₀
    exact ⟨_, rfl⟩
  refine ⟨c₀, c, hc₀, hc, Indexed.insert (indexed_new hc₀) ?_ ⟨?_, ?_⟩ hc⟩
  · rw [new_freeNodes hc₀]
    exact List.nodup_nil
  · exact (show [BlockId.mk 7, ⟨8⟩].Nodup by decide).sublist (List.take_sublist _ _)
  · intro k b _ _
    exact Or.inr fun i => by rw [new_block hc₀]; simp

/-- An eviction of one block takes the lower one and leaves the upper one; an eviction of three
takes both. -/
theorem evict_safe_maximal_two : ∃ c : RadixCache, c.block 1 = some ⟨7⟩ ∧ c.block 2 = some ⟨8⟩ ∧
    (c.evictWithPolicyForIntentExcluding (anyBlock .evict) 1).1 = [⟨8⟩] ∧
    (c.evictWithPolicyForIntentExcluding (anyBlock .evict) 1).2.block 1 = some ⟨7⟩ ∧
    (c.evictWithPolicyForIntentExcluding (anyBlock .evict) 1).1.length ≤ 1 ∧
    (c.evictWithPolicyForIntentExcluding (anyBlock .evict) 3).1 = [⟨8⟩, ⟨7⟩] ∧
    (c.evictWithPolicyForIntentExcluding (anyBlock .evict) 3).1.Nodup := by
  obtain ⟨c₀, c, hc₀, hc, hindexed⟩ := chainedBlocks
  have hone := evict_safe_maximal hindexed.sound hindexed.index (anyBlock .evict) 1
  have hthree := evict_safe_maximal hindexed.sound hindexed.index (anyBlock .evict) 3
  refine ⟨c, ?_, ?_, ?_, ?_, hone.1, ?_, hthree.2.1⟩ <;>
  · cases hc₀
    cases hc
    decide +kernel

/-- A spill leaves the block alone while it is being stored, though it is eligible and has
nothing below it. An id that is inserted for two nodes is returned twice. -/
theorem spill_leaves_storing : (∃ c : RadixCache, ∃ node, c.Indexed ∧
    (c.evictWithPolicyForIntentExcluding (anyBlock .spill) 1).1 = [] ∧
    (c.evictWithPolicyForIntentExcluding (anyBlock .spill) 1).2.nodes[1]? = some node ∧
    node.blockId = some ⟨7⟩ ∧
    (c.evictWithPolicyForIntentExcluding (anyBlock .spill) 1).2.Eligible (anyBlock .spill) node ∧
    (c.evictWithPolicyForIntentExcluding (anyBlock .spill) 1).2.FiniteScore (anyBlock .spill)
      node ∧
    node.children.entries = []) ∧
    ∃ c₀ c₁ c₂ : RadixCache, new 1 = some c₀ ∧
      c₀.insertWithFingerprints [1] [⟨7⟩] [⟨0⟩] = some (1, c₁) ∧
      c₁.insertWithFingerprints [2] [⟨7⟩] [⟨0⟩] = some (1, c₂) ∧
      (c₂.evictWithPolicyForIntentExcluding (anyBlock .evict) 2).1 = [⟨7⟩, ⟨7⟩] := by
  refine ⟨?_, _, _, _, rfl, rfl, rfl, by decide +kernel⟩
  obtain ⟨c₀, c₁, hc₀, hc₁, hindexed⟩ := storingBlock
  obtain ⟨hnil, node, hnode, hblock, hrefs, hready, hpin, hchildren⟩ :
      ((c₁.setBlockStoreState ⟨7⟩ .storing).2.evictWithPolicyForIntentExcluding
        (anyBlock .spill) 1).1 = [] ∧
      ∃ node, ((c₁.setBlockStoreState ⟨7⟩ .storing).2.evictWithPolicyForIntentExcluding
        (anyBlock .spill) 1).2.nodes[1]? = some node ∧ node.blockId = some ⟨7⟩ ∧
        node.refCount = 0 ∧ node.entryState = .ready ∧ node.softPinUntil = none ∧
        node.children.entries = [] := by
    cases hc₀
    cases hc₁
    exact ⟨by decide +kernel, _, rfl, rfl, rfl, rfl, rfl, rfl⟩
  refine ⟨_, node, hindexed, hnil, hnode, hblock, ?_,
    show F32.isFinite ⟨0⟩ = true by decide, hchildren⟩
  exact
    { unexcluded := fun _ h => by cases h
      tier := fun _ h => by cases h
      unpinned := hrefs
      ready := hready
      pin := by simp [selectionPinActive, anyBlock, hpin, pinActive] }

end Arle.PrefixCache.RadixCache
