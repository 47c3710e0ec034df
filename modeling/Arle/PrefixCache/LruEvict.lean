import Mathlib
import Arle.PrefixCache.Index

/-!
# Evictions in LRU order, and what they leave to lookups and insertions

`evict` looks at the blocks of all tiers, so a victim has no block below it that is not a victim
itself. Every prefix of a kept path keeps its block, and what is left is again an indexed cache.
A lookup of such a cache pins blocks and changes nothing else, and an insertion behind the cached
windows of a word adds the other windows.
-/

namespace Arle.PrefixCache.RadixCache

open KvTier WindowMap

theorem nodeMatchesTierFilter_none {c : RadixCache} {i : Nat} :
    c.nodeMatchesTierFilter i none = true ↔ c.block i ≠ none := by
  unfold nodeMatchesTierFilter RadixCache.block
  cases c.nodes[i]? with
  | none => simp
  | some node =>
    cases hblock : node.blockId with
    | none => simp [hblock]
    | some b => simp [hblock, tierAccepts]

theorem lruVictim_some {c : RadixCache} {evicted : List Nat} {v : Nat}
    (h : c.lruVictim evicted = some v) :
    v ∉ evicted ∧ (∃ b, c.block v = some b) ∧
      c.nodeIsActiveLeafForTier v none evicted = true := by
  obtain ⟨⟨k, i⟩, hbest, rfl⟩ := Option.map_eq_some_iff.mp h
  obtain ⟨node, hnode, hk⟩ := scanBest_some hbest
  unfold lruCandidate at hk
  split at hk
  · cases hk
  · rename_i hfresh
    split at hk
    · cases hk
    · rename_i hblock
      split at hk
      · rename_i hleaf
        push Not at hfresh hblock
        obtain ⟨b, hb⟩ := Option.ne_none_iff_exists'.mp
          (fun hnone => hblock.2 (Option.isNone_iff_eq_none.mpr hnone))
        exact ⟨hfresh.2, ⟨b, block_eq_some.mpr ⟨node, hnode, hb⟩⟩, hleaf⟩
      · cases hk

/-- After some rounds from the cache `c` the blocks `freed` of the nodes `evicted` are taken, and
all blocks below them. -/
structure Clearing (c c' : RadixCache) (evicted : List Nat) (freed : List BlockId) : Prop where
  child : c'.child = c.child
  edge : c'.edge = c.edge
  block : ∀ i, c'.block i = if i ∈ evicted then none else c.block i
  nodup : evicted.Nodup
  cleared : ∀ v ∈ evicted, ∀ d, c.trie.Below v d → c.block d ≠ none → d ∈ evicted
  freed : freed.map some = evicted.map c.block
  index : Indexes c.blockIndex c.block → Indexes c'.blockIndex c'.block

section Clearing

variable {c c' c'' : RadixCache} {evicted : List Nat} {freed : List BlockId} {v : Nat} {b : BlockId}

theorem Clearing.start (c : RadixCache) : Clearing c c [] [] where
  child := rfl
  edge := rfl
  block := fun _ => by rw [if_neg List.not_mem_nil]
  nodup := List.nodup_nil
  cleared := fun _ hv => by cases hv
  freed := rfl
  index := id

theorem Clearing.trie (h : Clearing c c' evicted freed) : c'.trie = c.trie := by
  simp only [RadixCache.trie, h.child, h.edge]

theorem Clearing.step (h : Clearing c c' evicted freed) (hv : c'.lruVictim evicted = some v)
    (ht : c'.Taken v b c'') : Clearing c c'' (evicted ++ [v]) (freed ++ [b]) := by
  obtain ⟨hfresh, -, hleaf⟩ := lruVictim_some hv
  have hblock : c.block v = some b := by
    have hhad := ht.had
    rwa [h.block, if_neg hfresh] at hhad
  refine ⟨ht.child.trans h.child, ht.edge.trans h.edge, ?_, ?_, ?_, ?_, ?_⟩
  · intro i
    rw [ht.block, Function.update_apply, h.block]
    by_cases hi : i = v
    · simp [hi]
    · simp [hi]
  · apply List.nodup_append'.mpr
    exact ⟨h.nodup, List.nodup_singleton v, List.disjoint_singleton.mpr hfresh⟩
  · intro i hi d hd hblockd
    rcases List.mem_append.mp hi with hi | hi
    · exact List.mem_append_left _ (h.cleared i hi d hd hblockd)
    · rw [List.mem_singleton.mp hi] at hd
      rcases hd.cases_child with rfl | ⟨t, j, hj, hjd⟩
      · exact List.mem_append_right _ List.mem_cons_self
      · apply List.mem_append_left
        have hj' : c'.child v t = some j := by
          rw [h.child]
          exact hj
        by_contra hnot
        -- Below an active leaf every block lies below a victim.
        rcases activeLeaf_clear hleaf hj' (h.trie.symm ▸ hjd) with hclear | ⟨s, hs, hsd⟩
        · have hmatch := nodeMatchesTierFilter_none.mpr
            (show c'.block d ≠ none by rw [h.block, if_neg hnot]; exact hblockd)
          rw [hclear] at hmatch
          cases hmatch
        · exact hnot (h.cleared s hs d (h.trie ▸ hsd) hblockd)
  · rw [List.map_append, List.map_append, h.freed, List.map_singleton, List.map_singleton, hblock]
  · intro hindex
    rw [ht.index, ht.block]
    exact (h.index hindex).erase ht.had

/-- The whole victim loop. -/
theorem taken_clearing (c : RadixCache) (n : Nat) :
    Clearing c (c.taken lruVictim n).1 (c.taken lruVictim n).2.1 (c.taken lruVictim n).2.2 := by
  refine evictLoop_invariant (P := Clearing c) (fun h hv ht => h.step hv ht) ?_ (Clearing.start c)
  intro c' evicted freed v _ hv hnone
  obtain ⟨-, ⟨b, hb⟩, -⟩ := lruVictim_some hv
  rw [hnone] at hb
  cases hb

end Clearing

/-- What an eviction leaves of an indexed cache: the freed blocks are gone, and with each block
that stays its prefixes stay. -/
structure EvictOutcome (c : RadixCache) (freed : List BlockId) (c' : RadixCache) : Prop where
  indexed : c'.Indexed
  blockSize : c'.blockSize = c.blockSize
  holds : ∀ p b, c'.Holds p b ↔ c.Holds p b ∧ b ∉ freed
  nodup : freed.Nodup
  held : ∀ b ∈ freed, ∃ p, c.Holds p b
  kept : ∀ p b, c'.Holds p b → ∀ q b', q <+: p → c.Holds q b' → b' ∉ freed

/-- An eviction from an indexed cache. -/
theorem Indexed.evictLru {c : RadixCache} (h : c.Indexed) (n : Nat) :
    EvictOutcome c (c.evict n).1 (c.evict n).2 := by
  by_cases hn : n = 0
  · rw [RadixCache.evict, hn, evictBy_zero]
    refine ⟨h, rfl, fun p b => ?_, List.nodup_nil, fun b hb => (by cases hb),
      fun _ _ _ _ _ _ _ => List.not_mem_nil⟩
    exact ⟨fun hb => ⟨hb, List.not_mem_nil⟩, fun hb => hb.1⟩
  have hC := taken_clearing c n
  have hshrunk : Shrunk c (c.evict n).2 := evictBy_shrunk
  have hsound : (c.evict n).2.Sound := evictBy_sound h.sound
  rw [RadixCache.evict, evictBy_eq hn] at hshrunk hsound ⊢
  dsimp only at hshrunk hsound ⊢
  generalize c.taken lruVictim n = r at hC hshrunk hsound ⊢
  obtain ⟨c₁, evicted, freed⟩ := r
  dsimp only at hC hshrunk hsound ⊢
  have hswept : Swept c c₁ evicted := ⟨hC.trie, hC.block, hC.cleared, hC.index h.index⟩
  -- A node is a victim exactly if its block is freed.
  have hfreed : ∀ {i b}, c.block i = some b → (b ∈ freed ↔ i ∈ evicted) := by
    intro i b hb
    constructor
    · intro hin
      have hmem := List.mem_map_of_mem (f := some) hin
      rw [hC.freed] at hmem
      obtain ⟨j, hj, hjb⟩ := List.mem_map.mp hmem
      exact h.index.slot_unique hjb hb ▸ hj
    · intro hin
      have hmem := List.mem_map_of_mem (f := c.block) hin
      rw [← hC.freed, hb] at hmem
      obtain ⟨b', hb', heq⟩ := List.mem_map.mp hmem
      exact Option.some.inj heq ▸ hb'
  have hholds : ∀ p b, (c₁.detach evicted).gcOrphanTombstones.Holds p b ↔
      c.Holds p b ∧ b ∉ freed := by
    intro p b
    constructor
    · rintro ⟨i, hi, hb⟩
      rw [hswept.block_left] at hb
      split at hb
      · cases hb
      · rename_i hie
        exact ⟨⟨i, hshrunk.prunes.reaches hi, hb⟩, fun hin => hie ((hfreed hb).mp hin)⟩
    · rintro ⟨⟨i, hi, hb⟩, hnot⟩
      have hie : i ∉ evicted := fun hin => hnot ((hfreed hb).mpr hin)
      refine ⟨i, hswept.reaches hi (by rw [hb]; simp) hie, ?_⟩
      rw [hswept.block_left, if_neg hie, hb]
  refine ⟨hswept.indexed h hshrunk hsound, hshrunk.blockSize, hholds, ?_, ?_, ?_⟩
  · -- The freed blocks are those of different nodes.
    apply List.Nodup.of_map some
    rw [hC.freed]
    apply List.Nodup.map_on _ hC.nodup
    intro i hi j hj heq
    have hmem := List.mem_map_of_mem (f := c.block) hi
    rw [← hC.freed] at hmem
    obtain ⟨b, _, hb⟩ := List.mem_map.mp hmem
    exact h.index.slot_unique hb.symm (heq ▸ hb.symm)
  · intro b hb
    have hmem := List.mem_map_of_mem (f := some) hb
    rw [hC.freed] at hmem
    obtain ⟨i, _, hi⟩ := List.mem_map.mp hmem
    obtain ⟨p, hp⟩ := h.reached hi
    exact ⟨p, i, hp, hi⟩
  · rintro p b hb q b' hqp ⟨j, hj, hjb⟩ hin
    obtain ⟨⟨i, hi, hib⟩, hnot⟩ := (hholds p b).mp hb
    have hje := (hfreed hjb).mp hin
    have hbelow : c.trie.Below j i := by
      obtain ⟨js, hjs, hlast, -⟩ := hj.chain_of_prefix h.sound.tree hi hqp
      exact hlast ▸ hjs.below_last
    exact hnot ((hfreed hib).mpr (hC.cleared j hje i hbelow (by rw [hib]; simp)))

/-! ## Lookups and insertions of an indexed cache -/

section Serve

variable {c : RadixCache} {q : List Token}

/-- A write that touches no block. -/
structure Untouched (c c' : RadixCache) : Prop where
  indexed : c'.Indexed
  blockSize : c'.blockSize = c.blockSize
  free : c'.freeNodes = c.freeNodes
  index : c'.blockIndex = c.blockIndex
  holds : ∀ p b, c'.Holds p b ↔ c.Holds p b

theorem Indexed.untouched {c' : RadixCache} (h : c.Indexed) (hshape : SameShape c c')
    (hs : c'.Sound) : Untouched c c' where
  indexed := h.sameShape hshape hs
  blockSize := hshape.blockSize
  free := hshape.free
  index := hshape.index
  holds := fun _ _ => hshape.holds

theorem Indexed.lookupLongest (h : c.Indexed) (q : List Token) :
    ∃ k blocks c', IsGreatest {k | WindowMap.Covered c.blockSize c.windowMap q k} k ∧
      c.lookup q = some ((k * c.blockSize, blocks), c') ∧ blocks.length = k ∧
      (∀ i < k, blocks[i]? = c.windowMap (q.take ((i + 1) * c.blockSize))) ∧ Untouched c c' := by
  obtain ⟨k, blocks, c', hk, hlookup, hlen, hblocks⟩ :=
    lookup_unbroken h.sound (h.unbroken q) fun p b => h.sound.holds_iff
  obtain ⟨js, hw⟩ := RadixTree.exists_walk h.sound.tree root q
  obtain ⟨c₁, hc₁, hpin⟩ := lookup_spec h.sound hw
  obtain rfl : c₁ = c' := (Prod.mk.inj (Option.some.inj (hc₁.symm.trans hlookup))).2
  exact ⟨k, blocks, c₁, hk, hlookup, hlen, hblocks,
    h.untouched hpin.toSameShape (hpin.sound h.sound)⟩

theorem Indexed.releaseUntouched (h : c.Indexed) (blocks : List BlockId) :
    Untouched c (c.release blocks) :=
  h.untouched (release_sameShape c blocks) (release_sound h.sound blocks)

theorem Untouched.trans {c' c'' : RadixCache} (h : Untouched c c') (h' : Untouched c' c'') :
    Untouched c c'' where
  indexed := h'.indexed
  blockSize := h'.blockSize.trans h.blockSize
  free := h'.free.trans h.free
  index := h'.index.trans h.index
  holds := fun p b => (h'.holds p b).trans (h.holds p b)

/-- A block is held at one path only. -/
theorem Indexed.path_unique (h : c.Indexed) {p p' : List Token} {b : BlockId} (hp : c.Holds p b)
    (hp' : c.Holds p' b) : p = p' := by
  obtain ⟨i, hi, hib⟩ := hp
  obtain ⟨j, hj, hjb⟩ := hp'
  rw [h.index.slot_unique hib hjb] at hi
  exact RadixTree.reaches_path_unique h.sound.tree hi hj

/-- An insertion behind the `k` cached windows of a word. -/
theorem Indexed.insertBehind (h : c.Indexed) (hnodup : c.freeNodes.Nodup) {k n : Nat}
    {blocks : List BlockId} {fps : List BlockFingerprint} (hfps : blocks.length = fps.length)
    (hq : q.length = n * c.blockSize) (hlen : blocks.length = n)
    (hold : ∀ i b, i < k → blocks[i]? = some b → c.Holds (q.take ((i + 1) * c.blockSize)) b)
    (hnone : ∀ i b, k ≤ i → i < n → ¬ c.Holds (q.take ((i + 1) * c.blockSize)) b)
    (hdistinct : (blocks.drop k).Nodup) (hfresh : ∀ b ∈ blocks.drop k, ∀ p, ¬ c.Holds p b) :
    ∃ r, c.insertWithFingerprints q blocks fps = some r ∧ r.2.Indexed ∧
      r.2.blockSize = c.blockSize ∧ r.2.freeNodes.Nodup ∧
      ∀ p b, r.2.Holds p b ↔ c.Holds p b ∨
        ∃ i, k ≤ i ∧ p = q.take ((i + 1) * c.blockSize) ∧ blocks[i]? = some b := by
  have hbs := h.sound.blockSize_pos
  have hcount : q.length / c.blockSize = n := by rw [hq, Nat.mul_div_cancel _ hbs]
  have hfit : ∀ {i}, i < n → (i + 1) * c.blockSize ≤ q.length := by
    intro i hi
    rw [hq]
    exact Nat.mul_le_mul_right _ hi
  have hlt : ∀ {i b}, blocks[i]? = some b → i < n := by
    intro i b hb
    exact hlen ▸ (List.getElem?_eq_some_iff.mp hb).1
  have hdrop : ∀ {i b}, k ≤ i → blocks[i]? = some b → b ∈ blocks.drop k := by
    intro i b hi hb
    rw [← Nat.add_sub_cancel' hi, ← List.getElem?_drop] at hb
    exact List.mem_of_getElem? hb
  have hblocks : blocks.Nodup := by
    apply List.nodup_iff_getElem?_ne_getElem?.mpr
    intro i j hij hj heq
    have hj' := List.getElem?_eq_getElem hj
    rw [hj'] at heq
    by_cases hik : i < k
    · by_cases hjk : j < k
      · have hsame := h.path_unique (hold i _ hik heq) (hold j _ hjk hj')
        have := take_window_inj hbs (hfit (hlt heq)) (hfit (hlt hj')) hsame
        omega
      · exact hfresh _ (hdrop (Nat.not_lt.mp hjk) hj') _ (hold i _ hik heq)
    · have hki := Nat.not_lt.mp hik
      have hi' : (blocks.drop k)[i - k]? = some blocks[j] := by
        rw [List.getElem?_drop, Nat.add_sub_cancel' hki]
        exact heq
      have hjd : (blocks.drop k)[j - k]? = some blocks[j] := by
        rw [List.getElem?_drop, Nat.add_sub_cancel' (hki.trans hij.le)]
        exact hj'
      have := (List.getElem?_inj (List.getElem?_eq_some_iff.mp hi').1 hdistinct).mp
        (hi'.trans hjd.symm)
      omega
  have hfreshIds : FreshIds c q blocks := by
    refine ⟨?_, ?_⟩
    · rw [hcount, ← hlen, List.take_length]
      exact hblocks
    · intro i b _ hb
      by_cases hik : i < k
      · exact .inl (hold i b hik hb)
      · refine .inr fun m hm => ?_
        obtain ⟨p, hp⟩ := h.reached hm
        exact hfresh b (hdrop (Nat.not_lt.mp hik) hb) p ⟨m, hp, hm⟩
  obtain ⟨c', hc', hholds⟩ := insert_unbroken h.sound hnodup hfps (h.unbroken _)
    fun p b => h.sound.holds_iff
  obtain ⟨-, hnodup', hsize'⟩ := insertWithFingerprints_sound h.sound hnodup hc'
  refine ⟨_, hc', h.insert hnodup hfreshIds hc', hsize', hnodup', fun p b => ?_⟩
  rw [hholds]
  unfold record
  rw [hcount, hlen, Nat.min_self]
  by_cases hwindow : ∃ i < n, p = q.take ((i + 1) * c.blockSize)
  · obtain ⟨i, hi, rfl⟩ := hwindow
    rw [recordWindows_window hbs hi hq.ge]
    constructor
    · intro hb
      by_cases hik : i < k
      · exact .inl (hold i b hik hb)
      · exact .inr ⟨i, Nat.not_lt.mp hik, rfl, hb⟩
    · rintro (hb | ⟨j, _, hsame, hb⟩)
      · by_cases hik : i < k
        · obtain ⟨b', hb'⟩ : ∃ b', blocks[i]? = some b' :=
            ⟨_, List.getElem?_eq_getElem (hlen.symm ▸ hi)⟩
          have hb'' := h.sound.holds_iff.mp (hold i b' hik hb')
          rw [h.sound.holds_iff.mp hb] at hb''
          rw [hb', Option.some.inj hb'']
        · exact absurd hb (hnone i b (Nat.not_lt.mp hik) hi)
      · rw [take_window_inj hbs (hfit hi) (hfit (hlt hb)) hsame]
        exact hb
  · push Not at hwindow
    rw [recordWindows_other hwindow, ← h.sound.holds_iff]
    refine ⟨.inl, fun hor => hor.resolve_right ?_⟩
    rintro ⟨i, _, hsame, hb⟩
    exact hwindow i (hlt hb) hsame

end Serve

end Arle.PrefixCache.RadixCache
