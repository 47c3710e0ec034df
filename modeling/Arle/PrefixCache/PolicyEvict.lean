import Arle.Lib.ReverseIndex
import Arle.PrefixCache.EvictSpec

/-!
# Evictions by policy

What `evict_with_policy_for_intent_excluding` takes: `Evicting` relates the cache at the
start of the victim loop to the cache after some rounds. Every victim passes the checks on
the cache at the start, and whatever block of the filtered tier lies below a victim is taken
with it.
-/

namespace Arle.PrefixCache.RadixCache

open KvTier Scheduler

/-- A node that passes the checks of the eviction and that the policy gives a finite score. -/
def Evictable (c : RadixCache) (req : EvictRequest) (i : Nat) : Prop :=
  i ≠ root ∧ ∃ node, c.nodes[i]? = some node ∧ c.mayEvict req node = true ∧
    (req.policy.score (c.evictionCandidate node) req.signals).isFinite = true

section PolicyVictim

variable {c c' : RadixCache} {req : EvictRequest} {evicted : List Nat} {v : Nat}

theorem mayEvict_block {node : Node} (h : c.mayEvict req node = true) :
    ∃ b, node.blockId = some b := by
  unfold mayEvict at h
  split at h
  · cases h
  · exact ⟨_, by assumption⟩

theorem mayEvict_accepted {node : Node} (h : c.mayEvict req node = true) :
    tierAccepts req.tierFilter node.tierLocation = true := by
  unfold mayEvict at h
  split at h
  · cases h
  · simp only [Bool.and_eq_true] at h
    exact h.1.1.1.2

theorem Evictable.block (h : c.Evictable req v) : ∃ b, c.block v = some b := by
  obtain ⟨-, node, hnode, hmay, -⟩ := h
  obtain ⟨b, hb⟩ := mayEvict_block hmay
  exact ⟨b, block_eq_some.mpr ⟨node, hnode, hb⟩⟩

theorem policyVictim_some (h : c.policyVictim req evicted = some v) :
    v ∉ evicted ∧ c.Evictable req v ∧
      c.nodeIsActiveLeafForTier v req.tierFilter evicted = true := by
  obtain ⟨⟨k, i⟩, hbest, rfl⟩ := Option.map_eq_some_iff.mp h
  obtain ⟨node, hnode, hk⟩ := scanBest_some hbest
  unfold policyCandidate at hk
  split at hk
  · cases hk
  · rename_i hfresh
    split at hk
    · rename_i hmay
      simp only [Bool.and_eq_true] at hmay
      dsimp only at hk
      split at hk
      · rename_i hfinite
        exact ⟨fun hi => hfresh (Or.inr hi),
          ⟨fun hi => hfresh (Or.inl hi), node, hnode, hmay.1, hfinite⟩, hmay.2⟩
      · cases hk
    · cases hk

theorem evictLoop_length (victim : RadixCache → List Nat → Option Nat) (n : Nat)
    (c : RadixCache) (evicted : List Nat) (freed : List BlockId) :
    (evictLoop victim n c evicted freed).2.1.length ≤ evicted.length + n := by
  induction n generalizing c evicted freed with
  | zero => exact Nat.le_refl _
  | succ n ih =>
    rw [evictLoop]
    cases victim c evicted with
    | none => exact Nat.le_add_right _ _
    | some v =>
      dsimp only
      cases c.takeBlock v with
      | none =>
        refine Nat.le_trans (ih _ _ _) ?_
        simp only [List.length_append, List.length_singleton]
        omega
      | some r =>
        refine Nat.le_trans (ih _ _ _) ?_
        simp only [List.length_append, List.length_singleton]
        omega

end PolicyVictim

/-- After some rounds from the cache `c` the blocks `freed` of the nodes `evicted` are taken. -/
structure Evicting (c : RadixCache) (req : EvictRequest) (c' : RadixCache) (evicted : List Nat)
    (freed : List BlockId) : Prop where
  get : ∀ i : Nat, c'.nodes[i]? = if i ∈ evicted then
    (c.nodes[i]?).map fun node => { node with blockId := none } else c.nodes[i]?
  child : c'.child = c.child
  edge : c'.edge = c.edge
  clock : c'.clock = c.clock
  blockSize : c'.blockSize = c.blockSize
  nodup : evicted.Nodup
  evictable : ∀ v ∈ evicted, c.Evictable req v
  cleared : ∀ v ∈ evicted, ∀ d, c.trie.Below v d →
    c.nodeMatchesTierFilter d req.tierFilter = true → d ∈ evicted
  freed : freed.map some = evicted.map c.block
  index : Indexes c.blockIndex c.block → Indexes c'.blockIndex c'.block

section Evicting

variable {c c' c'' : RadixCache} {req : EvictRequest} {evicted : List Nat} {freed : List BlockId}

theorem Evicting.start (c : RadixCache) (req : EvictRequest) : Evicting c req c [] [] where
  get := by simp
  child := rfl
  edge := rfl
  clock := rfl
  blockSize := rfl
  nodup := List.nodup_nil
  evictable := by simp
  cleared := by simp
  freed := rfl
  index := id

theorem Evicting.get_of_not_mem (h : Evicting c req c' evicted freed) {i : Nat}
    (hi : i ∉ evicted) : c'.nodes[i]? = c.nodes[i]? := by
  rw [h.get, if_neg hi]

theorem Evicting.block (h : Evicting c req c' evicted freed) (i : Nat) :
    c'.block i = if i ∈ evicted then none else c.block i := by
  simp only [RadixCache.block, h.get]
  split
  · cases c.nodes[i]? <;> rfl
  · rfl

theorem Evicting.trie (h : Evicting c req c' evicted freed) : c'.trie = c.trie := by
  simp only [RadixCache.trie, h.child, h.edge]

/-- What may still be taken could be taken at the start. -/
theorem Evicting.evictable_of (h : Evicting c req c' evicted freed) {v : Nat} (hv : v ∉ evicted)
    (he : c'.Evictable req v) : c.Evictable req v := by
  obtain ⟨hroot, node, hnode, hmay, hfinite⟩ := he
  refine ⟨hroot, node, by rw [← h.get_of_not_mem hv, hnode], ?_, ?_⟩
  · unfold mayEvict at hmay ⊢
    rw [← h.clock]
    exact hmay
  · unfold evictionCandidate at hfinite ⊢
    rw [← h.blockSize]
    exact hfinite

/-- One round. -/
theorem Evicting.step (h : Evicting c req c' evicted freed) {v : Nat} {b : BlockId}
    (hv : c'.policyVictim req evicted = some v) (ht : c'.Taken v b c'') :
    Evicting c req c'' (evicted ++ [v]) (freed ++ [b]) := by
  obtain ⟨hfresh, hevictable, hleaf⟩ := policyVictim_some hv
  have hblock : c.block v = some b := by
    have := ht.had
    rwa [h.block, if_neg hfresh] at this
  refine
    { get := ?_, child := ht.child.trans h.child, edge := ht.edge.trans h.edge,
      clock := ht.clock.trans h.clock, blockSize := ht.blockSize.trans h.blockSize,
      nodup := ?_, evictable := ?_, cleared := ?_, freed := ?_, index := ?_ }
  · intro i
    rw [ht.get, h.get]
    by_cases hi : i = v
    · subst hi
      simp [hfresh]
    · simp [hi]
  · refine List.nodup_append.mpr ⟨h.nodup, List.nodup_singleton v, fun i hi j hj hij => ?_⟩
    rw [hij, List.mem_singleton.mp hj] at hi
    exact hfresh hi
  · intro i hi
    rcases List.mem_append.mp hi with hi | hi
    · exact h.evictable i hi
    · rw [List.mem_singleton.mp hi]
      exact h.evictable_of hfresh hevictable
  · intro i hi d hd hmatch
    rcases List.mem_append.mp hi with hi | hi
    · exact List.mem_append_left _ (h.cleared i hi d hd hmatch)
    · rw [List.mem_singleton.mp hi] at hd
      rcases hd.cases_child with rfl | ⟨t, j, hj, hjd⟩
      · exact List.mem_append_right _ (List.mem_singleton.mpr rfl)
      · -- below an active leaf the tier is already cleared
        refine List.mem_append_left _ ?_
        have hj' : c'.child v t = some j := by
          rw [h.child]
          exact hj
        by_contra hd
        rcases activeLeaf_clear hleaf hj' (h.trie.symm ▸ hjd) with hclear | ⟨s, hs, hsd⟩
        · unfold nodeMatchesTierFilter at hclear hmatch
          rw [h.get_of_not_mem hd, hmatch] at hclear
          cases hclear
        · exact hd (h.cleared s hs d (h.trie ▸ hsd) hmatch)
  · rw [List.map_append, List.map_append, h.freed, List.map_singleton, List.map_singleton, hblock]
  · intro hindex
    rw [ht.index, ht.block]
    exact (h.index hindex).erase ht.had

/-- The whole victim loop. -/
theorem taken_evicting (c : RadixCache) (req : EvictRequest) (n : Nat) :
    Evicting c req (c.taken (fun c evicted => c.policyVictim req evicted) n).1
      (c.taken (fun c evicted => c.policyVictim req evicted) n).2.1
      (c.taken (fun c evicted => c.policyVictim req evicted) n).2.2 := by
  refine evictLoop_invariant (P := Evicting c req) (fun h hv ht => h.step hv ht) ?_
    (Evicting.start c req)
  intro c' evicted freed v h hv hnone
  obtain ⟨b, hb⟩ := (policyVictim_some hv).2.1.block
  rw [hnone] at hb
  cases hb

end Evicting

/-! ## What an eviction leaves -/

section EvictSpec

variable {c : RadixCache} {req : EvictRequest}

/-- Where the bytes of a node are, and how many. -/
def place (c : RadixCache) (v : Nat) : Option (Option KvTier.BlockLocation × Nat) :=
  (c.nodes[v]?).map fun node => (node.tierLocation, node.byteLen)

theorem detach_place (g : List Nat) : (c.detach g).place = c.place := by
  funext v
  simp only [place, detach_get, Option.map_map]
  rfl

theorem gc_place : c.gcOrphanTombstones.place = c.place := by
  by_cases h : c.gcReclaimable = []
  · rw [gc_of_nil h]
  · rw [← detach_place (c := c) c.gcReclaimable]
    funext v
    simp only [place, gc_get h, Option.map_map]
    refine congrFun (congrArg Option.map (funext fun node => ?_)) _
    dsimp only [Function.comp_apply]
    split <;> rfl

theorem Evicting.place {c' : RadixCache} {evicted : List Nat} {freed : List BlockId}
    (h : Evicting c req c' evicted freed) : c'.place = c.place := by
  funext v
  simp only [RadixCache.place, h.get]
  split
  · rw [Option.map_map]
    rfl
  · rfl

/-- The freed blocks are taken out of the index. -/
theorem taken_unindexed (c : RadixCache) (victim : RadixCache → List Nat → Option Nat) (n : Nat) :
    ∀ b ∈ (c.taken victim n).2.2, (c.taken victim n).1.blockIndex.lookup b = none := by
  refine evictLoop_invariant
    (P := fun c' _ freed => ∀ b ∈ freed, c'.blockIndex.lookup b = none) ?_ ?_ (by simp)
  · intro c c' evicted freed v b h _ ht b' hb'
    rw [ht.index, Assoc.lookup_erase_eq]
    split
    · rfl
    · rename_i hne
      rcases List.mem_append.mp hb' with hb' | hb'
      · exact h b' hb'
      · exact absurd (List.mem_singleton.mp hb') hne
  · intro c evicted freed v h _ _
    exact h

/-- `evict_with_policy_for_intent_excluding`: the blocks of some evictable nodes are gone, from
the nodes and from the index. -/
theorem evictWithPolicy_spec (c : RadixCache) (req : EvictRequest) (n : Nat) :
    ∃ evicted : List Nat, (∀ v ∈ evicted, c.Evictable req v) ∧
      (c.evictWithPolicyForIntentExcluding req n).1.map some = evicted.map c.block ∧
      (∀ v, (c.evictWithPolicyForIntentExcluding req n).2.block v =
        if v ∈ evicted then none else c.block v) ∧
      (c.evictWithPolicyForIntentExcluding req n).2.place = c.place ∧
      ∀ b ∈ (c.evictWithPolicyForIntentExcluding req n).1,
        (c.evictWithPolicyForIntentExcluding req n).2.blockIndex.lookup b = none := by
  unfold evictWithPolicyForIntentExcluding
  by_cases hn : n = 0
  · subst hn
    exact ⟨[], by simp, rfl, fun v => by rw [if_neg List.not_mem_nil]; rfl, rfl, by
      simp [evictBy_zero]⟩
  · have h := taken_evicting c req n
    rw [evictBy_eq hn]
    refine ⟨_, h.evictable, h.freed, fun v => ?_, ?_, ?_⟩
    · rw [gc_block, detach_block]
      exact h.block v
    · rw [gc_place, detach_place]
      exact h.place
    · rw [gc_index]
      exact taken_unindexed c _ n

theorem detach_nil : c.detach [] = c := by
  have hretain : ∀ node : Node, { node with
      children := node.children.retain fun _ childIdx => decide (childIdx ∉ ([] : List Nat)) } =
      node := by
    intro node
    have : node.children.retain (fun _ childIdx => decide (childIdx ∉ ([] : List Nat))) =
        node.children := AList.ext (List.filter_eq_self.mpr fun _ _ => by simp)
    rw [this]
  simp only [detach, hretain, List.map_id']

/-- A node that passes the checks, below which the tier is cleared. -/
def FirstVictim (c : RadixCache) (req : EvictRequest) (v : Nat) : Prop :=
  c.Evictable req v ∧ c.nodeIsActiveLeafForTier v req.tierFilter [] = true

theorem policyVictim_eq_none_iff :
    c.policyVictim req [] = none ↔ ∀ v, ¬ c.FirstVictim req v := by
  constructor
  · rintro hnone v ⟨⟨hroot, node, hnode, hmay, hfinite⟩, hleaf⟩
    have hkey := scanBest_none (Option.map_eq_none_iff.mp hnone) hnode
    rw [policyCandidate, if_neg (by simp [hroot]), hmay, hleaf] at hkey
    simp [hfinite] at hkey
  · intro hnone
    cases hv : c.policyVictim req [] with
    | none => rfl
    | some v =>
      obtain ⟨-, hevictable, hleaf⟩ := policyVictim_some hv
      exact absurd ⟨hevictable, hleaf⟩ (hnone v)

/-- An eviction of one block that finds no victim only collects tombstones. -/
theorem evictOne_of_none (h : ∀ v, ¬ c.FirstVictim req v) :
    c.evictWithPolicyForIntentExcluding req 1 = ([], c.gcOrphanTombstones) := by
  rw [evictWithPolicyForIntentExcluding, evictBy_eq Nat.one_ne_zero, taken, evictLoop,
    policyVictim_eq_none_iff.mpr h, detach_nil]

/-- An eviction of one block that finds a victim frees its block. -/
theorem evictOne_of_some {v : Nat} (h : c.FirstVictim req v) : ∃ i b,
    c.FirstVictim req i ∧ c.block i = some b ∧
      (c.evictWithPolicyForIntentExcluding req 1).1 = [b] ∧
      (c.evictWithPolicyForIntentExcluding req 1).2.block i = none := by
  cases hi : c.policyVictim req [] with
  | none => exact absurd h (policyVictim_eq_none_iff.mp hi v)
  | some i =>
    obtain ⟨-, hevictable, hleaf⟩ := policyVictim_some hi
    obtain ⟨b, hb⟩ := hevictable.block
    obtain ⟨c', hc'⟩ := takeBlock_isSome hb
    have htaken := takeBlock_spec hc'
    rw [evictWithPolicyForIntentExcluding, evictBy_eq Nat.one_ne_zero, taken, evictLoop, hi]
    simp only [hc', evictLoop, List.nil_append]
    refine ⟨i, b, ⟨hevictable, hleaf⟩, hb, rfl, ?_⟩
    rw [gc_block, detach_block, htaken.block, Function.update_self]

end EvictSpec

end Arle.PrefixCache.RadixCache
