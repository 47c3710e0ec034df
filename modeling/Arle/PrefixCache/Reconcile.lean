import Mathlib
import Arle.PrefixCache.Restore
import Arle.PrefixCache.FreeList

/-!
# Reconciling a cache with reclaimed slots

`reconcile` and `rebuild_block_index` sweep the vector of nodes, and a reclaimed slot keeps
its fingerprint. For each block the index names the last slot whose fingerprint is mapped to
it, so every entry is live exactly if each stale slot is followed by a live one for the same
block (`reconcile_live_iff`).
-/

namespace Arle.PrefixCache.RadixCache

open KvTier

/-! ## The rebuilt index -/

/-- What the sweep of `rebuild_block_index` does with one node. -/
def recordNode (index : Assoc BlockId Nat) (p : Node × Nat) : Assoc BlockId Nat :=
  match p.1.blockId with
  | some bid => index.insert bid p.2
  | none => index

theorem rebuildBlockIndex_eq (c : RadixCache) :
    c.rebuildBlockIndex.blockIndex = c.nodes.zipIdx.foldl recordNode ∅ := rfl

theorem lookup_recordNode_of_ne {index : Assoc BlockId Nat} {p : Node × Nat} {b : BlockId}
    (h : p.1.blockId ≠ some b) : (recordNode index p).lookup b = index.lookup b := by
  unfold recordNode
  split
  · rename_i bid hbid
    rw [Assoc.lookup_insert_eq, if_neg]
    rintro rfl
    exact h hbid
  · rfl

/-- The index of a vector of nodes names the last node with a block. -/
theorem lookup_foldl_recordNode (nodes : List Node) (b : BlockId) (i : Nat) :
    (nodes.zipIdx.foldl recordNode ∅).lookup b = some i ↔
      (nodes[i]?).bind Node.blockId = some b ∧
        ∀ j, i < j → (nodes[j]?).bind Node.blockId ≠ some b := by
  induction nodes using List.reverseRecOn generalizing i with
  | nil => simp
  | append_singleton nodes node ih =>
    have hget : ∀ j, ((nodes ++ [node])[j]?).bind Node.blockId =
        if j = nodes.length then node.blockId else (nodes[j]?).bind Node.blockId := by
      intro j
      rw [List.getElem?_append]
      rcases Nat.lt_trichotomy j nodes.length with hj | rfl | hj
      · rw [if_pos hj, if_neg (by omega)]
      · simp
      · rw [if_neg (by omega), if_neg (by omega), List.getElem?_eq_none (by simp; omega),
          List.getElem?_eq_none (by omega)]
    have hpast : ∀ j, nodes.length ≤ j → (nodes[j]?).bind Node.blockId ≠ some b := by
      intro j hj
      simp [List.getElem?_eq_none hj]
    simp only [List.zipIdx_append, List.foldl_append, List.zipIdx_singleton, List.foldl_cons,
      List.foldl_nil, Nat.zero_add, hget]
    by_cases hb : node.blockId = some b
    · -- the new node is the last one with the block
      simp only [recordNode, hb, Assoc.lookup_insert_eq, if_true, Option.some.injEq]
      constructor
      · rintro rfl
        refine ⟨by simp, fun j hj => ?_⟩
        rw [if_neg (by omega)]
        exact hpast j (by omega)
      · rintro ⟨hi, hlast⟩
        by_contra hne
        rw [if_neg (Ne.symm hne)] at hi
        have hlt : i < nodes.length := by
          by_contra hge
          exact hpast i (by omega) hi
        exact hlast nodes.length hlt (by simp)
    · rw [lookup_recordNode_of_ne hb, ih]
      constructor
      · rintro ⟨hi, hlast⟩
        refine ⟨?_, fun j hj => ?_⟩
        · rwa [if_neg]
          rintro rfl
          exact hpast nodes.length (Nat.le_refl _) hi
        · split
          · exact hb
          · exact hlast j hj
      · rintro ⟨hi, hlast⟩
        refine ⟨?_, fun j hj => ?_⟩
        · split at hi
          · exact absurd hi hb
          · exact hi
        · have := hlast j hj
          split at this
          · rename_i hjn
            exact hpast j (by omega)
          · exact this

/-! ## Live slots -/

/-- A slot that is part of the tree and not free. -/
def Live (c : RadixCache) (i : Nat) : Prop := (∃ p, c.trie.Reaches i p) ∧ i ∉ c.freeNodes

/-- Every entry of the index is live, and every node of the tree carries the block that `known`
gives to its fingerprint. -/
structure ReconcileLaw (known : BlockFingerprint → Option BlockId) (c : RadixCache) : Prop where
  live : ∀ b i, c.blockIndex.lookup b = some i → c.Live i
  carries : ∀ i p fp b, c.trie.Reaches i p → c.fprint i = some fp → known fp = some b →
    c.block i = some b

/-- Every stale slot with a known fingerprint is followed by a live slot for the same block. -/
def StaleShadowed (known : BlockFingerprint → Option BlockId) (c : RadixCache) : Prop :=
  ∀ i b, ¬ c.Live i → (c.fprint i).bind known = some b →
    ∃ j, i < j ∧ c.Live j ∧ (c.fprint j).bind known = some b

section Law

variable {c c' : RadixCache} {known : BlockFingerprint → Option BlockId}

theorem Reconciled.live_iff (h : Reconciled known c c') (i : Nat) : c'.Live i ↔ c.Live i := by
  have htrie : c'.trie = c.trie := by simp only [RadixCache.trie, h.child, h.edge]
  unfold Live
  rw [htrie, h.free]

theorem reconcile_lookup (c : RadixCache) (known : BlockFingerprint → Option BlockId)
    (b : BlockId) (i : Nat) : (c.reconcile known).2.blockIndex.lookup b = some i ↔
      (c.fprint i).bind known = some b ∧
        ∀ j, i < j → (c.fprint j).bind known ≠ some b := by
  have hblock := (reconcile_spec c known).block
  have hread : ∀ j, ((c.reconcile known).2.nodes[j]?).bind Node.blockId =
      (c.fprint j).bind known := hblock
  unfold reconcile
  rw [rebuildBlockIndex_eq, lookup_foldl_recordNode]
  simp only [← hread]
  rfl

/-- The last slot whose fingerprint is mapped to a block. -/
theorem exists_last_known {i : Nat} {b : BlockId} (hi : (c.fprint i).bind known = some b) :
    ∃ j, i ≤ j ∧ (c.fprint j).bind known = some b ∧
      ∀ k, j < k → (c.fprint k).bind known ≠ some b := by
  have hlt : ∀ {k}, (c.fprint k).bind known = some b → k < c.nodes.length := by
    intro k hk
    by_contra hge
    simp [fprint, List.getElem?_eq_none (Nat.le_of_not_lt hge)] at hk
  induction hleft : c.nodes.length - i using Nat.strongRecOn generalizing i with
  | ind left ih =>
    by_cases hmore : ∃ k, i < k ∧ (c.fprint k).bind known = some b
    · obtain ⟨k, hik, hk⟩ := hmore
      have := hlt hk
      obtain ⟨j, hkj, hj, hlast⟩ := ih _ (by omega) hk rfl
      exact ⟨j, by omega, hj, hlast⟩
    · exact ⟨i, Nat.le_refl i, hi, fun k hik hk => hmore ⟨k, hik, hk⟩⟩

end Law

/-- After a reconciliation every entry of the index is live if and only if every stale slot is
followed by a live one for the same block; the nodes of the tree carry their blocks anyway. -/
theorem reconcile_live_iff (c : RadixCache) (known : BlockFingerprint → Option BlockId) :
    ReconcileLaw known (c.reconcile known).2 ↔ StaleShadowed known c := by
  have hspec := reconcile_spec c known
  constructor
  · intro hlaw i b hstale hi
    obtain ⟨j, hij, hj, hlast⟩ := exists_last_known hi
    have hlive := (hspec.live_iff j).mp
      (hlaw.live b j ((reconcile_lookup c known b j).mpr ⟨hj, hlast⟩))
    refine ⟨j, Nat.lt_of_le_of_ne hij ?_, hlive, hj⟩
    rintro rfl
    exact hstale hlive
  · intro hshadow
    refine ⟨fun b i hindex => ?_, fun i p fp b _ hfp hknown => ?_⟩
    · obtain ⟨hi, hlast⟩ := (reconcile_lookup c known b i).mp hindex
      by_contra hstale
      obtain ⟨j, hij, -, hj⟩ := hshadow i b (fun h => hstale ((hspec.live_iff i).mpr h)) hi
      exact hlast j hij hj
    · rw [hspec.fprint] at hfp
      rw [hspec.block, hfp, Option.bind_some, hknown]

/-- The slot of an evicted block is revived: the index points at a slot of the free stack. -/
theorem reconcile_revives_free : ∃ c : RadixCache,
    Reachable (fun c => RadixCache.new 1 = some c) TreeStep c ∧
      (c.reconcile fun _ => some ⟨9⟩).2.blockIndex.lookup ⟨9⟩ = some 1 ∧
      1 ∈ (c.reconcile fun _ => some ⟨9⟩).2.freeNodes ∧
      ¬ ReconcileLaw (fun _ => some ⟨9⟩) (c.reconcile fun _ => some ⟨9⟩).2 := by
  obtain ⟨c₀, hc₀⟩ : ∃ c, RadixCache.new 1 = some c := ⟨_, rfl⟩
  obtain ⟨c₁, hc₁, hindex, hfree⟩ : ∃ c₁,
      c₀.insertWithFingerprints [1] [⟨7⟩] [⟨0⟩] = some (1, c₁) ∧
      ((c₁.evict 1).2.reconcile fun _ => some ⟨9⟩).2.blockIndex.lookup ⟨9⟩ = some 1 ∧
      1 ∈ ((c₁.evict 1).2.reconcile fun _ => some ⟨9⟩).2.freeNodes := by
    cases hc₀
    exact ⟨_, rfl, by decide +kernel, by decide +kernel⟩
  refine ⟨(c₁.evict 1).2, ?_, hindex, hfree, fun h => (h.live _ _ hindex).2 hfree⟩
  exact Reachable.next (Reachable.next (Reachable.start hc₀)
    (a := .insert [1] [⟨7⟩] [⟨0⟩]) ⟨1, hc₁⟩) (a := .evict 1) rfl

end Arle.PrefixCache.RadixCache
