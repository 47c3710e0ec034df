import Arle.PrefixCache.PolicyEvict
import Arle.PrefixCache.Refinement

/-!
# The block index of the radix cache

`block_index` is the reverse index of the blocks of the nodes, and every block can be looked
up: `IndexLaw`. Insertions, retags and evictions each maintain the index on their own. The
filtered eviction detaches a whole subtree once the blocks of its tier are gone from it, so
the blocks of another tier below a victim stay in the index but are lost to every lookup.
The law holds in every run without such an eviction (`index_law`).
-/

namespace Arle.PrefixCache.RadixCache

open KvTier Scheduler WindowMap

/-! ## The law -/

/-- Every node with a block is reached. -/
def BlocksReached (c : RadixCache) : Prop :=
  ∀ ⦃i b⦄, c.block i = some b → ∃ p, c.trie.Reaches i p

/-- The index names exactly the nodes with a block, and a lookup of the path of such a node
returns all of it, with the block of the node as the last one. -/
structure IndexLaw (c : RadixCache) : Prop where
  index : ∀ b i, c.blockIndex.lookup b = some i ↔ c.block i = some b
  found : ∀ i b, c.block i = some b → ∃ p blocks c', c.trie.Reaches i p ∧
    c.lookup p = some ((p.length, blocks), c') ∧ blocks.getLast? = some b

/-- What the steps keep. -/
structure Indexed (c : RadixCache) : Prop where
  sound : c.Sound
  unbroken : ∀ v, c.Unbroken v
  index : Indexes c.blockIndex c.block
  reached : c.BlocksReached

/-- A lookup of the path of a node with a block. -/
theorem lookup_path {c : RadixCache} (hs : c.Sound) {i : Nat} {p : List Token} {b : BlockId}
    (hfull : c.Unbroken p) (hi : c.trie.Reaches i p) (hb : c.block i = some b) :
    ∃ blocks c', c.lookup p = some ((p.length, blocks), c') ∧ blocks.getLast? = some b := by
  obtain ⟨js, hw⟩ := RadixTree.exists_walk hs.tree root p
  obtain ⟨c', hc', -⟩ := lookup_spec hs hw
  obtain ⟨ks, ls, rfl, -, hspell, hlast⟩ := hw.exists_split hs.tree hi List.prefix_rfl
  obtain ⟨ks, rfl⟩ : ∃ ks', ks = ks' ++ [i] := by
    rcases hlast with ⟨-, rfl⟩ | hlast
    · rw [show c.block c.trie.root = none from hs.root_block] at hb
      cases hb
    · exact hlast
  -- the walk ends at the node
  obtain rfl : ls = [] := by
    cases ls with
    | nil => rfl
    | cons l ls =>
      obtain ⟨a, t, hal⟩ := hw.chain.exists_parent (j := l) (by simp)
      have hlen := hw.spell_prefix.length_le
      have hpos := List.length_pos_of_ne_nil (hs.tree.edge_ne_nil hal)
      rw [RadixTree.spell_append, List.length_append, hspell, RadixTree.spell_cons,
        List.length_append] at hlen
      omega
  rw [List.append_nil] at hc' hw
  obtain ⟨hcount, -⟩ := chain_windows hs RadixTree.Reaches.root hw.chain (by
    rw [List.nil_append, hspell]
    exact hfull)
  rw [List.nil_append, hspell, List.length_nil, Nat.zero_div, Nat.zero_add] at hcount
  refine ⟨(ks ++ [i]).filterMap c.block, c', ?_, ?_⟩
  · rw [hc', ← hcount, Nat.div_mul_cancel (hs.block_aligned hi (by rw [hb]; simp))]
  · rw [List.filterMap_append, List.filterMap_cons_some hb, List.filterMap_nil,
      List.getLast?_concat]

theorem Indexed.law {c : RadixCache} (h : c.Indexed) : IndexLaw c where
  index := h.index
  found := by
    intro i b hb
    obtain ⟨p, hp⟩ := h.reached hb
    obtain ⟨blocks, c', hlookup, hlast⟩ := lookup_path h.sound (h.unbroken p) hp hb
    exact ⟨p, blocks, c', hp, hlookup, hlast⟩

theorem Indexed.sameShape {c c' : RadixCache} (h : c.Indexed) (hshape : SameShape c c')
    (hs : c'.Sound) : c'.Indexed where
  sound := hs
  unbroken := fun v => hshape.unbroken (h.unbroken v)
  index := by
    rw [hshape.index, hshape.block]
    exact h.index
  reached := by
    intro i b hb
    rw [hshape.block] at hb
    rw [hshape.trie]
    exact h.reached hb

theorem indexed_new {size : Nat} {c : RadixCache} (h : RadixCache.new size = some c) :
    c.Indexed where
  sound := new_sound h
  unbroken := (represents_start (s := (c, fun _ => none)) ⟨h, rfl⟩).unbroken
  index := by
    rw [show c.blockIndex = ∅ by rw [(new_eq h).2]]
    exact Indexes.empty (new_block h)
  reached := by
    intro i b hb
    rw [new_block h] at hb
    cases hb

/-! ## Insertions -/

/-- No two windows of an insertion get the same block, and every window gets a block that the
cache does not have, or the one that it holds already. -/
structure FreshIds (c : RadixCache) (tokens : List Token) (blocks : List BlockId) : Prop where
  distinct : (blocks.take (tokens.length / c.blockSize)).Nodup
  fresh : ∀ k b, (k + 1) * c.blockSize ≤ tokens.length → blocks[k]? = some b →
    c.Holds (tokens.take ((k + 1) * c.blockSize)) b ∨ ∀ i, c.block i ≠ some b

section Insert

variable {w : List Token} {blocks : List BlockId} {fps : List BlockFingerprint} {size : Nat}
  {M : WindowMap Token BlockId}

/-- The index agrees with the nodes, and the windows from the `i`-th on still get fresh
blocks. -/
structure Indexing (w : List Token) (blocks : List BlockId) (size : Nat)
    (M : WindowMap Token BlockId) (c : RadixCache) (pos i : Nat) : Prop where
  recording : Recording w blocks size M c pos i
  index : Indexes c.blockIndex c.block
  reached : c.BlocksReached
  fresh : ∀ k b, i ≤ k → (k + 1) * size ≤ w.length → blocks[k]? = some b →
    c.Holds (w.take ((k + 1) * size)) b ∨ ∀ j, c.block j ≠ some b

/-- An edit that moves no block. -/
theorem Indexing.of_block_eq {c c' : RadixCache} {pos pos' i : Nat}
    (h : Indexing w blocks size M c pos i) (hrec : Recording w blocks size M c' pos' i)
    (hindex : c'.blockIndex = c.blockIndex) (hblock : c'.block = c.block)
    (hreach : ∀ {j p}, c.trie.Reaches j p → c'.trie.Reaches j p) :
    Indexing w blocks size M c' pos' i where
  recording := hrec
  index := by
    rw [hindex, hblock]
    exact h.index
  reached := by
    intro j b hb
    rw [hblock] at hb
    obtain ⟨p, hp⟩ := h.reached hb
    exact ⟨p, hreach hp⟩
  fresh := by
    intro k b hk hlen hb
    rw [hblock]
    rcases h.fresh k b hk hlen hb with ⟨j, hj, hjb⟩ | hnew
    · exact Or.inl ⟨j, hreach hj, by rw [hblock, hjb]⟩
    · exact Or.inr hnew

theorem update_eq_of_none {c : RadixCache} {n : Nat} (hn : c.block n = none) :
    Function.update c.block n none = c.block := by
  rw [← hn, Function.update_eq_self]

theorem Indexing.invariant
    (hdistinct : ∀ {k k' b}, (k + 1) * size ≤ w.length → (k' + 1) * size ≤ w.length →
      blocks[k]? = some b → blocks[k']? = some b → k = k') :
    InsertInvariant w blocks fps (Indexing w blocks size M) where
  touch := by
    intro c c' pos i hshape hrefs h
    exact h.of_block_eq ((Recording.invariant fps size).touch hshape hrefs h.recording)
      hshape.index hshape.block fun hj => hshape.trie.symm ▸ hj
  pass := by
    intro c a pos i j t hat haj hblock hat' h
    exact h.of_block_eq
      ((Recording.invariant fps size).pass hat haj hblock hat' h.recording) rfl rfl id
  split := by
    intro c c' a pos i j k d t hat haj hk0 hk hs hleave hat' h
    exact h.of_block_eq
      ((Recording.invariant fps size).split hat haj hk0 hk hs hleave hat' h.recording) hs.index
      (hs.block.trans (update_eq_of_none hs.blank.block))
      fun hj => (hs.reaches hat.sound haj hk).mpr (Or.inl hj)
  tail := by
    intro c c' a pos i n t e hat ht hfree hpath hlt hleaf hat' h
    exact h.of_block_eq
      ((Recording.invariant fps size).tail hat ht hfree hpath hlt hleaf hat' h.recording)
      hleaf.index (hleaf.block.trans (update_eq_of_none hleaf.blank.block))
      fun hj => (hleaf.reaches hfree).mpr (Or.inl hj)
  relabel := by
    intro c c' a pos i j t old new fp hat haj hblock hnew hfp hrel hat' h
    have hrec := (Recording.invariant fps size).relabel hat haj hblock hnew hfp hrel hat'
      h.recording
    obtain ⟨rfl, hi, -, -⟩ := h.recording
    have hreach : c.trie.Reaches j (w.take (pos + (c.edge j).length)) := hrel.trie ▸ hat'.reaches
    have hend := hat.block_end haj hi hreach hat'.pos_le (by rw [hblock]; simp)
    have hle : (i + 1) * c.blockSize ≤ w.length := hend ▸ hat'.pos_le
    rw [hend] at hreach
    refine ⟨hrec, ?_, ?_, ?_⟩
    · rw [hrel.index, hrel.block]
      rcases h.fresh i new (Nat.le_refl i) hle hnew with ⟨m, hm, hmb⟩ | hfresh
      · -- the window keeps its block
        rw [RadixTree.reaches_node_unique hat.sound.tree hm hreach, hblock] at hmb
        obtain rfl : old = new := Option.some.inj hmb
        rw [if_neg (by simp), ← hblock, Function.update_eq_self]
        exact h.index.insert_self hblock
      · rw [if_pos fun hon => hfresh j (by rw [hblock, hon])]
        exact h.index.replace hblock hfresh
    · intro m b hb
      rw [hrel.block, Function.update_apply] at hb
      rw [hrel.trie]
      split at hb
      · rename_i hmj
        exact ⟨_, hmj ▸ hreach⟩
      · exact h.reached hb
    · intro k b hk hklen hb
      have hik : i ≠ k := by omega
      rcases h.fresh k b (by omega) hklen hb with hold | hfresh
      · refine Or.inl ((hrel.holds hat.sound hreach).mpr ?_)
        rw [if_neg fun htake => hik (take_window_inj hat.sound.blockSize_pos hklen hle htake).symm]
        exact hold
      · refine Or.inr fun m hm => ?_
        rw [hrel.block, Function.update_apply] at hm
        split at hm
        · rw [Option.some.inj hm] at hnew
          exact hik (hdistinct hle hklen hnew hb)
        · exact hfresh m hm
  leaf := by
    intro c c' a pos i n t e b fp hat ht hfree hpath hpos hb hfp hleaf hat' h
    have hrec := (Recording.invariant fps size).leaf hat ht hfree hpath hpos hb hfp hleaf hat'
      h.recording
    obtain ⟨rfl, -, -, -⟩ := h.recording
    have hle : (i + 1) * c.blockSize ≤ w.length := hat'.pos_le
    refine ⟨hrec, ?_, ?_, ?_⟩
    · rw [hleaf.index, hleaf.block]
      refine h.index.insert hleaf.blank.block ?_
      rcases h.fresh i b (Nat.le_refl i) hle hb with ⟨m, hm, -⟩ | hfresh
      · refine absurd hm (hat.not_beyond ht hfree (List.take_prefix _ _) ?_)
        rwa [List.length_take, Nat.min_eq_left hle]
      · exact hfresh
    · intro m b' hb'
      rw [hleaf.block, Function.update_apply] at hb'
      split at hb'
      · rename_i hmn
        exact ⟨_, hmn ▸ hat'.reaches⟩
      · obtain ⟨p, hp⟩ := h.reached hb'
        exact ⟨p, (hleaf.reaches hfree).mpr (Or.inl hp)⟩
    · intro k b' hk hklen hb'
      have hik : i ≠ k := by omega
      rcases h.fresh k b' (by omega) hklen hb' with hold | hfresh
      · exact Or.inl ((hleaf.holds hat.sound hfree hat.reaches).mpr (Or.inl hold))
      · refine Or.inr fun m hm => ?_
        rw [hleaf.block, Function.update_apply] at hm
        split at hm
        · rw [show b = b' from Option.some.inj hm] at hb
          exact hik (hdistinct hle hklen hb hb')
        · exact hfresh m hm

/-- An insertion of fresh blocks keeps the index. -/
theorem Indexed.insert {c : RadixCache} (h : c.Indexed) (hnodup : c.freeNodes.Nodup)
    {tokens : List Token} {r : Nat × RadixCache} (hfresh : FreshIds c tokens blocks)
    (hr : c.insertWithFingerprints tokens blocks fps = some r) : r.2.Indexed := by
  have hbs := h.sound.blockSize_pos
  have hwindow : ∀ {k}, (k + 1) * c.blockSize ≤ (c.insertedTokens tokens blocks).length →
      (k + 1) * c.blockSize ≤ tokens.length ∧ (c.insertedTokens tokens blocks).take
        ((k + 1) * c.blockSize) = tokens.take ((k + 1) * c.blockSize) := by
    intro k hk
    have hk' := hk
    rw [insertedTokens_length] at hk
    refine ⟨Nat.le_trans hk (Nat.min_le_left _ _), ?_⟩
    rw [insertedTokens, List.take_take]
    congr 1
    omega
  have hdistinct : ∀ {k k' b}, (k + 1) * c.blockSize ≤ (c.insertedTokens tokens blocks).length →
      (k' + 1) * c.blockSize ≤ (c.insertedTokens tokens blocks).length →
      blocks[k]? = some b → blocks[k']? = some b → k = k' := by
    intro k k' b hk hk' hb hb'
    have hlt := (Nat.le_div_iff_mul_le hbs).mpr (hwindow hk).1
    have hlt' := (Nat.le_div_iff_mul_le hbs).mpr (hwindow hk').1
    rw [← List.getElem?_take_of_lt hlt] at hb
    rw [← List.getElem?_take_of_lt hlt'] at hb'
    refine (List.getElem?_inj (List.getElem?_eq_some_iff.mp hb).1 hfresh.distinct).mp ?_
    rw [hb, hb']
  have hstart : Indexing (c.insertedTokens tokens blocks) blocks c.blockSize c.windowMap c 0 0 := by
    refine ⟨⟨rfl, by simp, h.unbroken _, fun p b => h.sound.holds_iff⟩, h.index, h.reached, ?_⟩
    intro k b _ hk hb
    rw [(hwindow hk).2]
    exact hfresh.fresh k b (hwindow hk).1 hb
  obtain ⟨hs, -, -⟩ := insertWithFingerprints_sound h.sound hnodup hr
  refine ⟨hs, insert_full h.sound hnodup h.unbroken hr, ?_, ?_⟩ <;>
    rcases insertWithFingerprints_invariant h.sound hnodup (Indexing.invariant hdistinct) hstart hr
      with ⟨rfl, -⟩ | ⟨n, a, pos, -, -, -, hend, -⟩
  · exact h.index
  · exact hend.index
  · exact h.reached
  · exact hend.reached

end Insert

/-! ## Retags and metadata -/

/-- The slot `idx` holds the block `new` instead of another. -/
structure Retagged (c : RadixCache) (idx : Nat) (new : BlockId) (c' : RadixCache) : Prop where
  length : c'.nodes.length = c.nodes.length
  free : c'.freeNodes = c.freeNodes
  blockSize : c'.blockSize = c.blockSize
  child : c'.child = c.child
  edge : c'.edge = c.edge
  block : c'.block = Function.update c.block idx (some new)
  fprint : c'.fprint = c.fprint
  refs : c'.refs = c.refs

section Retag

variable {c c' : RadixCache}

/-- A retag does nothing, or it moves a node from a block to one that the cache lacks. -/
theorem retagBlock_spec (h : Indexes c.blockIndex c.block) (old new : BlockId) :
    (c.retagBlock old new).2 = c ∨ ∃ idx, c.block idx = some old ∧ (∀ i, c.block i ≠ some new) ∧
      Retagged c idx new (c.retagBlock old new).2 ∧
      (c.retagBlock old new).2.blockIndex = (c.blockIndex.erase old).insert new idx := by
  by_cases hon : old = new
  · exact Or.inl (by rw [retagBlock, if_pos hon])
  by_cases hnew : (c.blockIndex.lookup new).isSome
  · exact Or.inl (by rw [retagBlock, if_neg hon, if_pos hnew])
  cases hold : c.blockIndex.lookup old with
  | none => exact Or.inl (by rw [retagBlock, if_neg hon, if_neg hnew, hold])
  | some idx =>
    have hblock := (h old idx).mp hold
    obtain ⟨node, hnode, hid⟩ := block_eq_some.mp hblock
    have hc' : (c.retagBlock old new).2 = { c with
        nodes := c.nodes.set idx { node with blockId := some new }
        blockIndex := (c.blockIndex.erase old).insert new idx } := by
      simp only [retagBlock, if_neg hon, if_neg hnew, hold, hnode, hid, ne_eq, not_true_eq_false,
        if_false]
    have hget := getElem?_set_nodes (m := { node with blockId := some new }) hnode
    refine Or.inr ⟨idx, hblock, h.lookup_eq_none.mp (by simpa using hnew), ?_, by rw [hc']⟩
    rw [hc']
    refine ⟨by simp, rfl, rfl, ?_, ?_, ?_, ?_, ?_⟩
    · funext i t
      simp only [RadixCache.child, hget]
      by_cases hi : i = idx <;> simp [hi, hnode]
    · funext i
      simp only [RadixCache.edge, hget]
      by_cases hi : i = idx <;> simp [hi, hnode]
    · funext i
      simp only [Function.update_apply, RadixCache.block, hget]
      by_cases hi : i = idx <;> simp [hi]
    · funext i
      simp only [RadixCache.fprint, hget]
      by_cases hi : i = idx <;> simp [hi, hnode]
    · funext i
      simp only [RadixCache.refs, hget]
      by_cases hi : i = idx <;> simp [hi, hnode]

theorem Retagged.trie {idx : Nat} {new : BlockId} (h : Retagged c idx new c') :
    c'.trie = c.trie := by
  simp only [RadixCache.trie, h.child, h.edge]

theorem Retagged.block_ne_none {idx : Nat} {new : BlockId} (h : Retagged c idx new c')
    (hidx : c.block idx ≠ none) (i : Nat) : c'.block i ≠ none ↔ c.block i ≠ none := by
  rw [h.block, Function.update_apply]
  split
  · rename_i hi
    simp [hi, hidx]
  · rfl

theorem Retagged.sound {idx : Nat} {new : BlockId} (h : Retagged c idx new c')
    (hidx : c.block idx ≠ none) (hs : c.Sound) : c'.Sound where
  nonempty := h.length ▸ hs.nonempty
  free_lt := by rw [h.free, h.length]; exact hs.free_lt
  free_ne_root := by rw [h.free]; exact hs.free_ne_root
  free_block := by
    intro f hf
    by_contra hb
    exact (h.block_ne_none hidx f).mp hb (hs.free_block (h.free ▸ hf))
  free_refs := by rw [h.free, h.refs]; exact hs.free_refs
  free_childless := by rw [h.free, h.child]; exact hs.free_childless
  free_orphan := by rw [h.free, h.child]; exact hs.free_orphan
  child_lt := by rw [h.child, h.length]; exact hs.child_lt
  blockSize_pos := h.blockSize ▸ hs.blockSize_pos
  tree := h.trie ▸ hs.tree
  root_block := by
    by_contra hb
    exact (h.block_ne_none hidx root).mp hb hs.root_block
  root_fprint := by rw [h.fprint]; exact hs.root_fprint
  block_aligned := by
    intro i p hi hb
    rw [h.blockSize]
    exact hs.block_aligned (h.trie ▸ hi) ((h.block_ne_none hidx i).mp hb)
  fprint_aligned := by rw [h.trie, h.fprint, h.blockSize]; exact hs.fprint_aligned
  edge_within := by rw [h.trie, h.child, h.edge, h.blockSize]; exact hs.edge_within

/-- A retag keeps the index. -/
theorem Indexed.retag (h : c.Indexed) (old new : BlockId) : (c.retagBlock old new).2.Indexed := by
  rcases retagBlock_spec h.index old new with heq | ⟨idx, hidx, hnew, hret, hindex⟩
  · rw [heq]
    exact h
  · have hne : c.block idx ≠ none := by
      rw [hidx]
      simp
    refine ⟨hret.sound hne h.sound, fun v j p hj hp hp0 hdvd => ?_, ?_, fun i b hb => ?_⟩
    · rw [hret.trie] at hj
      rw [hret.blockSize] at hdvd
      exact (hret.block_ne_none hne j).mpr (h.unbroken v hj hp hp0 hdvd)
    · rw [hindex, hret.block]
      exact h.index.replace hidx hnew
    · obtain ⟨b', hb'⟩ := Option.ne_none_iff_exists'.mp
        ((hret.block_ne_none hne i).mp (by rw [hb]; simp))
      rw [hret.trie]
      exact h.reached hb'

/-- A write that keeps the shape and the pins of the node keeps those of the cache. -/
theorem updateBlock_spec {f : Node → Node}
    (hf : ∀ node, (f node).shape = node.shape ∧ (f node).refCount = node.refCount) (b : BlockId) :
    SameShape c (c.updateBlock b f).2 ∧ (c.updateBlock b f).2.refs = c.refs := by
  unfold updateBlock
  split
  · rename_i c' hc'
    obtain ⟨idx, -, hmod⟩ := Option.bind_eq_some_iff.mp hc'
    refine ⟨modifyNode_sameShape (fun node => (hf node).1) hmod, ?_⟩
    funext i
    rw [modifyNode_refs hmod]
    split
    · rename_i hi
      simp [hi, refs, Function.comp_def, hf]
    · rfl
  · exact ⟨.refl c, rfl⟩

end Retag

/-- The metadata writers. -/
inductive MetadataOp
  | updateMetadata (block : BlockId) (changes : BlockMetadataUpdate)
  | setLocation (block : BlockId) (location : KvTier.BlockLocation)
  | setByteLen (block : BlockId) (byteLen : Nat)
  | setSessionId (block : BlockId) (sessionId : Option SessionId)
  | setSoftPinUntil (block : BlockId) (deadline : Option Nat)
  | setHostSpillPinUntil (block : BlockId) (deadline : Option Nat)
  | setIndexState (block : BlockId) (entryState : IndexEntryState)
  | setStoreState (block : BlockId) (storeState : StoreState)
  | bumpSoftPin (block : BlockId) (ticksAhead : Nat)

def MetadataOp.run (c : RadixCache) : MetadataOp → RadixCache
  | .updateMetadata block changes => (c.updateBlockMetadata block changes).2
  | .setLocation block location => (c.setBlockLocation block location).2
  | .setByteLen block byteLen => (c.setBlockByteLen block byteLen).2
  | .setSessionId block sessionId => (c.setBlockSessionId block sessionId).2
  | .setSoftPinUntil block deadline => (c.setBlockSoftPinUntil block deadline).2
  | .setHostSpillPinUntil block deadline => (c.setBlockHostSpillPinUntil block deadline).2
  | .setIndexState block entryState => (c.setBlockIndexState block entryState).2
  | .setStoreState block storeState => (c.setBlockStoreState block storeState).2
  | .bumpSoftPin block ticksAhead => (c.bumpSoftPin block ticksAhead).2

section Metadata

theorem update_apply_spec (changes : BlockMetadataUpdate) (node : Node) :
    (changes.apply node).shape = node.shape ∧ (changes.apply node).refCount = node.refCount := by
  unfold BlockMetadataUpdate.apply
  cases changes.location <;> exact ⟨rfl, rfl⟩

/-- Every metadata writer keeps the shape of the tree and the pins. -/
theorem metadata_spec (c : RadixCache) (op : MetadataOp) :
    SameShape c (op.run c) ∧ (op.run c).refs = c.refs := by
  cases op with
  | updateMetadata block changes => exact updateBlock_spec (update_apply_spec changes) block
  | setLocation block location => exact updateBlock_spec (fun _ => by exact ⟨rfl, rfl⟩) block
  | setByteLen block byteLen => exact updateBlock_spec (fun _ => by exact ⟨rfl, rfl⟩) block
  | setSessionId block sessionId => exact updateBlock_spec (fun _ => by exact ⟨rfl, rfl⟩) block
  | setSoftPinUntil block deadline => exact updateBlock_spec (fun _ => by exact ⟨rfl, rfl⟩) block
  | setHostSpillPinUntil block deadline =>
    exact updateBlock_spec (fun _ => by exact ⟨rfl, rfl⟩) block
  | setIndexState block entryState => exact updateBlock_spec (fun _ => by exact ⟨rfl, rfl⟩) block
  | setStoreState block storeState => exact updateBlock_spec (fun _ => by exact ⟨rfl, rfl⟩) block
  | bumpSoftPin block ticksAhead =>
    simp only [MetadataOp.run, bumpSoftPin]
    split
    · split
      · exact updateBlock_spec (fun _ => by exact ⟨rfl, rfl⟩) block
      · exact ⟨.refl c, rfl⟩
    · exact ⟨.refl c, rfl⟩

theorem Indexed.metadata {c : RadixCache} (h : c.Indexed) (op : MetadataOp) :
    (op.run c).Indexed := by
  obtain ⟨hshape, hrefs⟩ := metadata_spec c op
  exact h.sameShape hshape (hshape.sound h.sound fun f hf => by
    rw [hrefs]
    exact h.sound.free_refs hf)

end Metadata

/-! ## Evictions -/

/-- No node can be cleared away by `n` victims together with a block of another tier: if the
blocks of the filtered tier below a node that may be evicted are at most `n`, and all of them
may be evicted, then no other block lies below it. -/
def EvictSafe (c : RadixCache) (req : EvictRequest) (n : Nat) : Prop :=
  ∀ i (victims : List Nat), victims.length ≤ n → (∀ v ∈ victims, c.Evictable req v) →
    c.Evictable req i →
    (∀ d, c.trie.Below i d → c.nodeMatchesTierFilter d req.tierFilter = true → d ∈ victims) →
    ∀ d, c.trie.Below i d → c.block d ≠ none → c.nodeMatchesTierFilter d req.tierFilter = true

section Evict

variable {c : RadixCache} {req : EvictRequest} {n : Nat}

/-- What the victims of an eviction leave when no other block lies below them. -/
structure Swept (c c₁ : RadixCache) (evicted : List Nat) : Prop where
  trie : c₁.trie = c.trie
  block : ∀ i, c₁.block i = if i ∈ evicted then none else c.block i
  cleared : ∀ j ∈ evicted, ∀ d, c.trie.Below j d → c.block d ≠ none → d ∈ evicted
  index : Indexes c₁.blockIndex c₁.block

namespace Swept

variable {c₁ : RadixCache} {evicted : List Nat}

theorem block_left (h : Swept c c₁ evicted) (i : Nat) :
    (c₁.detach evicted).gcOrphanTombstones.block i = if i ∈ evicted then none else c.block i := by
  rw [gc_block, detach_block, h.block]

/-- The path of a block that was not taken stays. -/
theorem reaches (h : Swept c c₁ evicted) {i : Nat} {p : List Token} (hi : c.trie.Reaches i p)
    (hb : c.block i ≠ none) (hie : i ∉ evicted) :
    (c₁.detach evicted).gcOrphanTombstones.trie.Reaches i p := by
  have hi₁ : c₁.trie.Reaches i p := h.trie.symm ▸ hi
  refine gc_retains (detach_shrunk.prunes.retains hi₁ fun {a j t} hj hbelow => ?_) ?_
  · refine detach_child.mpr ⟨hj, fun hje => ?_⟩
    rw [h.trie] at hbelow
    exact hie (h.cleared j hje i hbelow hb)
  · rw [detach_block, h.block, if_neg hie]
    exact hb

theorem indexed (h : Swept c c₁ evicted) (hc : c.Indexed)
    (hshrunk : Shrunk c (c₁.detach evicted).gcOrphanTombstones)
    (hsound : (c₁.detach evicted).gcOrphanTombstones.Sound) :
    (c₁.detach evicted).gcOrphanTombstones.Indexed := by
  refine ⟨hsound, fun v j p hj hp hp0 hdvd => ?_, ?_, fun i b hb => ?_⟩
  · rw [hshrunk.blockSize] at hdvd
    have hje : j ∉ evicted := by
      cases hj with
      | root => exact absurd rfl hp0
      | step _ hj => exact (detach_child.mp (gc_child.mp hj).1).2
    rw [h.block_left, if_neg hje]
    exact hc.unbroken v (hshrunk.prunes.reaches hj) hp hp0 hdvd
  · rw [gc_index, gc_block, detach_block]
    exact h.index
  · rw [h.block_left] at hb
    split at hb
    · cases hb
    · rename_i hie
      obtain ⟨p, hp⟩ := hc.reached hb
      exact ⟨p, h.reaches hp (by rw [hb]; simp) hie⟩

end Swept

/-- A safe eviction keeps the index. -/
theorem Indexed.evict (h : c.Indexed) (hsafe : c.EvictSafe req n) :
    (c.evictWithPolicyForIntentExcluding req n).2.Indexed := by
  by_cases hn : n = 0
  · rw [evictWithPolicyForIntentExcluding, hn, evictBy_zero]
    exact h
  have hE := taken_evicting c req n
  have hlen := evictLoop_length (fun c evicted => c.policyVictim req evicted) n c [] []
  rw [List.length_nil, Nat.zero_add] at hlen
  have hshrunk : Shrunk c (c.evictWithPolicyForIntentExcluding req n).2 := evictBy_shrunk
  have hsound : (c.evictWithPolicyForIntentExcluding req n).2.Sound := evictBy_sound h.sound
  rw [evictWithPolicyForIntentExcluding, evictBy_eq hn] at hshrunk hsound ⊢
  dsimp only at hshrunk hsound ⊢
  change (c.taken (fun c evicted => c.policyVictim req evicted) n).2.1.length ≤ n at hlen
  generalize c.taken (fun c evicted => c.policyVictim req evicted) n = r at hE hlen hshrunk hsound ⊢
  obtain ⟨c₁, evicted, freed⟩ := r
  dsimp only at hE hlen hshrunk hsound ⊢
  have hswept : Swept c c₁ evicted := {
    trie := hE.trie
    block := hE.block
    cleared := fun j hje i hbelow hb => hE.cleared j hje i hbelow
      (hsafe j evicted hlen hE.evictable (hE.evictable j hje) (hE.cleared j hje) i hbelow hb)
    index := hE.index h.index }
  exact hswept.indexed h hshrunk hsound

end Evict

/-! ## Runs -/

/-- The operations on the blocks of a cache. -/
inductive IndexOp
  | insert (tokens : List Token) (blocks : List BlockId) (fps : List BlockFingerprint)
  | lookup (tokens : List Token)
  | lookupOrStage (tokens : List Token) (heuristics : LookupHeuristics)
  | release (blocks : List BlockId)
  | retag (old new : BlockId)
  | metadata (op : MetadataOp)
  | evict (req : EvictRequest) (n : Nat)

/-- A step; insertions bring fresh blocks. -/
def IndexStep (c : RadixCache) (op : IndexOp) (c' : RadixCache) : Prop :=
  match op with
  | .insert tokens blocks fps => FreshIds c tokens blocks ∧
    ∃ n, c.insertWithFingerprints tokens blocks fps = some (n, c')
  | .lookup tokens => ∃ result, c.lookup tokens = some (result, c')
  | .lookupOrStage tokens heuristics =>
    ∃ outcome, c.lookupOrStage tokens heuristics = some (outcome, c')
  | .release blocks => c' = c.release blocks
  | .retag old new => c' = (c.retagBlock old new).2
  | .metadata op => c' = op.run c
  | .evict req n => c' = (c.evictWithPolicyForIntentExcluding req n).2

/-- An insertion starts with a free stack without duplicates, and an eviction is safe. -/
def KeepsIndex (c : RadixCache) (op : IndexOp) : Prop :=
  match op with
  | .insert _ _ _ => c.freeNodes.Nodup
  | .evict req n => c.EvictSafe req n
  | _ => True

theorem indexed_step : Preserved (guarded KeepsIndex IndexStep) Indexed := by
  rintro c op c' h ⟨hkeeps, hstep⟩
  cases op with
  | insert tokens blocks fps =>
    obtain ⟨hfresh, n, hn⟩ := hstep
    exact h.insert hkeeps hfresh hn
  | lookup tokens =>
    obtain ⟨result, hresult⟩ := hstep
    obtain ⟨js, hw⟩ := RadixTree.exists_walk h.sound.tree root tokens
    obtain ⟨c₁, hc₁, hpin⟩ := lookup_spec h.sound hw
    obtain rfl : c₁ = c' := (Prod.mk.inj (Option.some.inj (hc₁.symm.trans hresult))).2
    exact h.sameShape hpin.toSameShape (hpin.sound h.sound)
  | lookupOrStage tokens heuristics =>
    obtain ⟨outcome, houtcome⟩ := hstep
    obtain ⟨js, hw⟩ := RadixTree.exists_walk h.sound.tree root tokens
    obtain ⟨js', outcome', c₁, -, hc₁, -, hpin⟩ := lookupOrStage_spec h.sound heuristics hw
    obtain rfl : c₁ = c' := (Prod.mk.inj (Option.some.inj (hc₁.symm.trans houtcome))).2
    exact h.sameShape hpin.toSameShape (hpin.sound h.sound)
  | release blocks =>
    obtain rfl : c' = c.release blocks := hstep
    exact h.sameShape (release_sameShape c blocks) (release_sound h.sound blocks)
  | retag old new =>
    obtain rfl : c' = (c.retagBlock old new).2 := hstep
    exact h.retag old new
  | metadata op =>
    obtain rfl : c' = op.run c := hstep
    exact h.metadata op
  | evict req n =>
    obtain rfl : c' = (c.evictWithPolicyForIntentExcluding req n).2 := hstep
    exact h.evict hkeeps

/-- In every run whose steps meet the condition, the index agrees with the nodes and every
block is found by a lookup of its path. -/
theorem index_law {size : Nat} {c : RadixCache} (h : Reachable
    (fun c => RadixCache.new size = some c) (guarded KeepsIndex IndexStep) c) : IndexLaw c :=
  (h.invariant (fun _ => indexed_new) indexed_step).law

/-- A request to evict blocks from the device. -/
def evictFromGpu : EvictRequest where
  policy := ⟨fun _ _ => ⟨0⟩⟩
  signals := {}
  tierFilter := some .gpu
  intent := .evict
  excludedBlocks := none

/-- Two cached windows of a prompt, the first one on the device. -/
theorem twoWindows_run (location : KvTier.BlockLocation) : ∃ c₀ c₁ : RadixCache,
    RadixCache.new 1 = some c₀ ∧
      c₀.insertWithFingerprints [1, 2] [⟨7⟩, ⟨8⟩] [⟨0⟩, ⟨1⟩] = some (2, c₁) ∧
      Reachable (fun c => RadixCache.new 1 = some c) (guarded KeepsIndex IndexStep)
        ((c₁.setBlockLocation ⟨7⟩ (.gpu 0)).2.setBlockLocation ⟨8⟩ location).2 := by
  obtain ⟨c₀, hc₀⟩ : ∃ c, RadixCache.new 1 = some c := ⟨_, rfl⟩
  obtain ⟨c₁, hc₁⟩ : ∃ c₁, c₀.insertWithFingerprints [1, 2] [⟨7⟩, ⟨8⟩] [⟨0⟩, ⟨1⟩] =
      some (2, c₁) := by
    cases hc₀
    exact ⟨_, rfl⟩
  refine ⟨c₀, c₁, hc₀, hc₁, ?_⟩
  refine Reachable.next (Reachable.next (Reachable.next (Reachable.start hc₀)
    (a := .insert [1, 2] [⟨7⟩, ⟨8⟩] [⟨0⟩, ⟨1⟩])
    ⟨?_, ⟨?_, fun k b _ _ => Or.inr fun i => ?_⟩, 2, hc₁⟩)
    (a := .metadata (.setLocation ⟨7⟩ (.gpu 0))) ⟨trivial, rfl⟩)
    (a := .metadata (.setLocation ⟨8⟩ location)) ⟨trivial, rfl⟩
  · show c₀.freeNodes.Nodup
    rw [new_freeNodes hc₀]
    exact List.nodup_nil
  · rw [(new_eq hc₀).2]
    decide
  · rw [new_block hc₀]
    simp

/-- With both windows on the device the eviction takes the second one, and the first one is
still found. -/
theorem index_law_two_windows : ∃ c : RadixCache,
    Reachable (fun c => RadixCache.new 1 = some c) (guarded KeepsIndex IndexStep) c ∧
      c.blockIndex.lookup ⟨7⟩ = some 1 ∧ c.blockIndex.lookup ⟨8⟩ = none ∧ IndexLaw c := by
  obtain ⟨c₀, c₁, hc₀, hc₁, hrun⟩ := twoWindows_run (.gpu 1)
  obtain ⟨c, hc⟩ : ∃ c, c =
      ((c₁.setBlockLocation ⟨7⟩ (.gpu 0)).2.setBlockLocation ⟨8⟩ (.gpu 1)).2 := ⟨_, rfl⟩
  obtain ⟨h7, h8, hlen, h0, h1, h2⟩ :
      (c.evictWithPolicyForIntentExcluding evictFromGpu 1).2.blockIndex.lookup ⟨7⟩ = some 1 ∧
      (c.evictWithPolicyForIntentExcluding evictFromGpu 1).2.blockIndex.lookup ⟨8⟩ = none ∧
      c.nodes.length = 3 ∧ c.block 0 = none ∧ c.nodeMatchesTierFilter 1 (some .gpu) = true ∧
      c.nodeMatchesTierFilter 2 (some .gpu) = true := by
    cases hc₀
    cases hc₁
    subst hc
    exact ⟨by decide +kernel, by decide +kernel, rfl, rfl, by decide +kernel, by decide +kernel⟩
  rw [← hc] at hrun
  have hsafe : c.EvictSafe evictFromGpu 1 := by
    intro i victims _ _ _ _ d _ hd
    have hlt : d < 3 := hlen ▸ lt_length_of_block hd
    rcases (by omega : d = 0 ∨ d = 1 ∨ d = 2) with rfl | rfl | rfl
    · exact absurd h0 hd
    · exact h1
    · exact h2
  have hrun' : Reachable (fun c => RadixCache.new 1 = some c) (guarded KeepsIndex IndexStep)
      (c.evictWithPolicyForIntentExcluding evictFromGpu 1).2 :=
    Reachable.next hrun (a := .evict evictFromGpu 1) ⟨hsafe, rfl⟩
  exact ⟨_, hrun', h7, h8, index_law hrun'⟩

theorem reaches_of_childless {c : RadixCache} (h : ∀ t, c.child root t = none) {i : Nat}
    {p : List Token} (hi : c.trie.Reaches i p) : i = root := by
  induction hi with
  | root => rfl
  | step _ hj ih =>
    subst ih
    exact absurd hj (by rw [show c.trie.child = c.child from rfl, h]; simp)

/-- With the second window in host memory the eviction takes the first one, and the second one
is in the index but no longer in the tree. -/
theorem index_law_fails : ∃ c : RadixCache,
    Reachable (fun c => RadixCache.new 1 = some c) IndexStep c ∧
      c.blockIndex.lookup ⟨8⟩ = some 2 ∧ c.block 2 = some ⟨8⟩ ∧ ¬ IndexLaw c := by
  obtain ⟨c₀, c₁, hc₀, hc₁, hrun⟩ := twoWindows_run (.hostPinned 0)
  obtain ⟨c, hc⟩ : ∃ c, c = (((c₁.setBlockLocation ⟨7⟩ (.gpu 0)).2.setBlockLocation ⟨8⟩
      (.hostPinned 0)).2.evictWithPolicyForIntentExcluding evictFromGpu 1).2 := ⟨_, rfl⟩
  obtain ⟨hindex, hblock, hroot⟩ : c.blockIndex.lookup ⟨8⟩ = some 2 ∧ c.block 2 = some ⟨8⟩ ∧
      (c.nodes[0]?).map (fun node => node.children.entries) = some [] := by
    cases hc₀
    cases hc₁
    subst hc
    exact ⟨by decide +kernel, by decide +kernel, by decide +kernel⟩
  refine ⟨c, Reachable.next (hrun.mono fun _ _ _ h => h.2) (a := .evict evictFromGpu 1) hc, hindex,
    hblock, fun hlaw => ?_⟩
  obtain ⟨p, -, -, hp, -⟩ := hlaw.found 2 ⟨8⟩ hblock
  have hnone : ∀ t, c.child root t = none := by
    intro t
    obtain ⟨node, hnode, hchildren⟩ := Option.map_eq_some_iff.mp hroot
    rw [RadixCache.child, show c.nodes[root]? = some node from hnode, Option.bind_some]
    cases hj : node.children.lookup t with
    | none => rfl
    | some j =>
      have := Assoc.lookup_eq_some.mp hj
      rw [hchildren] at this
      cases this
  have := reaches_of_childless hnone hp
  cases this

end Arle.PrefixCache.RadixCache
