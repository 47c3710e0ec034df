import Arle.Lib.RadixTree
import Arle.PrefixCache.Insert

/-!
# The tree invariant of the radix cache

The nodes and children maps of a cache describe a compressed trie (`trie`). `Sound` is the
invariant of that trie and of the free stack. Each way the code writes nodes gets its
effect on the trie, the blocks, the pin counts and the index: a write that keeps the shape
(`SameShape`), a new leaf (`LeafAdded`), and a split edge (`EdgeSplit`).
-/

namespace Arle.PrefixCache.RadixCache

open KvTier

/-- The compressed trie that the nodes of a cache describe. -/
def trie (c : RadixCache) : RadixTree Nat Token where
  root := root
  child := c.child
  edge := c.edge

/-- The free stack holds blank slots that no node points at, and every pointer leads to a
slot other than the root. -/
structure Slots (c : RadixCache) : Prop where
  nonempty : 0 < c.nodes.length
  free_lt : ∀ {f}, f ∈ c.freeNodes → f < c.nodes.length
  free_ne_root : ∀ {f}, f ∈ c.freeNodes → f ≠ root
  free_block : ∀ {f}, f ∈ c.freeNodes → c.block f = none
  free_refs : ∀ {f}, f ∈ c.freeNodes → c.refs f = 0
  free_childless : ∀ {f}, f ∈ c.freeNodes → ∀ t, c.child f t = none
  free_orphan : ∀ {f}, f ∈ c.freeNodes → ∀ i t, c.child i t ≠ some f
  child_lt : ∀ {i t j}, c.child i t = some j → j < c.nodes.length

/-- The invariant of the tree: blocks and fingerprints sit on block boundaries, and no edge
crosses one. -/
structure Sound (c : RadixCache) : Prop extends Slots c where
  blockSize_pos : 0 < c.blockSize
  tree : c.trie.WellFormed
  root_block : c.block root = none
  root_fprint : c.fprint root = none
  block_aligned : ∀ {i p}, c.trie.Reaches i p → c.block i ≠ none → c.blockSize ∣ p.length
  fprint_aligned : ∀ {i p}, c.trie.Reaches i p → c.fprint i ≠ none → c.blockSize ∣ p.length
  edge_within : ∀ {i p t j}, c.trie.Reaches i p → c.child i t = some j →
    p.length % c.blockSize + (c.edge j).length ≤ c.blockSize

/-- The node whose path spells `p` holds the block `b`. -/
def Holds (c : RadixCache) (p : List Token) (b : BlockId) : Prop :=
  ∃ i, c.trie.Reaches i p ∧ c.block i = some b

/-! ## Reading slots -/

section Slots

variable {c : RadixCache}

theorem child_eq_some {i j : Nat} {t : Token} :
    c.child i t = some j ↔ ∃ node, c.nodes[i]? = some node ∧ node.children.lookup t = some j := by
  simp only [child, Option.bind_eq_some_iff]

theorem block_eq_some {i : Nat} {b : BlockId} :
    c.block i = some b ↔ ∃ node, c.nodes[i]? = some node ∧ node.blockId = some b := by
  simp only [block, Option.bind_eq_some_iff]

theorem lt_length_of_child {i j : Nat} {t : Token} (h : c.child i t = some j) :
    i < c.nodes.length := by
  obtain ⟨node, hnode, -⟩ := child_eq_some.mp h
  exact (List.getElem?_eq_some_iff.mp hnode).1

theorem lt_length_of_block {i : Nat} (h : c.block i ≠ none) : i < c.nodes.length := by
  obtain ⟨b, hb⟩ := Option.ne_none_iff_exists'.mp h
  obtain ⟨node, hnode, -⟩ := block_eq_some.mp hb
  exact (List.getElem?_eq_some_iff.mp hnode).1

theorem modifyNode_eq_some {c' : RadixCache} {idx : Nat} {f : Node → Node} :
    c.modifyNode idx f = some c' ↔
      ∃ node, c.nodes[idx]? = some node ∧ c' = { c with nodes := c.nodes.set idx (f node) } := by
  unfold modifyNode
  cases h : c.nodes[idx]? with
  | none => simp
  | some node => simp [eq_comm]

theorem getElem?_set_nodes {idx : Nat} {node m : Node} (h : c.nodes[idx]? = some node)
    (i : Nat) : (c.nodes.set idx m)[i]? = if i = idx then some m else c.nodes[i]? := by
  have hlt := (List.getElem?_eq_some_iff.mp h).1
  rw [List.getElem?_set]
  by_cases hi : idx = i
  · subst hi
    simp [hlt]
  · simp [hi, Ne.symm hi]

/-- A reached slot is in range, and it is not free. -/
theorem Slots.reached_lt (h : c.Slots) {i : Nat} {p : List Token} (hi : c.trie.Reaches i p) :
    i < c.nodes.length := by
  cases hi with
  | root => exact h.nonempty
  | step _ hj => exact h.child_lt hj

theorem Slots.reached_not_free (h : c.Slots) {i : Nat} {p : List Token}
    (hi : c.trie.Reaches i p) : i ∉ c.freeNodes := by
  intro hf
  cases hi with
  | root => exact h.free_ne_root hf rfl
  | step _ hj => exact h.free_orphan hf _ _ hj

end Slots

/-! ## Matching an edge -/

theorem edgeMatchLen_le (e r : List Token) :
    edgeMatchLen e r ≤ e.length ∧ edgeMatchLen e r ≤ r.length := by
  fun_induction edgeMatchLen e r with
  | case1 a e r ih =>
    simp only [List.length_cons]
    omega
  | case2 => simp
  | case3 => simp

theorem edgeMatchLen_take (e r : List Token) :
    e.take (edgeMatchLen e r) = r.take (edgeMatchLen e r) := by
  fun_induction edgeMatchLen e r with
  | case1 a e r ih => simp [ih]
  | case2 => simp
  | case3 => simp

theorem edgeMatchLen_eq_length_iff {e r : List Token} :
    edgeMatchLen e r = e.length ↔ e <+: r := by
  constructor
  · intro h
    have := edgeMatchLen_take e r
    rw [h, List.take_length] at this
    rw [this]
    exact List.take_prefix _ _
  · rintro ⟨s, rfl⟩
    induction e with
    | nil => simp [edgeMatchLen]
    | cons a e ih => simp [edgeMatchLen, ih]

/-- Where the match ends before both ends, the next tokens differ. -/
theorem edgeMatchLen_next_ne {e r e' r' : List Token} {a b : Token}
    (he : e.drop (edgeMatchLen e r) = a :: e') (hr : r.drop (edgeMatchLen e r) = b :: r') :
    a ≠ b := by
  fun_induction edgeMatchLen e r with
  | case1 x e r ih => exact ih (by simpa using he) (by simpa using hr)
  | case2 x e y r hxy =>
    simp only [List.drop_zero, List.cons.injEq] at he hr
    rw [← he.1, ← hr.1]
    exact hxy
  | case3 e r hne =>
    simp only [List.drop_zero] at he hr
    exact (hne a e' b r' he hr).elim

theorem edgeMatchLen_pos {t : Token} (e r : List Token) :
    0 < edgeMatchLen (t :: e) (t :: r) := by
  simp [edgeMatchLen]

theorem edgeMatchLen_lt_iff {e r : List Token} :
    edgeMatchLen e r < e.length ↔ ¬ e <+: r := by
  rw [← edgeMatchLen_eq_length_iff]
  have := (edgeMatchLen_le e r).1
  omega

/-! ## Writes that keep the shape -/

/-- Both caches have the same tree, blocks, fingerprints and free stack. -/
structure SameTree (c c' : RadixCache) : Prop where
  length : c'.nodes.length = c.nodes.length
  free : c'.freeNodes = c.freeNodes
  blockSize : c'.blockSize = c.blockSize
  child : c'.child = c.child
  edge : c'.edge = c.edge
  block : c'.block = c.block
  fprint : c'.fprint = c.fprint

/-- Both caches have the same tree, and the same index. -/
structure SameShape (c c' : RadixCache) : Prop extends SameTree c c' where
  index : c'.blockIndex = c.blockIndex

namespace SameTree

variable {c c' : RadixCache}

theorem trie (h : SameTree c c') : c'.trie = c.trie := by
  simp only [RadixCache.trie, h.child, h.edge]

theorem holds (h : SameTree c c') {p : List Token} {b : BlockId} :
    c'.Holds p b ↔ c.Holds p b := by
  simp only [Holds, h.trie, h.block]

/-- Nodes of equal shape, slot by slot, make equal trees. -/
theorem of_nodes (hnodes : ∀ i : Nat, (c'.nodes[i]?).map Node.shape = (c.nodes[i]?).map Node.shape)
    (hfree : c'.freeNodes = c.freeNodes) (hsize : c'.blockSize = c.blockSize) :
    SameTree c c' where
  length := by
    refine Nat.le_antisymm ?_ ?_
    · have := hnodes c.nodes.length
      simpa using this
    · have := hnodes c'.nodes.length
      simpa using this.symm
  free := hfree
  blockSize := hsize
  child := by
    funext i t
    have key : ∀ c : RadixCache, c.child i t =
        ((c.nodes[i]?).map Node.shape).bind fun s => s.children.lookup t := by
      intro c
      cases h : c.nodes[i]? <;> simp [RadixCache.child, h, Node.shape]
    rw [key, key, hnodes i]
  edge := by
    funext i
    have key : ∀ c : RadixCache, c.edge i =
        (((c.nodes[i]?).map Node.shape).map Node.Shape.tokens).getD [] := by
      intro c
      cases h : c.nodes[i]? <;> simp [RadixCache.edge, h, Node.shape]
    rw [key, key, hnodes i]
  block := by
    funext i
    have key : ∀ c : RadixCache, c.block i =
        ((c.nodes[i]?).map Node.shape).bind Node.Shape.blockId := by
      intro c
      cases h : c.nodes[i]? <;> simp [RadixCache.block, h, Node.shape]
    rw [key, key, hnodes i]
  fprint := by
    funext i
    have key : ∀ c : RadixCache, c.fprint i =
        ((c.nodes[i]?).map Node.shape).bind Node.Shape.fingerprint := by
      intro c
      cases h : c.nodes[i]? <;> simp [RadixCache.fprint, h, Node.shape]
    rw [key, key, hnodes i]

theorem slots (h : SameTree c c') (hs : c.Slots) (hrefs : ∀ f ∈ c.freeNodes, c'.refs f = 0) :
    c'.Slots where
  nonempty := h.length ▸ hs.nonempty
  free_lt := by rw [h.free, h.length]; exact hs.free_lt
  free_ne_root := by rw [h.free]; exact hs.free_ne_root
  free_block := by rw [h.free, h.block]; exact hs.free_block
  free_refs := by rw [h.free]; exact hrefs _
  free_childless := by rw [h.free, h.child]; exact hs.free_childless
  free_orphan := by rw [h.free, h.child]; exact hs.free_orphan
  child_lt := by rw [h.child, h.length]; exact hs.child_lt

theorem sound (h : SameTree c c') (hs : c.Sound) (hrefs : ∀ f ∈ c.freeNodes, c'.refs f = 0) :
    c'.Sound where
  toSlots := h.slots hs.toSlots hrefs
  blockSize_pos := h.blockSize ▸ hs.blockSize_pos
  tree := h.trie ▸ hs.tree
  root_block := by rw [h.block]; exact hs.root_block
  root_fprint := by rw [h.fprint]; exact hs.root_fprint
  block_aligned := by rw [h.trie, h.block, h.blockSize]; exact hs.block_aligned
  fprint_aligned := by rw [h.trie, h.fprint, h.blockSize]; exact hs.fprint_aligned
  edge_within := by rw [h.trie, h.child, h.edge, h.blockSize]; exact hs.edge_within

end SameTree

namespace SameShape

variable {c c' c'' : RadixCache}

theorem refl (c : RadixCache) : SameShape c c := ⟨⟨rfl, rfl, rfl, rfl, rfl, rfl, rfl⟩, rfl⟩

theorem trans (h : SameShape c c') (h' : SameShape c' c'') : SameShape c c'' where
  length := h'.length.trans h.length
  free := h'.free.trans h.free
  blockSize := h'.blockSize.trans h.blockSize
  index := h'.index.trans h.index
  child := h'.child.trans h.child
  edge := h'.edge.trans h.edge
  block := h'.block.trans h.block
  fprint := h'.fprint.trans h.fprint

theorem of_nodes (hnodes : ∀ i : Nat, (c'.nodes[i]?).map Node.shape = (c.nodes[i]?).map Node.shape)
    (hfree : c'.freeNodes = c.freeNodes) (hsize : c'.blockSize = c.blockSize)
    (hindex : c'.blockIndex = c.blockIndex) : SameShape c c' :=
  ⟨.of_nodes hnodes hfree hsize, hindex⟩

end SameShape

/-- A write of one node that keeps its shape. -/
theorem modifyNode_sameShape {c c' : RadixCache} {idx : Nat} {f : Node → Node}
    (hf : ∀ node, (f node).shape = node.shape) (h : c.modifyNode idx f = some c') :
    SameShape c c' := by
  obtain ⟨node, hnode, rfl⟩ := modifyNode_eq_some.mp h
  refine .of_nodes (fun i => ?_) rfl rfl rfl
  rw [getElem?_set_nodes hnode]
  split
  · rename_i hi
    rw [hi, hnode, Option.map_some, Option.map_some, hf]
  · rfl

theorem modifyNode_refs {c c' : RadixCache} {idx : Nat} {f : Node → Node}
    (h : c.modifyNode idx f = some c') (i : Nat) :
    c'.refs i = if i = idx then (((c.nodes[idx]?).map f).map Node.refCount).getD 0
      else c.refs i := by
  obtain ⟨node, hnode, rfl⟩ := modifyNode_eq_some.mp h
  simp only [refs]
  rw [getElem?_set_nodes hnode]
  split
  · simp [hnode]
  · rfl

theorem modifyNode_isSome {c : RadixCache} {idx : Nat} (f : Node → Node)
    (h : idx < c.nodes.length) : ∃ c', c.modifyNode idx f = some c' :=
  ⟨_, modifyNode_eq_some.mpr ⟨c.nodes[idx], List.getElem?_eq_getElem h, rfl⟩⟩

theorem touch_sameShape {c c' : RadixCache} {idx now : Nat}
    (h : c.modifyNode idx (Node.touch now) = some c') : SameShape c c' :=
  modifyNode_sameShape (fun node => Node.shape_touch now node) h

theorem touch_refs {c c' : RadixCache} {idx now : Nat}
    (h : c.modifyNode idx (Node.touch now) = some c') : c'.refs = c.refs := by
  funext i
  rw [modifyNode_refs h]
  split
  · rename_i hi
    simp [hi, refs, Function.comp_def]
  · rfl

theorem tick_sameShape (c : RadixCache) : SameShape c c.tick.2 :=
  .of_nodes (fun _ => rfl) rfl rfl rfl

end Arle.PrefixCache.RadixCache
