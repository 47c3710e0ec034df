import Arle.PrefixCache.Tree

/-!
# The edits of an insertion

An insertion changes the tree in three ways: it gives a node another block (`relabel`),
hangs a new leaf (`addChild`), and puts an intermediate node on an edge (`splitEdge`). For
each edit: it succeeds, what it does to every slot, and that it keeps `Sound`.
-/

namespace Arle.PrefixCache.RadixCache

open KvTier

/-! ## A fresh slot -/

/-- What `alloc_node` does: slot `n` leaves the free stack, or is new at the end of the
vector, and now holds `node`. -/
structure Allocated (c : RadixCache) (node : Node) (n : Nat) (c' : RadixCache) : Prop where
  get : ∀ i : Nat, c'.nodes[i]? = if i = n then some node else c.nodes[i]?
  free : c.freeNodes = c'.freeNodes ++ [n] ∨ (c'.freeNodes = c.freeNodes ∧ n = c.nodes.length)
  blockSize : c'.blockSize = c.blockSize
  index : c'.blockIndex = c.blockIndex
  length_le : c.nodes.length ≤ c'.nodes.length
  lt : n < c'.nodes.length

theorem allocNode_spec {c c' : RadixCache} {node : Node} {n : Nat}
    (h : c.allocNode node = some (n, c')) : c.Allocated node n c' := by
  unfold allocNode at h
  split at h
  · rename_i idx hidx
    split at h
    · rename_i hlt
      cases h
      refine ⟨fun i => ?_, Or.inl ?_, rfl, rfl, by simp, by simpa using hlt⟩
      · exact getElem?_set_nodes (List.getElem?_eq_getElem hlt) i
      · obtain ⟨fs, hfs⟩ := List.getLast?_eq_some_iff.mp hidx
        simp [hfs]
    · cases h
  · cases h
    refine ⟨fun i => ?_, Or.inr ⟨rfl, rfl⟩, rfl, rfl, by simp, by simp⟩
    rw [List.getElem?_append]
    split
    · rename_i hi
      rw [if_neg (by omega)]
    · rename_i hi
      by_cases h : i = c.nodes.length
      · simp [h]
      · rw [if_neg h, List.getElem?_eq_none (by simp; omega), List.getElem?_eq_none (by omega)]

theorem allocNode_isSome {c : RadixCache} (hlt : ∀ {f}, f ∈ c.freeNodes → f < c.nodes.length)
    (node : Node) : ∃ n c', c.allocNode node = some (n, c') := by
  unfold allocNode
  split
  · rename_i idx hidx
    rw [if_pos (hlt (List.mem_of_getLast? hidx))]
    exact ⟨_, _, rfl⟩
  · exact ⟨_, _, rfl⟩

/-- A slot that is not part of the tree: no pointer leads to it, and it holds nothing. -/
structure Blank (c : RadixCache) (n : Nat) : Prop where
  fresh : c.trie.Fresh n
  block : c.block n = none
  refs : c.refs n = 0
  childless : ∀ t, c.child n t = none

theorem Blank.root_ne {c : RadixCache} {n : Nat} (hn : c.Blank n) : root ≠ n :=
  fun h => hn.fresh.1 h.symm

theorem Blank.not_reached {c : RadixCache} {n : Nat} (hn : c.Blank n) {p : List Token} :
    ¬ c.trie.Reaches n p := hn.fresh.not_reached

theorem Slots.blank_of_free {c : RadixCache} (hs : c.Slots) {n : Nat} (hn : n ∈ c.freeNodes) :
    c.Blank n where
  fresh := ⟨hs.free_ne_root hn, fun i t => hs.free_orphan hn i t⟩
  block := hs.free_block hn
  refs := hs.free_refs hn
  childless := hs.free_childless hn

theorem Slots.blank_length {c : RadixCache} (hs : c.Slots) : c.Blank c.nodes.length where
  fresh := by
    refine ⟨fun h => ?_, fun i t h => ?_⟩
    · have h0 : c.nodes.length = 0 := h
      have := hs.nonempty
      omega
    · exact absurd (hs.child_lt h) (Nat.lt_irrefl _)
  block := by simp [RadixCache.block]
  refs := by simp [RadixCache.refs]
  childless := by simp [RadixCache.child]

theorem Slots.blank {c : RadixCache} (hs : c.Slots) {n : Nat}
    (h : n ∈ c.freeNodes ∨ n = c.nodes.length) : c.Blank n := by
  rcases h with h | rfl
  · exact hs.blank_of_free h
  · exact hs.blank_length

theorem Allocated.free_or_length {c c' : RadixCache} {node : Node} {n : Nat}
    (h : c.Allocated node n c') : n ∈ c.freeNodes ∨ n = c.nodes.length := by
  rcases h.free with hf | ⟨-, hn⟩
  · exact Or.inl (by rw [hf]; simp)
  · exact Or.inr hn

/-- Without duplicates on the free stack, an allocated slot leaves it. -/
theorem Allocated.mem_free {c c' : RadixCache} {node : Node} {n : Nat}
    (h : c.Allocated node n c') (hlt : ∀ {f}, f ∈ c.freeNodes → f < c.nodes.length)
    (hnodup : c.freeNodes.Nodup) {f : Nat} :
    f ∈ c'.freeNodes ↔ f ∈ c.freeNodes ∧ f ≠ n := by
  rcases h.free with hf | ⟨hf, rfl⟩
  · rw [hf] at hnodup ⊢
    have hn : n ∉ c'.freeNodes := fun hn =>
      (List.nodup_append.mp hnodup).2.2 n hn n (List.mem_singleton.mpr rfl) rfl
    simp only [List.mem_append, List.mem_singleton]
    constructor
    · intro h
      exact ⟨Or.inl h, fun heq => hn (heq ▸ h)⟩
    · rintro ⟨h | h, hne⟩
      · exact h
      · exact absurd h hne
  · rw [hf]
    exact ⟨fun h => ⟨h, Nat.ne_of_lt (hlt h)⟩, fun h => h.1⟩

theorem Allocated.nodup {c c' : RadixCache} {node : Node} {n : Nat}
    (h : c.Allocated node n c') (hnodup : c.freeNodes.Nodup) : c'.freeNodes.Nodup := by
  rcases h.free with hf | ⟨hf, -⟩
  · rw [hf] at hnodup
    exact (List.nodup_append.mp hnodup).1
  · rwa [hf]

/-! ## A new leaf -/

/-- The node `n` with the edge `e` hangs below `a`, and holds the block and fingerprint
`blk`, if any. -/
structure LeafAdded (c : RadixCache) (a : Nat) (t : Token) (e : List Token)
    (blk : Option (BlockId × BlockFingerprint)) (n : Nat) (c' : RadixCache) : Prop where
  blank : c.Blank n
  ne : a ≠ n
  parent : a ∉ c.freeNodes
  head : ∃ rest, e = t :: rest
  trie : c'.trie = c.trie.addLeaf a t n e
  block : c'.block = Function.update c.block n (blk.map Prod.fst)
  fprint : c'.fprint = Function.update c.fprint n (blk.map Prod.snd)
  refs : c'.refs = Function.update c.refs n 0
  index : c'.blockIndex = indexBlock blk n c.blockIndex
  free : ∀ {f}, f ∈ c'.freeNodes ↔ f ∈ c.freeNodes ∧ f ≠ n
  nodup : c'.freeNodes.Nodup
  blockSize : c'.blockSize = c.blockSize
  length_le : c.nodes.length ≤ c'.nodes.length
  lt : n < c'.nodes.length

theorem addChild_spec {c : RadixCache} (hs : c.Slots) (hnodup : c.freeNodes.Nodup) {a : Nat}
    (ha : a < c.nodes.length) (hfree : a ∉ c.freeNodes) (t : Token) (rest : List Token)
    (blk : Option (BlockId × BlockFingerprint)) (now : Nat) :
    ∃ n c', c.addChild a (t :: rest) blk now = some (n, c') ∧
      c.LeafAdded a t (t :: rest) blk n c' := by
  set node : Node := { Node.new (t :: rest) (blk.map Prod.fst) now with
    fingerprint := blk.map Prod.snd } with hnode
  obtain ⟨n, c₁, hn⟩ := allocNode_isSome hs.free_lt node
  have halloc := allocNode_spec hn
  have hblank := hs.blank halloc.free_or_length
  have han : a ≠ n := by
    rintro rfl
    rcases halloc.free_or_length with hf | hlen
    · exact hfree hf
    · omega
  obtain ⟨na, hna⟩ : ∃ na, c.nodes[a]? = some na := ⟨_, List.getElem?_eq_getElem ha⟩
  set c₂ : RadixCache := { c₁ with blockIndex := indexBlock blk n c₁.blockIndex } with hc₂
  have hna₂ : c₂.nodes[a]? = some na := by
    show c₁.nodes[a]? = some na
    rw [halloc.get, if_neg han, hna]
  set c₃ : RadixCache := { c₂ with
    nodes := c₂.nodes.set a { na with children := na.children.insert t n } } with hc₃
  have hget : ∀ i : Nat, c₃.nodes[i]? =
      if i = a then some { na with children := na.children.insert t n }
      else if i = n then some node else c.nodes[i]? := by
    intro i
    rw [hc₃, getElem?_set_nodes hna₂]
    show (if i = a then _ else c₁.nodes[i]?) = _
    rw [halloc.get]
  refine ⟨n, c₃, ?_, ?_⟩
  · have hmod : c₂.modifyNode a (fun n' => { n' with children := n'.children.insert t n }) =
        some c₃ := modifyNode_eq_some.mpr ⟨na, hna₂, hc₃⟩
    simp only [addChild, List.getElem?_cons_zero, Option.bind_eq_bind, Option.bind_some, ← hnode,
      hn]
    rw [← hc₂, hmod]
    rfl
  · refine
      { blank := hblank, ne := han, parent := hfree, head := ⟨rest, rfl⟩, trie := ?_, block := ?_,
        fprint := ?_, refs := ?_,
        index := ?_, free := ?_, nodup := ?_, blockSize := ?_, length_le := ?_, lt := ?_ }
    · refine RadixTree.ext rfl ?_ ?_
      · funext i s
        simp only [RadixCache.trie, RadixTree.addLeaf, RadixCache.child, hget]
        by_cases hia : i = a
        · simp [hia, han, hna, Assoc.lookup_insert_eq]
        · by_cases hin : i = n
          · simp [hin, Ne.symm han, hnode, Node.new]
          · simp [hia, hin]
      · funext i
        simp only [RadixCache.trie, RadixTree.addLeaf, RadixCache.edge, hget]
        by_cases hia : i = a
        · simp [hia, han, hna]
        · by_cases hin : i = n
          · simp [hin, Ne.symm han, hnode, Node.new]
          · simp [hia, hin]
    · funext i
      simp only [Function.update_apply, RadixCache.block, hget]
      by_cases hia : i = a
      · simp [hia, han, hna]
      · by_cases hin : i = n
        · simp [hin, Ne.symm han, hnode, Node.new]
        · simp [hia, hin]
    · funext i
      simp only [Function.update_apply, RadixCache.fprint, hget]
      by_cases hia : i = a
      · simp [hia, han, hna]
      · by_cases hin : i = n
        · simp [hin, Ne.symm han, hnode]
        · simp [hia, hin]
    · funext i
      simp only [Function.update_apply, RadixCache.refs, hget]
      by_cases hia : i = a
      · simp [hia, han, hna]
      · by_cases hin : i = n
        · simp [hin, Ne.symm han, hnode, Node.new]
        · simp [hia, hin]
    · show indexBlock blk n c₁.blockIndex = _
      rw [halloc.index]
    · exact halloc.mem_free hs.free_lt hnodup
    · exact halloc.nodup hnodup
    · exact halloc.blockSize
    · simpa [hc₃, hc₂] using halloc.length_le
    · simpa [hc₃, hc₂] using halloc.lt

/-! ## A split edge -/

/-- The node `d` sits on the edge from `a` to `j`, after `k` tokens. -/
structure EdgeSplit (c : RadixCache) (a : Nat) (t : Token) (j k d : Nat) (c' : RadixCache) :
    Prop where
  blank : c.Blank d
  slot : d ∈ c.freeNodes ∨ d = c.nodes.length
  ne : a ≠ d
  trie : c'.trie = c.trie.splitEdge a t j d k
  block : c'.block = Function.update c.block d none
  fprint : c'.fprint = Function.update c.fprint d none
  refs : c'.refs = Function.update c.refs d (c.refs j)
  index : c'.blockIndex = c.blockIndex
  free : ∀ {f}, f ∈ c'.freeNodes ↔ f ∈ c.freeNodes ∧ f ≠ d
  nodup : c'.freeNodes.Nodup
  blockSize : c'.blockSize = c.blockSize
  length_le : c.nodes.length ≤ c'.nodes.length
  lt : d < c'.nodes.length

theorem splitEdge_spec {c : RadixCache} (hs : c.Slots) (hnodup : c.freeNodes.Nodup)
    (hT : c.trie.WellFormed) {a j k : Nat} {t : Token} (hfree : a ∉ c.freeNodes)
    (haj : c.child a t = some j) (hk : k < (c.edge j).length) (now : Nat) :
    ∃ d c', c.splitEdge a j t k now = some (d, c') ∧ c.EdgeSplit a t j k d c' := by
  have ha : a < c.nodes.length := lt_length_of_child haj
  have hj : j < c.nodes.length := hs.child_lt haj
  have hjfree : j ∉ c.freeNodes := fun h => hs.free_orphan h _ _ haj
  have haj' : a ≠ j := by
    rintro rfl
    obtain ⟨rank, hr⟩ := hT.ranked
    exact absurd (hr _ _ _ haj) (Nat.lt_irrefl _)
  obtain ⟨na, hna⟩ : ∃ na, c.nodes[a]? = some na := ⟨_, List.getElem?_eq_getElem ha⟩
  obtain ⟨nj, hnj⟩ : ∃ nj, c.nodes[j]? = some nj := ⟨_, List.getElem?_eq_getElem hj⟩
  have hedge : c.edge j = nj.tokens := by simp [RadixCache.edge, hnj]
  rw [hedge] at hk
  obtain ⟨first, rest, hrest⟩ : ∃ first rest, nj.tokens.drop k = first :: rest := by
    cases h : nj.tokens.drop k with
    | nil => exact absurd (List.drop_eq_nil_iff.mp h) (by omega)
    | cons first rest => exact ⟨first, rest, rfl⟩
  set shared : Node := { Node.new (nj.tokens.take k) none now with
    refCount := nj.refCount } with hshared
  set c₁ : RadixCache := { c with
    nodes := c.nodes.set j { nj with tokens := [], children := ∅ } } with hc₁
  have hlen₁ : c₁.nodes.length = c.nodes.length := by simp [hc₁]
  have hlt₁ : ∀ {f}, f ∈ c₁.freeNodes → f < c₁.nodes.length := by
    rw [hlen₁]
    exact hs.free_lt
  obtain ⟨d, c₂, hd⟩ := allocNode_isSome hlt₁ shared
  have halloc := allocNode_spec hd
  have hblank : c.Blank d := hs.blank (hlen₁ ▸ halloc.free_or_length)
  have had : a ≠ d := by
    rintro rfl
    rcases halloc.free_or_length with hf | hlen
    · exact hfree hf
    · omega
  have hjd : j ≠ d := by
    rintro rfl
    rcases halloc.free_or_length with hf | hlen
    · exact hjfree hf
    · omega
  set moved : Node := { nj with tokens := nj.tokens.drop k } with hmoved
  set shared' : Node := { shared with children := (∅ : Assoc Token Nat).insert first j }
    with hshared'
  set na' : Node := { na with children := na.children.insert t d } with hna'
  -- the five writes, one after the other
  have hget₂ : c₂.nodes[j]? = some { nj with tokens := [], children := ∅ } := by
    rw [halloc.get, if_neg hjd, hc₁, getElem?_set_nodes hnj, if_pos rfl]
  set c₃ : RadixCache := { c₂ with nodes := c₂.nodes.set j moved } with hc₃
  have hget₃ : c₃.nodes[d]? = some shared := by
    rw [hc₃, getElem?_set_nodes hget₂, if_neg (Ne.symm hjd), halloc.get, if_pos rfl]
  have hgetj₃ : c₃.nodes[j]? = some moved := by
    rw [hc₃, getElem?_set_nodes hget₂, if_pos rfl]
  set c₄ : RadixCache := { c₃ with nodes := c₃.nodes.set d shared' } with hc₄
  have hget₄ : c₄.nodes[a]? = some na := by
    rw [hc₄, getElem?_set_nodes hget₃, if_neg had, hc₃, getElem?_set_nodes hget₂, if_neg haj',
      halloc.get, if_neg had, hc₁, getElem?_set_nodes hnj, if_neg haj', hna]
  set c₅ : RadixCache := { c₄ with nodes := c₄.nodes.set a na' } with hc₅
  have hget : ∀ i : Nat, c₅.nodes[i]? =
      if i = a then some na' else if i = d then some shared'
      else if i = j then some moved else c.nodes[i]? := by
    intro i
    rw [hc₅, getElem?_set_nodes hget₄, hc₄, getElem?_set_nodes hget₃, hc₃,
      getElem?_set_nodes hget₂, halloc.get, hc₁, getElem?_set_nodes hnj]
    by_cases h₁ : i = a
    · simp [h₁]
    · by_cases h₂ : i = d
      · simp [h₂]
      · by_cases h₃ : i = j <;> simp [h₁, h₂, h₃]
  refine ⟨d, c₅, ?_, ?_⟩
  · have h₁ : c.modifyNode j (fun n => { n with tokens := [], children := ∅ }) = some c₁ :=
      modifyNode_eq_some.mpr ⟨nj, hnj, hc₁⟩
    have h₃ : c₂.modifyNode j (fun n => { n with
        tokens := nj.tokens.drop k, blockId := nj.blockId, children := nj.children }) = some c₃ :=
      modifyNode_eq_some.mpr ⟨_, hget₂, hc₃⟩
    have h₄ : c₃.modifyNode d (fun n => { n with
        children := n.children.insert first j }) = some c₄ :=
      modifyNode_eq_some.mpr ⟨_, hget₃, hc₄⟩
    have h₅ : c₄.modifyNode a (fun n => { n with
        children := n.children.insert t d }) = some c₅ :=
      modifyNode_eq_some.mpr ⟨_, hget₄, hc₅⟩
    simp only [splitEdge, hnj, Option.bind_eq_bind, Option.bind_some, h₁, ← hshared, hd, h₃,
      hgetj₃]
    simp only [hmoved, hrest, List.getElem?_cons_zero, Option.bind_some, h₄, h₅]
  · refine
      { blank := hblank, slot := hlen₁ ▸ halloc.free_or_length, ne := had, trie := ?_,
        block := ?_, fprint := ?_, refs := ?_, index := ?_,
        free := ?_, nodup := ?_, blockSize := ?_, length_le := ?_, lt := ?_ }
    · refine RadixTree.ext rfl ?_ ?_
      · funext i s
        simp only [RadixCache.trie, RadixTree.splitEdge, RadixCache.child, hget, hedge, hrest]
        by_cases h₁ : i = a
        · simp [h₁, had, hna, hna', Assoc.lookup_insert_eq]
        · by_cases h₂ : i = d
          · have hempty : AList.lookup s (∅ : Assoc Token Nat) = none := AList.lookup_empty s
            rw [if_neg (h₂ ▸ Ne.symm had), if_pos h₂, Option.bind_some, hshared',
              Assoc.lookup_insert_eq, hempty, if_pos h₂]
            simp only [List.head?_cons, Option.some.injEq, eq_comm]
          · by_cases h₃ : i = j
            · simp [h₃, Ne.symm haj', hjd, hnj, hmoved]
            · simp [h₁, h₂, h₃]
      · funext i
        simp only [RadixCache.trie, RadixTree.splitEdge, RadixCache.edge, hget]
        by_cases h₁ : i = a
        · simp [h₁, had, haj', hna, hna']
        · by_cases h₂ : i = d
          · simp [h₂, Ne.symm had, hshared', hshared, Node.new, hnj]
          · by_cases h₃ : i = j
            · simp [h₃, Ne.symm haj', hjd, hnj, hmoved]
            · simp [h₁, h₂, h₃]
    · funext i
      simp only [Function.update_apply, RadixCache.block, hget]
      by_cases h₁ : i = a
      · simp [h₁, had, hna, hna']
      · by_cases h₂ : i = d
        · simp [h₂, Ne.symm had, hshared', hshared, Node.new]
        · by_cases h₃ : i = j
          · simp [h₃, Ne.symm haj', hjd, hnj, hmoved]
          · simp [h₁, h₂, h₃]
    · funext i
      simp only [Function.update_apply, RadixCache.fprint, hget]
      by_cases h₁ : i = a
      · simp [h₁, had, hna, hna']
      · by_cases h₂ : i = d
        · simp [h₂, Ne.symm had, hshared', hshared, Node.new]
        · by_cases h₃ : i = j
          · simp [h₃, Ne.symm haj', hjd, hnj, hmoved]
          · simp [h₁, h₂, h₃]
    · funext i
      simp only [Function.update_apply, RadixCache.refs, hget]
      by_cases h₁ : i = a
      · simp [h₁, had, hna, hna']
      · by_cases h₂ : i = d
        · simp [h₂, Ne.symm had, hshared', hshared, hnj]
        · by_cases h₃ : i = j
          · simp [h₃, Ne.symm haj', hjd, hnj, hmoved]
          · simp [h₁, h₂, h₃]
    · exact halloc.index
    · exact halloc.mem_free hlt₁ hnodup
    · exact halloc.nodup hnodup
    · exact halloc.blockSize
    · have := halloc.length_le
      rw [hlen₁] at this
      simpa [hc₅, hc₄, hc₃] using this
    · simpa [hc₅, hc₄, hc₃] using halloc.lt

/-! ## Another block for a node -/

/-- The node `j` holds the block `new` instead of `old`. -/
structure Relabeled (c : RadixCache) (j : Nat) (old new : BlockId) (fp : BlockFingerprint)
    (c' : RadixCache) : Prop where
  trie : c'.trie = c.trie
  block : c'.block = Function.update c.block j (some new)
  fprint : c'.fprint = Function.update c.fprint j (some fp)
  refs : c'.refs = c.refs
  index : c'.blockIndex =
    (if old ≠ new then c.blockIndex.erase old else c.blockIndex).insert new j
  free : c'.freeNodes = c.freeNodes
  blockSize : c'.blockSize = c.blockSize
  length : c'.nodes.length = c.nodes.length

theorem relabel_spec {c : RadixCache} {j : Nat} (hj : j < c.nodes.length) (old new : BlockId)
    (fp : BlockFingerprint) :
    ∃ c', c.relabel j old new fp = some c' ∧ c.Relabeled j old new fp c' := by
  obtain ⟨nj, hnj⟩ : ∃ nj, c.nodes[j]? = some nj := ⟨_, List.getElem?_eq_getElem hj⟩
  set c₁ : RadixCache :=
    if old ≠ new then { c with blockIndex := c.blockIndex.erase old } else c with hc₁
  have hnodes : c₁.nodes = c.nodes := by rw [hc₁]; split <;> rfl
  have hfree : c₁.freeNodes = c.freeNodes := by rw [hc₁]; split <;> rfl
  have hsize : c₁.blockSize = c.blockSize := by rw [hc₁]; split <;> rfl
  have hindex : c₁.blockIndex =
      if old ≠ new then c.blockIndex.erase old else c.blockIndex := by rw [hc₁]; split <;> rfl
  set nj' : Node := { nj with blockId := some new, fingerprint := some fp } with hnj'
  set c₂ : RadixCache := { c₁ with nodes := c₁.nodes.set j nj' } with hc₂
  set c₃ : RadixCache := { c₂ with blockIndex := c₂.blockIndex.insert new j } with hc₃
  have hget : ∀ i : Nat, c₃.nodes[i]? = if i = j then some nj' else c.nodes[i]? := by
    intro i
    show (c₁.nodes.set j nj')[i]? = _
    rw [hnodes, getElem?_set_nodes hnj]
  refine ⟨c₃, ?_, ?_⟩
  · have hmod : c₁.modifyNode j (fun n => { n with
        blockId := some new, fingerprint := some fp }) = some c₂ :=
      modifyNode_eq_some.mpr ⟨nj, by rw [hnodes, hnj], hc₂⟩
    simp only [relabel, ← hc₁, hmod, Option.bind_eq_bind, Option.bind_some]
    rfl
  · have hchild : c₃.child = c.child := by
      funext i t
      simp only [RadixCache.child, hget]
      by_cases hi : i = j <;> simp [hi, hnj, hnj']
    have hedge : c₃.edge = c.edge := by
      funext i
      simp only [RadixCache.edge, hget]
      by_cases hi : i = j <;> simp [hi, hnj, hnj']
    refine
      { trie := ?_, block := ?_, fprint := ?_, refs := ?_, index := ?_, free := hfree,
        blockSize := hsize, length := ?_ }
    · simp only [RadixCache.trie, hchild, hedge]
    · funext i
      simp only [Function.update_apply, RadixCache.block, hget]
      by_cases hi : i = j <;> simp [hi, hnj']
    · funext i
      simp only [Function.update_apply, RadixCache.fprint, hget]
      by_cases hi : i = j <;> simp [hi, hnj']
    · funext i
      simp only [RadixCache.refs, hget]
      by_cases hi : i = j <;> simp [hi, hnj, hnj']
    · show c₁.blockIndex.insert new j = _
      rw [hindex]
    · simp [hc₃, hc₂, hnodes]

end Arle.PrefixCache.RadixCache
