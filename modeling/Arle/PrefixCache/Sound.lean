import Arle.Lib.WindowMap
import Arle.PrefixCache.Edit

/-!
# Every edit keeps the tree sound

`Sound` is kept by a new leaf that ends within its block window, by a split edge, and by
another block for a node. With it come the words the tree leads to after each edit, and
what the cache holds there.
-/

namespace Arle.PrefixCache.RadixCache

open KvTier

section Sound

variable {c c' : RadixCache}

theorem Sound.reaches_unique (hs : c.Sound) {i : Nat} {p q : List Token}
    (hp : c.trie.Reaches i p) (hq : c.trie.Reaches i q) : p = q :=
  RadixTree.reaches_path_unique hs.tree hp hq

theorem Sound.root_lt (hs : c.Sound) : root < c.nodes.length := hs.nonempty

/-! ## A new leaf -/

section Leaf

variable {a n : Nat} {t : Token} {e : List Token} {blk : Option (BlockId × BlockFingerprint)}

theorem LeafAdded.child_cases (h : c.LeafAdded a t e blk n c') {i j : Nat} {s : Token}
    (hj : c'.child i s = some j) :
    (i = a ∧ s = t ∧ j = n) ∨ (i ≠ n ∧ c.child i s = some j) := by
  have hj' : c'.trie.child i s = some j := hj
  rw [h.trie] at hj'
  obtain ⟨hin, hnew | ⟨-, hold⟩⟩ := RadixTree.addLeaf_child_eq_some.mp hj'
  · exact Or.inl hnew
  · exact Or.inr ⟨hin, hold⟩

theorem LeafAdded.edge_new (h : c.LeafAdded a t e blk n c') : c'.edge n = e := by
  have : c'.trie.edge n = e := by
    rw [h.trie]
    simp [RadixTree.addLeaf]
  exact this

theorem LeafAdded.edge_old (h : c.LeafAdded a t e blk n c') {i : Nat} (hi : i ≠ n) :
    c'.edge i = c.edge i := by
  have : c'.trie.edge i = c.trie.edge i := by
    rw [h.trie, RadixTree.addLeaf_edge_of_ne hi]
  exact this

theorem LeafAdded.slots (h : c.LeafAdded a t e blk n c') (hs : c.Slots) : c'.Slots where
  nonempty := Nat.lt_of_lt_of_le hs.nonempty h.length_le
  free_lt := fun hf => Nat.lt_of_lt_of_le (hs.free_lt (h.free.mp hf).1) h.length_le
  free_ne_root := fun hf => hs.free_ne_root (h.free.mp hf).1
  free_block := by
    intro f hf
    rw [h.block, Function.update_of_ne (h.free.mp hf).2]
    exact hs.free_block (h.free.mp hf).1
  free_refs := by
    intro f hf
    rw [h.refs, Function.update_of_ne (h.free.mp hf).2]
    exact hs.free_refs (h.free.mp hf).1
  free_childless := by
    intro f hf s
    cases hj : c'.child f s with
    | none => rfl
    | some j =>
      rcases h.child_cases hj with ⟨rfl, rfl, rfl⟩ | ⟨-, hold⟩
      · exact absurd (h.free.mp hf).1 h.parent
      · rw [hs.free_childless (h.free.mp hf).1] at hold
        cases hold
  free_orphan := by
    intro f hf i s hj
    rcases h.child_cases hj with ⟨-, -, rfl⟩ | ⟨-, hold⟩
    · exact (h.free.mp hf).2 rfl
    · exact hs.free_orphan (h.free.mp hf).1 _ _ hold
  child_lt := by
    intro i s j hj
    rcases h.child_cases hj with ⟨-, -, rfl⟩ | ⟨-, hold⟩
    · exact h.lt
    · exact Nat.lt_of_lt_of_le (hs.child_lt hold) h.length_le

theorem LeafAdded.reaches (h : c.LeafAdded a t e blk n c') (hfree : c.child a t = none)
    {i : Nat} {p : List Token} :
    c'.trie.Reaches i p ↔
      c.trie.Reaches i p ∨ (i = n ∧ ∃ q, c.trie.Reaches a q ∧ p = q ++ e) := by
  rw [h.trie]
  exact RadixTree.addLeaf_reaches h.blank.fresh h.ne hfree

theorem LeafAdded.reaches_old (h : c.LeafAdded a t e blk n c') (hfree : c.child a t = none)
    {i : Nat} {p : List Token} (hi : i ≠ n) :
    c'.trie.Reaches i p ↔ c.trie.Reaches i p := by
  rw [h.reaches hfree]
  exact ⟨fun hp => hp.resolve_right fun hn => hi hn.1, Or.inl⟩

/-- What the cache holds after a new leaf: what it held, and the block of the leaf. -/
theorem LeafAdded.holds (h : c.LeafAdded a t e blk n c') (hs : c.Sound)
    (hfree : c.child a t = none) {q : List Token} (ha : c.trie.Reaches a q) {p : List Token}
    {b : BlockId} :
    c'.Holds p b ↔ c.Holds p b ∨ (p = q ++ e ∧ blk.map Prod.fst = some b) := by
  constructor
  · rintro ⟨i, hi, hb⟩
    rw [h.block] at hb
    by_cases hin : i = n
    · subst hin
      rw [Function.update_self] at hb
      rcases (h.reaches hfree).mp hi with hold | ⟨-, q', hq', rfl⟩
      · exact absurd hold h.blank.not_reached
      · exact Or.inr ⟨by rw [hs.reaches_unique hq' ha], hb⟩
    · rw [Function.update_of_ne hin] at hb
      exact Or.inl ⟨i, (h.reaches_old hfree hin).mp hi, hb⟩
  · rintro (⟨i, hi, hb⟩ | ⟨rfl, hb⟩)
    · have hin : i ≠ n := fun hin => h.blank.not_reached (hin ▸ hi)
      exact ⟨i, (h.reaches_old hfree hin).mpr hi, by rw [h.block, Function.update_of_ne hin, hb]⟩
    · exact ⟨n, (h.reaches hfree).mpr (Or.inr ⟨rfl, q, ha, rfl⟩), by
        rw [h.block, Function.update_self, hb]⟩

theorem LeafAdded.sound (h : c.LeafAdded a t e blk n c') (hs : c.Sound)
    (hfree : c.child a t = none) {q : List Token}
    (ha : c.trie.Reaches a q) (hwithin : q.length % c.blockSize + e.length ≤ c.blockSize)
    (hblk : blk ≠ none → c.blockSize ∣ (q ++ e).length) : c'.Sound where
  toSlots := h.slots hs.toSlots
  blockSize_pos := h.blockSize ▸ hs.blockSize_pos
  tree := by
    obtain ⟨rest, he⟩ := h.head
    exact h.trie ▸ hs.tree.addLeaf h.blank.fresh h.ne he
  root_block := by
    rw [h.block, Function.update_of_ne h.blank.root_ne]
    exact hs.root_block
  root_fprint := by
    rw [h.fprint, Function.update_of_ne h.blank.root_ne]
    exact hs.root_fprint
  block_aligned := by
    intro i p hi hb
    rw [h.blockSize]
    rw [h.block] at hb
    rcases (h.reaches hfree).mp hi with hold | ⟨rfl, q', hq', rfl⟩
    · have hin : i ≠ n := fun hin => h.blank.not_reached (hin ▸ hold)
      rw [Function.update_of_ne hin] at hb
      exact hs.block_aligned hold hb
    · rw [Function.update_self] at hb
      rw [hs.reaches_unique hq' ha]
      exact hblk fun hnone => hb (by rw [hnone, Option.map_none])
  fprint_aligned := by
    intro i p hi hb
    rw [h.blockSize]
    rw [h.fprint] at hb
    rcases (h.reaches hfree).mp hi with hold | ⟨rfl, q', hq', rfl⟩
    · have hin : i ≠ n := fun hin => h.blank.not_reached (hin ▸ hold)
      rw [Function.update_of_ne hin] at hb
      exact hs.fprint_aligned hold hb
    · rw [Function.update_self] at hb
      rw [hs.reaches_unique hq' ha]
      exact hblk fun hnone => hb (by rw [hnone, Option.map_none])
  edge_within := by
    intro i p s j hi hj
    rw [h.blockSize]
    rcases h.child_cases hj with ⟨rfl, rfl, rfl⟩ | ⟨hin, hold⟩
    · rw [h.edge_new, hs.reaches_unique ((h.reaches_old hfree h.ne).mp hi) ha]
      exact hwithin
    · have hjn : j ≠ n := fun hjn => h.blank.fresh.2 i s (hjn ▸ hold)
      rw [h.edge_old hjn]
      exact hs.edge_within ((h.reaches_old hfree hin).mp hi) hold

end Leaf

/-! ## A split edge -/

section Split

variable {a j k d : Nat} {t : Token}

theorem EdgeSplit.child_cases (h : c.EdgeSplit a t j k d c') {i m : Nat} {s : Token}
    (hm : c'.child i s = some m) :
    (i = d ∧ m = j) ∨ (i = a ∧ s = t ∧ m = d) ∨
      (i ≠ d ∧ ¬ (i = a ∧ s = t) ∧ c.child i s = some m) := by
  have hm' : c'.trie.child i s = some m := hm
  rw [h.trie] at hm'
  rcases RadixTree.splitEdge_child_eq_some.mp hm' with ⟨hi, hj, -⟩ | ⟨-, hnew⟩ | hold
  · exact Or.inl ⟨hi, hj⟩
  · exact Or.inr (Or.inl hnew)
  · exact Or.inr (Or.inr hold)

theorem EdgeSplit.edge_new (h : c.EdgeSplit a t j k d c') : c'.edge d = (c.edge j).take k := by
  have : c'.trie.edge d = (c.trie.edge j).take k := by
    rw [h.trie, RadixTree.splitEdge_edge_new]
  exact this

theorem EdgeSplit.edge_lower (h : c.EdgeSplit a t j k d c') (hjd : j ≠ d) :
    c'.edge j = (c.edge j).drop k := by
  have : c'.trie.edge j = (c.trie.edge j).drop k := by
    rw [h.trie, RadixTree.splitEdge_edge_lower hjd]
  exact this

theorem EdgeSplit.edge_old (h : c.EdgeSplit a t j k d c') {i : Nat} (hd : i ≠ d) (hj : i ≠ j) :
    c'.edge i = c.edge i := by
  have : c'.trie.edge i = c.trie.edge i := by
    rw [h.trie, RadixTree.splitEdge_edge_of_ne hd hj]
  exact this

theorem EdgeSplit.lower_ne (h : c.EdgeSplit a t j k d c') (haj : c.child a t = some j) :
    j ≠ d := fun hjd => h.blank.fresh.2 a t (hjd ▸ haj)

theorem EdgeSplit.slots (h : c.EdgeSplit a t j k d c') (hs : c.Slots)
    (haj : c.child a t = some j) : c'.Slots where
  nonempty := Nat.lt_of_lt_of_le hs.nonempty h.length_le
  free_lt := fun hf => Nat.lt_of_lt_of_le (hs.free_lt (h.free.mp hf).1) h.length_le
  free_ne_root := fun hf => hs.free_ne_root (h.free.mp hf).1
  free_block := by
    intro f hf
    rw [h.block, Function.update_of_ne (h.free.mp hf).2]
    exact hs.free_block (h.free.mp hf).1
  free_refs := by
    intro f hf
    rw [h.refs, Function.update_of_ne (h.free.mp hf).2]
    exact hs.free_refs (h.free.mp hf).1
  free_childless := by
    intro f hf s
    cases hm : c'.child f s with
    | none => rfl
    | some m =>
      have hblank := hs.free_childless (h.free.mp hf).1
      rcases h.child_cases hm with ⟨rfl, -⟩ | ⟨rfl, -, -⟩ | ⟨-, -, hold⟩
      · exact absurd rfl (h.free.mp hf).2
      · rw [hblank] at haj
        cases haj
      · rw [hblank] at hold
        cases hold
  free_orphan := by
    intro f hf i s hm
    have horphan := hs.free_orphan (h.free.mp hf).1
    rcases h.child_cases hm with ⟨-, rfl⟩ | ⟨-, -, rfl⟩ | ⟨-, -, hold⟩
    · exact horphan _ _ haj
    · exact (h.free.mp hf).2 rfl
    · exact horphan _ _ hold
  child_lt := by
    intro i s m hm
    rcases h.child_cases hm with ⟨-, rfl⟩ | ⟨-, -, rfl⟩ | ⟨-, -, hold⟩
    · exact Nat.lt_of_lt_of_le (hs.child_lt haj) h.length_le
    · exact h.lt
    · exact Nat.lt_of_lt_of_le (hs.child_lt hold) h.length_le

theorem EdgeSplit.reaches (h : c.EdgeSplit a t j k d c') (hs : c.Sound)
    (haj : c.child a t = some j) (hk : k < (c.edge j).length) {i : Nat} {p : List Token} :
    c'.trie.Reaches i p ↔
      c.trie.Reaches i p ∨ (i = d ∧ ∃ q, c.trie.Reaches a q ∧ p = q ++ (c.edge j).take k) := by
  rw [h.trie]
  exact RadixTree.splitEdge_reaches hs.tree h.blank.fresh h.ne haj hk

theorem EdgeSplit.reaches_old (h : c.EdgeSplit a t j k d c') (hs : c.Sound)
    (haj : c.child a t = some j) (hk : k < (c.edge j).length) {i : Nat} {p : List Token}
    (hi : i ≠ d) : c'.trie.Reaches i p ↔ c.trie.Reaches i p := by
  rw [h.reaches hs haj hk]
  exact ⟨fun hp => hp.resolve_right fun hn => hi hn.1, Or.inl⟩

/-- A split moves no block. -/
theorem EdgeSplit.holds (h : c.EdgeSplit a t j k d c') (hs : c.Sound)
    (haj : c.child a t = some j) (hk : k < (c.edge j).length) {p : List Token} {b : BlockId} :
    c'.Holds p b ↔ c.Holds p b := by
  constructor
  · rintro ⟨i, hi, hb⟩
    rw [h.block] at hb
    have hid : i ≠ d := by
      rintro rfl
      rw [Function.update_self] at hb
      cases hb
    rw [Function.update_of_ne hid] at hb
    exact ⟨i, (h.reaches_old hs haj hk hid).mp hi, hb⟩
  · rintro ⟨i, hi, hb⟩
    have hid : i ≠ d := fun hid => h.blank.not_reached (hid ▸ hi)
    exact ⟨i, (h.reaches_old hs haj hk hid).mpr hi, by
      rw [h.block, Function.update_of_ne hid, hb]⟩

theorem EdgeSplit.sound (h : c.EdgeSplit a t j k d c') (hs : c.Sound)
    (haj : c.child a t = some j) (hk0 : 0 < k) (hk : k < (c.edge j).length) : c'.Sound where
  toSlots := h.slots hs.toSlots haj
  blockSize_pos := h.blockSize ▸ hs.blockSize_pos
  tree := h.trie ▸ hs.tree.splitEdge h.blank.fresh h.ne haj hk0
  root_block := by
    rw [h.block, Function.update_of_ne h.blank.root_ne]
    exact hs.root_block
  root_fprint := by
    rw [h.fprint, Function.update_of_ne h.blank.root_ne]
    exact hs.root_fprint
  block_aligned := by
    intro i p hi hb
    rw [h.blockSize]
    rw [h.block] at hb
    have hid : i ≠ d := by
      rintro rfl
      exact hb (Function.update_self ..)
    rw [Function.update_of_ne hid] at hb
    exact hs.block_aligned ((h.reaches_old hs haj hk hid).mp hi) hb
  fprint_aligned := by
    intro i p hi hb
    rw [h.blockSize]
    rw [h.fprint] at hb
    have hid : i ≠ d := by
      rintro rfl
      exact hb (Function.update_self ..)
    rw [Function.update_of_ne hid] at hb
    exact hs.fprint_aligned ((h.reaches_old hs haj hk hid).mp hi) hb
  edge_within := by
    intro i p s m hi hm
    have hjd := h.lower_ne haj
    rw [h.blockSize]
    rcases h.child_cases hm with ⟨rfl, rfl⟩ | ⟨rfl, rfl, rfl⟩ | ⟨hid, hne, hold⟩
    · rcases (h.reaches hs haj hk).mp hi with hold | ⟨-, q, hq, rfl⟩
      · exact absurd hold h.blank.not_reached
      · have := hs.edge_within hq haj
        rw [h.edge_lower hjd, List.length_append, List.length_take, List.length_drop,
          Nat.min_eq_left (Nat.le_of_lt hk), add_mod_of_within (by omega)]
        omega
    · have := hs.edge_within ((h.reaches_old hs haj hk h.ne).mp hi) haj
      rw [h.edge_new, List.length_take]
      omega
    · have hmd : m ≠ d := fun hmd => h.blank.fresh.2 i s (hmd ▸ hold)
      have hmj : m ≠ j := by
        rintro rfl
        exact hne ⟨hs.tree.parent_unique hold haj, hs.tree.letter_unique hold haj⟩
      rw [h.edge_old hmd hmj]
      exact hs.edge_within ((h.reaches_old hs haj hk hid).mp hi) hold

end Split

/-! ## Another block for a node -/

section Relabel

variable {j : Nat} {old new : BlockId} {fp : BlockFingerprint}

theorem Relabeled.child (h : c.Relabeled j old new fp c') : c'.child = c.child := by
  have : c'.trie.child = c.trie.child := by rw [h.trie]
  exact this

theorem Relabeled.edge (h : c.Relabeled j old new fp c') : c'.edge = c.edge := by
  have : c'.trie.edge = c.trie.edge := by rw [h.trie]
  exact this

theorem Relabeled.slots (h : c.Relabeled j old new fp c') (hs : c.Slots)
    (hj : c.block j = some old) : c'.Slots where
  nonempty := h.length ▸ hs.nonempty
  free_lt := by rw [h.free, h.length]; exact hs.free_lt
  free_ne_root := by rw [h.free]; exact hs.free_ne_root
  free_block := by
    intro f hf
    rw [h.free] at hf
    have hfj : f ≠ j := by
      rintro rfl
      rw [hs.free_block hf] at hj
      cases hj
    rw [h.block, Function.update_of_ne hfj]
    exact hs.free_block hf
  free_refs := by rw [h.free, h.refs]; exact hs.free_refs
  free_childless := by rw [h.free, h.child]; exact hs.free_childless
  free_orphan := by rw [h.free, h.child]; exact hs.free_orphan
  child_lt := by rw [h.child, h.length]; exact hs.child_lt

theorem Relabeled.sound (h : c.Relabeled j old new fp c') (hs : c.Sound)
    (hj : c.block j = some old) : c'.Sound where
  toSlots := h.slots hs.toSlots hj
  blockSize_pos := h.blockSize ▸ hs.blockSize_pos
  tree := h.trie ▸ hs.tree
  root_block := by
    have hroot : root ≠ j := by
      rintro rfl
      rw [hs.root_block] at hj
      cases hj
    rw [h.block, Function.update_of_ne hroot]
    exact hs.root_block
  root_fprint := by
    have hroot : root ≠ j := by
      rintro rfl
      rw [hs.root_block] at hj
      cases hj
    rw [h.fprint, Function.update_of_ne hroot]
    exact hs.root_fprint
  block_aligned := by
    intro i p hi hb
    rw [h.trie] at hi
    rw [h.blockSize]
    by_cases hij : i = j
    · subst hij
      exact hs.block_aligned hi (by rw [hj]; simp)
    · rw [h.block, Function.update_of_ne hij] at hb
      exact hs.block_aligned hi hb
  fprint_aligned := by
    intro i p hi hb
    rw [h.trie] at hi
    rw [h.blockSize]
    by_cases hij : i = j
    · subst hij
      exact hs.block_aligned hi (by rw [hj]; simp)
    · rw [h.fprint, Function.update_of_ne hij] at hb
      exact hs.fprint_aligned hi hb
  edge_within := by rw [h.trie, h.child, h.edge, h.blockSize]; exact hs.edge_within

theorem Relabeled.holds (h : c.Relabeled j old new fp c') (hs : c.Sound) {q : List Token}
    (hj : c.trie.Reaches j q) {p : List Token} {b : BlockId} :
    c'.Holds p b ↔ if p = q then b = new else c.Holds p b := by
  constructor
  · rintro ⟨i, hi, hb⟩
    rw [h.trie] at hi
    rw [h.block] at hb
    by_cases hij : i = j
    · subst hij
      rw [Function.update_self] at hb
      rw [if_pos (hs.reaches_unique hi hj)]
      exact (Option.some.inj hb).symm
    · rw [Function.update_of_ne hij] at hb
      have hpq : p ≠ q := by
        rintro rfl
        exact hij (RadixTree.reaches_node_unique hs.tree hi hj)
      rw [if_neg hpq]
      exact ⟨i, hi, hb⟩
  · intro hp
    by_cases hpq : p = q
    · subst hpq
      rw [if_pos rfl] at hp
      exact ⟨j, h.trie ▸ hj, by rw [h.block, Function.update_self, hp]⟩
    · rw [if_neg hpq] at hp
      obtain ⟨i, hi, hb⟩ := hp
      have hij : i ≠ j := by
        rintro rfl
        exact hpq (hs.reaches_unique hi hj)
      exact ⟨i, h.trie ▸ hi, by rw [h.block, Function.update_of_ne hij, hb]⟩

end Relabel

end Sound

end Arle.PrefixCache.RadixCache
