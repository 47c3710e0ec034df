import Arle.Lib.Slices
import Arle.PrefixCache.GapFree
import Arle.PrefixCache.Index

/-!
# Insertions that fall short

An insertion of whole windows inserts fewer of them than it is given only if the tree has all of
the path and some node on it has lost its block. Such an insertion adds no node: it writes its
blocks over the blocks that it meets, one after the other.
-/

namespace Arle.PrefixCache.RadixCache

open KvTier

/-- Both caches have the same tree, and their indices agree. -/
structure SameIndex (c c' : RadixCache) : Prop extends SameTree c c' where
  lookup : ∀ b, c'.blockIndex.lookup b = c.blockIndex.lookup b

/-- The blocks that the cache holds on a path are the first of these, with these fingerprints. -/
def HoldsAlready (c : RadixCache) (js : List Nat) (blocks : List BlockId)
    (fps : List BlockFingerprint) : Prop :=
  ∀ k v : Nat, (c.blockNodes js)[k]? = some v → c.block v = blocks[k]? ∧ c.fprint v = fps[k]?

/-- The insertion has walked down the nodes `js` and written its first blocks over theirs. -/
structure Retraced (c₀ : RadixCache) (w : List Token) (blocks : List BlockId)
    (fps : List BlockFingerprint) (js : List Nat) (c : RadixCache) (pos i : Nat) : Prop where
  chain : c₀.trie.Chain root js
  spell : c₀.trie.spell js = w.take pos
  count : (c₀.blockNodes js).length = i
  trie : c.trie = c₀.trie
  held : ∀ v, c.block v = none ↔ c₀.block v = none
  written : ∀ k v : Nat, (c₀.blockNodes js)[k]? = some v →
    c.block v = blocks[k]? ∧ c.fprint v = fps[k]?
  kept : c₀.HoldsAlready js blocks fps → c₀.SameIndex c

/-- The insertion has left the tree of before: no node follows along its tokens. -/
def OffPath (w : List Token) (blocks : List BlockId) (c : RadixCache) (pos i : Nat) : Prop :=
  (∀ a, c.trie.Reaches a (w.take pos) → ∀ s, w[pos]? = some s → c.child a s = none) ∧
    (pos < w.length ∨ blocks.length ≤ i)

/-- Where an insertion of whole windows may stand. -/
def Tracing (c₀ : RadixCache) (w : List Token) (blocks : List BlockId)
    (fps : List BlockFingerprint) (c : RadixCache) (pos i : Nat) : Prop :=
  c.blockSize = c₀.blockSize ∧
    ((∃ js, Retraced c₀ w blocks fps js c pos i) ∨ OffPath w blocks c pos i)

section Spec

variable {c₀ c c' : RadixCache} {w : List Token} {blocks : List BlockId}
  {fps : List BlockFingerprint} {js : List Nat} {a j pos i : Nat} {t : Token}

theorem SameIndex.refl (c : RadixCache) : SameIndex c c :=
  ⟨(SameShape.refl c).toSameTree, fun _ => rfl⟩

theorem HoldsAlready.left {ks : List Nat} (h : c.HoldsAlready (js ++ ks) blocks fps) :
    c.HoldsAlready js blocks fps := by
  intro k v hv
  apply h k v
  rw [blockNodes_append, List.getElem?_append_left (List.getElem?_eq_some_iff.mp hv).1]
  exact hv

/-- The tokens up to a child are those up to its parent and the edge between. -/
theorem InsertAt.take_child (hat : InsertAt c w a pos i) (haj : c.child a t = some j) {i' : Nat}
    {c' : RadixCache} (htrie : c'.trie = c.trie)
    (hat' : InsertAt c' w j (pos + (c.edge j).length) i') :
    w.take (pos + (c.edge j).length) = w.take pos ++ c.edge j :=
  RadixTree.reaches_path_unique hat.sound.tree (htrie ▸ hat'.reaches) (hat.reaches.step haj)

theorem InsertAt.next_token (hat : InsertAt c w a pos i) (haj : c.child a t = some j) {i' : Nat}
    {c' : RadixCache} (htrie : c'.trie = c.trie)
    (hat' : InsertAt c' w j (pos + (c.edge j).length) i') : w[pos]? = some t := by
  obtain ⟨rest, hrest⟩ := hat.sound.tree.edge_head haj
  have hrest : c.edge j = t :: rest := hrest
  have htake := hat.take_child haj htrie hat'
  have hpos : pos < pos + (c.edge j).length := by
    rw [hrest]
    simp
  rw [← List.getElem?_take_of_lt hpos, htake, hrest,
    List.getElem?_append_right (by rw [hat.length])]
  simp [hat.length]

/-- The chain of a retraced path goes on to a child of the node where the insertion stands. -/
theorem Retraced.chain_child (h : Retraced c₀ w blocks fps js c pos i) (hat : InsertAt c w a pos i)
    (haj : c.child a t = some j) {i' : Nat} {c' : RadixCache} (htrie : c'.trie = c.trie)
    (hat' : InsertAt c' w j (pos + (c.edge j).length) i') :
    c₀.trie.Chain root (js ++ [j]) ∧
      c₀.trie.spell (js ++ [j]) = w.take (pos + (c.edge j).length) := by
  have hchain : c.trie.Chain root js := h.trie ▸ h.chain
  have hlast : (root :: js).getLast (List.cons_ne_nil root js) = a := by
    refine RadixTree.reaches_node_unique hat.sound.tree
      (RadixTree.Reaches.root.chain hchain rfl) ?_
    have hspell : c.trie.spell js = w.take pos := h.trie ▸ h.spell
    rw [hspell]
    exact hat.reaches
  rw [← h.trie]
  refine ⟨hchain.snoc (t := t) ?_, ?_⟩
  · rw [hlast]
    exact haj
  · rw [RadixTree.spell_append, hat.take_child haj htrie hat']
    have hspell : c.trie.spell js = w.take pos := h.trie ▸ h.spell
    rw [hspell]
    simp [RadixCache.trie]

theorem Retraced.pass (h : Retraced c₀ w blocks fps js c pos i) (hat : InsertAt c w a pos i)
    (haj : c.child a t = some j) (hnone : c.block j = none)
    (hat' : InsertAt c w j (pos + (c.edge j).length) i) :
    Retraced c₀ w blocks fps (js ++ [j]) c (pos + (c.edge j).length) i := by
  obtain ⟨hchain, hspell⟩ := h.chain_child hat haj rfl hat'
  have hnodes : c₀.blockNodes (js ++ [j]) = c₀.blockNodes js := by
    rw [blockNodes_append]
    simp [blockNodes, (h.held j).mp hnone]
  exact {
    chain := hchain
    spell := hspell
    count := by rw [hnodes, h.count]
    trie := h.trie
    held := h.held
    written := by
      rw [hnodes]
      exact h.written
    kept := fun hholds => h.kept hholds.left }

/-- A relabel writes the next block over the one of the node that it comes to. -/
theorem Retraced.relabel (hindex : Indexes c₀.blockIndex c₀.block)
    (h : Retraced c₀ w blocks fps js c pos i) (hat : InsertAt c w a pos i)
    (haj : c.child a t = some j) {old new : BlockId} {fp : BlockFingerprint}
    (hold : c.block j = some old) (hnew : blocks[i]? = some new) (hfp : fps[i]? = some fp)
    (hrel : c.Relabeled j old new fp c')
    (hat' : InsertAt c' w j (pos + (c.edge j).length) (i + 1)) :
    Retraced c₀ w blocks fps (js ++ [j]) c' (pos + (c.edge j).length) (i + 1) := by
  obtain ⟨hchain, hspell⟩ := h.chain_child hat haj hrel.trie hat'
  obtain ⟨old₀, hold₀⟩ : ∃ old₀, c₀.block j = some old₀ := by
    refine Option.ne_none_iff_exists'.mp fun hnone => ?_
    rw [(h.held j).mpr hnone] at hold
    cases hold
  have hnodes : c₀.blockNodes (js ++ [j]) = c₀.blockNodes js ++ [j] := by
    rw [blockNodes_append]
    simp [blockNodes, hold₀]
  have hfresh : j ∉ js := by
    have hnodup := hchain.nodup (h.trie ▸ hat.sound.tree)
    intro hj
    exact (List.nodup_append.mp hnodup).2.2 j hj j (List.mem_singleton_self j) rfl
  refine
    { chain := hchain, spell := hspell, count := ?_, trie := hrel.trie.trans h.trie, held := ?_,
      written := ?_, kept := ?_ }
  · rw [hnodes, List.length_append, h.count, List.length_singleton]
  · intro v
    rw [hrel.block, Function.update_apply]
    split
    next hv =>
      rw [hv, hold₀]
      simp
    next => exact h.held v
  · intro k v hv
    rw [hnodes] at hv
    rw [hrel.block, hrel.fprint]
    rcases getElem?_snoc hv with hold | ⟨rfl, rfl⟩
    · have hvj : v ≠ j := fun hvj =>
        hfresh (hvj ▸ (List.mem_filter.mp (List.mem_of_getElem? hold)).1)
      rw [Function.update_of_ne hvj, Function.update_of_ne hvj]
      exact h.written k v hold
    · rw [h.count, Function.update_self, Function.update_self, hnew, hfp]
      exact ⟨rfl, rfl⟩
  · intro hholds
    have hsame := h.kept hholds.left
    obtain ⟨hblock, hprint⟩ := hholds i j (by rw [hnodes, ← h.count]; simp)
    rw [hnew] at hblock
    rw [hfp] at hprint
    obtain rfl : old = new := by
      rw [hsame.block, hblock] at hold
      exact (Option.some.inj hold).symm
    refine
      { length := hrel.length.trans hsame.length, free := hrel.free.trans hsame.free,
        blockSize := hrel.blockSize.trans hsame.blockSize, child := hrel.child.trans hsame.child,
        edge := hrel.edge.trans hsame.edge, block := ?_, fprint := ?_, lookup := ?_ }
    · rw [hrel.block, hsame.block, ← hblock, Function.update_eq_self]
    · rw [hrel.fprint, hsame.fprint, ← hprint, Function.update_eq_self]
    · intro b
      rw [hrel.index, if_neg (fun hne => hne rfl), Assoc.lookup_insert_eq]
      split
      next hb =>
        rw [hb]
        exact ((hindex old j).mpr hblock).symm
      next => exact hsame.lookup b

/-- A split leaves the insertion in the middle of an edge, where no window ends. -/
theorem offPath_split (hat : InsertAt c w a pos i) (haj : c.child a t = some j) {k d : Nat}
    (hk0 : 0 < k) (hk : k < (c.edge j).length)
    (hwhole : c.blockSize ∣ w.length)
    (hleave : ∀ s, w[pos + k]? = some s → c'.child d s = none)
    (hat' : InsertAt c' w d (pos + k) i) : OffPath w blocks c' (pos + k) i := by
  constructor
  · intro b hb s hs
    rw [RadixTree.reaches_node_unique hat'.sound.tree hb hat'.reaches]
    exact hleave s hs
  · left
    refine Nat.lt_of_le_of_ne hat'.pos_le fun hend => ?_
    have hwithin := hat.sound.edge_within hat.reaches haj
    rw [hat.length] at hwithin
    have hpos := hat.sound.blockSize_pos
    have hmod : (pos + k) % c.blockSize = pos % c.blockSize + k := by
      rw [Nat.add_mod, Nat.mod_eq_of_lt (a := k) (by omega), Nat.mod_eq_of_lt (by omega)]
    rw [← hend] at hwhole
    have hzero := Nat.mod_eq_zero_of_dvd hwhole
    omega

/-- Where an insertion of whole windows stands, through all its edits. -/
theorem tracing_invariant (hindex : Indexes c₀.blockIndex c₀.block)
    (hwhole : w.length = blocks.length * c₀.blockSize) :
    InsertInvariant w blocks fps (Tracing c₀ w blocks fps) where
  touch := by
    rintro c c' pos i hshape - ⟨hsize, ⟨js, h⟩ | hoff⟩
    · refine ⟨hshape.blockSize.trans hsize, .inl ⟨js, ?_⟩⟩
      refine
        { chain := h.chain, spell := h.spell, count := h.count, trie := hshape.trie.trans h.trie,
          held := ?_, written := ?_, kept := ?_ }
      · rw [hshape.block]
        exact h.held
      · rw [hshape.block, hshape.fprint]
        exact h.written
      · intro hholds
        have hsame := h.kept hholds
        exact {
          length := hshape.length.trans hsame.length
          free := hshape.free.trans hsame.free
          blockSize := hshape.blockSize.trans hsame.blockSize
          child := hshape.child.trans hsame.child
          edge := hshape.edge.trans hsame.edge
          block := hshape.block.trans hsame.block
          fprint := hshape.fprint.trans hsame.fprint
          lookup := by
            rw [hshape.index]
            exact hsame.lookup }
    · refine ⟨hshape.blockSize.trans hsize, .inr ?_⟩
      unfold OffPath
      rw [hshape.trie, hshape.child]
      exact hoff
  pass := by
    rintro c a pos i j t hat haj hnone hat' ⟨hsize, ⟨js, h⟩ | hoff⟩
    · exact ⟨hsize, .inl ⟨_, h.pass hat haj hnone hat'⟩⟩
    · have hgone := hoff.1 a hat.reaches t (hat.next_token haj rfl hat')
      rw [haj] at hgone
      cases hgone
  relabel := by
    rintro c c' a pos i j t old new fp hat haj hold hnew hfp hrel hat' ⟨hsize, ⟨js, h⟩ | hoff⟩
    · exact ⟨hrel.blockSize.trans hsize,
        .inl ⟨_, h.relabel hindex hat haj hold hnew hfp hrel hat'⟩⟩
    · have hgone := hoff.1 a hat.reaches t (hat.next_token haj hrel.trie hat')
      rw [haj] at hgone
      cases hgone
  split := by
    rintro c c' a pos i j k d t hat haj hk0 hk hs hleave hat' ⟨hsize, -⟩
    refine ⟨hs.blockSize.trans hsize, .inr ?_⟩
    refine offPath_split hat haj hk0 hk ?_ hleave hat'
    rw [hsize, hwhole]
    exact Nat.dvd_mul_left _ _
  leaf := by
    rintro c c' a pos i n t e b fp hat ht hfree hpath hlt hb hfp hleaf hat' ⟨hsize, -⟩
    refine ⟨hleaf.blockSize.trans hsize, .inr ⟨?_, ?_⟩⟩
    · intro m hm s _
      rw [RadixTree.reaches_node_unique hat'.sound.tree hm hat'.reaches]
      exact hleaf.childless s
    · have hle := hat'.pos_le
      rw [hsize, hwhole] at hle ⊢
      have hsucc := Nat.le_of_mul_le_mul_right hle (hsize ▸ hat.sound.blockSize_pos)
      rcases Nat.lt_or_ge (i + 1) blocks.length with hi | hi
      · exact .inl (Nat.mul_lt_mul_of_pos_right hi (hsize ▸ hat.sound.blockSize_pos))
      · exact .inr hi
  tail := by
    rintro c c' a pos i n t e hat ht hfree hpath hlt hleaf hat' ⟨hsize, -⟩
    refine ⟨hleaf.blockSize.trans hsize, .inr ⟨?_, ?_⟩⟩
    · intro m _ s hs
      rw [List.getElem?_eq_none (Nat.le_refl _)] at hs
      cases hs
    · rw [hsize, hwhole] at hlt
      have := Nat.lt_of_mul_lt_mul_right hlt
      right
      omega

/-- An insertion of whole windows that falls short leaves the tree and its index as they are if
and only if the blocks on the path of its tokens are its own first blocks already. -/
theorem insert_short_iff {js : List Nat} {n : Nat} (hs : c.Sound) (hnodup : c.freeNodes.Nodup)
    (hindex : Indexes c.blockIndex c.block) (hwhole : w.length = blocks.length * c.blockSize)
    (hwalk : c.trie.Walk root w js) (hr : c.insertWithFingerprints w blocks fps = some (n, c'))
    (hshort : n ≠ w.length) : c.SameIndex c' ↔ c.HoldsAlready js blocks fps := by
  have hall : c.insertedTokens w blocks = w := by
    unfold insertedTokens
    rw [hwhole, Nat.min_self, ← hwhole, List.take_length]
  have hstart : Tracing c w blocks fps c 0 0 := by
    refine ⟨rfl, .inl ⟨[], ?_⟩⟩
    exact {
      chain := .nil root
      spell := rfl
      count := rfl
      trie := rfl
      held := fun _ => Iff.rfl
      written := fun k v hv => by
        rw [show c.blockNodes [] = [] from rfl, List.getElem?_nil] at hv
        cases hv
      kept := fun _ => SameIndex.refl c }
  have hinv : InsertInvariant (c.insertedTokens w blocks) blocks fps
      (Tracing c (c.insertedTokens w blocks) blocks fps) := by
    rw [hall]
    exact tracing_invariant hindex hwhole
  rw [← hall] at hstart
  rcases insertWithFingerprints_invariant hs hnodup hinv hstart hr with
    ⟨heq, hempty⟩ | ⟨m, a, pos, hn, hsize, hat, ⟨-, htrace⟩, hdone⟩
  · cases heq
    refine absurd ?_ hshort
    rcases hempty with hblocks | htokens
    · rw [hblocks] at hwhole
      simpa using hwhole.symm
    · rw [htokens]
      rfl
  · rw [hall] at hat htrace hdone
    dsimp only at hn hsize hat htrace
    -- fewer windows than blocks
    have hlt : m < blocks.length := by
      have hle := hat.windows_le.trans hat.pos_le
      rw [hsize, hwhole] at hle
      have hle := Nat.le_of_mul_le_mul_right hle hs.blockSize_pos
      refine Nat.lt_of_le_of_ne hle fun heq => hshort ?_
      rw [hn, hwhole, heq]
    have hend : w.length ≤ pos := by
      rcases hdone with hend | hblocks | hpartial
      · exact hend
      · omega
      · rw [hwhole] at hpartial
        have := Nat.lt_of_mul_lt_mul_right hpartial
        omega
    rcases htrace with ⟨ks, h⟩ | ⟨-, hpos | hblocks⟩
    · have hspell := h.spell
      rw [List.take_of_length_le hend] at hspell
      obtain rfl : ks = js := by
        refine RadixTree.Walk.unique hs.tree ?_ hwalk
        have hks := h.chain.walk
        rw [hspell] at hks
        exact hks
      refine ⟨fun hsame k v hv => ?_, h.kept⟩
      rw [← hsame.block, ← hsame.fprint]
      exact h.written k v hv
    · omega
    · omega

end Spec

end Arle.PrefixCache.RadixCache
