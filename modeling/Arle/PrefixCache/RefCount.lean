import Arle.PrefixCache.EvictSpec
import Arle.PrefixCache.Refinement

/-!
# Pins of the radix cache

A lookup pins the nodes whose blocks it returns, and releasing those blocks unpins them.
`Conserves` is the law: the pin count of a node is the number of outstanding lookups that
pinned it, and for a split intermediate the number of those that pinned a node below it. A
split intermediate copies the count of the lower node, but no later lookup or release finds
it, and a release finds a node only by the block it holds at that time. The law holds in
every run whose steps stay clear of both (`refs_conserved`).
-/

namespace Arle.PrefixCache.RadixCache

open KvTier

/-! ## The law -/

/-- A lookup whose blocks are not released yet: the nodes it pinned and the blocks it
returned. -/
structure Outstanding where
  pins : List Nat
  blocks : List BlockId

/-- The outstanding lookup pinned a node at or below `i`. -/
def Outstanding.Under (o : Outstanding) (c : RadixCache) (i : Nat) : Prop :=
  ∃ j ∈ o.pins, c.trie.Below i j

/-- The outstanding lookup should count at `i`: it pinned `i` itself, or a node below if `i`
is a split intermediate. -/
def Outstanding.CountsAt (o : Outstanding) (c : RadixCache) (splits : Set Nat) (i : Nat) : Prop :=
  (i ∈ splits ∧ o.Under c i) ∨ (i ∉ splits ∧ i ∈ o.pins)

open Classical in
/-- The pins that a node should have. -/
noncomputable def expectedRefs (c : RadixCache) (splits : Set Nat) (outs : List Outstanding)
    (i : Nat) : Nat :=
  outs.countP fun o => decide (o.CountsAt c splits i)

/-- The split intermediates that turn up between two caches: new nodes without a block that
have a child. A new node for a partial window has no block and no child. -/
def newSplits (c c' : RadixCache) : Set Nat :=
  {i | c.nodes.length ≤ i ∧ c'.block i = none ∧ ∃ t j, c'.child i t = some j}

/-- The pins are those of the outstanding lookups. -/
structure Conserves (c : RadixCache) (splits : Set Nat) (outs : List Outstanding) : Prop where
  refs : ∀ i, c.refs i = c.expectedRefs splits outs i
  pinned : ∀ o ∈ outs, ∀ j ∈ o.pins, c.block j ≠ none ∧ ∃ p, c.trie.Reaches j p
  closed : ∀ o ∈ outs, ∀ i, o.Under c i → c.block i ≠ none → i ∈ o.pins
  splits_reached : ∀ i ∈ splits, c.block i = none ∧ ∃ p, c.trie.Reaches i p

section Expected

variable {c c' : RadixCache} {splits splits' : Set Nat} {outs : List Outstanding}

theorem expectedRefs_congr {i i' : Nat}
    (h : ∀ o ∈ outs, o.CountsAt c splits i ↔ o.CountsAt c' splits' i') :
    c.expectedRefs splits outs i = c'.expectedRefs splits' outs i' :=
  List.countP_congr fun o ho => by simpa using h o ho

theorem expectedRefs_nil (i : Nat) : c.expectedRefs splits [] i = 0 := rfl

open Classical in
theorem expectedRefs_cons (o : Outstanding) (i : Nat) :
    c.expectedRefs splits (o :: outs) i =
      c.expectedRefs splits outs i + if o.CountsAt c splits i then 1 else 0 := by
  simp only [expectedRefs, List.countP_cons, decide_eq_true_eq]

open Classical in
theorem expectedRefs_middle (l₁ l₂ : List Outstanding) (o : Outstanding) (i : Nat) :
    c.expectedRefs splits (l₁ ++ o :: l₂) i =
      c.expectedRefs splits (l₁ ++ l₂) i + if o.CountsAt c splits i then 1 else 0 := by
  simp only [expectedRefs, List.countP_append, List.countP_cons, decide_eq_true_eq]
  omega

theorem expectedRefs_eq_zero {i : Nat} (h : ∀ o ∈ outs, ¬ o.CountsAt c splits i) :
    c.expectedRefs splits outs i = 0 :=
  List.countP_eq_zero.mpr fun o ho => by simpa using h o ho

end Expected

/-! ## Edits -/

section Edit

variable {c c' : RadixCache} {splits : Set Nat} {outs : List Outstanding}

/-- Writes that keep the tree, the pins, and which nodes have a block. -/
theorem Conserves.of_trie_eq (h : c.Conserves splits outs) (htrie : c'.trie = c.trie)
    (hrefs : c'.refs = c.refs) (hblock : ∀ i, c'.block i = none ↔ c.block i = none) :
    c'.Conserves splits outs where
  refs := by
    intro i
    rw [hrefs, h.refs]
    refine expectedRefs_congr fun o _ => ?_
    simp only [Outstanding.CountsAt, Outstanding.Under, htrie]
  pinned := by
    intro o ho j hj
    rw [ne_eq, hblock, htrie]
    exact h.pinned o ho j hj
  closed := by
    intro o ho i hi hb
    simp only [Outstanding.Under, htrie] at hi
    rw [ne_eq, hblock] at hb
    exact h.closed o ho i hi hb
  splits_reached := by
    intro i hi
    rw [hblock, htrie]
    exact h.splits_reached i hi

theorem Conserves.not_blank (h : c.Conserves splits outs) {n : Nat} (hn : c.Blank n) :
    n ∉ splits ∧ ∀ o ∈ outs, n ∉ o.pins :=
  ⟨fun hs => by
    obtain ⟨-, p, hp⟩ := h.splits_reached n hs
    exact hn.not_reached hp, fun o ho hj => (h.pinned o ho n hj).1 hn.block⟩

theorem Conserves.under_leaf (h : c.Conserves splits outs) {a n : Nat} {t : Token}
    {e : List Token} {blk : Option (BlockId × BlockFingerprint)}
    (hleaf : c.LeafAdded a t e blk n c') (hfree : c.child a t = none) {o : Outstanding}
    (ho : o ∈ outs) {i : Nat} (hi : i ≠ n) : o.Under c' i ↔ o.Under c i := by
  refine exists_congr fun j => and_congr_right fun hj => ?_
  rw [hleaf.trie]
  exact RadixTree.addLeaf_below hleaf.blank.fresh hfree hi
    fun hjn => (h.not_blank hleaf.blank).2 o ho (hjn ▸ hj)

/-- A new leaf. -/
theorem Conserves.leaf (h : c.Conserves splits outs) {a n : Nat} {t : Token} {e : List Token}
    {blk : Option (BlockId × BlockFingerprint)} (hleaf : c.LeafAdded a t e blk n c')
    (hfree : c.child a t = none) : c'.Conserves splits outs := by
  obtain ⟨hsplit, hpin⟩ := h.not_blank hleaf.blank
  have hreach : ∀ {i p}, c.trie.Reaches i p → c'.trie.Reaches i p :=
    fun hi => (hleaf.reaches hfree).mpr (Or.inl hi)
  have hblock : ∀ i, i ≠ n → c'.block i = c.block i := by
    intro i hi
    rw [hleaf.block, Function.update_of_ne hi]
  refine ⟨fun i => ?_, fun o ho j hj => ?_, fun o ho i hi hb => ?_, fun i hi => ?_⟩
  · rw [hleaf.refs, Function.update_apply]
    split
    · rename_i hi
      rw [hi]
      refine (expectedRefs_eq_zero fun o ho hcount => ?_).symm
      rcases hcount with ⟨hs, -⟩ | ⟨-, hp⟩
      · exact hsplit hs
      · exact hpin o ho hp
    · rename_i hi
      rw [h.refs]
      refine expectedRefs_congr fun o ho => ?_
      simp only [Outstanding.CountsAt, h.under_leaf hleaf hfree ho hi]
  · obtain ⟨hb, p, hp⟩ := h.pinned o ho j hj
    rw [hblock j fun hjn => hpin o ho (hjn ▸ hj)]
    exact ⟨hb, p, hreach hp⟩
  · by_cases hin : i = n
    · -- nothing lies below the leaf but itself
      obtain ⟨j, hj, hij⟩ := hi
      rcases hij.cases_child with rfl | ⟨s, m, hm, -⟩
      · exact hj
      · rw [hin, show c'.trie.child n s = c'.child n s from rfl, hleaf.childless] at hm
        cases hm
    · rw [hblock i hin] at hb
      exact h.closed o ho i ((h.under_leaf hleaf hfree ho hin).mp hi) hb
  · obtain ⟨hb, p, hp⟩ := h.splits_reached i hi
    rw [hblock i fun hin => hsplit (hin ▸ hi)]
    exact ⟨hb, p, hreach hp⟩

theorem Conserves.under_split (h : c.Conserves splits outs) {a j k d : Nat}
    {t : Token} (hsplit : c.EdgeSplit a t j k d c') (haj : c.child a t = some j)
    (hk : k < (c.edge j).length) {o : Outstanding} (ho : o ∈ outs) (i : Nat) :
    o.Under c' i ↔ if i = d then o.Under c j else o.Under c i := by
  have hbelow : ∀ m ∈ o.pins, (c'.trie.Below i m ↔
      if i = d then c.trie.Below j m else c.trie.Below i m) := by
    intro m hm
    rw [hsplit.trie]
    exact RadixTree.splitEdge_below hsplit.blank.fresh hsplit.ne haj hk
      fun hmd => (h.not_blank hsplit.blank).2 o ho (hmd ▸ hm)
  unfold Outstanding.Under
  split
  · rename_i hi
    exact exists_congr fun m => and_congr_right fun hm => by rw [hbelow m hm, if_pos hi]
  · rename_i hi
    exact exists_congr fun m => and_congr_right fun hm => by rw [hbelow m hm, if_neg hi]

/-- A split edge whose lower node is no partial window above a pin. -/
theorem Conserves.split (h : c.Conserves splits outs) (hs : c.Sound) {a j k d : Nat} {t : Token}
    {q : List Token} (hsplit : c.EdgeSplit a t j k d c') (ha : c.trie.Reaches a q)
    (haj : c.child a t = some j) (hk : k < (c.edge j).length)
    (hclear : c.block j = none → j ∉ splits → ∀ o ∈ outs, ¬ o.Under c j) :
    c'.Conserves (insert d splits) outs := by
  obtain ⟨hdsplit, hdpin⟩ := h.not_blank hsplit.blank
  have hreach : ∀ {i p}, c.trie.Reaches i p → c'.trie.Reaches i p :=
    fun hi => (hsplit.reaches hs haj hk).mpr (Or.inl hi)
  have hblock : ∀ i, i ≠ d → c'.block i = c.block i := by
    intro i hi
    rw [hsplit.block, Function.update_of_ne hi]
  refine ⟨fun i => ?_, fun o ho m hm => ?_, fun o ho i hi hb => ?_, fun i hi => ?_⟩
  · rw [hsplit.refs, Function.update_apply]
    split
    · -- the intermediate node counts what the lower node counts
      rename_i hi
      rw [h.refs]
      refine expectedRefs_congr fun o ho => ?_
      have hd : o.CountsAt c' (insert d splits) i ↔ o.Under c j := by
        simp only [Outstanding.CountsAt, hi, Set.mem_insert_iff, true_or, true_and,
          not_true_eq_false, false_and, or_false, h.under_split hsplit haj hk ho d, if_true]
      rw [hd]
      by_cases hjs : j ∈ splits
      · simp only [Outstanding.CountsAt, hjs, true_and, not_true_eq_false, false_and, or_false]
      · simp only [Outstanding.CountsAt, hjs, false_and, not_false_eq_true, true_and, false_or]
        refine ⟨fun hj => ⟨j, hj, .refl j⟩, fun hj => ?_⟩
        by_cases hb : c.block j = none
        · exact absurd hj (hclear hb hjs o ho)
        · exact h.closed o ho j hj hb
    · rename_i hi
      rw [h.refs]
      refine expectedRefs_congr fun o ho => ?_
      simp only [Outstanding.CountsAt, h.under_split hsplit haj hk ho i, Set.mem_insert_iff, hi,
        false_or, if_false]
  · obtain ⟨hb, p, hp⟩ := h.pinned o ho m hm
    rw [hblock m fun hmd => hdpin o ho (hmd ▸ hm)]
    exact ⟨hb, p, hreach hp⟩
  · have hid : i ≠ d := by
      rintro rfl
      exact hb (by rw [hsplit.block, Function.update_self])
    rw [hblock i hid] at hb
    rw [h.under_split hsplit haj hk ho i, if_neg hid] at hi
    exact h.closed o ho i hi hb
  · rcases Set.mem_insert_iff.mp hi with rfl | hi
    · exact ⟨by rw [hsplit.block, Function.update_self], _,
        (hsplit.reaches hs haj hk).mpr (Or.inr ⟨rfl, q, ha, rfl⟩)⟩
    · obtain ⟨hb, p, hp⟩ := h.splits_reached i hi
      rw [hblock i fun hid => hdsplit (hid ▸ hi)]
      exact ⟨hb, p, hreach hp⟩

end Edit

/-! ## Insertions -/

/-- The word `w` leaves no edge into a partial window with a pin below in its middle. -/
def ClearAlong (c : RadixCache) (splits : Set Nat) (outs : List Outstanding) (w : List Token) :
    Prop :=
  ∀ a p t j, c.trie.Reaches a p → p ++ [t] <+: w → c.child a t = some j →
    ¬ p ++ c.edge j <+: w → c.block j = none → j ∉ splits → ∀ o ∈ outs, ¬ o.Under c j

/-- The insertion of `w` into `c₀` keeps the law, with the split intermediates that are new. -/
structure Splitting (c₀ : RadixCache) (splits : Set Nat) (outs : List Outstanding)
    (w : List Token) (c : RadixCache) (pos i : Nat) : Prop where
  free : c.freeNodes = []
  length_le : c₀.nodes.length ≤ c.nodes.length
  conserves : c.Conserves (splits ∪ newSplits c₀ c) outs
  clear : c.ClearAlong (splits ∪ newSplits c₀ c) outs w
  tails : ∀ j p, c₀.nodes.length ≤ j → c.trie.Reaches j p → c.block j = none →
    (∃ t m, c.child j t = some m) ∨ w.length ≤ pos

section Insert

variable {c₀ c c' : RadixCache} {splits : Set Nat} {outs : List Outstanding} {w : List Token}
  {blocks : List BlockId} {fps : List BlockFingerprint}

/-- Writes that keep the tree and which nodes have a block. -/
theorem Splitting.of_trie_eq {pos pos' i i' : Nat} (h : Splitting c₀ splits outs w c pos i)
    (hpos : pos ≤ pos') (hlen : c'.nodes.length = c.nodes.length)
    (hfree : c'.freeNodes = c.freeNodes) (htrie : c'.trie = c.trie) (hrefs : c'.refs = c.refs)
    (hblock : ∀ i, c'.block i = none ↔ c.block i = none) :
    Splitting c₀ splits outs w c' pos' i' := by
  have hchild : c'.child = c.child := congrArg RadixTree.child htrie
  have hedge : c'.edge = c.edge := congrArg RadixTree.edge htrie
  have hnew : newSplits c₀ c' = newSplits c₀ c := by
    ext j
    simp only [newSplits, Set.mem_ofPred_eq, hblock, hchild]
  refine ⟨hfree.trans h.free, hlen ▸ h.length_le, ?_, ?_, ?_⟩
  · rw [hnew]
    exact h.conserves.of_trie_eq htrie hrefs hblock
  · rw [hnew]
    intro a p t j
    simp only [Outstanding.Under, htrie, hchild, hedge, hblock]
    exact h.clear a p t j
  · intro j p hj hp hb
    rw [htrie] at hp
    rw [hchild]
    rcases h.tails j p hj hp ((hblock j).mp hb) with hm | hle
    · exact Or.inl hm
    · exact Or.inr (Nat.le_trans hle hpos)

theorem LeafAdded.has_child {a n j : Nat} {t : Token} {e : List Token}
    {blk : Option (BlockId × BlockFingerprint)} (h : c.LeafAdded a t e blk n c') (hj : j ≠ n) :
    (∃ s m, c'.child j s = some m) ↔ j = a ∨ ∃ s m, c.child j s = some m := by
  have hadd := fun s m => RadixTree.addLeaf_child_eq_some (T := c.trie) (a := a) (t := t) (n := n)
    (e := e) (i := j) (s := s) (j := m)
  rw [← h.trie] at hadd
  constructor
  · rintro ⟨s, m, hm⟩
    rcases h.child_cases hm with ⟨rfl, -, -⟩ | ⟨-, hold⟩
    · exact Or.inl rfl
    · exact Or.inr ⟨s, m, hold⟩
  · rintro (rfl | ⟨s, m, hm⟩)
    · exact ⟨t, n, (hadd t n).mpr ⟨hj, Or.inl ⟨rfl, rfl, rfl⟩⟩⟩
    · by_cases has : j = a ∧ s = t
      · exact ⟨s, n, (hadd s n).mpr ⟨hj, Or.inl ⟨has.1, has.2, rfl⟩⟩⟩
      · exact ⟨s, m, (hadd s m).mpr ⟨hj, Or.inr ⟨has, hm⟩⟩⟩

theorem newSplits_leaf {pos i a n : Nat} {t : Token} {e : List Token}
    {blk : Option (BlockId × BlockFingerprint)} (h : Splitting c₀ splits outs w c pos i)
    (hat : InsertAt c w a pos i) (ht : w[pos]? = some t) (hleaf : c.LeafAdded a t e blk n c') :
    newSplits c₀ c' = newSplits c₀ c := by
  have hpos := (List.getElem?_eq_some_iff.mp ht).1
  ext j
  simp only [newSplits, Set.mem_ofPred_eq, hleaf.block, Function.update_apply]
  by_cases hjn : j = n
  · subst hjn
    simp only [hleaf.childless, hleaf.blank.childless, reduceCtorEq, exists_false, and_false]
  · rw [if_neg hjn, hleaf.has_child hjn]
    refine and_congr_right fun hj => and_congr_right fun hb => ⟨?_, Or.inr⟩
    rintro (rfl | hchild)
    · -- only the node for a partial window has no child, and it ends the insertion
      exact (h.tails j _ hj hat.reaches hb).resolve_right (by omega)
    · exact hchild

/-- A new leaf, whose path the word spells out. -/
theorem Splitting.leaf {pos pos' i i' a n : Nat} {t : Token} {e : List Token}
    {blk : Option (BlockId × BlockFingerprint)} (h : Splitting c₀ splits outs w c pos i)
    (hat : InsertAt c w a pos i) (ht : w[pos]? = some t) (hfree : c.child a t = none)
    (hleaf : c.LeafAdded a t e blk n c') (hpath : w.take pos ++ e <+: w) (hpos : pos ≤ pos')
    (hblk : blk = none → w.length ≤ pos') : Splitting c₀ splits outs w c' pos' i' := by
  have hnew := newSplits_leaf h hat ht hleaf
  refine ⟨?_, Nat.le_trans h.length_le hleaf.length_le, ?_, ?_, ?_⟩
  · refine List.eq_nil_iff_forall_not_mem.mpr fun f hf => ?_
    rw [hleaf.free, h.free] at hf
    cases hf.1
  · rw [hnew]
    exact h.conserves.leaf hleaf hfree
  · rw [hnew]
    intro b p s m hb hpw hm hedge hnone hms o ho hu
    rcases hleaf.child_cases hm with ⟨rfl, rfl, rfl⟩ | ⟨hbn, hold⟩
    · -- the new edge is spelled out
      have hreach := (hleaf.reaches_old hfree hleaf.ne).mp hb
      rw [hat.sound.reaches_unique hreach hat.reaches, hleaf.edge_new] at hedge
      exact hedge hpath
    · have hmn : m ≠ n := fun hmn => hleaf.blank.fresh.2 b s (hmn ▸ hold)
      rw [hleaf.edge_old hmn] at hedge
      rw [hleaf.block, Function.update_of_ne hmn] at hnone
      exact h.clear b p s m ((hleaf.reaches_old hfree hbn).mp hb) hpw hold hedge hnone hms o ho
        ((h.conserves.under_leaf hleaf hfree ho hmn).mp hu)
  · intro j p hj hp hb
    by_cases hjn : j = n
    · subst hjn
      rw [hleaf.block, Function.update_self] at hb
      exact Or.inr (hblk (Option.map_eq_none_iff.mp hb))
    · rw [hleaf.block, Function.update_of_ne hjn] at hb
      rcases h.tails j p hj ((hleaf.reaches_old hfree hjn).mp hp) hb with hm | hle
      · left
        have hmem : j ∈ newSplits c₀ c' := hnew ▸ ⟨hj, hb, hm⟩
        exact hmem.2.2
      · exact Or.inr (Nat.le_trans hle hpos)

theorem EdgeSplit.child_lower {a j k d : Nat} {t s : Token} (h : c.EdgeSplit a t j k d c')
    (hs : ((c.edge j).drop k).head? = some s) : c'.child d s = some j := by
  have := RadixTree.splitEdge_child_eq_some (T := c.trie) (a := a) (t := t) (j := j) (d := d)
    (k := k) |>.mpr (Or.inl ⟨rfl, rfl, hs⟩)
  rwa [← h.trie] at this

theorem EdgeSplit.has_child {a i j k d : Nat} {t : Token} (h : c.EdgeSplit a t j k d c')
    (haj : c.child a t = some j) (hi : i ≠ d) :
    (∃ s m, c'.child i s = some m) ↔ ∃ s m, c.child i s = some m := by
  have hsplit := fun s m => RadixTree.splitEdge_child_eq_some (T := c.trie) (a := a) (t := t)
    (j := j) (d := d) (k := k) (i := i) (s := s) (m := m)
  rw [← h.trie] at hsplit
  constructor
  · rintro ⟨s, m, hm⟩
    rcases h.child_cases hm with ⟨rfl, -⟩ | ⟨rfl, -, -⟩ | ⟨-, -, hold⟩
    · exact absurd rfl hi
    · exact ⟨t, j, haj⟩
    · exact ⟨s, m, hold⟩
  · rintro ⟨s, m, hm⟩
    by_cases has : i = a ∧ s = t
    · exact ⟨s, d, (hsplit s d).mpr (Or.inr (Or.inl ⟨hi, has.1, has.2, rfl⟩))⟩
    · exact ⟨s, m, (hsplit s m).mpr (Or.inr (Or.inr ⟨hi, has, hm⟩))⟩

theorem EdgeSplit.new_has_child {a j k d : Nat} {t : Token} (h : c.EdgeSplit a t j k d c')
    (hk : k < (c.edge j).length) : ∃ s m, c'.child d s = some m := by
  cases hrest : (c.edge j).drop k with
  | nil => exact absurd (List.drop_eq_nil_iff.mp hrest) (by omega)
  | cons s rest => exact ⟨s, j, h.child_lower (by rw [hrest]; rfl)⟩

theorem newSplits_split {a j k d : Nat} {t : Token} (hlen : c₀.nodes.length ≤ c.nodes.length)
    (hfree : c.freeNodes = []) (hsplit : c.EdgeSplit a t j k d c') (haj : c.child a t = some j)
    (hk : k < (c.edge j).length) : newSplits c₀ c' = insert d (newSplits c₀ c) := by
  have hd : d = c.nodes.length := by
    rcases hsplit.slot with hd | hd
    · rw [hfree] at hd
      cases hd
    · exact hd
  ext i
  simp only [newSplits, Set.mem_ofPred_eq, Set.mem_insert_iff, hsplit.block, Function.update_apply]
  by_cases hid : i = d
  · simp only [hid, if_true, true_and, true_or, iff_true]
    exact ⟨hd ▸ hlen, hsplit.new_has_child hk⟩
  · rw [if_neg hid, hsplit.has_child haj hid]
    simp only [hid, false_or]

/-- A split edge, where the word leaves it. -/
theorem Splitting.split {pos i a j k d : Nat} {t : Token} (h : Splitting c₀ splits outs w c pos i)
    (hat : InsertAt c w a pos i) (haj : c.child a t = some j) (hk0 : 0 < k)
    (hk : k < (c.edge j).length) (hsplit : c.EdgeSplit a t j k d c')
    (hleave : ∀ s, w[pos + k]? = some s → c'.child d s = none)
    (hat' : InsertAt c' w d (pos + k) i) : Splitting c₀ splits outs w c' (pos + k) i := by
  have hnew := newSplits_split h.length_le h.free hsplit haj hk
  have hsets : splits ∪ newSplits c₀ c' = insert d (splits ∪ newSplits c₀ c) := by
    rw [hnew, Set.union_insert]
  -- the path of the new node
  have hpath : w.take pos ++ (c.edge j).take k = w.take (pos + k) := by
    refine hat'.sound.reaches_unique ?_ hat'.reaches
    exact (hsplit.reaches hat.sound haj hk).mpr (Or.inr ⟨rfl, _, hat.reaches, rfl⟩)
  obtain ⟨rest, hrest⟩ : ∃ rest, c.edge j = t :: rest := hat.sound.tree.edge_head haj
  have hstart : w.take pos ++ [t] <+: w := by
    refine List.IsPrefix.trans ?_ (List.take_prefix (pos + k) w)
    rw [← hpath, hrest, show k = k - 1 + 1 by omega, List.take_succ_cons]
    exact (List.prefix_append_right_inj _).mpr ⟨_, rfl⟩
  -- the next token is not the next one of the edge
  have hnext : ∀ s, ((c.edge j).drop k).head? = some s → ¬ w.take (pos + k) ++ [s] <+: w := by
    rintro s hs ⟨r, hr⟩
    have hget : w[pos + k]? = some s := by
      conv_lhs => rw [← hr]
      rw [List.append_assoc, List.getElem?_append_right (by rw [hat'.length]), hat'.length,
        Nat.sub_self]
      rfl
    have := hleave s hget
    rw [hsplit.child_lower hs] at this
    cases this
  have hleft : ¬ w.take pos ++ c.edge j <+: w := by
    intro hpre
    cases hdrop : (c.edge j).drop k with
    | nil => exact absurd (List.drop_eq_nil_iff.mp hdrop) (by omega)
    | cons s rest' =>
      refine hnext s (by rw [hdrop]; rfl) (List.IsPrefix.trans ?_ hpre)
      rw [← hpath, List.append_assoc]
      refine (List.prefix_append_right_inj _).mpr ⟨rest', ?_⟩
      rw [List.append_assoc]
      conv_rhs => rw [← List.take_append_drop k (c.edge j), hdrop]
      rfl
  refine ⟨?_, Nat.le_trans h.length_le hsplit.length_le, ?_, ?_, ?_⟩
  · refine List.eq_nil_iff_forall_not_mem.mpr fun f hf => ?_
    rw [hsplit.free, h.free] at hf
    cases hf.1
  · rw [hsets]
    exact h.conserves.split hat.sound hsplit hat.reaches haj hk
      fun hb hjs o ho => h.clear a _ t j hat.reaches hstart haj hleft hb hjs o ho
  · rw [hsets]
    intro b p s m hb hpw hm hedge hnone hms o ho hu
    have hmS : m ∉ splits ∪ newSplits c₀ c := fun hmS => hms (Set.mem_insert_of_mem d hmS)
    have hmd : m ≠ d := fun hmd => hms (hmd ▸ Set.mem_insert _ _)
    rcases hsplit.child_cases hm with ⟨rfl, rfl⟩ | ⟨-, -, hnd⟩ | ⟨hbd, hne, hold⟩
    · -- the word leaves the edge at the new node
      have hs : ((c.edge m).drop k).head? = some s := hsplit.child_new hm
      rw [hat'.sound.reaches_unique hb hat'.reaches] at hpw
      exact hnext s hs hpw
    · exact hmd hnd
    · have hmj : m ≠ j := by
        rintro rfl
        exact hne ⟨hat.sound.tree.parent_unique hold haj, hat.sound.tree.letter_unique hold haj⟩
      rw [hsplit.edge_old hmd hmj] at hedge
      rw [hsplit.block, Function.update_of_ne hmd] at hnone
      rw [h.conserves.under_split hsplit haj hk ho m, if_neg hmd] at hu
      exact h.clear b p s m ((hsplit.reaches_old hat.sound haj hk hbd).mp hb) hpw hold hedge hnone
        hmS o ho hu
  · intro m p hm hp hb
    by_cases hmd : m = d
    · exact Or.inl (hmd ▸ hsplit.new_has_child hk)
    · rw [hsplit.block, Function.update_of_ne hmd] at hb
      rw [hsplit.has_child haj hmd]
      rcases h.tails m p hm ((hsplit.reaches_old hat.sound haj hk hmd).mp hp) hb with hc | hle
      · exact Or.inl hc
      · exact Or.inr (Nat.le_trans hle (Nat.le_add_right _ _))

theorem Splitting.invariant : InsertInvariant w blocks fps (Splitting c₀ splits outs w) where
  touch hshape hrefs h := h.of_trie_eq (Nat.le_refl _) hshape.length hshape.free hshape.trie hrefs
    fun i => by rw [hshape.block]
  pass _ _ _ _ h := h.of_trie_eq (Nat.le_add_right _ _) rfl rfl rfl rfl fun _ => Iff.rfl
  relabel _ _ hblock _ _ hrel _ h := h.of_trie_eq (Nat.le_add_right _ _) hrel.length hrel.free
    hrel.trie hrel.refs fun i => by
      rw [hrel.block, Function.update_apply]
      split
      · rename_i hi
        rw [hi, hblock]
        simp
      · rfl
  split hat haj hk0 hk hs hleave hat' h := h.split hat haj hk0 hk hs hleave hat'
  leaf hat ht hfree hpath hpos _ _ hleaf _ h := h.leaf hat ht hfree hleaf
    (hpath ▸ List.take_prefix _ _) (Nat.le_of_lt hpos) fun hnone => by cases hnone
  tail hat ht hfree hpath _ hleaf _ h := h.leaf hat ht hfree hleaf
    ⟨[], by rw [List.append_nil, hpath]⟩ hat.pos_le fun _ => Nat.le_refl _

theorem newSplits_self (c : RadixCache) : newSplits c c = ∅ := by
  refine Set.eq_empty_iff_forall_notMem.mpr fun i hi => ?_
  obtain ⟨hle, -, t, j, hj⟩ := hi
  exact absurd (lt_length_of_child hj) (Nat.not_lt.mpr hle)

/-- An insertion that splits no edge into a partial window above a pin keeps the law. -/
theorem Conserves.insert (h : c.Conserves splits outs) (hc : Unevicted c) {tokens : List Token}
    (hclear : c.ClearAlong splits outs (c.insertedTokens tokens blocks)) {r : Nat × RadixCache}
    (hr : c.insertWithFingerprints tokens blocks fps = some r) :
    r.2.Conserves (splits ∪ newSplits c r.2) outs := by
  have hself := newSplits_self c
  have hstart : Splitting c splits outs (c.insertedTokens tokens blocks) c 0 0 := by
    refine ⟨hc.2, Nat.le_refl _, ?_, ?_, fun j p hj hp => ?_⟩
    · rw [hself, Set.union_empty]
      exact h
    · rw [hself, Set.union_empty]
      exact hclear
    · exact absurd (hc.1.toSlots.reached_lt hp) (Nat.not_lt.mpr hj)
  rcases insertWithFingerprints_invariant hc.1 hc.nodup Splitting.invariant hstart hr with
    ⟨rfl, -⟩ | ⟨n, a, pos, -, -, -, hend, -⟩
  · rw [hself, Set.union_empty]
    exact h
  · exact hend.conserves

end Insert

/-! ## Lookups and releases -/

/-- The nodes that a lookup of `tokens` matches when it returns `n` blocks: the first `n` nodes
with a block on the walk. -/
def MatchedPath (c : RadixCache) (tokens : List Token) (n : Nat) (pins : List Nat) : Prop :=
  ∃ js, c.trie.Walk root tokens js ∧ pins = (js.filter fun j => (c.block j).isSome).take n

/-- No split intermediate lies on the walk above a block, and the blocks on the walk can take
one more pin. -/
def ClearWalk (c : RadixCache) (splits : Set Nat) (tokens : List Token) : Prop :=
  ∀ js, c.trie.Walk root tokens js → ∀ j ∈ js, c.block j ≠ none →
    c.refs j + 1 < 2 ^ 32 ∧ ∀ i ∈ splits, ¬ c.trie.Below i j

/-- The released blocks lead to the pinned nodes, and none of these lies below a split
intermediate. -/
def ReleaseFinds (c : RadixCache) (splits : Set Nat) (o : Outstanding) : Prop :=
  (∀ i ∉ splits, i ∈ o.pins ↔ (∃ b ∈ o.blocks, c.block i = some b) ∧ c.refs i ≠ 0) ∧
    ∀ i ∈ splits, ¬ o.Under c i

section Lookup

variable {c c' : RadixCache} {splits : Set Nat} {outs : List Outstanding}

theorem filter_length_eq (c : RadixCache) (js : List Nat) :
    (js.filter fun j => (c.block j).isSome).length = (js.filterMap c.block).length := by
  induction js with
  | nil => rfl
  | cons j js ih =>
    cases hb : c.block j with
    | none => rw [List.filter_cons_of_neg (by simp [hb]), List.filterMap_cons_none hb, ih]
    | some b =>
      rw [List.filter_cons_of_pos (by simp [hb]), List.filterMap_cons_some hb, List.length_cons,
        List.length_cons, ih]

/-- The nodes with a block on the part of the walk that a lookup visits. -/
theorem matchedPath_eq (hs : c.Sound) {tokens : List Token} {js js' pins : List Nat}
    (hw : c.trie.Walk root tokens js) (hjs : js' <+: js)
    (hpins : c.MatchedPath tokens (js'.filterMap c.block).length pins) :
    pins = js'.filter fun j => (c.block j).isSome := by
  obtain ⟨ks, hks, rfl⟩ := hpins
  obtain rfl := hw.unique hs.tree hks
  obtain ⟨rest, rfl⟩ := hjs
  rw [← filter_length_eq, List.filter_append, List.take_left]

/-- A lookup that meets the condition keeps the law. -/
theorem Conserves.lookup (h : c.Conserves splits outs) (hs : c.Sound) {tokens : List Token}
    {js js' : List Nat} (hw : c.trie.Walk root tokens js) (hjs : js' <+: js)
    (hpin : Pinned js' c c') (hclear : c.ClearWalk splits tokens) (blocks : List BlockId) :
    c'.Conserves splits (⟨js'.filter fun j => (c.block j).isSome, blocks⟩ :: outs) := by
  set o : Outstanding := ⟨js'.filter fun j => (c.block j).isSome, blocks⟩ with ho
  have hmem : ∀ j, j ∈ o.pins ↔ j ∈ js' ∧ c.block j ≠ none := by
    intro j
    simp only [ho, List.mem_filter, Option.isSome_iff_ne_none]
  have hunder : ∀ (o : Outstanding) (i : Nat), o.Under c' i ↔ o.Under c i := by
    intro o i
    simp only [Outstanding.Under, hpin.trie]
  have hchain : c.trie.Chain c.trie.root js' := by
    obtain ⟨rest, rfl⟩ := hjs
    exact hw.chain.left
  refine ⟨fun i => ?_, fun o' ho' j hj => ?_, fun o' ho' i hi hb => ?_, fun i hi => ?_⟩
  · have hsame : c'.expectedRefs splits outs i = c.expectedRefs splits outs i :=
      expectedRefs_congr fun o _ => by simp only [Outstanding.CountsAt, hunder]
    have hcount : o.CountsAt c' splits i ↔ i ∈ js' ∧ c.block i ≠ none := by
      by_cases his : i ∈ splits
      · simp only [Outstanding.CountsAt, his, true_and, not_true_eq_false, false_and, or_false,
          hunder]
        constructor
        · rintro ⟨j, hj, hij⟩
          obtain ⟨hjs', hb⟩ := (hmem j).mp hj
          exact absurd hij ((hclear js hw j (hjs.subset hjs') hb).2 i his)
        · rintro ⟨-, hb⟩
          exact absurd (h.splits_reached i his).1 hb
      · simp only [Outstanding.CountsAt, his, false_and, not_false_eq_true, true_and, false_or,
          hmem]
    rw [expectedRefs_cons, hsame, ← h.refs, hpin.refs]
    by_cases hi : i ∈ js' ∧ c.block i ≠ none
    · rw [if_pos hi, if_pos (hcount.mpr hi), Word.wrappingAdd_of_lt
        (hclear js hw i (hjs.subset hi.1) hi.2).1]
    · rw [if_neg hi, if_neg fun hc => hi (hcount.mp hc)]
      rfl
  · rw [hpin.block, hpin.trie]
    rcases List.mem_cons.mp ho' with rfl | ho'
    · obtain ⟨hjs', hb⟩ := (hmem j).mp hj
      obtain ⟨-, p, hp, -⟩ := (hw.mem_iff hs.tree).mp (hjs.subset hjs')
      exact ⟨hb, p, hp⟩
    · exact h.pinned o' ho' j hj
  · rw [hunder] at hi
    rw [hpin.block] at hb
    rcases List.mem_cons.mp ho' with rfl | ho'
    · obtain ⟨j, hj, hij⟩ := hi
      rcases hchain.mem_of_below hs.tree hij ((hmem j).mp hj).1 with rfl | hijs
      · exact absurd hs.root_block hb
      · exact (hmem i).mpr ⟨hijs, hb⟩
    · exact h.closed o' ho' i hi hb
  · rw [hpin.block, hpin.trie]
    exact h.splits_reached i hi

/-- A release that finds the pins of its lookup keeps the law. -/
theorem Conserves.release {l₁ l₂ : List Outstanding} {o : Outstanding}
    (h : c.Conserves splits (l₁ ++ o :: l₂)) (hfinds : c.ReleaseFinds splits o) :
    (c.release o.blocks).Conserves splits (l₁ ++ l₂) := by
  have hshape := release_sameShape c o.blocks
  have hunder : ∀ (o' : Outstanding) (i : Nat), o'.Under (c.release o.blocks) i ↔ o'.Under c i := by
    intro o' i
    simp only [Outstanding.Under, hshape.trie]
  have hsub : ∀ o' ∈ l₁ ++ l₂, o' ∈ l₁ ++ o :: l₂ := by
    intro o' ho'
    rcases List.mem_append.mp ho' with h₁ | h₂
    · exact List.mem_append_left _ h₁
    · exact List.mem_append_right _ (List.mem_cons_of_mem o h₂)
  refine ⟨fun i => ?_, fun o' ho' j hj => ?_, fun o' ho' i hi hb => ?_, fun i hi => ?_⟩
  · have hsame : (c.release o.blocks).expectedRefs splits (l₁ ++ l₂) i =
        c.expectedRefs splits (l₁ ++ l₂) i :=
      expectedRefs_congr fun o' _ => by simp only [Outstanding.CountsAt, hunder]
    have hrefs := h.refs i
    rw [expectedRefs_middle] at hrefs
    rw [hsame]
    by_cases his : i ∈ splits
    · -- a release finds no split intermediate
      have hblock := (h.splits_reached i his).1
      rw [release_refs_of_not_mem fun b _ => by rw [hblock]; simp, hrefs, if_neg]
      · rfl
      · rintro (⟨-, hu⟩ | ⟨hn, -⟩)
        · exact hfinds.2 i his hu
        · exact hn his
    · have hcount : o.CountsAt c splits i ↔ i ∈ o.pins := by
        simp only [Outstanding.CountsAt, his, false_and, not_false_eq_true, true_and, false_or]
      by_cases hi : i ∈ o.pins
      · obtain ⟨⟨b, hb, hblock⟩, -⟩ := (hfinds.1 i his).mp hi
        rw [release_refs_of_mem hblock hb, hrefs, if_pos (hcount.mpr hi)]
        rfl
      · rw [if_neg fun hc => hi (hcount.mp hc)] at hrefs
        by_cases hfound : ∃ b ∈ o.blocks, c.block i = some b
        · obtain ⟨b, hb, hblock⟩ := hfound
          have hzero : c.refs i = 0 := by
            by_contra hne
            exact hi ((hfinds.1 i his).mpr ⟨⟨b, hb, hblock⟩, hne⟩)
          rw [release_refs_of_mem hblock hb]
          omega
        · rw [release_refs_of_not_mem fun b hb hblock => hfound ⟨b, hb, hblock⟩, hrefs]
          rfl
  · rw [hshape.block, hshape.trie]
    exact h.pinned o' (hsub o' ho') j hj
  · rw [hunder] at hi
    rw [hshape.block] at hb
    exact h.closed o' (hsub o' ho') i hi hb
  · rw [hshape.block, hshape.trie]
    exact h.splits_reached i hi

end Lookup

/-! ## Runs -/

/-- The cache, its split intermediates, and the outstanding lookups. -/
structure RefState where
  cache : RadixCache
  splits : Set Nat
  outs : List Outstanding

inductive RefOp
  | insert (tokens : List Token) (blocks : List BlockId) (fps : List BlockFingerprint)
  | lookup (tokens : List Token)
  | lookupOrStage (tokens : List Token) (heuristics : LookupHeuristics)
  | release (o : Outstanding)

/-- A step. The blocks that a lookup returns are released once. -/
def RefStep (s : RefState) (op : RefOp) (t : RefState) : Prop :=
  match op with
  | .insert tokens blocks fps =>
    (∃ n, s.cache.insertWithFingerprints tokens blocks fps = some (n, t.cache)) ∧
      t.splits = s.splits ∪ newSplits s.cache t.cache ∧ t.outs = s.outs
  | .lookup tokens => ∃ len blocks pins, s.cache.lookup tokens = some ((len, blocks), t.cache) ∧
      s.cache.MatchedPath tokens blocks.length pins ∧ t.splits = s.splits ∧
      t.outs = ⟨pins, blocks⟩ :: s.outs
  | .lookupOrStage tokens heuristics => ∃ outcome pins,
      s.cache.lookupOrStage tokens heuristics = some (outcome, t.cache) ∧
      s.cache.MatchedPath tokens outcome.blockIds.length pins ∧ t.splits = s.splits ∧
      t.outs = ⟨pins, outcome.blockIds⟩ :: s.outs
  | .release o => ∃ l₁ l₂, s.outs = l₁ ++ o :: l₂ ∧ t.cache = s.cache.release o.blocks ∧
      t.splits = s.splits ∧ t.outs = l₁ ++ l₂

/-- The condition on a step. -/
def KeepsPins (s : RefState) (op : RefOp) : Prop :=
  match op with
  | .insert tokens blocks _ =>
    s.cache.ClearAlong s.splits s.outs (s.cache.insertedTokens tokens blocks)
  | .lookup tokens => s.cache.ClearWalk s.splits tokens
  | .lookupOrStage tokens _ => s.cache.ClearWalk s.splits tokens
  | .release o => s.cache.ReleaseFinds s.splits o

def RefStart (size : Nat) (s : RefState) : Prop :=
  RadixCache.new size = some s.cache ∧ s.splits = ∅ ∧ s.outs = []

/-- What the steps that meet the condition keep. -/
def PinsKept (s : RefState) : Prop :=
  Unevicted s.cache ∧ s.cache.Conserves s.splits s.outs

theorem new_refs {size : Nat} {c : RadixCache} (h : RadixCache.new size = some c) (i : Nat) :
    c.refs i = 0 := by
  obtain ⟨-, rfl⟩ := new_eq h
  cases i with
  | zero => rfl
  | succ i => simp [RadixCache.refs]

theorem pinsKept_start {size : Nat} {s : RefState} (h : RefStart size s) : PinsKept s := by
  obtain ⟨hnew, hsplits, houts⟩ := h
  refine ⟨unevicted_new hnew, ?_⟩
  rw [hsplits, houts]
  refine ⟨fun i => new_refs hnew i, ?_, ?_, ?_⟩ <;> simp

theorem pinsKept_step : Preserved (guarded KeepsPins RefStep) PinsKept := by
  rintro s op t ⟨hc, hlaw⟩ ⟨hkeeps, hstep⟩
  cases op with
  | insert tokens blocks fps =>
    obtain ⟨⟨n, hn⟩, hsplits, houts⟩ := hstep
    refine ⟨hc.insert hn, ?_⟩
    rw [hsplits, houts]
    exact hlaw.insert hc hkeeps hn
  | lookup tokens =>
    obtain ⟨len, blocks, pins, hlookup, hpins, hsplits, houts⟩ := hstep
    obtain ⟨js, hw⟩ := RadixTree.exists_walk hc.1.tree root tokens
    obtain ⟨c', hc', hpin⟩ := lookup_spec hc.1 hw
    obtain ⟨hr, rfl⟩ := Prod.mk.inj (Option.some.inj (hc'.symm.trans hlookup))
    obtain ⟨-, rfl⟩ := Prod.mk.inj hr
    obtain rfl := matchedPath_eq hc.1 hw List.prefix_rfl hpins
    refine ⟨⟨hpin.sound hc.1, hpin.free.trans hc.2⟩, ?_⟩
    rw [hsplits, houts]
    exact hlaw.lookup hc.1 hw List.prefix_rfl hpin hkeeps _
  | lookupOrStage tokens heuristics =>
    obtain ⟨outcome, pins, hlookup, hpins, hsplits, houts⟩ := hstep
    obtain ⟨js, hw⟩ := RadixTree.exists_walk hc.1.tree root tokens
    obtain ⟨js', outcome', c', hjs, hc', hblocks, hpin⟩ := lookupOrStage_spec hc.1 heuristics hw
    obtain ⟨rfl, rfl⟩ := Prod.mk.inj (Option.some.inj (hc'.symm.trans hlookup))
    rw [hblocks] at hpins houts
    obtain rfl := matchedPath_eq hc.1 hw hjs hpins
    refine ⟨⟨hpin.sound hc.1, hpin.free.trans hc.2⟩, ?_⟩
    rw [hsplits, houts]
    exact hlaw.lookup hc.1 hw hjs hpin hkeeps _
  | release o =>
    obtain ⟨l₁, l₂, houts, hcache, hsplits, houts'⟩ := hstep
    rw [houts] at hlaw
    refine ⟨?_, ?_⟩
    · rw [hcache]
      exact ⟨release_sound hc.1 _, (release_sameShape s.cache o.blocks).free.trans hc.2⟩
    · rw [hcache, hsplits, houts']
      exact hlaw.release hkeeps

/-- The pin counts are those of the outstanding lookups, and without outstanding lookups
nothing is pinned and every node without a block or a child can be reclaimed. -/
structure RefLaw (s : RefState) : Prop where
  refs : ∀ i, s.cache.refs i = s.cache.expectedRefs s.splits s.outs i
  released : s.outs = [] → (∀ i, s.cache.refs i = 0) ∧
    ∀ i, i ≠ root → i < s.cache.nodes.length → s.cache.block i = none →
      (∀ t, s.cache.child i t = none) → i ∈ s.cache.gcReclaimable

/-- The law holds in every run whose steps meet the condition. -/
theorem refs_conserved {size : Nat} {s : RefState}
    (h : Reachable (RefStart size) (guarded KeepsPins RefStep) s) : RefLaw s := by
  obtain ⟨-, hlaw⟩ := h.invariant (fun _ => pinsKept_start) pinsKept_step
  have hzero : s.outs = [] → ∀ i, s.cache.refs i = 0 := by
    intro houts i
    rw [hlaw.refs, houts, expectedRefs_nil]
  exact ⟨hlaw.refs, fun houts => ⟨hzero houts, fun i hroot hi hblock hchild =>
    mem_gcReclaimable_of_blank hroot hi hblock (hzero houts i) hchild⟩⟩

/-- One cached block, looked up and released. -/
theorem refs_conserved_one : ∃ s : RefState,
    Reachable (RefStart 1) (guarded KeepsPins RefStep) s ∧ s.cache.block 1 = some ⟨7⟩ ∧
      s.outs = [] ∧ RefLaw s := by
  obtain ⟨c₀, hc₀⟩ : ∃ c, RadixCache.new 1 = some c := ⟨_, rfl⟩
  obtain ⟨c₁, c₂, hc₁, hc₂, hchild, hedge, h0, h1, hlen, hrefs, hb1⟩ : ∃ c₁ c₂,
      c₀.insertWithFingerprints [1] [⟨7⟩] [⟨0⟩] = some (1, c₁) ∧
      c₁.lookup [1] = some ((1, [⟨7⟩]), c₂) ∧ c₁.child 0 1 = some 1 ∧ c₁.edge 1 = [1] ∧
      c₂.block 0 = none ∧ c₂.block 1 = some ⟨7⟩ ∧ c₂.nodes.length = 2 ∧ c₂.refs 1 = 1 ∧
      c₁.block 1 = some ⟨7⟩ := by
    cases hc₀
    exact ⟨_, _, rfl, rfl, by decide +kernel, by decide +kernel, by decide +kernel,
      by decide +kernel, rfl, by decide +kernel, by decide +kernel⟩
  have hnew : newSplits c₀ c₁ = ∅ := by
    refine Set.eq_empty_iff_forall_notMem.mpr fun i hi => ?_
    obtain ⟨hle, hb, t, j, hj⟩ := hi
    have hlt := lt_length_of_child hj
    have hsize : c₀.nodes.length = 1 ∧ c₁.nodes.length = 2 := by
      cases hc₀
      cases hc₁
      exact ⟨rfl, rfl⟩
    obtain rfl : i = 1 := by omega
    rw [hb1] at hb
    cases hb
  have hrun₁ : Reachable (RefStart 1) (guarded KeepsPins RefStep) ⟨c₁, ∅, []⟩ := by
    refine Reachable.next (s := ⟨c₀, ∅, []⟩) (Reachable.start ⟨hc₀, rfl, rfl⟩)
      (a := .insert [1] [⟨7⟩] [⟨0⟩]) ⟨?_, ⟨1, hc₁⟩, ?_, rfl⟩
    · exact fun _ _ _ _ _ _ _ _ _ _ o ho => absurd ho List.not_mem_nil
    · simp only [hnew, Set.union_empty]
  have hrun₂ : Reachable (RefStart 1) (guarded KeepsPins RefStep) ⟨c₂, ∅, [⟨[1], [⟨7⟩]⟩]⟩ := by
    refine Reachable.next hrun₁ (a := .lookup [1]) ⟨?_, 1, [⟨7⟩], [1], hc₂, ⟨[1], ?_, ?_⟩, rfl, rfl⟩
    · intro js _ j _ _
      rw [((refs_conserved hrun₁).released rfl).1]
      exact ⟨by decide, fun i hi => absurd hi (Set.notMem_empty i)⟩
    · have hw : c₁.trie.Walk root (c₁.trie.edge 1 ++ []) [1] :=
        .next hchild (.stop fun _ _ h => by cases h)
      rwa [show c₁.trie.edge 1 = [1] from hedge] at hw
    · show [1] = ([1].filter fun j => (c₁.block j).isSome).take 1
      rw [List.filter_cons_of_pos (by rw [hb1]; rfl)]
      rfl
  have hrun₃ : Reachable (RefStart 1) (guarded KeepsPins RefStep) ⟨c₂.release [⟨7⟩], ∅, []⟩ := by
    refine Reachable.next hrun₂ (a := .release ⟨[1], [⟨7⟩]⟩)
      ⟨⟨fun i _ => ?_, fun i hi => absurd hi (Set.notMem_empty i)⟩, [], [], rfl, rfl, rfl, rfl⟩
    constructor
    · intro hi
      obtain rfl := List.mem_singleton.mp hi
      exact ⟨⟨_, List.mem_singleton.mpr rfl, h1⟩, by rw [hrefs]; decide⟩
    · rintro ⟨⟨b, -, hb⟩, -⟩
      have hlt : i < 2 := hlen ▸ lt_length_of_block (by rw [hb]; simp)
      rcases (by omega : i = 0 ∨ i = 1) with rfl | rfl
      · rw [h0] at hb
        cases hb
      · exact List.mem_singleton.mpr rfl
  exact ⟨_, hrun₃, by rw [(release_sameShape c₂ _).block, h1], rfl, refs_conserved hrun₃⟩

/-- A window is looked up, its edge is split, and its blocks are released: the split
intermediate keeps the pin it inherited. -/
theorem refs_conserved_fails : ∃ s : RefState, Reachable (RefStart 2) RefStep s ∧ s.outs = [] ∧
    s.cache.refs 3 = 1 ∧ ¬ RefLaw s := by
  obtain ⟨c₀, hc₀⟩ : ∃ c, RadixCache.new 2 = some c := ⟨_, rfl⟩
  obtain ⟨c₁, c₂, c₃, hc₁, hc₂, hc₃, hrefs⟩ : ∃ c₁ c₂ c₃,
      c₀.insertWithFingerprints [1, 2, 3, 4] [⟨10⟩, ⟨20⟩] [⟨0⟩, ⟨1⟩] = some (4, c₁) ∧
      c₁.lookup [1, 2, 3, 4] = some ((4, [⟨10⟩, ⟨20⟩]), c₂) ∧
      c₂.insertWithFingerprints [1, 2, 3, 5] [⟨10⟩, ⟨99⟩] [⟨0⟩, ⟨2⟩] = some (4, c₃) ∧
      (c₃.release [⟨10⟩, ⟨20⟩]).refs 3 = 1 := by
    cases hc₀
    exact ⟨_, _, _, rfl, rfl, rfl, by decide +kernel⟩
  have htree := ((unevicted_new hc₀).insert hc₁).1.tree
  obtain ⟨js, hw⟩ := RadixTree.exists_walk htree root [1, 2, 3, 4]
  set pins := (js.filter fun j => (c₁.block j).isSome).take 2 with hpins
  have hrun₁ : Reachable (RefStart 2) RefStep ⟨c₁, ∅ ∪ newSplits c₀ c₁, []⟩ :=
    Reachable.next (s := ⟨c₀, ∅, []⟩) (Reachable.start ⟨hc₀, rfl, rfl⟩)
      (a := .insert [1, 2, 3, 4] [⟨10⟩, ⟨20⟩] [⟨0⟩, ⟨1⟩]) ⟨⟨4, hc₁⟩, rfl, rfl⟩
  have hrun₂ : Reachable (RefStart 2) RefStep
      ⟨c₂, ∅ ∪ newSplits c₀ c₁, [⟨pins, [⟨10⟩, ⟨20⟩]⟩]⟩ :=
    Reachable.next hrun₁ (a := .lookup [1, 2, 3, 4])
      ⟨4, [⟨10⟩, ⟨20⟩], pins, hc₂, ⟨js, hw, hpins⟩, rfl, rfl⟩
  have hrun₃ : Reachable (RefStart 2) RefStep
      ⟨c₃, ∅ ∪ newSplits c₀ c₁ ∪ newSplits c₂ c₃, [⟨pins, [⟨10⟩, ⟨20⟩]⟩]⟩ :=
    Reachable.next hrun₂ (a := .insert [1, 2, 3, 5] [⟨10⟩, ⟨99⟩] [⟨0⟩, ⟨2⟩]) ⟨⟨4, hc₃⟩, rfl, rfl⟩
  refine ⟨⟨c₃.release [⟨10⟩, ⟨20⟩], ∅ ∪ newSplits c₀ c₁ ∪ newSplits c₂ c₃, []⟩, ?_, rfl, hrefs,
    fun hlaw => ?_⟩
  · exact Reachable.next hrun₃ (a := .release ⟨pins, [⟨10⟩, ⟨20⟩]⟩) ⟨[], [], rfl, rfl, rfl, rfl⟩
  · have := (hlaw.released rfl).1 3
    rw [hrefs] at this
    cases this

end Arle.PrefixCache.RadixCache
