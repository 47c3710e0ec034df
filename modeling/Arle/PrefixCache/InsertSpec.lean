import Arle.Lib.Outcome
import Arle.PrefixCache.Sound

/-!
# What an insertion does

`InsertInvariant` lists the edits an insertion makes and where it makes them; a property
of the cache, of the consumed tokens and of the inserted windows that every edit keeps
holds after the insertion (`insertWithFingerprints_outcome`). The insertion fails only
behind a lag: fewer windows were inserted than the consumed tokens fill.
-/

namespace Arle.PrefixCache.RadixCache

open KvTier

/-! ## Where an insertion stands -/

/-- The insertion of `tokens` stands at the node `a`, which the first `pos` tokens lead to,
after `i` windows. -/
structure InsertAt (c : RadixCache) (tokens : List Token) (a pos i : Nat) : Prop where
  sound : c.Sound
  free_nodup : c.freeNodes.Nodup
  reaches : c.trie.Reaches a (tokens.take pos)
  pos_le : pos ≤ tokens.length
  windows_le : i * c.blockSize ≤ pos

section InsertAt

variable {c c' : RadixCache} {tokens : List Token} {a pos i : Nat}

theorem InsertAt.length (h : InsertAt c tokens a pos i) : (tokens.take pos).length = pos := by
  rw [List.length_take, Nat.min_eq_left h.pos_le]

theorem InsertAt.lt (h : InsertAt c tokens a pos i) : a < c.nodes.length :=
  h.sound.toSlots.reached_lt h.reaches

theorem InsertAt.not_free (h : InsertAt c tokens a pos i) : a ∉ c.freeNodes :=
  h.sound.toSlots.reached_not_free h.reaches

/-- The windows inserted so far are at most the windows the consumed tokens fill. -/
theorem InsertAt.windows_le_div (h : InsertAt c tokens a pos i) : i ≤ pos / c.blockSize :=
  (Nat.le_div_iff_mul_le h.sound.blockSize_pos).mpr h.windows_le

theorem InsertAt.sameShape (h : InsertAt c tokens a pos i) (hshape : SameShape c c')
    (hrefs : c'.refs = c.refs) : InsertAt c' tokens a pos i where
  sound := hshape.sound h.sound fun f hf => by rw [hrefs]; exact h.sound.free_refs hf
  free_nodup := hshape.free ▸ h.free_nodup
  reaches := hshape.trie ▸ h.reaches
  pos_le := h.pos_le
  windows_le := hshape.blockSize ▸ h.windows_le

/-- A child whose edge the next tokens spell out is reached. -/
theorem InsertAt.reaches_child (h : InsertAt c tokens a pos i) {t : Token} {j : Nat}
    (haj : c.child a t = some j) (hedge : c.edge j <+: tokens.drop pos) :
    c.trie.Reaches j (tokens.take (pos + (c.edge j).length)) ∧
      pos + (c.edge j).length ≤ tokens.length := by
  have hle := hedge.length_le
  rw [List.length_drop] at hle
  have hpos := h.pos_le
  refine ⟨?_, by omega⟩
  have := h.reaches.step haj
  rwa [show c.trie.edge j = c.edge j from rfl, List.prefix_iff_eq_take.mp hedge,
    ← List.take_add] at this

/-- The tokens between two positions. -/
theorem take_append_slice (tokens : List Token) {pos stop : Nat} (h : pos ≤ stop) :
    tokens.take pos ++ (tokens.drop pos).take (stop - pos) = tokens.take stop := by
  rw [← List.take_add, Nat.add_sub_cancel' h]

theorem slice_eq {tokens : List Token} {pos stop : Nat} (h : pos ≤ stop)
    (hstop : stop ≤ tokens.length) :
    slice tokens pos stop = some ((tokens.drop pos).take (stop - pos)) := by
  rw [slice, if_pos ⟨h, hstop⟩]

/-- The insertion of a leaf that takes the tokens up to `stop`. -/
theorem InsertAt.addChild (h : InsertAt c tokens a pos i)
    (hfree : ∀ t, tokens[pos]? = some t → c.child a t = none) {stop : Nat}
    (hstop : pos < stop) (hle : stop ≤ tokens.length)
    (hwithin : pos % c.blockSize + (stop - pos) ≤ c.blockSize) (i' : Nat)
    (hi' : i' * c.blockSize ≤ stop) (blk : Option (BlockId × BlockFingerprint))
    (hblk : blk ≠ none → c.blockSize ∣ stop) (now : Nat) :
    ∃ t n c', tokens[pos]? = some t ∧ c.child a t = none ∧
      c.addChild a ((tokens.drop pos).take (stop - pos)) blk now = some (n, c') ∧
      c.LeafAdded a t ((tokens.drop pos).take (stop - pos)) blk n c' ∧
      InsertAt c' tokens n stop i' := by
  have hpos : pos < tokens.length := by omega
  obtain ⟨rest, hrest⟩ : ∃ rest, (tokens.drop pos).take (stop - pos) = tokens[pos] :: rest := by
    rw [List.drop_eq_getElem_cons hpos, show stop - pos = stop - pos - 1 + 1 by omega,
      List.take_succ_cons]
    exact ⟨_, rfl⟩
  have ht : tokens[pos]? = some tokens[pos] := List.getElem?_eq_getElem hpos
  obtain ⟨n, c', hadd, hleaf⟩ := addChild_spec h.sound.toSlots h.free_nodup h.lt h.not_free
    tokens[pos] rest blk now
  rw [← hrest] at hadd hleaf
  have hpath : tokens.take pos ++ (tokens.drop pos).take (stop - pos) = tokens.take stop :=
    take_append_slice tokens (Nat.le_of_lt hstop)
  refine ⟨_, n, c', ht, hfree _ ht, hadd, hleaf, ?_, hleaf.nodup, ?_, hle, ?_⟩
  · refine hleaf.sound h.sound (hfree _ ht) h.reaches ?_ ?_
    · rw [h.length, List.length_take, List.length_drop]
      omega
    · intro hne
      rw [hpath, List.length_take, Nat.min_eq_left hle]
      exact hblk hne
  · exact (hleaf.reaches (hfree _ ht)).mpr (Or.inr ⟨rfl, _, h.reaches, hpath.symm⟩)
  · rw [hleaf.blockSize]
    exact hi'

end InsertAt

/-! ## The invariant rule -/

/-- `P c pos i` is kept by every edit that an insertion of `tokens` makes: `pos` tokens are
consumed and `i` windows inserted. -/
structure InsertInvariant (tokens : List Token) (blocks : List BlockId)
    (fps : List BlockFingerprint) (P : RadixCache → Nat → Nat → Prop) : Prop where
  touch : ∀ {c c' : RadixCache} {pos i : Nat}, SameShape c c' → c'.refs = c.refs →
    P c pos i → P c' pos i
  pass : ∀ {c : RadixCache} {a pos i j : Nat} {t : Token}, InsertAt c tokens a pos i →
    c.child a t = some j → c.block j = none → InsertAt c tokens j (pos + (c.edge j).length) i →
    P c pos i → P c (pos + (c.edge j).length) i
  relabel : ∀ {c c' : RadixCache} {a pos i j : Nat} {t : Token} {old new : BlockId}
    {fp : BlockFingerprint}, InsertAt c tokens a pos i → c.child a t = some j →
    c.block j = some old → blocks[i]? = some new → fps[i]? = some fp →
    c.Relabeled j old new fp c' → InsertAt c' tokens j (pos + (c.edge j).length) (i + 1) →
    P c pos i → P c' (pos + (c.edge j).length) (i + 1)
  split : ∀ {c c' : RadixCache} {a pos i j k d : Nat} {t : Token}, InsertAt c tokens a pos i →
    c.child a t = some j → 0 < k → k < (c.edge j).length → c.EdgeSplit a t j k d c' →
    (∀ s, tokens[pos + k]? = some s → c'.child d s = none) → InsertAt c' tokens d (pos + k) i →
    P c pos i → P c' (pos + k) i
  leaf : ∀ {c c' : RadixCache} {a pos i n : Nat} {t : Token} {e : List Token} {b : BlockId}
    {fp : BlockFingerprint}, InsertAt c tokens a pos i → tokens[pos]? = some t →
    c.child a t = none → tokens.take pos ++ e = tokens.take ((i + 1) * c.blockSize) →
    pos < (i + 1) * c.blockSize → blocks[i]? = some b → fps[i]? = some fp →
    c.LeafAdded a t e (some (b, fp)) n c' →
    InsertAt c' tokens n ((i + 1) * c.blockSize) (i + 1) → P c pos i →
    P c' ((i + 1) * c.blockSize) (i + 1)
  tail : ∀ {c c' : RadixCache} {a pos i n : Nat} {t : Token} {e : List Token},
    InsertAt c tokens a pos i → tokens[pos]? = some t → c.child a t = none →
    tokens.take pos ++ e = tokens → tokens.length < (i + 1) * c.blockSize →
    c.LeafAdded a t e none n c' → InsertAt c' tokens n tokens.length i → P c pos i →
    P c' tokens.length i

/-- Where an insertion ends: the tokens are consumed, the blocks are used up, or the
remaining tokens fill no further window. -/
def InsertDone (tokens : List Token) (blocks : List BlockId) (P : RadixCache → Nat → Nat → Prop)
    (r : Nat × RadixCache) : Prop :=
  ∃ a pos, InsertAt r.2 tokens a pos r.1 ∧ P r.2 pos r.1 ∧
    (tokens.length ≤ pos ∨ blocks.length ≤ r.1 ∨ tokens.length < (r.1 + 1) * r.2.blockSize)

section Rule

variable {tokens : List Token} {blocks : List BlockId} {fps : List BlockFingerprint}
  {P : RadixCache → Nat → Nat → Prop} {bad : Prop} {now : Nat}

theorem pathIsBlockAligned_eq_true {c : RadixCache} {len : Nat} (h0 : 0 < len)
    (h : c.blockSize ∣ len) : c.pathIsBlockAligned len = true := by
  simp [pathIsBlockAligned, h, Nat.ne_of_gt h0]

theorem LeafAdded.childless {c c' : RadixCache} {a n : Nat} {t : Token} {e : List Token}
    {blk : Option (BlockId × BlockFingerprint)} (h : c.LeafAdded a t e blk n c') (s : Token) :
    c'.child n s = none := by
  cases hj : c'.child n s with
  | none => rfl
  | some j =>
    rcases h.child_cases hj with ⟨hn, -⟩ | ⟨hn, -⟩
    · exact absurd hn.symm h.ne
    · exact absurd rfl hn

/-- A slice that ends where it starts, or before, is empty if it is there at all. -/
theorem slice_nil {tokens : List Token} {pos stop : Nat} {e : List Token} (h : stop ≤ pos)
    (he : slice tokens pos stop = some e) : e = [] := by
  unfold slice at he
  split at he
  · rw [← Option.some.inj he, show stop - pos = 0 by omega, List.take_zero]
  · cases he

/-- Behind a lag the next window is empty, and an empty edge has no first token. -/
theorem insertFresh_behind {c : RadixCache} {fuel a pos i : Nat}
    (hmore : pos < tokens.length ∧ i < blocks.length) (hbehind : (i + 1) * c.blockSize ≤ pos) :
    insertFresh tokens blocks fps now (fuel + 1) c a pos i = none := by
  rw [insertFresh, if_pos hmore]
  refine Option.bind_eq_none_iff.mpr fun e he => ?_
  obtain rfl := slice_nil (Nat.le_trans (Nat.min_le_left _ _) hbehind) he
  split
  · exact Option.bind_eq_none_iff.mpr fun _ _ => Option.bind_eq_none_iff.mpr fun _ _ =>
      Option.bind_eq_none_iff.mpr fun _ _ => rfl
  · rfl

/-- Without a lag the next window starts within its block. -/
theorem InsertAt.window {c : RadixCache} {a pos i : Nat} (hat : InsertAt c tokens a pos i)
    (hi : ¬ i < pos / c.blockSize) :
    pos < (i + 1) * c.blockSize ∧ pos % c.blockSize + ((i + 1) * c.blockSize - pos) =
      c.blockSize := by
  have hdiv : pos / c.blockSize = i := Nat.le_antisymm (by omega) hat.windows_le_div
  have hbs := hat.sound.blockSize_pos
  have hmod := Nat.mod_lt pos hbs
  have hsum := Nat.div_add_mod pos c.blockSize
  rw [hdiv, Nat.mul_comm] at hsum
  rw [Nat.succ_mul]
  omega

theorem insertFresh_outcome (hP : InsertInvariant tokens blocks fps P)
    (hlag : ∀ {c a pos i}, InsertAt c tokens a pos i → P c pos i → i < pos / c.blockSize → bad)
    (hlen : blocks.length = fps.length) {fuel a pos i : Nat} {c : RadixCache}
    (hat : InsertAt c tokens a pos i) (hp : P c pos i)
    (hfree : ∀ t, tokens[pos]? = some t → c.child a t = none)
    (hfuel : blocks.length - i < fuel) :
    Outcome bad (insertFresh tokens blocks fps now fuel c a pos i)
      (InsertDone tokens blocks P) := by
  induction fuel generalizing c a pos i with
  | zero => omega
  | succ fuel ih =>
    by_cases hmore : pos < tokens.length ∧ i < blocks.length
    · by_cases hbehind : i < pos / c.blockSize
      · rw [insertFresh_behind hmore
          ((Nat.le_div_iff_mul_le hat.sound.blockSize_pos).mp hbehind)]
        exact Outcome.fail (hlag hat hp hbehind)
      obtain ⟨hpos, hwindow⟩ := hat.window hbehind
      rw [insertFresh, if_pos hmore]
      by_cases hfull : (i + 1) * c.blockSize ≤ tokens.length
      · -- a full window becomes a node with a block
        have hstop : c.truncatedBlockEnd i tokens.length = (i + 1) * c.blockSize :=
          Nat.min_eq_left hfull
        obtain ⟨t, n, c', ht, hchild, hadd, hleaf, hat'⟩ := hat.addChild hfree hpos hfull
          (by omega) (i + 1) (Nat.le_refl _) (some (blocks[i], fps[i]))
          (fun _ => Nat.dvd_mul_left _ _) now
        rw [hstop]
        refine Outcome.bind_of_eq (slice_eq (Nat.le_of_lt hpos) hfull) ?_
        rw [if_pos (show (i + 1) * c.blockSize = c.nextBlockBoundary i from rfl)]
        refine Outcome.bind_of_eq (List.getElem?_eq_getElem hmore.2) ?_
        refine Outcome.bind_of_eq (List.getElem?_eq_getElem (hlen ▸ hmore.2)) ?_
        rw [pathIsBlockAligned_eq_true (by omega) (Nat.dvd_mul_left _ _)]
        refine Outcome.bind_of_eq rfl (Outcome.bind_of_eq hadd ?_)
        have hp' := hP.leaf hat ht hchild (take_append_slice tokens (Nat.le_of_lt hpos)) hpos
          (List.getElem?_eq_getElem hmore.2) (List.getElem?_eq_getElem (hlen ▸ hmore.2)) hleaf
          hat' hp
        exact ih hat' hp' (fun t _ => hleaf.childless t) (by omega)
      · -- a partial window becomes a node without a block, and ends the insertion
        have hstop : c.truncatedBlockEnd i tokens.length = tokens.length :=
          Nat.min_eq_right (by rw [nextBlockBoundary]; omega)
        obtain ⟨t, n, c', ht, hchild, hadd, hleaf, hat'⟩ := hat.addChild hfree hmore.1
          (Nat.le_refl _) (by omega) i (Nat.le_trans hat.windows_le hat.pos_le) none
          (fun h => absurd rfl h) now
        rw [hstop]
        refine Outcome.bind_of_eq (slice_eq hat.pos_le (Nat.le_refl _)) ?_
        rw [if_neg (by rw [nextBlockBoundary]; omega)]
        refine Outcome.bind_of_eq hadd (Outcome.ret ?_)
        have hpath := take_append_slice tokens hat.pos_le
        rw [List.take_length] at hpath
        refine ⟨n, tokens.length, hat', hP.tail hat ht hchild hpath
          (Nat.lt_of_not_le hfull) hleaf hat' hp, ?_⟩
        exact Or.inl (Nat.le_refl _)
    · rw [insertFresh, if_neg hmore]
      exact Outcome.ret ⟨a, pos, hat, hp, by omega⟩

/-- A split that ends an insertion, or that is followed by a new leaf. -/
theorem InsertAt.split {c : RadixCache} {a pos i j : Nat} {t : Token}
    (hat : InsertAt c tokens a pos i) (haj : c.child a t = some j) {k : Nat} (hk0 : 0 < k)
    (hk : k < (c.edge j).length) (hkp : pos + k ≤ tokens.length)
    (hedge : (c.edge j).take k = (tokens.drop pos).take k) (now : Nat) :
    ∃ d c', c.splitEdge a j t k now = some (d, c') ∧ c.EdgeSplit a t j k d c' ∧
      InsertAt c' tokens d (pos + k) i := by
  obtain ⟨d, c', hsplit, hs⟩ := splitEdge_spec hat.sound.toSlots hat.free_nodup hat.sound.tree
    hat.not_free haj hk now
  refine ⟨d, c', hsplit, hs, hs.sound hat.sound haj hk0 hk, hs.nodup, ?_, hkp, ?_⟩
  · refine (hs.reaches hat.sound haj hk).mpr (Or.inr ⟨rfl, _, hat.reaches, ?_⟩)
    rw [hedge, ← List.take_add]
  · rw [hs.blockSize]
    exact Nat.le_trans hat.windows_le (Nat.le_add_right _ _)

/-- Another block for a child that the insertion descends to. -/
theorem InsertAt.relabel {c : RadixCache} {a pos i j : Nat} {t : Token}
    (hat : InsertAt c tokens a pos i) (haj : c.child a t = some j)
    (hedge : c.edge j <+: tokens.drop pos) {old : BlockId} (hj : c.block j = some old)
    (new : BlockId) (fp : BlockFingerprint) :
    ∃ c', c.pathIsBlockAligned (pos + (c.edge j).length) = true ∧
      c.relabel j old new fp = some c' ∧ c.Relabeled j old new fp c' ∧
      InsertAt c' tokens j (pos + (c.edge j).length) (i + 1) := by
  obtain ⟨hreach, hle⟩ := hat.reaches_child haj hedge
  have hpos := List.length_pos_of_ne_nil (hat.sound.tree.edge_ne_nil haj)
  have haligned := hat.sound.block_aligned hreach (by rw [hj]; simp)
  rw [List.length_take, Nat.min_eq_left hle] at haligned
  obtain ⟨c', hc', hrel⟩ := relabel_spec (lt_length_of_block (by rw [hj]; simp)) old new fp
  refine ⟨c', pathIsBlockAligned_eq_true (Nat.add_pos_right _ hpos) haligned, hc', hrel,
    hrel.sound hat.sound hj, hrel.free ▸ hat.free_nodup, hrel.trie ▸ hreach, hle, ?_⟩
  rw [hrel.blockSize]
  obtain ⟨m, hm⟩ := haligned
  have hwindows := hat.windows_le
  have him : i < m := by
    refine Nat.lt_of_mul_lt_mul_left (a := c.blockSize) ?_
    rw [← hm, Nat.mul_comm]
    exact Nat.lt_of_le_of_lt hwindows (Nat.lt_add_of_pos_right hpos)
  rw [hm, Nat.mul_comm]
  exact Nat.mul_le_mul_left _ him

theorem EdgeSplit.child_new {c c' : RadixCache} {a j k d m : Nat} {t s : Token}
    (h : c.EdgeSplit a t j k d c') (hm : c'.child d s = some m) :
    ((c.edge j).drop k).head? = some s := by
  have hm' : c'.trie.child d s = some m := hm
  rw [h.trie] at hm'
  rcases RadixTree.splitEdge_child_eq_some.mp hm' with ⟨-, -, hs⟩ | ⟨hd, -⟩ | ⟨hd, -⟩
  · exact hs
  · exact absurd rfl hd
  · exact absurd rfl hd

/-- The rest of an insertion that splits an edge where the tokens leave it. -/
theorem insertSplit_outcome (hP : InsertInvariant tokens blocks fps P)
    (hlag : ∀ {c a pos i}, InsertAt c tokens a pos i → P c pos i → i < pos / c.blockSize → bad)
    (hlen : blocks.length = fps.length) {a pos i j k : Nat} {c : RadixCache}
    (hat : InsertAt c tokens a pos i) (hp : P c pos i) {t : Token}
    (ht : tokens[pos]? = some t) (hi : i < blocks.length) (haj : c.child a t = some j)
    (hmatch : edgeMatchLen (c.edge j) (tokens.drop pos) = k) (hk : k < (c.edge j).length)
    (next : RadixCache → Nat → Nat → Option (Nat × RadixCache))
    (hnext : ∀ {c' : RadixCache} {n stop : Nat}, InsertAt c' tokens n stop (i + 1) →
      P c' stop (i + 1) → pos < stop →
      Outcome bad (next c' n stop) (InsertDone tokens blocks P)) :
    Outcome bad
      (do
        let (sharedIdx, c) ← c.splitEdge a j t k now
        match c.fullBlockEnd i tokens.length with
        | some blockEnd => do
          let newBlockTokens ← slice tokens (pos + k) blockEnd
          let newBid ← blocks[i]?
          let newFp ← fps[i]?
          let (newIdx, c) ← c.addChild sharedIdx newBlockTokens (some (newBid, newFp)) now
          next c newIdx blockEnd
        | none => some (i, c))
      (InsertDone tokens blocks P) := by
  obtain ⟨hpos, rfl⟩ := List.getElem?_eq_some_iff.mp ht
  have hdrop : tokens.drop pos = tokens[pos] :: tokens.drop (pos + 1) :=
    List.drop_eq_getElem_cons hpos
  obtain ⟨rest, hrest⟩ := hat.sound.tree.edge_head haj
  have hk0 : 0 < k := by
    rw [← hmatch, show c.edge j = tokens[pos] :: rest from hrest, hdrop]
    exact edgeMatchLen_pos _ _
  have hkp : pos + k ≤ tokens.length := by
    have := (edgeMatchLen_le (c.edge j) (tokens.drop pos)).2
    rw [hmatch, List.length_drop] at this
    omega
  obtain ⟨d, c₁, hsplit, hs, hat₁⟩ := hat.split haj hk0 hk hkp
    (hmatch ▸ edgeMatchLen_take (c.edge j) (tokens.drop pos)) now
  have hfree : ∀ s, tokens[pos + k]? = some s → c₁.child d s = none := by
    -- the tokens and the edge differ after the match
    intro s hs'
    cases hm : c₁.child d s with
    | none => rfl
    | some m =>
      obtain ⟨e', he'⟩ := List.head?_eq_some_iff.mp (hs.child_new hm)
      obtain ⟨hlt, hs''⟩ := List.getElem?_eq_some_iff.mp hs'
      have hr' : (tokens.drop pos).drop k = s :: tokens.drop (pos + k + 1) := by
        rw [List.drop_drop, ← hs'', List.drop_eq_getElem_cons hlt]
      exact absurd rfl (edgeMatchLen_next_ne (hmatch.symm ▸ he') (hmatch.symm ▸ hr'))
  have hp₁ := hP.split hat haj hk0 hk hs hfree hat₁ hp
  refine Outcome.bind_of_eq hsplit ?_
  dsimp only
  by_cases hend : c₁.nextBlockBoundary i ≤ tokens.length
  · rw [fullBlockEnd, if_pos hend]
    dsimp only
    by_cases hbehind : i < (pos + k) / c₁.blockSize
    · -- behind a lag the window ends before the split
      have hnone : ∀ f : List Token → Option (Nat × RadixCache), f [] = none →
          (slice tokens (pos + k) (c₁.nextBlockBoundary i)).bind f = none := by
        intro f hf
        refine Option.bind_eq_none_iff.mpr fun e he => ?_
        rwa [slice_nil ((Nat.le_div_iff_mul_le hat₁.sound.blockSize_pos).mp hbehind) he]
      rw [Option.bind_eq_bind, hnone _ (Option.bind_eq_none_iff.mpr fun _ _ =>
        Option.bind_eq_none_iff.mpr fun _ _ => rfl)]
      exact Outcome.fail (hlag hat₁ hp₁ hbehind)
    · obtain ⟨hwin, hwindow⟩ := hat₁.window hbehind
      obtain ⟨s, n, c₂, hs', hchild, hadd, hleaf, hat₂⟩ := hat₁.addChild hfree hwin hend
        (by omega) (i + 1) (Nat.le_refl _) (some (blocks[i], fps[i]))
        (fun _ => Nat.dvd_mul_left _ _) now
      refine Outcome.bind_of_eq (slice_eq (Nat.le_of_lt hwin) hend) ?_
      refine Outcome.bind_of_eq (List.getElem?_eq_getElem hi) ?_
      refine Outcome.bind_of_eq (List.getElem?_eq_getElem (hlen ▸ hi)) ?_
      refine Outcome.bind_of_eq hadd ?_
      refine hnext hat₂ ?_ (Nat.lt_of_le_of_lt (Nat.le_add_right _ _) hwin)
      exact hP.leaf hat₁ hs' hchild (take_append_slice tokens (Nat.le_of_lt hwin)) hwin
        (List.getElem?_eq_getElem hi) (List.getElem?_eq_getElem (hlen ▸ hi)) hleaf hat₂ hp₁
  · rw [fullBlockEnd, if_neg hend]
    exact Outcome.ret ⟨d, pos + k, hat₁, hp₁, Or.inr (Or.inr (Nat.lt_of_not_le hend))⟩

theorem insertLoop_outcome (hP : InsertInvariant tokens blocks fps P)
    (hlag : ∀ {c a pos i}, InsertAt c tokens a pos i → P c pos i → i < pos / c.blockSize → bad)
    (hlen : blocks.length = fps.length) {fuel a pos i : Nat} {c : RadixCache}
    (hat : InsertAt c tokens a pos i) (hp : P c pos i) (hfuel : tokens.length - pos < fuel) :
    Outcome bad (insertLoop tokens blocks fps now fuel c a pos i)
      (InsertDone tokens blocks P) := by
  induction fuel generalizing c a pos i with
  | zero => omega
  | succ fuel ih =>
    rw [insertLoop]
    by_cases hmore : pos < tokens.length ∧ i < blocks.length
    · rw [if_pos hmore]
      obtain ⟨na, hna⟩ : ∃ na, c.nodes[a]? = some na := ⟨_, List.getElem?_eq_getElem hat.lt⟩
      refine Outcome.bind_of_eq (List.getElem?_eq_getElem hmore.1) ?_
      refine Outcome.bind_of_eq hna ?_
      cases hchild : na.children.lookup tokens[pos] with
      | none =>
        -- no edge starts with the next token
        refine insertFresh_outcome hP hlag hlen hat hp (fun t ht => ?_) (by omega)
        rw [List.getElem?_eq_getElem hmore.1, Option.some.injEq] at ht
        rw [RadixCache.child, hna, ← ht]
        exact hchild
      | some j =>
        have haj : c.child a tokens[pos] = some j := child_eq_some.mpr ⟨na, hna, hchild⟩
        have hj := hat.sound.child_lt haj
        have hnj : c.nodes[j]? = some c.nodes[j] := List.getElem?_eq_getElem hj
        have hmatch : c.childEdgeMatch j (tokens.drop pos) =
            some (edgeMatchLen (c.edge j) (tokens.drop pos), (c.edge j).length) := by
          simp [childEdgeMatch, hnj, RadixCache.edge]
        have hlenj : 0 < (c.edge j).length :=
          List.length_pos_of_ne_nil (hat.sound.tree.edge_ne_nil haj)
        refine Outcome.bind_of_eq hmatch ?_
        dsimp only
        by_cases hfull : edgeMatchLen (c.edge j) (tokens.drop pos) = (c.edge j).length
        · -- the whole edge is spelled out: descend
          rw [if_pos hfull]
          have hstart := edgeMatchLen_eq_length_iff.mp hfull
          obtain ⟨c₁, hc₁⟩ := modifyNode_isSome (Node.touch now) hj
          have hshape := touch_sameShape hc₁
          have hat₁ := hat.sameShape hshape (touch_refs hc₁)
          have hp₁ := hP.touch hshape (touch_refs hc₁) hp
          refine Outcome.bind_of_eq hc₁ ?_
          rw [← hshape.child] at haj
          rw [← hshape.edge] at hstart hlenj ⊢
          have hmeasure : tokens.length - (pos + (c₁.edge j).length) < fuel := by
            have := (hat₁.reaches_child haj hstart).2
            omega
          cases hblock : c₁.block j with
          | none =>
            obtain ⟨hreach, hle⟩ := hat₁.reaches_child haj hstart
            have hat₂ : InsertAt c₁ tokens j (pos + (c₁.edge j).length) i :=
              ⟨hat₁.sound, hat₁.free_nodup, hreach, hle,
                Nat.le_trans hat₁.windows_le (Nat.le_add_right _ _)⟩
            exact ih hat₂ (hP.pass hat₁ haj hblock hat₂ hp₁) hmeasure
          | some old =>
            obtain ⟨c₂, haligned, hc₂, hrel, hat₂⟩ := hat₁.relabel haj hstart hblock blocks[i]
              (fps.get ⟨i, hlen ▸ hmore.2⟩)
            have hfp : fps[i]? = some (fps.get ⟨i, hlen ▸ hmore.2⟩) :=
              List.getElem?_eq_getElem (hlen ▸ hmore.2)
            have hbid : blocks[i]? = some blocks[i] := List.getElem?_eq_getElem hmore.2
            rw [haligned]
            refine Outcome.bind_of_eq rfl (Outcome.bind_of_eq hbid (Outcome.bind_of_eq hfp ?_))
            refine Outcome.bind_of_eq hc₂ ?_
            exact ih hat₂ (hP.relabel hat₁ haj hblock hbid hfp hrel hat₂ hp₁) hmeasure
        · rw [if_neg hfull]
          refine insertSplit_outcome hP hlag hlen hat hp (List.getElem?_eq_getElem hmore.1)
            hmore.2 haj rfl ?_ (fun c n stop => insertLoop tokens blocks fps now fuel c n stop
              (i + 1)) ?_
          · have := (edgeMatchLen_le (c.edge j) (tokens.drop pos)).1
            omega
          · intro c' n stop hat' hp' hlt
            exact ih hat' hp' (by omega)
    · rw [if_neg hmore]
      exact Outcome.ret ⟨a, pos, hat, hp, by omega⟩

end Rule

/-- The tokens an insertion looks at: no more than the blocks can hold. -/
def insertedTokens (c : RadixCache) (tokens : List Token) (blocks : List BlockId) : List Token :=
  tokens.take (min tokens.length (blocks.length * c.blockSize))

theorem insertAt_start {c : RadixCache} (hs : c.Sound) (hnodup : c.freeNodes.Nodup)
    (tokens : List Token) : InsertAt c tokens root 0 0 where
  sound := hs
  free_nodup := hnodup
  reaches := RadixTree.Reaches.root
  pos_le := Nat.zero_le _
  windows_le := by simp

theorem InsertInvariant.and {tokens : List Token} {blocks : List BlockId}
    {fps : List BlockFingerprint} {P Q : RadixCache → Nat → Nat → Prop}
    (hP : InsertInvariant tokens blocks fps P) (hQ : InsertInvariant tokens blocks fps Q) :
    InsertInvariant tokens blocks fps fun c pos i => P c pos i ∧ Q c pos i where
  touch h hr hp := ⟨hP.touch h hr hp.1, hQ.touch h hr hp.2⟩
  pass h hc hb h' hp := ⟨hP.pass h hc hb h' hp.1, hQ.pass h hc hb h' hp.2⟩
  relabel h hc hb hn hf hr h' hp :=
    ⟨hP.relabel h hc hb hn hf hr h' hp.1, hQ.relabel h hc hb hn hf hr h' hp.2⟩
  split h hc h0 hk hs hf h' hp :=
    ⟨hP.split h hc h0 hk hs hf h' hp.1, hQ.split h hc h0 hk hs hf h' hp.2⟩
  leaf h ht hc he hw hb hf hl h' hp :=
    ⟨hP.leaf h ht hc he hw hb hf hl h' hp.1, hQ.leaf h ht hc he hw hb hf hl h' hp.2⟩
  tail h ht hc he hw hl h' hp :=
    ⟨hP.tail h ht hc he hw hl h' hp.1, hQ.tail h ht hc he hw hl h' hp.2⟩

theorem InsertInvariant.blockSize (tokens : List Token) (blocks : List BlockId)
    (fps : List BlockFingerprint) (size : Nat) :
    InsertInvariant tokens blocks fps fun c _ _ => c.blockSize = size where
  touch h _ hp := h.blockSize.trans hp
  pass _ _ _ _ hp := hp
  relabel _ _ _ _ _ h _ hp := h.blockSize.trans hp
  split _ _ _ _ h _ _ hp := h.blockSize.trans hp
  leaf _ _ _ _ _ _ _ h _ hp := h.blockSize.trans hp
  tail _ _ _ _ _ h _ hp := h.blockSize.trans hp

/-- The result of an insertion that satisfies `P` at its end. -/
def Inserted (c : RadixCache) (tokens : List Token) (blocks : List BlockId)
    (P : RadixCache → Nat → Nat → Prop) (r : Nat × RadixCache) : Prop :=
  (r = (0, c) ∧ (blocks = [] ∨ tokens = [])) ∨
  ∃ n a pos, r.1 = n * c.blockSize ∧ r.2.blockSize = c.blockSize ∧
    InsertAt r.2 (c.insertedTokens tokens blocks) a pos n ∧ P r.2 pos n ∧
    ((c.insertedTokens tokens blocks).length ≤ pos ∨ blocks.length ≤ n ∨
      (c.insertedTokens tokens blocks).length < (n + 1) * c.blockSize)

/-- The invariant rule for a whole insertion. -/
theorem insertWithFingerprints_outcome {c : RadixCache} {tokens : List Token}
    {blocks : List BlockId} {fps : List BlockFingerprint} {P : RadixCache → Nat → Nat → Prop}
    {bad : Prop} (hs : c.Sound) (hnodup : c.freeNodes.Nodup)
    (hP : InsertInvariant (c.insertedTokens tokens blocks) blocks fps P)
    (hlag : ∀ {c' a pos i}, InsertAt c' (c.insertedTokens tokens blocks) a pos i → P c' pos i →
      c'.blockSize = c.blockSize → i < pos / c.blockSize → bad)
    (hlen : blocks.length ≠ fps.length → bad) (hp : P c 0 0) :
    Outcome bad (c.insertWithFingerprints tokens blocks fps) (c.Inserted tokens blocks P) := by
  unfold insertWithFingerprints
  by_cases hfps : blocks.length ≠ fps.length
  · rw [if_pos hfps]
    exact Outcome.fail (hlen hfps)
  rw [if_neg hfps]
  split
  · rename_i hempty
    exact Outcome.ret (Or.inl ⟨rfl, by simpa using hempty⟩)
  · have hat := (insertAt_start hs hnodup (c.insertedTokens tokens blocks)).sameShape
      (tick_sameShape c) rfl
    have hPsize := hP.and (InsertInvariant.blockSize (c.insertedTokens tokens blocks) blocks fps
      c.blockSize)
    refine Outcome.bind (insertLoop_outcome hPsize ?_ (not_not.mp hfps) hat
      ⟨hP.touch (tick_sameShape c) rfl hp, rfl⟩ ?_) ?_
    · intro c' a pos i hat' hp' hi
      exact hlag hat' hp'.1 hp'.2 (hp'.2 ▸ hi)
    · have := Nat.le_mul_of_pos_right ((c.insertedTokens tokens blocks).length + 1)
        (show 0 < c.tick.2.nodes.length + 3 by omega)
      exact Nat.lt_of_lt_of_le (by omega) this
    · rintro r ⟨a, pos, hat', ⟨hp', hsize⟩, hdone⟩
      refine Outcome.ret (Or.inr ⟨r.1, a, pos, ?_, hsize, hat', hp', ?_⟩)
      · show r.1 * r.2.blockSize = _
        rw [hsize]
      · rwa [hsize] at hdone

theorem InsertInvariant.trivial (tokens : List Token) (blocks : List BlockId)
    (fps : List BlockFingerprint) : InsertInvariant tokens blocks fps fun _ _ _ => True := by
  constructor <;> intros <;> exact True.intro

/-- An invariant of the edits holds after an insertion that returns. -/
theorem insertWithFingerprints_invariant {c : RadixCache} {tokens : List Token}
    {blocks : List BlockId} {fps : List BlockFingerprint} {P : RadixCache → Nat → Nat → Prop}
    (hs : c.Sound) (hnodup : c.freeNodes.Nodup)
    (hP : InsertInvariant (c.insertedTokens tokens blocks) blocks fps P) (hp : P c 0 0)
    {r : Nat × RadixCache} (h : c.insertWithFingerprints tokens blocks fps = some r) :
    c.Inserted tokens blocks P r :=
  (insertWithFingerprints_outcome hs hnodup hP (fun _ _ _ _ => (True.intro : True))
    (fun _ => True.intro) hp).elim h

/-- An insertion keeps the tree sound and the free stack without duplicates. -/
theorem insertWithFingerprints_sound {c : RadixCache} {tokens : List Token}
    {blocks : List BlockId} {fps : List BlockFingerprint} (hs : c.Sound)
    (hnodup : c.freeNodes.Nodup) {r : Nat × RadixCache}
    (h : c.insertWithFingerprints tokens blocks fps = some r) :
    r.2.Sound ∧ r.2.freeNodes.Nodup ∧ r.2.blockSize = c.blockSize := by
  rcases insertWithFingerprints_invariant hs hnodup (InsertInvariant.trivial _ blocks fps)
    True.intro h with ⟨rfl, -⟩ | ⟨n, a, pos, -, hsize, hat, -⟩
  · exact ⟨hs, hnodup, rfl⟩
  · exact ⟨hat.sound, hat.free_nodup, hsize⟩

/-! ## Caches without evictions -/

/-- A sound cache whose free stack is empty, as it is as long as nothing is evicted. -/
def Unevicted (c : RadixCache) : Prop := c.Sound ∧ c.freeNodes = []

theorem Unevicted.nodup {c : RadixCache} (h : Unevicted c) : c.freeNodes.Nodup := by
  rw [h.2]
  exact List.nodup_nil

theorem freeNodes_invariant (tokens : List Token) (blocks : List BlockId)
    (fps : List BlockFingerprint) :
    InsertInvariant tokens blocks fps fun c _ _ => c.freeNodes = [] where
  touch h _ hp := h.free.trans hp
  pass _ _ _ _ hp := hp
  relabel _ _ _ _ _ h _ hp := h.free.trans hp
  split _ _ _ _ h _ _ hp := List.eq_nil_iff_forall_not_mem.mpr fun f hf => by
    rw [h.free, hp] at hf
    cases hf.1
  leaf _ _ _ _ _ _ _ h _ hp := List.eq_nil_iff_forall_not_mem.mpr fun f hf => by
    rw [h.free, hp] at hf
    cases hf.1
  tail _ _ _ _ _ h _ hp := List.eq_nil_iff_forall_not_mem.mpr fun f hf => by
    rw [h.free, hp] at hf
    cases hf.1

theorem Unevicted.insert {c : RadixCache} (h : Unevicted c) {tokens : List Token}
    {blocks : List BlockId} {fps : List BlockFingerprint} {r : Nat × RadixCache}
    (hr : c.insertWithFingerprints tokens blocks fps = some r) : Unevicted r.2 := by
  refine ⟨(insertWithFingerprints_sound h.1 h.nodup hr).1, ?_⟩
  rcases insertWithFingerprints_invariant h.1 h.nodup (freeNodes_invariant _ blocks fps) h.2 hr with
    ⟨rfl, -⟩ | ⟨n, a, pos, -, -, -, hfree, -⟩
  · exact h.2
  · exact hfree

end Arle.PrefixCache.RadixCache
