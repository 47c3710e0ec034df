import Arle.PrefixCache.InsertSpec
import Arle.PrefixCache.LookupSpec

/-!
# Insertions and lookups, window by window

`Unbroken c w`: every node on a block boundary along the word `w` holds a block. Along an
unbroken word an insertion succeeds, inserts every window and records its blocks
(`insert_unbroken`); behind a broken window it fails or falls short (`insert_broken`). The
blocks that a lookup collects on an unbroken chain are those of its windows, in order
(`chain_windows`).
-/

namespace Arle.PrefixCache.RadixCache

open KvTier WindowMap

/-- Every node other than the root on a block boundary along `w` holds a block. -/
def Unbroken (c : RadixCache) (w : List Token) : Prop :=
  ∀ ⦃j p⦄, c.trie.Reaches j p → p <+: w → p ≠ [] → c.blockSize ∣ p.length → c.block j ≠ none

theorem SameTree.unbroken {c c' : RadixCache} {v : List Token} (h : SameTree c c')
    (hfull : c.Unbroken v) : c'.Unbroken v := by
  intro j p hj
  rw [h.block, h.blockSize]
  exact hfull (h.trie ▸ hj)

open Classical in
/-- The map of windows that a cache stands for. -/
noncomputable def windowMap (c : RadixCache) : WindowMap Token BlockId := fun p =>
  if h : ∃ b, c.Holds p b then some h.choose else none

theorem Sound.holds_iff {c : RadixCache} (hs : c.Sound) {p : List Token} {b : BlockId} :
    c.Holds p b ↔ c.windowMap p = some b := by
  unfold windowMap
  by_cases hp : ∃ b, c.Holds p b
  · rw [dif_pos hp, Option.some.injEq]
    refine ⟨fun hholds => ?_, fun hb => hb ▸ hp.choose_spec⟩
    obtain ⟨j, hj, hjb⟩ := hholds
    obtain ⟨i, hi, hib⟩ := hp.choose_spec
    rw [RadixTree.reaches_node_unique hs.tree hi hj, hjb] at hib
    exact (Option.some.inj hib).symm
  · rw [dif_neg hp]
    exact ⟨fun hb => absurd ⟨b, hb⟩ hp, fun hb => by cases hb⟩

/-! ## Blocks along a chain -/

theorem chain_windows {c : RadixCache} (hs : c.Sound) {a : Nat} {p : List Token}
    {js : List Nat} (ha : c.trie.Reaches a p) (hjs : c.trie.Chain a js)
    (hfull : c.Unbroken (p ++ c.trie.spell js)) :
    (p ++ c.trie.spell js).length / c.blockSize =
        p.length / c.blockSize + (js.filterMap c.block).length ∧
      ∀ i b, (js.filterMap c.block)[i]? = some b → ∃ j r, c.trie.Reaches j r ∧
        r <+: p ++ c.trie.spell js ∧ r.length = (p.length / c.blockSize + i + 1) * c.blockSize ∧
        c.block j = some b := by
  induction hjs generalizing p with
  | nil => simp
  | @cons a j t js haj _ ih =>
    have hj := ha.step haj
    have hword : p ++ c.trie.spell (j :: js) = (p ++ c.trie.edge j) ++ c.trie.spell js := by
      rw [RadixTree.spell_cons, List.append_assoc]
    rw [hword] at hfull ⊢
    obtain ⟨hcount, hwindows⟩ := ih hj hfull
    have hpos := List.length_pos_of_ne_nil (hs.tree.edge_ne_nil haj)
    have hwithin := hs.edge_within ha haj
    have hlen : (p ++ c.trie.edge j).length = p.length + (c.edge j).length :=
      List.length_append
    cases hblock : c.block j with
    | none =>
      -- no block, so no boundary
      have hne : ¬ c.blockSize ∣ p.length + (c.edge j).length := by
        intro hdvd
        refine hfull hj (List.prefix_append _ _) ?_ (hlen ▸ hdvd) hblock
        exact fun h => hs.tree.edge_ne_nil haj (List.append_eq_nil_iff.mp h).2
      have hdiv : (p ++ c.trie.edge j).length / c.blockSize = p.length / c.blockSize := by
        rw [hlen, add_div_of_within (within_of_not_dvd hwithin hne)]
      rw [List.filterMap_cons_none hblock]
      rw [hdiv] at hcount hwindows
      exact ⟨hcount, hwindows⟩
    | some b =>
      have hend : p.length + (c.edge j).length = (p.length / c.blockSize + 1) * c.blockSize :=
        add_eq_of_dvd hpos hwithin (hlen ▸ hs.block_aligned hj (by rw [hblock]; simp))
      have hdiv : (p ++ c.trie.edge j).length / c.blockSize = p.length / c.blockSize + 1 := by
        rw [hlen, hend, Nat.mul_div_cancel _ hs.blockSize_pos]
      rw [List.filterMap_cons_some hblock]
      rw [hdiv] at hcount hwindows
      refine ⟨by rw [List.length_cons]; omega, ?_⟩
      intro i b' hb'
      cases i with
      | zero =>
        obtain rfl : b = b' := Option.some.inj hb'
        exact ⟨j, _, hj, List.prefix_append _ _, hlen.trans hend, hblock⟩
      | succ i =>
        obtain ⟨m, r, hr, hpre, hrlen, hb⟩ := hwindows i b' hb'
        exact ⟨m, r, hr, hpre, by rw [hrlen]; congr 1; omega, hb⟩

/-! ## Insertions along an unbroken word -/

section Insert

variable {c₀ : RadixCache} {w : List Token} {blocks : List BlockId}
  {fps : List BlockFingerprint} {M : WindowMap Token BlockId}

/-- An insertion breaks no word. -/
theorem Unbroken.invariant (w : List Token) (blocks : List BlockId)
    (fps : List BlockFingerprint) (v : List Token) :
    InsertInvariant w blocks fps fun c _ _ => c.Unbroken v where
  touch := fun hshape _ hfull => hshape.unbroken hfull
  pass := fun _ _ _ _ hfull => hfull
  relabel := by
    intro c c' a pos i j t old new fp _ _ _ _ _ hrel _ hfull m p hm hp hne hdvd
    rw [hrel.trie] at hm
    rw [hrel.blockSize] at hdvd
    rw [hrel.block, Function.update_apply]
    split
    · simp
    · exact hfull hm hp hne hdvd
  split := by
    intro c c' a pos i j k d t hat haj hk0 hk hs hleave hat' hfull m p hm hp hne hdvd
    have hwithin := hat.sound.edge_within hat.reaches haj
    rw [hat.length] at hwithin
    rw [hs.blockSize] at hdvd
    by_cases hmd : m = d
    · -- the new node lies within a window
      subst hmd
      rw [hat'.sound.reaches_unique hm hat'.reaches, hat'.length] at hdvd
      exact absurd hdvd (not_dvd_of_within hk0 (by omega))
    · rw [hs.block, Function.update_of_ne hmd]
      exact hfull ((hs.reaches_old hat.sound haj hk hmd).mp hm) hp hne hdvd
  leaf := by
    intro c c' a pos i n t e b fp _ _ hfree _ _ _ _ hleaf _ hfull m p hm hp hne hdvd
    rw [hleaf.blockSize] at hdvd
    rw [hleaf.block]
    by_cases hmn : m = n
    · rw [hmn, Function.update_self]
      simp
    · rw [Function.update_of_ne hmn]
      exact hfull ((hleaf.reaches_old hfree hmn).mp hm) hp hne hdvd
  tail := by
    intro c c' a pos i n t e hat ht hfree _ hlt hleaf hat' hfull m p hm hp hne hdvd
    have hpos := (List.getElem?_eq_some_iff.mp ht).1
    rw [hleaf.blockSize] at hdvd
    by_cases hmn : m = n
    · -- the last node ends within a window
      subst hmn
      rw [hat'.sound.reaches_unique hm hat'.reaches, hat'.length] at hdvd
      obtain ⟨k, hk⟩ := hdvd
      rw [hk, Nat.mul_comm] at hlt
      have hki : k ≤ i := Nat.lt_succ_iff.mp (Nat.lt_of_mul_lt_mul_right hlt)
      have := Nat.le_trans (Nat.mul_le_mul_right c.blockSize hki) hat.windows_le
      rw [Nat.mul_comm, ← hk] at this
      omega
    · rw [hleaf.block, Function.update_of_ne hmn]
      exact hfull ((hleaf.reaches_old hfree hmn).mp hm) hp hne hdvd

/-- Without a lag a node with a block that the insertion descends to ends the next window. -/
theorem InsertAt.block_end {c : RadixCache} {a pos i j : Nat} {t : Token}
    (hat : InsertAt c w a pos i) (haj : c.child a t = some j) (hi : pos / c.blockSize ≤ i)
    (hreach : c.trie.Reaches j (w.take (pos + (c.edge j).length)))
    (hle : pos + (c.edge j).length ≤ w.length) (hblock : c.block j ≠ none) :
    pos + (c.edge j).length = (i + 1) * c.blockSize := by
  have hpos := List.length_pos_of_ne_nil (hat.sound.tree.edge_ne_nil haj)
  have hwithin := hat.sound.edge_within hat.reaches haj
  rw [hat.length] at hwithin
  have haligned := hat.sound.block_aligned hreach hblock
  rw [List.length_take, Nat.min_eq_left hle] at haligned
  rw [← Nat.le_antisymm hi hat.windows_le_div]
  exact add_eq_of_dvd hpos hwithin haligned

/-- The insertion of `w` keeps `w` unbroken, inserts a window whenever one ends, and records
the blocks of the inserted windows. -/
def Recording (w : List Token) (blocks : List BlockId) (size : Nat)
    (M : WindowMap Token BlockId) (c : RadixCache) (pos i : Nat) : Prop :=
  c.blockSize = size ∧ pos / size ≤ i ∧ c.Unbroken w ∧
    ∀ p b, c.Holds p b ↔ recordWindows size w blocks M i p = some b

theorem Recording.invariant (fps : List BlockFingerprint) (size : Nat) :
    InsertInvariant w blocks fps (Recording w blocks size M) where
  touch := by
    rintro c c' pos i hshape - ⟨hsize, hi, hfull, hM⟩
    exact ⟨hshape.blockSize.trans hsize, hi, hshape.unbroken hfull,
      fun p b => by rw [hshape.holds, hM]⟩
  pass := by
    rintro c a pos i j t hat haj hblock hat' ⟨rfl, hi, hfull, hM⟩
    refine ⟨rfl, ?_, hfull, hM⟩
    have hpos : 0 < (c.edge j).length :=
      List.length_pos_of_ne_nil (hat.sound.tree.edge_ne_nil haj)
    have hwithin := hat.sound.edge_within hat.reaches haj
    rw [hat.length] at hwithin
    have hne : ¬ c.blockSize ∣ pos + (c.edge j).length := by
      intro hdvd
      refine hfull hat'.reaches (List.take_prefix _ _) ?_ (by rwa [hat'.length]) hblock
      intro hnil
      have := hat'.length
      rw [hnil, List.length_nil] at this
      omega
    rwa [add_div_of_within (within_of_not_dvd hwithin hne)]
  relabel := by
    rintro c c' a pos i j t old new fp hat haj hblock hnew hfp hrel hat' ⟨rfl, hi, hfull, hM⟩
    have hreach : c.trie.Reaches j (w.take (pos + (c.edge j).length)) := hrel.trie ▸ hat'.reaches
    have hend := hat.block_end haj hi hreach hat'.pos_le (by rw [hblock]; simp)
    refine ⟨hrel.blockSize, ?_,
      (Unbroken.invariant w blocks fps w).relabel hat haj hblock hnew hfp hrel hat' hfull,
      fun p b => ?_⟩
    · rw [hend, Nat.mul_div_cancel _ hat.sound.blockSize_pos]
    · rw [hrel.holds hat.sound hreach, recordWindows, ← hend, hnew, Function.update_apply]
      split
      · rw [Option.some.injEq, eq_comm]
      · exact hM p b
  split := by
    rintro c c' a pos i j k d t hat haj hk0 hk hs hleave hat' ⟨rfl, hi, hfull, hM⟩
    have hwithin := hat.sound.edge_within hat.reaches haj
    rw [hat.length] at hwithin
    refine ⟨hs.blockSize, by rwa [add_div_of_within (by omega)],
      (Unbroken.invariant w blocks fps w).split hat haj hk0 hk hs hleave hat' hfull, fun p b => ?_⟩
    rw [hs.holds hat.sound haj hk]
    exact hM p b
  leaf := by
    rintro c c' a pos i n t e b fp hat ht hfree hpath hpos hb hfp hleaf hat' ⟨rfl, hi, hfull, hM⟩
    refine ⟨hleaf.blockSize, ?_,
      (Unbroken.invariant w blocks fps w).leaf hat ht hfree hpath hpos hb hfp hleaf hat' hfull,
      fun p b' => ?_⟩
    · rw [Nat.mul_div_cancel _ hat.sound.blockSize_pos]
    · rw [hleaf.holds hat.sound hfree hat.reaches, recordWindows, ← hpath, hb,
        Function.update_apply]
      split
      · rename_i hp
        have hnew : ¬ c.Holds p b' := by
          rintro ⟨m, hm, -⟩
          obtain ⟨rest, he⟩ := hleaf.head
          rw [hp, he] at hm
          exact hat.reaches.not_through hat.sound.tree hfree hm
        exact ⟨fun h => (h.resolve_left hnew).2, fun h => Or.inr ⟨hp, h⟩⟩
      · rename_i hp
        rw [← hM p b']
        exact ⟨fun h => h.resolve_right fun h => hp h.1, Or.inl⟩
  tail := by
    rintro c c' a pos i n t e hat ht hfree hpath hlt hleaf hat' ⟨rfl, hi, hfull, hM⟩
    refine ⟨hleaf.blockSize, Nat.lt_succ_iff.mp ((Nat.div_lt_iff_lt_mul
      hat.sound.blockSize_pos).mpr hlt),
      (Unbroken.invariant w blocks fps w).tail hat ht hfree hpath hlt hleaf hat' hfull,
      fun p b => ?_⟩
    rw [hleaf.holds hat.sound hfree hat.reaches, ← hM p b]
    refine ⟨fun h => h.resolve_right fun h => ?_, Or.inl⟩
    cases h.2

theorem insertedTokens_length (c : RadixCache) (w : List Token) (blocks : List BlockId) :
    (c.insertedTokens w blocks).length = min w.length (blocks.length * c.blockSize) := by
  rw [insertedTokens, List.length_take]
  omega

/-- The windows that an insertion has to insert fit into the tokens it looks at. -/
theorem windows_fit (c : RadixCache) (w : List Token) (blocks : List BlockId) :
    min blocks.length (w.length / c.blockSize) * c.blockSize ≤
      (c.insertedTokens w blocks).length := by
  rw [insertedTokens_length]
  refine Nat.le_min.mpr ⟨?_, Nat.mul_le_mul_right _ (Nat.min_le_left _ _)⟩
  exact Nat.le_trans (Nat.mul_le_mul_right _ (Nat.min_le_right _ _)) (Nat.div_mul_le_self _ _)

/-- An insertion never claims more windows than there are. -/
theorem insertAt_windows_le {c c' : RadixCache} {a pos n : Nat} (hs : c.Sound)
    (hsize : c'.blockSize = c.blockSize)
    (hat : InsertAt c' (c.insertedTokens w blocks) a pos n) :
    n ≤ min blocks.length (w.length / c.blockSize) := by
  have hle := Nat.le_trans hat.windows_le hat.pos_le
  rw [hsize, insertedTokens_length] at hle
  obtain ⟨h1, h2⟩ := Nat.le_min.mp hle
  exact Nat.le_min.mpr ⟨Nat.le_of_mul_le_mul_right h2 hs.blockSize_pos,
    (Nat.le_div_iff_mul_le hs.blockSize_pos).mpr h1⟩

/-- An insertion along an unbroken word inserts every window and records its block. -/
theorem insert_unbroken (hs : c₀.Sound) (hnodup : c₀.freeNodes.Nodup)
    (hlen : blocks.length = fps.length)
    (hfull : c₀.Unbroken (c₀.insertedTokens w blocks))
    (hM : ∀ p b, c₀.Holds p b ↔ M p = some b) :
    ∃ c', c₀.insertWithFingerprints w blocks fps =
        some (min blocks.length (w.length / c₀.blockSize) * c₀.blockSize, c') ∧
      ∀ p b, c'.Holds p b ↔ record c₀.blockSize w blocks M p = some b := by
  have hbs := hs.blockSize_pos
  obtain ⟨⟨m, c'⟩, hc', hins⟩ := (insertWithFingerprints_outcome hs hnodup
    (Recording.invariant (M := M) fps c₀.blockSize)
    (fun hat hp hsize hlt => absurd hlt (Nat.not_lt.mpr hp.2.1)) (fun h => h hlen)
    ⟨rfl, by simp, hfull, hM⟩).returns not_false
  rcases hins with ⟨heq, hempty⟩ | ⟨n, a, pos, hm, hsize, hat, ⟨-, hdiv, -, hM'⟩, hdone⟩
  · have hzero : min blocks.length (w.length / c₀.blockSize) = 0 := by
      rcases hempty with rfl | rfl <;> simp
    cases heq
    exact ⟨c₀, by rw [hc', hzero, Nat.zero_mul], fun p b => by rw [record, hzero]; exact hM p b⟩
  · have hfit := windows_fit c₀ w blocks
    have hn : n = min blocks.length (w.length / c₀.blockSize) := by
      refine Nat.le_antisymm (insertAt_windows_le hs hsize hat) ?_
      rcases hdone with hend | hend | hend
      · exact Nat.le_trans ((Nat.le_div_iff_mul_le hbs).mpr (Nat.le_trans hfit hend)) hdiv
      · exact Nat.le_trans (Nat.min_le_left _ _) hend
      · exact Nat.lt_succ_iff.mp (Nat.lt_of_mul_lt_mul_right (Nat.lt_of_le_of_lt hfit hend))
    refine ⟨c', by rw [hc', ← hn]; exact congrArg (fun m => some (m, c')) hm, fun p b => ?_⟩
    rw [record, ← hn]
    rw [insertedTokens_length] at hfit
    rw [← recordWindows_take (hn ▸ hfit)]
    exact hM' p b

/-- A cache without a broken word stays one. -/
theorem insert_full (hs : c₀.Sound) (hnodup : c₀.freeNodes.Nodup)
    (hfull : ∀ v, c₀.Unbroken v) {r : Nat × RadixCache}
    (h : c₀.insertWithFingerprints w blocks fps = some r) : ∀ v, r.2.Unbroken v := by
  intro v
  rcases insertWithFingerprints_invariant hs hnodup (Unbroken.invariant _ blocks fps v) (hfull v)
    h with
    ⟨rfl, -⟩ | ⟨n, a, pos, -, -, -, hv, -⟩
  · exact hfull v
  · exact hv

/-- Behind the broken window `h` the insertion lags: it inserted fewer windows than the
consumed tokens fill. Ahead of it, the window is still broken. -/
def Lagging (h : List Token) (size : Nat) (c : RadixCache) (pos i : Nat) : Prop :=
  c.blockSize = size ∧ (h.length ≤ pos → i < pos / size) ∧
    (pos < h.length → ∃ j, c.trie.Reaches j h ∧ c.block j = none)

/-- A boundary that a step within a window passes is the end of the step. -/
theorem boundary_eq_end {size pos e len : Nat} (hwithin : pos % size + e ≤ size)
    (hdvd : size ∣ len) (hpos : pos < len) (hle : len ≤ pos + e) : len = pos + e := by
  by_contra hne
  have hoff : pos % size + (len - pos) < size := by omega
  refine not_dvd_of_within (by omega) hoff ?_
  rwa [Nat.add_sub_cancel' (Nat.le_of_lt hpos)]

/-- Nothing is reached beyond the place where no edge starts with the next token. -/
theorem InsertAt.not_beyond {c : RadixCache} {a pos i m : Nat} {t : Token} {h : List Token}
    (hat : InsertAt c w a pos i) (ht : w[pos]? = some t) (hfree : c.child a t = none)
    (hw : h <+: w) (hpos : pos < h.length) : ¬ c.trie.Reaches m h := by
  obtain ⟨hlt, rfl⟩ := List.getElem?_eq_some_iff.mp ht
  obtain ⟨r, rfl⟩ := hw
  have hsplit : h = (h ++ r).take pos ++ (h ++ r)[pos] :: h.drop (pos + 1) := by
    rw [List.take_append_of_le_length (Nat.le_of_lt hpos), List.getElem_append_left hpos,
      ← List.drop_eq_getElem_cons hpos, List.take_append_drop]
  intro hm
  rw [hsplit] at hm
  exact hat.reaches.not_through hat.sound.tree hfree hm

theorem Lagging.invariant {h : List Token} {size : Nat} (hw : h <+: w)
    (hdvd : size ∣ h.length) : InsertInvariant w blocks fps (Lagging h size) where
  touch := by
    rintro c c' pos i hshape - ⟨hsize, hbehind, hahead⟩
    refine ⟨hshape.blockSize.trans hsize, hbehind, fun hpos => ?_⟩
    rw [hshape.trie, hshape.block]
    exact hahead hpos
  pass := by
    rintro c a pos i j t hat haj hblock hat' ⟨rfl, hbehind, hahead⟩
    have hwithin := hat.sound.edge_within hat.reaches haj
    rw [hat.length] at hwithin
    refine ⟨rfl, fun hle => ?_, fun hlt => hahead (by omega)⟩
    by_cases hpos : h.length ≤ pos
    · exact Nat.lt_of_lt_of_le (hbehind hpos) (Nat.div_le_div_right (by omega))
    · -- the tokens fill the broken window, but no block was counted
      rw [← boundary_eq_end hwithin hdvd (by omega) hle]
      exact Nat.lt_of_le_of_lt hat.windows_le_div
        (Nat.div_lt_div_of_lt_of_dvd hdvd (Nat.lt_of_not_le hpos))
  relabel := by
    rintro c c' a pos i j t old new fp hat haj hblock - - hrel hat' ⟨rfl, hbehind, hahead⟩
    have hreach : c.trie.Reaches j (w.take (pos + (c.edge j).length)) := hrel.trie ▸ hat'.reaches
    have hpos : 0 < (c.edge j).length :=
      List.length_pos_of_ne_nil (hat.sound.tree.edge_ne_nil haj)
    have hwithin := hat.sound.edge_within hat.reaches haj
    have haligned := hat.sound.block_aligned hreach (by rw [hblock]; simp)
    rw [hat.length] at hwithin
    rw [hat'.length] at haligned
    refine ⟨hrel.blockSize, fun hle => ?_, fun hlt => ?_⟩
    · by_cases hpos' : h.length ≤ pos
      · have := Nat.div_lt_div_of_lt_of_dvd haligned
          (show pos < pos + (c.edge j).length by omega)
        have := hbehind hpos'
        change i + 1 < (pos + (c.edge j).length) / c.blockSize
        omega
      · -- the broken window has no block, and `j` has one
        obtain ⟨m, hm, hnone⟩ := hahead (by omega)
        have hend := boundary_eq_end hwithin hdvd (Nat.lt_of_not_le hpos') hle
        rw [← hend, ← List.prefix_iff_eq_take.mp hw] at hreach
        rw [RadixTree.reaches_node_unique hat.sound.tree hm hreach, hblock] at hnone
        cases hnone
    · obtain ⟨m, hm, hnone⟩ := hahead (by omega)
      refine ⟨m, hrel.trie ▸ hm, ?_⟩
      rw [hrel.block, Function.update_of_ne, hnone]
      rintro rfl
      rw [hblock] at hnone
      cases hnone
  split := by
    rintro c c' a pos i j k d t hat haj hk0 hk hs hleave hat' ⟨rfl, hbehind, hahead⟩
    have hwithin := hat.sound.edge_within hat.reaches haj
    rw [hat.length] at hwithin
    have hoff : pos % c.blockSize + k < c.blockSize := by omega
    refine ⟨hs.blockSize, fun hle => ?_, fun hlt => ?_⟩
    · by_cases hpos : h.length ≤ pos
      · rw [add_div_of_within hoff]
        exact hbehind hpos
      · have hend := boundary_eq_end (Nat.le_of_lt hoff) hdvd (Nat.lt_of_not_le hpos) hle
        exact absurd (hend ▸ hdvd) (not_dvd_of_within hk0 hoff)
    · obtain ⟨m, hm, hnone⟩ := hahead (by omega)
      refine ⟨m, (hs.reaches hat.sound haj hk).mpr (Or.inl hm), ?_⟩
      rw [hs.block, Function.update_apply]
      split
      · rfl
      · exact hnone
  leaf := by
    rintro c c' a pos i n t e b fp hat ht hfree - hpos - - - - ⟨rfl, hbehind, hahead⟩
    exfalso
    by_cases hle : h.length ≤ pos
    · have := (Nat.le_div_iff_mul_le hat.sound.blockSize_pos).mp (hbehind hle)
      exact absurd hpos (Nat.not_lt.mpr this)
    · obtain ⟨m, hm, -⟩ := hahead (by omega)
      exact hat.not_beyond ht hfree hw (by omega) hm
  tail := by
    rintro c c' a pos i n t e hat ht hfree - hlt - - ⟨rfl, hbehind, hahead⟩
    exfalso
    by_cases hle : h.length ≤ pos
    · have := (Nat.le_div_iff_mul_le hat.sound.blockSize_pos).mp (hbehind hle)
      exact absurd hlt (Nat.not_lt.mpr (Nat.le_trans this hat.pos_le))
    · obtain ⟨m, hm, -⟩ := hahead (by omega)
      exact hat.not_beyond ht hfree hw (by omega) hm

/-- An insertion along a broken word fails, or inserts fewer windows than there are. -/
theorem insert_broken (hs : c₀.Sound) (hnodup : c₀.freeNodes.Nodup)
    (hbroken : ¬ c₀.Unbroken (c₀.insertedTokens w blocks)) {m : Nat} {c' : RadixCache}
    (h : c₀.insertWithFingerprints w blocks fps = some (m, c')) :
    m < min blocks.length (w.length / c₀.blockSize) * c₀.blockSize := by
  have hbs := hs.blockSize_pos
  unfold Unbroken at hbroken
  push Not at hbroken
  obtain ⟨j, p, hj, hpw, hp0, hdvd, hnone⟩ := hbroken
  have hple := hpw.length_le
  have hlag : Lagging p c₀.blockSize c₀ 0 0 :=
    ⟨rfl, fun hle => absurd (List.length_eq_zero_iff.mp (Nat.le_zero.mp hle)) hp0,
      fun _ => ⟨j, hj, hnone⟩⟩
  rcases insertWithFingerprints_invariant hs hnodup (Lagging.invariant hpw hdvd) hlag h with
    ⟨-, hempty⟩ | ⟨n, a, pos, hm, hsize, hat, ⟨-, hbehind, -⟩, hdone⟩
  · have hnil : c₀.insertedTokens w blocks = [] := by
      rcases hempty with rfl | rfl <;> simp [insertedTokens]
    rw [hnil, List.prefix_nil] at hpw
    exact absurd hpw hp0
  · have hwin := hat.windows_le
    have hcap := hat.pos_le
    rw [hsize] at hwin
    have hlen := hple
    rw [insertedTokens_length] at hlen hcap
    -- the insertion cannot end before the broken window
    have hpos : p.length ≤ pos := by
      rcases hdone with hend | hend | hend
      · exact Nat.le_trans hple hend
      · exact Nat.le_trans (Nat.le_trans hlen (Nat.min_le_right _ _))
          (Nat.le_trans (Nat.mul_le_mul_right _ hend) hwin)
      · obtain ⟨k, hk⟩ := hdvd
        rw [Nat.mul_comm] at hk
        rw [hk] at hple ⊢
        have hkn := Nat.lt_of_mul_lt_mul_right (Nat.lt_of_le_of_lt hple hend)
        exact Nat.le_trans (Nat.mul_le_mul_right _ (Nat.lt_succ_iff.mp hkn)) hwin
    have hnext := (Nat.le_div_iff_mul_le hbs).mp (hbehind hpos)
    obtain ⟨h1, h2⟩ := Nat.le_min.mp (Nat.le_trans hnext hcap)
    change m = n * c₀.blockSize at hm
    rw [hm]
    refine Nat.mul_lt_mul_of_pos_right (Nat.lt_of_succ_le (Nat.le_min.mpr ⟨?_, ?_⟩)) hbs
    · exact Nat.le_of_mul_le_mul_right h2 hbs
    · exact (Nat.le_div_iff_mul_le hbs).mpr h1

end Insert

/-! ## Lookups -/

section Lookup

variable {c : RadixCache} {q : List Token}

/-- A prefix that is as long as `k` windows is the prefix that ends the `k`-th. -/
theorem eq_take_of_length {r : List Token} {k : Nat} (hr : r <+: q)
    (hk : r.length = k * c.blockSize) : r = q.take (k * c.blockSize) := by
  rw [← hk]
  exact List.prefix_iff_eq_take.mp hr

/-- A lookup along an unbroken word returns the longest covered prefix and its blocks. -/
theorem lookup_unbroken (hs : c.Sound) (hfull : c.Unbroken q) {M : WindowMap Token BlockId}
    (hM : ∀ p b, c.Holds p b ↔ M p = some b) :
    ∃ k blocks c', IsGreatest {k | Covered c.blockSize M q k} k ∧
      c.lookup q = some ((k * c.blockSize, blocks), c') ∧ blocks.length = k ∧
      ∀ i < k, blocks[i]? = M (q.take ((i + 1) * c.blockSize)) := by
  obtain ⟨js, hw⟩ := RadixTree.exists_walk hs.tree root q
  obtain ⟨c', hc', -⟩ := lookup_spec hs hw
  obtain ⟨hcount, hwindows⟩ := chain_windows hs RadixTree.Reaches.root hw.chain
    (fun _ _ hj hp => hfull hj (List.IsPrefix.trans hp hw.spell_prefix))
  rw [List.length_nil, Nat.zero_div, Nat.zero_add, List.nil_append] at hcount
  have hget : ∀ i < (js.filterMap c.block).length,
      (i + 1) * c.blockSize ≤ q.length ∧ ∃ b, (js.filterMap c.block)[i]? = some b ∧
        M (q.take ((i + 1) * c.blockSize)) = some b := by
    intro i hi
    have hb := List.getElem?_eq_getElem hi
    obtain ⟨j, r, hr, hpre, hlen, hblock⟩ := hwindows i _ hb
    rw [List.length_nil, Nat.zero_div, Nat.zero_add] at hlen
    have hrq : r <+: q := List.IsPrefix.trans hpre hw.spell_prefix
    refine ⟨hlen ▸ hrq.length_le, _, hb, ?_⟩
    rw [← eq_take_of_length hrq hlen, ← hM]
    exact ⟨j, hr, hblock⟩
  refine ⟨_, _, c', ⟨fun i hi => ?_, fun k hk => ?_⟩, hc', rfl, fun i hi => ?_⟩
  · obtain ⟨hle, b, -, hb⟩ := hget i hi
    exact ⟨hle, by rw [hb]; simp⟩
  · -- a longer covered prefix would lead to a node beyond the walk
    by_contra hlt
    obtain ⟨hle, hne⟩ := hk _ (Nat.lt_of_not_le hlt)
    obtain ⟨b, hb⟩ := Option.ne_none_iff_exists'.mp hne
    obtain ⟨j, hj, -⟩ := (hM _ _).mpr hb
    obtain ⟨ks, ls, rfl, -, hspell, -⟩ := hw.exists_split hs.tree hj (List.take_prefix _ _)
    have hbig : (((ks ++ ls).filterMap c.block).length + 1) * c.blockSize ≤
        (c.trie.spell (ks ++ ls)).length := by
      rw [RadixTree.spell_append, List.length_append, hspell, List.length_take,
        Nat.min_eq_left hle]
      exact Nat.le_add_right _ _
    have := (Nat.le_div_iff_mul_le hs.blockSize_pos).mpr hbig
    omega
  · obtain ⟨-, b, hb, hM'⟩ := hget i hi
    rw [hb, hM']

/-- A lookup returns the blocks of the first `n` windows, when the cache holds them. -/
theorem lookup_covered (hs : c.Sound) {n : Nat} {values : List BlockId}
    (hn : n ≤ values.length) (hq : n * c.blockSize ≤ q.length)
    (hcov : ∀ i b, i < n → values[i]? = some b → c.Holds (q.take ((i + 1) * c.blockSize)) b) :
    ∃ k blocks c', c.lookup q = some ((k * c.blockSize, blocks), c') ∧ n ≤ k ∧
      blocks.take n = values.take n := by
  obtain ⟨js, hw⟩ := RadixTree.exists_walk hs.tree root q
  obtain ⟨c', hc', -⟩ := lookup_spec hs hw
  -- the part of the walk that spells the first `n` windows
  obtain ⟨ks, ls, rfl, hks, hspell⟩ : ∃ ks ls, js = ks ++ ls ∧ c.trie.Chain root ks ∧
      c.trie.spell ks = q.take (n * c.blockSize) := by
    cases n with
    | zero => exact ⟨[], js, rfl, .nil _, by simp⟩
    | succ n =>
      obtain ⟨j, hj, -⟩ := hcov n values[n] (Nat.lt_succ_self n) (List.getElem?_eq_getElem hn)
      obtain ⟨ks, ls, hsplit, hks, hspell, -⟩ :=
        hw.exists_split hs.tree hj (List.take_prefix _ _)
      exact ⟨ks, ls, hsplit, hks, hspell⟩
  have hlen : (q.take (n * c.blockSize)).length = n * c.blockSize := by
    rw [List.length_take, Nat.min_eq_left hq]
  have hholds : ∀ {j p} (k : Nat), c.trie.Reaches j p → p <+: q →
      p.length = (k + 1) * c.blockSize → k < n → ∃ b, values[k]? = some b ∧ c.block j = some b := by
    intro j p k hj hp hk hkn
    have hb : values[k]? = some values[k] := List.getElem?_eq_getElem (by omega)
    obtain ⟨m, hm, hblock⟩ := hcov k _ hkn hb
    rw [← eq_take_of_length hp hk] at hm
    exact ⟨_, hb, by rw [RadixTree.reaches_node_unique hs.tree hj hm, hblock]⟩
  obtain ⟨hcount, hwindows⟩ := chain_windows hs RadixTree.Reaches.root hks (by
    rw [List.nil_append, hspell]
    intro j p hj hp hp0 hdvd
    obtain ⟨k, hk⟩ := hdvd
    have hle := hp.length_le
    rw [hlen, hk, Nat.mul_comm] at hle
    have hkn := Nat.le_of_mul_le_mul_right hle hs.blockSize_pos
    obtain ⟨k, rfl⟩ : ∃ k', k = k' + 1 := by
      refine ⟨k - 1, ?_⟩
      rcases Nat.eq_zero_or_pos k with rfl | hpos
      · exact absurd (List.length_eq_zero_iff.mp (by simpa using hk)) hp0
      · omega
    obtain ⟨b, -, hb⟩ := hholds k hj (hp.trans (List.take_prefix _ _))
      (by rw [hk, Nat.mul_comm]) hkn
    rw [hb]
    simp)
  rw [List.nil_append, hspell, hlen, List.length_nil, Nat.zero_div, Nat.zero_add,
    Nat.mul_div_cancel _ hs.blockSize_pos] at hcount
  have htake : ks.filterMap c.block = values.take n := by
    refine List.ext_getElem? fun i => ?_
    by_cases hi : i < n
    · have hb := List.getElem?_eq_getElem (show i < (ks.filterMap c.block).length by omega)
      obtain ⟨j, r, hr, hpre, hrlen, hblock⟩ := hwindows i _ hb
      rw [List.nil_append, hspell] at hpre
      rw [List.length_nil, Nat.zero_div, Nat.zero_add] at hrlen
      obtain ⟨b, hvalue, hb'⟩ := hholds i hr (hpre.trans (List.take_prefix _ _)) hrlen hi
      rw [List.getElem?_take_of_lt hi, hvalue, hb, ← hb', hblock]
    · rw [List.getElem?_eq_none (by omega), List.getElem?_eq_none (by
        rw [List.length_take]; omega)]
  refine ⟨_, _, c', hc', ?_, ?_⟩
  · rw [List.filterMap_append, List.length_append]
    omega
  · rw [List.filterMap_append, hcount, List.take_left, htake, List.length_take,
      Nat.min_eq_left hn]

end Lookup

end Arle.PrefixCache.RadixCache
