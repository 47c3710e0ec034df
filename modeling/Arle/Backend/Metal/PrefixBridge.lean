import Mathlib
import Arle.Backend.Metal.PrefixSlots
import Arle.Lib.Run

/-!
# Runs of the Metal prefix cache

The slots that insertions attached to the prefixes of their tokens are a map of windows, and the
radix cache together with `block_slots` stands for it (`Bridged`). An insertion records the slots of
its new blocks before the radix cache learns of them; one that fails at a later block leaves blocks
in `block_slots` that no lookup finds and no eviction returns.
-/

namespace Arle.Backend.Metal

open Arle.KvTier Arle.PrefixCache RadixCache WindowMap

namespace MetalPrefixCache

/-- The slots of the `i`-th block. -/
def slotWindow (m : MetalPrefixCache) (slots : List Nat) (i : Nat) : List Nat :=
  slotRange slots (i * m.blockSize) m.blockSize

/-- The slots of all full blocks. -/
def slotWindows (m : MetalPrefixCache) (slots : List Nat) : List (List Nat) :=
  (List.range (slots.length / m.blockSize)).map (m.slotWindow slots)

/-- The radix cache holds a block for every attached window, `block_slots` has the slots of exactly
the blocks held, and with each window the windows before it are held. -/
structure Bridged (m : MetalPrefixCache) (attached : WindowMap Token (List Nat)) : Prop where
  indexed : m.radix.Indexed
  blockSize : m.radix.blockSize = m.blockSize
  ledger : m.Ledger
  attached : ∀ p slots, attached p = some slots ↔
    ∃ b, m.radix.Holds p b ∧ m.blockSlots.lookup b = some slots
  keys : ∀ b, m.blockSlots.lookup b ≠ none ↔ ∃ p, m.radix.Holds p b
  rooted : ∀ p b, m.radix.Holds p b → ∀ i, (i + 1) * m.blockSize ≤ p.length →
    ∃ b', m.radix.Holds (p.take ((i + 1) * m.blockSize)) b'
  nodup : m.owned.Nodup

/-- Pins, clocks and block ids may differ. -/
structure Stable (m m' : MetalPrefixCache) : Prop where
  radix : Untouched m.radix m'.radix
  blockSlots : m'.blockSlots = m.blockSlots
  slotToBlock : m'.slotToBlock = m.slotToBlock
  blockSize : m'.blockSize = m.blockSize
  nextBlockId : m.nextBlockId.toNat ≤ m'.nextBlockId.toNat

theorem Stable.owned {m m' : MetalPrefixCache} (h : Stable m m') : m'.owned = m.owned := by
  unfold MetalPrefixCache.owned
  rw [h.blockSlots]

theorem Ledger.mem_owned {m : MetalPrefixCache} (h : m.Ledger) {slot : Nat} :
    slot ∈ m.owned ↔ m.slotToBlock.lookup slot ≠ none := by
  unfold MetalPrefixCache.owned
  rw [List.mem_flatten, Option.ne_none_iff_exists']
  constructor
  · rintro ⟨slots, hslots, hmem⟩
    obtain ⟨b, hb⟩ := Assoc.mem_values.mp hslots
    exact ⟨b, (h.owner slot b).mpr ⟨slots, hb, hmem⟩⟩
  · rintro ⟨b, hb⟩
    obtain ⟨slots, hslots, hmem⟩ := (h.owner slot b).mp hb
    exact ⟨slots, Assoc.mem_values.mpr ⟨b, hslots⟩, hmem⟩

section Bridged

variable {m m' : MetalPrefixCache} {attached : WindowMap Token (List Nat)}

theorem Bridged.stable (h : m.Bridged attached) (hs : Stable m m') : m'.Bridged attached where
  indexed := hs.radix.indexed
  blockSize := by rw [hs.radix.blockSize, hs.blockSize, h.blockSize]
  ledger := by
    refine ⟨?_, ?_, ?_⟩
    · rw [hs.slotToBlock, hs.blockSlots]
      exact h.ledger.owner
    · rw [hs.blockSlots, hs.blockSize]
      exact h.ledger.length
    · intro b slots hb
      rw [hs.blockSlots] at hb
      exact (h.ledger.ids b slots hb).trans_le hs.nextBlockId
  attached := by
    intro p slots
    rw [h.attached, hs.blockSlots]
    simp only [hs.radix.holds]
  keys := by
    intro b
    rw [hs.blockSlots, h.keys]
    simp only [hs.radix.holds]
  rooted := by
    intro p b hb i hi
    rw [hs.blockSize] at hi ⊢
    obtain ⟨b', hb'⟩ := h.rooted p b ((hs.radix.holds p b).mp hb) i hi
    exact ⟨b', (hs.radix.holds _ b').mpr hb'⟩
  nodup := by
    rw [hs.owned]
    exact h.nodup

theorem Bridged.blockSize_pos (h : m.Bridged attached) : 0 < m.blockSize :=
  h.blockSize ▸ h.indexed.sound.blockSize_pos

/-- A block that is held has slots. -/
theorem Bridged.slots_of_holds (h : m.Bridged attached) {p : List Token} {b : BlockId}
    (hb : m.radix.Holds p b) :
    ∃ slots, m.blockSlots.lookup b = some slots ∧ attached p = some slots := by
  obtain ⟨slots, hslots⟩ := Option.ne_none_iff_exists'.mp ((h.keys b).mpr ⟨p, hb⟩)
  exact ⟨slots, hslots, (h.attached p slots).mpr ⟨b, hb, hslots⟩⟩

theorem Bridged.windowMap_ne_none (h : m.Bridged attached) {p : List Token} :
    m.radix.windowMap p ≠ none ↔ attached p ≠ none := by
  rw [Option.ne_none_iff_exists', Option.ne_none_iff_exists']
  constructor
  · rintro ⟨b, hb⟩
    obtain ⟨slots, -, hslots⟩ := h.slots_of_holds (h.indexed.sound.holds_iff.mpr hb)
    exact ⟨slots, hslots⟩
  · rintro ⟨slots, hslots⟩
    obtain ⟨b, hb, -⟩ := (h.attached p slots).mp hslots
    exact ⟨b, h.indexed.sound.holds_iff.mp hb⟩

/-- The blocks with slots are the indexed ones. -/
theorem Bridged.index_iff (h : m.Bridged attached) (b : BlockId) :
    m.blockSlots.lookup b ≠ none ↔ m.radix.blockIndex.lookup b ≠ none := by
  rw [h.keys, Ne, h.indexed.index.lookup_eq_none]
  push Not
  constructor
  · rintro ⟨p, i, -, hb⟩
    exact ⟨i, hb⟩
  · rintro ⟨i, hb⟩
    obtain ⟨p, hp⟩ := h.indexed.reached hb
    exact ⟨p, i, hp, hb⟩

theorem Bridged.covered (h : m.Bridged attached) {q : List Token} {k : Nat} :
    Covered m.radix.blockSize m.radix.windowMap q k ↔ Covered m.blockSize attached q k := by
  unfold Covered
  rw [h.blockSize]
  simp only [h.windowMap_ne_none]

theorem blocksToSlots_ok {f : BlockId → List Nat} {blocks : List BlockId}
    (h : ∀ b ∈ blocks, m.blockSlots.lookup b = some (f b)) :
    m.blocksToSlots blocks = .ok (blocks.flatMap f) := by
  induction blocks with
  | nil => rfl
  | cons b blocks ih =>
    rw [blocksToSlots, h b List.mem_cons_self]
    dsimp only
    rw [ih fun b' hb' => h b' (List.mem_cons_of_mem b hb'), List.flatMap_cons]
    rfl

/-- A lookup returns the slots attached to the longest attached prefix. -/
theorem Bridged.lookup (h : m.Bridged attached) (q : List Token) :
    ∃ k m', IsGreatest {k | Covered m.blockSize attached q k} k ∧
      m.lookup q = some (.ok {
        matchedLen := k * m.blockSize
        slotIndices := (List.range k).flatMap fun i =>
          (attached (q.take ((i + 1) * m.blockSize))).getD [] }, m') ∧ Stable m m' := by
  obtain ⟨k, blocks, radix, hk, hlookup, hlen, hblocks, hradix⟩ := h.indexed.lookupLongest q
  have hkeep : Stable m { m with radix } := ⟨hradix, rfl, rfl, rfl, le_refl _⟩
  let f : BlockId → List Nat := fun b => (m.blockSlots.lookup b).getD []
  have hheld : ∀ i b, blocks[i]? = some b →
      m.radix.Holds (q.take ((i + 1) * m.blockSize)) b := by
    intro i b hb
    have hi : i < k := hlen ▸ (List.getElem?_eq_some_iff.mp hb).1
    rw [hblocks i hi, h.blockSize] at hb
    exact h.indexed.sound.holds_iff.mpr hb
  have hslots : m.blocksToSlots blocks = .ok (blocks.flatMap f) := by
    apply blocksToSlots_ok
    intro b hb
    obtain ⟨i, hi⟩ := List.mem_iff_getElem?.mp hb
    obtain ⟨slots, hslots, -⟩ := h.slots_of_holds (hheld i b hi)
    simp [f, hslots]
  have hflat : blocks.flatMap f = (List.range k).flatMap fun i =>
      (attached (q.take ((i + 1) * m.blockSize))).getD [] := by
    rw [List.flatMap_def, List.flatMap_def]
    congr 1
    apply List.ext_getElem?
    intro i
    rw [List.getElem?_map, List.getElem?_map]
    by_cases hi : i < k
    · obtain ⟨b, hb⟩ : ∃ b, blocks[i]? = some b :=
        ⟨_, List.getElem?_eq_getElem (hlen.symm ▸ hi)⟩
      obtain ⟨slots, hslots, hattached⟩ := h.slots_of_holds (hheld i b hb)
      rw [hb, List.getElem?_range hi]
      simp [f, hslots, hattached]
    · rw [List.getElem?_eq_none (hlen ▸ Nat.not_lt.mp hi), List.getElem?_eq_none (by
        rw [List.length_range]
        exact Nat.not_lt.mp hi)]
      rfl
  refine ⟨k, { m with radix }, ?_, ?_, hkeep⟩
  · simp only [← h.covered]
    exact hk
  · unfold MetalPrefixCache.lookup
    rw [hlookup]
    dsimp only [Option.bind_eq_bind, Option.bind_some]
    rw [hslots, hflat, h.blockSize]

theorem Bridged.release (h : m.Bridged attached) (slots : List Nat) :
    Stable m (m.release slots).2 := by
  have hrefl : Untouched m.radix m.radix :=
    ⟨h.indexed, rfl, rfl, rfl, fun _ _ => Iff.rfl⟩
  unfold MetalPrefixCache.release
  split
  · exact ⟨hrefl, rfl, rfl, rfl, le_refl _⟩
  · split
    · exact ⟨hrefl, rfl, rfl, rfl, le_refl _⟩
    · split
      · exact ⟨hrefl, rfl, rfl, rfl, le_refl _⟩
      · exact ⟨h.indexed.releaseUntouched _, rfl, rfl, rfl, le_refl _⟩

end Bridged

/-! ## Insertions -/

section Insert

variable {m : MetalPrefixCache} {attached : WindowMap Token (List Nat)} {tokens : List Token}
  {slots : List Nat}

/-- The `i`-th block of the tokens is not cached. -/
def Missing (m : MetalPrefixCache) (tokens : List Token) (i : Nat) : Prop :=
  (i + 1) * m.blockSize ≤ tokens.length ∧
    ∀ b, ¬ m.radix.Holds (tokens.take ((i + 1) * m.blockSize)) b

/-- The insertion fails at its `i`-th block, before it records any. -/
def RefusedAt (m : MetalPrefixCache) (tokens : List Token) (slots : List Nat) (i : Nat) : Prop :=
  (∃ b, m.radix.Holds (tokens.take ((i + 1) * m.blockSize)) b ∧
    m.blockSlots.lookup b ≠ some (m.slotWindow slots i)) ∨
  m.Missing tokens i ∧
    ((∃ slot ∈ m.slotWindow slots i, m.slotToBlock.lookup slot ≠ none) ∨
      2 ^ 32 ≤ m.nextBlockId.toNat + 1)

/-- The insertion can record all its missing blocks, or fails before it records one. -/
def CleanInsert (m : MetalPrefixCache) (tokens : List Token) (slots : List Nat) : Prop :=
  (∀ i, m.Missing tokens i →
    (∀ slot ∈ m.slotWindow slots i, m.slotToBlock.lookup slot = none) ∧
    m.nextBlockId.toNat + (tokens.length / m.blockSize - i) < 2 ^ 32 ∧
    m.radix.freeNodes.Nodup) ∨
  ∃ i < tokens.length / m.blockSize, m.RefusedAt tokens slots i ∧
    ∀ j < i, ¬ m.Missing tokens j

theorem checkMatched_ok {blocks : List BlockId} {start : Nat}
    (h : m.checkMatched slots start blocks = .ok ()) {j : Nat} {b : BlockId}
    (hb : blocks[j]? = some b) :
    m.blockSlots.lookup b = some (m.slotWindow slots (start + j)) := by
  induction blocks generalizing start j with
  | nil => cases hb
  | cons block blocks ih =>
    unfold checkMatched at h
    split at h
    · cases h
    · rename_i found hfound
      split at h
      · rename_i hsame
        cases j with
        | zero =>
          cases hb
          rw [hfound, hsame]
          rfl
        | succ j =>
          rw [Nat.add_comm j 1, ← Nat.add_assoc]
          exact ih h hb
      · cases h

/-- The matched blocks with their slots, and the new ones. -/
theorem Bridged.extended {m₁ : MetalPrefixCache} {radix : RadixCache} {matched : List BlockId}
    {chunks : List (BlockId × List Nat)} {n : Nat} (h : m.Bridged attached)
    (hrec : Recorded m m₁ chunks) (hradix : radix.Indexed)
    (hsize : radix.blockSize = m.blockSize) (hfit : n * m.blockSize ≤ tokens.length)
    (hcount : matched.length + chunks.length = n)
    (hmatched : ∀ i b, matched[i]? = some b →
      m.radix.Holds (tokens.take ((i + 1) * m.blockSize)) b ∧
      m.blockSlots.lookup b = some (m.slotWindow slots i))
    (hchunks : ∀ j chunk, chunks[j]? = some chunk →
      chunk.2 = m.slotWindow slots (matched.length + j))
    (hholds : ∀ p b, radix.Holds p b ↔ m.radix.Holds p b ∨
      ∃ i, matched.length ≤ i ∧ p = tokens.take ((i + 1) * m.blockSize) ∧
        (matched ++ chunks.map Prod.fst)[i]? = some b)
    (hfree : ∀ slot ∈ (chunks.map Prod.snd).flatten, m.slotToBlock.lookup slot = none)
    (hnodup : ((chunks.map Prod.snd).flatten).Nodup) :
    ({ m₁ with radix } : MetalPrefixCache).Bridged (recordWindows m.blockSize tokens
      ((List.range n).map (m.slotWindow slots)) attached n) := by
  have hbs := h.blockSize_pos
  have hwithin : ∀ {i}, i < n → (i + 1) * m.blockSize ≤ tokens.length := fun hi =>
    (Nat.mul_le_mul_right _ hi).trans hfit
  -- A block held before is no new one.
  have hkept : ∀ {p b}, m.radix.Holds p b → ∀ slots', m₁.blockSlots.lookup b = some slots' ↔
      m.blockSlots.lookup b = some slots' := by
    intro p b hb slots'
    rw [hrec.lookup]
    refine ⟨fun hor => hor.resolve_right fun hin => ?_, .inl⟩
    obtain ⟨old, hold, -⟩ := h.slots_of_holds hb
    exact absurd (h.ledger.ids b old hold) (Nat.not_lt.mpr (hrec.fresh _ hin))
  have hnew : ∀ {i b}, matched.length ≤ i → (matched ++ chunks.map Prod.fst)[i]? = some b →
      i < n ∧ (b, m.slotWindow slots i) ∈ chunks := by
    intro i b hi hb
    rw [List.getElem?_append_right hi, List.getElem?_map] at hb
    obtain ⟨chunk, hchunk, rfl⟩ := Option.map_eq_some_iff.mp hb
    have hlt := (List.getElem?_eq_some_iff.mp hchunk).1
    refine ⟨by omega, ?_⟩
    have heq := hchunks _ chunk hchunk
    rw [Nat.add_sub_cancel' hi] at heq
    rw [← heq]
    exact List.mem_of_getElem? hchunk
  -- Every window of the call is held, with its slots.
  have hwindow : ∀ {i}, i < n → ∃ b, radix.Holds (tokens.take ((i + 1) * m.blockSize)) b ∧
      m₁.blockSlots.lookup b = some (m.slotWindow slots i) := by
    intro i hi
    by_cases hik : i < matched.length
    · have hb := List.getElem?_eq_getElem hik
      obtain ⟨hheld, hslots⟩ := hmatched i _ hb
      exact ⟨_, (hholds _ _).mpr (.inl hheld), (hkept hheld _).mpr hslots⟩
    · have hki := Nat.not_lt.mp hik
      obtain ⟨b, hb⟩ : ∃ b, (matched ++ chunks.map Prod.fst)[i]? = some b := by
        refine ⟨_, List.getElem?_eq_getElem ?_⟩
        rw [List.length_append, List.length_map]
        omega
      exact ⟨b, (hholds _ b).mpr (.inr ⟨i, hki, rfl, hb⟩),
        (hrec.lookup b _).mpr (.inr (hnew hki hb).2)⟩
  refine ⟨hradix, ?_, ?_, ?_, ?_, ?_, ?_⟩
  · exact hsize.trans hrec.blockSize.symm
  · exact ⟨hrec.ledger.owner, hrec.ledger.length, hrec.ledger.ids⟩
  · intro p slots'
    dsimp only
    by_cases hp : ∃ i < n, p = tokens.take ((i + 1) * m.blockSize)
    · obtain ⟨i, hi, rfl⟩ := hp
      rw [recordWindows_window hbs hi hfit, List.getElem?_map, List.getElem?_range hi]
      obtain ⟨b, hb, hslots⟩ := hwindow hi
      constructor
      · intro heq
        cases heq
        exact ⟨b, hb, hslots⟩
      · rintro ⟨b', hb', hslots'⟩
        have hsame := (hradix.sound.holds_iff.mp hb).symm.trans (hradix.sound.holds_iff.mp hb')
        rw [← Option.some.inj hsame, hslots] at hslots'
        exact hslots'
    · push Not at hp
      rw [recordWindows_other hp, h.attached]
      apply exists_congr
      intro b
      rw [hholds]
      constructor
      · rintro ⟨hb, hslots⟩
        exact ⟨.inl hb, (hkept hb _).mpr hslots⟩
      · rintro ⟨hb | ⟨i, hi, heq, hb⟩, hslots⟩
        · exact ⟨hb, (hkept hb _).mp hslots⟩
        · exact absurd heq (hp i (hnew hi hb).1)
  · intro b
    dsimp only
    constructor
    · intro hsome
      obtain ⟨slots', hslots'⟩ := Option.ne_none_iff_exists'.mp hsome
      rcases (hrec.lookup b slots').mp hslots' with hold | hin
      · obtain ⟨p, hp⟩ := (h.keys b).mp (by rw [hold]; simp)
        exact ⟨p, (hholds p b).mpr (.inl hp)⟩
      · obtain ⟨j, hj⟩ := List.mem_iff_getElem?.mp hin
        refine ⟨_, (hholds _ b).mpr (.inr ⟨matched.length + j, Nat.le_add_right _ _, rfl, ?_⟩)⟩
        rw [List.getElem?_append_right (Nat.le_add_right _ _), Nat.add_sub_cancel_left,
          List.getElem?_map, hj]
        rfl
    · rintro ⟨p, hp⟩
      rcases (hholds p b).mp hp with hp | ⟨i, hi, -, hb⟩
      · obtain ⟨slots', hslots', -⟩ := h.slots_of_holds hp
        rw [(hkept hp slots').mpr hslots']
        simp
      · rw [(hrec.lookup b _).mpr (.inr (hnew hi hb).2)]
        simp
  · intro p b hp i hi
    dsimp only at hp hi ⊢
    rw [hrec.blockSize] at hi ⊢
    rcases (hholds p b).mp hp with hp | ⟨j, hj, rfl, hb⟩
    · obtain ⟨b', hb'⟩ := h.rooted p b hp i hi
      exact ⟨b', (hholds _ b').mpr (.inl hb')⟩
    · have hjn := (hnew hj hb).1
      rw [List.length_take, Nat.min_eq_left (hwithin hjn)] at hi
      have hij : i ≤ j := by
        have := Nat.le_of_mul_le_mul_right hi hbs
        omega
      obtain ⟨b', hb', -⟩ := hwindow (Nat.lt_of_le_of_lt hij hjn)
      rw [List.take_take, Nat.min_eq_left hi]
      exact ⟨b', hb'⟩
  · apply hrec.owned.nodup_iff.mpr
    apply List.nodup_append'.mpr
    refine ⟨h.nodup, hnodup, fun slot hold hin => ?_⟩
    exact h.ledger.mem_owned.mp hold (hfree slot hin)

theorem mem_slotRange_windows {slot k r : Nat}
    (h : slot ∈ slotRange slots (k * m.blockSize) (r * m.blockSize)) :
    ∃ j < r, slot ∈ m.slotWindow slots (k + j) := by
  induction r with
  | zero => simp [slotRange] at h
  | succ r ih =>
    rw [Nat.add_mul, Nat.one_mul, slotRange_add, ← Nat.add_mul] at h
    rcases List.mem_append.mp h with h | h
    · obtain ⟨j, hj, hmem⟩ := ih h
      exact ⟨j, Nat.lt_succ_of_lt hj, hmem⟩
    · exact ⟨r, Nat.lt_succ_self r, h⟩

theorem slotRange_sublist (slots : List Nat) (start len : Nat) :
    (slotRange slots start len).Sublist slots :=
  ( List.take_sublist _ _).trans (List.drop_sublist _ _)

theorem Recorded.mem_new {m' : MetalPrefixCache} {chunks : List (BlockId × List Nat)}
    (h : m.Ledger) (hrec : Recorded m m' chunks) {slot : Nat}
    (hfree : m.slotToBlock.lookup slot = none) :
    slot ∈ (chunks.map Prod.snd).flatten ↔ m'.slotToBlock.lookup slot ≠ none := by
  rw [← hrec.ledger.mem_owned, hrec.owned.mem_iff, List.mem_append]
  refine ⟨.inr, fun hor => hor.resolve_left fun hold => ?_⟩
  exact h.mem_owned.mp hold hfree

/-- The longest cached part of the tokens. -/
theorem Bridged.lookupAligned (h : m.Bridged attached) (tokens : List Token) :
    ∃ k blocks radix, m.radix.lookup (tokens.take (m.alignedLen tokens.length)) =
        some ((k * m.blockSize, blocks), radix) ∧ Untouched m.radix radix ∧ blocks.length = k ∧
      k ≤ tokens.length / m.blockSize ∧
      (∀ i b, blocks[i]? = some b ↔
        i < k ∧ m.radix.Holds (tokens.take ((i + 1) * m.blockSize)) b) ∧
      ∀ i, m.Missing tokens i ↔ k ≤ i ∧ i < tokens.length / m.blockSize := by
  have hbs := h.blockSize_pos
  generalize hn : tokens.length / m.blockSize = n
  have hfit : n * m.blockSize ≤ tokens.length := hn ▸ Nat.div_mul_le_self _ _
  obtain ⟨k, blocks, radix, ⟨hcovered, hmax⟩, hlookup, hlen, hblocks, hradix⟩ :=
    h.indexed.lookupLongest (tokens.take (n * m.blockSize))
  rw [h.blockSize] at hcovered hmax hlookup hblocks
  have htake : ∀ {i}, i < n → (tokens.take (n * m.blockSize)).take ((i + 1) * m.blockSize) =
      tokens.take ((i + 1) * m.blockSize) := by
    intro i hi
    rw [List.take_take, Nat.min_eq_left (Nat.mul_le_mul_right _ hi)]
  have hbound : ∀ {i}, (i + 1) * m.blockSize ≤ (tokens.take (n * m.blockSize)).length ↔
      i < n := by
    intro i
    rw [List.length_take, Nat.min_eq_left hfit]
    exact ⟨fun hle => Nat.le_of_mul_le_mul_right hle hbs, fun hi => Nat.mul_le_mul_right _ hi⟩
  have hkn : k ≤ n := by
    by_contra hlt
    exact absurd (hbound.mp (hcovered n (Nat.lt_of_not_le hlt)).1) (lt_irrefl n)
  refine ⟨k, blocks, radix, ?_, hradix, hlen, hkn, fun i b => ?_, fun i => ?_⟩
  · unfold alignedLen
    rw [hn]
    exact hlookup
  · constructor
    · intro hb
      have hi : i < k := hlen ▸ (List.getElem?_eq_some_iff.mp hb).1
      rw [hblocks i hi, htake (hi.trans_le hkn)] at hb
      exact ⟨hi, h.indexed.sound.holds_iff.mpr hb⟩
    · rintro ⟨hi, hb⟩
      rw [hblocks i hi, htake (hi.trans_le hkn)]
      exact h.indexed.sound.holds_iff.mp hb
  · have hin : (i + 1) * m.blockSize ≤ tokens.length ↔ i < n := by
      rw [← hn, Nat.lt_iff_add_one_le, Nat.le_div_iff_mul_le hbs]
    unfold Missing
    rw [hin]
    constructor
    · rintro ⟨hi, hnone⟩
      refine ⟨?_, hi⟩
      by_contra hlt
      have hsome := (hcovered i (Nat.lt_of_not_le hlt)).2
      rw [htake hi] at hsome
      obtain ⟨b, hb⟩ := Option.ne_none_iff_exists'.mp hsome
      exact hnone b (h.indexed.sound.holds_iff.mpr hb)
    · rintro ⟨hki, hi⟩
      refine ⟨hi, fun b hb => ?_⟩
      -- The window `k` would be held too, and the match would be longer.
      have hlong : Covered m.blockSize m.radix.windowMap (tokens.take (n * m.blockSize))
          (k + 1) := by
        intro j hj
        rcases Nat.lt_or_eq_of_le (Nat.le_of_lt_succ hj) with hj | rfl
        · exact hcovered j hj
        · have hjn := Nat.lt_of_le_of_lt hki hi
          refine ⟨hbound.mpr hjn, ?_⟩
          have hle : (j + 1) * m.blockSize ≤ (i + 1) * m.blockSize :=
            Nat.mul_le_mul_right _ (Nat.succ_le_succ hki)
          obtain ⟨b', hb'⟩ := h.rooted _ b hb j (by
            rw [List.length_take, Nat.min_eq_left (hin.mpr hi)]
            exact hle)
          rw [List.take_take, Nat.min_eq_left hle] at hb'
          rw [htake hjn, h.indexed.sound.holds_iff.mp hb']
          simp
      exact absurd (hmax hlong) (Nat.not_succ_le_self k)

/-- With unowned slots and enough ids the missing blocks are recorded and inserted. -/
theorem Bridged.recordAll {k n : Nat} {blocks : List BlockId} (h : m.Bridged attached)
    (hlen : tokens.length = slots.length) (hnodup : slots.Nodup) (hkn : k ≤ n)
    (hfit : n * m.blockSize ≤ tokens.length) (hcount : blocks.length = k)
    (hmatched : ∀ i b, blocks[i]? = some b →
      m.radix.Holds (tokens.take ((i + 1) * m.blockSize)) b ∧
      m.blockSlots.lookup b = some (m.slotWindow slots i))
    (hmissing : ∀ i, k ≤ i → i < n →
      (∀ b, ¬ m.radix.Holds (tokens.take ((i + 1) * m.blockSize)) b) ∧
      ∀ slot ∈ m.slotWindow slots i, m.slotToBlock.lookup slot = none)
    (hids : m.nextBlockId.toNat + (n - k) < 2 ^ 32)
    (hnodes : k < n → m.radix.freeNodes.Nodup) :
    ∃ all m' radix new, recordNew slots (n - k) k m blocks = (.ok all, m') ∧
      (k < n → radixInsert m'.radix (tokens.take (n * m.blockSize)) all = some radix) ∧
      (k = n → radix = m'.radix) ∧ m'.blockSize = m.blockSize ∧
      ({ m' with radix } : MetalPrefixCache).Bridged (recordWindows m.blockSize tokens
        ((List.range n).map (m.slotWindow slots)) attached n) ∧
      m'.owned.Perm (m.owned ++ new) ∧ new.Nodup ∧
      ∀ slot, slot ∈ new ↔
        slot ∈ slots ∧ m.slotToBlock.lookup slot = none ∧ m'.slotToBlock.lookup slot ≠ none := by
  have hfree : ∀ slot ∈ slotRange slots (k * m.blockSize) ((n - k) * m.blockSize),
      m.slotToBlock.lookup slot = none := by
    intro slot hslot
    obtain ⟨j, hj, hmem⟩ := mem_slotRange_windows hslot
    exact (hmissing (k + j) (Nat.le_add_right k j) (by omega)).2 slot hmem
  obtain ⟨chunks, m', hrun, hrec, hlength, hchunks, hflat⟩ :=
    @recordNew_recorded m slots (n - k) k blocks h.ledger
    (by rw [Nat.add_sub_cancel' hkn, ← hlen]; exact hfit) hnodup hfree hids
  rw [← hflat] at hfree
  have hnew : ((chunks.map Prod.snd).flatten).Nodup := by
    rw [hflat]
    exact hnodup.sublist (slotRange_sublist _ _ _)
  have hmem : ∀ slot, slot ∈ (chunks.map Prod.snd).flatten ↔
      slot ∈ slots ∧ m.slotToBlock.lookup slot = none ∧ m'.slotToBlock.lookup slot ≠ none := by
    intro slot
    constructor
    · intro hin
      refine ⟨?_, hfree slot hin, (hrec.mem_new h.ledger (hfree slot hin)).mp hin⟩
      rw [hflat] at hin
      exact (slotRange_sublist _ _ _).mem hin
    · rintro ⟨-, hnone, hsome⟩
      exact (hrec.mem_new h.ledger hnone).mpr hsome
  have hall : (blocks ++ chunks.map Prod.fst).length = n := by
    rw [List.length_append, List.length_map]
    omega
  have hlast : ∀ {i b}, (blocks ++ chunks.map Prod.fst)[i]? = some b → i < n := by
    intro i b hb
    exact hall ▸ (List.getElem?_eq_some_iff.mp hb).1
  -- Whatever the radix cache holds then stands for the attached windows.
  have hbridged : ∀ {r : RadixCache}, r.Indexed → r.blockSize = m.blockSize →
      (∀ p b, r.Holds p b ↔ m.radix.Holds p b ∨
        ∃ i, k ≤ i ∧ p = tokens.take ((i + 1) * m.blockSize) ∧
          (blocks ++ chunks.map Prod.fst)[i]? = some b) →
      ({ m' with radix := r } : MetalPrefixCache).Bridged (recordWindows m.blockSize tokens
        ((List.range n).map (m.slotWindow slots)) attached n) := by
    intro r hr hrsize hholds
    subst hcount
    exact h.extended hrec hr hrsize hfit (by omega) hmatched hchunks hholds hfree hnew
  rcases Nat.lt_or_eq_of_le hkn with hlt | heq
  · have hsize := h.blockSize
    have htake : ∀ {i}, i < n → (tokens.take (n * m.blockSize)).take ((i + 1) * m.blockSize) =
        tokens.take ((i + 1) * m.blockSize) := by
      intro i hi
      rw [List.take_take, Nat.min_eq_left (Nat.mul_le_mul_right _ hi)]
    have hdrop : (blocks ++ chunks.map Prod.fst).drop k = chunks.map Prod.fst := by
      rw [← hcount, List.drop_left]
    obtain ⟨r, hinsert, hindexed, hrsize, -, hholds⟩ := h.indexed.insertBehind (hnodes hlt)
      (k := k) (n := n) (q := tokens.take (n * m.blockSize))
      (show (blocks ++ chunks.map Prod.fst).length =
        ((blocks ++ chunks.map Prod.fst).map fun _ => (⟨0⟩ : BlockFingerprint)).length from
        (List.length_map _).symm)
      (by rw [List.length_take, Nat.min_eq_left hfit, hsize]) hall
      (fun i b hik hb => by
        rw [List.getElem?_append_left (hcount.symm ▸ hik)] at hb
        rw [hsize, htake (hik.trans_le hkn)]
        exact (hmatched i b hb).1)
      (fun i b hki hi hb => by
        rw [hsize, htake hi] at hb
        exact (hmissing i hki hi).1 b hb)
      (by rw [hdrop]; exact hrec.nodup)
      (fun b hb p hp => by
        rw [hdrop] at hb
        obtain ⟨chunk, hchunk, rfl⟩ := List.mem_map.mp hb
        obtain ⟨old, hold, -⟩ := h.slots_of_holds hp
        exact absurd (h.ledger.ids _ old hold) (Nat.not_lt.mpr (hrec.fresh _ hchunk)))
    refine ⟨_, m', r.2, _, hrun, fun _ => ?_, fun heq => absurd heq hlt.ne, hrec.blockSize,
      hbridged hindexed (hrsize.trans hsize) ?_, hrec.owned, hnew, hmem⟩
    · unfold radixInsert
      rw [hrec.radix, hinsert]
      rfl
    · intro p b
      rw [hholds, hsize]
      apply or_congr_right
      apply exists_congr
      intro i
      constructor
      · rintro ⟨hki, rfl, hb⟩
        exact ⟨hki, htake (hlast hb), hb⟩
      · rintro ⟨hki, rfl, hb⟩
        exact ⟨hki, (htake (hlast hb)).symm, hb⟩
  · refine ⟨_, m', m'.radix, _, hrun, fun hlt => absurd heq hlt.ne, fun _ => rfl,
      hrec.blockSize, hbridged ?_ ?_ ?_, hrec.owned, hnew, hmem⟩
    · rw [hrec.radix]
      exact h.indexed
    · rw [hrec.radix]
      exact h.blockSize
    · intro p b
      rw [hrec.radix]
      refine ⟨.inl, fun hor => hor.resolve_right ?_⟩
      rintro ⟨i, hki, -, hb⟩
      exact absurd (hlast hb) (Nat.not_lt.mpr (heq ▸ hki))

/-- What an insertion does: it fails and changes neither map, or it attaches its slots. -/
theorem Bridged.insert (h : m.Bridged attached) (hlen : tokens.length = slots.length)
    (hnodup : slots.Nodup) (hclean : m.CleanInsert tokens slots) :
    ∃ result m', m.insert tokens slots = some (result, m') ∧
      ((∃ err, result = .error err ∧ Stable m m') ∨
      ∃ n new, result = .ok n ∧ m'.blockSize = m.blockSize ∧
        m'.Bridged (record m.blockSize tokens (m.slotWindows slots) attached) ∧
        m'.owned.Perm (m.owned ++ new) ∧ new.Nodup ∧
        ∀ slot, slot ∈ new ↔
          slot ∈ slots ∧ m.slotToBlock.lookup slot = none ∧
            m'.slotToBlock.lookup slot ≠ none) := by
  have hbs := h.blockSize_pos
  obtain ⟨k, blocks, radix, hlookup, hradix, hcount, hkn, hmatched, hmissing⟩ :=
    h.lookupAligned tokens
  generalize hn : tokens.length / m.blockSize = n at hkn hmissing
  have hfit : n * m.blockSize ≤ tokens.length := hn ▸ Nat.div_mul_le_self _ _
  have haligned : m.alignedLen tokens.length = n * m.blockSize := by rw [← hn]; rfl
  have hrecord : record m.blockSize tokens (m.slotWindows slots) attached =
      recordWindows m.blockSize tokens ((List.range n).map (m.slotWindow slots)) attached n := by
    unfold record slotWindows
    rw [List.length_map, List.length_range, ← hlen, hn, Nat.min_self]
  unfold MetalPrefixCache.insert
  rw [if_neg (not_not.mpr hlen)]
  dsimp only
  rw [hlookup, haligned]
  by_cases hn0 : n = 0
  · -- No full block.
    rw [if_pos (by rw [hn0, Nat.zero_mul])]
    refine ⟨_, m, rfl, .inr ⟨0, [], rfl, rfl, ?_, ?_, List.nodup_nil, fun slot => ?_⟩⟩
    · rw [hrecord, hn0]
      exact h
    · rw [List.append_nil]
    · refine ⟨fun hin => absurd hin List.not_mem_nil, fun hin => absurd hin.2.1 hin.2.2⟩
  rw [if_neg (Nat.mul_ne_zero hn0 hbs.ne')]
  dsimp only [Option.bind_eq_bind, Option.bind_some]
  rw [if_pos (Nat.mul_le_mul_right _ hkn), Nat.mul_div_cancel _ hbs, Nat.mul_div_cancel _ hbs]
  -- The match is released at once, which only changes pins.
  have hstable : Stable m { m with radix := radix.release blocks } :=
    ⟨hradix.trans (hradix.indexed.releaseUntouched blocks), rfl, rfl, rfl, le_refl _⟩
  have h₁ := h.stable hstable
  cases hcheck : checkMatched { m with radix := radix.release blocks } slots 0 blocks with
  | error err => exact ⟨_, _, rfl, .inl ⟨err, rfl, hstable⟩⟩
  | ok u =>
    dsimp only
    have hslots : ∀ i b, blocks[i]? = some b →
        m.blockSlots.lookup b = some (m.slotWindow slots i) := by
      intro i b hb
      have := checkMatched_ok hcheck hb
      rwa [Nat.zero_add] at this
    rcases hclean with hall | ⟨i, hi, hrefused, hfirst⟩
    · have hids : m.nextBlockId.toNat + (n - k) < 2 ^ 32 := by
        rcases Nat.lt_or_eq_of_le hkn with hlt | rfl
        · have hids := (hall k ((hmissing k).mpr ⟨le_refl k, hlt⟩)).2.1
          rwa [hn] at hids
        · rw [Nat.sub_self]
          exact m.nextBlockId.toNat_lt
      obtain ⟨all, m', r, new, hrun, hinsert, hkeep, hsize, hbridged, hperm, hnew, hmem⟩ :=
        h₁.recordAll (k := k) (n := n) hlen hnodup hkn hfit hcount
          (fun i b hb => ⟨(hstable.radix.holds _ b).mpr ((hmatched i b).mp hb).2, hslots i b hb⟩)
          (fun i hki hi => by
            have hmiss := (hmissing i).mpr ⟨hki, hi⟩
            exact ⟨fun b hb => hmiss.2 b ((hstable.radix.holds _ b).mp hb), (hall i hmiss).1⟩)
          hids
          (fun hlt => by
            rw [hstable.radix.free]
            exact (hall k ((hmissing k).mpr ⟨le_refl k, hlt⟩)).2.2)
      rw [hrun, hrecord]
      dsimp only
      split
      · rename_i hlt
        rw [hinsert hlt]
        exact ⟨_, _, rfl, .inr ⟨_, new, rfl, hsize, hbridged, hperm, hnew, hmem⟩⟩
      · rename_i hge
        rw [hkeep (Nat.le_antisymm hkn (Nat.not_lt.mp hge))] at hbridged
        exact ⟨_, m', rfl, .inr ⟨_, new, rfl, hsize, hbridged, hperm, hnew, hmem⟩⟩
    · -- The insertion fails at its first new block.
      rw [hn] at hi
      have hki : k ≤ i ∧ ((∃ slot ∈ m.slotWindow slots i, m.slotToBlock.lookup slot ≠ none) ∨
          2 ^ 32 ≤ m.nextBlockId.toNat + 1) := by
        rcases hrefused with ⟨b, hb, hother⟩ | ⟨hmiss, hor⟩
        · exfalso
          have hik : i < k := by
            by_contra hge
            exact ((hmissing i).mpr ⟨Nat.not_lt.mp hge, hi⟩).2 b hb
          exact hother (hslots i b ((hmatched i b).mpr ⟨hik, hb⟩))
        · exact ⟨((hmissing i).mp hmiss).1, hor⟩
      have hik : i = k := by
        by_contra hne
        have hlt : k < i := Nat.lt_of_le_of_ne hki.1 (Ne.symm hne)
        exact hfirst k hlt ((hmissing k).mpr ⟨le_refl k, hlt.trans hi⟩)
      subst hik
      obtain ⟨r, hr⟩ : ∃ r, n - i = r + 1 := ⟨n - i - 1, by omega⟩
      obtain ⟨err, next, hrun, hnext⟩ :=
        @recordNew_refused _ slots r i blocks h₁.ledger hki.2
      rw [hr, hrun]
      refine ⟨_, _, rfl, .inl ⟨err, rfl, ?_⟩⟩
      exact ⟨hstable.radix, rfl, rfl, rfl, hnext⟩

end Insert

/-! ## Evictions -/

section Evict

variable {m : MetalPrefixCache} {attached : WindowMap Token (List Nat)}

/-- The windows whose slots were freed are detached. -/
def detachFreed (attached : WindowMap Token (List Nat)) (freed : List Nat) :
    WindowMap Token (List Nat) :=
  fun p => (attached p).filter fun slots => !slots.any (· ∈ freed)

theorem detachFreed_eq_some {freed : List Nat} {p : List Token} {slots : List Nat} :
    detachFreed attached freed p = some slots ↔
      attached p = some slots ∧ ∀ slot ∈ slots, slot ∉ freed := by
  unfold detachFreed
  rw [Option.filter_eq_some_iff]
  simp

/-- An eviction drops blocks, and returns exactly their slots. -/
theorem Bridged.evict (h : m.Bridged attached) (n : Nat) :
    (m.evict n).2.Bridged (detachFreed attached (m.evict n).1) ∧
      (m.evict n).2.blockSize = m.blockSize ∧
      (∀ b slots, (m.evict n).2.blockSlots.lookup b = some slots →
        m.blockSlots.lookup b = some slots) ∧
      m.owned.Perm ((m.evict n).1 ++ (m.evict n).2.owned) := by
  have hout := h.indexed.evictLru n
  obtain ⟨returned, m', hrun, hdropped⟩ := dropBlocks_spec
    (m := { m with radix := (m.radix.evict n).2 }) ⟨h.ledger.owner, h.ledger.length, h.ledger.ids⟩
    hout.nodup (fun b hb => (h.keys b).mpr (hout.held b hb)) []
  have hevict : m.evict n = (returned, m') := hrun
  have howned : m.owned.Perm (returned ++ m'.owned) := hdropped.owned
  have hbs := h.blockSize_pos
  rw [hevict]
  refine ⟨⟨?_, ?_, hdropped.ledger, ?_, ?_, ?_, ?_⟩, hdropped.blockSize,
    fun b slots hb => ((hdropped.lookup b slots).mp hb).1, howned⟩
  · rw [hdropped.radix]
    exact hout.indexed
  · rw [hdropped.radix, hdropped.blockSize]
    exact hout.blockSize.trans h.blockSize
  · intro p slots
    rw [detachFreed_eq_some, h.attached, hdropped.radix]
    -- A block is freed exactly if its slots are.
    have hslots : ∀ b, m.blockSlots.lookup b = some slots →
        ((∀ slot ∈ slots, slot ∉ returned) ↔ b ∉ (m.radix.evict n).1) := by
      intro b hb
      have hnodup := List.nodup_append'.mp (howned.nodup_iff.mp h.nodup)
      constructor
      · intro hkept hfreed
        have hne : slots ≠ [] := by
          apply List.ne_nil_of_length_pos
          rw [h.ledger.length b slots hb]
          exact hbs
        obtain ⟨slot, hslot⟩ := List.exists_mem_of_ne_nil slots hne
        have hin : slot ∈ m.owned := by
          rw [h.ledger.mem_owned, (h.ledger.owner slot b).mpr ⟨slots, hb, hslot⟩]
          simp
        rcases List.mem_append.mp (howned.mem_iff.mp hin) with hin | hin
        · exact hkept slot hslot hin
        · obtain ⟨b', hb'⟩ := Option.ne_none_iff_exists'.mp (hdropped.ledger.mem_owned.mp hin)
          obtain ⟨slots', hslots', hmem⟩ := (hdropped.ledger.owner slot b').mp hb'
          obtain ⟨hold, hstays⟩ := (hdropped.lookup b' slots').mp hslots'
          have hmine := (h.ledger.owner slot b').mpr ⟨slots', hold, hmem⟩
          rw [(h.ledger.owner slot b).mpr ⟨slots, hb, hslot⟩] at hmine
          exact hstays (Option.some.inj hmine ▸ hfreed)
      · intro hstays slot hslot hin
        have hb' := (hdropped.lookup b slots).mpr ⟨hb, hstays⟩
        have hsome := (hdropped.ledger.owner slot b).mpr ⟨slots, hb', hslot⟩
        refine hnodup.2.2 hin (hdropped.ledger.mem_owned.mpr ?_)
        rw [hsome]
        simp
    constructor
    · rintro ⟨⟨b, hb, hlookup⟩, hkept⟩
      have hstays := (hslots b hlookup).mp hkept
      exact ⟨b, (hout.holds p b).mpr ⟨hb, hstays⟩, (hdropped.lookup b slots).mpr ⟨hlookup, hstays⟩⟩
    · rintro ⟨b, hb, hlookup⟩
      obtain ⟨hlookup, hstays⟩ := (hdropped.lookup b slots).mp hlookup
      exact ⟨⟨b, ((hout.holds p b).mp hb).1, hlookup⟩, (hslots b hlookup).mpr hstays⟩
  · intro b
    rw [hdropped.radix]
    simp only [hout.holds, exists_and_right]
    rw [← h.keys, Option.ne_none_iff_exists', Option.ne_none_iff_exists', ← exists_and_right]
    exact exists_congr fun slots => hdropped.lookup b slots
  · intro p b hb i hi
    rw [hdropped.radix] at hb ⊢
    rw [hdropped.blockSize] at hi ⊢
    obtain ⟨b', hb'⟩ := h.rooted p b ((hout.holds p b).mp hb).1 i hi
    exact ⟨b', (hout.holds _ b').mpr ⟨hb', hout.kept p b hb _ b' ( List.take_prefix _ _) hb'⟩⟩
  · exact (List.nodup_append'.mp (howned.nodup_iff.mp h.nodup)).2.1

end Evict

theorem bridged_new {m : MetalPrefixCache} {size : Nat} (h : new size = some m) :
    m.Bridged (fun _ => none) ∧ m.blockSize = size ∧ m.owned = [] := by
  obtain ⟨radix, hradix, rfl⟩ := Option.map_eq_some_iff.mp h
  have hnone : ∀ p b, ¬ radix.Holds p b := by
    rintro p b ⟨i, -, hi⟩
    rw [new_block hradix] at hi
    cases hi
  have hempty : ∀ b : BlockId, AList.lookup b (∅ : Assoc BlockId (List Nat)) = none := fun _ => rfl
  refine ⟨⟨indexed_new hradix, ?_, ⟨?_, ?_, ?_⟩, ?_, ?_, ?_, List.nodup_nil⟩, rfl, rfl⟩
  · obtain ⟨-, rfl⟩ := new_eq hradix
    rfl
  · intro slot b
    refine ⟨fun heq => (by cases heq), ?_⟩
    rintro ⟨slots, hslots, -⟩
    cases hslots
  · intro b slots hb
    cases hb
  · intro b slots hb
    cases hb
  · intro p slots
    refine ⟨fun heq => (by cases heq), ?_⟩
    rintro ⟨b, hb, -⟩
    exact absurd hb (hnone p b)
  · intro b
    refine ⟨fun hne => absurd (hempty b) hne, ?_⟩
    rintro ⟨p, hp⟩
    exact absurd hp (hnone p b)
  · intro p b hb
    exact absurd hb (hnone p b)

end MetalPrefixCache

end Arle.Backend.Metal
