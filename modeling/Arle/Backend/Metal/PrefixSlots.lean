import Mathlib
import Arle.Backend.Metal.PrefixCache

/-!
# The slots of the cached blocks

`block_slots` and `slot_to_block` are two sides of one assignment of slots to blocks (`Ledger`).
Recording a new block with unowned slots keeps it, and so does dropping blocks. The slots of all
blocks together are `owned`.
-/

namespace Arle.Backend.Metal.MetalPrefixCache

open Arle.KvTier Arle.PrefixCache

/-- The slots of all blocks. -/
def owned (m : MetalPrefixCache) : List Nat := (Assoc.values m.blockSlots).flatten

/-- A slot belongs to a block exactly if it is one of its slots; every block has a full list of
slots and an id that was given out. -/
structure Ledger (m : MetalPrefixCache) : Prop where
  owner : ∀ slot b, m.slotToBlock.lookup slot = some b ↔
    ∃ slots, m.blockSlots.lookup b = some slots ∧ slot ∈ slots
  length : ∀ b slots, m.blockSlots.lookup b = some slots → slots.length = m.blockSize
  ids : ∀ b slots, m.blockSlots.lookup b = some slots → b.val.toNat < m.nextBlockId.toNat

section Record

variable {m : MetalPrefixCache} {blockId : BlockId} {slots : List Nat}

theorem foreignSlot_eq_none :
    m.foreignSlot blockId slots = none ↔
      ∀ slot ∈ slots, ∀ b, m.slotToBlock.lookup slot = some b → b = blockId := by
  unfold foreignSlot
  rw [List.findSome?_eq_none_iff]
  apply forall₂_congr
  intro slot _
  cases hlookup : m.slotToBlock.lookup slot with
  | none => simp
  | some b =>
    by_cases heq : b = blockId
    · simp [heq]
    · simp [heq]

/-- The cache with one more block. -/
def withBlock (m : MetalPrefixCache) (blockId : BlockId) (slots : List Nat) : MetalPrefixCache :=
  { m with
    blockSlots := m.blockSlots.insert blockId slots
    slotToBlock := slots.foldl (fun map slot => map.insert slot blockId) m.slotToBlock }

theorem recordBlock_new (hlen : slots.length = m.blockSize)
    (hnew : m.blockSlots.lookup blockId = none)
    (hfree : ∀ slot ∈ slots, m.slotToBlock.lookup slot = none) :
    m.recordBlock blockId slots = (.ok (), m.withBlock blockId slots) := by
  have hforeign : m.foreignSlot blockId slots = none := by
    apply foreignSlot_eq_none.mpr
    intro slot hslot b hb
    rw [hfree slot hslot] at hb
    cases hb
  unfold recordBlock
  rw [if_neg (not_not.mpr hlen), hnew]
  dsimp only
  rw [hforeign]
  rfl

/-- A block is not recorded if one of its slots is owned. -/
theorem recordBlock_owned (h : m.Ledger) (hnew : m.blockSlots.lookup blockId = none)
    (howned : ∃ slot ∈ slots, m.slotToBlock.lookup slot ≠ none) :
    ∃ err, m.recordBlock blockId slots = (.error err, m) := by
  have hforeign : m.foreignSlot blockId slots ≠ none := by
    intro hnone
    obtain ⟨slot, hslot, hsome⟩ := howned
    obtain ⟨b, hb⟩ := Option.ne_none_iff_exists'.mp hsome
    have heq := foreignSlot_eq_none.mp hnone slot hslot b hb
    obtain ⟨slots', hslots', _⟩ := (h.owner slot b).mp hb
    rw [heq, hnew] at hslots'
    cases hslots'
  obtain ⟨foreign, hforeign⟩ := Option.ne_none_iff_exists'.mp hforeign
  unfold recordBlock
  split
  · exact ⟨_, rfl⟩
  · rw [hnew]
    dsimp only
    rw [hforeign]
    exact ⟨_, rfl⟩

theorem Ledger.withBlock (h : m.Ledger) (hlen : slots.length = m.blockSize)
    (hid : blockId.val.toNat < m.nextBlockId.toNat)
    (hnew : m.blockSlots.lookup blockId = none)
    (hfree : ∀ slot ∈ slots, m.slotToBlock.lookup slot = none) :
    (m.withBlock blockId slots).Ledger := by
  unfold MetalPrefixCache.withBlock
  refine ⟨?_, ?_, ?_⟩
  · intro slot b
    dsimp only
    rw [Assoc.lookup_foldl_insert, Assoc.lookup_insert_eq]
    by_cases hslot : slot ∈ slots
    · rw [if_pos hslot]
      constructor
      · intro heq
        cases heq
        exact ⟨slots, if_pos rfl, hslot⟩
      · rintro ⟨slots', hslots', hmem⟩
        split at hslots'
        · rename_i heq
          rw [heq]
        · have hb := (h.owner slot b).mpr ⟨slots', hslots', hmem⟩
          rw [hfree slot hslot] at hb
          cases hb
    · rw [if_neg hslot, h.owner]
      apply exists_congr
      intro slots'
      split
      · rename_i heq
        rw [heq, hnew]
        constructor
        · rintro ⟨heq', _⟩
          cases heq'
        · rintro ⟨heq', hmem⟩
          cases heq'
          exact absurd hmem hslot
      · exact .rfl
  · intro b slots' hlookup
    dsimp only at hlookup
    rw [Assoc.lookup_insert_eq] at hlookup
    split at hlookup
    · cases hlookup
      exact hlen
    · exact h.length b slots' hlookup
  · intro b slots' hlookup
    dsimp only at hlookup ⊢
    rw [Assoc.lookup_insert_eq] at hlookup
    split at hlookup
    · rename_i heq
      rw [heq]
      exact hid
    · exact h.ids b slots' hlookup

theorem owned_withBlock (hnew : m.blockSlots.lookup blockId = none) :
    (m.withBlock blockId slots).owned = slots ++ m.owned := by
  unfold owned MetalPrefixCache.withBlock
  dsimp only
  rw [Assoc.values_insert, Assoc.erase_of_lookup_eq_none hnew, List.flatten_cons]

end Record

/-! ## The loop over the new blocks -/

theorem slotRange_add (slots : List Nat) (start a b : Nat) :
    slotRange slots start (a + b) = slotRange slots start a ++ slotRange slots (start + a) b := by
  unfold slotRange
  rw [List.take_add, List.drop_drop]

/-- The blocks `chunks` with their slots are recorded, under ids that were not given out before. -/
structure Recorded (m m' : MetalPrefixCache) (chunks : List (BlockId × List Nat)) : Prop where
  ledger : m'.Ledger
  radix : m'.radix = m.radix
  blockSize : m'.blockSize = m.blockSize
  lookup : ∀ b slots, m'.blockSlots.lookup b = some slots ↔
    m.blockSlots.lookup b = some slots ∨ (b, slots) ∈ chunks
  fresh : ∀ chunk ∈ chunks, m.nextBlockId.toNat ≤ chunk.1.val.toNat
  nodup : (chunks.map Prod.fst).Nodup
  owned : m'.owned.Perm (m.owned ++ (chunks.map Prod.snd).flatten)

section Loop

variable {m : MetalPrefixCache} {S : List Nat} {remaining blockIdx : Nat} {blocks : List BlockId}

theorem succ_toNat {n : UInt32} (h : n.toNat + 1 < 2 ^ 32) : (n + 1).toNat = n.toNat + 1 := by
  rw [UInt32.toNat_add]
  exact Nat.mod_eq_of_lt h

/-- With unowned slots and enough ids every block is recorded. -/
theorem recordNew_recorded (h : m.Ledger)
    (hlen : (blockIdx + remaining) * m.blockSize ≤ S.length) (hS : S.Nodup)
    (hfree : ∀ slot ∈ slotRange S (blockIdx * m.blockSize) (remaining * m.blockSize),
      m.slotToBlock.lookup slot = none)
    (hids : m.nextBlockId.toNat + remaining < 2 ^ 32) :
    ∃ chunks m', recordNew S remaining blockIdx m blocks =
        (.ok (blocks ++ chunks.map Prod.fst), m') ∧ m.Recorded m' chunks ∧
      chunks.length = remaining ∧
      (∀ j chunk, chunks[j]? = some chunk →
        chunk.2 = slotRange S ((blockIdx + j) * m.blockSize) m.blockSize) ∧
      (chunks.map Prod.snd).flatten =
        slotRange S (blockIdx * m.blockSize) (remaining * m.blockSize) := by
  induction remaining generalizing m blockIdx blocks with
  | zero =>
    refine ⟨[], m, ?_, ⟨h, rfl, rfl, ?_, ?_, List.nodup_nil, ?_⟩, rfl, ?_, ?_⟩
    · simp [recordNew]
    · simp
    · simp
    · simp
    · simp
    · simp [slotRange]
  | succ remaining ih =>
    have hnext : m.nextBlockId.toNat + 1 < 2 ^ 32 := by omega
    have hsplit : (remaining + 1) * m.blockSize = m.blockSize + remaining * m.blockSize := by
      rw [Nat.add_mul, Nat.one_mul, Nat.add_comm]
    have hstart : blockIdx * m.blockSize + m.blockSize = (blockIdx + 1) * m.blockSize := by
      rw [Nat.add_mul, Nat.one_mul]
    rw [hsplit, slotRange_add, hstart] at hfree ⊢
    -- The first block of the rest.
    generalize hchunk : slotRange S (blockIdx * m.blockSize) m.blockSize = chunk at hfree ⊢
    have hchunkLen : chunk.length = m.blockSize := by
      rw [← hchunk]
      unfold slotRange
      rw [List.length_take, List.length_drop]
      apply Nat.min_eq_left
      have hle : (blockIdx + 1) * m.blockSize ≤ S.length :=
        (Nat.mul_le_mul_right _ (by omega)).trans hlen
      omega
    have hdisjoint : ∀ slot ∈ slotRange S ((blockIdx + 1) * m.blockSize)
        (remaining * m.blockSize), slot ∉ chunk := by
      have hnodup : (slotRange S (blockIdx * m.blockSize) ((remaining + 1) * m.blockSize)).Nodup :=
        hS.sublist ((List.take_sublist _ _).trans (List.drop_sublist _ _))
      rw [hsplit, slotRange_add, hstart, hchunk] at hnodup
      exact fun slot hslot hin => (List.nodup_append'.mp hnodup).2.2 hin hslot
    let m₁ := { m with nextBlockId := m.nextBlockId + 1 }
    have hid : (⟨m.nextBlockId⟩ : BlockId).val.toNat < m₁.nextBlockId.toNat := by
      rw [succ_toNat hnext]
      exact Nat.lt_succ_self _
    have hledger : m₁.Ledger := by
      refine ⟨h.owner, h.length, fun b slots hlookup => ?_⟩
      exact (h.ids b slots hlookup).trans hid
    have hnew : m₁.blockSlots.lookup ⟨m.nextBlockId⟩ = none := by
      by_contra hsome
      obtain ⟨slots, hslots⟩ := Option.ne_none_iff_exists'.mp hsome
      exact lt_irrefl _ (h.ids _ _ hslots)
    have hchunkFree : ∀ slot ∈ chunk, m₁.slotToBlock.lookup slot = none :=
      fun slot hslot => hfree slot (List.mem_append_left _ hslot)
    have hrecord := recordBlock_new (m := m₁) hchunkLen hnew hchunkFree
    obtain ⟨chunks, m', hrun, hrec, hcount, hslots, hflat⟩ :=
      @ih (m₁.withBlock ⟨m.nextBlockId⟩ chunk) (blockIdx + 1) (blocks ++ [⟨m.nextBlockId⟩])
        (hledger.withBlock hchunkLen hid hnew hchunkFree)
        (by rw [Nat.add_right_comm, Nat.add_assoc]; exact hlen)
        (fun slot hslot => by
          change (chunk.foldl _ m.slotToBlock).lookup slot = none
          rw [Assoc.lookup_foldl_insert, if_neg (hdisjoint slot hslot)]
          exact hfree slot (List.mem_append_right _ hslot))
        (by
          change (m.nextBlockId + 1).toNat + remaining < 2 ^ 32
          rw [succ_toNat hnext]
          omega)
    have hfresh : ∀ c ∈ chunks, m.nextBlockId.toNat + 1 ≤ c.1.val.toNat := by
      intro c hc
      have hle := hrec.fresh c hc
      change (m.nextBlockId + 1).toNat ≤ _ at hle
      rw [succ_toNat hnext] at hle
      exact hle
    refine ⟨(⟨m.nextBlockId⟩, chunk) :: chunks, m', ?_, ?_, ?_, ?_, ?_⟩
    · rw [recordNew, if_pos hnext]
      dsimp only
      rw [hchunk, hrecord]
      dsimp only
      rw [hrun, List.append_assoc]
      rfl
    · refine ⟨hrec.ledger, hrec.radix, hrec.blockSize, ?_, ?_, ?_, ?_⟩
      · intro b slots
        rw [hrec.lookup]
        unfold withBlock
        dsimp only
        rw [Assoc.lookup_insert_eq, List.mem_cons]
        split
        · rename_i heq
          rw [heq, show m.blockSlots.lookup ⟨m.nextBlockId⟩ = none from hnew]
          simp [eq_comm]
        · rename_i hne
          simp only [Prod.mk.injEq, hne, false_and, false_or]
          exact .rfl
      · intro c hc
        rcases List.mem_cons.mp hc with rfl | hc
        · exact le_refl _
        · exact (Nat.le_succ _).trans (hfresh c hc)
      · rw [List.map_cons]
        refine List.nodup_cons.mpr ⟨fun hin => ?_, hrec.nodup⟩
        obtain ⟨c, hc, heq⟩ := List.mem_map.mp hin
        have hle := hfresh c hc
        rw [heq] at hle
        exact absurd hle (Nat.not_succ_le_self _)
      · apply hrec.owned.trans
        rw [owned_withBlock hnew, List.map_cons, List.flatten_cons]
        change (chunk ++ m.owned ++ _).Perm _
        rw [← List.append_assoc]
        exact List.perm_append_comm.append_right _
    · rw [List.length_cons, hcount]
    · intro j c hc
      cases j with
      | zero =>
        cases hc
        exact hchunk.symm
      | succ j =>
        rw [Nat.add_comm j 1, ← Nat.add_assoc]
        exact hslots j c hc
    · rw [List.map_cons, List.flatten_cons]
      exact congrArg _ hflat

/-- Nothing is recorded if the first block cannot be. -/
theorem recordNew_refused (h : m.Ledger)
    (hfirst : (∃ slot ∈ slotRange S (blockIdx * m.blockSize) m.blockSize,
      m.slotToBlock.lookup slot ≠ none) ∨ 2 ^ 32 ≤ m.nextBlockId.toNat + 1) :
    ∃ err next, recordNew S (remaining + 1) blockIdx m blocks =
        (.error err, { m with nextBlockId := next }) ∧
      m.nextBlockId.toNat ≤ next.toNat := by
  unfold recordNew
  dsimp only
  split
  · rename_i hnext
    have howned := hfirst.resolve_right (Nat.not_le.mpr hnext)
    have hid : m.nextBlockId.toNat < (m.nextBlockId + 1).toNat := by
      rw [succ_toNat hnext]
      exact Nat.lt_succ_self _
    have hledger : Ledger { m with nextBlockId := m.nextBlockId + 1 } :=
      ⟨h.owner, h.length, fun b slots hlookup => (h.ids b slots hlookup).trans hid⟩
    have hnew : m.blockSlots.lookup ⟨m.nextBlockId⟩ = none := by
      by_contra hsome
      obtain ⟨slots, hslots⟩ := Option.ne_none_iff_exists'.mp hsome
      exact lt_irrefl _ (h.ids _ _ hslots)
    obtain ⟨err, herr⟩ := recordBlock_owned hledger hnew howned
    rw [herr]
    exact ⟨err, _, rfl, hid.le⟩
  · exact ⟨_, m.nextBlockId, rfl, le_refl _⟩

end Loop

/-! ## Dropped blocks -/

section Drop

variable {m : MetalPrefixCache} {b : BlockId} {slots : List Nat}

/-- The cache without a block. -/
def withoutBlock (m : MetalPrefixCache) (b : BlockId) (slots : List Nat) : MetalPrefixCache :=
  { m with
    blockSlots := m.blockSlots.erase b
    slotToBlock := slots.foldl (fun map slot => map.erase slot) m.slotToBlock }

theorem Ledger.withoutBlock (h : m.Ledger) (hlookup : m.blockSlots.lookup b = some slots) :
    (m.withoutBlock b slots).Ledger := by
  have hold : ∀ b' slots', (m.blockSlots.erase b).lookup b' = some slots' →
      m.blockSlots.lookup b' = some slots' := by
    intro b' slots' hlookup'
    rw [Assoc.lookup_erase_eq] at hlookup'
    split at hlookup'
    · cases hlookup'
    · exact hlookup'
  unfold MetalPrefixCache.withoutBlock
  refine ⟨?_, fun b' slots' hb => h.length b' slots' (hold b' slots' hb),
    fun b' slots' hb => h.ids b' slots' (hold b' slots' hb)⟩
  intro slot b'
  dsimp only
  rw [Assoc.lookup_foldl_erase, Assoc.lookup_erase_eq]
  have hmine : slot ∈ slots ↔ m.slotToBlock.lookup slot = some b := by
    rw [h.owner]
    refine ⟨fun hslot => ⟨slots, hlookup, hslot⟩, ?_⟩
    rintro ⟨slots', hslots', hmem⟩
    rw [hlookup] at hslots'
    cases hslots'
    exact hmem
  split
  · rename_i hslot
    refine ⟨fun heq => (by cases heq), ?_⟩
    rintro ⟨slots', hslots', hmem⟩
    split at hslots'
    · cases hslots'
    · rename_i hne
      have hother := (h.owner slot b').mpr ⟨slots', hslots', hmem⟩
      rw [hmine.mp hslot] at hother
      exact absurd (Option.some.inj hother).symm hne
  · rename_i hslot
    rw [h.owner]
    apply exists_congr
    intro slots'
    split
    · rename_i heq
      rw [heq, hlookup]
      constructor
      · rintro ⟨heq', hmem⟩
        cases heq'
        exact absurd hmem hslot
      · rintro ⟨heq', _⟩
        cases heq'
    · exact .rfl

/-- The blocks `freed` are dropped and their slots returned. -/
structure Dropped (m m' : MetalPrefixCache) (freed : List BlockId) (returned : List Nat) :
    Prop where
  ledger : m'.Ledger
  radix : m'.radix = m.radix
  blockSize : m'.blockSize = m.blockSize
  nextBlockId : m'.nextBlockId = m.nextBlockId
  lookup : ∀ b slots, m'.blockSlots.lookup b = some slots ↔
    m.blockSlots.lookup b = some slots ∧ b ∉ freed
  owned : m.owned.Perm (returned ++ m'.owned)

theorem dropBlocks_spec (h : m.Ledger) {freed : List BlockId} (hnodup : freed.Nodup)
    (hfreed : ∀ b ∈ freed, m.blockSlots.lookup b ≠ none) (freedSlots : List Nat) :
    ∃ returned m', dropBlocks freed m freedSlots = (freedSlots ++ returned, m') ∧
      m.Dropped m' freed returned := by
  induction freed generalizing m freedSlots with
  | nil =>
    refine ⟨[], m, ?_, ⟨h, rfl, rfl, rfl, ?_, ?_⟩⟩
    · simp [dropBlocks]
    · simp
    · simp
  | cons b freed ih =>
    obtain ⟨hb, hnodup⟩ := List.nodup_cons.mp hnodup
    obtain ⟨slots, hslots⟩ := Option.ne_none_iff_exists'.mp (hfreed b List.mem_cons_self)
    obtain ⟨returned, m', hrun, hdropped⟩ := ih (h.withoutBlock hslots) hnodup
      (fun b' hb' => by
        change (m.blockSlots.erase b).lookup b' ≠ none
        rw [Assoc.lookup_erase_eq, if_neg (fun heq : b' = b => hb (heq ▸ hb'))]
        exact hfreed b' (List.mem_cons_of_mem b hb')) (freedSlots ++ slots)
    refine ⟨slots ++ returned, m', ?_, hdropped.ledger, hdropped.radix, hdropped.blockSize,
      hdropped.nextBlockId, ?_, ?_⟩
    · rw [dropBlocks, hslots]
      dsimp only
      rw [← List.append_assoc]
      exact hrun
    · intro b' slots'
      rw [hdropped.lookup]
      change (m.blockSlots.erase b).lookup b' = some slots' ∧ _ ↔ _
      rw [Assoc.lookup_erase_eq, List.mem_cons]
      split
      · rename_i heq
        simp [heq]
      · rename_i hne
        simp [hne]
    · have hperm := (Assoc.values_erase_perm hslots).flatten
      rw [List.flatten_cons] at hperm
      apply hperm.trans
      rw [List.append_assoc]
      exact hdropped.owned.append_left slots

end Drop

end Arle.Backend.Metal.MetalPrefixCache
