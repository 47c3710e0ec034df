import Mathlib
import Arle.Backend.Metal.PrefixBridge

/-!
# Every slot is attached to one block

Runs of the cache together with the map of the slots that insertions attached, all slots ever
recorded and all slots that evictions returned. If every insertion can record all its missing blocks
or fails before it records one, no slot is lost.
-/

namespace Arle.Backend.Metal

open Arle.KvTier Arle.PrefixCache WindowMap

/-- `attached`, `recorded` and `returned` are records of the run. -/
structure PrefixBridge where
  cache : MetalPrefixCache
  attached : WindowMap Token (List Nat)
  recorded : List Nat
  returned : List Nat

inductive PrefixOp
  | insert (tokens : List Token) (slotIndices : List Nat)
  | lookup (tokens : List Token)
  | release (slotIndices : List Nat)
  | evict (n : Nat)

/-- The slots that belong to a block after a call and to none before it. -/
def newlyOwned (before after : MetalPrefixCache) (slots : List Nat) : List Nat :=
  slots.filter fun slot =>
    (before.slotToBlock.lookup slot).isNone && (after.slotToBlock.lookup slot).isSome

namespace PrefixBridge

inductive Step : PrefixBridge → PrefixOp → PrefixBridge → Prop
  | inserted {s : PrefixBridge} {tokens : List Token} {slotIndices : List Nat} {n : Nat}
      {cache : MetalPrefixCache} (hlen : tokens.length = slotIndices.length)
      (hnodup : slotIndices.Nodup)
      (hinsert : s.cache.insert tokens slotIndices = some (.ok n, cache)) :
      Step s (.insert tokens slotIndices)
        { s with
          cache
          attached := record s.cache.blockSize tokens (s.cache.slotWindows slotIndices) s.attached
          recorded := s.recorded ++ newlyOwned s.cache cache slotIndices }
  | refused {s : PrefixBridge} {tokens : List Token} {slotIndices : List Nat} {err : String}
      {cache : MetalPrefixCache} (hlen : tokens.length = slotIndices.length)
      (hnodup : slotIndices.Nodup)
      (hinsert : s.cache.insert tokens slotIndices = some (.error err, cache)) :
      Step s (.insert tokens slotIndices)
        { s with cache, recorded := s.recorded ++ newlyOwned s.cache cache slotIndices }
  | lookup {s : PrefixBridge} {tokens : List Token} {result : Except String MetalPrefixHit}
      {cache : MetalPrefixCache} (hlookup : s.cache.lookup tokens = some (result, cache)) :
      Step s (.lookup tokens) { s with cache }
  | release {s : PrefixBridge} {slotIndices : List Nat} :
      Step s (.release slotIndices) { s with cache := (s.cache.release slotIndices).2 }
  | evict {s : PrefixBridge} {n : Nat} :
      Step s (.evict n)
        { s with
          cache := (s.cache.evict n).2
          attached := MetalPrefixCache.detachFreed s.attached (s.cache.evict n).1
          returned := s.returned ++ (s.cache.evict n).1 }

def Initial (size : Nat) (s : PrefixBridge) : Prop :=
  MetalPrefixCache.new size = some s.cache ∧ s.attached = (fun _ => none) ∧ s.recorded = [] ∧
    s.returned = []

/-- Insertions are clean. -/
def Clean (s : PrefixBridge) : PrefixOp → Prop
  | .insert tokens slotIndices => s.cache.CleanInsert tokens slotIndices
  | _ => True

/-- The cache stands for the attached slots, and no recorded slot is lost. -/
structure Balanced (size : Nat) (s : PrefixBridge) : Prop where
  bridged : s.cache.Bridged s.attached
  blockSize : s.cache.blockSize = size
  recorded : s.recorded.Perm (s.returned ++ s.cache.owned)

theorem newlyOwned_stable {m m' : MetalPrefixCache} (h : MetalPrefixCache.Stable m m')
    (slots : List Nat) : newlyOwned m m' slots = [] := by
  unfold newlyOwned
  rw [h.slotToBlock, List.filter_eq_nil_iff]
  intro slot _
  cases m.slotToBlock.lookup slot with
  | none => simp
  | some b => simp

theorem newlyOwned_perm {m m' : MetalPrefixCache} {slots new : List Nat} (hnodup : slots.Nodup)
    (hnew : new.Nodup)
    (hmem : ∀ slot, slot ∈ new ↔
      slot ∈ slots ∧ m.slotToBlock.lookup slot = none ∧ m'.slotToBlock.lookup slot ≠ none) :
    (newlyOwned m m' slots).Perm new := by
  unfold newlyOwned
  rw [List.perm_ext_iff_of_nodup (hnodup.filter _) hnew]
  intro slot
  rw [hmem, List.mem_filter, Bool.and_eq_true, Option.isNone_iff_eq_none, Option.isSome_iff_ne_none]

section Steps

variable {size : Nat} {s t : PrefixBridge}

theorem Balanced.stable {cache : MetalPrefixCache} (h : s.Balanced size)
    (hstable : MetalPrefixCache.Stable s.cache cache) : Balanced size { s with cache } where
  bridged := h.bridged.stable hstable
  blockSize := hstable.blockSize.trans h.blockSize
  recorded := by
    dsimp only
    rw [hstable.owned]
    exact h.recorded

theorem balanced_start (h : Initial size s) : s.Balanced size := by
  obtain ⟨hcache, hattached, hrecorded, hreturned⟩ := h
  obtain ⟨hbridged, hsize, howned⟩ := MetalPrefixCache.bridged_new hcache
  refine ⟨?_, hsize, ?_⟩
  · rw [hattached]
    exact hbridged
  · rw [hrecorded, hreturned, howned]
    exact .refl _

theorem balanced_step (size : Nat) : Preserved (guarded Clean Step) (Balanced size) := by
  rintro s op t h ⟨hclean, hstep⟩
  cases hstep with
  | @inserted tokens slots n cache hlen hnodup hinsert =>
    obtain ⟨result, m', hresult, ⟨err, rfl, -⟩ | ⟨n', new, rfl, hsize, hbridged, howned, hnew,
      hmem⟩⟩ :=
      h.bridged.insert hlen hnodup hclean
    · rw [hinsert] at hresult
      cases hresult
    · obtain rfl : cache = m' := (Prod.mk.inj (Option.some.inj (hinsert.symm.trans hresult))).2
      refine ⟨hbridged, hsize.trans h.blockSize, ?_⟩
      · dsimp only
        apply ((h.recorded.append_right _).trans
          ((newlyOwned_perm hnodup hnew hmem).append_left _)).trans
        rw [List.append_assoc]
        exact howned.symm.append_left _
  | @refused tokens slots err cache hlen hnodup hinsert =>
    obtain ⟨result, m', hresult, ⟨err', rfl, hstable⟩ | ⟨n, new, rfl, -⟩⟩ :=
      h.bridged.insert hlen hnodup hclean
    · obtain rfl : cache = m' := (Prod.mk.inj (Option.some.inj (hinsert.symm.trans hresult))).2
      rw [newlyOwned_stable hstable, List.append_nil]
      exact h.stable hstable
    · rw [hinsert] at hresult
      cases hresult
  | @lookup tokens result cache hlookup =>
    obtain ⟨k, m', -, hresult, hstable⟩ := h.bridged.lookup tokens
    obtain rfl : cache = m' := (Prod.mk.inj (Option.some.inj (hlookup.symm.trans hresult))).2
    exact h.stable hstable
  | release => exact h.stable (h.bridged.release _)
  | @evict n =>
    obtain ⟨hbridged, hsize, -, howned⟩ := h.bridged.evict n
    refine ⟨hbridged, hsize.trans h.blockSize, ?_⟩
    dsimp only
    rw [List.append_assoc]
    exact h.recorded.trans (howned.append_left _)

end Steps

/-! ## The law -/

/-- No slot is lost and none belongs to two blocks. -/
structure SlotLaw (size : Nat) (s : PrefixBridge) : Prop where
  keys : ∀ b, s.cache.blockSlots.lookup b ≠ none ↔ s.cache.radix.blockIndex.lookup b ≠ none
  owner : ∀ slot b, s.cache.slotToBlock.lookup slot = some b ↔
    ∃ slots, s.cache.blockSlots.lookup b = some slots ∧ slot ∈ slots
  /-- A lookup returns the slots attached to the longest attached prefix. -/
  lookup : ∀ q, ∃ k cache, IsGreatest {k | Covered size s.attached q k} k ∧
    s.cache.lookup q = some (.ok {
      matchedLen := k * size
      slotIndices := (List.range k).flatMap fun i =>
        (s.attached (q.take ((i + 1) * size))).getD [] }, cache)
  /-- Every recorded slot was returned once, or belongs to one block still. -/
  balance : s.recorded.Perm (s.returned ++ s.cache.owned) ∧ s.cache.owned.Nodup
  /-- An eviction returns the slots of the blocks that leave, each once. -/
  evict : ∀ n, (s.cache.evict n).1.Nodup ∧ ∀ slot, slot ∈ (s.cache.evict n).1 ↔
    ∃ b, s.cache.slotToBlock.lookup slot = some b ∧
      (s.cache.evict n).2.radix.blockIndex.lookup b = none
  /-- An insertion that fails leaves the maps as they were. -/
  insert : ∀ tokens slotIndices, tokens.length = slotIndices.length → slotIndices.Nodup →
    s.cache.CleanInsert tokens slotIndices →
    ∃ result cache, s.cache.insert tokens slotIndices = some (result, cache) ∧
      ∀ err, result = .error err →
        cache.blockSlots = s.cache.blockSlots ∧ cache.slotToBlock = s.cache.slotToBlock ∧
        cache.radix.blockIndex = s.cache.radix.blockIndex

/-- The slots that an eviction returns. -/
theorem evict_slots {m : MetalPrefixCache} {attached : WindowMap Token (List Nat)}
    (h : m.Bridged attached) (n : Nat) :
    (m.evict n).1.Nodup ∧ ∀ slot, slot ∈ (m.evict n).1 ↔
      ∃ b, m.slotToBlock.lookup slot = some b ∧
        (m.evict n).2.radix.blockIndex.lookup b = none := by
  obtain ⟨h', -, hold, howned⟩ := h.evict n
  obtain ⟨hfreed, -, hdisjoint⟩ := List.nodup_append'.mp (howned.nodup_iff.mp h.nodup)
  refine ⟨hfreed, fun slot => ?_⟩
  -- The block of a slot stays exactly if the slot stays.
  have hstays : ∀ b, m.slotToBlock.lookup slot = some b →
      (slot ∈ (m.evict n).2.owned ↔ (m.evict n).2.radix.blockIndex.lookup b ≠ none) := by
    intro b hb
    rw [h'.ledger.mem_owned, ← h'.index_iff, Option.ne_none_iff_exists',
      Option.ne_none_iff_exists']
    obtain ⟨slots, hslots, hmem⟩ := (h.ledger.owner slot b).mp hb
    constructor
    · rintro ⟨b', hb'⟩
      obtain ⟨slots', hslots', hmem'⟩ := (h'.ledger.owner slot b').mp hb'
      have hsame := (h.ledger.owner slot b').mpr ⟨slots', hold b' slots' hslots', hmem'⟩
      rw [hb] at hsame
      exact ⟨slots', Option.some.inj hsame ▸ hslots'⟩
    · rintro ⟨slots', hslots'⟩
      have hsame := hold b slots' hslots'
      rw [hslots] at hsame
      exact ⟨b, (h'.ledger.owner slot b).mpr ⟨slots', hslots', Option.some.inj hsame ▸ hmem⟩⟩
  constructor
  · intro hin
    obtain ⟨b, hb⟩ := Option.ne_none_iff_exists'.mp
      (h.ledger.mem_owned.mp (howned.mem_iff.mpr (List.mem_append_left _ hin)))
    refine ⟨b, hb, ?_⟩
    by_contra hne
    exact hdisjoint hin ((hstays b hb).mpr hne)
  · rintro ⟨b, hb, hnone⟩
    have hin : slot ∈ m.owned := h.ledger.mem_owned.mpr (by rw [hb]; simp)
    refine (List.mem_append.mp (howned.mem_iff.mp hin)).resolve_right fun hkept => ?_
    exact (hstays b hb).mp hkept hnone

/-- In every run whose insertions are clean. -/
theorem slot_law {size : Nat} {s : PrefixBridge}
    (h : Reachable (Initial size) (guarded Clean Step) s) : s.SlotLaw size := by
  obtain ⟨hbridged, hsize, hrecorded⟩ : s.Balanced size :=
    h.invariant (fun _ => balanced_start) (balanced_step size)
  refine ⟨hbridged.index_iff, hbridged.ledger.owner, fun q => ?_, ⟨hrecorded, hbridged.nodup⟩,
    evict_slots hbridged, fun tokens slots hlen hnodup hclean => ?_⟩
  · obtain ⟨k, cache, hk, hlookup, -⟩ := hbridged.lookup q
    rw [hsize] at hk hlookup
    exact ⟨k, cache, hk, hlookup⟩
  · obtain ⟨result, cache, hinsert, ⟨err, rfl, hstable⟩ | ⟨n, new, rfl, -⟩⟩ :=
      hbridged.insert hlen hnodup hclean
    · exact ⟨_, cache, hinsert, fun _ _ =>
        ⟨hstable.blockSlots, hstable.slotToBlock, hstable.radix.index⟩⟩
    · exact ⟨_, cache, hinsert, fun err herr => (by cases herr)⟩

/-- Two blocks of one slot each, and the eviction of the lower one. -/
theorem slot_law_two : ∃ s : PrefixBridge, s.recorded = [5, 6] ∧ s.returned = [6] ∧
    s.SlotLaw 1 := by
  obtain ⟨c₀, h₀, c₁, h₁, hnew, hevict⟩ : ∃ c₀, MetalPrefixCache.new 1 = some c₀ ∧
      ∃ c₁, c₀.insert [1, 2] [5, 6] = some (.ok 2, c₁) ∧ newlyOwned c₀ c₁ [5, 6] = [5, 6] ∧
        (c₁.evict 1).1 = [6] :=
    ⟨_, rfl, _, rfl, by decide +kernel, by decide +kernel⟩
  have hclean : c₀.CleanInsert [1, 2] [5, 6] := by
    obtain ⟨radix, hradix, rfl⟩ := Option.map_eq_some_iff.mp h₀
    obtain ⟨-, rfl⟩ := RadixCache.new_eq hradix
    refine .inl fun i _ => ⟨fun slot _ => rfl, ?_, List.nodup_nil⟩
    change 0 + (2 / 1 - i) < 2 ^ 32
    omega
  have hstart : Reachable (Initial 1) (guarded Clean Step) ⟨c₀, fun _ => none, [], []⟩ :=
    Reachable.start ⟨h₀, rfl, rfl, rfl⟩
  have hinserted := hstart.next (a := PrefixOp.insert [1, 2] [5, 6])
    (And.intro hclean (.inserted rfl (by decide) h₁))
  have hevicted := hinserted.next (a := PrefixOp.evict 1) (And.intro trivial .evict)
  exact ⟨_, hnew, hevict, slot_law hevicted⟩

/-- The second insertion fails at its second block, whose slot is taken; its first one stays in
`block_slots`. -/
theorem failed_insert_leaks : ∃ s : PrefixBridge, Reachable (Initial 1) Step s ∧
    s.cache.blockSlots.lookup ⟨1⟩ = some [6] ∧ s.cache.radix.blockIndex.lookup ⟨1⟩ = none ∧
    ¬ s.SlotLaw 1 := by
  obtain ⟨c₀, h₀, c₁, h₁, err, c₂, h₂, hslots, hindex⟩ : ∃ c₀, MetalPrefixCache.new 1 = some c₀ ∧
      ∃ c₁, c₀.insert [1] [5] = some (.ok 1, c₁) ∧
      ∃ err c₂, c₁.insert [2, 3] [6, 5] = some (.error err, c₂) ∧
        c₂.blockSlots.lookup ⟨1⟩ = some [6] ∧ c₂.radix.blockIndex.lookup ⟨1⟩ = none :=
    ⟨_, rfl, _, rfl, _, _, rfl, by decide +kernel, by decide +kernel⟩
  have hstart : Reachable (Initial 1) Step ⟨c₀, fun _ => none, [], []⟩ :=
    Reachable.start ⟨h₀, rfl, rfl, rfl⟩
  have hinserted := hstart.next (a := .insert [1] [5]) (.inserted rfl (by decide) h₁)
  have hrefused := hinserted.next (a := .insert [2, 3] [6, 5]) (.refused rfl (by decide) h₂)
  refine ⟨_, hrefused, hslots, hindex, fun hlaw => ?_⟩
  have hkey := (hlaw.keys ⟨1⟩).mp (by rw [hslots]; simp)
  exact hkey hindex

end PrefixBridge

end Arle.Backend.Metal
