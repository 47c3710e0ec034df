import Arle.Lib.Tally
import Arle.Scheduler.Cuda.SessionSlots

/-!
# Session block references

`session_block_refs` counts how often the session slots name a block: every operation on the
slots keeps the table exact, as long as no count exceeds a `u32`. So a retag renames a block
wherever a slot names it, and the protected blocks are the blocks that the slots name.
-/

namespace Arle.Scheduler.Cuda.SessionState

open KvTier PrefixCache

/-- The blocks that the slots name, once for every time they are named. -/
def namedBlocks (s : SessionState) : List BlockId :=
  (Assoc.values s.sessionSlots).flatMap SessionSlot.blocks

def RefsCounted (s : SessionState) : Prop := Tally.Counts s.sessionBlockRefs s.namedBlocks

/-- The counts have room for the blocks of a publish, next to those of the other slots. -/
def PublishFits (s : SessionState) (sessionId : SessionId) (blocks : List BlockId) : Prop :=
  ∀ block ∈ blocks, (s.dropSessionSlot sessionId).namedBlocks.count block + blocks.count block ≤
    Word.maxVal 32

/-- The count of `new` has room for the occurrences of `old`. -/
def RetagFits (s : SessionState) (old new : BlockId) : Prop :=
  s.namedBlocks.count old + s.namedBlocks.count new ≤ Word.maxVal 32

variable {s : SessionState} {sessionId : SessionId}

theorem wrappingAdd_of_le_maxVal {a b : Nat} (h : a + b ≤ Word.maxVal 32) :
    Word.wrappingAdd 32 a b = a + b :=
  Word.wrappingAdd_of_lt (Nat.lt_of_le_of_lt h (by decide))

/-- Taking blocks out of the table, one after the other. -/
theorem foldl_pop_counts {m : Assoc BlockId Nat} {blocks l : List BlockId}
    (h : Tally.Counts m (blocks ++ l)) : Tally.Counts (blocks.foldl Tally.pop m) l := by
  induction blocks generalizing m with
  | nil => exact h
  | cons block blocks ih => exact ih h.pop

/-- Putting blocks into the table, one after the other, while no count overflows. -/
theorem foldl_add_counts {m : Assoc BlockId Nat} {blocks l : List BlockId}
    (h : Tally.Counts m l)
    (hfits : ∀ block ∈ blocks, l.count block + blocks.count block ≤ Word.maxVal 32) :
    Tally.Counts (blocks.foldl (fun refs block =>
      refs.insert block (Word.wrappingAdd 32 ((refs.lookup block).getD 0) 1)) m)
      (blocks ++ l) := by
  induction blocks generalizing m l with
  | nil => exact h
  | cons block blocks ih =>
    have hblock := hfits block List.mem_cons_self
    rw [List.count_cons_self] at hblock
    have hadd : m.insert block (Word.wrappingAdd 32 ((m.lookup block).getD 0) 1) =
        Tally.push m block := by
      rw [wrappingAdd_of_le_maxVal (by rw [h.getD]; omega)]
      rfl
    rw [List.foldl_cons, hadd]
    refine (ih (h.push block) fun b hb => ?_).perm List.perm_middle
    have := hfits b (List.mem_cons_of_mem _ hb)
    rw [List.count_cons] at this ⊢
    omega

/-- A slot that is in the index: its blocks, and those of the others. -/
theorem namedBlocks_perm {slot : SessionSlot}
    (hslot : s.sessionSlots.lookup sessionId = some slot) :
    s.namedBlocks.Perm (slot.blocks ++
      (Assoc.values (s.sessionSlots.erase sessionId)).flatMap SessionSlot.blocks) :=
  (Assoc.values_erase_perm hslot).flatMap_right _

theorem RefsCounted.dropSessionSlot (h : s.RefsCounted) (sessionId : SessionId) :
    (s.dropSessionSlot sessionId).RefsCounted := by
  unfold SessionState.dropSessionSlot
  split
  · exact h
  · rename_i slot hslot
    exact foldl_pop_counts (h.perm (namedBlocks_perm hslot))

theorem RefsCounted.publish (h : s.RefsCounted) {blocks : List BlockId} {committedLen : Nat}
    (hfits : s.PublishFits sessionId blocks) :
    (s.publishSessionSlot sessionId blocks committedLen).RefsCounted := by
  unfold publishSessionSlot
  split
  · exact h
  · have hdrop := h.dropSessionSlot sessionId
    have hnone : (s.dropSessionSlot sessionId).sessionSlots.lookup sessionId = none := by
      rw [dropSessionSlot_lookup, if_pos rfl]
    have hcounts := foldl_add_counts hdrop hfits
    unfold RefsCounted namedBlocks
    simp only [Assoc.values_insert, List.flatMap_cons]
    rw [show ((s.dropSessionSlot sessionId).addSessionBlockRefs blocks).sessionSlots =
      (s.dropSessionSlot sessionId).sessionSlots from rfl, Assoc.erase_of_lookup_eq_none hnone]
    exact hcounts

/-- A slot is replaced by one that names the same blocks. -/
theorem RefsCounted.replaceSlot (h : s.RefsCounted) {slot slot' : SessionSlot}
    (hslot : s.sessionSlots.lookup sessionId = some slot) (hblocks : slot'.blocks = slot.blocks) :
    RefsCounted { s with sessionSlots := s.sessionSlots.insert sessionId slot' } := by
  unfold RefsCounted namedBlocks
  simp only [Assoc.values_insert, List.flatMap_cons, hblocks]
  exact h.perm (namedBlocks_perm hslot)

theorem RefsCounted.lookup (h : s.RefsCounted) {promptLen : Nat} {heuristics : LookupHeuristics}
    {result : Option SessionSlotLookup} {s' : SessionState}
    (hcall : s.lookupSessionSlotOrStage sessionId promptLen heuristics = (result, s')) :
    s'.RefsCounted := by
  rcases lookupSessionSlotOrStage_cases hcall with
    ⟨-, rfl | rfl⟩ | ⟨-, slot, hslot, -, -, -, -, rfl⟩
  · exact h
  · exact h.dropSessionSlot sessionId
  · exact h.replaceSlot hslot rfl

theorem RefsCounted.release (h : s.RefsCounted) (hold : Option SessionSlotHold) :
    (s.releaseSessionSlotHold hold).RefsCounted := by
  unfold releaseSessionSlotHold
  split
  · exact h
  · split
    · exact h
    · rename_i slot hslot
      exact h.replaceSlot hslot rfl

theorem RefsCounted.releaseSessionSlots (h : s.RefsCounted) (candidates : List SessionId) :
    (s.releaseSessionSlots candidates).2.RefsCounted := by
  induction candidates generalizing s with
  | nil => exact h
  | cons sessionId candidates ih =>
    rw [SessionState.releaseSessionSlots]
    split
    · exact ih h
    · exact ih (h.dropSessionSlot sessionId)

theorem namedBlocks_retag (slots : Assoc SessionId SessionSlot) (old new : BlockId) :
    (Assoc.values (slots.mapValues (SessionSlot.retag old new))).flatMap SessionSlot.blocks =
      ((Assoc.values slots).flatMap SessionSlot.blocks).map
        fun block => if block = old then new else block := by
  rw [List.map_flatMap, Assoc.values, Assoc.mapValues, List.map_map, List.flatMap_map, Assoc.values,
    List.flatMap_map]
  rfl

theorem RefsCounted.retag (h : s.RefsCounted) {old new : BlockId} (hfits : s.RetagFits old new) :
    (s.retagSessionSlotBlock old new).RefsCounted := by
  unfold retagSessionSlotBlock
  split
  · exact h
  · rename_i count hold
    unfold RefsCounted namedBlocks
    dsimp only
    rw [namedBlocks_retag, wrappingAdd_of_le_maxVal]
    · exact h.rename hold new
    · rw [Assoc.lookup_erase_eq, h.lookup_eq_some hold]
      have := h.getD new
      unfold RetagFits at hfits
      split
      · rw [Option.getD_none]
        omega
      · omega

/-- A retag renames a block wherever a slot names it. -/
theorem RefsCounted.retag_lookup (h : s.RefsCounted) (old new : BlockId) (id : SessionId) :
    (s.retagSessionSlotBlock old new).sessionSlots.lookup id =
      (s.sessionSlots.lookup id).map (SessionSlot.retag old new) := by
  unfold retagSessionSlotBlock
  split
  · rename_i hnone
    -- no slot names the block
    cases hslot : s.sessionSlots.lookup id with
    | none => rfl
    | some slot =>
      have hold : old ∉ slot.blocks := fun hmem => h.lookup_eq_none.mp hnone
        ((namedBlocks_perm hslot).symm.subset (List.mem_append_left _ hmem))
      have hsame : slot.blocks.map (fun block => if block = old then new else block) =
          slot.blocks := by
        refine (List.map_congr_left fun block hblock => ?_).trans (List.map_id _)
        exact if_neg fun heq : block = old => hold (heq ▸ hblock)
      rw [Option.map_some, SessionSlot.retag, hsame]
  · exact Assoc.lookup_mapValues _ _ _

end Arle.Scheduler.Cuda.SessionState
