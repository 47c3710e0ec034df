import Arle.Lib.Run
import Arle.PrefixCache.Insert
import Arle.Scheduler.Cuda.SessionSlots

/-!
# Session holds

The holds that `lookup_session_slot_or_stage` hands out protect the blocks of their session
until they are released. The ghost state is the list of the holds that are not released.

A publish starts a new count for its session, so the counts are right in every run in which
a session is published while none of its holds is out.
-/

namespace Arle.Scheduler.Cuda

open KvTier PrefixCache

/-- The session slots with the holds that are out. -/
structure HoldState where
  state : SessionState
  holds : List SessionSlotHold

namespace HoldState

inductive HoldOp
  | publish (sessionId : SessionId) (blocks : List BlockId) (committedLen : Nat)
  | lookup (sessionId : SessionId) (promptLen : Nat) (heuristics : LookupHeuristics)
  | release (hold : Option SessionSlotHold)
  | pressure (mode : PressureMode) (maxSlots : Nat) (tierFilter : Option Tier)
  | retag (old new : BlockId)
  /-- Whatever the rest of the scheduler does to the radix cache. -/
  | prefixCache (cache : RadixCache)

/-- One operation. Only a hold that is out is released. -/
inductive HoldStep : HoldState → HoldOp → HoldState → Prop
  | publish (h : HoldState) (sessionId : SessionId) (blocks : List BlockId) (committedLen : Nat) :
      HoldStep h (.publish sessionId blocks committedLen)
        ⟨h.state.publishSessionSlot sessionId blocks committedLen, h.holds⟩
  | lookup (h : HoldState) {sessionId : SessionId} {promptLen : Nat}
      {heuristics : LookupHeuristics} {result : Option SessionSlotLookup} {s' : SessionState}
      (hcall : h.state.lookupSessionSlotOrStage sessionId promptLen heuristics = (result, s')) :
      HoldStep h (.lookup sessionId promptLen heuristics)
        ⟨s', (result.map SessionSlotLookup.hold).toList ++ h.holds⟩
  | release (h : HoldState) {hold : SessionSlotHold} (hout : hold ∈ h.holds) :
      HoldStep h (.release (some hold))
        ⟨h.state.releaseSessionSlotHold (some hold), h.holds.erase hold⟩
  | releaseNone (h : HoldState) :
      HoldStep h (.release none) ⟨h.state.releaseSessionSlotHold none, h.holds⟩
  | pressure (h : HoldState) (mode : PressureMode) (maxSlots : Nat) (tierFilter : Option Tier) :
      HoldStep h (.pressure mode maxSlots tierFilter)
        ⟨(h.state.evictInactiveSessionSlotsForPressure mode maxSlots tierFilter).2, h.holds⟩
  | retag (h : HoldState) (old new : BlockId) :
      HoldStep h (.retag old new) ⟨h.state.retagSessionSlotBlock old new, h.holds⟩
  | prefixCache (h : HoldState) (cache : RadixCache) :
      HoldStep h (.prefixCache cache) ⟨{ h.state with prefixCache := cache }, h.holds⟩

/-- A scheduler starts without session slots. -/
def Initial (h : HoldState) : Prop :=
  h.state.sessionSlots = ∅ ∧ h.state.sessionBlockRefs = ∅ ∧ h.holds = []

/-- What a hold promises. -/
structure Protected (h : HoldState) : Prop where
  refCount : ∀ sessionId slot, h.state.sessionSlots.lookup sessionId = some slot →
    slot.refCount = h.holds.count ⟨sessionId⟩
  active : ∀ sessionId slot, h.state.sessionSlots.lookup sessionId = some slot →
    ⟨sessionId⟩ ∈ h.holds → ∀ block ∈ slot.blocks, h.state.blockHasActiveSessionRef block = true
  spared : ∀ sessionId, ⟨sessionId⟩ ∈ h.holds →
    ∀ (now minIdleTicks maxSlots : Nat) (slotMatchesPressure : SessionSlot → Bool),
      sessionId ∉ inactiveSessionSlotEvictionCandidates h.state.sessionSlots now minIdleTicks
        maxSlots slotMatchesPressure

/-- The operation does not start a new count for a session whose holds are out, and takes no
hold that the count of the session has no room for. -/
def CountsHolds (h : HoldState) : HoldOp → Prop
  | .publish sessionId blocks committedLen =>
    blocks ≠ [] → committedLen ≠ 0 → ⟨sessionId⟩ ∉ h.holds
  | .lookup sessionId promptLen _ =>
    h.state.Resumes sessionId promptLen → h.holds.count ⟨sessionId⟩ < Word.maxVal 32
  | _ => True

/-- The counts of the slots are the numbers of holds. -/
def Counted (h : HoldState) : Prop :=
  ∀ sessionId slot, h.state.sessionSlots.lookup sessionId = some slot →
    slot.refCount = h.holds.count ⟨sessionId⟩

variable {h h' : HoldState}

theorem Counted.protected (hcount : h.Counted) : h.Protected where
  refCount := hcount
  active sessionId slot hslot hout block hblock :=
    SessionState.blockHasActiveSessionRef_iff.mpr ⟨sessionId, slot, hslot, by
      rw [hcount sessionId slot hslot]
      exact List.count_pos_iff.mpr hout, hblock⟩
  spared sessionId hout now minIdleTicks maxSlots slotMatchesPressure hmem := by
    obtain ⟨slot, hslot, hzero⟩ := SessionState.mem_inactiveSessionSlotEvictionCandidates hmem
    rw [hcount sessionId slot hslot] at hzero
    exact List.count_eq_zero.mp hzero hout

/-- Slots that are dropped or keep their counts. -/
theorem Counted.mono (hcount : h.Counted) {s' : SessionState}
    (hslots : ∀ sessionId slot', s'.sessionSlots.lookup sessionId = some slot' →
      ∃ slot, h.state.sessionSlots.lookup sessionId = some slot ∧
        slot'.refCount = slot.refCount) : Counted ⟨s', h.holds⟩ := by
  intro sessionId slot' hslot'
  obtain ⟨slot, hslot, hsame⟩ := hslots sessionId slot' hslot'
  exact hsame.trans (hcount sessionId slot hslot)

theorem Counted.publish (hcount : h.Counted) {sessionId : SessionId} {blocks : List BlockId}
    {committedLen : Nat}
    (hfree : blocks ≠ [] → committedLen ≠ 0 → ⟨sessionId⟩ ∉ h.holds) :
    Counted ⟨h.state.publishSessionSlot sessionId blocks committedLen, h.holds⟩ := by
  by_cases hnoop : blocks = [] ∨ committedLen = 0
  · rw [SessionState.publishSessionSlot, if_pos hnoop]
    exact hcount
  · obtain ⟨hblocks, hlen⟩ := not_or.mp hnoop
    intro id slot hslot
    dsimp only at hslot
    rw [SessionState.publishSessionSlot_lookup hblocks hlen] at hslot
    split at hslot
    · rename_i hid
      cases hslot
      rw [hid]
      exact (List.count_eq_zero.mpr (hfree hblocks hlen)).symm
    · exact hcount id slot hslot

theorem Counted.dropSessionSlot (hcount : h.Counted) (sessionId : SessionId) :
    Counted ⟨h.state.dropSessionSlot sessionId, h.holds⟩ := by
  refine hcount.mono fun id slot hslot => ?_
  rw [SessionState.dropSessionSlot_lookup] at hslot
  split at hslot
  · cases hslot
  · exact ⟨slot, hslot, rfl⟩

theorem Counted.lookup (hcount : h.Counted) {sessionId : SessionId} {promptLen : Nat}
    {heuristics : LookupHeuristics} {result : Option SessionSlotLookup} {s' : SessionState}
    (hcall : h.state.lookupSessionSlotOrStage sessionId promptLen heuristics = (result, s'))
    (hroom : h.state.Resumes sessionId promptLen →
      h.holds.count ⟨sessionId⟩ < Word.maxVal 32) :
    Counted ⟨s', (result.map SessionSlotLookup.hold).toList ++ h.holds⟩ := by
  rcases SessionState.lookupSessionSlotOrStage_cases hcall with
    ⟨rfl, rfl | rfl⟩ | ⟨hresumes, slot, hslot, blockCount, -, -, rfl, rfl⟩
  · exact hcount
  · exact hcount.dropSessionSlot sessionId
  · intro id slot' hslot'
    have hread := (Assoc.lookup_insert_eq _ _ _ _).symm.trans hslot'
    split at hread
    · rename_i hid
      cases hread
      have hroom := hroom hresumes
      dsimp only [Option.map_some, Option.toList_some, List.singleton_append]
      rw [hid, List.count_cons_self, hcount sessionId slot hslot, Word.saturatingAdd,
        Nat.min_eq_left hroom]
    · rename_i hid
      refine (hcount id slot' hread).trans (List.count_cons_of_ne ?_).symm
      exact fun heq => hid (congrArg SessionSlotHold.sessionId heq).symm

theorem Counted.release (hcount : h.Counted) (hold : SessionSlotHold) :
    Counted ⟨h.state.releaseSessionSlotHold (some hold), h.holds.erase hold⟩ := by
  intro id slot' hslot'
  dsimp only at hslot' ⊢
  rw [SessionState.releaseSessionSlotHold_lookup] at hslot'
  split at hslot'
  · rename_i hid
    obtain ⟨slot, hslot, rfl⟩ := Option.map_eq_some_iff.mp hslot'
    rw [hid, List.count_erase_self]
    exact congrArg (· - 1) (hid ▸ hcount id slot hslot)
  · rename_i hid
    rw [List.count_erase_of_ne fun heq => hid (congrArg SessionSlotHold.sessionId heq)]
    exact hcount id slot' hslot'

theorem Counted.pressure (hcount : h.Counted) (mode : PressureMode) (maxSlots : Nat)
    (tierFilter : Option Tier) :
    Counted ⟨(h.state.evictInactiveSessionSlotsForPressure mode maxSlots tierFilter).2,
      h.holds⟩ := by
  refine hcount.mono fun id slot hslot => ?_
  rw [SessionState.evictInactiveSessionSlotsForPressure,
    SessionState.releaseSessionSlots_lookup] at hslot
  split at hslot
  · cases hslot
  · exact ⟨slot, hslot, rfl⟩

theorem Counted.retag (hcount : h.Counted) (old new : BlockId) :
    Counted ⟨h.state.retagSessionSlotBlock old new, h.holds⟩ := by
  unfold SessionState.retagSessionSlotBlock
  split
  · exact hcount
  · refine hcount.mono fun id slot' hslot' => ?_
    obtain ⟨slot, hslot, rfl⟩ :=
      Option.map_eq_some_iff.mp ((Assoc.lookup_mapValues _ _ _).symm.trans hslot')
    exact ⟨slot, hslot, rfl⟩

/-- One operation keeps the counts. -/
theorem counted_step : Preserved (guarded CountsHolds HoldStep) Counted := by
  rintro h op h' hcount ⟨hguard, hstep⟩
  cases hstep with
  | publish => exact hcount.publish hguard
  | lookup hcall => exact hcount.lookup hcall hguard
  | release hout => exact hcount.release _
  | releaseNone => exact hcount
  | pressure mode maxSlots tierFilter => exact hcount.pressure mode maxSlots tierFilter
  | retag old new => exact hcount.retag old new
  | prefixCache => exact hcount

theorem Initial.counted (h0 : h.Initial) : h.Counted := by
  intro sessionId slot hslot
  rw [h0.1] at hslot
  cases hslot

/-- A session of one block, published and looked up: its hold is out. -/
theorem oneTurn_run : ∃ h : HoldState,
    Reachable Initial (guarded CountsHolds HoldStep) h ∧ h.holds = [⟨⟨"a"⟩⟩] := by
  obtain ⟨c₀, hc₀⟩ : ∃ c, RadixCache.new 1 = some c := ⟨_, rfl⟩
  obtain ⟨c, hc⟩ : ∃ c, c₀.insertWithFingerprints [1] [⟨7⟩] [⟨0⟩] = some (1, c) := by
    cases hc₀
    exact ⟨_, rfl⟩
  obtain ⟨s, hs⟩ : ∃ s, s = (⟨c, ∅, ∅, 0⟩ : SessionState).publishSessionSlot ⟨"a"⟩ [⟨7⟩] 1 :=
    ⟨_, rfl⟩
  obtain ⟨found, s', hcall, hhold⟩ : ∃ found s',
      s.lookupSessionSlotOrStage ⟨"a"⟩ 1 ⟨fun _ _ _ => false⟩ = (some found, s') ∧
        found.hold = ⟨⟨"a"⟩⟩ := by
    cases hc₀
    cases hc
    subst hs
    exact ⟨_, _, rfl, rfl⟩
  have hstart : Reachable Initial (guarded CountsHolds HoldStep) ⟨s, []⟩ := by
    rw [hs]
    exact Reachable.next (s := ⟨⟨c, ∅, ∅, 0⟩, []⟩) (Reachable.start ⟨rfl, rfl, rfl⟩)
      (a := .publish ⟨"a"⟩ [⟨7⟩] 1) ⟨fun _ _ => List.not_mem_nil, HoldStep.publish _ ⟨"a"⟩ [⟨7⟩] 1⟩
  refine ⟨⟨s', [⟨⟨"a"⟩⟩]⟩, ?_, rfl⟩
  have hroom : CountsHolds ⟨s, []⟩ (.lookup ⟨"a"⟩ 1 ⟨fun _ _ _ => false⟩) := by
    intro _
    rw [List.count_nil]
    decide
  have hnext := Reachable.next hstart (t := ⟨s', [found.hold]⟩)
    ⟨hroom, HoldStep.lookup ⟨s, []⟩ hcall⟩
  rwa [hhold] at hnext

/-- In every run in which no session is published over a hold that is out, and no count
overflows, the holds protect the blocks of their sessions. -/
theorem holds_protect (h : HoldState)
    (hrun : Reachable Initial (guarded CountsHolds HoldStep) h) : h.Protected :=
  (hrun.invariant (fun _ h0 => h0.counted) counted_step).protected

/-- The hold of one turn protects its block. -/
theorem holds_protect_turn : ∃ h : HoldState, h.holds = [⟨⟨"a"⟩⟩] ∧ h.Protected := by
  obtain ⟨h, hrun, hholds⟩ := oneTurn_run
  exact ⟨h, hholds, holds_protect h hrun⟩

/-- A second turn of the session publishes while the hold of the first one is out: the block is
no longer protected, and pressure may release it. -/
theorem holds_protect_fails : ∃ h : HoldState, Reachable Initial HoldStep h ∧
    h.holds = [⟨⟨"a"⟩⟩] ∧ h.state.blockHasActiveSessionRef ⟨7⟩ = false ∧
      (∃ slot, h.state.sessionSlots.lookup ⟨"a"⟩ = some slot ∧ slot.blocks = [⟨7⟩] ∧
        slot.refCount = 0) ∧
      ¬ h.Protected := by
  obtain ⟨h, hrun, hholds⟩ := oneTurn_run
  have hcount := hrun.invariant (fun _ h0 => h0.counted) counted_step
  have hblocks : [(⟨7⟩ : BlockId)] ≠ [] := List.cons_ne_nil _ _
  have hslots := SessionState.publishSessionSlot_lookup hblocks Nat.one_ne_zero h.state ⟨"a"⟩
  refine ⟨⟨h.state.publishSessionSlot ⟨"a"⟩ [⟨7⟩] 1, h.holds⟩,
    Reachable.next (hrun.mono fun _ _ _ hstep => hstep.2) (HoldStep.publish h ⟨"a"⟩ [⟨7⟩] 1),
    hholds, ?_, ⟨_, (hslots _).trans (if_pos rfl), rfl, rfl⟩, fun hprotected => ?_⟩
  · rw [Bool.eq_false_iff]
    intro hactive
    obtain ⟨id, slot, hslot, hpos, -⟩ := SessionState.blockHasActiveSessionRef_iff.mp hactive
    rw [hslots] at hslot
    split at hslot
    · cases hslot
      exact absurd hpos (Nat.lt_irrefl 0)
    · -- the only hold is the one of the first turn
      rename_i hid
      rw [hcount id slot hslot, hholds, List.count_pos_iff, List.mem_singleton] at hpos
      exact hid (congrArg SessionSlotHold.sessionId hpos)
  · have hzero := hprotected.refCount _ _ ((hslots _).trans (if_pos rfl))
    rw [hholds] at hzero
    cases hzero

end HoldState

end Arle.Scheduler.Cuda
