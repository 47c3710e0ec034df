import Arle.Backend.Metal.SlotLedger

/-!
# Holds of token slots

A slot is held by the requests that list it, once for each time they do, and by whoever has
allocated it detached. The refcounts count these holds, the free slots are the others, and the
recorded access ticks order the held slots as the calls that used them last
(`spec_of_run`).
-/

namespace Arle.Metal.SlotLedger

variable {n : Nat}

/-! ## Runs -/

/-- The slots that the requests hold. -/
def requestHolds (l : SlotLedger n) (slot : Nat) : Nat :=
  ((Assoc.values l.requestSlots).map fun slots => slots.count slot).sum

inductive Op
  | allocTokens (requestId count : Nat)
  | allocDetachedSlots (count : Nat)
  | shareSlots (requestId : Nat) (slots : List Nat)
  | sharePrefixFrom (requestId sourceRequestId prefixTokens : Nat)
  | freeRequest (requestId : Nat)
  | registerAccess (slots : List Nat)
  | releaseSlots (slots : List Nat)

/-- The ledger, the outstanding detached holds, the number of calls so far, and for each slot the
number of the last call that used it. -/
structure Held (n : Nat) where
  ledger : SlotLedger n
  detached : List Nat
  clock : Nat
  usedAt : Nat → Nat

namespace Held

def start (n : Nat) : Held n := ⟨new n, [], 0, fun _ => 0⟩

def holds (s : Held n) (slot : Nat) : Nat := s.ledger.requestHolds slot + s.detached.count slot

/-- The state after a call that used the slots `used`. -/
def after (s : Held n) (ledger : SlotLedger n) (detached used : List Nat) : Held n :=
  ⟨ledger, detached, s.clock + 1, fun slot => if slot ∈ used then s.clock + 1 else s.usedAt slot⟩

/-- The bounds of the counters: each slot is held less than `2 ^ 32` times, and there have been
less than `2 ^ 64` calls. -/
def Fits (s : Held n) : Prop := (∀ slot < n, s.holds slot < 2 ^ 32) ∧ s.clock < 2 ^ 64

instance (s : Held n) : Decidable s.Fits :=
  inferInstanceAs (Decidable ((∀ slot < n, s.holds slot < 2 ^ 32) ∧ s.clock < 2 ^ 64))

/-- One call. Only held slots are shared, and only detached holds are released. -/
inductive Step : Held n → Op → Held n → Prop
  | allocTokens {s : Held n} {requestId count : Nat} {result : Except LedgerError (List Nat)}
      {ledger : SlotLedger n}
      (h : s.ledger.allocTokens requestId count = some (result, ledger)) :
      Step s (.allocTokens requestId count)
        (s.after ledger s.detached (result.toOption.getD []))
  | allocDetachedSlots {s : Held n} {count : Nat} {result : Except LedgerError (List Nat)}
      {ledger : SlotLedger n} (h : s.ledger.allocDetachedSlots count = some (result, ledger)) :
      Step s (.allocDetachedSlots count)
        (s.after ledger (result.toOption.getD [] ++ s.detached) (result.toOption.getD []))
  | shareSlots {s : Held n} {requestId : Nat} {slots : List Nat}
      {result : Except LedgerError (List Nat)} {ledger : SlotLedger n}
      (hheld : ∀ slot ∈ slots, ∀ h : slot < n, 0 < s.ledger.slotRefcounts[slot])
      (h : s.ledger.shareSlots requestId slots = (result, ledger)) :
      Step s (.shareSlots requestId slots)
        (s.after ledger s.detached (result.toOption.getD []))
  | sharePrefixFrom {s : Held n} {requestId sourceRequestId prefixTokens : Nat}
      {result : Except LedgerError (List Nat)} {ledger : SlotLedger n}
      (h : s.ledger.sharePrefixFrom requestId sourceRequestId prefixTokens = (result, ledger)) :
      Step s (.sharePrefixFrom requestId sourceRequestId prefixTokens)
        (s.after ledger s.detached (result.toOption.getD []))
  | freeRequest {s : Held n} {requestId : Nat} :
      Step s (.freeRequest requestId) (s.after (s.ledger.freeRequest requestId) s.detached [])
  | registerAccess {s : Held n} {slots : List Nat} {result : Except LedgerError Unit}
      {ledger : SlotLedger n} (h : s.ledger.registerAccess slots = (result, ledger)) :
      Step s (.registerAccess slots)
        (s.after ledger s.detached (if result.isOk then slots else []))
  | releaseSlots {s : Held n} {slots rest : List Nat} {result : Except LedgerError Unit}
      {ledger : SlotLedger n} (hdetached : s.detached.Perm (slots ++ rest))
      (h : s.ledger.releaseSlots slots = (result, ledger)) :
      Step s (.releaseSlots slots)
        (s.after ledger (if result.isOk then rest else s.detached) [])

end Held

/-! ## Refcounts -/

/-- Each of the slots is held once more for each time it is listed. -/
def hold (holds : Nat → Nat) (slots : List Nat) (slot : Nat) : Nat :=
  holds slot + slots.count slot

structure Counted (l : SlotLedger n) (holds : Nat → Nat) : Prop where
  counts : ∀ slot, ∀ h : slot < n, l.slotRefcounts[slot] = holds slot
  nodup : l.freeSlots.Nodup
  free : ∀ slot, slot ∈ l.freeSlots ↔ slot < n ∧ holds slot = 0

/-- The slots have been used at a tick. -/
structure Used (l l' : SlotLedger n) (tick : Nat) (slots : List Nat) : Prop where
  access : ∀ slot, ∀ h : slot < n,
    l'.slotLastAccess[slot] = if slot ∈ slots then tick else l.slotLastAccess[slot]
  requests : l'.requestSlots = l.requestSlots
  tick : l'.nextAccessTick = l.nextAccessTick

/-- The held slots have not been used. -/
structure Kept (l l' : SlotLedger n) (holds : Nat → Nat) : Prop where
  access : ∀ slot, ∀ h : slot < n, 0 < holds slot →
    l'.slotLastAccess[slot] = l.slotLastAccess[slot]
  requests : l'.requestSlots = l.requestSlots
  tick : l'.nextAccessTick = l.nextAccessTick

section Counted

variable {l l' l'' : SlotLedger n} {holds : Nat → Nat} {slot tick count : Nat}
  {slots more newIndices : List Nat}

theorem hold_hold : hold (hold holds [slot]) slots = hold holds (slot :: slots) := by
  funext x
  rw [hold, hold, hold, Nat.add_assoc, ← List.count_append]
  rfl

theorem hold_cons_of_ne {x : Nat} (h : x ≠ slot) :
    hold holds (slot :: slots) x = hold holds slots x := by
  rw [hold, hold, List.count_cons_of_ne h.symm]

theorem hold_cons_self : hold holds (slot :: slots) slot = hold holds slots slot + 1 := by
  rw [hold, hold, List.count_cons_self, Nat.add_assoc]

theorem slotIndex_of_lt (h : slot < n) : slotIndex n slot = .ok ⟨slot, h⟩ := dif_pos h

theorem checkSlots_eq_ok : checkSlots n slots = .ok () ↔ ∀ slot ∈ slots, slot < n := by
  induction slots with
  | nil => exact iff_of_true rfl fun _ h => by cases h
  | cons slot slots ih =>
    rw [checkSlots, slotIndex, List.forall_mem_cons]
    by_cases h : slot < n
    · rw [dif_pos h, and_iff_right h]
      exact ih
    · rw [dif_neg h]
      exact iff_of_false (fun h => by cases h) fun hall => h hall.1

theorem holdSlot_of_lt (h : slot < n) (l : SlotLedger n) : holdSlot tick slot l =
    (.ok (), { l with
      slotRefcounts := l.slotRefcounts.set slot (Word.saturatingAdd 32 l.slotRefcounts[slot] 1)
      slotLastAccess := l.slotLastAccess.set slot tick }) := by
  unfold holdSlot bumpRefcount markAccessAt
  rw [slotIndex_of_lt h]
  rfl

theorem Used.refl (l : SlotLedger n) (tick : Nat) : Used l l tick [] :=
  ⟨fun _ _ => (if_neg List.not_mem_nil).symm, rfl, rfl⟩

theorem Used.trans (h : Used l l' tick [slot]) (h' : Used l' l'' tick slots) :
    Used l l'' tick (slot :: slots) := by
  refine ⟨fun x hx => ?_, h'.requests.trans h.requests, h'.tick.trans h.tick⟩
  rw [h'.access x hx, h.access x hx]
  simp only [List.mem_cons, List.not_mem_nil, or_false]
  split <;> split <;> simp_all

theorem used_set (hslot : slot < n)
    (haccess : l'.slotLastAccess = l.slotLastAccess.set slot tick)
    (hrequests : l'.requestSlots = l.requestSlots)
    (htick : l'.nextAccessTick = l.nextAccessTick) : Used l l' tick [slot] := by
  refine ⟨fun x hx => ?_, hrequests, htick⟩
  simp only [haccess, Vector.getElem_set, List.mem_singleton, eq_comm]

/-- One hold more of a slot, which is taken out of the free slots. -/
theorem Counted.hold_slot (h : Counted l holds) (tick : Nat) (hslot : slot < n)
    (hfits : holds slot + 1 < 2 ^ 32) {freeSlots : List Nat} (hnodup : freeSlots.Nodup)
    (hfree : ∀ x, x ∈ freeSlots ↔ x ∈ l.freeSlots ∧ x ≠ slot) :
    ∃ l', holdSlot tick slot { l with freeSlots } = (.ok (), l') ∧ l'.freeSlots = freeSlots ∧
      Counted l' (hold holds [slot]) ∧ Used l l' tick [slot] := by
  refine ⟨_, holdSlot_of_lt hslot _, rfl, ⟨fun x hx => ?_, hnodup, fun x => ?_⟩,
    used_set hslot rfl rfl rfl⟩
  · rw [Vector.getElem_set, hold, List.count_singleton]
    split
    · next heq =>
      subst heq
      rw [h.counts, Word.saturatingAdd, Word.maxVal, Nat.min_eq_left (by omega)]
      simp
    · next hne => rw [h.counts x hx, if_neg (by simpa using hne), Nat.add_zero]
  · rw [hfree, h.free, hold, List.count_singleton]
    by_cases hx : x = slot
    · simp [hx]
    · simp [hx, Ne.symm hx]

theorem Counted.allocLoop (h : Counted l holds) (hcount : count ≤ l.freeSlots.length)
    (tick : Nat) (newIndices : List Nat) :
    ∃ more l', allocLoop tick count l newIndices = some (.ok (newIndices ++ more), l') ∧
      Counted l' (hold holds more) ∧ Used l l' tick more := by
  induction count generalizing l holds newIndices with
  | zero => exact ⟨[], l, by rw [List.append_nil]; rfl, h, .refl l tick⟩
  | succ count ih =>
    cases hfree : l.freeSlots with
    | nil => exact absurd hcount (by rw [hfree]; exact Nat.not_succ_le_zero count)
    | cons idx freeSlots =>
      obtain ⟨hidx, hzero⟩ := (h.free idx).mp (by rw [hfree]; exact List.mem_cons_self)
      have hnodup := h.nodup
      rw [hfree, List.nodup_cons] at hnodup
      obtain ⟨l', hhold, hrest, hcounted, hused⟩ :=
        h.hold_slot tick hidx (by rw [hzero]; decide) hnodup.2 fun x => by
          rw [hfree, List.mem_cons]
          constructor
          · exact fun hx => ⟨.inr hx, fun heq => hnodup.1 (heq ▸ hx)⟩
          · rintro ⟨hx, hne⟩
            exact hx.resolve_left hne
      have hle : count ≤ l'.freeSlots.length := by
        rw [hfree] at hcount
        rw [hrest]
        exact Nat.le_of_succ_le_succ hcount
      obtain ⟨more, l'', hloop, hcounted', hused'⟩ :=
        ih hcounted hle (newIndices ++ [idx])
      refine ⟨idx :: more, l'', ?_, hold_hold ▸ hcounted', hused.trans hused'⟩
      rw [SlotLedger.allocLoop, hfree]
      dsimp only
      rw [hhold]
      dsimp only
      rw [hloop, List.append_assoc]
      rfl

theorem Counted.shareLoop (h : Counted l holds)
    (hslots : ∀ slot ∈ slots, slot < n ∧ 0 < holds slot ∧ hold holds slots slot < 2 ^ 32)
    (tick : Nat) :
    ∃ l', shareLoop tick slots l = (.ok (), l') ∧ Counted l' (hold holds slots) ∧
      Used l l' tick slots := by
  induction slots generalizing l holds with
  | nil => exact ⟨l, rfl, h, .refl l tick⟩
  | cons slot slots ih =>
    obtain ⟨hslot, hpos, hlt⟩ := hslots slot List.mem_cons_self
    rw [hold_cons_self, hold] at hlt
    have hnot : slot ∉ l.freeSlots := fun hmem => hpos.ne' ((h.free slot).mp hmem).2
    obtain ⟨l', hhold, -, hcounted, hused⟩ :=
      h.hold_slot tick hslot (by omega) h.nodup fun x =>
        ⟨fun hx => ⟨hx, fun heq => hnot (heq ▸ hx)⟩, And.left⟩
    obtain ⟨l'', hloop, hcounted', hused'⟩ := ih hcounted fun x hx => by
      obtain ⟨hlt, hpos, hfits⟩ := hslots x (List.mem_cons_of_mem slot hx)
      exact ⟨hlt, Nat.add_pos_left hpos _, by rwa [hold_hold]⟩
    refine ⟨l'', ?_, hold_hold ▸ hcounted', hused.trans hused'⟩
    rw [SlotLedger.shareLoop, hhold]
    exact hloop

/-- The counters that fit a word do so after the loop, which reads no request. -/
theorem shareLoop_requests (hslots : ∀ slot ∈ slots, slot < n) (l : SlotLedger n) (tick : Nat) :
    ∃ l', SlotLedger.shareLoop tick slots l = (.ok (), l') ∧ l'.requestSlots = l.requestSlots ∧
      ((∀ x, ∀ h : x < n, l.slotRefcounts[x] ≤ Word.maxVal 32) →
        ∀ x, ∀ h : x < n, l'.slotRefcounts[x] ≤ Word.maxVal 32) := by
  induction slots generalizing l with
  | nil => exact ⟨l, rfl, rfl, id⟩
  | cons slot slots ih =>
    have hslot := hslots slot List.mem_cons_self
    obtain ⟨l', hloop, hsame, hbound⟩ := ih (fun x hx => hslots x (List.mem_cons_of_mem slot hx))
      { l with
        slotRefcounts := l.slotRefcounts.set slot (Word.saturatingAdd 32 l.slotRefcounts[slot] 1)
        slotLastAccess := l.slotLastAccess.set slot tick }
    refine ⟨l', ?_, hsame, fun hl => hbound fun x hx => ?_⟩
    · rw [SlotLedger.shareLoop, holdSlot_of_lt hslot]
      exact hloop
    · rw [Vector.getElem_set]
      split
      · exact Nat.min_le_right _ _
      · exact hl x hx

theorem markLoop_used (hslots : ∀ slot ∈ slots, slot < n) (l : SlotLedger n) (tick : Nat) :
    ∃ l', markLoop tick slots l = (.ok (), l') ∧ Used l l' tick slots ∧
      l'.slotRefcounts = l.slotRefcounts ∧ l'.freeSlots = l.freeSlots := by
  induction slots generalizing l with
  | nil => exact ⟨l, rfl, .refl l tick, rfl, rfl⟩
  | cons slot slots ih =>
    have hslot := hslots slot List.mem_cons_self
    obtain ⟨l', hloop, hused, hcounts, hfree⟩ :=
      ih (fun x hx => hslots x (List.mem_cons_of_mem slot hx))
        { l with slotLastAccess := l.slotLastAccess.set slot tick }
    have hfirst : Used l { l with slotLastAccess := l.slotLastAccess.set slot tick } tick [slot] :=
      used_set hslot rfl rfl rfl
    refine ⟨l', ?_, hfirst.trans hused, hcounts, hfree⟩
    rw [markLoop, markAccessAt, slotIndex_of_lt hslot]
    exact hloop

theorem releaseSlot_of_lt (hslot : slot < n) (hcount : l.slotRefcounts[slot] = count + 1) :
    l.releaseSlot slot = { l with
      freeSlots := if count = 0 then slot :: l.freeSlots else l.freeSlots
      slotRefcounts := l.slotRefcounts.set slot count
      slotLastAccess := if count = 0 then l.slotLastAccess.set slot 0 else l.slotLastAccess } := by
  unfold releaseSlot
  rw [slotIndex_of_lt hslot]
  simp only [Fin.getElem_fin, hcount, Nat.add_sub_cancel, if_neg (Nat.succ_ne_zero count)]
  split <;> rfl

/-- One hold less of a slot. -/
theorem Counted.releaseSlot (h : Counted l (hold holds (slot :: slots))) :
    Counted (l.releaseSlot slot) (hold holds slots) ∧
      Kept l (l.releaseSlot slot) (hold holds slots) := by
  by_cases hslot : slot < n
  · have hcount := h.counts slot hslot
    rw [hold_cons_self] at hcount
    have hnot : slot ∉ l.freeSlots := by
      rw [h.free, hold_cons_self]
      exact fun hzero => Nat.succ_ne_zero _ hzero.2
    rw [releaseSlot_of_lt hslot hcount]
    refine ⟨⟨fun x hx => ?_, ?_, fun x => ?_⟩, ⟨fun x hx hpos => ?_, rfl, rfl⟩⟩
    · rw [Vector.getElem_set]
      split
      · next heq => rw [heq]
      · next hne => rw [h.counts x hx, hold_cons_of_ne (Ne.symm hne)]
    · dsimp only
      split
      · exact List.nodup_cons.mpr ⟨hnot, h.nodup⟩
      · exact h.nodup
    · by_cases hx : x = slot
      · subst hx
        dsimp only
        split
        · next hzero => exact iff_of_true List.mem_cons_self ⟨hslot, hzero⟩
        · next hzero => exact iff_of_false hnot fun hfree => hzero hfree.2
      · rw [← hold_cons_of_ne hx, ← h.free]
        dsimp only
        split
        · rw [List.mem_cons, or_iff_right hx]
        · rfl
    · dsimp only
      split
      · next hzero =>
        have hne : slot ≠ x := by
          rintro rfl
          exact hpos.ne' hzero
        rw [Vector.getElem_set_ne hslot hx hne]
      · rfl
  · have hsame : l.releaseSlot slot = l := by
      unfold SlotLedger.releaseSlot slotIndex
      rw [dif_neg hslot]
    have hne {x : Nat} (hx : x < n) : x ≠ slot := fun heq => hslot (heq ▸ hx)
    rw [hsame]
    refine ⟨⟨fun x hx => ?_, h.nodup, fun x => ?_⟩, ⟨fun _ _ _ => rfl, rfl, rfl⟩⟩
    · rw [h.counts x hx, hold_cons_of_ne (hne hx)]
    · rw [h.free]
      exact and_congr_right fun hx => by rw [hold_cons_of_ne (hne hx)]

theorem Counted.releaseSlots (h : Counted l (hold holds slots)) :
    Counted (slots.foldl SlotLedger.releaseSlot l) holds ∧
      Kept l (slots.foldl SlotLedger.releaseSlot l) holds := by
  induction slots generalizing l with
  | nil => exact ⟨h, fun _ _ _ => rfl, rfl, rfl⟩
  | cons slot slots ih =>
    obtain ⟨hcounted, hkept⟩ := h.releaseSlot
    obtain ⟨hcounted', hkept'⟩ := ih hcounted
    refine ⟨hcounted', fun x hx hpos => ?_, hkept'.requests.trans hkept.requests,
      hkept'.tick.trans hkept.tick⟩
    exact (hkept'.access x hx hpos).trans (hkept.access x hx (Nat.add_pos_left hpos _))

/-! ## Calls -/

/-- A call has changed nothing, or the slots `more` are held and used at a new tick. -/
def Took (l l' : SlotLedger n) (holds : Nat → Nat) (more : List Nat) : Prop :=
  l' = l ∧ more = [] ∨
    Counted l' (hold holds more) ∧ Used l.bumpAccessTick.2 l' l.nextAccessTick more

/-- The conditions on the counters do not read the requests. -/
theorem Counted.setRequests (h : Counted l holds) (requestSlots : Assoc Nat (List Nat)) :
    Counted { l with requestSlots } holds := ⟨h.counts, h.nodup, h.free⟩

theorem Counted.bumpAccessTick (h : Counted l holds) : Counted l.bumpAccessTick.2 holds :=
  ⟨h.counts, h.nodup, h.free⟩

/-- An allocation fails and changes nothing, or takes free slots. -/
theorem Counted.allocDetachedSlots (h : Counted l holds) (count : Nat) :
    ∃ result l', l.allocDetachedSlots count = some (result, l') ∧
      Took l l' holds (result.toOption.getD []) := by
  unfold SlotLedger.allocDetachedSlots
  split_ifs with hzero hless
  · exact ⟨_, _, rfl, .inl ⟨rfl, rfl⟩⟩
  · exact ⟨_, _, rfl, .inl ⟨rfl, rfl⟩⟩
  · obtain ⟨more, l', hloop, hcounted, hused⟩ :=
      h.bumpAccessTick.allocLoop (Nat.le_of_not_lt hless) l.nextAccessTick []
    exact ⟨_, _, hloop, .inr ⟨hcounted, hused⟩⟩

theorem Took.requests (h : Took l l' holds more) : l'.requestSlots = l.requestSlots := by
  rcases h with ⟨rfl, -⟩ | ⟨-, hused⟩
  · rfl
  · exact hused.requests

theorem shareSlots_requests (hslots : ∀ slot ∈ slots, slot < n) (hnil : slots ≠ [])
    (l : SlotLedger n) (requestId : Nat) :
    ∃ l' : SlotLedger n,
      l.shareSlots requestId slots = (.ok slots, l'.extendRequest requestId slots) ∧
        l'.requestSlots = l.requestSlots ∧
        ((∀ x, ∀ h : x < n, l.slotRefcounts[x] ≤ Word.maxVal 32) →
          ∀ x, ∀ h : x < n, l'.slotRefcounts[x] ≤ Word.maxVal 32) := by
  obtain ⟨l', hloop, hsame, hbound⟩ :=
    shareLoop_requests hslots l.bumpAccessTick.2 l.nextAccessTick
  refine ⟨l', ?_, hsame, hbound⟩
  unfold SlotLedger.bumpAccessTick at hloop
  rw [SlotLedger.shareSlots, if_neg hnil, checkSlots_eq_ok.mpr hslots]
  dsimp only [SlotLedger.bumpAccessTick]
  rw [hloop]

/-- A call of `share_slots` changes nothing, or the slots are held once more. -/
theorem Counted.shareSlots (h : Counted l holds) (requestId : Nat)
    (hheld : ∀ slot ∈ slots, slot < n → 0 < holds slot)
    (hfits : (∀ slot ∈ slots, slot < n) → ∀ slot ∈ slots, hold holds slots slot < 2 ^ 32) :
    (∃ result, l.shareSlots requestId slots = (result, l) ∧ result.toOption.getD [] = []) ∨
      ∃ l', l.shareSlots requestId slots = (.ok slots, l'.extendRequest requestId slots) ∧
        Took l l' holds slots := by
  by_cases hnil : slots = []
  · exact .inl ⟨.ok [], if_pos hnil, rfl⟩
  · cases hcheck : checkSlots n slots with
    | error e =>
      refine .inl ⟨.error e, ?_, rfl⟩
      rw [SlotLedger.shareSlots, if_neg hnil, hcheck]
    | ok =>
      have hrange := checkSlots_eq_ok.mp hcheck
      obtain ⟨l', hloop, hcounted, hused⟩ := h.bumpAccessTick.shareLoop
        (fun slot hslot => ⟨hrange slot hslot, hheld slot hslot (hrange slot hslot),
          hfits hrange slot hslot⟩) l.nextAccessTick
      refine .inr ⟨l', ?_, .inr ⟨hcounted, hused⟩⟩
      unfold SlotLedger.bumpAccessTick at hloop
      rw [SlotLedger.shareSlots, if_neg hnil, hcheck]
      dsimp only [SlotLedger.bumpAccessTick]
      rw [hloop]

/-- A call of `register_access` changes nothing, or the slots are used. -/
theorem Counted.registerAccess (h : Counted l holds) (slots : List Nat) :
    ∃ result l', l.registerAccess slots = (result, l') ∧
      (l' = l ∧ (if result.isOk then slots else []) = [] ∨ result.isOk ∧ Counted l' holds ∧
        Used l.bumpAccessTick.2 l' l.nextAccessTick slots) := by
  by_cases hnil : slots = []
  · exact ⟨.ok (), l, if_pos hnil, .inl ⟨rfl, hnil⟩⟩
  · cases hcheck : checkSlots n slots with
    | error e =>
      refine ⟨.error e, l, ?_, .inl ⟨rfl, rfl⟩⟩
      rw [SlotLedger.registerAccess, if_neg hnil, hcheck]
    | ok =>
      obtain ⟨l', hloop, hused, hcounts, hfree⟩ := markLoop_used (checkSlots_eq_ok.mp hcheck)
        l.bumpAccessTick.2 l.nextAccessTick
      refine ⟨.ok (), l', ?_, .inr ⟨rfl, ⟨fun x hx => ?_, ?_, fun x => ?_⟩, hused⟩⟩
      · unfold SlotLedger.bumpAccessTick at hloop
        rw [SlotLedger.registerAccess, if_neg hnil, hcheck]
        exact hloop
      · simp only [hcounts]
        exact h.counts x hx
      · rw [hfree]
        exact h.nodup
      · rw [hfree]
        exact h.free x

/-! ## Requests -/

theorem Kept.requestHolds_eq (h : Kept l l' holds) : l'.requestHolds = l.requestHolds := by
  funext slot
  rw [requestHolds, requestHolds, h.requests]

theorem requestHolds_extendRequest (l : SlotLedger n) (requestId : Nat) (slots : List Nat) :
    (l.extendRequest requestId slots).requestHolds = hold l.requestHolds slots := by
  funext x
  unfold requestHolds extendRequest hold
  dsimp only
  rw [Assoc.values_insert, List.map_cons, List.sum_cons, List.count_append]
  cases hlookup : l.requestSlots.lookup requestId with
  | none =>
    rw [Assoc.erase_of_lookup_eq_none hlookup, Option.getD_none, List.count_nil]
    omega
  | some indices =>
    rw [Assoc.sum_values_erase (fun slots => slots.count x) hlookup, Option.getD_some]
    omega

theorem requestHolds_pos {requestId : Nat} {indices : List Nat}
    (h : l.requestSlots.lookup requestId = some indices) (hslot : slot ∈ indices) :
    0 < l.requestHolds slot := by
  unfold requestHolds
  rw [Assoc.sum_values_erase (fun slots => slots.count slot) h]
  exact Nat.add_pos_left (List.count_pos_iff.mpr hslot) _

theorem requestHolds_erase {requestId : Nat} {indices : List Nat}
    (h : l.requestSlots.lookup requestId = some indices) :
    l.requestHolds =
      hold { l with requestSlots := l.requestSlots.erase requestId }.requestHolds indices := by
  funext x
  unfold requestHolds hold
  rw [Assoc.sum_values_erase (fun slots => slots.count x) h, Nat.add_comm]

end Counted

/-! ## Ticks -/

/-- The recorded ticks order the held slots as their last uses; `bumps` ticks were taken. -/
structure Timed (l : SlotLedger n) (holds usedAt : Nat → Nat) (clock bumps : Nat) : Prop where
  order : ∀ x y, ∀ hx : x < n, ∀ hy : y < n, 0 < holds x → 0 < holds y →
    (l.slotLastAccess[x] ≤ l.slotLastAccess[y] ↔ usedAt x ≤ usedAt y)
  access : ∀ x, ∀ h : x < n, 0 < holds x → l.slotLastAccess[x] ≤ bumps
  usedAt_le : ∀ x, usedAt x ≤ clock
  bumps_le : bumps ≤ clock
  tick : l.nextAccessTick = min (bumps + 1) (Word.maxVal 64)

section Timed

variable {l l' : SlotLedger n} {holds holds' usedAt : Nat → Nat} {clock bumps : Nat}
  {used : List Nat}

/-- After a call that used no slot. -/
theorem Timed.keep (h : Timed l holds usedAt clock bumps)
    (htick : l'.nextAccessTick = l.nextAccessTick)
    (haccess : ∀ x, ∀ hx : x < n, 0 < holds' x →
      0 < holds x ∧ l'.slotLastAccess[x] = l.slotLastAccess[x]) :
    Timed l' holds' usedAt (clock + 1) bumps := by
  refine ⟨fun x y hx hy hposx hposy => ?_, fun x hx hpos => ?_,
    fun x => Nat.le_succ_of_le (h.usedAt_le x), Nat.le_succ_of_le h.bumps_le, htick.trans h.tick⟩
  · obtain ⟨hposx, hsamex⟩ := haccess x hx hposx
    obtain ⟨hposy, hsamey⟩ := haccess y hy hposy
    rw [hsamex, hsamey]
    exact h.order x y hx hy hposx hposy
  · obtain ⟨hpos, hsame⟩ := haccess x hx hpos
    rw [hsame]
    exact h.access x hx hpos

/-- After a call that used slots at the next tick. -/
theorem Timed.use (h : Timed l holds usedAt clock bumps) (hclock : clock + 1 < 2 ^ 64)
    (htick : l'.nextAccessTick = l.bumpAccessTick.2.nextAccessTick)
    (haccess : ∀ x, ∀ hx : x < n,
      l'.slotLastAccess[x] = if x ∈ used then l.nextAccessTick else l.slotLastAccess[x])
    (hholds : ∀ x, 0 < holds' x → x ∉ used → 0 < holds x) :
    Timed l' holds' (fun x => if x ∈ used then clock + 1 else usedAt x) (clock + 1)
      (bumps + 1) := by
  have hbumps := h.bumps_le
  have hmax : Word.maxVal 64 = 2 ^ 64 - 1 := rfl
  have hnext : l.nextAccessTick = bumps + 1 := by
    rw [h.tick, Nat.min_eq_left (by omega)]
  -- The new tick is greater than those of the held slots, as the new call is later.
  have hold (x : Nat) (hx : x < n) (hpos : 0 < holds' x) (hused : x ∉ used) :
      l.slotLastAccess[x] ≤ bumps ∧ usedAt x ≤ clock :=
    ⟨h.access x hx (hholds x hpos hused), h.usedAt_le x⟩
  refine ⟨fun x y hx hy hposx hposy => ?_, fun x hx hpos => ?_, fun x => ?_,
    Nat.succ_le_succ h.bumps_le, ?_⟩
  · rw [haccess x hx, haccess y hy, hnext]
    by_cases hxused : x ∈ used
    · by_cases hyused : y ∈ used
      · simp [hxused, hyused]
      · have := hold y hy hposy hyused
        simp only [hxused, hyused, if_true, if_false]
        omega
    · have hxold := hold x hx hposx hxused
      by_cases hyused : y ∈ used
      · simp only [hxused, hyused, if_true, if_false]
        omega
      · simp only [hxused, hyused, if_false]
        exact h.order x y hx hy (hholds x hposx hxused) (hholds y hposy hyused)
  · rw [haccess x hx, hnext]
    split
    · exact le_refl _
    · next hused => exact Nat.le_succ_of_le (hold x hx hpos hused).1
  · split
    · exact le_refl _
    · exact Nat.le_succ_of_le (h.usedAt_le x)
  · rw [htick]
    change max (min (l.nextAccessTick + 1) (Word.maxVal 64)) 1 = _
    rw [hnext]
    omega

end Timed

/-! ## Steps -/

namespace Held

structure Inv (s : Held n) : Prop where
  counted : Counted s.ledger s.holds
  timed : ∃ bumps, Timed s.ledger s.holds s.usedAt s.clock bumps

variable {s t : Held n} {l' : SlotLedger n} {more detached : List Nat}

theorem usedAt_after_nil (s : Held n) (ledger : SlotLedger n) (detached : List Nat) :
    (s.after ledger detached []).usedAt = s.usedAt := by
  simp [after]

theorem holds_after_detached (h : l'.requestSlots = s.ledger.requestSlots)
    (more used : List Nat) :
    (s.after l' (more ++ s.detached) used).holds = hold s.holds more := by
  funext slot
  change l'.requestHolds slot + (more ++ s.detached).count slot =
    s.ledger.requestHolds slot + s.detached.count slot + more.count slot
  rw [requestHolds, h, List.count_append, ← requestHolds]
  omega

theorem holds_after_request (h : l'.requestSlots = s.ledger.requestSlots) (requestId : Nat)
    (more used : List Nat) :
    (s.after (l'.extendRequest requestId more) s.detached used).holds = hold s.holds more := by
  funext slot
  change (l'.extendRequest requestId more).requestHolds slot + s.detached.count slot =
    s.ledger.requestHolds slot + s.detached.count slot + more.count slot
  rw [requestHolds_extendRequest, hold, requestHolds, h, ← requestHolds]
  omega

theorem Inv.took (h : s.Inv) (hclock : s.clock + 1 < 2 ^ 64)
    (htook : Took s.ledger l' s.holds more) (requestSlots : Assoc Nat (List Nat))
    (hholds : (s.after { l' with requestSlots } detached more).holds = hold s.holds more) :
    (s.after { l' with requestSlots } detached more).Inv := by
  obtain ⟨bumps, htimed⟩ := h.timed
  rcases htook with ⟨rfl, rfl⟩ | ⟨hcounted, hused⟩
  · refine ⟨hholds ▸ h.counted.setRequests requestSlots, bumps, ?_⟩
    rw [hholds, usedAt_after_nil]
    exact htimed.keep rfl fun x hx hpos => ⟨hpos, rfl⟩
  · refine ⟨hholds ▸ hcounted.setRequests requestSlots, bumps + 1, ?_⟩
    rw [hholds]
    exact htimed.use hclock hused.tick hused.access fun x hpos hnot => by
      rwa [hold, List.count_eq_zero.mpr hnot] at hpos

theorem Inv.unchanged (h : s.Inv) (hclock : s.clock + 1 < 2 ^ 64) :
    (s.after s.ledger s.detached []).Inv :=
  h.took hclock (.inl ⟨rfl, rfl⟩) _ (holds_after_detached rfl [] [])

theorem Inv.kept (h : s.Inv) {holds' : Nat → Nat} (hcounted : Counted l' holds')
    {requestSlots : Assoc Nat (List Nat)}
    (hkept : Kept { s.ledger with requestSlots } l' holds')
    (hle : ∀ slot, holds' slot ≤ s.holds slot)
    (hholds : (s.after l' detached []).holds = holds') : (s.after l' detached []).Inv := by
  obtain ⟨bumps, htimed⟩ := h.timed
  refine ⟨hholds ▸ hcounted, bumps, ?_⟩
  rw [hholds, usedAt_after_nil]
  exact htimed.keep hkept.tick fun x hx hpos => ⟨hpos.trans_le (hle x), hkept.access x hx hpos⟩

theorem Inv.share (h : s.Inv) {requestId : Nat} {slots : List Nat}
    {result : Except LedgerError (List Nat)}
    (hheld : ∀ slot ∈ slots, ∀ h : slot < n, 0 < s.ledger.slotRefcounts[slot])
    (hcall : s.ledger.shareSlots requestId slots = (result, l'))
    (hfits : (s.after l' s.detached (result.toOption.getD [])).Fits) :
    (s.after l' s.detached (result.toOption.getD [])).Inv := by
  have hbound (hrange : ∀ slot ∈ slots, slot < n) :
      ∀ slot ∈ slots, hold s.holds slots slot < 2 ^ 32 := by
    intro slot hslot
    obtain ⟨l'', heq, hsame, -⟩ := shareSlots_requests hrange (List.ne_nil_of_mem hslot)
      s.ledger requestId
    cases heq.symm.trans hcall
    rw [← holds_after_request hsame requestId slots slots]
    exact hfits.1 slot (hrange slot hslot)
  rcases h.counted.shareSlots requestId
    (fun slot hslot hlt => h.counted.counts slot hlt ▸ hheld slot hslot hlt) hbound with
    ⟨result', heq, hnil⟩ | ⟨l'', heq, htook⟩
  · cases heq.symm.trans hcall
    rw [hnil] at hfits ⊢
    exact h.took hfits.2 (.inl ⟨rfl, rfl⟩) _ (holds_after_detached rfl [] [])
  · cases heq.symm.trans hcall
    exact h.took hfits.2 htook _ (holds_after_request htook.requests requestId slots slots)

/-- Every call keeps the counts and the ticks. -/
theorem Inv.step {op : Op} (h : s.Inv) (hstep : Step s op t) (hfits : t.Fits) : t.Inv := by
  cases hstep with
  | @allocTokens requestId count _ _ hcall =>
    obtain ⟨result, l', hslots, htook⟩ := h.counted.allocDetachedSlots count
    unfold SlotLedger.allocTokens at hcall
    rw [hslots] at hcall
    cases result with
    | error e =>
      cases hcall
      exact h.took hfits.2 htook _ (holds_after_detached htook.requests [] [])
    | ok newIndices =>
      cases hcall
      exact h.took hfits.2 htook _
        (holds_after_request htook.requests requestId newIndices newIndices)
  | @allocDetachedSlots count _ _ hcall =>
    obtain ⟨result, l', hslots, htook⟩ := h.counted.allocDetachedSlots count
    cases hslots.symm.trans hcall
    exact h.took hfits.2 htook _ (holds_after_detached htook.requests _ _)
  | shareSlots hheld hcall => exact h.share hheld hcall hfits
  | @sharePrefixFrom requestId sourceRequestId prefixTokens _ _ hcall =>
    unfold SlotLedger.sharePrefixFrom at hcall
    split_ifs at hcall
    · cases hcall
      exact h.unchanged hfits.2
    · split at hcall
      · cases hcall
        exact h.unchanged hfits.2
      · next sourceSlots hlookup =>
        split_ifs at hcall
        · cases hcall
          exact h.unchanged hfits.2
        · refine h.share (fun slot hslot hlt => ?_) hcall hfits
          rw [h.counted.counts slot hlt]
          exact Nat.add_pos_left (requestHolds_pos hlookup (List.mem_of_mem_take hslot)) _
  | @freeRequest requestId =>
    unfold SlotLedger.freeRequest
    split
    · exact h.unchanged hfits.2
    · next indices hlookup =>
      let erased := { s.ledger with requestSlots := s.ledger.requestSlots.erase requestId }
      let holds' (slot : Nat) : Nat := erased.requestHolds slot + s.detached.count slot
      have hholds : s.holds = hold holds' indices := by
        funext slot
        rw [Held.holds, requestHolds_erase hlookup, hold, hold]
        exact Nat.add_right_comm ..
      have hcounted : Counted erased (hold holds' indices) :=
        hholds ▸ h.counted.setRequests _
      obtain ⟨hcounted', hkept⟩ := hcounted.releaseSlots
      refine h.kept hcounted' hkept (fun slot => ?_) (funext fun slot => ?_)
      · rw [hholds]
        exact Nat.le_add_right _ _
      · exact congrArg (· + s.detached.count slot) (congrFun hkept.requestHolds_eq slot)
  | @registerAccess slots _ _ hcall =>
    obtain ⟨result, l', heq, hcase⟩ := h.counted.registerAccess slots
    cases heq.symm.trans hcall
    rcases hcase with ⟨rfl, hnil⟩ | ⟨hok, hcounted, hused⟩
    · rw [hnil]
      exact h.unchanged hfits.2
    · have hholds := holds_after_detached hused.requests [] slots
      obtain ⟨bumps, htimed⟩ := h.timed
      rw [if_pos hok]
      refine ⟨hholds ▸ hcounted, bumps + 1, hholds ▸ ?_⟩
      exact htimed.use hfits.2 hused.tick hused.access fun x hpos _ => hpos
  | @releaseSlots slots rest _ _ hdetached hcall =>
    unfold SlotLedger.releaseSlots at hcall
    split at hcall
    · cases hcall
      exact h.unchanged hfits.2
    · cases hcall
      let holds' (slot : Nat) : Nat := s.ledger.requestHolds slot + rest.count slot
      have hholds : s.holds = hold holds' slots := by
        funext slot
        rw [Held.holds, hold, hdetached.count_eq, List.count_append]
        exact (Nat.add_left_comm ..).trans (Nat.add_comm ..)
      obtain ⟨hcounted, hkept⟩ := (hholds ▸ h.counted : Counted s.ledger _).releaseSlots
      refine h.kept hcounted hkept (fun slot => ?_) (funext fun slot => ?_)
      · rw [hholds]
        exact Nat.le_add_right _ _
      · exact congrArg (· + rest.count slot) (congrFun hkept.requestHolds_eq slot)

end Held

end Arle.Metal.SlotLedger
