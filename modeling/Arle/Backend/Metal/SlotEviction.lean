import Arle.Backend.Metal.SlotHolds

/-!
# Conservation and eviction of token slots

In every run within the bounds of the counters the slots are conserved, and the eviction takes idle
blocks only, the least recently used first and no more than it needs (`spec_of_run`).
-/

namespace Arle.Metal.SlotLedger

variable {n : Nat}

namespace Held

/-- The refcounts are the numbers of holds, and the other slots are free once. -/
def Conserved (s : Held n) : Prop :=
  ∀ slot, (∀ h : slot < n, s.ledger.slotRefcounts[slot] = s.holds slot) ∧
    s.ledger.freeSlots.count slot = if slot < n ∧ s.holds slot = 0 then 1 else 0

/-- The slots of the block are held, but by no request. -/
def Idle (s : Held n) (block : List Nat) : Prop :=
  block ≠ [] ∧ ∀ slot ∈ block, slot < n ∧ 0 < s.holds slot ∧
    ∀ slots ∈ Assoc.values s.ledger.requestSlots, slot ∉ slots

instance (s : Held n) : DecidablePred s.Idle := fun block =>
  inferInstanceAs (Decidable (block ≠ [] ∧ ∀ slot ∈ block, slot < n ∧ 0 < s.holds slot ∧
    ∀ slots ∈ Assoc.values s.ledger.requestSlots, slot ∉ slots))

/-- The last use of `a` is not after that of `b`. -/
def NotAfter (s : Held n) (a b : List Nat) : Prop := ∀ x ∈ a, ∃ y ∈ b, s.usedAt x ≤ s.usedAt y

/-- A selection fails because of a slot outside the pool, or takes idle candidates in the order of
their last uses, none after one that is left, and only as many as reach the target. -/
def Evicts (s : Held n) (candidateBlocks : List (List Nat)) (targetTokens : Nat) : Prop :=
  match s.ledger.selectEvictionCandidates candidateBlocks targetTokens with
  | .error _ => ∃ block ∈ candidateBlocks, ∃ slot ∈ block, n ≤ slot
  | .ok selected => ∃ rest,
    (selected ++ rest).Perm (candidateBlocks.filter fun block => s.Idle block) ∧
      selected.Pairwise s.NotAfter ∧ (∀ a ∈ selected, ∀ b ∈ rest, s.NotAfter a b) ∧
      (targetTokens ≤ selected.flatten.length ∨ rest = []) ∧
      ∀ front, front <+: selected → targetTokens ≤ front.flatten.length → front = selected

end Held

/-! ## The bitmap of the active slots -/

section Bitmap

variable {l : SlotLedger n} {slot : Nat} {slots : List Nat}

theorem getElem_markActive (active : Vector Bool n) (x : Nat) (h : slot < n) :
    (markActive active x)[slot] = true ↔ active[slot] = true ∨ x = slot := by
  unfold markActive slotIndex
  by_cases hx : x < n
  · rw [dif_pos hx]
    dsimp only
    rw [Vector.getElem_set]
    split
    · next heq => exact iff_of_true rfl (.inr heq)
    · next hne => exact (or_iff_left hne).symm
  · rw [dif_neg hx]
    exact (or_iff_left fun heq : x = slot => hx (heq ▸ h)).symm

theorem getElem_foldl_markActive (active : Vector Bool n) (h : slot < n) :
    (slots.foldl markActive active)[slot] = true ↔ active[slot] = true ∨ slot ∈ slots := by
  induction slots generalizing active with
  | nil => exact (or_iff_left List.not_mem_nil).symm
  | cons x slots ih =>
    rw [List.foldl_cons, ih, getElem_markActive, List.mem_cons, or_assoc, eq_comm (a := x)]

theorem getElem_activeSlotBitmap (h : slot < n) :
    l.activeSlotBitmap[slot] = true ↔
      ∃ slots ∈ Assoc.values l.requestSlots, slot ∈ slots := by
  have hall (lists : List (List Nat)) (active : Vector Bool n) :
      (lists.foldl (fun active slots => slots.foldl markActive active) active)[slot] = true ↔
        active[slot] = true ∨ ∃ slots ∈ lists, slot ∈ slots := by
    induction lists generalizing active with
    | nil => simp
    | cons slots lists ih =>
      rw [List.foldl_cons, ih, getElem_foldl_markActive, or_assoc, List.exists_mem_cons_iff]
  rw [activeSlotBitmap, hall]
  simp

end Bitmap

/-! ## The loops of the selection -/

/-- The newest access of the slots of a block. -/
def IsNewest (l : SlotLedger n) (block : List Nat) (newestAccess : Nat) : Prop :=
  (∀ slot ∈ block, ∀ h : slot < n, l.slotLastAccess[slot] ≤ newestAccess) ∧
    ∃ slot ∈ block, ∃ h : slot < n, l.slotLastAccess[slot] = newestAccess

/-- The slot is held, but by no request. -/
def IdleSlot (l : SlotLedger n) (holds : Nat → Nat) (slot : Nat) : Prop :=
  slot < n ∧ 0 < holds slot ∧ ∀ slots ∈ Assoc.values l.requestSlots, slot ∉ slots

section Loops

variable {l : SlotLedger n} {holds : Nat → Nat} {block : List Nat}

theorem Counted.scanBlock (h : Counted l holds) (block : List Nat) (newestAccess : Nat) :
    match scanBlock l l.activeSlotBitmap block newestAccess with
    | .error _ => ∃ slot ∈ block, n ≤ slot
    | .ok none => ¬ ∀ slot ∈ block, IdleSlot l holds slot
    | .ok (some newest) => (∀ slot ∈ block, IdleSlot l holds slot) ∧ newestAccess ≤ newest ∧
      (∀ slot ∈ block, ∀ h : slot < n, l.slotLastAccess[slot] ≤ newest) ∧
      (newest = newestAccess ∨ ∃ slot ∈ block, ∃ h : slot < n,
        l.slotLastAccess[slot] = newest) := by
  induction block generalizing newestAccess with
  | nil => exact ⟨(fun _ h => by cases h), le_refl _, (fun _ h => by cases h), .inl rfl⟩
  | cons slot block ih =>
    rw [SlotLedger.scanBlock]
    by_cases hslot : slot < n
    · rw [slotIndex_of_lt hslot]
      dsimp only [Fin.getElem_fin]
      split_ifs with hactive
      · intro hall
        obtain ⟨-, hpos, hrequests⟩ := hall slot List.mem_cons_self
        rw [getElem_activeSlotBitmap, h.counts slot hslot] at hactive
        rcases hactive with ⟨slots, hslots, hmem⟩ | hzero
        · exact hrequests slots hslots hmem
        · exact hpos.ne' hzero
      · rw [not_or, getElem_activeSlotBitmap, h.counts slot hslot] at hactive
        have hidle : IdleSlot l holds slot :=
          ⟨hslot, Nat.pos_of_ne_zero hactive.2, fun slots hslots hmem =>
            hactive.1 ⟨slots, hslots, hmem⟩⟩
        have hrest := ih (max newestAccess l.slotLastAccess[slot])
        rcases hscan : SlotLedger.scanBlock l l.activeSlotBitmap block
          (max newestAccess l.slotLastAccess[slot]) with e | _ | newest <;> rw [hscan] at hrest
        · obtain ⟨x, hx, hle⟩ := hrest
          exact ⟨x, List.mem_cons_of_mem slot hx, hle⟩
        · exact fun hall => hrest fun x hx => hall x (List.mem_cons_of_mem slot hx)
        · obtain ⟨hall, hle, hnewest, hfrom⟩ := hrest
          have hmax := max_le_iff.mp hle
          refine ⟨List.forall_mem_cons.mpr ⟨hidle, hall⟩, hmax.1,
            List.forall_mem_cons.mpr ⟨fun _ => hmax.2, hnewest⟩, ?_⟩
          rcases hfrom with heq | ⟨x, hx, hlt, heq⟩
          · rcases max_choice newestAccess l.slotLastAccess[slot] with hleft | hright
            · exact .inl (heq.trans hleft)
            · exact .inr ⟨slot, List.mem_cons_self, hslot, (heq.trans hright).symm⟩
          · exact .inr ⟨x, List.mem_cons_of_mem slot hx, hlt, heq⟩
    · rw [slotIndex, dif_neg hslot]
      exact ⟨slot, List.mem_cons_self, Nat.le_of_not_lt hslot⟩

theorem Counted.scanBlock_newest (h : Counted l holds) (hnil : block ≠ []) {newest : Nat}
    (hscan : SlotLedger.scanBlock l l.activeSlotBitmap block 0 = .ok (some newest)) :
    (∀ slot ∈ block, IdleSlot l holds slot) ∧ IsNewest l block newest := by
  have hspec := h.scanBlock block 0
  rw [hscan] at hspec
  obtain ⟨hidle, -, hnewest, rfl | hfrom⟩ := hspec
  · obtain ⟨slot, hslot⟩ := List.exists_mem_of_ne_nil block hnil
    have hlt := (hidle slot hslot).1
    exact ⟨hidle, hnewest, slot, hslot, hlt, Nat.le_zero.mp (hnewest slot hslot hlt)⟩
  · exact ⟨hidle, hnewest, hfrom⟩

end Loops

theorem candidateLoop_spec {s : Held n} (h : s.Inv) (blocks : List (List Nat))
    (candidates : List (Nat × List Nat)) :
    match candidateLoop s.ledger s.ledger.activeSlotBitmap blocks candidates with
    | .error _ => ∃ block ∈ blocks, ∃ slot ∈ block, n ≤ slot
    | .ok found => ∃ more, found = candidates ++ more ∧
      more.map Prod.snd = blocks.filter (fun block => s.Idle block) ∧
      ∀ candidate ∈ more, IsNewest s.ledger candidate.2 candidate.1 := by
  induction blocks generalizing candidates with
  | nil => exact ⟨[], (List.append_nil _).symm, rfl, (fun _ h => by cases h)⟩
  | cons block blocks ih =>
    -- What holds of the rest of the blocks, when the first one is not a candidate.
    have hskip (hnot : ¬ s.Idle block) :
        match candidateLoop s.ledger s.ledger.activeSlotBitmap blocks candidates with
        | .error _ => ∃ b ∈ block :: blocks, ∃ slot ∈ b, n ≤ slot
        | .ok found => ∃ more, found = candidates ++ more ∧
          more.map Prod.snd = (block :: blocks).filter (fun block => s.Idle block) ∧
          ∀ candidate ∈ more, IsNewest s.ledger candidate.2 candidate.1 := by
      have hrest := ih candidates
      rcases hloop : candidateLoop s.ledger s.ledger.activeSlotBitmap blocks candidates with
        e | found <;> rw [hloop] at hrest
      · obtain ⟨b, hb, hslot⟩ := hrest
        exact ⟨b, List.mem_cons_of_mem block hb, hslot⟩
      · rwa [List.filter_cons_of_neg (by simpa using hnot)]
    rw [candidateLoop]
    split_ifs with hnil
    · exact hskip fun hidle => hidle.1 hnil
    · have hspec := h.counted.scanBlock block 0
      rcases hscan : scanBlock s.ledger s.ledger.activeSlotBitmap block 0 with e | _ | newest
      · rw [hscan] at hspec
        exact ⟨block, List.mem_cons_self, hspec⟩
      · rw [hscan] at hspec
        exact hskip fun hidle => hspec hidle.2
      · obtain ⟨hidle, hnewest⟩ := h.counted.scanBlock_newest hnil hscan
        have hrest := ih (candidates ++ [(newest, block)])
        dsimp only
        rcases hloop : candidateLoop s.ledger s.ledger.activeSlotBitmap blocks
          (candidates ++ [(newest, block)]) with e | found <;> rw [hloop] at hrest
        · obtain ⟨b, hb, hslot⟩ := hrest
          exact ⟨b, List.mem_cons_of_mem block hb, hslot⟩
        · obtain ⟨more, rfl, hmap, hall⟩ := hrest
          refine ⟨(newest, block) :: more, by rw [List.append_assoc]; rfl, ?_,
            List.forall_mem_cons.mpr ⟨hnewest, hall⟩⟩
          rw [List.filter_cons_of_pos (by simpa using ⟨hnil, hidle⟩), List.map_cons, hmap]

/-- The selection is the shortest front that reaches the target. -/
theorem selectLoop_spec {targetTokens : Nat} (htarget : targetTokens < 2 ^ 64)
    (candidates : List (Nat × List Nat)) {tokens : Nat} (htokens : tokens < targetTokens)
    (selected : List (List Nat)) :
    ∃ front rest, selectLoop targetTokens candidates tokens selected = selected ++ front ∧
      candidates.map Prod.snd = front ++ rest ∧
      (targetTokens ≤ tokens + front.flatten.length ∨ rest = []) ∧
      ∀ front', front' <+: front → targetTokens ≤ tokens + front'.flatten.length →
        front' = front := by
  induction candidates generalizing tokens selected with
  | nil =>
    exact ⟨[], [], (List.append_nil _).symm, rfl, .inr rfl,
      fun front' hfront' _ => List.prefix_nil.mp hfront'⟩
  | cons candidate candidates ih =>
    obtain ⟨newest, block⟩ := candidate
    -- No front is shorter than one block, as the target has not been reached.
    have hfirst {rest front' : List (List Nat)} (hfront' : front' <+: block :: rest)
        (hreached : targetTokens ≤ tokens + front'.flatten.length) :
        ∃ front'', front' = block :: front'' ∧ front'' <+: rest := by
      cases front' with
      | nil => exact absurd hreached (Nat.not_le_of_lt htokens)
      | cons b front'' =>
        obtain ⟨rfl, htail⟩ := List.cons_prefix_cons.mp hfront'
        exact ⟨front'', rfl, htail⟩
    have hmax : Word.maxVal 64 = 2 ^ 64 - 1 := rfl
    rw [selectLoop]
    split_ifs with hreached
    · refine ⟨[block], candidates.map Prod.snd, rfl, rfl, .inl ?_, ?_⟩
      · rw [Word.saturatingAdd] at hreached
        simpa using hreached.trans (Nat.min_le_left _ _)
      · intro front' hfront' htargets
        obtain ⟨front'', rfl, htail⟩ := hfirst hfront' htargets
        rw [List.prefix_nil.mp htail]
    · have hexact : Word.saturatingAdd 64 tokens block.length = tokens + block.length := by
        rw [Word.saturatingAdd] at hreached ⊢
        omega
      rw [hexact] at hreached ⊢
      obtain ⟨front, rest, heq, hmap, hstop, hshortest⟩ :=
        ih (Nat.lt_of_not_le hreached) (selected ++ [block])
      refine ⟨block :: front, rest, by rw [heq, List.append_assoc]; rfl,
        congrArg (block :: ·) hmap, ?_, ?_⟩
      · rwa [List.flatten_cons, List.length_append, ← Nat.add_assoc]
      · intro front' hfront' htargets
        obtain ⟨front'', rfl, htail⟩ := hfirst hfront' htargets
        rw [List.flatten_cons, List.length_append, ← Nat.add_assoc] at htargets
        rw [hshortest front'' htail htargets]

/-! ## Runs -/

namespace Held

variable {s : Held n}

/-- The order of the recorded accesses is that of the last uses. -/
theorem Inv.notAfter (h : s.Inv) {a b : List Nat} {newest newest' : Nat} (ha : s.Idle a)
    (hb : s.Idle b) (hnewest : IsNewest s.ledger a newest) (hnewest' : IsNewest s.ledger b newest')
    (hle : newest ≤ newest') : s.NotAfter a b := by
  obtain ⟨bumps, htimed⟩ := h.timed
  obtain ⟨-, y, hy, hylt, rfl⟩ := hnewest'
  intro x hx
  obtain ⟨hxlt, hxpos, -⟩ := ha.2 x hx
  exact ⟨y, hy, (htimed.order x y hxlt hylt hxpos (hb.2 y hy).2.1).mp
    ((hnewest.1 x hx hxlt).trans hle)⟩

theorem Inv.conserved (h : s.Inv) : s.Conserved := by
  intro slot
  refine ⟨h.counted.counts slot, ?_⟩
  rw [h.counted.nodup.count]
  exact if_congr (h.counted.free slot) rfl rfl

/-- The sorted candidates are an order of the idle blocks by their last uses. -/
theorem Inv.candidates (h : s.Inv) {blocks : List (List Nat)} {found : List (Nat × List Nat)}
    (hloop : candidateLoop s.ledger s.ledger.activeSlotBitmap blocks [] = .ok found) :
    ((sortBy (fun a b => compare a.1 b.1) found).map Prod.snd).Perm
        (blocks.filter fun block => s.Idle block) ∧
      ((sortBy (fun a b => compare a.1 b.1) found).map Prod.snd).Pairwise s.NotAfter := by
  have hspec := candidateLoop_spec h blocks []
  rw [hloop] at hspec
  obtain ⟨more, rfl, hmap, hnewest⟩ := hspec
  have hperm := sortBy_perm (fun a b : Nat × List Nat => compare a.1 b.1) found
  have hidle {candidate : Nat × List Nat} (hmem : candidate ∈ found) : s.Idle candidate.2 := by
    have hfilter := List.mem_map_of_mem (f := Prod.snd) hmem
    rw [hmap, List.mem_filter] at hfilter
    exact of_decide_eq_true hfilter.2
  refine ⟨hmap ▸ hperm.map Prod.snd, ?_⟩
  rw [List.pairwise_map]
  refine (sortBy_pairwise Prod.fst (fun _ _ => rfl) found).imp_of_mem fun {a b} ha hb hle => ?_
  have ha' : a ∈ found := hperm.mem_iff.mp ha
  have hb' : b ∈ found := hperm.mem_iff.mp hb
  exact h.notAfter (hidle ha') (hidle hb') (hnewest a ha') (hnewest b hb') hle

theorem Inv.evicts (h : s.Inv) (candidateBlocks : List (List Nat)) {targetTokens : Nat}
    (htarget : targetTokens < 2 ^ 64) : s.Evicts candidateBlocks targetTokens := by
  unfold Evicts selectEvictionCandidates
  split_ifs with hempty
  · refine ⟨_, .refl _, .nil, (fun _ h => by cases h), ?_,
      fun front hfront _ => List.prefix_nil.mp hfront⟩
    rcases hempty with hzero | hnil
    · exact .inl hzero.le
    · rw [hnil]
      exact .inr rfl
  · rcases hloop : candidateLoop s.ledger s.ledger.activeSlotBitmap candidateBlocks [] with
      e | found
    · have hspec := candidateLoop_spec h candidateBlocks []
      rw [hloop] at hspec
      exact hspec
    · obtain ⟨hperm, hsorted⟩ := h.candidates hloop
      obtain ⟨front, rest, heq, hmap, hstop, hshortest⟩ := selectLoop_spec htarget
        (sortBy (fun a b => compare a.1 b.1) found)
        (Nat.pos_of_ne_zero fun hzero => hempty (.inl hzero)) []
      rw [hmap] at hperm hsorted
      obtain ⟨hfront, -, hrest⟩ := List.pairwise_append.mp hsorted
      rw [Nat.zero_add] at hstop
      simp only [Nat.zero_add] at hshortest
      dsimp only
      rw [heq, List.nil_append]
      exact ⟨rest, hperm, hfront, hrest, hstop, hshortest⟩

theorem inv_start (hn : n < 2 ^ 32) : (start n).Inv := by
  have hzero (slot : Nat) : (start n).holds slot = 0 := rfl
  refine ⟨⟨fun slot hslot => Vector.getElem_replicate hslot, List.nodup_range, fun slot => ?_⟩, 0,
    fun x y hx hy hpos => absurd hpos (by rw [hzero]; exact Nat.lt_irrefl 0), fun x hx hpos =>
      absurd hpos (by rw [hzero]; exact Nat.lt_irrefl 0), fun x => le_refl _, le_refl _, rfl⟩
  change slot ∈ List.range (n % 2 ^ 32) ↔ slot < n ∧ (start n).holds slot = 0
  rw [Nat.mod_eq_of_lt hn, List.mem_range, hzero, and_iff_left rfl]

/-- In every run of less than `2 ^ 64` calls, in which no slot is ever held `2 ^ 32` times, the
slots are conserved and the eviction takes the idle blocks that were used least recently. -/
theorem spec_of_run (hn : n < 2 ^ 32) {ops : List Op}
    (hrun : Run (fun s op t => Step s op t ∧ t.Fits) (start n) ops s) :
    s.Conserved ∧ ∀ candidateBlocks targetTokens, targetTokens < 2 ^ 64 →
      s.Evicts candidateBlocks targetTokens := by
  have hinv : s.Inv :=
    hrun.invariant (fun _ _ _ h hstep => h.step hstep.1 hstep.2) (inv_start hn)
  exact ⟨hinv.conserved, fun candidateBlocks _ htarget => hinv.evicts candidateBlocks htarget⟩

/-- A run with a shared slot, a use and an eviction. -/
theorem spec_shared : ∃ s : Held 3, (s.Conserved ∧ ∀ candidateBlocks targetTokens,
    targetTokens < 2 ^ 64 → s.Evicts candidateBlocks targetTokens) ∧ s.holds 0 = 2 := by
  have hslots : (new 3).allocDetachedSlots 2 = some (.ok [0, 1], _) := rfl
  have hrun : Run (fun s op t => Step s op t ∧ t.Fits) (start 3)
      [.allocDetachedSlots 2, .shareSlots 7 [0], .registerAccess [1]] _ :=
    .cons ⟨.allocDetachedSlots hslots, by decide⟩ (.cons ⟨.shareSlots (by decide) rfl, by decide⟩
      (.cons ⟨.registerAccess rfl, by decide⟩ (.nil _)))
  exact ⟨_, spec_of_run (by decide) hrun, rfl⟩

/-! ## Beyond the bounds -/

/-- The slots of a pool of `2 ^ 32` are none. -/
theorem not_conserved_start : ¬ (start (2 ^ 32)).Conserved := by
  intro h
  have hzero := (h 0).2
  rw [if_pos ⟨Nat.two_pow_pos 32, rfl⟩] at hzero
  change (List.range (2 ^ 32 % 2 ^ 32)).count 0 = 1 at hzero
  rw [Nat.mod_self] at hzero
  exact absurd hzero (by decide)

/-- The refcount of a slot that is held `2 ^ 32` times is one less. -/
theorem exists_not_conserved :
    ∃ ops, ∃ s : Held 1, Run Step (start 1) ops s ∧ ¬ s.Conserved := by
  have halloc : ∃ s : Held 1, Step (start 1) (.allocTokens 0 1) s ∧ s.holds 0 = 1 ∧
      s.ledger.slotRefcounts[0] = 1 := by
    have hslots : (new 1).allocTokens 0 1 = some (.ok [0], _) := rfl
    exact ⟨_, .allocTokens hslots, rfl, rfl⟩
  obtain ⟨s, hstep, hholds, hcount⟩ := halloc
  have hmax : Word.maxVal 32 = 2 ^ 32 - 1 := rfl
  have hall : ∀ slot ∈ List.replicate (2 ^ 32 - 1) 0, slot < 1 := fun slot hslot =>
    (List.eq_of_mem_replicate hslot).trans_lt Nat.zero_lt_one
  have hzero {slot : Nat} (hslot : slot < 1) : slot = 0 := Nat.lt_one_iff.mp hslot
  obtain ⟨l, heq, hsame, hbound⟩ := shareSlots_requests hall
    (List.ne_nil_of_mem (List.mem_replicate.mpr ⟨by decide, rfl⟩)) s.ledger 0
  have hheld : ∀ slot ∈ List.replicate (2 ^ 32 - 1) 0, ∀ h : slot < 1,
      0 < s.ledger.slotRefcounts[slot] := by
    intro slot _ h
    obtain rfl := hzero h
    rw [hcount]
    exact Nat.zero_lt_one
  refine ⟨_, _, .cons hstep (.cons (.shareSlots hheld heq) (.nil _)), fun hconserved => ?_⟩
  have hle := hbound (fun slot h => by
    obtain rfl := hzero h
    rw [hcount, hmax]
    decide) 0 Nat.zero_lt_one
  have hfull := (hconserved 0).1 Nat.zero_lt_one
  rw [holds_after_request hsame, hold, hholds, List.count_replicate_self] at hfull
  change l.slotRefcounts[0] = _ at hfull
  omega

/-- A pool of two slots that are allocated and in no request. -/
def pair (access0 access1 tick : Nat) : SlotLedger 2 :=
  ⟨[], #v[1, 1], #v[access0, access1], ∅, tick⟩

theorem run_registerAccess (k access0 access1 : Nat) {tick : Nat} (htick : tick ≤ Word.maxVal 64)
    (clock : Nat) (usedAt : Nat → Nat) :
    ∃ access0' clock' usedAt',
      Run Step ⟨pair access0 access1 tick, [0, 1], clock, usedAt⟩
        (List.replicate k (.registerAccess [0]))
        ⟨pair access0' access1 (min (tick + k) (Word.maxVal 64)), [0, 1], clock', usedAt'⟩ := by
  induction k generalizing access0 tick clock usedAt with
  | zero =>
    refine ⟨access0, clock, usedAt, ?_⟩
    rw [Nat.add_zero, Nat.min_eq_left htick]
    exact .nil _
  | succ k ih =>
    have hmax : 1 ≤ Word.maxVal 64 := by decide
    have hnext : max (Word.saturatingAdd 64 tick 1) 1 = min (tick + 1) (Word.maxVal 64) := by
      rw [Word.saturatingAdd]
      omega
    have hcall : (pair access0 access1 tick).registerAccess [0] =
        (.ok (), pair tick access1 (max (Word.saturatingAdd 64 tick 1) 1)) := rfl
    rw [hnext] at hcall
    obtain ⟨access0', clock', usedAt', hrun⟩ := 
      ih tick (Nat.min_le_right (tick + 1) _) (clock + 1)
        fun slot => if slot ∈ [0] then clock + 1 else usedAt slot
    refine ⟨access0', clock', usedAt', ?_⟩
    rw [show min (tick + (k + 1)) (Word.maxVal 64) =
      min (min (tick + 1) (Word.maxVal 64) + k) (Word.maxVal 64) by omega]
    exact .cons (.registerAccess hcall) hrun

/-- Once the ticks are used up, the slot that was used later can go first. -/
theorem exists_not_evicts :
    ∃ ops, ∃ s : Held 2, Run Step (start 2) ops s ∧ ¬ s.Evicts [[1], [0]] 1 := by
  have hslots : (new 2).allocDetachedSlots 2 = some (.ok [0, 1], pair 1 1 2) := rfl
  obtain ⟨access0, clock, usedAt, hrun⟩ := run_registerAccess (Word.maxVal 64) 1 1
    (by decide : 2 ≤ Word.maxVal 64) 1 fun slot => if slot ∈ [0, 1] then 1 else 0
  rw [Nat.min_eq_right (Nat.le_add_left _ _)] at hrun
  have hfirst : (pair access0 1 (Word.maxVal 64)).registerAccess [0] =
      (.ok (), pair (Word.maxVal 64) 1 (Word.maxVal 64)) := rfl
  have hlast : (pair (Word.maxVal 64) 1 (Word.maxVal 64)).registerAccess [1] =
      (.ok (), pair (Word.maxVal 64) (Word.maxVal 64) (Word.maxVal 64)) := rfl
  let s : Held 2 := ⟨pair access0 1 (Word.maxVal 64), [0, 1], clock, usedAt⟩
  let t : Held 2 := (s.after (pair (Word.maxVal 64) 1 (Word.maxVal 64)) [0, 1] [0]).after
    (pair (Word.maxVal 64) (Word.maxVal 64) (Word.maxVal 64)) [0, 1] [1]
  refine ⟨_, t, .cons (.allocDetachedSlots hslots)
    (hrun.append (.cons (.registerAccess hfirst) (.cons (.registerAccess hlast) (.nil _)))),
    fun hevicts => ?_⟩
  have hselect : t.ledger.selectEvictionCandidates [[1], [0]] 1 = .ok [[1]] := rfl
  have hidle : t.Idle [0] := by
    refine ⟨(fun h => by cases h), fun slot hslot => ?_⟩
    obtain rfl := List.mem_singleton.mp hslot
    exact ⟨by decide, Nat.zero_lt_one, (fun _ h => by cases h)⟩
  unfold Evicts at hevicts
  rw [hselect] at hevicts
  obtain ⟨rest, hperm, -, hrest, -⟩ := hevicts
  have hmem : [0] ∈ [[1]] ++ rest :=
    hperm.mem_iff.mpr (List.mem_filter.mpr ⟨by decide, decide_eq_true hidle⟩)
  have hleft : [0] ∈ rest := (List.mem_append.mp hmem).resolve_left (by decide)
  obtain ⟨y, hy, hle⟩ := hrest [1] List.mem_cons_self [0] hleft 1 List.mem_cons_self
  obtain rfl := List.mem_singleton.mp hy
  have hnot : ¬ clock + 2 ≤ clock + 1 := Nat.not_succ_le_self (clock + 1)
  exact hnot hle

theorem not_spec_of_run : ¬ ∀ (n : Nat) (ops : List Op) (s : Held n), Run Step (start n) ops s →
    s.Conserved ∧ ∀ candidateBlocks targetTokens, targetTokens < 2 ^ 64 →
      s.Evicts candidateBlocks targetTokens := by
  intro hall
  obtain ⟨ops, s, hrun, hnot⟩ := exists_not_conserved
  exact hnot (hall 1 ops s hrun).1

end Held

end Arle.Metal.SlotLedger
