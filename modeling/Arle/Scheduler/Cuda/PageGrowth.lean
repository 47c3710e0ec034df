import Arle.CudaKernels.PagedKvBudget
import Arle.Lib.Run
import Arle.Scheduler.Cuda.Admission

/-!
# What the page budget promises

`PageBudget` plans growths and targets of slots against the free pages of the pool. A run makes a
reservation only after `can_fit` has allowed it, and the pool executes what is reserved. As long as
no target lies below the planned length of its slot, the planned lengths are those of the pool, and
the pages that are left in the budget and the pages that the pool has taken make up the free pages.

`reserve_target` writes a lower target into the plan, although the slot keeps its length; the
growths behind it are then charged too little.
-/

namespace Arle.Scheduler.Cuda

open CudaKernels (TokenKVPool)

/-! ## Growth reservations -/

structure PageGrowth where
  slotIdx : Nat
  tokens : Nat

namespace PageBudget

def new (remainingFreePages : Nat) (plannedSeqLens : List Nat) (pageSize : Nat) (active : Bool) :
    PageBudget :=
  { remainingFreePages
    plannedSeqLens
    appendCowPages := []
    pageSize := normalizedPageSize pageSize
    active }

variable (self : PageBudget)

def additionalPagesForGrowth (growth : PageGrowth) : Nat :=
  additionalPagesNeeded (self.plannedSeqLens.getD growth.slotIdx 0) growth.tokens self.pageSize +
    (if growth.tokens > 0 then self.appendCowPages.getD growth.slotIdx 0 else 0)

def canFitGrowth (growth : PageGrowth) : Bool :=
  !self.active || self.additionalPagesForGrowth growth ≤ self.remainingFreePages

def reserveGrowth (growth : PageGrowth) : PageBudget :=
  if self.active then
    { self with
      remainingFreePages := self.remainingFreePages - self.additionalPagesForGrowth growth
      plannedSeqLens := self.plannedSeqLens.set growth.slotIdx
        (Word.saturatingAdd 64 (self.plannedSeqLens.getD growth.slotIdx 0) growth.tokens)
      appendCowPages :=
        if growth.tokens > 0 then self.appendCowPages.set growth.slotIdx 0
        else self.appendCowPages }
  else
    self

end PageBudget

/-! ## The pool that executes the plan -/

/-- What the appends of a pool depend on, and the pages that they have taken off its free stack. -/
structure PoolSlots where
  seqLens : List Nat
  /-- The pages that the next append to each slot copies. -/
  appendCow : List Nat
  newPages : Nat

namespace PoolSlots

variable (pool : PoolSlots)

/-- An append of `tokens` tokens. -/
def append (pageSize slotIdx tokens : Nat) : PoolSlots :=
  let seqLen := pool.seqLens.getD slotIdx 0
  { seqLens := pool.seqLens.set slotIdx (seqLen + tokens)
    appendCow := if tokens > 0 then pool.appendCow.set slotIdx 0 else pool.appendCow
    newPages := pool.newPages + (divCeil (seqLen + tokens) pageSize - divCeil seqLen pageSize) +
      (if tokens > 0 then pool.appendCow.getD slotIdx 0 else 0) }

/-- A slot gets a prefix whose pages are in the pool already. -/
def attachPrefix (slotIdx seqFloor : Nat) : PoolSlots :=
  { pool with seqLens := pool.seqLens.set slotIdx (max (pool.seqLens.getD slotIdx 0) seqFloor) }

end PoolSlots

theorem divCeil_mul_add {pageSize : Nat} (hpos : 0 < pageSize) (k n : Nat) :
    divCeil (k * pageSize + n) pageSize = k + divCeil n pageSize := by
  unfold divCeil
  rw [Nat.add_assoc, Nat.add_sub_assoc (by omega), Nat.mul_comm, Nat.mul_add_div hpos]

theorem divCeil_of_le {pageSize n : Nat} (hn : 0 < n) (hle : n ≤ pageSize) :
    divCeil n pageSize = 1 := by
  unfold divCeil
  rw [Nat.div_eq_iff (by omega)]
  omega

/-- The pages that the pool takes for an append are the ones of the new length that the old length
has not. -/
theorem newPageCount_eq {pool : TokenKVPool} (hpos : 0 < pool.pageSize) (seqLen count : Nat) :
    pool.newPageCount seqLen count =
      divCeil (seqLen + count) pool.pageSize - divCeil seqLen pool.pageSize := by
  have hdiv := Nat.div_add_mod' seqLen pool.pageSize
  have hmod := Nat.mod_lt seqLen hpos
  unfold TokenKVPool.newPageCount TokenKVPool.availableInLastPage TokenKVPool.pagesFor
  generalize seqLen / pool.pageSize = k at hdiv
  generalize seqLen % pool.pageSize = used at hdiv hmod
  subst hdiv
  change divCeil _ _ = _
  rw [Nat.add_assoc, divCeil_mul_add hpos, divCeil_mul_add hpos, Nat.add_sub_add_left]
  by_cases hused : used = 0
  · have hzero : divCeil 0 pool.pageSize = 0 := Nat.div_eq_of_lt (by omega)
    rw [if_pos hused, hused, hzero, Nat.sub_zero, Nat.sub_zero, Nat.zero_add]
  · rw [if_neg hused, divCeil_of_le (n := used) (by omega) (by omega)]
    rcases Nat.le_total count (pool.pageSize - used) with hle | hge
    · -- the tail page has room for the append
      rw [divCeil_of_le (n := used + count) (by omega) (by omega), Nat.sub_eq_zero_of_le hle]
      exact Nat.div_eq_of_lt (by omega)
    · have hsplit : used + count = 1 * pool.pageSize + (count - (pool.pageSize - used)) := by omega
      rw [hsplit, divCeil_mul_add hpos, Nat.add_sub_cancel_left]

/-- The pages that `PoolSlots` counts for an append are those that `append_pages_needed` says. -/
theorem append_newPages {pool : TokenKVPool} {slots : PoolSlots} {slot count seqLen : Nat}
    {shared : Option Nat} (hcount : 0 < count) (hlen : pool.seqLens[slot]? = some seqLen)
    (hshared : pool.slotSharedHotTailPage slot = some shared)
    (hseq : slots.seqLens.getD slot 0 = seqLen)
    (hcow : slots.appendCow.getD slot 0 = if shared.isSome then 1 else 0) :
    ∃ needed, pool.appendPagesNeeded slot count = some needed ∧
      (slots.append pool.pageSize slot count).newPages = slots.newPages + needed := by
  refine ⟨(if shared.isSome then 1 else 0) + pool.newPageCount seqLen count, ?_, ?_⟩
  · rw [TokenKVPool.appendPagesNeeded, if_neg (Nat.ne_of_gt hcount), TokenKVPool.slotHotTailLen,
      hlen, hshared]
    rfl
  · rw [newPageCount_eq pool.pageSize_pos, PoolSlots.append]
    dsimp only
    rw [hseq, if_pos hcount, hcow]
    omega

/-- In every run of the calls of the scheduler an append takes the pages that `PoolSlots` counts. -/
theorem append_takes_newPages {maxTotalPages pageSize : Nat} {s : TokenKVPool.Holding}
    (h : Reachable (TokenKVPool.Created maxTotalPages pageSize) TokenKVPool.ContractStep s)
    {slots : PoolSlots} {slot count seqLen : Nat} {table : List Nat} {shared : Option Nat}
    (hcount : 0 < count) (htable : s.pool.pageIndices[slot]? = some table)
    (hlen : s.pool.seqLens[slot]? = some seqLen)
    (hshared : s.pool.slotSharedHotTailPage slot = some shared)
    (hseq : slots.seqLens.getD slot 0 = seqLen)
    (hcow : slots.appendCow.getD slot 0 = if shared.isSome then 1 else 0)
    (hfits : (slots.append s.pool.pageSize slot count).newPages ≤
      slots.newPages + s.pool.freePages.length) :
    ∃ newPages s', s.pool.tryAllocPoolTokensOnceCopying true slot count =
        some (.ok newPages, s'.pool) ∧
      TokenKVPool.ContractStep s (.append slot count true) s' ∧
      s'.pool.freePages.length + (slots.append s.pool.pageSize slot count).newPages =
        s.pool.freePages.length + slots.newPages := by
  obtain ⟨needed, hneeded, hpages⟩ := append_newPages hcount hlen hshared hseq hcow
  obtain ⟨needed', result, s', hneeded', hcall, hstep, hiff, hleft⟩ :=
    TokenKVPool.append_step_budget h htable hlen hcount
  obtain rfl := Option.some.inj (hneeded.symm.trans hneeded')
  obtain ⟨newPages, rfl⟩ := hiff.mpr (by omega)
  have := hleft ⟨newPages, rfl⟩
  exact ⟨newPages, s', hcall, hstep, by omega⟩

/-! ## The runs -/

inductive Reservation
  | growth (growth : PageGrowth)
  | target (target : PageTarget)

namespace Reservation

def slotIdx : Reservation → Nat
  | growth g => g.slotIdx
  | target t => t.slotIdx

def canFit (budget : PageBudget) : Reservation → Bool
  | growth g => budget.canFitGrowth g
  | target t => budget.canFitTarget t

def reserve (budget : PageBudget) : Reservation → PageBudget
  | growth g => budget.reserveGrowth g
  | target t => budget.reserveTarget t

/-- The pool attaches the prefix of a target and grows the slot to the rest of it. -/
def execute (pageSize : Nat) (pool : PoolSlots) : Reservation → PoolSlots
  | growth g => pool.append pageSize g.slotIdx g.tokens
  | target t =>
    let attached := pool.attachPrefix t.slotIdx t.seqFloor
    attached.append pageSize t.slotIdx
      (max t.targetSeq t.seqFloor - attached.seqLens.getD t.slotIdx 0)

end Reservation

/-- A budget and the pool that it plans for. -/
structure Planning where
  budget : PageBudget
  pool : PoolSlots

namespace Planning

/-- An active budget of a pool with `freePages` free pages. -/
structure Start (freePages : Nat) (s : Planning) : Prop where
  active : s.budget.active = true
  free : s.budget.remainingFreePages = freePages
  seqLens : s.pool.seqLens = s.budget.plannedSeqLens
  appendCow : s.pool.appendCow = s.budget.appendCowPages
  newPages : s.pool.newPages = 0

/-- A reservation that fits is made and executed. A slot index out of range panics. -/
inductive Step : Planning → Reservation → Planning → Prop
  | reserve {s : Planning} {r : Reservation} (hslot : r.slotIdx < s.budget.plannedSeqLens.length)
      (hfit : r.canFit s.budget = true) :
      Step s r ⟨r.reserve s.budget, r.execute (normalizedPageSize s.budget.pageSize) s.pool⟩

/-- The planned length of a slot. -/
def planned (s : Planning) (slotIdx : Nat) : Nat := s.budget.plannedSeqLens.getD slotIdx 0

/-- No target lies below the planned length of its slot. -/
def KeepsLength (s : Planning) : Reservation → Prop
  | .growth _ => True
  | .target t => s.planned t.slotIdx ≤ max t.targetSeq t.seqFloor

/-- The lengths and the pages are below the largest `usize`. -/
def InWord (s : Planning) : Reservation → Prop
  | .growth g => s.planned g.slotIdx + g.tokens + s.budget.appendCowPages.getD g.slotIdx 0 ≤
      Word.maxVal 64
  | .target t => max t.targetSeq t.seqFloor + s.budget.appendCowPages.getD t.slotIdx 0 ≤
      Word.maxVal 64

/-- The condition on a reservation. -/
def Admissible (s : Planning) (r : Reservation) : Prop := s.KeepsLength r ∧ s.InWord r

/-- The plan and the pool agree, and no page is charged twice or not at all. -/
structure Agree (freePages : Nat) (s : Planning) : Prop where
  active : s.budget.active = true
  seqLens : s.pool.seqLens = s.budget.plannedSeqLens
  appendCow : s.pool.appendCow = s.budget.appendCowPages
  account : s.budget.remainingFreePages + s.pool.newPages = freePages

theorem Start.agree {freePages : Nat} {s : Planning} (h : Start freePages s) :
    Agree freePages s where
  active := h.active
  seqLens := h.seqLens
  appendCow := h.appendCow
  account := by rw [h.newPages, h.free, Nat.add_zero]

/-! ## One reservation -/

theorem additionalPagesNeeded_eq (pageSize : Nat) {seqLen tokens : Nat}
    (h : seqLen + tokens ≤ Word.maxVal 64) :
    additionalPagesNeeded seqLen tokens pageSize =
      divCeil (seqLen + tokens) (normalizedPageSize pageSize) -
        divCeil seqLen (normalizedPageSize pageSize) := by
  unfold additionalPagesNeeded
  split
  · next hzero => rw [hzero, Nat.add_zero, Nat.sub_self]
  · rw [Word.saturatingAdd, Nat.min_eq_left h]

theorem additionalPagesForGrowth_eq (budget : PageBudget) {g : PageGrowth}
    (h : budget.plannedSeqLens.getD g.slotIdx 0 + g.tokens ≤ Word.maxVal 64) :
    budget.additionalPagesForGrowth g =
      (divCeil (budget.plannedSeqLens.getD g.slotIdx 0 + g.tokens)
          (normalizedPageSize budget.pageSize) -
        divCeil (budget.plannedSeqLens.getD g.slotIdx 0) (normalizedPageSize budget.pageSize)) +
        (if g.tokens > 0 then budget.appendCowPages.getD g.slotIdx 0 else 0) := by
  unfold PageBudget.additionalPagesForGrowth
  rw [additionalPagesNeeded_eq budget.pageSize h]

theorem additionalPagesForTarget_eq (budget : PageBudget) {g : PageTarget}
    (h : budget.effectiveSeqLen g.slotIdx g.seqFloor ≤ max g.targetSeq g.seqFloor)
    (hword : max g.targetSeq g.seqFloor ≤ Word.maxVal 64) :
    budget.additionalPagesForTarget g =
      (divCeil (max g.targetSeq g.seqFloor) (normalizedPageSize budget.pageSize) -
        divCeil (budget.effectiveSeqLen g.slotIdx g.seqFloor)
          (normalizedPageSize budget.pageSize)) +
        (if max g.targetSeq g.seqFloor > budget.effectiveSeqLen g.slotIdx g.seqFloor then
          budget.appendCowPages.getD g.slotIdx 0 else 0) := by
  have hsum := Nat.add_sub_cancel' h
  unfold PageBudget.additionalPagesForTarget
  dsimp only
  rw [additionalPagesNeeded_eq budget.pageSize (hsum.symm ▸ hword), hsum]

section Steps

variable {freePages : Nat} {s t : Planning} {r : Reservation}

theorem planned_set (slotIdx seqLen : Nat) (hslot : slotIdx < s.budget.plannedSeqLens.length)
    (i : Nat) : (s.budget.plannedSeqLens.set slotIdx seqLen).getD i 0 =
      if i = slotIdx then seqLen else s.planned i := by
  unfold planned
  rw [List.getD_eq_getElem?_getD, List.getD_eq_getElem?_getD, List.getElem?_set]
  by_cases hi : i = slotIdx
  · rw [if_pos hi.symm, if_pos hi, if_pos hslot]
    rfl
  · rw [if_neg (Ne.symm hi), if_neg hi]

theorem Agree.growth (h : s.Agree freePages) (g : PageGrowth)
    (hword : s.InWord (.growth g)) (hfit : s.budget.canFitGrowth g = true) :
    Agree freePages
      ⟨s.budget.reserveGrowth g, s.pool.append (normalizedPageSize s.budget.pageSize) g.slotIdx
        g.tokens⟩ := by
  have hlen : s.budget.plannedSeqLens.getD g.slotIdx 0 + g.tokens ≤ Word.maxVal 64 :=
    Nat.le_trans (Nat.le_add_right _ _) hword
  have hle : s.budget.additionalPagesForGrowth g ≤ s.budget.remainingFreePages := by
    simpa [PageBudget.canFitGrowth, h.active] using hfit
  have haccount := h.account
  unfold PageBudget.reserveGrowth PoolSlots.append
  rw [additionalPagesForGrowth_eq s.budget hlen] at hle ⊢
  rw [if_pos h.active, Word.saturatingAdd, Nat.min_eq_left hlen, h.seqLens, h.appendCow]
  refine { active := h.active, seqLens := rfl, appendCow := rfl, account := ?_ }
  dsimp only
  omega

/-- The prefix of a target is attached up to the length that the budget starts from. -/
theorem attachPrefix_seqLens (h : s.pool.seqLens = s.budget.plannedSeqLens)
    {g : PageTarget} (hslot : g.slotIdx < s.budget.plannedSeqLens.length) :
    (s.pool.attachPrefix g.slotIdx g.seqFloor).seqLens.getD g.slotIdx 0 =
      s.budget.effectiveSeqLen g.slotIdx g.seqFloor := by
  unfold PoolSlots.attachPrefix PageBudget.effectiveSeqLen
  rw [h]
  exact (planned_set g.slotIdx _ hslot g.slotIdx).trans (if_pos rfl)

theorem Agree.target (h : s.Agree freePages) (g : PageTarget)
    (hslot : g.slotIdx < s.budget.plannedSeqLens.length) (hkeeps : s.KeepsLength (.target g))
    (hword : s.InWord (.target g)) (hfit : s.budget.canFitTarget g = true) :
    Agree freePages
      ⟨s.budget.reserveTarget g,
        Reservation.execute (normalizedPageSize s.budget.pageSize) s.pool (.target g)⟩ := by
  have hcurrent : s.budget.effectiveSeqLen g.slotIdx g.seqFloor ≤ max g.targetSeq g.seqFloor :=
    Nat.max_le.mpr ⟨hkeeps, Nat.le_max_right _ _⟩
  have hlen : max g.targetSeq g.seqFloor ≤ Word.maxVal 64 :=
    Nat.le_trans (Nat.le_add_right _ _) hword
  have hle : s.budget.additionalPagesForTarget g ≤ s.budget.remainingFreePages := by
    simpa [PageBudget.canFitTarget, h.active] using hfit
  have haccount := h.account
  have hlens : (s.pool.attachPrefix g.slotIdx g.seqFloor).seqLens.set g.slotIdx
      (max g.targetSeq g.seqFloor) =
        s.budget.plannedSeqLens.set g.slotIdx (max g.targetSeq g.seqFloor) := by
    unfold PoolSlots.attachPrefix
    rw [h.seqLens, List.set_set]
  have hcow : (s.pool.attachPrefix g.slotIdx g.seqFloor).appendCow = s.budget.appendCowPages :=
    h.appendCow
  have hpages : (s.pool.attachPrefix g.slotIdx g.seqFloor).newPages = s.pool.newPages := rfl
  unfold Reservation.execute PageBudget.reserveTarget PoolSlots.append
  rw [additionalPagesForTarget_eq s.budget hcurrent hlen] at hle ⊢
  rw [if_pos h.active]
  dsimp only
  rw [attachPrefix_seqLens h.seqLens hslot, Nat.add_sub_cancel' hcurrent, hlens, hcow, hpages]
  simp only [gt_iff_lt, Nat.sub_pos_iff_lt] at hle ⊢
  refine { active := h.active, seqLens := rfl, appendCow := rfl, account := ?_ }
  dsimp only
  omega

/-- An admissible reservation keeps the plan and the pool in agreement. -/
theorem Agree.step (h : s.Agree freePages) (hstep : guarded Admissible Step s r t) :
    t.Agree freePages := by
  obtain ⟨⟨hkeeps, hword⟩, hstep⟩ := hstep
  cases hstep with
  | reserve hslot hfit =>
    cases r with
    | growth g => exact h.growth g hword hfit
    | target g => exact h.target g hslot hkeeps hword hfit

/-- The planned lengths after a reservation. -/
theorem planned_reserve (hactive : s.budget.active = true) (hstep : Step s r t) (i : Nat) :
    t.planned i =
      if i = r.slotIdx then
        match r with
        | .growth g => Word.saturatingAdd 64 (s.planned g.slotIdx) g.tokens
        | .target g => max g.targetSeq g.seqFloor
      else s.planned i := by
  cases hstep with
  | reserve hslot hfit =>
    cases r with
    | growth g =>
      change (s.budget.reserveGrowth g).plannedSeqLens.getD i 0 = _
      unfold PageBudget.reserveGrowth
      rw [if_pos hactive]
      exact planned_set g.slotIdx _ hslot i
    | target g =>
      change (s.budget.reserveTarget g).plannedSeqLens.getD i 0 = _
      unfold PageBudget.reserveTarget
      rw [if_pos hactive]
      exact planned_set g.slotIdx _ hslot i

theorem planned_le (hactive : s.budget.active = true) (hstep : guarded Admissible Step s r t)
    (i : Nat) : s.planned i ≤ t.planned i := by
  obtain ⟨⟨hkeeps, hword⟩, hstep⟩ := hstep
  rw [planned_reserve hactive hstep]
  split
  next hi =>
    subst hi
    cases r with
    | growth g =>
      have hlen := Nat.le_trans (Nat.le_add_right _ _) hword
      exact Nat.le_min.mpr ⟨Nat.le_add_right _ _, Nat.le_trans (Nat.le_add_right _ _) hlen⟩
    | target g => exact hkeeps
  next => exact Nat.le_refl _

theorem keepsLength_of_le (hactive : s.budget.active = true) (hstep : Step s r t)
    (hle : ∀ i, s.planned i ≤ t.planned i) : s.KeepsLength r := by
  cases r with
  | growth g => trivial
  | target g =>
    have hslot := hle g.slotIdx
    rw [planned_reserve hactive hstep, if_pos (show g.slotIdx = Reservation.slotIdx (.target g) from
      rfl)] at hslot
    exact hslot

end Steps

/-! ## All runs -/

theorem agree_of_reachable {freePages : Nat} {s : Planning}
    (h : Reachable (Start freePages) (guarded Admissible Step) s) : s.Agree freePages :=
  h.invariant (fun _ hstart => hstart.agree) fun _ _ _ hagree hstep => hagree.step hstep

/-- As long as no target lies below the planned length of its slot and no length leaves a word, the
pool takes no more pages than it has free, and no planned length decreases. A target that lies below
does decrease the planned length. -/
theorem page_budget_sound {freePages : Nat} {s : Planning}
    (h : Reachable (Start freePages) (guarded Admissible Step) s) :
    s.pool.newPages ≤ freePages ∧
      (∀ r t, guarded Admissible Step s r t → ∀ i, s.planned i ≤ t.planned i) ∧
      (∀ r t, Step s r t → (∀ i, s.planned i ≤ t.planned i) → s.KeepsLength r) := by
  have hagree := agree_of_reachable h
  refine ⟨?_, fun r t hstep => planned_le hagree.active hstep,
    fun r t hstep => keepsLength_of_le hagree.active hstep⟩
  have haccount := hagree.account
  omega

/-- One slot of seven tokens whose last page has one free row, and no free page. -/
def sevenTokens : Planning :=
  { budget := PageBudget.new 0 [7] 4 true
    pool := { seqLens := [7], appendCow := [], newPages := 0 } }

theorem start_sevenTokens : Start 0 sevenTokens where
  active := rfl
  free := rfl
  seqLens := rfl
  appendCow := rfl
  newPages := rfl

/-- The free row is reserved and filled. -/
theorem page_budget_sound_one_row :
    ∃ s, Reachable (Start 0) (guarded Admissible Step) s ∧ s.pool.seqLens = [8] ∧
      s.pool.newPages ≤ 0 := by
  have hreach : Reachable (Start 0) (guarded Admissible Step) _ :=
    (Reachable.start start_sevenTokens).next
      (a := .growth ⟨0, 1⟩) ⟨⟨trivial, Nat.le_of_ble_eq_true rfl⟩, .reserve (by decide) (by decide)⟩
  exact ⟨_, hreach, rfl, (page_budget_sound hreach).1⟩

/-- A target of five tokens takes back two of the planned tokens, and the next three tokens, which
fit the plan, need a page that is not free. -/
theorem lower_target_overcommits :
    ∃ s t, Reachable (Start 0) Step s ∧ Step sevenTokens (.target ⟨0, 0, 5⟩) s ∧
      s.planned 0 < sevenTokens.planned 0 ∧ Step s (.growth ⟨0, 3⟩) t ∧ 0 < t.pool.newPages := by
  have hfirst : Step sevenTokens (.target ⟨0, 0, 5⟩) _ := .reserve (by decide) (by decide)
  exact ⟨_, _, (Reachable.start start_sevenTokens).next hfirst, hfirst, by decide,
    .reserve (by decide) (by decide), by decide⟩

end Planning

end Arle.Scheduler.Cuda
