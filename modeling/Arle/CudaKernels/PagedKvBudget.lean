import Mathlib
import Arle.CudaKernels.PagedKvAtomic
import Arle.CudaKernels.PagedKvRuns

/-!
# The page budget of an append

`append_pages_needed` says before an append how many pages it takes off the free stack. In
every state that calls of the pool reach, an append behind a last page that is not itself on
the free stack succeeds exactly when that many pages are free, and takes exactly that many
(`append_budget_exact`). A last page is on the free stack only after a page was retained while
free, released too often or counted past the largest `u32` (`tailInUse_of_contract`).
-/

namespace Arle.CudaKernels.TokenKVPool

/-! ## The tables in a run of any calls -/

/-- Every slot has a length beside its table, and the tables name pages of the pool. -/
structure Tabled (pool : TokenKVPool) : Prop where
  slots : pool.pageIndices.length = pool.seqLens.length
  pages : ∀ table ∈ pool.pageIndices, ∀ p ∈ table, p < pool.maxTotalPages

section Layout

variable {pool pool' : TokenKVPool} {slot count : Nat} {pages : List Nat}

theorem layout_setAttach (pool : TokenKVPool) (page count : Nat) :
    (pool.setAttach page count).layout = pool.layout := rfl

theorem layout_setRefs (pool : TokenKVPool) (page count : Nat) :
    (pool.setRefs page count).layout = pool.layout := rfl

theorem recycle_layout {page : Nat} {freed : Bool}
    (h : pool.recyclePageIfUnreferenced page = some (freed, pool')) :
    pool'.layout = pool.layout := by
  unfold recyclePageIfUnreferenced at h
  simp only [Option.bind_eq_bind, Option.bind_eq_some_iff] at h
  obtain ⟨attached, hatt, refs, hrefs, h⟩ := h
  split at h
  · cases h
    rfl
  · cases h
    rfl

theorem markAttached_layout {page : Nat} (h : pool.markAttached page = some pool') :
    pool'.layout = pool.layout ∧ pool'.freePages = pool.freePages := by
  obtain ⟨count, hcount, rfl⟩ := Option.map_eq_some_iff.mp h
  exact ⟨rfl, rfl⟩

theorem markRetained_layout {page : Nat} (h : pool.markRetained page = some pool') :
    pool'.layout = pool.layout ∧ pool'.freePages = pool.freePages := by
  obtain ⟨count, hcount, rfl⟩ := Option.map_eq_some_iff.mp h
  exact ⟨rfl, rfl⟩

theorem takePages_layout {mark : TokenKVPool → Nat → Option TokenKVPool}
    (hmark : ∀ {pool pool' page}, mark pool page = some pool' →
      pool'.layout = pool.layout ∧ pool'.freePages = pool.freePages)
    {n : Nat} {newPages taken : List Nat}
    (h : takePages mark n pool newPages = some (taken, pool')) :
    pool'.layout = pool.layout ∧ ∀ p ∈ taken, p ∈ newPages ∨ p ∈ pool.freePages := by
  induction n generalizing pool newPages with
  | zero =>
    cases h
    exact ⟨rfl, fun p hp => .inl hp⟩
  | succ n ih =>
    rw [takePages] at h
    simp only [Option.bind_eq_bind, Option.bind_eq_some_iff] at h
    obtain ⟨idx, hlast, pool₁, hmarked, h⟩ := h
    obtain ⟨hlayout, hfree⟩ := hmark hmarked
    obtain ⟨hlayout', htaken⟩ := ih h
    refine ⟨hlayout'.trans hlayout, fun p hp => ?_⟩
    rcases htaken p hp with hp | hp
    · rcases List.mem_append.mp hp with hp | hp
      · exact .inl hp
      · rw [List.mem_singleton.mp hp]
        exact .inr (List.mem_of_getLast? hlast)
    · rw [hfree] at hp
      exact .inr (List.mem_of_mem_dropLast hp)

theorem detachLoop_layout {recycled recycled' : List Nat}
    (h : detachLoop pages pool recycled = some (recycled', pool')) :
    pool'.layout = pool.layout := by
  induction pages generalizing pool recycled with
  | nil =>
    cases h
    rfl
  | cons idx pages ih =>
    rw [detachLoop] at h
    simp only [Option.bind_eq_bind, Option.bind_eq_some_iff, Prod.exists] at h
    obtain ⟨attached, hatt, freed, pool₁, hrec, h⟩ := h
    exact (ih h).trans ((recycle_layout hrec).trans (layout_setAttach ..))

theorem retainPages_layout (h : TokenKVPool.retainPages pages pool = some pool') :
    pool'.layout = pool.layout := by
  induction pages generalizing pool with
  | nil =>
    cases h
    rfl
  | cons idx pages ih =>
    rw [retainPages] at h
    simp only [Option.bind_eq_bind, Option.bind_eq_some_iff] at h
    obtain ⟨refs, hrefs, h⟩ := h
    exact (ih h).trans (layout_setRefs ..)

theorem releaseLoop_layout {freed freed' : List Nat}
    (h : releaseLoop pages pool freed = some (freed', pool')) : pool'.layout = pool.layout := by
  induction pages generalizing pool freed with
  | nil =>
    cases h
    rfl
  | cons idx pages ih =>
    rw [releaseLoop] at h
    simp only [Option.bind_eq_bind, Option.bind_eq_some_iff] at h
    obtain ⟨cur, hcur, h⟩ := h
    split at h
    · simp only [Option.bind_eq_some_iff, Prod.exists] at h
      obtain ⟨back, pool₁, hrec, h⟩ := h
      exact (ih h).trans ((recycle_layout hrec).trans (layout_setRefs ..))
    · exact (ih h).trans (layout_setRefs ..)

theorem attachLoop_layout {result : Except KvPoolError Unit}
    (h : attachLoop pages pool = some (result, pool')) : pool'.layout = pool.layout ∧
      (result = .ok () → ∀ p ∈ pages, p < pool.maxTotalPages) := by
  induction pages generalizing pool with
  | nil =>
    cases h
    exact ⟨rfl, fun _ p hp => absurd hp List.not_mem_nil⟩
  | cons page pages ih =>
    rw [attachLoop] at h
    split at h
    · cases h
      exact ⟨rfl, fun hok => by cases hok⟩
    · rename_i hlt
      simp only [Option.bind_eq_bind, Option.bind_eq_some_iff] at h
      obtain ⟨attached, hatt, refs, hrefs, h⟩ := h
      split at h
      · cases h
        exact ⟨rfl, fun hok => by cases hok⟩
      · obtain ⟨hlayout, hpages⟩ := ih h
        refine ⟨hlayout, fun hok p hp => ?_⟩
        rcases List.mem_cons.mp hp with rfl | hp
        · exact Nat.lt_of_not_le hlt
        · exact hpages hok p hp

end Layout

namespace Tabled

variable {pool pool' : TokenKVPool} {slot count : Nat} {pages : List Nat}

theorem of_layout (h : pool.Tabled) (hlayout : pool'.layout = pool.layout) : pool'.Tabled := by
  obtain ⟨htables, hlens, hmax, -⟩ := layout_eq hlayout
  refine ⟨?_, ?_⟩
  · rw [htables, hlens, h.slots]
  · rw [htables, hmax]
    exact h.pages

theorem setSlot (h : pool.Tabled) {table : List Nat} (seqLen : Nat)
    (htable : ∀ p ∈ table, p < pool.maxTotalPages) : (pool.setSlot slot table seqLen).Tabled := by
  refine ⟨?_, fun table' hin p hp => ?_⟩
  · show (pool.pageIndices.set slot table).length = (pool.seqLens.set slot seqLen).length
    rw [List.length_set, List.length_set, h.slots]
  · rcases List.mem_or_eq_of_mem_set hin with hin | rfl
    · exact h.pages table' hin p hp
    · exact htable p hp

theorem bumpEpoch (h : pool.Tabled) (slot : Nat) (removed : List Nat) :
    (pool.bumpEpoch slot removed).Tabled := h.of_layout (layout_bumpEpoch ..)

theorem table_lt (h : pool.Tabled) {table : List Nat} {p : Nat}
    (htable : pool.pageIndices[slot]? = some table) (hp : p ∈ table) : p < pool.maxTotalPages :=
  h.pages table (List.mem_of_getElem? htable) p hp

theorem allocTokens (h : pool.Tabled) (hsized : pool.Sized)
    {result : Except KvPoolError (List Nat)}
    (hcall : pool.allocTokens slot count = some (result, pool')) : pool'.Tabled := by
  obtain rfl | ⟨n, taken, pool₁, table, seqLen, -, htake, htable, rfl⟩ := allocTokens_cases hcall
  · exact h
  obtain ⟨hlayout, htaken⟩ := takePages_layout markAttached_layout htake
  have hmax := (layout_eq hlayout).2.2.1
  refine (h.of_layout hlayout).setSlot _ fun p hp => ?_
  rcases List.mem_append.mp hp with hp | hp
  · exact (h.of_layout hlayout).table_lt htable hp
  · rw [hmax]
    exact hsized.free p ((htaken p hp).resolve_left List.not_mem_nil)

theorem allocDetachedPages (h : pool.Tabled) {result : Except KvPoolError (List Nat)}
    (hcall : pool.allocDetachedPages count = some (result, pool')) : pool'.Tabled := by
  obtain rfl | ⟨taken, -, htake⟩ := allocDetachedPages_cases hcall
  · exact h
  · exact h.of_layout (takePages_layout markRetained_layout htake).1

theorem attachPages (h : pool.Tabled) {result : Except KvPoolError Unit}
    (hcall : pool.attachPages slot pages count = some (result, pool')) : pool'.Tabled := by
  obtain rfl | ⟨-, ⟨err, -, hloop⟩ | ⟨pool₁, -, hloop, rfl⟩⟩ := attachPages_cases hcall
  · exact h
  · exact h.of_layout (attachLoop_layout hloop).1
  · obtain ⟨hlayout, hpages⟩ := attachLoop_layout hloop
    have hmax := (layout_eq hlayout).2.2.1
    refine (h.of_layout hlayout).setSlot _ fun p hp => ?_
    rw [hmax]
    exact hpages rfl p hp

theorem cowTailPageCopying (h : pool.Tabled) (hsized : pool.Sized) {copied : Bool}
    {result : Except CowError Bool}
    (hcall : pool.cowTailPageCopying copied slot = some (result, pool')) : pool'.Tabled := by
  obtain rfl | ⟨page, newPage, pool₁, -, hlast, hmark, hcopy⟩ := cowTailPageCopying_cases hcall
  · exact h
  have hlayout := (markAttached_layout hmark).1
  have h₁ : pool₁.Tabled := h.of_layout hlayout
  have hmax := (layout_eq hlayout).2.2.1
  obtain ⟨-, rfl⟩ | ⟨table, seqLen, old, attached, freed, -, htable, hrec⟩ := hcopy
  · exact h₁
  · have hset : (pool₁.setSlot slot (table.dropLast ++ [newPage]) seqLen).Tabled := by
      refine h₁.setSlot _ fun p hp => ?_
      rcases List.mem_append.mp hp with hp | hp
      · exact h₁.table_lt htable (List.mem_of_mem_dropLast hp)
      · rw [List.mem_singleton.mp hp, hmax]
        exact hsized.free newPage (List.mem_of_getLast? hlast)
    exact hset.of_layout ((recycle_layout hrec).trans (layout_setAttach ..))

theorem truncateSlot (h : pool.Tabled) {result : Except KvPoolError (List Nat)}
    (hcall : pool.truncateSlot slot count = some (result, pool')) : pool'.Tabled := by
  obtain rfl | ⟨slotPages, keepPages, recycled, -, hpages, hloop⟩ := truncateSlot_cases hcall
  · exact h
  · refine Tabled.of_layout (bumpEpoch (h.setSlot _ fun p hp => ?_) ..) (detachLoop_layout hloop)
    exact h.table_lt hpages (List.mem_of_mem_take hp)

theorem freeSlot (h : pool.Tabled) (hcall : pool.freeSlot slot = some pool') : pool'.Tabled := by
  unfold TokenKVPool.freeSlot at hcall
  simp only [Option.bind_eq_bind, Option.bind_eq_some_iff, Prod.exists] at hcall
  obtain ⟨slotPages, hpages, recycled, pool₁, hloop, hcall⟩ := hcall
  cases hcall
  exact Tabled.of_layout (bumpEpoch (h.setSlot _ fun p hp => absurd hp List.not_mem_nil) ..)
    (detachLoop_layout hloop)

end Tabled

theorem tabled_step {pool pool' : TokenKVPool} {call : PoolCall} (h : pool.Tabled)
    (hsized : pool.Sized) (hstep : CallStep pool call pool') : pool'.Tabled := by
  obtain ⟨result, hcall⟩ := hstep
  cases call with
  | allocTokens slot count =>
    obtain ⟨r, hr, -⟩ := ended_eq hcall
    exact h.allocTokens hsized hr
  | allocDetachedPages count =>
    obtain ⟨r, hr, -⟩ := ended_eq hcall
    exact h.allocDetachedPages hr
  | attachPages slot pages tokenCount =>
    obtain ⟨r, hr, -⟩ := ended_eq hcall
    exact h.attachPages hr
  | cowTailPageForAppend slot copied =>
    obtain ⟨⟨r, pool₁⟩, hr, heq⟩ := Option.map_eq_some_iff.mp hcall
    cases heq
    exact h.cowTailPageCopying hsized hr
  | truncateSlot slot newLen =>
    obtain ⟨r, hr, -⟩ := ended_eq hcall
    exact h.truncateSlot hr
  | freeSlot slot =>
    obtain ⟨pool₁, hr, heq⟩ := Option.map_eq_some_iff.mp hcall
    cases heq
    exact h.freeSlot hr
  | retainPages pages =>
    obtain ⟨pool₁, hr, heq⟩ := Option.map_eq_some_iff.mp hcall
    cases heq
    exact h.of_layout (retainPages_layout hr)
  | releasePages pages =>
    obtain ⟨⟨freed, pool₁⟩, hr, heq⟩ := Option.map_eq_some_iff.mp hcall
    cases heq
    exact h.of_layout (releaseLoop_layout hr)

theorem tabled_of_reachable {pool : TokenKVPool} (h : Reachable Started CallStep pool) :
    pool.Sized ∧ pool.Tabled := by
  refine h.invariant (P := fun pool => pool.Sized ∧ pool.Tabled) ?_ ?_
  · rintro _ ⟨maxTotalPages, numSlots, pageSize, hpos, rfl⟩
    refine ⟨Sized.new_sized .., ?_, fun table hin p hp => ?_⟩
    · exact List.length_replicate.trans List.length_replicate.symm
    · rw [List.eq_of_mem_replicate hin] at hp
      exact absurd hp List.not_mem_nil
  · rintro pool call pool' ⟨hsized, h⟩ hstep
    exact ⟨sized_step pool call pool' hsized hstep, tabled_step h hsized hstep⟩

/-! ## What an append takes -/

/-- An append of `count` tokens succeeds if and only if `append_pages_needed` pages are free, and
takes so many of them. -/
def BudgetExact (pool : TokenKVPool) (slot count : Nat) : Prop :=
  ∃ needed result pool', pool.appendPagesNeeded slot count = some needed ∧
    pool.tryAllocPoolTokensOnce slot count = some (result, pool') ∧
    ((∃ newPages, result = .ok newPages) ↔ needed ≤ pool.freePages.length) ∧
    ((∃ newPages, result = .ok newPages) → pool'.freePages.length + needed = pool.freePages.length)

/-- The last page of the slot is not on the free stack. -/
def TailInUse (pool : TokenKVPool) (slot : Nat) : Prop :=
  ∀ table page, pool.pageIndices[slot]? = some table → table.getLast? = some page →
    page ∉ pool.freePages

section Append

variable {pool pool' : TokenKVPool} {slot count seqLen : Nat}

/-- The new pages of an append whose copy on write is done. -/
def newPageCount (pool : TokenKVPool) (seqLen count : Nat) : Nat :=
  pool.pagesFor (count - pool.availableInLastPage (seqLen % pool.pageSize))

theorem markAttached_some (h : pool.Sized) {page : Nat} (hp : page < pool.maxTotalPages) :
    pool.markAttached page = some (pool.setAttach page 1) := by
  obtain ⟨attached, hatt⟩ := h.attached_of_lt hp
  rw [markAttached, hatt, Option.map_some]

theorem allocTokens_budget (h : pool.Sized) {table : List Nat} (hcount : 0 < count)
    (htable : pool.pageIndices[slot]? = some table) (hlen : pool.seqLens[slot]? = some seqLen) :
    ∃ result pool', pool.allocTokens slot count = some (result, pool') ∧
      ((∃ newPages, result = .ok newPages) ↔
        pool.newPageCount seqLen count ≤ pool.freePages.length) ∧
      ((∃ newPages, result = .ok newPages) →
        pool'.freePages.length + pool.newPageCount seqLen count = pool.freePages.length) := by
  rw [allocTokens, if_neg (Nat.ne_of_gt hcount), hlen, slotHotTailLen, hlen]
  simp only [Option.bind_eq_bind, Option.bind_some, Option.map_some]
  rw [← newPageCount]
  by_cases hfits : pool.newPageCount seqLen count > pool.freePages.length
  · rw [if_pos hfits]
    refine ⟨_, _, rfl, iff_of_false ?_ (Nat.not_le.mpr hfits), ?_⟩
    · rintro ⟨newPages, hok⟩
      cases hok
    · rintro ⟨newPages, hok⟩
      cases hok
  · rw [if_neg hfits]
    have hle := Nat.le_of_not_lt hfits
    obtain ⟨more, pool₁, htake, hmore, -, hlayout, hfree⟩ := takePages_spec
      (B := fun pool _ => pool.Sized)
      (fun pool taken page hsized hlast => by
        have hfree := hsized.free page (List.mem_of_getLast? hlast)
        have hmark := markAttached_some hsized.popFree hfree
        exact ⟨_, hmark, hsized.popFree.markAttached hmark, (markAttached_layout hmark).1, rfl⟩)
      [] [] h hle
    obtain ⟨htables, -⟩ := layout_eq hlayout
    rw [htake]
    simp only [Option.bind_some, htables, htable]
    refine ⟨_, _, rfl, iff_of_true ⟨_, rfl⟩ hle, fun _ => ?_⟩
    rw [hfree, List.length_append, List.length_reverse, hmore]
    rfl

/-- A shared tail is the last page of the table, and has another owner. -/
theorem slotSharedHotTailPage_cases (h : pool.Sized) {table : List Nat}
    (htable : pool.pageIndices[slot]? = some table) (hlen : pool.seqLens[slot]? = some seqLen)
    (hpages : ∀ p ∈ table, p < pool.maxTotalPages) :
    pool.slotSharedHotTailPage slot = some none ∨
      ∃ page attached refs, pool.slotSharedHotTailPage slot = some (some page) ∧
        table.getLast? = some page ∧ pool.pageAttachCount[page]? = some attached ∧
        pool.pageRefCount[page]? = some refs ∧ (refs > 0 ∨ attached > 1) := by
  rw [slotSharedHotTailPage_eq htable hlen]
  split
  · exact .inl rfl
  · cases hlast : table.getLast? with
    | none => exact .inl rfl
    | some page =>
      have hlt := hpages page (List.mem_of_getLast? hlast)
      obtain ⟨attached, hatt⟩ := h.attached_of_lt hlt
      obtain ⟨refs, hrefs⟩ := h.refs_of_lt hlt
      simp only [pageIsSharedReadOnly, hatt, hrefs, Option.bind_eq_bind, Option.bind_some,
        Option.map_some]
      by_cases hshared : refs > 0 ∨ attached > 1
      · refine .inr ⟨page, attached, refs, ?_, rfl, hatt, hrefs, hshared⟩
        refine congrArg some (if_pos ?_)
        rw [Bool.or_eq_true, decide_eq_true_eq, decide_eq_true_eq]
        exact hshared
      · refine .inl ?_
        refine congrArg some (if_neg ?_)
        rw [Bool.or_eq_true, decide_eq_true_eq, decide_eq_true_eq]
        exact hshared

/-- Exchanging a shared tail takes one page; the old one keeps an owner, so it is not freed. -/
theorem cowTailPageForAppend_takes (h : pool.Sized) {table : List Nat} {page attached refs : Nat}
    (htable : pool.pageIndices[slot]? = some table) (hlen : pool.seqLens[slot]? = some seqLen)
    (hshared : pool.slotSharedHotTailPage slot = some (some page))
    (hlast : table.getLast? = some page) (hatt : pool.pageAttachCount[page]? = some attached)
    (hrefs : pool.pageRefCount[page]? = some refs) (howner : refs > 0 ∨ attached > 1)
    (hused : page ∉ pool.freePages) (hfree : pool.freePages ≠ []) : ∃ pool' table',
    pool.cowTailPageForAppend slot = some (.ok true, pool') ∧ pool'.Sized ∧
      pool'.pageIndices[slot]? = some table' ∧ pool'.seqLens[slot]? = some seqLen ∧
      pool'.pageSize = pool.pageSize ∧ pool'.freePages = pool.freePages.dropLast := by
  obtain ⟨newPage, hnew⟩ : ∃ newPage, pool.freePages.getLast? = some newPage :=
    ⟨_, List.getLast?_eq_some_getLast hfree⟩
  have hne : newPage ≠ page := fun heq => hused (heq ▸ List.mem_of_getLast? hnew)
  have hmark := markAttached_some h.popFree (h.free newPage (List.mem_of_getLast? hnew))
  have hslot := (List.getElem?_eq_some_iff.mp htable).1
  have hslot' := (List.getElem?_eq_some_iff.mp hlen).1
  have hpage := (List.getElem?_eq_some_iff.mp hatt).1
  have hatt' : (pool.pageAttachCount.set newPage 1)[page]? = some attached := by
    rw [List.getElem?_set_ne hne, hatt]
  -- the counter of the old tail is not zero, or the page is retained
  have hkept : ¬ (Word.wrappingSub 32 attached 1 = 0 ∧ refs = 0) := by
    rintro ⟨hzero, hrefs0⟩
    have hfits := h.attach_le hatt
    have hone : attached > 1 := howner.resolve_left (by omega)
    rw [Word.wrappingSub_of_le (by omega) (Nat.lt_of_le_of_lt hfits (by decide))] at hzero
    omega
  obtain ⟨left, hleft⟩ : ∃ left, left = Word.wrappingSub 32 attached 1 := ⟨_, rfl⟩
  rw [← hleft] at hkept
  have hcall : pool.cowTailPageForAppend slot = some (.ok true,
      (({ pool with freePages := pool.freePages.dropLast }.setAttach newPage 1).setSlot slot
        (table.dropLast ++ [newPage]) seqLen).setAttach page left) := by
    unfold cowTailPageForAppend
    rw [hshared]
    simp only [Option.bind_eq_bind, Option.bind_some, hnew, hmark]
    simp only [setAttach, setSlot, htable, hlen, hlast, Option.bind_some, hatt', ← hleft,
      recyclePageIfUnreferenced, hrefs]
    rw [List.getElem?_set_self (by rw [List.length_set]; exact hpage)]
    simp only [Option.bind_eq_bind, Option.bind_some]
    rw [if_neg hkept]
    rfl
  have hcopy := cowTailPageCopying_true pool slot
  rw [hcall, Option.map_some] at hcopy
  refine ⟨_, table.dropLast ++ [newPage], hcall, h.cowTailPageCopying hcopy, ?_, ?_, rfl, rfl⟩
  · exact List.getElem?_set_self hslot
  · exact List.getElem?_set_self hslot'

/-- The budget of a pool whose counters and tables have their sizes. -/
theorem budgetExact_of (hsized : pool.Sized) {table : List Nat}
    (htable : pool.pageIndices[slot]? = some table) (hlen : pool.seqLens[slot]? = some seqLen)
    (hpages : ∀ p ∈ table, p < pool.maxTotalPages) (hcount : 0 < count)
    (htail : pool.TailInUse slot) : pool.BudgetExact slot count := by
  have hneeded : ∀ shared, pool.slotSharedHotTailPage slot = some shared →
      pool.appendPagesNeeded slot count =
        some ((if shared.isSome then 1 else 0) + pool.newPageCount seqLen count) := by
    intro shared hshared
    rw [appendPagesNeeded, if_neg (Nat.ne_of_gt hcount), slotHotTailLen, hlen, hshared]
    rfl
  unfold BudgetExact
  rw [tryAllocPoolTokensOnce, if_pos hcount]
  rcases slotSharedHotTailPage_cases hsized htable hlen hpages with hshared |
    ⟨page, attached, refs, hshared, hlast, hatt, hrefs, howner⟩
  · -- the tail is the slot's own, nothing is copied
    have hcow : pool.cowTailPageForAppend slot = some (.ok false, pool) := by
      rw [cowTailPageForAppend, hshared]
      rfl
    obtain ⟨result, pool', hcall, hiff, hleft⟩ := allocTokens_budget hsized hcount htable hlen
    refine ⟨_, result, pool', hneeded _ hshared, by rw [hcow]; exact hcall, ?_, ?_⟩
    · simpa using hiff
    · simpa using hleft
  · by_cases hfree : pool.freePages = []
    · have hcow : pool.cowTailPageForAppend slot = some (.error .outOfFreePages, pool) := by
        rw [cowTailPageForAppend, hshared, Option.bind_eq_bind, Option.bind_some, hfree]
        rfl
      refine ⟨_, .error .outOfFreePages, pool, hneeded _ hshared, by rw [hcow], ?_, ?_⟩
      · refine iff_of_false ?_ ?_
        · rintro ⟨newPages, hok⟩
          cases hok
        · rw [hfree]
          simp
      · rintro ⟨newPages, hok⟩
        cases hok
    · obtain ⟨pool₁, table', hcow, hsized₁, htable₁, hlen₁, hsize, hfree₁⟩ :=
        cowTailPageForAppend_takes hsized htable hlen hshared hlast hatt hrefs howner
          (htail table page htable hlast) hfree
      obtain ⟨result, pool', hcall, hiff, hleft⟩ := allocTokens_budget hsized₁ hcount htable₁ hlen₁
      have hsame : pool₁.newPageCount seqLen count = pool.newPageCount seqLen count := by
        simp only [newPageCount, pagesFor, availableInLastPage, hsize]
      have hpos := List.length_pos_iff.mpr hfree
      rw [hsame, hfree₁, List.length_dropLast] at hiff hleft
      refine ⟨_, result, pool', hneeded _ hshared, by rw [hcow]; exact hcall, ?_, fun hok => ?_⟩
      · rw [hiff]
        simp only [Option.isSome_some, if_true]
        omega
      · have := hleft hok
        simp only [Option.isSome_some, if_true]
        omega

end Append

/-- In every state that calls of the pool reach, the pages that an append takes are those that
`append_pages_needed` says, whenever the last page of the slot is not itself free. -/
theorem append_budget_exact {pool : TokenKVPool} (h : Reachable Started CallStep pool)
    {slot count : Nat} (hslot : slot < pool.pageIndices.length) (hcount : 0 < count)
    (htail : pool.TailInUse slot) : pool.BudgetExact slot count := by
  obtain ⟨hsized, htabled⟩ := tabled_of_reachable h
  have hlens : slot < pool.seqLens.length := htabled.slots ▸ hslot
  have htable := List.getElem?_eq_getElem hslot
  exact budgetExact_of hsized htable (List.getElem?_eq_getElem hlens)
    (fun _ hp => htabled.table_lt htable hp) hcount htail

/-- Two slots that share a page with one token. -/
def twoSharers (freePages : List Nat) (maxTotalPages : Nat) : TokenKVPool where
  freePages := freePages
  pageIndices := [[0], [0]]
  seqLens := [1, 1]
  slotEpochs := [0, 0]
  pageAttachCount := 2 :: List.replicate (maxTotalPages - 1) 0
  pageRefCount := List.replicate maxTotalPages 0
  maxTotalPages := maxTotalPages
  pageSize := 2
  pageSize_pos := Nat.two_pos

/-- The append of a sharer takes the page of the copy. -/
theorem append_budget_exact_shared : Reachable Started CallStep (twoSharers [1] 2) ∧
    (twoSharers [1] 2).appendPagesNeeded 1 1 = some 1 ∧ (twoSharers [1] 2).BudgetExact 1 1 := by
  have hstart : Started (new 2 2 2 (by decide)) := ⟨2, 2, 2, by decide, rfl⟩
  have hnew : Reachable Started CallStep (new 2 2 2 (by decide)) := Reachable.start hstart
  have halloc := hnew.next (a := PoolCall.allocTokens 0 1) ⟨_, rfl⟩
  have hshared : Reachable Started CallStep (twoSharers [1] 2) :=
    halloc.next (a := PoolCall.attachPages 1 [0] 1) ⟨_, rfl⟩
  have htail : (twoSharers [1] 2).TailInUse 1 := by
    intro table page htable hlast
    obtain rfl := Option.some.inj htable
    obtain rfl := Option.some.inj hlast
    exact (by decide : 0 ∉ [1])
  exact ⟨hshared, rfl, append_budget_exact hshared (by decide) (by decide) htail⟩

/-- A page is retained while it is free and released: it is on the free stack twice, so the page of
the copy is the shared page itself, and comes back at once. -/
theorem append_budget_fails : Reachable Started CallStep (twoSharers [0] 1) ∧
    (twoSharers [0] 1).Exact ∧ ¬ (twoSharers [0] 1).BudgetExact 1 1 := by
  have hstart : Started (new 1 2 2 (by decide)) := ⟨1, 2, 2, by decide, rfl⟩
  have hnew : Reachable Started CallStep (new 1 2 2 (by decide)) := Reachable.start hstart
  have hretained := hnew.next (a := PoolCall.retainPages [0]) ⟨_, rfl⟩
  have hreleased := hretained.next (a := PoolCall.releasePages [0]) ⟨_, rfl⟩
  have halloc := hreleased.next (a := PoolCall.allocTokens 0 1) ⟨_, rfl⟩
  have hshared : Reachable Started CallStep (twoSharers [0] 1) :=
    halloc.next (a := PoolCall.attachPages 1 [0] 1) ⟨_, rfl⟩
  refine ⟨hshared, ?_, ?_⟩
  · intro slot table seqLen htable hlen
    rcases slot with _ | _ | slot
    · obtain rfl := Option.some.inj htable
      obtain rfl := Option.some.inj hlen
      rfl
    · obtain rfl := Option.some.inj htable
      obtain rfl := Option.some.inj hlen
      rfl
    · cases htable
  · rintro ⟨needed, result, pool', hneeded, hcall, -, htaken⟩
    have hread : (twoSharers [0] 1).appendPagesNeeded 1 1 = some 1 := rfl
    have hrun : ∃ pool₁, (twoSharers [0] 1).tryAllocPoolTokensOnce 1 1 = some (.ok [], pool₁) ∧
        pool₁.freePages = [0] := ⟨_, rfl, rfl⟩
    obtain ⟨pool₁, hrun, hfree⟩ := hrun
    rw [hread] at hneeded
    rw [hrun] at hcall
    cases hneeded
    cases hcall
    have := htaken ⟨[], rfl⟩
    rw [hfree] at this
    exact absurd this (by decide)

/-! ## The calls of the scheduler -/

/-- The calls of the scheduler: pages are retained while they are off the free stack, each retain
is released at most once, and no counter would exceed the largest `u32`. -/
def ContractStep : Holding → PoolOp → Holding → Prop :=
  guarded (fun s op => Released s op ∧ Unsaturated s op) PoolStep

theorem owned_of_contract {maxTotalPages pageSize : Nat} {s : Holding}
    (h : Reachable (Created maxTotalPages pageSize) ContractStep s) :
    ∃ leak, s.pool.Owned leak s.retained := by
  refine h.invariant (P := fun s => ∃ leak, s.pool.Owned leak s.retained) ?_ ?_
  · rintro s ⟨numSlots, hsize, rfl⟩
    exact ⟨_, owned_new maxTotalPages numSlots pageSize hsize⟩
  · rintro s op s' ⟨leak, howned⟩ ⟨⟨hreleased, hunsaturated⟩, hstep⟩
    obtain ⟨leak', howned', -⟩ := owned_step howned hreleased hunsaturated hstep
    exact ⟨leak', howned'⟩

theorem Owned.sized {pool : TokenKVPool} {leak : Nat → Nat} {retained : List Nat}
    (h : pool.Owned leak retained) : pool.Sized where
  attached := Balanced.counts_length h.balanced.attached
  refs := Balanced.counts_length h.balanced.retained
  fits count hin := by
    obtain ⟨p, hp⟩ := List.getElem?_of_mem hin
    rw [h.balanced.attached] at hp
    split at hp
    · rename_i hlt
      exact Option.some.inj hp ▸ h.fits p hlt
    · cases hp
  free page hin := ((h.balanced.free page).mp hin).1

/-- In every run of the calls of the scheduler no last page of a slot is on the free stack. -/
theorem tailInUse_of_contract {maxTotalPages pageSize : Nat} {s : Holding}
    (h : Reachable (Created maxTotalPages pageSize) ContractStep s) (slot : Nat) :
    s.pool.TailInUse slot := by
  obtain ⟨leak, howned⟩ := owned_of_contract h
  intro table page htable hlast hfree
  have hin := List.count_pos_iff.mpr (mem_entries htable (List.mem_of_getLast? hlast))
  have hzero := ((howned.balanced.free page).mp hfree).2.1
  rw [plus] at hzero
  omega

/-- In every run of the calls of the scheduler an append whose device copy does not fail takes what
`append_pages_needed` says. -/
theorem append_step_budget {maxTotalPages pageSize : Nat} {s : Holding}
    (h : Reachable (Created maxTotalPages pageSize) ContractStep s) {slot count seqLen : Nat}
    {table : List Nat} (htable : s.pool.pageIndices[slot]? = some table)
    (hlen : s.pool.seqLens[slot]? = some seqLen) (hcount : 0 < count) :
    ∃ needed result s', s.pool.appendPagesNeeded slot count = some needed ∧
      s.pool.tryAllocPoolTokensOnceCopying true slot count = some (result, s'.pool) ∧
      ContractStep s (.append slot count true) s' ∧
      ((∃ newPages, result = .ok newPages) ↔ needed ≤ s.pool.freePages.length) ∧
      ((∃ newPages, result = .ok newPages) →
        s'.pool.freePages.length + needed = s.pool.freePages.length) := by
  obtain ⟨leak, howned⟩ := owned_of_contract h
  obtain ⟨needed, result, pool', hneeded, hcall, hiff, hleft⟩ :=
    budgetExact_of howned.sized htable hlen
      (fun p hp => howned.entries_lt p (mem_entries htable hp)) hcount
      (tailInUse_of_contract h slot)
  have hcopying := tryAllocPoolTokensOnceCopying_true s.pool slot count
  rw [hcall, Option.map_some] at hcopying
  have hok : (∃ newPages, result.mapError CowError.pool = .ok newPages) ↔
      ∃ newPages, result = .ok newPages := by
    cases result with
    | ok pages => exact iff_of_true ⟨pages, rfl⟩ ⟨pages, rfl⟩
    | error err =>
      refine iff_of_false ?_ ?_
      · rintro ⟨newPages, heq⟩
        cases heq
      · rintro ⟨newPages, heq⟩
        cases heq
  exact ⟨needed, _, ⟨pool', s.retained⟩, hneeded, hcopying,
    ⟨⟨trivial, trivial⟩, _, hcopying, rfl⟩, hok.trans hiff, fun h => hleft (hok.mp h)⟩

end Arle.CudaKernels.TokenKVPool
