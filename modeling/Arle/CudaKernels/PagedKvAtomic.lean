import Mathlib
import Arle.Lib.Run
import Arle.CudaKernels.PagedKvSpec

/-!
# Failed pool calls

What a failed call of the page pool leaves. `attach_pages` counts the pages of its list one
by one while it checks them, and `cow_tail_page_for_append` takes a page off the free stack
before it copies; the other calls check everything before they write. In every reachable
state a failed call leaves the pool as it was exactly under `KeepsOnError`
(`failed_call_iff`).
-/

namespace Arle.CudaKernels.TokenKVPool

/-! ## The calls -/

/-- The pool calls. Any slot, count and page list may be passed. -/
inductive PoolCall
  | allocTokens (slot count : Nat)
  | allocDetachedPages (count : Nat)
  | attachPages (slot : Nat) (pages : List Nat) (tokenCount : Nat)
  | cowTailPageForAppend (slot : Nat) (copied : Bool)
  | truncateSlot (slot newLen : Nat)
  | freeSlot (slot : Nat)
  | retainPages (pages : List Nat)
  | releasePages (pages : List Nat)

/-- A call of the pool, without the value it returns. -/
def ended {α : Type} (call : Option (Except KvPoolError α × TokenKVPool)) :
    Option (Except CowError Unit × TokenKVPool) :=
  call.map fun r => ((r.1.mapError CowError.pool).map fun _ => (), r.2)

/-- How a call ends and the pool it leaves; `none` when it panics. -/
def PoolCall.perform (pool : TokenKVPool) :
    PoolCall → Option (Except CowError Unit × TokenKVPool)
  | .allocTokens slot count => ended (pool.allocTokens slot count)
  | .allocDetachedPages count => ended (pool.allocDetachedPages count)
  | .attachPages slot pages tokenCount => ended (pool.attachPages slot pages tokenCount)
  | .cowTailPageForAppend slot copied =>
    (pool.cowTailPageCopying copied slot).map fun r => (r.1.map fun _ => (), r.2)
  | .truncateSlot slot newLen => ended (pool.truncateSlot slot newLen)
  | .freeSlot slot => (pool.freeSlot slot).map fun pool' => (.ok (), pool')
  | .retainPages pages => (TokenKVPool.retainPages pages pool).map fun pool' => (.ok (), pool')
  | .releasePages pages => (pool.releasePages pages).map fun r => (.ok (), r.2)

/-- A call that returns. -/
def CallStep (pool : TokenKVPool) (call : PoolCall) (pool' : TokenKVPool) : Prop :=
  ∃ result, call.perform pool = some (result, pool')

/-- A new pool of any size. -/
def Started (pool : TokenKVPool) : Prop :=
  ∃ maxTotalPages numSlots pageSize h, pool = new maxTotalPages numSlots pageSize h

/-! ## What a call does -/

section Cases

variable {pool pool' : TokenKVPool} {slot count : Nat} {pages : List Nat}

/-- An allocation leaves the pool, or takes pages for the end of the slot. -/
theorem allocTokens_cases {result : Except KvPoolError (List Nat)}
    (h : pool.allocTokens slot count = some (result, pool')) : pool' = pool ∨
      ∃ n taken pool₁ table seqLen, result = .ok taken ∧
        takePages markAttached n pool [] = some (taken, pool₁) ∧
        pool₁.pageIndices[slot]? = some table ∧
        pool' = pool₁.setSlot slot (table ++ taken) seqLen := by
  unfold allocTokens at h
  split at h
  · cases h
    exact .inl rfl
  · simp only [Option.bind_eq_bind, Option.bind_eq_some_iff] at h
    obtain ⟨seqLen, hseq, hotTailLen, htail, h⟩ := h
    split at h
    · cases h
      exact .inl rfl
    · simp only [Option.bind_eq_some_iff, Prod.exists] at h
      obtain ⟨taken, pool₁, htake, table, htable, h⟩ := h
      cases h
      exact .inr ⟨_, _, pool₁, table, _, rfl, htake, htable, rfl⟩

theorem allocDetachedPages_cases {result : Except KvPoolError (List Nat)}
    (h : pool.allocDetachedPages count = some (result, pool')) : pool' = pool ∨
      ∃ taken, result = .ok taken ∧ takePages markRetained count pool [] = some (taken, pool') := by
  unfold allocDetachedPages at h
  split at h
  · cases h
    exact .inl rfl
  · split at h
    · cases h
      exact .inl rfl
    · simp only [Option.bind_eq_bind, Option.bind_eq_some_iff, Prod.exists] at h
      obtain ⟨taken, pool₁, htake, h⟩ := h
      cases h
      exact .inr ⟨taken, rfl, htake⟩

/-- A call of `attach_pages` leaves the pool, or runs its loop for an empty slot. -/
theorem attachPages_cases {result : Except KvPoolError Unit}
    (h : pool.attachPages slot pages count = some (result, pool')) : pool' = pool ∨
      (pool.pageIndices[slot]? = some [] ∧ pool.seqLens[slot]? = some 0 ∧
        count ≤ pages.length * pool.pageSize) ∧
      ((∃ err, result = .error err ∧ attachLoop pages pool = some (.error err, pool')) ∨
        ∃ pool₁, result = .ok () ∧ attachLoop pages pool = some (.ok (), pool₁) ∧
          pool' = pool₁.setSlot slot pages count) := by
  unfold attachPages at h
  simp only [Option.bind_eq_bind, Option.bind_eq_some_iff] at h
  obtain ⟨table, htable, seqLen, hseq, h⟩ := h
  split at h
  · cases h
    exact .inl rfl
  · rename_i hempty
    rw [not_or, not_not, not_not] at hempty
    obtain ⟨rfl, rfl⟩ := hempty
    split at h
    · cases h
      exact .inl rfl
    · rename_i hfits
      refine .inr ⟨⟨htable, hseq, Nat.not_lt.mp hfits⟩, ?_⟩
      split at h
      · cases h
      · rename_i hloop
        cases h
        exact .inl ⟨_, rfl, hloop⟩
      · rename_i pool₁ hloop
        cases h
        exact .inr ⟨pool₁, rfl, hloop, rfl⟩

/-- A copy on write leaves the pool, or pops a page, which takes the place of the shared tail if the
copy succeeds. -/
theorem cowTailPageCopying_cases {copied : Bool} {result : Except CowError Bool}
    (h : pool.cowTailPageCopying copied slot = some (result, pool')) : pool' = pool ∨
      ∃ page newPage pool₁, pool.slotSharedHotTailPage slot = some (some page) ∧
        pool.freePages.getLast? = some newPage ∧
        { pool with freePages := pool.freePages.dropLast }.markAttached newPage = some pool₁ ∧
        (copied = false ∧ pool' = pool₁ ∨
          ∃ table seqLen old attached freed, result = .ok true ∧
            pool₁.pageIndices[slot]? = some table ∧
            ((pool₁.setSlot slot (table.dropLast ++ [newPage]) seqLen).setAttach old
              (Word.wrappingSub 32 attached 1)).recyclePageIfUnreferenced old =
                some (freed, pool')) := by
  unfold cowTailPageCopying at h
  simp only [Option.bind_eq_bind, Option.bind_eq_some_iff] at h
  obtain ⟨shared, hshared, h⟩ := h
  split at h
  · cases h
    exact .inl rfl
  · rename_i page
    split at h
    · cases h
      exact .inl rfl
    · rename_i newPage hlast
      simp only [Option.bind_eq_some_iff] at h
      obtain ⟨pool₁, hmark, h⟩ := h
      refine .inr ⟨page, newPage, pool₁, hshared, hlast, hmark, ?_⟩
      split at h
      · simp only [Option.bind_eq_some_iff, Prod.exists] at h
        obtain ⟨table, htable, seqLen, hseq, old, hold, attached, hatt, freed, pool₂, hrec, h⟩ := h
        cases h
        exact .inr ⟨table, seqLen, old, attached, freed, rfl, htable, hrec⟩
      · rename_i hcopied
        cases h
        exact .inl ⟨Bool.eq_false_iff.mpr hcopied, rfl⟩

theorem truncateSlot_cases {result : Except KvPoolError (List Nat)}
    (h : pool.truncateSlot slot count = some (result, pool')) : pool' = pool ∨
      ∃ slotPages keepPages recycled, result = .ok recycled ∧
        pool.pageIndices[slot]? = some slotPages ∧
        detachLoop (slotPages.drop keepPages)
          ((pool.setSlot slot (slotPages.take keepPages) count).bumpEpoch slot
            (slotPages.drop keepPages)) [] = some (recycled, pool') := by
  unfold truncateSlot at h
  simp only [Option.bind_eq_bind, Option.bind_eq_some_iff] at h
  obtain ⟨oldLen, hold, h⟩ := h
  split at h
  · cases h
    exact .inl rfl
  · split at h
    · cases h
      exact .inl rfl
    · simp only [Option.bind_eq_some_iff, Prod.exists] at h
      obtain ⟨slotPages, hpages, recycled, pool₁, hloop, h⟩ := h
      cases h
      exact .inr ⟨slotPages, _, recycled, rfl, hpages, hloop⟩

end Cases

/-! ## What every call keeps -/

/-- The counters have an entry for each page, no entry exceeds the largest `u32`, and the
free pages are pages of the pool. -/
structure Sized (pool : TokenKVPool) : Prop where
  attached : pool.pageAttachCount.length = pool.maxTotalPages
  refs : pool.pageRefCount.length = pool.maxTotalPages
  fits : ∀ count ∈ pool.pageAttachCount, count ≤ Word.maxVal 32
  free : ∀ page ∈ pool.freePages, page < pool.maxTotalPages

namespace Sized

variable {pool pool' : TokenKVPool} {page count : Nat} {pages : List Nat}

theorem new_sized (maxTotalPages numSlots pageSize : Nat) (h : 0 < pageSize) :
    (new maxTotalPages numSlots pageSize h).Sized where
  attached := List.length_replicate
  refs := List.length_replicate
  fits := by
    intro count hc
    rw [List.eq_of_mem_replicate hc]
    exact Nat.zero_le _
  free := by
    intro page hp
    exact List.mem_range.mp (List.mem_reverse.mp hp)

theorem setAttach (h : pool.Sized) (hc : count ≤ Word.maxVal 32) :
    (pool.setAttach page count).Sized where
  attached := (List.length_set ..).trans h.attached
  refs := h.refs
  fits := by
    intro c hin
    rcases List.mem_or_eq_of_mem_set hin with hin | rfl
    · exact h.fits c hin
    · exact hc
  free := h.free

theorem setRefs (h : pool.Sized) : (pool.setRefs page count).Sized where
  attached := h.attached
  refs := (List.length_set ..).trans h.refs
  fits := h.fits
  free := h.free

theorem setSlot (h : pool.Sized) (slot : Nat) (table : List Nat) (n : Nat) :
    (pool.setSlot slot table n).Sized :=
  ⟨h.attached, h.refs, h.fits, h.free⟩

theorem bumpEpoch (h : pool.Sized) (slot : Nat) (removed : List Nat) :
    (pool.bumpEpoch slot removed).Sized := by
  unfold TokenKVPool.bumpEpoch
  split
  · exact h
  · exact ⟨h.attached, h.refs, h.fits, h.free⟩

theorem popFree (h : pool.Sized) : { pool with freePages := pool.freePages.dropLast }.Sized :=
  ⟨h.attached, h.refs, h.fits, fun p hp => h.free p (List.dropLast_subset _ hp)⟩

theorem attach_le (h : pool.Sized) (hc : pool.pageAttachCount[page]? = some count) :
    count ≤ Word.maxVal 32 :=
  h.fits count (List.mem_of_getElem? hc)

theorem lt_of_attached (h : pool.Sized) (hc : pool.pageAttachCount[page]? = some count) :
    page < pool.maxTotalPages := by
  rw [← h.attached]
  exact (List.getElem?_eq_some_iff.mp hc).1

theorem attached_of_lt (h : pool.Sized) (hlt : page < pool.maxTotalPages) :
    ∃ count, pool.pageAttachCount[page]? = some count := by
  rw [← h.attached] at hlt
  exact ⟨_, List.getElem?_eq_getElem hlt⟩

theorem refs_of_lt (h : pool.Sized) (hlt : page < pool.maxTotalPages) :
    ∃ count, pool.pageRefCount[page]? = some count := by
  rw [← h.refs] at hlt
  exact ⟨_, List.getElem?_eq_getElem hlt⟩

theorem markAttached (h : pool.Sized) (hmark : pool.markAttached page = some pool') :
    pool'.Sized := by
  unfold TokenKVPool.markAttached at hmark
  obtain ⟨c, hc, rfl⟩ := Option.map_eq_some_iff.mp hmark
  exact h.setAttach (by decide)

theorem markRetained (h : pool.Sized) (hmark : pool.markRetained page = some pool') :
    pool'.Sized := by
  unfold TokenKVPool.markRetained at hmark
  obtain ⟨c, hc, rfl⟩ := Option.map_eq_some_iff.mp hmark
  exact h.setRefs

theorem recycle (h : pool.Sized) {freed : Bool}
    (hrec : pool.recyclePageIfUnreferenced page = some (freed, pool')) : pool'.Sized := by
  unfold recyclePageIfUnreferenced at hrec
  simp only [Option.bind_eq_bind, Option.bind_eq_some_iff] at hrec
  obtain ⟨attached, hatt, refs, hrefs, hrec⟩ := hrec
  split at hrec
  · cases hrec
    refine ⟨h.attached, h.refs, h.fits, ?_⟩
    intro p hp
    rcases List.mem_append.mp hp with hp | hp
    · exact h.free p hp
    · rw [List.mem_singleton.mp hp]
      exact h.lt_of_attached hatt
  · cases hrec
    exact h

theorem takePages {mark : TokenKVPool → Nat → Option TokenKVPool}
    (hmark : ∀ {pool pool' page}, Sized pool → mark pool page = some pool' → Sized pool')
    {n : Nat} {newPages taken : List Nat} (h : pool.Sized)
    (htake : takePages mark n pool newPages = some (taken, pool')) : pool'.Sized := by
  induction n generalizing pool newPages with
  | zero =>
    cases htake
    exact h
  | succ n ih =>
    rw [TokenKVPool.takePages] at htake
    simp only [Option.bind_eq_bind, Option.bind_eq_some_iff] at htake
    obtain ⟨idx, hlast, pool₁, hmarked, htake⟩ := htake
    exact ih (hmark h.popFree hmarked) htake

theorem detachLoop {recycled recycled' : List Nat} (h : pool.Sized)
    (hloop : detachLoop pages pool recycled = some (recycled', pool')) : pool'.Sized := by
  induction pages generalizing pool recycled with
  | nil =>
    cases hloop
    exact h
  | cons idx pages ih =>
    rw [TokenKVPool.detachLoop] at hloop
    simp only [Option.bind_eq_bind, Option.bind_eq_some_iff, Prod.exists] at hloop
    obtain ⟨attached, hatt, freed, pool₁, hrec, hloop⟩ := hloop
    have hle : attached - 1 ≤ Word.maxVal 32 := Nat.le_trans (Nat.sub_le ..) (h.attach_le hatt)
    exact ih ((h.setAttach hle).recycle hrec) hloop

theorem retainPages (h : pool.Sized) (hret : TokenKVPool.retainPages pages pool = some pool') :
    pool'.Sized := by
  induction pages generalizing pool with
  | nil =>
    cases hret
    exact h
  | cons idx pages ih =>
    rw [TokenKVPool.retainPages] at hret
    simp only [Option.bind_eq_bind, Option.bind_eq_some_iff] at hret
    obtain ⟨refs, hrefs, hret⟩ := hret
    exact ih h.setRefs hret

theorem releaseLoop {freed freed' : List Nat} (h : pool.Sized)
    (hloop : releaseLoop pages pool freed = some (freed', pool')) : pool'.Sized := by
  induction pages generalizing pool freed with
  | nil =>
    cases hloop
    exact h
  | cons idx pages ih =>
    rw [TokenKVPool.releaseLoop] at hloop
    simp only [Option.bind_eq_bind, Option.bind_eq_some_iff] at hloop
    obtain ⟨cur, hcur, hloop⟩ := hloop
    split at hloop
    · simp only [Option.bind_eq_some_iff, Prod.exists] at hloop
      obtain ⟨back, pool₁, hrec, hloop⟩ := hloop
      exact ih (h.setRefs.recycle hrec) hloop
    · exact ih h.setRefs hloop

theorem attachLoop {result : Except KvPoolError Unit} (h : pool.Sized)
    (hloop : attachLoop pages pool = some (result, pool')) : pool'.Sized := by
  induction pages generalizing pool with
  | nil =>
    cases hloop
    exact h
  | cons page pages ih =>
    rw [TokenKVPool.attachLoop] at hloop
    split at hloop
    · cases hloop
      exact h
    · simp only [Option.bind_eq_bind, Option.bind_eq_some_iff] at hloop
      obtain ⟨attached, hatt, refs, hrefs, hloop⟩ := hloop
      split at hloop
      · cases hloop
        exact h
      · exact ih (h.setAttach (Nat.min_le_right ..)) hloop

theorem allocTokens {slot : Nat} {result : Except KvPoolError (List Nat)} (h : pool.Sized)
    (hcall : pool.allocTokens slot count = some (result, pool')) : pool'.Sized := by
  obtain rfl | ⟨n, taken, pool₁, table, seqLen, -, htake, -, rfl⟩ := allocTokens_cases hcall
  · exact h
  · exact (h.takePages markAttached htake).setSlot ..

theorem allocDetachedPages {result : Except KvPoolError (List Nat)} (h : pool.Sized)
    (hcall : pool.allocDetachedPages count = some (result, pool')) : pool'.Sized := by
  obtain rfl | ⟨taken, -, htake⟩ := allocDetachedPages_cases hcall
  · exact h
  · exact h.takePages markRetained htake

theorem attachPages {slot : Nat} {result : Except KvPoolError Unit} (h : pool.Sized)
    (hcall : pool.attachPages slot pages count = some (result, pool')) : pool'.Sized := by
  obtain rfl | ⟨-, ⟨err, -, hloop⟩ | ⟨pool₁, -, hloop, rfl⟩⟩ := attachPages_cases hcall
  · exact h
  · exact h.attachLoop hloop
  · exact (h.attachLoop hloop).setSlot ..

theorem cowTailPageCopying {slot : Nat} {copied : Bool} {result : Except CowError Bool}
    (h : pool.Sized) (hcall : pool.cowTailPageCopying copied slot = some (result, pool')) :
    pool'.Sized := by
  obtain rfl | ⟨page, newPage, pool₁, -, -, hmark, hcopy⟩ := cowTailPageCopying_cases hcall
  · exact h
  have h₁ : pool₁.Sized := h.popFree.markAttached hmark
  obtain ⟨-, rfl⟩ | ⟨table, seqLen, old, attached, freed, -, -, hrec⟩ := hcopy
  · exact h₁
  · have hsub : Word.wrappingSub 32 attached 1 ≤ Word.maxVal 32 :=
      Nat.le_sub_one_of_lt (Nat.mod_lt _ (Nat.two_pow_pos 32))
    exact ((h₁.setSlot ..).setAttach hsub).recycle hrec

theorem truncateSlot {slot : Nat} {result : Except KvPoolError (List Nat)} (h : pool.Sized)
    (hcall : pool.truncateSlot slot count = some (result, pool')) : pool'.Sized := by
  obtain rfl | ⟨slotPages, keepPages, recycled, -, -, hloop⟩ := truncateSlot_cases hcall
  · exact h
  · exact ((h.setSlot ..).bumpEpoch ..).detachLoop hloop

theorem freeSlot {slot : Nat} (h : pool.Sized) (hcall : pool.freeSlot slot = some pool') :
    pool'.Sized := by
  unfold TokenKVPool.freeSlot at hcall
  simp only [Option.bind_eq_bind, Option.bind_eq_some_iff, Prod.exists] at hcall
  obtain ⟨slotPages, hpages, recycled, pool₁, hloop, hcall⟩ := hcall
  cases hcall
  exact ((h.setSlot ..).bumpEpoch ..).detachLoop hloop

end Sized

theorem ended_eq {α : Type} {call : Option (Except KvPoolError α × TokenKVPool)}
    {result : Except CowError Unit} {pool' : TokenKVPool} (h : ended call = some (result, pool')) :
    ∃ r, call = some (r, pool') ∧ ((r.mapError CowError.pool).map fun _ => ()) = result := by
  obtain ⟨⟨r, pool₁⟩, hcall, heq⟩ := Option.map_eq_some_iff.mp h
  cases heq
  exact ⟨r, hcall, rfl⟩

theorem sized_step : Preserved CallStep Sized := by
  rintro pool call pool' h ⟨result, hcall⟩
  cases call with
  | allocTokens slot count =>
    obtain ⟨r, hr, _⟩ := ended_eq hcall
    exact h.allocTokens hr
  | allocDetachedPages count =>
    obtain ⟨r, hr, _⟩ := ended_eq hcall
    exact h.allocDetachedPages hr
  | attachPages slot pages tokenCount =>
    obtain ⟨r, hr, _⟩ := ended_eq hcall
    exact h.attachPages hr
  | cowTailPageForAppend slot copied =>
    obtain ⟨⟨r, pool₁⟩, hr, heq⟩ := Option.map_eq_some_iff.mp hcall
    cases heq
    exact h.cowTailPageCopying hr
  | truncateSlot slot newLen =>
    obtain ⟨r, hr, _⟩ := ended_eq hcall
    exact h.truncateSlot hr
  | freeSlot slot =>
    obtain ⟨pool₁, hr, heq⟩ := Option.map_eq_some_iff.mp hcall
    cases heq
    exact h.freeSlot hr
  | retainPages pages =>
    obtain ⟨pool₁, hr, heq⟩ := Option.map_eq_some_iff.mp hcall
    cases heq
    exact h.retainPages hr
  | releasePages pages =>
    obtain ⟨⟨freed, pool₁⟩, hr, heq⟩ := Option.map_eq_some_iff.mp hcall
    cases heq
    exact h.releaseLoop hr

theorem sized_of_reachable {pool : TokenKVPool} (h : Reachable Started CallStep pool) :
    pool.Sized := by
  apply h.invariant (P := Sized) _ sized_step
  rintro _ ⟨maxTotalPages, numSlots, pageSize, hpos, rfl⟩
  exact Sized.new_sized ..

/-! ## The loop of `attach_pages` -/

/-- What the loop does for a live page. -/
def countUp (pool : TokenKVPool) (page : Nat) : TokenKVPool :=
  pool.setAttach page (Word.saturatingAdd 32 ((pool.pageAttachCount[page]?).getD 0) 1)

section Loop

variable {pool : TokenKVPool} {page p : Nat} {before rest pages : List Nat}

theorem isLive_eq (h : pool.isLive page = true) : ∃ attached refs,
    pool.pageAttachCount[page]? = some attached ∧ pool.pageRefCount[page]? = some refs ∧
      ¬ (attached = 0 ∧ refs = 0) := by
  unfold isLive at h
  split at h
  · rename_i attached refs hatt hrefs
    exact ⟨attached, refs, hatt, hrefs, of_decide_eq_true h⟩
  · cases h

theorem attachLoop_live (h : pool.Sized) (hlive : pool.isLive page = true) :
    attachLoop (page :: rest) pool = attachLoop rest (pool.countUp page) := by
  obtain ⟨attached, refs, hatt, hrefs, hne⟩ := isLive_eq hlive
  have hlt := h.lt_of_attached hatt
  rw [attachLoop, if_neg (Nat.not_le.mpr hlt), countUp, hatt]
  simp only [Option.bind_eq_bind, Option.bind_some, Option.getD_some]
  rw [hrefs, Option.bind_some, if_neg hne]

theorem attachLoop_dead (h : pool.Sized) (hdead : pool.isLive page = false) (rest : List Nat) :
    ∃ err, attachLoop (page :: rest) pool = some (.error err, pool) := by
  rw [attachLoop]
  split
  · exact ⟨_, rfl⟩
  · rename_i hlt
    obtain ⟨attached, hatt⟩ := h.attached_of_lt (Nat.not_le.mp hlt)
    obtain ⟨refs, hrefs⟩ := h.refs_of_lt (Nat.not_le.mp hlt)
    unfold isLive at hdead
    rw [hatt, hrefs] at hdead ⊢
    have hzero : attached = 0 ∧ refs = 0 := not_not.mp (of_decide_eq_false hdead)
    simp only [Option.bind_eq_bind, Option.bind_some]
    rw [if_pos hzero]
    exact ⟨_, rfl⟩

theorem countUp_getElem (h : pool.pageAttachCount[page]? = some p) :
    (pool.countUp page).pageAttachCount[page]? = some (Word.saturatingAdd 32 p 1) := by
  unfold countUp setAttach
  rw [h]
  exact List.getElem?_set_self (List.getElem?_eq_some_iff.mp h).1

theorem countUp_getElem_ne (h : page ≠ p) :
    (pool.countUp page).pageAttachCount[p]? = pool.pageAttachCount[p]? :=
  List.getElem?_set_ne h

theorem isLive_countUp (h : pool.isLive page = true) (p : Nat) :
    (pool.countUp page).isLive p = pool.isLive p := by
  by_cases hp : page = p
  · subst hp
    obtain ⟨attached, refs, hatt, hrefs, hne⟩ := isLive_eq h
    have hpos : Word.saturatingAdd 32 attached 1 ≠ 0 := by
      unfold Word.saturatingAdd Word.maxVal
      omega
    rw [h]
    unfold isLive
    rw [countUp_getElem hatt, show (pool.countUp page).pageRefCount = pool.pageRefCount from rfl,
      hrefs]
    exact decide_eq_true fun hz => hpos hz.1
  · unfold isLive
    rw [countUp_getElem_ne hp]
    rfl

theorem Sized.countUp (h : pool.Sized) : (pool.countUp page).Sized :=
  h.setAttach (Nat.min_le_right ..)

theorem attachLoop_append (h : pool.Sized) (hlive : ∀ p ∈ before, pool.isLive p = true)
    (rest : List Nat) :
    attachLoop (before ++ rest) pool = attachLoop rest (before.foldl countUp pool) := by
  induction before generalizing pool with
  | nil => rfl
  | cons page before ih =>
    have hpage := hlive page List.mem_cons_self
    rw [List.cons_append, attachLoop_live h hpage, List.foldl_cons]
    apply ih h.countUp
    intro p hp
    rw [isLive_countUp hpage]
    exact hlive p (List.mem_cons_of_mem _ hp)

theorem isLive_foldl (hlive : ∀ p ∈ before, pool.isLive p = true) (p : Nat) :
    (before.foldl countUp pool).isLive p = pool.isLive p := by
  induction before generalizing pool with
  | nil => rfl
  | cons page before ih =>
    have hpage := hlive page List.mem_cons_self
    rw [List.foldl_cons, ih, isLive_countUp hpage]
    intro q hq
    rw [isLive_countUp hpage]
    exact hlive q (List.mem_cons_of_mem _ hq)

theorem sized_foldl (h : pool.Sized) (before : List Nat) :
    (before.foldl countUp pool).Sized := by
  induction before generalizing pool with
  | nil => exact h
  | cons page before ih => exact ih h.countUp

/-- The loop succeeds on live pages, and otherwise stops at the first page that is not. -/
theorem attachLoop_cases (h : pool.Sized) (pages : List Nat) :
    attachLoop pages pool = some (.ok (), pages.foldl countUp pool) ∧
        (∀ p ∈ pages, pool.isLive p = true) ∨
      ∃ before page after err, pages = before ++ page :: after ∧
        (∀ p ∈ before, pool.isLive p = true) ∧ pool.isLive page = false ∧
          attachLoop pages pool = some (.error err, before.foldl countUp pool) := by
  cases hfind : pages.find? fun p => !pool.isLive p with
  | none =>
    have hall : ∀ p ∈ pages, pool.isLive p = true := by
      intro p hp
      simpa using List.find?_eq_none.mp hfind p hp
    refine .inl ⟨?_, hall⟩
    have happ := attachLoop_append h hall []
    rw [List.append_nil] at happ
    exact happ
  | some page =>
    obtain ⟨hdead, before, after, rfl, hlive⟩ := List.find?_eq_some_iff_append.mp hfind
    have hall : ∀ p ∈ before, pool.isLive p = true := by
      intro p hp
      simpa using hlive p hp
    have hdead : pool.isLive page = false := by simpa using hdead
    obtain ⟨err, herr⟩ := attachLoop_dead (sized_foldl h before)
      ((isLive_foldl hall page).trans hdead) after
    refine .inr ⟨before, page, after, err, rfl, hall, hdead, ?_⟩
    rw [attachLoop_append h hall, herr]

/-- The loop writes the attach counters only. -/
theorem foldl_countUp (before : List Nat) (pool : TokenKVPool) :
    (before.foldl countUp pool).freePages = pool.freePages ∧
      (before.foldl countUp pool).layout = pool.layout ∧
      (before.foldl countUp pool).pageRefCount = pool.pageRefCount := by
  induction before generalizing pool with
  | nil => exact ⟨rfl, rfl, rfl⟩
  | cons page before ih => exact ih (pool.countUp page)

/-- The loop never counts down. -/
theorem le_foldl_countUp (h : pool.Sized) (before : List Nat) {c : Nat}
    (hc : pool.pageAttachCount[p]? = some c) :
    ∃ d, (before.foldl countUp pool).pageAttachCount[p]? = some d ∧ c ≤ d ∧
      (p ∈ before → Word.saturatingAdd 32 c 1 ≤ d) := by
  induction before generalizing pool c with
  | nil => exact ⟨c, hc, Nat.le_refl c, fun hp => absurd hp List.not_mem_nil⟩
  | cons page before ih =>
    by_cases hp : page = p
    · subst hp
      obtain ⟨d, hd, hle, _⟩ := ih h.countUp (countUp_getElem hc)
      have hmax := h.attach_le hc
      have hge : c ≤ Word.saturatingAdd 32 c 1 := Nat.le_min.mpr ⟨Nat.le_succ c, hmax⟩
      exact ⟨d, hd, Nat.le_trans hge hle, fun _ => hle⟩
    · obtain ⟨d, hd, hle, hmem⟩ := ih h.countUp ((countUp_getElem_ne hp).trans hc)
      refine ⟨d, hd, hle, fun hin => hmem ?_⟩
      exact (List.mem_cons.mp hin).resolve_left (Ne.symm hp)

/-- The loop leaves the attach counters alone only where they are at the largest `u32`. -/
theorem foldl_countUp_eq_iff (h : pool.Sized) (hlive : ∀ p ∈ before, pool.isLive p = true) :
    (before.foldl countUp pool).pageAttachCount = pool.pageAttachCount ↔
      ∀ p ∈ before, pool.pageAttachCount[p]? = some (Word.maxVal 32) := by
  constructor
  · intro heq p hp
    obtain ⟨c, refs, hc, _, _⟩ := isLive_eq (hlive p hp)
    obtain ⟨d, hd, _, hadd⟩ := le_foldl_countUp h before hc
    have hdc : d = c := by
      rw [heq, hc] at hd
      exact (Option.some.inj hd).symm
    have hsat := hadd hp
    have hmax := h.attach_le hc
    unfold Word.saturatingAdd at hsat
    rw [hc, show c = Word.maxVal 32 by omega]
  · intro hmax
    have hsame : before.foldl countUp pool = pool := by
      induction before with
      | nil => rfl
      | cons page before ih =>
        have hpage := hmax page List.mem_cons_self
        have hset : pool.pageAttachCount.set page (Word.maxVal 32) = pool.pageAttachCount := by
          obtain ⟨hlt, heq⟩ := List.getElem?_eq_some_iff.mp hpage
          rw [← heq]
          exact List.set_getElem_self hlt
        have hcount : pool.countUp page = pool := by
          unfold countUp setAttach
          rw [hpage, Option.getD_some,
            show Word.saturatingAdd 32 (Word.maxVal 32) 1 = Word.maxVal 32 from rfl, hset]
        rw [List.foldl_cons, hcount]
        apply ih
        · exact fun p hp => hlive p (List.mem_cons_of_mem _ hp)
        · exact fun p hp => hmax p (List.mem_cons_of_mem _ hp)
    rw [hsame]

end Loop

/-! ## Failed calls -/

/-- The page tables and the counters are the same. -/
def Unchanged (pool pool' : TokenKVPool) : Prop :=
  pool'.freePages = pool.freePages ∧ pool'.pageIndices = pool.pageIndices ∧
    pool'.seqLens = pool.seqLens ∧ pool'.pageAttachCount = pool.pageAttachCount ∧
    pool'.pageRefCount = pool.pageRefCount

/-- When a call that fails is harmless. `attach_pages` must meet the first page that is not
live before it counts one below the largest `u32`, if it comes to its loop at all; and
`cow_tail_page_for_append` must not fail in the copy of a page it has popped. -/
def KeepsOnError (pool : TokenKVPool) : PoolCall → Prop
  | .attachPages slot pages tokenCount =>
    pool.pageIndices[slot]? = some [] → pool.seqLens[slot]? = some 0 →
      tokenCount ≤ pages.length * pool.pageSize →
      ∀ before page after, pages = before ++ page :: after →
        (∀ p ∈ before, pool.isLive p = true) → pool.isLive page = false →
        ∀ p ∈ before, pool.pageAttachCount[p]? = some (Word.maxVal 32)
  | .cowTailPageForAppend slot copied =>
    copied = true ∨ pool.freePages = [] ∨
      ∀ page, pool.slotSharedHotTailPage slot ≠ some (some page)
  | _ => True

section Calls

variable {pool pool' : TokenKVPool} {slot count : Nat}

theorem Unchanged.refl (pool : TokenKVPool) : Unchanged pool pool := ⟨rfl, rfl, rfl, rfl, rfl⟩

theorem ended_error {α : Type} {call : Option (Except KvPoolError α × TokenKVPool)}
    {err : CowError} : ended call = some (.error err, pool') ↔
      ∃ e, call = some (.error e, pool') ∧ CowError.pool e = err := by
  constructor
  · intro h
    obtain ⟨r, hcall, heq⟩ := ended_eq h
    cases r with
    | ok value => cases heq
    | error e =>
      cases heq
      exact ⟨e, hcall, rfl⟩
  · rintro ⟨e, hcall, rfl⟩
    rw [hcall]
    rfl

theorem attachPages_loop {pages : List Nat} {err : KvPoolError}
    (htable : pool.pageIndices[slot]? = some []) (hseq : pool.seqLens[slot]? = some 0)
    (hfits : count ≤ pages.length * pool.pageSize)
    (hloop : attachLoop pages pool = some (.error err, pool')) :
    pool.attachPages slot pages count = some (.error err, pool') := by
  unfold attachPages
  rw [htable, hseq, hloop]
  simp only [Option.bind_eq_bind, Option.bind_some]
  rw [if_neg (by simp), if_neg (Nat.not_lt.mpr hfits)]

theorem attachPages_keeps_iff (h : pool.Sized) (pages : List Nat) :
    (∀ err pool', pool.attachPages slot pages count = some (.error err, pool') →
        Unchanged pool pool') ↔ KeepsOnError pool (.attachPages slot pages count) := by
  constructor
  · rintro hcalls htable hseq hfits before page after rfl hlive hdead
    obtain ⟨err, herr⟩ := attachLoop_dead (sized_foldl h before)
      ((isLive_foldl hlive page).trans hdead) after
    rw [← attachLoop_append h hlive] at herr
    have hsame := hcalls err _ (attachPages_loop htable hseq hfits herr)
    exact (foldl_countUp_eq_iff h hlive).mp hsame.2.2.2.1
  · intro hkeep err pool' hcall
    obtain rfl | ⟨⟨htable, hseq, hfits⟩, ⟨_, herr, hloop⟩ | ⟨_, hok, _⟩⟩ := attachPages_cases hcall
    · exact Unchanged.refl _
    · cases herr
      rcases attachLoop_cases h pages with ⟨hok, _⟩ | ⟨before, page, after, err', hpages, hlive,
        hdead, hstop⟩
      · rw [hok] at hloop
        cases hloop
      · rw [hstop] at hloop
        cases hloop
        have hmax := hkeep htable hseq hfits before page after hpages hlive hdead
        obtain ⟨hfree, hlayout, hrefs⟩ := foldl_countUp before pool
        obtain ⟨htables, hlens, _, _⟩ := layout_eq hlayout
        exact ⟨hfree, htables, hlens, (foldl_countUp_eq_iff h hlive).mpr hmax, hrefs⟩
    · cases hok

/-- A copy that fails has a page popped. -/
theorem cowTailPageCopying_fails (h : pool.Sized) {page : Nat}
    (hshared : pool.slotSharedHotTailPage slot = some (some page)) (hne : pool.freePages ≠ []) :
    ∃ pool', pool.cowTailPageCopying false slot = some (.error .copyFailed, pool') ∧
      pool'.freePages = pool.freePages.dropLast := by
  obtain ⟨newPage, hlast⟩ : ∃ newPage, pool.freePages.getLast? = some newPage :=
    ⟨_, List.getLast?_eq_some_getLast hne⟩
  have hlt := h.free newPage (List.mem_of_getLast? hlast)
  obtain ⟨attached, hatt⟩ := h.attached_of_lt hlt
  unfold cowTailPageCopying markAttached
  rw [hshared, Option.bind_eq_bind, Option.bind_some]
  simp only [hlast, hatt, Option.map_some, Option.bind_eq_bind, Option.bind_some,
    Bool.false_eq_true, if_false]
  exact ⟨_, rfl, rfl⟩

theorem cowTailPageCopying_keeps_iff (h : pool.Sized) (copied : Bool) :
    (∀ err pool', pool.cowTailPageCopying copied slot = some (.error err, pool') →
        Unchanged pool pool') ↔ KeepsOnError pool (.cowTailPageForAppend slot copied) := by
  constructor
  · intro hcalls
    by_cases hcopied : copied = true
    · exact .inl hcopied
    · rw [Bool.eq_false_iff.mpr hcopied] at hcalls
      refine .inr ?_
      rw [or_iff_not_imp_left]
      intro hne page hshared
      obtain ⟨pool', hfail, hfree⟩ := cowTailPageCopying_fails h hshared hne
      have hsame := (hcalls _ _ hfail).1
      have hpos := List.length_pos_iff.mpr hne
      have hlen := congrArg List.length (hfree.symm.trans hsame)
      rw [List.length_dropLast] at hlen
      omega
  · intro hkeep err pool' hcall
    obtain rfl | ⟨page, newPage, pool₁, hshared, hlast, -, ⟨hcopied, -⟩ | ⟨_, _, _, _, _, hok, -⟩⟩ :=
      cowTailPageCopying_cases hcall
    · exact Unchanged.refl _
    · rcases hkeep with htrue | hnil | hnone
      · rw [hcopied] at htrue
        cases htrue
      · rw [hnil] at hlast
        cases hlast
      · exact absurd hshared (hnone page)
    · cases hok

end Calls

/-- In every reachable state, a failed call leaves the pool as it was exactly under the
condition. -/
theorem failed_call_iff {pool : TokenKVPool} (h : Reachable Started CallStep pool)
    (call : PoolCall) :
    (∀ err pool', call.perform pool = some (.error err, pool') → Unchanged pool pool') ↔
      KeepsOnError pool call := by
  have hsized := sized_of_reachable h
  cases call with
  | allocTokens slot count =>
    refine iff_of_true ?_ trivial
    intro err pool' hcall
    obtain ⟨e, he, _⟩ := ended_error.mp hcall
    obtain rfl | ⟨_, _, _, _, _, hok, _⟩ := allocTokens_cases he
    · exact Unchanged.refl _
    · cases hok
  | allocDetachedPages count =>
    refine iff_of_true ?_ trivial
    intro err pool' hcall
    obtain ⟨e, he, _⟩ := ended_error.mp hcall
    obtain rfl | ⟨_, hok, _⟩ := allocDetachedPages_cases he
    · exact Unchanged.refl _
    · cases hok
  | attachPages slot pages tokenCount =>
    rw [← attachPages_keeps_iff hsized]
    constructor
    · intro hcalls err pool' hcall
      exact hcalls (.pool err) pool' (ended_error.mpr ⟨err, hcall, rfl⟩)
    · intro hcalls err pool' hcall
      obtain ⟨e, he, _⟩ := ended_error.mp hcall
      exact hcalls e pool' he
  | cowTailPageForAppend slot copied =>
    rw [← cowTailPageCopying_keeps_iff hsized]
    constructor
    · intro hcalls err pool' hcall
      apply hcalls err pool'
      rw [PoolCall.perform, hcall]
      rfl
    · intro hcalls err pool' hcall
      obtain ⟨⟨r, pool₁⟩, hr, heq⟩ := Option.map_eq_some_iff.mp hcall
      cases r with
      | ok value => cases heq
      | error e =>
        cases heq
        exact hcalls _ _ hr
  | truncateSlot slot newLen =>
    refine iff_of_true ?_ trivial
    intro err pool' hcall
    obtain ⟨e, he, _⟩ := ended_error.mp hcall
    obtain rfl | ⟨_, _, _, hok, _⟩ := truncateSlot_cases he
    · exact Unchanged.refl _
    · cases hok
  | freeSlot slot | retainPages pages | releasePages pages =>
    refine iff_of_true ?_ trivial
    intro err pool' hcall
    obtain ⟨pool₁, hr, heq⟩ := Option.map_eq_some_iff.mp hcall
    cases heq

/-- Three pages and two slots; slot 0 holds three tokens on two pages, and its last page is
retained. -/
def partlyShared : TokenKVPool where
  freePages := [2]
  pageIndices := [[0, 1], []]
  seqLens := [3, 0]
  slotEpochs := [0, 0]
  pageAttachCount := [1, 1, 0]
  pageRefCount := [0, 1, 0]
  maxTotalPages := 3
  pageSize := 2
  pageSize_pos := by decide

theorem partlyShared_reachable : Reachable Started CallStep partlyShared := by
  have hstart : Started (new 3 2 2 (by decide)) := ⟨3, 2, 2, by decide, rfl⟩
  have hnew : Reachable Started CallStep (new 3 2 2 (by decide)) := Reachable.start hstart
  have halloc := hnew.next (a := PoolCall.allocTokens 0 3) ⟨_, rfl⟩
  exact halloc.next (a := PoolCall.retainPages [1]) ⟨_, rfl⟩

/-- The first page of the list is not live: nothing changes. -/
theorem failed_call_iff_first : Reachable Started CallStep partlyShared ∧
    KeepsOnError partlyShared (.attachPages 1 [2, 0] 4) ∧
    ∀ err pool', (PoolCall.attachPages 1 [2, 0] 4).perform partlyShared = some (.error err, pool') →
      Unchanged partlyShared pool' := by
  have hkeep : KeepsOnError partlyShared (.attachPages 1 [2, 0] 4) := by
    intro _ _ _ before page after hpages hlive _ p hp
    cases before with
    | nil => cases hp
    | cons head before =>
      have hdead := hlive head List.mem_cons_self
      rw [← (List.cons.inj hpages).1] at hdead
      cases hdead
  exact ⟨partlyShared_reachable, hkeep, (failed_call_iff partlyShared_reachable _).mpr hkeep⟩

/-- A page of the list that is not live after one that is leaves the first one counted, and a
copy that fails loses the page it popped. -/
theorem failed_call_leaks : Reachable Started CallStep partlyShared ∧
    (∃ err pool', (PoolCall.attachPages 1 [0, 2] 4).perform partlyShared =
      some (.error err, pool') ∧ pool'.pageAttachCount ≠ partlyShared.pageAttachCount) ∧
    ∃ err pool', (PoolCall.cowTailPageForAppend 0 false).perform partlyShared =
      some (.error err, pool') ∧ pool'.freePages ≠ partlyShared.freePages :=
  ⟨partlyShared_reachable, ⟨_, _, rfl, by decide⟩, ⟨_, _, rfl, by decide⟩⟩

end Arle.CudaKernels.TokenKVPool
