import Mathlib
import Arle.CudaKernels.PagedKv

/-!
# What the pool calls do to the counters

`Balanced pool att refs` says that the two counters of a page `p` are `att p` and `refs p`,
and that the free stack holds the pages whose counters are both zero, each of them once.
Every call moves a list of pages: it adds the list to one counter or takes it away.
-/

namespace Arle.CudaKernels.TokenKVPool

/-! ## Counters -/

/-- The counters of a pool are the functions `att` and `refs`, and the free stack agrees. -/
structure Balanced (pool : TokenKVPool) (att refs : Nat → Nat) : Prop where
  attached : ∀ p, pool.pageAttachCount[p]? = if p < pool.maxTotalPages then some (att p) else none
  retained : ∀ p, pool.pageRefCount[p]? = if p < pool.maxTotalPages then some (refs p) else none
  nodup : pool.freePages.Nodup
  free : ∀ p, p ∈ pool.freePages ↔ p < pool.maxTotalPages ∧ att p = 0 ∧ refs p = 0

/-- What no counter is part of. -/
def layout (pool : TokenKVPool) : List (List Nat) × List Nat × Nat × Nat :=
  (pool.pageIndices, pool.seqLens, pool.maxTotalPages, pool.pageSize)

section Layout

variable {pool pool' : TokenKVPool}

theorem layout_eq (h : pool'.layout = pool.layout) : pool'.pageIndices = pool.pageIndices ∧
    pool'.seqLens = pool.seqLens ∧ pool'.maxTotalPages = pool.maxTotalPages ∧
    pool'.pageSize = pool.pageSize := by
  simpa [layout] using h

end Layout

/-- The pages of a list, added to a counter. -/
def plus (f : Nat → Nat) (pages : List Nat) (p : Nat) : Nat := f p + pages.count p

/-- The pages of a list, taken away from a counter. -/
def minus (f : Nat → Nat) (pages : List Nat) (p : Nat) : Nat := f p - pages.count p

section Counts

variable {f : Nat → Nat} {p page : Nat} {pages : List Nat}

@[simp] theorem plus_nil : plus f [] = f := rfl

theorem plus_cons : plus f (page :: pages) = plus (plus f [page]) pages := by
  funext p
  simp only [plus, List.count_cons, List.count_nil]
  omega

theorem minus_cons : minus f (page :: pages) = minus (minus f [page]) pages := by
  funext p
  simp only [minus, List.count_cons, List.count_nil]
  omega

theorem plus_append (L M : List Nat) : plus f (L ++ M) = plus (plus f L) M := by
  funext p
  simp only [plus, List.count_append]
  omega

theorem update_plus : Function.update f page (f page + 1) = plus f [page] := by
  funext p
  by_cases h : p = page
  · subst h
    simp [plus]
  · simp [plus, Function.update_of_ne h, List.count_cons_of_ne (Ne.symm h)]

theorem update_minus : Function.update f page (f page - 1) = minus f [page] := by
  funext p
  by_cases h : p = page
  · subst h
    simp [minus]
  · simp [minus, Function.update_of_ne h, List.count_cons_of_ne (Ne.symm h)]

end Counts

namespace Balanced

variable {pool : TokenKVPool} {att refs : Nat → Nat} {p page count : Nat}

theorem attached_eq (h : pool.Balanced att refs) (hp : p < pool.maxTotalPages) :
    pool.pageAttachCount[p]? = some (att p) := by
  rw [h.attached, if_pos hp]

theorem retained_eq (h : pool.Balanced att refs) (hp : p < pool.maxTotalPages) :
    pool.pageRefCount[p]? = some (refs p) := by
  rw [h.retained, if_pos hp]

/-- There is one counter for each page. -/
theorem counts_length {counts : List Nat} {f : Nat → Nat} {n : Nat}
    (h : ∀ p, counts[p]? = if p < n then some (f p) else none) : counts.length = n := by
  refine Nat.le_antisymm (Nat.le_of_not_lt fun hlt => ?_) (Nat.le_of_not_lt fun hlt => ?_)
  · have := h n
    rw [if_neg (Nat.lt_irrefl n), List.getElem?_eq_none_iff] at this
    omega
  · have := h counts.length
    rw [if_pos hlt, List.getElem?_eq_none (Nat.le_refl _)] at this
    cases this

/-- Writing a counter, apart from what it does to the free stack. -/
theorem getElem?_set {counts : List Nat} {f : Nat → Nat} {n : Nat}
    (h : ∀ p, counts[p]? = if p < n then some (f p) else none) (page count p : Nat) :
    (counts.set page count)[p]? =
      if p < n then some (Function.update f page count p) else none := by
  rw [List.getElem?_set]
  by_cases hp : page = p
  · subst hp
    rw [if_pos rfl, counts_length h, Function.update_self]
  · rw [if_neg hp, h p, Function.update_of_ne (Ne.symm hp)]

/-- A change of the attach counter that keeps the free stack right. -/
theorem setAttach (h : pool.Balanced att refs)
    (hfree : page ∈ pool.freePages ↔ page < pool.maxTotalPages ∧ count = 0 ∧ refs page = 0) :
    (pool.setAttach page count).Balanced (Function.update att page count) refs where
  attached := getElem?_set h.attached page count
  retained := h.retained
  nodup := h.nodup
  free p := by
    by_cases hp : p = page
    · subst hp
      rw [Function.update_self]
      exact hfree
    · rw [Function.update_of_ne hp]
      exact h.free p

theorem setRefs (h : pool.Balanced att refs)
    (hfree : page ∈ pool.freePages ↔ page < pool.maxTotalPages ∧ att page = 0 ∧ count = 0) :
    (pool.setRefs page count).Balanced att (Function.update refs page count) where
  attached := h.attached
  retained := getElem?_set h.retained page count
  nodup := h.nodup
  free p := by
    by_cases hp : p = page
    · subst hp
      rw [Function.update_self]
      exact hfree
    · rw [Function.update_of_ne hp]
      exact h.free p

/-- The top of the free stack. -/
theorem last_free (h : pool.Balanced att refs) (hlast : pool.freePages.getLast? = some page) :
    page < pool.maxTotalPages ∧ att page = 0 ∧ refs page = 0 ∧
      page ∉ pool.freePages.dropLast ∧
      ∀ p, p ∈ pool.freePages.dropLast ↔ p ∈ pool.freePages ∧ p ≠ page := by
  have hmem := List.mem_of_getLast? hlast
  have hsplit := List.dropLast_append_getLast? page hlast
  have hnodup := h.nodup
  rw [← hsplit] at hnodup
  have hnot : page ∉ pool.freePages.dropLast := by
    intro hin
    exact (List.nodup_append.mp hnodup).2.2 page hin page List.mem_cons_self rfl
  obtain ⟨hlt, hatt, hrefs⟩ := (h.free page).mp hmem
  refine ⟨hlt, hatt, hrefs, hnot, fun p => ⟨fun hp => ?_, fun hp => ?_⟩⟩
  · exact ⟨List.dropLast_subset _ hp, fun heq => hnot (heq ▸ hp)⟩
  · have := hp.1
    rw [← hsplit, List.mem_append] at this
    exact this.resolve_right fun h => hp.2 (List.mem_singleton.mp h)

/-- Pop a page for a slot. -/
theorem markAttached (h : pool.Balanced att refs)
    (hlast : pool.freePages.getLast? = some page) : ∃ pool',
    { pool with freePages := pool.freePages.dropLast }.markAttached page = some pool' ∧
      pool'.Balanced (plus att [page]) refs ∧ pool'.layout = pool.layout ∧
      pool'.freePages = pool.freePages.dropLast := by
  obtain ⟨hlt, hatt, hrefs, hnot, hmem⟩ := h.last_free hlast
  refine ⟨{ pool with freePages := pool.freePages.dropLast }.setAttach page 1,
    by simp only [TokenKVPool.markAttached, h.attached_eq hlt, Option.map_some], ?_, rfl, rfl⟩
  rw [← update_plus, hatt]
  refine ⟨getElem?_set h.attached page 1, h.retained, h.nodup.sublist (List.dropLast_sublist _),
    fun p => ?_⟩
  by_cases hp : p = page
  · subst hp
    simp only [Function.update_self]
    exact ⟨fun hin => absurd hin hnot, fun hin => absurd hin.2.1 Nat.one_ne_zero⟩
  · rw [Function.update_of_ne hp]
    exact (hmem p).trans ((and_iff_left hp).trans (h.free p))

/-- Pop a page without a slot. -/
theorem markRetained (h : pool.Balanced att refs)
    (hlast : pool.freePages.getLast? = some page) : ∃ pool',
    { pool with freePages := pool.freePages.dropLast }.markRetained page = some pool' ∧
      pool'.Balanced att (plus refs [page]) ∧ pool'.layout = pool.layout ∧
      pool'.freePages = pool.freePages.dropLast := by
  obtain ⟨hlt, hatt, hrefs, hnot, hmem⟩ := h.last_free hlast
  refine ⟨{ pool with freePages := pool.freePages.dropLast }.setRefs page 1,
    by simp only [TokenKVPool.markRetained, h.retained_eq hlt, Option.map_some], ?_, rfl, rfl⟩
  rw [← update_plus, hrefs]
  refine ⟨h.attached, getElem?_set h.retained page 1, h.nodup.sublist (List.dropLast_sublist _),
    fun p => ?_⟩
  by_cases hp : p = page
  · subst hp
    simp only [Function.update_self]
    exact ⟨fun hin => absurd hin hnot, fun hin => absurd hin.2.2 Nat.one_ne_zero⟩
  · rw [Function.update_of_ne hp]
    exact (hmem p).trans ((and_iff_left hp).trans (h.free p))

/-- Recycling a page that has just given up an owner makes the free stack right again. -/
theorem recycle_spec {pool : TokenKVPool} {att refs : Nat → Nat} {page : Nat}
    (hatt : ∀ p, pool.pageAttachCount[p]? = if p < pool.maxTotalPages then some (att p) else none)
    (hrefs : ∀ p, pool.pageRefCount[p]? = if p < pool.maxTotalPages then some (refs p) else none)
    (hnodup : pool.freePages.Nodup) (hlt : page < pool.maxTotalPages)
    (hnot : page ∉ pool.freePages)
    (hfree : ∀ p, p ≠ page →
      (p ∈ pool.freePages ↔ p < pool.maxTotalPages ∧ att p = 0 ∧ refs p = 0)) :
    ∃ freed pool', pool.recyclePageIfUnreferenced page = some (freed, pool') ∧
      pool'.Balanced att refs ∧ pool'.layout = pool.layout := by
  rw [recyclePageIfUnreferenced, hatt, if_pos hlt]
  simp only [Option.bind_eq_bind, Option.bind_some]
  rw [hrefs, if_pos hlt, Option.bind_some]
  split
  · rename_i hzero
    refine ⟨_, _, rfl, ⟨hatt, hrefs, ?_, fun p => ?_⟩, rfl⟩
    · exact List.nodup_append.mpr ⟨hnodup, List.nodup_singleton _, fun a ha b hb heq =>
        hnot (List.mem_singleton.mp hb ▸ heq ▸ ha)⟩
    · rw [List.mem_append, List.mem_singleton]
      by_cases hp : p = page
      · subst hp
        exact ⟨fun _ => ⟨hlt, hzero⟩, fun _ => Or.inr rfl⟩
      · exact (or_iff_left hp).trans (hfree p hp)
  · rename_i hzero
    refine ⟨_, _, rfl, ⟨hatt, hrefs, hnodup, fun p => ?_⟩, rfl⟩
    by_cases hp : p = page
    · subst hp
      exact ⟨fun hin => absurd hin hnot, fun hin => absurd hin.2 hzero⟩
    · exact hfree p hp

/-- A page loses one slot; it is freed when it was the last owner. -/
theorem detachPage (h : pool.Balanced att refs) (hlt : page < pool.maxTotalPages)
    (hpos : 0 < att page) : ∃ freed pool',
    (pool.setAttach page (att page - 1)).recyclePageIfUnreferenced page = some (freed, pool') ∧
      pool'.Balanced (minus att [page]) refs ∧ pool'.layout = pool.layout := by
  rw [← update_minus]
  refine recycle_spec (getElem?_set h.attached page _) h.retained h.nodup hlt (fun hin => ?_)
    fun p hp => ?_
  · have := ((h.free page).mp hin).2.1
    omega
  · rw [Function.update_of_ne hp]
    exact h.free p

/-- A page loses one retain; it is freed when it was the last owner. -/
theorem releasePage (h : pool.Balanced att refs) (hlt : page < pool.maxTotalPages)
    (hpos : 0 < refs page) : ∃ freed pool',
    (pool.setRefs page (refs page - 1)).recyclePageIfUnreferenced page = some (freed, pool') ∧
      pool'.Balanced att (minus refs [page]) ∧ pool'.layout = pool.layout := by
  rw [← update_minus]
  refine recycle_spec h.attached (getElem?_set h.retained page _) h.nodup hlt (fun hin => ?_)
    fun p hp => ?_
  · have := ((h.free page).mp hin).2.2
    omega
  · rw [Function.update_of_ne hp]
    exact h.free p

/-- A page gets one more slot. -/
theorem attachPage (h : pool.Balanced att refs) (hlive : ¬ (att page = 0 ∧ refs page = 0)) :
    (pool.setAttach page (att page + 1)).Balanced (plus att [page]) refs := by
  rw [← update_plus]
  refine h.setAttach ⟨fun hin => absurd ((h.free page).mp hin).2 hlive, fun hin => ?_⟩
  exact absurd hin.2.1 (Nat.succ_ne_zero _)

/-- A page is retained once more. -/
theorem retainPage (h : pool.Balanced att refs) (hlive : page ∉ pool.freePages) :
    (pool.setRefs page (refs page + 1)).Balanced att (plus refs [page]) := by
  rw [← update_plus]
  refine h.setRefs ⟨fun hin => absurd hin hlive, fun hin => ?_⟩
  exact absurd hin.2.2 (Nat.succ_ne_zero _)

end Balanced

/-! ## The loops -/

section Loops

variable {pool : TokenKVPool} {att refs : Nat → Nat} {pages : List Nat}

/-- Taking pages off the free stack, when marking one page keeps `B`. -/
theorem takePages_spec {mark : TokenKVPool → Nat → Option TokenKVPool}
    {B : TokenKVPool → List Nat → Prop}
    (hmark : ∀ pool taken page, B pool taken → pool.freePages.getLast? = some page → ∃ pool',
      mark { pool with freePages := pool.freePages.dropLast } page = some pool' ∧
        B pool' (taken ++ [page]) ∧ pool'.layout = pool.layout ∧
        pool'.freePages = pool.freePages.dropLast) {n : Nat}
    (taken newPages : List Nat) (hB : B pool taken) (hn : n ≤ pool.freePages.length) : ∃ more pool',
    takePages mark n pool newPages = some (newPages ++ more, pool') ∧ more.length = n ∧
      B pool' (taken ++ more) ∧ pool'.layout = pool.layout ∧
      pool.freePages = pool'.freePages ++ more.reverse := by
  induction n generalizing pool taken newPages with
  | zero => exact ⟨[], pool, by simp [takePages], rfl, by simpa using hB, rfl, by simp⟩
  | succ n ih =>
    obtain ⟨page, hlast⟩ : ∃ page, pool.freePages.getLast? = some page := by
      cases h : pool.freePages.getLast? with
      | none =>
        rw [List.getLast?_eq_none_iff.mp h] at hn
        simp at hn
      | some page => exact ⟨page, rfl⟩
    obtain ⟨pool₁, hmarked, hB₁, hlayout₁, hfree₁⟩ := hmark pool taken page hB hlast
    have hlen : n ≤ pool₁.freePages.length := by
      rw [hfree₁, List.length_dropLast]
      omega
    obtain ⟨more, pool', htake, hmore, hB', hlayout', hfree'⟩ :=
      ih (taken ++ [page]) (newPages ++ [page]) hB₁ hlen
    refine ⟨page :: more, pool', ?_, by rw [List.length_cons, hmore], ?_,
      hlayout'.trans hlayout₁, ?_⟩
    · rw [takePages, hlast]
      simp only [Option.bind_eq_bind, Option.bind_some, hmarked, htake, List.append_assoc,
        List.singleton_append]
    · rw [List.append_assoc] at hB'
      exact hB'
    · rw [List.reverse_cons, ← List.append_assoc, ← hfree', hfree₁]
      exact (List.dropLast_append_getLast? page hlast).symm

/-- The pages taken are free ones, each taken once. -/
theorem taken_free (h : pool.Balanced att refs) {left more : List Nat}
    (hfree : pool.freePages = left ++ more.reverse) : more.Nodup ∧
      ∀ p ∈ more, p < pool.maxTotalPages ∧ att p = 0 ∧ refs p = 0 := by
  have hnodup := h.nodup
  rw [hfree, List.nodup_append] at hnodup
  refine ⟨List.nodup_reverse.mp hnodup.2.1, fun p hp => (h.free p).mp ?_⟩
  rw [hfree]
  exact List.mem_append_right _ (List.mem_reverse.mpr hp)

theorem detachLoop_spec (h : pool.Balanced att refs) (recycled : List Nat)
    (hpages : ∀ p ∈ pages, p < pool.maxTotalPages) (hcount : ∀ p, pages.count p ≤ att p) :
    ∃ recycled' pool', detachLoop pages pool recycled = some (recycled', pool') ∧
      pool'.Balanced (minus att pages) refs ∧ pool'.layout = pool.layout := by
  induction pages generalizing pool att recycled with
  | nil => exact ⟨recycled, pool, rfl, h, rfl⟩
  | cons page pages ih =>
    have hlt := hpages page List.mem_cons_self
    have hpos : 0 < att page := by
      have := hcount page
      rw [List.count_cons_self] at this
      omega
    obtain ⟨freed, pool₁, hdetach, h₁, hlayout₁⟩ := h.detachPage hlt hpos
    have hmax := (layout_eq hlayout₁).2.2.1
    obtain ⟨recycled', pool', hloop, h', hlayout'⟩ := ih h₁
      (if freed then recycled ++ [page] else recycled)
      (fun p hp => hmax.symm ▸ hpages p (List.mem_cons_of_mem _ hp)) fun p => by
        have := hcount p
        simp only [minus, List.count_cons, List.count_nil] at this ⊢
        omega
    refine ⟨recycled', pool', ?_, minus_cons ▸ h', hlayout'.trans hlayout₁⟩
    rw [detachLoop, h.attached_eq hlt]
    simp only [Option.bind_eq_bind, Option.bind_some, hdetach, hloop]

theorem retainPages_spec (h : pool.Balanced att refs)
    (hpages : ∀ p ∈ pages, p < pool.maxTotalPages ∧ p ∉ pool.freePages)
    (hfits : ∀ p, refs p + pages.count p ≤ Word.maxVal 32) : ∃ pool',
    retainPages pages pool = some pool' ∧ pool'.Balanced att (plus refs pages) ∧
      pool'.layout = pool.layout := by
  induction pages generalizing pool refs with
  | nil => exact ⟨pool, rfl, h, rfl⟩
  | cons page pages ih =>
    obtain ⟨hlt, hlive⟩ := hpages page List.mem_cons_self
    have hadd : Word.saturatingAdd 32 (refs page) 1 = refs page + 1 := by
      have := hfits page
      rw [List.count_cons_self] at this
      exact Nat.min_eq_left (by omega)
    obtain ⟨pool', hloop, h', hlayout'⟩ := ih (h.retainPage hlive)
      (fun p hp => hpages p (List.mem_cons_of_mem _ hp)) fun p => by
        have := hfits p
        simp only [plus, List.count_cons, List.count_nil] at this ⊢
        omega
    refine ⟨pool', ?_, plus_cons ▸ h', hlayout'⟩
    rw [retainPages, h.retained_eq hlt]
    simp only [Option.bind_eq_bind, Option.bind_some, hadd, hloop]

theorem releaseLoop_spec (h : pool.Balanced att refs) (newlyFreed : List Nat)
    (hpages : ∀ p ∈ pages, p < pool.maxTotalPages) (hcount : ∀ p, pages.count p ≤ refs p) :
    ∃ newlyFreed' pool', releaseLoop pages pool newlyFreed = some (newlyFreed', pool') ∧
      pool'.Balanced att (minus refs pages) ∧ pool'.layout = pool.layout := by
  induction pages generalizing pool refs newlyFreed with
  | nil => exact ⟨newlyFreed, pool, rfl, h, rfl⟩
  | cons page pages ih =>
    have hlt := hpages page List.mem_cons_self
    have hpos : 0 < refs page := by
      have := hcount page
      rw [List.count_cons_self] at this
      omega
    -- the page after its release, whether or not it is looked at for recycling
    have hnext : ∀ {pool₁ : TokenKVPool} (newlyFreed : List Nat),
        pool₁.Balanced att (minus refs [page]) → pool₁.layout = pool.layout →
        ∃ newlyFreed' pool', releaseLoop pages pool₁ newlyFreed = some (newlyFreed', pool') ∧
          pool'.Balanced att (minus refs (page :: pages)) ∧ pool'.layout = pool.layout := by
      intro pool₁ newlyFreed h₁ hlayout₁
      have hmax := (layout_eq hlayout₁).2.2.1
      obtain ⟨newlyFreed', pool', hloop, h', hlayout'⟩ := ih h₁ newlyFreed
        (fun p hp => hmax.symm ▸ hpages p (List.mem_cons_of_mem _ hp)) fun p => by
          have := hcount p
          simp only [minus, List.count_cons, List.count_nil] at this ⊢
          omega
      exact ⟨newlyFreed', pool', hloop, minus_cons ▸ h', hlayout'.trans hlayout₁⟩
    rw [releaseLoop, h.retained_eq hlt]
    simp only [Option.bind_eq_bind, Option.bind_some]
    split
    · obtain ⟨freed, pool₁, hrelease, h₁, hlayout₁⟩ := h.releasePage hlt hpos
      rw [hrelease, Option.bind_some]
      exact hnext _ h₁ hlayout₁
    · rename_i hleft
      refine hnext newlyFreed ?_ rfl
      rw [← update_minus]
      refine h.setRefs ⟨fun hin => ?_, fun hin => absurd hin.2.2 hleft⟩
      exact absurd ((h.free page).mp hin).2.2 (Nat.ne_of_gt hpos)

/-- The pages of the list that `attach_pages` counts: those before the first one that is not
live. -/
def isLive (pool : TokenKVPool) (page : Nat) : Bool :=
  match pool.pageAttachCount[page]?, pool.pageRefCount[page]? with
  | some attached, some refs => decide (¬ (attached = 0 ∧ refs = 0))
  | _, _ => false

theorem isLive_iff (h : pool.Balanced att refs) (p : Nat) :
    pool.isLive p = true ↔ p < pool.maxTotalPages ∧ ¬ (att p = 0 ∧ refs p = 0) := by
  rw [isLive, h.attached, h.retained]
  by_cases hlt : p < pool.maxTotalPages
  · simp only [hlt, if_true, true_and, decide_eq_true_eq]
  · simp [hlt]

theorem attachLoop_spec (h : pool.Balanced att refs)
    (hfits : ∀ p < pool.maxTotalPages, att p + pages.count p ≤ Word.maxVal 32) :
    ∃ result pool',
    attachLoop pages pool = some (result, pool') ∧ pool'.layout = pool.layout ∧
      match result with
      | .ok () => (∀ p ∈ pages, pool.isLive p = true) ∧ pool'.Balanced (plus att pages) refs
      | .error _ => (∃ p ∈ pages, pool.isLive p = false) ∧
          ∃ counted, counted <+: pages ∧ pool'.Balanced (plus att counted) refs := by
  induction pages generalizing pool att with
  | nil => exact ⟨.ok (), pool, rfl, rfl, fun p hp => absurd hp List.not_mem_nil, h⟩
  | cons page pages ih =>
    by_cases hlive : pool.isLive page = true
    · obtain ⟨hlt, hnz⟩ := (isLive_iff h page).mp hlive
      have hadd : Word.saturatingAdd 32 (att page) 1 = att page + 1 := by
        have := hfits page hlt
        rw [List.count_cons_self] at this
        exact Nat.min_eq_left (by omega)
      have h₁ := h.attachPage hnz
      have hlive₁ : ∀ p, (pool.setAttach page (att page + 1)).isLive p = pool.isLive p := by
        intro p
        rw [Bool.eq_iff_iff, isLive_iff h₁, isLive_iff h]
        by_cases hp : p = page
        · subst hp
          simp [plus, setAttach, hnz]
        · simp [plus, setAttach, List.count_cons_of_ne (Ne.symm hp)]
      obtain ⟨result, pool', hloop, hlayout', hspec⟩ := ih h₁ fun p hp => by
        have := hfits p hp
        simp only [plus, List.count_cons, List.count_nil] at this ⊢
        omega
      refine ⟨result, pool', ?_, hlayout', ?_⟩
      · rw [attachLoop, if_neg (Nat.not_le.mpr hlt), h.attached_eq hlt]
        simp only [Option.bind_eq_bind, Option.bind_some]
        rw [h.retained_eq hlt, Option.bind_some, if_neg hnz, hadd, hloop]
      · cases result with
        | ok _ =>
          obtain ⟨hall, hbal⟩ := hspec
          refine ⟨fun p hp => ?_, plus_cons ▸ hbal⟩
          rcases List.mem_cons.mp hp with rfl | hp
          · exact hlive
          · exact (hlive₁ p).symm.trans (hall p hp)
        | error err =>
          obtain ⟨⟨p, hp, hdead⟩, counted, hstart, hbal⟩ := hspec
          refine ⟨⟨p, List.mem_cons_of_mem _ hp, (hlive₁ p).symm.trans hdead⟩, page :: counted,
            List.cons_prefix_cons.mpr ⟨rfl, hstart⟩, ?_⟩
          exact plus_cons ▸ hbal
    · have hdead : pool.isLive page = false := Bool.eq_false_iff.mpr hlive
      have hcounted : pool.Balanced (plus att []) refs := h
      rw [isLive_iff h, not_and, not_not] at hlive
      rw [attachLoop]
      by_cases hlt : page < pool.maxTotalPages
      · rw [if_neg (Nat.not_le.mpr hlt), h.attached_eq hlt]
        simp only [Option.bind_eq_bind, Option.bind_some]
        rw [h.retained_eq hlt, Option.bind_some, if_pos (hlive hlt)]
        exact ⟨_, _, rfl, rfl, ⟨page, List.mem_cons_self, hdead⟩, [], List.nil_prefix, hcounted⟩
      · rw [if_pos (Nat.not_lt.mp hlt)]
        exact ⟨_, _, rfl, rfl, ⟨page, List.mem_cons_self, hdead⟩, [], List.nil_prefix, hcounted⟩

end Loops

end Arle.CudaKernels.TokenKVPool
