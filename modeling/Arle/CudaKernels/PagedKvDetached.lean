import Arle.CudaKernels.PagedKvOwned

/-!
# Detached pages

Which pages a call of `alloc_detached_pages` takes off the free stack, and that a release of the
same pages brings the counters back to what they were.
-/

namespace Arle.CudaKernels.TokenKVPool

variable {pool pool' : TokenKVPool} {att refs : Nat → Nat} {pages : List Nat} {count : Nat}

theorem plus_released (f : Nat → Nat) (pages : List Nat) : minus (plus f pages) pages = f :=
  funext fun p => Nat.add_sub_cancel (f p) (pages.count p)

/-- An allocation fails and changes nothing, or it takes the topmost free pages. -/
theorem allocDetachedPages_takes (h : pool.Balanced att refs) (hcount : 0 < count) :
    (pool.freePages.length < count ∧ ∃ err,
      pool.allocDetachedPages count = some (.error err, pool)) ∨
    (count ≤ pool.freePages.length ∧ ∃ pool',
      pool.allocDetachedPages count = some (.ok (pool.freePages.reverse.take count), pool') ∧
      pool'.freePages.reverse = pool.freePages.reverse.drop count ∧
      pool'.Balanced att (plus refs (pool.freePages.reverse.take count)) ∧
      pool'.layout = pool.layout) := by
  unfold allocDetachedPages
  rw [if_neg (Nat.ne_of_gt hcount)]
  split
  next hfull => exact .inl ⟨hfull, _, rfl⟩
  next hroom =>
    have hle := Nat.not_lt.mp hroom
    obtain ⟨more, pool', htake, hlen, hbalanced, hlayout, hfree⟩ := takePages_spec
      (B := fun pool taken => pool.Balanced att (plus refs taken))
      (fun pool taken page hB hlast => by
        obtain ⟨pool', hmark, hB', hlayout, hfree⟩ := hB.markRetained hlast
        exact ⟨pool', hmark, plus_append taken [page] ▸ hB', hlayout, hfree⟩) [] [] h hle
    have hreverse : pool.freePages.reverse = more ++ pool'.freePages.reverse := by
      rw [hfree, List.reverse_append, List.reverse_reverse]
    have hmore : pool.freePages.reverse.take count = more := by
      rw [hreverse, ← hlen, List.take_left]
    refine .inr ⟨hle, pool', ?_, ?_, ?_, hlayout⟩
    · rw [htake, hmore]
      rfl
    · rw [hreverse, ← hlen, List.drop_left]
    · rw [hmore]
      exact hbalanced

/-- A release of pages that are retained beside the others. -/
theorem releasePages_retained (h : pool.Balanced att (plus refs pages))
    (hpages : ∀ p ∈ pages, p < pool.maxTotalPages) : ∃ newlyFreed pool',
    pool.releasePages pages = some (newlyFreed, pool') ∧ pool'.Balanced att refs ∧
      pool'.layout = pool.layout := by
  obtain ⟨newlyFreed, pool', hrelease, hbalanced, hlayout⟩ :=
    releaseLoop_spec h [] hpages fun p => by
      unfold plus
      omega
  rw [plus_released] at hbalanced
  exact ⟨newlyFreed, pool', hrelease, hbalanced, hlayout⟩

/-- The counters determine how many pages are free. -/
theorem Balanced.same (h : pool.Balanced att refs) (h' : pool'.Balanced att refs)
    (hlayout : pool'.layout = pool.layout) :
    pool'.freePages.length = pool.freePages.length ∧ pool'.pageRefCount = pool.pageRefCount := by
  have hmax := (layout_eq hlayout).2.2.1
  constructor
  · refine List.Perm.length_eq ((List.perm_ext_iff_of_nodup h'.nodup h.nodup).mpr fun p => ?_)
    rw [h.free, h'.free, hmax]
  · refine List.ext_getElem? fun p => ?_
    rw [h.retained, h'.retained, hmax]

/-- Pages that stay retained show in the counters. -/
theorem Balanced.refs_changed (h : pool.Balanced att refs)
    (h' : pool'.Balanced att (plus refs pages)) (hlayout : pool'.layout = pool.layout) {p : Nat}
    (hp : p ∈ pages) (hlt : p < pool.maxTotalPages) : pool'.pageRefCount ≠ pool.pageRefCount := by
  intro hsame
  have hread := h'.retained p
  rw [hsame, h.retained, (layout_eq hlayout).2.2.1, if_pos hlt, if_pos hlt, Option.some.injEq]
    at hread
  have hcount := List.count_pos_iff.mpr hp
  unfold plus at hread
  omega

end Arle.CudaKernels.TokenKVPool
