import Arle.Lib.Slices
import Arle.Scheduler.Cuda.PromotionTrace

/-!
# The pages of restored blocks

`install_restored_kv` records the pages of a payload only after their copy has succeeded. A copy
that fails leaves its pages retained, and nothing names them any more.
-/

namespace Arle.Scheduler.Cuda.PromotionState

open KvTier PrefixCache CudaKernels TokenKVPool

variable (s : PromotionState)

/-- A page is recorded in `block_to_pages`. -/
def Recorded (s : PromotionState) (p : Nat) : Prop :=
  ∃ block pages, s.blockToPages.lookup block = some pages ∧ p ∈ pages

/-- The copy of every payload that gets pages succeeds. -/
def CopiesAll (payloads : List (BlockFingerprint × List UInt8)) : Prop :=
  ∀ (k : Nat) entry, payloads[k]? = some entry →
    (k + 1) * s.pagesPerBlock ≤ s.pagedKvPool.freePages.length →
    s.copyPagesFromHost (s.stagedPages k) entry.2.length = .ok ()

/-- Where the loop stands after the payloads `done`: which pages it has taken, and which of them
are recorded. -/
structure Installing (done : List (BlockFingerprint × List UInt8)) (pool : TokenKVPool)
    (recorded : Assoc BlockId (List Nat)) : Prop where
  room : done.length * s.pagesPerBlock ≤ s.pagedKvPool.freePages.length
  left : pool.freePages.reverse =
    s.pagedKvPool.freePages.reverse.drop (done.length * s.pagesPerBlock)
  balanced : ∃ att refs, pool.Balanced att refs
  layout : pool.layout = s.pagedKvPool.layout
  kept : ∀ (j : Nat) entry, done[j]? = some entry →
    s.copyPagesFromHost (s.stagedPages j) entry.2.length = .ok () →
    ∃ page, (s.stagedPages j).head? = some page ∧
      recorded.lookup (blockOfPage page) = some (s.stagedPages j)
  only : ∀ block pages, recorded.lookup block = some pages → ∀ p ∈ pages,
    p ∈ s.pagedKvPool.freePages → ∃ (j : Nat) (entry : BlockFingerprint × List UInt8),
      done[j]? = some entry ∧
      s.copyPagesFromHost (s.stagedPages j) entry.2.length = .ok () ∧ p ∈ s.stagedPages j

section Pages

variable {s} {j k p : Nat}

theorem mem_stagedPages : p ∈ s.stagedPages j ↔
    ∃ i < s.pagesPerBlock, s.pagedKvPool.freePages.reverse[j * s.pagesPerBlock + i]? = some p := by
  unfold stagedPages
  rw [List.mem_iff_getElem?]
  constructor
  · rintro ⟨i, hi⟩
    rw [List.getElem?_take] at hi
    split at hi
    · next hlt => exact ⟨i, hlt, List.getElem?_drop ▸ hi⟩
    · cases hi
  · rintro ⟨i, hlt, hi⟩
    refine ⟨i, ?_⟩
    rw [List.getElem?_take_of_lt hlt, List.getElem?_drop]
    exact hi

theorem mem_free_of_mem_stagedPages (h : p ∈ s.stagedPages j) : p ∈ s.pagedKvPool.freePages :=
  List.mem_reverse.mp (List.mem_of_mem_drop (List.mem_of_mem_take h))

/-- A free page has one place on the stack. -/
theorem freePages_place (hnodup : s.pagedKvPool.freePages.Nodup) {i l : Nat}
    (hi : s.pagedKvPool.freePages.reverse[i]? = some p)
    (hl : s.pagedKvPool.freePages.reverse[l]? = some p) : i = l :=
  (List.getElem?_inj (List.getElem?_eq_some_iff.mp hi).1 (List.nodup_reverse.mpr hnodup)).mp
    (hi.trans hl.symm)

/-- No page is handed out twice. -/
theorem stagedPages_disjoint (hnodup : s.pagedKvPool.freePages.Nodup) (hj : p ∈ s.stagedPages j)
    (hk : p ∈ s.stagedPages k) : j = k := by
  obtain ⟨i, hi, hgetj⟩ := mem_stagedPages.mp hj
  obtain ⟨l, hl, hgetk⟩ := mem_stagedPages.mp hk
  have hsame := freePages_place hnodup hgetj hgetk
  have hdiv : ∀ {m r : Nat}, r < s.pagesPerBlock →
      (m * s.pagesPerBlock + r) / s.pagesPerBlock = m := by
    intro m r hr
    rw [Nat.mul_comm, Nat.mul_add_div s.pagesPerBlock_pos, Nat.div_eq_of_lt hr, Nat.add_zero]
  rw [← hdiv (m := j) hi, ← hdiv (m := k) hl, hsame]

/-- A page that the first `n` blocks get is one of some block's. -/
theorem exists_stagedPages {n : Nat} (hfree : p ∈ s.pagedKvPool.freePages)
    (hleft : p ∉ s.pagedKvPool.freePages.reverse.drop (n * s.pagesPerBlock)) :
    ∃ j < n, p ∈ s.stagedPages j := by
  obtain ⟨i, hi⟩ := List.mem_iff_getElem?.mp (List.mem_reverse.mpr hfree)
  have hpos := s.pagesPerBlock_pos
  have hlt : i < n * s.pagesPerBlock := by
    by_contra hge
    refine hleft (List.mem_iff_getElem?.mpr ⟨i - n * s.pagesPerBlock, ?_⟩)
    rw [List.getElem?_drop, Nat.add_sub_cancel' (Nat.not_lt.mp hge)]
    exact hi
  refine ⟨i / s.pagesPerBlock, Nat.div_lt_of_lt_mul (Nat.mul_comm n _ ▸ hlt), ?_⟩
  refine mem_stagedPages.mpr ⟨i % s.pagesPerBlock, Nat.mod_lt _ hpos, ?_⟩
  rw [Nat.div_add_mod']
  exact hi

/-- The pages of a block with room are taken. -/
theorem stagedPages_taken {n : Nat} (hnodup : s.pagedKvPool.freePages.Nodup) (hj : j < n)
    (hp : p ∈ s.stagedPages j) :
    p ∉ s.pagedKvPool.freePages.reverse.drop (n * s.pagesPerBlock) := by
  intro hleft
  obtain ⟨i, hi, hget⟩ := mem_stagedPages.mp hp
  obtain ⟨l, hl⟩ := List.mem_iff_getElem?.mp hleft
  rw [List.getElem?_drop] at hl
  have hsame := freePages_place hnodup hget hl
  have hle : (j + 1) * s.pagesPerBlock ≤ n * s.pagesPerBlock := Nat.mul_le_mul_right _ hj
  rw [Nat.succ_mul] at hle
  omega

/-- A block with room gets pages. -/
theorem exists_head_stagedPages
    (hroom : (j + 1) * s.pagesPerBlock ≤ s.pagedKvPool.freePages.length) :
    ∃ page, (s.stagedPages j).head? = some page := by
  refine Option.ne_none_iff_exists'.mp fun hnone => ?_
  have hlength := congrArg List.length (List.head?_eq_none_iff.mp hnone)
  rw [stagedPages, List.length_take, List.length_drop, List.length_reverse, List.length_nil]
    at hlength
  have hpos := s.pagesPerBlock_pos
  rw [Nat.succ_mul] at hroom
  omega

theorem blockOfPage_inj {q : Nat} (hp : p < 2 ^ 32) (hq : q < 2 ^ 32)
    (h : blockOfPage p = blockOfPage q) : p = q := by
  have hval : (UInt32.ofNat p).toNat = (UInt32.ofNat q).toNat :=
    congrArg (fun block : BlockId => block.val.toNat) h
  rw [UInt32.toNat_ofNat_of_lt' hp, UInt32.toNat_ofNat_of_lt' hq] at hval
  exact hval

end Pages

/-! ## The loop over the payloads -/

section Loop

variable {s} {s' : PromotionState} {done payloads : List (BlockFingerprint × List UInt8)}
  {pool pool' : TokenKVPool} {recorded : Assoc BlockId (List Nat)}
  {entry : BlockFingerprint × List UInt8} {att refs : Nat → Nat}
  {prepared prepared' : Assoc BlockFingerprint BlockId}

theorem pagesPerBlock_of_layout (h : pool.layout = s.pagedKvPool.layout)
    (recorded : Assoc BlockId (List Nat)) :
    ({ s with pagedKvPool := pool, blockToPages := recorded } : PromotionState).pagesPerBlock =
      s.pagesPerBlock := by
  unfold pagesPerBlock pagesFor
  rw [(layout_eq h).2.2.2]

theorem copyPagesFromHost_of_layout (h : pool.layout = s.pagedKvPool.layout)
    (recorded : Assoc BlockId (List Nat)) (pages : List Nat) (payloadLen : Nat) :
    ({ s with pagedKvPool := pool, blockToPages := recorded } : PromotionState).copyPagesFromHost
      pages payloadLen = s.copyPagesFromHost pages payloadLen := by
  unfold copyPagesFromHost
  rw [(layout_eq h).2.2.2]

theorem installing_start (hs : s.Consistent) :
    s.Installing [] s.pagedKvPool s.blockToPages where
  room := by
    show 0 * s.pagesPerBlock ≤ _
    omega
  left := by
    show s.pagedKvPool.freePages.reverse =
      s.pagedKvPool.freePages.reverse.drop (0 * s.pagesPerBlock)
    rw [Nat.zero_mul, List.drop_zero]
  balanced := hs.pool
  layout := rfl
  kept := fun _ _ h => by cases h
  only block pages hlookup p hp hfree := absurd hfree (hs.unrecorded block pages hlookup p hp)

theorem Installing.length_free (h : s.Installing done pool recorded) :
    pool.freePages.length =
      s.pagedKvPool.freePages.length - done.length * s.pagesPerBlock := by
  have hlength := congrArg List.length h.left
  simpa using hlength

/-- The pages of one payload are taken off the free stack. -/
theorem Installing.advance (h : s.Installing done pool recorded)
    (entry : BlockFingerprint × List UInt8)
    (hroom : s.pagesPerBlock ≤ pool.freePages.length)
    (hleft : pool'.freePages.reverse = pool.freePages.reverse.drop s.pagesPerBlock) :
    (done ++ [entry]).length * s.pagesPerBlock ≤ s.pagedKvPool.freePages.length ∧
      pool'.freePages.reverse =
        s.pagedKvPool.freePages.reverse.drop ((done ++ [entry]).length * s.pagesPerBlock) := by
  have hlength := h.length_free
  have hfits := h.room
  rw [List.length_append, List.length_singleton, Nat.succ_mul]
  refine ⟨by omega, ?_⟩
  rw [hleft, h.left, List.drop_drop]

/-- A payload whose copy fails: its pages are taken, and no record of them is made. -/
theorem Installing.lost (h : s.Installing done pool recorded)
    (hroom : s.pagesPerBlock ≤ pool.freePages.length)
    (hleft : pool'.freePages.reverse = pool.freePages.reverse.drop s.pagesPerBlock)
    (hbalanced : pool'.Balanced att refs) (hlayout : pool'.layout = pool.layout)
    (hcopy : s.copyPagesFromHost (s.stagedPages done.length) entry.2.length ≠ .ok ()) :
    s.Installing (done ++ [entry]) pool' recorded := by
  have hnext := h.advance entry hroom hleft
  exact {
    room := hnext.1
    left := hnext.2
    balanced := ⟨_, _, hbalanced⟩
    layout := hlayout.trans h.layout
    kept := by
      intro j e hj hok
      rcases getElem?_snoc hj with hold | ⟨rfl, rfl⟩
      · exact h.kept j e hold hok
      · exact absurd hok hcopy
    only := by
      intro block pages hlookup p hp hfree
      obtain ⟨j, e, hj, hok, hmem⟩ := h.only block pages hlookup p hp hfree
      refine ⟨j, e, ?_, hok, hmem⟩
      rw [List.getElem?_append_left (List.getElem?_eq_some_iff.mp hj).1]
      exact hj }

/-- A payload whose copy succeeds is recorded under its first page. -/
theorem Installing.installed (hs : s.Consistent) (h : s.Installing done pool recorded)
    (hroom : s.pagesPerBlock ≤ pool.freePages.length)
    (hleft : pool'.freePages.reverse = pool.freePages.reverse.drop s.pagesPerBlock)
    (hbalanced : pool'.Balanced att refs) (hlayout : pool'.layout = pool.layout)
    (hcopy : s.copyPagesFromHost (s.stagedPages done.length) entry.2.length = .ok ())
    {page : Nat} (hpage : (s.stagedPages done.length).head? = some page) :
    s.Installing (done ++ [entry]) pool'
      (recorded.insert (blockOfPage page) (s.stagedPages done.length)) := by
  have hnext := h.advance entry hroom hleft
  obtain ⟨att₀, refs₀, hpool⟩ := hs.pool
  have hpages := hs.pages
  have hlt : ∀ {j q}, (s.stagedPages j).head? = some q → q < 2 ^ 32 := by
    intro j q hq
    have hfree := mem_free_of_mem_stagedPages (List.mem_of_mem_head? hq)
    exact Nat.lt_of_lt_of_le ((hpool.free q).mp hfree).1 hpages
  exact {
    room := hnext.1
    left := hnext.2
    balanced := ⟨_, _, hbalanced⟩
    layout := hlayout.trans h.layout
    kept := by
      intro j e hj hok
      rcases getElem?_snoc hj with hold | ⟨rfl, rfl⟩
      · obtain ⟨q, hq, hlookup⟩ := h.kept j e hold hok
        refine ⟨q, hq, ?_⟩
        -- another payload has another first page
        have hne : blockOfPage q ≠ blockOfPage page := by
          intro heq
          have hsame := blockOfPage_inj (hlt hq) (hlt hpage) heq
          have hj := stagedPages_disjoint hpool.nodup (List.mem_of_mem_head? hq)
            (hsame ▸ List.mem_of_mem_head? hpage)
          have hbound := (List.getElem?_eq_some_iff.mp hold).1
          omega
        rw [Assoc.lookup_insert_eq, if_neg hne]
        exact hlookup
      · exact ⟨page, hpage, AList.lookup_insert _⟩
    only := by
      intro block pages hlookup p hp hfree
      rw [Assoc.lookup_insert_eq] at hlookup
      split at hlookup
      · cases hlookup
        exact ⟨done.length, entry, List.getElem?_concat_length, hcopy, hp⟩
      · obtain ⟨j, e, hj, hok, hmem⟩ := h.only block pages hlookup p hp hfree
        refine ⟨j, e, ?_, hok, hmem⟩
        rw [List.getElem?_append_left (List.getElem?_eq_some_iff.mp hj).1]
        exact hj }

/-- The loop reads payloads until the pages run out. -/
theorem installPayloads_spec (hs : s.Consistent) (h : s.Installing done pool recorded)
    (hr : installPayloads payloads { s with pagedKvPool := pool, blockToPages := recorded }
      prepared = some (prepared', s')) :
    ∃ taken, taken <+: payloads ∧ s.Installing (done ++ taken) s'.pagedKvPool s'.blockToPages ∧
      (taken = payloads ∨
        s.pagedKvPool.freePages.length < ((done ++ taken).length + 1) * s.pagesPerBlock) := by
  induction payloads generalizing done pool recorded prepared with
  | nil =>
    cases hr
    exact ⟨[], List.nil_prefix, (List.append_nil done).symm ▸ h, .inl rfl⟩
  | cons entry payloads ih =>
    obtain ⟨att, refs, hbalanced⟩ := h.balanced
    have hlength := h.length_free
    have hfits := h.room
    unfold installPayloads at hr
    rw [pagesPerBlock_of_layout h.layout] at hr
    dsimp only at hr
    rcases allocDetachedPages_takes hbalanced s.pagesPerBlock_pos with
      ⟨hfull, err, halloc⟩ | ⟨hroom, pool', halloc, hleft, hbalanced', hlayout⟩
    · rw [halloc] at hr
      cases hr
      refine ⟨[], List.nil_prefix, (List.append_nil done).symm ▸ h, .inr ?_⟩
      rw [List.append_nil, Nat.succ_mul]
      omega
    · have hnext : pool.freePages.reverse.take s.pagesPerBlock = s.stagedPages done.length := by
        rw [h.left]
        rfl
      rw [halloc, hnext] at hr
      dsimp only at hr
      rw [copyPagesFromHost_of_layout (hlayout.trans h.layout)] at hr
      have hgo : ∀ {recorded' prepared₀}, s.Installing (done ++ [entry]) pool' recorded' →
          installPayloads payloads { s with pagedKvPool := pool', blockToPages := recorded' }
            prepared₀ = some (prepared', s') →
          ∃ taken, taken <+: entry :: payloads ∧
            s.Installing (done ++ taken) s'.pagedKvPool s'.blockToPages ∧
            (taken = entry :: payloads ∨
              s.pagedKvPool.freePages.length <
                ((done ++ taken).length + 1) * s.pagesPerBlock) := by
        intro recorded' prepared₀ h' hrest
        obtain ⟨taken, hprefix, hfinal, hstop⟩ := ih h' hrest
        rw [List.append_assoc, List.singleton_append] at hfinal hstop
        exact ⟨entry :: taken, List.cons_prefix_cons.mpr ⟨rfl, hprefix⟩, hfinal,
          hstop.imp_left (congrArg _)⟩
      cases hcopy : s.copyPagesFromHost (s.stagedPages done.length) entry.2.length with
      | error err =>
        rw [hcopy] at hr
        exact hgo (h.lost hroom hleft hbalanced' hlayout
          (by rw [hcopy]; exact fun h => by cases h)) hr
      | ok =>
        rw [hcopy] at hr
        obtain ⟨page, hpage⟩ := exists_head_stagedPages (s := s) (j := done.length) (by
          rw [Nat.succ_mul]
          omega)
        rw [hpage] at hr
        exact hgo (h.installed hs hroom hleft hbalanced' hlayout hcopy hpage) hr

/-- Every page that a restoration takes is recorded if and only if no copy to pages fails. -/
theorem installRestoredKv_recorded_iff (hs : s.Consistent)
    (hr : s.installRestoredKv payloads = some (prepared, s')) :
    (∀ p ∈ s.pagedKvPool.freePages, p ∉ s'.pagedKvPool.freePages → s'.Recorded p) ↔
      s.CopiesAll payloads := by
  obtain ⟨att, refs, hpool⟩ := hs.pool
  obtain ⟨taken, ⟨rest, hrest⟩, h, hstop⟩ := installPayloads_spec hs (installing_start hs) hr
  rw [List.nil_append] at h hstop
  have hgone : ∀ p, p ∉ s'.pagedKvPool.freePages ↔
      p ∉ s.pagedKvPool.freePages.reverse.drop (taken.length * s.pagesPerBlock) := fun p => by
    rw [← h.left, List.mem_reverse]
  have hfits := h.room
  constructor
  · intro hall k entry hk hroom
    -- the loop has come to this payload
    have hlt : k < taken.length := by
      rcases hstop with rfl | hstop
      · exact (List.getElem?_eq_some_iff.mp hk).1
      · by_contra hge
        have hle : (taken.length + 1) * s.pagesPerBlock ≤ (k + 1) * s.pagesPerBlock :=
          Nat.mul_le_mul_right _ (by omega)
        omega
    obtain ⟨page, hpage⟩ := exists_head_stagedPages hroom
    have hmem := List.mem_of_mem_head? hpage
    obtain ⟨block, pages, hlookup, hp⟩ := hall page (mem_free_of_mem_stagedPages hmem)
      ((hgone page).mpr (stagedPages_taken hpool.nodup hlt hmem))
    obtain ⟨j, e, hj, hok, hown⟩ :=
      h.only block pages hlookup page hp (mem_free_of_mem_stagedPages hmem)
    obtain rfl := stagedPages_disjoint hpool.nodup hown hmem
    rw [← hrest, List.getElem?_append_left hlt, hj, Option.some.injEq] at hk
    rw [← hk]
    exact hok
  · intro hall p hfree hleft
    obtain ⟨j, hj, hmem⟩ := exists_stagedPages hfree ((hgone p).mp hleft)
    have hget : payloads[j]? = some taken[j] := by
      rw [← hrest, List.getElem?_append_left hj, List.getElem?_eq_getElem hj]
    have hle : (j + 1) * s.pagesPerBlock ≤ taken.length * s.pagesPerBlock :=
      Nat.mul_le_mul_right _ hj
    obtain ⟨page, -, hlookup⟩ := h.kept j taken[j] (List.getElem?_eq_getElem hj)
      (hall j taken[j] hget (by omega))
    exact ⟨blockOfPage page, s.stagedPages j, hlookup, hmem⟩

end Loop

end Arle.Scheduler.Cuda.PromotionState
