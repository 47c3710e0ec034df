import Mathlib
import Arle.Lib.Run
import Arle.CudaKernels.PagedKvOwned

/-!
# Runs of the page pool

The pool calls in any order. Two contracts are considered: the one under which every page
is accounted for (`pages_conserved`), and the one under which an append writes only into
pages of its own (`appends_isolated`).
-/

namespace Arle.CudaKernels.TokenKVPool

/-! ## Steps -/

/-- A pool with the retains that are not released yet, one entry for each. -/
structure Holding where
  pool : TokenKVPool
  retained : List Nat

/-- The pool calls. `append` is how the scheduler appends, and `copied` says how the device copy
ends, if there is one. -/
inductive PoolOp
  | allocTokens (slot count : Nat)
  | append (slot count : Nat) (copied : Bool)
  | allocDetachedPages (count : Nat)
  | attachPages (slot : Nat) (pages : List Nat) (tokenCount : Nat)
  | cowTailPageForAppend (slot : Nat) (copied : Bool)
  | truncateSlot (slot newLen : Nat)
  | freeSlot (slot : Nat)
  | retainPages (pages : List Nat)
  | releasePages (pages : List Nat)

/-- A call that returns, successful or not. Detached pages are retained by whoever asked for
them. -/
def PoolStep (s : Holding) (op : PoolOp) (s' : Holding) : Prop :=
  match op with
  | .allocTokens slot count => ∃ result,
    s.pool.allocTokens slot count = some (result, s'.pool) ∧ s'.retained = s.retained
  | .append slot count copied => ∃ result,
    s.pool.tryAllocPoolTokensOnceCopying copied slot count = some (result, s'.pool) ∧
      s'.retained = s.retained
  | .allocDetachedPages count => ∃ result,
    s.pool.allocDetachedPages count = some (result, s'.pool) ∧
      s'.retained = s.retained ++ handedOut result
  | .attachPages slot pages tokenCount => ∃ result,
    s.pool.attachPages slot pages tokenCount = some (result, s'.pool) ∧ s'.retained = s.retained
  | .cowTailPageForAppend slot copied => ∃ result,
    s.pool.cowTailPageCopying copied slot = some (result, s'.pool) ∧ s'.retained = s.retained
  | .truncateSlot slot newLen => ∃ result,
    s.pool.truncateSlot slot newLen = some (result, s'.pool) ∧ s'.retained = s.retained
  | .freeSlot slot => s.pool.freeSlot slot = some s'.pool ∧ s'.retained = s.retained
  | .retainPages pages =>
    TokenKVPool.retainPages pages s.pool = some s'.pool ∧ s'.retained = s.retained ++ pages
  | .releasePages pages => ∃ newlyFreed,
    s.pool.releasePages pages = some (newlyFreed, s'.pool) ∧ s'.retained = s.retained.diff pages

/-- A new pool. -/
def Created (maxTotalPages pageSize : Nat) (s : Holding) : Prop :=
  ∃ numSlots h, s = ⟨new maxTotalPages numSlots pageSize h, []⟩

/-- Pages are retained while they are off the free list, and each retain is released at most
once. -/
def Released (s : Holding) (op : PoolOp) : Prop :=
  match op with
  | .retainPages pages => ∀ p ∈ pages, p ∉ s.pool.freePages
  | .releasePages pages => ∀ p, pages.count p ≤ s.retained.count p
  | _ => True

/-- Only live pages are attached, to an empty slot. -/
def AttachesLive (s : Holding) (op : PoolOp) : Prop :=
  match op with
  | .attachPages slot pages _ =>
    s.pool.pageIndices[slot]? = some [] ∧ ∀ p ∈ pages, s.pool.isLive p = true
  | _ => True

/-- The device copies succeed. -/
def Copies (op : PoolOp) : Prop :=
  match op with
  | .append _ _ copied | .cowTailPageForAppend _ copied => copied = true
  | _ => True

/-- A slot is attached with as many pages as its tokens fill, and every append goes through
the copy on write. -/
def AppendsByCow (s : Holding) (op : PoolOp) : Prop :=
  match op with
  | .attachPages _ pages tokenCount => tokenCount ≤ pages.length * s.pool.pageSize ∧
    pages.length * s.pool.pageSize < tokenCount + s.pool.pageSize
  | .allocTokens _ _ => False
  | _ => True

/-- No counter would exceed the largest `u32`. -/
def Unsaturated (s : Holding) (op : PoolOp) : Prop :=
  match op with
  | .attachPages _ pages _ => ∀ p count, s.pool.pageAttachCount[p]? = some count →
    count + pages.count p ≤ Word.maxVal 32
  | .retainPages pages => ∀ p count, s.pool.pageRefCount[p]? = some count →
    count + pages.count p ≤ Word.maxVal 32
  | _ => True

/-- The calls for which the pages are to be conserved. -/
def Accounted (s : Holding) (op : PoolOp) : Prop :=
  Released s op ∧ AttachesLive s op ∧ Copies op

/-- The calls under which the pages are conserved. -/
def AccountedStep : Holding → PoolOp → Holding → Prop :=
  guarded (fun s op => Accounted s op ∧ Unsaturated s op) PoolStep

/-- The calls under which the appends are isolated; a device copy may fail. -/
def IsolatedStep : Holding → PoolOp → Holding → Prop :=
  guarded (fun s op => (Released s op ∧ AppendsByCow s op) ∧ Unsaturated s op) PoolStep

/-! ## Every call keeps the owners counted -/

section Calls

variable {pool pool' : TokenKVPool} {leak : Nat → Nat} {retained pages : List Nat}
  {slot count : Nat}

theorem owned_new (maxTotalPages numSlots pageSize : Nat) (h : 0 < pageSize) :
    (new maxTotalPages numSlots pageSize h).Owned (fun _ => 0) [] := by
  have hentries : (new maxTotalPages numSlots pageSize h).entries = [] := by
    rw [entries, List.flatten_eq_nil_iff]
    exact fun table htable => (List.mem_replicate.mp htable).2
  have hzero : ∀ p, (List.replicate maxTotalPages 0)[p]? =
      if p < maxTotalPages then some 0 else none := fun p => List.getElem?_replicate
  refine ⟨⟨?_, hzero, ?_, fun p => ?_⟩, ?_, fun p hp => absurd hp List.not_mem_nil, ?_⟩
  · rw [hentries]
    exact hzero
  · exact List.nodup_reverse.mpr List.nodup_range
  · rw [hentries]
    exact List.mem_reverse.trans (List.mem_range.trans ⟨fun hp => ⟨hp, rfl, rfl⟩, And.left⟩)
  · rw [hentries]
    exact fun p hp => absurd hp List.not_mem_nil
  · rw [hentries]
    exact fun p hp => Nat.zero_le _

/-- The pages of a call that returns are pages of the pool. -/
theorem retainPages_lt (h : TokenKVPool.retainPages pages pool = some pool') :
    ∀ p ∈ pages, p < pool.pageRefCount.length := by
  induction pages generalizing pool with
  | nil => exact fun p hp => absurd hp List.not_mem_nil
  | cons page pages ih =>
    rw [TokenKVPool.retainPages] at h
    obtain ⟨refs, hrefs, h⟩ := Option.bind_eq_some_iff.mp h
    intro p hp
    rcases List.mem_cons.mp hp with rfl | hp
    · exact (List.getElem?_eq_some_iff.mp hrefs).1
    · have := ih h p hp
      rwa [setRefs, List.length_set] at this

theorem retainPages_owned (h : pool.Owned leak retained)
    (hlive : ∀ p ∈ pages, p ∉ pool.freePages)
    (hfits : ∀ p count, pool.pageRefCount[p]? = some count →
      count + pages.count p ≤ Word.maxVal 32)
    (hcall : TokenKVPool.retainPages pages pool = some pool') :
    pool'.Owned leak (retained ++ pages) ∧ pool'.layout = pool.layout := by
  have hlt : ∀ p ∈ pages, p < pool.maxTotalPages := fun p hp => by
    have hread := h.balanced.retained p
    rw [List.getElem?_eq_getElem (retainPages_lt hcall p hp)] at hread
    by_contra hge
    rw [if_neg hge] at hread
    cases hread
  obtain ⟨pool₁, hcall', hbalanced, hlayout⟩ := retainPages_spec h.balanced
    (fun p hp => ⟨hlt p hp, hlive p hp⟩) fun p => by
      by_cases hp : p < pool.maxTotalPages
      · exact hfits p _ (h.balanced.retained_eq hp)
      · rw [plus, List.count_eq_zero_of_not_mem fun hin => hp (h.retained_lt p hin),
          List.count_eq_zero_of_not_mem fun hin => hp (hlt p hin)]
        exact Nat.zero_le _
  rw [hcall'] at hcall
  cases hcall
  refine ⟨h.of_layout hlayout (plus_append retained pages ▸ hbalanced) (fun p hp => ?_) h.fits,
    hlayout⟩
  exact (List.mem_append.mp hp).elim (h.retained_lt p) (hlt p)

theorem releasePages_owned (h : pool.Owned leak retained) {newlyFreed : List Nat}
    (hcount : ∀ p, pages.count p ≤ retained.count p)
    (hcall : pool.releasePages pages = some (newlyFreed, pool')) :
    pool'.Owned leak (retained.diff pages) ∧ pool'.layout = pool.layout := by
  have hmem : ∀ p ∈ pages, p ∈ retained := fun p hp =>
    List.count_pos_iff.mp (Nat.lt_of_lt_of_le (List.count_pos_iff.mpr hp) (hcount p))
  obtain ⟨newlyFreed₁, pool₁, hcall', hbalanced, hlayout⟩ := releaseLoop_spec
    h.balanced [] (fun p hp => h.retained_lt p (hmem p hp))
    (fun p => by
      rw [plus, Nat.zero_add]
      exact hcount p)
  rw [releasePages, hcall'] at hcall
  cases hcall
  have hdiff : minus (plus (fun _ => 0) retained) pages =
      plus (fun _ => 0) (retained.diff pages) := by
    funext p
    simp only [minus, plus, List.count_diff, Nat.zero_add]
  exact ⟨h.of_layout hlayout (hdiff ▸ hbalanced)
    (fun p hp => h.retained_lt p (List.diff_subset _ _ hp)) h.fits, hlayout⟩

/-- An append writes into the private tail of the slot and into free pages. A device copy that
fails leaves the page that was taken for it counted. -/
theorem tryAllocPoolTokensOnceCopying_spec (h : pool.Owned leak retained) {copied : Bool}
    {result : Except CowError (List Nat)}
    (hcall : pool.tryAllocPoolTokensOnceCopying copied slot count = some (result, pool')) :
    ∃ leak' pool₁, pool₁.Owned leak' retained ∧ (copied = true → leak' = leak) ∧
      (pool₁.layout = pool.layout ∨ ∃ table old new seqLen,
        pool.pageIndices[slot]? = some (table ++ [old]) ∧ pool.seqLens[slot]? = some seqLen ∧
        pool₁.layout = (pool.setSlot slot (table ++ [new]) seqLen).layout) ∧
      ((pool' = pool₁ ∧ (count = 0 ∨ ∃ err, result = .error err)) ∨
        (0 < count ∧ pool₁.TailPrivate leak' retained slot ∧ ∃ allocated,
          pool₁.allocTokens slot count = some (allocated, pool') ∧
          result = allocated.mapError CowError.pool)) := by
  rw [tryAllocPoolTokensOnceCopying] at hcall
  split at hcall
  · rename_i hcount
    cases hcow : pool.cowTailPageCopying copied slot with
    | none => simp [hcow] at hcall
    | some cow =>
      obtain ⟨cowResult, pool₁⟩ := cow
      obtain ⟨leak', howned, hleak, hlayout, htail⟩ := cowTailPageCopying_spec h hcow
      cases cowResult with
      | error err =>
        simp only [hcow] at hcall
        cases hcall
        exact ⟨leak', _, howned, hleak, hlayout, Or.inl ⟨rfl, Or.inr ⟨_, rfl⟩⟩⟩
      | ok detached =>
        simp only [hcow] at hcall
        obtain ⟨⟨allocated, pool₂⟩, halloc, heq⟩ := Option.map_eq_some_iff.mp hcall
        cases heq
        exact ⟨leak', pool₁, howned, hleak, hlayout,
          Or.inr ⟨hcount, htail detached rfl, allocated, halloc, rfl⟩⟩
  · rename_i hcount
    have hzero : count = 0 := by omega
    simp only [allocTokens, if_pos hzero, Option.map_some] at hcall
    cases hcall
    exact ⟨leak, pool, h, fun _ => rfl, Or.inl rfl, Or.inl ⟨rfl, Or.inl hzero⟩⟩

end Calls

/-- Every call keeps the owners counted; only `attach_pages` of a page that is not live and a failed
device copy leak. -/
theorem owned_step {s s' : Holding} {op : PoolOp} {leak : Nat → Nat}
    (h : s.pool.Owned leak s.retained) (hreleased : Released s op)
    (hunsaturated : Unsaturated s op) (hstep : PoolStep s op s') : ∃ leak',
    s'.pool.Owned leak' s'.retained ∧ (AttachesLive s op → Copies op → leak' = leak) := by
  cases op with
  | allocTokens slot count =>
    obtain ⟨result, hcall, hretained⟩ := hstep
    exact ⟨leak, hretained.symm ▸ (allocTokens_spec h hcall).1, fun _ _ => rfl⟩
  | append slot count copied =>
    obtain ⟨result, hcall, hretained⟩ := hstep
    obtain ⟨leak', pool₁, howned, hleak, -, hcase⟩ := tryAllocPoolTokensOnceCopying_spec h hcall
    refine ⟨leak', hretained.symm ▸ ?_, fun _ => hleak⟩
    rcases hcase with ⟨heq, -⟩ | ⟨-, -, allocated, halloc, -⟩
    · exact heq.symm ▸ howned
    · exact (allocTokens_spec howned halloc).1
  | allocDetachedPages count =>
    obtain ⟨result, hcall, hretained⟩ := hstep
    exact ⟨leak, hretained.symm ▸ (allocDetachedPages_spec h hcall).2, fun _ _ => rfl⟩
  | attachPages slot pages tokenCount =>
    obtain ⟨result, hcall, hretained⟩ := hstep
    obtain ⟨⟨leak', howned, hleak⟩, -⟩ := attachPages_spec h
      (fun p hp => hunsaturated p _ (h.balanced.attached_eq hp)) hcall
    exact ⟨leak', hretained.symm ▸ howned, fun hlive _ => hleak hlive.2⟩
  | cowTailPageForAppend slot copied =>
    obtain ⟨result, hcall, hretained⟩ := hstep
    obtain ⟨leak', howned, hleak, -⟩ := cowTailPageCopying_spec h hcall
    exact ⟨leak', hretained.symm ▸ howned, fun _ => hleak⟩
  | truncateSlot slot newLen =>
    obtain ⟨result, hcall, hretained⟩ := hstep
    exact ⟨leak, hretained.symm ▸ (truncateSlot_spec h hcall).1, fun _ _ => rfl⟩
  | freeSlot slot =>
    obtain ⟨hcall, hretained⟩ := hstep
    exact ⟨leak, hretained.symm ▸ (freeSlot_spec h hcall).1, fun _ _ => rfl⟩
  | retainPages pages =>
    obtain ⟨hcall, hretained⟩ := hstep
    exact ⟨leak, hretained.symm ▸ (retainPages_owned h hreleased hunsaturated hcall).1,
      fun _ _ => rfl⟩
  | releasePages pages =>
    obtain ⟨newlyFreed, hcall, hretained⟩ := hstep
    exact ⟨leak, hretained.symm ▸ (releasePages_owned h hreleased hcall).1, fun _ _ => rfl⟩

/-! ## Conservation -/

/-- The counters count the owners, and a page without owners is on the free list, once. -/
def Conserved (s : Holding) : Prop :=
  (∀ p < s.pool.maxTotalPages,
    s.pool.pageAttachCount[p]? = some (s.pool.entries.count p) ∧
    s.pool.pageRefCount[p]? = some (s.retained.count p) ∧
    s.pool.freePages.count p =
      if s.pool.entries.count p = 0 ∧ s.retained.count p = 0 then 1 else 0) ∧
  ∀ p ∈ s.pool.freePages ++ s.pool.entries ++ s.retained, p < s.pool.maxTotalPages

theorem conserved_of_owned {s : Holding} (h : s.pool.Owned (fun _ => 0) s.retained) :
    Conserved s := by
  have hplus : ∀ (L : List Nat) (p : Nat), plus (fun _ => 0) L p = L.count p := fun L p =>
    Nat.zero_add _
  refine ⟨fun p hp => ⟨?_, ?_, ?_⟩, fun p hp => ?_⟩
  · rw [h.balanced.attached_eq hp, hplus]
  · rw [h.balanced.retained_eq hp, hplus]
  · have hfree := h.balanced.free p
    rw [hplus, hplus] at hfree
    split
    · rename_i hzero
      exact List.count_eq_one_of_mem h.balanced.nodup (hfree.mpr ⟨hp, hzero⟩)
    · rename_i hzero
      exact List.count_eq_zero_of_not_mem fun hin => hzero (hfree.mp hin).2
  · rcases List.mem_append.mp hp with hp | hp
    · rcases List.mem_append.mp hp with hp | hp
      · exact ((h.balanced.free p).mp hp).1
      · exact h.entries_lt p hp
    · exact h.retained_lt p hp

/-- In every run in which no counter saturates the pages of the pool are conserved. -/
theorem pages_conserved {maxTotalPages pageSize : Nat} {s : Holding}
    (h : Reachable (Created maxTotalPages pageSize) AccountedStep s) : Conserved s := by
  refine conserved_of_owned (h.invariant (P := fun s => s.pool.Owned (fun _ => 0) s.retained) ?_ ?_)
  · rintro s ⟨numSlots, hsize, rfl⟩
    exact owned_new maxTotalPages numSlots pageSize hsize
  · rintro s op s' howned ⟨⟨⟨hreleased, hlive, hcopies⟩, hunsaturated⟩, hstep⟩
    obtain ⟨leak', howned', hleak⟩ := owned_step howned hreleased hunsaturated hstep
    exact hleak hlive hcopies ▸ howned'

/-- A page that outlives its slot because it is retained. -/
theorem pages_conserved_limbo : ∃ s : Holding, Reachable (Created 2 1) AccountedStep s ∧
    s.pool.freePages = [1] ∧ s.pool.entries = [] ∧ s.retained = [0] ∧ Conserved s := by
  have h₁ : Reachable (Created 2 1) AccountedStep
      ⟨⟨[1], [[0]], [1], [0], [1, 0], [0, 0], 2, 1, Nat.one_pos⟩, []⟩ :=
    Reachable.next (Reachable.start ⟨1, Nat.one_pos, rfl⟩) (a := .allocTokens 0 1)
      ⟨⟨⟨trivial, trivial, trivial⟩, trivial⟩, .ok [0], rfl, rfl⟩
  have hfits : ∀ p count, [0, 0][p]? = some count → count + [0].count p ≤ Word.maxVal 32 := by
    intro p count hread
    have hcount : count = 0 := by simpa using List.mem_of_getElem? hread
    have hle : [0].count p ≤ [0].length := List.count_le_length
    rw [hcount, Nat.zero_add]
    exact Nat.le_trans hle (by decide)
  have h₂ : Reachable (Created 2 1) AccountedStep
      ⟨⟨[1], [[0]], [1], [0], [1, 0], [1, 0], 2, 1, Nat.one_pos⟩, [0]⟩ :=
    Reachable.next h₁ (a := .retainPages [0])
      ⟨⟨⟨show ∀ p ∈ [0], p ∉ [1] by decide, trivial, trivial⟩, hfits⟩, rfl, rfl⟩
  have h₃ : Reachable (Created 2 1) AccountedStep
      ⟨⟨[1], [[]], [0], [1], [0, 0], [1, 0], 2, 1, Nat.one_pos⟩, [0]⟩ :=
    Reachable.next h₂ (a := .freeSlot 0)
      ⟨⟨⟨trivial, trivial, trivial⟩, trivial⟩, rfl, rfl⟩
  exact ⟨_, h₃, rfl, rfl, rfl, pages_conserved h₃⟩

/-- Retaining one page many times at once. -/
theorem retainPages_replicate {pool : TokenKVPool} {page refs : Nat} (n : Nat)
    (hrefs : pool.pageRefCount[page]? = some refs) (hle : refs ≤ Word.maxVal 32) :
    TokenKVPool.retainPages (List.replicate n page) pool =
      some (pool.setRefs page (min (refs + n) (Word.maxVal 32))) := by
  induction n generalizing pool refs with
  | zero =>
    rw [Nat.add_zero, Nat.min_eq_left hle]
    obtain ⟨hlt, rfl⟩ := List.getElem?_eq_some_iff.mp hrefs
    simp [TokenKVPool.retainPages, setRefs]
  | succ n ih =>
    have hlt := (List.getElem?_eq_some_iff.mp hrefs).1
    have hset : (pool.setRefs page (Word.saturatingAdd 32 refs 1)).pageRefCount[page]? =
        some (Word.saturatingAdd 32 refs 1) := List.getElem?_set_self hlt
    rw [List.replicate_succ, TokenKVPool.retainPages, hrefs, Option.bind_eq_bind, Option.bind_some,
      ih hset (Nat.min_le_right _ _)]
    simp only [setRefs, List.set_set, Word.saturatingAdd]
    congr 3
    omega

/-- One page is retained `2 ^ 32` times: its counter stops one below. -/
theorem pages_conserved_fails : ∃ s : Holding,
    Reachable (Created 1 1) (guarded Accounted PoolStep) s ∧ ¬ Conserved s := by
  have h₁ : Reachable (Created 1 1) (guarded Accounted PoolStep)
      ⟨⟨[], [[0]], [1], [0], [1], [0], 1, 1, Nat.one_pos⟩, []⟩ :=
    Reachable.next (Reachable.start ⟨1, Nat.one_pos, rfl⟩) (a := .allocTokens 0 1)
      ⟨⟨trivial, trivial, trivial⟩, .ok [0], rfl, rfl⟩
  have h₂ : Reachable (Created 1 1) (guarded Accounted PoolStep)
      ⟨⟨[], [[0]], [1], [0], [1], [min (0 + 2 ^ 32) (Word.maxVal 32)], 1, 1, Nat.one_pos⟩,
        [] ++ List.replicate (2 ^ 32) 0⟩ :=
    Reachable.next h₁ (a := .retainPages (List.replicate (2 ^ 32) 0))
      ⟨⟨fun p _ => List.not_mem_nil, trivial, trivial⟩,
        retainPages_replicate (2 ^ 32) rfl (Nat.zero_le _), rfl⟩
  refine ⟨_, h₂, fun hconserved => ?_⟩
  have hrefs : some (min (0 + 2 ^ 32) (Word.maxVal 32)) =
      some (([] ++ List.replicate (2 ^ 32) 0).count 0) := (hconserved.1 0 Nat.one_pos).2.1
  rw [List.nil_append, List.count_replicate_self] at hrefs
  exact absurd (Option.some.inj hrefs) (by decide)

/-! ## Isolation -/

section Appends

variable {pool pool' : TokenKVPool} {leak : Nat → Nat} {retained : List Nat} {slot count : Nat}

theorem Exact.of_setSlot (h : pool.Exact) {new : List Nat} {n : Nat}
    (hlayout : pool'.layout = (pool.setSlot slot new n).layout)
    (hnew : new.length = pool.pagesFor n) : pool'.Exact :=
  (h.setSlot hnew).layout hlayout

theorem exact_cow (h : pool.Exact) (hlayout : pool'.layout = pool.layout ∨
    ∃ table old new seqLen, pool.pageIndices[slot]? = some (table ++ [old]) ∧
      pool.seqLens[slot]? = some seqLen ∧
      pool'.layout = (pool.setSlot slot (table ++ [new]) seqLen).layout) : pool'.Exact := by
  rcases hlayout with hlayout | ⟨table, old, new, seqLen, htable, hlen, hlayout⟩
  · exact h.layout hlayout
  · refine h.of_setSlot hlayout ?_
    have := h slot _ seqLen htable hlen
    rwa [List.length_append, List.length_singleton] at this ⊢

theorem exact_alloc (h : pool.Owned leak retained) (hexact : pool.Exact)
    {result : Except KvPoolError (List Nat)}
    (hcall : pool.allocTokens slot count = some (result, pool')) : pool'.Exact := by
  rcases (allocTokens_spec h hcall).2 with
    ⟨rfl, -⟩ | ⟨table, seqLen, newPages, htable, hlen, hnew, hlayout, -⟩
  · exact hexact
  · refine hexact.of_setSlot hlayout ?_
    rw [List.length_append, hexact slot table seqLen htable hlen, hnew, pagesFor_append]

/-- Every call keeps the tables as long as their tokens need. -/
theorem exact_step {s s' : Holding} {op : PoolOp} (h : s.pool.Owned leak s.retained)
    (hexact : s.pool.Exact) (hreleased : Released s op) (hunsaturated : Unsaturated s op)
    (hcow : AppendsByCow s op) (hstep : PoolStep s op s') : s'.pool.Exact := by
  cases op with
  | allocTokens slot count => exact hcow.elim
  | append slot count copied =>
    obtain ⟨result, hcall, -⟩ := hstep
    obtain ⟨leak', pool₁, howned, -, hlayout, hcase⟩ :=
      tryAllocPoolTokensOnceCopying_spec h hcall
    have hexact₁ := exact_cow hexact hlayout
    rcases hcase with ⟨heq, -⟩ | ⟨-, -, allocated, halloc, -⟩
    · exact heq.symm ▸ hexact₁
    · exact exact_alloc howned hexact₁ halloc
  | allocDetachedPages count =>
    obtain ⟨result, hcall, -⟩ := hstep
    exact hexact.layout (allocDetachedPages_spec h hcall).1
  | attachPages slot pages tokenCount =>
    obtain ⟨result, hcall, -⟩ := hstep
    rcases (attachPages_spec h
      (fun p hp => hunsaturated p _ (h.balanced.attached_eq hp)) hcall).2 with hlayout | hlayout
    · exact hexact.layout hlayout
    · exact hexact.of_setSlot hlayout (pagesFor_eq_iff.mpr hcow).symm
  | cowTailPageForAppend slot copied =>
    obtain ⟨result, hcall, -⟩ := hstep
    obtain ⟨leak', -, -, hlayout, -⟩ := cowTailPageCopying_spec h hcall
    exact exact_cow hexact hlayout
  | truncateSlot slot newLen =>
    obtain ⟨result, hcall, -⟩ := hstep
    rcases (truncateSlot_spec h hcall).2 with heq | ⟨table, oldLen, htable, hlen, hlt, hlayout⟩
    · exact heq.symm ▸ hexact
    · refine hexact.of_setSlot hlayout ?_
      rw [List.length_take, hexact slot table oldLen htable hlen]
      exact Nat.min_eq_left (pagesFor_mono (Nat.le_of_lt hlt))
  | freeSlot slot =>
    refine hexact.of_setSlot (freeSlot_spec h hstep.1).2 (pagesFor_eq_iff.mpr ⟨?_, ?_⟩).symm
    · exact Nat.zero_le _
    · rw [List.length_nil, Nat.zero_mul, Nat.zero_add]
      exact s.pool.pageSize_pos
  | retainPages pages =>
    exact hexact.layout (retainPages_owned h hreleased hunsaturated hstep.1).2
  | releasePages pages =>
    obtain ⟨newlyFreed, hcall, -⟩ := hstep
    exact hexact.layout (releasePages_owned h hreleased hcall).2

/-- The row `i` of a slot lies in a page that only this slot owns. -/
def RowIsolated (pool : TokenKVPool) (retained : List Nat) (slot i : Nat) : Prop :=
  ∃ table page, pool.pageIndices[slot]? = some table ∧ table[i / pool.pageSize]? = some page ∧
    pool.pageAttachCount[page]? = some 1 ∧ pool.pageRefCount[page]? = some 0 ∧
    pool.entries.count page = 1 ∧ page ∉ retained

theorem rowIsolated_of_owned (h : pool.Owned leak retained) {table : List Nat} {i page : Nat}
    (htable : pool.pageIndices[slot]? = some table) (hpage : table[i / pool.pageSize]? = some page)
    (hone : plus leak pool.entries page = 1) (hzero : retained.count page = 0) :
    pool.RowIsolated retained slot i := by
  have hin := mem_entries htable (List.mem_of_getElem? hpage)
  have hlt := h.entries_lt page hin
  refine ⟨table, page, htable, hpage, ?_, ?_, ?_, List.count_eq_zero.mp hzero⟩
  · rw [h.balanced.attached_eq hlt, hone]
  · rw [h.balanced.retained_eq hlt, plus, hzero]
  · have := List.count_pos_iff.mpr hin
    rw [plus] at hone
    omega

/-- The tokens that `alloc_tokens` adds behind a private tail. -/
theorem alloc_isolated (h : pool.Owned leak retained) (hexact : pool.Exact)
    (htail : pool.TailPrivate leak retained slot) {newPages : List Nat} {seqLen i : Nat}
    (hcall : pool.allocTokens slot count = some (.ok newPages, pool'))
    (hseq : pool.seqLens[slot]? = some seqLen) (hlow : seqLen ≤ i) (hhigh : i < seqLen + count) :
    pool'.RowIsolated retained slot i := by
  obtain ⟨howned, hcase⟩ := allocTokens_spec h hcall
  rcases hcase with ⟨-, hcount | ⟨err, herr⟩⟩ |
    ⟨table, seqLen', pages, htable, hlen, hpages, hlayout, hone⟩
  · omega
  · cases herr
  · obtain rfl : seqLen = seqLen' := Option.some.inj (hseq.symm.trans hlen)
    obtain ⟨htables, -, -, hsize⟩ := layout_eq hlayout
    have hsize : pool'.pageSize = pool.pageSize := hsize
    have hpos := pool.pageSize_pos
    have hslot : slot < pool.pageIndices.length := (List.getElem?_eq_some_iff.mp htable).1
    have htable' : pool'.pageIndices[slot]? = some (table ++ pages) := by
      rw [htables, setSlot, List.getElem?_set_self hslot]
    have hlength : (table ++ pages).length = pool.pagesFor (seqLen + count) := by
      rw [List.length_append, hexact slot table seqLen htable hlen, hpages, pagesFor_append]
    have hindex : i / pool.pageSize < (table ++ pages).length := by
      rw [hlength, Nat.div_lt_iff_lt_mul hpos]
      exact Nat.lt_of_lt_of_le hhigh (pool.pagesFor_mul _).1
    have hpage := List.getElem?_eq_getElem hindex
    suffices hsole : plus leak pool'.entries (table ++ pages)[i / pool.pageSize] = 1 ∧
        retained.count (table ++ pages)[i / pool.pageSize] = 0 from
      rowIsolated_of_owned howned htable' (hsize.symm ▸ hpage) hsole.1 hsole.2
    generalize (table ++ pages)[i / pool.pageSize] = page at hpage
    by_cases hin : page ∈ pages
    · exact hone page hin
    · -- the row is in the last page of the old table, which is partial
      have hold : i / pool.pageSize < table.length := by
        refine Nat.lt_of_not_le fun hle => hin ?_
        rw [List.getElem?_append_right hle] at hpage
        exact List.mem_of_getElem? hpage
      have hfull := pool.pagesFor_mul_eq seqLen
      have hlt := (pool.pagesFor_mul seqLen).2
      rw [← hexact slot table seqLen htable hlen] at hfull hlt
      have hi := (Nat.div_lt_iff_lt_mul hpos).mp hold
      have hpartial : seqLen % pool.pageSize ≠ 0 := fun hzero => by
        rw [hzero, availableInLastPage, if_pos rfl] at hfull
        omega
      have hlast : table.getLast? = some page := by
        rw [List.getElem?_append_left hold] at hpage
        have hge : table.length - 1 ≤ i / pool.pageSize := by
          rw [Nat.le_div_iff_mul_le hpos, Nat.sub_mul, Nat.one_mul]
          omega
        rw [List.getLast?_eq_getElem?, ← hpage]
        congr 1
        omega
      obtain ⟨hatt, hrefs⟩ := htail table seqLen page htable hlen hpartial hlast
      refine ⟨?_, hrefs⟩
      have hcount := entries_setSlot htable (table ++ pages) (seqLen + count) page
      rw [List.count_append, List.count_eq_zero_of_not_mem hin] at hcount
      rw [entries_layout hlayout]
      rw [plus] at hatt ⊢
      omega

end Appends

/-- What every call under the contract of the appends keeps. -/
def Kept (s : Holding) : Prop := (∃ leak, s.pool.Owned leak s.retained) ∧ s.pool.Exact

/-- In every run in which the appends go through the copy on write and no counter saturates, a
slot has as many pages as its tokens fill, and the rows that an append exposes lie in pages that
only its slot owns. The device copies of the run may fail. -/
theorem appends_isolated {maxTotalPages pageSize : Nat} {s : Holding}
    (h : Reachable (Created maxTotalPages pageSize) IsolatedStep s) :
    s.pool.Exact ∧ ∀ copied slot count newPages pool' seqLen i,
      s.pool.tryAllocPoolTokensOnceCopying copied slot count = some (.ok newPages, pool') →
      s.pool.seqLens[slot]? = some seqLen → seqLen ≤ i → i < seqLen + count →
      pool'.RowIsolated s.retained slot i := by
  obtain ⟨⟨leak, howned⟩, hexact⟩ : Kept s := by
    refine h.invariant ?_ ?_
    · rintro s ⟨numSlots, hsize, rfl⟩
      refine ⟨⟨_, owned_new maxTotalPages numSlots pageSize hsize⟩, ?_⟩
      intro slot table seqLen htable hlen
      obtain rfl := List.eq_of_mem_replicate (List.mem_of_getElem? htable)
      obtain rfl := List.eq_of_mem_replicate (List.mem_of_getElem? hlen)
      refine (pagesFor_eq_iff.mpr ⟨Nat.zero_le _, ?_⟩).symm
      rw [List.length_nil, Nat.zero_mul, Nat.zero_add]
      exact hsize
    · rintro s op s' ⟨⟨leak, howned⟩, hexact⟩ ⟨⟨⟨hreleased, hcow⟩, hunsaturated⟩, hstep⟩
      obtain ⟨leak', howned', -⟩ := owned_step howned hreleased hunsaturated hstep
      exact ⟨⟨leak', howned'⟩, exact_step howned hexact hreleased hunsaturated hcow hstep⟩
  refine ⟨hexact, fun copied slot count newPages pool' seqLen i hcall hseq hlow hhigh => ?_⟩
  obtain ⟨leak', pool₁, howned₁, -, hlayout, hcase⟩ :=
    tryAllocPoolTokensOnceCopying_spec howned hcall
  rcases hcase with ⟨-, hcount | ⟨err, herr⟩⟩ | ⟨-, htail, allocated, halloc, hresult⟩
  · omega
  · cases herr
  · obtain rfl : allocated = .ok newPages := by
      cases allocated with
      | ok pages => exact (Except.ok.inj hresult).symm ▸ rfl
      | error err => cases hresult
    refine alloc_isolated howned₁ (exact_cow hexact hlayout) htail halloc ?_ hlow hhigh
    rcases hlayout with hlayout | ⟨table, old, new, seqLen', htable, hlen, hlayout⟩
    · rw [(layout_eq hlayout).2.1]
      exact hseq
    · rw [(layout_eq hlayout).2.1, setSlot, List.getElem?_set_self
        (List.getElem?_eq_some_iff.mp hlen).1]
      exact hlen.symm.trans hseq

/-- Two slots share a partial page. The first device copy of the second slot fails and loses page
`1`; its next append is isolated. -/
theorem appends_isolated_shared : ∃ (s : Holding) (pool' : TokenKVPool),
    Reachable (Created 3 2) IsolatedStep s ∧ s.pool.pageIndices = [[0], [0]] ∧
    s.pool.freePages = [2] ∧ pool'.pageIndices = [[0], [2]] ∧ s.pool.Exact ∧
    pool'.RowIsolated s.retained 1 1 := by
  have h₁ : Reachable (Created 3 2) IsolatedStep
      ⟨⟨[2, 1], [[0], []], [1, 0], [0, 0], [1, 0, 0], [0, 0, 0], 3, 2, Nat.two_pos⟩, []⟩ :=
    Reachable.next (Reachable.start ⟨2, Nat.two_pos, rfl⟩) (a := .append 0 1 true)
      ⟨⟨⟨trivial, trivial⟩, trivial⟩, .ok [0], rfl, rfl⟩
  have hfits : ∀ p count, [1, 0, 0][p]? = some count → count + [0].count p ≤ Word.maxVal 32 := by
    intro p count hread
    have hcount : count = 1 ∨ count = 0 := by simpa using List.mem_of_getElem? hread
    have hle : [0].count p ≤ [0].length := List.count_le_length
    have hmax : 1 + [0].length ≤ Word.maxVal 32 := by decide
    omega
  have h₂ : Reachable (Created 3 2) IsolatedStep
      ⟨⟨[2, 1], [[0], [0]], [1, 1], [0, 0], [2, 0, 0], [0, 0, 0], 3, 2, Nat.two_pos⟩, []⟩ :=
    Reachable.next h₁ (a := .attachPages 1 [0] 1)
      ⟨⟨⟨trivial, show 1 ≤ 1 * 2 ∧ 1 * 2 < 1 + 2 by decide⟩, hfits⟩, .ok (), rfl, rfl⟩
  have h₃ : Reachable (Created 3 2) IsolatedStep
      ⟨⟨[2], [[0], [0]], [1, 1], [0, 0], [2, 1, 0], [0, 0, 0], 3, 2, Nat.two_pos⟩, []⟩ :=
    Reachable.next h₂ (a := .append 1 1 false)
      ⟨⟨⟨trivial, trivial⟩, trivial⟩, .error .copyFailed, rfl, rfl⟩
  obtain ⟨hexact, hrows⟩ := appends_isolated h₃
  have hrow := hrows true 1 1 []
    ⟨[], [[0], [2]], [1, 2], [0, 0], [1, 1, 1], [0, 0, 0], 3, 2, Nat.two_pos⟩ 1 1
    rfl rfl (Nat.le_refl 1) (by decide)
  exact ⟨_, _, h₃, rfl, rfl, rfl, hexact, hrow⟩

/-- A page is retained while it is free: the next append writes into it. -/
theorem appends_isolated_fails : ∃ (s : Holding) (pool' : TokenKVPool),
    Reachable (Created 1 1) (guarded AppendsByCow PoolStep) s ∧
    s.pool.tryAllocPoolTokensOnceCopying true 0 1 = some (.ok [0], pool') ∧
    s.pool.seqLens[0]? = some 0 ∧ ¬ pool'.RowIsolated s.retained 0 0 := by
  have h₁ : Reachable (Created 1 1) (guarded AppendsByCow PoolStep)
      ⟨⟨[0], [[]], [0], [0], [0], [1], 1, 1, Nat.one_pos⟩, [0]⟩ :=
    Reachable.next (Reachable.start ⟨1, Nat.one_pos, rfl⟩) (a := .retainPages [0])
      ⟨trivial, rfl, rfl⟩
  refine ⟨_, ⟨[], [[0]], [1], [0], [1], [1], 1, 1, Nat.one_pos⟩, h₁, rfl, rfl, ?_⟩
  rintro ⟨table, page, htable, hpage, -, hrefs, -⟩
  obtain rfl := Option.some.inj htable
  obtain rfl := Option.some.inj hpage
  exact absurd hrefs (by decide)

end Arle.CudaKernels.TokenKVPool
