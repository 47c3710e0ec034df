import Arle.CudaKernels.PagedKvSpec

/-!
# Who owns a page

The owners of a page are the entries of the slot tables that name it and the retains that
are not released yet. `Owned` says that the counters of the pool count these owners. A
failed `attach_pages`, and an append whose device copy fails, leave pages counted that no table
names; `leak` counts them.
-/

namespace Arle.CudaKernels.TokenKVPool

/-! ## Tables -/

/-- All entries of the slot tables. -/
def entries (pool : TokenKVPool) : List Nat := pool.pageIndices.flatten

/-- Every slot has as many pages as its tokens fill. -/
def Exact (pool : TokenKVPool) : Prop :=
  ∀ (slot : Nat) (table : List Nat) (seqLen : Nat), pool.pageIndices[slot]? = some table →
    pool.seqLens[slot]? = some seqLen → table.length = pool.pagesFor seqLen

/-- Replacing one list of a list of lists. -/
theorem count_flatten_set {L : List (List Nat)} {i : Nat} {old : List Nat} (h : L[i]? = some old)
    (new : List Nat) (p : Nat) :
    (L.set i new).flatten.count p + old.count p = L.flatten.count p + new.count p := by
  induction L generalizing i with
  | nil => simp at h
  | cons table L ih =>
    cases i with
    | zero =>
      obtain rfl : table = old := by simpa using h
      simp only [List.set_cons_zero, List.flatten_cons, List.count_append]
      omega
    | succ i =>
      have := ih (i := i) (by simpa using h)
      simp only [List.set_cons_succ, List.flatten_cons, List.count_append]
      omega

section Tables

variable {pool pool' : TokenKVPool} {slot slot' seqLen p : Nat} {table new : List Nat}

theorem entries_layout (h : pool'.layout = pool.layout) : pool'.entries = pool.entries := by
  rw [entries, entries, (layout_eq h).1]

theorem entries_setSlot (h : pool.pageIndices[slot]? = some table) (new : List Nat) (n p : Nat) :
    (pool.setSlot slot new n).entries.count p + table.count p =
      pool.entries.count p + new.count p :=
  count_flatten_set h new p

theorem count_le_entries (h : pool.pageIndices[slot]? = some table) (p : Nat) :
    table.count p ≤ pool.entries.count p := by
  have := entries_setSlot h [] 0 p
  rw [List.count_nil] at this
  omega

theorem mem_entries (h : pool.pageIndices[slot]? = some table) (hp : p ∈ table) :
    p ∈ pool.entries :=
  List.mem_flatten.mpr ⟨table, List.mem_of_getElem? h, hp⟩

theorem Exact.layout (h : pool.Exact) (hlayout : pool'.layout = pool.layout) : pool'.Exact := by
  obtain ⟨htables, hlens, -, hsize⟩ := layout_eq hlayout
  intro slot table seqLen htable hlen
  rw [pagesFor, hsize]
  exact h slot table seqLen (htables ▸ htable) (hlens ▸ hlen)

theorem Exact.setSlot (h : pool.Exact) (hnew : new.length = pool.pagesFor seqLen) :
    (pool.setSlot slot new seqLen).Exact := by
  intro slot' table' seqLen' htable hlen
  simp only [TokenKVPool.setSlot, List.getElem?_set] at htable hlen
  by_cases hslot : slot = slot'
  · rw [if_pos hslot] at htable hlen
    split at htable
    · split at hlen
      · obtain rfl : new = table' := by simpa using htable
        obtain rfl : seqLen = seqLen' := by simpa using hlen
        exact hnew
      · cases hlen
    · cases htable
  · rw [if_neg hslot] at htable hlen
    exact h slot' table' seqLen' htable hlen

end Tables

/-! ## Rows and pages -/

section Rows

variable {pool : TokenKVPool} {n m k : Nat}

/-- `pagesFor` is the number of pages that the tokens fill. -/
theorem pagesFor_eq_iff : pool.pagesFor n = k ↔
    n ≤ k * pool.pageSize ∧ k * pool.pageSize < n + pool.pageSize := by
  have hpos := pool.pageSize_pos
  rw [pagesFor, Nat.div_eq_iff hpos]
  constructor
  · rintro ⟨h₁, h₂⟩
    constructor <;> omega
  · rintro ⟨h₁, h₂⟩
    constructor <;> omega

theorem pagesFor_mul (pool : TokenKVPool) (n : Nat) :
    n ≤ pool.pagesFor n * pool.pageSize ∧
      pool.pagesFor n * pool.pageSize < n + pool.pageSize :=
  pagesFor_eq_iff.mp rfl

theorem pagesFor_mono (h : n ≤ m) : pool.pagesFor n ≤ pool.pagesFor m := by
  rw [pagesFor, pagesFor]
  exact Nat.div_le_div_right (by omega)

/-- The pages of `n` tokens have room for the tokens and for what is free in the last. -/
theorem pagesFor_mul_eq (pool : TokenKVPool) (n : Nat) : pool.pagesFor n * pool.pageSize =
    n + pool.availableInLastPage (n % pool.pageSize) := by
  obtain ⟨hle, hlt⟩ := pool.pagesFor_mul n
  have hpos := pool.pageSize_pos
  have hsplit := Nat.div_add_mod n pool.pageSize
  have hmod := Nat.mod_lt n hpos
  -- the room in the last page is less than a page, so it is what `n` misses
  have hroom : (n + pool.availableInLastPage (n % pool.pageSize)) % pool.pageSize = 0 := by
    rw [availableInLastPage]
    split
    · rename_i h
      rw [Nat.add_zero, h]
    · rw [show n + (pool.pageSize - n % pool.pageSize) =
        pool.pageSize * (n / pool.pageSize + 1) by rw [Nat.mul_add, Nat.mul_one]; omega]
      exact Nat.mul_mod_right _ _
  obtain ⟨q, hq⟩ := Nat.dvd_of_mod_eq_zero hroom
  have hless : pool.availableInLastPage (n % pool.pageSize) < pool.pageSize := by
    rw [availableInLastPage]
    split <;> omega
  rw [hq, Nat.mul_comm]
  congr 1
  exact pagesFor_eq_iff.mpr ⟨by rw [Nat.mul_comm]; omega, by rw [Nat.mul_comm]; omega⟩

/-- The pages of an append, after the last page is filled up. -/
theorem pagesFor_append (pool : TokenKVPool) (n m : Nat) : pool.pagesFor (n + m) =
    pool.pagesFor n + pool.pagesFor (m - pool.availableInLastPage (n % pool.pageSize)) := by
  have hn := pool.pagesFor_mul_eq n
  obtain ⟨hle, hlt⟩ :=
    pool.pagesFor_mul (m - pool.availableInLastPage (n % pool.pageSize))
  have hless : pool.availableInLastPage (n % pool.pageSize) < pool.pageSize := by
    have := pool.pageSize_pos
    rw [availableInLastPage]
    split <;> omega
  refine pagesFor_eq_iff.mpr ?_
  rw [Nat.add_mul]
  by_cases hfill : m ≤ pool.availableInLastPage (n % pool.pageSize)
  · -- no new page
    have hzero : pool.pagesFor (m - pool.availableInLastPage (n % pool.pageSize)) = 0 := by
      refine pagesFor_eq_iff.mpr ⟨by omega, ?_⟩
      rw [Nat.zero_mul]
      exact Nat.add_pos_right _ pool.pageSize_pos
    rw [hzero, Nat.zero_mul]
    constructor <;> omega
  · constructor <;> omega

end Rows

/-! ## Owners -/

/-- The counters count the entries of the tables, the pages that failed calls leaked, and the
retains. -/
structure Owned (pool : TokenKVPool) (leak : Nat → Nat) (retained : List Nat) : Prop where
  balanced : pool.Balanced (plus leak pool.entries) (plus (fun _ => 0) retained)
  entries_lt : ∀ p ∈ pool.entries, p < pool.maxTotalPages
  retained_lt : ∀ p ∈ retained, p < pool.maxTotalPages
  fits : ∀ p < pool.maxTotalPages, plus leak pool.entries p ≤ Word.maxVal 32

section Specs

variable {pool pool' : TokenKVPool} {leak : Nat → Nat} {retained pages : List Nat}
  {slot count : Nat}

theorem Balanced.setSlot {att refs : Nat → Nat} (h : pool.Balanced att refs) (slot : Nat)
    (table : List Nat) (n : Nat) : (pool.setSlot slot table n).Balanced att refs :=
  ⟨h.attached, h.retained, h.nodup, h.free⟩

theorem Balanced.bumpEpoch {att refs : Nat → Nat} (h : pool.Balanced att refs) (slot : Nat)
    (removed : List Nat) : (pool.bumpEpoch slot removed).Balanced att refs := by
  rw [TokenKVPool.bumpEpoch]
  split
  · exact h
  · exact ⟨h.attached, h.retained, h.nodup, h.free⟩

theorem layout_bumpEpoch (pool : TokenKVPool) (slot : Nat) (removed : List Nat) :
    (pool.bumpEpoch slot removed).layout = pool.layout := by
  rw [bumpEpoch]
  split <;> rfl

/-- The owners of a pool with the same tables. -/
theorem Owned.of_layout (h : pool.Owned leak retained) (hlayout : pool'.layout = pool.layout)
    {leak' : Nat → Nat} {retained' : List Nat}
    (hbalanced : pool'.Balanced (plus leak' pool.entries) (plus (fun _ => 0) retained'))
    (hretained : ∀ p ∈ retained', p < pool.maxTotalPages)
    (hfits : ∀ p < pool.maxTotalPages, plus leak' pool.entries p ≤ Word.maxVal 32) :
    pool'.Owned leak' retained' := by
  have hmax := (layout_eq hlayout).2.2.1
  have hentries := entries_layout hlayout
  exact ⟨hentries.symm ▸ hbalanced, hentries.symm ▸ hmax.symm ▸ h.entries_lt,
    hmax.symm ▸ hretained, hentries.symm ▸ hmax.symm ▸ hfits⟩

/-- The owners of a pool in which one table is replaced. -/
theorem Owned.replace (h : pool.Owned leak retained) {table new : List Nat} {n : Nat}
    (htable : pool.pageIndices[slot]? = some table)
    (hlayout : pool'.layout = (pool.setSlot slot new n).layout) {att : Nat → Nat}
    (hbalanced : pool'.Balanced att (plus (fun _ => 0) retained))
    (hatt : ∀ p, att p + table.count p = plus leak pool.entries p + new.count p)
    (hnew : ∀ p ∈ new, p < pool.maxTotalPages)
    (hfits : ∀ p < pool.maxTotalPages, att p ≤ Word.maxVal 32) :
    pool'.Owned leak retained ∧ plus leak pool'.entries = att := by
  have hmax : pool'.maxTotalPages = pool.maxTotalPages := (layout_eq hlayout).2.2.1
  have hcount : ∀ p, pool'.entries.count p + table.count p =
      pool.entries.count p + new.count p := fun p => by
    rw [entries_layout hlayout]
    exact entries_setSlot htable new n p
  have heq : plus leak pool'.entries = att := by
    funext p
    have := hcount p
    have := hatt p
    simp only [plus] at this ⊢
    omega
  refine ⟨⟨heq ▸ hbalanced, fun p hp => ?_, hmax.symm ▸ h.retained_lt, ?_⟩, heq⟩
  · rw [hmax]
    by_cases hin : p ∈ new
    · exact hnew p hin
    · have := hcount p
      rw [List.count_eq_zero_of_not_mem hin] at this
      exact h.entries_lt p (List.count_pos_iff.mp (by
        have := List.count_pos_iff.mpr hp
        omega))
  · rw [heq, hmax]
    exact hfits

/-- Pages taken off the free stack for a slot. -/
theorem takeAttached {att refs : Nat → Nat} {n : Nat} (h : pool.Balanced att refs)
    (hn : n ≤ pool.freePages.length) : ∃ more pool',
    takePages markAttached n pool [] = some (more, pool') ∧ more.length = n ∧
      pool'.Balanced (plus att more) refs ∧ pool'.layout = pool.layout ∧ more.Nodup ∧
      ∀ p ∈ more, p < pool.maxTotalPages ∧ att p = 0 ∧ refs p = 0 := by
  obtain ⟨more, pool', htake, hlen, hbalanced, hlayout, hfree⟩ := takePages_spec
    (B := fun pool taken => pool.Balanced (plus att taken) refs)
    (fun pool taken page hB hlast => by
      obtain ⟨pool', hmark, hB', hlayout, hfree⟩ := hB.markAttached hlast
      exact ⟨pool', hmark, plus_append taken [page] ▸ hB', hlayout, hfree⟩) [] [] h hn
  exact ⟨more, pool', htake, hlen, hbalanced, hlayout, taken_free h hfree⟩

/-- Pages taken off the free stack without a slot. -/
theorem takeRetained {att refs : Nat → Nat} {n : Nat} (h : pool.Balanced att refs)
    (hn : n ≤ pool.freePages.length) : ∃ more pool',
    takePages markRetained n pool [] = some (more, pool') ∧ more.length = n ∧
      pool'.Balanced att (plus refs more) ∧ pool'.layout = pool.layout ∧ more.Nodup ∧
      ∀ p ∈ more, p < pool.maxTotalPages ∧ att p = 0 ∧ refs p = 0 := by
  obtain ⟨more, pool', htake, hlen, hbalanced, hlayout, hfree⟩ := takePages_spec
    (B := fun pool taken => pool.Balanced att (plus refs taken))
    (fun pool taken page hB hlast => by
      obtain ⟨pool', hmark, hB', hlayout, hfree⟩ := hB.markRetained hlast
      exact ⟨pool', hmark, plus_append taken [page] ▸ hB', hlayout, hfree⟩) [] [] h hn
  exact ⟨more, pool', htake, hlen, hbalanced, hlayout, taken_free h hfree⟩

/-- A successful `alloc_tokens` extends the table of the slot with free pages, as many as the
tokens need that do not fit in the last page. -/
theorem allocTokens_spec (h : pool.Owned leak retained) {result : Except KvPoolError (List Nat)}
    (hcall : pool.allocTokens slot count = some (result, pool')) :
    pool'.Owned leak retained ∧
      ((pool' = pool ∧ (count = 0 ∨ ∃ err, result = .error err)) ∨
        ∃ table seqLen newPages, pool.pageIndices[slot]? = some table ∧
          pool.seqLens[slot]? = some seqLen ∧ newPages.length =
            pool.pagesFor (count - pool.availableInLastPage (seqLen % pool.pageSize)) ∧
          pool'.layout = (pool.setSlot slot (table ++ newPages) (seqLen + count)).layout ∧
          ∀ p ∈ newPages, plus leak pool'.entries p = 1 ∧ retained.count p = 0) := by
  rw [allocTokens] at hcall
  split at hcall
  · rename_i hcount
    cases hcall
    exact ⟨h, Or.inl ⟨rfl, Or.inl hcount⟩⟩
  · cases hlen : pool.seqLens[slot]? with
    | none => simp [hlen] at hcall
    | some seqLen =>
      simp only [slotHotTailLen, hlen, Option.bind_eq_bind, Option.bind_some,
        Option.map_some] at hcall
      split at hcall
      · cases hcall
        exact ⟨h, Or.inl ⟨rfl, Or.inr ⟨_, rfl⟩⟩⟩
      · rename_i hn
        obtain ⟨more, pool₁, htake, hmore, hbalanced, hlayout, hnodup, hfree⟩ :=
          takeAttached h.balanced (Nat.not_lt.mp hn)
        obtain ⟨htables, hlens, hmax, hsize⟩ := layout_eq hlayout
        rw [htake, Option.bind_some, htables] at hcall
        cases htable : pool.pageIndices[slot]? with
        | none => simp [htable] at hcall
        | some table =>
          rw [htable, Option.bind_some] at hcall
          cases hcall
          have hset : (pool₁.setSlot slot (table ++ more) (seqLen + count)).layout =
              (pool.setSlot slot (table ++ more) (seqLen + count)).layout := by
            simp only [layout, setSlot, htables, hlens, hmax, hsize]
          have hone : ∀ p ∈ more, plus (plus leak pool.entries) more p = 1 ∧
              retained.count p = 0 := by
            intro p hp
            obtain ⟨-, hatt, hrefs⟩ := hfree p hp
            have := List.count_eq_one_of_mem hnodup hp
            simp only [plus] at hatt hrefs ⊢
            omega
          obtain ⟨howned, hatt⟩ := h.replace htable hset (hbalanced.setSlot _ _ _)
            (fun p => by
              rw [List.count_append, plus]
              omega)
            (fun p hp => (List.mem_append.mp hp).elim
              (fun hp => h.entries_lt p (mem_entries htable hp)) fun hp => (hfree p hp).1)
            (fun p hp => by
              by_cases hin : p ∈ more
              · rw [(hone p hin).1]
                decide
              · have := h.fits p hp
                rwa [plus, List.count_eq_zero_of_not_mem hin])
          exact ⟨howned, Or.inr ⟨table, seqLen, more, rfl, rfl, hmore, hset, hatt.symm ▸ hone⟩⟩

/-- The pages that a call handed out. -/
def handedOut : Except KvPoolError (List Nat) → List Nat
  | .ok newPages => newPages
  | .error _ => []

/-- `alloc_detached_pages` retains free pages. -/
theorem allocDetachedPages_spec (h : pool.Owned leak retained)
    {result : Except KvPoolError (List Nat)}
    (hcall : pool.allocDetachedPages count = some (result, pool')) :
    pool'.layout = pool.layout ∧ pool'.Owned leak (retained ++ handedOut result) := by
  rw [allocDetachedPages] at hcall
  split at hcall
  · cases hcall
    exact ⟨rfl, (List.append_nil retained).symm ▸ h⟩
  · split at hcall
    · cases hcall
      exact ⟨rfl, (List.append_nil retained).symm ▸ h⟩
    · rename_i hn
      obtain ⟨more, pool₁, htake, -, hbalanced, hlayout, -, hfree⟩ :=
        takeRetained h.balanced (Nat.not_lt.mp hn)
      rw [htake, Option.bind_eq_bind, Option.bind_some] at hcall
      cases hcall
      refine ⟨hlayout, h.of_layout hlayout (plus_append retained more ▸ hbalanced)
        (fun p hp => ?_) h.fits⟩
      exact (List.mem_append.mp hp).elim (h.retained_lt p) fun hp => (hfree p hp).1

/-- `attach_pages` fills an empty slot. When a page is not live it leaves the pages before it
counted. -/
theorem attachPages_spec (h : pool.Owned leak retained) {result : Except KvPoolError Unit}
    {tokenCount : Nat}
    (hfits : ∀ p < pool.maxTotalPages, plus leak pool.entries p + pages.count p ≤ Word.maxVal 32)
    (hcall : pool.attachPages slot pages tokenCount = some (result, pool')) :
    (∃ leak', pool'.Owned leak' retained ∧
        ((∀ p ∈ pages, pool.isLive p = true) → leak' = leak)) ∧
      (pool'.layout = pool.layout ∨
        pool'.layout = (pool.setSlot slot pages tokenCount).layout) := by
  rw [attachPages] at hcall
  cases htable : pool.pageIndices[slot]? with
  | none => simp [htable] at hcall
  | some table =>
    cases hlen : pool.seqLens[slot]? with
    | none => simp [htable, hlen] at hcall
    | some seqLen =>
      simp only [htable, hlen, Option.bind_eq_bind, Option.bind_some] at hcall
      split at hcall
      · cases hcall
        exact ⟨⟨leak, h, fun _ => rfl⟩, Or.inl rfl⟩
      · rename_i hempty
        obtain rfl : table = [] := by
          by_contra hne
          exact hempty (Or.inl hne)
        split at hcall
        · cases hcall
          exact ⟨⟨leak, h, fun _ => rfl⟩, Or.inl rfl⟩
        · obtain ⟨result₁, pool₁, hloop, hlayout, hspec⟩ := attachLoop_spec h.balanced hfits
          obtain ⟨htables, hlens, hmax, hsize⟩ := layout_eq hlayout
          rw [hloop] at hcall
          cases result₁ with
          | ok _ =>
            obtain ⟨hlive, hbalanced⟩ := hspec
            simp only [List.nil_append] at hcall
            cases hcall
            have hset : (pool₁.setSlot slot pages tokenCount).layout =
                (pool.setSlot slot pages tokenCount).layout := by
              simp only [layout, setSlot, htables, hlens, hmax, hsize]
            refine ⟨⟨leak, (h.replace htable hset (hbalanced.setSlot _ _ _) (fun p => rfl)
              (fun p hp => ?_) hfits).1, fun _ => rfl⟩, Or.inr hset⟩
            exact ((isLive_iff h.balanced p).mp (hlive p hp)).1
          | error err =>
            obtain ⟨⟨p, hp, hdead⟩, counted, hstart, hbalanced⟩ := hspec
            cases hcall
            have hswap : plus (plus leak pool.entries) counted =
                plus (plus leak counted) pool.entries := by
              funext p
              simp only [plus]
              omega
            refine ⟨⟨plus leak counted, ?_, fun hlive => ?_⟩, Or.inl hlayout⟩
            · refine h.of_layout hlayout (hswap ▸ hbalanced) h.retained_lt fun p hp => ?_
              have hcounted := hstart.sublist.count_le p
              have := hfits p hp
              rw [← hswap, plus]
              omega
            · rw [hlive p hp] at hdead
              cases hdead

/-- A slot gives the end of its table back. -/
theorem detach_spec (h : pool.Owned leak retained) (keep removed : List Nat) {n : Nat}
    (htable : pool.pageIndices[slot]? = some (keep ++ removed)) : ∃ recycled pool',
    detachLoop removed ((pool.setSlot slot keep n).bumpEpoch slot removed) [] =
        some (recycled, pool') ∧ pool'.Owned leak retained ∧
      pool'.layout = (pool.setSlot slot keep n).layout := by
  have hcount : ∀ p, removed.count p ≤ plus leak pool.entries p := fun p => by
    have := count_le_entries htable p
    rw [List.count_append] at this
    rw [plus]
    omega
  have hlayout₁ := layout_bumpEpoch (pool.setSlot slot keep n) slot removed
  have hmax₁ : ((pool.setSlot slot keep n).bumpEpoch slot removed).maxTotalPages =
      pool.maxTotalPages := (layout_eq hlayout₁).2.2.1
  obtain ⟨recycled, pool', hloop, hbalanced, hlayout⟩ := detachLoop_spec
    ((h.balanced.setSlot slot keep n).bumpEpoch slot removed) []
    (fun p hp => hmax₁.symm ▸ h.entries_lt p
      (mem_entries htable (List.mem_append_right keep hp))) hcount
  refine ⟨recycled, pool', hloop, (h.replace htable (hlayout.trans hlayout₁) hbalanced
    (fun p => ?_) (fun p hp => h.entries_lt p
      (mem_entries htable (List.mem_append_left removed hp))) fun p hp => ?_).1,
    hlayout.trans hlayout₁⟩
  · have := hcount p
    rw [List.count_append, minus]
    omega
  · exact Nat.le_trans (Nat.sub_le _ _) (h.fits p hp)

theorem freeSlot_spec (h : pool.Owned leak retained) (hcall : pool.freeSlot slot = some pool') :
    pool'.Owned leak retained ∧ pool'.layout = (pool.setSlot slot [] 0).layout := by
  rw [freeSlot] at hcall
  cases htable : pool.pageIndices[slot]? with
  | none => simp [htable] at hcall
  | some table =>
    obtain ⟨recycled, pool₁, hloop, howned, hlayout⟩ :=
      detach_spec (n := 0) h [] table htable
    simp only [htable, Option.bind_eq_bind, Option.bind_some, hloop] at hcall
    cases hcall
    exact ⟨howned, hlayout⟩

theorem truncateSlot_spec (h : pool.Owned leak retained) {newLen : Nat}
    {result : Except KvPoolError (List Nat)}
    (hcall : pool.truncateSlot slot newLen = some (result, pool')) : pool'.Owned leak retained ∧
      (pool' = pool ∨ ∃ table oldLen, pool.pageIndices[slot]? = some table ∧
        pool.seqLens[slot]? = some oldLen ∧ newLen < oldLen ∧
        pool'.layout = (pool.setSlot slot (table.take (pool.pagesFor newLen)) newLen).layout) := by
  rw [truncateSlot] at hcall
  cases hlen : pool.seqLens[slot]? with
  | none => simp [hlen] at hcall
  | some oldLen =>
    simp only [hlen, Option.bind_eq_bind, Option.bind_some] at hcall
    split at hcall
    · cases hcall
      exact ⟨h, Or.inl rfl⟩
    · split at hcall
      · cases hcall
        exact ⟨h, Or.inl rfl⟩
      · cases htable : pool.pageIndices[slot]? with
        | none => simp [htable] at hcall
        | some table =>
          rw [← List.take_append_drop (pool.pagesFor newLen) table] at htable
          obtain ⟨recycled, pool₁, hloop, howned, hlayout⟩ := detach_spec (n := newLen) h _ _ htable
          rw [List.take_append_drop] at htable
          simp only [htable, Option.bind_some, hloop] at hcall
          cases hcall
          exact ⟨howned, Or.inr ⟨table, oldLen, rfl, rfl, by omega, hlayout⟩⟩

/-- The partial last page of a slot has no other owner. -/
def TailPrivate (pool : TokenKVPool) (leak : Nat → Nat) (retained : List Nat) (slot : Nat) : Prop :=
  ∀ (table : List Nat) (seqLen page : Nat), pool.pageIndices[slot]? = some table →
    pool.seqLens[slot]? = some seqLen → seqLen % pool.pageSize ≠ 0 → table.getLast? = some page →
    plus leak pool.entries page = 1 ∧ retained.count page = 0

/-- A page in a table that is not shared has that table as its only owner. -/
theorem sole_owner (h : pool.Owned leak retained) {table : List Nat} {page : Nat}
    (htable : pool.pageIndices[slot]? = some table) (hp : page ∈ table)
    (hshared : pool.pageIsSharedReadOnly page = some false) :
    plus leak pool.entries page = 1 ∧ retained.count page = 0 := by
  have hlt := h.entries_lt page (mem_entries htable hp)
  have hin := List.count_pos_iff.mpr (mem_entries htable hp)
  rw [pageIsSharedReadOnly, h.balanced.retained_eq hlt, h.balanced.attached_eq hlt] at hshared
  simp only [Option.bind_eq_bind, Option.bind_some, Option.some.injEq, Bool.or_eq_false_iff,
    decide_eq_false_iff_not, plus] at hshared
  simp only [plus]
  omega

theorem slotSharedHotTailPage_eq {table : List Nat} {seqLen : Nat}
    (htable : pool.pageIndices[slot]? = some table) (hlen : pool.seqLens[slot]? = some seqLen) :
    pool.slotSharedHotTailPage slot =
      if seqLen % pool.pageSize = 0 then some none
      else match table.getLast? with
        | none => some none
        | some page =>
          (pool.pageIsSharedReadOnly page).map
            fun shared => if shared then some page else none := by
  rw [slotSharedHotTailPage, slotHotTailPage, slotHotTailLen, hlen]
  simp only [Option.map_some, Option.bind_eq_bind, Option.bind_some]
  split
  · rfl
  · cases hlast : table.getLast? <;>
      simp only [htable, hlast, Option.map_some, Option.bind_some]

/-- The last page of a table is exchanged for a free one. -/
theorem swapTail_spec (h : pool.Owned leak retained) {pool₁ : TokenKVPool} {table : List Nat}
    {old new : Nat} (seqLen : Nat) (htable : pool.pageIndices[slot]? = some (table ++ [old]))
    (hbalanced : pool₁.Balanced (plus (plus leak pool.entries) [new]) (plus (fun _ => 0) retained))
    (hlayout : pool₁.layout = pool.layout) (hnew : new < pool.maxTotalPages)
    (hunused : plus leak pool.entries new = 0) : ∃ attached freed pool',
    pool₁.pageAttachCount[old]? = some attached ∧
      ((pool₁.setSlot slot (table ++ [new]) seqLen).setAttach old
        (Word.wrappingSub 32 attached 1)).recyclePageIfUnreferenced old = some (freed, pool') ∧
      pool'.Owned leak retained ∧
      pool'.layout = (pool.setSlot slot (table ++ [new]) seqLen).layout ∧
      plus leak pool'.entries new = 1 := by
  obtain ⟨htables, hlens, hmax, hsize⟩ := layout_eq hlayout
  have hset : (pool₁.setSlot slot (table ++ [new]) seqLen).layout =
      (pool.setSlot slot (table ++ [new]) seqLen).layout := by
    simp only [layout, setSlot, htables, hlens, hmax, hsize]
  have hold := mem_entries htable (List.mem_append_right table List.mem_cons_self)
  have hpos : 0 < plus leak pool.entries old :=
    Nat.lt_of_lt_of_le (List.count_pos_iff.mpr hold) (Nat.le_add_left _ _)
  have hne : old ≠ new := fun heq => by
    subst heq
    omega
  have hlt : old < pool₁.maxTotalPages := hmax.symm ▸ h.entries_lt old hold
  have hcount : plus (plus leak pool.entries) [new] old = plus leak pool.entries old := by
    rw [plus, List.count_eq_zero_of_not_mem fun hin => hne (List.mem_singleton.mp hin)]
    rfl
  have hsub : Word.wrappingSub 32 (plus (plus leak pool.entries) [new] old) 1 =
      plus (plus leak pool.entries) [new] old - 1 := by
    have := h.fits old (hmax ▸ hlt)
    refine Word.wrappingSub_of_le (by omega) ?_
    rw [hcount]
    exact Nat.lt_of_le_of_lt this (by decide)
  obtain ⟨freed, pool', hrecycle, hbalanced', hlayout'⟩ :=
    (hbalanced.setSlot slot (table ++ [new]) seqLen).detachPage hlt (by omega)
  obtain ⟨howned, hatt⟩ := h.replace htable (hlayout'.trans hset) hbalanced'
    (fun p => by
      have hle : [old].count p ≤ plus leak pool.entries p := by
        by_cases hp : p = old
        · subst hp
          rw [List.count_cons_self, List.count_nil]
          exact hpos
        · rw [List.count_eq_zero_of_not_mem fun hin => hp (List.mem_singleton.mp hin)]
          exact Nat.zero_le _
      simp only [List.count_append, minus, plus] at hle ⊢
      omega)
    (fun p hp => (List.mem_append.mp hp).elim
      (fun hp => h.entries_lt p (mem_entries htable (List.mem_append_left _ hp)))
      fun hp => List.mem_singleton.mp hp ▸ hnew)
    (fun p hp => by
      refine Nat.le_trans (Nat.sub_le _ _) ?_
      by_cases hp' : p = new
      · subst hp'
        rw [plus, hunused, List.count_cons_self, List.count_nil]
        decide
      · rw [plus, List.count_eq_zero_of_not_mem fun hin => hp' (List.mem_singleton.mp hin)]
        exact h.fits p hp)
  refine ⟨_, freed, pool', hbalanced.attached_eq hlt, hsub.symm ▸ hrecycle, howned,
    hlayout'.trans hset, ?_⟩
  rw [hatt, minus, plus, hunused, List.count_cons_self,
    List.count_eq_zero_of_not_mem fun hin => hne (List.mem_singleton.mp hin).symm]
  rfl

/-- A page that is taken off the free stack and that no table gets. -/
theorem Owned.leakPage (h : pool.Owned leak retained) {new : Nat}
    (hbalanced : pool'.Balanced (plus (plus leak pool.entries) [new]) (plus (fun _ => 0) retained))
    (hlayout : pool'.layout = pool.layout) (hunused : plus leak pool.entries new = 0) :
    pool'.Owned (plus leak [new]) retained := by
  have hswap : plus (plus leak pool.entries) [new] = plus (plus leak [new]) pool.entries := by
    funext p
    simp only [plus]
    omega
  refine h.of_layout hlayout (hswap ▸ hbalanced) h.retained_lt fun p hp => ?_
  rw [← hswap]
  by_cases hp' : p = new
  · subst hp'
    rw [plus, hunused, List.count_cons_self, List.count_nil]
    decide
  · rw [plus, List.count_eq_zero_of_not_mem fun hin => hp' (List.mem_singleton.mp hin)]
    exact h.fits p hp

/-- `cow_tail_page_for_append` leaves the slot with a partial last page of its own. When the device
copy fails, the page that was taken for it is left counted. -/
theorem cowTailPageCopying_spec (h : pool.Owned leak retained) {copied : Bool}
    {result : Except CowError Bool}
    (hcall : pool.cowTailPageCopying copied slot = some (result, pool')) : ∃ leak',
      pool'.Owned leak' retained ∧ (copied = true → leak' = leak) ∧
      (pool'.layout = pool.layout ∨ ∃ table old new seqLen,
        pool.pageIndices[slot]? = some (table ++ [old]) ∧ pool.seqLens[slot]? = some seqLen ∧
        pool'.layout = (pool.setSlot slot (table ++ [new]) seqLen).layout) ∧
      ∀ detached, result = .ok detached → pool'.TailPrivate leak' retained slot := by
  rw [cowTailPageCopying] at hcall
  cases hshared : pool.slotSharedHotTailPage slot with
  | none => simp [hshared] at hcall
  | some tail =>
    cases tail with
    | none =>
      simp only [hshared, Option.bind_eq_bind, Option.bind_some] at hcall
      cases hcall
      refine ⟨leak, h, fun _ => rfl, Or.inl rfl, fun _ _ table seqLen page htable hlen htail hlast =>
        ?_⟩
      rw [slotSharedHotTailPage_eq htable hlen, if_neg htail, hlast] at hshared
      obtain ⟨shared, hread, hnone⟩ := Option.map_eq_some_iff.mp hshared
      cases shared with
      | false => exact sole_owner h htable (List.mem_of_getLast? hlast) hread
      | true => cases hnone
    | some tail =>
      simp only [hshared, Option.bind_eq_bind, Option.bind_some] at hcall
      cases hfree : pool.freePages.getLast? with
      | none =>
        simp only [hfree] at hcall
        cases hcall
        exact ⟨leak, h, fun _ => rfl, Or.inl rfl, fun _ hok => by cases hok⟩
      | some new =>
        obtain ⟨hnew, hatt, hrefs, -⟩ := h.balanced.last_free hfree
        obtain ⟨pool₁, hmark, hbalanced₁, hlayout₁, -⟩ := h.balanced.markAttached hfree
        obtain ⟨htables, hlens, hmax, hsize⟩ := layout_eq hlayout₁
        simp only [hfree, hmark, Option.bind_some, htables, hlens] at hcall
        cases copied with
        | false =>
          cases hcall
          exact ⟨_, h.leakPage hbalanced₁ hlayout₁ hatt, fun hok => (by cases hok), Or.inl hlayout₁,
            fun _ hok => by cases hok⟩
        | true =>
          rw [if_pos rfl] at hcall
          cases htable : pool.pageIndices[slot]? with
          | none => simp [htable] at hcall
          | some whole =>
            cases hlen : pool.seqLens[slot]? with
            | none => simp [htable, hlen] at hcall
            | some seqLen =>
              cases hlast : whole.getLast? with
              | none => simp [htable, hlen, hlast] at hcall
              | some old =>
                -- the table is `whole = table ++ [old]`
                obtain ⟨table, rfl⟩ : ∃ table, whole = table ++ [old] :=
                  ⟨whole.dropLast, (List.dropLast_append_getLast? old hlast).symm⟩
                obtain ⟨attached, freed, pool₂, hread, hrecycle, howned, hlayout, hone⟩ :=
                  swapTail_spec h seqLen htable hbalanced₁ hlayout₁ hnew hatt
                have hsame : (pool₁.setSlot slot (table ++ [new]) seqLen).pageAttachCount[old]? =
                    some attached := hread
                simp only [htable, hlen, hlast, Option.bind_some, List.dropLast_concat, hsame,
                  hrecycle] at hcall
                cases hcall
                refine ⟨leak, howned, fun _ => rfl,
                  Or.inr ⟨table, old, new, seqLen, rfl, rfl, hlayout⟩, ?_⟩
                intro _ _ table' seqLen' page htable' _ _ hlast'
                rw [(layout_eq hlayout).1, setSlot, List.getElem?_set_self (by
                  exact (List.getElem?_eq_some_iff.mp htable).1)] at htable'
                cases htable'
                rw [List.getLast?_concat] at hlast'
                cases hlast'
                refine ⟨hone, ?_⟩
                rw [plus, Nat.zero_add] at hrefs
                exact hrefs

end Specs

end Arle.CudaKernels.TokenKVPool
