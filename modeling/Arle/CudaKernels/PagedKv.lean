import Arle.Lib.Word

/-!
# The page pool of the device

The page tables of `TokenKVPool` in `crates/cuda-kernels/src/paged_kv.rs`: which page a
slot attaches, which pages are retained from outside the slots, and which are free. The
buffers are left out. `cowTailPageForAppend` takes the copy between pages to succeed, and
`cowTailPageCopying` takes how it ends. A `Vec` is a list, an index outside it panics (`none`);
the free pages are a stack whose top is the end of the list. A failed call returns the error
beside the pool, since it may have changed it.
-/

namespace Arle.CudaKernels

/-- The errors of the pool calls, with the numbers in their texts. -/
inductive KvPoolError
  | outOfPages (requested available : Nat)
  | outOfFreePages
  | slotNotEmpty (slot : Nat)
  | exceedsCapacity (tokenCount capacity : Nat)
  | pageOutOfBounds (page : Nat)
  | pageNotLive (page : Nat)
  | cannotGrow (slot newLen oldLen : Nat)
deriving DecidableEq, Repr

/-- Why a copy on write fails: the pool has no page, or the device copy failed. -/
inductive CowError
  | pool (err : KvPoolError)
  | copyFailed
deriving DecidableEq, Repr

structure TokenKVPool where
  freePages : List Nat
  /-- The page tables of the slots. -/
  pageIndices : List (List Nat)
  seqLens : List Nat
  slotEpochs : List Nat
  pageAttachCount : List Nat
  pageRefCount : List Nat
  maxTotalPages : Nat
  pageSize : Nat
  pageSize_pos : 0 < pageSize
deriving DecidableEq

namespace TokenKVPool

/-- The pool of `TokenKVPool::new`, without its buffers. -/
def new (maxTotalPages numSlots pageSize : Nat) (h : 0 < pageSize) : TokenKVPool where
  freePages := (List.range maxTotalPages).reverse
  pageIndices := List.replicate numSlots []
  seqLens := List.replicate numSlots 0
  slotEpochs := List.replicate numSlots 0
  pageAttachCount := List.replicate maxTotalPages 0
  pageRefCount := List.replicate maxTotalPages 0
  maxTotalPages := maxTotalPages
  pageSize := pageSize
  pageSize_pos := h

def setAttach (pool : TokenKVPool) (page count : Nat) : TokenKVPool :=
  { pool with pageAttachCount := pool.pageAttachCount.set page count }

/-- A page that a slot takes for itself; an index outside the pool panics. -/
def markAttached (pool : TokenKVPool) (page : Nat) : Option TokenKVPool :=
  (pool.pageAttachCount[page]?).map fun _ => pool.setAttach page 1

def setRefs (pool : TokenKVPool) (page count : Nat) : TokenKVPool :=
  { pool with pageRefCount := pool.pageRefCount.set page count }

/-- A page that is taken without a slot. -/
def markRetained (pool : TokenKVPool) (page : Nat) : Option TokenKVPool :=
  (pool.pageRefCount[page]?).map fun _ => pool.setRefs page 1

/-- Write the table and the length of a slot. -/
def setSlot (pool : TokenKVPool) (slot : Nat) (table : List Nat) (seqLen : Nat) : TokenKVPool :=
  { pool with
    pageIndices := pool.pageIndices.set slot table
    seqLens := pool.seqLens.set slot seqLen }

/-- A new epoch of a slot that gives pages back. -/
def bumpEpoch (pool : TokenKVPool) (slot : Nat) (removed : List Nat) : TokenKVPool :=
  if removed.isEmpty then pool
  else { pool with
    slotEpochs := pool.slotEpochs.modify slot fun epoch => Word.saturatingAdd 64 epoch 1 }

/-- `slot_hot_tail_len`. -/
def slotHotTailLen (pool : TokenKVPool) (slot : Nat) : Option Nat :=
  (pool.seqLens[slot]?).map fun seqLen => seqLen % pool.pageSize

/-- `slot_hot_tail_page`. -/
def slotHotTailPage (pool : TokenKVPool) (slot : Nat) : Option (Option Nat) := do
  let hotTailLen ← pool.slotHotTailLen slot
  if hotTailLen = 0 then some none
  else (pool.pageIndices[slot]?).map List.getLast?

/-- `page_is_shared_read_only`. -/
def pageIsSharedReadOnly (pool : TokenKVPool) (page : Nat) : Option Bool := do
  let refs ← pool.pageRefCount[page]?
  let attached ← pool.pageAttachCount[page]?
  some (decide (refs > 0) || decide (attached > 1))

/-- `slot_shared_hot_tail_page`. -/
def slotSharedHotTailPage (pool : TokenKVPool) (slot : Nat) : Option (Option Nat) := do
  match ← pool.slotHotTailPage slot with
  | none => some none
  | some page =>
    (pool.pageIsSharedReadOnly page).map fun shared => if shared then some page else none

/-- The token rows that are free in the last page of a slot. -/
def availableInLastPage (pool : TokenKVPool) (hotTailLen : Nat) : Nat :=
  if hotTailLen = 0 then 0 else pool.pageSize - hotTailLen

/-- `div_ceil` by the page size. -/
def pagesFor (pool : TokenKVPool) (tokens : Nat) : Nat :=
  (tokens + pool.pageSize - 1) / pool.pageSize

/-- `append_pages_needed`. -/
def appendPagesNeeded (pool : TokenKVPool) (slot count : Nat) : Option Nat :=
  if count = 0 then some 0
  else do
    let hotTailLen ← pool.slotHotTailLen slot
    let shared ← pool.slotSharedHotTailPage slot
    some ((if shared.isSome then 1 else 0) +
      pool.pagesFor (count - pool.availableInLastPage hotTailLen))

/-- `recycle_page_if_unreferenced`. -/
def recyclePageIfUnreferenced (pool : TokenKVPool) (page : Nat) : Option (Bool × TokenKVPool) := do
  let attached ← pool.pageAttachCount[page]?
  let refs ← pool.pageRefCount[page]?
  if attached = 0 ∧ refs = 0 then
    some (true, { pool with freePages := pool.freePages ++ [page] })
  else some (false, pool)

/-- Pop `n` pages off the free stack and mark each of them. -/
def takePages (mark : TokenKVPool → Nat → Option TokenKVPool) :
    Nat → TokenKVPool → List Nat → Option (List Nat × TokenKVPool)
  | 0, pool, newPages => some (newPages, pool)
  | n + 1, pool, newPages => do
    let idx ← pool.freePages.getLast?
    let pool ← mark { pool with freePages := pool.freePages.dropLast } idx
    takePages mark n pool (newPages ++ [idx])

/-- `alloc_tokens`. -/
def allocTokens (pool : TokenKVPool) (slot count : Nat) :
    Option (Except KvPoolError (List Nat) × TokenKVPool) :=
  if count = 0 then some (.ok [], pool)
  else do
    let seqLen ← pool.seqLens[slot]?
    let hotTailLen ← pool.slotHotTailLen slot
    let newPageCount := pool.pagesFor (count - pool.availableInLastPage hotTailLen)
    if newPageCount > pool.freePages.length then
      some (.error (.outOfPages newPageCount pool.freePages.length), pool)
    else do
      let (newPages, pool) ← takePages markAttached newPageCount pool []
      let table ← pool.pageIndices[slot]?
      some (.ok newPages, pool.setSlot slot (table ++ newPages) (seqLen + count))

/-- `alloc_detached_pages`. -/
def allocDetachedPages (pool : TokenKVPool) (count : Nat) :
    Option (Except KvPoolError (List Nat) × TokenKVPool) :=
  if count = 0 then some (.ok [], pool)
  else if count > pool.freePages.length then
    some (.error (.outOfPages count pool.freePages.length), pool)
  else do
    let (newPages, pool) ← takePages markRetained count pool []
    some (.ok newPages, pool)

/-- The loop of `attach_pages`: an error leaves the pages before it counted. -/
def attachLoop : List Nat → TokenKVPool → Option (Except KvPoolError Unit × TokenKVPool)
  | [], pool => some (.ok (), pool)
  | page :: pages, pool =>
    if page ≥ pool.maxTotalPages then some (.error (.pageOutOfBounds page), pool)
    else do
      let attached ← pool.pageAttachCount[page]?
      let refs ← pool.pageRefCount[page]?
      if attached = 0 ∧ refs = 0 then some (.error (.pageNotLive page), pool)
      else attachLoop pages (pool.setAttach page (Word.saturatingAdd 32 attached 1))

/-- `attach_pages`. -/
def attachPages (pool : TokenKVPool) (slot : Nat) (pages : List Nat) (tokenCount : Nat) :
    Option (Except KvPoolError Unit × TokenKVPool) := do
  let table ← pool.pageIndices[slot]?
  let seqLen ← pool.seqLens[slot]?
  if table ≠ [] ∨ seqLen ≠ 0 then some (.error (.slotNotEmpty slot), pool)
  else if tokenCount > pages.length * pool.pageSize then
    some (.error (.exceedsCapacity tokenCount (pages.length * pool.pageSize)), pool)
  else
    match attachLoop pages pool with
    | none => none
    | some (.error err, pool) => some (.error err, pool)
    | some (.ok (), pool) => some (.ok (), pool.setSlot slot (table ++ pages) tokenCount)

/-- `cow_tail_page_for_append` with `detach_shared_hot_tail_page_for_append`. -/
def cowTailPageForAppend (pool : TokenKVPool) (slot : Nat) :
    Option (Except KvPoolError Bool × TokenKVPool) := do
  match ← pool.slotSharedHotTailPage slot with
  | none => some (.ok false, pool)
  | some _ =>
    match pool.freePages.getLast? with
    | none => some (.error .outOfFreePages, pool)
    | some newPage => do
      let pool ← { pool with freePages := pool.freePages.dropLast }.markAttached newPage
      let table ← pool.pageIndices[slot]?
      let seqLen ← pool.seqLens[slot]?
      let oldTailPage ← table.getLast?
      let pool := pool.setSlot slot (table.dropLast ++ [newPage]) seqLen
      let attached ← pool.pageAttachCount[oldTailPage]?
      let pool := pool.setAttach oldTailPage (Word.wrappingSub 32 attached 1)
      let (_, pool) ← pool.recyclePageIfUnreferenced oldTailPage
      some (.ok true, pool)

/-- `cow_tail_page_for_append`, where `copied` says how `copy_page_device_to_device` ends. -/
def cowTailPageCopying (pool : TokenKVPool) (copied : Bool) (slot : Nat) :
    Option (Except CowError Bool × TokenKVPool) := do
  match ← pool.slotSharedHotTailPage slot with
  | none => some (.ok false, pool)
  | some _ =>
    match pool.freePages.getLast? with
    | none => some (.error (.pool .outOfFreePages), pool)
    | some newPage => do
      let pool ← { pool with freePages := pool.freePages.dropLast }.markAttached newPage
      if copied then do
        let table ← pool.pageIndices[slot]?
        let seqLen ← pool.seqLens[slot]?
        let oldTailPage ← table.getLast?
        let pool := pool.setSlot slot (table.dropLast ++ [newPage]) seqLen
        let attached ← pool.pageAttachCount[oldTailPage]?
        let pool := pool.setAttach oldTailPage (Word.wrappingSub 32 attached 1)
        let (_, pool) ← pool.recyclePageIfUnreferenced oldTailPage
        some (.ok true, pool)
      else some (.error .copyFailed, pool)

/-- A copy that succeeds gives the call of the pool. -/
theorem cowTailPageCopying_true (pool : TokenKVPool) (slot : Nat) :
    pool.cowTailPageCopying true slot = (pool.cowTailPageForAppend slot).map fun r =>
      (r.1.mapError CowError.pool, r.2) := by
  unfold cowTailPageCopying cowTailPageForAppend
  cases pool.slotSharedHotTailPage slot with
  | none => rfl
  | some shared =>
    cases shared with
    | none => rfl
    | some page =>
      simp only [Option.bind_eq_bind, Option.bind_some]
      cases pool.freePages.getLast? with
      | none => rfl
      | some newPage =>
        simp only [if_true, Option.map_bind, Function.comp_def]
        rfl

/-- The loop of `free_slot` and `truncate_slot` over the pages a slot gives back. -/
def detachLoop : List Nat → TokenKVPool → List Nat → Option (List Nat × TokenKVPool)
  | [], pool, recycled => some (recycled, pool)
  | idx :: removed, pool, recycled => do
    let attached ← pool.pageAttachCount[idx]?
    let (freed, pool) ← (pool.setAttach idx (attached - 1)).recyclePageIfUnreferenced idx
    detachLoop removed pool (if freed then recycled ++ [idx] else recycled)

/-- `free_slot`. -/
def freeSlot (pool : TokenKVPool) (slot : Nat) : Option TokenKVPool := do
  let slotPages ← pool.pageIndices[slot]?
  let pool := pool.setSlot slot [] 0
  let (_, pool) ← detachLoop slotPages (pool.bumpEpoch slot slotPages) []
  some pool

/-- `truncate_slot`. -/
def truncateSlot (pool : TokenKVPool) (slot newLen : Nat) :
    Option (Except KvPoolError (List Nat) × TokenKVPool) := do
  let oldLen ← pool.seqLens[slot]?
  if newLen > oldLen then some (.error (.cannotGrow slot newLen oldLen), pool)
  else if newLen = oldLen then some (.ok [], pool)
  else do
    let slotPages ← pool.pageIndices[slot]?
    let keepPages := pool.pagesFor newLen
    let removed := slotPages.drop keepPages
    let pool := pool.setSlot slot (slotPages.take keepPages) newLen
    let (recycled, pool) ← detachLoop removed (pool.bumpEpoch slot removed) []
    some (.ok recycled, pool)

/-- `retain_pages`. -/
def retainPages : List Nat → TokenKVPool → Option TokenKVPool
  | [], pool => some pool
  | idx :: pages, pool => do
    let refs ← pool.pageRefCount[idx]?
    retainPages pages (pool.setRefs idx (Word.saturatingAdd 32 refs 1))

/-- The loop of `release_pages`. -/
def releaseLoop : List Nat → TokenKVPool → List Nat → Option (List Nat × TokenKVPool)
  | [], pool, newlyFreed => some (newlyFreed, pool)
  | idx :: pages, pool, newlyFreed => do
    let cur ← pool.pageRefCount[idx]?
    let pool := pool.setRefs idx (cur - 1)
    if cur - 1 = 0 then do
      let (freed, pool) ← pool.recyclePageIfUnreferenced idx
      releaseLoop pages pool (if freed then newlyFreed ++ [idx] else newlyFreed)
    else releaseLoop pages pool newlyFreed

/-- `release_pages`: the pages that went back to the free stack. -/
def releasePages (pool : TokenKVPool) (pages : List Nat) : Option (List Nat × TokenKVPool) :=
  releaseLoop pages pool []

/-- `try_alloc_pool_tokens_once` of the scheduler: how every append runs. -/
def tryAllocPoolTokensOnce (pool : TokenKVPool) (slot count : Nat) :
    Option (Except KvPoolError (List Nat) × TokenKVPool) :=
  if count > 0 then
    match pool.cowTailPageForAppend slot with
    | none => none
    | some (.error err, pool) => some (.error err, pool)
    | some (.ok _, pool) => pool.allocTokens slot count
  else pool.allocTokens slot count

/-- `try_alloc_pool_tokens_once`, where `copied` says how the device copy ends. -/
def tryAllocPoolTokensOnceCopying (pool : TokenKVPool) (copied : Bool) (slot count : Nat) :
    Option (Except CowError (List Nat) × TokenKVPool) :=
  let alloc := fun pool : TokenKVPool => (pool.allocTokens slot count).map fun r =>
    (r.1.mapError CowError.pool, r.2)
  if count > 0 then
    match pool.cowTailPageCopying copied slot with
    | none => none
    | some (.error err, pool) => some (.error err, pool)
    | some (.ok _, pool) => alloc pool
  else alloc pool

/-- An append whose copy succeeds. -/
theorem tryAllocPoolTokensOnceCopying_true (pool : TokenKVPool) (slot count : Nat) :
    pool.tryAllocPoolTokensOnceCopying true slot count =
      (pool.tryAllocPoolTokensOnce slot count).map fun r =>
        (r.1.mapError CowError.pool, r.2) := by
  unfold tryAllocPoolTokensOnceCopying tryAllocPoolTokensOnce
  split
  · rw [cowTailPageCopying_true]
    cases pool.cowTailPageForAppend slot with
    | none => rfl
    | some r =>
      obtain ⟨result, pool'⟩ := r
      cases result with
      | error err => rfl
      | ok detached => rfl
  · rfl

end TokenKVPool

end Arle.CudaKernels
