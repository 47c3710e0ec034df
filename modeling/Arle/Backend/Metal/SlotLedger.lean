import Arle.Lib.Assoc
import Arle.Lib.MinBy
import Arle.Lib.Run
import Arle.Lib.Word

/-!
# The slot ledger of the Metal pool

`SlotLedger` of `infer/src/backend/metal/kv_pool.rs`: which token slots are free, how often each is
held and when it was used last. The vectors have the length of the pool, and a slot is looked up
only after its range check.
-/

namespace Arle.Metal

inductive LedgerError
  | outOfTokenSlots (requested available : Nat)
  | slotOutOfRange (slot max : Nat)
  | unknownSource (sourceRequestId : Nat)
  | sourceTooShort (sourceRequestId slots : Nat)
deriving DecidableEq, Repr

structure SlotLedger (maxTotalTokens : Nat) where
  /-- The end of the vector first, where slots are popped and pushed. -/
  freeSlots : List Nat
  slotRefcounts : Vector Nat maxTotalTokens
  slotLastAccess : Vector Nat maxTotalTokens
  requestSlots : Assoc Nat (List Nat)
  nextAccessTick : Nat

/-- `slot_index`. -/
def slotIndex (maxTotalTokens slot : Nat) : Except LedgerError (Fin maxTotalTokens) :=
  if h : slot < maxTotalTokens then .ok ⟨slot, h⟩
  else .error (.slotOutOfRange slot maxTotalTokens)

namespace SlotLedger

/-- `SlotLedger::new`; the slots are those of `max_total_tokens as u32`. -/
def new (maxTotalTokens : Nat) : SlotLedger maxTotalTokens where
  freeSlots := List.range (maxTotalTokens % 2 ^ 32)
  slotRefcounts := Vector.replicate maxTotalTokens 0
  slotLastAccess := Vector.replicate maxTotalTokens 0
  requestSlots := ∅
  nextAccessTick := 1

variable {maxTotalTokens : Nat}

/-- `bump_access_tick`. -/
def bumpAccessTick (l : SlotLedger maxTotalTokens) : Nat × SlotLedger maxTotalTokens :=
  (l.nextAccessTick,
    { l with nextAccessTick := max (Word.saturatingAdd 64 l.nextAccessTick 1) 1 })

/-- `mark_access_at`. -/
def markAccessAt (l : SlotLedger maxTotalTokens) (slot tick : Nat) :
    Except LedgerError (SlotLedger maxTotalTokens) :=
  match slotIndex maxTotalTokens slot with
  | .error e => .error e
  | .ok idx => .ok { l with slotLastAccess := l.slotLastAccess.set idx tick }

/-- `bump_refcount`. -/
def bumpRefcount (l : SlotLedger maxTotalTokens) (slot : Nat) :
    Except LedgerError (SlotLedger maxTotalTokens) :=
  match slotIndex maxTotalTokens slot with
  | .error e => .error e
  | .ok idx =>
    .ok { l with
      slotRefcounts := l.slotRefcounts.set idx (Word.saturatingAdd 32 l.slotRefcounts[idx] 1) }

/-- `release_slot`, without the debug assertion. -/
def releaseSlot (l : SlotLedger maxTotalTokens) (slot : Nat) : SlotLedger maxTotalTokens :=
  match slotIndex maxTotalTokens slot with
  | .error _ => l
  | .ok idx =>
    if l.slotRefcounts[idx] = 0 then l
    else
      let count := l.slotRefcounts[idx] - 1
      let l := { l with slotRefcounts := l.slotRefcounts.set idx count }
      if count = 0 then
        { l with slotLastAccess := l.slotLastAccess.set idx 0, freeSlots := slot :: l.freeSlots }
      else l

/-- The loop over `slot_index` of the calls that get slots. -/
def checkSlots (maxTotalTokens : Nat) : List Nat → Except LedgerError Unit
  | [] => .ok ()
  | slot :: slots =>
    match slotIndex maxTotalTokens slot with
    | .error e => .error e
    | .ok _ => checkSlots maxTotalTokens slots

/-- The loop body of `alloc_detached_slots` and `share_slots`. -/
def holdSlot (accessTick slot : Nat) (l : SlotLedger maxTotalTokens) :
    Except LedgerError Unit × SlotLedger maxTotalTokens :=
  match l.bumpRefcount slot with
  | .error e => (.error e, l)
  | .ok l =>
    match l.markAccessAt slot accessTick with
    | .error e => (.error e, l)
    | .ok l => (.ok (), l)

/-- The loop of `alloc_detached_slots`; it panics when no slot is left. -/
def allocLoop (accessTick : Nat) : Nat → SlotLedger maxTotalTokens → List Nat →
    Option (Except LedgerError (List Nat) × SlotLedger maxTotalTokens)
  | 0, l, newIndices => some (.ok newIndices, l)
  | count + 1, l, newIndices =>
    match l.freeSlots with
    | [] => none
    | idx :: freeSlots =>
      match holdSlot accessTick idx { l with freeSlots } with
      | (.error e, l) => some (.error e, l)
      | (.ok (), l) => allocLoop accessTick count l (newIndices ++ [idx])

/-- `alloc_detached_slots`. -/
def allocDetachedSlots (l : SlotLedger maxTotalTokens) (count : Nat) :
    Option (Except LedgerError (List Nat) × SlotLedger maxTotalTokens) :=
  if count = 0 then some (.ok [], l)
  else if l.freeSlots.length < count then
    some (.error (.outOfTokenSlots count l.freeSlots.length), l)
  else
    let (accessTick, l) := l.bumpAccessTick
    allocLoop accessTick count l []

/-- `request_slots.entry(request_id).or_default().extend_from_slice(slots)`. -/
def extendRequest (l : SlotLedger maxTotalTokens) (requestId : Nat) (slots : List Nat) :
    SlotLedger maxTotalTokens :=
  { l with
    requestSlots :=
      l.requestSlots.insert requestId ((l.requestSlots.lookup requestId).getD [] ++ slots) }

/-- `alloc_tokens`. -/
def allocTokens (l : SlotLedger maxTotalTokens) (requestId count : Nat) :
    Option (Except LedgerError (List Nat) × SlotLedger maxTotalTokens) :=
  match l.allocDetachedSlots count with
  | none => none
  | some (.error e, l) => some (.error e, l)
  | some (.ok newIndices, l) => some (.ok newIndices, l.extendRequest requestId newIndices)

/-- The second loop of `share_slots`. -/
def shareLoop (accessTick : Nat) : List Nat → SlotLedger maxTotalTokens →
    Except LedgerError Unit × SlotLedger maxTotalTokens
  | [], l => (.ok (), l)
  | slot :: slots, l =>
    match holdSlot accessTick slot l with
    | (.error e, l) => (.error e, l)
    | (.ok (), l) => shareLoop accessTick slots l

/-- `share_slots`. -/
def shareSlots (l : SlotLedger maxTotalTokens) (requestId : Nat) (slots : List Nat) :
    Except LedgerError (List Nat) × SlotLedger maxTotalTokens :=
  if slots = [] then (.ok [], l)
  else
    match checkSlots maxTotalTokens slots with
    | .error e => (.error e, l)
    | .ok () =>
      let (accessTick, l) := l.bumpAccessTick
      match shareLoop accessTick slots l with
      | (.error e, l) => (.error e, l)
      | (.ok (), l) => (.ok slots, l.extendRequest requestId slots)

/-- `share_prefix_from`. -/
def sharePrefixFrom (l : SlotLedger maxTotalTokens)
    (requestId sourceRequestId prefixTokens : Nat) :
    Except LedgerError (List Nat) × SlotLedger maxTotalTokens :=
  if prefixTokens = 0 then (.ok [], l)
  else
    match l.requestSlots.lookup sourceRequestId with
    | none => (.error (.unknownSource sourceRequestId), l)
    | some sourceSlots =>
      if sourceSlots.length < prefixTokens then
        (.error (.sourceTooShort sourceRequestId sourceSlots.length), l)
      else l.shareSlots requestId (sourceSlots.take prefixTokens)

/-- `free_request`. -/
def freeRequest (l : SlotLedger maxTotalTokens) (requestId : Nat) : SlotLedger maxTotalTokens :=
  match l.requestSlots.lookup requestId with
  | none => l
  | some indices =>
    indices.foldl releaseSlot { l with requestSlots := l.requestSlots.erase requestId }

/-- `release_slots`. -/
def releaseSlots (l : SlotLedger maxTotalTokens) (slots : List Nat) :
    Except LedgerError Unit × SlotLedger maxTotalTokens :=
  match checkSlots maxTotalTokens slots with
  | .error e => (.error e, l)
  | .ok () => (.ok (), slots.foldl releaseSlot l)

/-- The second loop of `register_access`. -/
def markLoop (accessTick : Nat) : List Nat → SlotLedger maxTotalTokens →
    Except LedgerError Unit × SlotLedger maxTotalTokens
  | [], l => (.ok (), l)
  | slot :: slots, l =>
    match l.markAccessAt slot accessTick with
    | .error e => (.error e, l)
    | .ok l => markLoop accessTick slots l

/-- `register_access`. -/
def registerAccess (l : SlotLedger maxTotalTokens) (slots : List Nat) :
    Except LedgerError Unit × SlotLedger maxTotalTokens :=
  if slots = [] then (.ok (), l)
  else
    match checkSlots maxTotalTokens slots with
    | .error e => (.error e, l)
    | .ok () =>
      let (accessTick, l) := l.bumpAccessTick
      markLoop accessTick slots l

/-- The slots of the pool among `slots` are marked. -/
def markActive (active : Vector Bool maxTotalTokens) (slot : Nat) : Vector Bool maxTotalTokens :=
  match slotIndex maxTotalTokens slot with
  | .error _ => active
  | .ok idx => active.set idx true

/-- `active_slot_bitmap`. -/
def activeSlotBitmap (l : SlotLedger maxTotalTokens) : Vector Bool maxTotalTokens :=
  (Assoc.values l.requestSlots).foldl (fun active slots => slots.foldl markActive active)
    (Vector.replicate maxTotalTokens false)

/-- The loop over the slots of a candidate block, from the newest access so far: the newest access
of an eligible block. -/
def scanBlock (l : SlotLedger maxTotalTokens) (active : Vector Bool maxTotalTokens) :
    List Nat → Nat → Except LedgerError (Option Nat)
  | [], newestAccess => .ok (some newestAccess)
  | slot :: block, newestAccess =>
    match slotIndex maxTotalTokens slot with
    | .error e => .error e
    | .ok idx =>
      if active[idx] = true ∨ l.slotRefcounts[idx] = 0 then .ok none
      else scanBlock l active block (max newestAccess l.slotLastAccess[idx])

/-- The loop over the candidate blocks. -/
def candidateLoop (l : SlotLedger maxTotalTokens) (active : Vector Bool maxTotalTokens) :
    List (List Nat) → List (Nat × List Nat) → Except LedgerError (List (Nat × List Nat))
  | [], candidates => .ok candidates
  | block :: blocks, candidates =>
    if block = [] then candidateLoop l active blocks candidates
    else
      match scanBlock l active block 0 with
      | .error e => .error e
      | .ok none => candidateLoop l active blocks candidates
      | .ok (some newestAccess) =>
        candidateLoop l active blocks (candidates ++ [(newestAccess, block)])

/-- The loop over the sorted candidates. -/
def selectLoop (targetTokens : Nat) :
    List (Nat × List Nat) → Nat → List (List Nat) → List (List Nat)
  | [], _, selected => selected
  | (_, block) :: candidates, selectedTokens, selected =>
    let selectedTokens := Word.saturatingAdd 64 selectedTokens block.length
    if targetTokens ≤ selectedTokens then selected ++ [block]
    else selectLoop targetTokens candidates selectedTokens (selected ++ [block])

/-- `select_eviction_candidates`. -/
def selectEvictionCandidates (l : SlotLedger maxTotalTokens) (candidateBlocks : List (List Nat))
    (targetTokens : Nat) : Except LedgerError (List (List Nat)) :=
  if targetTokens = 0 ∨ candidateBlocks = [] then .ok []
  else
    match candidateLoop l l.activeSlotBitmap candidateBlocks [] with
    | .error e => .error e
    | .ok candidates =>
      .ok (selectLoop targetTokens (sortBy (fun a b => compare a.1 b.1) candidates) 0 [])

end SlotLedger

end Arle.Metal
