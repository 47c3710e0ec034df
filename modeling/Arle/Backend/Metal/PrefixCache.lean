import Mathlib
import Arle.PrefixCache.LruEvict

/-!
# The prefix cache of the Metal backend

A radix cache of blocks, and which token slots of the device each block stands for. A panic of the
radix cache is `none`.
-/

namespace Arle.Backend.Metal

open Arle.KvTier Arle.PrefixCache

structure MetalPrefixHit where
  matchedLen : Nat
  slotIndices : List Nat
deriving DecidableEq, Repr

structure MetalPrefixCache where
  radix : RadixCache
  blockSlots : Assoc BlockId (List Nat)
  slotToBlock : Assoc Nat BlockId
  nextBlockId : UInt32
  blockSize : Nat

/-- `{block_id:?}`. -/
def debugBlock (blockId : BlockId) : String := "BlockId(" ++ toString blockId.val.toNat ++ ")"

/-- `slots[start..start + len]`. -/
def slotRange (slots : List Nat) (start len : Nat) : List Nat := (slots.drop start).take len

namespace MetalPrefixCache

def new (blockSize : Nat) : Option MetalPrefixCache :=
  (RadixCache.new blockSize).map fun radix => {
    radix
    blockSlots := ∅
    slotToBlock := ∅
    nextBlockId := 0
    blockSize }

variable (self : MetalPrefixCache)

def alignedLen (len : Nat) : Nat := len / self.blockSize * self.blockSize

def missingSlots (blockId : BlockId) : String :=
  "MetalPrefixCache: missing slot mapping for cached block " ++ debugBlock blockId

/-! ## Slots and blocks -/

def blocksToSlots : List BlockId → Except String (List Nat)
  | [] => .ok []
  | block :: blocks =>
    match self.blockSlots.lookup block with
    | none => .error (missingSlots block)
    | some blockSlots => (blocksToSlots blocks).map (blockSlots ++ ·)

def unknownSlot (slot : Nat) : String := "MetalPrefixCache: unknown slot " ++ toString slot

/-- The check of the other slots of a chunk. -/
def sameBlock (first : BlockId) : List Nat → Except String BlockId
  | [] => .ok first
  | slot :: slots =>
    match self.slotToBlock.lookup slot with
    | none => .error (unknownSlot slot)
    | some block =>
      if block = first then sameBlock first slots
      else .error "slot chunk spans multiple blocks"

/-- `block_for_slots`; the length is checked first, so the empty chunk is one only if blocks are
empty. -/
def blockForSlots (slots : List Nat) : Except String BlockId :=
  if slots.length ≠ self.blockSize then
    .error "slot chunk must be exactly one block"
  else
    match slots with
    | [] => .error "slot chunk must be exactly one block"
    | slot :: slots =>
      match self.slotToBlock.lookup slot with
      | none => .error (unknownSlot slot)
      | some first => self.sameBlock first slots

/-- The first of the slots that belongs to another block. -/
def foreignSlot (blockId : BlockId) (slots : List Nat) : Option (Nat × BlockId) :=
  slots.findSome? fun slot =>
    match self.slotToBlock.lookup slot with
    | none => none
    | some existingBlock => if existingBlock = blockId then none else some (slot, existingBlock)

def recordBlock (blockId : BlockId) (slots : List Nat) :
    Except String Unit × MetalPrefixCache :=
  if slots.length ≠ self.blockSize then
    (.error "block mapping must contain exactly one block of slots", self)
  else
    match self.blockSlots.lookup blockId with
    | some existing =>
      if existing = slots then (.ok (), self)
      else
        (.error ("block " ++ debugBlock blockId ++ " already mapped to different slots"), self)
    | none =>
      match self.foreignSlot blockId slots with
      | some foreign =>
        (.error ("slot " ++ toString foreign.1 ++ " already belongs to " ++
          debugBlock foreign.2), self)
      | none =>
        (.ok (), { self with
          blockSlots := self.blockSlots.insert blockId slots
          slotToBlock := slots.foldl (fun map slot => map.insert slot blockId)
            self.slotToBlock })

/-! ## Insertion -/

/-- The slots of the cached blocks must be those of the call, from the `blockIdx`-th block on. -/
def checkMatched (slotIndices : List Nat) : Nat → List BlockId → Except String Unit
  | _, [] => .ok ()
  | blockIdx, blockId :: blocks =>
    match self.blockSlots.lookup blockId with
    | none => .error (missingSlots blockId)
    | some slots =>
      if slots = slotRange slotIndices (blockIdx * self.blockSize) self.blockSize then
        checkMatched slotIndices (blockIdx + 1) blocks
      else
        .error "prefix already cached with different slot indices"

/-- The loop over the blocks that are not cached yet: `remaining` of them, from the `blockIdx`-th
on. -/
def recordNew (slotIndices : List Nat) : Nat → Nat → MetalPrefixCache → List BlockId →
    Except String (List BlockId) × MetalPrefixCache
  | 0, _, self, blocks => (.ok blocks, self)
  | remaining + 1, blockIdx, self, blocks =>
    let blockId : BlockId := ⟨self.nextBlockId⟩
    if self.nextBlockId.toNat + 1 < 2 ^ 32 then
      let self := { self with nextBlockId := self.nextBlockId + 1 }
      let recorded := self.recordBlock blockId
        (slotRange slotIndices (blockIdx * self.blockSize) self.blockSize)
      match recorded.1 with
      | .error err => (.error err, recorded.2)
      | .ok () =>
        recordNew slotIndices remaining (blockIdx + 1) recorded.2 (blocks ++ [blockId])
    else
      (.error "MetalPrefixCache: block id overflow", self)

/-- `RadixCache::insert`: the fingerprints are zero. -/
def radixInsert (radix : RadixCache) (tokens : List Token) (blocks : List BlockId) :
    Option RadixCache :=
  (radix.insertWithFingerprints tokens blocks (blocks.map fun _ => ⟨0⟩)).map Prod.snd

/-- `MetalPrefixCache::insert`. -/
def insert (tokens : List Token) (slotIndices : List Nat) :
    Option (Except String Nat × MetalPrefixCache) :=
  if tokens.length ≠ slotIndices.length then
    some (.error "token and slot lengths must match", self)
  else
    let fullLen := self.alignedLen tokens.length
    if fullLen = 0 then
      some (.ok 0, self)
    else do
      let ((matchedLen, matchedBlocks), radix) ← self.radix.lookup (tokens.take fullLen)
      let self := { self with radix := radix.release matchedBlocks }
      if matchedLen ≤ fullLen then
        let matchedBlocksLen := matchedLen / self.blockSize
        let totalBlocks := fullLen / self.blockSize
        match self.checkMatched slotIndices 0 matchedBlocks with
        | .error err => some (.error err, self)
        | .ok () =>
          let recorded := recordNew slotIndices (totalBlocks - matchedBlocksLen) matchedBlocksLen
            self matchedBlocks
          match recorded.1 with
          | .error err => some (.error err, recorded.2)
          | .ok blocks =>
            if matchedBlocksLen < totalBlocks then
              let radix ← radixInsert recorded.2.radix (tokens.take fullLen) blocks
              some (.ok fullLen, { recorded.2 with radix })
            else
              some (.ok fullLen, recorded.2)
      else
        some (.error "radix lookup returned an invalid match length", self)

/-! ## Lookup, release and eviction -/

def lookup (tokens : List Token) : Option (Except String MetalPrefixHit × MetalPrefixCache) := do
  let ((matchedLen, blocks), radix) ← self.radix.lookup tokens
  match self.blocksToSlots blocks with
  | .error err => some (.error err, { self with radix := radix.release blocks })
  | .ok slotIndices => some (.ok { matchedLen, slotIndices }, { self with radix })

/-- The blocks of the chunks of a list of slots. -/
def blocksForChunks : List (List Nat) → Except String (List BlockId)
  | [] => .ok []
  | chunk :: chunks => do
    let block ← self.blockForSlots chunk
    let blocks ← blocksForChunks chunks
    return block :: blocks

def release (slotIndices : List Nat) : Except String Unit × MetalPrefixCache :=
  if slotIndices.isEmpty then
    (.ok (), self)
  else if slotIndices.length % self.blockSize ≠ 0 then
    (.error "release requires block-aligned slot indices", self)
  else
    match self.blocksForChunks (slotIndices.toChunks self.blockSize) with
    | .error err => (.error err, self)
    | .ok blocks =>
      let blocks := (blocks.insertionSort fun a b => a.val ≤ b.val).dedup
      (.ok (), { self with radix := self.radix.release blocks })

/-- The loop of `evict` over the freed blocks. -/
def dropBlocks : List BlockId → MetalPrefixCache → List Nat → List Nat × MetalPrefixCache
  | [], self, freedSlots => (freedSlots, self)
  | blockId :: blocks, self, freedSlots =>
    match self.blockSlots.lookup blockId with
    | none => dropBlocks blocks self freedSlots
    | some slots => dropBlocks blocks { self with
        blockSlots := self.blockSlots.erase blockId
        slotToBlock := slots.foldl (fun map slot => map.erase slot) self.slotToBlock }
        (freedSlots ++ slots)

def evict (n : Nat) : List Nat × MetalPrefixCache :=
  let freed := self.radix.evict n
  dropBlocks freed.1 { self with radix := freed.2 } []

end MetalPrefixCache

end Arle.Backend.Metal
