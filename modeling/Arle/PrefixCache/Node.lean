import Arle.Lib.Assoc
import Arle.Lib.Word
import Arle.KvTier.Types

/-!
# Nodes of the radix cache

`Node` and `RadixCache` of `infer/src/prefix_cache.rs`, with the reads and writes of one
node. A `Vec` is a list, and an index outside it panics (`none`). The `Vec` of free slots
is a stack whose top is the end of the list.
-/

namespace Arle.PrefixCache

open KvTier

/-- A node of the radix tree. -/
structure Node where
  /-- The edge from the parent to this node. -/
  tokens : List Token
  blockId : Option BlockId
  refCount : Nat
  lastAccess : Nat
  hitCount : Nat
  tierLocation : Option BlockLocation
  sessionId : Option SessionId
  hostSwapEligible : Bool
  fingerprint : Option BlockFingerprint
  byteLen : Nat
  softPinUntil : Option Nat
  hostSpillPinUntil : Option Nat
  entryState : IndexEntryState
  storeState : StoreState
  sparseDropped : Bool
  /-- Children, indexed by the first token of their edge. -/
  children : Assoc Token Nat
deriving DecidableEq

namespace Node

/-- `Node::new`. -/
def new (tokens : List Token) (blockId : Option BlockId) (now : Nat) : Node where
  tokens := tokens
  blockId := blockId
  refCount := 0
  lastAccess := now
  hitCount := 0
  tierLocation := none
  sessionId := none
  hostSwapEligible := false
  fingerprint := none
  byteLen := 0
  softPinUntil := none
  hostSpillPinUntil := none
  entryState := .ready
  storeState := .idle
  sparseDropped := false
  children := ∅

/-- `Node::is_tombstone`: no block, but metadata that only a block leaves behind. -/
def isTombstone (node : Node) : Bool :=
  node.blockId.isNone &&
    (node.tierLocation.isSome || node.sessionId.isSome || node.fingerprint.isSome ||
      node.byteLen != 0 || node.softPinUntil.isSome || node.hostSpillPinUntil.isSome)

/-- `maybe_refresh_soft_pin`. -/
def maybeRefreshSoftPin (node : Node) (now : Nat) (keepalive : Option Nat) : Node :=
  match node.softPinUntil, keepalive with
  | some _, some ticks => { node with softPinUntil := some (Word.saturatingAdd 64 now ticks) }
  | _, _ => node

/-- Record the access time of a visited node. -/
def touch (now : Nat) (node : Node) : Node := { node with lastAccess := now }

/-- The update of a node whose block takes part in a successful lookup: one more pin
(a `u32` that wraps), one more hit, and a refreshed soft pin. -/
def hit (now : Nat) (keepalive : Option Nat) (node : Node) : Node :=
  ({ node with
      refCount := Word.wrappingAdd 32 node.refCount 1
      hitCount := Word.saturatingAdd 32 node.hitCount 1 }).maybeRefreshSoftPin now keepalive

/-- The part of a node that the shape of the tree is made of. -/
structure Shape where
  tokens : List Token
  blockId : Option BlockId
  fingerprint : Option BlockFingerprint
  children : Assoc Token Nat

def shape (node : Node) : Shape :=
  ⟨node.tokens, node.blockId, node.fingerprint, node.children⟩

@[simp] theorem shape_touch (now : Nat) (node : Node) : (node.touch now).shape = node.shape := rfl

@[simp] theorem refCount_touch (now : Nat) (node : Node) :
    (node.touch now).refCount = node.refCount := rfl

@[simp] theorem shape_maybeRefreshSoftPin (now : Nat) (keepalive : Option Nat) (node : Node) :
    (node.maybeRefreshSoftPin now keepalive).shape = node.shape := by
  unfold maybeRefreshSoftPin
  split <;> rfl

@[simp] theorem refCount_maybeRefreshSoftPin (now : Nat) (keepalive : Option Nat) (node : Node) :
    (node.maybeRefreshSoftPin now keepalive).refCount = node.refCount := by
  unfold maybeRefreshSoftPin
  split <;> rfl

@[simp] theorem shape_hit (now : Nat) (keepalive : Option Nat) (node : Node) :
    (node.hit now keepalive).shape = node.shape := by
  simp only [hit, shape_maybeRefreshSoftPin]
  rfl

@[simp] theorem refCount_hit (now : Nat) (keepalive : Option Nat) (node : Node) :
    (node.hit now keepalive).refCount = Word.wrappingAdd 32 node.refCount 1 := by
  simp only [hit, refCount_maybeRefreshSoftPin]

end Node

/-- The radix cache. Slot `0` of `nodes` is the root. -/
structure RadixCache where
  nodes : List Node
  freeNodes : List Nat
  blockSize : Nat
  clock : Nat
  softPinKeepaliveTicks : Option Nat
  blockIndex : Assoc BlockId Nat
  namespaceTag : BitVec 256
deriving DecidableEq

namespace RadixCache

/-- `RadixCache::new_with_soft_pin_keepalive`; a zero block size panics. -/
def newWithSoftPinKeepalive (blockSize : Nat) (keepalive : Option Nat)
    (namespaceTag : BitVec 256) : Option RadixCache :=
  if blockSize > 0 then
    some {
      nodes := [Node.new [] none 0]
      freeNodes := []
      blockSize := blockSize
      clock := 0
      softPinKeepaliveTicks := keepalive
      blockIndex := ∅
      namespaceTag := namespaceTag }
  else none

/-- `RadixCache::new`. -/
def new (blockSize : Nat) : Option RadixCache := newWithSoftPinKeepalive blockSize none 0

/-- `RadixCache::tick`: the new clock, a `u64` that wraps. -/
def tick (c : RadixCache) : Nat × RadixCache :=
  let now := Word.wrappingAdd 64 c.clock 1
  (now, { c with clock := now })

/-- `RadixCache::root`. -/
def root : Nat := 0

/-- Write one node through its index. -/
def modifyNode (c : RadixCache) (idx : Nat) (f : Node → Node) : Option RadixCache :=
  match c.nodes[idx]? with
  | some node => some { c with nodes := c.nodes.set idx (f node) }
  | none => none

/-- `RadixCache::alloc_node`: reuse the top of the free stack, or grow the vector. -/
def allocNode (c : RadixCache) (node : Node) : Option (Nat × RadixCache) :=
  match c.freeNodes.getLast? with
  | some idx =>
    if idx < c.nodes.length then
      some (idx, { c with freeNodes := c.freeNodes.dropLast, nodes := c.nodes.set idx node })
    else none
  | none => some (c.nodes.length, { c with nodes := c.nodes ++ [node] })

/-- `RadixCache::edge_match_len`. -/
def edgeMatchLen : List Token → List Token → Nat
  | a :: edge, b :: remaining => if a = b then edgeMatchLen edge remaining + 1 else 0
  | _, _ => 0

/-- `RadixCache::child_edge_match`: the matched length and the length of the edge. -/
def childEdgeMatch (c : RadixCache) (childIdx : Nat) (remaining : List Token) :
    Option (Nat × Nat) :=
  (c.nodes[childIdx]?).map fun child =>
    (edgeMatchLen child.tokens remaining, child.tokens.length)

/-- `RadixCache::next_block_boundary`. -/
def nextBlockBoundary (c : RadixCache) (blockIdx : Nat) : Nat := (blockIdx + 1) * c.blockSize

/-- `RadixCache::full_block_end`. -/
def fullBlockEnd (c : RadixCache) (blockIdx totalTokens : Nat) : Option Nat :=
  if c.nextBlockBoundary blockIdx ≤ totalTokens then some (c.nextBlockBoundary blockIdx) else none

/-- `RadixCache::truncated_block_end`. -/
def truncatedBlockEnd (c : RadixCache) (blockIdx totalTokens : Nat) : Nat :=
  min (c.nextBlockBoundary blockIdx) totalTokens

/-- `RadixCache::path_is_block_aligned`. -/
def pathIsBlockAligned (c : RadixCache) (pathLen : Nat) : Bool :=
  pathLen != 0 && decide (c.blockSize ∣ pathLen)

/-- `RadixCache::rounded_prefix_len`; a zero block size panics in the division. -/
def roundedPrefixLen (c : RadixCache) (walkedTokens matchedBlocks : Nat) : Option Nat :=
  if c.blockSize = 0 then none
  else some (min (matchedBlocks * c.blockSize) walkedTokens / c.blockSize * c.blockSize)

/-! ## The tree the nodes describe -/

/-- The child of slot `idx` for the first token `t`. -/
def child (c : RadixCache) (idx : Nat) (t : Token) : Option Nat :=
  (c.nodes[idx]?).bind fun node => node.children.lookup t

/-- The edge into slot `idx`. -/
def edge (c : RadixCache) (idx : Nat) : List Token := ((c.nodes[idx]?).map Node.tokens).getD []

/-- The block of slot `idx`. -/
def block (c : RadixCache) (idx : Nat) : Option BlockId := (c.nodes[idx]?).bind Node.blockId

/-- The fingerprint of slot `idx`. -/
def fprint (c : RadixCache) (idx : Nat) : Option BlockFingerprint :=
  (c.nodes[idx]?).bind Node.fingerprint

/-- The pin count of slot `idx`. -/
def refs (c : RadixCache) (idx : Nat) : Nat := ((c.nodes[idx]?).map Node.refCount).getD 0

end RadixCache

end Arle.PrefixCache
