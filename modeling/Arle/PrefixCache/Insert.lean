import Arle.PrefixCache.Lookup

/-!
# Insertion into the radix cache

`insert_with_fingerprints`. The loop descends along the tokens; where the tokens leave an
edge in its middle the edge is split, and where no edge starts with the next token the
remaining tokens become a chain of new nodes. Every index, slice and assertion that
panics in the source is a `none` here; the two `debug_assert!` are kept, as in a build
with debug assertions.
-/

namespace Arle.PrefixCache.RadixCache

open KvTier

/-- The slice `tokens[start..stop]`. -/
def slice (tokens : List Token) (start stop : Nat) : Option (List Token) :=
  if start ≤ stop ∧ stop ≤ tokens.length then some ((tokens.drop start).take (stop - start))
  else none

/-- `debug_assert!`. -/
def debugAssert (b : Bool) : Option Unit := if b then some () else none

/-- Give the node `childIdx` the block `newBid`, and point the index at it. -/
def relabel (c : RadixCache) (childIdx : Nat) (oldBid newBid : BlockId)
    (fp : BlockFingerprint) : Option RadixCache := do
  let c := if oldBid ≠ newBid then { c with blockIndex := c.blockIndex.erase oldBid } else c
  let c ← c.modifyNode childIdx fun n =>
    { n with blockId := some newBid, fingerprint := some fp }
  some { c with blockIndex := c.blockIndex.insert newBid childIdx }

/-- Split the edge into `childIdx` after `splitPoint` tokens. The new intermediate node
inherits the pin count of the child. -/
def splitEdge (c : RadixCache) (nodeIdx childIdx : Nat) (nextToken : Token)
    (splitPoint now : Nat) : Option (Nat × RadixCache) := do
  let child ← c.nodes[childIdx]?
  let c ← c.modifyNode childIdx fun n => { n with tokens := [], children := ∅ }
  let sharedNode := { Node.new (child.tokens.take splitPoint) none now with
    refCount := child.refCount }
  let (sharedIdx, c) ← c.allocNode sharedNode
  let c ← c.modifyNode childIdx fun n => { n with
    tokens := child.tokens.drop splitPoint
    blockId := child.blockId
    children := child.children }
  let moved ← c.nodes[childIdx]?
  let firstOld ← moved.tokens[0]?
  let c ← c.modifyNode sharedIdx fun n =>
    { n with children := n.children.insert firstOld childIdx }
  let c ← c.modifyNode nodeIdx fun n =>
    { n with children := n.children.insert nextToken sharedIdx }
  some (sharedIdx, c)

/-- The index after slot `idx` got a block, if it got one. -/
def indexBlock (block : Option (BlockId × BlockFingerprint)) (idx : Nat)
    (index : Assoc BlockId Nat) : Assoc BlockId Nat :=
  match block with
  | some (bid, _) => index.insert bid idx
  | none => index

/-- Allocate a node with the given edge and hang it below `nodeIdx`. -/
def addChild (c : RadixCache) (nodeIdx : Nat) (edgeTokens : List Token)
    (block : Option (BlockId × BlockFingerprint)) (now : Nat) : Option (Nat × RadixCache) := do
  let firstTok ← edgeTokens[0]?
  let newNode := { Node.new edgeTokens (block.map Prod.fst) now with
    fingerprint := block.map Prod.snd }
  let (newIdx, c) ← c.allocNode newNode
  let c := { c with blockIndex := indexBlock block newIdx c.blockIndex }
  let c ← c.modifyNode nodeIdx fun n =>
    { n with children := n.children.insert firstTok newIdx }
  some (newIdx, c)

/-- The inner loop of an insertion: the remaining tokens become a chain of new nodes, one
for each block window, and a last one without a block for a partial window. -/
def insertFresh (tokens : List Token) (blocks : List BlockId) (fps : List BlockFingerprint)
    (now : Nat) : Nat → RadixCache → Nat → Nat → Nat → Option (Nat × RadixCache)
  | 0, _, _, _, _ => none
  | fuel + 1, c, nodeIdx, pos, blockIdx =>
    if pos < tokens.length ∧ blockIdx < blocks.length then do
      let nextBoundary := c.nextBlockBoundary blockIdx
      let stop := c.truncatedBlockEnd blockIdx tokens.length
      let edgeTokens ← slice tokens pos stop
      if stop = nextBoundary then do
        let bid ← blocks[blockIdx]?
        let fp ← fps[blockIdx]?
        debugAssert (c.pathIsBlockAligned stop)
        let (newIdx, c) ← c.addChild nodeIdx edgeTokens (some (bid, fp)) now
        insertFresh tokens blocks fps now fuel c newIdx stop (blockIdx + 1)
      else do
        let (_, c) ← c.addChild nodeIdx edgeTokens none now
        some (blockIdx, c)
    else some (blockIdx, c)

/-- The loop of `RadixCache::insert_with_fingerprints`; its result is the number of block
windows inserted. -/
def insertLoop (tokens : List Token) (blocks : List BlockId) (fps : List BlockFingerprint)
    (now : Nat) : Nat → RadixCache → Nat → Nat → Nat → Option (Nat × RadixCache)
  | 0, _, _, _, _ => none
  | fuel + 1, c, nodeIdx, pos, blockIdx =>
    if pos < tokens.length ∧ blockIdx < blocks.length then do
      let nextToken ← tokens[pos]?
      let node ← c.nodes[nodeIdx]?
      match node.children.lookup nextToken with
      | some childIdx => do
        let (matchLen, edgeLen) ← c.childEdgeMatch childIdx (tokens.drop pos)
        if matchLen = edgeLen then do
          let c ← c.modifyNode childIdx (Node.touch now)
          match c.block childIdx with
          | some oldBid => do
            debugAssert (c.pathIsBlockAligned (pos + edgeLen))
            let newBid ← blocks[blockIdx]?
            let fp ← fps[blockIdx]?
            let c ← c.relabel childIdx oldBid newBid fp
            insertLoop tokens blocks fps now fuel c childIdx (pos + edgeLen) (blockIdx + 1)
          | none => insertLoop tokens blocks fps now fuel c childIdx (pos + edgeLen) blockIdx
        else do
          let (sharedIdx, c) ← c.splitEdge nodeIdx childIdx nextToken matchLen now
          match c.fullBlockEnd blockIdx tokens.length with
          | some blockEnd => do
            let newBlockTokens ← slice tokens (pos + matchLen) blockEnd
            let newBid ← blocks[blockIdx]?
            let newFp ← fps[blockIdx]?
            let (newIdx, c) ← c.addChild sharedIdx newBlockTokens (some (newBid, newFp)) now
            insertLoop tokens blocks fps now fuel c newIdx blockEnd (blockIdx + 1)
          | none => some (blockIdx, c)
      | none => insertFresh tokens blocks fps now (blocks.length + 1) c nodeIdx pos blockIdx
    else some (blockIdx, c)

/-- `RadixCache::insert_with_fingerprints`: the number of tokens inserted. -/
def insertWithFingerprints (c : RadixCache) (tokens : List Token) (blocks : List BlockId)
    (fps : List BlockFingerprint) : Option (Nat × RadixCache) :=
  if blocks.length ≠ fps.length then none
  else if blocks.isEmpty ∨ tokens.isEmpty then some (0, c)
  else do
    let totalTokens := blocks.length * c.blockSize
    let tokens := tokens.take (min tokens.length totalTokens)
    let (now, c) := c.tick
    let (blockIdx, c) ← insertLoop tokens blocks fps now (c.walkFuel tokens) c root 0 0
    some (blockIdx * c.blockSize, c)

end Arle.PrefixCache.RadixCache
