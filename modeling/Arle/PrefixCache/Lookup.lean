import Arle.PrefixCache.Node

/-!
# Lookups, releases and metadata of the radix cache

`lookup`, `lookup_or_stage`, `release`, `retag_block` and the metadata writers of
`RadixCache`. The walks are loops over the remaining tokens; a loop is a recursion on a
fuel that is larger than the number of iterations of any walk that ends (a walk that
makes `nodes.len()` steps without consuming a token repeats a node and never ends), so
`none` is a panic or a loop without end.
-/

namespace Arle.PrefixCache.RadixCache

open KvTier

/-- The descent step the walks share: the child of `nodeIdx` whose whole edge is a prefix
of the remaining tokens, with the length of that edge. -/
def descend (c : RadixCache) (nodeIdx : Nat) (remaining : List Token) :
    Option (Option (Nat × Nat)) :=
  match remaining with
  | [] => some none
  | nextToken :: _ => do
    let node ← c.nodes[nodeIdx]?
    match node.children.lookup nextToken with
    | none => some none
    | some childIdx => do
      let (matchLen, edgeLen) ← c.childEdgeMatch childIdx remaining
      if matchLen < edgeLen then some none else some (some (childIdx, matchLen))

/-- An upper bound on the iterations of a walk over `tokens`. -/
def walkFuel (c : RadixCache) (tokens : List Token) : Nat :=
  (tokens.length + 1) * (c.nodes.length + 3)

/-- `RadixCache::dec_refs_by_block_id`: every node whose block is in the set gives up one
pin, if it has one. -/
def decRefsByBlockId (c : RadixCache) (blocks : List BlockId) : RadixCache :=
  { c with
    nodes := c.nodes.map fun node =>
      match node.blockId with
      | some bid =>
        if bid ∈ blocks ∧ node.refCount > 0 then { node with refCount := node.refCount - 1 }
        else node
      | none => node }

/-- `RadixCache::release`. -/
def release (c : RadixCache) (blocks : List BlockId) : RadixCache := c.decRefsByBlockId blocks

/-- The loop of `RadixCache::lookup`. -/
def lookupLoop (tokens : List Token) (now : Nat) :
    Nat → RadixCache → Nat → Nat → List BlockId → Option (Nat × List BlockId × RadixCache)
  | 0, _, _, _, _ => none
  | fuel + 1, c, nodeIdx, pos, matchedBlocks => do
    let c ← c.modifyNode nodeIdx (Node.touch now)
    match ← c.descend nodeIdx (tokens.drop pos) with
    | none => some (pos, matchedBlocks, c)
    | some (childIdx, matchLen) => do
      let c ← c.modifyNode childIdx (Node.touch now)
      match c.block childIdx with
      | some bid => do
        let c ← c.modifyNode childIdx (Node.hit now c.softPinKeepaliveTicks)
        lookupLoop tokens now fuel c childIdx (pos + matchLen) (matchedBlocks ++ [bid])
      | none => lookupLoop tokens now fuel c childIdx (pos + matchLen) matchedBlocks

/-- `RadixCache::lookup`: the length of the longest cached prefix, rounded down to a
block, and its blocks, each of which is pinned once more. -/
def lookup (c : RadixCache) (tokens : List Token) :
    Option ((Nat × List BlockId) × RadixCache) := do
  let (now, c) := c.tick
  let (pos, matchedBlocks, c) ← lookupLoop tokens now (c.walkFuel tokens) c root 0 []
  let rounded ← c.roundedPrefixLen pos matchedBlocks.length
  let blockCount := rounded / c.blockSize
  if matchedBlocks.length > blockCount then
    some ((rounded, matchedBlocks.take blockCount),
      c.decRefsByBlockId (matchedBlocks.drop blockCount))
  else some ((rounded, matchedBlocks), c)

/-- The loop of `RadixCache::lookup_or_stage`. -/
def lookupOrStageLoop (tokens : List Token) (heuristics : LookupHeuristics) (now : Nat) :
    Nat → RadixCache → Nat → Nat → List LookupBlock → Bool →
      Option (Nat × List LookupBlock × Bool × RadixCache)
  | 0, _, _, _, _, _ => none
  | fuel + 1, c, nodeIdx, pos, blocks, recomputeAdvised => do
    let c ← c.modifyNode nodeIdx (Node.touch now)
    match ← c.descend nodeIdx (tokens.drop pos) with
    | none => some (pos, blocks, recomputeAdvised, c)
    | some (childIdx, matchLen) => do
      let pos := pos + matchLen
      let c ← c.modifyNode childIdx (Node.touch now)
      let child ← c.nodes[childIdx]?
      match child.blockId with
      | some blockId => do
        let c ← c.modifyNode childIdx (Node.hit now c.softPinKeepaliveTicks)
        let hitKind := classifyHit child.tierLocation child.entryState
        let advised := heuristics.adviseRecompute hitKind c.blockSize
          (max child.byteLen (c.blockSize % 2 ^ 32))
        lookupOrStageLoop tokens heuristics now fuel c childIdx pos
          (blocks ++ [⟨some blockId, hitKind⟩]) (recomputeAdvised || advised)
      | none =>
        if child.isTombstone then
          some (pos, blocks ++ [⟨none, .miss⟩], recomputeAdvised, c)
        else lookupOrStageLoop tokens heuristics now fuel c childIdx pos blocks recomputeAdvised

/-- `RadixCache::lookup_or_stage`. -/
def lookupOrStage (c : RadixCache) (tokens : List Token) (heuristics : LookupHeuristics) :
    Option (LookupOutcome × RadixCache) := do
  let (now, c) := c.tick
  let (pos, blocks, recomputeAdvised, c) ←
    lookupOrStageLoop tokens heuristics now (c.walkFuel tokens) c root 0 [] false
  let matchedBlocks := (blocks.filter fun block => decide (block.hitKind ≠ .miss)).length
  let matchedLen ← c.roundedPrefixLen pos matchedBlocks
  some (⟨matchedLen, blocks, recomputeAdvised⟩, c)

/-- The walk of `RadixCache::lookup_session_prefix_or_stage`, which writes nothing: the
nodes with a block and their depths, and the number of blocks and of tokens that lead to
the deepest block of the session. -/
def sessionLoop (c : RadixCache) (sessionId : SessionId) (tokens : List Token) :
    Nat → Nat → Nat → List (Nat × Nat) → Nat → Nat → Option (List (Nat × Nat) × Nat × Nat)
  | 0, _, _, _, _, _ => none
  | fuel + 1, nodeIdx, pos, matchedNodes, lastCount, lastPos => do
    match ← c.descend nodeIdx (tokens.drop pos) with
    | none => some (matchedNodes, lastCount, lastPos)
    | some (childIdx, matchLen) => do
      let pos := pos + matchLen
      let child ← c.nodes[childIdx]?
      if child.blockId.isSome then
        let matchedNodes := matchedNodes ++ [(childIdx, pos)]
        if child.sessionId = some sessionId then
          sessionLoop c sessionId tokens fuel childIdx pos matchedNodes matchedNodes.length pos
        else sessionLoop c sessionId tokens fuel childIdx pos matchedNodes lastCount lastPos
      else if child.isTombstone then some (matchedNodes, lastCount, lastPos)
      else sessionLoop c sessionId tokens fuel childIdx pos matchedNodes lastCount lastPos

/-- The loop of `RadixCache::lookup_session_prefix_or_stage` over the matched nodes. -/
def stageNodesLoop (heuristics : LookupHeuristics) (now : Nat) :
    List (Nat × Nat) → RadixCache → List LookupBlock → Bool →
      Option (List LookupBlock × Bool × RadixCache)
  | [], c, blocks, recomputeAdvised => some (blocks, recomputeAdvised, c)
  | (nodeIdx, _) :: rest, c, blocks, recomputeAdvised => do
    let c ← c.modifyNode nodeIdx (Node.touch now)
    let child ← c.nodes[nodeIdx]?
    match child.blockId with
    | none => some (blocks ++ [⟨none, .miss⟩], recomputeAdvised, c)
    | some blockId => do
      let c ← c.modifyNode nodeIdx (Node.hit now c.softPinKeepaliveTicks)
      let hitKind := classifyHit child.tierLocation child.entryState
      let advised := heuristics.adviseRecompute hitKind c.blockSize
        (max child.byteLen (c.blockSize % 2 ^ 32))
      stageNodesLoop heuristics now rest c (blocks ++ [⟨some blockId, hitKind⟩])
        (recomputeAdvised || advised)

/-- `RadixCache::lookup_session_prefix_or_stage`. -/
def lookupSessionPrefixOrStage (c : RadixCache) (sessionId : SessionId) (tokens : List Token)
    (heuristics : LookupHeuristics) : Option (LookupOutcome × RadixCache) := do
  let (matchedNodes, lastCount, lastPos) ←
    c.sessionLoop sessionId tokens (c.walkFuel tokens) root 0 [] 0 0
  if lastCount = 0 then some (⟨0, [], false⟩, c)
  else
    let matchedLen ← c.roundedPrefixLen lastPos lastCount
    let blockCount := matchedLen / c.blockSize
    if blockCount = 0 then some (⟨0, [], false⟩, c)
    else
      let (now, c) := c.tick
      let (blocks, recomputeAdvised, c) ←
        stageNodesLoop heuristics now (matchedNodes.take blockCount) c [] false
      let matchedBlocks := (blocks.filter fun block => decide (block.hitKind ≠ .miss)).length
      let matchedLen ← c.roundedPrefixLen matchedLen matchedBlocks
      some (⟨matchedLen, blocks, recomputeAdvised⟩, c)

/-! ## Retagging and metadata -/

/-- `RadixCache::retag_block`. -/
def retagBlock (c : RadixCache) (old new : BlockId) : Bool × RadixCache :=
  if old = new then ((c.blockIndex.lookup old).isSome, c)
  else if (c.blockIndex.lookup new).isSome then (false, c)
  else
    match c.blockIndex.lookup old with
    | none => (false, c)
    | some idx =>
      let removed := c.blockIndex.erase old
      match c.nodes[idx]? with
      | none => (false, { c with blockIndex := removed })
      | some node =>
        if node.blockId ≠ some old then
          (false, { c with blockIndex := removed.insert old idx })
        else
          (true, { c with
            nodes := c.nodes.set idx { node with blockId := some new }
            blockIndex := removed.insert new idx })

/-- Write the node that `block_index` names for a block (`find_block_node_mut`); the result
says whether there is one. -/
def updateBlock (c : RadixCache) (block : BlockId) (f : Node → Node) : Bool × RadixCache :=
  match (c.blockIndex.lookup block).bind fun idx => c.modifyNode idx f with
  | some c' => (true, c')
  | none => (false, c)

/-- A metadata update; the outer `none` leaves a field untouched. -/
structure BlockMetadataUpdate where
  location : Option BlockLocation := none
  byteLen : Option Nat := none
  sessionId : Option (Option SessionId) := none
  hostSwapEligible : Option Bool := none
  softPinUntil : Option (Option Nat) := none
  hostSpillPinUntil : Option (Option Nat) := none
  entryState : Option IndexEntryState := none

/-- Stamp a location; a location outside the host pool clears the spill pin. -/
def stampLocation (location : BlockLocation) (node : Node) : Node :=
  { node with
    tierLocation := some location
    hostSpillPinUntil :=
      match location with
      | .hostPinned _ => node.hostSpillPinUntil
      | _ => none }

/-- The node that an update makes of a node, field by field in the order of the source. -/
def BlockMetadataUpdate.apply (update : BlockMetadataUpdate) (node : Node) : Node :=
  let node := match update.location with
    | some location => stampLocation location node
    | none => node
  { node with
    byteLen := update.byteLen.getD node.byteLen
    sessionId := update.sessionId.getD node.sessionId
    hostSwapEligible := update.hostSwapEligible.getD node.hostSwapEligible
    softPinUntil := update.softPinUntil.getD node.softPinUntil
    hostSpillPinUntil := update.hostSpillPinUntil.getD node.hostSpillPinUntil
    entryState := update.entryState.getD node.entryState }

def updateBlockMetadata (c : RadixCache) (block : BlockId) (update : BlockMetadataUpdate) :
    Bool × RadixCache := c.updateBlock block update.apply

def setBlockLocation (c : RadixCache) (block : BlockId) (location : BlockLocation) :
    Bool × RadixCache := c.updateBlock block (stampLocation location)

def setBlockByteLen (c : RadixCache) (block : BlockId) (byteLen : Nat) : Bool × RadixCache :=
  c.updateBlock block fun node => { node with byteLen := byteLen }

def setBlockSessionId (c : RadixCache) (block : BlockId) (sessionId : Option SessionId) :
    Bool × RadixCache := c.updateBlock block fun node => { node with sessionId := sessionId }

def setBlockSoftPinUntil (c : RadixCache) (block : BlockId) (deadline : Option Nat) :
    Bool × RadixCache := c.updateBlock block fun node => { node with softPinUntil := deadline }

def setBlockHostSpillPinUntil (c : RadixCache) (block : BlockId) (deadline : Option Nat) :
    Bool × RadixCache :=
  c.updateBlock block fun node => { node with hostSpillPinUntil := deadline }

def setBlockIndexState (c : RadixCache) (block : BlockId) (entryState : IndexEntryState) :
    Bool × RadixCache := c.updateBlock block fun node => { node with entryState := entryState }

def setBlockStoreState (c : RadixCache) (block : BlockId) (storeState : StoreState) :
    Bool × RadixCache := c.updateBlock block fun node => { node with storeState := storeState }

/-- `RadixCache::bump_soft_pin`: only a block that already has a soft pin is bumped. -/
def bumpSoftPin (c : RadixCache) (block : BlockId) (ticksAhead : Nat) : Bool × RadixCache :=
  let deadline := Word.saturatingAdd 64 c.clock ticksAhead
  match (c.blockIndex.lookup block).bind fun idx => c.nodes[idx]? with
  | some node =>
    if node.softPinUntil.isSome then
      c.updateBlock block fun node => { node with softPinUntil := some deadline }
    else (false, c)
  | none => (false, c)

/-- A snapshot of the metadata of one block. -/
structure BlockMetadata where
  location : Option BlockLocation
  byteLen : Nat
  sessionId : Option SessionId
  hostSwapEligible : Bool
  fingerprint : Option BlockFingerprint
  softPinUntil : Option Nat
  hostSpillPinUntil : Option Nat
  entryState : IndexEntryState
  storeState : StoreState
  hitCount : Nat
  refCount : Nat
deriving DecidableEq

/-- `RadixCache::block_metadata`. -/
def blockMetadata (c : RadixCache) (block : BlockId) : Option BlockMetadata := do
  let idx ← c.blockIndex.lookup block
  let node ← c.nodes[idx]?
  some {
    location := node.tierLocation
    byteLen := node.byteLen
    sessionId := node.sessionId
    hostSwapEligible := node.hostSwapEligible
    fingerprint := node.fingerprint
    softPinUntil := node.softPinUntil
    hostSpillPinUntil := node.hostSpillPinUntil
    entryState := node.entryState
    storeState := node.storeState
    hitCount := node.hitCount
    refCount := node.refCount }

end Arle.PrefixCache.RadixCache
