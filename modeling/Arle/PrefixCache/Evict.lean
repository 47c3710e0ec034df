import Arle.PrefixCache.Lookup
import Arle.Scheduler.Policy

/-!
# Eviction and reclamation

`evict`, `evict_with_policy_for_intent_excluding` and `gc_orphan_tombstones`. Both
evictions are one loop over victims that differ in how the next victim is chosen. A hash
set of node indices is the list of its elements; the reclaimed set is sorted before use,
so it is read back as the indices of the vector that belong to it.
-/

namespace Arle.PrefixCache.RadixCache

open KvTier Scheduler

/-- What a selection is for. -/
inductive BlockSelectionIntent
  | evict
  | spill
  | drain
deriving DecidableEq, Repr

def pinActive (deadline : Option Nat) (now : Nat) : Bool := deadline.any fun d => decide (d > now)

/-- `RadixCache::selection_pin_active`. -/
def selectionPinActive (node : Node) (tierFilter : Option Tier) (intent : BlockSelectionIntent)
    (now : Nat) : Bool :=
  match intent with
  | .evict => pinActive node.softPinUntil now
  | .spill =>
    match tierFilter with
    | some .hostPinned => pinActive node.hostSpillPinUntil now
    | _ => pinActive node.softPinUntil now
  | .drain => false

/-- A tier filter accepts a location in its tier; no filter accepts everything. -/
def tierAccepts (tierFilter : Option Tier) (location : Option KvTier.BlockLocation) : Bool :=
  match tierFilter with
  | none => true
  | some tier => decide (location.map KvTier.BlockLocation.tier = some tier)

/-- `RadixCache::node_matches_tier_filter`. -/
def nodeMatchesTierFilter (c : RadixCache) (idx : Nat) (tierFilter : Option Tier) : Bool :=
  match c.nodes[idx]? with
  | none => false
  | some node => node.blockId.isSome && tierAccepts tierFilter node.tierLocation

/-- `RadixCache::subtree_has_unselected_block_in_tier`. The fuel bounds the depth of the
recursion, which in a tree is below the number of nodes. -/
def subtreeHasUnselectedBlockInTier (c : RadixCache) (tierFilter : Option Tier)
    (selected : List Nat) : Nat → Nat → Bool
  | 0, _ => true
  | fuel + 1, idx =>
    if idx ∈ selected then false
    else if c.nodeMatchesTierFilter idx tierFilter then true
    else
      match c.nodes[idx]? with
      | none => false
      | some node => (Assoc.values node.children).any fun childIdx =>
          c.subtreeHasUnselectedBlockInTier tierFilter selected fuel childIdx

/-- `RadixCache::node_is_active_leaf_for_tier`. -/
def nodeIsActiveLeafForTier (c : RadixCache) (idx : Nat) (tierFilter : Option Tier)
    (selected : List Nat) : Bool :=
  match c.nodes[idx]? with
  | none => false
  | some node => (Assoc.values node.children).all fun childIdx =>
      !c.subtreeHasUnselectedBlockInTier tierFilter selected (c.nodes.length + 1) childIdx

/-- The best candidate of a scan over the nodes: `better best new` says that the new
candidate replaces the best one. -/
def scanBest {κ : Type} (c : RadixCache) (key : Nat → Node → Option κ)
    (keep : κ → Nat → κ → Nat → Bool) : Option (κ × Nat) :=
  c.nodes.zipIdx.foldl
    (fun best p =>
      match key p.2 p.1 with
      | none => best
      | some k =>
        match best with
        | some (b, i) => if keep b i k p.2 then best else some (k, p.2)
        | none => some (k, p.2))
    none

/-- The candidate of `RadixCache::evict` at a node: its last access. -/
def lruCandidate (c : RadixCache) (evicted : List Nat) (idx : Nat) (node : Node) : Option Nat :=
  if idx = root ∨ idx ∈ evicted then none
  else if node.refCount ≠ 0 ∨ node.blockId.isNone then none
  else if c.nodeIsActiveLeafForTier idx none evicted then some node.lastAccess
  else none

/-- The next victim of `RadixCache::evict`: the first of the least recently used. -/
def lruVictim (c : RadixCache) (evicted : List Nat) : Option Nat :=
  (c.scanBest (c.lruCandidate evicted) fun best _ k _ => decide (best ≤ k)).map Prod.snd

/-- What the filtered eviction is asked for. -/
structure EvictRequest where
  policy : EvictionPolicy
  signals : SchedulerSignals
  tierFilter : Option Tier
  intent : BlockSelectionIntent
  excludedBlocks : Option (List BlockId)

/-- The checks of `evict_with_policy_for_intent_excluding` on one node before it looks at
the subtree below. -/
def mayEvict (c : RadixCache) (req : EvictRequest) (node : Node) : Bool :=
  match node.blockId with
  | none => false
  | some blockId =>
    !(req.excludedBlocks.any fun excluded => decide (blockId ∈ excluded)) &&
    decide (node.refCount = 0) &&
    tierAccepts req.tierFilter node.tierLocation &&
    !selectionPinActive node req.tierFilter req.intent c.clock &&
    decide (node.entryState = .ready) &&
    (decide (req.intent = .evict) || decide (node.storeState = .idle) ||
      decide (node.storeState = .failed))

/-- What the policy is told about a node. -/
def evictionCandidate (c : RadixCache) (node : Node) : EvictionCandidate where
  slot := match node.tierLocation with
    | some (.gpu slot) => slot
    | _ => 0
  tokens := c.blockSize % 2 ^ 32
  lastAccessStep := node.lastAccess
  hitCount := node.hitCount
  prefixDepth := node.tokens.length % 2 ^ 32
  pinned := false

/-- The candidate of `evict_with_policy_for_intent_excluding` at a node: its score. -/
def policyCandidate (c : RadixCache) (req : EvictRequest) (evicted : List Nat) (idx : Nat)
    (node : Node) : Option F32 :=
  if idx = root ∨ idx ∈ evicted then none
  else if c.mayEvict req node && c.nodeIsActiveLeafForTier idx req.tierFilter evicted then
    let score := req.policy.score (c.evictionCandidate node) req.signals
    if score.isFinite then some score else none
  else none

/-- The next victim of `evict_with_policy_for_intent_excluding`: the lowest score, and
the lowest index among equal scores. -/
def policyVictim (c : RadixCache) (req : EvictRequest) (evicted : List Nat) : Option Nat :=
  (c.scanBest (c.policyCandidate req evicted) fun best bestIdx k idx =>
    decide (F32.totalCmp best k = .lt) ||
      (decide (F32.totalCmp best k = .eq) && decide (bestIdx ≤ idx))).map Prod.snd

/-- Take the block of a victim out of its node and out of the index. -/
def takeBlock (c : RadixCache) (victim : Nat) : Option (BlockId × RadixCache) := do
  let node ← c.nodes[victim]?
  let bid ← node.blockId
  some (bid, { c with
    nodes := c.nodes.set victim { node with blockId := none }
    blockIndex := c.blockIndex.erase bid })

/-- The victim loop of both evictions. Every victim carries a block, so each round frees
one block and the rounds left are `n - freed.len()`. -/
def evictLoop (victim : RadixCache → List Nat → Option Nat) :
    Nat → RadixCache → List Nat → List BlockId → RadixCache × List Nat × List BlockId
  | 0, c, evicted, freed => (c, evicted, freed)
  | n + 1, c, evicted, freed =>
    match victim c evicted with
    | none => (c, evicted, freed)
    | some v =>
      match c.takeBlock v with
      | none => evictLoop victim n c (evicted ++ [v]) freed
      | some (bid, c) => evictLoop victim n c (evicted ++ [v]) (freed ++ [bid])

/-- Drop every child pointer into the set. -/
def detach (c : RadixCache) (gone : List Nat) : RadixCache :=
  { c with nodes := c.nodes.map fun node =>
      { node with children := node.children.retain fun _ childIdx => decide (childIdx ∉ gone) } }

/-- The test of `gc_orphan_tombstones` on one node. -/
def gcReclaims (reclaimable : List Nat) (node : Node) : Bool :=
  node.blockId.isNone && decide (node.refCount = 0) &&
    (Assoc.values node.children).all fun childIdx => decide (childIdx ∈ reclaimable)

/-- One scan of `gc_orphan_tombstones` over the slots after the root. -/
def gcScan (c : RadixCache) (reclaimable : List Nat) : List Nat :=
  c.nodes.zipIdx.foldl
    (fun reclaimable p =>
      if p.2 = root ∨ p.2 ∈ reclaimable then reclaimable
      else if gcReclaims reclaimable p.1 then reclaimable ++ [p.2]
      else reclaimable)
    reclaimable

/-- Scan until a scan finds nothing. Each useful scan adds a slot, so the number of nodes
bounds the scans. -/
def gcLoop (c : RadixCache) : Nat → List Nat → List Nat
  | 0, reclaimable => reclaimable
  | fuel + 1, reclaimable =>
    let next := c.gcScan reclaimable
    if next = reclaimable then reclaimable else gcLoop c fuel next

/-- The set that `gc_orphan_tombstones` reclaims, in increasing order. -/
def gcReclaimable (c : RadixCache) : List Nat :=
  let reclaimable := c.gcLoop (c.nodes.length + 1) []
  (List.range c.nodes.length).filter fun idx => decide (idx ∈ reclaimable)

/-- A reclaimed slot. -/
def reclaimSlot (node : Node) : Node :=
  { node with
    tokens := []
    blockId := none
    refCount := 0
    lastAccess := 0
    entryState := .ready
    storeState := .idle
    children := ∅ }

/-- `RadixCache::gc_orphan_tombstones`. -/
def gcOrphanTombstones (c : RadixCache) : RadixCache :=
  let reclaimed := c.gcReclaimable
  if reclaimed.isEmpty then c
  else
    let c := c.detach reclaimed
    { c with
      nodes := c.nodes.zipIdx.map fun p =>
        if p.2 ∈ reclaimed then reclaimSlot p.1 else p.1
      freeNodes := c.freeNodes ++ reclaimed }

/-- Both evictions: run the victim loop, detach the victims, reclaim the tombstones. -/
def evictBy (c : RadixCache) (victim : RadixCache → List Nat → Option Nat) (n : Nat) :
    List BlockId × RadixCache :=
  if n = 0 then ([], c)
  else
    let (c, evicted, freed) := evictLoop victim n c [] []
    (freed, (c.detach evicted).gcOrphanTombstones)

/-- `RadixCache::cached_block_count`. -/
def cachedBlockCount (c : RadixCache) : Nat :=
  (c.nodes.filter fun node => node.blockId.isSome).length

/-- `RadixCache::evict`. -/
def evict (c : RadixCache) (n : Nat) : List BlockId × RadixCache := c.evictBy lruVictim n

/-- `RadixCache::evict_with_policy_for_intent_excluding`. -/
def evictWithPolicyForIntentExcluding (c : RadixCache) (req : EvictRequest) (n : Nat) :
    List BlockId × RadixCache :=
  c.evictBy (fun c evicted => c.policyVictim req evicted) n

end Arle.PrefixCache.RadixCache
