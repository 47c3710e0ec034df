import Arle.PrefixCache.Insert

/-!
# Snapshots and reconciliation

`save_snapshot`, `load_snapshot`, `rebuild_block_index` and `reconcile`. A snapshot holds
the fields that serde does not skip. The JSON encoding itself is a parameter: a codec from
snapshots to text and back, of which the theorems assume only that reading what was
written gives it back.
-/

namespace Arle.PrefixCache

open KvTier

/-- The persisted fields of a node. -/
structure NodeSnapshot where
  tokens : List Token
  blockId : Option BlockId
  hitCount : Nat
  tierLocation : Option BlockLocation
  sessionId : Option SessionId
  fingerprint : Option BlockFingerprint
  byteLen : Nat
  entryState : IndexEntryState
  storeState : StoreState
  children : Assoc Token Nat
deriving DecidableEq

/-- The persisted fields of a cache. -/
structure RadixCacheSnapshot where
  nodes : List NodeSnapshot
  freeNodes : List Nat
  blockSize : Nat
  softPinKeepaliveTicks : Option Nat
  namespaceTag : BitVec 256
deriving DecidableEq

def Node.save (node : Node) : NodeSnapshot where
  tokens := node.tokens
  blockId := node.blockId
  hitCount := node.hitCount
  tierLocation := node.tierLocation
  sessionId := node.sessionId
  fingerprint := node.fingerprint
  byteLen := node.byteLen
  entryState := node.entryState
  storeState := node.storeState
  children := node.children

/-- The skipped fields get their default values. -/
def NodeSnapshot.load (node : NodeSnapshot) : Node where
  tokens := node.tokens
  blockId := node.blockId
  refCount := 0
  lastAccess := 0
  hitCount := node.hitCount
  tierLocation := node.tierLocation
  sessionId := node.sessionId
  hostSwapEligible := false
  fingerprint := node.fingerprint
  byteLen := node.byteLen
  softPinUntil := none
  hostSpillPinUntil := none
  entryState := node.entryState
  storeState := node.storeState
  sparseDropped := false
  children := node.children

/-- A text encoding of snapshots (`serde_json`). -/
structure SnapshotCodec where
  toText : RadixCacheSnapshot → Except String String
  fromText : String → Except String RadixCacheSnapshot

/-- Reading a written snapshot gives it back. -/
def SnapshotCodec.RoundTrips (codec : SnapshotCodec) : Prop :=
  ∀ snap text, codec.toText snap = .ok text → codec.fromText text = .ok snap

/-- Why a snapshot is rejected. -/
inductive LoadError
  | deserialize (reason : String)
  | namespaceMismatch (expected got : BitVec 256)
deriving DecidableEq

namespace RadixCache

def toSnapshot (c : RadixCache) : RadixCacheSnapshot where
  nodes := c.nodes.map Node.save
  freeNodes := c.freeNodes
  blockSize := c.blockSize
  softPinKeepaliveTicks := c.softPinKeepaliveTicks
  namespaceTag := c.namespaceTag

/-- `RadixCache::save_snapshot`. -/
def saveSnapshot (codec : SnapshotCodec) (c : RadixCache) : Except String String :=
  codec.toText c.toSnapshot

/-- `RadixCache::load_snapshot`: the clock restarts and the block index is empty. -/
def loadSnapshot (codec : SnapshotCodec) (json : String) (expectedNamespace : BitVec 256) :
    Except LoadError RadixCache :=
  match codec.fromText json with
  | .error reason => .error (.deserialize reason)
  | .ok snap =>
    if snap.namespaceTag ≠ expectedNamespace then
      .error (.namespaceMismatch expectedNamespace snap.namespaceTag)
    else
      .ok {
        nodes := snap.nodes.map NodeSnapshot.load
        freeNodes := snap.freeNodes
        blockSize := snap.blockSize
        clock := 0
        softPinKeepaliveTicks := snap.softPinKeepaliveTicks
        blockIndex := ∅
        namespaceTag := snap.namespaceTag }

/-- `RadixCache::rebuild_block_index`. -/
def rebuildBlockIndex (c : RadixCache) : RadixCache :=
  { c with
    blockIndex := c.nodes.zipIdx.foldl
      (fun index p =>
        match p.1.blockId with
        | some bid => index.insert bid p.2
        | none => index)
      ∅ }

/-- Summary of a reconciliation. -/
structure ReconcileReport where
  remapped : Nat := 0
  tombstoned : Nat := 0
  orphansCleared : Nat := 0
deriving DecidableEq, Repr

/-- The block a node has after a reconciliation against `known`. -/
def reconciledBlock (known : BlockFingerprint → Option BlockId) (node : Node) :
    Option BlockId := node.fingerprint.bind known

/-- The report after one more node. -/
def ReconcileReport.count (known : BlockFingerprint → Option BlockId)
    (report : ReconcileReport) (node : Node) : ReconcileReport :=
  match node.fingerprint with
  | some fp =>
    match known fp with
    | some _ => { report with remapped := report.remapped + 1 }
    | none => { report with tombstoned := report.tombstoned + 1 }
  | none => { report with orphansCleared := report.orphansCleared + 1 }

/-- `RadixCache::reconcile`. -/
def reconcile (c : RadixCache) (known : BlockFingerprint → Option BlockId) :
    ReconcileReport × RadixCache :=
  let report := c.nodes.foldl (ReconcileReport.count known) {}
  let nodes := c.nodes.map fun node => { node with blockId := reconciledBlock known node }
  (report, { c with nodes := nodes }.rebuildBlockIndex)

end RadixCache

end Arle.PrefixCache
