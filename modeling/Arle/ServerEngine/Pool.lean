import Mathlib
import Arle.Lib.Assoc
import Arle.Lib.Run
import Arle.Lib.Text
import Arle.Lib.Word

/-!
# The engine pool

Engines are loaded on demand under a memory budget and evicted when they are idle. A checkout
gives a lease, which shares two cells with the entry of the engine: the time of the last use and
the number of active requests. The cells are in a heap, since a lease that is dropped changes
them without the pool.
-/

namespace Arle.ServerEngine

inductive EnginePoolModelType
  | textGeneration
  | embedding
  | reranker
deriving DecidableEq, Repr

def EnginePoolModelType.asStr : EnginePoolModelType → String
  | .textGeneration => "text-generation"
  | .embedding => "embedding"
  | .reranker => "reranker"

/-- A model of the configuration. A duration is a number of nanoseconds. -/
structure EnginePoolModelSpec where
  id : String
  modelPath : String
  aliases : List String
  modelType : EnginePoolModelType
  pinned : Bool
  ttl : Option Nat
  memoryEstimateBytes : Option Nat
deriving DecidableEq, Repr

namespace EnginePoolModelSpec

def allNames (spec : EnginePoolModelSpec) : List String := spec.id :: spec.aliases

/-- The bytes that the model counts for in the budget. -/
def estimate (spec : EnginePoolModelSpec) : Nat := spec.memoryEstimateBytes.getD 0

end EnginePoolModelSpec

structure EnginePoolConfig where
  models : List EnginePoolModelSpec
  memoryBudgetBytes : Option Nat

/-- A loaded engine; `cells` is the address of the two cells that its leases share. -/
structure EnginePoolEntry (E : Type) where
  engine : E
  spec : EnginePoolModelSpec
  cells : Nat

structure EnginePool (E : Type) where
  specs : Assoc String EnginePoolModelSpec
  aliases : Assoc String String
  entries : Assoc String (EnginePoolEntry E)
  memoryBudgetBytes : Option Nat
  loadedEstimateBytes : Nat

structure EngineLease (E : Type) where
  modelId : String
  engine : E
  cells : Nat

/-- The cells that an entry shares with its leases. -/
structure LeaseCells where
  lastUsed : Nat
  activeRequests : Nat

/-- An error with its contexts, the outermost first. -/
abbrev ErrorChain := List String

namespace EnginePool

variable {E : Type}

/-- The names of one model, all of them new. -/
def insertNames : List String → List String → Except String (List String)
  | [], seen => .ok seen
  | name :: names, seen =>
    if name ∈ seen then
      .error s!"duplicate engine pool model id or alias `{name}`"
    else
      insertNames names (name :: seen)

/-- The maps of the pool after the rest of the models. -/
def insertModels : List EnginePoolModelSpec → List String →
    Assoc String EnginePoolModelSpec → Assoc String String →
    Except String (Assoc String EnginePoolModelSpec × Assoc String String)
  | [], _, specs, aliases => .ok (specs, aliases)
  | spec :: models, seen, specs, aliases =>
    match insertNames spec.allNames seen with
    | .error error => .error error
    | .ok seen =>
      insertModels models seen (specs.insert spec.id spec)
        (spec.aliases.foldl (fun aliases name => aliases.insert name spec.id) aliases)

def new (config : EnginePoolConfig) : Except String (EnginePool E) :=
  match insertModels config.models [] ∅ ∅ with
  | .error error => .error error
  | .ok maps => .ok {
      specs := maps.1
      aliases := maps.2
      entries := ∅
      memoryBudgetBytes := config.memoryBudgetBytes
      loadedEstimateBytes := 0 }

variable (self : EnginePool E)

def resolveModelId (model : String) : Option String :=
  let model := String.ofList (Str.trim model.toList)
  if self.specs.lookup model ≠ none then some model else self.aliases.lookup model

/-- Take the entry out and its estimate off the counter. -/
def remove (id : String) : EnginePool E :=
  match self.entries.lookup id with
  | none => self
  | some entry => { self with
      entries := self.entries.erase id
      loadedEstimateBytes := self.loadedEstimateBytes - entry.spec.estimate }

/-- Whether the entry may be unloaded. -/
def idle (cells : Nat → LeaseCells) (entry : EnginePoolEntry E) : Bool :=
  (cells entry.cells).activeRequests = 0 && !entry.spec.pinned

/-- An entry that may be evicted: its id, its last use and its estimate. -/
structure Candidate where
  id : String
  lastUsed : Nat
  estimate : Nat

/-- The idle entries in the order of the iteration, then by the last use. -/
def candidates (cells : Nat → LeaseCells) (order : List ((_ : String) × EnginePoolEntry E)) :
    List Candidate :=
  ((order.filter fun e => idle cells e.2).map fun e =>
    { id := e.1, lastUsed := (cells e.2.cells).lastUsed, estimate := e.2.spec.estimate }
  ).mergeSort fun a b => a.lastUsed ≤ b.lastUsed

/-- The shortest prefix of the candidates that frees enough. -/
def pickVictims (required : Nat) : List Candidate → List String → Nat → Option (List String)
  | [], _, _ => none
  | candidate :: rest, victims, freed =>
    let freed := Word.saturatingAdd 64 freed candidate.estimate
    let victims := victims ++ [candidate.id]
    if freed ≥ required then some victims else pickVictims required rest victims freed

/-- `order` is the order in which the map iterates over its entries. -/
def evictionPlan (cells : Nat → LeaseCells) (order : List ((_ : String) × EnginePoolEntry E))
    (incomingEstimate : Nat) : Except String (List String) :=
  match self.memoryBudgetBytes with
  | none => .ok []
  | some budget =>
    if budget < incomingEstimate then
      .error (s!"engine pool memory budget {budget} bytes cannot fit incoming " ++
        s!"{incomingEstimate} bytes")
    else
      let projected := Word.saturatingAdd 64 self.loadedEstimateBytes incomingEstimate
      if projected ≤ budget then
        .ok []
      else
        match pickVictims (projected - budget) (candidates cells order) [] 0 with
        | some victims => .ok victims
        | none =>
          .error (s!"engine pool memory budget {budget} bytes cannot fit incoming " ++
            s!"{incomingEstimate} bytes without unloading an active or pinned model")

def applyEvictions (victims : List String) : EnginePool E :=
  victims.foldl (fun pool victimId => pool.remove victimId) self

/-- What a checkout does before the loader: it finds the engine loaded, or it plans the
evictions that make room for it. -/
inductive Prepared
  | loaded (modelId : String)
  | planned (modelId : String) (spec : EnginePoolModelSpec) (victims : List String)

/-- `checkout_with_loader` up to the evictions. -/
def prepareCheckout (cells : Nat → LeaseCells)
    (order : List ((_ : String) × EnginePoolEntry E)) (model : String) :
    Except String Prepared :=
  match self.resolveModelId model with
  | none => .error s!"engine pool model `{model}` is not configured"
  | some modelId =>
    match self.specs.lookup modelId with
    | none => .error "resolved engine pool model is missing its spec"
    | some spec =>
      if spec.modelType ≠ .textGeneration then
        .error (s!"{spec.modelType.asStr} model `{spec.id}` is a configured control-plane " ++
          "stub, not a text-generation engine")
      else if self.entries.lookup modelId ≠ none then
        .ok (.loaded modelId)
      else
        match self.evictionPlan cells order spec.estimate with
        | .error error => .error error
        | .ok victims => .ok (.planned modelId spec victims)

def unloadIdle (cells : Nat → LeaseCells) (model : String) :
    Except String Bool × EnginePool E :=
  match self.resolveModelId model with
  | none => (.ok false, self)
  | some modelId =>
    match self.entries.lookup modelId with
    | none => (.ok false, self)
    | some entry =>
      if (cells entry.cells).activeRequests ≠ 0 then
        (.error s!"cannot unload active engine pool model `{modelId}`", self)
      else if entry.spec.pinned then
        (.error s!"cannot unload pinned engine pool model `{modelId}`", self)
      else
        (.ok true, self.remove modelId)

/-- Whether an entry has been idle for its time to live. -/
def expired (cells : Nat → LeaseCells) (now : Nat) (entry : EnginePoolEntry E) : Bool :=
  match entry.spec.ttl with
  | none => false
  | some ttl => idle cells entry && ttl ≤ now - (cells entry.cells).lastUsed

def unloadExpired (cells : Nat → LeaseCells) (order : List ((_ : String) × EnginePoolEntry E))
    (now : Nat) : List String × EnginePool E :=
  let ids := (order.filter fun e => expired cells now e.2).map fun e => e.1
  (ids, ids.foldl (fun pool id => pool.remove id) self)

end EnginePool

end Arle.ServerEngine
