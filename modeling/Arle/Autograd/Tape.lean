import Arle.Autograd.Tensor

/-!
# The tape

`crates/autograd/src/tape.rs`: the operations record what they computed from what, and `backward`
walks the record from the loss to the leaves, adds up the gradients and leaves them with the
tensors. `ops` is the table of the operations' backward functions; the tape is switched off while
they run, so they record nothing. Profiles are left out.
-/

namespace Arle.Autograd

inductive SavedContext (F : Type)
  | none
  | tensor (id : TensorId)
  | tensors (ids : List TensorId)
  | tensorAndScalar (id : TensorId) (k : F)
  | shape (shape : List Nat)
  | matmulCtx (a b : TensorId)
  | matmulBTCtx (a b : TensorId) (site : String)
  | softmaxCtx (y : TensorId)
  | logSoftmaxCtx (y : TensorId)
  | gatherCtx (indices srcShape : List Nat)
  | meanCtx (input : TensorId) (numel : Nat)
  | rmsNormCtx (x weight : TensorId) (invRms : List F) (eps : F)
  | siluCtx (x : TensorId)
  | sigmoidCtx (y : TensorId)
  | geluCtx (x : TensorId)
  | ropeCtx (cos sin : TensorId)
  | reshapeCtx (inputShape : List Nat)
  | sliceCtx (inputShape starts ends : List Nat)
  | transposeCtx (axis1 axis2 : Nat)
  | addBroadcastCtx (aShape bShape : List Nat)
  | embeddingCtx (indices tableShape : List Nat)
  | linearAttentionCtx (qkv z bProj aProj conv1dWeight dtBias aLog normWeight : TensorId)
      (batch seqLen numKeyHeads numValueHeads keyDim valueDim convKernel : Nat) (eps : F)

inductive BackwardOp
  | add
  | mul
  | mulScalar
  | exp
  | sum
  | matmul
  | matmulBT
  | softmax
  | logSoftmax
  | gather
  | mean
  | rmsNorm
  | silu
  | sigmoid
  | gelu
  | rope
  | reshape
  | slice
  | transpose
  | addBroadcast
  | embedding
  | linearAttention
deriving DecidableEq, Repr

structure TapeEntry (F : Type) where
  op : BackwardOp
  outputId : TensorId
  inputIds : List TensorId
  saved : SavedContext F

/-- The tensors that get a gradient, with the tensors that hold it. -/
abbrev GradPairs := List (TensorId × TensorId)

/-- A map of tensors to the tensors that hold their gradients. -/
abbrev Grads := TensorId → Option TensorId

structure Tape (F : Type) where
  entries : List (TapeEntry F)
  enabled : Bool

namespace Tape

variable {F H : Type}

def new : Tape F := ⟨[], true⟩

def record (self : Tape F) (entry : TapeEntry F) : Tape F :=
  if self.enabled then { self with entries := self.entries ++ [entry] } else self

def setEnabled (self : Tape F) (enabled : Bool) : Tape F := { self with enabled := enabled }

/-- `entry_by_output`: a later entry replaces an earlier one. -/
def entryByOutput (entries : List (TapeEntry F)) : TensorId → Option Nat :=
  entries.zipIdx.foldl (fun map (entry, index) => Function.update map entry.outputId (some index))
    fun _ => none

/-- What `collect_relevant` collects. -/
structure Relevant where
  relevantTensors : List TensorId
  visitedOutputs : List TensorId
  postOrder : List Nat

/-- `collect_relevant`, to a depth of at most `fuel`; `none` says that it goes deeper. -/
def collectRelevant (entries : List (TapeEntry F)) : Nat → TensorId → Relevant → Option Relevant
  | 0, _, _ => none
  | fuel + 1, tensorId, state =>
    let state := { state with relevantTensors := tensorId :: state.relevantTensors }
    match entryByOutput entries tensorId with
    | none => some state
    | some entryIndex =>
      match entries[entryIndex]? with
      | none => none
      | some entry =>
        if entry.outputId ∈ state.visitedOutputs then some state
        else
          (entry.inputIds.foldlM (fun state inputId => collectRelevant entries fuel inputId state)
            { state with visitedOutputs := entry.outputId :: state.visitedOutputs }).map
              fun state => { state with postOrder := state.postOrder ++ [entryIndex] }

section Backward

variable [Add F] (backend : Backend F H)

/-- The first part of `merge_grad`: the gradient joins those that have come in. -/
def mergeInto (grads : Grads) (tensorId newGradId : TensorId) (store : TensorStore F H) :
    Result (Grads × TensorStore F H) :=
  match grads tensorId with
  | some existingGradId => do
    let existing ← store.tensor existingGradId
    let incoming ← store.tensor newGradId
    if existing.shape ≠ incoming.shape then
      .error (.gradientShapeMismatch tensorId existing.shape incoming.shape)
    else
      let store ← store.addInto backend existing.shape existingGradId newGradId
      return (grads, store)
  | none => do
    let (clonedGradId, store) ← store.cloneTensor backend newGradId
    return (Function.update grads tensorId (some clonedGradId), store)

/-- `accumulate_grad` for a tensor that requires a gradient. -/
def accumulateIfRequired (tensorId gradId : TensorId) (store : TensorStore F H) :
    Result (TensorStore F H) :=
  if (store.get tensorId).any Tensor.requiresGrad then
    store.accumulateGrad backend tensorId gradId
  else .ok store

/-- `merge_grad`. -/
def mergeGrad (grads : Grads) (tensorId newGradId : TensorId) (store : TensorStore F H) :
    Result (Grads × TensorStore F H) := do
  let (grads, store) ← mergeInto backend grads tensorId newGradId store
  let store ← accumulateIfRequired backend tensorId newGradId store
  return (grads, store)

/-- The loop of `backward` over the gradients of one operation. -/
def mergeGrads (state : Grads × TensorStore F H) (inputGrads : GradPairs) :
    Result (Grads × TensorStore F H) :=
  inputGrads.foldlM (fun (grads, store) (inputId, gradId) =>
    mergeGrad backend grads inputId gradId store) state

variable (ops : BackwardOp → TapeEntry F → TensorId → TensorStore F H →
  Result (GradPairs × TensorStore F H))

/-- One round of the loop of `backward` over the entries. -/
def backwardEntry (state : Grads × TensorStore F H) (entry : TapeEntry F) :
    Result (Grads × TensorStore F H) :=
  match state.1 entry.outputId with
  | none => .ok state
  | some outputGradId => do
    let (inputGrads, store) ← ops entry.op entry outputGradId state.2
    mergeGrads backend (state.1, store) inputGrads

/-- The gradient that `backward` starts with. -/
def seedGrads [One F] (lossId : TensorId) (store : TensorStore F H) :
    Result (Grads × TensorStore F H) := do
  let (lossGradId, store) ← store.fillLike lossId 1
  let store ← store.ensureDevice backend lossGradId
  let store ← accumulateIfRequired backend lossId lossGradId store
  return (Function.update (fun _ => none) lossId (some lossGradId), store)

/-- `post_order`; the recursion goes no deeper than there are entries. -/
def postOrder (self : Tape F) (lossId : TensorId) : Option (List Nat) :=
  (collectRelevant self.entries (self.entries.length + 1) lossId ⟨[], [], []⟩).map
    Relevant.postOrder

/-- The outputs that are on the device only are read back, if the backend prefers that. -/
def flushOutputs (self : Tape F) (store : TensorStore F H) : Result (TensorStore F H) :=
  let deviceIds := (self.entries.filter fun entry =>
    (store.get entry.outputId).any fun tensor => tensor.dirty = .device).map TapeEntry.outputId
  if backend.prefersPreBackwardFlush then store.flushToHostBatch backend deviceIds else .ok store

/-- `backward_impl`. -/
def backward [One F] (self : Tape F) (lossId : TensorId) (store : TensorStore F H) :
    Result (Grads × TensorStore F H) := do
  let store ← self.flushOutputs backend store
  match self.postOrder lossId with
  | none => .error .panicked
  | some postOrder => do
    let state ← seedGrads backend lossId store
    (postOrder.reverse.filterMap fun entryIndex => self.entries[entryIndex]?).foldlM
      (backwardEntry backend ops) state

end Backward

end Tape

/-- `extend_keep_with_params_and_grads`. -/
def extendKeepWithParamsAndGrads {F H : Type} (keep params : List TensorId)
    (store : TensorStore F H) : List TensorId :=
  params.foldl (fun keep paramId =>
    match (store.get paramId).bind Tensor.grad with
    | some gradId => keep ++ [paramId, gradId]
    | none => keep ++ [paramId]) keep

/-- `cleanup_after_backward`. -/
def cleanupAfterBackward {F H : Type} (store : TensorStore F H) (tape : Tape F)
    (params keepExtra : List TensorId) : TensorStore F H × Tape F :=
  (store.retainIds (extendKeepWithParamsAndGrads keepExtra params store),
    { tape with entries := [], enabled := true })

end Arle.Autograd
