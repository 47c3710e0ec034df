import Arle.Lib.Slab

/-!
# The tensor store

`TensorStore` of `crates/autograd/src/tensor.rs`: tensors with a host buffer, a device buffer
or both, and the operations that move them. Values are elements of any type `F`, device
buffers are opaque handles of a type `H`; `Backend` is what the store uses of the backend.
Evaluating a lazy handle has no result and is left out, and so are the strides. A `HashSet` of
ids is a list of which only the members matter.
-/

namespace Arle.Autograd

abbrev TensorId := Nat

/-- Which copy of a tensor is current. -/
inductive Dirty
  | host
  | device
  | both
deriving DecidableEq, Repr

/-- The errors of the calls modelled, and `panicked` for a panic, which nothing catches. -/
inductive AutogradError
  | dataLengthMismatch (len : Nat) (shape : List Nat) (size : Nat)
  | invalidTensorId (id : TensorId)
  | shapeMismatch (expected got : List Nat)
  | gradientShapeMismatch (tensorId : TensorId) (expected got : List Nat)
  | invalidRank (got : Nat)
  | axisOutOfBounds (axis rank : Nat)
  | indexOutOfBounds (index upper : Nat)
  | invalidIndicesLen (expected got : Nat)
  | tapeInvariant (message : String)
  | panicked
deriving DecidableEq, Repr

abbrev Result := Except AutogradError

/-- `shape_size`; the empty shape is a scalar. -/
def shapeSize (shape : List Nat) : Nat := shape.prod

/-- The calls of the backend that the store makes. -/
structure Backend (F H : Type) where
  upload : List F → List Nat → H
  readback : H → List F
  addIntoDevice : H → H → List Nat → Result H
  prefersPreBackwardFlush : Bool

structure Tensor (F H : Type) where
  data : List F
  shape : List Nat
  size : Nat
  requiresGrad : Bool
  grad : Option TensorId
  deviceHandle : Option H
  dirty : Dirty
deriving DecidableEq

/-- `Tensor::new`. -/
def Tensor.new {F H : Type} (data : List F) (shape : List Nat) (requiresGrad : Bool) :
    Result (Tensor F H) :=
  if data.length ≠ shapeSize shape then
    .error (.dataLengthMismatch data.length shape (shapeSize shape))
  else
    .ok ⟨data, shape, shapeSize shape, requiresGrad, none, none, .host⟩

/-- `Tensor::clone`: a stale buffer is not copied. -/
def Tensor.clone {F H : Type} (tensor : Tensor F H) : Tensor F H :=
  { tensor with
    data := if tensor.dirty = .device then [] else tensor.data
    deviceHandle := if tensor.dirty = .host then none else tensor.deviceHandle }

/-- The buffer is on the device. -/
def Tensor.onDevice {F H : Type} (tensor : Tensor F H) : Option H :=
  if tensor.dirty ≠ .host then tensor.deviceHandle else none

/-- `for (dst, src) in existing.iter_mut().zip(incoming) { *dst += src }`. -/
def addAssign {F : Type} [Add F] : List F → List F → List F
  | dst :: existing, src :: incoming => (dst + src) :: addAssign existing incoming
  | existing, _ => existing

/-- The tensors, by id; `alloc` and `get` are those of the slab. -/
abbrev TensorStore (F H : Type) := Slab (Tensor F H)

namespace TensorStore

variable {F H : Type}

/-- `tensor`. -/
def tensor (store : TensorStore F H) (id : TensorId) : Result (Tensor F H) :=
  match store.get id with
  | some tensor => .ok tensor
  | none => .error (.invalidTensorId id)

/-- What a write through `raw_tensor_mut` leaves. -/
def setTensor (store : TensorStore F H) (id : TensorId) (tensor : Tensor F H) :
    TensorStore F H := store.put id tensor

/-- `free`. -/
def free (store : TensorStore F H) (id : TensorId) : Result (TensorStore F H) := do
  let _ ← store.tensor id
  return store.release id

/-- `retain_ids`. -/
def retainIds (store : TensorStore F H) (keep : List TensorId) : TensorStore F H :=
  store.retain keep

section Transfer

variable (backend : Backend F H)

/-- `ensure_host`. -/
def ensureHost (store : TensorStore F H) (id : TensorId) : Result (TensorStore F H) := do
  let tensor ← store.tensor id
  if tensor.dirty ≠ .device then return store
  else
    match tensor.deviceHandle with
    | none => .error (.tapeInvariant "device-resident tensor missing device handle")
    | some handle =>
      return store.setTensor id { tensor with data := backend.readback handle, dirty := .both }

/-- The first part of `get_mut`, with `expect` on `ensure_host`. -/
def hostForWrite (store : TensorStore F H) (id : TensorId) : Result (TensorStore F H) :=
  match store.get id with
  | none => .ok store
  | some tensor =>
    if tensor.dirty = .device then
      match store.ensureHost backend id with
      | .ok store => .ok store
      | .error _ => .error .panicked
    else .ok store

/-- `get_mut`: the host copy becomes the only one. -/
def getMut (store : TensorStore F H) (id : TensorId) :
    Result (Option (Tensor F H) × TensorStore F H) := do
  let store ← store.hostForWrite backend id
  match store.get id with
  | none => return (none, store)
  | some tensor =>
    let tensor := { tensor with deviceHandle := none, dirty := .host }
    return (some tensor, store.setTensor id tensor)

/-- The ids of `ids` that `flush_to_host_batch` reads back, with their handles. -/
def toFlush (store : TensorStore F H) : List TensorId → Result (List (TensorId × H))
  | [] => .ok []
  | id :: ids => do
    let tensor ← store.tensor id
    if tensor.dirty ≠ .device then toFlush store ids
    else
      match tensor.deviceHandle with
      | none => .error (.tapeInvariant "device-resident tensor missing device handle")
      | some handle => return (id, handle) :: (← toFlush store ids)

/-- The second loop of `flush_to_host_batch`. -/
def flushLoop (store : TensorStore F H) : List (TensorId × H) → Result (TensorStore F H)
  | [] => .ok store
  | (id, handle) :: rest => do
    let tensor ← store.tensor id
    flushLoop
      (store.setTensor id { tensor with data := backend.readback handle, dirty := .both }) rest

/-- `flush_to_host_batch`. -/
def flushToHostBatch (store : TensorStore F H) (ids : List TensorId) :
    Result (TensorStore F H) := do
  store.flushLoop backend (← store.toFlush ids)

/-- `ensure_device`. -/
def ensureDevice (store : TensorStore F H) (id : TensorId) : Result (TensorStore F H) := do
  let tensor ← store.tensor id
  if tensor.deviceHandle.isSome ∧ tensor.dirty ≠ .host then return store
  else
    let handle := backend.upload tensor.data tensor.shape
    return store.setTensor id { tensor with deviceHandle := some handle, dirty := .both }

/-- `to_host`. -/
def toHost (store : TensorStore F H) (id : TensorId) : Result (List F × TensorStore F H) := do
  let store ← store.ensureHost backend id
  let tensor ← store.tensor id
  return (tensor.data, store)

/-- `replace_device_handle`. -/
def replaceDeviceHandle (store : TensorStore F H) (id : TensorId) (handle : H) :
    Result (TensorStore F H) := do
  let tensor ← store.tensor id
  return store.setTensor id
    { tensor with deviceHandle := some handle, dirty := .device, data := [] }

/-- `set_grad`. -/
def setGrad (store : TensorStore F H) (id : TensorId) (grad : Option TensorId) :
    Result (TensorStore F H) := do
  let tensor ← store.tensor id
  return store.setTensor id { tensor with grad := grad }

/-- `tensor_host`. -/
def tensorHost (store : TensorStore F H) (id : TensorId) :
    Result (Tensor F H × TensorStore F H) := do
  let store ← store.ensureHost backend id
  let tensor ← store.tensor id
  return (tensor.clone, store)

/-- `clone_tensor`. -/
def cloneTensor (store : TensorStore F H) (id : TensorId) :
    Result (TensorId × TensorStore F H) := do
  let source ← store.tensor id
  if source.dirty = .device then return store.alloc { source with data := [] }
  else do
    let (tensor, store) ← store.tensorHost backend id
    return store.alloc tensor

/-- `fill_like`. -/
def fillLike (store : TensorStore F H) (id : TensorId) (value : F) :
    Result (TensorId × TensorStore F H) := do
  let source ← store.tensor id
  let tensor ← Tensor.new (List.replicate source.size value) source.shape false
  return store.alloc tensor

/-- Add the tensor `incoming` to the tensor `existing`, on the device when both are there: what
`accumulate_grad` and `merge_grad` do with a second gradient. -/
def addInto [Add F] (store : TensorStore F H) (shape : List Nat) (existing incoming : TensorId) :
    Result (TensorStore F H) := do
  let existingTensor ← store.tensor existing
  let incomingTensor ← store.tensor incoming
  match existingTensor.onDevice, incomingTensor.onDevice with
  | some existingHandle, some incomingHandle =>
    let sum ← backend.addIntoDevice existingHandle incomingHandle shape
    store.replaceDeviceHandle existing sum
  | _, _ => do
    let (incomingData, store) ← store.toHost backend incoming
    match ← store.getMut backend existing with
    | (none, _) => .error (.invalidTensorId existing)
    | (some tensor, store) =>
      return store.setTensor existing { tensor with data := addAssign tensor.data incomingData }

/-- `accumulate_grad`. -/
def accumulateGrad [Add F] (store : TensorStore F H) (paramId gradId : TensorId) :
    Result (TensorStore F H) := do
  let param ← store.tensor paramId
  if param.requiresGrad = false then return store
  else do
    let grad ← store.tensor gradId
    if param.shape ≠ grad.shape then
      .error (.gradientShapeMismatch paramId param.shape grad.shape)
    else
      match param.grad with
      | some existingId => store.addInto backend param.shape existingId gradId
      | none => do
        let (clonedGradId, store) ← store.cloneTensor backend gradId
        store.setGrad paramId (some clonedGradId)

end Transfer

end TensorStore

end Arle.Autograd
