import Mathlib
import Arle.Autograd.Tensor

/-!
# Layout operations on the host

The host paths of `crates/autograd/src/ops/layout.rs`, `broadcast.rs` and `gather.rs`, with the
reference functions of the backend that they call. The store and the tape are left out: a
forward pass is given the data and the shapes, and a backward pass what the tape has saved and
the gradient from above. A read or write out of range and a remainder by zero panic; the sizes
of arrays are natural numbers, and only the indices that are narrowed to 32 bits are words.
-/

namespace Arle.Autograd

/-! ## Arrays -/

section Arrays

variable {α F : Type}

/-- `data[i]`. -/
def index (data : List α) (i : Nat) : Result α :=
  match data[i]? with
  | some a => .ok a
  | none => .error .panicked

/-- `data[i] += value`. -/
def addAt [Add F] (data : List F) (i : Nat) (value : F) : Result (List F) := do
  let old ← index data i
  return data.set i (old + value)

/-- `slice::swap`. -/
def swapAt (data : List α) (i j : Nat) : Result (List α) := do
  let a ← index data i
  let b ← index data j
  return (data.set i b).set j a

/-- `contiguous_strides`, and `broadcast_strides`. -/
def contiguousStrides (shape : List Nat) : List Nat :=
  (shape.foldr (fun dim (state : Nat × List Nat) => (state.1 * dim, state.1 :: state.2)) (1, [])).2

/-- `linear_to_coords`. -/
def linearToCoords (linear : Nat) (shape : List Nat) : Result (List Nat) := do
  let state ← shape.foldrM (fun dim (state : Nat × List Nat) =>
    if dim = 0 then .error .panicked
    else .ok (state.1 / dim, state.1 % dim :: state.2)) (linear, [])
  return state.2

end Arrays

section Layout

variable {F : Type}

/-! ## Transposing -/

def transposeData (data : List F) (shape : List Nat) (axis1 axis2 : Nat) :
    Result (List F × List Nat) :=
  if axis1 ≥ shape.length then .error (.axisOutOfBounds axis1 shape.length)
  else if axis2 ≥ shape.length then .error (.axisOutOfBounds axis2 shape.length)
  else if axis1 = axis2 then .ok (data, shape)
  else do
    let outputShape ← swapAt shape axis1 axis2
    let inputStrides := contiguousStrides shape
    let output ← (List.range data.length).mapM fun outIndex => do
      let coords ← linearToCoords outIndex outputShape
      let coords ← swapAt coords axis1 axis2
      index data (List.zipWith (· * ·) coords inputStrides).sum
    return (output, outputShape)

/-! ## Slicing -/

def validateSliceBounds (shape starts ends : List Nat) : Result Unit := do
  if starts.length ≠ shape.length then
    throw (.invalidIndicesLen shape.length starts.length)
  if ends.length ≠ shape.length then
    throw (.invalidIndicesLen shape.length ends.length)
  ((starts.zip ends).zip shape).forM fun ((start, stop), dim) => do
    if start > stop then
      throw (.tapeInvariant "slice start must be <= end for every axis")
    if stop > dim then
      throw (.indexOutOfBounds stop dim)
    if start > dim then
      throw (.indexOutOfBounds start dim)

def sliceShape (starts ends : List Nat) : List Nat :=
  List.zipWith (fun start stop => stop - start) starts ends

/-- The place in the input of an entry of the slice. -/
def sliceIndex (starts inputStrides outCoords : List Nat) : Result Nat := do
  let terms ← outCoords.zipIdx.mapM fun (coord, axis) => do
    let start ← index starts axis
    let stride ← index inputStrides axis
    return (coord + start) * stride
  return terms.sum

def sliceData (data : List F) (shape starts ends : List Nat) : Result (List F × List Nat) := do
  validateSliceBounds shape starts ends
  let outputShape := sliceShape starts ends
  let inputStrides := contiguousStrides shape
  let output ← (List.range (shapeSize outputShape)).mapM fun outIndex => do
    let outCoords ← linearToCoords outIndex outputShape
    let inputIndex ← sliceIndex starts inputStrides outCoords
    index data inputIndex
  return (output, outputShape)

def sliceBackward [Zero F] [Add F] (inputShape starts ends : List Nat) (upstream : List F)
    (upstreamShape : List Nat) : Result (List F) :=
  let expectedShape := sliceShape starts ends
  if upstreamShape ≠ expectedShape then .error (.shapeMismatch expectedShape upstreamShape)
  else
    let inputStrides := contiguousStrides inputShape
    upstream.zipIdx.foldlM (fun grad (gradValue, outIndex) => do
      let outCoords ← linearToCoords outIndex upstreamShape
      let inputIndex ← sliceIndex starts inputStrides outCoords
      addAt grad inputIndex gradValue) (List.replicate (shapeSize inputShape) 0)

/-! ## Broadcasting -/

def validateBroadcast (aShape bShape : List Nat) : Result Unit := do
  if bShape.length > aShape.length then
    throw (.shapeMismatch aShape bShape)
  bShape.zipIdx.forM fun (dim, i) => do
    let target ← index aShape (aShape.length - bShape.length + i)
    if dim ≠ 1 ∧ dim ≠ target then
      throw (.shapeMismatch aShape bShape)

def broadcastOffset (outIndex : Nat) (outShape bShape : List Nat) : Result Nat :=
  if bShape = [] then .ok 0
  else do
    let coords ← linearToCoords outIndex outShape
    let rankOffset := outShape.length - bShape.length
    (contiguousStrides bShape).zipIdx.foldlM (fun offset (stride, i) => do
      let dim ← index bShape i
      let coord ← if dim = 1 then .ok 0 else index coords (rankOffset + i)
      return offset + coord * stride) 0

def cpuAddBroadcastForward [Add F] (a : List F) (aShape : List Nat) (b : List F)
    (bShape : List Nat) : Result (List F) := do
  validateBroadcast aShape bShape
  if a.length ≠ shapeSize aShape then
    throw (.dataLengthMismatch a.length aShape (shapeSize aShape))
  if b.length ≠ shapeSize bShape then
    throw (.dataLengthMismatch b.length bShape (shapeSize bShape))
  (List.range (shapeSize aShape)).mapM fun i => do
    let value ← index a i
    let offset ← broadcastOffset i aShape bShape
    return value + (← index b offset)

/-- The gradients of the operands that ask for one. -/
def addBroadcastBackward [Zero F] [Add F] (aShape bShape outputShape : List Nat)
    (aRequiresGrad bRequiresGrad : Bool) (upstream : List F) (upstreamShape : List Nat) :
    Result (Option (List F) × Option (List F)) :=
  if upstreamShape ≠ aShape then .error (.shapeMismatch aShape upstreamShape)
  else do
    let gradA := if aRequiresGrad then some upstream else none
    if bRequiresGrad then
      let gradB ← upstream.zipIdx.foldlM (fun gradB (gradValue, i) => do
        let offset ← broadcastOffset i outputShape bShape
        addAt gradB offset gradValue) (List.replicate (shapeSize bShape) 0)
      return (gradA, some gradB)
    else
      return (gradA, none)

/-! ## Gathering -/

/-- `n as i32`. -/
def asI32 (n : Nat) : Int := (n : Int).bmod (2 ^ 32)

/-- `id as usize`. -/
def asUsize (id : Int) : Nat := (id % 2 ^ 64).toNat

def cpuGatherLastDimForward [Zero F] (src : List F) (srcShape : List Nat) (ids : List Int) :
    Result (List F) :=
  match srcShape.getLast? with
  | none => .error (.invalidRank 0)
  | some vocab =>
    let rows := max srcShape.dropLast.prod 1
    if src.length ≠ srcShape.prod then .error (.shapeMismatch [srcShape.prod] [src.length])
    else if ids.length ≠ rows then .error (.invalidIndicesLen rows ids.length)
    else
      ids.zipIdx.foldlM (fun out (id, i) => do
        if id < 0 ∨ asUsize id ≥ vocab then throw (.indexOutOfBounds (asUsize id) vocab)
        let value ← index src (i * vocab + asUsize id)
        let _ ← index out i
        return out.set i value) (List.replicate rows 0)

def gatherLastDimHostEager [Zero F] (src : List F) (srcShape indices : List Nat) :
    Result (List F × List Nat) :=
  match srcShape.getLast? with
  | none => .error (.invalidRank 0)
  | some vocab => do
    let outputShape := srcShape.dropLast
    let rows := shapeSize outputShape
    if indices.length ≠ rows then throw (.invalidIndicesLen rows indices.length)
    indices.forM fun i => if i ≥ vocab then throw (.indexOutOfBounds i vocab) else pure ()
    let output ← cpuGatherLastDimForward src srcShape (indices.map asI32)
    return (output, outputShape)

def cpuScatterAddRowsForward [Zero F] [Add F] (upstream : List F) (rows featureDim : Nat)
    (indices : List Int) (vocab : Nat) : Result (List F) :=
  if upstream.length ≠ rows * featureDim then
    .error (.shapeMismatch [rows * featureDim] [upstream.length])
  else if indices.length ≠ rows then .error (.invalidIndicesLen rows indices.length)
  else
    indices.zipIdx.foldlM (fun out (id, row) =>
      if id < 0 then .ok out
      else if asUsize id ≥ vocab then .ok out
      else (List.range featureDim).foldlM (fun out col => do
        let value ← index upstream (row * featureDim + col)
        addAt out (asUsize id * featureDim + col) value) out)
      (List.replicate (vocab * featureDim) 0)

def gatherLastDimBackward [Zero F] [Add F] (indices srcShape : List Nat) (upstream : List F)
    (upstreamShape : List Nat) : Result (List F) :=
  match srcShape.getLast? with
  | none => .error .panicked
  | some vocab =>
    if upstreamShape ≠ srcShape.dropLast then
      .error (.shapeMismatch srcShape.dropLast upstreamShape)
    else
      let rows := indices.length
      let flatIds := indices.zipIdx.map fun (i, row) => asI32 (row * vocab + i)
      cpuScatterAddRowsForward upstream rows 1 flatIds (rows * vocab)

end Layout

end Arle.Autograd
