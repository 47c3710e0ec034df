import Mathlib
import Arle.Autograd.Layout

/-!
# Attention

`causal_sdpa` and `causal_sdpa_with_q_start` of `crates/autograd/src/ops/attention.rs`, with the
operations they are made of, in the reference functions of the backend. The numbers are those of
an ordered field; those that may be minus infinity have a bottom element. The exponential and the
square root are parameters, and so is `sgemm` of the `matrixmultiply` library. A tensor is its
data and its shape; the store and the tape are left out.
-/

namespace Arle.Autograd

/-- A tensor on the host; its data fills its shape. -/
structure HostTensor (α : Type) where
  data : List α
  shape : List Nat
  length_data : data.length = shapeSize shape

namespace HostTensor

variable {α : Type}

/-- `Tensor::new`. -/
def new (data : List α) (shape : List Nat) : Result (HostTensor α) :=
  if h : data.length = shapeSize shape then .ok ⟨data, shape, h⟩
  else .error (.dataLengthMismatch data.length shape (shapeSize shape))

def reshape (x : HostTensor α) (shape : List Nat) : Result (HostTensor α) :=
  if shapeSize shape ≠ shapeSize x.shape then .error (.shapeMismatch x.shape shape)
  else new x.data shape

def transpose (x : HostTensor α) (axis1 axis2 : Nat) : Result (HostTensor α) := do
  let (data, shape) ← transposeData x.data x.shape axis1 axis2
  new data shape

def slice (x : HostTensor α) (starts ends : List Nat) : Result (HostTensor α) := do
  let (data, shape) ← sliceData x.data x.shape starts ends
  new data shape

end HostTensor

section Ops

variable {F : Type} [Field F]

/-! ## Products of matrices -/

/-- `matrixmultiply::sgemm` for contiguous row-major matrices with the factors one and zero: the
product of an `m × k` and a `k × n` matrix. -/
abbrev Sgemm (F : Type) := Nat → Nat → Nat → List F → List F → List F

/-- `&data[start..start + len]`. -/
def sliceAt {α : Type} (data : List α) (start len : Nat) : Result (List α) :=
  if start + len ≤ data.length then .ok ((data.drop start).take len) else .error .panicked

def saxpyNThreshold : Nat := 32768

/-- `sgemm_row_major`; `out` is zero. -/
def sgemmRowMajor (sgemm : Sgemm F) (m k n : Nat) (a b out : List F) : Result (List F) :=
  if m = 0 ∨ n = 0 ∨ k = 0 then .ok out
  else if m = 1 ∨ n < saxpyNThreshold then
    (List.range m).foldlM (fun out row =>
      (List.range k).foldlM (fun out inner => do
        let aValue ← index a (row * k + inner)
        (List.range n).foldlM (fun out col => do
          let bValue ← index b (inner * n + col)
          addAt out (row * n + col) (aValue * bValue)) out) out) out
  else .ok (sgemm m k n a b)

def matmulOutputShape (aShape bShape : List Nat) : Result (List Nat) :=
  match aShape, bShape with
  | [m, k], [k', n] => if k ≠ k' then .error (.shapeMismatch [k] [k']) else .ok [m, n]
  | [batch, m, k], [batch', k', n] =>
    if batch ≠ batch' then .error (.shapeMismatch [batch] [batch'])
    else if k ≠ k' then .error (.shapeMismatch [k] [k'])
    else .ok [batch, m, n]
  | _, _ => .error (.invalidRank (max aShape.length bShape.length))

/-- `cpu_matmul_forward`. Each batch writes its own part of the output. -/
def cpuMatmulForward (sgemm : Sgemm F) (a : List F) (aShape : List Nat) (b : List F)
    (bShape : List Nat) : Result (List F × List Nat) := do
  let outShape ← matmulOutputShape aShape bShape
  match aShape, bShape with
  | [m, k], [_, n] =>
    let out ← sgemmRowMajor sgemm m k n a b (List.replicate (m * n) 0)
    return (out, outShape)
  | [batch, m, k], [_, _, n] =>
    let parts ← (List.range batch).mapM fun batchIndex => do
      let aPart ← sliceAt a (batchIndex * (m * k)) (m * k)
      let bPart ← sliceAt b (batchIndex * (k * n)) (k * n)
      sgemmRowMajor sgemm m k n aPart bPart (List.replicate (m * n) 0)
    return (parts.flatten, outShape)
  | _, _ => .error (.invalidRank (max aShape.length bShape.length))

namespace HostTensor

def matmul (sgemm : Sgemm F) (a b : HostTensor F) : Result (HostTensor F) := do
  let (data, shape) ← cpuMatmulForward sgemm a.data a.shape b.data b.shape
  new data shape

def mulScalar (a : HostTensor F) (k : F) : Result (HostTensor F) :=
  new (a.data.map (· * k)) a.shape

def addBroadcast {α : Type} [Add α] (a b : HostTensor α) : Result (HostTensor α) := do
  let data ← cpuAddBroadcastForward a.data a.shape b.data b.shape
  new data a.shape

/-- The same numbers, none of them minus infinity. -/
def finite (a : HostTensor F) : HostTensor (WithBot F) :=
  ⟨a.data.map WithBot.some, a.shape, by rw [List.length_map, a.length_data]⟩

end HostTensor

/-! ## Softmax -/

section Softmax

variable [LinearOrder F] (exp : F → F)

/-- `(value - max_value).exp()`; minus infinity has no weight. -/
def expDiff : WithBot F → WithBot F → F
  | some value, some maxValue => exp (value - maxValue)
  | _, _ => 0

def softmaxRow (row : List (WithBot F)) : List F :=
  let maxValue := row.foldl max ⊥
  let denom := (row.map fun value => expDiff exp value maxValue).sum
  row.map fun value => expDiff exp value maxValue / denom

def cpuSoftmaxForwardLastAxis (x : List (WithBot F)) (shape : List Nat) : Result (List F) :=
  match shape.getLast? with
  | none => .error (.invalidRank 0)
  | some lastDim =>
    if lastDim = 0 then .error (.invalidRank 0)
    else
      let rows := x.length / lastDim
      .ok ((List.range rows).flatMap (fun row =>
        softmaxRow exp ((x.drop (row * lastDim)).take lastDim)) ++
          List.replicate (x.length % lastDim) 0)

def HostTensor.softmax (x : HostTensor (WithBot F)) : Result (HostTensor F) := do
  let data ← cpuSoftmaxForwardLastAxis exp x.data x.shape
  HostTensor.new data x.shape

end Softmax

/-! ## Masks -/

/-- `data[i] = value`. -/
def setAt {α : Type} (data : List α) (i : Nat) (value : α) : Result (List α) := do
  let _ ← index data i
  return data.set i value

def causalMask (seqLen : Nat) : Result (HostTensor (WithBot F)) := do
  let data ← (List.range seqLen).foldlM (fun data row =>
    (List.range' (row + 1) (seqLen - (row + 1))).foldlM (fun data col =>
      setAt data (row * seqLen + col) ⊥) data)
    (List.replicate (seqLen * seqLen) (0 : WithBot F))
  HostTensor.new data [1, seqLen, seqLen]

def causalMaskWindow (qLen kvLen qStart : Nat) : Result (HostTensor (WithBot F)) := do
  let data ← (List.range qLen).foldlM (fun data row =>
    let maxVisible := qStart + row
    (List.range' (maxVisible + 1) (kvLen - (maxVisible + 1))).foldlM (fun data col =>
      setAt data (row * kvLen + col) ⊥) data)
    (List.replicate (qLen * kvLen) (0 : WithBot F))
  HostTensor.new data [1, qLen, kvLen]

/-! ## Attention -/

def validateAttentionShapes (qShape kShape vShape : List Nat) : Result Unit :=
  match qShape, kShape, vShape with
  | [q0, q1, q2, q3], [k0, k1, k2, k3], [v0, v1, v2, v3] =>
    if q0 ≠ k0 ∨ q0 ≠ v0 then .error (.shapeMismatch qShape kShape)
    else if q1 ≠ k1 ∨ q1 ≠ v1 then .error (.shapeMismatch qShape kShape)
    else if q2 ≠ k2 ∨ q2 ≠ v2 then .error (.shapeMismatch qShape kShape)
    else if q3 ≠ k3 ∨ q3 ≠ v3 then .error (.shapeMismatch qShape kShape)
    else .ok ()
  | _, _, _ =>
    .error (.invalidRank (if qShape.length ≠ 4 then qShape.length
      else if kShape.length ≠ 4 then kShape.length else vShape.length))

def validateCachedAttentionShapes (qShape kShape vShape : List Nat) (qStart : Nat) :
    Result Unit :=
  match qShape, kShape, vShape with
  | [q0, q1, q2, q3], [k0, k1, k2, k3], [v0, v1, v2, v3] =>
    if q0 ≠ k0 ∨ q0 ≠ v0 then .error (.shapeMismatch qShape kShape)
    else if q1 ≠ k1 ∨ q1 ≠ v1 then .error (.shapeMismatch qShape kShape)
    else if q3 ≠ k3 ∨ q3 ≠ v3 then .error (.shapeMismatch qShape kShape)
    else if k2 ≠ v2 then .error (.shapeMismatch kShape vShape)
    else if qStart + q2 > k2 then .error (.shapeMismatch [qStart + q2] [k2])
    else .ok ()
  | _, _, _ =>
    .error (.invalidRank (if qShape.length ≠ 4 then qShape.length
      else if kShape.length ≠ 4 then kShape.length else vShape.length))

variable [LinearOrder F] (exp sqrt : F → F) (sgemm : Sgemm F)

/-- What both attentions do with tensors of the shapes they have checked; `mask` makes the masked
scores. -/
def attend (q k v : HostTensor F) (batch heads qLen kvLen headDim : Nat)
    (mask : HostTensor F → Result (HostTensor (WithBot F))) : Result (HostTensor F) := do
  let mergedHeads := batch * heads
  let q3d ← q.reshape [mergedHeads, qLen, headDim]
  let k3d ← k.reshape [mergedHeads, kvLen, headDim]
  let v3d ← v.reshape [mergedHeads, kvLen, headDim]
  let kT ← k3d.transpose 1 2
  let scores ← q3d.matmul sgemm kT
  let scaled ← scores.mulScalar (1 / sqrt (headDim : F))
  let masked ← mask scaled
  let probs ← masked.softmax exp
  let context ← probs.matmul sgemm v3d
  context.reshape [batch, heads, qLen, headDim]

def causalSdpa (q k v : HostTensor F) : Result (HostTensor F) := do
  validateAttentionShapes q.shape k.shape v.shape
  match q.shape with
  | [batch, heads, seqLen, headDim] =>
    attend exp sqrt sgemm q k v batch heads seqLen seqLen headDim fun scaled => do
      let mask ← causalMask seqLen
      scaled.finite.addBroadcast mask
  | _ => .error .panicked

def causalSdpaWithQStart (q k v : HostTensor F) (qStart : Nat) : Result (HostTensor F) := do
  validateCachedAttentionShapes q.shape k.shape v.shape qStart
  match q.shape, k.shape with
  | [batch, heads, qLen, headDim], [_, _, kvLen, _] =>
    if qStart = 0 ∧ qLen = kvLen then causalSdpa exp sqrt sgemm q k v
    else
      attend exp sqrt sgemm q k v batch heads qLen kvLen headDim fun scaled =>
        if qLen = 1 ∧ qStart + 1 = kvLen then .ok scaled.finite
        else do
          let mask ← causalMaskWindow qLen kvLen qStart
          scaled.finite.addBroadcast mask
  | _, _ => .error .panicked

end Ops

end Arle.Autograd
