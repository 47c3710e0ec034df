import Mathlib
import Arle.Autograd.Attention

/-!
# Softmax, RMSNorm and rotary embedding on the host

The host paths of `crates/autograd/src/ops/softmax.rs`, `norm.rs` and `rope.rs`, with the
reference functions of the backend that they call. The arithmetic is exact, in any ring with
inverses, and the functions that `f32` has beside it are parameters (`Elementary`), so that a
forward pass can be run over dual numbers as well.
-/

namespace Arle.Autograd.RowWise

/-- The functions of `f32` that are not arithmetic: `exp`, `ln`, the reciprocal of `sqrt`, and
`max`. -/
structure Elementary (S : Type) where
  exp : S → S
  ln : S → S
  recipSqrt : S → S
  max : S → S → S

section Arrays

variable {α : Type}

/-- `data[start..stop].copy_from_slice(src)`. -/
def copyFromSlice (data : List α) (start stop : Nat) (src : List α) : Result (List α) :=
  if start ≤ stop ∧ stop ≤ data.length ∧ src.length = stop - start then
    .ok (data.take start ++ src ++ data.drop stop)
  else .error .panicked

/-- `last_dim`. -/
def lastDim (shape : List Nat) : Result Nat :=
  match shape.getLast? with
  | none => .error (.invalidRank 0)
  | some last => .ok last

/-- `a / b` on sizes, which panics where `b` is zero. -/
def divSize (a b : Nat) : Result Nat := if b = 0 then .error .panicked else .ok (a / b)

end Arrays

variable {S : Type} [CommRing S] [Inv S] (ops : Elementary S)

/-! ## Softmax -/

/-- `slice.fold(f32::NEG_INFINITY, f32::max)`: the start is below every entry, and a row has
one. -/
def maxOf (slice : List S) : S :=
  match slice with
  | [] => 0
  | value :: rest => rest.foldl ops.max value

/-- What `cpu_softmax_forward_last_axis` and `cpu_log_softmax_forward_last_axis` share: `entry` is
given a value, the maximum of its row and the sum of the exponentials. -/
def cpuForwardLastAxis (entry : S → S → S → S) (x : List S) (shape : List Nat) :
    Result (List S) := do
  let lastDim ← lastDim shape
  if lastDim = 0 then throw (.invalidRank 0)
  (List.range (x.length / lastDim)).foldlM (fun out row => do
    let base := row * lastDim
    let slice ← sliceAt x base lastDim
    let maxValue := maxOf ops slice
    let denom := (slice.map fun value => ops.exp (value - maxValue)).sum
    (List.range lastDim).foldlM (fun out col => do
      let value ← index slice col
      setAt out (base + col) (entry value maxValue denom)) out) (List.replicate x.length 0)

def cpuSoftmaxForwardLastAxis : List S → List Nat → Result (List S) :=
  cpuForwardLastAxis ops fun value maxValue denom => ops.exp (value - maxValue) * denom⁻¹

def cpuLogSoftmaxForwardLastAxis : List S → List Nat → Result (List S) :=
  cpuForwardLastAxis ops fun value maxValue denom => value - maxValue - ops.ln denom

/-- `softmax_host_eager`, for the forward function of its kind. -/
def hostEager (forward : List S → List Nat → Result (List S)) (input : HostTensor S) :
    Result (HostTensor S) := do
  let _ ← lastDim input.shape
  let output ← forward input.data input.shape
  HostTensor.new output input.shape

def softmaxHostEager : HostTensor S → Result (HostTensor S) :=
  hostEager (cpuSoftmaxForwardLastAxis ops)

def logSoftmaxHostEager : HostTensor S → Result (HostTensor S) :=
  hostEager (cpuLogSoftmaxForwardLastAxis ops)

/-- What the host branches of `softmax_backward` and `log_softmax_backward` share: `term` is added
up over the row, and `entry` is given the sum. -/
def backwardLastAxis (term : S → S → S) (entry : S → S → S → S) (output upstream : HostTensor S) :
    Result (HostTensor S) := do
  if output.shape ≠ upstream.shape then throw (.shapeMismatch output.shape upstream.shape)
  let last ← lastDim output.shape
  let rows ← divSize output.data.length last
  let grad ← (List.range rows).foldlM (fun grad row => do
    let base := row * last
    let sum ← (List.range last).foldlM (fun sum col => do
      let g ← index upstream.data (base + col)
      let y ← index output.data (base + col)
      return sum + term g y) 0
    (List.range last).foldlM (fun grad col => do
      let g ← index upstream.data (base + col)
      let y ← index output.data (base + col)
      setAt grad (base + col) (entry g y sum)) grad) (List.replicate output.data.length 0)
  HostTensor.new grad output.shape

def softmaxBackward : HostTensor S → HostTensor S → Result (HostTensor S) :=
  backwardLastAxis (fun g y => g * y) fun g y dot => y * (g - dot)

def logSoftmaxBackward : HostTensor S → HostTensor S → Result (HostTensor S) :=
  backwardLastAxis (fun g _ => g) fun g y sumGrad => g - ops.exp y * sumGrad

/-! ## RMSNorm -/

def cpuRmsNormForward (x weight : List S) (shape : List Nat) (eps : S) : Result (List S) := do
  let lastDim ← lastDim shape
  if lastDim = 0 then throw (.invalidRank 0)
  let expected := shapeSize shape
  if x.length ≠ expected then throw (.shapeMismatch [expected] [x.length])
  if weight.length ≠ lastDim then throw (.shapeMismatch [lastDim] [weight.length])
  (List.range (expected / lastDim)).foldlM (fun out row => do
    let base := row * lastDim
    let slice ← sliceAt x base lastDim
    let meanSq := (slice.map fun v => v * v).sum * (lastDim : S)⁻¹
    let invRms := ops.recipSqrt (meanSq + eps)
    (List.range lastDim).foldlM (fun out col => do
      let value ← index slice col
      let w ← index weight col
      setAt out (base + col) (value * invRms * w)) out) (List.replicate expected 0)

/-- The loop over the rows that both passes have. -/
def inverseRms (x : List S) (hidden rows : Nat) (eps : S) : Result (List S) :=
  (List.range rows).mapM fun row => do
    let base := row * hidden
    let sumSq ← (List.range hidden).foldlM (fun sumSq col => do
      let value ← index x (base + col)
      return sumSq + value * value) 0
    return ops.recipSqrt (sumSq * (hidden : S)⁻¹ + eps)

/-- `rmsnorm_host_eager`, for operands one of which requires a gradient: the output and the
inverses that are saved for the backward pass. -/
def rmsnormHostEager (x weight : HostTensor S) (eps : S) : Result (HostTensor S × List S) := do
  let hidden ← lastDim x.shape
  if weight.shape ≠ [hidden] then throw (.shapeMismatch [hidden] weight.shape)
  let output ← cpuRmsNormForward ops x.data weight.data x.shape eps
  let output ← HostTensor.new output x.shape
  let rows ← divSize x.data.length hidden
  let invRms ← inverseRms ops x.data hidden rows eps
  return (output, invRms)

def rmsnormGradX (x weight upstream : HostTensor S) (hidden : Nat) (invRms : List S) :
    Result (HostTensor S) := do
  let gradX ← invRms.zipIdx.foldlM (fun gradX (inv, row) => do
    let base := row * hidden
    let dot ← (List.range hidden).foldlM (fun dot col => do
      let g ← index upstream.data (base + col)
      let w ← index weight.data col
      let v ← index x.data (base + col)
      return dot + g * w * v) 0
    let correction := inv * inv * dot * (hidden : S)⁻¹
    (List.range hidden).foldlM (fun gradX col => do
      let g ← index upstream.data (base + col)
      let w ← index weight.data col
      let scaledGrad := g * w
      let v ← index x.data (base + col)
      setAt gradX (base + col) (inv * scaledGrad - v * inv * correction)) gradX)
    (List.replicate x.data.length 0)
  HostTensor.new gradX x.shape

def rmsnormGradWeight (x weight upstream : HostTensor S) (hidden : Nat) (invRms : List S) :
    Result (HostTensor S) := do
  let gradWeight ← invRms.zipIdx.foldlM (fun gradWeight (inv, row) =>
    let base := row * hidden
    (List.range hidden).foldlM (fun gradWeight col => do
      let g ← index upstream.data (base + col)
      let v ← index x.data (base + col)
      addAt gradWeight col (g * v * inv)) gradWeight) (List.replicate hidden 0)
  HostTensor.new gradWeight weight.shape

/-- The inverses that the backward pass works with. No saved ones mean that they are computed. -/
def backwardInverseRms (x : List S) (hidden rows : Nat) (eps : S) (invRms : List S) :
    Result (List S) :=
  if invRms.isEmpty then inverseRms ops x hidden rows eps
  else if invRms.length ≠ rows then .error (.tapeInvariant "rmsnorm inverse-rms rows mismatch")
  else .ok invRms

/-- A gradient that is computed where it is needed. -/
def whenNeeded {α : Type} (need : Bool) (grad : Result α) : Result (Option α) :=
  if need then some <$> grad else .ok none

/-- The host branch of `rmsnorm_backward`. -/
def rmsnormBackward (x weight : HostTensor S) (invRms : List S) (eps : S)
    (upstream : HostTensor S) (needGradX needGradW : Bool) :
    Result (Option (HostTensor S) × Option (HostTensor S)) := do
  if upstream.shape ≠ x.shape then throw (.shapeMismatch x.shape upstream.shape)
  let hidden ← lastDim x.shape
  if needGradX = false ∧ needGradW = false then return (none, none)
  let rows ← divSize x.data.length hidden
  let invRms ← backwardInverseRms ops x.data hidden rows eps invRms
  let gradX ← whenNeeded needGradX (rmsnormGradX x weight upstream hidden invRms)
  let gradW ← whenNeeded needGradW (rmsnormGradWeight x weight upstream hidden invRms)
  return (gradX, gradW)

/-! ## Rotary embedding -/

section Rope

variable {S : Type} [CommRing S]

def validateShapes (xShape cosShape sinShape : List Nat) : Result Unit := do
  if xShape.length ≠ 4 then throw (.invalidRank xShape.length)
  if cosShape.length ≠ 2 then throw (.invalidRank cosShape.length)
  if sinShape.length ≠ 2 then throw (.invalidRank sinShape.length)
  let headDim ← index xShape 3
  if headDim % 2 ≠ 0 then throw (.invalidRank headDim)
  let seq ← index xShape 2
  let cosRows ← index cosShape 0
  if cosRows ≠ seq then throw (.shapeMismatch [seq, headDim / 2] cosShape)
  if sinShape ≠ cosShape then throw (.shapeMismatch cosShape sinShape)
  let rotaryHalfDim ← index cosShape 1
  if rotaryHalfDim = 0 ∨ rotaryHalfDim > headDim / 2 then
    throw (.shapeMismatch [seq, headDim / 2] cosShape)

/-- The rotation of one head at one position. -/
def ropeRow (x cos sin : List S) (base ropeBase rotaryHalfDim headDim : Nat) (out : List S) :
    Result (List S) := do
  let out ← (List.range rotaryHalfDim).foldlM (fun out i => do
    let x0 ← index x (base + i)
    let x1 ← index x (base + i + rotaryHalfDim)
    let c ← index cos (ropeBase + i)
    let s ← index sin (ropeBase + i)
    let out ← setAt out (base + i) (x0 * c - x1 * s)
    setAt out (base + i + rotaryHalfDim) (x1 * c + x0 * s)) out
  let rest ← sliceAt x (base + rotaryHalfDim * 2) (headDim - rotaryHalfDim * 2)
  copyFromSlice out (base + rotaryHalfDim * 2) (base + headDim) rest

def cpuRopeForward (x : List S) (xShape : List Nat) (cos sin : List S) : Result (List S) :=
  match xShape with
  | [batch, heads, seq, headDim] => do
    if headDim % 2 ≠ 0 then throw (.invalidRank headDim)
    let halfDim := headDim / 2
    let expectedX := batch * heads * seq * headDim
    if x.length ≠ expectedX then throw (.shapeMismatch [expectedX] [x.length])
    if cos.length ≠ sin.length ∨ cos.length % max seq 1 ≠ 0 then
      throw (.shapeMismatch [seq * halfDim] [min cos.length sin.length])
    let rotaryHalfDim := cos.length / max seq 1
    if rotaryHalfDim = 0 ∨ rotaryHalfDim > halfDim then
      throw (.shapeMismatch [seq * halfDim] [cos.length])
    (List.range batch).foldlM (fun out b =>
      (List.range heads).foldlM (fun out h =>
        (List.range seq).foldlM (fun out t =>
          ropeRow x cos sin (((b * heads + h) * seq + t) * headDim) (t * rotaryHalfDim)
            rotaryHalfDim headDim out) out) out) (List.replicate expectedX 0)
  | _ => .error (.invalidRank xShape.length)

/-- `rope_host_eager`; the backend's `rope_forward`, which full rotary width takes, is the
reference function as well. -/
def ropeHostEager (x cos sin : HostTensor S) : Result (HostTensor S) := do
  validateShapes x.shape cos.shape sin.shape
  let output ← cpuRopeForward x.data x.shape cos.data sin.data
  HostTensor.new output x.shape

/-- The host branch of `rope_backward`. -/
def ropeBackward (xShape : List Nat) (cos sin upstream : HostTensor S) :
    Result (HostTensor S) := do
  validateShapes xShape cos.shape sin.shape
  if upstream.shape ≠ xShape then throw (.shapeMismatch xShape upstream.shape)
  let negSin := sin.data.map fun s => -s
  let gradX ← cpuRopeForward upstream.data xShape cos.data negSin
  HostTensor.new gradX xShape

end Rope

end Arle.Autograd.RowWise
