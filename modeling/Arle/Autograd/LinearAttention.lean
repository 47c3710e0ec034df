import Arle.Lib.CountedLoop

/-!
# Linear attention

The scan of `linear_attention_forward` and of `linear_attention_backward`, and the convolution in
front of it with `conv1d_backward`, of `crates/autograd/src/ops/linear_attention.rs`. The numbers
are those of a commutative ring. The scan reads what the activations have made of the convolved
rows, and its outputs are those before the normalisation and the gate; the activations themselves
are left out. The length of an array is in its type, as `validate_shapes` has checked it.
-/

namespace Arle.Autograd

open CountedLoop

structure LinearAttentionParams where
  batch : Nat
  seqLen : Nat
  numKeyHeads : Nat
  numValueHeads : Nat
  keyDim : Nat
  valueDim : Nat
  convKernel : Nat
  /-- The configurations of the models have no value heads without a key head. -/
  keyHeads_pos : 0 < numValueHeads → 0 < numKeyHeads

/-! ## Places -/

section Places

variable {batch seqLen heads width keyDim valueDim : Nat}

def idx3 (batchIdx : Fin batch) (seq : Fin seqLen) (dim : Fin width) :
    Fin (batch * seqLen * width) :=
  ⟨(batchIdx * seqLen + seq) * width + dim, place_lt (place batchIdx seq) dim⟩

def idx4 (batchIdx : Fin batch) (seq : Fin seqLen) (head : Fin heads) (dim : Fin width) :
    Fin (batch * seqLen * heads * width) :=
  ⟨((batchIdx * seqLen + seq) * heads + head) * width + dim, place_lt (idx3 batchIdx seq head) dim⟩

def stateBase (batch head heads keyDim valueDim : Nat) : Nat :=
  (batch * heads + head) * keyDim * valueDim

def stateHeadBase (head keyDim valueDim : Nat) : Nat := head * keyDim * valueDim

def stateTimeBase (batch seq head seqLen heads keyDim valueDim : Nat) : Nat :=
  ((batch * seqLen + seq) * heads + head) * keyDim * valueDim

/-- `state[state_head_base(..) + i]`. -/
def stateAt (head : Fin heads) (i : Fin (keyDim * valueDim)) : Fin (heads * keyDim * valueDim) :=
  ⟨stateHeadBase head keyDim valueDim + i, (block head i).isLt⟩

/-- `final_state[state_base(..) + i]`. -/
def finalAt (batchIdx : Fin batch) (head : Fin heads) (i : Fin (keyDim * valueDim)) :
    Fin (batch * heads * keyDim * valueDim) :=
  ⟨stateBase batchIdx head heads keyDim valueDim + i, (block (place batchIdx head) i).isLt⟩

/-- `state_history[state_time_base(..) + i]`. -/
def historyAt (batchIdx : Fin batch) (seq : Fin seqLen) (head : Fin heads)
    (i : Fin (keyDim * valueDim)) : Fin (batch * seqLen * heads * keyDim * valueDim) :=
  ⟨stateTimeBase batchIdx seq head seqLen heads keyDim valueDim + i,
    (block (idx3 batchIdx seq head) i).isLt⟩

/-- `final_state[final_base + i]`. -/
def finalCopyAt (batchIdx : Fin batch) (i : Fin (heads * keyDim * valueDim)) :
    Fin (batch * heads * keyDim * valueDim) :=
  ⟨batchIdx * heads * keyDim * valueDim + i, by
    have h := place_lt batchIdx i
    simp only [← Nat.mul_assoc] at h
    exact h⟩

end Places

namespace LinearAttentionParams

variable (p : LinearAttentionParams)

def qDim : Nat := p.numKeyHeads * p.keyDim

def vOffset : Nat := p.qDim + p.qDim

def qkvDim : Nat := p.qDim + p.qDim + p.numValueHeads * p.valueDim

/-- The key head that a value head reads. -/
def keyHead (valueHead : Fin p.numValueHeads) : Fin p.numKeyHeads :=
  ⟨valueHead * p.numKeyHeads / p.numValueHeads, by
    have hheads := p.keyHeads_pos valueHead.pos
    rw [Nat.div_lt_iff_lt_mul valueHead.pos, Nat.mul_comm]
    exact Nat.mul_lt_mul_of_pos_left valueHead.isLt hheads⟩

def qChannel (keyHead : Fin p.numKeyHeads) (keyIdx : Fin p.keyDim) : Fin p.qkvDim :=
  ⟨keyHead * p.keyDim + keyIdx, by
    have h := place_lt keyHead keyIdx
    unfold qkvDim qDim
    omega⟩

def kChannel (keyHead : Fin p.numKeyHeads) (keyIdx : Fin p.keyDim) : Fin p.qkvDim :=
  ⟨p.qDim + keyHead * p.keyDim + keyIdx, by
    have h := place_lt keyHead keyIdx
    unfold qkvDim qDim
    omega⟩

def vChannel (valueHead : Fin p.numValueHeads) (valueIdx : Fin p.valueDim) : Fin p.qkvDim :=
  ⟨p.vOffset + valueHead * p.valueDim + valueIdx, by
    have h := place_lt valueHead valueIdx
    unfold qkvDim vOffset
    omega⟩

end LinearAttentionParams

variable {p : LinearAttentionParams} {R : Type} [CommRing R]

/-- What the scan reads: the normalised `q` and `k` rows of each key head and the `v` rows, `beta`
and `exp_g` of each value head. -/
structure Activations (p : LinearAttentionParams) (R : Type) where
  q : Fin p.batch → Fin p.seqLen → Fin p.numKeyHeads → Fin p.keyDim → R
  k : Fin p.batch → Fin p.seqLen → Fin p.numKeyHeads → Fin p.keyDim → R
  v : Fin p.batch → Fin p.seqLen → Fin p.numValueHeads → Fin p.valueDim → R
  beta : Fin p.batch → Fin p.seqLen → Fin p.numValueHeads → R
  expG : Fin p.batch → Fin p.seqLen → Fin p.numValueHeads → R

/-! ## The forward scan -/

/-- `coreOut` has the `core_out` of each head. -/
structure LinearAttentionForward (p : LinearAttentionParams) (R : Type) where
  coreOut : Fin (p.batch * p.seqLen * p.numValueHeads * p.valueDim) → R
  beta : Fin (p.batch * p.seqLen * p.numValueHeads) → R
  expG : Fin (p.batch * p.seqLen * p.numValueHeads) → R
  kvMem : Fin (p.batch * p.seqLen * p.numValueHeads * p.valueDim) → R
  stateHistory : Fin (p.batch * p.seqLen * p.numValueHeads * p.keyDim * p.valueDim) → R
  finalState : Fin (p.batch * p.numValueHeads * p.keyDim * p.valueDim) → R

/-- The states of all heads. -/
abbrev HeadStates (p : LinearAttentionParams) (R : Type) :=
  Fin (p.numValueHeads * p.keyDim * p.valueDim) → R

section Forward

variable (head : Fin p.numValueHeads)

/-- `state[..] *= exp_g_value`. -/
def decayState (expGValue : R) (state : HeadStates p R) : HeadStates p R :=
  Fin.foldl p.keyDim (fun state keyIdx =>
    Fin.foldl p.valueDim (fun state valueIdx =>
      let i := stateAt head (place keyIdx valueIdx)
      Function.update state i (state i * expGValue)) state) state

/-- `accum`, the column `value_idx` of the state times a row. -/
def readState (row : Fin p.keyDim → R) (state : HeadStates p R) (valueIdx : Fin p.valueDim) : R :=
  Fin.foldl p.keyDim (fun accum keyIdx =>
    accum + state (stateAt head (place keyIdx valueIdx)) * row keyIdx) 0

/-- The loop that fills `kv_row` and `kv_mem`. -/
def readMemory (batchIdx : Fin p.batch) (seqIdx : Fin p.seqLen) (k : Fin p.keyDim → R)
    (state : HeadStates p R)
    (kvMem : Fin (p.batch * p.seqLen * p.numValueHeads * p.valueDim) → R) :
    (Fin p.valueDim → R) × (Fin (p.batch * p.seqLen * p.numValueHeads * p.valueDim) → R) :=
  Fin.foldl p.valueDim (fun (kvRow, kvMem) valueIdx =>
    let accum := readState head k state valueIdx
    (Function.update kvRow valueIdx accum,
      Function.update kvMem (idx4 batchIdx seqIdx head valueIdx) accum)) (0, kvMem)

/-- The loop that corrects the state and fills `core_out`. -/
def writeDelta (q k : Fin p.keyDim → R) (v kvRow : Fin p.valueDim → R) (betaValue : R)
    (state : HeadStates p R) : HeadStates p R × (Fin p.valueDim → R) :=
  Fin.foldl p.valueDim (fun (state, coreOut) valueIdx =>
    let delta := (v valueIdx - kvRow valueIdx) * betaValue
    let state := Fin.foldl p.keyDim (fun state keyIdx =>
      addAt state (stateAt head (place keyIdx valueIdx)) (delta * k keyIdx)) state
    (state, Function.update coreOut valueIdx (readState head q state valueIdx))) (state, 0)

/-- The step of a value head. -/
def forwardHead (x : Activations p R) (batchIdx : Fin p.batch) (seqIdx : Fin p.seqLen)
    (scan : HeadStates p R × LinearAttentionForward p R) :
    HeadStates p R × LinearAttentionForward p R :=
  let (state, forward) := scan
  let q := x.q batchIdx seqIdx (p.keyHead head)
  let k := x.k batchIdx seqIdx (p.keyHead head)
  let v := x.v batchIdx seqIdx head
  let betaValue := x.beta batchIdx seqIdx head
  let expGValue := x.expG batchIdx seqIdx head
  let state := decayState head expGValue state
  let (kvRow, kvMem) := readMemory head batchIdx seqIdx k state forward.kvMem
  let (state, coreOut) := writeDelta head q k v kvRow betaValue state
  (state, {
    forward with
    beta := Function.update forward.beta (idx3 batchIdx seqIdx head) betaValue
    expG := Function.update forward.expG (idx3 batchIdx seqIdx head) expGValue
    kvMem
    stateHistory := Fin.foldl (p.keyDim * p.valueDim) (fun history i =>
      Function.update history (historyAt batchIdx seqIdx head i) (state (stateAt head i)))
      forward.stateHistory
    coreOut := Fin.foldl p.valueDim (fun out valueIdx =>
      Function.update out (idx4 batchIdx seqIdx head valueIdx) (coreOut valueIdx))
      forward.coreOut })

end Forward

def linearAttentionForward (x : Activations p R) : LinearAttentionForward p R :=
  Fin.foldl p.batch (fun forward batchIdx =>
    let (state, forward) := Fin.foldl p.seqLen (fun scan seqIdx =>
      Fin.foldl p.numValueHeads (fun scan head => forwardHead head x batchIdx seqIdx scan) scan)
      (0, forward)
    { forward with
      finalState := Fin.foldl (p.numValueHeads * p.keyDim * p.valueDim) (fun final i =>
        Function.update final (finalCopyAt batchIdx i) (state i)) forward.finalState })
    ⟨0, 0, 0, 0, 0, 0⟩

/-! ## The backward scan -/

section Matrices

variable {rows cols : Nat}

def matTVec (matrix : Fin (rows * cols) → R) (vector : Fin rows → R) : Fin cols → R :=
  Fin.foldl rows (fun output row =>
    Fin.foldl cols (fun output col =>
      addAt output col (matrix (place row col) * vector row)) output) 0

def matVec (matrix : Fin (rows * cols) → R) (vector : Fin cols → R) : Fin rows → R :=
  Fin.foldl rows (fun output row =>
    Function.update output row
      (Fin.foldl cols (fun accum col => accum + matrix (place row col) * vector col) 0)) 0

def addOuterInPlace (matrix : Fin (rows * cols) → R) (left : Fin rows → R)
    (right : Fin cols → R) : Fin (rows * cols) → R :=
  Fin.foldl rows (fun matrix row =>
    Fin.foldl cols (fun matrix col =>
      addAt matrix (place row col) (left row * right col)) matrix) matrix

def subtractOuterInPlace (matrix : Fin (rows * cols) → R) (left : Fin rows → R)
    (right : Fin cols → R) : Fin (rows * cols) → R :=
  Fin.foldl rows (fun matrix row =>
    Fin.foldl cols (fun matrix col =>
      addAt matrix (place row col) (-(left row * right col))) matrix) matrix

end Matrices

/-- The gradients of what the scan reads. `dqkv` has those of the `q`, `k` and `v` rows. -/
structure ScanGrads (p : LinearAttentionParams) (R : Type) where
  dqkv : Fin (p.batch * p.seqLen * p.qkvDim) → R
  dbeta : Fin (p.batch * p.seqLen * p.numValueHeads) → R
  dexpG : Fin (p.batch * p.seqLen * p.numValueHeads) → R

/-- `state`, `grad_state` and the gradients so far. -/
structure ScanState (p : LinearAttentionParams) (R : Type) where
  state : Fin (p.keyDim * p.valueDim) → R
  gradState : Fin (p.keyDim * p.valueDim) → R
  grads : ScanGrads p R

section Backward

/-- The loop that fills `d_delta` and the first part of `dk`. -/
def deltaBackward {keyDim valueDim : Nat} (gradState : Fin (keyDim * valueDim) → R)
    (k : Fin keyDim → R) (delta : Fin valueDim → R) : (Fin valueDim → R) × (Fin keyDim → R) :=
  Fin.foldl keyDim (fun (dDelta, dk) keyIdx =>
    let (accum, dDelta) := Fin.foldl valueDim (fun (accum, dDelta) valueIdx =>
      let gradValue := gradState (place keyIdx valueIdx)
      (accum + gradValue * delta valueIdx, addAt dDelta valueIdx (gradValue * k keyIdx)))
      (0, dDelta)
    (dDelta, addAt dk keyIdx accum)) (0, 0)

/-- The loop that fills `dbeta_scalar` and `dkv_mem`. -/
def betaBackward {valueDim : Nat} (dDelta vMinusKv : Fin valueDim → R) (beta : R) :
    R × (Fin valueDim → R) :=
  Fin.foldl valueDim (fun (dbetaScalar, dkvMem) valueIdx =>
    (dbetaScalar + dDelta valueIdx * vMinusKv valueIdx,
      addAt dkvMem valueIdx (-(dDelta valueIdx * beta)))) (0, 0)

/-- The loop that adds the gradient of what was read to `grad_state` and `dk`. -/
def memoryBackward {keyDim valueDim : Nat} (sDecay : Fin (keyDim * valueDim) → R)
    (k : Fin keyDim → R) (dkvMem : Fin valueDim → R) (gradState : Fin (keyDim * valueDim) → R)
    (dk : Fin keyDim → R) : (Fin (keyDim * valueDim) → R) × (Fin keyDim → R) :=
  Fin.foldl keyDim (fun (gradState, dk) keyIdx =>
    let (accum, gradState) := Fin.foldl valueDim (fun (accum, gradState) valueIdx =>
      (accum + sDecay (place keyIdx valueIdx) * dkvMem valueIdx,
        addAt gradState (place keyIdx valueIdx) (k keyIdx * dkvMem valueIdx))) (0, gradState)
    (gradState, addAt dk keyIdx accum)) (gradState, dk)

/-- The loop that fills `dexp_g` and `dstate_prev`. -/
def decayBackward {n : Nat} (prevState gradState : Fin n → R) (expG : R) : R × (Fin n → R) :=
  Fin.foldl n (fun (dexpG, dstatePrev) idx =>
    (dexpG + prevState idx * gradState idx,
      Function.update dstatePrev idx (gradState idx * expG))) (0, 0)

variable (x : Activations p R) (forward : LinearAttentionForward p R)
  (dcore : Fin p.batch → Fin p.seqLen → Fin p.numValueHeads → (Fin p.valueDim → R) →
    Fin p.valueDim → R)
  (batchIdx : Fin p.batch) (head : Fin p.numValueHeads)

/-- `prev_state`. -/
def prevState (seqIdx : Fin p.seqLen) : Fin (p.keyDim * p.valueDim) → R :=
  if (seqIdx : Nat) = 0 then 0
  else fun i => forward.stateHistory (historyAt batchIdx
    ⟨seqIdx - 1, Nat.lt_of_le_of_lt (Nat.sub_le _ _) seqIdx.isLt⟩ head i)

/-- `dcore` is the gradient that comes back through the gate, from the core outputs. -/
def backwardStep (seqIdx : Fin p.seqLen) (scan : ScanState p R) : ScanState p R :=
  let keyHead := p.keyHead head
  let q := x.q batchIdx seqIdx keyHead
  let k := x.k batchIdx seqIdx keyHead
  let v := x.v batchIdx seqIdx head
  let beta := forward.beta (idx3 batchIdx seqIdx head)
  let expG := forward.expG (idx3 batchIdx seqIdx head)
  let kvMem := fun valueIdx => forward.kvMem (idx4 batchIdx seqIdx head valueIdx)
  let delta := fun valueIdx => (v valueIdx - kvMem valueIdx) * beta
  let coreOut := matTVec scan.state q
  let dcoreRow := dcore batchIdx seqIdx head coreOut
  let dq := matVec scan.state dcoreRow
  let gradState := addOuterInPlace scan.gradState q dcoreRow
  let sDecay := subtractOuterInPlace scan.state k delta
  let (dDelta, dk) := deltaBackward gradState k delta
  let vMinusKv := fun valueIdx => v valueIdx - kvMem valueIdx
  let (dbetaScalar, dkvMem) := betaBackward dDelta vMinusKv beta
  let (gradState, dk) := memoryBackward sDecay k dkvMem gradState dk
  let prev := prevState forward batchIdx head seqIdx
  let (dexpG, dstatePrev) := decayBackward prev gradState expG
  let dv := fun valueIdx => dDelta valueIdx * beta
  let dqkv := Fin.foldl p.keyDim (fun dqkv keyIdx =>
    addAt (addAt dqkv (idx3 batchIdx seqIdx (p.qChannel keyHead keyIdx)) (dq keyIdx))
      (idx3 batchIdx seqIdx (p.kChannel keyHead keyIdx)) (dk keyIdx)) scan.grads.dqkv
  let dqkv := Fin.foldl p.valueDim (fun dqkv valueIdx =>
    addAt dqkv (idx3 batchIdx seqIdx (p.vChannel head valueIdx)) (dv valueIdx)) dqkv
  { state := prev
    gradState := dstatePrev
    grads := {
      dqkv
      dbeta := addAt scan.grads.dbeta (idx3 batchIdx seqIdx head) dbetaScalar
      dexpG := addAt scan.grads.dexpG (idx3 batchIdx seqIdx head) dexpG } }

def linearAttentionBackward : ScanGrads p R :=
  Fin.foldl p.batch (fun grads batchIdx =>
    Fin.foldl p.numValueHeads (fun grads head =>
      (Fin.foldr p.seqLen
        (fun seqIdx scan => backwardStep x forward dcore batchIdx head seqIdx scan)
        { state := fun i => forward.finalState (finalAt batchIdx head i)
          gradState := 0
          grads }).grads) grads) ⟨0, 0, 0⟩

end Backward

/-! ## The convolution -/

/-- The shape of the weights, which `validate_shapes` has checked. -/
structure ConvShape (p : LinearAttentionParams) where
  dims : List Nat
  dims_ok : dims = [p.qkvDim, p.convKernel] ∨ dims = [p.qkvDim, p.convKernel, 1]

/-- No index where the code is `unreachable!`. -/
def convWeightIndex (shape : List Nat) (channel tap : Nat) : Option Nat :=
  match shape with
  | [_, kernel] => some (channel * kernel + tap)
  | [_, kernel, one] => if one = 1 then some (channel * kernel * one + tap * one) else none
  | _ => none

theorem convWeightIndex_dims (shape : ConvShape p) (channel tap : Nat) :
    convWeightIndex shape.dims channel tap = some (channel * p.convKernel + tap) := by
  rcases shape.dims_ok with hdims | hdims
  · rw [hdims, convWeightIndex]
  · rw [hdims, convWeightIndex, if_pos rfl, Nat.mul_one, Nat.mul_one]

section Convolution

variable (shape : ConvShape p) (weight : Fin (p.qkvDim * p.convKernel) → R)

/-- The index of a weight, which is in range. -/
def weightIndex (channel : Fin p.qkvDim) (tap : Fin p.convKernel) :
    Fin (p.qkvDim * p.convKernel) :=
  ⟨(convWeightIndex shape.dims channel tap).get
      (by rw [convWeightIndex_dims]; rfl), by
    simp only [convWeightIndex_dims, Option.get_some]
    exact place_lt channel tap⟩

def srcSeq (seqIdx : Fin p.seqLen) (tap : Fin p.convKernel) : Fin p.seqLen :=
  ⟨seqIdx + tap + 1 - p.convKernel, by omega⟩

/-- The loops of `linear_attention_forward` that fill `preact`. -/
def convForward (qkv : Fin (p.batch * p.seqLen * p.qkvDim) → R) :
    Fin (p.batch * p.seqLen * p.qkvDim) → R :=
  Fin.foldl p.batch (fun preact batchIdx =>
    Fin.foldl p.seqLen (fun preact seqIdx =>
      Fin.foldl p.qkvDim (fun preact channel =>
        let sum := Fin.foldl p.convKernel (fun sum tap =>
          if (seqIdx : Nat) + tap + 1 < p.convKernel then sum
          else sum + qkv (idx3 batchIdx (srcSeq seqIdx tap) channel) *
            weight (weightIndex shape channel tap)) 0
        Function.update preact (idx3 batchIdx seqIdx channel) sum) preact) preact) 0

/-- The gradients of the input and of the weights; `siluGrad` is `silu_grad_scalar`. -/
def conv1dBackward (siluGrad : R → R)
    (gradOut preact input : Fin (p.batch * p.seqLen * p.qkvDim) → R) :
    (Fin (p.batch * p.seqLen * p.qkvDim) → R) × (Fin (p.qkvDim * p.convKernel) → R) :=
  Fin.foldl p.batch (fun grads batchIdx =>
    Fin.foldl p.seqLen (fun grads seqIdx =>
      Fin.foldl p.qkvDim (fun grads channel =>
        let preactIdx := idx3 batchIdx seqIdx channel
        let dpre := gradOut preactIdx * siluGrad (preact preactIdx)
        Fin.foldl p.convKernel (fun (gradInput, gradWeight) tap =>
          if (seqIdx : Nat) + tap + 1 < p.convKernel then (gradInput, gradWeight)
          else
            let inputIdx := idx3 batchIdx (srcSeq seqIdx tap) channel
            (addAt gradInput inputIdx (dpre * weight (weightIndex shape channel tap)),
              addAt gradWeight (weightIndex shape channel tap) (dpre * input inputIdx)))
          grads) grads) grads) (0, 0)

end Convolution

end Arle.Autograd
