import Mathlib
import Arle.Lib.Slab
import Arle.Autograd.RowWise

/-!
# Low-rank adapters

The projections of `crates/train/src/lora.rs`. The numbers are those of a field, and what the
generator of a parameter draws is given with its name. A forward pass is given its input as a
tensor, and the tensors in between, the tape and the flag that a gradient is required are left
out. `matrixmultiply::sgemm` is a parameter.
-/

namespace Arle.Train.Lora

open Arle.Autograd

/-! ## Parameters -/

/-- The tensors of the store, none of which an allocation overwrites. -/
structure ParamStore (F : Type) where
  slab : Slab (HostTensor F)
  wellFormed : slab.WellFormed

/-- An action on the store. -/
abbrev StoreM (F : Type) := StateT (ParamStore F) Result

namespace ParamStore

variable {F : Type}

def get (store : ParamStore F) (id : TensorId) : Option (HostTensor F) := store.slab.get id

def tensor (store : ParamStore F) (id : TensorId) : Result (HostTensor F) :=
  match store.get id with
  | some tensor => .ok tensor
  | none => .error (.invalidTensorId id)

def alloc (tensor : HostTensor F) : StoreM F TensorId := fun store =>
  .ok ((store.slab.alloc tensor).1, ⟨(store.slab.alloc tensor).2, store.wellFormed.alloc tensor⟩)

def retainIds (store : ParamStore F) (keep : List TensorId) : ParamStore F :=
  ⟨store.slab.retain keep, store.wellFormed.retain keep⟩

end ParamStore

/-- The numbers that parameters start from: those drawn by the generator that a name seeds, and
the entries of the rotary tables for a position and a frequency. -/
structure Initial (F : Type) where
  normal : String → Nat → F
  cos : Nat → Nat → F
  sin : Nat → Nat → F

section Parameters

variable {F : Type}

/-- `store.alloc(Tensor::new(data, shape, ..)?)`. -/
def allocTensor (data : List F) (shape : List Nat) : StoreM F TensorId :=
  match HostTensor.new data shape with
  | .ok tensor => ParamStore.alloc tensor
  | .error e => throw e

def normalParameter (initial : Initial F) (name : String) (shape : List Nat) :
    StoreM F TensorId :=
  allocTensor ((List.range (shapeSize shape)).map (initial.normal name)) shape

def zerosParameter [Zero F] (shape : List Nat) : StoreM F TensorId :=
  allocTensor (List.replicate (shapeSize shape) 0) shape

def onesParameter [One F] (shape : List Nat) : StoreM F TensorId :=
  allocTensor (List.replicate (shapeSize shape) 1) shape

end Parameters

/-! ## Products of matrices -/

section Matmul

variable {F : Type} [Field F]

/-- `matrixmultiply::sgemm` with the factors one and zero, for a contiguous output: the sizes `m`,
`k` and `n`, and the operands, each with the strides of its rows and columns. -/
abbrev StridedSgemm (F : Type) :=
  Nat → Nat → Nat → List F → Nat → Nat → List F → Nat → Nat → List F

def matmulBtOutputShape (aShape bShape : List Nat) : Result (List Nat) :=
  match aShape, bShape with
  | [m, kA], [n, kB] => if kA ≠ kB then .error (.shapeMismatch [kA] [kB]) else .ok [m, n]
  | _, _ => .error (.invalidRank (max aShape.length bShape.length))

/-- `matmul_a_bt_into`: the second operand is read with its strides exchanged. -/
def matmulABtInto (sgemm : StridedSgemm F) (a : List F) (aShape : Nat × Nat) (b : List F)
    (bShape : Nat × Nat) (out : List F) : List F :=
  let (m, n) := aShape
  let (k, _) := bShape
  if m = 0 ∨ k = 0 ∨ n = 0 then out else sgemm m n k a n 1 b 1 n

def cpuMatmulBtForward (sgemm : StridedSgemm F) (a : List F) (aShape : List Nat) (b : List F)
    (bShape : List Nat) : Result (List F × List Nat) := do
  let outShape ← matmulBtOutputShape aShape bShape
  let m ← index aShape 0
  let k ← index aShape 1
  let n ← index bShape 0
  if a.length ≠ m * k then throw (.dataLengthMismatch a.length aShape (m * k))
  if b.length ≠ n * k then throw (.dataLengthMismatch b.length bShape (n * k))
  return (matmulABtInto sgemm a (m, k) b (n, k) (List.replicate (m * n) 0), outShape)

def matmulBt (sgemm : StridedSgemm F) (a b : HostTensor F) : Result (HostTensor F) := do
  let (data, shape) ← cpuMatmulBtForward sgemm a.data a.shape b.data b.shape
  HostTensor.new data shape

def add (a b : HostTensor F) : Result (HostTensor F) :=
  if a.shape ≠ b.shape then .error (.shapeMismatch a.shape b.shape)
  else HostTensor.new (List.zipWith (· + ·) a.data b.data) a.shape

end Matmul

/-! ## Adapters -/

structure LoraConfig (F : Type) where
  rank : Nat
  alpha : F

def LoraConfig.scale {F : Type} [Field F] (cfg : LoraConfig F) : F := cfg.alpha / cfg.rank

inductive LoraTargetSet
  | allLinear
  | attentionQv
deriving DecidableEq

/-- `str::ends_with`. -/
def endsWith (name suffix : String) : Bool := suffix.toList.isSuffixOf name.toList

def LoraTargetSet.includes (targetSet : LoraTargetSet) (baseName : String) : Bool :=
  match targetSet with
  | .allLinear => true
  | .attentionQv =>
    endsWith baseName ".self_attn.q_proj.weight" || endsWith baseName ".self_attn.v_proj.weight"

structure LoraWeights (F : Type) where
  loraAName : String
  loraBName : String
  loraA : TensorId
  loraB : TensorId
  rank : Nat
  scale : F

structure LinearWithLora (F : Type) where
  baseName : String
  weight : TensorId
  lora : Option (LoraWeights F)

namespace LinearWithLora

variable {F : Type} [Field F]

/-- The part of `new` that allocates the adapter. -/
def newLora (initial : Initial F) (baseName : String) (inFeatures outFeatures : Nat) :
    Option (LoraConfig F) → StoreM F (Option (LoraWeights F))
  | none => return none
  | some cfg =>
    if cfg.rank = 0 then throw (.tapeInvariant "LoRA rank must be > 0")
    else do
      let loraAName := baseName ++ ".lora_a"
      let loraBName := baseName ++ ".lora_b"
      let loraA ← normalParameter initial loraAName [cfg.rank, inFeatures]
      let loraB ← zerosParameter [outFeatures, cfg.rank]
      return some
        { loraAName := loraAName, loraBName := loraBName, loraA := loraA, loraB := loraB,
          rank := cfg.rank, scale := cfg.scale }

def new (initial : Initial F) (baseName : String) (inFeatures outFeatures : Nat)
    (lora : Option (LoraConfig F)) : StoreM F (LinearWithLora F) := do
  let weight ← normalParameter initial baseName [outFeatures, inFeatures]
  let lora ← newLora initial baseName inFeatures outFeatures lora
  return { baseName := baseName, weight := weight, lora := lora }

/-- The part of `forward` that adds the product with the adapter. -/
def addLora (sgemm : StridedSgemm F) (flatX projected : HostTensor F) (store : ParamStore F) :
    Option (LoraWeights F) → Result (HostTensor F)
  | none => .ok projected
  | some lora => do
    let loraA ← store.tensor lora.loraA
    let lowRank ← matmulBt sgemm flatX loraA
    let loraB ← store.tensor lora.loraB
    let delta ← matmulBt sgemm lowRank loraB
    let delta ← delta.mulScalar lora.scale
    add projected delta

def forward (sgemm : StridedSgemm F) (linear : LinearWithLora F) (x : HostTensor F)
    (store : ParamStore F) : Result (HostTensor F) := do
  let weight ← store.tensor linear.weight
  if weight.shape.length ≠ 2 then throw (.invalidRank weight.shape.length)
  let inputDim ← RowWise.lastDim x.shape
  let inFeatures ← index weight.shape 1
  if inputDim ≠ inFeatures then throw (.shapeMismatch [inFeatures] [inputDim])
  let prefixElems ← RowWise.divSize x.shape.prod inputDim
  let flatX ← x.reshape [prefixElems, inputDim]
  let projected ← matmulBt sgemm flatX weight
  let projected ← addLora sgemm flatX projected store linear.lora
  let outFeatures ← index weight.shape 0
  projected.reshape (x.shape.dropLast ++ [outFeatures])

def setBaseWeight (linear : LinearWithLora F) (weight : TensorId) : LinearWithLora F :=
  { linear with weight := weight }

def parameterNameMap (linear : LinearWithLora F) : List (String × TensorId) :=
  [(linear.baseName, linear.weight)]

def adapterNameMap (linear : LinearWithLora F) : List (String × TensorId) :=
  match linear.lora with
  | some lora => [(lora.loraAName, lora.loraA), (lora.loraBName, lora.loraB)]
  | none => []

/-- The loops of `merged_tensor`, over the rows and columns of the weight. -/
def mergeInto (lora : LoraWeights F) (outFeatures inFeatures : Nat) (a b merged : List F) :
    Result (List F) :=
  (List.range outFeatures).foldlM (fun merged outIdx =>
    (List.range inFeatures).foldlM (fun merged inIdx => do
      let delta ← (List.range lora.rank).foldlM (fun delta rankIdx => do
        let bValue ← index b (outIdx * lora.rank + rankIdx)
        let aValue ← index a (rankIdx * inFeatures + inIdx)
        return delta + bValue * aValue) 0
      addAt merged (outIdx * inFeatures + inIdx) (lora.scale * delta)) merged) merged

def mergedTensor (linear : LinearWithLora F) (store : ParamStore F) : Result (HostTensor F) := do
  let weight ← store.tensor linear.weight
  match linear.lora with
  | none => HostTensor.new weight.data weight.shape
  | some lora => do
    let outFeatures ← index weight.shape 0
    let inFeatures ← index weight.shape 1
    let a ← store.tensor lora.loraA
    let b ← store.tensor lora.loraB
    let merged ← mergeInto lora outFeatures inFeatures a.data b.data weight.data
    HostTensor.new merged weight.shape

end LinearWithLora

end Arle.Train.Lora
