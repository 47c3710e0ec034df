import Mathlib
import Arle.Lib.Assoc
import Arle.Train.Lora

/-!
# Models with adapters

How `crates/train/src/qwen35.rs` builds a model, with the tensor names of `crates/qwen35-spec`.
A layer is built first and its tensors are registered afterwards; what is registered, and in which
order, is the same. The order of the two adapter tensors of a projection is that of a hash map,
and it shows in the list of parameter ids only. The two modes of `new_internal` check the same and
differ in the flag that a gradient is required, so there is one function for both.
-/

namespace Arle.Train.Lora

open Arle.Autograd

/-! ## The configuration -/

inductive LayerType
  | fullAttention
  | linearAttention
deriving DecidableEq

/-- The number of layers is a machine word: it is the length of an array. -/
structure Qwen35Config where
  hiddenSize : Nat
  intermediateSize : Nat
  numHiddenLayers : UInt64
  vocabSize : Nat
  tieWordEmbeddings : Bool
  numAttentionHeads : Nat
  numKeyValueHeads : Nat
  headDim : Nat
  linearNumKeyHeads : Nat
  linearKeyHeadDim : Nat
  linearNumValueHeads : Nat
  linearValueHeadDim : Nat
  linearConvKernelDim : Nat
  rotaryDim : Nat
  ropeCacheLenHint : Option Nat
  layerTypes : List LayerType
  numExperts : Nat
  fullAttnGated : Bool

inductive Qwen35Error
  | autograd (e : AutogradError)
  | config (message : String)
  | invalidConfig (message : String)

namespace Qwen35Config

def isMoe (cfg : Qwen35Config) : Bool := cfg.numExperts > 0

/-- One check of a configuration. -/
def reject (bad : Prop) [Decidable bad] (message : String) : Except Qwen35Error Unit :=
  if bad then .error (.config message) else .ok ()

def validate (cfg : Qwen35Config) : Except Qwen35Error Unit := do
  reject (cfg.numHiddenLayers = 0 ∨ cfg.layerTypes = [])
    "num_hidden_layers and layer_types must be non-zero"
  reject (cfg.layerTypes.length ≠ cfg.numHiddenLayers.toNat)
    "layer_types length must equal num_hidden_layers"
  reject (cfg.numAttentionHeads = 0 ∨ cfg.numKeyValueHeads = 0 ∨ cfg.headDim = 0)
    "full-attention heads and head_dim must be non-zero"
  reject (cfg.numAttentionHeads % cfg.numKeyValueHeads ≠ 0)
    "num_attention_heads must be divisible by num_key_value_heads"
  reject (cfg.linearNumKeyHeads = 0 ∨ cfg.linearNumValueHeads = 0 ∨ cfg.linearKeyHeadDim = 0 ∨
      cfg.linearValueHeadDim = 0)
    "linear-attention heads and dims must be non-zero"
  reject (cfg.linearNumValueHeads % cfg.linearNumKeyHeads ≠ 0)
    "linear_num_value_heads must be divisible by linear_num_key_heads"
  reject (cfg.linearConvKernelDim < 2) "linear_conv_kernel_dim must be at least 2"
  reject (cfg.headDim = 0 ∨ cfg.headDim % 2 ≠ 0) "head_dim must be even for RoPE"
  reject (cfg.rotaryDim = 0 ∨ cfg.rotaryDim % 2 ≠ 0) "rotary_dim must be even and non-zero"

/-- `validate_train_scratch_contract`, and `validate_train_lora_or_frozen_contract`. -/
def validateTrainContract (cfg : Qwen35Config) : Except Qwen35Error Unit := do
  cfg.validate
  reject (cfg.isMoe = true) "train-side qwen3.5 currently supports dense MLP layers only"
  reject (cfg.ropeCacheLenHint = none) "train-side qwen3.5 requires rope_cache_len_hint"

def fullAttnQProjDim (cfg : Qwen35Config) : Nat :=
  if cfg.fullAttnGated then cfg.numAttentionHeads * cfg.headDim * 2
  else cfg.numAttentionHeads * cfg.headDim

def fullAttnQDim (cfg : Qwen35Config) : Nat := cfg.numAttentionHeads * cfg.headDim

def fullAttnKvDim (cfg : Qwen35Config) : Nat := cfg.numKeyValueHeads * cfg.headDim

def linearAttnQkvDim (cfg : Qwen35Config) : Nat :=
  let qDim := cfg.linearNumKeyHeads * cfg.linearKeyHeadDim
  let kDim := qDim
  let vDim := cfg.linearNumValueHeads * cfg.linearValueHeadDim
  qDim + kDim + vDim

def linearAttnZDim (cfg : Qwen35Config) : Nat := cfg.linearNumValueHeads * cfg.linearValueHeadDim

end Qwen35Config

/-! ## The names of the tensors -/

def modelPrefix : String := "model.language_model"

def embedTokensTensorName : String := "model.language_model.embed_tokens.weight"

def normTensorName : String := "model.language_model.norm.weight"

def layerPrefix (layerIdx : Nat) : String := modelPrefix ++ ".layers." ++ toString layerIdx

def mlpPrefix (layerIdx : Nat) : String := layerPrefix layerIdx ++ ".mlp"

/-- The `attention_prefix` of a layer with full attention. -/
def selfAttnPrefix (layerIdx : Nat) : String := layerPrefix layerIdx ++ ".self_attn"

/-- The `attention_prefix` of a layer with linear attention. -/
def linearAttnPrefix (layerIdx : Nat) : String := layerPrefix layerIdx ++ ".linear_attn"

/-- The projections of a layer, by the fields that hold them. -/
inductive Proj
  | gateProj
  | upProj
  | downProj
  | qProj
  | kProj
  | vProj
  | oProj
  | inProjQkv
  | inProjZ
  | inProjB
  | inProjA
  | outProj
deriving DecidableEq

namespace Proj

/-- The names of `layer_tensor_names` that are those of projections. -/
def tensorName (layerIdx : Nat) : Proj → String
  | gateProj => mlpPrefix layerIdx ++ ".gate_proj.weight"
  | upProj => mlpPrefix layerIdx ++ ".up_proj.weight"
  | downProj => mlpPrefix layerIdx ++ ".down_proj.weight"
  | qProj => selfAttnPrefix layerIdx ++ ".q_proj.weight"
  | kProj => selfAttnPrefix layerIdx ++ ".k_proj.weight"
  | vProj => selfAttnPrefix layerIdx ++ ".v_proj.weight"
  | oProj => selfAttnPrefix layerIdx ++ ".o_proj.weight"
  | inProjQkv => linearAttnPrefix layerIdx ++ ".in_proj_qkv.weight"
  | inProjZ => linearAttnPrefix layerIdx ++ ".in_proj_z.weight"
  | inProjB => linearAttnPrefix layerIdx ++ ".in_proj_b.weight"
  | inProjA => linearAttnPrefix layerIdx ++ ".in_proj_a.weight"
  | outProj => linearAttnPrefix layerIdx ++ ".out_proj.weight"

def inFeatures (cfg : Qwen35Config) : Proj → Nat
  | gateProj => cfg.hiddenSize
  | upProj => cfg.hiddenSize
  | downProj => cfg.intermediateSize
  | qProj => cfg.hiddenSize
  | kProj => cfg.hiddenSize
  | vProj => cfg.hiddenSize
  | oProj => cfg.fullAttnQDim
  | inProjQkv => cfg.hiddenSize
  | inProjZ => cfg.hiddenSize
  | inProjB => cfg.hiddenSize
  | inProjA => cfg.hiddenSize
  | outProj => cfg.linearAttnZDim

def outFeatures (cfg : Qwen35Config) : Proj → Nat
  | gateProj => cfg.intermediateSize
  | upProj => cfg.intermediateSize
  | downProj => cfg.hiddenSize
  | qProj => cfg.fullAttnQProjDim
  | kProj => cfg.fullAttnKvDim
  | vProj => cfg.fullAttnKvDim
  | oProj => cfg.hiddenSize
  | inProjQkv => cfg.linearAttnQkvDim
  | inProjZ => cfg.linearAttnZDim
  | inProjB => cfg.linearNumValueHeads
  | inProjA => cfg.linearNumValueHeads
  | outProj => cfg.hiddenSize

end Proj

/-! ## Layers -/

structure Qwen35FullAttention (F : Type) where
  qProj : LinearWithLora F
  kProj : LinearWithLora F
  vProj : LinearWithLora F
  oProj : LinearWithLora F
  qNorm : TensorId
  kNorm : TensorId

structure Qwen35LinearAttention (F : Type) where
  inProjQkv : LinearWithLora F
  inProjZ : LinearWithLora F
  inProjB : LinearWithLora F
  inProjA : LinearWithLora F
  conv1dWeight : TensorId
  dtBias : TensorId
  aLog : TensorId
  norm : TensorId
  outProj : LinearWithLora F

inductive Qwen35Attention (F : Type)
  | full (attn : Qwen35FullAttention F)
  | linear (attn : Qwen35LinearAttention F)

structure Qwen35Mlp (F : Type) where
  gateProj : LinearWithLora F
  upProj : LinearWithLora F
  downProj : LinearWithLora F

structure Qwen35Layer (F : Type) where
  inputLayernorm : TensorId
  selfAttn : Qwen35Attention F
  postAttentionLayernorm : TensorId
  mlp : Qwen35Mlp F

section Build

variable {F : Type} [Field F] (initial : Initial F) (cfg : Qwen35Config)
  (lora : Option (LoraConfig F)) (targetSet : LoraTargetSet)

def loraForName (baseName : String) : Option (LoraConfig F) :=
  lora.filter fun _ => targetSet.includes baseName

/-- `LinearWithLora::new` for a projection. -/
def newProj (layerIdx : Nat) (proj : Proj) : StoreM F (LinearWithLora F) :=
  LinearWithLora.new initial (proj.tensorName layerIdx) (proj.inFeatures cfg)
    (proj.outFeatures cfg) (loraForName lora targetSet (proj.tensorName layerIdx))

def newAttention (layerIdx : Nat) : LayerType → StoreM F (Qwen35Attention F)
  | .fullAttention => do
    let qProj ← newProj initial cfg lora targetSet layerIdx .qProj
    let kProj ← newProj initial cfg lora targetSet layerIdx .kProj
    let vProj ← newProj initial cfg lora targetSet layerIdx .vProj
    let oProj ← newProj initial cfg lora targetSet layerIdx .oProj
    let qNorm ← onesParameter [cfg.headDim]
    let kNorm ← onesParameter [cfg.headDim]
    return .full
      { qProj := qProj, kProj := kProj, vProj := vProj, oProj := oProj, qNorm := qNorm,
        kNorm := kNorm }
  | .linearAttention => do
    let inProjQkv ← newProj initial cfg lora targetSet layerIdx .inProjQkv
    let inProjZ ← newProj initial cfg lora targetSet layerIdx .inProjZ
    let inProjB ← newProj initial cfg lora targetSet layerIdx .inProjB
    let inProjA ← newProj initial cfg lora targetSet layerIdx .inProjA
    let conv1dWeight ← normalParameter initial (linearAttnPrefix layerIdx ++ ".conv1d.weight")
      [cfg.linearAttnQkvDim, cfg.linearConvKernelDim]
    let dtBias ← normalParameter initial (linearAttnPrefix layerIdx ++ ".dt_bias")
      [cfg.linearNumValueHeads]
    let aLog ← normalParameter initial (linearAttnPrefix layerIdx ++ ".A_log")
      [cfg.linearNumValueHeads]
    let norm ← onesParameter [cfg.linearValueHeadDim]
    let outProj ← newProj initial cfg lora targetSet layerIdx .outProj
    return .linear
      { inProjQkv := inProjQkv, inProjZ := inProjZ, inProjB := inProjB, inProjA := inProjA,
        conv1dWeight := conv1dWeight, dtBias := dtBias, aLog := aLog, norm := norm,
        outProj := outProj }

/-- A round of the loop of `new_internal`. -/
def newLayer (layerIdx : Nat) : StoreM F (Qwen35Layer F) :=
  match cfg.layerTypes[layerIdx]? with
  | none => throw .panicked
  | some kind => do
    let inputLayernorm ← onesParameter [cfg.hiddenSize]
    let gateProj ← newProj initial cfg lora targetSet layerIdx .gateProj
    let upProj ← newProj initial cfg lora targetSet layerIdx .upProj
    let downProj ← newProj initial cfg lora targetSet layerIdx .downProj
    let postAttentionLayernorm ← onesParameter [cfg.hiddenSize]
    let selfAttn ← newAttention initial cfg lora targetSet layerIdx kind
    return {
      inputLayernorm := inputLayernorm, selfAttn := selfAttn,
      postAttentionLayernorm := postAttentionLayernorm,
      mlp := { gateProj := gateProj, upProj := upProj, downProj := downProj } }

end Build

/-! ## The registered tensors -/

/-- The maps from names to ids, and the ids in the order in which they are first seen. -/
structure Registry where
  paramNames : Assoc String TensorId
  adapterNames : Assoc String TensorId
  paramIds : List TensorId

namespace Registry

variable {F : Type}

def empty : Registry := ⟨∅, ∅, []⟩

/-- `if seen.insert(id) { param_ids.push(id) }`. -/
def pushUnseen (paramIds : List TensorId) (id : TensorId) : List TensorId :=
  if id ∈ paramIds then paramIds else paramIds ++ [id]

/-- `register_named` on the parameters. -/
def param (registry : Registry) (named : String × TensorId) : Registry :=
  { registry with
    paramNames := registry.paramNames.insert named.1 named.2
    paramIds := pushUnseen registry.paramIds named.2 }

/-- `register_named` on the adapters. -/
def adapter (registry : Registry) (named : String × TensorId) : Registry :=
  { registry with
    adapterNames := registry.adapterNames.insert named.1 named.2
    paramIds := pushUnseen registry.paramIds named.2 }

/-- `register_linear`. -/
def linear (registry : Registry) (linear : LinearWithLora F) : Registry :=
  linear.adapterNameMap.foldl adapter (linear.parameterNameMap.foldl param registry)

def attention (registry : Registry) (layerIdx : Nat) : Qwen35Attention F → Registry
  | .full attn =>
    let registry := registry.linear attn.qProj
    let registry := registry.linear attn.kProj
    let registry := registry.linear attn.vProj
    let registry := registry.linear attn.oProj
    let registry := registry.param (selfAttnPrefix layerIdx ++ ".q_norm.weight", attn.qNorm)
    registry.param (selfAttnPrefix layerIdx ++ ".k_norm.weight", attn.kNorm)
  | .linear attn =>
    let registry := registry.linear attn.inProjQkv
    let registry := registry.linear attn.inProjZ
    let registry := registry.linear attn.inProjB
    let registry := registry.linear attn.inProjA
    let registry :=
      registry.param (linearAttnPrefix layerIdx ++ ".conv1d.weight", attn.conv1dWeight)
    let registry := registry.param (linearAttnPrefix layerIdx ++ ".dt_bias", attn.dtBias)
    let registry := registry.param (linearAttnPrefix layerIdx ++ ".A_log", attn.aLog)
    let registry := registry.param (linearAttnPrefix layerIdx ++ ".norm.weight", attn.norm)
    registry.linear attn.outProj

/-- The tensors of the layer with this index. -/
def layer (registry : Registry) (indexed : Qwen35Layer F × Nat) : Registry :=
  let (layer, layerIdx) := indexed
  let registry := registry.param
    (layerPrefix layerIdx ++ ".input_layernorm.weight", layer.inputLayernorm)
  let registry := registry.linear layer.mlp.gateProj
  let registry := registry.linear layer.mlp.upProj
  let registry := registry.linear layer.mlp.downProj
  let registry := registry.param
    (layerPrefix layerIdx ++ ".post_attention_layernorm.weight", layer.postAttentionLayernorm)
  registry.attention layerIdx layer.selfAttn

end Registry

/-! ## The model -/

structure Qwen35Model (F : Type) where
  config : Qwen35Config
  lora : Option (LoraConfig F)
  loraTargetSet : LoraTargetSet
  layers : List (Qwen35Layer F)
  embedTokens : TensorId
  finalNorm : TensorId
  lmHead : TensorId
  cosCache : TensorId
  sinCache : TensorId
  paramNames : Assoc String TensorId
  adapterNames : Assoc String TensorId
  paramIds : List TensorId

section Model

variable {F : Type} [Field F] (initial : Initial F)

def lmHeadName (cfg : Qwen35Config) : String :=
  if cfg.tieWordEmbeddings then embedTokensTensorName else modelPrefix ++ ".lm_head.weight"

def newLmHead (cfg : Qwen35Config) (embedTokens : TensorId) : StoreM F TensorId :=
  if cfg.tieWordEmbeddings then return embedTokens
  else normalParameter initial (lmHeadName cfg) [cfg.vocabSize, cfg.hiddenSize]

/-- One of the two tables of `build_rope_cache`. -/
def ropeTable (entry : Nat → Nat → F) (maxPositions halfDim : Nat) : StoreM F TensorId :=
  allocTensor ((List.range (maxPositions * halfDim)).map fun i => entry (i / halfDim) (i % halfDim))
    [maxPositions, halfDim]

/-- The maps and the parameter ids of a new model. -/
def registerModel (cfg : Qwen35Config) (embedTokens lmHead finalNorm cosCache sinCache : TensorId)
    (layers : List (Qwen35Layer F)) : Registry :=
  let registry := Registry.empty.param (embedTokensTensorName, embedTokens)
  let registry := registry.param (lmHeadName cfg, lmHead)
  let registry := layers.zipIdx.foldl Registry.layer registry
  let registry := registry.param (normTensorName, finalNorm)
  { registry with
    paramIds := Registry.pushUnseen (Registry.pushUnseen registry.paramIds cosCache) sinCache }

/-- The part of `new_internal` after the checks. -/
def buildModel (cfg : Qwen35Config) (lora : Option (LoraConfig F)) (targetSet : LoraTargetSet)
    (maxPositions : Nat) : StoreM F (Qwen35Model F) := do
  let embedTokens ← normalParameter initial embedTokensTensorName [cfg.vocabSize, cfg.hiddenSize]
  let lmHead ← newLmHead initial cfg embedTokens
  let layers ← (List.range cfg.numHiddenLayers.toNat).mapM (newLayer initial cfg lora targetSet)
  let finalNorm ← onesParameter [cfg.hiddenSize]
  let cosCache ← ropeTable initial.cos maxPositions (cfg.rotaryDim / 2)
  let sinCache ← ropeTable initial.sin maxPositions (cfg.rotaryDim / 2)
  let registry := registerModel cfg embedTokens lmHead finalNorm cosCache sinCache layers
  return {
    config := cfg, lora := lora, loraTargetSet := targetSet, layers := layers,
    embedTokens := embedTokens, finalNorm := finalNorm, lmHead := lmHead, cosCache := cosCache,
    sinCache := sinCache, paramNames := registry.paramNames,
    adapterNames := registry.adapterNames, paramIds := registry.paramIds }

def newInternal (cfg : Qwen35Config) (lora : Option (LoraConfig F)) (targetSet : LoraTargetSet)
    (store : ParamStore F) : Except Qwen35Error (Qwen35Model F × ParamStore F) := do
  cfg.validateTrainContract
  match cfg.ropeCacheLenHint with
  | none => throw (.invalidConfig "train-side qwen3.5 requires rope_cache_len_hint")
  | some maxPositions =>
    match buildModel initial cfg lora targetSet maxPositions store with
    | .error e => throw (.autograd e)
    | .ok built => return built

def newWithLoraTargets (cfg : Qwen35Config) (lora : LoraConfig F) (targetSet : LoraTargetSet)
    (store : ParamStore F) : Except Qwen35Error (Qwen35Model F × ParamStore F) :=
  newInternal initial cfg (some lora) targetSet store

end Model

/-! ## Sharing the base weights -/

section Share

variable {F : Type}

def shareBaseAttention :
    Qwen35Attention F → Qwen35Attention F → Except Qwen35Error (Qwen35Attention F)
  | .full attn, .full baseAttn =>
    .ok (.full
      { attn with
        qProj := attn.qProj.setBaseWeight baseAttn.qProj.weight
        kProj := attn.kProj.setBaseWeight baseAttn.kProj.weight
        vProj := attn.vProj.setBaseWeight baseAttn.vProj.weight
        oProj := attn.oProj.setBaseWeight baseAttn.oProj.weight
        qNorm := baseAttn.qNorm
        kNorm := baseAttn.kNorm })
  | .linear attn, .linear baseAttn =>
    .ok (.linear
      { attn with
        inProjQkv := attn.inProjQkv.setBaseWeight baseAttn.inProjQkv.weight
        inProjZ := attn.inProjZ.setBaseWeight baseAttn.inProjZ.weight
        inProjB := attn.inProjB.setBaseWeight baseAttn.inProjB.weight
        inProjA := attn.inProjA.setBaseWeight baseAttn.inProjA.weight
        conv1dWeight := baseAttn.conv1dWeight
        dtBias := baseAttn.dtBias
        aLog := baseAttn.aLog
        norm := baseAttn.norm
        outProj := attn.outProj.setBaseWeight baseAttn.outProj.weight })
  | _, _ => .error (.invalidConfig
      "cannot share Qwen3.5 base weights across mismatched attention layer types")

/-- A round of the loop of `share_base_parameters_from`. -/
def shareLayer (layer baseLayer : Qwen35Layer F) : Except Qwen35Error (Qwen35Layer F) := do
  let selfAttn ← shareBaseAttention layer.selfAttn baseLayer.selfAttn
  return {
    inputLayernorm := baseLayer.inputLayernorm
    selfAttn := selfAttn
    postAttentionLayernorm := baseLayer.postAttentionLayernorm
    mlp :=
      { gateProj := layer.mlp.gateProj.setBaseWeight baseLayer.mlp.gateProj.weight
        upProj := layer.mlp.upProj.setBaseWeight baseLayer.mlp.upProj.weight
        downProj := layer.mlp.downProj.setBaseWeight baseLayer.mlp.downProj.weight } }

def shareParamIds (model base : Qwen35Model F) : List TensorId :=
  let adapterIds := Assoc.values model.adapterNames
  let paramIds := base.paramIds.foldl Registry.pushUnseen []
  (model.paramIds.filter (· ∈ adapterIds)).foldl Registry.pushUnseen paramIds

def shareBaseParametersFrom (model base : Qwen35Model F) :
    Except Qwen35Error (Qwen35Model F) :=
  if model.layers.length ≠ base.layers.length then
    .error (.invalidConfig "cannot share Qwen3.5 base weights across mismatched layer counts")
  else do
    let layers ← (model.layers.zip base.layers).mapM fun (layer, baseLayer) =>
      shareLayer layer baseLayer
    return { model with
      embedTokens := base.embedTokens
      finalNorm := base.finalNorm
      lmHead := base.lmHead
      cosCache := base.cosCache
      sinCache := base.sinCache
      layers := layers
      paramNames := base.paramNames
      paramIds := shareParamIds model base }

def newLoraFromBase [Field F] (initial : Initial F) (base : Qwen35Model F) (lora : LoraConfig F)
    (targetSet : LoraTargetSet) (store : ParamStore F) :
    Except Qwen35Error (Qwen35Model F × ParamStore F) := do
  let (model, store) ← newWithLoraTargets initial base.config lora targetSet store
  let model ← shareBaseParametersFrom model base
  return (model, store.retainIds (base.paramIds ++ model.paramIds))

end Share

end Arle.Train.Lora
