import Mathlib
import Arle.Autograd.DecodeAttention
import Arle.Train.LoraModel

/-!
# Rollouts

The two forward passes of `crates/train/src/qwen35.rs` that a rollout takes, over the whole
sequence and with a cache of keys and values, and the greedy loops of `crates/train/src/opd.rs`
over them. A projection or an RMS norm is a function of a row, and the rotary embedding is one of
a row and the row of the cosines and sines of its position; the width of these is its own affair.
A tensor is its data and its shape, also in a cache. Token and position ids are numbers; the loops
check that they fit in 32 bits.
-/

namespace Arle.Train.Rollout

open Arle.Autograd

abbrev Qwen35Config := Lora.Qwen35Config

/-! ## Operations on tensors -/

/-- A function of rows of width `m`, with rows of width `n` as values. -/
structure RowMap (F : Type) (m n : Nat) where
  apply : List F → List F
  length_apply : ∀ row : List F, row.length = m → (apply row).length = n

inductive Device
  | cpu
  | metal
  | cuda
deriving DecidableEq

/-- What the forward passes call: functions of numbers and rows, and the backend's calls that only
a rollout makes. -/
structure Kernels (F : Type) where
  device : Device
  exp : F → F
  sqrt : F → F
  sigmoid : F → F
  silu : F → F
  /-- The rotation of a row of a head by a row of cosines and one of sines. -/
  rotate : List F → List F → List F → List F
  length_rotate : ∀ cos sin row, (rotate cos sin row).length = row.length
  sgemm : Sgemm F
  kvCacheWriteAxis2 : HostTensor F → HostTensor F → Nat → Result (HostTensor F)
  causalSdpaDecodeGqaCache :
    HostTensor F → HostTensor F → HostTensor F → Nat → Nat → Result (HostTensor F)

section Ops

variable {F : Type}

def mapRows {m n : Nat} (f : RowMap F m n) (x : HostTensor F) : Result (HostTensor F) :=
  match x.shape.getLast? with
  | none => .error (.invalidRank 0)
  | some last =>
    if last ≠ m then .error (.shapeMismatch [m] [last])
    else HostTensor.new ((List.range x.shape.dropLast.prod).flatMap fun row =>
      f.apply ((x.data.drop (row * m)).take m)) (x.shape.dropLast ++ [n])

/-- `rope`; the rows of `cos` and `sin` are those of the positions. -/
def rope (kernels : Kernels F) (x : HostTensor F) (cos sin : List (List F)) :
    Result (HostTensor F) :=
  match x.shape with
  | [batch, heads, seq, headDim] =>
    if headDim % 2 ≠ 0 then .error (.invalidRank headDim)
    else if cos.length ≠ seq then .error (.shapeMismatch [seq] [cos.length])
    else if sin.length ≠ cos.length then .error (.shapeMismatch [cos.length] [sin.length])
    else HostTensor.new ((List.range (batch * heads * seq)).flatMap fun row =>
      kernels.rotate (cos.getD (row % seq) []) (sin.getD (row % seq) [])
        ((x.data.drop (row * headDim)).take headDim)) [batch, heads, seq, headDim]
  | shape => .error (.invalidRank shape.length)

def zipEntries (f : F → F → F) (a b : HostTensor F) : Result (HostTensor F) :=
  if a.shape ≠ b.shape then .error (.shapeMismatch a.shape b.shape)
  else HostTensor.new (List.zipWith f a.data b.data) a.shape

def mapEntries (f : F → F) (x : HostTensor F) : HostTensor F :=
  ⟨x.data.map f, x.shape, by rw [List.length_map, x.length_data]⟩

def splitHeads (x : HostTensor F) (batch seqLen heads headDim : Nat) : Result (HostTensor F) := do
  let x ← x.reshape [batch, seqLen, heads, headDim]
  x.transpose 1 2

def mergeHeads (x : HostTensor F) (batch seqLen heads headDim : Nat) : Result (HostTensor F) := do
  let x ← x.transpose 1 2
  x.reshape [batch, seqLen, heads * headDim]

/-- The row of the table of a token, whose id the lookup narrows to 32 bits. -/
def embeddingRow [Zero F] (table : List (List F)) (hidden index : Nat) : List F :=
  let id := asI32 index
  if id < 0 ∨ id.toNat ≥ table.length then List.replicate hidden 0
  else table.getD id.toNat []

def embedding [Zero F] (table : List (List F)) (hidden : Nat) (indices : List Nat) :
    Result (HostTensor F) :=
  match indices.find? (fun index => index ≥ table.length) with
  | some index => .error (.indexOutOfBounds index table.length)
  | none => HostTensor.new (indices.flatMap (embeddingRow table hidden))
      [1, indices.length, hidden]

variable [Field F]

def add (a b : HostTensor F) : Result (HostTensor F) := zipEntries (· + ·) a b

def mul (a b : HostTensor F) : Result (HostTensor F) := zipEntries (· * ·) a b

def zeros (shape : List Nat) : HostTensor F :=
  ⟨List.replicate (shapeSize shape) 0, shape, List.length_replicate⟩

def repeatKv (x : HostTensor F) (nRep : Nat) : Result (HostTensor F) :=
  if nRep = 0 then .error (.invalidIndicesLen 1 0)
  else if nRep = 1 then .ok x
  else match x.shape with
    | [batch, heads, seq, dim] => do
      let reshaped ← x.reshape [batch, heads, 1, seq, dim]
      let repeated ← (zeros [batch, heads, nRep, seq, dim]).addBroadcast reshaped
      repeated.reshape [batch, heads * nRep, seq, dim]
    | shape => .error (.invalidRank shape.length)

end Ops

/-! ## The model -/

inductive Qwen35Error
  | autograd (e : AutogradError)
  | invalidConfig (message : String)
  | inputLenMismatch (inputLen expectedLen : Nat)
  | positionOutOfBounds (position upper : Nat)
deriving DecidableEq

/-- An error of an operation is one of the model. -/
def op {α : Type} (x : Result α) : Except Qwen35Error α := x.mapError .autograd

structure Qwen35FullAttention (F : Type) (cfg : Qwen35Config) where
  qProj : RowMap F cfg.hiddenSize cfg.fullAttnQProjDim
  kProj : RowMap F cfg.hiddenSize cfg.fullAttnKvDim
  vProj : RowMap F cfg.hiddenSize cfg.fullAttnKvDim
  oProj : RowMap F cfg.fullAttnQDim cfg.hiddenSize
  qNorm : RowMap F cfg.headDim cfg.headDim
  kNorm : RowMap F cfg.headDim cfg.headDim

/-- Of linear attention only its forward pass matters, which has no cache. -/
inductive Qwen35Attention (F : Type) (cfg : Qwen35Config)
  | full (attn : Qwen35FullAttention F cfg)
  | linear (forwardLinearAttention : HostTensor F → Result (HostTensor F))

structure Qwen35Mlp (F : Type) (cfg : Qwen35Config) where
  gateProj : RowMap F cfg.hiddenSize cfg.intermediateSize
  upProj : RowMap F cfg.hiddenSize cfg.intermediateSize
  downProj : RowMap F cfg.intermediateSize cfg.hiddenSize

structure Qwen35Layer (F : Type) (cfg : Qwen35Config) where
  inputLayernorm : RowMap F cfg.hiddenSize cfg.hiddenSize
  selfAttn : Qwen35Attention F cfg
  postAttentionLayernorm : RowMap F cfg.hiddenSize cfg.hiddenSize
  mlp : Qwen35Mlp F cfg

structure Qwen35LayerKvCache (F : Type) where
  k : Option (HostTensor F)
  v : Option (HostTensor F)
  maxSeqLen : Nat
  seqCursor : Nat

structure Qwen35KvCache (F : Type) where
  layers : List (Qwen35LayerKvCache F)
  seqLen : Nat

/-- A model that the constructors have built: the configuration has passed its checks, and the
tables have the sizes that it says. -/
structure Qwen35Model (F : Type) where
  config : Qwen35Config
  layers : List (Qwen35Layer F config)
  embedTokens : List (List F)
  finalNorm : RowMap F config.hiddenSize config.hiddenSize
  lmHead : RowMap F config.hiddenSize config.vocabSize
  cosCache : List (List F)
  sinCache : List (List F)
  validated : config.validateTrainContract = .ok ()
  length_embedTokens : embedTokens.length = config.vocabSize
  width_embedTokens : ∀ row ∈ embedTokens, row.length = config.hiddenSize
  length_cosCache : config.ropeCacheLenHint = some cosCache.length
  length_sinCache : sinCache.length = cosCache.length

/-- `Qwen35KvCache::new`. -/
def Qwen35KvCache.new {F : Type} (model : Qwen35Model F) (maxSeqLen : Nat) : Qwen35KvCache F where
  layers := List.replicate model.layers.length ⟨none, none, maxSeqLen, 0⟩
  seqLen := 0

def supportsRolloutKvCache {F : Type} (model : Qwen35Model F) : Bool :=
  model.layers.all fun layer => match layer.selfAttn with
    | .full _ => true
    | .linear _ => false

/-! ## Attention -/

section Forward

variable {F : Type} [Field F] (kernels : Kernels F) {cfg : Qwen35Config}

/-- The queries of the projection, and the gates where it has them. -/
def splitQuery (cfg : Qwen35Config) (qFull : HostTensor F) (batch seqLen : Nat) :
    Result (HostTensor F × Option (HostTensor F)) :=
  if cfg.fullAttnGated then do
    let qFull ← qFull.reshape [batch, seqLen, cfg.numAttentionHeads, cfg.headDim * 2]
    let q ← qFull.slice [0, 0, 0, 0] [batch, seqLen, cfg.numAttentionHeads, cfg.headDim]
    let gate ← qFull.slice [0, 0, 0, cfg.headDim]
      [batch, seqLen, cfg.numAttentionHeads, cfg.headDim * 2]
    let q ← q.transpose 1 2
    let gate ← gate.transpose 1 2
    return (q, some gate)
  else do
    let q ← splitHeads qFull batch seqLen cfg.numAttentionHeads cfg.headDim
    return (q, none)

/-- The queries, gates, keys and values that an attention starts from. -/
structure Prepared (F : Type) where
  q : HostTensor F
  gate : Option (HostTensor F)
  k : HostTensor F
  v : HostTensor F

/-- The first part of `forward_full_attention`. -/
def prepare (h : HostTensor F) (attn : Qwen35FullAttention F cfg) (cos sin : List (List F))
    (batch seqLen : Nat) : Result (Prepared F) := do
  let qFull ← mapRows attn.qProj h
  let (q, gate) ← splitQuery cfg qFull batch seqLen
  let k ← mapRows attn.kProj h
  let v ← mapRows attn.vProj h
  let k ← splitHeads k batch seqLen cfg.numKeyValueHeads cfg.headDim
  let v ← splitHeads v batch seqLen cfg.numKeyValueHeads cfg.headDim
  let q ← mapRows attn.qNorm q
  let k ← mapRows attn.kNorm k
  let q ← rope kernels q cos sin
  let k ← rope kernels k cos sin
  return { q := q, gate := gate, k := k, v := v }

def applyGate (attnHidden : HostTensor F) (gate : Option (HostTensor F)) :
    Result (HostTensor F) :=
  match gate with
  | some gate => mul attnHidden (mapEntries kernels.sigmoid gate)
  | none => .ok attnHidden

/-- The last part of `forward_full_attention`. -/
def finish (attn : Qwen35FullAttention F cfg) (attnHidden : HostTensor F)
    (gate : Option (HostTensor F)) (batch seqLen : Nat) : Result (HostTensor F) := do
  let attnHidden ← applyGate kernels attnHidden gate
  let attnHidden ← mergeHeads attnHidden batch seqLen cfg.numAttentionHeads cfg.headDim
  mapRows attn.oProj attnHidden

def kvRepeat (cfg : Qwen35Config) : Nat := cfg.numAttentionHeads / cfg.numKeyValueHeads

def forwardFullAttention [LinearOrder F] (h : HostTensor F) (attn : Qwen35FullAttention F cfg)
    (cos sin : List (List F)) (batch seqLen : Nat) : Result (HostTensor F) := do
  let prepared ← prepare kernels h attn cos sin batch seqLen
  let k ← repeatKv prepared.k (kvRepeat cfg)
  let v ← repeatKv prepared.v (kvRepeat cfg)
  let attnHidden ← causalSdpa kernels.exp kernels.sqrt kernels.sgemm prepared.q k v
  finish kernels attn attnHidden prepared.gate batch seqLen

/-! ## Fused preparation of one token -/

/-- One stretch of each head, as the tensor of one position. -/
def headTensor (data : List F) (batch stride heads headStride offset headDim : Nat) :
    Result (HostTensor F) := do
  let rows ← (List.range batch).mapM fun batchIdx => (List.range heads).mapM fun head =>
    sliceAt data (batchIdx * stride + head * headStride + offset) headDim
  HostTensor.new rows.flatten.flatten [batch, heads, 1, headDim]

def validateQwenDecodePrepareCommon (fullShape : List Nat) (cos sin : List (List F))
    (heads headDim projectedDim : Nat) : Result Unit :=
  match fullShape with
  | [batch, seq, dim] =>
    if seq ≠ 1 ∨ dim ≠ projectedDim then
      .error (.shapeMismatch [batch, 1, projectedDim] [batch, seq, dim])
    else if heads = 0 ∨ headDim = 0 ∨ headDim % 2 ≠ 0 then
      .error (.tapeInvariant "qwen decode prepare requires non-zero heads and even head_dim")
    else if cos.length ≠ 1 ∨ sin.length ≠ 1 then .error (.shapeMismatch [1] [cos.length])
    else .ok ()
  | shape => .error (.invalidRank shape.length)

def gateTensor (cfg : Qwen35Config) (data : List F) (batch stride headStride : Nat) :
    Result (Option (HostTensor F)) :=
  if cfg.fullAttnGated then
    (headTensor data batch stride cfg.numAttentionHeads headStride cfg.headDim cfg.headDim).map some
  else .ok none

/-- `qwen_decode_prepare_q`, with the reference function of the backend. -/
def qwenDecodePrepareQ (qFull : HostTensor F) (attn : Qwen35FullAttention F cfg)
    (cos sin : List (List F)) (batch : Nat) : Result (HostTensor F × Option (HostTensor F)) :=
  match qFull.shape with
  | [b, seq, stride] =>
    if b ≠ batch ∨ seq ≠ 1 then
      .error (.shapeMismatch [batch, 1, cfg.fullAttnQProjDim] [b, seq, stride])
    else do
      let factor := if cfg.fullAttnGated then 2 else 1
      validateQwenDecodePrepareCommon [b, seq, stride] cos sin cfg.numAttentionHeads cfg.headDim
        (cfg.numAttentionHeads * cfg.headDim * factor)
      let headStride := if cfg.fullAttnGated then cfg.headDim * 2 else cfg.headDim
      let q ← headTensor qFull.data batch stride cfg.numAttentionHeads headStride 0 cfg.headDim
      let gate ← gateTensor cfg qFull.data batch stride headStride
      let q ← mapRows attn.qNorm q
      let q ← rope kernels q cos sin
      return (q, gate)
  | shape => .error (.shapeMismatch [batch, 1, cfg.fullAttnQProjDim] shape)

def checkShape (expected got : List Nat) : Result Unit :=
  if got ≠ expected then .error (.shapeMismatch expected got) else .ok ()

/-- `qwen_decode_prepare_kv`, with the reference function of the backend. -/
def qwenDecodePrepareKv (kFull vFull : HostTensor F) (attn : Qwen35FullAttention F cfg)
    (cos sin : List (List F)) (batch : Nat) : Result (HostTensor F × HostTensor F) :=
  match kFull.shape with
  | [b, seq, stride] =>
    if b ≠ batch ∨ seq ≠ 1 ∨ stride ≠ cfg.fullAttnKvDim then
      .error (.shapeMismatch [batch, 1, cfg.fullAttnKvDim] [b, seq, stride])
    else do
      validateQwenDecodePrepareCommon [b, seq, stride] cos sin cfg.numKeyValueHeads cfg.headDim
        (cfg.numKeyValueHeads * cfg.headDim)
      checkShape [b, seq, stride] vFull.shape
      let k ← headTensor kFull.data batch stride cfg.numKeyValueHeads cfg.headDim 0 cfg.headDim
      let v ← headTensor vFull.data batch stride cfg.numKeyValueHeads cfg.headDim 0 cfg.headDim
      let k ← mapRows attn.kNorm k
      let k ← rope kernels k cos sin
      return (k, v)
  | shape => .error (.shapeMismatch [batch, 1, cfg.fullAttnKvDim] shape)

def prepareFused (h : HostTensor F) (attn : Qwen35FullAttention F cfg) (cos sin : List (List F))
    (batch : Nat) : Result (Prepared F) := do
  let qFull ← mapRows attn.qProj h
  let (q, gate) ← qwenDecodePrepareQ kernels qFull attn cos sin batch
  let k ← mapRows attn.kProj h
  let v ← mapRows attn.vProj h
  let (k, v) ← qwenDecodePrepareKv kernels k v attn cos sin batch
  return { q := q, gate := gate, k := k, v := v }

/-! ## Attention with a cache -/

def appendCachedKv (cached : Option (HostTensor F)) (next : HostTensor F)
    (maxSeqLen seqCursor : Nat) : Except Qwen35Error (HostTensor F) :=
  match next.shape with
  | [batch, heads, nextSeqLen, dim] =>
    if seqCursor + nextSeqLen > maxSeqLen then
      .error (.invalidConfig "rollout KV cache append exceeds preallocated max_seq_len")
    else
      let cached := cached.getD (zeros [batch, heads, maxSeqLen, dim])
      op (kernels.kvCacheWriteAxis2 cached next seqCursor)
  | shape => .error (.autograd (.invalidRank shape.length))

def causalSdpaDecodeGqaCached (tapeEnabled : Bool) (q kCache vCache : HostTensor F)
    (kvLen qStart : Nat) : Result (HostTensor F) :=
  if tapeEnabled then
    .error (.tapeInvariant
      "causal_sdpa_decode_gqa_cached is rollout-only and requires tape disabled")
  else kernels.causalSdpaDecodeGqaCache q kCache vCache kvLen qStart

def prepareWithKvCache (tapeEnabled : Bool) (h : HostTensor F)
    (attn : Qwen35FullAttention F cfg) (cos sin : List (List F)) (batch seqLen : Nat) :
    Result (Prepared F) :=
  if tapeEnabled = false ∧ seqLen = 1 ∧ cfg.rotaryDim = cfg.headDim ∧
      kernels.device = .cuda then
    prepareFused kernels h attn cos sin batch
  else prepare kernels h attn cos sin batch seqLen

variable [LinearOrder F]

/-- The attention of a chunk of rows, given the caches they have been appended to. -/
def attendCached (tapeEnabled : Bool) (prepared : Prepared F) (kCache vCache : HostTensor F)
    (cfg : Qwen35Config) (prevKvLen seqLen qStart : Nat) : Except Qwen35Error (HostTensor F) :=
  let kvLen := prevKvLen + seqLen
  if tapeEnabled = false ∧ seqLen = 1 ∧ qStart + 1 = kvLen then
    op (causalSdpaDecodeGqaCached kernels tapeEnabled prepared.q kCache vCache kvLen qStart)
  else if prevKvLen ≠ 0 then
    .error (.invalidConfig
      "rollout KV cache only supports one-token decode after the initial prompt")
  else op (do
    let kAll ← repeatKv prepared.k (kvRepeat cfg)
    let vAll ← repeatKv prepared.v (kvRepeat cfg)
    causalSdpaWithQStart kernels.exp kernels.sqrt kernels.sgemm prepared.q kAll vAll qStart)

def checkCursor (layerCache : Qwen35LayerKvCache F) (qStart : Nat) : Except Qwen35Error Unit :=
  if layerCache.seqCursor ≠ qStart then
    .error (.invalidConfig "rollout KV cache layer cursor diverged from global cache length")
  else .ok ()

def forwardFullAttentionWithKvCache (tapeEnabled : Bool) (h : HostTensor F)
    (attn : Qwen35FullAttention F cfg) (cos sin : List (List F)) (batch seqLen : Nat)
    (layerCache : Qwen35LayerKvCache F) (qStart : Nat) :
    Except Qwen35Error (HostTensor F × Qwen35LayerKvCache F) := do
  let prepared ← op (prepareWithKvCache kernels tapeEnabled h attn cos sin batch seqLen)
  checkCursor layerCache qStart
  let prevKvLen := layerCache.seqCursor
  let kCache ← appendCachedKv kernels layerCache.k prepared.k layerCache.maxSeqLen prevKvLen
  let vCache ← appendCachedKv kernels layerCache.v prepared.v layerCache.maxSeqLen prevKvLen
  let attnHidden ← attendCached kernels tapeEnabled prepared kCache vCache cfg prevKvLen seqLen
    qStart
  let out ← op (finish kernels attn attnHidden prepared.gate batch seqLen)
  return (out, ⟨some kCache, some vCache, layerCache.maxSeqLen, prevKvLen + seqLen⟩)

/-! ## Layers -/

namespace Qwen35Layer

/-- The part of a layer behind its attention. -/
def addMlp (layer : Qwen35Layer F cfg) (x attnOut : HostTensor F) : Result (HostTensor F) := do
  let x ← add x attnOut
  let h ← mapRows layer.postAttentionLayernorm x
  let gate ← mapRows layer.mlp.gateProj h
  let up ← mapRows layer.mlp.upProj h
  let act ← mul (mapEntries kernels.silu gate) up
  let mlpOut ← mapRows layer.mlp.downProj act
  add x mlpOut

def attend (layer : Qwen35Layer F cfg) (h : HostTensor F) (cos sin : List (List F))
    (batch seqLen : Nat) : Result (HostTensor F) :=
  match layer.selfAttn with
  | .full attn => forwardFullAttention kernels h attn cos sin batch seqLen
  | .linear forwardLinearAttention => forwardLinearAttention h

def attendWithKvCache (tapeEnabled : Bool) (layer : Qwen35Layer F cfg) (h : HostTensor F)
    (cos sin : List (List F)) (batch seqLen : Nat) (layerCache : Qwen35LayerKvCache F)
    (qStart : Nat) : Except Qwen35Error (HostTensor F × Qwen35LayerKvCache F) :=
  match layer.selfAttn with
  | .full attn =>
    forwardFullAttentionWithKvCache kernels tapeEnabled h attn cos sin batch seqLen layerCache
      qStart
  | .linear _ => .error (.invalidConfig "rollout KV cache requires full-attention layers")

def forward (layer : Qwen35Layer F cfg) (x : HostTensor F) (cos sin : List (List F)) :
    Result (HostTensor F) :=
  match x.shape with
  | [batch, seqLen, _] => do
    let h ← mapRows layer.inputLayernorm x
    let attnOut ← layer.attend kernels h cos sin batch seqLen
    layer.addMlp kernels x attnOut
  | shape => .error (.invalidRank shape.length)

def forwardWithKvCache (tapeEnabled : Bool) (layer : Qwen35Layer F cfg) (x : HostTensor F)
    (cos sin : List (List F)) (layerCache : Qwen35LayerKvCache F) (qStart : Nat) :
    Except Qwen35Error (HostTensor F × Qwen35LayerKvCache F) :=
  match x.shape with
  | [batch, seqLen, _] => do
    let h ← op (mapRows layer.inputLayernorm x)
    let (attnOut, layerCache) ← layer.attendWithKvCache kernels tapeEnabled h cos sin batch seqLen
      layerCache qStart
    let out ← op (layer.addMlp kernels x attnOut)
    return (out, layerCache)
  | shape => .error (.autograd (.invalidRank shape.length))

end Qwen35Layer

/-- The loop over the layers; each has its cache. -/
def forwardLayersWithKvCache (tapeEnabled : Bool) (cos sin : List (List F)) (qStart : Nat) :
    List (Qwen35Layer F cfg) → List (Qwen35LayerKvCache F) → HostTensor F →
      Except Qwen35Error (HostTensor F × List (Qwen35LayerKvCache F))
  | [], caches, hidden => .ok (hidden, caches)
  | _ :: _, [], _ => .error (.autograd .panicked)
  | layer :: layers, layerCache :: caches, hidden => do
    let (hidden, layerCache) ← layer.forwardWithKvCache kernels tapeEnabled hidden cos sin
      layerCache qStart
    let (hidden, caches) ← forwardLayersWithKvCache tapeEnabled cos sin qStart layers caches hidden
    return (hidden, layerCache :: caches)

/-! ## The forward passes -/

def selectCacheRows (cache : List (List F)) (positionIds : List Nat) :
    Except Qwen35Error (List (List F)) :=
  positionIds.mapM fun position => match cache[position]? with
    | some row => .ok row
    | none => .error (.positionOutOfBounds position cache.length)

namespace Qwen35Model

variable (model : Qwen35Model F)

def forwardBatchHiddenIndices (tokenIndices positions : List Nat) (batch : Nat) :
    Except Qwen35Error (HostTensor F) :=
  let seqLen := positions.length
  if tokenIndices.length ≠ batch * seqLen then
    .error (.inputLenMismatch tokenIndices.length (batch * seqLen))
  else do
    let cos ← selectCacheRows model.cosCache positions
    let sin ← selectCacheRows model.sinCache positions
    let hidden ← op (embedding model.embedTokens model.config.hiddenSize tokenIndices)
    let hidden ← op (hidden.reshape [batch, seqLen, model.config.hiddenSize])
    let hidden ← op (model.layers.foldlM (fun hidden layer => layer.forward kernels hidden cos sin)
      hidden)
    op (mapRows model.finalNorm hidden)

def forwardBatchIndices (tokenIndices positions : List Nat) (batch : Nat) :
    Except Qwen35Error (HostTensor F) := do
  let hidden ← model.forwardBatchHiddenIndices kernels tokenIndices positions batch
  op (mapRows model.lmHead hidden)

def forwardBatch (inputIds positionIds : List Nat) (batch seqLen : Nat) :
    Except Qwen35Error (HostTensor F) :=
  if inputIds.length ≠ batch * seqLen then
    .error (.inputLenMismatch inputIds.length (batch * seqLen))
  else if positionIds.length ≠ seqLen then .error (.inputLenMismatch positionIds.length seqLen)
  else match model.config.ropeCacheLenHint with
    | none => .error (.invalidConfig "train-side qwen3.5 requires rope_cache_len_hint")
    | some maxSeqLen =>
      if seqLen > maxSeqLen then
        .error (.invalidConfig "sequence length exceeds configured rope cache length")
      else model.forwardBatchIndices kernels inputIds positionIds batch

def forward (inputIds positionIds : List Nat) : Except Qwen35Error (HostTensor F) :=
  model.forwardBatch kernels inputIds positionIds 1 positionIds.length

/-- The row of the newest token. -/
def lastRow (hidden : HostTensor F) (seqLen hiddenSize : Nat) : Result (HostTensor F) :=
  if seqLen = 1 then .ok hidden else hidden.slice [0, seqLen - 1, 0] [1, seqLen, hiddenSize]

/-- What a forward pass with a cache does once its input has been checked. -/
def extendKvCache (tapeEnabled : Bool) (tokenIndices positions : List Nat)
    (cache : Qwen35KvCache F) : Except Qwen35Error (HostTensor F × Qwen35KvCache F) := do
  let seqLen := positions.length
  let cos ← selectCacheRows model.cosCache positions
  let sin ← selectCacheRows model.sinCache positions
  let hidden ← op (embedding model.embedTokens model.config.hiddenSize tokenIndices)
  let hidden ← op (hidden.reshape [1, seqLen, model.config.hiddenSize])
  let (hidden, layers) ← forwardLayersWithKvCache kernels tapeEnabled cos sin cache.seqLen
    model.layers cache.layers hidden
  let hidden ← op (mapRows model.finalNorm hidden)
  let hidden ← op (lastRow hidden seqLen model.config.hiddenSize)
  let logits ← op (mapRows model.lmHead hidden)
  return (logits, ⟨layers, cache.seqLen + seqLen⟩)

def forwardBatchIndicesWithKvCache (tapeEnabled : Bool) (tokenIndices positions : List Nat)
    (cache : Qwen35KvCache F) : Except Qwen35Error (HostTensor F × Qwen35KvCache F) :=
  let seqLen := positions.length
  if tokenIndices.length ≠ seqLen then .error (.inputLenMismatch tokenIndices.length seqLen)
  else if cache.layers.length ≠ model.layers.length then
    .error (.invalidConfig "rollout KV cache layer count does not match model")
  else if seqLen = 0 then
    .error (.invalidConfig "rollout KV cache requires at least one token")
  else if ∃ p ∈ positions.zipIdx, p.1 ≠ cache.seqLen + p.2 then
    .error (.invalidConfig
      "rollout KV cache requires contiguous positions starting at cache length")
  else match model.config.ropeCacheLenHint with
    | none => .error (.invalidConfig "train-side qwen3.5 requires rope_cache_len_hint")
    | some maxSeqLen =>
      if cache.seqLen + seqLen > maxSeqLen then
        .error (.invalidConfig
          "rollout KV cache sequence length exceeds configured rope cache length")
      else model.extendKvCache kernels tapeEnabled tokenIndices positions cache

def forwardRolloutCached (tapeEnabled : Bool) (inputIds positionIds : List Nat)
    (cache : Qwen35KvCache F) : Except Qwen35Error (HostTensor F × Qwen35KvCache F) :=
  if inputIds.length ≠ positionIds.length then
    .error (.inputLenMismatch inputIds.length positionIds.length)
  else model.forwardBatchIndicesWithKvCache kernels tapeEnabled inputIds positionIds cache

end Qwen35Model

/-! ## Greedy rollouts -/

/-- The messages of the third and the fourth error give the numbers. -/
inductive OpdError
  | forward (e : Qwen35Error)
  | emptyRollout
  | cannotSample (seqLen vocab : Nat)
  | logitsLengthMismatch (logitsLen expectedLen : Nat)
deriving DecidableEq

/-- `greedy_next_token`; the numbers are all finite. -/
def greedyNextToken (logits : HostTensor F) (seqLen vocab : Nat) : Except OpdError Nat :=
  if seqLen = 0 ∨ vocab = 0 then .error (.cannotSample seqLen vocab)
  else
    let expectedLen := seqLen * vocab
    if logits.data.length ≠ expectedLen then
      .error (.logitsLengthMismatch logits.data.length expectedLen)
    else
      let row := (logits.data.drop ((seqLen - 1) * vocab)).take vocab
      .ok (row.zipIdx.foldl (fun (best : Nat × WithBot F) (v, i) =>
        if best.2 < WithBot.some v then (i, WithBot.some v) else best) (0, ⊥)).1

/-- A round of `rollout_full_forward`. -/
def fullForwardStep (student : Qwen35Model F) (rollout : List Nat) :
    Except OpdError (List Nat) := do
  let positions := List.range rollout.length
  let logits ← (student.forward kernels rollout positions).mapError .forward
  let next ← greedyNextToken logits rollout.length student.config.vocabSize
  return rollout ++ [next]

def rolloutFullForward (student : Qwen35Model F) (promptIds : List Nat) (rolloutLen : Nat) :
    Except OpdError (List Nat) :=
  (List.range rolloutLen).foldlM (fun rollout _ => fullForwardStep kernels student rollout)
    promptIds

/-- The tokens that a round hands to the model, and their positions. -/
def nextInput (rollout : List Nat) (step : Nat) : Except OpdError (List Nat × List Nat) :=
  if step = 0 then .ok (rollout, List.range rollout.length)
  else match rollout.getLast? with
    | none => .error .emptyRollout
    | some last => .ok ([last], [rollout.length - 1])

/-- A round of the loop of `opd_step` that has a cache. The tape is disabled there. -/
def kvCacheStep (student : Qwen35Model F) (state : List Nat × Qwen35KvCache F) (step : Nat) :
    Except OpdError (List Nat × Qwen35KvCache F) := do
  let (rollout, rolloutCache) := state
  let (inputIds, positions) ← nextInput rollout step
  let (logits, rolloutCache) ←
    (student.forwardRolloutCached kernels false inputIds positions rolloutCache).mapError .forward
  let next ← greedyNextToken logits 1 student.config.vocabSize
  return (rollout ++ [next], rolloutCache)

/-- The rollout of `opd_step` on a student whose layers have caches. -/
def rolloutWithKvCache (student : Qwen35Model F) (promptIds : List Nat) (rolloutLen : Nat) :
    Except OpdError (List Nat) := do
  let rolloutCache := Qwen35KvCache.new student (promptIds.length + rolloutLen)
  let (rollout, _) ← (List.range rolloutLen).foldlM (kvCacheStep kernels student)
    (promptIds, rolloutCache)
  return rollout

end Forward

end Arle.Train.Rollout
