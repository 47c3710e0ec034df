import Mathlib
import Arle.Train.RolloutAttention

/-!
# The cached rollout is the full rollout

`hiddenRows` gives the rows behind a stack of layers, position by position. Both forward passes
compute them: the one over the whole sequence by the causality of its attention, the other because
each cache holds the keys and values of what its layer has been given so far (`StackHolds`).
-/

namespace Arle.Train.Rollout

open Arle.Autograd

variable {F : Type} [Field F] (kernels : Kernels F) {cfg : Qwen35Config}

/-! ## Layers -/

section Layer

/-- The row behind a layer, from the row before and the row of its attention. -/
def mlpRow (layer : Qwen35Layer F cfg) (x attnOut : List F) : List F :=
  let x := List.zipWith (· + ·) x attnOut
  let h := layer.postAttentionLayernorm.apply x
  let act := List.zipWith (· * ·) ((layer.mlp.gateProj.apply h).map kernels.silu)
    (layer.mlp.upProj.apply h)
  List.zipWith (· + ·) x (layer.mlp.downProj.apply act)

theorem addMlp_eq {layer : Qwen35Layer F cfg} {m : Nat} {t a : HostTensor F}
    {row row' : Nat → Nat → List F}
    (ht : t.shape = [1, m, cfg.hiddenSize]) (ha : a.shape = [1, m, cfg.hiddenSize])
    (htrows : Rows 1 m cfg.hiddenSize t.data row) (harows : Rows 1 m cfg.hiddenSize a.data row') :
    ∃ y, layer.addMlp kernels t a = .ok y ∧ y.shape = [1, m, cfg.hiddenSize] ∧
      Rows 1 m cfg.hiddenSize y.data fun i j => mlpRow kernels layer (row i j) (row' i j) := by
  have hlead : [1, m].prod = 1 * m := by simp
  obtain ⟨sum, hsum, hsumshape, hsumrows⟩ := zipEntries_eq (· + ·) (ht.trans ha.symm) htrows harows
  have hsumshape' : sum.shape = [1, m] ++ [cfg.hiddenSize] := hsumshape.trans ht
  obtain ⟨h, hh, hhshape, hhrows⟩ := mapRows_eq layer.postAttentionLayernorm _ hsumshape' hlead
    hsumrows
  obtain ⟨gate, hgate, hgateshape, hgaterows⟩ := mapRows_eq layer.mlp.gateProj _ hhshape hlead hhrows
  obtain ⟨up, hup, hupshape, huprows⟩ := mapRows_eq layer.mlp.upProj _ hhshape hlead hhrows
  have hsame : (mapEntries kernels.silu gate).shape = up.shape := hgateshape.trans hupshape.symm
  obtain ⟨act, hact, hactshape, hactrows⟩ := zipEntries_eq (· * ·) hsame
    (mapEntries_rows kernels.silu hgaterows) huprows
  have hactshape' : act.shape = [1, m] ++ [cfg.intermediateSize] := hactshape.trans hgateshape
  obtain ⟨out, hout, houtshape, houtrows⟩ := mapRows_eq layer.mlp.downProj _ hactshape' hlead hactrows
  obtain ⟨y, hy, hyshape, hyrows⟩ := zipEntries_eq (· + ·) (hsumshape'.trans houtshape.symm) hsumrows
    houtrows
  refine ⟨y, ?_, hyshape.trans hsumshape', hyrows⟩
  have hsum' : add t a = .ok sum := hsum
  have hact' : mul (mapEntries kernels.silu gate) up = .ok act := hact
  unfold Qwen35Layer.addMlp
  rw [hsum', result_ok_bind, hh, result_ok_bind, hgate, result_ok_bind, hup, result_ok_bind, hact',
    result_ok_bind, hout, result_ok_bind]
  exact hy

variable [LinearOrder F] (attn : Qwen35FullAttention F cfg) (angles : Angles F)

/-- The rows that enter the attention of a layer. -/
def normedRows (layer : Qwen35Layer F cfg) (x : Nat → List F) (p : Nat) : List F :=
  layer.inputLayernorm.apply (x p)

def layerRow (layer : Qwen35Layer F cfg) (x : Nat → List F) (p : Nat) : List F :=
  mlpRow kernels layer (x p) (attentionRow kernels attn angles (normedRows layer x) p)

variable {attn angles} {layer : Qwen35Layer F cfg} {x : Nat → List F} {start m maxSeqLen : Nat}

theorem layer_forward_eq (hcfg : ValidHeads cfg) (hsgemm : kernels.sgemm.Multiplies)
    (hfull : layer.selfAttn = .full attn) (hm : m ≠ 0) {cos sin : List (List F)}
    (hcos : TableRows cos angles.cos 0 m) (hsin : TableRows sin angles.sin 0 m)
    {t : HostTensor F} (ht : t.shape = [1, m, cfg.hiddenSize])
    (hrows : Rows 1 m cfg.hiddenSize t.data fun _ j => x j) : ∃ y,
    layer.forward kernels t cos sin = .ok y ∧ y.shape = [1, m, cfg.hiddenSize] ∧
      Rows 1 m cfg.hiddenSize y.data fun _ j => layerRow kernels attn angles layer x j := by
  obtain ⟨h, hh, hhshape, hhrows⟩ := mapRows_eq layer.inputLayernorm [1, m] ht (by simp)
    hrows
  obtain ⟨a, ha, hashape, harows⟩ := forwardFullAttention_eq (h := normedRows layer x)
    kernels hcfg hsgemm hm hcos hsin hhshape hhrows
  obtain ⟨y, hy, hyshape, hyrows⟩ := addMlp_eq kernels ht hashape hrows harows
  refine ⟨y, ?_, hyshape, hyrows⟩
  have hattend : layer.attend kernels h cos sin 1 m = .ok a := by
    unfold Qwen35Layer.attend
    rw [hfull]
    exact ha
  unfold Qwen35Layer.forward
  rw [ht]
  dsimp only
  rw [hh, result_ok_bind, hattend, result_ok_bind, hy]

theorem layer_forwardWithKvCache_eq (hcfg : ValidHeads cfg)
    (hsgemm : kernels.sgemm.Multiplies) (hwrites : WritesRows kernels.kvCacheWriteAxis2)
    (hattends : AttendsHeads kernels.exp kernels.sqrt kernels.causalSdpaDecodeGqaCache)
    (hfull : layer.selfAttn = .full attn) (hchunk : m = 1 ∨ start = 0) (hm : m ≠ 0)
    (hroom : start + m ≤ maxSeqLen) {cos sin : List (List F)}
    (hcos : TableRows cos angles.cos start m) (hsin : TableRows sin angles.sin start m)
    {t : HostTensor F} (ht : t.shape = [1, m, cfg.hiddenSize])
    (hrows : Rows 1 m cfg.hiddenSize t.data fun _ j => x (start + j))
    {layerCache : Qwen35LayerKvCache F}
    (hcache : LayerHolds kernels attn angles (normedRows layer x) maxSeqLen start layerCache) :
    ∃ y layerCache', layer.forwardWithKvCache kernels false t cos sin layerCache start =
        .ok (y, layerCache') ∧
      y.shape = [1, m, cfg.hiddenSize] ∧
      Rows 1 m cfg.hiddenSize y.data (fun _ j =>
        layerRow kernels attn angles layer x (start + j)) ∧
      LayerHolds kernels attn angles (normedRows layer x) maxSeqLen (start + m) layerCache' := by
  obtain ⟨h, hh, hhshape, hhrows⟩ := mapRows_eq layer.inputLayernorm [1, m] ht (by simp)
    hrows
  obtain ⟨a, layerCache', ha, hashape, harows, hholds⟩ := forwardFullAttentionWithKvCache_eq kernels
    hcfg hsgemm hwrites hattends hchunk hm hroom hcos hsin hhshape hhrows hcache
  obtain ⟨y, hy, hyshape, hyrows⟩ := addMlp_eq kernels ht hashape hrows harows
  refine ⟨y, layerCache', ?_, hyshape, hyrows, hholds⟩
  have hattend : layer.attendWithKvCache kernels false h cos sin 1 m layerCache start =
      .ok (a, layerCache') := by
    unfold Qwen35Layer.attendWithKvCache
    rw [hfull]
    exact ha
  unfold Qwen35Layer.forwardWithKvCache
  rw [ht]
  dsimp only
  rw [hh]
  change (layer.attendWithKvCache kernels false h cos sin 1 m layerCache start >>= fun _ => _) = _
  rw [hattend, ok_bind, hy]
  rfl

end Layer

/-! ## The stack of layers -/

section Stack

variable [LinearOrder F] (angles : Angles F)

/-- The rows behind a stack of layers, all of them with full attention. -/
def hiddenRows (layers : List (Qwen35Layer F cfg)) (x : Nat → List F) : Nat → List F :=
  layers.foldl (fun x layer => match layer.selfAttn with
    | .full attn => layerRow kernels attn angles layer x
    | .linear _ => x) x

/-- The caches of a stack hold what its layers have been given of the positions up to `n`. -/
inductive StackHolds (maxSeqLen n : Nat) :
    List (Qwen35Layer F cfg) → List (Qwen35LayerKvCache F) → (Nat → List F) → Prop
  | nil {x : Nat → List F} : StackHolds maxSeqLen n [] [] x
  | cons {layer : Qwen35Layer F cfg} {attn : Qwen35FullAttention F cfg}
      {layerCache : Qwen35LayerKvCache F} {layers : List (Qwen35Layer F cfg)}
      {caches : List (Qwen35LayerKvCache F)} {x : Nat → List F}
      (hfull : layer.selfAttn = .full attn)
      (hlayer : LayerHolds kernels attn angles (normedRows layer x) maxSeqLen n layerCache)
      (hlayers : StackHolds maxSeqLen n layers caches (layerRow kernels attn angles layer x)) :
      StackHolds maxSeqLen n (layer :: layers) (layerCache :: caches) x

variable {angles} {layers : List (Qwen35Layer F cfg)} {x : Nat → List F} {start m maxSeqLen : Nat}

theorem hiddenRows_cons {layer : Qwen35Layer F cfg} {attn : Qwen35FullAttention F cfg}
    (hfull : layer.selfAttn = .full attn) : hiddenRows kernels angles (layer :: layers) x =
      hiddenRows kernels angles layers (layerRow kernels attn angles layer x) := by
  unfold hiddenRows
  rw [List.foldl_cons, hfull]

theorem StackHolds.length {caches : List (Qwen35LayerKvCache F)} {n : Nat}
    (h : StackHolds kernels angles maxSeqLen n layers caches x) : caches.length = layers.length := by
  induction h with
  | nil => rfl
  | cons _ _ _ ih => rw [List.length_cons, List.length_cons, ih]

theorem StackHolds.seqCursor {caches : List (Qwen35LayerKvCache F)} {n : Nat}
    (h : StackHolds kernels angles maxSeqLen n layers caches x) :
    ∀ layerCache ∈ caches, layerCache.seqCursor = n := by
  induction h with
  | nil => exact fun _ hin => by cases hin
  | cons _ hlayer _ ih => exact List.forall_mem_cons.mpr ⟨hlayer.seqCursor, ih⟩

/-- New caches hold nothing. -/
theorem stackHolds_new (hfull : ∀ layer ∈ layers, ∃ attn, layer.selfAttn = .full attn) :
    StackHolds kernels angles maxSeqLen 0 layers
      (List.replicate layers.length ⟨none, none, maxSeqLen, 0⟩) x := by
  induction layers generalizing x with
  | nil => exact .nil
  | cons layer layers ih =>
    obtain ⟨attn, hattn⟩ := hfull layer List.mem_cons_self
    exact .cons hattn ⟨rfl, rfl, rfl, rfl⟩ (ih fun layer h => hfull layer (List.mem_cons_of_mem _ h))

theorem layers_forward_eq (hcfg : ValidHeads cfg) (hsgemm : kernels.sgemm.Multiplies)
    (hfull : ∀ layer ∈ layers, ∃ attn, layer.selfAttn = .full attn) (hm : m ≠ 0)
    {cos sin : List (List F)}
    (hcos : TableRows cos angles.cos 0 m) (hsin : TableRows sin angles.sin 0 m)
    {t : HostTensor F} (ht : t.shape = [1, m, cfg.hiddenSize])
    (hrows : Rows 1 m cfg.hiddenSize t.data fun _ j => x j) : ∃ y,
    layers.foldlM (fun hidden layer => layer.forward kernels hidden cos sin) t = .ok y ∧
      y.shape = [1, m, cfg.hiddenSize] ∧
      Rows 1 m cfg.hiddenSize y.data fun _ j => hiddenRows kernels angles layers x j := by
  induction layers generalizing t x with
  | nil => exact ⟨t, rfl, ht, hrows⟩
  | cons layer layers ih =>
    obtain ⟨attn, hattn⟩ := hfull layer List.mem_cons_self
    obtain ⟨u, hu, hushape, hurows⟩ := layer_forward_eq kernels hcfg hsgemm hattn hm hcos hsin ht
      hrows
    obtain ⟨y, hy, hyshape, hyrows⟩ := ih (fun layer h => hfull layer (List.mem_cons_of_mem _ h))
      hushape hurows
    rw [List.foldlM_cons, hu, result_ok_bind, hiddenRows_cons kernels hattn]
    exact ⟨y, hy, hyshape, hyrows⟩

/-- A chunk of rows goes through the stack: each layer hands on the rows that the full forward
pass has at these positions, and its cache grows by them. -/
theorem forwardLayersWithKvCache_eq (hcfg : ValidHeads cfg) (hsgemm : kernels.sgemm.Multiplies)
    (hwrites : WritesRows kernels.kvCacheWriteAxis2)
    (hattends : AttendsHeads kernels.exp kernels.sqrt kernels.causalSdpaDecodeGqaCache)
    (hchunk : m = 1 ∨ start = 0) (hm : m ≠ 0) (hroom : start + m ≤ maxSeqLen)
    {cos sin : List (List F)} (hcos : TableRows cos angles.cos start m)
    (hsin : TableRows sin angles.sin start m) {t : HostTensor F}
    (ht : t.shape = [1, m, cfg.hiddenSize])
    (hrows : Rows 1 m cfg.hiddenSize t.data fun _ j => x (start + j))
    {caches : List (Qwen35LayerKvCache F)}
    (hcaches : StackHolds kernels angles maxSeqLen start layers caches x) : ∃ y caches',
    forwardLayersWithKvCache kernels false cos sin start layers caches t = .ok (y, caches') ∧
      y.shape = [1, m, cfg.hiddenSize] ∧
      Rows 1 m cfg.hiddenSize y.data
        (fun _ j => hiddenRows kernels angles layers x (start + j)) ∧
      StackHolds kernels angles maxSeqLen (start + m) layers caches' x := by
  induction hcaches generalizing t with
  | nil => exact ⟨t, [], rfl, ht, hrows, .nil⟩
  | @cons layer attn layerCache layers caches x hattn hlayer _ ih =>
    obtain ⟨u, layerCache', hu, hushape, hurows, hlayer'⟩ := layer_forwardWithKvCache_eq kernels
      hcfg hsgemm hwrites hattends hattn hchunk hm hroom hcos hsin ht hrows hlayer
    obtain ⟨y, caches', hy, hyshape, hyrows, hcaches'⟩ := ih hushape hurows
    rw [hiddenRows_cons kernels hattn]
    refine ⟨y, layerCache' :: caches', ?_, hyshape, hyrows, .cons hattn hlayer' hcaches'⟩
    rw [forwardLayersWithKvCache, hu, ok_bind]
    dsimp only
    rw [hy]
    rfl

end Stack

/-! ## The forward passes of a model -/

section Model

theorem selectCacheRows_eq {F : Type} (cache : List (List F)) (start : Nat) {m : Nat}
    (h : start + m ≤ cache.length) : ∃ rows,
    selectCacheRows cache (List.range' start m) = .ok rows ∧
      TableRows rows (fun p => cache.getD p []) start m := by
  refine ⟨(List.range' start m).map fun p => cache.getD p [], Dot.mapM_ok fun p hp => ?_, ?_, ?_⟩
  · have hp := List.mem_range'_1.mp hp
    have hlt : p < cache.length := by omega
    rw [List.getElem?_eq_getElem hlt, List.getD_eq_getElem _ _ hlt]
  · rw [List.length_map, List.length_range']
  · intro j hj
    rw [List.getD_eq_getElem?_getD, List.getElem?_map,
      List.getElem?_eq_getElem (by rwa [List.length_range']), List.getElem_range', Nat.one_mul]
    rfl

namespace Qwen35Model

/-- All layers have full attention. -/
def AllFull {F : Type} (model : Qwen35Model F) : Prop :=
  ∀ layer ∈ model.layers, ∃ attn, layer.selfAttn = .full attn

theorem allFull_of_supports {F : Type} (model : Qwen35Model F)
    (h : supportsRolloutKvCache model = true) : model.AllFull := by
  intro layer hlayer
  have hkind := List.all_eq_true.mp h layer hlayer
  cases hattn : layer.selfAttn with
  | full attn => exact ⟨attn, rfl⟩
  | linear forwardLinearAttention =>
    rw [hattn] at hkind
    cases hkind

variable (model : Qwen35Model F)

def angles (model : Qwen35Model F) : Angles F where
  cos p := model.cosCache.getD p []
  sin p := model.sinCache.getD p []

def tokenRow (tokens : List Nat) (p : Nat) : List F :=
  embeddingRow model.embedTokens model.config.hiddenSize (tokens.getD p 0)

/-- Every token has a row in the table. -/
def Known (ids : List Nat) : Prop := ∀ id ∈ ids, id < model.embedTokens.length

/-- The embedding of a chunk, as it enters the layers. -/
theorem embed_eq {ids : List Nat} (hids : model.Known ids) : ∃ t t',
    embedding model.embedTokens model.config.hiddenSize ids = .ok t ∧
      t.reshape [1, ids.length, model.config.hiddenSize] = .ok t' ∧
      t'.shape = [1, ids.length, model.config.hiddenSize] ∧
      Rows 1 ids.length model.config.hiddenSize t'.data fun _ j => model.tokenRow ids j := by
  obtain ⟨t, ht, htshape, htrows⟩ := embedding_eq model.width_embedTokens hids
  exact ⟨t, _, ht, HostTensor.reshape_eq (congrArg shapeSize htshape.symm), rfl, htrows⟩

variable [LinearOrder F]

/-- The logits behind a token depend on the tokens up to it. -/
def logitsRow (tokens : List Nat) (p : Nat) : List F :=
  model.lmHead.apply (model.finalNorm.apply
    (hiddenRows kernels model.angles model.layers (model.tokenRow tokens) p))

theorem forward_eq (hfull : model.AllFull) (hsgemm : kernels.sgemm.Multiplies) {ids : List Nat}
    (hids : model.Known ids) (hne : ids ≠ []) (hrope : ids.length ≤ model.cosCache.length) : ∃ y,
    model.forward kernels ids (List.range ids.length) = .ok y ∧
      y.shape = [1, ids.length, model.config.vocabSize] ∧
      Rows 1 ids.length model.config.vocabSize y.data fun _ j =>
        model.logitsRow kernels ids j := by
  have hcfg := validHeads_of_validate model.validated
  have hm : ids.length ≠ 0 := fun h => hne (List.length_eq_zero_iff.mp h)
  have hlead : [1, ids.length].prod = 1 * ids.length := by simp
  obtain ⟨cos, hcos, hcosrows⟩ := selectCacheRows_eq model.cosCache 0
    (m := ids.length) (by omega)
  obtain ⟨sin, hsin, hsinrows⟩ := selectCacheRows_eq model.sinCache 0
    (m := ids.length) (by rw [model.length_sinCache]; omega)
  obtain ⟨t, t', ht, ht', htshape, htrows⟩ := model.embed_eq hids
  have hcosrows : TableRows cos model.angles.cos 0 ids.length := hcosrows
  obtain ⟨u, hu, hushape, hurows⟩ := layers_forward_eq kernels hcfg hsgemm
    hfull hm hcosrows hsinrows htshape htrows
  obtain ⟨w, hw, hwshape, hwrows⟩ := mapRows_eq model.finalNorm [1, ids.length] hushape
    hlead hurows
  obtain ⟨y, hy, hyshape, hyrows⟩ := mapRows_eq model.lmHead _ hwshape hlead hwrows
  refine ⟨y, ?_, hyshape, hyrows⟩
  rw [← List.range_eq_range'] at hcos hsin
  have hlen : (List.range ids.length).length = ids.length := List.length_range
  have hhidden : model.forwardBatchHiddenIndices kernels ids (List.range ids.length) 1 = .ok w := by
    unfold forwardBatchHiddenIndices
    dsimp only
    rw [hlen, if_neg (not_not_intro (Nat.one_mul _).symm), hcos, ok_bind, hsin, ok_bind, ht]
    change (op (t.reshape _) >>= fun _ => _) = _
    rw [ht']
    change (op (List.foldlM _ t' model.layers) >>= fun _ => _) = _
    rw [hu]
    change op (mapRows model.finalNorm u) = _
    rw [hw]
    rfl
  unfold forward forwardBatch
  rw [hlen, if_neg (not_not_intro (Nat.one_mul _).symm), if_neg (not_not_intro rfl),
    model.length_cosCache]
  dsimp only
  rw [if_neg (Nat.not_lt_of_le hrope), forwardBatchIndices, hhidden, ok_bind, hy]
  rfl

end Qwen35Model

end Model

end Arle.Train.Rollout
