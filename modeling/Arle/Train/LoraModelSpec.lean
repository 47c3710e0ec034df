import Mathlib
import Arle.Train.LoraForward
import Arle.Train.LoraModel
import Arle.Train.LoraNames

/-!
# What is known of a model with adapters

However a model is built, its projections have the names and sizes of its configuration, those of
the target set have an adapter, and the adapter map has exactly the tensors of these adapters. All
of them stay in the store while the model is trained.
-/

namespace Arle.Train.Lora

open Arle.Autograd ParamStore

variable {F : Type}

/-! ## The projections of a layer -/

def Qwen35Attention.kind : Qwen35Attention F → LayerType
  | .full _ => .fullAttention
  | .linear _ => .linearAttention

def Qwen35Attention.projections : Qwen35Attention F → List (Proj × LinearWithLora F)
  | .full attn =>
    [(.qProj, attn.qProj), (.kProj, attn.kProj), (.vProj, attn.vProj), (.oProj, attn.oProj)]
  | .linear attn =>
    [(.inProjQkv, attn.inProjQkv), (.inProjZ, attn.inProjZ), (.inProjB, attn.inProjB),
      (.inProjA, attn.inProjA), (.outProj, attn.outProj)]

/-- The projections of a layer in the order in which they are registered. -/
def Qwen35Layer.projections (layer : Qwen35Layer F) : List (Proj × LinearWithLora F) :=
  (.gateProj, layer.mlp.gateProj) :: (.upProj, layer.mlp.upProj) ::
    (.downProj, layer.mlp.downProj) :: layer.selfAttn.projections

def Qwen35Layer.adapters (layer : Qwen35Layer F) : List (String × TensorId) :=
  layer.projections.flatMap fun p => p.2.adapterNameMap

def Qwen35Model.adapters (model : Qwen35Model F) : List (String × TensorId) :=
  model.layers.flatMap Qwen35Layer.adapters

/-- A query or value projection is in a layer with full attention. -/
theorem Qwen35Layer.exists_projection (layer : Qwen35Layer F) {proj : Proj}
    (hmodule : moduleOfProj proj ≠ none) :
    (∃ linear, (proj, linear) ∈ layer.projections) ↔ layer.selfAttn.kind = .fullAttention := by
  unfold projections Qwen35Attention.projections Qwen35Attention.kind
  cases layer.selfAttn with
  | full attn => cases proj <;> simp [moduleOfProj] at hmodule ⊢
  | linear attn => cases proj <;> simp [moduleOfProj] at hmodule ⊢

/-- A layer has a projection once. -/
theorem Qwen35Layer.projection_unique {layer : Qwen35Layer F} {proj : Proj}
    {linear linear' : LinearWithLora F} (h : (proj, linear) ∈ layer.projections)
    (h' : (proj, linear') ∈ layer.projections) : linear = linear' := by
  have hnodup : (layer.projections.map Prod.fst).Nodup := by
    unfold projections Qwen35Attention.projections
    cases layer.selfAttn with
    | full attn =>
      have hprojs : [Proj.gateProj, .upProj, .downProj, .qProj, .kProj, .vProj, .oProj].Nodup := by
        decide
      exact hprojs
    | linear attn =>
      have hprojs : [Proj.gateProj, .upProj, .downProj, .inProjQkv, .inProjZ, .inProjB, .inProjA,
          .outProj].Nodup := by
        decide
      exact hprojs
  have hfst := List.inj_on_of_nodup_map hnodup h h' rfl
  exact congrArg Prod.snd hfst

/-! ## The registry -/

namespace Registry

def insertPair (names : Assoc String TensorId) (named : String × TensorId) :
    Assoc String TensorId := names.insert named.1 named.2

/-- The tensors of a projection. -/
def idsOf (linear : LinearWithLora F) : List TensorId :=
  linear.weight :: linear.adapterNameMap.map Prod.snd

variable (registry : Registry)

theorem mem_pushUnseen {paramIds : List TensorId} {id id' : TensorId} :
    id ∈ pushUnseen paramIds id' ↔ id ∈ paramIds ∨ id = id' := by
  unfold pushUnseen
  split
  · next hmem => exact ⟨.inl, fun h => h.elim (fun h => h) fun heq => heq ▸ hmem⟩
  · rw [List.mem_append, List.mem_singleton]

theorem mem_foldl_pushUnseen {ids paramIds : List TensorId} {id : TensorId} :
    id ∈ ids.foldl pushUnseen paramIds ↔ id ∈ paramIds ∨ id ∈ ids := by
  induction ids generalizing paramIds with
  | nil => simp
  | cons id' ids ih => rw [List.foldl_cons, ih, mem_pushUnseen, List.mem_cons, or_assoc]

theorem foldl_adapter (named : List (String × TensorId)) :
    named.foldl adapter registry =
      ⟨registry.paramNames, named.foldl insertPair registry.adapterNames,
        (named.map Prod.snd).foldl pushUnseen registry.paramIds⟩ := by
  induction named generalizing registry with
  | nil => rfl
  | cons p named ih =>
    rw [List.foldl_cons, ih]
    rfl

@[simp] theorem adapterNames_param (named : String × TensorId) :
    (registry.param named).adapterNames = registry.adapterNames := rfl

@[simp] theorem adapterNames_linear (linear : LinearWithLora F) :
    (registry.linear linear).adapterNames =
      linear.adapterNameMap.foldl insertPair registry.adapterNames := by
  rw [Registry.linear, foldl_adapter]
  rfl

theorem mem_param {named : String × TensorId} {id : TensorId} :
    id ∈ (registry.param named).paramIds ↔ id ∈ registry.paramIds ∨ id = named.2 := mem_pushUnseen

theorem mem_linear {linear : LinearWithLora F} {id : TensorId} :
    id ∈ (registry.linear linear).paramIds ↔ id ∈ registry.paramIds ∨ id ∈ idsOf linear := by
  rw [Registry.linear, foldl_adapter, mem_foldl_pushUnseen, idsOf, List.mem_cons, ← or_assoc]
  exact or_congr_left mem_pushUnseen

theorem adapterNames_layer (layer : Qwen35Layer F) (layerIdx : Nat) :
    (registry.layer (layer, layerIdx)).adapterNames =
      layer.adapters.foldl insertPair registry.adapterNames := by
  obtain ⟨inputLayernorm, selfAttn, postAttentionLayernorm, mlp⟩ := layer
  cases selfAttn <;>
    simp [Registry.layer, Registry.attention, Qwen35Layer.adapters, Qwen35Layer.projections,
      Qwen35Attention.projections, List.foldl_append]

theorem mem_layer {layer : Qwen35Layer F} {layerIdx : Nat} {id : TensorId}
    (h : id ∈ registry.paramIds ∨ ∃ p ∈ layer.projections, id ∈ idsOf p.2) :
    id ∈ (registry.layer (layer, layerIdx)).paramIds := by
  obtain ⟨inputLayernorm, selfAttn, postAttentionLayernorm, mlp⟩ := layer
  unfold Qwen35Layer.projections Qwen35Attention.projections at h
  unfold Registry.layer Registry.attention
  cases selfAttn with
  | full attn | linear attn =>
    simp only [List.exists_mem_cons_iff, List.not_mem_nil, false_and, exists_false] at h
    simp only [mem_linear, mem_param]
    tauto

theorem adapterNames_layers (layers : List (Qwen35Layer F)) (k : Nat) :
    ((layers.zipIdx k).foldl Registry.layer registry).adapterNames =
      (layers.flatMap Qwen35Layer.adapters).foldl insertPair registry.adapterNames := by
  induction layers generalizing registry k with
  | nil => rfl
  | cons layer layers ih =>
    rw [List.zipIdx_cons, List.foldl_cons, ih, adapterNames_layer, List.flatMap_cons,
      List.foldl_append]

theorem mem_layers {layers : List (Qwen35Layer F)} {k : Nat} {id : TensorId}
    (h : id ∈ registry.paramIds ∨ ∃ layer ∈ layers, ∃ p ∈ layer.projections, id ∈ idsOf p.2) :
    id ∈ ((layers.zipIdx k).foldl Registry.layer registry).paramIds := by
  induction layers generalizing registry k with
  | nil =>
    refine h.resolve_right ?_
    rintro ⟨layer, hlayer, _⟩
    cases hlayer
  | cons layer layers ih =>
    rw [List.zipIdx_cons, List.foldl_cons]
    apply ih
    rw [List.exists_mem_cons_iff, ← or_assoc] at h
    exact h.imp_left (mem_layer registry)

/-! ### The entries of a map -/

def pairs (names : Assoc String TensorId) : List (String × TensorId) :=
  names.entries.map fun e => (e.1, e.2)

theorem mem_pairs {names : Assoc String TensorId} {p : String × TensorId} :
    p ∈ pairs names ↔ names.lookup p.1 = some p.2 := by
  rw [Assoc.lookup_eq_some, pairs, List.mem_map]
  constructor
  · rintro ⟨e, he, rfl⟩
    exact he
  · exact fun h => ⟨_, h, rfl⟩

theorem mem_of_lookup_foldl {named : List (String × TensorId)} {names : Assoc String TensorId}
    {name : String} {id : TensorId} (h : (named.foldl insertPair names).lookup name = some id) :
    (name, id) ∈ named ∨ names.lookup name = some id := by
  induction named generalizing names with
  | nil => exact .inr h
  | cons p named ih =>
    rcases ih h with hmem | hlookup
    · exact .inl (List.mem_cons_of_mem p hmem)
    · rw [insertPair, Assoc.lookup_insert_eq] at hlookup
      split at hlookup
      · rename_i hname
        cases hlookup
        rw [hname]
        exact .inl List.mem_cons_self
      · exact .inr hlookup

/-- A map has all that is inserted, if no name stands for two ids. -/
theorem mem_pairs_foldl {named : List (String × TensorId)}
    (hfun : ∀ p ∈ named, ∀ p' ∈ named, p.1 = p'.1 → p = p') {p : String × TensorId} :
    p ∈ pairs (named.foldl insertPair ∅) ↔ p ∈ named := by
  have hsome : ∀ (named : List (String × TensorId)) (names : Assoc String TensorId),
      (p ∈ named ∨ names.lookup p.1 ≠ none) → (named.foldl insertPair names).lookup p.1 ≠ none := by
    intro named
    induction named with
    | nil => exact fun names h => h.resolve_left List.not_mem_nil
    | cons p' named ih =>
      intro names h
      rw [List.foldl_cons]
      apply ih
      rw [insertPair, Assoc.lookup_insert_eq]
      rcases h with h | h
      · rcases List.mem_cons.mp h with rfl | h
        · exact .inr (by rw [if_pos rfl]; exact Option.some_ne_none _)
        · exact .inl h
      · refine .inr ?_
        split
        · exact Option.some_ne_none _
        · exact h
  have hof : ∀ {name id}, (named.foldl insertPair ∅).lookup name = some id → (name, id) ∈ named :=
    fun h => (mem_of_lookup_foldl h).resolve_right fun hnone => by cases hnone
  rw [mem_pairs]
  constructor
  · exact hof
  · intro hp
    obtain ⟨id, hid⟩ := Option.ne_none_iff_exists'.mp (hsome named ∅ (.inl hp))
    rw [hid, hfun p hp _ (hof hid) rfl]

end Registry

/-! ## Sharing base weights -/

section Share

variable {model base shared : Qwen35Model F}

theorem exists_of_bind_eq_ok {ε α β : Type} {x : Except ε α} {f : α → Except ε β} {b : β}
    (h : x >>= f = .ok b) : ∃ a, x = .ok a ∧ f a = .ok b := by
  cases x with
  | error e => cases h
  | ok a => exact ⟨a, rfl, h⟩

theorem forall₂_of_mapM {ε α β : Type} {f : α → Except ε β} {l : List α} {values : List β}
    (h : l.mapM f = .ok values) : List.Forall₂ (fun a b => f a = .ok b) l values := by
  induction l generalizing values with
  | nil =>
    cases h
    exact .nil
  | cons a l ih =>
    rw [List.mapM_cons] at h
    obtain ⟨b, hb, h⟩ := exists_of_bind_eq_ok h
    obtain ⟨rest, hrest, h⟩ := exists_of_bind_eq_ok h
    cases h
    exact .cons hb (ih hrest)

/-- A layer with the base weights of another. -/
theorem shareLayer_spec {layer baseLayer shared : Qwen35Layer F}
    (h : shareLayer layer baseLayer = .ok shared) :
    shared.selfAttn.kind = layer.selfAttn.kind ∧ shared.adapters = layer.adapters ∧
      ∀ p ∈ shared.projections, ∃ q ∈ layer.projections, ∃ b ∈ baseLayer.projections,
        b.1 = q.1 ∧ p = (q.1, q.2.setBaseWeight b.2.weight) := by
  obtain ⟨inputLayernorm, selfAttn, postAttentionLayernorm, mlp⟩ := layer
  obtain ⟨baseInput, baseAttn, basePost, baseMlp⟩ := baseLayer
  unfold shareLayer shareBaseAttention at h
  cases selfAttn with
  | full attn =>
    cases baseAttn with
    | linear base => cases h
    | full base =>
      cases h
      refine ⟨rfl, rfl, ?_⟩
      simp [Qwen35Layer.projections, Qwen35Attention.projections]
  | linear attn =>
    cases baseAttn with
    | full base => cases h
    | linear base =>
      cases h
      refine ⟨rfl, rfl, ?_⟩
      simp [Qwen35Layer.projections, Qwen35Attention.projections]

theorem mem_shareParamIds {id : TensorId} :
    id ∈ shareParamIds model base ↔
      id ∈ base.paramIds ∨ id ∈ model.paramIds ∧ id ∈ Assoc.values model.adapterNames := by
  unfold shareParamIds
  rw [Registry.mem_foldl_pushUnseen, Registry.mem_foldl_pushUnseen, List.mem_filter]
  simp

/-- The layers that share their weights with those of a base model. -/
structure SharesLayers (model base shared : Qwen35Model F) : Prop where
  length : shared.layers.length = model.layers.length
  layer : ∀ (layerIdx : Nat) (layer' : Qwen35Layer F), shared.layers[layerIdx]? = some layer' →
    ∃ layer baseLayer, model.layers[layerIdx]? = some layer ∧
      base.layers[layerIdx]? = some baseLayer ∧ shareLayer layer baseLayer = .ok layer'

theorem sharesLayers_of_ok (h : shareBaseParametersFrom model base = .ok shared) :
    SharesLayers model base shared ∧ shared.config = model.config ∧ shared.lora = model.lora ∧
      shared.loraTargetSet = model.loraTargetSet ∧ shared.adapterNames = model.adapterNames ∧
        shared.paramIds = shareParamIds model base := by
  unfold shareBaseParametersFrom at h
  split at h
  · cases h
  · rename_i hlen
    obtain ⟨layers, hlayers, h⟩ := exists_of_bind_eq_ok h
    cases h
    have hforall := forall₂_of_mapM hlayers
    have hcount := hforall.length_eq
    rw [List.length_zip, ← not_not.mp hlen, Nat.min_self] at hcount
    refine ⟨⟨hcount.symm, fun layerIdx layer' hget => ?_⟩, rfl, rfl, rfl, rfl, rfl⟩
    obtain ⟨hlt, rfl⟩ := List.getElem?_eq_some_iff.mp hget
    have hlt' : layerIdx < (model.layers.zip base.layers).length := hforall.length_eq ▸ hlt
    have hrun := (List.forall₂_iff_get.mp hforall).2 layerIdx hlt' hlt
    rw [List.length_zip, Nat.lt_min] at hlt'
    refine ⟨_, _, List.getElem?_eq_getElem hlt'.1, List.getElem?_eq_getElem hlt'.2, ?_⟩
    simpa using hrun

/-- The adapters stay those of the model. -/
theorem SharesLayers.adapters (h : SharesLayers model base shared) :
    shared.adapters = model.adapters := by
  have hmap : shared.layers.map Qwen35Layer.adapters = model.layers.map Qwen35Layer.adapters := by
    refine List.ext_getElem? fun layerIdx => ?_
    rw [List.getElem?_map, List.getElem?_map]
    cases hget : shared.layers[layerIdx]? with
    | none =>
      rw [List.getElem?_eq_none_iff, h.length] at hget
      rw [List.getElem?_eq_none hget]
    | some layer' =>
      obtain ⟨layer, baseLayer, hlayer, -, hrun⟩ := h.layer layerIdx layer' hget
      rw [hlayer, Option.map_some, Option.map_some, (shareLayer_spec hrun).2.1]
  rw [Qwen35Model.adapters, Qwen35Model.adapters, List.flatMap_def, List.flatMap_def, hmap]

end Share

/-! ## Projections that fit the configuration -/

theorem grows_newLmHead {bad : Prop} (initial : Initial F) (cfg : Qwen35Config)
    (embedTokens : TensorId) :
    Grows bad (newLmHead initial cfg embedTokens) fun _ _ => True := by
  unfold newLmHead
  split
  · exact (Grows.pure _).mono fun _ _ _ => trivial
  · exact (grows_normalParameter initial _ _).mono fun _ _ _ => trivial

theorem grows_ropeTable {bad : Prop} (entry : Nat → Nat → F) (maxPositions halfDim : Nat) :
    Grows bad (ropeTable entry maxPositions halfDim) fun _ _ => True := by
  refine (grows_allocTensor ?_).mono fun _ _ _ => trivial
  rw [List.length_map, List.length_range, shapeSize, List.prod_pair]

section Fits

variable [Field F] (cfg : Qwen35Config) (lora : Option (LoraConfig F)) (targetSet : LoraTargetSet)

def ProjFits (store : ParamStore F) (layerIdx : Nat) (p : Proj × LinearWithLora F) : Prop :=
  p.2.Fits store (p.1.tensorName layerIdx) (p.1.inFeatures cfg) (p.1.outFeatures cfg)
    (loraForName lora targetSet (p.1.tensorName layerIdx))

structure Qwen35Layer.Fits (store : ParamStore F) (layerIdx : Nat) (layer : Qwen35Layer F) :
    Prop where
  kind : cfg.layerTypes[layerIdx]? = some layer.selfAttn.kind
  projection : ∀ p ∈ layer.projections, ProjFits cfg lora targetSet store layerIdx p

structure Qwen35Model.Fits (store : ParamStore F) (model : Qwen35Model F) : Prop where
  layerTypes : model.config.layerTypes.length = model.config.numHiddenLayers.toNat
  layers : model.layers.length = model.config.numHiddenLayers.toNat
  layer : ∀ (layerIdx : Nat) (layer : Qwen35Layer F), model.layers[layerIdx]? = some layer →
    layer.Fits model.config model.lora model.loraTargetSet store layerIdx
  adapterNames : model.adapterNames = model.adapters.foldl Registry.insertPair ∅
  paramIds : ∀ layer ∈ model.layers, ∀ p ∈ layer.projections, ∀ id ∈ Registry.idsOf p.2,
    id ∈ model.paramIds

variable {cfg lora targetSet} (initial : Initial F) {layerIdx : Nat}

theorem monotone_projFits (p : Proj × LinearWithLora F) :
    Monotone fun store => ProjFits cfg lora targetSet store layerIdx p := monotone_fits p.2

theorem monotone_layerFits (layer : Qwen35Layer F) :
    Monotone fun store => layer.Fits cfg lora targetSet store layerIdx :=
  fun _ _ hle h => ⟨h.kind, fun p hp => monotone_projFits p hle (h.projection p hp)⟩

theorem grows_newProj (proj : Proj) : Grows (RankZero lora)
    (newProj initial cfg lora targetSet layerIdx proj) fun linear store =>
      ProjFits cfg lora targetSet store layerIdx (proj, linear) := by
  refine (grows_new initial).of_bad_imp ?_
  rintro ⟨loraCfg, hmem, hrank⟩
  exact ⟨loraCfg, Option.eq_some_of_filter_eq_some hmem, hrank⟩

theorem grows_newAttention (kind : LayerType) : Grows (RankZero lora)
    (newAttention initial cfg lora targetSet layerIdx kind) fun attn store =>
      attn.kind = kind ∧ ∀ p ∈ attn.projections, ProjFits cfg lora targetSet store layerIdx p := by
  have hproj : ∀ (proj : Proj) linear,
      Monotone fun store => ProjFits cfg lora targetSet store layerIdx (proj, linear) :=
    fun proj linear => monotone_projFits (proj, linear)
  have hshape : ∀ (shape : List Nat) id, Monotone fun store : ParamStore F =>
      store.HasShape id shape := fun shape id => monotone_hasShape id shape
  cases kind with
  | fullAttention =>
    refine ((grows_newProj initial .qProj).bind (hproj _) fun qProj =>
      (grows_newProj initial .kProj).bind (hproj _) fun kProj =>
      (grows_newProj initial .vProj).bind (hproj _) fun vProj =>
      (grows_newProj initial .oProj).bind (hproj _) fun oProj =>
      (grows_onesParameter _).bind (hshape _) fun qNorm =>
      (grows_onesParameter _).bind (hshape _) fun kNorm => .pure _).mono ?_
    rintro _ store ⟨qProj, hq, kProj, hk, vProj, hv, oProj, ho, qNorm, -, kNorm, -, rfl⟩
    refine ⟨rfl, ?_⟩
    simp only [Qwen35Attention.projections, List.forall_mem_cons]
    exact ⟨hq, hk, hv, ho, (fun _ h => by cases h)⟩
  | linearAttention =>
    refine ((grows_newProj initial .inProjQkv).bind (hproj _) fun inProjQkv =>
      (grows_newProj initial .inProjZ).bind (hproj _) fun inProjZ =>
      (grows_newProj initial .inProjB).bind (hproj _) fun inProjB =>
      (grows_newProj initial .inProjA).bind (hproj _) fun inProjA =>
      (grows_normalParameter initial _ _).bind (hshape _) fun conv1dWeight =>
      (grows_normalParameter initial _ _).bind (hshape _) fun dtBias =>
      (grows_normalParameter initial _ _).bind (hshape _) fun aLog =>
      (grows_onesParameter _).bind (hshape _) fun norm =>
      (grows_newProj initial .outProj).bind (hproj _) fun outProj => .pure _).mono ?_
    rintro _ store ⟨inProjQkv, hqkv, inProjZ, hz, inProjB, hb, inProjA, ha, conv1dWeight, -,
      dtBias, -, aLog, -, norm, -, outProj, hout, rfl⟩
    refine ⟨rfl, ?_⟩
    simp only [Qwen35Attention.projections, List.forall_mem_cons]
    exact ⟨hqkv, hz, hb, ha, hout, (fun _ h => by cases h)⟩

theorem grows_newLayer (hlt : layerIdx < cfg.layerTypes.length) : Grows (RankZero lora)
    (newLayer initial cfg lora targetSet layerIdx) fun layer store =>
      layer.Fits cfg lora targetSet store layerIdx := by
  have hproj : ∀ (proj : Proj) linear,
      Monotone fun store => ProjFits cfg lora targetSet store layerIdx (proj, linear) :=
    fun proj linear => monotone_projFits (proj, linear)
  have hattn : ∀ (kind : LayerType) (attn : Qwen35Attention F), Monotone fun store =>
      attn.kind = kind ∧ ∀ p ∈ attn.projections, ProjFits cfg lora targetSet store layerIdx p :=
    fun kind attn store store' hle h => ⟨h.1, fun p hp => monotone_projFits p hle (h.2 p hp)⟩
  unfold newLayer
  rw [List.getElem?_eq_getElem hlt]
  refine ((grows_onesParameter _).bind (fun id => monotone_hasShape id _) fun inputLayernorm =>
    (grows_newProj initial .gateProj).bind (hproj _) fun gateProj =>
    (grows_newProj initial .upProj).bind (hproj _) fun upProj =>
    (grows_newProj initial .downProj).bind (hproj _) fun downProj =>
    (grows_onesParameter _).bind (fun id => monotone_hasShape id _) fun postAttentionLayernorm =>
    (grows_newAttention initial _).bind (hattn _) fun selfAttn => .pure _).mono ?_
  rintro _ store ⟨inputLayernorm, -, gateProj, hgate, upProj, hup, downProj, hdown,
    postAttentionLayernorm, -, selfAttn, ⟨hkind, hattn⟩, rfl⟩
  refine ⟨?_, ?_⟩
  · rw [List.getElem?_eq_getElem hlt]
    exact congrArg some hkind.symm
  · simp only [Qwen35Layer.projections, List.forall_mem_cons]
    exact ⟨hgate, hup, hdown, hattn⟩

/-! ## Building a model -/

/-- The model has the configuration that it is built with. -/
structure Qwen35Model.Has (cfg : Qwen35Config) (lora : Option (LoraConfig F))
    (targetSet : LoraTargetSet) (model : Qwen35Model F) : Prop where
  config : model.config = cfg
  lora : model.lora = lora
  loraTargetSet : model.loraTargetSet = targetSet

theorem grows_buildModel (hlen : cfg.layerTypes.length = cfg.numHiddenLayers.toNat)
    (maxPositions : Nat) : Grows (RankZero lora)
      (buildModel initial cfg lora targetSet maxPositions) fun model store =>
        model.Has cfg lora targetSet ∧ model.Fits store := by
  have htrue : ∀ id : TensorId, Monotone fun _ : ParamStore F => True := fun _ _ _ _ h => h
  have hlayer : ∀ layerIdx ∈ List.range cfg.numHiddenLayers.toNat, Grows (RankZero lora)
      (newLayer initial cfg lora targetSet layerIdx) fun layer store =>
        layer.Fits cfg lora targetSet store layerIdx :=
    fun layerIdx hmem => grows_newLayer initial (hlen.symm ▸ List.mem_range.mp hmem)
  have hlayers : ∀ layers, Monotone fun store => List.Forall₂ (fun layerIdx
      (layer : Qwen35Layer F) => layer.Fits cfg lora targetSet store layerIdx)
      (List.range cfg.numHiddenLayers.toNat) layers :=
    fun layers store store' hle h => h.imp fun _ layer hfits => monotone_layerFits layer hle hfits
  refine ((grows_normalParameter initial _ _).bind (fun id => monotone_hasShape id _)
    fun embedTokens => (grows_newLmHead initial cfg embedTokens).bind htrue fun lmHead =>
    (Grows.mapM hlayer fun _ layer => monotone_layerFits layer).bind hlayers fun layers =>
    (grows_onesParameter _).bind (fun id => monotone_hasShape id _) fun finalNorm =>
    (grows_ropeTable _ _ _).bind htrue fun cosCache =>
    (grows_ropeTable _ _ _).bind htrue fun sinCache => .pure _).mono ?_
  rintro _ store ⟨embedTokens, -, lmHead, -, layers, hfits, finalNorm, -, cosCache, -, sinCache, -,
    rfl⟩
  have hcount := hfits.length_eq
  rw [List.length_range] at hcount
  refine ⟨⟨rfl, rfl, rfl⟩, hlen, hcount.symm, ?_, ?_, ?_⟩
  · intro layerIdx layer hlayer
    obtain ⟨hlt, rfl⟩ := List.getElem?_eq_some_iff.mp hlayer
    have hget := (List.forall₂_iff_get.mp hfits).2 layerIdx (by simpa [hcount] using hlt) hlt
    simpa using hget
  · exact Registry.adapterNames_layers _ layers 0
  · intro layer hmem p hp id hid
    refine Registry.mem_pushUnseen.mpr (.inl (Registry.mem_pushUnseen.mpr (.inl ?_)))
    refine (Registry.mem_param _).mpr (.inl (Registry.mem_layers _ (.inr ?_)))
    exact ⟨layer, hmem, p, hp, hid⟩

/-! ### The adapters of a model -/

def LoraWeights.id (lora : LoraWeights F) : Which → TensorId
  | .a => lora.loraA
  | .b => lora.loraB

variable {store store' : ParamStore F} {model : Qwen35Model F}

theorem mem_adapterNameMap {name : String} {inFeatures outFeatures : Nat}
    {loraCfg : Option (LoraConfig F)} {linear : LinearWithLora F}
    (h : linear.Fits store name inFeatures outFeatures loraCfg) {p : String × TensorId} :
    p ∈ linear.adapterNameMap ↔ ∃ lora which, linear.lora = some lora ∧
      p = (name ++ which.ending, lora.id which) := by
  obtain ⟨baseName, weight, lora⟩ := linear
  obtain ⟨-, -, hrel⟩ := h
  cases hrel with
  | none => exact ⟨nofun, nofun⟩
  | @some loraCfg lora hfits =>
    change p ∈ [(lora.loraAName, lora.loraA), (lora.loraBName, lora.loraB)] ↔ _
    rw [hfits.nameA, hfits.nameB, List.mem_cons, List.mem_singleton]
    constructor
    · rintro (rfl | rfl)
      · exact ⟨lora, .a, rfl, rfl⟩
      · exact ⟨lora, .b, rfl, rfl⟩
    · rintro ⟨_, which, heq, rfl⟩
      cases heq
      cases which with
      | a => exact .inl rfl
      | b => exact .inr rfl

theorem Qwen35Model.Fits.mem_adapters (h : model.Fits store) {p : String × TensorId} :
    p ∈ model.adapters ↔ ∃ layerIdx layer proj linear lora which,
      model.layers[layerIdx]? = some layer ∧ (proj, linear) ∈ layer.projections ∧
        linear.lora = some lora ∧ p = (adapterName layerIdx proj which, lora.id which) := by
  unfold Qwen35Model.adapters Qwen35Layer.adapters
  simp only [List.mem_flatMap]
  constructor
  · rintro ⟨layer, hlayer, ⟨proj, linear⟩, hproj, hp⟩
    obtain ⟨layerIdx, hget⟩ := List.mem_iff_getElem?.mp hlayer
    have hfits := (h.layer layerIdx layer hget).projection _ hproj
    obtain ⟨lora, which, hlora, rfl⟩ := (mem_adapterNameMap hfits).mp hp
    exact ⟨layerIdx, layer, proj, linear, lora, which, hget, hproj, hlora, rfl⟩
  · rintro ⟨layerIdx, layer, proj, linear, lora, which, hget, hproj, hlora, rfl⟩
    have hfits := (h.layer layerIdx layer hget).projection _ hproj
    exact ⟨layer, List.mem_of_getElem? hget, (proj, linear), hproj,
      (mem_adapterNameMap hfits).mpr ⟨lora, which, hlora, rfl⟩⟩

/-- No name stands for two adapter tensors. -/
theorem Qwen35Model.Fits.adapters_unique (h : model.Fits store) :
    ∀ p ∈ model.adapters, ∀ p' ∈ model.adapters, p.1 = p'.1 → p = p' := by
  intro p hp p' hp' hname
  obtain ⟨layerIdx, layer, proj, linear, lora, which, hget, hproj, hlora, rfl⟩ :=
    h.mem_adapters.mp hp
  obtain ⟨layerIdx', layer', proj', linear', lora', which', hget', hproj', hlora', rfl⟩ :=
    h.mem_adapters.mp hp'
  obtain ⟨rfl, rfl, rfl⟩ := adapterName_inj hname
  obtain rfl := Option.some.inj (hget.symm.trans hget')
  obtain rfl := Qwen35Layer.projection_unique hproj hproj'
  obtain rfl := Option.some.inj (hlora.symm.trans hlora')
  rfl

/-- The adapter map has the adapters of all projections. -/
theorem Qwen35Model.Fits.mem_adapterNames (h : model.Fits store) {p : String × TensorId} :
    p ∈ Registry.pairs model.adapterNames ↔ p ∈ model.adapters := by
  rw [h.adapterNames]
  exact Registry.mem_pairs_foldl h.adapters_unique

/-- What is known of a model stays known while its tensors keep their shapes. -/
theorem Qwen35Model.Fits.of_shapes (h : model.Fits store)
    (hshapes : ∀ id ∈ model.paramIds, ∀ shape, store.HasShape id shape → store'.HasShape id shape) :
    model.Fits store' := by
  refine { h with layer := fun layerIdx layer hget => ?_ }
  have hfits := h.layer layerIdx layer hget
  have hids := h.paramIds layer (List.mem_of_getElem? hget)
  refine ⟨hfits.kind, fun p hp => (hfits.projection p hp).of_shapes ?_ fun q hq => ?_⟩
  · exact hshapes _ (hids p hp _ List.mem_cons_self)
  · exact hshapes _ (hids p hp _ (List.mem_cons_of_mem _ (List.mem_map.mpr ⟨q, hq, rfl⟩)))

theorem Qwen35Model.Fits.mono (h : model.Fits store) (hle : store ≤ store') : model.Fits store' :=
  h.of_shapes fun id _ shape => monotone_hasShape id shape hle

/-! ## Models that are built and trained -/

theorem length_of_validate (h : cfg.validateTrainContract = .ok ()) :
    cfg.layerTypes.length = cfg.numHiddenLayers.toNat := by
  unfold Qwen35Config.validateTrainContract at h
  obtain ⟨_, hvalid, -⟩ := exists_of_bind_eq_ok h
  unfold Qwen35Config.validate at hvalid
  obtain ⟨_, -, hvalid⟩ := exists_of_bind_eq_ok hvalid
  obtain ⟨_, hlen, -⟩ := exists_of_bind_eq_ok hvalid
  unfold Qwen35Config.reject at hlen
  split at hlen
  · cases hlen
  · next hne => exact not_not.mp hne

theorem fits_of_newInternal
    (h : newInternal initial cfg lora targetSet store = .ok (model, store')) :
    store ≤ store' ∧ model.Has cfg lora targetSet ∧ model.Fits store' := by
  unfold newInternal at h
  obtain ⟨_, hvalid, h⟩ := exists_of_bind_eq_ok h
  split at h
  · cases h
  · rename_i maxPositions _
    split at h
    · cases h
    · rename_i built hbuilt
      cases h
      exact (grows_buildModel initial (length_of_validate hvalid) maxPositions).of_ok hbuilt

/-- Sharing the weights of a model with the same configuration. -/
theorem fits_of_share {base shared : Qwen35Model F} (hmodel : model.Fits store)
    (hbase : base.Fits store) (hcfg : model.config = base.config)
    (h : shareBaseParametersFrom model base = .ok shared) : shared.Fits store := by
  obtain ⟨hlayers, hconfig, hlora, htarget, hnames, hids⟩ := sharesLayers_of_ok h
  refine ⟨?_, ?_, ?_, ?_, ?_⟩
  · rw [hconfig]
    exact hmodel.layerTypes
  · rw [hconfig, hlayers.length]
    exact hmodel.layers
  · intro layerIdx layer' hget
    obtain ⟨layer, baseLayer, hlayer, hbaseLayer, hrun⟩ := hlayers.layer layerIdx layer' hget
    have hfits := hmodel.layer layerIdx layer hlayer
    have hbasefits := hbase.layer layerIdx baseLayer hbaseLayer
    obtain ⟨hkind, -, hprojections⟩ := shareLayer_spec hrun
    rw [hconfig, hlora, htarget]
    refine ⟨hfits.kind.trans (congrArg some hkind.symm), fun p hp => ?_⟩
    obtain ⟨q, hq, b, hb, hproj, rfl⟩ := hprojections p hp
    have hqfits := hfits.projection q hq
    have hweight := (hbasefits.projection b hb).weight
    rw [hproj, ← hcfg] at hweight
    exact ⟨hqfits.baseName, hweight, hqfits.lora⟩
  · rw [hnames, hlayers.adapters]
    exact hmodel.adapterNames
  · intro layer' hmem p hp id hid
    obtain ⟨layerIdx, hget⟩ := List.mem_iff_getElem?.mp hmem
    obtain ⟨layer, baseLayer, hlayer, hbaseLayer, hrun⟩ := hlayers.layer layerIdx layer' hget
    obtain ⟨q, hq, b, hb, -, rfl⟩ := (shareLayer_spec hrun).2.2 p hp
    have hlayer := List.mem_of_getElem? hlayer
    rw [hids, mem_shareParamIds]
    rcases List.mem_cons.mp hid with rfl | hid
    · exact .inl (hbase.paramIds baseLayer (List.mem_of_getElem? hbaseLayer) b hb _
        List.mem_cons_self)
    · refine .inr ⟨hmodel.paramIds layer hlayer q hq _ (List.mem_cons_of_mem _ hid), ?_⟩
      obtain ⟨named, hnamed, rfl⟩ := List.mem_map.mp hid
      have hadapter : named ∈ model.adapters :=
        List.mem_flatMap.mpr ⟨layer, hlayer, List.mem_flatMap.mpr ⟨q, hq, hnamed⟩⟩
      exact Assoc.mem_values.mpr ⟨_, Registry.mem_pairs.mp (hmodel.mem_adapterNames.mpr hadapter)⟩

/-- The models with their stores: one that is built, with weights of its own or those of a base
model, and one that is trained, which keeps the shapes of its tensors. -/
inductive Trained (initial : Initial F) : Qwen35Model F → ParamStore F → Prop
  | built {cfg : Qwen35Config} {lora : Option (LoraConfig F)} {targetSet : LoraTargetSet}
      {store store' : ParamStore F} {model : Qwen35Model F}
      (h : newInternal initial cfg lora targetSet store = .ok (model, store')) :
      Trained initial model store'
  | shared {base model : Qwen35Model F} {store store' : ParamStore F} {lora : LoraConfig F}
      {targetSet : LoraTargetSet} (hbase : Trained initial base store)
      (h : newLoraFromBase initial base lora targetSet store = .ok (model, store')) :
      Trained initial model store'
  | stepped {model : Qwen35Model F} {store store' : ParamStore F} (h : Trained initial model store)
      (hshapes : ∀ id ∈ model.paramIds, ∀ shape, store.HasShape id shape →
        store'.HasShape id shape) : Trained initial model store'

theorem Trained.fits {initial : Initial F} (h : Trained initial model store) :
    model.Fits store := by
  induction h with
  | built h => exact (fits_of_newInternal initial h).2.2
  | @shared base store lora targetSet model store' _ h ih =>
    unfold newLoraFromBase newWithLoraTargets at h
    obtain ⟨⟨built, store₁⟩, hbuilt, h⟩ := exists_of_bind_eq_ok h
    obtain ⟨shared, hshare, h⟩ := exists_of_bind_eq_ok h
    cases h
    obtain ⟨hle, hhas, hfits⟩ := fits_of_newInternal initial hbuilt
    have hshared := fits_of_share hfits (ih.mono hle) hhas.config hshare
    refine hshared.of_shapes fun id hid shape hshape => ?_
    obtain ⟨t, hget, hshape⟩ := hshape
    exact ⟨t, (Slab.get_retain _ _ _).trans ((if_pos (List.mem_append_right _ hid)).trans hget),
      hshape⟩
  | stepped _ hshapes ih => exact ih.of_shapes hshapes

end Fits

end Arle.Train.Lora
