import Mathlib
import Arle.Train.LoraSyncSpec

/-!
# The engine runs the adapters that it is sent

After an update the engine has the merged weights of the query and value projections, and the base
weights of all others. So it runs the model that is trained if only these projections have
adapters, and the adapters of other projections are left out.
-/

namespace Arle.Train.Lora

open Arle.Autograd ParamStore MatrixData

variable {F : Type} {store : ParamStore F}

section Model

variable [Field F] {model : Qwen35Model F} {cfg : LoraConfig F} {layerIdx : Nat}
  {layer : Qwen35Layer F} {proj : Proj} {linear : LinearWithLora F}

/-! ## The engine -/

/-- The weights of an engine: the data of each projection of each layer. -/
abbrev Engine (F : Type) := Nat → Proj → List F

/-- What `remerge_student_lora` is relied on for: the projections that the update lists have the
scaled product folded into their base weight, and the others have the base weight. -/
def Remerges (remerge : Engine F → StudentLoraUpdate F → Engine F) : Prop :=
  ∀ base update layerIdx proj, remerge base update layerIdx proj =
    match update.listed layerIdx proj with
    | none => base layerIdx proj
    | some matrices => ofMatrix (
        toMatrix matrices.outFeatures matrices.inFeatures (base layerIdx proj) +
        (update.alpha / update.rank) • (toMatrix matrices.outFeatures matrices.rank matrices.b *
          toMatrix matrices.rank matrices.inFeatures matrices.a))

/-- The engine was loaded with the base weights of the model. -/
def HoldsBase (base : Engine F) (model : Qwen35Model F) (store : ParamStore F) : Prop :=
  ∀ layerIdx layer proj linear, model.layers[layerIdx]? = some layer →
    (proj, linear) ∈ layer.projections → base layerIdx proj = store.data linear.weight

variable {update : StudentLoraUpdate F} {remerge : Engine F → StudentLoraUpdate F → Engine F}
  {base : Engine F}

theorem listed_of_module (h : model.Fits store) (hlora : model.lora = some cfg)
    (hcarries : Carries model store cfg update) (hget : model.layers[layerIdx]? = some layer)
    (hproj : (proj, linear) ∈ layer.projections) (hmodule : moduleOfProj proj ≠ none) :
    ∃ lora, linear.lora = some lora ∧ update.listed layerIdx proj =
      some (adapterMatrices model.config store cfg.rank proj lora) := by
  obtain ⟨lora, hlinear⟩ := exists_lora h hlora hget hproj hmodule
  obtain ⟨module, hmoduleEq⟩ := Option.ne_none_iff_exists'.mp hmodule
  obtain rfl := moduleOfProj_eq_some.mp hmoduleEq
  obtain ⟨out, hout, hidx⟩ := (hcarries.full layerIdx).mpr
    ⟨layer, hget, (layer.exists_projection hmodule).mp ⟨linear, hproj⟩⟩
  refine ⟨lora, hlinear, ?_⟩
  unfold StudentLoraUpdate.listed
  rw [hmoduleEq, Option.bind_some]
  cases hfind : update.layers.find? (·.layerIdx = layerIdx) with
  | none =>
    rw [List.find?_eq_none] at hfind
    exact absurd (decide_eq_true hidx) (hfind out hout)
  | some found =>
    have hfoundIdx : found.layerIdx = layerIdx := by simpa using List.find?_some hfind
    have hsends := hcarries.layer found (List.mem_of_find?_eq_some hfind)
    rw [hfoundIdx] at hsends
    exact hsends.matrices layer module linear lora hget hproj hlinear

theorem remerge_of_module (hremerge : Remerges remerge) (h : model.Fits store)
    (hlora : model.lora = some cfg) (hcarries : Carries model store cfg update)
    (hbase : HoldsBase base model store) (hget : model.layers[layerIdx]? = some layer)
    (hproj : (proj, linear) ∈ layer.projections) (hmodule : moduleOfProj proj ≠ none) :
    remerge base update layerIdx proj = ofMatrix (mergedMatrix store
      (proj.inFeatures model.config) (proj.outFeatures model.config) linear) := by
  obtain ⟨lora, hlinear, hlisted⟩ := listed_of_module h hlora hcarries hget hproj hmodule
  have hfits := fits_of_lora h hlora hget hproj hlinear
  rw [hremerge, hlisted, hbase layerIdx layer proj linear hget hproj, mergedMatrix, hlinear,
    adapterMatrix, hfits.scale, hfits.rank, hcarries.rank, hcarries.alpha]
  rfl

theorem remerge_of_other (hremerge : Remerges remerge) (hmodule : moduleOfProj proj = none) :
    remerge base update layerIdx proj = base layerIdx proj := by
  rw [hremerge, StudentLoraUpdate.listed, hmodule]
  rfl

end Model

/-- An engine with the base weights of a model. -/
def baseEngine (model : Qwen35Model F) (store : ParamStore F) : Engine F := fun layerIdx proj =>
  match model.layers[layerIdx]?.bind fun layer => layer.projections.find? (·.1 = proj) with
  | none => []
  | some p => store.data p.2.weight

theorem holdsBase_baseEngine (model : Qwen35Model F) (store : ParamStore F) :
    HoldsBase (baseEngine model store) model store := by
  intro layerIdx layer proj linear hget hproj
  unfold baseEngine
  rw [hget, Option.bind_some]
  cases hfind : layer.projections.find? (·.1 = proj) with
  | none =>
    rw [List.find?_eq_none] at hfind
    exact absurd (decide_eq_true rfl) (hfind _ hproj)
  | some p =>
    have hfst : p.1 = proj := by simpa using List.find?_some hfind
    obtain rfl := Qwen35Layer.projection_unique hproj
      (hfst ▸ List.mem_of_find?_eq_some hfind : (proj, p.2) ∈ layer.projections)
    rfl

/-! ## The main result -/

variable [Field F]

/-- The forward pass is the product with the transpose of the merged weight, for every input with
rows of this size; a size of zero makes it panic. -/
def ForwardIs (sgemm : StridedSgemm F) (store : ParamStore F) (linear : LinearWithLora F)
    (inFeatures outFeatures : Nat) (merged : HostTensor F) : Prop :=
  ∀ x : HostTensor F, x.shape.getLast? = some inFeatures →
    if inFeatures = 0 then linear.forward sgemm x store = .error .panicked
    else ∃ y, linear.forward sgemm x store = .ok y ∧
      y.shape = x.shape.dropLast ++ [outFeatures] ∧
        toMatrix x.shape.dropLast.prod outFeatures y.data =
          toMatrix x.shape.dropLast.prod inFeatures x.data *
            (toMatrix outFeatures inFeatures merged.data).transpose

theorem forwardIs_of_fits {sgemm : StridedSgemm F} (hsgemm : sgemm.Multiplies) {name : String}
    {inFeatures outFeatures : Nat} {cfg : Option (LoraConfig F)} {linear : LinearWithLora F}
    (h : linear.Fits store name inFeatures outFeatures cfg) {merged : HostTensor F}
    (hmerged : toMatrix outFeatures inFeatures merged.data =
      mergedMatrix store inFeatures outFeatures linear) :
    ForwardIs sgemm store linear inFeatures outFeatures merged := by
  intro x hx
  split
  · next hzero =>
    subst hzero
    exact forward_of_empty_rows h hx
  · next hne =>
    rw [hmerged]
    exact forward_eq hsgemm h hx hne

/-- The engine runs the adapters of the query and value projections, and the projections without
an adapter. -/
theorem engine_runs_sent_adapters {initial : Initial F} {sgemm : StridedSgemm F}
    {remerge : Engine F → StudentLoraUpdate F → Engine F} (hsgemm : sgemm.Multiplies)
    (hremerge : Remerges remerge) {model : Qwen35Model F} {store : ParamStore F}
    (htrained : Trained initial model store) {cfg : LoraConfig F} (hlora : model.lora = some cfg)
    {adapterMap : List (String × TensorId)}
    (hmap : adapterMap.Perm (Registry.pairs model.adapterNames)) {base : Engine F}
    (hbase : HoldsBase base model store) :
    ((∃ e, syncLoraFromStore store adapterMap cfg = .error e) ↔
      ∀ layer ∈ model.layers, layer.selfAttn.kind = .linearAttention) ∧
    ∀ layerIdx layer proj linear, model.layers[layerIdx]? = some layer →
      (proj, linear) ∈ layer.projections → ∃ merged, linear.mergedTensor store = .ok merged ∧
        ForwardIs sgemm store linear (proj.inFeatures model.config)
          (proj.outFeatures model.config) merged ∧
        ∀ update, syncLoraFromStore store adapterMap cfg = .ok update →
          (proj = .qProj ∨ proj = .vProj ∨ linear.lora = none →
            remerge base update layerIdx proj = merged.data) ∧
          (proj ≠ .qProj → proj ≠ .vProj →
            remerge base update layerIdx proj = base layerIdx proj) ∧
          (model.loraTargetSet = .attentionQv →
            remerge base update layerIdx proj = merged.data) := by
  have h := htrained.fits
  have hadapters : ∀ p, p ∈ adapterMap ↔ p ∈ model.adapters := fun p =>
    hmap.mem_iff.trans h.mem_adapterNames
  have hkind : ∀ layer : Qwen35Layer F,
      layer.selfAttn.kind ≠ .fullAttention ↔ layer.selfAttn.kind = .linearAttention := by
    intro layer
    cases layer.selfAttn.kind <;> decide
  have hmodule : ∀ proj, moduleOfProj proj ≠ none ↔ proj = .qProj ∨ proj = .vProj := by
    intro proj
    cases proj <;> decide
  refine ⟨⟨?error, ?nothing⟩, ?projections⟩
  case error =>
    rintro ⟨e, he⟩
    by_contra hnot
    obtain ⟨layer, hlayer⟩ := not_forall.mp hnot
    obtain ⟨hmem, hne⟩ := Classical.not_imp.mp hlayer
    obtain ⟨update, hupdate, -⟩ := sync_ok h hlora hadapters
      ⟨layer, hmem, not_not.mp fun hfull => hne ((hkind layer).mp hfull)⟩
    cases he.symm.trans hupdate
  case nothing =>
    intro hlinear
    exact sync_error h hlora hadapters fun layer hmem => (hkind layer).mpr (hlinear layer hmem)
  case projections =>
    intro layerIdx layer proj linear hget hproj
    have hfits := (h.layer layerIdx layer hget).projection _ hproj
    obtain ⟨merged, hrun, hshape, hmatrix⟩ := mergedTensor_eq hfits
    refine ⟨merged, hrun, forwardIs_of_fits hsgemm hfits hmatrix, fun update hupdate => ?_⟩
    have hdata := eq_ofMatrix (length_of_shape hshape) hmatrix
    -- The base weight is the merged one where there is no adapter.
    have hnone : linear.lora = none → moduleOfProj proj = none →
        remerge base update layerIdx proj = merged.data := by
      intro hnone hother
      obtain ⟨weight, hweight, hweightShape⟩ := hfits.weight
      rw [remerge_of_other hremerge hother, hbase layerIdx layer proj linear hget hproj, hdata,
        mergedMatrix, hnone, adapterMatrix, add_zero, ofMatrix_toMatrix]
      rw [data_eq hweight]
      exact length_of_shape hweightShape
    have hsent : moduleOfProj proj ≠ none → remerge base update layerIdx proj = merged.data := by
      intro hne
      obtain ⟨update', hupdate', hcarries⟩ := sync_ok h hlora hadapters
        ⟨layer, List.mem_of_getElem? hget, (layer.exists_projection hne).mp ⟨linear, hproj⟩⟩
      cases hupdate.symm.trans hupdate'
      rw [remerge_of_module hremerge h hlora hcarries hbase hget hproj hne, hdata]
    refine ⟨?_, ?_, ?_⟩
    · intro hcase
      by_cases hne : moduleOfProj proj = none
      · refine hnone ?_ hne
        rcases hcase with hq | hv | hcase
        · exact absurd hne ((hmodule proj).mpr (.inl hq))
        · exact absurd hne ((hmodule proj).mpr (.inr hv))
        · exact hcase
      · exact hsent hne
    · intro hq hv
      exact remerge_of_other hremerge
        (not_not.mp fun hne => ((hmodule proj).mp hne).elim hq hv)
    · intro htarget
      by_cases hne : moduleOfProj proj = none
      · refine hnone ?_ hne
        have hrel := hfits.lora
        rw [htarget, hlora, loraForName, Option.filter_some, includes_attentionQv] at hrel
        rw [hne] at hrel
        generalize linear.lora = lora at hrel
        cases hrel
        rfl
      · exact hsent hne

/-! ## A small model -/

def plainStridedSgemm : StridedSgemm F := fun m k n a rsa csa b rsb csb =>
  FillLoop.perRow m n fun row col => ((List.range k).map fun c =>
    a.getD (row * rsa + c * csa) 0 * b.getD (c * rsb + col * csb) 0).sum

theorem plainStridedSgemm_multiplies : (plainStridedSgemm : StridedSgemm F).Multiplies := by
  intro m k n a rsa csa b rsb csb _ _
  refine ⟨FillLoop.length_perRow, fun row hrow col hcol => ?_⟩
  rw [plainStridedSgemm, FillLoop.getD_perRow hrow hcol]
  rfl

def plainRemerge : Engine F → StudentLoraUpdate F → Engine F := fun base update layerIdx proj =>
  match update.listed layerIdx proj with
  | none => base layerIdx proj
  | some matrices => ofMatrix (
      toMatrix matrices.outFeatures matrices.inFeatures (base layerIdx proj) +
      (update.alpha / update.rank) • (toMatrix matrices.outFeatures matrices.rank matrices.b *
        toMatrix matrices.rank matrices.inFeatures matrices.a))

theorem plainRemerge_remerges : Remerges (plainRemerge : Engine F → StudentLoraUpdate F → _) :=
  fun _ _ _ _ => rfl

/-- One layer with full attention, and sizes of one. -/
def sampleConfig : Qwen35Config :=
  { hiddenSize := 1, intermediateSize := 1, numHiddenLayers := 1, vocabSize := 1,
    tieWordEmbeddings := true, numAttentionHeads := 1, numKeyValueHeads := 1, headDim := 2,
    linearNumKeyHeads := 1, linearKeyHeadDim := 1, linearNumValueHeads := 1,
    linearValueHeadDim := 1, linearConvKernelDim := 2, rotaryDim := 2,
    ropeCacheLenHint := some 1, layerTypes := [.fullAttention], numExperts := 0,
    fullAttnGated := false }

def sampleInitial : Initial ℚ := ⟨fun _ _ => 1, fun _ _ => 1, fun _ _ => 0⟩

/-- The store after a training run that has set all numbers to one. -/
def ParamStore.ones (store : ParamStore ℚ) : ParamStore ℚ where
  slab := store.slab.map fun t =>
    ⟨List.replicate (shapeSize t.shape) 1, t.shape, List.length_replicate⟩
  wellFormed :=
    { nodup := store.wellFormed.nodup
      free := fun id hid => by
        rw [Slab.map, List.getElem?_map, store.wellFormed.free id hid]
        rfl }

theorem ParamStore.data_ones {store : ParamStore ℚ} {id : TensorId} {shape : List Nat}
    (h : store.HasShape id shape) :
    store.ones.data id = List.replicate (shapeSize shape) 1 := by
  obtain ⟨t, hget, rfl⟩ := h
  refine data_eq (t := ⟨_, t.shape, List.length_replicate⟩) ?_
  exact (Slab.get_map _ _ _).trans (congrArg _ hget)

/-- The model of this configuration, trained to ones. -/
theorem exists_sample (targetSet : LoraTargetSet) : ∃ model store,
    Trained sampleInitial model (ParamStore.ones store) ∧
      model.Has sampleConfig (some ⟨1, 1⟩) targetSet ∧ model.Fits store := by
  have hlen : sampleConfig.layerTypes.length = sampleConfig.numHiddenLayers.toNat := rfl
  have hrank : ¬ RankZero (some (⟨1, 1⟩ : LoraConfig ℚ)) := by
    rintro ⟨cfg, hcfg, hzero⟩
    cases hcfg
    exact absurd hzero Nat.one_ne_zero
  obtain ⟨model, store, hbuilt⟩ : ∃ model store, buildModel sampleInitial sampleConfig
      (some ⟨1, 1⟩) targetSet 1 ⟨Slab.empty, Slab.WellFormed.empty⟩ = .ok (model, store) :=
    (grows_buildModel sampleInitial hlen 1).exists_ok hrank _
  have hnew : newInternal sampleInitial sampleConfig (some ⟨1, 1⟩) targetSet
      ⟨Slab.empty, Slab.WellFormed.empty⟩ = .ok (model, store) := by
    have hvalid : sampleConfig.validateTrainContract = .ok () := rfl
    have hhint : sampleConfig.ropeCacheLenHint = some 1 := rfl
    unfold newInternal
    rw [hvalid, hhint]
    dsimp only [bind, Except.bind]
    rw [hbuilt]
    rfl
  obtain ⟨-, hhas, hfits⟩ := fits_of_newInternal sampleInitial hnew
  refine ⟨model, store, (Trained.built hnew).stepped fun id _ shape hshape => ?_, hhas, hfits⟩
  obtain ⟨t, hget, rfl⟩ := hshape
  exact ⟨_, (Slab.get_map _ _ _).trans (congrArg _ hget), rfl⟩

theorem exists_sample_layer {targetSet : LoraTargetSet} {model : Qwen35Model ℚ}
    {store : ParamStore ℚ} (hhas : model.Has sampleConfig (some ⟨1, 1⟩) targetSet)
    (hfits : model.Fits store) :
    ∃ layer, model.layers[0]? = some layer ∧ layer.selfAttn.kind = .fullAttention := by
  have hcount := hfits.layers
  rw [hhas.config] at hcount
  have hlt : 0 < model.layers.length := hcount.symm ▸ (by decide : 0 < (1 : UInt64).toNat)
  have hget : model.layers[0]? = some model.layers[0] := List.getElem?_eq_getElem hlt
  have hkind := (hfits.layer 0 _ hget).kind
  rw [hhas.config] at hkind
  exact ⟨_, hget, (Option.some.inj hkind).symm⟩

theorem engine_runs_sent_adapters_sample : ∃ model store layer linear update merged,
    Trained sampleInitial model store ∧ model.loraTargetSet = .attentionQv ∧
      model.layers[0]? = some layer ∧ (.qProj, linear) ∈ layer.projections ∧
      syncLoraFromStore store (Registry.pairs model.adapterNames) ⟨1, 1⟩ = .ok update ∧
      linear.mergedTensor store = .ok merged ∧
      plainRemerge (baseEngine model store) update 0 .qProj = merged.data := by
  obtain ⟨model, store, htrained, hhas, hfits⟩ := exists_sample .attentionQv
  obtain ⟨layer, hget, hkind⟩ := exists_sample_layer hhas hfits
  have hmodule : moduleOfProj .qProj ≠ none := fun h => by cases h
  obtain ⟨linear, hproj⟩ := (layer.exists_projection hmodule).mpr hkind
  have h := engine_runs_sent_adapters plainStridedSgemm_multiplies plainRemerge_remerges htrained
    hhas.lora (List.Perm.refl _) (holdsBase_baseEngine model _)
  obtain ⟨merged, hmerged, -, hupdate⟩ := h.2 0 layer .qProj linear hget hproj
  cases hsync : syncLoraFromStore store.ones (Registry.pairs model.adapterNames) ⟨1, 1⟩ with
  | error e =>
    have hlinear := h.1.mp ⟨e, hsync⟩ layer (List.mem_of_getElem? hget)
    cases hkind.symm.trans hlinear
  | ok update =>
    exact ⟨model, store.ones, layer, linear, update, merged, htrained, hhas.loraTargetSet, hget,
      hproj, hsync, hmerged, (hupdate update hsync).1 (.inl rfl)⟩

/-- The adapter of the gate projection is trained, but the engine keeps the base weight. -/
theorem gate_adapter_not_sent : ∃ model store layer linear update merged,
    Trained sampleInitial model store ∧ model.config = sampleConfig ∧
      model.lora = some ⟨1, 1⟩ ∧ model.loraTargetSet = .allLinear ∧
      model.layers[0]? = some layer ∧ (.gateProj, linear) ∈ layer.projections ∧
      syncLoraFromStore store (Registry.pairs model.adapterNames) ⟨1, 1⟩ = .ok update ∧
      linear.mergedTensor store = .ok merged ∧
      plainRemerge (baseEngine model store) update 0 .gateProj ≠ merged.data := by
  obtain ⟨model, store, htrained, hhas, hfits⟩ := exists_sample .allLinear
  obtain ⟨layer, hget, hkind⟩ := exists_sample_layer hhas hfits
  have hones := htrained.fits
  have hproj : (.gateProj, layer.mlp.gateProj) ∈ layer.projections := List.mem_cons_self
  have hgate := (hfits.layer 0 layer hget).projection _ hproj
  have hgateOnes := (hones.layer 0 layer hget).projection _ hproj
  obtain ⟨update, hsync, -⟩ := sync_ok hones hhas.lora (fun p => hones.mem_adapterNames)
    ⟨layer, List.mem_of_getElem? hget, hkind⟩
  obtain ⟨merged, hmerged, -, hmatrix⟩ := mergedTensor_eq hgateOnes
  refine ⟨model, store.ones, layer, layer.mlp.gateProj, update, merged, htrained, hhas.config,
    hhas.lora, hhas.loraTargetSet, hget, hproj, hsync, hmerged, fun heq => ?_⟩
  rw [remerge_of_other plainRemerge_remerges rfl,
    holdsBase_baseEngine model _ 0 layer .gateProj _ hget hproj] at heq
  have hrel := hgate.lora
  have hweight := hgate.weight
  rw [hhas.lora, hhas.loraTargetSet, hhas.config] at hrel
  rw [hhas.config] at hweight hmatrix
  -- The entry of the merged weight is two, and that of the base weight is one.
  have hentry := congrFun (congrFun hmatrix ⟨0, Nat.one_pos⟩) ⟨0, Nat.one_pos⟩
  rw [← heq, mergedMatrix, Matrix.add_apply, left_eq_add] at hentry
  generalize layer.mlp.gateProj.lora = lora at hrel hentry
  cases hrel with
  | @some _ lora hlora =>
    obtain ⟨nameA, nameB, loraA, loraB, rank, scale⟩ := lora
    obtain ⟨-, -, hrank, -, hscale, hA, hB⟩ := hlora
    cases hrank
    cases hscale
    rw [adapterMatrix, data_ones hA, data_ones hB, Matrix.smul_apply, Matrix.mul_apply] at hentry
    change ((1 : ℚ) / (1 : Nat)) • ∑ j : Fin 1, toMatrix 1 1 (List.replicate 1 (1 : ℚ)) 0 j *
      toMatrix 1 1 (List.replicate 1 (1 : ℚ)) j 0 = 0 at hentry
    simp [toMatrix_apply] at hentry

end Arle.Train.Lora
