import Mathlib
import Arle.Train.LoraModelSpec
import Arle.Train.LoraSync

/-!
# The adapters that are sent

The update has the adapters of the query and value projections of the layers with full attention,
each under its own layer and projection, and no others.
-/

namespace Arle.Train.Lora

open Arle.Autograd ParamStore

variable {F : Type}

theorem exists_mapM {ε α β : Type} {f : α → Except ε β} {Q : α → β → Prop} {l : List α}
    (h : ∀ a ∈ l, ∃ b, f a = .ok b ∧ Q a b) :
    ∃ values, l.mapM f = .ok values ∧ List.Forall₂ Q l values := by
  induction l with
  | nil => exact ⟨[], rfl, .nil⟩
  | cons a l ih =>
    obtain ⟨b, hb, hQ⟩ := h a List.mem_cons_self
    obtain ⟨values, hvalues, hforall⟩ := ih fun a' ha' => h a' (List.mem_cons_of_mem a ha')
    refine ⟨b :: values, ?_, .cons hQ hforall⟩
    rw [List.mapM_cons, hb, hvalues]
    rfl

theorem forall₂_mem {α β : Type} {Q : α → β → Prop} {l : List α} {values : List β}
    (h : List.Forall₂ Q l values) :
    (∀ b ∈ values, ∃ a ∈ l, Q a b) ∧ ∀ a ∈ l, ∃ b ∈ values, Q a b := by
  induction h with
  | nil => exact ⟨(fun _ h => by cases h), (fun _ h => by cases h)⟩
  | @cons a b l values hQ _ ih =>
    refine ⟨fun b' hb' => ?_, fun a' ha' => ?_⟩
    · rcases List.mem_cons.mp hb' with rfl | hb'
      · exact ⟨a, List.mem_cons_self, hQ⟩
      · obtain ⟨a', ha', hQ'⟩ := ih.1 b' hb'
        exact ⟨a', List.mem_cons_of_mem a ha', hQ'⟩
    · rcases List.mem_cons.mp ha' with rfl | ha'
      · exact ⟨b, List.mem_cons_self, hQ⟩
      · obtain ⟨b', hb', hQ'⟩ := ih.2 a' ha'
        exact ⟨b', List.mem_cons_of_mem b hb', hQ'⟩

/-! ## Collecting the matrices -/

def PartialProj.get (slot : PartialProj F) : Which → Option (HostMatrix F)
  | .a => slot.a
  | .b => slot.b

def PartialLayer.get (entry : PartialLayer F) : AdapterModule → PartialProj F
  | .q => entry.q
  | .v => entry.v

/-- The matrix found for a layer, a module and one of the two tensors. -/
def slot (layers : Assoc Nat (PartialLayer F)) (layerIdx : Nat) (module : AdapterModule)
    (which : Which) : Option (HostMatrix F) :=
  (layers.lookup layerIdx).bind fun entry => (entry.get module).get which

theorem slot_insert (layers : Assoc Nat (PartialLayer F)) (matrix : HostMatrix F)
    (layerIdx layerIdx' : Nat) (module module' : AdapterModule) (which which' : Which) :
    slot (layers.insert layerIdx (((layers.lookup layerIdx).getD .empty).set module which matrix))
      layerIdx' module' which' =
    if (layerIdx', module', which') = (layerIdx, module, which) then some matrix
    else slot layers layerIdx' module' which' := by
  unfold slot
  rw [Assoc.lookup_insert_eq]
  by_cases hidx : layerIdx' = layerIdx
  · subst hidx
    rw [if_pos rfl, Option.bind_some]
    cases layers.lookup layerIdx' <;> cases module <;> cases module' <;> cases which <;>
      cases which' <;> simp [PartialLayer.get, PartialLayer.set, PartialProj.get, PartialProj.set,
        PartialLayer.empty, PartialProj.empty]
  · rw [if_neg hidx, if_neg fun heq => hidx (congrArg Prod.fst heq)]

variable {store : ParamStore F}

/-- What the first loop has found after the tensors `done`: matrices with the property `P` of their
layer, module and part. -/
structure Found (P : Nat → AdapterModule → Which → HostMatrix F → Prop)
    (done : List (String × TensorId)) (layers : Assoc Nat (PartialLayer F)) : Prop where
  slot : ∀ layerIdx module which matrix,
    slot layers layerIdx module which = some matrix → P layerIdx module which matrix
  filled : ∀ p ∈ done, ∀ layerIdx module which,
    parseAdapterName p.1 = some (layerIdx, module, which) →
      Lora.slot layers layerIdx module which ≠ none
  keys : ∀ layerIdx, layers.lookup layerIdx ≠ none →
    ∃ p ∈ done, ∃ module which, parseAdapterName p.1 = some (layerIdx, module, which)

section Found

variable {P : Nat → AdapterModule → Which → HostMatrix F → Prop}
  {done named : List (String × TensorId)} {layers : Assoc Nat (PartialLayer F)}
  {p : String × TensorId}

theorem found_empty : Found P [] (∅ : Assoc Nat (PartialLayer F)) :=
  ⟨nofun, nofun, fun _ h => absurd rfl h⟩

/-- One round of the loop. -/
theorem Found.step (h : Found P done layers)
    (hp : ∀ layerIdx module which, parseAdapterName p.1 = some (layerIdx, module, which) →
      ∃ matrix, hostMatrix store p.1 p.2 = .ok matrix ∧ P layerIdx module which matrix) :
    ∃ layers', collectAdapter store layers p = .ok layers' ∧ Found P (p :: done) layers' := by
  unfold collectAdapter
  cases hparse : parseAdapterName p.1 with
  | none =>
    refine ⟨layers, rfl, h.slot, ?_, fun layerIdx hkey => ?_⟩
    · intro q hq layerIdx module which hqparse
      rcases List.mem_cons.mp hq with rfl | hq
      · cases hparse.symm.trans hqparse
      · exact h.filled q hq layerIdx module which hqparse
    · obtain ⟨q, hq, hqparse⟩ := h.keys layerIdx hkey
      exact ⟨q, List.mem_cons_of_mem p hq, hqparse⟩
  | some key =>
    obtain ⟨idx, mod, part⟩ := key
    obtain ⟨matrix, hmatrix, hPm⟩ := hp idx mod part hparse
    dsimp only
    rw [hmatrix]
    refine ⟨_, rfl, ?_, ?_, fun layerIdx hkey => ?_⟩
    · intro layerIdx module which m hslot
      rw [slot_insert] at hslot
      by_cases heq : (layerIdx, module, which) = (idx, mod, part)
      · rw [if_pos heq] at hslot
        cases heq
        cases hslot
        exact hPm
      · rw [if_neg heq] at hslot
        exact h.slot layerIdx module which m hslot
    · intro q hq layerIdx module which hqparse
      rw [slot_insert]
      by_cases heq : (layerIdx, module, which) = (idx, mod, part)
      · rw [if_pos heq]
        exact Option.some_ne_none _
      · rw [if_neg heq]
        rcases List.mem_cons.mp hq with rfl | hq
        · exact absurd (Option.some.inj (hparse.symm.trans hqparse)).symm heq
        · exact h.filled q hq layerIdx module which hqparse
    · rw [Assoc.lookup_insert_eq] at hkey
      by_cases heq : layerIdx = idx
      · exact ⟨p, List.mem_cons_self, mod, part, heq ▸ hparse⟩
      · rw [if_neg heq] at hkey
        obtain ⟨q, hq, hqparse⟩ := h.keys layerIdx hkey
        exact ⟨q, List.mem_cons_of_mem p hq, hqparse⟩

/-- The whole loop. -/
theorem Found.run (h : Found P done layers) (hP : ∀ p ∈ named, ∀ layerIdx module which,
      parseAdapterName p.1 = some (layerIdx, module, which) →
        ∃ matrix, hostMatrix store p.1 p.2 = .ok matrix ∧ P layerIdx module which matrix) :
    ∃ layers', named.foldlM (collectAdapter store) layers = .ok layers' ∧
      Found P (named.reverse ++ done) layers' := by
  induction named generalizing done layers with
  | nil => exact ⟨layers, rfl, h⟩
  | cons p named ih =>
    obtain ⟨layers₁, hstep, h₁⟩ := h.step (hP p List.mem_cons_self)
    obtain ⟨layers', hloop, h'⟩ := ih h₁ fun q hq => hP q (List.mem_cons_of_mem p hq)
    refine ⟨layers', ?_, ?_⟩
    · rw [List.foldlM_cons, hstep]
      exact hloop
    · rw [List.reverse_cons, List.append_assoc]
      exact h'

end Found

/-! ## The adapters of a model -/

def AdapterModule.proj : AdapterModule → Proj
  | .q => .qProj
  | .v => .vProj

theorem moduleOfProj_eq_some {proj : Proj} {module : AdapterModule} :
    moduleOfProj proj = some module ↔ proj = module.proj := by
  cases proj <;> cases module <;> decide

/-- The query and value projections of a model with adapters have one. -/
theorem loraForName_of_module {cfg : LoraConfig F} {proj : Proj} (targetSet : LoraTargetSet)
    (hmodule : moduleOfProj proj ≠ none) (layerIdx : Nat) :
    loraForName (some cfg) targetSet (proj.tensorName layerIdx) = some cfg := by
  have hincludes : targetSet.includes (proj.tensorName layerIdx) = true := by
    cases targetSet with
    | allLinear => rfl
    | attentionQv => rw [includes_attentionQv, Option.isSome_iff_ne_none]; exact hmodule
  unfold loraForName
  rw [Option.filter_some, if_pos hincludes]

theorem intoMatrices_eq {slot : PartialProj F} {a b : List F}
    {rank layerIdx inFeatures outFeatures : Nat}
    (ha : slot.a = some (a, rank, inFeatures)) (hb : slot.b = some (b, outFeatures, rank))
    (label : String) : slot.intoMatrices rank layerIdx label = .ok (some
      { a := a, b := b, rank := rank, inFeatures := inFeatures, outFeatures := outFeatures }) := by
  unfold PartialProj.intoMatrices
  rw [ha, hb]
  dsimp only
  rw [if_neg (not_not_intro rfl), if_neg (not_not_intro rfl)]

def StudentLoraLayer.get (layer : StudentLoraLayer F) :
    AdapterModule → Option (StudentLoraMatrices F)
  | .q => layer.qProj
  | .v => layer.vProj

section Model

variable [Field F] {model : Qwen35Model F} {cfg : LoraConfig F} {layerIdx : Nat}
  {layer : Qwen35Layer F} {proj : Proj} {linear : LinearWithLora F}

theorem fits_of_lora (h : model.Fits store) (hlora : model.lora = some cfg)
    (hget : model.layers[layerIdx]? = some layer) (hproj : (proj, linear) ∈ layer.projections)
    {lora : LoraWeights F} (hlinear : linear.lora = some lora) :
    lora.Fits store (proj.tensorName layerIdx) (proj.inFeatures model.config)
      (proj.outFeatures model.config) cfg := by
  have hrel := ((h.layer layerIdx layer hget).projection _ hproj).lora
  rw [hlinear, hlora] at hrel
  unfold loraForName at hrel
  rw [Option.filter_some] at hrel
  split at hrel
  · cases hrel with
    | some hfits => exact hfits
  · cases hrel

theorem exists_lora (h : model.Fits store) (hlora : model.lora = some cfg)
    (hget : model.layers[layerIdx]? = some layer) (hproj : (proj, linear) ∈ layer.projections)
    (hmodule : moduleOfProj proj ≠ none) : ∃ lora, linear.lora = some lora := by
  have hrel := ((h.layer layerIdx layer hget).projection _ hproj).lora
  rw [hlora, loraForName_of_module _ hmodule] at hrel
  generalize linear.lora = lora at hrel
  cases hrel with
  | @some _ lora _ => exact ⟨lora, rfl⟩

/-- The rows and columns of the tensors of an adapter. -/
def matrixDims (cfg : Qwen35Config) (rank : Nat) (proj : Proj) : Which → Nat × Nat
  | .a => (rank, proj.inFeatures cfg)
  | .b => (proj.outFeatures cfg, rank)

/-- The matrix is that of the adapter of a projection of the model. -/
def IsAdapter (model : Qwen35Model F) (store : ParamStore F) (rank layerIdx : Nat)
    (module : AdapterModule) (which : Which) (matrix : HostMatrix F) : Prop :=
  ∃ layer linear lora, model.layers[layerIdx]? = some layer ∧
    (module.proj, linear) ∈ layer.projections ∧ linear.lora = some lora ∧
      matrix = (store.data (lora.id which), matrixDims model.config rank module.proj which)

theorem lt_of_layer (h : model.Fits store) (hget : model.layers[layerIdx]? = some layer) :
    layerIdx < 2 ^ 64 := by
  have hlt := (List.getElem?_eq_some_iff.mp hget).1
  rw [h.layers] at hlt
  exact Nat.lt_trans hlt (UInt64.toNat_lt _)

/-- A name that is parsed is that of the adapter found. -/
theorem hostMatrix_of_parse (h : model.Fits store) (hlora : model.lora = some cfg)
    {p : String × TensorId} (hp : p ∈ model.adapters) {layerIdx : Nat} {module : AdapterModule}
    {which : Which} (hparse : parseAdapterName p.1 = some (layerIdx, module, which)) :
    ∃ matrix, hostMatrix store p.1 p.2 = .ok matrix ∧
      IsAdapter model store cfg.rank layerIdx module which matrix := by
  obtain ⟨layerIdx', layer, proj, linear, lora, which', hget, hproj, hlinear, rfl⟩ :=
    h.mem_adapters.mp hp
  rw [parseAdapterName_eq (lt_of_layer h hget), Option.map_eq_some_iff] at hparse
  obtain ⟨module', hmodule, heq⟩ := hparse
  cases heq
  obtain rfl := moduleOfProj_eq_some.mp hmodule
  have hfits := fits_of_lora h hlora hget hproj hlinear
  have hshape : ∃ t, store.get (lora.id which) = some t ∧
      t.shape = [(matrixDims model.config cfg.rank module.proj which).1,
        (matrixDims model.config cfg.rank module.proj which).2] := by
    cases which with
    | a => exact hfits.loraA
    | b => exact hfits.loraB
  obtain ⟨t, ht, htshape⟩ := hshape
  refine ⟨_, ?_, layer, linear, lora, hget, hproj, hlinear, rfl⟩
  unfold hostMatrix
  rw [ht, data_eq ht]
  dsimp only
  rw [htshape]

/-- The names that are parsed are those of the layers with full attention. -/
theorem exists_parse_iff (h : model.Fits store) (hlora : model.lora = some cfg)
    (module : AdapterModule) (which : Which) :
    (∃ p ∈ model.adapters, parseAdapterName p.1 = some (layerIdx, module, which)) ↔
      ∃ layer, model.layers[layerIdx]? = some layer ∧ layer.selfAttn.kind = .fullAttention := by
  have hmodule : moduleOfProj module.proj ≠ none := by
    rw [moduleOfProj_eq_some.mpr rfl]
    exact Option.some_ne_none _
  constructor
  · rintro ⟨p, hp, hparse⟩
    obtain ⟨-, -, layer, linear, lora, hget, hproj, -⟩ := hostMatrix_of_parse h hlora hp hparse
    exact ⟨layer, hget, (layer.exists_projection hmodule).mp ⟨linear, hproj⟩⟩
  · rintro ⟨layer, hget, hkind⟩
    obtain ⟨linear, hproj⟩ := (layer.exists_projection hmodule).mpr hkind
    obtain ⟨lora, hlinear⟩ := exists_lora h hlora hget hproj hmodule
    refine ⟨_, h.mem_adapters.mpr
      ⟨layerIdx, layer, module.proj, linear, lora, which, hget, hproj, hlinear, rfl⟩, ?_⟩
    rw [parseAdapterName_eq (lt_of_layer h hget), moduleOfProj_eq_some.mpr rfl]
    rfl

/-! ## The update -/

/-- The matrices of the adapter of a projection. -/
def adapterMatrices (cfg : Qwen35Config) (store : ParamStore F) (rank : Nat) (proj : Proj)
    (lora : LoraWeights F) : StudentLoraMatrices F :=
  { a := store.data lora.loraA, b := store.data lora.loraB, rank := rank,
    inFeatures := proj.inFeatures cfg, outFeatures := proj.outFeatures cfg }

section Out

variable {named : List (String × TensorId)} {layers : Assoc Nat (PartialLayer F)}
  {module : AdapterModule} {lora : LoraWeights F}

/-- The matrices that are found for a layer are those of its own adapters. -/
theorem Found.slot_eq (h : model.Fits store) (hlora : model.lora = some cfg)
    (hfound : Found (IsAdapter model store cfg.rank) named layers)
    (hnamed : ∀ p, p ∈ named ↔ p ∈ model.adapters)
    (hget : model.layers[layerIdx]? = some layer)
    (hproj : (module.proj, linear) ∈ layer.projections) (hlinear : linear.lora = some lora)
    (which : Which) : Lora.slot layers layerIdx module which =
      some (store.data (lora.id which), matrixDims model.config cfg.rank module.proj which) := by
  have hmodule : moduleOfProj module.proj ≠ none := by
    rw [moduleOfProj_eq_some.mpr rfl]
    exact Option.some_ne_none _
  obtain ⟨p, hp, hparse⟩ := (exists_parse_iff h hlora module which).mpr
    ⟨layer, hget, (layer.exists_projection hmodule).mp ⟨linear, hproj⟩⟩
  obtain ⟨matrix, hmatrix⟩ := Option.ne_none_iff_exists'.mp
    (hfound.filled p ((hnamed p).mpr hp) layerIdx module which hparse)
  obtain ⟨layer', linear', lora', hget', hproj', hlinear', rfl⟩ := hfound.slot _ _ _ _ hmatrix
  obtain rfl := Option.some.inj (hget.symm.trans hget')
  obtain rfl := Qwen35Layer.projection_unique hproj hproj'
  obtain rfl := Option.some.inj (hlinear.symm.trans hlinear')
  exact hmatrix

/-- A layer is found if it has full attention. -/
theorem Found.lookup_ne_none_iff (h : model.Fits store) (hlora : model.lora = some cfg)
    (hfound : Found (IsAdapter model store cfg.rank) named layers)
    (hnamed : ∀ p, p ∈ named ↔ p ∈ model.adapters) : layers.lookup layerIdx ≠ none ↔
      ∃ layer, model.layers[layerIdx]? = some layer ∧ layer.selfAttn.kind = .fullAttention := by
  constructor
  · intro hkey
    obtain ⟨p, hp, module, which, hparse⟩ := hfound.keys layerIdx hkey
    exact (exists_parse_iff h hlora module which).mp ⟨p, (hnamed p).mp hp, hparse⟩
  · intro hfull hnone
    obtain ⟨p, hp, hparse⟩ := (exists_parse_iff h hlora .q .a).mpr hfull
    refine hfound.filled p ((hnamed p).mpr hp) layerIdx .q .a hparse ?_
    unfold Lora.slot
    rw [hnone]
    rfl

/-- A layer of the update has the adapters of the layer of the model. -/
structure Sends (model : Qwen35Model F) (store : ParamStore F) (rank layerIdx : Nat)
    (out : StudentLoraLayer F) : Prop where
  idx : out.layerIdx = layerIdx
  matrices : ∀ (layer : Qwen35Layer F) (module : AdapterModule) (linear : LinearWithLora F)
    (lora : LoraWeights F), model.layers[layerIdx]? = some layer →
      (module.proj, linear) ∈ layer.projections → linear.lora = some lora →
        out.get module = some (adapterMatrices model.config store rank module.proj lora)

theorem outLayer_eq (h : model.Fits store) (hlora : model.lora = some cfg)
    (hfound : Found (IsAdapter model store cfg.rank) named layers)
    (hnamed : ∀ p, p ∈ named ↔ p ∈ model.adapters) (hkey : layers.lookup layerIdx ≠ none) :
    ∃ out, outLayer layers cfg.rank layerIdx = .ok out ∧
      Sends model store cfg.rank layerIdx out := by
  obtain ⟨entry, hentry⟩ := Option.ne_none_iff_exists'.mp hkey
  obtain ⟨layer, hget, hkind⟩ := (hfound.lookup_ne_none_iff h hlora hnamed).mp hkey
  have hmatrices : ∀ module : AdapterModule, ∃ linear lora,
      (module.proj, linear) ∈ layer.projections ∧ linear.lora = some lora ∧
        ∀ label, (entry.get module).intoMatrices cfg.rank layerIdx label =
          .ok (some (adapterMatrices model.config store cfg.rank module.proj lora)) := by
    intro module
    have hmodule : moduleOfProj module.proj ≠ none := by
      rw [moduleOfProj_eq_some.mpr rfl]
      exact Option.some_ne_none _
    obtain ⟨linear, hproj⟩ := (layer.exists_projection hmodule).mpr hkind
    obtain ⟨lora, hlinear⟩ := exists_lora h hlora hget hproj hmodule
    have hslot := hfound.slot_eq h hlora hnamed hget hproj hlinear
    unfold Lora.slot at hslot
    rw [hentry] at hslot
    exact ⟨linear, lora, hproj, hlinear, intoMatrices_eq (hslot .a) (hslot .b)⟩
  obtain ⟨qLinear, qLora, hqProj, hqLinear, hq⟩ := hmatrices .q
  obtain ⟨vLinear, vLora, hvProj, hvLinear, hv⟩ := hmatrices .v
  refine ⟨{ layerIdx := layerIdx,
            qProj := some (adapterMatrices model.config store cfg.rank .qProj qLora),
            vProj := some (adapterMatrices model.config store cfg.rank .vProj vLora) },
    ?_, rfl, ?_⟩
  · have hq := hq "q_proj"
    have hv := hv "v_proj"
    unfold PartialLayer.get at hq hv
    unfold outLayer
    rw [hentry]
    dsimp only at hq hv ⊢
    rw [hq, hv]
    rfl
  · intro layer' module linear lora hget' hproj hlinear
    obtain rfl := Option.some.inj (hget.symm.trans hget')
    cases module with
    | q =>
      obtain rfl := Qwen35Layer.projection_unique hqProj hproj
      obtain rfl := Option.some.inj (hqLinear.symm.trans hlinear)
      rfl
    | v =>
      obtain rfl := Qwen35Layer.projection_unique hvProj hproj
      obtain rfl := Option.some.inj (hvLinear.symm.trans hlinear)
      rfl

end Out

/-- The matrices that an update has for a projection of the engine. -/
def StudentLoraUpdate.listed (update : StudentLoraUpdate F) (layerIdx : Nat) (proj : Proj) :
    Option (StudentLoraMatrices F) :=
  (moduleOfProj proj).bind fun module =>
    (update.layers.find? (·.layerIdx = layerIdx)).bind fun layer => layer.get module

/-- The update is for this model: its layers are those with full attention. -/
structure Carries (model : Qwen35Model F) (store : ParamStore F) (cfg : LoraConfig F)
    (update : StudentLoraUpdate F) : Prop where
  rank : update.rank = cfg.rank
  alpha : update.alpha = cfg.alpha
  layer : ∀ out ∈ update.layers, Sends model store cfg.rank out.layerIdx out
  full : ∀ layerIdx, (∃ out ∈ update.layers, out.layerIdx = layerIdx) ↔
    ∃ layer, model.layers[layerIdx]? = some layer ∧ layer.selfAttn.kind = .fullAttention

variable {adapterMap : List (String × TensorId)}

theorem sync_ok (h : model.Fits store) (hlora : model.lora = some cfg)
    (hmap : ∀ p, p ∈ adapterMap ↔ p ∈ model.adapters)
    (hfull : ∃ layer ∈ model.layers, layer.selfAttn.kind = .fullAttention) :
    ∃ update, syncLoraFromStore store adapterMap cfg = .ok update ∧
      Carries model store cfg update := by
  obtain ⟨layers, hloop, hfound⟩ : ∃ layers,
      adapterMap.foldlM (collectAdapter store) ∅ = .ok layers ∧
        Found (IsAdapter model store cfg.rank) (adapterMap.reverse ++ []) layers :=
    found_empty.run fun p hp layerIdx module which hparse =>
      hostMatrix_of_parse h hlora ((hmap p).mp hp) hparse
  have hnamed : ∀ p, p ∈ adapterMap.reverse ++ [] ↔ p ∈ model.adapters := by
    intro p
    rw [List.append_nil, List.mem_reverse, hmap]
  have hkeys : ∀ layerIdx, layerIdx ∈ layers.keys ↔
      ∃ layer, model.layers[layerIdx]? = some layer ∧ layer.selfAttn.kind = .fullAttention := by
    intro layerIdx
    rw [← hfound.lookup_ne_none_iff h hlora hnamed, ne_eq, AList.lookup_eq_none, not_not]
    exact AList.mem_keys.symm
  obtain ⟨layer₀, hmem₀, hkind₀⟩ := hfull
  obtain ⟨idx₀, hget₀⟩ := List.mem_iff_getElem?.mp hmem₀
  have hne : layers.keys ≠ [] := List.ne_nil_of_mem ((hkeys idx₀).mpr ⟨layer₀, hget₀, hkind₀⟩)
  have hrank : cfg.rank ≠ 0 := by
    have hmodule : moduleOfProj .qProj ≠ none := fun h => by cases h
    obtain ⟨linear, hproj⟩ := (layer₀.exists_projection hmodule).mpr hkind₀
    obtain ⟨lora, hlinear⟩ := exists_lora h hlora hget₀ hproj hmodule
    exact (fits_of_lora h hlora hget₀ hproj hlinear).rank_ne_zero
  have hout : ∀ layerIdx ∈ layers.keys.mergeSort (· ≤ ·), ∃ out,
      outLayer layers cfg.rank layerIdx = .ok out ∧ Sends model store cfg.rank layerIdx out := by
    intro layerIdx hmem
    refine outLayer_eq h hlora hfound hnamed ?_
    rw [hfound.lookup_ne_none_iff h hlora hnamed]
    exact (hkeys layerIdx).mp (List.mem_mergeSort.mp hmem)
  obtain ⟨outs, houts, hforall⟩ := exists_mapM hout
  refine ⟨{ layers := outs, rank := cfg.rank, alpha := cfg.alpha }, ?_, rfl, rfl, ?_, ?_⟩
  · unfold syncLoraFromStore
    rw [if_neg hrank, hloop]
    change (if layers.keys = [] then _ else _) = _
    rw [if_neg hne]
    change (layers.keys.mergeSort (· ≤ ·)).mapM (outLayer layers cfg.rank) >>= _ = _
    rw [houts]
    rfl
  · intro out hmem
    obtain ⟨layerIdx, -, hsends⟩ := (forall₂_mem hforall).1 out hmem
    rw [hsends.idx]
    exact hsends
  · intro layerIdx
    rw [← hkeys]
    constructor
    · rintro ⟨out, hmem, rfl⟩
      obtain ⟨layerIdx, hkey, hsends⟩ := (forall₂_mem hforall).1 out hmem
      rw [hsends.idx]
      exact List.mem_mergeSort.mp hkey
    · intro hkey
      obtain ⟨out, hmem, hsends⟩ := (forall₂_mem hforall).2 layerIdx (List.mem_mergeSort.mpr hkey)
      exact ⟨out, hmem, hsends.idx⟩

/-- Without full attention there is nothing to send. -/
theorem sync_error (h : model.Fits store) (hlora : model.lora = some cfg)
    (hmap : ∀ p, p ∈ adapterMap ↔ p ∈ model.adapters)
    (hlinear : ∀ layer ∈ model.layers, layer.selfAttn.kind ≠ .fullAttention) :
    ∃ e, syncLoraFromStore store adapterMap cfg = .error e := by
  unfold syncLoraFromStore
  by_cases hrank : cfg.rank = 0
  · exact ⟨_, if_pos hrank⟩
  · obtain ⟨layers, hloop, hfound⟩ : ∃ layers,
        adapterMap.foldlM (collectAdapter store) ∅ = .ok layers ∧
          Found (IsAdapter model store cfg.rank) (adapterMap.reverse ++ []) layers :=
      found_empty.run fun p hp layerIdx module which hparse =>
        hostMatrix_of_parse h hlora ((hmap p).mp hp) hparse
    have hempty : layers.keys = [] := by
      refine List.eq_nil_iff_forall_not_mem.mpr fun layerIdx hkey => ?_
      have hlookup : layers.lookup layerIdx ≠ none := by
        rw [ne_eq, AList.lookup_eq_none, not_not]
        exact AList.mem_keys.mp hkey
      obtain ⟨p, hp, module, which, hparse⟩ := hfound.keys layerIdx hlookup
      rw [List.append_nil, List.mem_reverse, hmap] at hp
      obtain ⟨layer, hget, hkind⟩ := (exists_parse_iff h hlora module which).mp ⟨p, hp, hparse⟩
      exact hlinear layer (List.mem_of_getElem? hget) hkind
    rw [if_neg hrank, hloop]
    change ∃ e, (if layers.keys = [] then _ else _) = Except.error e
    rw [if_pos hempty]
    exact ⟨_, rfl⟩

end Model

end Arle.Train.Lora
