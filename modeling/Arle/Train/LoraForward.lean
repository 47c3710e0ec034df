import Mathlib
import Arle.Lib.Grows
import Arle.Lib.MatrixData
import Arle.Autograd.RowWiseAdjoint
import Arle.Train.Lora

/-!
# The forward pass of an adapter

With an adapter, the forward pass of a projection is the product with its merged weight: the base
weight and the scaled product of the two factors.
-/

namespace Arle.Train.Lora

open Arle.Autograd MatrixData

variable {F : Type}

/-! ## The store grows -/

namespace ParamStore

/-- All tensors of the first store are in the second. -/
instance : Preorder (ParamStore F) where
  le store store' := ∀ id t, store.get id = some t → store'.get id = some t
  le_refl _ _ _ h := h
  le_trans _ _ _ h h' id t ht := h' id t (h id t ht)

def HasShape (store : ParamStore F) (id : TensorId) (shape : List Nat) : Prop :=
  ∃ t, store.get id = some t ∧ t.shape = shape

theorem monotone_hasShape (id : TensorId) (shape : List Nat) :
    Monotone fun store : ParamStore F => store.HasShape id shape := by
  rintro store store' hle ⟨t, hget, hshape⟩
  exact ⟨t, hle id t hget, hshape⟩

theorem tensor_eq {store : ParamStore F} {id : TensorId} {t : HostTensor F}
    (h : store.get id = some t) : store.tensor id = .ok t := by
  unfold tensor
  rw [h]

/-- The data of a tensor of the store. -/
def data (store : ParamStore F) (id : TensorId) : List F :=
  ((store.get id).map HostTensor.data).getD []

theorem data_eq {store : ParamStore F} {id : TensorId} {t : HostTensor F}
    (h : store.get id = some t) :
    store.data id = t.data := by
  unfold data
  rw [h]
  rfl

end ParamStore

open ParamStore

theorem grows_allocTensor {bad : Prop} {data : List F} {shape : List Nat}
    (h : data.length = shapeSize shape) :
    Grows bad (allocTensor data shape) fun id store => store.HasShape id shape := by
  intro store
  let tensor : HostTensor F := ⟨data, shape, h⟩
  have hrun : allocTensor data shape store = .ok ((store.slab.alloc tensor).1,
      ⟨(store.slab.alloc tensor).2, store.wellFormed.alloc tensor⟩) := by
    unfold allocTensor
    rw [HostTensor.new_eq h]
    rfl
  refine .inl ⟨_, _, hrun, fun id t hget => ?_, tensor, ?_, rfl⟩
  · change Slab.get _ id = some t
    rw [store.wellFormed.get_alloc, if_neg]
    · exact hget
    · rintro rfl
      cases (store.wellFormed.alloc_fresh _).symm.trans hget
  · exact (store.wellFormed.get_alloc _ _).trans (if_pos rfl)

theorem grows_normalParameter {bad : Prop} (initial : Initial F) (name : String)
    (shape : List Nat) :
    Grows bad (normalParameter initial name shape) fun id store => store.HasShape id shape :=
  grows_allocTensor (by rw [List.length_map, List.length_range])

theorem grows_zerosParameter {bad : Prop} [Zero F] (shape : List Nat) :
    Grows bad (zerosParameter shape : StoreM F TensorId) fun id store => store.HasShape id shape :=
  grows_allocTensor List.length_replicate

theorem grows_onesParameter {bad : Prop} [One F] (shape : List Nat) :
    Grows bad (onesParameter shape : StoreM F TensorId) fun id store => store.HasShape id shape :=
  grows_allocTensor List.length_replicate

theorem length_of_shape {t : HostTensor F} {rows cols : Nat} (h : t.shape = [rows, cols]) :
    t.data.length = rows * cols := by
  rw [t.length_data, h, shapeSize, List.prod_pair]

theorem reshape_eq {x : HostTensor F} {shape : List Nat} (h : shapeSize shape = shapeSize x.shape) :
    ∃ y, x.reshape shape = .ok y ∧ y.shape = shape ∧ y.data = x.data := by
  have hsize : x.data.length = shapeSize shape := x.length_data.trans h.symm
  refine ⟨⟨x.data, shape, hsize⟩, ?_, rfl, rfl⟩
  unfold HostTensor.reshape
  rw [if_neg (not_not.mpr h)]
  exact HostTensor.new_eq hsize

variable [Field F]

/-! ## Products -/

section Matmul

/-- What `matrixmultiply::sgemm` is relied on for. -/
def StridedSgemm.Multiplies (sgemm : StridedSgemm F) : Prop :=
  ∀ m k n a rsa csa b rsb csb,
    (∀ row < m, ∀ c < k, row * rsa + c * csa < a.length) →
    (∀ c < k, ∀ col < n, c * rsb + col * csb < b.length) →
    (sgemm m k n a rsa csa b rsb csb).length = m * n ∧ ∀ row < m, ∀ col < n,
      (sgemm m k n a rsa csa b rsb csb).getD (row * n + col) 0 =
        ∑ c ∈ Finset.range k, a.getD (row * rsa + c * csa) 0 * b.getD (c * rsb + col * csb) 0

variable {sgemm : StridedSgemm F} {m k n : Nat} {a b : List F}

theorem matmulABtInto_eq (hsgemm : sgemm.Multiplies) (ha : a.length = m * k)
    (hb : b.length = n * k) :
    (matmulABtInto sgemm a (m, k) b (n, k) (List.replicate (m * n) 0)).length = m * n ∧
      toMatrix m n (matmulABtInto sgemm a (m, k) b (n, k) (List.replicate (m * n) 0)) =
        toMatrix m k a * (toMatrix n k b).transpose := by
  unfold matmulABtInto
  dsimp only
  by_cases hempty : m = 0 ∨ n = 0 ∨ k = 0
  · rw [if_pos hempty]
    refine ⟨List.length_replicate, ?_⟩
    ext row col
    rcases hempty with rfl | rfl | rfl
    · exact row.elim0
    · exact col.elim0
    · rw [Matrix.mul_apply, Finset.univ_eq_empty, Finset.sum_empty, toMatrix_apply]
      exact List.getD_replicate _ (FillLoop.rowPlace_lt row.isLt col.isLt)
  · rw [if_neg hempty]
    obtain ⟨hlen, hentry⟩ := hsgemm m k n a k 1 b 1 k
      (fun row hrow c hc => by
        rw [ha, Nat.mul_one]
        exact FillLoop.rowPlace_lt hrow hc)
      (fun c hc col hcol => by
        rw [hb, Nat.mul_one, Nat.add_comm]
        exact FillLoop.rowPlace_lt hcol hc)
    refine ⟨hlen, ?_⟩
    ext row col
    rw [toMatrix_apply, hentry row row.isLt col col.isLt, Finset.sum_range, Matrix.mul_apply]
    refine Finset.sum_congr rfl fun c _ => ?_
    rw [Matrix.transpose_apply, toMatrix_apply, toMatrix_apply, Nat.mul_one, Nat.add_comm c.val]

theorem matmulBt_eq (hsgemm : sgemm.Multiplies) {a b : HostTensor F} (ha : a.shape = [m, k])
    (hb : b.shape = [n, k]) : ∃ out, matmulBt sgemm a b = .ok out ∧ out.shape = [m, n] ∧
      toMatrix m n out.data = toMatrix m k a.data * (toMatrix n k b.data).transpose := by
  have halen : a.data.length = m * k := by rw [a.length_data, ha, shapeSize, List.prod_pair]
  have hblen : b.data.length = n * k := by rw [b.length_data, hb, shapeSize, List.prod_pair]
  obtain ⟨hlen, hmatrix⟩ := matmulABtInto_eq hsgemm halen hblen
  have hsize : (matmulABtInto sgemm a.data (m, k) b.data (n, k)
      (List.replicate (m * n) 0)).length = shapeSize [m, n] := by
    rw [hlen, shapeSize, List.prod_pair]
  have hm : index [m, k] 0 = .ok m := rfl
  have hk : index [m, k] 1 = .ok k := rfl
  have hn : index [n, k] 0 = .ok n := rfl
  refine ⟨⟨_, [m, n], hsize⟩, ?_, rfl, hmatrix⟩
  unfold matmulBt cpuMatmulBtForward matmulBtOutputShape
  rw [ha, hb, hm, hk, hn]
  dsimp only
  simp only [result_ok_bind]
  rw [if_neg (not_not.mpr rfl), result_ok_bind, if_neg (not_not.mpr halen),
    if_neg (not_not.mpr hblen)]
  exact HostTensor.new_eq hsize

end Matmul

/-! ## The tensors of a projection -/

structure LoraWeights.Fits (store : ParamStore F) (name : String) (inFeatures outFeatures : Nat)
    (cfg : LoraConfig F) (lora : LoraWeights F) : Prop where
  nameA : lora.loraAName = name ++ ".lora_a"
  nameB : lora.loraBName = name ++ ".lora_b"
  rank : lora.rank = cfg.rank
  rank_ne_zero : cfg.rank ≠ 0
  scale : lora.scale = cfg.scale
  loraA : store.HasShape lora.loraA [cfg.rank, inFeatures]
  loraB : store.HasShape lora.loraB [outFeatures, cfg.rank]

/-- A projection of this name and size, with the adapter of a configuration if there is one. -/
structure LinearWithLora.Fits (store : ParamStore F) (name : String)
    (inFeatures outFeatures : Nat) (cfg : Option (LoraConfig F)) (linear : LinearWithLora F) :
    Prop where
  baseName : linear.baseName = name
  weight : store.HasShape linear.weight [outFeatures, inFeatures]
  lora : Option.Rel (LoraWeights.Fits store name inFeatures outFeatures) cfg linear.lora

section Fits

variable {name : String} {inFeatures outFeatures : Nat} {cfg : Option (LoraConfig F)}

theorem LoraWeights.Fits.of_shapes {store store' : ParamStore F} {cfg : LoraConfig F}
    {lora : LoraWeights F}
    (h : lora.Fits store name inFeatures outFeatures cfg)
    (hA : ∀ shape, store.HasShape lora.loraA shape → store'.HasShape lora.loraA shape)
    (hB : ∀ shape, store.HasShape lora.loraB shape → store'.HasShape lora.loraB shape) :
    lora.Fits store' name inFeatures outFeatures cfg :=
  { h with loraA := hA _ h.loraA, loraB := hB _ h.loraB }

/-- What is known of a projection stays known in a store where its tensors have their shapes. -/
theorem LinearWithLora.Fits.of_shapes {store store' : ParamStore F} {linear : LinearWithLora F}
    (h : linear.Fits store name inFeatures outFeatures cfg)
    (hweight : ∀ shape, store.HasShape linear.weight shape → store'.HasShape linear.weight shape)
    (hlora : ∀ p ∈ linear.adapterNameMap, ∀ shape,
      store.HasShape p.2 shape → store'.HasShape p.2 shape) :
    linear.Fits store' name inFeatures outFeatures cfg := by
  refine ⟨h.baseName, hweight _ h.weight, ?_⟩
  obtain ⟨baseName, weight, lora⟩ := linear
  obtain ⟨-, -, hrel⟩ := h
  cases hrel with
  | none => exact .none
  | some hfits =>
    exact .some (hfits.of_shapes (hlora _ List.mem_cons_self)
      (hlora _ (List.mem_cons_of_mem _ List.mem_cons_self)))

theorem monotone_fits (linear : LinearWithLora F) :
    Monotone fun store => linear.Fits store name inFeatures outFeatures cfg :=
  fun _ _ hle h => h.of_shapes (fun shape => monotone_hasShape _ shape hle)
    fun _ _ shape => monotone_hasShape _ shape hle

/-- The configuration has no room for an adapter. -/
def RankZero (cfg : Option (LoraConfig F)) : Prop := ∃ lora ∈ cfg, lora.rank = 0

theorem grows_newLora (initial : Initial F) : Grows (RankZero cfg)
    (LinearWithLora.newLora initial name inFeatures outFeatures cfg) fun lora store =>
      Option.Rel (LoraWeights.Fits store name inFeatures outFeatures) cfg lora := by
  cases cfg with
  | none => exact (Grows.pure none).mono fun lora store hlora => hlora ▸ .none
  | some cfg =>
    unfold LinearWithLora.newLora
    dsimp only
    by_cases hrank : cfg.rank = 0
    · rw [if_pos hrank]
      exact .throw _ ⟨cfg, rfl, hrank⟩
    · rw [if_neg hrank]
      refine ((grows_normalParameter initial _ _).bind (fun id => monotone_hasShape id _)
        fun loraA => (grows_zerosParameter _).bind (fun id => monotone_hasShape id _)
        fun loraB => .pure _).mono ?_
      rintro _ store ⟨loraA, hA, loraB, hB, rfl⟩
      exact .some ⟨rfl, rfl, rfl, hrank, rfl, hA, hB⟩

theorem grows_new (initial : Initial F) : Grows (RankZero cfg)
    (LinearWithLora.new initial name inFeatures outFeatures cfg) fun linear store =>
      linear.Fits store name inFeatures outFeatures cfg := by
  have hkept : ∀ lora, Monotone fun store : ParamStore F =>
      Option.Rel (LoraWeights.Fits store name inFeatures outFeatures) cfg lora := by
    intro lora store store' hle hrel
    cases hrel with
    | none => exact .none
    | some hfits =>
      exact .some (hfits.of_shapes (fun shape => monotone_hasShape _ shape hle)
        fun shape => monotone_hasShape _ shape hle)
  refine ((grows_normalParameter initial name _).bind (fun id => monotone_hasShape id _)
    fun weight => (grows_newLora initial).bind hkept fun lora => .pure _).mono ?_
  rintro _ store ⟨weight, hweight, lora, hlora, rfl⟩
  exact ⟨rfl, hweight, hlora⟩

end Fits

/-! ## The merged weight -/

section Merged

variable {store : ParamStore F} {name : String} {inFeatures outFeatures : Nat}

theorem mergeInto_eq {lora : LoraWeights F} {a b merged : List F}
    (ha : a.length = lora.rank * inFeatures) (hb : b.length = outFeatures * lora.rank)
    (hmerged : merged.length = outFeatures * inFeatures) : ∃ out,
    LinearWithLora.mergeInto lora outFeatures inFeatures a b merged = .ok out ∧
      out.length = outFeatures * inFeatures ∧ toMatrix outFeatures inFeatures out =
        toMatrix outFeatures inFeatures merged + lora.scale •
          (toMatrix outFeatures lora.rank b * toMatrix lora.rank inFeatures a) := by
  let product (outIdx inIdx : Nat) : F := ∑ rankIdx ∈ Finset.range lora.rank,
    b.getD (outIdx * lora.rank + rankIdx) 0 * a.getD (rankIdx * inFeatures + inIdx) 0
  have hdelta : ∀ outIdx < outFeatures, ∀ inIdx < inFeatures,
      (List.range lora.rank).foldlM (fun delta rankIdx => do
        let bValue ← index b (outIdx * lora.rank + rankIdx)
        let aValue ← index a (rankIdx * inFeatures + inIdx)
        return delta + bValue * aValue) 0 = (.ok (product outIdx inIdx) : Result F) := by
    intro outIdx houtIdx inIdx hinIdx
    refine (Dot.foldlM_add (w := fun rankIdx => b.getD (outIdx * lora.rank + rankIdx) 0 *
      a.getD (rankIdx * inFeatures + inIdx) 0) (fun rankIdx hrankIdx delta => ?_) 0).trans ?_
    · have hrankIdx := List.mem_range.mp hrankIdx
      rw [index_getD (hb.symm ▸ FillLoop.rowPlace_lt houtIdx hrankIdx),
        index_getD (ha.symm ▸ FillLoop.rowPlace_lt hrankIdx hinIdx)]
      rfl
    · rw [zero_add]
      rfl
  obtain ⟨out, hloop, hlen, hmatrix⟩ : ∃ out,
      LinearWithLora.mergeInto lora outFeatures inFeatures a b merged = .ok out ∧
        out.length = outFeatures * inFeatures ∧ toMatrix outFeatures inFeatures out =
          toMatrix outFeatures inFeatures merged + Matrix.of fun (outIdx : Fin outFeatures)
            (inIdx : Fin inFeatures) => lora.scale * product outIdx inIdx := by
    unfold LinearWithLora.mergeInto
    refine adds_nested (W := fun outIdx inIdx => lora.scale * product outIdx inIdx)
      (fun outIdx houtIdx => ⟨_, fun _ => rfl, fun inIdx hinIdx out hout => ?_⟩) hmerged
    rw [hdelta outIdx houtIdx inIdx hinIdx]
    exact addAt_eq (hout.symm ▸ FillLoop.rowPlace_lt houtIdx hinIdx) _
  refine ⟨out, hloop, hlen, hmatrix.trans (congrArg _ ?_)⟩
  ext row col
  rw [Matrix.of_apply, Matrix.smul_apply, Matrix.mul_apply, smul_eq_mul]
  exact congrArg _ (Finset.sum_range _)

/-- What an adapter adds to the weight. -/
def adapterMatrix (store : ParamStore F) (inFeatures outFeatures : Nat) :
    Option (LoraWeights F) → Matrix (Fin outFeatures) (Fin inFeatures) F
  | none => 0
  | some lora => lora.scale • (toMatrix outFeatures lora.rank (store.data lora.loraB) *
      toMatrix lora.rank inFeatures (store.data lora.loraA))

/-- The weight with the adapter folded in. -/
def mergedMatrix (store : ParamStore F) (inFeatures outFeatures : Nat)
    (linear : LinearWithLora F) : Matrix (Fin outFeatures) (Fin inFeatures) F :=
  toMatrix outFeatures inFeatures (store.data linear.weight) +
    adapterMatrix store inFeatures outFeatures linear.lora

variable {cfg : Option (LoraConfig F)} {linear : LinearWithLora F}

theorem mergedTensor_eq (h : linear.Fits store name inFeatures outFeatures cfg) : ∃ merged,
    linear.mergedTensor store = .ok merged ∧ merged.shape = [outFeatures, inFeatures] ∧
      toMatrix outFeatures inFeatures merged.data =
        mergedMatrix store inFeatures outFeatures linear := by
  obtain ⟨-, ⟨weight, hweight, hshape⟩, hrel⟩ := h
  unfold LinearWithLora.mergedTensor mergedMatrix
  rw [tensor_eq hweight, data_eq hweight, result_ok_bind]
  obtain ⟨baseName, weightId, lora⟩ := linear
  cases hrel with
  | none =>
    refine ⟨weight, HostTensor.new_eq weight.length_data, hshape, ?_⟩
    exact (add_zero _).symm
  | @some cfg lora hfits =>
    obtain ⟨a, ha, hashape⟩ := hfits.loraA
    obtain ⟨b, hb, hbshape⟩ := hfits.loraB
    rw [← hfits.rank] at hashape hbshape
    obtain ⟨out, hmerge, hlen, hmatrix⟩ := mergeInto_eq (length_of_shape hashape)
      (length_of_shape hbshape) (length_of_shape hshape)
    have hsize : out.length = shapeSize weight.shape := by
      rw [hlen, hshape, shapeSize, List.prod_pair]
    have hout : index weight.shape 0 = .ok outFeatures := by
      rw [hshape]
      rfl
    have hin : index weight.shape 1 = .ok inFeatures := by
      rw [hshape]
      rfl
    refine ⟨⟨out, weight.shape, hsize⟩, ?_, hshape, ?_⟩
    · dsimp only
      rw [hout, hin, tensor_eq ha, tensor_eq hb]
      simp only [result_ok_bind]
      rw [hmerge, result_ok_bind]
      exact HostTensor.new_eq hsize
    · rw [adapterMatrix, data_eq ha, data_eq hb]
      exact hmatrix

/-! ## The forward pass -/

variable {sgemm : StridedSgemm F} {m n : Nat}

theorem add_eq {a b : HostTensor F} (ha : a.shape = [m, n]) (hb : b.shape = [m, n]) : ∃ out,
    add a b = .ok out ∧ out.shape = [m, n] ∧
      toMatrix m n out.data = toMatrix m n a.data + toMatrix m n b.data := by
  have hsize : (List.zipWith (· + ·) a.data b.data).length = shapeSize a.shape := by
    rw [List.length_zipWith, length_of_shape ha, length_of_shape hb, Nat.min_self, ha, shapeSize,
      List.prod_pair]
  refine ⟨⟨_, a.shape, hsize⟩, ?_, ha,
    toMatrix_zipWith_add (length_of_shape ha) (length_of_shape hb)⟩
  unfold add
  rw [if_neg (not_not.mpr (ha.trans hb.symm))]
  exact HostTensor.new_eq hsize

theorem mulScalar_eq {a : HostTensor F} (ha : a.shape = [m, n]) (k : F) : ∃ out,
    a.mulScalar k = .ok out ∧ out.shape = [m, n] ∧
      toMatrix m n out.data = k • toMatrix m n a.data := by
  have hsize : (a.data.map (· * k)).length = shapeSize a.shape := by
    rw [List.length_map, a.length_data]
  exact ⟨⟨_, a.shape, hsize⟩, HostTensor.new_eq hsize, ha,
    toMatrix_map_mul (length_of_shape ha) k⟩

/-- The adapter adds the product with what it adds to the weight. -/
theorem addLora_eq (hsgemm : sgemm.Multiplies)
    (hrel : Option.Rel (LoraWeights.Fits store name inFeatures outFeatures) cfg linear.lora)
    {flatX projected : HostTensor F} (hflat : flatX.shape = [m, inFeatures])
    (hprojected : projected.shape = [m, outFeatures]) : ∃ out,
    LinearWithLora.addLora sgemm flatX projected store linear.lora = .ok out ∧
      out.shape = [m, outFeatures] ∧ toMatrix m outFeatures out.data =
        toMatrix m outFeatures projected.data + toMatrix m inFeatures flatX.data *
          (adapterMatrix store inFeatures outFeatures linear.lora).transpose := by
  obtain ⟨baseName, weightId, lora⟩ := linear
  cases hrel with
  | none =>
    refine ⟨projected, rfl, hprojected, ?_⟩
    rw [adapterMatrix, Matrix.transpose_zero, Matrix.mul_zero, add_zero]
  | @some cfg lora hfits =>
    obtain ⟨a, ha, hashape⟩ := hfits.loraA
    obtain ⟨b, hb, hbshape⟩ := hfits.loraB
    rw [← hfits.rank] at hashape hbshape
    obtain ⟨lowRank, hlow, hlowshape, hlowmatrix⟩ := matmulBt_eq hsgemm hflat hashape
    obtain ⟨delta, hdelta, hdeltashape, hdeltamatrix⟩ := matmulBt_eq hsgemm hlowshape hbshape
    obtain ⟨scaled, hscaled, hscaledshape, hscaledmatrix⟩ := mulScalar_eq hdeltashape lora.scale
    obtain ⟨out, hout, houtshape, houtmatrix⟩ := add_eq hprojected hscaledshape
    refine ⟨out, ?_, houtshape, ?_⟩
    · unfold LinearWithLora.addLora
      dsimp only
      rw [tensor_eq ha, tensor_eq hb, result_ok_bind, hlow, result_ok_bind, result_ok_bind, hdelta,
        result_ok_bind, hscaled, result_ok_bind, hout]
    · rw [houtmatrix, hscaledmatrix, hdeltamatrix, hlowmatrix, adapterMatrix, data_eq ha,
        data_eq hb,
        Matrix.transpose_smul, Matrix.transpose_mul, Matrix.mul_smul, Matrix.mul_assoc]

/-- The rows of the output are the products of the rows of the input with the merged weight. -/
theorem forward_eq (hsgemm : sgemm.Multiplies)
    (h : linear.Fits store name inFeatures outFeatures cfg) {x : HostTensor F}
    (hx : x.shape.getLast? = some inFeatures) (hin : inFeatures ≠ 0) : ∃ y,
    linear.forward sgemm x store = .ok y ∧ y.shape = x.shape.dropLast ++ [outFeatures] ∧
      toMatrix x.shape.dropLast.prod outFeatures y.data =
        toMatrix x.shape.dropLast.prod inFeatures x.data *
          (mergedMatrix store inFeatures outFeatures linear).transpose := by
  obtain ⟨-, ⟨weight, hweight, hshape⟩, hrel⟩ := h
  have hlast : RowWise.lastDim x.shape = .ok inFeatures := by
    unfold RowWise.lastDim
    rw [hx]
  have hrows := RowWise.hasRows_of_lastDim hlast hin
  have hsize : shapeSize [x.shape.dropLast.prod, inFeatures] = shapeSize x.shape := by
    rw [hrows.size, shapeSize, List.prod_pair]
  obtain ⟨flatX, hflat, hflatshape, hflatdata⟩ := reshape_eq hsize
  obtain ⟨projected, hproj, hprojshape, hprojmatrix⟩ := matmulBt_eq hsgemm hflatshape hshape
  obtain ⟨sum, hsum, hsumshape, hsummatrix⟩ := addLora_eq hsgemm hrel hflatshape hprojshape
  have hsize' : shapeSize (x.shape.dropLast ++ [outFeatures]) = shapeSize sum.shape := by
    rw [hsumshape, shapeSize, shapeSize, List.prod_append, List.prod_singleton, List.prod_pair]
  obtain ⟨y, hy, hyshape, hydata⟩ := reshape_eq hsize'
  refine ⟨y, ?_, hyshape, ?_⟩
  · have hindex : index weight.shape 1 = .ok inFeatures := by
      rw [hshape]
      rfl
    have hindex' : index weight.shape 0 = .ok outFeatures := by
      rw [hshape]
      rfl
    have hdiv : RowWise.divSize x.shape.prod inFeatures = .ok x.shape.dropLast.prod := by
      rw [show x.shape.prod = _ from hrows.size, hrows.divSize]
    unfold LinearWithLora.forward
    rw [tensor_eq hweight, result_ok_bind, if_neg (by rw [hshape]; exact not_not.mpr rfl), hlast,
      hindex, hindex']
    simp only [result_ok_bind]
    rw [if_neg (not_not.mpr rfl), hdiv, result_ok_bind, hflat, result_ok_bind, hproj,
      result_ok_bind, hsum, result_ok_bind, hy]
  · rw [hydata, hsummatrix, hprojmatrix, hflatdata, mergedMatrix, data_eq hweight,
      Matrix.transpose_add, Matrix.mul_add]

/-- An input with empty rows has no number of rows. -/
theorem forward_of_empty_rows (h : linear.Fits store name 0 outFeatures cfg) {x : HostTensor F}
    (hx : x.shape.getLast? = some 0) : linear.forward sgemm x store = .error .panicked := by
  obtain ⟨-, ⟨weight, hweight, hshape⟩, -⟩ := h
  have hlast : RowWise.lastDim x.shape = .ok 0 := by
    unfold RowWise.lastDim
    rw [hx]
  have hindex : index weight.shape 1 = .ok 0 := by
    rw [hshape]
    rfl
  unfold LinearWithLora.forward
  rw [tensor_eq hweight, result_ok_bind, if_neg (by rw [hshape]; exact not_not.mpr rfl), hlast,
    hindex]
  simp only [result_ok_bind]
  rw [if_neg (not_not.mpr rfl)]
  rfl

end Merged

end Arle.Train.Lora
