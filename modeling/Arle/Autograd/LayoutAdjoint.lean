import Mathlib
import Arle.Lib.Dot
import Arle.Lib.RowMajor
import Arle.Autograd.Layout

/-!
# Layout operations and their adjoints

Every operation reads the entries of its input at places that a map of positions gives, and its
backward pass adds the entries of the gradient at these places, or reads them at the places of
the inverse map. The maps are those of row-major positions; only the one of the gather is
narrowed to 32 bits on the way back.
-/

namespace Arle.Autograd

open RowMajor Dot

/-! ## Positions -/

section Positions

variable {α F : Type} {data : List α} {shape : List Nat} {i j : Nat}

theorem result_ok_bind {α β : Type} (a : α) (f : α → Result β) : (Except.ok a >>= f) = f a := rfl

theorem index_eq_ok {a : α} (h : data[i]? = some a) : index data i = .ok a := by
  unfold index
  rw [h]

theorem index_getD [Zero F] {data : List F} (h : i < data.length) :
    index data i = .ok (data.getD i 0) := by
  rw [List.getD_eq_getElem _ _ h]
  exact index_eq_ok (List.getElem?_eq_getElem h)

theorem addAt_eq [CommSemiring F] {data : List F} (h : i < data.length) (value : F) :
    addAt data i value = .ok (addTo data i value) := by
  unfold addAt
  rw [index_getD h, result_ok_bind]
  rfl

theorem swapAt_eq (hi : i < data.length) (hj : j < data.length) :
    swapAt data i j = .ok (exchange data i j) := by
  unfold swapAt
  rw [index_eq_ok (List.getElem?_eq_getElem hi), index_eq_ok (List.getElem?_eq_getElem hj),
    exchange_eq hi hj]
  rfl

theorem contiguousStrides_eq (shape : List Nat) : contiguousStrides shape = strides shape := by
  have hstate : shape.foldr (fun dim (state : Nat × List Nat) =>
      (state.1 * dim, state.1 :: state.2)) (1, []) = (shape.prod, strides shape) := by
    induction shape with
    | nil => rfl
    | cons dim shape ih => rw [List.foldr_cons, ih, List.prod_cons, Nat.mul_comm, strides]
  unfold contiguousStrides
  rw [hstate]

theorem linearToCoords_eq (hpos : ∀ dim ∈ shape, 0 < dim) (linear : Nat) :
    linearToCoords linear shape = .ok (coords shape linear) := by
  have hstate : shape.foldrM (fun dim (state : Nat × List Nat) =>
      (if dim = 0 then .error .panicked
        else .ok (state.1 / dim, state.1 % dim :: state.2) : Result (Nat × List Nat)))
      (linear, []) = .ok (linear / shape.prod, coords shape linear) := by
    induction shape with
    | nil =>
      rw [List.prod_nil, Nat.div_one]
      rfl
    | cons dim shape ih =>
      have hdim := hpos dim List.mem_cons_self
      rw [List.foldrM_cons, ih fun d hd => hpos d (List.mem_cons_of_mem _ hd)]
      change (if dim = 0 then _ else _) = _
      rw [if_neg (Nat.ne_of_gt hdim), Nat.div_div_eq_div_mul, List.prod_cons, Nat.mul_comm, coords]
  unfold linearToCoords
  rw [hstate]
  rfl

theorem position_eq_sum {cs steps : List Nat} {n : Nat} (hcs : cs.length = n)
    (hsteps : steps.length = n) :
    position cs steps = ∑ k ∈ Finset.range n, cs.getD k 0 * steps.getD k 0 :=
  dot_eq_sum hcs hsteps

end Positions

/-! ## Transposing -/

section Transpose

variable {F : Type} [CommSemiring F] {shape : List Nat} {axis1 axis2 : Nat}

theorem transposeData_eq (h1 : axis1 < shape.length) (h2 : axis2 < shape.length)
    (hne : axis1 ≠ axis2) {data : List F} (hdata : data.length = shape.prod) :
    transposeData data shape axis1 axis2 =
      .ok ((List.range shape.prod).map fun o => data.getD (transposed shape axis1 axis2 o) 0,
        exchange shape axis1 axis2) := by
  have hentry : ∀ o < shape.prod, (do
      let coords ← linearToCoords o (exchange shape axis1 axis2)
      let coords ← swapAt coords axis1 axis2
      index data (List.zipWith (· * ·) coords (contiguousStrides shape)).sum) =
        Except.ok (data.getD (transposed shape axis1 axis2 o) 0) := by
    intro o ho
    have hpos : ∀ dim ∈ exchange shape axis1 axis2, 0 < dim :=
      pos_of_lt_prod (prod_exchange.symm ▸ ho)
    have hlen : (coords (exchange shape axis1 axis2) o).length = shape.length := by
      rw [length_coords, length_exchange]
    rw [linearToCoords_eq hpos, contiguousStrides_eq, result_ok_bind,
      swapAt_eq (hlen.symm ▸ h1) (hlen.symm ▸ h2), result_ok_bind]
    exact index_getD (hdata.symm ▸ transposed_lt h1 h2 ho)
  unfold transposeData
  rw [if_neg (Nat.not_le_of_lt h1), if_neg (Nat.not_le_of_lt h2), if_neg hne, swapAt_eq h1 h2,
    result_ok_bind, hdata]
  dsimp only
  rw [mapM_range_ok hentry, result_ok_bind]
  rfl

variable (F) in
/-- Transposing the gradient is the adjoint of transposing. -/
def TransposeAdjoint : Prop :=
  ∀ (shape : List Nat) (axis1 axis2 : Nat), axis1 < shape.length → axis2 < shape.length →
    ∃ outputShape, shapeSize outputShape = shapeSize shape ∧
      ∀ x g : List F, x.length = shapeSize shape → g.length = shapeSize outputShape → ∃ y d,
        transposeData x shape axis1 axis2 = .ok (y, outputShape) ∧
        transposeData g outputShape axis1 axis2 = .ok (d, shape) ∧ dot y g = dot x d

theorem transposeAdjoint : TransposeAdjoint F := by
  intro shape axis1 axis2 h1 h2
  refine ⟨exchange shape axis1 axis2, prod_exchange, fun x g hx hg => ?_⟩
  by_cases hne : axis1 = axis2
  · subst hne
    have hsame : exchange shape axis1 axis1 = shape := by
      rw [exchange_eq h1 h1, List.set_getElem_self, List.set_getElem_self]
    refine ⟨x, g, ?_, ?_, rfl⟩ <;> unfold transposeData
    · rw [if_neg (Nat.not_le_of_lt h1), if_neg (Nat.not_le_of_lt h1), if_pos rfl, hsame]
    · rw [hsame, if_neg (Nat.not_le_of_lt h1), if_neg (Nat.not_le_of_lt h1), if_pos rfl]
  · have hlen : (exchange shape axis1 axis2).length = shape.length := length_exchange
    have h1' : axis1 < (exchange shape axis1 axis2).length := hlen.symm ▸ h1
    have hback := transposeData_eq h1' (hlen.symm ▸ h2) hne hg
    rw [exchange_exchange h1 h2, prod_exchange] at hback
    refine ⟨_, _, transposeData_eq h1 h2 hne hx, hback, ?_⟩
    have hgather : ∀ (f : Nat → F), ((List.range shape.prod).map f).length = shape.prod := by
      intro f
      rw [List.length_map, List.length_range]
    rw [dot_eq_sum (hgather _) (hg.trans prod_exchange), dot_eq_sum hx (hgather _)]
    -- The sum over the entries of the output is one over those of the input.
    refine Finset.sum_nbij' (transposed shape axis1 axis2)
      (transposed (exchange shape axis1 axis2) axis1 axis2) ?_ ?_ ?_ ?_ ?_
    · intro o ho
      exact Finset.mem_range.mpr (transposed_lt h1 h2 (Finset.mem_range.mp ho))
    · intro i hi
      have h := transposed_lt (hlen.symm ▸ h1) (hlen.symm ▸ h2)
        (prod_exchange.symm ▸ Finset.mem_range.mp hi : i < (exchange shape axis1 axis2).prod)
      rw [prod_exchange] at h
      exact Finset.mem_range.mpr h
    · intro o ho
      exact transposed_transposed h1 h2 (Finset.mem_range.mp ho)
    · intro i hi
      have h := transposed_transposed (hlen.symm ▸ h1) (hlen.symm ▸ h2)
        (prod_exchange.symm ▸ Finset.mem_range.mp hi : i < (exchange shape axis1 axis2).prod)
      rwa [exchange_exchange h1 h2] at h
    · intro o ho
      have ho := Finset.mem_range.mp ho
      rw [getD_map_range _ ho, getD_map_range _ (transposed_lt h1 h2 ho),
        transposed_transposed h1 h2 ho]

end Transpose

/-! ## Slicing -/

section Slice

variable {shape starts ends : List Nat}

/-- The bounds lie in the shape. -/
structure ValidBounds (shape starts ends : List Nat) : Prop where
  length_starts : starts.length = shape.length
  length_ends : ends.length = shape.length
  bounds : ∀ axis < shape.length, starts.getD axis 0 ≤ ends.getD axis 0 ∧
    ends.getD axis 0 ≤ shape.getD axis 0

theorem ValidBounds.nil : ValidBounds [] [] [] :=
  ⟨rfl, rfl, fun axis haxis => absurd haxis (Nat.not_lt_zero axis)⟩

theorem ValidBounds.cons (h : ValidBounds shape starts ends) {size start stop : Nat}
    (hle : start ≤ stop) (hfits : stop ≤ size) :
    ValidBounds (size :: shape) (start :: starts) (stop :: ends) := by
  refine ⟨congrArg (· + 1) h.length_starts, congrArg (· + 1) h.length_ends, fun axis haxis => ?_⟩
  cases axis with
  | zero => exact ⟨hle, hfits⟩
  | succ axis => exact h.bounds axis (Nat.lt_of_succ_lt_succ haxis)

/-- An axis that is kept as it is. -/
theorem ValidBounds.whole (h : ValidBounds shape starts ends) (size : Nat) :
    ValidBounds (size :: shape) (0 :: starts) (size :: ends) :=
  h.cons (Nat.zero_le size) (Nat.le_refl size)

theorem sliceIndex_eq {outCoords steps : List Nat} {n : Nat} (hcoords : outCoords.length = n)
    (hstarts : starts.length = n) (hsteps : steps.length = n) :
    sliceIndex starts steps outCoords =
      .ok (position (List.zipWith (· + ·) outCoords starts) steps) := by
  have hterm : ∀ b ∈ outCoords.zipIdx, (do
      let start ← index starts b.2
      let stride ← index steps b.2
      return (b.1 + start) * stride) =
        (Except.ok ((b.1 + starts.getD b.2 0) * steps.getD b.2 0) : Result Nat) := by
    rintro ⟨coord, axis⟩ hb
    obtain ⟨_, haxis, _⟩ := List.mem_zipIdx hb
    rw [index_getD (by omega), result_ok_bind, index_getD (by omega), result_ok_bind]
    rfl
  have hsum : (List.zipWith (· + ·) outCoords starts).length = n := by
    rw [List.length_zipWith, hcoords, hstarts, Nat.min_self]
  unfold sliceIndex
  rw [mapM_ok hterm, result_ok_bind, sum_map_zipIdx _ 0, position_eq_sum hsum hsteps, hcoords]
  refine congrArg Except.ok (Finset.sum_congr rfl fun axis haxis => ?_)
  have haxis := Finset.mem_range.mp haxis
  have hadd : (List.zipWith (· + ·) outCoords starts).getD axis 0 =
      outCoords.getD axis 0 + starts.getD axis 0 := by
    rw [List.getD_eq_getElem _ _ (hsum.symm ▸ haxis), List.getElem_zipWith,
      List.getD_eq_getElem _ _ (hcoords.symm ▸ haxis),
      List.getD_eq_getElem _ _ (hstarts.symm ▸ haxis)]
  dsimp only
  rw [Nat.zero_add, hadd]

theorem validateSliceBounds_eq (h : ValidBounds shape starts ends) :
    validateSliceBounds shape starts ends = .ok () := by
  have hstarts := h.length_starts
  have hends := h.length_ends
  unfold validateSliceBounds
  rw [if_neg (not_not_intro hstarts), if_neg (not_not_intro hends)]
  refine forM_ok fun b hb => ?_
  obtain ⟨axis, hlt, rfl⟩ := List.mem_iff_getElem.mp hb
  rw [List.length_zip, List.length_zip] at hlt
  obtain ⟨hle, hdim⟩ := h.bounds axis (by omega)
  rw [List.getD_eq_getElem _ _ (by omega), List.getD_eq_getElem _ _ (by omega)] at hle hdim
  rw [List.getElem_zip, List.getElem_zip]
  dsimp only
  rw [if_neg (by omega), if_neg (by omega), if_neg (by omega)]
  rfl

theorem length_sliceShape (h : ValidBounds shape starts ends) :
    (sliceShape starts ends).length = shape.length := by
  rw [sliceShape, List.length_zipWith, h.length_starts, h.length_ends, Nat.min_self]

/-- The place in the input of an entry of the slice. -/
def slicePlace (shape starts ends : List Nat) (o : Nat) : Nat :=
  position (List.zipWith (· + ·) (coords (sliceShape starts ends) o) starts) (strides shape)

theorem slicePlace_lt (h : ValidBounds shape starts ends) {o : Nat}
    (ho : o < shapeSize (sliceShape starts ends)) :
    slicePlace shape starts ends o < shapeSize shape := by
  have hin := inShape_iff.mp (coords_inShape (pos_of_lt_prod ho) o)
  refine InShape.position_lt (inShape_iff.mpr ⟨?_, fun axis c dim hc hdim => ?_⟩)
  · rw [List.length_zipWith, length_coords, length_sliceShape h, h.length_starts, Nat.min_self]
  · obtain ⟨haxis, rfl⟩ := List.getElem?_eq_some_iff.mp hdim
    obtain ⟨hzip, rfl⟩ := List.getElem?_eq_some_iff.mp hc
    have hstarts := h.length_starts
    have hends := h.length_ends
    have hslice := length_sliceShape h
    obtain ⟨hle, hdim⟩ := h.bounds axis haxis
    have hdim? : (sliceShape starts ends)[axis]? = some (ends[axis] - starts[axis]) := by
      rw [List.getElem?_eq_getElem (hslice.symm ▸ haxis)]
      exact congrArg some List.getElem_zipWith
    have hcoord := hin.2 axis _ _ (List.getElem?_eq_getElem (by rw [length_coords]; omega)) hdim?
    rw [List.getD_eq_getElem _ _ (by omega), List.getD_eq_getElem _ _ (by omega)] at hle hdim
    rw [List.getElem_zipWith]
    omega

variable {F : Type} [CommSemiring F]

/-- The loops of both passes find the place of an entry. -/
theorem sliceIndex_coords (h : ValidBounds shape starts ends) {o : Nat}
    (ho : o < shapeSize (sliceShape starts ends)) : (do
      let outCoords ← linearToCoords o (sliceShape starts ends)
      sliceIndex starts (contiguousStrides shape) outCoords) =
        .ok (slicePlace shape starts ends o) := by
  rw [linearToCoords_eq (pos_of_lt_prod ho), result_ok_bind, contiguousStrides_eq]
  apply sliceIndex_eq (n := shape.length)
  · rw [length_coords, length_sliceShape h]
  · exact h.length_starts
  · exact length_strides shape

theorem sliceData_eq (h : ValidBounds shape starts ends) {data : List F}
    (hdata : data.length = shapeSize shape) :
    sliceData data shape starts ends =
      .ok ((List.range (shapeSize (sliceShape starts ends))).map fun o =>
        data.getD (slicePlace shape starts ends o) 0, sliceShape starts ends) := by
  unfold sliceData
  rw [validateSliceBounds_eq h, result_ok_bind]
  dsimp only
  rw [mapM_range_ok (g := fun o => data.getD (slicePlace shape starts ends o) 0), result_ok_bind]
  · rfl
  · intro o ho
    have hplace := sliceIndex_coords h ho
    rw [← bind_assoc, hplace, result_ok_bind]
    exact index_getD (hdata.symm ▸ slicePlace_lt h ho)

variable (F) in
/-- The backward pass of a slice is its adjoint. -/
def SliceAdjoint : Prop :=
  ∀ shape starts ends, ValidBounds shape starts ends →
    ∀ x g : List F, x.length = shapeSize shape → g.length = shapeSize (sliceShape starts ends) →
      ∃ y d, sliceData x shape starts ends = .ok (y, sliceShape starts ends) ∧
        sliceBackward shape starts ends g (sliceShape starts ends) = .ok d ∧
        d.length = shapeSize shape ∧ dot y g = dot x d

theorem sliceAdjoint : SliceAdjoint F := by
  intro shape starts ends h x g hx hg
  obtain ⟨d, hloop, hlen, -, hdot⟩ := scatter_entries (n := shapeSize shape) (g := g)
    (p := slicePlace shape starts ends) (f := fun grad (b : F × Nat) => do
      let outCoords ← linearToCoords b.2 (sliceShape starts ends)
      let inputIndex ← sliceIndex starts (contiguousStrides shape) outCoords
      addAt grad inputIndex b.1) (by
    intro o ho
    have ho' : o < shapeSize (sliceShape starts ends) := hg ▸ ho
    refine ⟨slicePlace_lt h ho', fun out v hout => ?_⟩
    rw [← bind_assoc, sliceIndex_coords h ho', result_ok_bind]
    exact addAt_eq (hout.symm ▸ slicePlace_lt h ho') v)
  refine ⟨_, d, sliceData_eq h hx, ?_, hlen, ?_⟩
  · unfold sliceBackward
    rw [if_neg (not_not_intro rfl)]
    exact hloop
  · have hy : ((List.range (shapeSize (sliceShape starts ends))).map fun o =>
        x.getD (slicePlace shape starts ends o) 0).length = shapeSize (sliceShape starts ends) := by
      rw [List.length_map, List.length_range]
    rw [hdot x hx, dot_eq_sum hy hg, hg]
    refine Finset.sum_congr rfl fun o ho => ?_
    rw [getD_map_range _ (Finset.mem_range.mp ho)]

end Slice

/-! ## Broadcasting -/

section Broadcast

variable {aShape bShape : List Nat}

/-- The shape of the second operand fits the last axes of the first. -/
structure Broadcastable (aShape bShape : List Nat) : Prop where
  rank : bShape.length ≤ aShape.length
  dims : ∀ axis < bShape.length, bShape.getD axis 0 = 1 ∨
    bShape.getD axis 0 = aShape.getD (aShape.length - bShape.length + axis) 0

theorem Broadcastable.of_forall₂
    (h : List.Forall₂ (fun size size' => size' = 1 ∨ size' = size) aShape bShape) :
    Broadcastable aShape bShape := by
  refine ⟨h.length_eq.ge, fun axis haxis => ?_⟩
  rw [h.length_eq, Nat.sub_self, Nat.zero_add]
  induction h generalizing axis with
  | nil => exact absurd haxis (Nat.not_lt_zero axis)
  | cons hdim _ ih =>
    cases axis with
    | zero => exact hdim
    | succ axis => exact ih axis (Nat.lt_of_succ_lt_succ haxis)

/-- The coordinate in the second operand of an entry of the first. -/
def broadcastCoord (aShape bShape : List Nat) (o axis : Nat) : Nat :=
  if bShape.getD axis 0 = 1 then 0
  else (coords aShape o).getD (aShape.length - bShape.length + axis) 0

def broadcastCoords (aShape bShape : List Nat) (o : Nat) : List Nat :=
  (List.range bShape.length).map (broadcastCoord aShape bShape o)

/-- The place in the second operand of an entry of the first. -/
def broadcastPlace (aShape bShape : List Nat) (o : Nat) : Nat :=
  position (broadcastCoords aShape bShape o) (strides bShape)

/-- The entry `j` of the second operand is added to the entry `o` of the first: they agree in
the axes along which the second is not repeated. -/
def Broadcasts (aShape bShape : List Nat) (o j : Nat) : Prop :=
  ∀ axis < bShape.length, bShape.getD axis 0 = 1 ∨
    (coords aShape o).getD (aShape.length - bShape.length + axis) 0 = (coords bShape j).getD axis 0

instance (o j : Nat) : Decidable (Broadcasts aShape bShape o j) := by
  unfold Broadcasts
  infer_instance

theorem length_broadcastCoords (o : Nat) :
    (broadcastCoords aShape bShape o).length = bShape.length := by
  rw [broadcastCoords, List.length_map, List.length_range]

theorem validateBroadcast_eq (h : Broadcastable aShape bShape) :
    validateBroadcast aShape bShape = .ok () := by
  have hrank := h.rank
  unfold validateBroadcast
  rw [if_neg (Nat.not_lt_of_le hrank)]
  refine forM_ok fun b hb => ?_
  obtain ⟨dim, axis⟩ := b
  have hdim : bShape[axis]? = some dim := List.mk_mem_zipIdx_iff_getElem?.mp hb
  obtain ⟨haxis, rfl⟩ := List.getElem?_eq_some_iff.mp hdim
  have hdims := h.dims axis haxis
  rw [List.getD_eq_getElem _ _ haxis] at hdims
  dsimp only
  rw [index_getD (by omega), result_ok_bind, if_neg (by tauto)]
  rfl

theorem broadcastOffset_eq (h : Broadcastable aShape bShape) {o : Nat}
    (ho : o < shapeSize aShape) :
    broadcastOffset o aShape bShape = .ok (broadcastPlace aShape bShape o) := by
  have hrank := h.rank
  have hlen := length_strides bShape
  unfold broadcastOffset
  split
  · rename_i hnil
    subst hnil
    rfl
  · have hbody : ∀ b ∈ (strides bShape).zipIdx, ∀ offset : Nat, (do
        let dim ← index bShape b.2
        let coord ← if dim = 1 then .ok 0
          else index (coords aShape o) (aShape.length - bShape.length + b.2)
        return offset + coord * b.1) =
          (Except.ok (offset + broadcastCoord aShape bShape o b.2 * b.1) : Result Nat) := by
      rintro ⟨stride, axis⟩ hb offset
      obtain ⟨_, haxis, _⟩ := List.mem_zipIdx hb
      rw [index_getD (by omega), result_ok_bind]
      dsimp only
      unfold broadcastCoord
      split
      · rfl
      · rw [index_getD (by rw [length_coords]; omega)]
        rfl
    rw [linearToCoords_eq (pos_of_lt_prod ho), result_ok_bind, contiguousStrides_eq]
    refine (foldlM_add hbody 0).trans (congrArg Except.ok ?_)
    rw [Nat.zero_add, sum_map_zipIdx _ 0, broadcastPlace,
      position_eq_sum (length_broadcastCoords o) hlen, hlen]
    refine Finset.sum_congr rfl fun axis haxis => ?_
    rw [broadcastCoords, getD_map_range _ (Finset.mem_range.mp haxis), Nat.zero_add]

theorem inShape_broadcastCoords (h : Broadcastable aShape bShape) {o : Nat}
    (ho : o < shapeSize aShape) : InShape (broadcastCoords aShape bShape o) bShape := by
  have hrank := h.rank
  have hin := inShape_iff.mp (coords_inShape (pos_of_lt_prod ho) o)
  refine inShape_iff.mpr ⟨length_broadcastCoords o, fun axis c dim hc hdim => ?_⟩
  obtain ⟨haxis, rfl⟩ := List.getElem?_eq_some_iff.mp hdim
  have hcoord : c = broadcastCoord aShape bShape o axis := by
    rw [broadcastCoords, List.getElem?_map, List.getElem?_range haxis] at hc
    exact (Option.some.inj hc).symm
  have hdims := h.dims axis haxis
  rw [List.getD_eq_getElem _ _ haxis] at hdims
  rw [hcoord, broadcastCoord, List.getD_eq_getElem _ _ haxis]
  split
  · omega
  · have htarget := hdims.resolve_left ‹_›
    rw [htarget, List.getD_eq_getElem _ _ (by rw [length_coords]; omega),
      List.getD_eq_getElem _ _ (by omega)]
    exact hin.2 _ _ _ (List.getElem?_eq_getElem _) (List.getElem?_eq_getElem _)

theorem broadcastPlace_lt (h : Broadcastable aShape bShape) {o : Nat}
    (ho : o < shapeSize aShape) : broadcastPlace aShape bShape o < shapeSize bShape :=
  (inShape_broadcastCoords h ho).position_lt

theorem broadcastPlace_eq_iff (h : Broadcastable aShape bShape) {o j : Nat}
    (ho : o < shapeSize aShape) (hj : j < shapeSize bShape) :
    broadcastPlace aShape bShape o = j ↔ Broadcasts aShape bShape o j := by
  have hin := inShape_broadcastCoords h ho
  have hcoords : broadcastPlace aShape bShape o = j ↔
      broadcastCoords aShape bShape o = coords bShape j := by
    constructor
    · rintro rfl
      exact hin.coords_position.symm
    · intro heq
      rw [broadcastPlace, heq, position_coords hj]
  rw [hcoords]
  have haxis : ∀ axis < bShape.length, ((broadcastCoords aShape bShape o)[axis]? =
      (coords bShape j)[axis]? ↔ bShape.getD axis 0 = 1 ∨
        (coords aShape o).getD (aShape.length - bShape.length + axis) 0 =
          (coords bShape j).getD axis 0) := by
    intro axis hlt
    have hbound := (inShape_iff.mp (coords_inShape (pos_of_lt_prod hj) j)).2 axis _ _
      (List.getElem?_eq_getElem (by rwa [length_coords])) (List.getElem?_eq_getElem hlt)
    rw [broadcastCoords, List.getElem?_map, List.getElem?_range hlt,
      List.getElem?_eq_getElem (by rwa [length_coords]),
      List.getD_eq_getElem (coords bShape j) _ (by rwa [length_coords]), Option.map_some,
      Option.some.injEq, broadcastCoord, List.getD_eq_getElem bShape _ hlt]
    split
    · rename_i hone
      rw [hone] at hbound
      simp only [hone, true_or, iff_true]
      omega
    · rename_i hone
      simp only [hone, false_or]
  constructor
  · intro heq axis hlt
    exact (haxis axis hlt).mp (by rw [heq])
  · intro hall
    refine List.ext_getElem? fun axis => ?_
    rcases Nat.lt_or_ge axis bShape.length with hlt | hge
    · exact (haxis axis hlt).mpr (hall axis hlt)
    · rw [List.getElem?_eq_none (by rwa [length_broadcastCoords]),
        List.getElem?_eq_none (by rwa [length_coords])]

variable {F : Type} [CommSemiring F]

theorem cpuAddBroadcastForward_eq {α : Type} [Zero α] [Add α] (h : Broadcastable aShape bShape)
    {a b : List α}
    (ha : a.length = shapeSize aShape) (hb : b.length = shapeSize bShape) :
    cpuAddBroadcastForward a aShape b bShape = .ok ((List.range (shapeSize aShape)).map fun o =>
      a.getD o 0 + b.getD (broadcastPlace aShape bShape o) 0) := by
  unfold cpuAddBroadcastForward
  rw [validateBroadcast_eq h, result_ok_bind, if_neg (not_not_intro ha),
    if_neg (not_not_intro hb)]
  refine mapM_range_ok fun o ho => ?_
  rw [index_getD (ha.symm ▸ ho), result_ok_bind, broadcastOffset_eq h ho, result_ok_bind,
    index_getD (hb.symm ▸ broadcastPlace_lt h ho), result_ok_bind]
  rfl

variable (F) in
/-- The backward pass of a broadcast addition is its adjoint in both operands, and an entry of
the gradient of the second is the sum over the entries of the first that it is added to. -/
def BroadcastAdjoint : Prop :=
  ∀ aShape bShape, Broadcastable aShape bShape → ∀ a b g : List F, a.length = shapeSize aShape →
    b.length = shapeSize bShape → g.length = shapeSize aShape → ∃ y gradB,
      cpuAddBroadcastForward a aShape b bShape = .ok y ∧
      addBroadcastBackward aShape bShape aShape true true g aShape = .ok (some g, some gradB) ∧
      gradB.length = shapeSize bShape ∧ dot y g = dot a g + dot b gradB ∧
      ∀ j < shapeSize bShape, gradB.getD j 0 = ∑ o ∈ Finset.range (shapeSize aShape),
        if Broadcasts aShape bShape o j then g.getD o 0 else 0

theorem broadcastAdjoint : BroadcastAdjoint F := by
  intro aShape bShape h a b g ha hb hg
  obtain ⟨gradB, hloop, hlen, hentry, hdot⟩ := scatter_entries (n := shapeSize bShape) (g := g)
    (p := broadcastPlace aShape bShape) (f := fun gradB (b : F × Nat) => do
      let offset ← broadcastOffset b.2 aShape bShape
      addAt gradB offset b.1) (by
    intro o ho
    have ho' : o < shapeSize aShape := hg ▸ ho
    refine ⟨broadcastPlace_lt h ho', fun out v hout => ?_⟩
    rw [broadcastOffset_eq h ho', result_ok_bind]
    exact addAt_eq (hout.symm ▸ broadcastPlace_lt h ho') v)
  refine ⟨_, gradB, cpuAddBroadcastForward_eq h ha hb, ?_, hlen, ?_, fun j hj => ?_⟩
  · unfold addBroadcastBackward
    rw [if_neg (not_not_intro rfl)]
    dsimp only
    rw [if_pos rfl, if_pos rfl, hloop]
    rfl
  · have hy : ((List.range (shapeSize aShape)).map fun o =>
        a.getD o 0 + b.getD (broadcastPlace aShape bShape o) 0).length = shapeSize aShape := by
      rw [List.length_map, List.length_range]
    rw [hdot b hb, dot_eq_sum hy hg, dot_eq_sum ha hg, hg, ← Finset.sum_add_distrib]
    refine Finset.sum_congr rfl fun o ho => ?_
    rw [getD_map_range _ (Finset.mem_range.mp ho), add_mul]
  · rw [hentry j hj, hg]
    refine Finset.sum_congr rfl fun o ho => ?_
    exact if_congr (broadcastPlace_eq_iff h (Finset.mem_range.mp ho) hj) rfl rfl

end Broadcast

/-! ## Gathering -/

section Gather

variable {srcShape indices : List Nat} {vocab : Nat}

/-- The indices that a gather along the last axis takes. -/
structure ValidIndices (srcShape : List Nat) (vocab : Nat) (indices : List Nat) : Prop where
  last : srcShape.getLast? = some vocab
  length : indices.length = shapeSize srcShape.dropLast
  lt : ∀ i ∈ indices, i < vocab

/-- The flat indices are those of entries, and they fit in a word of 32 bits. -/
structure FlatIndicesFit (srcShape : List Nat) (vocab : Nat) (indices : List Nat) : Prop where
  rows : shapeSize srcShape.dropLast ≠ 0
  fits : ∀ row i, indices[row]? = some i → row * vocab + i < 2 ^ 31

theorem asI32_of_lt {n : Nat} (h : n < 2 ^ 31) : asI32 n = n :=
  Int.bmod_eq_of_le (by omega) (by omega)

theorem asI32_lt (n : Nat) : asI32 n < 2 ^ 31 := Int.bmod_lt (by omega)

theorem asUsize_natCast {n : Nat} (h : n < 2 ^ 31) : asUsize n = n := by
  unfold asUsize
  rw [Int.emod_eq_of_lt (by omega) (by omega)]
  rfl

theorem ValidIndices.size (h : ValidIndices srcShape vocab indices) :
    shapeSize srcShape = shapeSize srcShape.dropLast * vocab := by
  obtain ⟨front, rfl⟩ := List.getLast?_eq_some_iff.mp h.last
  unfold shapeSize
  rw [List.dropLast_concat, List.prod_append, List.prod_singleton]

theorem ValidIndices.flat_lt (h : ValidIndices srcShape vocab indices) {row i : Nat}
    (hi : indices[row]? = some i) : row * vocab + i < shapeSize srcShape := by
  have hrow : row < shapeSize srcShape.dropLast := by
    rw [← h.length]
    exact (List.getElem?_eq_some_iff.mp hi).1
  calc row * vocab + i
    _ < row * vocab + vocab := Nat.add_lt_add_left (h.lt i (List.mem_of_getElem? hi)) _
    _ = (row + 1) * vocab := (Nat.succ_mul row vocab).symm
    _ ≤ shapeSize srcShape.dropLast * vocab := Nat.mul_le_mul_right _ hrow
    _ = shapeSize srcShape := h.size.symm

variable {F : Type} [Field F]

/-- The host path takes the indices as far as the reference function. -/
theorem gatherLastDimHostEager_eq (h : ValidIndices srcShape vocab indices) (src : List F) :
    gatherLastDimHostEager src srcShape indices =
      (cpuGatherLastDimForward src srcShape (indices.map asI32)).map fun output =>
        (output, srcShape.dropLast) := by
  have hforM : (indices.forM fun i =>
      if i ≥ vocab then throw (.indexOutOfBounds i vocab) else pure () : Result Unit) = .ok () := by
    refine forM_ok fun i hi => ?_
    rw [if_neg (Nat.not_le_of_lt (h.lt i hi))]
    rfl
  unfold gatherLastDimHostEager
  rw [h.last]
  dsimp only
  rw [if_neg (not_not_intro h.length), hforM, result_ok_bind]
  cases cpuGatherLastDimForward src srcShape (indices.map asI32) <;> rfl

/-- The entries at the flat indices. -/
def gathered (vocab : Nat) (indices : List Nat) (src : List F) : List F :=
  (indices.map asI32).zipIdx.map fun b => src.getD (b.2 * vocab + asUsize b.1) 0

theorem length_gathered (src : List F) : (gathered vocab indices src).length = indices.length := by
  rw [gathered, List.length_map, List.length_zipIdx, List.length_map]

theorem getD_gathered (src : List F) {row i : Nat} (hi : indices[row]? = some i)
    (hfit : i < 2 ^ 31) : (gathered vocab indices src).getD row 0 = src.getD (row * vocab + i) 0 := by
  rw [gathered, List.getD_eq_getElem?_getD, List.getElem?_map, List.getElem?_zipIdx,
    List.getElem?_map, hi]
  simp only [Option.map_some, Option.getD_some, Nat.zero_add]
  rw [asI32_of_lt hfit, asUsize_natCast hfit]

theorem cpuGatherLastDimForward_eq (h : ValidIndices srcShape vocab indices)
    (hfit : FlatIndicesFit srcShape vocab indices) {src : List F}
    (hsrc : src.length = shapeSize srcShape) :
    cpuGatherLastDimForward src srcShape (indices.map asI32) =
      .ok (gathered vocab indices src) := by
  have hsize : src.length = srcShape.prod := hsrc
  have hrows : max srcShape.dropLast.prod 1 = indices.length := by
    rw [h.length]
    exact Nat.max_eq_left (Nat.pos_of_ne_zero hfit.rows)
  unfold cpuGatherLastDimForward
  rw [h.last]
  dsimp only
  rw [if_neg (not_not_intro hsize), hrows, List.length_map, if_neg (not_not_intro rfl)]
  have hlen : (indices.map asI32).length = indices.length := List.length_map _
  rw [← hlen]
  refine set_loop (w := fun b => src.getD (b.2 * vocab + asUsize b.1) 0) ?_
  rintro ⟨id, row⟩ hb out hout
  have hid : (indices.map asI32)[row]? = some id := List.mk_mem_zipIdx_iff_getElem?.mp hb
  rw [List.getElem?_map] at hid
  obtain ⟨i, hi, rfl⟩ := Option.map_eq_some_iff.mp hid
  have hflat := hfit.fits row i hi
  have hlt := h.lt i (List.mem_of_getElem? hi)
  have hrow := (List.getElem?_eq_some_iff.mp hi).1
  have hplace := h.flat_lt hi
  dsimp only
  rw [asI32_of_lt (by omega), asUsize_natCast (by omega), if_neg (by omega)]
  change (index src (row * vocab + i) >>= _) = _
  rw [index_getD (hsrc.symm ▸ hplace), result_ok_bind, index_getD (by omega), result_ok_bind]
  rfl

/-- Where the scatter adds the entry of an id. -/
def scatterPlace (n : Nat) (id : Int) : Option Nat :=
  if id < 0 then none else if asUsize id ≥ n then none else some (asUsize id)

theorem scatterPlace_ne {n flat : Nat} (h : 2 ^ 31 ≤ flat) :
    scatterPlace n (asI32 flat) ≠ some flat := by
  intro hplace
  have hlt := asI32_lt flat
  unfold scatterPlace at hplace
  split at hplace
  · cases hplace
  · split at hplace
    · cases hplace
    · have heq := Option.some.inj hplace
      unfold asUsize at heq
      rw [Int.emod_eq_of_lt (by omega) (by omega)] at heq
      omega

/-- The scatter of rows of one entry. -/
theorem cpuScatterAddRowsForward_one {upstream : List F} {ids : List Int} {rows n : Nat}
    (hupstream : upstream.length = rows) (hids : ids.length = rows) :
    ∃ d, cpuScatterAddRowsForward upstream rows 1 ids n = .ok d ∧ d.length = n ∧
      (∀ j < n, d.getD j 0 = (ids.zipIdx.map fun b =>
        if scatterPlace n b.1 = some j then upstream.getD b.2 0 else 0).sum) ∧
      ∀ x : List F, x.length = n → dot x d = (ids.zipIdx.map fun b =>
        (scatterPlace n b.1).elim 0 (x.getD · 0) * upstream.getD b.2 0).sum := by
  unfold cpuScatterAddRowsForward
  rw [Nat.mul_one, if_neg (not_not_intro hupstream), if_neg (not_not_intro hids), Nat.mul_one]
  refine scatter_loop (p := fun (b : Int × Nat) => scatterPlace n b.1)
    (w := fun b => upstream.getD b.2 0) ?_ ?_
  · rintro ⟨id, row⟩ hb i hi
    obtain ⟨_, hrow, _⟩ := List.mem_zipIdx hb
    unfold scatterPlace at hi
    dsimp only at hi
    split at hi
    · cases hi
    · rename_i hneg
      split at hi
      · cases hi
      · rename_i hn
        cases hi
        refine ⟨Nat.lt_of_not_le hn, fun out hout => ?_⟩
        dsimp only
        rw [if_neg hneg, if_neg hn]
        change (index upstream (row * 1 + 0) >>= fun value =>
          addAt out (asUsize id * 1 + 0) value) >>= pure = _
        rw [Nat.mul_one, Nat.mul_one, index_getD (by omega), result_ok_bind,
          addAt_eq (by omega)]
        rfl
  · rintro ⟨id, row⟩ hb hnone out
    unfold scatterPlace at hnone
    dsimp only at hnone ⊢
    split at hnone
    · rw [if_pos ‹_›]
    · split at hnone
      · rw [if_neg ‹_›, if_pos ‹_›]
      · cases hnone

/-- The ids of the backward pass. -/
def flatIds (vocab : Nat) (indices : List Nat) : List Int :=
  indices.zipIdx.map fun b => asI32 (b.2 * vocab + b.1)

theorem gatherLastDimBackward_eq (h : ValidIndices srcShape vocab indices) (upstream : List F) :
    gatherLastDimBackward indices srcShape upstream srcShape.dropLast =
      cpuScatterAddRowsForward upstream indices.length 1 (flatIds vocab indices)
        (shapeSize srcShape) := by
  unfold gatherLastDimBackward
  rw [h.last]
  dsimp only
  rw [if_neg (not_not_intro rfl), h.size, h.length]
  rfl

theorem getElem?_flatIds (vocab : Nat) (indices : List Nat) (row : Nat) :
    (flatIds vocab indices)[row]? = indices[row]?.map fun i => asI32 (row * vocab + i) := by
  rw [flatIds, List.getElem?_map, List.getElem?_zipIdx, Nat.zero_add]
  cases indices[row]? with
  | none => rfl
  | some i => simp only [Option.map_some]

variable (F) in
/-- The forward pass gathers the entries at the flat indices, and the backward pass is its
adjoint. -/
def GatherAdjoint (srcShape : List Nat) (vocab : Nat) (indices : List Nat) : Prop :=
  ∀ x g : List F, x.length = shapeSize srcShape → g.length = shapeSize srcShape.dropLast → ∃ y d,
    gatherLastDimHostEager x srcShape indices = .ok (y, srcShape.dropLast) ∧
    y.length = shapeSize srcShape.dropLast ∧
    (∀ row i, indices[row]? = some i → y.getD row 0 = x.getD (row * vocab + i) 0) ∧
    gatherLastDimBackward indices srcShape g srcShape.dropLast = .ok d ∧ dot y g = dot x d

theorem gatherAdjoint_of_fit (h : ValidIndices srcShape vocab indices)
    (hfit : FlatIndicesFit srcShape vocab indices) : GatherAdjoint F srcShape vocab indices := by
  intro x g hx hg
  have hlen := h.length
  have hids : (flatIds vocab indices).length = indices.length := by
    rw [flatIds, List.length_map, List.length_zipIdx]
  obtain ⟨d, hback, -, -, hdot⟩ := cpuScatterAddRowsForward_one (n := shapeSize srcShape)
    (hg.trans hlen.symm) hids
  have hentry : ∀ row i, indices[row]? = some i →
      (gathered vocab indices x).getD row 0 = x.getD (row * vocab + i) 0 := by
    intro row i hi
    have hflat := hfit.fits row i hi
    exact getD_gathered x hi (by omega)
  refine ⟨gathered vocab indices x, d, ?_, ?_, ?_, ?_, ?_⟩
  · rw [gatherLastDimHostEager_eq h, cpuGatherLastDimForward_eq h hfit hx]
    rfl
  · exact (length_gathered x).trans hlen
  · exact hentry
  · rw [gatherLastDimBackward_eq h]
    exact hback
  · have hy : (gathered vocab indices x).length = indices.length := length_gathered x
    rw [hdot x hx, sum_map_zipIdx _ 0, hids, dot_eq_sum hy (hg.trans hlen.symm)]
    refine Finset.sum_congr rfl fun row hrow => ?_
    have hrow := Finset.mem_range.mp hrow
    have hi := List.getElem?_eq_getElem hrow
    have hflat := hfit.fits row _ hi
    have hlt := h.flat_lt hi
    have hid : (flatIds vocab indices).getD row 0 = ((row * vocab + indices[row] : Nat) : Int) := by
      rw [List.getD_eq_getElem?_getD, getElem?_flatIds, hi, Option.map_some, Option.getD_some,
        asI32_of_lt hflat]
    have hplace : scatterPlace (shapeSize srcShape) ((row * vocab + indices[row] : Nat) : Int) =
        some (row * vocab + indices[row]) := by
      unfold scatterPlace
      rw [asUsize_natCast hflat, if_neg (by omega), if_neg (Nat.not_le_of_lt hlt)]
    rw [hentry row _ hi, Nat.zero_add]
    dsimp only
    rw [hid, hplace, Option.elim_some]

/-- A shape with no rows is refused by the reference function. -/
theorem rows_of_gatherAdjoint (h : ValidIndices srcShape vocab indices)
    (hadjoint : GatherAdjoint F srcShape vocab indices) :
    shapeSize srcShape.dropLast ≠ 0 := by
  intro hrows
  obtain ⟨y, d, hforward, -⟩ := hadjoint (List.replicate (shapeSize srcShape) 0)
    (List.replicate (shapeSize srcShape.dropLast) 0) List.length_replicate List.length_replicate
  have hindices := h.length
  have hmax : max srcShape.dropLast.prod 1 = 1 := by
    rw [show srcShape.dropLast.prod = 0 from hrows]
    rfl
  rw [gatherLastDimHostEager_eq h] at hforward
  unfold cpuGatherLastDimForward at hforward
  rw [h.last] at hforward
  dsimp only at hforward
  have hsize : (List.replicate (shapeSize srcShape) (0 : F)).length = srcShape.prod :=
    List.length_replicate
  rw [if_neg (not_not_intro hsize), hmax, List.length_map, if_pos (by omega)] at hforward
  cases hforward

/-- No row adds at a flat index that does not fit. -/
theorem narrowed_sum {n rows row i : Nat} (hrow : row < rows) (hi : indices[row]? = some i)
    (hbig : 2 ^ 31 ≤ row * vocab + i) : ((flatIds vocab indices).zipIdx.map fun b =>
      if scatterPlace n b.1 = some (row * vocab + i) then (unit rows row : List F).getD b.2 0
      else 0).sum = 0 := by
  apply List.sum_eq_zero
  intro v hv
  obtain ⟨⟨id, row'⟩, hb, rfl⟩ := List.mem_map.mp hv
  have hid := List.mk_mem_zipIdx_iff_getElem?.mp hb
  rw [getElem?_flatIds] at hid
  obtain ⟨i', hi', rfl⟩ := Option.map_eq_some_iff.mp hid
  by_cases hrow' : row = row'
  · subst hrow'
    rw [hi] at hi'
    cases hi'
    have hne : scatterPlace n (asI32 (row * vocab + i)) ≠ some (row * vocab + i) :=
      scatterPlace_ne hbig
    generalize scatterPlace n (asI32 (row * vocab + i)) = place at hne
    exact if_neg hne
  · have hother : (unit rows row : List F).getD row' 0 = 0 := by
      rw [getD_unit hrow, if_neg hrow']
    generalize scatterPlace n (asI32 (row' * vocab + i')) = place
    exact (congrArg (fun v => if place = _ then v else 0) hother).trans (ite_self 0)

/-- A flat index that does not fit is narrowed to another one, or to none. -/
theorem fits_of_gatherAdjoint (h : ValidIndices srcShape vocab indices)
    (hadjoint : GatherAdjoint F srcShape vocab indices) {row i : Nat}
    (hi : indices[row]? = some i) : row * vocab + i < 2 ^ 31 := by
  by_contra hbig
  have hrow : row < shapeSize srcShape.dropLast := by
    rw [← h.length]
    exact (List.getElem?_eq_some_iff.mp hi).1
  have hflat := h.flat_lt hi
  obtain ⟨y, d, -, hy, hentry, hback, hdot⟩ := hadjoint
    (unit (shapeSize srcShape) (row * vocab + i)) (unit (shapeSize srcShape.dropLast) row)
    (length_unit _ _) (length_unit _ _)
  have hids : (flatIds vocab indices).length = indices.length := by
    rw [flatIds, List.length_map, List.length_zipIdx]
  have hg : (unit (shapeSize srcShape.dropLast) row : List F).length = indices.length :=
    (length_unit _ _).trans h.length.symm
  obtain ⟨d', hback', hlen, hsum, -⟩ :=
    cpuScatterAddRowsForward_one (n := shapeSize srcShape) hg hids
  rw [gatherLastDimBackward_eq h] at hback
  obtain rfl : d = d' := Except.ok.inj (hback.symm.trans hback')
  have hzero : d.getD (row * vocab + i) 0 = (0 : F) := by
    rw [hsum _ hflat]
    exact narrowed_sum hrow hi (Nat.le_of_not_lt hbig)
  have hone : dot y (unit (shapeSize srcShape.dropLast) row) = (1 : F) := by
    rw [dot_unit hy hrow, hentry row i hi, getD_unit hflat, if_pos rfl]
  have hdim : dot (unit (shapeSize srcShape) (row * vocab + i)) d = (0 : F) := by
    rw [dot_comm, dot_unit hlen hflat, hzero]
  rw [hone, hdim] at hdot
  exact one_ne_zero hdot

theorem gatherAdjoint_iff (h : ValidIndices srcShape vocab indices) :
    GatherAdjoint F srcShape vocab indices ↔ FlatIndicesFit srcShape vocab indices :=
  ⟨fun hadjoint => ⟨rows_of_gatherAdjoint h hadjoint,
    fun _ _ hi => fits_of_gatherAdjoint h hadjoint hi⟩, gatherAdjoint_of_fit h⟩

end Gather

variable (F : Type) [Field F]

/-- The host passes are adjoint for every shape, but that of the gather only while there is a row
and the flat indices fit in 32 bits. -/
theorem layout_adjoint : TransposeAdjoint F ∧ SliceAdjoint F ∧ BroadcastAdjoint F ∧
    ∀ srcShape vocab indices, ValidIndices srcShape vocab indices →
      (GatherAdjoint F srcShape vocab indices ↔ FlatIndicesFit srcShape vocab indices) :=
  ⟨transposeAdjoint, sliceAdjoint, broadcastAdjoint, fun _ _ _ h => gatherAdjoint_iff h⟩

/-- The logits of 16384 positions over a vocabulary of 151936. -/
theorem long_gather_not_adjoint :
    ValidIndices [16384, 151936] 151936 (List.replicate 16384 0) ∧
      ¬ GatherAdjoint ℚ [16384, 151936] 151936 (List.replicate 16384 0) := by
  have hvalid : ValidIndices [16384, 151936] 151936 (List.replicate 16384 0) := by
    refine ⟨rfl, by rw [List.length_replicate]; rfl, fun i hi => ?_⟩
    rw [List.eq_of_mem_replicate hi]
    omega
  refine ⟨hvalid, fun hadjoint => ?_⟩
  have hfit := ((gatherAdjoint_iff hvalid).mp hadjoint).fits 16383 0
    (by rw [List.getElem?_replicate, if_pos (by omega)])
  omega

end Arle.Autograd
