import Mathlib
import Arle.Lib.Scatter
import Arle.Train.Rollout

/-!
# The rows of the tensors of a rollout

`Rows` gives the rows of an array of three axes. What each operation of the forward passes does is
told by the rows of its operands and of its value.
-/

namespace Arle.Train.Rollout

open Arle.Autograd RowMajor

variable {F : Type} {b m n : Nat}

/-! ## Rows -/

/-- The stretch of a row that a head has. -/
def headRow (row : List F) (start len : Nat) : List F := (row.drop start).take len

theorem length_headRow {row : List F} {start len : Nat} (h : start + len ≤ row.length) :
    (headRow row start len).length = len := by
  rw [headRow, List.length_take, List.length_drop]
  omega

/-- A stretch of a stretch. -/
theorem headRow_headRow {row : List F} {start len start' len' : Nat} (h : start' + len' ≤ len) :
    headRow (headRow row start len) start' len' = headRow row (start + start') len' := by
  unfold headRow
  rw [List.drop_take, List.take_take, List.drop_drop, Nat.min_eq_left (by omega)]

variable [Field F]

theorem getD_headRow (row : List F) (start : Nat) {len c : Nat} (hc : c < len) :
    (headRow row start len).getD c 0 = row.getD (start + c) 0 :=
  getD_take_drop 0 hc

/-- The rows of an array of shape `[b, m, n]`. -/
structure Rows (b m n : Nat) (data : List F) (row : Nat → Nat → List F) : Prop where
  width : ∀ i < b, ∀ j < m, (row i j).length = n
  fills : Fills b m n data fun i j l => (row i j).getD l 0

section Rows

variable {data : List F} {row row' : Nat → Nat → List F}

/-- Rows are equal if their entries are. -/
theorem row_ext {x y : List F} (hx : x.length = n) (hy : y.length = n)
    (h : ∀ l < n, x.getD l 0 = y.getD l 0) : x = y := by
  refine List.ext_getElem (hx.trans hy.symm) fun l hlx hly => ?_
  have hl := h l (hx ▸ hlx)
  rwa [List.getD_eq_getElem _ _ hlx, List.getD_eq_getElem _ _ hly] at hl

namespace Rows

theorem of_fills {f : Nat → Nat → Nat → F} (h : Fills b m n data f)
    (hwidth : ∀ i < b, ∀ j < m, (row i j).length = n)
    (hentry : ∀ i < b, ∀ j < m, ∀ l < n, f i j l = (row i j).getD l 0) : Rows b m n data row :=
  ⟨hwidth, h.congr hentry⟩

theorem congr (h : Rows b m n data row) (hrow : ∀ i < b, ∀ j < m, row i j = row' i j) :
    Rows b m n data row' where
  width i hi j hj := by rw [← hrow i hi j hj, h.width i hi j hj]
  fills := h.fills.congr fun i hi j hj l _ => by rw [hrow i hi j hj]

theorem slice_eq (h : Rows b m n data row) {i j : Nat} (hi : i < b) (hj : j < m) :
    (data.drop ((i * m + j) * n)).take n = row i j := by
  have hlast : (i * m + j) * n + n ≤ data.length := by
    rw [h.fills.length, ← Nat.mul_assoc, ← Nat.succ_mul]
    exact Nat.mul_le_mul_right n (matrix_place_lt hi hj)
  refine row_ext (length_headRow hlast) (h.width i hi j hj) fun l hl => ?_
  rw [getD_take_drop 0 hl, h.fills.getD hi hj hl]

theorem unique {data' : List F} (h : Rows b m n data row) (h' : Rows b m n data' row) :
    data = data' :=
  h.fills.unique h'.fills

end Rows

/-- Rows that a loop has computed one after another. -/
theorem rows_flatMap (row : Nat → Nat → List F) {g : Nat → List F}
    (hwidth : ∀ i < b, ∀ j < m, (row i j).length = n)
    (hg : ∀ i < b, ∀ j < m, g (i * m + j) = row i j) :
    Rows b m n ((List.range (b * m)).flatMap g) row := by
  have hlen : ∀ r < b * m, (g r).length = n := by
    intro r hr
    have hi : r / m < b := Nat.div_lt_of_lt_mul (by rwa [Nat.mul_comm])
    have hj : r % m < m := Nat.mod_lt r (Nat.pos_of_mul_pos_left (Nat.zero_lt_of_lt hr))
    have hrow := hg _ hi _ hj
    rw [Nat.div_add_mod'] at hrow
    rw [hrow, hwidth _ hi _ hj]
  refine ⟨hwidth, ?_, fun i hi j hj l hl => ?_⟩
  · rw [Scatter.length_flatMap_range hlen, Nat.mul_assoc]
  · have hlt : l < (row i j).length := (hwidth i hi j hj).symm ▸ hl
    rw [Scatter.getElem?_flatMap_range hlen (matrix_place_lt hi hj) hl, hg i hi j hj,
      List.getElem?_eq_getElem hlt, List.getD_eq_getElem _ _ hlt]

end Rows

/-! ## Row by row -/

section RowWise

variable {row row' : Nat → Nat → List F} {x y : HostTensor F}

theorem mapRows_eq {n' : Nat} (f : RowMap F n n') (lead : List Nat) (hx : x.shape = lead ++ [n])
    (hlead : lead.prod = b * m) (hrows : Rows b m n x.data row) : ∃ y,
    mapRows f x = .ok y ∧ y.shape = lead ++ [n'] ∧
      Rows b m n' y.data fun i j => f.apply (row i j) := by
  have hout := rows_flatMap _ (g := fun r => f.apply ((x.data.drop (r * n)).take n))
    (fun i hi j hj => f.length_apply _ (hrows.width i hi j hj))
    fun i hi j hj => congrArg f.apply (hrows.slice_eq hi hj)
  have hsize : ((List.range (b * m)).flatMap fun r =>
      f.apply ((x.data.drop (r * n)).take n)).length = shapeSize (lead ++ [n']) := by
    rw [hout.fills.length, shapeSize, List.prod_append, List.prod_singleton, hlead,
      Nat.mul_assoc]
  refine ⟨⟨_, lead ++ [n'], hsize⟩, ?_, rfl, hout⟩
  unfold mapRows
  rw [hx, List.getLast?_concat]
  dsimp only
  rw [if_neg (not_not_intro rfl), List.dropLast_concat, hlead]
  exact HostTensor.new_eq hsize

theorem rope_eq (kernels : Kernels F) {heads : Nat} {cos sin : List (List F)}
    (hx : x.shape = [1, heads, m, n]) (heven : n % 2 = 0) (hcos : cos.length = m)
    (hsin : sin.length = m) (hrows : Rows heads m n x.data row) : ∃ y,
    rope kernels x cos sin = .ok y ∧ y.shape = [1, heads, m, n] ∧
      Rows heads m n y.data fun i j =>
        kernels.rotate (cos.getD j []) (sin.getD j []) (row i j) := by
  have hout := rows_flatMap (b := heads) (m := m) (n := n)
    (fun i j => kernels.rotate (cos.getD j []) (sin.getD j []) (row i j))
    (g := fun r => kernels.rotate (cos.getD (r % m) []) (sin.getD (r % m) [])
      ((x.data.drop (r * n)).take n))
    (fun i hi j hj => (kernels.length_rotate _ _ _).trans (hrows.width i hi j hj))
    (fun i hi j hj => by
      rw [Nat.mul_add_mod_self_right, Nat.mod_eq_of_lt hj, hrows.slice_eq hi hj])
  have hsize : ((List.range (1 * heads * m)).flatMap fun r =>
      kernels.rotate (cos.getD (r % m) []) (sin.getD (r % m) [])
        ((x.data.drop (r * n)).take n)).length = shapeSize [1, heads, m, n] := by
    rw [Nat.one_mul, hout.fills.length, shapeSize_four, Nat.one_mul]
  refine ⟨⟨_, [1, heads, m, n], hsize⟩, ?_, rfl, ?_⟩
  · unfold rope
    rw [hx]
    dsimp only
    rw [if_neg (not_not_intro heven), if_neg (not_not_intro hcos),
      if_neg (not_not_intro (hsin.trans hcos.symm))]
    exact HostTensor.new_eq hsize
  · dsimp only
    rwa [Nat.one_mul]

theorem zipEntries_eq (f : F → F → F) (hshape : x.shape = y.shape) (hx : Rows b m n x.data row)
    (hy : Rows b m n y.data row') : ∃ z,
    zipEntries f x y = .ok z ∧ z.shape = x.shape ∧
      Rows b m n z.data fun i j => List.zipWith f (row i j) (row' i j) := by
  have hlen : y.data.length = x.data.length := by rw [hy.fills.length, hx.fills.length]
  have hsize : (List.zipWith f x.data y.data).length = shapeSize x.shape := by
    rw [List.length_zipWith, hlen, Nat.min_self, x.length_data]
  refine ⟨⟨_, x.shape, hsize⟩, ?_, rfl, fun i hi j hj => ?_, ?_, fun i hi j hj l hl => ?_⟩
  · unfold zipEntries
    rw [if_neg (not_not_intro hshape)]
    exact HostTensor.new_eq hsize
  · rw [List.length_zipWith, hx.width i hi j hj, hy.width i hi j hj, Nat.min_self]
  · rw [List.length_zipWith, hlen, Nat.min_self, hx.fills.length]
  · have hlx : l < (row i j).length := (hx.width i hi j hj).symm ▸ hl
    have hly : l < (row' i j).length := (hy.width i hi j hj).symm ▸ hl
    rw [List.getElem?_zipWith, hx.fills.entry i hi j hj l hl, hy.fills.entry i hi j hj l hl,
      List.getD_eq_getElem _ _ hlx, List.getD_eq_getElem _ _ hly]
    dsimp only
    rw [List.getD_eq_getElem _ _ (by rw [List.length_zipWith]; omega), List.getElem_zipWith]

theorem mapEntries_rows (f : F → F) (hx : Rows b m n x.data row) :
    Rows b m n (mapEntries f x).data fun i j => (row i j).map f where
  width i hi j hj := by rw [List.length_map, hx.width i hi j hj]
  fills := (hx.fills.map f).congr fun i hi j hj l hl => by
    have hlt : l < (row i j).length := (hx.width i hi j hj).symm ▸ hl
    rw [List.getD_eq_getElem _ _ hlt, List.getD_eq_getElem _ _ (by rwa [List.length_map]),
      List.getElem_map]

end RowWise

/-! ## Heads -/

section Heads

variable {s heads dim : Nat} {row : Nat → Nat → List F} {x : HostTensor F}

theorem headPlace_le {i : Nat} (hi : i < heads) : i * dim + dim ≤ heads * dim := by
  rw [← Nat.succ_mul]
  exact Nat.mul_le_mul_right dim hi

/-- Each row is cut into the rows of the heads. -/
theorem rows_cut (hrows : Rows 1 s (heads * dim) x.data row) :
    Rows s heads dim x.data fun j i => headRow (row 0 j) (i * dim) dim where
  width j hj i hi := length_headRow ((hrows.width 0 Nat.one_pos j hj).symm ▸ headPlace_le hi)
  fills := by
    refine ⟨by rw [hrows.fills.length, Nat.one_mul], fun j hj i hi c hc => ?_⟩
    have hplace : (j * heads + i) * dim + c = (0 * s + j) * (heads * dim) + (i * dim + c) := by
      ring
    rw [getD_headRow _ _ hc, hplace]
    exact hrows.fills.entry 0 Nat.one_pos j hj _ (matrix_place_lt hi hc)

/-- The rows of the heads are put together again. -/
theorem rows_join (hrows : Rows s heads dim x.data row) :
    Rows 1 s (heads * dim) x.data fun _ j => (List.range heads).flatMap fun i => row j i where
  width _ _ j hj := Scatter.length_flatMap_range (hrows.width j hj)
  fills := by
    refine ⟨by rw [hrows.fills.length, Nat.one_mul], fun z hz j hj c hc => ?_⟩
    obtain rfl : z = 0 := by omega
    have hdim : 0 < dim := Nat.pos_of_mul_pos_left (Nat.zero_lt_of_lt hc)
    have hi : c / dim < heads := Nat.div_lt_of_lt_mul (by rwa [Nat.mul_comm])
    have hc' : c % dim < dim := Nat.mod_lt c hdim
    have hsplit := Nat.div_add_mod' c dim
    have hplace : (0 * s + j) * (heads * dim) + c = (j * heads + c / dim) * dim + c % dim := by
      calc (0 * s + j) * (heads * dim) + c
        _ = j * (heads * dim) + (c / dim * dim + c % dim) := by
          rw [hsplit, Nat.zero_mul, Nat.zero_add]
        _ = (j * heads + c / dim) * dim + c % dim := by ring
    have hlt : c % dim < (row j (c / dim)).length := (hrows.width j hj _ hi).symm ▸ hc'
    have hget : ((List.range heads).flatMap fun i => row j i)[c]? =
        (row j (c / dim))[c % dim]? := by
      rw [← Scatter.getElem?_flatMap_range (hrows.width j hj) hi hc', hsplit]
    rw [hplace, hrows.fills.entry j hj _ hi _ hc', List.getD_eq_getElem?_getD,
      List.getD_eq_getElem?_getD, hget]

theorem transpose_heads (hx : x.shape = [1, b, m, n]) (hrows : Rows b m n x.data row) : ∃ y,
    x.transpose 1 2 = .ok y ∧ y.shape = [1, m, b, n] ∧ Rows m b n y.data fun j i => row i j := by
  have hdata : x.data.length = [1, b, m, n].prod := by rw [x.length_data, hx, shapeSize]
  have htranspose := transposeData_eq (F := F) (show 1 < [1, b, m, n].length from (by decide : 1 < 4))
    (show 2 < [1, b, m, n].length from (by decide : 2 < 4)) (by decide) hdata
  have hexchange : exchange [1, b, m, n] 1 2 = [1, m, b, n] := rfl
  rw [hexchange] at htranspose
  have hprod : [1, b, m, n].prod = shapeSize [1, m, b, n] := by
    rw [← hexchange, shapeSize, prod_exchange]
  have hsize : ((List.range [1, b, m, n].prod).map fun o =>
      x.data.getD (transposed [1, b, m, n] 1 2 o) 0).length = shapeSize [1, m, b, n] := by
    rw [List.length_map, List.length_range, hprod]
  refine ⟨⟨_, [1, m, b, n], hsize⟩, ?_, rfl, ?_⟩
  · unfold HostTensor.transpose
    rw [hx, htranspose, result_ok_bind]
    exact HostTensor.new_eq hsize
  · dsimp only
    rw [hprod, shapeSize_four, Nat.one_mul]
    refine .of_fills (fills_map_range (f := fun i j l => (row j i).getD l 0) _
      fun i hi j hj l hl => ?_) (fun i hi j hj => hrows.width j hj i hi) fun _ _ _ _ _ _ => rfl
    have hplace : transposed [1, b, m, n] 1 2 ((i * b + j) * n + l) = (j * m + i) * n + l := by
      have hcoords := coords_four (b := 1) Nat.one_pos hi hj hl
      rw [Nat.zero_mul, Nat.zero_add] at hcoords
      unfold transposed
      rw [hexchange, hcoords]
      change position [0, j, i, l] (strides [1, b, m, n]) = _
      simp [position, strides]
      ring
    rw [hplace, hrows.fills.getD hj hi hl]

theorem splitHeads_eq (hx : x.shape = [1, s, heads * dim])
    (hrows : Rows 1 s (heads * dim) x.data row) : ∃ y,
    splitHeads x 1 s heads dim = .ok y ∧ y.shape = [1, heads, s, dim] ∧
      Rows heads s dim y.data fun i j => headRow (row 0 j) (i * dim) dim := by
  have hsize : shapeSize [1, s, heads, dim] = shapeSize x.shape := by
    rw [hx, shapeSize_three, shapeSize_four]
    ring
  unfold splitHeads
  rw [HostTensor.reshape_eq hsize, result_ok_bind]
  exact transpose_heads rfl (rows_cut hrows)

theorem mergeHeads_eq (hx : x.shape = [1, heads, s, dim]) (hrows : Rows heads s dim x.data row) :
    ∃ y, mergeHeads x 1 s heads dim = .ok y ∧ y.shape = [1, s, heads * dim] ∧
      Rows 1 s (heads * dim) y.data fun _ j => (List.range heads).flatMap fun i => row i j := by
  obtain ⟨y, hy, hshape, hyrows⟩ := transpose_heads hx hrows
  have hsize : shapeSize [1, s, heads * dim] = shapeSize y.shape := by
    rw [hshape, shapeSize_three, shapeSize_four]
    ring
  unfold mergeHeads
  rw [hy, result_ok_bind, HostTensor.reshape_eq hsize]
  exact ⟨_, rfl, rfl, rows_join hyrows⟩

/-- A stretch of every row. -/
theorem slice_stretch (start len : Nat) (hx : x.shape = [1, b, m, n]) (hle : start + len ≤ n)
    (hrows : Rows b m n x.data row) : ∃ y,
    x.slice [0, 0, 0, start] [1, b, m, start + len] = .ok y ∧ y.shape = [1, b, m, len] ∧
      Rows b m len y.data fun i j => headRow (row i j) start len := by
  have hbounds : ValidBounds [1, b, m, n] [0, 0, 0, start] [1, b, m, start + len] :=
    (((ValidBounds.nil.cons (Nat.le_add_right start len) hle).whole m).whole b).whole 1
  have hshape : sliceShape [0, 0, 0, start] [1, b, m, start + len] = [1, b, m, len] := by
    simp [sliceShape]
  have hdata := x.length_data
  rw [hx] at hdata
  have hslice := sliceData_eq hbounds hdata
  rw [hshape] at hslice
  have hsize : ((List.range (shapeSize [1, b, m, len])).map fun o => x.data.getD
      (slicePlace [1, b, m, n] [0, 0, 0, start] [1, b, m, start + len] o) 0).length =
        shapeSize [1, b, m, len] := by
    rw [List.length_map, List.length_range]
  refine ⟨⟨_, [1, b, m, len], hsize⟩, ?_, rfl, ?_⟩
  · unfold HostTensor.slice
    rw [hx, hslice, result_ok_bind]
    exact HostTensor.new_eq hsize
  · dsimp only
    rw [shapeSize_four, Nat.one_mul]
    refine .of_fills (fills_map_range (f := fun i j l => (row i j).getD (start + l) 0) _
      fun i hi j hj l hl => ?_) (fun i hi j hj => length_headRow ((hrows.width i hi j hj).symm ▸ hle))
      fun i _ j _ l hl => (getD_headRow _ _ hl).symm
    have hplace : slicePlace [1, b, m, n] [0, 0, 0, start] [1, b, m, start + len]
        ((i * m + j) * len + l) = (i * m + j) * n + (start + l) := by
      have hcoords := coords_four (b := 1) Nat.one_pos hi hj hl
      rw [Nat.zero_mul, Nat.zero_add] at hcoords
      unfold slicePlace
      rw [hshape, hcoords]
      simp [position, strides]
      ring
    rw [hplace, hrows.fills.getD hi hj (by omega)]

/-- The rows of one position. -/
theorem slice_row (hx : x.shape = [1, m, n]) {j : Nat} (hj : j < m)
    (hrows : Rows 1 m n x.data row) : ∃ y,
    x.slice [0, j, 0] [1, j + 1, n] = .ok y ∧ y.shape = [1, 1, n] ∧
      Rows 1 1 n y.data fun _ _ => row 0 j := by
  have hbounds : ValidBounds [1, m, n] [0, j, 0] [1, j + 1, n] :=
    ((ValidBounds.nil.whole n).cons (Nat.le_succ j) hj).whole 1
  have hshape : sliceShape [0, j, 0] [1, j + 1, n] = [1, 1, n] := by
    simp [sliceShape]
  have hdata := x.length_data
  rw [hx] at hdata
  have hslice := sliceData_eq hbounds hdata
  rw [hshape] at hslice
  have hsize : ((List.range (shapeSize [1, 1, n])).map fun o =>
      x.data.getD (slicePlace [1, m, n] [0, j, 0] [1, j + 1, n] o) 0).length =
        shapeSize [1, 1, n] := by
    rw [List.length_map, List.length_range]
  refine ⟨⟨_, [1, 1, n], hsize⟩, ?_, rfl, ?_⟩
  · unfold HostTensor.slice
    rw [hx, hslice, result_ok_bind]
    exact HostTensor.new_eq hsize
  · dsimp only
    rw [shapeSize_three]
    refine .of_fills (fills_map_range (f := fun _ _ l => (row 0 j).getD l 0) _
      fun z hz y hy l hl => ?_) (fun _ _ _ _ => hrows.width 0 Nat.one_pos j hj)
      fun _ _ _ _ _ _ => rfl
    have hplace : slicePlace [1, m, n] [0, j, 0] [1, j + 1, n] ((z * 1 + y) * n + l) =
        (0 * m + j) * n + l := by
      obtain rfl : z = 0 := by omega
      obtain rfl : y = 0 := by omega
      unfold slicePlace
      rw [hshape, coords_three Nat.one_pos Nat.one_pos hl]
      simp [position, strides]
    rw [hplace, hrows.fills.getD Nat.one_pos hj hl]

/-- A coordinate along an axis of length one is zero. -/
theorem coord_eq {i m : Nat} (hi : i < m) : (if m = 1 then 0 else i) = i := by
  split <;> omega

/-- The place in the keys of an entry of the repeated keys. -/
theorem repeatPlace {kvHeads rep i j l : Nat} (hi : i < kvHeads * rep) (hj : j < s) (hl : l < dim) :
    broadcastPlace [1, kvHeads, rep, s, dim] [1, kvHeads, 1, s, dim] ((i * s + j) * dim + l) =
      (i / rep * s + j) * dim + l := by
  have hrep : 0 < rep := Nat.pos_of_mul_pos_left (Nat.zero_lt_of_lt hi)
  have hhead : i / rep < kvHeads := Nat.div_lt_of_lt_mul (by rwa [Nat.mul_comm])
  have hcoords : coords [1, kvHeads, rep, s, dim] ((i * s + j) * dim + l) =
      [0, i / rep, i % rep, j, l] := by
    have hin : InShape [0, i / rep, i % rep, j, l] [1, kvHeads, rep, s, dim] :=
      .cons Nat.one_pos (.cons hhead (.cons (Nat.mod_lt i hrep) (.cons hj (.cons hl .nil))))
    have hposition : position [0, i / rep, i % rep, j, l] (strides [1, kvHeads, rep, s, dim]) =
        (i * s + j) * dim + l := by
      calc position [0, i / rep, i % rep, j, l] (strides [1, kvHeads, rep, s, dim])
        _ = ((i / rep * rep + i % rep) * s + j) * dim + l := by
          simp [position, strides]
          ring
        _ = (i * s + j) * dim + l := by rw [Nat.div_add_mod']
    rw [← hposition, hin.coords_position]
  have hbroadcast : broadcastCoords [1, kvHeads, rep, s, dim] [1, kvHeads, 1, s, dim]
      ((i * s + j) * dim + l) = [0, i / rep, 0, j, l] := by
    change [broadcastCoord _ _ _ 0, broadcastCoord _ _ _ 1, broadcastCoord _ _ _ 2,
      broadcastCoord _ _ _ 3, broadcastCoord _ _ _ 4] = _
    unfold broadcastCoord
    rw [hcoords]
    change [0, if kvHeads = 1 then 0 else i / rep, 0, if s = 1 then 0 else j,
      if dim = 1 then 0 else l] = _
    rw [coord_eq hhead, coord_eq hj, coord_eq hl]
  rw [broadcastPlace, hbroadcast]
  simp [position, strides]
  ring

theorem repeatKv_eq {kvHeads rep : Nat} (hrep : rep ≠ 0) (hx : x.shape = [1, kvHeads, s, dim])
    (hrows : Rows kvHeads s dim x.data row) : ∃ y,
    repeatKv x rep = .ok y ∧ y.shape = [1, kvHeads * rep, s, dim] ∧
      Rows (kvHeads * rep) s dim y.data fun i j => row (i / rep) j := by
  unfold repeatKv
  rw [if_neg hrep]
  by_cases hone : rep = 1
  · subst hone
    rw [if_pos rfl, Nat.mul_one]
    exact ⟨x, rfl, hx, hrows.congr fun i _ j _ => by rw [Nat.div_one]⟩
  · rw [if_neg hone, hx]
    dsimp only
    have hhead : ∀ i < kvHeads * rep, i / rep < kvHeads := fun i hi =>
      Nat.div_lt_of_lt_mul (by rwa [Nat.mul_comm])
    have hsize : shapeSize [1, kvHeads, 1, s, dim] = shapeSize x.shape := by
      rw [hx]
      simp [shapeSize]
    have hbroadcast : Broadcastable [1, kvHeads, rep, s, dim] [1, kvHeads, 1, s, dim] :=
      .of_forall₂ (by simp)
    have hzeros := (zeros [1, kvHeads, rep, s, dim] : HostTensor F).length_data
    have hreshaped : x.data.length = shapeSize [1, kvHeads, 1, s, dim] := by
      rw [x.length_data, hsize]
    have hadd := cpuAddBroadcastForward_eq hbroadcast hzeros hreshaped
    have hsum : ((List.range (shapeSize [1, kvHeads, rep, s, dim])).map fun o =>
        (zeros [1, kvHeads, rep, s, dim] : HostTensor F).data.getD o 0 + x.data.getD
          (broadcastPlace [1, kvHeads, rep, s, dim] [1, kvHeads, 1, s, dim] o) 0).length =
        shapeSize [1, kvHeads, rep, s, dim] := by
      rw [List.length_map, List.length_range]
    have hout : shapeSize [1, kvHeads * rep, s, dim] = shapeSize [1, kvHeads, rep, s, dim] := by
      simp [shapeSize, Nat.mul_assoc]
    have hadded : (zeros [1, kvHeads, rep, s, dim]).addBroadcast
        ⟨x.data, [1, kvHeads, 1, s, dim], hreshaped⟩ =
        .ok ⟨_, [1, kvHeads, rep, s, dim], hsum⟩ := by
      unfold HostTensor.addBroadcast
      have hzerosshape : (zeros [1, kvHeads, rep, s, dim] : HostTensor F).shape =
          [1, kvHeads, rep, s, dim] := rfl
      rw [hzerosshape, hadd, result_ok_bind]
      exact HostTensor.new_eq hsum
    rw [HostTensor.reshape_eq hsize, result_ok_bind, hadded, result_ok_bind,
      HostTensor.reshape_eq hout]
    refine ⟨_, rfl, rfl, ?_⟩
    dsimp only
    rw [← hout, shapeSize_four, Nat.one_mul]
    refine .of_fills (fills_map_range (f := fun i j l => (row (i / rep) j).getD l 0) _
      fun i hi j hj l hl => ?_) (fun i hi j hj => hrows.width _ (hhead i hi) j hj)
      fun _ _ _ _ _ _ => rfl
    have hzero : (zeros [1, kvHeads, rep, s, dim] : HostTensor F).data.getD
        ((i * s + j) * dim + l) 0 = 0 := by
      refine List.getD_replicate _ ?_
      rw [← hout, shapeSize_four, Nat.one_mul]
      exact place_lt hi hj hl
    rw [hzero, zero_add, repeatPlace hi hj hl, hrows.fills.getD (hhead i hi) hj hl]

/-- The fused preparation reads the same stretches. -/
theorem headTensor_eq {stride : Nat} (headStride offset dim : Nat)
    (hrows : Rows 1 1 stride x.data row)
    (hstride : ∀ i < heads, i * headStride + offset + dim ≤ stride) : ∃ y,
    headTensor x.data 1 stride heads headStride offset dim = .ok y ∧
      y.shape = [1, heads, 1, dim] ∧
      Rows heads 1 dim y.data fun i _ => headRow (row 0 0) (i * headStride + offset) dim := by
  have hwidth := hrows.width 0 Nat.one_pos 0 Nat.one_pos
  have hdata : x.data = row 0 0 := by
    have hslice := hrows.slice_eq Nat.one_pos Nat.one_pos
    have hlen : x.data.length ≤ stride := by
      rw [hrows.fills.length, Nat.one_mul, Nat.one_mul]
    rwa [Nat.zero_mul, List.drop_zero, List.take_of_length_le hlen] at hslice
  have hinner : (List.range heads).mapM (fun head =>
      sliceAt x.data (0 * stride + head * headStride + offset) dim) =
      (.ok ((List.range heads).map fun i => headRow (row 0 0) (i * headStride + offset) dim) :
        Result (List (List F))) := by
    refine Dot.mapM_range_ok fun i hi => ?_
    have hle : i * headStride + offset + dim ≤ x.data.length := by
      rw [hdata, hwidth]
      exact hstride i hi
    rw [Nat.zero_mul, Nat.zero_add, sliceAt_eq hle, hdata]
    rfl
  have hout := rows_flatMap (b := heads) (m := 1) (n := dim)
    (fun i _ => headRow (row 0 0) (i * headStride + offset) dim)
    (g := fun i => headRow (row 0 0) (i * headStride + offset) dim)
    (fun i hi j hj => length_headRow (hwidth.symm ▸ hstride i hi))
    fun i hi j hj => by
      obtain rfl : j = 0 := by omega
      rw [Nat.mul_one, Nat.add_zero]
  rw [Nat.mul_one] at hout
  have hsize : ((List.range heads).flatMap fun i =>
      headRow (row 0 0) (i * headStride + offset) dim).length = shapeSize [1, heads, 1, dim] := by
    rw [hout.fills.length, shapeSize_four, Nat.one_mul, Nat.one_mul]
  refine ⟨⟨_, [1, heads, 1, dim], hsize⟩, ?_, rfl, hout⟩
  unfold headTensor
  rw [show List.range 1 = [0] from rfl, List.mapM_cons, hinner]
  simp only [result_ok_bind, List.mapM_nil, pure_bind]
  refine Eq.trans ?_ (HostTensor.new_eq hsize)
  rw [List.flatMap_def]
  simp

/-! ## Embeddings -/

theorem length_embeddingRow {table : List (List F)} {hidden : Nat}
    (htable : ∀ row ∈ table, row.length = hidden) (index : Nat) :
    (embeddingRow table hidden index).length = hidden := by
  unfold embeddingRow
  dsimp only
  split
  · exact List.length_replicate
  · rename_i hin
    have hlt : (asI32 index).toNat < table.length := by omega
    rw [List.getD_eq_getElem _ _ hlt]
    exact htable _ (List.getElem_mem hlt)

theorem embedding_eq {table : List (List F)} {hidden : Nat}
    (htable : ∀ row ∈ table, row.length = hidden) {indices : List Nat}
    (hvalid : ∀ index ∈ indices, index < table.length) : ∃ y,
    embedding table hidden indices = .ok y ∧ y.shape = [1, indices.length, hidden] ∧
      Rows 1 indices.length hidden y.data fun _ j =>
        embeddingRow table hidden (indices.getD j 0) := by
  have hfind : indices.find? (fun index => index ≥ table.length) = none := by
    rw [List.find?_eq_none]
    intro index hindex
    have hlt := hvalid index hindex
    simpa using hlt
  have hflat : indices.flatMap (embeddingRow table hidden) =
      (List.range (1 * indices.length)).flatMap fun j =>
        embeddingRow table hidden (indices.getD j 0) := by
    have hindices : indices = (List.range indices.length).map fun j => indices.getD j 0 := by
      refine List.ext_getElem (by simp) fun j hj hj' => ?_
      rw [List.getElem_map, List.getElem_range, List.getD_eq_getElem _ _ hj]
    conv_lhs => rw [hindices]
    rw [List.flatMap_map, Nat.one_mul]
  have hout := rows_flatMap (b := 1) (m := indices.length) (n := hidden)
    (fun _ j => embeddingRow table hidden (indices.getD j 0))
    (g := fun j => embeddingRow table hidden (indices.getD j 0))
    (fun _ _ j _ => length_embeddingRow htable _)
    fun i hi j _ => by
      obtain rfl : i = 0 := by omega
      rw [Nat.zero_mul, Nat.zero_add]
  rw [← hflat] at hout
  have hsize : (indices.flatMap (embeddingRow table hidden)).length =
      shapeSize [1, indices.length, hidden] := by
    rw [hout.fills.length, shapeSize_three]
  refine ⟨⟨_, [1, indices.length, hidden], hsize⟩, ?_, rfl, hout⟩
  unfold embedding
  rw [hfind]
  exact HostTensor.new_eq hsize

end Heads

end Arle.Train.Rollout
