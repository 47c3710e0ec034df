import Mathlib
import Arle.Lib.Scatter
import Arle.Autograd.Attention
import Arle.Autograd.LayoutAdjoint

/-!
# Cached attention

`Fills` says what the entries of an array of three axes are. Each operation of an attention is
described by what it does to the entries, and so is an attention as a whole: row `j` sees the
keys up to `offset + j` (`attention`). Both attentions compute these rows, whichever mask and
shortcut they take.
-/

namespace Arle.Autograd

open RowMajor Dot

/-! ## Arrays of three axes -/

section Fills

variable {α β : Type}

/-- The entries of an array of shape `[b, m, n]`. -/
structure Fills (b m n : Nat) (data : List α) (f : Nat → Nat → Nat → α) : Prop where
  length : data.length = b * (m * n)
  entry : ∀ i < b, ∀ j < m, ∀ l < n, data[(i * m + j) * n + l]? = some (f i j l)

variable {b m n : Nat} {data : List α} {f g : Nat → Nat → Nat → α}

theorem place_lt {i j l : Nat} (hi : i < b) (hj : j < m) (hl : l < n) :
    (i * m + j) * n + l < b * (m * n) := by
  have hrow : i * m + j + 1 ≤ b * m :=
    calc i * m + j + 1
      _ ≤ i * m + m := Nat.add_le_add_left hj _
      _ = (i + 1) * m := (Nat.succ_mul i m).symm
      _ ≤ b * m := Nat.mul_le_mul_right m hi
  calc (i * m + j) * n + l
    _ < (i * m + j) * n + n := Nat.add_lt_add_left hl _
    _ = (i * m + j + 1) * n := (Nat.succ_mul _ n).symm
    _ ≤ b * m * n := Nat.mul_le_mul_right n hrow
    _ = b * (m * n) := Nat.mul_assoc b m n

/-- Every place is that of an entry. -/
theorem exists_place {o : Nat} (ho : o < b * (m * n)) :
    ∃ i < b, ∃ j < m, ∃ l < n, o = (i * m + j) * n + l := by
  have hmn : 0 < m * n := Nat.pos_of_mul_pos_left (Nat.zero_lt_of_lt ho)
  have hn : 0 < n := Nat.pos_of_mul_pos_left hmn
  have hm : 0 < m := Nat.pos_of_mul_pos_right hmn
  refine ⟨o / n / m, ?_, o / n % m, Nat.mod_lt _ hm, o % n, Nat.mod_lt _ hn, ?_⟩
  · rw [Nat.div_div_eq_div_mul, Nat.mul_comm n m]
    exact Nat.div_lt_of_lt_mul (by rwa [Nat.mul_comm])
  · rw [Nat.div_add_mod' (o / n) m, Nat.div_add_mod']

theorem Fills.congr (h : Fills b m n data f) (hfg : ∀ i < b, ∀ j < m, ∀ l < n, f i j l = g i j l) :
    Fills b m n data g where
  length := h.length
  entry i hi j hj l hl := by rw [h.entry i hi j hj l hl, hfg i hi j hj l hl]

theorem Fills.unique {data' : List α} (h : Fills b m n data f) (h' : Fills b m n data' f) :
    data = data' := by
  refine List.ext_getElem? fun o => ?_
  rcases Nat.lt_or_ge o (b * (m * n)) with ho | ho
  · obtain ⟨i, hi, j, hj, l, hl, rfl⟩ := exists_place ho
    rw [h.entry i hi j hj l hl, h'.entry i hi j hj l hl]
  · rw [List.getElem?_eq_none (by rwa [h.length]), List.getElem?_eq_none (by rwa [h'.length])]

theorem Fills.getD (h : Fills b m n data f) {i j l : Nat} (hi : i < b) (hj : j < m) (hl : l < n)
    (d : α) : data.getD ((i * m + j) * n + l) d = f i j l := by
  rw [List.getD_eq_getElem?_getD, h.entry i hi j hj l hl, Option.getD_some]

theorem Fills.map (h : Fills b m n data f) (φ : α → β) :
    Fills b m n (data.map φ) fun i j l => φ (f i j l) where
  length := by rw [List.length_map, h.length]
  entry i hi j hj l hl := by
    rw [List.getElem?_map, h.entry i hi j hj l hl, Option.map_some]

theorem fills_getD (hdata : data.length = b * (m * n)) (d : α) :
    Fills b m n data fun i j l => data.getD ((i * m + j) * n + l) d where
  length := hdata
  entry i hi j hj l hl := by
    have hlt := place_lt hi hj hl
    rw [List.getElem?_eq_getElem (hdata.symm ▸ hlt), List.getD_eq_getElem _ _ (hdata.symm ▸ hlt)]

/-- An array that a loop over its places has computed. -/
theorem fills_map_range (g : Nat → α)
    (h : ∀ i < b, ∀ j < m, ∀ l < n, g ((i * m + j) * n + l) = f i j l) :
    Fills b m n ((List.range (b * (m * n))).map g) f where
  length := by rw [List.length_map, List.length_range]
  entry i hi j hj l hl := by
    rw [List.getElem?_map, List.getElem?_range (place_lt hi hj hl), Option.map_some,
      h i hi j hj l hl]

end Fills

/-! ## Layout -/

section Layout

variable {F : Type} [Field F] {b m n : Nat} {data : List F} {f : Nat → Nat → Nat → F}

theorem position_three (b m n i j l : Nat) :
    position [i, j, l] (strides [b, m, n]) = (i * m + j) * n + l := by
  simp [position, strides]
  ring

theorem coords_three {i j l : Nat} (hi : i < b) (hj : j < m) (hl : l < n) :
    coords [b, m, n] ((i * m + j) * n + l) = [i, j, l] := by
  have hin : InShape [i, j, l] [b, m, n] := .cons hi (.cons hj (.cons hl .nil))
  rw [← position_three b, hin.coords_position]

theorem transposeData_three (h : Fills b m n data f) : ∃ out,
    transposeData data [b, m, n] 1 2 = .ok (out, [b, n, m]) ∧
      Fills b n m out fun i l j => f i j l := by
  have hsize : [b, m, n].prod = b * (n * m) := by
    simp [Nat.mul_comm n m]
  have hdata : data.length = [b, m, n].prod := by
    rw [h.length, hsize, Nat.mul_comm m n]
  refine ⟨_, transposeData_eq (show 1 < [b, m, n].length from (by decide : 1 < 3))
    (by decide : 2 < 3) (by decide) hdata, ?_⟩
  rw [hsize]
  refine fills_map_range _ fun i hi l hl j hj => ?_
  have hplace : transposed [b, m, n] 1 2 ((i * n + l) * m + j) = (i * m + j) * n + l := by
    have hexchange : exchange [b, m, n] 1 2 = [b, n, m] := rfl
    unfold transposed
    rw [hexchange, coords_three hi hl hj]
    exact position_three b m n i j l
  rw [hplace, h.getD hi hj hl]

end Layout

/-! ## Products -/

section Matmul

variable {F : Type} [Field F] {sgemm : Sgemm F} {b m k n : Nat}

/-- The entries of the product of an `m × k` and a `k × n` matrix. -/
def productEntry (k n : Nat) (x y : List F) (i l : Nat) : F :=
  ∑ c ∈ Finset.range k, x.getD (i * k + c) 0 * y.getD (c * n + l) 0

/-- What `matrixmultiply::sgemm` is relied on for. -/
def Sgemm.Multiplies (sgemm : Sgemm F) : Prop :=
  ∀ m k n x y, x.length = m * k → y.length = k * n → (sgemm m k n x y).length = m * n ∧
    ∀ i < m, ∀ l < n, (sgemm m k n x y).getD (i * n + l) 0 = productEntry k n x y i l

/-- The places of an `m × n` matrix are different. -/
theorem matrix_place_inj {i j l l' : Nat} (hl : l < n) (hl' : l' < n)
    (h : i * n + l = j * n + l') : i = j ∧ l = l' := by
  have hn : 0 < n := Nat.zero_lt_of_lt hl
  have hdiv := congrArg (· / n) h
  simp only [Nat.mul_comm _ n, Nat.mul_add_div hn, Nat.div_eq_of_lt hl, Nat.div_eq_of_lt hl',
    Nat.add_zero] at hdiv
  subst hdiv
  exact ⟨rfl, Nat.add_left_cancel h⟩

theorem matrix_place_lt {i l : Nat} (hi : i < m) (hl : l < n) : i * n + l < m * n :=
  calc i * n + l
    _ < i * n + n := Nat.add_lt_add_left hl _
    _ = (i + 1) * n := (Nat.succ_mul i n).symm
    _ ≤ m * n := Nat.mul_le_mul_right n hi

/-- The loops of the small products. -/
theorem saxpy_adds {x y : List F} (hx : x.length = m * k) (hy : y.length = k * n) :
    Adds (m * n) (fun out => ((List.range m).foldlM (fun out row =>
      (List.range k).foldlM (fun out inner => do
        let aValue ← index x (row * k + inner)
        (List.range n).foldlM (fun out col => do
          let bValue ← index y (inner * n + col)
          addAt out (row * n + col) (aValue * bValue)) out) out) out : Result (List F)))
      fun o => ((List.range m).map fun row => ((List.range k).map fun inner =>
        ((List.range n).map fun col => if row * n + col = o then
          x.getD (row * k + inner) 0 * y.getD (inner * n + col) 0 else 0).sum).sum).sum := by
  refine Adds.foldlM fun row hrow => Adds.foldlM fun inner hinner => ?_
  have hrow := List.mem_range.mp hrow
  have hinner := List.mem_range.mp hinner
  rw [index_getD (hx.symm ▸ matrix_place_lt hrow hinner)]
  refine Adds.foldlM fun col hcol => ?_
  have hcol := List.mem_range.mp hcol
  have hplace := matrix_place_lt hrow hcol
  refine Adds.addTo hplace fun out hout => ?_
  rw [index_getD (hy.symm ▸ matrix_place_lt hinner hcol)]
  exact addAt_eq (hout.symm ▸ hplace) _

theorem sgemmRowMajor_eq (hsgemm : sgemm.Multiplies) {x y : List F} (hx : x.length = m * k)
    (hy : y.length = k * n) : ∃ out,
    sgemmRowMajor sgemm m k n x y (List.replicate (m * n) 0) = .ok out ∧ out.length = m * n ∧
      ∀ i < m, ∀ l < n, out.getD (i * n + l) 0 = productEntry k n x y i l := by
  unfold sgemmRowMajor
  by_cases hempty : m = 0 ∨ n = 0 ∨ k = 0
  · rw [if_pos hempty]
    refine ⟨_, rfl, List.length_replicate, fun i hi l hl => ?_⟩
    obtain rfl : k = 0 := by omega
    rw [List.getD_replicate _ (matrix_place_lt hi hl)]
    rfl
  · rw [if_neg hempty]
    by_cases hsmall : m = 1 ∨ n < saxpyNThreshold
    · rw [if_pos hsmall]
      obtain ⟨out, hloop, hlen, hentry⟩ := (saxpy_adds hx hy).zeros
      refine ⟨out, hloop, hlen, fun i hi l hl => ?_⟩
      rw [hentry _ (matrix_place_lt hi hl)]
      change ∑ row ∈ Finset.range m, ∑ inner ∈ Finset.range k, ∑ col ∈ Finset.range n, _ = _
      -- Only the row and the column of the entry count.
      rw [Finset.sum_eq_single_of_mem i (Finset.mem_range.mpr hi)]
      · refine Finset.sum_congr rfl fun inner _ => ?_
        rw [Finset.sum_eq_single_of_mem l (Finset.mem_range.mpr hl), if_pos rfl]
        intro col hcol hne
        exact if_neg fun h => hne (matrix_place_inj (Finset.mem_range.mp hcol) hl h).2
      · intro row _ hne
        refine Finset.sum_eq_zero fun inner _ => Finset.sum_eq_zero fun col hcol => ?_
        exact if_neg fun h => hne (matrix_place_inj (Finset.mem_range.mp hcol) hl h).1
    · rw [if_neg hsmall]
      obtain ⟨hlen, hentry⟩ := hsgemm m k n x y hx hy
      exact ⟨_, rfl, hlen, hentry⟩

theorem sliceAt_eq {α : Type} {data : List α} {start len : Nat}
    (h : start + len ≤ data.length) : sliceAt data start len = .ok ((data.drop start).take len) :=
  if_pos h

theorem getD_take_drop {α : Type} {data : List α} {start len o : Nat} (d : α) (ho : o < len) :
    ((data.drop start).take len).getD o d = data.getD (start + o) d := by
  rw [List.getD_eq_getElem?_getD, List.getElem?_take_of_lt ho, List.getElem?_drop,
    List.getD_eq_getElem?_getD]

/-- A batched product. -/
theorem cpuMatmulForward_eq (hsgemm : sgemm.Multiplies) {x y : List F}
    {f g : Nat → Nat → Nat → F} (hx : Fills b m k x f) (hy : Fills b k n y g) : ∃ out,
    cpuMatmulForward sgemm x [b, m, k] y [b, k, n] = .ok (out, [b, m, n]) ∧
      Fills b m n out fun i j l => ∑ c ∈ Finset.range k, f i j c * g i c l := by
  have hpart : ∀ i < b, ∃ out, (do
      let aPart ← sliceAt x (i * (m * k)) (m * k)
      let bPart ← sliceAt y (i * (k * n)) (k * n)
      sgemmRowMajor sgemm m k n aPart bPart (List.replicate (m * n) 0)) = Except.ok out ∧
        out.length = m * n ∧ ∀ j < m, ∀ l < n,
          out.getD (j * n + l) 0 = ∑ c ∈ Finset.range k, f i j c * g i c l := by
    intro i hi
    have hxle : i * (m * k) + m * k ≤ x.length := by
      rw [hx.length, ← Nat.succ_mul]
      exact Nat.mul_le_mul_right _ hi
    have hyle : i * (k * n) + k * n ≤ y.length := by
      rw [hy.length, ← Nat.succ_mul]
      exact Nat.mul_le_mul_right _ hi
    have hxlen : ((x.drop (i * (m * k))).take (m * k)).length = m * k := by
      rw [List.length_take, List.length_drop]
      omega
    have hylen : ((y.drop (i * (k * n))).take (k * n)).length = k * n := by
      rw [List.length_take, List.length_drop]
      omega
    obtain ⟨out, hloop, hlen, hentry⟩ := sgemmRowMajor_eq hsgemm hxlen hylen
    rw [sliceAt_eq hxle, result_ok_bind, sliceAt_eq hyle, result_ok_bind]
    refine ⟨out, hloop, hlen, fun j hj l hl => ?_⟩
    rw [hentry j hj l hl, productEntry]
    refine Finset.sum_congr rfl fun c hc => ?_
    have hc := Finset.mem_range.mp hc
    have hxplace : i * (m * k) + (j * k + c) = (i * m + j) * k + c := by ring
    have hyplace : i * (k * n) + (c * n + l) = (i * k + c) * n + l := by ring
    rw [getD_take_drop _ (matrix_place_lt hj hc), getD_take_drop _ (matrix_place_lt hc hl),
      hxplace, hyplace, hx.getD hi hj hc, hy.getD hi hc hl]
  have hparts : ∀ i, ∃ out : List F, out.length = m * n ∧ (i < b → (do
      let aPart ← sliceAt x (i * (m * k)) (m * k)
      let bPart ← sliceAt y (i * (k * n)) (k * n)
      sgemmRowMajor sgemm m k n aPart bPart (List.replicate (m * n) 0)) = Except.ok out ∧
        ∀ j < m, ∀ l < n,
          out.getD (j * n + l) 0 = ∑ c ∈ Finset.range k, f i j c * g i c l) := by
    intro i
    by_cases hi : i < b
    · obtain ⟨out, hloop, hlen, hentry⟩ := hpart i hi
      exact ⟨out, hlen, fun _ => ⟨hloop, hentry⟩⟩
    · exact ⟨_, List.length_replicate (a := (0 : F)), fun h => absurd h hi⟩
  choose part hlen hspec using hparts
  have hshape : matmulOutputShape [b, m, k] [b, k, n] = .ok [b, m, n] := by
    simp [matmulOutputShape]
  refine ⟨((List.range b).map part).flatten, ?_, ?_, fun i hi j hj l hl => ?_⟩
  · unfold cpuMatmulForward
    rw [hshape, result_ok_bind]
    dsimp only
    rw [mapM_range_ok fun i hi => (hspec i hi).1]
    rfl
  · rw [← List.flatMap_def, Scatter.length_flatMap_range fun i _ => hlen i]
  · have hplace : (i * m + j) * n + l = i * (m * n) + (j * n + l) := by ring
    have hlt := matrix_place_lt hj hl
    rw [← List.flatMap_def, hplace, Scatter.getElem?_flatMap_range (fun i _ => hlen i) hi hlt,
      ← (hspec i hi).2 j hj l hl, List.getD_eq_getElem _ _ ((hlen i).symm ▸ hlt)]
    exact List.getElem?_eq_getElem _

end Matmul

/-! ## Masked scores and softmax -/

section Softmax

variable {F : Type} [Field F] {b m n : Nat}

/-- A mask is added to every array of the batch. -/
theorem cpuAddBroadcastForward_three {α : Type} [Zero α] [Add α] {x y : List α}
    {f g : Nat → Nat → Nat → α} (hx : Fills b m n x f) (hy : Fills 1 m n y g) : ∃ out,
    cpuAddBroadcastForward x [b, m, n] y [1, m, n] = .ok out ∧
      Fills b m n out fun i j l => f i j l + g 0 j l := by
  have hbroadcast : Broadcastable [b, m, n] [1, m, n] := .of_forall₂ (by simp)
  have hxlen : x.length = shapeSize [b, m, n] := by
    rw [hx.length]
    simp [shapeSize]
  have hylen : y.length = shapeSize [1, m, n] := by
    rw [hy.length]
    simp [shapeSize]
  refine ⟨_, cpuAddBroadcastForward_eq hbroadcast hxlen hylen, ?_⟩
  have hsize : shapeSize [b, m, n] = b * (m * n) := by simp [shapeSize]
  rw [hsize]
  refine fills_map_range _ fun i hi j hj l hl => ?_
  have hplace : broadcastPlace [b, m, n] [1, m, n] ((i * m + j) * n + l) =
      (0 * m + j) * n + l := by
    have hcoords : broadcastCoords [b, m, n] [1, m, n] ((i * m + j) * n + l) = [0, j, l] := by
      change [broadcastCoord _ _ _ 0, broadcastCoord _ _ _ 1, broadcastCoord _ _ _ 2] = _
      unfold broadcastCoord
      rw [coords_three hi hj hl]
      change [0, if m = 1 then 0 else j, if n = 1 then 0 else l] = _
      congr 2
      · split <;> omega
      · congr 1
        split <;> omega
    rw [broadcastPlace, hcoords, position_three]
  rw [hplace, hx.getD hi hj hl, hy.getD Nat.one_pos hj hl]

variable [LinearOrder F] (exp : F → F)

theorem length_softmaxRow (row : List (WithBot F)) : (softmaxRow exp row).length = row.length := by
  unfold softmaxRow
  exact List.length_map _

/-- Softmax acts on each row alone. -/
theorem cpuSoftmaxForwardLastAxis_eq (hn : n ≠ 0) {x : List (WithBot F)}
    {f : Nat → Nat → Nat → WithBot F} (hx : Fills b m n x f) : ∃ out,
    cpuSoftmaxForwardLastAxis exp x [b, m, n] = .ok out ∧ Fills b m n out fun i j l =>
      (softmaxRow exp ((List.range n).map (f i j))).getD l 0 := by
  have hpos : 0 < n := Nat.pos_of_ne_zero hn
  have hlen : x.length = b * m * n := by rw [hx.length, Nat.mul_assoc]
  have hrows : x.length / n = b * m := by rw [hlen, Nat.mul_div_cancel _ hpos]
  have hrest : x.length % n = 0 := by rw [hlen, Nat.mul_mod_left]
  have hrowlen : ∀ row < b * m,
      (softmaxRow exp ((x.drop (row * n)).take n)).length = n := by
    intro row hrow
    have hle := Nat.mul_le_mul_right n (Nat.succ_le_of_lt hrow)
    rw [Nat.succ_mul] at hle
    rw [length_softmaxRow, List.length_take, List.length_drop]
    omega
  refine ⟨(List.range (b * m)).flatMap fun row =>
    softmaxRow exp ((x.drop (row * n)).take n), ?_, ?_, fun i hi j hj l hl => ?_⟩
  · have hlast : [b, m, n].getLast? = some n := rfl
    unfold cpuSoftmaxForwardLastAxis
    rw [hlast]
    dsimp only
    rw [if_neg hn, hrows, hrest, List.replicate_zero, List.append_nil]
  · rw [Scatter.length_flatMap_range hrowlen, Nat.mul_assoc]
  · have hrow : i * m + j < b * m := matrix_place_lt hi hj
    have hslice : (x.drop ((i * m + j) * n)).take n = (List.range n).map (f i j) := by
      refine List.ext_getElem? fun l => ?_
      rw [List.getElem?_take, List.getElem?_drop, List.getElem?_map]
      by_cases hl : l < n
      · rw [if_pos hl, List.getElem?_range hl, hx.entry i hi j hj l hl, Option.map_some]
      · rw [if_neg hl, List.getElem?_eq_none (by simpa using Nat.le_of_not_lt hl), Option.map_none]
    have hget := Scatter.getElem?_flatMap_range hrowlen hrow hl
    rw [hget, hslice]
    have hlt : l < (softmaxRow exp ((List.range n).map (f i j))).length := by
      rw [length_softmaxRow, List.length_map, List.length_range]
      exact hl
    rw [List.getElem?_eq_getElem hlt, List.getD_eq_getElem _ _ hlt]

end Softmax

/-! ## Masks -/

section Mask

variable {α β : Type} {n : Nat} {value : α}

/-- The step of a loop writes the value at the places with the property. -/
def Writes (n : Nat) (value : α) (step : List α → Result (List α)) (P : Nat → Prop) : Prop :=
  ∀ out, out.length = n → ∃ out', step out = .ok out' ∧ out'.length = n ∧
    ∀ o, (P o → o < n → out'[o]? = some value) ∧ (¬ P o → out'[o]? = out[o]?)

theorem Writes.setAt {i : Nat} (hi : i < n) :
    Writes n value (fun out => setAt out i value) fun o => o = i := by
  intro out hout
  refine ⟨out.set i value, ?_, List.length_set.trans hout, fun o => ⟨?_, fun hne => ?_⟩⟩
  · dsimp only [Autograd.setAt]
    rw [index_eq_ok (List.getElem?_eq_getElem (hout.symm ▸ hi))]
    rfl
  · rintro rfl _
    exact List.getElem?_set_self (hout.symm ▸ hi)
  · exact List.getElem?_set_ne (Ne.symm hne)

theorem Writes.foldlM {step : List α → β → Result (List α)} {P : β → Nat → Prop} {l : List β}
    (h : ∀ b ∈ l, Writes n value (fun out => step out b) (P b)) :
    Writes n value (fun out => l.foldlM step out) fun o => ∃ b ∈ l, P b o := by
  induction l with
  | nil =>
    intro out hout
    refine ⟨out, rfl, hout, fun o => ⟨?_, fun _ => rfl⟩⟩
    rintro ⟨b, hb, _⟩
    cases hb
  | cons b l ih =>
    intro out hout
    obtain ⟨out', hstep, hlen', hentry'⟩ := h b List.mem_cons_self out hout
    obtain ⟨sum, hloop, hlen, hentry⟩ :=
      ih (fun b' hb' => h b' (List.mem_cons_of_mem b hb')) out' hlen'
    refine ⟨sum, ?_, hlen, fun o => ⟨?_, fun hnone => ?_⟩⟩
    · dsimp only at hstep ⊢
      rw [List.foldlM_cons, hstep]
      exact hloop
    · rintro ⟨b', hb', hp⟩ ho
      by_cases hrest : ∃ b ∈ l, P b o
      · exact (hentry o).1 hrest ho
      · rw [(hentry o).2 hrest]
        rcases List.mem_cons.mp hb' with rfl | hin
        · exact (hentry' o).1 hp ho
        · exact absurd ⟨b', hin, hp⟩ hrest
    · have hrest : ¬ ∃ b ∈ l, P b o := by
        rintro ⟨b', hb', hp⟩
        exact hnone ⟨b', List.mem_cons_of_mem b hb', hp⟩
      rw [(hentry o).2 hrest, (hentry' o).2 fun hp => hnone ⟨b, List.mem_cons_self, hp⟩]

variable {F : Type} [Field F]

/-- What a mask adds: minus infinity behind the last visible key. -/
def maskEntry (offset j l : Nat) : WithBot F := if offset + j < l then ⊥ else 0

theorem causalMaskWindow_eq (m n offset : Nat) : ∃ mask : HostTensor (WithBot F),
    causalMaskWindow m n offset = .ok mask ∧ mask.shape = [1, m, n] ∧
      Fills 1 m n mask.data fun _ j l => maskEntry offset j l := by
  have hwrites : Writes (m * n) (⊥ : WithBot F) (fun data => (List.range m).foldlM
      (fun data row =>
        let maxVisible := offset + row
        (List.range' (maxVisible + 1) (n - (maxVisible + 1))).foldlM (fun data col =>
          setAt data (row * n + col) ⊥) data) data)
      fun o => ∃ row ∈ List.range m, ∃ col ∈ List.range' (offset + row + 1) (n - (offset + row + 1)),
        o = row * n + col := by
    refine Writes.foldlM fun row hrow => Writes.foldlM fun col hcol => Writes.setAt ?_
    have hcol := List.mem_range'_1.mp hcol
    exact matrix_place_lt (List.mem_range.mp hrow) (by omega)
  obtain ⟨data, hloop, hlen, hentry⟩ := hwrites (List.replicate (m * n) 0) List.length_replicate
  have hsize : data.length = shapeSize [1, m, n] := by
    rw [hlen]
    simp [shapeSize]
  refine ⟨⟨data, [1, m, n], hsize⟩, ?_, rfl, by rw [hlen, Nat.one_mul], fun i hi j hj l hl => ?_⟩
  · unfold causalMaskWindow
    dsimp only at hloop ⊢
    rw [hloop, result_ok_bind, HostTensor.new, dif_pos hsize]
  · obtain rfl : i = 0 := by omega
    have hplace := matrix_place_lt hj hl
    rw [Nat.zero_mul, Nat.zero_add, maskEntry]
    by_cases hhidden : offset + j < l
    · rw [if_pos hhidden]
      refine (hentry _).1 ⟨j, List.mem_range.mpr hj, l, ?_, rfl⟩ hplace
      exact List.mem_range'_1.mpr (by omega)
    · rw [if_neg hhidden, (hentry _).2, List.getElem?_replicate, if_pos hplace]
      rintro ⟨row, _, col, hcol, heq⟩
      have hcol := List.mem_range'_1.mp hcol
      obtain ⟨rfl, rfl⟩ := matrix_place_inj hl (by omega) heq
      omega

/-- The mask of the whole sequence is the window at its start. -/
theorem causalMask_eq (n : Nat) :
    (causalMask n : Result (HostTensor (WithBot F))) = causalMaskWindow n n 0 := by
  unfold causalMask causalMaskWindow
  simp only [Nat.zero_add]

end Mask

/-! ## Attention -/

section Attend

variable {F : Type} [Field F]

theorem HostTensor.ext {α : Type} {x y : HostTensor α} (hdata : x.data = y.data)
    (hshape : x.shape = y.shape) : x = y := by
  cases x
  cases y
  cases hdata
  cases hshape
  rfl

theorem HostTensor.new_eq {α : Type} {data : List α} {shape : List Nat}
    (h : data.length = shapeSize shape) : HostTensor.new data shape = .ok ⟨data, shape, h⟩ :=
  dif_pos h

theorem HostTensor.reshape_eq {α : Type} {x : HostTensor α} {shape : List Nat}
    (h : shapeSize shape = shapeSize x.shape) :
    x.reshape shape = .ok ⟨x.data, shape, x.length_data.trans h.symm⟩ := by
  unfold HostTensor.reshape
  rw [if_neg (not_not_intro h), HostTensor.new_eq]

theorem shapeSize_three (b m n : Nat) : shapeSize [b, m, n] = b * (m * n) := by
  simp [shapeSize]

theorem shapeSize_four (b h m n : Nat) : shapeSize [b, h, m, n] = b * h * (m * n) := by
  simp [shapeSize, Nat.mul_assoc]

/-- The masked scores are those of the rows from `offset` on. -/
def Masks (mergedHeads qLen kvLen offset : Nat)
    (mask : HostTensor F → Result (HostTensor (WithBot F))) : Prop :=
  ∀ scaled f, scaled.shape = [mergedHeads, qLen, kvLen] →
    Fills mergedHeads qLen kvLen scaled.data f → ∃ masked, mask scaled = .ok masked ∧
      masked.shape = [mergedHeads, qLen, kvLen] ∧
      Fills mergedHeads qLen kvLen masked.data fun i j l =>
        WithBot.some (f i j l) + maskEntry offset j l

theorem masks_window (mergedHeads qLen kvLen offset : Nat) :
    Masks mergedHeads qLen kvLen offset fun scaled : HostTensor F => (do
      let mask ← causalMaskWindow qLen kvLen offset
      scaled.finite.addBroadcast mask) := by
  intro scaled f hshape hf
  obtain ⟨mask, hmask, hmaskshape, hfmask⟩ := causalMaskWindow_eq (F := F) qLen kvLen offset
  obtain ⟨out, hout, hfout⟩ := cpuAddBroadcastForward_three (hf.map WithBot.some) hfmask
  have hsize : out.length = shapeSize [mergedHeads, qLen, kvLen] := by
    rw [hfout.length, shapeSize_three]
  refine ⟨⟨out, [mergedHeads, qLen, kvLen], hsize⟩, ?_, rfl, hfout⟩
  dsimp only [HostTensor.addBroadcast, HostTensor.finite]
  rw [hmask, result_ok_bind, hmaskshape, hshape, hout, result_ok_bind, HostTensor.new_eq hsize]

/-- The newest row sees every key. -/
theorem masks_newest {mergedHeads kvLen offset : Nat} (h : offset + 1 = kvLen) :
    Masks mergedHeads 1 kvLen offset fun scaled : HostTensor F => .ok scaled.finite := by
  intro scaled f hshape hf
  refine ⟨scaled.finite, rfl, hshape, (hf.map WithBot.some).congr fun i hi j hj l hl => ?_⟩
  rw [maskEntry, if_neg (by omega), add_zero]

variable [LinearOrder F] (exp : F → F) (scale : F)

/-- The masked scores of a query; row `j` sees the keys up to `offset + j`. -/
def maskedRow (headDim kvLen offset : Nat) (q k : Nat → Nat → Nat → F) (i j : Nat) :
    List (WithBot F) :=
  (List.range kvLen).map fun l =>
    WithBot.some ((∑ c ∈ Finset.range headDim, q i j c * k i l c) * scale) + maskEntry offset j l

/-- Entry `d` of row `j` of the attention of the merged head `i`. -/
def attention (headDim kvLen offset : Nat) (q k v : Nat → Nat → Nat → F) (i j d : Nat) : F :=
  ∑ l ∈ Finset.range kvLen,
    (softmaxRow exp (maskedRow scale headDim kvLen offset q k i j)).getD l 0 * v i l d

variable (sqrt : F → F) {sgemm : Sgemm F} {batch heads qLen kvLen headDim : Nat}
  {q k v : HostTensor F} {fq fk fv : Nat → Nat → Nat → F}

theorem attend_eq (hsgemm : sgemm.Multiplies) (hkv : kvLen ≠ 0)
    (hq : q.shape = [batch, heads, qLen, headDim]) (hk : k.shape = [batch, heads, kvLen, headDim])
    (hv : v.shape = [batch, heads, kvLen, headDim])
    (hfq : Fills (batch * heads) qLen headDim q.data fq)
    (hfk : Fills (batch * heads) kvLen headDim k.data fk)
    (hfv : Fills (batch * heads) kvLen headDim v.data fv) {offset : Nat}
    {mask : HostTensor F → Result (HostTensor (WithBot F))}
    (hmask : Masks (batch * heads) qLen kvLen offset mask) : ∃ out,
    attend exp sqrt sgemm q k v batch heads qLen kvLen headDim mask = .ok out ∧
      out.shape = [batch, heads, qLen, headDim] ∧
      Fills (batch * heads) qLen headDim out.data
        (attention exp (1 / sqrt (headDim : F)) headDim kvLen offset fq fk fv) := by
  have hsize : ∀ {x : HostTensor F} {m n : Nat}, x.shape = [batch, heads, m, n] →
      shapeSize [batch * heads, m, n] = shapeSize x.shape := by
    intro x m n hx
    rw [hx, shapeSize_three, shapeSize_four]
  obtain ⟨kT, htranspose, hkT⟩ := transposeData_three hfk
  have hkTsize : kT.length = shapeSize [batch * heads, headDim, kvLen] := by
    rw [hkT.length, shapeSize_three]
  obtain ⟨scores, hscores, hfscores⟩ := cpuMatmulForward_eq hsgemm hfq hkT
  have hscoressize : scores.length = shapeSize [batch * heads, qLen, kvLen] := by
    rw [hfscores.length, shapeSize_three]
  have hscaledsize : (scores.map (· * (1 / sqrt (headDim : F)))).length =
      shapeSize [batch * heads, qLen, kvLen] := List.length_map _ |>.trans hscoressize
  obtain ⟨masked, hmasked, hmaskedshape, hfmasked⟩ := hmask
    ⟨scores.map (· * (1 / sqrt (headDim : F))), [batch * heads, qLen, kvLen], hscaledsize⟩ _ rfl
    (hfscores.map (· * (1 / sqrt (headDim : F))))
  obtain ⟨probs, hprobs, hfprobs⟩ := cpuSoftmaxForwardLastAxis_eq exp hkv hfmasked
  have hprobssize : probs.length = shapeSize [batch * heads, qLen, kvLen] := by
    rw [hfprobs.length, shapeSize_three]
  obtain ⟨context, hcontext, hfcontext⟩ := cpuMatmulForward_eq hsgemm hfprobs hfv
  have hcontextsize : context.length = shapeSize [batch * heads, qLen, headDim] := by
    rw [hfcontext.length, shapeSize_three]
  have hout : context.length = shapeSize [batch, heads, qLen, headDim] := by
    rw [hfcontext.length, shapeSize_four]
  refine ⟨⟨context, [batch, heads, qLen, headDim], hout⟩, ?_, rfl, hfcontext⟩
  unfold attend
  dsimp only
  rw [HostTensor.reshape_eq (hsize hq), result_ok_bind, HostTensor.reshape_eq (hsize hk),
    result_ok_bind, HostTensor.reshape_eq (hsize hv), result_ok_bind]
  dsimp only [HostTensor.transpose, HostTensor.matmul, HostTensor.mulScalar, HostTensor.softmax]
  rw [htranspose, result_ok_bind]
  dsimp only
  rw [HostTensor.new_eq hkTsize, result_ok_bind]
  dsimp only
  rw [hscores, result_ok_bind]
  dsimp only
  rw [HostTensor.new_eq hscoressize, result_ok_bind, HostTensor.new_eq hscaledsize,
    result_ok_bind, hmasked, result_ok_bind, hmaskedshape, hprobs, result_ok_bind,
    HostTensor.new_eq hprobssize, result_ok_bind]
  dsimp only
  rw [hcontext, result_ok_bind]
  dsimp only
  rw [HostTensor.new_eq hcontextsize, result_ok_bind, HostTensor.reshape_eq]
  dsimp only
  rw [shapeSize_four, shapeSize_three]

theorem causalSdpa_eq (hsgemm : sgemm.Multiplies) (hkv : kvLen ≠ 0)
    (hq : q.shape = [batch, heads, kvLen, headDim]) (hk : k.shape = [batch, heads, kvLen, headDim])
    (hv : v.shape = [batch, heads, kvLen, headDim])
    (hfq : Fills (batch * heads) kvLen headDim q.data fq)
    (hfk : Fills (batch * heads) kvLen headDim k.data fk)
    (hfv : Fills (batch * heads) kvLen headDim v.data fv) : ∃ out,
    causalSdpa exp sqrt sgemm q k v = .ok out ∧ out.shape = [batch, heads, kvLen, headDim] ∧
      Fills (batch * heads) kvLen headDim out.data
        (attention exp (1 / sqrt (headDim : F)) headDim kvLen 0 fq fk fv) := by
  have hvalid : validateAttentionShapes [batch, heads, kvLen, headDim]
      [batch, heads, kvLen, headDim] [batch, heads, kvLen, headDim] = .ok () := by
    simp [validateAttentionShapes]
  unfold causalSdpa
  rw [hq, hk, hv, hvalid, result_ok_bind]
  dsimp only
  rw [causalMask_eq]
  exact attend_eq exp sqrt hsgemm hkv hq hk hv hfq hfk hfv (masks_window _ kvLen kvLen 0)

theorem causalSdpaWithQStart_eq (hsgemm : sgemm.Multiplies) (hkv : kvLen ≠ 0) {qStart : Nat}
    (hle : qStart + qLen ≤ kvLen) (hq : q.shape = [batch, heads, qLen, headDim])
    (hk : k.shape = [batch, heads, kvLen, headDim]) (hv : v.shape = [batch, heads, kvLen, headDim])
    (hfq : Fills (batch * heads) qLen headDim q.data fq)
    (hfk : Fills (batch * heads) kvLen headDim k.data fk)
    (hfv : Fills (batch * heads) kvLen headDim v.data fv) : ∃ out,
    causalSdpaWithQStart exp sqrt sgemm q k v qStart = .ok out ∧
      out.shape = [batch, heads, qLen, headDim] ∧ Fills (batch * heads) qLen headDim out.data
        (attention exp (1 / sqrt (headDim : F)) headDim kvLen qStart fq fk fv) := by
  have hvalid : validateCachedAttentionShapes [batch, heads, qLen, headDim]
      [batch, heads, kvLen, headDim] [batch, heads, kvLen, headDim] qStart = .ok () := by
    simp [validateCachedAttentionShapes, hle]
  unfold causalSdpaWithQStart
  rw [hq, hk, hv, hvalid, result_ok_bind]
  dsimp only
  split
  · rename_i hwhole
    obtain ⟨rfl, rfl⟩ := hwhole
    exact causalSdpa_eq exp sqrt hsgemm hkv hq hk hv hfq hfk hfv
  · refine attend_eq exp sqrt hsgemm hkv hq hk hv hfq hfk hfv ?_
    by_cases hnewest : qLen = 1 ∧ qStart + 1 = kvLen
    · obtain ⟨rfl, hend⟩ := hnewest
      simp only [hend, and_self, if_true]
      exact masks_newest hend
    · simp only [hnewest, if_false]
      exact masks_window _ qLen kvLen qStart

end Attend

/-! ## The rows of a tensor -/

section Rows

variable {F : Type} [Field F] {b h m n start len : Nat}

theorem coords_four {i₁ i₂ j l : Nat} (hi₁ : i₁ < b) (hi₂ : i₂ < h) (hj : j < m) (hl : l < n) :
    coords [b, h, m, n] (((i₁ * h + i₂) * m + j) * n + l) = [i₁, i₂, j, l] := by
  have hin : InShape [i₁, i₂, j, l] [b, h, m, n] :=
    .cons hi₁ (.cons hi₂ (.cons hj (.cons hl .nil)))
  have hposition : position [i₁, i₂, j, l] (strides [b, h, m, n]) =
      ((i₁ * h + i₂) * m + j) * n + l := by
    simp [position, strides]
    ring
  rw [← hposition, hin.coords_position]

/-- Rows `start` up to `start + len` of every head. -/
theorem slice_rows {x : HostTensor F} (hx : x.shape = [b, h, m, n]) (hle : start + len ≤ m)
    {f : Nat → Nat → Nat → F} (hf : Fills (b * h) m n x.data f) : ∃ out,
    x.slice [0, 0, start, 0] [b, h, start + len, n] = .ok out ∧ out.shape = [b, h, len, n] ∧
      Fills (b * h) len n out.data fun i j l => f i (start + j) l := by
  have hbounds : ValidBounds [b, h, m, n] [0, 0, start, 0] [b, h, start + len, n] :=
    (((ValidBounds.nil.whole n).cons (Nat.le_add_right start len) hle).whole h).whole b
  have hshape : sliceShape [0, 0, start, 0] [b, h, start + len, n] = [b, h, len, n] := by
    simp [sliceShape]
  have hdata := x.length_data
  rw [hx] at hdata
  have hslice := sliceData_eq hbounds hdata
  rw [hshape] at hslice
  have hsize : ((List.range (shapeSize [b, h, len, n])).map fun o =>
      x.data.getD (slicePlace [b, h, m, n] [0, 0, start, 0] [b, h, start + len, n] o) 0).length =
        shapeSize [b, h, len, n] := by
    rw [List.length_map, List.length_range]
  refine ⟨⟨_, [b, h, len, n], hsize⟩, ?_, rfl, ?_⟩
  · unfold HostTensor.slice
    rw [hx, hslice, result_ok_bind]
    exact HostTensor.new_eq hsize
  · dsimp only
    rw [shapeSize_four]
    refine fills_map_range _ fun i hi j hj l hl => ?_
    have hh : 0 < h := Nat.pos_of_mul_pos_left (Nat.zero_lt_of_lt hi)
    have hhead : i / h * h + i % h = i := Nat.div_add_mod' i h
    have hi₁ : i / h < b := Nat.div_lt_of_lt_mul (by rwa [Nat.mul_comm])
    have hplace : slicePlace [b, h, m, n] [0, 0, start, 0] [b, h, start + len, n]
        ((i * len + j) * n + l) = (i * m + (start + j)) * n + l := by
      have hcoords := coords_four hi₁ (Nat.mod_lt i hh) hj hl
      rw [hhead] at hcoords
      unfold slicePlace
      rw [hshape, hcoords]
      calc position (List.zipWith (· + ·) [i / h, i % h, j, l] [0, 0, start, 0])
            (strides [b, h, m, n])
        _ = ((i / h * h + i % h) * m + (start + j)) * n + l := by
          simp [position, strides]
          ring
        _ = (i * m + (start + j)) * n + l := by rw [hhead]
    rw [hplace, hf.getD hi (by omega) hl]

theorem slice_all {x : HostTensor F} (hx : x.shape = [b, h, m, n]) :
    x.slice [0, 0, 0, 0] [b, h, 0 + m, n] = .ok x := by
  have hdata : x.data.length = b * h * (m * n) := by rw [x.length_data, hx, shapeSize_four]
  have hf := fills_getD hdata 0
  obtain ⟨out, hout, hshape, hfout⟩ := slice_rows hx (Nat.le_of_eq (Nat.zero_add m)) hf
  have heq : out = x := by
    refine HostTensor.ext (Fills.unique hfout (hf.congr fun i _ j _ l _ => ?_))
      (hshape.trans hx.symm)
    rw [Nat.zero_add]
  rw [hout, heq]

end Rows

/-! ## The two attentions -/

section Cached

variable {F : Type} [Field F] [LinearOrder F] (exp sqrt : F → F) (sgemm : Sgemm F)

theorem result_bind_eq_ok {α β : Type} {x : Result α} {f : α → Result β} {b : β} :
    x >>= f = .ok b ↔ ∃ a, x = .ok a ∧ f a = .ok b := by
  cases x with
  | error err =>
    constructor
    · intro h
      cases h
    · rintro ⟨a, h, _⟩
      cases h
  | ok a =>
    constructor
    · exact fun h => ⟨a, rfl, h⟩
    · rintro ⟨a', h, hf⟩
      cases h
      exact hf

theorem shape_of_causalSdpa {q k v out : HostTensor F} {batch heads seqLen headDim : Nat}
    (hq : q.shape = [batch, heads, seqLen, headDim])
    (h : causalSdpa exp sqrt sgemm q k v = .ok out) :
    out.shape = [batch, heads, seqLen, headDim] := by
  unfold causalSdpa at h
  obtain ⟨_, -, h⟩ := result_bind_eq_ok.mp h
  rw [hq] at h
  dsimp only [attend] at h
  iterate 9
    obtain ⟨_, -, h⟩ := result_bind_eq_ok.mp h
  -- The last step reshapes.
  unfold HostTensor.reshape HostTensor.new at h
  split at h
  · cases h
  · split at h
    · cases h
      rfl
    · cases h

/-- Attention with a cache is the attention of the full query, row by row. -/
theorem cached_attention_eq (hsgemm : sgemm.Multiplies)
    {batch heads qLen kvLen headDim qStart : Nat} (hle : qStart + qLen ≤ kvLen)
    {q full k v : HostTensor F} (hfull : full.shape = [batch, heads, kvLen, headDim])
    (hk : k.shape = [batch, heads, kvLen, headDim]) (hv : v.shape = [batch, heads, kvLen, headDim])
    (hq : full.slice [0, 0, qStart, 0] [batch, heads, qStart + qLen, headDim] = .ok q) :
    causalSdpaWithQStart exp sqrt sgemm q k v qStart =
      causalSdpa exp sqrt sgemm full k v >>= fun out =>
        out.slice [0, 0, qStart, 0] [batch, heads, qStart + qLen, headDim] := by
  have hlen : ∀ {x : HostTensor F}, x.shape = [batch, heads, kvLen, headDim] →
      x.data.length = batch * heads * (kvLen * headDim) := by
    intro x hx
    rw [x.length_data, hx, shapeSize_four]
  by_cases hkv : kvLen = 0
  · -- Only the whole sequence, which is empty, is left.
    obtain rfl : qStart = 0 := by omega
    obtain rfl : qLen = kvLen := by omega
    rw [slice_all hfull] at hq
    obtain rfl : full = q := Except.ok.inj hq
    have hvalid : validateCachedAttentionShapes [batch, heads, qLen, headDim]
        [batch, heads, qLen, headDim] [batch, heads, qLen, headDim] 0 = .ok () := by
      simp [validateCachedAttentionShapes]
    unfold causalSdpaWithQStart
    rw [hfull, hk, hv, hvalid, result_ok_bind]
    dsimp only
    rw [if_pos ⟨rfl, rfl⟩]
    cases hrun : causalSdpa exp sqrt sgemm full k v with
    | error err => rfl
    | ok out => exact (slice_all (shape_of_causalSdpa exp sqrt sgemm hfull hrun)).symm
  · have hffull := fills_getD (hlen hfull) 0
    have hfk := fills_getD (hlen hk) 0
    have hfv := fills_getD (hlen hv) 0
    obtain ⟨q', hq', hqshape, hfq⟩ := slice_rows hfull hle hffull
    obtain rfl : q = q' := Except.ok.inj (hq.symm.trans hq')
    obtain ⟨cached, hcached, hcachedshape, hfcached⟩ := causalSdpaWithQStart_eq exp
      sqrt hsgemm hkv hle hqshape hk hv hfq hfk hfv
    obtain ⟨out, hout, houtshape, hfout⟩ := causalSdpa_eq exp sqrt hsgemm hkv hfull hk
      hv hffull hfk hfv
    obtain ⟨rows, hrows, hrowsshape, hfrows⟩ := slice_rows houtshape hle hfout
    rw [hcached, hout, result_ok_bind, hrows]
    refine congrArg Except.ok (HostTensor.ext (hfcached.unique (hfrows.congr ?_)) ?_)
    · intro i hi j hj d hd
      refine Finset.sum_congr rfl fun l hl => ?_
      have hrow : maskedRow (1 / sqrt (headDim : F)) headDim kvLen qStart
          (fun i j l => full.data.getD ((i * kvLen + (qStart + j)) * headDim + l) 0)
          (fun i j l => k.data.getD ((i * kvLen + j) * headDim + l) 0) i j =
          maskedRow (1 / sqrt (headDim : F)) headDim kvLen 0
            (fun i j l => full.data.getD ((i * kvLen + j) * headDim + l) 0)
            (fun i j l => k.data.getD ((i * kvLen + j) * headDim + l) 0) i (qStart + j) := by
        unfold maskedRow maskEntry
        simp only [Nat.zero_add]
      rw [hrow]
    · exact hcachedshape.trans hrowsshape.symm

/-- The product by its entries. -/
def plainSgemm : Sgemm F := fun m k n x y =>
  (List.range m).flatMap fun i => (List.range n).map fun l => productEntry k n x y i l

omit [LinearOrder F] in
theorem plainSgemm_multiplies : (plainSgemm : Sgemm F).Multiplies := by
  intro m k n x y _ _
  have hrow : ∀ i < m, ((List.range n).map fun l => productEntry k n x y i l).length = n := by
    intro i _
    rw [List.length_map, List.length_range]
  refine ⟨Scatter.length_flatMap_range hrow, fun i hi l hl => ?_⟩
  rw [List.getD_eq_getElem?_getD, plainSgemm, Scatter.getElem?_flatMap_range hrow hi hl,
    List.getElem?_map, List.getElem?_range hl]
  rfl

/-- The newest of two positions. -/
theorem cached_attention_eq_newest :
    causalSdpaWithQStart (fun x : ℚ => x ^ 2 + 1) id plainSgemm ⟨[2], [1, 1, 1, 1], rfl⟩
      ⟨[1, 3], [1, 1, 2, 1], rfl⟩ ⟨[5, 7], [1, 1, 2, 1], rfl⟩ 1 =
    causalSdpa (fun x : ℚ => x ^ 2 + 1) id plainSgemm ⟨[1, 2], [1, 1, 2, 1], rfl⟩
      ⟨[1, 3], [1, 1, 2, 1], rfl⟩ ⟨[5, 7], [1, 1, 2, 1], rfl⟩ >>= fun out =>
        out.slice [0, 0, 1, 0] [1, 1, 1 + 1, 1] :=
  cached_attention_eq _ _ plainSgemm plainSgemm_multiplies (by decide) rfl rfl rfl rfl

end Cached

end Arle.Autograd
