import Mathlib
import Arle.Lib.Dot
import Arle.Lib.FillLoop

/-!
# Matrices in arrays

The rows of a matrix stand in an array one after the other. `toMatrix` reads the matrix and
`ofMatrix` lays it out; on arrays of the right length the two are inverse to each other.
-/

namespace MatrixData

open FillLoop

section Array

variable {R : Type} [Zero R] {rows cols : Nat}

def toMatrix (rows cols : Nat) (data : List R) : Matrix (Fin rows) (Fin cols) R :=
  Matrix.of fun row col => data.getD (row * cols + col) 0

theorem toMatrix_apply (data : List R) (row : Fin rows) (col : Fin cols) :
    toMatrix rows cols data row col = data.getD (row * cols + col) 0 := rfl

/-- An entry of the matrix at a row and a column that may be too large. -/
def entry (M : Matrix (Fin rows) (Fin cols) R) (row col : Nat) : R :=
  if h : row < rows ∧ col < cols then M ⟨row, h.1⟩ ⟨col, h.2⟩ else 0

def ofMatrix (M : Matrix (Fin rows) (Fin cols) R) : List R := perRow rows cols (entry M)

theorem ofMatrix_toMatrix {data : List R} (hdata : data.length = rows * cols) :
    ofMatrix (toMatrix rows cols data) = data := by
  refine List.ext_getElem (length_perRow.trans hdata.symm) fun j hj hj' => ?_
  have hj := length_perRow (W := entry (toMatrix rows cols data)) ▸ hj
  have hcols : 0 < cols := Nat.pos_of_mul_pos_left (Nat.zero_lt_of_lt hj)
  have hrow : j / cols < rows := Nat.div_lt_of_lt_mul (Nat.mul_comm rows cols ▸ hj)
  have hget : entry (toMatrix rows cols data) (j / cols) (j % cols) = data.getD j 0 := by
    rw [entry, dif_pos ⟨hrow, Nat.mod_lt j hcols⟩, toMatrix_apply]
    exact congrArg (data.getD · 0) (Nat.div_add_mod' j cols)
  simp only [ofMatrix, perRow, List.getElem_map, List.getElem_range]
  rw [hget, List.getD_eq_getElem _ _ hj']

/-- An array is known from its matrix. -/
theorem eq_ofMatrix {data : List R} (hdata : data.length = rows * cols)
    {M : Matrix (Fin rows) (Fin cols) R} (h : toMatrix rows cols data = M) : data = ofMatrix M := by
  rw [← h, ofMatrix_toMatrix hdata]

end Array

section Entries

variable {R : Type} [CommRing R] {rows cols : Nat} {a b : List R}

theorem toMatrix_zipWith_add (ha : a.length = rows * cols) (hb : b.length = rows * cols) :
    toMatrix rows cols (List.zipWith (· + ·) a b) =
      toMatrix rows cols a + toMatrix rows cols b := by
  ext row col
  have hplace := rowPlace_lt row.isLt col.isLt
  have hsum : row * cols + col < (List.zipWith (· + ·) a b).length := by
    rwa [List.length_zipWith, ha, hb, Nat.min_self]
  rw [Matrix.add_apply, toMatrix_apply, toMatrix_apply, toMatrix_apply,
    List.getD_eq_getElem _ _ hsum, List.getD_eq_getElem _ _ (ha.symm ▸ hplace),
    List.getD_eq_getElem _ _ (hb.symm ▸ hplace), List.getElem_zipWith]

theorem toMatrix_map_mul (ha : a.length = rows * cols) (k : R) :
    toMatrix rows cols (a.map (· * k)) = k • toMatrix rows cols a := by
  ext row col
  have hplace := rowPlace_lt row.isLt col.isLt
  have hmap : row * cols + col < (a.map (· * k)).length := by
    rwa [List.length_map, ha]
  rw [Matrix.smul_apply, toMatrix_apply, toMatrix_apply, List.getD_eq_getElem _ _ hmap,
    List.getD_eq_getElem _ _ (ha.symm ▸ hplace), List.getElem_map, smul_eq_mul]
  exact mul_comm _ _

end Entries

section Loop

variable {R ε : Type} [CommRing R] {rows cols : Nat} {W : Nat → Nat → R}
  {step : List R → Nat → Except ε (List R)}

/-- A loop over the rows, with a loop over the columns in it, that adds to each entry. -/
theorem adds_nested (h : ∀ row < rows, ∃ inner : List R → Nat → Except ε (List R),
      (∀ out, step out row = (List.range cols).foldlM inner out) ∧
      ∀ col < cols, ∀ out, out.length = rows * cols →
        inner out col = .ok (Dot.addTo out (row * cols + col) (W row col)))
    {data : List R} (hdata : data.length = rows * cols) : ∃ out,
    (List.range rows).foldlM step data = .ok out ∧ out.length = rows * cols ∧
      toMatrix rows cols out = toMatrix rows cols data +
        Matrix.of fun (row : Fin rows) (col : Fin cols) => W row col := by
  have hrow : ∀ row ∈ List.range rows, Dot.Adds (rows * cols) (fun out => step out row)
      fun j => ((List.range cols).map fun col =>
        if row * cols + col = j then W row col else 0).sum := by
    intro row hrow
    have hrow := List.mem_range.mp hrow
    obtain ⟨inner, hstep, hinner⟩ := h row hrow
    rw [funext hstep]
    refine Dot.Adds.foldlM fun col hcol => ?_
    have hcol := List.mem_range.mp hcol
    exact Dot.Adds.addTo (rowPlace_lt hrow hcol) (hinner col hcol)
  obtain ⟨out, hloop, hlen, hentry⟩ := Dot.Adds.foldlM hrow data hdata
  refine ⟨out, hloop, hlen, ?_⟩
  ext row col
  rw [Matrix.add_apply, toMatrix_apply, toMatrix_apply, hentry _ (rowPlace_lt row.isLt col.isLt),
    Matrix.of_apply]
  congr 1
  change ∑ r ∈ Finset.range rows, ∑ c ∈ Finset.range cols, _ = _
  -- Only the row and the column of the entry count.
  have hplace : ∀ r c, c < cols → r * cols + c = row * cols + col → r = row ∧ c = col := by
    intro r c hc heq
    have hdiv := congrArg (· / cols) heq
    have hmod := congrArg (· % cols) heq
    simp only [rowPlace_div hc, rowPlace_div col.isLt] at hdiv
    simp only [rowPlace_mod hc, rowPlace_mod col.isLt] at hmod
    exact ⟨hdiv, hmod⟩
  rw [Finset.sum_eq_single_of_mem row.val (Finset.mem_range.mpr row.isLt),
    Finset.sum_eq_single_of_mem col.val (Finset.mem_range.mpr col.isLt), if_pos rfl]
  · intro c hc hne
    exact if_neg fun heq => hne (hplace _ c (Finset.mem_range.mp hc) heq).2
  · intro r _ hne
    refine Finset.sum_eq_zero fun c hc => ?_
    exact if_neg fun heq => hne (hplace r c (Finset.mem_range.mp hc) heq).1

end Loop

end MatrixData
