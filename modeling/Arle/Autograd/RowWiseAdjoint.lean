import Mathlib
import Arle.Lib.AxisGroups
import Arle.Lib.DualRow
import Arle.Lib.FillLoop
import Arle.Autograd.CachedAttention
import Arle.Autograd.RowWise

/-!
# The row-wise backward passes are derivatives

A forward pass over dual numbers carries along the first-order change of its output. Each host
backward pass gives the gradient for which the change of the output, weighted by the gradient from
above, is the change of the input weighted by it.
-/

namespace Arle.Autograd

namespace HostTensor

variable {α β : Type}

def map (φ : α → β) (x : HostTensor α) : HostTensor β :=
  ⟨x.data.map φ, x.shape, by rw [List.length_map, x.length_data]⟩

theorem ext_data {x y : HostTensor α} (hdata : x.data = y.data) (hshape : x.shape = y.shape) :
    x = y := by
  cases x
  cases y
  cases hdata
  cases hshape
  rfl

end HostTensor

namespace RowWise

open DualNumber Dot FillLoop

/-! ## Rows -/

section Rows

variable {α S : Type} {shape : List Nat} {rows width : Nat}

/-- A shape of rows of a width. -/
structure HasRows (shape : List Nat) (rows width : Nat) : Prop where
  last : shape.getLast? = some width
  pos : 0 < width
  size : shapeSize shape = rows * width

theorem HasRows.lastDim (h : HasRows shape rows width) : lastDim shape = .ok width := by
  unfold RowWise.lastDim
  rw [h.last]

theorem HasRows.length {x : HostTensor α} (h : HasRows x.shape rows width) :
    x.data.length = rows * width :=
  x.length_data.trans h.size

theorem HasRows.divSize (h : HasRows shape rows width) :
    divSize (rows * width) width = .ok rows := by
  unfold RowWise.divSize
  rw [if_neg (Nat.ne_of_gt h.pos), Nat.mul_div_cancel _ h.pos]

theorem hasRows_of_lastDim (h : lastDim shape = .ok width) (hwidth : width ≠ 0) :
    HasRows shape shape.dropLast.prod width := by
  unfold lastDim at h
  split at h
  · cases h
  · rename_i last hlast
    cases h
    refine ⟨hlast, Nat.pos_of_ne_zero hwidth, ?_⟩
    obtain ⟨front, rfl⟩ := List.getLast?_eq_some_iff.mp hlast
    rw [shapeSize, List.prod_append, List.prod_singleton, List.dropLast_concat]

/-- The tensor with the entry `W row col` in each row and column. -/
def ofRows (h : HasRows shape rows width) (W : Nat → Nat → α) : HostTensor α :=
  ⟨perRow rows width W, shape, length_perRow.trans h.size.symm⟩

theorem new_perRow (h : HasRows shape rows width) (W : Nat → Nat → α) :
    HostTensor.new (perRow rows width W) shape = .ok (ofRows h W) :=
  HostTensor.new_eq _

theorem setAt_eq {data : List α} {i : Nat} (h : i < data.length) (value : α) :
    setAt data i value = .ok (data.set i value) := by
  unfold setAt
  rw [index_eq_ok (List.getElem?_eq_getElem h)]
  rfl

/-- A row of the data. -/
def rowOf (data : List α) (width row : Nat) : List α := (data.drop (row * width)).take width

theorem sliceAt_row {data : List α} (hdata : data.length = rows * width) {row : Nat}
    (hrow : row < rows) : sliceAt data (row * width) width = .ok (rowOf data width row) := by
  refine sliceAt_eq ?_
  rw [hdata, ← Nat.succ_mul]
  exact Nat.mul_le_mul_right width hrow

theorem length_rowOf {data : List α} (hdata : data.length = rows * width) {row : Nat}
    (hrow : row < rows) : (rowOf data width row).length = width := by
  have hle : (row + 1) * width ≤ rows * width := Nat.mul_le_mul_right width hrow
  rw [Nat.succ_mul] at hle
  rw [rowOf, List.length_take, List.length_drop, hdata]
  omega

theorem getD_rowOf {data : List α} {col : Nat} (hcol : col < width) (row : Nat) (d : α) :
    (rowOf data width row).getD col d = data.getD (row * width + col) d := by
  rw [rowOf, List.getD_eq_getElem?_getD, List.getElem?_take, if_pos hcol, List.getElem?_drop,
    List.getD_eq_getElem?_getD]

theorem map_rowOf {β : Type} (φ : α → β) (data : List α) (row : Nat) :
    (rowOf data width row).map φ = rowOf (data.map φ) width row := by
  rw [rowOf, rowOf, List.map_take, List.map_drop]

theorem sum_map_eq [AddCommMonoid S] {row : List α} (hrow : row.length = width) (φ : α → S)
    (d : α) : (row.map φ).sum = ∑ col ∈ Finset.range width, φ (row.getD col d) := by
  induction row generalizing width with
  | nil =>
    subst hrow
    rfl
  | cons value row ih =>
    subst hrow
    rw [List.map_cons, List.sum_cons, ih rfl, List.length_cons, Finset.sum_range_succ', add_comm]
    rfl

theorem sum_map_range [AddCommMonoid S] (w : Nat → S) :
    ((List.range width).map w).sum = ∑ col ∈ Finset.range width, w col := by
  rw [sum_map_eq List.length_range w 0]
  refine Finset.sum_congr rfl fun col hcol => congrArg w ?_
  rw [List.getD_eq_getElem?_getD, List.getElem?_range (Finset.mem_range.mp hcol)]
  rfl

/-- The sum over a row of the data. -/
theorem sum_rowOf [AddCommMonoid S] {data : List α} (hdata : data.length = rows * width)
    {row : Nat} (hrow : row < rows) (φ : α → S) (d : α) : ((rowOf data width row).map φ).sum =
      ∑ col ∈ Finset.range width, φ (data.getD (row * width + col) d) := by
  rw [sum_map_eq (length_rowOf hdata hrow) φ d]
  exact Finset.sum_congr rfl fun col hcol => by rw [getD_rowOf (Finset.mem_range.mp hcol)]

variable [CommSemiring S]

theorem sum_loop {f : S → Nat → Result S} {w : Nat → S}
    (h : ∀ col < width, ∀ sum, f sum col = .ok (sum + w col)) :
    (List.range width).foldlM f 0 = .ok (∑ col ∈ Finset.range width, w col) := by
  rw [foldlM_add fun col hcol => h col (List.mem_range.mp hcol), zero_add, sum_map_range]

/-- The entry of data in rows. -/
def cell (data : List S) (width row col : Nat) : S := data.getD (row * width + col) 0

theorem cell_ofRows (h : HasRows shape rows width) (W : Nat → Nat → S) {row col : Nat}
    (hrow : row < rows) (hcol : col < width) : cell (ofRows h W).data width row col = W row col :=
  getD_perRow hrow hcol 0

theorem dot_ofRows (h : HasRows shape rows width) (W : Nat → Nat → S) {g : HostTensor S}
    (hg : g.shape = shape) : dot g.data (ofRows h W).data =
      ∑ row ∈ Finset.range rows, ∑ col ∈ Finset.range width,
        cell g.data width row col * W row col := by
  have hlen : g.data.length = rows * width := by
    rw [g.length_data, hg, h.size]
  refine (dot_eq_sum hlen length_perRow).trans ?_
  rw [sum_rows]
  refine Finset.sum_congr rfl fun row hrow => Finset.sum_congr rfl fun col hcol => ?_
  rw [getD_perRow (Finset.mem_range.mp hrow) (Finset.mem_range.mp hcol), cell]

theorem ofRows_dot (h : HasRows shape rows width) (W : Nat → Nat → S) {g : HostTensor S}
    (hg : g.shape = shape) : dot (ofRows h W).data g.data =
      ∑ row ∈ Finset.range rows, ∑ col ∈ Finset.range width,
        W row col * cell g.data width row col := by
  rw [dot_comm, dot_ofRows h W hg]
  simp only [mul_comm]

end Rows

/-! ## Softmax -/

section SoftmaxLoops

variable {S : Type} [CommRing S] (ops : Elementary S) {rows width : Nat}

theorem cpuForwardLastAxis_eq {shape : List Nat} (hshape : HasRows shape rows width)
    (entry : S → S → S → S) {x : List S} (hx : x.length = rows * width) :
    cpuForwardLastAxis ops entry x shape = .ok (perRow rows width fun row col =>
      entry (cell x width row col) (maxOf ops (rowOf x width row))
        (DualRow.total ops.exp (Finset.range width) (cell x width row)
          (maxOf ops (rowOf x width row)))) := by
  have hpos := hshape.pos
  unfold cpuForwardLastAxis
  rw [hshape.lastDim, result_ok_bind]
  dsimp only
  rw [if_neg (Nat.ne_of_gt hpos), hx, Nat.mul_div_cancel _ hpos]
  refine nested_loop (fun row hrow => ⟨?inner, fun out => ?enter, fun col hcol out hout => ?write⟩)
    List.length_replicate
  case enter => rw [sliceAt_row hx hrow, result_ok_bind]
  case write =>
    have hlen := length_rowOf hx hrow
    rw [index_getD (hlen.symm ▸ hcol), result_ok_bind, getD_rowOf hcol,
      setAt_eq (hout.symm ▸ rowPlace_lt hrow hcol), sum_rowOf hx hrow _ 0]
    rfl

theorem backwardLastAxis_eq (output : HostTensor S) {upstream : HostTensor S}
    (hshape : HasRows output.shape rows width) (hsame : upstream.shape = output.shape)
    (term : S → S → S) (entry : S → S → S → S) :
    backwardLastAxis term entry output upstream = .ok (ofRows hshape fun row col =>
      entry (cell upstream.data width row col) (cell output.data width row col)
        (∑ c ∈ Finset.range width,
          term (cell upstream.data width row c) (cell output.data width row c))) := by
  have hy := hshape.length
  have hg : upstream.data.length = rows * width := by
    rw [upstream.length_data, hsame, hshape.size]
  have hread {t : List S} (ht : t.length = rows * width) {row col : Nat} (hrow : row < rows)
      (hcol : col < width) : index t (row * width + col) = .ok (cell t width row col) :=
    index_getD (ht.symm ▸ rowPlace_lt hrow hcol)
  unfold backwardLastAxis
  rw [if_neg (not_not_intro hsame.symm), hshape.lastDim, hy]
  dsimp only
  rw [result_ok_bind, hshape.divSize, result_ok_bind]
  rw [nested_loop
    (fun row hrow => ⟨?inner, fun out => ?enter, fun col hcol out hout => ?write⟩)
    List.length_replicate]
  · exact new_perRow hshape _
  case enter =>
    rw [sum_loop fun col hcol sum => ?_]
    · rfl
    · rw [hread hg hrow hcol, result_ok_bind, hread hy hrow hcol]
      rfl
  case write =>
    rw [hread hg hrow hcol, result_ok_bind, hread hy hrow hcol, result_ok_bind,
      setAt_eq (hout.symm ▸ rowPlace_lt hrow hcol)]

/-- The output of a forward pass over rows. -/
def forwardRow (entry : S → S → S → S) (data : List S) (width row col : Nat) : S :=
  entry (cell data width row col) (maxOf ops (rowOf data width row))
    (DualRow.total ops.exp (Finset.range width) (cell data width row)
      (maxOf ops (rowOf data width row)))

theorem hostEager_eq {x : HostTensor S} (hshape : HasRows x.shape rows width)
    (entry : S → S → S → S) : hostEager (cpuForwardLastAxis ops entry) x =
      .ok (ofRows hshape (forwardRow ops entry x.data width)) := by
  unfold hostEager
  rw [hshape.lastDim, result_ok_bind, cpuForwardLastAxis_eq ops hshape entry hshape.length,
    result_ok_bind]
  exact new_perRow hshape _

theorem hasRows_of_hostEager {x y : HostTensor S} {entry : S → S → S → S}
    (h : hostEager (cpuForwardLastAxis ops entry) x = .ok y) :
    ∃ rows width, HasRows x.shape rows width := by
  unfold hostEager cpuForwardLastAxis at h
  cases hlast : lastDim x.shape with
  | error e =>
    rw [hlast] at h
    cases h
  | ok width =>
    rw [hlast, result_ok_bind, result_ok_bind] at h
    by_cases hwidth : width = 0
    · dsimp only at h
      rw [if_pos hwidth] at h
      cases h
    · exact ⟨_, _, hasRows_of_lastDim hlast hwidth⟩

end SoftmaxLoops

/-! ## Forward passes over dual numbers -/

section Dual

variable {K : Type} [Field K]

/-- What the backward passes rely on. -/
structure Elementary.Laws (f : Elementary K) : Prop where
  exp_add : ∀ a b, f.exp (a + b) = f.exp a * f.exp b
  exp_zero : f.exp 0 = 1
  exp_ln : ∀ row : List K, row ≠ [] → f.exp (f.ln (row.map f.exp).sum) = (row.map f.exp).sum

/-- The functions over dual numbers that have the derivatives of `exp`, `ln` and the reciprocal of
the square root; the maximum may change at any rate. -/
structure Elementary.Extends (F : Elementary K[ε]) (f : Elementary K) : Prop where
  exp : DualRow.IsExp f.exp F.exp
  ln : DualRow.IsLog f.ln F.ln
  recipSqrt : DualRow.IsRecipSqrt f.recipSqrt F.recipSqrt
  max : ∀ u v, (F.max u v).fst = f.max u.fst v.fst

/-- The input, or the output, itself. -/
def values (x : HostTensor K[ε]) : HostTensor K := x.map TrivSqZeroExt.fst

/-- The first-order change of the input, or of the output. -/
def rates (x : HostTensor K[ε]) : HostTensor K := x.map TrivSqZeroExt.snd

/-- The backward pass gives the gradient: for every input and every change of it, the change of
the output weighted by `g` is the change of the input weighted by the gradient. -/
def Exact (dual : HostTensor K[ε] → Result (HostTensor K[ε]))
    (forward : HostTensor K → Result (HostTensor K))
    (backward : List Nat → HostTensor K → HostTensor K → Result (HostTensor K)) : Prop :=
  ∀ (x : HostTensor K[ε]) (y g : HostTensor K), forward (values x) = .ok y → g.shape = y.shape →
    ∃ output grad, dual x = .ok output ∧ values output = y ∧
      backward x.shape y g = .ok grad ∧ grad.shape = x.shape ∧
      dot g.data (rates output).data = dot grad.data (rates x).data

variable {F : Elementary K[ε]} {f : Elementary K} {rows width : Nat}

theorem cell_values (x : HostTensor K[ε]) (row col : Nat) :
    cell (values x).data width row col = (cell x.data width row col).fst :=
  List.getD_map x.data 0 TrivSqZeroExt.fst

theorem cell_rates (x : HostTensor K[ε]) (row col : Nat) :
    cell (rates x).data width row col = (cell x.data width row col).snd :=
  List.getD_map x.data 0 TrivSqZeroExt.snd

theorem fst_maxOf (hext : F.Extends f) (row : List K[ε]) :
    (maxOf F row).fst = maxOf f (row.map TrivSqZeroExt.fst) := by
  cases row with
  | nil => rfl
  | cons value rest =>
    change (rest.foldl F.max value).fst =
      (rest.map TrivSqZeroExt.fst).foldl f.max value.fst
    induction rest generalizing value with
    | nil => rfl
    | cons next rest ih =>
      rw [List.foldl_cons, List.map_cons, List.foldl_cons, ih, hext.max]

theorem values_ofRows {K : Type} {shape : List Nat} (h : HasRows shape rows width)
    (W : Nat → Nat → K[ε]) : values (ofRows h W) = ofRows h fun row col => (W row col).fst :=
  HostTensor.ext_data (map_perRow _) rfl

theorem rates_ofRows {K : Type} {shape : List Nat} (h : HasRows shape rows width)
    (W : Nat → Nat → K[ε]) : rates (ofRows h W) = ofRows h fun row col => (W row col).snd :=
  HostTensor.ext_data (map_perRow _) rfl

theorem ofRows_congr {α : Type} {shape : List Nat} (h : HasRows shape rows width)
    {W W' : Nat → Nat → α} (hW : ∀ row < rows, ∀ col < width, W row col = W' row col) :
    ofRows h W = ofRows h W' :=
  HostTensor.ext_data (perRow_congr hW) rfl

/-- The passes of a normalised row are exact where those of one row are. -/
theorem exact_of_rows (hext : F.Extends f) {entryF : K[ε] → K[ε] → K[ε] → K[ε]}
    {entry entryB : K → K → K → K} {term : K → K → K}
    (hvalue : ∀ u m D, (entryF u m D).fst = entry u.fst m.fst D.fst)
    (hrow : ∀ (width : Nat) (u : Nat → K[ε]) (m : K[ε]) (y g : Nat → K), 0 < width →
      (∀ col < width, y col = entry (u col).fst m.fst
        (DualRow.total f.exp (Finset.range width) (fun i => (u i).fst) m.fst)) →
      ∑ col ∈ Finset.range width, g col *
        (entryF (u col) m (DualRow.total F.exp (Finset.range width) u m)).snd =
      ∑ col ∈ Finset.range width,
        entryB (g col) (y col) (∑ c ∈ Finset.range width, term (g c) (y c)) * (u col).snd) :
    Exact (hostEager (cpuForwardLastAxis F entryF)) (hostEager (cpuForwardLastAxis f entry))
      fun _ => backwardLastAxis term entryB := by
  intro x y g hforward hg
  obtain ⟨rows, width, hshape'⟩ := hasRows_of_hostEager f hforward
  have hshape : HasRows x.shape rows width := hshape'
  rw [hostEager_eq f hshape'] at hforward
  cases hforward
  have hentry : ∀ row col, (forwardRow F entryF x.data width row col).fst =
      forwardRow f entry (values x).data width row col := by
    intro row col
    rw [forwardRow, hvalue, DualRow.fst_total _ _ _ hext.exp, fst_maxOf hext, map_rowOf]
    simp only [← cell_values]
    rfl
  have hback := backwardLastAxis_eq (ofRows hshape' (forwardRow f entry (values x).data width))
    hshape' hg term entryB
  refine ⟨_, _, hostEager_eq F hshape entryF, ?_, hback, rfl, ?_⟩
  · rw [values_ofRows]
    exact ofRows_congr hshape fun row _ col _ => hentry row col
  · rw [rates_ofRows, dot_ofRows hshape _ hg]
    refine Eq.trans ?_ (ofRows_dot hshape' _ (g := rates x) rfl).symm
    refine Finset.sum_congr rfl fun row hrow' => ?_
    have hrow' := Finset.mem_range.mp hrow'
    refine Eq.trans (hrow width (cell x.data width row) (maxOf F (rowOf x.data width row))
      (cell (ofRows hshape' (forwardRow f entry (values x).data width)).data width row)
      (cell g.data width row) hshape.pos fun col hcol => ?_) ?_
    · rw [cell_ofRows hshape' _ hrow' hcol, ← hentry, forwardRow, hvalue,
        DualRow.fst_total _ _ _ hext.exp]
    · refine Finset.sum_congr rfl fun col _ => ?_
      rw [← cell_rates]

theorem softmax_exact (hext : F.Extends f) :
    Exact (softmaxHostEager F) (softmaxHostEager f) fun _ => softmaxBackward := by
  refine exact_of_rows hext (fun u m D => ?_) fun width u m y g _ hy => ?_
  · rw [TrivSqZeroExt.fst_mul, hext.exp.fst, TrivSqZeroExt.fst_sub, TrivSqZeroExt.fst_inv]
  · refine (DualRow.sum_softmax _ u m hext.exp g).trans (Finset.sum_congr rfl fun col hcol => ?_)
    have hsum : ∑ c ∈ Finset.range width, g c * y c = ∑ c ∈ Finset.range width,
        g c * DualRow.share f.exp (Finset.range width) (fun i => (u i).fst) m.fst c :=
      Finset.sum_congr rfl fun c hc => by rw [hy c (Finset.mem_range.mp hc), DualRow.share]
    rw [hsum, hy col (Finset.mem_range.mp hcol), DualRow.share]

/-- The logarithm of a sum of exponentials is its logarithm. -/
theorem Elementary.Laws.exp_ln_total (hf : f.Laws) (hwidth : 0 < width) (x : Nat → K) (c : K) :
    f.exp (f.ln (DualRow.total f.exp (Finset.range width) x c)) =
      DualRow.total f.exp (Finset.range width) x c := by
  have hrow := hf.exp_ln ((List.range width).map fun col => x col - c)
    fun h => Nat.ne_of_gt hwidth (List.range_eq_nil.mp (List.map_eq_nil_iff.mp h))
  have hsum : (((List.range width).map fun col => x col - c).map f.exp).sum =
      DualRow.total f.exp (Finset.range width) x c := by
    rw [List.map_map, sum_map_range]
    rfl
  rwa [hsum] at hrow

theorem logSoftmax_exact (hf : f.Laws) (hext : F.Extends f) :
    Exact (logSoftmaxHostEager F) (logSoftmaxHostEager f) fun _ => logSoftmaxBackward f := by
  refine exact_of_rows hext (fun u m D => ?_) fun width u m y g hwidth hy => ?_
  · rw [TrivSqZeroExt.fst_sub, TrivSqZeroExt.fst_sub, hext.ln.fst]
  · have hlog := hf.exp_ln_total hwidth (fun i => (u i).fst) m.fst
    have hne : DualRow.total f.exp (Finset.range width) (fun i => (u i).fst) m.fst ≠ 0 := by
      rw [← hlog]
      exact DualRow.exp_ne_zero hf.exp_add hf.exp_zero _
    refine (DualRow.sum_logSoftmax _ u m hext.exp hext.ln hne g).trans
      (Finset.sum_congr rfl fun col hcol => ?_)
    rw [hy col (Finset.mem_range.mp hcol), DualRow.exp_logShare _ hf.exp_add hf.exp_zero hlog]

end Dual

/-! ## RMSNorm -/

section RmsNormLoops

variable {rows : Nat}

/-- A loop over an array with its rows is a loop over the rows. -/
theorem foldlM_zipIdx_map {α β : Type} (inv : Nat → α) (step : β → α × Nat → Result β) (out : β) :
    ((List.range rows).map inv).zipIdx.foldlM step out =
      (List.range rows).foldlM (fun out row => step out (inv row, row)) out := by
  have hzip : ((List.range rows).map inv).zipIdx =
      (List.range rows).map fun row => (inv row, row) := by
    refine List.ext_getElem? fun i => ?_
    rw [List.getElem?_zipIdx, List.getElem?_map, List.getElem?_map]
    rcases Nat.lt_or_ge i rows with hi | hi
    · rw [List.getElem?_range hi]
      simp
    · rw [List.getElem?_eq_none (by simpa using hi)]
      rfl
  rw [hzip, List.foldlM_map]

variable {S : Type} [CommRing S] {width : Nat}

theorem index_cell {data : List S} (hdata : data.length = rows * width) {row col : Nat}
    (hrow : row < rows) (hcol : col < width) :
    index data (row * width + col) = .ok (cell data width row col) :=
  index_getD (hdata.symm ▸ rowPlace_lt hrow hcol)

theorem rmsnormGradX_eq [Inv S] {x weight : HostTensor S} (upstream : HostTensor S)
    (hshape : HasRows x.shape rows width) (hweight : weight.data.length = width)
    (hsame : upstream.shape = x.shape) (inv : Nat → S) :
    rmsnormGradX x weight upstream width ((List.range rows).map inv) =
      .ok (ofRows hshape fun row col =>
        inv row * (cell upstream.data width row col * weight.data.getD col 0) -
          cell x.data width row col * inv row * (inv row * inv row *
            (∑ c ∈ Finset.range width, cell upstream.data width row c * weight.data.getD c 0 *
              cell x.data width row c) * (width : S)⁻¹)) := by
  have hx := hshape.length
  have hg : upstream.data.length = rows * width := by
    rw [upstream.length_data, hsame, hshape.size]
  unfold rmsnormGradX
  rw [foldlM_zipIdx_map, hx]
  refine (congrArg (· >>= fun gradX => HostTensor.new gradX x.shape) (nested_loop
    (fun row hrow => ⟨?inner, fun out => ?enter, fun col hcol out hout => ?write⟩)
    List.length_replicate)).trans (new_perRow hshape _)
  case enter =>
    dsimp only
    rw [sum_loop fun col hcol sum => ?_]
    · rfl
    · rw [index_cell hg hrow hcol, result_ok_bind, index_getD (hweight.symm ▸ hcol),
        result_ok_bind, index_cell hx hrow hcol]
      rfl
  case write =>
    rw [index_cell hg hrow hcol, result_ok_bind, index_getD (hweight.symm ▸ hcol),
      result_ok_bind, index_cell hx hrow hcol, result_ok_bind,
      setAt_eq (hout.symm ▸ rowPlace_lt hrow hcol)]

theorem rmsnormGradWeight_eq {x weight : HostTensor S} (upstream : HostTensor S)
    (hshape : HasRows x.shape rows width) (hweight : weight.shape = [width])
    (hsame : upstream.shape = x.shape) (inv : Nat → S) :
    ∃ grad, rmsnormGradWeight x weight upstream width ((List.range rows).map inv) = .ok grad ∧
      grad.shape = weight.shape ∧ ∀ col < width, grad.data.getD col 0 =
        ∑ row ∈ Finset.range rows,
          cell upstream.data width row col * cell x.data width row col * inv row := by
  have hx := hshape.length
  have hg : upstream.data.length = rows * width := by
    rw [upstream.length_data, hsame, hshape.size]
  have hrow : ∀ row ∈ List.range rows, Adds width (fun out =>
      (List.range width).foldlM (fun gradWeight col => (do
        let g ← index upstream.data (row * width + col)
        let v ← index x.data (row * width + col)
        addAt gradWeight col (g * v * inv row) : Result (List S))) out) fun col =>
          cell upstream.data width row col * cell x.data width row col * inv row := by
    intro row hrow
    have hrow := List.mem_range.mp hrow
    have hcols := Adds.foldlM (n := width) (l := List.range width)
      (f := fun gradWeight col => (do
        let g ← index upstream.data (row * width + col)
        let v ← index x.data (row * width + col)
        addAt gradWeight col (g * v * inv row) : Result (List S)))
      (w := fun col j => if col = j then
        cell upstream.data width row col * cell x.data width row col * inv row else 0)
      fun col hcol => ?_
    · refine hcols.congr fun j hj => ?_
      rw [sum_map_range, Finset.sum_ite_eq', if_pos (Finset.mem_range.mpr hj)]
    · have hcol := List.mem_range.mp hcol
      refine Adds.addTo hcol fun out hout => ?_
      rw [index_cell hg hrow hcol, result_ok_bind, index_cell hx hrow hcol, result_ok_bind,
        addAt_eq (hout.symm ▸ hcol)]
  obtain ⟨sum, hsum, hlen, hentry⟩ := (Adds.foldlM hrow).zeros
  have hsize : sum.length = shapeSize weight.shape := by
    rw [hlen, hweight, shapeSize, List.prod_singleton]
  refine ⟨⟨sum, weight.shape, hsize⟩, ?_, rfl, fun col hcol => ?_⟩
  · unfold rmsnormGradWeight
    rw [foldlM_zipIdx_map]
    refine (congrArg (· >>= fun grad => HostTensor.new grad weight.shape) hsum).trans ?_
    exact HostTensor.new_eq hsize
  · rw [hentry col hcol, sum_map_range]

variable [Inv S] (ops : Elementary S)

/-- The scale of a row. -/
def rowScale (data : List S) (width : Nat) (eps : S) (row : Nat) : S :=
  DualRow.scale ops.recipSqrt (Finset.range width) (cell data width row) width eps

theorem inverseRms_eq {x : List S} (hx : x.length = rows * width) (eps : S) :
    inverseRms ops x width rows eps = .ok ((List.range rows).map (rowScale ops x width eps)) := by
  unfold inverseRms
  refine mapM_range_ok fun row hrow => ?_
  dsimp only
  rw [sum_loop fun col hcol sum => ?_]
  · rfl
  · rw [index_cell hx hrow hcol]
    rfl

theorem cpuRmsNormForward_eq {x weight : HostTensor S} (hshape : HasRows x.shape rows width)
    (hweight : weight.data.length = width) (eps : S) :
    cpuRmsNormForward ops x.data weight.data x.shape eps = .ok (perRow rows width fun row col =>
      cell x.data width row col * rowScale ops x.data width eps row * weight.data.getD col 0) := by
  have hx := hshape.length
  have hpos := hshape.pos
  unfold cpuRmsNormForward
  rw [hshape.lastDim, result_ok_bind]
  dsimp only
  rw [if_neg (Nat.ne_of_gt hpos), if_neg (not_not_intro x.length_data),
    if_neg (not_not_intro hweight), hshape.size, Nat.mul_div_cancel _ hpos]
  refine nested_loop
    (fun row hrow => ⟨?inner, fun out => ?enter, fun col hcol out hout => ?write⟩)
    List.length_replicate
  case enter => rw [sliceAt_row hx hrow, result_ok_bind]
  case write =>
    have hlen := length_rowOf hx hrow
    rw [index_getD (hlen.symm ▸ hcol), result_ok_bind, getD_rowOf hcol,
      index_getD (hweight.symm ▸ hcol), result_ok_bind,
      setAt_eq (hout.symm ▸ rowPlace_lt hrow hcol), sum_rowOf hx hrow _ 0]
    rfl

theorem rmsnormHostEager_eq {x weight : HostTensor S} (hshape : HasRows x.shape rows width)
    (hweight : weight.shape = [width]) (eps : S) : rmsnormHostEager ops x weight eps =
      .ok (ofRows hshape fun row col => cell x.data width row col *
          rowScale ops x.data width eps row * weight.data.getD col 0,
        (List.range rows).map (rowScale ops x.data width eps)) := by
  have hlen : weight.data.length = width := by
    rw [weight.length_data, hweight, shapeSize, List.prod_singleton]
  unfold rmsnormHostEager
  rw [hshape.lastDim, result_ok_bind]
  dsimp only
  rw [if_neg (not_not_intro hweight), cpuRmsNormForward_eq ops hshape hlen, result_ok_bind,
    new_perRow hshape, result_ok_bind, hshape.length, hshape.divSize, result_ok_bind,
    inverseRms_eq ops hshape.length, result_ok_bind]
  rfl

theorem hasRows_of_rmsnormHostEager {x weight y : HostTensor S} {eps : S} {inv : List S}
    (h : rmsnormHostEager ops x weight eps = .ok (y, inv)) :
    ∃ rows width, HasRows x.shape rows width ∧ weight.shape = [width] := by
  unfold rmsnormHostEager cpuRmsNormForward at h
  cases hlast : lastDim x.shape with
  | error e =>
    rw [hlast] at h
    cases h
  | ok width =>
    rw [hlast, result_ok_bind, result_ok_bind] at h
    dsimp only at h
    by_cases hweight : weight.shape = [width]
    · rw [if_neg (not_not_intro hweight)] at h
      by_cases hwidth : width = 0
      · rw [if_pos hwidth] at h
        cases h
      · exact ⟨_, _, hasRows_of_lastDim hlast hwidth, hweight⟩
    · rw [if_pos hweight] at h
      cases h

theorem backwardInverseRms_eq {x saved : List S} (hx : x.length = rows * width) (eps : S)
    (hsaved : saved = (List.range rows).map (rowScale ops x width eps) ∨ saved = []) :
    backwardInverseRms ops x width rows eps saved =
      .ok ((List.range rows).map (rowScale ops x width eps)) := by
  unfold backwardInverseRms
  by_cases hempty : saved = []
  · rw [if_pos (List.isEmpty_iff.mpr hempty), inverseRms_eq ops hx]
  · obtain rfl := hsaved.resolve_right hempty
    have hlen : ((List.range rows).map (rowScale ops x width eps)).length = rows := by
      rw [List.length_map, List.length_range]
    rw [if_neg fun h => hempty (List.isEmpty_iff.mp h), if_neg (not_not_intro hlen)]

theorem whenNeeded_ok {α : Type} (need : Bool) (a : α) :
    whenNeeded need (.ok a) = .ok (if need then some a else none) := by
  cases need <;> rfl

theorem rmsnormBackward_eq {x weight upstream : HostTensor S} (hshape : HasRows x.shape rows width)
    (hsame : upstream.shape = x.shape) (eps : S) {saved : List S}
    (hsaved : saved = (List.range rows).map (rowScale ops x.data width eps) ∨ saved = [])
    {gradX gradW : HostTensor S}
    (hgradX : rmsnormGradX x weight upstream width
      ((List.range rows).map (rowScale ops x.data width eps)) = .ok gradX)
    (hgradW : rmsnormGradWeight x weight upstream width
      ((List.range rows).map (rowScale ops x.data width eps)) = .ok gradW)
    (needGradX needGradW : Bool) :
    rmsnormBackward ops x weight saved eps upstream needGradX needGradW =
      .ok (if needGradX then some gradX else none, if needGradW then some gradW else none) := by
  unfold rmsnormBackward
  rw [if_neg (not_not_intro hsame), hshape.lastDim, hshape.length]
  dsimp only
  rw [result_ok_bind]
  by_cases hneed : needGradX = false ∧ needGradW = false
  · obtain ⟨rfl, rfl⟩ := hneed
    rfl
  · rw [if_neg hneed, hshape.divSize, result_ok_bind,
      backwardInverseRms_eq ops hshape.length eps hsaved, result_ok_bind, hgradX, whenNeeded_ok,
      result_ok_bind, hgradW, whenNeeded_ok]
    rfl

end RmsNormLoops

section RmsNorm

variable {K : Type} [Field K] {F : Elementary K[ε]} {f : Elementary K}

/-- The two gradients, with saved inverses or without. A gradient that is not needed is left
out. -/
def RmsNormExact (F : Elementary K[ε]) (f : Elementary K) : Prop :=
  ∀ (x weight : HostTensor K[ε]) (eps : K) (y g : HostTensor K) (invRms saved : List K),
    rmsnormHostEager f (values x) (values weight) eps = .ok (y, invRms) →
    saved = invRms ∨ saved = [] → g.shape = y.shape →
    ∃ output dualInv gradX gradW,
      rmsnormHostEager F x weight (TrivSqZeroExt.inl eps) = .ok (output, dualInv) ∧
      values output = y ∧ gradX.shape = x.shape ∧ gradW.shape = weight.shape ∧
      (∀ needGradX needGradW,
        rmsnormBackward f (values x) (values weight) saved eps g needGradX needGradW =
          .ok (if needGradX then some gradX else none, if needGradW then some gradW else none)) ∧
      dot g.data (rates output).data =
        dot gradX.data (rates x).data + dot gradW.data (rates weight).data

theorem rmsnorm_exact [CharZero K] (hext : F.Extends f) : RmsNormExact F f := by
  intro x weight eps y g invRms saved hforward hsaved hg
  obtain ⟨rows, width, hshape', hweight'⟩ := hasRows_of_rmsnormHostEager f hforward
  have hshape : HasRows x.shape rows width := hshape'
  have hweight : weight.shape = [width] := hweight'
  rw [rmsnormHostEager_eq f hshape' hweight'] at hforward
  cases hforward
  have hwlen : (values weight).data.length = width := by
    rw [(values weight).length_data, hweight', shapeSize, List.prod_singleton]
  have hgradX := rmsnormGradX_eq g hshape' hwlen hg
    (rowScale f (values x).data width eps)
  obtain ⟨gradW, hgradW, hgradWshape, hgradWentry⟩ := rmsnormGradWeight_eq g hshape' hweight' hg
    (rowScale f (values x).data width eps)
  have hscale : ∀ row, (rowScale F x.data width (TrivSqZeroExt.inl eps) row).fst =
      rowScale f (values x).data width eps row := by
    intro row
    rw [rowScale, DualRow.fst_scale _ _ _ _ hext.recipSqrt]
    simp only [← cell_values]
    rfl
  have hw : ∀ col, (values weight).data.getD col 0 = (weight.data.getD col 0).fst :=
    fun col => List.getD_map weight.data 0 TrivSqZeroExt.fst
  have hw' : ∀ col, (rates weight).data.getD col 0 = (weight.data.getD col 0).snd :=
    fun col => List.getD_map weight.data 0 TrivSqZeroExt.snd
  refine ⟨_, _, _, gradW, rmsnormHostEager_eq F hshape hweight _, ?_, rfl, hgradWshape,
    rmsnormBackward_eq f hshape' hg eps hsaved hgradX hgradW, ?_⟩
  · rw [values_ofRows]
    refine ofRows_congr hshape fun row _ col _ => ?_
    rw [TrivSqZeroExt.fst_mul, TrivSqZeroExt.fst_mul, hscale, cell_values, hw]
  · have hwlen' : (rates weight).data.length = width := by
      rw [(rates weight).length_data, show (rates weight).shape = [width] from hweight, shapeSize,
        List.prod_singleton]
    have hgradWlen : gradW.data.length = width := by
      rw [gradW.length_data, hgradWshape, hweight', shapeSize, List.prod_singleton]
    -- The gradient of the weight adds up over the rows.
    have hweightPart : dot gradW.data (rates weight).data =
        ∑ row ∈ Finset.range rows, ∑ col ∈ Finset.range width,
          cell g.data width row col * cell (values x).data width row col *
            rowScale f (values x).data width eps row * (weight.data.getD col 0).snd := by
      rw [dot_eq_sum hgradWlen hwlen', Finset.sum_comm]
      refine Finset.sum_congr rfl fun col hcol => ?_
      rw [hgradWentry col (Finset.mem_range.mp hcol), hw', Finset.sum_mul]
    have hrow := fun row => DualRow.sum_rootMeanSquare (Finset.range width) (cell x.data width row)
      (fun col => weight.data.getD col 0) width eps hext.recipSqrt (cell g.data width row)
    have hscaleRow : ∀ row, DualRow.scale f.recipSqrt (Finset.range width)
        (fun col => (cell x.data width row col).fst) width eps =
          rowScale f (values x).data width eps row := by
      intro row
      rw [← hscale, rowScale, DualRow.fst_scale _ _ _ _ hext.recipSqrt]
    rw [rates_ofRows, dot_ofRows hshape _ hg, hweightPart]
    refine Eq.trans ?_ (congrArg (· + _) (ofRows_dot hshape' _ (g := rates x) rfl).symm)
    rw [← Finset.sum_add_distrib]
    refine Finset.sum_congr rfl fun row _ => (hrow row).trans ?_
    simp only [hscaleRow, cell_values, cell_rates, hw]

end RmsNorm

/-! ## Rotary embedding -/

section RopeLoops

/-- The shapes that the passes of the rotary embedding take. -/
structure RopeShapes (xShape cosShape sinShape : List Nat) (batch heads seq headDim half : Nat) :
    Prop where
  x : xShape = [batch, heads, seq, headDim]
  cos : cosShape = [seq, half]
  sin : sinShape = [seq, half]
  even : headDim % 2 = 0
  seq_pos : 0 < seq
  half_pos : 0 < half
  half_le : half ≤ headDim / 2

variable {S : Type} [CommRing S] {xShape cosShape sinShape : List Nat}
  {batch heads seq headDim half : Nat}

theorem RopeShapes.hasRows (h : RopeShapes xShape cosShape sinShape batch heads seq headDim half) :
    HasRows xShape (batch * heads * seq) headDim where
  last := by rw [h.x]; rfl
  pos := by
    have hpos := h.half_pos
    have hle := h.half_le
    omega
  size := by
    rw [h.x]
    simp [shapeSize, Nat.mul_assoc]

theorem RopeShapes.validateShapes
    (h : RopeShapes xShape cosShape sinShape batch heads seq headDim half) :
    validateShapes xShape cosShape sinShape = .ok () := by
  have hpos := h.half_pos
  have hle := h.half_le
  have heven := h.even
  obtain ⟨rfl, rfl, rfl, -, -, -, -⟩ := h
  simp [RowWise.validateShapes, index, heven, result_ok_bind, pure, Except.pure]
  omega

/-- One entry of the output. -/
def ropeEntry (x cos sin : List S) (seq headDim half row col : Nat) : S :=
  DualRow.rotate half (cell cos half (row % seq)) (cell sin half (row % seq)) (cell x headDim row)
    col

variable {x cos sin : List S}

theorem puts_ropeRow {rows row t : Nat} (hrow : row < rows) (ht : row % seq = t) (htseq : t < seq)
    (hx : x.length = rows * headDim) (hcos : cos.length = seq * half)
    (hsin : sin.length = seq * half) (hhalf : half + half ≤ headDim) :
    Puts (rows * headDim)
      (fun j => ropeEntry x cos sin seq headDim half (j / headDim) (j % headDim))
      (fun j => row * headDim ≤ j ∧ j < row * headDim + headDim)
      fun out => ropeRow x cos sin (row * headDim) (t * half) half headDim out := by
  have hplace {col : Nat} (hcol : col < headDim) := rowPlace_lt hrow hcol
  have hentry {col : Nat} (hcol : col < headDim) :
      ropeEntry x cos sin seq headDim half ((row * headDim + col) / headDim)
        ((row * headDim + col) % headDim) = ropeEntry x cos sin seq headDim half row col := by
    rw [rowPlace_div hcol, rowPlace_mod hcol]
  have hpair : ∀ i ∈ List.range half, Puts (rows * headDim)
      (fun j => ropeEntry x cos sin seq headDim half (j / headDim) (j % headDim))
      (fun j => j = row * headDim + i ∨ j = row * headDim + i + half) fun out => (do
        let x0 ← index x (row * headDim + i)
        let x1 ← index x (row * headDim + i + half)
        let c ← index cos (t * half + i)
        let s ← index sin (t * half + i)
        let out ← setAt out (row * headDim + i) (x0 * c - x1 * s)
        setAt out (row * headDim + i + half) (x1 * c + x0 * s) : Result (List S)) := by
    intro i hi
    have hi := List.mem_range.mp hi
    have hleft : i < headDim := by omega
    have hright : half + i < headDim := by omega
    have hsum : row * headDim + i + half = row * headDim + (half + i) := by omega
    rw [hsum]
    have hset0 : Puts (rows * headDim)
        (fun j => ropeEntry x cos sin seq headDim half (j / headDim) (j % headDim))
        (fun j => j = row * headDim + i) fun out => setAt out (row * headDim + i)
          (ropeEntry x cos sin seq headDim half row i) := by
      refine Puts.set (hplace hleft) fun out hout => ?_
      rw [setAt_eq (hout.symm ▸ hplace hleft), hentry hleft]
    have hset1 : Puts (rows * headDim)
        (fun j => ropeEntry x cos sin seq headDim half (j / headDim) (j % headDim))
        (fun j => j = row * headDim + (half + i)) fun out => setAt out (row * headDim + (half + i))
          (ropeEntry x cos sin seq headDim half row (half + i)) := by
      refine Puts.set (hplace hright) fun out hout => ?_
      rw [setAt_eq (hout.symm ▸ hplace hright), hentry hright]
    refine (hset0.bind hset1).of_eq fun out _ => ?_
    rw [index_cell hx hrow hleft, result_ok_bind, index_cell hx hrow hright, result_ok_bind,
      index_cell hcos htseq hi, result_ok_bind, index_cell hsin htseq hi, result_ok_bind,
      ropeEntry, ropeEntry, DualRow.rotate_left hi, DualRow.rotate_right hi, ht,
      Nat.add_comm i half]
  have hrest : Puts (rows * headDim)
      (fun j => ropeEntry x cos sin seq headDim half (j / headDim) (j % headDim))
      (fun j => row * headDim + half * 2 ≤ j ∧ j < row * headDim + headDim) fun out => (do
        let rest ← sliceAt x (row * headDim + half * 2) (headDim - half * 2)
        copyFromSlice out (row * headDim + half * 2) (row * headDim + headDim) rest :
          Result (List S)) := by
    have hend : row * headDim + headDim ≤ rows * headDim := by
      rw [← Nat.succ_mul]
      exact Nat.mul_le_mul_right headDim hrow
    have hlen : ((x.drop (row * headDim + half * 2)).take (headDim - half * 2)).length =
        headDim - half * 2 := by
      rw [List.length_take, List.length_drop, hx]
      omega
    refine Puts.splice ((x.drop (row * headDim + half * 2)).take (headDim - half * 2)) (by omega)
      hend (fun j hstart hstop => ?_) fun out hout => ?_
    · obtain ⟨i, rfl⟩ := Nat.exists_eq_add_of_le hstart
      have hi : half + half + i < headDim := by omega
      have hj : row * headDim + half * 2 + i = row * headDim + (half + half + i) := by omega
      rw [hj, hentry hi, ropeEntry, DualRow.rotate_rest, List.getElem?_take_of_lt (by omega),
        List.getElem?_drop, cell, List.getD_eq_getElem _ _ (hx.symm ▸ hplace hi)]
      refine (congrArg (x[·]?) ?_).trans (List.getElem?_eq_getElem (hx.symm ▸ hplace hi))
      omega
    · rw [sliceAt_eq (by omega), result_ok_bind, copyFromSlice, if_pos (by omega)]
  refine ((Puts.foldlM hpair).bind hrest).congr fun j _ => ⟨?_, fun hj => ?_⟩
  · rintro (⟨i, hi, rfl | rfl⟩ | hj)
    · have hi := List.mem_range.mp hi
      omega
    · have hi := List.mem_range.mp hi
      omega
    · omega
  · by_cases hcopied : row * headDim + half * 2 ≤ j
    · exact .inr ⟨hcopied, hj.2⟩
    · by_cases hleft : j < row * headDim + half
      · exact .inl ⟨j - row * headDim, List.mem_range.mpr (by omega), .inl (by omega)⟩
      · exact .inl ⟨j - row * headDim - half, List.mem_range.mpr (by omega), .inr (by omega)⟩

/-- The nest of three loops runs over the rows. -/
theorem cpuRopeForward_eq (h : RopeShapes xShape cosShape sinShape batch heads seq headDim half)
    (hx : x.length = shapeSize xShape) (hcos : cos.length = shapeSize cosShape)
    (hsin : sin.length = shapeSize sinShape) : cpuRopeForward x xShape cos sin =
      .ok (perRow (batch * heads * seq) headDim (ropeEntry x cos sin seq headDim half)) := by
  have hrows := h.hasRows
  have hlen := hx.trans hrows.size
  have hcos' : cos.length = seq * half := by
    rw [hcos, h.cos]
    simp [shapeSize]
  have hsin' : sin.length = seq * half := by
    rw [hsin, h.sin]
    simp [shapeSize]
  have hhalf := h.half_le
  have hmax : max seq 1 = seq := Nat.max_eq_left h.seq_pos
  have hdiv : cos.length / max seq 1 = half := by
    rw [hmax, hcos', Nat.mul_div_cancel_left _ h.seq_pos]
  have hmod : cos.length % max seq 1 = 0 := by
    rw [hmax, hcos', Nat.mul_mod_right]
  have hhalf_pos := h.half_pos
  have heven := h.even
  rw [h.x]
  unfold cpuRopeForward
  dsimp only
  rw [if_neg (not_not_intro heven), if_neg (not_not_intro hlen), hdiv, if_neg (by omega),
    if_neg (by omega)]
  have hloops := Puts.foldlM (l := List.range batch) fun b hb =>
    Puts.foldlM (l := List.range heads) fun p hp =>
      Puts.foldlM (l := List.range seq) fun t ht =>
        puts_ropeRow (rowPlace_lt (rowPlace_lt (List.mem_range.mp hb) (List.mem_range.mp hp))
            (List.mem_range.mp ht)) (rowPlace_mod (List.mem_range.mp ht)) (List.mem_range.mp ht)
          hlen hcos' hsin' (by omega)
  refine hloops.eq_ok (fun j hj => ?_) List.length_replicate
  -- The row of an entry has a batch, a head and a position.
  have hrow : j / headDim < batch * heads * seq :=
    Nat.div_lt_of_lt_mul (Nat.mul_comm (batch * heads * seq) headDim ▸ hj)
  have hhead : j / headDim / seq < batch * heads :=
    Nat.div_lt_of_lt_mul (Nat.mul_comm (batch * heads) seq ▸ hrow)
  have hheads : 0 < heads := Nat.pos_of_mul_pos_left (Nat.zero_lt_of_lt hhead)
  refine ⟨j / headDim / seq / heads, List.mem_range.mpr
      (Nat.div_lt_of_lt_mul (Nat.mul_comm batch heads ▸ hhead)),
    j / headDim / seq % heads, List.mem_range.mpr (Nat.mod_lt _ hheads),
    j / headDim % seq, List.mem_range.mpr (Nat.mod_lt _ h.seq_pos), ?_⟩
  rw [Nat.div_add_mod', Nat.div_add_mod']
  have hdivmod := Nat.div_add_mod' j headDim
  have hcol := Nat.mod_lt j hrows.pos
  omega

theorem ropeHostEager_eq {x cos sin : HostTensor S}
    (h : RopeShapes x.shape cos.shape sin.shape batch heads seq headDim half) :
    ropeHostEager x cos sin =
      .ok (ofRows h.hasRows (ropeEntry x.data cos.data sin.data seq headDim half)) := by
  unfold ropeHostEager
  rw [h.validateShapes, result_ok_bind,
    cpuRopeForward_eq h x.length_data cos.length_data sin.length_data, result_ok_bind]
  exact new_perRow h.hasRows _

theorem ropeBackward_eq {cos sin upstream : HostTensor S}
    (h : RopeShapes xShape cos.shape sin.shape batch heads seq headDim half)
    (hsame : upstream.shape = xShape) : ropeBackward xShape cos sin upstream =
      .ok (ofRows h.hasRows
        (ropeEntry upstream.data cos.data (sin.data.map fun s => -s) seq headDim half)) := by
  have hsin : (sin.data.map fun s => -s).length = shapeSize sin.shape := by
    rw [List.length_map, sin.length_data]
  have hupstream : upstream.data.length = shapeSize xShape := by
    rw [upstream.length_data, hsame]
  unfold ropeBackward
  rw [h.validateShapes, result_ok_bind]
  dsimp only
  rw [if_neg (not_not_intro hsame), cpuRopeForward_eq h hupstream cos.length_data hsin,
    result_ok_bind]
  exact new_perRow h.hasRows _

theorem validateShapes_ok (h : validateShapes xShape cosShape sinShape = .ok ()) :
    ∃ batch heads seq headDim half, xShape = [batch, heads, seq, headDim] ∧
      cosShape = [seq, half] ∧ sinShape = [seq, half] ∧ headDim % 2 = 0 ∧ 0 < half ∧
      half ≤ headDim / 2 := by
  unfold validateShapes at h
  by_cases hx : xShape.length = 4
  · by_cases hcos : cosShape.length = 2
    · obtain ⟨seq', half, rfl⟩ := List.length_eq_two.mp hcos
      rcases xShape with _ | ⟨batch, _ | ⟨heads, _ | ⟨seq, _ | ⟨headDim, _ | ⟨more, shape⟩⟩⟩⟩⟩ <;>
        simp only [List.length_cons, List.length_nil] at hx <;> try omega
      simp only [List.length_cons, List.length_nil, ne_eq, not_true_eq_false, if_false, index,
        List.getElem?_cons_zero, List.getElem?_cons_succ, bind, Except.bind, throw, throwThe,
        MonadExceptOf.throw, pure, Except.pure] at h
      split_ifs at h with _ hodd hseq hsin hhalf
      subst hseq
      exact ⟨batch, heads, _, headDim, half, rfl, rfl, hsin, hodd, by omega, by omega⟩
    · rw [if_neg (not_not_intro hx), if_pos hcos] at h
      cases h
  · rw [if_pos hx] at h
    cases h

/-- The reference function refuses a sequence without positions. -/
theorem ropeShapes_of_ropeHostEager {x cos sin y : HostTensor S}
    (h : ropeHostEager x cos sin = .ok y) :
    ∃ batch heads seq headDim half,
      RopeShapes x.shape cos.shape sin.shape batch heads seq headDim half := by
  unfold ropeHostEager at h
  cases hvalid : validateShapes x.shape cos.shape sin.shape with
  | error e =>
    rw [hvalid] at h
    cases h
  | ok _ =>
    obtain ⟨batch, heads, seq, headDim, half, hx, hcos, hsin, heven, hpos, hle⟩ :=
      validateShapes_ok hvalid
    refine ⟨batch, heads, seq, headDim, half, hx, hcos, hsin, heven, Nat.pos_of_ne_zero ?_, hpos,
      hle⟩
    rintro rfl
    have hempty {t : HostTensor S} (ht : t.shape = [0, half]) : t.data.length = 0 := by
      rw [t.length_data, ht]
      simp [shapeSize]
    have hxlen : x.data.length = batch * heads * 0 * headDim := by
      rw [x.length_data, hx]
      simp [shapeSize]
    rw [hvalid, result_ok_bind, hx] at h
    unfold cpuRopeForward at h
    dsimp only at h
    rw [if_neg (not_not_intro heven), if_neg (not_not_intro hxlen), hempty hcos, hempty hsin,
      Nat.zero_mod, Nat.zero_div, if_neg (by omega), if_pos (by omega)] at h
    cases h

end RopeLoops

section Rope

variable {K : Type} [Field K]

/-- A tensor that does not change. -/
def constant (x : HostTensor K) : HostTensor K[ε] := x.map TrivSqZeroExt.inl

theorem cell_constant {width row : Nat} (x : HostTensor K) :
    cell (constant x).data width row = fun col => TrivSqZeroExt.inl (cell x.data width row col) :=
  funext fun _ => List.getD_map x.data 0 TrivSqZeroExt.inl

theorem cell_neg {width row : Nat} (data : List K) :
    cell (data.map fun s => -s) width row = fun col => -cell data width row col := by
  funext col
  have h := List.getD_map (n := row * width + col) data 0 fun s : K => -s
  rwa [neg_zero] at h

theorem rope_exact (cos sin : HostTensor K) :
    Exact (fun x => ropeHostEager x (constant cos) (constant sin)) (ropeHostEager · cos sin)
      fun xShape _ => ropeBackward xShape cos sin := by
  intro x y g hforward hg
  obtain ⟨batch, heads, seq, headDim, half, hshapes'⟩ := ropeShapes_of_ropeHostEager hforward
  have hshapes : RopeShapes x.shape cos.shape sin.shape batch heads seq headDim half := hshapes'
  dsimp only at hforward
  rw [ropeHostEager_eq hshapes'] at hforward
  cases hforward
  have hdual : RopeShapes x.shape (constant cos).shape (constant sin).shape batch heads seq headDim
    half := hshapes'
  have hg : g.shape = x.shape := hg
  refine ⟨_, _, ropeHostEager_eq hdual, ?_, ropeBackward_eq hshapes hg, rfl, ?_⟩
  · rw [values_ofRows]
    refine ofRows_congr _ fun row _ col _ => ?_
    rw [ropeEntry, cell_constant, cell_constant, DualRow.fst_rotate, ropeEntry]
    simp only [← cell_values]
  · have hhalf := hshapes.half_le
    rw [rates_ofRows, dot_ofRows _ _ hg]
    refine Eq.trans (Finset.sum_congr rfl fun row _ => ?_)
      (ofRows_dot hshapes.hasRows _ (g := rates x) rfl).symm
    simp only [ropeEntry, cell_constant, DualRow.snd_rotate, ← cell_rates, cell_neg]
    exact DualRow.sum_rotate (by omega) _ _ _ _

end Rope

/-- The host backward passes give exactly the first-order change of the forward passes, weighted
by the gradient from above. -/
theorem rowwise_exact {K : Type} [Field K] [CharZero K] {f : Elementary K} {F : Elementary K[ε]}
    (hf : f.Laws) (hext : F.Extends f) :
    Exact (softmaxHostEager F) (softmaxHostEager f) (fun _ => softmaxBackward) ∧
    Exact (logSoftmaxHostEager F) (logSoftmaxHostEager f) (fun _ => logSoftmaxBackward f) ∧
    RmsNormExact F f ∧
    ∀ cos sin : HostTensor K,
      Exact (fun x => ropeHostEager x (constant cos) (constant sin)) (ropeHostEager · cos sin)
        fun xShape _ => ropeBackward xShape cos sin :=
  ⟨softmax_exact hext, logSoftmax_exact hf hext, rmsnorm_exact hext, rope_exact⟩

section Reals

/-- The functions of the real numbers. -/
noncomputable def real : Elementary ℝ where
  exp := Real.exp
  ln := Real.log
  recipSqrt a := (Real.sqrt a)⁻¹
  max := max

open Classical in
/-- Their extensions; the maximum of two dual numbers is one of them. -/
noncomputable def realDual : Elementary ℝ[ε] where
  exp u := TrivSqZeroExt.inl (Real.exp u.fst) * (1 + u.snd • ε)
  ln u := TrivSqZeroExt.inl (Real.log u.fst) + (u.snd * u.fst⁻¹) • ε
  recipSqrt u := TrivSqZeroExt.inl (Real.sqrt u.fst)⁻¹ -
    ((Real.sqrt u.fst)⁻¹ ^ 3 * u.snd * (1 + 1)⁻¹) • ε
  max u v := if u.fst ≤ v.fst then v else u

theorem real_laws : real.Laws where
  exp_add := Real.exp_add
  exp_zero := Real.exp_zero
  exp_ln row hrow := by
    refine Real.exp_log (List.sum_pos _ (fun a ha => ?_) (by simpa using hrow))
    obtain ⟨b, -, rfl⟩ := List.mem_map.mp ha
    exact Real.exp_pos b

theorem realDual_extends : realDual.Extends real where
  exp _ _ := rfl
  ln _ _ := rfl
  recipSqrt _ _ := by
    rw [← one_add_one_eq_two]
    rfl
  max u v := by
    change (if u.fst ≤ v.fst then v else u).fst = max u.fst v.fst
    split_ifs with h
    · exact (max_eq_right h).symm
    · exact (max_eq_left (le_of_not_ge h)).symm

/-- Two equal logits, of which the first grows. -/
theorem rowwise_exact_two :
    (∃ output grad,
      softmaxHostEager realDual ⟨[DualRow.along 0 1, DualRow.along 0 0], [2], rfl⟩ = .ok output ∧
      values output = ⟨[2⁻¹, 2⁻¹], [2], rfl⟩ ∧
      softmaxBackward ⟨[2⁻¹, 2⁻¹], [2], rfl⟩ ⟨[1, 0], [2], rfl⟩ = .ok grad ∧ grad.shape = [2] ∧
      dot [1, 0] (rates output).data = dot grad.data [1, 0]) ∧
    ∃ output grad,
      logSoftmaxHostEager realDual ⟨[DualRow.along 0 1, DualRow.along 0 0], [2], rfl⟩ =
        .ok output ∧
      logSoftmaxBackward real (values output) ⟨[1, 0], [2], rfl⟩ = .ok grad ∧
      dot [1, 0] (rates output).data = dot grad.data [1, 0] := by
  have hexact := rowwise_exact real_laws realDual_extends
  have hrows : HasRows [2] 1 2 := ⟨rfl, by decide, rfl⟩
  constructor
  · refine hexact.1 ⟨[DualRow.along 0 1, DualRow.along 0 0], [2], rfl⟩ _ ⟨[1, 0], [2], rfl⟩ ?_ rfl
    have hforward := hostEager_eq real (x := ⟨[0, 0], [2], rfl⟩) hrows
      fun value maxValue denom => real.exp (value - maxValue) * denom⁻¹
    refine hforward.trans (congrArg Except.ok (HostTensor.ext_data ?_ rfl))
    change [_, _] = [_, _]
    simp [forwardRow, cell, maxOf, rowOf, real, DualRow.total, Finset.sum_range_succ]
    norm_num
  · obtain ⟨output, grad, hout, hvalues, hgrad, -, hdot⟩ := hexact.2.1
      ⟨[DualRow.along 0 1, DualRow.along 0 0], [2], rfl⟩ _ ⟨[1, 0], [2], rfl⟩
      (hostEager_eq real hrows _) rfl
    exact ⟨output, grad, hout, hvalues ▸ hgrad, hdot⟩

end Reals
end RowWise

end Arle.Autograd
