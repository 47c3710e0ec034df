import Mathlib

/-!
# The groups of one axis of a grid

The numbers below `blocks * (stride * size)` are the cells of a grid, and one axis of the grid
has a stride and a size. Its groups are the classes of the cells that differ in that axis only:
arithmetic progressions, which partition the numbers.
-/

namespace AxisGroups

section Ranges

variable {α : Type}

/-- A loop over a product is a nest of two loops. -/
theorem range_mul (a b : Nat) :
    List.range (a * b) = (List.range a).flatMap fun i => (List.range b).map fun j => i * b + j := by
  induction a with
  | zero => simp
  | succ a ih =>
    rw [Nat.succ_mul, List.range_add, ih, List.range_succ, List.flatMap_append,
      List.flatMap_singleton]

theorem map_range_mul (a b : Nat) (f : Nat → α) :
    (List.range (a * b)).map f =
      (List.range a).flatMap fun i => (List.range b).map fun j => f (i * b + j) := by
  rw [range_mul, List.map_flatMap]
  simp only [List.map_map, Function.comp_def]

theorem flatMap_range_mul (a b : Nat) (f : Nat → List α) :
    (List.range (a * b)).flatMap f =
      (List.range a).flatMap fun i => (List.range b).flatMap fun j => f (i * b + j) := by
  rw [range_mul, List.flatMap_assoc]
  simp only [List.flatMap_map]

/-- A loop of one round. -/
theorem flatMap_range_one (f : Nat → List α) : (List.range 1).flatMap f = f 0 := by simp

end Ranges

section Digits

/-- A number is determined by its quotient and its remainder. -/
theorem div_mod_eq_iff (n a b : Nat) : a / n = b / n ∧ a % n = b % n ↔ a = b := by
  constructor
  · rintro ⟨hdiv, hmod⟩
    rw [← Nat.div_add_mod a n, hdiv, hmod, Nat.div_add_mod]
  · rintro rfl
    exact ⟨rfl, rfl⟩

/-- Quotients by a factor agree when the quotients by the product and the digits between do. -/
theorem div_eq_iff (m n a b : Nat) :
    a / m = b / m ↔ a / (m * n) = b / (m * n) ∧ a / m % n = b / m % n := by
  rw [← Nat.div_div_eq_div_mul, ← Nat.div_div_eq_div_mul, div_mod_eq_iff]

/-- Remainders by a product agree when the two digits do. -/
theorem mod_mul_eq_iff (m n a b : Nat) :
    a % (m * n) = b % (m * n) ↔ a % m = b % m ∧ a / m % n = b / m % n := by
  rw [← div_mod_eq_iff m (a % (m * n)), Nat.mod_mul_right_div_self, Nat.mod_mul_right_div_self,
    Nat.mod_mul_right_mod, Nat.mod_mul_right_mod]
  exact And.comm

end Digits

/-- An axis of a grid: its stride, its size and the number of blocks that repeat it. -/
@[ext] structure Axis where
  stride : Nat
  size : Nat
  blocks : Nat
  stride_pos : 0 < stride
  size_pos : 0 < size

namespace Axis

variable (a : Axis)

/-- The number of cells in one block of the axis. -/
def block : Nat := a.stride * a.size

/-- The number of cells. -/
def total : Nat := a.blocks * a.block

/-- The coordinate of a cell along the axis. -/
def digit (r : Nat) : Nat := r / a.stride % a.size

/-- The cells of the block `q` at the offset `o`. -/
def row (q o : Nat) : List Nat := List.range' (q * a.block + o) a.size a.stride

/-- All rows, block by block. -/
def groups : List (List Nat) :=
  (List.range a.blocks).flatMap fun q => (List.range a.stride).map (a.row q)

theorem block_pos : 0 < a.block := Nat.mul_pos a.stride_pos a.size_pos

@[simp] theorem length_row (q o : Nat) : (a.row q o).length = a.size := List.length_range'

theorem mem_groups {g : List Nat} :
    g ∈ a.groups ↔ ∃ q < a.blocks, ∃ o < a.stride, g = a.row q o := by
  simp only [groups, List.mem_flatMap, List.mem_map, List.mem_range]
  constructor
  · rintro ⟨q, hq, o, ho, rfl⟩
    exact ⟨q, hq, o, ho, rfl⟩
  · rintro ⟨q, hq, o, ho, rfl⟩
    exact ⟨q, hq, o, ho, rfl⟩

theorem getElem_row {q o i : Nat} (h : i < (a.row q o).length) :
    (a.row q o)[i] = q * a.block + o + a.stride * i := by
  unfold row
  exact List.getElem_range' _

/-- The cell of a row at a place. -/
theorem cell_div_mod {q o i : Nat} (ho : o < a.stride) (hi : i < a.size) :
    (q * a.block + o + a.stride * i) / a.block = q ∧
      (q * a.block + o + a.stride * i) % a.stride = o ∧
      a.digit (q * a.block + o + a.stride * i) = i := by
  have hlt : o + a.stride * i < a.block := by
    have h := Nat.mul_le_mul_left a.stride (Nat.succ_le_of_lt hi)
    unfold block
    rw [Nat.mul_succ] at h
    omega
  have hcell : q * a.block + o + a.stride * i = o + a.stride * (q * a.size + i) := by
    unfold block
    ring
  refine ⟨?_, ?_, ?_⟩
  · rw [Nat.add_assoc, Nat.mul_comm, Nat.mul_add_div a.block_pos, Nat.div_eq_of_lt hlt,
      Nat.add_zero]
  · rw [hcell, Nat.add_mul_mod_self_left, Nat.mod_eq_of_lt ho]
  · unfold digit
    rw [hcell, Nat.add_mul_div_left _ _ a.stride_pos, Nat.div_eq_of_lt ho, Nat.zero_add,
      Nat.mul_add_mod_self_right, Nat.mod_eq_of_lt hi]

/-- A cell stands in the row of its block and its offset, at its coordinate. -/
theorem cell_eq (r : Nat) : r / a.block * a.block + r % a.stride + a.stride * a.digit r = r := by
  have hdiv : r / a.block * a.size + a.digit r = r / a.stride := by
    unfold block digit
    rw [← Nat.div_div_eq_div_mul]
    exact Nat.div_add_mod' _ _
  calc r / a.block * a.block + r % a.stride + a.stride * a.digit r
      = a.stride * (r / a.block * a.size + a.digit r) + r % a.stride := by
        unfold block
        ring
    _ = r := by rw [hdiv, Nat.div_add_mod]

theorem mem_row_iff {q o r : Nat} (ho : o < a.stride) :
    r ∈ a.row q o ↔ r / a.block = q ∧ r % a.stride = o := by
  constructor
  · intro h
    obtain ⟨i, hi, rfl⟩ := List.mem_iff_getElem.mp h
    rw [length_row] at hi
    rw [getElem_row]
    exact ⟨(a.cell_div_mod ho hi).1, (a.cell_div_mod ho hi).2.1⟩
  · rintro ⟨rfl, rfl⟩
    apply List.mem_range'.mpr
    exact ⟨a.digit r, Nat.mod_lt _ a.size_pos, (a.cell_eq r).symm⟩

theorem nodup_row (q o : Nat) : (a.row q o).Nodup := List.nodup_range' _ a.stride_pos

theorem lt_total_iff {r : Nat} : r < a.total ↔ r / a.block < a.blocks :=
  (Nat.div_lt_iff_lt_mul a.block_pos).symm

/-- The row of a cell. -/
theorem row_mem_groups {r : Nat} (hr : r < a.total) :
    a.row (r / a.block) (r % a.stride) ∈ a.groups :=
  a.mem_groups.mpr ⟨_, a.lt_total_iff.mp hr, _, Nat.mod_lt _ a.stride_pos, rfl⟩

theorem mem_row (r : Nat) : r ∈ a.row (r / a.block) (r % a.stride) :=
  (a.mem_row_iff (Nat.mod_lt _ a.stride_pos)).mpr ⟨rfl, rfl⟩

/-- The only group with a cell is its row. -/
theorem eq_row_of_mem {g : List Nat} {r : Nat} (hg : g ∈ a.groups) (hr : r ∈ g) :
    g = a.row (r / a.block) (r % a.stride) ∧ r < a.total := by
  obtain ⟨q, hq, o, ho, rfl⟩ := a.mem_groups.mp hg
  obtain ⟨rfl, rfl⟩ := (a.mem_row_iff ho).mp hr
  exact ⟨rfl, a.lt_total_iff.mpr hq⟩

theorem length_of_mem_groups {g : List Nat} (hg : g ∈ a.groups) : g.length = a.size := by
  obtain ⟨q, -, o, -, rfl⟩ := a.mem_groups.mp hg
  exact a.length_row q o

theorem nodup_flatten_groups : a.groups.flatten.Nodup := by
  apply List.nodup_flatten.mpr
  refine ⟨?_, ?_⟩
  · intro g hg
    obtain ⟨q, -, o, -, rfl⟩ := a.mem_groups.mp hg
    exact a.nodup_row q o
  · -- Two rows with a cell in common have the block and the offset of that cell.
    unfold groups
    apply List.pairwise_flatMap.mpr
    refine ⟨?_, ?_⟩
    · intro q _
      apply List.pairwise_map.mpr
      apply List.Pairwise.imp_of_mem _ List.nodup_range
      intro o o' ho ho' hne r hr hr'
      apply hne
      rw [← ((a.mem_row_iff (List.mem_range.mp ho)).mp hr).2,
        ((a.mem_row_iff (List.mem_range.mp ho')).mp hr').2]
    · apply List.Pairwise.imp _ List.nodup_range
      intro q q' hne g hg g' hg' r hr hr'
      obtain ⟨o, ho, rfl⟩ := List.mem_map.mp hg
      obtain ⟨o', ho', rfl⟩ := List.mem_map.mp hg'
      apply hne
      rw [← ((a.mem_row_iff (List.mem_range.mp ho)).mp hr).1,
        ((a.mem_row_iff (List.mem_range.mp ho')).mp hr').1]

/-- The groups partition the cells. -/
theorem flatten_groups_perm : a.groups.flatten.Perm (List.range a.total) := by
  apply (List.perm_ext_iff_of_nodup a.nodup_flatten_groups List.nodup_range).mpr
  intro r
  rw [List.mem_flatten, List.mem_range]
  constructor
  · rintro ⟨g, hg, hr⟩
    exact (a.eq_row_of_mem hg hr).2
  · intro hr
    exact ⟨_, a.row_mem_groups hr, a.mem_row r⟩

/-- Two cells share a group when they have one block and one offset. -/
theorem share_iff {r r' : Nat} (hr : r < a.total) :
    (∃ g ∈ a.groups, r ∈ g ∧ r' ∈ g) ↔
      r / a.block = r' / a.block ∧ r % a.stride = r' % a.stride := by
  constructor
  · rintro ⟨g, hg, hmem, hmem'⟩
    obtain ⟨q, -, o, ho, rfl⟩ := a.mem_groups.mp hg
    obtain ⟨h₁, h₂⟩ := (a.mem_row_iff ho).mp hmem
    obtain ⟨h₁', h₂'⟩ := (a.mem_row_iff ho).mp hmem'
    exact ⟨h₁.trans h₁'.symm, h₂.trans h₂'.symm⟩
  · rintro ⟨hdiv, hmod⟩
    refine ⟨_, a.row_mem_groups hr, a.mem_row r, ?_⟩
    rw [hdiv, hmod]
    exact a.mem_row r'

/-- The search for the group of a cell finds its row. -/
theorem find_groups {r : Nat} (hr : r < a.total) :
    a.groups.find? (fun g => g.contains r) = some (a.row (r / a.block) (r % a.stride)) := by
  have hsome : (a.groups.find? fun g => g.contains r).isSome := by
    apply List.find?_isSome.mpr
    exact ⟨_, a.row_mem_groups hr, List.contains_iff_mem.mpr (a.mem_row r)⟩
  obtain ⟨g, hg⟩ := Option.isSome_iff_exists.mp hsome
  have hcontains : r ∈ g := by simpa using List.find?_some hg
  rw [hg, (a.eq_row_of_mem (List.mem_of_find?_eq_some hg) hcontains).1]

/-- The place of a cell in its row is its coordinate. -/
theorem findIdx_row (r : Nat) :
    (a.row (r / a.block) (r % a.stride)).findIdx? (fun c => c == r) = some (a.digit r) := by
  have hdigit : a.digit r < a.size := Nat.mod_lt _ a.size_pos
  apply List.findIdx?_eq_some_iff_getElem.mpr
  refine ⟨by rwa [length_row], ?_, ?_⟩
  · rw [getElem_row, cell_eq, beq_self_eq_true]
  · intro j hj
    have hne : a.stride * j < a.stride * a.digit r := Nat.mul_lt_mul_of_pos_left hj a.stride_pos
    have hr := a.cell_eq r
    rw [getElem_row, beq_iff_eq]
    omega

/-- The groups of an axis of stride one are consecutive runs. -/
theorem groups_of_stride_one (h : a.stride = 1) :
    a.groups = (List.range a.blocks).map fun q => List.range' (q * a.size) a.size := by
  unfold groups row block
  rw [h, List.map_eq_flatMap]
  simp only [List.range_one, List.map_singleton, Nat.one_mul, Nat.add_zero]

end Axis

/-- Three nested axes, the inner one with stride one, repeated in a number of blocks. -/
structure Grid where
  inner : Nat
  mid : Nat
  outer : Nat
  blocks : Nat
  inner_pos : 0 < inner
  mid_pos : 0 < mid
  outer_pos : 0 < outer

namespace Grid

variable (g : Grid)

/-- The number of cells in a block. -/
def span : Nat := g.inner * (g.mid * g.outer)

/-- The innermost axis. -/
def innerAxis : Axis := ⟨1, g.inner, g.blocks * (g.mid * g.outer), Nat.one_pos, g.inner_pos⟩

/-- The middle axis. -/
def midAxis : Axis := ⟨g.inner, g.mid, g.blocks * g.outer, g.inner_pos, g.mid_pos⟩

/-- The outermost axis. -/
def outerAxis : Axis :=
  ⟨g.inner * g.mid, g.outer, g.blocks, Nat.mul_pos g.inner_pos g.mid_pos, g.outer_pos⟩

/-- All cells as one axis of stride one. -/
def whole : Axis :=
  ⟨1, g.span, g.blocks, Nat.one_pos, Nat.mul_pos g.inner_pos (Nat.mul_pos g.mid_pos g.outer_pos)⟩

theorem span_assoc : g.span = g.inner * g.mid * g.outer := (Nat.mul_assoc ..).symm

theorem total_inner : g.innerAxis.total = g.blocks * g.span := by
  unfold Axis.total Axis.block innerAxis span
  ring

theorem total_mid : g.midAxis.total = g.blocks * g.span := by
  unfold Axis.total Axis.block midAxis span
  ring

theorem total_outer : g.outerAxis.total = g.blocks * g.span := by
  unfold Axis.total Axis.block outerAxis span
  ring

section Coordinates

theorem digit_inner (r : Nat) : g.innerAxis.digit r = r % g.span % g.inner := by
  unfold Axis.digit innerAxis span
  rw [Nat.mod_mul_right_mod, Nat.div_one]

theorem digit_mid (r : Nat) : g.midAxis.digit r = r % g.span / g.inner % g.mid := by
  unfold Axis.digit midAxis span
  rw [Nat.mod_mul_right_div_self, Nat.mod_mul_right_mod]

theorem digit_outer (r : Nat) : g.outerAxis.digit r = r % g.span / (g.inner * g.mid) := by
  unfold Axis.digit outerAxis
  rw [span_assoc, Nat.mod_mul_right_div_self]

/-- The blocks of the middle axis are told apart by the outer digit and the block. -/
theorem div_mid_eq_iff (r r' : Nat) :
    r / g.midAxis.block = r' / g.midAxis.block ↔
      r / g.span = r' / g.span ∧ g.outerAxis.digit r = g.outerAxis.digit r' := by
  rw [span_assoc]
  exact div_eq_iff _ _ _ _

theorem share_inner {r r' : Nat} (hr : r < g.blocks * g.span) :
    (∃ c ∈ g.innerAxis.groups, r ∈ c ∧ r' ∈ c) ↔
      r / g.span = r' / g.span ∧ g.outerAxis.digit r = g.outerAxis.digit r' ∧
        g.midAxis.digit r = g.midAxis.digit r' := by
  rw [g.innerAxis.share_iff (hr.trans_eq g.total_inner.symm), ← and_assoc, ← div_mid_eq_iff]
  have hblock : g.innerAxis.block = g.inner := Nat.one_mul _
  have hstride : g.innerAxis.stride = 1 := rfl
  rw [hblock, hstride, Nat.mod_one, Nat.mod_one, and_iff_left rfl]
  exact div_eq_iff _ _ _ _

theorem share_mid {r r' : Nat} (hr : r < g.blocks * g.span) :
    (∃ c ∈ g.midAxis.groups, r ∈ c ∧ r' ∈ c) ↔
      r / g.span = r' / g.span ∧ g.outerAxis.digit r = g.outerAxis.digit r' ∧
        g.innerAxis.digit r = g.innerAxis.digit r' := by
  rw [g.midAxis.share_iff (hr.trans_eq g.total_mid.symm), ← and_assoc, ← div_mid_eq_iff]
  unfold Axis.digit innerAxis midAxis
  rw [Nat.div_one, Nat.div_one]

theorem share_outer {r r' : Nat} (hr : r < g.blocks * g.span) :
    (∃ c ∈ g.outerAxis.groups, r ∈ c ∧ r' ∈ c) ↔
      r / g.span = r' / g.span ∧ g.midAxis.digit r = g.midAxis.digit r' ∧
        g.innerAxis.digit r = g.innerAxis.digit r' := by
  rw [g.outerAxis.share_iff (hr.trans_eq g.total_outer.symm)]
  have hblock : g.outerAxis.block = g.span := g.span_assoc.symm
  have hmod : r % (g.inner * g.mid) = r' % (g.inner * g.mid) ↔ _ := mod_mul_eq_iff _ _ _ _
  unfold Axis.digit innerAxis midAxis
  rw [hblock, Nat.div_one, Nat.div_one, and_comm (a := r / g.inner % g.mid = _)]
  exact and_congr_right fun _ => hmod

end Coordinates

section Nests

theorem groups_inner :
    g.innerAxis.groups = (List.range g.blocks).flatMap fun t =>
      (List.range (g.mid * g.outer)).map fun c =>
        List.range' (t * g.span + c * g.inner) g.inner := by
  rw [g.innerAxis.groups_of_stride_one rfl]
  unfold innerAxis
  rw [map_range_mul]
  have hcell (t c : Nat) :
      (t * (g.mid * g.outer) + c) * g.inner = t * g.span + c * g.inner := by
    unfold span
    ring
  simp only [hcell]

theorem groups_mid :
    g.midAxis.groups = (List.range g.blocks).flatMap fun t =>
      (List.range g.outer).flatMap fun d => (List.range g.inner).map fun o =>
        List.range' (t * g.span + d * (g.inner * g.mid) + o) g.mid g.inner := by
  unfold Axis.groups Axis.row Axis.block midAxis
  rw [flatMap_range_mul]
  have hcell (t d : Nat) :
      (t * g.outer + d) * (g.inner * g.mid) = t * g.span + d * (g.inner * g.mid) := by
    unfold span
    ring
  simp only [hcell]

theorem groups_outer :
    g.outerAxis.groups = (List.range g.blocks).flatMap fun t =>
      (List.range (g.inner * g.mid)).map fun o =>
        List.range' (t * g.span + o) g.outer (g.inner * g.mid) := by
  unfold Axis.groups Axis.row Axis.block outerAxis
  rw [← span_assoc]

end Nests

section Whole

/-- An axis as long as the block leaves nothing to the others. -/
theorem mid_eq_span (h : g.mid = g.span) : g.midAxis = g.whole := by
  have hone : g.inner * g.outer = 1 := by
    apply Nat.eq_of_mul_eq_mul_left g.mid_pos
    rw [Nat.mul_one, Nat.mul_left_comm]
    exact h.symm
  ext
  · exact Nat.eq_one_of_mul_eq_one_right hone
  · exact h
  · have houter : g.outer = 1 := Nat.eq_one_of_mul_eq_one_left hone
    unfold midAxis whole
    rw [houter, Nat.mul_one]

theorem inner_eq_span (h : g.inner = g.span) : g.innerAxis = g.whole := by
  have hone : g.mid * g.outer = 1 := by
    apply Nat.eq_of_mul_eq_mul_left g.inner_pos
    rw [Nat.mul_one]
    exact h.symm
  ext
  · rfl
  · exact h
  · unfold innerAxis whole
    rw [hone, Nat.mul_one]

theorem outer_eq_span (h : g.outer = g.span) : g.outerAxis = g.whole := by
  ext
  · apply Nat.eq_of_mul_eq_mul_right g.outer_pos
    exact g.span_assoc.symm.trans (h.symm.trans (Nat.one_mul _).symm)
  · exact h
  · rfl

end Whole

end Grid

end AxisGroups
