import Mathlib

/-!
# Row-major positions

The entries of an array stand in one list, and the last axis is the first to change. `coords`
takes a position apart into a coordinate for each axis, and `position` with the strides of the
shape puts coordinates together again; on the positions and the coordinates of a shape the two
are inverse to each other. `transposed` is the position of an entry before two axes were
exchanged.
-/

namespace RowMajor

/-- How far a step along each axis goes. -/
def strides : List Nat → List Nat
  | [] => []
  | _ :: shape => shape.prod :: strides shape

def coords : List Nat → Nat → List Nat
  | [], _ => []
  | dim :: shape, i => i / shape.prod % dim :: coords shape i

def position (cs steps : List Nat) : Nat := (List.zipWith (· * ·) cs steps).sum

/-- The coordinates are those of an entry. -/
def InShape (cs shape : List Nat) : Prop := List.Forall₂ (· < ·) cs shape

variable {shape cs : List Nat} {dim c i : Nat}

@[simp] theorem length_strides (shape : List Nat) : (strides shape).length = shape.length := by
  induction shape with
  | nil => rfl
  | cons dim shape ih => rw [strides, List.length_cons, ih, List.length_cons]

@[simp] theorem length_coords (shape : List Nat) (i : Nat) :
    (coords shape i).length = shape.length := by
  induction shape with
  | nil => rfl
  | cons dim shape ih => rw [coords, List.length_cons, ih, List.length_cons]

theorem position_cons (c step : Nat) (cs steps : List Nat) :
    position (c :: cs) (step :: steps) = c * step + position cs steps := by
  rw [position, List.zipWith_cons_cons, List.sum_cons, position]

theorem coords_mod (shape : List Nat) (i : Nat) : coords shape (i % shape.prod) = coords shape i := by
  induction shape generalizing i with
  | nil => rfl
  | cons dim shape ih =>
    have htail : coords shape (i % (dim * shape.prod)) = coords shape i := by
      rw [← ih (i % (dim * shape.prod)), Nat.mod_mul_left_mod, ih]
    rw [List.prod_cons, coords, coords, htail, Nat.mod_mul_left_div_self, Nat.mod_mod]

/-- Every position is put together from its coordinates. -/
theorem position_coords_mod (shape : List Nat) (i : Nat) :
    position (coords shape i) (strides shape) = i % shape.prod := by
  induction shape with
  | nil =>
    rw [List.prod_nil, Nat.mod_one]
    rfl
  | cons dim shape ih =>
    rw [coords, strides, position_cons, ih, List.prod_cons, Nat.mul_comm dim, Nat.mod_mul,
      Nat.mul_comm (shape.prod)]
    omega

theorem position_coords (h : i < shape.prod) : position (coords shape i) (strides shape) = i := by
  rw [position_coords_mod, Nat.mod_eq_of_lt h]

theorem InShape.position_lt (h : InShape cs shape) : position cs (strides shape) < shape.prod := by
  induction h with
  | nil => exact Nat.one_pos
  | @cons c dim cs shape hc _ ih =>
    rw [strides, position_cons, List.prod_cons]
    calc c * shape.prod + position cs (strides shape)
      _ < c * shape.prod + shape.prod := Nat.add_lt_add_left ih _
      _ = (c + 1) * shape.prod := (Nat.succ_mul c _).symm
      _ ≤ dim * shape.prod := Nat.mul_le_mul_right _ hc

/-- Every coordinates are taken out of their position. -/
theorem InShape.coords_position (h : InShape cs shape) :
    coords shape (position cs (strides shape)) = cs := by
  induction h with
  | nil => rfl
  | @cons c dim cs shape hc hcs ih =>
    have hlt : position cs (strides shape) < shape.prod := InShape.position_lt hcs
    have hpos : 0 < shape.prod := Nat.zero_lt_of_lt hlt
    have hhead : (c * shape.prod + position cs (strides shape)) / shape.prod = c := by
      rw [Nat.mul_comm, Nat.mul_add_div hpos, Nat.div_eq_of_lt hlt, Nat.add_zero]
    have htail : coords shape (c * shape.prod + position cs (strides shape)) = cs := by
      rw [← coords_mod, Nat.mul_add_mod_of_lt hlt, ih]
    rw [strides, position_cons, coords, hhead, htail, Nat.mod_eq_of_lt hc]

theorem pos_of_lt_prod (h : i < shape.prod) : ∀ dim ∈ shape, 0 < dim := by
  intro dim hdim
  apply Nat.pos_of_ne_zero
  rintro rfl
  rw [List.prod_eq_zero hdim] at h
  exact Nat.not_lt_zero _ h

theorem coords_inShape (hpos : ∀ dim ∈ shape, 0 < dim) (i : Nat) :
    InShape (coords shape i) shape := by
  induction shape with
  | nil => exact .nil
  | cons dim shape ih =>
    exact .cons (Nat.mod_lt _ (hpos dim List.mem_cons_self))
      (ih fun d hd => hpos d (List.mem_cons_of_mem _ hd))

theorem InShape.length_eq (h : InShape cs shape) : cs.length = shape.length :=
  List.Forall₂.length_eq h

theorem inShape_iff : InShape cs shape ↔ cs.length = shape.length ∧
    ∀ (k : Nat) (c dim : Nat), cs[k]? = some c → shape[k]? = some dim → c < dim := by
  unfold InShape
  rw [List.forall₂_iff_get]
  refine and_congr_right fun _ => ⟨fun h k c dim hc hdim => ?_, fun h k hk hk' => ?_⟩
  · obtain ⟨hk, rfl⟩ := List.getElem?_eq_some_iff.mp hc
    obtain ⟨hk', rfl⟩ := List.getElem?_eq_some_iff.mp hdim
    exact h k hk hk'
  · exact h k _ _ (List.getElem?_eq_getElem hk) (List.getElem?_eq_getElem hk')

/-! ## Exchanging two axes -/

section Exchange

variable {α : Type} {xs : List α} {j k : Nat}

/-- The list with two entries exchanged. -/
def exchange (xs : List α) (i j : Nat) : List α :=
  match xs[i]?, xs[j]? with
  | some a, some b => (xs.set i b).set j a
  | _, _ => xs

theorem exchange_eq (hi : i < xs.length) (hj : j < xs.length) :
    exchange xs i j = (xs.set i xs[j]).set j xs[i] := by
  unfold exchange
  rw [List.getElem?_eq_getElem hi, List.getElem?_eq_getElem hj]

@[simp] theorem length_exchange : (exchange xs i j).length = xs.length := by
  unfold exchange
  split
  · rw [List.length_set, List.length_set]
  · rfl

theorem getElem?_exchange (hi : i < xs.length) (hj : j < xs.length) (k : Nat) :
    (exchange xs i j)[k]? = xs[Equiv.swap i j k]? := by
  rw [exchange_eq hi hj, List.getElem?_set, List.getElem?_set, List.length_set,
    Equiv.swap_apply_def]
  by_cases hkj : j = k
  · subst hkj
    rw [if_pos rfl, if_pos hj, if_pos rfl]
    split
    · rename_i hji
      subst hji
      rw [List.getElem?_eq_getElem hi]
    · rw [List.getElem?_eq_getElem hi]
  · rw [if_neg hkj]
    by_cases hki : i = k
    · subst hki
      rw [if_pos rfl, if_pos hi, if_pos rfl, List.getElem?_eq_getElem hj]
    · rw [if_neg hki, if_neg (Ne.symm hki), if_neg (Ne.symm hkj)]

theorem exchange_exchange (hi : i < xs.length) (hj : j < xs.length) :
    exchange (exchange xs i j) i j = xs := by
  apply List.ext_getElem?
  intro k
  rw [getElem?_exchange (by rwa [length_exchange]) (by rwa [length_exchange]),
    getElem?_exchange hi hj, ← Equiv.Perm.mul_apply, Equiv.swap_mul_self, Equiv.Perm.one_apply]

theorem perm_exchange : (exchange xs i j).Perm xs := by
  by_cases h : i < xs.length ∧ j < xs.length
  · rw [exchange_eq h.1 h.2]
    exact List.set_set_perm h.1 h.2
  · have hsame : exchange xs i j = xs := by
      unfold exchange
      split
      · rename_i a b ha hb
        exact absurd ⟨(List.getElem?_eq_some_iff.mp ha).1, (List.getElem?_eq_some_iff.mp hb).1⟩ h
      · rfl
    rw [hsame]

theorem prod_exchange : (exchange shape i j).prod = shape.prod := perm_exchange.prod_eq

theorem InShape.exchange (h : InShape cs shape) (hi : i < shape.length) (hj : j < shape.length) :
    InShape (exchange cs i j) (exchange shape i j) := by
  have hlen := h.length_eq
  refine inShape_iff.mpr ⟨by rw [length_exchange, length_exchange, hlen], fun k c dim hc hdim => ?_⟩
  rw [getElem?_exchange (hlen ▸ hi) (hlen ▸ hj)] at hc
  rw [getElem?_exchange hi hj] at hdim
  exact (inShape_iff.mp h).2 _ c dim hc hdim

/-- Where the entry at a position of the transposed array stood before. -/
def transposed (shape : List Nat) (i j o : Nat) : Nat :=
  position (exchange (coords (exchange shape i j) o) i j) (strides shape)

theorem inShape_transposed (hi : i < shape.length) (hj : j < shape.length) {o : Nat}
    (ho : o < shape.prod) : InShape (exchange (coords (exchange shape i j) o) i j) shape := by
  have hpos : ∀ dim ∈ exchange shape i j, 0 < dim := by
    apply pos_of_lt_prod
    rwa [prod_exchange]
  have h := (coords_inShape hpos o).exchange (i := i) (j := j) (by rwa [length_exchange])
    (by rwa [length_exchange])
  rwa [exchange_exchange hi hj] at h

theorem transposed_lt (hi : i < shape.length) (hj : j < shape.length) {o : Nat}
    (ho : o < shape.prod) : transposed shape i j o < shape.prod :=
  (inShape_transposed hi hj ho).position_lt

/-- Transposing twice goes back. -/
theorem transposed_transposed (hi : i < shape.length) (hj : j < shape.length) {o : Nat}
    (ho : o < shape.prod) :
    transposed (exchange shape i j) i j (transposed shape i j o) = o := by
  have hcoords := (inShape_transposed hi hj ho).coords_position
  unfold transposed
  rw [exchange_exchange hi hj, hcoords, exchange_exchange]
  · exact position_coords (by rwa [prod_exchange])
  · rwa [length_coords, length_exchange]
  · rwa [length_coords, length_exchange]

end Exchange

end RowMajor
