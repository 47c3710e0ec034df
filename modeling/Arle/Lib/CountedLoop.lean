import Mathlib

/-!
# Counted loops

`Fin.foldl n` is the loop `for i in 0..n` and `Fin.foldr n` the same loop in reverse, over arrays
whose length is in their type. A loop is followed by an invariant (`foldl_invariant`), by the parts
that its steps have done (`foldl_done`), or, where its steps add, by a sum (`foldl_add`).
-/

namespace CountedLoop

variable {α β : Type} {n m : Nat}

theorem foldl_invariant {f : α → Fin n → α} {a : α} (P : Nat → α → Prop) (hstart : P 0 a)
    (hstep : ∀ (i : Fin n) a, P i a → P (i + 1) (f a i)) : P n (Fin.foldl n f a) := by
  induction n with
  | zero => exact hstart
  | succ n ih =>
    rw [Fin.foldl_succ_last]
    exact hstep (Fin.last n) _ (ih fun i a h => hstep i.castSucc a h)

theorem foldr_invariant {f : Fin n → α → α} {a : α} (P : Nat → α → Prop) (hstart : P n a)
    (hstep : ∀ (i : Fin n) a, P (i + 1) a → P i (f i a)) : P 0 (Fin.foldr n f a) := by
  induction n generalizing a with
  | zero => exact hstart
  | succ n ih =>
    rw [Fin.foldr_succ_last]
    exact ih (hstep (Fin.last n) a hstart) fun i a h => hstep i.castSucc a h

theorem foldl_keeps {f : α → Fin n → α} {a : α} (P : α → Prop) (hstart : P a)
    (hstep : ∀ i a, P a → P (f a i)) : P (Fin.foldl n f a) :=
  foldl_invariant (fun _ => P) hstart hstep

/-- Each step of a loop does a part, and keeps the parts that are ready and those that are done. -/
theorem foldl_done {f : α → Fin n → α} {a : α} (ready done : Fin n → α → Prop)
    (hready : ∀ i, ready i a) (hstep : ∀ i a, ready i a → done i (f a i))
    (hkeep : ∀ i j a, j ≠ i →
      (ready j a → ready j (f a i)) ∧ (done j a → done j (f a i))) (i : Fin n) :
    done i (Fin.foldl n f a) := by
  refine foldl_invariant (fun k a => ∀ i : Fin n, (k ≤ i → ready i a) ∧ (i < k → done i a))
    (fun i => ⟨fun _ => hready i, (fun h => by cases h)⟩) (fun k a h i => ?_) i |>.2 i.isLt
  by_cases hik : i = k
  · subst hik
    exact ⟨fun h => absurd h (by omega), fun _ => hstep i a ((h i).1 (Nat.le_refl _))⟩
  · have hne : (i : Nat) ≠ k := fun h => hik (Fin.ext h)
    exact ⟨fun hlt => (hkeep k i a hik).1 ((h i).1 (by omega)),
      fun hlt => (hkeep k i a hik).2 ((h i).2 (by omega))⟩

/-- A loop each step of which adds to a measure. -/
theorem foldl_measure [AddCommMonoid β] {f : α → Fin n → α} (measure : α → β) {w : Fin n → β}
    (hstep : ∀ a i, measure (f a i) = measure a + w i) (a : α) :
    measure (Fin.foldl n f a) = measure a + ∑ i, w i := by
  induction n with
  | zero => exact (add_zero _).symm
  | succ n ih =>
    rw [Fin.foldl_succ_last, hstep, ih fun a i => hstep a i.castSucc, Fin.sum_univ_castSucc,
      add_assoc]

theorem foldl_add [AddCommMonoid α] (w : Fin n → α) (a : α) :
    Fin.foldl n (fun sum i => sum + w i) a = a + ∑ i, w i :=
  foldl_measure id (fun _ _ => rfl) a

/-- A loop over two variables whose steps do not read the other one. -/
theorem foldl_prod (f : α → Fin n → α) (g : β → Fin n → β) (a : α) (b : β) :
    Fin.foldl n (fun (s : α × β) i => (f s.1 i, g s.2 i)) (a, b) =
      (Fin.foldl n f a, Fin.foldl n g b) := by
  induction n with
  | zero => rfl
  | succ n ih =>
    rw [Fin.foldl_succ_last, Fin.foldl_succ_last, Fin.foldl_succ_last,
      ih (fun a i => f a i.castSucc) (fun b i => g b i.castSucc)]

/-! ## Arrays -/

section Arrays

variable {ι R : Type} [DecidableEq ι]

/-- A loop that fills an array. -/
theorem foldl_update (w : Fin n → R) (u : Fin n → R) :
    Fin.foldl n (fun u i => Function.update u i (w i)) u = w := by
  funext i
  refine foldl_done (fun _ _ => True) (fun i (u : Fin n → R) => u i = w i) (fun _ => trivial)
    (fun i u _ => Function.update_self ..) (fun i j u hij => ⟨id, fun h => ?_⟩) i
  rw [Function.update_of_ne hij, h]

/-- A loop over the places of a block, which changes each and nothing else. -/
theorem foldl_update_place {place : Fin n → ι} (hplace : Function.Injective place)
    (w : Fin n → R → R) (u : ι → R) :
    (∀ i, Fin.foldl n (fun u i => Function.update u (place i) (w i (u (place i)))) u (place i) =
      w i (u (place i))) ∧
    ∀ x, (∀ i, place i ≠ x) →
      Fin.foldl n (fun u i => Function.update u (place i) (w i (u (place i)))) u x = u x := by
  constructor
  · refine foldl_done (fun i (u' : ι → R) => u' (place i) = u (place i))
      (fun i u' => u' (place i) = w i (u (place i))) (fun _ => rfl) ?_ ?_
    · intro i u' h
      rw [Function.update_self, h]
    · intro i j u' hij
      rw [Function.update_of_ne (hplace.ne hij)]
      exact ⟨id, id⟩
  · intro x hx
    refine foldl_keeps (fun u' : ι → R => u' x = u x) rfl fun i u' h => ?_
    rw [Function.update_of_ne (hx i).symm, h]

theorem foldl_foldl_update (place : Fin n → Fin m → ι)
    (hplace : ∀ i j i' j', place i j = place i' j' → i = i' ∧ j = j')
    (w : Fin n → Fin m → R → R) (u : ι → R) (i : Fin n) (j : Fin m) :
    Fin.foldl n (fun u i => Fin.foldl m (fun u j =>
      Function.update u (place i j) (w i j (u (place i j)))) u) u (place i j) =
      w i j (u (place i j)) := by
  refine foldl_done (fun i (u' : ι → R) => ∀ j, u' (place i j) = u (place i j))
    (fun i u' => ∀ j, u' (place i j) = w i j (u (place i j))) (fun _ _ => rfl) ?_ ?_ i j
  · intro i u' h j
    have hrow : Function.Injective (place i) := fun j j' hj => (hplace i j i j' hj).2
    rw [(foldl_update_place hrow (w i) u').1, h]
  · intro i i' u' hi
    have hrow : Function.Injective (place i) := fun j j' hj => (hplace i j i j' hj).2
    have hkeep (j : Fin m) := (foldl_update_place hrow (w i) u').2 (place i' j)
      fun j' hj => hi (hplace i j' i' j hj).1.symm
    exact ⟨fun h j => (hkeep j).trans (h j), fun h j => (hkeep j).trans (h j)⟩

theorem foldl_foldl_update_of_ne (place : Fin n → Fin m → ι)
    (w : Fin n → Fin m → R → R) (u : ι → R) {x : ι} (hx : ∀ i j, place i j ≠ x) :
    Fin.foldl n (fun u i => Fin.foldl m (fun u j =>
      Function.update u (place i j) (w i j (u (place i j)))) u) u x = u x := by
  refine foldl_keeps (fun u' : ι → R => u' x = u x) rfl fun i u' h => ?_
  refine foldl_keeps (fun u' : ι → R => u' x = u x) h fun j u' h => ?_
  rw [Function.update_of_ne (hx i j).symm, h]

variable [AddCommMonoid R]

/-- `out[i] += v`. -/
def addAt (u : ι → R) (i : ι) (v : R) : ι → R := Function.update u i (u i + v)

theorem addAt_eq (u : ι → R) (i : ι) (v : R) : addAt u i v = u + Pi.single i v := by
  funext j
  by_cases h : j = i
  · subst h
    rw [addAt, Function.update_self, Pi.add_apply, Pi.single_eq_same]
  · rw [addAt, Function.update_of_ne h, Pi.add_apply, Pi.single_eq_of_ne h, add_zero]

/-- A loop that adds to each entry of an array. -/
theorem foldl_addAt (w : Fin n → R) (u : Fin n → R) :
    Fin.foldl n (fun u i => addAt u i (w i)) u = u + w := by
  simp only [addAt_eq, foldl_add]
  rw [Finset.univ_sum_single]

/-- A loop that sums up and adds to each entry of an array. -/
theorem foldl_accum (w v u : Fin n → R) (a : R) :
    Fin.foldl n (fun (s : R × (Fin n → R)) i => (s.1 + w i, addAt s.2 i (v i))) (a, u) =
      (a + ∑ i, w i, u + v) := by
  rw [foldl_prod (fun a i => a + w i) (fun u i => addAt u i (v i)), foldl_add, foldl_addAt]

end Arrays

/-! ## Row-major places -/

theorem place_lt (i : Fin n) (j : Fin m) : i * m + j < n * m := by
  calc i * m + j < i * m + m := Nat.add_lt_add_left j.isLt _
    _ = (i + 1) * m := (Nat.succ_mul _ _).symm
    _ ≤ n * m := Nat.mul_le_mul_right m i.isLt

/-- The place of an entry of an `n × m` matrix. -/
def place (i : Fin n) (j : Fin m) : Fin (n * m) := ⟨i * m + j, place_lt i j⟩

theorem place_eq (i : Fin n) (j : Fin m) : place i j = finProdFinEquiv (i, j) := by
  apply Fin.ext
  exact (Nat.add_comm _ _).trans (congrArg _ (Nat.mul_comm _ _))

theorem place_inj {i i' : Fin n} {j j' : Fin m} :
    place i j = place i' j' ↔ i = i' ∧ j = j' := by
  rw [place_eq, place_eq, Equiv.apply_eq_iff_eq, Prod.mk.injEq]

theorem exists_place (x : Fin (n * m)) : ∃ i j, place i j = x := by
  obtain ⟨⟨i, j⟩, rfl⟩ := (finProdFinEquiv (m := n) (n := m)).surjective x
  exact ⟨i, j, place_eq i j⟩

theorem sum_place [AddCommMonoid α] (w : Fin (n * m) → α) :
    ∑ x, w x = ∑ i, ∑ j, w (place i j) := by
  rw [← finProdFinEquiv.sum_comp, Fintype.sum_prod_type]
  simp only [place_eq]

/-- The array of the entries of a matrix. -/
def flatten (w : Fin n → Fin m → α) (x : Fin (n * m)) : α :=
  w (finProdFinEquiv.symm x).1 (finProdFinEquiv.symm x).2

theorem flatten_place (w : Fin n → Fin m → α) (i : Fin n) (j : Fin m) :
    flatten w (place i j) = w i j := by
  rw [flatten, place_eq, Equiv.symm_apply_apply]

/-- A place in the `i`-th of `n` matrices. -/
def block {k : Nat} (i : Fin n) (x : Fin (m * k)) : Fin (n * m * k) :=
  ⟨i * m * k + x, by
    rw [Nat.mul_assoc, Nat.mul_assoc]
    exact place_lt i x⟩

theorem block_eq {k : Nat} (i : Fin n) (x : Fin (m * k)) :
    block i x = Fin.cast (Nat.mul_assoc n m k).symm (place i x) := by
  apply Fin.ext
  exact congrArg (· + (x : Nat)) (Nat.mul_assoc _ _ _)

theorem block_inj {k : Nat} {i i' : Fin n} {x x' : Fin (m * k)} :
    block i x = block i' x' ↔ i = i' ∧ x = x' := by
  rw [block_eq, block_eq, Fin.cast_inj, place_inj]

theorem exists_block {k : Nat} (y : Fin (n * m * k)) : ∃ i x, block (m := m) (k := k) i x = y := by
  obtain ⟨i, x, h⟩ := exists_place (Fin.cast (Nat.mul_assoc n m k) y)
  exact ⟨i, x, by rw [block_eq, h, Fin.cast_cast, Fin.cast_eq_self]⟩

end CountedLoop
