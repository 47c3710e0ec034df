import Mathlib

/-!
# Slices of a list

`slice l start stop` are the entries of a list from `start` to `stop`. Slices that follow one
another make up a slice, and a slice whose bounds are sums of the lengths of pieces is one of the
pieces.
-/

section

variable {α : Type} {l : List α} {a b c : Nat}

/-- The entries from `start` to `stop`. -/
def slice (l : List α) (start stop : Nat) : List α := (l.take stop).drop start

/-- An entry of a list that has grown at its end. -/
theorem getElem?_snoc {i : Nat} {x y : α} (h : (l ++ [x])[i]? = some y) :
    l[i]? = some y ∨ (i = l.length ∧ y = x) := by
  rcases Nat.lt_trichotomy i l.length with hlt | heq | hgt
  · rw [List.getElem?_append_left hlt] at h
    exact .inl h
  · rw [heq, List.getElem?_concat_length] at h
    exact .inr ⟨heq, (Option.some.inj h).symm⟩
  · rw [List.getElem?_eq_none (by simpa using hgt)] at h
    cases h

theorem length_slice (hb : b ≤ l.length) : (slice l a b).length = b - a := by
  rw [slice, List.length_drop, List.length_take, Nat.min_eq_left hb]

theorem slice_self (l : List α) (a : Nat) : slice l a a = [] :=
  List.drop_eq_nil_of_le (List.length_take_le a l)

theorem slice_length (l : List α) : slice l 0 l.length = l := by
  rw [slice, List.take_length, List.drop_zero]

theorem slice_append (hab : a ≤ b) (hbc : b ≤ c) :
    slice l a b ++ slice l b c = slice l a c := by
  unfold slice
  rw [List.drop_take, List.drop_take, List.drop_take]
  have hsplit : c - a = (b - a) + (c - b) := by omega
  rw [hsplit, List.take_add, List.drop_drop, Nat.add_sub_cancel' hab]

/-- Slices between cuts that do not decrease make up the slice from the first cut to the last. -/
theorem flatMap_slice {cut : Nat → Nat} (hcut : Monotone cut) (l : List α) (n : Nat) :
    (List.range n).flatMap (fun i => slice l (cut i) (cut (i + 1))) =
      slice l (cut 0) (cut n) := by
  induction n with
  | zero => exact (slice_self l _).symm
  | succ n ih =>
    rw [List.range_succ, List.flatMap_append, List.flatMap_singleton, ih]
    exact slice_append (hcut (Nat.zero_le n)) (hcut (Nat.le_succ n))

/-- The pieces of a list stand where their lengths say. -/
theorem slice_flatten (pieces : List (List α)) {i : Nat} (hi : i < pieces.length) :
    slice pieces.flatten ((pieces.map List.length).take i).sum
      ((pieces.map List.length).take (i + 1)).sum = pieces[i] :=
  List.drop_take_succ_flatten_eq_getElem pieces i hi

/-- Blocks of one length stand at its multiples. -/
theorem slice_flatMap_range {n m i : Nat} {f : Nat → List α} (hf : ∀ i < n, (f i).length = m)
    (hi : i < n) : slice ((List.range n).flatMap f) (i * m) ((i + 1) * m) = f i := by
  have hlens : ((List.range n).map f).map List.length = List.replicate n m := by
    rw [List.map_map, List.eq_replicate_iff]
    refine ⟨by rw [List.length_map, List.length_range], fun k hk => ?_⟩
    obtain ⟨j, hj, rfl⟩ := List.mem_map.mp hk
    exact hf j (List.mem_range.mp hj)
  have hsum (k : Nat) (hk : k ≤ n) : ((List.replicate n m).take k).sum = k * m := by
    rw [List.take_replicate, Nat.min_eq_left hk, List.sum_replicate, smul_eq_mul]
  have hpiece := slice_flatten ((List.range n).map f) (i := i)
    (by rwa [List.length_map, List.length_range])
  rw [hlens, hsum i (by omega), hsum (i + 1) hi, List.getElem_map, List.getElem_range] at hpiece
  rw [← hpiece, List.flatMap_def]

end
