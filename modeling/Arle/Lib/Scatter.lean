import Mathlib

/-!
# Indexed writes

A loop nest, or a grid of threads, makes a list of writes: pairs of an index and a value. What
it writes at an index is the part of the list with that index, which is computed loop by loop;
an array is filled right at an index when that part is a single write.
-/

namespace Scatter

variable {α β : Type}

/-- Make the writes in an array of `n` elements that starts as `zero`. -/
def scatter (n : Nat) (zero : α) (writes : List (Nat × α)) : List α :=
  writes.foldl (fun out w => out.set w.1 w.2) (List.replicate n zero)

/-- The part of a list of items with a given key. -/
def itemsAt [DecidableEq β] (key : α → β) (b : β) (items : List α) : List α :=
  items.filter fun a => key a = b

section At

variable [DecidableEq β] {key : α → β} {b : β}

@[simp] theorem itemsAt_nil : itemsAt key b [] = [] := rfl

theorem itemsAt_cons_of_eq {a : α} {items : List α} (h : key a = b) :
    itemsAt key b (a :: items) = a :: itemsAt key b items :=
  List.filter_cons_of_pos (decide_eq_true h)

theorem itemsAt_cons_of_ne {a : α} {items : List α} (h : key a ≠ b) :
    itemsAt key b (a :: items) = itemsAt key b items :=
  List.filter_cons_of_neg (by simpa using h)

theorem itemsAt_append (xs ys : List α) :
    itemsAt key b (xs ++ ys) = itemsAt key b xs ++ itemsAt key b ys := List.filter_append xs ys

theorem itemsAt_eq_nil {items : List α} (h : ∀ a ∈ items, key a ≠ b) :
    itemsAt key b items = [] := by
  apply List.filter_eq_nil_iff.mpr
  intro a ha
  simpa using h a ha

/-- A loop in which only the round `i` touches the key. -/
theorem itemsAt_flatMap_range {n i : Nat} {f : Nat → List α} (hi : i < n)
    (h : ∀ j < n, j ≠ i → itemsAt key b (f j) = []) :
    itemsAt key b ((List.range n).flatMap f) = itemsAt key b (f i) := by
  induction n with
  | zero => exact absurd hi (Nat.not_lt_zero i)
  | succ n ih =>
    rw [List.range_succ, List.flatMap_append, itemsAt_append, List.flatMap_singleton]
    rcases Nat.lt_succ_iff_lt_or_eq.mp hi with hlt | rfl
    · rw [ih hlt fun j hj hne => h j (Nat.lt_succ_of_lt hj) hne, h n (Nat.lt_succ_self n)
        (Nat.ne_of_gt hlt), List.append_nil]
    · have hnil : itemsAt key b ((List.range i).flatMap f) = [] := by
        apply itemsAt_eq_nil
        intro a ha hab
        obtain ⟨j, hj, haj⟩ := List.mem_flatMap.mp ha
        have hji := List.mem_range.mp hj
        have hmem : a ∈ itemsAt key b (f j) := List.mem_filter.mpr ⟨haj, decide_eq_true hab⟩
        rw [h j (Nat.lt_succ_of_lt hji) (Nat.ne_of_lt hji)] at hmem
        cases hmem
      rw [hnil, List.nil_append]

/-- A loop that makes one item a round, with a key of its own. -/
theorem itemsAt_map_range {n i : Nat} {f : Nat → α} (hi : i < n) (hkey : key (f i) = b)
    (h : ∀ j < n, key (f j) = b → j = i) : itemsAt key b ((List.range n).map f) = [f i] := by
  have hflat : (List.range n).map f = (List.range n).flatMap fun j => [f j] :=
    List.map_eq_flatMap
  rw [hflat, itemsAt_flatMap_range hi]
  · exact itemsAt_cons_of_eq hkey
  · intro j hj hne
    exact itemsAt_cons_of_ne fun hjb => hne (h j hj hjb)

end At

@[simp] theorem length_scatter (n : Nat) (zero : α) (writes : List (Nat × α)) :
    (scatter n zero writes).length = n := by
  unfold scatter
  induction writes using List.reverseRecOn with
  | nil => exact List.length_replicate
  | append_singleton ws w ih =>
    rw [List.foldl_append]
    simpa using ih

/-- The last write at an index stays. -/
theorem getElem?_scatter_of_getLast {n i : Nat} {zero v : α} {writes : List (Nat × α)}
    (hi : i < n) (h : (itemsAt Prod.fst i writes).getLast? = some (i, v)) :
    (scatter n zero writes)[i]? = some v := by
  induction writes using List.reverseRecOn with
  | nil => cases h
  | append_singleton ws w ih =>
    have hstep : scatter n zero (ws ++ [w]) = (scatter n zero ws).set w.1 w.2 := by
      unfold scatter
      rw [List.foldl_append]
      rfl
    rw [hstep]
    rw [itemsAt_append] at h
    by_cases hw : w.1 = i
    · rw [itemsAt_cons_of_eq hw, itemsAt_nil, List.getLast?_concat] at h
      cases h
      exact List.getElem?_set_self (by rwa [length_scatter])
    · rw [itemsAt_cons_of_ne hw, itemsAt_nil, List.append_nil] at h
      rw [List.getElem?_set_ne hw]
      exact ih h

/-- An index with a single write. -/
theorem getElem?_scatter {n i : Nat} {zero v : α} {writes : List (Nat × α)} (hi : i < n)
    (h : itemsAt Prod.fst i writes = [(i, v)]) : (scatter n zero writes)[i]? = some v := by
  apply getElem?_scatter_of_getLast hi
  rw [h]
  rfl

/-! ## Blocks of one length, one after another -/

theorem length_flatMap_range {m n : Nat} {f : Nat → List α} (hf : ∀ i < n, (f i).length = m) :
    ((List.range n).flatMap f).length = n * m := by
  have hmap : (List.range n).map (fun i => (f i).length) = (List.range n).map fun _ => m :=
    List.map_congr_left fun i hi => hf i (List.mem_range.mp hi)
  rw [List.length_flatMap, hmap, List.map_const', List.sum_replicate, List.length_range,
    smul_eq_mul]

theorem getElem?_flatMap_range {m n i e : Nat} {f : Nat → List α}
    (hf : ∀ i < n, (f i).length = m) (hi : i < n) (he : e < m) :
    ((List.range n).flatMap f)[i * m + e]? = (f i)[e]? := by
  induction n with
  | zero => exact absurd hi (Nat.not_lt_zero i)
  | succ n ih =>
    have hf' : ∀ i < n, (f i).length = m := fun i hi => hf i (Nat.lt_succ_of_lt hi)
    have hlen := length_flatMap_range hf'
    rw [List.range_succ, List.flatMap_append, List.flatMap_singleton]
    rcases Nat.lt_succ_iff_lt_or_eq.mp hi with hlt | rfl
    · have hin : i * m + e < n * m := by
        have := Nat.mul_le_mul_right m (Nat.succ_le_of_lt hlt)
        rw [Nat.succ_mul] at this
        omega
      rw [List.getElem?_append_left (by rwa [hlen])]
      exact ih hf' hlt
    · rw [List.getElem?_append_right (by omega), hlen, Nat.add_sub_cancel_left]

end Scatter
