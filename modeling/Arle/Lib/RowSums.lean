import Mathlib

/-!
# Sums of rows

A matrix is a list of rows. `addRows writes m` adds each of the rows that are written to the row
of `m` with its index, one after the other; from a matrix of zeros this gives the sums of the
rows written to each index (`getElem?_addRows`). `perm_flatMap_filter` puts a list together from
its parts with one key each.
-/

section

variable {α κ : Type}

/-- The parts of a list with one key each, in any order of the keys, make up the list. -/
theorem perm_flatMap_filter [DecidableEq κ] (key : α → κ) {keys : List κ} (hnodup : keys.Nodup)
    {items : List α} (hkeys : ∀ a ∈ items, key a ∈ keys) :
    (keys.flatMap fun k => items.filter fun a => key a = k).Perm items := by
  induction keys generalizing items with
  | nil =>
    rw [List.eq_nil_iff_forall_not_mem.mpr fun a ha => List.not_mem_nil (hkeys a ha)]
    exact List.Perm.refl _
  | cons k keys ih =>
    obtain ⟨hk, hnodup⟩ := List.nodup_cons.mp hnodup
    rw [List.flatMap_cons]
    -- the items without the key `k` are put together by the other keys
    have hothers : ∀ a ∈ items.filter (fun a => ¬ key a = k), key a ∈ keys := by
      intro a ha
      obtain ⟨hin, hne⟩ := List.mem_filter.mp ha
      exact (List.mem_cons.mp (hkeys a hin)).resolve_left (of_decide_eq_true hne)
    have hrest := ih hnodup hothers
    have hsame : (keys.flatMap fun k' => (items.filter fun a => ¬ key a = k).filter
        fun a => key a = k') = keys.flatMap fun k' => items.filter fun a => key a = k' := by
      refine List.flatMap_congr fun k' hk' => ?_
      rw [List.filter_filter]
      refine List.filter_congr fun a _ => ?_
      have hne : key a = k' → ¬ key a = k := fun h h' => hk (h' ▸ h ▸ hk')
      by_cases hkey : key a = k'
      · simp only [hkey, decide_true, Bool.true_and]
        exact decide_eq_true (hkey ▸ hne hkey)
      · simp only [hkey, decide_false, Bool.false_and]
    rw [hsame] at hrest
    refine (List.Perm.append_left _ hrest).trans ?_
    have := List.filter_append_perm (fun a => decide (key a = k)) items
    simpa only [decide_not] using this

end

section

variable {R : Type} [AddCommMonoid R]

/-- The entry `j` of a row, or zero. -/
def entry (row : List R) (j : Nat) : R := row.getD j 0

/-- Add the rows to the rows with their indices. -/
def addRows (writes : List (Nat × List R)) (m : List (List R)) : List (List R) :=
  writes.foldl (fun m write => m.modify write.1 fun dst => List.zipWith (· + ·) dst write.2) m

/-- A matrix of `n` rows of `d` entries. -/
structure IsMatrix (n d : Nat) (m : List (List R)) : Prop where
  rows : m.length = n
  cols : ∀ row ∈ m, row.length = d

namespace IsMatrix

variable {n d i j : Nat} {m : List (List R)}

theorem zeros (n d : Nat) : IsMatrix n d (List.replicate n (List.replicate d (0 : R))) where
  rows := List.length_replicate
  cols := by
    intro row hrow
    rw [List.eq_of_mem_replicate hrow, List.length_replicate]

theorem addRow (h : IsMatrix n d m) {src : List R} (hsrc : src.length = d) (k : Nat) :
    IsMatrix n d (m.modify k fun dst => List.zipWith (· + ·) dst src) where
  rows := by rw [List.length_modify, h.rows]
  cols := by
    intro row hrow
    obtain ⟨i, hi⟩ := List.mem_iff_getElem?.mp hrow
    rw [List.getElem?_modify] at hi
    obtain ⟨row', hrow', rfl⟩ := Option.map_eq_some_iff.mp hi
    have hlen := h.cols row' (List.mem_of_getElem? hrow')
    split
    · rw [List.length_zipWith, hlen, hsrc, Nat.min_self]
    · exact hlen

theorem addRows (h : IsMatrix n d m) {writes : List (Nat × List R)}
    (hwrites : ∀ write ∈ writes, write.2.length = d) : IsMatrix n d (addRows writes m) := by
  induction writes generalizing m with
  | nil => exact h
  | cons write writes ih =>
    exact ih (h.addRow (hwrites write List.mem_cons_self) write.1)
      fun w hw => hwrites w (List.mem_cons_of_mem _ hw)

end IsMatrix

theorem entry_zipWith {dst src : List R} (hlen : dst.length = src.length) (j : Nat) :
    entry (List.zipWith (· + ·) dst src) j = entry dst j + entry src j := by
  unfold entry
  simp only [List.getD_eq_getElem?_getD, List.getElem?_zipWith]
  by_cases hj : j < dst.length
  · rw [List.getElem?_eq_getElem hj, List.getElem?_eq_getElem (hlen ▸ hj)]
    rfl
  · rw [List.getElem?_eq_none (Nat.le_of_not_lt hj),
      List.getElem?_eq_none (hlen ▸ Nat.le_of_not_lt hj)]
    exact (add_zero 0).symm

theorem entry_addRows {n d : Nat} {m : List (List R)} (h : IsMatrix n d m)
    {writes : List (Nat × List R)} (hwrites : ∀ write ∈ writes, write.2.length = d) {i : Nat}
    (hi : i < n) (j : Nat) : entry ((addRows writes m).getD i []) j = entry (m.getD i []) j +
      ((writes.filter fun write => write.1 = i).map fun write => entry write.2 j).sum := by
  induction writes generalizing m with
  | nil => exact (add_zero _).symm
  | cons write writes ih =>
    have hlen := hwrites write List.mem_cons_self
    have hrow : ∃ row, m[i]? = some row ∧ row.length = d := by
      have hlt : i < m.length := h.rows.symm ▸ hi
      exact ⟨_, List.getElem?_eq_getElem hlt, h.cols _ (List.getElem_mem hlt)⟩
    obtain ⟨row, hrow, hrowlen⟩ := hrow
    rw [addRows, List.foldl_cons]
    refine (ih (h.addRow hlen write.1) fun w hw =>
      hwrites w (List.mem_cons_of_mem _ hw)).trans ?_
    rw [List.getD_eq_getElem?_getD, List.getElem?_modify, hrow, List.getD_eq_getElem?_getD, hrow]
    simp only [Option.map_eq_map, Option.map_some, Option.getD_some]
    by_cases hkey : write.1 = i
    · rw [if_pos hkey, List.filter_cons_of_pos (by simpa using hkey), List.map_cons,
        List.sum_cons, entry_zipWith (by rw [hrowlen, hlen]), add_assoc]
    · rw [if_neg hkey, List.filter_cons_of_neg (by simpa using hkey)]

/-- The rows written to a matrix of zeros are summed up by their indices. -/
theorem getElem?_addRows {n d : Nat} {writes : List (Nat × List R)}
    (hwrites : ∀ write ∈ writes, write.2.length = d) {i : Nat} (hi : i < n) : ∃ row,
    (addRows writes (List.replicate n (List.replicate d 0)))[i]? = some row ∧ row.length = d ∧
      ∀ j, entry row j =
        ((writes.filter fun write => write.1 = i).map fun write => entry write.2 j).sum := by
  have hzeros := IsMatrix.zeros (R := R) n d
  have hmatrix := hzeros.addRows hwrites
  have hlt := hmatrix.rows.symm ▸ hi
  refine ⟨_, List.getElem?_eq_getElem hlt, hmatrix.cols _ (List.getElem_mem hlt), fun j => ?_⟩
  have hentry := entry_addRows hzeros hwrites hi j
  rw [List.getD_eq_getElem _ _ hlt, List.getD_replicate _ hi] at hentry
  rw [hentry]
  have hzero : entry (List.replicate d (0 : R)) j = 0 := by
    unfold entry
    rw [List.getD_eq_getElem?_getD, List.getElem?_replicate]
    split <;> rfl
  rw [hzero, zero_add]

end
