import Mathlib

/-!
# Least elements by a comparison

`minBy cmp l` is the first of the least elements of `l`, and `sortBy cmp l` the stable sort. The
comparisons are those of a key in a linear order.
-/

/-- The first least element. -/
def minBy {α : Type*} (cmp : α → α → Ordering) : List α → Option α
  | [] => none
  | a :: l => some (l.foldl (fun least b => if cmp least b = .gt then b else least) a)

/-- The stable sort. -/
def sortBy {α : Type*} (cmp : α → α → Ordering) (l : List α) : List α :=
  l.insertionSort fun a b => (cmp a b).isLE

section

variable {α κ : Type*} [LinearOrder κ] {cmp : α → α → Ordering} {key : α → κ} {l : List α}
  {a b : α}

theorem minBy_cons (cmp : α → α → Ordering) (a b : α) (l : List α) :
    minBy cmp (a :: b :: l) = minBy cmp ((if cmp a b = .gt then b else a) :: l) := rfl

theorem minBy_ne_none (cmp : α → α → Ordering) (h : l ≠ []) : ∃ a, minBy cmp l = some a := by
  cases l with
  | nil => exact absurd rfl h
  | cons a l => exact ⟨_, rfl⟩

theorem minBy_mem (h : minBy cmp l = some a) : a ∈ l := by
  induction l with
  | nil => cases h
  | cons c l ih =>
    clear ih
    induction l generalizing c with
    | nil =>
      cases h
      exact List.mem_cons_self
    | cons d l ih =>
      rw [minBy_cons] at h
      rcases List.mem_cons.mp (ih _ h) with heq | hmem
      · rw [heq]
        split
        · exact List.mem_cons_of_mem _ List.mem_cons_self
        · exact List.mem_cons_self
      · exact List.mem_cons_of_mem _ (List.mem_cons_of_mem _ hmem)

/-- No element has a smaller key. -/
theorem minBy_le (key : α → κ) (hcmp : ∀ a b, cmp a b = compare (key a) (key b))
    (h : minBy cmp l = some a) (hb : b ∈ l) : key a ≤ key b := by
  cases l with
  | nil => cases hb
  | cons c l =>
    induction l generalizing b c with
    | nil =>
      cases h
      exact le_of_eq (congrArg key (List.mem_singleton.mp hb).symm)
    | cons d l ih =>
      rw [minBy_cons] at h
      have hle : key (if cmp c d = .gt then d else c) ≤ key c ∧
          key (if cmp c d = .gt then d else c) ≤ key d := by
        rw [hcmp]
        split
        · rename_i hgt
          exact ⟨(compare_gt_iff_gt.mp hgt).le, le_refl _⟩
        · rename_i hle
          exact ⟨le_refl _, not_lt.mp fun hlt => hle (compare_gt_iff_gt.mpr hlt)⟩
      have hhead := ih _ h List.mem_cons_self
      rcases List.mem_cons.mp hb with rfl | hb
      · exact hhead.trans hle.1
      · rcases List.mem_cons.mp hb with rfl | hb
        · exact hhead.trans hle.2
        · exact ih _ h (List.mem_cons_of_mem _ hb)

theorem sortBy_perm (cmp : α → α → Ordering) (l : List α) : (sortBy cmp l).Perm l :=
  List.perm_insertionSort _ l

theorem sortBy_pairwise (key : α → κ) (hcmp : ∀ a b, cmp a b = compare (key a) (key b))
    (l : List α) : (sortBy cmp l).Pairwise fun a b => key a ≤ key b := by
  have hrel (a b : α) : (cmp a b).isLE = true ↔ key a ≤ key b := by
    rw [hcmp]
    exact Ordering.ne_gt_iff_isLE.symm.trans compare_le_iff_le
  have htotal : Std.Total fun a b => (cmp a b).isLE = true :=
    ⟨fun a b => by simpa only [hrel] using le_total (key a) (key b)⟩
  have htrans : IsTrans α fun a b => (cmp a b).isLE = true :=
    ⟨fun a b c => by simpa only [hrel] using le_trans⟩
  have hsorted := List.pairwise_insertionSort (fun a b => (cmp a b).isLE = true) l
  exact hsorted.imp fun h => (hrel _ _).mp h

end
