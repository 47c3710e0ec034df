import Mathlib

/-!
# Two elements of a list in order

`InOrder a b l` says that `a` comes before `b` in `l`. Lists without repetitions have exactly one
order of two of their elements, and a list that is a part of another one has the order of the
whole. The insertion of an element before the first one that a test accepts keeps the order of
the rest.
-/

/-- `a` comes before `b`. -/
def InOrder {α : Type*} (a b : α) (l : List α) : Prop := [a, b].Sublist l

namespace InOrder

variable {α β : Type*} {a b c : α} {l m : List α}

theorem mono (h : InOrder a b l) (hsub : l.Sublist m) : InOrder a b m := List.Sublist.trans h hsub

theorem left_mem (h : InOrder a b l) : a ∈ l := h.subset List.mem_cons_self

theorem right_mem (h : InOrder a b l) : b ∈ l :=
  h.subset (List.mem_cons_of_mem a List.mem_cons_self)

theorem map (f : α → β) (h : InOrder a b l) : InOrder (f a) (f b) (l.map f) :=
  List.Sublist.map f h

theorem cons_iff : InOrder a b (c :: l) ↔ (a = c ∧ b ∈ l) ∨ InOrder a b l := by
  unfold InOrder
  constructor
  · intro h
    cases h with
    | cons _ h => exact .inr h
    | cons_cons _ h => exact .inl ⟨rfl, List.singleton_sublist.mp h⟩
  · rintro (⟨rfl, hb⟩ | h)
    · exact .cons_cons _ (List.singleton_sublist.mpr hb)
    · exact .cons _ h

theorem append (ha : a ∈ l) (hb : b ∈ m) : InOrder a b (l ++ m) := by
  unfold InOrder
  exact List.Sublist.append (List.singleton_sublist.mpr ha) (List.singleton_sublist.mpr hb)

theorem total (ha : a ∈ l) (hb : b ∈ l) (hne : a ≠ b) : InOrder a b l ∨ InOrder b a l := by
  induction l with
  | nil => cases ha
  | cons c l ih =>
    rcases List.mem_cons.mp ha with rfl | hal
    · rcases List.mem_cons.mp hb with rfl | hbl
      · exact absurd rfl hne
      · exact .inl (cons_iff.mpr (.inl ⟨rfl, hbl⟩))
    · rcases List.mem_cons.mp hb with rfl | hbl
      · exact .inr (cons_iff.mpr (.inl ⟨rfl, hal⟩))
      · rcases ih hal hbl with h | h
        · exact .inl (h.mono (List.sublist_cons_self c l))
        · exact .inr (h.mono (List.sublist_cons_self c l))

theorem asymm (hnodup : l.Nodup) (h : InOrder a b l) : ¬ InOrder b a l := by
  induction l with
  | nil => cases h
  | cons c l ih =>
    obtain ⟨hc, hl⟩ := List.nodup_cons.mp hnodup
    intro h'
    rcases cons_iff.mp h with ⟨rfl, hb⟩ | hl'
    · rcases cons_iff.mp h' with ⟨rfl, ha⟩ | hr'
      · exact hc ha
      · exact hc hr'.right_mem
    · rcases cons_iff.mp h' with ⟨rfl, ha⟩ | hr'
      · exact hc hl'.right_mem
      · exact ih hl hl' hr'

theorem ne (hnodup : l.Nodup) (h : InOrder a b l) : a ≠ b := by
  rintro rfl
  exact h.asymm hnodup h

/-- A part of a list has its order. -/
theorem restrict (hnodup : m.Nodup) (h : InOrder a b m) (hsub : l.Sublist m) (ha : a ∈ l)
    (hb : b ∈ l) : InOrder a b l := by
  rcases total ha hb (h.ne hnodup) with h' | h'
  · exact h'
  · exact absurd (h'.mono hsub) (h.asymm hnodup)

/-- Elements have the order of their images. -/
theorem of_map (f : α → β) (hnodup : (l.map f).Nodup) (h : InOrder (f a) (f b) (l.map f))
    (ha : a ∈ l) (hb : b ∈ l) : InOrder a b l := by
  have hne : a ≠ b := fun heq => h.ne hnodup (congrArg f heq)
  rcases total ha hb hne with h' | h'
  · exact h'
  · exact absurd (h'.map f) (h.asymm hnodup)

theorem exists_index (h : InOrder a b l) :
    ∃ i j : Nat, i < j ∧ l[i]? = some a ∧ l[j]? = some b := by
  induction l with
  | nil => cases h
  | cons c l ih =>
    rcases cons_iff.mp h with ⟨rfl, hb⟩ | h
    · obtain ⟨j, hj⟩ := List.mem_iff_getElem?.mp hb
      exact ⟨0, j + 1, Nat.succ_pos j, rfl, hj⟩
    · obtain ⟨i, j, hij, hi, hj⟩ := ih h
      exact ⟨i + 1, j + 1, Nat.succ_lt_succ hij, hi, hj⟩

/-- A search for two elements of a list finds the one in front. -/
theorem find?_eq [DecidableEq α] (hnodup : l.Nodup) (h : InOrder a b l) :
    l.find? (fun x => x = a || x = b) = some a := by
  induction l with
  | nil => cases h
  | cons c l ih =>
    obtain ⟨hc, hl⟩ := List.nodup_cons.mp hnodup
    rcases cons_iff.mp h with ⟨rfl, hb⟩ | h
    · simp
    · have hca : c ≠ a := fun heq => hc (heq ▸ h.left_mem)
      have hcb : c ≠ b := fun heq => hc (heq ▸ h.right_mem)
      rw [List.find?_cons_of_neg (by simp [hca, hcb])]
      exact ih hl h

/-! ## Insertion before the first accepted element -/

/-- Insert `a` before the first element that `p` accepts, or at the end. -/
def insertFirst (p : α → Bool) (a : α) (l : List α) : List α := l.insertIdx (l.findIdx p) a

variable {p : α → Bool}

theorem insertFirst_cons (p : α → Bool) (a b : α) (l : List α) :
    insertFirst p a (b :: l) = if p b then a :: b :: l else b :: insertFirst p a l := by
  unfold insertFirst
  rw [List.findIdx_cons]
  cases p b with
  | true => rfl
  | false => rfl

theorem insertFirst_perm (p : α → Bool) (a : α) (l : List α) :
    (insertFirst p a l).Perm (a :: l) := by
  induction l with
  | nil => exact .refl _
  | cons b l ih =>
    rw [insertFirst_cons]
    split
    · exact .refl _
    · exact (ih.cons b).trans (.swap a b l)

theorem sublist_insertFirst (p : α → Bool) (a : α) (l : List α) :
    l.Sublist (insertFirst p a l) := by
  induction l with
  | nil => exact List.nil_sublist _
  | cons b l ih =>
    rw [insertFirst_cons]
    split
    · exact List.sublist_cons_self a _
    · exact ih.cons_cons b

/-- The new element comes before those that are accepted. -/
theorem insertFirst_before (hb : b ∈ l) (hp : p b = true) :
    InOrder a b (insertFirst p a l) := by
  induction l with
  | nil => cases hb
  | cons c l ih =>
    rw [insertFirst_cons]
    split
    · exact cons_iff.mpr (.inl ⟨rfl, hb⟩)
    · rename_i hpc
      rcases List.mem_cons.mp hb with rfl | hb
      · exact absurd hp hpc
      · exact cons_iff.mpr (.inr (ih hb))

variable {κ : Type*} [LinearOrder κ] (key : α → κ)

/-- In a list with falling keys the new element stays behind those with at least its key, if the
test accepts only smaller ones. -/
theorem insertFirst_behind (hsorted : l.Pairwise fun x y => key y ≤ key x)
    (hp : ∀ x, p x = true → key x < key a) (hb : b ∈ l) (hkey : key a ≤ key b) :
    InOrder b a (insertFirst p a l) := by
  induction l with
  | nil => cases hb
  | cons c l ih =>
    obtain ⟨hc, hl⟩ := List.pairwise_cons.mp hsorted
    rw [insertFirst_cons]
    split
    · rename_i hpc
      -- The head is the largest, so it is not accepted.
      have hle : key b ≤ key c := by
        rcases List.mem_cons.mp hb with rfl | hb
        · exact le_refl _
        · exact hc b hb
      exact absurd (hp c hpc) (not_lt.mpr (hkey.trans hle))
    · rcases List.mem_cons.mp hb with rfl | hb
      · apply cons_iff.mpr
        exact .inl ⟨rfl, (insertFirst_perm p a l).symm.subset List.mem_cons_self⟩
      · exact cons_iff.mpr (.inr (ih hl hb))

/-- Keys that fall go on falling. -/
theorem insertFirst_sorted (hsorted : l.Pairwise fun x y => key y ≤ key x)
    (hp : ∀ x, p x = true → key x ≤ key a) (hp' : ∀ x, p x = false → key a ≤ key x) :
    (insertFirst p a l).Pairwise fun x y => key y ≤ key x := by
  induction l with
  | nil => exact List.pairwise_singleton _ _
  | cons c l ih =>
    obtain ⟨hc, hl⟩ := List.pairwise_cons.mp hsorted
    rw [insertFirst_cons]
    split
    · rename_i hpc
      refine List.pairwise_cons.mpr ⟨fun x hx => ?_, hsorted⟩
      rcases List.mem_cons.mp hx with rfl | hx
      · exact hp x hpc
      · exact (hc x hx).trans (hp c hpc)
    · rename_i hpc
      refine List.pairwise_cons.mpr ⟨fun x hx => ?_, ih hl⟩
      rcases List.mem_cons.mp ((insertFirst_perm p a l).subset hx) with rfl | hx
      · exact hp' c (by simpa using hpc)
      · exact hc x hx

end InOrder
