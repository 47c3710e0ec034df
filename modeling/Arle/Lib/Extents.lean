import Mathlib

/-!
# Extents of a linear space

An extent is a half-open interval of offsets. `Tiles L n` says that the extents in `L` cut
the space below `n` into disjoint pieces that are not empty. The rules are the moves of an
allocator: reorder the pieces, cut a piece in two, put a piece at the end, and take the
piece at the end away.
-/

/-- The offsets from `offset` up to `offset + len`. -/
structure Extent where
  offset : Nat
  len : Nat
deriving DecidableEq, Repr

namespace Extent

/-- The first offset behind the extent. -/
def finish (e : Extent) : Nat := e.offset + e.len

/-- The two extents share no offset: one of them ends before the other one starts. -/
def Apart (a b : Extent) : Prop := a.finish ≤ b.offset ∨ b.finish ≤ a.offset

instance (a b : Extent) : Decidable (a.Apart b) := inferInstanceAs (Decidable (_ ∨ _))

theorem Apart.symm {a b : Extent} (h : a.Apart b) : b.Apart a := Or.symm h

theorem Apart.ne {a b : Extent} (h : a.Apart b) (ha : 0 < a.len) : a ≠ b := by
  rintro rfl
  rcases h with h | h <;> simp only [finish] at h <;> omega

/-- The sum of the lengths. -/
def total (L : List Extent) : Nat := (L.map len).sum

@[simp] theorem total_cons (e : Extent) (L : List Extent) : total (e :: L) = e.len + total L := by
  simp [total]

@[simp] theorem total_append (L M : List Extent) : total (L ++ M) = total L + total M := by
  simp [total]

theorem total_perm {L M : List Extent} (h : L.Perm M) : total L = total M :=
  (h.map len).sum_eq

end Extent

open Extent

/-- The extents cut the space below `n` into disjoint pieces. -/
structure Tiles (L : List Extent) (n : Nat) : Prop where
  nonempty : ∀ e ∈ L, 0 < e.len
  within : ∀ e ∈ L, e.finish ≤ n
  apart : L.Pairwise Apart
  covers : ∀ k, k < n → ∃ e ∈ L, e.offset ≤ k ∧ k < e.finish
  total_eq : total L = n

namespace Tiles

variable {L M : List Extent} {n : Nat} {e : Extent}

theorem nil : Tiles [] 0 := by
  refine ⟨?_, ?_, List.Pairwise.nil, ?_, rfl⟩
  · intro e he
    cases he
  · intro e he
    cases he
  · intro k hk
    omega

theorem perm (h : Tiles L n) (hp : L.Perm M) : Tiles M n where
  nonempty e he := h.nonempty e (hp.mem_iff.mpr he)
  within e he := h.within e (hp.mem_iff.mpr he)
  apart := (hp.pairwise_iff Apart.symm).mp h.apart
  covers k hk := by
    obtain ⟨e, he, hek⟩ := h.covers k hk
    exact ⟨e, hp.mem_iff.mp he, hek⟩
  total_eq := (total_perm hp).symm.trans h.total_eq

theorem nodup (h : Tiles L n) : L.Nodup :=
  h.apart.imp_of_mem fun ha _ hab => hab.ne (h.nonempty _ ha)

/-- Cut the first piece in two. -/
theorem split {a b : Extent} (h : Tiles (e :: L) n) (ha : a.offset = e.offset)
    (hb : b.offset = a.finish) (hlen : e.len = a.len + b.len) (ha0 : 0 < a.len)
    (hb0 : 0 < b.len) : Tiles (a :: b :: L) n := by
  have hafin : a.finish ≤ e.finish := by simp only [finish]; omega
  have hbfin : b.finish = e.finish := by simp only [finish] at hb ⊢; omega
  have hrest := List.pairwise_cons.mp h.apart
  refine ⟨?_, ?_, ?_, ?_, ?_⟩
  · intro x hx
    rcases List.mem_cons.mp hx with rfl | hx
    · exact ha0
    · rcases List.mem_cons.mp hx with rfl | hx
      · exact hb0
      · exact h.nonempty x (List.mem_cons_of_mem _ hx)
  · have hfin := h.within e List.mem_cons_self
    intro x hx
    rcases List.mem_cons.mp hx with rfl | hx
    · exact hafin.trans hfin
    · rcases List.mem_cons.mp hx with rfl | hx
      · exact hbfin.le.trans hfin
      · exact h.within x (List.mem_cons_of_mem _ hx)
  · -- both halves stay apart from whatever the whole was apart from
    have hhalf : ∀ x ∈ L, a.Apart x ∧ b.Apart x := by
      intro x hx
      have := hrest.1 x hx
      simp only [Apart, finish] at this hb ⊢
      omega
    refine List.pairwise_cons.mpr ⟨?_, List.pairwise_cons.mpr ⟨?_, hrest.2⟩⟩
    · intro x hx
      rcases List.mem_cons.mp hx with rfl | hx
      · exact Or.inl hb.ge
      · exact (hhalf x hx).1
    · intro x hx
      exact (hhalf x hx).2
  · intro k hk
    obtain ⟨x, hx, hxk⟩ := h.covers k hk
    rcases List.mem_cons.mp hx with rfl | hx
    · rcases Nat.lt_or_ge k a.finish with hka | hka
      · exact ⟨a, List.mem_cons_self, ha.le.trans hxk.1, hka⟩
      · exact ⟨b, by simp, hb.le.trans hka, hxk.2.trans_le hbfin.ge⟩
    · exact ⟨x, by simp [hx], hxk⟩
  · have := h.total_eq
    simp only [total_cons] at this ⊢
    omega

/-- Put a piece at the end of the space. -/
theorem push (h : Tiles L n) (he : e.offset = n) (h0 : 0 < e.len) :
    Tiles (e :: L) e.finish := by
  have hn : n ≤ e.finish := by simp only [finish]; omega
  refine ⟨?_, ?_, ?_, ?_, ?_⟩
  · intro x hx
    rcases List.mem_cons.mp hx with rfl | hx
    · exact h0
    · exact h.nonempty x hx
  · intro x hx
    rcases List.mem_cons.mp hx with rfl | hx
    · exact le_rfl
    · exact (h.within x hx).trans hn
  · refine List.pairwise_cons.mpr ⟨fun x hx => ?_, h.apart⟩
    exact Or.inr ((h.within x hx).trans he.ge)
  · intro k hk
    rcases Nat.lt_or_ge k n with hkn | hkn
    · obtain ⟨x, hx, hxk⟩ := h.covers k hkn
      exact ⟨x, List.mem_cons_of_mem _ hx, hxk⟩
    · exact ⟨e, List.mem_cons_self, he.le.trans hkn, hk⟩
  · simp only [total_cons, finish, h.total_eq, he]
    omega

/-- Take the piece at the end of the space away. -/
theorem pop (h : Tiles (e :: L) n) (he : e.finish = n) : Tiles L e.offset := by
  have hrest := List.pairwise_cons.mp h.apart
  have h0 := h.nonempty e List.mem_cons_self
  have hwithin : ∀ x ∈ L, x.finish ≤ e.offset := by
    intro x hx
    have hx0 := h.nonempty x (List.mem_cons_of_mem _ hx)
    have hxn := h.within x (List.mem_cons_of_mem _ hx)
    have := hrest.1 x hx
    simp only [Apart, finish] at this hxn he ⊢
    omega
  refine ⟨fun x hx => h.nonempty x (List.mem_cons_of_mem _ hx), hwithin, hrest.2, ?_, ?_⟩
  · intro k hk
    have hkn : k < n := by
      simp only [finish] at he
      omega
    obtain ⟨x, hx, hxk⟩ := h.covers k hkn
    rcases List.mem_cons.mp hx with rfl | hx
    · omega
    · exact ⟨x, hx, hxk⟩
  · have := h.total_eq
    simp only [total_cons, finish] at this he
    omega

/-- A part of the pieces is at most the space. -/
theorem total_le (h : Tiles (L ++ M) n) : total L ≤ n := by
  rw [← h.total_eq, total_append]
  omega

end Tiles

/-! ## Removal by swapping -/

section SwapRemove

variable {α : Type}

/-- Remove the element at `i` and put the last one in its place. -/
def swapRemove (l : List α) (i : Nat) : List α :=
  match l.getLast? with
  | some last => (l.set i last).dropLast
  | none => []

/-- The element and what remains are a rearrangement of the list. -/
theorem swapRemove_perm {l : List α} {i : Nat} {a : α} (h : l[i]? = some a) :
    l.Perm (a :: swapRemove l i) := by
  obtain ⟨l, last, rfl⟩ : ∃ l' last, l = l' ++ [last] := by
    rcases List.eq_nil_or_concat l with rfl | ⟨l', last, rfl⟩
    · simp at h
    · exact ⟨l', last, by simp⟩
  have hswap : swapRemove (l ++ [last]) i = ((l ++ [last]).set i last).dropLast := by
    simp [swapRemove]
  rw [hswap]
  rcases Nat.lt_or_ge i l.length with hi | hi
  · rw [List.getElem?_append_left hi] at h
    rw [List.set_append_left _ _ hi, List.dropLast_concat]
    obtain ⟨hlt, rfl⟩ := List.getElem?_eq_some_iff.mp h
    refine (List.perm_append_comm).trans ?_
    rw [List.singleton_append]
    -- the two lists agree but for the exchange of the element and the last one
    have hset := List.set_eq_take_append_cons_drop (l := l) (i := i) (a := last)
    rw [if_pos hi] at hset
    rw [hset]
    conv_lhs => rw [← List.take_append_drop i l, List.drop_eq_getElem_cons hlt]
    refine (List.Perm.cons last List.perm_middle).trans ?_
    refine (List.Perm.swap _ _ _).trans (List.Perm.cons _ ?_)
    exact List.perm_middle.symm
  · have hlen : i < (l ++ [last]).length := by
      obtain ⟨hlt, -⟩ := List.getElem?_eq_some_iff.mp h
      exact hlt
    have hi' : i = l.length := by
      simp only [List.length_append, List.length_singleton] at hlen
      omega
    subst hi'
    rw [List.getElem?_concat_length] at h
    cases h
    rw [List.set_append_right _ _ le_rfl]
    simp

end SwapRemove
