import Mathlib

/-!
# Slabs

A slab is a list of slots, each of which is empty or holds a value, with a stack of empty
slots to be used again. A value is named by the number of its slot: `alloc` takes a slot,
`release` empties one, and `retain` empties every slot that is not to be kept. In a
`WellFormed` slab a slot on the stack is empty, so an allocation overwrites nothing.
-/

structure Slab (T : Type) where
  slots : List (Option T)
  /-- The stack of empty slots; its top is the end of the list. -/
  freeIds : List Nat
deriving DecidableEq

namespace Slab

variable {T U : Type}

def empty : Slab T := ⟨[], []⟩

def get (s : Slab T) (id : Nat) : Option T := (s.slots[id]?).join

/-- Write a slot. -/
def put (s : Slab T) (id : Nat) (t : T) : Slab T := { s with slots := s.slots.set id (some t) }

/-- Take a slot for a value. -/
def alloc (s : Slab T) (t : T) : Nat × Slab T :=
  match s.freeIds.getLast? with
  | some id => (id, ⟨s.slots.set id (some t), s.freeIds.dropLast⟩)
  | none => (s.slots.length, { s with slots := s.slots ++ [some t] })

/-- Empty a slot. -/
def release (s : Slab T) (id : Nat) : Slab T := ⟨s.slots.set id none, s.freeIds ++ [id]⟩

/-- The loop of `retain` over the slots from `id` on. -/
def retainLoop (keep : List Nat) :
    Nat → List (Option T) → List Nat → List (Option T) × List Nat
  | _, [], freeIds => ([], freeIds)
  | id, slot :: slots, freeIds =>
    if id ∈ keep ∨ slot.isNone then
      (slot :: (retainLoop keep (id + 1) slots freeIds).1,
        (retainLoop keep (id + 1) slots freeIds).2)
    else
      (none :: (retainLoop keep (id + 1) slots (freeIds ++ [id])).1,
        (retainLoop keep (id + 1) slots (freeIds ++ [id])).2)

/-- Empty every slot but those of `keep`. -/
def retain (s : Slab T) (keep : List Nat) : Slab T :=
  ⟨(retainLoop keep 0 s.slots s.freeIds).1, (retainLoop keep 0 s.slots s.freeIds).2⟩

/-- Apply `f` to every value. -/
def map (f : T → U) (s : Slab T) : Slab U := ⟨s.slots.map (Option.map f), s.freeIds⟩

/-- Every slot on the stack is empty, and it is there once. -/
structure WellFormed (s : Slab T) : Prop where
  nodup : s.freeIds.Nodup
  free : ∀ id ∈ s.freeIds, s.slots[id]? = some none

section Slots

variable {s : Slab T} {t : T} {id j : Nat} {keep : List Nat}

theorem get_eq_some : s.get id = some t ↔ s.slots[id]? = some (some t) := Option.join_eq_some_iff

theorem lt_length (h : s.get id = some t) : id < s.slots.length :=
  (List.getElem?_eq_some_iff.mp (get_eq_some.mp h)).1

/-- What a slot that is written reads afterwards. -/
theorem getElem?_set_join {slots : List (Option T)} (h : id < slots.length) (slot : Option T)
    (j : Nat) : ((slots.set id slot)[j]?).join = if j = id then slot else (slots[j]?).join := by
  rw [List.getElem?_set]
  by_cases hj : id = j
  · subst hj
    rw [if_pos rfl, if_pos h, if_pos rfl]
    rfl
  · rw [if_neg hj, if_neg (Ne.symm hj)]

theorem get_put (h : id < s.slots.length) (t : T) (j : Nat) :
    (s.put id t).get j = if j = id then some t else s.get j :=
  getElem?_set_join h (some t) j

/-- Writing back what a slot holds. -/
theorem put_self (h : s.get id = some t) : s.put id t = s := by
  unfold put
  obtain ⟨hlt, heq⟩ := List.getElem?_eq_some_iff.mp (get_eq_some.mp h)
  rw [← heq, List.set_getElem_self hlt]

theorem get_release (h : id < s.slots.length) (j : Nat) :
    (s.release id).get j = if j = id then none else s.get j :=
  getElem?_set_join h none j

namespace WellFormed

theorem empty : (empty : Slab T).WellFormed := ⟨List.nodup_nil, by simp [Slab.empty]⟩

/-- A slot with a value is not on the stack. -/
theorem not_free (h : s.WellFormed) (hget : s.get id = some t) : id ∉ s.freeIds := by
  intro hin
  rw [get_eq_some, h.free id hin] at hget
  cases hget

theorem put (h : s.WellFormed) (hget : s.get id = some t) (t' : T) :
    (s.put id t').WellFormed where
  nodup := h.nodup
  free := by
    intro j hj
    have hne : id ≠ j := by
      rintro rfl
      exact h.not_free hget hj
    exact (List.getElem?_set_ne hne).trans (h.free j hj)

/-- The slot on top of the stack. -/
theorem top (h : s.WellFormed) (hlast : s.freeIds.getLast? = some id) :
    id < s.slots.length ∧ s.get id = none ∧ id ∉ s.freeIds.dropLast := by
  have hmem := List.mem_of_getLast? hlast
  have hslot := h.free id hmem
  refine ⟨(List.getElem?_eq_some_iff.mp hslot).1, ?_, ?_⟩
  · unfold Slab.get
    rw [hslot]
    rfl
  · have hnodup := h.nodup
    rw [← List.dropLast_append_getLast? id hlast, List.nodup_append] at hnodup
    intro hin
    exact hnodup.2.2 id hin id (List.mem_singleton_self id) rfl

/-- The slot that is taken is empty. -/
theorem alloc_fresh (h : s.WellFormed) (t : T) : s.get (s.alloc t).1 = none := by
  unfold Slab.alloc
  cases hlast : s.freeIds.getLast? with
  | none =>
    unfold Slab.get
    simp
  | some id => exact (h.top hlast).2.1

theorem get_alloc (h : s.WellFormed) (t : T) (j : Nat) :
    (s.alloc t).2.get j = if j = (s.alloc t).1 then some t else s.get j := by
  unfold Slab.alloc
  cases hlast : s.freeIds.getLast? with
  | none =>
    unfold Slab.get
    dsimp only
    rcases Nat.lt_trichotomy j s.slots.length with hj | hj | hj
    · rw [List.getElem?_append_left hj, if_neg (by omega)]
    · subst hj
      simp
    · rw [if_neg (by omega), List.getElem?_eq_none (by simp; omega),
        List.getElem?_eq_none (by omega)]
  | some id => exact getElem?_set_join (h.top hlast).1 (some t) j

theorem alloc (h : s.WellFormed) (t : T) : (s.alloc t).2.WellFormed := by
  unfold Slab.alloc
  cases hlast : s.freeIds.getLast? with
  | none =>
    refine ⟨h.nodup, ?_⟩
    intro j hj
    have hslot := h.free j hj
    exact (List.getElem?_append_left (List.getElem?_eq_some_iff.mp hslot).1).trans hslot
  | some id =>
    refine ⟨h.nodup.sublist (List.dropLast_sublist _), ?_⟩
    intro j hj
    have hne : id ≠ j := by
      rintro rfl
      exact (h.top hlast).2.2 hj
    exact (List.getElem?_set_ne hne).trans (h.free j (List.dropLast_subset _ hj))

theorem release (h : s.WellFormed) (hget : s.get id = some t) : (s.release id).WellFormed where
  nodup := by
    refine List.nodup_append.mpr ⟨h.nodup, List.nodup_singleton id, ?_⟩
    intro j hj k hk hjk
    rw [List.mem_singleton.mp hk] at hjk
    exact h.not_free hget (hjk ▸ hj)
  free := by
    intro j hj
    by_cases hji : id = j
    · subst hji
      exact List.getElem?_set_self (lt_length hget)
    · refine (List.getElem?_set_ne hji).trans (h.free j ?_)
      rcases List.mem_append.mp hj with hj | hj
      · exact hj
      · exact absurd (List.mem_singleton.mp hj).symm hji

end WellFormed

/-! ### `retain` -/

theorem retainLoop_slots (keep : List Nat) (id : Nat) (slots : List (Option T))
    (freeIds : List Nat) (j : Nat) : (retainLoop keep id slots freeIds).1[j]? =
      (slots[j]?).map fun slot => if id + j ∈ keep then slot else none := by
  induction slots generalizing id freeIds j with
  | nil => rfl
  | cons slot slots ih =>
    rw [retainLoop]
    split
    · rename_i hkeep
      cases j with
      | zero =>
        rcases hkeep with hkeep | hnone
        · simp [hkeep]
        · simp [Option.isNone_iff_eq_none.mp hnone]
      | succ j =>
        rw [List.getElem?_cons_succ, List.getElem?_cons_succ, ih, Nat.succ_add_eq_add_succ]
    · rename_i hkeep
      cases j with
      | zero => simp [(not_or.mp hkeep).1]
      | succ j =>
        rw [List.getElem?_cons_succ, List.getElem?_cons_succ, ih, Nat.succ_add_eq_add_succ]

theorem get_retain (s : Slab T) (keep : List Nat) (j : Nat) :
    (s.retain keep).get j = if j ∈ keep then s.get j else none := by
  unfold get retain
  rw [retainLoop_slots, Nat.zero_add]
  cases s.slots[j]? with
  | none => split <;> rfl
  | some slot => split <;> rfl

/-- The slots that the loop empties. -/
theorem retainLoop_freeIds (keep : List Nat) (id : Nat) (slots : List (Option T))
    (freeIds : List Nat) : ∃ emptied, (retainLoop keep id slots freeIds).2 = freeIds ++ emptied ∧
      emptied.Pairwise (· < ·) ∧ ∀ i ∈ emptied, ∃ j t, i = id + j ∧ slots[j]? = some (some t) ∧
        i ∉ keep := by
  induction slots generalizing id freeIds with
  | nil => exact ⟨[], (List.append_nil _).symm, .nil, by simp⟩
  | cons slot slots ih =>
    rw [retainLoop]
    split
    · obtain ⟨emptied, heq, hsorted, hall⟩ := ih (id + 1) freeIds
      refine ⟨emptied, heq, hsorted, fun i hi => ?_⟩
      obtain ⟨j, t, hij, hslot, hkeep⟩ := hall i hi
      exact ⟨j + 1, t, by omega, hslot, hkeep⟩
    · rename_i hor
      obtain ⟨hkeep, hsome⟩ := not_or.mp hor
      obtain ⟨t, rfl⟩ := Option.ne_none_iff_exists'.mp
        fun hnone => hsome (Option.isNone_iff_eq_none.mpr hnone)
      obtain ⟨emptied, heq, hsorted, hall⟩ := ih (id + 1) (freeIds ++ [id])
      refine ⟨id :: emptied, by rw [heq, List.append_assoc]; rfl, ?_, fun i hi => ?_⟩
      · refine List.pairwise_cons.mpr ⟨fun i hi => ?_, hsorted⟩
        obtain ⟨j, t, hij, _⟩ := hall i hi
        omega
      · rcases List.mem_cons.mp hi with rfl | hi
        · exact ⟨0, t, rfl, rfl, hkeep⟩
        · obtain ⟨j, t, hij, hslot, hkeep⟩ := hall i hi
          exact ⟨j + 1, t, by omega, hslot, hkeep⟩

theorem WellFormed.retain (h : s.WellFormed) (keep : List Nat) : (s.retain keep).WellFormed := by
  obtain ⟨emptied, heq, hsorted, hall⟩ := retainLoop_freeIds keep 0 s.slots s.freeIds
  constructor
  · change (retainLoop keep 0 s.slots s.freeIds).2.Nodup
    rw [heq]
    refine List.nodup_append.mpr ⟨h.nodup, hsorted.imp Nat.ne_of_lt, ?_⟩
    intro i hi j hj hij
    obtain ⟨k, t, hk, hslot, _⟩ := hall j hj
    have hfree := h.free i hi
    rw [hij, hk, Nat.zero_add, hslot] at hfree
    cases hfree
  · intro i hi
    change i ∈ (retainLoop keep 0 s.slots s.freeIds).2 at hi
    change (retainLoop keep 0 s.slots s.freeIds).1[i]? = some none
    rw [heq] at hi
    rw [retainLoop_slots, Nat.zero_add]
    rcases List.mem_append.mp hi with hi | hi
    · rw [h.free i hi]
      simp
    · obtain ⟨j, t, hj, hslot, hkeep⟩ := hall i hi
      rw [Nat.zero_add] at hj
      subst hj
      rw [hslot, Option.map_some, if_neg hkeep]

/-! ### `map` -/

theorem get_map (f : T → U) (s : Slab T) (id : Nat) : (s.map f).get id = (s.get id).map f := by
  unfold get map
  rw [List.getElem?_map]
  cases s.slots[id]? with
  | none => rfl
  | some slot => rfl

theorem put_map (f : T → U) (s : Slab T) (id : Nat) (t : T) :
    (s.put id t).map f = (s.map f).put id (f t) := by
  unfold put map
  rw [List.map_set]
  rfl

theorem release_map (f : T → U) (s : Slab T) (id : Nat) :
    (s.release id).map f = (s.map f).release id := by
  unfold release map
  rw [List.map_set]
  rfl

theorem alloc_map (f : T → U) (s : Slab T) (t : T) :
    (s.map f).alloc (f t) = ((s.alloc t).1, (s.alloc t).2.map f) := by
  unfold alloc map
  dsimp only
  cases s.freeIds.getLast? with
  | none => simp
  | some id => simp

theorem retain_map (f : T → U) (s : Slab T) (keep : List Nat) :
    (s.retain keep).map f = (s.map f).retain keep := by
  have hloop : ∀ (id : Nat) (slots : List (Option T)) (freeIds : List Nat),
      retainLoop keep id (slots.map (Option.map f)) freeIds =
        ((retainLoop keep id slots freeIds).1.map (Option.map f),
          (retainLoop keep id slots freeIds).2) := by
    intro id slots
    induction slots generalizing id with
    | nil => exact fun _ => rfl
    | cons slot slots ih =>
      intro freeIds
      rw [List.map_cons, retainLoop, retainLoop]
      have hnone : (slot.map f).isNone = slot.isNone := by
        cases slot <;> rfl
      rw [hnone, ih, ih]
      split <;> rfl
  unfold retain map
  dsimp only
  rw [hloop]

end Slots

end Slab
