import Arle.Lib.Assoc

/-!
# Counting tables

A table that maps a key to the number of times it occurs in a list, and has no entry for a key
that does not occur. `push` counts one occurrence more, `pop` one less, and `rename` moves the
occurrences of one key to another key.
-/

universe u

namespace Tally

variable {κ : Type u} [DecidableEq κ] {m : Assoc κ Nat} {l l' : List κ}

/-- The table `m` counts the occurrences in the list `l`. -/
def Counts (m : Assoc κ Nat) (l : List κ) : Prop :=
  ∀ k, m.lookup k = if l.count k = 0 then none else some (l.count k)

/-- The entry of `k` after one occurrence more. -/
def push (m : Assoc κ Nat) (k : κ) : Assoc κ Nat := m.insert k ((m.lookup k).getD 0 + 1)

/-- The entry of `k` after one occurrence less. -/
def pop (m : Assoc κ Nat) (k : κ) : Assoc κ Nat :=
  match m.lookup k with
  | none => m
  | some count => if count - 1 = 0 then m.erase k else m.insert k (count - 1)

/-- The entries after `count` occurrences of `old` were renamed to `new`. -/
def rename (m : Assoc κ Nat) (old new : κ) (count : Nat) : Assoc κ Nat :=
  (m.erase old).insert new (((m.erase old).lookup new).getD 0 + count)

theorem counts_empty : Counts (∅ : Assoc κ Nat) [] := by
  intro k
  rw [List.count_nil, if_pos rfl]
  rfl

theorem Counts.perm (h : Counts m l) (hl : l.Perm l') : Counts m l' := by
  intro k
  rw [← hl.count_eq k]
  exact h k

theorem Counts.getD (h : Counts m l) (k : κ) : (m.lookup k).getD 0 = l.count k := by
  rw [h k]
  split
  · rename_i hzero
    exact hzero.symm
  · rfl

theorem Counts.lookup_eq_none (h : Counts m l) {k : κ} : m.lookup k = none ↔ k ∉ l := by
  rw [h k, ← List.count_eq_zero]
  split <;> simp [*]

theorem Counts.lookup_eq_some (h : Counts m l) {k : κ} {n : Nat} (hk : m.lookup k = some n) :
    n = l.count k := by
  rw [← h.getD k, hk, Option.getD_some]

theorem Counts.push (h : Counts m l) (k : κ) : Counts (push m k) (k :: l) := by
  intro j
  rw [Tally.push, Assoc.lookup_insert_eq, h.getD]
  by_cases hj : j = k
  · rw [hj, if_pos rfl, List.count_cons_self, if_neg (Nat.succ_ne_zero _)]
  · rw [if_neg hj, List.count_cons_of_ne (Ne.symm hj)]
    exact h j

theorem Counts.pop {k : κ} (h : Counts m (k :: l)) : Counts (pop m k) l := by
  intro j
  have hk := h k
  rw [List.count_cons_self, if_neg (Nat.succ_ne_zero _)] at hk
  have hj := h j
  simp only [Tally.pop, hk, Nat.add_sub_cancel]
  by_cases hjk : j = k
  · rw [hjk]
    split
    · rw [Assoc.lookup_erase_eq, if_pos rfl]
    · rw [Assoc.lookup_insert_eq, if_pos rfl]
  · rw [List.count_cons_of_ne (Ne.symm hjk)] at hj
    split
    · rw [Assoc.lookup_erase_eq, if_neg hjk, hj]
    · rw [Assoc.lookup_insert_eq, if_neg hjk, hj]

theorem count_map_rename (l : List κ) (old new k : κ) :
    (l.map fun x => if x = old then new else x).count k =
      if k = new then (if old = new then 0 else l.count old) + l.count new
      else if k = old then 0 else l.count k := by
  induction l with
  | nil => simp
  | cons x l ih =>
    rw [List.map_cons, List.count_cons, ih]
    simp only [List.count_cons, beq_iff_eq]
    grind

theorem Counts.rename (h : Counts m l) {old : κ} {count : Nat} (hold : m.lookup old = some count)
    (new : κ) :
    Counts (rename m old new count) (l.map fun x => if x = old then new else x) := by
  have hcount := h.lookup_eq_some hold
  have hpos : count ≠ 0 := by
    rintro rfl
    have hin := h old
    rw [hold, ← hcount, if_pos rfl] at hin
    cases hin
  intro k
  rw [Tally.rename, Assoc.lookup_insert_eq, Assoc.lookup_erase_eq, Assoc.lookup_erase_eq,
    count_map_rename]
  by_cases hk : k = new
  · simp only [hk, if_true]
    by_cases hnew : new = old
    · subst hnew
      rw [if_pos rfl, if_pos rfl, Option.getD_none, Nat.zero_add, Nat.zero_add, ← hcount,
        if_neg hpos]
    · rw [if_neg hnew, if_neg (Ne.symm hnew), h.getD, ← hcount, if_neg (by omega), Nat.add_comm]
  · simp only [hk, if_false]
    by_cases hkold : k = old
    · simp [hkold]
    · rw [if_neg hkold, if_neg hkold]
      exact h k

end Tally
