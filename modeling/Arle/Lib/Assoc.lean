import Mathlib

/-!
# Finite maps

`Assoc κ β` is a finite map with an explicit list of entries, the model of a hash map
whose iteration order is never observed. It is Mathlib's `AList` at a constant family;
this file adds the operations an `AList` lacks: the list of values, the filter that
keeps the entries accepted by a test, and the update of every value.
-/

universe u v

/-- A finite map from `κ` to `β`. -/
abbrev Assoc (κ : Type u) (β : Type v) := AList (fun _ : κ => β)

namespace Assoc

variable {κ : Type u} {β : Type v}

/-- The values of the map, in the order of its entries. -/
def values (m : Assoc κ β) : List β := m.entries.map (fun e => e.2)

/-- Keep only the entries accepted by `p`. -/
def retain (m : Assoc κ β) (p : κ → β → Bool) : Assoc κ β where
  entries := m.entries.filter (fun e => p e.1 e.2)
  nodupKeys := m.nodupKeys.sublist List.filter_sublist

/-- Update every value by `f`. -/
def mapValues (m : Assoc κ β) (f : β → β) : Assoc κ β where
  entries := m.entries.map (fun e => ⟨e.1, f e.2⟩)
  nodupKeys := by
    have hkeys : (m.entries.map (fun e => (⟨e.1, f e.2⟩ : Sigma fun _ : κ => β))).keys =
        m.entries.keys := by
      simp [List.keys, Function.comp_def]
    rw [List.NodupKeys, hkeys]
    exact m.nodupKeys

section Lookup

variable [DecidableEq κ]

theorem lookup_eq_some {m : Assoc κ β} {k : κ} {v : β} :
    m.lookup k = some v ↔ (⟨k, v⟩ : Sigma fun _ : κ => β) ∈ m.entries := by
  simpa using AList.mem_lookup_iff (a := k) (b := v) (s := m)

theorem mem_values {m : Assoc κ β} {v : β} : v ∈ values m ↔ ∃ k, m.lookup k = some v := by
  constructor
  · intro h
    obtain ⟨e, he, rfl⟩ := List.mem_map.mp h
    exact ⟨e.1, lookup_eq_some.mpr he⟩
  · rintro ⟨k, hk⟩
    exact List.mem_map.mpr ⟨⟨k, v⟩, lookup_eq_some.mp hk, rfl⟩

theorem lookup_retain_eq_some {m : Assoc κ β} {p : κ → β → Bool} {k : κ} {v : β} :
    (m.retain p).lookup k = some v ↔ m.lookup k = some v ∧ p k v = true := by
  rw [lookup_eq_some, lookup_eq_some]
  exact List.mem_filter

theorem lookup_insert_eq (m : Assoc κ β) (k k' : κ) (v : β) :
    (m.insert k v).lookup k' = if k' = k then some v else m.lookup k' := by
  split
  · rename_i h
    rw [h, AList.lookup_insert]
  · rename_i h
    rw [AList.lookup_insert_ne h]

theorem lookup_erase_eq (m : Assoc κ β) (k k' : κ) :
    (m.erase k).lookup k' = if k' = k then none else m.lookup k' := by
  split
  · rename_i h
    rw [h, AList.lookup_erase]
  · rename_i h
    rw [AList.lookup_erase_ne h]

theorem lookup_mapValues (m : Assoc κ β) (f : β → β) (k : κ) :
    (m.mapValues f).lookup k = (m.lookup k).map f :=
  List.dlookup_map₂ (f := fun _ => f) k

theorem entries_erase_perm {m : Assoc κ β} {k : κ} {v : β} (h : m.lookup k = some v) :
    m.entries.Perm (⟨k, v⟩ :: (m.erase k).entries) := by
  have hk : k ∈ m.entries.keys := AList.lookup_isSome.mp (by rw [h]; rfl)
  obtain ⟨w, before, after, -, hentries, herase⟩ := List.exists_of_kerase hk
  obtain rfl : w = v := by
    have hw : m.lookup k = some w := by
      rw [lookup_eq_some, hentries]
      exact List.mem_append_right _ List.mem_cons_self
    exact Option.some.inj (hw.symm.trans h)
  change m.entries.Perm (⟨k, w⟩ :: List.kerase k m.entries)
  rw [hentries] at herase ⊢
  rw [herase]
  exact List.perm_middle

/-- Erasing a key takes its value out of the list of values. -/
theorem values_erase_perm {m : Assoc κ β} {k : κ} {v : β} (h : m.lookup k = some v) :
    (values m).Perm (v :: values (m.erase k)) :=
  (entries_erase_perm h).map _

theorem values_insert (m : Assoc κ β) (k : κ) (v : β) :
    values (m.insert k v) = v :: values (m.erase k) := rfl

theorem lookup_foldl_insert (keys : List κ) (m : Assoc κ β) (v : β) (k : κ) :
    (keys.foldl (fun m key => m.insert key v) m).lookup k =
      if k ∈ keys then some v else m.lookup k := by
  induction keys generalizing m with
  | nil => rfl
  | cons key keys ih =>
    rw [List.foldl_cons, ih, lookup_insert_eq]
    by_cases hk : k ∈ keys
    · rw [if_pos hk, if_pos (List.mem_cons_of_mem key hk)]
    · rw [if_neg hk]
      by_cases heq : k = key
      · rw [if_pos heq, if_pos (List.mem_cons.mpr (.inl heq))]
      · rw [if_neg heq, if_neg (fun h => (List.mem_cons.mp h).elim heq hk)]

theorem lookup_foldl_erase (keys : List κ) (m : Assoc κ β) (k : κ) :
    (keys.foldl (fun m key => m.erase key) m).lookup k =
      if k ∈ keys then none else m.lookup k := by
  induction keys generalizing m with
  | nil => rfl
  | cons key keys ih =>
    rw [List.foldl_cons, ih, lookup_erase_eq]
    by_cases hk : k ∈ keys
    · rw [if_pos hk, if_pos (List.mem_cons_of_mem key hk)]
    · rw [if_neg hk]
      by_cases heq : k = key
      · rw [if_pos heq, if_pos (List.mem_cons.mpr (.inl heq))]
      · rw [if_neg heq, if_neg (fun h => (List.mem_cons.mp h).elim heq hk)]

theorem erase_of_lookup_eq_none {m : Assoc κ β} {k : κ} (h : m.lookup k = none) :
    m.erase k = m := by
  refine AList.ext ?_
  exact List.kerase_of_notMem_keys (AList.lookup_eq_none.mp h)

section Sums

variable {γ : Type} {m : Assoc κ β} {k : κ} {v : β}

/-- The total of a quantity over the values. -/
theorem sum_values_erase (f : β → Nat) (h : m.lookup k = some v) :
    ((values m).map f).sum = f v + ((values (m.erase k)).map f).sum := by
  rw [((values_erase_perm h).map f).sum_eq, List.map_cons, List.sum_cons]

theorem sum_values_insert (f : β → Nat) (h : m.lookup k = none) :
    ((values (m.insert k v)).map f).sum = f v + ((values m).map f).sum := by
  rw [values_insert, erase_of_lookup_eq_none h, List.map_cons, List.sum_cons]

theorem sum_values_insert_le (f : β → Nat) :
    ((values (m.insert k v)).map f).sum ≤ f v + ((values m).map f).sum := by
  rw [values_insert, List.map_cons, List.sum_cons]
  apply Nat.add_le_add_left
  cases h : m.lookup k with
  | none => rw [erase_of_lookup_eq_none h]
  | some w => rw [sum_values_erase f h]; exact Nat.le_add_left _ _

/-- A map whose values are derived from those of another has at most its total. -/
theorem sum_values_le {m' : Assoc κ γ} (f : β → Nat) (g : γ → β)
    (h : ∀ k w, m'.lookup k = some w → m.lookup k = some (g w)) :
    ((values m').map fun w => f (g w)).sum ≤ ((values m).map f).sum := by
  let derived := m'.entries.map fun e => (⟨e.1, g e.2⟩ : Sigma fun _ : κ => β)
  have hnodup : derived.Nodup := by
    apply List.Nodup.of_map Sigma.fst
    rw [List.map_map]
    exact m'.nodupKeys
  have hsubset : derived ⊆ m.entries := by
    intro e he
    obtain ⟨e', he', rfl⟩ := List.mem_map.mp he
    exact lookup_eq_some.mp (h e'.1 e'.2 (lookup_eq_some.mpr he'))
  obtain ⟨part, hperm, hsub⟩ := hnodup.subperm hsubset
  have hsum := (hperm.map fun e => f e.2).sum_eq
  have hle := (hsub.map fun e => f e.2).sum_le_sum fun _ _ => Nat.zero_le _
  rw [hsum, List.map_map] at hle
  unfold values
  rw [List.map_map, List.map_map]
  exact hle

end Sums

end Lookup

end Assoc
