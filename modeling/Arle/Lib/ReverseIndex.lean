import Mathlib
import Arle.Lib.Assoc

/-!
# Reverse indices

A family of slots `f : ι → Option κ` gives some slots a key. A map `m` from keys to slots
is its reverse index, `Indexes m f`, if it sends every key to the slot that has it, and
knows no other key. In particular no two slots share a key.
-/

universe u v

/-- `m` sends a key to a slot exactly if the slot has the key. -/
def Indexes {ι : Type v} {κ : Type u} [DecidableEq κ] (m : Assoc κ ι) (f : ι → Option κ) : Prop :=
  ∀ k i, m.lookup k = some i ↔ f i = some k

namespace Indexes

variable {ι : Type v} {κ : Type u} [DecidableEq κ] {m : Assoc κ ι} {f : ι → Option κ}

theorem empty (hf : ∀ i, f i = none) : Indexes (∅ : Assoc κ ι) f := by
  intro k i
  rw [hf, AList.lookup_empty]
  simp

theorem slot_unique (h : Indexes m f) {i j : ι} {k : κ} (hi : f i = some k) (hj : f j = some k) :
    i = j := by
  have hi' := (h k i).mpr hi
  rw [(h k j).mpr hj] at hi'
  exact (Option.some.inj hi').symm

theorem lookup_eq_none (h : Indexes m f) {k : κ} : m.lookup k = none ↔ ∀ i, f i ≠ some k := by
  constructor
  · intro hk i hi
    rw [(h k i).mpr hi] at hk
    cases hk
  · intro hk
    cases hm : m.lookup k with
    | none => rfl
    | some i => exact absurd ((h k i).mp hm) (hk i)

/-- Recording a key where it already is changes nothing. -/
theorem insert_self (h : Indexes m f) {i : ι} {k : κ} (hi : f i = some k) :
    Indexes (m.insert k i) f := by
  intro k' j
  rw [Assoc.lookup_insert_eq]
  by_cases hkk : k' = k
  · subst hkk
    simp only [if_true, Option.some.injEq]
    exact ⟨fun hij => hij ▸ hi, fun hj => h.slot_unique hi hj⟩
  · rw [if_neg hkk, h]

variable [DecidableEq ι]

/-- A slot without a key gets a fresh one. -/
theorem insert (h : Indexes m f) {i : ι} {k : κ} (hi : f i = none) (hk : ∀ j, f j ≠ some k) :
    Indexes (m.insert k i) (Function.update f i (some k)) := by
  intro k' j
  rw [Assoc.lookup_insert_eq, Function.update_apply]
  by_cases hkk : k' = k
  · subst hkk
    by_cases hji : j = i
    · simp [hji]
    · simp [hji, Ne.symm hji, hk j]
  · rw [if_neg hkk, h]
    by_cases hji : j = i
    · simp [hji, hi, Ne.symm hkk]
    · simp [hji]

/-- A slot gives up its key. -/
theorem erase (h : Indexes m f) {i : ι} {k : κ} (hi : f i = some k) :
    Indexes (m.erase k) (Function.update f i none) := by
  intro k' j
  rw [Assoc.lookup_erase_eq, Function.update_apply]
  by_cases hkk : k' = k
  · subst hkk
    by_cases hji : j = i
    · simp [hji]
    · simp only [if_true, if_neg hji]
      exact ⟨fun hn => (by cases hn), fun hj => absurd (h.slot_unique hj hi) hji⟩
  · rw [if_neg hkk, h]
    by_cases hji : j = i
    · simp [hji, hi, Ne.symm hkk]
    · simp [hji]

/-- A slot exchanges its key for a fresh one. -/
theorem replace (h : Indexes m f) {i : ι} {k k' : κ} (hi : f i = some k)
    (hk' : ∀ j, f j ≠ some k') :
    Indexes ((m.erase k).insert k' i) (Function.update f i (some k')) := by
  have hnew := (h.erase hi).insert (Function.update_self i none f) (k := k') fun j hj => by
    rw [Function.update_apply] at hj
    split at hj
    · cases hj
    · exact hk' j hj
  rwa [Function.update_idem] at hnew

end Indexes
