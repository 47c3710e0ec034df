import Mathlib

/-!
# Least recently used

A cache as the list of its entries, the most recently used one first. The sizes of the entries are
bounded by a capacity: of a list that has grown too large, the longest front that fits is kept
(`fit`). Taking away last entries as long as they are too many comes to the same (`fit_concat`).
-/

namespace Lru

variable {κ α β : Type}

/-- The entries, the most recently used one first. -/
abbrev Items (κ α : Type) := List (Sigma fun _ : κ => α)

section Fit

variable (size : α → Nat)

def total (l : Items κ α) : Nat := (l.map fun e => size e.2).sum

/-- The longest front whose total is at most the capacity. -/
def fit : Nat → Items κ α → Items κ α
  | _, [] => []
  | capacity, e :: l =>
    if size e.2 ≤ capacity then e :: fit (capacity - size e.2) l else []

/-- `front` is the longest front of `l` that fits. -/
structure LongestFit (capacity : Nat) (l front : Items κ α) : Prop where
  isPrefix : front <+: l
  fits : total size front ≤ capacity
  longest : ∀ front', front' <+: l → total size front' ≤ capacity → front' <+: front

variable {size} {l : Items κ α} {capacity : Nat} {e : Sigma fun _ : κ => α}

theorem fit_cons (capacity : Nat) (e : Sigma fun _ : κ => α) (l : Items κ α) :
    fit size capacity (e :: l) =
      if size e.2 ≤ capacity then e :: fit size (capacity - size e.2) l else [] := rfl

theorem total_cons : total size (e :: l) = size e.2 + total size l := List.sum_cons

theorem total_perm {l' : Items κ α} (h : l.Perm l') : total size l = total size l' :=
  (h.map _).sum_eq

theorem longestFit_fit (size : α → Nat) (capacity : Nat) (l : Items κ α) :
    LongestFit size capacity l (fit size capacity l) := by
  induction l generalizing capacity with
  | nil => exact ⟨List.prefix_refl _, Nat.zero_le _, fun _ h _ => h⟩
  | cons e l ih =>
    by_cases he : size e.2 ≤ capacity
    · obtain ⟨hinit, hfits, hlongest⟩ := ih (capacity - size e.2)
      rw [fit_cons, if_pos he]
      refine ⟨(List.prefix_cons_inj e).mpr hinit, ?_, fun front' h' hle => ?_⟩
      · rw [total_cons]
        omega
      · cases front' with
        | nil => exact List.nil_prefix
        | cons e' front' =>
          obtain ⟨rfl, hrest⟩ := List.cons_prefix_cons.mp h'
          rw [total_cons] at hle
          exact (List.prefix_cons_inj e').mpr (hlongest front' hrest (by omega))
    · rw [fit_cons, if_neg he]
      refine ⟨List.nil_prefix, Nat.zero_le _, fun front' h' hle => ?_⟩
      cases front' with
      | nil => exact List.prefix_refl _
      | cons e' front' =>
        obtain ⟨rfl, -⟩ := List.cons_prefix_cons.mp h'
        rw [total_cons] at hle
        omega

theorem LongestFit.unique {front front' : Items κ α} (h : LongestFit size capacity l front)
    (h' : LongestFit size capacity l front') : front = front' :=
  (h'.longest front h.isPrefix h.fits).eq_of_length_le
    (h.longest front' h'.isPrefix h'.fits).length_le

theorem fit_of_total_le (h : total size l ≤ capacity) : fit size capacity l = l :=
  (longestFit_fit size capacity l).unique ⟨List.prefix_refl l, h, fun _ h' _ => h'⟩

/-- The last entry of too many does not fit. -/
theorem fit_concat (h : capacity < total size (l ++ [e])) :
    fit size capacity (l ++ [e]) = fit size capacity l := by
  obtain ⟨hinit, hfits, hlongest⟩ := longestFit_fit size capacity l
  refine (longestFit_fit size capacity _).unique ⟨hinit.trans (List.prefix_append l [e]), hfits, ?_⟩
  intro front' h' hle
  obtain hfront | rfl := List.prefix_concat_iff.mp h' |>.symm
  · exact hlongest front' hfront hle
  · omega

/-- The sizes decide what fits. -/
theorem fit_map {f : α → β} {size' : β → Nat} (hsize : ∀ a, size' (f a) = size a) :
    (fit size capacity l).map (fun e => (⟨e.1, f e.2⟩ : Sigma fun _ : κ => β)) =
      fit size' capacity (l.map fun e => ⟨e.1, f e.2⟩) := by
  induction l generalizing capacity with
  | nil => rfl
  | cons e l ih =>
    rw [List.map_cons, fit_cons, fit_cons, hsize, ← ih]
    split <;> rfl

end Fit

/-! ## Runs -/

inductive Op (κ α : Type)
  | insert (key : κ) (a : α)
  | get (key : κ)
  | remove (key : κ)
  | clear

variable [DecidableEq κ] (size : α → Nat) (capacity : Nat)

/-- One operation; what is larger than the capacity is refused. -/
def step (l : Items κ α) : Op κ α → Items κ α
  | .insert key a =>
    if size a ≤ capacity then fit size capacity (⟨key, a⟩ :: l.kerase key) else l
  | .get key =>
    match l.dlookup key with
    | some a => ⟨key, a⟩ :: l.kerase key
    | none => l
  | .remove key => l.kerase key
  | .clear => []

def run (ops : List (Op κ α)) : Items κ α := ops.foldl (step size capacity) []

/-- The values inserted last, after one operation. -/
def latestStep (values : κ → Option α) : Op κ α → κ → Option α
  | .insert key a => if size a ≤ capacity then Function.update values key (some a) else values
  | _ => values

/-- The value that was inserted last for each key. -/
def latest (ops : List (Op κ α)) : κ → Option α :=
  ops.foldl (latestStep size capacity) fun _ => none

/-- What is kept between the operations of a run. -/
structure Kept (values : κ → Option α) (l : Items κ α) : Prop where
  nodupKeys : l.NodupKeys
  fits : total size l ≤ capacity
  latest : ∀ e ∈ l, values e.1 = some e.2

variable {size capacity} {values : κ → Option α} {l : Items κ α} {key : κ} {a : α}

theorem total_kerase (h : l.NodupKeys) (ha : a ∈ l.dlookup key) :
    total size l = size a + total size (l.kerase key) := by
  have hkey : key ∈ l.keys := List.dlookup_isSome.mp (Option.isSome_of_mem ha)
  obtain ⟨b, before, after, -, hl, herase⟩ := List.exists_of_kerase hkey
  have hb : b ∈ l.dlookup key := by
    rw [List.mem_dlookup_iff h, hl]
    exact List.mem_append_right _ List.mem_cons_self
  obtain rfl := Option.mem_unique ha hb
  rw [herase, hl, total_perm (List.perm_middle), total_cons]

theorem Kept.kerase (h : Kept size capacity values l) (key : κ) :
    Kept size capacity values (l.kerase key) := by
  refine ⟨h.nodupKeys.kerase key, ?_, fun e he => h.latest e (List.kerase_sublist key l |>.mem he)⟩
  exact ((List.kerase_sublist key l).map _ |>.sum_le_sum fun _ _ => Nat.zero_le _).trans h.fits

theorem Kept.step (h : Kept size capacity values l) (op : Op κ α) :
    Kept size capacity (latestStep size capacity values op) (step size capacity l op) := by
  cases op with
  | insert key a =>
    dsimp only [Lru.step, latestStep]
    by_cases ha : size a ≤ capacity
    · rw [if_pos ha, if_pos ha]
      have hfit := longestFit_fit size capacity (⟨key, a⟩ :: l.kerase key)
      refine ⟨?_, hfit.fits, fun e he => ?_⟩
      · exact (List.kinsert_nodupKeys key a h.nodupKeys).sublist hfit.isPrefix.sublist
      · obtain rfl | he := List.mem_cons.mp (hfit.isPrefix.mem he)
        · exact Function.update_self ..
        · have hne : e.1 ≠ key := by
            rintro rfl
            exact List.notMem_keys_kerase e.1 h.nodupKeys (List.mem_keys_of_mem he)
          rw [Function.update_of_ne hne]
          exact h.latest e ((List.kerase_sublist key l).mem he)
    · rw [if_neg ha, if_neg ha]
      exact h
  | get key =>
    dsimp only [Lru.step, latestStep]
    cases hlookup : l.dlookup key with
    | none => exact h
    | some a =>
      have hmem := List.of_mem_dlookup hlookup
      refine ⟨List.kinsert_nodupKeys key a h.nodupKeys, ?_, fun e he => ?_⟩
      · rw [total_cons, ← total_kerase h.nodupKeys hlookup]
        exact h.fits
      · obtain rfl | he := List.mem_cons.mp he
        · exact h.latest _ hmem
        · exact h.latest e ((List.kerase_sublist key l).mem he)
  | remove key => exact h.kerase key
  | clear => exact ⟨List.nodupKeys_nil, Nat.zero_le _, (fun _ h => by cases h)⟩

end Lru
