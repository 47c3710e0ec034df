import Arle.Lib.Text

/-!
# Stop strings of a whole text

`truncate_at_first_stop` of `infer/src/server_engine/stream.rs`, and the loop over the stop
strings that it shares with the streaming path. A slice inside a character is a panic (`none`).
-/

namespace Arle.ServerEngine

/-- One round of the loop over the stop strings: keep the lesser offset, skip empty strings. -/
def keepEarlier (find : Str → Option Nat) (earliest : Option Nat) (s : Str) : Option Nat :=
  if s = [] then earliest
  else
    match find s, earliest with
    | none, _ => earliest
    | some pos, none => some pos
    | some pos, some e => some (min e pos)

/-- The loop over the stop strings. -/
def earliestStop (find : Str → Option Nat) (stops : List Str) : Option Nat :=
  stops.foldl (keepEarlier find) none

/-- `truncate_at_first_stop`. -/
def truncateAtFirstStop (text : Str) (stops : List Str) : Option (Option Str) :=
  match earliestStop text.find stops with
  | none => some none
  | some pos => (text.split pos).map fun (head, _) => some head

section Spec

open Search

variable {find : Str → Option Nat} {stops : List Str} {text : Str} {p : Nat}

/-- The offsets of the stop strings that are found. -/
def offsets (find : Str → Option Nat) (stops : List Str) : List Nat :=
  (stops.filter (· ≠ [])).filterMap find

theorem mem_offsets {pos : Nat} :
    pos ∈ offsets find stops ↔ ∃ s ∈ stops, s ≠ [] ∧ find s = some pos := by
  simp only [offsets, List.mem_filterMap, List.mem_filter, decide_eq_true_eq, and_assoc]

theorem offsets_cons (find : Str → Option Nat) (s : Str) (stops : List Str) :
    offsets find (s :: stops) =
      if s = [] then offsets find stops else (find s).toList ++ offsets find stops := by
  by_cases hs : s = []
  · rw [if_pos hs, offsets, List.filter_cons_of_neg (by simpa using hs), offsets]
  · rw [if_neg hs, offsets, List.filter_cons_of_pos (by simpa using hs), List.filterMap_cons,
      offsets]
    cases find s <;> rfl

theorem keepEarlier_empty {earliest : Option Nat} {s : Str} (hs : s = []) :
    keepEarlier find earliest s = earliest := if_pos hs

theorem keepEarlier_none {earliest : Option Nat} {s : Str} (hs : s ≠ []) (h : find s = none) :
    keepEarlier find earliest s = earliest := by
  unfold keepEarlier
  rw [if_neg hs, h]

theorem keepEarlier_some {earliest : Option Nat} {s : Str} {pos : Nat} (hs : s ≠ [])
    (h : find s = some pos) : keepEarlier find earliest s = some (match earliest with
      | none => pos
      | some e => min e pos) := by
  unfold keepEarlier
  rw [if_neg hs, h]
  cases earliest <;> rfl

theorem foldl_keepEarlier_some (e : Nat) :
    stops.foldl (keepEarlier find) (some e) = some ((offsets find stops).foldl min e) := by
  induction stops generalizing e with
  | nil => rfl
  | cons s stops ih =>
    rw [List.foldl_cons, offsets_cons]
    by_cases hs : s = []
    · rw [keepEarlier_empty hs, if_pos hs, ih]
    · rw [if_neg hs]
      cases hfind : find s with
      | none =>
        rw [keepEarlier_none hs hfind]
        exact ih e
      | some pos =>
        rw [keepEarlier_some hs hfind]
        exact ih (min e pos)

/-- The loop finds the least offset. -/
theorem earliestStop_eq : earliestStop find stops = (offsets find stops).min? := by
  rw [earliestStop]
  induction stops with
  | nil => rfl
  | cons s stops ih =>
    rw [List.foldl_cons, offsets_cons]
    by_cases hs : s = []
    · rw [keepEarlier_empty hs, if_pos hs, ih]
    · rw [if_neg hs]
      cases hfind : find s with
      | none =>
        rw [keepEarlier_none hs hfind]
        exact ih
      | some pos =>
        rw [keepEarlier_some hs hfind]
        exact (foldl_keepEarlier_some pos).trans List.min?_cons'.symm

/-- The loop over a text that starts at `base` finds the first match. -/
theorem earliestStop_isFirst (base : Nat) (h : IsFirst stops text p) :
    earliestStop (fun s => (text.find s).map (base + ·)) stops =
      some (base + Str.len (text.take p)) := by
  rw [earliestStop_eq, List.min?_eq_some_iff]
  constructor
  · obtain ⟨s, hs, hne, hfind⟩ := Str.find_of_isFirst h
    exact mem_offsets.mpr ⟨s, hs, hne, by rw [hfind]; rfl⟩
  · intro q hq
    obtain ⟨s, hs, hne, hfind⟩ := mem_offsets.mp hq
    obtain ⟨n, hn, rfl⟩ := Option.map_eq_some_iff.mp hfind
    obtain ⟨i, hmatch, rfl⟩ := Str.matchAt_of_find hs hne hn
    refine Nat.add_le_add_left ?_ base
    rcases Nat.lt_or_ge i p with hlt | hge
    · exact absurd hmatch (h.2 i hlt)
    · exact Str.len_le_of_prefix (List.take_prefix_take_left hge)

theorem earliestStop_none (base : Nat) (h : ∀ i, ¬ MatchAt stops text i) :
    earliestStop (fun s => (text.find s).map (base + ·)) stops = none := by
  rw [earliestStop_eq, List.min?_eq_none_iff, List.eq_nil_iff_forall_not_mem]
  intro q hq
  obtain ⟨s, hs, hne, hfind⟩ := mem_offsets.mp hq
  obtain ⟨n, hn, rfl⟩ := Option.map_eq_some_iff.mp hfind
  obtain ⟨i, hmatch, -⟩ := Str.matchAt_of_find hs hne hn
  exact h i hmatch

theorem earliestStop_find (text : Str) (stops : List Str) :
    earliestStop text.find stops = earliestStop (fun s => (text.find s).map (0 + ·)) stops := by
  congr 1
  funext s
  cases text.find s <;> simp

/-- `truncate_at_first_stop` cuts at the first match. -/
theorem truncateAtFirstStop_isFirst (h : IsFirst stops text p) :
    truncateAtFirstStop text stops = some (some (text.take p)) := by
  rw [truncateAtFirstStop, earliestStop_find, earliestStop_isFirst 0 h, Nat.zero_add]
  have := Str.split_append (text.take p) (text.drop p)
  rw [List.take_append_drop] at this
  simp only [this, Option.map_some]

theorem truncateAtFirstStop_none (h : ∀ i, ¬ MatchAt stops text i) :
    truncateAtFirstStop text stops = some none := by
  rw [truncateAtFirstStop, earliestStop_find, earliestStop_none 0 h]

/-! ## Text that is held back -/

/-- A match that comes with more text does not begin in `sent`, when what is held back behind
`sent` is as long as all but the last byte of the longest stop string. -/
theorem length_le_of_held {sent more : Str} {i : Nat} (hsent : sent <+: text)
    (hunmatched : ∀ i, ¬ MatchAt stops text i)
    (hheld : sent = [] ∨ Str.len sent + (Str.maxLen stops - 1) ≤ Str.len text)
    (hmatch : MatchAt stops (text ++ more) i) : sent.length ≤ i := by
  by_contra hlt
  have hlt := Nat.lt_of_not_le hlt
  obtain ⟨s, hs, hne, hpat⟩ := hmatch
  obtain ⟨rest, hrest⟩ := hsent
  have hnil : sent ≠ [] := fun hnil => by
    rw [hnil] at hlt
    exact absurd hlt (Nat.not_lt_zero i)
  have hheld := hheld.resolve_left hnil
  have hle : sent.length ≤ text.length := by
    rw [← hrest, List.length_append]
    exact Nat.le_add_right _ _
  -- the match reaches behind the old text, so it is longer than the old text from `i` on
  have hlong : text.length < i + s.length := Nat.lt_of_not_le fun hshort =>
    hunmatched i ⟨s, hs, hne, prefix_of_append hpat hshort⟩
  have hpart : text.drop i <+: s := drop_prefix_of_append hpat (by omega) (by omega)
  obtain ⟨tail, rfl⟩ := hpart
  have htail : 1 ≤ Str.len tail := by
    refine Nat.lt_of_lt_of_le ?_ (Str.length_le_len tail)
    rw [List.length_append, List.length_drop] at hlong
    omega
  have hbefore : Str.len (text.take i) < Str.len sent := by
    have htake : text.take sent.length = sent := by
      rw [← hrest, List.take_left]
    have := Str.len_take_lt hlt hle
    rwa [htake] at this
  have htotal : Str.len (text.take i) + Str.len (text.drop i) = Str.len text := by
    rw [← Str.len_append, List.take_append_drop]
  have hmax := Str.len_le_maxLen hs
  rw [Str.len_append] at hmax
  omega

end Spec

end Arle.ServerEngine
