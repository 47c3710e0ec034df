import Mathlib

/-!
# Searching a list for patterns

`first pat text` is the position of the first occurrence of a pattern. `MatchAt pats text i`
says that one of the nonempty patterns occurs at `i`, `IsFirst` that `i` is the first such
position. When text is added at the end a match stays a match, and a new one reaches into the
added text; it is still the first one when no pattern is part of another.
-/

namespace Search

/-- The pattern ends in an element that is nowhere else in it. -/
def EndsAlone {α : Type} (pat : List α) (c : α) : Prop := ∃ init, pat = init ++ [c] ∧ c ∉ init

theorem EndsAlone.ne_nil {α : Type} {pat : List α} {c : α} (h : EndsAlone pat c) : pat ≠ [] := by
  obtain ⟨init, hinit, -⟩ := h
  rw [hinit]
  exact List.append_ne_nil_of_right_ne_nil init (List.cons_ne_nil c [])

/-- An occurrence ends in the last element, so what lacks that element adds none. -/
theorem infix_of_append {α : Type} {pat text more : List α} {c : α} (hpat : EndsAlone pat c)
    (hmore : c ∉ more) (h : pat <:+: text ++ more) : pat <:+: text := by
  obtain ⟨init, rfl, -⟩ := hpat
  obtain ⟨before, after, heq⟩ := h
  have hlen : before.length + init.length < text.length := by
    by_contra hge
    have hget : (text ++ more)[before.length + init.length]? = some c := by
      rw [← heq]
      simp
    rw [List.getElem?_append_right (Nat.not_lt.mp hge)] at hget
    exact hmore (List.mem_of_getElem? hget)
  have hpre : before ++ (init ++ [c]) <+: text := by
    have hwhole : before ++ (init ++ [c]) <+: text ++ more := ⟨after, heq⟩
    apply List.prefix_of_prefix_length_le hwhole (List.prefix_append _ _)
    simp only [List.length_append, List.length_singleton]
    omega
  exact List.IsInfix.trans ⟨before, [], by rw [List.append_nil]⟩ hpre.isInfix

/-- An occurrence does not reach over an element that the pattern lacks. -/
theorem infix_split {α : Type} {pat s t : List α} {c : α} (hc : c ∉ pat)
    (h : pat <:+: s ++ c :: t) : pat <:+: s ∨ pat <:+: t := by
  obtain ⟨before, after, heq⟩ := h
  rcases List.append_eq_append_iff.mp heq with ⟨mid, hs, -⟩ | ⟨mid, hpat, hmid⟩
  · exact Or.inl ⟨before, mid, hs.symm⟩
  cases mid with
  | nil =>
    rw [List.append_nil] at hpat
    exact Or.inl ⟨before, [], by rw [List.append_nil, hpat]⟩
  | cons d mid =>
    obtain ⟨rfl, rfl⟩ := List.cons.inj hmid
    rcases List.append_eq_append_iff.mp hpat with ⟨rest, -, hrest⟩ | ⟨rest, -, hrest⟩
    · rw [hrest] at hc
      exact absurd (List.mem_append_right rest List.mem_cons_self) hc
    · cases rest with
      | nil =>
        rw [List.nil_append] at hrest
        rw [← hrest] at hc
        exact absurd List.mem_cons_self hc
      | cons d rest =>
        obtain ⟨-, rfl⟩ := List.cons.inj hrest
        exact Or.inr ⟨rest, after, rfl⟩

section First

variable {α : Type} [DecidableEq α]

/-- The position of the first occurrence of the pattern. -/
def first (pat : List α) : List α → Option Nat
  | [] => if pat = [] then some 0 else none
  | c :: text => if pat <+: c :: text then some 0 else (first pat text).map (· + 1)

variable {pat text : List α} {i : Nat}

theorem first_nil : first pat [] = if pat = [] then some 0 else none := rfl

theorem first_cons (c : α) (text : List α) : first pat (c :: text) =
    if pat <+: c :: text then some 0 else (first pat text).map (· + 1) := rfl

theorem first_eq_some : first pat text = some i ↔
    i ≤ text.length ∧ pat <+: text.drop i ∧ ∀ j < i, ¬ pat <+: text.drop j := by
  induction text generalizing i with
  | nil =>
    rw [first_nil]
    split
    · rename_i h
      subst h
      constructor
      · rintro ⟨⟩
        exact ⟨Nat.le_refl 0, List.nil_prefix, fun j hj => absurd hj (Nat.not_lt_zero j)⟩
      · rintro ⟨hi, -, -⟩
        exact congrArg some (Nat.le_zero.mp hi).symm
    · rename_i h
      constructor
      · rintro ⟨⟩
      · rintro ⟨-, hpat, -⟩
        rw [List.drop_nil, List.prefix_nil] at hpat
        exact absurd hpat h
  | cons c text ih =>
    rw [first_cons]
    split
    · rename_i h
      constructor
      · rintro ⟨⟩
        exact ⟨Nat.zero_le _, h, fun j hj => absurd hj (Nat.not_lt_zero j)⟩
      · rintro ⟨-, -, hmin⟩
        refine congrArg some (Nat.eq_zero_of_not_pos fun hpos => ?_).symm
        exact hmin 0 hpos h
    · rename_i h
      cases i with
      | zero =>
        constructor
        · intro hfirst
          obtain ⟨j, -, hj⟩ := Option.map_eq_some_iff.mp hfirst
          cases hj
        · rintro ⟨-, hpat, -⟩
          exact absurd hpat h
      | succ i =>
        have hshift : (first pat text).map (· + 1) = some (i + 1) ↔ first pat text = some i := by
          cases first pat text <;> simp
        rw [hshift, ih, List.length_cons, List.drop_succ_cons, Nat.add_le_add_iff_right]
        refine and_congr_right fun _ => and_congr_right fun _ => ⟨fun hmin j hj => ?_,
          fun hmin j hj => ?_⟩
        · cases j with
          | zero => exact h
          | succ j => exact hmin j (Nat.lt_of_succ_lt_succ hj)
        · exact hmin (j + 1) (Nat.succ_lt_succ hj)

theorem first_eq_none : first pat text = none ↔ ∀ j ≤ text.length, ¬ pat <+: text.drop j := by
  constructor
  · intro hnone j
    -- the first occurrence up to `j` would have been found
    induction j using Nat.strongRecOn with
    | ind j ih =>
      intro hj hpat
      have := first_eq_some.mpr ⟨hj, hpat, fun i hi => ih i hi (by omega)⟩
      rw [hnone] at this
      cases this
  · intro hall
    cases hfirst : first pat text with
    | none => rfl
    | some i =>
      obtain ⟨hi, hpat, -⟩ := first_eq_some.mp hfirst
      exact absurd hpat (hall i hi)

theorem first_isSome : (first pat text).isSome = true ↔ pat <:+: text := by
  constructor
  · intro h
    obtain ⟨i, hi⟩ := Option.isSome_iff_exists.mp h
    exact (first_eq_some.mp hi).2.1.isInfix.trans (List.drop_suffix _ _).isInfix
  · rintro ⟨before, after, rfl⟩
    rw [Option.isSome_iff_ne_none]
    intro hnone
    refine first_eq_none.mp hnone before.length ?_ ?_
    · rw [List.append_assoc, List.length_append]
      exact Nat.le_add_right _ _
    · rw [List.append_assoc, List.drop_left]
      exact List.prefix_append _ _

/-- The text before and after the first occurrence of a pattern. -/
def cut (pat text : List α) : Option (List α × List α) :=
  (first pat text).map fun i => (text.take i, text.drop (i + pat.length))

theorem cut_eq_none : cut pat text = none ↔ ¬ pat <:+: text := by
  unfold cut
  rw [Option.map_eq_none_iff, ← first_isSome, Bool.not_eq_true, Option.isSome_eq_false_iff,
    Option.isNone_iff_eq_none]

theorem cut_eq_some {before after : List α} (h : cut pat text = some (before, after)) :
    text = before ++ (pat ++ after) := by
  obtain ⟨i, hi, hparts⟩ := Option.map_eq_some_iff.mp h
  obtain ⟨hle, ⟨rest, hrest⟩, -⟩ := first_eq_some.mp hi
  obtain ⟨rfl, rfl⟩ := Prod.mk.inj hparts
  have hafter : text.drop (i + pat.length) = rest := by
    rw [← List.drop_drop, ← hrest, List.drop_left]
  rw [hafter, hrest, List.take_append_drop]

/-- The text before the first occurrence has none. -/
theorem not_infix_of_cut {before after : List α} (hne : pat ≠ [])
    (h : cut pat text = some (before, after)) : ¬ pat <:+: before := by
  obtain ⟨i, hi, hparts⟩ := Option.map_eq_some_iff.mp h
  obtain ⟨-, -, hmin⟩ := first_eq_some.mp hi
  obtain ⟨rfl, -⟩ := Prod.mk.inj hparts
  rintro ⟨front, back, heq⟩
  have hpos := List.length_pos_of_ne_nil hne
  have hlen := congrArg List.length heq
  simp only [List.length_append, List.length_take] at hlen
  apply hmin front.length (by omega)
  refine ⟨back ++ text.drop i, ?_⟩
  have htext : front ++ (pat ++ (back ++ text.drop i)) = text := by
    rw [← List.append_assoc, ← List.append_assoc, heq, List.take_append_drop]
  conv_rhs => rw [← htext]
  rw [List.drop_left]

/-- The first occurrence of a pattern whose last element is nowhere else in it. -/
theorem cut_append {c : α} {before after : List α} (hpat : EndsAlone pat c)
    (h : ¬ pat <:+: before) : cut pat (before ++ (pat ++ after)) = some (before, after) := by
  have hfirst : first pat (before ++ (pat ++ after)) = some before.length := by
    apply first_eq_some.mpr
    refine ⟨?_, ?_, ?_⟩
    · rw [List.length_append]
      exact Nat.le_add_right _ _
    · rw [List.drop_left]
      exact List.prefix_append _ _
    · -- An earlier occurrence ends in front of the last element of this one.
      intro j hj hearly
      apply h
      obtain ⟨init, hinit, hc⟩ := id hpat
      apply infix_of_append hpat hc
      obtain ⟨rest, hrest⟩ := hearly
      refine ⟨before.take j, ?_⟩
      have hsplit : before.take j ++ (pat ++ rest) = before ++ (pat ++ after) := by
        rw [hrest, List.drop_append_of_le_length (Nat.le_of_lt hj), ← List.append_assoc,
          List.take_append_drop]
      have hpart : before.take j ++ pat <+: before ++ (pat ++ after) :=
        ⟨rest, by rw [← hsplit, List.append_assoc]⟩
      have hwhole : before ++ init <+: before ++ (pat ++ after) :=
        ⟨[c] ++ after, by rw [hinit]; simp⟩
      apply List.prefix_of_prefix_length_le hpart hwhole
      rw [hinit]
      simp only [List.length_append, List.length_take, List.length_singleton]
      omega
  unfold cut
  rw [hfirst, Option.map_some, List.take_left, ← List.append_assoc, ← List.length_append,
    List.drop_left]

/-- More text behind the first occurrence does not matter. -/
theorem cut_append_right {c : α} {before after : List α} (hpat : EndsAlone pat c)
    (h : cut pat text = some (before, after)) (more : List α) :
    cut pat (text ++ more) = some (before, after ++ more) := by
  rw [cut_eq_some h, List.append_assoc, List.append_assoc]
  exact cut_append hpat (not_infix_of_cut hpat.ne_nil h)

end First

/-! ## Several patterns -/

section Patterns

variable {α : Type} {pats : List (List α)} {text more : List α} {i p : Nat}

/-- A nonempty pattern occurs at `i`. -/
def MatchAt (pats : List (List α)) (text : List α) (i : Nat) : Prop :=
  ∃ pat ∈ pats, pat ≠ [] ∧ pat <+: text.drop i

/-- The first position at which a nonempty pattern occurs. -/
def IsFirst (pats : List (List α)) (text : List α) (p : Nat) : Prop :=
  MatchAt pats text p ∧ ∀ j < p, ¬ MatchAt pats text j

/-- A pattern that occurs ends inside the text. -/
theorem add_length_le {pat : List α} (hne : pat ≠ []) (h : pat <+: text.drop i) :
    i + pat.length ≤ text.length := by
  have hlen := h.length_le
  have hpos := List.length_pos_iff.mpr hne
  rw [List.length_drop] at hlen
  omega

theorem MatchAt.lt (h : MatchAt pats text i) : i < text.length := by
  obtain ⟨pat, -, hne, hpat⟩ := h
  have := add_length_le hne hpat
  have := List.length_pos_iff.mpr hne
  omega

theorem MatchAt.append (h : MatchAt pats text i) (more : List α) :
    MatchAt pats (text ++ more) i := by
  have hlt := h.lt
  obtain ⟨pat, hmem, hne, hpat⟩ := h
  refine ⟨pat, hmem, hne, hpat.trans ?_⟩
  rw [List.drop_append_of_le_length (Nat.le_of_lt hlt)]
  exact List.prefix_append _ _

/-- An occurrence that ends in the old text was there before. -/
theorem prefix_of_append {pat : List α} (h : pat <+: (text ++ more).drop i)
    (hle : i + pat.length ≤ text.length) : pat <+: text.drop i := by
  rw [List.drop_append_of_le_length (by omega)] at h
  refine List.prefix_of_prefix_length_le h (List.prefix_append _ _) ?_
  rw [List.length_drop]
  omega

/-- An occurrence that reaches into the added text begins with the end of the old text. -/
theorem drop_prefix_of_append {pat : List α} (h : pat <+: (text ++ more).drop i)
    (hi : i ≤ text.length) (hle : text.length ≤ i + pat.length) : text.drop i <+: pat := by
  rw [List.drop_append_of_le_length hi] at h
  refine List.prefix_of_prefix_length_le (List.prefix_append _ more) h ?_
  rw [List.length_drop]
  omega

/-- A match in a longer text is a match in the old text or begins with an end of it. -/
theorem MatchAt.of_append (h : MatchAt pats (text ++ more) i) (hi : i ≤ text.length) :
    MatchAt pats text i ∨ ∃ pat ∈ pats, text.drop i <+: pat := by
  obtain ⟨pat, hmem, hne, hpat⟩ := h
  rcases Nat.le_total (i + pat.length) text.length with hle | hle
  · exact Or.inl ⟨pat, hmem, hne, prefix_of_append hpat hle⟩
  · exact Or.inr ⟨pat, hmem, drop_prefix_of_append hpat hi hle⟩

theorem IsFirst.unique {q : Nat} (hp : IsFirst pats text p) (hq : IsFirst pats text q) :
    p = q := by
  rcases Nat.lt_trichotomy p q with hlt | heq | hlt
  · exact absurd hp.1 (hq.2 p hlt)
  · exact heq
  · exact absurd hq.1 (hp.2 q hlt)

theorem exists_isFirst (h : MatchAt pats text i) : ∃ p, IsFirst pats text p := by
  induction i using Nat.strongRecOn with
  | ind i ih =>
    by_cases hex : ∃ j, j < i ∧ MatchAt pats text j
    · obtain ⟨j, hj, hmatch⟩ := hex
      exact ih j hj hmatch
    · exact ⟨i, h, fun j hj hmatch => hex ⟨j, hj, hmatch⟩⟩

theorem exists_matchAt : (∃ i, MatchAt pats text i) ↔ ∃ pat ∈ pats, pat ≠ [] ∧ pat <:+: text := by
  constructor
  · rintro ⟨i, pat, hmem, hne, hpat⟩
    exact ⟨pat, hmem, hne, hpat.isInfix.trans (List.drop_suffix _ _).isInfix⟩
  · rintro ⟨pat, hmem, hne, before, after, rfl⟩
    refine ⟨before.length, pat, hmem, hne, ?_⟩
    rw [List.append_assoc, List.drop_left]
    exact List.prefix_append _ _

theorem isFirst_singleton {pat : List α} (hne : pat ≠ []) : IsFirst [pat] text p ↔
    pat <+: text.drop p ∧ ∀ j < p, ¬ pat <+: text.drop j := by
  have hmatch : ∀ j, MatchAt [pat] text j ↔ pat <+: text.drop j := by
    intro j
    constructor
    · rintro ⟨s, hs, _, hpat⟩
      exact List.mem_singleton.mp hs ▸ hpat
    · exact fun hpat => ⟨pat, List.mem_singleton_self _, hne, hpat⟩
  simp only [IsFirst, hmatch]

/-- `part` is the text up to the first match, all of it when there is none. -/
def CutAtFirst (pats : List (List α)) (text part : List α) : Prop :=
  (∀ i, ¬ MatchAt pats text i) ∧ part = text ∨ ∃ p, IsFirst pats text p ∧ part = text.take p

/-- The text up to the first match has no match. -/
theorem CutAtFirst.unmatched {part : List α} (h : CutAtFirst pats text part) (i : Nat) :
    ¬ MatchAt pats part i := by
  rcases h with ⟨hnone, rfl⟩ | ⟨p, hp, rfl⟩
  · exact hnone i
  · intro hmatch
    have hlt := hmatch.lt
    rw [List.length_take] at hlt
    have := hmatch.append (text.drop p)
    rw [List.take_append_drop] at this
    exact hp.2 i (by omega) this

/-- Patterns of which none is a proper part of another. -/
def Independent (pats : List (List α)) : Prop :=
  ∀ s ∈ pats, ∀ t ∈ pats, s ≠ [] → s ≠ t → ¬ s <:+: t

theorem independent_singleton (pat : List α) : Independent [pat] := by
  intro s hs t ht _ hne
  rw [List.mem_singleton.mp hs, List.mem_singleton.mp ht] at hne
  exact absurd rfl hne

/-- The first match stays the first one when text is added: an earlier match that reaches into
the added text would contain it. -/
theorem IsFirst.append (hind : Independent pats) (h : IsFirst pats text p) (more : List α) :
    IsFirst pats (text ++ more) p := by
  refine ⟨h.1.append more, fun j hj hmatch => ?_⟩
  obtain ⟨t, ht, hne, hpat⟩ := hmatch
  have hlong : text.length < j + t.length := by
    refine Nat.lt_of_not_le fun hle => h.2 j hj ⟨t, ht, hne, prefix_of_append hpat hle⟩
  obtain ⟨⟨s, hs, hsne, hspat⟩, -⟩ := h
  have hend := add_length_le hsne hspat
  obtain ⟨rest, hrest⟩ := hpat
  have hinside : s <+: t.drop (p - j) := by
    have hwhole : s <+: (text ++ more).drop p := by
      rw [List.drop_append_of_le_length (by omega)]
      exact hspat.trans (List.prefix_append _ _)
    have hdrop : (text ++ more).drop p = t.drop (p - j) ++ rest := by
      rw [show p = j + (p - j) by omega, ← List.drop_drop, ← hrest,
        List.drop_append_of_le_length (by omega), Nat.add_sub_cancel_left]
    rw [hdrop] at hwhole
    refine List.prefix_of_prefix_length_le hwhole (List.prefix_append _ _) ?_
    rw [List.length_drop]
    omega
  refine hind s hs t ht hsne (fun heq => ?_) ?_
  · subst heq
    omega
  · exact hinside.isInfix.trans (List.drop_suffix _ _).isInfix

end Patterns

end Search
