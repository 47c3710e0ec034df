import Arle.Lib.Search

/-!
# Texts with tags

A text is read from the left into letters and tags (`pieces`). Every tag begins with one element
that stands nowhere else in a tag, so tags do not overlap, and a search for a tag in the text is a
search for a piece.
-/

namespace Tagged

open Search

inductive Piece (α κ : Type)
  | letter (c : α)
  | tag (k : κ)
deriving DecidableEq

section Text

variable {α κ : Type} (spell : κ → List α)

def Piece.text : Piece α κ → List α
  | .letter c => [c]
  | .tag k => spell k

def text (ps : List (Piece α κ)) : List α := ps.flatMap (Piece.text spell)

/-- No letter begins one of these tags. -/
def Lexed (keys : List κ) : List (Piece α κ) → Prop
  | [] => True
  | .letter c :: ps => (∀ k ∈ keys, ¬ spell k <+: c :: text spell ps) ∧ Lexed keys ps
  | .tag _ :: ps => Lexed keys ps

instance decidableLexed [DecidableEq α] (keys : List κ) :
    (ps : List (Piece α κ)) → Decidable (Lexed spell keys ps)
  | [] => .isTrue trivial
  | .letter c :: ps =>
    haveI := decidableLexed keys ps
    inferInstanceAs (Decidable ((∀ k ∈ keys, ¬ spell k <+: c :: text spell ps) ∧ _))
  | .tag _ :: ps => decidableLexed keys ps

/-- Every tag begins with `c` and has no other `c`, and no tag begins with another one. -/
structure Marked (c : α) : Prop where
  starts : ∀ k, ∃ rest, spell k = c :: rest ∧ c ∉ rest
  apart : ∀ k l, spell k <+: spell l → k = l

/-- The pieces of a text, after the first `skip` elements. -/
def pieces [DecidableEq α] (keys : List κ) : Nat → List α → List (Piece α κ)
  | _, [] => []
  | skip + 1, _ :: text => pieces keys skip text
  | 0, c :: text =>
    match keys.find? fun k => spell k <+: c :: text with
    | some k => .tag k :: pieces keys ((spell k).length - 1) text
    | none => .letter c :: pieces keys 0 text

end Text

section Spec

variable {α κ : Type} {spell : κ → List α} {keys : List κ} {c : α} {k l : κ}
  {before after ps : List (Piece α κ)}

@[simp] theorem text_nil : text spell ([] : List (Piece α κ)) = [] := rfl

@[simp] theorem text_letter : text spell (.letter c :: ps) = c :: text spell ps := rfl

@[simp] theorem text_tag : text spell (.tag k :: ps) = spell k ++ text spell ps := rfl

@[simp] theorem text_append :
    text spell (before ++ after) = text spell before ++ text spell after :=
  List.flatMap_append

theorem Marked.ne_nil (hm : Marked spell c) (k : κ) : spell k ≠ [] := by
  obtain ⟨rest, hrest, -⟩ := hm.starts k
  rw [hrest]
  exact List.cons_ne_nil c rest

/-- No tag begins inside another one. -/
theorem Marked.not_inside (hm : Marked spell c) {j : Nat} (hj : 0 < j)
    (hlt : j < (spell l).length) (more : List α) :
    ¬ spell k <+: (spell l ++ more).drop j := by
  obtain ⟨rest, hk, -⟩ := hm.starts k
  obtain ⟨rest', hl, hc⟩ := hm.starts l
  intro hstart
  rw [List.drop_append_of_le_length (Nat.le_of_lt hlt), hk] at hstart
  rw [hl, List.length_cons] at hlt
  obtain ⟨j, rfl⟩ := Nat.exists_eq_succ_of_ne_zero (Nat.ne_of_gt hj)
  rw [hl, Nat.succ_eq_add_one, List.drop_succ_cons] at hstart
  have hget : (rest'.drop j ++ more)[0]? = some c := by
    obtain ⟨back, hback⟩ := hstart
    rw [← hback]
    rfl
  rw [List.getElem?_append_left (by rw [List.length_drop]; omega), List.getElem?_drop] at hget
  exact hc (List.mem_of_getElem? hget)

/-- A tag at the front of a text that begins with a tag is that tag. -/
theorem Marked.eq_of_prefix (hm : Marked spell c) {more : List α}
    (h : spell k <+: spell l ++ more) : k = l := by
  rcases List.prefix_or_prefix_of_prefix h (List.prefix_append (spell l) more) with h | h
  · exact hm.apart k l h
  · exact (hm.apart l k h).symm

/-- A tag occurs in the text of the pieces only as a piece. -/
theorem Lexed.infix_iff (hm : Marked spell c) (h : Lexed spell keys ps) (hk : k ∈ keys) :
    spell k <:+: text spell ps ↔ .tag k ∈ ps := by
  constructor
  · intro hin
    induction ps with
    | nil =>
      rw [text_nil, List.infix_nil] at hin
      exact absurd hin (hm.ne_nil k)
    | cons p ps ih =>
      cases p with
      | letter a =>
        rw [text_letter, List.infix_cons_iff] at hin
        rcases hin with hstart | hin
        · exact absurd hstart (h.1 k hk)
        · exact List.mem_cons_of_mem _ (ih h.2 hin)
      | tag l =>
        obtain ⟨front, back, heq⟩ := hin
        rw [text_tag, List.append_assoc] at heq
        have hstart : spell k <+: (spell l ++ text spell ps).drop front.length := by
          rw [← heq, List.drop_left]
          exact List.prefix_append _ _
        rcases Nat.eq_zero_or_pos front.length with hzero | hpos
        · rw [hzero, List.drop_zero] at hstart
          rw [hm.eq_of_prefix hstart]
          exact List.mem_cons_self
        · rcases Nat.lt_or_ge front.length (spell l).length with hlt | hge
          · exact absurd hstart (hm.not_inside hpos hlt _)
          · rw [List.drop_append, List.drop_eq_nil_of_le hge, List.nil_append] at hstart
            have hrest := hstart.isInfix.trans (List.drop_suffix _ _).isInfix
            exact List.mem_cons_of_mem _ (ih h hrest)
  · intro hmem
    obtain ⟨front, back, rfl⟩ := List.append_of_mem hmem
    rw [text_append, text_tag]
    exact ⟨text spell front, text spell back, by rw [List.append_assoc]⟩

section Search

variable [DecidableEq α]

/-- The first occurrence of a tag is the first piece with it. -/
theorem Lexed.cut_eq (hm : Marked spell c) {d : α} (hends : EndsAlone (spell k) d)
    (h : Lexed spell keys before) (hk : k ∈ keys) (hfirst : .tag k ∉ before) :
    cut (spell k) (text spell (before ++ .tag k :: after)) =
      some (text spell before, text spell after) := by
  rw [text_append, text_tag]
  exact cut_append hends fun hin => hfirst ((h.infix_iff hm hk).mp hin)

theorem Lexed.cut_eq_none (hm : Marked spell c) (h : Lexed spell keys ps) (hk : k ∈ keys) :
    cut (spell k) (text spell ps) = none ↔ .tag k ∉ ps := by
  rw [Search.cut_eq_none, h.infix_iff hm hk]

/-- The pieces of a text make it up. -/
theorem text_pieces (hne : ∀ k, spell k ≠ []) (skip : Nat) (s : List α) :
    text spell (pieces spell keys skip s) = s.drop skip := by
  induction s generalizing skip with
  | nil => rw [pieces, List.drop_nil, text_nil]
  | cons a s ih =>
    cases skip with
    | succ skip =>
      rw [pieces, ih, List.drop_succ_cons]
    | zero =>
      rw [pieces]
      split
      next k hfound =>
        have hdecide := List.find?_some hfound
        obtain ⟨rest, hrest⟩ : spell k <+: a :: s := of_decide_eq_true hdecide
        rw [text_tag, ih, List.drop_zero]
        have hdrop : s.drop ((spell k).length - 1) = (a :: s).drop (spell k).length := by
          have hpos := List.length_pos_of_ne_nil (hne k)
          obtain ⟨n, hn⟩ := Nat.exists_eq_succ_of_ne_zero (Nat.ne_of_gt hpos)
          rw [hn, Nat.succ_sub_one, Nat.succ_eq_add_one, List.drop_succ_cons]
        rw [hdrop, ← hrest, List.drop_left]
      next => rw [text_letter, ih, List.drop_zero, List.drop_zero]

theorem lexed_pieces (hne : ∀ k, spell k ≠ []) (skip : Nat) (s : List α) :
    Lexed spell keys (pieces spell keys skip s) := by
  induction s generalizing skip with
  | nil =>
    rw [pieces]
    trivial
  | cons a s ih =>
    cases skip with
    | succ skip =>
      rw [pieces]
      exact ih skip
    | zero =>
      rw [pieces]
      split
      next => exact ih _
      next hnone =>
        refine ⟨fun k hk hstart => ?_, ih 0⟩
        rw [text_pieces hne, List.drop_zero] at hstart
        exact List.find?_eq_none.mp hnone k hk (decide_eq_true hstart)

end Search

end Spec

end Tagged
