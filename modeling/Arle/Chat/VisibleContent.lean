import Arle.Chat.ToolCallRoundTrip
import Arle.Lib.Tagged

/-!
# The stream and the parser

`VisibleTextStream` takes hidden blocks out of a text in one pass, and `parse_tool_calls` takes the
tool calls out first and the think blocks after them. Both work on the pieces of the text, and
differ in a block that is never closed, in a closing tag that stands alone, in a call that begins
in a think block and ends behind it, and in tags that only come about when the calls are gone.
-/

namespace Arle.Chat

open Search Tagged

/-! ## Pieces -/

inductive Tag
  | opens (block : HiddenBlock)
  | closes (block : HiddenBlock)
deriving DecidableEq

def HiddenBlock.tagged : HiddenBlock → TaggedBlock
  | toolCall => toolCallBlock
  | think => thinkBlock

namespace Tag

def text : Tag → Str
  | opens block => block.tagged.opening
  | closes block => block.closing

def all : List Tag := [opens .toolCall, closes .toolCall, opens .think, closes .think]

theorem mem_all (tag : Tag) : tag ∈ all := by
  rcases tag with block | block <;> cases block <;> decide

theorem text_mem (tag : Tag) : tag.text ∈ visibleTags := by
  rcases tag with block | block <;> cases block <;> decide

theorem marked : Marked text '<' where
  starts tag := by
    rcases tag with block | block <;> cases block <;> exact ⟨_, rfl, by decide⟩
  apart tag tag' := by
    rcases tag with block | block <;> rcases tag' with block' | block' <;> cases block <;>
      cases block' <;> decide

end Tag

abbrev TextPiece := Piece Char Tag

/-- What the stream shows of the pieces. -/
def shown : Option HiddenBlock → List TextPiece → Str
  | _, [] => []
  | none, .letter c :: ps => c :: shown none ps
  | none, .tag (.opens block) :: ps => shown (some block) ps
  | none, .tag (.closes _) :: ps => shown none ps
  | some block, p :: ps => shown (if p = .tag (.closes block) then none else some block) ps

/-- What the parser leaves of the pieces when it takes out the blocks of a kind. -/
def strip (block : HiddenBlock) : Bool → List TextPiece → List TextPiece
  | _, [] => []
  | true, p :: ps =>
    if p = .tag (.closes block) then strip block false ps else strip block true ps
  | false, p :: ps =>
    if p = .tag (.opens block) then
      if .tag (.closes block) ∈ ps then strip block true ps else ps
    else p :: strip block false ps

/-- The tag of a kind that the parser looks for next, inside of a block of the kind or outside. -/
def nextTag (block : HiddenBlock) (inside : Bool) : Tag :=
  if inside then .closes block else .opens block

/-- The parser finds the tags of a kind where they are pieces: no letter begins the one that it
looks for. -/
def FindsTags (block : HiddenBlock) : Bool → List TextPiece → Prop
  | _, [] => True
  | inside, .letter c :: ps =>
    ¬ (nextTag block inside).text <+: c :: text Tag.text ps ∧ FindsTags block inside ps
  | inside, .tag t :: ps =>
    FindsTags block (if t = nextTag block inside then !inside else inside) ps

instance decidableFindsTags (block : HiddenBlock) :
    (inside : Bool) → (ps : List TextPiece) → Decidable (FindsTags block inside ps)
  | _, [] => .isTrue trivial
  | inside, .letter c :: ps =>
    haveI := decidableFindsTags block inside ps
    inferInstanceAs
      (Decidable (¬ (nextTag block inside).text <+: c :: text Tag.text ps ∧ _))
  | inside, .tag t :: ps =>
    decidableFindsTags block (if t = nextTag block inside then !inside else inside) ps

/-- Every opening tag of the kind has its closing tag. -/
def Whole (block : HiddenBlock) : Bool → List TextPiece → Prop
  | inside, [] => inside = false
  | true, p :: ps =>
    if p = .tag (.closes block) then Whole block false ps else Whole block true ps
  | false, p :: ps =>
    if p = .tag (.opens block) then Whole block true ps else Whole block false ps

section Shown

theorem shown_letter (c : Char) (ps : List TextPiece) :
    shown none (.letter c :: ps) = c :: shown none ps := rfl

theorem shown_some (block : HiddenBlock) (p : TextPiece) (ps : List TextPiece) :
    shown (some block) (p :: ps) =
      shown (if p = .tag (.closes block) then none else some block) ps := by
  rcases p with c | tag
  · rfl
  · cases tag <;> rfl

variable {ps body rest : List TextPiece} {block : HiddenBlock} {hidden : Option HiddenBlock}

/-- The stream shows what it shows of the pieces. -/
theorem visible_text (h : Lexed Tag.text Tag.all ps) :
    visible 0 hidden (text Tag.text ps) = shown hidden ps := by
  induction ps generalizing hidden with
  | nil => cases hidden <;> rfl
  | cons p ps ih =>
    cases p with
    | letter c =>
      have hnone : ∀ tag ∈ visibleTags, ¬ tag <+: c :: text Tag.text ps := by
        intro tag htag
        rcases List.mem_map.mp (show tag ∈ Tag.all.map Tag.text from htag) with ⟨t, ht, rfl⟩
        exact h.1 t ht
      cases hidden with
      | none =>
        have hfind : visibleTags.find? (fun tag => tag <+: c :: text Tag.text ps) = none :=
          List.find?_eq_none.mpr fun tag htag hstart =>
            hnone tag htag (of_decide_eq_true hstart)
        rw [text_letter, visible_none_cons, hfind, shown_letter, ← ih h.2]
      | some block =>
        have hclosing : ¬ block.closing <+: c :: text Tag.text ps :=
          hnone _ (Tag.closes block).text_mem
        rw [text_letter, visible_some_cons, if_neg hclosing, shown_some, if_neg (by intro h; cases h),
          ih h.2]
    | tag t =>
      have htext : t.text ∈ visibleTags := t.text_mem
      rw [text_tag]
      cases hidden with
      | none =>
        rw [visible_tag htext, ih h]
        rcases t with block | block <;> cases block <;> rfl
      | some block =>
        rw [shown_some]
        by_cases ht : t = .closes block
        · rw [if_pos (by rw [ht]), ← ih h, ht]
          exact visible_closing block _
        · rw [if_neg fun heq => ht (Piece.tag.inj heq), ← ih h]
          refine visible_hidden fun i hi hmatch => ?_
          obtain ⟨pat, hpat, _, hstart⟩ := hmatch
          rw [List.mem_singleton.mp hpat] at hstart
          have hclosing : (Tag.closes block).text <+: (t.text ++ text Tag.text ps).drop i := hstart
          rcases Nat.eq_zero_or_pos i with rfl | hpos
          · exact ht (Tag.marked.eq_of_prefix hclosing).symm
          · exact Tag.marked.not_inside hpos hi _ hclosing

theorem shown_closes (h : .tag (.closes block) ∉ body) :
    shown (some block) (body ++ .tag (.closes block) :: rest) = shown none rest := by
  induction body with
  | nil =>
    show shown _ rest = _
    rw [if_pos rfl]
  | cons p body ih =>
    have hp := List.ne_of_not_mem_cons h
    have hbody := List.not_mem_of_not_mem_cons h
    rw [List.cons_append, shown, if_neg (Ne.symm hp), ih hbody]

theorem shown_openCall {more : List TextPiece} (hbody : .tag (.closes block) ∉ body)
    (hmore : .tag (.closes block) ∉ more) {block' : HiddenBlock} :
    shown (some block)
      (body ++ .tag (.opens block') :: (more ++ .tag (.closes block) :: rest)) =
      shown none rest := by
  have hinside : (.tag (.closes block) : TextPiece) ∉ body ++ .tag (.opens block') :: more := by
    rw [List.mem_append, not_or]
    exact ⟨hbody, List.not_mem_cons_of_ne_of_not_mem (by intro h; cases h) hmore⟩
  have hassoc : body ++ .tag (.opens block') :: (more ++ .tag (.closes block) :: rest) =
      (body ++ .tag (.opens block') :: more) ++ .tag (.closes block) :: rest := by
    rw [List.append_assoc, List.cons_append]
  rw [hassoc, shown_closes hinside]

theorem shown_never (h : .tag (.closes block) ∉ ps) : shown (some block) ps = [] := by
  induction ps with
  | nil => rfl
  | cons p ps ih =>
    have hp := List.ne_of_not_mem_cons h
    have hps := List.not_mem_of_not_mem_cons h
    rw [shown_some, if_neg (Ne.symm hp), ih hps]

end Shown

section Strip

/-- A block that does not end loses its opening tag, and nothing is read behind it. -/
theorem strip_of_unclosed {T : Type} {block : TaggedBlock} {parseBlock : Str → Option T}
    {s before rest : Str} (h : cut block.opening s = some (before, rest))
    (h' : cut block.closing rest = none) :
    block.stripAndCollect parseBlock s = (before ++ rest, []) := by
  unfold TaggedBlock.stripAndCollect TaggedBlock.stripLoop
  rw [h]
  dsimp only
  rw [h']

variable {ps body rest more : List TextPiece} {block : HiddenBlock} {inside : Bool}

theorem strip_true (block : HiddenBlock) (p : TextPiece) (ps : List TextPiece) :
    strip block true (p :: ps) =
      if p = .tag (.closes block) then strip block false ps else strip block true ps := rfl

theorem strip_false (block : HiddenBlock) (p : TextPiece) (ps : List TextPiece) :
    strip block false (p :: ps) =
      if p = .tag (.opens block) then
        if .tag (.closes block) ∈ ps then strip block true ps else ps
      else p :: strip block false ps := rfl

theorem strip_nil (block : HiddenBlock) (inside : Bool) : strip block inside [] = [] := by
  cases inside <;> rfl

theorem whole_true (block : HiddenBlock) (p : TextPiece) (ps : List TextPiece) :
    Whole block true (p :: ps) =
      if p = .tag (.closes block) then Whole block false ps else Whole block true ps := rfl

theorem whole_false (block : HiddenBlock) (p : TextPiece) (ps : List TextPiece) :
    Whole block false (p :: ps) =
      if p = .tag (.opens block) then Whole block true ps else Whole block false ps := rfl

theorem strip_closes (h : .tag (.closes block) ∉ body) :
    strip block true (body ++ .tag (.closes block) :: rest) = strip block false rest := by
  induction body with
  | nil =>
    show strip block true (.tag (.closes block) :: rest) = _
    rw [strip_true, if_pos rfl]
  | cons p body ih =>
    have hp := List.ne_of_not_mem_cons h
    have hbody := List.not_mem_of_not_mem_cons h
    rw [List.cons_append, strip_true, if_neg (Ne.symm hp), ih hbody]

theorem strip_opens_closes (h : .tag (.closes block) ∉ body) :
    strip block false (.tag (.opens block) :: (body ++ .tag (.closes block) :: rest)) =
      strip block false rest := by
  rw [strip_false, if_pos rfl, if_pos (List.mem_append_right _ List.mem_cons_self), strip_closes h]

theorem strip_never (h : .tag (.closes block) ∉ ps) :
    strip block false (.tag (.opens block) :: ps) = ps := by
  rw [strip_false, if_pos rfl, if_neg h]

theorem strip_other {p : TextPiece} (h : p ≠ .tag (.opens block)) :
    strip block false (p :: ps) = p :: strip block false ps := by
  rw [strip_false, if_neg h]

theorem strip_before (h : .tag (.opens block) ∉ body) :
    strip block false (body ++ rest) = body ++ strip block false rest := by
  induction body with
  | nil => rfl
  | cons p body ih =>
    have hp := List.ne_of_not_mem_cons h
    have hbody := List.not_mem_of_not_mem_cons h
    rw [List.cons_append, strip_other (Ne.symm hp), ih hbody, List.cons_append]

theorem strip_subset {p : TextPiece} (h : p ∈ strip block inside ps) : p ∈ ps := by
  induction ps generalizing inside with
  | nil =>
    rw [strip_nil] at h
    exact h
  | cons q ps ih =>
    cases inside with
    | true =>
      rw [strip_true] at h
      split at h
      · exact List.mem_cons_of_mem _ (ih h)
      · exact List.mem_cons_of_mem _ (ih h)
    | false =>
      rw [strip_false] at h
      split at h
      · split at h
        · exact List.mem_cons_of_mem _ (ih h)
        · exact List.mem_cons_of_mem _ h
      · rcases List.mem_cons.mp h with rfl | h
        · exact List.mem_cons_self
        · exact List.mem_cons_of_mem _ (ih h)

theorem Whole.closes_mem (h : Whole block true ps) : .tag (.closes block) ∈ ps := by
  induction ps with
  | nil => cases h
  | cons p ps ih =>
    rw [whole_true] at h
    split at h
    next hp => exact hp ▸ List.mem_cons_self
    next => exact List.mem_cons_of_mem _ (ih h)

/-- Blocks that end in a part of the text are taken out of that part. -/
theorem Whole.strip_append (h : Whole block inside ps) (more : List TextPiece) :
    strip block inside (ps ++ more) = strip block inside ps ++ strip block false more := by
  induction ps generalizing inside with
  | nil =>
    cases h
    rfl
  | cons p ps ih =>
    cases inside with
    | true =>
      rw [whole_true] at h
      rw [List.cons_append, strip_true, strip_true]
      by_cases hp : p = .tag (.closes block)
      · rw [if_pos hp] at h
        rw [if_pos hp, if_pos hp, ih h]
      · rw [if_neg hp] at h
        rw [if_neg hp, if_neg hp, ih h]
    | false =>
      rw [whole_false] at h
      by_cases hp : p = .tag (.opens block)
      · rw [if_pos hp] at h
        have hmem := h.closes_mem
        rw [List.cons_append, strip_false, strip_false, if_pos hp, if_pos hp, if_pos hmem,
          if_pos (List.mem_append_left _ hmem), ih h]
      · rw [if_neg hp] at h
        rw [List.cons_append, strip_other hp, strip_other hp, ih h, List.cons_append]

/-- Where a block begins that does not end. -/
theorem exists_open (block : HiddenBlock) (inside : Bool) (ps : List TextPiece) :
    Whole block inside ps ∨
    (inside = true ∧ .tag (.closes block) ∉ ps) ∨
    ∃ body more, ps = body ++ .tag (.opens block) :: more ∧ Whole block inside body ∧
      .tag (.closes block) ∉ more := by
  induction ps generalizing inside with
  | nil =>
    cases inside with
    | true => exact .inr (.inl ⟨rfl, List.not_mem_nil⟩)
    | false => exact .inl rfl
  | cons p ps ih =>
    -- the rest of the text after one piece
    have hstep : ∀ next, (∀ qs, Whole block next qs → Whole block inside (p :: qs)) →
        Whole block inside (p :: ps) ∨ (next = true ∧ .tag (.closes block) ∉ ps) ∨
        ∃ body more, p :: ps = body ++ .tag (.opens block) :: more ∧ Whole block inside body ∧
          .tag (.closes block) ∉ more := by
      intro next hkeep
      rcases ih next with h | h | ⟨body, more, rfl, hbody, hmore⟩
      · exact .inl (hkeep ps h)
      · exact .inr (.inl h)
      · exact .inr (.inr ⟨p :: body, more, rfl, hkeep body hbody, hmore⟩)
    cases inside with
    | true =>
      by_cases hp : p = .tag (.closes block)
      · rcases hstep false fun qs h => by rw [whole_true, if_pos hp]; exact h with h | h | h
        · exact .inl h
        · cases h.1
        · exact .inr (.inr h)
      · rcases hstep true fun qs h => by rw [whole_true, if_neg hp]; exact h with h | h | h
        · exact .inl h
        · exact .inr (.inl ⟨rfl, List.not_mem_cons_of_ne_of_not_mem (Ne.symm hp) h.2⟩)
        · exact .inr (.inr h)
    | false =>
      by_cases hp : p = .tag (.opens block)
      · rcases hstep true fun qs h => by rw [whole_false, if_pos hp]; exact h with h | h | h
        · exact .inl h
        · exact .inr (.inr ⟨[], ps, by rw [hp]; rfl, rfl, h.2⟩)
        · exact .inr (.inr h)
      · rcases hstep false fun qs h => by rw [whole_false, if_neg hp]; exact h with h | h | h
        · exact .inl h
        · cases h.1
        · exact .inr (.inr h)

/-- Where no letter begins a tag, the tags are found. -/
theorem FindsTags.of_lexed {keys : List Tag} (hkeys : ∀ inside, nextTag block inside ∈ keys)
    (h : Lexed Tag.text keys ps) : FindsTags block inside ps := by
  induction ps generalizing inside with
  | nil => trivial
  | cons p ps ih =>
    cases p with
    | letter c => exact ⟨h.1 _ (hkeys inside), ih h.2⟩
    | tag t => exact ih h

/-- The pieces before the next tag, and those behind it. -/
theorem FindsTags.split (h : FindsTags block inside (body ++ .tag (nextTag block inside) :: rest))
    (hfirst : .tag (nextTag block inside) ∉ body) :
    Lexed Tag.text [nextTag block inside] body ∧ FindsTags block (!inside) rest := by
  induction body with
  | nil =>
    refine ⟨trivial, ?_⟩
    rw [List.nil_append, FindsTags, if_pos rfl] at h
    exact h
  | cons p body ih =>
    have hbody := List.not_mem_of_not_mem_cons hfirst
    cases p with
    | letter c =>
      obtain ⟨hlexed, hrest⟩ := ih h.2 hbody
      refine ⟨⟨fun k hk hstart => ?_, hlexed⟩, hrest⟩
      rw [List.mem_singleton.mp hk] at hstart
      refine h.1 (hstart.trans ?_)
      show c :: text Tag.text body <+: c :: text Tag.text (body ++ _)
      rw [text_append]
      exact List.prefix_append (c :: text Tag.text body) _
    | tag t =>
      have ht : t ≠ nextTag block inside := fun heq => hfirst (by rw [heq]; exact List.mem_cons_self)
      rw [List.cons_append, FindsTags, if_neg ht] at h
      exact ih h hbody

theorem FindsTags.lexed (h : FindsTags block inside ps) (hnever : .tag (nextTag block inside) ∉ ps) :
    Lexed Tag.text [nextTag block inside] ps := by
  induction ps with
  | nil => trivial
  | cons p ps ih =>
    have hps := List.not_mem_of_not_mem_cons hnever
    cases p with
    | letter c =>
      exact ⟨fun k hk => by rw [List.mem_singleton.mp hk]; exact h.1, ih h.2 hps⟩
    | tag t =>
      have ht : t ≠ nextTag block inside := fun heq => hnever (by rw [heq]; exact List.mem_cons_self)
      rw [FindsTags, if_neg ht] at h
      exact ih h hps

/-- The parser leaves the text of the pieces that are left. -/
theorem strip_text {T : Type} (block : HiddenBlock) (parseBlock : Str → Option T)
    (h : FindsTags block false ps) :
    (block.tagged.stripAndCollect parseBlock (text Tag.text ps)).1 =
      text Tag.text (strip block false ps) := by
  have hopen : block.tagged.opening ≠ [] := Tag.marked.ne_nil (.opens block)
  have hclosing : (Tag.closes block).text = block.tagged.closing := by cases block <;> rfl
  induction hn : ps.length using Nat.strongRecOn generalizing ps with
  | ind n ih =>
    by_cases hmem : .tag (.opens block) ∈ ps
    · obtain ⟨before, after, rfl, hbefore⟩ := List.eq_append_cons_of_mem hmem
      obtain ⟨hlexed, hafter⟩ := h.split hbefore
      have hcut : Search.cut (Tag.opens block).text
          (text Tag.text (before ++ .tag (.opens block) :: after)) =
            some (text Tag.text before, text Tag.text after) :=
        hlexed.cut_eq Tag.marked (endsAlone_tag (Tag.opens block).text_mem) List.mem_cons_self
          hbefore
      rw [strip_before hbefore]
      by_cases hend : .tag (.closes block) ∈ after
      · obtain ⟨body, rest, rfl, hbody⟩ := List.eq_append_cons_of_mem hend
        obtain ⟨hlexed', hrest⟩ := hafter.split hbody
        have hcut' : Search.cut (Tag.closes block).text
            (text Tag.text (body ++ .tag (.closes block) :: rest)) =
              some (text Tag.text body, text Tag.text rest) :=
          hlexed'.cut_eq Tag.marked (endsAlone_tag (Tag.closes block).text_mem) List.mem_cons_self
            hbody
        rw [hclosing] at hcut'
        rw [strip_of_cut_eq_some hopen hcut hcut', strip_opens_closes hbody, text_append]
        rw [ih rest.length (by simp only [← hn, List.length_append, List.length_cons]; omega)
          hrest rfl]
      · have hcut' : Search.cut (Tag.closes block).text (text Tag.text after) = none :=
          ((hafter.lexed hend).cut_eq_none Tag.marked List.mem_cons_self).mpr hend
        rw [hclosing] at hcut'
        rw [strip_of_unclosed hcut hcut', strip_never hend, text_append]
    · have hcut := ((h.lexed hmem).cut_eq_none Tag.marked List.mem_cons_self).mpr hmem
      have hsame : strip block false (ps ++ []) = ps ++ strip block false [] := strip_before hmem
      rw [List.append_nil, strip_nil, List.append_nil] at hsame
      rw [strip_of_cut_eq_none hcut, hsame]

end Strip

end Arle.Chat
