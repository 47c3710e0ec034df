import Mathlib
import Arle.Lib.Utf8

/-!
# Visible text

`VisibleTextStream` of `crates/chat/src/protocol.rs`, which strips hidden blocks from a text that
comes in chunks, and the filter of whole texts that it computes. A slice that is out of range or
inside a character is a panic (`none`).
-/

namespace Arle.Chat

open Search

structure TaggedBlock where
  opening : Str
  closing : Str

def toolCallBlock : TaggedBlock := ⟨"<tool_call>".toList, "</tool_call>".toList⟩

def thinkBlock : TaggedBlock := ⟨"<think>".toList, "</think>".toList⟩

inductive HiddenBlock
  | toolCall
  | think
  deriving DecidableEq

/-- The tag that ends a hidden block. -/
def HiddenBlock.closing : HiddenBlock → Str
  | toolCall => toolCallBlock.closing
  | think => thinkBlock.closing

/-- `VISIBLE_TAGS`. -/
def visibleTags : List Str :=
  [toolCallBlock.opening, toolCallBlock.closing, thinkBlock.opening, thinkBlock.closing]

/-- `find_first_tag`. -/
def findFirstTag (text : Str) (tags : List Str) : Option (Nat × Str) :=
  (tags.filterMap fun tag => (text.find tag).map fun idx => (idx, tag)).minOn? Prod.fst

/-- `longest_tag_prefix_suffix`. -/
def longestTagPrefixSuffix (text : Str) (tags : List Str) : Nat :=
  let bytes := text.bytes
  let maxLen := min (Str.maxLen tags) bytes.length
  Nat.findGreatest (fun len => ∃ tag ∈ tags, bytes.drop (bytes.length - len) <+: tag.bytes) maxLen

/-- The block that a tag opens. -/
def opened (tag : Str) : Option HiddenBlock :=
  if tag = toolCallBlock.opening then some .toolCall
  else if tag = thinkBlock.opening then some .think
  else none

structure VisibleTextStream where
  pending : Str
  hidden : Option HiddenBlock

namespace VisibleTextStream

/-- `VisibleTextStream::default`. -/
def default : VisibleTextStream := ⟨[], none⟩

/-- The rounds of the loop of `drain`. -/
def drainLoop (flush : Bool) : Nat → VisibleTextStream → Option (Str × VisibleTextStream)
  | 0, _ => none
  | fuel + 1, st =>
    match st.hidden with
    | none =>
      match findFirstTag st.pending visibleTags with
      | none =>
        if flush then some (st.pending, { st with pending := [] })
        else
          let keep := longestTagPrefixSuffix st.pending visibleTags
          (st.pending.split (st.pending.len - keep)).map fun (visible, pending) =>
            (visible, { st with pending := pending })
      | some (idx, tag) =>
        match st.pending.split idx, st.pending.split (idx + tag.len) with
        | some (visible, _), some (_, pending) =>
          (drainLoop flush fuel { pending := pending, hidden := opened tag }).map
            fun (more, st) => (visible ++ more, st)
        | _, _ => none
    | some block =>
      match st.pending.find block.closing with
      | some idx =>
        match st.pending.split (idx + block.closing.len) with
        | some (_, pending) => drainLoop flush fuel { pending := pending, hidden := none }
        | none => none
      | none =>
        if flush then some ([], { pending := [], hidden := none })
        else
          let keep := longestTagPrefixSuffix st.pending [block.closing]
          (st.pending.split (st.pending.len - keep)).map fun (_, pending) =>
            ([], { st with pending := pending })

/-- `drain`; every round but the last one takes a tag out of the pending text. -/
def drain (st : VisibleTextStream) (flush : Bool) : Option (Str × VisibleTextStream) :=
  drainLoop flush (st.pending.length + 1) st

def push (st : VisibleTextStream) (chunk : Str) : Option (Str × VisibleTextStream) :=
  { st with pending := st.pending ++ chunk }.drain false

def finish (st : VisibleTextStream) : Option (Str × VisibleTextStream) := st.drain true

/-- The text that the chunks and `finish` after them give. -/
def stream : List Str → VisibleTextStream → Option Str
  | [], st => st.finish.map Prod.fst
  | chunk :: chunks, st =>
    match st.push chunk with
    | none => none
    | some (visible, st) => (stream chunks st).map (visible ++ ·)

end VisibleTextStream

/-! ## Tags in a text -/

section Tags

variable {tags : List Str} {text more : Str}

/-- A tag that occurs first is found. -/
theorem mem_found {p : Nat} (h : IsFirst tags text p) : ∃ tag, (Str.len (text.take p), tag) ∈
    tags.filterMap fun tag => (text.find tag).map fun idx => (idx, tag) := by
  obtain ⟨tag, htag, -, hfind⟩ := Str.find_of_isFirst h
  exact ⟨tag, List.mem_filterMap.mpr ⟨tag, htag, by rw [hfind]; rfl⟩⟩

/-- The first tag that is found is one that occurs first. -/
theorem findFirstTag_some {idx : Nat} {tag : Str} (hne : [] ∉ tags)
    (h : findFirstTag text tags = some (idx, tag)) : tag ∈ tags ∧
      ∃ before after, text = before ++ (tag ++ after) ∧ idx = Str.len before ∧
        IsFirst tags text before.length := by
  have hmem := List.minOn?_mem h
  obtain ⟨tag', htag, hmap⟩ := List.mem_filterMap.mp hmem
  obtain ⟨pos, hfind, heq⟩ := Option.map_eq_some_iff.mp hmap
  cases heq
  obtain ⟨i, hi, rfl⟩ := Option.map_eq_some_iff.mp hfind
  obtain ⟨hle, hpat, -⟩ := first_eq_some.mp hi
  obtain ⟨after, hafter⟩ := hpat
  refine ⟨htag, text.take i, after, ?_, rfl, ?_⟩
  · rw [hafter, List.take_append_drop]
  · rw [List.length_take, Nat.min_eq_left hle]
    refine ⟨⟨tag, htag, fun hnil => hne (hnil ▸ htag), ⟨after, hafter⟩⟩, fun j hj hmatch => ?_⟩
    obtain ⟨p, hp⟩ := exists_isFirst hmatch
    have hpj : p ≤ j := Nat.le_of_not_lt fun hlt => hp.2 j hlt hmatch
    -- a tag that occurs at `p` is found there, at a lesser offset
    have hleast := List.apply_get_minOn?_le_of_mem (f := Prod.fst) (mem_found hp).choose_spec
    simp only [findFirstTag] at h
    simp only [h, Option.get_some] at hleast
    have := Str.len_take_lt (show p < i by omega) hle
    omega

theorem findFirstTag_none (h : findFirstTag text tags = none) (i : Nat) :
    ¬ MatchAt tags text i := by
  intro hmatch
  obtain ⟨p, hp⟩ := exists_isFirst hmatch
  have hsome := List.isSome_minOn?_of_mem (f := Prod.fst) (mem_found hp).choose_spec
  simp only [findFirstTag] at h
  rw [h] at hsome
  cases hsome

/-- The text that is kept is the longest end of the text with which a tag begins. -/
theorem longestTagPrefixSuffix_spec (hascii : ∀ tag ∈ tags, tag.Ascii) (text : Str) :
    ∃ shown kept, text = shown ++ kept ∧
      text.split (text.len - longestTagPrefixSuffix text tags) = some (shown, kept) ∧
      ∀ i < shown.length, ∀ tag ∈ tags, ¬ text.drop i <+: tag := by
  obtain ⟨keep, hkeep⟩ : ∃ keep, longestTagPrefixSuffix text tags = keep := ⟨_, rfl⟩
  have hle : keep ≤ text.bytes.length := by
    rw [← hkeep]
    exact Nat.le_trans (Nat.findGreatest_le _) (Nat.min_le_right _ _)
  -- the kept bytes are bytes of a tag, so they are characters
  have hlow : ∀ b ∈ text.bytes.drop (text.bytes.length - keep), b.toNat < 0x80 := by
    intro b hb
    rcases Nat.eq_zero_or_pos keep with hzero | hpos
    · rw [hzero, Nat.sub_zero, List.drop_length] at hb
      exact absurd hb List.not_mem_nil
    · obtain ⟨tag, htag, hstart⟩ := Nat.findGreatest_of_ne_zero hkeep (by omega)
      exact (hascii tag htag).lt_of_mem_bytes (hstart.subset hb)
  obtain ⟨shown, kept, htext, hkept⟩ :=
    Str.exists_append_of_bytes (List.take_append_drop _ _).symm hlow
  have hlen : Str.len kept = keep := by
    rw [← Str.length_bytes, hkept, List.length_drop]
    omega
  refine ⟨shown, kept, htext, ?_, fun i hi tag htag hstart => ?_⟩
  · rw [hkeep, ← hlen, htext, Str.len_append, Nat.add_sub_cancel]
    exact Str.split_append shown kept
  · -- a longer end would have been kept
    have hdrop : text.bytes.drop (text.bytes.length - Str.len (text.drop i)) =
        Str.bytes (text.drop i) := by
      have hsplit : text.bytes = Str.bytes (text.take i) ++ Str.bytes (text.drop i) := by
        rw [← Str.bytes_append, List.take_append_drop]
      rw [hsplit, List.length_append, Str.length_bytes (text.drop i), Nat.add_sub_cancel,
        List.drop_left]
    have hlonger : keep < Str.len (text.drop i) := by
      rw [htext, List.drop_append_of_le_length (Nat.le_of_lt hi), Str.len_append, hlen]
      have := Str.length_le_len (shown.drop i)
      rw [List.length_drop] at this
      omega
    have hbound : Str.len (text.drop i) ≤ min (Str.maxLen tags) text.bytes.length := by
      refine Nat.le_min.mpr ⟨?_, ?_⟩
      · exact Nat.le_trans (Str.len_le_of_prefix hstart) (Str.len_le_maxLen htag)
      · rw [Str.length_bytes]
        have := Str.len_append (text.take i) (text.drop i)
        rw [List.take_append_drop] at this
        omega
    refine Nat.findGreatest_is_greatest (hkeep.symm ▸ hlonger) hbound ⟨tag, htag, ?_⟩
    rw [hdrop]
    exact Str.bytes_prefix hstart

end Tags

/-! ## The filter of whole texts -/

/-- The visible part of a text, after the first `skip` characters: a tag is taken out where it
stands, and the text of a hidden block up to its closing tag. -/
def visible : Nat → Option HiddenBlock → Str → Str
  | _, _, [] => []
  | skip + 1, hidden, _ :: text => visible skip hidden text
  | 0, none, c :: text =>
    match visibleTags.find? fun tag => tag <+: c :: text with
    | some tag => visible (tag.length - 1) (opened tag) text
    | none => c :: visible 0 none text
  | 0, some block, c :: text =>
    if block.closing <+: c :: text then visible (block.closing.length - 1) none text
    else visible 0 (some block) text

section Filter

variable {text before after tag : Str} {hidden : Option HiddenBlock} {block : HiddenBlock}

theorem nil_notMem_visibleTags : [] ∉ visibleTags := by decide

theorem visibleTags_independent : Independent visibleTags := by
  unfold Independent
  decide

theorem closing_ne_nil (block : HiddenBlock) : block.closing ≠ [] := by
  cases block <;> decide

theorem visible_none_cons (c : Char) (text : Str) : visible 0 none (c :: text) =
    match visibleTags.find? fun tag => tag <+: c :: text with
    | some tag => visible (tag.length - 1) (opened tag) text
    | none => c :: visible 0 none text := rfl

theorem visible_some_cons (block : HiddenBlock) (c : Char) (text : Str) :
    visible 0 (some block) (c :: text) =
      if block.closing <+: c :: text then visible (block.closing.length - 1) none text
      else visible 0 (some block) text := rfl

theorem visible_skip (before after : Str) (hidden : Option HiddenBlock) :
    visible before.length hidden (before ++ after) = visible 0 hidden after := by
  induction before with
  | nil => rfl
  | cons c before ih => exact ih

/-- A tag is taken out. -/
theorem visible_tag (htag : tag ∈ visibleTags) (after : Str) :
    visible 0 none (tag ++ after) = visible 0 (opened tag) after := by
  -- no other tag stands there
  have hfind : visibleTags.find? (fun t => t <+: tag ++ after) = some tag := by
    cases hfound : visibleTags.find? fun t => t <+: tag ++ after with
    | none =>
      have := List.find?_eq_none.mp hfound tag htag
      exact absurd (decide_eq_true (List.prefix_append tag after)) this
    | some t =>
      have hdecide := List.find?_some hfound
      have hstart : t <+: tag ++ after := of_decide_eq_true hdecide
      have ht := List.mem_of_find?_eq_some hfound
      by_contra hne
      have hne : t ≠ tag := fun heq => hne (congrArg some heq)
      rcases List.prefix_or_prefix_of_prefix hstart (List.prefix_append tag after) with h | h
      · exact visibleTags_independent t ht tag htag
          (fun hnil => nil_notMem_visibleTags (hnil ▸ ht)) hne h.isInfix
      · exact visibleTags_independent tag htag t ht
          (fun hnil => nil_notMem_visibleTags (hnil ▸ htag)) (Ne.symm hne) h.isInfix
  cases tag with
  | nil => exact absurd htag nil_notMem_visibleTags
  | cons c tag =>
    rw [List.cons_append] at hfind
    rw [List.cons_append, visible_none_cons, hfind]
    exact visible_skip tag after _

/-- Text before the tags is visible. -/
theorem visible_append (h : ∀ i < before.length, ¬ MatchAt visibleTags (before ++ after) i) :
    visible 0 none (before ++ after) = before ++ visible 0 none after := by
  induction before with
  | nil => rfl
  | cons c before ih =>
    have hfind : visibleTags.find? (fun tag => tag <+: c :: (before ++ after)) = none := by
      refine List.find?_eq_none.mpr fun tag htag hstart => ?_
      exact h 0 (Nat.succ_pos _) ⟨tag, htag, fun hnil => nil_notMem_visibleTags (hnil ▸ htag),
        of_decide_eq_true hstart⟩
    rw [List.cons_append, visible_none_cons, hfind, List.cons_append]
    refine congrArg (c :: ·) (ih fun i hi hmatch => ?_)
    exact h (i + 1) (Nat.succ_lt_succ hi) hmatch

/-- The closing tag ends the block. -/
theorem visible_closing (block : HiddenBlock) (after : Str) :
    visible 0 (some block) (block.closing ++ after) = visible 0 none after := by
  cases hclosing : block.closing with
  | nil => exact absurd hclosing (closing_ne_nil block)
  | cons c closing =>
    rw [List.cons_append, visible_some_cons, hclosing, if_pos ⟨after, rfl⟩]
    exact visible_skip closing after _

/-- Text before the closing tag is hidden. -/
theorem visible_hidden
    (h : ∀ i < before.length, ¬ MatchAt [block.closing] (before ++ after) i) :
    visible 0 (some block) (before ++ after) = visible 0 (some block) after := by
  induction before with
  | nil => rfl
  | cons c before ih =>
    have hclosing : ¬ block.closing <+: c :: (before ++ after) := fun hstart =>
      h 0 (Nat.succ_pos _) ⟨_, List.mem_singleton_self _, closing_ne_nil block, hstart⟩
    rw [List.cons_append, visible_some_cons, if_neg hclosing]
    exact ih fun i hi hmatch => h (i + 1) (Nat.succ_lt_succ hi) hmatch

end Filter

namespace VisibleTextStream

/-! ## Chunks -/

/-- What is shown before the kept end of a text without tags stays so when text is added. -/
theorem unmatched_append {tags : List Str} {shown kept : Str} (rest : Str)
    (hnone : ∀ i, ¬ MatchAt tags (shown ++ kept) i)
    (hkept : ∀ i < shown.length, ∀ tag ∈ tags, ¬ (shown ++ kept).drop i <+: tag)
    (i : Nat) (hi : i < shown.length) : ¬ MatchAt tags (shown ++ (kept ++ rest)) i := by
  intro hmatch
  rw [← List.append_assoc] at hmatch
  rcases hmatch.of_append (by rw [List.length_append]; omega) with h | ⟨tag, htag, h⟩
  · exact hnone i h
  · exact hkept i hi tag htag h

/-- The state after the loop shows the rest of the text. -/
structure Drained (flush : Bool) (st : VisibleTextStream) (shown : Str)
    (st' : VisibleTextStream) : Prop where
  visible : ∀ rest, (flush = true → rest = []) → visible 0 st.hidden (st.pending ++ rest) =
    shown ++ visible 0 st'.hidden (st'.pending ++ rest)
  flushed : flush = true → st' = default

theorem drainLoop_spec (flush : Bool) (fuel : Nat) (st : VisibleTextStream)
    (hfuel : st.pending.length < fuel) : ∃ shown st',
    drainLoop flush fuel st = some (shown, st') ∧ Drained flush st shown st' := by
  induction fuel generalizing st with
  | zero => exact absurd hfuel (Nat.not_lt_zero _)
  | succ fuel ih =>
    obtain ⟨pending, hidden⟩ := st
    cases hidden with
    | none =>
      rw [drainLoop]
      dsimp only
      cases hfind : findFirstTag pending visibleTags with
      | some found =>
        obtain ⟨idx, tag⟩ := found
        obtain ⟨htag, before, after, rfl, rfl, hfirst⟩ :=
          findFirstTag_some nil_notMem_visibleTags hfind
        have hcut := Str.split_append (before ++ tag) after
        rw [Str.len_append, List.append_assoc] at hcut
        dsimp only
        rw [Str.split_append, hcut]
        have htagpos : 0 < tag.length := List.length_pos_iff.mpr fun hnil =>
          nil_notMem_visibleTags (hnil ▸ htag)
        obtain ⟨shown, st', hloop, hdrained⟩ := ih ⟨after, opened tag⟩ (by
          simp only [List.length_append] at hfuel ⊢
          omega)
        refine ⟨before ++ shown, st', by simp only [hloop, Option.map_some], fun rest hrest => ?_,
          hdrained.flushed⟩
        have hmatch := hfirst.append visibleTags_independent rest
        dsimp only
        rw [List.append_assoc, List.append_assoc] at hmatch ⊢
        rw [visible_append hmatch.2, visible_tag htag, hdrained.visible rest hrest,
          List.append_assoc]
      | none =>
        have hnone := findFirstTag_none hfind
        cases flush with
        | true =>
          refine ⟨pending, _, rfl, fun rest hrest => ?_, fun _ => rfl⟩
          rw [hrest rfl, visible_append]
          · rfl
          · rw [List.append_nil]
            exact fun i _ => hnone i
        | false =>
          have hascii : ∀ tag ∈ visibleTags, tag.Ascii := by decide
          obtain ⟨shown, kept, rfl, hsplit, hkept⟩ := longestTagPrefixSuffix_spec hascii pending
          refine ⟨shown, ⟨kept, none⟩, ?_, fun rest _ => ?_, fun h => Bool.noConfusion h⟩
          · simp only [Bool.false_eq_true, if_false, hsplit, Option.map_some]
          · dsimp only
            rw [List.append_assoc, visible_append (unmatched_append rest hnone hkept)]
    | some block =>
      rw [drainLoop]
      dsimp only
      cases hfind : pending.find block.closing with
      | some idx =>
        obtain ⟨before, after, rfl, rfl, hmin⟩ := Str.find_eq_some hfind
        have hfirst : IsFirst [block.closing] (before ++ (block.closing ++ after))
            before.length := (isFirst_singleton (closing_ne_nil block)).mpr
          ⟨by rw [List.drop_left]; exact List.prefix_append _ _, hmin⟩
        have hcut := Str.split_append (before ++ block.closing) after
        rw [Str.len_append, List.append_assoc] at hcut
        have hclosing := List.length_pos_iff.mpr (closing_ne_nil block)
        dsimp only
        rw [hcut]
        obtain ⟨shown, st', hloop, hdrained⟩ := ih ⟨after, none⟩ (by
          simp only [List.length_append] at hfuel ⊢
          omega)
        refine ⟨shown, st', hloop, fun rest hrest => ?_, hdrained.flushed⟩
        have hmatch := hfirst.append (independent_singleton _) rest
        dsimp only
        rw [List.append_assoc, List.append_assoc] at hmatch ⊢
        rw [visible_hidden hmatch.2, visible_closing, hdrained.visible rest hrest]
      | none =>
        have hnone : ∀ i, ¬ MatchAt [block.closing] pending i := fun i hmatch => by
          obtain ⟨s, hs, -, hinfix⟩ := exists_matchAt.mp ⟨i, hmatch⟩
          rw [List.mem_singleton.mp hs] at hinfix
          have := Str.find_isSome.mpr hinfix
          rw [hfind] at this
          cases this
        cases flush with
        | true =>
          refine ⟨[], _, rfl, fun rest hrest => ?_, fun _ => rfl⟩
          rw [hrest rfl, visible_hidden]
          · rfl
          · rw [List.append_nil]
            exact fun i _ => hnone i
        | false =>
          have hascii : ∀ tag ∈ [block.closing], tag.Ascii := by cases block <;> decide
          obtain ⟨shown, kept, rfl, hsplit, hkept⟩ := longestTagPrefixSuffix_spec hascii pending
          refine ⟨[], ⟨kept, some block⟩, ?_, fun rest _ => ?_, fun h => Bool.noConfusion h⟩
          · simp only [Bool.false_eq_true, if_false, hsplit, Option.map_some]
          · dsimp only
            rw [List.append_assoc, visible_hidden (unmatched_append rest hnone hkept)]
            rfl

theorem drain_spec (flush : Bool) (st : VisibleTextStream) : ∃ shown st',
    st.drain flush = some (shown, st') ∧ Drained flush st shown st' :=
  drainLoop_spec flush _ st (Nat.lt_succ_self _)

theorem stream_nil (st : VisibleTextStream) : stream [] st = st.finish.map Prod.fst := rfl

theorem stream_cons (chunk : Str) (chunks : List Str) (st : VisibleTextStream) :
    stream (chunk :: chunks) st =
      match st.push chunk with
      | none => none
      | some (visible, st) => (stream chunks st).map (visible ++ ·) := rfl

/-- The chunks give the visible part of the whole text. -/
theorem stream_eq_visible (chunks : List Str) (st : VisibleTextStream) :
    stream chunks st = some (visible 0 st.hidden (st.pending ++ chunks.flatten)) := by
  induction chunks generalizing st with
  | nil =>
    obtain ⟨shown, st', hdrain, hdrained⟩ := drain_spec true st
    have hvisible := hdrained.visible [] fun _ => rfl
    rw [hdrained.flushed rfl] at hvisible
    rw [stream_nil, finish, hdrain, List.flatten_nil, hvisible]
    exact congrArg some (List.append_nil shown).symm
  | cons chunk chunks ih =>
    obtain ⟨shown, st', hdrain, hdrained⟩ :=
      drain_spec false { st with pending := st.pending ++ chunk }
    have hvisible := hdrained.visible chunks.flatten fun h => Bool.noConfusion h
    dsimp only at hvisible
    rw [stream_cons, push, hdrain, List.flatten_cons, ← List.append_assoc, hvisible]
    simp only [ih, Option.map_some]

/-- The visible text does not depend on where the text is cut. -/
theorem stream_flatten (chunks : List Str) : ∃ shown,
    stream chunks default = some shown ∧ stream [chunks.flatten] default = some shown := by
  refine ⟨_, stream_eq_visible chunks default, ?_⟩
  rw [stream_eq_visible, List.flatten_cons, List.flatten_nil, List.append_nil]

example : stream ["Hello<th".toList, "ink>secret</th".toList, "ink> world".toList] default =
    some "Hello world".toList := by
  decide +kernel

end VisibleTextStream

end Arle.Chat
