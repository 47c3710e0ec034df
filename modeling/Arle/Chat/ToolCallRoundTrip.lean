import Mathlib
import Arle.Chat.PlainJson

/-!
# Tool calls through the prompt and back

The tool calls of an assistant message are rendered as tagged blocks of JSON text, and the parser
ends a block at the first closing tag. What it reads is what was rendered exactly when no payload
contains that tag: no block that it cuts out of the text is a call with the tag.
-/

namespace Arle.Chat

open Quoted

section Strip

variable {T : Type} {block : TaggedBlock} {parseBlock : Str → Option T}

/-- The number of rounds is more than enough. -/
theorem stripLoop_of_lt (hopen : block.opening ≠ []) {n : Nat} {text : Str}
    (hn : text.length < n) :
    block.stripLoop parseBlock n text = block.stripAndCollect parseBlock text := by
  unfold TaggedBlock.stripAndCollect
  induction n using Nat.strongRecOn generalizing text with
  | ind n ih =>
    cases n with
    | zero => omega
    | succ n =>
      unfold TaggedBlock.stripLoop
      split
      · rfl
      rename_i before rest hcut
      split
      · rfl
      rename_i inside rest' hcut'
      have hlt : rest'.length < text.length := by
        have htext := congrArg List.length (Search.cut_eq_some hcut)
        have hrest := congrArg List.length (Search.cut_eq_some hcut')
        have hpos := List.length_pos_of_ne_nil hopen
        simp only [List.length_append] at htext hrest
        omega
      have htail : block.stripLoop parseBlock n rest' =
          block.stripLoop parseBlock text.length rest' := by
        rw [ih n (Nat.lt_succ_self n) (by omega)]
        by_cases htl : text.length = n
        · rw [htl, ih n (Nat.lt_succ_self n) (by omega)]
        · rw [ih text.length (by omega) hlt]
      rw [htail]

theorem strip_of_cut_eq_none {text : Str} (h : Search.cut block.opening text = none) :
    block.stripAndCollect parseBlock text = (text, []) := by
  unfold TaggedBlock.stripAndCollect TaggedBlock.stripLoop
  rw [h]

theorem strip_of_cut_eq_some (hopen : block.opening ≠ []) {text before rest inside rest' : Str}
    (h : Search.cut block.opening text = some (before, rest))
    (h' : Search.cut block.closing rest = some (inside, rest')) :
    block.stripAndCollect parseBlock text =
      (before ++ (block.stripAndCollect parseBlock rest').1,
        (parseBlock (Str.trim inside)).toList ++ (block.stripAndCollect parseBlock rest').2) := by
  have htext := congrArg List.length (Search.cut_eq_some h)
  have hrest := congrArg List.length (Search.cut_eq_some h')
  have hpos := List.length_pos_of_ne_nil hopen
  simp only [List.length_append] at htext hrest
  unfold TaggedBlock.stripAndCollect
  conv_lhs => unfold TaggedBlock.stripLoop
  rw [h]
  simp only
  rw [h']
  simp only
  rw [stripLoop_of_lt hopen (show rest'.length < text.length by omega)]
  rfl

end Strip

section Tags

/-- A tag ends in a character that is nowhere else in it. -/
theorem endsAlone_tag {tag : Str} (h : tag ∈ visibleTags) : Search.EndsAlone tag '>' := by
  refine ⟨tag.dropLast, ?_⟩
  revert tag
  decide

theorem endsAlone_opening : Search.EndsAlone toolCallBlock.opening '>' :=
  endsAlone_tag (List.mem_of_elem_eq_true rfl)

theorem endsAlone_closing : Search.EndsAlone toolCallBlock.closing '>' :=
  endsAlone_tag (List.mem_of_elem_eq_true rfl)

theorem endsAlone_think : Search.EndsAlone thinkBlock.opening '>' :=
  endsAlone_tag (List.mem_of_elem_eq_true rfl)

theorem opening_ne_nil : toolCallBlock.opening ≠ [] := List.cons_ne_nil _ _

theorem closing_eq : toolCallBlock.closing = "</tool_call".toList ++ ['>'] := rfl

end Tags

section Render

variable {V : Type} {json : Json V}

/-- The block of a call in a prompt. -/
def toolBlock (json : Json V) (call : ToolCall V) : Str :=
  toolCallBlock.opening ++ (['\n'] ++ call.promptPayload json ++ ['\n'] ++ toolCallBlock.closing)

/-- The newline in front of a block. -/
def newlineAfter (prompt : Str) : Str := if prompt.getLast? = some '\n' then [] else ['\n']

theorem appendToolCallBlock_eq (prompt : Str) (call : ToolCall V) :
    appendToolCallBlock json prompt call =
      prompt ++ newlineAfter prompt ++ toolBlock json call := by
  unfold appendToolCallBlock newlineAfter toolBlock
  split <;> simp only [List.append_assoc, List.append_nil]

theorem getLast?_toolBlock (text : Str) (call : ToolCall V) :
    (text ++ toolBlock json call).getLast? = some '>' := by
  unfold toolBlock
  rw [closing_eq, ← List.append_assoc, ← List.append_assoc, ← List.append_assoc,
    List.getLast?_concat]

/-- After a block every further block stands on a line of its own. -/
theorem foldl_appendToolCallBlock {prompt : Str} (h : prompt.getLast? ≠ some '\n')
    (calls : List (ToolCall V)) :
    calls.foldl (appendToolCallBlock json) prompt =
      prompt ++ calls.flatMap fun call => '\n' :: toolBlock json call := by
  induction calls generalizing prompt with
  | nil => rw [List.flatMap_nil, List.append_nil]; rfl
  | cons call calls ih =>
    rw [List.foldl_cons, appendToolCallBlock_eq, ih, List.flatMap_cons]
    · unfold newlineAfter
      rw [if_neg h]
      simp only [List.append_assoc, List.cons_append, List.nil_append]
    · rw [getLast?_toolBlock]
      decide

/-- The blocks of the calls, each on a line of its own. -/
def toolBlocks (json : Json V) (calls : List (ToolCall V)) : Str :=
  calls.flatMap fun call => '\n' :: toolBlock json call

theorem toolBlocks_cons (call : ToolCall V) (calls : List (ToolCall V)) :
    toolBlocks json (call :: calls) = '\n' :: toolBlock json call ++ toolBlocks json calls :=
  List.flatMap_cons

/-- An assistant message is its content and the blocks; a newline at the end of the content is
the one in front of the first block. -/
theorem exists_gap (content : Str) (calls : List (ToolCall V)) : ∃ gap newlines,
    content = gap ++ newlines ∧ (∀ c ∈ newlines, c = '\n') ∧
      appendAssistantContent json [] content calls = gap ++ toolBlocks json calls := by
  unfold appendAssistantContent
  rw [List.nil_append]
  cases calls with
  | nil =>
    refine ⟨content, [], (List.append_nil _).symm, fun _ h => absurd h List.not_mem_nil, ?_⟩
    exact (List.append_nil _).symm
  | cons call calls =>
    have hlast : (appendToolCallBlock json content call).getLast? ≠ some '\n' := by
      rw [appendToolCallBlock_eq, getLast?_toolBlock]
      decide
    rw [List.foldl_cons, foldl_appendToolCallBlock hlast, appendToolCallBlock_eq, toolBlocks_cons]
    unfold newlineAfter
    split
    · rename_i hnewline
      have hsplit := List.dropLast_append_getLast? _ hnewline
      refine ⟨content.dropLast, ['\n'], hsplit.symm, fun _ h => List.mem_singleton.mp h, ?_⟩
      conv_lhs => rw [← hsplit]
      unfold toolBlocks
      simp only [List.append_assoc, List.cons_append, List.nil_append, List.append_nil]
    · refine ⟨content, [], (List.append_nil _).symm, fun _ h => absurd h List.not_mem_nil, ?_⟩
      unfold toolBlocks
      simp only [List.append_assoc, List.cons_append, List.nil_append]

end Render

section Parse

variable {V : Type} {json : Json V} (hjson : json.Documented)

include hjson

theorem parseToolCall_payload (call : ToolCall V) :
    parseToolCall json (call.promptPayload json) = some call := by
  have hnodup : ([("name".toList, json.text call.name),
      ("arguments".toList, call.arguments)].map Prod.fst).Nodup := by
    rw [List.map_cons, List.map_cons, List.map_nil, List.nodup_cons, List.mem_singleton]
    exact ⟨show "name".toList ≠ "arguments".toList by decide, List.nodup_singleton _⟩
  have hname : json.get (call.promptValue json) "name".toList = some (json.text call.name) :=
    hjson.get_object _ hnodup _
  have harguments : json.get (call.promptValue json) "arguments".toList = some call.arguments :=
    hjson.get_object _ hnodup _
  unfold parseToolCall ToolCall.promptPayload
  rw [hjson.fromText_toText]
  simp only [hname, harguments, Option.bind_some, hjson.asText_text, Option.getD_some]

/-- A payload stands in its block without whitespace at its ends. -/
theorem trim_payload (call : ToolCall V) :
    Str.trim (['\n'] ++ call.promptPayload json ++ ['\n']) = call.promptPayload json := by
  have hnewline : Str.isWhitespace '\n' = true := rfl
  obtain ⟨inside, htext⟩ := hjson.toText_object
    [("name".toList, json.text call.name), ("arguments".toList, call.arguments)]
  rw [Str.trim_append_of_whitespace (by simpa using hnewline), List.singleton_append,
    Str.trim_cons_of_whitespace hnewline]
  unfold ToolCall.promptPayload ToolCall.promptValue
  rw [htext]
  exact Str.trim_eq_self rfl rfl inside

/-- The parser reads a block whose payload has no closing tag, and goes on behind it. -/
theorem strip_toolBlock {call : ToolCall V} {gap rest : Str}
    (hgap : ¬ toolCallBlock.opening <:+: gap)
    (hcall : ¬ toolCallBlock.closing <:+: call.promptPayload json) :
    toolCallBlock.stripAndCollect (parseToolCall json) (gap ++ (toolBlock json call ++ rest)) =
      (gap ++ (toolCallBlock.stripAndCollect (parseToolCall json) rest).1,
        call :: (toolCallBlock.stripAndCollect (parseToolCall json) rest).2) := by
  have hopen : Search.cut toolCallBlock.opening (gap ++ (toolBlock json call ++ rest)) =
      some (gap, (['\n'] ++ call.promptPayload json ++ ['\n']) ++
        (toolCallBlock.closing ++ rest)) := by
    unfold toolBlock
    rw [List.append_assoc toolCallBlock.opening, List.append_assoc _ toolCallBlock.closing rest]
    exact Search.cut_append endsAlone_opening hgap
  have hinside : ¬ toolCallBlock.closing <:+: ['\n'] ++ call.promptPayload json ++ ['\n'] := by
    intro h
    have h' := Search.infix_of_append endsAlone_closing (by simp) h
    rcases Search.infix_split (s := []) (by decide) h' with hnil | hin
    · revert hnil
      decide
    · exact hcall hin
  rw [strip_of_cut_eq_some opening_ne_nil hopen (Search.cut_append endsAlone_closing hinside),
    trim_payload hjson, parseToolCall_payload hjson]
  rfl

/-- The parser reads all blocks, and leaves the newlines in front of them. -/
theorem strip_toolBlocks {calls : List (ToolCall V)} {gap : Str}
    (hgap : ¬ toolCallBlock.opening <:+: gap)
    (hcalls : ∀ call ∈ calls, ¬ toolCallBlock.closing <:+: call.promptPayload json) :
    toolCallBlock.stripAndCollect (parseToolCall json) (gap ++ toolBlocks json calls) =
      (gap ++ calls.map fun _ => '\n', calls) := by
  induction calls generalizing gap with
  | nil =>
    unfold toolBlocks
    rw [List.flatMap_nil, List.append_nil, strip_of_cut_eq_none (Search.cut_eq_none.mpr hgap)]
    exact congrArg (fun text => (text, [])) (List.append_nil gap).symm
  | cons call calls ih =>
    have hgap' : ¬ toolCallBlock.opening <:+: gap ++ ['\n'] :=
      fun h => hgap (Search.infix_of_append endsAlone_opening (by simp) h)
    have htext : gap ++ toolBlocks json (call :: calls) =
        (gap ++ ['\n']) ++ (toolBlock json call ++ ([] ++ toolBlocks json calls)) := by
      rw [toolBlocks_cons]
      simp only [List.append_assoc, List.cons_append, List.nil_append]
    have hnil : ¬ toolCallBlock.opening <:+: [] := by decide
    rw [htext, strip_toolBlock hjson hgap' (hcalls call List.mem_cons_self),
      ih hnil fun call hcall => hcalls call (List.mem_cons_of_mem _ hcall)]
    simp only [List.append_assoc, List.nil_append, List.singleton_append, List.map_cons]

end Parse

/-- The text of a message without its blocks is its content and newlines. -/
theorem trim_stripAll {text newlines : Str} (hnewlines : ∀ c ∈ newlines, c = '\n')
    (hthink : ¬ thinkBlock.opening <:+: text) :
    Str.trim (thinkBlock.stripAll (text ++ newlines)) = Str.trim text := by
  have hnone : ¬ thinkBlock.opening <:+: text ++ newlines := by
    intro h
    apply hthink
    refine Search.infix_of_append endsAlone_think ?_ h
    intro hmem
    cases hnewlines _ hmem
  unfold TaggedBlock.stripAll
  rw [strip_of_cut_eq_none (Search.cut_eq_none.mpr hnone)]
  apply Str.trim_append_of_whitespace
  intro c hc
  rw [hnewlines c hc]
  rfl

/-! ## Blocks that are cut out of the text -/

section Pieces

variable {V : Type} {json : Json V} {strings : V → List Str}

/-- The tag is in no payload of the calls that are read from the text. -/
def CallsFree (json : Json V) (text : Str) : Prop :=
  ∀ call ∈ (toolCallBlock.stripAndCollect (parseToolCall json) text).2,
    ¬ toolCallBlock.closing <:+: call.promptPayload json

/-- The rest of a payload behind a place inside one of its strings. -/
def InPayload (rest : Str) : Prop := ∃ front, Lexes (front ++ rest) ∧ scan .outside front = .inside

theorem callsFree_nil {text : Str} (h : ¬ toolCallBlock.opening <:+: text) :
    CallsFree json text := by
  unfold CallsFree
  rw [strip_of_cut_eq_none (Search.cut_eq_none.mpr h)]
  exact fun call hcall => absurd hcall List.not_mem_nil

theorem callsFree_cons {text before rest inside rest' : Str}
    (h : Search.cut toolCallBlock.opening text = some (before, rest))
    (h' : Search.cut toolCallBlock.closing rest = some (inside, rest'))
    (hcall : ∀ call, parseToolCall json (Str.trim inside) = some call →
      ¬ toolCallBlock.closing <:+: call.promptPayload json)
    (htail : CallsFree json rest') : CallsFree json text := by
  unfold CallsFree
  rw [strip_of_cut_eq_some opening_ne_nil h h']
  intro call hmem
  rcases List.mem_append.mp hmem with hhead | hmem
  · exact hcall call (Option.mem_toList.mp hhead)
  · exact htail call hmem

variable (hlex : json.Lexical strings)

include hlex

/-- A block without backslashes and without the tag is no call with the tag. -/
theorem parse_free {inside : Str} {call : ToolCall V} (hbackslash : '\\' ∉ inside)
    (htag : ¬ toolCallBlock.closing <:+: inside)
    (h : parseToolCall json inside = some call) :
    ¬ toolCallBlock.closing <:+: call.promptPayload json := by
  intro hpayload
  obtain ⟨t, ht, htagt⟩ := hlex.written _ _ rfl (by decide) (by decide) hpayload
  unfold parseToolCall at h
  split at h
  · cases h
  rename_i value hvalue
  obtain rfl := Option.some.inj h
  have hspelled (s : Str) (hs : s ∈ strings value) (hin : toolCallBlock.closing <:+: s) : False :=
    htag (hin.trans (hlex.spelled _ _ hvalue hbackslash s hs))
  obtain ⟨field, hfield, hcase⟩ := hlex.strings_object _ t ht
  rcases List.mem_cons.mp hfield with rfl | hfield
  · rcases hcase with rfl | ht
    · exact absurd htagt (show ¬ toolCallBlock.closing <:+: "name".toList by decide)
    · obtain rfl := List.mem_singleton.mp (hlex.strings_text _ ht)
      cases hname : (json.get value "name".toList).bind json.asText with
      | none =>
        simp only [hname, Option.getD_none] at htagt
        revert htagt
        decide
      | some name =>
        simp only [hname, Option.getD_some] at htagt
        obtain ⟨w, hw, hasText⟩ := Option.bind_eq_some_iff.mp hname
        exact hspelled name (hlex.strings_get _ _ _ hw (hlex.strings_asText _ _ hasText)) htagt
  · obtain rfl := List.mem_singleton.mp hfield
    rcases hcase with rfl | ht
    · exact absurd htagt (show ¬ toolCallBlock.closing <:+: "arguments".toList by decide)
    · cases harguments : json.get value "arguments".toList with
      | none =>
        simp only [harguments, Option.getD_none] at ht
        obtain ⟨field, hfield, -⟩ := hlex.strings_object _ t ht
        cases hfield
      | some w =>
        simp only [harguments, Option.getD_some] at ht
        exact hspelled t (hlex.strings_get _ _ _ harguments ht) htagt

/-- A piece that starts inside a string of a payload is no call with the tag: read from the
outside, its backslashes would not be in strings. -/
theorem parse_piece {inside : Str} {call : ToolCall V} (hclean : Clean .inside inside)
    (htag : ¬ toolCallBlock.closing <:+: inside)
    (h : parseToolCall json (Str.trim inside) = some call) :
    ¬ toolCallBlock.closing <:+: call.promptPayload json := by
  have hlexes : Lexes (Str.trim inside) := by
    unfold parseToolCall at h
    split at h
    · cases h
    · rename_i value hvalue
      exact hlex.lexes _ _ hvalue
  have hbackslash : '\\' ∉ inside := not_mem_of_clean_flip (by decide) hclean hlexes.of_trim.1
  obtain ⟨before, after, hsplit, -, -⟩ := Str.exists_trim inside
  have hpart : Str.trim inside <:+: inside := ⟨before, after, hsplit.symm⟩
  exact parse_free hlex (fun hmem => hbackslash (hpart.subset hmem))
    (fun hin => htag (hin.trans hpart)) h

/-- The start of a payload up to a place inside a string is no text of a value. -/
theorem parse_start {front : Str} (hinside : scan .outside front = .inside) :
    parseToolCall json (Str.trim ('\n' :: front)) = none := by
  unfold parseToolCall
  split
  · rfl
  · rename_i value hvalue
    have hend := (hlex.lexes _ _ hvalue).of_trim.2
    have hsame : scan .outside ('\n' :: front) = scan .outside front := rfl
    rw [hsame, hinside] at hend
    cases hend

end Pieces

/-! ## The whole text -/

section Whole

variable {V : Type} {json : Json V} {strings : V → List Str}

theorem opening_not_closing {y : Str} (hy : ¬ toolCallBlock.opening <:+: y) :
    ¬ toolCallBlock.opening <:+: y ++ '\n' :: toolCallBlock.closing := by
  intro h
  rcases Search.infix_split (by decide) h with h | h
  · exact hy h
  · revert h
    decide

theorem cut_closing {inside : Str} (h : ¬ toolCallBlock.closing <:+: inside) (more : Str) :
    Search.cut toolCallBlock.closing (inside ++ ('\n' :: toolCallBlock.closing ++ more)) =
      some (inside ++ ['\n'], more) := by
  have hinside : ¬ toolCallBlock.closing <:+: inside ++ ['\n'] :=
    fun hin => h (Search.infix_of_append endsAlone_closing (by simp) hin)
  have hcut := @Search.cut_append _ _ _ '>' (inside ++ ['\n']) more endsAlone_closing hinside
  simpa only [List.append_assoc, List.cons_append, List.nil_append] using hcut

/-- A tag in a payload, at a place where all of it is inside a string. -/
theorem scan_tag {front tag rest : Str} (htag : tag ∈ visibleTags)
    (h : Clean .outside (front ++ (tag ++ rest))) : scan .outside (front ++ tag) = .inside := by
  have htags : ∀ tag ∈ visibleTags, tag = '<' :: tag.tail ∧ scan .inside tag = .inside := by
    decide
  obtain ⟨hhead, hstep⟩ := htags tag htag
  rw [hhead] at h
  rw [scan_append, scan_of_clean_lt h, hstep]

/-- The text behind a tag in the rest of a payload is the rest of the payload. -/
theorem InPayload.behind {y before tag after : Str} (htag : tag ∈ visibleTags)
    (h : InPayload y) (hy : y = before ++ (tag ++ after)) : InPayload after := by
  obtain ⟨front, hlexes, -⟩ := h
  subst hy
  refine ⟨front ++ before ++ tag, ?_, ?_⟩
  · simpa only [List.append_assoc] using hlexes
  · apply scan_tag htag
    simpa only [List.append_assoc] using hlexes.1

theorem InPayload.clean {y : Str} (h : InPayload y) :
    Clean .inside y ∧ scan .inside y = .outside := by
  obtain ⟨front, hlexes, hscan⟩ := h
  refine ⟨?_, ?_⟩
  · rw [← hscan]
    exact (clean_append.mp hlexes.1).2
  · rw [← hscan, ← scan_append]
    exact hlexes.2

theorem lexes_payload (hjson : json.Documented) (hlex : json.Lexical strings)
    (call : ToolCall V) : Lexes (call.promptPayload json) :=
  hlex.lexes _ _ (hjson.fromText_toText _)

section Induction

variable (hjson : json.Documented) (hlex : json.Lexical strings)

include hjson hlex

/-- The block of a call, when the texts behind it are known. -/
theorem callsFree_block {gap : Str} {call : ToolCall V} {calls : List (ToolCall V)}
    (hgap : ¬ toolCallBlock.opening <:+: gap)
    (hblocks : CallsFree json (toolBlocks json calls))
    (hpayload : ∀ rest, InPayload rest →
      CallsFree json (rest ++ ('\n' :: toolCallBlock.closing ++ toolBlocks json calls))) :
    CallsFree json (gap ++ toolBlocks json (call :: calls)) := by
  have hgap' : ¬ toolCallBlock.opening <:+: gap ++ ['\n'] :=
    fun h => hgap (Search.infix_of_append endsAlone_opening (by simp) h)
  have htext : gap ++ toolBlocks json (call :: calls) =
      (gap ++ ['\n']) ++ (toolCallBlock.opening ++ ('\n' :: call.promptPayload json ++
        ('\n' :: toolCallBlock.closing ++ toolBlocks json calls))) := by
    unfold toolBlocks
    rw [List.flatMap_cons]
    unfold toolBlock
    simp only [List.append_assoc, List.cons_append, List.nil_append]
  have hcut := @Search.cut_append _ _ _ '>' _ ('\n' :: call.promptPayload json ++
    ('\n' :: toolCallBlock.closing ++ toolBlocks json calls)) endsAlone_opening hgap'
  rw [← htext] at hcut
  cases hclose : Search.cut toolCallBlock.closing ('\n' :: call.promptPayload json) with
  | none =>
    have hfree := Search.cut_eq_none.mp hclose
    apply callsFree_cons hcut (cut_closing hfree _) _ hblocks
    intro call' hcall'
    have hsame := parseToolCall_payload hjson call
    rw [← trim_payload hjson call] at hsame
    obtain rfl := Option.some.inj (hsame.symm.trans hcall')
    exact fun h => hfree (h.trans (List.suffix_cons _ _).isInfix)
  | some parts =>
    obtain ⟨inside, rest⟩ := parts
    have hparts := Search.cut_eq_some hclose
    cases inside with
    | nil =>
      cases hparts
    | cons c front =>
      obtain ⟨rfl, -⟩ := List.cons.inj hparts
      have hpayloadEq : call.promptPayload json = front ++ (toolCallBlock.closing ++ rest) :=
        (List.cons.inj hparts).2
      have hlexes := lexes_payload hjson hlex call
      rw [hpayloadEq] at hlexes
      have hclosing : toolCallBlock.closing ∈ visibleTags := List.mem_of_elem_eq_true rfl
      have hscan : scan .outside front = .inside := scan_of_clean_lt hlexes.1
      apply callsFree_cons hcut (Search.cut_append_right endsAlone_closing hclose _)
      · intro call' hcall'
        rw [parse_start hlex hscan] at hcall'
        cases hcall'
      · apply hpayload
        refine ⟨front ++ toolCallBlock.closing, ?_, scan_tag hclosing hlexes.1⟩
        rw [List.append_assoc]
        exact hlexes

omit hjson in
/-- The rest of a payload, when the blocks behind it are known. -/
theorem callsFree_payload {calls : List (ToolCall V)}
    (hblocks : ∀ gap, ¬ toolCallBlock.opening <:+: gap →
      CallsFree json (gap ++ toolBlocks json calls)) {y : Str} (hy : InPayload y) :
    CallsFree json (y ++ ('\n' :: toolCallBlock.closing ++ toolBlocks json calls)) := by
  induction hn : y.length using Nat.strongRecOn generalizing y with
  | ind n ih =>
    subst hn
    cases hopen : Search.cut toolCallBlock.opening y with
    | none =>
      have hgap := opening_not_closing (Search.cut_eq_none.mp hopen)
      rw [← List.append_assoc]
      exact hblocks _ hgap
    | some parts =>
      obtain ⟨before, rest⟩ := parts
      have hparts := Search.cut_eq_some hopen
      have hrest : InPayload rest := hy.behind (List.mem_of_elem_eq_true rfl) hparts
      have hcut := Search.cut_append_right endsAlone_opening hopen
        ('\n' :: toolCallBlock.closing ++ toolBlocks json calls)
      cases hclose : Search.cut toolCallBlock.closing rest with
      | none =>
        have hfree := Search.cut_eq_none.mp hclose
        apply callsFree_cons hcut (cut_closing hfree _)
        · intro call hcall
          apply parse_piece hlex _ _ hcall
          · rw [clean_append, hrest.clean.2]
            exact ⟨hrest.clean.1, by simp [Clean]⟩
          · exact fun h => hfree (Search.infix_of_append endsAlone_closing (by simp) h)
        · exact hblocks [] (by decide)
      | some parts' =>
        obtain ⟨inside, after⟩ := parts'
        have hparts' := Search.cut_eq_some hclose
        apply callsFree_cons hcut (Search.cut_append_right endsAlone_closing hclose _)
        · intro call hcall
          apply parse_piece hlex _ (Search.not_infix_of_cut endsAlone_closing.ne_nil hclose) hcall
          have hclean := hrest.clean.1
          rw [hparts', clean_append] at hclean
          exact hclean.1
        · apply ih after.length _ (hrest.behind (List.mem_of_elem_eq_true rfl) hparts') rfl
          rw [hparts, hparts']
          have hpos := List.length_pos_of_ne_nil opening_ne_nil
          simp only [List.length_append]
          omega

/-- No call with the tag in its payload is ever read from rendered calls. -/
theorem callsFree_toolBlocks (calls : List (ToolCall V)) (gap : Str)
    (hgap : ¬ toolCallBlock.opening <:+: gap) : CallsFree json (gap ++ toolBlocks json calls) := by
  induction calls generalizing gap with
  | nil =>
    unfold toolBlocks
    rw [List.flatMap_nil, List.append_nil]
    exact callsFree_nil hgap
  | cons call calls ih =>
    apply callsFree_block hjson hlex hgap (ih [] (by decide))
    intro rest hrest
    exact callsFree_payload hlex ih hrest

end Induction

/-- The round trip of an assistant message: it is right exactly when no payload contains the
closing tag. -/
theorem tool_calls_round_trip_iff (hjson : json.Documented) (hlex : json.Lexical strings)
    (content : Str) (hcontent : ∀ tag ∈ visibleTags, ¬ tag <:+: content)
    (calls : List (ToolCall V)) :
    parseToolCalls json (appendAssistantContent json [] content calls) =
        ⟨Str.trim content, calls⟩ ↔
      ∀ call ∈ calls, ¬ toolCallBlock.closing <:+: call.promptPayload json := by
  obtain ⟨gap, newlines, hcontentEq, hnewlines, htext⟩ := @exists_gap V json content calls
  have hpart : gap <:+: content := by
    rw [hcontentEq]
    exact (List.prefix_append gap newlines).isInfix
  have hgap (tag : Str) (htag : tag ∈ visibleTags) : ¬ tag <:+: gap :=
    fun h => hcontent tag htag (h.trans hpart)
  have hopening := hgap toolCallBlock.opening (List.mem_of_elem_eq_true rfl)
  have hthink := hgap thinkBlock.opening (List.mem_of_elem_eq_true rfl)
  rw [htext]
  unfold parseToolCalls
  simp only
  constructor
  · intro hround
    have hcalls := congrArg ParsedAssistantResponse.toolCalls hround
    have hfree := callsFree_toolBlocks hjson hlex calls gap hopening
    unfold CallsFree at hfree
    simp only at hcalls
    rwa [hcalls] at hfree
  · intro hcalls
    have hmap : ∀ c ∈ calls.map fun _ => '\n', c = '\n' := by
      intro c hc
      obtain ⟨-, -, rfl⟩ := List.mem_map.mp hc
      rfl
    rw [strip_toolBlocks hjson hopening hcalls]
    simp only
    rw [trim_stripAll hmap hthink, hcontentEq, Str.trim_append_of_whitespace]
    intro c hc
    rw [hnewlines c hc]
    rfl

end Whole

section Example

/-- The call `shell` with the argument `command`. -/
def shellCall (command : String) : ToolCall Doc :=
  ⟨"shell".toList, .object (.cons "command".toList (.text command.toList) .nil)⟩

/-- A message with one call. -/
theorem tool_calls_round_trip_shell :
    (∀ tag ∈ visibleTags, ¬ tag <:+: "Checking.".toList) ∧
      (parseToolCalls plainJson
          (appendAssistantContent plainJson [] "Checking.".toList [shellCall "pwd"]) =
          ⟨Str.trim "Checking.".toList, [shellCall "pwd"]⟩ ↔
        ∀ call ∈ [shellCall "pwd"],
          ¬ toolCallBlock.closing <:+: call.promptPayload plainJson) :=
  ⟨by decide, tool_calls_round_trip_iff plainJson_documented plainJson_lexical
    "Checking.".toList (by decide) [shellCall "pwd"]⟩

/-- A call whose argument contains the closing tag: its block ends inside the argument, and no
call is read. -/
theorem tool_call_with_tag_is_lost :
    plainJson.Documented ∧
      parseToolCalls plainJson
        (appendAssistantContent plainJson [] [] [shellCall "echo '</tool_call>'"]) ≠
        ⟨Str.trim [], [shellCall "echo '</tool_call>'"]⟩ := by
  refine ⟨plainJson_documented, ?_⟩
  intro hround
  have hnone : (parseToolCalls plainJson
      (appendAssistantContent plainJson [] [] [shellCall "echo '</tool_call>'"])).toolCalls =
        [] := rfl
  rw [hround] at hnone
  cases hnone

end Example

end Arle.Chat
