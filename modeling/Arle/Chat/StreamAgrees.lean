import Arle.Chat.VisibleContent

/-!
# When the stream and the parser agree

What the parser leaves of a text beside what the stream shows of it: the closing tags that stand
alone, and the text behind an opening tag that is never closed. The two agree when this is blank.
There is no such comparison for a call that ends behind the think block in which it begins, as the
parser takes the end of the think block for a part of the call, nor where the parser acts on a think
tag that only comes about when the calls are gone.
-/

namespace Arle.Chat

open Tagged

/-- The pieces in which the parser looks for think blocks. Behind a call that never ends it reads
no further calls. -/
def withoutCalls (reads : Bool) (ps : List TextPiece) : List TextPiece :=
  if reads then strip .toolCall false ps else ps

/-- What the parser leaves of the pieces. -/
def kept (reads : Bool) (ps : List TextPiece) : Str :=
  text Tag.text (strip .think false (withoutCalls reads ps))

/-- What the parser leaves of the pieces beside what the stream shows of them, one constructor for
each way in which the pieces can go on outside of the blocks. `reads` says whether the parser still
reads calls: one that begins in a think block and never ends (`openCall`) stops it. -/
inductive Leaves : Bool → List TextPiece → Str → Prop
  | nil {reads : Bool} : Leaves reads [] []
  | letter {reads : Bool} {c : Char} {ps : List TextPiece} {extra : Str}
      (rest : Leaves reads ps extra) : Leaves reads (.letter c :: ps) extra
  | stray {reads : Bool} {block : HiddenBlock} {ps : List TextPiece} {extra : Str}
      (rest : Leaves reads ps extra) :
      Leaves reads (.tag (.closes block) :: ps) ((Tag.closes block).text ++ extra)
  | toolCall {body ps : List TextPiece} {extra : Str} (hbody : .tag (.closes .toolCall) ∉ body)
      (rest : Leaves true ps extra) :
      Leaves true (.tag (.opens .toolCall) :: (body ++ .tag (.closes .toolCall) :: ps)) extra
  | think {reads : Bool} {body ps : List TextPiece} {extra : Str}
      (hbody : .tag (.closes .think) ∉ body) (hwhole : reads = true → Whole .toolCall false body)
      (rest : Leaves reads ps extra) :
      Leaves reads (.tag (.opens .think) :: (body ++ .tag (.closes .think) :: ps)) extra
  | openCall {body more ps : List TextPiece} {extra : Str}
      (hbody : .tag (.closes .think) ∉ body) (hwhole : Whole .toolCall false body)
      (hmore : .tag (.closes .think) ∉ more) (hnever : .tag (.closes .toolCall) ∉ more)
      (hnever' : .tag (.closes .toolCall) ∉ ps) (rest : Leaves false ps extra) :
      Leaves true (.tag (.opens .think) ::
        (body ++ .tag (.opens .toolCall) :: (more ++ .tag (.closes .think) :: ps))) extra
  | endlessCall {ps : List TextPiece} (hnever : .tag (.closes .toolCall) ∉ ps) :
      Leaves true (.tag (.opens .toolCall) :: ps) (kept false ps)
  | unreadCall {ps : List TextPiece} (hnever : .tag (.closes .toolCall) ∉ ps) :
      Leaves false (.tag (.opens .toolCall) :: ps) ((Tag.opens .toolCall).text ++ kept false ps)
  | endlessThink {reads : Bool} {ps : List TextPiece} (hnever : .tag (.closes .think) ∉ ps) :
      Leaves reads (.tag (.opens .think) :: ps) (text Tag.text (withoutCalls reads ps))

section Kept

variable {reads : Bool} {ps body more : List TextPiece}

theorem withoutCalls_other {p : TextPiece} (h : p ≠ .tag (.opens .toolCall)) :
    withoutCalls reads (p :: ps) = p :: withoutCalls reads ps := by
  cases reads with
  | false => rfl
  | true => exact strip_other h

theorem withoutCalls_subset {p : TextPiece} (h : p ∈ withoutCalls reads ps) : p ∈ ps := by
  cases reads with
  | false => exact h
  | true => exact strip_subset h

theorem kept_letter (c : Char) : kept reads (.letter c :: ps) = c :: kept reads ps := by
  have hne : ∀ block, (.letter c : TextPiece) ≠ .tag (.opens block) :=
    fun _ h => by cases h
  unfold kept
  rw [withoutCalls_other (hne _), strip_other (hne _), text_letter]

theorem kept_stray (block : HiddenBlock) : kept reads (.tag (.closes block) :: ps) =
    (Tag.closes block).text ++ kept reads ps := by
  have hne : ∀ block', (.tag (.closes block) : TextPiece) ≠ .tag (.opens block') :=
    fun _ h => by cases h
  unfold kept
  rw [withoutCalls_other (hne _), strip_other (hne _), text_tag]

theorem kept_toolCall (h : .tag (.closes .toolCall) ∉ body) :
    kept true (.tag (.opens .toolCall) :: (body ++ .tag (.closes .toolCall) :: ps)) =
      kept true ps :=
  congrArg (fun qs => text Tag.text (strip .think false qs)) (strip_opens_closes h)

theorem kept_endlessCall (h : .tag (.closes .toolCall) ∉ ps) :
    kept true (.tag (.opens .toolCall) :: ps) = kept false ps :=
  congrArg (fun qs => text Tag.text (strip .think false qs)) (strip_never h)

theorem kept_unreadCall : kept false (.tag (.opens .toolCall) :: ps) =
    (Tag.opens .toolCall).text ++ kept false ps :=
  congrArg (text Tag.text) (strip_other (by decide))

theorem kept_endlessThink (h : .tag (.closes .think) ∉ ps) :
    kept reads (.tag (.opens .think) :: ps) = text Tag.text (withoutCalls reads ps) := by
  unfold kept
  rw [withoutCalls_other (by decide), strip_never fun hmem => h (withoutCalls_subset hmem)]

/-- A think block in which every call ends. -/
theorem kept_think (h : .tag (.closes .think) ∉ body)
    (hwhole : reads = true → Whole .toolCall false body) :
    kept reads (.tag (.opens .think) :: (body ++ .tag (.closes .think) :: ps)) =
      kept reads ps := by
  have hcalls : withoutCalls reads (body ++ .tag (.closes .think) :: ps) =
      withoutCalls reads body ++ .tag (.closes .think) :: withoutCalls reads ps := by
    cases reads with
    | false => rfl
    | true =>
      show strip .toolCall false (body ++ _) = _
      rw [(hwhole rfl).strip_append, strip_other (by decide)]
      rfl
  unfold kept
  rw [withoutCalls_other (by decide), hcalls,
    strip_opens_closes fun hmem => h (withoutCalls_subset hmem)]

/-- A think block in which a call begins that never ends. -/
theorem kept_openCall (hbody : .tag (.closes .think) ∉ body) (hwhole : Whole .toolCall false body)
    (hmore : .tag (.closes .think) ∉ more) (hnever : .tag (.closes .toolCall) ∉ more)
    (hnever' : .tag (.closes .toolCall) ∉ ps) :
    kept true (.tag (.opens .think) ::
      (body ++ .tag (.opens .toolCall) :: (more ++ .tag (.closes .think) :: ps))) =
      kept false ps := by
  have hend : (.tag (.closes .toolCall) : TextPiece) ∉ more ++ .tag (.closes .think) :: ps := by
    rw [List.mem_append, not_or]
    exact ⟨hnever, List.not_mem_cons_of_ne_of_not_mem (by decide) hnever'⟩
  have hcalls : withoutCalls true
      (body ++ .tag (.opens .toolCall) :: (more ++ .tag (.closes .think) :: ps)) =
      (strip .toolCall false body ++ more) ++ .tag (.closes .think) :: ps := by
    show strip .toolCall false _ = _
    rw [hwhole.strip_append, strip_never hend, List.append_assoc]
  unfold kept
  rw [withoutCalls_other (by decide), hcalls, strip_opens_closes]
  · rfl
  · rw [List.mem_append, not_or]
    exact ⟨fun hmem => hbody (strip_subset hmem), hmore⟩

end Kept

/-! ## What is left -/

/-- The number of characters that are no whitespace. -/
def inked (s : Str) : Nat := s.countP fun c => !Str.isWhitespace c

theorem inked_eq_zero {s : Str} : inked s = 0 ↔ ∀ c ∈ s, Str.isWhitespace c = true := by
  unfold inked
  simp

theorem inked_append (s t : Str) : inked (s ++ t) = inked s + inked t := List.countP_append

theorem inked_trim (s : Str) : inked (Str.trim s) = inked s := by
  obtain ⟨before, after, hs, hbefore, hafter⟩ := Str.exists_trim s
  have hcount := congrArg inked hs
  rw [inked_append, inked_append, inked_eq_zero.mpr hbefore, inked_eq_zero.mpr hafter] at hcount
  omega

theorem inked_tag (tag : Tag) : 0 < inked tag.text := by
  rcases tag with block | block <;> cases block <;> decide

section Leaves

variable {reads : Bool} {ps : List TextPiece} {extra : Str}

/-- The parser keeps as much more than the stream as is left. -/
theorem Leaves.inked_eq (h : Leaves reads ps extra) :
    inked (kept reads ps) = inked (shown none ps) + inked extra := by
  induction h with
  | nil => cases ‹Bool› <;> rfl
  | letter rest ih =>
    rw [kept_letter, shown]
    simp only [inked, List.countP_cons] at ih ⊢
    omega
  | stray rest ih =>
    rw [kept_stray, shown, inked_append, inked_append]
    omega
  | toolCall hbody rest ih => rw [kept_toolCall hbody, shown, shown_closes hbody, ih]
  | think hbody hwhole rest ih => rw [kept_think hbody hwhole, shown, shown_closes hbody, ih]
  | openCall hbody hwhole hmore hnever hnever' rest ih =>
    rw [kept_openCall hbody hwhole hmore hnever hnever', shown, shown_openCall hbody hmore, ih]
  | endlessCall hnever =>
    rw [kept_endlessCall hnever, shown, shown_never hnever]
    exact (Nat.zero_add _).symm
  | unreadCall hnever =>
    rw [kept_unreadCall, shown, shown_never hnever]
    exact (Nat.zero_add _).symm
  | endlessThink hnever =>
    rw [kept_endlessThink hnever, shown, shown_never hnever]
    exact (Nat.zero_add _).symm

/-- If what is left is blank, it stands at the end. -/
theorem Leaves.kept_eq (h : Leaves reads ps extra) (hblank : inked extra = 0) :
    kept reads ps = shown none ps ++ extra := by
  induction h with
  | nil => cases ‹Bool› <;> rfl
  | letter rest ih => rw [kept_letter, shown, ih hblank, List.cons_append]
  | stray rest ih =>
    rename_i block _ _
    rw [inked_append] at hblank
    have hink := inked_tag (.closes block)
    omega
  | toolCall hbody rest ih => rw [kept_toolCall hbody, shown, shown_closes hbody, ih hblank]
  | think hbody hwhole rest ih =>
    rw [kept_think hbody hwhole, shown, shown_closes hbody, ih hblank]
  | openCall hbody hwhole hmore hnever hnever' rest ih =>
    rw [kept_openCall hbody hwhole hmore hnever hnever', shown, shown_openCall hbody hmore,
      ih hblank]
  | endlessCall hnever =>
    rw [kept_endlessCall hnever, shown, shown_never hnever]
    rfl
  | unreadCall hnever =>
    rw [kept_unreadCall, shown, shown_never hnever]
    rfl
  | endlessThink hnever =>
    rw [kept_endlessThink hnever, shown, shown_never hnever]
    rfl

/-- Without the whitespace at the ends the two are the same if and only if nothing but whitespace
is left. -/
theorem Leaves.trim_eq_iff (h : Leaves reads ps extra) :
    Str.trim (shown none ps) = Str.trim (kept reads ps) ↔ inked extra = 0 := by
  constructor
  · intro heq
    have hcount := congrArg inked heq
    rw [inked_trim, inked_trim, h.inked_eq] at hcount
    omega
  · intro hblank
    rw [h.kept_eq hblank, Str.trim_append_of_whitespace (inked_eq_zero.mp hblank)]

end Leaves

/-! ## Calls that end behind their think block -/

/-- What the stream hides behind the pieces. -/
def hiddenAfter : Option HiddenBlock → List TextPiece → Option HiddenBlock
  | hidden, [] => hidden
  | none, .tag (.opens block) :: ps => hiddenAfter (some block) ps
  | none, _ :: ps => hiddenAfter none ps
  | some block, p :: ps =>
    hiddenAfter (if p = .tag (.closes block) then none else some block) ps

/-- Outside of the blocks a think block begins, a call begins in it, and the call ends only behind
the think block. -/
def Crossed (ps : List TextPiece) : Prop :=
  ∃ before body more rest : List TextPiece, ps = before ++ .tag (.opens .think) ::
      (body ++ .tag (.opens .toolCall) :: (more ++ .tag (.closes .think) :: rest)) ∧
    hiddenAfter none before = none ∧ .tag (.closes .think) ∉ body ∧ Whole .toolCall false body ∧
    .tag (.closes .think) ∉ more ∧ .tag (.closes .toolCall) ∉ more ∧
    .tag (.closes .toolCall) ∈ rest

section Crossed

variable {ps before body rest : List TextPiece} {block : HiddenBlock}

/-- What stands behind blocks that have ended. -/
theorem Crossed.append (h : Crossed rest)
    (hbefore : ∀ qs, hiddenAfter none (before ++ qs) = hiddenAfter none qs) :
    Crossed (before ++ rest) := by
  obtain ⟨front, body, more, after, rfl, hhidden, hcross⟩ := h
  exact ⟨before ++ front, body, more, after, by rw [List.append_assoc],
    (hbefore front).trans hhidden, hcross⟩

theorem hiddenAfter_closes (h : .tag (.closes block) ∉ body) :
    hiddenAfter (some block) (body ++ .tag (.closes block) :: rest) = hiddenAfter none rest := by
  induction body with
  | nil =>
    show hiddenAfter _ rest = _
    rw [if_pos rfl]
  | cons p body ih =>
    have hp := List.ne_of_not_mem_cons h
    have hbody := List.not_mem_of_not_mem_cons h
    rw [List.cons_append, hiddenAfter, if_neg (Ne.symm hp), ih hbody]

theorem Crossed.behind (h : Crossed rest) (hbody : .tag (.closes block) ∉ body) :
    Crossed (.tag (.opens block) :: (body ++ .tag (.closes block) :: rest)) := by
  have hended : ∀ qs, hiddenAfter none ((.tag (.opens block) ::
      (body ++ [.tag (.closes block)])) ++ qs) = hiddenAfter none qs := by
    intro qs
    rw [List.cons_append, List.append_assoc, List.singleton_append, hiddenAfter,
      hiddenAfter_closes hbody]
  have hfront := h.append hended
  rw [List.cons_append, List.append_assoc, List.singleton_append] at hfront
  exact hfront

/-- Unless a call ends behind the think block in which it begins, it is known what is left. -/
theorem exists_leaves (reads : Bool) (ps : List TextPiece)
    (hreads : reads = false → .tag (.closes .toolCall) ∉ ps) (hcross : ¬ Crossed ps) :
    ∃ extra, Leaves reads ps extra := by
  induction hn : ps.length using Nat.strongRecOn generalizing reads ps with
  | ind n ih =>
    -- what stands behind a part of the text
    have hgo : ∀ (reads' : Bool) {qs : List TextPiece}, qs.length < ps.length → qs ⊆ ps →
        (reads' = false → reads = false ∨ .tag (.closes .toolCall) ∉ qs) → ¬ Crossed qs →
        ∃ extra, Leaves reads' qs extra := by
      intro reads' qs hlt hsub hreads' hqs
      refine ih qs.length (hn ▸ hlt) reads' qs (fun hfalse hmem => ?_) hqs rfl
      rcases hreads' hfalse with h | h
      · exact hreads h (hsub hmem)
      · exact h hmem
    cases ps with
    | nil => exact ⟨[], .nil⟩
    | cons p ps =>
      have hsub : ps ⊆ p :: ps := List.subset_cons_self p ps
      have hlt : ps.length < (p :: ps).length := Nat.lt_succ_self _
      cases p with
      | letter c =>
        have hletter : ∀ qs, hiddenAfter none ([.letter c] ++ qs) = hiddenAfter none qs :=
          fun qs => rfl
        obtain ⟨extra, h⟩ := hgo reads hlt hsub .inl fun h => hcross (h.append hletter)
        exact ⟨extra, .letter h⟩
      | tag t =>
        rcases t with block | block
        · by_cases hend : .tag (.closes block) ∈ ps
          · obtain ⟨body, rest, rfl, hbody⟩ := List.eq_append_cons_of_mem hend
            have hrest : rest ⊆ .tag (.opens block) :: (body ++ .tag (.closes block) :: rest) :=
              fun q hq =>
                List.mem_cons_of_mem _ (List.mem_append_right _ (List.mem_cons_of_mem _ hq))
            have hshort : rest.length <
                (.tag (.opens block) :: (body ++ .tag (.closes block) :: rest) :
                  List TextPiece).length := by
              simp only [List.length_cons, List.length_append]
              omega
            have hclear : ¬ Crossed rest := fun h => hcross (h.behind hbody)
            cases block with
            | toolCall =>
              cases reads with
              | false => exact absurd (List.mem_cons_of_mem _ hend) (hreads rfl)
              | true =>
                obtain ⟨extra, h⟩ := hgo true hshort hrest (fun h => by cases h) hclear
                exact ⟨extra, .toolCall hbody h⟩
            | think =>
              cases reads with
              | false =>
                obtain ⟨extra, h⟩ := hgo false hshort hrest .inl hclear
                exact ⟨extra, .think hbody (fun h => by cases h) h⟩
              | true =>
                rcases exists_open .toolCall false body with
                  hwhole | ⟨hfalse, -⟩ | ⟨front, more, rfl, hwhole, hmore⟩
                · obtain ⟨extra, h⟩ := hgo true hshort hrest (fun h => by cases h) hclear
                  exact ⟨extra, .think hbody (fun _ => hwhole) h⟩
                · cases hfalse
                · have hthink : (.tag (.closes .think) : TextPiece) ∉ front ∧
                      .tag (.closes .think) ∉ more := by
                    rw [List.mem_append, not_or] at hbody
                    exact ⟨hbody.1, List.not_mem_of_not_mem_cons hbody.2⟩
                  rw [List.append_assoc, List.cons_append] at hcross ⊢
                  have hnever : (.tag (.closes .toolCall) : TextPiece) ∉ rest := fun hmem =>
                    hcross ⟨[], front, more, rest, rfl, rfl, hthink.1, hwhole, hthink.2, hmore,
                      hmem⟩
                  obtain ⟨extra, h⟩ := hgo false hshort hrest (fun _ => .inr hnever) hclear
                  exact ⟨extra, .openCall hthink.1 hwhole hthink.2 hmore hnever h⟩
          · cases block with
            | toolCall =>
              cases reads with
              | true => exact ⟨_, .endlessCall hend⟩
              | false => exact ⟨_, .unreadCall hend⟩
            | think => exact ⟨_, .endlessThink hend⟩
        · obtain ⟨extra, h⟩ := hgo reads hlt hsub .inl
            fun h => hcross (h.append
              (fun qs => rfl : ∀ qs, hiddenAfter none ([.tag (.closes block)] ++ qs) = _))
          exact ⟨_, .stray h⟩

end Crossed

/-! ## The two readings of a text -/

def piecesOf (raw : Str) : List TextPiece := pieces Tag.text Tag.all 0 raw

/-- Nothing but whitespace is left beside what the stream shows. -/
def Settled (raw : Str) : Prop :=
  ∃ extra, Leaves true (piecesOf raw) extra ∧ ∀ c ∈ extra, Str.isWhitespace c = true

/-- In the text without its calls the parser takes letters for a think tag: for an opening tag outside
of the think blocks, or for the closing tag of one. -/
def JoinsTag (raw : Str) : Prop :=
  ¬ FindsTags .think false (strip .toolCall false (piecesOf raw))

/-- The streamed text is the content that is parsed, apart from whitespace at its ends. -/
def StreamAgrees {V : Type} (json : Json V) (raw : Str) : Prop :=
  ∃ visible, VisibleTextStream.stream [raw] .default = some visible ∧
    Str.trim visible = (parseToolCalls json raw).content

section Agrees

variable {V : Type} (json : Json V) {raw : Str}

theorem text_piecesOf (raw : Str) : text Tag.text (piecesOf raw) = raw :=
  text_pieces Tag.marked.ne_nil 0 raw

theorem lexed_piecesOf (raw : Str) : Lexed Tag.text Tag.all (piecesOf raw) :=
  lexed_pieces Tag.marked.ne_nil 0 raw

theorem content_eq (h : ¬ JoinsTag raw) :
    (parseToolCalls json raw).content = Str.trim (kept true (piecesOf raw)) := by
  have hlexed : FindsTags .toolCall false (piecesOf raw) :=
    .of_lexed (fun inside => Tag.mem_all _) (lexed_piecesOf raw)
  have hcalls : (toolCallBlock.stripAndCollect (parseToolCall json)
      (text Tag.text (piecesOf raw))).1 = text Tag.text (strip .toolCall false (piecesOf raw)) :=
    strip_text .toolCall (parseToolCall json) hlexed
  have hthink := strip_text .think (fun _ => (none : Option Unit)) (not_not.mp h)
  rw [text_piecesOf] at hcalls
  show Str.trim (thinkBlock.stripAndCollect _
    (toolCallBlock.stripAndCollect (parseToolCall json) raw).1).1 = _
  rw [hcalls]
  exact congrArg Str.trim hthink

theorem streamAgrees_iff : StreamAgrees json raw ↔
    Str.trim (shown none (piecesOf raw)) = (parseToolCalls json raw).content := by
  have hstream : VisibleTextStream.stream [raw] .default = some (shown none (piecesOf raw)) := by
    rw [VisibleTextStream.stream_eq_visible, List.flatten_cons, List.flatten_nil, List.append_nil,
      ← visible_text (lexed_piecesOf raw), text_piecesOf]
    rfl
  unfold StreamAgrees
  rw [hstream]
  constructor
  · rintro ⟨visible, hvisible, htrim⟩
    rw [Option.some.inj hvisible]
    exact htrim
  · exact fun htrim => ⟨_, rfl, htrim⟩

/-- The stream and the parser agree on a settled text in which no tag is joined, and on no other
text unless a call ends behind its think block or a tag is joined. -/
theorem stream_agrees (raw : Str) :
    (Settled raw → ¬ JoinsTag raw → StreamAgrees json raw) ∧
      (StreamAgrees json raw → Settled raw ∨ Crossed (piecesOf raw) ∨ JoinsTag raw) := by
  constructor
  · rintro ⟨extra, hleaves, hblank⟩ hjoin
    rw [streamAgrees_iff, content_eq json hjoin, hleaves.trim_eq_iff]
    exact inked_eq_zero.mpr hblank
  · intro hagrees
    by_cases hjoin : JoinsTag raw
    · exact .inr (.inr hjoin)
    by_cases hcross : Crossed (piecesOf raw)
    · exact .inr (.inl hcross)
    rw [streamAgrees_iff, content_eq json hjoin] at hagrees
    obtain ⟨extra, hleaves⟩ := exists_leaves true (piecesOf raw) (fun h => by cases h) hcross
    exact .inl ⟨extra, hleaves, inked_eq_zero.mp (hleaves.trim_eq_iff.mp hagrees)⟩

end Agrees

-- A call that ends behind its think block, with the same text in both places.
example : StreamAgrees plainJson "<think>a<tool_call>b</think>a</tool_call>d".toList := by
  rw [streamAgrees_iff]
  decide +kernel

-- A closing tag that is joined at the end of the text.
example : StreamAgrees plainJson "<think>a</thi<tool_call>x</tool_call>nk>".toList := by
  rw [streamAgrees_iff]
  decide +kernel

-- A joined closing tag that stands alone is text for both.
example : ¬ JoinsTag "</thi<tool_call>x</tool_call>nk>abc".toList := not_not.mpr (by decide +kernel)

/-- A thought, an answer and a call. -/
def answered : Str := "<think>x</think>Hi<tool_call>y</tool_call>".toList

/-- The stream and the parser agree on them. -/
theorem stream_agrees_answered : StreamAgrees plainJson answered := by
  have hpieces : piecesOf answered = [.tag (.opens .think), .letter 'x', .tag (.closes .think),
      .letter 'H', .letter 'i', .tag (.opens .toolCall), .letter 'y',
      .tag (.closes .toolCall)] := by decide +kernel
  have hthink : .tag (.closes .think) ∉ [(.letter 'x' : TextPiece)] := by decide
  have hcall : .tag (.closes .toolCall) ∉ [(.letter 'y' : TextPiece)] := by decide
  have hleaves : Leaves true (piecesOf answered) [] := by
    rw [hpieces]
    exact .think hthink (fun _ => rfl) (.letter (.letter (.toolCall hcall .nil)))
  have hfinds : FindsTags .think false (strip .toolCall false (piecesOf answered)) := by
    rw [hpieces]
    decide
  exact (stream_agrees plainJson answered).1
    ⟨[], hleaves, fun c hc => absurd hc List.not_mem_nil⟩ fun hjoin => hjoin hfinds

/-- A thought that is cut off: the stream hides it, and the parser makes it the content. -/
theorem unfinished_thought_is_shown :
    VisibleTextStream.stream ["<think>secret".toList] .default = some [] ∧
      (parseToolCalls plainJson "<think>secret".toList).content = "secret".toList ∧
      ¬ StreamAgrees plainJson "<think>secret".toList := by
  have hstream : VisibleTextStream.stream ["<think>secret".toList] .default = some [] := by
    rw [VisibleTextStream.stream_eq_visible]
    decide +kernel
  have hcontent : (parseToolCalls plainJson "<think>secret".toList).content =
      "secret".toList := by decide +kernel
  refine ⟨hstream, hcontent, ?_⟩
  rintro ⟨visible, hvisible, htrim⟩
  rw [hstream] at hvisible
  rw [← Option.some.inj hvisible, hcontent] at htrim
  exact absurd htrim (by decide)

end Arle.Chat
