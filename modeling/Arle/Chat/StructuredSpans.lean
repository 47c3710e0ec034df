import Mathlib
import Arle.Lib.Text
import Arle.Chat.ToolCallRoundTrip

/-!
# Rendered messages with the spans of their turns

The data for training is rendered apart from the prompts that are served: every message is appended
with the span of its turn and with that of the labels. Without tools the two renderers write the
same turns, and what a turn holds depends on its message alone: the header before it ends with a
newline.
-/

namespace Arle.Chat

section Model

structure ByteRange where
  start : Nat
  stop : Nat
deriving DecidableEq

structure ChatMlSpan where
  turn : ByteRange
  supervised : ByteRange
deriving DecidableEq

structure RenderedChatMl where
  prompt : Str
  spans : List ChatMlSpan
deriving DecidableEq

variable {V : Type} (json : Json V)

/-- The role that a turn is headed by. -/
def ChatRole.rendered : ChatRole → ChatRole
  | .tool => .user
  | role => role

def appendStructuredChatmlMessageWithSpan (prompt : Str) (message : ChatMessage V) :
    Str × ChatMlSpan :=
  let turnStart := Str.len prompt
  let prompt := prompt ++ "<|im_start|>".toList ++ message.role.rendered.asStr ++ ['\n']
  let supervisedStart := Str.len prompt
  let prompt := match message.role with
    | .system | .user | .other _ => prompt ++ message.content
    | .assistant => appendAssistantContent json prompt message.content message.toolCalls
    | .tool => prompt ++ "<tool_response>\n".toList ++ message.content ++
        "\n</tool_response>".toList
  let prompt := prompt ++ "<|im_end|>\n".toList
  let supervisedEnd :=
    if message.role = .assistant then Str.len prompt - 1 else supervisedStart
  (prompt, { turn := ⟨turnStart, Str.len prompt⟩, supervised := ⟨supervisedStart, supervisedEnd⟩ })

/-- A message is appended and its span is pushed. -/
def RenderedChatMl.pushMessage (self : RenderedChatMl) (message : ChatMessage V) :
    RenderedChatMl :=
  let appended := appendStructuredChatmlMessageWithSpan json self.prompt message
  { prompt := appended.1, spans := self.spans ++ [appended.2] }

def renderStructuredChatmlWithSpans (messages : List (ChatMessage V))
    (addGenerationPrompt : Bool) : RenderedChatMl :=
  let rendered := messages.foldl (RenderedChatMl.pushMessage json) { prompt := [], spans := [] }
  if addGenerationPrompt then
    { rendered with prompt := rendered.prompt ++ "<|im_start|>assistant\n".toList }
  else
    rendered

end Model

/-! ## The text of a turn -/

section Turn

variable {V : Type} (json : Json V)

/-- The content of an assistant with its tool calls, each block on a line of its own. -/
def assistantText (content : Str) : List (ToolCall V) → Str
  | [] => content
  | call :: calls =>
    content ++ (if content = [] then [] else newlineAfter content) ++ toolBlock json call ++
      toolBlocks json calls

/-- What a turn says, between its header and its end. -/
def turnBody (message : ChatMessage V) : Str :=
  match message.role with
  | .system | .user | .other _ => message.content
  | .assistant => assistantText json message.content message.toolCalls
  | .tool => "<tool_response>\n".toList ++ message.content ++ "\n</tool_response>".toList

def turnHeader (message : ChatMessage V) : Str :=
  "<|im_start|>".toList ++ message.role.rendered.asStr ++ ['\n']

def turnText (message : ChatMessage V) : Str :=
  turnHeader message ++ (turnBody json message ++ "<|im_end|>".toList) ++ ['\n']

/-- Behind a newline the appended content does not depend on the prompt. -/
theorem appendAssistantContent_eq {prompt : Str} (h : prompt.getLast? = some '\n')
    (content : Str) (calls : List (ToolCall V)) :
    appendAssistantContent json prompt content calls =
      prompt ++ assistantText json content calls := by
  cases calls with
  | nil => rfl
  | cons call calls =>
    have hgap : newlineAfter (prompt ++ content) =
        if content = [] then [] else newlineAfter content := by
      unfold newlineAfter
      cases content with
      | nil => rw [List.append_nil, if_pos h, if_pos rfl]
      | cons c content => rw [List.getLast?_append_cons, if_neg (List.cons_ne_nil _ _)]
    have hlast : (prompt ++ content ++ newlineAfter (prompt ++ content) ++
        toolBlock json call).getLast? ≠ some '\n' := by
      rw [getLast?_toolBlock]
      decide
    rw [appendAssistantContent, List.foldl_cons, appendToolCallBlock_eq,
      foldl_appendToolCallBlock hlast, hgap]
    simp only [assistantText, toolBlocks, List.append_assoc]

theorem getLast?_turnHeader (prompt : Str) (message : ChatMessage V) :
    (prompt ++ turnHeader message).getLast? = some '\n' := by
  unfold turnHeader
  rw [← List.append_assoc prompt _ ['\n']]
  exact List.getLast?_concat

/-- What the writer of a role puts behind the header. -/
theorem body_eq (prompt : Str) (message : ChatMessage V) :
    (match message.role with
      | .system | .user | .other _ => prompt ++ turnHeader message ++ message.content
      | .assistant => appendAssistantContent json (prompt ++ turnHeader message) message.content
          message.toolCalls
      | .tool => prompt ++ turnHeader message ++ "<tool_response>\n".toList ++ message.content ++
          "\n</tool_response>".toList) =
      prompt ++ turnHeader message ++ turnBody json message := by
  unfold turnBody
  cases message.role with
  | system | user | other role => rfl
  | assistant => exact appendAssistantContent_eq json (getLast?_turnHeader prompt message) _ _
  | tool => simp only [List.append_assoc]

/-- The span of a turn that begins at an offset. -/
def spanAt (start : Nat) (message : ChatMessage V) : ChatMlSpan :=
  let supervisedStart := start + Str.len (turnHeader message)
  { turn := ⟨start, start + Str.len (turnText json message)⟩
    supervised := ⟨supervisedStart, if message.role = .assistant then
      supervisedStart + Str.len (turnBody json message ++ "<|im_end|>".toList)
      else supervisedStart⟩ }

theorem header_assoc (prompt role : Str) : prompt ++ "<|im_start|>".toList ++ role ++ ['\n'] =
    prompt ++ ("<|im_start|>".toList ++ role ++ ['\n']) := by
  have hassoc (a b c : Str) : prompt ++ a ++ b ++ c = prompt ++ (a ++ b ++ c) := by
    simp only [List.append_assoc]
  exact hassoc _ _ _

theorem turnText_assoc (prompt : Str) (message : ChatMessage V) :
    prompt ++ turnHeader message ++ turnBody json message ++ "<|im_end|>\n".toList =
      prompt ++ turnText json message := by
  have hassoc (a b c d : Str) : prompt ++ a ++ b ++ (c ++ d) = prompt ++ (a ++ (b ++ c) ++ d) := by
    simp only [List.append_assoc]
  have hend : "<|im_end|>\n".toList = "<|im_end|>".toList ++ ['\n'] := by decide
  rw [hend]
  exact hassoc _ _ _ _

theorem appendStructured_eq (prompt : Str) (message : ChatMessage V) :
    appendStructuredChatmlMessageWithSpan json prompt message =
      (prompt ++ turnText json message, spanAt json (Str.len prompt) message) := by
  have hheader : prompt ++ "<|im_start|>".toList ++ message.role.rendered.asStr ++ ['\n'] =
      prompt ++ turnHeader message := header_assoc prompt _
  have hstop : Str.len (prompt ++ turnText json message) - 1 = Str.len prompt +
      Str.len (turnHeader message) + Str.len (turnBody json message ++ "<|im_end|>".toList) := by
    have hnewline : Str.len ['\n'] = 1 := rfl
    rw [turnText, Str.len_append, Str.len_append, Str.len_append, hnewline]
    omega
  unfold appendStructuredChatmlMessageWithSpan spanAt
  dsimp only
  rw [hheader, body_eq, turnText_assoc, hstop, Str.len_append, Str.len_append]

/-- The renderer of the prompts writes the same turn when there are no tools. -/
theorem pushMessage_eq (self : PromptRenderer) (htools : self.toolBlock = [])
    (message : ChatMessage V) :
    (self.pushMessage json message).prompt = self.prompt ++ turnText json message ∧
      (self.pushMessage json message).toolBlock = [] := by
  have hstart (role : Str) : (self.startMessage role).prompt =
      self.prompt ++ ("<|im_start|>".toList ++ role ++ ['\n']) := header_assoc _ _
  have hensure : self.ensureDefaultSystemMessage = self := if_pos (Or.inr htools)
  rw [← turnText_assoc, ← body_eq]
  obtain ⟨role, content, toolCalls⟩ := message
  cases role with
  | system =>
    refine ⟨?_, htools⟩
    show (self.startMessage _).prompt ++ content ++ self.toolBlock ++ _ = _
    rw [htools, List.append_nil, hstart]
    rfl
  | user =>
    show (self.pushUser content).prompt = _ ∧ (self.pushUser content).toolBlock = _
    unfold PromptRenderer.pushUser
    rw [hensure]
    refine ⟨?_, htools⟩
    show (self.startMessage _).prompt ++ content ++ _ = _
    rw [hstart]
    rfl
  | assistant =>
    refine ⟨?_, htools⟩
    show appendAssistantContent json (self.startMessage _).prompt content toolCalls ++ _ = _
    rw [hstart]
    rfl
  | tool =>
    refine ⟨?_, htools⟩
    show (self.startMessage _).prompt ++ _ ++ content ++ _ ++ _ = _
    rw [hstart]
    rfl
  | other role =>
    refine ⟨?_, htools⟩
    show (self.startMessage _).prompt ++ content ++ _ = _
    rw [hstart]
    rfl

end Turn

/-! ## All messages -/

section Messages

variable {V : Type} (json : Json V)

/-- The spans of turns that follow one another from an offset. -/
def spansFrom : Nat → List (ChatMessage V) → List ChatMlSpan
  | _, [] => []
  | start, message :: messages =>
    spanAt json start message :: spansFrom (start + Str.len (turnText json message)) messages

/-- The ranges follow one another from `start` to `stop`. -/
def Consecutive : List ByteRange → Nat → Nat → Prop
  | [], start, stop => start = stop
  | range :: ranges, start, stop =>
    range.start = start ∧ start ≤ range.stop ∧ Consecutive ranges range.stop stop

/-- The span of a message in a prompt: it selects the turn, and for an assistant the labels are
on what the turn says and on the mark of its end. -/
structure IsSpanOf (prompt : Str) (message : ChatMessage V) (span : ChatMlSpan) : Prop where
  turn : Str.slice prompt span.turn.start span.turn.stop = some (turnText json message)
  starts : span.turn.start ≤ span.supervised.start
  ordered : span.supervised.start ≤ span.supervised.stop
  stops : span.supervised.stop ≤ span.turn.stop
  nonempty : span.supervised.start < span.supervised.stop ↔ message.role = .assistant
  selected : message.role = .assistant →
    Str.slice prompt span.supervised.start span.supervised.stop =
      some (assistantText json message.content message.toolCalls ++ "<|im_end|>".toList)

theorem foldl_pushMessage (messages : List (ChatMessage V)) (rendered : RenderedChatMl) :
    messages.foldl (RenderedChatMl.pushMessage json) rendered =
      { prompt := rendered.prompt ++ messages.flatMap (turnText json)
        spans := rendered.spans ++ spansFrom json (Str.len rendered.prompt) messages } := by
  induction messages generalizing rendered with
  | nil =>
    rw [List.flatMap_nil, List.append_nil]
    exact congrArg (RenderedChatMl.mk _) (List.append_nil _).symm
  | cons message messages ih =>
    rw [List.foldl_cons, ih, RenderedChatMl.pushMessage, appendStructured_eq]
    dsimp only
    rw [Str.len_append, List.flatMap_cons, List.append_assoc, List.append_assoc]
    rfl

theorem foldl_prompt (messages : List (ChatMessage V)) (self : PromptRenderer)
    (htools : self.toolBlock = []) :
    (messages.foldl (PromptRenderer.pushMessage json) self).prompt =
      self.prompt ++ messages.flatMap (turnText json) := by
  induction messages generalizing self with
  | nil => exact (List.append_nil _).symm
  | cons message messages ih =>
    obtain ⟨hprompt, htools⟩ := pushMessage_eq json self htools message
    rw [List.foldl_cons, ih _ htools, hprompt, List.flatMap_cons, List.append_assoc]

theorem consecutive_spansFrom (messages : List (ChatMessage V)) (start : Nat) :
    Consecutive ((spansFrom json start messages).map ChatMlSpan.turn) start
      (start + Str.len (messages.flatMap (turnText json))) := by
  induction messages generalizing start with
  | nil => rfl
  | cons message messages ih =>
    refine ⟨rfl, Nat.le_add_right _ _, ?_⟩
    rw [List.flatMap_cons, Str.len_append, ← Nat.add_assoc]
    exact ih _

theorem isSpanOf_spanAt (before after : Str) (message : ChatMessage V) :
    IsSpanOf json (before ++ (turnText json message ++ after)) message
      (spanAt json (Str.len before) message) := by
  have hturn : Str.len (turnText json message) = Str.len (turnHeader message) +
      Str.len (turnBody json message ++ "<|im_end|>".toList) + Str.len ['\n'] := by
    rw [turnText, Str.len_append, Str.len_append]
  have hnonempty : 0 < Str.len (turnBody json message ++ "<|im_end|>".toList) := by
    have hend : 0 < Str.len "<|im_end|>".toList := by decide
    rw [Str.len_append]
    omega
  have hslice : Str.slice (before ++ (turnText json message ++ after))
      (Str.len before + Str.len (turnHeader message))
      (Str.len before + Str.len (turnHeader message) +
        Str.len (turnBody json message ++ "<|im_end|>".toList)) =
      some (turnBody json message ++ "<|im_end|>".toList) := by
    have := Str.slice_append (before ++ turnHeader message)
      (turnBody json message ++ "<|im_end|>".toList) (['\n'] ++ after)
    rw [Str.len_append, Str.len_append, Str.len_append] at this
    rw [← this, turnText]
    simp only [List.append_assoc]
  unfold spanAt
  refine ⟨?_, Nat.le_add_right _ _, ?_, ?_, ?_, fun hrole => ?_⟩
  · have := Str.slice_append before (turnText json message) after
    rwa [Str.len_append] at this
  · dsimp only
    split <;> omega
  · dsimp only
    split <;> omega
  · dsimp only
    split
    · next hrole => exact iff_of_true (by omega) hrole
    · next hrole => exact iff_of_false (Nat.lt_irrefl _) hrole
  · dsimp only
    rw [if_pos hrole, hslice, turnBody, hrole]

theorem isSpanOf_spansFrom (messages : List (ChatMessage V)) (before after : Str) :
    List.Forall₂ (IsSpanOf json (before ++ (messages.flatMap (turnText json) ++ after))) messages
      (spansFrom json (Str.len before) messages) := by
  induction messages generalizing before with
  | nil => exact List.Forall₂.nil
  | cons message messages ih =>
    rw [List.flatMap_cons, List.append_assoc]
    refine List.Forall₂.cons (isSpanOf_spanAt json before _ message) ?_
    have := ih (before ++ turnText json message)
    rwa [Str.len_append, List.append_assoc] at this

/-- The prompt that is rendered for training is the one that is served without tools, its turns
follow one another up to the header of the answer, and every span is that of its message. -/
theorem renderStructured_agrees (messages : List (ChatMessage V)) :
    let rendered := renderStructuredChatmlWithSpans json messages true
    rendered.prompt = messagesToPrompt json messages [] ∧
      (∃ turns, rendered.prompt = turns ++ "<|im_start|>assistant\n".toList ∧
        Consecutive (rendered.spans.map ChatMlSpan.turn) 0 (Str.len turns)) ∧
      List.Forall₂ (IsSpanOf json rendered.prompt) messages rendered.spans := by
  have hrendered : renderStructuredChatmlWithSpans json messages true =
      { prompt := messages.flatMap (turnText json) ++ "<|im_start|>assistant\n".toList
        spans := spansFrom json 0 messages } := by
    rw [renderStructuredChatmlWithSpans, foldl_pushMessage]
    rfl
  have hserved : messagesToPrompt json messages [] =
      messages.flatMap (turnText json) ++ "<|im_start|>assistant\n".toList := by
    rw [messagesToPrompt, PromptRenderer.finish, foldl_prompt json messages _ rfl]
    rfl
  dsimp only
  rw [hrendered]
  refine ⟨hserved.symm, ⟨_, rfl, ?_⟩, isSpanOf_spansFrom json messages [] _⟩
  have := consecutive_spansFrom json messages 0
  rwa [Nat.zero_add] at this

end Messages

end Arle.Chat
