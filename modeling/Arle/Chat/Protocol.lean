import Mathlib
import Arle.Lib.Quoted
import Arle.Chat.VisibleText

/-!
# The chat protocol

Messages and tool calls, the prompt that is made of them, and the tool calls that are read back
from the output of the model. The JSON library is a parameter.
-/

namespace Arle.Chat

/-- What the protocol uses of a JSON library with the values `V`; `fromText` gives `none` for a
text that it rejects. -/
structure Json (V : Type) where
  toText : V → Str
  fromText : Str → Option V
  text : Str → V
  array : List V → V
  object : List (Str × V) → V
  get : V → Str → Option V
  asText : V → Option Str
  asArray : V → Option (List V)
  asObject : V → Option (List (Str × V))

/-- The documented behaviour of a JSON library. -/
structure Json.Documented {V : Type} (json : Json V) : Prop where
  fromText_toText : ∀ v, json.fromText (json.toText v) = some v
  asText_text : ∀ s, json.asText (json.text s) = some s
  get_object : ∀ fields : List (Str × V), (fields.map Prod.fst).Nodup →
    ∀ key, json.get (json.object fields) key = fields.lookup key
  toText_object : ∀ fields, ∃ inside, json.toText (json.object fields) = '{' :: inside ++ ['}']

/-- What else is documented of a JSON library: the texts that it accepts are well formed, and it
escapes quotes, backslashes and control characters only. `strings` gives the strings of a value,
the keys included. -/
structure Json.Lexical {V : Type} (json : Json V) (strings : V → List Str) : Prop where
  lexes : ∀ s v, json.fromText s = some v → Quoted.Lexes s
  spelled : ∀ s v, json.fromText s = some v → '\\' ∉ s → ∀ t ∈ strings v, t <:+: s
  written : ∀ v pat, pat.head? = some '<' → '"' ∉ pat → '\\' ∉ pat →
    pat <:+: json.toText v → ∃ t ∈ strings v, pat <:+: t
  strings_get : ∀ v key w, json.get v key = some w → strings w ⊆ strings v
  strings_asText : ∀ v s, json.asText v = some s → s ∈ strings v
  strings_text : ∀ s, strings (json.text s) ⊆ [s]
  strings_object : ∀ fields, ∀ t ∈ strings (json.object fields),
    ∃ field ∈ fields, t = field.1 ∨ t ∈ strings field.2

section Model

variable {V : Type}

structure ToolCall (V : Type) where
  name : Str
  arguments : V
deriving DecidableEq

structure ToolDefinition (V : Type) where
  name : Str
  description : Str
  parameters : V

inductive ChatRole
  | system
  | user
  | assistant
  | tool
  | other (role : Str)
deriving DecidableEq

def ChatRole.asStr : ChatRole → Str
  | .system => "system".toList
  | .user => "user".toList
  | .assistant => "assistant".toList
  | .tool => "tool".toList
  | .other role => role

structure ChatMessage (V : Type) where
  role : ChatRole
  content : Str
  toolCalls : List (ToolCall V)
deriving DecidableEq

namespace ChatMessage

def system (content : Str) : ChatMessage V := ⟨.system, content, []⟩

def user (content : Str) : ChatMessage V := ⟨.user, content, []⟩

def assistant (content : Str) (toolCalls : List (ToolCall V)) : ChatMessage V :=
  ⟨.assistant, content, toolCalls⟩

/-- The name of the tool is not kept. -/
def toolResult (_toolName result : Str) : ChatMessage V := ⟨.tool, result, []⟩

end ChatMessage

structure ParsedAssistantResponse (V : Type) where
  content : Str
  toolCalls : List (ToolCall V)
deriving DecidableEq

/-- The rounds of the loop of `strip_and_collect`. -/
def TaggedBlock.stripLoop {T : Type} (self : TaggedBlock) (parseBlock : Str → Option T) :
    Nat → Str → Str × List T
  | 0, remaining => (remaining, [])
  | fuel + 1, remaining =>
    match Search.cut self.opening remaining with
    | none => (remaining, [])
    | some (before, remaining) =>
      match Search.cut self.closing remaining with
      | none => (before ++ remaining, [])
      | some (block, remaining) =>
        let tail := self.stripLoop parseBlock fuel remaining
        (before ++ tail.1, (parseBlock (Str.trim block)).toList ++ tail.2)

/-- `strip_and_collect`: the text without the blocks, and what is read from them. Every round
takes an opening tag out of the text. -/
def TaggedBlock.stripAndCollect {T : Type} (self : TaggedBlock) (parseBlock : Str → Option T)
    (text : Str) : Str × List T := self.stripLoop parseBlock (text.length + 1) text

def TaggedBlock.stripAll (self : TaggedBlock) (text : Str) : Str :=
  (self.stripAndCollect (fun _ => (none : Option Unit)) text).1

variable (json : Json V)

namespace ToolDefinition

/-- `compact_parameters`. -/
def compactParameters (parameters : V) : V :=
  match json.asObject parameters with
  | none => parameters
  | some _ =>
    match (json.get parameters "properties".toList).bind json.asObject with
    | none => parameters
    | some properties =>
      let compact := properties.map fun property =>
        (property.1, json.text (((json.get property.2 "type".toList).bind json.asText).getD
          "value".toList))
      match (json.get parameters "required".toList).bind json.asArray with
      | none | some [] => json.object compact
      | some required =>
        -- An insertion replaces the value of a key that is there.
        json.object (compact.filter (fun field => field.1 ≠ "required".toList) ++
          [("required".toList, json.array required)])

def promptSchema (self : ToolDefinition V) : V :=
  json.object [("name".toList, json.text self.name),
    ("description".toList, json.text self.description),
    ("arguments".toList, compactParameters json self.parameters)]

end ToolDefinition

/-- The value that stands in a prompt for a call. -/
def ToolCall.promptValue (self : ToolCall V) : V :=
  json.object [("name".toList, json.text self.name), ("arguments".toList, self.arguments)]

def ToolCall.promptPayload (self : ToolCall V) : Str := json.toText (self.promptValue json)

def buildToolBlock (tools : List (ToolDefinition V)) : Str :=
  if tools = [] then
    []
  else
    "\n<tools>".toList ++
      tools.flatMap (fun tool => '\n' :: json.toText (tool.promptSchema json)) ++
      ("\n</tools>\nUse <tool_call>\x7b\"name\":\"...\",\"arguments\":\x7b...\x7d\x7d" ++
        "</tool_call>. Never echo <tools>, <tool_call>, or <tool_response> in the final " ++
        "user-facing answer.").toList

def appendToolCallBlock (prompt : Str) (toolCall : ToolCall V) : Str :=
  let prompt := if prompt.getLast? = some '\n' then prompt else prompt ++ ['\n']
  prompt ++ toolCallBlock.opening ++ ['\n'] ++ toolCall.promptPayload json ++ ['\n'] ++
    toolCallBlock.closing

def appendAssistantContent (prompt content : Str) (toolCalls : List (ToolCall V)) : Str :=
  toolCalls.foldl (appendToolCallBlock json) (prompt ++ content)

structure PromptRenderer where
  prompt : Str
  toolBlock : Str
  systemInjected : Bool

namespace PromptRenderer

variable (self : PromptRenderer)

def startMessage (role : Str) : PromptRenderer :=
  { self with prompt := self.prompt ++ "<|im_start|>".toList ++ role ++ ['\n'] }

def endMessage : PromptRenderer :=
  { self with prompt := self.prompt ++ "<|im_end|>\n".toList }

def pushText (text : Str) : PromptRenderer := { self with prompt := self.prompt ++ text }

def ensureDefaultSystemMessage : PromptRenderer :=
  if self.systemInjected ∨ self.toolBlock = [] then
    self
  else
    { ((((self.startMessage ChatRole.system.asStr).pushText
        "You are a helpful assistant.".toList).pushText self.toolBlock).endMessage) with
      systemInjected := true }

def pushSystem (content : Str) : PromptRenderer :=
  { ((((self.startMessage ChatRole.system.asStr).pushText content).pushText
      self.toolBlock).endMessage) with
    systemInjected := true }

def pushUser (content : Str) : PromptRenderer :=
  ((self.ensureDefaultSystemMessage.startMessage ChatRole.user.asStr).pushText
    content).endMessage

def pushAssistant (content : Str) (toolCalls : List (ToolCall V)) : PromptRenderer :=
  let started := self.startMessage ChatRole.assistant.asStr
  { started with
    prompt := appendAssistantContent json started.prompt content toolCalls }.endMessage

/-- Tool results are fed back as user messages. -/
def pushTool (content : Str) : PromptRenderer :=
  ((((self.startMessage ChatRole.user.asStr).pushText "<tool_response>\n".toList).pushText
    content).pushText "\n</tool_response>".toList).endMessage

def pushOther (role content : Str) : PromptRenderer :=
  ((self.startMessage role).pushText content).endMessage

def pushMessage (message : ChatMessage V) : PromptRenderer :=
  match message.role with
  | .system => self.pushSystem message.content
  | .user => self.pushUser message.content
  | .assistant => self.pushAssistant json message.content message.toolCalls
  | .tool => self.pushTool message.content
  | .other role => self.pushOther role message.content

def finish : Str := self.prompt ++ "<|im_start|>assistant\n".toList

end PromptRenderer

def messagesToPrompt (messages : List (ChatMessage V)) (tools : List (ToolDefinition V)) : Str :=
  (messages.foldl (PromptRenderer.pushMessage json)
    { prompt := [], toolBlock := buildToolBlock json tools, systemInjected := false }).finish

/-- The call that a block stands for. -/
def parseToolCall (jsonStr : Str) : Option (ToolCall V) :=
  match json.fromText jsonStr with
  | none => none
  | some value => some {
      name := ((json.get value "name".toList).bind json.asText).getD []
      arguments := (json.get value "arguments".toList).getD (json.object []) }

def parseToolCalls (text : Str) : ParsedAssistantResponse V :=
  let parsed := toolCallBlock.stripAndCollect (parseToolCall json) text
  { content := Str.trim (thinkBlock.stripAll parsed.1), toolCalls := parsed.2 }

end Model

end Arle.Chat
