import Mathlib
import Arle.Lib.Word
import Arle.Agent.Complete
import Arle.Chat.Protocol

/-!
# The turns of an agent session

A turn asks the engine for a response, executes the tool calls in it and goes on with their
results, until a response has no tool calls. The tools and the policy are parameters, as is the
engine; what they keep is in the world. Clocks and callbacks are left out.
-/

namespace Arle.Agent

open ServerEngine Chat

def toolPlanningMaxTokens : Nat := 256

structure AgentSettings where
  maxTurns : Nat
  maxTokens : Nat
  temperature : Float32

/-- The result of a tool call, and whether it was truncated. -/
structure ToolExecution where
  result : Str
  truncated : Bool

abbrev ToolExecutor (W V : Type) := W → ToolCall V → ToolExecution × W

structure ToolPolicy (W V : Type) where
  recoverToolCallsFromUserRequest :
    W → Str → List (ToolDefinition V) → Option (ParsedAssistantResponse V) × W
  recoverToolCallsFromDraft :
    W → Str → List (ToolDefinition V) → Option (ParsedAssistantResponse V) × W
  shouldRepairToolCalls : W → Str → Bool × W
  finalizeResponseText : W → (userInput content : Str) → (lastToolName lastToolScalarResult :
    Option Str) → (toolCallsExecuted : Nat) → Str × W
  finalizeAfterToolExecution : W → (userInput : Str) → (lastToolName lastToolResult
    lastToolScalarResult : Option Str) → Option Str × W

inductive AgentTraceEvent (V : Type)
  | assistantNote (note : Str)
  | toolCall (name : Str) (arguments : V) (result : Str)

structure TokensRecord where
  promptIds : List UInt32
  responseIds : List UInt32
  responseMask : List UInt8

inductive TrajectoryRole
  | user
  | assistant
  | tool

inductive ContentBlock (V : Type)
  | text (text : Str)
  | toolUse (id name : Str) (input : V)

inductive MessageContent (V : Type)
  | text (text : Str)
  | blocks (blocks : List (ContentBlock V))

structure TrajectoryMessage (V : Type) where
  role : TrajectoryRole
  content : MessageContent V
  toolUseId : Option Str
  resultTruncated : Option Bool

structure SubTurnRecord where
  index : Nat
  promptText : Option Str
  completionText : Str
  promptTokens : Nat
  completionTokens : Nat
  finishReason : Str

inductive TerminalState
  | stop
  | maxTurns
  | emptyNoProgress
  | policyShortCircuit

structure AgentTurnResult (V : Type) where
  text : Str
  toolCallsExecuted : Nat
  promptTokens : Nat
  completionTokens : Nat
  maxTurnsReached : Bool
  traceEvents : List (AgentTraceEvent V)
  messages : List (TrajectoryMessage V)
  subTurns : List SubTurnRecord
  terminalState : TerminalState
  tokens : Option TokensRecord

def finishReasonToStr : FinishReason → Str
  | .stop => "stop".toList
  | .length => "length".toList

def toolUseId (subTurnIndex callIndex : Nat) : Str := s!"tu_{subTurnIndex}_{callIndex}".toList

def scalarToolResult (result : Str) : Option Str :=
  if (Str.find result "[stderr]".toList).isSome then
    none
  else
    match ((result.splitOn '\n').map Str.trim).filter fun line => !line.isEmpty with
    | [line] => if Str.len line > 120 then none else some line
    | _ => none

/-- The token layer of a turn: what the prompt and the responses consist of so far. -/
structure TokenLayer where
  promptIds : Option (List UInt32)
  responseIds : List UInt32
  responseMask : List UInt8
  aborted : Bool

namespace TokenLayer

def start : TokenLayer :=
  { promptIds := none, responseIds := [], responseMask := [], aborted := false }

/-- The tokens that the prompt of a completion adds to those that are known. -/
def addPrompt (self : TokenLayer) (promptTokenIds : List UInt32) : TokenLayer :=
  match self.promptIds with
  | none =>
    if promptTokenIds = [] then { self with aborted := true }
    else { self with promptIds := some promptTokenIds }
  | some existing =>
    let expectedOffset := existing.length + self.responseIds.length
    if promptTokenIds.length < existing.length / 2 then
      { self with aborted := true }
    else if promptTokenIds.length ≥ expectedOffset then
      let envDelta := promptTokenIds.drop expectedOffset
      { self with
        responseIds := self.responseIds ++ envDelta
        responseMask := self.responseMask ++ List.replicate envDelta.length 0 }
    else
      self

def addResponse (self : TokenLayer) (responseTokenIds : List UInt32) : TokenLayer :=
  if responseTokenIds = [] then
    { self with aborted := true }
  else
    { self with
      responseIds := self.responseIds ++ responseTokenIds
      responseMask := self.responseMask ++ List.replicate responseTokenIds.length 1 }

/-- A completion of the main loop or of a repair. -/
def add (self : TokenLayer) (output : CompletionOutput) : TokenLayer :=
  if self.aborted then
    self
  else
    let prompted := self.addPrompt output.promptTokenIds
    if prompted.aborted then prompted else prompted.addResponse output.responseTokenIds

/-- `build_tokens_record`. -/
def record (self : TokenLayer) : Option TokensRecord :=
  if self.aborted then
    none
  else
    match self.promptIds with
    | none => none
    | some promptIds =>
      if promptIds = [] ∨ self.responseIds.length ≠ self.responseMask.length then
        none
      else
        some { promptIds, responseIds := self.responseIds, responseMask := self.responseMask }

end TokenLayer

/-- What a turn works on: the messages of the session, its accumulators, and the world. -/
structure Turn (W V : Type) where
  messages : List (ChatMessage V)
  toolCallsExecuted : Nat
  promptTokens : Nat
  completionTokens : Nat
  lastToolName : Option Str
  lastToolResult : Option Str
  lastToolScalarResult : Option Str
  traceEvents : List (AgentTraceEvent V)
  recoveredUserRequest : Option (ParsedAssistantResponse V)
  trajectoryMessages : List (TrajectoryMessage V)
  subTurns : List SubTurnRecord
  tokenLayer : TokenLayer
  world : W

/-- How a sub-turn ends. -/
inductive SubTurn (V : Type)
  | failed (error : Str)
  | cancelled
  | finished (result : AgentTurnResult V)
  | continues

section Model

variable {W V : Type}

def buildAssistantBlocks (content : Str) (toolCalls : List (ToolCall V)) (subTurnIndex : Nat) :
    List (ContentBlock V) :=
  .text content :: toolCalls.mapIdx fun callIndex call =>
    .toolUse (toolUseId subTurnIndex callIndex) call.name call.arguments

/-- `parse_tool_calls` of the agent: calls without a name are dropped. -/
def parseToolCalls (json : Json V) (text : Str) : ParsedAssistantResponse V :=
  let parsed := Chat.parseToolCalls json text
  { parsed with toolCalls := parsed.toolCalls.filter fun call => !(Str.trim call.name).isEmpty }

def subTurnRecord (index : Nat) (prompt : Str) (output : CompletionOutput) : SubTurnRecord :=
  { index
    promptText := some prompt
    completionText := output.text
    promptTokens := output.usage.promptTokens
    completionTokens := output.usage.completionTokens
    finishReason := finishReasonToStr output.finishReason }

namespace Turn

variable (self : Turn W V)

/-- The completion of the main loop enters the accumulators. -/
def observe (prompt : Str) (output : CompletionOutput) : Turn W V :=
  { self with
    promptTokens := Word.saturatingAdd 64 self.promptTokens output.usage.promptTokens
    completionTokens := Word.saturatingAdd 64 self.completionTokens output.usage.completionTokens
    tokenLayer := self.tokenLayer.add output
    subTurns := self.subTurns ++ [subTurnRecord self.subTurns.length prompt output] }

/-- The completion of a repair enters the trajectory, but not the usage of the turn. -/
def observeRepair (prompt : Str) (output : CompletionOutput) : Turn W V :=
  { self with
    tokenLayer := self.tokenLayer.add output
    subTurns := self.subTurns ++ [subTurnRecord self.subTurns.length prompt output] }

/-- The result of a turn that ends here. -/
def result (text : Str) (maxTurnsReached : Bool) (terminalState : TerminalState) :
    AgentTurnResult V :=
  { text
    toolCallsExecuted := self.toolCallsExecuted
    promptTokens := self.promptTokens
    completionTokens := self.completionTokens
    maxTurnsReached
    traceEvents := self.traceEvents
    messages := self.trajectoryMessages
    subTurns := self.subTurns
    terminalState
    tokens := self.tokenLayer.record }

/-- `compact_turn_history`. -/
def compactTurnHistory (turnStart : Nat) (assistantText : Str) : Turn W V :=
  { self with
    messages := self.messages.take (turnStart + 1) ++ [.assistant assistantText []] }

/-- The assistant message of a sub-turn. -/
def pushAssistant (content : Str) (toolCalls : List (ToolCall V)) (turn : Nat) : Turn W V :=
  { self with
    trajectoryMessages := self.trajectoryMessages ++ [{
      role := .assistant
      content := .blocks (buildAssistantBlocks content toolCalls turn)
      toolUseId := none
      resultTruncated := none }]
    messages := self.messages ++ [.assistant content toolCalls] }

def note (content : Str) : Turn W V :=
  if content = [] then self
  else { self with traceEvents := self.traceEvents ++ [.assistantNote content] }

/-- One tool call of `execute_tool_calls`. -/
def executeToolCall (toolExecutor : ToolExecutor W V) (subTurnIndex callIndex : Nat)
    (toolCall : ToolCall V) : Turn W V :=
  let executed := toolExecutor self.world toolCall
  { self with
    toolCallsExecuted := self.toolCallsExecuted + 1
    lastToolResult := some executed.1.result
    lastToolScalarResult := scalarToolResult executed.1.result
    lastToolName := some toolCall.name
    traceEvents := self.traceEvents ++
      [.toolCall toolCall.name toolCall.arguments executed.1.result]
    messages := self.messages ++ [.toolResult toolCall.name executed.1.result]
    trajectoryMessages := self.trajectoryMessages ++ [{
      role := .tool
      content := .text executed.1.result
      toolUseId := some (toolUseId subTurnIndex callIndex)
      resultTruncated := some executed.1.truncated }]
    world := executed.2 }

/-- `execute_tool_calls` from the call with the index `callIndex` on. -/
def executeToolCalls (toolExecutor : ToolExecutor W V) (subTurnIndex : Nat) :
    (callIndex : Nat) → List (ToolCall V) → Turn W V → Turn W V
  | _, [], self => self
  | callIndex, toolCall :: toolCalls, self =>
    executeToolCalls toolExecutor subTurnIndex (callIndex + 1) toolCalls
      (self.executeToolCall toolExecutor subTurnIndex callIndex toolCall)

end Turn

/-- What a turn is given. -/
structure Inputs (W V : Type) where
  json : Json V
  engine : Engine W
  userInput : Str
  tools : List (ToolDefinition V)
  toolExecutor : ToolExecutor W V
  toolPolicy : ToolPolicy W V
  settings : AgentSettings
  cancellable : Bool

namespace Inputs

variable (args : Inputs W V)

def formatPrompt (messages : List (ChatMessage V)) : Str :=
  messagesToPrompt args.json messages args.tools

/-- The completion of the main loop. -/
def generate (t : Turn W V) : Except Str (Option CompletionOutput) × Turn W V :=
  let prompt := args.formatPrompt t.messages
  let turnMaxTokens :=
    if t.toolCallsExecuted = 0 ∧ !args.tools.isEmpty then
      min args.settings.maxTokens toolPlanningMaxTokens
    else
      args.settings.maxTokens
  let completed := completeWithOptionalCancel args.engine {
      prompt
      maxTokens := turnMaxTokens
      temperature := args.settings.temperature
      stop := ["<|im_end|>".toList] } args.cancellable true t.world
  match completed.1 with
  | .error error => (.error error, { t with world := completed.2 })
  | .ok none => (.ok none, { t with world := completed.2 })
  | .ok (some output) =>
    (.ok (some output), { t with world := completed.2 }.observe prompt output)

/-- `repair_tool_calls`: the model is asked to write its draft again. A repair that brings no
calls leaves the response as it is, as does one that is cancelled. -/
def repairToolCalls (parsed : ParsedAssistantResponse V) (assistantDraft : Str) (t : Turn W V) :
    Except Str (ParsedAssistantResponse V) × Turn W V :=
  let repairMessages := t.messages ++ [.assistant assistantDraft [],
    .user ("Rewrite your previous assistant message using the tool-call protocol. If a tool is " ++
      "needed, output only valid <tool_call> blocks and no other text. If no tool is needed, " ++
      "output exactly NO_TOOL.").toList]
  let repairPrompt := args.formatPrompt repairMessages
  let completed := completeWithOptionalCancel args.engine {
      prompt := repairPrompt
      maxTokens := min args.settings.maxTokens 128
      temperature := 0
      stop := ["<|im_end|>".toList] } args.cancellable false t.world
  match completed.1 with
  | .error error => (.error error, { t with world := completed.2 })
  | .ok none => (.ok parsed, { t with world := completed.2 })
  | .ok (some repairOutput) =>
    let repaired := parseToolCalls args.json repairOutput.text
    if repaired.toolCalls.isEmpty then
      (.ok parsed, { t with world := completed.2 })
    else
      (.ok repaired, { t with world := completed.2 }.observeRepair repairPrompt repairOutput)

/-- The tool calls of a response, recovered from its text or by a repair where it has none. -/
def recoverToolCalls (output : CompletionOutput) (t : Turn W V) :
    Except Str (ParsedAssistantResponse V) × Turn W V :=
  let parsed := parseToolCalls args.json output.text
  if parsed.toolCalls.isEmpty ∧ t.toolCallsExecuted = 0 ∧ !args.tools.isEmpty then
    let recovered := args.toolPolicy.recoverToolCallsFromDraft t.world output.text args.tools
    match recovered.1 with
    | some recoveredParsed => (.ok recoveredParsed, { t with world := recovered.2 })
    | none =>
      if (Str.find output.text "<tool_call>".toList).isSome then
        args.repairToolCalls parsed output.text { t with world := recovered.2 }
      else
        let should := args.toolPolicy.shouldRepairToolCalls recovered.2 parsed.content
        if should.1 then
          args.repairToolCalls parsed output.text { t with world := should.2 }
        else
          (.ok parsed, { t with world := should.2 })
  else
    (.ok parsed, t)

/-- The response of a sub-turn: the one recovered from the request of the user, which is used
once, or one of the engine; `none` when the turn is cancelled. -/
def respond (t : Turn W V) : Except Str (Option (ParsedAssistantResponse V)) × Turn W V :=
  match t.recoveredUserRequest with
  | some parsed => (.ok (some parsed), { t with recoveredUserRequest := none })
  | none =>
    let generated := args.generate t
    match generated.1 with
    | .error error => (.error error, generated.2)
    | .ok none => (.ok none, generated.2)
    | .ok (some output) =>
      let recovered := args.recoverToolCalls output generated.2
      (recovered.1.map some, recovered.2)

/-- The tool calls of a response are executed. -/
def executeAll (turnStart turn : Nat) (content : Str) (toolCalls : List (ToolCall V))
    (t : Turn W V) : SubTurn V × Turn W V :=
  let executed := (t.note content).executeToolCalls args.toolExecutor turn 0 toolCalls
  let finalized := args.toolPolicy.finalizeAfterToolExecution executed.world args.userInput
    executed.lastToolName executed.lastToolResult executed.lastToolScalarResult
  let executed := { executed with world := finalized.2 }
  match finalized.1 with
  | some text =>
    (.finished (executed.result text false .policyShortCircuit),
      executed.compactTurnHistory turnStart text)
  | none => (.continues, executed)

/-- What a sub-turn does with its response. -/
def react (turnStart turn : Nat) (parsed : ParsedAssistantResponse V) (t : Turn W V) :
    SubTurn V × Turn W V :=
  let finalized := args.toolPolicy.finalizeResponseText t.world args.userInput parsed.content
    t.lastToolName t.lastToolScalarResult t.toolCallsExecuted
  let content := finalized.1
  let pushed := { t with world := finalized.2 }.pushAssistant content parsed.toolCalls turn
  if parsed.toolCalls.isEmpty then
    (.finished (pushed.result content false
        (if (Str.trim content).isEmpty then .emptyNoProgress else .stop)),
      pushed.compactTurnHistory turnStart content)
  else
    args.executeAll turnStart turn content parsed.toolCalls pushed

/-- The body of the loop of `run_turn_inner`. -/
def subTurn (turnStart turn : Nat) (t : Turn W V) : SubTurn V × Turn W V :=
  let responded := args.respond t
  match responded.1 with
  | .error error => (.failed error, responded.2)
  | .ok none => (.cancelled, responded.2)
  | .ok (some parsed) => args.react turnStart turn parsed responded.2

def maxTurnsText : Str := "(max turns reached - agent stopped)".toList

/-- The loop from the sub-turn `turn` on, with so many left. -/
def runLoop (turnStart : Nat) : (left turn : Nat) → Turn W V →
    Except Str (Option (AgentTurnResult V)) × Turn W V
  | 0, _, t =>
    (.ok (some (t.result maxTurnsText true .maxTurns)), t.compactTurnHistory turnStart maxTurnsText)
  | left + 1, turn, t =>
    let ended := args.subTurn turnStart turn t
    match ended.1 with
    | .failed error => (.error error, ended.2)
    | .cancelled => (.ok none, ended.2)
    | .finished result => (.ok (some result), ended.2)
    | .continues => runLoop turnStart left (turn + 1) ended.2

/-- The turn before its first sub-turn. -/
def begin (messages : List (ChatMessage V)) (world : W) : Turn W V :=
  let recovered :=
    if args.tools.isEmpty then (none, world)
    else args.toolPolicy.recoverToolCallsFromUserRequest world args.userInput args.tools
  { messages := messages ++ [.user args.userInput]
    toolCallsExecuted := 0
    promptTokens := 0
    completionTokens := 0
    lastToolName := none
    lastToolResult := none
    lastToolScalarResult := none
    traceEvents := []
    recoveredUserRequest := recovered.1
    trajectoryMessages := [{
      role := .user
      content := .text args.userInput
      toolUseId := none
      resultTruncated := none }]
    subTurns := []
    tokenLayer := .start
    world := recovered.2 }

/-- `run_turn_inner` on a session with these messages: the result, and the messages and the world
after it. -/
def runTurnInner (messages : List (ChatMessage V)) (world : W) :
    Except Str (Option (AgentTurnResult V)) × Turn W V :=
  args.runLoop messages.length args.settings.maxTurns 0 (args.begin messages world)

end Inputs

end Model

end Arle.Agent
