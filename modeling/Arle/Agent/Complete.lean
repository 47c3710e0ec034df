import Mathlib
import Arle.Lib.Text
import Arle.ServerEngine.Types

/-!
# One completion for the agent

The agent asks the engine for a completion and reads its deltas from a channel while a worker
produces them, until the stream ends or the turn is cancelled. The engine is a parameter; what it
and its surroundings keep between two calls is the world `W`.
-/

namespace Arle.Agent

open ServerEngine

/-- What the agent sets in a request; the other fields have their defaults. -/
structure CompletionRequest where
  prompt : Str
  maxTokens : Nat
  temperature : Float32
  stop : List Str

structure CompletionOutput where
  text : Str
  finishReason : FinishReason
  usage : TokenUsage
  promptTokenIds : List UInt32
  responseTokenIds : List UInt32

inductive TryRecv
  | ok (delta : CompletionStreamDelta)
  | empty
  | disconnected

/-- A round of the loop that reads the stream: the flag of the caller as it is read at its start,
and what the channel has. -/
structure Round where
  cancel : Bool
  recv : TryRecv

/-- The rounds of a stream, the error that the worker ends with, and the world after it. -/
structure Stream (W : Type) where
  rounds : List Round
  workerError : Option Str
  world : W

structure Engine (W : Type) where
  tokenize : W → Str → Option (List UInt32) × W
  complete : W → CompletionRequest → Except Str CompletionOutput × W
  completeStream : W → CompletionRequest → Stream W

/-- `into_anyhow`. -/
def intoAnyhow (self : CompletionStreamError) : Str :=
  let chain := if self.chain = [] then self.message else (": ".toList).intercalate self.chain
  self.kind ++ ": ".toList ++ chain

/-- What has been read of a stream. -/
structure Collected where
  text : Str
  finishReason : Option FinishReason
  usage : Option TokenUsage
  responseTokenIds : List UInt32
  streamErr : Option Str
  cancelled : Bool

namespace Collected

def start : Collected :=
  { text := [], finishReason := none, usage := none, responseTokenIds := [], streamErr := none
    cancelled := false }

def push (self : Collected) (delta : CompletionStreamDelta) : Collected :=
  { self with
    text := self.text ++ delta.textDelta
    responseTokenIds := self.responseTokenIds ++ delta.tokenIds
    usage := delta.usage.orElse fun _ => self.usage
    finishReason := delta.finishReason.orElse fun _ => self.finishReason }

/-- The loop over the rounds. `cancellable` says that the caller has a flag. The channel of a
worker that is done is disconnected. -/
def read (cancellable : Bool) : List Round → Collected → Collected
  | [], self => self
  | round :: rounds, self =>
    if cancellable && round.cancel then
      { self with cancelled := true }
    else
      match round.recv with
      | .disconnected => self
      | .empty => read cancellable rounds self
      | .ok delta =>
        match delta.error with
        | some error => { self with streamErr := some (intoAnyhow error) }
        | none =>
          if delta.finishReason.isSome then
            self.push delta
          else
            read cancellable rounds (self.push delta)

/-- What the call returns when the worker has ended. -/
def finish (self : Collected) (promptTokenIds : List UInt32) (workerError : Option Str) :
    Except Str (Option CompletionOutput) :=
  if self.cancelled then
    .ok none
  else
    match workerError.orElse fun _ => self.streamErr with
    | some err => .error err
    | none =>
      match self.finishReason, self.usage with
      | none, _ => .error "stream ended without finish reason".toList
      | some _, none => .error "stream ended without token usage".toList
      | some finishReason, some usage => .ok (some {
          text := self.text
          finishReason
          usage
          promptTokenIds
          responseTokenIds := self.responseTokenIds })

end Collected

section Model

variable {W : Type} (engine : Engine W)

/-- `complete_with_optional_cancel`. `observed` says that there is a callback for the chunks; the
result is `none` when the turn is cancelled. -/
def completeWithOptionalCancel (req : CompletionRequest) (cancellable observed : Bool)
    (world : W) : Except Str (Option CompletionOutput) × W :=
  if !cancellable && !observed then
    let completed := engine.complete world req
    (completed.1.map some, completed.2)
  else
    let tokens := engine.tokenize world req.prompt
    let stream := engine.completeStream tokens.2 req
    ((Collected.start.read cancellable stream.rounds).finish (tokens.1.getD [])
      stream.workerError, stream.world)

end Model

end Arle.Agent
