import Arle.Lib.Text

/-!
# Completion deltas

The types of `infer/src/server_engine/types.rs` that a stream of completion deltas is made of.
-/

namespace Arle.ServerEngine

inductive FinishReason
  | length
  | stop

structure TokenUsage where
  promptTokens : Nat
  completionTokens : Nat
  totalTokens : Nat

structure CompletionStreamError where
  kind : Str
  message : Str
  chain : List Str

structure CompletionStreamDelta where
  textDelta : Str
  finishReason : Option FinishReason
  usage : Option TokenUsage
  logprob : Option Float32
  tokenIds : List UInt32
  error : Option CompletionStreamError

namespace CompletionStreamDelta

/-- The text that the deltas carry. -/
def texts (deltas : List CompletionStreamDelta) : Str := deltas.flatMap textDelta

/-- All deltas but the last one leave the finish reason open. -/
def EndsOnce (deltas : List CompletionStreamDelta) : Prop :=
  ∃ front last, deltas = front ++ [last] ∧ last.finishReason.isSome = true ∧
    ∀ delta ∈ front, delta.finishReason = none

theorem texts_append (front back : List CompletionStreamDelta) :
    texts (front ++ back) = texts front ++ texts back := List.flatMap_append

theorem EndsOnce.append {front back : List CompletionStreamDelta} (h : EndsOnce back)
    (hfront : ∀ delta ∈ front, delta.finishReason = none) : EndsOnce (front ++ back) := by
  obtain ⟨mid, last, rfl, hlast, hmid⟩ := h
  refine ⟨front ++ mid, last, (List.append_assoc _ _ _).symm, hlast, fun delta hdelta => ?_⟩
  rcases List.mem_append.mp hdelta with hmem | hmem
  · exact hfront delta hmem
  · exact hmid delta hmem

theorem EndsOnce.cons {delta : CompletionStreamDelta} {deltas : List CompletionStreamDelta}
    (h : EndsOnce deltas) (hdelta : delta.finishReason = none) : EndsOnce (delta :: deltas) := by
  have hfront : ∀ d ∈ [delta], d.finishReason = none := fun d hd => by
    rw [List.mem_singleton.mp hd]
    exact hdelta
  exact h.append hfront

end CompletionStreamDelta

end Arle.ServerEngine
