import Mathlib
import Arle.Lib.Follows
import Arle.Scheduler.Cuda.SpecPath

/-!
# Speculative decoding is greedy decoding

`plainDecode` is the greedy continuation up to a stop token or the token limit. A step that commits
tokens commits the next ones of this continuation, as long as every launch is fed the last token
of the request. The token that a launch stages for the next one stays on the device while
speculative steps go on, so that a plain launch behind them is fed an old token.
-/

namespace Arle.Scheduler.Cuda.SpecPath

open Arle.ServerEngine (FinishReason)

/-! ## The greedy continuation -/

section Plain

variable (target : TargetModel) (req : DecodeRequest)

/-- At most `n` more tokens. -/
def plainDecode : Nat → List Token → List Token × FinishReason
  | 0, generatedTokens => (generatedTokens, .length)
  | n + 1, generatedTokens =>
    let token := target.greedy (req.promptTokens ++ generatedTokens)
    if !req.ignoreEos && target.isStopToken token then (generatedTokens, .stop)
    else plainDecode n (generatedTokens ++ [token])

/-- What is left to generate. -/
def remainder (generatedTokens : List Token) : List Token × FinishReason :=
  plainDecode target req (req.maxTokens - generatedTokens.length) generatedTokens

/-- The first token is generated whatever the limit is. -/
def plainResult : List Token × FinishReason :=
  let token := target.greedy req.promptTokens
  if !req.ignoreEos && target.isStopToken token then ([], .stop) else remainder target req [token]

end Plain

section Commit

variable {target : TargetModel} {req : DecodeRequest} {G tokens : List Token}

theorem remainder_full (h : req.maxTokens ≤ G.length) :
    remainder target req G = (G, .length) := by
  unfold remainder
  rw [Nat.sub_eq_zero_of_le h]
  rfl

theorem remainder_succ (h : G.length < req.maxTokens) :
    remainder target req G =
      if !req.ignoreEos && target.isStopToken (target.greedy (req.promptTokens ++ G)) then
        (G, .stop)
      else remainder target req (G ++ [target.greedy (req.promptTokens ++ G)]) := by
  unfold remainder
  obtain ⟨n, hn⟩ : ∃ n, req.maxTokens - G.length = n + 1 := ⟨req.maxTokens - G.length - 1, by omega⟩
  rw [hn, plainDecode, List.length_append, List.length_singleton, Nat.sub_add_eq, hn]
  rfl

variable (tokens) in
/-- Committing tokens of the continuation leaves the result as it is. -/
theorem commitTokens_remainder (h : Follows target.greedy (req.promptTokens ++ G) tokens)
    (hlive : G.length < req.maxTokens) :
    (∃ G' reason, commitTokens target req tokens G = (G', some reason) ∧
      remainder target req G = (G', reason)) ∨
    commitTokens target req tokens G = (G ++ tokens, none) ∧
      (G ++ tokens).length < req.maxTokens ∧
      remainder target req (G ++ tokens) = remainder target req G := by
  induction tokens generalizing G with
  | nil =>
    rw [List.append_nil]
    exact .inr ⟨rfl, hlive, rfl⟩
  | cons token tokens ih =>
    obtain ⟨rfl, hrest⟩ := h
    rw [commitTokens, remainder_succ hlive]
    split
    · exact .inl ⟨G, .stop, rfl, rfl⟩
    · dsimp only
      split
      · rename_i hfull
        exact .inl ⟨_, .length, rfl, remainder_full hfull⟩
      · rename_i hlive'
        rw [List.append_assoc] at hrest
        rcases ih hrest (Nat.not_le.mp hlive') with hfinished | ⟨hcommit, hlive'', heq⟩
        · exact .inl hfinished
        · rw [List.append_assoc] at hcommit hlive'' heq
          exact .inr ⟨hcommit, hlive'', heq⟩

/-- Applying one token is committing it. -/
theorem applySampledDecodeToken_eq (token : Token) (slot : DecodeSlot) :
    applySampledDecodeToken target req token slot =
      match commitTokens target req [token] slot.generatedTokens with
      | (generatedTokens, some reason) => .finished generatedTokens reason
      | (generatedTokens, none) => .decoding { slot with generatedTokens } := by
  unfold applySampledDecodeToken
  rw [commitTokens]
  split
  · rfl
  · dsimp only
    split
    · rfl
    · rfl

end Commit

/-! ## The verifier -/

section Verify

variable {target : TargetModel} {kv w draft : List Token}

theorem forwardSpecVerify_kv (kv tokens : List Token) :
    (forwardSpecVerify target kv tokens).2 = kv ++ tokens := by
  induction tokens generalizing kv with
  | nil => exact (List.append_nil kv).symm
  | cons token tokens ih =>
    rw [forwardSpecVerify]
    dsimp only
    rw [ih, List.append_assoc]
    rfl

/-- The accepted tokens and the bonus token are the greedy continuation. -/
theorem verify_follows (target : TargetModel) (w draft : List Token) :
    ∃ rejected bonus, draft = acceptedPrefix draft
        (target.greedy w :: (forwardSpecVerify target w draft).1) ++ rejected ∧
      (target.greedy w :: (forwardSpecVerify target w draft).1)[(acceptedPrefix draft
        (target.greedy w :: (forwardSpecVerify target w draft).1)).length]? = some bonus ∧
      Follows target.greedy w (acceptedPrefix draft
        (target.greedy w :: (forwardSpecVerify target w draft).1) ++ [bonus]) := by
  induction draft generalizing w with
  | nil => exact ⟨[], target.greedy w, rfl, rfl, Follows.single⟩
  | cons token draft ih =>
    rw [acceptedPrefix]
    split
    · rename_i hsame
      obtain ⟨rejected, bonus, hdraft, hbonus, hfollows⟩ := ih (w ++ [token])
      rw [forwardSpecVerify]
      dsimp only
      refine ⟨rejected, bonus, ?_, ?_, ?_⟩
      · rw [List.cons_append, ← hdraft]
      · exact hbonus
      · exact ⟨hsame.symm, hfollows⟩
    · exact ⟨token :: draft, target.greedy w, rfl, rfl, Follows.single⟩

theorem truncateSlot_append (kv rest : List Token) :
    truncateSlot (kv ++ rest) kv.length = some kv := by
  unfold truncateSlot
  rw [if_neg (by rw [List.length_append]; omega), List.take_left]

/-- The draft is taken back from the pool sequence. -/
theorem draftLoop_kv (req : DecodeRequest) (sparseNext : List Token → Token)
    (generatedLen k : Nat) (kv : List Token) (token : Token) (drafted : List Token) :
    ∃ rest, (draftLoop req sparseNext generatedLen k kv token drafted).2 = kv ++ rest := by
  induction k generalizing kv token drafted with
  | zero => exact ⟨[], (List.append_nil kv).symm⟩
  | succ k ih =>
    rw [draftLoop]
    split
    · exact ⟨[], (List.append_nil kv).symm⟩
    · dsimp only
      obtain ⟨rest, hrest⟩ := ih (kv ++ [token]) (sparseNext (kv ++ [token]))
        (drafted ++ [sparseNext (kv ++ [token])])
      exact ⟨token :: rest, by rw [hrest, List.append_assoc]; rfl⟩

end Verify

end Arle.Scheduler.Cuda.SpecPath
