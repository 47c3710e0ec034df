import Mathlib
import Arle.KvTier.Types
import Arle.Lib.Run
import Arle.ServerEngine.Types

/-!
# Speculative and plain decode steps of one slot

What the decode path of the CUDA scheduler does to one slot with a greedy request without stop
strings. The other slots of the batch decide with it which path a step takes, when a readback is
ready and which requests are preempted: all this is left open. The model computes from the tokens
whose keys and values are in the slot's pool sequence.

A plain launch samples on the device and stages the sampled token there for the next launch of the
slot: the next launch takes the staged token, whatever token the scheduler passes.
-/

namespace Arle.Scheduler.Cuda.SpecPath

open Arle (Token)
open Arle.ServerEngine (FinishReason)

/-! ## The target model -/

structure TargetModel where
  /-- The greedy token behind a sequence. -/
  greedy : List Token → Token
  isStopToken : Token → Bool

/-- `forward_spec_verify_batch` for one row: every input token is appended to the slot. -/
def forwardSpecVerify (target : TargetModel) : List Token → List Token → List Token × List Token
  | kv, [] => ([], kv)
  | kv, token :: tokens =>
    let kv := kv ++ [token]
    let rest := forwardSpecVerify target kv tokens
    (target.greedy kv :: rest.1, rest.2)

/-- `truncate_slot`. -/
def truncateSlot (kv : List Token) (newLen : Nat) : Option (List Token) :=
  if kv.length < newLen then none else some (kv.take newLen)

/-! ## The verifier -/

structure VerificationResult where
  accepted : List Token
  numAccepted : Nat

/-- The draft tokens that are the target's, up to the first other one. -/
def acceptedPrefix : List Token → List Token → List Token
  | token :: draftTokens, target :: targetTokens =>
    if target = token then token :: acceptedPrefix draftTokens targetTokens else []
  | _, _ => []

def verifyTokensGreedy (draftTokens targetArgmaxTokens : List Token) : VerificationResult :=
  let accepted := acceptedPrefix draftTokens targetArgmaxTokens
  { accepted, numAccepted := accepted.length }

/-! ## The slot -/

structure DecodeRequest where
  promptTokens : List Token
  maxTokens : Nat
  ignoreEos : Bool

/-- A launch that is not read back. -/
structure PendingDecode where
  sampled : Token
  greedyLaunched : Bool

structure DecodeSlot where
  generatedTokens : List Token
  /-- The pool sequence of the slot. -/
  kv : List Token
  /-- The token staged on the device for the next launch of the slot. -/
  handoff : Option Token
  deferredDecodeEmit : Option Token
  pendingDecode : Option PendingDecode

inductive RequestState
  | waiting
  | decoding (slot : DecodeSlot)
  | finished (generatedTokens : List Token) (reason : FinishReason)
  /-- A rollback failed. -/
  | aborted

section Rows

variable (target : TargetModel) (req : DecodeRequest)

/-- The loop over the accepted tokens and the bonus token. -/
def commitTokens : List Token → List Token → List Token × Option FinishReason
  | [], generatedTokens => (generatedTokens, none)
  | token :: tokens, generatedTokens =>
    if !req.ignoreEos && target.isStopToken token then
      (generatedTokens, some .stop)
    else
      let generatedTokens := generatedTokens ++ [token]
      if req.maxTokens ≤ generatedTokens.length then (generatedTokens, some .length)
      else commitTokens tokens generatedTokens

/-- The body of the loop of `verify_and_commit_rows`, which `draft_then_verify` has as well. -/
def verifyAndCommitRow (draftTokens : List Token) (lastToken : Token) (slot : DecodeSlot) :
    RequestState :=
  let originalTargetLen := slot.kv.length
  let output := forwardSpecVerify target slot.kv (lastToken :: draftTokens)
  let result := verifyTokensGreedy draftTokens output.1
  match output.1[result.numAccepted]?.or draftTokens[result.numAccepted - 1]? with
  | none => .aborted
  | some bonus =>
    match truncateSlot output.2 (originalTargetLen + 1 + result.numAccepted) with
    | none => .aborted
    | some kv =>
      match commitTokens target req (result.accepted ++ [bonus]) slot.generatedTokens with
      | (generatedTokens, some reason) => .finished generatedTokens reason
      | (generatedTokens, none) => .decoding { slot with generatedTokens, kv }

/-- A row of `draft_then_verify` with an external draft model. -/
def draftThenVerify (draftTokens : List Token) (lastToken : Token) (slot : DecodeSlot) :
    RequestState :=
  if draftTokens.isEmpty then .decoding slot
  else verifyAndCommitRow target req draftTokens lastToken slot

/-- The loop of the sparse self-draft, which uses the slot's own pool sequence. -/
def draftLoop (sparseNext : List Token → Token) (generatedLen : Nat) :
    Nat → List Token → Token → List Token → List Token × List Token
  | 0, kv, _, draftTokens => (draftTokens, kv)
  | k + 1, kv, token, draftTokens =>
    if req.maxTokens ≤ generatedLen + draftTokens.length then (draftTokens, kv)
    else
      let kv := kv ++ [token]
      draftLoop sparseNext generatedLen k kv (sparseNext kv) (draftTokens ++ [sparseNext kv])

/-- A row of `draft_self_sparse_then_verify`. The draft forwards share the device buffers of the
decode launches, so that a staged token becomes another one. -/
def draftSelfSparse (sparseNext : List Token → Token) (overwritten : Token) (draftK : Nat)
    (lastToken : Token) (slot : DecodeSlot) : RequestState :=
  let originalTargetLen := slot.kv.length
  let drafted := draftLoop req sparseNext slot.generatedTokens.length draftK slot.kv lastToken []
  match truncateSlot drafted.2 originalTargetLen with
  | none => .aborted
  | some kv =>
    if drafted.1.isEmpty then .decoding { slot with kv }
    else
      verifyAndCommitRow target req drafted.1 lastToken
        { slot with kv, handoff := slot.handoff.map fun _ => overwritten }

/-- A row of `apply_sampled_decode_tokens`. -/
def applySampledDecodeToken (token : Token) (slot : DecodeSlot) : RequestState :=
  if !req.ignoreEos && target.isStopToken token then
    .finished slot.generatedTokens .stop
  else
    let generatedTokens := slot.generatedTokens ++ [token]
    if req.maxTokens ≤ generatedTokens.length then .finished generatedTokens .length
    else .decoding { slot with generatedTokens }

/-- `apply_prefill_completion_token`; the prompt is in the pool sequence. -/
def applyPrefillCompletionToken (token : Token) : RequestState :=
  if !req.ignoreEos && target.isStopToken token then
    .finished [] .stop
  else if req.maxTokens ≤ 1 then
    .finished [token] .length
  else
    .decoding {
      generatedTokens := [token]
      kv := req.promptTokens
      handoff := none
      deferredDecodeEmit := none
      pendingDecode := none }

/-- `forward_decode_batch` and `sample_batch_greedy_launch`. If a request of the batch is not
greedy, sampling waits for the readback and nothing is staged. -/
def DecodeSlot.launch (slot : DecodeSlot) (allGreedy : Bool) (lastToken : Token) : DecodeSlot :=
  let kv := slot.kv ++ [slot.handoff.getD lastToken]
  let sampled := target.greedy kv
  { slot with
    kv
    handoff := if allGreedy then some sampled else none
    pendingDecode := some { sampled, greedyLaunched := allGreedy } }

/-- `slot_is_runnable_decode`: not if the deferred launch brings the last token. -/
def DecodeSlot.runnable (slot : DecodeSlot) : Bool :=
  !(slot.deferredDecodeEmit.isSome && req.maxTokens ≤ slot.generatedTokens.length + 1)

end Rows

/-! ## Steps -/

inductive DecodeOp
  /-- Admission and prefill, up to the first token. -/
  | prefill
  | launch (allGreedy : Bool)
  /-- A launch of other slots; it drops all staged tokens. -/
  | launchOthers
  /-- The readback of the last launch is not ready. -/
  | defer
  | readback
  | draftThenVerify (draftTokens : List Token)
  | draftSelfSparse (sparseNext : List Token → Token) (overwritten : Token) (draftK : Nat)
  /-- `requeue_preempted_decode`. -/
  | preempt

/-- Not a speculative step. -/
def DecodeOp.isPlain : DecodeOp → Bool
  | .draftThenVerify _ => false
  | .draftSelfSparse _ _ _ => false
  | _ => true

variable (target : TargetModel) (req : DecodeRequest)

inductive Step : RequestState → DecodeOp → RequestState → Prop
  | prefill :
      Step .waiting .prefill
        (applyPrefillCompletionToken target req (target.greedy req.promptTokens))
  | launch {slot : DecodeSlot} {allGreedy : Bool} {lastToken : Token}
      (hidle : slot.pendingDecode = none) (hrunnable : slot.runnable req = true)
      (hlast : slot.generatedTokens.getLast? = some lastToken) :
      Step (.decoding slot) (.launch allGreedy)
        (.decoding (slot.launch target allGreedy lastToken))
  | launchOthers {slot : DecodeSlot} (hidle : slot.pendingDecode = none)
      (hrunnable : slot.runnable req = false) :
      Step (.decoding slot) .launchOthers (.decoding { slot with handoff := none })
  | defer {slot : DecodeSlot} {token : Token} (hread : slot.deferredDecodeEmit = none)
      (hpending : slot.pendingDecode = some ⟨token, true⟩) :
      Step (.decoding slot) .defer
        (.decoding { slot with deferredDecodeEmit := some token, pendingDecode := none })
  | readbackDeferred {slot : DecodeSlot} {token : Token}
      (hdeferred : slot.deferredDecodeEmit = some token) :
      Step (.decoding slot) .readback
        (applySampledDecodeToken target req token { slot with deferredDecodeEmit := none })
  | readbackPending {slot : DecodeSlot} {pending : PendingDecode}
      (hread : slot.deferredDecodeEmit = none) (hpending : slot.pendingDecode = some pending) :
      Step (.decoding slot) .readback
        (applySampledDecodeToken target req pending.sampled { slot with pendingDecode := none })
  | draftThenVerify {slot : DecodeSlot} {draftTokens : List Token} {lastToken : Token}
      (hidle : slot.pendingDecode = none) (hread : slot.deferredDecodeEmit = none)
      (hlast : slot.generatedTokens.getLast? = some lastToken) :
      Step (.decoding slot) (.draftThenVerify draftTokens)
        (draftThenVerify target req draftTokens lastToken slot)
  | draftSelfSparse {slot : DecodeSlot} {sparseNext : List Token → Token} {overwritten : Token}
      {draftK : Nat} {lastToken : Token} (hidle : slot.pendingDecode = none)
      (hread : slot.deferredDecodeEmit = none)
      (hlast : slot.generatedTokens.getLast? = some lastToken) :
      Step (.decoding slot) (.draftSelfSparse sparseNext overwritten draftK)
        (draftSelfSparse target req sparseNext overwritten draftK lastToken slot)
  | preempt {slot : DecodeSlot} (hidle : slot.pendingDecode = none) :
      Step (.decoding slot) .preempt .waiting

def Initial (s : RequestState) : Prop := s = .waiting

end Arle.Scheduler.Cuda.SpecPath
