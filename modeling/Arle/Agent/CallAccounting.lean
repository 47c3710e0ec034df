import Mathlib
import Arle.Agent.Session
import Arle.Chat.PlainJson

/-!
# What a turn accounts for

A turn asks the engine once for every sub-turn, and once more where it repairs the tool calls of a
response. What the result says about these calls is in four accumulators, which a repair enters
only in part, and only when it brings tool calls.
-/

namespace Arle.Agent

open ServerEngine Chat

variable {W V : Type}

/-- A completed call of the engine. -/
structure EngineCall where
  prompt : Str
  output : CompletionOutput
  repair : Bool

/-- The tokens whose mask is 1: those that the engine generated. -/
def generatedIds (responseIds : List UInt32) (responseMask : List UInt8) : List UInt32 :=
  (responseIds.zip responseMask).filterMap fun (id, mask) => if mask = 1 then some id else none

/-- The result accounts for the calls: a record for each of them, totals over these records, and a
token layer of their responses. -/
structure AgentTurnResult.AccountsFor (result : AgentTurnResult V) (calls : List EngineCall) :
    Prop where
  subTurns : result.subTurns = calls.mapIdx fun index call =>
    subTurnRecord index call.prompt call.output
  promptTokens : result.promptTokens = (result.subTurns.map SubTurnRecord.promptTokens).sum
  completionTokens :
    result.completionTokens = (result.subTurns.map SubTurnRecord.completionTokens).sum
  tokens : ∀ record, result.tokens = some record →
    record.responseIds.length = record.responseMask.length ∧
      generatedIds record.responseIds record.responseMask =
        calls.flatMap fun call => call.output.responseTokenIds

namespace EngineCall

def promptTokens (self : EngineCall) : Nat := self.output.usage.promptTokens

def completionTokens (self : EngineCall) : Nat := self.output.usage.completionTokens

/-- Every call is recorded but a repair that brings no tool calls. -/
def recorded (json : Json V) (self : EngineCall) : Bool :=
  !self.repair || !(parseToolCalls json self.output.text).toolCalls.isEmpty

/-- What the calls of the main loop use. -/
def mainTotal (use : EngineCall → Nat) (calls : List EngineCall) : Nat :=
  ((calls.filter fun call => !call.repair).map use).sum

/-- Nothing is lost of what the calls use: each repair brings tool calls and uses no tokens, and
the totals of the main loop fit in their words. -/
structure Billed (json : Json V) (calls : List EngineCall) : Prop where
  recorded : ∀ call ∈ calls, call.repair = true →
    (parseToolCalls json call.output.text).toolCalls ≠ []
  free : ∀ call ∈ calls, call.repair = true → call.promptTokens = 0 ∧ call.completionTokens = 0
  prompt_fits : mainTotal promptTokens calls ≤ Word.maxVal 64
  completion_fits : mainTotal completionTokens calls ≤ Word.maxVal 64

end EngineCall

/-- The accumulators of a turn that are about the calls of the engine. -/
structure Accounts where
  promptTokens : Nat
  completionTokens : Nat
  subTurns : List SubTurnRecord
  tokenLayer : TokenLayer

namespace Accounts

def start : Accounts :=
  { promptTokens := 0, completionTokens := 0, subTurns := [], tokenLayer := .start }

/-- What a call uses enters a total, unless it is a repair. -/
def addUse (use : EngineCall → Nat) (total : Nat) (call : EngineCall) : Nat :=
  if call.repair then total else Word.saturatingAdd 64 total (use call)

/-- A call enters the accumulators. -/
def add (self : Accounts) (call : EngineCall) : Accounts where
  promptTokens := addUse EngineCall.promptTokens self.promptTokens call
  completionTokens := addUse EngineCall.completionTokens self.completionTokens call
  subTurns := self.subTurns ++ [subTurnRecord self.subTurns.length call.prompt call.output]
  tokenLayer := self.tokenLayer.add call.output

/-- A result reports these accumulators. -/
def ReportedBy (self : Accounts) (result : AgentTurnResult V) : Prop :=
  result.promptTokens = self.promptTokens ∧ result.completionTokens = self.completionTokens ∧
    result.subTurns = self.subTurns ∧ result.tokens = self.tokenLayer.record

end Accounts

namespace Turn

def accounts (self : Turn W V) : Accounts :=
  { promptTokens := self.promptTokens
    completionTokens := self.completionTokens
    subTurns := self.subTurns
    tokenLayer := self.tokenLayer }

theorem accounts_observeRepair (t : Turn W V) (prompt : Str) (output : CompletionOutput) :
    (t.observeRepair prompt output).accounts = t.accounts.add ⟨prompt, output, true⟩ := rfl

theorem reportedBy_result (t : Turn W V) (text : Str) (maxTurnsReached : Bool)
    (terminalState : TerminalState) :
    t.accounts.ReportedBy (t.result text maxTurnsReached terminalState) :=
  ⟨rfl, rfl, rfl, rfl⟩

@[simp] theorem accounts_note (t : Turn W V) (content : Str) :
    (t.note content).accounts = t.accounts := by
  unfold note
  split <;> rfl

@[simp] theorem accounts_executeToolCalls (toolExecutor : ToolExecutor W V) (subTurnIndex : Nat)
    (toolCalls : List (ToolCall V)) (callIndex : Nat) (t : Turn W V) :
    (t.executeToolCalls toolExecutor subTurnIndex callIndex toolCalls).accounts = t.accounts := by
  induction toolCalls generalizing callIndex t with
  | nil => rfl
  | cons toolCall toolCalls ih =>
    unfold executeToolCalls
    rw [ih]
    rfl

end Turn

/-! ## The accumulators after several calls -/

namespace EngineCall

/-- What the repairs use. -/
def repairTotal (use : EngineCall → Nat) (calls : List EngineCall) : Nat :=
  ((calls.filter fun call => call.repair).map use).sum

theorem sum_eq_mainTotal_add (use : EngineCall → Nat) (calls : List EngineCall) :
    (calls.map use).sum = mainTotal use calls + repairTotal use calls := by
  unfold mainTotal repairTotal
  induction calls with
  | nil => rfl
  | cons call calls ih =>
    cases hrepair : call.repair with
    | false =>
      simp [hrepair, ih]
      omega
    | true =>
      simp [hrepair, ih]
      omega

theorem repairTotal_eq_zero {use : EngineCall → Nat} {calls : List EngineCall} :
    repairTotal use calls = 0 ↔ ∀ call ∈ calls, call.repair = true → use call = 0 := by
  unfold repairTotal
  rw [List.sum_eq_zero_iff]
  constructor
  · intro h call hcall hrepair
    exact h _ (List.mem_map_of_mem (List.mem_filter.mpr ⟨hcall, hrepair⟩))
  · intro h used hused
    obtain ⟨call, hcall, rfl⟩ := List.mem_map.mp hused
    obtain ⟨hmem, hrepair⟩ := List.mem_filter.mp hcall
    exact h call hmem hrepair

theorem sum_records (field : SubTurnRecord → Nat) (use : EngineCall → Nat)
    (hfield : ∀ index (call : EngineCall),
      field (subTurnRecord index call.prompt call.output) = use call) (calls : List EngineCall) :
    ((calls.mapIdx fun index call => subTurnRecord index call.prompt call.output).map field).sum =
      mainTotal use calls + repairTotal use calls := by
  have huses : (calls.mapIdx fun index call =>
      subTurnRecord index call.prompt call.output).map field = calls.map use := by
    apply List.ext_getElem
    · simp
    · intro i _ _
      simp [hfield]
  rw [huses, sum_eq_mainTotal_add]

theorem recorded_iff {json : Json V} {call : EngineCall} :
    call.recorded json = true ↔
      (call.repair = true → (parseToolCalls json call.output.text).toolCalls ≠ []) := by
  unfold recorded
  cases call.repair with
  | false => simp
  | true => simp

end EngineCall

theorem generatedIds_append {ids ids' : List UInt32} {mask mask' : List UInt8}
    (h : ids.length = mask.length) :
    generatedIds (ids ++ ids') (mask ++ mask') =
      generatedIds ids mask ++ generatedIds ids' mask' := by
  unfold generatedIds
  rw [List.zip_append h, List.filterMap_append]

theorem generatedIds_replicate (ids : List UInt32) (mask : UInt8) :
    generatedIds ids (List.replicate ids.length mask) = if mask = 1 then ids else [] := by
  unfold generatedIds
  induction ids with
  | nil => simp
  | cons id ids ih =>
    by_cases hmask : mask = 1
    · simpa [hmask, List.replicate_succ] using ih
    · simpa [hmask, List.replicate_succ] using ih

/-- A token layer that is not given up has a mask for every token, and the tokens that the engine
generated are these. -/
def TokenLayer.Holds (self : TokenLayer) (generated : List UInt32) : Prop :=
  self.aborted = false → self.responseIds.length = self.responseMask.length ∧
    generatedIds self.responseIds self.responseMask = generated

namespace TokenLayer

variable {self : TokenLayer} {generated : List UInt32}

theorem holds_addPrompt (h : self.Holds generated) (promptTokenIds : List UInt32) :
    (self.addPrompt promptTokenIds).Holds generated := by
  unfold addPrompt
  split
  · split
    · exact fun h => by cases h
    · exact h
  · dsimp only
    split
    · exact fun h => by cases h
    · split
      · intro hopen
        obtain ⟨hlength, hids⟩ := h hopen
        refine ⟨by simp [hlength], ?_⟩
        rw [generatedIds_append hlength, hids, generatedIds_replicate]
        simp
      · exact h

theorem holds_addResponse (h : self.Holds generated) (responseTokenIds : List UInt32) :
    (self.addResponse responseTokenIds).Holds (generated ++ responseTokenIds) := by
  unfold addResponse
  split
  · exact fun h => by cases h
  · intro hopen
    obtain ⟨hlength, hids⟩ := h hopen
    refine ⟨by simp [hlength], ?_⟩
    rw [generatedIds_append hlength, hids, generatedIds_replicate]
    simp

theorem holds_add (h : self.Holds generated) (output : CompletionOutput) :
    (self.add output).Holds (generated ++ output.responseTokenIds) := by
  unfold add
  split
  next haborted =>
    intro hopen
    rw [haborted] at hopen
    cases hopen
  next =>
    dsimp only
    split
    next haborted =>
      intro hopen
      rw [haborted] at hopen
      cases hopen
    next => exact holds_addResponse (holds_addPrompt h _) _

theorem Holds.record (h : self.Holds generated) {record : TokensRecord}
    (hrecord : self.record = some record) :
    record.responseIds.length = record.responseMask.length ∧
      generatedIds record.responseIds record.responseMask = generated := by
  unfold TokenLayer.record at hrecord
  split at hrecord
  next => cases hrecord
  next hopen =>
    split at hrecord
    · cases hrecord
    · split at hrecord
      · cases hrecord
      · cases hrecord
        exact h (by simpa using hopen)

end TokenLayer

namespace Accounts

theorem foldl_addUse (use : EngineCall → Nat) (calls : List EngineCall) {total : Nat}
    (h : total ≤ Word.maxVal 64) :
    calls.foldl (addUse use) total =
      min (total + EngineCall.mainTotal use calls) (Word.maxVal 64) := by
  induction calls generalizing total with
  | nil => simpa [EngineCall.mainTotal] using h
  | cons call calls ih =>
    rw [List.foldl_cons]
    cases hrepair : call.repair with
    | true =>
      have hkept : addUse use total call = total := if_pos hrepair
      rw [hkept, ih h]
      simp [EngineCall.mainTotal, hrepair]
    | false =>
      have hadded : addUse use total call = min (total + use call) (Word.maxVal 64) :=
        if_neg (by simp [hrepair])
      have htotal : EngineCall.mainTotal use (call :: calls) =
          use call + EngineCall.mainTotal use calls := by
        simp [EngineCall.mainTotal, hrepair]
      rw [hadded, ih (Nat.min_le_right _ _), htotal]
      omega

theorem promptTokens_foldl (calls : List EngineCall) (before : Accounts) :
    (calls.foldl add before).promptTokens =
      calls.foldl (addUse EngineCall.promptTokens) before.promptTokens := by
  induction calls generalizing before with
  | nil => rfl
  | cons call calls ih => exact ih (before.add call)

theorem completionTokens_foldl (calls : List EngineCall) (before : Accounts) :
    (calls.foldl add before).completionTokens =
      calls.foldl (addUse EngineCall.completionTokens) before.completionTokens := by
  induction calls generalizing before with
  | nil => rfl
  | cons call calls ih => exact ih (before.add call)

theorem subTurns_foldl (calls : List EngineCall) (before : Accounts) :
    (calls.foldl add before).subTurns = before.subTurns ++ calls.mapIdx fun index call =>
      subTurnRecord (before.subTurns.length + index) call.prompt call.output := by
  induction calls generalizing before with
  | nil => simp
  | cons call calls ih =>
    rw [List.foldl_cons, ih, List.mapIdx_cons]
    simp [add, Nat.add_assoc, Nat.add_comm 1]

theorem holds_foldl (calls : List EngineCall) {before : Accounts} {generated : List UInt32}
    (h : before.tokenLayer.Holds generated) :
    (calls.foldl add before).tokenLayer.Holds
      (generated ++ calls.flatMap fun call => call.output.responseTokenIds) := by
  induction calls generalizing before generated with
  | nil => simpa using h
  | cons call calls ih =>
    have hnext : (before.add call).tokenLayer.Holds (generated ++ call.output.responseTokenIds) :=
      TokenLayer.holds_add h call.output
    have hadded := ih hnext
    rw [List.append_assoc] at hadded
    exact hadded

end Accounts

/-! ## The calls of a turn -/

namespace Inputs

variable (args : Inputs W V)

/-- The call of `generate`. -/
def generateCalls (t : Turn W V) : List EngineCall :=
  match (args.generate t).1 with
  | .ok (some output) => [⟨args.formatPrompt t.messages, output, false⟩]
  | _ => []

/-- The prompt of `repairToolCalls`. -/
def repairPrompt (assistantDraft : Str) (t : Turn W V) : Str :=
  args.formatPrompt (t.messages ++ [.assistant assistantDraft [],
    .user ("Rewrite your previous assistant message using the tool-call protocol. If a tool is " ++
      "needed, output only valid <tool_call> blocks and no other text. If no tool is needed, " ++
      "output exactly NO_TOOL.").toList])

/-- The completion of `repairToolCalls`. -/
def repairCompletion (assistantDraft : Str) (t : Turn W V) :
    Except Str (Option CompletionOutput) × W :=
  completeWithOptionalCancel args.engine {
      prompt := args.repairPrompt assistantDraft t
      maxTokens := min args.settings.maxTokens 128
      temperature := 0
      stop := ["<|im_end|>".toList] } args.cancellable false t.world

/-- The call of `repairToolCalls`. -/
def repairCalls (assistantDraft : Str) (t : Turn W V) : List EngineCall :=
  match (args.repairCompletion assistantDraft t).1 with
  | .ok (some output) => [⟨args.repairPrompt assistantDraft t, output, true⟩]
  | _ => []

/-- The state in which `recoverToolCalls` asks for a repair, if it does. -/
def repairTurn (output : CompletionOutput) (t : Turn W V) : Option (Turn W V) :=
  let parsed := parseToolCalls args.json output.text
  if parsed.toolCalls.isEmpty ∧ t.toolCallsExecuted = 0 ∧ !args.tools.isEmpty then
    let recovered := args.toolPolicy.recoverToolCallsFromDraft t.world output.text args.tools
    match recovered.1 with
    | some _ => none
    | none =>
      if (Str.find output.text "<tool_call>".toList).isSome then
        some { t with world := recovered.2 }
      else
        let should := args.toolPolicy.shouldRepairToolCalls recovered.2 parsed.content
        if should.1 then some { t with world := should.2 } else none
  else
    none

/-- The calls of `recoverToolCalls`. -/
def recoverCalls (output : CompletionOutput) (t : Turn W V) : List EngineCall :=
  match args.repairTurn output t with
  | some t => args.repairCalls output.text t
  | none => []

/-- The calls of `respond`. -/
def respondCalls (t : Turn W V) : List EngineCall :=
  match t.recoveredUserRequest with
  | some _ => []
  | none =>
    let generated := args.generate t
    match generated.1 with
    | .ok (some output) => args.generateCalls t ++ args.recoverCalls output generated.2
    | _ => []

/-- The calls of `runLoop`: those of its sub-turns. -/
def loopCalls (turnStart : Nat) : (left turn : Nat) → Turn W V → List EngineCall
  | 0, _, _ => []
  | left + 1, turn, t =>
    let ended := args.subTurn turnStart turn t
    match ended.1 with
    | .continues => args.respondCalls t ++ loopCalls turnStart left (turn + 1) ended.2
    | _ => args.respondCalls t

/-- The calls of the engine that a turn completes. -/
def turnCalls (messages : List (ChatMessage V)) (world : W) : List EngineCall :=
  args.loopCalls messages.length args.settings.maxTurns 0 (args.begin messages world)

/-! ## What enters the accumulators -/

/-- The accumulators after these calls: those that are recorded enter one after the other. -/
def accountsAfter (calls : List EngineCall) (before : Accounts) : Accounts :=
  (calls.filter fun call => call.recorded args.json).foldl Accounts.add before

theorem accountsAfter_append (calls calls' : List EngineCall) (before : Accounts) :
    args.accountsAfter (calls ++ calls') before =
      args.accountsAfter calls' (args.accountsAfter calls before) := by
  unfold accountsAfter
  rw [List.filter_append, List.foldl_append]

theorem accounts_generate (t : Turn W V) :
    (args.generate t).2.accounts = args.accountsAfter (args.generateCalls t) t.accounts := by
  unfold generateCalls generate
  dsimp only
  split
  · rfl
  · rfl
  · rfl

theorem accounts_repairToolCalls (parsed : ParsedAssistantResponse V) (assistantDraft : Str)
    (t : Turn W V) :
    (args.repairToolCalls parsed assistantDraft t).2.accounts =
      args.accountsAfter (args.repairCalls assistantDraft t) t.accounts := by
  unfold repairToolCalls repairCalls repairCompletion repairPrompt
  dsimp only
  generalize completeWithOptionalCancel args.engine _ _ _ _ = repair
  cases repair.1 with
  | error error => rfl
  | ok completed =>
    cases completed with
    | none => rfl
    | some output =>
      dsimp only
      split
      next hempty =>
        simp [accountsAfter, EngineCall.recorded, hempty, Turn.accounts]
      next hcalls =>
        rw [Turn.accounts_observeRepair]
        simp [accountsAfter, EngineCall.recorded, hcalls, Turn.accounts]

theorem accounts_recoverToolCalls (output : CompletionOutput) (t : Turn W V) :
    (args.recoverToolCalls output t).2.accounts =
      args.accountsAfter (args.recoverCalls output t) t.accounts := by
  unfold recoverToolCalls recoverCalls repairTurn
  dsimp only
  split
  · cases (args.toolPolicy.recoverToolCallsFromDraft t.world output.text args.tools).1 with
    | some recoveredParsed => rfl
    | none =>
      dsimp only
      split
      · rw [accounts_repairToolCalls]
        rfl
      · split
        · rw [accounts_repairToolCalls]
          rfl
        · rfl
  · rfl

/-- The calls for the response of a sub-turn, recorded as far as they are, are what its
accumulators change by, whether the sub-turn has a response, fails or is cancelled. -/
theorem accounts_respond (t : Turn W V) :
    (args.respond t).2.accounts = args.accountsAfter (args.respondCalls t) t.accounts := by
  unfold respond respondCalls
  cases t.recoveredUserRequest with
  | some parsed => rfl
  | none =>
    have hgenerate := args.accounts_generate t
    unfold generateCalls at hgenerate ⊢
    dsimp only
    cases hgenerated : (args.generate t).1 with
    | error error =>
      rw [hgenerated] at hgenerate
      exact hgenerate
    | ok completed =>
      cases completed with
      | none =>
        rw [hgenerated] at hgenerate
        exact hgenerate
      | some output =>
        rw [hgenerated] at hgenerate
        dsimp only
        rw [accounts_recoverToolCalls, hgenerate, accountsAfter_append]

/-- A sub-turn that goes on has the accumulators of its response, and one that finishes reports
them. -/
theorem react_accounts (turnStart turn : Nat) (parsed : ParsedAssistantResponse V) (t : Turn W V) :
    (args.react turnStart turn parsed t).2.accounts = t.accounts ∧
      ∀ result, (args.react turnStart turn parsed t).1 = .finished result →
        t.accounts.ReportedBy result := by
  have hexecuted (pushed : Turn W V) (content : Str) (hpushed : pushed.accounts = t.accounts) :
      (args.executeAll turnStart turn content parsed.toolCalls pushed).2.accounts = t.accounts ∧
        ∀ result, (args.executeAll turnStart turn content parsed.toolCalls pushed).1 =
          .finished result → t.accounts.ReportedBy result := by
    have hkept := (pushed.note content).accounts_executeToolCalls args.toolExecutor turn
      parsed.toolCalls 0
    rw [Turn.accounts_note, hpushed] at hkept
    unfold executeAll
    dsimp only
    split
    · refine ⟨hkept, ?_⟩
      intro result hresult
      cases hresult
      rw [← hkept]
      exact Turn.reportedBy_result _ _ _ _
    · exact ⟨hkept, fun _ hresult => by cases hresult⟩
  unfold react
  dsimp only
  split
  · refine ⟨rfl, ?_⟩
    intro result hresult
    cases hresult
    exact Turn.reportedBy_result _ _ _ _
  · exact hexecuted _ _ rfl

theorem subTurn_accounts (turnStart turn : Nat) (t : Turn W V) :
    (args.subTurn turnStart turn t).2.accounts =
        args.accountsAfter (args.respondCalls t) t.accounts ∧
      ∀ result, (args.subTurn turnStart turn t).1 = .finished result →
        (args.accountsAfter (args.respondCalls t) t.accounts).ReportedBy result := by
  rw [← accounts_respond]
  unfold subTurn
  dsimp only
  split
  · exact ⟨rfl, fun _ hresult => by cases hresult⟩
  · exact ⟨rfl, fun _ hresult => by cases hresult⟩
  · exact args.react_accounts turnStart turn _ _

/-- The result of the loop reports the accumulators after its calls. -/
theorem runLoop_accounts (turnStart left turn : Nat) (t : Turn W V) {result : AgentTurnResult V}
    (hresult : (args.runLoop turnStart left turn t).1 = .ok (some result)) :
    (args.accountsAfter (args.loopCalls turnStart left turn t) t.accounts).ReportedBy result := by
  induction left generalizing turn t with
  | zero =>
    cases hresult
    exact Turn.reportedBy_result _ _ _ _
  | succ left ih =>
    obtain ⟨hkept, hfinished⟩ := args.subTurn_accounts turnStart turn t
    unfold runLoop at hresult
    unfold loopCalls
    dsimp only at hresult ⊢
    cases hended : (args.subTurn turnStart turn t).1 with
    | failed error =>
      rw [hended] at hresult
      cases hresult
    | cancelled =>
      rw [hended] at hresult
      cases hresult
    | finished ended =>
      rw [hended] at hresult
      cases hresult
      exact hfinished _ hended
    | continues =>
      rw [hended] at hresult
      dsimp only at hresult ⊢
      rw [accountsAfter_append, ← hkept]
      exact ih (turn + 1) _ hresult

/-- What the result of a turn reports: a record for each recorded call, the totals of the main
loop, and the responses of the recorded calls. -/
theorem runTurnInner_accounts (messages : List (ChatMessage V)) (world : W)
    {result : AgentTurnResult V}
    (hresult : (args.runTurnInner messages world).1 = .ok (some result)) :
    let calls := args.turnCalls messages world
    let recorded := calls.filter fun call => call.recorded args.json
    result.subTurns = (recorded.mapIdx fun index call =>
        subTurnRecord index call.prompt call.output) ∧
      result.promptTokens =
        min (EngineCall.mainTotal EngineCall.promptTokens calls) (Word.maxVal 64) ∧
      result.completionTokens =
        min (EngineCall.mainTotal EngineCall.completionTokens calls) (Word.maxVal 64) ∧
      ∀ record, result.tokens = some record →
        record.responseIds.length = record.responseMask.length ∧
          generatedIds record.responseIds record.responseMask =
            recorded.flatMap fun call => call.output.responseTokenIds := by
  intro calls recorded
  have hreported : (recorded.foldl Accounts.add .start).ReportedBy result :=
    args.runLoop_accounts messages.length args.settings.maxTurns 0 (args.begin messages world)
      hresult
  obtain ⟨hprompt, hcompletion, hsubTurns, htokens⟩ := hreported
  have hmain (use : EngineCall → Nat) :
      EngineCall.mainTotal use recorded = EngineCall.mainTotal use calls := by
    unfold EngineCall.mainTotal
    rw [List.filter_filter]
    congr 2
    apply List.filter_congr
    intro call _
    cases hrepair : call.repair with
    | false => simp [EngineCall.recorded, hrepair]
    | true => simp
  have htotal (use : EngineCall → Nat) :
      recorded.foldl (Accounts.addUse use) 0 =
        min (EngineCall.mainTotal use calls) (Word.maxVal 64) := by
    rw [Accounts.foldl_addUse use recorded (Nat.zero_le _), Nat.zero_add, hmain]
  rw [Accounts.subTurns_foldl] at hsubTurns
  rw [Accounts.promptTokens_foldl] at hprompt
  rw [Accounts.completionTokens_foldl] at hcompletion
  refine ⟨?_, hprompt.trans (htotal _), hcompletion.trans (htotal _), ?_⟩
  · simpa [Accounts.start] using hsubTurns
  · intro record hrecord
    rw [htokens] at hrecord
    have hstart : Accounts.start.tokenLayer.Holds [] := fun _ => ⟨rfl, rfl⟩
    have hheld := Accounts.holds_foldl recorded hstart
    exact hheld.record hrecord

/-- The result of a turn accounts for the calls of the engine that the turn completed if and only
if every repair among them brought tool calls and used no tokens, and the totals fit. -/
theorem result_accounts_iff (messages : List (ChatMessage V)) (world : W)
    {result : AgentTurnResult V}
    (hresult : (args.runTurnInner messages world).1 = .ok (some result)) :
    result.AccountsFor (args.turnCalls messages world) ↔
      EngineCall.Billed args.json (args.turnCalls messages world) := by
  obtain ⟨hsubTurns, hprompt, hcompletion, htokens⟩ :=
    args.runTurnInner_accounts messages world hresult
  generalize args.turnCalls messages world = calls at *
  have hpromptUse := EngineCall.sum_records SubTurnRecord.promptTokens
    EngineCall.promptTokens (fun _ _ => rfl) calls
  have hcompletionUse := EngineCall.sum_records SubTurnRecord.completionTokens
    EngineCall.completionTokens (fun _ _ => rfl) calls
  constructor
  · intro h
    have hlength := congrArg List.length (hsubTurns.symm.trans h.subTurns)
    rw [List.length_mapIdx, List.length_mapIdx] at hlength
    have hrecorded := List.length_filter_eq_length_iff.mp hlength
    rw [← h.subTurns, ← h.promptTokens, hprompt] at hpromptUse
    rw [← h.subTurns, ← h.completionTokens, hcompletion] at hcompletionUse
    -- a total that saturates or leaves a repair out is below the sum of the records
    have hpromptZero : EngineCall.repairTotal EngineCall.promptTokens calls = 0 := by omega
    have hcompletionZero : EngineCall.repairTotal EngineCall.completionTokens calls = 0 := by omega
    have hpromptFree := EngineCall.repairTotal_eq_zero.mp hpromptZero
    have hcompletionFree := EngineCall.repairTotal_eq_zero.mp hcompletionZero
    exact {
      recorded := fun call hcall => EngineCall.recorded_iff.mp (hrecorded call hcall)
      free := fun call hcall hrepair =>
        ⟨hpromptFree call hcall hrepair, hcompletionFree call hcall hrepair⟩
      prompt_fits := by omega
      completion_fits := by omega }
  · intro h
    have hall : (calls.filter fun call => call.recorded args.json) = calls :=
      List.filter_eq_self.mpr fun call hcall => EngineCall.recorded_iff.mpr (h.recorded call hcall)
    rw [hall] at hsubTurns htokens
    rw [← hsubTurns, EngineCall.repairTotal_eq_zero.mpr fun call hcall hrepair =>
      (h.free call hcall hrepair).1] at hpromptUse
    rw [← hsubTurns, EngineCall.repairTotal_eq_zero.mpr fun call hcall hrepair =>
      (h.free call hcall hrepair).2] at hcompletionUse
    have hpromptFits := h.prompt_fits
    have hcompletionFits := h.completion_fits
    exact {
      subTurns := hsubTurns
      promptTokens := by omega
      completionTokens := by omega
      tokens := htokens }

end Inputs

/-- A turn of one sub-turn with a tool: the model answers with `draft`, and a repair of it with
`NO_TOOL`. -/
def declinedInputs (draft : Str) : Inputs Unit Doc where
  json := plainJson
  engine := {
    tokenize := fun _ _ => (some [1], ())
    complete := fun _ _ => (.ok {
      text := "NO_TOOL".toList
      finishReason := .stop
      usage := ⟨5, 3, 8⟩
      promptTokenIds := [1]
      responseTokenIds := [4] }, ())
    completeStream := fun _ _ => {
      rounds := [⟨false, .ok {
        textDelta := draft
        finishReason := some .stop
        usage := some ⟨1, 2, 3⟩
        logprob := none
        tokenIds := [2, 3]
        error := none }⟩]
      workerError := none
      world := () } }
  userInput := "hello".toList
  tools := [{ name := "shell".toList, description := [], parameters := .text [] }]
  toolExecutor := fun _ _ => ({ result := [], truncated := false }, ())
  toolPolicy := {
    recoverToolCallsFromUserRequest := fun _ _ _ => (none, ())
    recoverToolCallsFromDraft := fun _ _ _ => (none, ())
    shouldRepairToolCalls := fun _ _ => (false, ())
    finalizeResponseText := fun _ _ content _ _ _ => (content, ())
    finalizeAfterToolExecution := fun _ _ _ _ _ => (none, ()) }
  settings := { maxTurns := 1, maxTokens := 64, temperature := 0 }
  cancellable := false

/-- The same turn with a repair that brings a tool call and uses no tokens. -/
def repairedInputs : Inputs Unit Doc :=
  let declined := declinedInputs "<tool_call>".toList
  { declined with
    engine := { declined.engine with
      complete := fun _ _ => (.ok {
        text := "<tool_call>\x7b\"name\":\"shell\",\"arguments\":\x7b\x7d\x7d</tool_call>".toList
        finishReason := .stop
        usage := ⟨0, 0, 0⟩
        promptTokenIds := [1]
        responseTokenIds := [4] }, ()) } }

/-- Both calls of that turn have a record. -/
theorem result_accounts_repaired : ∃ result,
    (repairedInputs.runTurnInner [.system []] ()).1 = .ok (some result) ∧
      result.subTurns.length = 2 ∧
      result.AccountsFor (repairedInputs.turnCalls [.system []] ()) := by
  have hrecords : ((repairedInputs.runTurnInner [.system []] ()).1.toOption.join.map fun result =>
      result.subTurns.length) = some 2 := by decide +kernel
  obtain ⟨result, hresult, hlength⟩ := Option.map_eq_some_iff.mp hrecords
  have hok : (repairedInputs.runTurnInner [.system []] ()).1 = .ok (some result) := by
    cases hreturned : (repairedInputs.runTurnInner [.system []] ()).1 with
    | error error =>
      rw [hreturned] at hresult
      cases hresult
    | ok returned =>
      rw [hreturned] at hresult
      exact congrArg Except.ok hresult
  refine ⟨result, hok, hlength, (repairedInputs.result_accounts_iff [.system []] () hok).mpr ?_⟩
  exact {
    recorded := by decide +kernel
    free := by decide +kernel
    prompt_fits := by decide +kernel
    completion_fits := by decide +kernel }

/-- The model opens a tool call and declines to repair it: two calls are completed, and the result
has a record of one. -/
theorem declined_repair_not_recorded : ∃ result,
    ((declinedInputs "<tool_call>".toList).runTurnInner [.system []] ()).1 = .ok (some result) ∧
      ((declinedInputs "<tool_call>".toList).turnCalls [.system []] ()).length = 2 ∧
      result.subTurns.length = 1 ∧
      ¬ result.AccountsFor ((declinedInputs "<tool_call>".toList).turnCalls [.system []] ()) := by
  have hcalls : ((declinedInputs "<tool_call>".toList).turnCalls [.system []] ()).length = 2 := rfl
  refine ⟨_, rfl, hcalls, rfl, ?_⟩
  intro h
  have hlength := congrArg List.length h.subTurns
  rw [List.length_mapIdx, hcalls] at hlength
  cases hlength

end Arle.Agent
