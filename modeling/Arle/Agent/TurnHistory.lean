import Mathlib
import Arle.Agent.Session
import Arle.Chat.PlainJson

/-!
# What a turn leaves in the session

A turn that returns a result leaves the message of the user and one assistant message. A turn
whose generation fails or is cancelled returns early, and what it pushed so far stays.
-/

namespace Arle.Agent

open ServerEngine Chat

variable {W V : Type}

/-- The messages after a turn: with a result, the earlier ones with the request and the answer;
without, the earlier ones. -/
def AllOrNothing (userInput : Str) (before : List (ChatMessage V))
    (outcome : Except Str (Option (AgentTurnResult V))) (after : List (ChatMessage V)) : Prop :=
  match outcome with
  | .ok (some result) => after = before ++ [.user userInput, .assistant result.text []]
  | .ok none => after = before
  | .error _ => after = before

/-- The messages are those before the turn, the request and whatever followed. -/
def Begun (before : List (ChatMessage V)) (userInput : Str) (t : Turn W V) : Prop :=
  ∃ more, t.messages = before ++ .user userInput :: more

theorem Begun.of_append {before : List (ChatMessage V)} {userInput : Str} {t t' : Turn W V}
    {more : List (ChatMessage V)} (h : Begun before userInput t)
    (ht : t'.messages = t.messages ++ more) : Begun before userInput t' := by
  obtain ⟨pushed, hpushed⟩ := h
  exact ⟨pushed ++ more, by rw [ht, hpushed, List.append_assoc, List.cons_append]⟩

namespace Turn

theorem messages_compactTurnHistory {before : List (ChatMessage V)} {userInput : Str}
    {t : Turn W V} (h : Begun before userInput t) (text : Str) :
    (t.compactTurnHistory before.length text).messages =
      before ++ [.user userInput, .assistant text []] := by
  obtain ⟨more, hmore⟩ := h
  unfold compactTurnHistory
  rw [hmore]
  simp [List.take_append]

@[simp] theorem messages_note (t : Turn W V) (content : Str) :
    (t.note content).messages = t.messages := by
  unfold note
  split <;> rfl

theorem messages_executeToolCalls (toolExecutor : ToolExecutor W V) (subTurnIndex : Nat)
    (toolCalls : List (ToolCall V)) (callIndex : Nat) (t : Turn W V) :
    ∃ results, (t.executeToolCalls toolExecutor subTurnIndex callIndex toolCalls).messages =
      t.messages ++ results := by
  induction toolCalls generalizing callIndex t with
  | nil => exact ⟨[], (List.append_nil _).symm⟩
  | cons toolCall toolCalls ih =>
    obtain ⟨results, hresults⟩ :=
      ih (callIndex + 1) (t.executeToolCall toolExecutor subTurnIndex callIndex toolCall)
    refine ⟨.toolResult toolCall.name (toolExecutor t.world toolCall).1.result :: results, ?_⟩
    unfold executeToolCalls
    rw [hresults]
    simp [executeToolCall]

end Turn

namespace Inputs

open Turn

variable (args : Inputs W V)

/-! ## The parts of a sub-turn -/

@[simp] theorem messages_generate (t : Turn W V) : (args.generate t).2.messages = t.messages := by
  unfold generate
  dsimp only
  split <;> rfl

@[simp] theorem messages_repairToolCalls (parsed : ParsedAssistantResponse V) (draft : Str)
    (t : Turn W V) : (args.repairToolCalls parsed draft t).2.messages = t.messages := by
  unfold repairToolCalls
  dsimp only
  split
  · rfl
  · rfl
  · split <;> rfl

@[simp] theorem messages_recoverToolCalls (output : CompletionOutput) (t : Turn W V) :
    (args.recoverToolCalls output t).2.messages = t.messages := by
  unfold recoverToolCalls
  dsimp only
  split
  · split
    · rfl
    · split
      · rw [messages_repairToolCalls]
      · split
        · rw [messages_repairToolCalls]
        · rfl
  · rfl

theorem messages_respond (t : Turn W V) : (args.respond t).2.messages = t.messages := by
  unfold respond
  dsimp only
  split
  · rfl
  · split
    · exact messages_generate args t
    · exact messages_generate args t
    · rw [messages_recoverToolCalls, messages_generate]

/-- What a sub-turn with a response may do: finish with the two messages of the turn, or go on. -/
def Settles (before : List (ChatMessage V)) (ended : SubTurn V × Turn W V) : Prop :=
  (∃ result, ended.1 = .finished result ∧
    ended.2.messages = before ++ [.user args.userInput, .assistant result.text []]) ∨
  (ended.1 = .continues ∧ Begun before args.userInput ended.2)

theorem executeAll_settles {before : List (ChatMessage V)} (turn : Nat) (content : Str)
    (toolCalls : List (ToolCall V)) {t : Turn W V} (h : Begun before args.userInput t) :
    args.Settles before (args.executeAll before.length turn content toolCalls t) := by
  obtain ⟨results, hresults⟩ :=
    messages_executeToolCalls args.toolExecutor turn toolCalls 0 (t.note content)
  rw [messages_note] at hresults
  unfold executeAll
  dsimp only
  split
  · refine .inl ⟨_, rfl, ?_⟩
    exact messages_compactTurnHistory (Begun.of_append h hresults) _
  · exact .inr ⟨rfl, Begun.of_append h hresults⟩

theorem react_settles {before : List (ChatMessage V)} (turn : Nat)
    (parsed : ParsedAssistantResponse V) {t : Turn W V} (h : Begun before args.userInput t) :
    args.Settles before (args.react before.length turn parsed t) := by
  unfold react
  dsimp only
  split
  · refine .inl ⟨_, rfl, ?_⟩
    exact messages_compactTurnHistory (Begun.of_append h rfl) _
  · apply executeAll_settles
    exact Begun.of_append h rfl

/-! ## The generations of a turn -/

/-- The generation of a sub-turn is answered: it is neither an error nor cancelled, and no repair
of it is an error. A response recovered from the request of the user needs no generation. -/
def Answered (t : Turn W V) : Prop :=
  t.recoveredUserRequest = none → ∃ output, (args.generate t).1 = .ok (some output) ∧
    ∀ error, (args.recoverToolCalls output (args.generate t).2).1 ≠ .error error

theorem answered_iff (t : Turn W V) :
    args.Answered t ↔ ∃ parsed, (args.respond t).1 = .ok (some parsed) := by
  unfold Answered respond
  cases t.recoveredUserRequest with
  | some parsed => simp
  | none =>
    cases hgenerate : (args.generate t).1 with
    | error error => simp [hgenerate]
    | ok generated =>
      cases generated with
      | none => simp [hgenerate]
      | some output =>
        cases hrecover : (args.recoverToolCalls output (args.generate t).2).1 with
        | error error => simp [hgenerate, hrecover, Except.map]
        | ok parsed => simp [hgenerate, hrecover, Except.map]

theorem subTurn_settles {before : List (ChatMessage V)} (turn : Nat) {t : Turn W V}
    (h : Begun before args.userInput t) (hanswered : args.Answered t) :
    args.Settles before (args.subTurn before.length turn t) := by
  obtain ⟨parsed, hparsed⟩ := (args.answered_iff t).mp hanswered
  unfold subTurn
  dsimp only
  rw [hparsed]
  apply react_settles
  obtain ⟨more, hmore⟩ := h
  exact ⟨more, by rw [messages_respond, hmore]⟩

theorem subTurn_of_not_answered {before : List (ChatMessage V)} (turn : Nat) {t : Turn W V}
    (h : Begun before args.userInput t) (hanswered : ¬ args.Answered t) :
    ((∃ error, (args.subTurn before.length turn t).1 = .failed error) ∨
      (args.subTurn before.length turn t).1 = .cancelled) ∧
    Begun before args.userInput (args.subTurn before.length turn t).2 := by
  rw [answered_iff] at hanswered
  have hkept : Begun before args.userInput (args.respond t).2 := by
    obtain ⟨more, hmore⟩ := h
    exact ⟨more, by rw [messages_respond, hmore]⟩
  unfold subTurn
  dsimp only
  cases hresponded : (args.respond t).1 with
  | error error => exact ⟨.inl ⟨error, rfl⟩, hkept⟩
  | ok responded =>
    cases responded with
    | none => exact ⟨.inr rfl, hkept⟩
    | some parsed => exact absurd ⟨parsed, hresponded⟩ hanswered

/-- The sub-turns that the loop comes to: number `turn'` with the state `t'`, from number `turn`
with the state `t`. -/
inductive Reached (turnStart : Nat) : Nat → Turn W V → Nat → Turn W V → Prop
  | refl (turn : Nat) (t : Turn W V) : Reached turnStart turn t turn t
  | next {turn turn' : Nat} {t t' : Turn W V}
      (h : (args.subTurn turnStart turn t).1 = .continues)
      (rest : Reached turnStart (turn + 1) (args.subTurn turnStart turn t).2 turn' t') :
      Reached turnStart turn t turn' t'

/-! ## The loop -/

theorem Reached.le {turnStart turn turn' : Nat} {t t' : Turn W V}
    (h : args.Reached turnStart turn t turn' t') : turn ≤ turn' := by
  induction h with
  | refl turn t => exact Nat.le_refl turn
  | next _ _ ih => exact Nat.le_of_succ_le ih

theorem runLoop_of_answered {before : List (ChatMessage V)} (left turn : Nat) {t : Turn W V}
    (h : Begun before args.userInput t)
    (hanswered : ∀ turn' t', turn' < turn + left →
      args.Reached before.length turn t turn' t' → args.Answered t') :
    AllOrNothing args.userInput before (args.runLoop before.length left turn t).1
      (args.runLoop before.length left turn t).2.messages := by
  induction left generalizing turn t with
  | zero => exact messages_compactTurnHistory h _
  | succ left ih =>
    have hhere := hanswered turn t (by omega) (.refl turn t)
    unfold runLoop
    dsimp only
    rcases args.subTurn_settles turn h hhere with ⟨result, hfinished, hmessages⟩ | ⟨hgoes, hbegun⟩
    · rw [hfinished]
      exact hmessages
    · rw [hgoes]
      exact ih (turn + 1) hbegun fun turn' t' hlt hreached =>
        hanswered turn' t' (by omega) (.next hgoes hreached)

/-- A loop that comes to a sub-turn without an answer brings no result, and the request stays. -/
theorem runLoop_of_not_answered {before : List (ChatMessage V)} (left turn : Nat)
    {t t' : Turn W V} {turn' : Nat} (h : Begun before args.userInput t) (hlt : turn' < turn + left)
    (hreached : args.Reached before.length turn t turn' t') (hnot : ¬ args.Answered t') :
    (∀ result, (args.runLoop before.length left turn t).1 ≠ .ok (some result)) ∧
      Begun before args.userInput (args.runLoop before.length left turn t).2 := by
  induction left generalizing turn t with
  | zero =>
    have hle := hreached.le
    omega
  | succ left ih =>
    unfold runLoop
    dsimp only
    cases hreached with
    | refl =>
      obtain ⟨⟨error, hfailed⟩ | hcancelled, hbegun⟩ := args.subTurn_of_not_answered _ h hnot
      · rw [hfailed]
        exact ⟨(fun _ h => by cases h), hbegun⟩
      · rw [hcancelled]
        exact ⟨(fun _ h => by cases h), hbegun⟩
    | next hgoes hrest =>
      have hbegun : Begun before args.userInput (args.subTurn before.length turn t).2 := by
        by_cases hhere : args.Answered t
        · rcases args.subTurn_settles turn h hhere with ⟨_, hfinished, _⟩ | ⟨_, hbegun⟩
          · rw [hgoes] at hfinished
            cases hfinished
          · exact hbegun
        · exact (args.subTurn_of_not_answered turn h hhere).2
      rw [hgoes]
      exact ih (turn + 1) hbegun (by omega) hrest

theorem not_allOrNothing {before after : List (ChatMessage V)} {t : Turn W V}
    {outcome : Except Str (Option (AgentTurnResult V))} (hno : ∀ result, outcome ≠ .ok (some result))
    (h : Begun before args.userInput t) (hafter : after = t.messages) :
    ¬ AllOrNothing args.userInput before outcome after := by
  obtain ⟨more, hmore⟩ := h
  have hne : after ≠ before := by
    rw [hafter, hmore]
    simp
  cases outcome with
  | error error => exact hne
  | ok ended =>
    cases ended with
    | none => exact hne
    | some result => exact absurd rfl (hno result)

/-- A turn changes the messages of its session all or nothing if and only if every generation
that it comes to is answered. -/
theorem turn_all_or_nothing_iff (messages : List (ChatMessage V)) (world : W) :
    AllOrNothing args.userInput messages (args.runTurnInner messages world).1
        (args.runTurnInner messages world).2.messages ↔
      ∀ turn t, turn < args.settings.maxTurns →
        args.Reached messages.length 0 (args.begin messages world) turn t → args.Answered t := by
  have hbegun : Begun messages args.userInput (args.begin messages world) := ⟨[], rfl⟩
  unfold runTurnInner
  constructor
  · intro hall turn t hlt hreached
    by_contra hnot
    obtain ⟨hno, hleft⟩ := args.runLoop_of_not_answered args.settings.maxTurns 0 hbegun
      (by omega) hreached hnot
    exact args.not_allOrNothing hno hleft rfl hall
  · intro hanswered
    exact args.runLoop_of_answered args.settings.maxTurns 0 hbegun fun turn t hlt hreached =>
      hanswered turn t (by omega) hreached

end Inputs

/-- A turn of one sub-turn with an engine that answers every request with an error. -/
def refusedInputs : Inputs Unit Doc where
  json := plainJson
  engine := {
    tokenize := fun _ _ => (none, ())
    complete := fun _ _ => (.error "no engine".toList, ())
    completeStream := fun _ _ =>
      { rounds := [], workerError := some "no engine".toList, world := () } }
  userInput := "hello".toList
  tools := []
  toolExecutor := fun _ _ => ({ result := [], truncated := false }, ())
  toolPolicy := {
    recoverToolCallsFromUserRequest := fun _ _ _ => (none, ())
    recoverToolCallsFromDraft := fun _ _ _ => (none, ())
    shouldRepairToolCalls := fun _ _ => (false, ())
    finalizeResponseText := fun _ _ content _ _ _ => (content, ())
    finalizeAfterToolExecution := fun _ _ _ _ _ => (none, ()) }
  settings := { maxTurns := 1, maxTokens := 64, temperature := 0 }
  cancellable := false

/-- The request stays in the session when the engine fails. -/
theorem failed_turn_keeps_request :
    (refusedInputs.runTurnInner [.system []] ()).1 = .error "no engine".toList ∧
    ¬ AllOrNothing refusedInputs.userInput [.system []]
      (refusedInputs.runTurnInner [.system []] ()).1
      (refusedInputs.runTurnInner [.system []] ()).2.messages := by
  have hfailed : (refusedInputs.runTurnInner [.system []] ()).1 = .error "no engine".toList := rfl
  have hmessages : (refusedInputs.runTurnInner [.system []] ()).2.messages =
      [.system [], .user "hello".toList] := rfl
  refine ⟨hfailed, ?_⟩
  rw [hfailed, hmessages]
  simp [AllOrNothing]

end Arle.Agent
