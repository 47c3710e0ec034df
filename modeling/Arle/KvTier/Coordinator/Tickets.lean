import Arle.Lib.Run
import Arle.KvTier.Coordinator.Control

/-!
# The ticket bookkeeping under any interleaving

The submitters, the cancellers and the worker of the coordinator as one step relation. A
submission mints a ticket, sends it over the bounded channel and registers it; a
cancellation checks that its ticket is live and then inserts it; the worker receives,
starts, handles and finishes. `registered`, `begun` and `finished` record which steps of
the bookkeeping have run; no step of the program reads them.
-/

namespace Arle.KvTier.Coordinator

/-- A command in the channel. -/
inductive Command
  | task (ticket : QueueTicket)
  | shutdown
deriving DecidableEq

/-- Where the loop of the worker is. It stops at a shutdown, or in the middle of a ticket
when an event cannot be sent. -/
inductive Worker
  | idle
  | received (ticket : QueueTicket)
  | started (ticket : QueueTicket)
  | handled (ticket : QueueTicket) (outcome : QueueOutcome)
  | stopped (unfinished : Option QueueTicket)
deriving DecidableEq

/-- The ticket that the worker has received and not started. -/
def Worker.waiting : Worker → List QueueTicket
  | .received ticket => [ticket]
  | _ => []

/-- The ticket that the worker has started and not finished. -/
def Worker.running : Worker → List QueueTicket
  | .started ticket | .handled ticket _ | .stopped (some ticket) => [ticket]
  | _ => []

structure System where
  control : CoordinatorControl
  nextTicket : Nat
  channel : List Command
  worker : Worker
  /-- Tickets of submitters that have not sent them yet. -/
  minted : List QueueTicket
  /-- Tickets of submitters between `try_send` and `on_submit`. -/
  sent : List QueueTicket
  /-- Tickets of cancellers between the check and the insertion. -/
  checked : List QueueTicket
  registered : List QueueTicket
  begun : List QueueTicket
  finished : List QueueTicket

namespace System

/-- The system that `CoordinatorBuilder::build` starts. -/
def new (capacity : Nat) : System where
  control := CoordinatorControl.new capacity
  nextTicket := 1
  channel := []
  worker := .idle
  minted := []
  sent := []
  checked := []
  registered := []
  begun := []
  finished := []

/-- The ticket of a number. -/
def mintTicket (kind : QueueKind) (val : Nat) : QueueTicket :=
  match kind with
  | .plan => .plan ⟨val⟩
  | .fetch => .fetch ⟨val⟩
  | .store => .store ⟨val⟩

/-- `try_send` of a minted ticket: a full channel rejects it, a channel whose receiver is
gone only drops it. -/
def trySend (s : System) (ticket : QueueTicket) : System :=
  let s := { s with minted := s.minted.erase ticket }
  match s.worker with
  | .stopped _ => s
  | _ =>
    if s.channel.length < s.control.capacity then
      { s with channel := s.channel ++ [.task ticket], sent := s.sent ++ [ticket] }
    else { s with control := s.control.onReject ticket.kind }

/-- The steps of the three parties. -/
inductive Op
  | mint (kind : QueueKind)
  | trySend (ticket : QueueTicket)
  | onSubmit (ticket : QueueTicket)
  | shutdown
  | cancelCheck (ticket : QueueTicket)
  | cancelInsert (ticket : QueueTicket)
  | recv
  | onStart
  | handle (result : Option QueueOutcome)
  | onFinish

/-- One step. A result of `none` is a handler that could not send its event. -/
def Step (s : System) (op : Op) (s' : System) : Prop :=
  match op with
  | .mint kind => s' = { s with
      nextTicket := s.nextTicket + 1
      minted := s.minted ++ [mintTicket kind s.nextTicket] }
  | .trySend ticket => ticket ∈ s.minted ∧ s' = s.trySend ticket
  | .onSubmit ticket => ticket ∈ s.sent ∧ s' = { s with
      control := s.control.onSubmit ticket
      sent := s.sent.erase ticket
      registered := s.registered ++ [ticket] }
  | .shutdown => s.channel.length < s.control.capacity ∧
      s' = { s with channel := s.channel ++ [.shutdown] }
  | .cancelCheck ticket => s' =
      if s.control.cancelCheck ticket then { s with checked := s.checked ++ [ticket] } else s
  | .cancelInsert ticket => ticket ∈ s.checked ∧ s' = { s with
      control := s.control.cancelInsert ticket
      checked := s.checked.erase ticket }
  | .recv => s.worker = .idle ∧
      match s.channel with
      | [] => False
      | .task ticket :: channel => s' = { s with channel := channel, worker := .received ticket }
      | .shutdown :: channel => s' = { s with channel := channel, worker := .stopped none }
  | .onStart => ∃ ticket, s.worker = .received ticket ∧ s' = { s with
      control := s.control.onStart ticket
      worker := .started ticket
      begun := s.begun ++ [ticket] }
  | .handle result => ∃ ticket, s.worker = .started ticket ∧ s' = { s with
      worker := match result with
        | some outcome => .handled ticket outcome
        | none => .stopped (some ticket) }
  | .onFinish => ∃ ticket outcome, s.worker = .handled ticket outcome ∧ s' = { s with
      control := s.control.onFinish ticket outcome
      worker := .idle
      finished := s.finished ++ [ticket] }

/-- A start. The channel allocates its slots, so there are at most `isize::MAX` of them. -/
def Start (s : System) : Prop := ∃ capacity, capacity ≤ Word.maxVal 63 ∧ s = new capacity

/-- The counter that a step decrements is not zero. -/
def NoUnderflow (s : System) (op : Op) : Prop :=
  match op, s.worker with
  | .onStart, .received ticket => 0 < (s.control.queue ticket.kind).queued
  | .onFinish, .handled ticket _ => 0 < (s.control.queue ticket.kind).inFlight
  | _, _ => True

/-- A finished ticket whose submitter and cancellers are done is in neither set. -/
def Settled (s : System) : Prop := ∀ ticket ∈ s.finished, ticket ∉ s.sent → ticket ∉ s.checked →
  ticket ∉ s.control.live ∧ ticket ∉ s.control.cancelled

/-- The number of tickets of a kind. -/
def ofKind (kind : QueueKind) (tickets : List QueueTicket) : Nat :=
  tickets.countP fun ticket => decide (ticket.kind = kind)

/-- A submitter registers its ticket, and a canceller inserts it, before the worker finishes
it, and the worker starts a ticket while more tickets of its kind are registered than
started. -/
def InOrder (s : System) (op : Op) : Prop :=
  match op, s.worker with
  | .onSubmit ticket, _ => ticket ∉ s.finished
  | .cancelInsert ticket, _ => ticket ∉ s.finished
  | .onStart, .received ticket => ofKind ticket.kind s.begun < ofKind ticket.kind s.registered
  | _, _ => True

/-! ## The invariant -/

section OfKind

variable {kind : QueueKind} {ticket : QueueTicket} {tickets : List QueueTicket}

@[simp] theorem ofKind_nil : ofKind kind [] = 0 := rfl

@[simp] theorem ofKind_append (tickets tickets' : List QueueTicket) :
    ofKind kind (tickets ++ tickets') = ofKind kind tickets + ofKind kind tickets' :=
  List.countP_append

@[simp] theorem ofKind_singleton : ofKind kind [ticket] = if kind = ticket.kind then 1 else 0 := by
  simp [ofKind, List.countP_singleton, eq_comm]

theorem ofKind_erase (h : ticket ∈ tickets) :
    ofKind kind (tickets.erase ticket) + ofKind kind [ticket] = ofKind kind tickets := by
  rw [← ofKind_append]
  exact ((List.perm_append_singleton _ _).trans (List.perm_cons_erase h).symm).countP_eq _

end OfKind

/-- The tickets in the channel. -/
def tasks (channel : List Command) : List QueueTicket :=
  channel.filterMap fun
    | .task ticket => some ticket
    | .shutdown => none

theorem ofKind_tasks_le (kind : QueueKind) (channel : List Command) :
    ofKind kind (tasks channel) ≤ channel.length :=
  (List.countP_le_length).trans (List.length_filterMap_le _ _)

/-- What every step in order keeps: a sent ticket is in the channel, with the worker or
started; the counters count the tickets between two steps; and a finished ticket is in
neither set. -/
structure Sound (s : System) : Prop where
  sent_eq : ∀ kind, ofKind kind s.registered + ofKind kind s.sent =
    ofKind kind s.begun + ofKind kind s.worker.waiting + ofKind kind (tasks s.channel)
  queued_eq : ∀ kind, (s.control.queue kind).queued + ofKind kind s.begun =
    ofKind kind s.registered
  inFlight_eq : ∀ kind, (s.control.queue kind).inFlight = ofKind kind s.worker.running
  room : s.channel.length ≤ s.control.capacity
  capacity_le : s.control.capacity ≤ Word.maxVal 63
  settled : ∀ ticket ∈ s.finished, ticket ∉ s.control.live ∧ ticket ∉ s.control.cancelled

theorem sound_new {capacity : Nat} (h : capacity ≤ Word.maxVal 63) : (new capacity).Sound where
  sent_eq _ := rfl
  queued_eq kind := by cases kind <;> rfl
  inFlight_eq kind := by cases kind <;> rfl
  room := Nat.zero_le _
  capacity_le := by
    change max capacity 1 ≤ Word.maxVal 63
    simp only [Word.maxVal] at h ⊢
    omega
  settled _ h := by cases h

theorem trySend_cases (s : System) (ticket : QueueTicket) :
    (s.trySend ticket = { s with minted := s.minted.erase ticket }) ∨
    (s.channel.length < s.control.capacity ∧ s.trySend ticket = { s with
      minted := s.minted.erase ticket
      channel := s.channel ++ [.task ticket]
      sent := s.sent ++ [ticket] }) ∨
    (s.trySend ticket = { s with
      minted := s.minted.erase ticket
      control := s.control.onReject ticket.kind }) := by
  unfold trySend
  dsimp only
  split
  · exact Or.inl rfl
  · split
    · rename_i hroom
      exact Or.inr (Or.inl ⟨hroom, rfl⟩)
    · exact Or.inr (Or.inr rfl)

namespace Sound

variable {s : System}

/-- The tickets that are registered and not started fit in the channel and the worker. -/
theorem registered_le (h : s.Sound) (kind : QueueKind) :
    ofKind kind s.registered + ofKind kind s.sent < ofKind kind s.begun + 2 ^ 64 := by
  have hsent := h.sent_eq kind
  have htasks := ofKind_tasks_le kind s.channel
  have hroom := h.room
  have hcapacity := h.capacity_le
  have hwaiting : ofKind kind s.worker.waiting ≤ 1 := by
    cases s.worker with
    | received ticket =>
      rw [Worker.waiting, ofKind_singleton]
      split <;> omega
    | _ => simp [Worker.waiting]
  simp only [Word.maxVal] at hcapacity
  omega

theorem onSubmit (h : s.Sound) {ticket : QueueTicket} (hsent : ticket ∈ s.sent)
    (horder : ticket ∉ s.finished) : ({ s with
      control := s.control.onSubmit ticket
      sent := s.sent.erase ticket
      registered := s.registered ++ [ticket] } : System).Sound := by
  have herase : ∀ kind, ofKind kind (s.sent.erase ticket) + ofKind kind [ticket] =
      ofKind kind s.sent := fun kind => ofKind_erase hsent
  refine ⟨fun kind => ?_, fun kind => ?_, fun kind => ?_, ?_, ?_, fun t ht => ?_⟩
  · have hs := h.sent_eq kind
    have he := herase kind
    simp only [ofKind_append] at hs ⊢
    omega
  · have hq := h.queued_eq kind
    have hle := h.registered_le kind
    have he := herase kind
    simp only [CoordinatorControl.queue_onSubmit, ofKind_append, ofKind_singleton] at he ⊢
    by_cases hkind : kind = ticket.kind
    · rw [if_pos hkind] at he
      rw [if_pos hkind, if_pos hkind]
      dsimp only
      rw [Word.wrappingAdd_of_lt (by omega)]
      omega
    · rw [if_neg hkind, if_neg hkind]
      exact hq
  · simp only [CoordinatorControl.queue_onSubmit]
    rw [← h.inFlight_eq kind]
    split <;> rfl
  · simpa [CoordinatorControl.onSubmit] using h.room
  · simpa [CoordinatorControl.onSubmit] using h.capacity_le
  · obtain ⟨hlive, hcancelled⟩ := h.settled t ht
    have hne : t ≠ ticket := fun heq => horder (heq ▸ ht)
    simp only [CoordinatorControl.onSubmit, CoordinatorControl.live_modifyQueue,
      CoordinatorControl.cancelled_modifyQueue, Finset.mem_insert, not_or]
    exact ⟨⟨hne, hlive⟩, hcancelled⟩

theorem onStart (h : s.Sound) {ticket : QueueTicket} (hworker : s.worker = .received ticket)
    (horder : ofKind ticket.kind s.begun < ofKind ticket.kind s.registered) : ({ s with
      control := s.control.onStart ticket
      worker := .started ticket
      begun := s.begun ++ [ticket] } : System).Sound := by
  refine ⟨fun kind => ?_, fun kind => ?_, fun kind => ?_, ?_, ?_, fun t ht => ?_⟩
  · have hs := h.sent_eq kind
    rw [hworker] at hs
    simp only [Worker.waiting, ofKind_append, ofKind_nil] at hs ⊢
    omega
  · have hq := h.queued_eq kind
    have hle := h.registered_le kind
    simp only [CoordinatorControl.queue_onStart, ofKind_append, ofKind_singleton]
    split
    · rename_i hkind
      subst hkind
      dsimp only
      rw [Word.wrappingSub_of_le (by omega) (by omega)]
      omega
    · omega
  · have hf := h.inFlight_eq kind
    rw [hworker] at hf
    simp only [Worker.running, CoordinatorControl.queue_onStart, ofKind_singleton,
      ofKind_nil] at hf ⊢
    split
    · dsimp only
      rw [hf, Word.wrappingAdd_of_lt (by omega)]
    · exact hf
  · simpa [CoordinatorControl.onStart] using h.room
  · simpa [CoordinatorControl.onStart] using h.capacity_le
  · simpa [CoordinatorControl.onStart] using h.settled t ht

theorem onFinish (h : s.Sound) {ticket : QueueTicket} {outcome : QueueOutcome}
    (hworker : s.worker = .handled ticket outcome) : ({ s with
      control := s.control.onFinish ticket outcome
      worker := .idle
      finished := s.finished ++ [ticket] } : System).Sound := by
  refine ⟨fun kind => ?_, fun kind => ?_, fun kind => ?_, ?_, ?_, fun t ht => ?_⟩
  · have hs := h.sent_eq kind
    rw [hworker] at hs
    exact hs
  · rw [← h.queued_eq kind]
    simp only [CoordinatorControl.queue_onFinish]
    split <;> simp
  · have hf := h.inFlight_eq kind
    rw [hworker] at hf
    simp only [Worker.running, CoordinatorControl.queue_onFinish, ofKind_singleton,
      ofKind_nil] at hf ⊢
    split at hf
    · rename_i hkind
      rw [if_pos hkind, QueueCounters.inFlight_count]
      dsimp only
      rw [hf, Word.wrappingSub_of_le le_rfl (by omega)]
    · rename_i hkind
      rw [if_neg hkind]
      exact hf
  · simpa [CoordinatorControl.onFinish] using h.room
  · simpa [CoordinatorControl.onFinish] using h.capacity_le
  · simp only [CoordinatorControl.onFinish, Finset.mem_erase, not_and]
    rcases List.mem_append.mp ht with ht | ht
    · obtain ⟨hlive, hcancelled⟩ := h.settled t ht
      exact ⟨fun _ => by simpa using hlive, fun _ => by simpa using hcancelled⟩
    · obtain rfl := List.mem_singleton.mp ht
      exact ⟨fun hne => absurd rfl hne, fun hne => absurd rfl hne⟩

end Sound

theorem sound_step : Preserved (guarded InOrder Step) Sound := by
  rintro s op s' h ⟨horder, hstep⟩
  cases op with
  | mint kind =>
    obtain rfl : s' = _ := hstep
    exact ⟨h.sent_eq, h.queued_eq, h.inFlight_eq, h.room, h.capacity_le, h.settled⟩
  | trySend ticket =>
    obtain ⟨-, rfl⟩ := hstep
    rcases s.trySend_cases ticket with heq | ⟨hroom, heq⟩ | heq
    · rw [heq]
      exact ⟨h.sent_eq, h.queued_eq, h.inFlight_eq, h.room, h.capacity_le, h.settled⟩
    · rw [heq]
      refine ⟨fun kind => ?_, h.queued_eq, h.inFlight_eq, ?_, h.capacity_le, h.settled⟩
      · have := h.sent_eq kind
        simp only [tasks, List.filterMap_append, List.filterMap_cons, List.filterMap_nil,
          ofKind_append] at this ⊢
        omega
      · rw [List.length_append]
        exact hroom
    · rw [heq]
      refine ⟨h.sent_eq, fun kind => ?_, fun kind => ?_, ?_, ?_, ?_⟩
      · exact (congrArg (· + _) (CoordinatorControl.queued_onReject _ _ _)).trans
          (h.queued_eq kind)
      · exact (CoordinatorControl.inFlight_onReject _ _ _).trans (h.inFlight_eq kind)
      · simpa [CoordinatorControl.onReject] using h.room
      · simpa [CoordinatorControl.onReject] using h.capacity_le
      · simpa [CoordinatorControl.onReject] using h.settled
  | onSubmit ticket =>
    obtain ⟨hsent, rfl⟩ := hstep
    exact h.onSubmit hsent horder
  | shutdown =>
    obtain ⟨hroom, rfl⟩ := hstep
    refine ⟨fun kind => ?_, h.queued_eq, h.inFlight_eq, ?_, h.capacity_le, h.settled⟩
    · simpa [tasks] using h.sent_eq kind
    · rw [List.length_append]
      exact hroom
  | cancelCheck ticket =>
    obtain rfl : s' = _ := hstep
    split
    · exact ⟨h.sent_eq, h.queued_eq, h.inFlight_eq, h.room, h.capacity_le, h.settled⟩
    · exact h
  | cancelInsert ticket =>
    obtain ⟨-, rfl⟩ := hstep
    refine ⟨h.sent_eq, fun kind => ?_, fun kind => ?_, h.room, h.capacity_le, fun t ht => ?_⟩
    · rw [← h.queued_eq kind]
      cases kind <;> rfl
    · rw [← h.inFlight_eq kind]
      cases kind <;> rfl
    · obtain ⟨hlive, hcancelled⟩ := h.settled t ht
      have hne : t ≠ ticket := fun heq => horder (heq ▸ ht)
      refine ⟨hlive, ?_⟩
      simp only [CoordinatorControl.cancelInsert, Finset.mem_insert, not_or]
      exact ⟨hne, hcancelled⟩
  | recv =>
    obtain ⟨hworker, hstep⟩ := hstep
    have hroom := h.room
    split at hstep
    · cases hstep
    · rename_i ticket channel hchannel
      subst hstep
      refine ⟨fun kind => ?_, h.queued_eq, fun kind => ?_, ?_, h.capacity_le, h.settled⟩
      · have := h.sent_eq kind
        simp only [hworker, hchannel, Worker.waiting, tasks, List.filterMap_cons, ofKind_nil]
          at this ⊢
        rw [← List.singleton_append, ofKind_append] at this
        omega
      · rw [h.inFlight_eq kind, hworker]
        rfl
      · rw [hchannel, List.length_cons] at hroom
        exact Nat.le_of_succ_le hroom
    · rename_i channel hchannel
      subst hstep
      refine ⟨fun kind => ?_, h.queued_eq, fun kind => ?_, ?_, h.capacity_le, h.settled⟩
      · have := h.sent_eq kind
        rw [hworker, hchannel] at this
        exact this
      · rw [h.inFlight_eq kind, hworker]
        rfl
      · rw [hchannel, List.length_cons] at hroom
        exact Nat.le_of_succ_le hroom
  | onStart =>
    obtain ⟨ticket, hworker, rfl⟩ := hstep
    simp only [InOrder, hworker] at horder
    exact h.onStart hworker horder
  | handle result =>
    obtain ⟨ticket, hworker, rfl⟩ := hstep
    refine ⟨fun kind => ?_, h.queued_eq, fun kind => ?_, h.room, h.capacity_le, h.settled⟩
    · rw [h.sent_eq kind, hworker]
      cases result <;> rfl
    · rw [h.inFlight_eq kind, hworker]
      cases result <;> rfl
  | onFinish =>
    obtain ⟨ticket, outcome, hworker, rfl⟩ := hstep
    exact h.onFinish hworker

theorem Sound.noUnderflow {s s' : System} {op : Op} (h : s.Sound)
    (hstep : guarded InOrder Step s op s') : s.NoUnderflow op := by
  obtain ⟨horder, hstep⟩ := hstep
  cases op with
  | onStart =>
    obtain ⟨ticket, hworker, -⟩ := hstep
    simp only [InOrder, hworker] at horder
    simp only [NoUnderflow, hworker]
    have := h.queued_eq ticket.kind
    omega
  | onFinish =>
    obtain ⟨ticket, outcome, hworker, -⟩ := hstep
    simp only [NoUnderflow, hworker]
    have := h.inFlight_eq ticket.kind
    rw [hworker, Worker.running, ofKind_singleton, if_pos rfl] at this
    omega
  | _ => trivial

/-- In every run whose steps are in order no counter is decremented below zero, and every
finished ticket settles. -/
theorem tickets_settle {s : System} (h : Reachable Start (guarded InOrder Step) s) :
    (∀ op s', guarded InOrder Step s op s' → s.NoUnderflow op) ∧ s.Settled := by
  have hsound : s.Sound := by
    refine h.invariant ?_ sound_step
    rintro s ⟨capacity, hcapacity, rfl⟩
    exact sound_new hcapacity
  exact ⟨fun op s' hstep => hsound.noUnderflow hstep,
    fun ticket hticket _ _ => hsound.settled ticket hticket⟩

/-- One fetch, submitted before the worker starts it. -/
theorem tickets_settle_one : ∃ s : System, Reachable Start (guarded InOrder Step) s ∧
    s.finished = [.fetch ⟨1⟩] ∧ s.control.fetch.completed = 1 ∧
    (∀ op s', guarded InOrder Step s op s' → s.NoUnderflow op) ∧ s.Settled := by
  have h₁ : Reachable Start (guarded InOrder Step) _ :=
    Reachable.next (Reachable.start ⟨1, by decide, rfl⟩) (a := .mint .fetch) ⟨trivial, rfl⟩
  have h₂ : Reachable Start (guarded InOrder Step) _ := Reachable.next h₁
    (a := .trySend (.fetch ⟨1⟩)) ⟨trivial, by decide, rfl⟩
  have h₃ : Reachable Start (guarded InOrder Step) _ := Reachable.next h₂
    (a := .onSubmit (.fetch ⟨1⟩)) ⟨List.not_mem_nil, by decide, rfl⟩
  have h₄ : Reachable Start (guarded InOrder Step) _ := Reachable.next h₃
    (a := .recv) ⟨trivial, rfl, rfl⟩
  have h₅ : Reachable Start (guarded InOrder Step) _ := Reachable.next h₄
    (a := .onStart) ⟨show 0 < 1 from Nat.one_pos, _, rfl, rfl⟩
  have h₆ : Reachable Start (guarded InOrder Step) _ := Reachable.next h₅
    (a := .handle (some .completed)) ⟨trivial, _, rfl, rfl⟩
  have h₇ : Reachable Start (guarded InOrder Step) _ := Reachable.next h₆
    (a := .onFinish) ⟨trivial, _, _, rfl, rfl⟩
  exact ⟨_, h₇, by decide +kernel, by decide +kernel, tickets_settle h₇⟩

/-- The worker starts the fetch before its submitter has registered it: the queue counter
wraps, and the ticket stays live after it is finished. -/
theorem tickets_settle_fails :
    (∃ s s' : System, Reachable Start Step s ∧ Step s .onStart s' ∧ ¬ s.NoUnderflow .onStart) ∧
      ∃ s : System, Reachable Start Step s ∧ ¬ s.Settled := by
  have h₁ : Reachable Start Step _ :=
    Reachable.next (Reachable.start ⟨1, by decide, rfl⟩) (a := .mint .fetch) rfl
  have h₂ : Reachable Start Step _ :=
    Reachable.next h₁ (a := .trySend (.fetch ⟨1⟩)) ⟨by decide, rfl⟩
  have h₃ : Reachable Start Step _ := Reachable.next h₂ (a := .recv) ⟨rfl, rfl⟩
  have h₄ : Reachable Start Step _ := Reachable.next h₃ (a := .onStart) ⟨_, rfl, rfl⟩
  have h₅ : Reachable Start Step _ :=
    Reachable.next h₄ (a := .handle (some .completed)) ⟨_, rfl, rfl⟩
  have h₆ : Reachable Start Step _ := Reachable.next h₅ (a := .onFinish) ⟨_, _, rfl, rfl⟩
  have h₇ : Reachable Start Step _ :=
    Reachable.next h₆ (a := .onSubmit (.fetch ⟨1⟩)) ⟨by decide, rfl⟩
  refine ⟨⟨_, _, h₃, ⟨_, rfl, rfl⟩, fun h => ?_⟩, _, h₇, fun h => ?_⟩
  · exact absurd (show 0 < 0 from h) (Nat.lt_irrefl 0)
  · exact (h (.fetch ⟨1⟩) (by decide) (by decide) (by decide)).1 (by decide)

end System

end Arle.KvTier.Coordinator
