import Mathlib
import Arle.Lib.Word
import Arle.KvTier.Coordinator.Types

/-!
# The queue counters and the ticket sets

`CoordinatorControl` of `coordinator/control.rs`. Each call is one step: the sets are
locked, and of the counters no call reads what it wrote before. A counter is a word of 64
bits that wraps.
-/

namespace Arle.KvTier.Coordinator

structure QueueCounters where
  queued : Nat := 0
  inFlight : Nat := 0
  submitted : Nat := 0
  completed : Nat := 0
  failed : Nat := 0
  cancelled : Nat := 0
  rejected : Nat := 0
deriving DecidableEq

/-- Count the outcome of a task. -/
def QueueCounters.count (queue : QueueCounters) : QueueOutcome → QueueCounters
  | .completed => { queue with completed := Word.wrappingAdd 64 queue.completed 1 }
  | .failed => { queue with failed := Word.wrappingAdd 64 queue.failed 1 }
  | .cancelled => { queue with cancelled := Word.wrappingAdd 64 queue.cancelled 1 }

@[simp] theorem QueueCounters.queued_count (queue : QueueCounters) (outcome : QueueOutcome) :
    (queue.count outcome).queued = queue.queued := by
  cases outcome <;> rfl

@[simp] theorem QueueCounters.inFlight_count (queue : QueueCounters) (outcome : QueueOutcome) :
    (queue.count outcome).inFlight = queue.inFlight := by
  cases outcome <;> rfl

structure CoordinatorControl where
  capacity : Nat
  plan : QueueCounters
  fetch : QueueCounters
  store : QueueCounters
  live : Finset QueueTicket
  cancelled : Finset QueueTicket
deriving DecidableEq

namespace CoordinatorControl

def new (capacity : Nat) : CoordinatorControl where
  capacity := max capacity 1
  plan := {}
  fetch := {}
  store := {}
  live := ∅
  cancelled := ∅

def queue (control : CoordinatorControl) : QueueKind → QueueCounters
  | .plan => control.plan
  | .fetch => control.fetch
  | .store => control.store

/-- Write the counters of one queue. -/
def modifyQueue (control : CoordinatorControl) (kind : QueueKind)
    (f : QueueCounters → QueueCounters) : CoordinatorControl :=
  match kind with
  | .plan => { control with plan := f control.plan }
  | .fetch => { control with fetch := f control.fetch }
  | .store => { control with store := f control.store }

def onSubmit (control : CoordinatorControl) (ticket : QueueTicket) : CoordinatorControl :=
  let control := control.modifyQueue ticket.kind fun queue =>
    { queue with
      submitted := Word.wrappingAdd 64 queue.submitted 1
      queued := Word.wrappingAdd 64 queue.queued 1 }
  { control with live := insert ticket control.live }

def onReject (control : CoordinatorControl) (kind : QueueKind) : CoordinatorControl :=
  control.modifyQueue kind fun queue =>
    { queue with rejected := Word.wrappingAdd 64 queue.rejected 1 }

def onStart (control : CoordinatorControl) (ticket : QueueTicket) : CoordinatorControl :=
  control.modifyQueue ticket.kind fun queue =>
    { queue with
      queued := Word.wrappingSub 64 queue.queued 1
      inFlight := Word.wrappingAdd 64 queue.inFlight 1 }

def onFinish (control : CoordinatorControl) (ticket : QueueTicket) (outcome : QueueOutcome) :
    CoordinatorControl :=
  let control := control.modifyQueue ticket.kind fun queue =>
    { queue with inFlight := Word.wrappingSub 64 queue.inFlight 1 }.count outcome
  { control with
    live := control.live.erase ticket
    cancelled := control.cancelled.erase ticket }

/-- The first half of `cancel`, under the lock of the live set. -/
def cancelCheck (control : CoordinatorControl) (ticket : QueueTicket) : Bool :=
  decide (ticket ∈ control.live)

/-- The second half of `cancel`, under the lock of the cancelled set. -/
def cancelInsert (control : CoordinatorControl) (ticket : QueueTicket) : CoordinatorControl :=
  { control with cancelled := insert ticket control.cancelled }

section Reads

variable (control : CoordinatorControl) (kind : QueueKind) (ticket : QueueTicket)

theorem queue_modifyQueue (f : QueueCounters → QueueCounters) (kind' : QueueKind) :
    (control.modifyQueue kind f).queue kind' =
      if kind' = kind then f (control.queue kind') else control.queue kind' := by
  cases kind <;> cases kind' <;> rfl

@[simp] theorem live_modifyQueue (f : QueueCounters → QueueCounters) :
    (control.modifyQueue kind f).live = control.live := by
  cases kind <;> rfl

@[simp] theorem cancelled_modifyQueue (f : QueueCounters → QueueCounters) :
    (control.modifyQueue kind f).cancelled = control.cancelled := by
  cases kind <;> rfl

@[simp] theorem capacity_modifyQueue (f : QueueCounters → QueueCounters) :
    (control.modifyQueue kind f).capacity = control.capacity := by
  cases kind <;> rfl

theorem queue_onSubmit : (control.onSubmit ticket).queue kind =
    if kind = ticket.kind then
      { control.queue kind with
        submitted := Word.wrappingAdd 64 (control.queue kind).submitted 1
        queued := Word.wrappingAdd 64 (control.queue kind).queued 1 }
    else control.queue kind := queue_modifyQueue _ _ _ _

theorem queue_onStart : (control.onStart ticket).queue kind =
    if kind = ticket.kind then
      { control.queue kind with
        queued := Word.wrappingSub 64 (control.queue kind).queued 1
        inFlight := Word.wrappingAdd 64 (control.queue kind).inFlight 1 }
    else control.queue kind := queue_modifyQueue _ _ _ _

theorem queue_onFinish (outcome : QueueOutcome) : (control.onFinish ticket outcome).queue kind =
    if kind = ticket.kind then
      { control.queue kind with
        inFlight := Word.wrappingSub 64 (control.queue kind).inFlight 1 }.count outcome
    else control.queue kind := queue_modifyQueue _ _ _ _

theorem queued_onReject (kind' : QueueKind) :
    ((control.onReject kind).queue kind').queued = (control.queue kind').queued := by
  cases kind <;> cases kind' <;> rfl

theorem inFlight_onReject (kind' : QueueKind) :
    ((control.onReject kind).queue kind').inFlight = (control.queue kind').inFlight := by
  cases kind <;> cases kind' <;> rfl

end Reads

end CoordinatorControl

end Arle.KvTier.Coordinator
