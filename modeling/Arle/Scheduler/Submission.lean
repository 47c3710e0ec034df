import Mathlib
import Arle.Lib.Run
import Arle.Lib.Word
import Arle.Scheduler.Policy

/-!
# The slots of the submission queue

A thread reserves a slot of the queue by a compare-exchange on the shared count, and holds it as a
permit. The permit is handed over with a request, whose slot the scheduler gives back when it has
received it, or it is dropped and gives the slot back itself. The threads and the scheduler are
interleaved in any order.
-/

namespace Arle.Scheduler

/-! ## Admission at the queue -/

structure QueueBoundAdmission where
  maxQueuedRequests : Nat

def QueueBoundAdmission.allow (self : QueueBoundAdmission) (signals : SchedulerSignals) : Bool :=
  signals.queuedRequests < self.maxQueuedRequests

/-- `SchedulerHandle::admission_allows`. -/
def admissionAllows (maxWaiting : Nat) (signals : SchedulerSignals) : Bool :=
  if maxWaiting = 0 then true
  else QueueBoundAdmission.allow { maxQueuedRequests := maxWaiting } signals

/-! ## The threads -/

/-- One call of `reserve_submission` and the permit that it returns. -/
inductive Submitter
  /-- At the head of the loop. -/
  | reserving
  /-- The count has been read and admitted. -/
  | loaded (current : Nat)
  | full
  /-- The permit is alive. -/
  | holding
  /-- The receiver is closed: `submit` returns the request and drops the permit. -/
  | rejected
  /-- The request is in the channel, and `committed` is not set yet. -/
  | sent
  | committed
  | done
deriving DecidableEq

/-- The permit is alive and its slot has not been handed over. -/
def Submitter.ownsSlot : Submitter → Bool
  | holding => true
  | rejected => true
  | _ => false

structure Ingress where
  waitingCount : Nat
  submitters : List Submitter
  receiverAlive : Bool
  /-- The number of requests in the channel. -/
  channel : Nat
  /-- Requests that are received and not subtracted from the count yet. -/
  received : Nat
  /-- Requests that went with the receiver. -/
  lost : Nat

/-- What a thread does with its permit, or on the way to it. -/
inductive SubmitAction
  | load (current : Nat)
  | exchange
  | send
  | commit
  | drop

inductive IngressOp
  | call
  | submitter (i : Nat) (action : SubmitAction)
  | receive
  | subtract
  | close

namespace Ingress

/-- A submitter goes on. -/
def advance (s : Ingress) (i : Nat) (next : Submitter) : Ingress :=
  { s with submitters := s.submitters.set i next }

/-- Where the loop of `reserve_submission` goes from a load. -/
def afterLoad (maxWaiting current : Nat) : Submitter :=
  if admissionAllows maxWaiting (.queueState current 0) then .loaded current else .full

/-- What can happen next. The load is relaxed: it may return a value that the count had before, and
the model lets it return any. An addition that overflows panics; `fetch_sub` wraps. -/
inductive Step (maxWaiting : Nat) : Ingress → IngressOp → Ingress → Prop
  | call (s : Ingress) :
      Step maxWaiting s .call { s with submitters := s.submitters ++ [.reserving] }
  | load {s : Ingress} {i : Nat} (current : Nat) (h : s.submitters[i]? = some .reserving) :
      Step maxWaiting s (.submitter i (.load current)) (s.advance i (afterLoad maxWaiting current))
  | exchange {s : Ingress} {i current next : Nat} (h : s.submitters[i]? = some (.loaded current))
      (hsame : s.waitingCount = current) (hnext : Word.checkedAdd 64 current 1 = some next) :
      Step maxWaiting s (.submitter i .exchange)
        { s.advance i .holding with waitingCount := next }
  | retry {s : Ingress} {i current : Nat} (h : s.submitters[i]? = some (.loaded current))
      (hother : s.waitingCount ≠ current) :
      Step maxWaiting s (.submitter i .exchange) (s.advance i .reserving)
  | send {s : Ingress} {i : Nat} (h : s.submitters[i]? = some .holding)
      (halive : s.receiverAlive = true) :
      Step maxWaiting s (.submitter i .send) { s.advance i .sent with channel := s.channel + 1 }
  | reject {s : Ingress} {i : Nat} (h : s.submitters[i]? = some .holding)
      (hclosed : s.receiverAlive = false) :
      Step maxWaiting s (.submitter i .send) (s.advance i .rejected)
  | commit {s : Ingress} {i : Nat} (h : s.submitters[i]? = some .sent) :
      Step maxWaiting s (.submitter i .commit) (s.advance i .committed)
  | dropCommitted {s : Ingress} {i : Nat} (h : s.submitters[i]? = some .committed) :
      Step maxWaiting s (.submitter i .drop) (s.advance i .done)
  | dropHeld {s : Ingress} {i count : Nat} {submitter : Submitter}
      (h : s.submitters[i]? = some submitter) (howns : submitter.ownsSlot = true)
      (hsub : Word.wrappingSub 64 s.waitingCount 1 = count) :
      Step maxWaiting s (.submitter i .drop) { s.advance i .done with waitingCount := count }
  | receive {s : Ingress} (halive : s.receiverAlive = true) (hsome : 0 < s.channel) :
      Step maxWaiting s .receive
        { s with channel := s.channel - 1, received := s.received + 1 }
  | subtract {s : Ingress} {count : Nat} (hsome : 0 < s.received)
      (hsub : Word.wrappingSub 64 s.waitingCount 1 = count) :
      Step maxWaiting s .subtract
        { s with waitingCount := count, received := s.received - 1 }
  | close {s : Ingress} (halive : s.receiverAlive = true) :
      Step maxWaiting s .close
        { s with receiverAlive := false, channel := 0, lost := s.lost + s.channel }

/-- A new handle. -/
def Start (s : Ingress) : Prop :=
  s = { waitingCount := 0, submitters := [], receiverAlive := true, channel := 0, received := 0,
        lost := 0 }

/-- The permits that are alive and not handed over. -/
def permits (s : Ingress) : Nat := s.submitters.countP Submitter.ownsSlot

/-- The requests from before they are sent until they are subtracted from the count. -/
def requests (s : Ingress) : Nat := s.channel + s.received + s.lost

/-- What holds between any two operations. -/
structure Balanced (maxWaiting : Nat) (s : Ingress) : Prop where
  count : s.waitingCount = s.permits + s.requests
  word : s.waitingCount ≤ Word.maxVal 64
  bound : 0 < maxWaiting → s.waitingCount ≤ maxWaiting
  /-- A count that has been admitted leaves room for one more. -/
  admitted : ∀ current, .loaded current ∈ s.submitters → 0 < maxWaiting → current < maxWaiting

/-! ## One operation -/

section Steps

variable {maxWaiting : Nat} {s t : Ingress} {i current : Nat} {old next : Submitter}

theorem permits_advance (h : s.submitters[i]? = some old) (next : Submitter) :
    (s.advance i next).permits + (if old.ownsSlot then 1 else 0) =
      s.permits + (if next.ownsSlot then 1 else 0) := by
  obtain ⟨hlt, rfl⟩ := List.getElem?_eq_some_iff.mp h
  have hle : (if s.submitters[i].ownsSlot then 1 else 0) ≤ s.permits :=
    List.boole_getElem_le_countP hlt
  have hset : (s.advance i next).permits =
      s.permits - (if s.submitters[i].ownsSlot then 1 else 0) +
        (if next.ownsSlot then 1 else 0) := List.countP_set hlt
  omega

theorem permits_kept (h : s.submitters[i]? = some old) (hsame : next.ownsSlot = old.ownsSlot) :
    (s.advance i next).permits = s.permits := by
  have hpermits := permits_advance h next
  rw [hsame] at hpermits
  exact Nat.add_right_cancel hpermits

theorem permits_given (h : s.submitters[i]? = some old) (hold : old.ownsSlot = true)
    (hnext : next.ownsSlot = false) : (s.advance i next).permits + 1 = s.permits := by
  have hpermits := permits_advance h next
  rwa [hold, hnext] at hpermits

theorem mem_advance {submitter : Submitter} (h : submitter ∈ (s.advance i next).submitters) :
    submitter ∈ s.submitters ∨ submitter = next :=
  List.mem_or_eq_of_mem_set h

/-- What an admitted count says about the queue. -/
theorem lt_of_admitted (h : admissionAllows maxWaiting (.queueState current 0) = true)
    (hmax : 0 < maxWaiting) : current < maxWaiting := by
  unfold admissionAllows at h
  rw [if_neg (Nat.ne_of_gt hmax)] at h
  exact of_decide_eq_true h

/-- A slot is given back: the count is not zero, so that the subtraction does not wrap. -/
theorem Balanced.fetchSub (h : s.Balanced maxWaiting) (hsome : 0 < s.permits + s.requests)
    {count : Nat} (hsub : Word.wrappingSub 64 s.waitingCount 1 = count) :
    count + 1 = s.waitingCount := by
  have hpos : 1 ≤ s.waitingCount := Nat.lt_of_lt_of_eq hsome h.count.symm
  have hword := h.word
  rw [Word.maxVal] at hword
  rw [← hsub, Word.wrappingSub_of_le hpos (by omega), Nat.sub_add_cancel hpos]

/-- A stage that is not a load keeps what the loads carry. -/
theorem Balanced.admitted_advance (h : s.Balanced maxWaiting)
    (hnext : ∀ current, next = .loaded current → 0 < maxWaiting → current < maxWaiting) :
    ∀ current, .loaded current ∈ (s.advance i next).submitters → 0 < maxWaiting →
      current < maxWaiting := by
  intro current hmem
  rcases mem_advance hmem with hold | hnew
  · exact h.admitted current hold
  · exact hnext current hnew.symm

/-- A submitter that goes on without taking a slot or giving one away. -/
theorem Balanced.advance (h : s.Balanced maxWaiting) (hi : s.submitters[i]? = some old)
    (hsame : next.ownsSlot = old.ownsSlot)
    (hnext : ∀ current, next = .loaded current → 0 < maxWaiting → current < maxWaiting) :
    (s.advance i next).Balanced maxWaiting where
  count := h.count.trans (congrArg (· + s.requests) (permits_kept hi hsame).symm)
  word := h.word
  bound := h.bound
  admitted := h.admitted_advance hnext

/-- A slot is given back. -/
theorem Balanced.giveBack (h : s.Balanced maxWaiting)
    (hsub : Word.wrappingSub 64 s.waitingCount 1 = t.waitingCount)
    (hgiven : t.permits + t.requests + 1 = s.permits + s.requests)
    (hadmitted : ∀ current, .loaded current ∈ t.submitters → 0 < maxWaiting →
      current < maxWaiting) : t.Balanced maxWaiting := by
  have hone := h.fetchSub (by omega) hsub
  have hle : t.waitingCount ≤ s.waitingCount := by omega
  have hcount := h.count
  exact
    { count := by omega
      word := Nat.le_trans hle h.word
      bound := fun hmax => Nat.le_trans hle (h.bound hmax)
      admitted := hadmitted }

theorem Balanced.step (h : s.Balanced maxWaiting) {op : IngressOp}
    (hstep : Step maxWaiting s op t) : t.Balanced maxWaiting := by
  have hcount := h.count
  cases hstep with
  | call =>
    refine { count := ?_, word := h.word, bound := h.bound, admitted := ?_ }
    · change s.waitingCount = (s.submitters ++ [Submitter.reserving]).countP _ + s.requests
      rw [List.countP_append]
      exact hcount
    · intro current hmem
      rcases List.mem_append.mp hmem with hold | hnew
      · exact h.admitted current hold
      · cases List.mem_singleton.mp hnew
  | load current hi =>
    unfold afterLoad
    split
    next hallows =>
      exact h.advance hi rfl fun _ hloaded => by
        cases hloaded
        exact lt_of_admitted hallows
    next => exact h.advance hi rfl fun _ h => by cases h
  | exchange hi hsame hnext =>
    obtain ⟨hword, rfl⟩ := Word.checkedAdd_eq_some.mp hnext
    have htaken : (s.advance _ .holding).permits = s.permits + 1 := permits_advance hi .holding
    refine
      { count := ?_, word := hword, bound := fun hmax => ?_,
        admitted := h.admitted_advance (fun _ h => by cases h) }
    · change _ + 1 = (s.advance _ .holding).permits + s.requests
      omega
    · exact h.admitted _ (List.mem_of_getElem? hi) hmax
  | retry hi hother => exact h.advance hi rfl fun _ h => by cases h
  | send hi halive =>
    have hgiven := permits_given hi rfl (show Submitter.sent.ownsSlot = false from rfl)
    refine
      { count := ?_, word := h.word, bound := h.bound,
        admitted := h.admitted_advance fun _ h => by cases h }
    change s.waitingCount = (s.advance _ .sent).permits + (s.channel + 1 + s.received + s.lost)
    unfold requests at hcount
    omega
  | reject hi hclosed => exact h.advance hi rfl fun _ h => by cases h
  | commit hi => exact h.advance hi rfl fun _ h => by cases h
  | dropCommitted hi => exact h.advance hi rfl fun _ h => by cases h
  | dropHeld hi howns hsub =>
    have hgiven := permits_given hi howns (show Submitter.done.ownsSlot = false from rfl)
    refine h.giveBack hsub ?_ (h.admitted_advance (fun _ h => by cases h))
    change (s.advance _ .done).permits + s.requests + 1 = _
    omega
  | receive halive hsome =>
    refine { count := ?_, word := h.word, bound := h.bound, admitted := h.admitted }
    change s.waitingCount = s.permits + (s.channel - 1 + (s.received + 1) + s.lost)
    unfold requests at hcount
    omega
  | subtract hreceived hsub =>
    refine h.giveBack hsub ?_ h.admitted
    change s.permits + (s.channel + (s.received - 1) + s.lost) + 1 = _
    unfold requests
    omega
  | close halive =>
    refine { count := ?_, word := h.word, bound := h.bound, admitted := h.admitted }
    change s.waitingCount = s.permits + (0 + s.received + (s.lost + s.channel))
    unfold requests at hcount
    omega

/-- No operation wraps the count below zero: what is not one more is at most as much. -/
theorem Balanced.no_wrap (h : s.Balanced maxWaiting) {op : IngressOp}
    (hstep : Step maxWaiting s op t) : t.waitingCount ≤ s.waitingCount + 1 := by
  cases hstep with
  | exchange hi hsame hnext =>
    obtain ⟨-, rfl⟩ := Word.checkedAdd_eq_some.mp hnext
    exact Nat.le_of_eq (congrArg (· + 1) hsame.symm)
  | @dropHeld _ count _ hi howns hsub =>
    have hgiven := permits_given hi howns (show Submitter.done.ownsSlot = false from rfl)
    have hone := h.fetchSub (by omega) hsub
    change count ≤ s.waitingCount + 1
    omega
  | @subtract count hreceived hsub =>
    have hone := h.fetchSub (by unfold requests; omega) hsub
    change count ≤ s.waitingCount + 1
    omega
  | _ => exact Nat.le_succ _

end Steps

/-! ## All runs -/

theorem balanced_start {maxWaiting : Nat} {s : Ingress} (h : Start s) : s.Balanced maxWaiting := by
  rw [Start] at h
  subst h
  exact
    { count := rfl
      word := Nat.zero_le _
      bound := fun _ => Nat.zero_le _
      admitted := fun _ hmem => absurd hmem List.not_mem_nil }

theorem balanced_of_reachable {maxWaiting : Nat} {s : Ingress}
    (h : Reachable Start (Step maxWaiting) s) : s.Balanced maxWaiting :=
  h.invariant (fun _ hstart => balanced_start hstart) fun _ _ _ hbalanced hstep =>
    hbalanced.step hstep

/-- The count is always the number of live permits that are not handed over and of requests that
are not subtracted yet, it never wraps, and it stays within the bound of the queue. -/
theorem queue_slots_exact {maxWaiting : Nat} {s : Ingress}
    (h : Reachable Start (Step maxWaiting) s) :
    s.waitingCount = s.permits + s.requests ∧
      (∀ op t, Step maxWaiting s op t → t.waitingCount ≤ s.waitingCount + 1) ∧
      (0 < maxWaiting → s.waitingCount ≤ maxWaiting) :=
  have hbalanced := balanced_of_reachable h
  ⟨hbalanced.count, fun _ _ hstep => hbalanced.no_wrap hstep, hbalanced.bound⟩

/-- A handle with these callers, from which the scheduler has received nothing. -/
def callers (waitingCount : Nat) (submitters : List Submitter) (receiverAlive : Bool)
    (channel lost : Nat) : Ingress :=
  { waitingCount, submitters, receiverAlive, channel, received := 0, lost }

/-- The receiver closes with a request in the channel, while a second caller holds a slot: its
`submit` fails and its slot is free again, and the slot of the lost request stays taken. -/
theorem queue_slots_exact_closed :
    Reachable Start (Step 2) (callers 1 [.done, .done] false 0 1) ∧
      (callers 1 [.done, .done] false 0 1).waitingCount =
        (callers 1 [.done, .done] false 0 1).permits +
          (callers 1 [.done, .done] false 0 1).requests := by
  have hcall : Step 2 (callers 0 [] true 0 0) .call (callers 0 [.reserving] true 0 0) := .call _
  have hload : Step 2 (callers 0 [.reserving] true 0 0) (.submitter 0 (.load 0))
      (callers 0 [.loaded 0] true 0 0) := .load 0 rfl
  have hexchange : Step 2 (callers 0 [.loaded 0] true 0 0) (.submitter 0 .exchange)
      (callers 1 [.holding] true 0 0) :=
    .exchange rfl rfl (Word.checkedAdd_eq_some.mpr (by decide))
  have hsend : Step 2 (callers 1 [.holding] true 0 0) (.submitter 0 .send)
      (callers 1 [.sent] true 1 0) := .send rfl rfl
  have hcommit : Step 2 (callers 1 [.sent] true 1 0) (.submitter 0 .commit)
      (callers 1 [.committed] true 1 0) := .commit rfl
  have hdone : Step 2 (callers 1 [.committed] true 1 0) (.submitter 0 .drop)
      (callers 1 [.done] true 1 0) := .dropCommitted rfl
  have hcall' : Step 2 (callers 1 [.done] true 1 0) .call
      (callers 1 [.done, .reserving] true 1 0) := .call _
  have hload' : Step 2 (callers 1 [.done, .reserving] true 1 0) (.submitter 1 (.load 1))
      (callers 1 [.done, .loaded 1] true 1 0) := .load 1 rfl
  have hexchange' : Step 2 (callers 1 [.done, .loaded 1] true 1 0) (.submitter 1 .exchange)
      (callers 2 [.done, .holding] true 1 0) :=
    .exchange rfl rfl (Word.checkedAdd_eq_some.mpr (by decide))
  have hclose : Step 2 (callers 2 [.done, .holding] true 1 0) .close
      (callers 2 [.done, .holding] false 0 1) := .close rfl
  have hreject : Step 2 (callers 2 [.done, .holding] false 0 1) (.submitter 1 .send)
      (callers 2 [.done, .rejected] false 0 1) := .reject rfl rfl
  have hdrop : Step 2 (callers 2 [.done, .rejected] false 0 1) (.submitter 1 .drop)
      (callers 1 [.done, .done] false 0 1) :=
    .dropHeld rfl rfl (by norm_num [callers, Word.wrappingSub])
  have hstart : Start (callers 0 [] true 0 0) := rfl
  have hsent : Reachable Start (Step 2) (callers 1 [.done] true 1 0) :=
    ((((((Reachable.start hstart).next hcall).next hload).next hexchange).next hsend).next
      hcommit).next hdone
  have hreach : Reachable Start (Step 2) (callers 1 [.done, .done] false 0 1) :=
    (((((hsent.next hcall').next hload').next hexchange').next hclose).next hreject).next hdrop
  exact ⟨hreach, (queue_slots_exact hreach).1⟩

end Ingress

end Arle.Scheduler
