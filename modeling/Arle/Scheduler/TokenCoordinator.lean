import Mathlib
import Arle.Lib.Run
import Arle.Lib.Slices

/-!
# One token for all ranks

The ranks of one process share a coordinator for each request. Rank 0 publishes the token of a
step in it and the other ranks wait for that step. Only the latest step is kept.

The calls of all ranks are interleaved in any order; each holds the lock while it looks at the
state, and gives it back while it waits for the condition variable.
-/

namespace Arle.Scheduler

structure DistributedTokenState where
  stepIdx : Option Nat
  token : Option UInt32
deriving DecidableEq

structure DistributedTokenCoordinator where
  worldSize : Nat
  inner : DistributedTokenState
deriving DecidableEq

/-- What a follower finds when it looks at the state. -/
inductive Look
  | returns (result : Except String UInt32)
  | waits

namespace DistributedTokenCoordinator

def new (worldSize : Nat) : Except String DistributedTokenCoordinator :=
  if worldSize = 0 then
    .error "distributed token coordinator world_size must be >= 1"
  else
    .ok { worldSize, inner := { stepIdx := none, token := none } }

/-- The token that the state holds for its step. -/
def held (state : DistributedTokenState) (stepIdx : Nat) : Except String UInt32 :=
  match state.token with
  | some token => .ok token
  | none => .error s!"distributed token step {stepIdx} missing"

/-- `synchronize_token` on rank 0. -/
def publish (state : DistributedTokenState) (stepIdx : Nat) (localToken : UInt32) :
    Except String UInt32 × DistributedTokenState :=
  if state.stepIdx = some stepIdx then
    (held state stepIdx, state)
  else
    (.ok localToken, { stepIdx := some stepIdx, token := some localToken })

/-- `synchronize_token` on another rank, from the start of its loop to the wait. The local token
of such a rank is not used. -/
def look (state : DistributedTokenState) (stepIdx : Nat) : Look :=
  match state.stepIdx with
  | none => .waits
  | some published =>
    if published = stepIdx then
      .returns (held state stepIdx)
    else if published > stepIdx then
      .returns (.error (s!"distributed token coordinator skipped step {stepIdx}; " ++
        s!"current=Some({published})"))
    else
      .waits

/-- The loop after a wait that the deadline ended. -/
def lookLate (state : DistributedTokenState) (rank stepIdx : Nat) : Look :=
  if state.stepIdx = some stepIdx then
    .returns (held state stepIdx)
  else
    .returns (.error s!"timed out waiting for distributed token step {stepIdx} on rank {rank}")

end DistributedTokenCoordinator

/-- A rank that follows rank 0: the results of its calls so far, the call of a step behind those
of the earlier ones, and whether it is in the wait of its next call; `some true` when it has been
notified there. -/
structure Follower where
  results : List (Except String UInt32)
  blocked : Option Bool

namespace Follower

def start : Follower := { results := [], blocked := none }

/-- The step of the next call. -/
def stepIdx (self : Follower) : Nat := self.results.length

def after (self : Follower) : Look → Follower
  | .returns result => { results := self.results ++ [result], blocked := none }
  | .waits => { self with blocked := some false }

def notify (self : Follower) : Follower :=
  { self with blocked := self.blocked.map fun _ => true }

end Follower

/-- All ranks of a request: the tokens that rank 0 passed, that of a step behind those of the
earlier ones, what its calls returned, and the other ranks. -/
structure Ranks where
  coordinator : DistributedTokenCoordinator
  passed : List UInt32
  returned : List (Except String UInt32)
  follower : Nat → Follower

namespace Ranks

def start (coordinator : DistributedTokenCoordinator) : Ranks :=
  { coordinator, passed := [], returned := [], follower := fun _ => .start }

variable (self : Ranks)

/-- The ranks that follow rank 0. -/
def IsFollower (rank : Nat) : Prop := 0 < rank ∧ rank < self.coordinator.worldSize

def setFollower (rank : Nat) (f : Follower) : Ranks :=
  { self with follower := Function.update self.follower rank f }

/-- The next call of rank 0. A new step notifies all that wait. -/
def publishNext (localToken : UInt32) : Ranks :=
  let stepIdx := self.passed.length
  let result := DistributedTokenCoordinator.publish self.coordinator.inner stepIdx localToken
  { coordinator := { self.coordinator with inner := result.2 }
    passed := self.passed ++ [localToken]
    returned := self.returned ++ [result.1]
    follower := fun rank =>
      if self.coordinator.inner.stepIdx = some stepIdx then self.follower rank
      else (self.follower rank).notify }

/-- A rank looks at the state. -/
def lookNext (rank : Nat) : Ranks :=
  let f := self.follower rank
  self.setFollower rank
    (f.after (DistributedTokenCoordinator.look self.coordinator.inner f.stepIdx))

/-- A rank comes out of a wait at the deadline. -/
def lookExpired (rank : Nat) : Ranks :=
  let f := self.follower rank
  self.setFollower rank
    (f.after (DistributedTokenCoordinator.lookLate self.coordinator.inner rank f.stepIdx))

inductive Op
  | publish (localToken : UInt32)
  | call (rank : Nat)
  | wake (rank : Nat)
  | expire (rank : Nat)
deriving DecidableEq

/-- What can happen next: a call of rank 0, a call of another rank that is in none, or the end of
a wait. A wait may end without a notification. -/
inductive Step : Ranks → Op → Ranks → Prop
  | publish (s : Ranks) (localToken : UInt32) :
      Step s (.publish localToken) (s.publishNext localToken)
  | call (s : Ranks) (rank : Nat) (h : s.IsFollower rank)
      (hidle : (s.follower rank).blocked = none) : Step s (.call rank) (s.lookNext rank)
  | wake (s : Ranks) (rank : Nat) (h : s.IsFollower rank)
      (hblocked : (s.follower rank).blocked ≠ none) : Step s (.wake rank) (s.lookNext rank)
  | expire (s : Ranks) (rank : Nat) (h : s.IsFollower rank)
      (hblocked : (s.follower rank).blocked ≠ none) : Step s (.expire rank) (s.lookExpired rank)

/-- No call times out. -/
def InTime (_s : Ranks) (op : Op) : Prop := ∀ rank, op ≠ .expire rank

/-- Rank 0 publishes a step only when the other ranks have the token of the step before it. -/
def Paced (s : Ranks) (op : Op) : Prop :=
  ∀ localToken, op = .publish localToken →
    ∀ rank, s.IsFollower rank → s.passed.length ≤ (s.follower rank).stepIdx

/-- Rank 0 makes no call. -/
def Follows (_s : Ranks) (op : Op) : Prop := ∀ localToken, op ≠ .publish localToken

/-- Each call of a follower for a step has returned the token that rank 0 passed for it. -/
def Agree (s : Ranks) : Prop :=
  ∀ rank, s.IsFollower rank → ∀ (i : Nat) (result : Except String UInt32),
    (s.follower rank).results[i]? = some result →
      ∃ token, s.passed[i]? = some token ∧ result = .ok token

/-- No rank sleeps over the step that it waits for. -/
def Alert (s : Ranks) : Prop :=
  ∀ rank, s.IsFollower rank → (s.follower rank).blocked = some false →
    s.passed.length ≤ (s.follower rank).stepIdx

/-! ## The state that rank 0 leaves -/

/-- The state after the calls of rank 0 with the given tokens. -/
def latest (passed : List UInt32) : DistributedTokenState :=
  { stepIdx := if passed = [] then none else some (passed.length - 1)
    token := passed.getLast? }

theorem publish_latest (passed : List UInt32) (localToken : UInt32) :
    DistributedTokenCoordinator.publish (latest passed) passed.length localToken =
      (.ok localToken, latest (passed ++ [localToken])) := by
  have hnew : (latest passed).stepIdx ≠ some passed.length := by
    cases passed with
    | nil => simp [latest]
    | cons token rest => simp [latest]
  unfold DistributedTokenCoordinator.publish
  rw [if_neg hnew]
  simp [latest]

theorem look_waits {passed : List UInt32} {i : Nat} (h : passed.length ≤ i) :
    DistributedTokenCoordinator.look (latest passed) i = .waits := by
  cases passed with
  | nil => rfl
  | cons token rest =>
    have hlen : rest.length + 1 ≤ i := h
    have hne : rest.length ≠ i := by omega
    have hle : ¬ rest.length > i := by omega
    simp [DistributedTokenCoordinator.look, latest, hne, hle]

theorem look_returns {passed : List UInt32} {i : Nat} (h : passed.length = i + 1) :
    ∃ token, passed[i]? = some token ∧
      DistributedTokenCoordinator.look (latest passed) i = .returns (.ok token) := by
  have hne : passed ≠ [] := List.ne_nil_of_length_eq_add_one h
  have hlast : passed.getLast? = passed[i]? := by
    rw [List.getLast?_eq_getElem?, h, Nat.add_sub_cancel]
  have hlt : i < passed.length := by omega
  refine ⟨passed[i], List.getElem?_eq_getElem hlt, ?_⟩
  simp [DistributedTokenCoordinator.look, DistributedTokenCoordinator.held, latest, hne, hlast, h]

theorem look_skipped {passed : List UInt32} {i : Nat} (h : i + 1 < passed.length) :
    ∃ error, DistributedTokenCoordinator.look (latest passed) i = .returns (.error error) := by
  have hne : passed ≠ [] := List.ne_nil_of_length_pos (by omega)
  have hother : passed.length - 1 ≠ i := by omega
  have hlater : passed.length - 1 > i := by omega
  simp only [DistributedTokenCoordinator.look, latest, if_neg hne, if_neg hother, if_pos hlater]
  exact ⟨_, rfl⟩

/-! ## The steps -/

section Steps

variable {s t : Ranks} {op : Op} {rank other : Nat}

theorem step_cases (h : guarded InTime Step s op t) :
    (∃ localToken, op = .publish localToken ∧ t = s.publishNext localToken) ∨
      ∃ rank, s.IsFollower rank ∧ (∀ localToken, op ≠ .publish localToken) ∧
        t = s.lookNext rank := by
  obtain ⟨hin, hstep⟩ := h
  cases hstep with
  | publish localToken => exact .inl ⟨localToken, rfl, rfl⟩
  | call rank hrank hidle => exact .inr ⟨rank, hrank, (fun _ h => by cases h), rfl⟩
  | wake rank hrank hblocked => exact .inr ⟨rank, hrank, (fun _ h => by cases h), rfl⟩
  | expire rank hrank hblocked => exact absurd rfl (hin rank)

/-- A rank can always look at the state. -/
theorem exists_look (hrank : s.IsFollower rank) :
    ∃ op, guarded Follows (guarded InTime Step) s op (s.lookNext rank) := by
  by_cases hidle : (s.follower rank).blocked = none
  · exact ⟨.call rank, (fun _ h => by cases h), (fun _ h => by cases h), .call s rank hrank hidle⟩
  · exact ⟨.wake rank, (fun _ h => by cases h), (fun _ h => by cases h), .wake s rank hrank hidle⟩

@[simp] theorem passed_publishNext (localToken : UInt32) :
    (s.publishNext localToken).passed = s.passed ++ [localToken] := rfl

@[simp] theorem results_publishNext (localToken : UInt32) :
    ((s.publishNext localToken).follower rank).results = (s.follower rank).results := by
  unfold publishNext
  dsimp only
  split <;> rfl

@[simp] theorem stepIdx_publishNext (localToken : UInt32) :
    ((s.publishNext localToken).follower rank).stepIdx = (s.follower rank).stepIdx := by
  unfold Follower.stepIdx
  rw [results_publishNext]

@[simp] theorem passed_lookNext : (s.lookNext rank).passed = s.passed := rfl

theorem follower_lookNext_ne (h : other ≠ rank) :
    (s.lookNext rank).follower other = s.follower other := Function.update_of_ne h _ _

theorem follower_lookNext : (s.lookNext rank).follower rank =
    (s.follower rank).after (DistributedTokenCoordinator.look s.coordinator.inner
      (s.follower rank).stepIdx) := Function.update_self _ _ _

/-- The three things that a look can bring. -/
theorem look_cases (hlatest : s.coordinator.inner = latest s.passed) (rank : Nat) :
    (s.passed.length ≤ (s.follower rank).stepIdx ∧
      (s.lookNext rank).follower rank = { s.follower rank with blocked := some false }) ∨
    (s.passed.length = (s.follower rank).stepIdx + 1 ∧
      ∃ token, s.passed[(s.follower rank).stepIdx]? = some token ∧
        (s.lookNext rank).follower rank =
          { results := (s.follower rank).results ++ [.ok token], blocked := none }) ∨
    ((s.follower rank).stepIdx + 1 < s.passed.length ∧
      ∃ error, (s.lookNext rank).follower rank =
        { results := (s.follower rank).results ++ [.error error], blocked := none }) := by
  rw [follower_lookNext, hlatest]
  rcases Nat.lt_trichotomy s.passed.length ((s.follower rank).stepIdx + 1) with hlt | heq | hgt
  · refine .inl ⟨by omega, ?_⟩
    rw [look_waits (by omega)]
    rfl
  · obtain ⟨token, htoken, hlook⟩ := look_returns heq
    refine .inr (.inl ⟨heq, token, htoken, ?_⟩)
    rw [hlook]
    rfl
  · obtain ⟨error, hlook⟩ := look_skipped hgt
    refine .inr (.inr ⟨hgt, error, ?_⟩)
    rw [hlook]
    rfl

end Steps

/-! ## Runs -/

theorem latest_start (coordinator : DistributedTokenCoordinator)
    (h : coordinator.inner = { stepIdx := none, token := none }) :
    (start coordinator).coordinator.inner = latest (start coordinator).passed := h

theorem latest_step {s t : Ranks} {op : Op} (hlatest : s.coordinator.inner = latest s.passed)
    (h : guarded InTime Step s op t) : t.coordinator.inner = latest t.passed := by
  rcases step_cases h with ⟨localToken, rfl, rfl⟩ | ⟨rank, hrank, hop, rfl⟩
  · unfold publishNext
    dsimp only
    rw [hlatest, publish_latest]
  · exact hlatest

/-- What holds while rank 0 keeps to its pace: all calls agree with it, no rank sleeps over its
step, and no rank is two steps behind. -/
structure InPace (s : Ranks) : Prop where
  latest : s.coordinator.inner = latest s.passed
  agree : s.Agree
  alert : s.Alert
  near : ∀ rank, s.IsFollower rank → s.passed.length ≤ (s.follower rank).stepIdx + 1

theorem InPace.publish {s : Ranks} (hs : s.InPace) {localToken : UInt32}
    (hpaced : s.Paced (.publish localToken))
    (hlatest : (s.publishNext localToken).coordinator.inner =
      Ranks.latest (s.publishNext localToken).passed) : (s.publishNext localToken).InPace where
  latest := hlatest
  agree rank hrank i result hresult := by
    rw [results_publishNext] at hresult
    obtain ⟨token, htoken, rfl⟩ := hs.agree rank hrank i result hresult
    have hlt : i < s.passed.length := (List.getElem?_eq_some_iff.mp htoken).1
    exact ⟨token, by rw [passed_publishNext, List.getElem?_append_left hlt, htoken], rfl⟩
  alert rank hrank hblocked := by
    -- All that wait have been notified.
    have hnew : s.coordinator.inner.stepIdx ≠ some s.passed.length := by
      rw [hs.latest]
      cases s.passed <;> simp [Ranks.latest]
    unfold publishNext Follower.notify at hblocked
    simp only [if_neg hnew, Option.map_eq_some_iff] at hblocked
    obtain ⟨_, _, hfalse⟩ := hblocked
    exact absurd hfalse.symm Bool.false_ne_true
  near rank hrank := by
    rw [passed_publishNext, stepIdx_publishNext, List.length_append, List.length_singleton]
    exact Nat.succ_le_succ (hpaced localToken rfl rank hrank)

theorem InPace.look {s : Ranks} (hs : s.InPace) {rank : Nat} (hrank : s.IsFollower rank) :
    (s.lookNext rank).InPace := by
  have hnear := hs.near rank hrank
  refine ⟨hs.latest, ?_, ?_, ?_⟩ <;> intro other hother
  · intro i result hresult
    rw [passed_lookNext]
    by_cases heq : other = rank
    · subst heq
      rcases look_cases hs.latest other with ⟨_, hf⟩ | ⟨_, token, htoken, hf⟩ | ⟨hlt, _, _⟩
      · rw [hf] at hresult
        exact hs.agree other hother i result hresult
      · rw [hf] at hresult
        rcases getElem?_snoc hresult with hold | ⟨hi, rfl⟩
        · exact hs.agree other hother i result hold
        · rw [hi]
          exact ⟨token, htoken, rfl⟩
      · omega
    · rw [follower_lookNext_ne heq] at hresult
      exact hs.agree other hother i result hresult
  · intro hblocked
    rw [passed_lookNext]
    by_cases heq : other = rank
    · subst heq
      rcases look_cases hs.latest other with ⟨hle, hf⟩ | ⟨_, _, _, hf⟩ | ⟨_, _, hf⟩
      · rw [hf]
        exact hle
      · rw [hf] at hblocked
        cases hblocked
      · rw [hf] at hblocked
        cases hblocked
    · rw [follower_lookNext_ne heq] at hblocked ⊢
      exact hs.alert other hother hblocked
  · rw [passed_lookNext]
    by_cases heq : other = rank
    · subst heq
      rcases look_cases hs.latest other with ⟨hle, hf⟩ | ⟨hlen, _, _, hf⟩ | ⟨hlt, _, hf⟩
      · rw [hf]
        exact Nat.le_succ_of_le hle
      · rw [hf, hlen]
        simp [Follower.stepIdx]
      · omega
    · rw [follower_lookNext_ne heq]
      exact hs.near other hother

theorem inPace_start {coordinator : DistributedTokenCoordinator}
    (h : coordinator.inner = { stepIdx := none, token := none }) : (start coordinator).InPace where
  latest := latest_start coordinator h
  agree _ _ _ _ hresult := by cases hresult
  alert _ _ hblocked := by cases hblocked
  near _ _ := Nat.zero_le _

theorem inPace_step : Preserved (guarded Paced (guarded InTime Step)) InPace := by
  intro s op t hs h
  obtain ⟨hpaced, hstep⟩ := h
  have hlatest := latest_step hs.latest hstep
  rcases step_cases hstep with ⟨localToken, rfl, rfl⟩ | ⟨rank, hrank, _, rfl⟩
  · exact hs.publish hpaced hlatest
  · exact hs.look hrank

/-- Rank 0 has left a rank behind: a call of it has failed, or its next one will. -/
def LeftBehind (s : Ranks) : Prop :=
  ∃ rank, s.IsFollower rank ∧
    ((∃ (i : Nat) (error : String), (s.follower rank).results[i]? = some (.error error)) ∨
      (s.follower rank).stepIdx + 1 < s.passed.length)

theorem leftBehind_publish {s : Ranks} {localToken : UInt32}
    (h : ¬ s.Paced (.publish localToken)) : (s.publishNext localToken).LeftBehind := by
  unfold Paced at h
  push Not at h
  obtain ⟨_, _, rank, hrank, hlt⟩ := h
  refine ⟨rank, hrank, .inr ?_⟩
  rw [passed_publishNext, stepIdx_publishNext, List.length_append, List.length_singleton]
  exact Nat.succ_lt_succ hlt

/-- A rank that looks two steps late fails. -/
theorem fails_behind {s : Ranks} (hlatest : s.coordinator.inner = latest s.passed) {rank : Nat}
    (hlt : (s.follower rank).stepIdx + 1 < s.passed.length) :
    ∃ error, ((s.lookNext rank).follower rank).results[(s.follower rank).stepIdx]? =
      some (.error error) := by
  rcases look_cases hlatest rank with ⟨hle, _⟩ | ⟨heq, _⟩ | ⟨_, error, hf⟩
  · omega
  · omega
  · refine ⟨error, ?_⟩
    rw [hf]
    exact List.getElem?_concat_length

theorem results_lookNext {s : Ranks} {rank other i : Nat} {result : Except String UInt32}
    (h : (s.follower other).results[i]? = some result) :
    ((s.lookNext rank).follower other).results[i]? = some result := by
  by_cases heq : other = rank
  · subst heq
    rw [follower_lookNext]
    unfold Follower.after
    split
    · have hlt := (List.getElem?_eq_some_iff.mp h).1
      exact (List.getElem?_append_left hlt).trans h
    · exact h
  · rw [follower_lookNext_ne heq]
    exact h

theorem leftBehind_step {s t : Ranks} {op : Op} (hlatest : s.coordinator.inner = latest s.passed)
    (hstep : guarded InTime Step s op t) (h : s.LeftBehind) : t.LeftBehind := by
  obtain ⟨rank, hrank, hbehind⟩ := h
  rcases step_cases hstep with ⟨localToken, rfl, rfl⟩ | ⟨other, _, _, rfl⟩
  · refine ⟨rank, hrank, ?_⟩
    rw [results_publishNext, stepIdx_publishNext, passed_publishNext, List.length_append]
    exact hbehind.imp_right fun hlt => Nat.lt_add_right _ hlt
  · refine ⟨rank, hrank, ?_⟩
    rcases hbehind with ⟨i, error, herror⟩ | hlt
    · exact .inl ⟨i, error, results_lookNext herror⟩
    · by_cases heq : rank = other
      · subst heq
        obtain ⟨error, herror⟩ := fails_behind hlatest hlt
        exact .inl ⟨_, error, herror⟩
      · rw [follower_lookNext_ne heq]
        exact .inr hlt

theorem latest_run {s t : Ranks} {ops : List Op} (hrun : Run (guarded InTime Step) s ops t)
    (hlatest : s.coordinator.inner = latest s.passed) : t.coordinator.inner = latest t.passed :=
  hrun.invariant (P := fun s => s.coordinator.inner = latest s.passed)
    (fun _ _ _ hs h => latest_step hs h) hlatest

/-- A run keeps to the pace of the slowest rank, or it leaves a rank behind. -/
theorem paced_or_leftBehind {s t : Ranks} {ops : List Op}
    (hrun : Run (guarded InTime Step) s ops t) (hlatest : s.coordinator.inner = latest s.passed) :
    Run (guarded Paced (guarded InTime Step)) s ops t ∨ t.LeftBehind := by
  induction hrun with
  | nil s => exact .inl (.nil s)
  | @cons s u t op ops hstep hrest ih =>
    have hlatest' := latest_step hlatest hstep
    by_cases hpaced : s.Paced op
    · exact (ih hlatest').imp_left fun hrun => .cons ⟨hpaced, hstep⟩ hrun
    · right
      have hleft : u.LeftBehind := by
        rcases step_cases hstep with ⟨localToken, rfl, rfl⟩ | ⟨_, _, hop, _⟩
        · exact leftBehind_publish hpaced
        · exact absurd (fun localToken heq => absurd heq (hop localToken)) hpaced
      have hkept : Preserved (guarded InTime Step)
          fun s => s.coordinator.inner = latest s.passed ∧ s.LeftBehind :=
        fun _ _ _ hs h => ⟨latest_step hs.1 h, leftBehind_step hs.1 h hs.2⟩
      exact (hrest.invariant hkept ⟨hlatest', hleft⟩).2

/-- A rank that is left behind fails, whatever the others do. -/
theorem LeftBehind.exists_failure {s : Ranks} (h : s.LeftBehind)
    (hlatest : s.coordinator.inner = latest s.passed) :
    ∃ ops t, Run (guarded Follows (guarded InTime Step)) s ops t ∧ ¬ t.Agree := by
  obtain ⟨rank, hrank, ⟨i, error, herror⟩ | hlt⟩ := h
  · refine ⟨[], s, .nil s, fun hagree => ?_⟩
    obtain ⟨_, _, hok⟩ := hagree rank hrank i _ herror
    cases hok
  · obtain ⟨op, hop⟩ := exists_look hrank
    obtain ⟨error, herror⟩ := fails_behind hlatest hlt
    refine ⟨[op], s.lookNext rank, .cons hop (.nil _), fun hagree => ?_⟩
    obtain ⟨_, _, hok⟩ := hagree rank hrank _ _ herror
    cases hok

theorem inPace_follows {s t : Ranks} {ops : List Op} (hs : s.InPace)
    (hrun : Run (guarded Follows (guarded InTime Step)) s ops t) : t.InPace := by
  have hpaced : Run (guarded Paced (guarded InTime Step)) s ops t :=
    hrun.mono fun s op t h => ⟨fun localToken heq => absurd heq (h.1 localToken), h.2⟩
  exact hpaced.invariant inPace_step hs

theorem inner_new {worldSize : Nat} {coordinator : DistributedTokenCoordinator}
    (h : DistributedTokenCoordinator.new worldSize = .ok coordinator) :
    coordinator.inner = { stepIdx := none, token := none } := by
  unfold DistributedTokenCoordinator.new at h
  split at h
  · cases h
  · cases h
    rfl

/-- A run of the ranks in which no call times out keeps to the pace of the slowest rank if and
only if every call of a follower, in the run or after it, returns the token of rank 0. -/
theorem ranks_agree_iff {worldSize : Nat} {coordinator : DistributedTokenCoordinator}
    (hnew : DistributedTokenCoordinator.new worldSize = .ok coordinator) {ops : List Op} {s : Ranks}
    (hrun : Run (guarded InTime Step) (start coordinator) ops s) :
    Run (guarded Paced (guarded InTime Step)) (start coordinator) ops s ↔
      ∀ later t, Run (guarded Follows (guarded InTime Step)) s later t → t.Agree ∧ t.Alert := by
  have hinner := inner_new hnew
  constructor
  · intro hpaced later t hlater
    have hs := hpaced.invariant inPace_step (inPace_start hinner)
    have ht := inPace_follows hs hlater
    exact ⟨ht.agree, ht.alert⟩
  · intro hagree
    have hlatest := latest_start coordinator hinner
    rcases paced_or_leftBehind hrun hlatest with hpaced | hleft
    · exact hpaced
    · obtain ⟨later, t, hlater, hnot⟩ := hleft.exists_failure (latest_run hrun hlatest)
      exact absurd (hagree later t hlater).1 hnot

/-- Two ranks. -/
def pair : DistributedTokenCoordinator :=
  { worldSize := 2, inner := { stepIdx := none, token := none } }

theorem ranks_agree_iff_pair :
    Run (guarded Paced (guarded InTime Step)) (start pair) [.publish 7, .call 1]
        (((start pair).publishNext 7).lookNext 1) ↔
      ∀ later t, Run (guarded Follows (guarded InTime Step))
        (((start pair).publishNext 7).lookNext 1) later t → t.Agree ∧ t.Alert := by
  have hnew : DistributedTokenCoordinator.new 2 = .ok pair := rfl
  exact ranks_agree_iff hnew (.cons ⟨(fun _ h => by cases h), .publish _ 7⟩
    (.cons ⟨(fun _ h => by cases h), .call _ 1 ⟨Nat.one_pos, Nat.one_lt_two⟩ rfl⟩ (.nil _)))

/-- Rank 0 publishes two steps before the other rank makes its first call, which fails. -/
theorem rank_left_behind : ∃ s, Run (guarded InTime Step) (start pair)
    [.publish 7, .publish 8, .call 1] s ∧ ¬ s.Agree := by
  refine ⟨_, .cons ⟨(fun _ h => by cases h), .publish _ 7⟩
    (.cons ⟨(fun _ h => by cases h), .publish _ 8⟩
      (.cons ⟨(fun _ h => by cases h), .call _ 1 ⟨Nat.one_pos, Nat.one_lt_two⟩ rfl⟩ (.nil _))),
    fun hagree => ?_⟩
  obtain ⟨_, _, hok⟩ := hagree 1 ⟨Nat.one_pos, Nat.one_lt_two⟩ 0 _ rfl
  cases hok

end Ranks

end Arle.Scheduler
