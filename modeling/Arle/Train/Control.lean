import Arle.Lib.Assoc
import Arle.Lib.Run
import Arle.Lib.Word

/-!
# The records of a training job

`TrainingController` of `crates/train/src/control.rs`, with the calls that record a metric, an
event or an operator request as sequences of atomic steps, and a poller of the recent records. An
`f64` is its bits and the float casts are parameters.

A poll gives exactly the records that were not given before, if no smaller number than one in the
ring is still on its way (`complete_of_run`). The numbers are taken before the ring is locked, so
that they can be pushed in another order.
-/

namespace Arle.Train.Control

abbrev F64 := UInt64

abbrev F32 := UInt32

/-- `as f32`, and `max(0.0) as u64`. -/
structure FloatCasts where
  asF32 : F64 → F32
  maxZeroAsU64 : F64 → UInt64

/-- The fields of `TrainingStatus` that records set. -/
structure TrainingStatus where
  iter : UInt64
  meanReward : F32
  bestReward : F32
  lastKl : F32
  lastLoss : F32
  wallSecs : F32
  droppedMetrics : UInt64
  started : Bool
  finished : Bool

/-- `TrainingRecord`. -/
structure TrainingRecord where
  seq : Nat
  tsMs : UInt64
  kind : String
  step : Option UInt64
  phase : Option String
  strings : Assoc String String
  scalars : Assoc String F64
  bools : Assoc String Bool

/-- `TrainingController`. -/
structure TrainingController where
  status : TrainingStatus
  records : List TrainingRecord
  recordCap : Nat
  nextSeq : Nat
  stop : Bool
  save : Bool

namespace TrainingController

/-- `TrainingController::new`. -/
def new : TrainingController := ⟨⟨0, 0, 0, 0, 0, 0, 0, false, false⟩, [], 512, 0, false, false⟩

/-- The loop that pops the oldest records. -/
def trim (cap : Nat) : List TrainingRecord → List TrainingRecord
  | [] => []
  | record :: records => if cap < records.length + 1 then trim cap records else record :: records

/-- `set_record_capacity`. -/
def setRecordCapacity (c : TrainingController) (capacity : Nat) : TrainingController :=
  { c with recordCap := max capacity 1, records := trim (max capacity 1) c.records }

/-- `recent_records`. -/
def recentRecords (c : TrainingController) (afterSeq : Option Nat) : List TrainingRecord :=
  c.records.filter fun record => afterSeq.all fun after => after < record.seq

/-- `update_status_from_record`. -/
def updateStatusFromRecord (casts : FloatCasts) (c : TrainingController)
    (record : TrainingRecord) : TrainingController :=
  let float (field : F32) (key : String) : F32 := (record.scalars.lookup key).elim field casts.asF32
  let status := c.status
  { c with
    status := {
      iter := record.step.getD status.iter
      lastLoss := float status.lastLoss "loss"
      meanReward := float status.meanReward "mean_reward"
      bestReward := float (float status.bestReward "best_reward") "best_mean_reward"
      lastKl := float status.lastKl "mean_kl"
      wallSecs := float status.wallSecs "wall_secs"
      droppedMetrics :=
        (record.scalars.lookup "dropped_metrics").elim status.droppedMetrics casts.maxZeroAsU64
      started := status.started || record.kind == "run_start"
      finished := status.finished || record.kind == "run_end" } }

/-- `push_record`, at the capacity that was loaded. -/
def pushRecord (c : TrainingController) (record : TrainingRecord) (cap : Nat) :
    TrainingController :=
  { c with records := trim cap (c.records ++ [record]) }

end TrainingController

/-! ## Recording -/

/-- The calls of `record_metric`, `record_event`, `request_stop` and `request_save`. -/
inductive Call
  | metric (step : UInt64) (phase : String) (fields : List (String × F64))
  | event (kind : String) (step : Option UInt64) (strings : List (String × String))
      (scalars : List (String × F64)) (bools : List (String × Bool))
  | requestStop
  | requestSave

/-- `collect` into a map. -/
def collect {α : Type} (pairs : List (String × α)) : Assoc String α :=
  pairs.foldl (fun m pair => m.insert pair.1 pair.2) ∅

/-- The record of `record_status`. -/
def statusRecord (seq : Nat) (tsMs iter : UInt64) (reason : String)
    (bools : List (String × Bool)) : TrainingRecord :=
  ⟨seq, tsMs, "status", some iter, none, collect [("reason", reason)], ∅, collect bools⟩

/-- The record of a call; `iter` is that of the snapshot that `record_status` takes. -/
def Call.record (seq : Nat) (tsMs iter : UInt64) : Call → TrainingRecord
  | metric step phase fields =>
    ⟨seq, tsMs, "metric", some step, some phase, ∅, collect fields, ∅⟩
  | event kind step strings scalars bools =>
    ⟨seq, tsMs, kind, step, none, collect strings, collect scalars, collect bools⟩
  | requestStop => statusRecord seq tsMs iter "operator_request" [("stop_requested", true)]
  | requestSave => statusRecord seq tsMs iter "operator_request" [("save_requested", true)]

/-- How far a call is. -/
inductive Flight
  | entered (call : Call)
  | numbered (call : Call) (seq : Nat)
  | built (record : TrainingRecord)
  | updated (record : TrainingRecord)
  | loaded (record : TrainingRecord) (cap : Nat)

/-- The number that a call has taken. -/
def Flight.seq : Flight → Option Nat
  | entered _ => none
  | numbered _ seq => some seq
  | built record => some record.seq
  | updated record => some record.seq
  | loaded record _ => some record.seq

/-- The controller, the calls of all threads, what the poller has received, what was pushed, and
the number of the records that were pushed since the last poll. -/
structure State where
  controller : TrainingController
  flights : List Flight
  received : List TrainingRecord
  pushed : List TrainingRecord
  unpolled : Nat

def start (capacity : Nat) : State :=
  ⟨TrainingController.new.setRecordCapacity capacity, [], [], [], 0⟩

/-- The largest number that was received. -/
def lastSeq (received : List TrainingRecord) : Nat :=
  received.foldr (fun record last => max record.seq last) 0

inductive Action
  | call (call : Call)
  | number
  | build (tsMs : UInt64)
  | update
  | load
  | push
  | poll

/-- An atomic step of some thread. -/
inductive Step (casts : FloatCasts) : State → Action → State → Prop
  | metric {s : State} {step : UInt64} {phase : String} {fields : List (String × F64)} :
      Step casts s (.call (.metric step phase fields))
        { s with flights := .entered (.metric step phase fields) :: s.flights }
  | event {s : State} {kind : String} {step : Option UInt64} {strings : List (String × String)}
      {scalars : List (String × F64)} {bools : List (String × Bool)} :
      Step casts s (.call (.event kind step strings scalars bools))
        { s with flights := .entered (.event kind step strings scalars bools) :: s.flights }
  | requestStop {s : State} : Step casts s (.call .requestStop)
      { s with
        controller := { s.controller with stop := true }
        flights := .entered .requestStop :: s.flights }
  | requestSave {s : State} : Step casts s (.call .requestSave)
      { s with
        controller := { s.controller with save := true }
        flights := .entered .requestSave :: s.flights }
  | number {s : State} (before after : List Flight) {call : Call}
      (h : s.flights = before ++ .entered call :: after) : Step casts s .number
        { s with
          controller :=
            { s.controller with nextSeq := Word.wrappingAdd 64 s.controller.nextSeq 1 }
          flights :=
            before ++ .numbered call (Word.wrappingAdd 64 s.controller.nextSeq 1) :: after }
  | build {s : State} (before after : List Flight) {call : Call} {seq : Nat} {tsMs : UInt64}
      (h : s.flights = before ++ .numbered call seq :: after) : Step casts s (.build tsMs)
        { s with
          flights :=
            before ++ .built (call.record seq tsMs s.controller.status.iter) :: after }
  | update {s : State} (before after : List Flight) {record : TrainingRecord}
      (h : s.flights = before ++ .built record :: after) : Step casts s .update
        { s with
          controller := s.controller.updateStatusFromRecord casts record
          flights := before ++ .updated record :: after }
  | load {s : State} (before after : List Flight) {record : TrainingRecord}
      (h : s.flights = before ++ .updated record :: after) : Step casts s .load
        { s with flights := before ++ .loaded record (max s.controller.recordCap 1) :: after }
  | push {s : State} (before after : List Flight) {record : TrainingRecord} {cap : Nat}
      (h : s.flights = before ++ .loaded record cap :: after) : Step casts s .push
        { s with
          controller := s.controller.pushRecord record cap
          flights := before ++ after
          pushed := s.pushed ++ [record]
          unpolled := s.unpolled + 1 }
  | poll {s : State} : Step casts s .poll
      { s with
        received := s.received ++ s.controller.recentRecords (some (lastSeq s.received))
        unpolled := 0 }

/-- Fewer records than the capacity are pushed between two polls. -/
def Paced (s : State) : Action → Prop
  | .push => s.unpolled + 1 < s.controller.recordCap
  | _ => True

/-- At a poll, a number that is on its way is larger than those in the ring; and the numbers do
not wrap. -/
def InOrder (s : State) : Action → Prop
  | .poll => ∀ flight ∈ s.flights, ∀ seq, flight.seq = some seq →
      ∀ record ∈ s.controller.records, record.seq < seq
  | .number => s.controller.nextSeq + 1 < 2 ^ 64
  | _ => True

/-- A poll at this state completes what was received to what was pushed. -/
def Complete (s : State) : Prop :=
  (s.received ++ s.controller.recentRecords (some (lastSeq s.received))).Perm s.pushed

/-! ## The ring and the cursor -/

section Ring

variable {records received : List TrainingRecord} {cap n : Nat}

/-- The ring has the newest records. -/
theorem trim_spec (cap : Nat) (records : List TrainingRecord) :
    (TrainingController.trim cap records).length ≤ cap ∧ ∃ dropped,
      records = dropped ++ TrainingController.trim cap records ∧
        (dropped = [] ∨ (TrainingController.trim cap records).length = cap) := by
  induction records with
  | nil => exact ⟨Nat.zero_le cap, [], rfl, .inl rfl⟩
  | cons record records ih =>
    rw [TrainingController.trim]
    split_ifs with hlong
    · obtain ⟨hle, dropped, hrecords, hfull⟩ := ih
      refine ⟨hle, record :: dropped, congrArg (record :: ·) hrecords, .inr ?_⟩
      rcases hfull with rfl | hfull
      · rw [List.nil_append] at hrecords
        rw [← hrecords] at hle ⊢
        omega
      · exact hfull
    · exact ⟨Nat.le_of_not_lt hlong, [], rfl, .inl rfl⟩

theorem le_lastSeq {record : TrainingRecord} (h : record ∈ received) :
    record.seq ≤ lastSeq received := by
  induction received with
  | nil => cases h
  | cons first received ih =>
    rw [lastSeq, List.foldr_cons]
    rcases List.mem_cons.mp h with rfl | h
    · exact le_max_left _ _
    · exact (ih h).trans (le_max_right _ _)

theorem lastSeq_le (h : ∀ record ∈ received, record.seq ≤ n) : lastSeq received ≤ n := by
  induction received with
  | nil => exact Nat.zero_le n
  | cons record received ih =>
    obtain ⟨hrecord, hrest⟩ := List.forall_mem_cons.mp h
    exact max_le hrecord (ih hrest)

theorem lastSeq_append (a b : List TrainingRecord) :
    lastSeq (a ++ b) = max (lastSeq a) (lastSeq b) := by
  induction a with
  | nil => exact (Nat.zero_max _).symm
  | cons record a ih =>
    change max record.seq (lastSeq (a ++ b)) = max (max record.seq (lastSeq a)) _
    rw [ih, max_assoc]

/-- Where old and new records are told apart by their numbers, a poll gives the new ones. -/
theorem filter_split {old new dropped : List TrainingRecord} (h : old ++ new = dropped ++ records)
    (hroom : dropped = [] ∨ new.length ≤ records.length)
    (hold : ∀ record ∈ old, record.seq ≤ n) (hnew : ∀ record ∈ new, n < record.seq) :
    records.filter (fun record => n < record.seq) = new ∧ ∀ record ∈ new, record ∈ records := by
  obtain ⟨front, hfront, rfl⟩ : ∃ front, old = dropped ++ front ∧ records = front ++ new := by
    rcases hroom with rfl | hlen
    · exact ⟨old, rfl, h.symm⟩
    · rcases List.append_eq_append_iff.mp h with ⟨front, rfl, rfl⟩ | ⟨front, hfront, hrecords⟩
      · rw [List.length_append] at hlen
        have hnil : front = [] := List.eq_nil_of_length_eq_zero (by omega)
        subst hnil
        exact ⟨[], by simp, rfl⟩
      · exact ⟨front, hfront, hrecords⟩
  refine ⟨?_, fun record hrecord => List.mem_append_right front hrecord⟩
  rw [List.filter_append, List.filter_eq_nil_iff.mpr fun record hrecord => ?_,
    List.filter_eq_self.mpr fun record hrecord => ?_, List.nil_append]
  · exact decide_eq_true (hnew record hrecord)
  · rw [decide_eq_true_iff, Nat.not_lt]
    exact hold record (hfront ▸ List.mem_append_right dropped hrecord)

end Ring

/-! ## Runs -/

/-- What was pushed are the records that were received and newer ones, which have larger numbers
and are in the ring; and the numbers on their way are larger than the cursor. -/
structure Inv (s : State) : Prop where
  split : ∃ old new, s.pushed = old ++ new ∧ new.length = s.unpolled ∧ s.received.Perm old ∧
    ∀ record ∈ new, lastSeq s.received < record.seq
  ring : ∃ dropped, s.pushed = dropped ++ s.controller.records ∧
    (dropped = [] ∨ s.controller.records.length = s.controller.recordCap)
  room : s.unpolled < s.controller.recordCap
  flights : ∀ flight ∈ s.flights, ∀ seq, flight.seq = some seq →
    lastSeq s.received < seq ∧ seq ≤ s.controller.nextSeq
  caps : ∀ flight ∈ s.flights, ∀ record cap, flight = .loaded record cap →
    cap = s.controller.recordCap
  numbers : ∀ record ∈ s.pushed, record.seq ≤ s.controller.nextSeq

section Inv

variable {casts : FloatCasts} {s t : State}

/-- A poll gives the new records. -/
theorem Inv.recentRecords (h : Inv s) : ∃ old, s.received.Perm old ∧
    s.pushed = old ++ s.controller.recentRecords (some (lastSeq s.received)) := by
  obtain ⟨old, new, hpushed, hlen, hperm, hnew⟩ := h.split
  obtain ⟨dropped, hring, hfull⟩ := h.ring
  have hroom : dropped = [] ∨ new.length ≤ s.controller.records.length := by
    refine hfull.imp id fun hfull => ?_
    rw [hfull, hlen]
    exact h.room.le
  have hfilter := (filter_split (hpushed.symm.trans hring) hroom
    (fun record hrecord => le_lastSeq (hperm.mem_iff.mpr hrecord)) hnew).1
  exact ⟨old, hperm, hpushed.trans (congrArg (old ++ ·) hfilter.symm)⟩

theorem Inv.complete (h : Inv s) : Complete s := by
  obtain ⟨old, hperm, hpushed⟩ := h.recentRecords
  rw [Complete, hpushed]
  exact hperm.append_right _

/-- A call enters, or goes on by a step that leaves the ring as it is. -/
theorem Inv.setFlight (h : Inv s) {controller : TrainingController} {flights : List Flight}
    (flight : Flight) (hrecords : controller.records = s.controller.records)
    (hcap : controller.recordCap = s.controller.recordCap)
    (hnext : s.controller.nextSeq ≤ controller.nextSeq)
    (hflights : ∀ other ∈ flights, other = flight ∨ other ∈ s.flights)
    (hseq : ∀ seq, flight.seq = some seq → lastSeq s.received < seq ∧ seq ≤ controller.nextSeq)
    (hloaded : ∀ record cap, flight = .loaded record cap → cap = s.controller.recordCap) :
    Inv { s with controller, flights } := by
  refine ⟨h.split, ?_, ?_, fun other hother seq hother' => ?_,
    fun other hother record cap heq => ?_,
    fun record hrecord => (h.numbers record hrecord).trans hnext⟩
  · dsimp only
    rw [hrecords, hcap]
    exact h.ring
  · dsimp only
    rw [hcap]
    exact h.room
  · rcases hflights other hother with rfl | hold
    · exact hseq seq hother'
    · exact (h.flights other hold seq hother').imp_right fun hle => hle.trans hnext
  · dsimp only
    rw [hcap]
    rcases hflights other hother with rfl | hold
    · exact hloaded record cap heq
    · exact h.caps other hold record cap heq

theorem Inv.enter (h : Inv s) (controller : TrainingController)
    (hrecords : controller.records = s.controller.records)
    (hcap : controller.recordCap = s.controller.recordCap)
    (hnext : s.controller.nextSeq ≤ controller.nextSeq) (call : Call) :
    Inv { s with controller, flights := .entered call :: s.flights } :=
  h.setFlight (.entered call) hrecords hcap hnext (fun _ => List.mem_cons.mp) nofun nofun

theorem mem_set {before after : List Flight} {flight flight' : Flight}
    (h : s.flights = before ++ flight :: after) :
    ∀ other ∈ before ++ flight' :: after, other = flight' ∨ other ∈ s.flights := by
  intro other hother
  rw [h]
  simp only [List.mem_append, List.mem_cons] at hother ⊢
  tauto

theorem mem_flights {before after : List Flight} {flight : Flight}
    (h : s.flights = before ++ flight :: after) : flight ∈ s.flights := by
  rw [h]
  exact List.mem_append_right before List.mem_cons_self

theorem lastSeq_le_nextSeq (h : Inv s) : lastSeq s.received ≤ s.controller.nextSeq := by
  obtain ⟨old, hperm, hpushed⟩ := h.recentRecords
  refine lastSeq_le fun record hrecord => h.numbers record ?_
  rw [hpushed]
  exact List.mem_append_left _ (hperm.mem_iff.mp hrecord)

theorem Inv.push (h : Inv s) (hpaced : s.unpolled + 1 < s.controller.recordCap)
    {before after : List Flight} {record : TrainingRecord} {cap : Nat}
    (hflights : s.flights = before ++ .loaded record cap :: after) :
    Inv { s with
      controller := s.controller.pushRecord record cap
      flights := before ++ after
      pushed := s.pushed ++ [record]
      unpolled := s.unpolled + 1 } := by
  have hmem := mem_flights hflights
  obtain rfl := h.caps _ hmem record cap rfl
  obtain ⟨hlast, hle⟩ := h.flights _ hmem record.seq rfl
  have hother : ∀ flight ∈ before ++ after, flight ∈ s.flights := by
    intro flight hflight
    rw [hflights]
    simp only [List.mem_append, List.mem_cons] at hflight ⊢
    tauto
  refine ⟨?_, ?_, hpaced, fun flight hflight => h.flights flight (hother flight hflight),
    fun flight hflight => h.caps flight (hother flight hflight), ?_⟩
  · obtain ⟨old, new, hpushed, hlen, hperm, hnew⟩ := h.split
    refine ⟨old, new ++ [record], ?_, ?_, hperm, ?_⟩
    · dsimp only
      rw [hpushed, List.append_assoc]
    · rw [List.length_append, hlen]
      rfl
    · intro other hother
      rcases List.mem_append.mp hother with hold | hsingle
      · exact hnew other hold
      · obtain rfl := List.mem_singleton.mp hsingle
        exact hlast
  · obtain ⟨dropped, hring, hfull⟩ := h.ring
    obtain ⟨hlen, dropped', htrim, hfull'⟩ :=
      trim_spec s.controller.recordCap (s.controller.records ++ [record])
    refine ⟨dropped ++ dropped', ?_, ?_⟩
    · change s.pushed ++ [record] = dropped ++ dropped' ++ TrainingController.trim _ _
      rw [hring, List.append_assoc, List.append_assoc]
      exact congrArg (dropped ++ ·) htrim
    · change dropped ++ dropped' = [] ∨
        (TrainingController.trim _ (s.controller.records ++ [record])).length = _
      rcases hfull' with rfl | hfull'
      · rcases hfull with rfl | hfull
        · exact .inl rfl
        · rw [List.nil_append] at htrim
          rw [← htrim, List.length_append, hfull] at hlen
          exact absurd hlen (Nat.not_succ_le_self _)
      · exact .inr hfull'
  · intro other hother
    rcases List.mem_append.mp hother with hold | hsingle
    · exact h.numbers other hold
    · obtain rfl := List.mem_singleton.mp hsingle
      exact hle

theorem Inv.poll (h : Inv s) (horder : InOrder s .poll) :
    Inv { s with
      received := s.received ++ s.controller.recentRecords (some (lastSeq s.received))
      unpolled := 0 } := by
  obtain ⟨old, hperm, hpushed⟩ := h.recentRecords
  refine ⟨⟨_, [], (List.append_nil _).symm, rfl, ?_, fun _ h => by cases h⟩, h.ring, ?_, ?_,
    h.caps, h.numbers⟩
  · dsimp only
    rw [hpushed]
    exact hperm.append_right _
  · exact Nat.zero_lt_of_lt h.room
  · intro flight hflight seq hseq
    obtain ⟨hlast, hle⟩ := h.flights flight hflight seq hseq
    refine ⟨?_, hle⟩
    rw [lastSeq_append]
    refine max_lt hlast (Nat.lt_of_le_pred (Nat.zero_lt_of_lt hlast) (lastSeq_le ?_))
    intro record hrecord
    exact Nat.le_pred_of_lt (horder flight hflight seq hseq record (List.mem_of_mem_filter hrecord))

/-- Every step keeps the order of the numbers. -/
theorem Inv.step {a : Action} (h : Inv s) (hpaced : Paced s a) (horder : InOrder s a)
    (hstep : Step casts s a t) : Inv t := by
  cases hstep with
  | metric => exact h.enter s.controller rfl rfl (le_refl _) _
  | event => exact h.enter s.controller rfl rfl (le_refl _) _
  | requestStop => exact h.enter { s.controller with stop := true } rfl rfl (le_refl _) _
  | requestSave => exact h.enter { s.controller with save := true } rfl rfl (le_refl _) _
  | number _ _ hflights =>
    have hnext := Word.wrappingAdd_of_lt horder
    refine h.setFlight _ rfl rfl ?_ (mem_set hflights) (fun seq hseq => ?_)
      fun _ _ h => by cases h
    · exact hnext ▸ Nat.le_succ _
    · cases hseq
      exact ⟨hnext ▸ Nat.lt_succ_of_le (lastSeq_le_nextSeq h), le_refl _⟩
  | @build _ _ call seq tsMs hflights =>
    refine h.setFlight _ rfl rfl (le_refl _) (mem_set hflights) (fun seq' hseq => ?_)
      fun _ _ h => by cases h
    have hsame : (call.record seq tsMs s.controller.status.iter).seq = seq := by
      cases call <;> rfl
    rw [Flight.seq, hsame] at hseq
    exact h.flights _ (mem_flights hflights) seq' hseq
  | update _ _ hflights =>
    exact h.setFlight _ rfl rfl (le_refl _) (mem_set hflights)
      (fun seq hseq => h.flights _ (mem_flights hflights) seq hseq) (fun _ _ h => by cases h)
  | load _ _ hflights =>
    refine h.setFlight _ rfl rfl (le_refl _) (mem_set hflights)
      (fun seq hseq => h.flights _ (mem_flights hflights) seq hseq) fun record cap heq => ?_
    cases heq
    exact Nat.max_eq_left (Nat.zero_lt_of_lt h.room)
  | push _ _ hflights => exact h.push hpaced hflights
  | poll => exact h.poll horder

theorem inv_start (capacity : Nat) : Inv (start capacity) := by
  refine ⟨⟨[], [], rfl, rfl, .refl _, fun _ h => by cases h⟩, ⟨[], rfl, .inl rfl⟩, ?_,
    (fun _ h => by cases h), (fun _ h => by cases h), fun _ h => by cases h⟩
  exact Nat.lt_of_lt_of_le Nat.zero_lt_one (Nat.le_max_right capacity 1)

/-- In every run in which fewer records than the capacity are pushed between two polls, and no poll
finds a number on its way that is smaller than one in the ring, the poller receives every pushed
record exactly once. -/
theorem complete_of_run {capacity : Nat} {actions : List Action}
    (hrun : Run (guarded (fun s a => Paced s a ∧ InOrder s a) (Step casts)) (start capacity)
      actions s) : Complete s :=
  (hrun.invariant (fun _ _ _ h hstep => h.step hstep.1.1 hstep.1.2 hstep.2)
    (inv_start capacity)).complete

end Inv

/-- A save request and a stop request, with a poll after each of them. -/
theorem complete_saveThenStop : ∃ s, Complete s ∧ s.received.length = 2 ∧
    s.controller.save = true ∧ s.controller.stop = true := by
  have hrun : Run (guarded (fun s a => Paced s a ∧ InOrder s a) (Step ⟨fun _ => 0, fun _ => 0⟩))
      (start 4) [.call .requestSave, .number, .build 0, .update, .load, .push, .poll,
        .call .requestStop, .number, .build 0, .update, .load, .push, .poll] _ :=
    .cons ⟨⟨trivial, trivial⟩, .requestSave⟩
      (.cons ⟨⟨trivial, show 0 + 1 < 2 ^ 64 by decide⟩, .number [] [] rfl⟩
      (.cons ⟨⟨trivial, trivial⟩, .build [] [] rfl⟩
      (.cons ⟨⟨trivial, trivial⟩, .update [] [] rfl⟩
      (.cons ⟨⟨trivial, trivial⟩, .load [] [] rfl⟩
      (.cons ⟨⟨show 0 + 1 < 4 by decide, trivial⟩, .push [] [] rfl⟩
      (.cons ⟨⟨trivial, (fun _ h => by cases h)⟩, .poll⟩
      (.cons ⟨⟨trivial, trivial⟩, .requestStop⟩
      (.cons ⟨⟨trivial, show 1 + 1 < 2 ^ 64 by decide⟩, .number [] [] rfl⟩
      (.cons ⟨⟨trivial, trivial⟩, .build [] [] rfl⟩
      (.cons ⟨⟨trivial, trivial⟩, .update [] [] rfl⟩
      (.cons ⟨⟨trivial, trivial⟩, .load [] [] rfl⟩
      (.cons ⟨⟨show 0 + 1 < 4 by decide, trivial⟩, .push [] [] rfl⟩
      (.cons ⟨⟨trivial, (fun _ h => by cases h)⟩, .poll⟩ (.nil _))))))))))))))
  exact ⟨_, complete_of_run hrun, rfl, rfl, rfl⟩

/-- The stop request takes its number first and is pushed last: the poll between finds the number
of the save request. -/
theorem late_push_missed : ¬ ∀ (casts : FloatCasts) (capacity : Nat) (actions : List Action)
    (s : State), Run (guarded Paced (Step casts)) (start capacity) actions s → Complete s := by
  intro hall
  have hrun : Run (guarded Paced (Step ⟨fun _ => 0, fun _ => 0⟩)) (start 4)
      [.call .requestSave, .call .requestStop, .number, .number, .build 0, .update, .load, .push,
        .poll, .build 0, .update, .load, .push] _ :=
    .cons ⟨trivial, .requestSave⟩ (.cons ⟨trivial, .requestStop⟩
      (.cons ⟨trivial, .number [] _ rfl⟩ (.cons ⟨trivial, .number [_] [] rfl⟩
      (.cons ⟨trivial, .build [_] [] rfl⟩ (.cons ⟨trivial, .update [_] [] rfl⟩
      (.cons ⟨trivial, .load [_] [] rfl⟩
      (.cons ⟨show 0 + 1 < 4 by decide, .push [_] [] rfl⟩
      (.cons ⟨trivial, .poll⟩
      (.cons ⟨trivial, .build [] [] rfl⟩ (.cons ⟨trivial, .update [] [] rfl⟩
      (.cons ⟨trivial, .load [] [] rfl⟩
      (.cons ⟨show 0 + 1 < 4 by decide, .push [] [] rfl⟩ (.nil _)))))))))))))
  have hlen := (hall _ _ _ _ hrun).length_eq
  exact absurd hlen (by decide)

end Arle.Train.Control
