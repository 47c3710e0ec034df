import Mathlib
import Arle.Lib.LittleEndian

/-!
# The relay of requests

The coordinator writes every envelope to the streams of all workers, as the bytes of its JSON
behind their number. A worker reads one envelope at a time; a stream ends when the coordinator is
gone. The envelopes and their JSON are parameters.
-/

namespace Arle.Distributed

section Model

/-- The encoder and the decoder of the envelopes. -/
structure Serde (E : Type) where
  toVec : E → Except String (List UInt8)
  fromSlice : List UInt8 → Except String E

/-- The decoder undoes the encoder. An envelope is a JSON object, so a text that stops before its
closing brace is refused. -/
structure Serde.Documented {E : Type} (serde : Serde E) : Prop where
  undoes : ∀ envelope payload, serde.toVec envelope = .ok payload →
    serde.fromSlice payload = .ok envelope
  truncated : ∀ envelope payload part, serde.toVec envelope = .ok payload → part <+: payload →
    part.length < payload.length → ∃ err, serde.fromSlice part = .error err

/-- What goes wrong with a write to the stream of a worker, by what has been written to it before:
the number of bytes that go out before the error. -/
abbrev WriteFaults := Nat → List UInt8 → List UInt8 → Option Nat

variable {E : Type} (serde : Serde E) (faults : WriteFaults)

def writeAll (idx : Nat) (stream bytes : List UInt8) : Except String Unit × List UInt8 :=
  match faults idx stream bytes with
  | none => (.ok (), stream ++ bytes)
  | some n => (.error "write error", stream ++ bytes.take n)

/-- The streams of the workers, by what has been written to them. -/
structure RelayCoordinator where
  workers : List (List UInt8)

/-- The loop over the workers from an index on. -/
def broadcastLoop (header payload : List UInt8) : Nat → List (List UInt8) →
    Except String Unit × List (List UInt8)
  | _, [] => (.ok (), [])
  | idx, stream :: streams =>
    match writeAll faults idx stream header with
    | (.error _, stream) =>
      (.error s!"RelayCoordinator write header to worker {idx}", stream :: streams)
    | (.ok (), stream) =>
      match writeAll faults idx stream payload with
      | (.error _, stream) =>
        (.error s!"RelayCoordinator write payload to worker {idx}", stream :: streams)
      | (.ok (), stream) =>
        let (result, streams) := broadcastLoop header payload (idx + 1) streams
        (result, stream :: streams)

/-- The length is cast to 32 bits. -/
def header (payload : List UInt8) : List UInt8 :=
  LittleEndian.toBytes 4 (payload.length % 2 ^ 32)

def RelayCoordinator.broadcast (self : RelayCoordinator) (envelope : E) :
    Except String Unit × RelayCoordinator :=
  match serde.toVec envelope with
  | .error _ => (.error "RelayCoordinator serialize envelope", self)
  | .ok payload =>
    let (result, workers) := broadcastLoop faults (header payload) payload 0 self.workers
    (result, { workers })

/-- Envelopes one after another, up to the first that fails. -/
def RelayCoordinator.broadcastAll (self : RelayCoordinator) :
    List E → Except String Unit × RelayCoordinator
  | [] => (.ok (), self)
  | envelope :: envelopes =>
    match self.broadcast serde faults envelope with
    | (.error err, self) => (.error err, self)
    | (.ok (), self) => self.broadcastAll envelopes

def lengthRefused (len : Nat) : String :=
  s!"RelayWorker envelope length {len} exceeds 64 MiB sanity cap — likely corrupted " ++
    "stream or version mismatch"

/-- `recv`, with what is left of the stream. -/
def recv (stream : List UInt8) : Except String (Option E) × List UInt8 :=
  if stream.length < 4 then
    (.ok none, [])
  else
    let len := LittleEndian.ofBytes (stream.take 4)
    let stream := stream.drop 4
    if len = 0 then
      (.error "RelayWorker received empty envelope (corrupt stream?)", stream)
    else if len > 64 * 1024 * 1024 then
      (.error (lengthRefused len), stream)
    else if stream.length < len then
      (.error "RelayWorker read payload", [])
    else
      match serde.fromSlice (stream.take len) with
      | .error _ => (.error "RelayWorker deserialize envelope", stream.drop len)
      | .ok envelope => (.ok (some envelope), stream.drop len)

end Model

/-! ## What is written -/

section Written

variable {E : Type} {serde : Serde E} {faults : WriteFaults}

/-- The bytes of an envelope on a stream. -/
def frame (payload : List UInt8) : List UInt8 := header payload ++ payload

theorem length_frame (payload : List UInt8) : (frame payload).length = 4 + payload.length := by
  rw [frame, header, List.length_append, LittleEndian.length_toBytes]

theorem writeAll_ok {idx : Nat} {stream stream' bytes : List UInt8}
    (h : writeAll faults idx stream bytes = (.ok (), stream')) : stream' = stream ++ bytes := by
  unfold writeAll at h
  split at h
  · exact (Prod.mk.inj h).2.symm
  · exact absurd (Prod.mk.inj h).1 (fun h => by cases h)

theorem broadcastLoop_ok {payload : List UInt8} {idx : Nat} {streams streams' : List (List UInt8)}
    (h : broadcastLoop faults (header payload) payload idx streams = (.ok (), streams')) :
    streams' = streams.map (· ++ frame payload) := by
  induction streams generalizing idx streams' with
  | nil => exact (Prod.mk.inj h).2.symm
  | cons stream streams ih =>
    unfold broadcastLoop at h
    split at h
    · exact absurd (Prod.mk.inj h).1 (fun h => by cases h)
    · rename_i written hheader
      split at h
      · exact absurd (Prod.mk.inj h).1 (fun h => by cases h)
      · rename_i written' hpayload
        obtain ⟨hresult, hstreams⟩ := Prod.mk.inj h
        have hrest := ih (Prod.ext hresult rfl)
        refine hstreams.symm.trans (congrArg₂ List.cons ?_ hrest)
        rw [writeAll_ok hpayload, writeAll_ok hheader, frame, List.append_assoc]

/-- Every worker gets the frames of the envelopes. -/
theorem broadcastAll_ok {envelopes : List E} {coordinator coordinator' : RelayCoordinator}
    (h : coordinator.broadcastAll serde faults envelopes = (.ok (), coordinator')) :
    ∃ payloads, List.Forall₂ (fun envelope payload => serde.toVec envelope = .ok payload)
        envelopes payloads ∧
      coordinator'.workers = coordinator.workers.map (· ++ payloads.flatMap frame) := by
  induction envelopes generalizing coordinator with
  | nil =>
    refine ⟨[], .nil, ?_⟩
    rw [← (Prod.mk.inj h).2]
    simp only [List.flatMap_nil, List.append_nil, List.map_id']
  | cons envelope envelopes ih =>
    unfold RelayCoordinator.broadcastAll at h
    split at h
    · exact absurd (Prod.mk.inj h).1 (fun h => by cases h)
    · rename_i next hnext
      unfold RelayCoordinator.broadcast at hnext
      split at hnext
      · exact absurd (Prod.mk.inj hnext).1 (fun h => by cases h)
      · rename_i payload hpayload
        obtain ⟨hresult, hworkers⟩ := Prod.mk.inj hnext
        have hloop := broadcastLoop_ok (Prod.ext hresult rfl)
        obtain ⟨payloads, hpayloads, hall⟩ := ih h
        refine ⟨payload :: payloads, .cons hpayload hpayloads, ?_⟩
        have hnext : next.workers = coordinator.workers.map (· ++ frame payload) :=
          (congrArg RelayCoordinator.workers hworkers).symm.trans hloop
        rw [hall, hnext, List.map_map]
        simp only [Function.comp_def, List.flatMap_cons, List.append_assoc]

end Written

/-! ## What is read -/

section Read

variable {E : Type} {serde : Serde E}

/-- The sizes that a worker accepts. -/
def Sized (payload : List UInt8) : Prop :=
  0 < payload.length ∧ payload.length ≤ 64 * 1024 * 1024

/-- The calls of `recv` return the envelopes one after another, and then `last`. -/
def Receives (serde : Serde E) : List UInt8 → List E → Except String (Option E) → Prop
  | stream, [], last => (recv serde stream).1 = last
  | stream, envelope :: envelopes, last =>
    (recv serde stream).1 = .ok (some envelope) ∧
      Receives serde (recv serde stream).2 envelopes last

theorem Receives.last_eq {stream : List UInt8} {envelopes envelopes' : List E}
    {last last' : Except String (Option E)} (h : Receives serde stream envelopes last)
    (h' : Receives serde stream envelopes' last') (hlast : ∀ e, last ≠ .ok (some e))
    (hlast' : ∀ e, last' ≠ .ok (some e)) : last = last' := by
  induction envelopes generalizing stream envelopes' with
  | nil =>
    cases envelopes' with
    | nil => exact h.symm.trans h'
    | cons e' envelopes' => exact absurd (h.symm.trans h'.1) (hlast e')
  | cons e envelopes ih =>
    cases envelopes' with
    | nil => exact absurd (h'.symm.trans h.1) (hlast' e)
    | cons e' envelopes' => exact ih h.2 h'.2

theorem recv_short {stream : List UInt8} (h : stream.length < 4) :
    (recv serde stream).1 = .ok none := by
  rw [recv, if_pos h]

theorem ofBytes_header (payload : List UInt8) :
    LittleEndian.ofBytes (header payload) = payload.length % 2 ^ 32 :=
  LittleEndian.ofBytes_toBytes (Nat.mod_lt _ (by decide))

/-- What is done behind a header. -/
theorem recv_header (payload body : List UInt8) : recv serde (header payload ++ body) =
    if payload.length % 2 ^ 32 = 0 then
      (.error "RelayWorker received empty envelope (corrupt stream?)", body)
    else if payload.length % 2 ^ 32 > 64 * 1024 * 1024 then
      (.error (lengthRefused (payload.length % 2 ^ 32)), body)
    else if body.length < payload.length % 2 ^ 32 then
      (.error "RelayWorker read payload", [])
    else
      match serde.fromSlice (body.take (payload.length % 2 ^ 32)) with
      | .error _ => (.error "RelayWorker deserialize envelope",
          body.drop (payload.length % 2 ^ 32))
      | .ok envelope => (.ok (some envelope), body.drop (payload.length % 2 ^ 32)) := by
  have hlen : (header payload).length = 4 := LittleEndian.length_toBytes _ _
  have hlong : ¬ (header payload ++ body).length < 4 := by
    rw [List.length_append, hlen]
    omega
  rw [recv, if_neg hlong, List.take_left' hlen, List.drop_left' hlen, ofBytes_header]

theorem recv_frame (h : serde.Documented) {envelope : E} {payload : List UInt8}
    (hpayload : serde.toVec envelope = .ok payload) (hsized : Sized payload)
    (rest : List UInt8) :
    recv serde (frame payload ++ rest) = (.ok (some envelope), rest) := by
  obtain ⟨hpos, hcap⟩ := hsized
  have hlen : payload.length % 2 ^ 32 = payload.length := Nat.mod_eq_of_lt (by omega)
  rw [frame, List.append_assoc, recv_header, hlen, if_neg (by omega), if_neg (by omega),
    if_neg (by rw [List.length_append]; omega), List.take_left', List.drop_left',
    h.undoes envelope payload hpayload]
  · rfl
  · rfl

/-- Behind a header nothing is accepted but the payload: neither a part of it, at the end of the
stream or as the length was cut, nor a payload of a size that is refused. -/
theorem recv_refused (h : serde.Documented) {envelope : E} {payload body : List UInt8}
    (hpayload : serde.toVec envelope = .ok payload)
    (hbody : (body <+: payload ∧ body.length < payload.length) ∨
      (payload <+: body ∧ ¬ Sized payload)) :
    ∃ err, (recv serde (header payload ++ body)).1 = .error err := by
  rw [recv_header]
  split
  · exact ⟨_, rfl⟩
  split
  · exact ⟨_, rfl⟩
  split
  · exact ⟨_, rfl⟩
  next hzero hcap hshort =>
  have hle := Nat.mod_le payload.length (2 ^ 32)
  generalize payload.length % 2 ^ 32 = len at hzero hcap hshort hle
  have hpart : body.take len <+: payload ∧ (body.take len).length < payload.length := by
    have htake : (body.take len).length = len := List.length_take_of_le (Nat.le_of_not_lt hshort)
    rcases hbody with ⟨hfront, hlt⟩ | ⟨⟨rest, rfl⟩, hsize⟩
    · exact ⟨(List.take_prefix len body).trans hfront, by omega⟩
    · have hne : len ≠ payload.length := fun heq => hsize ⟨by omega, by omega⟩
      rw [List.take_append_of_le_length hle] at htake ⊢
      exact ⟨List.take_prefix len payload, by omega⟩
  obtain ⟨err, herr⟩ := h.truncated envelope payload _ hpayload hpart.1 hpart.2
  rw [herr]
  exact ⟨_, rfl⟩

/-- How many frames stand whole in the first `n` bytes, and how many bytes there are behind
them. -/
def wholeFrames : List (List UInt8) → Nat → Nat × Nat
  | [], n => (0, n)
  | payload :: payloads, n =>
    if n < 4 + payload.length then (0, n)
    else
      let rest := wholeFrames payloads (n - (4 + payload.length))
      (rest.1 + 1, rest.2)

/-- The first `n` bytes of the frames, when all whole frames have accepted sizes. -/
theorem receives_sized (h : serde.Documented) {envelopes : List E} {payloads : List (List UInt8)}
    (hpayloads : List.Forall₂ (fun envelope payload => serde.toVec envelope = .ok payload)
      envelopes payloads) {n : Nat} (hn : n ≤ (payloads.flatMap frame).length)
    (hsized : ∀ payload ∈ payloads.take (wholeFrames payloads n).1, Sized payload) :
    ∃ last, Receives serde ((payloads.flatMap frame).take n)
        (envelopes.take (wholeFrames payloads n).1) last ∧
      ((wholeFrames payloads n).2 < 4 → last = .ok none) ∧
      (4 ≤ (wholeFrames payloads n).2 → ∃ err, last = .error err) := by
  induction hpayloads generalizing n with
  | nil =>
    have hzero : n = 0 := Nat.le_zero.mp hn
    subst hzero
    exact ⟨.ok none, recv_short (by decide), fun _ => rfl, fun h => absurd h (by decide)⟩
  | @cons envelope payload envelopes payloads hpayload hpayloads ih =>
    rw [List.flatMap_cons, List.length_append, length_frame] at hn
    rw [List.flatMap_cons]
    by_cases hlt : n < 4 + payload.length
    · -- the stream ends in the first frame
      have hwhole : wholeFrames (payload :: payloads) n = (0, n) := if_pos hlt
      rw [hwhole]
      rw [List.take_append_of_le_length (by rw [length_frame]; omega)]
      by_cases hheader : n < 4
      · refine ⟨.ok none, recv_short ?_, fun _ => rfl, fun h => absurd hheader (Nat.not_lt.mpr h)⟩
        rw [List.length_take]
        omega
      · have hbody : (frame payload).take n = header payload ++ payload.take (n - 4) := by
          have hlen : (header payload).length = 4 := LittleEndian.length_toBytes _ _
          rw [frame, List.take_append, hlen, List.take_of_length_le (by omega)]
        have hcut : (payload.take (n - 4)).length < payload.length := by
          rw [List.length_take]
          omega
        obtain ⟨err, herr⟩ := recv_refused h hpayload (Or.inl ⟨List.take_prefix _ _, hcut⟩)
        refine ⟨.error err, ?_, fun h => absurd h hheader, fun _ => ⟨err, rfl⟩⟩
        rw [hbody]
        exact herr
    · have hwhole : wholeFrames (payload :: payloads) n =
          ((wholeFrames payloads (n - (4 + payload.length))).1 + 1,
            (wholeFrames payloads (n - (4 + payload.length))).2) := if_neg hlt
      rw [hwhole] at hsized ⊢
      rw [List.take_succ_cons] at hsized
      obtain ⟨last, hlast, hkind⟩ := ih (by omega)
        fun p hp => hsized p (List.mem_cons_of_mem _ hp)
      refine ⟨last, ?_, hkind⟩
      have hsplit : (frame payload ++ payloads.flatMap frame).take n = frame payload ++
          (payloads.flatMap frame).take (n - (4 + payload.length)) := by
        rw [List.take_append, length_frame,
          List.take_of_length_le (by rw [length_frame]; omega)]
      rw [hsplit]
      have hrecv := recv_frame h hpayload (hsized payload List.mem_cons_self)
        ((payloads.flatMap frame).take (n - (4 + payload.length)))
      refine ⟨congrArg Prod.fst hrecv, ?_⟩
      rw [hrecv]
      exact hlast

/-- A whole frame of a refused size ends the calls with an error. -/
theorem receives_refused (h : serde.Documented) {envelopes : List E} {payloads : List (List UInt8)}
    (hpayloads : List.Forall₂ (fun envelope payload => serde.toVec envelope = .ok payload)
      envelopes payloads) {n : Nat}
    (hrefused : ∃ payload ∈ payloads.take (wholeFrames payloads n).1, ¬ Sized payload) :
    ∃ whole err, Receives serde ((payloads.flatMap frame).take n) (envelopes.take whole)
      (.error err) := by
  induction hpayloads generalizing n with
  | nil =>
    obtain ⟨payload, hin, -⟩ := hrefused
    rw [List.take_nil] at hin
    exact absurd hin List.not_mem_nil
  | @cons envelope payload envelopes payloads hpayload hpayloads ih =>
    rw [List.flatMap_cons]
    by_cases hlt : n < 4 + payload.length
    · have hwhole : wholeFrames (payload :: payloads) n = (0, n) := if_pos hlt
      obtain ⟨p, hin, -⟩ := hrefused
      rw [hwhole] at hin
      exact absurd hin List.not_mem_nil
    · have hwhole : wholeFrames (payload :: payloads) n =
          ((wholeFrames payloads (n - (4 + payload.length))).1 + 1,
            (wholeFrames payloads (n - (4 + payload.length))).2) := if_neg hlt
      have hsplit : (frame payload ++ payloads.flatMap frame).take n = frame payload ++
          (payloads.flatMap frame).take (n - (4 + payload.length)) := by
        rw [List.take_append, length_frame,
          List.take_of_length_le (by rw [length_frame]; omega)]
      rw [hsplit]
      by_cases hsized : Sized payload
      · obtain ⟨p, hin, hbad⟩ := hrefused
        rw [hwhole, List.take_succ_cons] at hin
        have hin' := (List.mem_cons.mp hin).resolve_left fun heq => hbad (heq ▸ hsized)
        obtain ⟨whole, err, hrest⟩ := ih ⟨p, hin', hbad⟩
        have hrecv := recv_frame h hpayload hsized
          ((payloads.flatMap frame).take (n - (4 + payload.length)))
        refine ⟨whole + 1, err, congrArg Prod.fst hrecv, ?_⟩
        rw [hrecv]
        exact hrest
      · have hfront : payload <+:
            payload ++ (payloads.flatMap frame).take (n - (4 + payload.length)) :=
          List.prefix_append _ _
        obtain ⟨err, herr⟩ := recv_refused h hpayload (Or.inr ⟨hfront, hsized⟩)
        refine ⟨0, err, ?_⟩
        rw [frame, List.append_assoc]
        exact herr

theorem wholeFrames_all (payloads : List (List UInt8)) :
    wholeFrames payloads (payloads.flatMap frame).length = (payloads.length, 0) := by
  induction payloads with
  | nil => rfl
  | cons payload payloads ih =>
    have hall : ((payload :: payloads).flatMap frame).length =
        4 + payload.length + (payloads.flatMap frame).length := by
      rw [List.flatMap_cons, List.length_append, length_frame]
    rw [hall, wholeFrames, if_neg (by omega), Nat.add_sub_cancel_left, ih]
    rfl

/-- Whole frames are read as their envelopes and then as the end; with a part of a frame behind
them there is an error in the end. -/
def ReadsExactly (serde : Serde E) (envelopes : List E) (whole part : Nat)
    (stream : List UInt8) : Prop :=
  if part = 0 then
    Receives serde stream (envelopes.take whole) (.ok none)
  else
    ∃ read err, Receives serde stream (envelopes.take read) (.error err)

/-- The first `n` bytes are read exactly when a cut on a boundary has no frame of a refused size
before it, and one of up to three bytes behind a boundary has. -/
theorem readsExactly_iff (h : serde.Documented) {envelopes : List E}
    {payloads : List (List UInt8)}
    (hpayloads : List.Forall₂ (fun envelope payload => serde.toVec envelope = .ok payload)
      envelopes payloads) {n : Nat} (hn : n ≤ (payloads.flatMap frame).length) :
    ReadsExactly serde envelopes (wholeFrames payloads n).1 (wholeFrames payloads n).2
        ((payloads.flatMap frame).take n) ↔
      ((wholeFrames payloads n).2 = 0 →
        ∀ payload ∈ payloads.take (wholeFrames payloads n).1, Sized payload) ∧
      (0 < (wholeFrames payloads n).2 → (wholeFrames payloads n).2 < 4 →
        ∃ payload ∈ payloads.take (wholeFrames payloads n).1, ¬ Sized payload) := by
  have hnone : ∀ e : E, (.ok none : Except String (Option E)) ≠ .ok (some e) :=
    fun _ h => by cases h
  have herror (err : String) : ∀ e : E, (.error err : Except String (Option E)) ≠ .ok (some e) :=
    (fun _ h => by cases h)
  unfold ReadsExactly
  by_cases hsized : ∀ payload ∈ payloads.take (wholeFrames payloads n).1, Sized payload
  · obtain ⟨last, hread, hend, hpart⟩ := receives_sized h hpayloads hn hsized
    have hnot : ¬ ∃ payload ∈ payloads.take (wholeFrames payloads n).1, ¬ Sized payload := by
      rintro ⟨payload, hin, hbad⟩
      exact hbad (hsized payload hin)
    generalize (wholeFrames payloads n).2 = part at hend hpart ⊢
    by_cases hzero : part = 0
    · rw [if_pos hzero]
      rw [hend (by omega)] at hread
      exact iff_of_true hread ⟨fun _ => hsized, fun h => absurd hzero (Nat.ne_of_gt h)⟩
    · rw [if_neg hzero]
      by_cases hheader : part < 4
      · rw [hend hheader] at hread
        refine iff_of_false ?_ fun hcond => hnot (hcond.2 (Nat.pos_of_ne_zero hzero) hheader)
        rintro ⟨read, err, hread'⟩
        exact absurd (hread.last_eq hread' hnone (herror err)) (fun h => by cases h)
      · obtain ⟨err, herr⟩ := hpart (by omega)
        rw [herr] at hread
        exact iff_of_true ⟨_, err, hread⟩
          ⟨fun h => absurd h hzero, fun _ h => absurd h hheader⟩
  · have hrefused : ∃ payload ∈ payloads.take (wholeFrames payloads n).1, ¬ Sized payload := by
      simpa only [not_forall, exists_prop] using hsized
    obtain ⟨read, err, hread⟩ := receives_refused h hpayloads hrefused
    by_cases hzero : (wholeFrames payloads n).2 = 0
    · rw [if_pos hzero]
      refine iff_of_false (fun hread' => ?_) fun hcond => hsized (hcond.1 hzero)
      exact absurd (hread.last_eq hread' (herror err) hnone) (fun h => by cases h)
    · rw [if_neg hzero]
      exact iff_of_true ⟨read, err, hread⟩ ⟨fun h => absurd h hzero, fun _ _ => hrefused⟩

end Read

/-- What a worker reads of the envelopes that were broadcast to it. All of them are read back if
and only if their sizes are accepted. The first `n` bytes are read as the frames before their end
tell, if and only if there is no frame of a refused size before a cut on a boundary, and one
before a cut of up to three bytes behind a boundary. -/
theorem relay_framing {E : Type} {serde : Serde E} (h : serde.Documented) {faults : WriteFaults}
    {envelopes : List E} {coordinator coordinator' : RelayCoordinator}
    (hsent : coordinator.broadcastAll serde faults envelopes = (.ok (), coordinator'))
    {worker : Nat} (hworker : coordinator.workers[worker]? = some []) :
    ∃ payloads, List.Forall₂ (fun envelope payload => serde.toVec envelope = .ok payload)
        envelopes payloads ∧
      coordinator'.workers[worker]? = some (payloads.flatMap frame) ∧
      (Receives serde (payloads.flatMap frame) envelopes (.ok none) ↔
        ∀ payload ∈ payloads, Sized payload) ∧
      ∀ n ≤ (payloads.flatMap frame).length,
        (ReadsExactly serde envelopes (wholeFrames payloads n).1 (wholeFrames payloads n).2
            ((payloads.flatMap frame).take n) ↔
          ((wholeFrames payloads n).2 = 0 →
            ∀ payload ∈ payloads.take (wholeFrames payloads n).1, Sized payload) ∧
          (0 < (wholeFrames payloads n).2 → (wholeFrames payloads n).2 < 4 →
            ∃ payload ∈ payloads.take (wholeFrames payloads n).1, ¬ Sized payload)) := by
  obtain ⟨payloads, hpayloads, hworkers⟩ := broadcastAll_ok hsent
  refine ⟨payloads, hpayloads, ?_, ?_, fun n hn => readsExactly_iff h hpayloads hn⟩
  · rw [hworkers, List.getElem?_map, hworker]
    rfl
  · have hall := readsExactly_iff h hpayloads (Nat.le_refl _)
    rw [wholeFrames_all, List.take_length, List.take_length, ← hpayloads.length_eq,
      ReadsExactly, if_pos rfl, List.take_length] at hall
    refine hall.trans ⟨fun hcond => hcond.1 rfl, fun hsized => ⟨fun _ => hsized, fun hpos => ?_⟩⟩
    exact absurd hpos (Nat.lt_irrefl 0)

/-- The JSON of the notice of a shutdown. -/
def shutdownJson : List UInt8 :=
  "\x7b\"kind\":\"shutdown\"\x7d".toList.map fun c => UInt8.ofNat c.toNat

/-- The encoder and the decoder at the notice of a shutdown. -/
def shutdownSerde : Serde Unit where
  toVec _ := .ok shutdownJson
  fromSlice bytes := if bytes = shutdownJson then .ok () else .error "expected an envelope"

theorem shutdownSerde_documented : shutdownSerde.Documented where
  undoes := by
    rintro ⟨⟩ payload hpayload
    cases hpayload
    simp only [shutdownSerde, if_pos]
  truncated := by
    rintro ⟨⟩ payload part hpayload - hlt
    cases hpayload
    refine ⟨"expected an envelope", if_neg fun heq => ?_⟩
    rw [heq] at hlt
    exact Nat.lt_irrefl _ hlt

/-- Two notices are broadcast to one worker. -/
theorem relay_framing_shutdown :
    ∃ stream, Receives shutdownSerde stream [(), ()] (.ok none) := by
  obtain ⟨coordinator', hsent⟩ : ∃ coordinator', (RelayCoordinator.mk [[]]).broadcastAll
      shutdownSerde (fun _ _ _ => none) [(), ()] = (.ok (), coordinator') := ⟨_, rfl⟩
  have hworker : (RelayCoordinator.mk [[]]).workers[0]? = some [] := rfl
  obtain ⟨payloads, hpayloads, -, hall, -⟩ :=
    relay_framing shutdownSerde_documented hsent hworker
  refine ⟨payloads.flatMap frame, hall.mpr ?_⟩
  cases hpayloads with
  | cons hfirst hrest =>
    cases hrest with
    | cons hsecond hnil =>
      cases hnil
      cases hfirst
      cases hsecond
      have hsized : Sized shutdownJson := ⟨by decide, by decide⟩
      simpa using hsized

/-- Of a notice only two bytes arrive, and the worker takes it for a clean shutdown. -/
theorem relay_cut_fails :
    (RelayCoordinator.mk [[]]).broadcastAll shutdownSerde (fun _ _ _ => none) [()] =
      (.ok (), ⟨[frame shutdownJson]⟩) ∧
    wholeFrames [shutdownJson] 2 = (0, 2) ∧
    (recv shutdownSerde ((frame shutdownJson).take 2)).1 = .ok none :=
  ⟨rfl, rfl, rfl⟩

end Arle.Distributed
