import Mathlib
import Arle.Gguf.Layout

/-!
# Metadata read in step with the file

`read_value` and `read_value_of_type` decode by two tables. The table for elements has a row for
six types only, every other element is taken to be four bytes wide; so a value is read to its
end exactly when it has no element of another type (`Value.InStep`), and the pairs of a file are
all found at their true positions exactly when every value is in step.
-/

namespace Arle.Gguf

open ByteReader

variable (f64AsF32 : UInt64 → UInt32)

/-! ## Numbers and strings -/

theorem reads_u32 (v : UInt32) : Reads readU32 (LittleEndian.toBytes 4 v.toNat) v := by
  have h := Reads.number ReadError.unexpectedEof (n := 4) v.toNat_lt UInt32.ofNat
  rwa [UInt32.ofNat_toNat] at h

theorem reads_u64 (v : UInt64) : Reads readU64 (LittleEndian.toBytes 8 v.toNat) v := by
  have h := Reads.number ReadError.unexpectedEof (n := 8) v.toNat_lt UInt64.ofNat
  rwa [UInt64.ofNat_toNat] at h

theorem reads_i32 (v : Int32) : Reads readI32 (LittleEndian.toBytes 4 v.toUInt32.toNat) v := by
  have h := Reads.number ReadError.unexpectedEof (n := 4) v.toUInt32.toNat_lt
    fun n => (UInt32.ofNat n).toInt32
  rwa [UInt32.ofNat_toNat] at h

/-- A number below `2 ^ 32` in a field of four bytes. -/
theorem reads_field32 {n : Nat} (hn : n < 2 ^ 32) :
    Reads readU32 (LittleEndian.toBytes 4 n) (.ofNat n) := by
  have h := reads_u32 (.ofNat n)
  rwa [UInt32.toNat_ofNat_of_lt' hn] at h

theorem reads_field64 {n : Nat} (hn : n < 2 ^ 64) :
    Reads readU64 (LittleEndian.toBytes 8 n) (.ofNat n) := by
  have h := reads_u64 (.ofNat n)
  rwa [UInt64.toNat_ofNat_of_lt' hn] at h

theorem reads_string {bytes : List UInt8} (hlen : bytes.length < 2 ^ 64) :
    Reads readString (encodeString bytes) (Str.lossy bytes) := by
  unfold readString encodeString
  apply (reads_field64 hlen).bind
  rw [UInt64.toNat_ofNat_of_lt' hlen]
  exact (Reads.exact _ bytes).map Str.lossy

theorem GgufValueType.code_lt (t : GgufValueType) : t.code < 2 ^ 32 := by
  cases t <;> decide

/-! ## Values in step -/

/-- The row of the element table for a type that has one. -/
theorem reads_element {v : Value} (hwf : v.WellFormed) (hrow : v.type.HasElementRow) :
    Reads (readValueOfType v.type.code) v.payload (v.scalar f64AsF32) := by
  cases hwf with
  | uint8 v =>
    have h := Reads.number ReadError.unexpectedEof (n := 1) v.toNat_lt
      fun k => GgufValue.u32 (.ofNat k)
    rwa [UInt32.ofNat_uInt8ToNat] at h
  | uint32 v => exact (reads_u32 v).map _
  | int32 v => exact (reads_i32 v).map _
  | float32 bits => exact (reads_u32 bits).map _
  | string hlen => exact (reads_string hlen).map _
  | uint64 v => exact (reads_u64 v).map _
  | int8 | uint16 | int16 | bool | array | int64 | float64 =>
    exact absurd hrow (of_decide_eq_false rfl)

theorem reads_elements {elem : GgufValueType} {items : List Value}
    (htype : ∀ v ∈ items, v.type = elem) (hitems : ∀ v ∈ items, v.WellFormed)
    (h : items = [] ∨ elem.HasElementRow) :
    Reads (times (readValueOfType elem.code) items.length) (Value.payloads items)
      (items.map (Value.scalar f64AsF32)) := by
  rw [Value.payloads_eq]
  apply Reads.times
  intro v hv
  rcases h with rfl | hrow
  · cases hv
  · have hvt := htype v hv
    subst hvt
    exact reads_element f64AsF32 (hitems v hv) hrow

/-- A value in step is read to its end. -/
theorem reads_payload {v : Value} (hwf : v.WellFormed) (h : v.InStep) :
    Reads (readPayload f64AsF32 v.type.code) v.payload (v.decoded f64AsF32) := by
  cases hwf with
  | uint8 v =>
    have h := Reads.number ReadError.unexpectedEof (n := 1) v.toNat_lt
      fun k => GgufValue.u32 (.ofNat k)
    rwa [UInt32.ofNat_uInt8ToNat] at h
  | int8 v =>
    have h := Reads.number ReadError.unexpectedEof (n := 1) v.toUInt8.toNat_lt
      fun k => GgufValue.i32 (UInt8.ofNat k).toInt8.toInt32
    rwa [UInt8.ofNat_toNat] at h
  | uint16 v =>
    have h := Reads.number ReadError.unexpectedEof (n := 2) v.toNat_lt
      fun k => GgufValue.u32 (.ofNat k)
    rwa [UInt32.ofNat_uInt16ToNat] at h
  | int16 v =>
    have h := Reads.number ReadError.unexpectedEof (n := 2) v.toUInt16.toNat_lt
      fun k => GgufValue.i32 (UInt16.ofNat k).toInt16.toInt32
    rwa [UInt16.ofNat_toNat] at h
  | uint32 v => exact (reads_u32 v).map _
  | int32 v => exact (reads_i32 v).map _
  | float32 bits => exact (reads_u32 bits).map _
  | bool v =>
    have h := Reads.number ReadError.unexpectedEof (n := 1) (v := v.toNat) (by cases v <;> decide)
      fun k => GgufValue.bool (k != 0)
    have hv : (v.toNat != 0) = v := by cases v <;> rfl
    rwa [hv] at h
  | string hlen => exact (reads_string hlen).map _
  | array hlen htype hitems =>
    rename_i elem items
    apply (reads_field32 elem.code_lt).bind
    rw [UInt32.toNat_ofNat_of_lt' elem.code_lt]
    apply (reads_field64 hlen).bind
    rw [UInt64.toNat_ofNat_of_lt' hlen]
    exact (reads_elements f64AsF32 htype hitems h).map GgufValue.array
  | uint64 v => exact (reads_u64 v).map _
  | int64 v => exact (reads_u64 v.toUInt64).map _
  | float64 bits =>
    have h := Reads.number ReadError.unexpectedEof (n := 8) bits.toNat_lt
      fun k => GgufValue.f32 (f64AsF32 (.ofNat k))
    rwa [UInt64.ofNat_toNat] at h

theorem reads_value {v : Value} (hwf : v.WellFormed) (h : v.InStep) :
    Reads (readValue f64AsF32) v.encode (v.decoded f64AsF32) := by
  unfold readValue Value.encode
  apply (reads_field32 v.type.code_lt).bind
  rw [UInt32.toNat_ofNat_of_lt' v.type.code_lt]
  exact reads_payload f64AsF32 hwf h

/-- The entry that `open` makes of a pair. -/
def Pair.decoded (p : Pair) : Str × GgufValue := (Str.lossy p.key, p.value.decoded f64AsF32)

theorem reads_pair {p : Pair} (h : p.value.InStep) :
    Reads (readPair f64AsF32) p.encode (p.decoded f64AsF32) := by
  unfold readPair Pair.encode
  apply (reads_string p.key_lt).bind
  exact (reads_value f64AsF32 p.wellFormed h).map fun v => (Str.lossy p.key, v)

/-! ## Values out of step -/

/-- Every element without a row is taken to be four bytes wide. -/
theorem takes_element {t : GgufValueType} (h : ¬ t.HasElementRow) :
    Takes (readValueOfType t.code) 4 := by
  have hother : Takes (readBuf 4 >>= fun _ => (pure .other : Reader GgufValue)) 4 :=
    (Takes.exact _ 4).map fun _ => GgufValue.other
  cases t with
  | int8 | uint16 | int16 | bool | array | int64 | float64 => exact hother
  | uint8 | uint32 | int32 | float32 | string | uint64 => exact absurd (of_decide_eq_true rfl) h

/-- None of these elements is four bytes wide, and all of one type are narrower, or all are
wider. -/
theorem length_payload {t : GgufValueType} (h : ¬ t.HasElementRow) :
    (∀ v : Value, v.type = t → v.payload.length < 4) ∨
      ∀ v : Value, v.type = t → 4 < v.payload.length := by
  cases t with
  | int8 | uint16 | int16 | bool =>
    apply Or.inl
    intro v hv
    cases v <;> cases hv
    simp [Value.payload]
  | array | int64 | float64 =>
    apply Or.inr
    intro v hv
    cases v <;> cases hv
    simp [Value.payload]
  | uint8 | uint32 | int32 | float32 | string | uint64 => exact absurd (of_decide_eq_true rfl) h

/-- Elements without a row are not read to their end. -/
theorem length_payloads_ne {elem : GgufValueType} {items : List Value} (hne : items ≠ [])
    (h : ¬ elem.HasElementRow) (htype : ∀ v ∈ items, v.type = elem) :
    (Value.payloads items).length ≠ items.length * 4 := by
  have hfour : items.length * 4 = (items.map fun _ => 4).sum := by
    rw [List.map_const', List.sum_replicate, smul_eq_mul]
  rw [Value.payloads_eq, List.length_flatMap, hfour]
  rcases length_payload h with hlt | hgt
  · apply Nat.ne_of_lt
    exact List.sum_lt_sum_of_ne_nil hne _ _ fun v hv => hlt v (htype v hv)
  · apply Nat.ne_of_gt
    exact List.sum_lt_sum_of_ne_nil hne _ _ fun v hv => hgt v (htype v hv)

/-- The only value that is not in step is a non-empty array of elements without a row. -/
theorem not_inStep {v : Value} (h : ¬ v.InStep) :
    ∃ elem items, v = .array elem items ∧ items ≠ [] ∧ ¬ elem.HasElementRow := by
  cases v with
  | array elem items => exact ⟨elem, items, rfl, not_or.mp h⟩
  | _ => exact absurd trivial h

/-- After a value out of step the reader is not where the value ends. -/
theorem readValue_out_of_step {v : Value} (hwf : v.WellFormed) (h : ¬ v.InStep)
    (rest : List UInt8) (value : GgufValue) :
    readValue f64AsF32 (v.encode ++ rest) ≠ .ok (value, rest) := by
  obtain ⟨elem, items, rfl, hne, hrow⟩ := not_inStep h
  cases hwf with
  | array hlen htype hitems =>
    intro hread
    rw [readValue, Value.encode, List.append_assoc,
      (reads_field32 (GgufValueType.code_lt _)).run_bind] at hread
    change readPayload f64AsF32 9 _ = _ at hread
    rw [readPayload, Value.payload, List.append_assoc, List.append_assoc,
      (reads_field32 elem.code_lt).run_bind, (reads_field64 hlen).run_bind,
      UInt32.toNat_ofNat_of_lt' elem.code_lt, UInt64.toNat_ofNat_of_lt' hlen] at hread
    obtain ⟨arr, rest', htimes, hpure⟩ := bind_eq_ok.mp hread
    obtain ⟨-, rfl⟩ := pure_eq_ok.mp hpure
    have htakes := (takes_element hrow).times items.length _ _ _ htimes
    rw [List.length_append] at htakes
    exact length_payloads_ne hne hrow htype (by omega)

/-! ## Pairs -/

/-- A pair is read to its end exactly when its value is in step. -/
theorem readPair_iff (p : Pair) (rest : List UInt8) :
    (∃ entry, readPair f64AsF32 (p.encode ++ rest) = .ok (entry, rest)) ↔ p.value.InStep := by
  constructor
  · rintro ⟨entry, hread⟩
    by_contra h
    rw [readPair, Pair.encode, List.append_assoc, (reads_string p.key_lt).run_bind] at hread
    obtain ⟨value, rest', hvalue, hpure⟩ := bind_eq_ok.mp hread
    obtain ⟨-, rfl⟩ := pure_eq_ok.mp hpure
    exact readValue_out_of_step f64AsF32 p.wellFormed h _ value hvalue
  · intro h
    exact ⟨p.decoded f64AsF32, reads_pair f64AsF32 h rest⟩

/-- After its first `k` rounds the metadata loop stands where the first `k` pairs end. -/
def ReadsAt (pairs : List Pair) (rest : List UInt8) (k : Nat) : Prop :=
  ∃ entries, times (readPair f64AsF32) k (encodePairs pairs ++ rest) =
    .ok (entries, encodePairs (pairs.drop k) ++ rest)

theorem readsAt_zero (pairs : List Pair) (rest : List UInt8) :
    ReadsAt f64AsF32 pairs rest 0 := ⟨[], rfl⟩

theorem readsAt_succ {p : Pair} {pairs : List Pair} {rest : List UInt8} {k : Nat}
    (h : p.value.InStep) :
    ReadsAt f64AsF32 (p :: pairs) rest (k + 1) ↔ ReadsAt f64AsF32 pairs rest k := by
  unfold ReadsAt
  rw [encodePairs_cons, List.append_assoc, times, (reads_pair f64AsF32 h).run_bind,
    List.drop_succ_cons]
  constructor
  · rintro ⟨entries, hread⟩
    obtain ⟨entries', rest', htimes, hpure⟩ := bind_eq_ok.mp hread
    obtain ⟨-, hrest⟩ := pure_eq_ok.mp hpure
    rw [hrest]
    exact ⟨entries', htimes⟩
  · rintro ⟨entries, hread⟩
    exact ⟨_, bind_eq_ok.mpr ⟨entries, _, hread, rfl⟩⟩

/-- The pairs of a file are read at their true positions exactly when no value is out of
step. -/
theorem reads_pairs_iff (pairs : List Pair) (rest : List UInt8) :
    (∀ k ≤ pairs.length, ReadsAt f64AsF32 pairs rest k) ↔ ∀ p ∈ pairs, p.value.InStep := by
  induction pairs with
  | nil =>
    constructor
    · intro _ p hp
      cases hp
    · intro _ k hk
      rw [Nat.le_zero.mp hk]
      exact readsAt_zero f64AsF32 [] rest
  | cons p pairs ih =>
    constructor
    · intro h
      have hp : p.value.InStep := by
        obtain ⟨entries, hread⟩ := h 1 (by simp)
        obtain ⟨entry, rest', hfirst, hpure⟩ := bind_eq_ok.mp hread
        obtain ⟨-, hrest⟩ := pure_eq_ok.mp hpure
        subst hrest
        rw [encodePairs_cons, List.append_assoc] at hfirst
        exact (readPair_iff f64AsF32 p _).mp ⟨entry, hfirst⟩
      have hs := ih.mp fun k hk => (readsAt_succ f64AsF32 hp).mp (h (k + 1) (by simpa using hk))
      exact List.forall_mem_cons.mpr ⟨hp, hs⟩
    · intro h k hk
      obtain ⟨hp, hs⟩ := List.forall_mem_cons.mp h
      cases k with
      | zero => exact readsAt_zero f64AsF32 _ rest
      | succ k =>
        apply (readsAt_succ f64AsF32 hp).mpr
        exact ih.mpr hs k (by simpa using hk)

/-- An array with one `bool`. -/
def flagPair : Pair where
  key := [0x6B]
  value := .array .bool [.bool true]
  key_lt := by decide
  wellFormed := by
    apply Value.WellFormed.array (by decide)
    · intro v hv
      rw [List.mem_singleton.mp hv]
      rfl
    · intro v hv
      rw [List.mem_singleton.mp hv]
      exact .bool true

theorem flagPair_out_of_step :
    ¬ ∀ k ≤ [flagPair].length, ReadsAt (fun _ => 0) [flagPair] [] k := by
  intro h
  obtain ⟨entries, hread⟩ := h 1 (Nat.le_refl 1)
  have hfail : times (readPair fun _ => 0) 1 (encodePairs [flagPair] ++ []) =
      .error .unexpectedEof := rfl
  rw [hfail] at hread
  cases hread

/-! ## The whole file -/

theorem reads_fromU32 (t : GgmlType) :
    Reads (liftM (GgmlType.fromU32 t.code) : Reader GgmlType) [] t := by
  cases t <;> exact Reads.pure _

/-- The entry that `open` makes of an entry of the directory. -/
def TensorEntry.info (t : TensorEntry) : GgufTensorInfo where
  name := Str.lossy t.name
  shape := t.shape
  dtype := t.dtype
  offset := t.offset

theorem reads_tensorInfo (t : TensorEntry) : Reads readTensorInfo t.encode t.info := by
  have hcode : t.dtype.code < 2 ^ 32 := by cases t.dtype <;> decide
  unfold readTensorInfo TensorEntry.encode
  apply (reads_string t.name_lt).bind
  apply (reads_field32 t.shape_lt).bind
  rw [UInt32.toNat_ofNat_of_lt' t.shape_lt]
  have hshape : Reads (times readU64 t.shape.length)
      (t.shape.flatMap fun d => LittleEndian.toBytes 8 d.toNat) (t.shape.map id) :=
    Reads.times fun d _ => reads_u64 d
  rw [List.map_id] at hshape
  apply hshape.bind
  apply (reads_field32 hcode).bind
  rw [UInt32.toNat_ofNat_of_lt' hcode]
  apply (reads_fromU32 t.dtype).bind
  exact (reads_u64 t.offset).map _

theorem reads_header (c : Contents) : Reads readHeader c.encodeHeader
    (c.version, .ofNat c.tensors.length, .ofNat c.pairs.length) := by
  unfold readHeader Contents.encodeHeader
  apply (reads_u32 ggufMagic).bind
  rw [if_neg (not_not_intro rfl)]
  apply (reads_u32 c.version).bind
  rw [if_neg (not_not_intro c.supported)]
  apply (reads_field64 c.tensors_lt).bind
  exact (reads_field64 c.pairs_lt).map _

/-- When every value is in step, `open` finds the whole directory and the data section. -/
theorem openFile_encode (c : Contents) (h : ∀ p ∈ c.pairs, p.value.InStep) (data : List UInt8) :
    GgufFile.openFile f64AsF32 (c.encode ++ data) = .ok
      { version := c.version
        metadata := metadataOf (c.pairs.map (Pair.decoded f64AsF32))
        tensors := tensorsOf (c.tensors.map TensorEntry.info)
        dataOffset := (c.encode.length + 31) / 32 * 32 } := by
  have hpairs := Reads.times fun p hp => reads_pair f64AsF32 (h p hp)
  have htensors := Reads.times fun t (_ : t ∈ c.tensors) => reads_tensorInfo t
  have hdir : Reads (readDirectory f64AsF32) c.encode (c.version,
      metadataOf (c.pairs.map (Pair.decoded f64AsF32)),
      tensorsOf (c.tensors.map TensorEntry.info)) := by
    unfold readDirectory Contents.encode
    apply (reads_header c).bind
    apply Reads.bind (a := c.pairs.map (Pair.decoded f64AsF32))
    · rwa [UInt64.toNat_ofNat_of_lt' c.pairs_lt]
    · rw [UInt64.toNat_ofNat_of_lt' c.tensors_lt]
      exact htensors.map _
  have hpos : (c.encode ++ data).length - data.length = c.encode.length := by
    rw [List.length_append, Nat.add_sub_cancel]
  unfold GgufFile.openFile
  rw [hdir data]
  simp only [Except.map, hpos]

end Arle.Gguf
