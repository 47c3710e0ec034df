import Arle.Lib.Framing
import Arle.Lib.LittleEndian
import Arle.Lib.Word

/-!
# The write-ahead log

`wal_append`, `wal_replay` and `decode_wal_records` of `crates/kv-native-sys/src/lib.rs`. A
file is the list of its bytes; opening and writing it are taken to succeed.
-/

namespace Arle.KvNativeSys

/-- The kinds of `io::Error` that the codec makes itself. -/
inductive ErrorKind
  | invalidInput
  | invalidData
deriving DecidableEq, Repr

structure IoError where
  kind : ErrorKind
  message : String
deriving DecidableEq, Repr

structure KvWalRecord where
  kind : UInt8
  key : List UInt8
  value : List UInt8
deriving DecidableEq, Repr

/-- `WAL_MAGIC`, the bytes of `KVWAL001`. -/
def walMagic : List UInt8 := [0x4B, 0x56, 0x57, 0x41, 0x4C, 0x30, 0x30, 0x31]

/-- The header and the two parts of a record. -/
def KvWalRecord.encode (record : KvWalRecord) : List UInt8 :=
  record.kind :: (LittleEndian.toBytes 4 record.key.length ++
    (LittleEndian.toBytes 4 record.value.length ++ (record.key ++ record.value)))

/-- `wal_append`: the bytes of the file after it. -/
def walAppend (file : List UInt8) (record : KvWalRecord) : Except IoError (List UInt8) :=
  if record.key.length > Word.maxVal 32 ∨ record.value.length > Word.maxVal 32 then
    .error ⟨.invalidInput, "wal_append: key/value exceeds u32::MAX"⟩
  else
    let file := if file.length = 0 then file ++ walMagic else file
    .ok (file ++ record.encode)

/-- The bytes `bytes[start..start + len]`. -/
def slice (bytes : List UInt8) (start len : Nat) : List UInt8 := (bytes.drop start).take len

/-- The body of the loop of `decode_wal_records`: the record at the cursor, and the cursor
behind it. -/
def decodeRecord (bytes : List UInt8) (cursor : Nat) : Except IoError (KvWalRecord × Nat) :=
  if h : cursor + 9 > bytes.length then
    .error ⟨.invalidData, "kv wal replay: truncated record header"⟩
  else
    let kind := bytes.get ⟨cursor, by omega⟩
    let keyLen := LittleEndian.ofBytes (slice bytes (cursor + 1) 4)
    let valueLen := LittleEndian.ofBytes (slice bytes (cursor + 5) 4)
    let cursor := cursor + 9
    if cursor + keyLen + valueLen > bytes.length then
      .error ⟨.invalidData, "kv wal replay: truncated record payload"⟩
    else
      .ok (⟨kind, slice bytes cursor keyLen, slice bytes (cursor + keyLen) valueLen⟩,
        cursor + keyLen + valueLen)

theorem decodeRecord_lt {bytes : List UInt8} {cursor cursor' : Nat} {record : KvWalRecord}
    (h : decodeRecord bytes cursor = .ok (record, cursor')) :
    cursor < cursor' ∧ cursor' ≤ bytes.length := by
  rw [decodeRecord] at h
  split at h
  · cases h
  · dsimp only at h
    split at h
    · cases h
    · cases h
      omega

/-- The loop of `decode_wal_records`. -/
def decodeLoop (bytes : List UInt8) (cursor : Nat) (records : List KvWalRecord) :
    Except IoError (List KvWalRecord) :=
  if cursor < bytes.length then
    match h : decodeRecord bytes cursor with
    | .error err => .error err
    | .ok (record, cursor') =>
      have := decodeRecord_lt h
      decodeLoop bytes cursor' (records ++ [record])
  else .ok records
termination_by bytes.length - cursor

/-- `decode_wal_records`. -/
def decodeWalRecords (bytes : List UInt8) : Except IoError (List KvWalRecord) :=
  if bytes = [] then .ok []
  else if bytes.length < walMagic.length ∨ bytes.take walMagic.length ≠ walMagic then
    .error ⟨.invalidData, "kv wal replay: invalid magic"⟩
  else decodeLoop bytes walMagic.length []

/-- `wal_replay` of a file, or of no file. -/
def walReplay : Option (List UInt8) → Except IoError (List KvWalRecord)
  | none => .ok []
  | some bytes => if bytes = [] then .ok [] else decodeWalRecords bytes

/-- Append records to a file, one by one. -/
def walAppendAll : List UInt8 → List KvWalRecord → Except IoError (List UInt8)
  | file, [] => .ok file
  | file, record :: records =>
    match walAppend file record with
    | .error err => .error err
    | .ok file => walAppendAll file records

/-! ## Records as frames -/

/-- The record fits the two lengths of its header. -/
def KvWalRecord.Fits (record : KvWalRecord) : Prop :=
  record.key.length ≤ Word.maxVal 32 ∧ record.value.length ≤ Word.maxVal 32

section Frames

variable {kind : UInt8} {a b rest : List UInt8}

theorem split_header {bytes : List UInt8} (h : 9 ≤ bytes.length) : ∃ kind a b rest,
    a.length = 4 ∧ b.length = 4 ∧ bytes = kind :: (a ++ (b ++ rest)) := by
  cases bytes with
  | nil => exact absurd h (by decide)
  | cons kind bytes =>
    rw [List.length_cons] at h
    refine ⟨kind, bytes.take 4, (bytes.drop 4).take 4, (bytes.drop 4).drop 4, ?_, ?_, ?_⟩
    · rw [List.length_take]
      omega
    · rw [List.length_take, List.length_drop]
      omega
    · rw [List.take_append_drop, List.take_append_drop]

theorem drop_header (ha : a.length = 4) (hb : b.length = 4) (n : Nat) :
    (kind :: (a ++ (b ++ rest))).drop (9 + n) = rest.drop n := by
  rw [show 9 + n = (a ++ b).length + n + 1 by rw [List.length_append]; omega,
    List.drop_succ_cons, ← List.append_assoc, List.drop_length_add_append]

/-- The first record of a string that has a header. -/
theorem decodeRecord_header (ha : a.length = 4) (hb : b.length = 4) :
    decodeRecord (kind :: (a ++ (b ++ rest))) 0 =
      if LittleEndian.ofBytes a + LittleEndian.ofBytes b > rest.length then
        .error ⟨.invalidData, "kv wal replay: truncated record payload"⟩
      else .ok (⟨kind, rest.take (LittleEndian.ofBytes a),
          (rest.drop (LittleEndian.ofBytes a)).take (LittleEndian.ofBytes b)⟩,
        9 + LittleEndian.ofBytes a + LittleEndian.ofBytes b) := by
  have hlen : (kind :: (a ++ (b ++ rest))).length = 9 + rest.length := by
    simp only [List.length_cons, List.length_append, ha, hb]
    omega
  have hfirst : slice (kind :: (a ++ (b ++ rest))) (0 + 1) 4 = a := List.take_left' ha
  have hsecond : slice (kind :: (a ++ (b ++ rest))) (0 + 5) 4 = b := by
    rw [slice, show 0 + 5 = a.length + 1 by omega, List.drop_succ_cons, List.drop_left,
      List.take_left' hb]
  have hrest : ∀ n, (kind :: (a ++ (b ++ rest))).drop (0 + 9 + n) = rest.drop n := fun n =>
    (Nat.zero_add 9).symm ▸ drop_header ha hb n
  have hstart : (kind :: (a ++ (b ++ rest))).drop (0 + 9) = rest := hrest 0
  rw [decodeRecord, dif_neg (by omega)]
  simp only [hfirst, hsecond]
  by_cases hlong : LittleEndian.ofBytes a + LittleEndian.ofBytes b > rest.length
  · rw [if_pos hlong, if_pos (by omega)]
  · rw [if_neg hlong, if_neg (by omega), slice, slice, hrest, hstart]
    congr 3

/-- A written record is read back. -/
theorem decodeRecord_encode {record : KvWalRecord} (h : record.Fits) (rest : List UInt8) :
    decodeRecord (record.encode ++ rest) 0 = .ok (record, record.encode.length) := by
  obtain ⟨hkey, hvalue⟩ := h
  have hmax : Word.maxVal 32 < 256 ^ 4 := by decide
  have hkey := LittleEndian.ofBytes_toBytes (Nat.lt_of_le_of_lt hkey hmax)
  have hvalue := LittleEndian.ofBytes_toBytes (Nat.lt_of_le_of_lt hvalue hmax)
  rw [KvWalRecord.encode, List.cons_append, List.append_assoc, List.append_assoc,
    decodeRecord_header (LittleEndian.length_toBytes 4 _) (LittleEndian.length_toBytes 4 _),
    hkey, hvalue, if_neg (by simp), List.append_assoc, List.take_left, List.drop_left,
    List.take_left]
  congr 2
  simp only [List.length_cons, List.length_append, LittleEndian.length_toBytes]
  omega

/-- A record that is read is what was written. -/
theorem encode_of_decodeRecord {bytes : List UInt8} {record : KvWalRecord} {cursor : Nat}
    (h : decodeRecord bytes 0 = .ok (record, cursor)) :
    record.Fits ∧ bytes = record.encode ++ bytes.drop cursor := by
  have hheader : 9 ≤ bytes.length := by
    by_contra hshort
    rw [decodeRecord, dif_pos (by omega)] at h
    cases h
  obtain ⟨kind, a, b, rest, ha, hb, rfl⟩ := split_header hheader
  rw [decodeRecord_header ha hb] at h
  split at h
  · cases h
  · rename_i hlong
    cases h
    have hkey : (rest.take (LittleEndian.ofBytes a)).length = LittleEndian.ofBytes a := by
      rw [List.length_take]
      omega
    have hvalue : ((rest.drop (LittleEndian.ofBytes a)).take (LittleEndian.ofBytes b)).length =
        LittleEndian.ofBytes b := by
      rw [List.length_take, List.length_drop]
      omega
    have hfits : ∀ bs : List UInt8, bs.length = 4 → LittleEndian.ofBytes bs ≤ Word.maxVal 32 := by
      intro bs hbs
      have := LittleEndian.ofBytes_lt bs
      rw [hbs] at this
      exact Nat.le_pred_of_lt this
    refine ⟨⟨Nat.le_trans (Nat.le_of_eq hkey) (hfits a ha),
      Nat.le_trans (Nat.le_of_eq hvalue) (hfits b hb)⟩, ?_⟩
    have hcode : ∀ bs : List UInt8, bs.length = 4 →
        LittleEndian.toBytes 4 (LittleEndian.ofBytes bs) = bs := by
      intro bs hbs
      have := LittleEndian.toBytes_ofBytes bs
      rwa [hbs] at this
    rw [KvWalRecord.encode, hkey, hvalue, hcode a ha, hcode b hb, Nat.add_assoc,
      drop_header ha hb, ← List.drop_drop]
    simp only [List.cons_append, List.append_assoc, List.take_append_drop]

/-- The frames of the log, read from the start of a string. -/
def walFraming : Framing KvWalRecord UInt8 IoError where
  Valid := KvWalRecord.Fits
  encode := KvWalRecord.encode
  next bytes := (decodeRecord bytes 0).map fun (record, cursor) => (record, bytes.drop cursor)
  encode_ne _ := List.cons_ne_nil _ _
  next_encode h rest := by
    rw [decodeRecord_encode h]
    simp only [Except.map, List.drop_left]
  of_next {bytes record rest} h := by
    cases hread : decodeRecord bytes 0 with
    | error err =>
      rw [hread] at h
      cases h
    | ok pair =>
      obtain ⟨record', cursor⟩ := pair
      rw [hread] at h
      cases h
      exact encode_of_decodeRecord hread

/-- Reading at the cursor is reading the string behind it. -/
theorem decodeRecord_drop {bytes : List UInt8} {cursor : Nat} (h : cursor ≤ bytes.length) :
    decodeRecord bytes cursor =
      (decodeRecord (bytes.drop cursor) 0).map fun (record, n) => (record, cursor + n) := by
  have hslice : ∀ n len, slice (bytes.drop cursor) n len = slice bytes (cursor + n) len := by
    intro n len
    rw [slice, slice, List.drop_drop]
  have hlen := List.length_drop (l := bytes) (i := cursor)
  rw [decodeRecord, decodeRecord]
  by_cases hshort : cursor + 9 > bytes.length
  · rw [dif_pos hshort, dif_pos (by omega)]
    rfl
  · rw [dif_neg hshort, dif_neg (by omega)]
    have hget : (bytes.drop cursor).get ⟨0, by omega⟩ = bytes.get ⟨cursor, by omega⟩ := by
      simp only [List.get_eq_getElem, List.getElem_drop, Nat.add_zero]
    simp only [hslice, hget, Nat.zero_add, ← Nat.add_assoc]
    generalize LittleEndian.ofBytes (slice bytes (cursor + 1) 4) = keyLen
    generalize LittleEndian.ofBytes (slice bytes (cursor + 5) 4) = valueLen
    by_cases hlong : cursor + 9 + keyLen + valueLen > bytes.length
    · rw [if_pos hlong, if_pos (by omega)]
      rfl
    · rw [if_neg hlong, if_neg (by omega)]
      simp only [Except.map, Nat.add_assoc]

/-- The loop reads the frames behind the cursor. -/
theorem decodeLoop_eq {bytes : List UInt8} {cursor : Nat} {records : List KvWalRecord}
    (h : cursor ≤ bytes.length) : decodeLoop bytes cursor records =
      (walFraming.readAll (bytes.drop cursor)).map (records ++ ·) := by
  induction hn : bytes.length - cursor using Nat.strongRecOn generalizing cursor records with
  | ind n ih =>
    have hlen := List.length_drop (l := bytes) (i := cursor)
    rw [decodeLoop]
    by_cases hend : cursor < bytes.length
    · have hne : bytes.drop cursor ≠ [] := fun hnil => by
        rw [hnil, List.length_nil] at hlen
        omega
      rw [if_pos hend]
      cases hread : decodeRecord (bytes.drop cursor) 0 with
      | error err =>
        have hnext : walFraming.next (bytes.drop cursor) = .error err := by
          simp only [walFraming, hread, Except.map]
        rw [walFraming.readAll_error hne hnext]
        have hat : decodeRecord bytes cursor = .error err := by
          rw [decodeRecord_drop h, hread]
          rfl
        split
        · rename_i hat'
          rw [hat] at hat'
          cases hat'
          rfl
        · rename_i hat'
          rw [hat] at hat'
          cases hat'
      | ok pair =>
        obtain ⟨record, n⟩ := pair
        have hnext : walFraming.next (bytes.drop cursor) =
            .ok (record, bytes.drop (cursor + n)) := by
          simp only [walFraming, hread, Except.map, List.drop_drop]
        have hat : decodeRecord bytes cursor = .ok (record, cursor + n) := by
          rw [decodeRecord_drop h, hread]
          rfl
        have hbounds := decodeRecord_lt hat
        rw [walFraming.readAll_ok hnext]
        split
        · rename_i hat'
          rw [hat] at hat'
          cases hat'
        · rename_i hat'
          rw [hat] at hat'
          cases hat'
          rw [ih _ (by omega) hbounds.2 rfl]
          cases walFraming.readAll (bytes.drop (cursor + n)) with
          | error err => rfl
          | ok rest => simp [Except.map]
    · rw [if_neg hend, List.drop_eq_nil_of_le (Nat.not_lt.mp hend), walFraming.readAll_nil]
      simp [Except.map]

theorem decodeRecord_error {bytes : List UInt8} {cursor : Nat} {err : IoError}
    (h : decodeRecord bytes cursor = .error err) : err.kind = .invalidData := by
  rw [decodeRecord] at h
  split at h
  · cases h
    rfl
  · dsimp only at h
    split at h
    · cases h
      rfl
    · cases h

end Frames

/-! ## Logs -/

/-- The log of some records. -/
def walLog (records : List KvWalRecord) : List UInt8 := walMagic ++ walFraming.frames records

section Logs

variable {bytes : List UInt8} {records : List KvWalRecord}

theorem walLog_ne (records : List KvWalRecord) : walLog records ≠ [] := List.cons_ne_nil _ _

/-- The decoder reads the frames behind the magic. -/
theorem decodeWalRecords_magic (bytes : List UInt8) :
    decodeWalRecords (walMagic ++ bytes) = walFraming.readAll bytes := by
  have hne : walMagic ++ bytes ≠ [] := List.cons_ne_nil _ _
  have hmagic : ¬ ((walMagic ++ bytes).length < walMagic.length ∨
      (walMagic ++ bytes).take walMagic.length ≠ walMagic) := by
    rw [List.length_append, List.take_left]
    exact fun h => h.elim (Nat.not_lt_of_le (Nat.le_add_right _ _)) fun hne => hne rfl
  rw [decodeWalRecords, if_neg hne, if_neg hmagic,
    decodeLoop_eq (List.length_append ▸ Nat.le_add_right _ _), List.drop_left]
  cases walFraming.readAll bytes <;> rfl

/-- What the decoder accepts starts with the magic. -/
theorem decodeWalRecords_cases (hne : bytes ≠ []) :
    decodeWalRecords bytes = .error ⟨.invalidData, "kv wal replay: invalid magic"⟩ ∨
      ∃ rest, bytes = walMagic ++ rest := by
  rw [decodeWalRecords, if_neg hne]
  split
  · exact Or.inl rfl
  · rename_i hmagic
    refine Or.inr ⟨bytes.drop walMagic.length, ?_⟩
    have htake : bytes.take walMagic.length = walMagic := by
      by_contra h
      exact hmagic (Or.inr h)
    exact ((List.take_append_drop walMagic.length bytes).symm.trans (by rw [htake]))

/-- The errors of the decoder are of the kind `InvalidData`. -/
theorem decodeWalRecords_error {err : IoError} (h : decodeWalRecords bytes = .error err) :
    err.kind = .invalidData := by
  by_cases hne : bytes = []
  · rw [decodeWalRecords, if_pos hne] at h
    cases h
  · rcases decodeWalRecords_cases hne with hmagic | ⟨rest, rfl⟩
    · rw [hmagic] at h
      cases h
      rfl
    · rw [decodeWalRecords_magic] at h
      refine walFraming.of_readAll_error (P := fun err => err.kind = .invalidData)
        (fun bytes err hnext => ?_) h
      cases hread : decodeRecord bytes 0 with
      | error err' =>
        simp only [walFraming, hread, Except.map] at hnext
        cases hnext
        exact decodeRecord_error hread
      | ok pair =>
        simp only [walFraming, hread, Except.map] at hnext
        cases hnext

/-- What the decoder accepts is the log of what it returns. -/
theorem walLog_of_decode (hne : bytes ≠ []) (h : decodeWalRecords bytes = .ok records) :
    (∀ r ∈ records, r.Fits) ∧ bytes = walLog records := by
  rcases decodeWalRecords_cases hne with hmagic | ⟨rest, rfl⟩
  · rw [hmagic] at h
    cases h
  · rw [decodeWalRecords_magic] at h
    obtain ⟨hfits, hframes⟩ := walFraming.of_readAll h
    exact ⟨hfits, by rw [walLog, hframes]⟩

/-- Appending to a file that is not empty. -/
theorem walAppendAll_of_ne (hfits : ∀ r ∈ records, r.Fits) (hne : bytes ≠ []) :
    walAppendAll bytes records = .ok (bytes ++ walFraming.frames records) := by
  induction records generalizing bytes with
  | nil => rw [walAppendAll, Framing.frames_nil, List.append_nil]
  | cons record records ih =>
    obtain ⟨hkey, hvalue⟩ := hfits record List.mem_cons_self
    have happend : walAppend bytes record = .ok (bytes ++ record.encode) := by
      rw [walAppend, if_neg (by omega)]
      simp only [if_neg (mt List.length_eq_zero_iff.mp hne)]
    have hne' : bytes ++ record.encode ≠ [] := fun h => hne (List.append_eq_nil_iff.mp h).1
    simp only [walAppendAll, happend]
    rw [ih (fun r hr => hfits r (List.mem_cons_of_mem _ hr)) hne', List.append_assoc]
    rfl

/-- Appending to a fresh file. -/
theorem walAppendAll_fresh (hfits : ∀ r ∈ records, r.Fits) :
    walAppendAll [] records = .ok (if records = [] then [] else walLog records) := by
  cases records with
  | nil => rfl
  | cons record records =>
    obtain ⟨hkey, hvalue⟩ := hfits record List.mem_cons_self
    have happend : walAppend [] record = .ok (walMagic ++ record.encode) := by
      rw [walAppend, if_neg (by omega)]
      rfl
    have hne : walMagic ++ record.encode ≠ [] := List.cons_ne_nil _ _
    simp only [walAppendAll, happend]
    rw [walAppendAll_of_ne (fun r hr => hfits r (List.mem_cons_of_mem _ hr)) hne,
      if_neg (List.cons_ne_nil _ _), List.append_assoc]
    rfl

/-- Appended records are read back, from the whole log and, as far as they go, from a part of
it; and nothing else is read. -/
theorem wal_codec (hfits : ∀ r ∈ records, r.Fits) :
    (∃ log, walAppendAll [] records = .ok log ∧ decodeWalRecords log = .ok records ∧
      walReplay (some log) = .ok records ∧
      ∀ part, part <+: log →
        (∃ err, decodeWalRecords part = .error err ∧ err.kind = .invalidData) ∨
        ∃ read, decodeWalRecords part = .ok read ∧ read <+: records) ∧
    ∀ bytes read, bytes ≠ [] → decodeWalRecords bytes = .ok read →
      bytes = walLog read ∧ (read ≠ [] → walAppendAll [] read = .ok bytes) := by
  refine ⟨⟨_, walAppendAll_fresh hfits, ?_⟩, fun bytes read hne hread => ?_⟩
  · by_cases hnil : records = []
    · rw [if_pos hnil, hnil]
      refine ⟨rfl, rfl, fun part hpart => Or.inr ⟨[], ?_, List.nil_prefix⟩⟩
      rw [List.prefix_nil.mp hpart]
      rfl
    · have hdecode : decodeWalRecords (walLog records) = .ok records := by
        rw [walLog, decodeWalRecords_magic, walFraming.readAll_frames hfits]
      rw [if_neg hnil]
      refine ⟨hdecode, by rw [walReplay, if_neg (walLog_ne records), hdecode], ?_⟩
      rintro part ⟨tail, hpart⟩
      by_cases hne : part = []
      · exact Or.inr ⟨[], by rw [hne]; rfl, List.nil_prefix⟩
      cases hread : decodeWalRecords part with
      | error err => exact Or.inl ⟨err, rfl, decodeWalRecords_error hread⟩
      | ok read =>
        obtain ⟨hread', rfl⟩ := walLog_of_decode hne hread
        rw [walLog, walLog, List.append_assoc] at hpart
        exact Or.inr ⟨read, rfl,
          walFraming.prefix_of_frames hfits hread' (List.append_cancel_left hpart)⟩
  · obtain ⟨hread', hlog⟩ := walLog_of_decode hne hread
    exact ⟨hlog, fun hsome => by rw [walAppendAll_fresh hread', if_neg hsome, hlog]⟩

/-- The two records of the test. -/
theorem wal_codec_two : ∃ log, walAppendAll []
      [⟨1, [0x61], [0x70, 0x61]⟩, ⟨2, [0x62], []⟩] = .ok log ∧
    decodeWalRecords log = .ok [⟨1, [0x61], [0x70, 0x61]⟩, ⟨2, [0x62], []⟩] := by
  have hfits : ∀ r ∈ ([⟨1, [0x61], [0x70, 0x61]⟩, ⟨2, [0x62], []⟩] : List KvWalRecord),
      r.Fits := by
    simp [KvWalRecord.Fits, Word.maxVal]
  obtain ⟨⟨log, happend, hdecode, -⟩, -⟩ := wal_codec hfits
  exact ⟨log, happend, hdecode⟩

end Logs

end Arle.KvNativeSys
