import Mathlib
import Arle.Lib.Assoc
import Arle.Lib.ByteReader
import Arle.Lib.Utf8

/-!
# Reading a GGUF file

The binary readers of `infer/src/gguf.rs` and `GgufFile::open`. A file is the list of its
bytes, what is left of it is the state of a reader; allocating a buffer is taken to succeed.
An `f32` is kept as its bits, and the conversion of an `f64` is a parameter.
-/

namespace Arle.Gguf

open ByteReader

/-- The errors of the readers: `io::Error` from `read_exact` and `bail_io`, and `bail!`. -/
inductive ReadError
  | unexpectedEof
  | invalidData (message : String)
  | bail (message : String)
deriving DecidableEq, Repr

abbrev Reader := ByteReader ReadError

inductive GgmlType
  | f32 | f16 | q4_0 | q4_1 | q5_0 | q5_1 | q8_0 | q8_1
  | q2_k | q3_k | q4_k | q5_k | q6_k | q8_k
  | i8 | i16 | i32 | bf16
deriving DecidableEq, Repr

def GgmlType.fromU32 : Nat → Except ReadError GgmlType
  | 0 => .ok .f32
  | 1 => .ok .f16
  | 2 => .ok .q4_0
  | 3 => .ok .q4_1
  | 6 => .ok .q5_0
  | 7 => .ok .q5_1
  | 8 => .ok .q8_0
  | 9 => .ok .q8_1
  | 10 => .ok .q2_k
  | 11 => .ok .q3_k
  | 12 => .ok .q4_k
  | 13 => .ok .q5_k
  | 14 => .ok .q6_k
  | 15 => .ok .q8_k
  | 24 => .ok .i8
  | 25 => .ok .i16
  | 26 => .ok .i32
  | 30 => .ok .bf16
  | v => .error (.bail s!"unsupported GGML type: {v}")

/-- A parsed metadata value. -/
inductive GgufValue
  | u32 (v : UInt32)
  | i32 (v : Int32)
  | f32 (bits : UInt32)
  | u64 (v : UInt64)
  | bool (v : Bool)
  | str (s : Str)
  | array (items : List GgufValue)
  | other
deriving Repr

structure GgufTensorInfo where
  name : Str
  shape : List UInt64
  dtype : GgmlType
  offset : UInt64
deriving DecidableEq, Repr

structure GgufFile where
  version : UInt32
  metadata : Assoc Str GgufValue
  tensors : Assoc Str GgufTensorInfo
  dataOffset : Nat

/-! ## Binary readers -/

/-- `f.read_exact(&mut buf)` for a buffer of `n` bytes. -/
def readBuf (n : Nat) : Reader (List UInt8) := readExact .unexpectedEof n

def readU32 : Reader UInt32 := do
  let buf ← readBuf 4
  return .ofNat (LittleEndian.ofBytes buf)

def readU64 : Reader UInt64 := do
  let buf ← readBuf 8
  return .ofNat (LittleEndian.ofBytes buf)

def readI32 : Reader Int32 := do
  let buf ← readBuf 4
  return (UInt32.ofNat (LittleEndian.ofBytes buf)).toInt32

def readF32 : Reader UInt32 := do
  let buf ← readBuf 4
  return .ofNat (LittleEndian.ofBytes buf)

def readString : Reader Str := do
  let len ← readU64
  let buf ← readBuf len.toNat
  return Str.lossy buf

def bailIo {α : Type} (msg : String) : Reader α := throw (.invalidData msg)

/-- `read_value_of_type`: an element of an array, which has no type tag of its own. -/
def readValueOfType (vtype : Nat) : Reader GgufValue :=
  match vtype with
  | 0 => do
    let b ← readBuf 1
    return .u32 (.ofNat (LittleEndian.ofBytes b))
  | 4 => do
    let v ← readU32
    return .u32 v
  | 5 => do
    let v ← readI32
    return .i32 v
  | 6 => do
    let v ← readF32
    return .f32 v
  | 8 => do
    let s ← readString
    return .str s
  | 10 => do
    let v ← readU64
    return .u64 v
  | _ => do
    let _ ← readBuf 4
    return .other

variable (f64AsF32 : UInt64 → UInt32)

/-- The body of `read_value` after the type tag. -/
def readPayload (vtype : Nat) : Reader GgufValue :=
  match vtype with
  | 0 => do
    let b ← readBuf 1
    return .u32 (.ofNat (LittleEndian.ofBytes b))
  | 1 => do
    let b ← readBuf 1
    return .i32 (UInt8.ofNat (LittleEndian.ofBytes b)).toInt8.toInt32
  | 2 => do
    let b ← readBuf 2
    return .u32 (.ofNat (LittleEndian.ofBytes b))
  | 3 => do
    let b ← readBuf 2
    return .i32 (UInt16.ofNat (LittleEndian.ofBytes b)).toInt16.toInt32
  | 4 => do
    let v ← readU32
    return .u32 v
  | 5 => do
    let v ← readI32
    return .i32 v
  | 6 => do
    let v ← readF32
    return .f32 v
  | 7 => do
    let b ← readBuf 1
    return .bool (LittleEndian.ofBytes b != 0)
  | 8 => do
    let s ← readString
    return .str s
  | 9 => do
    let elemType ← readU32
    let len ← readU64
    -- each element has the type of the array, and no tag
    let arr ← times (readValueOfType elemType.toNat) len.toNat
    return .array arr
  | 10 => do
    let v ← readU64
    return .u64 v
  | 11 => do
    let v ← readU64
    return .i32 v.toInt64.toInt32
  | 12 => do
    let b ← readBuf 8
    return .f32 (f64AsF32 (.ofNat (LittleEndian.ofBytes b)))
  | vtype => bailIo s!"Unknown GGUF value type: {vtype}"

def readValue : Reader GgufValue := do
  let vtype ← readU32
  readPayload f64AsF32 vtype.toNat

/-! ## The file -/

/-- `GGUF_MAGIC`. -/
def ggufMagic : UInt32 := 0x46554747

/-- The number in the format `{:#x}`. -/
def hex (n : Nat) : String := "0x" ++ String.ofList (Nat.toDigits 16 n)

/-- One round of the metadata loop of `open`. -/
def readPair : Reader (Str × GgufValue) := do
  let key ← readString
  let value ← readValue f64AsF32
  return (key, value)

/-- One round of the loop over the tensor directory. -/
def readTensorInfo : Reader GgufTensorInfo := do
  let name ← readString
  let nDims ← readU32
  let shape ← times readU64 nDims.toNat
  let dtype ← readU32
  let dtype ← liftM (GgmlType.fromU32 dtype.toNat)
  let offset ← readU64
  return { name, shape, dtype, offset }

/-- The checks on the header; the two counts. -/
def readHeader : Reader (UInt32 × UInt64 × UInt64) := do
  let magic ← readU32
  if magic ≠ ggufMagic then
    let found := hex magic.toNat
    let expected := hex ggufMagic.toNat
    throw (.bail s!"Not a GGUF file: magic={found} (expected {expected})")
  let version ← readU32
  if ¬ (2 ≤ version ∧ version ≤ 3) then
    throw (.bail s!"Unsupported GGUF version: {version} (expected 2 or 3)")
  let tensorCount ← readU64
  let metadataKvCount ← readU64
  return (version, tensorCount, metadataKvCount)

/-- The maps that the loops of `open` fill; a later key replaces an earlier one. -/
def metadataOf (pairs : List (Str × GgufValue)) : Assoc Str GgufValue :=
  pairs.foldl (fun metadata pair => metadata.insert pair.1 pair.2) ∅

def tensorsOf (infos : List GgufTensorInfo) : Assoc Str GgufTensorInfo :=
  infos.foldl (fun tensors info => tensors.insert info.name info) ∅

/-- What `open` reads before the data section. -/
def readDirectory : Reader (UInt32 × Assoc Str GgufValue × Assoc Str GgufTensorInfo) := do
  let (version, tensorCount, metadataKvCount) ← readHeader
  let pairs ← times (readPair f64AsF32) metadataKvCount.toNat
  let infos ← times readTensorInfo tensorCount.toNat
  return (version, metadataOf pairs, tensorsOf infos)

/-- `GgufFile::open` on the bytes of the file. -/
def GgufFile.openFile (file : List UInt8) : Except ReadError GgufFile :=
  (readDirectory f64AsF32 file).map fun ((version, metadata, tensors), rest) =>
    let curPos := file.length - rest.length
    -- the data section starts at the next multiple of 32
    { version, metadata, tensors, dataOffset := (curPos + 31) / 32 * 32 }

end Arle.Gguf
