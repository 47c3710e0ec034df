import Mathlib
import Arle.Gguf.Reader

/-!
# The layout of GGUF metadata

What a writer of the format puts into a file: every value after the code of its type, numbers
little-endian, a string after its length, an array as the type of its elements, their number
and the elements without tags.
-/

namespace Arle.Gguf

inductive GgufValueType
  | uint8 | int8 | uint16 | int16 | uint32 | int32 | float32 | bool | string | array
  | uint64 | int64 | float64
deriving DecidableEq, Repr

namespace GgufValueType

def code : GgufValueType → Nat
  | uint8 => 0
  | int8 => 1
  | uint16 => 2
  | int16 => 3
  | uint32 => 4
  | int32 => 5
  | float32 => 6
  | bool => 7
  | string => 8
  | array => 9
  | uint64 => 10
  | int64 => 11
  | float64 => 12

/-- The types that `read_value_of_type` has a row of its own for. -/
def HasElementRow (t : GgufValueType) : Prop :=
  t = uint8 ∨ t = uint32 ∨ t = int32 ∨ t = float32 ∨ t = string ∨ t = uint64

instance : DecidablePred HasElementRow := fun _ => inferInstanceAs (Decidable (_ ∨ _))

end GgufValueType

/-- A value of the format. A float is its bits, a string its bytes. -/
inductive Value
  | uint8 (v : UInt8)
  | int8 (v : Int8)
  | uint16 (v : UInt16)
  | int16 (v : Int16)
  | uint32 (v : UInt32)
  | int32 (v : Int32)
  | float32 (bits : UInt32)
  | bool (v : Bool)
  | string (bytes : List UInt8)
  | array (elem : GgufValueType) (items : List Value)
  | uint64 (v : UInt64)
  | int64 (v : Int64)
  | float64 (bits : UInt64)

namespace Value

def type : Value → GgufValueType
  | uint8 _ => .uint8
  | int8 _ => .int8
  | uint16 _ => .uint16
  | int16 _ => .int16
  | uint32 _ => .uint32
  | int32 _ => .int32
  | float32 _ => .float32
  | bool _ => .bool
  | string _ => .string
  | array _ _ => .array
  | uint64 _ => .uint64
  | int64 _ => .int64
  | float64 _ => .float64

/-- Lengths fit their field, and the elements of an array have its element type. -/
inductive WellFormed : Value → Prop
  | uint8 (v) : WellFormed (.uint8 v)
  | int8 (v) : WellFormed (.int8 v)
  | uint16 (v) : WellFormed (.uint16 v)
  | int16 (v) : WellFormed (.int16 v)
  | uint32 (v) : WellFormed (.uint32 v)
  | int32 (v) : WellFormed (.int32 v)
  | float32 (bits) : WellFormed (.float32 bits)
  | bool (v) : WellFormed (.bool v)
  | string {bytes} (hlen : bytes.length < 2 ^ 64) : WellFormed (.string bytes)
  | array {elem items} (hlen : items.length < 2 ^ 64) (htype : ∀ v ∈ items, v.type = elem)
      (hitems : ∀ v ∈ items, WellFormed v) : WellFormed (.array elem items)
  | uint64 (v) : WellFormed (.uint64 v)
  | int64 (v) : WellFormed (.int64 v)
  | float64 (bits) : WellFormed (.float64 bits)

end Value

/-- A string: its length, then its bytes. -/
def encodeString (bytes : List UInt8) : List UInt8 :=
  LittleEndian.toBytes 8 bytes.length ++ bytes

namespace Value

mutual

/-- The bytes of a value after the code of its type. -/
def payload : Value → List UInt8
  | uint8 v => LittleEndian.toBytes 1 v.toNat
  | int8 v => LittleEndian.toBytes 1 v.toUInt8.toNat
  | uint16 v => LittleEndian.toBytes 2 v.toNat
  | int16 v => LittleEndian.toBytes 2 v.toUInt16.toNat
  | uint32 v => LittleEndian.toBytes 4 v.toNat
  | int32 v => LittleEndian.toBytes 4 v.toUInt32.toNat
  | float32 bits => LittleEndian.toBytes 4 bits.toNat
  | bool v => LittleEndian.toBytes 1 v.toNat
  | string bytes => encodeString bytes
  | array elem items => LittleEndian.toBytes 4 elem.code ++
      (LittleEndian.toBytes 8 items.length ++ payloads items)
  | uint64 v => LittleEndian.toBytes 8 v.toNat
  | int64 v => LittleEndian.toBytes 8 v.toUInt64.toNat
  | float64 bits => LittleEndian.toBytes 8 bits.toNat

def payloads : List Value → List UInt8
  | [] => []
  | v :: vs => payload v ++ payloads vs

end

theorem payloads_eq (items : List Value) : payloads items = items.flatMap payload := by
  induction items with
  | nil => rfl
  | cons v vs ih => rw [payloads, ih, List.flatMap_cons]

def encode (v : Value) : List UInt8 := LittleEndian.toBytes 4 v.type.code ++ v.payload

/-- What `read_value` makes of a value that is not an array. -/
def scalar (f64AsF32 : UInt64 → UInt32) : Value → GgufValue
  | uint8 v => .u32 v.toUInt32
  | int8 v => .i32 v.toInt32
  | uint16 v => .u32 v.toUInt32
  | int16 v => .i32 v.toInt32
  | uint32 v => .u32 v
  | int32 v => .i32 v
  | float32 bits => .f32 bits
  | bool v => .bool v
  | string bytes => .str (Str.lossy bytes)
  | array _ _ => .other
  | uint64 v => .u64 v
  | int64 v => .i32 v.toInt32
  | float64 bits => .f32 (f64AsF32 bits)

/-- What `read_value` makes of a value. -/
def decoded (f64AsF32 : UInt64 → UInt32) : Value → GgufValue
  | array _ items => .array (items.map (scalar f64AsF32))
  | v => scalar f64AsF32 v

/-- The values that `read_value` reads in step: an array must have elements of a type with a
row of its own in `read_value_of_type`, or none. -/
def InStep : Value → Prop
  | array elem items => items = [] ∨ elem.HasElementRow
  | _ => True

end Value

/-- A key and its value. -/
structure Pair where
  key : List UInt8
  value : Value
  key_lt : key.length < 2 ^ 64
  wellFormed : value.WellFormed

def Pair.encode (p : Pair) : List UInt8 := encodeString p.key ++ p.value.encode

def encodePairs (pairs : List Pair) : List UInt8 := pairs.flatMap Pair.encode

@[simp] theorem encodePairs_cons (p : Pair) (pairs : List Pair) :
    encodePairs (p :: pairs) = p.encode ++ encodePairs pairs := List.flatMap_cons

/-- The code of a tensor type. -/
def GgmlType.code : GgmlType → Nat
  | f32 => 0
  | f16 => 1
  | q4_0 => 2
  | q4_1 => 3
  | q5_0 => 6
  | q5_1 => 7
  | q8_0 => 8
  | q8_1 => 9
  | q2_k => 10
  | q3_k => 11
  | q4_k => 12
  | q5_k => 13
  | q6_k => 14
  | q8_k => 15
  | i8 => 24
  | i16 => 25
  | i32 => 26
  | bf16 => 30

/-- An entry of the tensor directory. -/
structure TensorEntry where
  name : List UInt8
  shape : List UInt64
  dtype : GgmlType
  offset : UInt64
  name_lt : name.length < 2 ^ 64
  shape_lt : shape.length < 2 ^ 32

def TensorEntry.encode (t : TensorEntry) : List UInt8 :=
  encodeString t.name ++ (LittleEndian.toBytes 4 t.shape.length ++
    (t.shape.flatMap (fun d => LittleEndian.toBytes 8 d.toNat) ++
      (LittleEndian.toBytes 4 t.dtype.code ++ LittleEndian.toBytes 8 t.offset.toNat)))

/-- A file of the format up to its data section. -/
structure Contents where
  version : UInt32
  pairs : List Pair
  tensors : List TensorEntry
  supported : 2 ≤ version ∧ version ≤ 3
  pairs_lt : pairs.length < 2 ^ 64
  tensors_lt : tensors.length < 2 ^ 64

namespace Contents

def encodeHeader (c : Contents) : List UInt8 :=
  LittleEndian.toBytes 4 ggufMagic.toNat ++ (LittleEndian.toBytes 4 c.version.toNat ++
    (LittleEndian.toBytes 8 c.tensors.length ++ LittleEndian.toBytes 8 c.pairs.length))

def encode (c : Contents) : List UInt8 :=
  c.encodeHeader ++ (encodePairs c.pairs ++ c.tensors.flatMap TensorEntry.encode)

end Contents

end Arle.Gguf
