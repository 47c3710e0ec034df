import Mathlib
import Arle.Gguf.Dequant
import Arle.Lib.Word

/-!
# The K-quant kernels

The Q3_K to Q6_K kernels of `csrc/gemm/quantized_gemv.cu`, over exact numbers as in
`Arle.Gguf.Dequant`. A kernel is the list of what its threads do: for the GEMV the products that
are added up (row, index into the input, weight), for the chunk kernel the writes. The warp
reduction and the products themselves are left out. The four GEMV kernels have one frame, and so
have the four chunk kernels; each keeps its own body. Sizes and offsets are `int`: a product or a
sum that overflows has no value, and a launch in which a thread computes one is undefined (`none`).
The offsets inside one superblock are below its size.
-/

namespace Arle.CudaKernels

open Arle.Gguf

variable (f16 : Nat → Nat → ℚ)

/-! ## Values of a superblock -/

/-- `q3k_decode_scales`. -/
def q3kDecodeScales (scalesRaw : Ptr) : List Int :=
  (List.range 16).map fun i =>
    let low4 := if i < 8 then scalesRaw i &&& 0x0F else (scalesRaw (i - 8) >>> 4) &&& 0x0F
    let high2 := (scalesRaw (8 + (i &&& 3)) >>> (2 * (i / 4))) &&& 0x03
    let u6 := low4 ||| (high2 <<< 4)
    toI8 ((u6 : Int) - 32)

/-- `q4k_decode_scales`: the scales and the mins. -/
def q4kDecodeScales (scalesRaw : Ptr) : List Nat × List Nat :=
  ((List.range 4).map (fun i => scalesRaw i &&& 0x3F) ++
      (List.range 4).map (fun i => (scalesRaw (8 + i) &&& 0x0F) ||| ((scalesRaw i >>> 6) <<< 4)),
    (List.range 4).map (fun i => scalesRaw (i + 4) &&& 0x3F) ++
      (List.range 4).map (fun i => (scalesRaw (8 + i) >>> 4) ||| ((scalesRaw (i + 4) >>> 6) <<< 4)))

def q3kValue (sb : Ptr) (kLocal : Nat) : ℚ :=
  let scales := q3kDecodeScales (sb.add 96)
  let d := f16 (sb 108) (sb 109)
  let hmask := sb
  let qs := sb.add 32
  let q2 := (qs (kLocal >>> 2) >>> ((kLocal &&& 3) <<< 1)) &&& 0x3
  let hbit := (hmask (kLocal >>> 3) >>> (kLocal &&& 7)) &&& 0x1
  let q3 := q2 ||| (hbit <<< 2)
  let sc : ℚ := scales.getD (kLocal >>> 4) 0
  d * sc * (q3 - 4)

def q4kValue (sb : Ptr) (kLocal : Nat) : ℚ :=
  let scales := q4kDecodeScales (sb.add 4)
  let sc := scales.1
  let mn := scales.2
  let d := f16 (sb 0) (sb 1)
  let dmin := f16 (sb 2) (sb 3)
  let iter := kLocal >>> 6
  let half := (kLocal >>> 5) &&& 1
  let l := kLocal &&& 31
  let sub := iter * 2 + half
  let byte := sb (16 + iter * 32 + l)
  let q := if half ≠ 0 then byte >>> 4 else byte &&& 0x0F
  q * (d * sc.getD sub 0) - dmin * mn.getD sub 0

def q5kValue (sb : Ptr) (kLocal : Nat) : ℚ :=
  let scales := q4kDecodeScales (sb.add 4)
  let sc := scales.1
  let mn := scales.2
  let d := f16 (sb 0) (sb 1)
  let dmin := f16 (sb 2) (sb 3)
  let iter := kLocal >>> 6
  let half := (kLocal >>> 5) &&& 1
  let l := kLocal &&& 31
  let sub := iter * 2 + half
  let byte := sb (48 + iter * 32 + l)
  let low := if half ≠ 0 then byte >>> 4 else byte &&& 0x0F
  let q := low ||| (((sb (16 + l) >>> sub) &&& 1) <<< 4)
  q * (d * sc.getD sub 0) - dmin * mn.getD sub 0

/-- The `switch` on the quadrant in `q6k_value` and `q6k_dequant_chunk_kernel`: the low four bits
and the high two. -/
def q6kBits (ql qh : Ptr) (quad l : Nat) : Nat × Nat :=
  match quad with
  | 0 => (ql l &&& 0x0F, (qh l >>> 0) &&& 0x03)
  | 1 => (ql (l + 32) &&& 0x0F, (qh l >>> 2) &&& 0x03)
  | 2 => (ql l >>> 4, (qh l >>> 4) &&& 0x03)
  | _ => (ql (l + 32) >>> 4, (qh l >>> 6) &&& 0x03)

def q6kValue (sb : Ptr) (kLocal : Nat) : ℚ :=
  let half := kLocal >>> 7
  let jLocal := kLocal &&& 127
  let quad := jLocal >>> 5
  let l := jLocal &&& 31
  let is := l >>> 4
  let ql := sb.add (half * 64)
  let qh := sb.add (128 + half * 32)
  let bits := q6kBits ql qh quad l
  let low4 := bits.1
  let high2 := bits.2
  let q : Int := ((low4 ||| (high2 <<< 4) : Nat) : Int) - 32
  let sc := toI8 (sb (192 + (half * 8 + is + quad * 2)))
  let d := f16 (sb 208) (sb 209)
  d * (sc : ℚ) * (q : ℚ)

/-! ## GEMV -/

/-- A product that a thread adds up: `w * input[k]` for the output `row`. -/
structure Product where
  row : Nat
  k : Nat
  w : ℚ
deriving DecidableEq

/-- What a lane adds up for one superblock: the offset from `k_base` and the weight. -/
abbrev LaneBody := Ptr → Nat → List (Nat × ℚ)

def q3kLane : LaneBody := fun sb lane =>
  let hmask := sb
  let qs := sb.add 32
  let d := f16 (sb 108) (sb 109)
  let scales := q3kDecodeScales (sb.add 96)
  (List.range 8).map fun i =>
    let kLocal := i * 32 + lane
    let q2 := (qs (kLocal >>> 2) >>> ((kLocal &&& 3) <<< 1)) &&& 0x3
    let hbit := (hmask (kLocal >>> 3) >>> (kLocal &&& 7)) &&& 0x1
    let q3 := q2 ||| (hbit <<< 2)
    let subIdx := kLocal >>> 4
    let sc : ℚ := scales.getD subIdx 0
    let scale := d * sc
    (kLocal, scale * (q3 - 4))

def q4kLane : LaneBody := fun sb lane =>
  let d := f16 (sb 0) (sb 1)
  let dmin := f16 (sb 2) (sb 3)
  let scales := q4kDecodeScales (sb.add 4)
  let sc := scales.1
  let mn := scales.2
  let qs := sb.add 16
  (List.range 4).flatMap fun iter =>
    let jLo := iter * 2
    let jHi := jLo + 1
    let d1 := d * sc.getD jLo 0
    let m1 := dmin * mn.getD jLo 0
    let d2 := d * sc.getD jHi 0
    let m2 := dmin * mn.getD jHi 0
    let byte := qs (iter * 32 + lane)
    let qLo : ℚ := (byte &&& 0x0F : Nat)
    let qHi : ℚ := (byte >>> 4 : Nat)
    [(jLo * 32 + lane, qLo * d1 - m1), (jHi * 32 + lane, qHi * d2 - m2)]

def q5kLane : LaneBody := fun sb lane =>
  let d := f16 (sb 0) (sb 1)
  let dmin := f16 (sb 2) (sb 3)
  let scales := q4kDecodeScales (sb.add 4)
  let sc := scales.1
  let mn := scales.2
  let qh := sb.add 16
  let qs := sb.add 48
  (List.range 4).flatMap fun iter =>
    let jLo := iter * 2
    let jHi := jLo + 1
    let d1 := d * sc.getD jLo 0
    let m1 := dmin * mn.getD jLo 0
    let d2 := d * sc.getD jHi 0
    let m2 := dmin * mn.getD jHi 0
    let byte := qs (iter * 32 + lane)
    let qLo := (byte &&& 0x0F) ||| (((qh lane >>> jLo) &&& 1) <<< 4)
    let qHi := (byte >>> 4) ||| (((qh lane >>> jHi) &&& 1) <<< 4)
    [(jLo * 32 + lane, qLo * d1 - m1), (jHi * 32 + lane, qHi * d2 - m2)]

def q6kLane : LaneBody := fun sb lane =>
  let qlAll := sb
  let qhAll := sb.add 128
  let scAll := sb.add 192
  let d := f16 (sb 208) (sb 209)
  let l := lane
  let is := l / 16
  (List.range 2).flatMap fun half =>
    let ql := qlAll.add (half * 64)
    let qh := qhAll.add (half * 32)
    let sc := scAll.add (half * 8)
    let kHalfBase := half * 128
    let qhL := qh l
    let ql0 := ql l
    let ql1 := ql (l + 32)
    let q0 : Int := (((ql0 &&& 0x0F) ||| (((qhL >>> 0) &&& 0x03) <<< 4) : Nat) : Int) - 32
    let q1 : Int := (((ql1 &&& 0x0F) ||| (((qhL >>> 2) &&& 0x03) <<< 4) : Nat) : Int) - 32
    let q2 : Int := (((ql0 >>> 4) ||| (((qhL >>> 4) &&& 0x03) <<< 4) : Nat) : Int) - 32
    let q3 : Int := (((ql1 >>> 4) ||| (((qhL >>> 6) &&& 0x03) <<< 4) : Nat) : Int) - 32
    [(kHalfBase + l, d * (toI8 (sc is) : ℚ) * (q0 : ℚ)),
      (kHalfBase + l + 32, d * (toI8 (sc (is + 2)) : ℚ) * (q1 : ℚ)),
      (kHalfBase + l + 64, d * (toI8 (sc (is + 4)) : ℚ) * (q2 : ℚ)),
      (kHalfBase + l + 96, d * (toI8 (sc (is + 6)) : ℚ) * (q3 : ℚ))]

/-- The frame of the GEMV kernels: what the thread `tid` of block `blockIdx` adds up. -/
def gemvThread (sbBytes : Nat) (laneBody : LaneBody) (weight : Ptr) (N K blockIdx tid : Nat) :
    Option (List Product) :=
  let warpId := tid / 32
  let lane := tid % 32
  let row := blockIdx * 8 + warpId
  if row ≥ N then
    some []
  else do
    let numSb := K / 256
    let rowBytes ← Word.signed 32 (numSb * sbBytes)
    let rowOffset ← Word.signed 32 (row * rowBytes)
    let rowP := weight.add rowOffset
    let products ← (List.range numSb).mapM fun sb => do
      let sbOffset ← Word.signed 32 (sb * sbBytes)
      let kBase ← Word.signed 32 (sb * 256)
      return (laneBody (rowP.add sbOffset) lane).map fun t => (⟨row, kBase + t.1, t.2⟩ : Product)
    return products.flatten

/-- A launch of the kernel: `(N + 8 - 1) / 8` blocks of 256 threads. -/
def gemvLaunch (sbBytes : Nat) (laneBody : LaneBody) (weight : Ptr) (N K : Nat) :
    Option (List Product) := do
  let N ← Word.signed 32 N
  let K ← Word.signed 32 K
  let rows ← Word.signed 32 (N + 8)
  let products ← (List.range ((rows - 1) / 8)).mapM fun blockIdx => do
    let block ← (List.range 256).mapM (gemvThread sbBytes laneBody weight N K blockIdx)
    return block.flatten
  return products.flatten

/-! ## Chunk kernels -/

/-- What a thread writes for its superblock: the offset from the superblock, and the value. -/
abbrev ThreadBody := Ptr → Nat → Nat × ℚ

def q3kChunkThread : ThreadBody := fun sb tid =>
  let d := f16 (sb 108) (sb 109)
  let scales := q3kDecodeScales (sb.add 96)
  let hmask := sb
  let qs := sb.add 32
  let kLocal := tid
  let q2 := (qs (kLocal >>> 2) >>> ((kLocal &&& 3) <<< 1)) &&& 0x3
  let hbit := (hmask (kLocal >>> 3) >>> (kLocal &&& 7)) &&& 0x1
  let q3 := q2 ||| (hbit <<< 2)
  let subIdx := kLocal >>> 4
  let sc : ℚ := scales.getD subIdx 0
  let scale := d * sc
  (kLocal, scale * (q3 - 4))

def q4kChunkThread : ThreadBody := fun sb tid =>
  let d := f16 (sb 0) (sb 1)
  let dmin := f16 (sb 2) (sb 3)
  let scales := q4kDecodeScales (sb.add 4)
  let sc := scales.1
  let mn := scales.2
  let qs := sb.add 16
  let iter := (tid >>> 6) &&& 3
  let half := (tid >>> 5) &&& 1
  let l := tid &&& 31
  let sub := iter * 2 + half
  let byte := qs (iter * 32 + l)
  let q := if half ≠ 0 then byte >>> 4 else byte &&& 0x0F
  (sub * 32 + l, q * (d * sc.getD sub 0) - dmin * mn.getD sub 0)

def q5kChunkThread : ThreadBody := fun sb tid =>
  let d := f16 (sb 0) (sb 1)
  let dmin := f16 (sb 2) (sb 3)
  let scales := q4kDecodeScales (sb.add 4)
  let sc := scales.1
  let mn := scales.2
  let qh := sb.add 16
  let qs := sb.add 48
  let iter := (tid >>> 6) &&& 3
  let half := (tid >>> 5) &&& 1
  let l := tid &&& 31
  let sub := iter * 2 + half
  let byte := qs (iter * 32 + l)
  let low := if half ≠ 0 then byte >>> 4 else byte &&& 0x0F
  let q := low ||| (((qh l >>> sub) &&& 1) <<< 4)
  (sub * 32 + l, q * (d * sc.getD sub 0) - dmin * mn.getD sub 0)

def q6kChunkThread : ThreadBody := fun sb tid =>
  let d := f16 (sb 208) (sb 209)
  let scales := (List.range 16).map fun i => toI8 (sb (192 + i))
  let half := tid / 128
  let jLocal := tid % 128
  let quad := jLocal / 32
  let l := jLocal % 32
  let is := l / 16
  let ql := sb.add (half * 64)
  let qh := sb.add (128 + half * 32)
  let scBase := half * 8
  let bits := q6kBits ql qh quad l
  let low4 := bits.1
  let high2 := bits.2
  let q : Int := ((low4 ||| (high2 <<< 4) : Nat) : Int) - 32
  let sc : ℚ := scales.getD (scBase + is + quad * 2) 0
  (half * 128 + quad * 32 + l, d * sc * (q : ℚ))

/-- The frame of the chunk kernels: the write of the thread `tid` for the superblock `sbInChunk`
of `row`, as index into `out` and value. -/
def chunkThread (sbBytes : Nat) (body : ThreadBody) (weight : Ptr)
    (N K kStart kLen row sbInChunk tid : Nat) : Option (List (Nat × ℚ)) :=
  if row ≥ N then
    some []
  else do
    let numSbTotal := K / 256
    let sbGlobal ← Word.signed 32 (kStart / 256 + sbInChunk)
    let rowBytes ← Word.signed 32 (numSbTotal * sbBytes)
    let rowOffset ← Word.signed 32 (row * rowBytes)
    let sbOffset ← Word.signed 32 (sbGlobal * sbBytes)
    let sbP := weight.add (rowOffset + sbOffset)
    let write := body sbP tid
    let outK ← Word.signed 32 (sbInChunk * 256 + write.1)
    let outRow ← Word.signed 32 (row * kLen)
    let place ← Word.signed 32 (outRow + outK)
    return [(place, write.2)]

/-- The wrapper and its launch, `N` by `k_len / 256` blocks of 256 threads; `some none` for
`cudaErrorInvalidValue`. -/
def chunkLaunch (sbBytes : Nat) (body : ThreadBody) (weight : Ptr) (N K kStart kLen : Nat) :
    Option (Option (List (Nat × ℚ))) := do
  let N ← Word.signed 32 N
  let K ← Word.signed 32 K
  let kStart ← Word.signed 32 kStart
  let kLen ← Word.signed 32 kLen
  if kStart % 256 ≠ 0 ∨ kLen % 256 ≠ 0 then
    return none
  let writes ← (List.range N).mapM fun row => do
    let rowWrites ← (List.range (kLen / 256)).mapM fun sbInChunk => do
      let block ← (List.range 256).mapM
        (chunkThread sbBytes body weight N K kStart kLen row sbInChunk)
      return block.flatten
    return rowWrites.flatten
  return some writes.flatten

/-! ## The four formats -/

/-- The K-quant formats with kernels of their own. -/
inductive KQuant
  | q3k | q4k | q5k | q6k
deriving DecidableEq, Repr

namespace KQuant

/-- The bytes of a superblock. -/
def sbBytes : KQuant → Nat
  | q3k => 110
  | q4k => 144
  | q5k => 176
  | q6k => 210

/-- The function on the host. -/
def dequant : KQuant → List UInt8 → Nat → Except ReadError (List ℚ)
  | q3k => dequantQ3K f16
  | q4k => dequantQ4K f16
  | q5k => dequantQ5K f16
  | q6k => dequantQ6K f16

def value : KQuant → Ptr → Nat → ℚ
  | q3k => q3kValue f16
  | q4k => q4kValue f16
  | q5k => q5kValue f16
  | q6k => q6kValue f16

def lane : KQuant → LaneBody
  | q3k => q3kLane f16
  | q4k => q4kLane f16
  | q5k => q5kLane f16
  | q6k => q6kLane f16

def chunk : KQuant → ThreadBody
  | q3k => q3kChunkThread f16
  | q4k => q4kChunkThread f16
  | q5k => q5kChunkThread f16
  | q6k => q6kChunkThread f16

end KQuant

end Arle.CudaKernels
