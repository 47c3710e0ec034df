import Mathlib
import Arle.Gguf.Reader
import Arle.Lib.Scatter

/-!
# Dequantization on the host

`dequant_q4_0`, `decode_scale_min_k4` and `dequant_q3_k` to `dequant_q6_k` of
`infer/src/gguf.rs`, over exact numbers: `f16` gives the number that two bytes encode, and
`bf16::from_f32` and the products before it do not round. A byte is the natural number it
holds; the `u8` expressions of the source stay below 256, and the casts to `i8` are `toI8`.
-/

namespace Arle.Gguf

/-- A pointer into packed bytes. -/
abbrev Ptr := Nat → Nat

/-- The bytes of a slice. -/
def bytesOf (raw : List UInt8) : Ptr := fun i => (raw.getD i 0).toNat

/-- The pointer `n` bytes further on. -/
def Ptr.add (p : Ptr) (n : Nat) : Ptr := fun i => p (n + i)

/-- A cast to `i8`. -/
def toI8 (z : Int) : Int := z.bmod 256

theorem toI8_eq {z : Int} (h : -128 ≤ z) (h' : z < 128) : toI8 z = z := by
  unfold toI8
  apply Int.bmod_eq_of_le <;> omega

variable (f16 : Nat → Nat → ℚ)

/-- The two numbers of a byte of `Q4_0`: the low nibble, then the high one. -/
def q4_0Byte (scale : ℚ) (byte : Nat) : List ℚ :=
  let lo : Int := (byte &&& 0x0F : Nat) - 8
  let hi : Int := ((byte >>> 4) &&& 0x0F : Nat) - 8
  [lo * scale, hi * scale]

/-- The numbers that the loop over a block of `Q4_0` pushes. -/
def q4_0Block (raw : Ptr) : List ℚ :=
  let scale := f16 (raw 0) (raw 1)
  (List.range 16).flatMap fun i => q4_0Byte scale (raw (2 + i))

/-- `dequant_q4_0`; it panics when the number of bytes is wrong. -/
def dequantQ4_0 (raw : List UInt8) (numel : Nat) : Option (List ℚ) :=
  let numBlocks := numel / 32
  if raw.length = numBlocks * 18 then
    some ((List.range numBlocks).flatMap fun b => q4_0Block f16 ((bytesOf raw).add (b * 18)))
  else none

/-- One packed `(scale, min)` pair of the 12-byte header. -/
def decodeScaleMinK4 (scales : Ptr) (index : Nat) : Nat × Nat :=
  if index < 4 then (scales index &&& 0x3F, scales (index + 4) &&& 0x3F)
  else
    ((scales (index + 4) &&& 0x0F) ||| ((scales (index - 4) >>> 6) <<< 4),
      (scales (index + 4) >>> 4) ||| ((scales index >>> 6) <<< 4))

/-- What the four loops over superblocks begin with: the check that there are enough bytes. -/
def checkLen (raw : List UInt8) (numBlocks blockBytes : Nat) (message : String) :
    Except ReadError Unit :=
  if raw.length < numBlocks * blockBytes then .error (.bail message) else .ok ()

theorem checkLen_eq_ok {raw : List UInt8} {numBlocks blockBytes : Nat}
    (h : numBlocks * blockBytes ≤ raw.length) (message : String) :
    checkLen raw numBlocks blockBytes message = .ok () := if_neg (Nat.not_lt.mpr h)

/-- The writes for one superblock of `Q4_K`. -/
def q4kBlock (raw : Ptr) (outBase : Nat) : List (Nat × ℚ) :=
  let d := f16 (raw 0) (raw 1)
  let dmin := f16 (raw 2) (raw 3)
  let scalesRaw := raw.add 4
  let qs := raw.add 16
  (List.range 4).flatMap fun iter =>
    let jLo := iter * 2
    let jHi := jLo + 1
    let lo := decodeScaleMinK4 scalesRaw jLo
    let hi := decodeScaleMinK4 scalesRaw jHi
    let d1 := d * lo.1
    let m1 := dmin * lo.2
    let d2 := d * hi.1
    let m2 := dmin * hi.2
    let qlSlice := qs.add (iter * 32)
    (List.range 32).flatMap fun l =>
      let byte := qlSlice l
      let loNib : ℚ := (byte &&& 0x0F : Nat)
      let hiNib : ℚ := (byte >>> 4 : Nat)
      [(outBase + jLo * 32 + l, loNib * d1 - m1), (outBase + jHi * 32 + l, hiNib * d2 - m2)]

def dequantQ4K (raw : List UInt8) (numel : Nat) : Except ReadError (List ℚ) := do
  let numBlocks := numel / 256
  let expected := numBlocks * 144
  let got := raw.length
  checkLen raw numBlocks 144 s!"Q4_K: expected {expected} bytes for {numel} elements, got {got}"
  return Scatter.scatter numel 0 ((List.range numBlocks).flatMap fun b =>
    q4kBlock f16 ((bytesOf raw).add (b * 144)) (b * 256))

/-- The 6-bit scale of a sub-block of `Q3_K`, less 32. -/
def q3kScale (scalesRaw : Ptr) (i : Nat) : Int :=
  let lowNibble := if i < 8 then scalesRaw i &&& 0x0F else (scalesRaw (i - 8) >>> 4) &&& 0x0F
  let highBits := (scalesRaw (8 + (i &&& 3)) >>> (2 * (i / 4))) &&& 0x03
  let u6 := lowNibble ||| (highBits <<< 4)
  toI8 ((u6 : Int) - 32)

/-- The numbers that the loop over a superblock of `Q3_K` pushes. -/
def q3kBlock (raw : Ptr) : List ℚ :=
  let hmask := raw
  let qs := raw.add 32
  let scalesRaw := raw.add 96
  let d := f16 (raw 108) (raw 109)
  let scales := (List.range 16).map (q3kScale scalesRaw)
  (List.range 256).map fun j =>
    let q2 := (qs (j / 4) >>> ((j % 4) * 2)) &&& 0x03
    let hbit := (hmask (j / 8) >>> (j % 8)) &&& 1
    let q3 := q2 ||| (hbit <<< 2)
    let sc : ℚ := scales.getD (j / 16) 0
    d * sc * (q3 - 4)

def dequantQ3K (raw : List UInt8) (numel : Nat) : Except ReadError (List ℚ) := do
  let numBlocks := numel / 256
  let expected := numBlocks * 110
  let got := raw.length
  checkLen raw numBlocks 110 s!"Q3_K: expected {expected} bytes, got {got}"
  return (List.range numBlocks).flatMap fun b => q3kBlock f16 ((bytesOf raw).add (b * 110))

/-- The writes for one superblock of `Q5_K`. -/
def q5kBlock (raw : Ptr) (outBase : Nat) : List (Nat × ℚ) :=
  let d := f16 (raw 0) (raw 1)
  let dmin := f16 (raw 2) (raw 3)
  let scalesRaw := raw.add 4
  let qh := raw.add 16
  let qs := raw.add 48
  (List.range 4).flatMap fun iter =>
    let jLo := iter * 2
    let jHi := jLo + 1
    let lo := decodeScaleMinK4 scalesRaw jLo
    let hi := decodeScaleMinK4 scalesRaw jHi
    let d1 := d * lo.1
    let m1 := dmin * lo.2
    let d2 := d * hi.1
    let m2 := dmin * hi.2
    let qlSlice := qs.add (iter * 32)
    (List.range 32).flatMap fun l =>
      let qlByte := qlSlice l
      let loNib := qlByte &&& 0x0F
      let hbitLo := (qh l >>> jLo) &&& 1
      let q5Lo := loNib ||| (hbitLo <<< 4)
      let hiNib := qlByte >>> 4
      let hbitHi := (qh l >>> jHi) &&& 1
      let q5Hi := hiNib ||| (hbitHi <<< 4)
      [(outBase + jLo * 32 + l, q5Lo * d1 - m1), (outBase + jHi * 32 + l, q5Hi * d2 - m2)]

def dequantQ5K (raw : List UInt8) (numel : Nat) : Except ReadError (List ℚ) := do
  let numBlocks := numel / 256
  let expected := numBlocks * 176
  let got := raw.length
  checkLen raw numBlocks 176 s!"Q5_K: expected {expected} bytes, got {got}"
  return Scatter.scatter numel 0 ((List.range numBlocks).flatMap fun b =>
    q5kBlock f16 ((bytesOf raw).add (b * 176)) (b * 256))

/-- The writes for one superblock of `Q6_K`. -/
def q6kBlock (raw : Ptr) (outBase : Nat) : List (Nat × ℚ) :=
  let qlAll := raw
  let qhAll := raw.add 128
  let scalesAll := raw.add 192
  let d := f16 (raw 208) (raw 209)
  (List.range 2).flatMap fun half =>
    let ql := qlAll.add (half * 64)
    let qh := qhAll.add (half * 32)
    let sc := scalesAll.add (half * 8)
    let yOff := outBase + half * 128
    (List.range 32).flatMap fun l =>
      let is := l / 16
      let q1 := toI8 ((((ql l &&& 0x0F) ||| ((qh l &&& 0x03) <<< 4) : Nat) : Int) - 32)
      let q2 :=
        toI8 ((((ql (l + 32) &&& 0x0F) ||| (((qh l >>> 2) &&& 0x03) <<< 4) : Nat) : Int) - 32)
      let q3 := toI8 ((((ql l >>> 4) ||| (((qh l >>> 4) &&& 0x03) <<< 4) : Nat) : Int) - 32)
      let q4 :=
        toI8 ((((ql (l + 32) >>> 4) ||| (((qh l >>> 6) &&& 0x03) <<< 4) : Nat) : Int) - 32)
      [(yOff + l, d * (toI8 (sc is) : ℚ) * (q1 : ℚ)),
        (yOff + l + 32, d * (toI8 (sc (is + 2)) : ℚ) * (q2 : ℚ)),
        (yOff + l + 64, d * (toI8 (sc (is + 4)) : ℚ) * (q3 : ℚ)),
        (yOff + l + 96, d * (toI8 (sc (is + 6)) : ℚ) * (q4 : ℚ))]

def dequantQ6K (raw : List UInt8) (numel : Nat) : Except ReadError (List ℚ) := do
  let numBlocks := numel / 256
  let expected := numBlocks * 210
  let got := raw.length
  checkLen raw numBlocks 210 s!"Q6_K: expected {expected} bytes, got {got}"
  return Scatter.scatter numel 0 ((List.range numBlocks).flatMap fun b =>
    q6kBlock f16 ((bytesOf raw).add (b * 210)) (b * 256))

end Arle.Gguf
