import Mathlib
import Arle.Gguf.Dequant

/-!
# The positions of the codes

The ggml layout of a block of `Q4_0` takes its 32 codes from the low nibbles of the 16 code
bytes and then from the high ones; that of a superblock of `Q3_K` takes its 2-bit codes and high
bits in strides of 32. `dequant_q4_0` and `dequant_q3_k` go through the bytes in their order
instead. What they return agrees with the layout exactly for the blocks whose codes do not tell
the two orders apart.
-/

namespace Arle.Gguf

/-- Packed bytes with the length of `numBlocks` blocks. -/
structure Packed (numBlocks blockBytes : Nat) where
  bytes : List UInt8
  length_eq : bytes.length = numBlocks * blockBytes

/-- The pointer to a block. -/
def Packed.block {numBlocks blockBytes : Nat} (packed : Packed numBlocks blockBytes) (b : Nat) :
    Ptr := (bytesOf packed.bytes).add (b * blockBytes)

variable (f16 : Nat → Nat → ℚ)

/-! ## `Q4_0` -/

/-- Code `e` of a block in the ggml layout. -/
def q4_0Code (raw : Ptr) (e : Nat) : Nat :=
  if e < 16 then raw (2 + e) &&& 0x0F else (raw (2 + (e - 16)) >>> 4) &&& 0x0F

/-- `dequant_q4_0` gives every element from its place in the ggml layout. -/
def FollowsQ4_0 {numBlocks : Nat} (raw : Packed numBlocks 18) : Prop :=
  ∃ out, dequantQ4_0 f16 raw.bytes (numBlocks * 32) = some out ∧ ∀ b < numBlocks, ∀ j < 16,
    let scale := f16 (raw.block b 0) (raw.block b 1)
    let byte := raw.block b (2 + j)
    out[b * 32 + j]? = some ((((byte &&& 0x0F : Nat) : ℚ) - 8) * scale) ∧
      out[b * 32 + (16 + j)]? = some (((((byte >>> 4) &&& 0x0F : Nat) : ℚ) - 8) * scale)

/-- The codes of a block do not change when an index is rotated in its five binary digits. -/
def RotationInvariant (code : Nat → Nat) : Prop := ∀ e < 31, code (2 * e % 31) = code e

/-- Where `dequant_q4_0` takes element `e` from. -/
def dealt (e : Nat) : Nat := if e % 2 = 0 then e / 2 else 16 + e / 2

theorem rotationInvariant_iff {code : Nat → Nat} :
    RotationInvariant code ↔ ∀ e < 32, code (dealt e) = code e := by
  unfold RotationInvariant dealt
  constructor
  · intro h e he
    split
    · have hhalf : 2 * (e / 2) % 31 = e := by omega
      have := h (e / 2) (by omega)
      rw [hhalf] at this
      exact this.symm
    · by_cases hlast : e = 31
      · rw [hlast]
      · have hhalf : 2 * (16 + e / 2) % 31 = e := by omega
        have := h (16 + e / 2) (by omega)
        rw [hhalf] at this
        exact this.symm
  · intro h e he
    have := h (2 * e % 31) (by omega)
    split at this
    · have hhalf : 2 * e % 31 / 2 = e := by omega
      rw [hhalf] at this
      exact this.symm
    · have hhalf : 16 + 2 * e % 31 / 2 = e := by omega
      rw [hhalf] at this
      exact this.symm

theorem length_q4_0Block (raw : Ptr) : (q4_0Block f16 raw).length = 32 :=
  Scatter.length_flatMap_range (m := 2) (n := 16) fun _ _ => rfl

/-- The two nibbles of a byte are dealt to two neighbours. -/
theorem getElem?_q4_0Block (raw : Ptr) {e : Nat} (he : e < 32) :
    (q4_0Block f16 raw)[e]? =
      some (((q4_0Code raw (dealt e) : ℚ) - 8) * f16 (raw 0) (raw 1)) := by
  have hsplit : e = e / 2 * 2 + e % 2 := by omega
  have hbyte : (q4_0Block f16 raw)[e]? =
      (q4_0Byte (f16 (raw 0) (raw 1)) (raw (2 + e / 2)))[e % 2]? := by
    conv_lhs => rw [hsplit]
    exact Scatter.getElem?_flatMap_range (fun _ _ => rfl) (by omega) (by omega)
  rw [hbyte]
  unfold q4_0Code q4_0Byte
  rcases Nat.mod_two_eq_zero_or_one e with h0 | h1
  · have hd : dealt e = e / 2 := if_pos h0
    rw [hd, if_pos (by omega), h0]
    simp
  · have hd : dealt e = 16 + e / 2 := if_neg (by omega)
    rw [hd, if_neg (by omega), h1, Nat.add_sub_cancel_left]
    simp

theorem q4_0_code_eq {x y : Nat} {scale : ℚ} :
    ((x : ℚ) - 8) * scale = ((y : ℚ) - 8) * scale ↔ scale = 0 ∨ x = y := by
  rw [mul_eq_mul_right_iff, sub_left_inj, Nat.cast_inj, or_comm]

/-- Element `e` of block `b`. -/
theorem getElem?_dequantQ4_0 {numBlocks : Nat} (raw : Packed numBlocks 18) :
    ∃ out, dequantQ4_0 f16 raw.bytes (numBlocks * 32) = some out ∧ ∀ b < numBlocks, ∀ e < 32,
      out[b * 32 + e]? = some (((q4_0Code (raw.block b) (dealt e) : ℚ) - 8) *
        f16 (raw.block b 0) (raw.block b 1)) := by
  refine ⟨(List.range numBlocks).flatMap fun b => q4_0Block f16 (raw.block b), ?_, ?_⟩
  · unfold dequantQ4_0
    rw [Nat.mul_div_cancel _ (by decide), if_pos raw.length_eq]
    rfl
  · intro b hb e he
    rw [Scatter.getElem?_flatMap_range (fun b _ => length_q4_0Block f16 (raw.block b)) hb he]
    exact getElem?_q4_0Block f16 (raw.block b) he

/-- Every block has scale 0, or codes that do not tell the two orders apart. -/
def Indifferent4_0 {numBlocks : Nat} (raw : Packed numBlocks 18) : Prop :=
  ∀ b < numBlocks,
    f16 (raw.block b 0) (raw.block b 1) = 0 ∨ RotationInvariant (q4_0Code (raw.block b))

theorem followsQ4_0_iff {numBlocks : Nat} (raw : Packed numBlocks 18) :
    FollowsQ4_0 f16 raw ↔ Indifferent4_0 f16 raw := by
  obtain ⟨out, hout, hget⟩ := getElem?_dequantQ4_0 f16 raw
  have hlayout : FollowsQ4_0 f16 raw ↔ ∀ b < numBlocks, ∀ e < 32,
      out[b * 32 + e]? = some (((q4_0Code (raw.block b) e : ℚ) - 8) *
        f16 (raw.block b 0) (raw.block b 1)) := by
    unfold FollowsQ4_0 q4_0Code
    constructor
    · rintro ⟨out', hout', h⟩ b hb e he
      rw [hout] at hout'
      cases hout'
      by_cases hlo : e < 16
      · rw [if_pos hlo]
        exact (h b hb e hlo).1
      · have := (h b hb (e - 16) (by omega)).2
        rw [if_neg hlo]
        rwa [Nat.add_sub_cancel' (Nat.le_of_not_lt hlo)] at this
    · intro h
      refine ⟨out, hout, fun b hb j hj => ⟨?_, ?_⟩⟩
      · have := h b hb j (by omega)
        rwa [if_pos hj] at this
      · have := h b hb (16 + j) (by omega)
        rwa [if_neg (by omega), Nat.add_sub_cancel_left] at this
  rw [hlayout]
  unfold Indifferent4_0
  apply forall₂_congr
  intro b hb
  rw [rotationInvariant_iff]
  have hpoint : ∀ e < 32, out[b * 32 + e]? = some (((q4_0Code (raw.block b) e : ℚ) - 8) *
      f16 (raw.block b 0) (raw.block b 1)) ↔ f16 (raw.block b 0) (raw.block b 1) = 0 ∨
        q4_0Code (raw.block b) (dealt e) = q4_0Code (raw.block b) e := by
    intro e he
    rw [hget b hb e he, Option.some_inj]
    exact q4_0_code_eq
  rw [forall₂_congr hpoint]
  by_cases hscale : f16 (raw.block b 0) (raw.block b 1) = 0
  · simp only [hscale, true_or, implies_true]
  · simp only [hscale, false_or]

/-! ## `Q3_K` -/

/-- The 2-bit code of element `128 n + 32 j + l` in the ggml layout. -/
def q3kCode (raw : Ptr) (n j l : Nat) : Nat := (raw (32 + (32 * n + l)) >>> (2 * j)) &&& 0x03

/-- Its high bit. -/
def q3kHigh (raw : Ptr) (n j l : Nat) : Nat := (raw l >>> (4 * n + j)) &&& 1

/-- `dequant_q3_k` gives every element from its place in the ggml layout. -/
def FollowsQ3K {numBlocks : Nat} (raw : Packed numBlocks 110) : Prop :=
  ∃ out, dequantQ3K f16 raw.bytes (numBlocks * 256) = .ok out ∧
    ∀ b < numBlocks, ∀ n < 2, ∀ j < 4, ∀ l < 32,
      let d := f16 (raw.block b 108) (raw.block b 109)
      let scale := q3kScale ((raw.block b).add 96) (8 * n + 2 * j + l / 16)
      out[b * 256 + (128 * n + 32 * j + l)]? =
        some (d * scale * ((q3kCode (raw.block b) n j l : ℚ) +
          4 * (q3kHigh (raw.block b) n j l : ℚ) - 4))

/-- The 2-bit code that `dequant_q3_k` takes for element `e`. -/
def q3kCodeAt (raw : Ptr) (e : Nat) : Nat := (raw (32 + e / 4) >>> ((e % 4) * 2)) &&& 0x03

/-- The high bit that it takes. -/
def q3kHighAt (raw : Ptr) (e : Nat) : Nat := (raw (e / 8) >>> (e % 8)) &&& 1

/-- A 2-bit code with its high bit. -/
theorem or_shiftLeft_two {q h : Nat} (hq : q < 4) : q ||| (h <<< 2) = q + 4 * h := by
  rw [Nat.or_comm, ← Nat.shiftLeft_add_eq_or_of_lt hq, Nat.shiftLeft_eq]
  omega

theorem and_three_lt (x : Nat) : x &&& 0x03 < 4 :=
  Nat.and_lt_two_pow (n := 2) x (by decide)

theorem length_q3kBlock (raw : Ptr) : (q3kBlock f16 raw).length = 256 := by
  unfold q3kBlock
  rw [List.length_map, List.length_range]

theorem getElem?_q3kBlock (raw : Ptr) {e : Nat} (he : e < 256) :
    (q3kBlock f16 raw)[e]? = some (f16 (raw 108) (raw 109) *
      q3kScale (raw.add 96) (e / 16) * ((q3kCodeAt raw e : ℚ) + 4 * (q3kHighAt raw e : ℚ) - 4)) := by
  have hsub : e / 16 < 16 := by omega
  unfold q3kBlock q3kCodeAt q3kHighAt
  rw [List.getElem?_map, List.getElem?_range he, Option.map_some]
  dsimp only
  rw [List.getD_eq_getElem?_getD, List.getElem?_map, List.getElem?_range hsub, Option.map_some,
    Option.getD_some, or_shiftLeft_two (and_three_lt _), Nat.cast_add, Nat.cast_mul]
  rfl

theorem getElem?_dequantQ3K {numBlocks : Nat} (raw : Packed numBlocks 110) :
    ∃ out, dequantQ3K f16 raw.bytes (numBlocks * 256) = .ok out ∧
      ∀ b < numBlocks, ∀ e < 256, out[b * 256 + e]? = (q3kBlock f16 (raw.block b))[e]? := by
  refine ⟨(List.range numBlocks).flatMap fun b => q3kBlock f16 (raw.block b), ?_, ?_⟩
  · have hnum : numBlocks * 256 / 256 = numBlocks := Nat.mul_div_cancel _ (by decide)
    unfold dequantQ3K
    simp only [hnum, checkLen_eq_ok raw.length_eq.ge]
    rfl
  · intro b hb e he
    exact Scatter.getElem?_flatMap_range (fun b _ => length_q3kBlock f16 (raw.block b)) hb he

/-- Every element has scale 0, or the bits at the two places agree. -/
def Indifferent3K {numBlocks : Nat} (raw : Packed numBlocks 110) : Prop :=
  ∀ b < numBlocks, ∀ n < 2, ∀ j < 4, ∀ l < 32,
    f16 (raw.block b 108) (raw.block b 109) = 0 ∨
      q3kScale ((raw.block b).add 96) (8 * n + 2 * j + l / 16) = 0 ∨
        q3kCodeAt (raw.block b) (128 * n + 32 * j + l) = q3kCode (raw.block b) n j l ∧
          q3kHighAt (raw.block b) (128 * n + 32 * j + l) = q3kHigh (raw.block b) n j l

theorem q3k_code_eq {d : ℚ} {scale : Int} {q q' h h' : Nat} (hq : q < 4) (hq' : q' < 4) :
    d * scale * ((q : ℚ) + 4 * (h : ℚ) - 4) = d * scale * ((q' : ℚ) + 4 * (h' : ℚ) - 4) ↔
      d = 0 ∨ scale = 0 ∨ q = q' ∧ h = h' := by
  have hcode : (q : ℚ) + 4 * (h : ℚ) = (q' : ℚ) + 4 * (h' : ℚ) ↔ q = q' ∧ h = h' := by
    norm_cast
    omega
  rw [mul_eq_mul_left_iff, sub_left_inj, hcode, mul_eq_zero, Int.cast_eq_zero, or_comm, or_assoc]

theorem followsQ3K_iff {numBlocks : Nat} (raw : Packed numBlocks 110) :
    FollowsQ3K f16 raw ↔ Indifferent3K f16 raw := by
  obtain ⟨out, hout, hget⟩ := getElem?_dequantQ3K f16 raw
  have hpoint : ∀ b < numBlocks, ∀ n < 2, ∀ j < 4, ∀ l < 32,
      (out[b * 256 + (128 * n + 32 * j + l)]? =
        some (f16 (raw.block b 108) (raw.block b 109) *
          q3kScale ((raw.block b).add 96) (8 * n + 2 * j + l / 16) *
          ((q3kCode (raw.block b) n j l : ℚ) + 4 * (q3kHigh (raw.block b) n j l : ℚ) - 4)) ↔
        f16 (raw.block b 108) (raw.block b 109) = 0 ∨
          q3kScale ((raw.block b).add 96) (8 * n + 2 * j + l / 16) = 0 ∨
            q3kCodeAt (raw.block b) (128 * n + 32 * j + l) = q3kCode (raw.block b) n j l ∧
              q3kHighAt (raw.block b) (128 * n + 32 * j + l) = q3kHigh (raw.block b) n j l) := by
    intro b hb n hn j hj l hl
    have hsub : (128 * n + 32 * j + l) / 16 = 8 * n + 2 * j + l / 16 := by omega
    rw [hget b hb _ (by omega), getElem?_q3kBlock f16 _ (by omega), Option.some_inj, hsub]
    exact q3k_code_eq (and_three_lt _) (and_three_lt _)
  constructor
  · rintro ⟨out', hout', h⟩ b hb n hn j hj l hl
    rw [hout] at hout'
    cases hout'
    exact (hpoint b hb n hn j hj l hl).mp (h b hb n hn j hj l hl)
  · intro h
    refine ⟨out, hout, ?_⟩
    intro b hb n hn j hj l hl
    exact (hpoint b hb n hn j hj l hl).mpr (h b hb n hn j hj l hl)

/-! ## Both formats -/

/-- The two functions follow the layout exactly where the two orders make no difference. -/
theorem dequant_follows_iff {m n : Nat} (q4 : Packed m 18) (q3 : Packed n 110) :
    (FollowsQ4_0 f16 q4 ↔ Indifferent4_0 f16 q4) ∧ (FollowsQ3K f16 q3 ↔ Indifferent3K f16 q3) :=
  ⟨followsQ4_0_iff f16 q4, followsQ3K_iff f16 q3⟩

/-- The half-precision number of the bytes `00 3C`. -/
def halfOne (lo hi : Nat) : ℚ := if lo = 0x00 ∧ hi = 0x3C then 1 else 0

/-- A block of scale 1 in which only the high nibble of the first code byte is set. -/
def nibbleBlock : Packed 1 18 where
  bytes := [0x00, 0x3C, 0x10] ++ List.replicate 15 0
  length_eq := by decide

/-- A superblock of scale 1 in which only the second code of the first code byte is set. -/
def codeBlock : Packed 1 110 where
  bytes := List.replicate 32 0 ++ [0x04] ++ List.replicate 75 0 ++ [0x00, 0x3C]
  length_eq := by decide

theorem dequant_does_not_follow :
    ¬ FollowsQ4_0 halfOne nibbleBlock ∧ ¬ FollowsQ3K halfOne codeBlock := by
  constructor
  · rw [followsQ4_0_iff]
    intro h
    rcases h 0 (by decide) with hscale | hcodes
    · exact absurd hscale (by decide)
    · exact absurd (hcodes 16 (by decide)) (by decide)
  · rw [followsQ3K_iff]
    intro h
    rcases h 0 (by decide) 0 (by decide) 0 (by decide) 1 (by decide) with hd | hscale | hcode
    · exact absurd hd (by decide)
    · exact absurd hscale (by decide)
    · exact absurd hcode.1 (by decide)

end Arle.Gguf
