import Mathlib
import Arle.Lib.FillLoop
import Arle.Lib.LittleEndian
import Arle.Lib.Views

/-!
# GPTQModel weights

`maybe_convert_gptqmodel_w4_layout` of `infer/src/weight_loader.rs`: 4-bit codes that are packed
along the input dimension, eight to a word, are packed again along the rows of the output, two to
a byte. An error is its message. A scale is the number that it holds as a `bf16`; the conversion is
a parameter. An index out of bounds, where the source panics, counts as an error.
-/

namespace Arle.WeightLoader

/-- `safetensors::Dtype`, as far as the loader tells the types apart. -/
inductive Dtype
  | i32 | u32 | bf16 | f16 | f32
  | other (name : String)
deriving DecidableEq

namespace Dtype

def debug : Dtype → String
  | i32 => "I32"
  | u32 => "U32"
  | bf16 => "BF16"
  | f16 => "F16"
  | f32 => "F32"
  | other name => name

end Dtype

structure TensorView where
  dtype : Dtype
  data : List UInt8

structure QuantLoadConfig where
  groupSize : Option Nat
  bits : Option Nat

structure GptqModelW4Layout where
  packed : List UInt8
  scales : List ℚ
  rows : Nat
  cols : Nat
  groupSize : Nat

abbrev Result := Except String

def ensure (cond : Prop) [Decidable cond] (message : String) : Result Unit :=
  if cond then .ok () else .error message

/-! ## Reading -/

/-- `data.get(idx * size..idx * size + size)`. -/
def getChunk (data : List UInt8) (size idx : Nat) : Option (List UInt8) :=
  if idx * size + size ≤ data.length then some ((data.drop (idx * size)).take size) else none

def readU32Le (data : List UInt8) (idx : Nat) : Result Nat :=
  match getChunk data 4 idx with
  | some bytes => .ok (LittleEndian.ofBytes bytes)
  | none => .error s!"u32 index {idx} out of range"

variable (toBf16 : Dtype → List UInt8 → ℚ)

/-- A branch of `scale_to_bf16`. -/
def readScale (dtype : Dtype) (what : String) (size : Nat) (data : List UInt8) (idx : Nat) :
    Result ℚ :=
  match getChunk data size idx with
  | some bytes => .ok (toBf16 dtype bytes)
  | none => .error s!"{what} scale index {idx} out of range"

def scaleToBf16 (data : List UInt8) (dtype : Dtype) (idx : Nat) : Result ℚ :=
  match dtype with
  | .bf16 => readScale toBf16 .bf16 "bf16" 2 data idx
  | .f16 => readScale toBf16 .f16 "f16" 2 data idx
  | .f32 => readScale toBf16 .f32 "f32" 4 data idx
  | dtype => .error s!"unsupported GPTQModel scales dtype {dtype.debug}"

def setAt {α : Type} (out : List α) (i : Nat) (a : α) : Result (List α) :=
  if i < out.length then .ok (out.set i a) else .error "index out of bounds"

/-- `out[i] = f(out[i])`. -/
def modifyAt {α : Type} (out : List α) (i : Nat) (f : α → α) : Result (List α) :=
  match out[i]? with
  | some a => .ok (out.set i (f a))
  | none => .error "index out of bounds"

/-! ## The checks -/

def validateSymmetricGptqQzeros (name : String) (qzeros : TensorView) : Result Unit := do
  ensure (qzeros.dtype = .i32 ∨ qzeros.dtype = .u32)
    s!"{name}: GPTQModel qzeros dtype {qzeros.dtype.debug} is unsupported; expected I32/U32"
  ensure (qzeros.data.length % 4 = 0)
    s!"{name}: GPTQModel qzeros byte length {qzeros.data.length} is not u32-aligned"
  (List.range (qzeros.data.length / 4)).forM fun wordIdx => do
    let word := LittleEndian.ofBytes ((qzeros.data.drop (wordIdx * 4)).take 4)
    (List.range 8).forM fun nibbleIdx =>
      let nibble := (word >>> (nibbleIdx * 4)) &&& 0x0f
      ensure (nibble = 7)
        (s!"{name}: GPTQModel qzeros contains non-symmetric zero-point nibble {nibble} at word " ++
          s!"{wordIdx} nibble {nibbleIdx}; only implicit symmetric zero-point 8 is supported")

/-- `experimental_gptqmodel_w4_enabled`, given `INFER_EXPERIMENTAL_GPTQMODEL_W4`. -/
def experimentalGptqmodelW4Enabled : Option String → Bool
  | some value => value ∈ ["1", "true", "TRUE", "yes", "on", "ON"]
  | none => false

def notLicensed (name : String) : String :=
  s!"{name}: detected GPTQModel W4 physical layout (qweight [K/8,N], scales [K/group,N]) but it " ++
  "is not licensed for default inference yet. Set INFER_EXPERIMENTAL_GPTQMODEL_W4=1 to reproduce " ++
  "the loader experiment; generation-quality gate failed on DavidWen2025/Qwen3.5-9B-GPTQ-4bit " ++
  "and needs layer-local parity before this path can be default."

def scaleElemSize (name : String) : Dtype → Result Nat
  | .bf16 | .f16 => .ok 2
  | .f32 => .ok 4
  | dtype => .error s!"{name}: unsupported GPTQModel scales dtype {dtype.debug}"

/-! ## Packing -/

/-- The new value of a byte. -/
def putNibble (k nibble : Nat) (byte : UInt8) : UInt8 :=
  if k % 2 = 0 then (byte &&& (0xf0 : UInt8)) ||| UInt8.ofNat nibble
  else (byte &&& (0x0f : UInt8)) ||| (UInt8.ofNat nibble <<< (4 : UInt8))

def packStep (qweightData : List UInt8) (rows cols k : Nat) (packed : List UInt8) (row : Nat) :
    Result (List UInt8) := do
  let gptqRow := k / 8
  let bitPos := k % 8 * 4
  let word ← readU32Le qweightData (gptqRow * rows + row)
  let nibble := (word >>> bitPos) &&& 0x0f
  let byteIdx := row * (cols / 2) + k / 2
  modifyAt packed byteIdx (putNibble k nibble)

def packNibbles (qweightData : List UInt8) (rows cols : Nat) : Result (List UInt8) :=
  (List.range cols).foldlM (fun packed k =>
    (List.range rows).foldlM (packStep qweightData rows cols k) packed)
    (List.replicate (rows * cols / 2) 0)

def scaleStep (scalesData : List UInt8) (scalesDtype : Dtype) (rows numGroups g : Nat)
    (scales : List ℚ) (row : Nat) : Result (List ℚ) := do
  let scale ← scaleToBf16 toBf16 scalesData scalesDtype (g * rows + row)
  setAt scales (row * numGroups + g) scale

def transposeScales (scalesData : List UInt8) (scalesDtype : Dtype) (rows numGroups : Nat) :
    Result (List ℚ) :=
  (List.range numGroups).foldlM (fun scales g =>
    (List.range rows).foldlM (scaleStep toBf16 scalesData scalesDtype rows numGroups g) scales)
    (List.replicate (rows * numGroups) 0)

/-- The part of `maybe_convert_gptqmodel_w4_layout` behind the detection of the layout. -/
def convertW4 (env : Option String) (name : String) (qweightData scalesData : List UInt8)
    (scalesDtype : Dtype) (qzeros : Option TensorView) (gptqRows rows groupSize : Nat) :
    Result GptqModelW4Layout := do
  let cols := gptqRows * 8
  let numGroups := cols / groupSize
  ensure (experimentalGptqmodelW4Enabled env) (notLicensed name)
  qzeros.forM (validateSymmetricGptqQzeros name)
  ensure (qweightData.length = gptqRows * rows * 4)
    (s!"{name}: GPTQModel qweight byte length mismatch: expected {gptqRows * rows * 4}, got " ++
      s!"{qweightData.length}")
  let scaleElemSize ← scaleElemSize name scalesDtype
  ensure (scalesData.length = numGroups * rows * scaleElemSize)
    (s!"{name}: GPTQModel scales byte length mismatch: expected " ++
      s!"{numGroups * rows * scaleElemSize}, got {scalesData.length}")
  let packed ← packNibbles qweightData rows cols
  let scales ← transposeScales toBf16 scalesData scalesDtype rows numGroups
  return ⟨packed, scales, rows, cols, groupSize⟩

def maybeConvertGptqmodelW4Layout (env : Option String) (name : String)
    (qweightData : List UInt8) (qweightDtype : Dtype) (qweightShape : List Nat)
    (scalesData : List UInt8) (scalesDtype : Dtype) (scalesShape : List Nat)
    (qzeros : Option TensorView) (config : QuantLoadConfig) : Result (Option GptqModelW4Layout) :=
  if config.bits ≠ some 4 then .ok none
  else
    match config.groupSize, qweightShape, scalesShape with
    | some groupSize, [gptqRows, rows], [groups, scaleRows] =>
      if groupSize = 0 then .ok none
      else if ¬ (qweightDtype = .i32 ∨ qweightDtype = .u32) then .ok none
      else if gptqRows * 8 % groupSize ≠ 0 ∨ groups ≠ gptqRows * 8 / groupSize ∨ scaleRows ≠ rows
      then .ok none
      else
        (convertW4 toBf16 env name qweightData scalesData scalesDtype qzeros gptqRows rows
          groupSize).map some
    | _, _, _ => .ok none

/-! ## What is packed -/

/-- The 4-bit code of an input and an output row. -/
def codeAt (qweightData : List UInt8) (rows k row : Nat) : Nat :=
  LittleEndian.ofBytes ((qweightData.drop ((k / 8 * rows + row) * 4)).take 4) / 16 ^ (k % 8) % 16

/-- The scale of a group of inputs and an output row. -/
def scaleAt (scalesData : List UInt8) (scalesDtype : Dtype) (rows g row : Nat) : ℚ :=
  let size := if scalesDtype = .f32 then 4 else 2
  toBf16 scalesDtype ((scalesData.drop ((g * rows + row) * size)).take size)

/-- The nibble at a place, with the low one of a byte first. -/
def nibbleAt (packed : List UInt8) (p : Nat) : Nat :=
  (packed.getD (p / 2) 0).toNat / 16 ^ (p % 2) % 16

theorem and_240 : ∀ b < 256, b &&& 240 = (b / 16) <<< 4 := by decide +kernel

theorem and_15 (b : Nat) : b &&& 15 = b % 16 := Nat.and_two_pow_sub_one_eq_mod b 4

theorem or_low {a b : Nat} (h : b < 16) : a <<< 4 ||| b = a * 16 + b := by
  rw [← Nat.shiftLeft_add_eq_or_of_lt (i := 4) h, Nat.shiftLeft_eq]

theorem toNat_putNibble {k nibble : Nat} (h : nibble < 16) (byte : UInt8) :
    (putNibble k nibble byte).toNat =
      if k % 2 = 0 then byte.toNat / 16 * 16 + nibble else nibble * 16 + byte.toNat % 16 := by
  have hbyte := byte.toNat_lt
  have hnibble : (UInt8.ofNat nibble).toNat = nibble :=
    UInt8.toNat_ofNat_of_lt' (Nat.lt_trans h (by decide))
  unfold putNibble
  split
  · rw [UInt8.toNat_or, UInt8.toNat_and, hnibble]
    change (byte.toNat &&& 240) ||| nibble = _
    rw [and_240 _ hbyte, or_low h]
  · rw [UInt8.toNat_or, UInt8.toNat_and, UInt8.toNat_shiftLeft, hnibble]
    change (byte.toNat &&& 15) ||| nibble <<< 4 % 256 = _
    have hsmall : nibble <<< 4 < 256 := by
      rw [Nat.shiftLeft_eq]
      omega
    rw [Nat.mod_eq_of_lt hsmall, and_15, Nat.or_comm, or_low (Nat.mod_lt _ (by decide))]

/-- A nibble is put at its place. -/
theorem nibble_putNibble {k nibble h : Nat} (hnibble : nibble < 16) (hh : h < 2) (byte : UInt8) :
    (putNibble k nibble byte).toNat / 16 ^ h % 16 =
      if h = k % 2 then nibble else byte.toNat / 16 ^ h % 16 := by
  have hbyte := byte.toNat_lt
  rw [toNat_putNibble hnibble]
  obtain rfl | rfl : h = 0 ∨ h = 1 := by omega
  · rw [Nat.pow_zero, Nat.div_one, Nat.div_one]
    split <;> split <;> omega
  · rw [Nat.pow_one]
    split <;> split <;> omega

section Pack

variable {qweightData : List UInt8} {gptqRows rows : Nat}

theorem readU32Le_eq {idx : Nat} (h : idx * 4 + 4 ≤ qweightData.length) :
    readU32Le qweightData idx =
      .ok (LittleEndian.ofBytes ((qweightData.drop (idx * 4)).take 4)) := by
  unfold readU32Le getChunk
  rw [if_pos h]

theorem packStep_eq (hlen : qweightData.length = gptqRows * rows * 4) {k row : Nat}
    (hk : k < gptqRows * 8) (hrow : row < rows) {packed : List UInt8}
    (hpacked : packed.length = rows * (gptqRows * 4)) :
    packStep qweightData rows (gptqRows * 8) k packed row =
      .ok (packed.set ((row * (gptqRows * 8) + k) / 2) (putNibble k
        (codeAt qweightData rows k row)
        (packed.getD ((row * (gptqRows * 8) + k) / 2) 0))) := by
  have hplace : k / 8 * rows + row < gptqRows * rows := FillLoop.rowPlace_lt (by omega) hrow
  have hbyte : row * (gptqRows * 8 / 2) + k / 2 = (row * (gptqRows * 8) + k) / 2 := by
    have hhalf : gptqRows * 8 / 2 = gptqRows * 4 := by omega
    rw [hhalf, ← Nat.mul_assoc, ← Nat.mul_assoc]
    omega
  have hin : (row * (gptqRows * 8) + k) / 2 < packed.length := by
    have hlt : row * (gptqRows * 4) + k / 2 < rows * (gptqRows * 4) :=
      FillLoop.rowPlace_lt hrow (by omega)
    rw [← Nat.mul_assoc] at hlt ⊢
    rw [hpacked]
    omega
  have hcode : LittleEndian.ofBytes ((qweightData.drop ((k / 8 * rows + row) * 4)).take 4) >>>
      (k % 8 * 4) &&& 0x0f = codeAt qweightData rows k row := by
    have hpow : 2 ^ (k % 8 * 4) = 16 ^ (k % 8) := by rw [Nat.mul_comm, Nat.pow_mul]
    rw [and_15, Nat.shiftRight_eq_div_pow, hpow, codeAt]
  unfold packStep
  dsimp only
  rw [readU32Le_eq (by omega)]
  change modifyAt packed _ (putNibble k _) = _
  rw [hcode, hbyte, modifyAt, List.getElem?_eq_getElem hin, List.getD_eq_getElem _ _ hin]

theorem packStep_writes (hlen : qweightData.length = gptqRows * rows * 4) {k row : Nat}
    (hk : k < gptqRows * 8) (hrow : row < rows) :
    Views.Writes (fun packed : List UInt8 => packed.length = rows * (gptqRows * 4)) nibbleAt
      (fun p => codeAt qweightData rows (p % (gptqRows * 8)) (p / (gptqRows * 8)))
      (· = row * (gptqRows * 8) + k)
      fun packed => packStep qweightData rows (gptqRows * 8) k packed row := by
  intro packed hpacked
  refine ⟨_, packStep_eq hlen hk hrow hpacked, List.length_set.trans hpacked, fun p => ?_⟩
  have hcode : codeAt qweightData rows k row < 16 := Nat.mod_lt _ (by decide)
  have hin : (row * (gptqRows * 8) + k) / 2 < packed.length := by
    have hlt : row * (gptqRows * 4) + k / 2 < rows * (gptqRows * 4) :=
      FillLoop.rowPlace_lt hrow (by omega)
    rw [← Nat.mul_assoc] at hlt ⊢
    rw [hpacked]
    omega
  have hparity : (row * (gptqRows * 8) + k) % 2 = k % 2 := by
    rw [← Nat.mul_assoc]
    omega
  unfold nibbleAt
  refine ⟨?_, fun hne => ?_⟩
  · rintro rfl
    rw [List.getD_eq_getElem?_getD, List.getElem?_set_self hin, Option.getD_some,
      nibble_putNibble hcode (Nat.mod_lt _ (by decide)), if_pos hparity]
    dsimp only
    rw [FillLoop.rowPlace_mod hk, FillLoop.rowPlace_div hk]
  · by_cases hsame : p / 2 = (row * (gptqRows * 8) + k) / 2
    · rw [hsame, List.getD_eq_getElem?_getD, List.getElem?_set_self hin, Option.getD_some,
        nibble_putNibble hcode (Nat.mod_lt _ (by decide)), if_neg (by omega)]
    · rw [List.getD_eq_getElem?_getD, List.getElem?_set_ne fun h => hsame h.symm,
        ← List.getD_eq_getElem?_getD]

/-- Each code is packed at the place of its row and its input. -/
theorem packNibbles_eq (hlen : qweightData.length = gptqRows * rows * 4) : ∃ packed,
    packNibbles qweightData rows (gptqRows * 8) = .ok packed ∧
      packed.length = rows * (gptqRows * 4) ∧
      ∀ row < rows, ∀ k < gptqRows * 8,
        nibbleAt packed (row * (gptqRows * 8) + k) = codeAt qweightData rows k row := by
  have hloop := Views.Writes.foldlM (l := List.range (gptqRows * 8)) fun k hk =>
    Views.Writes.foldlM (l := List.range rows) fun row hrow =>
      packStep_writes hlen (List.mem_range.mp hk) (List.mem_range.mp hrow)
  have hsize : rows * (gptqRows * 8) / 2 = rows * (gptqRows * 4) := by
    rw [← Nat.mul_assoc, ← Nat.mul_assoc]
    omega
  obtain ⟨packed, hpacked, hlength, hview⟩ :=
    hloop (List.replicate (rows * (gptqRows * 8) / 2) 0) (List.length_replicate.trans hsize)
  refine ⟨packed, hpacked, hlength, fun row hrow k hk => ?_⟩
  rw [(hview _).1 ⟨k, List.mem_range.mpr hk, row, List.mem_range.mpr hrow, rfl⟩]
  dsimp only
  rw [FillLoop.rowPlace_mod hk, FillLoop.rowPlace_div hk]

end Pack

section Scales

variable {scalesData : List UInt8} {scalesDtype : Dtype} {rows numGroups : Nat}

theorem scaleToBf16_eq {size : Nat} {name : String}
    (hsize : scaleElemSize name scalesDtype = .ok size)
    (hlen : scalesData.length = numGroups * rows * size) {g row : Nat} (hg : g < numGroups)
    (hrow : row < rows) : scaleToBf16 toBf16 scalesData scalesDtype (g * rows + row) =
      .ok (scaleAt toBf16 scalesData scalesDtype rows g row) := by
  have hplace : g * rows + row + 1 ≤ numGroups * rows := FillLoop.rowPlace_lt hg hrow
  have hin : (g * rows + row) * size + size ≤ scalesData.length := by
    rw [hlen, ← Nat.succ_mul]
    exact Nat.mul_le_mul_right size hplace
  cases scalesDtype <;> cases hsize <;>
    (unfold scaleToBf16 readScale getChunk
     dsimp only
     rw [if_pos hin]
     rfl)

theorem scaleStep_puts {size : Nat} {name : String}
    (hsize : scaleElemSize name scalesDtype = .ok size)
    (hlen : scalesData.length = numGroups * rows * size) {g row : Nat} (hg : g < numGroups)
    (hrow : row < rows) : FillLoop.Puts (rows * numGroups)
      (fun p => scaleAt toBf16 scalesData scalesDtype rows (p % numGroups) (p / numGroups))
      (· = row * numGroups + g)
      fun scales => scaleStep toBf16 scalesData scalesDtype rows numGroups g scales row := by
  have hplace : row * numGroups + g < rows * numGroups := FillLoop.rowPlace_lt hrow hg
  refine .set hplace fun scales hscales => ?_
  unfold scaleStep
  rw [scaleToBf16_eq toBf16 hsize hlen hg hrow, FillLoop.rowPlace_mod hg, FillLoop.rowPlace_div hg]
  exact if_pos (hscales.symm ▸ hplace)

theorem transposeScales_eq {size : Nat} {name : String}
    (hsize : scaleElemSize name scalesDtype = .ok size)
    (hlen : scalesData.length = numGroups * rows * size) : ∃ scales,
    transposeScales toBf16 scalesData scalesDtype rows numGroups = .ok scales ∧
      ∀ row < rows, ∀ g < numGroups, scales.getD (row * numGroups + g) 0 =
        scaleAt toBf16 scalesData scalesDtype rows g row := by
  have hloop := FillLoop.Puts.foldlM (l := List.range numGroups) fun g hg =>
    FillLoop.Puts.foldlM (l := List.range rows) fun row hrow =>
      scaleStep_puts toBf16 hsize hlen (List.mem_range.mp hg) (List.mem_range.mp hrow)
  obtain ⟨scales, hscales, -, hentry⟩ := hloop _ List.length_replicate
  refine ⟨scales, hscales, fun row hrow g hg => ?_⟩
  rw [List.getD_eq_getElem?_getD, (hentry _ (FillLoop.rowPlace_lt hrow hg)).1
    ⟨g, List.mem_range.mpr hg, row, List.mem_range.mpr hrow, rfl⟩]
  dsimp only
  rw [FillLoop.rowPlace_mod hg, FillLoop.rowPlace_div hg, Option.getD_some]

end Scales

/-- The layout that is made of a weight in the layout of GPTQModel. -/
structure GptqModelW4Layout.Holds (layout : GptqModelW4Layout) (qweightData scalesData : List UInt8)
    (scalesDtype : Dtype) (qweightShape : List Nat) (groupSize : Option Nat) : Prop where
  shape : qweightShape = [layout.cols / 8, layout.rows]
  configured : groupSize = some layout.groupSize
  aligned : 8 ∣ layout.cols
  groups : layout.groupSize ∣ layout.cols
  groupSize : layout.groupSize ≠ 0
  codes : ∀ row < layout.rows, ∀ k < layout.cols,
    nibbleAt layout.packed (row * layout.cols + k) = codeAt qweightData layout.rows k row
  scales : ∀ row < layout.rows, ∀ g < layout.cols / layout.groupSize,
    layout.scales.getD (row * (layout.cols / layout.groupSize) + g) 0 =
      scaleAt toBf16 scalesData scalesDtype layout.rows g row

section Convert

variable {env : Option String} {name : String} {qweightData scalesData : List UInt8}
  {qweightDtype scalesDtype : Dtype} {qweightShape scalesShape : List Nat}
  {qzeros : Option TensorView} {config : QuantLoadConfig} {layout : GptqModelW4Layout}

theorem ensure_bind_eq_ok {α : Type} {cond : Prop} [Decidable cond] {message : String}
    {f : Unit → Result α} {a : α} (h : (ensure cond message >>= f) = .ok a) :
    cond ∧ f () = .ok a := by
  unfold ensure at h
  split at h
  · exact ⟨‹cond›, h⟩
  · cases h

theorem bind_eq_ok {α β : Type} {x : Result α} {f : α → Result β} {b : β}
    (h : (x >>= f) = .ok b) : ∃ a, x = .ok a ∧ f a = .ok b := by
  cases x with
  | error e => cases h
  | ok a => exact ⟨a, rfl, h⟩

theorem convertW4_holds {gptqRows rows groupSize : Nat} (hdvd : gptqRows * 8 % groupSize = 0)
    (hne : groupSize ≠ 0)
    (h : convertW4 toBf16 env name qweightData scalesData scalesDtype qzeros gptqRows rows
      groupSize = .ok layout) :
    layout.Holds toBf16 qweightData scalesData scalesDtype [gptqRows, rows] (some groupSize) := by
  unfold convertW4 at h
  dsimp only at h
  obtain ⟨-, h⟩ := ensure_bind_eq_ok h
  obtain ⟨-, -, h⟩ := bind_eq_ok h
  obtain ⟨hlen, h⟩ := ensure_bind_eq_ok h
  obtain ⟨size, hsize, h⟩ := bind_eq_ok h
  obtain ⟨hscalesLen, h⟩ := ensure_bind_eq_ok h
  obtain ⟨packed, hpacked, h⟩ := bind_eq_ok h
  obtain ⟨scales, hscales, h⟩ := bind_eq_ok h
  cases h
  obtain ⟨packed', hpacked', -, hcodes⟩ := packNibbles_eq hlen
  obtain ⟨scales', hscales', hentries⟩ := transposeScales_eq toBf16 hsize hscalesLen
  cases hpacked.symm.trans hpacked'
  cases hscales.symm.trans hscales'
  refine ⟨?_, rfl, Nat.dvd_mul_left 8 gptqRows, Nat.dvd_of_mod_eq_zero hdvd, hne, hcodes, hentries⟩
  rw [Nat.mul_div_cancel _ (by decide)]

theorem maybeConvert_holds (h : maybeConvertGptqmodelW4Layout toBf16 env name qweightData
      qweightDtype qweightShape scalesData scalesDtype scalesShape qzeros config =
        .ok (some layout)) :
    layout.Holds toBf16 qweightData scalesData scalesDtype qweightShape config.groupSize := by
  unfold maybeConvertGptqmodelW4Layout at h
  split at h
  · cases h
  split at h
  · rename_i groupSize gptqRows rows groups scaleRows hgroup
    split at h
    · cases h
    rename_i hne
    split at h
    · cases h
    split at h
    · cases h
    rename_i hshape
    have hdvd : gptqRows * 8 % groupSize = 0 := Decidable.not_not.mp fun hmod => hshape (.inl hmod)
    cases hconvert : convertW4 toBf16 env name qweightData scalesData scalesDtype qzeros gptqRows
        rows groupSize with
    | error e => rw [hconvert] at h; cases h
    | ok layout' =>
      rw [hconvert] at h
      cases h
      rw [hgroup]
      exact convertW4_holds toBf16 hdvd hne hconvert
  · cases h

end Convert

end Arle.WeightLoader
