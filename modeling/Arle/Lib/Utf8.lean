import Arle.Lib.Text

/-!
# UTF-8

The bytes of a string, and the lossy decoding of any bytes. Bytes below `0x80` only encode
themselves, so an end of the bytes that consists of such bytes is the end of the string.

The decoder reads one byte at a time. Inside a character it knows how many bytes are owed and the
range of the next one; a byte out of that range makes the bytes of the character so far one
U+FFFD and is read again as a first byte, so that every maximal part of a character is replaced
by one U+FFFD.
-/

namespace Str

/-- The bytes of a string. -/
def bytes (s : Str) : List UInt8 := s.flatMap String.utf8EncodeChar

/-- All characters are encoded by one byte. -/
def Ascii (s : Str) : Prop := ∀ c ∈ s, c.toNat < 0x80

instance (s : Str) : Decidable (Ascii s) := List.decidableBAll _ s

theorem bytes_cons (c : Char) (s : Str) : bytes (c :: s) = String.utf8EncodeChar c ++ bytes s :=
  List.flatMap_cons

theorem bytes_append (a b : Str) : bytes (a ++ b) = bytes a ++ bytes b := List.flatMap_append

theorem length_bytes (s : Str) : (bytes s).length = len s := by
  induction s with
  | nil => rfl
  | cons c s ih => rw [bytes_cons, List.length_append, String.length_utf8EncodeChar, ih, len_cons]

/-! ## Bytes below `0x80` -/

theorem utf8EncodeChar_of_lt {c : Char} (h : c.toNat < 0x80) :
    String.utf8EncodeChar c = [UInt8.ofNat c.toNat] :=
  if_pos (Nat.le_of_lt_succ h)

/-- Longer encodings have no byte below `0x80`. -/
theorem le_of_mem_utf8EncodeChar {c : Char} (h : 0x80 ≤ c.toNat) {b : UInt8}
    (hb : b ∈ String.utf8EncodeChar c) : 0x80 ≤ b.toNat := by
  have hv : c.toNat = c.val.toNat := rfl
  rw [hv] at h
  unfold String.utf8EncodeChar at hb
  dsimp only at hb
  rw [if_neg (by omega)] at hb
  split at hb
  · simp only [List.mem_cons, List.not_mem_nil, or_false] at hb
    rcases hb with rfl | rfl <;> simp only [UInt8.toNat_ofNat'] <;> omega
  · split at hb
    · simp only [List.mem_cons, List.not_mem_nil, or_false] at hb
      rcases hb with rfl | rfl | rfl <;> simp only [UInt8.toNat_ofNat'] <;> omega
    · simp only [List.mem_cons, List.not_mem_nil, or_false] at hb
      rcases hb with rfl | rfl | rfl | rfl <;> simp only [UInt8.toNat_ofNat'] <;> omega

variable {s a b : Str} {x y : List UInt8}

theorem Ascii.lt_of_mem_bytes (h : Ascii s) {b : UInt8} (hb : b ∈ bytes s) : b.toNat < 0x80 := by
  obtain ⟨c, hc, hmem⟩ := List.mem_flatMap.mp hb
  have hlt := h c hc
  rw [utf8EncodeChar_of_lt hlt, List.mem_singleton] at hmem
  rw [hmem, UInt8.toNat_ofNat']
  omega

/-- An end of the bytes that has only bytes below `0x80` is the end of the string. -/
theorem exists_append_of_bytes (h : bytes s = x ++ y) (hy : ∀ b ∈ y, b.toNat < 0x80) :
    ∃ a b, s = a ++ b ∧ bytes b = y := by
  induction s generalizing x with
  | nil =>
    have hnil := List.append_eq_nil_iff.mp h.symm
    exact ⟨[], [], rfl, hnil.2.symm⟩
  | cons c s ih =>
    rw [bytes_cons] at h
    rcases List.append_eq_append_iff.mp h with ⟨z, hx, hrest⟩ | ⟨z, hc, hrest⟩
    · obtain ⟨a, b, rfl, hb⟩ := ih hrest
      exact ⟨c :: a, b, rfl, hb⟩
    · -- `y` begins in the bytes of `c`
      rcases Nat.lt_or_ge c.toNat 0x80 with hlt | hge
      · rw [utf8EncodeChar_of_lt hlt] at hc
        rcases List.singleton_eq_append_iff.mp hc with ⟨rfl, rfl⟩ | ⟨rfl, rfl⟩
        · refine ⟨[], c :: s, rfl, ?_⟩
          rw [bytes_cons, utf8EncodeChar_of_lt hlt, hrest]
        · exact ⟨[c], s, rfl, hrest.symm⟩
      · cases z with
        | nil => exact ⟨[c], s, rfl, hrest.symm⟩
        | cons b z =>
          have hlow := hy b (by rw [hrest]; exact List.mem_cons_self)
          have hhigh := le_of_mem_utf8EncodeChar hge
            (by rw [hc]; exact List.mem_append_right _ List.mem_cons_self : b ∈ _)
          omega

theorem bytes_prefix (h : a <+: b) : bytes a <+: bytes b := by
  obtain ⟨c, rfl⟩ := h
  rw [bytes_append]
  exact List.prefix_append _ _

/-! ## Lossy decoding -/

/-- A character of which `owed` bytes are missing, the next one between `lower` and `upper`. -/
structure Partial where
  owed : Nat
  value : Nat
  lower : Nat
  upper : Nat
  deriving DecidableEq

/-- U+FFFD. -/
def replacement : Char := Char.ofNat 0xFFFD

/-- The first byte of a character. -/
def firstByte (b : UInt8) : Str × Option Partial :=
  let n := b.toNat
  if n < 0x80 then ([Char.ofNat n], none)
  else if n < 0xC2 then ([replacement], none)
  else if n < 0xE0 then ([], some ⟨1, n - 0xC0, 0x80, 0xBF⟩)
  else if n = 0xE0 then ([], some ⟨2, 0, 0xA0, 0xBF⟩)
  else if n = 0xED then ([], some ⟨2, 0xD, 0x80, 0x9F⟩)
  else if n < 0xF0 then ([], some ⟨2, n - 0xE0, 0x80, 0xBF⟩)
  else if n = 0xF0 then ([], some ⟨3, 0, 0x90, 0xBF⟩)
  else if n < 0xF4 then ([], some ⟨3, n - 0xF0, 0x80, 0xBF⟩)
  else if n = 0xF4 then ([], some ⟨3, 4, 0x80, 0x8F⟩)
  else ([replacement], none)

/-- A further byte of a character. -/
def nextByte (part : Partial) (b : UInt8) : Str × Option Partial :=
  let n := b.toNat
  if part.lower ≤ n ∧ n ≤ part.upper then
    let value := part.value * 64 + (n - 0x80)
    if part.owed ≤ 1 then ([Char.ofNat value], none)
    else ([], some ⟨part.owed - 1, value, 0x80, 0xBF⟩)
  else
    let (text, part) := firstByte b
    (replacement :: text, part)

/-- The characters that the bytes complete, and the part of a character at their end. -/
def decode : Option Partial → List UInt8 → Str × Option Partial
  | part, [] => ([], part)
  | none, b :: bytes =>
    let (text, part) := firstByte b
    let (more, part) := decode part bytes
    (text ++ more, part)
  | some part, b :: bytes =>
    let (text, part) := nextByte part b
    let (more, part) := decode part bytes
    (text ++ more, part)

/-- A part of a character at the end of the bytes is one U+FFFD. -/
def close : Option Partial → Str
  | none => []
  | some _ => [replacement]

/-- The lossy decoding. -/
def lossy (bytes : List UInt8) : Str :=
  let (text, part) := decode none bytes
  text ++ close part

theorem decode_append (part : Option Partial) (x y : List UInt8) : decode part (x ++ y) =
    ((decode part x).1 ++ (decode (decode part x).2 y).1, (decode (decode part x).2 y).2) := by
  induction x generalizing part with
  | nil => cases part <;> rfl
  | cons b x ih =>
    cases part with
    | none => simp only [List.cons_append, decode, ih, List.append_assoc]
    | some part => simp only [List.cons_append, decode, ih, List.append_assoc]

/-- Where the decoding of a beginning of the bytes ends. -/
theorem lossy_append (x y : List UInt8) :
    lossy (x ++ y) = (decode none x).1 ++
      ((decode (decode none x).2 y).1 ++ close (decode (decode none x).2 y).2) := by
  simp only [lossy, decode_append, List.append_assoc]

theorem decode_prefix_lossy (x y : List UInt8) : (decode none x).1 <+: lossy (x ++ y) := by
  rw [lossy_append]
  exact List.prefix_append _ _

/-- The decoding of a beginning of the bytes is a beginning of the decoding, or it ends with
U+FFFD for a part of a character that gets more bytes. Then it is longer than the decodings of
shorter beginnings that are beginnings of the decoding, and begins with them. -/
theorem lossy_of_not_prefix {x y z : List UInt8} (hx : lossy x <+: lossy (x ++ (y ++ z)))
    (hxy : ¬ lossy (x ++ y) <+: lossy (x ++ (y ++ z))) :
    lossy x <+: lossy (x ++ y) ∧ len (lossy x) < len (lossy (x ++ y)) := by
  have hdecoded : (decode none (x ++ y)).1 <+: lossy (x ++ (y ++ z)) := by
    rw [← List.append_assoc]
    exact decode_prefix_lossy (x ++ y) z
  have hclosed : lossy (x ++ y) = (decode none (x ++ y)).1 ++ [replacement] := by
    cases hpart : (decode none (x ++ y)).2 with
    | none =>
      refine absurd ?_ hxy
      rw [show lossy (x ++ y) = (decode none (x ++ y)).1 by
        simp only [lossy, hpart, close, List.append_nil]]
      exact hdecoded
    | some part => simp only [lossy, hpart, close]
  have hstart : lossy x <+: (decode none (x ++ y)).1 := by
    rcases List.prefix_or_prefix_of_prefix hx hdecoded with h | h
    · exact h
    · -- what is decoded of `x ++ y` is decoded of `x`, but for the last U+FFFD
      have hmore : (decode none x).1 <+: (decode none (x ++ y)).1 := by
        rw [decode_append]
        exact List.prefix_append _ _
      cases hpart : (decode none x).2 with
      | none =>
        rw [show lossy x = (decode none x).1 by
          simp only [lossy, hpart, close, List.append_nil]]
        exact hmore
      | some part =>
        have hlossy : lossy x = (decode none x).1 ++ [replacement] := by
          simp only [lossy, hpart, close]
        obtain ⟨more, hmore⟩ := hmore
        rw [hlossy, ← hmore, List.prefix_append_right_inj] at h
        cases more with
        | nil =>
          rw [List.append_nil] at hmore
          rw [hclosed, ← hmore, ← hlossy] at hxy
          exact absurd hx hxy
        | cons c more =>
          obtain ⟨rfl, hnil⟩ := List.cons_prefix_cons.mp h
          rw [hlossy, ← hmore, List.prefix_nil.mp hnil]
  refine ⟨hclosed ▸ hstart.trans (List.prefix_append _ _), ?_⟩
  have hle := len_le_of_prefix hstart
  have := replacement.utf8Size_pos
  rw [hclosed, len_append, len_cons]
  omega

end Str
