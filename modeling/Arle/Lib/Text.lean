import Mathlib
import Arle.Lib.Search

/-!
# Strings with byte offsets

A UTF-8 string is the list of its characters; an offset counts bytes. The operations are those
of a systems language on such strings: an offset inside a character is no place to cut, so
`split` and `slice` fail there (`none`), and `floorCharBoundary` goes down to the next place.
-/

/-- A UTF-8 string. -/
abbrev Str := List Char

namespace Str

/-- The length in bytes. -/
def len (s : Str) : Nat := (s.map Char.utf8Size).sum

/-- Cut at an offset. -/
def split : Str → Nat → Option (Str × Str)
  | s, 0 => some ([], s)
  | [], _ + 1 => none
  | c :: s, n + 1 =>
    if c.utf8Size ≤ n + 1 then
      (split s (n + 1 - c.utf8Size)).map fun (a, b) => (c :: a, b)
    else none

/-- The bytes from `start` to `stop`. -/
def slice (s : Str) (start stop : Nat) : Option Str :=
  match s.split stop with
  | none => none
  | some (a, _) => (a.split start).map Prod.snd

def isCharBoundary (s : Str) (n : Nat) : Bool := (s.split n).isSome

/-- The last place to cut that is not behind the offset. -/
def floorCharBoundary : Str → Nat → Nat
  | [], _ => 0
  | c :: s, n => if c.utf8Size ≤ n then c.utf8Size + floorCharBoundary s (n - c.utf8Size) else 0

/-- The offset of the first occurrence. -/
def find (s pat : Str) : Option Nat := (Search.first pat s).map fun i => len (s.take i)

/-- The characters with the property `White_Space`. -/
def isWhitespace (c : Char) : Bool :=
  (9 ≤ c.toNat ∧ c.toNat ≤ 13) ∨ c.toNat = 32 ∨ c.toNat = 0x85 ∨ c.toNat = 0xA0 ∨
    c.toNat = 0x1680 ∨ (0x2000 ≤ c.toNat ∧ c.toNat ≤ 0x200A) ∨ c.toNat = 0x2028 ∨
    c.toNat = 0x2029 ∨ c.toNat = 0x202F ∨ c.toNat = 0x205F ∨ c.toNat = 0x3000

/-- The string without the whitespace at its two ends. -/
def trim (s : Str) : Str := ((s.dropWhile isWhitespace).reverse.dropWhile isWhitespace).reverse

/-- The length of the longest of the strings. -/
def maxLen (strings : List Str) : Nat := (strings.map len).max?.getD 0

variable {s a b : Str} {n : Nat}

@[simp] theorem len_nil : len [] = 0 := rfl

@[simp] theorem len_cons (c : Char) (s : Str) : len (c :: s) = c.utf8Size + len s := rfl

@[simp] theorem len_append (a b : Str) : len (a ++ b) = len a + len b := by
  rw [len, List.map_append, List.sum_append]
  rfl

theorem length_le_len (s : Str) : s.length ≤ len s := by
  induction s with
  | nil => exact Nat.le_refl 0
  | cons c s ih =>
    have := c.utf8Size_pos
    rw [List.length_cons, len_cons]
    omega

theorem len_eq_zero : len s = 0 ↔ s = [] := by
  constructor
  · intro h
    have := length_le_len s
    exact List.length_eq_zero_iff.mp (by omega)
  · rintro rfl
    rfl

theorem len_le_of_prefix (h : a <+: b) : len a ≤ len b := by
  obtain ⟨c, rfl⟩ := h
  rw [len_append]
  exact Nat.le_add_right _ _

/-- Offsets of places to cut are in the order of the places. -/
theorem len_take_lt {i j : Nat} (h : i < j) (hj : j ≤ s.length) :
    len (s.take i) < len (s.take j) := by
  have hsplit : s.take j = s.take i ++ (s.take j).drop i := by
    have htake : (s.take j).take i = s.take i := by
      rw [List.take_take, Nat.min_eq_left (Nat.le_of_lt h)]
    rw [← htake, List.take_append_drop]
  have hpos := length_le_len ((s.take j).drop i)
  rw [List.length_drop, List.length_take, Nat.min_eq_left hj] at hpos
  rw [hsplit, len_append]
  omega

theorem split_append (a b : Str) : split (a ++ b) (len a) = some (a, b) := by
  induction a with
  | nil =>
    cases b <;> rfl
  | cons c a ih =>
    obtain ⟨m, hm⟩ : ∃ m, len (c :: a) = m + 1 := by
      have := c.utf8Size_pos
      exact ⟨len (c :: a) - 1, by rw [len_cons]; omega⟩
    rw [hm, List.cons_append, split]
    rw [len_cons] at hm
    rw [if_pos (by omega), ← hm, Nat.add_sub_cancel_left, ih]
    rfl

theorem split_eq_some : split s n = some (a, b) ↔ s = a ++ b ∧ n = len a := by
  constructor
  · intro h
    induction s generalizing n a b with
    | nil =>
      cases n with
      | zero =>
        cases h
        exact ⟨rfl, rfl⟩
      | succ n => cases h
    | cons c s ih =>
      cases n with
      | zero =>
        cases h
        exact ⟨rfl, rfl⟩
      | succ n =>
        rw [split] at h
        split at h
        · rename_i hc
          obtain ⟨⟨a', b'⟩, hsplit, heq⟩ := Option.map_eq_some_iff.mp h
          cases heq
          obtain ⟨rfl, hn⟩ := ih hsplit
          refine ⟨rfl, ?_⟩
          rw [len_cons]
          omega
        · cases h
  · rintro ⟨rfl, rfl⟩
    exact split_append a b

/-- A slice between two places to cut. -/
theorem slice_append (a b c : Str) : slice (a ++ (b ++ c)) (len a) (len (a ++ b)) = some b := by
  rw [slice, ← List.append_assoc, split_append]
  dsimp only
  rw [split_append]
  rfl

/-- A beginning of the text that is not shorter than another one is all of it. -/
theorem eq_of_prefix_of_len_le (h : a <+: b) (hle : len b ≤ len a) : a = b := by
  obtain ⟨c, rfl⟩ := h
  rw [len_append] at hle
  rw [len_eq_zero.mp (by omega : len c = 0), List.append_nil]

/-- Of two beginnings of the text the shorter one is a beginning of the other. -/
theorem prefix_of_len_le (ha : a <+: s) (hb : b <+: s) (hle : len a ≤ len b) : a <+: b := by
  rcases Nat.le_total a.length b.length with h | h
  · exact List.prefix_of_prefix_length_le ha hb h
  · have hba := List.prefix_of_prefix_length_le hb ha h
    rw [eq_of_prefix_of_len_le hba hle]

/-- The slice between two beginnings of the text. -/
theorem slice_of_prefix (hab : a <+: b) (hb : b <+: s) :
    ∃ c, b = a ++ c ∧ slice s (len a) (len b) = some c := by
  obtain ⟨c, rfl⟩ := hab
  obtain ⟨d, rfl⟩ := hb
  refine ⟨c, rfl, ?_⟩
  rw [List.append_assoc]
  exact slice_append a c d

/-- `floorCharBoundary` is a place to cut, and the last one up to the offset. -/
theorem floorCharBoundary_spec (s : Str) (n : Nat) : ∃ a b, s = a ++ b ∧
    floorCharBoundary s n = len a ∧ len a ≤ n ∧
    ∀ a' b', s = a' ++ b' → len a' ≤ n → len a' ≤ len a := by
  induction s generalizing n with
  | nil =>
    refine ⟨[], [], rfl, rfl, Nat.zero_le n, fun a' b' h _ => ?_⟩
    rw [(List.append_eq_nil_iff.mp h.symm).1]
  | cons c s ih =>
    rw [floorCharBoundary]
    split
    · rename_i hc
      obtain ⟨a, b, rfl, hfloor, hle, hlast⟩ := ih (n - c.utf8Size)
      refine ⟨c :: a, b, rfl, by rw [hfloor, len_cons], by rw [len_cons]; omega, ?_⟩
      intro a' b' h hn
      cases a' with
      | nil => exact Nat.zero_le _
      | cons c' a' =>
        obtain ⟨rfl, htail⟩ := List.cons.inj h
        rw [len_cons] at hn
        have := hlast a' b' htail (by omega)
        rw [len_cons, len_cons]
        omega
    · rename_i hc
      refine ⟨[], c :: s, rfl, rfl, Nat.zero_le n, fun a' b' h hn => ?_⟩
      cases a' with
      | nil => exact Nat.le_refl _
      | cons c' a' =>
        obtain ⟨rfl, -⟩ := List.cons.inj h
        rw [len_cons] at hn
        omega

theorem floorCharBoundary_le (s : Str) (n : Nat) : floorCharBoundary s n ≤ n := by
  obtain ⟨a, b, -, hfloor, hle, -⟩ := floorCharBoundary_spec s n
  exact hfloor ▸ hle

theorem floorCharBoundary_len_append (a b : Str) : floorCharBoundary (a ++ b) (len a) = len a := by
  obtain ⟨a', b', -, hfloor, hle, hlast⟩ := floorCharBoundary_spec (a ++ b) (len a)
  rw [hfloor]
  exact Nat.le_antisymm hle (hlast a b rfl (Nat.le_refl _))

theorem floorCharBoundary_of_prefix (h : a <+: s) : floorCharBoundary s (len a) = len a := by
  obtain ⟨b, rfl⟩ := h
  exact floorCharBoundary_len_append a b

theorem find_isSome {pat : Str} : (find s pat).isSome = true ↔ pat <:+: s := by
  rw [find, Option.isSome_map]
  exact Search.first_isSome

/-- Where a pattern is found. -/
theorem find_eq_some {pat : Str} (h : find s pat = some n) : ∃ before after,
    s = before ++ (pat ++ after) ∧ n = len before ∧
      ∀ j < before.length, ¬ pat <+: s.drop j := by
  obtain ⟨i, hi, rfl⟩ := Option.map_eq_some_iff.mp h
  obtain ⟨hle, ⟨after, hafter⟩, hmin⟩ := Search.first_eq_some.mp hi
  refine ⟨s.take i, after, ?_, rfl, fun j hj => hmin j ?_⟩
  · rw [hafter, List.take_append_drop]
  · rwa [List.length_take, Nat.min_eq_left hle] at hj

theorem floorCharBoundary_of_le (h : len s ≤ n) : floorCharBoundary s n = len s := by
  obtain ⟨a, b, rfl, hfloor, hle, hlast⟩ := floorCharBoundary_spec s n
  rw [hfloor]
  refine Nat.le_antisymm (by rw [len_append]; omega) ?_
  exact hlast (a ++ b) [] (List.append_nil _).symm h

/-- Two ways to cut at the same offset. -/
theorem append_inj_len {c d : Str} (h : a ++ b = c ++ d) (hlen : len a = len c) :
    a = c ∧ b = d := by
  have := split_append a b
  rw [h, hlen, split_append] at this
  obtain ⟨rfl, rfl⟩ := Prod.mk.inj (Option.some.inj this)
  exact ⟨rfl, rfl⟩

/-- The place to cut at an offset; when a beginning ends there, it is that one. -/
theorem exists_floorCharBoundary (s : Str) (n : Nat) : ∃ a, a <+: s ∧
    floorCharBoundary s n = len a ∧ ∀ c, n = len c → c <+: s → a = c := by
  obtain ⟨a, b, hs, hfloor, -, -⟩ := floorCharBoundary_spec s n
  refine ⟨a, ⟨b, hs.symm⟩, hfloor, fun c hn hc => ?_⟩
  have hlen := floorCharBoundary_of_prefix hc
  rw [← hn, hfloor] at hlen
  obtain ⟨d, hd⟩ := hc
  exact (append_inj_len (hs.symm.trans hd.symm) (hlen.trans hn)).1

theorem len_le_maxLen {strings : List Str} (hs : s ∈ strings) : len s ≤ maxLen strings := by
  rw [maxLen]
  cases hmax : (strings.map len).max? with
  | none =>
    rw [List.max?_eq_none_iff, List.map_eq_nil_iff] at hmax
    rw [hmax] at hs
    exact absurd hs List.not_mem_nil
  | some m => exact (List.max?_eq_some_iff.mp hmax).2 _ (List.mem_map_of_mem hs)

/-! ## Several patterns -/

section Patterns

open Search

variable {pats : List Str} {pat : Str} {p : Nat}

/-- Where a pattern is found, it occurs. -/
theorem matchAt_of_find (hmem : pat ∈ pats) (hne : pat ≠ []) (h : find s pat = some n) :
    ∃ i, MatchAt pats s i ∧ n = len (s.take i) := by
  obtain ⟨i, hi, rfl⟩ := Option.map_eq_some_iff.mp h
  exact ⟨i, ⟨pat, hmem, hne, (first_eq_some.mp hi).2.1⟩, rfl⟩

/-- Where a pattern occurs first, it is found. -/
theorem find_of_isFirst (h : IsFirst pats s p) :
    ∃ pat ∈ pats, pat ≠ [] ∧ find s pat = some (len (s.take p)) := by
  obtain ⟨⟨pat, hmem, hne, hpat⟩, hmin⟩ := h
  refine ⟨pat, hmem, hne, Option.map_eq_some_iff.mpr ⟨p, first_eq_some.mpr ⟨?_, hpat, ?_⟩, rfl⟩⟩
  · exact Nat.le_of_lt (MatchAt.lt ⟨pat, hmem, hne, hpat⟩)
  · exact fun j hj hj' => hmin j hj ⟨pat, hmem, hne, hj'⟩

end Patterns

section Trim

theorem trim_append_of_whitespace {t : Str} (ht : ∀ c ∈ t, isWhitespace c = true) (s : Str) :
    trim (s ++ t) = trim s := by
  have hdrop : t.dropWhile isWhitespace = [] := List.dropWhile_eq_nil_iff.mpr ht
  unfold trim
  rw [List.dropWhile_append]
  split
  · rename_i hnil
    rw [List.isEmpty_iff.mp hnil, hdrop]
  · rw [List.reverse_append, List.dropWhile_append_of_pos]
    intro c hc
    exact ht c (List.mem_reverse.mp hc)

theorem trim_cons_of_whitespace {c : Char} (hc : isWhitespace c = true) (s : Str) :
    trim (c :: s) = trim s := by
  unfold trim
  rw [List.dropWhile_cons_of_pos hc]

/-- A string that neither starts nor ends with whitespace. -/
theorem trim_eq_self {c d : Char} (hc : isWhitespace c = false) (hd : isWhitespace d = false)
    (s : Str) : trim (c :: s ++ [d]) = c :: s ++ [d] := by
  unfold trim
  rw [List.cons_append, List.dropWhile_cons_of_neg (by rw [hc]; exact Bool.false_ne_true),
    ← List.cons_append, List.reverse_append, List.reverse_singleton, List.singleton_append,
    List.dropWhile_cons_of_neg (by rw [hd]; exact Bool.false_ne_true), List.reverse_cons,
    List.reverse_reverse]

/-- What is trimmed off at the two ends. -/
theorem exists_trim (s : Str) : ∃ before after, s = before ++ trim s ++ after ∧
    (∀ c ∈ before, isWhitespace c = true) ∧ ∀ c ∈ after, isWhitespace c = true := by
  have hmid := List.takeWhile_append_dropWhile (p := isWhitespace)
    (l := (s.dropWhile isWhitespace).reverse)
  refine ⟨s.takeWhile isWhitespace,
    (((s.dropWhile isWhitespace).reverse).takeWhile isWhitespace).reverse, ?_, ?_, ?_⟩
  · unfold trim
    rw [List.append_assoc, ← List.reverse_append, hmid, List.reverse_reverse,
      List.takeWhile_append_dropWhile]
  · intro c hc
    exact List.mem_takeWhile_imp hc
  · intro c hc
    exact List.mem_takeWhile_imp (List.mem_reverse.mp hc)

end Trim

end Str
