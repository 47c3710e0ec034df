import Mathlib
import Arle.Lib.Text

/-!
# Texts with quoted strings

A scan of a text that keeps track of its string literals: it is outside of them, inside one, or
behind the backslash of an escape. In a well-formed text a backslash and a `<` only stand in
literals. A piece of such a text that starts inside a literal, read from the outside, takes the
literals for what is between them.
-/

namespace Quoted

inductive Mode
  | outside
  | inside
  | escaped
deriving DecidableEq

namespace Mode

def step : Mode → Char → Mode
  | outside, c => if c = '"' then inside else outside
  | inside, c => if c = '"' then outside else if c = '\\' then escaped else inside
  | escaped, _ => inside

/-- The mode of a scan that takes the literals for what is between them. -/
def flip : Mode → Mode
  | outside => inside
  | inside => outside
  | escaped => escaped

end Mode

/-- The mode after a text. -/
def scan (m : Mode) (s : Str) : Mode := s.foldl Mode.step m

/-- The text has its backslashes and its `<` in literals only. -/
def Clean : Mode → Str → Prop
  | _, [] => True
  | m, c :: s => (m = .outside → c ≠ '\\') ∧ (m ≠ .inside → c ≠ '<') ∧ Clean (m.step c) s

/-- A clean text whose literals are complete. -/
def Lexes (s : Str) : Prop := Clean .outside s ∧ scan .outside s = .outside

/-- The characters that mean nothing to a scan. -/
def Plain (c : Char) : Prop := c ≠ '"' ∧ c ≠ '\\' ∧ c ≠ '<'

instance (c : Char) : Decidable (Plain c) := instDecidableAnd

variable {m : Mode} {s t : Str} {c : Char}

@[simp] theorem scan_cons : scan m (c :: s) = scan (m.step c) s := rfl

@[simp] theorem scan_append : scan m (s ++ t) = scan (scan m s) t := List.foldl_append

theorem clean_cons : Clean m (c :: s) ↔
    (m = .outside → c ≠ '\\') ∧ (m ≠ .inside → c ≠ '<') ∧ Clean (m.step c) s := Iff.rfl

theorem clean_append : Clean m (s ++ t) ↔ Clean m s ∧ Clean (scan m s) t := by
  induction s generalizing m with
  | nil =>
    constructor
    · exact fun h => ⟨trivial, h⟩
    · exact fun h => h.2
  | cons c s ih => rw [List.cons_append, clean_cons, clean_cons, ih, scan_cons, and_assoc, and_assoc]

theorem Lexes.append (hs : Lexes s) (ht : Lexes t) : Lexes (s ++ t) := by
  refine ⟨?_, ?_⟩
  · rw [clean_append, hs.2]
    exact ⟨hs.1, ht.1⟩
  · rw [scan_append, hs.2, ht.2]

section Plain

theorem step_plain (hc : Plain c) (hm : m ≠ .escaped) : m.step c = m := by
  cases m with
  | outside => exact if_neg hc.1
  | inside => exact (if_neg hc.1).trans (if_neg hc.2.1)
  | escaped => exact absurd rfl hm

theorem scan_plain (hs : ∀ c ∈ s, Plain c) (hm : m ≠ .escaped) : scan m s = m := by
  induction s with
  | nil => rfl
  | cons c s ih =>
    rw [scan_cons, step_plain (hs c List.mem_cons_self) hm]
    exact ih fun c hc => hs c (List.mem_cons_of_mem _ hc)

theorem clean_plain (hs : ∀ c ∈ s, Plain c) (hm : m ≠ .escaped) : Clean m s := by
  induction s with
  | nil => trivial
  | cons c s ih =>
    have hc := hs c List.mem_cons_self
    refine ⟨fun _ => hc.2.1, fun _ => hc.2.2, ?_⟩
    rw [step_plain hc hm]
    exact ih fun c hc => hs c (List.mem_cons_of_mem _ hc)

/-- Plain characters around a text do not matter. -/
theorem Lexes.pad (h : Lexes s) {before after : Str} (hbefore : ∀ c ∈ before, Plain c)
    (hafter : ∀ c ∈ after, Plain c) : Lexes (before ++ s ++ after) := by
  have hout : (Mode.outside : Mode) ≠ .escaped := by decide
  refine ⟨?_, ?_⟩
  · rw [clean_append, clean_append, scan_append, scan_plain hbefore hout, h.2]
    exact ⟨⟨clean_plain hbefore hout, h.1⟩, clean_plain hafter hout⟩
  · rw [scan_append, scan_append, scan_plain hbefore hout, h.2, scan_plain hafter hout]

theorem Lexes.cons (hc : Plain c) (h : Lexes s) : Lexes (c :: s) := by
  have hout : Mode.outside.step c = .outside := step_plain hc (by decide)
  refine ⟨⟨fun _ => hc.2.1, fun _ => hc.2.2, ?_⟩, ?_⟩
  · rw [hout]
    exact h.1
  · rw [scan_cons, hout]
    exact h.2

theorem plain_of_whitespace (hc : Str.isWhitespace c = true) : Plain c := by
  refine ⟨?_, ?_, ?_⟩
  · rintro rfl
    cases hc
  · rintro rfl
    cases hc
  · rintro rfl
    cases hc

/-- A text whose trimmed form is well formed is well formed. -/
theorem Lexes.of_trim (h : Lexes (Str.trim s)) : Lexes s := by
  obtain ⟨before, after, hs, hbefore, hafter⟩ := Str.exists_trim s
  rw [hs]
  exact h.pad (fun c hc => plain_of_whitespace (hbefore c hc))
    fun c hc => plain_of_whitespace (hafter c hc)

end Plain

/-- A `<` of a clean text is inside a literal. -/
theorem scan_of_clean_lt (h : Clean m (s ++ '<' :: t)) : scan m s = .inside := by
  have hlt := (clean_append.mp h).2.2.1
  by_contra hne
  exact hlt hne rfl

theorem step_flip (hm : m ≠ .escaped) (hc : c ≠ '\\') :
    m.flip.step c = (m.step c).flip ∧ m.step c ≠ .escaped := by
  cases m with
  | outside | inside =>
    by_cases hq : c = '"'
    · simp [Mode.step, Mode.flip, hq]
    · simp [Mode.step, Mode.flip, hq, hc]
  | escaped => exact absurd rfl hm

/-- A text that is clean from the inside and from the outside has no backslash. -/
theorem not_mem_of_clean_flip (hm : m ≠ .escaped) (h : Clean m s) (hflip : Clean m.flip s) :
    '\\' ∉ s := by
  induction s generalizing m with
  | nil => exact List.not_mem_nil
  | cons c s ih =>
    have hc : c ≠ '\\' := by
      cases m with
      | outside => exact h.1 rfl
      | inside => exact hflip.1 rfl
      | escaped => exact absurd rfl hm
    obtain ⟨hstep, hne⟩ := step_flip hm hc
    have htail := hflip.2.2
    rw [hstep] at htail
    rw [List.mem_cons, not_or]
    exact ⟨hc.symm, ih hne h.2.2 htail⟩

end Quoted
