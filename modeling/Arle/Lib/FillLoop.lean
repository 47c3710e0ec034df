import Mathlib

/-!
# Loops that fill an array

Each step of a loop writes some entries of an array, and leaves the others. Where all steps write
the entries of one array `w`, so does the loop, at the places that some step writes.
-/

namespace FillLoop

variable {α β ε : Type} {n : Nat} {w : Nat → α} {P Q : Nat → Prop}
  {f g : List α → Except ε (List α)}

/-- `f` writes the entries `w j` at the places `P`, and no others. -/
def Puts (n : Nat) (w : Nat → α) (P : Nat → Prop) (f : List α → Except ε (List α)) : Prop :=
  ∀ out, out.length = n → ∃ out', f out = .ok out' ∧ out'.length = n ∧
    ∀ j < n, (P j → out'[j]? = some (w j)) ∧ (¬ P j → out'[j]? = out[j]?)

namespace Puts

theorem set {i : Nat} (hi : i < n)
    (h : ∀ out, out.length = n → f out = .ok (out.set i (w i))) : Puts n w (· = i) f := by
  intro out hout
  refine ⟨_, h out hout, List.length_set.trans hout, fun j _ => ⟨?_, fun hne => ?_⟩⟩
  · rintro rfl
    exact List.getElem?_set_self (hout.symm ▸ hi)
  · exact List.getElem?_set_ne fun heq => hne heq.symm

/-- A block of entries is copied. -/
theorem splice {a b : Nat} (src : List α) (hab : a + src.length = b) (hb : b ≤ n)
    (hsrc : ∀ j, a ≤ j → j < b → src[j - a]? = some (w j))
    (h : ∀ out, out.length = n → f out = .ok (out.take a ++ src ++ out.drop b)) :
    Puts n w (fun j => a ≤ j ∧ j < b) f := by
  intro out hout
  have htake : (out.take a).length = a := by
    rw [List.length_take]
    omega
  refine ⟨_, h out hout, ?_, fun j hj => ⟨fun hP => ?_, fun hP => ?_⟩⟩
  · rw [List.length_append, List.length_append, htake, List.length_drop]
    omega
  · rw [List.append_assoc, List.getElem?_append_right (htake.symm ▸ hP.1), htake,
      List.getElem?_append_left (by omega)]
    exact hsrc j hP.1 hP.2
  · rcases Nat.lt_or_ge j a with hja | hja
    · rw [List.append_assoc, List.getElem?_append_left (htake.symm ▸ hja), List.getElem?_take,
        if_pos hja]
    · rw [List.append_assoc, List.getElem?_append_right (htake.symm ▸ hja), htake,
        List.getElem?_append_right (by omega), List.getElem?_drop]
      congr 1
      omega

theorem of_eq (hg : Puts n w P g) (h : ∀ out, out.length = n → f out = g out) :
    Puts n w P f := by
  intro out hout
  rw [h out hout]
  exact hg out hout

theorem congr (h : Puts n w P f) (hPQ : ∀ j < n, P j ↔ Q j) : Puts n w Q f := by
  intro out hout
  obtain ⟨out', hf, hlen, hentry⟩ := h out hout
  refine ⟨out', hf, hlen, fun j hj => ?_⟩
  rw [← hPQ j hj]
  exact hentry j hj

theorem bind (hf : Puts n w P f) (hg : Puts n w Q g) :
    Puts n w (fun j => P j ∨ Q j) fun out => f out >>= g := by
  intro out hout
  obtain ⟨mid, hmid, hlen, hP⟩ := hf out hout
  obtain ⟨out', hout', hlen', hQ⟩ := hg mid hlen
  refine ⟨out', ?_, hlen', fun j hj => ⟨fun h => ?_, fun h => ?_⟩⟩
  · dsimp only
    rw [hmid]
    exact hout'
  · by_cases hj' : Q j
    · exact (hQ j hj).1 hj'
    · rw [(hQ j hj).2 hj']
      exact (hP j hj).1 (h.resolve_right hj')
  · rw [(hQ j hj).2 fun hj' => h (.inr hj'), (hP j hj).2 fun hj' => h (.inl hj')]

/-- A loop writes what its steps write. -/
theorem foldlM {step : List α → β → Except ε (List α)} {P : β → Nat → Prop} {l : List β}
    (h : ∀ b ∈ l, Puts n w (P b) fun out => step out b) :
    Puts n w (fun j => ∃ b ∈ l, P b j) fun out => l.foldlM step out := by
  induction l with
  | nil =>
    intro out hout
    refine ⟨out, rfl, hout, fun j _ => ⟨fun hP => ?_, fun _ => rfl⟩⟩
    obtain ⟨b, hb, -⟩ := hP
    cases hb
  | cons b l ih =>
    have hrest := ih fun b' hb' => h b' (List.mem_cons_of_mem b hb')
    refine ((h b List.mem_cons_self).bind hrest).congr fun j _ => ?_
    rw [List.exists_mem_cons_iff]

/-- A loop that writes every entry. -/
theorem eq_ok (h : Puts n w P f) (hP : ∀ j < n, P j) {out : List α} (hout : out.length = n) :
    f out = .ok ((List.range n).map w) := by
  obtain ⟨out', hf, hlen, hentry⟩ := h out hout
  rw [hf]
  refine congrArg Except.ok (List.ext_getElem? fun j => ?_)
  rcases Nat.lt_or_ge j n with hj | hj
  · rw [(hentry j hj).1 (hP j hj), List.getElem?_map, List.getElem?_range hj]
    rfl
  · rw [List.getElem?_eq_none (hlen.symm ▸ hj), List.getElem?_eq_none (by simpa using hj)]

end Puts

/-! ## Rows -/

section Rows

variable {rows width : Nat} {W : Nat → Nat → α} {step : List α → Nat → Except ε (List α)}

/-- The array with the entry `W row col` in each row and column. -/
def perRow (rows width : Nat) (W : Nat → Nat → α) : List α :=
  (List.range (rows * width)).map fun j => W (j / width) (j % width)

/-- The place of an entry. -/
theorem rowPlace_lt {row col : Nat} (hrow : row < rows) (hcol : col < width) :
    row * width + col < rows * width := by
  calc row * width + col < row * width + width := Nat.add_lt_add_left hcol _
    _ = (row + 1) * width := (Nat.succ_mul row width).symm
    _ ≤ rows * width := Nat.mul_le_mul_right width hrow

theorem rowPlace_div {row col : Nat} (hcol : col < width) : (row * width + col) / width = row := by
  rw [Nat.mul_comm, Nat.mul_add_div (Nat.zero_lt_of_lt hcol), Nat.div_eq_of_lt hcol, Nat.add_zero]

theorem rowPlace_mod {row col : Nat} (hcol : col < width) : (row * width + col) % width = col := by
  rw [Nat.mul_add_mod_self_right, Nat.mod_eq_of_lt hcol]

theorem length_perRow : (perRow rows width W).length = rows * width := by
  rw [perRow, List.length_map, List.length_range]

theorem getD_perRow {row col : Nat} (hrow : row < rows) (hcol : col < width) (d : α) :
    (perRow rows width W).getD (row * width + col) d = W row col := by
  rw [perRow, List.getD_eq_getElem?_getD, List.getElem?_map,
    List.getElem?_range (rowPlace_lt hrow hcol), Option.map_some, Option.getD_some,
    rowPlace_div hcol, rowPlace_mod hcol]

theorem map_perRow {γ : Type} (φ : α → γ) :
    (perRow rows width W).map φ = perRow rows width fun row col => φ (W row col) := by
  rw [perRow, List.map_map]
  rfl

theorem perRow_congr {W' : Nat → Nat → α}
    (h : ∀ row < rows, ∀ col < width, W row col = W' row col) :
    perRow rows width W = perRow rows width W' := by
  refine List.map_congr_left fun j hj => ?_
  have hj := List.mem_range.mp hj
  have hwidth : 0 < width := Nat.pos_of_mul_pos_left (Nat.zero_lt_of_lt hj)
  exact h _ (Nat.div_lt_of_lt_mul (Nat.mul_comm rows width ▸ hj)) _ (Nat.mod_lt _ hwidth)

theorem sum_rows {R : Type} [AddCommMonoid R] (f : Nat → R) :
    ∑ j ∈ Finset.range (rows * width), f j =
      ∑ row ∈ Finset.range rows, ∑ col ∈ Finset.range width, f (row * width + col) := by
  induction rows with
  | zero => rw [Nat.zero_mul, Finset.sum_range_zero, Finset.sum_range_zero]
  | succ rows ih => rw [Nat.succ_mul, Finset.sum_range_add, ih, Finset.sum_range_succ]

/-- The inner loop writes one row. -/
theorem puts_row {row : Nat} (hrow : row < rows)
    (h : ∀ col < width, ∀ out, out.length = rows * width →
      step out col = .ok (out.set (row * width + col) (W row col))) :
    Puts (rows * width) (fun j => W (j / width) (j % width))
      (fun j => row * width ≤ j ∧ j < row * width + width)
      fun out => (List.range width).foldlM step out := by
  have hcol : ∀ col ∈ List.range width, Puts (rows * width) (fun j => W (j / width) (j % width))
      (· = row * width + col) fun out => step out col := by
    intro col hcol
    have hcol := List.mem_range.mp hcol
    refine Puts.set (rowPlace_lt hrow hcol) fun out hout => ?_
    rw [rowPlace_div hcol, rowPlace_mod hcol]
    exact h col hcol out hout
  refine (Puts.foldlM hcol).congr fun j _ => ⟨?_, fun hj => ?_⟩
  · rintro ⟨col, hcol, rfl⟩
    have hcol := List.mem_range.mp hcol
    omega
  · exact ⟨j - row * width, List.mem_range.mpr (by omega), by omega⟩

/-- A loop whose rounds write the rows. -/
theorem loop_rows {out : List α}
    (h : ∀ row < rows, Puts (rows * width) (fun j => W (j / width) (j % width))
      (fun j => row * width ≤ j ∧ j < row * width + width) fun out => step out row)
    (hout : out.length = rows * width) :
    (List.range rows).foldlM step out = .ok (perRow rows width W) := by
  have hloop := Puts.foldlM (l := List.range rows) fun row hrow => h row (List.mem_range.mp hrow)
  refine hloop.eq_ok (fun j hj => ?_) hout
  have hwidth : 0 < width := Nat.pos_of_mul_pos_left (Nat.zero_lt_of_lt hj)
  have hdiv := Nat.div_add_mod' j width
  have hmod := Nat.mod_lt j hwidth
  exact ⟨j / width, List.mem_range.mpr (Nat.div_lt_of_lt_mul (Nat.mul_comm rows width ▸ hj)),
    by omega, by omega⟩

/-- A loop over the rows with a loop over the columns in it. -/
theorem nested_loop {out : List α}
    (h : ∀ row < rows, ∃ inner : List α → Nat → Except ε (List α),
      (∀ out, step out row = (List.range width).foldlM inner out) ∧
      ∀ col < width, ∀ out, out.length = rows * width →
        inner out col = .ok (out.set (row * width + col) (W row col)))
    (hout : out.length = rows * width) :
    (List.range rows).foldlM step out = .ok (perRow rows width W) := by
  refine loop_rows (fun row hrow => ?_) hout
  obtain ⟨inner, hstep, hinner⟩ := h row hrow
  exact (puts_row hrow hinner).of_eq fun out _ => hstep out

end Rows

end FillLoop
