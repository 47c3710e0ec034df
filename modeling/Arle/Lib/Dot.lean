import Mathlib

/-!
# Gathering and scattering

Loops over arrays whose entries are numbers. A loop that adds the entries of one array at places
of another (`addTo`) sums up the entries with one place (`scatter_loop`), and so it is the
adjoint, for the inner product `dot`, of the loop that reads these places.
-/

namespace Dot

variable {R : Type} [CommSemiring R] {x y out g : List R} {i j n : Nat} {v : R}

def dot (x y : List R) : R := (List.zipWith (· * ·) x y).sum

theorem dot_eq_sum (hx : x.length = n) (hy : y.length = n) :
    dot x y = ∑ i ∈ Finset.range n, x.getD i 0 * y.getD i 0 := by
  induction n generalizing x y with
  | zero =>
    rw [List.length_eq_zero_iff.mp hx]
    rfl
  | succ n ih =>
    obtain ⟨a, x, rfl⟩ := List.exists_cons_of_length_eq_add_one hx
    obtain ⟨b, y, rfl⟩ := List.exists_cons_of_length_eq_add_one hy
    have htail := ih (Nat.succ.inj hx) (Nat.succ.inj hy)
    rw [dot, List.zipWith_cons_cons, List.sum_cons, ← dot, htail, Finset.sum_range_succ']
    exact add_comm _ _

/-- `out[i] += v`. -/
def addTo (out : List R) (i : Nat) (v : R) : List R := out.set i (out.getD i 0 + v)

@[simp] theorem length_addTo : (addTo out i v).length = out.length := List.length_set

theorem getD_addTo (h : i < out.length) :
    (addTo out i v).getD j 0 = out.getD j 0 + if i = j then v else 0 := by
  unfold addTo
  rw [List.getD_eq_getElem?_getD, List.getElem?_set]
  by_cases hij : i = j
  · subst hij
    rw [if_pos rfl, if_pos h, if_pos rfl, Option.getD_some]
  · rw [if_neg hij, if_neg hij, add_zero, List.getD_eq_getElem?_getD]

theorem dot_addTo (hx : x.length = n) (hout : out.length = n) (hi : i < n) :
    dot x (addTo out i v) = dot x out + x.getD i 0 * v := by
  rw [dot_eq_sum hx (length_addTo.trans hout), dot_eq_sum hx hout]
  simp only [getD_addTo (hout.symm ▸ hi), mul_add, Finset.sum_add_distrib, mul_ite, mul_zero]
  rw [Finset.sum_ite_eq, if_pos (Finset.mem_range.mpr hi)]

theorem dot_replicate_zero (hx : x.length = n) : dot x (List.replicate n 0) = 0 := by
  rw [dot_eq_sum hx List.length_replicate]
  refine Finset.sum_eq_zero fun i hi => ?_
  rw [List.getD_replicate _ (Finset.mem_range.mp hi), mul_zero]

theorem dot_comm (x y : List R) : dot x y = dot y x := by
  unfold dot
  rw [List.zipWith_comm]
  simp only [mul_comm]

/-- Zeros, and a one at one place. -/
def unit (n i : Nat) : List R := addTo (List.replicate n 0) i 1

@[simp] theorem length_unit (n i : Nat) : (unit n i : List R).length = n := by
  rw [unit, length_addTo, List.length_replicate]

theorem getD_unit (hi : i < n) (j : Nat) : (unit n i : List R).getD j 0 = if i = j then 1 else 0 := by
  rw [unit, getD_addTo (by rwa [List.length_replicate]), List.getD_eq_getElem?_getD,
    List.getElem?_replicate]
  split <;> exact zero_add _

theorem dot_unit (hx : x.length = n) (hi : i < n) : dot x (unit n i) = x.getD i 0 := by
  rw [unit, dot_addTo hx List.length_replicate hi, dot_replicate_zero hx, zero_add, mul_one]

section Loops

variable {β ε : Type}

/-- The step of a loop over an array of `n` entries adds `w j` to each entry `j`. -/
def Adds (n : Nat) (f : List R → Except ε (List R)) (w : Nat → R) : Prop :=
  ∀ out, out.length = n → ∃ sum, f out = .ok sum ∧ sum.length = n ∧
    ∀ j < n, sum.getD j 0 = out.getD j 0 + w j

namespace Adds

variable {f : List R → Except ε (List R)} {w : Nat → R}

theorem addTo (hi : i < n) (h : ∀ out, out.length = n → f out = .ok (addTo out i v)) :
    Adds n f fun j => if i = j then v else 0 := by
  intro out hout
  exact ⟨_, h out hout, length_addTo.trans hout, fun j _ => getD_addTo (hout.symm ▸ hi)⟩

theorem skip (h : ∀ out, f out = .ok out) : Adds n f fun _ => 0 :=
  fun out hout => ⟨out, h out, hout, fun _ _ => (add_zero _).symm⟩

theorem congr {w' : Nat → R} (h : Adds n f w) (hw : ∀ j < n, w j = w' j) : Adds n f w' := by
  intro out hout
  obtain ⟨sum, hf, hlen, hentry⟩ := h out hout
  exact ⟨sum, hf, hlen, fun j hj => by rw [hentry j hj, hw j hj]⟩

/-- A loop adds what its steps add. -/
theorem foldlM {f : List R → β → Except ε (List R)} {w : β → Nat → R} {l : List β}
    (h : ∀ b ∈ l, Adds n (fun out => f out b) (w b)) :
    Adds n (fun out => l.foldlM f out) fun j => (l.map fun b => w b j).sum := by
  induction l with
  | nil => exact skip fun out => rfl
  | cons b l ih =>
    intro out hout
    obtain ⟨out', hstep, hlen', hentry'⟩ := h b List.mem_cons_self out hout
    obtain ⟨sum, hloop, hlen, hentry⟩ :=
      ih (fun b' hb' => h b' (List.mem_cons_of_mem b hb')) out' hlen'
    refine ⟨sum, ?_, hlen, fun j hj => ?_⟩
    · dsimp only at hstep ⊢
      rw [List.foldlM_cons, hstep]
      exact hloop
    · rw [hentry j hj, hentry' j hj, add_assoc]
      exact congrArg _ List.sum_cons.symm

/-- A loop that starts from zeros. -/
theorem zeros (h : Adds n f w) : ∃ sum, f (List.replicate n 0) = .ok sum ∧ sum.length = n ∧
    ∀ j < n, sum.getD j 0 = w j := by
  obtain ⟨sum, hf, hlen, hentry⟩ := h _ List.length_replicate
  refine ⟨sum, hf, hlen, fun j hj => ?_⟩
  rw [hentry j hj, List.getD_replicate _ hj, zero_add]

end Adds

theorem sum_mul_sum_places (x : List R) (l : List β) {p : β → Option Nat} {w : β → R}
    (hp : ∀ b ∈ l, ∀ i, p b = some i → i < n) :
    ∑ j ∈ Finset.range n, x.getD j 0 * (l.map fun b => if p b = some j then w b else 0).sum =
      (l.map fun b => (p b).elim 0 (x.getD · 0) * w b).sum := by
  induction l with
  | nil => simp
  | cons b l ih =>
    have hhead : ∑ j ∈ Finset.range n, x.getD j 0 * (if p b = some j then w b else 0) =
        (p b).elim 0 (x.getD · 0) * w b := by
      cases hpb : p b with
      | none => simp
      | some i =>
        have hi := hp b List.mem_cons_self i hpb
        simp only [Option.some.injEq, mul_ite, mul_zero, Option.elim_some]
        rw [Finset.sum_ite_eq, if_pos (Finset.mem_range.mpr hi)]
    simp only [List.map_cons, List.sum_cons, mul_add, Finset.sum_add_distrib]
    rw [hhead, ih fun b' hb' => hp b' (List.mem_cons_of_mem b hb')]

/-- A loop that adds `w b` at the place `p b`, or goes on when there is none; and its adjoint. -/
theorem scatter_loop {f : List R → β → Except ε (List R)} {p : β → Option Nat} {w : β → R}
    {l : List β}
    (hsome : ∀ b ∈ l, ∀ i, p b = some i →
      i < n ∧ ∀ out, out.length = n → f out b = .ok (addTo out i (w b)))
    (hnone : ∀ b ∈ l, p b = none → ∀ out, f out b = .ok out) :
    ∃ sum, l.foldlM f (List.replicate n 0) = .ok sum ∧ sum.length = n ∧
      (∀ j < n, sum.getD j 0 = (l.map fun b => if p b = some j then w b else 0).sum) ∧
      ∀ x : List R, x.length = n → dot x sum =
        (l.map fun b => (p b).elim 0 (x.getD · 0) * w b).sum := by
  have hstep : ∀ b ∈ l, Adds n (fun out => f out b) fun j => if p b = some j then w b else 0 := by
    intro b hb
    cases hp : p b with
    | none => exact (Adds.skip (hnone b hb hp)).congr fun j _ => (if_neg (fun h => by cases h)).symm
    | some i =>
      obtain ⟨hi, hadd⟩ := hsome b hb i hp
      refine (Adds.addTo hi hadd).congr fun j _ => ?_
      simp only [Option.some.injEq]
  obtain ⟨sum, hloop, hlen, hentry⟩ := (Adds.foldlM hstep).zeros
  refine ⟨sum, hloop, hlen, hentry, fun x hx => ?_⟩
  rw [dot_eq_sum hx hlen, ← sum_mul_sum_places x l fun b hb i hi => (hsome b hb i hi).1]
  exact Finset.sum_congr rfl fun j hj => by rw [hentry j (Finset.mem_range.mp hj)]

theorem sum_map_zipIdx (l : List β) (d : β) (k : Nat) (f : β × Nat → R) :
    ((l.zipIdx k).map f).sum = ∑ o ∈ Finset.range l.length, f (l.getD o d, k + o) := by
  induction l generalizing k with
  | nil => rfl
  | cons v l ih =>
    rw [List.zipIdx_cons, List.map_cons, List.sum_cons, ih, List.length_cons,
      Finset.sum_range_succ', add_comm]
    refine congrArg₂ _ (Finset.sum_congr rfl fun o _ => ?_) rfl
    rw [List.getD_cons_succ, Nat.add_right_comm, Nat.add_assoc]

/-- A loop over the entries of `g` that adds each at a place of its own. -/
theorem scatter_entries {f : List R → R × Nat → Except ε (List R)} {p : Nat → Nat}
    (hbody : ∀ o < g.length, p o < n ∧
      ∀ out v, out.length = n → f out (v, o) = .ok (addTo out (p o) v)) :
    ∃ sum, g.zipIdx.foldlM f (List.replicate n 0) = .ok sum ∧ sum.length = n ∧
      (∀ j < n, sum.getD j 0 = ∑ o ∈ Finset.range g.length, if p o = j then g.getD o 0 else 0) ∧
      ∀ x : List R, x.length = n →
        dot x sum = ∑ o ∈ Finset.range g.length, x.getD (p o) 0 * g.getD o 0 := by
  obtain ⟨sum, hloop, hlen, hentry, hdot⟩ := scatter_loop (n := n) (f := f) (l := g.zipIdx)
    (p := fun b => some (p b.2)) (w := Prod.fst)
    (by
      rintro ⟨v, o⟩ hb i hi
      cases hi
      obtain ⟨_, ho, _⟩ := List.mem_zipIdx hb
      obtain ⟨hlt, hadd⟩ := hbody o (by omega)
      exact ⟨hlt, fun out hout => hadd out v hout⟩)
    (by
      intro b _ hb
      cases hb)
  refine ⟨sum, hloop, hlen, fun j hj => ?_, fun x hx => ?_⟩
  · rw [hentry j hj, sum_map_zipIdx _ 0]
    simp only [Nat.zero_add, Option.some.injEq]
  · rw [hdot x hx, sum_map_zipIdx _ 0]
    simp only [Nat.zero_add, Option.elim_some]

end Loops

/-- The entries of a list that a loop has computed. -/
theorem getD_map_range {α : Type} (f : Nat → α) (h : i < n) (d : α) :
    ((List.range n).map f).getD i d = f i := by
  rw [List.getD_eq_getElem?_getD, List.getElem?_map, List.getElem?_range h]
  rfl

theorem mapM_ok {ε α β : Type} {f : β → Except ε α} {g : β → α} {l : List β}
    (h : ∀ b ∈ l, f b = .ok (g b)) : l.mapM f = .ok (l.map g) := by
  induction l with
  | nil => rfl
  | cons b l ih =>
    rw [List.mapM_cons, h b List.mem_cons_self, ih fun b' hb' => h b' (List.mem_cons_of_mem _ hb')]
    rfl

theorem mapM_range_ok {ε α : Type} {f : Nat → Except ε α} {g : Nat → α}
    (h : ∀ o < n, f o = .ok (g o)) : (List.range n).mapM f = .ok ((List.range n).map g) :=
  mapM_ok fun o ho => h o (List.mem_range.mp ho)

/-- A loop that fills an array, entry after entry. -/
theorem set_loop_from {ε α β : Type} {f : List α → β × Nat → Except ε (List α)}
    {w : β × Nat → α} {z : α} {l : List β} (front : List α)
    (h : ∀ b ∈ l.zipIdx front.length, ∀ out, out.length = front.length + l.length →
      f out b = .ok (out.set b.2 (w b))) :
    (l.zipIdx front.length).foldlM f (front ++ List.replicate l.length z) =
      .ok (front ++ (l.zipIdx front.length).map w) := by
  induction l generalizing front with
  | nil => rfl
  | cons b l ih =>
    have hset : (front ++ List.replicate (b :: l).length z).set front.length
        (w (b, front.length)) = (front ++ [w (b, front.length)]) ++ List.replicate l.length z := by
      rw [List.length_cons, List.replicate_succ, List.set_append_right _ _ (Nat.le_refl _),
        Nat.sub_self, List.set_cons_zero, List.append_assoc]
      rfl
    have hlen : (front ++ [w (b, front.length)]).length = front.length + 1 := List.length_append
    have hrest := ih (front ++ [w (b, front.length)]) (by
      rw [hlen]
      intro b' hb' out hout
      refine h b' (List.mem_cons_of_mem _ hb') out ?_
      rw [hout, List.length_cons]
      omega)
    rw [hlen] at hrest
    rw [List.zipIdx_cons, List.foldlM_cons, h (b, front.length) List.mem_cons_self _ (by simp),
      List.map_cons]
    refine (congrArg (fun out => (l.zipIdx (front.length + 1)).foldlM f out) hset).trans ?_
    rw [hrest, List.append_assoc]
    rfl

theorem set_loop {ε α β : Type} {f : List α → β × Nat → Except ε (List α)} {w : β × Nat → α}
    {z : α} {l : List β}
    (h : ∀ b ∈ l.zipIdx, ∀ out, out.length = l.length → f out b = .ok (out.set b.2 (w b))) :
    l.zipIdx.foldlM f (List.replicate l.length z) = .ok (l.zipIdx.map w) := by
  refine set_loop_from [] fun b hb out hout => h b hb out ?_
  rw [hout]
  exact Nat.zero_add _

/-- A loop that sums up. -/
theorem foldlM_add {ε β : Type} {f : R → β → Except ε R} {w : β → R} {l : List β}
    (h : ∀ b ∈ l, ∀ sum, f sum b = .ok (sum + w b)) (sum : R) :
    l.foldlM f sum = .ok (sum + (l.map w).sum) := by
  induction l generalizing sum with
  | nil =>
    rw [List.map_nil, List.sum_nil, add_zero]
    rfl
  | cons b l ih =>
    rw [List.foldlM_cons, h b List.mem_cons_self, List.map_cons, List.sum_cons, ← add_assoc]
    exact ih (fun b' hb' => h b' (List.mem_cons_of_mem _ hb')) _

theorem forM_ok {ε β : Type} {f : β → Except ε Unit} {l : List β} (h : ∀ b ∈ l, f b = .ok ()) :
    l.forM f = .ok () := by
  induction l with
  | nil => rfl
  | cons b l ih =>
    change (f b >>= fun _ => l.forM f) = _
    rw [h b List.mem_cons_self]
    exact ih fun b' hb' => h b' (List.mem_cons_of_mem _ hb')

end Dot
