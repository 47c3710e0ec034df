import Mathlib

/-!
# Entries that change their places

A loop nest that copies entries of a snapshot makes a list of moves: pairs of the place that is
written and the place that is read; a move out of bounds panics (`none`). When every move reads
where a function of the written place says, and the function fixes the places that are not
written, the result is the list gathered by that function. `reads` are the entries of a list at
given places, such as a column of a matrix.
-/

namespace Gather

variable {α : Type}

/-- The list whose entry at `i` stands at `source i`; an entry with no such place stays. -/
def gather (source : Nat → Nat) (data : List α) : List α :=
  data.mapIdx fun i a => data.getD (source i) a

/-- Make the moves out of a snapshot. -/
def moveAll (src : List α) : List (Nat × Nat) → List α → Option (List α)
  | [], data => some data
  | (dst, place) :: moves, data =>
    match src[place]? with
    | none => none
    | some a => if dst < data.length then moveAll src moves (data.set dst a) else none

section Gather

variable {source source' : Nat → Nat} {data : List α}

@[simp] theorem length_gather (source : Nat → Nat) (data : List α) :
    (gather source data).length = data.length := List.length_mapIdx

theorem getElem?_gather {i : Nat} (hi : i < data.length) (hsource : source i < data.length) :
    (gather source data)[i]? = data[source i]? := by
  rw [gather, List.getElem?_mapIdx, List.getElem?_eq_getElem hi, List.getElem?_eq_getElem hsource,
    Option.map_some, List.getD_eq_getElem _ _ hsource]

theorem gather_eq_iff (hsource : ∀ i < data.length, source i < data.length) {out : List α} :
    gather source data = out ↔ out.length = data.length ∧
      ∀ i < data.length, out[i]? = data[source i]? := by
  constructor
  · rintro rfl
    exact ⟨length_gather source data, fun i hi => getElem?_gather hi (hsource i hi)⟩
  · rintro ⟨hlen, hout⟩
    refine List.ext_getElem? fun i => ?_
    rcases Nat.lt_or_ge i data.length with hi | hi
    · rw [getElem?_gather hi (hsource i hi), hout i hi]
    · rw [List.getElem?_eq_none (by rwa [length_gather]), List.getElem?_eq_none (by rwa [hlen])]

theorem gather_of_fixed (h : ∀ i < data.length, source i = i) : gather source data = data :=
  (gather_eq_iff fun i hi => by rwa [h i hi]).mpr ⟨rfl, fun i hi => by rw [h i hi]⟩

theorem gather_gather (hsource : ∀ i < data.length, source i < data.length)
    (hsource' : ∀ i < data.length, source' i < data.length) :
    gather source (gather source' data) = gather (fun i => source' (source i)) data := by
  have hlen : (gather source' data).length = data.length := length_gather _ _
  refine (gather_eq_iff (hlen.symm ▸ hsource)).mpr ⟨by rw [length_gather, length_gather], ?_⟩
  intro i hi
  rw [hlen] at hi
  have hout : (gather (fun i => source' (source i)) data)[i]? = data[source' (source i)]? :=
    getElem?_gather hi (hsource' _ (hsource i hi))
  rw [hout, getElem?_gather (hsource i hi) (hsource' _ (hsource i hi))]

end Gather

section Moves

variable {src data : List α} {moves : List (Nat × Nat)}

theorem moveAll_append (moves moves' : List (Nat × Nat)) (data : List α) :
    moveAll src (moves ++ moves') data = moveAll src moves data >>= moveAll src moves' := by
  induction moves generalizing data with
  | nil => rfl
  | cons move moves ih =>
    obtain ⟨dst, place⟩ := move
    rw [List.cons_append, moveAll, moveAll]
    cases src[place]? with
    | none => rfl
    | some a =>
      dsimp only
      split
      · exact ih _
      · rfl

/-- A move out of bounds panics. -/
theorem moveAll_panics {move : Nat × Nat} (hin : move ∈ moves)
    (h : data.length ≤ move.1 ∨ src.length ≤ move.2) : moveAll src moves data = none := by
  induction moves generalizing data with
  | nil => exact absurd hin List.not_mem_nil
  | cons first moves ih =>
    obtain ⟨dst, place⟩ := first
    rw [moveAll]
    cases hread : src[place]? with
    | none => rfl
    | some a =>
      dsimp only
      split
      · next hdst =>
        rcases List.mem_cons.mp hin with rfl | hin
        · have hplace := (List.getElem?_eq_some_iff.mp hread).1
          rcases h with h | h <;> dsimp only at h <;> omega
        · exact ih hin (by rwa [List.length_set])
      · rfl

/-- Moves that read where a function of the written place says. -/
theorem moveAll_spec (source : Nat → Nat)
    (hmoves : ∀ move ∈ moves, move.1 < data.length ∧ move.2 < src.length ∧
      move.2 = source move.1) :
    ∃ out, moveAll src moves data = some out ∧ out.length = data.length ∧
      ∀ i, out[i]? = if i ∈ moves.map Prod.fst then src[source i]? else data[i]? := by
  induction moves generalizing data with
  | nil => exact ⟨data, rfl, rfl, fun i => (if_neg List.not_mem_nil).symm⟩
  | cons move moves ih =>
    obtain ⟨dst, place⟩ := move
    obtain ⟨hdst, hplace, hsource⟩ := hmoves (dst, place) List.mem_cons_self
    dsimp only at hdst hplace hsource
    have hlen : (data.set dst src[place]).length = data.length := List.length_set
    have hrest : ∀ move ∈ moves, move.1 < (data.set dst src[place]).length ∧
        move.2 < src.length ∧ move.2 = source move.1 :=
      fun move hmove => hlen.symm ▸ hmoves move (List.mem_cons_of_mem _ hmove)
    obtain ⟨out, hout, hout_len, hentry⟩ := ih hrest
    refine ⟨out, ?_, hout_len.trans hlen, fun i => ?_⟩
    · rw [moveAll, List.getElem?_eq_getElem hplace]
      exact (if_pos hdst).trans hout
    · rw [hentry, List.map_cons]
      by_cases hin : i ∈ moves.map Prod.fst
      · rw [if_pos hin, if_pos (List.mem_cons_of_mem _ hin)]
      · rw [if_neg hin]
        by_cases heq : i = dst
        · subst heq
          rw [if_pos List.mem_cons_self, ← hsource, List.getElem?_eq_getElem hplace]
          exact List.getElem?_set_self hdst
        · rw [if_neg fun h => (List.mem_cons.mp h).elim heq hin]
          exact List.getElem?_set_ne (Ne.symm heq)

/-- Moves within a list, by a function that fixes the places that are not written. -/
theorem moveAll_eq_gather {source : Nat → Nat}
    (hmoves : ∀ move ∈ moves, move.1 < data.length ∧ move.2 < data.length ∧
      move.2 = source move.1)
    (hfixed : ∀ i < data.length, i ∉ moves.map Prod.fst → source i = i) :
    moveAll data moves data = some (gather source data) := by
  obtain ⟨out, hout, hlen, hentry⟩ := moveAll_spec source hmoves
  have hsource : ∀ i < data.length, source i < data.length := by
    intro i hi
    by_cases hin : i ∈ moves.map Prod.fst
    · obtain ⟨move, hmove, rfl⟩ := List.mem_map.mp hin
      obtain ⟨-, hplace, heq⟩ := hmoves move hmove
      rwa [← heq]
    · rwa [hfixed i hi hin]
  rw [hout, (gather_eq_iff hsource).mpr ⟨hlen, fun i hi => ?_⟩]
  rw [hentry]
  split
  · rfl
  · next hin => rw [hfixed i hi hin]

end Moves

section Reads

variable {n : Nat} {place place' : Nat → Nat} {data : List α}

/-- The entries at the given places. -/
def reads (n : Nat) (place : Nat → Nat) (data : List α) : List α :=
  (List.range n).filterMap fun i => data[place i]?

theorem reads_eq_map (hplace : ∀ i < n, place i < data.length) :
    (reads n place data).map some = (List.range n).map fun i => data[place i]? := by
  induction n with
  | zero => rfl
  | succ n ih =>
    rw [reads, List.range_succ, List.filterMap_append, List.map_append, List.map_append]
    refine congrArg₂ (· ++ ·) (ih fun i hi => hplace i (Nat.lt_succ_of_lt hi)) ?_
    have hn := hplace n (Nat.lt_succ_self n)
    rw [List.filterMap_cons, List.getElem?_eq_getElem hn]
    simp only [List.filterMap_nil, List.map_cons, List.map_nil, List.getElem?_eq_getElem hn]

theorem length_reads (hplace : ∀ i < n, place i < data.length) :
    (reads n place data).length = n := by
  have h := congrArg List.length (reads_eq_map hplace)
  rwa [List.length_map, List.length_map, List.length_range] at h

theorem getElem?_reads (hplace : ∀ i < n, place i < data.length) {i : Nat} (hi : i < n) :
    (reads n place data)[i]? = data[place i]? := by
  have h := congrArg (·[i]?) (reads_eq_map hplace)
  rw [List.getElem?_map, List.getElem?_map, List.getElem?_range hi, Option.map_some] at h
  cases hread : (reads n place data)[i]? with
  | none =>
    rw [hread] at h
    cases h
  | some a =>
    rw [hread, Option.map_some] at h
    exact Option.some.inj h

theorem reads_congr {data' : List α} (h : ∀ i < n, data[place i]? = data'[place' i]?) :
    reads n place data = reads n place' data' :=
  List.filterMap_congr fun i hi => h i (List.mem_range.mp hi)

/-- Entries of a gathered list. -/
theorem reads_gather {source : Nat → Nat} (hsource : ∀ i < data.length, source i < data.length)
    (hplace : ∀ i < n, place i < data.length) :
    reads n place (gather source data) = reads n (fun i => source (place i)) data :=
  reads_congr fun i hi => getElem?_gather (hplace i hi) (hsource _ (hplace i hi))

/-- A list that is gathered out of entries. -/
theorem gather_reads {source : Nat → Nat} (hsource : ∀ i < n, source i < n)
    (hplace : ∀ i < n, place i < data.length) :
    gather source (reads n place data) = reads n (fun i => place (source i)) data := by
  have hlen := length_reads hplace
  have hplace' : ∀ i < n, place (source i) < data.length := fun i hi => hplace _ (hsource i hi)
  refine (gather_eq_iff (hlen.symm ▸ hsource)).mpr ⟨?_, fun i hi => ?_⟩
  · rw [length_reads hplace', hlen]
  · rw [hlen] at hi
    rw [getElem?_reads hplace' hi, getElem?_reads hplace (hsource i hi)]

end Reads

end Gather
