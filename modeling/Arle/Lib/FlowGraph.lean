import Mathlib

/-!
# What flows along the walks of a graph

A graph of finitely many edges, each of which acts additively on the values of a monoid. A walk from
the root carries a seed along its edges. If the vertices have a rank that falls along every edge, a
vertex has finitely many walks (`mem_walks`), and the sum of what they carry, the `flow`, is what the
edges into the vertex make of the flows at their sources (`flow_eq`). So it is there as soon as every
source has handed on its own flow: `incoming_eq_flow`, for any order that `Serves` the graph.
-/

structure FlowGraph (V E M : Type) [AddCommMonoid M] where
  edges : List E
  source : E → V
  target : E → V
  act : E → M →+ M
  root : V
  seed : M

namespace FlowGraph

variable {V E M : Type} [AddCommMonoid M] (g : FlowGraph V E M)

/-- The edges lead from the root to a vertex; the last edge comes first. -/
def IsWalk : V → List E → Prop
  | x, [] => x = g.root
  | x, e :: walk => e ∈ g.edges ∧ g.target e = x ∧ IsWalk (g.source e) walk

def Reached (x : V) : Prop := ∃ walk, g.IsWalk x walk

/-- What a walk makes of the seed. -/
def carried : List E → M
  | [] => g.seed
  | e :: walk => g.act e (carried walk)

/-- No edge leads back. -/
def Falls (rank : V → Nat) : Prop := ∀ e ∈ g.edges, rank (g.target e) < rank (g.source e)

variable {g} {x : V} {e : E} {walk : List E} {rank : V → Nat}

theorem IsWalk.subset (h : g.IsWalk x walk) : walk ⊆ g.edges := by
  induction walk generalizing x with
  | nil => exact List.nil_subset _
  | cons e walk ih => exact List.cons_subset.mpr ⟨h.1, ih h.2.2⟩

/-- The sources on a walk rank higher than its end. -/
theorem IsWalk.rank_lt (hfalls : g.Falls rank) (h : g.IsWalk x walk) :
    ∀ e ∈ walk, rank x < rank (g.source e) := by
  induction walk generalizing x with
  | nil => exact fun e he => absurd he List.not_mem_nil
  | cons e walk ih =>
    obtain ⟨hedge, rfl, hrest⟩ := h
    have hfall := hfalls e hedge
    rintro e' he'
    rcases List.mem_cons.mp he' with rfl | he'
    · exact hfall
    · exact hfall.trans (ih hrest e' he')

theorem IsWalk.nodup (hfalls : g.Falls rank) (h : g.IsWalk x walk) : walk.Nodup := by
  induction walk generalizing x with
  | nil => exact List.nodup_nil
  | cons e walk ih =>
    refine List.nodup_cons.mpr ⟨fun hmem => ?_, ih h.2.2⟩
    exact Nat.lt_irrefl _ (h.2.2.rank_lt hfalls e hmem)

theorem IsWalk.length_le (hfalls : g.Falls rank) (h : g.IsWalk x walk) :
    walk.length ≤ g.edges.length :=
  (List.subperm_of_subset (h.nodup hfalls) h.subset).length_le

/-! ## The list of the walks -/

variable [DecidableEq V]

variable (g) in
def edgesInto (x : V) : List E := g.edges.filter fun e => g.target e = x

variable (g) in
/-- The walks of `n` edges. -/
def walksOf : Nat → V → List (List E)
  | 0, x => if x = g.root then [[]] else []
  | n + 1, x => (g.edgesInto x).flatMap fun e => (walksOf n (g.source e)).map (e :: ·)

theorem walksOf_zero (x : V) : g.walksOf 0 x = if x = g.root then [[]] else [] := rfl

theorem walksOf_succ (n : Nat) (x : V) : g.walksOf (n + 1) x =
    (g.edgesInto x).flatMap fun e => (g.walksOf n (g.source e)).map (e :: ·) := rfl

variable (g) in
/-- The walks that are no longer than the list of the edges. -/
def walks (x : V) : List (List E) :=
  (List.range (g.edges.length + 1)).flatMap fun n => g.walksOf n x

variable (g) in
/-- The sum of what the walks to a vertex carry. -/
def flow (x : V) : M := ((g.walks x).map g.carried).sum

theorem mem_edgesInto : e ∈ g.edgesInto x ↔ e ∈ g.edges ∧ g.target e = x := by
  unfold edgesInto
  rw [List.mem_filter, decide_eq_true_iff]

theorem mem_walksOf {n : Nat} : walk ∈ g.walksOf n x ↔ g.IsWalk x walk ∧ walk.length = n := by
  induction n generalizing x walk with
  | zero =>
    rw [walksOf_zero]
    split
    · rename_i hroot
      rw [List.mem_singleton]
      constructor
      · rintro rfl
        exact ⟨hroot, rfl⟩
      · exact fun h => List.eq_nil_of_length_eq_zero h.2
    · rename_i hroot
      refine iff_of_false List.not_mem_nil fun h => hroot ?_
      cases List.eq_nil_of_length_eq_zero h.2
      exact h.1
  | succ n ih =>
    rw [walksOf_succ, List.mem_flatMap]
    constructor
    · rintro ⟨e, he, hmem⟩
      obtain ⟨walk', hwalk, rfl⟩ := List.mem_map.mp hmem
      obtain ⟨hedge, htarget⟩ := mem_edgesInto.mp he
      obtain ⟨hrest, hlen⟩ := ih.mp hwalk
      exact ⟨⟨hedge, htarget, hrest⟩, congrArg Nat.succ hlen⟩
    · rintro ⟨hwalk, hlen⟩
      cases walk with
      | nil => exact absurd hlen (Nat.succ_ne_zero n).symm
      | cons e walk =>
        obtain ⟨hedge, htarget, hrest⟩ := hwalk
        exact ⟨e, mem_edgesInto.mpr ⟨hedge, htarget⟩,
          List.mem_map.mpr ⟨walk, ih.mpr ⟨hrest, Nat.succ.inj hlen⟩, rfl⟩⟩

/-- Without a way back, all walks are listed. -/
theorem mem_walks (hfalls : g.Falls rank) : walk ∈ g.walks x ↔ g.IsWalk x walk := by
  unfold walks
  rw [List.mem_flatMap]
  constructor
  · rintro ⟨n, -, hwalk⟩
    exact (mem_walksOf.mp hwalk).1
  · intro h
    exact ⟨walk.length, List.mem_range.mpr (Nat.lt_succ_of_le (h.length_le hfalls)),
      mem_walksOf.mpr ⟨h, rfl⟩⟩

theorem nodup_walksOf (hedges : g.edges.Nodup) (n : Nat) (x : V) : (g.walksOf n x).Nodup := by
  induction n generalizing x with
  | zero =>
    rw [walksOf_zero]
    split
    · exact List.nodup_singleton _
    · exact List.nodup_nil
  | succ n ih =>
    rw [walksOf_succ, List.nodup_flatMap]
    refine ⟨fun e _ => (ih _).map fun _ _ h => (List.cons.inj h).2, ?_⟩
    refine (hedges.filter _).imp fun {a b} hne walk ha hb => hne ?_
    obtain ⟨wa, -, rfl⟩ := List.mem_map.mp ha
    obtain ⟨wb, -, hb⟩ := List.mem_map.mp hb
    exact (List.cons.inj hb).1.symm

/-- No walk is listed twice. -/
theorem nodup_walks (hedges : g.edges.Nodup) (x : V) : (g.walks x).Nodup := by
  unfold walks
  rw [List.nodup_flatMap]
  refine ⟨fun n _ => nodup_walksOf hedges n x, ?_⟩
  refine List.nodup_range.imp fun {a b} hne walk ha hb => hne ?_
  exact (mem_walksOf.mp ha).2.symm.trans (mem_walksOf.mp hb).2

/-! ## The flow at a vertex -/

variable (g) in
/-- The sum of what the walks of `n` edges carry. -/
def flowOf (n : Nat) (x : V) : M := ((g.walksOf n x).map g.carried).sum

theorem flow_eq_sum (x : V) : g.flow x = ∑ n ∈ Finset.range (g.edges.length + 1), g.flowOf n x := by
  unfold flow walks
  rw [List.map_flatMap, List.flatMap_def, List.sum_flatten, List.map_map]
  rfl

theorem flowOf_succ (n : Nat) (x : V) : g.flowOf (n + 1) x =
    ((g.edgesInto x).map fun e => g.act e (g.flowOf n (g.source e))).sum := by
  unfold flowOf
  rw [walksOf_succ, List.map_flatMap, List.flatMap_def, List.sum_flatten, List.map_map]
  refine congrArg List.sum (List.map_congr_left fun e _ => ?_)
  rw [map_list_sum, List.map_map, Function.comp_apply, List.map_map]
  rfl

theorem flow_of_not_reached (hfalls : g.Falls rank) (h : ¬ g.Reached x) : g.flow x = 0 := by
  unfold flow
  rw [List.eq_nil_iff_forall_not_mem.mpr fun walk hwalk => h ⟨walk, (mem_walks hfalls).mp hwalk⟩]
  rfl

/-- The walks to the source of an edge leave room for the edge. -/
theorem flowOf_length (hfalls : g.Falls rank) (he : e ∈ g.edges) :
    g.flowOf g.edges.length (g.source e) = 0 := by
  have hnone : g.walksOf g.edges.length (g.source e) = [] := by
    refine List.eq_nil_iff_forall_not_mem.mpr fun walk hwalk => ?_
    obtain ⟨hwalk, hlen⟩ := mem_walksOf.mp hwalk
    have hlonger : g.IsWalk (g.target e) (e :: walk) := ⟨he, rfl, hwalk⟩
    have hle := hlonger.length_le hfalls
    rw [List.length_cons, hlen] at hle
    exact Nat.lt_irrefl _ hle
  unfold flowOf
  rw [hnone]
  rfl

theorem sum_map_sum {A B : Type} (l : List A) (t : Finset B) (f : A → B → M) :
    (l.map fun a => ∑ b ∈ t, f a b).sum = ∑ b ∈ t, (l.map fun a => f a b).sum := by
  induction l with
  | nil => exact Finset.sum_const_zero.symm
  | cons a l ih =>
    simp only [List.map_cons, List.sum_cons, Finset.sum_add_distrib]
    rw [ih]

/-- What comes in at a vertex is the seed at the root, and what the edges make of the flows at their
sources. -/
theorem flow_eq (hfalls : g.Falls rank) (x : V) : g.flow x =
    (if x = g.root then g.seed else 0) +
      ((g.edgesInto x).map fun e => g.act e (g.flow (g.source e))).sum := by
  have hzero : g.flowOf 0 x = if x = g.root then g.seed else 0 := by
    unfold flowOf
    rw [walksOf_zero]
    split
    · exact add_zero _
    · rfl
  rw [flow_eq_sum, Finset.sum_range_succ', hzero, add_comm]
  congr 1
  calc ∑ n ∈ Finset.range g.edges.length, g.flowOf (n + 1) x
      = ∑ n ∈ Finset.range g.edges.length,
          ((g.edgesInto x).map fun e => g.act e (g.flowOf n (g.source e))).sum :=
        Finset.sum_congr rfl fun n _ => flowOf_succ n x
    _ = ((g.edgesInto x).map fun e =>
          ∑ n ∈ Finset.range g.edges.length, g.act e (g.flowOf n (g.source e))).sum :=
        (sum_map_sum _ _ _).symm
    _ = ((g.edgesInto x).map fun e => g.act e (g.flow (g.source e))).sum := by
        refine congrArg List.sum (List.map_congr_left fun e he => ?_)
        rw [flow_eq_sum, Finset.sum_range_succ, flowOf_length hfalls (mem_edgesInto.mp he).1,
          add_zero, map_sum]

/-! ## Handing on -/

variable (g) in
/-- What has come in at a vertex when the vertices of `done` have handed on their flows. -/
def incoming (done : List V) (x : V) : M :=
  (if x = g.root then g.seed else 0) +
    (((g.edgesInto x).filter fun e => g.source e ∈ done).map fun e =>
      g.act e (g.flow (g.source e))).sum

variable (g) in
/-- An order that has every vertex with something to hand on, and before the vertices that it hands
it to. -/
structure Serves (order : List V) : Prop where
  nodup : order.Nodup
  mem : ∀ e ∈ g.edges, g.Reached (g.source e) → g.source e ∈ order
  before : ∀ done u rest, order = done ++ u :: rest →
    ∀ e ∈ g.edges, g.target e = u → g.Reached (g.source e) → g.source e ∈ done

/-- A filter that only takes out what counts for nothing. -/
theorem sum_filter {A : Type} {l : List A} {p : A → Bool} {f : A → M}
    (h : ∀ a ∈ l, p a = false → f a = 0) : ((l.filter p).map f).sum = (l.map f).sum := by
  induction l with
  | nil => rfl
  | cons a l ih =>
    have hrest := ih fun b hb => h b (List.mem_cons_of_mem _ hb)
    rw [List.map_cons, List.sum_cons, ← hrest]
    cases hp : p a with
    | true => rw [List.filter_cons_of_pos hp, List.map_cons, List.sum_cons]
    | false =>
      rw [List.filter_cons_of_neg (by simp [hp]), h a List.mem_cons_self hp, zero_add]

/-- When all that is handed to a vertex has been, its flow has come in. -/
theorem incoming_eq (hfalls : g.Falls rank) {done : List V}
    (h : ∀ e ∈ g.edges, g.target e = x → g.Reached (g.source e) → g.source e ∈ done) :
    g.incoming done x = g.flow x := by
  rw [flow_eq hfalls, incoming]
  refine congrArg _ (sum_filter fun e he hnot => ?_)
  obtain ⟨hedge, htarget⟩ := mem_edgesInto.mp he
  have hlost : ¬ g.Reached (g.source e) := fun hreached =>
    of_decide_eq_false hnot (h e hedge htarget hreached)
  rw [flow_of_not_reached hfalls hlost, map_zero]

/-- A vertex hands on its flow. -/
theorem incoming_append (done : List V) {u : V} (hu : u ∉ done) (x : V) :
    g.incoming (done ++ [u]) x = g.incoming done x +
      (((g.edgesInto x).filter fun e => g.source e = u).map fun e => g.act e (g.flow u)).sum := by
  unfold incoming
  rw [add_assoc]
  congr 1
  induction g.edgesInto x with
  | nil => exact (add_zero _).symm
  | cons e into ih =>
    rw [List.filter_cons, List.filter_cons, List.filter_cons]
    by_cases hsource : g.source e = u
    · rw [if_pos (by simp [hsource]), if_neg (by simp [hsource, hu]), if_pos (by simp [hsource]),
        List.map_cons, List.map_cons, List.sum_cons, List.sum_cons, ih, hsource, add_left_comm]
    · by_cases hdone : g.source e ∈ done
      · rw [if_pos (by simp [hdone]), if_pos (by simp [hdone]), if_neg (by simp [hsource]),
          List.map_cons, List.map_cons, List.sum_cons, List.sum_cons, ih, add_assoc]
      · rw [if_neg (by simp [hdone, hsource]), if_neg (by simp [hdone]),
          if_neg (by simp [hsource]), ih]

theorem Serves.incoming_all (hfalls : g.Falls rank) {order : List V} (h : g.Serves order) (x : V) :
    g.incoming order x = g.flow x :=
  FlowGraph.incoming_eq hfalls fun e he _ hreached => h.mem e he hreached

end FlowGraph
