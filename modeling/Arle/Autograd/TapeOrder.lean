import Arle.Lib.FlowGraph
import Arle.Lib.PostOrder
import Arle.Autograd.GradCells

/-!
# The tape as a graph

Every input of an entry is an edge from the output of the entry to the input. On a recorded tape the
outputs are distinct, and an entry uses only what was there before it, so the position of an entry
ranks its output (`rank`). `collectRelevant` is the depth-first search of that graph
(`collectRelevant_search`), and the order of `backward`, its post-order reversed, has every entry that
is used before those whose outputs it uses (`order_serves`).
-/

namespace Arle.Autograd

variable {F : Type}

/-- The tape was recorded in the store: the operations gave their outputs new ids, and recorded the
outputs that require gradients. -/
structure RecordedIn (base : PlainStore F) (entries : List (TapeEntry F)) : Prop where
  outputs : (entries.map TapeEntry.outputId).Nodup
  output : ∀ entry ∈ entries, ∃ u, base.get entry.outputId = some u ∧ u.requiresGrad = true
  inputs : ∀ entry ∈ entries, ∀ id ∈ entry.inputIds, base.get id ≠ none
  earlier : ∀ (i j : Nat) entry entry', entries[i]? = some entry → entries[j]? = some entry' →
    entry'.outputId ∈ entry.inputIds → j < i

/-- An input of an entry. -/
structure Use where
  index : Nat
  outputId : TensorId
  position : Nat
  inputId : TensorId

namespace Tape

def usesOf (entry : TapeEntry F) (index : Nat) : List Use :=
  entry.inputIds.zipIdx.map fun (inputId, position) => ⟨index, entry.outputId, position, inputId⟩

def uses (entries : List (TapeEntry F)) : List Use :=
  entries.zipIdx.flatMap fun (entry, index) => usesOf entry index

variable {entries : List (TapeEntry F)} {entry : TapeEntry F} {id : TensorId} {index : Nat}

theorem mem_usesOf {use : Use} : use ∈ usesOf entry index ↔ use.index = index ∧
    use.outputId = entry.outputId ∧ entry.inputIds[use.position]? = some use.inputId := by
  unfold usesOf
  rw [List.mem_map]
  constructor
  · rintro ⟨⟨inputId, position⟩, hmem, rfl⟩
    exact ⟨rfl, rfl, List.mem_zipIdx_iff_getElem?.mp hmem⟩
  · rintro ⟨rfl, houtput, hinput⟩
    exact ⟨(use.inputId, use.position), List.mem_zipIdx_iff_getElem?.mpr hinput, by rw [← houtput]⟩

theorem mem_uses {use : Use} : use ∈ uses entries ↔ ∃ entry, entries[use.index]? = some entry ∧
    use.outputId = entry.outputId ∧ entry.inputIds[use.position]? = some use.inputId := by
  unfold uses
  rw [List.mem_flatMap]
  constructor
  · rintro ⟨⟨entry, index⟩, hmem, huse⟩
    obtain ⟨rfl, houtput, hinput⟩ := mem_usesOf.mp huse
    exact ⟨entry, List.mem_zipIdx_iff_getElem?.mp hmem, houtput, hinput⟩
  · rintro ⟨entry, hentry, houtput, hinput⟩
    exact ⟨(entry, use.index), List.mem_zipIdx_iff_getElem?.mpr hentry,
      mem_usesOf.mpr ⟨rfl, houtput, hinput⟩⟩

theorem nodup_zipIdx {A : Type} (l : List A) : l.zipIdx.Nodup :=
  .of_map Prod.snd (List.nodup_zipIdx_map_snd l)

theorem nodup_uses : (uses entries).Nodup := by
  unfold uses
  rw [List.nodup_flatMap]
  refine ⟨fun p _ => (nodup_zipIdx _).map fun a b h => ?_, (nodup_zipIdx entries).imp_of_mem ?_⟩
  · exact Prod.ext (congrArg Use.inputId h) (congrArg Use.position h)
  · intro a b ha hb hne use hua hub
    obtain ⟨hia, -⟩ := mem_usesOf.mp hua
    obtain ⟨hib, -⟩ := mem_usesOf.mp hub
    refine hne (Prod.ext ?_ (hia.symm.trans hib))
    have heq := List.mem_zipIdx_iff_getElem?.mp ha
    rw [← hia, hib, List.mem_zipIdx_iff_getElem?.mp hb] at heq
    exact (Option.some.inj heq).symm

/-- The uses of an output are the inputs of the entry that it comes from. -/
theorem filter_uses (houtputs : (entries.map TapeEntry.outputId).Nodup)
    (hentry : entries[index]? = some entry) (n : Nat) :
    (((entries.zipIdx n).flatMap fun (entry, index) => usesOf entry index).filter
      fun use => use.outputId = entry.outputId) = usesOf entry (n + index) := by
  have hall : ∀ (e : TapeEntry F) i, e.outputId = entry.outputId →
      ((usesOf e i).filter fun use => use.outputId = entry.outputId) = usesOf e i := by
    intro e i h
    refine List.filter_eq_self.mpr fun use huse => decide_eq_true ?_
    exact (mem_usesOf.mp huse).2.1.trans h
  have hnone : ∀ (e : TapeEntry F) i, e.outputId ≠ entry.outputId →
      ((usesOf e i).filter fun use => use.outputId = entry.outputId) = [] := by
    intro e i h
    refine List.filter_eq_nil_iff.mpr fun use huse heq => h ?_
    exact (mem_usesOf.mp huse).2.1.symm.trans (of_decide_eq_true heq)
  induction entries generalizing index n with
  | nil => cases hentry
  | cons e entries ih =>
    obtain ⟨hfresh, hrest⟩ := List.nodup_cons.mp houtputs
    rw [List.zipIdx_cons, List.flatMap_cons, List.filter_append]
    cases index with
    | zero =>
      obtain rfl : e = entry := Option.some.inj hentry
      rw [hall e n rfl, List.filter_flatMap, List.flatMap_eq_nil_iff.mpr, List.append_nil]
      · rfl
      · rintro ⟨e', i⟩ hmem
        refine hnone e' i fun heq => hfresh ?_
        exact heq ▸ List.mem_map_of_mem (List.fst_mem_of_mem_zipIdx hmem)
    | succ index =>
      have hne : e.outputId ≠ entry.outputId := fun heq =>
        hfresh (heq ▸ List.mem_map_of_mem (List.mem_of_getElem? hentry))
      rw [hnone e n hne, List.nil_append, ih hrest hentry, Nat.add_right_comm, Nat.add_assoc]

/-! ## The entry of an output -/

theorem entryByOutput_append : entryByOutput (entries ++ [entry]) =
    Function.update (entryByOutput entries) entry.outputId (some entries.length) := by
  unfold entryByOutput
  rw [List.zipIdx_append, List.foldl_append, Nat.zero_add]
  rfl

theorem entryByOutput_some (h : entryByOutput entries id = some index) :
    ∃ entry, entries[index]? = some entry ∧ entry.outputId = id := by
  induction entries using List.reverseRecOn generalizing index with
  | nil => cases h
  | append_singleton entries entry ih =>
    rw [entryByOutput_append] at h
    by_cases hid : id = entry.outputId
    · subst hid
      rw [Function.update_self] at h
      cases h
      exact ⟨entry, List.getElem?_concat_length, rfl⟩
    · rw [Function.update_of_ne hid] at h
      obtain ⟨entry', hentry', houtput⟩ := ih h
      exact ⟨entry', (List.getElem?_append_left
        (List.getElem?_eq_some_iff.mp hentry').1).trans hentry', houtput⟩

theorem entryByOutput_none (h : entryByOutput entries id = none) :
    ∀ entry ∈ entries, entry.outputId ≠ id := by
  induction entries using List.reverseRecOn with
  | nil => exact fun entry hmem => absurd hmem List.not_mem_nil
  | append_singleton entries last ih =>
    rw [entryByOutput_append] at h
    by_cases hid : id = last.outputId
    · subst hid
      rw [Function.update_self] at h
      cases h
    · rw [Function.update_of_ne hid] at h
      intro entry hmem
      rcases List.mem_append.mp hmem with hmem | hmem
      · exact ih h entry hmem
      · rw [List.mem_singleton.mp hmem]
        exact Ne.symm hid

theorem entryByOutput_of_getElem (houtputs : (entries.map TapeEntry.outputId).Nodup)
    (h : entries[index]? = some entry) : entryByOutput entries entry.outputId = some index := by
  cases hfound : entryByOutput entries entry.outputId with
  | none => exact absurd rfl (entryByOutput_none hfound entry (List.mem_of_getElem? h))
  | some j =>
    obtain ⟨entry', hentry', houtput⟩ := entryByOutput_some hfound
    have hlt : j < (entries.map TapeEntry.outputId).length := by
      rw [List.length_map]
      exact (List.getElem?_eq_some_iff.mp hentry').1
    refine congrArg some ((List.getElem?_inj hlt houtputs).mp ?_)
    rw [List.getElem?_map, List.getElem?_map, hentry', h, Option.map_some, Option.map_some, houtput]

/-! ## The search -/

/-- What the search goes on to from a tensor. -/
def next (entries : List (TapeEntry F)) (id : TensorId) : Option (List TensorId) :=
  ((entryByOutput entries id).bind (entries[·]?)).map TapeEntry.inputIds

/-- The outputs that have been visited and listed. -/
def Relevant.search (entries : List (TapeEntry F)) (state : Relevant) :
    PostOrder.Search TensorId :=
  ⟨state.visitedOutputs, (state.postOrder.filterMap (entries[·]?)).map TapeEntry.outputId⟩

theorem foldlM_map {A B C : Type} {f : A → C → Option A} {g : B → C → Option B} {φ : A → B}
    (h : ∀ a c, (f a c).map φ = g (φ a) c) (l : List C) (a : A) :
    (l.foldlM f a).map φ = l.foldlM g (φ a) := by
  induction l generalizing a with
  | nil => rfl
  | cons c l ih =>
    rw [List.foldlM_cons, List.foldlM_cons, ← h a c]
    cases f a c with
    | none => rfl
    | some a' => exact ih a'

theorem collectRelevant_search (fuel : Nat) (id : TensorId) (state : Relevant) :
    (collectRelevant entries fuel id state).map (Relevant.search entries) =
      PostOrder.visit (next entries) fuel id (state.search entries) := by
  induction fuel generalizing id state with
  | zero => rfl
  | succ fuel ih =>
    rw [collectRelevant, PostOrder.visit, next]
    dsimp only
    cases hfound : entryByOutput entries id with
    | none => rfl
    | some index =>
      obtain ⟨entry, hentry, rfl⟩ := entryByOutput_some hfound
      simp only [Option.bind_some, hentry, Option.map_some]
      by_cases hvisited : entry.outputId ∈ state.visitedOutputs
      · rw [if_pos hvisited, if_pos (by exact hvisited)]
        rfl
      · rw [if_neg hvisited, if_neg (by exact hvisited), Option.map_map]
        have hfold := foldlM_map
          (f := fun state inputId => collectRelevant entries fuel inputId state)
          (g := fun s w => PostOrder.visit (next entries) fuel w s) (φ := Relevant.search entries)
          (fun a c => ih c a) entry.inputIds
          ⟨entry.outputId :: state.relevantTensors, entry.outputId :: state.visitedOutputs,
            state.postOrder⟩
        rw [Relevant.search] at hfold
        rw [Relevant.search, ← hfold, Option.map_map]
        refine congrArg (fun f => Option.map f _) (funext fun s => ?_)
        simp [Relevant.search, hentry]

variable {base : PlainStore F}

/-- The rank of an output is its position on the tape. -/
def rank (entries : List (TapeEntry F)) (id : TensorId) : Nat :=
  match entryByOutput entries id with
  | some index => index + 1
  | none => 0

theorem rank_le (id : TensorId) : rank entries id ≤ entries.length := by
  unfold rank
  cases hfound : entryByOutput entries id with
  | none => exact Nat.zero_le _
  | some index =>
    obtain ⟨entry, hentry, -⟩ := entryByOutput_some hfound
    exact (List.getElem?_eq_some_iff.mp hentry).1

theorem rank_input (hrec : RecordedIn base entries) (hentry : entries[index]? = some entry)
    (hid : id ∈ entry.inputIds) : rank entries id < rank entries entry.outputId := by
  unfold rank
  rw [entryByOutput_of_getElem hrec.outputs hentry]
  cases hfound : entryByOutput entries id with
  | none => exact Nat.succ_pos _
  | some j =>
    obtain ⟨entry', hentry', houtput⟩ := entryByOutput_some hfound
    exact Nat.succ_lt_succ (hrec.earlier index j entry entry' hentry hentry' (houtput ▸ hid))

theorem next_eq_some {ids : List TensorId} : next entries id = some ids ↔
    ∃ index entry, entryByOutput entries id = some index ∧ entries[index]? = some entry ∧
      entry.outputId = id ∧ entry.inputIds = ids := by
  unfold next
  rw [Option.map_eq_some_iff]
  constructor
  · rintro ⟨entry, hbind, rfl⟩
    obtain ⟨index, hfound, hentry⟩ := Option.bind_eq_some_iff.mp hbind
    obtain ⟨entry', hentry', houtput⟩ := entryByOutput_some hfound
    rw [hentry] at hentry'
    cases hentry'
    exact ⟨index, entry, hfound, hentry, houtput, rfl⟩
  · rintro ⟨index, entry, hfound, hentry, -, rfl⟩
    exact ⟨entry, Option.bind_eq_some_iff.mpr ⟨index, hfound, hentry⟩, rfl⟩

theorem step_use {use : Use} (hrec : RecordedIn base entries) (huse : use ∈ uses entries) :
    PostOrder.Step (next entries) use.outputId use.inputId := by
  obtain ⟨entry, hentry, houtput, hinput⟩ := mem_uses.mp huse
  exact ⟨entry.inputIds, next_eq_some.mpr ⟨use.index, entry,
    houtput ▸ entryByOutput_of_getElem hrec.outputs hentry, hentry, houtput.symm, rfl⟩,
    List.mem_of_getElem? hinput⟩

/-- The entries in the order in which `backward` comes to them. -/
def order (entries : List (TapeEntry F)) (postOrder : List Nat) : List (TapeEntry F) :=
  postOrder.reverse.filterMap fun entryIndex => entries[entryIndex]?

theorem mem_order {postOrder : List Nat} (h : entry ∈ order entries postOrder) :
    ∃ index : Nat, entries[index]? = some entry := by
  obtain ⟨index, -, hentry⟩ := List.mem_filterMap.mp h
  exact ⟨index, hentry⟩

/-! ## The graph -/

variable [AddCommMonoid F]

/-- The graph of the uses: an edge takes a gradient of the output to one of the input. -/
def graph (entries : List (TapeEntry F)) (adjoint : Nat → Nat → (Nat → F) →+ (Nat → F))
    (lossId : TensorId) (seed : Nat → F) : FlowGraph TensorId Use (Nat → F) where
  edges := uses entries
  source := Use.outputId
  target := Use.inputId
  act use := adjoint use.index use.position
  root := lossId
  seed := seed

variable {adjoint : Nat → Nat → (Nat → F) →+ (Nat → F)} {lossId : TensorId} {seed : Nat → F}

theorem graph_falls (hrec : RecordedIn base entries) :
    (graph entries adjoint lossId seed).Falls (rank entries) := by
  intro use huse
  obtain ⟨entry, hentry, houtput, hinput⟩ := mem_uses.mp huse
  change rank entries use.inputId < rank entries use.outputId
  rw [houtput]
  exact rank_input hrec hentry (List.mem_of_getElem? hinput)

theorem reach_of_reached (hrec : RecordedIn base entries)
    (h : (graph entries adjoint lossId seed).Reached id) :
    Relation.ReflTransGen (PostOrder.Step (next entries)) lossId id := by
  obtain ⟨walk, hwalk⟩ := h
  induction walk generalizing id with
  | nil => exact hwalk ▸ .refl
  | cons use walk ih =>
    obtain ⟨huse, rfl, hrest⟩ := hwalk
    exact (ih hrest).tail (step_use hrec huse)

/-- A post-order that is reversed serves the graph. -/
theorem reverse_serves (hrec : RecordedIn base entries) {s : PostOrder.Search TensorId}
    (hordered : PostOrder.Ordered (next entries) s)
    (hmem : ∀ u, u ∈ s.post ↔
      Relation.ReflTransGen (PostOrder.Step (next entries)) lossId u ∧ next entries u ≠ none) :
    (graph entries adjoint lossId seed).Serves s.post.reverse where
  nodup := List.nodup_reverse.mpr hordered.nodup
  mem use huse hreached := by
    obtain ⟨ids, hids, -⟩ := step_use hrec huse
    exact List.mem_reverse.mpr ((hmem _).mpr
      ⟨reach_of_reached hrec hreached, hids ▸ Option.some_ne_none ids⟩)
  before done u rest hpost use huse htarget hreached := by
    have hstep := step_use hrec huse
    obtain ⟨ids, hids, -⟩ := step_use hrec huse
    have hsplit : s.post = rest.reverse ++ u :: done.reverse := by
      rw [← List.reverse_reverse s.post, hpost]
      simp
    have hsource : use.outputId ∈ s.post :=
      (hmem _).mpr ⟨reach_of_reached hrec hreached, hids ▸ Option.some_ne_none ids⟩
    have hlisted : next entries u ≠ none :=
      hordered.listed u (hsplit ▸ List.mem_append_right _ List.mem_cons_self)
    rw [hsplit] at hsource
    rcases List.mem_append.mp hsource with hbefore | hafter
    · -- then the input would be listed before its use, and a second time behind it
      obtain ⟨p, q, hpq⟩ := List.append_of_mem hbefore
      have hposition : s.post = p ++ use.outputId :: (q ++ u :: done.reverse) := by
        rw [hsplit, hpq]
        simp
      have hu := hordered.after p use.outputId _ hposition u (htarget ▸ hstep) hlisted
      have hnodup := hordered.nodup
      rw [hsplit] at hnodup
      refine absurd rfl ((List.nodup_append.mp hnodup).2.2 u ?_ u List.mem_cons_self)
      exact hpq ▸ List.mem_append_left _ hu
    · rcases List.mem_cons.mp hafter with heq | hafter
      · obtain ⟨entry, hentry, houtput, hinput⟩ := mem_uses.mp huse
        have hlt := rank_input hrec hentry (List.mem_of_getElem? hinput)
        have htarget : use.inputId = u := htarget
        rw [← houtput, htarget, heq] at hlt
        exact absurd hlt (Nat.lt_irrefl _)
      · exact List.mem_reverse.mp hafter

/-- The search returns, and its order serves the graph. -/
theorem order_serves (hrec : RecordedIn base entries) (enabled : Bool) : ∃ postOrder,
    Tape.postOrder ⟨entries, enabled⟩ lossId = some postOrder ∧
    (graph entries adjoint lossId seed).Serves
      ((order entries postOrder).map TapeEntry.outputId) := by
  have hrank : ∀ v w, PostOrder.Step (next entries) v w → rank entries w < rank entries v := by
    rintro v w ⟨ids, hids, hw⟩
    obtain ⟨index, entry, -, hentry, rfl, rfl⟩ := next_eq_some.mp hids
    exact rank_input hrec hentry hw
  have hdepth : rank entries lossId < entries.length + 1 := Nat.lt_succ_of_le (rank_le lossId)
  obtain ⟨s, hvisit, hordered, hmem⟩ := PostOrder.search_spec hrank hdepth
  have hsearch : (collectRelevant entries (entries.length + 1) lossId ⟨[], [], []⟩).map
      (Relevant.search entries) = some s :=
    (collectRelevant_search _ _ _).trans hvisit
  obtain ⟨state, hstate, rfl⟩ := Option.map_eq_some_iff.mp hsearch
  refine ⟨state.postOrder, by unfold postOrder; rw [hstate]; rfl, ?_⟩
  have horder : (order entries state.postOrder).map TapeEntry.outputId =
      (state.search entries).post.reverse := by
    unfold order Relevant.search
    rw [List.filterMap_reverse, List.map_reverse]
  rw [horder]
  exact reverse_serves hrec hordered hmem

end Tape

end Arle.Autograd
