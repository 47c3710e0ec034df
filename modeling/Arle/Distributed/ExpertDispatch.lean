import Mathlib
import Arle.Lib.AxisGroups
import Arle.Lib.RowSums
import Arle.Distributed.ExpertState

/-!
# Expert dispatch and combination

Every rank of an expert-parallel group collects the hidden rows that are routed to its experts;
the rows that the experts make of them are weighted and added up per token. The numbers are taken
from a commutative semiring, in place of `f32`.
-/

namespace Arle.Distributed

structure ExpertRoute (R : Type) where
  tokenIdx : Nat
  expertIdx : Nat
  weight : R

structure ExpertRoutingWeights (R : Type) where
  numExperts : Nat
  routes : List (ExpertRoute R)

structure ExpertOutput (R : Type) where
  rank : Nat
  expertIdx : Nat
  tokenIndices : List Nat
  hiddenStates : List (List R)
deriving DecidableEq

/-- The fields of a coordinator that place a rank in its group. -/
structure GroupCoordinator where
  ranks : List Nat
  rank : Nat
  rankInGroup : Nat

section Model

variable {R : Type} [CommSemiring R]

namespace GroupCoordinator

def worldSize (self : GroupCoordinator) : Nat := self.ranks.length

/-- The check of a route in `dispatch_to_experts`. -/
def checkRoute (routing : ExpertRoutingWeights R) (hiddenStates : List (List R))
    (route : ExpertRoute R) : Except String Unit :=
  if route.expertIdx ≥ routing.numExperts then
    .error s!"route expert {route.expertIdx} out of range for num_experts {routing.numExperts}"
  else if route.tokenIdx ≥ hiddenStates.length then
    .error (s!"route token {route.tokenIdx} out of range for hidden_states len " ++
      s!"{hiddenStates.length}")
  else
    .ok ()

/-- The rows of an expert, if there are any. -/
def dispatchExpert (self : GroupCoordinator) (routing : ExpertRoutingWeights R)
    (hiddenStates : List (List R)) (expertIdx : Nat) : Option (ExpertOutput R) :=
  let routed := routing.routes.filter fun route => route.expertIdx = expertIdx
  if routed.isEmpty then none
  else some {
    rank := self.rank
    expertIdx
    tokenIndices := routed.map ExpertRoute.tokenIdx
    hiddenStates := routed.map fun route => hiddenStates.getD route.tokenIdx [] }

def dispatchToExperts (self : GroupCoordinator) (routing : ExpertRoutingWeights R)
    (hiddenStates : List (List R)) : Except String (List (ExpertOutput R)) := do
  let expertGroup ← ExpertGroup.new self.rankInGroup self.worldSize routing.numExperts
  routing.routes.forM (checkRoute routing hiddenStates)
  return expertGroup.localExpertRange.filterMap (self.dispatchExpert routing hiddenStates)

/-- The first route of a token to an expert. -/
def findRoute (routing : ExpertRoutingWeights R) (tokenIdx expertIdx : Nat) :
    Option (ExpertRoute R) :=
  routing.routes.find? fun route => route.tokenIdx = tokenIdx ∧ route.expertIdx = expertIdx

/-- One row of an expert output is added to the row of its token. -/
def combineRow (routing : ExpertRoutingWeights R) (hiddenDim expertIdx : Nat)
    (combined : List (List R)) (row : Nat × List R) : Except String (List (List R)) :=
  if row.2.length ≠ hiddenDim then
    .error s!"expert output hidden dim {row.2.length} does not match expected {hiddenDim}"
  else
    match findRoute routing row.1 expertIdx with
    | none =>
      .error s!"expert output for token {row.1} expert {expertIdx} has no matching route"
    | some route =>
      .ok (combined.modify row.1 fun dst =>
        List.zipWith (fun dst src => dst + src * route.weight) dst row.2)

def combineOutput (routing : ExpertRoutingWeights R) (hiddenDim : Nat) (combined : List (List R))
    (output : ExpertOutput R) : Except String (List (List R)) :=
  if output.tokenIndices.length ≠ output.hiddenStates.length then
    .error (s!"expert output token row count {output.tokenIndices.length} does not match " ++
      s!"hidden row count {output.hiddenStates.length}")
  else
    (output.tokenIndices.zip output.hiddenStates).foldlM
      (combineRow routing hiddenDim output.expertIdx) combined

/-- The check that an expert has produced the row of a route. -/
def checkProduced (outputs : List (ExpertOutput R)) (route : ExpertRoute R) :
    Except String Unit :=
  if outputs.any fun output =>
      output.expertIdx = route.expertIdx && output.tokenIndices.contains route.tokenIdx then
    .ok ()
  else
    .error s!"route token {route.tokenIdx} expert {route.expertIdx} has no expert output"

def maxTokenIdx (routing : ExpertRoutingWeights R) : Nat :=
  (routing.routes.map ExpertRoute.tokenIdx).max?.getD 0

/-- The length of the first row of the outputs. -/
def hiddenDim (outputs : List (ExpertOutput R)) : Nat :=
  ((outputs.flatMap ExpertOutput.hiddenStates).head?.map List.length).getD 0

/-- `combine_from_experts`; no field of the coordinator is read. -/
def combineFromExperts (outputs : List (ExpertOutput R)) (routing : ExpertRoutingWeights R) :
    Except String (List (List R)) :=
  if routing.routes.isEmpty then
    .ok []
  else do
    let combined ← outputs.foldlM (combineOutput routing (hiddenDim outputs))
      (List.replicate (maxTokenIdx routing + 1) (List.replicate (hiddenDim outputs) 0))
    routing.routes.forM (checkProduced outputs)
    return combined

end GroupCoordinator

end Model

open GroupCoordinator

/-! ## Rows of outputs -/

/-- A row of an expert output: the expert, the token and the numbers. -/
structure ExpertRow (R : Type) where
  expertIdx : Nat
  tokenIdx : Nat
  hidden : List R

section Rows

variable {R : Type}

def ExpertOutput.rows (output : ExpertOutput R) : List (ExpertRow R) :=
  List.zipWith (ExpertRow.mk output.expertIdx) output.tokenIndices output.hiddenStates

/-- All rows of the outputs, in their order. -/
def rowsOf (outputs : List (ExpertOutput R)) : List (ExpertRow R) :=
  outputs.flatMap ExpertOutput.rows

/-- Every output has a token for each of its rows. -/
def Aligned (outputs : List (ExpertOutput R)) : Prop :=
  ∀ output ∈ outputs, output.tokenIndices.length = output.hiddenStates.length

/-- The route of a row. -/
def ExpertRow.IsOf (row : ExpertRow R) (route : ExpertRoute R) : Prop :=
  route.tokenIdx = row.tokenIdx ∧ route.expertIdx = row.expertIdx

theorem rows_hiddenStates {outputs : List (ExpertOutput R)} (h : Aligned outputs) :
    outputs.flatMap ExpertOutput.hiddenStates = (rowsOf outputs).map ExpertRow.hidden := by
  rw [rowsOf, List.map_flatMap]
  refine List.flatMap_congr fun output hin => ?_
  rw [ExpertOutput.rows, List.map_zipWith]
  refine List.ext_getElem ?_ fun i hi hi' => ?_
  · rw [List.length_zipWith, h output hin, Nat.min_self]
  · rw [List.getElem_zipWith]

theorem hiddenDim_eq {outputs : List (ExpertOutput R)} (h : Aligned outputs) :
    hiddenDim outputs = ((rowsOf outputs).head?.map fun row => row.hidden.length).getD 0 := by
  rw [hiddenDim, rows_hiddenStates h, List.head?_map, Option.map_map]
  rfl

/-- A route is produced when it is the route of a row. -/
theorem produced_iff {outputs : List (ExpertOutput R)} (h : Aligned outputs)
    (route : ExpertRoute R) : (outputs.any fun output =>
      output.expertIdx = route.expertIdx && output.tokenIndices.contains route.tokenIdx) = true ↔
      ∃ row ∈ rowsOf outputs, row.IsOf route := by
  simp only [List.any_eq_true, Bool.and_eq_true, decide_eq_true_eq, List.contains_iff_mem, rowsOf,
    List.mem_flatMap]
  constructor
  · rintro ⟨output, hin, hexpert, htoken⟩
    obtain ⟨i, hi, hget⟩ := List.getElem_of_mem htoken
    have hrow : i < output.rows.length := by
      rw [ExpertOutput.rows, List.length_zipWith, ← h output hin, Nat.min_self]
      exact hi
    refine ⟨output.rows[i], ⟨output, hin, List.getElem_mem hrow⟩, ?_⟩
    simp only [ExpertOutput.rows, List.getElem_zipWith, ExpertRow.IsOf]
    exact ⟨hget.symm, hexpert.symm⟩
  · rintro ⟨row, ⟨output, hin, hrow⟩, htoken, hexpert⟩
    obtain ⟨i, hi, rfl⟩ := List.getElem_of_mem hrow
    simp only [ExpertOutput.rows, List.getElem_zipWith] at htoken hexpert
    exact ⟨output, hin, hexpert.symm, htoken ▸ List.getElem_mem _⟩

end Rows

/-! ## Combination -/

section Combine

variable {R : Type} [CommSemiring R] {routing : ExpertRoutingWeights R}
  {outputs : List (ExpertOutput R)}

/-- The weight of a row: that of its first route. -/
def weightOf (routing : ExpertRoutingWeights R) (row : ExpertRow R) : R :=
  (findRoute routing row.tokenIdx row.expertIdx).elim 0 ExpertRoute.weight

/-- What a row adds to the row of its token. -/
def written (routing : ExpertRoutingWeights R) (row : ExpertRow R) : Nat × List R :=
  (row.tokenIdx, row.hidden.map (· * weightOf routing row))

/-- A row that is accepted: it has the common length and a route. -/
def Accepted (routing : ExpertRoutingWeights R) (hiddenDim : Nat) (row : ExpertRow R) : Prop :=
  row.hidden.length = hiddenDim ∧ ∃ route ∈ routing.routes, row.IsOf route

omit [CommSemiring R] in
theorem findRoute_isSome (row : ExpertRow R) :
    (∃ route, findRoute routing row.tokenIdx row.expertIdx = some route) ↔
      ∃ route ∈ routing.routes, row.IsOf route := by
  constructor
  · rintro ⟨route, hfind⟩
    have hkeys := List.find?_some hfind
    simp only [decide_eq_true_eq] at hkeys
    exact ⟨route, List.mem_of_find?_eq_some hfind, hkeys⟩
  · rintro ⟨route, hroute, hof⟩
    rw [← Option.isSome_iff_exists, findRoute, List.find?_isSome]
    exact ⟨route, hroute, decide_eq_true hof⟩

/-- A row of the list, added by `combine_from_experts`. -/
def combineExpertRow (routing : ExpertRoutingWeights R) (hiddenDim : Nat)
    (combined : List (List R)) (row : ExpertRow R) : Except String (List (List R)) :=
  combineRow routing hiddenDim row.expertIdx combined (row.tokenIdx, row.hidden)

theorem combineExpertRow_accepted {hiddenDim : Nat} {row : ExpertRow R}
    (h : Accepted routing hiddenDim row) (combined : List (List R)) :
    combineExpertRow routing hiddenDim combined row =
      .ok (addRows [written routing row] combined) := by
  obtain ⟨hlen, hroute⟩ := h
  obtain ⟨route, hfind⟩ := (findRoute_isSome row).mpr hroute
  have hweight : weightOf routing row = route.weight := by rw [weightOf, hfind]; rfl
  rw [combineExpertRow, combineRow, if_neg (not_not.mpr hlen)]
  dsimp only
  rw [hfind]
  refine congrArg Except.ok (congrArg (combined.modify row.tokenIdx) (funext fun dst => ?_))
  show _ = List.zipWith (· + ·) dst (row.hidden.map (· * weightOf routing row))
  rw [hweight, List.zipWith_map_right]

theorem combineExpertRow_refused {hiddenDim : Nat} {row : ExpertRow R}
    (h : ¬ Accepted routing hiddenDim row) (combined : List (List R)) :
    ∃ err, combineExpertRow routing hiddenDim combined row = .error err := by
  rw [combineExpertRow, combineRow]
  by_cases hlen : row.hidden.length = hiddenDim
  · rw [if_neg (not_not.mpr hlen)]
    have hnone : findRoute routing row.tokenIdx row.expertIdx = none := by
      refine Option.eq_none_iff_forall_not_mem.mpr fun route hfind => h ⟨hlen, ?_⟩
      exact (findRoute_isSome row).mp ⟨route, hfind⟩
    dsimp only
    rw [hnone]
    exact ⟨_, rfl⟩
  · rw [if_pos hlen]
    exact ⟨_, rfl⟩

theorem combineRows_accepted {hiddenDim : Nat} {rows : List (ExpertRow R)}
    (h : ∀ row ∈ rows, Accepted routing hiddenDim row) (combined : List (List R)) :
    rows.foldlM (combineExpertRow routing hiddenDim) combined =
      .ok (addRows (rows.map (written routing)) combined) := by
  induction rows generalizing combined with
  | nil => rfl
  | cons row rows ih =>
    rw [List.foldlM_cons, combineExpertRow_accepted (h row List.mem_cons_self)]
    exact ih (fun row' hrow' => h row' (List.mem_cons_of_mem _ hrow')) _

theorem combineRows_refused {hiddenDim : Nat} {rows : List (ExpertRow R)} {row : ExpertRow R}
    (hrow : row ∈ rows) (h : ¬ Accepted routing hiddenDim row) (combined : List (List R)) :
    ∃ err, rows.foldlM (combineExpertRow routing hiddenDim) combined = .error err := by
  induction rows generalizing combined with
  | nil => exact absurd hrow List.not_mem_nil
  | cons row' rows ih =>
    rw [List.foldlM_cons]
    by_cases haccepted : Accepted routing hiddenDim row'
    · rw [combineExpertRow_accepted haccepted]
      refine ih ?_ _
      exact (List.mem_cons.mp hrow).resolve_left fun heq => h (heq ▸ haccepted)
    · obtain ⟨err, herr⟩ := combineExpertRow_refused haccepted combined
      rw [herr]
      exact ⟨err, rfl⟩

/-- The outputs are combined row by row. -/
theorem combineOutputs_eq (h : Aligned outputs) (hiddenDim : Nat) (combined : List (List R)) :
    outputs.foldlM (combineOutput routing hiddenDim) combined =
      (rowsOf outputs).foldlM (combineExpertRow routing hiddenDim) combined := by
  induction outputs generalizing combined with
  | nil => rfl
  | cons output outputs ih =>
    have hlen := h output List.mem_cons_self
    have hrows : output.rows.foldlM (combineExpertRow routing hiddenDim) combined =
        combineOutput routing hiddenDim combined output := by
      rw [combineOutput, if_neg (not_not.mpr hlen), ExpertOutput.rows,
        ← List.map_uncurry_zip_eq_zipWith, List.foldlM_map]
      rfl
    rw [List.foldlM_cons, rowsOf, List.flatMap_cons, List.foldlM_append, hrows]
    refine bind_congr fun next => ?_
    exact ih (fun output' hin => h output' (List.mem_cons_of_mem _ hin)) next

theorem forM_ok {α : Type} {f : α → Except String Unit} {items : List α}
    (h : ∀ a ∈ items, f a = .ok ()) : items.forM f = .ok () := by
  induction items with
  | nil => rfl
  | cons a items ih =>
    show (f a >>= fun _ => items.forM f) = .ok ()
    rw [h a List.mem_cons_self]
    exact ih fun b hb => h b (List.mem_cons_of_mem _ hb)

theorem forM_error {α : Type} {f : α → Except String Unit} {items : List α} {a : α} {err : String}
    (ha : a ∈ items) (h : f a = .error err) : ∃ err', items.forM f = .error err' := by
  induction items with
  | nil => exact absurd ha List.not_mem_nil
  | cons b items ih =>
    show ∃ err', (f b >>= fun _ => items.forM f) = .error err'
    cases hb : f b with
    | error err' => exact ⟨err', rfl⟩
    | ok _ =>
      refine ih ((List.mem_cons.mp ha).resolve_left fun heq => ?_)
      rw [heq, hb] at h
      cases h

theorem combineFromExperts_ok (hroutes : routing.routes ≠ []) (h : Aligned outputs)
    (haccepted : ∀ row ∈ rowsOf outputs, Accepted routing (hiddenDim outputs) row)
    (hproduced : ∀ route ∈ routing.routes, ∃ row ∈ rowsOf outputs, row.IsOf route) :
    combineFromExperts outputs routing = .ok (addRows ((rowsOf outputs).map (written routing))
      (List.replicate (maxTokenIdx routing + 1) (List.replicate (hiddenDim outputs) 0))) := by
  rw [combineFromExperts, if_neg (by simpa using hroutes), combineOutputs_eq h,
    combineRows_accepted haccepted]
  have hchecked : routing.routes.forM (checkProduced outputs) = .ok () :=
    forM_ok fun route hroute => if_pos ((produced_iff h route).mpr (hproduced route hroute))
  show (routing.routes.forM (checkProduced outputs) >>= fun _ => pure _) = _
  rw [hchecked]
  rfl

theorem combineFromExperts_refused (hroutes : routing.routes ≠ []) (h : Aligned outputs)
    {row : ExpertRow R} (hrow : row ∈ rowsOf outputs)
    (hrefused : ¬ Accepted routing (hiddenDim outputs) row) :
    ∃ err, combineFromExperts outputs routing = .error err := by
  obtain ⟨err, herr⟩ := combineRows_refused hrow hrefused
    (List.replicate (maxTokenIdx routing + 1) (List.replicate (hiddenDim outputs) 0))
  rw [combineFromExperts, if_neg (by simpa using hroutes), combineOutputs_eq h, herr]
  exact ⟨err, rfl⟩

theorem combineFromExperts_missing (h : Aligned outputs) {route : ExpertRoute R}
    (hroute : route ∈ routing.routes) (hmissing : ∀ row ∈ rowsOf outputs, ¬ row.IsOf route) :
    ∃ err, combineFromExperts outputs routing = .error err := by
  have hroutes : routing.routes ≠ [] := List.ne_nil_of_mem hroute
  have hcheck : ∃ err, checkProduced outputs route = .error err := by
    rw [checkProduced, if_neg]
    · exact ⟨_, rfl⟩
    · intro hany
      obtain ⟨row, hrow, hof⟩ := (produced_iff h route).mp hany
      exact hmissing row hrow hof
  obtain ⟨err, herr⟩ := forM_error hroute hcheck.choose_spec
  rw [combineFromExperts, if_neg (by simpa using hroutes)]
  cases hfold : outputs.foldlM (combineOutput routing (hiddenDim outputs))
      (List.replicate (maxTokenIdx routing + 1) (List.replicate (hiddenDim outputs) 0)) with
  | error err' => exact ⟨err', rfl⟩
  | ok combined =>
    show ∃ err, (routing.routes.forM (checkProduced outputs) >>= fun _ => pure combined) =
      .error err
    rw [herr]
    exact ⟨err, rfl⟩

end Combine

/-! ## Dispatch -/

section Dispatch

variable {R : Type} {routing : ExpertRoutingWeights R} {hiddenStates : List (List R)}

/-- An expert maps the rows of its output one by one. -/
def ExpertOutput.transform (f : Nat → List R → List R) (output : ExpertOutput R) :
    ExpertOutput R :=
  { output with hiddenStates := output.hiddenStates.map (f output.expertIdx) }

/-- The row that a route is to give. -/
def routedRow (f : Nat → List R → List R) (hiddenStates : List (List R)) (route : ExpertRoute R) :
    ExpertRow R where
  expertIdx := route.expertIdx
  tokenIdx := route.tokenIdx
  hidden := f route.expertIdx (hiddenStates.getD route.tokenIdx [])

/-- The indices of the routes are in range. -/
def InRange (routing : ExpertRoutingWeights R) (hiddenStates : List (List R)) : Prop :=
  ∀ route ∈ routing.routes,
    route.expertIdx < routing.numExperts ∧ route.tokenIdx < hiddenStates.length

/-- What the rank `rank` dispatches to its experts. -/
def dispatched (self : GroupCoordinator) (routing : ExpertRoutingWeights R)
    (hiddenStates : List (List R)) : List (ExpertOutput R) :=
  let perRank := routing.numExperts / self.worldSize
  (List.range' (self.rankInGroup * perRank) perRank).filterMap
    (self.dispatchExpert routing hiddenStates)

theorem dispatchToExperts_eq (self : GroupCoordinator) (hrank : self.rankInGroup < self.worldSize)
    (hpos : 0 < routing.numExperts) (hdiv : routing.numExperts % self.worldSize = 0)
    (hrange : InRange routing hiddenStates) :
    self.dispatchToExperts routing hiddenStates = .ok (dispatched self routing hiddenStates) := by
  have hchecked : routing.routes.forM (checkRoute routing hiddenStates) = .ok () := by
    refine forM_ok fun route hroute => ?_
    obtain ⟨hexpert, htoken⟩ := hrange route hroute
    rw [checkRoute, if_neg (by omega), if_neg (by omega)]
  unfold dispatchToExperts ExpertGroup.new
  rw [dif_neg (by omega), dif_neg (by omega), dif_neg (by omega), dif_neg (not_not.mpr hdiv)]
  show (routing.routes.forM (checkRoute routing hiddenStates) >>= fun _ => pure _) = _
  rw [hchecked]
  rfl

theorem aligned_dispatched (self : GroupCoordinator) (f : Nat → List R → List R) :
    Aligned ((dispatched self routing hiddenStates).map (ExpertOutput.transform f)) := by
  intro output hin
  obtain ⟨before, hbefore, rfl⟩ := List.mem_map.mp hin
  obtain ⟨expertIdx, -, hsome⟩ := List.mem_filterMap.mp hbefore
  rw [dispatchExpert] at hsome
  split at hsome
  · cases hsome
  · cases hsome
    simp [ExpertOutput.transform]

/-- The rows of one expert, transformed. -/
theorem rows_dispatchExpert (self : GroupCoordinator) (f : Nat → List R → List R)
    (experts : List Nat) : rowsOf ((experts.filterMap
        (self.dispatchExpert routing hiddenStates)).map (ExpertOutput.transform f)) =
      experts.flatMap fun expertIdx => (routing.routes.filter fun route =>
        route.expertIdx = expertIdx).map (routedRow f hiddenStates) := by
  induction experts with
  | nil => rfl
  | cons expertIdx experts ih =>
    rw [List.flatMap_cons, ← ih]
    cases hrouted : routing.routes.filter fun route => route.expertIdx = expertIdx with
    | nil =>
      have hnone : self.dispatchExpert routing hiddenStates expertIdx = none := by
        rw [dispatchExpert, hrouted]
        rfl
      rw [List.filterMap_cons_none hnone]
      rfl
    | cons route routes =>
      have hsome : self.dispatchExpert routing hiddenStates expertIdx = some {
          rank := self.rank
          expertIdx
          tokenIndices := (route :: routes).map ExpertRoute.tokenIdx
          hiddenStates := (route :: routes).map fun route =>
            hiddenStates.getD route.tokenIdx [] } := by
        rw [dispatchExpert, hrouted]
        rfl
      have hexpert : ∀ route' ∈ route :: routes, route'.expertIdx = expertIdx := by
        intro route' hin
        rw [← hrouted] at hin
        exact of_decide_eq_true (List.mem_filter.mp hin).2
      rw [List.filterMap_cons_some hsome, List.map_cons, rowsOf, List.flatMap_cons]
      refine congrArg (· ++ _) ?_
      rw [ExpertOutput.rows, ExpertOutput.transform, List.map_map, List.zipWith_map_left,
        List.zipWith_map_right, List.zipWith_self]
      refine List.map_congr_left fun route' hin => ?_
      rw [routedRow, hexpert route' hin]
      rfl

open scoped List in
/-- All ranks together dispatch one row for each route. -/
theorem rows_dispatched {worldSize : Nat} {coordinator : Nat → GroupCoordinator}
    (hrank : ∀ r < worldSize, (coordinator r).rankInGroup = r ∧
      (coordinator r).worldSize = worldSize)
    (hdiv : routing.numExperts % worldSize = 0) (hrange : InRange routing hiddenStates)
    (f : Nat → List R → List R) {order : List Nat} (horder : order.Perm (List.range worldSize)) :
    (rowsOf (order.flatMap fun r => (dispatched (coordinator r) routing hiddenStates).map
      (ExpertOutput.transform f))).Perm (routing.routes.map (routedRow f hiddenStates)) := by
  let rowsAt := fun expertIdx => (routing.routes.filter fun route =>
    route.expertIdx = expertIdx).map (routedRow f hiddenStates)
  have hperRank : ∀ r ∈ List.range worldSize, rowsOf ((dispatched (coordinator r) routing
      hiddenStates).map (ExpertOutput.transform f)) =
      (List.range (routing.numExperts / worldSize)).flatMap fun j =>
        rowsAt (r * (routing.numExperts / worldSize) + j) := by
    intro r hr
    obtain ⟨hin, hworld⟩ := hrank r (List.mem_range.mp hr)
    rw [dispatched, rows_dispatchExpert, hin, hworld, List.range'_eq_map_range, List.flatMap_map]
  have hall : (routing.numExperts / worldSize) * worldSize = routing.numExperts :=
    Nat.div_mul_cancel (Nat.dvd_of_mod_eq_zero hdiv)
  have hkeys : ∀ route ∈ routing.routes, route.expertIdx ∈ List.range routing.numExperts :=
    fun route hroute => List.mem_range.mpr (hrange route hroute).1
  have hparts := perm_flatMap_filter ExpertRoute.expertIdx List.nodup_range hkeys
  calc rowsOf (order.flatMap fun r => (dispatched (coordinator r) routing hiddenStates).map
          (ExpertOutput.transform f))
      = order.flatMap fun r => rowsOf ((dispatched (coordinator r) routing hiddenStates).map
          (ExpertOutput.transform f)) := List.flatMap_assoc
    _ ~ (List.range worldSize).flatMap fun r => rowsOf ((dispatched (coordinator r) routing
          hiddenStates).map (ExpertOutput.transform f)) := horder.flatMap_right _
    _ = (List.range worldSize).flatMap fun r =>
          (List.range (routing.numExperts / worldSize)).flatMap fun j =>
            rowsAt (r * (routing.numExperts / worldSize) + j) := List.flatMap_congr hperRank
    _ = (List.range routing.numExperts).flatMap rowsAt := by
      rw [← AxisGroups.flatMap_range_mul, Nat.mul_comm, hall]
    _ = ((List.range routing.numExperts).flatMap fun expertIdx =>
          routing.routes.filter fun route => route.expertIdx = expertIdx).map
            (routedRow f hiddenStates) := by rw [List.map_flatMap]
    _ ~ routing.routes.map (routedRow f hiddenStates) := hparts.map _

end Dispatch

/-! ## The routed mixture -/

section Mixture

variable {R : Type} [CommSemiring R] {routing : ExpertRoutingWeights R}
  {hiddenStates : List (List R)} {f : Nat → List R → List R} {dim : Nat}
  {outputs outputs' : List (ExpertOutput R)}

/-- No two routes have the same token and expert. -/
def Distinct (routing : ExpertRoutingWeights R) : Prop :=
  (routing.routes.map fun route => (route.tokenIdx, route.expertIdx)).Nodup

/-- The outputs have one transformed row for each route. -/
structure OneRowEach (routing : ExpertRoutingWeights R) (hiddenStates : List (List R))
    (f : Nat → List R → List R) (dim : Nat) (outputs : List (ExpertOutput R)) : Prop where
  aligned : Aligned outputs
  rows : (rowsOf outputs).Perm (routing.routes.map (routedRow f hiddenStates))
  dims : ∀ route ∈ routing.routes,
    (f route.expertIdx (hiddenStates.getD route.tokenIdx [])).length = dim

namespace OneRowEach

omit [CommSemiring R] in
theorem mem_rows (h : OneRowEach routing hiddenStates f dim outputs) {row : ExpertRow R}
    (hrow : row ∈ rowsOf outputs) :
    row.hidden.length = dim ∧ ∃ route ∈ routing.routes, row.IsOf route := by
  obtain ⟨route, hroute, rfl⟩ := List.mem_map.mp (h.rows.subset hrow)
  exact ⟨h.dims route hroute, route, hroute, rfl, rfl⟩

omit [CommSemiring R] in
theorem exists_row (h : OneRowEach routing hiddenStates f dim outputs) {route : ExpertRoute R}
    (hroute : route ∈ routing.routes) : routedRow f hiddenStates route ∈ rowsOf outputs :=
  h.rows.symm.subset (List.mem_map_of_mem hroute)

omit [CommSemiring R] in
/-- With rows of one length that length is `hidden_dim`. -/
theorem hiddenDim_of_length (haligned : Aligned outputs') (hne : rowsOf outputs' ≠ [])
    (hdims : ∀ row ∈ rowsOf outputs', row.hidden.length = dim) : hiddenDim outputs' = dim := by
  rw [hiddenDim_eq haligned]
  cases hrows : rowsOf outputs' with
  | nil => exact absurd hrows hne
  | cons row rows => exact hdims row (hrows ▸ List.mem_cons_self)

end OneRowEach

theorem weightOf_routedRow (hdistinct : Distinct routing) {route : ExpertRoute R}
    (hroute : route ∈ routing.routes) :
    weightOf routing (routedRow f hiddenStates route) = route.weight := by
  obtain ⟨found, hfind⟩ := (findRoute_isSome (routedRow f hiddenStates route)).mpr
    ⟨route, hroute, rfl, rfl⟩
  have hkeys := List.find?_some hfind
  simp only [decide_eq_true_eq] at hkeys
  have hsame : found = route := List.inj_on_of_nodup_map hdistinct
    (List.mem_of_find?_eq_some hfind) hroute (Prod.ext hkeys.1 hkeys.2)
  rw [weightOf, hfind, hsame]
  rfl

theorem entry_map_mul (row : List R) (w : R) (j : Nat) :
    entry (row.map (· * w)) j = w * entry row j := by
  unfold entry
  rw [List.getD_eq_getElem?_getD, List.getElem?_map, List.getD_eq_getElem?_getD]
  cases row[j]? with
  | none => exact (mul_zero w).symm
  | some x => exact mul_comm x w

/-- The row of a token is the weighted sum of what its experts make of its hidden state. -/
def IsMixture (routing : ExpertRoutingWeights R) (hiddenStates : List (List R))
    (f : Nat → List R → List R) (dim : Nat) (combined : List (List R)) : Prop :=
  ∀ token ≤ maxTokenIdx routing, routing.routes ≠ [] → ∃ row, combined[token]? = some row ∧
    row.length = dim ∧ ∀ j, entry row j = ((routing.routes.filter fun route =>
      route.tokenIdx = token).map fun route => route.weight *
        entry (f route.expertIdx (hiddenStates.getD route.tokenIdx [])) j).sum

theorem combine_isMixture (h : OneRowEach routing hiddenStates f dim outputs)
    (hdistinct : Distinct routing) : ∃ combined,
      combineFromExperts outputs routing = .ok combined ∧
      IsMixture routing hiddenStates f dim combined := by
  by_cases hroutes : routing.routes = []
  · refine ⟨[], ?_, fun _ _ hne => absurd hroutes hne⟩
    rw [combineFromExperts, if_pos (by simpa using hroutes)]
  · have hne : rowsOf outputs ≠ [] := fun hnil => hroutes (by
      have := h.rows
      rw [hnil] at this
      exact List.map_eq_nil_iff.mp this.nil_eq.symm)
    have hdim := OneRowEach.hiddenDim_of_length h.aligned hne fun row hrow => (h.mem_rows hrow).1
    refine ⟨_, combineFromExperts_ok hroutes h.aligned (fun row hrow => hdim.symm ▸ h.mem_rows hrow)
      fun route hroute => ⟨_, h.exists_row hroute, rfl, rfl⟩, fun token htoken _ => ?_⟩
    have hlens : ∀ write ∈ (rowsOf outputs).map (written routing), write.2.length = dim := by
      intro write hwrite
      obtain ⟨row, hrow, rfl⟩ := List.mem_map.mp hwrite
      exact (List.length_map _).trans (h.mem_rows hrow).1
    rw [hdim]
    obtain ⟨row, hget, hlen, hentries⟩ := getElem?_addRows hlens (Nat.lt_succ_of_le htoken)
    refine ⟨row, hget, hlen, fun j => (hentries j).trans ?_⟩
    -- the rows in the order of the routes
    have hperm := ((h.rows.map (written routing)).filter fun write => write.1 = token).map
      fun write => entry write.2 j
    rw [hperm.sum_eq, List.map_map, List.filter_map, List.map_map]
    refine congrArg List.sum (List.map_congr_left fun route hin => ?_)
    have hroute := (List.mem_filter.mp hin).1
    show entry ((routedRow f hiddenStates route).hidden.map
      (· * weightOf routing (routedRow f hiddenStates route))) j = _
    rw [weightOf_routedRow hdistinct hroute, entry_map_mul]
    rfl

omit [CommSemiring R] in
/-- The rows of distinct routes have distinct tokens and experts. -/
theorem OneRowEach.nodup (h : OneRowEach routing hiddenStates f dim outputs)
    (hdistinct : Distinct routing) :
    ((rowsOf outputs).map fun row => (row.tokenIdx, row.expertIdx)).Nodup := by
  rw [(h.rows.map _).nodup_iff, List.map_map]
  exact hdistinct

/-- Without one of the rows the combination fails. -/
theorem combine_dropped (h : OneRowEach routing hiddenStates f dim outputs)
    (hdistinct : Distinct routing) (haligned : Aligned outputs') {row : ExpertRow R}
    (hdrop : (row :: rowsOf outputs').Perm (rowsOf outputs)) :
    ∃ err, combineFromExperts outputs' routing = .error err := by
  obtain ⟨-, route, hroute, hof⟩ := h.mem_rows (hdrop.subset List.mem_cons_self)
  have hnodup := (hdrop.map fun row => (row.tokenIdx, row.expertIdx)).nodup_iff.mpr
    (h.nodup hdistinct)
  rw [List.map_cons, List.nodup_cons] at hnodup
  refine combineFromExperts_missing haligned hroute fun other hother hof' => hnodup.1 ?_
  refine List.mem_map.mpr ⟨other, hother, ?_⟩
  rw [Prod.mk.injEq]
  exact ⟨hof'.1.symm.trans hof.1, hof'.2.symm.trans hof.2⟩

/-- With a further row the combination fails, unless there is no route at all or the row repeats
the token and the expert of a route. -/
theorem combine_added_iff (h : OneRowEach routing hiddenStates f dim outputs)
    (haligned : Aligned outputs') {row : ExpertRow R}
    (hadd : (rowsOf outputs').Perm (row :: rowsOf outputs)) :
    (∃ err, combineFromExperts outputs' routing = .error err) ↔ routing.routes ≠ [] ∧
      ¬ (row.hidden.length = dim ∧ ∃ route ∈ routing.routes, row.IsOf route) := by
  by_cases hroutes : routing.routes = []
  · have hok : combineFromExperts outputs' routing = .ok [] := by
      rw [combineFromExperts, if_pos (by simpa using hroutes)]
    rw [hok]
    exact iff_of_false (by rintro ⟨_, h⟩; cases h) fun hne => hne.1 hroutes
  · rw [and_iff_right hroutes]
    have hin := hadd.symm.subset (List.mem_cons_self (a := row))
    constructor
    · rintro ⟨err, herr⟩ haccepted
      have hall : ∀ other ∈ rowsOf outputs', other.hidden.length = dim ∧
          ∃ route ∈ routing.routes, other.IsOf route := by
        intro other hother
        rcases List.mem_cons.mp (hadd.subset hother) with rfl | hother
        · exact haccepted
        · exact h.mem_rows hother
      have hdim := OneRowEach.hiddenDim_of_length haligned (List.ne_nil_of_mem hin)
        fun other hother => (hall other hother).1
      rw [combineFromExperts_ok hroutes haligned (fun other hother => hdim.symm ▸ hall other hother)
        fun route hroute => ⟨_, hadd.symm.subset (List.mem_cons_of_mem _ (h.exists_row hroute)),
          rfl, rfl⟩] at herr
      cases herr
    · intro hrefused
      by_cases hdim : hiddenDim outputs' = dim
      · exact combineFromExperts_refused hroutes haligned hin fun haccepted =>
          hrefused (hdim ▸ haccepted)
      · -- a row of the dispatched outputs has another length than the first one
        obtain ⟨route, hroute⟩ := List.exists_mem_of_ne_nil _ hroutes
        have hother := hadd.symm.subset (List.mem_cons_of_mem row (h.exists_row hroute))
        refine combineFromExperts_refused hroutes haligned hother fun haccepted => hdim ?_
        exact haccepted.1.symm.trans (h.dims route hroute)

end Mixture

/-- Dispatch over the ranks and combination give the routed mixture, and without one of the rows
the combination fails. With a further row it fails if and only if there is a route, and the row
does not repeat the token and the expert of one with a row of the common length. -/
theorem dispatch_combine {R : Type} [CommSemiring R] {routing : ExpertRoutingWeights R}
    {hiddenStates : List (List R)} {f : Nat → List R → List R} {worldSize dim : Nat}
    {coordinator : Nat → GroupCoordinator}
    (hrank : ∀ r < worldSize, (coordinator r).rankInGroup = r ∧
      (coordinator r).worldSize = worldSize)
    (hpos : 0 < routing.numExperts) (hdiv : routing.numExperts % worldSize = 0)
    (hrange : InRange routing hiddenStates) (hdistinct : Distinct routing)
    (hdims : ∀ route ∈ routing.routes,
      (f route.expertIdx (hiddenStates.getD route.tokenIdx [])).length = dim)
    {order : List Nat} (horder : order.Perm (List.range worldSize)) :
    ∃ (perRank : Nat → List (ExpertOutput R)) (outputs : List (ExpertOutput R)),
      (∀ r < worldSize,
        (coordinator r).dispatchToExperts routing hiddenStates = .ok (perRank r)) ∧
      outputs = order.flatMap (fun r => (perRank r).map (ExpertOutput.transform f)) ∧
      (∃ combined, combineFromExperts outputs routing = .ok combined ∧
        IsMixture routing hiddenStates f dim combined) ∧
      (∀ outputs' row, Aligned outputs' → (row :: rowsOf outputs').Perm (rowsOf outputs) →
        ∃ err, combineFromExperts outputs' routing = .error err) ∧
      (∀ outputs' row, Aligned outputs' → (rowsOf outputs').Perm (row :: rowsOf outputs) →
        ((∃ err, combineFromExperts outputs' routing = .error err) ↔ routing.routes ≠ [] ∧
          ¬ (row.hidden.length = dim ∧ ∃ route ∈ routing.routes, row.IsOf route))) := by
  let perRank := fun r => dispatched (coordinator r) routing hiddenStates
  have h : OneRowEach routing hiddenStates f dim
      (order.flatMap fun r => (perRank r).map (ExpertOutput.transform f)) := by
    refine ⟨fun output hin => ?_, rows_dispatched hrank hdiv hrange f horder, hdims⟩
    obtain ⟨r, -, hin⟩ := List.mem_flatMap.mp hin
    exact aligned_dispatched (coordinator r) f output hin
  refine ⟨perRank, _, fun r hr => ?_, rfl, combine_isMixture h hdistinct,
    fun outputs' row haligned hdrop => combine_dropped h hdistinct haligned hdrop,
    fun outputs' row haligned hadd => combine_added_iff h haligned hadd⟩
  obtain ⟨hin, hworld⟩ := hrank r hr
  exact dispatchToExperts_eq _ (by omega) hpos (hworld.symm ▸ hdiv) hrange

/-- Two ranks with an expert each, and the outputs of the second rank first. -/
theorem dispatch_combine_swapped :
    let routing : ExpertRoutingWeights ℕ := ⟨2, [⟨0, 1, 3⟩, ⟨1, 0, 5⟩, ⟨0, 0, 1⟩]⟩
    ∃ outputs combined, combineFromExperts outputs routing = .ok combined ∧
      IsMixture routing [[2], [7]] (fun e row => row.map (· + e)) 1 combined := by
  intro routing
  have hrank : ∀ r < 2, (GroupCoordinator.mk [0, 1] r r).rankInGroup = r ∧
      (GroupCoordinator.mk [0, 1] r r).worldSize = 2 := fun _ _ => ⟨rfl, rfl⟩
  have hrange : InRange routing [[2], [7]] := by
    unfold InRange
    decide
  have hdistinct : Distinct routing := by
    unfold Distinct
    decide
  have hdims : ∀ route ∈ routing.routes,
      (([[2], [7]].getD route.tokenIdx []).map (· + route.expertIdx)).length = 1 := by decide
  have horder : [1, 0].Perm (List.range 2) := by decide
  obtain ⟨-, outputs, -, -, ⟨combined, hok, hmix⟩, -⟩ :=
    dispatch_combine (f := fun e row => row.map (· + e)) hrank (by decide) (by decide) hrange
      hdistinct hdims horder
  exact ⟨outputs, combined, hok, hmix⟩

/-- A row that stands twice is counted twice, and without routes no row is refused. -/
theorem combine_added_fails :
    combineFromExperts [⟨0, 1, [0], [[2]]⟩] ⟨2, [⟨0, 1, (3 : ℕ)⟩]⟩ = .ok [[6]] ∧
    combineFromExperts [⟨0, 1, [0, 0], [[2], [2]]⟩] ⟨2, [⟨0, 1, (3 : ℕ)⟩]⟩ = .ok [[12]] ∧
    combineFromExperts [⟨0, 1, [0], [[2]]⟩] (⟨2, []⟩ : ExpertRoutingWeights ℕ) = .ok [] :=
  ⟨rfl, rfl, rfl⟩

end Arle.Distributed
