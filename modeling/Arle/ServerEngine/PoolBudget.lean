import Mathlib
import Arle.ServerEngine.PoolRuns

/-!
# The budget of the engine pool and the life of its engines

The byte counter is the sum of the estimates of the loaded engines in every run, and no engine
with a lease is unloaded. The eviction plan stays right until it is applied, since leases are
only dropped in between.
-/

namespace Arle.ServerEngine

variable {E : Type}

namespace EnginePool

variable {pool : EnginePool E} {id k : String} {e : EnginePoolEntry E}

/-- The estimates of the loaded entries. -/
def totalEstimate (pool : EnginePool E) : Nat :=
  (pool.entries.values.map fun e => e.spec.estimate).sum

section Remove

@[simp] theorem specs_remove : (pool.remove id).specs = pool.specs := by
  unfold remove
  split <;> rfl

@[simp] theorem memoryBudgetBytes_remove :
    (pool.remove id).memoryBudgetBytes = pool.memoryBudgetBytes := by
  unfold remove
  split <;> rfl

theorem lookup_remove :
    (pool.remove id).entries.lookup k = if k = id then none else pool.entries.lookup k := by
  unfold remove
  split
  · rename_i hnone
    split
    · rename_i hk
      rw [hk, hnone]
    · rfl
  · exact Assoc.lookup_erase_eq _ _ _

/-- Taking an entry out takes its estimate off the counter. -/
theorem loaded_remove (hloaded : pool.loadedEstimateBytes = pool.totalEstimate) :
    (pool.remove id).loadedEstimateBytes = (pool.remove id).totalEstimate := by
  unfold remove
  split
  · exact hloaded
  · rename_i entry hentry
    have hsum := Assoc.sum_values_erase (fun e => e.spec.estimate) hentry
    unfold totalEstimate at hloaded ⊢
    simp only
    omega

theorem loaded_remove_add (hloaded : pool.loadedEstimateBytes = pool.totalEstimate)
    (he : pool.entries.lookup id = some e) :
    (pool.remove id).loadedEstimateBytes + e.spec.estimate = pool.loadedEstimateBytes := by
  have hsum := Assoc.sum_values_erase (fun e => e.spec.estimate) he
  unfold totalEstimate at hloaded
  unfold remove
  rw [he]
  simp only
  omega

end Remove

section RemoveAll

/-- Take out a list of entries. -/
def removeAll (pool : EnginePool E) (ids : List String) : EnginePool E :=
  ids.foldl (fun pool id => pool.remove id) pool

variable {ids : List String}

theorem removeAll_cons : pool.removeAll (id :: ids) = (pool.remove id).removeAll ids := rfl

@[simp] theorem specs_removeAll : (pool.removeAll ids).specs = pool.specs := by
  induction ids generalizing pool with
  | nil => rfl
  | cons id ids ih => rw [removeAll_cons, ih, specs_remove]

@[simp] theorem memoryBudgetBytes_removeAll :
    (pool.removeAll ids).memoryBudgetBytes = pool.memoryBudgetBytes := by
  induction ids generalizing pool with
  | nil => rfl
  | cons id ids ih => rw [removeAll_cons, ih, memoryBudgetBytes_remove]

theorem lookup_removeAll :
    (pool.removeAll ids).entries.lookup k =
      if k ∈ ids then none else pool.entries.lookup k := by
  induction ids generalizing pool with
  | nil => rw [if_neg List.not_mem_nil]; rfl
  | cons id ids ih =>
    rw [removeAll_cons, ih, lookup_remove]
    by_cases hk : k ∈ ids
    · rw [if_pos hk, if_pos (List.mem_cons_of_mem _ hk)]
    · rw [if_neg hk]
      by_cases hid : k = id
      · rw [if_pos hid, if_pos (hid ▸ List.mem_cons_self)]
      · rw [if_neg hid, if_neg]
        rw [List.mem_cons]
        exact fun h => h.elim hid hk

theorem loaded_removeAll (hloaded : pool.loadedEstimateBytes = pool.totalEstimate) :
    (pool.removeAll ids).loadedEstimateBytes = (pool.removeAll ids).totalEstimate := by
  induction ids generalizing pool with
  | nil => exact hloaded
  | cons id ids ih => exact ih (loaded_remove hloaded)

/-- The estimates of a list of entries. -/
def freedBy (pool : EnginePool E) (ids : List String) : Nat :=
  (ids.map fun id => (pool.entries.lookup id).elim 0 fun e => e.spec.estimate).sum

theorem loaded_removeAll_add (hloaded : pool.loadedEstimateBytes = pool.totalEstimate)
    (hnodup : ids.Nodup) :
    (pool.removeAll ids).loadedEstimateBytes + pool.freedBy ids = pool.loadedEstimateBytes := by
  induction ids generalizing pool with
  | nil => rfl
  | cons id ids ih =>
    obtain ⟨hid, hnodup⟩ := List.nodup_cons.mp hnodup
    have hrest : pool.freedBy ids = (pool.remove id).freedBy ids := by
      unfold freedBy
      congr 1
      apply List.map_congr_left
      intro k hk
      have hne : k ≠ id := by
        rintro rfl
        exact hid hk
      rw [lookup_remove, if_neg hne]
    have hih := ih (@loaded_remove E pool id hloaded) hnodup
    rw [removeAll_cons]
    unfold freedBy at hrest hih ⊢
    rw [List.map_cons, List.sum_cons, hrest]
    cases he : pool.entries.lookup id with
    | none =>
      have hkeep : pool.remove id = pool := by
        unfold remove
        rw [he]
      rw [hkeep] at hih ⊢
      simp only [Option.elim_none]
      omega
    | some e =>
      have hadd := loaded_remove_add hloaded he
      simp only [Option.elim_some]
      omega

end RemoveAll

section Plan

variable {cells : Nat → LeaseCells} {order : List ((_ : String) × EnginePoolEntry E)}

theorem mem_candidates {c : Candidate} (h : c ∈ candidates cells order) :
    ∃ e, (⟨c.id, e⟩ : (_ : String) × EnginePoolEntry E) ∈ order ∧ idle cells e = true ∧
      c.estimate = e.spec.estimate := by
  obtain ⟨e, he, rfl⟩ := List.mem_map.mp ((List.mergeSort_perm _ _).mem_iff.mp h)
  obtain ⟨hmem, hidle⟩ := List.mem_filter.mp he
  exact ⟨e.2, hmem, hidle, rfl⟩

/-- Every entry is a candidate once. -/
theorem nodup_candidates (horder : order.Perm pool.entries.entries) :
    ((candidates cells order).map Candidate.id).Nodup := by
  have hperm := (List.mergeSort_perm
    ((order.filter fun e => idle cells e.2).map fun e =>
      (⟨e.1, (cells e.2.cells).lastUsed, e.2.spec.estimate⟩ : Candidate))
    fun a b => a.lastUsed ≤ b.lastUsed).map Candidate.id
  apply hperm.nodup_iff.mpr
  rw [List.map_map]
  have hkeys : (order.map Sigma.fst).Nodup :=
    (horder.map Sigma.fst).nodup_iff.mpr pool.entries.nodupKeys
  exact hkeys.sublist (List.filter_sublist.map Sigma.fst)

/-- The victims are a prefix of the candidates that frees what is required. -/
theorem pickVictims_spec {required : Nat} {cs : List Candidate} {victims out : List String}
    {freed : Nat} (h : pickVictims required cs victims freed = some out) :
    ∃ taken, taken <+: cs ∧ out = victims ++ taken.map Candidate.id ∧
      required ≤ freed + (taken.map Candidate.estimate).sum := by
  induction cs generalizing victims freed with
  | nil => cases h
  | cons c cs ih =>
    unfold pickVictims at h
    have hsat : Word.saturatingAdd 64 freed c.estimate ≤ freed + c.estimate := min_le_left _ _
    simp only at h
    split at h
    · rename_i henough
      refine ⟨[c], ⟨cs, rfl⟩, (Option.some.inj h).symm, ?_⟩
      simp only [List.map_cons, List.map_nil, List.sum_cons, List.sum_nil]
      omega
    · obtain ⟨taken, ⟨rest, hrest⟩, hout, hsum⟩ := ih h
      refine ⟨c :: taken, ⟨rest, by rw [List.cons_append, hrest]⟩, ?_, ?_⟩
      · rw [hout, List.append_assoc, List.map_cons, List.singleton_append]
      · rw [List.map_cons, List.sum_cons]
        omega

/-- What an eviction plan promises. -/
structure Plan (pool : EnginePool E) (cells : Nat → LeaseCells) (incoming : Nat)
    (victims : List String) : Prop where
  nodup : victims.Nodup
  idle : ∀ id ∈ victims, ∃ e, pool.entries.lookup id = some e ∧ idle cells e = true
  room : ∀ budget, pool.memoryBudgetBytes = some budget →
    pool.loadedEstimateBytes + incoming ≤ budget + pool.freedBy victims

theorem plan_nil {incoming : Nat} (hroom : ∀ budget, pool.memoryBudgetBytes = some budget →
    pool.loadedEstimateBytes + incoming ≤ budget) : Plan pool cells incoming [] where
  nodup := List.nodup_nil
  idle := fun _ h => absurd h List.not_mem_nil
  room := fun budget hbudget => hroom budget hbudget

theorem evictionPlan_spec (horder : order.Perm pool.entries.entries) {incoming : Nat}
    (hlt : pool.loadedEstimateBytes + incoming < 2 ^ 64) {victims : List String}
    (h : pool.evictionPlan cells order incoming = .ok victims) :
    Plan pool cells incoming victims := by
  unfold evictionPlan at h
  split at h
  · rename_i hnone
    obtain rfl := Except.ok.inj h
    apply plan_nil
    intro budget hbudget
    rw [hnone] at hbudget
    cases hbudget
  · rename_i budget hsome
    split at h
    · cases h
    have hsat : Word.saturatingAdd 64 pool.loadedEstimateBytes incoming =
        pool.loadedEstimateBytes + incoming := by
      unfold Word.saturatingAdd Word.maxVal
      omega
    simp only [hsat] at h
    split at h
    · rename_i hfits
      obtain rfl := Except.ok.inj h
      apply plan_nil
      intro b hb
      obtain rfl : budget = b := Option.some.inj (hsome.symm.trans hb)
      exact hfits
    · split at h
      · rename_i picked hpick
        obtain rfl := Except.ok.inj h
        obtain ⟨taken, hpre, rfl, hsum⟩ := pickVictims_spec hpick
        have hentry (c : Candidate) (hc : c ∈ taken) : ∃ e,
            pool.entries.lookup c.id = some e ∧ EnginePool.idle cells e = true ∧
              c.estimate = e.spec.estimate := by
          obtain ⟨e, hmem, hidle, hest⟩ := mem_candidates (hpre.subset hc)
          exact ⟨e, Assoc.lookup_eq_some.mpr (horder.mem_iff.mp hmem), hidle, hest⟩
        constructor
        · rw [List.nil_append]
          exact (nodup_candidates horder).sublist (hpre.sublist.map _)
        · intro id hid
          rw [List.nil_append] at hid
          obtain ⟨c, hc, rfl⟩ := List.mem_map.mp hid
          obtain ⟨e, he, hidle, -⟩ := hentry c hc
          exact ⟨e, he, hidle⟩
        · intro b hb
          obtain rfl : budget = b := Option.some.inj (hsome.symm.trans hb)
          have hfreed : pool.freedBy (taken.map Candidate.id) =
              (taken.map Candidate.estimate).sum := by
            unfold freedBy
            rw [List.map_map]
            congr 1
            apply List.map_congr_left
            intro c hc
            obtain ⟨e, he, -, hest⟩ := hentry c hc
            rw [Function.comp_apply, he, hest]
            rfl
          rw [List.nil_append, hfreed]
          omega
      · cases h

theorem prepareCheckout_planned {model modelId : String} {spec : EnginePoolModelSpec}
    {victims : List String}
    (h : pool.prepareCheckout cells order model = .ok (.planned modelId spec victims)) :
    pool.specs.lookup modelId = some spec ∧ pool.entries.lookup modelId = none ∧
      pool.evictionPlan cells order spec.estimate = .ok victims := by
  unfold prepareCheckout at h
  split at h
  · cases h
  split at h
  · cases h
  rename_i hspec
  split at h
  · cases h
  split at h
  · cases h
  rename_i hentry
  split at h
  · cases h
  rename_i hplan
  cases h
  exact ⟨hspec, not_not.mp hentry, hplan⟩

end Plan

end EnginePool

section Invariant

variable {s : System E} {id : String} {e : EnginePoolEntry E}

/-- What holds of the pool, its cells and its leases, in a checkout or not. -/
structure Consistent (s : System E) : Prop where
  specs_lt : (s.pool.specs.values.map EnginePoolModelSpec.estimate).sum < 2 ^ 64
  spec_of_entry : ∀ id e, s.pool.entries.lookup id = some e → s.pool.specs.lookup id = some e.spec
  loaded : s.pool.loadedEstimateBytes = s.pool.totalEstimate
  budget : ∀ b, s.pool.memoryBudgetBytes = some b → s.pool.loadedEstimateBytes ≤ b
  cells_lt : ∀ id e, s.pool.entries.lookup id = some e → e.cells < s.nextCells
  cells_inj : ∀ id e id' e', s.pool.entries.lookup id = some e →
    s.pool.entries.lookup id' = some e' → e.cells = e'.cells → id = id'
  active : ∀ id e, s.pool.entries.lookup id = some e →
    (s.cells e.cells).activeRequests = s.leasesOf e
  entry_of_lease : ∀ lease ∈ s.leases, ∃ id e, s.pool.entries.lookup id = some e ∧
    e.cells = lease.cells

/-- What the checkout in the pool relies on. -/
def CallSafe (s : System E) : Prop :=
  match s.call with
  | .idle => True
  | .planned modelId spec victims =>
    s.pool.specs.lookup modelId = some spec ∧ s.pool.entries.lookup modelId = none ∧
      EnginePool.Plan s.pool s.cells spec.estimate victims
  | .loading modelId spec =>
    s.pool.specs.lookup modelId = some spec ∧ s.pool.entries.lookup modelId = none ∧
      ∀ b, s.pool.memoryBudgetBytes = some b → s.pool.loadedEstimateBytes + spec.estimate ≤ b

/-- The invariant of the runs. -/
structure Inv (config : EnginePoolConfig) (s : System E) : Prop where
  consistent : Consistent s
  call : CallSafe s
  memoryBudget : s.pool.memoryBudgetBytes = config.memoryBudgetBytes

theorem Consistent.idle_iff (h : Consistent s) (he : s.pool.entries.lookup id = some e) :
    EnginePool.idle s.cells e = true ↔ s.leasesOf e = 0 ∧ e.spec.pinned = false := by
  unfold EnginePool.idle
  rw [h.active id e he]
  simp

/-- A lease on an entry is counted. -/
theorem leasesOf_pos {lease : EngineLease E} (hlease : lease ∈ s.leases)
    (hcells : e.cells = lease.cells) : 0 < s.leasesOf e :=
  List.countP_pos_iff.mpr ⟨lease, hlease, decide_eq_true hcells.symm⟩

/-- The estimate of a model that is not loaded fits in the counter. -/
theorem Consistent.add_lt (h : Consistent s) {spec : EnginePoolModelSpec}
    (hspec : s.pool.specs.lookup id = some spec) (hnone : s.pool.entries.lookup id = none) :
    s.pool.loadedEstimateBytes + spec.estimate < 2 ^ 64 := by
  apply Nat.lt_of_le_of_lt _ h.specs_lt
  rw [h.loaded, Assoc.sum_values_erase EnginePoolModelSpec.estimate hspec, Nat.add_comm]
  apply Nat.add_le_add_left
  apply Assoc.sum_values_le EnginePoolModelSpec.estimate EnginePoolEntry.spec
  intro k e he
  have hne : k ≠ id := by
    rintro rfl
    rw [hnone] at he
    cases he
  rw [Assoc.lookup_erase_eq, if_neg hne]
  exact h.spec_of_entry k e he

/-- Idle entries can be taken out. -/
theorem Consistent.removeAll (h : Consistent s) {ids : List String}
    (hidle : ∀ id ∈ ids, ∀ e, s.pool.entries.lookup id = some e → s.leasesOf e = 0) :
    Consistent { s with pool := s.pool.removeAll ids } := by
  have hkept (id : String) (e : EnginePoolEntry E)
      (he : (s.pool.removeAll ids).entries.lookup id = some e) :
      s.pool.entries.lookup id = some e := by
    rw [EnginePool.lookup_removeAll] at he
    split at he
    · cases he
    · exact he
  have hle : (s.pool.removeAll ids).loadedEstimateBytes ≤ s.pool.loadedEstimateBytes := by
    rw [EnginePool.loaded_removeAll h.loaded, h.loaded]
    unfold EnginePool.totalEstimate
    exact Assoc.sum_values_le (fun e => e.spec.estimate) id hkept
  constructor
  case specs_lt => simpa only [EnginePool.specs_removeAll] using h.specs_lt
  case spec_of_entry =>
    intro id e he
    simpa only [EnginePool.specs_removeAll] using h.spec_of_entry id e (hkept id e he)
  case loaded => exact EnginePool.loaded_removeAll h.loaded
  case budget =>
    intro b hb
    simp only [EnginePool.memoryBudgetBytes_removeAll] at hb
    exact hle.trans (h.budget b hb)
  case cells_lt => exact fun id e he => h.cells_lt id e (hkept id e he)
  case cells_inj =>
    exact fun id e id' e' he he' => h.cells_inj id e id' e' (hkept id e he) (hkept id' e' he')
  case active => exact fun id e he => h.active id e (hkept id e he)
  case entry_of_lease =>
    intro lease hlease
    obtain ⟨id, e, he, hcells⟩ := h.entry_of_lease lease hlease
    refine ⟨id, e, ?_, hcells⟩
    have hkeep : id ∉ ids := by
      intro hid
      have hzero := hidle id hid e he
      have hpos := leasesOf_pos (s := s) hlease hcells
      omega
    simp only
    rw [EnginePool.lookup_removeAll, if_neg hkeep]
    exact he

/-- One more lease of a loaded entry. -/
theorem Consistent.grant (h : Consistent s) (he : s.pool.entries.lookup id = some e) :
    Consistent (s.grant e) := by
  refine ⟨h.specs_lt, h.spec_of_entry, h.loaded, h.budget, h.cells_lt, h.cells_inj, ?_, ?_⟩
  · intro id' e' he'
    have hactive := h.active id' e' he'
    unfold System.leasesOf at hactive ⊢
    by_cases hcells : e.cells = e'.cells
    · simp only [System.grant, hcells, Function.update_self, List.countP_cons, decide_true,
        if_true]
      rw [hactive]
    · have hcells' : e'.cells ≠ e.cells := fun heq => hcells heq.symm
      simp only [System.grant, Function.update_of_ne hcells', List.countP_cons,
        decide_eq_false hcells]
      exact hactive
  · intro lease hlease
    rcases List.mem_cons.mp hlease with rfl | hlease
    · exact ⟨id, e, he, rfl⟩
    · exact h.entry_of_lease lease hlease

/-- A drop of a lease takes one off the count of its entry only. -/
theorem Consistent.dropLease (h : Consistent s) {i now : Nat} {lease : EngineLease E}
    (hlease : s.leases[i]? = some lease) : Consistent (s.dropLease i lease now) := by
  obtain ⟨hi, hget⟩ := List.getElem?_eq_some_iff.mp hlease
  have hperm : s.leases.Perm (lease :: s.leases.eraseIdx i) :=
    hget ▸ (List.getElem_cons_eraseIdx_perm hi).symm
  refine ⟨h.specs_lt, h.spec_of_entry, h.loaded, h.budget, h.cells_lt, h.cells_inj, ?_, ?_⟩
  · intro id e he
    have hactive := h.active id e he
    unfold System.leasesOf at hactive ⊢
    rw [hperm.countP_eq, List.countP_cons] at hactive
    by_cases hcells : lease.cells = e.cells
    · simp only [hcells, decide_true, if_true] at hactive
      simp only [System.dropLease, hcells, Function.update_self]
      omega
    · have hcells' : e.cells ≠ lease.cells := fun heq => hcells heq.symm
      simp only [System.dropLease, Function.update_of_ne hcells']
      simpa [hcells] using hactive
  · intro other hother
    exact h.entry_of_lease other (List.mem_of_mem_eraseIdx hother)

/-- The entry of a model that is loaded within the budget. -/
theorem Consistent.insertEntry (h : Consistent s) {spec : EnginePoolModelSpec} {engine : E}
    {now : Nat} (hspec : s.pool.specs.lookup id = some spec)
    (hnone : s.pool.entries.lookup id = none)
    (hroom : ∀ b, s.pool.memoryBudgetBytes = some b →
      s.pool.loadedEstimateBytes + spec.estimate ≤ b) :
    Consistent (s.insertEntry id spec engine now) := by
  have hlt := h.add_lt hspec hnone
  have hsat : Word.saturatingAdd 64 s.pool.loadedEstimateBytes spec.estimate =
      s.pool.loadedEstimateBytes + spec.estimate := by
    unfold Word.saturatingAdd Word.maxVal
    omega
  have hcases (k : String) (e : EnginePoolEntry E)
      (he : (s.pool.entries.insert id ⟨engine, spec, s.nextCells⟩).lookup k = some e) :
      (k = id ∧ e = ⟨engine, spec, s.nextCells⟩) ∨ s.pool.entries.lookup k = some e := by
    rw [Assoc.lookup_insert_eq] at he
    split at he
    · rename_i hk
      exact Or.inl ⟨hk, (Option.some.inj he).symm⟩
    · exact Or.inr he
  have hkept (k : String) (e : EnginePoolEntry E) (he : s.pool.entries.lookup k = some e) :
      (s.pool.entries.insert id ⟨engine, spec, s.nextCells⟩).lookup k = some e := by
    have hne : k ≠ id := by
      rintro rfl
      rw [hnone] at he
      cases he
    rw [Assoc.lookup_insert_eq, if_neg hne]
    exact he
  unfold System.insertEntry
  constructor
  case specs_lt => exact h.specs_lt
  case spec_of_entry =>
    intro k e he
    rcases hcases k e he with ⟨rfl, rfl⟩ | he
    · exact hspec
    · exact h.spec_of_entry k e he
  case loaded =>
    simp only [hsat]
    unfold EnginePool.totalEstimate
    rw [Assoc.sum_values_insert _ hnone, h.loaded, Nat.add_comm]
    rfl
  case budget =>
    intro b hb
    simp only [hsat]
    exact hroom b hb
  case cells_lt =>
    intro k e he
    rcases hcases k e he with ⟨-, rfl⟩ | he
    · exact Nat.lt_succ_self _
    · exact Nat.lt_succ_of_lt (h.cells_lt k e he)
  case cells_inj =>
    intro k e k' e' he he' heq
    rcases hcases k e he with ⟨rfl, rfl⟩ | he
    · rcases hcases k' e' he' with ⟨rfl, -⟩ | he'
      · rfl
      · exact absurd (h.cells_lt k' e' he') (by rw [← heq]; exact Nat.lt_irrefl _)
    · rcases hcases k' e' he' with ⟨-, rfl⟩ | he'
      · exact absurd (h.cells_lt k e he) (by rw [heq]; exact Nat.lt_irrefl _)
      · exact h.cells_inj k e k' e' he he' heq
  case active =>
    intro k e he
    rcases hcases k e he with ⟨-, rfl⟩ | he
    · -- No lease has the new cells yet.
      have hfresh : s.leases.countP (fun lease => lease.cells = s.nextCells) = 0 := by
        apply List.countP_eq_zero.mpr
        intro lease hlease hcells
        obtain ⟨k, e, he, heq⟩ := h.entry_of_lease lease hlease
        have hlt := h.cells_lt k e he
        rw [heq, of_decide_eq_true hcells] at hlt
        exact Nat.lt_irrefl _ hlt
      unfold System.leasesOf
      simp only [Function.update_self]
      exact hfresh.symm
    · have hne := Nat.ne_of_lt (h.cells_lt k e he)
      simp only [Function.update_of_ne hne]
      exact h.active k e he
  case entry_of_lease =>
    intro lease hlease
    obtain ⟨k, e, he, hcells⟩ := h.entry_of_lease lease hlease
    exact ⟨k, e, hkept k e he, hcells⟩

end Invariant

section Steps

variable {s t : System E} {id : String} {e : EnginePoolEntry E} {config : EnginePoolConfig}

/-- Whether the entries with these ids are loaded and may be unloaded. -/
def AllIdle (s : System E) (ids : List String) : Prop :=
  ∀ id ∈ ids, ∃ e, s.pool.entries.lookup id = some e ∧ EnginePool.idle s.cells e = true

theorem AllIdle.leasesOf (h : Consistent s) {ids : List String} (hidle : AllIdle s ids)
    (hid : id ∈ ids) (he : s.pool.entries.lookup id = some e) :
    s.leasesOf e = 0 ∧ e.spec.pinned = false := by
  obtain ⟨e', he', hi⟩ := hidle id hid
  obtain rfl : e = e' := Option.some.inj (he.symm.trans he')
  exact (h.idle_iff he).mp hi

theorem unloadIdle_spec (model : String) :
    ∃ ids, (s.pool.unloadIdle s.cells model).2 = s.pool.removeAll ids ∧ AllIdle s ids := by
  have hkeep : ∃ ids, s.pool = s.pool.removeAll ids ∧ AllIdle s ids :=
    ⟨[], rfl, fun _ h => absurd h List.not_mem_nil⟩
  unfold EnginePool.unloadIdle
  split
  · exact hkeep
  split
  · exact hkeep
  rename_i modelId _ _ entry hentry
  split
  · exact hkeep
  split
  · exact hkeep
  rename_i hactive hpinned
  refine ⟨[modelId], rfl, ?_⟩
  intro id hid
  obtain rfl := List.mem_singleton.mp hid
  refine ⟨entry, hentry, ?_⟩
  unfold EnginePool.idle
  rw [not_not.mp hactive, eq_false_of_ne_true hpinned]
  rfl

theorem unloadExpired_spec {order : List ((_ : String) × EnginePoolEntry E)} (now : Nat)
    (horder : order.Perm s.pool.entries.entries) :
    ∃ ids, (s.pool.unloadExpired s.cells order now).2 = s.pool.removeAll ids ∧
      AllIdle s ids := by
  refine ⟨_, rfl, ?_⟩
  intro id hid
  obtain ⟨e, he, rfl⟩ := List.mem_map.mp hid
  obtain ⟨hmem, hexpired⟩ := List.mem_filter.mp he
  refine ⟨e.2, Assoc.lookup_eq_some.mpr (horder.mem_iff.mp hmem), ?_⟩
  unfold EnginePool.expired at hexpired
  split at hexpired
  · cases hexpired
  · exact (Bool.and_eq_true_iff.mp hexpired).1

/-- Unloading idle entries out of a call keeps the invariant. -/
theorem Inv.unload (h : Inv config s) (hcall : s.call = .idle) {ids : List String}
    (hidle : AllIdle s ids) : Inv config { s with pool := s.pool.removeAll ids } := by
  refine ⟨?_, ?_, EnginePool.memoryBudgetBytes_removeAll.trans h.memoryBudget⟩
  · exact h.consistent.removeAll fun id hid e he => (hidle.leasesOf h.consistent hid he).1
  · unfold CallSafe
    simp only [hcall]

theorem Inv.of_planned (h : Inv config s) {modelId : String} {spec : EnginePoolModelSpec}
    {victims : List String} (hcall : s.call = .planned modelId spec victims) :
    s.pool.specs.lookup modelId = some spec ∧ s.pool.entries.lookup modelId = none ∧
      EnginePool.Plan s.pool s.cells spec.estimate victims := by
  have hsafe := h.call
  unfold CallSafe at hsafe
  rw [hcall] at hsafe
  exact hsafe

theorem Inv.of_loading (h : Inv config s) {modelId : String} {spec : EnginePoolModelSpec}
    (hcall : s.call = .loading modelId spec) :
    s.pool.specs.lookup modelId = some spec ∧ s.pool.entries.lookup modelId = none ∧
      ∀ b, s.pool.memoryBudgetBytes = some b →
        s.pool.loadedEstimateBytes + spec.estimate ≤ b := by
  have hsafe := h.call
  unfold CallSafe at hsafe
  rw [hcall] at hsafe
  exact hsafe

theorem Consistent.congr (h : Consistent s) (hpool : t.pool = s.pool) (hcells : t.cells = s.cells)
    (hnext : t.nextCells = s.nextCells) (hleases : t.leases = s.leases) : Consistent t := by
  obtain ⟨pool, cells, nextCells, leases, call, returned⟩ := t
  subst hpool hcells hnext hleases
  exact ⟨h.1, h.2, h.3, h.4, h.5, h.6, h.7, h.8⟩

/-- The evictions make the room that was planned. -/
theorem Inv.applyEvictions (h : Inv config s) {modelId : String} {spec : EnginePoolModelSpec}
    {victims : List String} (hcall : s.call = .planned modelId spec victims) :
    Inv config
      { s with pool := s.pool.applyEvictions victims, call := .loading modelId spec } := by
  obtain ⟨hspec, hnone, hplan⟩ := h.of_planned hcall
  have hcons : Consistent { s with pool := s.pool.removeAll victims } := h.consistent.removeAll
    fun id hid e he => (AllIdle.leasesOf h.consistent hplan.idle hid he).1
  refine ⟨?_, ?_, EnginePool.memoryBudgetBytes_removeAll.trans h.memoryBudget⟩
  · exact hcons.congr rfl rfl rfl rfl
  · refine ⟨(congrArg (AList.lookup modelId) EnginePool.specs_removeAll).trans hspec, ?_, ?_⟩
    · have hlookup : (s.pool.removeAll victims).entries.lookup modelId = _ :=
        EnginePool.lookup_removeAll
      rw [hnone, ite_self] at hlookup
      exact hlookup
    · intro b hb
      have hroom := hplan.room b (EnginePool.memoryBudgetBytes_removeAll ▸ hb)
      have hadd := EnginePool.loaded_removeAll_add h.consistent.loaded hplan.nodup
      unfold EnginePool.applyEvictions
      unfold EnginePool.removeAll at hadd
      simp only
      omega

/-- A drop of a lease never makes an idle entry busy. -/
theorem Inv.dropLease (h : Inv config s) {i now : Nat} {lease : EngineLease E}
    (hlease : s.leases[i]? = some lease) : Inv config (s.dropLease i lease now) := by
  refine ⟨h.consistent.dropLease hlease, ?_, h.memoryBudget⟩
  have hsafe := h.call
  unfold CallSafe at hsafe ⊢
  simp only [System.dropLease]
  split
  · trivial
  · rename_i modelId spec victims hcall
    rw [hcall] at hsafe
    obtain ⟨hspec, hnone, hplan⟩ := hsafe
    refine ⟨hspec, hnone, hplan.nodup, ?_, hplan.room⟩
    intro id hid
    obtain ⟨e, he, hidle⟩ := hplan.idle id hid
    refine ⟨e, he, ?_⟩
    unfold EnginePool.idle at hidle ⊢
    by_cases hcells : e.cells = lease.cells
    · rw [hcells] at hidle
      rw [hcells, Function.update_self]
      simp only [Bool.and_eq_true, decide_eq_true_eq] at hidle ⊢
      exact ⟨by omega, hidle.2⟩
    · rw [Function.update_of_ne hcells]
      exact hidle
  · rename_i modelId spec hcall
    rw [hcall] at hsafe
    exact hsafe

theorem inv_step {op : Op E} (h : Inv config s) (hstep : Step s op t) : Inv config t := by
  cases hstep with
  | checkoutFails hcall horder hprepare =>
    exact ⟨h.consistent.congr rfl rfl rfl rfl, trivial, h.memoryBudget⟩
  | checkoutLoaded hcall horder hprepare hentry =>
    exact ⟨h.consistent.grant hentry, trivial, h.memoryBudget⟩
  | checkoutPlans hcall horder hprepare =>
    obtain ⟨hspec, hnone, hplan⟩ := EnginePool.prepareCheckout_planned hprepare
    refine ⟨h.consistent.congr rfl rfl rfl rfl, ?_, h.memoryBudget⟩
    exact ⟨hspec, hnone,
      EnginePool.evictionPlan_spec horder (h.consistent.add_lt hspec hnone) hplan⟩
  | applyEvictions hcall => exact h.applyEvictions hcall
  | loaderFails hcall =>
    exact ⟨h.consistent.congr rfl rfl rfl rfl, trivial, h.memoryBudget⟩
  | loaderReturns hcall hentry =>
    obtain ⟨hspec, hnone, hroom⟩ := h.of_loading hcall
    exact ⟨(h.consistent.insertEntry hspec hnone hroom).grant hentry, trivial, h.memoryBudget⟩
  | dropLease hlease => exact h.dropLease hlease
  | unloadIdle hcall =>
    obtain ⟨ids, hids, hidle⟩ := unloadIdle_spec (s := s) _
    rw [hids]
    exact h.unload hcall hidle
  | unloadExpired hcall horder =>
    obtain ⟨ids, hids, hidle⟩ := unloadExpired_spec _ horder
    rw [hids]
    exact h.unload hcall hidle

theorem sum_insertModels {models : List EnginePoolModelSpec} {seen : List String}
    {specs : Assoc String EnginePoolModelSpec} {aliases : Assoc String String}
    {maps : Assoc String EnginePoolModelSpec × Assoc String String}
    (h : EnginePool.insertModels models seen specs aliases = .ok maps) :
    (maps.1.values.map EnginePoolModelSpec.estimate).sum ≤
      (specs.values.map EnginePoolModelSpec.estimate).sum +
        (models.map EnginePoolModelSpec.estimate).sum := by
  induction models generalizing seen specs aliases with
  | nil =>
    obtain rfl := Except.ok.inj h
    exact Nat.le_add_right _ _
  | cons spec models ih =>
    unfold EnginePool.insertModels at h
    split at h
    · cases h
    · have hih := ih h
      have hinsert := Assoc.sum_values_insert_le (m := specs) (k := spec.id) (v := spec)
        EnginePoolModelSpec.estimate
      rw [List.map_cons, List.sum_cons]
      omega

theorem inv_starts (hsum : (config.models.map EnginePoolModelSpec.estimate).sum < 2 ^ 64)
    (h : Starts config s) : Inv config s := by
  have hnew := h.pool
  unfold EnginePool.new at hnew
  split at hnew
  · cases hnew
  rename_i maps hmaps
  have hpool := (Except.ok.inj hnew).symm
  have hle := sum_insertModels hmaps
  have hzero : ((∅ : Assoc String EnginePoolModelSpec).values.map
      EnginePoolModelSpec.estimate).sum = 0 := rfl
  have hnone (id : String) : s.pool.entries.lookup id = none := by
    rw [hpool]
    rfl
  refine ⟨?_, ?_, by rw [hpool]⟩
  · constructor
    case specs_lt =>
      rw [hpool]
      simp only
      omega
    case loaded =>
      rw [hpool]
      rfl
    case budget =>
      rw [hpool]
      exact fun _ _ => Nat.zero_le _
    case entry_of_lease =>
      rw [h.leases]
      exact fun _ hlease => absurd hlease List.not_mem_nil
    case cells_inj =>
      intro id e id' e' he
      rw [hnone id] at he
      cases he
    all_goals
      intro id e he
      rw [hnone id] at he
      cases he
  · unfold CallSafe
    rw [h.call]
    trivial

theorem reachable_inv (hsum : (config.models.map EnginePoolModelSpec.estimate).sum < 2 ^ 64)
    (h : Reachable (Starts config) Step s) : Inv config s :=
  h.invariant (fun _ => inv_starts hsum) fun _ _ _ hinv hstep => inv_step hinv hstep

/-- A step unloads idle entries only. -/
theorem kept_of_step (h : Inv config s) {op : Op E} (hstep : Step s op t)
    (he : s.pool.entries.lookup id = some e) :
    t.pool.entries.lookup id = some e ∨ s.leasesOf e = 0 ∧ e.spec.pinned = false := by
  have hremove {ids : List String} (hidle : AllIdle s ids) :
      (s.pool.removeAll ids).entries.lookup id = some e ∨
        s.leasesOf e = 0 ∧ e.spec.pinned = false := by
    by_cases hid : id ∈ ids
    · exact Or.inr (hidle.leasesOf h.consistent hid he)
    · rw [EnginePool.lookup_removeAll, if_neg hid]
      exact Or.inl he
  cases hstep with
  | checkoutFails => exact Or.inl he
  | checkoutLoaded => exact Or.inl he
  | checkoutPlans => exact Or.inl he
  | applyEvictions hcall => exact hremove (h.of_planned hcall).2.2.idle
  | loaderFails => exact Or.inl he
  | @loaderReturns modelId spec engine now entry hcall =>
    have hnone := (h.of_loading hcall).2.1
    have hne : id ≠ modelId := by
      rintro rfl
      rw [hnone] at he
      cases he
    refine Or.inl ?_
    unfold System.grant System.insertEntry
    simp only
    rw [Assoc.lookup_insert_eq, if_neg hne]
    exact he
  | dropLease => exact Or.inl he
  | unloadIdle =>
    obtain ⟨ids, hids, hidle⟩ := unloadIdle_spec (s := s) _
    rw [hids]
    exact hremove hidle
  | unloadExpired _ horder =>
    obtain ⟨ids, hids, hidle⟩ := unloadExpired_spec _ horder
    rw [hids]
    exact hremove hidle

/-- The state `t` during a checkout that began in `s`. -/
def During (s t : System E) : Prop :=
  match t.call with
  | .idle => True
  | .planned _ _ victims => t.pool = s.pool ∧ AllIdle s victims
  | .loading _ _ => ∃ ids, t.pool = s.pool.removeAll ids ∧ AllIdle s ids

/-- The first step of a checkout. -/
theorem during_checkout (h : Inv config s) {model : String}
    (hstep : Step s (.checkout model) t) : During s t := by
  cases hstep with
  | checkoutFails => trivial
  | checkoutLoaded => trivial
  | checkoutPlans hcall horder hprepare =>
    obtain ⟨hspec, hnone, hplan⟩ := EnginePool.prepareCheckout_planned hprepare
    exact ⟨rfl, (EnginePool.evictionPlan_spec horder (h.consistent.add_lt hspec hnone)
      hplan).idle⟩

/-- The other steps. -/
theorem during_step {u : System E} {op : Op E} (h : During s t) (hstep : Step t op u)
    (hop : ∀ model, op ≠ .checkout model) : During s u := by
  unfold During at h ⊢
  cases hstep with
  | checkoutFails => exact absurd rfl (hop _)
  | checkoutLoaded => exact absurd rfl (hop _)
  | checkoutPlans => exact absurd rfl (hop _)
  | applyEvictions hcall =>
    rw [hcall] at h
    obtain ⟨hpool, hidle⟩ := h
    refine ⟨_, ?_, hidle⟩
    rw [hpool]
    rfl
  | loaderFails => trivial
  | loaderReturns => trivial
  | dropLease => exact h
  | unloadIdle hcall => simp only [hcall]
  | unloadExpired hcall => simp only [hcall]

/-- A checkout that fails in the loader has taken out idle entries only. -/
theorem during_run {ops : List (Op E)} {error : ErrorChain} {now : Nat} {u : System E}
    (h : During s t) (hops : ∀ op ∈ ops, ∀ model, op ≠ .checkout model)
    (hrun : Run Step t (ops ++ [.loaderDone (.error error) now]) u) :
    ∃ ids, u.pool = s.pool.removeAll ids ∧ AllIdle s ids := by
  induction ops generalizing t with
  | nil =>
    cases hrun with
    | cons hstep hrest =>
      cases hrest
      cases hstep with
      | loaderFails hcall =>
        unfold During at h
        rw [hcall] at h
        exact h
  | cons op ops ih =>
    cases hrun with
    | cons hstep hrest =>
      exact ih (during_step h hstep (hops op List.mem_cons_self))
        (fun op' hop' => hops op' (List.mem_cons_of_mem _ hop')) hrest

end Steps

/-- What a pool keeps in a state, and over the steps and checkouts that start there. -/
structure Residency (config : EnginePoolConfig) (s : System E) : Prop where
  loaded : s.pool.loadedEstimateBytes = s.pool.totalEstimate
  budget : ∀ b, config.memoryBudgetBytes = some b → s.pool.loadedEstimateBytes ≤ b
  active : ∀ id e, s.pool.entries.lookup id = some e →
    (s.cells e.cells).activeRequests = s.leasesOf e
  resident : ∀ op t, Step s op t → ∀ id e, s.pool.entries.lookup id = some e →
    0 < s.leasesOf e ∨ e.spec.pinned = true → t.pool.entries.lookup id = some e
  failsEarly : ∀ model t, Step s (.checkout model) t →
    (∃ error, t.returned = some (.error error)) → t.pool = s.pool
  failsInLoader : ∀ model ops error now t, (∀ op ∈ ops, ∀ model, op ≠ .checkout model) →
    Run Step s (.checkout model :: (ops ++ [.loaderDone (.error error) now])) t →
      (∀ id e, t.pool.entries.lookup id = some e → s.pool.entries.lookup id = some e) ∧
      ∀ id e, s.pool.entries.lookup id = some e →
        t.pool.entries.lookup id = some e ∨ s.leasesOf e = 0 ∧ e.spec.pinned = false

/-- In every run the counter is the sum of the estimates and stays within the budget, the active
requests are the leases, and only idle unpinned engines are unloaded. -/
theorem pool_residency (config : EnginePoolConfig)
    (hsum : (config.models.map EnginePoolModelSpec.estimate).sum < 2 ^ 64) (s : System E)
    (hs : Reachable (Starts config) Step s) : Residency config s := by
  have h := reachable_inv hsum hs
  constructor
  case loaded => exact h.consistent.loaded
  case budget => exact fun b hb => h.consistent.budget b (h.memoryBudget.trans hb)
  case active => exact h.consistent.active
  case resident =>
    intro op t hstep id e he hheld
    rcases kept_of_step h hstep he with hkept | ⟨hzero, hpinned⟩
    · exact hkept
    · rcases hheld with hpos | hpin
      · omega
      · rw [hpinned] at hpin
        cases hpin
  case failsEarly =>
    rintro model t hstep ⟨error, herror⟩
    cases hstep with
    | checkoutFails => rfl
    | checkoutLoaded => cases herror
    | checkoutPlans => cases herror
  case failsInLoader =>
    intro model ops error now t hops hrun
    cases hrun with
    | cons hstep hrest =>
      obtain ⟨ids, hpool, hidle⟩ := during_run (during_checkout h hstep) hops hrest
      rw [hpool]
      refine ⟨?_, ?_⟩
      · intro id e he
        rw [EnginePool.lookup_removeAll] at he
        split at he
        · cases he
        · exact he
      · intro id e he
        by_cases hid : id ∈ ids
        · exact Or.inr (hidle.leasesOf h.consistent hid he)
        · rw [EnginePool.lookup_removeAll, if_neg hid]
          exact Or.inl he

section Example

/-- A model of 60 bytes. -/
def sixtyBytes (id : String) (aliases : List String) : EnginePoolModelSpec where
  id
  modelPath := "/models"
  aliases
  modelType := .textGeneration
  pinned := false
  ttl := none
  memoryEstimateBytes := some 60

/-- Two models of which the budget has room for one. -/
def twoModels : EnginePoolConfig := ⟨[sixtyBytes "a" ["first"], sixtyBytes "b" []], some 100⟩

/-- The models before any checkout. -/
def twoModelsStart : System Nat where
  pool := {
    specs := (AList.singleton "a" (sixtyBytes "a" ["first"])).insert "b" (sixtyBytes "b" [])
    aliases := AList.singleton "first" "a"
    entries := ∅
    memoryBudgetBytes := some 100
    loadedEstimateBytes := 0 }
  cells := fun _ => ⟨0, 0⟩
  nextCells := 0
  leases := []
  call := .idle
  returned := none

/-- The first model has been loaded under its alias, and its lease has been dropped. -/
def firstDropped : System Nat :=
  (({ twoModelsStart with call := .loading "a" (sixtyBytes "a" ["first"]) }.insertEntry "a"
    (sixtyBytes "a" ["first"]) 5 7).grant ⟨5, sixtyBytes "a" ["first"], 0⟩).dropLease 0
      ⟨"a", 5, 0⟩ 8

theorem firstDropped_plans : firstDropped.pool.prepareCheckout firstDropped.cells
    [⟨"a", ⟨5, sixtyBytes "a" ["first"], 0⟩⟩] "b" =
      .ok (.planned "b" (sixtyBytes "b" []) ["a"]) := by
  have hsort : EnginePool.candidates firstDropped.cells
      [⟨"a", ⟨5, sixtyBytes "a" ["first"], 0⟩⟩] = [⟨"a", 8, 60⟩] := List.mergeSort_singleton _
  have hplan : firstDropped.pool.evictionPlan firstDropped.cells
      [⟨"a", ⟨5, sixtyBytes "a" ["first"], 0⟩⟩] 60 = .ok ["a"] := by
    unfold EnginePool.evictionPlan
    rw [hsort]
    rfl
  have hresolve : firstDropped.pool.resolveModelId "b" = some "b" := rfl
  have hspec : firstDropped.pool.specs.lookup "b" = some (sixtyBytes "b" []) := rfl
  have htext : (sixtyBytes "b" []).modelType = .textGeneration := rfl
  have hnew : firstDropped.pool.entries.lookup "b" = none := rfl
  have hbytes : (sixtyBytes "b" []).estimate = 60 := rfl
  simp only [EnginePool.prepareCheckout, hresolve, hspec, htext, hnew, hbytes, hplan, ne_eq,
    not_true_eq_false, if_false]

/-- The checkout of the second model evicts the first. -/
theorem pool_residency_evicted : ∃ s : System Nat, Reachable (Starts twoModels) Step s ∧
    (s.pool.entries.lookup "a").isNone ∧ (s.pool.entries.lookup "b").isSome ∧
      Residency twoModels s := by
  have hs : Reachable (Starts twoModels) Step (({ firstDropped with
      pool := firstDropped.pool.applyEvictions ["a"]
      call := .loading "b" (sixtyBytes "b" [])
      returned := none }.insertEntry "b" (sixtyBytes "b" []) 6 9).grant
        ⟨6, sixtyBytes "b" [], 1⟩) := by
    refine ⟨twoModelsStart, [.checkout " first", .applyEvictions, .loaderDone (.ok 5) 7,
      .dropLease 0 8, .checkout "b", .applyEvictions, .loaderDone (.ok 6) 9], ⟨rfl, rfl, rfl⟩, ?_⟩
    apply Run.cons
    · exact .checkoutPlans rfl (.refl []) rfl
    apply Run.cons
    · exact .applyEvictions rfl
    apply Run.cons
    · exact .loaderReturns rfl rfl
    apply Run.cons (t := firstDropped)
    · exact .dropLease rfl
    apply Run.cons
    · exact .checkoutPlans rfl (.refl _) firstDropped_plans
    apply Run.cons
    · exact .applyEvictions rfl
    apply Run.cons
    · exact .loaderReturns rfl rfl
    exact .nil _
  exact ⟨_, hs, rfl, rfl, pool_residency twoModels (show 60 + (60 + 0) < 2 ^ 64 by omega) _ hs⟩

end Example

end Arle.ServerEngine
