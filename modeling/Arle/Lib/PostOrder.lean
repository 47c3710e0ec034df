import Mathlib

/-!
# The post-order of a depth-first search

`next` names the successors of the vertices that have some. The search lists such a vertex after its
successors (`Ordered`), if the vertices have a rank that falls from a vertex to its successors, and
it does so within a depth of the rank (`visit_spec`). What it lists from an empty start is what can
be reached (`search_spec`).
-/

namespace PostOrder

variable {V : Type} (next : V → Option (List V))

structure Search (V : Type) where
  visited : List V
  post : List V

def Step (v w : V) : Prop := ∃ succs, next v = some succs ∧ w ∈ succs

/-- What has been listed was visited, has successors, and comes after them. -/
structure Ordered (s : Search V) : Prop where
  nodup : s.post.Nodup
  visited : s.post ⊆ s.visited
  listed : ∀ v ∈ s.post, next v ≠ none
  after : ∀ pre v rest, s.post = pre ++ v :: rest → ∀ w, Step next v w → next w ≠ none → w ∈ pre

/-- What a search that starts at the vertices of `vs` adds. -/
structure Adds (vs : List V) (s s' : Search V) : Prop where
  ordered : Ordered next s'
  grows : ∃ new, s'.post = s.post ++ new ∧
    ∀ u ∈ new, ∃ v ∈ vs, Relation.ReflTransGen (Step next) v u
  keeps : s.visited ⊆ s'.visited
  closes : ∀ u ∈ s'.visited, u ∈ s.visited ∨ u ∈ s'.post
  lists : ∀ v ∈ vs, next v ≠ none → v ∈ s'.post

variable {next} {rank : V → Nat} {s s' : Search V} {v w : V}

theorem Adds.subset {vs : List V} (h : Adds next vs s s') : s.post ⊆ s'.post := by
  obtain ⟨new, hnew, -⟩ := h.grows
  rw [hnew]
  exact List.subset_append_left _ _

theorem Adds.refl {vs : List V} (h : Ordered next s)
    (hlists : ∀ v ∈ vs, next v ≠ none → v ∈ s.post) : Adds next vs s s where
  ordered := h
  grows := ⟨[], (List.append_nil _).symm, fun _ hu => absurd hu List.not_mem_nil⟩
  keeps := List.Subset.refl _
  closes := fun _ hu => .inl hu
  lists := hlists

theorem Adds.trans {vs : List V} {s'' : Search V} (h : Adds next [v] s s')
    (h' : Adds next vs s' s'') : Adds next (v :: vs) s s'' where
  ordered := h'.ordered
  grows := by
    obtain ⟨new, hnew, hreach⟩ := h.grows
    obtain ⟨new', hnew', hreach'⟩ := h'.grows
    refine ⟨new ++ new', by rw [hnew', hnew, List.append_assoc], fun u hu => ?_⟩
    rcases List.mem_append.mp hu with hu | hu
    · obtain ⟨a, ha, hau⟩ := hreach u hu
      exact ⟨a, List.mem_cons.mpr (.inl (List.mem_singleton.mp ha)), hau⟩
    · obtain ⟨a, ha, hau⟩ := hreach' u hu
      exact ⟨a, List.mem_cons_of_mem _ ha, hau⟩
  keeps := List.Subset.trans h.keeps h'.keeps
  closes := fun u hu => by
    rcases h'.closes u hu with hu | hu
    · exact (h.closes u hu).imp_right fun hu => h'.subset hu
    · exact .inr hu
  lists := fun u hu hnext => by
    rcases List.mem_cons.mp hu with rfl | hu
    · exact h'.subset (h.lists u (List.mem_singleton_self u) hnext)
    · exact h'.lists u hu hnext

theorem rank_le (hrank : ∀ v w, Step next v w → rank w < rank v)
    (h : Relation.ReflTransGen (Step next) v w) : rank w ≤ rank v := by
  induction h with
  | refl => exact Nat.le_refl _
  | tail _ hstep ih => exact (Nat.le_of_lt (hrank _ _ hstep)).trans ih

/-- The vertex is listed after its successors. -/
theorem Adds.push {succs : List V} (hrank : ∀ v w, Step next v w → rank w < rank v)
    (hnext : next v = some succs) (hv : v ∉ s.visited) (hs : Ordered next s)
    (h : Adds next succs ⟨v :: s.visited, s.post⟩ s') :
    Adds next [v] s ⟨s'.visited, s'.post ++ [v]⟩ := by
  obtain ⟨new, hnew, hreach⟩ := h.grows
  have hstep : ∀ w ∈ succs, Step next v w := fun w hw => ⟨succs, hnext, hw⟩
  have hfresh : v ∉ s'.post := by
    rw [hnew]
    intro hmem
    rcases List.mem_append.mp hmem with hmem | hmem
    · exact hv (hs.visited hmem)
    · obtain ⟨w, hw, hwv⟩ := hreach v hmem
      exact absurd (rank_le hrank hwv) (Nat.not_le.mpr (hrank v w (hstep w hw)))
  refine ⟨⟨?_, ?_, ?_, ?_⟩, ?_, ?_, ?_, ?_⟩
  · exact List.nodup_append.mpr ⟨h.ordered.nodup, List.nodup_singleton v, fun a ha b hb hab =>
      hfresh (List.mem_singleton.mp hb ▸ hab ▸ ha)⟩
  · intro u hu
    rcases List.mem_append.mp hu with hu | hu
    · exact h.ordered.visited hu
    · exact h.keeps (List.mem_cons.mpr (.inl (List.mem_singleton.mp hu)))
  · intro u hu
    rcases List.mem_append.mp hu with hu | hu
    · exact h.ordered.listed u hu
    · rw [List.mem_singleton.mp hu, hnext]
      exact Option.some_ne_none succs
  · intro pre u rest hpost w hw hwnext
    rcases rest.eq_nil_or_concat with rfl | ⟨rest, last, rfl⟩
    · obtain ⟨rfl, hu⟩ := List.append_inj' hpost rfl
      obtain ⟨succs', hsuccs', hwmem⟩ := hw
      rw [← (List.cons.inj hu).1, hnext] at hsuccs'
      cases hsuccs'
      exact h.lists w hwmem hwnext
    · rw [List.concat_eq_append] at hpost
      have hpost : s'.post ++ [v] = (pre ++ u :: rest) ++ [last] := by
        rw [List.append_assoc]
        exact hpost
      exact h.ordered.after pre u rest (List.append_inj' hpost rfl).1 w hw hwnext
  · refine ⟨new ++ [v], by rw [hnew, List.append_assoc],
      fun u hu => ⟨v, List.mem_singleton_self v, ?_⟩⟩
    rcases List.mem_append.mp hu with hu | hu
    · obtain ⟨w, hw, hwu⟩ := hreach u hu
      exact .head (hstep w hw) hwu
    · rw [List.mem_singleton.mp hu]
  · exact fun u hu => h.keeps (List.mem_cons_of_mem _ hu)
  · intro u hu
    rcases h.closes u hu with hu | hu
    · rcases List.mem_cons.mp hu with rfl | hu
      · exact .inr (List.mem_append_right _ (List.mem_singleton_self u))
      · exact .inl hu
    · exact .inr (List.mem_append_left _ hu)
  · intro u hu _
    exact List.mem_append_right _ hu

variable [DecidableEq V]

variable (next) in
/-- The search goes no deeper than `fuel`. -/
def visit : Nat → V → Search V → Option (Search V)
  | 0, _, _ => none
  | fuel + 1, v, s =>
    match next v with
    | none => some s
    | some succs =>
      if v ∈ s.visited then some s
      else
        (succs.foldlM (fun s w => visit fuel w s) ⟨v :: s.visited, s.post⟩).map fun s =>
          ⟨s.visited, s.post ++ [v]⟩

/-- The searches from the vertices of a list, one after the other. -/
theorem foldlM_visit {fuel bound : Nat} {ws : List V}
    (hvisit : ∀ w ∈ ws, ∀ s, Ordered next s → (∀ u ∈ s.visited, u ∈ s.post ∨ bound ≤ rank u) →
      ∃ s', visit next fuel w s = some s' ∧ Adds next [w] s s')
    (h : Ordered next s) (hopen : ∀ u ∈ s.visited, u ∈ s.post ∨ bound ≤ rank u) :
    ∃ s', ws.foldlM (fun s w => visit next fuel w s) s = some s' ∧ Adds next ws s s' := by
  induction ws generalizing s with
  | nil => exact ⟨s, rfl, .refl h fun v hv => absurd hv List.not_mem_nil⟩
  | cons w ws ih =>
    obtain ⟨s₁, hcall, hadds⟩ := hvisit w List.mem_cons_self s h hopen
    have hopen₁ : ∀ u ∈ s₁.visited, u ∈ s₁.post ∨ bound ≤ rank u := fun u hu => by
      rcases hadds.closes u hu with hu | hu
      · exact (hopen u hu).imp_left fun hu => hadds.subset hu
      · exact .inl hu
    obtain ⟨s₂, hrest, hadds₂⟩ :=
      ih (fun w' hw' => hvisit w' (List.mem_cons_of_mem _ hw')) hadds.ordered hopen₁
    refine ⟨s₂, ?_, hadds.trans hadds₂⟩
    rw [List.foldlM_cons, hcall]
    exact hrest

/-- What is open when a vertex is visited ranks higher. -/
theorem visit_spec (hrank : ∀ v w, Step next v w → rank w < rank v) {fuel : Nat}
    (hfuel : rank v < fuel) (hs : Ordered next s)
    (hopen : ∀ u ∈ s.visited, u ∈ s.post ∨ rank v < rank u) :
    ∃ s', visit next fuel v s = some s' ∧ Adds next [v] s s' := by
  induction fuel generalizing v s with
  | zero => exact absurd hfuel (Nat.not_lt_zero _)
  | succ fuel ih =>
    rw [visit]
    cases hnext : next v with
    | none =>
      refine ⟨s, rfl, .refl hs fun u hu hne => ?_⟩
      rw [List.mem_singleton.mp hu] at hne
      exact absurd hnext hne
    | some succs =>
      dsimp only
      split
      · rename_i hmem
        refine ⟨s, rfl, .refl hs fun u hu _ => ?_⟩
        rw [List.mem_singleton.mp hu]
        exact (hopen v hmem).resolve_right (Nat.lt_irrefl _)
      · rename_i hmem
        have hstart : Ordered next ⟨v :: s.visited, s.post⟩ :=
          ⟨hs.nodup, List.Subset.trans hs.visited (List.subset_cons_self _ _), hs.listed, hs.after⟩
        have hopen' : ∀ u ∈ v :: s.visited, u ∈ s.post ∨ rank v ≤ rank u := fun u hu => by
          rcases List.mem_cons.mp hu with rfl | hu
          · exact .inr (Nat.le_refl _)
          · exact (hopen u hu).imp_right Nat.le_of_lt
        have hvisit : ∀ w ∈ succs, ∀ t, Ordered next t →
            (∀ u ∈ t.visited, u ∈ t.post ∨ rank v ≤ rank u) →
              ∃ t', visit next fuel w t = some t' ∧ Adds next [w] t t' := fun w hw t ht ho => by
          have hlt := hrank v w ⟨succs, hnext, hw⟩
          exact ih (by omega) ht fun u hu => (ho u hu).imp_right hlt.trans_le
        obtain ⟨s', hcall, hadds⟩ := foldlM_visit hvisit hstart hopen'
        rw [hcall]
        exact ⟨_, rfl, hadds.push hrank hnext hmem hs⟩

/-- A search from an empty start lists what can be reached, each vertex after its successors. -/
theorem search_spec (hrank : ∀ v w, Step next v w → rank w < rank v) {fuel : Nat}
    (hfuel : rank v < fuel) : ∃ s', visit next fuel v ⟨[], []⟩ = some s' ∧ Ordered next s' ∧
      ∀ u, u ∈ s'.post ↔ Relation.ReflTransGen (Step next) v u ∧ next u ≠ none := by
  have hempty : Ordered next ⟨[], []⟩ := by
    refine ⟨List.nodup_nil, List.Subset.refl _, fun u hu => absurd hu List.not_mem_nil, ?_⟩
    intro pre u rest h
    exact absurd h.symm (List.append_ne_nil_of_right_ne_nil _ (List.cons_ne_nil _ _))
  obtain ⟨s', hcall, hadds⟩ := visit_spec hrank hfuel hempty fun u hu => absurd hu List.not_mem_nil
  refine ⟨s', hcall, hadds.ordered, fun u => ⟨fun hu => ⟨?_, hadds.ordered.listed u hu⟩, ?_⟩⟩
  · obtain ⟨new, hnew, hreach⟩ := hadds.grows
    rw [hnew, List.nil_append] at hu
    obtain ⟨a, ha, hau⟩ := hreach u hu
    exact List.mem_singleton.mp ha ▸ hau
  · rintro ⟨hreach, hnext⟩
    induction hreach with
    | refl => exact hadds.lists v (List.mem_singleton_self v) hnext
    | tail _ hstep ih =>
      obtain ⟨succs, hsuccs, _⟩ := hstep
      obtain ⟨pre, rest, hpost⟩ := List.append_of_mem (ih (hsuccs ▸ Option.some_ne_none succs))
      rw [hpost]
      exact List.mem_append_left _
        (hadds.ordered.after pre _ rest hpost _ ⟨succs, hsuccs, by assumption⟩ hnext)

end PostOrder
