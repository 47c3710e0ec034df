import Arle.Train.Checkpoint

/-!
# Loading what was saved

Each param is two tensors, whose keys end in `.m` and `.v`. The keys of distinct names do not
collide, so that the tensors of a file give the params back, in some order
(`loadOptim_of_saved`).
-/

namespace Arle.Train

/-! ## Keys and bytes -/

def Moment.suffix : Moment → String
  | .m => ".m"
  | .v => ".v"

/-- The key of a moment of a param. -/
def momentKey (key : String × Moment) : String := key.1 ++ key.2.suffix

theorem stripSuffix_append (base suffix : String) :
    stripSuffix (base ++ suffix) suffix = some base := by
  unfold stripSuffix
  rw [String.toList_append, if_pos (List.suffix_append _ _), List.length_append,
    Nat.add_sub_cancel, List.take_left, String.ofList_toList]

theorem stripSuffix_m_append_v (base : String) : stripSuffix (base ++ ".v") ".m" = none := by
  unfold stripSuffix
  rw [String.toList_append]
  refine if_neg ?_
  rintro ⟨front, hfront⟩
  exact absurd (List.append_inj' hfront rfl).2 (by decide)

theorem splitMomentKey_momentKey (key : String × Moment) :
    splitMomentKey (momentKey key) = some key := by
  obtain ⟨base, which⟩ := key
  unfold splitMomentKey momentKey
  cases which with
  | m => rw [Moment.suffix, stripSuffix_append]
  | v =>
    rw [Moment.suffix, stripSuffix_m_append_v, stripSuffix_append]
    rfl

theorem momentKey_injective : Function.Injective momentKey := by
  intro key key' h
  have hsplit := congrArg splitMomentKey h
  rwa [splitMomentKey_momentKey, splitMomentKey_momentKey, Option.some.injEq] at hsplit

theorem length_flatMap_toLeBytes (values : List F32) :
    (values.flatMap toLeBytes).length = 4 * values.length := by
  induction values with
  | nil => rfl
  | cons x values ih =>
    rw [List.flatMap_cons, List.length_append, ih, toLeBytes, LittleEndian.length_toBytes,
      List.length_cons]
    omega

theorem fromLeBytes_flatMap (values : List F32) :
    fromLeBytes (values.flatMap toLeBytes) = values := by
  induction values with
  | nil => rfl
  | cons x values ih =>
    have hbytes : LittleEndian.ofBytes (toLeBytes x) = x.toNat :=
      LittleEndian.ofBytes_toBytes x.toNat_lt
    change UInt32.ofNat (LittleEndian.ofBytes (toLeBytes x)) ::
      fromLeBytes (values.flatMap toLeBytes) = _
    rw [hbytes, ih, UInt32.ofNat_toNat]

theorem parseUnsigned_toString {w n : Nat} (h : n < 2 ^ w) :
    parseUnsigned w (toString n) = some n := by
  have hlist : (toString n).toList = Nat.toDigits 10 n := by
    rw [Nat.toString_eq_repr, Nat.toList_repr]
  have hdigits : ∀ c ∈ Nat.toDigits 10 n, c.isDigit = true :=
    fun c hc => Nat.isDigit_of_mem_toDigits (by decide) (by decide) hc
  have hplus : digitsOf (Nat.toDigits 10 n) = Nat.toDigits 10 n := by
    unfold digitsOf
    split
    · next rest heq => exact absurd (hdigits '+' (heq ▸ List.mem_cons_self)) (by decide)
    · rfl
  unfold parseUnsigned
  rw [hlist]
  dsimp only
  rw [hplus, Nat.ofDigitChars_toDigits (by decide) (by decide), if_neg, if_pos h]
  rw [not_or, not_not, List.all_eq_true]
  exact ⟨Nat.toDigits_ne_nil, hdigits⟩

/-! ## The tensors of a state -/

/-- The entries of the optimizer file: the moments with their keys and shapes. -/
abbrev Entry := (String × Moment) × (List Nat × List F32)

def tensorOf (entry : Entry) : String × TensorView :=
  (momentKey entry.1, fromF32 entry.2.1 entry.2.2)

def entriesOf (params : List AdamWParamState) : List Entry :=
  params.flatMap fun param =>
    [((param.name, .m), (param.shape, param.m)), ((param.name, .v), (param.shape, param.v))]

/-- The moments have the lengths of their shapes. -/
def MomentsFit (params : List AdamWParamState) : Prop :=
  ∀ param ∈ params, param.m.length = expectedLen param.shape ∧
    param.v.length = expectedLen param.shape

section Tensors

variable {params : List AdamWParamState}

theorem optimTensors_ok (h : MomentsFit params) :
    optimTensors params = .ok ((entriesOf params).map tensorOf) := by
  induction params with
  | nil => rfl
  | cons param params ih =>
    obtain ⟨hm, hv⟩ := h param List.mem_cons_self
    rw [optimTensors, if_neg (by simp [hm, hv]),
      ih fun other hother => h other (List.mem_cons_of_mem param hother)]
    rfl

theorem momentsFit_of_ok {tensors : List (String × TensorView)}
    (h : optimTensors params = .ok tensors) : MomentsFit params := by
  induction params generalizing tensors with
  | nil => exact fun _ h => by cases h
  | cons param params ih =>
    rw [optimTensors] at h
    split_ifs at h with hlen
    rw [not_or, not_not, not_not] at hlen
    cases hrest : optimTensors params with
    | error e =>
      rw [hrest] at h
      cases h
    | ok rest => exact List.forall_mem_cons.mpr ⟨hlen, ih hrest⟩

theorem mem_entriesOf {base : String} {which : Moment} {moment : List Nat × List F32} :
    ((base, which), moment) ∈ entriesOf params ↔ ∃ param ∈ params, param.name = base ∧
      moment = (param.shape, match which with | .m => param.m | .v => param.v) := by
  unfold entriesOf
  simp only [List.mem_flatMap, List.mem_cons, List.not_mem_nil, or_false, Prod.mk.injEq]
  refine exists_congr fun param => and_congr_right fun _ => ?_
  cases which with
  | m => simp [eq_comm]
  | v => simp [eq_comm]

theorem nodup_entriesOf (h : (params.map AdamWParamState.name).Nodup) :
    ((entriesOf params).map Prod.fst).Nodup := by
  induction params with
  | nil => exact List.nodup_nil
  | cons param params ih =>
    rw [List.map_cons, List.nodup_cons] at h
    have hnot (which : Moment) : (param.name, which) ∉ (entriesOf params).map Prod.fst := by
      intro hmem
      obtain ⟨⟨⟨base, which'⟩, moment⟩, hentry, heq⟩ := List.mem_map.mp hmem
      cases heq
      obtain ⟨other, hother, hname, -⟩ := mem_entriesOf.mp hentry
      exact h.1 (List.mem_map.mpr ⟨other, hother, hname⟩)
    refine List.nodup_cons.mpr ⟨fun hmem => ?_, List.nodup_cons.mpr ⟨hnot .v, ih h.2⟩⟩
    rcases List.mem_cons.mp hmem with heq | hmem
    · cases heq
    · exact hnot .m hmem

end Tensors

/-! ## Grouping -/

def MomentPair.get (pair : MomentPair) : Moment → Option (List Nat × List F32)
  | .m => pair.m
  | .v => pair.v

/-- The loop over the tensors has seen the entries `done`. -/
structure Grouped (done : List Entry) (order : List String) (groups : Assoc String MomentPair) :
    Prop where
  nodup : order.Nodup
  mem : ∀ base, base ∈ order ↔ (groups.lookup base).isSome
  get : ∀ base which moment, ((groups.lookup base).getD ⟨none, none⟩).get which = some moment ↔
    ((base, which), moment) ∈ done
  seen : ∀ base ∈ order, ∃ which moment, ((base, which), moment) ∈ done

section Grouping

variable {order order' : List String} {groups groups' : Assoc String MomentPair}

theorem grouped_nil : Grouped [] [] ∅ := by
  refine ⟨List.nodup_nil, fun base => ?_, fun base which moment => ?_, (fun _ h => by cases h)⟩
  · rw [AList.lookup_empty]
    exact iff_of_false List.not_mem_nil fun h => by cases h
  · rw [AList.lookup_empty]
    refine iff_of_false ?_ List.not_mem_nil
    cases which
    · intro h
      cases h
    · intro h
      cases h

theorem get_set (pair : MomentPair) (moment : List Nat × List F32) (which which' : Moment) :
    (pair.set moment which).get which' =
      if which' = which then some moment else pair.get which' := by
  cases which <;> cases which' <;> rfl

/-- The names are listed once, in any file. -/
theorem nodup_extend (h : order.Nodup) (hmem : ∀ base, base ∈ order ↔ (groups.lookup base).isSome)
    (base : String) (pair : MomentPair) :
    (if (groups.lookup base).isSome then order else order ++ [base]).Nodup ∧
      ∀ x, x ∈ (if (groups.lookup base).isSome then order else order ++ [base]) ↔
        ((groups.insert base pair).lookup x).isSome := by
  have hbase := hmem base
  split
  · next hsome =>
    refine ⟨h, fun x => ?_⟩
    rw [hmem, Assoc.lookup_insert_eq]
    split
    · next heq => exact iff_of_true (heq ▸ hsome) rfl
    · rfl
  · next hnone =>
    rw [← hbase] at hnone
    refine ⟨List.nodup_append.mpr ⟨h, List.nodup_singleton base, fun x hx y hy heq =>
      hnone (List.mem_singleton.mp hy ▸ heq ▸ hx)⟩, fun x => ?_⟩
    rw [List.mem_append, List.mem_singleton, hmem, Assoc.lookup_insert_eq]
    split
    · next heq => exact iff_of_true (.inr heq) rfl
    · next hne => exact or_iff_left hne

theorem groupTensors_nodup {tensors : List (String × TensorView)} (h : order.Nodup)
    (hmem : ∀ base, base ∈ order ↔ (groups.lookup base).isSome)
    (hgroup : groupTensors tensors order groups = .ok (order', groups')) : order'.Nodup := by
  induction tensors generalizing order groups with
  | nil =>
    cases hgroup
    exact h
  | cons tensor tensors ih =>
    obtain ⟨key, view⟩ := tensor
    rw [groupTensors] at hgroup
    split at hgroup
    · cases hgroup
    · next base which hkey =>
      dsimp only at hgroup
      split at hgroup
      · cases hgroup
      · next data hdata =>
        obtain ⟨hnodup, hnext⟩ := nodup_extend h hmem base
          (((groups.lookup base).getD ⟨none, none⟩).set (view.shape, data) which)
        exact ih hnodup hnext hgroup

theorem Grouped.next {done : List Entry} (h : Grouped done order groups) {base : String}
    {which : Moment} (moment : List Nat × List F32)
    (hnew : (base, which) ∉ done.map Prod.fst) :
    Grouped (done ++ [((base, which), moment)])
      (if (groups.lookup base).isSome then order else order ++ [base])
      (groups.insert base (((groups.lookup base).getD ⟨none, none⟩).set moment which)) := by
  obtain ⟨hnodup, hmem⟩ := nodup_extend h.nodup h.mem base
    (((groups.lookup base).getD ⟨none, none⟩).set moment which)
  refine ⟨hnodup, hmem, fun x which' moment' => ?_, fun x hx => ?_⟩
  · rw [Assoc.lookup_insert_eq, List.mem_append, List.mem_singleton, ← h.get]
    split
    · next heq =>
      subst heq
      rw [Option.getD_some, get_set]
      split
      · next hwhich =>
        subst hwhich
        have hnone : ¬ ((groups.lookup x).getD ⟨none, none⟩).get which' = some moment' :=
          fun hget => hnew (List.mem_map.mpr ⟨_, (h.get x which' moment').mp hget, rfl⟩)
        rw [or_iff_right hnone]
        simp [eq_comm]
      · next hwhich =>
        exact (or_iff_left fun heq => hwhich (congrArg (fun e : Entry => e.1.2) heq)).symm
    · next hne =>
      exact (or_iff_left fun heq => hne (congrArg (fun e : Entry => e.1.1) heq)).symm
  · have hcase : x ∈ order ∨ x = base := by
      split at hx
      · exact .inl hx
      · exact (List.mem_append.mp hx).imp id List.mem_singleton.mp
    rcases hcase with hold | rfl
    · obtain ⟨which', moment', hdone⟩ := h.seen x hold
      exact ⟨which', moment', List.mem_append_left _ hdone⟩
    · exact ⟨which, moment, List.mem_append_right _ List.mem_cons_self⟩

theorem Grouped.group {done : List Entry} (h : Grouped done order groups) (entries : List Entry)
    (hnodup : ((done ++ entries).map Prod.fst).Nodup) :
    ∃ order' groups', groupTensors (entries.map tensorOf) order groups = .ok (order', groups') ∧
      Grouped (done ++ entries) order' groups' := by
  induction entries generalizing done order groups with
  | nil => exact ⟨order, groups, rfl, (List.append_nil done).symm ▸ h⟩
  | cons entry entries ih =>
    obtain ⟨⟨base, which⟩, shape, data⟩ := entry
    have hnew : (base, which) ∉ done.map Prod.fst := by
      rw [List.map_append, List.nodup_append] at hnodup
      exact fun hmem => hnodup.2.2 _ hmem _ List.mem_cons_self rfl
    obtain ⟨order', groups', hgroup, hgrouped⟩ := ih (h.next (shape, data) hnew)
      (by rwa [List.append_assoc])
    refine ⟨order', groups', ?_, by rwa [List.append_assoc] at hgrouped⟩
    rw [List.map_cons, tensorOf, groupTensors, splitMomentKey_momentKey]
    dsimp only [optimTensorViewToF32, fromF32]
    rw [fromLeBytes_flatMap]
    exact hgroup

end Grouping

/-! ## Loading what was saved -/

/-- The states are the same up to the order of the params. -/
structure AdamWState.Same (a b : AdamWState) : Prop where
  step : a.step = b.step
  params : a.params.Perm b.params
  skippedExport : a.skippedExport = b.skippedExport

theorem AdamWState.Same.symm {a b : AdamWState} (h : a.Same b) : b.Same a :=
  ⟨h.step.symm, h.params.symm, h.skippedExport.symm⟩

theorem AdamWState.Same.trans {a b c : AdamWState} (h : a.Same b) (h' : b.Same c) : a.Same c :=
  ⟨h.step.trans h'.step, h.params.trans h'.params, h.skippedExport.trans h'.skippedExport⟩

/-- What the encodings do with the contents of a save: both can be inverted, the tensors of a file
whose keys are distinct up to their order, and a file is rejected in which some tensor does not
have the bytes of its shape. -/
structure Codec.Inverts {Value : Type} (codec : Codec Value) (state : TrainerStateDoc Value)
    (optim : AdamWState) : Prop where
  json : codec.fromSlice (codec.toStringPretty state) = some state
  tensors : ∀ tensors, optimTensors optim.params = .ok tensors →
    (tensors.map Prod.fst).Nodup → (∀ t ∈ tensors, t.2.data.length = 4 * t.2.shape.prod) →
    ∃ read, codec.deserialize (codec.serialize tensors (optimMetadata optim)) = some read ∧
      read.Perm tensors
  metadata : ∀ tensors, optimTensors optim.params = .ok tensors →
    (tensors.map Prod.fst).Nodup → (∀ t ∈ tensors, t.2.data.length = 4 * t.2.shape.prod) →
    ∃ metadata,
      codec.readMetadata (codec.serialize tensors (optimMetadata optim)) = some (some metadata) ∧
        ∀ key, metadata.lookup key = (optimMetadata optim).lookup key
  rejects : ∀ tensors, optimTensors optim.params = .ok tensors →
    (∃ t ∈ tensors, t.2.data.length ≠ 4 * t.2.shape.prod) →
    codec.deserialize (codec.serialize tensors (optimMetadata optim)) = none

section Loading

variable {Value : Type} {codec : Codec Value} {optim : AdamWState}

theorem pairParam_name {groups : Assoc String MomentPair} {name : String}
    {param : AdamWParamState} (h : pairParam groups name = .ok param) : param.name = name := by
  unfold pairParam at h
  dsimp only at h
  split at h
  · cases h
  · cases h
  · split_ifs at h
    cases h
    rfl

theorem map_name_of_mapM {groups : Assoc String MomentPair} {order : List String}
    {params : List AdamWParamState} (h : order.mapM (pairParam groups) = .ok params) :
    params.map AdamWParamState.name = order := by
  induction order generalizing params with
  | nil =>
    cases h
    rfl
  | cons name order ih =>
    rw [List.mapM_cons] at h
    cases hparam : pairParam groups name with
    | error e =>
      rw [hparam] at h
      cases h
    | ok param =>
      cases hrest : order.mapM (pairParam groups) with
      | error e =>
        rw [hparam, hrest] at h
        cases h
      | ok rest =>
        rw [hparam, hrest] at h
        cases h
        rw [List.map_cons, pairParam_name hparam, ih hrest]

/-- A loaded state has distinct names. -/
theorem nodup_of_loadOptim {bytes : List UInt8} {stateStep : UInt64}
    (h : loadOptim codec bytes stateStep = .ok optim) :
    (optim.params.map AdamWParamState.name).Nodup := by
  unfold loadOptim at h
  split at h
  · cases h
  · cases h
  · split at h
    · cases h
    · next order groups hgroup =>
      cases hparams : order.mapM (pairParam groups) with
      | error e =>
        rw [hparams] at h
        cases h
      | ok params =>
        rw [hparams] at h
        cases h
        rw [map_name_of_mapM hparams]
        refine groupTensors_nodup List.nodup_nil (fun base => ?_) hgroup
        rw [AList.lookup_empty]
        exact iff_of_false List.not_mem_nil (fun h => by cases h)

/-- A permutation of the tensors is the tensors of a permutation. -/
theorem exists_perm_of_perm_map {entries : List Entry} {read : List (String × TensorView)}
    (h : read.Perm (entries.map tensorOf)) :
    ∃ entries' : List Entry, entries'.Perm entries ∧ entries'.map tensorOf = read := by
  have hforall : List.Forall₂ (fun t e => t = tensorOf e) (entries.map tensorOf) entries :=
    List.forall₂_map_left_iff.mpr (List.forall₂_same.mpr fun _ _ => rfl)
  obtain ⟨entries', hread, hperm⟩ := List.perm_comp_forall₂ h hforall
  refine ⟨entries', hperm, ?_⟩
  exact (List.forall₂_eq_eq_eq ▸ List.forall₂_map_right_iff.mpr hread :
    read = entries'.map tensorOf).symm

theorem pairParam_grouped {order : List String} {groups : Assoc String MomentPair}
    {params : List AdamWParamState} {entries : List Entry} (hperm : entries.Perm (entriesOf params))
    (hgrouped : Grouped entries order groups) {param : AdamWParamState} (hparam : param ∈ params) :
    pairParam groups param.name = .ok param := by
  have hget (which : Moment) := (hgrouped.get param.name which
    (param.shape, match which with | .m => param.m | .v => param.v)).mpr
    (hperm.mem_iff.mpr (mem_entriesOf.mpr ⟨param, hparam, rfl, rfl⟩))
  have hm := hget .m
  have hv := hget .v
  unfold pairParam
  dsimp only [MomentPair.get] at hm hv ⊢
  rw [hm, hv]
  exact if_neg (not_not_intro rfl)

theorem exists_mapM_ok {ε α β : Type} {f : α → Except ε β} {l : List α} {ys : List β}
    (h : ∀ x ∈ l, ∃ y ∈ ys, f x = .ok y) : ∃ l', l.mapM f = .ok l' ∧ ∀ y ∈ l', y ∈ ys := by
  induction l with
  | nil => exact ⟨[], rfl, (fun _ h => by cases h)⟩
  | cons x l ih =>
    obtain ⟨y, hy, hx⟩ := h x List.mem_cons_self
    obtain ⟨l', hl, hall⟩ := ih fun x' hx' => h x' (List.mem_cons_of_mem x hx')
    refine ⟨y :: l', ?_, List.forall_mem_cons.mpr ⟨hy, hall⟩⟩
    rw [List.mapM_cons, hx, hl]
    rfl

/-- The tensors of the entries give the params back. -/
theorem mapM_pairParam {order : List String} {groups : Assoc String MomentPair}
    {params : List AdamWParamState} {entries : List Entry} (hperm : entries.Perm (entriesOf params))
    (hgrouped : Grouped entries order groups)
    (hnodup : (params.map AdamWParamState.name).Nodup) :
    ∃ params', order.mapM (pairParam groups) = .ok params' ∧ params'.Perm params := by
  have hall : ∀ name ∈ order, ∃ param ∈ params, pairParam groups name = .ok param := by
    intro name hname
    obtain ⟨which, moment, hentry⟩ := hgrouped.seen name hname
    obtain ⟨param, hparam, rfl, -⟩ := mem_entriesOf.mp (hperm.mem_iff.mp hentry)
    exact ⟨param, hparam, pairParam_grouped hperm hgrouped hparam⟩
  obtain ⟨params', hparams, hmem⟩ := exists_mapM_ok hall
  have hnames := map_name_of_mapM hparams
  have hnodup' : params'.Nodup := List.Nodup.of_map AdamWParamState.name (hnames ▸ hgrouped.nodup)
  refine ⟨params', hparams, (List.perm_ext_iff_of_nodup hnodup' (List.Nodup.of_map _ hnodup)).mpr
    fun param => ⟨hmem param, fun hparam => ?_⟩⟩
  have hentry : ((param.name, Moment.m), (param.shape, param.m)) ∈ entries :=
    hperm.mem_iff.mpr (mem_entriesOf.mpr ⟨param, hparam, rfl, rfl⟩)
  have hname : param.name ∈ order := by
    rw [hgrouped.mem, Option.isSome_iff_ne_none]
    intro hnone
    have hget := (hgrouped.get param.name .m (param.shape, param.m)).mpr hentry
    rw [hnone] at hget
    cases hget
  rw [← hnames] at hname
  obtain ⟨param', hparam', heq⟩ := List.mem_map.mp hname
  rwa [← List.inj_on_of_nodup_map hnodup (hmem param' hparam') hparam heq]

theorem metadataNumber_of_lookup {metadata : Metadata} {key : String} {value default : UInt64}
    (h : metadata.lookup key = some (toString value.toNat)) :
    metadataNumber (some metadata) key default = value := by
  unfold metadataNumber
  rw [Option.bind_some, h]
  dsimp only
  rw [parseUnsigned_toString value.toNat_lt]
  exact UInt64.ofNat_toNat

theorem expectedLen_of_lt {shape : List Nat} (h : shape.prod < 2 ^ 64) :
    expectedLen shape = shape.prod := by
  unfold expectedLen
  split
  · next hnil => rw [hnil, List.prod_nil]
  · exact Nat.mod_eq_of_lt h

theorem nodup_tensors {params : List AdamWParamState}
    (h : (params.map AdamWParamState.name).Nodup) :
    (((entriesOf params).map tensorOf).map Prod.fst).Nodup := by
  rw [List.map_map]
  have hkeys := (nodup_entriesOf h).map momentKey_injective
  rwa [List.map_map] at hkeys

/-- What a completed save has written to the optimizer file is loaded. -/
theorem loadOptim_of_saved {state : TrainerStateDoc Value} (hcodec : codec.Inverts state optim)
    (hfit : MomentsFit optim.params) (hnodup : (optim.params.map AdamWParamState.name).Nodup)
    (hprod : ∀ param ∈ optim.params, param.shape.prod < 2 ^ 64) (stateStep : UInt64) :
    ∃ optim', loadOptim codec (codec.serialize ((entriesOf optim.params).map tensorOf)
      (optimMetadata optim)) stateStep = .ok optim' ∧ optim'.Same optim := by
  have hok := optimTensors_ok hfit
  have hdata : ∀ t ∈ (entriesOf optim.params).map tensorOf,
      t.2.data.length = 4 * t.2.shape.prod := by
    intro t ht
    obtain ⟨⟨⟨base, which⟩, moment⟩, hentry, rfl⟩ := List.mem_map.mp ht
    obtain ⟨param, hparam, -, rfl⟩ := mem_entriesOf.mp hentry
    change (List.flatMap toLeBytes _).length = 4 * param.shape.prod
    have hlen := hfit param hparam
    rw [expectedLen_of_lt (hprod param hparam)] at hlen
    rw [length_flatMap_toLeBytes]
    cases which with
    | m => rw [hlen.1]
    | v => rw [hlen.2]
  obtain ⟨read, hread, hperm⟩ := hcodec.tensors _ hok (nodup_tensors hnodup) hdata
  obtain ⟨metadata, hmetadata, hlookup⟩ := hcodec.metadata _ hok (nodup_tensors hnodup) hdata
  obtain ⟨entries, hentries, rfl⟩ := exists_perm_of_perm_map hperm
  obtain ⟨order, groups, hgroup, hgrouped⟩ := grouped_nil.group entries
    (((hentries.map Prod.fst).nodup_iff).mpr (nodup_entriesOf hnodup))
  obtain ⟨params, hparams, hsame⟩ := mapM_pairParam hentries hgrouped hnodup
  refine ⟨⟨metadataNumber (some metadata) "step" stateStep, params,
    metadataNumber (some metadata) "skipped_export" 0⟩, ?_, ?_⟩
  · rw [loadOptim, hmetadata, hread]
    dsimp only
    rw [hgroup]
    dsimp only
    rw [hparams]
    rfl
  · refine ⟨metadataNumber_of_lookup ?_, hsame, metadataNumber_of_lookup ?_⟩
    · rw [hlookup]
      rfl
    · rw [hlookup]
      rfl

theorem sound_of_loadOptim {state : TrainerStateDoc Value} (hcodec : codec.Inverts state optim)
    (hfit : MomentsFit optim.params) {optim' : AdamWState} {stateStep : UInt64}
    (h : loadOptim codec (codec.serialize ((entriesOf optim.params).map tensorOf)
      (optimMetadata optim)) stateStep = .ok optim') (hsame : optim'.Same optim) :
    (optim.params.map AdamWParamState.name).Nodup ∧
      ∀ param ∈ optim.params, param.shape.prod < 2 ^ 64 := by
  refine ⟨((hsame.params.map AdamWParamState.name).nodup_iff).mp (nodup_of_loadOptim h), ?_⟩
  intro param hparam
  by_contra hlarge
  have hentry : ((param.name, Moment.m), (param.shape, param.m)) ∈ entriesOf optim.params :=
    mem_entriesOf.mpr ⟨param, hparam, rfl, rfl⟩
  have hshape : param.shape ≠ [] := by
    intro hnil
    rw [hnil, List.prod_nil] at hlarge
    exact hlarge (by decide)
  have hlen := (hfit param hparam).1
  rw [expectedLen, if_neg hshape] at hlen
  have hmod := Nat.mod_lt param.shape.prod (Nat.two_pow_pos 64)
  have hreject := hcodec.rejects _ (optimTensors_ok hfit)
    ⟨_, List.mem_map_of_mem (f := tensorOf) hentry, by
      change (param.m.flatMap toLeBytes).length ≠ 4 * param.shape.prod
      rw [length_flatMap_toLeBytes]
      omega⟩
  unfold loadOptim at h
  rw [hreject] at h
  split at h <;> simp_all

end Loading

end Arle.Train
