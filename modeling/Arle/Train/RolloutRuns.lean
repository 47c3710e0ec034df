import Mathlib
import Arle.Train.RolloutSpec

/-!
# Runs of rollouts

A run hands the prompt to the model and then one token after another. Behind every chunk the cache
holds the keys and values of all tokens so far, and the logits are those of the full forward pass
at the last of them. So the two greedy loops choose the same tokens.
-/

namespace Arle.Train.Rollout

open Arle.Autograd

variable {F : Type}

/-! ## Chunks of tokens -/

section Input

/-- A chunk of tokens that the cache has room for: the prompt, or one token after it. -/
structure Fits (model : Qwen35Model F) (maxSeqLen : Nat) (tokens ids : List Nat) : Prop where
  ne_nil : ids ≠ []
  chunk : ids.length = 1 ∨ tokens = []
  room : tokens.length + ids.length ≤ maxSeqLen
  rope : tokens.length + ids.length ≤ model.cosCache.length

variable {model : Qwen35Model F} {maxSeqLen : Nat} {tokens ids : List Nat}

theorem Fits.length_ne_zero (h : Fits model maxSeqLen tokens ids) : ids.length ≠ 0 :=
  fun hzero => h.ne_nil (List.length_eq_zero_iff.mp hzero)

theorem known_iff : model.Known ids ↔
    ids.find? (fun index => index ≥ model.embedTokens.length) = none := by
  rw [List.find?_eq_none]
  simp only [decide_eq_true_eq, not_le]
  rfl

theorem known_append : model.Known (tokens ++ ids) ↔ model.Known tokens ∧ model.Known ids :=
  List.forall_mem_append

variable [Field F]

theorem embedding_unknown {token : Nat}
    (h : ids.find? (fun index => index ≥ model.embedTokens.length) = some token) :
    embedding model.embedTokens model.config.hiddenSize ids =
      .error (.indexOutOfBounds token model.embedTokens.length) := by
  unfold embedding
  rw [h]

theorem tokenRow_append_left {p : Nat} (hp : p < tokens.length) :
    model.tokenRow (tokens ++ ids) p = model.tokenRow tokens p := by
  unfold Qwen35Model.tokenRow
  rw [List.getD_append _ _ _ _ hp]

theorem tokenRow_append_right (j : Nat) :
    model.tokenRow (tokens ++ ids) (tokens.length + j) = model.tokenRow ids j := by
  unfold Qwen35Model.tokenRow
  rw [List.getD_append_right _ _ _ _ (Nat.le_add_right _ _), Nat.add_sub_cancel_left]

theorem lastRow_eq {m width : Nat} (hm : m ≠ 0) {t : HostTensor F} {row : Nat → List F}
    (ht : t.shape = [1, m, width]) (hrows : Rows 1 m width t.data fun _ j => row j) : ∃ y,
    Qwen35Model.lastRow t m width = .ok y ∧ y.shape = [1, 1, width] ∧
      Rows 1 1 width y.data fun _ _ => row (m - 1) := by
  unfold Qwen35Model.lastRow
  split
  · rename_i hone
    subst hone
    refine ⟨t, rfl, ht, hrows.congr fun _ _ j hj => ?_⟩
    obtain rfl : j = 0 := by omega
    rfl
  · have hslice := slice_row ht (Nat.sub_one_lt hm) hrows
    rwa [Nat.sub_one_add_one hm] at hslice

end Input

variable [Field F] [LinearOrder F] (kernels : Kernels F) (model : Qwen35Model F)

/-- What the called functions are relied on for. -/
structure Kernels.Relied (kernels : Kernels F) : Prop where
  sgemm : kernels.sgemm.Multiplies
  writes : WritesRows kernels.kvCacheWriteAxis2
  attends : AttendsHeads kernels.exp kernels.sqrt kernels.causalSdpaDecodeGqaCache

/-! ## The run of a chunk -/

section Chunk

/-- A cache for `maxSeqLen` tokens that holds the keys and values of the tokens so far. -/
structure CacheHolds (maxSeqLen : Nat) (tokens : List Nat) (cache : Qwen35KvCache F) : Prop where
  seqLen : cache.seqLen = tokens.length
  layers : ∀ x, (∀ p < tokens.length, x p = model.tokenRow tokens p) →
    StackHolds kernels model.angles maxSeqLen tokens.length model.layers cache.layers x

variable {kernels model} {maxSeqLen : Nat} {tokens ids : List Nat} {cache : Qwen35KvCache F}

theorem cacheHolds_new (hfull : model.AllFull) :
    CacheHolds kernels model maxSeqLen [] (Qwen35KvCache.new model maxSeqLen) where
  seqLen := rfl
  layers _ _ := stackHolds_new kernels hfull

theorem CacheHolds.length_layers (h : CacheHolds kernels model maxSeqLen tokens cache) :
    cache.layers.length = model.layers.length :=
  (h.layers (model.tokenRow tokens) fun _ _ => rfl).length

theorem CacheHolds.seqCursor (h : CacheHolds kernels model maxSeqLen tokens cache) :
    ∀ layerCache ∈ cache.layers, layerCache.seqCursor = tokens.length :=
  (h.layers (model.tokenRow tokens) fun _ _ => rfl).seqCursor

/-- The checks of the input let a fitting chunk pass. -/
theorem forwardRolloutCached_eq_extend
    (hcache : CacheHolds kernels model maxSeqLen tokens cache)
    (hfits : Fits model maxSeqLen tokens ids) :
    model.forwardRolloutCached kernels false ids (List.range' tokens.length ids.length) cache =
      model.extendKvCache kernels false ids (List.range' tokens.length ids.length) cache := by
  have hlen : (List.range' tokens.length ids.length).length = ids.length := List.length_range'
  have hcontiguous : ¬ ∃ p ∈ (List.range' tokens.length ids.length).zipIdx,
      p.1 ≠ cache.seqLen + p.2 := by
    rintro ⟨⟨position, offset⟩, hp, hne⟩
    have hget := List.mem_zipIdx_iff_getElem?.mp hp
    obtain ⟨hlt, heq⟩ := List.getElem?_eq_some_iff.mp hget
    rw [List.getElem_range', Nat.one_mul] at heq
    exact hne (by rw [hcache.seqLen]; exact heq.symm)
  unfold Qwen35Model.forwardRolloutCached Qwen35Model.forwardBatchIndicesWithKvCache
  dsimp only
  rw [hlen, if_neg (not_not_intro rfl), if_neg (not_not_intro rfl),
    if_neg (not_not_intro hcache.length_layers), if_neg hfits.length_ne_zero, if_neg hcontiguous,
    model.length_cosCache]
  dsimp only
  rw [if_neg (by rw [hcache.seqLen]; exact Nat.not_lt_of_le hfits.rope)]

/-- The run of a chunk, for any rows that begin with those of the tokens. -/
theorem extendKvCache_eq (hkernels : kernels.Relied)
    (hcache : CacheHolds kernels model maxSeqLen tokens cache)
    (hfits : Fits model maxSeqLen tokens ids) (hids : model.Known ids) {x : Nat → List F}
    (hx : ∀ p < (tokens ++ ids).length, x p = model.tokenRow (tokens ++ ids) p) : ∃ y caches,
    model.extendKvCache kernels false ids (List.range' tokens.length ids.length) cache =
        .ok (y, ⟨caches, tokens.length + ids.length⟩) ∧
      y.shape = [1, 1, model.config.vocabSize] ∧
      Rows 1 1 model.config.vocabSize y.data (fun _ _ => model.lmHead.apply (model.finalNorm.apply
        (hiddenRows kernels model.angles model.layers x (tokens.length + (ids.length - 1))))) ∧
      StackHolds kernels model.angles maxSeqLen (tokens.length + ids.length) model.layers caches
        x := by
  have hm := hfits.length_ne_zero
  have hlen : (List.range' tokens.length ids.length).length = ids.length := List.length_range'
  have hold : ∀ p < tokens.length, x p = model.tokenRow tokens p := by
    intro p hp
    rw [hx p (by rw [List.length_append]; omega), tokenRow_append_left hp]
  have hnew : ∀ j < ids.length, model.tokenRow ids j = x (tokens.length + j) := by
    intro j hj
    rw [hx _ (by rw [List.length_append]; omega), tokenRow_append_right]
  obtain ⟨cos, hcos, hcosrows⟩ := selectCacheRows_eq model.cosCache _ hfits.rope
  obtain ⟨sin, hsin, hsinrows⟩ := selectCacheRows_eq model.sinCache _
    (model.length_sinCache.symm ▸ hfits.rope)
  obtain ⟨t, t', ht, ht', htshape, htrows⟩ := model.embed_eq hids
  obtain ⟨u, caches, hu, hushape, hurows, hstack⟩ := forwardLayersWithKvCache_eq kernels
    (validHeads_of_validate model.validated) hkernels.sgemm hkernels.writes hkernels.attends
    (hfits.chunk.imp_right fun h => h ▸ rfl) hm hfits.room hcosrows hsinrows htshape
    (htrows.congr fun _ _ j hj => hnew j hj) (hcache.layers x hold)
  obtain ⟨w, hw, hwshape, hwrows⟩ := mapRows_eq model.finalNorm [1, ids.length] hushape
    (by simp) hurows
  obtain ⟨l, hl, hlshape, hlrows⟩ := lastRow_eq hm hwshape hwrows
  obtain ⟨y, hy, hyshape, hyrows⟩ := mapRows_eq model.lmHead [1, 1] hlshape (by simp)
    hlrows
  refine ⟨y, caches, ?_, hyshape, hyrows, hstack⟩
  unfold Qwen35Model.extendKvCache
  dsimp only
  rw [hlen, hcache.seqLen, hcos, ok_bind, hsin, ok_bind, ht]
  change (op (t.reshape _) >>= fun _ => _) = _
  rw [ht']
  change (forwardLayersWithKvCache kernels false cos sin tokens.length model.layers cache.layers t'
    >>= fun _ => _) = _
  rw [hu, ok_bind]
  dsimp only
  rw [hw]
  change (op (Qwen35Model.lastRow w ids.length model.config.hiddenSize) >>= fun _ => _) = _
  rw [hl]
  change (op (mapRows model.lmHead l) >>= fun _ => _) = _
  rw [hy]
  rfl

/-- The logits behind a chunk are those of the full sequence, and the cache holds it. -/
theorem forwardRolloutCached_eq (hkernels : kernels.Relied)
    (hcache : CacheHolds kernels model maxSeqLen tokens cache)
    (hfits : Fits model maxSeqLen tokens ids) (hids : model.Known ids) : ∃ y cache',
    model.forwardRolloutCached kernels false ids (List.range' tokens.length ids.length) cache =
        .ok (y, cache') ∧
      y.shape = [1, 1, model.config.vocabSize] ∧
      Rows 1 1 model.config.vocabSize y.data (fun _ _ =>
        model.logitsRow kernels (tokens ++ ids) ((tokens ++ ids).length - 1)) ∧
      CacheHolds kernels model maxSeqLen (tokens ++ ids) cache' := by
  have hlast : tokens.length + (ids.length - 1) = (tokens ++ ids).length - 1 := by
    have hm := hfits.length_ne_zero
    rw [List.length_append]
    omega
  obtain ⟨y, caches, hrun, hshape, hrows, -⟩ := extendKvCache_eq hkernels hcache hfits hids
    (x := model.tokenRow (tokens ++ ids)) fun _ _ => rfl
  rw [hlast] at hrows
  refine ⟨y, _, (forwardRolloutCached_eq_extend hcache hfits).trans hrun, hshape, hrows,
    List.length_append.symm, fun x hx => ?_⟩
  -- The caches are the same for all rows that begin with those of the tokens.
  obtain ⟨y', caches', hrun', -, -, hstack⟩ := extendKvCache_eq hkernels hcache hfits hids hx
  cases hrun.symm.trans hrun'
  rw [List.length_append]
  exact hstack

/-! ## Unknown tokens -/

/-- Both forward passes stop at the first token that is not in the table. -/
theorem forwardRolloutCached_unknown (hcache : CacheHolds kernels model maxSeqLen tokens cache)
    (hfits : Fits model maxSeqLen tokens ids) {token : Nat}
    (h : ids.find? (fun index => index ≥ model.embedTokens.length) = some token) :
    model.forwardRolloutCached kernels false ids (List.range' tokens.length ids.length) cache =
      .error (.autograd (.indexOutOfBounds token model.embedTokens.length)) := by
  obtain ⟨cos, hcos, -⟩ := selectCacheRows_eq model.cosCache _ hfits.rope
  obtain ⟨sin, hsin, -⟩ := selectCacheRows_eq model.sinCache _
    (model.length_sinCache.symm ▸ hfits.rope)
  rw [forwardRolloutCached_eq_extend hcache hfits]
  unfold Qwen35Model.extendKvCache
  dsimp only
  rw [hcos, ok_bind, hsin, ok_bind, embedding_unknown h]
  rfl

theorem forward_unknown (hrope : ids.length ≤ model.cosCache.length) {token : Nat}
    (h : ids.find? (fun index => index ≥ model.embedTokens.length) = some token) :
    model.forward kernels ids (List.range ids.length) =
      .error (.autograd (.indexOutOfBounds token model.embedTokens.length)) := by
  obtain ⟨cos, hcos, -⟩ := selectCacheRows_eq model.cosCache 0
    (m := ids.length) (by omega)
  obtain ⟨sin, hsin, -⟩ := selectCacheRows_eq model.sinCache 0
    (m := ids.length) (by rw [model.length_sinCache]; omega)
  rw [← List.range_eq_range'] at hcos hsin
  have hlen : (List.range ids.length).length = ids.length := List.length_range
  unfold Qwen35Model.forward Qwen35Model.forwardBatch
  rw [hlen, if_neg (not_not_intro (Nat.one_mul _).symm), if_neg (not_not_intro rfl),
    model.length_cosCache]
  dsimp only
  rw [if_neg (Nat.not_lt_of_le hrope), Qwen35Model.forwardBatchIndices,
    Qwen35Model.forwardBatchHiddenIndices]
  rw [hlen, if_neg (not_not_intro (Nat.one_mul _).symm), hcos, ok_bind, hsin, ok_bind,
    embedding_unknown h]
  rfl

end Chunk

/-! ## The logits of a run -/

section Logits

/-- The last row of the logits of the full forward pass. -/
def Qwen35Model.lastLogits (ids : List Nat) : Except Qwen35Error (HostTensor F) := do
  let logits ← model.forward kernels ids (List.range ids.length)
  op (logits.slice [0, ids.length - 1, 0] [1, ids.length, model.config.vocabSize])

/-- One token after another is handed to the model; `position` is that of the first. -/
def decodeTokens : List Nat → Nat → Qwen35KvCache F →
    Except Qwen35Error (List (HostTensor F) × Qwen35KvCache F)
  | [], _, cache => .ok ([], cache)
  | token :: rest, position, cache => do
    let (logits, cache) ← model.forwardRolloutCached kernels false [token] [position] cache
    let (more, cache) ← decodeTokens rest (position + 1) cache
    return (logits :: more, cache)

/-- The prompt is handed to the model with a new cache, and then the tokens after it. -/
def cachedLogits (prompt next : List Nat) (maxSeqLen : Nat) :
    Except Qwen35Error (List (HostTensor F) × Qwen35KvCache F) := do
  let (logits, cache) ← model.forwardRolloutCached kernels false prompt
    (List.range prompt.length) (Qwen35KvCache.new model maxSeqLen)
  let (more, cache) ← decodeTokens kernels model next prompt.length cache
  return (logits :: more, cache)

variable {kernels model} {maxSeqLen : Nat} {tokens ids : List Nat} {cache : Qwen35KvCache F}

theorem lastLogits_eq (hfull : model.AllFull) (hkernels : kernels.Relied)
    (hids : model.Known ids) (hne : ids ≠ []) (hrope : ids.length ≤ model.cosCache.length) : ∃ y,
    model.lastLogits kernels ids = .ok y ∧ y.shape = [1, 1, model.config.vocabSize] ∧
      Rows 1 1 model.config.vocabSize y.data fun _ _ =>
        model.logitsRow kernels ids (ids.length - 1) := by
  have hm : ids.length ≠ 0 := fun h => hne (List.length_eq_zero_iff.mp h)
  obtain ⟨t, ht, htshape, htrows⟩ := model.forward_eq kernels hfull hkernels.sgemm hids hne hrope
  obtain ⟨y, hy, hyshape, hyrows⟩ := slice_row htshape (Nat.sub_one_lt hm) htrows
  rw [Nat.sub_one_add_one hm] at hy
  refine ⟨y, ?_, hyshape, hyrows⟩
  unfold Qwen35Model.lastLogits
  rw [ht, ok_bind, hy]
  rfl

/-- The logits behind a chunk: those of the full forward pass, or its error. -/
theorem chunk_agrees (hfull : model.AllFull) (hkernels : kernels.Relied)
    (hcache : CacheHolds kernels model maxSeqLen tokens cache) (htokens : model.Known tokens)
    (hfits : Fits model maxSeqLen tokens ids) :
    (∃ y cache', model.forwardRolloutCached kernels false ids
        (List.range' tokens.length ids.length) cache = .ok (y, cache') ∧
      model.lastLogits kernels (tokens ++ ids) = .ok y ∧ model.Known (tokens ++ ids) ∧
      CacheHolds kernels model maxSeqLen (tokens ++ ids) cache') ∨
    ∃ e, model.forwardRolloutCached kernels false ids (List.range' tokens.length ids.length)
        cache = .error e ∧
      model.forward kernels (tokens ++ ids) (List.range (tokens ++ ids).length) = .error e ∧
      ¬ model.Known ids := by
  have hne : tokens ++ ids ≠ [] := fun h => hfits.ne_nil (List.append_eq_nil_iff.mp h).2
  have hrope : (tokens ++ ids).length ≤ model.cosCache.length :=
    List.length_append.symm ▸ hfits.rope
  by_cases hids : model.Known ids
  · have hall := known_append.mpr ⟨htokens, hids⟩
    obtain ⟨y, cache', hrun, hshape, hrows, hholds⟩ := forwardRolloutCached_eq hkernels hcache hfits
      hids
    obtain ⟨y', hlast, hshape', hrows'⟩ := lastLogits_eq hfull hkernels hall hne hrope
    have heq : y' = y := HostTensor.ext (hrows'.unique hrows) (hshape'.trans hshape.symm)
    exact .inl ⟨y, cache', hrun, heq ▸ hlast, hall, hholds⟩
  · cases hfind : ids.find? (fun index => index ≥ model.embedTokens.length) with
    | none => exact absurd (known_iff.mpr hfind) hids
    | some token =>
      have hfind' : (tokens ++ ids).find? (fun index => index ≥ model.embedTokens.length) =
          some token := by
        rw [List.find?_append, known_iff.mp htokens, Option.none_or, hfind]
      exact .inr ⟨_, forwardRolloutCached_unknown hcache hfits hfind,
        forward_unknown hrope hfind', hids⟩

theorem inits_eq (next : List Nat) : next.inits = [] :: next.inits.tail := by
  cases next with
  | nil => rfl
  | cons token rest => rfl

/-- A run is as long as its cache says, and its logits are those of the full forward pass. -/
theorem decodeTokens_eq (hfull : model.AllFull) (hkernels : kernels.Relied) {next : List Nat}
    (hne : tokens ≠ []) (hcache : CacheHolds kernels model maxSeqLen tokens cache)
    (htokens : model.Known tokens) (hroom : tokens.length + next.length ≤ maxSeqLen)
    (hrope : tokens.length + next.length ≤ model.cosCache.length) :
    (decodeTokens kernels model next tokens.length cache).map Prod.fst =
        next.inits.tail.mapM (fun fed => model.lastLogits kernels (tokens ++ fed)) ∧
      (∀ logits cache', decodeTokens kernels model next tokens.length cache = .ok (logits, cache') →
        CacheHolds kernels model maxSeqLen (tokens ++ next) cache') ∧
      (model.Known next → ∃ run, decodeTokens kernels model next tokens.length cache = .ok run) := by
  induction next generalizing tokens cache with
  | nil =>
    refine ⟨rfl, fun logits cache' h => ?_, fun _ => ⟨_, rfl⟩⟩
    cases h
    rwa [List.append_nil]
  | cons token rest ih =>
    rw [List.length_cons] at hroom hrope
    have hfits : Fits model maxSeqLen tokens [token] :=
      ⟨List.cons_ne_nil _ _, .inl rfl, by rw [List.length_singleton]; omega,
        by rw [List.length_singleton]; omega⟩
    have hassoc : ∀ fed, tokens ++ token :: fed = tokens ++ [token] ++ fed := fun fed => by
      rw [List.append_assoc, List.singleton_append]
    have hprefixes : (token :: rest).inits.tail.mapM (fun fed =>
        model.lastLogits kernels (tokens ++ fed)) = (do
          let logits ← model.lastLogits kernels (tokens ++ [token])
          let more ← rest.inits.tail.mapM fun fed =>
            model.lastLogits kernels (tokens ++ [token] ++ fed)
          return logits :: more) := by
      have hcons : (fun fed => model.lastLogits kernels (tokens ++ fed)) ∘ List.cons token =
          fun fed => model.lastLogits kernels (tokens ++ [token] ++ fed) :=
        funext fun fed => congrArg (model.lastLogits kernels) (hassoc fed)
      rw [List.inits_cons, List.tail_cons, inits_eq rest, List.map_cons, List.mapM_cons,
        List.mapM_map, hcons]
      rfl
    rw [hprefixes, decodeTokens]
    rcases chunk_agrees hfull hkernels hcache htokens hfits with
      ⟨y, cache', hrun, hlast, hknown, hholds⟩ | ⟨e, hrun, hforward, hunknown⟩
    · have hrun' : model.forwardRolloutCached kernels false [token] [tokens.length] cache =
          .ok (y, cache') := hrun
      have hlen : (tokens ++ [token]).length = tokens.length + 1 := List.length_append
      have hne' : tokens ++ [token] ≠ [] := fun h => hne (List.append_eq_nil_iff.mp h).1
      obtain ⟨hlogits, hend, hok⟩ := ih hne' hholds hknown (by omega) (by omega)
      rw [hlen] at hlogits hend hok
      rw [hrun', hlast, ok_bind, ok_bind, ← hlogits]
      dsimp only
      cases hrest : decodeTokens kernels model rest (tokens.length + 1) cache' with
      | error e =>
        refine ⟨rfl, fun _ _ h => (by cases h), fun h => ?_⟩
        obtain ⟨run, hrun⟩ := hok fun id hid => h id (List.mem_cons_of_mem _ hid)
        cases hrest.symm.trans hrun
      | ok run =>
        refine ⟨rfl, fun logits cache'' h => ?_, fun _ => ⟨_, rfl⟩⟩
        cases h
        rw [hassoc]
        exact hend _ _ hrest
    · have hrun' : model.forwardRolloutCached kernels false [token] [tokens.length] cache =
          .error e := hrun
      have hlast : model.lastLogits kernels (tokens ++ [token]) = .error e := by
        unfold Qwen35Model.lastLogits
        rw [hforward]
        rfl
      rw [hrun', hlast]
      refine ⟨rfl, fun _ _ h => (by cases h), fun h => absurd ?_ hunknown⟩
      exact fun id hid => h id (List.mem_cons.mpr (.inl (List.mem_singleton.mp hid)))

end Logits

end Arle.Train.Rollout
