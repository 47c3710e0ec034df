import Mathlib
import Arle.Train.RolloutRuns

/-!
# The cached rollout

Round for round, the greedy loop with a cache chooses the tokens of the loop without one. In front
of a round the cache holds the tokens that the model has seen, and the round hands it the others:
the whole prompt, or the token that the round before has chosen.
-/

namespace Arle.Train.Rollout

open Arle.Autograd

variable {F : Type} [Field F] [LinearOrder F] {kernels : Kernels F} {model : Qwen35Model F}

/-! ## Logits -/

section Logits

variable {maxSeqLen : Nat} {prompt next : List Nat}

/-- The logits of a run with a cache are those of the full forward passes. -/
theorem cachedLogits_eq (hfull : model.AllFull) (hkernels : kernels.Relied) (hne : prompt ≠ [])
    (hroom : prompt.length + next.length ≤ maxSeqLen)
    (hrope : prompt.length + next.length ≤ model.cosCache.length) :
    (cachedLogits kernels model prompt next maxSeqLen).map Prod.fst =
        next.inits.mapM (fun fed => model.lastLogits kernels (prompt ++ fed)) ∧
      (∀ logits cache, cachedLogits kernels model prompt next maxSeqLen = .ok (logits, cache) →
        CacheHolds kernels model maxSeqLen (prompt ++ next) cache) ∧
      (model.Known (prompt ++ next) →
        ∃ run, cachedLogits kernels model prompt next maxSeqLen = .ok run) := by
  have hfits : Fits model maxSeqLen [] prompt :=
    ⟨hne, .inr rfl, by rw [List.length_nil]; omega, by rw [List.length_nil]; omega⟩
  have hinits : next.inits.mapM (fun fed => model.lastLogits kernels (prompt ++ fed)) = (do
      let logits ← model.lastLogits kernels prompt
      let more ← next.inits.tail.mapM fun fed => model.lastLogits kernels (prompt ++ fed)
      return logits :: more) := by
    rw [inits_eq next, List.mapM_cons, List.append_nil]
    rfl
  have hrange : List.range' ([] : List Nat).length prompt.length = List.range prompt.length :=
    List.range_eq_range'.symm
  have hnew : CacheHolds kernels model maxSeqLen [] (Qwen35KvCache.new model maxSeqLen) :=
    cacheHolds_new hfull
  have hagrees := chunk_agrees hfull hkernels hnew (fun _ h => absurd h List.not_mem_nil) hfits
  rw [List.nil_append, hrange] at hagrees
  rw [hinits, cachedLogits]
  rcases hagrees with ⟨y, cache, hrun, hlast, hknown, hholds⟩ | ⟨e, hrun, hforward, hunknown⟩
  · obtain ⟨hlogits, hend, hok⟩ := decodeTokens_eq hfull hkernels hne hholds hknown
      hroom hrope
    rw [hrun, hlast, ok_bind, ok_bind, ← hlogits]
    dsimp only
    cases hrest : decodeTokens kernels model next prompt.length cache with
    | error e =>
      refine ⟨rfl, fun _ _ h => (by cases h), fun h => ?_⟩
      obtain ⟨run, hrun⟩ := hok (known_append.mp h).2
      cases hrest.symm.trans hrun
    | ok run =>
      refine ⟨rfl, fun logits cache' h => ?_, fun _ => ⟨_, rfl⟩⟩
      cases h
      exact hend _ _ hrest
  · have hlast : model.lastLogits kernels prompt = .error e := by
      unfold Qwen35Model.lastLogits
      rw [hforward]
      rfl
    rw [hrun, hlast]
    exact ⟨rfl, fun _ _ h => (by cases h), fun h => absurd (known_append.mp h).1 hunknown⟩

end Logits

/-! ## Rounds -/

section Rounds

/-- The next token is chosen from the last row, whatever stands in front of it. -/
theorem greedyNextToken_lastRow {m vocab : Nat} (hm : m ≠ 0) (hvocab : vocab ≠ 0)
    {t y : HostTensor F} {row : Nat → List F} (ht : Rows 1 m vocab t.data fun _ j => row j)
    (hy : Rows 1 1 vocab y.data fun _ _ => row (m - 1)) :
    greedyNextToken t m vocab = greedyNextToken y 1 vocab := by
  have htlen : t.data.length = m * vocab := ht.fills.length.trans (Nat.one_mul _)
  have hylen : y.data.length = 1 * vocab := hy.fills.length.trans (Nat.one_mul _)
  have htrow := ht.slice_eq Nat.zero_lt_one (Nat.sub_one_lt hm)
  have hyrow := hy.slice_eq Nat.zero_lt_one Nat.zero_lt_one
  rw [Nat.zero_mul, Nat.zero_add] at htrow
  rw [Nat.zero_mul] at hyrow
  have hsample : ¬ (m = 0 ∨ vocab = 0) := fun h => h.elim hm hvocab
  have hsample' : ¬ (1 = 0 ∨ vocab = 0) := fun h => h.elim Nat.one_ne_zero hvocab
  unfold greedyNextToken
  dsimp only
  rw [if_neg hsample, if_neg hsample', if_neg (not_not_intro htlen), if_neg (not_not_intro hylen),
    htrow, Nat.sub_self, Nat.zero_mul, hyrow]

/-- What holds in front of a round. -/
structure Pending (kernels : Kernels F) (model : Qwen35Model F) (maxSeqLen step : Nat)
    (rollout : List Nat) (cache : Qwen35KvCache F) (tokens ids : List Nat) : Prop where
  rollout_eq : rollout = tokens ++ ids
  input : nextInput rollout step = .ok (ids, List.range' tokens.length ids.length)
  ne_nil : ids ≠ []
  chunk : ids.length = 1 ∨ tokens = []
  known : model.Known tokens
  holds : CacheHolds kernels model maxSeqLen tokens cache

variable {maxSeqLen step : Nat} {rollout prompt tokens ids : List Nat} {cache : Qwen35KvCache F}

theorem pending_zero (hfull : model.AllFull) (hne : prompt ≠ []) :
    Pending kernels model maxSeqLen 0 prompt (Qwen35KvCache.new model maxSeqLen) [] prompt where
  rollout_eq := rfl
  input := congrArg (fun positions => Except.ok (prompt, positions)) List.range_eq_range'
  ne_nil := hne
  chunk := .inr rfl
  known _ h := nomatch h
  holds := cacheHolds_new hfull

theorem pending_succ (hknown : model.Known rollout)
    (hholds : CacheHolds kernels model maxSeqLen rollout cache) (next : Nat) :
    Pending kernels model maxSeqLen (step + 1) (rollout ++ [next]) cache rollout [next] where
  rollout_eq := rfl
  input := by
    unfold nextInput
    rw [if_neg (Nat.succ_ne_zero step), List.getLast?_concat, List.length_append,
      List.length_singleton, Nat.add_sub_cancel]
    rfl
  ne_nil := List.cons_ne_nil _ _
  chunk := .inl rfl
  known := hknown
  holds := hholds

/-- Both rounds append the same token, or stop with the same error. -/
theorem kvCacheStep_agrees (hfull : model.AllFull) (hkernels : kernels.Relied)
    (h : Pending kernels model maxSeqLen step rollout cache tokens ids)
    (hroom : rollout.length ≤ maxSeqLen) (hrope : rollout.length ≤ model.cosCache.length) :
    (∃ next cache', kvCacheStep kernels model (rollout, cache) step =
        .ok (rollout ++ [next], cache') ∧
      fullForwardStep kernels model rollout = .ok (rollout ++ [next]) ∧
      Pending kernels model maxSeqLen (step + 1) (rollout ++ [next]) cache' rollout [next]) ∨
    ∃ e, kvCacheStep kernels model (rollout, cache) step = .error e ∧
      fullForwardStep kernels model rollout = .error e := by
  have hlen : rollout.length = tokens.length + ids.length :=
    (congrArg List.length h.rollout_eq).trans List.length_append
  have hne : rollout ≠ [] := fun hnil =>
    h.ne_nil (List.append_eq_nil_iff.mp (h.rollout_eq.symm.trans hnil)).2
  have hm : rollout.length ≠ 0 := fun hzero => hne (List.length_eq_zero_iff.mp hzero)
  have hagrees := chunk_agrees hfull hkernels h.holds h.known
    ⟨h.ne_nil, h.chunk, hlen ▸ hroom, hlen ▸ hrope⟩
  rw [← h.rollout_eq] at hagrees
  unfold kvCacheStep fullForwardStep
  dsimp only
  rw [h.input, ok_bind]
  dsimp only
  rcases hagrees with ⟨y, cache', hrun, hlast, hknown, hholds⟩ | ⟨e, hrun, hforward, -⟩
  · obtain ⟨t, ht, -, htrows⟩ := model.forward_eq kernels hfull hkernels.sgemm hknown hne hrope
    obtain ⟨y', hlast', -, hyrows⟩ := lastLogits_eq hfull hkernels hknown hne hrope
    cases hlast.symm.trans hlast'
    have hvocab : model.config.vocabSize ≠ 0 := by
      obtain ⟨id, hid⟩ := List.exists_mem_of_ne_nil _ hne
      have hlt := hknown id hid
      rw [model.length_embedTokens] at hlt
      omega
    rw [hrun, ht]
    change (∃ next cache'', (greedyNextToken y 1 _ >>= fun _ => _) = _ ∧
        (greedyNextToken t rollout.length _ >>= fun _ => _) = _ ∧ _) ∨
      ∃ e, (greedyNextToken y 1 _ >>= fun _ => _) = _ ∧
        (greedyNextToken t rollout.length _ >>= fun _ => _) = _
    rw [greedyNextToken_lastRow hm hvocab htrows hyrows]
    cases greedyNextToken y 1 model.config.vocabSize with
    | error e => exact .inr ⟨e, rfl, rfl⟩
    | ok next => exact .inl ⟨next, cache', rfl, rfl, pending_succ hknown hholds next⟩
  · rw [hrun, hforward]
    exact .inr ⟨_, rfl, rfl⟩

/-- The rounds from `step` on. -/
theorem foldlM_kvCacheStep (hfull : model.AllFull) (hkernels : kernels.Relied) {n : Nat}
    (h : Pending kernels model maxSeqLen step rollout cache tokens ids)
    (hroom : rollout.length + n ≤ maxSeqLen + 1)
    (hrope : rollout.length + n ≤ model.cosCache.length + 1) :
    ((List.range' step n).foldlM (kvCacheStep kernels model) (rollout, cache)).map Prod.fst =
      (List.range' step n).foldlM (fun rollout _ => fullForwardStep kernels model rollout)
        rollout := by
  induction n generalizing step rollout cache tokens ids with
  | zero => rfl
  | succ n ih =>
    rw [List.range'_succ, List.foldlM_cons, List.foldlM_cons]
    rcases kvCacheStep_agrees hfull hkernels h (by omega) (by omega) with
      ⟨next, cache', hstep, hfullStep, hnext⟩ | ⟨e, hstep, hfullStep⟩
    · have hlen : (rollout ++ [next]).length = rollout.length + 1 := List.length_append
      rw [hstep, hfullStep, ok_bind, ok_bind]
      exact ih hnext (by omega) (by omega)
    · rw [hstep, hfullStep]
      rfl

theorem rolloutWithKvCache_eq (hfull : model.AllFull) (hkernels : kernels.Relied)
    (hne : prompt ≠ []) {rolloutLen : Nat}
    (hrope : prompt.length + rolloutLen ≤ model.cosCache.length + 1) :
    rolloutWithKvCache kernels model prompt rolloutLen =
      rolloutFullForward kernels model prompt rolloutLen := by
  have hpending : Pending kernels model (prompt.length + rolloutLen) 0 prompt
      (Qwen35KvCache.new model (prompt.length + rolloutLen)) [] prompt := pending_zero hfull hne
  have hrounds := foldlM_kvCacheStep hfull hkernels hpending (Nat.le_succ _) hrope
  rw [← List.range_eq_range'] at hrounds
  unfold rolloutWithKvCache rolloutFullForward
  dsimp only
  rw [← hrounds]
  cases (List.range rolloutLen).foldlM (kvCacheStep kernels model)
    (prompt, Qwen35KvCache.new model (prompt.length + rolloutLen)) <;> rfl

end Rounds

/-- A rollout with a cache has the logits, the lengths and the tokens of the full one. -/
theorem cached_rollout_eq (hsupports : supportsRolloutKvCache model = true)
    (hkernels : kernels.Relied) {prompt : List Nat} (hne : prompt ≠ []) :
    (∀ next maxSeqLen, prompt.length + next.length ≤ maxSeqLen →
      prompt.length + next.length ≤ model.cosCache.length →
      (cachedLogits kernels model prompt next maxSeqLen).map Prod.fst =
          next.inits.mapM (fun fed => model.lastLogits kernels (prompt ++ fed)) ∧
        (∀ logits cache, cachedLogits kernels model prompt next maxSeqLen = .ok (logits, cache) →
          cache.seqLen = prompt.length + next.length ∧
            ∀ layerCache ∈ cache.layers, layerCache.seqCursor = cache.seqLen) ∧
        (model.Known (prompt ++ next) →
          ∃ run, cachedLogits kernels model prompt next maxSeqLen = .ok run)) ∧
      ∀ rolloutLen, prompt.length + rolloutLen ≤ model.cosCache.length + 1 →
        rolloutWithKvCache kernels model prompt rolloutLen =
          rolloutFullForward kernels model prompt rolloutLen := by
  have hfull := model.allFull_of_supports hsupports
  refine ⟨fun next maxSeqLen hroom hrope => ?_, fun _ => rolloutWithKvCache_eq hfull hkernels hne⟩
  obtain ⟨hlogits, hend, hok⟩ := cachedLogits_eq hfull hkernels hne hroom hrope
  refine ⟨hlogits, fun logits cache hrun => ?_, hok⟩
  have hholds := hend logits cache hrun
  have hlen := hholds.seqLen
  refine ⟨hlen.trans List.length_append, fun layerCache hmem => ?_⟩
  exact (hholds.seqCursor layerCache hmem).trans hlen.symm

/-! ## A small model -/

section Small

/-- Column `i` is the sum of the row and `i`. -/
def sumMap (m n : Nat) : RowMap ℚ m n where
  apply row := (List.range n).map fun i : Nat => row.sum + (i : ℚ)
  length_apply row _ := by rw [List.length_map, List.length_range]

def smallConfig : Qwen35Config where
  hiddenSize := 2
  intermediateSize := 3
  numHiddenLayers := 2
  vocabSize := 3
  tieWordEmbeddings := false
  numAttentionHeads := 2
  numKeyValueHeads := 1
  headDim := 2
  linearNumKeyHeads := 1
  linearKeyHeadDim := 1
  linearNumValueHeads := 1
  linearValueHeadDim := 1
  linearConvKernelDim := 2
  rotaryDim := 2
  ropeCacheLenHint := some 4
  layerTypes := [.fullAttention, .fullAttention]
  numExperts := 0
  fullAttnGated := true

def smallLayer : Qwen35Layer ℚ smallConfig where
  inputLayernorm := sumMap _ _
  selfAttn := .full ⟨sumMap _ _, sumMap _ _, sumMap _ _, sumMap _ _, sumMap _ _, sumMap _ _⟩
  postAttentionLayernorm := sumMap _ _
  mlp := ⟨sumMap _ _, sumMap _ _, sumMap _ _⟩

def smallModel : Qwen35Model ℚ where
  config := smallConfig
  layers := [smallLayer, smallLayer]
  embedTokens := [[0, 1], [2, 3], [5, 8]]
  finalNorm := sumMap _ _
  lmHead := sumMap _ _
  cosCache := [[1], [2], [3], [4]]
  sinCache := [[0], [1], [0], [1]]
  validated := rfl
  length_embedTokens := rfl
  width_embedTokens := by decide
  length_cosCache := rfl
  length_sinCache := rfl

def smallKernels : Kernels ℚ where
  device := .cuda
  exp x := x ^ 2 + 1
  sqrt := id
  sigmoid := id
  silu := id
  rotate cos sin row := row.map fun x => x * cos.sum + sin.sum
  length_rotate _ _ _ := List.length_map _
  sgemm := plainSgemm
  kvCacheWriteAxis2 := kvCacheWriteAxis2
  causalSdpaDecodeGqaCache := causalSdpaDecodeGqaCache (fun x => x ^ 2 + 1) id

theorem smallKernels_relied : smallKernels.Relied where
  sgemm := plainSgemm_multiplies
  writes := kvCacheWriteAxis2_writes
  attends := causalSdpaDecodeGqaCache_attends _ _

theorem cached_rollout_eq_small :
    (cachedLogits smallKernels smallModel [1, 0] [2, 2] 4).map Prod.fst =
        [[], [2], [2, 2]].mapM (fun fed => smallModel.lastLogits smallKernels ([1, 0] ++ fed)) ∧
      rolloutWithKvCache smallKernels smallModel [1, 0] 3 =
        rolloutFullForward smallKernels smallModel [1, 0] 3 := by
  have hne : ([1, 0] : List Nat) ≠ [] := by decide
  have hfull : supportsRolloutKvCache smallModel = true := rfl
  have heq := cached_rollout_eq hfull smallKernels_relied hne
  exact ⟨(heq.1 [2, 2] 4 (by decide) (by decide)).1, heq.2 3 (by decide)⟩

end Small

end Arle.Train.Rollout
