import Arle.Autograd.OptimSpec

/-!
# Training on the host and on the device

A round of training gives gradients to some of the parameters, sets the learning rate, steps and
clears the gradients. On the host a cleared gradient is a gradient of zeros, and the next step
goes on with it; on the device it is none, and the step leaves the parameter. So the two paths
agree as long as a parameter with moments is given a gradient in each round, or would not move
without one.
-/

namespace Arle.Autograd

/-! ## Loops over slots -/

/-- What a loop that updates one entry after another does to an entry. -/
theorem foldl_update_apply {ι α β : Type} [DecidableEq ι] (key : β → ι) (f : β → α → α)
    (l : List β) (s : ι → α) (i : ι) :
    l.foldl (fun s b => Function.update s (key b) (f b (s (key b)))) s i =
      (l.filter fun b => key b = i).foldl (fun x b => f b x) (s i) := by
  induction l generalizing s with
  | nil => rfl
  | cons b l ih =>
    rw [List.foldl_cons, ih]
    by_cases hb : key b = i
    · subst hb
      rw [List.filter_cons_of_pos (by simp), List.foldl_cons, Function.update_self]
    · rw [List.filter_cons_of_neg (by simpa using hb), Function.update_of_ne (Ne.symm hb)]

/-- A loop that does the same to each entry it names. -/
theorem foldl_update_iterate {ι α : Type} [DecidableEq ι] (f : α → α) (l : List ι) (s : ι → α)
    (i : ι) : l.foldl (fun s j => Function.update s j (f (s j))) s i = f^[l.count i] (s i) := by
  induction l generalizing s with
  | nil => rfl
  | cons j l ih =>
    rw [List.foldl_cons, ih]
    by_cases hj : j = i
    · subst hj
      rw [Function.update_self, List.count_cons_self, Function.iterate_succ_apply]
    · rw [Function.update_of_ne (Ne.symm hj), List.count_cons_of_ne hj]

/-! ## Rounds -/

/-- What a round of training is given: a learning rate, and gradients for some parameters, in the
order of their computation. -/
structure Round (F H : Type) where
  lr : F
  grads : List (TensorId × Tensor F H)

/-- A round without the placement of its gradients. -/
structure PlainRound (F : Type) where
  lr : F
  grads : List (TensorId × List F)

namespace Round

variable {F H : Type}

def plain (backend : Backend F H) (round : Round F H) : PlainRound F :=
  ⟨round.lr, round.grads.map fun grad => (grad.1, grad.2.content backend)⟩

/-- The gradients are tensors of the shapes of their parameters. -/
def Fits (backend : Backend F H) (params : List TensorId) (shape : TensorId → List Nat)
    (round : Round F H) : Prop :=
  ∀ grad ∈ round.grads, grad.1 ∈ params ∧ grad.2.Resident backend ∧ grad.2.shape = shape grad.1

end Round

namespace PlainRound

/-- The round has a gradient for a parameter. -/
def Gives {F : Type} (round : PlainRound F) (p : TensorId) : Prop := ∃ g, (p, g) ∈ round.grads

end PlainRound

namespace AdamW

variable {F H : Type} [Field F] [LinearOrder F] (sqrt : F → F) (backend : AdamWBackend F H)

/-- A backward pass hands a gradient to `accumulate_grad`. -/
def giveGrad (store : TensorStore F H) (grad : TensorId × Tensor F H) : Result (TensorStore F H) :=
  TensorStore.accumulateGrad backend.toBackend (store.alloc grad.2).2 grad.1 (store.alloc grad.2).1

/-- `set_lr`. -/
def setLr (opt : AdamW F H) (lr : F) : AdamW F H := { opt with lr := lr }

def trainRound (params : List TensorId) (state : AdamW F H × TensorStore F H)
    (round : Round F H) : Result (AdamW F H × TensorStore F H) := do
  let store ← round.grads.foldlM (giveGrad backend) state.2
  let (opt, store) ← step sqrt backend (state.1.setLr round.lr) params store
  let store ← zeroGrad backend opt params store
  return (opt, store)

def train (params : List TensorId) (state : AdamW F H × TensorStore F H)
    (rounds : List (Round F H)) : Result (AdamW F H × TensorStore F H) :=
  rounds.foldlM (trainRound sqrt backend params) state

/-- What is kept of a parameter: its value and its moments, absent ones counted as zeros. -/
def kept (state : AdamW F H × TensorStore F H) (p : TensorId) :
    Option (List F × List F × List F) :=
  (state.2.get p).map fun t => (t.content backend.toBackend,
    (state.1.momentsHost backend p).getD
      (List.replicate (shapeSize t.shape) 0, List.replicate (shapeSize t.shape) 0))

end AdamW

/-! ## Rounds on slots -/

namespace PlainRound

variable {F : Type} {round : PlainRound F} {p : TensorId}

def gradsOf (round : PlainRound F) (p : TensorId) : List (List F) :=
  (round.grads.filter fun grad => grad.1 = p).map Prod.snd

theorem gradsOf_eq_nil : round.gradsOf p = [] ↔ ¬ round.Gives p := by
  unfold gradsOf Gives
  rw [List.map_eq_nil_iff, List.filter_eq_nil_iff]
  constructor
  · rintro h ⟨g, hg⟩
    exact h _ hg (by simp)
  · rintro h ⟨q, g⟩ hg hq
    rw [decide_eq_true_eq] at hq
    exact h ⟨g, hq ▸ hg⟩

theorem mem_of_mem_gradsOf {g : List F} (h : g ∈ round.gradsOf p) : (p, g) ∈ round.grads := by
  obtain ⟨⟨q, g'⟩, hmem, rfl⟩ := List.mem_map.mp h
  obtain ⟨hmem, hq⟩ := List.mem_filter.mp hmem
  rw [decide_eq_true_eq] at hq
  exact hq ▸ hmem

end PlainRound

section Slots

variable {F : Type} [Field F] [LinearOrder F] (sqrt : F → F)

/-- The numbers that do not change from step to step. -/
structure Hyper (F : Type) where
  beta1 : F
  beta2 : F
  eps : F
  wd : F

/-- The numbers of the step with the count `n`. -/
def Hyper.args (hyper : Hyper F) (lr : F) (n : Nat) : AdamWArgs F :=
  ⟨lr, hyper.beta1, hyper.beta2, hyper.eps, hyper.wd, 1 - hyper.beta1 ^ n, 1 - hyper.beta2 ^ n⟩

namespace Slot

/-- A round on a slot: the gradients for it, and as many steps and calls of `zero_grad` as the
parameter has places in the list of the parameters. -/
def round (deviceBacked : Bool) (args : AdamWArgs F) (count : Nat) (grads : List (List F))
    (s : Slot F) : Slot F :=
  (zeroGrad deviceBacked)^[count] ((step sqrt args)^[count] (grads.foldl addGrad s))

/-- The rounds from the step count `n` on. -/
def rounds (deviceBacked : Bool) (hyper : Hyper F) (count : Nat) (p : TensorId) :
    Nat → List (PlainRound F) → Slot F → Slot F
  | _, [], s => s
  | n, r :: rest, s => rounds deviceBacked hyper count p (n + 1) rest
      (s.round sqrt deviceBacked (hyper.args r.lr (n + 1)) count (r.gradsOf p))

/-- A step with a gradient of zeros, on a value and its moments. -/
def idle (args : AdamWArgs F) (x : List F × List F × List F) : List F × List F × List F :=
  adamwUpdate sqrt args x.1 (List.replicate x.1.length 0) x.2.1 x.2.2

def content (s : Slot F) : List F × List F × List F := (s.value, s.momentsOrZero)

variable {sqrt} {args : AdamWArgs F} {s a b : Slot F} {count n : Nat} {hyper : Hyper F}
  {p : TensorId} {deviceBacked : Bool}

theorem rounds_append (rest : List (PlainRound F)) (r : PlainRound F) :
    s.rounds sqrt deviceBacked hyper count p n (rest ++ [r]) =
      (s.rounds sqrt deviceBacked hyper count p n rest).round sqrt deviceBacked
        (hyper.args r.lr (n + rest.length + 1)) count (r.gradsOf p) := by
  induction rest generalizing n s with
  | nil => rfl
  | cons r' rest ih =>
    rw [List.cons_append, rounds, ih, rounds, List.length_cons]
    congr 3
    omega

/-! ### What a step keeps -/

theorem step_frame : (s.step sqrt args).shape = s.shape ∧
    (s.step sqrt args).requiresGrad = s.requiresGrad ∧ (s.step sqrt args).grad = s.grad := by
  unfold step
  split <;> exact ⟨rfl, rfl, rfl⟩

theorem steps_frame : ((step sqrt args)^[n] s).shape = s.shape ∧
    ((step sqrt args)^[n] s).requiresGrad = s.requiresGrad ∧
      ((step sqrt args)^[n] s).grad = s.grad := by
  induction n with
  | zero => exact ⟨rfl, rfl, rfl⟩
  | succ n ih =>
    obtain ⟨hshape, hrequires, hgrad⟩ := step_frame (s := (step sqrt args)^[n] s)
    rw [Function.iterate_succ_apply']
    exact ⟨hshape.trans ih.1, hrequires.trans ih.2.1, hgrad.trans ih.2.2⟩

theorem steps_of_none (h : s.grad = none) : (step sqrt args)^[n] s = s :=
  Function.iterate_fixed (step_of_none sqrt h) n

omit [LinearOrder F] in
theorem zeroGrads_device : (zeroGrad true)^[n + 1] s = { s with grad := none } := by
  rw [Function.iterate_succ_apply]
  exact Function.iterate_fixed rfl n

omit [LinearOrder F] in
theorem zeroGrads_host : (zeroGrad false)^[n + 1] s =
    { s with grad := s.grad.map fun _ => s.zeros } := by
  rw [Function.iterate_succ_apply]
  refine Function.iterate_fixed ?_ n
  cases hgrad : s.grad with
  | none => simp [zeroGrad, hgrad]
  | some g => simp [zeroGrad, zeros, hgrad]

omit [LinearOrder F] in
theorem addGrads_of_not_requires (h : s.requiresGrad = false) (gs : List (List F)) :
    gs.foldl addGrad s = s := by
  induction gs with
  | nil => rfl
  | cons g gs ih => rw [List.foldl_cons, addGrad, if_pos h, ih]

omit [LinearOrder F] in
theorem addGrads_frame (gs : List (List F)) : (gs.foldl addGrad s).shape = s.shape ∧
    (gs.foldl addGrad s).requiresGrad = s.requiresGrad := by
  induction gs generalizing s with
  | nil => exact ⟨rfl, rfl⟩
  | cons g gs ih =>
    rw [List.foldl_cons, ih.1, ih.2, addGrad]
    split <;> exact ⟨rfl, rfl⟩

omit [LinearOrder F] in
theorem addGrads_isSome (h : s.grad.isSome) (gs : List (List F)) :
    (gs.foldl addGrad s).grad.isSome := by
  induction gs generalizing s with
  | nil => exact h
  | cons g gs ih =>
    refine ih ?_
    unfold addGrad
    split
    · exact h
    · rfl

omit [LinearOrder F] in
theorem addGrad_isSome (h : s.requiresGrad = true) (g : List F) : (s.addGrad g).grad.isSome := by
  unfold addGrad
  rw [if_neg (by simp [h])]
  rfl

/-! ### Slots that differ in the placement only -/

/-- The same, but for moments that are absent in one and zeros in the other. -/
structure Same (a b : Slot F) : Prop where
  value : a.value = b.value
  shape : a.shape = b.shape
  requiresGrad : a.requiresGrad = b.requiresGrad
  grad : a.grad = b.grad
  moments : a.momentsOrZero = b.momentsOrZero

omit [LinearOrder F] in
theorem Same.addGrad (h : Same a b) (g : List F) : Same (a.addGrad g) (b.addGrad g) := by
  unfold Slot.addGrad
  rw [h.requiresGrad, h.grad]
  split
  · exact h
  · exact ⟨h.value, h.shape, rfl, rfl, h.moments⟩

omit [LinearOrder F] in
theorem Same.addGrads (h : Same a b) (gs : List (List F)) :
    Same (gs.foldl Slot.addGrad a) (gs.foldl Slot.addGrad b) := by
  induction gs generalizing a b with
  | nil => exact h
  | cons g gs ih => exact ih (h.addGrad g)

theorem Same.step (h : Same a b) : Same (a.step sqrt args) (b.step sqrt args) := by
  cases hgrad : b.grad with
  | none =>
    rw [step_of_none sqrt hgrad, step_of_none sqrt (h.grad.trans hgrad)]
    exact h
  | some g =>
    rw [step_of_some sqrt hgrad, step_of_some sqrt (h.grad.trans hgrad), h.value, h.moments]
    exact ⟨rfl, h.shape, h.requiresGrad, h.grad, rfl⟩

theorem Same.steps (h : Same a b) : Same ((Slot.step sqrt args)^[n] a)
    ((Slot.step sqrt args)^[n] b) := by
  induction n with
  | zero => exact h
  | succ n ih =>
    rw [Function.iterate_succ_apply', Function.iterate_succ_apply']
    exact ih.step

/-! ### The two paths -/

/-- The slot of a parameter on the host and on the device, between two rounds; `seen` says that
the parameter has been given a gradient. -/
structure Level (seen : Prop) (host device : Slot F) : Prop where
  value : host.value = device.value
  shape : host.shape = device.shape
  requiresGrad : host.requiresGrad = device.requiresGrad
  moments : host.momentsOrZero = device.momentsOrZero
  device_grad : device.grad = none
  host_none : ¬ (device.requiresGrad = true ∧ seen) → host.grad = none
  host_zeros : device.requiresGrad = true → seen → host.grad = some host.zeros

variable {seen : Prop} {host device : Slot F} {gs : List (List F)}

omit [LinearOrder F] in
theorem addAssign_zeros {g : List F} {n : Nat} (h : g.length = n) :
    addAssign (List.replicate n 0) g = g := by
  subst h
  induction g with
  | nil => rfl
  | cons value g ih => rw [List.length_cons, List.replicate_succ, addAssign, ih, zero_add]

omit [LinearOrder F] in
theorem Level.content_eq (h : Level seen host device) : host.content = device.content :=
  Prod.ext h.value h.moments

omit [LinearOrder F] in
/-- The first gradient of a round replaces the zeros. -/
theorem Level.same_addGrad (h : Level seen host device) (hrequires : device.requiresGrad = true)
    {g : List F} (hg : g.length = shapeSize device.shape) :
    Same (host.addGrad g) (device.addGrad g) := by
  have hrequires' : host.requiresGrad = true := h.requiresGrad.trans hrequires
  have hsum : (host.grad.map fun sum => addAssign sum g).getD g = g := by
    by_cases hseen : seen
    · rw [h.host_zeros hrequires hseen, Option.map_some, Option.getD_some, zeros, h.shape,
        addAssign_zeros hg]
    · rw [h.host_none fun hboth => hseen hboth.2]
      rfl
  unfold addGrad
  rw [if_neg (by simp [hrequires']), if_neg (by simp [hrequires]), hsum, h.device_grad]
  exact ⟨h.value, h.shape, h.requiresGrad, rfl, h.moments⟩

/-- A round without a gradient on the device. -/
theorem round_device_nil (hgrad : s.grad = none) :
    s.round sqrt true args (count + 1) [] = s := by
  unfold round
  rw [List.foldl_nil, steps_of_none hgrad, zeroGrads_device, ← hgrad]

/-- A round without a gradient on the host, if there has never been one. -/
theorem round_host_nil (hgrad : s.grad = none) :
    s.round sqrt false args (count + 1) [] = s := by
  unfold round
  rw [List.foldl_nil, steps_of_none hgrad, zeroGrads_host, hgrad, Option.map_none, ← hgrad]

/-- A round that has a gradient for the parameter, if there has been one. -/
theorem Level.round (h : Level seen host device)
    (hgiven : device.requiresGrad = true → seen → gs ≠ [])
    (hgs : ∀ g ∈ gs, g.length = shapeSize device.shape) :
    Level (seen ∨ gs ≠ []) (host.round sqrt false args (count + 1) gs)
      (device.round sqrt true args (count + 1) gs) := by
  cases hrequires : device.requiresGrad with
  | false =>
    have hgrad : host.grad = none := h.host_none (by simp [hrequires])
    have hhost : host.round sqrt false args (count + 1) [] = host := round_host_nil hgrad
    have hdevice : device.round sqrt true args (count + 1) [] = device :=
      round_device_nil h.device_grad
    unfold Slot.round at hhost hdevice ⊢
    rw [addGrads_of_not_requires (h.requiresGrad.trans hrequires), addGrads_of_not_requires hrequires]
    rw [List.foldl_nil] at hhost hdevice
    rw [hhost, hdevice]
    exact ⟨h.value, h.shape, h.requiresGrad, h.moments, h.device_grad, fun _ => hgrad,
      fun htrue => absurd htrue (by simp [hrequires])⟩
  | true =>
    cases gs with
    | nil =>
      have hseen : ¬ seen := fun hseen => hgiven hrequires hseen rfl
      have hgrad : host.grad = none := h.host_none fun hboth => hseen hboth.2
      rw [round_host_nil hgrad, round_device_nil h.device_grad]
      exact ⟨h.value, h.shape, h.requiresGrad, h.moments, h.device_grad, fun _ => hgrad,
        fun _ hor => hor.elim (fun hs => absurd hs hseen) fun hne => absurd rfl hne⟩
    | cons g gs =>
      have hsame : Same ((step sqrt args)^[count + 1] (gs.foldl addGrad (host.addGrad g)))
          ((step sqrt args)^[count + 1] (gs.foldl addGrad (device.addGrad g))) :=
        ((h.same_addGrad hrequires (hgs g List.mem_cons_self)).addGrads gs).steps
      have hreq : ((step sqrt args)^[count + 1] (gs.foldl addGrad (device.addGrad g))).requiresGrad
          = true := by
        rw [steps_frame.2.1, (addGrads_frame gs).2]
        exact (addGrads_frame [g]).2.trans hrequires
      obtain ⟨sum, hsum⟩ := Option.isSome_iff_exists.mp
        (addGrads_isSome (addGrad_isSome hrequires g) gs)
      have hgrad : ((step sqrt args)^[count + 1] (gs.foldl addGrad (device.addGrad g))).grad =
          some sum := steps_frame.2.2.trans hsum
      unfold Slot.round
      rw [List.foldl_cons, List.foldl_cons, zeroGrads_host, zeroGrads_device]
      refine ⟨hsame.value, hsame.shape, hsame.requiresGrad, hsame.moments, rfl, fun hnone => ?_,
        fun _ _ => ?_⟩
      · exact absurd ⟨hreq, .inr (List.cons_ne_nil _ _)⟩ hnone
      · dsimp only
        rw [hsame.grad, hgrad, Option.map_some]
        rfl

omit [LinearOrder F] in
theorem content_zeroGrads : ((zeroGrad deviceBacked)^[n] s).content = s.content ∧
    ((zeroGrad deviceBacked)^[n] s).shape = s.shape := by
  induction n with
  | zero => exact ⟨rfl, rfl⟩
  | succ n ih =>
    rw [Function.iterate_succ_apply']
    generalize (zeroGrad deviceBacked)^[n] s = s' at ih
    rw [← ih.1, ← ih.2, zeroGrad]
    split <;> exact ⟨rfl, rfl⟩

/-- The steps of a slot whose gradient is zeros. -/
theorem content_steps_zeros (hsized : s.Sized) (hgrad : s.grad = some s.zeros) :
    ((step sqrt args)^[n] s).content = (idle sqrt args)^[n] s.content ∧
      ((step sqrt args)^[n] s).Sized := by
  induction n with
  | zero => exact ⟨rfl, hsized⟩
  | succ n ih =>
    obtain ⟨hshape, -, hgrads⟩ := steps_frame (s := s) (n := n)
    rw [Function.iterate_succ_apply', Function.iterate_succ_apply', ← ih.1]
    generalize (step sqrt args)^[n] s = s' at ih hshape hgrads
    refine ⟨?_, ih.2.step sqrt args⟩
    rw [step_of_some sqrt (hgrads.trans hgrad)]
    unfold content idle zeros
    rw [ih.2.value, hshape]
    rfl

/-- A round that has no gradient for a parameter that has had one. -/
theorem Level.idle_round (h : Level seen host device) (hsized : host.Sized)
    (hrequires : device.requiresGrad = true) (hseen : seen) :
    ((host.round sqrt false args (count + 1) []).content =
        (device.round sqrt true args (count + 1) []).content ↔
      (idle sqrt args)^[count + 1] device.content = device.content) ∧
    ((idle sqrt args)^[count + 1] device.content = device.content →
      Level seen (host.round sqrt false args (count + 1) [])
        (device.round sqrt true args (count + 1) [])) := by
  have hgrad := h.host_zeros hrequires hseen
  obtain ⟨hcontent, -⟩ := content_steps_zeros (n := count + 1) hsized hgrad
  obtain ⟨hshape, hreq, hgrads⟩ := steps_frame (s := host) (n := count + 1)
  have hhost : (host.round sqrt false args (count + 1) []).content =
      (idle sqrt args)^[count + 1] device.content := by
    rw [← h.content_eq, ← hcontent]
    exact content_zeroGrads.1
  rw [round_device_nil h.device_grad, hhost]
  refine ⟨Iff.rfl, fun hidle => ?_⟩
  have heq := hhost.trans hidle
  refine ⟨congrArg Prod.fst heq, ?_, ?_, congrArg Prod.snd heq, h.device_grad, fun hnone => ?_,
    fun _ _ => ?_⟩
  · exact content_zeroGrads.2.trans (hshape.trans h.shape)
  · unfold Slot.round
    rw [List.foldl_nil, zeroGrads_host]
    exact hreq.trans h.requiresGrad
  · exact absurd ⟨hrequires, hseen⟩ hnone
  · unfold Slot.round
    rw [List.foldl_nil, zeroGrads_host, hgrads, hgrad, Option.map_some]
    rfl

/-! ### Runs -/

/-- A round keeps the sizes. -/
theorem sized_round (hsized : s.Sized) (hgs : ∀ g ∈ gs, g.length = shapeSize s.shape) :
    (s.round sqrt deviceBacked args n gs).Sized := by
  have hgrads : (gs.foldl addGrad s).Sized := by
    induction gs generalizing s with
    | nil => exact hsized
    | cons g gs ih =>
      have hshape : (s.addGrad g).shape = s.shape := (addGrads_frame [g]).1
      refine ih (hsized.addGrad (hgs g List.mem_cons_self)) fun g' hg' => ?_
      rw [hshape]
      exact hgs g' (List.mem_cons_of_mem g hg')
  have hsteps : ∀ m, ((step sqrt args)^[m] (gs.foldl addGrad s)).Sized := by
    intro m
    induction m with
    | zero => exact hgrads
    | succ m ih =>
      rw [Function.iterate_succ_apply']
      exact ih.step sqrt args
  have hzeros : ∀ m, ((zeroGrad deviceBacked)^[m]
      ((step sqrt args)^[n] (gs.foldl addGrad s))).Sized := by
    intro m
    induction m with
    | zero => exact hsteps n
    | succ m ih =>
      rw [Function.iterate_succ_apply']
      exact ih.zeroGrad deviceBacked
  exact hzeros n

theorem shape_round (s : Slot F) : (s.round sqrt deviceBacked args n gs).shape = s.shape :=
  content_zeroGrads.2.trans (steps_frame.1.trans (addGrads_frame gs).1)

theorem sized_rounds {rs : List (PlainRound F)} (hsized : s.Sized)
    (hrs : ∀ r ∈ rs, ∀ g ∈ r.gradsOf p, g.length = shapeSize s.shape) :
    (s.rounds sqrt deviceBacked hyper count p n rs).Sized ∧
      (s.rounds sqrt deviceBacked hyper count p n rs).shape = s.shape := by
  induction rs generalizing n s with
  | nil => exact ⟨hsized, rfl⟩
  | cons r rs ih =>
    have hround : (s.round sqrt deviceBacked (hyper.args r.lr (n + 1)) count
        (r.gradsOf p)).Sized := sized_round hsized (hrs r List.mem_cons_self)
    have hshape : (s.round sqrt deviceBacked (hyper.args r.lr (n + 1)) count
        (r.gradsOf p)).shape = s.shape := shape_round s
    obtain ⟨hrest, hshape'⟩ := ih (n := n + 1) hround fun r' hr' g hg =>
      hshape ▸ hrs r' (List.mem_cons_of_mem r hr') g hg
    exact ⟨hrest, hshape'.trans hshape⟩

/-- Round `k` has a gradient for the parameter, or there has never been one, or the parameter
stays where it is without one. -/
def IdleAt (sqrt : F → F) (hyper : Hyper F) (count : Nat) (p : TensorId)
    (rs : List (PlainRound F)) (s : Slot F) (k : Nat) : Prop :=
  ∀ r, rs[k]? = some r → s.requiresGrad = true → (∃ r' ∈ rs.take k, r'.Gives p) → ¬ r.Gives p →
    (idle sqrt (hyper.args r.lr (k + 1)))^[count] s.content = s.content

theorem level_succ {rs : List (PlainRound F)} {k : Nat} {r : PlainRound F} (hr : rs[k]? = some r)
    (h : Level (∃ r' ∈ rs.take k, r'.Gives p) host device) (hsized : host.Sized)
    (hgs : ∀ g ∈ r.gradsOf p, g.length = shapeSize device.shape) :
    ((host.round sqrt false (hyper.args r.lr (k + 1)) (count + 1) (r.gradsOf p)).content =
        (device.round sqrt true (hyper.args r.lr (k + 1)) (count + 1) (r.gradsOf p)).content ↔
      IdleAt sqrt hyper (count + 1) p rs device k) ∧
    (IdleAt sqrt hyper (count + 1) p rs device k →
      Level (∃ r' ∈ rs.take (k + 1), r'.Gives p)
        (host.round sqrt false (hyper.args r.lr (k + 1)) (count + 1) (r.gradsOf p))
        (device.round sqrt true (hyper.args r.lr (k + 1)) (count + 1) (r.gradsOf p))) := by
  have hseen : (∃ r' ∈ rs.take (k + 1), r'.Gives p) ↔
      (∃ r' ∈ rs.take k, r'.Gives p) ∨ r.gradsOf p ≠ [] := by
    rw [List.take_add_one, hr, Option.toList_some, ne_eq, PlainRound.gradsOf_eq_nil, not_not]
    simp only [List.mem_append, List.mem_singleton, or_and_right, exists_or, exists_eq_left]
  by_cases hgap : device.requiresGrad = true ∧ (∃ r' ∈ rs.take k, r'.Gives p) ∧ ¬ r.Gives p
  · obtain ⟨hrequires, hbefore, hnot⟩ := hgap
    obtain ⟨hiff, hlevel⟩ := h.idle_round hsized hrequires hbefore
    have hidle : IdleAt sqrt hyper (count + 1) p rs device k ↔
        (idle sqrt (hyper.args r.lr (k + 1)))^[count + 1] device.content = device.content := by
      refine ⟨fun hidle => hidle r hr hrequires hbefore hnot, fun hidle r' hr' _ _ _ => ?_⟩
      cases hr.symm.trans hr'
      exact hidle
    have hnil := PlainRound.gradsOf_eq_nil.mpr hnot
    rw [hidle, hseen, hnil]
    refine ⟨hiff, fun hstays => ?_⟩
    have hafter := hlevel hstays
    rwa [or_iff_left (not_not_intro rfl)]
  · have hlevel : Level ((∃ r' ∈ rs.take k, r'.Gives p) ∨ r.gradsOf p ≠ [])
        (host.round sqrt false (hyper.args r.lr (k + 1)) (count + 1) (r.gradsOf p))
        (device.round sqrt true (hyper.args r.lr (k + 1)) (count + 1) (r.gradsOf p)) :=
      h.round (fun hrequires hbefore hnil =>
        hgap ⟨hrequires, hbefore, PlainRound.gradsOf_eq_nil.mp hnil⟩) hgs
    rw [← hseen] at hlevel
    refine ⟨⟨fun _ r' hr' hrequires hbefore hnot => ?_, fun _ => hlevel.content_eq⟩,
      fun _ => hlevel⟩
    cases hr.symm.trans hr'
    exact absurd ⟨hrequires, hbefore, hnot⟩ hgap

/-- The slots of both paths agree after every number of rounds just when no round moves a
parameter that it has no gradient for. -/
theorem rounds_agree_iff {rs : List (PlainRound F)} (hgrad : s.grad = none) (hsized : s.Sized)
    (hrs : ∀ r ∈ rs, ∀ g ∈ r.gradsOf p, g.length = shapeSize s.shape) :
    (∀ k ≤ rs.length,
      (s.rounds sqrt false hyper (count + 1) p 0 (rs.take k)).content =
        (s.rounds sqrt true hyper (count + 1) p 0 (rs.take k)).content) ↔
    ∀ k < rs.length, IdleAt sqrt hyper (count + 1) p rs
      (s.rounds sqrt true hyper (count + 1) p 0 (rs.take k)) k := by
  have htake : ∀ {k r}, rs[k]? = some r → ∀ dev,
      s.rounds sqrt dev hyper (count + 1) p 0 (rs.take (k + 1)) =
        (s.rounds sqrt dev hyper (count + 1) p 0 (rs.take k)).round sqrt dev
          (hyper.args r.lr (k + 1)) (count + 1) (r.gradsOf p) := by
    intro k r hr dev
    have hk : k < rs.length := (List.getElem?_eq_some_iff.mp hr).1
    rw [List.take_add_one, hr, Option.toList_some, rounds_append, List.length_take_of_le hk.le,
      Nat.zero_add]
  have hsizes : ∀ dev k, (s.rounds sqrt dev hyper (count + 1) p 0 (rs.take k)).Sized ∧
      (s.rounds sqrt dev hyper (count + 1) p 0 (rs.take k)).shape = s.shape := fun dev k =>
    sized_rounds hsized fun r hr => hrs r (List.mem_of_mem_take hr)
  -- one more round, from slots that are level
  have hsucc : ∀ {k}, k < rs.length → Level (∃ r ∈ rs.take k, r.Gives p)
      (s.rounds sqrt false hyper (count + 1) p 0 (rs.take k))
      (s.rounds sqrt true hyper (count + 1) p 0 (rs.take k)) →
      ((s.rounds sqrt false hyper (count + 1) p 0 (rs.take (k + 1))).content =
        (s.rounds sqrt true hyper (count + 1) p 0 (rs.take (k + 1))).content ↔
        IdleAt sqrt hyper (count + 1) p rs
          (s.rounds sqrt true hyper (count + 1) p 0 (rs.take k)) k) ∧
      (IdleAt sqrt hyper (count + 1) p rs
          (s.rounds sqrt true hyper (count + 1) p 0 (rs.take k)) k →
        Level (∃ r ∈ rs.take (k + 1), r.Gives p)
          (s.rounds sqrt false hyper (count + 1) p 0 (rs.take (k + 1)))
          (s.rounds sqrt true hyper (count + 1) p 0 (rs.take (k + 1)))) := by
    intro k hk hlevel
    have hr := List.getElem?_eq_getElem hk
    rw [htake hr, htake hr]
    refine level_succ hr hlevel (hsizes false k).1 fun g hg => ?_
    rw [(hsizes true k).2]
    exact hrs _ (List.getElem_mem hk) g hg
  have hzero : Level (∃ r ∈ rs.take 0, r.Gives p)
      (s.rounds sqrt false hyper (count + 1) p 0 (rs.take 0))
      (s.rounds sqrt true hyper (count + 1) p 0 (rs.take 0)) :=
    ⟨rfl, rfl, rfl, rfl, hgrad, fun _ => hgrad, fun _ hgives => by
      obtain ⟨_, hr, _⟩ := hgives
      cases hr⟩
  constructor
  · intro hagree
    have hlevels : ∀ k, k ≤ rs.length → Level (∃ r ∈ rs.take k, r.Gives p)
        (s.rounds sqrt false hyper (count + 1) p 0 (rs.take k))
        (s.rounds sqrt true hyper (count + 1) p 0 (rs.take k)) := by
      intro k
      induction k with
      | zero => exact fun _ => hzero
      | succ k ih =>
        intro hk
        obtain ⟨hiff, hnext⟩ := hsucc hk (ih (Nat.le_of_succ_le hk))
        exact hnext (hiff.mp (hagree (k + 1) hk))
    exact fun k hk => (hsucc hk (hlevels k hk.le)).1.mp (hagree (k + 1) hk)
  · intro hidle k
    suffices hlevels : k ≤ rs.length → Level (∃ r ∈ rs.take k, r.Gives p)
        (s.rounds sqrt false hyper (count + 1) p 0 (rs.take k))
        (s.rounds sqrt true hyper (count + 1) p 0 (rs.take k)) from
      fun hk => (hlevels hk).content_eq
    induction k with
    | zero => exact fun _ => hzero
    | succ k ih =>
      exact fun hk => (hsucc hk (ih (Nat.le_of_succ_le hk))).2 (hidle k hk)

end Slot

end Slots

/-! ## The slots of a run -/

section Runs

variable {F H : Type} [Field F] [LinearOrder F] {sqrt : F → F} {backend : AdamWBackend F H}
  {params : List TensorId} {opt : AdamW F H} {store : TensorStore F H} {plain : PlainStore F}
  {slots : TensorId → Slot F} {shape : TensorId → List Nat}

def AdamW.hyper (opt : AdamW F H) : Hyper F := ⟨opt.beta1, opt.beta2, opt.eps, opt.wd⟩

/-- The numbers of an optimizer are not part of its slots. -/
theorem Holds.relabel (h : Holds backend params opt store plain slots) (lr : F) (n : Nat) :
    Holds backend params { opt with lr := lr, stepCount := n } store plain slots :=
  ⟨h.models, h.apart, h.slot, h.sized, h.moments, h.storage⟩

theorem giveGrads_holds (hexact : backend.toBackend.Exact) {grads : List (TensorId × Tensor F H)}
    (h : Holds backend params opt store plain slots) (hshape : ∀ p, (slots p).shape = shape p)
    (hfits : ∀ grad ∈ grads, grad.1 ∈ params ∧ grad.2.Resident backend.toBackend ∧
      grad.2.shape = shape grad.1) : ∃ store' plain',
    grads.foldlM (AdamW.giveGrad backend) store = .ok store' ∧
      Holds backend params opt store' plain' (grads.foldl (fun slots grad =>
        Function.update slots grad.1
          ((slots grad.1).addGrad (grad.2.content backend.toBackend))) slots) := by
  induction grads generalizing store plain slots with
  | nil => exact ⟨store, plain, rfl, h⟩
  | cons grad grads ih =>
    obtain ⟨hp, hres, hgshape⟩ := hfits grad List.mem_cons_self
    have halloc := h.models.alloc hres
    have hget : (plain.alloc (grad.2.plain backend.toBackend)).2.get (store.alloc grad.2).1 =
        some (grad.2.plain backend.toBackend) := by
      rw [halloc.1, h.models.plain_wellFormed.get_alloc, if_pos rfl]
    obtain ⟨store₁, plain₁, hcall, h₁⟩ := (h.alloc hres).accumulateGrad hexact hp hget
      (hgshape.trans (hshape grad.1).symm)
    have hshape₁ : ∀ p, (Function.update slots grad.1 ((slots grad.1).addGrad
        (grad.2.plain backend.toBackend).value) p).shape = shape p := by
      intro p
      by_cases hpg : p = grad.1
      · subst hpg
        rw [Function.update_self, ← hshape grad.1]
        exact (Slot.addGrads_frame [_]).1
      · rw [Function.update_of_ne hpg, hshape]
    obtain ⟨store', plain', hloop, h'⟩ := ih h₁ hshape₁ fun g hg =>
      hfits g (List.mem_cons_of_mem _ hg)
    refine ⟨store', plain', ?_, h'⟩
    rw [List.foldlM_cons]
    exact (congrArg (· >>= fun store => grads.foldlM (AdamW.giveGrad backend) store) hcall).trans
      hloop

/-- A round acts on the slots of the parameters. -/
theorem trainRound_holds (hexact : backend.Exact sqrt) {round : Round F H}
    (h : Holds backend params opt store plain slots) (hshape : ∀ p, (slots p).shape = shape p)
    (hfits : round.Fits backend.toBackend params shape) : ∃ state store' plain',
    AdamW.trainRound sqrt backend params (opt, store) round =
        .ok ({ opt with lr := round.lr, stepCount := opt.stepCount + 1, state := state }, store') ∧
      Holds backend params
        { opt with lr := round.lr, stepCount := opt.stepCount + 1, state := state } store' plain'
        fun p => (slots p).round sqrt opt.deviceBacked
          (opt.hyper.args round.lr (opt.stepCount + 1)) (params.count p)
          ((round.plain backend.toBackend).gradsOf p) := by
  obtain ⟨store₁, plain₁, hgive, h₁⟩ := giveGrads_holds hexact.exact h hshape hfits
  obtain ⟨state, store₂, plain₂, hstep, h₂⟩ := stepLoop_holds hexact (fun _ hq => hq)
    (h₁.relabel round.lr (opt.stepCount + 1))
  obtain ⟨store₃, plain₃, hzero, h₃⟩ := zeroGrad_holds (fun _ hq => hq) h₂
  refine ⟨state, store₃, plain₃, ?_, ?_⟩
  · unfold AdamW.trainRound
    rw [hgive]
    change (AdamW.step sqrt backend (opt.setLr round.lr) params store₁ >>= _) = _
    unfold AdamW.step AdamW.setLr
    rw [hstep]
    change (AdamW.zeroGrad backend _ params store₂ >>= _) = _
    rw [hzero]
    rfl
  · convert h₃ using 1
    funext p
    have hgrads : (round.plain backend.toBackend).gradsOf p =
        (round.grads.filter fun grad => grad.1 = p).map fun grad =>
          grad.2.content backend.toBackend := by
      unfold PlainRound.gradsOf Round.plain
      rw [List.filter_map, List.map_map]
      rfl
    refine Eq.trans ?_ (foldl_update_iterate _ params _ p).symm
    refine congrArg ((Slot.zeroGrad opt.deviceBacked)^[params.count p])
      (Eq.trans ?_ (foldl_update_iterate _ params _ p).symm)
    refine congrArg ((Slot.step sqrt (opt.hyper.args round.lr (opt.stepCount + 1)))^[params.count p])
      (Eq.trans ?_ (foldl_update_apply Prod.fst (fun grad s =>
      Slot.addGrad s (Tensor.content backend.toBackend grad.2)) round.grads slots p).symm)
    rw [hgrads, List.foldl_map]

/-- Any number of rounds. -/
theorem train_holds (hexact : backend.Exact sqrt) {rounds : List (Round F H)}
    (h : Holds backend params opt store plain slots) (hshape : ∀ p, (slots p).shape = shape p)
    (hfits : ∀ round ∈ rounds, round.Fits backend.toBackend params shape) :
    ∃ opt' store' plain', AdamW.train sqrt backend params (opt, store) rounds =
        .ok (opt', store') ∧
      opt'.hyper = opt.hyper ∧ opt'.stepCount = opt.stepCount + rounds.length ∧
      Holds backend params opt' store' plain' fun p =>
        (slots p).rounds sqrt opt.deviceBacked opt.hyper (params.count p) p opt.stepCount
          (rounds.map (Round.plain backend.toBackend)) := by
  induction rounds generalizing opt store plain slots with
  | nil => exact ⟨opt, store, plain, rfl, rfl, rfl, h⟩
  | cons round rounds ih =>
    obtain ⟨state, store₁, plain₁, hcall, h₁⟩ := trainRound_holds hexact h hshape
      (hfits round List.mem_cons_self)
    obtain ⟨opt', store', plain', hloop, hhyper, hcount, h'⟩ := ih h₁
      (fun p => (Slot.shape_round (slots p)).trans (hshape p))
      fun r hr => hfits r (List.mem_cons_of_mem _ hr)
    refine ⟨opt', store', plain', ?_, hhyper, ?_, h'⟩
    · unfold AdamW.train at hloop ⊢
      rw [List.foldlM_cons, hcall]
      exact hloop
    · rw [hcount, List.length_cons]
      dsimp only
      omega

/-! ## Both paths -/

/-- A store before training: the parameters are there, and have no gradients. -/
structure Ready (backend : Backend F H) (params : List TensorId) (store : TensorStore F H) :
    Prop where
  wellFormed : store.WellFormed
  resident : ∀ id t, store.get id = some t → t.Resident backend
  param : ∀ p ∈ params, ∃ t, store.get p = some t ∧ t.grad = none

def shapeOf (store : TensorStore F H) (p : TensorId) : List Nat :=
  ((store.get p).map Tensor.shape).getD []

/-- The slot of a parameter before training. -/
def startSlot (plain : PlainStore F) (p : TensorId) : Slot F :=
  ((plain.get p).map fun u => ⟨u.value, u.shape, u.requiresGrad, none, none⟩).getD
    ⟨[], [], false, none, none⟩

theorem Ready.holds (h : Ready backend.toBackend params store) (hstate : ∀ p, opt.state p = none) :
    Holds backend params opt store (store.map (Tensor.plain backend.toBackend))
      (startSlot (store.map (Tensor.plain backend.toBackend))) := by
  have hmodels : Models backend.toBackend store (store.map (Tensor.plain backend.toBackend)) :=
    ⟨h.wellFormed, h.resident, rfl⟩
  have hget : ∀ p ∈ params, ∃ u,
      (store.map (Tensor.plain backend.toBackend)).get p = some u ∧ u.grad = none := by
    intro p hp
    obtain ⟨t, ht, hgrad⟩ := h.param p hp
    exact ⟨t.plain backend.toBackend, by rw [hmodels.get_eq, ht]; rfl, hgrad⟩
  have hslot : ∀ {p u}, (store.map (Tensor.plain backend.toBackend)).get p = some u →
      startSlot (store.map (Tensor.plain backend.toBackend)) p =
        ⟨u.value, u.shape, u.requiresGrad, none, none⟩ := by
    intro p u hu
    rw [startSlot, hu]
    rfl
  refine ⟨hmodels, ⟨?_, ?_⟩, fun p hp => ?_, fun p hp => ?_, fun p hp => ?_, fun p _ m hm => ?_⟩
  · intro p hp q _ u w g hu _ hug
    obtain ⟨u', hu', hgrad⟩ := hget p hp
    rw [hu] at hu'
    cases hu'
    cases hgrad.symm.trans hug
  · intro p hp u g hu hug
    obtain ⟨u', hu', hgrad⟩ := hget p hp
    rw [hu] at hu'
    cases hu'
    cases hgrad.symm.trans hug
  · obtain ⟨u, hu, hgrad⟩ := hget p hp
    rw [hslot hu]
    refine ⟨u, hu, rfl, rfl, rfl, fun _ => rfl, fun g hg => ?_⟩
    cases hgrad.symm.trans hg
  · obtain ⟨u, hu, -⟩ := hget p hp
    rw [hslot hu]
    exact ⟨hmodels.value_length hu, nofun, nofun⟩
  · obtain ⟨u, hu, -⟩ := hget p hp
    rw [hslot hu, AdamW.momentsHost, hstate]
    rfl
  · cases (hstate p).symm.trans hm

/-- What is kept of a parameter is the content of its slot. -/
theorem Holds.kept_eq (h : Holds backend params opt store plain slots) {p : TensorId}
    (hp : p ∈ params) : AdamW.kept backend (opt, store) p = some (slots p).content := by
  obtain ⟨t, u, ht, -, rfl, -, hvalue, hshape, -⟩ := h.get_param hp
  unfold AdamW.kept Slot.content Slot.momentsOrZero Slot.zeros
  rw [ht, Option.map_some, h.moments p hp, ← hshape, ← hvalue]
  rfl

omit [Field F] [LinearOrder F] in
theorem shape_startSlot (backend : Backend F H) (store : TensorStore F H) (p : TensorId) :
    (startSlot (store.map (Tensor.plain backend)) p).shape = shapeOf store p := by
  have hget : (store.map (Tensor.plain backend)).get p = (store.get p).map (Tensor.plain backend) :=
    Slab.get_map _ store p
  unfold startSlot shapeOf
  rw [hget]
  cases store.get p <;> rfl

/-- A run from the start, seen on the slot of a parameter. -/
theorem train_kept (hexact : backend.Exact sqrt) (hready : Ready backend.toBackend params store)
    (hstate : ∀ p, opt.state p = none) (hcount : opt.stepCount = 0) {rounds : List (Round F H)}
    (hfits : ∀ round ∈ rounds, round.Fits backend.toBackend params (shapeOf store)) :
    ∃ b, AdamW.train sqrt backend params (opt, store) rounds = .ok b ∧
      b.1.hyper = opt.hyper ∧ b.1.stepCount = rounds.length ∧
      ∀ p ∈ params, ∃ t, b.2.get p = some t ∧
        t.requiresGrad = ((startSlot (store.map (Tensor.plain backend.toBackend)) p).rounds sqrt
          opt.deviceBacked opt.hyper (params.count p) p 0
          (rounds.map (Round.plain backend.toBackend))).requiresGrad ∧
        AdamW.kept backend b p = some ((startSlot (store.map (Tensor.plain backend.toBackend))
          p).rounds sqrt opt.deviceBacked opt.hyper (params.count p) p 0
            (rounds.map (Round.plain backend.toBackend))).content := by
  obtain ⟨opt', store', plain', hrun, hhyper, hsteps, hholds⟩ := train_holds hexact
    (hready.holds hstate) (shape_startSlot backend.toBackend store) hfits
  rw [hcount] at hsteps hholds
  refine ⟨(opt', store'), hrun, hhyper, hsteps.trans (Nat.zero_add _), fun p hp => ?_⟩
  obtain ⟨t, u, ht, -, rfl, -, -, -, hrequires, -⟩ := hholds.get_param hp
  exact ⟨t, ht, hrequires, hholds.kept_eq hp⟩

namespace AdamW

/-- In each round a parameter that has been given a gradient before is given one again, or a step
with a gradient of zeros leaves its value and its moments. -/
def Steady (sqrt : F → F) (backend : AdamWBackend F H) (params : List TensorId)
    (state : AdamW F H × TensorStore F H) (rounds : List (Round F H)) : Prop :=
  ∀ k r b, rounds[k]? = some r → train sqrt backend params state (rounds.take k) = .ok b →
    ∀ p ∈ params, ∀ t x, b.2.get p = some t → t.requiresGrad = true →
      kept backend b p = some x →
      (∃ r' ∈ rounds.take k, (r'.plain backend.toBackend).Gives p) →
      ¬ (r.plain backend.toBackend).Gives p →
      (Slot.idle sqrt (b.1.hyper.args r.lr (b.1.stepCount + 1)))^[params.count p] x = x

end AdamW

end Runs

section TwoPaths

variable {F H₁ H₂ : Type} [Field F] [LinearOrder F] {sqrt : F → F} {host : AdamWBackend F H₁}
  {device : AdamWBackend F H₂} {params : List TensorId} {hostStore : TensorStore F H₁}
  {deviceStore : TensorStore F H₂} {hostRounds : List (Round F H₁)}
  {deviceRounds : List (Round F H₂)}

/-- Training on the host and on the device keeps the same values and moments after every round
just when the rounds are steady. -/
theorem train_agrees_iff (hhost : host.Exact sqrt) (hdevice : device.Exact sqrt)
    (lr beta1 beta2 eps wd : F) (hostReady : Ready host.toBackend params hostStore)
    (deviceReady : Ready device.toBackend params deviceStore)
    (hsame : ∀ p ∈ params, (hostStore.get p).map (Tensor.plain host.toBackend) =
      (deviceStore.get p).map (Tensor.plain device.toBackend))
    (hrounds : hostRounds.map (Round.plain host.toBackend) =
      deviceRounds.map (Round.plain device.toBackend))
    (hostFits : ∀ r ∈ hostRounds, r.Fits host.toBackend params (shapeOf hostStore))
    (deviceFits : ∀ r ∈ deviceRounds, r.Fits device.toBackend params (shapeOf deviceStore)) :
    (∀ k ≤ deviceRounds.length, ∃ a b,
      AdamW.train sqrt host params (AdamW.new lr beta1 beta2 eps wd, hostStore)
          (hostRounds.take k) = .ok a ∧
        AdamW.train sqrt device params (AdamW.newWithDevice lr beta1 beta2 eps wd, deviceStore)
          (deviceRounds.take k) = .ok b ∧
        ∀ p ∈ params, AdamW.kept host a p = AdamW.kept device b p) ↔
    AdamW.Steady sqrt device params (AdamW.newWithDevice lr beta1 beta2 eps wd, deviceStore)
      deviceRounds := by
  obtain ⟨hyper, hhyper⟩ : ∃ hyper : Hyper F, hyper = ⟨beta1, beta2, eps, wd⟩ := ⟨_, rfl⟩
  obtain ⟨rs, hrs⟩ : ∃ rs, rs = deviceRounds.map (Round.plain device.toBackend) := ⟨_, rfl⟩
  have hlen : rs.length = deviceRounds.length := hrs ▸ List.length_map _
  -- both paths start from one slot
  obtain ⟨slots, hslots⟩ : ∃ slots : TensorId → Slot F,
      slots = startSlot (deviceStore.map (Tensor.plain device.toBackend)) := ⟨_, rfl⟩
  have hstart : ∀ p ∈ params,
      startSlot (hostStore.map (Tensor.plain host.toBackend)) p = slots p := by
    intro p hp
    have hget : (hostStore.map (Tensor.plain host.toBackend)).get p =
        (deviceStore.map (Tensor.plain device.toBackend)).get p := by
      rw [Slab.get_map, Slab.get_map, hsame p hp]
    rw [hslots, startSlot, startSlot, hget]
  have hhostRuns : ∀ k, ∃ a, AdamW.train sqrt host params
      (AdamW.new lr beta1 beta2 eps wd, hostStore) (hostRounds.take k) = .ok a ∧
        ∀ p ∈ params, AdamW.kept host a p = some ((slots p).rounds sqrt false hyper
          (params.count p) p 0 (rs.take k)).content := by
    intro k
    have hnew : ∀ p, (AdamW.new lr beta1 beta2 eps wd : AdamW F H₁).state p = none := fun _ => rfl
    obtain ⟨a, hrun, -, -, hkept⟩ := train_kept hhost hostReady hnew rfl fun r hr =>
      hostFits r (List.mem_of_mem_take hr)
    refine ⟨a, hrun, fun p hp => ?_⟩
    obtain ⟨t, -, -, hcontent⟩ := hkept p hp
    rw [List.map_take, hrounds, ← hrs, hstart p hp] at hcontent
    rw [hcontent, hhyper]
    rfl
  have hnew : ∀ p, (AdamW.newWithDevice lr beta1 beta2 eps wd : AdamW F H₂).state p = none :=
    fun _ => rfl
  have hdeviceRuns : ∀ k, ∃ b, AdamW.train sqrt device params
      (AdamW.newWithDevice lr beta1 beta2 eps wd, deviceStore) (deviceRounds.take k) = .ok b ∧
        b.1.hyper = hyper ∧ (k ≤ rs.length → b.1.stepCount = k) ∧
        ∀ p ∈ params, ∃ t, b.2.get p = some t ∧
          t.requiresGrad = ((slots p).rounds sqrt true hyper (params.count p) p 0
            (rs.take k)).requiresGrad ∧
          AdamW.kept device b p = some ((slots p).rounds sqrt true hyper (params.count p) p 0
            (rs.take k)).content := by
    intro k
    obtain ⟨b, hrun, hb, hsteps, hkept⟩ := train_kept hdevice deviceReady hnew rfl fun r hr =>
      deviceFits r (List.mem_of_mem_take hr)
    rw [List.map_take, ← hrs, ← hslots] at hkept
    refine ⟨b, hrun, hb.trans hhyper.symm, fun hk => ?_, fun p hp => ?_⟩
    · rw [hsteps, List.length_take_of_le (hlen ▸ hk)]
    · rw [hhyper]
      exact hkept p hp
  have hsized : ∀ p ∈ params, (slots p).grad = none ∧ (slots p).Sized ∧
      ∀ r ∈ rs, ∀ g ∈ r.gradsOf p, g.length = shapeSize (slots p).shape := by
    intro p hp
    have hholds := deviceReady.holds hnew
    rw [← hslots] at hholds
    refine ⟨?_, hholds.sized p hp, fun r hr g hg => ?_⟩
    · rw [hslots, startSlot]
      cases (deviceStore.map (Tensor.plain device.toBackend)).get p <;> rfl
    · rw [hrs] at hr
      obtain ⟨round, hround, rfl⟩ := List.mem_map.mp hr
      obtain ⟨grad, hgrad, heq⟩ := List.mem_map.mp (PlainRound.mem_of_mem_gradsOf hg)
      obtain ⟨-, hres, hshape⟩ := deviceFits round hround grad hgrad
      obtain ⟨hq, hcontent⟩ := Prod.mk.inj heq
      rw [← hcontent, hres.length, hshape, hq, hslots, shape_startSlot]
  have hiff : ∀ p ∈ params,
      (∀ k ≤ rs.length, ((slots p).rounds sqrt false hyper (params.count p) p 0
          (rs.take k)).content =
        ((slots p).rounds sqrt true hyper (params.count p) p 0 (rs.take k)).content) ↔
      ∀ k < rs.length, Slot.IdleAt sqrt hyper (params.count p) p rs
        ((slots p).rounds sqrt true hyper (params.count p) p 0 (rs.take k)) k := by
    intro p hp
    obtain ⟨hgrad, hsize, hgrads⟩ := hsized p hp
    obtain ⟨n, hn⟩ := Nat.exists_eq_add_one_of_ne_zero (List.count_pos_iff.mpr hp).ne'
    rw [hn]
    exact Slot.rounds_agree_iff hgrad hsize hgrads
  have hgives : ∀ k p, (∃ r ∈ deviceRounds.take k, (r.plain device.toBackend).Gives p) ↔
      ∃ r ∈ rs.take k, r.Gives p := by
    intro k p
    simp only [hrs, ← List.map_take, List.mem_map, exists_exists_and_eq_and]
  constructor
  · intro hagree k r b hr hrun p hp t x ht hrequires hx hbefore hnot
    have hk : k < rs.length := hlen.symm ▸ (List.getElem?_eq_some_iff.mp hr).1
    have hr' : rs[k]? = some (r.plain device.toBackend) := by
      rw [hrs, List.getElem?_map, hr, Option.map_some]
    obtain ⟨b', hrun', hb, hsteps, hkept⟩ := hdeviceRuns k
    cases hrun.symm.trans hrun'
    obtain ⟨t', ht', hreq, hcontent⟩ := hkept p hp
    cases ht.symm.trans ht'
    cases hx.symm.trans hcontent
    rw [hb, hsteps hk.le]
    refine (hiff p hp).mp (fun j hj => ?_) k hk _ hr' (hreq ▸ hrequires)
      ((hgives k p).mp hbefore) hnot
    obtain ⟨a, b, hrunA, hrunB, heq⟩ := hagree j (hlen ▸ hj)
    obtain ⟨a', hrunA', hkeptA⟩ := hhostRuns j
    obtain ⟨b', hrunB', -, -, hkeptB⟩ := hdeviceRuns j
    cases hrunA.symm.trans hrunA'
    cases hrunB.symm.trans hrunB'
    obtain ⟨-, -, -, hcontentB⟩ := hkeptB p hp
    exact Option.some.inj ((hkeptA p hp).symm.trans ((heq p hp).trans hcontentB))
  · intro hsteady k hk
    obtain ⟨a, hrunA, hkeptA⟩ := hhostRuns k
    obtain ⟨b, hrunB, -, -, hkeptB⟩ := hdeviceRuns k
    refine ⟨a, b, hrunA, hrunB, fun p hp => ?_⟩
    obtain ⟨-, -, -, hcontentB⟩ := hkeptB p hp
    rw [hkeptA p hp, hcontentB]
    refine congrArg some ((hiff p hp).mpr (fun j hj r hr hrequires hbefore hnot => ?_) k
      (hlen.symm ▸ hk))
    obtain ⟨b', hrun', hb, hsteps, hkept⟩ := hdeviceRuns j
    obtain ⟨t, ht, hreq, hcontent⟩ := hkept p hp
    rw [hrs, List.getElem?_map] at hr
    obtain ⟨round, hround, rfl⟩ := Option.map_eq_some_iff.mp hr
    have hidle := hsteady j round b' hround hrun' p hp t _ ht (hreq.trans hrequires) hcontent
      ((hgives j p).mpr hbefore) hnot
    rwa [hb, hsteps hj.le] at hidle

/-- Buffers on this device are lists. -/
def listBackend : AdamWBackend ℚ (List ℚ) where
  upload data _ := data
  readback := id
  addIntoDevice dest src _ := .ok (addAssign dest src)
  prefersPreBackwardFlush := false
  zeros shape := List.replicate (shapeSize shape) 0
  adamwStep param m v grad _ args := .ok (adamwUpdate id args param grad m v)
  adamwStepDevice param m v grad _ args := .ok (adamwUpdate id args param grad m v)

theorem listBackend_exact : listBackend.Exact id where
  exact := ⟨fun _ _ _ => rfl, fun _ _ _ _ _ => ⟨_, rfl, rfl⟩⟩
  zeros _ := rfl
  adamwStep _ _ _ _ _ _ _ _ _ _ := ⟨_, _, _, rfl, rfl⟩
  adamwStepDevice _ _ _ _ _ _ _ _ _ _ := ⟨_, _, _, rfl, rfl⟩

/-- One number that is trained. -/
def oneWeight : TensorStore ℚ (List ℚ) := ⟨[some ⟨[1], [1], 1, true, none, none, .host⟩], []⟩

def oneGrad : Tensor ℚ (List ℚ) := ⟨[1], [1], 1, false, none, none, .host⟩

/-- A gradient in the first round only. -/
def gapRounds : List (Round ℚ (List ℚ)) := [⟨1, [(0, oneGrad)]⟩, ⟨1, []⟩]

theorem resident_list {data : List ℚ} {requiresGrad : Bool} (h : data.length = 1) :
    (⟨data, [1], 1, requiresGrad, none, none, .host⟩ :
      Tensor ℚ (List ℚ)).Resident listBackend.toBackend :=
  Tensor.Resident.of_host h

theorem oneWeight_ready : Ready listBackend.toBackend [0] oneWeight where
  wellFormed := ⟨List.nodup_nil, (fun _ h => by cases h)⟩
  resident id t ht := by
    cases id with
    | zero =>
      cases ht
      exact resident_list rfl
    | succ id => cases ht
  param p hp := by
    obtain rfl := List.mem_singleton.mp hp
    exact ⟨_, rfl, rfl⟩

/-- A gradient in every round. -/
def steadyRounds : List (Round ℚ (List ℚ)) := [⟨1, [(0, oneGrad)]⟩, ⟨1 / 2, [(0, oneGrad)]⟩]

theorem mem_steadyRounds {r : Round ℚ (List ℚ)} (hr : r ∈ steadyRounds) :
    r.grads = [(0, oneGrad)] := by
  rcases List.mem_cons.mp hr with rfl | hr
  · rfl
  · rw [List.mem_singleton.mp hr]

theorem steadyRounds_fit : ∀ r ∈ steadyRounds,
    r.Fits listBackend.toBackend [0] (shapeOf oneWeight) := by
  intro r hr grad hgrad
  rw [mem_steadyRounds hr] at hgrad
  obtain rfl := List.mem_singleton.mp hgrad
  exact ⟨List.mem_singleton.mpr rfl, resident_list rfl, rfl⟩

/-- With a gradient in every round the two paths agree. -/
theorem train_agrees_iff_steady : ∃ a b,
    AdamW.train id listBackend [0] (AdamW.new 1 (1 / 2) (1 / 2) 1 0, oneWeight) steadyRounds =
        .ok a ∧
      AdamW.train id listBackend [0] (AdamW.newWithDevice 1 (1 / 2) (1 / 2) 1 0, oneWeight)
        steadyRounds = .ok b ∧
      AdamW.kept listBackend a 0 = AdamW.kept listBackend b 0 := by
  have hagree := (train_agrees_iff listBackend_exact listBackend_exact 1 (1 / 2) (1 / 2) 1 0
    oneWeight_ready oneWeight_ready (fun _ _ => rfl) rfl steadyRounds_fit steadyRounds_fit).mpr
    fun k r b hr _ p hp _ _ _ _ _ _ hnot => by
      obtain rfl := List.mem_singleton.mp hp
      refine absurd ?_ hnot
      unfold PlainRound.Gives Round.plain
      rw [mem_steadyRounds (List.mem_of_getElem? hr)]
      exact ⟨_, .head _⟩
  obtain ⟨a, b, ha, hb, hkept⟩ := hagree steadyRounds.length (Nat.le_refl _)
  exact ⟨a, b, ha, hb, hkept 0 (List.mem_singleton.mpr rfl)⟩

/-- On the host the second step moves the parameter, on the device it does not. -/
theorem train_diverges : ∃ a b,
    AdamW.train id listBackend [0] (AdamW.new 1 (1 / 2) (1 / 2) 1 0, oneWeight) gapRounds =
        .ok a ∧
      AdamW.train id listBackend [0] (AdamW.newWithDevice 1 (1 / 2) (1 / 2) 1 0, oneWeight)
        gapRounds = .ok b ∧
      AdamW.kept listBackend a 0 ≠ AdamW.kept listBackend b 0 :=
  ⟨_, _, rfl, rfl, by decide +kernel⟩

end TwoPaths

end Arle.Autograd
