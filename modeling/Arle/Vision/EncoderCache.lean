import Arle.Lib.Assoc
import Arle.Lib.Lru
import Arle.Lib.MinBy
import Arle.Lib.Run
import Arle.Lib.Word

/-!
# The cache of encoder outputs

`EncoderCache` of `infer/src/vision/encoder_cache.rs`. The byte counts and the clock are `u64`,
here natural numbers with the arithmetic written out. The cache runs as a least recently used list
of entries bounded by the capacity, as long as the saturating addition of `insert` has no effect
(`run_agrees`); where it has one, bytes are forgotten.
-/

namespace Arle.Vision

/-- A content hash of 128 bits. -/
structure MmHash where
  bytes : Vector UInt8 16
deriving DecidableEq, Repr

inductive EncoderCacheError
  | entryExceedsCapacity (entryBytes capacityBytes : Nat)
deriving DecidableEq, Repr

structure Entry (T : Type) where
  value : T
  byteLen : Nat
  lastAccess : Nat

/-- An entry without its stamp. -/
structure Cached (T : Type) where
  value : T
  byteLen : Nat

def Entry.cached {T : Type} (e : Entry T) : Cached T := ⟨e.value, e.byteLen⟩

structure EncoderCache (T : Type) where
  entries : Assoc MmHash (Entry T)
  capacityBytes : Nat
  usedBytes : Nat
  clock : Nat

namespace EncoderCache

variable {T : Type}

def new (capacityBytes : Nat) : EncoderCache T := ⟨∅, capacityBytes, 0, 0⟩

def get (c : EncoderCache T) (key : MmHash) : Option T × EncoderCache T :=
  let c := { c with clock := Word.wrappingAdd 64 c.clock 1 }
  match c.entries.lookup key with
  | none => (none, c)
  | some entry =>
    (some entry.value, { c with entries := c.entries.insert key { entry with lastAccess := c.clock } })

def remove (c : EncoderCache T) (key : MmHash) : Option T × EncoderCache T :=
  match c.entries.lookup key with
  | none => (none, c)
  | some entry =>
    (some entry.value,
      { c with entries := c.entries.erase key, usedBytes := c.usedBytes - entry.byteLen })

def clear (c : EncoderCache T) : EncoderCache T := { c with entries := ∅, usedBytes := 0 }

/-- The entry that was not used for the longest time. -/
def victim (c : EncoderCache T) : Option MmHash :=
  (minBy (fun a b => compare a.2.lastAccess b.2.lastAccess) c.entries.entries).map Sigma.fst

/-- The loop of `evict_until_within_capacity`; each round removes an entry or is the last one. -/
def evictLoop : Nat → EncoderCache T → EncoderCache T
  | 0, c => c
  | n + 1, c =>
    if c.capacityBytes < c.usedBytes then
      match c.victim with
      | none => c
      | some key => evictLoop n (c.remove key).2
    else c

def evictUntilWithinCapacity (c : EncoderCache T) : EncoderCache T :=
  evictLoop c.entries.entries.length c

def insert (c : EncoderCache T) (key : MmHash) (value : T) (byteLen : Nat) :
    Except EncoderCacheError (Option T) × EncoderCache T :=
  if c.capacityBytes < byteLen then
    (.error (.entryExceedsCapacity byteLen c.capacityBytes), c)
  else
    let clock := Word.wrappingAdd 64 c.clock 1
    let old := c.entries.lookup key
    let c := { c with clock, entries := c.entries.insert key ⟨value, byteLen, clock⟩ }
    let c := match old with
      | none => c
      | some entry => { c with usedBytes := c.usedBytes - entry.byteLen }
    let c := { c with usedBytes := Word.saturatingAdd 64 c.usedBytes byteLen }
    (.ok (old.map Entry.value), c.evictUntilWithinCapacity)

/-! ## Runs -/

/-- The state after an operation. -/
def apply (c : EncoderCache T) : Lru.Op MmHash (Cached T) → EncoderCache T
  | .insert key a => (c.insert key a.value a.byteLen).2
  | .get key => (c.get key).2
  | .remove key => (c.remove key).2
  | .clear => c.clear

def Step (c : EncoderCache T) (op : Lru.Op MmHash (Cached T)) (c' : EncoderCache T) : Prop :=
  c' = c.apply op

/-- The access clock does not wrap. -/
def ClockRuns (c : EncoderCache T) : Lru.Op MmHash (Cached T) → Prop
  | .insert _ _ | .get _ => c.clock + 1 < 2 ^ 64
  | _ => True

instance (c : EncoderCache T) : (op : Lru.Op MmHash (Cached T)) → Decidable (c.ClockRuns op)
  | .insert _ _ | .get _ => inferInstanceAs (Decidable (c.clock + 1 < 2 ^ 64))
  | .remove _ | .clear => inferInstanceAs (Decidable True)

/-- The bytes of the entry that an insertion replaces. -/
def oldBytes (c : EncoderCache T) (key : MmHash) : Nat :=
  ((c.entries.lookup key).map Entry.byteLen).getD 0

/-- The bytes of the new entry and of all others fit a `u64`. -/
def BytesFit (c : EncoderCache T) : Lru.Op MmHash (Cached T) → Prop
  | .insert key a =>
    a.byteLen ≤ c.capacityBytes → c.usedBytes - c.oldBytes key + a.byteLen ≤ Word.maxVal 64
  | _ => True

/-! ## The cache runs as a list -/

/-- The entries without their stamps. -/
def forget (l : Lru.Items MmHash (Entry T)) : Lru.Items MmHash (Cached T) :=
  l.map fun e => ⟨e.1, e.2.cached⟩

/-- `stamped` lists the entries, the last access first. -/
structure Models (c : EncoderCache T) (stamped : Lru.Items MmHash (Entry T)) : Prop where
  perm : c.entries.entries.Perm stamped
  recent : stamped.Pairwise fun a b => b.2.lastAccess < a.2.lastAccess
  stamps : ∀ e ∈ stamped, e.2.lastAccess ≤ c.clock
  used : c.usedBytes = Lru.total Entry.byteLen stamped

section Models

variable {c : EncoderCache T} {stamped : Lru.Items MmHash (Entry T)} {key : MmHash} {entry : Entry T}

theorem forget_kerase (stamped : Lru.Items MmHash (Entry T)) (key : MmHash) :
    forget (stamped.kerase key) = (forget stamped).kerase key := by
  unfold forget List.kerase
  rw [List.eraseP_map]
  rfl

theorem dlookup_forget (stamped : Lru.Items MmHash (Entry T)) (key : MmHash) :
    (forget stamped).dlookup key = (stamped.dlookup key).map Entry.cached :=
  List.dlookup_map₂ (f := fun _ => Entry.cached) key

theorem total_forget (stamped : Lru.Items MmHash (Entry T)) :
    Lru.total Cached.byteLen (forget stamped) = Lru.total Entry.byteLen stamped := by
  unfold Lru.total forget
  rw [List.map_map]
  rfl

theorem forget_fit (capacity : Nat) (stamped : Lru.Items MmHash (Entry T)) :
    forget (Lru.fit Entry.byteLen capacity stamped) =
      Lru.fit Cached.byteLen capacity (forget stamped) :=
  Lru.fit_map fun _ => rfl

theorem Models.nodupKeys (h : c.Models stamped) : stamped.NodupKeys :=
  (List.perm_nodupKeys h.perm).mp c.entries.nodupKeys

theorem Models.lookup (h : c.Models stamped) (key : MmHash) :
    c.entries.lookup key = stamped.dlookup key :=
  List.perm_dlookup key c.entries.nodupKeys h.perm

theorem Models.total_kerase (h : c.Models stamped) (hlookup : c.entries.lookup key = some entry) :
    Lru.total Entry.byteLen stamped =
      entry.byteLen + Lru.total Entry.byteLen (stamped.kerase key) := by
  rw [h.lookup] at hlookup
  exact Lru.total_kerase h.nodupKeys hlookup

/-- An entry with a new stamp comes first. -/
theorem Models.put (h : c.Models stamped) (key : MmHash) (value : T)
    {byteLen clock usedBytes : Nat}
    (hclock : c.clock < clock)
    (hused : usedBytes = byteLen + Lru.total Entry.byteLen (stamped.kerase key)) :
    Models { c with
      entries := c.entries.insert key ⟨value, byteLen, clock⟩
      clock
      usedBytes } (⟨key, ⟨value, byteLen, clock⟩⟩ :: stamped.kerase key) where
  perm := (h.perm.kerase c.entries.nodupKeys).cons _
  recent := by
    refine List.pairwise_cons.mpr ⟨fun e he => ?_, h.recent.sublist (List.kerase_sublist key _)⟩
    exact (h.stamps e ((List.kerase_sublist key stamped).mem he)).trans_lt hclock
  stamps := by
    intro e he
    obtain rfl | he := List.mem_cons.mp he
    · exact Nat.le_refl _
    · exact (h.stamps e ((List.kerase_sublist key stamped).mem he)).trans hclock.le
  used := by rw [Lru.total_cons, hused]

theorem Models.remove (h : c.Models stamped) (key : MmHash) :
    (c.remove key).2.Models (stamped.kerase key) := by
  unfold EncoderCache.remove
  cases hlookup : c.entries.lookup key with
  | none =>
    rw [List.kerase_of_notMem_keys (List.dlookup_eq_none.mp (h.lookup key ▸ hlookup))]
    exact h
  | some entry =>
    refine ⟨h.perm.kerase c.entries.nodupKeys, h.recent.sublist (List.kerase_sublist key _),
      fun e he => h.stamps e ((List.kerase_sublist key stamped).mem he), ?_⟩
    change c.usedBytes - entry.byteLen = _
    rw [h.used, h.total_kerase hlookup, Nat.add_sub_cancel_left]

/-- The victim is the last entry. -/
theorem Models.victim {last : Sigma fun _ : MmHash => Entry T} (h : c.Models (stamped ++ [last])) :
    c.victim = some last.1 := by
  have hlast : last ∈ c.entries.entries := h.perm.mem_iff.mpr (by simp)
  obtain ⟨least, hleast⟩ : ∃ least, minBy (fun a b : Sigma fun _ : MmHash => Entry T =>
      compare a.2.lastAccess b.2.lastAccess) c.entries.entries = some least :=
    minBy_ne_none _ (List.ne_nil_of_mem hlast)
  have hle := minBy_le (fun e : Sigma fun _ : MmHash => Entry T => e.2.lastAccess)
    (fun _ _ => rfl) hleast hlast
  have hmem := h.perm.mem_iff.mp (minBy_mem hleast)
  have heq : least = last := by
    rcases List.mem_append.mp hmem with hmem | hmem
    · have hlt := (List.pairwise_append.mp h.recent).2.2 least hmem last List.mem_cons_self
      exact absurd hlt (Nat.not_lt.mpr hle)
    · exact List.mem_singleton.mp hmem
  rw [EncoderCache.victim, hleast, heq]
  rfl

theorem kerase_concat {last : Sigma fun _ : MmHash => Entry T}
    (h : (stamped ++ [last]).NodupKeys) : (stamped ++ [last]).kerase last.1 = stamped := by
  have hnot : last.1 ∉ stamped.keys := by
    intro hin
    have hkeys : (stamped.keys ++ [last.1]).Nodup := by
      simpa only [List.NodupKeys, List.keys, List.map_append, List.map_singleton] using h
    exact (List.nodup_append.mp hkeys).2.2 _ hin _ List.mem_cons_self rfl
  rw [List.kerase_append_right hnot, List.kerase_cons_eq rfl, List.append_nil]

/-- The loop keeps the longest front that fits. -/
theorem Models.evictLoop (h : c.Models stamped) :
    (evictLoop stamped.length c).Models (Lru.fit Entry.byteLen c.capacityBytes stamped) ∧
      (evictLoop stamped.length c).capacityBytes = c.capacityBytes := by
  induction stamped using List.reverseRecOn generalizing c with
  | nil => exact ⟨h, rfl⟩
  | append_singleton stamped last ih =>
    rw [List.length_append, List.length_singleton, EncoderCache.evictLoop, h.used]
    by_cases hover : c.capacityBytes < Lru.total Entry.byteLen (stamped ++ [last])
    · rw [if_pos hover, h.victim, Lru.fit_concat hover]
      have hrest := h.remove last.1
      rw [kerase_concat h.nodupKeys] at hrest
      have hcapacity : (c.remove last.1).2.capacityBytes = c.capacityBytes := by
        unfold EncoderCache.remove
        split <;> rfl
      rw [← hcapacity]
      exact ih hrest
    · rw [if_neg hover, Lru.fit_of_total_le (Nat.not_lt.mp hover)]
      exact ⟨h, rfl⟩

/-- The new entry is put before the loop. -/
theorem insert_eq (c : EncoderCache T) (key : MmHash) (value : T) {byteLen : Nat}
    (hlen : byteLen ≤ c.capacityBytes) : (c.insert key value byteLen).2 =
      evictUntilWithinCapacity { c with
        entries := c.entries.insert key ⟨value, byteLen, Word.wrappingAdd 64 c.clock 1⟩
        clock := Word.wrappingAdd 64 c.clock 1
        usedBytes := Word.saturatingAdd 64 (c.usedBytes - c.oldBytes key) byteLen } := by
  unfold EncoderCache.insert oldBytes
  rw [if_neg (Nat.not_lt.mpr hlen)]
  cases c.entries.lookup key <;> rfl

theorem Models.insert (h : c.Models stamped) {value : T} {byteLen : Nat}
    (hlen : byteLen ≤ c.capacityBytes) (hclock : c.ClockRuns (.insert key ⟨value, byteLen⟩))
    (hbytes : c.BytesFit (.insert key ⟨value, byteLen⟩)) :
    ∃ stamped', (c.insert key value byteLen).2.Models stamped' ∧
      (c.insert key value byteLen).2.capacityBytes = c.capacityBytes ∧
      forget stamped' = Lru.fit Cached.byteLen c.capacityBytes
        (⟨key, ⟨value, byteLen⟩⟩ :: (forget stamped).kerase key) := by
  have hold : c.usedBytes - c.oldBytes key =
      Lru.total Entry.byteLen (stamped.kerase key) := by
    rw [oldBytes, h.used]
    cases hlookup : c.entries.lookup key with
    | none =>
      rw [List.kerase_of_notMem_keys (List.dlookup_eq_none.mp (h.lookup key ▸ hlookup))]
      rfl
    | some entry =>
      rw [h.total_kerase hlookup]
      exact Nat.add_sub_cancel_left ..
  have hused : Word.saturatingAdd 64 (c.usedBytes - c.oldBytes key) byteLen =
      byteLen + Lru.total Entry.byteLen (stamped.kerase key) := by
    rw [Word.saturatingAdd, Nat.min_eq_left (hbytes hlen), hold, Nat.add_comm]
  have hnew : c.clock < Word.wrappingAdd 64 c.clock 1 := by
    rw [Word.wrappingAdd_of_lt hclock]
    exact Nat.lt_succ_self _
  have hput := h.put key value hnew hused
  rw [insert_eq c key value hlen, evictUntilWithinCapacity, hput.perm.length_eq]
  obtain ⟨hmodels, hcapacity⟩ := hput.evictLoop
  refine ⟨_, hmodels, hcapacity, ?_⟩
  rw [forget_fit, ← forget_kerase]
  rfl

theorem Models.get (h : c.Models stamped) (hclock : c.ClockRuns (.get key)) :
    ∃ stamped', (c.get key).2.Models stamped' ∧
      (c.get key).2.capacityBytes = c.capacityBytes ∧
      forget stamped' =
        Lru.step Cached.byteLen c.capacityBytes (forget stamped) (.get key) := by
  have hnew : c.clock < Word.wrappingAdd 64 c.clock 1 := by
    rw [Word.wrappingAdd_of_lt hclock]
    exact Nat.lt_succ_self _
  unfold EncoderCache.get Lru.step
  dsimp only
  rw [dlookup_forget, ← h.lookup]
  cases hlookup : c.entries.lookup key with
  | none => exact ⟨stamped, ⟨h.perm, h.recent,
      fun e he => (h.stamps e he).trans hnew.le, h.used⟩, rfl, rfl⟩
  | some entry =>
    refine ⟨_, h.put key entry.value hnew (h.used.trans (h.total_kerase hlookup)), rfl, ?_⟩
    rw [← forget_kerase]
    rfl

/-- Every operation does what it does on the list. -/
theorem Models.apply (h : c.Models stamped) {op : Lru.Op MmHash (Cached T)}
    (hclock : c.ClockRuns op) (hbytes : c.BytesFit op) :
    ∃ stamped', (c.apply op).Models stamped' ∧ (c.apply op).capacityBytes = c.capacityBytes ∧
      forget stamped' = Lru.step Cached.byteLen c.capacityBytes (forget stamped) op := by
  cases op with
  | insert key a =>
    unfold EncoderCache.apply Lru.step
    dsimp only
    by_cases hlen : a.byteLen ≤ c.capacityBytes
    · rw [if_pos hlen]
      exact h.insert hlen hclock hbytes
    · rw [if_neg hlen, EncoderCache.insert, if_pos (Nat.not_le.mp hlen)]
      exact ⟨stamped, h, rfl, rfl⟩
  | get key => exact h.get hclock
  | remove key =>
    refine ⟨_, h.remove key, ?_, forget_kerase stamped key⟩
    unfold EncoderCache.apply EncoderCache.remove
    dsimp only
    split <;> rfl
  | clear => exact ⟨[], ⟨.nil, .nil, (fun _ h => by cases h), rfl⟩, rfl, rfl⟩

end Models

/-- The cache agrees with the list `l` and with the values inserted last. -/
structure Agrees (capacity : Nat) (values : MmHash → Option (Cached T))
    (l : Lru.Items MmHash (Cached T)) (c : EncoderCache T) : Prop where
  capacityBytes : c.capacityBytes = capacity
  kept : Lru.Kept Cached.byteLen capacity values l
  models : ∃ stamped, c.Models stamped ∧ forget stamped = l

theorem Agrees.apply {capacity : Nat} {values : MmHash → Option (Cached T)}
    {l : Lru.Items MmHash (Cached T)} {c : EncoderCache T} (h : Agrees capacity values l c)
    {op : Lru.Op MmHash (Cached T)} (hclock : c.ClockRuns op) (hbytes : c.BytesFit op) :
    Agrees capacity (Lru.latestStep Cached.byteLen capacity values op)
      (Lru.step Cached.byteLen capacity l op) (c.apply op) := by
  obtain ⟨rfl, hkept, stamped, hmodels, rfl⟩ := h
  obtain ⟨stamped', hmodels', hcapacity, hforget⟩ := hmodels.apply hclock hbytes
  exact ⟨hcapacity, hkept.step op, stamped', hmodels', hforget⟩

theorem Agrees.run {capacity : Nat} {values : MmHash → Option (Cached T)}
    {l : Lru.Items MmHash (Cached T)} {c c' : EncoderCache T} {ops : List (Lru.Op MmHash (Cached T))}
    (h : Agrees capacity values l c)
    (hrun : Run (guarded (fun c op => c.ClockRuns op ∧ c.BytesFit op) Step) c ops c') :
    Agrees capacity (ops.foldl (Lru.latestStep Cached.byteLen capacity) values)
      (ops.foldl (Lru.step Cached.byteLen capacity) l) c' := by
  induction hrun generalizing values l with
  | nil c => exact h
  | cons hstep _ ih =>
    obtain ⟨⟨hclock, hbytes⟩, rfl⟩ := hstep
    exact ih (h.apply hclock hbytes)

theorem agrees_new (capacity : Nat) :
    Agrees capacity (fun _ => none) [] (new capacity : EncoderCache T) :=
  ⟨rfl, ⟨List.nodupKeys_nil, Nat.zero_le _, fun _ h => by cases h⟩, [],
    ⟨.nil, .nil, (fun _ h => by cases h), rfl⟩, rfl⟩

section Lookup

variable {capacity : Nat} {values : MmHash → Option (Cached T)}
  {l : Lru.Items MmHash (Cached T)} {c : EncoderCache T}

theorem Agrees.lookup (h : Agrees capacity values l c) (key : MmHash) :
    (c.entries.lookup key).map Entry.cached = l.dlookup key := by
  obtain ⟨-, -, stamped, hmodels, rfl⟩ := h
  rw [dlookup_forget, hmodels.lookup]

theorem Agrees.usedBytes (h : Agrees capacity values l c) :
    c.usedBytes = ((Assoc.values c.entries).map Entry.byteLen).sum ∧ c.usedBytes ≤ capacity := by
  obtain ⟨-, hkept, stamped, hmodels, rfl⟩ := h
  constructor
  · rw [hmodels.used, ← Lru.total_perm hmodels.perm, Lru.total, Assoc.values, List.map_map]
    rfl
  · rw [hmodels.used, ← total_forget]
    exact hkept.fits

theorem get_fst (c : EncoderCache T) (key : MmHash) :
    (c.get key).1 = (c.entries.lookup key).map Entry.value := by
  unfold EncoderCache.get
  dsimp only
  cases c.entries.lookup key <;> rfl

theorem Agrees.latest (h : Agrees capacity values l c) {key : MmHash}
    (hkey : (c.get key).1 ≠ none) : (c.get key).1 = (values key).map Cached.value := by
  rw [get_fst] at hkey ⊢
  cases hlookup : c.entries.lookup key with
  | none =>
    rw [hlookup] at hkey
    exact absurd rfl hkey
  | some entry =>
    have hl := (h.lookup key).symm
    rw [hlookup] at hl
    rw [h.kept.latest _ (List.of_mem_dlookup hl)]
    rfl

end Lookup

/-- In every run in which the clock does not wrap and the bytes fit a `u64`, the cache is the
least recently used list of the run: its bytes are counted exactly and are within the capacity, a
present key has the value inserted last, a refused insertion changes nothing, and one that is not
refused leaves the longest front of the most recently used entries that fits. -/
theorem run_agrees {capacity : Nat} {ops : List (Lru.Op MmHash (Cached T))} {c : EncoderCache T}
    (hrun : Run (guarded (fun c op => c.ClockRuns op ∧ c.BytesFit op) Step) (new capacity) ops c) :
    c.usedBytes = ((Assoc.values c.entries).map Entry.byteLen).sum ∧
    c.usedBytes ≤ c.capacityBytes ∧ c.capacityBytes = capacity ∧
    (∀ key, (c.entries.lookup key).map Entry.cached =
      (Lru.run Cached.byteLen capacity ops).dlookup key) ∧
    (∀ key, (c.get key).1 ≠ none ↔ key ∈ c.entries) ∧
    (∀ key ∈ c.entries, (c.get key).1 =
      (Lru.latest Cached.byteLen capacity ops key).map Cached.value) ∧
    (∀ key value byteLen error, (c.insert key value byteLen).1 = .error error →
      (c.insert key value byteLen).2 = c) ∧
    ∀ key value byteLen, byteLen ≤ capacity → c.ClockRuns (.insert key ⟨value, byteLen⟩) →
      c.BytesFit (.insert key ⟨value, byteLen⟩) →
      ∃ rest, Lru.LongestFit Cached.byteLen capacity
          (⟨key, ⟨value, byteLen⟩⟩ :: (Lru.run Cached.byteLen capacity ops).kerase key)
          (⟨key, ⟨value, byteLen⟩⟩ :: rest) ∧
        ∀ key', ((c.insert key value byteLen).2.entries.lookup key').map Entry.cached =
          List.dlookup key' (⟨key, ⟨value, byteLen⟩⟩ :: rest) := by
  have hagrees := (agrees_new capacity).run hrun
  have hpresent (key : MmHash) : (c.get key).1 ≠ none ↔ key ∈ c.entries := by
    rw [get_fst, ← AList.lookup_isSome, ne_eq, Option.map_eq_none_iff]
    exact Option.isSome_iff_ne_none.symm
  refine ⟨hagrees.usedBytes.1, hagrees.capacityBytes ▸ hagrees.usedBytes.2,
    hagrees.capacityBytes, hagrees.lookup, hpresent,
    fun key hkey => hagrees.latest ((hpresent key).mpr hkey), ?_, ?_⟩
  · intro key value byteLen error herror
    unfold EncoderCache.insert at herror ⊢
    split at herror
    · rw [if_pos ‹_›]
    · cases herror
  · intro key value byteLen hlen hclock hbytes
    have hinsert := hagrees.apply hclock hbytes
    have hfit := Lru.longestFit_fit Cached.byteLen capacity
      (⟨key, ⟨value, byteLen⟩⟩ :: (Lru.run Cached.byteLen capacity ops).kerase key)
    rw [Lru.fit, if_pos hlen] at hfit
    refine ⟨_, hfit, fun key' => ?_⟩
    refine (hinsert.lookup key').trans ?_
    rw [Lru.step, if_pos (show Cached.byteLen ⟨value, byteLen⟩ ≤ capacity from hlen), Lru.fit,
      if_pos (show Cached.byteLen ⟨value, byteLen⟩ ≤ capacity from hlen)]
    rfl

def keyOf (n : UInt8) : MmHash := ⟨Vector.replicate 16 n⟩

theorem run_agrees_two : (((new 32 : EncoderCache Nat).insert (keyOf 0) 5 24).2.insert
    (keyOf 1) 6 16).2.usedBytes = 16 := by
  have hrun : Run (guarded (fun c op => c.ClockRuns op ∧ c.BytesFit op) Step)
      (new 32 : EncoderCache Nat) [.insert (keyOf 0) ⟨5, 24⟩, .insert (keyOf 1) ⟨6, 16⟩]
      (((new 32 : EncoderCache Nat).insert (keyOf 0) 5 24).2.insert (keyOf 1) 6 16).2 :=
    .cons ⟨⟨by decide, fun _ => by decide⟩, rfl⟩
      (.cons ⟨⟨by decide, fun _ => by decide⟩, rfl⟩ (.nil _))
  have hused := (run_agrees hrun).1
  rw [hused]
  decide

/-- With the largest capacity the sum of the bytes overflows unseen. -/
theorem overflow_forgets : ¬∀ (capacity : Nat) (ops : List (Lru.Op MmHash (Cached Unit)))
    (c : EncoderCache Unit), capacity ≤ Word.maxVal 64 →
    (∀ key a, .insert key a ∈ ops → a.byteLen ≤ Word.maxVal 64) →
    Run (guarded ClockRuns Step) (new capacity) ops c →
    c.usedBytes = ((Assoc.values c.entries).map Entry.byteLen).sum ∧
      c.usedBytes ≤ c.capacityBytes := by
  intro h
  have hoverflow := h (Word.maxVal 64)
    [.insert (keyOf 0) ⟨(), Word.maxVal 64⟩, .insert (keyOf 1) ⟨(), 1⟩]
    (((new (Word.maxVal 64) : EncoderCache Unit).insert (keyOf 0) () (Word.maxVal 64)).2.insert
      (keyOf 1) () 1).2 (Nat.le_refl _) (by
      intro key a hmem
      simp only [List.mem_cons, List.not_mem_nil, or_false, Lru.Op.insert.injEq] at hmem
      obtain ⟨-, rfl⟩ | ⟨-, rfl⟩ := hmem
      · exact Nat.le_refl _
      · decide) (.cons ⟨by decide, rfl⟩ (.cons ⟨by decide, rfl⟩ (.nil _)))
  exact absurd hoverflow.1 (by decide)

end EncoderCache

end Arle.Vision
