import Mathlib
import Arle.Lib.LittleEndian

/-!
# Readers of byte strings

A reader takes what it needs from the front of the bytes that are left, or fails. `Reads r xs a`
says that `r` takes exactly `xs` and returns `a`, whatever follows; a format is read back by
composing such facts. `Takes r n` says that every successful run of `r` takes `n` bytes, which
is how a reader that is out of step with its format is told apart. `Local r n` says that a
successful run takes at most `n` bytes and does not depend on those behind them.
-/

/-- A reader: its state is the bytes that are left. -/
abbrev ByteReader (ε α : Type) := StateT (List UInt8) (Except ε) α

namespace ByteReader

variable {ε α β : Type}

/-- Take `n` bytes; fail with `eof` when there are fewer. -/
def readExact (eof : ε) (n : Nat) : ByteReader ε (List UInt8) := fun bytes =>
  if n ≤ bytes.length then .ok (bytes.take n, bytes.drop n) else .error eof

/-- Run a reader `n` times. -/
def times (r : ByteReader ε α) : Nat → ByteReader ε (List α)
  | 0 => pure []
  | n + 1 => do
    let a ← r
    let as ← times r n
    return a :: as

/-- `r` takes exactly `xs` and returns `a`. -/
def Reads (r : ByteReader ε α) (xs : List UInt8) (a : α) : Prop :=
  ∀ rest, r (xs ++ rest) = .ok (a, rest)

/-- A successful run of `r` takes `n` bytes. -/
def Takes (r : ByteReader ε α) (n : Nat) : Prop :=
  ∀ bytes a rest, r bytes = .ok (a, rest) → bytes.length = n + rest.length

/-- A successful run of `r` takes at most `n` bytes, and reads them whatever follows. -/
def Local (r : ByteReader ε α) (n : Nat) : Prop :=
  ∀ bytes a rest, r bytes = .ok (a, rest) →
    ∃ front, bytes = front ++ rest ∧ front.length ≤ n ∧ Reads r front a

/-! ## Rules for successful runs -/

theorem bind_eq_ok {r : ByteReader ε α} {f : α → ByteReader ε β} {bytes rest : List UInt8}
    {b : β} :
    (r >>= f) bytes = .ok (b, rest) ↔
      ∃ a bytes', r bytes = .ok (a, bytes') ∧ f a bytes' = .ok (b, rest) := by
  show (r bytes >>= fun p => f p.1 p.2) = _ ↔ _
  constructor
  · intro h
    cases hr : r bytes with
    | error err =>
      rw [hr] at h
      cases h
    | ok p =>
      rw [hr] at h
      exact ⟨p.1, p.2, rfl, h⟩
  · rintro ⟨a, bytes', hr, hf⟩
    rw [hr]
    exact hf

theorem pure_eq_ok {a b : α} {bytes rest : List UInt8} :
    (pure a : ByteReader ε α) bytes = .ok (b, rest) ↔ b = a ∧ rest = bytes := by
  constructor
  · intro h
    cases h
    exact ⟨rfl, rfl⟩
  · rintro ⟨rfl, rfl⟩
    rfl

theorem readExact_eq_ok {eof : ε} {n : Nat} {bytes xs rest : List UInt8} :
    readExact eof n bytes = .ok (xs, rest) ↔ xs.length = n ∧ bytes = xs ++ rest := by
  unfold readExact
  constructor
  · intro h
    split at h
    · rename_i hn
      cases h
      exact ⟨List.length_take_of_le hn, (List.take_append_drop n bytes).symm⟩
    · cases h
  · rintro ⟨rfl, rfl⟩
    rw [if_pos (by simp), List.take_left, List.drop_left]

/-! ## What a reader reads -/

namespace Reads

theorem pure (a : α) : Reads (Pure.pure a : ByteReader ε α) [] a := fun _ => rfl

theorem bind {r : ByteReader ε α} {f : α → ByteReader ε β} {xs ys : List UInt8} {a : α} {b : β}
    (hr : Reads r xs a) (hf : Reads (f a) ys b) : Reads (r >>= f) (xs ++ ys) b := by
  intro rest
  apply bind_eq_ok.mpr
  refine ⟨a, ys ++ rest, ?_, hf rest⟩
  rw [List.append_assoc]
  exact hr _

/-- After what it reads, the rest of the program runs on the rest of the bytes. -/
theorem run_bind {r : ByteReader ε α} {xs : List UInt8} {a : α} (hr : Reads r xs a)
    (f : α → ByteReader ε β) (rest : List UInt8) : (r >>= f) (xs ++ rest) = f a rest := by
  show (r (xs ++ rest) >>= fun p => f p.1 p.2) = _
  rw [hr rest]
  rfl

theorem map {r : ByteReader ε α} {xs : List UInt8} {a : α} (hr : Reads r xs a) (f : α → β) :
    Reads (r >>= fun x => Pure.pure (f x)) xs (f a) := by
  have h : Reads (r >>= fun x => Pure.pure (f x)) (xs ++ []) (f a) := hr.bind (Reads.pure (f a))
  rwa [List.append_nil] at h

theorem exact (eof : ε) (xs : List UInt8) : Reads (readExact eof xs.length) xs xs := by
  intro rest
  exact readExact_eq_ok.mpr ⟨rfl, rfl⟩

/-- A reader of `n` bytes reads a number that fits in `n` bytes. -/
theorem number (eof : ε) {n v : Nat} (hv : v < 256 ^ n) (f : Nat → β) :
    Reads (readExact eof n >>= fun buf => Pure.pure (f (LittleEndian.ofBytes buf)))
      (LittleEndian.toBytes n v) (f v) := by
  have h := (Reads.exact eof (LittleEndian.toBytes n v)).map fun buf =>
    f (LittleEndian.ofBytes buf)
  rwa [LittleEndian.length_toBytes, LittleEndian.ofBytes_toBytes hv] at h

/-- A sequence of items, each with its own bytes. -/
theorem times {ι : Type} {r : ByteReader ε α} {enc : ι → List UInt8} {val : ι → α}
    {items : List ι} (h : ∀ i ∈ items, Reads r (enc i) (val i)) :
    Reads (r.times items.length) (items.flatMap enc) (items.map val) := by
  induction items with
  | nil => exact Reads.pure []
  | cons i items ih =>
    have hi := h i List.mem_cons_self
    have hs := ih fun j hj => h j (List.mem_cons_of_mem i hj)
    rw [List.flatMap_cons, List.map_cons]
    exact hi.bind (hs.map _)

end Reads

/-! ## How much a reader takes -/

namespace Takes

theorem pure (a : α) : Takes (Pure.pure a : ByteReader ε α) 0 := by
  intro bytes b rest h
  obtain ⟨_, rfl⟩ := pure_eq_ok.mp h
  exact (Nat.zero_add _).symm

theorem exact (eof : ε) (n : Nat) : Takes (readExact eof n) n := by
  intro bytes xs rest h
  obtain ⟨rfl, rfl⟩ := readExact_eq_ok.mp h
  exact List.length_append

theorem bind {r : ByteReader ε α} {f : α → ByteReader ε β} {m n : Nat} (hr : Takes r m)
    (hf : ∀ a, Takes (f a) n) : Takes (r >>= f) (m + n) := by
  intro bytes b rest h
  obtain ⟨a, bytes', ha, hb⟩ := bind_eq_ok.mp h
  rw [hr _ _ _ ha, hf a _ _ _ hb, Nat.add_assoc]

theorem map {r : ByteReader ε α} {n : Nat} (hr : Takes r n) (f : α → β) :
    Takes (r >>= fun x => Pure.pure (f x)) n := hr.bind fun a => Takes.pure (f a)

theorem times {r : ByteReader ε α} {m : Nat} (hr : Takes r m) (n : Nat) :
    Takes (r.times n) (n * m) := by
  induction n with
  | zero =>
    rw [Nat.zero_mul]
    exact Takes.pure []
  | succ n ih =>
    rw [Nat.succ_mul, Nat.add_comm (n * m)]
    exact hr.bind fun a => ih.map (a :: ·)

end Takes

/-! ## What a reader depends on -/

namespace Local

theorem pure (a : α) : Local (Pure.pure a : ByteReader ε α) 0 := by
  intro bytes b rest h
  obtain ⟨rfl, rfl⟩ := pure_eq_ok.mp h
  exact ⟨[], rfl, Nat.le_refl 0, Reads.pure b⟩

theorem exact (eof : ε) (n : Nat) : Local (readExact eof n) n := by
  intro bytes xs rest h
  obtain ⟨rfl, rfl⟩ := readExact_eq_ok.mp h
  exact ⟨xs, rfl, Nat.le_refl _, Reads.exact eof xs⟩

theorem bind {r : ByteReader ε α} {f : α → ByteReader ε β} {m n : Nat} (hr : Local r m)
    (hf : ∀ a, Local (f a) n) : Local (r >>= f) (m + n) := by
  intro bytes b rest h
  obtain ⟨a, bytes', ha, hb⟩ := bind_eq_ok.mp h
  obtain ⟨xs, rfl, hxs, hreads⟩ := hr _ _ _ ha
  obtain ⟨ys, rfl, hys, hreads'⟩ := hf a _ _ _ hb
  refine ⟨xs ++ ys, (List.append_assoc _ _ _).symm, ?_, hreads.bind hreads'⟩
  rw [List.length_append]
  exact Nat.add_le_add hxs hys

end Local

end ByteReader
