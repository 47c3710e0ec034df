import Mathlib

/-!
# Sequences of frames

A frame is a string that says where it ends: `next` splits a string that starts with a frame
into the item of the frame and what follows, and fails on any other string. Under these two
laws a sequence of frames is read back in one way only, also from a part of it.
-/

/-- An encoding of items as frames, with its reader. -/
structure Framing (α β ε : Type) where
  Valid : α → Prop
  encode : α → List β
  next : List β → Except ε (α × List β)
  encode_ne : ∀ a, encode a ≠ []
  next_encode : ∀ {a}, Valid a → ∀ rest, next (encode a ++ rest) = .ok (a, rest)
  of_next : ∀ {bytes a rest}, next bytes = .ok (a, rest) → Valid a ∧ bytes = encode a ++ rest

namespace Framing

variable {α β ε : Type} (F : Framing α β ε)

/-- The frames of a list of items. -/
def frames (as : List α) : List β := as.flatMap F.encode

@[simp] theorem frames_nil : F.frames [] = [] := rfl

@[simp] theorem frames_cons (a : α) (as : List α) :
    F.frames (a :: as) = F.encode a ++ F.frames as := rfl

theorem length_rest_lt {bytes rest : List β} {a : α} (h : F.next bytes = .ok (a, rest)) :
    rest.length < bytes.length := by
  rw [(F.of_next h).2, List.length_append]
  have := List.length_pos_iff.mpr (F.encode_ne a)
  omega

/-- Frames that start a sequence of frames are the first frames of it. -/
theorem prefix_of_frames {as bs : List α} {tail : List β} (has : ∀ a ∈ as, F.Valid a)
    (hbs : ∀ b ∈ bs, F.Valid b) (h : F.frames bs ++ tail = F.frames as) : bs <+: as := by
  induction bs generalizing as with
  | nil => exact List.nil_prefix
  | cons b bs ih =>
    cases as with
    | nil =>
      rw [frames_cons, frames_nil, List.append_assoc] at h
      exact absurd (List.append_eq_nil_iff.mp h).1 (F.encode_ne b)
    | cons a as =>
      rw [frames_cons, frames_cons, List.append_assoc] at h
      have hread := F.next_encode (hbs b List.mem_cons_self) (F.frames bs ++ tail)
      rw [h, F.next_encode (has a List.mem_cons_self)] at hread
      obtain ⟨rfl, hrest⟩ := Prod.mk.inj (Except.ok.inj hread)
      refine List.cons_prefix_cons.mpr ⟨rfl, ih ?_ ?_ hrest.symm⟩
      · exact fun a ha => has a (List.mem_cons_of_mem _ ha)
      · exact fun b hb => hbs b (List.mem_cons_of_mem _ hb)

/-- Read frames until the string is used up. -/
def readAll (bytes : List β) : Except ε (List α) :=
  if bytes = [] then .ok []
  else match h : F.next bytes with
    | .error err => .error err
    | .ok (a, rest) =>
      have := F.length_rest_lt h
      (readAll rest).map (a :: ·)
termination_by bytes.length

@[simp] theorem readAll_nil : F.readAll [] = .ok [] := by
  rw [readAll, if_pos rfl]

theorem readAll_error {bytes : List β} {err : ε} (hne : bytes ≠ [])
    (h : F.next bytes = .error err) : F.readAll bytes = .error err := by
  rw [readAll, if_neg hne]
  split
  · rename_i hread
    rw [h] at hread
    cases hread
    rfl
  · rename_i hread
    rw [h] at hread
    cases hread

theorem readAll_ok {bytes rest : List β} {a : α} (h : F.next bytes = .ok (a, rest)) :
    F.readAll bytes = (F.readAll rest).map (a :: ·) := by
  have hne : bytes ≠ [] := fun hnil => by
    have := F.length_rest_lt h
    rw [hnil] at this
    exact absurd this (Nat.not_lt_zero _)
  rw [readAll, if_neg hne]
  split
  · rename_i hread
    rw [h] at hread
    cases hread
  · rename_i hread
    rw [h] at hread
    cases hread
    rfl

theorem readAll_frames {as : List α} (has : ∀ a ∈ as, F.Valid a) :
    F.readAll (F.frames as) = .ok as := by
  induction as with
  | nil => exact F.readAll_nil
  | cons a as ih =>
    rw [frames_cons, F.readAll_ok (F.next_encode (has a List.mem_cons_self) _),
      ih fun b hb => has b (List.mem_cons_of_mem _ hb)]
    rfl

/-- What is read is what was written. -/
theorem of_readAll {bytes : List β} {as : List α} (h : F.readAll bytes = .ok as) :
    (∀ a ∈ as, F.Valid a) ∧ bytes = F.frames as := by
  induction hn : bytes.length using Nat.strongRecOn generalizing bytes as with
  | ind n ih =>
    by_cases hne : bytes = []
    · rw [hne, readAll_nil] at h
      cases h
      exact ⟨fun a ha => absurd ha List.not_mem_nil, hne⟩
    · cases hread : F.next bytes with
      | error err =>
        rw [F.readAll_error hne hread] at h
        cases h
      | ok pair =>
        obtain ⟨a, rest⟩ := pair
        rw [F.readAll_ok hread] at h
        cases hrest : F.readAll rest with
        | error err =>
          rw [hrest] at h
          cases h
        | ok as' =>
          rw [hrest] at h
          obtain rfl : a :: as' = as := Except.ok.inj h
          obtain ⟨hvalid, hframes⟩ := ih rest.length (hn ▸ F.length_rest_lt hread) hrest rfl
          obtain ⟨ha, hbytes⟩ := F.of_next hread
          refine ⟨fun b hb => ?_, by rw [hbytes, hframes, frames_cons]⟩
          rcases List.mem_cons.mp hb with rfl | hb
          · exact ha
          · exact hvalid b hb

/-- What fails is the reader of one frame. -/
theorem of_readAll_error {P : ε → Prop} (hP : ∀ bytes err, F.next bytes = .error err → P err)
    {bytes : List β} {err : ε} (h : F.readAll bytes = .error err) : P err := by
  induction hn : bytes.length using Nat.strongRecOn generalizing bytes with
  | ind n ih =>
    by_cases hne : bytes = []
    · rw [hne, readAll_nil] at h
      cases h
    · cases hread : F.next bytes with
      | error err' =>
        rw [F.readAll_error hne hread] at h
        cases h
        exact hP bytes err hread
      | ok pair =>
        obtain ⟨a, rest⟩ := pair
        rw [F.readAll_ok hread] at h
        cases hrest : F.readAll rest with
        | error err' =>
          rw [hrest] at h
          cases h
          exact ih rest.length (hn ▸ F.length_rest_lt hread) hrest rfl
        | ok as =>
          rw [hrest] at h
          cases h

end Framing
