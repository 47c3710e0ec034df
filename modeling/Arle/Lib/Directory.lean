import Mathlib

/-!
# A directory of files

A directory maps names to files, and the contents belong to the files: a file that is opened
stays the same when its name is given to another one or is removed. Renaming is one step. An
operation that needs the directory fails (`none`) when it is not there.
-/

/-- The directory, the files and the number of the next file. -/
structure Directory (α : Type) where
  present : Bool
  entry : α → Option Nat
  content : Nat → List UInt8
  next : Nat

namespace Directory

variable {α : Type}

def empty : Directory α :=
  { present := false, entry := fun _ => none, content := fun _ => [], next := 0 }

variable (d : Directory α)

def make : Directory α := { d with present := true }

/-- The directory is removed with its names. -/
def purge : Directory α := { d with present := false, entry := fun _ => none }

def append (file : Nat) (bytes : List UInt8) : Directory α :=
  { d with content := Function.update d.content file (d.content file ++ bytes) }

section Edit

variable [DecidableEq α]

/-- Open for writing: a file that is there is truncated, else a new one is made. -/
def openTruncate (name : α) : Option (Nat × Directory α) :=
  if d.present then
    match d.entry name with
    | some file => some (file, { d with content := Function.update d.content file [] })
    | none => some (d.next, { d with
        entry := Function.update d.entry name (some d.next)
        content := Function.update d.content d.next []
        next := d.next + 1 })
  else
    none

/-- The file of `source` replaces that of `target`. -/
def rename (source target : α) : Option (Directory α) :=
  match d.entry source with
  | none => none
  | some file => some { d with
      entry := Function.update (Function.update d.entry target (some file)) source none }

def remove (name : α) : Directory α := { d with entry := Function.update d.entry name none }

end Edit

/-- No file has two names, and the files that are to come have none. -/
structure Named : Prop where
  name_unique : ∀ {a b file}, d.entry a = some file → d.entry b = some file → a = b
  old : ∀ {a file}, d.entry a = some file → file < d.next

/-- Every name of the first directory that the second one has belongs to the same file. -/
def Keeps (d' : Directory α) : Prop := ∀ a file, d'.entry a = some file → d.entry a = some file

variable {d} {d' : Directory α} {name source target a : α} {file other : Nat}

theorem named_empty : (empty : Directory α).Named where
  name_unique h := by cases h
  old h := by cases h

theorem Named.of_keeps (h : d.Named) (hkeeps : d.Keeps d') (hnext : d.next ≤ d'.next) :
    d'.Named where
  name_unique ha hb := h.name_unique (hkeeps _ _ ha) (hkeeps _ _ hb)
  old ha := Nat.lt_of_lt_of_le (h.old (hkeeps _ _ ha)) hnext

theorem keeps_purge : d.Keeps d.purge := by
  intro a file h
  cases h

theorem content_append_self (file : Nat) (bytes : List UInt8) :
    (d.append file bytes).content file = d.content file ++ bytes := Function.update_self _ _ _

theorem content_append_of_ne (h : other ≠ file) (bytes : List UInt8) :
    (d.append file bytes).content other = d.content other := Function.update_of_ne h _ _

section Edit

variable [DecidableEq α]

theorem keeps_remove (name : α) : d.Keeps (d.remove name) := by
  intro a file h
  by_cases heq : a = name
  · subst heq
    have hgone : (d.remove a).entry a = none := Function.update_self _ _ _
    rw [hgone] at h
    cases h
  · have hkept : (d.remove name).entry a = d.entry a := Function.update_of_ne heq _ _
    rwa [hkept] at h

/-- What opening a file for writing does. -/
theorem openTruncate_spec (hd : d.Named) (h : d.openTruncate name = some (file, d')) :
    d'.entry name = some file ∧ (∀ a, a ≠ name → d'.entry a = d.entry a) ∧
      d'.content file = [] ∧ (∀ other, other ≠ file → d'.content other = d.content other) ∧
      d.next ≤ d'.next ∧ file < d'.next ∧ (d.entry name = some file ∨ file = d.next) := by
  unfold openTruncate at h
  split at h
  · split at h
    · rename_i old hold
      obtain ⟨rfl, rfl⟩ := Prod.mk.inj (Option.some.inj h)
      exact ⟨hold, fun _ _ => rfl, Function.update_self _ _ _,
        fun _ hne => Function.update_of_ne hne _ _, Nat.le_refl _, hd.old hold, .inl hold⟩
    · obtain ⟨rfl, rfl⟩ := Prod.mk.inj (Option.some.inj h)
      exact ⟨Function.update_self _ _ _, fun _ hne => Function.update_of_ne hne _ _,
        Function.update_self _ _ _, fun _ hne => Function.update_of_ne hne _ _,
        Nat.le_succ _, Nat.lt_succ_self _, .inr rfl⟩
  · cases h

theorem Named.openTruncate (hd : d.Named) (h : d.openTruncate name = some (file, d')) :
    d'.Named := by
  obtain ⟨hname, hother, _, _, hnext, hlt, hfile⟩ := openTruncate_spec hd h
  -- Another name does not have the file that was opened.
  have hne : ∀ a, d.entry a = some file → a = name := by
    intro a ha
    rcases hfile with hold | rfl
    · exact hd.name_unique ha hold
    · exact absurd (hd.old ha) (Nat.lt_irrefl _)
  refine ⟨fun {a b other} ha hb => ?_, fun {a other} ha => ?_⟩
  · by_cases hea : a = name
    · subst hea
      by_cases heb : b = a
      · exact heb.symm
      · rw [hother b heb] at hb
        rw [hname] at ha
        cases ha
        exact (hne b hb).symm
    · rw [hother a hea] at ha
      by_cases heb : b = name
      · subst heb
        rw [hname] at hb
        cases hb
        exact hne a ha
      · rw [hother b heb] at hb
        exact hd.name_unique ha hb
  · by_cases hea : a = name
    · subst hea
      rw [hname] at ha
      cases ha
      exact hlt
    · rw [hother a hea] at ha
      exact Nat.lt_of_lt_of_le (hd.old ha) hnext

/-- What a rename does. -/
theorem rename_spec (hne : source ≠ target) (h : d.rename source target = some d') :
    ∃ file, d.entry source = some file ∧ d'.entry source = none ∧
      d'.entry target = some file ∧ (∀ a, a ≠ source → a ≠ target → d'.entry a = d.entry a) ∧
      d'.content = d.content ∧ d'.next = d.next := by
  unfold rename at h
  split at h
  · cases h
  · rename_i file hfile
    cases h
    refine ⟨file, hfile, Function.update_self _ _ _, ?_, fun a hs ht => ?_, rfl, rfl⟩
    · exact (Function.update_of_ne hne.symm _ _).trans (Function.update_self _ _ _)
    · exact (Function.update_of_ne hs _ _).trans (Function.update_of_ne ht _ _)

theorem Named.rename (hd : d.Named) (hne : source ≠ target)
    (h : d.rename source target = some d') : d'.Named := by
  obtain ⟨file, hfile, hsource, htarget, hother, _, hnext⟩ := rename_spec hne h
  -- A name of the new directory stands for one of the old.
  have hold : ∀ a other, d'.entry a = some other →
      d.entry (if a = target then source else a) = some other := by
    intro a other ha
    by_cases ht : a = target
    · subst ht
      rw [htarget] at ha
      cases ha
      rw [if_pos rfl]
      exact hfile
    · rw [if_neg ht]
      by_cases hs : a = source
      · subst hs
        rw [hsource] at ha
        cases ha
      · rw [hother a hs ht] at ha
        exact ha
  refine ⟨fun {a b other} ha hb => ?_, fun {a other} ha => ?_⟩
  · have heq := hd.name_unique (hold a other ha) (hold b other hb)
    by_cases hta : a = target <;> by_cases htb : b = target
    · rw [hta, htb]
    · rw [if_pos hta, if_neg htb] at heq
      subst heq
      rw [hsource] at hb
      cases hb
    · rw [if_neg hta, if_pos htb] at heq
      subst heq
      rw [hsource] at ha
      cases ha
    · rwa [if_neg hta, if_neg htb] at heq
  · rw [hnext]
    exact hd.old (hold a other ha)

end Edit

end Directory
