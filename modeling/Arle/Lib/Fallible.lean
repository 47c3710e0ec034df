import Mathlib

/-!
# Calls that fail or panic

A call returns a result, fails with a message, or does not return as it panics. A check that is
met leaves nothing of itself behind.
-/

/-- A call that fails with a message, or does not return (`none`) as it panics. -/
abbrev Fallible := ExceptT String Option

namespace Fallible

variable {α : Type}

def panics : Fallible α := ExceptT.mk none

def assert (cond : Prop) [Decidable cond] : Fallible Unit := if cond then pure () else panics

def ensure (cond : Prop) [Decidable cond] (message : String) : Fallible Unit :=
  if cond then pure () else throw message

/-- A call that only panics. -/
def ofOption (x : Option α) : Fallible α :=
  match x with
  | some a => pure a
  | none => panics

theorem assert_of {cond : Prop} [Decidable cond] (h : cond) : assert cond = pure () := if_pos h

theorem ensure_of {cond : Prop} [Decidable cond] (h : cond) (message : String) :
    ensure cond message = pure () := if_pos h

theorem ofExcept_ok (a : α) : (ofExcept (.ok a : Except String α) : Fallible α) = pure a := rfl

end Fallible
