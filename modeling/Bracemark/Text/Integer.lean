/-
Integers in text.

Numbers that a document can write are signed 64-bit integers. This file reads
them (an optional sign, then one or more ASCII digits, and a value that fits)
and says what the number after another one is: counters stay at the largest
number once they have reached it.
-/

set_option autoImplicit false

namespace Bracemark.Text

/-! ## The range -/

/-- The largest number. -/
def maxNumber : Int := 9223372036854775807

/-- The smallest number. -/
def minNumber : Int := -9223372036854775808

/-- Whether an integer is one of the numbers. -/
def isNumber (n : Int) : Bool :=
  minNumber ≤ n && n ≤ maxNumber

theorem one_le_maxNumber : 1 ≤ maxNumber := by decide

theorem le_maxNumber_of_isNumber {n : Int} (h : isNumber n = true) : n ≤ maxNumber :=
  of_decide_eq_true (Bool.and_eq_true_iff.mp h).2

/-- The number after `n`; the largest number is followed by itself. -/
def nextNumber (n : Int) : Int :=
  if n < maxNumber then n + 1 else n

theorem nextNumber_of_lt {n : Int} (h : n < maxNumber) : nextNumber n = n + 1 :=
  if_pos h

theorem nextNumber_le {n : Int} (h : n ≤ maxNumber) : nextNumber n ≤ maxNumber := by
  unfold nextNumber
  split <;> omega

@[simp] theorem nextNumber_maxNumber : nextNumber maxNumber = maxNumber := by decide

/-- Counting goes on until the largest number is reached. -/
theorem nextNumber_min (n : Int) (k : Nat) :
    nextNumber (min (n + k) maxNumber) = min (n + (k + 1 : Nat)) maxNumber := by
  unfold nextNumber maxNumber
  split <;> omega

/-! ## Reading -/

/-- The value of an ASCII digit. -/
def digitValue (c : Char) : Nat :=
  c.toNat - '0'.toNat

/-- Reads a natural number: one or more ASCII digits and nothing else. -/
def readNatural? (cs : List Char) : Option Nat :=
  if cs.isEmpty || !cs.all Char.isDigit then none
  else some (cs.foldl (fun n c => 10 * n + digitValue c) 0)

/-- Reads an integer: a natural number that may have one sign before it. -/
def readInteger? : List Char → Option Int
  | '-' :: cs => (readNatural? cs).map fun n => -(n : Int)
  | '+' :: cs => (readNatural? cs).map fun n => (n : Int)
  | cs => (readNatural? cs).map fun n => (n : Int)

/-- Reads a number: an integer in the range of the numbers. -/
def readNumber? (s : String) : Option Int :=
  (readInteger? s.toList).filter isNumber

@[simp] theorem readNatural?_nil : readNatural? [] = none := rfl

end Bracemark.Text
