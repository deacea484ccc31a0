-- SUMMARY: Finite double-precision numbers and their correctly rounded arithmetic.

/-!
# Doubles

Every finite double is a whole multiple of the least one above zero, `2 ^ (-1074)`. A double is
kept as that multiple and a sign, so arithmetic on doubles is arithmetic on natural numbers
followed by one rounding to 53 binary digits.
-/

namespace DecompilerDesk

/-- A finite double. -/
structure Double where
  negative : Bool
  /-- The magnitude, counted in steps of `2 ^ (-1074)`. -/
  steps : Nat
  deriving DecidableEq, Repr

namespace Double

/-- The quotient, rounded to the nearest whole number and from halfway to the even one. -/
def roundedDiv (a b : Nat) : Nat :=
  let quotient := a / b
  let twice := 2 * (a % b)
  if b < twice ∨ (twice = b ∧ quotient % 2 = 1) then quotient + 1 else quotient

/-- The number of steps in 1. -/
def one : Nat := Nat.pow 2 1074

/-- The number of steps in the largest finite double. -/
def largest : Nat := (Nat.pow 2 53 - 1) * Nat.pow 2 2045

/-- The binary digits that a magnitude of `steps` has beyond the 53 a double keeps. -/
def excess (steps : Nat) : Nat := steps.log2 - 52

/-- The double nearest to `num / den` steps, from halfway the one with an even last digit; nothing
when that is beyond the largest finite double. -/
def nearest? (negative : Bool) (num den : Nat) : Option Double :=
  let unit := Nat.pow 2 (excess (num / den))
  let steps := roundedDiv num (den * unit) * unit
  if steps ≤ largest then some ⟨negative, steps⟩ else none

/-- The double nearest to the whole number `n`. -/
def ofNat? (negative : Bool) (n : Nat) : Option Double := nearest? negative (n * one) 1

def mul? (x y : Double) : Option Double :=
  nearest? (x.negative != y.negative) (x.steps * y.steps) one

def div? (x y : Double) : Option Double :=
  nearest? (x.negative != y.negative) (x.steps * one) y.steps

def zero (negative : Bool) : Double := ⟨negative, 0⟩

/-- The double nearest to `10 ^ n`. -/
def powerOfTen? (n : Nat) : Option Double := ofNat? false (Nat.pow 10 n)

/-! ## From decimal notation -/

/-- Scale a double by a power of ten whose exponent is given, one rounding for each factor: a
factor is at most `10 ^ 308`, so a smaller exponent takes several divisions. -/
def scale? (x : Double) (exponent : Int) : Option Double :=
  if exponent.natAbs ≤ 308 then
    (powerOfTen? exponent.natAbs).bind fun power =>
      if 0 ≤ exponent then x.mul? power else x.div? power
  else if x.steps = 0 then some x
  else if 0 ≤ exponent then none
  else ((powerOfTen? 308).bind x.div?).bind fun y => y.scale? (exponent + 308)
termination_by exponent.natAbs

/-- The double that a significand of at most 64 binary digits and a power of ten give when each
step is rounded by itself. -/
def ofScaled? (negative : Bool) (significand : Nat) (exponent : Int) : Option Double :=
  (ofNat? negative significand).bind (·.scale? exponent)

end Double

end DecompilerDesk
