-- SUMMARY: The fewest decimal digits that read back as a given double.
import DecompilerDesk.Number.Double

/-!
# Shortest decimal text

A double is written with the fewest significant digits that are nearer to it than to any other
double, and among those with the digits nearest to it. Numbers from `1e-5` up to `1e16` are written
positionally, always with a fractional part; the others in scientific notation with a signed
exponent.
-/

namespace DecompilerDesk.Double

/-- `digits * 10 ^ exponent`. -/
structure Decimal where
  digits : Nat
  exponent : Int
  deriving DecidableEq, Repr

/-! ## The decimals that read back -/

/-- Twice the distance in steps from a magnitude to the next one above. -/
def twiceGapAbove (steps : Nat) : Nat := 2 * Nat.pow 2 (excess steps)

/-- Twice the distance in steps from a magnitude to the next one below: half of that above where
the number of binary digits changes. -/
def twiceGapBelow (steps : Nat) : Nat :=
  if steps = Nat.pow 2 (52 + excess steps) ∧ 0 < excess steps then Nat.pow 2 (excess steps)
  else twiceGapAbove steps

/-- Whether `num / den` steps is nearer to `steps` than to any other magnitude. A point halfway
between two belongs to the one whose last binary digit is even. -/
def readsBack (steps num den : Nat) : Bool :=
  let point := 4 * num
  let low := (4 * steps - twiceGapBelow steps) * den
  let high := (4 * steps + twiceGapAbove steps) * den
  if steps / Nat.pow 2 (excess steps) % 2 = 0 then low ≤ point && point ≤ high
  else low < point && point < high

/-- A decimal's magnitude in steps, as a fraction. -/
def Decimal.steps (d : Decimal) : Nat × Nat :=
  if 0 ≤ d.exponent then (d.digits * Nat.pow 10 d.exponent.toNat * one, 1)
  else (d.digits * one, Nat.pow 10 (-d.exponent).toNat)

def Decimal.readsBack (d : Decimal) (steps : Nat) : Bool :=
  Double.readsBack steps d.steps.1 d.steps.2

/-- The exponent of a magnitude's leading decimal digit. No positive double is below
`10 ^ (-324)`. -/
def leadingExponent (steps : Nat) : Int :=
  (Nat.toDigits 10 (steps * Nat.pow 10 324 / one)).length - 325

/-- The multiples of `10 ^ exponent` on either side of a magnitude, the nearer first and from
halfway the even one. -/
def neighbours (steps : Nat) (exponent : Int) : List Decimal :=
  let num := if 0 ≤ exponent then steps else steps * Nat.pow 10 (-exponent).toNat
  let den := if 0 ≤ exponent then Nat.pow 10 exponent.toNat * one else one
  let below := num / den
  let nearer := roundedDiv num den
  let other := if nearer = below then below + 1 else below
  [⟨nearer, exponent⟩, ⟨other, exponent⟩]

/-- The shortest decimal that reads back, from `count` digits on. -/
def shortestFrom (steps : Nat) (count : Nat) : (more : Nat) → Decimal
  | 0 => ⟨steps, 0⟩
  | more + 1 =>
    let exponent := leadingExponent steps - count + 1
    match (neighbours steps exponent).find? (·.readsBack steps) with
    | some d => d
    | none => shortestFrom steps (count + 1) more

/-- Seventeen digits always suffice. -/
def shortest (steps : Nat) : Decimal := shortestFrom steps 1 17

/-! ## Notation -/

def Decimal.text (d : Decimal) : List Char :=
  let digits := Nat.toDigits 10 d.digits
  let digits := (digits.reverse.dropWhile (· == '0')).reverse
  let shift := d.exponent + ((Nat.toDigits 10 d.digits).length - digits.length : Nat)
  let leading := shift + digits.length - 1
  if -5 ≤ leading ∧ leading ≤ 15 then
    if 0 ≤ shift then digits ++ List.replicate shift.toNat '0' ++ ['.', '0']
    else if 0 ≤ leading then
      digits.take (leading.toNat + 1) ++ '.' :: digits.drop (leading.toNat + 1)
    else '0' :: '.' :: List.replicate (-leading - 1).toNat '0' ++ digits
  else
    let fraction := if digits.length = 1 then [] else '.' :: digits.drop 1
    digits.take 1 ++ fraction ++ ['e', if 0 ≤ leading then '+' else '-']
      ++ Nat.toDigits 10 leading.natAbs

def text (x : Double) : List Char :=
  let magnitude := if x.steps = 0 then ['0', '.', '0'] else (shortest x.steps).text
  if x.negative then '-' :: magnitude else magnitude

end DecompilerDesk.Double
