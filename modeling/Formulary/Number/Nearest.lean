import Formulary.Number.Magnitude

/-!
# From decimals to doubles

`nearest` rounds a decimal to the nearest magnitude; of two equally near ones it takes the even
pattern. The comparison is exact: a decimal and the midpoint of two neighbouring magnitudes are
compared as natural numbers. A decimal past the overflow threshold gives `infinity` or more.
-/

namespace Formulary.Number

/-- The non-negative decimal number `digits · 10 ^ exponent`. -/
structure Decimal where
  digits : Nat
  exponent : Int
deriving DecidableEq, Repr

namespace Decimal

/-- The numerator of a decimal, in units. -/
def numerator (d : Decimal) : Nat := d.digits * Nat.pow 10 d.exponent.toNat * one

/-- The denominator that belongs to `numerator`. -/
def denominator (d : Decimal) : Nat := Nat.pow 10 (-d.exponent).toNat

/-- Twice a decimal, compared with the sum of two neighbouring magnitudes: on which side of their
midpoint does it lie? -/
def compareMidpoint (d : Decimal) (bits : Nat) : Ordering :=
  compare (2 * d.numerator) ((units bits + units (bits + 1)) * d.denominator)

/-- The magnitude nearest to a decimal, ties to the even pattern. No power of ten is formed for a
number that is out of range whatever its digits are. -/
def nearest (d : Decimal) : Nat :=
  if d.digits = 0 then 0
  else if 310 < d.exponent then infinity
  else
    let below := ofUnits (d.numerator / d.denominator)
    match d.compareMidpoint below with
    | .lt => below
    | .gt => below + 1
    | .eq => if below % 2 = 0 then below else below + 1

/-- Does a decimal lie among the numbers that round to the given magnitude? The two ends of that
range belong to it exactly when the pattern is even. -/
def readsBack (bits : Nat) (d : Decimal) : Bool :=
  let above := match bits with
    | 0 => true
    | below + 1 => match d.compareMidpoint below with
      | .gt => true
      | .eq => bits % 2 == 0
      | .lt => false
  let under := match d.compareMidpoint bits with
    | .lt => true
    | .eq => bits % 2 == 0
    | .gt => false
  above && under

/-- The double nearest to a decimal, if it is finite. -/
def toFloat? (d : Decimal) : Option Float :=
  let bits := d.nearest
  if bits < infinity then some (ofMagnitude false bits) else none

example : nearest ⟨1, 23⟩ = 0x44B52D02C7E14AF6 := by decide +kernel
example : nearest ⟨24703282292062327208, -343⟩ = 0 := by decide +kernel
example : nearest ⟨24703282292062328, -340⟩ = 1 := by decide +kernel
example : nearest ⟨17976931348623157, 292⟩ = infinity - 1 := by decide +kernel
example : nearest ⟨17976931348623159, 292⟩ = infinity := by decide +kernel

end Decimal

end Formulary.Number
