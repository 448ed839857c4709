import Formulary.Number.Nearest

/-!
# The shortest decimal of a double

`shortest` gives the decimal with the fewest digits that reads back as the same magnitude; among
those of that length the nearest one, and of two equally near ones the even one. The search tries
grids of one, two, … digits; on each grid only the two neighbours of the value can be nearest.
Seventeen digits are known to be enough for every double. That bound is not relied on: a search
without a hit would end in the exact decimal expansion.
-/

namespace Formulary.Number

/-- The number of decimal digits, one for zero. -/
def digitCount (n : Nat) : Nat := (Nat.toDigits 10 n).length

/-- The least power of ten above a non-zero magnitude: the position of its decimal point in front
of the first digit. -/
def pointPosition (bits : Nat) : Int :=
  let u := units bits
  if one ≤ u then digitCount (u / one)
  else 1 - (digitCount ((one - 1) / u) : Int)

namespace Decimal

/-- Move trailing zeros from the digits into the exponent. -/
def stripZeros : Nat → Decimal → Decimal
  | 0, d => d
  | fuel + 1, d =>
    if d.digits ≠ 0 ∧ d.digits % 10 = 0 then stripZeros fuel ⟨d.digits / 10, d.exponent + 1⟩ else d

/-- The point of the grid of `10 ^ exponent` just below a magnitude, or at it. -/
def floorOnGrid (bits : Nat) (exponent : Int) : Nat :=
  units bits * Nat.pow 10 (-exponent).toNat / (one * Nat.pow 10 exponent.toNat)

/-- A magnitude compared with the middle between a grid point and the next one. -/
def compareGridMiddle (bits : Nat) (d : Decimal) : Ordering :=
  compare (2 * units bits * Nat.pow 10 (-d.exponent).toNat)
    ((2 * d.digits + 1) * (one * Nat.pow 10 d.exponent.toNat))

/-- The point of one grid that reads back as the given magnitude, the nearer one of two. -/
def onGrid? (bits : Nat) (exponent : Int) : Option Decimal :=
  let low : Decimal := ⟨floorOnGrid bits exponent, exponent⟩
  let high : Decimal := ⟨low.digits + 1, exponent⟩
  match readsBack bits low, readsBack bits high with
  | true, false => some low
  | false, true => some high
  | false, false => none
  | true, true =>
    match compareGridMiddle bits low with
    | .lt => some low
    | .gt => some high
    | .eq => if low.digits % 2 = 0 then some low else some high

/-- The exact decimal expansion of a magnitude. -/
def exact (bits : Nat) : Decimal := ⟨units bits * Nat.pow 5 1074, -1074⟩

/-- The decimal with the fewest digits that reads back as the given magnitude. -/
def shortest (bits : Nat) : Decimal :=
  if bits = 0 then ⟨0, 0⟩
  else
    let point := pointPosition bits
    let found := (List.range 17).findSome? fun n => onGrid? bits (point - (n + 1 : Nat))
    stripZeros 1100 (found.getD (exact bits))

example : shortest 0x44B52D02C7E14AF6 = ⟨1, 23⟩ := by decide +kernel
example : shortest 0x3FD3333333333334 = ⟨30000000000000004, -17⟩ := by decide +kernel
example : shortest 1 = ⟨5, -324⟩ := by decide +kernel
example : shortest 0x3E60000000000000 = ⟨29802322387695312, -24⟩ := by decide +kernel

end Decimal

end Formulary.Number
