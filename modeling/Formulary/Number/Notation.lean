import Formulary.Number.Shortest

/-!
# Writing numbers

Three ways of writing a double. `plain` is positional: digits, a point, at least one place.
`natural` writes positionally from `1e-4` up to below `1e16` and with an exponent of at least two
digits outside. Both show the shortest digits that read back. `fixed` shows six places, rounded
from the exact value with ties to the even neighbour.
-/

namespace Formulary.Number

/-- Shortest digits of a magnitude, most significant first, and the position of the decimal point
in front of the first of them. -/
def digitsAndPoint (bits : Nat) : List Char × Int :=
  let d := Decimal.shortest bits
  let digits := Nat.toDigits 10 d.digits
  (digits, digits.length + d.exponent)

/-- Digits with a decimal point at the given position, padded with zeros on either side. -/
def positional (digits : List Char) (point : Int) : List Char :=
  if point ≤ 0 then
    '0' :: '.' :: (List.replicate (-point).toNat '0' ++ digits)
  else if (digits.length : Int) ≤ point then
    digits ++ List.replicate (point.toNat - digits.length) '0' ++ ['.', '0']
  else
    digits.take point.toNat ++ '.' :: digits.drop point.toNat

/-- One digit before the point and a decimal exponent with a sign and at least two digits. -/
def scientific (digits : List Char) (point : Int) : List Char :=
  let exponent := point - 1
  let size := Nat.toDigits 10 exponent.natAbs
  let mark := if exponent < 0 then '-' else '+'
  let fraction := match digits.drop 1 with
    | [] => []
    | rest => '.' :: rest
  digits.take 1 ++ fraction ++ 'e' :: mark :: (List.replicate (2 - size.length) '0' ++ size)

/-- The text of a double: a minus sign if its sign bit is set, then its magnitude; `inf` and `nan`
for the values that have no digits, the latter never with a sign. -/
def signed (write : Nat → List Char) (x : Float) : String :=
  if x.isNaN then "nan"
  else
    let body := if x.isInf then ['i', 'n', 'f'] else write (magnitude x)
    String.ofList (if isNegative x then '-' :: body else body)

/-- The shortest positional spelling of a magnitude. -/
def plainDigits (bits : Nat) : List Char :=
  let (digits, point) := digitsAndPoint bits
  positional digits (if bits = 0 then 1 else point)

/-- The shortest spelling of a magnitude, with an exponent where it is very large or very small. -/
def naturalDigits (bits : Nat) : List Char :=
  let (digits, point) := digitsAndPoint bits
  if bits = 0 then positional digits 1
  else if -4 < point ∧ point ≤ 16 then positional digits point
  else scientific digits point

/-- A magnitude in millionths, rounded to the nearest, ties to even. -/
def millionths (bits : Nat) : Nat :=
  let scaled := units bits * 1000000
  let below := scaled / one
  match compare (2 * (scaled % one)) one with
  | .lt => below
  | .gt => below + 1
  | .eq => below + below % 2

/-- A magnitude with six places. -/
def fixedDigits (bits : Nat) : List Char :=
  let n := millionths bits
  let places := Nat.toDigits 10 (n % 1000000)
  Nat.toDigits 10 (n / 1000000) ++ '.' :: (List.replicate (6 - places.length) '0' ++ places)

/-- Positional text, as numbers are written in source code. -/
def plain : Float → String := signed plainDigits

/-- Text with an exponent where that is shorter to read. -/
def natural : Float → String := signed naturalDigits

/-- Text with exactly six places. -/
def fixed : Float → String := signed fixedDigits

end Formulary.Number
