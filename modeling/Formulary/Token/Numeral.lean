import Formulary.Number.Nearest

/-!
# Number words

The spelling of numbers in source text: digits, an optional fraction (a point and perhaps more
digits), and an optional exponent (`e` or `E` and digits, with no sign). The value of a word is the
double nearest to the decimal that it spells.
-/

namespace Formulary

/-- The three runs of digits of a number word. An absent fraction or exponent is empty. -/
structure Numeral where
  whole : List Char
  fraction : List Char
  exponent : List Char
deriving DecidableEq, Repr

namespace Numeral

/-- The number that a run of decimal digits spells. -/
def ofDigits (digits : List Char) : Nat :=
  digits.foldl (fun n c => 10 * n + (c.toNat - '0'.toNat)) 0

/-- The parts after the whole part: a fraction if a point follows, and the rest. -/
def splitFraction : List Char → List Char × List Char
  | '.' :: rest => (rest.takeWhile Char.isDigit, rest.dropWhile Char.isDigit)
  | rest => ([], rest)

/-- The digits of an exponent that ends the word; none where the word has already ended. -/
def readExponent? : List Char → Option (List Char)
  | [] => some []
  | mark :: digits =>
    if (mark = 'e' ∨ mark = 'E') ∧ digits ≠ [] ∧ digits.all Char.isDigit then some digits else none

/-- Split a word into the parts of a number, if it spells one. -/
def read? (word : List Char) : Option Numeral :=
  let whole := word.takeWhile Char.isDigit
  let (fraction, rest) := splitFraction (word.dropWhile Char.isDigit)
  if whole = [] then none
  else (readExponent? rest).map fun exponent => { whole, fraction, exponent }

/-- The decimal that a number word spells. -/
def toDecimal (n : Numeral) : Number.Decimal where
  digits := ofDigits (n.whole ++ n.fraction)
  exponent := (ofDigits n.exponent : Int) - n.fraction.length

/-- The double nearest to a number word, unless it is too large. -/
def value? (n : Numeral) : Option Float := n.toDecimal.toFloat?

example : (read? ['1', '.', '5', 'e', '3']).map toDecimal = some ⟨15, 2⟩ := by decide
example : (read? ['1', '.']).map toDecimal = some ⟨1, 0⟩ := by decide
example : read? ['1', 'e'] = none ∧ read? ['1', '.', '2', '.', '3'] = none := by decide

end Numeral

end Formulary
