import Formulary.Token.Basic

/-!
# Operations on values

Every value is a double. Comparisons give one or zero. Division by zero and the like follow the
rules for doubles and are no errors.
-/

namespace Formulary

/-- Does a value count as true? All do but the two zeros and the values that are no numbers. -/
def isTrue (x : Float) : Bool := !x.isNaN && x != 0.0

/-- The value that stands for a truth value. -/
def ofTruth (b : Bool) : Float := if b then 1.0 else 0.0

/-- Apply an operator to two values. -/
def Operator.apply : Operator → Float → Float → Float
  | .plus, x, y => x + y
  | .minus, x, y => x - y
  | .times, x, y => x * y
  | .divide, x, y => x / y
  | .modulo, x, y => Number.remainder x y
  | .equals, x, y => ofTruth (x == y)
  | .lessThan, x, y => ofTruth (decide (x < y))

end Formulary
