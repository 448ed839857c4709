import Formulary.Text.Blank
import Formulary.Text.Digit

/-!
# Reading integers

An integer is a run of decimal digits, of any script, behind a sign if there is one. Single
underscores may stand between the digits, and blanks may stand around the whole. A run of more than
4300 digits is refused.
-/

namespace Formulary.Number.Integer

/-- The greatest number of digits. -/
def digitLimit : Nat := 4300

/-- Can the character stand around an integer? All blanks can but the information separators. -/
def isPadding (c : Char) : Bool := Text.isBlank c && !(0x1C ≤ c.toNat && c.toNat ≤ 0x1F)

/-- The digits of a run. -/
def digits? : List Char → Option (List Nat)
  | [] => none
  | [c] => (Text.digitValue? c).map ([·])
  | c :: '_' :: rest => do return (← Text.digitValue? c) :: (← digits? rest)
  | c :: rest => do return (← Text.digitValue? c) :: (← digits? rest)

/-- The number that a run of digits spells. -/
def natural? (text : List Char) : Option Nat :=
  match digits? text with
  | none => none
  | some digits =>
    if digits.length ≤ digitLimit then some (digits.foldl (fun n d => 10 * n + d) 0) else none

/-- The number that a run of digits with a sign spells. -/
def signed? : List Char → Option Int
  | '-' :: rest => (natural? rest).map fun n => -(n : Int)
  | '+' :: rest => (natural? rest).map fun n => (n : Int)
  | rest => (natural? rest).map fun n => (n : Int)

/-- The integer that a text spells. -/
def read? (text : String) : Option Int :=
  let behind := text.toList.dropWhile isPadding
  signed? (behind.reverse.dropWhile isPadding).reverse

example : read? " -1_0\n" = some (-10) ∧ read? "+٣" = some 3 := by decide +kernel
example : read? "1__0" = none ∧ read? "_1" = none ∧ read? "1_" = none ∧ read? "- 1" = none := by
  decide +kernel
example : read? "" = none ∧ read? "0x1" = none := by decide +kernel

end Formulary.Number.Integer
