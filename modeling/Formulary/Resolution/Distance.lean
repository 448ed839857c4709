/-!
# Names that look alike

The edit distance of two texts is the number of single characters that have to be inserted, deleted
or replaced to turn one into the other. It is computed row by row: a row holds the distances from
one beginning of the longer text to all beginnings of the shorter, so that the rows are short.
-/

namespace Formulary.Resolution

/-- The rest of a row, given the entry to its left, the rest of the second text and the row above
from the column of that entry on. -/
def fillRow (c : Char) : Nat → List Char → List Nat → List Nat
  | left, d :: rest, corner :: above :: previous =>
    let entry := min (min (above + 1) (left + 1)) (corner + if c = d then 0 else 1)
    entry :: fillRow c entry rest (above :: previous)
  | _, _, _ => []

/-- The row after one more character of the first text. -/
def nextRow (b : List Char) (previous : List Nat) (c : Char) : List Nat :=
  let first := previous.headD 0 + 1
  first :: fillRow c first b previous

/-- The edit distance of a text and one that is no longer. No row is needed beside an empty text. -/
def distanceToShorter (longer shorter : List Char) : Nat :=
  if shorter.isEmpty then longer.length
  else (longer.foldl (nextRow shorter) (List.range (shorter.length + 1))).getLastD 0

/-- The edit distance of two texts. -/
def editDistance (a b : String) : Nat :=
  if a.length < b.length then distanceToShorter b.toList a.toList
  else distanceToShorter a.toList b.toList

/-- The order of suggestions: nearer names first, equally near ones by their code points. -/
def nearer (a b : Nat × String) : Bool :=
  a.1 < b.1 || (a.1 == b.1 && decide (a.2 ≤ b.2))

/-- The candidates within a distance of a name, in the order of suggestions. -/
def similarNames (name : String) (candidates : List String) (distance : Int := 2) : List String :=
  let scored := candidates.map fun c => (editDistance name c, c)
  let near := (scored.mergeSort nearer).filter fun s => (s.1 : Int) ≤ distance
  near.map Prod.snd

example : editDistance "kitten" "sitting" = 3 := by decide +kernel
example : editDistance "" "abc" = 3 ∧ editDistance "abc" "" = 3 := by decide +kernel
example : similarNames "fib" ["fob", "bif", "fibs", "fib"] = ["fib", "fibs", "fob", "bif"] := by
  cbv

end Formulary.Resolution
