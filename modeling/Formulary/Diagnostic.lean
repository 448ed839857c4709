import Formulary.Location

/-!
# Diagnostics

What a user is told about a mistake: a severity, a message, and where known a place, a code, a
help text and suggestions. Each kind of error of the library is a type of causes with a function
into `Diagnostic`; the wording is in those functions and nowhere else.
-/

namespace Formulary

/-- A message to the user. The severity is a word such as `error` or `warning`. -/
structure Diagnostic where
  message : String
  location : Option Location := none
  severity : String := "error"
  code : Option String := none
  help : Option String := none
  suggestions : List String := []
deriving DecidableEq, Repr

namespace Diagnostic

/-- The lines of a diagnostic: severity and message, the place, the help text unless it is empty,
and the suggestions under a heading of their own. -/
def lines (d : Diagnostic) : List String :=
  let place := d.location.toList.map fun l => s!"  --> {l.render}"
  let help := (d.help.toList.filter (· ≠ "")).map fun text => s!"  help: {text}"
  let suggestions :=
    if d.suggestions.isEmpty then []
    else "  suggestions:" :: d.suggestions.map fun s => s!"    - {s}"
  s!"{d.severity.toUpper}: {d.message}" :: (place ++ help ++ suggestions)

/-- The text of a diagnostic; every line ends in a line end. -/
def render (d : Diagnostic) : String := String.join (d.lines.map fun line => s!"{line}\n")

end Diagnostic

end Formulary
