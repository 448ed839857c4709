/-!
# Codes

The codes that diagnostics carry, each with a short title. A code is a letter for the stage that
found the mistake and a number.
-/

namespace Formulary.Codes

/-- Mistakes in the spelling of source text. -/
def lexical : List (String × String) :=
  [("L001", "Invalid character"), ("L003", "Invalid numeric literal")]

/-- Mistakes in the grammar. -/
def grammatical : List (String × String) :=
  [("P001", "Unexpected token"), ("P002", "Expected token not found"),
    ("P004", "Duplicate parameter"), ("P006", "Expression nesting too deep")]

/-- Mistakes about names, and warnings. -/
def resolution : List (String × String) :=
  [("R001", "Unknown function"), ("R002", "Arity mismatch"), ("R003", "Unknown variable"),
    ("R010", "Unbound extern"), ("R101", "Redefinition"), ("R102", "Conflicting redeclaration")]

end Formulary.Codes
