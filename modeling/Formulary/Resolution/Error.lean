import Formulary.Diagnostic
import Formulary.Expr.Basic

/-!
# Errors and warnings about names

A resolution error says which name could not be resolved, where, at which node, and in which
definition. A warning concerns declarations that contradict each other; it stops nothing.
-/

namespace Formulary

/-- Why a name could not be resolved. -/
inductive ResolutionCause where
  | unknownFunction (name : String) (similar : List String)
  | arityMismatch (name : String) (expected got : Nat)
  | unknownVariable (name : String)
deriving DecidableEq, Repr

/-- A cause, the place and the node it was found at, and the definition around it; none at the top
level. -/
structure ResolutionError where
  cause : ResolutionCause
  location : Option Location := none
  node : Option Expr := none
  function : Option String := none

namespace ResolutionError

/-- Wording. At most three similar names are suggested. -/
def diagnostic (e : ResolutionError) : Diagnostic :=
  match e.cause with
  | .unknownFunction name similar =>
    { message := s!"Unknown function: '{name}'"
      location := e.location
      code := some "R001"
      help := some s!"No extern or definition named '{name}' exists in the program."
      suggestions := (similar.take 3).map (fun other => s!"Did you mean '{other}'?") ++
        [s!"Declare it with 'extern {name}(...);'", s!"Define it with 'def {name}(...) ...;'"] }
  | .arityMismatch name expected got =>
    { message := s!"Function '{name}' expects {expected} arguments, got {got}"
      location := e.location
      code := some "R002"
      help := some "The function call has the wrong number of arguments."
      suggestions := [s!"Provide exactly {expected} arguments", "Check the function signature"] }
  | .unknownVariable name =>
    { message := s!"Unknown variable: '{name}'"
      location := e.location
      code := some "R003"
      help := some <|
        match e.function with
        | none => "Top-level expressions have no variables in scope."
        | some function =>
          s!"'{name}' is not a parameter of '{function}' or an enclosing loop variable."
      suggestions := ["Check for typos in the variable name"] }

/-- The text of an error; the definition around it is named last. -/
def render (e : ResolutionError) : String :=
  let place := match e.function with
    | none | some "" => ""
    | some function => s!"  in definition of '{function}'\n"
  e.diagnostic.render ++ place

end ResolutionError

/-- What is suspicious about a declaration. -/
inductive WarningCause where
  | redefinition (name kind : String)
  | signatureConflict (name : String) (previous current : Nat)
deriving DecidableEq, Repr

/-- A suspicious declaration and its place. -/
structure ResolutionWarning where
  cause : WarningCause
  location : Option Location := none
deriving DecidableEq, Repr

namespace ResolutionWarning

/-- Wording. -/
def diagnostic (w : ResolutionWarning) : Diagnostic :=
  match w.cause with
  | .redefinition name kind =>
    { message := s!"Redefinition of '{name}'"
      location := w.location
      severity := "warning"
      code := some "R101"
      help := some <|
        s!"This {kind} replaces an earlier definition with the same name; " ++
          "calls use the latest one." }
  | .signatureConflict name previous current =>
    { message := s!"'{name}' redeclared with {current} parameters (previously {previous})"
      location := w.location
      severity := "warning"
      code := some "R102"
      help := some "Call sites are checked against the latest declaration." }

/-- The text of a warning. -/
def render (w : ResolutionWarning) : String := w.diagnostic.render

end ResolutionWarning

end Formulary
