import Formulary.Number.Notation
import Formulary.Resolution.Error

/-!
# Errors of evaluation

Names that cannot be resolved are reported as resolution errors. The errors here arise only while a
program runs.
-/

namespace Formulary

/-- Why an evaluation cannot go on. -/
inductive EvaluationError where
  | unboundExtern (name : String) (reason : Option String)
  | callDepthExceeded (name : String) (limit : Int)
  | invalidArgument (name : String) (value : Float)

namespace EvaluationError

/-- Wording. -/
def diagnostic : EvaluationError → Diagnostic
  | unboundExtern name reason =>
    let why := match reason with
      | none | some "" => ""
      | some text => s!": {text}"
    { message := s!"Extern '{name}' has no implementation{why}"
      code := some "R010"
      help := some <|
        "Externs are bound to builtins by name; pass builtins=\x7b...\x7d to Evaluator " ++
          "to provide one." }
  | callDepthExceeded name limit =>
    { message := s!"Call depth exceeded {limit} while calling '{name}'"
      code := some "R011"
      help := some
        "Check for unbounded recursion, or raise Evaluator(max_call_depth=...)." }
  | invalidArgument name value =>
    let text := Number.natural value
    { message := s!"Invalid argument to '{name}': {text}"
      code := some "R012"
      help := some s!"'{name}' needs a finite number." }

/-- The text of an error. -/
def render (e : EvaluationError) : String := e.diagnostic.render

end EvaluationError

/-- What stops an evaluation: a name that cannot be resolved, or an error of its own. -/
inductive Fault where
  | unresolved (e : ResolutionError)
  | failed (e : EvaluationError)

namespace Fault

/-- Wording. -/
def diagnostic : Fault → Diagnostic
  | unresolved e => e.diagnostic
  | failed e => e.diagnostic

/-- The text of a fault. -/
def render : Fault → String
  | unresolved e => e.render
  | failed e => e.render

end Fault

end Formulary
