import Formulary.Evaluation.Basic

/-!
# Where a call leads

The checks of a call and the choice of what it runs come before anything is carried out. `target`
says where a call leads without carrying it out; only the limit on calls under way, which concerns the
bodies of definitions alone, is left to be checked.
-/

namespace Formulary.Evaluator

open Evaluation

/-- Where a call leads: to a fault, to the body of a definition with the scope of its parameters, to
an added routine, or to a standard function. -/
inductive Target where
  | fault (f : Fault)
  | body (d : Definition) (scope : Frame)
  | routine (routine : Routine)
  | standard (standard : Standard)

variable (ev : Evaluator) (p : Program)

/-- Where a call of a function from outside leads, if it is declared with so many parameters: to
what was added under the name, or to the standard function of the name. -/
def outside (name : String) (declared : Nat) (values : List Float) : Target :=
  match ev.added.get? name with
  | some routine => .routine (routine values)
  | none =>
    match Standard.find? name with
    | some standard =>
      if standard.arity = declared then .standard standard
      else .fault (.failed (.unboundExtern name
        (some s!"declared with {declared} parameters, builtin takes {standard.arity}")))
    | none => .fault (.failed (.unboundExtern name none))

/-- Where a call of a name with values leads. -/
def target (node : Option Expr) (name : String) (values : List Float) : Target :=
  match p.prototype? name with
  | none => .fault (callFault node (.unknownFunction name []))
  | some prototype =>
    if prototype.arity = values.length then
      match ev.definition? p name with
      | some d => .body d (.ofList (prototype.params.zip values))
      | none => ev.outside name prototype.arity values
    else .fault (callFault node (.arityMismatch name prototype.arity values.length))

end Formulary.Evaluator
