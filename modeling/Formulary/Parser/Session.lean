import Formulary.Parser.Agreement
import Formulary.Parser.OnStack

/-!
# Reading step by step

A session is a token list with a cursor. Each step reads one thing where the cursor stands and
leaves the cursor behind it, or where a mistake was found; only reading a whole program starts over
from the first token, and asks for headroom. Between the steps nothing is open, but what is on record
stays. The nodes of a step that answers with a mistake are gone.
-/

namespace Formulary.Parser

/-- A token list being read, as it is between two steps: nothing is open. -/
structure Session extends State where
  closed : toState.Closed := by exact ⟨rfl, rfl⟩

/-- What can be read. -/
inductive Command where
  | program
  | foreign
  | prototype
  | definition
  | expression
deriving DecidableEq, Repr

/-- What was read, or why nothing was: for a mistake, or for want of headroom. -/
inductive Answer where
  | program (p : Program)
  | prototype (p : Prototype)
  | definition (d : Definition)
  | expression (e : Expr)
  | failure (e : SyntaxError)
  | halted (e : Stack.Error)

namespace Session

/-- Turn what a reader came to into an answer, and its state into a session. -/
def settle {α : Type} (answer : α → Answer) (r : Result α) (h : r.Closed) : Answer × Session :=
  match r, h with
  | .value a after, h => (answer a, ⟨after.keeping, h⟩)
  | .mistake e after, h => (.failure e, ⟨after.dropping, h⟩)
  | .cutShort, h => h.elim

/-- Carry out one step, on a stack that is deep enough if it is granted its headroom. -/
def step (stack : Stack) (s : Session) : Command → Answer × Session
  | .program =>
    match stack.raised (headroom s.limit) with
    | .error e => (.halted e, ⟨s.restarted, rfl, rfl⟩)
    | .ok _ =>
      settle .program (Reader.program (s.tokens.length + 1) s.toState)
        (Reader.program_answers s.toState).closed
  | .foreign =>
    settle .prototype (Reader.lift (foreignWithin (s.cursor.rest.length + 1)) s.toState)
      (Reader.foreign_answers s.closed).closed
  | .prototype =>
    settle .prototype (Reader.lift (prototypeWithin (s.cursor.rest.length + 1)) s.toState)
      (Reader.prototype_answers s.closed).closed
  | .definition =>
    settle .definition (Reader.definition (4 * s.cursor.rest.length + 3) s.toState)
      (Reader.definition_answers s.closed).closed
  | .expression =>
    settle (fun node => .expression node.expr)
      (Reader.expression (4 * s.cursor.rest.length + 3) s.toState)
      (Reader.expression_answers s.closed).closed

end Session

end Formulary.Parser
