import Formulary.Parser.Descent
import Formulary.Program

/-!
# The grammar

    extern     ::= 'extern' prototype ';'
    definition ::= 'def' prototype expression ';'
    prototype  ::= identifier '(' (identifier ','?)* ')'
    expression ::= primary (operator primary)*
    primary    ::= number
                 | identifier ('(' (expression (',' expression)*)? ')')?
                 | '(' expression ')'
                 | 'if' expression 'then' expression 'else' expression
                 | 'for' identifier '=' expression ',' expression (',' expression)?
                   'in' expression

Chains of operators are read by precedence climbing, to the left where precedences are equal.

Two limits of the same size hold. An expression may have at most `limit` levels; this is checked
on entering an expression (each enclosing call, condition or loop is a level) and for each node
with parts when it is built. At most `limit` grouping parentheses may be open at once; they add no
level to the tree.

The descents have fuel, of which every nested call takes one. `answers` shows how much is enough.
-/

namespace Formulary.Parser

open Descent

/-- An expression with its height, which the nesting limit bounds. -/
structure Measured where
  expr : Expr
  height : Nat
  height_eq : expr.height = height

/-- The greatest height in a list, zero if it is empty. -/
def maxHeight : List Measured → Nat
  | [] => 0
  | m :: rest => max m.height (maxHeight rest)

theorem heights_eq_maxHeight (ms : List Measured) :
    Expr.heights (ms.map Measured.expr) = maxHeight ms := by
  induction ms with
  | nil => rfl
  | cons m rest ih => simp [Expr.heights, maxHeight, ih, m.height_eq]

/-- The nesting limit, and how many expressions and how many grouping parentheses are open. -/
structure Nesting where
  limit : Int
  expressions : Nat := 0
  groups : Nat := 0

/-- The tokens that can start a primary expression. -/
inductive Opening where
  | number (value : Float)
  | identifier (name : String)
  | group
  | conditional
  | loop

/-- What a token starts, if it can start a primary expression. -/
def opening? (t : Token) : Option Opening :=
  match t.content with
  | .number value => some (.number value)
  | .identifier name => some (.identifier name)
  | .punctuation .leftParen => some .group
  | .keyword .ifWord => some .conditional
  | .keyword .forWord => some .loop
  | _ => none

/-- The name that a token is, if it is one. -/
def name? (t : Token) : Option String :=
  match t.content with
  | .identifier name => some name
  | _ => none

/-- Choose the tokens of one operator. -/
def ofOperator (op : Operator) (t : Token) : Option Unit :=
  if t.operator? = some op then some () else none

/-- Choose the operators that bind at least as tightly as `least`. -/
def binding? (least : Nat) (t : Token) : Option Operator :=
  t.operator?.filter fun op => least ≤ op.precedence

/-- Take a name. -/
def name (context : String) : Descent (Token × String) :=
  take name? (.expected (.kind .identifier) (some context))

/-- Accept a new node with parts unless it has too many levels. The token is the one to blame. -/
def checked (limit : Int) (blame : Token) (m : Measured) : Descent Measured :=
  if limit < m.height then fail (.nestingTooDeep limit) blame else pure m

/-- A node of two parts, measured. -/
def Measured.binary (op : Operator) (left right : Measured) : Measured where
  expr := .binary op left.expr right.expr (Span.join? left.expr.span right.expr.span)
  height := 1 + max left.height right.height
  height_eq := by simp [Expr.height, left.height_eq, right.height_eq]

/-- A call, measured. -/
def Measured.call (name : String) (arguments : List Measured) (span : Option Span) : Measured where
  expr := .call name (arguments.map Measured.expr) span
  height := 1 + maxHeight arguments
  height_eq := by simp [Expr.height, heights_eq_maxHeight]

/-- A condition, measured. -/
def Measured.cond (condition consequent alternative : Measured) (span : Option Span) :
    Measured where
  expr := .cond condition.expr consequent.expr alternative.expr span
  height := 1 + max condition.height (max consequent.height alternative.height)
  height_eq := by
    simp [Expr.height, condition.height_eq, consequent.height_eq, alternative.height_eq]

/-- A loop, measured. -/
def Measured.loop (name : String) (start stop : Measured) (step : Option Measured)
    (body : Measured) (span : Option Span) : Measured where
  expr := .loop name start.expr stop.expr (step.map Measured.expr) body.expr span
  height := 1 + max start.height (max stop.height (match step with
    | none => body.height
    | some s => max s.height body.height))
  height_eq := by
    cases step with
    | none => simp [Expr.height, start.height_eq, stop.height_eq, body.height_eq]
    | some s => simp [Expr.height, start.height_eq, stop.height_eq, body.height_eq, s.height_eq]

/-- The part of a condition after `if`. -/
def conditional (limit : Int) (expression : Descent Measured) (first : Token) :
    Descent Measured := do
  let condition ← expression
  let _ ← expect (.keyword .thenWord) "after 'if' condition"
  let consequent ← expression
  let _ ← expect (.keyword .elseWord) "after 'then' branch"
  let alternative ← expression
  let span ← spanFrom first
  checked limit first (.cond condition consequent alternative span)

/-- The step of a loop, if a comma announces one. -/
def loopStep (expression : Descent Measured) : Descent (Option Measured) :=
  takeIf (ofKind (.punctuation .comma)) (fun _ _ => some <$> expression) (pure none)

/-- The part of a loop after `for`. -/
def forLoop (limit : Int) (expression : Descent Measured) (first : Token) : Descent Measured := do
  let counter ← name "after 'for'"
  let _ ← take (ofOperator .equals) (.expected (.phrase "'='") "after loop variable")
  let start ← expression
  let _ ← expect (.punctuation .comma) "after loop start value"
  let stop ← expression
  let step ← loopStep expression
  let _ ← expect (.keyword .inWord) "before loop body"
  let body ← expression
  let span ← spanFrom first
  checked limit first (.loop counter.2 start stop step body span)

/-- The part of a group after `(`. -/
def grouping (nesting : Nesting) (chain : Nesting → Descent Measured) (first : Token) :
    Descent Measured := do
  if nesting.limit ≤ nesting.groups then fail (.nestingTooDeep nesting.limit) first
  else
    let inner ← chain { nesting with groups := nesting.groups + 1 }
    let _ ← expect (.punctuation .rightParen) "after parenthesized expression"
    return inner

/-- No arguments if a closing parenthesis follows, else those that are there. -/
def argumentsIfAny (arguments : Descent (List Measured)) : Descent (List Measured) := do
  let next ← peek
  if next.kind = .punctuation .rightParen then return [] else arguments

/-- The part of a call after its opening parenthesis. -/
def callArguments (limit : Int) (arguments : Descent (List Measured)) (first : Token)
    (name : String) : Descent Measured := do
  let values ← argumentsIfAny arguments
  let _ ← expect (.punctuation .rightParen) "after arguments"
  let span ← spanFrom first
  checked limit first (.call name values span)

/-- A variable. -/
def variableRef (first : Token) (name : String) : Descent Measured := do
  let span ← spanFrom first
  return ⟨.var name span, 1, by simp [Expr.height]⟩

/-- The part of a name after the name itself: a call if a parenthesis follows. -/
def variableOrCall (limit : Int) (arguments : Descent (List Measured)) (first : Token)
    (name : String) : Descent Measured :=
  takeIf (ofKind (.punctuation .leftParen))
    (fun _ _ => callArguments limit arguments first name) (variableRef first name)

/-- A right operand, after the operators that bind more tightly than the one before it have taken
it. -/
def rightOperand (op : Operator) (operations : Measured → Descent Measured) (right : Measured) :
    Descent Measured := do
  let following ← peek
  if (binding? (op.precedence + 1) following).isSome then operations right else return right

mutual

/-- An expression. -/
def expressionWithin : Nat → Nesting → Descent Measured
  | 0, _ => cutShort
  | fuel + 1, nesting =>
    if nesting.limit ≤ nesting.expressions then do
      let next ← peek
      fail (.nestingTooDeep nesting.limit) next
    else chainWithin fuel { nesting with expressions := nesting.expressions + 1 }

/-- A chain of operators and primary expressions. -/
def chainWithin : Nat → Nesting → Descent Measured
  | 0, _ => cutShort
  | fuel + 1, nesting => do
    let left ← primaryWithin fuel nesting
    operationsWithin fuel nesting 0 left

/-- A primary expression. -/
def primaryWithin : Nat → Nesting → Descent Measured
  | 0, _ => cutShort
  | fuel + 1, nesting => do
    let (first, opening) ← take opening? (.unexpected "expression")
    match opening with
    | .number value => do
      let span ← spanFrom first
      return ⟨.number value span, 1, by simp [Expr.height]⟩
    | .identifier name =>
      variableOrCall nesting.limit (argumentsWithin fuel nesting) first name
    | .group => grouping nesting (chainWithin fuel) first
    | .conditional => conditional nesting.limit (expressionWithin fuel nesting) first
    | .loop => forLoop nesting.limit (expressionWithin fuel nesting) first

/-- Fold the operators after `left` that bind at least as tightly as `least`. Where the operator
after a right operand binds more tightly, the right operand takes it first. -/
def operationsWithin : Nat → Nesting → Nat → Measured → Descent Measured
  | 0, _, _, _ => cutShort
  | fuel + 1, nesting, least, left =>
    takeIf (binding? least)
      (fun token op => do
        let right ← primaryWithin fuel nesting
        let right ← rightOperand op (operationsWithin fuel nesting (op.precedence + 1)) right
        let node ← checked nesting.limit token (.binary op left right)
        operationsWithin fuel nesting least node)
      (pure left)

/-- The arguments of a call up to its closing parenthesis, one or more. -/
def argumentsWithin : Nat → Nesting → Descent (List Measured)
  | 0, _ => cutShort
  | fuel + 1, nesting => do
    let value ← expressionWithin fuel nesting
    let next ← peek
    if next.kind = .punctuation .rightParen then return [value]
    else
      let _ ← take (ofKind (.punctuation .comma))
        (.expected (.phrase "',' or ')'") "in argument list")
      let rest ← argumentsWithin fuel nesting
      return value :: rest

end

/-- The parameters of a prototype, after those already seen. A comma after a parameter is passed
over. -/
def parametersWithin : Nat → String → List String → Descent (List String)
  | 0, _, _ => cutShort
  | fuel + 1, function, seen =>
    takeIf name?
      (fun token parameter =>
        if parameter ∈ seen then fail (.duplicateParameter function parameter) token
        else
          let more := parametersWithin fuel function (seen ++ [parameter])
          takeIf (ofKind (.punctuation .comma)) (fun _ _ => more) more)
      (pure seen)

/-- A prototype. -/
def prototypeWithin (fuel : Nat) : Descent Prototype := do
  let (first, function) ← name "as function name"
  let _ ← expect (.punctuation .leftParen) "after function name"
  let params ← parametersWithin fuel function []
  let _ ← expect (.punctuation .rightParen) "to close parameter list"
  let span ← spanFrom first
  return { name := function, params, span }

/-- A declaration of an outside function. -/
def foreignWithin (fuel : Nat) : Descent Prototype := do
  let _ ← expect (.keyword .externWord)
  let prototype ← prototypeWithin fuel
  let _ ← expect (.punctuation .semicolon) "after extern declaration"
  return prototype

/-- A definition. -/
def definitionWithin (fuel : Nat) (limit : Int) : Descent Definition := do
  let _ ← expect (.keyword .defWord)
  let prototype ← prototypeWithin fuel
  let body ← expressionWithin fuel { limit }
  let _ ← expect (.punctuation .semicolon) "after function definition"
  return { prototype, body := body.expr }

/-- A statement. A semicolon alone is an empty one. -/
def statementWithin (fuel : Nat) (limit : Int) : Descent (Option Statement) := do
  let next ← peek
  match next.kind with
  | .keyword .externWord => do
    let prototype ← foreignWithin fuel
    return some (.foreign prototype)
  | .keyword .defWord => do
    let definition ← definitionWithin fuel limit
    return some (.definition definition)
  | .punctuation .semicolon => do
    let _ ← expect (.punctuation .semicolon)
    return none
  | _ => do
    let e ← expressionWithin fuel { limit }
    let _ ← expect (.punctuation .semicolon) "after top-level expression"
    return some (.expression e.expr)

/-! ### Enough fuel -/

theorem answers_name (bound : Nat) (context : String) : Answers 1 bound (name context) :=
  answers_take _ _ _

theorem answers_checked (bound : Nat) (limit : Int) (blame : Token) (m : Measured) :
    Answers 0 bound (checked limit blame m) :=
  .ite (answers_fail _ _ _ _) (answers_pure _ _)

theorem answers_conditional {bound : Nat} {e : Descent Measured} (h : Answers 0 bound e)
    (limit : Int) (first : Token) : Answers 0 bound (conditional limit e first) :=
  h.seq fun _ => (answers_expect _ _ _).loose.seq fun _ =>
    h.seq fun _ => (answers_expect _ _ _).loose.seq fun _ =>
    h.seq fun _ => (answers_spanFrom _ _).seq fun _ => answers_checked _ _ _ _

theorem answers_loopStep {bound : Nat} {e : Descent Measured} (h : Answers 0 bound e) :
    Answers 0 bound (loopStep e) :=
  answers_takeIf
    (fun _ _ _ => (h.within (Nat.sub_le _ _)).seq fun _ => answers_pure _ _) (answers_pure _ _)

theorem answers_forLoop {bound : Nat} {e : Descent Measured} (h : Answers 0 bound e)
    (limit : Int) (first : Token) : Answers 0 bound (forLoop limit e first) :=
  (answers_name _ _).loose.seq fun _ => (answers_take _ _ _).loose.seq fun _ =>
    h.seq fun _ => (answers_expect _ _ _).loose.seq fun _ =>
    h.seq fun _ => (answers_loopStep h).seq fun _ => (answers_expect _ _ _).loose.seq fun _ =>
    h.seq fun _ => (answers_spanFrom _ _).seq fun _ => answers_checked _ _ _ _

theorem answers_grouping {bound : Nat} {chain : Nesting → Descent Measured}
    (h : ∀ nesting, Answers 0 bound (chain nesting)) (nesting : Nesting) (first : Token) :
    Answers 0 bound (grouping nesting chain first) :=
  .ite (answers_fail _ _ _ _) <|
    (h _).seq fun _ => (answers_expect _ _ _).loose.seq fun _ => answers_pure _ _

theorem answers_variableOrCall {bound : Nat} {arguments : Descent (List Measured)}
    (h : 0 < bound → Answers 0 (bound - 1) arguments) (limit : Int) (first : Token)
    (name : String) : Answers 0 bound (variableOrCall limit arguments first name) :=
  answers_takeIf
    (fun pos _ _ => ((answers_peek _).seq fun _ => .ite (answers_pure _ _) (h pos)).seq
      fun _ => (answers_expect _ _ _).loose.seq fun _ => (answers_spanFrom _ _).seq fun _ =>
      answers_checked _ _ _ _)
    ((answers_spanFrom _ _).seq fun _ => answers_pure _ _)

/-- Four times the number of tokens ahead, and three, is enough fuel for an expression. -/
theorem answers_within (fuel bound : Nat) :
    (∀ nesting, 4 * bound + 3 ≤ fuel → Answers 1 bound (expressionWithin fuel nesting)) ∧
    (∀ nesting, 4 * bound + 2 ≤ fuel → Answers 1 bound (chainWithin fuel nesting)) ∧
    (∀ nesting, 4 * bound + 1 ≤ fuel → Answers 1 bound (primaryWithin fuel nesting)) ∧
    (∀ nesting least left, 4 * bound + 1 ≤ fuel →
      Answers 0 bound (operationsWithin fuel nesting least left)) ∧
    (∀ nesting, 4 * bound + 4 ≤ fuel → Answers 1 bound (argumentsWithin fuel nesting)) := by
  induction fuel generalizing bound with
  | zero => refine ⟨?_, ?_, ?_, ?_, ?_⟩ <;> intros <;> omega
  | succ fuel ih =>
    have expression (b : Nat) (h : 4 * b + 3 ≤ fuel) nesting := (ih b).1 nesting h
    have chain (b : Nat) (h : 4 * b + 2 ≤ fuel) nesting := (ih b).2.1 nesting h
    have primary (b : Nat) (h : 4 * b + 1 ≤ fuel) nesting := (ih b).2.2.1 nesting h
    have operations (b : Nat) (h : 4 * b + 1 ≤ fuel) nesting least left :=
      (ih b).2.2.2.1 nesting least left h
    have arguments (b : Nat) (h : 4 * b + 4 ≤ fuel) nesting := (ih b).2.2.2.2 nesting h
    refine ⟨?_, ?_, ?_, ?_, ?_⟩
    · intro nesting h
      refine .ite ?_ (chain _ (by omega) _)
      exact fun _ _ => trivial
    · intro nesting h
      exact (primary _ (by omega) _).after fun _ _ => operations _ (by omega) _ _ _
    · intro nesting h
      refine (answers_take _ _ _).after fun pos taken => ?_
      obtain ⟨first, opening⟩ := taken
      cases opening with
      | number value => exact (answers_spanFrom _ _).seq fun _ => answers_pure _ _
      | identifier name =>
        exact answers_variableOrCall (fun _ => (arguments _ (by omega) _).loose) _ _ _
      | group => exact answers_grouping (fun _ => (chain _ (by omega) _).loose) _ _
      | conditional => exact answers_conditional (expression _ (by omega) _).loose _ _
      | loop => exact answers_forLoop (expression _ (by omega) _).loose _ _
    · intro nesting least left h
      refine answers_takeIf (fun pos token op => ?_) (answers_pure _ _)
      have later (least left) := operations (bound - 1) (by omega) nesting least left
      exact (primary (bound - 1) (by omega) nesting).loose.seq fun _ =>
        ((answers_peek _).seq fun _ => .ite (later _ _) (answers_pure _ _)).seq fun _ =>
        (answers_checked _ _ _ _).seq fun _ => later _ _
    · intro nesting h
      refine (expression _ (by omega) _).after fun _ _ => (answers_peek _).seq fun _ =>
        .ite (answers_pure _ _) ?_
      exact ((answers_take _ _ _).after fun _ _ =>
        (arguments _ (by omega) _).loose.seq fun _ => answers_pure _ _).loose

theorem answers_expressionWithin {fuel bound : Nat} (h : 4 * bound + 3 ≤ fuel)
    (nesting : Nesting) : Answers 1 bound (expressionWithin fuel nesting) :=
  (answers_within fuel bound).1 nesting h

theorem answers_parametersWithin {fuel bound : Nat} (h : bound < fuel) (function : String)
    (seen : List String) : Answers 0 bound (parametersWithin fuel function seen) := by
  induction fuel generalizing bound seen with
  | zero => omega
  | succ fuel ih =>
    refine answers_takeIf (fun pos _ _ => .ite (answers_fail _ _ _ _) ?_) (answers_pure _ _)
    exact answers_takeIf (fun _ _ _ => ih (by omega) _) (ih (by omega) _)

theorem answers_prototypeWithin {fuel bound : Nat} (h : bound < fuel) :
    Answers 1 bound (prototypeWithin fuel) :=
  (answers_name _ _).after fun pos _ => (answers_expect _ _ _).loose.seq fun _ =>
    (answers_parametersWithin (by omega) _ _).seq fun _ => (answers_expect _ _ _).loose.seq
    fun _ => (answers_spanFrom _ _).seq fun _ => answers_pure _ _

theorem answers_foreignWithin {fuel bound : Nat} (h : bound < fuel) :
    Answers 1 bound (foreignWithin fuel) :=
  (answers_expect _ _ _).after fun pos _ =>
    (answers_prototypeWithin (by omega)).loose.seq fun _ =>
    (answers_expect _ _ _).loose.seq fun _ => answers_pure _ _

theorem answers_definitionWithin {fuel bound : Nat} (h : 4 * bound + 3 ≤ fuel) (limit : Int) :
    Answers 1 bound (definitionWithin fuel limit) :=
  (answers_expect _ _ _).after fun pos _ =>
    (answers_prototypeWithin (by omega)).loose.seq fun _ =>
    (answers_expressionWithin (by omega) _).loose.seq fun _ =>
    (answers_expect _ _ _).loose.seq fun _ => answers_pure _ _

theorem answers_statementWithin {fuel bound : Nat} (h : 4 * bound + 3 ≤ fuel) (limit : Int) :
    Answers 1 bound (statementWithin fuel limit) := by
  have foreignCase := (@answers_foreignWithin fuel bound (by omega)).after
    fun _ p => answers_pure (bound - 1) (some (Statement.foreign p))
  have definitionCase := (answers_definitionWithin h limit).after
    fun _ d => answers_pure (bound - 1) (some (Statement.definition d))
  have emptyCase := (answers_expect bound (.punctuation .semicolon) none).after
    fun _ _ => answers_pure (bound - 1) (none : Option Statement)
  have expressionCase := (answers_expressionWithin h { limit }).after fun _ m =>
    (answers_expect (bound - 1) (.punctuation .semicolon) "after top-level expression").loose.seq
      fun _ => answers_pure (bound - 1) (some (Statement.expression m.expr))
  intro c hc
  unfold statementWithin
  change Leaves _ _ (Descent.bind peek _ c)
  unfold Descent.bind
  simp only [peek]
  cases c.current.kind with
  | keyword word =>
    cases word with
    | externWord => exact foreignCase c hc
    | defWord => exact definitionCase c hc
    | _ => exact expressionCase c hc
  | punctuation mark =>
    cases mark with
    | semicolon => exact emptyCase c hc
    | _ => exact expressionCase c hc
  | _ => exact expressionCase c hc

/-! ### Where prototypes leave the cursor -/

theorem moves_parametersWithin (fuel : Nat) (function : String) (seen : List String) :
    Moves (parametersWithin fuel function seen) := by
  induction fuel generalizing seen with
  | zero => exact moves_cutShort
  | succ fuel ih =>
    refine .takeIf (fun token parameter => ?_) (moves_pure _)
    split
    · exact moves_fail _ _
    · exact .takeIf (fun _ _ => ih _) (ih _)

theorem moves_prototypeWithin (fuel : Nat) : Moves (prototypeWithin fuel) :=
  (moves_take _ _).bind fun _ => (moves_expect _ _).bind fun _ =>
    (moves_parametersWithin _ _ _).bind fun _ => (moves_expect _ _).bind fun _ =>
    (moves_spanFrom _).bind fun _ => moves_pure _

theorem moves_foreignWithin (fuel : Nat) : Moves (foreignWithin fuel) :=
  (moves_expect _ _).bind fun _ => (moves_prototypeWithin _).bind fun _ =>
    (moves_expect _ _).bind fun _ => moves_pure _

end Formulary.Parser
