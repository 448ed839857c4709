import Formulary.Parser.Basic
import Formulary.Stack

/-!
# Reading programs on a stack

This is reading as it is carried out: what is read, and in which order, is what
`Formulary.Parser.Grammar` says, and every part of it takes frames of the stack. Reading a whole list
asks for headroom, six frames for each level and for each group that the nesting limit allows. If the
system refuses that, nothing is read. If the stack runs out all the same, then the descent is cut short.

A level costs up to seven frames, since a chain of operators with three precedences goes two steps
deeper than one with a single precedence, and a group up to six. So the headroom does not always
suffice.
-/

namespace Formulary.Parser

open Descent

/-- The parts of reading that take frames of the stack: the use from outside and the list of
statements, under which all others stand, and those that stand under each other. Helpers stand alone;
so does the making of a mistake. -/
inductive Part where
  | use
  | statements
  | declaration
  | prototype
  | expression
  | chain
  | primary
  | form
  | operations
  | helper
  | mistake
deriving DecidableEq, Repr

/-- The frames that each part takes. -/
abbrev Frames := Part → Nat

namespace Frames

/-- Each part of the descent is a function of its own. The helpers look at a token by way of others,
and a mistake is worded when it is made. -/
def usual : Frames
  | .helper => 3
  | .mistake => 5
  | _ => 1

/-- No part takes any. -/
def none : Frames := fun _ => 0

end Frames

/-- Carry out a descent as a part that takes its frames, with room for its helpers or for its mistake.
It is cut short where there is no room. -/
def within {α : Type} (frames : Frames) (part : Part) (stack : Stack) (p : Stack → Descent α) :
    Descent α := fun c =>
  match stack.holding (frames part) with
  | none => .cutShort
  | some deeper =>
    match p deeper c with
    | .success a after =>
      if (deeper.holding (frames .helper)).isSome then .success a after else .cutShort
    | .failure e after =>
      if (deeper.holding (frames .mistake)).isSome then .failure e after else .cutShort
    | .cutShort => .cutShort

section

variable (frames : Frames)

mutual

/-- An expression. -/
def expressionOn : Nat → Stack → Nesting → Descent Measured
  | 0, _, _ => cutShort
  | fuel + 1, stack, nesting => within frames .expression stack fun stack =>
    if nesting.limit ≤ nesting.expressions then do
      let next ← peek
      fail (.nestingTooDeep nesting.limit) next
    else chainOn fuel stack { nesting with expressions := nesting.expressions + 1 }

/-- A chain of operators and primary expressions. -/
def chainOn : Nat → Stack → Nesting → Descent Measured
  | 0, _, _ => cutShort
  | fuel + 1, stack, nesting => within frames .chain stack fun stack => do
    let left ← primaryOn fuel stack nesting
    within frames .operations stack fun stack => operationsOn fuel stack nesting 0 left

/-- A primary expression. -/
def primaryOn : Nat → Stack → Nesting → Descent Measured
  | 0, _, _ => cutShort
  | fuel + 1, stack, nesting => within frames .primary stack fun stack => do
    let (first, opening) ← take opening? (.unexpected "expression")
    within frames .form stack fun stack =>
      match opening with
      | .number value => do
        let span ← spanFrom first
        return ⟨.number value span, 1, by simp [Expr.height]⟩
      | .identifier name =>
        variableOrCall nesting.limit (argumentsOn fuel stack nesting) first name
      | .group => grouping nesting (chainOn fuel stack) first
      | .conditional => conditional nesting.limit (expressionOn fuel stack nesting) first
      | .loop => forLoop nesting.limit (expressionOn fuel stack nesting) first

/-- Fold the operators after `left`. The operators after the first are folded in the same frame; a
right operand that takes an operator does it in a frame of its own. -/
def operationsOn : Nat → Stack → Nesting → Nat → Measured → Descent Measured
  | 0, _, _, _, _ => cutShort
  | fuel + 1, stack, nesting, least, left =>
    takeIf (binding? least)
      (fun token op => do
        let right ← primaryOn fuel stack nesting
        let right ← rightOperand op (fun right => within frames .operations stack fun stack =>
          operationsOn fuel stack nesting (op.precedence + 1) right) right
        let node ← checked nesting.limit token (.binary op left right)
        operationsOn fuel stack nesting least node)
      (pure left)

/-- The arguments of a call up to its closing parenthesis, one or more. -/
def argumentsOn : Nat → Stack → Nesting → Descent (List Measured)
  | 0, _, _ => cutShort
  | fuel + 1, stack, nesting => do
    let value ← expressionOn fuel stack nesting
    let next ← peek
    if next.kind = .punctuation .rightParen then return [value]
    else
      let _ ← take (ofKind (.punctuation .comma))
        (.expected (.phrase "',' or ')'") "in argument list")
      let rest ← argumentsOn fuel stack nesting
      return value :: rest

end

/-- A declaration of an outside function. -/
def foreignOn (fuel : Nat) (stack : Stack) : Descent Prototype :=
  within frames .declaration stack fun stack => do
    let _ ← expect (.keyword .externWord)
    let prototype ← within frames .prototype stack fun _ => prototypeWithin fuel
    let _ ← expect (.punctuation .semicolon) "after extern declaration"
    return prototype

/-- A definition. -/
def definitionOn (fuel : Nat) (stack : Stack) (limit : Int) : Descent Definition :=
  within frames .declaration stack fun stack => do
    let _ ← expect (.keyword .defWord)
    let prototype ← within frames .prototype stack fun _ => prototypeWithin fuel
    let body ← expressionOn frames fuel stack { limit }
    let _ ← expect (.punctuation .semicolon) "after function definition"
    return { prototype, body := body.expr }

/-- A statement. -/
def statementOn (fuel : Nat) (stack : Stack) (limit : Int) : Descent (Option Statement) :=
  within frames .statements stack fun stack => do
    let next ← peek
    match next.kind with
    | .keyword .externWord => do
      let prototype ← foreignOn frames fuel stack
      return some (.foreign prototype)
    | .keyword .defWord => do
      let definition ← definitionOn frames fuel stack limit
      return some (.definition definition)
    | .punctuation .semicolon => do
      let _ ← expect (.punctuation .semicolon)
      return none
    | _ => do
      let e ← expressionOn frames fuel stack { limit }
      let _ ← expect (.punctuation .semicolon) "after top-level expression"
      return some (.expression e.expr)

end

/-- Why reading stops before the end: for a mistake, or for the stack. -/
inductive Halt where
  | mistake (e : SyntaxError)
  | stack (e : Stack.Error)

/-- What the parser has read on a stack: statements, what stopped it if something did, and the place
where it stopped. -/
structure ReadingOn where
  statements : List Statement
  halt : Option Halt
  cursor : Cursor

/-- Read statements up to the end of the tokens or the first mistake, or until the stack runs out. -/
def statementsFromOn (frames : Frames) (stack : Stack) (limit : Int) :
    Nat → List Statement → Cursor → ReadingOn
  | 0, read, c => ⟨read.reverse, none, c⟩
  | steps + 1, read, c =>
    if c.rest.isEmpty then ⟨read.reverse, none, c⟩
    else
      match statementOn frames (4 * c.rest.length + 3) stack limit c with
      | .success s after => statementsFromOn frames stack limit steps (s.toList ++ read) after
      | .failure e after => ⟨read.reverse, some (.mistake e), after⟩
      | .cutShort => ⟨read.reverse, some (.stack .exhausted), c⟩

/-- The frames of headroom for each level and each group that a nesting limit allows. -/
def framesPerLevel : Int := 6

/-- The headroom for a nesting limit. -/
def headroom (limit : Int) : Int := 2 * limit * framesPerLevel

/-- Read all statements of a token list, with headroom for the nesting limit. -/
def readOn (frames : Frames) (stack : Stack) (tokens : List Token)
    (limit : Int := defaultNestingLimit) : ReadingOn :=
  match stack.holding (frames .use) with
  | none => ⟨[], some (.stack .exhausted), .start tokens⟩
  | some deeper =>
    match deeper.raised (headroom limit) with
    | .error e => ⟨[], some (.stack e), .start tokens⟩
    | .ok higher => statementsFromOn frames higher limit (tokens.length + 1) [] (.start tokens)

/-- The program that was read, sealed, unless something stopped the parser. -/
def ReadingOn.program (r : ReadingOn) : Except Halt Program :=
  match r.halt with
  | some halt => .error halt
  | none => .ok (Program.ofStatements r.statements).close

/-- The program of a token list. -/
def parseOn (frames : Frames) (stack : Stack) (tokens : List Token)
    (limit : Int := defaultNestingLimit) : Except Halt Program :=
  (readOn frames stack tokens limit).program

end Formulary.Parser

namespace Formulary

/-- What stops a source text from being read: a mistake in it, or the stack. -/
inductive SourceHalt where
  | mistake (e : SourceError)
  | stack (e : Stack.Error)

/-- The program of a source text. -/
def Program.ofSourceOn (frames : Parser.Frames) (stack : Stack) (source : String)
    (filename : String := "<string>") (limit : Int := defaultNestingLimit) :
    Except SourceHalt Program :=
  match Lexer.tokenize source filename with
  | .error e => .error (.mistake (.lexical e))
  | .ok tokens =>
    match Parser.parseOn frames stack tokens limit with
    | .error (.mistake e) => .error (.mistake (.grammatical e))
    | .error (.stack e) => .error (.stack e)
    | .ok p => .ok p

end Formulary
