import Formulary.Parser.Basic

/-!
# The parser with its state

The descents of the grammar are handed the nesting they are in and hand back nodes that know their
height. The parser itself keeps both in its state: the expressions and the groups that are open are
counted up on the way in and down on the way out, whether the way out is a value or a mistake; and
the height of a node with parts is put on record under the identity of the node, where it is looked
up when the node becomes a part of another one. Nothing takes a height off the record but the
reading of a whole program, so what one call leaves behind is there when the next one begins.

The nodes of a call that ends with a value are kept. Those of a call that ends with a mistake are
gone, and their identities may come again. Which of them a new node takes, if any, is up to the system.
-/

namespace Formulary.Parser

/-- A node as it was made, with its identity. -/
structure Node where
  identity : Nat
  expr : Expr

/-- How the system gives out identities: from how many nodes were made before and the identities that
are free again, the one that the next node takes, if it takes one of these. -/
abbrev Reuse := Nat → List Nat → Option Nat

/-- Heights by identity, with what the system knows of identities: how many nodes were made, the least
identity that was never given out, those given out in the call under way, and those that are free again.
What is on record is a height, of an identity that was given out. -/
structure HeightTable where
  reuse : Reuse := fun _ _ => none
  entries : List (Nat × Nat) := []
  made : Nat := 0
  next : Nat := 0
  taken : List Nat := []
  free : List Nat := []
  entries_lt : ∀ e ∈ entries, e.1 < next ∧ 1 ≤ e.2 := by simp
  taken_lt : ∀ i ∈ taken, i < next := by simp
  free_lt : ∀ i ∈ free, i < next := by simp

namespace HeightTable

/-- The height of a node: that on record, and one if there is none. -/
def height (t : HeightTable) (identity : Nat) : Nat := (t.entries.lookup identity).getD 1

/-- The greatest height of some nodes, zero if there are none. -/
def greatest (t : HeightTable) : List Node → Nat
  | [] => 0
  | node :: rest => max (t.height node.identity) (t.greatest rest)

/-- The identity that the next node takes. -/
def identity (t : HeightTable) : Nat :=
  match t.reuse t.made t.free with
  | some i => if i ∈ t.free then i else t.next
  | none => t.next

/-- An identity is free again, or it was never given out. -/
theorem identity_free_or_next (t : HeightTable) : t.identity ∈ t.free ∨ t.identity = t.next := by
  unfold identity
  split
  · split
    · next h => exact .inl h
    · exact .inr rfl
  · exact .inr rfl

/-- After a node was made of which nothing goes on record. -/
def leaf (t : HeightTable) : HeightTable where
  reuse := t.reuse
  entries := t.entries
  made := t.made + 1
  next := max t.next (t.identity + 1)
  taken := t.identity :: t.taken
  free := t.free.filter (· ≠ t.identity)
  entries_lt e he := ⟨Nat.lt_of_lt_of_le (t.entries_lt e he).1 (Nat.le_max_left _ _),
    (t.entries_lt e he).2⟩
  taken_lt i hi := by
    rcases List.mem_cons.mp hi with rfl | hi
    · exact Nat.le_max_right _ _
    · exact Nat.lt_of_lt_of_le (t.taken_lt i hi) (Nat.le_max_left _ _)
  free_lt i hi := Nat.lt_of_lt_of_le (t.free_lt i (List.mem_filter.mp hi).1) (Nat.le_max_left _ _)

/-- After a node was made whose height goes on record. -/
def record (t : HeightTable) (height : Nat) (positive : 1 ≤ height) : HeightTable where
  reuse := t.reuse
  entries := (t.identity, height) :: t.entries
  made := t.leaf.made
  next := t.leaf.next
  taken := t.leaf.taken
  free := t.leaf.free
  entries_lt e he := by
    rcases List.mem_cons.mp he with rfl | he
    · exact ⟨t.leaf.taken_lt _ List.mem_cons_self, positive⟩
    · exact t.leaf.entries_lt e he
  taken_lt := t.leaf.taken_lt
  free_lt := t.leaf.free_lt

/-- The record wiped. -/
def wiped (t : HeightTable) : HeightTable where
  reuse := t.reuse
  made := t.made
  next := t.next
  taken := t.taken
  free := t.free
  taken_lt := t.taken_lt
  free_lt := t.free_lt

/-- After a call whose nodes are kept. -/
def kept (t : HeightTable) : HeightTable where
  reuse := t.reuse
  entries := t.entries
  made := t.made
  next := t.next
  free := t.free
  entries_lt := t.entries_lt
  free_lt := t.free_lt

/-- After a call whose nodes are gone. -/
def dropped (t : HeightTable) : HeightTable where
  reuse := t.reuse
  entries := t.entries
  made := t.made
  next := t.next
  free := t.taken ++ t.free
  entries_lt := t.entries_lt
  free_lt i hi := (List.mem_append.mp hi).elim (t.taken_lt i) (t.free_lt i)

end HeightTable

/-- A token list being read, with the nesting limit: the cursor, how many expressions and how many
grouping parentheses are open, and the heights on record. -/
structure State where
  tokens : List Token
  limit : Int := defaultNestingLimit
  cursor : Cursor := .start tokens
  depth : Nat := 0
  groups : Nat := 0
  heights : HeightTable := {}

/-- The cursor back at the first token, with nothing open and nothing on record. -/
def State.restarted (s : State) : State :=
  { s with cursor := .start s.tokens, depth := 0, groups := 0, heights := s.heights.wiped }

/-- After a call that ends with a value. -/
def State.keeping (s : State) : State := { s with heights := s.heights.kept }

/-- After a call that ends with a mistake. -/
def State.dropping (s : State) : State := { s with heights := s.heights.dropped }

/-- Nothing is open. -/
def State.Closed (s : State) : Prop := s.depth = 0 ∧ s.groups = 0

/-- What a reader comes to. A mistake leaves a state behind as a value does. -/
inductive Result (α : Type) where
  | value (a : α) (after : State)
  | mistake (e : SyntaxError) (after : State)
  | cutShort

namespace Result

/-- Change the state that is left behind, whatever the reader came to. -/
def leaving {α : Type} (change : State → State) : Result α → Result α
  | value a after => value a (change after)
  | mistake e after => mistake e (change after)
  | cutShort => cutShort

/-- Not cut short, and nothing is open in the state that is left behind. -/
def Closed {α : Type} : Result α → Prop
  | value _ after => after.Closed
  | mistake _ after => after.Closed
  | cutShort => False

end Result

/-- A reader of tokens that keeps a state. -/
def Reader (α : Type) : Type := State → Result α

namespace Reader

variable {α β : Type}

/-- Run one reader after another. -/
protected def bind (p : Reader α) (f : α → Reader β) : Reader β := fun s =>
  match p s with
  | .value a after => f a after
  | .mistake e after => .mistake e after
  | .cutShort => .cutShort

instance : Monad Reader where
  pure a s := .value a s
  bind := Reader.bind

/-- Out of fuel. -/
def cutShort : Reader α := fun _ => .cutShort

/-- A descent that depends on no more than the cursor. -/
def lift (p : Descent α) : Reader α := fun s =>
  match p s.cursor with
  | .success a after => .value a { s with cursor := after }
  | .failure e after => .mistake e { s with cursor := after }
  | .cutShort => .cutShort

/-- Take the token after the cursor if it is one of those chosen, and go on with it; else go on
without taking one. -/
def takeIf (choose : Token → Option α) (taken : Token → α → Reader β) (otherwise : Reader β) :
    Reader β := fun s =>
  match s.cursor.rest with
  | [] => otherwise s
  | t :: rest =>
    match choose t with
    | some a => taken t a { s with cursor := ⟨t :: s.cursor.consumed, rest⟩ }
    | none => otherwise s

/-- Fail, leaving the cursor where it is. -/
def fail (cause : SyntaxCause) (token : Token) : Reader α := lift (Descent.fail cause token)

/-- The token after the cursor. -/
def peek : Reader Token := lift Descent.peek

/-- Take a token of the given kind, or fail. -/
def expect (k : TokenKind) (context : Option String := none) : Reader Token :=
  lift (Descent.expect k context)

/-- The span from a token to the last token taken. -/
def spanFrom (first : Token) : Reader (Option Span) := lift (Descent.spanFrom first)

/-- Read on unless as many are open already as the limit allows. The token is the one to blame. -/
def limited (opened : State → Nat) (blame : State → Token) (p : Reader α) : Reader α := fun s =>
  if s.limit ≤ opened s then fail (.nestingTooDeep s.limit) (blame s) s else p s

/-- Change the state on the way in, and on the way out again, whatever the reader comes to. -/
def between (enter leave : State → State) (p : Reader α) : Reader α := fun s =>
  (p (enter s)).leaving leave

/-- With one more expression open. -/
def nested (p : Reader α) : Reader α :=
  between (fun s => { s with depth := s.depth + 1 }) (fun s => { s with depth := s.depth - 1 }) p

/-- With one more group open. -/
def grouped (p : Reader α) : Reader α :=
  between (fun s => { s with groups := s.groups + 1 })
    (fun s => { s with groups := s.groups - 1 }) p

/-- Make a node without parts. -/
def make (expr : Expr) : Reader Node := fun s =>
  .value ⟨s.heights.identity, expr⟩ { s with heights := s.heights.leaf }

/-- Make a node with parts unless it has too many levels. The token is the one to blame. -/
def build (blame : Token) (parts : List Node) (expr : Expr) : Reader Node := fun s =>
  let height := 1 + s.heights.greatest parts
  if s.limit < height then
    fail (.nestingTooDeep s.limit) blame { s with heights := s.heights.leaf }
  else .value ⟨s.heights.identity, expr⟩
    { s with heights := s.heights.record height (Nat.le_add_right 1 _) }

/-- The part of a condition after `if`. -/
def conditional (expression : Reader Node) (first : Token) : Reader Node := do
  let condition ← expression
  let _ ← expect (.keyword .thenWord) "after 'if' condition"
  let consequent ← expression
  let _ ← expect (.keyword .elseWord) "after 'then' branch"
  let alternative ← expression
  let span ← spanFrom first
  build first [condition, consequent, alternative]
    (.cond condition.expr consequent.expr alternative.expr span)

/-- The step of a loop, if a comma announces one. -/
def loopStep (expression : Reader Node) : Reader (Option Node) :=
  takeIf (Descent.ofKind (.punctuation .comma))
    (fun _ _ => do
      let step ← expression
      return some step)
    (pure none)

/-- The part of a loop after `for`. -/
def forLoop (expression : Reader Node) (first : Token) : Reader Node := do
  let counter ← lift (name "after 'for'")
  let _ ← lift (Descent.take (ofOperator .equals)
    (.expected (.phrase "'='") "after loop variable"))
  let start ← expression
  let _ ← expect (.punctuation .comma) "after loop start value"
  let stop ← expression
  let step ← loopStep expression
  let _ ← expect (.keyword .inWord) "before loop body"
  let body ← expression
  let span ← spanFrom first
  build first (start :: stop :: step.toList ++ [body])
    (.loop counter.2 start.expr stop.expr (step.map Node.expr) body.expr span)

/-- The part of a group after `(`. -/
def grouping (chain : Reader Node) (first : Token) : Reader Node :=
  limited State.groups (fun _ => first) do
    let inner ← grouped chain
    let _ ← expect (.punctuation .rightParen) "after parenthesized expression"
    return inner

/-- No arguments if a closing parenthesis follows, else those that are there. -/
def argumentsIfAny (arguments : Reader (List Node)) : Reader (List Node) := do
  let next ← peek
  if next.kind = .punctuation .rightParen then return [] else arguments

/-- The part of a call after its opening parenthesis. -/
def callArguments (arguments : Reader (List Node)) (first : Token) (name : String) :
    Reader Node := do
  let values ← argumentsIfAny arguments
  let _ ← expect (.punctuation .rightParen) "after arguments"
  let span ← spanFrom first
  build first values (.call name (values.map Node.expr) span)

/-- A variable. -/
def variableRef (first : Token) (name : String) : Reader Node := do
  let span ← spanFrom first
  make (.var name span)

/-- The part of a name after the name itself: a call if a parenthesis follows. -/
def variableOrCall (arguments : Reader (List Node)) (first : Token) (name : String) :
    Reader Node :=
  takeIf (Descent.ofKind (.punctuation .leftParen))
    (fun _ _ => callArguments arguments first name) (variableRef first name)

/-- A right operand, after the operators that bind more tightly than the one before it have taken
it. -/
def rightOperand (op : Operator) (operations : Node → Reader Node) (right : Node) :
    Reader Node := do
  let following ← peek
  if (binding? (op.precedence + 1) following).isSome then operations right else return right

mutual

/-- An expression. -/
def expression : Nat → Reader Node
  | 0 => cutShort
  | fuel + 1 => limited State.depth (fun s => s.cursor.current) (nested (chain fuel))

/-- A chain of operators and primary expressions. -/
def chain : Nat → Reader Node
  | 0 => cutShort
  | fuel + 1 => do
    let left ← primary fuel
    operations fuel 0 left

/-- A primary expression. -/
def primary : Nat → Reader Node
  | 0 => cutShort
  | fuel + 1 => do
    let (first, opening) ← lift (Descent.take opening? (.unexpected "expression"))
    match opening with
    | .number value => do
      let span ← spanFrom first
      make (.number value span)
    | .identifier name => variableOrCall (arguments fuel) first name
    | .group => grouping (chain fuel) first
    | .conditional => conditional (expression fuel) first
    | .loop => forLoop (expression fuel) first

/-- Fold the operators after `left` that bind at least as tightly as `least`. Where the operator
after a right operand binds more tightly, the right operand takes it first. -/
def operations : Nat → Nat → Node → Reader Node
  | 0, _, _ => cutShort
  | fuel + 1, least, left =>
    takeIf (binding? least)
      (fun token op => do
        let right ← primary fuel
        let right ← rightOperand op (operations fuel (op.precedence + 1)) right
        let node ← build token [left, right]
          (.binary op left.expr right.expr (Span.join? left.expr.span right.expr.span))
        operations fuel least node)
      (pure left)

/-- The arguments of a call up to its closing parenthesis, one or more. -/
def arguments : Nat → Reader (List Node)
  | 0 => cutShort
  | fuel + 1 => do
    let value ← expression fuel
    let next ← peek
    if next.kind = .punctuation .rightParen then return [value]
    else
      let _ ← lift (Descent.take (Descent.ofKind (.punctuation .comma))
        (.expected (.phrase "',' or ')'") "in argument list"))
      let rest ← arguments fuel
      return value :: rest

end

/-- A definition. -/
def definition (fuel : Nat) : Reader Definition := do
  let _ ← expect (.keyword .defWord)
  let prototype ← lift (prototypeWithin fuel)
  let body ← expression fuel
  let _ ← expect (.punctuation .semicolon) "after function definition"
  return { prototype, body := body.expr }

/-- A statement. A semicolon alone is an empty one. -/
def statement (fuel : Nat) : Reader (Option Statement) := do
  let next ← peek
  match next.kind with
  | .keyword .externWord => do
    let prototype ← lift (foreignWithin fuel)
    return some (.foreign prototype)
  | .keyword .defWord => do
    let definition ← definition fuel
    return some (.definition definition)
  | .punctuation .semicolon => do
    let _ ← expect (.punctuation .semicolon)
    return none
  | _ => do
    let e ← expression fuel
    let _ ← expect (.punctuation .semicolon) "after top-level expression"
    return some (.expression e.expr)

/-- The statements up to the end of the tokens, behind those already read, which are given in
reverse. Each takes a token at least, so the number of steps is bounded by the number of tokens. -/
def statements : Nat → List Statement → Reader (List Statement)
  | 0, read => pure read.reverse
  | steps + 1, read => fun s =>
    if s.cursor.rest.isEmpty then .value read.reverse s
    else
      (do
        let next ← statement (4 * s.cursor.rest.length + 3)
        statements steps (next.toList ++ read) : Reader (List Statement)) s

/-- Start over. -/
def restart : Reader Unit := fun s => .value () s.restarted

/-- Wipe the record. -/
def wipe : Reader Unit := fun s => .value () { s with heights := s.heights.wiped }

/-- A whole program, read from the first token on, and sealed. -/
def program (steps : Nat) : Reader Program := do
  restart
  let read ← statements steps []
  wipe
  return (Program.ofStatements read).close

end Reader

end Formulary.Parser
