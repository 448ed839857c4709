import Formulary.Diagnostic
import Formulary.Token.Basic

/-!
# Syntax errors

A syntax error is a cause and the token at which it was found. The end of the input counts as a
token of its own.
-/

namespace Formulary

/-- What the grammar asked for: a kind of token, or something described in words. -/
inductive Expectation where
  | kind (k : TokenKind)
  | phrase (text : String)
deriving DecidableEq, Repr

namespace Expectation

/-- How a message names what was expected. -/
def describe : Expectation → String
  | kind k => k.describe
  | phrase text => text

/-- What to do about a token that is missing. -/
def suggestions : Expectation → List String
  | kind (.punctuation .semicolon) => ["Add a semicolon ';' to end the statement"]
  | kind (.punctuation .rightParen) => ["Add a closing parenthesis ')'"]
  | kind (.punctuation .leftParen) => ["Add an opening parenthesis '(' after the function name"]
  | kind (.punctuation .comma) => ["Separate call arguments with ','"]
  | kind (.keyword .thenWord) => ["An 'if' needs a 'then' branch"]
  | kind (.keyword .elseWord) => ["An 'if' needs an 'else' branch; both branches are required"]
  | kind (.keyword .inWord) => ["Add 'in' before the loop body"]
  | kind .identifier => ["Function and parameter names must be identifiers"]
  | _ => []

end Expectation

/-- Why a list of tokens is no program. -/
inductive SyntaxCause where
  | unexpected (context : String)
  | expected (what : Expectation) (context : Option String)
  | duplicateParameter (function parameter : String)
  | nestingTooDeep (limit : Int)
deriving DecidableEq, Repr

/-- A cause and the token at which it was found. -/
structure SyntaxError where
  cause : SyntaxCause
  token : Token

namespace SyntaxError

/-- Is the error one of nesting? -/
def IsNesting (e : SyntaxError) : Prop := ∃ limit, e.cause = .nestingTooDeep limit

/-- Hints on a token that starts nothing. -/
def unexpectedHints (t : Token) : List String :=
  match t.kind with
  | .endOfInput => ["The input ended in the middle of an expression"]
  | .operator => ["Binary operators need a left operand; there are no unary operators"]
  | .keyword .thenWord | .keyword .elseWord | .keyword .inWord =>
    ["Check for a missing operand before this keyword"]
  | _ => []

/-- Wording. -/
def diagnostic (e : SyntaxError) : Diagnostic :=
  let found := e.token.describe
  match e.cause with
  | .unexpected context =>
    { message := s!"Unexpected {found} in {context}"
      location := e.token.location
      code := some "P001"
      help := some s!"A {context} cannot start with {found}."
      suggestions := unexpectedHints e.token }
  | .expected what context =>
    let asked := what.describe
    let place := match context with
      | none | some "" => ""
      | some text => s!" {text}"
    { message := s!"Expected {asked}, found {found}{place}"
      location := e.token.location
      code := some "P002"
      help := some
        s!"The parser expected to see {asked} at this position, but found {found} instead."
      suggestions := what.suggestions }
  | .duplicateParameter function parameter =>
    { message := s!"Duplicate parameter '{parameter}' in prototype of '{function}'"
      location := e.token.location
      code := some "P004"
      help := some "Each parameter of a function must have a distinct name."
      suggestions := [s!"Rename one of the '{parameter}' parameters"] }
  | .nestingTooDeep limit =>
    { message := s!"Expression nesting exceeds the maximum depth of {limit}"
      location := e.token.location
      code := some "P006"
      help := some <|
        "The parser is recursive; deeply nested expressions are rejected before they " ++
          "exhaust the stack."
      suggestions :=
        ["Split the expression into helper functions", "Raise Parser(max_depth=...)"] }

/-- The text of an error. -/
def render (e : SyntaxError) : String := e.diagnostic.render

end SyntaxError

end Formulary
