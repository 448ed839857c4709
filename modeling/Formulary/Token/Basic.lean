import Formulary.Location
import Formulary.Number.Notation

/-!
# Tokens

The words of the language. A token has a content (what it means to the grammar), the spelling it
was read from, and its location if it came from a text. Only the content counts for equality.
-/

namespace Formulary

/-- The reserved words. -/
inductive Keyword where
  | defWord
  | externWord
  | ifWord
  | thenWord
  | elseWord
  | forWord
  | inWord
deriving DecidableEq, Repr

namespace Keyword

/-- The reserved words, in the order in which the language lists them. -/
def all : List Keyword := [defWord, externWord, ifWord, thenWord, elseWord, forWord, inWord]

/-- The spelling of a reserved word. -/
def text : Keyword → String
  | defWord => "def"
  | externWord => "extern"
  | ifWord => "if"
  | thenWord => "then"
  | elseWord => "else"
  | forWord => "for"
  | inWord => "in"

/-- The reserved word with a given spelling. -/
def ofText? (word : String) : Option Keyword := all.find? fun k => k.text == word

theorem ofText?_text (k : Keyword) : ofText? k.text = some k := by cases k <;> decide

end Keyword

/-- The marks that are no operators. -/
inductive Punctuation where
  | leftParen
  | rightParen
  | comma
  | semicolon
deriving DecidableEq, Repr

namespace Punctuation

/-- The marks, in the order in which the language lists them. -/
def all : List Punctuation := [leftParen, rightParen, comma, semicolon]

/-- The character of a mark. -/
def char : Punctuation → Char
  | leftParen => '('
  | rightParen => ')'
  | comma => ','
  | semicolon => ';'

/-- The mark with a given character. -/
def ofChar? (c : Char) : Option Punctuation := all.find? fun p => p.char == c

theorem ofChar?_char (p : Punctuation) : ofChar? p.char = some p := by cases p <;> decide

end Punctuation

/-- The binary operators. -/
inductive Operator where
  | plus
  | minus
  | times
  | divide
  | modulo
  | equals
  | lessThan
deriving DecidableEq, Repr

namespace Operator

/-- The operators, in the order in which the language lists them. -/
def all : List Operator := [plus, minus, times, divide, modulo, equals, lessThan]

/-- The character of an operator. -/
def char : Operator → Char
  | plus => '+'
  | minus => '-'
  | times => '*'
  | divide => '/'
  | modulo => '%'
  | equals => '='
  | lessThan => '<'

/-- The operator with a given character. -/
def ofChar? (c : Char) : Option Operator := all.find? fun o => o.char == c

/-- The name of an operator in constructor text. -/
def label : Operator → String
  | plus => "PLUS"
  | minus => "MINUS"
  | times => "TIMES"
  | divide => "DIVIDE"
  | modulo => "MODULO"
  | equals => "EQUALS"
  | lessThan => "LESS_THAN"

/-- How tightly an operator binds: comparisons least, then sums, then products. -/
def precedence : Operator → Nat
  | equals | lessThan => 10
  | plus | minus => 20
  | times | divide | modulo => 40

/-- The levels of precedence, with the one below all operators first. -/
def levels : List (String × Int) :=
  [("NONE", -1), ("COMPARISON", 10), ("TERM", 20), ("FACTOR", 40)]

/-- The spelling of an operator. -/
def text (o : Operator) : String := o.char.toString

/-- Constructor text of an operator. -/
def inspect (o : Operator) : String := s!"<BinaryOperator.{o.label}: '{o.text}'>"

theorem ofChar?_char (o : Operator) : ofChar? o.char = some o := by cases o <;> decide

end Operator

/-- The kinds of tokens that the grammar tells apart. -/
inductive TokenKind where
  | endOfInput
  | number
  | identifier
  | keyword (word : Keyword)
  | operator
  | punctuation (mark : Punctuation)
deriving DecidableEq, Repr

namespace TokenKind

/-- All kinds of tokens, in the order in which the language lists them. -/
def all : List TokenKind :=
  [endOfInput, number, identifier] ++ Keyword.all.map keyword ++ [operator]
    ++ Punctuation.all.map punctuation

/-- The name of a kind in the text of a token. -/
def name : TokenKind → String
  | endOfInput => "EOF"
  | number => "NUMBER"
  | identifier => "IDENTIFIER"
  | keyword word => word.text.toUpper
  | operator => "OPERATOR"
  | punctuation .leftParen => "LEFT_PAREN"
  | punctuation .rightParen => "RIGHT_PAREN"
  | punctuation .comma => "COMMA"
  | punctuation .semicolon => "SEMICOLON"

/-- The spelling of the tokens of a kind that has only one, else a word for the kind. -/
def plainText : TokenKind → String
  | endOfInput => "end of input"
  | number => "number"
  | identifier => "identifier"
  | keyword word => word.text
  | operator => "operator"
  | punctuation mark => mark.char.toString

/-- How a diagnostic names a token that it expected: fixed spellings stand in quotes. -/
def describe (k : TokenKind) : String :=
  match k with
  | keyword _ | punctuation _ => s!"'{k.plainText}'"
  | _ => k.plainText

end TokenKind

/-- What a token means to the grammar. -/
inductive TokenContent where
  | endOfInput
  | number (value : Float)
  | identifier (name : String)
  | keyword (word : Keyword)
  | operator (symbol : Operator)
  | punctuation (mark : Punctuation)

namespace TokenContent

/-- The kind of a content. -/
def kind : TokenContent → TokenKind
  | endOfInput => .endOfInput
  | number _ => .number
  | identifier _ => .identifier
  | keyword word => .keyword word
  | operator _ => .operator
  | punctuation mark => .punctuation mark

/-- The usual spelling of a content. -/
def plainText : TokenContent → String
  | number value => Number.natural value
  | identifier name => name
  | operator symbol => symbol.text
  | content => content.kind.plainText

/-- Equality of contents; numbers are compared as numbers. -/
def beq : TokenContent → TokenContent → Bool
  | number a, number b => a == b
  | identifier a, identifier b => a == b
  | operator a, operator b => a == b
  | endOfInput, endOfInput => true
  | keyword a, keyword b => a == b
  | punctuation a, punctuation b => a == b
  | _, _ => false

instance : BEq TokenContent := ⟨beq⟩

end TokenContent

/-- A token with its spelling and, if it came from a text, its location. -/
structure Token where
  content : TokenContent
  lexeme : String
  location : Option Location := none

namespace Token

/-- A token with the usual spelling of its content. -/
def ofContent (content : TokenContent) : Token := { content, lexeme := content.plainText }

/-- The kind of a token. -/
def kind (t : Token) : TokenKind := t.content.kind

/-- Tokens are equal when their contents are. -/
instance : BEq Token := ⟨fun a b => a.content == b.content⟩

/-- The operator that a token stands for, if it is one. -/
def operator? (t : Token) : Option Operator :=
  match t.content with
  | .operator symbol => some symbol
  | _ => none

/-- Is the token a reserved word? -/
def isKeyword (t : Token) : Bool :=
  match t.content with
  | .keyword _ => true
  | _ => false

/-- Is the token an operator? -/
def isOperator (t : Token) : Bool := t.operator?.isSome

/-- Is the token a name? -/
def isIdentifier (t : Token) : Bool :=
  match t.content with
  | .identifier _ => true
  | _ => false

/-- How a diagnostic names a token that it found. -/
def describe (t : Token) : String :=
  match t.content with
  | .endOfInput => "end of input"
  | _ => s!"'{t.lexeme}'"

/-- Constructor text of the value that a token carries, if it carries one. -/
def inspectValue? (t : Token) : Option String :=
  match t.content with
  | .number value => some (Number.natural value)
  | .identifier name => some (Text.quoted name)
  | .operator symbol => some symbol.inspect
  | _ => none

/-- Kind and spelling, and the value unless it is the spelling itself. -/
def render (t : Token) : String :=
  let spelling := s!"{t.kind.name}({Text.quoted t.lexeme}"
  match t.content, t.inspectValue? with
  | .identifier name, some value =>
    if name = t.lexeme then s!"{spelling})" else s!"{spelling} -> {value})"
  | _, some value => s!"{spelling} -> {value})"
  | _, none => s!"{spelling})"

/-- Constructor text of a token: kind, spelling, value and location. -/
def inspect (t : Token) : String :=
  let value := t.inspectValue?.getD "None"
  let place := (t.location.map Location.inspect).getD "None"
  s!"Token({t.kind.name}, {Text.quoted t.lexeme}, {value}, {place})"

end Token

end Formulary
