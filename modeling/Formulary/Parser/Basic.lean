import Formulary.Parser.Grammar
import Formulary.Token.Lexer

/-!
# Reading programs

The parser reads a token list into statements and makes a sealed program of them. It stops at the
first mistake. What it has read up to there is kept in `Reading`, for those who want to follow its
progress; a program is made only where there is no mistake.

This is reading on a stack that is deep enough. The headroom that the parser asks for, and what it does
on any stack, is in `Formulary.Parser.OnStack`.
-/

namespace Formulary

/-- The nesting limit where none is asked for. -/
def defaultNestingLimit : Int := 128

namespace Parser

open Descent

/-- Read an expression at the cursor. -/
def expression (limit : Int) (c : Cursor) : Except SyntaxError Measured × Cursor :=
  finish (expressionWithin (4 * c.rest.length + 3) { limit }) c
    ((answers_expressionWithin (Nat.le_refl _) _).ne_cutShort (Nat.le_refl _))

/-- Read a prototype at the cursor. -/
def prototype (c : Cursor) : Except SyntaxError Prototype × Cursor :=
  finish (prototypeWithin (c.rest.length + 1)) c
    ((answers_prototypeWithin (Nat.lt_succ_self _)).ne_cutShort (Nat.le_refl _))

/-- Read a declaration of an outside function at the cursor. -/
def foreign (c : Cursor) : Except SyntaxError Prototype × Cursor :=
  finish (foreignWithin (c.rest.length + 1)) c
    ((answers_foreignWithin (Nat.lt_succ_self _)).ne_cutShort (Nat.le_refl _))

/-- Read a definition at the cursor. -/
def definition (limit : Int) (c : Cursor) : Except SyntaxError Definition × Cursor :=
  finish (definitionWithin (4 * c.rest.length + 3) limit) c
    ((answers_definitionWithin (Nat.le_refl _) _).ne_cutShort (Nat.le_refl _))

/-- Read a statement at the cursor. -/
def statement (limit : Int) (c : Cursor) : Except SyntaxError (Option Statement) × Cursor :=
  finish (statementWithin (4 * c.rest.length + 3) limit) c
    ((answers_statementWithin (Nat.le_refl _) _).ne_cutShort (Nat.le_refl _))

/-- What the parser has read: statements, the mistake that stopped it if there was one, and the
place where it stopped. -/
structure Reading where
  statements : List Statement
  mistake : Option SyntaxError
  cursor : Cursor

/-- Read statements up to the end of the tokens or the first mistake. Each statement takes a token
at least, so the number of steps is bounded by the number of tokens. -/
def statementsFrom (limit : Int) : Nat → List Statement → Cursor → Reading
  | 0, read, c => ⟨read.reverse, none, c⟩
  | steps + 1, read, c =>
    if c.rest.isEmpty then ⟨read.reverse, none, c⟩
    else
      match statement limit c with
      | (.error e, after) => ⟨read.reverse, some e, after⟩
      | (.ok s, after) => statementsFrom limit steps (s.toList ++ read) after

/-- Read all statements of a token list, on a stack that is deep enough. -/
def read (tokens : List Token) (limit : Int := defaultNestingLimit) : Reading :=
  statementsFrom limit (tokens.length + 1) [] (.start tokens)

/-- The program that was read, sealed, unless there was a mistake. -/
def Reading.program (r : Reading) : Except SyntaxError Program :=
  match r.mistake with
  | some e => .error e
  | none => .ok (Program.ofStatements r.statements).close

/-- The program of a token list. -/
def parse (tokens : List Token) (limit : Int := defaultNestingLimit) :
    Except SyntaxError Program :=
  (read tokens limit).program

end Parser

/-- A mistake in a source text, in its spelling or in its grammar. -/
inductive SourceError where
  | lexical (e : LexicalError)
  | grammatical (e : SyntaxError)

namespace SourceError

/-- Wording. -/
def diagnostic : SourceError → Diagnostic
  | lexical e => e.diagnostic
  | grammatical e => e.diagnostic

/-- The text of a mistake. -/
def render (e : SourceError) : String := e.diagnostic.render

end SourceError

/-- The program of a source text. -/
def Program.ofSource (source : String) (filename : String := "<string>")
    (limit : Int := defaultNestingLimit) : Except SourceError Program :=
  match Lexer.tokenize source filename with
  | .error e => .error (.lexical e)
  | .ok tokens =>
    match Parser.parse tokens limit with
    | .error e => .error (.grammatical e)
    | .ok p => .ok p

end Formulary
