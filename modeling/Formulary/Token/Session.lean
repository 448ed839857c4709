import Formulary.Token.Lexer

/-!
# A shared lexer

A session is one text that is read step by step by several readers: directly, and through
iterators. All of them move the one cursor of the session. An iterator starts over from the
beginning of the text when its first token is asked for, not when it is made, and it is finished
for good once it has met the end of the text or a mistake.
-/

namespace Formulary.Lexer

/-- How far an iterator has come. -/
inductive Stage where
  | created
  | running
  | finished
deriving DecidableEq, Repr

/-- A text, its cursor, and the iterators made so far. -/
structure Session where
  filename : String
  source : List Char
  cursor : Cursor := { rest := source }
  iterators : List Stage := []

/-- What can be asked of a session. -/
inductive Command where
  | next
  | tokenize
  | reset
  | iterate
  | advance (iterator : Nat)

/-- What a session answers. -/
inductive Answer where
  | nothing
  | token (t : Option Token)
  | tokens (ts : List Token)
  | iterator (index : Nat)
  | failure (e : LexicalError)

namespace Session

/-- A session at the beginning of a text. -/
def start (source : String) (filename : String := "<unknown>") : Session :=
  { filename, source := source.toList }

/-- Go back to the beginning of the text. -/
def rewind (s : Session) : Session := { s with cursor := { rest := s.source } }

/-- Read one token at the cursor. -/
def readNext (s : Session) : Answer × Session :=
  match Lexer.next s.filename s.cursor with
  | .done after => (.token none, { s with cursor := after })
  | .token t after => (.token (some t), { s with cursor := after })
  | .failure e after => (.failure e, { s with cursor := after })

/-- Record how far an iterator has come. -/
def mark (s : Session) (index : Nat) (stage : Stage) : Session :=
  { s with iterators := s.iterators.set index stage }

/-- Ask an iterator for its next token. -/
def advance (s : Session) (index : Nat) : Answer × Session :=
  match s.iterators[index]? with
  | none | some .finished => (.token none, s)
  | some stage =>
    let s := if stage = .created then s.rewind else s
    match s.readNext with
    | (.token (some t), after) => (.token (some t), after.mark index .running)
    | (answer, after) => (answer, after.mark index .finished)

/-- Carry out one command. -/
def step (s : Session) : Command → Answer × Session
  | .next => s.readNext
  | .tokenize =>
    match tokensFrom s.filename s.rewind.cursor with
    | (.ok ts, after) => (.tokens ts, { s with cursor := after })
    | (.error e, after) => (.failure e, { s with cursor := after })
  | .reset => (.nothing, s.rewind)
  | .iterate => (.iterator s.iterators.length, { s with iterators := s.iterators ++ [.created] })
  | .advance index => s.advance index

end Session

end Formulary.Lexer
