import Formulary.Diagnostic
import Formulary.Text.Alphabetic
import Formulary.Text.Blank
import Formulary.Token.Basic
import Formulary.Token.Numeral

/-!
# Reading tokens

Source text is a sequence of words, marks and operators with gaps between them. A gap holds blanks
and comments, each of which runs from `#` to the end of its line. A word is a longest run of ASCII
letters, digits, underscores and (not at its start) points. A word that starts with a digit must
spell a number; any other word is reserved or a name.

Reading stops at the first mistake: at a character that starts no token, which stays unread, or
behind a word that starts with a digit and spells no finite number.
-/

namespace Formulary

/-- A mistake in the spelling of source text, with its place if that is known. -/
inductive LexicalError where
  | invalidCharacter (char : Char) (location : Option Location)
  | invalidNumber (text : String) (overflow : Bool) (location : Option Location)
deriving DecidableEq, Repr

namespace LexicalError

/-- Where the mistake is. -/
def location : LexicalError → Option Location
  | invalidCharacter _ location => location
  | invalidNumber _ _ location => location

/-- Hints on a word that starts with a digit and is no number. -/
def numberHint (text : String) : String :=
  let chars := text.toList
  if 1 < chars.count '.' then "Use at most one decimal point in a number"
  else if chars.any fun c => Text.isLetter c && c != 'e' && c != 'E' then
    "Identifiers cannot start with a digit"
  else "Check the numeric format"

/-- Wording. -/
def diagnostic : LexicalError → Diagnostic
  | invalidCharacter char location =>
    let code := String.ofList ((Text.hexDigits 4 char.toNat).map Char.toUpper)
    { message := s!"Invalid character: '{char}'"
      location
      code := some "L001"
      help := some <|
        if Text.isPrintable char then
          s!"The character '{char}' is not valid in Kaleidoscope source code."
        else s!"Non-printable character (Unicode: U+{code}) is not allowed." }
  | invalidNumber text overflow location =>
    { message := s!"Invalid numeric literal: '{text}'"
      location
      code := some "L003"
      help := some <|
        if overflow then "The value is too large for a 64-bit float."
        else "Number literals are decimal: digits, an optional fraction and an optional exponent."
      suggestions :=
        [if overflow then "Use a smaller literal (the largest is about 1.8e308)"
          else numberHint text] }

/-- The text of a mistake. -/
def render (e : LexicalError) : String := e.diagnostic.render

end LexicalError

namespace Lexer

/-- Unread text and the position where it starts. -/
structure Cursor where
  rest : List Char
  position : Position := {}
deriving DecidableEq, Repr

/-- What reading one token comes to. -/
inductive Reading where
  | done (after : Cursor)
  | token (t : Token) (after : Cursor)
  | failure (e : LexicalError) (after : Cursor)

/-- Can the character start a word? -/
def isWordStart (c : Char) : Bool := c.isAlphanum || c == '_'

/-- Can the character go on with a word? -/
def isWordContinue (c : Char) : Bool := isWordStart c || c == '.'

/-- Pass over a gap. The flag says that the text starts inside a comment. -/
def skipGap : Bool → Position → List Char → Cursor
  | _, p, [] => ⟨[], p⟩
  | true, p, c :: rest => skipGap (c != '\n') (p.next c) rest
  | false, p, c :: rest =>
    if Text.isBlank c then skipGap false (p.next c) rest
    else if c = '#' then skipGap true (p.next c) rest
    else ⟨c :: rest, p⟩

/-- What a word means. -/
def readWord (location : Location) (word : List Char) : Except LexicalError TokenContent :=
  let text := String.ofList word
  if (word.head?.any Char.isDigit) = true then
    match Numeral.read? word with
    | none => .error (.invalidNumber text false location)
    | some numeral =>
      match numeral.value? with
      | none => .error (.invalidNumber text true location)
      | some value => .ok (.number value)
  else
    match Keyword.ofText? text with
    | some keyword => .ok (.keyword keyword)
    | none => .ok (.identifier text)

/-- What a single character means. -/
def readMark? (c : Char) : Option TokenContent :=
  match Punctuation.ofChar? c with
  | some mark => some (.punctuation mark)
  | none => (Operator.ofChar? c).map .operator

/-- Read the token that starts the unread text, where there is no gap. -/
def readToken (filename : String) (c : Char) (rest : List Char) (p : Position) : Reading :=
  let location := p.locate filename
  if isWordStart c then
    let word := (c :: rest).takeWhile isWordContinue
    let after : Cursor := ⟨(c :: rest).dropWhile isWordContinue, p.after word⟩
    match readWord location word with
    | .ok content => .token ⟨content, String.ofList word, location⟩ after
    | .error e => .failure e after
  else
    match readMark? c with
    | some content => .token ⟨content, c.toString, location⟩ ⟨rest, p.next c⟩
    | none => .failure (.invalidCharacter c location) ⟨c :: rest, p⟩

/-- Pass over a gap and read one token. -/
def next (filename : String) (cursor : Cursor) : Reading :=
  match skipGap false cursor.position cursor.rest with
  | ⟨[], p⟩ => .done ⟨[], p⟩
  | ⟨c :: rest, p⟩ => readToken filename c rest p

/-- Read tokens until the text ends or a mistake is met. Each token takes a character at least, so
the number of steps is bounded by the number of characters. -/
def readAll (filename : String) :
    Nat → List Token → Cursor → Except LexicalError (List Token) × Cursor
  | 0, read, cursor => (.ok read.reverse, cursor)
  | steps + 1, read, cursor =>
    match next filename cursor with
    | .done after => (.ok read.reverse, after)
    | .failure e after => (.error e, after)
    | .token t after => readAll filename steps (t :: read) after

/-- Read all tokens from a cursor on, and say where reading stopped. -/
def tokensFrom (filename : String) (cursor : Cursor) :
    Except LexicalError (List Token) × Cursor :=
  readAll filename (cursor.rest.length + 1) [] cursor

/-- The tokens of a text. -/
def tokenize (source : String) (filename : String := "<string>") :
    Except LexicalError (List Token) :=
  (tokensFrom filename { rest := source.toList }).1

/-- Passing over a gap leaves a suffix of the text. -/
theorem skipGap_rest_length (inComment : Bool) (p : Position) (text : List Char) :
    (skipGap inComment p text).rest.length ≤ text.length := by
  induction text generalizing inComment p with
  | nil => cases inComment <;> simp [skipGap]
  | cons c rest ih =>
    cases inComment with
    | true => exact Nat.le_succ_of_le (ih _ _)
    | false =>
      unfold skipGap
      split
      · exact Nat.le_succ_of_le (ih _ _)
      · split
        · exact Nat.le_succ_of_le (ih _ _)
        · exact Nat.le_refl _

end Lexer

end Formulary
