import Formulary.File.Text
import Formulary.File.Workspace
import Formulary.Parser.Basic

/-!
# Source files

A source file is read as text, and its path names it in locations.
-/

namespace Formulary

/-- A mistake in a source file: the file cannot be read, or its text is no program. -/
inductive SourceFileError where
  | unreadable (e : FileError)
  | source (e : SourceError)

namespace File

/-- The text of a file that was asked for. -/
def decode (content : Except FileError ByteArray) : Except FileError String :=
  match content with
  | .error e => .error e
  | .ok bytes =>
    match text? bytes with
    | none => .error .notText
    | some text => .ok text

/-- A text without carriage returns is the text of a file that holds it. -/
theorem decode_toUTF8 {text : String} (h : '\r' ∉ text.toList) :
    decode (.ok text.toUTF8) = .ok text := by
  simp only [decode, text?_toUTF8, unifyLineEnds_of_not_mem h, String.ofList_toList]

/-- The tokens of a file. -/
def tokenize (path : String) (content : Except FileError ByteArray) :
    Except SourceFileError (List Token) :=
  match decode content with
  | .error e => .error (.unreadable e)
  | .ok text =>
    match Lexer.tokenize text path with
    | .error e => .error (.source (.lexical e))
    | .ok tokens => .ok tokens

/-- What the parser reads in a file. -/
def read (path : String) (content : Except FileError ByteArray)
    (limit : Int := defaultNestingLimit) : Except SourceFileError Parser.Reading :=
  match tokenize path content with
  | .error e => .error e
  | .ok tokens => .ok (Parser.read tokens limit)

end File

/-- The program in a file. -/
def Program.ofFile (path : String) (content : Except FileError ByteArray)
    (limit : Int := defaultNestingLimit) : Except SourceFileError Program :=
  match File.read path content limit with
  | .error e => .error e
  | .ok reading =>
    match reading.program with
    | .error e => .error (.source (.grammatical e))
    | .ok p => .ok p

end Formulary
