import Formulary.Number.Integer
import Formulary.Parser.Basic

/-!
# Command line arguments

The arguments are sorted first, each by itself: a hyphen marks a switch, and all arguments behind
the first `--` are plain. A long switch may be shortened as long as it stays the only one that fits,
and takes its value from behind a `=` or from the next argument. Short switches take no value and
may stand together behind one hyphen. What looks like a negative number or holds a space is plain
unless it is a switch.

Then the arguments are gone through from left to right. The first plain argument is the file; other
plain arguments and unknown switches are refused, but only once all arguments have been seen. The
switches that ask for help or for the version end the reading where they stand.
-/

namespace Formulary.CommandLine

/-- What a switch is about. -/
inductive Switch where
  | help
  | emission
  | noRun
  | nestingLimit
  | verbose
  | version
deriving DecidableEq, Repr

namespace Switch

/-- The switches, in the order in which they are listed. -/
def all : List Switch := [help, emission, noRun, nestingLimit, verbose, version]

/-- The letter of a switch that has a short form. -/
def letter? : Switch → Option Char
  | help => some 'h'
  | verbose => some 'v'
  | _ => none

/-- The long form of a switch. -/
def long : Switch → String
  | help => "--help"
  | emission => "--emit"
  | noRun => "--no-run"
  | nestingLimit => "--max-depth"
  | verbose => "--verbose"
  | version => "--version"

/-- How a message names a switch. -/
def label (s : Switch) : String :=
  match s.letter? with
  | none => s.long
  | some c => s!"-{c}/{s.long}"

/-- Does a switch take a value? -/
def takesValue : Switch → Bool
  | emission | nestingLimit => true
  | _ => false

/-- The switch with a given letter. -/
def ofLetter? (c : Char) : Option Switch := all.find? fun s => s.letter? == some c

/-- The switches that a long form, perhaps shortened, can stand for. -/
def ofLong (text : String) : List Switch :=
  match all.find? fun s => s.long == text with
  | some s => [s]
  | none => all.filter fun s => text.toList.isPrefixOf s.long.toList

theorem ofLong_long (s : Switch) : ofLong s.long = [s] := by cases s <;> decide

end Switch

/-- What is printed besides results. -/
inductive Emission where
  | source
  | nothing
deriving DecidableEq, Repr

/-- The form in which the program is asked for. -/
def Emission.ofText? : String → Option Emission
  | "source" => some .source
  | "none" => some .nothing
  | _ => none

/-- What the switches ask for. -/
structure Settings where
  emission : Emission := .nothing
  evaluates : Bool := true
  nestingLimit : Int := defaultNestingLimit
  verbose : Bool := false
deriving DecidableEq, Repr

/-- What the arguments ask for: the settings, and the file to read. -/
structure Options extends Settings where
  file : String
deriving DecidableEq, Repr

/-- A mistake in the arguments. -/
inductive UsageError where
  | ambiguous (argument : String) (candidates : List Switch)
  | ignoredValue (s : Switch) (value : String)
  | missingValue (s : Switch)
  | invalidEmission (value : String)
  | invalidLimit (value : String)
  | missingFile
  | unrecognized (arguments : List String)
deriving DecidableEq, Repr

/-- Wording. -/
def UsageError.message : UsageError → String
  | ambiguous argument candidates =>
    let names := ", ".intercalate (candidates.map Switch.long)
    s!"ambiguous option: {argument} could match {names}"
  | ignoredValue s value =>
    s!"argument {s.label}: ignored explicit argument {Text.quoted value}"
  | missingValue s => s!"argument {s.label}: expected one argument"
  | invalidEmission value =>
    let choices := ", ".intercalate (["source", "none"].map Text.quoted)
    s!"argument {Switch.emission.label}: invalid choice: {Text.quoted value} " ++
      s!"(choose from {choices})"
  | invalidLimit value =>
    s!"argument {Switch.nestingLimit.label}: invalid int value: {Text.quoted value}"
  | missingFile => "the following arguments are required: file"
  | unrecognized arguments =>
    let names := " ".intercalate arguments
    s!"unrecognized arguments: {names}"

/-- Why there are no options to act on: help or the version was asked for, or there is a mistake. -/
inductive Exit where
  | help
  | version
  | mistake (e : UsageError)
deriving DecidableEq, Repr

/-- An argument, sorted. -/
inductive Argument where
  | plain (text : String)
  | terminator
  | long (s : Switch) (value : Option String)
  | short (s : Switch) (letters : List Char)
  | unknown (text : String)
deriving DecidableEq, Repr

namespace Argument

/-- Does the text look like a negative number? A line end may follow it. -/
def isNegativeNumber (text : List Char) : Bool :=
  match text with
  | '-' :: rest =>
    let rest := if rest.getLast? = some '\n' then rest.dropLast else rest
    match rest.dropWhile Text.isDecimalDigit with
    | [] => !rest.isEmpty
    | '.' :: fraction => !fraction.isEmpty && fraction.all Text.isDecimalDigit
    | _ => false
  | _ => false

/-- Sort what starts with a hyphen and is no known switch. -/
def ofStrange (text : String) : Argument :=
  if isNegativeNumber text.toList || text.toList.contains ' ' then .plain text else .unknown text

/-- Sort a long switch. -/
def ofLong (text : String) : Except UsageError Argument :=
  let name := text.toList.takeWhile (· ≠ '=')
  let value := (text.toList.dropWhile (· ≠ '=')).tail?.map String.ofList
  match Switch.ofLong (String.ofList name) with
  | [] => .ok (ofStrange text)
  | [s] => .ok (.long s value)
  | candidates => .error (.ambiguous text candidates)

/-- Sort an argument. -/
def ofText (text : String) : Except UsageError Argument :=
  match text.toList with
  | ['-'] => .ok (.plain text)
  | '-' :: '-' :: _ => ofLong text
  | '-' :: c :: letters =>
    match Switch.ofLetter? c with
    | some s => .ok (.short s letters)
    | none => .ok (ofStrange text)
  | _ => .ok (.plain text)

/-- Sort the arguments. -/
def sort : List String → Except UsageError (List Argument)
  | [] => .ok []
  | text :: rest =>
    if text = "--" then .ok (.terminator :: rest.map .plain)
    else
      match ofText text with
      | .error e => .error e
      | .ok a => (sort rest).map (a :: ·)

/-- Is the argument a switch? -/
def isSwitch : Argument → Bool
  | plain _ | terminator => false
  | _ => true

/-- The text of an argument that is no switch. -/
def plainText : Argument → String
  | plain text => text
  | _ => "--"

end Argument

/-- What has been gathered from the arguments so far: settings, the file if it was named, and
arguments to refuse. -/
structure Gathered where
  settings : Settings := {}
  file : Option String := none
  strange : List String := []
deriving DecidableEq, Repr

namespace Gathered

/-- Put arguments aside to be refused. -/
def setAside (g : Gathered) (texts : List String) : Gathered :=
  { g with strange := g.strange ++ texts }

/-- Act on a switch without a value. -/
def act (g : Gathered) : Switch → Except Exit Gathered
  | .help => .error .help
  | .version => .error .version
  | .noRun => .ok { g with settings := { g.settings with evaluates := false } }
  | .verbose => .ok { g with settings := { g.settings with verbose := true } }
  | s => .error (.mistake (.missingValue s))

/-- Act on switches without values, one after the other. -/
def actAll (g : Gathered) : List Switch → Except Exit Gathered
  | [] => .ok g
  | s :: rest => do actAll (← g.act s) rest

/-- Act on a switch with a value. -/
def set (g : Gathered) (s : Switch) (value : String) : Except Exit Gathered :=
  match s with
  | .emission =>
    match Emission.ofText? value with
    | some emission => .ok { g with settings := { g.settings with emission } }
    | none => .error (.mistake (.invalidEmission value))
  | .nestingLimit =>
    match Number.Integer.read? value with
    | some nestingLimit => .ok { g with settings := { g.settings with nestingLimit } }
    | none => .error (.mistake (.invalidLimit value))
  | _ => .error (.mistake (.ignoredValue s value))

/-- The switches in a group of letters, the first of which is given, and what is left of the group
from the first letter on that is no switch. -/
def group (s : Switch) : List Char → Except UsageError (List Switch × List Char)
  | [] => .ok ([s], [])
  | c :: rest =>
    if c = '=' then .error (.ignoredValue s (String.ofList rest))
    else if c = '-' then .error (.ignoredValue s (String.ofList (c :: rest)))
    else
      match Switch.ofLetter? c with
      | none => .ok ([s], c :: rest)
      | some next => (group next rest).map fun g => (s :: g.1, g.2)

/-- Act on a group of letters. -/
def actGroup (g : Gathered) (s : Switch) (letters : List Char) : Except Exit Gathered :=
  match group s letters with
  | .error e => .error (.mistake e)
  | .ok (switches, []) => g.actAll switches
  | .ok (switches, left) => (g.setAside [String.ofList ('-' :: left)]).actAll switches

/-- Take the arguments behind the last switch. The `--` goes unnoticed next to the file. -/
def takeLast (g : Gathered) (rest : List Argument) : Gathered :=
  let putAside (g : Gathered) (more : List Argument) : Gathered :=
    g.setAside (more.map Argument.plainText)
  match g.file, rest with
  | none, .plain file :: .terminator :: more => putAside { g with file } more
  | none, .terminator :: .plain file :: more => putAside { g with file } more
  | none, .plain file :: more => putAside { g with file } more
  | _, _ => putAside g rest

/-- Take a plain argument in front of a switch. -/
def takePlain (g : Gathered) (text : String) : Gathered :=
  match g.file with
  | none => { g with file := text }
  | some _ => g.setAside [text]

/-- Go through the arguments. -/
def gather (g : Gathered) : List Argument → Except Exit Gathered
  | [] => .ok g
  | .terminator :: rest => .ok (g.takeLast (.terminator :: rest))
  | .plain text :: rest =>
    if rest.any Argument.isSwitch then gather (g.takePlain text) rest
    else .ok (g.takeLast (.plain text :: rest))
  | .unknown text :: rest => gather (g.setAside [text]) rest
  | .short s letters :: rest => do gather (← g.actGroup s letters) rest
  | .long s (some value) :: rest => do gather (← g.set s value) rest
  | .long s none :: .plain value :: rest =>
    if s.takesValue then do gather (← g.set s value) rest
    else do gather (← g.act s) (.plain value :: rest)
  | .long s none :: rest => do gather (← g.act s) rest

/-- The options, once all arguments have been seen. -/
def finish (g : Gathered) : Except Exit Options :=
  match g.file with
  | none => .error (.mistake .missingFile)
  | some file =>
    if g.strange.isEmpty then .ok { g.settings with file }
    else .error (.mistake (.unrecognized g.strange))

end Gathered

/-- The options that the arguments ask for. -/
def Options.ofArguments (arguments : List String) : Except Exit Options :=
  match Argument.sort arguments with
  | .error e => .error (.mistake e)
  | .ok sorted =>
    match ({} : Gathered).gather sorted with
    | .error e => .error e
    | .ok g => g.finish

end Formulary.CommandLine
