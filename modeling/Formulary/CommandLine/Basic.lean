import Formulary.CommandLine.Transcript
import Formulary.CommandLine.Usage
import Formulary.Evaluation.Basic
import Formulary.Expr.Inspect
import Formulary.Expr.Source
import Formulary.File.Source
import Formulary.Resolution.Basic
import Formulary.Stack

/-!
# The program

One run reads one file, parses it, checks its names, prints it if asked to, and evaluates its
formulas unless asked not to. The first of these that fails ends the run with status one, and then
nothing of what would follow is written. Warnings never end a run.

This is a run on a stack that is deep enough. `Formulary.CommandLine.OnStack` is about any stack.
-/

namespace Formulary.CommandLine

/-- How a run ends: before a file was asked for, with a status after one was, with a file that
holds no text or cannot be named, halted by the stack, or for want of fuel. -/
inductive Ending where
  | early (status : Nat)
  | finished (status : Nat)
  | broken (e : FileError)
  | halted (e : Stack.Error)
  | outOfFuel
deriving DecidableEq, Repr

/-- What a run writes and how it ends. -/
structure Report where
  transcript : Transcript := []
  ending : Ending

namespace Report

/-- The report with something written in front. -/
def after (before : Transcript) (r : Report) : Report :=
  { r with transcript := before ++ r.transcript }

/-- The report of a run that ends with a message about a mistake. -/
def failed (message : String) : Report := { transcript := .message message, ending := .finished 1 }

end Report

/-- The report of a run without options to act on. -/
def Exit.report : Exit → Report
  | .help => { transcript := .output CommandLine.help, ending := .early 0 }
  | .version => { transcript := .output versionText, ending := .early 0 }
  | .mistake e => { transcript := .message (refusal e), ending := .early 2 }

/-- What a statement is called in the log. -/
def describeStatement : Statement → String
  | .foreign p => s!"extern {p.name}/{p.arity}"
  | .definition d => s!"definition {d.name}/{d.prototype.arity}"
  | .expression e => s!"top-level expression {e.inspect}"

/-- How many statements of each kind a program has. -/
def describeCounts (p : Program) : String :=
  s!"{p.externs.length} externs, {p.definitions.length} definitions, " ++
    s!"{p.expressions.length} top-level expressions"

namespace Options

/-- The log of what the parser has read. -/
def logRead (o : Options) (statements : List Statement) : Transcript :=
  statements.flatMap fun s => detail o.verbose .parser s!"Parsed {describeStatement s}"

/-- The log of a program that was read to the end. -/
def logProgram (o : Options) (p : Program) : Transcript :=
  let counts := s!"Parsed {describeCounts p}"
  detail o.verbose .parser counts ++ inform .commandLine s!"Parsed {o.file}: {describeCounts p}"

/-- The log of the check of the names, and the warnings. -/
def logCheck (o : Options) (r : Resolution) : Transcript :=
  let log := detail o.verbose .resolver
    s!"Resolution finished with {r.errors.length} errors, {r.warnings.length} warnings"
  log ++ r.warnings.flatMap fun w => Transcript.message w.render

/-- The report of an evaluation that ended with values. -/
def reportValues (o : Options) (results : List Float) (output : String) : Report :=
  { transcript := .output output ++
      detail o.verbose .evaluator s!"Evaluated {results.length} top-level expressions"
    ending := .finished 0 }

/-- The report of an evaluation that ended with a fault. -/
def reportFault (f : Fault) (output : String) : Report :=
  (Report.failed f.render).after (.output output)

/-- The report of names that cannot be resolved. -/
def reportUnresolved (errors : List ResolutionError) : Report :=
  Report.failed (String.join (errors.map ResolutionError.render))

/-- The report of a run on a file that holds no tokens. -/
def reportUnread (o : Options) : SourceFileError → Report
  | .source e => Report.failed e.render
  | .unreadable (.system number reason) =>
    Report.failed
      s!"error: cannot read {o.file}: [Errno {number}] {reason}: {Text.quoted o.file}\n"
  | .unreadable e => { ending := .broken e }

/-- Evaluate the formulas of a program. -/
def evaluate (o : Options) (p : Program) (fuel : Nat) : Report :=
  let evaluator := Evaluator.ofProgram p {} defaultCallLimit true
  match evaluator.run p fuel {} with
  | .value results after => o.reportValues results after.output
  | .fault f after => reportFault f after.output
  | .outOfFuel => { ending := .outOfFuel }

/-- Print a program and evaluate it, as far as the settings ask for it. -/
def emit (o : Options) (p : Program) (fuel : Nat) : Report :=
  let printed := match o.emission with
    | .source => Transcript.output p.source
    | .nothing => []
  let rest := if o.evaluates then o.evaluate p fuel else { ending := .finished 0 }
  rest.after printed

/-- Check the names of a program and go on if they can be resolved. -/
def check (o : Options) (p : Program) (fuel : Nat) : Report :=
  let r := p.resolve
  let rest := if r.errors.isEmpty then o.emit p fuel else reportUnresolved r.errors
  rest.after (o.logCheck r)

/-- Go on with what the parser has read. -/
def proceed (o : Options) (reading : Parser.Reading) (fuel : Nat) : Report :=
  let rest := match reading.program with
    | .error e => Report.failed e.render
    | .ok p => (o.check p fuel).after (o.logProgram p)
  rest.after (o.logRead reading.statements)

/-- The report of a run on a file that was asked for. -/
def report (o : Options) (content : Except FileError ByteArray) (fuel : Nat) : Report :=
  match File.read o.file content o.nestingLimit with
  | .ok reading => o.proceed reading fuel
  | .error e => o.reportUnread e

end Options

/-- The report of a run with the given arguments, where `read` reads a file. -/
def run (arguments : List String) (read : String → Except FileError ByteArray) (fuel : Nat) :
    Report :=
  match Options.ofArguments arguments with
  | .error e => e.report
  | .ok o => o.report (read o.file) fuel

end Formulary.CommandLine
