import Formulary.CommandLine.Basic
import Formulary.Evaluation.OnStack
import Formulary.Expr.OnStack
import Formulary.Parser.OnStack

/-!
# Running the program on a stack

This is a run as it is carried out: what it does is what `Formulary.CommandLine.Basic` says, and each
phase takes frames of the stack. The parser asks for headroom for the nesting limit, and the evaluator
for the usual number of calls; the check of the names and the printer ask for none. A run that the
stack halts in one of the four has no status. It has written what it wrote before. Only an evaluation
for which the stack has too little room ends in the usual way, since the evaluator reports that.
-/

namespace Formulary.CommandLine

/-- The frames that the phases of a run take. -/
structure Costs where
  reading : Parser.Frames
  resolving : Walk
  printing : Walk
  evaluating : Evaluation.Frames

/-- What they usually are. -/
def Costs.usual : Costs := ⟨.usual, .resolving, .printing, .usual⟩

/-- The report of a run that is halted. -/
def Report.halted (e : Stack.Error) : Report := { ending := .halted e }

namespace Options

section

variable (o : Options) (costs : Costs) (stack : Stack) (p : Program) (fuel : Nat)

/-- Evaluate the formulas of a program. -/
def evaluateOn : Report :=
  let evaluator := Evaluator.ofProgram p {} defaultCallLimit true
  match Evaluator.runOn costs.evaluating evaluator p fuel stack {} with
  | (.ok results, after) => o.reportValues results after.output
  | (.error (.fault f), after) => reportFault f after.output
  | (.error (.stack e), after) => (Report.halted e).after (.output after.output)
  | (.error .outOfFuel, _) => { ending := .outOfFuel }

/-- Print a program and evaluate it, as far as the settings ask for it. -/
def emitOn : Report :=
  let rest := if o.evaluates then o.evaluateOn costs stack p fuel else { ending := .finished 0 }
  match o.emission with
  | .nothing => rest
  | .source =>
    match p.sourceOn costs.printing stack with
    | .ok text => rest.after (.output text)
    | .error e => .halted e

/-- Check the names of a program and go on if they can be resolved. -/
def checkOn : Report :=
  match p.resolveOn costs.resolving stack with
  | .error e => .halted e
  | .ok r =>
    let rest := if r.errors.isEmpty then o.emitOn costs stack p fuel else reportUnresolved r.errors
    rest.after (o.logCheck r)

/-- Go on with what the parser has read. -/
def proceedOn (reading : Parser.ReadingOn) : Report :=
  let rest := match reading.program with
    | .error (.mistake e) => Report.failed e.render
    | .error (.stack e) => .halted e
    | .ok p => (o.checkOn costs stack p fuel).after (o.logProgram p)
  rest.after (o.logRead reading.statements)

/-- The report of a run on a file that was asked for. -/
def reportOn (content : Except FileError ByteArray) : Report :=
  match File.tokenize o.file content with
  | .ok tokens =>
    o.proceedOn costs stack fuel (Parser.readOn costs.reading stack tokens o.nestingLimit)
  | .error e => o.reportUnread e

end

end Options

/-- The report of a run with the given arguments, where `read` reads a file. -/
def runOn (costs : Costs) (stack : Stack) (arguments : List String)
    (read : String → Except FileError ByteArray) (fuel : Nat) : Report :=
  match Options.ofArguments arguments with
  | .error e => e.report
  | .ok o => o.reportOn costs stack fuel (read o.file)

end Formulary.CommandLine
