import Formulary.Proofs.CommandLine.Status
import Formulary.Proofs.Evaluation.Prediction
import Formulary.Proofs.Source.Meaning

/-!
# The gates of a run

A run on a file has four phases: the text is cut into tokens, the tokens are parsed, the names are
checked, and the formulas are evaluated unless they are not to be. Nothing goes to the standard
output before the third is passed, so what stands there is the canonical text, if it was asked for,
and then what the evaluator writes. An error ends the run where it arises; a warning ends nothing.
Behind the check of the names no error about a name is left, since the resolver foretells them all.
-/

namespace Formulary

open Evaluation

/-- The codes of the errors about names. -/
def ResolutionError.codes : List String := ["R001", "R002", "R003"]

/-- An error about a name has one of these codes. -/
theorem ResolutionError.code_mem_codes (e : ResolutionError) :
    ∃ code ∈ codes, e.diagnostic.code = some code := by
  obtain ⟨cause, location, node, function⟩ := e
  cases cause with
  | unknownFunction name similar => exact ⟨"R001", by decide, rfl⟩
  | arityMismatch name expected got => exact ⟨"R002", by decide, rfl⟩
  | unknownVariable name => exact ⟨"R003", by decide, rfl⟩

/-- An error of an evaluation itself has none of them. -/
theorem EvaluationError.code_ne (e : EvaluationError) :
    ∀ code ∈ ResolutionError.codes, e.diagnostic.code ≠ some code := by
  cases e with
  | unboundExtern name reason =>
    change ∀ code ∈ ResolutionError.codes, some "R010" ≠ some code
    decide
  | callDepthExceeded name limit =>
    change ∀ code ∈ ResolutionError.codes, some "R011" ≠ some code
    decide
  | invalidArgument name value =>
    change ∀ code ∈ ResolutionError.codes, some "R012" ≠ some code
    decide

/-- What a program comes to, and what is written of it, when its formulas are evaluated on the
command line. -/
def Program.Prints (p : Program) (result : Except Fault (List Float)) (out : String) : Prop :=
  Settles (fun fuel => (Evaluator.ofProgram p {} defaultCallLimit true).run p fuel) {} result out

namespace Program

variable {p : Program} {fuel : Nat}

/-- An evaluation that ended wrote what the program prints. -/
theorem prints_of_ended (hp : p.Built) {r : Except Fault (List Float)} {after : State}
    (h : (Evaluator.ofProgram p {} defaultCallLimit true).run p fuel {} = .ended r after) :
    p.Prints r after.output := by
  have hcomputes := Evaluator.Use.computes_fresh { program := p } hp true .run (s := {}) rfl
  exact (hcomputes.of_ended h String.empty_append.symm).2

/-- A fault of a program whose names can be resolved is not about a name. -/
theorem Prints.code_ne (hp : p.Built) (known : p.resolve.errors = []) {f : Fault} {out : String}
    (h : p.Prints (.error f) out) :
    ∀ code ∈ ResolutionError.codes, f.diagnostic.code ≠ some code := by
  let ev := Evaluator.ofProgram p {} defaultCallLimit true
  obtain ⟨least, hleast⟩ := h
  have hended : ev.run p least {} = Outcome.report {} out (.error f) :=
    hleast least (Nat.le_refl least)
  have fresh : ev.Fresh p := ⟨hp, rfl, rfl, rfl⟩
  have hforeseen : (ev.run p least {}).Meets p.resolve.errors
      (fun xs => xs.length = p.expressions.length) (State.names {}) := by
    rw [Program.errors_resolve]
    exact Evaluator.foreseen_evaluateAll fresh least p.expressions (fun _ he => he) {}
      fun name hname => by contradiction
  rw [hended, known] at hforeseen
  cases f with
  | unresolved e =>
    obtain ⟨e', he', _⟩ := hforeseen
    contradiction
  | failed e => exact e.code_ne

end Program

namespace CommandLine

/-- What is written in front of what is written in front. -/
theorem Report.after_after (r : Report) (a b : Transcript) :
    (r.after b).after a = r.after (a ++ b) := by
  rw [Report.after, Report.after, Report.after, List.append_assoc]

/-- A line of the log is no output. -/
@[simp] theorem on_output_detail (verbose : Bool) (r : Reporter) (text : String) :
    (detail verbose r text).on .output = "" := by
  cases verbose <;> simp [detail]

@[simp] theorem on_output_inform (r : Reporter) (text : String) :
    (inform r text).on .output = "" := by simp [inform]

/-- Of parts without output the whole has none. -/
theorem on_output_flatMap {α : Type} {f : α → Transcript} {xs : List α}
    (h : ∀ x, (f x).on .output = "") : Transcript.on .output (xs.flatMap f) = "" := by
  induction xs with
  | nil => rfl
  | cons x rest ih => simp [h, ih]

namespace Options

@[simp] theorem on_output_logRead (o : Options) (statements : List Statement) :
    (o.logRead statements).on .output = "" :=
  on_output_flatMap fun _ => on_output_detail _ _ _

@[simp] theorem on_output_logProgram (o : Options) (p : Program) :
    (o.logProgram p).on .output = "" := by
  simp [logProgram]

@[simp] theorem on_output_logCheck (o : Options) (r : Resolution) :
    (o.logCheck r).on .output = "" := by
  simp [logCheck, on_output_flatMap]

/-- Of values and faults nothing but what the evaluator wrote is output. -/
@[simp] theorem on_output_reportValues (o : Options) (results : List Float) (output : String) :
    (o.reportValues results output).transcript.on .output = output := by
  simp [reportValues]

@[simp] theorem on_output_reportFault (f : Fault) (output : String) :
    (reportFault f output).transcript.on .output = output := by
  simp [reportFault, Report.after, Report.failed]

/-- What is written of a program before it is evaluated. -/
def printed (o : Options) (p : Program) : String :=
  match o.emission with
  | .source => p.source
  | .nothing => ""

/-- The course of a run on a text: what it writes to the output, and the mistake that ends it if
there is one. Each mistake ends it at a gate of its own. -/
inductive Course (o : Options) (text : String) : String → Option Mistake → Prop
  | rejected {e} (rejected : Program.ofSource text o.file o.nestingLimit = .error e) :
    Course o text "" (some (.source e))
  | unresolved {p first others} (parsed : Program.ofSource text o.file o.nestingLimit = .ok p)
    (unknown : p.resolve.errors = first :: others) :
    Course o text "" (some (.unresolved first others))
  | unevaluated {p} (parsed : Program.ofSource text o.file o.nestingLimit = .ok p)
    (known : p.resolve.errors = []) (evaluates : o.evaluates = false) :
    Course o text (o.printed p) none
  | evaluated {p values out} (parsed : Program.ofSource text o.file o.nestingLimit = .ok p)
    (known : p.resolve.errors = []) (evaluates : o.evaluates = true)
    (prints : p.Prints (.ok values) out) :
    Course o text (o.printed p ++ out) none
  | stopped {p f out} (parsed : Program.ofSource text o.file o.nestingLimit = .ok p)
    (known : p.resolve.errors = []) (evaluates : o.evaluates = true)
    (prints : p.Prints (.error f) out) :
    Course o text (o.printed p ++ out) (some (.fault f))

/-- All phases that a run on a text has pass without a mistake. -/
def Clear (o : Options) (text : String) : Prop :=
  ∃ p, Program.ofSource text o.file o.nestingLimit = .ok p ∧ p.resolve.errors = [] ∧
    (o.evaluates = true → ∃ values out, p.Prints (.ok values) out)

/-- A report follows the course of a run. -/
structure Follows (o : Options) (text : String) (mistake : Option Mistake) (r : Report) : Prop where
  /-- What is written to the output is what the course says. -/
  course : o.Course text (r.transcript.on .output) mistake
  /-- The status says whether there was a mistake. -/
  ending : r.ending = .finished (if mistake.isSome then 1 else 0)
  /-- A mistake is told, and nothing after it. -/
  told : ∀ m ∈ mistake, ∃ before, r.transcript = before ++ .message (m.text o.file)

variable {o : Options} {text output : String} {p : Program} {r : Report} {mistake : Option Mistake}

/-- A run is clear if its course has no mistake. -/
theorem Course.clear_iff (h : o.Course text output mistake) : o.Clear text ↔ mistake = none := by
  cases h with
  | rejected rejected => simp [Clear, rejected]
  | unresolved parsed unknown => simp [Clear, parsed, unknown]
  | unevaluated parsed known evaluates => simp [Clear, parsed, known, evaluates]
  | evaluated parsed known evaluates prints =>
    have hclear : o.Clear text := ⟨_, parsed, known, fun _ => ⟨_, _, prints⟩⟩
    exact ⟨fun _ => rfl, fun _ => hclear⟩
  | stopped parsed known evaluates prints =>
    refine ⟨?_, fun hnone => absurd hnone (Option.some_ne_none _)⟩
    rintro ⟨p, parsed', _, hprints⟩
    obtain rfl := Except.ok.inj (parsed.symm.trans parsed')
    obtain ⟨values, out, hvalues⟩ := hprints evaluates
    obtain ⟨hresult, _⟩ := Settles.unique hvalues prints
    contradiction

/-- Behind the check of the names no mistake is about a name. -/
theorem Course.code_ne {f : Fault} (h : o.Course text output (some (.fault f))) :
    ∀ code ∈ ResolutionError.codes, f.diagnostic.code ≠ some code := by
  cases h with
  | stopped parsed known evaluates prints =>
    exact prints.code_ne (Program.built_of_ofSource parsed) known

/-- What is written in front, if it is no output, changes nothing of it. -/
theorem Follows.after_log (h : o.Follows text mistake r) {log : Transcript}
    (hlog : log.on .output = "") : o.Follows text mistake (r.after log) := by
  constructor
  · have houtput : (r.after log).transcript.on .output = r.transcript.on .output := by
      simp [Report.after, hlog]
    rw [houtput]
    exact h.course
  · exact h.ending
  · intro m hm
    obtain ⟨before, htranscript⟩ := h.told m hm
    refine ⟨log ++ before, ?_⟩
    rw [List.append_assoc, ← htranscript]
    rfl

/-- A run that ends without a mistake. -/
theorem follows_passed (course : o.Course text (r.transcript.on .output) none)
    (ending : r.ending = .finished 0) : o.Follows text none r where
  course := course
  ending := ending
  told m hm := absurd hm (Option.not_mem_none m)

/-- A run that fails before anything is printed. -/
theorem follows_failed {m : Mistake} (course : o.Course text "" (some m)) :
    o.Follows text (some m) (.failed (m.text o.file)) where
  course := by
    rw [Report.failed, Transcript.on_output_message]
    exact course
  ending := rfl
  told m' hm := ⟨[], by rw [Option.mem_some.mp hm]; rfl⟩

section

variable (parsed : Program.ofSource text o.file o.nestingLimit = .ok p) {fuel : Nat}

include parsed

/-- An evaluation that ends, behind what is printed before it, ends the course. -/
theorem follows_evaluate (known : p.resolve.errors = []) (evaluates : o.evaluates = true)
    (hends : (o.evaluate p fuel).ending ≠ .outOfFuel) {before : Transcript}
    (hbefore : before.on .output = o.printed p) :
    ∃ mistake, o.Follows text mistake ((o.evaluate p fuel).after before) := by
  have built : p.Built := Program.built_of_ofSource parsed
  unfold evaluate at hends ⊢
  cases hrun : (Evaluator.ofProgram p {} defaultCallLimit true).run p fuel {} with
  | value values after =>
    simp only [hrun]
    have prints : p.Prints (.ok values) after.output := Program.prints_of_ended built hrun
    refine ⟨none, follows_passed ?_ rfl⟩
    simpa [Report.after, hbefore] using Course.evaluated parsed known evaluates prints
  | fault f after =>
    simp only [hrun]
    have prints : p.Prints (.error f) after.output := Program.prints_of_ended built hrun
    refine ⟨some (.fault f), ?_, rfl, ?_⟩
    · simpa [Report.after, Report.failed, hbefore] using
        Course.stopped parsed known evaluates prints
    · intro m hm
      obtain rfl := Option.mem_some.mp hm
      refine ⟨before ++ .output after.output, ?_⟩
      rw [List.append_assoc]
      rfl
  | outOfFuel => simp [hrun] at hends

/-- What follows once all names are known goes on to the end of the course, if it ends. -/
theorem follows_emit (known : p.resolve.errors = []) (hends : (o.emit p fuel).ending ≠ .outOfFuel) :
    ∃ mistake, o.Follows text mistake (o.emit p fuel) := by
  obtain ⟨before, hbefore, hemit⟩ : ∃ before : Transcript, before.on .output = o.printed p ∧
      o.emit p fuel =
        (if o.evaluates then o.evaluate p fuel else { ending := .finished 0 }).after before := by
    refine ⟨_, ?_, rfl⟩
    unfold printed
    cases o.emission <;> simp
  rw [hemit] at hends ⊢
  by_cases evaluates : o.evaluates = true
  · rw [if_pos evaluates] at hends ⊢
    exact follows_evaluate parsed known evaluates hends hbefore
  · rw [if_neg evaluates]
    refine ⟨none, follows_passed ?_ rfl⟩
    simpa [Report.after, hbefore] using
      Course.unevaluated parsed known (Bool.eq_false_iff.mpr evaluates)

/-- So does the check of the names, and it writes all warnings. -/
theorem follows_check (hends : (o.check p fuel).ending ≠ .outOfFuel) :
    (∃ mistake, o.Follows text mistake (o.check p fuel)) ∧
      ∀ w ∈ p.resolve.warnings, (Channel.messages, w.render) ∈ (o.check p fuel).transcript := by
  unfold check at hends ⊢
  constructor
  · cases hfound : p.resolve.errors with
    | nil =>
      simp only [hfound, List.isEmpty_nil, if_true] at hends ⊢
      obtain ⟨mistake, follows⟩ := follows_emit parsed hfound hends
      exact ⟨mistake, follows.after_log (o.on_output_logCheck _)⟩
    | cons first others =>
      simp only [hfound, List.isEmpty_cons, Bool.false_eq_true, if_false]
      have follows := follows_failed (.unresolved parsed hfound)
      exact ⟨_, follows.after_log (o.on_output_logCheck _)⟩
  · intro w hw
    apply List.mem_append_left
    apply List.mem_append_right
    exact List.mem_flatMap.mpr ⟨w, hw, List.mem_singleton_self _⟩

end

/-- A reading with a program is checked behind some lines of the log. -/
theorem proceed_of_ok {reading : Parser.Reading} (hprogram : reading.program = .ok p) (fuel : Nat) :
    ∃ log : Transcript, log.on .output = "" ∧
      o.proceed reading fuel = (o.check p fuel).after log := by
  simp only [proceed, hprogram, Report.after_after]
  refine ⟨_, ?_, rfl⟩
  simp

/-- A reading with a mistake is told of, behind such lines. -/
theorem proceed_of_error {reading : Parser.Reading} {e : SyntaxError}
    (hprogram : reading.program = .error e) (fuel : Nat) :
    ∃ log : Transcript, log.on .output = "" ∧
      o.proceed reading fuel = (Report.failed e.render).after log := by
  simp only [proceed, hprogram]
  exact ⟨_, o.on_output_logRead _, rfl⟩

section

variable {content : Except FileError ByteArray} (decoded : File.decode content = .ok text)

include decoded

/-- What the parser reads in a file it reads in the tokens of its text. -/
theorem read_of_tokenize {tokens : List Token} (htokens : Lexer.tokenize text o.file = .ok tokens) :
    File.read o.file content o.nestingLimit = .ok (Parser.read tokens o.nestingLimit) := by
  simp only [File.read, File.tokenize, decoded, htokens]

/-- A text that can be parsed is checked. -/
theorem report_of_parsed (parsed : Program.ofSource text o.file o.nestingLimit = .ok p)
    (fuel : Nat) : ∃ log : Transcript, log.on .output = "" ∧
      o.report content fuel = (o.check p fuel).after log := by
  obtain ⟨tokens, htokens, hparse⟩ := Program.ofSource_eq_ok_iff.mp parsed
  rw [report, read_of_tokenize decoded htokens]
  exact proceed_of_ok hparse fuel

/-- A text that cannot be parsed is told of. -/
theorem report_of_rejected {e : SourceError}
    (rejected : Program.ofSource text o.file o.nestingLimit = .error e) (fuel : Nat) :
    ∃ log : Transcript, log.on .output = "" ∧
      o.report content fuel = (Report.failed e.render).after log := by
  unfold Program.ofSource at rejected
  cases htokens : Lexer.tokenize text o.file with
  | error lexical =>
    have hread : File.read o.file content o.nestingLimit = .error (.source (.lexical lexical)) := by
      simp only [File.read, File.tokenize, decoded, htokens]
    simp only [htokens] at rejected
    obtain rfl := Except.error.inj rejected
    refine ⟨[], rfl, ?_⟩
    rw [report, hread]
    rfl
  | ok tokens =>
    simp only [htokens] at rejected
    cases hparse : Parser.parse tokens o.nestingLimit with
    | ok p => simp [hparse] at rejected
    | error grammatical =>
      simp only [hparse] at rejected
      obtain rfl := Except.error.inj rejected
      rw [report, read_of_tokenize decoded htokens]
      exact proceed_of_error hparse fuel

end

end Options

namespace Options

/-- A run on a stack goes as one without: it is halted, or it ends with the error for too many calls, or
it is the same. -/
def Agrees (onStack without : Report) : Prop :=
  (∃ e, onStack.ending = .halted e) ∨
  (∃ before name n, onStack = (Report.failed
    (Fault.failed (.callDepthExceeded name n)).render).after before) ∨
  onStack = without

/-- It does so with something written in front. -/
theorem Agrees.after {onStack without : Report} (h : Agrees onStack without) (log : Transcript) :
    Agrees (onStack.after log) (without.after log) := by
  obtain ⟨e, he⟩ | ⟨before, name, n, rfl⟩ | rfl := h
  · exact .inl ⟨e, he⟩
  · exact .inr (.inl ⟨log ++ before, name, n, Report.after_after _ _ _⟩)
  · exact .inr (.inr rfl)

variable (o : Options) (costs : Costs) (stack : Stack) (p : Program) (fuel : Nat)

theorem evaluateOn_agrees : Agrees (o.evaluateOn costs stack p fuel) (o.evaluate p fuel) := by
  unfold evaluateOn evaluate
  extract_lets evaluator
  have hresult := Evaluator.runOn_result costs.evaluating
    (show evaluator.invoke = Standard.invoke from rfl) p (m := {}) rfl fuel stack
  cases hrun : Evaluator.runOn costs.evaluating evaluator p fuel stack {} with
  | mk result left =>
    rw [hrun] at hresult
    obtain ⟨why, rfl, _⟩ | ⟨name, n, rfl⟩ | ⟨rfl, hfuel⟩ | ⟨r, after, hended, rfl, houtput⟩ := hresult
    · exact .inl ⟨why, rfl⟩
    · exact .inr (.inl ⟨.output left.output, name, n, rfl⟩)
    · right; right
      simp only [evaluator, hfuel]
    · right; right
      simp only [evaluator, hended]
      cases r with
      | ok results => exact congrArg (o.reportValues results) houtput
      | error f => exact congrArg (reportFault f) houtput

theorem emitOn_agrees : Agrees (o.emitOn costs stack p fuel) (o.emit p fuel) := by
  unfold emitOn emit
  extract_lets restOn printed rest
  have hrest : Agrees restOn rest := by
    by_cases evaluates : o.evaluates = true
    · simp only [restOn, rest, if_pos evaluates]
      exact o.evaluateOn_agrees costs stack p fuel
    · simp only [restOn, rest, if_neg evaluates]
      exact .inr (.inr rfl)
  cases hemission : o.emission with
  | nothing =>
    simp only [printed, hemission]
    exact hrest
  | source =>
    simp only [printed, hemission, Program.sourceOn]
    cases stack.holding (p.walkFrames costs.printing) with
    | none => exact .inl ⟨_, rfl⟩
    | some deeper => exact hrest.after _

theorem checkOn_agrees : Agrees (o.checkOn costs stack p fuel) (o.check p fuel) := by
  unfold checkOn check Program.resolveOn
  cases stack.holding (p.walkFrames costs.resolving) with
  | none => exact .inl ⟨_, rfl⟩
  | some deeper =>
    refine Agrees.after ?_ _
    split
    · exact o.emitOn_agrees costs stack p fuel
    · exact .inr (.inr rfl)

theorem proceedOn_agrees (tokens : List Token) :
    Agrees (o.proceedOn costs stack fuel (Parser.readOn costs.reading stack tokens o.nestingLimit))
      (o.proceed (Parser.read tokens o.nestingLimit) fuel) := by
  unfold proceedOn proceed
  rcases Parser.readOn_agrees costs.reading stack tokens o.nestingLimit with ⟨e, he⟩ | hsame
  · simp only [Parser.ReadingOn.program, he]
    exact .inl ⟨e, rfl⟩
  · rw [hsame, Parser.Reading.program_onStack]
    refine Agrees.after ?_ _
    cases (Parser.read tokens o.nestingLimit).program with
    | error e => exact .inr (.inr rfl)
    | ok p => exact (o.checkOn_agrees costs stack p fuel).after _

theorem reportOn_agrees (content : Except FileError ByteArray) :
    Agrees (o.reportOn costs stack fuel content) (o.report content fuel) := by
  unfold reportOn report File.read
  cases File.tokenize o.file content with
  | error e => exact .inr (.inr rfl)
  | ok tokens => exact o.proceedOn_agrees costs stack fuel tokens

end Options

/-- The stack changes nothing of a run but that it may halt it, or end its evaluation with the error for
too many calls. -/
theorem runOn_agrees (costs : Costs) (stack : Stack) (arguments : List String)
    (read : String → Except FileError ByteArray) (fuel : Nat) :
    Options.Agrees (runOn costs stack arguments read fuel) (run arguments read fuel) := by
  unfold runOn run
  cases Options.ofArguments arguments with
  | error e => exact .inr (.inr rfl)
  | ok o => exact o.reportOn_agrees costs stack fuel (read o.file)

end CommandLine

end Formulary
