import Formulary.CommandLine.OnStack
import Formulary.Proofs.Descent.Unstacked
import Formulary.Proofs.Stacked.Prediction
import Mathlib.Data.List.Basic

/-!
# The status of a run

A run on a file is stopped by the first `Mistake` that it meets: the system refuses the file, its
text is no program, names cannot be resolved, or an evaluation stops with a fault. It then ends with
status one, and the diagnostics of the mistake are the last that it writes among the messages.
Without a mistake its status is zero. There are two exceptions to this. Bytes that are not UTF-8, and
a path with a null character in it, break the run off without a status and without a word. And a run is
halted by the stack, without a status too, if that runs out or if the headroom for a nesting limit is
refused, which for a great limit it is.
-/

namespace Formulary

/-- The text of a diagnostic is not empty. -/
theorem Diagnostic.render_ne_empty (d : Diagnostic) : d.render ≠ "" := by
  have hend : toString "\n" ≠ "" := by decide
  simp [Diagnostic.render, Diagnostic.lines, hend]

/-- Nor is that of an error about names. -/
theorem ResolutionError.render_ne_empty (e : ResolutionError) : e.render ≠ "" := by
  have hdiagnostic := e.diagnostic.render_ne_empty
  simp [ResolutionError.render, hdiagnostic]

namespace CommandLine

/-- What makes the status of a run one. -/
inductive Mistake where
  | unreadable (number : Nat) (reason : String)
  | source (e : SourceError)
  | unresolved (first : ResolutionError) (others : List ResolutionError)
  | fault (f : Fault)

namespace Mistake

/-- The diagnostics of a mistake, on a file. -/
def text (file : String) : Mistake → String
  | unreadable number reason =>
    s!"error: cannot read {file}: [Errno {number}] {reason}: {Text.quoted file}\n"
  | source e => e.render
  | unresolved first others => String.join ((first :: others).map ResolutionError.render)
  | fault f => f.render

/-- There is a diagnostic for every mistake. -/
theorem text_ne_empty (file : String) (m : Mistake) : m.text file ≠ "" := by
  unfold text
  cases m with
  | unreadable number reason =>
    have hend : toString "\n" ≠ "" := by decide
    simp [hend]
  | source e => exact e.diagnostic.render_ne_empty
  | unresolved first others =>
    have hfirst := first.render_ne_empty
    simp [hfirst]
  | fault f =>
    unfold Fault.render
    cases f with
    | unresolved e => exact e.render_ne_empty
    | failed e => exact e.diagnostic.render_ne_empty

end Mistake

namespace Options

/-- A file holds a program, as the parser reads it with some options on a stack. -/
def Parses (o : Options) (costs : Costs) (stack : Stack) (content : Except FileError ByteArray)
    (p : Program) : Prop :=
  ∃ tokens, File.tokenize o.file content = .ok tokens ∧
    Parser.parseOn costs.reading stack tokens o.nestingLimit = .ok p

/-- What the evaluation of a program on the command line comes to. -/
def evaluation (costs : Costs) (stack : Stack) (p : Program) (fuel : Nat) :
    Except Evaluation.Halt (List Float) × Evaluation.Machine :=
  (Evaluator.ofProgram p {} defaultCallLimit true).runOn costs.evaluating p fuel stack {}

section

variable (o : Options) (costs : Costs) (stack : Stack) (content : Except FileError ByteArray)
  (fuel : Nat)

/-- The mistake that a run with some options meets first, on a file with the given content. -/
inductive Meets : Mistake → Prop
  | unreadable {number reason} (refused : content = .error (.system number reason)) :
    Meets (.unreadable number reason)
  | lexical {e} (rejected : File.tokenize o.file content = .error (.source e)) : Meets (.source e)
  | grammatical {tokens e} (cut : File.tokenize o.file content = .ok tokens)
    (rejected : Parser.parseOn costs.reading stack tokens o.nestingLimit = .error (.mistake e)) :
    Meets (.source (.grammatical e))
  | unresolved {p first others} (parsed : o.Parses costs stack content p)
    (unknown : p.resolve.errors = first :: others) : Meets (.unresolved first others)
  | fault {p f after} (parsed : o.Parses costs stack content p) (known : p.resolve.errors = [])
    (evaluates : o.evaluates = true)
    (stopped : evaluation costs stack p fuel = (.error (.fault f), after)) : Meets (.fault f)

/-- A run meets no mistake: the file holds a program whose names can be resolved, and the evaluation
ends with values, if there is one. -/
def Passes : Prop :=
  ∃ p, o.Parses costs stack content p ∧ p.resolve.errors = [] ∧
    (o.evaluates = true → ∃ results after, evaluation costs stack p fuel = (.ok results, after))

/-- The stack halts a run in one of its phases. -/
inductive Halts : Stack.Error → Prop
  | reading {tokens e} (cut : File.tokenize o.file content = .ok tokens)
    (halted : Parser.parseOn costs.reading stack tokens o.nestingLimit = .error (.stack e)) : Halts e
  | resolving {p e} (parsed : o.Parses costs stack content p)
    (halted : p.resolveOn costs.resolving stack = .error e) : Halts e
  | printing {p e} (parsed : o.Parses costs stack content p)
    (halted : p.sourceOn costs.printing stack = .error e) : Halts e
  | evaluating {p e after} (parsed : o.Parses costs stack content p)
    (halted : evaluation costs stack p fuel = (.error (.stack e), after)) : Halts e

/-- A report says that a run passed, tells of the mistake that it met, or is of a run that was halted
or did not end. -/
inductive Reports : Report → Prop
  | passed {r} (passes : o.Passes costs stack content fuel) (status : r.ending = .finished 0) :
    Reports r
  | stopped {m before} (meets : o.Meets costs stack content fuel m) :
    Reports { transcript := before ++ .message (m.text o.file), ending := .finished 1 }
  | halted {r e} (halts : o.Halts costs stack content fuel e) (status : r.ending = .halted e) :
    Reports r
  | outOfFuel {r} (status : r.ending = .outOfFuel) : Reports r

end

variable {o : Options} {costs : Costs} {stack : Stack} {content : Except FileError ByteArray}
  {fuel : Nat} {p : Program}

/-- It does so with something written in front. -/
theorem Reports.after {r : Report} (h : o.Reports costs stack content fuel r)
    (written : Transcript) : o.Reports costs stack content fuel (r.after written) := by
  cases h with
  | passed passes status => exact .passed passes status
  | @stopped m before meets =>
    have hstopped := @Reports.stopped _ _ _ _ _ m (written ++ before) meets
    rwa [List.append_assoc] at hstopped
  | halted halts status => exact .halted halts status
  | outOfFuel status => exact .outOfFuel status

/-- A mistake is told. -/
theorem Meets.reports {m : Mistake} (h : o.Meets costs stack content fuel m) :
    o.Reports costs stack content fuel (.failed (m.text o.file)) :=
  @Reports.stopped _ _ _ _ _ m [] h

section

variable (parsed : o.Parses costs stack content p)

include parsed

/-- An evaluation is reported. -/
theorem reports_evaluateOn (known : p.resolve.errors = []) (evaluates : o.evaluates = true) :
    o.Reports costs stack content fuel (o.evaluateOn costs stack p fuel) := by
  unfold evaluateOn
  extract_lets evaluator
  split
  · next results after hrun => exact .passed ⟨p, parsed, known, fun _ => ⟨results, after, hrun⟩⟩ rfl
  · next f after hrun => exact (Meets.fault parsed known evaluates hrun).reports.after _
  · next e after hrun => exact .halted (.evaluating parsed hrun) rfl
  · exact .outOfFuel rfl

/-- So is what follows once all names are known. -/
theorem reports_emitOn (known : p.resolve.errors = []) :
    o.Reports costs stack content fuel (o.emitOn costs stack p fuel) := by
  unfold emitOn
  extract_lets rest
  have hrest : o.Reports costs stack content fuel rest := by
    by_cases evaluates : o.evaluates = true
    · simp only [rest, if_pos evaluates]
      exact reports_evaluateOn parsed known evaluates
    · simp only [rest, if_neg evaluates]
      exact .passed ⟨p, parsed, known, fun h => absurd h evaluates⟩ rfl
  split
  · exact hrest
  · split
    · exact hrest.after _
    · next e halted => exact .halted (.printing parsed halted) rfl

/-- So is the check of the names. -/
theorem reports_checkOn :
    o.Reports costs stack content fuel (o.checkOn costs stack p fuel) := by
  unfold checkOn
  split
  · next e halted => exact .halted (.resolving parsed halted) rfl
  · next r hresolve =>
    obtain rfl : p.resolve = r := by
      unfold Program.resolveOn at hresolve
      split at hresolve
      · exact Except.ok.inj hresolve
      · cases hresolve
    apply Reports.after
    cases hfound : p.resolve.errors with
    | nil => exact reports_emitOn parsed hfound
    | cons first others => exact (Meets.unresolved parsed hfound).reports

end

/-- What has been read of a file is reported. -/
theorem reports_proceedOn {tokens : List Token} (cut : File.tokenize o.file content = .ok tokens) :
    o.Reports costs stack content fuel
      (o.proceedOn costs stack fuel (Parser.readOn costs.reading stack tokens o.nestingLimit)) := by
  unfold proceedOn
  apply Reports.after
  split
  · next e rejected => exact (Meets.grammatical cut rejected).reports
  · next e halted => exact .halted (.reading cut halted) rfl
  · next p parsed => exact (reports_checkOn ⟨tokens, cut, parsed⟩).after _

/-- A file cannot be read as text, and the system has given no reason: its path has a null character
in it, or its bytes are not UTF-8. -/
inductive Undecodable : Except FileError ByteArray → FileError → Prop
  | nullInPath : Undecodable (.error .nullInPath) .nullInPath
  | marked : Undecodable (.error .notText) .notText
  | notText {bytes : ByteArray} (invalid : ¬ bytes.IsValidUTF8) : Undecodable (.ok bytes) .notText

/-- A file that is not read as text is refused by the system or undecodable. -/
theorem system_or_undecodable {e : FileError} (h : File.decode content = .error e) :
    (∃ number reason, content = .error (.system number reason) ∧ e = .system number reason) ∨
      Undecodable content e := by
  cases content with
  | error refusal =>
    obtain rfl : refusal = e := Except.error.inj h
    cases refusal with
    | system number reason => exact .inl ⟨number, reason, rfl, rfl⟩
    | nullInPath => exact .inr .nullInPath
    | notText => exact .inr .marked
  | ok bytes =>
    by_cases valid : bytes.IsValidUTF8
    · simp [File.decode, File.text?, String.fromUTF8?, valid] at h
    · simp only [File.decode, File.text?, String.fromUTF8?, dif_neg valid, Option.map_none] at h
      obtain rfl := Except.error.inj h
      exact .inr (.notText valid)

/-- An undecodable file is not read. -/
theorem Undecodable.decode_eq {e : FileError} (h : Undecodable content e) :
    File.decode content = .error e := by
  cases h with
  | nullInPath => rfl
  | marked => rfl
  | notText invalid =>
    simp only [File.decode, File.text?, String.fromUTF8?, dif_neg invalid, Option.map_none]

/-- A run on an undecodable file breaks off. -/
theorem reportOn_of_undecodable {e : FileError} (h : Undecodable content e) :
    o.reportOn costs stack fuel content = { ending := .broken e } := by
  have hcut : File.tokenize o.file content = .error (.unreadable e) := by
    rw [File.tokenize, h.decode_eq]
  rw [reportOn, hcut]
  cases h <;> rfl

/-- A run on any other file is reported. -/
theorem reports_reportOn (h : ∀ e, ¬ Undecodable content e) :
    o.Reports costs stack content fuel (o.reportOn costs stack fuel content) := by
  unfold reportOn
  cases hcut : File.tokenize o.file content with
  | ok tokens => exact reports_proceedOn hcut
  | error mistake =>
    cases mistake with
    | source e => exact (Meets.lexical hcut).reports
    | unreadable e =>
      have hdecode : File.decode content = .error e := by
        unfold File.tokenize at hcut
        grind
      rcases system_or_undecodable hdecode with ⟨number, reason, refused, rfl⟩ | undecodable
      · exact (Meets.unreadable refused).reports
      · exact absurd undecodable (h e)

/-- A run that passes meets no mistake. -/
theorem Meets.not_passes {m : Mistake} (h : o.Meets costs stack content fuel m) :
    ¬ o.Passes costs stack content fuel := by
  intro ⟨p, ⟨tokens, cut, parsed⟩, known, hvalues⟩
  have hsame {p' : Program} (parsed' : o.Parses costs stack content p') : p = p' := by
    obtain ⟨tokens', cut', parsed'⟩ := parsed'
    obtain rfl := Except.ok.inj (cut.symm.trans cut')
    exact Except.ok.inj (parsed.symm.trans parsed')
  cases h with
  | unreadable refused => simp [File.tokenize, File.decode, refused] at cut
  | lexical rejected => simp [rejected] at cut
  | grammatical cut' rejected =>
    obtain rfl := Except.ok.inj (cut.symm.trans cut')
    simp [rejected] at parsed
  | unresolved parsed' unknown =>
    obtain rfl := hsame parsed'
    simp [unknown] at known
  | fault parsed' _ evaluates stopped =>
    obtain rfl := hsame parsed'
    obtain ⟨results, after, hrun⟩ := hvalues evaluates
    simp [hrun] at stopped

/-- Headroom of some frames is out of the range of the system. -/
def OutOfRange (stack : Stack) (frames : Int) : Prop := 2147483647 < stack.limit + frames

/-- A run is halted because the stack runs out, or because the headroom for the nesting limit, or that
for the calls of the evaluation, is out of range. -/
theorem Halts.cause {e : Stack.Error} (h : o.Halts costs stack content fuel e)
    (positive : 0 < o.nestingLimit) :
    e = .exhausted ∨ e = .outOfRange ∧ (OutOfRange stack (Parser.headroom o.nestingLimit) ∨
      OutOfRange stack (defaultCallLimit * Evaluation.Stacked.framesPerCall)) := by
  cases h with
  | reading cut halted =>
    have hpositive : 0 < Parser.headroom o.nestingLimit := by
      unfold Parser.headroom Parser.framesPerLevel
      omega
    exact (Parser.cause_of_stack hpositive halted).imp_right fun h => ⟨h.1, .inl h.2⟩
  | resolving parsed halted =>
    unfold Program.resolveOn at halted
    split at halted <;> cases halted
    exact .inl rfl
  | printing parsed halted =>
    unfold Program.sourceOn at halted
    split at halted <;> cases halted
    exact .inl rfl
  | @evaluating p e after parsed halted =>
    have hpositive : 0 < defaultCallLimit * Evaluation.Stacked.framesPerCall := by decide
    have hresult := congrArg Prod.fst halted
    exact (Evaluator.cause_of_runOn rfl hpositive rfl hresult).imp_right fun h => ⟨h.1, .inr h.2⟩

/-- What the status of a run on a file says. -/
structure StatusTells (o : Options) (costs : Costs) (stack : Stack)
    (content : Except FileError ByteArray) (fuel : Nat) (r : Report) : Prop where
  /-- If the run ends with a status, that is zero or one. -/
  status : r.ending = .finished 0 ∨ r.ending = .finished 1 ∨ r.ending = .outOfFuel ∨
    (∃ e, r.ending = .broken e) ∨ ∃ e, r.ending = .halted e
  /-- It breaks off if the file is undecodable, and for no other reason. -/
  broken : ∀ e, r.ending = .broken e ↔ Undecodable content e
  /-- It is halted because the stack runs out, or some headroom is out of range. -/
  halted : ∀ e, r.ending = .halted e → e = .exhausted ∨ e = .outOfRange ∧
    (OutOfRange stack (Parser.headroom o.nestingLimit) ∨
      OutOfRange stack (defaultCallLimit * Evaluation.Stacked.framesPerCall))
  /-- If the headroom for the nesting limit is out of range, then it is halted. -/
  overdrawn : ∀ tokens, File.tokenize o.file content = .ok tokens →
    OutOfRange stack (Parser.headroom o.nestingLimit) → ∃ e, r.ending = .halted e
  /-- With status one it has met a mistake, and ends with the diagnostics of it. -/
  one : r.ending = .finished 1 → ∃ m before, o.Meets costs stack content fuel m ∧
    m.text o.file ≠ "" ∧ r.transcript = before ++ .message (m.text o.file)
  /-- With status zero it has met none. -/
  zero : r.ending = .finished 0 → o.Passes costs stack content fuel ∧
    ∀ m, ¬ o.Meets costs stack content fuel m

/-- A run on a file of tokens is halted if the headroom for the nesting limit is out of range. -/
theorem reportOn_of_outOfRange {tokens : List Token}
    (cut : File.tokenize o.file content = .ok tokens)
    (hrange : OutOfRange stack (Parser.headroom o.nestingLimit)) :
    ∃ e, (o.reportOn costs stack fuel content).ending = .halted e := by
  have ungranted : ¬ Parser.Grants costs.reading stack o.nestingLimit := by
    rintro ⟨deeper, higher, hdeeper, hhigher⟩
    obtain ⟨_, hlimit, _⟩ := Stack.holding_eq_some_iff.mp hdeeper
    have hgranted := (Stack.raised_eq_ok_iff.mp hhigher).1
    unfold OutOfRange at hrange
    omega
  obtain ⟨e, hhalt⟩ := Parser.readOn_refused tokens ungranted
  refine ⟨e, ?_⟩
  rw [reportOn, cut]
  simp only [proceedOn, Parser.ReadingOn.program, hhalt]
  rfl

/-- What is reported of a run is what the status says. -/
theorem Reports.statusTells {r : Report} (h : o.Reports costs stack content fuel r)
    (positive : 0 < o.nestingLimit) (decodable : ∀ e, ¬ Undecodable content e)
    (overdrawn : ∀ tokens, File.tokenize o.file content = .ok tokens →
      OutOfRange stack (Parser.headroom o.nestingLimit) → ∃ e, r.ending = .halted e) :
    o.StatusTells costs stack content fuel r := by
  refine ⟨?_, ?_, ?_, overdrawn, ?_, ?_⟩
  · cases h with
    | passed passes status => exact .inl status
    | stopped meets => exact .inr (.inl rfl)
    | halted halts status => exact .inr (.inr (.inr (.inr ⟨_, status⟩)))
    | outOfFuel status => exact .inr (.inr (.inl status))
  · intro e
    have hnot : r.ending ≠ .broken e := by
      cases h with
      | passed passes status => simp [status]
      | stopped meets => simp
      | halted halts status => simp [status]
      | outOfFuel status => simp [status]
    simp [hnot, decodable e]
  · intro e hhalted
    cases h with
    | passed passes status => simp [status] at hhalted
    | stopped meets => simp at hhalted
    | halted halts status =>
      obtain rfl := Ending.halted.inj (status.symm.trans hhalted)
      exact halts.cause positive
    | outOfFuel status => simp [status] at hhalted
  · intro hone
    cases h with
    | passed passes status => simp [status] at hone
    | @stopped m before meets => exact ⟨m, before, meets, m.text_ne_empty o.file, rfl⟩
    | halted halts status => simp [status] at hone
    | outOfFuel status => simp [status] at hone
  · intro hzero
    cases h with
    | passed passes status => exact ⟨passes, fun m meets => meets.not_passes passes⟩
    | stopped meets => simp at hzero
    | halted halts status => simp [status] at hzero
    | outOfFuel status => simp [status] at hzero

/-- A file that breaks a run off is undecodable. -/
theorem Undecodable.statusTells {e : FileError} (h : Undecodable content e) :
    o.StatusTells costs stack content fuel { ending := .broken e } := by
  constructor
  · exact .inr (.inr (.inr (.inl ⟨e, rfl⟩)))
  · intro e'
    constructor
    · intro hending
      obtain rfl := Ending.broken.inj hending
      exact h
    · intro h'
      have hsame := h.decode_eq.symm.trans h'.decode_eq
      exact congrArg Ending.broken (Except.error.inj hsame)
  · simp
  · intro tokens cut
    rw [File.tokenize, h.decode_eq] at cut
    cases cut
  · simp
  · simp

end Options

/-- The status of a run says whether it met a mistake. Let arguments ask for a file and for a positive
nesting limit, whatever the file is and whatever else they ask for. If the run ends, its status is zero
or one, but for two exceptions. If the file is undecodable, and for no other reason, the run breaks off.
And the stack may halt it, because it has run out or because headroom is out of range; if the headroom
for the nesting limit is, and the file holds tokens, then it does. With status one the run has met a
mistake, and the diagnostics of the mistake are the last that it has written among the messages. With
status zero it has met none. -/
theorem run_statusTells_on_stack {arguments : List String} {o : Options}
    (accepted : Options.ofArguments arguments = .ok o) (positive : 0 < o.nestingLimit)
    (costs : Costs) (stack : Stack) (read : String → Except FileError ByteArray) (fuel : Nat) :
    o.StatusTells costs stack (read o.file) fuel (runOn costs stack arguments read fuel) := by
  rw [runOn, accepted]
  by_cases decodable : ∀ e, ¬ Options.Undecodable (read o.file) e
  · exact (Options.reports_reportOn decodable).statusTells positive decodable
      fun tokens cut => Options.reportOn_of_outOfRange cut
  · obtain ⟨e, hnot⟩ := Classical.not_forall.mp decodable
    have undecodable : Options.Undecodable (read o.file) e := Classical.not_not.mp hnot
    change o.StatusTells costs stack (read o.file) fuel (o.reportOn costs stack fuel (read o.file))
    rw [Options.reportOn_of_undecodable undecodable]
    exact undecodable.statusTells

/-- A file that is not there makes the status one, and there is a diagnostic of it. -/
theorem missing_file_is_told :
    let r := runOn .usual .usual ["a.ks", "--emit", "source", "-v"] (fun _ => .error .notFound) 1
    r.ending = .finished 1 ∧ ∃ (m : Mistake) (before : Transcript), m.text "a.ks" ≠ "" ∧
      r.transcript = before ++ .message (m.text "a.ks") := by
  intro r
  let o : Options := { file := "a.ks", emission := .source, verbose := true }
  have accepted : Options.ofArguments ["a.ks", "--emit", "source", "-v"] = .ok o := by cbv
  have htells := run_statusTells_on_stack accepted (by decide) .usual .usual
    (fun _ => .error .notFound) 1
  have hone : r.ending = .finished 1 := by
    simp only [r, runOn, accepted]
    rfl
  obtain ⟨m, before, _, htext, htranscript⟩ := htells.one hone
  exact ⟨hone, m, before, htext, htranscript⟩

/-- A byte that is no text breaks a run off, and a nesting limit of two hundred million halts it, both
without a status and without a word. -/
theorem run_ends_without_status :
    runOn .usual .usual ["bad.ks"] (fun _ => .ok ⟨#[0xff]⟩) =
      (fun _ => { ending := .broken .notText }) ∧
    runOn .usual .usual ["ok.ks", "--max-depth", "200000000"] (fun _ => .ok "1;".toUTF8) =
      fun _ => { ending := .halted .outOfRange } := by
  constructor
  · funext fuel
    have accepted : Options.ofArguments ["bad.ks"] = .ok { file := "bad.ks" } := by cbv
    have invalid : ¬ (⟨#[0xff]⟩ : ByteArray).IsValidUTF8 := by decide +kernel
    rw [runOn, accepted]
    exact Options.reportOn_of_undecodable (.notText invalid)
  · funext fuel
    have accepted : Options.ofArguments ["ok.ks", "--max-depth", "200000000"] =
        .ok { file := "ok.ks", nestingLimit := 200000000 } := by cbv
    obtain ⟨tokens, htokens⟩ : ∃ tokens, Lexer.tokenize "1;" "ok.ks" = .ok tokens :=
      Parser.exists_of_toOption_isSome (by decide +kernel)
    have cut : File.tokenize "ok.ks" (.ok "1;".toUTF8) = .ok tokens := by
      rw [File.tokenize, File.decode_toUTF8 (by decide)]
      simp only [htokens]
    rw [runOn, accepted]
    simp only [Options.reportOn, cut]
    rfl

end CommandLine

end Formulary
