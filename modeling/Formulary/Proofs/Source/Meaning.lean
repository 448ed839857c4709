import Formulary.Proofs.Evaluation.Spans
import Formulary.Proofs.Source.RoundTrip

/-!
# Canonical text and meaning

The text of a program has its statements in canonical order, and reading it again gives the same
statements, but for their spans. What that program means therefore differs from what the first one
means exactly by what the order of declarations decides: a name declared outside after it was defined
stands for its definition again.
-/

namespace Formulary

open Formulary.Evaluation Formulary.Parser

/-- The code of the fault that an outcome ends with. -/
def Evaluation.Outcome.code? {α : Type} : Outcome α → Option String
  | .fault f _ => f.diagnostic.code
  | _ => none

namespace Program

/-- What canonical text keeps of a program `p` in the program `q` that is read from it. -/
structure Keeps (p q : Program) : Prop where
  /-- A name that is not overridden has the same prototype. -/
  prototype : ∀ name, ¬ p.Overridden name →
    (q.prototype? name).map Prototype.bare = (p.prototype? name).map Prototype.bare
  /-- A name that is overridden has the prototype of its last definition. -/
  overridden : ∀ name, p.Overridden name → ∃ d,
    (p.definitions.filter fun d => d.name == name).getLast? = some d ∧
      (q.prototype? name).map Prototype.bare = some d.prototype.bare
  /-- The resolver finds the same errors, if what is called has as many parameters. -/
  errors : (∀ name ∈ p.callees, Resolution.SameArity p q name) →
    q.resolve.errors.map ResolutionError.bare = p.resolve.errors.map ResolutionError.bare
  /-- Runs come to the same, if no name that they can call is overridden. -/
  runs : ∀ callable, p.RunsWithin callable → (∀ name, callable name → ¬ p.Overridden name) →
    ∀ added, Blind callable added → ∀ callLimit printsResults fuel,
      ((Evaluator.ofProgram p added callLimit printsResults).run p fuel).Alike
        ((Evaluator.ofProgram q added callLimit printsResults).run q fuel)

/-- A program of the statements of another in canonical order keeps what canonical text keeps. -/
theorem keeps_of_statements {ss reread : List Statement}
    (h : reread.map Statement.bare = (ofStatements ss).close.statements.map Statement.bare) :
    (ofStatements ss).close.Keeps (ofStatements reread).close := by
  have hp := (built_ofStatements ss).close
  have hq := (built_ofStatements reread).close
  have halike := alike_of_statements h
  constructor
  · intro name hname
    exact prototype?_of_declared (declared_of_not_overridden h hname)
  · intro name hname
    obtain ⟨d, hlast, hd⟩ := declared_of_overridden h hname
    refine ⟨d, hlast, ?_⟩
    rw [prototype?_of_declared_definition hd]
    rfl
  · intro same
    have hnames := hp.names_perm hq fun name => (declared_eq_none_iff h).symm
    exact Resolution.errors_of_same hnames same halike.definitions.symm halike.expressions.symm
  · intro callable within kept added blind callLimit printsResults fuel
    let w : Setting := { program := (ofStatements ss).close, added, callLimit }
    let w' : Setting := { program := (ofStatements reread).close, added, callLimit }
    have hsettings : w.Alike callable w' :=
      { built := hp
        built' := hq
        runsWithin := within
        declared := fun name hname => (declared_of_not_overridden h (kept name hname)).symm
        added := rfl
        blind
        callLimit := rfl }
    exact Evaluator.run_alike hsettings printsResults fuel halike.expressions.symm

/-- A text that is read as a program is the text of tokens that are. -/
theorem ofSource_eq_ok_iff {source filename : String} {limit : Int} {p : Program} :
    ofSource source filename limit = .ok p ↔
      ∃ ts, Lexer.tokenize source filename = .ok ts ∧ parse ts limit = .ok p := by
  unfold ofSource
  cases Lexer.tokenize source filename with
  | error e => simp
  | ok ts => cases hparse : parse ts limit <;> simp [hparse]

/-- What was read is a program of statements. -/
theorem exists_ofStatements {source filename : String} {limit : Int} {p : Program}
    (h : ofSource source filename limit = .ok p) : ∃ ss, p = (ofStatements ss).close := by
  unfold ofSource at h
  split at h
  · contradiction
  split at h
  · contradiction
  next parsed hparse =>
    obtain rfl := Except.ok.inj h
    obtain ⟨_, ss, _, _, _, hp⟩ := parse_reads hparse
    exact ⟨ss, hp⟩

/-- What was read is built. -/
theorem built_of_ofSource {source filename : String} {limit : Int} {p : Program}
    (h : ofSource source filename limit = .ok p) : p.Built := by
  obtain ⟨ss, rfl⟩ := exists_ofStatements h
  exact (built_ofStatements ss).close

/-- Canonical text is read as the statements in canonical order. -/
theorem exists_reread {p : Program} {limit : Int} (h : p.Printable limit) (filename : String) :
    ∃ ss, ofSource p.source filename limit = .ok (ofStatements ss).close ∧
      ss.map Statement.bare = p.statements.map Statement.bare := by
  obtain ⟨tokens, htokens, hcontents⟩ := tokenize_source h.proper filename
  have hfits : ∀ k ∈ p.statements.map Statement.canonical, k.Fits limit :=
    List.forall_mem_map.mpr fun s hs =>
      Statement.fits_canonical (h.distinct s hs) (h.height_le s hs)
  obtain ⟨ss, hparse, hbare⟩ := parse_finds hcontents.symm hfits
  refine ⟨ss, ?_, ?_⟩
  · rw [ofSource, htokens]
    simp only
    rw [hparse]
  · rw [hbare, List.filterMap_map, ← List.filterMap_eq_map]
    congr 1
    funext s
    exact s.statement_canonical

/-- What holds of a value that was computed, as a test on the outcome. -/
theorem exists_of_toOption {ε α : Type} {r : Except ε α} {P : α → Prop}
    (h : ∃ a ∈ r.toOption, P a) : ∃ a, r = .ok a ∧ P a := by
  obtain ⟨a, ha, hP⟩ := h
  refine ⟨a, ?_, hP⟩
  cases r with
  | error e => contradiction
  | ok b => exact congrArg Except.ok (Option.some.inj ha)

/-- The canonical text of a program that was read is read within the same nesting limit, and the
program that is read from it keeps the meaning of the first: the prototype of every name that is not
overridden, the errors of the resolver if what is called has as many parameters as before, and what
runs come to if they call no name that is overridden. A name that is overridden has the prototype of
its last definition. -/
theorem canonical_text_keeps_meaning {source filename : String} {limit : Int} {p : Program}
    (h : ofSource source filename limit = .ok p) (filename' : String) :
    ∃ q, ofSource p.source filename' limit = .ok q ∧ p.Keeps q := by
  have hprintable := printable_of_ofSource h
  obtain ⟨ss, rfl⟩ := exists_ofStatements h
  obtain ⟨reread, hread, hstatements⟩ := exists_reread hprintable filename'
  exact ⟨_, hread, keeps_of_statements hstatements⟩

/-- An override that is not called changes no run. -/
theorem uncalled_override_keeps_runs :
    ∃ p q, ofSource "def f(x) x; extern f(a b); extern g(); g();" "f.k" 2 = .ok p ∧
      ofSource p.source "f.k" 2 = .ok q ∧ p.Overridden "f" ∧
        ∀ fuel, ((Evaluator.ofProgram p).run p fuel).Alike ((Evaluator.ofProgram q).run q fuel) := by
  have hread : ∃ p ∈ (ofSource "def f(x) x; extern f(a b); extern g(); g();" "f.k" 2).toOption,
      p.Overridden "f" ∧ ¬ p.Overridden "g" ∧ (∃ g, p.declaration? "g" = some (.foreign g)) ∧
        ∀ e ∈ p.expressions, ∀ name ∈ e.callees, name = "g" := by decide +kernel
  obtain ⟨p, hp, hf, hnot, ⟨g, hg⟩, hformulas⟩ := exists_of_toOption hread
  obtain ⟨q, hq, hkeeps⟩ := canonical_text_keeps_meaning hp "f.k"
  refine ⟨p, q, hp, hq, hf, ?_⟩
  have within : p.RunsWithin (· = "g") := by
    refine ⟨hformulas, ?_⟩
    rintro _ d rank rfl hd
    rw [hg] at hd
    cases hd
  exact hkeeps.runs (· = "g") within (fun name hname => hname ▸ hnot) {} (fun _ _ h => nomatch h)
    defaultCallLimit false

/-- An override may change a prototype, and with it the errors of the resolver and of a run. -/
theorem override_changes_meaning :
    ∃ p q, ofSource "def f(x) x; extern f(a b); f(1, 2);" "f.k" 2 = .ok p ∧
      ofSource p.source "f.k" 2 = .ok q ∧
      (p.prototype? "f").map Prototype.params = some ["a", "b"] ∧
      (q.prototype? "f").map Prototype.params = some ["x"] ∧
      p.resolve.errors.map ResolutionError.cause = [] ∧
      q.resolve.errors.map ResolutionError.cause = [.arityMismatch "f" 1 2] ∧
      ((Evaluator.ofProgram p).run p 5 {}).code? = some "R010" ∧
      ((Evaluator.ofProgram q).run q 5 {}).code? = some "R002" := by
  have hread : ∃ p ∈ (ofSource "def f(x) x; extern f(a b); f(1, 2);" "f.k" 2).toOption,
      (∃ q ∈ (ofSource p.source "f.k" 2).toOption,
        (q.prototype? "f").map Prototype.params = some ["x"] ∧
          q.resolve.errors.map ResolutionError.cause = [.arityMismatch "f" 1 2] ∧
            ((Evaluator.ofProgram q).run q 5 {}).code? = some "R002") ∧
      (p.prototype? "f").map Prototype.params = some ["a", "b"] ∧
        p.resolve.errors.map ResolutionError.cause = [] ∧
          ((Evaluator.ofProgram p).run p 5 {}).code? = some "R010" := by decide +kernel
  obtain ⟨p, hp, hq, hparams, herrors, hcode⟩ := exists_of_toOption hread
  obtain ⟨q, hq, hparams', herrors', hcode'⟩ := exists_of_toOption hq
  exact ⟨p, q, hp, hq, hparams, hparams', herrors, herrors', hcode, hcode'⟩

end Program

end Formulary
