import Formulary.Proofs.Evaluation.Spans

/-!
# The latest declaration of a name

A run looks up names in two tables, which are filled in different ways: the declarations in force,
which statements of both kinds change, and the definitions that the evaluator knows, which only
definitions change. What a name leads to in the two together is nevertheless what its last
declaration says (`latest`), and neither the declarations before it nor the order in which different
names are declared plays a part. Programs whose names have the same last declarations therefore run
alike, and come to the very same, with the places of faults, if nothing but the spans of prototypes
differs.
-/

namespace Formulary

open Evaluation

/-- What is declared under a name: the parameters, and a body unless the function is from outside.
-/
structure Latest where
  params : List String
  body : Option Expr

namespace Latest

/-- What is declared, without spans. -/
def bare (l : Latest) : Latest := { l with body := l.body.map Expr.bare }

/-- The declaration of a name, without spans. -/
def declaring (name : String) : Latest → Statement
  | ⟨params, none⟩ => .foreign ⟨name, params, none⟩
  | ⟨params, some body⟩ => .definition ⟨⟨name, params, none⟩, body.bare⟩

/-- It depends on what is declared without spans. -/
theorem declaring_bare (name : String) (l : Latest) : l.bare.declaring name = l.declaring name := by
  obtain ⟨params, body⟩ := l
  cases body <;> simp [bare, declaring]

end Latest

/-- What a statement declares under its name, if it is a declaration. -/
def Statement.latest? : Statement → Option Latest
  | .foreign q => some ⟨q.params, none⟩
  | .definition d => some ⟨d.prototype.params, some d.body⟩
  | .expression _ => none

namespace Program

/-- What the last declaration of a name among statements says. -/
def latest (ss : List Statement) (name : String) : Option Latest :=
  (ss.filter (Statement.declares name)).getLast?.bind Statement.latest?

/-- A program of some statements, sealed or not. -/
def ConsistsOf (ss : List Statement) (p : Program) : Prop :=
  p = ofStatements ss ∨ p = (ofStatements ss).close

namespace ConsistsOf

variable {ss : List Statement} {p : Program} (h : p.ConsistsOf ss)

include h

/-- Such a program is built. -/
theorem built : p.Built := by
  rcases h with rfl | rfl
  · exact built_ofStatements ss
  · exact (built_ofStatements ss).close

/-- The declaration in force is the last one of the name. -/
theorem declaration?_eq (name : String) : (p.declaration? name).map Declaration.statement =
    (ss.filter (Statement.declares name)).getLast? := by
  rcases h with rfl | rfl
  · exact declaration?_ofStatements ss name
  · exact declaration?_ofStatements ss name

/-- What is last declared is what the declaration in force says. -/
theorem latest_eq (name : String) :
    latest ss name = (p.declaration? name).bind fun d => d.statement.latest? := by
  rw [latest, ← h.declaration?_eq, Option.bind_map]
  rfl

/-- The parameters in force are those of the last declaration. -/
theorem params_eq (name : String) :
    (p.prototype? name).map Prototype.params = (latest ss name).map Latest.params := by
  rw [h.latest_eq, prototype?]
  cases p.declaration? name with
  | none => rfl
  | some declaration => cases declaration <;> rfl

/-- The body that a call runs is that of the last declaration. -/
theorem body_eq (added : NameTable (List Float → Routine)) (callLimit : Int) (printsResults : Bool)
    (name : String) :
    ((Evaluator.ofProgram p added callLimit printsResults).definition? p name).map Definition.body =
      (latest ss name).bind Latest.body := by
  rw [h.latest_eq, Evaluator.definition?_ofProgram h.built]
  cases p.declaration? name with
  | none => rfl
  | some declaration => cases declaration <;> rfl

/-- Without spans, the last declaration of a name says all that is in force for it. -/
theorem declared_eq (name : String) :
    p.declared name = (latest ss name).map (Latest.declaring name) := by
  have hlast := h.declaration?_eq name
  rw [h.latest_eq, declared]
  cases hdeclaration : p.declaration? name with
  | none => rfl
  | some declaration =>
    rw [hdeclaration] at hlast
    have hmem : declaration.statement ∈ ss.filter (Statement.declares name) :=
      List.mem_of_getLast? hlast.symm
    have hname : declaration.statement.declares name = true := (List.mem_filter.mp hmem).2
    cases declaration with
    | foreign q =>
      obtain rfl : q.name = name := beq_iff_eq.mp hname
      rfl
    | definition d rank =>
      obtain rfl : d.name = name := beq_iff_eq.mp hname
      rfl

end ConsistsOf

/-- Last declarations that are the same without spans put the same in force. -/
theorem declared_eq_of_latest {ss ss' : List Statement} {p p' : Program} (h : p.ConsistsOf ss)
    (h' : p'.ConsistsOf ss') {name : String}
    (hlatest : (latest ss name).map Latest.bare = (latest ss' name).map Latest.bare) :
    p.declared name = p'.declared name := by
  have hbare : Latest.declaring name ∘ Latest.bare = Latest.declaring name :=
    funext fun l => l.declaring_bare name
  rw [h.declared_eq, h'.declared_eq, ← hbare, ← Option.map_map, ← Option.map_map, hlatest]

end Program

/-! ### Evaluators that find the same -/

namespace Evaluator

/-- Two evaluators find the same parameters and the same body for every name in their programs, and
are otherwise the same. -/
structure FindSame (ev ev' : Evaluator) (p p' : Program) : Prop where
  params : ∀ name,
    (p.prototype? name).map Prototype.params = (p'.prototype? name).map Prototype.params
  body : ∀ name,
    (ev.definition? p name).map Definition.body = (ev'.definition? p' name).map Definition.body
  added : ev.added = ev'.added
  invoke : ev.invoke = ev'.invoke
  callLimit : ev.callLimit = ev'.callLimit

/-- With some fuel two evaluators come to the same in their programs. -/
structure EqualWithin (ev ev' : Evaluator) (p p' : Program) (fuel : Nat) : Prop where
  expression : ∀ e, eval ev p fuel e = eval ev' p' fuel e
  expressions : ∀ es, evalAll ev p fuel es = evalAll ev' p' fuel es
  turn : ∀ name stop step body, turn ev p fuel name stop step body =
    turn ev' p' fuel name stop step body
  call : ∀ node name values, call ev p fuel node name values = call ev' p' fuel node name values
  perform : ∀ routine, perform ev p fuel routine = perform ev' p' fuel routine

variable {ev ev' : Evaluator} {p p' : Program} {fuel : Nat}

namespace EqualWithin

/-- Without fuel nothing ends. -/
theorem zero (ev ev' : Evaluator) (p p' : Program) : EqualWithin ev ev' p p' 0 := by
  constructor
  · intro e
    cases e <;> rfl
  · intro es
    cases es <;> rfl
  · intros
    rfl
  · intros
    rfl
  · intro routine
    cases routine <;> rfl

variable (within : EqualWithin ev ev' p p' fuel)

include within

/-- With more fuel they come to the same on every tree. -/
theorem expression_succ (e : Expr) : eval ev p (fuel + 1) e = eval ev' p' (fuel + 1) e := by
  cases e with
  | number value span => rfl
  | var name span => rfl
  | binary op left right span => rw [eval, eval, within.expression left, within.expression right]
  | call name arguments span =>
    rw [eval, eval, within.expressions arguments]
    simp only [within.call]
  | cond condition consequent alternative span =>
    rw [eval, eval, within.expression condition, within.expression consequent,
      within.expression alternative]
  | loop name start stop step body span =>
    rw [eval, eval, within.expression start]
    simp only [within.turn]

/-- They do on every list of trees. -/
theorem expressions_succ (es : List Expr) :
    evalAll ev p (fuel + 1) es = evalAll ev' p' (fuel + 1) es := by
  cases es with
  | nil => rfl
  | cons e rest => rw [evalAll, evalAll, within.expression e, within.expressions rest]

/-- They do on every turn of a loop. -/
theorem turn_succ (name : String) (stop : Expr) (step : Option Expr) (body : Expr) :
    Evaluator.turn ev p (fuel + 1) name stop step body =
      Evaluator.turn ev' p' (fuel + 1) name stop step body := by
  cases step <;> simp only [Evaluator.turn, within.expression, within.turn]

/-- They do on every routine. -/
theorem perform_succ (routine : Routine) :
    Evaluator.perform ev p (fuel + 1) routine = Evaluator.perform ev' p' (fuel + 1) routine := by
  cases routine with
  | done answer => cases answer <;> rfl
  | call name arguments next =>
    rw [Evaluator.perform, Evaluator.perform, within.call]
    simp only [within.perform]
  | evaluate e bindings next =>
    rw [Evaluator.perform, Evaluator.perform, within.expression]
    simp only [within.perform]

/-- They do on every call, since they find the same for its name. -/
theorem call_succ (same : FindSame ev ev' p p') (node : Option Expr) (name : String)
    (values : List Float) : Evaluator.call ev p (fuel + 1) node name values =
      Evaluator.call ev' p' (fuel + 1) node name values := by
  have hparams := same.params name
  have hbody := same.body name
  rw [Evaluator.call, Evaluator.call]
  cases hp : p.prototype? name with
  | none =>
    rw [hp, Option.map_none, eq_comm, Option.map_eq_none_iff] at hparams
    rw [hparams]
  | some q =>
    rw [hp, Option.map_some, eq_comm, Option.map_eq_some_iff] at hparams
    obtain ⟨q', hp', hq⟩ := hparams
    have harity : q'.arity = q.arity := congrArg List.length hq
    rw [hp']
    cases hd : ev.definition? p name with
    | none =>
      rw [hd, Option.map_none, eq_comm, Option.map_eq_none_iff] at hbody
      simp only [hbody, harity, same.added, same.invoke, within.perform]
    | some d =>
      rw [hd, Option.map_some, eq_comm, Option.map_eq_some_iff] at hbody
      obtain ⟨d', hd', hbody⟩ := hbody
      simp only [hd', harity, hq, hbody, same.callLimit, within.expression]

end EqualWithin

/-- Evaluators that find the same come to the same, whatever the fuel. -/
theorem FindSame.equalWithin (same : FindSame ev ev' p p') (fuel : Nat) :
    EqualWithin ev ev' p p' fuel := by
  induction fuel with
  | zero => exact .zero ev ev' p p'
  | succ fuel within =>
    constructor
    · exact within.expression_succ
    · exact within.expressions_succ
    · exact within.turn_succ
    · exact within.call_succ same
    · exact within.perform_succ

/-- They do on formulas that are evaluated one after the other. -/
theorem FindSame.evaluateAll_eq (same : FindSame ev ev' p p')
    (prints : ev.printsResults = ev'.printsResults) (fuel : Nat) (es : List Expr) :
    ev.evaluateAll p fuel es = ev'.evaluateAll p' fuel es := by
  induction es with
  | nil => rfl
  | cons e rest ih =>
    rw [evaluateAll, evaluateAll, evaluate, evaluate, (same.equalWithin fuel).expression e, prints,
      ih]

/-- Only the latest declaration of each name matters to a run. Let two programs be made of
statements, in which every name has the same last declaration but for spans: none, a function from
outside with the same parameters, or a definition with the same parameters and body. If their
formulas are the same but for spans, their runs come to the same but for the places of faults,
whatever was declared before and in whatever order. If only the spans of prototypes differ, the
runs come to the very same. -/
theorem run_depends_on_latest {ss ss' : List Statement} (hp : p.ConsistsOf ss)
    (hp' : p'.ConsistsOf ss')
    (hlatest : ∀ name, (Program.latest ss name).map Latest.bare =
      (Program.latest ss' name).map Latest.bare)
    (hformulas : p.expressions.map Expr.bare = p'.expressions.map Expr.bare)
    (added : NameTable (List Float → Routine)) (callLimit : Int) (printsResults : Bool)
    (fuel : Nat) :
    let run := (ofProgram p added callLimit printsResults).run p fuel
    let run' := (ofProgram p' added callLimit printsResults).run p' fuel
    (Blind (fun _ => True) added → run.Alike run') ∧
    ((∀ name, Program.latest ss name = Program.latest ss' name) →
      p.expressions = p'.expressions → run = run') := by
  intro run run'
  constructor
  · intro blind
    have hdeclared (name : String) := Program.declared_eq_of_latest hp hp' (hlatest name)
    exact run_alike_of_declared hp.built hp'.built hdeclared hformulas blind callLimit printsResults
      fuel
  · intro hequal hexpressions
    have same : FindSame (ofProgram p added callLimit printsResults)
        (ofProgram p' added callLimit printsResults) p p' :=
      { params := fun name => by rw [hp.params_eq, hp'.params_eq, hequal]
        body := fun name => by rw [hp.body_eq, hp'.body_eq, hequal]
        added := rfl
        invoke := rfl
        callLimit := rfl }
    change (ofProgram p added callLimit printsResults).evaluateAll p fuel p.expressions =
      (ofProgram p' added callLimit printsResults).evaluateAll p' fuel p'.expressions
    rw [hexpressions]
    exact same.evaluateAll_eq rfl fuel p'.expressions

/-- A name that was defined, declared outside and defined again runs like one that was defined once,
in front of the other names. -/
theorem run_depends_on_latest_redefined :
    let double : Statement := .definition ⟨⟨"f", ["x"], none⟩,
      .binary .plus (.var "x" none) (.var "x" none) none⟩
    let formula : Statement := .expression (.call "f" [.number 2.0 none] none)
    let p := Program.ofStatements [double, formula, .foreign ⟨"sin", ["x"], none⟩]
    let p' := Program.ofStatements [.definition ⟨⟨"f", [], none⟩, .number 7.0 none⟩,
      .foreign ⟨"f", ["a", "b"], none⟩, .foreign ⟨"sin", ["x"], none⟩, formula, double]
    (ofProgram p {} defaultCallLimit true).run p 20 =
      (ofProgram p' {} defaultCallLimit true).run p' 20 := by
  intro double formula p p'
  have hlatest (name : String) :
      Program.latest [double, formula, .foreign ⟨"sin", ["x"], none⟩] name =
        Program.latest [.definition ⟨⟨"f", [], none⟩, .number 7.0 none⟩,
          .foreign ⟨"f", ["a", "b"], none⟩, .foreign ⟨"sin", ["x"], none⟩, formula, double]
          name := by
    by_cases hf : "f" = name
    · subst hf
      rfl
    · by_cases hsin : "sin" = name
      · subst hsin
        rfl
      · simp [Program.latest, Statement.declares, Definition.name, double, formula, hf, hsin]
  have hformulas : p.expressions.map Expr.bare = p'.expressions.map Expr.bare := rfl
  have hruns := run_depends_on_latest (.inl rfl) (.inl rfl)
    (fun name => congrArg (Option.map Latest.bare) (hlatest name)) hformulas {} defaultCallLimit
    true 20
  exact hruns.2 hlatest rfl

end Evaluator

end Formulary
