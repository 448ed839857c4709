import Formulary.Expr.Basic
import Formulary.NameTable

/-!
# Programs

A program declares outside functions, defines functions, and lists formulas to evaluate, each kind
in the order of the source. Beside the lists it keeps the declaration in force for each name: the
latest one of either kind. A sealed program takes no further statements. A program can also be changed
in place, by one update after another (`Change`); each change looks first whether the program is open.
-/

namespace Formulary

/-- The name and the parameters of a function. -/
structure Prototype where
  name : String
  params : List String
  span : Option Span := none

namespace Prototype

/-- The number of parameters. -/
def arity (p : Prototype) : Nat := p.params.length

/-- Where a prototype starts. -/
def location (p : Prototype) : Option Location := p.span.map Span.first

/-- Equality of prototypes, whatever their spans. -/
instance : BEq Prototype := ⟨fun a b => a.name == b.name && a.params == b.params⟩

end Prototype

/-- A function with its body. -/
structure Definition where
  prototype : Prototype
  body : Expr

namespace Definition

/-- The name of the defined function. -/
def name (d : Definition) : String := d.prototype.name

/-- Equality of definitions, whatever their spans. -/
instance : BEq Definition := ⟨fun a b => a.prototype == b.prototype && a.body == b.body⟩

end Definition

/-- One statement of a program. -/
inductive Statement where
  | foreign (p : Prototype)
  | definition (d : Definition)
  | expression (e : Expr)

/-- What a name stands for: a function from outside, or a definition of the program together with
the number of definitions before it, which tells it from every other definition. -/
inductive Declaration where
  | foreign (p : Prototype)
  | definition (d : Definition) (rank : Nat)

namespace Declaration

/-- The prototype that a declaration gives to its name. -/
def prototype : Declaration → Prototype
  | foreign p => p
  | definition d _ => d.prototype

end Declaration

/-- The statements of a source text, by kind, and the declaration in force for each name. -/
structure Program where
  externs : List Prototype := []
  definitions : List Definition := []
  expressions : List Expr := []
  declarations : NameTable Declaration := {}
  isSealed : Bool := false

namespace Program

/-- The refusal of a sealed program. -/
structure Sealed where

/-- The text of the refusal. -/
def Sealed.message (_ : Sealed) : String :=
  "Program is sealed; it cannot be modified after parsing"

/-- The program with one more statement, whether it is sealed or not. -/
def extend (p : Program) : Statement → Program
  | .foreign q =>
    { p with
      externs := p.externs ++ [q]
      declarations := p.declarations.insert q.name (.foreign q) }
  | .definition d =>
    { p with
      definitions := p.definitions ++ [d]
      declarations := p.declarations.insert d.name (.definition d p.definitions.length) }
  | .expression e => { p with expressions := p.expressions ++ [e] }

/-- Add a statement. A sealed program refuses. -/
def add (p : Program) (s : Statement) : Except Sealed Program :=
  if p.isSealed then .error {} else .ok (p.extend s)

/-- Close a program against further statements. -/
def close (p : Program) : Program := { p with isSealed := true }

/-- The open program of a list of statements. -/
def ofStatements (statements : List Statement) : Program := statements.foldl extend {}

/-- The open program with the given lists: outside functions first, then definitions, then
formulas. -/
def ofLists (externs : List Prototype) (definitions : List Definition) (expressions : List Expr) :
    Program :=
  ofStatements
    (externs.map .foreign ++ definitions.map .definition ++ expressions.map .expression)

/-- The declaration in force for a name. -/
def declaration? (p : Program) (name : String) : Option Declaration := p.declarations.get? name

/-- The prototype in force for a name. -/
def prototype? (p : Program) (name : String) : Option Prototype :=
  (p.declaration? name).map Declaration.prototype

/-- The prototypes of a program, outside functions first. -/
def prototypes (p : Program) : List Prototype :=
  p.externs ++ p.definitions.map Definition.prototype

/-- The prototypes in force, in the order in which their names were first declared. -/
def signatures (p : Program) : List Prototype := p.declarations.values.map Declaration.prototype

/-- Programs are equal when their lists are. -/
instance : BEq Program :=
  ⟨fun a b => a.externs == b.externs && a.definitions == b.definitions
    && a.expressions == b.expressions⟩

@[simp] theorem ofStatements_nil : ofStatements [] = {} := rfl

theorem ofStatements_append (a b : List Statement) :
    ofStatements (a ++ b) = b.foldl extend (ofStatements a) := by
  simp [ofStatements, List.foldl_append]

/-- A sealed program keeps what it has. -/
theorem add_close (p : Program) (s : Statement) : p.close.add s = .error {} := rfl

/-! ### Changes in place -/

/-- A change of a program in place. It may be refused; what it did before the refusal stays done. -/
abbrev Change := ExceptT Sealed (StateM Program)

namespace Change

/-- Refuse to go on with a sealed program. -/
def checkOpen : Change Unit := do
  if (← get).isSealed then throw {}

/-- List an outside function and put it in force. -/
def addForeign (q : Prototype) : Change Unit := do
  checkOpen
  modify fun p => { p with externs := p.externs ++ [q] }
  modify fun p => { p with declarations := p.declarations.insert q.name (.foreign q) }

/-- List a definition and put it in force. -/
def addDefinition (d : Definition) : Change Unit := do
  checkOpen
  let rank := (← get).definitions.length
  modify fun p => { p with definitions := p.definitions ++ [d] }
  modify fun p => { p with declarations := p.declarations.insert d.name (.definition d rank) }

/-- List a formula. -/
def addExpression (e : Expr) : Change Unit := do
  checkOpen
  modify fun p => { p with expressions := p.expressions ++ [e] }

/-- Add a statement. -/
def add : Statement → Change Unit
  | .foreign q => addForeign q
  | .definition d => addDefinition d
  | .expression e => addExpression e

/-- Close the program against further statements. -/
def close : Change Unit := modify Program.close

/-- Adding in place leads to the program with the statement, or to a refusal with nothing changed. -/
theorem run_add (s : Statement) (p : Program) : (add s).run.run p =
    match p.add s with
    | .ok q => (.ok (), q)
    | .error refusal => (.error refusal, p) := by
  obtain ⟨externs, definitions, expressions, declarations, isSealed⟩ := p
  cases isSealed with
  | true => cases s <;> rfl
  | false => cases s <;> rfl

end Change

end Program

end Formulary
