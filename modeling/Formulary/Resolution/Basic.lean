import Formulary.Program
import Formulary.Resolution.Distance
import Formulary.Resolution.Error

/-!
# Resolving names

Every call must name a declared function and pass as many arguments as the declaration in force has
parameters. Every variable must be a parameter of the definition around it, or the variable of a
loop in whose end, step or body it stands. A top-level formula has no parameters. All mistakes are
reported: the definitions in their order, then the formulas, each tree in preorder.

A definition of a name that was defined before draws a warning, and so does a declaration whose
number of parameters differs from that of the declaration of the same name before it, where
outside functions count as declared before all definitions.

All this is on a stack that is deep enough; `Formulary.Expr.OnStack` is about any stack.
-/

namespace Formulary

/-- The errors and warnings of a program. -/
structure Resolution where
  errors : List ResolutionError
  warnings : List ResolutionWarning

namespace Resolution

/-- The prototype that a call is checked against, or what is wrong with the call. -/
def target (p : Program) (function : Option String) (node : Expr) (name : String) (arity : Nat) :
    Except ResolutionError Prototype :=
  match p.prototype? name with
  | none =>
    let similar := similarNames name p.declarations.names
    .error ⟨.unknownFunction name similar, node.location, node, function⟩
  | some prototype =>
    if prototype.arity = arity then .ok prototype
    else .error ⟨.arityMismatch name prototype.arity arity, node.location, node, function⟩

/-- A warning for each definition of a name that was defined before. -/
def redefinitions : List String → List Definition → List ResolutionWarning
  | _, [] => []
  | seen, d :: rest =>
    let warnings := redefinitions (d.name :: seen) rest
    if d.name ∈ seen then ⟨.redefinition d.name "definition", d.prototype.location⟩ :: warnings
    else warnings

/-- A warning for each declaration that has another number of parameters than the one before it,
given the numbers of parameters last seen. -/
def conflicts : NameTable Nat → List Prototype → List ResolutionWarning
  | _, [] => []
  | seen, q :: rest =>
    let warnings := conflicts (seen.insert q.name q.arity) rest
    match seen.get? q.name with
    | none => warnings
    | some previous =>
      if previous = q.arity then warnings
      else ⟨.signatureConflict q.name previous q.arity, q.location⟩ :: warnings

/-- The warnings of a program. -/
def warningsOf (p : Program) : List ResolutionWarning :=
  redefinitions [] p.definitions ++
    conflicts {} (p.externs ++ p.definitions.map Definition.prototype)

end Resolution

/-- A resolver of a program: what it has found so far, the scopes around the place where it is, the
innermost first, and the definition around it. -/
structure Resolver where
  program : Program
  errors : List ResolutionError := []
  warnings : List ResolutionWarning := []
  scopes : List (List String) := []
  function : Option String := none

namespace Resolver

/-- Note down an error. -/
def report (r : Resolver) (e : ResolutionError) : Resolver := { r with errors := r.errors ++ [e] }

/-- Open a scope. -/
def enter (r : Resolver) (names : List String) : Resolver := { r with scopes := names :: r.scopes }

/-- Close the innermost scope. -/
def leave (r : Resolver) : Resolver := { r with scopes := r.scopes.tail }

/-- The prototype that a call is checked against, or what is wrong with the call. -/
def resolveCall (r : Resolver) (node : Expr) (name : String) (arity : Nat) :
    Except ResolutionError Prototype :=
  Resolution.target r.program r.function node name arity

mutual

/-- Check a tree in the scopes that are open. A call is checked before its arguments, and they are
checked whatever is wrong with it. -/
def visit : Expr → Resolver → Resolver
  | .number _ _, r => r
  | .var name span, r =>
    if r.scopes.any fun scope => name ∈ scope then r
    else r.report ⟨.unknownVariable name, span.map Span.first, some (.var name span), r.function⟩
  | .binary _ left right _, r => visit right (visit left r)
  | .call name arguments span, r =>
    match r.resolveCall (.call name arguments span) name arguments.length with
    | .ok _ => visitAll arguments r
    | .error e => visitAll arguments (r.report e)
  | .cond condition consequent alternative _, r =>
    visit alternative (visit consequent (visit condition r))
  | .loop name start stop none body _, r =>
    (visit body (visit stop ((visit start r).enter [name]))).leave
  | .loop name start stop (some step) body _, r =>
    (visit body (visit step (visit stop ((visit start r).enter [name])))).leave

/-- Check the trees of a list. -/
def visitAll : List Expr → Resolver → Resolver
  | [], r => r
  | e :: rest, r => visitAll rest (visit e r)

end

/-- Check a tree in a scope of its own, as part of a definition or at the top level. -/
def resolveInScope (r : Resolver) (e : Expr) (names : List String) (function : Option String) :
    Resolver :=
  { visit e { r with scopes := [names], function } with function := none }

/-- Note down the warnings about declarations. -/
def checkDeclarations (r : Resolver) : Resolver :=
  { r with warnings := r.warnings ++ Resolution.warningsOf r.program }

/-- Check the program, forgetting what was found before. -/
def resolve (r : Resolver) : Resolution × Resolver :=
  let checked := { r with errors := [], warnings := [] }.checkDeclarations
  let bodies := r.program.definitions.foldl
    (fun r d => r.resolveInScope d.body d.prototype.params (some d.name)) checked
  let last := r.program.expressions.foldl (fun r e => r.resolveInScope e [] none) bodies
  ({ errors := last.errors, warnings := last.warnings }, last)

end Resolver

/-- Check the names of a program. -/
def Program.resolve (p : Program) : Resolution := (Resolver.resolve { program := p }).1

end Formulary
