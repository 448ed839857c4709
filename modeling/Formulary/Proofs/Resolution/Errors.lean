import Formulary.Resolution.Basic

/-!
# The errors of a program

What a resolver finds, said without a resolver: the errors in a tree are those at its root and those
in its parts, and depend on the variables in scope. A resolver that visits the tree adds them to
those it has found, and leaves everything else as it was (`visit_eq`).
-/

namespace Formulary

namespace Resolution

/-- What is wrong with a call itself, its arguments apart. -/
def callErrors (p : Program) (function : Option String) (node : Expr) (name : String)
    (arity : Nat) : List ResolutionError :=
  match target p function node name arity with
  | .ok _ => []
  | .error e => [e]

mutual

/-- The errors in a tree, given the variables in scope. -/
def exprErrors (p : Program) (function : Option String) :
    List String → Expr → List ResolutionError
  | _, .number _ _ => []
  | scope, .var name span =>
    if name ∈ scope then []
    else [⟨.unknownVariable name, span.map Span.first, some (.var name span), function⟩]
  | scope, .binary _ left right _ =>
    exprErrors p function scope left ++ exprErrors p function scope right
  | scope, .call name arguments span =>
    callErrors p function (.call name arguments span) name arguments.length ++
      exprsErrors p function scope arguments
  | scope, .cond condition consequent alternative _ =>
    exprErrors p function scope condition ++ (exprErrors p function scope consequent ++
      exprErrors p function scope alternative)
  | scope, .loop name start stop none body _ =>
    exprErrors p function scope start ++ (exprErrors p function (name :: scope) stop ++
      exprErrors p function (name :: scope) body)
  | scope, .loop name start stop (some step) body _ =>
    exprErrors p function scope start ++ (exprErrors p function (name :: scope) stop ++
      (exprErrors p function (name :: scope) step ++ exprErrors p function (name :: scope) body))

/-- The errors in the trees of a list. -/
def exprsErrors (p : Program) (function : Option String) :
    List String → List Expr → List ResolutionError
  | _, [] => []
  | scope, e :: rest => exprErrors p function scope e ++ exprsErrors p function scope rest

end

/-- The errors of a program. -/
def errorsOf (p : Program) : List ResolutionError :=
  p.definitions.flatMap (fun d => exprErrors p (some d.name) d.prototype.params d.body) ++
    p.expressions.flatMap (exprErrors p none [])

end Resolution

namespace Resolver

open Resolution

/-- A resolver that has found more errors. -/
def found (r : Resolver) (more : List ResolutionError) : Resolver :=
  { r with errors := r.errors ++ more }

section

variable (r : Resolver) (more others : List ResolutionError)

@[simp] theorem found_nil : r.found [] = r := by
  simp [found]

@[simp] theorem found_found : (r.found more).found others = r.found (more ++ others) := by
  simp [found]

@[simp] theorem program_found : (r.found more).program = r.program := rfl

@[simp] theorem function_found : (r.found more).function = r.function := rfl

@[simp] theorem scopes_found : (r.found more).scopes = r.scopes := rfl

@[simp] theorem enter_found (names : List String) :
    (r.found more).enter names = (r.enter names).found more := rfl

@[simp] theorem leave_found : (r.found more).leave = r.leave.found more := rfl

@[simp] theorem leave_enter (names : List String) : (r.enter names).leave = r := rfl

/-- The errors that are found in a tree, in the scopes that are open. -/
def errorsIn (e : Expr) : List ResolutionError :=
  exprErrors r.program r.function r.scopes.flatten e

/-- They do not depend on what was found before. -/
@[simp] theorem errorsIn_found : (r.found more).errorsIn = r.errorsIn := rfl

end

/-- A list of trees and the errors that a resolver adds for it. -/
theorem visitAll_eq {es : List Expr} (h : ∀ e ∈ es, ∀ r, visit e r = r.found (r.errorsIn e))
    (r : Resolver) :
    visitAll es r = r.found (exprsErrors r.program r.function r.scopes.flatten es) := by
  induction es generalizing r with
  | nil => simp [visitAll, exprsErrors]
  | cons e rest ih =>
    rw [List.forall_mem_cons] at h
    rw [visitAll, h.1, ih h.2, found_found, exprsErrors]
    rfl

/-- A tree and the errors that a resolver adds for it. -/
theorem visit_eq (e : Expr) (r : Resolver) : visit e r = r.found (r.errorsIn e) := by
  induction e generalizing r with
  | number value span => simp [visit, errorsIn, exprErrors]
  | var name span =>
    rw [visit, errorsIn, exprErrors]
    have hscope : (r.scopes.any fun scope => decide (name ∈ scope)) = true ↔
        name ∈ r.scopes.flatten := by
      simp
    by_cases hname : name ∈ r.scopes.flatten
    · rw [if_pos (hscope.mpr hname), if_pos hname, found_nil]
    · rw [if_neg fun hany => hname (hscope.mp hany), if_neg hname]
      rfl
  | binary op left right span hleft hright =>
    rw [visit, hleft, hright, errorsIn_found, found_found]
    simp only [errorsIn, exprErrors]
  | call name arguments span harguments =>
    rw [visit, errorsIn, exprErrors, callErrors, resolveCall]
    cases target r.program r.function (.call name arguments span) name arguments.length with
    | ok q => exact visitAll_eq harguments r
    | error e =>
      have h := visitAll_eq harguments (r.found [e])
      rwa [found_found] at h
  | cond condition consequent alternative span hcondition hconsequent halternative =>
    rw [visit, hcondition, hconsequent, halternative]
    simp [errorsIn, exprErrors]
  | loop name start stop step body span hstart hstop hstep hbody =>
    cases step with
    | none =>
      rw [visit, hstart, enter_found, hstop, hbody]
      simp only [found_found, leave_found, leave_enter, errorsIn, exprErrors, List.append_assoc]
      rfl
    | some s =>
      rw [visit, hstart, enter_found, hstop, hstep s rfl, hbody]
      simp only [found_found, leave_found, leave_enter, errorsIn, exprErrors, List.append_assoc]
      rfl

/-- A tree that is checked in a scope of its own adds its errors. -/
theorem resolveInScope_eq (r : Resolver) (e : Expr) (names : List String)
    (function : Option String) :
    r.resolveInScope e names function =
      { r.found (exprErrors r.program function names e) with
        scopes := [names], function := none } := by
  rw [resolveInScope, visit_eq]
  simp only [errorsIn, List.flatten_cons, List.flatten_nil, List.append_nil]
  rfl

/-- Checking trees one after the other, each in a scope of its own, adds the errors of each and
leaves the program and the warnings as they were. -/
theorem foldl_resolveInScope {α : Type} (tree : α → Expr) (names : α → List String)
    (function : α → Option String) (xs : List α) (r : Resolver) :
    let last := xs.foldl (fun r x => r.resolveInScope (tree x) (names x) (function x)) r
    last.errors =
        r.errors ++ xs.flatMap (fun x => exprErrors r.program (function x) (names x) (tree x)) ∧
      last.warnings = r.warnings ∧ last.program = r.program := by
  induction xs generalizing r with
  | nil => simp
  | cons x rest ih =>
    have h := ih (r.resolveInScope (tree x) (names x) (function x))
    simp only [resolveInScope_eq, found] at h
    simpa [List.foldl_cons, resolveInScope_eq, found] using h

/-- What a resolver answers depends on its program alone, and it keeps the program. -/
theorem resolve_eq (r : Resolver) : r.resolve.1 =
    { errors := errorsOf r.program, warnings := warningsOf r.program } ∧
      r.resolve.2.program = r.program := by
  obtain ⟨herrors, hwarnings, hprogram⟩ := foldl_resolveInScope Definition.body
    (fun d => d.prototype.params) (fun d => some d.name) r.program.definitions
    (checkDeclarations { r with errors := [], warnings := [] })
  obtain ⟨herrors', hwarnings', hprogram'⟩ := foldl_resolveInScope id (fun _ => []) (fun _ => none)
    r.program.expressions (r.program.definitions.foldl
      (fun r d => r.resolveInScope d.body d.prototype.params (some d.name))
      (checkDeclarations { r with errors := [], warnings := [] }))
  rw [herrors, hprogram] at herrors'
  rw [hwarnings] at hwarnings'
  refine ⟨?_, hprogram'.trans hprogram⟩
  exact (congrArg (Resolution.mk · _) herrors').trans (congrArg (Resolution.mk _) hwarnings')

end Resolver

/-- The errors of a program are those of its definitions and of its formulas. -/
theorem Program.errors_resolve (p : Program) : p.resolve.errors = Resolution.errorsOf p :=
  congrArg Resolution.errors (Resolver.resolve_eq { program := p }).1

/-- The warnings of a program are those about its declarations. -/
theorem Program.warnings_resolve (p : Program) :
    p.resolve.warnings = Resolution.warningsOf p :=
  congrArg Resolution.warnings (Resolver.resolve_eq { program := p }).1

end Formulary
