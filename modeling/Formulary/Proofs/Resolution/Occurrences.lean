import Formulary.Proofs.Grammar.Nodes
import Formulary.Proofs.Resolution.Errors

/-!
# The nodes that offend

A `Place` is a node of a tree together with its way up to the root: the nodes around it, and for each
of them which of its parts the place is in. The places of a tree are listed in preorder. Whether a
node offends is said of its place alone: a call by the signatures of the program, a variable by the
parameters and by the loops on its way up, of which those count whose start it is not in.

The resolver reports exactly the nodes that offend, one after the other. It knows of no ways up; it
carries a scope along, and `Scope` says that the scope has the names that the way up gives.
-/

namespace Formulary

namespace Expr

/-- A node of a tree. The nodes around it come with the index of the part that it is in, the
innermost first. -/
structure Place where
  node : Expr
  around : List (Expr × Nat)

mutual

/-- The places of a tree that stands somewhere, in preorder. -/
def placesFrom (around : List (Expr × Nat)) (e : Expr) : List Place :=
  ⟨e, around⟩ :: placesOfParts e around 0 e.children
termination_by (e.size, 0)
decreasing_by
  rw [e.size_eq]
  exact .left _ _ (by omega)

/-- The places of the parts of a node from some index on. -/
def placesOfParts (parent : Expr) (around : List (Expr × Nat)) (index : Nat) :
    List Expr → List Place
  | [] => []
  | e :: rest =>
    placesFrom ((parent, index) :: around) e ++ placesOfParts parent around (index + 1) rest
termination_by es => (sizes es, 1)
decreasing_by
  · rcases Nat.eq_or_lt_of_le (size_le_sizes (List.mem_cons_self (a := e) (l := rest))) with h | h
    · rw [h]
      exact .right _ (by omega)
    · exact .left _ _ h
  · have := e.size_pos
    exact .left _ _ (by rw [sizes]; omega)

end

/-- The places of a tree, in preorder. -/
def places (e : Expr) : List Place := placesFrom [] e

/-- The nodes of the places of parts are those of the parts in preorder. -/
theorem map_node_placesOfParts {es : List Expr} {parent : Expr} {around : List (Expr × Nat)}
    (h : ∀ e ∈ es, ∀ around, (placesFrom around e).map Place.node = e.preorder) (index : Nat) :
    (placesOfParts parent around index es).map Place.node = preorders es := by
  induction es generalizing index with
  | nil => rw [placesOfParts, preorders, List.map_nil]
  | cons e rest ih =>
    rw [List.forall_mem_cons] at h
    rw [placesOfParts, preorders, List.map_append, h.1, ih h.2]

/-- The places of a tree are listed in preorder. -/
theorem map_node_placesFrom (e : Expr) (around : List (Expr × Nat)) :
    (placesFrom around e).map Place.node = e.preorder := by
  induction e using parts_induct generalizing around with
  | h e ih => rw [placesFrom, List.map_cons, map_node_placesOfParts ih, preorder_eq]

end Expr

namespace Expr.Place

/-- A node binds a name in one of its parts: it is a loop over the name, and the part is its end, its
step or its body, but not its start. -/
def Binds (name : String) : Expr × Nat → Prop
  | (.loop counter _ _ _ _ _, index) => counter = name ∧ index ≠ 0
  | _ => False

instance (name : String) : DecidablePred (Binds name) := fun outer => by
  unfold Binds
  split <;> infer_instance

/-- What is wrong with the node at a place, given the parameters of the definition around the tree. -/
def cause? (p : Program) (params : List String) (pl : Place) : Option ResolutionCause :=
  match pl.node with
  | .call name arguments _ =>
    match p.prototype? name with
    | none => some (.unknownFunction name (Resolution.similarNames name p.declarations.names))
    | some q =>
      if q.arity = arguments.length then none
      else some (.arityMismatch name q.arity arguments.length)
  | .var name _ =>
    if name ∈ params ∨ ∃ outer ∈ pl.around, Binds name outer then none
    else some (.unknownVariable name)
  | _ => none

/-- The error of a place, if its node offends. -/
def error? (p : Program) (function : Option String) (params : List String) (pl : Place) :
    Option ResolutionError :=
  (pl.cause? p params).map fun cause => ⟨cause, pl.node.location, pl.node, function⟩

end Expr.Place

/-- The errors of the nodes of a program that offend, one for each: the bodies of the definitions in
their order, then the formulas, each tree in preorder. -/
def Program.offences (p : Program) : List ResolutionError :=
  p.definitions.flatMap (fun d =>
      d.body.places.filterMap (Expr.Place.error? p (some d.name) d.prototype.params)) ++
    p.expressions.flatMap fun e => e.places.filterMap (Expr.Place.error? p none [])

namespace Resolution

open Expr

/-- A scope has the names of the parameters and those that are bound around a place. -/
def Scope (params : List String) (around : List (Expr × Nat)) (scope : List String) : Prop :=
  ∀ name, name ∈ scope ↔ name ∈ params ∨ ∃ outer ∈ around, Place.Binds name outer

section

variable {p : Program} {function : Option String} {params : List String}
  {around : List (Expr × Nat)} {scope : List String}

/-- A part in which nothing is bound has the scope of the node. -/
theorem Scope.into (h : Scope params around scope) {outer : Expr × Nat}
    (hbinds : ∀ name, ¬ Place.Binds name outer) : Scope params (outer :: around) scope := by
  intro name
  simp [h name, hbinds name]

/-- In the end, the step and the body of a loop its variable is in scope. -/
theorem Scope.inLoop (h : Scope params around scope) {counter : String} {start stop : Expr}
    {step : Option Expr} {body : Expr} {span : Option Span} (index : Nat) :
    Scope params ((.loop counter start stop step body span, index + 1) :: around)
      (counter :: scope) := by
  intro name
  have hcounter : name = counter ↔ counter = name := eq_comm
  simp [h name, Place.Binds, hcounter, or_left_comm]

/-- The errors in a tree are those of its places, as in a list of trees that are parts of a node. -/
theorem exprsErrors_eq_filterMap {es : List Expr} (parent : Expr)
    (hbinds : ∀ name index, ¬ Place.Binds name (parent, index))
    (h : ∀ e ∈ es, ∀ around scope, Scope params around scope →
      exprErrors p function scope e = (placesFrom around e).filterMap (Place.error? p function params))
    (hscope : Scope params around scope) (index : Nat) :
    exprsErrors p function scope es =
      (placesOfParts parent around index es).filterMap (Place.error? p function params) := by
  induction es generalizing index with
  | nil => rw [placesOfParts, exprsErrors, List.filterMap_nil]
  | cons e rest ih =>
    rw [List.forall_mem_cons] at h
    rw [placesOfParts, exprsErrors, List.filterMap_append, ih h.2,
      h.1 _ _ (hscope.into fun name => hbinds name index)]

/-- The errors in a tree are those of its places. -/
theorem exprErrors_eq_filterMap (e : Expr) (hscope : Scope params around scope) :
    exprErrors p function scope e =
      (placesFrom around e).filterMap (Place.error? p function params) := by
  induction e generalizing around scope with
  | number value span =>
    rw [placesFrom, children, placesOfParts]
    rfl
  | var name span =>
    rw [placesFrom, children, placesOfParts, exprErrors]
    by_cases hname : name ∈ scope
    · have hcause : Place.cause? p params ⟨.var name span, around⟩ = none :=
        if_pos ((hscope name).mp hname)
      rw [if_pos hname, List.filterMap_cons_none (by rw [Place.error?, hcause]; rfl)]
      rfl
    · have hcause : Place.cause? p params ⟨.var name span, around⟩ = some (.unknownVariable name) :=
        if_neg fun hbound => hname ((hscope name).mpr hbound)
      rw [if_neg hname, List.filterMap_cons_some (by rw [Place.error?, hcause]; rfl)]
      rfl
  | binary op left right span hleft hright =>
    have hparts : exprsErrors p function scope [left, right] =
        (placesOfParts (.binary op left right span) around 0 [left, right]).filterMap
          (Place.error? p function params) := by
      refine exprsErrors_eq_filterMap (.binary op left right span) (fun _ _ h => h) ?_ hscope 0
      simp only [List.forall_mem_cons]
      exact ⟨fun _ _ => hleft, fun _ _ => hright, List.forall_mem_nil _⟩
    rw [placesFrom, children, List.filterMap_cons_none rfl, ← hparts]
    simp [exprErrors, exprsErrors]
  | call name arguments span harguments =>
    have hparts : exprsErrors p function scope arguments =
        (placesOfParts (.call name arguments span) around 0 arguments).filterMap
          (Place.error? p function params) :=
      exprsErrors_eq_filterMap (.call name arguments span) (fun _ _ h => h)
        (fun e he _ _ => harguments e he) hscope 0
    have hcall : callErrors p function (.call name arguments span) name arguments.length =
        (Place.error? p function params ⟨.call name arguments span, around⟩).toList := by
      simp only [callErrors, target, Place.error?, Place.cause?]
      cases p.prototype? name with
      | none => rfl
      | some q =>
        by_cases harity : q.arity = arguments.length
        · simp only [if_pos harity]
          rfl
        · simp only [if_neg harity]
          rfl
    rw [placesFrom, children, exprErrors, hparts, hcall]
    cases herror : Place.error? p function params ⟨.call name arguments span, around⟩ with
    | none => rw [List.filterMap_cons_none herror]; rfl
    | some e => rw [List.filterMap_cons_some herror]; rfl
  | cond condition consequent alternative span hcondition hconsequent halternative =>
    have hparts : exprsErrors p function scope [condition, consequent, alternative] =
        (placesOfParts (.cond condition consequent alternative span) around 0
          [condition, consequent, alternative]).filterMap (Place.error? p function params) := by
      refine exprsErrors_eq_filterMap (.cond condition consequent alternative span)
        (fun _ _ h => h) ?_ hscope 0
      simp only [List.forall_mem_cons]
      exact ⟨fun _ _ => hcondition, fun _ _ => hconsequent, fun _ _ => halternative,
        List.forall_mem_nil _⟩
    rw [placesFrom, children, List.filterMap_cons_none rfl, ← hparts]
    simp [exprErrors, exprsErrors]
  | loop name start stop step body span hstart hstop hstep hbody =>
    -- the start is outside the scope of the variable, the other parts are in it
    have hinto : Scope params ((.loop name start stop step body span, 0) :: around) scope :=
      hscope.into fun _ hbinds => hbinds.2 rfl
    have hinside (index : Nat) :
        Scope params ((.loop name start stop step body span, index + 1) :: around) (name :: scope) :=
      hscope.inLoop index
    rw [placesFrom, children, List.filterMap_cons_none rfl]
    cases step with
    | none =>
      simp only [Option.toList_none, List.nil_append, placesOfParts, List.filterMap_append,
        List.append_nil]
      rw [exprErrors, hstart hinto, hstop (hinside 0), hbody (hinside 1)]
    | some s =>
      simp only [Option.toList_some, List.cons_append, List.nil_append, placesOfParts,
        List.filterMap_append, List.append_nil]
      rw [exprErrors, hstart hinto, hstop (hinside 0), hstep s rfl (hinside 1), hbody (hinside 2)]

end

/-- The errors of a program are those of its nodes that offend. -/
theorem errorsOf_eq_offences (p : Program) : errorsOf p = p.offences := by
  have hparams (params : List String) : Scope params [] params := fun name => by simp
  have hformulas : exprErrors p none [] =
      fun e => (placesFrom [] e).filterMap (Place.error? p none []) :=
    funext fun e => exprErrors_eq_filterMap e (hparams [])
  unfold errorsOf Program.offences Expr.places
  simp only [exprErrors_eq_filterMap _ (hparams _), hformulas]

end Resolution

/-- What may be done with a resolver: check its program, a single call, or a tree in whatever scopes
it has open. -/
inductive Resolver.Use where
  | program
  | call (node : Expr) (name : String) (arity : Nat)
  | tree (e : Expr)

/-- A resolver after a use. Checking a single call answers, and changes nothing. -/
def Resolver.after (r : Resolver) : Use → Resolver
  | .program => r.resolve.2
  | .call _ _ _ => r
  | .tree e => visit e r

/-- The program of a resolver stays the same, whatever it is used for. -/
theorem Resolver.program_foldl_after (uses : List Use) (r : Resolver) :
    (uses.foldl after r).program = r.program := by
  induction uses generalizing r with
  | nil => rfl
  | cons use rest ih =>
    rw [List.foldl_cons, ih]
    cases use with
    | program => exact (resolve_eq r).2
    | call node name arity => rfl
    | tree e => rw [after, visit_eq, program_found]

/-- Resolution reports exactly the nodes that offend, in order. They are found in the bodies of the
definitions and then in the formulas, each in preorder: every call whose name is not declared, every
call with another number of arguments than declared, and every variable that is neither a parameter of
its definition nor bound by a loop around it in whose end, step or body it stands. Each error has the
node, its start and the name of the definition. A resolver that was used before, in whatever way,
reports the same. -/
theorem resolver_reports_offences (p : Program) :
    p.resolve.errors = p.offences ∧
    (∀ uses : List Resolver.Use,
      (uses.foldl Resolver.after { program := p }).resolve.1.errors = p.offences) ∧
    ∀ e : Expr, e.places.map Expr.Place.node = e.preorder := by
  refine ⟨?_, fun uses => ?_, fun e => e.map_node_placesFrom []⟩
  · rw [Program.errors_resolve, Resolution.errorsOf_eq_offences]
  · rw [(Resolver.resolve_eq _).1, Resolver.program_foldl_after, Resolution.errorsOf_eq_offences]

/-- In `for i = i, i in g(n)` the start is outside the scope of `i`, and the argument is checked though
the function has no parameters. -/
example : (Program.ofStatements [.foreign ⟨"g", [], none⟩,
    .expression (.loop "i" (.var "i" none) (.var "i" none) none (.call "g" [.var "n" none] none)
      none)]).resolve.errors.map ResolutionError.cause =
      [.unknownVariable "i", .arityMismatch "g" 0 1, .unknownVariable "n"] := by
  decide

end Formulary
