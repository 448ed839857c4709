import Formulary.Proofs.Grammar.Alpha
import Formulary.Proofs.Resolution.Spans
import Mathlib.Data.List.Forall2

/-!
# Resolution and the names of bound variables

A resolver asks of a variable only whether it is in scope. Where bound variables are paired, a pair is
in scope on both sides or on neither, and a variable that is not in scope stands for itself; so trees
that differ in bound variables have the same errors in the same order. What an error says of its node
is compared by the shape of the node, which has no spans and no names of variables; the name that was
not found, the suggestions and the definition around it are the same.
-/

namespace Formulary

/-- A resolution error without its location, and with the shape of its node. -/
def ResolutionError.core (e : ResolutionError) : ResolutionError :=
  { e with location := none, node := e.node.map Expr.shape }

namespace Resolution

/-- Two variables that stand for each other are both in scope or not, and the same if they are not. -/
def Scoped (pairs : Pairing) (scope scope' : List String) : Prop :=
  ∀ x y, pairs x y → (x ∈ scope ↔ y ∈ scope') ∧ (x ∉ scope → x = y)

namespace Scoped

variable {pairs : Pairing} {scope scope' : List String}

/-- Inside a loop its variables are in scope. -/
theorem bind (h : Scoped pairs scope scope') {name name' : String} :
    Scoped (pairs.bind name name') (name :: scope) (name' :: scope') := by
  intro x y hpair
  obtain ⟨rfl, rfl⟩ | ⟨hx, hy, hpair⟩ := hpair
  · simp
  · simpa [hx, hy] using h x y hpair

/-- Inside a definition its parameters are in scope. -/
theorem bindAll {names names' : List String} (h : Scoped pairs scope scope')
    (hlength : names.length = names'.length) :
    Scoped (pairs.bindAll names names') (names ++ scope) (names' ++ scope') := by
  induction names generalizing pairs names' scope scope' with
  | nil =>
    cases names' with
    | nil => exact h
    | cons => contradiction
  | cons name names ih =>
    cases names' with
    | nil => contradiction
    | cons name' names' =>
      intro x y hpair
      have hrest := ih h.bind (Nat.succ.inj hlength) x y hpair
      simp only [List.mem_append, List.mem_cons, List.cons_append] at hrest ⊢
      grind

end Scoped

/-- Nothing is in scope, and every variable stands for itself. -/
theorem Scoped.empty : Scoped Eq [] [] := fun _ _ hpair => ⟨by simp, fun _ => hpair⟩

/-- Two programs declare the same names, with as many parameters. -/
structure SameCalls (p q : Program) : Prop where
  names : p.declarations.names.Perm q.declarations.names
  arity : ∀ name, SameArity p q name

variable {p q : Program}

/-- The error of a call does not depend on what its node is, but for the node and its place. -/
theorem callErrors_core (same : SameCalls p q) (function : Option String) {node node' : Expr}
    (hnode : node.shape = node'.shape) (name : String) (arity : Nat) :
    (callErrors q function node' name arity).map ResolutionError.core =
      (callErrors p function node name arity).map ResolutionError.core := by
  have hsimilar := similarNames_perm same.names name 2
  have hsame := same.arity name
  unfold SameArity at hsame
  unfold callErrors target
  cases hp : p.prototype? name with
  | none =>
    rw [hp, Option.map_none, Option.map_eq_none_iff] at hsame
    simp [hsame, hsimilar, ResolutionError.core, hnode]
  | some f =>
    rw [hp, Option.map_some, Option.map_eq_some_iff] at hsame
    obtain ⟨f', hq, harity⟩ := hsame
    rw [hq]
    simp only [harity]
    by_cases hgot : f.arity = arity
    · rw [if_pos hgot, if_pos hgot]
    · rw [if_neg hgot, if_neg hgot]
      simp [ResolutionError.core, hnode]

/-- The errors of a loop, with or without a step, are those of its parts. -/
theorem exprErrors_loop (function : Option String) (scope : List String) (name : String)
    (start stop : Expr) (step : Option Expr) (body : Expr) (span : Option Span) :
    exprErrors p function scope (.loop name start stop step body span) =
      exprErrors p function scope start ++ (exprErrors p function (name :: scope) stop ++
        (exprsErrors p function (name :: scope) step.toList ++
          exprErrors p function (name :: scope) body)) := by
  cases step <;> simp [exprErrors, exprsErrors]

mutual

/-- Trees that differ in bound variables have the same errors. -/
theorem exprErrors_alpha (same : SameCalls p q) (function : Option String) {pairs : Pairing}
    {scope scope' : List String} {e e' : Expr} (h : e.Alpha pairs e') (hscope : Scoped pairs scope scope') :
    (exprErrors q function scope' e').map ResolutionError.core =
      (exprErrors p function scope e).map ResolutionError.core := by
  match h with
  | .number => rfl
  | .var paired =>
    obtain ⟨hmem, hfree⟩ := hscope _ _ paired
    rw [exprErrors, exprErrors]
    split
    · next hy => rw [if_pos (hmem.mpr hy)]
    · next hy =>
      have hx := mt hmem.mp hy
      rw [if_neg hx, hfree hx]
      rfl
  | .binary left right =>
    simp only [exprErrors, List.map_append, exprErrors_alpha same function left hscope,
      exprErrors_alpha same function right hscope]
  | .call arguments =>
    simp only [exprErrors, List.map_append, exprsErrors_alpha same function arguments hscope,
      ← arguments.length_eq]
    rw [callErrors_core same function (Expr.Alpha.call arguments).shape_eq]
  | .cond condition consequent alternative =>
    simp only [exprErrors, List.map_append, exprErrors_alpha same function condition hscope,
      exprErrors_alpha same function consequent hscope,
      exprErrors_alpha same function alternative hscope]
  | .loop start stop step body =>
    simp only [exprErrors_loop, List.map_append, exprErrors_alpha same function start hscope,
      exprErrors_alpha same function stop hscope.bind,
      exprsErrors_alpha same function step hscope.bind,
      exprErrors_alpha same function body hscope.bind]

/-- So do those of lists. -/
theorem exprsErrors_alpha (same : SameCalls p q) (function : Option String) {pairs : Pairing}
    {scope scope' : List String} {es es' : List Expr} (h : Expr.AlphaAll pairs es es') (hscope : Scoped pairs scope scope') :
    (exprsErrors q function scope' es').map ResolutionError.core =
      (exprsErrors p function scope es).map ResolutionError.core := by
  match h with
  | .nil => rfl
  | .cons head tail =>
    simp only [exprsErrors, List.map_append, exprErrors_alpha same function head hscope,
      exprsErrors_alpha same function tail hscope]

end

/-- So do definitions, whose bodies are checked with the parameters of each. -/
theorem definitionErrors_alpha (same : SameCalls p q) {d d' : Definition} (h : d.Alpha d') :
    (exprErrors q (some d'.name) d'.prototype.params d'.body).map ResolutionError.core =
      (exprErrors p (some d.name) d.prototype.params d.body).map ResolutionError.core := by
  have hscope := Scoped.empty.bindAll h.arity
  rw [List.append_nil, List.append_nil] at hscope
  rw [← h.name]
  exact exprErrors_alpha same (some d.name) h.body hscope

/-- Elements that are related and give the same give the same altogether. -/
theorem map_flatMap_of_forall₂ {α γ δ : Type} {R : α → α → Prop} {g g' : α → List γ} {k : γ → δ}
    {l l' : List α} (h : List.Forall₂ R l l') (hg : ∀ a a', R a a' → (g' a').map k = (g a).map k) :
    (l'.flatMap g').map k = (l.flatMap g).map k := by
  induction h with
  | nil => rfl
  | cons head _ ih =>
    rw [List.flatMap_cons, List.flatMap_cons, List.map_append, List.map_append, hg _ _ head, ih]

/-- Programs whose definitions and formulas differ in bound variables have the same errors in the same
order. -/
theorem errors_alpha (same : SameCalls p q)
    (hdefinitions : List.Forall₂ Definition.Alpha p.definitions q.definitions)
    (hexpressions : List.Forall₂ (Expr.Alpha Eq) p.expressions q.expressions) :
    q.resolve.errors.map ResolutionError.core = p.resolve.errors.map ResolutionError.core := by
  rw [Program.errors_resolve, Program.errors_resolve, errorsOf, errorsOf, List.map_append,
    List.map_append]
  congr 1
  · exact map_flatMap_of_forall₂ hdefinitions fun _ _ => definitionErrors_alpha same
  · exact map_flatMap_of_forall₂ hexpressions fun _ _ h => exprErrors_alpha same none h .empty

end Resolution

end Formulary
