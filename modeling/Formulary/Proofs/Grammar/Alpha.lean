import Formulary.Program
import Formulary.Proofs.Grammar.Nodes

/-!
# Trees that differ in bound variables

Trees that differ in the names of bound variables only are related along with the variables around
them: a `Pairing` says which variable of one tree stands for which of the other, and a loop pairs its
own variable with that of the other loop, in its end, its step and its body. A name that is bound again
inside hides the outer pair on both sides, so variables that are shadowed, and occurrences in the start
of a loop, need no rule of their own. The parameters of definitions are paired in order; a name that is
not bound stands for itself.
-/

namespace Formulary

/-- Which variables of two trees stand for each other. -/
abbrev Pairing := String → String → Prop

namespace Pairing

/-- Two variables stand for each other, and hide others of their names. -/
def bind (pairs : Pairing) (x y : String) : Pairing := fun a b =>
  (a = x ∧ b = y) ∨ (a ≠ x ∧ b ≠ y ∧ pairs a b)

/-- The variables of two lists stand for each other in order, and hide those before them. -/
def bindAll : Pairing → List String → List String → Pairing
  | pairs, x :: xs, y :: ys => bindAll (pairs.bind x y) xs ys
  | pairs, _, _ => pairs

/-- The same pairs, seen from the other tree. -/
def swap (pairs : Pairing) : Pairing := fun a b => pairs b a

theorem swap_bind (pairs : Pairing) (x y : String) : (pairs.bind x y).swap = pairs.swap.bind y x := by
  funext a b
  unfold swap bind
  grind

theorem swap_bindAll (pairs : Pairing) (xs ys : List String) :
    (pairs.bindAll xs ys).swap = pairs.swap.bindAll ys xs := by
  induction xs generalizing pairs ys with
  | nil => cases ys <;> rfl
  | cons x xs ih =>
    cases ys with
    | nil => rfl
    | cons y ys => rw [bindAll, bindAll, ih, swap_bind]

/-- A name that stands for itself still does so where some name stands for itself. -/
theorem bind_self {pairs : Pairing} {x : String} (h : pairs x x) (name : String) :
    pairs.bind name name x x := by
  unfold bind
  by_cases hname : x = name
  · exact .inl ⟨hname, hname⟩
  · exact .inr ⟨hname, hname, h⟩

/-- It does where some names stand for themselves. -/
theorem bindAll_self {pairs : Pairing} {x : String} (h : pairs x x) (names : List String) :
    pairs.bindAll names names x x := by
  induction names generalizing pairs with
  | nil => exact h
  | cons name names ih => exact ih (bind_self h name)

/-- The same variable stands for itself. -/
theorem swap_eq : swap Eq = Eq := by
  funext a b
  exact propext eq_comm

end Pairing

namespace Expr

mutual

/-- Two trees differ in spans and in the names of bound variables only. -/
inductive Alpha : Pairing → Expr → Expr → Prop
  | number {pairs value s s'} : Alpha pairs (.number value s) (.number value s')
  | var {pairs : Pairing} {x y s s'} (paired : pairs x y) : Alpha pairs (.var x s) (.var y s')
  | binary {pairs op a a' b b' s s'} (left : Alpha pairs a a') (right : Alpha pairs b b') :
    Alpha pairs (.binary op a b s) (.binary op a' b' s')
  | call {pairs name es es' s s'} (arguments : AlphaAll pairs es es') :
    Alpha pairs (.call name es s) (.call name es' s')
  | cond {pairs a a' b b' c c' s s'} (condition : Alpha pairs a a') (consequent : Alpha pairs b b')
    (alternative : Alpha pairs c c') : Alpha pairs (.cond a b c s) (.cond a' b' c' s')
  | loop {pairs : Pairing} {x y a a' b b' d d' s s'} {c c' : Option Expr} (start : Alpha pairs a a')
    (stop : Alpha (pairs.bind x y) b b') (step : AlphaAll (pairs.bind x y) c.toList c'.toList)
    (body : Alpha (pairs.bind x y) d d') : Alpha pairs (.loop x a b c d s) (.loop y a' b' c' d' s')

/-- The trees of two lists do so in order. -/
inductive AlphaAll : Pairing → List Expr → List Expr → Prop
  | nil {pairs} : AlphaAll pairs [] []
  | cons {pairs e e' es es'} (head : Alpha pairs e e') (tail : AlphaAll pairs es es') :
    AlphaAll pairs (e :: es) (e' :: es')

end

mutual

/-- The relation may be seen from the other tree. -/
theorem Alpha.symm {pairs : Pairing} {e e' : Expr} (h : Alpha pairs e e') :
    Alpha pairs.swap e' e := by
  match h with
  | .number => exact .number
  | .var paired => exact .var paired
  | .binary left right => exact .binary left.symm right.symm
  | .call arguments => exact .call arguments.symm
  | .cond condition consequent alternative =>
    exact .cond condition.symm consequent.symm alternative.symm
  | .loop start stop step body =>
    exact .loop start.symm (Pairing.swap_bind .. ▸ stop.symm) (Pairing.swap_bind .. ▸ step.symm)
      (Pairing.swap_bind .. ▸ body.symm)

/-- So may that of lists. -/
theorem AlphaAll.symm {pairs : Pairing} {es es' : List Expr} (h : AlphaAll pairs es es') :
    AlphaAll pairs.swap es' es := by
  match h with
  | .nil => exact .nil
  | .cons head tail => exact .cons head.symm tail.symm

end

/-- Lists that are related are equally long. -/
theorem AlphaAll.length_eq {pairs : Pairing} {es es' : List Expr} (h : AlphaAll pairs es es') :
    es.length = es'.length := by
  induction es generalizing es' with
  | nil =>
    cases h
    rfl
  | cons e es ih =>
    cases h with
    | cons head tail => rw [List.length_cons, List.length_cons, ih tail]

/-- A list is related to what is made of its trees, if each of these is. -/
theorem AlphaAll.map {pairs : Pairing} {es : List Expr} {f : Expr → Expr}
    (h : ∀ e ∈ es, Alpha pairs e (f e)) : AlphaAll pairs es (es.map f) := by
  induction es with
  | nil => exact .nil
  | cons e es ih =>
    rw [List.forall_mem_cons] at h
    exact .cons h.1 (ih h.2)

/-- Lists one behind the other are related if each of them is. -/
theorem AlphaAll.append {pairs : Pairing} {es es' fs fs' : List Expr} (h : AlphaAll pairs es es')
    (hrest : AlphaAll pairs fs fs') : AlphaAll pairs (es ++ fs) (es' ++ fs') := by
  induction es generalizing es' with
  | nil =>
    cases h
    exact hrest
  | cons e es ih =>
    cases h with
    | cons head tail => exact .cons head (ih tail)

/-- A list is related to itself if its trees are. -/
theorem AlphaAll.refl {pairs : Pairing} {es : List Expr} (h : ∀ e ∈ es, Alpha pairs e e) :
    AlphaAll pairs es es := by
  have hmap := AlphaAll.map (f := id) h
  rwa [List.map_id] at hmap

/-- Steps of loops are related where there are any; elsewhere the same number stands for both. -/
theorem AlphaAll.getD {pairs : Pairing} {step step' : Option Expr}
    (h : AlphaAll pairs step.toList step'.toList) (x : Float) :
    (step.getD (number x none)).Alpha pairs (step'.getD (number x none)) := by
  cases step with
  | none =>
    cases step' with
    | none => exact .number
    | some _ => cases h
  | some _ =>
    cases step' with
    | none => cases h
    | some _ =>
      cases h with
      | cons head _ => exact head

mutual

/-- A tree without spans and without the names of variables. -/
def shape : Expr → Expr
  | number value _ => number value none
  | var _ _ => var "" none
  | binary op left right _ => binary op (shape left) (shape right) none
  | call name arguments _ => call name (shapes arguments) none
  | cond condition consequent alternative _ =>
    cond (shape condition) (shape consequent) (shape alternative) none
  | loop _ start stop none body _ => loop "" (shape start) (shape stop) none (shape body) none
  | loop _ start stop (some step) body _ =>
    loop "" (shape start) (shape stop) (some (shape step)) (shape body) none

/-- The shapes of the trees of a list. -/
def shapes : List Expr → List Expr
  | [] => []
  | e :: rest => shape e :: shapes rest

end

/-- With or without a step, a loop has the shapes of its parts. -/
theorem shape_loop {name : String} {start stop body : Expr} {step : Option Expr} {s : Option Span} :
    (loop name start stop step body s).shape =
      loop "" start.shape stop.shape (shapes step.toList).head? body.shape none := by
  cases step <;> rfl

mutual

/-- Trees that differ in the names of bound variables only have the same shape. -/
theorem Alpha.shape_eq {pairs : Pairing} {e e' : Expr} (h : Alpha pairs e e') :
    e.shape = e'.shape := by
  match h with
  | .number => rfl
  | .var paired => rfl
  | .binary left right => rw [shape, shape, left.shape_eq, right.shape_eq]
  | .call arguments => rw [shape, shape, arguments.shapes_eq]
  | .cond condition consequent alternative =>
    rw [shape, shape, condition.shape_eq, consequent.shape_eq, alternative.shape_eq]
  | .loop start stop step body =>
    rw [shape_loop, shape_loop, start.shape_eq, stop.shape_eq, step.shapes_eq, body.shape_eq]

/-- So do those of lists. -/
theorem AlphaAll.shapes_eq {pairs : Pairing} {es es' : List Expr} (h : AlphaAll pairs es es') :
    shapes es = shapes es' := by
  match h with
  | .nil => rfl
  | .cons head tail => rw [shapes, shapes, head.shape_eq, tail.shapes_eq]

end

/-! ### The names of variables -/

/-- The name that a node uses or binds for a variable. -/
def variableName? : Expr → Option String
  | var name _ => some name
  | loop name .. => some name
  | _ => none

/-- The names of variables in a tree, those that are used and those that loops bind. -/
def variableNames (e : Expr) : List String := e.preorder.filterMap variableName?

/-- The variables of a part are variables of the tree. -/
theorem variableNames_subset {e part : Expr} (h : part ∈ e.children) :
    part.variableNames ⊆ e.variableNames := by
  intro x hx
  obtain ⟨node, hnode, hname⟩ := List.mem_filterMap.mp hx
  exact List.mem_filterMap.mpr ⟨node, mem_preorder.mpr (.inr ⟨part, h, hnode⟩), hname⟩

/-- A name of the root is a variable of the tree. -/
theorem mem_variableNames_of_root {e : Expr} {x : String} (h : e.variableName? = some x) :
    x ∈ e.variableNames :=
  List.mem_filterMap.mpr ⟨e, mem_preorder_self e, h⟩

/-- What holds of the variables of a tree holds of those of its parts. -/
theorem forall_variableNames_parts {e : Expr} {P : String → Prop} (h : ∀ x ∈ e.variableNames, P x) :
    ∀ part ∈ e.children, ∀ x ∈ part.variableNames, P x :=
  fun _ hpart x hx => h x (variableNames_subset hpart hx)

/-- What holds of the variables of a loop holds of those of its start, its end, its step and its body. -/
theorem forall_variableNames_loop {name : String} {start stop body : Expr} {step : Option Expr}
    {span : Option Span} {P : String → Prop}
    (h : ∀ x ∈ (loop name start stop step body span).variableNames, P x) :
    (∀ x ∈ start.variableNames, P x) ∧ (∀ x ∈ stop.variableNames, P x) ∧
      (∀ s ∈ step.toList, ∀ x ∈ s.variableNames, P x) ∧ ∀ x ∈ body.variableNames, P x := by
  have hparts := forall_variableNames_parts h
  simp only [children, List.forall_mem_cons, List.forall_mem_append] at hparts
  obtain ⟨hstart, hstop, hstep, hbody, -⟩ := hparts
  exact ⟨hstart, hstop, hstep, hbody⟩

/-- A tree is related to itself if its variables stand for themselves. -/
theorem Alpha.refl {pairs : Pairing} {e : Expr} (h : ∀ x ∈ e.variableNames, pairs x x) :
    Alpha pairs e e := by
  induction e generalizing pairs with
  | number value span => exact .number
  | var name span => exact .var (h name (mem_variableNames_of_root rfl))
  | binary op left right span hleft hright =>
    have hparts := forall_variableNames_parts h
    simp only [children, List.forall_mem_cons] at hparts
    exact .binary (hleft hparts.1) (hright hparts.2.1)
  | call name arguments span harguments =>
    exact .call (.refl fun a ha => harguments a ha (forall_variableNames_parts h a ha))
  | cond condition consequent alternative span hcondition hconsequent halternative =>
    have hparts := forall_variableNames_parts h
    simp only [children, List.forall_mem_cons] at hparts
    exact .cond (hcondition hparts.1) (hconsequent hparts.2.1) (halternative hparts.2.2.1)
  | loop name start stop step body span ihstart ihstop ihstep ihbody =>
    obtain ⟨hstart, hstop, hstep, hbody⟩ := forall_variableNames_loop h
    have hself (x : String) (hx : pairs x x) := Pairing.bind_self hx name
    refine .loop (ihstart hstart) (ihstop fun x hx => hself x (hstop x hx)) (.refl fun s hs => ?_)
      (ihbody fun x hx => hself x (hbody x hx))
    exact ihstep s (Option.mem_toList.mp hs) fun x hx => hself x (hstep s hs x hx)

end Expr

/-! ### Statements -/

/-- Two definitions of the same name with as many parameters differ in spans and in the names of their
parameters and of bound variables only. -/
structure Definition.Alpha (d d' : Definition) : Prop where
  name : d.name = d'.name
  arity : d.prototype.arity = d'.prototype.arity
  body : d.body.Alpha (Pairing.bindAll Eq d.prototype.params d'.prototype.params) d'.body

/-- The relation may be seen from the other definition. -/
theorem Definition.Alpha.symm {d d' : Definition} (h : d.Alpha d') : d'.Alpha d where
  name := h.name.symm
  arity := h.arity.symm
  body := by
    have hbody := h.body.symm
    rwa [Pairing.swap_bindAll, Pairing.swap_eq] at hbody

/-- Two statements do. -/
inductive Statement.Alpha : Statement → Statement → Prop
  | foreign {q q' : Prototype} (name : q.name = q'.name) (arity : q.arity = q'.arity) :
    Alpha (.foreign q) (.foreign q')
  | definition {d d' : Definition} (h : d.Alpha d') : Alpha (.definition d) (.definition d')
  | expression {e e' : Expr} (h : e.Alpha Eq e') : Alpha (.expression e) (.expression e')

/-- The relation may be seen from the other statement. -/
theorem Statement.Alpha.symm {s s' : Statement} (h : s.Alpha s') : s'.Alpha s := by
  cases h with
  | foreign name arity => exact .foreign name.symm arity.symm
  | definition h => exact .definition h.symm
  | expression h => exact .expression (Pairing.swap_eq ▸ h.symm)

/-- Every statement is related to itself. -/
theorem Statement.Alpha.refl (s : Statement) : s.Alpha s := by
  cases s with
  | foreign q => exact .foreign rfl rfl
  | definition d => exact .definition ⟨rfl, rfl, .refl fun _ _ => Pairing.bindAll_self rfl _⟩
  | expression e => exact .expression (.refl fun _ _ => rfl)

end Formulary
