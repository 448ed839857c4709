import Formulary.Proofs.Grammar.Flat

/-!
# Trees seen through a view

A view says what to show in the place of a span. Trees, prototypes and statements are seen through a
view node by node, and only their spans change. What is compared up to spans, or up to a shift of
all spans, is compared through views: through the one that shows no span a tree is bare.
-/

namespace Formulary

/-- What to show in the place of a span. -/
abbrev View : Type := Option Span → Option Span

/-- The view that shows no span. -/
def View.blank : View := fun _ => none

namespace Expr

mutual

/-- A tree seen through a view. -/
def through (v : View) : Expr → Expr
  | number value span => number value (v span)
  | var name span => var name (v span)
  | binary op left right span => binary op (through v left) (through v right) (v span)
  | call name arguments span => call name (throughs v arguments) (v span)
  | cond condition consequent alternative span =>
    cond (through v condition) (through v consequent) (through v alternative) (v span)
  | loop name start stop none body span =>
    loop name (through v start) (through v stop) none (through v body) (v span)
  | loop name start stop (some step) body span =>
    loop name (through v start) (through v stop) (some (through v step)) (through v body) (v span)

/-- The trees of a list seen through a view. -/
def throughs (v : View) : List Expr → List Expr
  | [] => []
  | e :: rest => through v e :: throughs v rest

end

/-- A loop seen through a view, whether it has a step or not. -/
theorem through_loop (v : View) (name : String) (start stop : Expr) (step : Option Expr)
    (body : Expr) (span : Option Span) : (loop name start stop step body span).through v =
      loop name (start.through v) (stop.through v) (step.map (through v)) (body.through v)
        (v span) := by
  cases step <;> rfl

/-- A list is seen tree by tree. -/
theorem throughs_eq_map (v : View) (es : List Expr) : throughs v es = es.map (through v) := by
  induction es with
  | nil => rfl
  | cons e rest ih => rw [throughs, ih, List.map_cons]

/-- The span of a node is shown in its place. -/
@[simp] theorem span_through (v : View) (e : Expr) : (e.through v).span = v e.span := by
  cases e with
  | loop name start stop step body span => cases step <;> rfl
  | _ => rfl

/-- Through two views one after the other, a tree is seen as through the two in one. -/
theorem through_through (v w : View) (e : Expr) :
    (e.through v).through w = e.through (w ∘ v) := by
  induction e with
  | number value span => rfl
  | var name span => rfl
  | binary op left right span hl hr => simp only [through, hl, hr, Function.comp]
  | call name arguments span ih =>
    simp only [through, throughs_eq_map, List.map_map, Function.comp]
    congr 1
    exact List.map_congr_left ih
  | cond condition consequent alternative span hc ht hf =>
    simp only [through, hc, ht, hf, Function.comp]
  | loop name start stop step body span h1 h2 h3 h4 =>
    cases step with
    | none => simp only [through, h1, h2, h4, Function.comp]
    | some s => simp only [through, h1, h2, h3 s rfl, h4, Function.comp]

/-- Through the view that shows no span, a tree is seen without its spans. -/
theorem through_blank (e : Expr) : e.through .blank = e.bare := by
  induction e with
  | number value span => rfl
  | var name span => rfl
  | binary op left right span hl hr => simp only [through, bare, hl, hr, View.blank]
  | call name arguments span ih =>
    simp only [through, bare, throughs_eq_map, bares_eq_map, View.blank]
    congr 1
    exact List.map_congr_left ih
  | cond condition consequent alternative span hc ht hf =>
    simp only [through, bare, hc, ht, hf, View.blank]
  | loop name start stop step body span h1 h2 h3 h4 =>
    cases step with
    | none => simp only [through, bare, h1, h2, h4, View.blank]
    | some s => simp only [through, bare, h1, h2, h3 s rfl, h4, View.blank]

/-- Through the view that shows every span as it is, so is a tree. -/
theorem through_id (e : Expr) : e.through id = e := by
  induction e with
  | number value span => rfl
  | var name span => rfl
  | binary op left right span hl hr => simp only [through, hl, hr, id]
  | call name arguments span ih =>
    simp only [through, throughs_eq_map, id]
    congr 1
    exact (List.map_congr_left ih).trans (List.map_id _)
  | cond condition consequent alternative span hc ht hf => simp only [through, hc, ht, hf, id]
  | loop name start stop step body span h1 h2 h3 h4 =>
    cases step with
    | none => simp only [through, h1, h2, h4, id]
    | some s => simp only [through, h1, h2, h3 s rfl, h4, id]

/-- A view hides nothing of a tree but spans. -/
theorem bare_through (v : View) (e : Expr) : (e.through v).bare = e.bare := by
  rw [← through_blank, through_through, ← through_blank]
  rfl

/-- The height of a tree is the same through every view. -/
@[simp] theorem height_through (v : View) (e : Expr) : (e.through v).height = e.height := by
  rw [← height_bare, bare_through, height_bare]

end Expr

/-- A prototype seen through a view. -/
def Prototype.through (v : View) (p : Prototype) : Prototype := { p with span := v p.span }

/-- A definition seen through a view. -/
def Definition.through (v : View) (d : Definition) : Definition :=
  ⟨d.prototype.through v, d.body.through v⟩

namespace Statement

/-- A statement seen through a view. -/
def through (v : View) : Statement → Statement
  | .foreign p => .foreign (p.through v)
  | .definition d => .definition (d.through v)
  | .expression e => .expression (e.through v)

/-- Through the view that shows no span, a statement is seen without its spans. -/
theorem through_blank (s : Statement) : s.through .blank = s.bare := by
  cases s with
  | foreign p => rfl
  | definition d => simp only [through, Definition.through, Expr.through_blank]; rfl
  | expression e => simp only [through, Expr.through_blank, bare]

/-- Through the view that shows every span as it is, so is a statement. -/
theorem through_id (s : Statement) : s.through id = s := by
  cases s with
  | foreign p => rfl
  | definition d => simp only [through, Definition.through, Expr.through_id]; rfl
  | expression e => simp only [through, Expr.through_id]

end Statement

end Formulary
