import Formulary.Token.Basic

/-!
# Expressions

The trees that formulas are read into. Each node carries the span it was read from, if it was read
from a text; spans play no part in equality. `height` is what the nesting limit bounds, `walk`
visits a tree with an explicit stack and `preorder` says which order that is.
-/

namespace Formulary

/-- A formula. In `loop` the variable is bound in `stop`, `step` and `body` but not in `start`. -/
inductive Expr where
  | number (value : Float) (span : Option Span)
  | var (name : String) (span : Option Span)
  | binary (op : Operator) (left right : Expr) (span : Option Span)
  | call (name : String) (arguments : List Expr) (span : Option Span)
  | cond (condition consequent alternative : Expr) (span : Option Span)
  | loop (name : String) (start stop : Expr) (step : Option Expr) (body : Expr)
      (span : Option Span)

namespace Expr

/-- The span of a node. -/
def span : Expr → Option Span
  | number _ s | var _ s | binary _ _ _ s | call _ _ s | cond _ _ _ s | loop _ _ _ _ _ s => s

/-- Where a node starts. -/
def location (e : Expr) : Option Location := e.span.map Span.first

/-- The parts of a node, in the order in which they are written. -/
def children : Expr → List Expr
  | number _ _ | var _ _ => []
  | binary _ left right _ => [left, right]
  | call _ arguments _ => arguments
  | cond condition consequent alternative _ => [condition, consequent, alternative]
  | loop _ start stop step body _ => start :: stop :: (step.toList ++ [body])

/-- Induction on expressions, with a hypothesis for every argument of a call and for the step of a
loop if there is one. -/
@[elab_as_elim, induction_eliminator]
theorem induct {motive : Expr → Prop}
    (number : ∀ value span, motive (number value span))
    (var : ∀ name span, motive (var name span))
    (binary : ∀ op left right span, motive left → motive right →
      motive (binary op left right span))
    (call : ∀ name arguments span, (∀ a ∈ arguments, motive a) →
      motive (call name arguments span))
    (cond : ∀ condition consequent alternative span, motive condition → motive consequent →
      motive alternative → motive (cond condition consequent alternative span))
    (loop : ∀ name start stop step body span, motive start → motive stop →
      (∀ s, step = some s → motive s) → motive body →
      motive (loop name start stop step body span)) (e : Expr) : motive e := by
  refine Expr.rec (motive_1 := motive) (motive_2 := fun l => ∀ a ∈ l, motive a)
    (motive_3 := fun o => ∀ s, o = some s → motive s)
    number var binary call cond ?_ ?_ ?_ ?_ ?_ e
  · intro name start stop step body span h1 h2 h3 h4
    exact loop name start stop step body span h1 h2 h3 h4
  · exact fun a ha => absurd ha List.not_mem_nil
  · intro a l ha hl x hx
    rcases List.mem_cons.mp hx with rfl | hx
    · exact ha
    · exact hl x hx
  · exact fun s hs => nomatch hs
  · intro a ha s hs
    cases hs
    exact ha

mutual

/-- The number of levels of a tree: one for a leaf and for a call without arguments. -/
def height : Expr → Nat
  | number _ _ | var _ _ => 1
  | binary _ left right _ => 1 + max (height left) (height right)
  | call _ arguments _ => 1 + heights arguments
  | cond condition consequent alternative _ =>
    1 + max (height condition) (max (height consequent) (height alternative))
  | loop _ start stop none body _ => 1 + max (height start) (max (height stop) (height body))
  | loop _ start stop (some step) body _ =>
    1 + max (height start) (max (height stop) (max (height step) (height body)))

/-- The greatest height in a list, zero if it is empty. -/
def heights : List Expr → Nat
  | [] => 0
  | e :: rest => max (height e) (heights rest)

end

mutual

/-- The number of nodes of a tree. -/
def size : Expr → Nat
  | number _ _ | var _ _ => 1
  | binary _ left right _ => 1 + size left + size right
  | call _ arguments _ => 1 + sizes arguments
  | cond condition consequent alternative _ =>
    1 + size condition + size consequent + size alternative
  | loop _ start stop none body _ => 1 + size start + size stop + size body
  | loop _ start stop (some step) body _ => 1 + size start + size stop + size step + size body

/-- The number of nodes of a list of trees. -/
def sizes : List Expr → Nat
  | [] => 0
  | e :: rest => size e + sizes rest

end

mutual

/-- Equality of trees, whatever their spans. Numbers are compared as numbers. -/
def beq : Expr → Expr → Bool
  | number a _, number b _ => a == b
  | var a _, var b _ => a == b
  | binary op left right _, binary op' left' right' _ =>
    op == op' && beq left left' && beq right right'
  | call name arguments _, call name' arguments' _ => name == name' && beqs arguments arguments'
  | cond c t f _, cond c' t' f' _ => beq c c' && beq t t' && beq f f'
  | loop v start stop none body _, loop v' start' stop' none body' _ =>
    v == v' && beq start start' && beq stop stop' && beq body body'
  | loop v start stop (some step) body _, loop v' start' stop' (some step') body' _ =>
    v == v' && beq start start' && beq stop stop' && beq step step' && beq body body'
  | _, _ => false

/-- Equality of lists of trees, element by element. -/
def beqs : List Expr → List Expr → Bool
  | [], [] => true
  | e :: rest, e' :: rest' => beq e e' && beqs rest rest'
  | _, _ => false

end

instance : BEq Expr := ⟨beq⟩

mutual

/-- A node, then the preorder of each of its parts in turn. -/
def preorder : Expr → List Expr
  | number value s => [number value s]
  | var name s => [var name s]
  | binary op left right s => binary op left right s :: (preorder left ++ preorder right)
  | call name arguments s => call name arguments s :: preorders arguments
  | cond c t f s => cond c t f s :: (preorder c ++ (preorder t ++ preorder f))
  | loop v start stop none body s =>
    loop v start stop none body s :: (preorder start ++ (preorder stop ++ preorder body))
  | loop v start stop (some step) body s =>
    loop v start stop (some step) body s ::
      (preorder start ++ (preorder stop ++ (preorder step ++ preorder body)))

/-- The preorders of the trees of a list, one after the other. -/
def preorders : List Expr → List Expr
  | [] => []
  | e :: rest => preorder e ++ preorders rest

end

theorem sizes_append (a b : List Expr) : sizes (a ++ b) = sizes a + sizes b := by
  induction a with
  | nil => simp [sizes]
  | cons e rest ih => simp [sizes, ih, Nat.add_assoc]

/-- A tree has one node more than its parts together. -/
theorem size_eq (e : Expr) : e.size = 1 + sizes e.children := by
  cases e with
  | loop v start stop step body s =>
    cases step <;> simp [size, sizes, children] <;> omega
  | _ => simp [size, sizes, children] <;> omega

/-- Visit the trees of a stack from the top: take a node off, yield it, and put its parts on, so that
the first of them is on top. Every step yields a node, so there is one node less on the stack. -/
def walkStack : List Expr → List Expr
  | [] => []
  | e :: stack => e :: walkStack (e.children ++ stack)
termination_by stack => sizes stack
decreasing_by
  rw [sizes_append, sizes, size_eq]
  omega

/-- All nodes of a tree, each before its parts, in the order in which they are written. -/
def walk (e : Expr) : List Expr := walkStack [e]

/-- The name of the kind of a node. -/
def className : Expr → String
  | number .. => "NumberLiteral"
  | var .. => "VariableRef"
  | binary .. => "BinaryOp"
  | call .. => "Call"
  | cond .. => "Conditional"
  | loop .. => "ForLoop"

theorem height_pos (e : Expr) : 0 < e.height := by
  cases e with
  | loop v start stop step body s => cases step <;> simp only [height] <;> omega
  | _ =>
    simp only [height]
    omega

/-- A tree has one level more than the highest of its parts. -/
theorem height_eq (e : Expr) : e.height = 1 + heights e.children := by
  cases e with
  | loop v start stop step body s => cases step <;> simp [height, heights, children]
  | _ => simp [height, heights, children]

end Expr

end Formulary
