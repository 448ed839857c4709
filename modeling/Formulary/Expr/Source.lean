import Formulary.Program

/-!
# Canonical source text

The one spelling that every program can be written in. It is meant to be read again, not to look
like what was read: every binary operation, condition and loop stands in parentheses, numbers are
positional, and a program lists its outside functions, then its definitions, then its formulas, one
statement a line. How deep a stack the printer needs is in `Formulary.Expr.OnStack`.
-/

namespace Formulary

namespace Expr

mutual

/-- The canonical text of an expression. -/
def source : Expr → String
  | number value _ => Number.plain value
  | var name _ => name
  | binary op left right _ => "(" ++ source left ++ " " ++ op.text ++ " " ++ source right ++ ")"
  | call name arguments _ => name ++ "(" ++ ", ".intercalate (sources arguments) ++ ")"
  | cond condition consequent alternative _ =>
    "(if " ++ source condition ++ " then " ++ source consequent ++ " else " ++ source alternative
      ++ ")"
  | loop name start stop none body _ =>
    "(for " ++ name ++ " = " ++ source start ++ ", " ++ source stop ++ " in " ++ source body ++ ")"
  | loop name start stop (some step) body _ =>
    "(for " ++ name ++ " = " ++ source start ++ ", " ++ source stop ++ ", " ++ source step
      ++ " in " ++ source body ++ ")"

/-- The canonical texts of the expressions of a list. -/
def sources : List Expr → List String
  | [] => []
  | e :: rest => source e :: sources rest

end

theorem source_number (value : Float) (span : Option Span) :
    (number value span).source = Number.plain value := rfl

theorem source_var (name : String) (span : Option Span) : (var name span).source = name := rfl

theorem source_binary (op : Operator) (left right : Expr) (span : Option Span) :
    (binary op left right span).source =
      "(" ++ left.source ++ " " ++ op.text ++ " " ++ right.source ++ ")" := rfl

theorem source_call (name : String) (arguments : List Expr) (span : Option Span) :
    (call name arguments span).source =
      name ++ "(" ++ ", ".intercalate (sources arguments) ++ ")" := rfl

theorem source_cond (condition consequent alternative : Expr) (span : Option Span) :
    (cond condition consequent alternative span).source =
      "(if " ++ condition.source ++ " then " ++ consequent.source ++ " else " ++ alternative.source
        ++ ")" := rfl

theorem source_loop (name : String) (start stop body : Expr) (span : Option Span) :
    (loop name start stop none body span).source =
      "(for " ++ name ++ " = " ++ start.source ++ ", " ++ stop.source ++ " in " ++ body.source
        ++ ")" := rfl

theorem source_steppedLoop (name : String) (start stop step body : Expr) (span : Option Span) :
    (loop name start stop (some step) body span).source =
      "(for " ++ name ++ " = " ++ start.source ++ ", " ++ stop.source ++ ", " ++ step.source
        ++ " in " ++ body.source ++ ")" := rfl

theorem sources_eq_map (es : List Expr) : sources es = es.map source := by
  induction es with
  | nil => rfl
  | cons e rest ih => simp [sources, ih]

end Expr

/-- The canonical text of a prototype: parameters are parted by blanks. -/
def Prototype.source (p : Prototype) : String := p.name ++ "(" ++ " ".intercalate p.params ++ ")"

/-- The canonical text of a definition. -/
def Definition.source (d : Definition) : String :=
  "def " ++ d.prototype.source ++ " " ++ d.body.source ++ ";"

/-- The canonical text of a statement. -/
def Statement.source : Statement → String
  | .foreign p => "extern " ++ p.source ++ ";"
  | .definition d => d.source
  | .expression e => e.source ++ ";"

namespace Program

/-- The statements of a program in canonical order. -/
def statements (p : Program) : List Statement :=
  p.externs.map .foreign ++ p.definitions.map .definition ++ p.expressions.map .expression

/-- The canonical text of a program; every statement ends its line. -/
def source (p : Program) : String := String.join (p.statements.map fun s => s.source ++ "\n")

end Program

end Formulary
