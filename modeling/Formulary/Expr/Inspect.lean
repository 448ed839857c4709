import Formulary.Program

/-!
# Constructor text

The structure of a program written out: each node by the name of its kind with its named parts in
parentheses. Names stand in quotes and spans are left out. A row of one element keeps a comma
behind it.
-/

namespace Formulary

/-- A row of texts in parentheses; a row of one keeps a comma. -/
def inspectRow : List String → String
  | [] => "()"
  | [text] => "(" ++ text ++ ",)"
  | texts => "(" ++ ", ".intercalate texts ++ ")"

/-- A list of texts in brackets. -/
def inspectList (texts : List String) : String := "[" ++ ", ".intercalate texts ++ "]"

namespace Expr

mutual

/-- Constructor text of an expression. -/
def inspect : Expr → String
  | number value _ => "NumberLiteral(value=" ++ Number.natural value ++ ")"
  | var name _ => "VariableRef(name=" ++ Text.quoted name ++ ")"
  | binary op left right _ =>
    "BinaryOp(operator=" ++ op.inspect ++ ", left=" ++ inspect left ++ ", right=" ++ inspect right
      ++ ")"
  | call name arguments _ =>
    "Call(name=" ++ Text.quoted name ++ ", arguments=" ++ inspectRow (inspects arguments) ++ ")"
  | cond condition consequent alternative _ =>
    "Conditional(condition=" ++ inspect condition ++ ", then_branch=" ++ inspect consequent
      ++ ", else_branch=" ++ inspect alternative ++ ")"
  | loop name start stop none body _ =>
    "ForLoop(variable=" ++ Text.quoted name ++ ", start=" ++ inspect start ++ ", end="
      ++ inspect stop ++ ", step=None, body=" ++ inspect body ++ ")"
  | loop name start stop (some step) body _ =>
    "ForLoop(variable=" ++ Text.quoted name ++ ", start=" ++ inspect start ++ ", end="
      ++ inspect stop ++ ", step=" ++ inspect step ++ ", body=" ++ inspect body ++ ")"

/-- Constructor texts of the expressions of a list. -/
def inspects : List Expr → List String
  | [] => []
  | e :: rest => inspect e :: inspects rest

end

end Expr

/-- Constructor text of a prototype. -/
def Prototype.inspect (p : Prototype) : String :=
  "Prototype(name=" ++ Text.quoted p.name ++ ", params=" ++ inspectRow (p.params.map Text.quoted)
    ++ ")"

/-- Constructor text of a definition. -/
def Definition.inspect (d : Definition) : String :=
  "Definition(prototype=" ++ d.prototype.inspect ++ ", body=" ++ d.body.inspect ++ ")"

/-- Constructor text of a program. -/
def Program.inspect (p : Program) : String :=
  "Program(externs=" ++ inspectList (p.externs.map Prototype.inspect)
    ++ ", definitions=" ++ inspectList (p.definitions.map Definition.inspect)
    ++ ", top_level_expressions=" ++ inspectList (p.expressions.map Expr.inspect) ++ ")"

end Formulary
