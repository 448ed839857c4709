import Formulary.Evaluation.Action
import Formulary.Evaluation.Value
import Formulary.Expr.Basic

/-!
# Outside functions

A program declares the functions that it expects from outside; they are found by name. The standard
ones compute a function of one or two numbers, or write a number or a character. Others can be
added or put in the place of standard ones: a `Routine` takes any number of arguments and may
evaluate calls and formulas of the program before it answers.
-/

namespace Formulary.Evaluation

/-- A standard outside function. -/
inductive Standard where
  | unary (f : Float → Float)
  | binary (f : Float → Float → Float)
  | printNumber
  | printCharacter

namespace Standard

/-- The number of arguments of a standard function. -/
def arity : Standard → Nat
  | unary _ | printNumber | printCharacter => 1
  | binary _ => 2

/-- The standard functions with their names. -/
def all : List (String × Standard) :=
  [("sin", .unary Float.sin), ("cos", .unary Float.cos), ("tan", .unary Float.tan),
    ("atan", .unary Float.atan), ("sqrt", .unary Float.sqrt), ("exp", .unary Float.exp),
    ("log", .unary Float.log), ("fabs", .unary Float.abs), ("floor", .unary Float.floor),
    ("pow", .binary Float.pow), ("printd", .printNumber), ("putchard", .printCharacter)]

/-- The standard function of a name. -/
def find? (name : String) : Option Standard := all.lookup name

/-- Write a number with six places on a line of its own. -/
def writeNumber (x : Float) : Action Unit := .write (Number.fixed x ++ "\n")

/-- Write the character whose code is the whole part of a number, modulo 256. -/
def writeCharacter (name : String) (x : Float) : Action Unit :=
  if x.isFinite then
    .write (Char.ofNat (Number.truncate x % 256).toNat).toString
  else .stop (.failed (.invalidArgument name x))

/-- Carry out a standard function. It has no implementation for any number of arguments but its own;
an evaluator does not ask for one. -/
def invoke (name : String) : Standard → List Float → Action Float
  | unary f, [x] => pure (f x)
  | binary f, [x, y] => pure (f x y)
  | printNumber, [x] => do
    writeNumber x
    return 0.0
  | printCharacter, [x] => do
    writeCharacter name x
    return 0.0
  | _, _ => .stop (.failed (.unboundExtern name none))

/-- Refuse a standard function that is declared with another number of parameters than its own. -/
def refuse (name : String) (s : Standard) (declared : Nat) : Action Float :=
  let reason := s!"declared with {declared} parameters, builtin takes {s.arity}"
  .stop (.failed (.unboundExtern name (some reason)))

end Standard

/-- What an added outside function does: answer, or first have a call or a formula of the program
evaluated and go on with what that comes to. -/
inductive Routine where
  | done (answer : Except Fault Float)
  | call (name : String) (arguments : List Float) (next : Except Fault Float → Routine)
  | evaluate (e : Expr) (bindings : List (String × Float))
      (next : Except Fault Float → Routine)

namespace Routine

/-- The sum of the arguments, from the left. -/
def sum (arguments : List Float) : Routine := done (.ok (arguments.foldl (· + ·) 0.0))

/-- The number of arguments. -/
def count (arguments : List Float) : Routine := done (.ok (Float.ofNat arguments.length))

/-- The last argument, zero if there is none. -/
def last (arguments : List Float) : Routine := done (.ok (arguments.getLastD 0.0))

/-- Always the same number. -/
def const (x : Float) (_ : List Float) : Routine := done (.ok x)

/-- Hand the arguments on to a function of the program. -/
def handOn (name : String) (arguments : List Float) : Routine := call name arguments done

/-- Evaluate a formula in which the arguments are called `a0`, `a1` and so on. -/
def formula (e : Expr) (arguments : List Float) : Routine :=
  evaluate e (arguments.zipIdx.map fun a => (s!"a{a.2}", a.1)) done

end Routine

end Formulary.Evaluation
