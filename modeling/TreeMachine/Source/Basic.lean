import TreeMachine.Scalar

/-!
# Program definitions

The nested form in which a program is handed over: modules with functions and statements, functions
with further functions inside them. Variables, functions and labels are referred to by name.

A definition is a tree, with lists of statements for the sequences, and three of its types are
defined together: expressions contain statements, through closures. There is nothing here that
restricts names. A variable may be used before its declaration, a label may be missing, a jump may
lead into another statement, and two functions may have one name; whether a definition can be linked
is another question, to which `Source.Program.Valid` gives the answer.

Three kinds of expressions stand for functions, and they differ in when the function is looked up:
`function` when the program is linked, `name` when the call is made, and a closure not at all. A
loop over collections has lists of variables and of iterators. The machine runs such a loop with one
of each only.
-/

namespace TreeMachine.Source

mutual

/-- An expression. `name` is a function that is looked up when it is called, `function` one that is
looked up when the program is linked. -/
inductive Expr
  | scalar (s : Scalar)
  | var (name : String)
  | declare (name : String)
  | assign (name : String) (value : Expr)
  | name (name : String)
  | function (name : String)
  | call (callee : Expr) (args : List Expr)
  | choose (cond thenExpr elseExpr : Expr)
  | closure (params : List String) (body : List Stmt)

/-- A statement. A loop tests its condition before its body or, if so marked, after it. -/
inductive Stmt
  | expr (e : Expr)
  | block (body : List Stmt)
  | loop (cond : Expr) (body : List Stmt) (testLast : Bool)
  | forall (indices : List String) (iterators : List Expr) (body : List Stmt)
  | branch (cond : Expr) (thenBody elseBody : List Stmt)
  | select (selector : Expr) (arms : List Arm)
  | return (value : Option Expr)
  | label (name : String)
  | goto (label : String)

/-- An arm of a select. Without cases it takes every value. -/
inductive Arm
  | mk (cases : List Expr) (body : List Stmt)

end

/-- A function with its parameters and the functions that are visible only inside it. -/
inductive Function
  | mk (name : String) (params : List String) (functions : List Function) (body : List Stmt)

/-- The name of a function. -/
def Function.name : Function → String
  | .mk name _ _ _ => name

/-- The parameters of a function. -/
def Function.params : Function → List String
  | .mk _ params _ _ => params

/-- The functions inside a function. -/
def Function.functions : Function → List Function
  | .mk _ _ functions _ => functions

/-- The statements of a function. -/
def Function.body : Function → List Stmt
  | .mk _ _ _ body => body

/-- A module: functions, and statements that are run when the program starts. -/
structure Module where
  name : String
  functions : List Function
  body : List Stmt

/-- A program. Unless the entry function is named, it is `main`, if there is one. -/
structure Program where
  modules : List Module
  entry : Option String

end TreeMachine.Source
