import TreeMachine.Text.Decimal

/-!
# Nodes

A linked program keeps its statements, expressions, variables, functions and scopes in tables. A
node is known by its position in its table; ids of different tables are of different types.
-/

namespace TreeMachine

/-- The position of a statement. -/
structure StmtId where
  index : Nat
  deriving DecidableEq, Repr

/-- The position of an expression. -/
structure ExprId where
  index : Nat
  deriving DecidableEq, Repr

/-- The position of a declared variable. -/
structure VarId where
  index : Nat
  deriving DecidableEq, Repr

/-- The position of a function. -/
structure FnId where
  index : Nat
  deriving DecidableEq, Repr

/-- The position of a scope. -/
structure ScopeId where
  index : Nat
  deriving DecidableEq, Repr

/-- A statement as it is named in messages. -/
def StmtId.text (id : StmtId) : String :=
  "stmt#" ++ Text.natural id.index

/-- An expression as it is named in messages. -/
def ExprId.text (id : ExprId) : String :=
  "expr#" ++ Text.natural id.index

/-- A variable as it is named in messages. -/
def VarId.text (id : VarId) : String :=
  "var#" ++ Text.natural id.index

/-- A function as it is named in messages. -/
def FnId.text (id : FnId) : String :=
  "fn#" ++ Text.natural id.index

/-- The node that a fault is reported at. A frame with nothing left to run has none. -/
inductive Place
  | stmt (id : StmtId)
  | expr (id : ExprId)
  | function (id : FnId)
  | nowhere
  deriving DecidableEq, Repr

/-- A place as it is named in messages. -/
def Place.text : Place → String
  | .stmt id => id.text
  | .expr id => id.text
  | .function id => id.text
  | .nowhere => "<no node>"

end TreeMachine
