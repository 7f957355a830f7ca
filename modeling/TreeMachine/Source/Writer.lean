import TreeMachine.Json.Fields
import TreeMachine.Source.Basic

/-!
# Writing program definitions

Program definitions as JSON values. Statements and expressions are objects that name their kind in a
field `t`. Every field is written, also those that may be left out when a definition is read.

Writing is defined for every definition, with one case for each constructor and one function for
each type of list, so that it follows the structure of a definition. What is written is read back as
the same definition, as long as it is not nested more deeply than a text may be, and as the doubles
in it are kept. A constant that is infinite or undefined has no literal, and is written as null;
then the text is well-formed but no definition.

The text of a program has no blanks (`Program.text`). A definition has many texts that are read as
it, with fields left out, in another order, or beside further ones; this is the only one that is
written.
-/

namespace TreeMachine.Source

open Json (Value)

/-- An array of strings. -/
def strings (names : List String) : Value :=
  .array (names.map Value.string)

/-- An object of a kind. -/
def tagged (kind : String) (fields : List (String × Value)) : Value :=
  .object (("t", .string kind) :: fields)

/-- The value of a constant. -/
def scalarToJson : Scalar → Value
  | .bool b => tagged "Bool" [("v", .bool b)]
  | .int n => tagged "Int" [("v", .number (.int n.toInt))]
  | .float x => tagged "Float" [("v", .number (.float x))]
  | .text s => tagged "Str" [("v", .string s)]

mutual

/-- The value of an expression. -/
def Expr.toJson : Expr → Value
  | .scalar s => scalarToJson s
  | .var name => tagged "Var" [("name", .string name)]
  | .declare name => tagged "Let" [("name", .string name)]
  | .assign name value => tagged "Assign" [("name", .string name), ("value", value.toJson)]
  | .name name => tagged "Name" [("name", .string name)]
  | .function name => tagged "FnRef" [("name", .string name)]
  | .call callee args =>
    tagged "Call" [("callee", callee.toJson), ("args", .array (exprsToJson args))]
  | .choose cond thenExpr elseExpr =>
    tagged "If" [("cond", cond.toJson), ("then_e", thenExpr.toJson), ("else_e", elseExpr.toJson)]
  | .closure params body =>
    tagged "Closure" [("params", strings params), ("body", .array (stmtsToJson body))]

/-- The values of expressions. -/
def exprsToJson : List Expr → List Value
  | [] => []
  | e :: es => e.toJson :: exprsToJson es

/-- The value of a statement. -/
def Stmt.toJson : Stmt → Value
  | .expr e => tagged "Expr" [("expr", e.toJson)]
  | .block body => tagged "Block" [("body", .array (stmtsToJson body))]
  | .loop cond body testLast =>
    tagged "While"
      [("cond", cond.toJson), ("body", .array (stmtsToJson body)), ("do_while", .bool testLast)]
  | .forall indices iterators body =>
    tagged "For"
      [("indices", strings indices), ("iterators", .array (exprsToJson iterators)),
       ("body", .array (stmtsToJson body))]
  | .branch cond thenBody elseBody =>
    tagged "If"
      [("cond", cond.toJson), ("then_s", .array (stmtsToJson thenBody)),
       ("else_s", .array (stmtsToJson elseBody))]
  | .select selector arms =>
    tagged "Select" [("selector", selector.toJson), ("whens", .array (armsToJson arms))]
  | .return none => tagged "Return" [("value", .null)]
  | .return (some value) => tagged "Return" [("value", value.toJson)]
  | .label name => tagged "Label" [("name", .string name)]
  | .goto label => tagged "Goto" [("label", .string label)]

/-- The values of statements. -/
def stmtsToJson : List Stmt → List Value
  | [] => []
  | s :: ss => s.toJson :: stmtsToJson ss

/-- The value of an arm. -/
def Arm.toJson : Arm → Value
  | .mk cases body =>
    .object [("cases", .array (exprsToJson cases)), ("body", .array (stmtsToJson body))]

/-- The values of arms. -/
def armsToJson : List Arm → List Value
  | [] => []
  | a :: as => a.toJson :: armsToJson as

end

mutual

/-- The value of a function. -/
def Function.toJson : Function → Value
  | .mk name params functions body =>
    .object
      [("name", .string name), ("params", strings params),
       ("functions", .array (functionsToJson functions)), ("body", .array (stmtsToJson body))]

/-- The values of functions. -/
def functionsToJson : List Function → List Value
  | [] => []
  | f :: fs => f.toJson :: functionsToJson fs

end

/-- The value of a module. -/
def Module.toJson (m : Module) : Value :=
  .object
    [("name", .string m.name), ("functions", .array (functionsToJson m.functions)),
     ("body", .array (stmtsToJson m.body))]

/-- The value of a program. -/
def Program.toJson (p : Program) : Value :=
  .object
    [("modules", .array (p.modules.map Module.toJson)), ("entry", .ofOption .string p.entry)]

/-- The JSON text of a program. -/
def Program.text (p : Program) : String :=
  p.toJson.text

end TreeMachine.Source
