import TreeMachine.Json.Fields
import TreeMachine.Source.Basic

/-!
# Reading program definitions

A program definition is read from JSON text. Fields that hold lists may be left out, where they are
not what a statement is about, and then are empty; fields of other names are passed over.

In programs, modules and functions the values of unknown fields are passed over unread, so that in
them neither the depth of nesting nor the literals matter. A statement, in contrast, is read as a
whole before it is looked at. The number of levels that a text may have bounds the recursion.

Statements and expressions name their kind in a field `t`. Inside a statement that field may also
hold the number of the kind, counted from zero.

A definition that is read need not be linked: names are texts here, and nothing is known about what
they refer to. A text that is no definition is refused without saying what is wrong with it, since
the message does not tell.
-/

namespace TreeMachine.Source

open Json (Tree Value Fields)

/-- Reads an array of strings. -/
def strings? (v : Value) : Option (List String) :=
  v.listOf? Value.string?

/-- The kinds of expressions. -/
def exprKinds : List String :=
  ["Bool", "Int", "Float", "Str", "Var", "Let", "Assign", "Name", "FnRef", "Call", "If", "Closure"]

/-- The kinds of statements. -/
def stmtKinds : List String :=
  ["Expr", "Block", "While", "For", "If", "Select", "Return", "Label", "Goto"]

/-- Reads a kind, given by its name or by its number among the kinds. -/
def kind? (kinds : List String) (v : Value) : Option String :=
  match v.integer? with
  | some n => if 0 ≤ n then kinds[n.toNat]? else none
  | none => v.string?

/-- The kind of an object, and all its fields. -/
def tagged? (kinds : List String) (v : Value) : Option (String × Fields Value) := do
  let fields ← v.fields?
  let kind ← fields.required "t" (kind? kinds)
  return (kind, fields)

mutual

/-- Reads an expression of at most `levels` levels. -/
def expr? (levels : Nat) (v : Value) : Option Expr :=
  match levels with
  | 0 => none
  | levels + 1 => do
    let (kind, fields) ← tagged? exprKinds v
    match kind with
    | "Bool" => return .scalar (.bool (← fields.required "v" Value.bool?))
    | "Int" => return .scalar (.int (← fields.required "v" Value.int64?))
    | "Float" => return .scalar (.float (← fields.required "v" Value.float?))
    | "Str" => return .scalar (.text (← fields.required "v" Value.string?))
    | "Var" => return .var (← fields.required "name" Value.string?)
    | "Let" => return .declare (← fields.required "name" Value.string?)
    | "Assign" =>
      let name ← fields.required "name" Value.string?
      let value ← fields.required "value" (expr? levels)
      return .assign name value
    | "Name" => return .name (← fields.required "name" Value.string?)
    | "FnRef" => return .function (← fields.required "name" Value.string?)
    | "Call" =>
      let callee ← fields.required "callee" (expr? levels)
      let args ← fields.defaulted "args" [] (Value.listOf? (expr? levels))
      return .call callee args
    | "If" =>
      let cond ← fields.required "cond" (expr? levels)
      let thenExpr ← fields.required "then_e" (expr? levels)
      let elseExpr ← fields.required "else_e" (expr? levels)
      return .choose cond thenExpr elseExpr
    | "Closure" =>
      let params ← fields.defaulted "params" [] strings?
      let body ← fields.defaulted "body" [] (Value.listOf? (stmt? levels))
      return .closure params body
    | _ => none

/-- Reads a statement of at most `levels` levels. -/
def stmt? (levels : Nat) (v : Value) : Option Stmt :=
  match levels with
  | 0 => none
  | levels + 1 => do
    let (kind, fields) ← tagged? stmtKinds v
    match kind with
    | "Expr" => return .expr (← fields.required "expr" (expr? levels))
    | "Block" => return .block (← fields.required "body" (Value.listOf? (stmt? levels)))
    | "While" =>
      let cond ← fields.required "cond" (expr? levels)
      let body ← fields.defaulted "body" [] (Value.listOf? (stmt? levels))
      let testLast ← fields.defaulted "do_while" false Value.bool?
      return .loop cond body testLast
    | "For" =>
      let indices ← fields.required "indices" strings?
      let iterators ← fields.required "iterators" (Value.listOf? (expr? levels))
      let body ← fields.defaulted "body" [] (Value.listOf? (stmt? levels))
      return .forall indices iterators body
    | "If" =>
      let cond ← fields.required "cond" (expr? levels)
      let thenBody ← fields.defaulted "then_s" [] (Value.listOf? (stmt? levels))
      let elseBody ← fields.defaulted "else_s" [] (Value.listOf? (stmt? levels))
      return .branch cond thenBody elseBody
    | "Select" =>
      let selector ← fields.required "selector" (expr? levels)
      let arms ← fields.required "whens" (Value.listOf? (arm? levels))
      return .select selector arms
    | "Return" => return .return (← fields.nullable "value" (expr? levels))
    | "Label" => return .label (← fields.required "name" Value.string?)
    | "Goto" => return .goto (← fields.required "label" Value.string?)
    | _ => none

/-- Reads an arm of at most `levels` levels. -/
def arm? (levels : Nat) (v : Value) : Option Arm :=
  match levels with
  | 0 => none
  | levels + 1 => do
    let fields ← v.fields?
    let cases ← fields.defaulted "cases" [] (Value.listOf? (expr? levels))
    let body ← fields.defaulted "body" [] (Value.listOf? (stmt? levels))
    return .mk cases body

end

/-! ### Functions, modules, programs -/

/-- Reads the keys of an object, but not its values. -/
def treeFields? : Tree → Option (Fields Tree)
  | .object fs => fs.mapM fun f => (Json.readString? f.1).map fun k => (k, f.2)
  | _ => none

/-- Reads the items of an array of at most `levels` levels; the reader of the items is told how many
are left for them. -/
def treeList? {β : Type} (levels : Nat) (read : Nat → Tree → Option β) : Tree → Option (List β)
  | .array ts =>
    match levels with
    | 0 => none
    | levels + 1 => ts.mapM (read levels)
  | _ => none

/-- Reads a string. -/
def treeString? : Tree → Option String
  | .string raw => Json.readString? raw
  | _ => none

/-- Whether the kind of an object, if it has one, is given by its name. -/
def isNamedKind (v : Value) : Bool :=
  match v.fields?.bind fun fields => fields.required "t" Value.integer? with
  | some _ => false
  | none => true

/-- Reads a statement from a tree of at most `levels` levels. Its own kind must be named. -/
def treeStmt? (levels : Nat) (t : Tree) : Option Stmt := do
  let v ← t.value? levels
  if isNamedKind v then stmt? levels v else none

/-- Reads a function from a tree of at most `levels` levels. -/
def function? (levels : Nat) (t : Tree) : Option Function :=
  match levels with
  | 0 => none
  | levels + 1 => do
    let fields ← treeFields? t
    let name ← fields.required "name" treeString?
    let params ← fields.defaulted "params" [] (treeList? levels fun _ => treeString?)
    let functions ← fields.defaulted "functions" [] fun
      | .array ts =>
        match levels with
        | 0 => none
        | levels + 1 => ts.mapM (function? levels)
      | _ => none
    let body ← fields.defaulted "body" [] (treeList? levels treeStmt?)
    return .mk name params functions body

/-- Reads a module from a tree of at most `levels` levels. -/
def module? (levels : Nat) (t : Tree) : Option Module :=
  match levels with
  | 0 => none
  | levels + 1 => do
    let fields ← treeFields? t
    let name ← fields.required "name" treeString?
    let functions ← fields.defaulted "functions" [] (treeList? levels function?)
    let body ← fields.defaulted "body" [] (treeList? levels treeStmt?)
    return ⟨name, functions, body⟩

/-- Reads a name that may be null. -/
def treeName? : Tree → Option (Option String)
  | .null => some none
  | t => (treeString? t).map some

/-- Reads a program from a tree of at most `levels` levels. -/
def program? (levels : Nat) (t : Tree) : Option Program :=
  match levels with
  | 0 => none
  | levels + 1 => do
    let fields ← treeFields? t
    let modules ← fields.required "modules" (treeList? levels module?)
    let entry ← fields.defaulted "entry" none treeName?
    return ⟨modules, entry⟩

/-- Reads a program from JSON text. -/
def Program.ofText? (s : String) : Option Program :=
  (Tree.ofText? s).bind (program? Json.maxLevels)

end TreeMachine.Source
