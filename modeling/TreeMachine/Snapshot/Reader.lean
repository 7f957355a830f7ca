import TreeMachine.Context
import TreeMachine.Json.Fields

/-!
# Reading snapshots

A context is read back from its snapshot. Every field is required, except that the current nodes and
the function of an activation and the object of an entry may be absent; unknown fields are passed
over. Ids, stages and generations have 32 bits, counters 64.

The pairs of an environment may come in any order. Of two pairs with one key the later counts, which
does not arise in what was written: there each key has one pair.

What is read is not checked against a program. A snapshot may name statements that do not exist,
stacks of different lengths or handles without an object, and the context that it describes is made
all the same; running it may then end in a defect. What can be said is that a context is what is
read from any of its snapshots (`Context.IsSnapshot.ofText?`).

The readers work on values whose literals have been read, so a double is what the reader of numbers
made of its literal. A double that is infinite or NaN was written as null, which is no number, and
reading it fails. A kind is given by its name or by an object with the name as its only key, as
readers of tagged values allow; a kind that holds nothing may have its second field, with null.
-/

namespace TreeMachine.Snapshot

open Json.Value (bool? int64? float? string? natural? listOf?)

/-- Reads a number of 32 bits. -/
def word? (v : Json.Value) : Option Nat :=
  natural? Word.max32 v

/-- Reads a number of 64 bits. -/
def count? (v : Json.Value) : Option Nat :=
  natural? Word.max64 v

/-- Reads an array of two items. -/
def pair? {α β : Type} (first : Json.Value → Option α) (second : Json.Value → Option β) :
    Json.Value → Option (α × β)
  | .array [a, b] => return (← first a, ← second b)
  | _ => none

/-- Reads null. -/
def null? : Json.Value → Option Unit
  | .null => some ()
  | _ => none

/-- Reads a kind: its name, or an object that has the name as its only key, with null. -/
def kind? : Json.Value → Option String
  | .object [(name, .null)] => some name
  | v => string? v

/-- The kind that an object names, and all its fields. -/
def tagged? (v : Json.Value) : Option (String × Json.Fields Json.Value) := do
  let fields ← v.fields?
  let kind ← fields.required "t" kind?
  return (kind, fields)

/-! ### Values and environments -/

/-- Reads a scalar. -/
def scalar? (v : Json.Value) : Option Scalar := do
  let (kind, fields) ← tagged? v
  match kind with
  | "Bool" => return .bool (← fields.required "v" bool?)
  | "Int" => return .int (← fields.required "v" int64?)
  | "Float" => return .float (← fields.required "v" float?)
  | "Str" => return .text (← fields.required "v" string?)
  | _ => none

/-- Reads a handle. -/
def handle? (v : Json.Value) : Option Handle := do
  let fields ← v.fields?
  let index ← fields.required "index" word?
  let generation ← fields.required "generation" word?
  return ⟨index, .ofNat generation⟩

/-- Reads a value. One that holds nothing may hold null. -/
def value? (v : Json.Value) : Option Value := do
  let (kind, fields) ← tagged? v
  match kind with
  | "Empty" => (fields.defaulted "v" () null?).map fun () => .empty
  | "Uninitialized" => (fields.defaulted "v" () null?).map fun () => .uninitialized
  | "Object" => return .object (← fields.required "v" handle?)
  | "Immediate" => return .scalar (← fields.required "v" scalar?)
  | "Function" => return .function ⟨← fields.required "v" word?⟩
  | "Selector" => return .selector (← fields.required "v" string?)
  | "Closure" => return .closure ⟨← fields.required "v" word?⟩
  | _ => none

/-- Reads a key. -/
def key? (v : Json.Value) : Option Key := do
  let (kind, fields) ← tagged? v
  match kind with
  | "Expr" => return .expr ⟨← fields.required "id" word?⟩
  | "Stmt" => return .stmt ⟨← fields.required "id" word?⟩
  | "Var" => return .var ⟨← fields.required "id" word?⟩
  | _ => none

/-- Reads an environment. -/
def env? (v : Json.Value) : Option Env :=
  (v.listOf? (pair? key? value?)).map Env.ofList

/-! ### Contexts -/

/-- Reads an activation. -/
def frame? (v : Json.Value) : Option Frame := do
  let fields ← v.fields?
  let env ← fields.required "env" env?
  let waiting ← fields.required "stmt_stack" (listOf? word?)
  let resumes ← fields.required "stage_stack" (listOf? word?)
  let suspended ← fields.required "expr_stack" (listOf? (pair? word? word?))
  let operands ← fields.required "val_stack" (listOf? value?)
  let stmt ← fields.nullable "stmt" word?
  let expr ← fields.nullable "expr" word?
  let stage ← fields.required "stage" word?
  let exprStage ← fields.required "expr_stage" word?
  let function ← fields.nullable "function" word?
  let scope ← fields.required "scope" word?
  return {
    env := env
    waiting := waiting.reverse.map .mk
    resumes := resumes.reverse
    suspended := suspended.reverse.map fun e => (⟨e.1⟩, e.2)
    operands := operands.reverse
    stmt := stmt.map .mk
    expr := expr.map .mk
    stage := stage
    exprStage := exprStage
    function := function.map .mk
    scope := ⟨scope⟩ }

/-- Reads an object. -/
def object? (v : Json.Value) : Option Object := do
  let fields ← v.fields?
  let typeName ← fields.required "ty" string?
  let values ← fields.required "fields" (listOf? value?)
  return ⟨typeName, values⟩

/-- Reads an entry of the heap. -/
def entry? (v : Json.Value) : Option Entry := do
  let fields ← v.fields?
  let generation ← fields.required "generation" word?
  let object ← fields.nullable "object" object?
  return ⟨.ofNat generation, object⟩

/-- Reads a heap. -/
def heap? (v : Json.Value) : Option Heap := do
  let fields ← v.fields?
  let entries ← fields.required "entries" (listOf? entry?)
  let free ← fields.required "free" (listOf? word?)
  let allocated ← fields.required "allocated_since_collect" count?
  return ⟨entries.toArray, free.reverse, allocated⟩

/-- Reads a context. -/
def context? (v : Json.Value) : Option Context := do
  let fields ← v.fields?
  let frames ← fields.required "frames" (listOf? frame?)
  let heap ← fields.required "heap" heap?
  let steps ← fields.required "steps" count?
  return ⟨frames.reverse, heap, steps⟩

end TreeMachine.Snapshot

namespace TreeMachine

/-- The context whose snapshot a text is. -/
def Context.ofText? (s : String) : Option Context :=
  (Json.Value.ofText? s).bind Snapshot.context?

/-- The heap whose snapshot a text is. -/
def Heap.ofText? (s : String) : Option Heap :=
  (Json.Value.ofText? s).bind Snapshot.heap?

end TreeMachine
