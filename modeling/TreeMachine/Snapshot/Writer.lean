import TreeMachine.Context
import TreeMachine.Json.Fields

/-!
# Writing snapshots

A snapshot is a context as a JSON value. Activations come callers first and stacks bottom first.
Values and keys are objects that name their kind in a field `t` and hold the rest in a second field.

An environment is an array of pairs, one for each key. Which of them comes first is left open: the
pairs are those of a map, in whatever order it happens to go through them, and two environments of a
context need not even agree in it. So a context has many snapshots, and which values they are is
said by a relation (`Context.IsSnapshot`). `Context.snapshot` is the one of them that has all keys
in ascending order, for those who want to compare two contexts by their texts.
-/

namespace TreeMachine

/-- An object of a kind that holds nothing more. -/
def Json.bare (kind : String) : Json.Value :=
  .object [("t", .string kind)]

/-- An object of a kind and what it holds. -/
def Json.holding (kind key : String) (content : Json.Value) : Json.Value :=
  .object [("t", .string kind), (key, content)]

/-- The snapshot of a scalar. -/
def Scalar.snapshot : Scalar → Json.Value
  | .bool b => Json.holding "Bool" "v" (.bool b)
  | .int n => Json.holding "Int" "v" (.number (.int n.toInt))
  | .float x => Json.holding "Float" "v" (.number (.float x))
  | .text s => Json.holding "Str" "v" (.string s)

/-- The snapshot of a handle. -/
def Handle.snapshot (h : Handle) : Json.Value :=
  .object [("index", .ofNat h.index), ("generation", .ofNat h.generation.toNat)]

/-- The snapshot of a value. -/
def Value.snapshot : Value → Json.Value
  | .empty => Json.bare "Empty"
  | .uninitialized => Json.bare "Uninitialized"
  | .object h => Json.holding "Object" "v" h.snapshot
  | .scalar s => Json.holding "Immediate" "v" s.snapshot
  | .function id => Json.holding "Function" "v" (.ofNat id.index)
  | .selector name => Json.holding "Selector" "v" (.string name)
  | .closure id => Json.holding "Closure" "v" (.ofNat id.index)

/-- The snapshot of a key. -/
def Key.snapshot : Key → Json.Value
  | .expr id => Json.holding "Expr" "id" (.ofNat id.index)
  | .stmt id => Json.holding "Stmt" "id" (.ofNat id.index)
  | .var id => Json.holding "Var" "id" (.ofNat id.index)

/-- The snapshot of an environment that has its pairs in this order. -/
def Env.snapshotOf (pairs : List (Key × Value)) : Json.Value :=
  .array (pairs.map fun e => .array [e.1.snapshot, e.2.snapshot])

/-- The snapshot of an environment with its keys in ascending order. -/
def Env.snapshot (env : Env) : Json.Value :=
  snapshotOf env.entries.reverse

/-- **The snapshots of an environment.** It is a map, which gives its pairs in any order, and in
another one each time that it is written. -/
def Env.IsSnapshot (env : Env) (v : Json.Value) : Prop :=
  ∃ pairs : List (Key × Value), pairs.Perm env.entries ∧ v = snapshotOf pairs

/-- The snapshot of an activation with this one of its environment. -/
def Frame.snapshotWith (f : Frame) (env : Json.Value) : Json.Value :=
  .object [
    ("env", env),
    ("stmt_stack", .array (f.waiting.reverse.map fun s => .ofNat s.index)),
    ("stage_stack", .array (f.resumes.reverse.map .ofNat)),
    ("expr_stack", .array (f.suspended.reverse.map fun e =>
      .array [.ofNat e.1.index, .ofNat e.2])),
    ("val_stack", .array (f.operands.reverse.map Value.snapshot)),
    ("stmt", .ofOption (fun s => .ofNat s.index) f.stmt),
    ("expr", .ofOption (fun e => .ofNat e.index) f.expr),
    ("stage", .ofNat f.stage),
    ("expr_stage", .ofNat f.exprStage),
    ("function", .ofOption (fun id => .ofNat id.index) f.function),
    ("scope", .ofNat f.scope.index)]

/-- The snapshot of an activation with the keys of its environment in ascending order. -/
def Frame.snapshot (f : Frame) : Json.Value :=
  f.snapshotWith f.env.snapshot

/-- The snapshots of an activation. -/
def Frame.IsSnapshot (f : Frame) (v : Json.Value) : Prop :=
  ∃ env, f.env.IsSnapshot env ∧ v = f.snapshotWith env

/-- The snapshot of an object. -/
def Object.snapshot (o : Object) : Json.Value :=
  .object [("ty", .string o.typeName), ("fields", .array (o.fields.map Value.snapshot))]

/-- The snapshot of an entry of the heap. -/
def Entry.snapshot (e : Entry) : Json.Value :=
  .object [
    ("generation", .ofNat e.generation.toNat),
    ("object", .ofOption Object.snapshot e.object)]

/-- The snapshot of a heap. -/
def Heap.snapshot (heap : Heap) : Json.Value :=
  .object [
    ("entries", .array (heap.entries.toList.map Entry.snapshot)),
    ("free", .array (heap.free.reverse.map .ofNat)),
    ("allocated_since_collect", .ofNat heap.allocated)]

/-- The snapshot of a context with these ones of its activations, callers first. -/
def Context.snapshotWith (c : Context) (frames : List Json.Value) : Json.Value :=
  .object [
    ("frames", .array frames),
    ("heap", c.heap.snapshot),
    ("steps", .ofNat c.steps)]

/-- The snapshot of a context with the keys of all its environments in ascending order. -/
def Context.snapshot (c : Context) : Json.Value :=
  c.snapshotWith (c.frames.reverse.map Frame.snapshot)

/-- **The snapshots of a context.** Each activation is written as one of its snapshots. -/
def Context.IsSnapshot (c : Context) (v : Json.Value) : Prop :=
  ∃ written : List (Frame × Json.Value), written.map Prod.fst = c.frames.reverse ∧
    (∀ w ∈ written, w.1.IsSnapshot w.2) ∧ v = c.snapshotWith (written.map Prod.snd)

end TreeMachine
