import TreeMachine.Json.Value

/-!
# Reading the fields of an object

An object is read by the keys that its reader knows. A known key may stand anywhere among the fields
but only once; what other keys hold does not matter. A field is required, or has a default for when
it is absent, or is nullable: absent and null both mean that there is nothing.

The fields may hold values or trees that have not been looked at, so their type is a parameter
(`Fields`). With trees, what stands under an unknown key is never read, and may denote nothing or be
nested too deeply.

Each kind of field is one definition that is given the key and how to read what it holds
(`Fields.required`, `Fields.defaulted`, `Fields.nullable`). All three fail for a repeated key, also
when the field could be absent. A default is for absent fields only: a field that is null is read
like any other value, and fails unless it may be null.

Numbers are read as integers only if they are written without a fraction and an exponent; a double
can be read from an integer, which is rounded to the nearest one.
-/

namespace TreeMachine.Json

/-- The fields of an object whose values are of type `α`. -/
abbrev Fields (α : Type) := List (String × α)

/-- The value of a key that occurs at most once; nothing at all for a repeated key. -/
def Fields.lookup? {α : Type} (fields : Fields α) (key : String) : Option (Option α) :=
  match fields.filter fun f => f.1 == key with
  | [] => some none
  | [f] => some (some f.2)
  | _ :: _ :: _ => none

/-- A field that must be there. -/
def Fields.required {α β : Type} (fields : Fields α) (key : String) (read : α → Option β) :
    Option β :=
  (fields.lookup? key).bind fun
    | some v => read v
    | none => none

/-- A field that has a default for when it is absent. -/
def Fields.defaulted {α β : Type} (fields : Fields α) (key : String) (absent : β)
    (read : α → Option β) : Option β :=
  (fields.lookup? key).bind fun
    | some v => read v
    | none => some absent

/-- Reads a value that may also be null. -/
def Value.nullable? {β : Type} (read : Value → Option β) : Value → Option (Option β)
  | .null => some none
  | v => (read v).map some

/-- A field that may be absent or null. -/
def Fields.nullable {β : Type} (fields : Fields Value) (key : String) (read : Value → Option β) :
    Option (Option β) :=
  fields.defaulted key none (Value.nullable? read)

/-! ### Reading values of one kind -/

/-- The truth value that a value is. -/
def Value.bool? : Value → Option Bool
  | .bool b => some b
  | _ => none

/-- The string that a value is. -/
def Value.string? : Value → Option String
  | .string s => some s
  | _ => none

/-- The items of an array. -/
def Value.items? : Value → Option (List Value)
  | .array vs => some vs
  | _ => none

/-- The fields of an object. -/
def Value.fields? : Value → Option (Fields Value)
  | .object fs => some fs
  | _ => none

/-- Reads every item of an array. -/
def Value.listOf? {β : Type} (read : Value → Option β) (v : Value) : Option (List β) :=
  v.items?.bind fun vs => vs.mapM read

/-- The integer that a value is. A number written with a fraction or an exponent is none. -/
def Value.integer? : Value → Option Int
  | .number (.int n) => some n
  | _ => none

/-- The natural number that a value is, if it is at most `high`. -/
def Value.natural? (high : Nat) (v : Value) : Option Nat :=
  v.integer?.bind fun n => if 0 ≤ n ∧ n ≤ high then some n.toNat else none

/-- The 64-bit integer that a value is. -/
def Value.int64? (v : Value) : Option Int64 :=
  v.integer?.bind Word.signed?

/-- The double that a value is. Integers are rounded to the nearest one. -/
def Value.float? : Value → Option Float
  | .number (.float x) => some x
  | .number (.int n) => some (Float.ofInt n)
  | _ => none

/-- The value of a natural number. -/
def Value.ofNat (n : Nat) : Value :=
  .number (.int n)

/-- The value of an optional part, null when there is none. -/
def Value.ofOption {α : Type} (write : α → Value) : Option α → Value
  | some a => write a
  | none => .null

end TreeMachine.Json
