import TreeMachine.Heap

/-!
# The iteration protocol

A loop over a collection works by messages. It asks the collection for a start state; then, as long
as the state is valid, it asks for the element at the state, runs its body, and asks for the next
state. Messages are sent by calling a function of the message's name with the collection as first
argument. Objects of certain types are iterable without such functions: the machine answers for them
directly.

The state of a loop is a value like any other. It is kept by the loop and handed to the collection
with each message, so a collection has no position of its own, and several loops over the same one
do not disturb each other.

An iterable type is a structure of four functions on objects (`Iterable`). They are pure: an answer
neither writes nor allocates, and its only failure is a complaint about the program. The one type of
this kind that linked programs have is that of ranges of integers, whose state is the current
integer, and whose upper end does not belong to the range. Moving on adds one to the state in 64
bits. It is asked for only after the state was found to be below the upper end, so that this sum
never wraps around in a loop; `Iterable.range` itself does not check it.
-/

namespace TreeMachine

/-- A message of the iteration protocol. -/
inductive Message
  | start
  | valid
  | index
  | next
  deriving DecidableEq, Repr

namespace Message

/-- All messages. -/
def all : List Message := [.start, .valid, .index, .next]

/-- The name of the function that is called to send a message. -/
def selector : Message → String
  | .start => "start"
  | .valid => "valid"
  | .index => "index"
  | .next => "next"

/-- The message of a name. -/
def ofSelector? (name : String) : Option Message :=
  all.find? fun m => m.selector == name

/-- The number of arguments of a message: the collection, and the state for all but the first. -/
def argCount : Message → Nat
  | .start => 1
  | _ => 2

theorem ofSelector?_selector (m : Message) : ofSelector? m.selector = some m := by
  cases m <;> decide

end Message

/-- The answers that objects of a type give to the messages. -/
structure Iterable where
  start : Object → Except Complaint Value
  valid : Object → Value → Except Complaint Bool
  index : Object → Value → Except Complaint Value
  next : Object → Value → Except Complaint Value

namespace Iterable

/-- The answer to a message with the given state, if there is one. -/
def answer (it : Iterable) (m : Message) (o : Object) (state : Value) : Except Complaint Value :=
  match m with
  | .start => it.start o
  | .valid => (it.valid o state).map Value.bool
  | .index => it.index o state
  | .next => it.next o state

/-- The type name of integer ranges. -/
def rangeType : String := "range"

/-- The range of the integers from `lo` up to but not including `hi`. -/
def rangeObject (lo hi : Int64) : Object :=
  ⟨rangeType, [.int lo, .int hi]⟩

/-- The two bounds of a range. -/
def rangeBounds (o : Object) : Except Complaint (Int64 × Int64) :=
  match o.fields with
  | [lo, hi] => do
    let lo ← lo.asInt
    let hi ← hi.asInt
    return (lo, hi)
  | _ => .error .malformedRange

/-- Ranges: the state is the current integer, and it is the element as well. -/
def range : Iterable where
  start o := return .int (← rangeBounds o).1
  valid o state := do
    let (_, hi) ← rangeBounds o
    return (← state.asInt) < hi
  index _ state := return .int (← state.asInt)
  next _ state := return .int ((← state.asInt) + 1)

end Iterable

end TreeMachine
