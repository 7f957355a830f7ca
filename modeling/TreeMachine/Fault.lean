import TreeMachine.Node

/-!
# Faults

What can stop a run. A complaint is about the interpreted program, which misbehaved; a defect is
about the machine itself, in a state that no run of a loaded program gets into; and reading commands
or writing output can fail.

A complaint and a defect come with the place at which the machine was, a statement, an expression or
a function, and the texts of all of them are given here, as they are shown to a user. A channel
error has no place: it is not about the program.

Which failures are complaints and which are defects is decided where they arise, by what the machine
relies on. A stack without an operand, a stage that a node does not have, an id beyond its table and
a select that has lost its value are defects. That none of them ever happens in a linked program, as
long as its loops over collections have one variable and one iterator, is the theorem that the
soundness of contexts is there for (`Context.Reachable.sound`). Linking lets other loops pass, and
their first step fails: two of the defects are about them.

Linking and reading have errors of their own, and so has the command line; they are not faults,
since nothing runs yet.
-/

namespace TreeMachine

/-- What the interpreted program did wrong. -/
inductive Complaint
  | emptyVariable
  | uninitializedVariable
  | unknownVariable (name : String)
  | unresolved (name : String) (candidates : Nat)
  | notCallable (kind : String)
  | closureUnsupported
  | emptyCall
  | arityMismatch (name : String) (expected got : Nat)
  | notBoolean (kind : String)
  | notInteger (kind : String)
  | notNumbers (op left right : String)
  | integerOverflow (op : String)
  | malformedRange
  | divisionByZero
  | output (reason : String)
  deriving DecidableEq, Repr

/-- The text of a complaint. -/
def Complaint.message : Complaint → String
  | .emptyVariable => "accessed empty variable"
  | .uninitializedVariable => "accessed uninitialized variable"
  | .unknownVariable name => "unknown variable '" ++ name ++ "'"
  | .unresolved name candidates =>
    "unable to resolve function to single function '" ++ name ++ "' (" ++ Text.natural candidates
      ++ " visible)"
  | .notCallable kind => "call to something other than function name or closure (" ++ kind ++ ")"
  | .closureUnsupported => "closures not handled yet"
  | .emptyCall => "call with no arguments"
  | .arityMismatch name expected got =>
    "'" ++ name ++ "' expects " ++ Text.natural expected ++ " arguments, got " ++ Text.natural got
  | .notBoolean kind => "condition must be bool, found " ++ kind
  | .notInteger kind => "type mismatch: expected int, found " ++ kind
  | .notNumbers op left right =>
    "type mismatch: cannot apply '" ++ op ++ "' to " ++ left ++ " and " ++ right
  | .integerOverflow op => "type mismatch: integer overflow in '" ++ op ++ "'"
  | .malformedRange => "type mismatch: malformed range object"
  | .divisionByZero => "division by zero"
  | .output reason => "output failed: " ++ reason

/-- How the state of the machine is inconsistent. -/
inductive Defect
  | badStage (stage : Nat) (kind : String)
  | operandUnderflow
  | tooFewOperands (need held : Nat)
  | noActivation
  | finishedContext
  | iteratorCount (count : Nat)
  | indexCount (count : Nat)
  | iteratorMissing
  | loopStateMissing
  | armOutsideSelect
  | selectedMissing
  | armLostSelect
  | labelOutOfReach (label : StmtId)
  | staleHandle (handle : String)
  | dangling (node : String)
  deriving DecidableEq, Repr

/-- The text of a defect. -/
def Defect.message : Defect → String
  | .badStage stage kind => "bad stage " ++ Text.natural stage ++ " for " ++ kind
  | .operandUnderflow => "operand stack underflow"
  | .tooFewOperands need held =>
    "not enough arguments for call: need " ++ Text.natural need ++ ", operand stack holds "
      ++ Text.natural held
  | .noActivation => "call with no activation"
  | .finishedContext => "entry call on a finished context"
  | .iteratorCount count => "bad number of iterators (" ++ Text.natural count ++ ")"
  | .indexCount count => "bad number of indices (" ++ Text.natural count ++ ")"
  | .iteratorMissing => "forall iterator was never evaluated"
  | .loopStateMissing => "forall state missing"
  | .armOutsideSelect => "select arm outside a select"
  | .selectedMissing => "select value missing"
  | .armLostSelect => "select arm lost its select"
  | .labelOutOfReach label => "goto target " ++ label.text ++ " is not in an enclosing sequence"
  | .staleHandle handle => "stale object handle " ++ handle
  | .dangling node => "no such node: " ++ node

/-- How reading commands or writing output failed. -/
inductive ChannelError
  | sinkFull
  | invalidUtf8
  deriving DecidableEq, Repr

/-- The text of a channel error. -/
def ChannelError.message : ChannelError → String
  | .sinkFull => "sink full"
  | .invalidUtf8 => "stream did not contain valid UTF-8"

/-- Why a run stopped before its end. -/
inductive Fault
  | user (place : Place) (complaint : Complaint)
  | internal (place : Place) (defect : Defect)
  | channel (error : ChannelError)
  deriving DecidableEq, Repr

/-- The text of a fault. -/
def Fault.message : Fault → String
  | .user place complaint => place.text ++ ": " ++ complaint.message
  | .internal place defect => "internal error at " ++ place.text ++ ": " ++ defect.message
  | .channel error => "i/o error: " ++ error.message

end TreeMachine
