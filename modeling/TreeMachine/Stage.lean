/-!
# Stages

A node is worked on in stages, and an activation stores the stage that the current node is at as a
number. What the number means depends on the kind of node; a number beyond the stages of a kind
means nothing.

Each kind of node has a type of its stages here, so that work on the node is a match with one case
for each stage, and every case has a name. The numbers are what an activation stores, what a trace
prints and what a snapshot writes; the two are translated by `number` and `ofNumber?`, which is
partial. A call and an arm of a select have as many stages as they have arguments or cases, so for
these two the translation takes the length of the list (`CallStage.number`, `ArmStage.number`).

A frame with a number that means nothing is not excluded by its type. Working on such a frame is a
defect, and that it does not happen is part of what it means for an activation to have the right
shape.
-/

namespace TreeMachine

/-- An expression statement evaluates its expression and discards the value. -/
inductive ExprStmtStage
  | eval
  | discard
  deriving DecidableEq, Repr

/-- A block is entered; there is nothing to do when its body is finished. -/
inductive BlockStage
  | enter
  deriving DecidableEq, Repr

/-- A loop is entered, evaluates its condition and looks at it. -/
inductive LoopStage
  | enter
  | test
  | check
  deriving DecidableEq, Repr

/-- A loop over a collection evaluates the collection, asks it for a start state, asks whether the
state is valid, looks at the answer and asks for the element, runs the body, asks for the next
state, and goes on with the answer as the state. -/
inductive ForallStage
  | evalIterator
  | start
  | valid
  | check
  | body
  | next
  | advance
  deriving DecidableEq, Repr

/-- A conditional, statement or expression, evaluates its condition and takes one of its sides. -/
inductive BranchStage
  | test
  | branch
  deriving DecidableEq, Repr

/-- A select evaluates its selector and goes to its arms. -/
inductive SelectStage
  | eval
  | dispatch
  deriving DecidableEq, Repr

/-- A return evaluates its value and leaves the activation. -/
inductive ReturnStage
  | eval
  | detach
  deriving DecidableEq, Repr

/-- An assignment evaluates its value and stores it. -/
inductive AssignStage
  | eval
  | store
  deriving DecidableEq, Repr

/-- Labels, jumps and simple expressions take one stage. -/
inductive LeafStage
  | eval
  deriving DecidableEq, Repr

/-- A call evaluates its callee and its arguments, enters the function and takes the result. -/
inductive CallStage
  | callee
  | arg (i : Nat)
  | invoke
  | complete
  deriving DecidableEq, Repr

/-- An arm is entered, compares its cases and leaves the select when its body is finished. -/
inductive ArmStage
  | enter
  | compare (i : Nat)
  | leave
  deriving DecidableEq, Repr

/-! ### Numbers of stages -/

/-- The number of a stage of an expression statement. -/
def ExprStmtStage.number : ExprStmtStage → Nat
  | .eval => 0
  | .discard => 1

/-- The stage of an expression statement that a number means. -/
def ExprStmtStage.ofNumber? : Nat → Option ExprStmtStage
  | 0 => some .eval
  | 1 => some .discard
  | _ => none

/-- The number of a stage of a block. -/
def BlockStage.number : BlockStage → Nat
  | .enter => 0

/-- The stage of a block that a number means. -/
def BlockStage.ofNumber? : Nat → Option BlockStage
  | 0 => some .enter
  | _ => none

/-- The number of a stage of a loop. -/
def LoopStage.number : LoopStage → Nat
  | .enter => 0
  | .test => 1
  | .check => 2

/-- The stage of a loop that a number means. -/
def LoopStage.ofNumber? : Nat → Option LoopStage
  | 0 => some .enter
  | 1 => some .test
  | 2 => some .check
  | _ => none

/-- The number of a stage of a loop over a collection. -/
def ForallStage.number : ForallStage → Nat
  | .evalIterator => 0
  | .start => 1
  | .valid => 2
  | .check => 3
  | .body => 4
  | .next => 5
  | .advance => 6

/-- The stage of a loop over a collection that a number means. -/
def ForallStage.ofNumber? : Nat → Option ForallStage
  | 0 => some .evalIterator
  | 1 => some .start
  | 2 => some .valid
  | 3 => some .check
  | 4 => some .body
  | 5 => some .next
  | 6 => some .advance
  | _ => none

/-- The number of a stage of a conditional. -/
def BranchStage.number : BranchStage → Nat
  | .test => 0
  | .branch => 1

/-- The stage of a conditional that a number means. -/
def BranchStage.ofNumber? : Nat → Option BranchStage
  | 0 => some .test
  | 1 => some .branch
  | _ => none

/-- The number of a stage of a select. -/
def SelectStage.number : SelectStage → Nat
  | .eval => 0
  | .dispatch => 1

/-- The stage of a select that a number means. -/
def SelectStage.ofNumber? : Nat → Option SelectStage
  | 0 => some .eval
  | 1 => some .dispatch
  | _ => none

/-- The number of a stage of a return. -/
def ReturnStage.number : ReturnStage → Nat
  | .eval => 0
  | .detach => 1

/-- The stage of a return that a number means. -/
def ReturnStage.ofNumber? : Nat → Option ReturnStage
  | 0 => some .eval
  | 1 => some .detach
  | _ => none

/-- The number of a stage of an assignment. -/
def AssignStage.number : AssignStage → Nat
  | .eval => 0
  | .store => 1

/-- The stage of an assignment that a number means. -/
def AssignStage.ofNumber? : Nat → Option AssignStage
  | 0 => some .eval
  | 1 => some .store
  | _ => none

/-- The number of the stage of a leaf. -/
def LeafStage.number : LeafStage → Nat
  | .eval => 0

/-- The stage of a leaf that a number means. -/
def LeafStage.ofNumber? : Nat → Option LeafStage
  | 0 => some .eval
  | _ => none

/-- The number of a stage of a call with `n` arguments: zero for the callee, then one for each
argument, then two more. -/
def CallStage.number (n : Nat) : CallStage → Nat
  | .callee => 0
  | .arg i => i + 1
  | .invoke => n + 1
  | .complete => n + 2

/-- The number of a stage of a call with `n` arguments as an activation stores it, in 32 bits. -/
def CallStage.stored (n : Nat) (s : CallStage) : UInt32 :=
  .ofNat (s.number n)

/-- The stage of a call with `n` arguments that a number means. -/
def CallStage.ofNumber? (n stage : Nat) : Option CallStage :=
  if stage = 0 then some .callee
  else if stage ≤ n then some (.arg (stage - 1))
  else if stage = n + 1 then some .invoke
  else if stage = n + 2 then some .complete
  else none

/-- The number of a stage of an arm with `n` cases: zero for entering, then one for each case, then
one more. -/
def ArmStage.number (n : Nat) : ArmStage → Nat
  | .enter => 0
  | .compare i => i + 1
  | .leave => n + 1

/-- The number of a stage of an arm with `n` cases as an activation stores it, in 32 bits. -/
def ArmStage.stored (n : Nat) (s : ArmStage) : UInt32 :=
  .ofNat (s.number n)

/-- The stage of an arm with `n` cases that a number means. -/
def ArmStage.ofNumber? (n stage : Nat) : Option ArmStage :=
  if stage = 0 then some .enter
  else if stage ≤ n then some (.compare (stage - 1))
  else if stage = n + 1 then some .leave
  else none

end TreeMachine
