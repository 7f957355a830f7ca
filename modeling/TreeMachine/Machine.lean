import TreeMachine.Debugger.Dialogue
import TreeMachine.Execution.Step

/-!
# The machine

A machine is a context together with what surrounds its steps: the debugger with its input, and the
sink. Before each step a pending interrupt is attended to; after it the step is charged and, when
enough was allocated, the heap is collected. Jumps are free: they are neither charged nor followed
by a collection.

A run of the machine need not end. The definitions take fuel, one unit for each turn, and have no
result when the fuel does not suffice; a result does not depend on the fuel. Statements about runs
therefore do not mention it: `Machine.Ends` and its relatives say that there is enough of it, and
that there is at most one result is `Machine.Ends.unique`.

A budget is something else than fuel. It bounds the charged steps of a run, and a run that has used
it up is suspended, a result like any other, with a context that can go on later. Since a jump is
free, a run with a budget may take more turns than it charges; at most twice as many, as it turns
out (`Machine.comes_back`).

A threshold of zero means that there are no collections. Otherwise the allocations since the last
collection are compared with the threshold after each charged step, so that a heap may grow beyond
the threshold by what one step allocates.

The debugger is entered only when an interrupt is pending, which is looked at once in each turn.
Single stepping is an interrupt that is raised by the charge of a step.
-/

namespace TreeMachine

/-- A context with its surroundings. -/
structure Machine where
  context : Context
  debugger : Debugger
  input : List Line
  sink : Sink

/-- How a run of the machine ended: no activation is left, the budget is used up, or the debugger
was told to quit. -/
inductive Outcome
  | finished
  | suspended
  | quit
  deriving DecidableEq, Repr

/-- How one turn went: the step is charged, or it was a jump and is free, or there was none because
the debugger was told to quit. -/
inductive Turn
  | charged
  | free
  | quit
  deriving DecidableEq, Repr

namespace Machine

/-- Lets the debugger attend to a pending interrupt. -/
def attend (m : Machine) : Machine × Except ChannelError Resume :=
  if m.debugger.interrupted then
    let d := m.debugger.interact m.sink m.input
    ({ m with debugger := d.debugger, input := d.input, sink := d.sink }, d.result)
  else (m, .ok .run)

/-- Collects the heap when the number of allocations has reached the threshold. There is no
collection for a threshold of zero. -/
def collectDue (threshold : Nat) (c : Context) : Context :=
  if threshold > 0 ∧ c.heap.allocated ≥ threshold then c.collect.1 else c

/-- Charges a step. -/
def charge (threshold : Nat) (m : Machine) : Machine :=
  { m with
    context := collectDue threshold { m.context with steps := m.context.steps + 1 }
    debugger := m.debugger.stepTaken }

/-- Takes a step and charges it. -/
def advance (p : Program) (threshold : Nat) (m : Machine) : Machine × Except Fault Turn :=
  let done := m.context.step p m.debugger.traceLevel m.sink
  let m := { m with context := done.context, sink := done.sink }
  match done.result with
  | .error e => (m, .error e)
  | .ok .jumped => (m, .ok .free)
  | .ok _ => (m.charge threshold, .ok .charged)

/-- One turn: the debugger attends to an interrupt, then a step is taken. -/
def turn (p : Program) (threshold : Nat) (m : Machine) : Machine × Except Fault Turn :=
  match m.attend with
  | (m, .error e) => (m, .error (.channel e))
  | (m, .ok .quit) => (m, .ok .quit)
  | (m, .ok .run) => m.advance p threshold

/-- Runs until the context is finished, or until the budget of charged steps is used up, if there
is one. -/
def run (p : Program) (threshold : Nat) :
    (fuel : Nat) → (budget : Option Nat) → Machine → Option (Machine × Except Fault Outcome)
  | 0, _, _ => none
  | fuel + 1, budget, m =>
    if m.context.isFinished then some (m, .ok .finished)
    else if budget = some 0 then some (m, .ok .suspended)
    else
      match m.turn p threshold with
      | (m, .error e) => some (m, .error e)
      | (m, .ok .quit) => some (m, .ok .quit)
      | (m, .ok .free) => run p threshold fuel budget m
      | (m, .ok .charged) => run p threshold fuel (budget.map Nat.pred) m

/-- Runs in slices of a number of charged steps until the context is finished. The fuel counts the
slices, and each slice has some of its own. -/
def runSlices (p : Program) (threshold slice sliceFuel : Nat) :
    (fuel : Nat) → Machine → Option (Machine × Except Fault Outcome)
  | 0, _ => none
  | fuel + 1, m =>
    match m.run p threshold sliceFuel (some slice) with
    | some (m, .ok .suspended) => runSlices p threshold slice sliceFuel fuel m
    | result => result

/-- Runs until the context is finished, in slices unless their length is zero. -/
def drive (p : Program) (threshold slice fuel : Nat) (m : Machine) :
    Option (Machine × Except Fault Outcome) :=
  if slice = 0 then m.run p threshold fuel none
  else m.runSlices p threshold slice fuel fuel

end Machine

end TreeMachine
