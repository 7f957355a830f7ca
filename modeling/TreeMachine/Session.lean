import TreeMachine.Config.Basic
import TreeMachine.Machine

/-!
# Running a program

A program is run module by module, each in a context of its own, and last its entry function is
called. The debugger, the input and the sink are those of the whole session, over several runs as
well, and the contexts of all runs are kept.

The tasks of a program are its modules in order, and then the entry function, if there is one
(`Program.tasks`). They share nothing but what the session has: each has a heap of its own, so a
module cannot leave an object for the next one, and the variables of a module are gone when its
context is finished. A task that fails, or a debugger that is told to quit, ends the session, and
later tasks are not begun. The context of a task is kept in each of these cases, also when it is not
finished. The only context that is not kept is that of an entry function that could not even be
called.

A run of a session needs fuel for the same reason as that of a machine, and each task has the whole
of it. Between two slices of a run nothing happens, so the length of the slices does not show
(`Machine.driveEnds_iff`).

The configuration may forbid that a program is run at all. It is still read and linked then, and the
session ends without a task.
-/

namespace TreeMachine

/-- How a run of a program ended, when nothing went wrong. -/
inductive Status
  | completed
  | quit
  | skipped
  deriving DecidableEq, Repr

/-- A part of a run that has a context of its own. -/
inductive Task
  | module (m : Module)
  | entry (id : FnId)

/-- The parts of a run, in order. -/
def Program.tasks (p : Program) : List Task :=
  p.modules.toList.map .module ++ p.entry.toList.map .entry

/-- The context that a task begins with. A call of the entry function can fail. -/
def Task.start (p : Program) (sink : Sink) : Task → Effect Unit
  | .module m => ⟨.forModule m, sink, .ok ()⟩
  | .entry id => (Context.idle Program.rootScope).startEntry p id sink

/-- The state between runs. The contexts are those of all runs so far, in order. -/
structure Session where
  config : Config
  debugger : Debugger
  input : List Line
  sink : Sink
  contexts : List Context

namespace Session

/-- The session before the first run. -/
def start (config : Config) (input : List Line) (sink : Sink) : Session :=
  ⟨config, .start config.traceLevel config.interrupt, input, sink, []⟩

/-- A machine for a context in the surroundings of the session. -/
def machine (s : Session) (c : Context) : Machine :=
  ⟨c, s.debugger, s.input, s.sink⟩

/-- The session after a machine has run. -/
def record (s : Session) (m : Machine) : Session :=
  { s with
    debugger := m.debugger
    input := m.input
    sink := m.sink
    contexts := s.contexts ++ [m.context] }

/-- Runs tasks one after the other. A context whose entry call failed is not kept. -/
def runTasks (p : Program) (fuel : Nat) :
    List Task → Session → Option (Session × Except Fault Status)
  | [], s => some (s, .ok .completed)
  | t :: ts, s =>
    let started := t.start p s.sink
    let s := { s with sink := started.sink }
    match started.result with
    | .error e => some (s, .error e)
    | .ok () =>
      match (s.machine started.context).drive p s.config.gcThreshold s.config.timeslice fuel with
      | none => none
      | some (m, .error e) => some (s.record m, .error e)
      | some (m, .ok .quit) => some (s.record m, .ok .quit)
      | some (m, .ok _) => runTasks p fuel ts (s.record m)

/-- Runs the whole program, unless the configuration forbids it. -/
def run (p : Program) (fuel : Nat) (s : Session) : Option (Session × Except Fault Status) :=
  if s.config.run then s.runTasks p fuel p.tasks else some (s, .ok .skipped)

end Session

end TreeMachine
