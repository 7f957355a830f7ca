import TreeMachine.CommandLine.Action

/-!
# The program

The outermost layer: files and variables are read, and a run writes its output and asks for debugger
commands as it goes on. Slices make no difference here and are not observed.

The definitions of this module are the only ones that have effects. They do what the other modules
describe, one turn of a machine after the other, and in between they pass on what the machine has
written and ask for a line when the debugger wants one. All decisions are made by functions of those
modules: whether to run at all, what a step does, what a command means and when a run is over.

A run by turns has no bound, and neither has the reading of a line; so these definitions are not in
the logic. There is nothing to be proved about them that could not be said about the machine itself.
-/

namespace TreeMachine.CommandLine

/-! ### Surroundings -/

/-- Reads a file as text. -/
def readText (name : String) : IO (Except FileError String) := do
  try
    let bytes ← IO.FS.readBinFile name
    return (String.fromUTF8? bytes).elim (.error .invalidUtf8) .ok
  catch e =>
    match e with
    | .inappropriateType _ code _ =>
      return .error (if code = 21 then .isDirectory else .notDirectory)
    | .invalidArgument .. => return .error .nameTooLong
    | .permissionDenied .. => return .error .denied
    | _ => return .error .notFound

/-- The variables of the environment, as far as the system lists them. -/
def readEnvironment : IO (List (String × String)) := do
  match ← readText "/proc/self/environ" with
  | .error _ => return []
  | .ok text =>
    return (text.splitOn "\x00").filterMap fun entry =>
      match entry.toList.span (· != '=') with
      | (name, _ :: value) => some (.ofList name, .ofList value)
      | _ => none

/-- Surroundings in which the given files have been read. -/
def surroundings (environment : List (String × String)) (files : List String) :
    IO Surroundings := do
  let texts ← files.mapM fun name => return (name, ← readText name)
  return ⟨fun name => (texts.lookup name).getD (.error .notFound), environment⟩

/-! ### Debugger commands -/

/-- Reads the bytes of a line, its newline included. -/
partial def readLine (input : IO.FS.Stream) (before : ByteArray) : IO ByteArray := do
  let bytes ← input.read 1
  if bytes.isEmpty || bytes.toList == [10] then return before ++ bytes
  readLine input (before ++ bytes)

/-- Prompts for commands until one of them ends the dialogue, or the input ends. -/
partial def converse (input output : IO.FS.Stream) (d : Debugger) :
    IO (Debugger × Except ChannelError Resume) := do
  output.putStr Debugger.prompt
  output.flush
  let bytes ← readLine input .empty
  if bytes.isEmpty then
    output.putStr "\n"
    return (d, .ok .run)
  match Line.ofBytes bytes with
  | .invalid _ => return (d, .error .invalidUtf8)
  | .text line =>
    let reply := d.respond line
    output.putStr reply.text
    match reply.resume with
    | some resume => return (reply.debugger, .ok resume)
    | none => converse input output reply.debugger

/-! ### Runs -/

/-- Runs a machine until it is finished, and writes what it wrote to its sink. -/
partial def runMachine (p : Program) (threshold : Nat) (input output : IO.FS.Stream)
    (m : Machine) : IO (Machine × Except Fault Outcome) := do
  if m.context.isFinished then return (m, .ok .finished)
  let (d, resume) ←
    if m.debugger.interrupted then converse input output m.debugger.enter
    else pure (m.debugger, .ok .run)
  let m := { m with debugger := d }
  match resume with
  | .error e => return (m, .error (.channel e))
  | .ok .quit => return (m, .ok .quit)
  | .ok .run =>
    let (m, turn) := m.advance p threshold
    if m.sink.size > 0 then output.write m.sink.bytes
    let m := { m with sink := .ofLimit none }
    match turn with
    | .error e => return (m, .error e)
    | .ok _ => runMachine p threshold input output m

/-- Runs tasks one after the other. -/
def runTasks (p : Program) (threshold : Nat) (input output : IO.FS.Stream) :
    List Task → Debugger → IO (Except Fault Status)
  | [], _ => return .ok .completed
  | t :: ts, d => do
    let started := t.start p (.ofLimit none)
    output.write started.sink.bytes
    match started.result with
    | .error e => return .error e
    | .ok () =>
      match ← runMachine p threshold input output ⟨started.context, d, [], .ofLimit none⟩ with
      | (_, .error e) => return .error e
      | (_, .ok .quit) => return .ok .quit
      | (m, .ok _) => runTasks p threshold input output ts m.debugger

/-- Runs a program unless its configuration forbids it. -/
def runProgram (p : Program) (c : Config) : IO (Except Fault Status) := do
  if c.run then
    let d := Debugger.start c.traceLevel c.interrupt
    runTasks p c.gcThreshold (← IO.getStdin) (← IO.getStdout) p.tasks d
  else return .ok .skipped

/-- Writes the last output and gives the exit code. -/
def finish (e : Ending) : IO UInt32 := do
  let output ← IO.getStdout
  output.putStr e.output
  output.flush
  (← IO.getStderr).putStr e.errors
  return e.code.toUInt32

end TreeMachine.CommandLine

open TreeMachine CommandLine in
/-- Reads the arguments and does what they ask for. -/
def main (args : List String) : IO UInt32 := do
  let environment ← readEnvironment
  let around ← surroundings environment [Surroundings.variablesFile]
  let files := Surroundings.variablesFile :: filesToRead around args
  match action (← surroundings environment files) args with
  | .finish e => finish e
  | .run p c => finish (.ofRun (← runProgram p c))
