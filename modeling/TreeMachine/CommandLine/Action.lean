import TreeMachine.CommandLine.Arguments
import TreeMachine.CommandLine.Variables
import TreeMachine.Linking
import TreeMachine.Session
import TreeMachine.Source.Reader

/-!
# The command line program

What the program does with its arguments: it finishes at once, or it goes on to run a linked
program. Errors are told on the error output, from the outermost cause to the innermost.

Everything up to the run is a function of the arguments and of what is around the program
(`action`): its environment, with the variables of a file, and the texts of files. Which files these
are is a function of the arguments as well (`filesToRead`), so that they can be read beforehand. The
run itself is left to the outermost layer, because it asks for commands and writes while it goes on.

There are three requests. Running a program needs its configuration first and then the program, so a
bad configuration is told even when there is no such program. Checking a program does not look at
the configuration. Showing the configuration writes it in the form of a file, which fails for
numbers that such a file cannot hold.

The exit code is 0 after a run that ended, by itself or by a quit command, and when help was wanted;
it is 1 after an error and 2 for wrong arguments (`Ending`).
-/

namespace TreeMachine

/-- Why a text is not a program that can be run. -/
inductive LoadError
  | malformed
  | link (e : LinkError)
  deriving DecidableEq, Repr

/-- The text of a load error. -/
def LoadError.message : LoadError → String
  | .malformed => "failed to parse program: not the JSON of a program definition"
  | .link e => e.message

/-- The linked program of a text. -/
def Program.ofText (text : String) : Except LoadError Program :=
  match Source.Program.ofText? text with
  | none => .error .malformed
  | some d => (Program.link d).mapError .link

/-- The number of functions that are no primitives. -/
def Program.definedCount (p : Program) : Nat :=
  p.functions.toList.countP fun f =>
    match f.body with
    | .code _ => true
    | .primitive _ => false

/-- The file of variables for the environment. -/
def Surroundings.variablesFile : String := ".env"

/-- The surroundings with the variables of the file of variables. -/
def Surroundings.complete (around : Surroundings) : Surroundings :=
  match around.contents variablesFile with
  | .ok text => { around with environment := CommandLine.withVariables around.environment text }
  | .error _ => around

namespace CommandLine

/-- How the program ends: its exit code and what it writes to its two outputs before that. -/
structure Ending where
  code : UInt8
  output : String
  errors : String
  deriving DecidableEq, Repr

/-- Ends with an error. -/
def Ending.failure (message : String) : Ending :=
  ⟨1, "", "Error: " ++ message ++ "\n"⟩

/-- What the program does: it ends, or it runs a linked program first. -/
inductive Action
  | finish (e : Ending)
  | run (p : Program) (c : Config)

/-- The text that is shown when help is wanted or an argument is wrong. -/
def usage : String :=
  "Usage: stepwise [--config <CONFIG>] <COMMAND>\n\n" ++
  "Commands:\n" ++
  "  run <PROGRAM>    run every module, then the entry function\n" ++
  "  check <PROGRAM>  load a program without running it\n" ++
  "  config           print the effective configuration\n" ++
  "  help             print this message\n\n" ++
  "Options of run:\n" ++
  "  --interrupt                    start in the debugger\n" ++
  "  --trace <TRACE>                trace level\n" ++
  "  --timeslice <TIMESLICE>        steps in a slice, 0 for no slices\n" ++
  "  --gc-threshold <GC_THRESHOLD>  allocations between collections, 0 for none\n" ++
  "  --no-run                       load the program only\n"

/-- The ending when the arguments give no invocation. -/
def Stop.ending : Stop → Ending
  | .help => ⟨0, usage, ""⟩
  | .misuse => ⟨2, "", usage⟩

/-- Loads a program file. -/
def loadProgram (around : Surroundings) (path : String) : Except Ending Program :=
  match around.contents path with
  | .error e => .error (.failure ("Failed to read program " ++ path ++ ": " ++ e.message))
  | .ok text =>
    (Program.ofText text).mapError fun e =>
      .failure ("Failed to load program " ++ path ++ ": " ++ e.message)

/-- Loads the configuration. -/
def loadConfig (around : Surroundings) (file : Option String) (o : Overrides) :
    Except Ending Config :=
  (Config.load around file true o).mapError fun e => .failure e.message

/-- What is told about a program that can be run. -/
def report (path : String) (p : Program) : String :=
  let entry := match p.entry with
    | some id => p.functionName id
    | none => "(none)"
  "✓ " ++ path ++ " is valid\n" ++
    "  Modules: " ++ Text.natural p.modules.size ++ "\n" ++
    "  Functions: " ++ Text.natural p.definedCount ++ "\n" ++
    "  Entry: " ++ entry ++ "\n"

/-- What the program does on an invocation. -/
def Invocation.action (around : Surroundings) (i : Invocation) : Except Ending Action := do
  match i.request with
  | .run path o =>
    let c ← loadConfig around i.configFile o
    let p ← loadProgram around path
    return .run p c
  | .check path =>
    let p ← loadProgram around path
    return .finish ⟨0, report path p, ""⟩
  | .config =>
    let c ← loadConfig around i.configFile .empty
    match c.toml? with
    | some text => return .finish ⟨0, text, ""⟩
    | none => throw (.failure (ConfigError.unwritable.message ++ ": " ++ Config.unwritableCause))

/-- What the program does with its arguments. -/
def action (around : Surroundings) (args : List String) : Action :=
  match Invocation.read args with
  | .error stop => .finish stop.ending
  | .ok i =>
    match i.action around.complete with
    | .ok a => a
    | .error e => .finish e

/-- The files that the program may read, the one with variables apart. -/
def filesToRead (around : Surroundings) (args : List String) : List String :=
  match Invocation.read args with
  | .error _ => []
  | .ok i =>
    let named := i.configFile <|> around.complete.environment.lookup Config.fileVariable
    let config := named.getD Config.defaultFile
    let program := match i.request with
      | .run path _ | .check path => [path]
      | .config => []
    config :: (candidates config).map (·.1) ++ program

/-- The text of a fault and of what caused it. The text of a fault of a channel already ends in its
cause. -/
def faultReport (e : Fault) : String :=
  match e with
  | .channel cause => e.message ++ ": " ++ cause.message
  | .user .. | .internal .. => e.message

/-- The ending after a run. -/
def Ending.ofRun (result : Except Fault Status) : Ending :=
  match result with
  | .ok .quit => ⟨0, "", "Quit from debugger\n"⟩
  | .ok _ => ⟨0, "", ""⟩
  | .error e => .failure ("Interpretation aborted: " ++ faultReport e)

end CommandLine

end TreeMachine
