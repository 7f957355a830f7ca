import TreeMachine.Config.Load

/-!
# Command line arguments

The arguments name a request, its options and the program file. They are read from left to right;
the first one that asks for help, or that is wrong, decides. An option can be given once, but the
one for the configuration file both before and after the request; the later one counts.

The value of an option is attached to it with an equals sign, or is the next argument. In the latter
case it is looked at only when the next argument of the same level is reached. So a bad value before
the request is found after all arguments of the request, and if these ask for help, help is given.
To this end the readers return what was wrong about a value beside what has been read
(`readOptions`).

Each request has its own options. Whether there is an option of a name that takes a value, and
whether there is a flag of the name, depends on the request that has been named so far
(`Options.setValue?`, `Options.setFlag`). After a double dash there are only program files, of which
a request has one at most.

An invocation is a request with the configuration file that it wants (`Invocation.read`). Otherwise
it is said only whether help is wanted or the arguments are wrong, since both are answered with the
same text.
-/

namespace TreeMachine.CommandLine

/-- What is asked for: running a program, checking it, or showing the configuration. -/
inductive Request
  | run (program : String) (overrides : Overrides)
  | check (program : String)
  | config
  deriving DecidableEq, Repr

/-- A request and the configuration file to be used. -/
structure Invocation where
  configFile : Option String
  request : Request
  deriving DecidableEq, Repr

/-- Why there is no invocation: help is wanted, or an argument is wrong or missing. -/
inductive Stop
  | help
  | misuse
  deriving DecidableEq, Repr

/-- The requests. -/
inductive Verb
  | run
  | check
  | config
  deriving DecidableEq, Repr

/-- The request of a name. -/
def Verb.ofName? : String → Option Verb
  | "run" => some .run
  | "check" => some .check
  | "config" => some .config
  | _ => none

/-- The number of program files that a request is about. -/
def Verb.programCount : Verb → Nat
  | .config => 0
  | _ => 1

/-- The options that have been read. -/
structure Options where
  configFile : Option String
  program : Option String
  interrupt : Bool
  noRun : Bool
  trace : Option Nat
  timeslice : Option Nat
  gcThreshold : Option Nat
  deriving DecidableEq, Repr

/-- No options. -/
def Options.empty : Options := ⟨none, none, false, false, none, none, none⟩

/-! ### Single options -/

/-- Sets an option that must not be set yet. -/
def once {α : Type} (old : Option α) (new : Option α) : Except Stop (Option α) :=
  match old, new with
  | none, some a => .ok (some a)
  | _, _ => .error .misuse

/-- Sets a flag that must not be set yet. -/
def flagOnce (old : Bool) : Except Stop Bool :=
  if old then .error .misuse else .ok true

/-- A trace level: an integer with an optional sign, within 32 bits. -/
def traceLevel? (text : String) : Option Nat :=
  ((Text.readInt64? text.toList).map Int64.toInt).bind fun n =>
    if 0 ≤ n ∧ n ≤ Word.max32 then some n.toNat else none

/-- A counter within 64 bits. -/
def count? (text : String) : Option Nat :=
  Text.readUnsigned? Word.max64 text.toList

/-- Whether an argument looks like an option. A single dash does not. -/
def isOption (arg : String) : Bool :=
  match arg.toList with
  | '-' :: _ :: _ => true
  | _ => false

/-- The name of an option and the value that is attached to it with an equals sign. -/
def splitOption (arg : String) : String × Option String :=
  match arg.toList.span (· != '=') with
  | (name, _ :: value) => (.ofList name, some (.ofList value))
  | (name, []) => (.ofList name, none)

/-- Sets the option of a name to a value, if there is such an option that takes one. -/
def Options.setValue? (verb : Option Verb) (name : String) (o : Options) :
    Option (String → Except Stop Options) :=
  match name, verb with
  | "--config", _ =>
    some fun v => return { o with configFile := ← once o.configFile (some v) }
  | "--trace", some .run => some fun v => return { o with trace := ← once o.trace (traceLevel? v) }
  | "--timeslice", some .run =>
    some fun v => return { o with timeslice := ← once o.timeslice (count? v) }
  | "--gc-threshold", some .run =>
    some fun v => return { o with gcThreshold := ← once o.gcThreshold (count? v) }
  | _, _ => none

/-- Sets the flag of a name, if there is such a flag. -/
def Options.setFlag (verb : Option Verb) (name : String) (o : Options) : Except Stop Options :=
  match name, verb with
  | "--interrupt", some .run => return { o with interrupt := ← flagOnce o.interrupt }
  | "--no-run", some .run => return { o with noRun := ← flagOnce o.noRun }
  | "--help", _ => throw .help
  | _, _ => throw .misuse

/-- Takes a program file, of which there must not be more than the request is about. -/
def Options.addProgram (verb : Verb) (arg : String) (o : Options) : Except Stop Options :=
  if verb.programCount = 1 ∧ o.program = none ∧ arg ≠ "" then
    .ok { o with program := some arg }
  else .error .misuse

/-! ### All arguments -/

/-- Reads the options at the beginning of the arguments, up to the first argument that is none. The
value of an option that stands as an argument of its own is looked at only when the next argument of
the same level, or its end, is reached; so the options come with what was wrong about the last
value. -/
def readOptions (verb : Option Verb) (o : Except Stop Options) :
    List String → Except Stop (Except Stop Options × List String)
  | [] => .ok (o, [])
  | arg :: args =>
    if !isOption arg || arg == "--" then .ok (o, arg :: args)
    else do
      let o ← o
      if arg.startsWith "-h" then throw .help
      let (name, attached) := splitOption arg
      match o.setValue? verb name, attached, args with
      | some assign, some v, args => readOptions verb (.ok (← assign v)) args
      | some assign, none, v :: args =>
        if isOption v then throw .misuse else readOptions verb (assign v) args
      | some _, none, [] | none, some _, _ => throw .misuse
      | none, none, args => readOptions verb (.ok (← o.setFlag verb name)) args

/-- Reads the arguments of a request. After a double dash there are only program files. -/
def readArguments (verb : Verb) : (fuel : Nat) → Except Stop Options → List String →
    Except Stop Options
  | 0, _, _ => .error .misuse
  | fuel + 1, o, args => do
    match ← readOptions (some verb) o args with
    | (o, []) => o
    | (o, "--" :: args) => args.foldlM (fun o arg => o.addProgram verb arg) (← o)
    | (o, arg :: args) => readArguments verb fuel ((← o).addProgram verb arg) args

/-- The request that options make up. The program file must be given. -/
def Options.request (verb : Verb) (o : Options) : Except Stop Request :=
  match verb, o.program with
  | .config, _ => .ok .config
  | .check, some program => .ok (.check program)
  | .run, some program =>
    .ok (.run program {
      run := if o.noRun then some false else none
      interrupt := if o.interrupt then some true else none
      traceLevel := o.trace
      timeslice := o.timeslice
      gcThreshold := o.gcThreshold })
  | _, none => .error .misuse

/-- Reads all arguments. The last value before the request is looked at after the request. -/
def Invocation.read (args : List String) : Except Stop Invocation := do
  match ← readOptions none (.ok .empty) args with
  | (_, "help" :: []) => throw .help
  | (_, ["help", name]) =>
    if name = "help" ∨ (Verb.ofName? name).isSome then throw .help else throw .misuse
  | (outer, name :: args) =>
    match Verb.ofName? name with
    | none => throw .misuse
    | some verb =>
      let o ← readArguments verb (args.length + 1) (.ok .empty) args
      let request ← o.request verb
      return ⟨o.configFile <|> (← outer).configFile, request⟩
  | (_, []) => throw .misuse

end TreeMachine.CommandLine
