import TreeMachine.Config.Basic
import TreeMachine.Config.File
import TreeMachine.Config.Merge

/-!
# Loading the configuration

A configuration is made up from several sources. Later ones win: a file, environment variables, and
what was asked for explicitly. What no source mentions has its default. The file is the one asked
for, or else the one that a variable names, and then it must be there; or else a file of a certain
name, which need not be there.

The sources are put on top of each other as settings, before anything is converted (`Config.load`).
So a setting that has no meaning does no harm in a file if a variable overrides it. The variables
that count are those whose names begin with a certain word, in any case; the rest of the name is a
path with double underscores in place of points.

Settings of the interpreter are in a table of that name. They can also be in a list, in the order of
the fields of a configuration, and then those at its end may be left out (`Config.ofSettings?`).

Numbers that were asked for explicitly must be small enough to be written into a file, which is
checked first. There are four ways to fail, and each has a message (`ConfigError`); details about a
malformed file are not told.
-/

namespace TreeMachine

/-- What was asked for explicitly. -/
structure Overrides where
  run : Option Bool
  interrupt : Option Bool
  traceLevel : Option Nat
  timeslice : Option Nat
  gcThreshold : Option Nat
  deriving DecidableEq, Repr

/-- Nothing asked for. -/
def Overrides.empty : Overrides := ⟨none, none, none, none, none⟩

/-- Why there is no configuration: a number asked for is too large, the file is missing or
malformed, a setting has no meaning, or the configuration cannot be written. -/
inductive ConfigError
  | outOfRange
  | unreadable (path : Option String)
  | invalid
  | unwritable
  deriving DecidableEq, Repr

/-- The text of a configuration error, without its details. -/
def ConfigError.message : ConfigError → String
  | .outOfRange => "configuration value out of range"
  | .unreadable (some path) => "Failed to load configuration from " ++ path
  | .unreadable none => "Failed to load configuration"
  | .invalid => "Invalid configuration"
  | .unwritable => "Failed to render configuration"

namespace Config

/-- The file that is read when none is named. -/
def defaultFile : String := "stepwise.toml"

/-- The variable that names the file. -/
def fileVariable : String := "STEPWISE_CONFIG_PATH"

/-- The beginning of the names of variables that give settings. -/
def variableStart : String := "stepwise__"

/-! ### Sources -/

/-- The settings of the file, which must be there if it is named. -/
def loadFile (around : Surroundings) (path : Option String) : Except ConfigError Settings :=
  match findFile around (path.getD defaultFile) with
  | some (format, text) =>
    match format.read? text with
    | some settings => .ok settings
    | none => .error (.unreadable path)
  | none => if path.isSome then .error (.unreadable path) else .ok []

/-- The settings that a variable gives: the rest of its name, in lower case, is a path with parts
between double underscores. -/
def ofVariable? (binding : String × String) : Option (String × Setting) :=
  let name := Text.lowercase binding.1
  if variableStart.toList.isPrefixOf name.toList then
    let rest := String.ofList (name.toList.drop variableStart.length)
    some (".".intercalate (rest.splitOn "__"), .ofText binding.2)
  else none

/-- The settings that were asked for. -/
def ofOverrides (o : Overrides) : Settings :=
  let natural (key : String) (n : Option Nat) : Settings :=
    n.toList.map fun n => ("interpreter." ++ key, .scalar (.int (.ofNat n)))
  let bool (key : String) (b : Option Bool) : Settings :=
    b.toList.map fun b => ("interpreter." ++ key, .scalar (.bool b))
  bool "run" o.run ++ bool "interrupt" o.interrupt ++ natural "trace_level" o.traceLevel ++
    natural "timeslice" o.timeslice ++ natural "gc_threshold" o.gcThreshold

/-- Whether the numbers asked for are small enough. -/
def inRange (o : Overrides) : Bool :=
  o.timeslice.all isWritable && o.gcThreshold.all isWritable

/-! ### The configuration that settings mean -/

/-- Reads a setting of the interpreter, which has a default. -/
def setting? {α : Type} (settings : Settings) (key : String) (absent : α)
    (read : Setting → Option α) : Option α :=
  match settings.lookup key with
  | some v => read v
  | none => some absent

/-- The configuration that the settings of the interpreter mean. -/
def ofInterpreter? (settings : Settings) : Option Config := do
  let run ← setting? settings "run" default.run Setting.bool?
  let interrupt ← setting? settings "interrupt" default.interrupt Setting.bool?
  let traceLevel ← setting? settings "trace_level" default.traceLevel (Setting.natural? Word.max32)
  let timeslice ← setting? settings "timeslice" default.timeslice (Setting.natural? Word.max64)
  let gcThreshold ←
    setting? settings "gc_threshold" default.gcThreshold (Setting.natural? Word.max64)
  return ⟨run, interrupt, traceLevel, timeslice, gcThreshold⟩

/-- The keys of the settings of the interpreter, in the order in which a list gives them. -/
def keys : List String :=
  ["run", "interrupt", "trace_level", "timeslice", "gc_threshold"]

/-- The configuration that all settings mean. Those of the interpreter are in a table, or in a list
without their keys. -/
def ofSettings? (settings : Settings) : Option Config :=
  match settings.lookup "interpreter" with
  | some (.table fields) => ofInterpreter? fields
  | some (.list items) => ofInterpreter? (keys.zip items)
  | some _ => none
  | none => some default

/-- Loads the configuration. Environment variables matter only if wanted. -/
def load (around : Surroundings) (file : Option String) (useVariables : Bool) (o : Overrides) :
    Except ConfigError Config := do
  if !inRange o then throw .outOfRange
  let environment := if useVariables then around.environment else []
  let settings ← loadFile around (file <|> environment.lookup fileVariable)
  let settings := Settings.putAll settings []
  let settings := Settings.putAll (environment.filterMap ofVariable?) settings
  match ofSettings? (Settings.putAll (ofOverrides o) settings) with
  | some c => return c
  | none => throw .invalid

end Config

end TreeMachine
