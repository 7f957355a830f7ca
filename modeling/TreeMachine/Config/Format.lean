import TreeMachine.Config.Setting
import TreeMachine.Ini.Reader
import TreeMachine.Json.Liberal
import TreeMachine.Ron.Reader
import TreeMachine.Toml.Reader
import TreeMachine.Yaml.Reader

/-!
# Formats of configuration files

The formats that a file of settings can have. The extension of its name says which one it is
(`Format.extensions`).

Every format has a reader and a type of values of its own, and here these are turned into settings.
The formats differ in what they can say, and this is where the differences are levelled: dates and
times are texts, tuples are lists, structures are maps, and integers that do not fit are doubles.
All scalars of an INI file are texts. The keys of maps must be texts, or in YAML integers, which are
written out.

Of several fields with the same key the last one counts (`Settings.before`), except in TOML, whose
reader does not accept them. In YAML a value that is overridden is not even looked at, so it does
not matter whether it can be turned into a setting.

A file must be a table as a whole (`Format.read?`). What is malformed is refused without a reason,
as there is one message for all of it.
-/

namespace TreeMachine

/-! ### Values as settings -/

/-- Adds a setting before others, unless one of them has the same key: of settings with the same key
the last one counts. -/
def Settings.before (key : String) (v : Setting) (later : Settings) : Settings :=
  if later.any fun f => f.1 == key then later else (key, v) :: later

mutual

/-- The setting that a value in a TOML file gives. Dates and times are texts. -/
def Setting.ofToml : Toml.Value → Setting
  | .scalar s => .scalar s
  | .dateTime text => .scalar (.text text)
  | .array vs => .list (Setting.listOfToml vs)
  | .table _ fields => .table (Settings.ofToml fields)
  | .tables rows => .list (Setting.rowsOfToml rows)

/-- The settings that the items of an array in a TOML file give. -/
def Setting.listOfToml : List Toml.Value → List Setting
  | [] => []
  | v :: vs => Setting.ofToml v :: Setting.listOfToml vs

/-- The settings that the fields of a table in a TOML file give. -/
def Settings.ofToml : Toml.Fields → Settings
  | [] => []
  | (k, v) :: fields => (k, Setting.ofToml v) :: Settings.ofToml fields

/-- The settings that repeated tables in a TOML file give. -/
def Setting.rowsOfToml : List Toml.Fields → List Setting
  | [] => []
  | row :: rows => Setting.rowsOfToml rows ++ [.table (Settings.ofToml row)]

end

/-- The setting of an integer, which becomes a double when it does not fit 64 bits with a sign. -/
def Setting.ofInt (n : Int) : Setting :=
  match Word.signed? n with
  | some n => .scalar (.int n)
  | none => .scalar (.float (Float.ofInt n))

mutual

/-- The setting that a value in a JSON file gives. -/
def Setting.ofJson : Json.Value → Setting
  | .null => .nothing
  | .bool b => .scalar (.bool b)
  | .number (.int n) => .ofInt n
  | .number (.float x) => .scalar (.float x)
  | .string s => .scalar (.text s)
  | .array vs => .list (Setting.listOfJson vs)
  | .object fields => .table (Settings.ofJson fields)

/-- The settings that the items of an array in a JSON file give. -/
def Setting.listOfJson : List Json.Value → List Setting
  | [] => []
  | v :: vs => Setting.ofJson v :: Setting.listOfJson vs

/-- The settings that the fields of an object in a JSON file give. -/
def Settings.ofJson : List (String × Json.Value) → Settings
  | [] => []
  | (k, v) :: fields => (Settings.ofJson fields).before k (Setting.ofJson v)

end

/-- The settings that properties in an INI file give. -/
def Settings.ofProperties (properties : Ini.Properties) : Settings :=
  properties.foldr (fun p later => later.before p.1 (.scalar (.text p.2))) []

/-- The settings that an INI file gives. Sections are tables. -/
def Settings.ofIni (d : Ini.Document) : Settings :=
  let tables := d.sections.map fun e => (e.1, Setting.table (Settings.ofProperties e.2))
  (Settings.ofProperties d.properties ++ tables).foldr (fun e later => later.before e.1 e.2) []

mutual

/-- The setting that a value in a RON file gives. The keys of its maps must be texts. -/
def Setting.ofRon? : Ron.Value → Option Setting
  | .unit => some .nothing
  | .scalar s => some (.scalar s)
  | .list vs => (Setting.listOfRon? vs).map .list
  | .map fields => (Settings.ofRon? fields).map .table

/-- The settings that the items of a list in a RON file give. -/
def Setting.listOfRon? : List Ron.Value → Option (List Setting)
  | [] => some []
  | v :: vs => do return (← Setting.ofRon? v) :: (← Setting.listOfRon? vs)

/-- The settings that the fields of a map in a RON file give. -/
def Settings.ofRon? : List (Ron.Value × Ron.Value) → Option Settings
  | [] => some []
  | (.scalar (.text k), v) :: fields => do
    return (← Settings.ofRon? fields).before k (← Setting.ofRon? v)
  | _ :: _ => none

end

/-- The key of settings that a value in a YAML file gives: a text or an integer. -/
def Settings.yamlKey? : Yaml.Value → Option String
  | .scalar (.text s) => some s
  | .scalar (.int n) => some (Text.signed n.toInt)
  | _ => none

mutual

/-- The setting that a value in a YAML file gives. Every double must denote one. -/
def Setting.ofYaml? : Yaml.Value → Option Setting
  | .missing | .null => some .nothing
  | .scalar s => some (.scalar s)
  | .double text => (Number.readFloat? text.toList).map fun x => .scalar (.float x)
  | .list vs => (Setting.listOfYaml? vs).map .list
  | .map fields => (Settings.ofYaml? fields).map .table

/-- The settings that the items of a list in a YAML file give. -/
def Setting.listOfYaml? : List Yaml.Value → Option (List Setting)
  | [] => some []
  | v :: vs => do return (← Setting.ofYaml? v) :: (← Setting.listOfYaml? vs)

/-- The settings that the fields of a map in a YAML file give. -/
def Settings.ofYaml? : List (Yaml.Value × Yaml.Value) → Option Settings
  | [] => some []
  | (key, v) :: fields => do
    let k ← Settings.yamlKey? key
    let later ← Settings.ofYaml? fields
    if later.any fun f => f.1 == k then return later
    return (k, ← Setting.ofYaml? v) :: later

end

/-! ### Formats -/

/-- The formats. -/
inductive Format
  | toml
  | json
  | yaml
  | ini
  | ron
  | json5
  deriving DecidableEq, Repr

namespace Format

/-- The extensions of file names and the formats that they mean. -/
def extensions : List (String × Format) :=
  [("toml", .toml), ("json", .json), ("yaml", .yaml), ("yml", .yaml), ("ini", .ini), ("ron", .ron),
    ("json5", .json5)]

/-- The setting that a text in a format gives. -/
def setting? (format : Format) (text : String) : Option Setting :=
  match format with
  | .toml => (Toml.Fields.ofText? text).map fun fields => .table (Settings.ofToml fields)
  | .json => (Json.Value.ofText? text).map .ofJson
  | .yaml => (Yaml.Value.ofText? text).bind Setting.ofYaml?
  | .ini => (Ini.Document.ofText? text).map fun d => .table (Settings.ofIni d)
  | .ron => (Ron.Value.ofText? text).bind Setting.ofRon?
  | .json5 => (Json.Value.ofLiberalText? text).map .ofJson

/-- The settings of a text in a format, which must be a table. -/
def read? (format : Format) (text : String) : Option Settings :=
  (format.setting? text).bind fun
    | .table fields => some fields
    | _ => none

end Format

end TreeMachine
