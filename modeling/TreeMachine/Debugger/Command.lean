import TreeMachine.Text.Decimal
import TreeMachine.Text.Lowercase

/-!
# Debugger commands

A command is a word, of which any beginning will do, in upper or lower case. Where a beginning fits
several words the first one in the table counts. Only the trace command has an argument, a level or
a word for it; what follows is ignored.

The table has a question mark as another word for help, and a second word for quitting
(`Command.table`). As the empty word is the beginning of every word, a blank line is told apart
before the table is consulted: it is no command by itself, and whether it repeats one is up to the
dialogue.

Why a line is no command is kept as data, with the word as it was typed (`CommandError`). A level is
a number of 32 bits; another argument is refused although the line is a trace command, and the level
stays as it is.
-/

namespace TreeMachine

/-- What a trace command does to the trace level. -/
inductive TraceChange
  | toggle
  | set (level : Nat)
  deriving DecidableEq, Repr

/-- A debugger command. -/
inductive Command
  | help
  | quit
  | continue
  | step
  | trace (change : TraceChange)
  deriving DecidableEq, Repr

/-- Why a line is no command. -/
inductive CommandError
  | empty
  | unknown (word : String)
  | badTraceLevel (arg : String)
  deriving DecidableEq, Repr

namespace Command

/-- The command words, in the order in which they are tried. The commands themselves are given for
no argument. -/
def table : List (String × Command) :=
  [("help", .help), ("?", .help), ("quit", .quit), ("exit", .quit), ("continue", .continue),
   ("step", .step), ("trace", .trace .toggle)]

/-- The change that an argument of the trace command asks for. -/
def parseTrace (arg : String) : Except CommandError TraceChange :=
  let word := Text.lowercase arg
  if word = "on" ∨ word = "true" then .ok (.set 1)
  else if word = "off" ∨ word = "false" then .ok (.set 0)
  else
    match Text.readUnsigned? Word.max32 word.toList with
    | some level => .ok (.set level)
    | none => .error (.badTraceLevel arg)

/-- Reads a command line. -/
def parse (line : String) : Except CommandError Command :=
  match Text.words line with
  | [] => .error .empty
  | first :: args =>
    let word := Text.lowercase first
    match table.find? fun entry => word.toList.isPrefixOf entry.1.toList with
    | none => .error (.unknown word)
    | some (_, .trace _) =>
      match args with
      | [] => .ok (.trace .toggle)
      | arg :: _ => (parseTrace arg).map .trace
    | some (_, command) => .ok command

end Command

end TreeMachine
