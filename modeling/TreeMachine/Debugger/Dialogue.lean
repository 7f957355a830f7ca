import TreeMachine.Debugger.Command
import TreeMachine.Debugger.Line
import TreeMachine.Sink

/-!
# Debugger dialogues

The debugger is entered between two steps when an interrupt is pending. It prompts for commands
until one of them resumes the run or ends it; the end of the input resumes it too. A blank line
repeats the last line that was a command.

A dialogue consumes its input line by line, so it is a recursion on the list of the lines that are
left (`Debugger.converse`), and the lines behind the one that ended it are left for the next
dialogue. It changes the debugger, the input and the sink, and nothing else: the context is not an
argument.

On entering, the pending interrupt and single stepping are taken back, so that a dialogue which ends
the run or continues it leaves neither behind. Only the command to step asks for another stop. It
does so by a mark that the next charged step turns into an interrupt (`Debugger.stepTaken`), and a
jump, which is not charged, leaves the mark alone.

A line that is no command is answered and forgotten; what a blank line repeats is the text of the
last line that was one, with the blanks around it removed. A line of bytes that are not UTF-8 is
consumed, and the dialogue fails.
-/

namespace TreeMachine

/-- The state of the debugger: whether an interrupt is pending, whether the next step will raise
one, the trace level, and the last line that was a command. -/
structure Debugger where
  interrupted : Bool
  singleStep : Bool
  traceLevel : Nat
  lastCommand : Option String
  deriving DecidableEq, Repr

/-- How a dialogue ends. -/
inductive Resume
  | run
  | quit
  deriving DecidableEq, Repr

/-- What the debugger does on a line: its new state, what it writes, and how the dialogue ends, if
it does. -/
structure Reply where
  debugger : Debugger
  text : String
  resume : Option Resume

/-- The outcome of a dialogue: the state of the debugger, of the sink and of the input, and how the
dialogue ended. -/
structure Dialogue where
  debugger : Debugger
  sink : Sink
  input : List Line
  result : Except ChannelError Resume

namespace Debugger

/-- What the debugger writes before it reads a line. -/
def prompt : String := "(interpreter) "

/-- The list of commands. -/
def usage : String :=
  "commands:\n" ++
  "  help, ?            show this message\n" ++
  "  quit, exit         stop the program\n" ++
  "  continue           resume execution\n" ++
  "  step               execute one node, then stop again\n" ++
  "  trace [N|on|off]   set the trace level (no argument toggles)\n" ++
  "an empty line repeats the last command\n"

/-- The state before the first step. -/
def start (traceLevel : Nat) (interrupted : Bool) : Debugger :=
  ⟨interrupted, false, traceLevel, none⟩

/-- Makes an interrupt pending. -/
def interrupt (d : Debugger) : Debugger :=
  { d with interrupted := true }

/-- Takes note of a step: single stepping interrupts after it. -/
def stepTaken (d : Debugger) : Debugger :=
  if d.singleStep then { d with singleStep := false, interrupted := true } else d

/-- The trace level after a change. -/
def changeLevel (change : TraceChange) (level : Nat) : Nat :=
  match change with
  | .toggle => if level = 0 then 1 else 0
  | .set level => level

/-- Obeys a command. -/
def obey (d : Debugger) : Command → Reply
  | .help => ⟨d, usage, none⟩
  | .quit => ⟨d, "", some .quit⟩
  | .continue => ⟨d, "", some .run⟩
  | .step => ⟨{ d with singleStep := true }, "", some .run⟩
  | .trace change =>
    let level := changeLevel change d.traceLevel
    ⟨{ d with traceLevel := level },
      "tracing level set to " ++ Text.natural level ++ "\n", none⟩

/-- What a line asks for: itself without the blanks around it or, when it is blank, the last
command. -/
def effective? (d : Debugger) (line : String) : Option String :=
  let text := Text.trim line
  if text = "" then d.lastCommand else some text

/-- Reacts to a line. A line that is a command is remembered. -/
def respond (d : Debugger) (line : String) : Reply :=
  match d.effective? line with
  | none => ⟨d, usage, none⟩
  | some text =>
    match Command.parse text with
    | .ok command => { d with lastCommand := some text }.obey command
    | .error (.badTraceLevel arg) => ⟨d, "invalid trace level '" ++ arg ++ "'\n", none⟩
    | .error _ => ⟨d, "unknown command\n" ++ usage, none⟩

/-- Prompts for lines until one ends the dialogue. -/
def converse (d : Debugger) (sink : Sink) : List Line → Dialogue
  | [] =>
    match sink.write .debugger prompt with
    | (sink, .error e) => ⟨d, sink, [], .error e⟩
    | (sink, .ok ()) =>
      match sink.write .debugger "\n" with
      | (sink, .error e) => ⟨d, sink, [], .error e⟩
      | (sink, .ok ()) => ⟨d, sink, [], .ok .run⟩
  | line :: input =>
    match sink.write .debugger prompt with
    | (sink, .error e) => ⟨d, sink, line :: input, .error e⟩
    | (sink, .ok ()) =>
      match line with
      | .invalid _ => ⟨d, sink, input, .error .invalidUtf8⟩
      | .text text =>
        let reply := d.respond text
        match sink.write .debugger reply.text with
        | (sink, .error e) => ⟨reply.debugger, sink, input, .error e⟩
        | (sink, .ok ()) =>
          match reply.resume with
          | some resume => ⟨reply.debugger, sink, input, .ok resume⟩
          | none => converse reply.debugger sink input

/-- The state in which a dialogue begins: a pending interrupt and single stepping are taken back. -/
def enter (d : Debugger) : Debugger :=
  { d with interrupted := false, singleStep := false }

/-- Enters the debugger and converses. -/
def interact (d : Debugger) (sink : Sink) (input : List Line) : Dialogue :=
  d.enter.converse sink input

end Debugger

end TreeMachine
