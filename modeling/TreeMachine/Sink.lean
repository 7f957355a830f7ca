import TreeMachine.Fault

/-!
# Output

Everything that a run writes goes to one sink: the output of the program, the lines of the trace and
the debugger's side of its dialogues. The sink remembers which is which. It may accept only a
limited number of bytes; a write beyond the limit is kept up to it and fails.

A reader of the sink sees bytes in the order in which they were written (`Sink.bytes`), whoever
wrote them. The origins are not visible from outside. They are there so that it can be said what a
run has written apart from its observation, as in `Sink.PlainOf`, and so that prompts can be
counted.

A failed write is a failure of the step, or of the dialogue, that wanted to write. A primitive that
cannot print complains, since it is the program that wanted to write, while a line of the trace and
a prompt fail as a channel. Writing the empty text is a write too: it always fits when the bytes so
far do.

The limit stands for whatever may happen to an output stream. A sink without a limit never fails,
and nothing in a run looks at what has been written before, so that runs with two such sinks differ
in nothing but them.
-/

namespace TreeMachine

/-- Who writes. -/
inductive Origin
  | program
  | trace
  | debugger
  deriving DecidableEq, Repr

/-- The bytes of one write. -/
structure Chunk where
  origin : Origin
  bytes : ByteArray

/-- The sink: the number of bytes that it accepts, if limited, what was written, latest first, and
the number of bytes written. -/
structure Sink where
  limit : Option Nat
  chunks : List Chunk
  size : Nat

namespace Sink

/-- A sink before the first write. -/
def ofLimit (limit : Option Nat) : Sink := ⟨limit, [], 0⟩

/-- Appends bytes. -/
def append (s : Sink) (origin : Origin) (bytes : ByteArray) : Sink :=
  { s with chunks := ⟨origin, bytes⟩ :: s.chunks, size := s.size + bytes.size }

/-- Writes a text. -/
def write (s : Sink) (origin : Origin) (text : String) : Sink × Except ChannelError Unit :=
  let bytes := text.toUTF8
  match s.limit with
  | none => (s.append origin bytes, .ok ())
  | some limit =>
    if s.size + bytes.size ≤ limit then (s.append origin bytes, .ok ())
    else (s.append origin (bytes.extract 0 (limit - s.size)), .error .sinkFull)

/-- All bytes written, first to last. -/
def bytes (s : Sink) : ByteArray :=
  s.chunks.foldr (fun c all => all ++ c.bytes) .empty

end Sink

end TreeMachine
