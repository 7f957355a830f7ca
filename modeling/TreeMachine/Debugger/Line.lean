/-!
# Command input

The commands for the debugger come in lines. A line ends with a newline, except possibly the last
one. A line whose bytes are not UTF-8 can be consumed but not read.
-/

namespace TreeMachine

/-- A line of input, its newline included. -/
inductive Line
  | text (s : String)
  | invalid (bytes : ByteArray)

namespace Line

/-- The line of some bytes. -/
def ofBytes (bytes : ByteArray) : Line :=
  match String.fromUTF8? bytes with
  | some s => .text s
  | none => .invalid bytes

/-- The number of bytes of a line. -/
def size : Line → Nat
  | .text s => s.utf8ByteSize
  | .invalid bytes => bytes.size

/-- Cuts input after every newline. -/
def cut : List UInt8 → List (List UInt8)
  | [] => []
  | b :: bs =>
    if b = 10 then [b] :: cut bs
    else
      match cut bs with
      | [] => [[b]]
      | l :: ls => (b :: l) :: ls

/-- The lines of some input. -/
def ofInput (bytes : ByteArray) : List Line :=
  (cut bytes.data.toList).map fun l => ofBytes ⟨l.toArray⟩

end Line

end TreeMachine
