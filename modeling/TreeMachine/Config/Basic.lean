import TreeMachine.Text.Decimal

/-!
# Configurations

What the user can choose about a run, and how a configuration is written.
-/

namespace TreeMachine

/-- What the user can choose about a run: whether there is one at all, whether an interrupt is
pending at the start, the trace level, the number of steps in a slice (zero for no slices), and the
number of allocations after which the heap is collected (zero for never). -/
structure Config where
  run : Bool
  interrupt : Bool
  traceLevel : Nat
  timeslice : Nat
  gcThreshold : Nat
  deriving DecidableEq, Repr

/-- The choices that are made when nothing else is said. -/
def Config.default : Config := ⟨true, false, 0, 0, 1024⟩

namespace Config

/-- The text of a truth value. -/
def boolText (b : Bool) : String :=
  if b then "true" else "false"

/-- Whether a number is small enough to be written. -/
def isWritable (n : Nat) : Bool :=
  n ≤ Word.maxSigned

/-- What is wrong with a configuration that cannot be written. -/
def unwritableCause : String := "out-of-range value for u64 type"

/-- A configuration in the form of a configuration file, unless one of its numbers is too large. -/
def toml? (c : Config) : Option String :=
  if isWritable c.timeslice ∧ isWritable c.gcThreshold then
    some <| "[interpreter]\n" ++
      "run = " ++ boolText c.run ++ "\n" ++
      "interrupt = " ++ boolText c.interrupt ++ "\n" ++
      "trace_level = " ++ Text.natural c.traceLevel ++ "\n" ++
      "timeslice = " ++ Text.natural c.timeslice ++ "\n" ++
      "gc_threshold = " ++ Text.natural c.gcThreshold ++ "\n"
  else none

end Config

end TreeMachine
