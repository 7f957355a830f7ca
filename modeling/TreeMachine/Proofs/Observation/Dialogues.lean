import TreeMachine.Machine
import TreeMachine.Proofs.Observation.Effects

/-!
# Dialogues leave the program alone

A debugger without an interrupt, which does not trace either, leaves a run alone (`Debugger.Quiet`).
A dialogue with input that can be read, and with a sink that is not limited, does not fail. It
consumes lines and writes as the debugger only (`Debugger.converse_plain`). When it ends the run,
the last line that it has consumed is a quit command, or a blank line that repeats one
(`Debugger.QuitsOn`).

The statement is an induction on the lines of input, for every debugger and every sink, because both
are different when the dialogue goes on after a line. At the end of the input the run goes on as
with a continue command.

What a dialogue does to a debugger, its levels and its single steps, is left out. An observed run is
compared with one that is not observed, and for that it only matters that the sink has the same
chunks of the program and that a run is ended by nothing but a request to quit.
-/

namespace TreeMachine

/-- A debugger that leaves a run alone: no interrupt is pending, and nothing is traced. -/
structure Debugger.Quiet (d : Debugger) : Prop where
  interrupted : d.interrupted = false
  singleStep : d.singleStep = false
  traceLevel : d.traceLevel = 0

theorem Debugger.Quiet.stepTaken {d : Debugger} (h : d.Quiet) : d.stepTaken = d := by
  rw [Debugger.stepTaken, h.singleStep]
  rfl

namespace Debugger

/-- The debugger after some lines. -/
def after (d : Debugger) (lines : List String) : Debugger :=
  lines.foldl (fun d line => (d.respond line).debugger) d

/-- The last of some lines of a dialogue asks to quit: it is a quit command, or it is blank and the
last command was to quit. -/
def QuitsOn (d : Debugger) (lines : List String) : Prop :=
  ∃ init last text, lines = init ++ [last] ∧ (d.after init).effective? last = some text ∧
    Command.parse text = .ok .quit

/-- What a dialogue with some lines of input comes to. -/
structure Converses (d : Debugger) (s : Sink) (input : List String) (done : Dialogue)
    (r : Resume) : Prop where
  result : done.result = .ok r
  sink : s.PlainOf done.sink
  input : ∃ lines rest, input = lines ++ rest ∧ done.input = rest.map .text ∧
    (r = .quit → d.QuitsOn lines)

variable {s s' : Sink} {d : Debugger}

theorem QuitsOn.cons {line : String} {lines : List String}
    (h : (d.respond line).debugger.QuitsOn lines) : d.QuitsOn (line :: lines) := by
  obtain ⟨init, last, text, rfl, htext, hparse⟩ := h
  exact ⟨line :: init, last, text, rfl, htext, hparse⟩

/-- A line ends the run only if it asks to quit. -/
theorem quitsOn_of_respond {line : String} (h : (d.respond line).resume = some .quit) :
    d.QuitsOn [line] := by
  unfold respond at h
  split at h
  · cases h
  · rename_i text htext
    refine ⟨[], line, text, rfl, htext, ?_⟩
    split at h
    · rename_i command hcommand
      cases command with
      | quit => exact hcommand
      | _ => cases h
    · cases h
    · cases h

/-- **A dialogue** comes to its end, by induction on the lines. -/
theorem converse_plain (h : s.PlainOf s') (d : Debugger) (input : List String) :
    ∃ r, d.Converses s input (d.converse s' (input.map .text)) r := by
  have hdebugger : Origin.debugger ≠ .program := by decide
  have hprompt := h.other hdebugger prompt.toUTF8
  induction input generalizing d s' with
  | nil =>
    -- At the end of the input the run goes on.
    refine ⟨.run, ?_⟩
    simp only [List.map_nil, converse, Sink.write_of_unlimited h.unlimited',
      Sink.write_of_unlimited hprompt.unlimited']
    exact ⟨rfl, hprompt.other hdebugger _, [], [], rfl, rfl, nofun⟩
  | cons line input ih =>
    have hreply := hprompt.other hdebugger (d.respond line).text.toUTF8
    simp only [List.map_cons, converse, Sink.write_of_unlimited h.unlimited',
      Sink.write_of_unlimited hprompt.unlimited']
    cases hresume : (d.respond line).resume with
    | some r =>
      refine ⟨r, rfl, hreply, [line], input, rfl, rfl, ?_⟩
      rintro rfl
      exact quitsOn_of_respond hresume
    | none =>
      obtain ⟨r, hresult, hsink, lines, rest, hinput, hrest, hquit⟩ :=
        ih hreply (d.respond line).debugger (hreply.other hdebugger _)
      exact ⟨r, hresult, hsink, line :: lines, rest, by rw [hinput]; rfl, hrest,
        fun hr => (hquit hr).cons⟩

end Debugger

end TreeMachine
