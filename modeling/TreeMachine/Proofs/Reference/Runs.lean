import TreeMachine.Proofs.Observation.Dialogues
import TreeMachine.Proofs.Reference.Statements
import TreeMachine.Proofs.Renaming.Runs
import TreeMachine.Proofs.Run.Slicing

/-!
# The machine refines the reference evaluator

A run of the machine without collections ends exactly when the evaluator has an outcome with enough
fuel, and the two have the same outcome, the same heap and the same sink (`Simulates.runsAs`). Tasks
begin in states in which the machine simulates the evaluator (`Program.begins_task`), and sessions
run their tasks one after the other.

A step of a state is a turn of a machine whose debugger is quiet (`State.Takes.run`). Debugger and
input are surroundings that do not change, and the count of steps is whatever it is: a step from a
state does not depend on it, except that a turn adds one unless it jumps. So the equations for runs
quantify over the counts.

The case in which the fuel of the evaluator does not suffice gives a run that does not end with as
much fuel (`Machine.RunsAs`). Taken for all amounts of fuel it is the divergence of the machine.
-/

namespace TreeMachine

/-! ### Runs of simulated computations -/

namespace State

variable {p : Program} {x y : State} {d : Debugger}

/-- A machine in a state, after a number of steps. -/
def machine (x : State) (d : Debugger) (input : List Line) (steps : Nat) : Machine :=
  ⟨x.context steps, d, input, x.sink⟩

/-- A turn of a quiet machine is a step. -/
theorem turn_of_quiet (hd : d.Quiet) (input : List Line) (steps : Nat) :
    (x.machine d input steps).turn p 0 = (x.machine d input steps).advance p 0 := by
  have hattend : (x.machine d input steps).attend = (x.machine d input steps, .ok .run) := by
    have hnone : ¬(x.machine d input steps).debugger.interrupted = true := by
      change ¬d.interrupted = true
      rw [hd.interrupted]
      exact Bool.false_ne_true
    rw [Machine.attend, if_neg hnone]
  rw [Machine.turn, hattend]

theorem not_halted (hframes : x.frames ≠ []) (input : List Line) (steps : Nat) :
    ¬(x.machine d input steps).Halted none := by
  rintro (hfinished | hnone)
  · exact hframes (List.isEmpty_iff.1 hfinished)
  · cases hnone

/-- A step is a turn of a run. -/
theorem Takes.run (h : x.Takes p y) (hd : d.Quiet) (input : List Line) (steps : Nat) :
    ∃ steps', ∀ fuel, (x.machine d input steps).run p 0 (fuel + 1) none =
      (y.machine d input steps').run p 0 fuel none := by
  obtain ⟨hframes, hstep⟩ := h
  obtain ⟨progress, hstep⟩ := hstep steps
  -- A jump is not charged: the run goes on with the same number of steps.
  cases progress with
  | jumped =>
    have hturn : (x.machine d input steps).turn p 0 = (y.machine d input steps, .ok .free) := by
      rw [turn_of_quiet hd, Machine.advance]
      dsimp only [machine]
      rw [hd.traceLevel, hstep]
    refine ⟨steps, fun fuel => ?_⟩
    rw [Machine.run_succ fuel (not_halted hframes input steps), hturn]
    rfl
  | _ =>
    have hturn : (x.machine d input steps).turn p 0 =
        (y.machine d input (steps + 1), .ok .charged) := by
      rw [turn_of_quiet hd, Machine.advance]
      dsimp only [machine]
      rw [hd.traceLevel, hstep]
      dsimp only
      rw [Machine.charge, hd.stepTaken]
      rfl
    refine ⟨steps + 1, fun fuel => ?_⟩
    rw [Machine.run_succ fuel (not_halted hframes input steps), hturn]
    rfl

/-- Steps are turns of a run. -/
theorem Steps.run {n : Nat} (h : Steps p n x y) (hd : d.Quiet) (input : List Line) (steps : Nat) :
    ∃ steps', ∀ fuel, (x.machine d input steps).run p 0 (fuel + n) none =
      (y.machine d input steps').run p 0 fuel none := by
  induction h generalizing steps with
  | refl => exact ⟨steps, fun fuel => rfl⟩
  | step htakes _ ih =>
    obtain ⟨steps₁, hfirst⟩ := htakes.run hd input steps
    obtain ⟨steps₂, hrest⟩ := ih steps₁
    exact ⟨steps₂, fun fuel => (hfirst _).trans (hrest fuel)⟩

/-- A step that fails ends a run. -/
theorem Fails.run {e : Fault} {heap : Heap} {sink : Sink} (h : x.Fails p e heap sink)
    (hd : d.Quiet) (input : List Line) (steps fuel : Nat) :
    ∃ frames, (x.machine d input steps).run p 0 (fuel + 1) none =
      some (⟨⟨frames, heap, steps⟩, d, input, sink⟩, .error e) := by
  obtain ⟨hframes, hstep⟩ := h
  obtain ⟨frames, hstep⟩ := hstep steps
  have hturn : (x.machine d input steps).turn p 0 =
      (⟨⟨frames, heap, steps⟩, d, input, sink⟩, .error e) := by
    rw [turn_of_quiet hd, Machine.advance]
    dsimp only [machine]
    rw [hd.traceLevel, hstep]
  refine ⟨frames, ?_⟩
  rw [Machine.run_succ fuel (not_halted hframes input steps), hturn]
  rfl

end State

/-- The machine has left all activations, with the heap and the sink of the world. -/
def Finishes (_ : Unit) (w : World) (y : State) : Prop :=
  y = ⟨[], w.heap, w.sink⟩

/-- The run of a machine has the outcome of a computation, and leaves the debugger and the input as
they are. It does not end with as much fuel as does not suffice for the computation. -/
def Machine.RunsAs (p : Program) (fuel : Nat) (m : Machine) :
    Option (Except Fault Unit × World) → Prop
  | none => m.run p 0 fuel none = none
  | some (result, w) => ∃ c : Context, c.heap = w.heap ∧
      m.Ends p 0 none (⟨c, m.debugger, m.input, w.sink⟩, result.map fun () => .finished)

/-- **A computation that is simulated to the end** of a run has the outcome of the run. -/
theorem Simulates.runsAs {p : Program} {least fuel : Nat} {x : State} {d : Debugger}
    {r : Option (Except Fault Unit × World)} (h : Simulates p least fuel x r Finishes)
    (hd : d.Quiet) (input : List Line) (steps : Nat) :
    (x.machine d input steps).RunsAs p fuel r := by
  match r, h with
  | none, ⟨y, hsteps⟩ =>
    obtain ⟨steps', hrun⟩ := hsteps.run hd input steps
    have hnone := hrun 0
    rw [Nat.zero_add] at hnone
    exact hnone
  | some (.error e, w), ⟨n, y, hsteps, hfails⟩ =>
    obtain ⟨steps', hrun⟩ := hsteps.run hd input steps
    obtain ⟨frames, hlast⟩ := hfails.run hd input steps' 0
    exact ⟨⟨frames, w.heap, steps'⟩, rfl, 0 + 1 + n, (hrun (0 + 1)).trans hlast⟩
  | some (.ok (), w), ⟨n, y, _, hsteps, hfinishes⟩ =>
    cases hfinishes
    obtain ⟨steps', hrun⟩ := hsteps.run hd input steps
    exact ⟨⟨[], w.heap, steps'⟩, rfl, 0 + 1 + n, (hrun (0 + 1)).trans (Machine.run_finished 0 rfl)⟩

end TreeMachine
