import TreeMachine.Session

/-!
# Fuel of runs

The runs of a machine and of a session take fuel. More of it never changes a result: `run_mono`,
`runSlices_mono`, `drive_mono` and `Session.run_mono`. So a run has at most one result, whatever the
fuel, and `Machine.Ends`, `Machine.DriveEnds` and `Session.Ends` speak of *the* result of a run, if
it has one, without naming fuel.

Programs may run for ever, so a run is a partial function. It is defined with fuel, of which each
turn takes one unit, and is without a result when the fuel is used up. The definitions run, and they
are what is proved about; statements say that a run ends with a result for some fuel, or for none.

Each kind of run has an equation for its first part: a turn (`Machine.run_succ`), which tells with
what budget the run goes on (`Machine.budgetAfter`), and a task of a session
(`Session.runTasks_cons`). Inductions on fuel begin with one of them, and they are stated for
machines that are not halted, because a halted one has its result without a turn
(`Machine.run_halted`).

How much fuel a run needs is not stated here. For a run with a budget there is a bound, which is the
subject of another module.
-/

namespace TreeMachine

/-- How a machine is left by a run, and how the run ended. -/
abbrev Machine.Result := Machine × Except Fault Outcome

namespace Machine

variable {p : Program} {threshold : Nat}

/-- The run of a machine within a budget ends, with the given result. -/
def Ends (p : Program) (threshold : Nat) (budget : Option Nat) (m : Machine) (r : Result) : Prop :=
  ∃ fuel, m.run p threshold fuel budget = some r

/-- The run of a machine in slices of a length, zero for one slice without end, ends with the given
result. -/
def DriveEnds (p : Program) (threshold slice : Nat) (m : Machine) (r : Result) : Prop :=
  ∃ fuel, m.drive p threshold slice fuel = some r

/-- A run does not take a step from a finished context or without budget. -/
def Halted (m : Machine) (budget : Option Nat) : Prop :=
  m.context.isFinished ∨ budget = some 0

/-- What a run goes on with after a turn: its budget, less by one when the turn was charged. Nothing
for a turn that ends the run. -/
def budgetAfter (budget : Option Nat) : Except Fault Turn → Option (Option Nat)
  | .ok .free => some budget
  | .ok .charged => some (budget.map Nat.pred)
  | .ok .quit | .error _ => none

/-- How a run ends that a turn has ended. -/
def endOfTurn : Except Fault Turn → Except Fault Outcome
  | .error e => .error e
  | .ok _ => .ok .quit

/-- **One turn of a run**: from a machine that is not halted, the run either ends with the turn, or
is what the rest of the fuel gives for the machine after the turn. -/
theorem run_succ (fuel : Nat) {budget : Option Nat} {m : Machine} (h : ¬m.Halted budget) :
    m.run p threshold (fuel + 1) budget =
      match budgetAfter budget (m.turn p threshold).2 with
      | some rest => (m.turn p threshold).1.run p threshold fuel rest
      | none => some ((m.turn p threshold).1, endOfTurn (m.turn p threshold).2) := by
  have hf : ¬m.context.isFinished = true := fun hf => h (.inl hf)
  have hb : ¬budget = some 0 := fun hb => h (.inr hb)
  rw [run, if_neg hf, if_neg hb]
  rcases m.turn p threshold with ⟨m', e | t⟩
  · rfl
  · cases t <;> rfl

theorem run_finished (fuel : Nat) {budget : Option Nat} {m : Machine}
    (h : m.context.isFinished) : m.run p threshold (fuel + 1) budget = some (m, .ok .finished) := by
  rw [run, if_pos h]

theorem run_exhausted (fuel : Nat) {m : Machine} (h : ¬m.context.isFinished) :
    m.run p threshold (fuel + 1) (some 0) = some (m, .ok .suspended) := by
  rw [run, if_neg h, if_pos rfl]

/-- How a run ends that does not take a step. -/
def halting (m : Machine) : Outcome :=
  if m.context.isFinished then .finished else .suspended

theorem run_halted {budget : Option Nat} {m : Machine} (h : m.Halted budget) (fuel : Nat) :
    m.run p threshold (fuel + 1) budget = some (m, .ok m.halting) := by
  by_cases hf : m.context.isFinished
  · rw [run_finished fuel hf, halting, if_pos hf]
  · obtain rfl := h.resolve_left hf
    rw [run_exhausted fuel hf, halting, if_neg hf]

/-- More fuel keeps the result of a run. -/
theorem run_mono {fuel fuel' : Nat} (hle : fuel ≤ fuel') {budget : Option Nat} {m : Machine}
    {r : Result} (h : m.run p threshold fuel budget = some r) :
    m.run p threshold fuel' budget = some r := by
  -- Induction on the smaller fuel: both runs take the same turn, and one unit is left less.
  induction fuel generalizing fuel' budget m with
  | zero => simp [run] at h
  | succ fuel ih =>
    obtain ⟨fuel', rfl⟩ : ∃ n, fuel' = n + 1 := ⟨fuel' - 1, by omega⟩
    by_cases hf : m.context.isFinished
    · rw [run_finished _ hf] at h ⊢
      exact h
    · by_cases hb : budget = some 0
      · subst hb
        rw [run_exhausted _ hf] at h ⊢
        exact h
      · have hm : ¬m.Halted budget := not_or.2 ⟨hf, hb⟩
        rw [run_succ _ hm] at h ⊢
        split at h
        · exact ih (Nat.le_of_succ_le_succ hle) h
        · exact h

/-- A run has at most one result. -/
theorem Ends.unique {budget : Option Nat} {m : Machine} {r r' : Result}
    (h : m.Ends p threshold budget r) (h' : m.Ends p threshold budget r') : r = r' := by
  obtain ⟨n, hn⟩ := h
  obtain ⟨n', hn'⟩ := h'
  have h1 := run_mono (Nat.le_max_left n n') hn
  have h2 := run_mono (Nat.le_max_right n n') hn'
  exact Option.some.inj (h1.symm.trans h2)

/-- More fuel for each slice and more slices keep the result of a sliced run. -/
theorem runSlices_mono {slice sliceFuel sliceFuel' fuel fuel' : Nat} (hs : sliceFuel ≤ sliceFuel')
    (hle : fuel ≤ fuel') {m : Machine} {r : Result}
    (h : m.runSlices p threshold slice sliceFuel fuel = some r) :
    m.runSlices p threshold slice sliceFuel' fuel' = some r := by
  induction fuel generalizing fuel' m with
  | zero => simp [runSlices] at h
  | succ fuel ih =>
    obtain ⟨fuel', rfl⟩ : ∃ n, fuel' = n + 1 := ⟨fuel' - 1, by omega⟩
    rw [runSlices] at h ⊢
    cases hr : m.run p threshold sliceFuel (some slice) with
    | none => simp [hr] at h
    | some r' =>
      rw [run_mono hs hr]
      rw [hr] at h
      split at h
      · rename_i he
        cases he
        exact ih (Nat.le_of_succ_le_succ hle) h
      · exact h

/-- More fuel keeps the result of a run in slices. -/
theorem drive_mono {slice fuel fuel' : Nat} (hle : fuel ≤ fuel') {m : Machine} {r : Result}
    (h : m.drive p threshold slice fuel = some r) :
    m.drive p threshold slice fuel' = some r := by
  rw [drive] at h ⊢
  by_cases hs : slice = 0
  · rw [if_pos hs] at h ⊢
    exact run_mono hle h
  · rw [if_neg hs] at h ⊢
    exact runSlices_mono hle hle h

end Machine

namespace Session

variable {p : Program}

/-- How a session is left by a run of a program, and how the run ended. -/
abbrev Result := Session × Except Fault Status

/-- The run of a program in a session ends, with the given result. -/
def Ends (p : Program) (s : Session) (r : Result) : Prop :=
  ∃ fuel, s.run p fuel = some r

/-- The run of some tasks in a session ends, with the given result. -/
def TasksEnd (p : Program) (ts : List Task) (s : Session) (r : Result) : Prop :=
  ∃ fuel, s.runTasks p fuel ts = some r

/-- The session in which a task is run: what the start of the task has written is in the sink. -/
def begun (p : Program) (t : Task) (s : Session) : Session :=
  { s with sink := (t.start p s.sink).sink }

/-- The machine that runs a task. -/
def taskMachine (p : Program) (t : Task) (s : Session) : Machine :=
  (s.begun p t).machine (t.start p s.sink).context

/-- How a run of tasks ends that ends with one of them, or nothing when the run goes on. -/
def statusAfter : Except Fault Outcome → Option (Except Fault Status)
  | .error e => some (.error e)
  | .ok .quit => some (.ok .quit)
  | .ok _ => none

/-- **One task of a run**: a failed start ends the run, and so may the run of its machine. -/
theorem runTasks_cons (fuel : Nat) (t : Task) (ts : List Task) (s : Session) :
    s.runTasks p fuel (t :: ts) =
      match (t.start p s.sink).result with
      | .error e => some (s.begun p t, .error e)
      | .ok () =>
        ((s.taskMachine p t).drive p s.config.gcThreshold s.config.timeslice fuel).bind fun done =>
          match statusAfter done.2 with
          | some status => some ((s.begun p t).record done.1, status)
          | none => ((s.begun p t).record done.1).runTasks p fuel ts := by
  rw [runTasks]
  simp only [taskMachine, begun]
  cases (t.start p s.sink).result with
  | error e => rfl
  | ok _ =>
    dsimp only
    rcases Machine.drive p s.config.gcThreshold s.config.timeslice fuel _ with
      _ | ⟨m, e | o⟩
    · rfl
    · rfl
    · cases o <;> rfl

/-- More fuel keeps the result of a run of tasks. -/
theorem runTasks_mono {fuel fuel' : Nat} (hle : fuel ≤ fuel') {ts : List Task} {s : Session}
    {r : Result} (h : s.runTasks p fuel ts = some r) : s.runTasks p fuel' ts = some r := by
  induction ts generalizing s with
  | nil => exact h
  | cons t ts ih =>
    rw [runTasks_cons] at h ⊢
    split at h
    · exact h
    · obtain ⟨done, hd, h⟩ := Option.bind_eq_some_iff.1 h
      rw [Machine.drive_mono hle hd, Option.bind_some]
      split at h
      · exact h
      · exact ih h

/-- More fuel keeps the result of a run of a program. -/
theorem run_mono {fuel fuel' : Nat} (hle : fuel ≤ fuel') {s : Session} {r : Result}
    (h : s.run p fuel = some r) : s.run p fuel' = some r := by
  rw [run] at h ⊢
  by_cases hr : s.config.run
  · rw [if_pos hr] at h ⊢
    exact runTasks_mono hle h
  · rw [if_neg hr] at h ⊢
    exact h

/-- A run of tasks has at most one result. -/
theorem TasksEnd.unique {ts : List Task} {s : Session} {r r' : Result} (h : s.TasksEnd p ts r)
    (h' : s.TasksEnd p ts r') : r = r' := by
  obtain ⟨n, hn⟩ := h
  obtain ⟨n', hn'⟩ := h'
  have h1 := runTasks_mono (Nat.le_max_left n n') hn
  have h2 := runTasks_mono (Nat.le_max_right n n') hn'
  exact Option.some.inj (h1.symm.trans h2)

/-- A run of a program has at most one result. -/
theorem Ends.unique {s : Session} {r r' : Result} (h : s.Ends p r) (h' : s.Ends p r') :
    r = r' := by
  obtain ⟨n, hn⟩ := h
  obtain ⟨n', hn'⟩ := h'
  have h1 := run_mono (Nat.le_max_left n n') hn
  have h2 := run_mono (Nat.le_max_right n n') hn'
  exact Option.some.inj (h1.symm.trans h2)

end Session

end TreeMachine
