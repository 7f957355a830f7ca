import Mathlib.Algebra.Ring.Nat
import TreeMachine.Proofs.Debugger.Scripts
import TreeMachine.Proofs.Run.Budgets

/-!
# The events of a run

What the debugger sees of a run are its events: a task begins, the debugger prompts, a jump is
taken, a step is charged. The trail of a machine is the list of the events of its turns, up to the
end of the context (`Machine.Trail`), and that of a session has those of its tasks one after the
other (`Session.Trail`). A run is completed if and only if it has a trail, however it is cut into
slices (`Session.ends_iff_trail`). The trail counts the steps of the contexts
(`Session.Trail.steps`) and the prompts in the sink (`Session.Trail.prompts`).

A trail is a relation with a constructor for each turn, where the run itself is a function with
fuel. It is a convenient form of a run that ends well: an induction on it goes from the first turn
to the last, there is neither fuel nor a budget in it, and its list can be spoken of at any place.
Runs that fail, that are quit or that do not end have no trail.

The prompts of a turn are told by the sink, by how many of its chunks are prompts before and after
the dialogue (`Machine.events`). So they can be compared with what is on the screen, and an answer
of the program that has the text of the prompt is not one of them. That steps do not prompt is shown
along the way, for every effect (`Sink.Aside`).
-/

namespace TreeMachine

/-! ### Writes that are no prompts -/

/-- A sink to which the debugger has not written since: it is as limited as before, and has no more
prompts. -/
structure Sink.Aside (s s' : Sink) : Prop where
  limit : s'.limit = s.limit
  prompts : s'.prompts = s.prompts

namespace Sink

variable {s s' s'' : Sink}

theorem Aside.refl (s : Sink) : s.Aside s :=
  ⟨rfl, rfl⟩

theorem Aside.trans (h : s.Aside s') (h' : s'.Aside s'') : s.Aside s'' :=
  ⟨h'.limit.trans h.limit, h'.prompts.trans h.prompts⟩

theorem aside_append (s : Sink) {origin : Origin} (horigin : origin ≠ .debugger)
    (bytes : ByteArray) : s.Aside (s.append origin bytes) := by
  have hnot : Chunk.isPrompt ⟨origin, bytes⟩ = false :=
    decide_eq_false fun hp => horigin hp.1
  refine ⟨rfl, ?_⟩
  rw [prompts_append, hnot]
  rfl

/-- A write appends, also where it fails. -/
theorem eq_append_of_write {origin : Origin} {text : String} {r : Except ChannelError Unit}
    (h : s.write origin text = (s', r)) : ∃ bytes, s' = s.append origin bytes := by
  unfold write at h
  dsimp only at h
  split at h
  · cases h
    exact ⟨_, rfl⟩
  · split at h
    · cases h
      exact ⟨_, rfl⟩
    · cases h
      exact ⟨_, rfl⟩

theorem aside_of_write {origin : Origin} {text : String} {r : Except ChannelError Unit}
    (h : s.write origin text = (s', r)) (horigin : origin ≠ .debugger) : s.Aside s' := by
  obtain ⟨bytes, rfl⟩ := eq_append_of_write h
  exact s.aside_append horigin bytes

theorem prompts_le_of_write {origin : Origin} {text : String} {r : Except ChannelError Unit}
    (h : s.write origin text = (s', r)) : s.prompts ≤ s'.prompts := by
  obtain ⟨bytes, rfl⟩ := eq_append_of_write h
  rw [prompts_append]
  exact Nat.le_add_right _ _

end Sink

theorem Primitive.apply_aside (q : Primitive) (args : List Value) (heap : Heap) (sink : Sink) :
    sink.Aside (q.apply args heap sink).sink := by
  unfold Primitive.apply
  split
  · unfold Primitive.printValue
    split
    · exact .refl sink
    · split
      all_goals
        rename_i hwrite
        exact Sink.aside_of_write hwrite (by decide)
  · unfold Primitive.makeRange
    split <;> exact .refl sink
  · exact .refl sink
  · split <;> exact .refl sink

namespace Context

variable {p : Program}

theorem enter_aside (place : Place) (id : FnId) (args : List Value) (c : Context) (sink : Sink) :
    sink.Aside (c.enter p place id args sink).sink := by
  unfold enter
  split
  · exact .refl sink
  · split
    · exact .refl sink
    · split
      · dsimp only
        split <;> exact Primitive.apply_aside _ args c.heap sink
      · split <;> exact .refl sink

theorem apply_aside (place : Place) (scope : ScopeId) (callee : Value) (args : List Value)
    (c : Context) (sink : Sink) : sink.Aside (c.apply p place scope callee args sink).sink := by
  unfold apply
  split
  · exact enter_aside place _ args c sink
  · split
    · exact .refl sink
    · exact .refl sink
    · split
      · exact enter_aside place _ args c sink
      · exact .refl sink
  · exact .refl sink
  · exact .refl sink

theorem invoke_aside (n : Nat) (c : Context) (sink : Sink) :
    sink.Aside (c.invoke p n sink).sink := by
  unfold invoke
  split
  · exact .refl sink
  · split
    · exact .refl sink
    · split
      · exact .refl sink
      · split
        · exact .refl sink
        · exact apply_aside _ _ _ _ _ sink

theorem startEntry_aside (id : FnId) (c : Context) (sink : Sink) :
    sink.Aside (c.startEntry p id sink).sink := by
  unfold startEntry
  split
  · exact .refl sink
  · exact invoke_aside 1 _ sink

theorem meet_aside (place : Place) (callers : List Frame) (w : Work) (c : Context) (sink : Sink) :
    sink.Aside (c.meet p place callers w sink).sink := by
  obtain ⟨f, r⟩ := w
  cases r with
  | error e => exact .refl sink
  | ok d =>
    cases d with
    | call n => exact invoke_aside n _ sink
    | complete =>
      unfold meet
      dsimp only
      split <;> exact .refl sink
    | _ => exact .refl sink

/-- A step does not prompt. -/
theorem step_aside (traceLevel : Nat) (c : Context) (sink : Sink) :
    sink.Aside (c.step p traceLevel sink).sink := by
  unfold step
  split
  · exact .refl sink
  · split
    · exact .refl sink
    · exact .refl sink
    · split
      · exact meet_aside _ _ _ c sink
      · dsimp only
        split
        all_goals
          rename_i hwrite
          have htrace := Sink.aside_of_write hwrite (by decide)
        · exact htrace.trans (meet_aside _ _ _ c _)
        · exact htrace

end Context

/-! ### Trails -/

/-- What the debugger sees of a run: a task begins, the debugger prompts, a jump is taken, a step is
charged. -/
inductive Event
  | begins
  | prompt
  | jump
  | step
  deriving DecidableEq, Repr

namespace Machine

/-- The events of a turn: the prompts of a dialogue, if there is one, and then the step. -/
def events (p : Program) (threshold : Nat) (m : Machine) : List Event :=
  List.replicate (m.attend.1.sink.prompts - m.sink.prompts) .prompt ++
    match (m.turn p threshold).2 with
    | .ok .charged => [.step]
    | .ok .free => [.jump]
    | .ok .quit | .error _ => []

/-- A step was taken in a turn, which may have been a jump. -/
def GoesOn (p : Program) (threshold : Nat) (m : Machine) : Prop :=
  (m.turn p threshold).2 = .ok .charged ∨ (m.turn p threshold).2 = .ok .free

/-- The events of a machine, turn by turn, until its context is finished. -/
inductive Trail (p : Program) (threshold : Nat) : Machine → List Event → Machine → Prop
  | finished {m : Machine} (hm : m.context.isFinished = true) : Trail p threshold m [] m
  | turn {m m' : Machine} {log : List Event} (hm : ¬m.context.isFinished = true)
      (hturn : m.GoesOn p threshold) (hrest : Trail p threshold (m.turn p threshold).1 log m') :
      Trail p threshold m (m.events p threshold ++ log) m'

variable {p : Program} {threshold : Nat} {m m' : Machine} {log : List Event}

theorem not_halted_none (hm : ¬m.context.isFinished = true) : ¬m.Halted none :=
  not_or.2 ⟨hm, nofun⟩

/-- What a run without a budget goes on with. -/
theorem goesOn_iff :
    m.GoesOn p threshold ↔ budgetAfter none (m.turn p threshold).2 = some none := by
  unfold GoesOn
  rcases (m.turn p threshold).2 with e | t
  · exact ⟨(by rintro (h | h) <;> cases h), nofun⟩
  · cases t with
    | charged => exact ⟨fun _ => rfl, fun _ => .inl rfl⟩
    | free => exact ⟨fun _ => rfl, fun _ => .inr rfl⟩
    | quit => exact ⟨(by rintro (h | h) <;> cases h), nofun⟩

/-- **A run is finished** if and only if it has a trail. -/
theorem ends_iff_trail : m.Ends p threshold none (m', .ok .finished) ↔
    ∃ log, m.Trail p threshold log m' := by
  constructor
  · rintro ⟨fuel, h⟩
    induction fuel generalizing m with
    | zero => cases h
    | succ fuel ih =>
      by_cases hm : m.context.isFinished = true
      · rw [run_finished _ hm] at h
        cases h
        exact ⟨[], .finished hm⟩
      · rw [run_succ _ (not_halted_none hm)] at h
        rcases hr : (m.turn p threshold).2 with e | t
        · rw [hr] at h
          cases h
        · rw [hr] at h
          cases t with
          | charged =>
            obtain ⟨log, hlog⟩ := ih h
            exact ⟨_, .turn hm (.inl hr) hlog⟩
          | free =>
            obtain ⟨log, hlog⟩ := ih h
            exact ⟨_, .turn hm (.inr hr) hlog⟩
          | quit => cases h
  · rintro ⟨log, h⟩
    induction h with
    | finished hm => exact ⟨1, run_finished 0 hm⟩
    | turn hm hturn _ ih =>
      obtain ⟨fuel, hrun⟩ := ih
      refine ⟨fuel + 1, ?_⟩
      rw [run_succ _ (not_halted_none hm), goesOn_iff.1 hturn]
      exact hrun

/-- A run without a budget is not suspended. -/
theorem not_ends_suspended : ¬m.Ends p threshold none (m', .ok .suspended) := by
  rintro ⟨fuel, h⟩
  induction fuel generalizing m with
  | zero => cases h
  | succ fuel ih =>
    by_cases hm : m.context.isFinished = true
    · rw [run_finished _ hm] at h
      cases h
    · rw [run_succ _ (not_halted_none hm)] at h
      by_cases hturn : m.GoesOn p threshold
      · rw [goesOn_iff.1 hturn] at h
        exact ih h
      · cases hrest : budgetAfter none (m.turn p threshold).2 with
        | none =>
          rw [hrest] at h
          exact endOfTurn_ne_suspended _ (congrArg Prod.snd (Option.some.inj h))
        | some rest =>
          refine hturn (goesOn_iff.2 ?_)
          rw [hrest]
          rcases hr : (m.turn p threshold).2 with e | t
          · rw [hr] at hrest
            cases hrest
          · rw [hr] at hrest
            cases t <;> cases hrest <;> rfl

/-- A step leaves the input alone, and does not prompt. -/
theorem advance_aside (p : Program) (threshold : Nat) (m : Machine) :
    (m.advance p threshold).1.input = m.input ∧
      m.sink.Aside (m.advance p threshold).1.sink := by
  have haside := Context.step_aside (p := p) m.debugger.traceLevel m.context m.sink
  unfold advance
  dsimp only
  split
  · exact ⟨rfl, haside⟩
  · exact ⟨rfl, haside⟩
  · exact ⟨rfl, haside⟩

/-! ### What a trail counts -/

end Machine

/-- A dialogue takes no prompts back, whichever way it ends. -/
theorem Debugger.prompts_le_converse (d : Debugger) (sink : Sink) (input : List Line) :
    sink.prompts ≤ (d.converse sink input).sink.prompts := by
  induction input generalizing d sink with
  | nil =>
    unfold converse
    split
    · rename_i hprompt
      exact Sink.prompts_le_of_write hprompt
    · rename_i hprompt
      split
      all_goals
        rename_i hnewline
        exact Nat.le_trans (Sink.prompts_le_of_write hprompt) (Sink.prompts_le_of_write hnewline)
  | cons line input ih =>
    unfold converse
    split
    · rename_i hprompt
      exact Sink.prompts_le_of_write hprompt
    · rename_i hprompt
      have hle := Sink.prompts_le_of_write hprompt
      cases line with
      | invalid bytes => exact hle
      | text text =>
        dsimp only
        split
        · rename_i hreply
          exact Nat.le_trans hle (Sink.prompts_le_of_write hreply)
        · rename_i hreply
          have hle' := Nat.le_trans hle (Sink.prompts_le_of_write hreply)
          split
          · exact hle'
          · exact Nat.le_trans hle' (ih _ _)

namespace Machine

variable {p : Program} {threshold : Nat} {m m' : Machine} {log : List Event}

theorem prompts_le_attend (m : Machine) : m.sink.prompts ≤ m.attend.1.sink.prompts := by
  unfold attend
  split
  · exact Debugger.prompts_le_converse m.debugger.enter m.sink m.input
  · exact Nat.le_refl _

/-- The prompts of a turn are those of its dialogue. -/
theorem turn_prompts (p : Program) (threshold : Nat) (m : Machine) :
    (m.turn p threshold).1.sink.prompts =
      m.sink.prompts + (m.events p threshold).count .prompt := by
  have hattend : (m.turn p threshold).1.sink.prompts = m.attend.1.sink.prompts := by
    unfold turn
    rcases m.attend with ⟨m₁, r⟩
    rcases r with e | r
    · rfl
    · cases r with
      | quit => rfl
      | run => exact (advance_aside p threshold m₁).2.prompts
  have hcount : (m.events p threshold).count .prompt =
      m.attend.1.sink.prompts - m.sink.prompts := by
    unfold events
    rw [List.count_append, List.count_replicate_self]
    rcases (m.turn p threshold).2 with e | t
    · rfl
    · cases t <;> rfl
  have hle := prompts_le_attend m
  omega

theorem count_step_events (p : Program) (threshold : Nat) (m : Machine) :
    (m.events p threshold).count .step = chargeOf (m.turn p threshold).2 := by
  have hnone : Event.step ∉ List.replicate (m.attend.1.sink.prompts - m.sink.prompts)
      Event.prompt := by
    intro hmem
    cases (List.mem_replicate.1 hmem).2
  unfold events
  rw [List.count_append, List.count_eq_zero.2 hnone, Nat.zero_add]
  rcases (m.turn p threshold).2 with e | t
  · rfl
  · cases t <;> rfl

/-- **A trail counts the steps** of the context. -/
theorem Trail.steps (h : m.Trail p threshold log m') :
    m'.context.steps = m.context.steps + log.count .step := by
  induction h with
  | finished => rfl
  | turn _ _ _ ih => rw [ih, turn_steps, List.count_append, count_step_events, Nat.add_assoc]

/-- **A trail counts the prompts** in the sink. -/
theorem Trail.prompts (h : m.Trail p threshold log m') :
    m'.sink.prompts = m.sink.prompts + log.count .prompt := by
  induction h with
  | finished => rfl
  | turn _ _ _ ih => rw [ih, turn_prompts, List.count_append, Nat.add_assoc]

end Machine

/-! ### Trails of sessions -/

namespace Session

/-- The events of a session that runs some tasks. -/
inductive Trail (p : Program) : List Task → Session → List Event → Session → Prop
  | nil (s : Session) : Trail p [] s [] s
  | task {t : Task} {ts : List Task} {s s' : Session} {m : Machine} {log log' : List Event}
      (hstart : (t.start p s.sink).result = .ok ())
      (hm : (s.taskMachine p t).Trail p s.config.gcThreshold log m)
      (hrest : Trail p ts ((s.begun p t).record m) log' s') :
      Trail p (t :: ts) s (.begins :: (log ++ log')) s'

variable {p : Program} {ts : List Task} {s s' : Session} {log : List Event}

/-- A machine that has run in slices without ending the session has a trail. -/
theorem trail_of_drive {m m' : Machine} {threshold slice fuel : Nat}
    {r : Except Fault Outcome} (h : m.drive p threshold slice fuel = some (m', r))
    (hr : statusAfter r = none) : ∃ log, m.Trail p threshold log m' := by
  have hends := (Machine.driveEnds_iff slice m (m', r)).1 ⟨fuel, h⟩
  rcases r with e | o
  · cases hr
  · cases o with
    | finished => exact Machine.ends_iff_trail.1 hends
    | suspended => exact absurd hends Machine.not_ends_suspended
    | quit => cases hr

/-- **A run of tasks is completed** if and only if it has a trail. -/
theorem tasksEnd_iff_trail : s.TasksEnd p ts (s', .ok .completed) ↔
    ∃ log, s.Trail p ts log s' := by
  constructor
  · rintro ⟨fuel, h⟩
    induction ts generalizing s with
    | nil =>
      cases h
      exact ⟨[], .nil _⟩
    | cons t ts ih =>
      rw [runTasks_cons] at h
      split at h
      · cases h
      · rename_i hstart
        obtain ⟨done, hdrive, h⟩ := Option.bind_eq_some_iff.1 h
        split at h
        · rename_i status hstatus
          cases h
          rcases hr : done.2 with e | o
          · rw [hr] at hstatus
            cases hstatus
          · rw [hr] at hstatus
            cases o <;> cases hstatus
        · rename_i hstatus
          obtain ⟨log, hlog⟩ := trail_of_drive hdrive hstatus
          obtain ⟨log', hlog'⟩ := ih h
          exact ⟨_, .task hstart hlog hlog'⟩
  · rintro ⟨log, h⟩
    induction h with
    | nil s => exact ⟨0, rfl⟩
    | @task t ts s s' m log log' hstart hm _ ih =>
      obtain ⟨n, hn⟩ := (Machine.driveEnds_iff s.config.timeslice _ _).2
        (Machine.ends_iff_trail.2 ⟨log, hm⟩)
      obtain ⟨n', hn'⟩ := ih
      refine ⟨max n n', ?_⟩
      rw [runTasks_cons, hstart, Machine.drive_mono (Nat.le_max_left n n') hn]
      exact runTasks_mono (Nat.le_max_right n n') hn'

/-- **A run of a program is completed** if and only if its tasks have a trail, however the run is
cut into slices. -/
theorem ends_iff_trail (hrun : s.config.run = true) : s.Ends p (s', .ok .completed) ↔
    ∃ log, s.Trail p p.tasks log s' := by
  rw [← tasksEnd_iff_trail]
  unfold Ends TasksEnd run
  simp only [hrun, if_true]

/-- A run that is not wanted is not completed. -/
theorem Ends.run_of_completed (h : s.Ends p (s', .ok .completed)) : s.config.run = true := by
  obtain ⟨fuel, h⟩ := h
  unfold run at h
  split at h
  · assumption
  · cases h

theorem start_steps (p : Program) (t : Task) (sink : Sink) :
    (t.start p sink).context.steps = 0 := by
  cases t with
  | module m => rfl
  | entry id => exact Context.invoke_steps 1 _ sink

theorem start_aside (p : Program) (t : Task) (sink : Sink) :
    sink.Aside (t.start p sink).sink := by
  cases t with
  | module m => exact .refl sink
  | entry id => exact Context.startEntry_aside id _ sink

/-- The steps that all contexts of a session have taken. -/
def steps (s : Session) : Nat :=
  (s.contexts.map Context.steps).sum

/-- **A trail counts the steps** of all contexts. -/
theorem Trail.steps (h : s.Trail p ts log s') : s'.steps = s.steps + log.count .step := by
  induction h with
  | nil => rfl
  | @task t ts s s' m log log' _ hm _ ih =>
    have hsteps : m.context.steps = log.count .step := by
      rw [hm.steps]
      exact (congrArg (· + _) (start_steps p t s.sink)).trans (Nat.zero_add _)
    have hrecord : ((s.begun p t).record m).steps = s.steps + m.context.steps := by
      unfold Session.steps record
      rw [List.map_append, List.sum_append]
      rfl
    rw [ih, hrecord, hsteps, List.count_cons_of_ne (by decide), List.count_append, Nat.add_assoc]

/-- **A trail counts the prompts** in the sink. -/
theorem Trail.prompts (h : s.Trail p ts log s') :
    s'.sink.prompts = s.sink.prompts + log.count .prompt := by
  induction h with
  | nil => rfl
  | @task t ts s s' m log log' _ hm _ ih =>
    have hprompts : m.sink.prompts = s.sink.prompts + log.count .prompt := by
      rw [hm.prompts]
      exact congrArg (· + _) (start_aside p t s.sink).prompts
    have hrecord : ((s.begun p t).record m).sink.prompts = m.sink.prompts := rfl
    rw [ih, hrecord, hprompts, List.count_cons_of_ne (by decide), List.count_append, Nat.add_assoc]

end Session

end TreeMachine
