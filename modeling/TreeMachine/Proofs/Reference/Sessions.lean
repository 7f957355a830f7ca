import TreeMachine.Proofs.Reference.Runs

/-!
# Sessions run as the reference evaluator says

A task begins in a state in which the machine simulates the evaluator (`Program.begins_task`). So
the tasks of a session have the outcomes that the evaluator gives them, one after the other, and
neither slices nor collections change that (`machine_refines_evaluator`).

The main result has two parts. For a single task, run without collections, the heap at the end is
the one of the evaluator, handle by handle. For a session the heaps are left out, since with
collections the same objects have other handles; status, fault and sink are those of the evaluator.
Both are equivalences: the machine ends if and only if the evaluator has an outcome with some fuel,
so in particular it diverges on the same programs.

The start of a task may fail before the first step, or may even finish it: an entry function with
parameters is refused, and one that is a primitive is called at once (`Effect.Begins`). The
evaluator makes the same call without a machine.

That slices and thresholds do not matter is taken from the modules on slicing and renaming; here
sessions are reduced to those that have neither (`Session.Ends.plainly`). The debugger has to leave
the run alone. What an interrupted or traced run does is settled by comparing it with a quiet one.

Loops with several variables are covered as well, being defects on both sides.
-/

namespace TreeMachine

variable {p : Program}

/-! ### Tasks -/

/-- A start of a task has failed as the computation has, or has led to a state from which the
machine simulates it. -/
def Effect.Begins (p : Program) (fuel : Nat) (started : Effect Unit)
    (r : Option (Except Fault Unit × World)) : Prop :=
  match started.result with
  | .error e => ∃ w, r = some (.error e, w) ∧ w.heap = started.context.heap ∧ w.sink = started.sink
  | .ok () => started.context.steps = 0 ∧ Simulates p 0 fuel
      ⟨started.context.frames, started.context.heap, started.sink⟩ r Finishes

namespace Program

/-- The statements of a module. -/
theorem simulated_module (hp : p.WellFormed) {m : Module} (hm : m ∈ p.modules) (fuel : Nat)
    (sink : Sink) :
    Simulates p 0 fuel ⟨(Context.forModule m).frames, .empty, sink⟩
      (p.evalTask fuel (.module m) ⟨.empty, .empty, sink⟩) Finishes := by
  obtain ⟨-, hbody⟩ := hp.modules m hm
  have hsequence := (simulated_evaluator hp fuel).outerBody hbody ⟨none, m.scope⟩ .empty
    [] ⟨.empty, .empty, sink⟩ fun _ => rfl
  refine hsequence.bindSame ?_
  intro c w y hcompletes
  obtain ⟨v, hvalue, n, hsteps⟩ := hcompletes.outermost
  rcases hvalue with ⟨rfl, rfl⟩ | rfl
  · exact ⟨n, _, Nat.zero_le n, hsteps, rfl⟩
  · exact ⟨n, _, Nat.zero_le n, hsteps, rfl⟩

/-- The call of a primitive as entry function is over before the first step. Its value is left to an
activation that has nothing to do. -/
theorem begins_primitive {id : FnId} {f : Function} {q : Primitive} (hf : p.function? id = some f)
    (harity : ¬([] : List Value).length ≠ f.arity) (hbody : f.body = .primitive q) (fuel : Nat)
    (sink : Sink) :
    ((Context.idle rootScope).enter p .nowhere id [] sink).Begins p fuel
      ((Eval.perform .nowhere q [] >>= fun _ => pure () : Eval Unit) ⟨.empty, .empty, sink⟩) := by
  cases hresult : (q.apply [] .empty sink).result with
  | error e =>
    have henter : (Context.idle rootScope).enter p .nowhere id [] sink =
        ⟨⟨[.start none rootScope], (q.apply [] .empty sink).heap, 0⟩,
          (q.apply [] .empty sink).sink, .error (.user .nowhere e)⟩ := by
      simp only [Context.enter, Context.idle, Context.start, hf, if_neg harity, hbody, hresult]
    have hvalue : (Eval.perform .nowhere q [] >>= fun _ => pure () : Eval Unit)
        ⟨.empty, .empty, sink⟩ = some (.error (.user .nowhere e),
          ⟨.empty, (q.apply [] .empty sink).heap, (q.apply [] .empty sink).sink⟩) := by
      simp only [Bind.bind, Eval.perform, hresult]
      rfl
    rw [henter, hvalue]
    exact ⟨_, rfl, rfl, rfl⟩
  | ok v =>
    have henter : (Context.idle rootScope).enter p .nowhere id [] sink =
        ⟨⟨[(Frame.start none rootScope).push v], (q.apply [] .empty sink).heap, 0⟩,
          (q.apply [] .empty sink).sink, .ok ()⟩ := by
      simp only [Context.enter, Context.idle, Context.start, hf, if_neg harity, hbody, hresult]
      rfl
    have hvalue : (Eval.perform .nowhere q [] >>= fun _ => pure () : Eval Unit)
        ⟨.empty, .empty, sink⟩ = some (.ok (),
          ⟨.empty, (q.apply [] .empty sink).heap, (q.apply [] .empty sink).sink⟩) := by
      simp only [Bind.bind, Eval.perform, hresult]
      rfl
    rw [henter, hvalue]
    have hstep : State.Takes p
        ⟨[(Frame.start none rootScope).push v], (q.apply [] .empty sink).heap,
          (q.apply [] .empty sink).sink⟩
        ⟨[], (q.apply [] .empty sink).heap, (q.apply [] .empty sink).sink⟩ :=
      Frame.takes_exhausted rfl rfl
    exact ⟨rfl, 1, _, Nat.zero_le 1, .one hstep, rfl⟩

/-- A function of the program as entry function runs in the activation that has been idle. -/
theorem begins_code (hp : p.WellFormed) {id : FnId} {f : Function} {first : Option StmtId}
    (hf : p.function? id = some f) (harity : ¬([] : List Value).length ≠ f.arity)
    (hbody : f.body = .code first) (fuel : Nat) (sink : Sink) :
    ((Context.idle rootScope).enter p .nowhere id [] sink).Begins p fuel
      (((p.evaluator fuel).enter p .nowhere id [] >>= fun _ => pure () : Eval Unit)
        ⟨.empty, .empty, sink⟩) := by
  have hfits := (hp.functions id f hf).body first hbody
  obtain ⟨scope, hscope⟩ := hfits.scopeOf? f.scope
  have henter : (Context.idle rootScope).enter p .nowhere id [] sink =
      ⟨⟨[Home.at ⟨some id, scope⟩ ⟨first, 0, [], []⟩ (.ofParams f.params []) []], .empty, 0⟩,
        sink, .ok ()⟩ := by
    simp only [Context.enter, hf, if_neg harity, hbody, hscope]
    rfl
  have hcall := (simulated_evaluator hp fuel).callBody hfits ⟨some id, scope⟩ .nowhere
    (.ofParams f.params []) [] ⟨.empty, .empty, sink⟩
  rw [henter]
  simp only [Evaluator.enter, hf, if_neg harity, hbody]
  refine ⟨rfl, hcall.bindSame fun v w y hreturns => ?_⟩
  obtain ⟨-, rfl⟩ := hreturns
  exact .result rfl

/-- A call of the entry function. -/
theorem begins_entry (hp : p.WellFormed) (id : FnId) (fuel : Nat) (sink : Sink) :
    ((Context.idle rootScope).startEntry p id sink).Begins p fuel
      (p.evalTask fuel (.entry id) ⟨.empty, .empty, sink⟩) := by
  have hstart : (Context.idle rootScope).startEntry p id sink =
      (Context.idle rootScope).enter p .nowhere id [] sink := rfl
  have heval : p.evalTask fuel (.entry id) = ((p.evaluator fuel).enter p .nowhere id [] >>=
      fun _ => pure ()) := rfl
  rw [hstart, heval]
  cases hf : p.function? id with
  | none =>
    unfold Evaluator.enter
    rw [Context.enter, hf]
    exact ⟨_, rfl, rfl, rfl⟩
  | some f =>
    by_cases harity : ([] : List Value).length ≠ f.arity
    · unfold Evaluator.enter
      simp only [Context.enter, hf, if_pos harity]
      exact ⟨_, rfl, rfl, rfl⟩
    · cases hbody : f.body with
      | primitive q =>
        have hprimitive := begins_primitive hf harity hbody fuel sink
        unfold Evaluator.enter
        simp only [hf, if_neg harity, hbody]
        exact hprimitive
      | code first => exact begins_code hp hf harity hbody fuel sink

/-- **A task begins** in a state in which the machine simulates the evaluator. -/
theorem begins_task (hp : p.WellFormed) {t : Task} (ht : t ∈ p.tasks) (fuel : Nat) (sink : Sink) :
    (t.start p sink).Begins p fuel (p.evalTask fuel t ⟨.empty, .empty, sink⟩) := by
  cases t with
  | module m =>
    have hm : m ∈ p.modules := by
      simpa [tasks] using ht
    exact ⟨rfl, simulated_module hp hm fuel sink⟩
  | entry id => exact begins_entry hp id fuel sink

end Program

/-- The run of a task without collections, in the surroundings of a debugger and its input, ends
with a result, a heap and a sink, and leaves the surroundings as they are. A start that fails is
such an end. -/
def Task.Ends (p : Program) (t : Task) (d : Debugger) (input : List Line) (sink : Sink)
    (result : Except Fault Unit) (heap : Heap) (sink' : Sink) : Prop :=
  match (t.start p sink).result with
  | .error e => result = .error e ∧ heap = (t.start p sink).context.heap ∧
      sink' = (t.start p sink).sink
  | .ok () => ∃ c : Context, c.heap = heap ∧
      Machine.Ends p 0 none ⟨(t.start p sink).context, d, input, (t.start p sink).sink⟩
        (⟨c, d, input, sink'⟩, result.map fun () => .finished)

namespace Effect.Begins

variable {started : Effect Unit} {fuel : Nat} {r : Option (Except Fault Unit × World)}
  {d : Debugger}

/-- A start that has failed. -/
theorem failed (h : started.Begins p fuel r) {e : Fault} (he : started.result = .error e) :
    ∃ w, r = some (.error e, w) ∧ w.heap = started.context.heap ∧ w.sink = started.sink := by
  unfold Effect.Begins at h
  rw [he] at h
  exact h

/-- The machine after a start that has succeeded. -/
theorem runsAs (h : started.Begins p fuel r) (hok : started.result = .ok ()) (hd : d.Quiet)
    (input : List Line) :
    Machine.RunsAs p fuel ⟨started.context, d, input, started.sink⟩ r := by
  unfold Effect.Begins at h
  rw [hok] at h
  obtain ⟨hsteps, hsimulates⟩ := h
  have hruns := hsimulates.runsAs hd input 0
  have hmachine : State.machine ⟨started.context.frames, started.context.heap, started.sink⟩ d
      input 0 = ⟨started.context, d, input, started.sink⟩ := by
    rw [State.machine, State.context, ← hsteps]
  rw [hmachine] at hruns
  exact hruns

end Effect.Begins

/-- The result of a run says what the result of the computation is. -/
theorem Except.map_const_injective {α : Type} {a : α} {r r' : Except Fault Unit}
    (h : r.map (fun () => a) = r'.map fun () => a) : r = r' := by
  cases r <;> cases r' <;> cases h <;> rfl

/-- **A task** ends exactly when the evaluator has an outcome for it, and as the evaluator says. -/
theorem Task.ends_iff (hp : p.WellFormed) {t : Task} (ht : t ∈ p.tasks) {d : Debugger}
    (hd : d.Quiet) (input : List Line) (sink : Sink) (result : Except Fault Unit) (heap : Heap)
    (sink' : Sink) :
    t.Ends p d input sink result heap sink' ↔ ∃ fuel w,
      p.evalTask fuel t ⟨.empty, .empty, sink⟩ = some (result, w) ∧ w.heap = heap ∧
        w.sink = sink' := by
  have hbegins := fun fuel => Program.begins_task hp ht fuel sink
  unfold Task.Ends
  cases hstart : (t.start p sink).result with
  | error e =>
    constructor
    · rintro ⟨rfl, rfl, rfl⟩
      obtain ⟨w, hw, hheap, hsink⟩ := (hbegins 0).failed hstart
      exact ⟨0, w, hw, hheap, hsink⟩
    · rintro ⟨fuel, w, hw, rfl, rfl⟩
      obtain ⟨w', hw', hheap, hsink⟩ := (hbegins fuel).failed hstart
      rw [hw] at hw'
      cases hw'
      exact ⟨rfl, hheap, hsink⟩
  | ok _ =>
    constructor
    · rintro ⟨c, rfl, fuel, hrun⟩
      -- A run that has ended with some fuel leaves the evaluator with an outcome for as much fuel.
      have hruns := (hbegins fuel).runsAs hstart hd input
      cases hw : p.evalTask fuel t ⟨.empty, .empty, sink⟩ with
      | none =>
        rw [hw] at hruns
        rw [Machine.RunsAs, hrun] at hruns
        cases hruns
      | some done =>
        obtain ⟨result', w⟩ := done
        rw [hw] at hruns
        obtain ⟨c', hheap, hends⟩ := hruns
        have hsame := Machine.Ends.unique hends ⟨fuel, hrun⟩
        obtain ⟨hmachine, hresult⟩ := Prod.mk.inj hsame
        cases hmachine
        exact ⟨fuel, w, by rw [hw, Except.map_const_injective hresult], hheap.symm, rfl⟩
    · rintro ⟨fuel, w, hw, rfl, rfl⟩
      have hruns := (hbegins fuel).runsAs hstart hd input
      rw [hw] at hruns
      exact hruns

/-! ### Sessions -/

namespace Session

variable {ts : List Task} {s : Session} {fuel : Nat}

/-- The machine of a task in a session without slices and collections. -/
theorem drive_of_plain (t : Task) (hg : s.config.gcThreshold = 0) (hslice : s.config.timeslice = 0)
    (n : Nat) : (s.taskMachine p t).drive p s.config.gcThreshold s.config.timeslice n =
      Machine.run p 0 n none
        ⟨(t.start p s.sink).context, s.debugger, s.input, (t.start p s.sink).sink⟩ := by
  rw [hg, hslice]
  rfl

/-- Tasks for which the evaluator has an outcome end as it says. -/
theorem tasksEnd_of_evalTasks (hp : p.WellFormed) (hts : ∀ t ∈ ts, t ∈ p.tasks)
    (hd : s.debugger.Quiet) (hg : s.config.gcThreshold = 0) (hslice : s.config.timeslice = 0)
    {result : Except Fault Unit} {sink : Sink}
    (h : p.evalTasks fuel ts s.sink = some (result, sink)) :
    ∃ s', s.TasksEnd p ts (s', result.map fun () => .completed) ∧ s'.sink = sink := by
  induction ts generalizing s with
  | nil =>
    cases h
    exact ⟨s, ⟨0, rfl⟩, rfl⟩
  | cons t ts ih =>
    have hbegins := Program.begins_task hp (hts t List.mem_cons_self) fuel s.sink
    rw [Program.evalTasks] at h
    cases hstart : (t.start p s.sink).result with
    | error e =>
      obtain ⟨w, hw, -, hsink⟩ := hbegins.failed hstart
      rw [hw] at h
      cases h
      refine ⟨s.begun p t, ⟨0, ?_⟩, hsink.symm⟩
      rw [runTasks_cons, hstart]
      rfl
    | ok _ =>
      have hruns := hbegins.runsAs hstart hd s.input
      cases hw : p.evalTask fuel t ⟨.empty, .empty, s.sink⟩ with
      | none => rw [hw] at h; cases h
      | some done =>
        obtain ⟨result', w⟩ := done
        rw [hw] at h hruns
        obtain ⟨c, -, n, hn⟩ := hruns
        cases result' with
        | error e =>
          cases h
          refine ⟨(s.begun p t).record ⟨c, s.debugger, s.input, w.sink⟩, ⟨n, ?_⟩, rfl⟩
          rw [runTasks_cons, hstart, drive_of_plain t hg hslice, hn]
          rfl
        | ok _ =>
          obtain ⟨s', ⟨n', hn'⟩, hsink⟩ :=
            ih (s := (s.begun p t).record ⟨c, s.debugger, s.input, w.sink⟩)
              (fun t' ht' => hts t' (List.mem_cons_of_mem t ht')) hd hg hslice h
          refine ⟨s', ⟨max n n', ?_⟩, hsink⟩
          rw [runTasks_cons, hstart, drive_of_plain t hg hslice,
            Machine.run_mono (Nat.le_max_left n n') hn]
          exact runTasks_mono (Nat.le_max_right n n') hn'

/-- The evaluator has an outcome for tasks that end with as much fuel. -/
theorem exists_evalTasks (hp : p.WellFormed) (hts : ∀ t ∈ ts, t ∈ p.tasks)
    (hd : s.debugger.Quiet) (hg : s.config.gcThreshold = 0) (hslice : s.config.timeslice = 0)
    {r : Result} (h : s.runTasks p fuel ts = some r) :
    ∃ done, p.evalTasks fuel ts s.sink = some done := by
  induction ts generalizing s with
  | nil => exact ⟨_, rfl⟩
  | cons t ts ih =>
    have hbegins := Program.begins_task hp (hts t List.mem_cons_self) fuel s.sink
    rw [Program.evalTasks]
    cases hstart : (t.start p s.sink).result with
    | error e =>
      obtain ⟨w, hw, -⟩ := hbegins.failed hstart
      rw [hw]
      exact ⟨_, rfl⟩
    | ok _ =>
      have hruns := hbegins.runsAs hstart hd s.input
      rw [runTasks_cons, hstart, drive_of_plain t hg hslice] at h
      obtain ⟨done, hrun, h⟩ := Option.bind_eq_some_iff.1 h
      cases hw : p.evalTask fuel t ⟨.empty, .empty, s.sink⟩ with
      | none =>
        rw [hw, Machine.RunsAs, hrun] at hruns
        cases hruns
      | some outcome =>
        obtain ⟨result, w⟩ := outcome
        rw [hw] at hruns
        obtain ⟨c, -, hends⟩ := hruns
        obtain rfl := Machine.Ends.unique hends ⟨fuel, hrun⟩
        cases result with
        | error e => exact ⟨_, rfl⟩
        | ok _ =>
          exact ih (s := (s.begun p t).record ⟨c, s.debugger, s.input, w.sink⟩)
            (fun t' ht' => hts t' (List.mem_cons_of_mem t ht')) hd hg hslice h

/-- Slices and collections do not matter to how a session ends and what it has written. -/
theorem Ends.plainly (hp : p.WellFormed) (slice slice' g g' : Nat) {status : Except Fault Status}
    {sink : Sink}
    (h : ∃ s', ((s.withTimeslice slice).withThreshold g).Ends p (s', status) ∧ s'.sink = sink) :
    ∃ s', ((s.withTimeslice slice').withThreshold g').Ends p (s', status) ∧ s'.sink = sink := by
  obtain ⟨s₁, hs₁, rfl⟩ := h
  obtain ⟨⟨s₂, status₂⟩, hs₂, hsame, hstatus⟩ := hs₁.same hp.iterables g'
  have hs₂' : ((s.withThreshold g').withTimeslice slice).Ends p (s₂, status₂) := hs₂
  cases hstatus
  exact ⟨_, hs₂'.withTimeslice slice', hsame.sink⟩

/-- **A session** ends exactly when the evaluator has an outcome for the tasks of the program, and
as the evaluator says. -/
theorem ends_iff (hp : p.WellFormed) (hrun : s.config.run = true) (hd : s.debugger.Quiet)
    (status : Except Fault Status) (sink : Sink) :
    (∃ s', s.Ends p (s', status) ∧ s'.sink = sink) ↔ ∃ fuel result,
      p.evalTasks fuel p.tasks s.sink = some (result, sink) ∧
        status = result.map fun () => .completed := by
  -- Both directions go through the session without slices and collections.
  have htasks : ∀ t ∈ p.tasks, t ∈ p.tasks := fun _ ht => ht
  have hplain : ∀ {r : Result}, ((s.withTimeslice 0).withThreshold 0).Ends p r ↔
      ((s.withTimeslice 0).withThreshold 0).TasksEnd p p.tasks r := by
    intro r
    have hrun' : ((s.withTimeslice 0).withThreshold 0).config.run = true := hrun
    refine exists_congr fun n => ?_
    rw [run, if_pos hrun']
  constructor
  · intro h
    obtain ⟨s₀, hs₀, rfl⟩ :=
      Ends.plainly hp s.config.timeslice 0 s.config.gcThreshold 0 (s := s) h
    obtain ⟨fuel, hfuel⟩ := hplain.1 hs₀
    obtain ⟨⟨result, sink⟩, heval⟩ := exists_evalTasks hp htasks
      (s := (s.withTimeslice 0).withThreshold 0) hd rfl rfl hfuel
    obtain ⟨s₁, hs₁, rfl⟩ := tasksEnd_of_evalTasks hp htasks
      (s := (s.withTimeslice 0).withThreshold 0) hd rfl rfl heval
    cases hs₁.unique (hplain.1 hs₀)
    exact ⟨fuel, result, heval, rfl⟩
  · rintro ⟨fuel, result, heval, rfl⟩
    obtain ⟨s₁, hs₁, hsink⟩ := tasksEnd_of_evalTasks hp htasks
      (s := (s.withTimeslice 0).withThreshold 0) hd rfl rfl heval
    exact Ends.plainly hp 0 s.config.timeslice 0 s.config.gcThreshold (s := s)
      ⟨s₁, hplain.2 hs₁, hsink⟩

end Session

/-- **The machine refines the reference evaluator.** For every linked program, and a debugger that
leaves a run alone:

* a task, run without collections, ends exactly when the evaluator has an outcome for it with enough
  fuel, and then with the same fault or none, the same heap and the same sink;
* a session, whatever its slices and its threshold for collections, ends exactly when the evaluator
  has an outcome for the tasks of the program one after the other, and then with the same fault or
  as completed, and with the same sink. -/
theorem machine_refines_evaluator {d : Source.Program} {p : Program}
    (hlink : Program.link d = .ok p) :
    (∀ t ∈ p.tasks, ∀ debugger : Debugger, debugger.Quiet → ∀ input sink result heap sink',
      t.Ends p debugger input sink result heap sink' ↔ ∃ fuel w,
        p.evalTask fuel t ⟨.empty, .empty, sink⟩ = some (result, w) ∧ w.heap = heap ∧
          w.sink = sink') ∧
    ∀ s : Session, s.config.run = true → s.debugger.Quiet → ∀ status sink,
      (∃ s', s.Ends p (s', status) ∧ s'.sink = sink) ↔ ∃ fuel result,
        p.evalTasks fuel p.tasks s.sink = some (result, sink) ∧
          status = result.map fun () => .completed := by
  have hp := Program.wellFormed_of_link hlink
  exact ⟨fun t ht _ hd => Task.ends_iff hp ht hd, fun s hrun hd => s.ends_iff hp hrun hd⟩

/-- Whether a definition has one task, which is evaluated with some fuel to a world that passes a
test. -/
def Program.evaluatesAlone (d : Source.Program) (fuel : Nat) (test : World → Bool) : Bool :=
  match Program.link d with
  | .ok p =>
    match p.tasks with
    | [t] =>
      match p.evalTask fuel t ⟨.empty, .empty, .ofLimit none⟩ with
      | some (.ok (), w) => test w
      | _ => false
    | _ => false
  | .error _ => false

theorem Program.exists_of_evaluatesAlone {d : Source.Program} {fuel : Nat}
    {test : World → Bool} (h : evaluatesAlone d fuel test = true) :
    ∃ (p : Program) (t : Task) (w : World), link d = .ok p ∧ p.tasks = [t] ∧
      p.evalTask fuel t ⟨.empty, .empty, .ofLimit none⟩ = some (.ok (), w) ∧ test w = true := by
  unfold evaluatesAlone at h
  split at h
  · rename_i p hlink
    split at h
    · rename_i t htasks
      split at h
      · rename_i w hw
        exact ⟨p, t, w, hlink, htasks, hw, h⟩
      · cases h
    · cases h
  · cases h

/-- A definition whose loop over a range, chosen by a conditional, is left from an arm of a select;
an else branch jumps to a label of the then branch, and a function returns from within a loop. -/
def Source.Program.wandering : Source.Program where
  modules := [⟨"m",
    [.mk "first" ["x"] []
      [.loop (.scalar (.bool true)) [.return (some (.call (.function "+") [.var "x", .var "x"]))]
        false]],
    [.forall ["i"]
      [.choose (.scalar (.bool true))
        (.call (.function "range") [.scalar (.int 0), .scalar (.int 9)]) (.scalar (.int 0))]
      [.select (.call (.function "first") [.var "i"])
        [.mk [.scalar (.int 2)] [.goto "out"],
          .mk [] [.expr (.call (.function "print") [.var "i"])]]],
      .label "out",
      .branch (.scalar (.bool false))
        [.label "then", .expr (.call (.function "print") [.scalar (.text "left")])]
        [.goto "then"]]⟩]
  entry := none

/-- The evaluator has an outcome for the wandering program, and the machine, in slices of two steps
and with a collection after every allocation, ends as it says. -/
theorem machine_refines_evaluator_wandering : ∃ (p : Program) (sink : Sink),
    Program.link .wandering = .ok p ∧ sink.bytes.data = "0\nleft\n".toUTF8.data ∧
    (∃ t ∈ p.tasks, ∃ heap, t.Ends p (.start 0 false) [] (.ofLimit none) (.ok ()) heap sink) ∧
    ∃ s' : Session, (Session.start ⟨true, false, 0, 2, 1⟩ [] (.ofLimit none)).Ends p
      (s', .ok .completed) ∧ s'.sink = sink := by
  have heval : Program.evaluatesAlone .wandering 20 (fun w =>
      decide (w.sink.bytes.data = "0\nleft\n".toUTF8.data)) = true := by decide +kernel
  obtain ⟨p, t, w, hlink, htasks, hw, htest⟩ := Program.exists_of_evaluatesAlone heval
  obtain ⟨htask, hsession⟩ := machine_refines_evaluator hlink
  refine ⟨p, w.sink, hlink, of_decide_eq_true htest,
    ⟨t, by rw [htasks]; exact .head _, w.heap, ?_⟩, ?_⟩
  · exact (htask t (by rw [htasks]; exact .head _) _ ⟨rfl, rfl, rfl⟩ _ _ _ _ _).2
      ⟨20, w, hw, rfl, rfl⟩
  · refine (hsession (.start ⟨true, false, 0, 2, 1⟩ [] (.ofLimit none)) rfl ⟨rfl, rfl, rfl⟩
      (.ok .completed) w.sink).2 ⟨20, .ok (), ?_, rfl⟩
    rw [htasks, Program.evalTasks]
    have hw' : p.evalTask 20 t ⟨.empty, .empty,
      (Session.start ⟨true, false, 0, 2, 1⟩ [] (.ofLimit none)).sink⟩ = some (.ok (), w) := hw
    rw [hw']
    rfl

end TreeMachine
