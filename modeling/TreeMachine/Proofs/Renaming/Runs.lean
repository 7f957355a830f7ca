import TreeMachine.Proofs.Linking.Programs
import TreeMachine.Proofs.Renaming.Steps
import TreeMachine.Proofs.Run.Fuel

/-!
# Runs that differ in their collections

Two machines whose contexts are the same up to a renaming of handles, in the same surroundings, take
the same turns, whatever the thresholds at which their heaps are collected (`Machine.Same.turn`). So
they end in the same way after the same turns, and so do sessions.

The comparison goes turn by turn, with equal fuel on both sides. It therefore covers runs that do
not end, for which both contexts are the same after every number of turns
(`Machine.Same.afterTurns`), and failing ones, which fail in the same turn with the same fault. The
debugger sees the same lines and the same interrupts; what it prints is equal, since nothing that it
prints depends on the heap.

Thresholds decide when a collection is due, by counting allocations, and a threshold of zero means
never. The proof does not look at how the decision is made: a context is renamed to the other one
whether or not either of them has been collected (`Machine.Same.collectDue`).

Sessions keep the contexts of the tasks that they have run. These are the same one by one up to a
renaming of their own each, with equal counts of steps and equal depths (`Session.SameAfter`).
Contexts of earlier runs in the same session are left as they are. The last statement,
`collection_invisible`, puts this together for all linked programs. What is not the same, and is
left out, are the sizes of heaps and the handles themselves.
-/

namespace TreeMachine

/-- Two contexts are the same up to a renaming of handles. Their numbers of steps and their depths
are the same. -/
structure Context.Same (c c' : Context) : Prop where
  steps : c'.steps = c.steps
  depth : c'.depth = c.depth
  renamed : ∃ ρ, c.Renamed ρ c'

theorem Context.Renamed.same {ρ : Renaming} {c c' : Context} (h : c.Renamed ρ c') : c.Same c' :=
  ⟨h.steps, h.frames.length_eq.symm, ρ, h⟩

/-- Two machines are the same up to a renaming of handles: their contexts are, and what surrounds
them is the same. -/
structure Machine.Same (m m' : Machine) : Prop where
  context : m.context.Same m'.context
  debugger : m'.debugger = m.debugger
  input : m'.input = m.input
  sink : m'.sink = m.sink

namespace Machine

variable {p : Program} {m m' : Machine}

/-- The machine after a number of turns, if it has taken so many. -/
def afterTurns (p : Program) (threshold : Nat) : Nat → Machine → Option Machine
  | 0, m => some m
  | n + 1, m =>
    if m.context.isFinished then none
    else
      match budgetAfter none (m.turn p threshold).2 with
      | some _ => afterTurns p threshold n (m.turn p threshold).1
      | none => none

namespace Same

/-- The debugger does the same in the same surroundings. -/
theorem attend (h : m.Same m') : m.attend.1.Same m'.attend.1 ∧ m'.attend.2 = m.attend.2 := by
  rw [Machine.attend, Machine.attend, h.debugger, h.input, h.sink]
  split
  · exact ⟨⟨h.context, rfl, rfl, rfl⟩, rfl⟩
  · exact ⟨h, rfl⟩

/-- Whether a collection is due or not does not matter. -/
theorem collectDue {c c' : Context} (h : ∃ ρ, c.Renamed ρ c') (g g' : Nat) :
    ∃ ρ, (Machine.collectDue g c).Renamed ρ (Machine.collectDue g' c') := by
  -- The two collections are taken one after the other, each with a renaming of its own.
  have hleft : ∃ ρ, (Machine.collectDue g c).Renamed ρ c' := by
    obtain ⟨ρ, h⟩ := h
    rw [Machine.collectDue]
    split
    · exact h.collect_left
    · exact ⟨ρ, h⟩
  have hright : ∀ c₁ : Context, (∃ ρ, c₁.Renamed ρ c') →
      ∃ ρ, c₁.Renamed ρ (Machine.collectDue g' c') := by
    rintro c₁ ⟨ρ, h⟩
    rw [Machine.collectDue]
    split
    · exact h.collect_right
    · exact ⟨ρ, h⟩
  exact hright _ hleft

theorem charge (h : m.Same m') (g g' : Nat) : (m.charge g).Same (m'.charge g') := by
  obtain ⟨ρ, hc⟩ := h.context.renamed
  have hstep : Context.Renamed ρ { m.context with steps := m.context.steps + 1 }
      { m'.context with steps := m'.context.steps + 1 } :=
    { hc with steps := congrArg (· + 1) hc.steps }
  obtain ⟨ρ', hcollected⟩ := collectDue ⟨ρ, hstep⟩ g g'
  exact ⟨hcollected.same, congrArg Debugger.stepTaken h.debugger, h.input, h.sink⟩

theorem advance (h : m.Same m') (hp : p.iterables = [(Iterable.rangeType, Iterable.range)])
    (g g' : Nat) :
    (m.advance p g).1.Same (m'.advance p g').1 ∧ (m'.advance p g').2 = (m.advance p g).2 := by
  obtain ⟨ρ, hc⟩ := h.context.renamed
  have hstep := hc.step hp m.debugger.traceLevel m.sink
  obtain ⟨ρ', hdone⟩ := hstep.context
  have hnext : Machine.Same
      { m with
        context := (m.context.step p m.debugger.traceLevel m.sink).context
        sink := (m.context.step p m.debugger.traceLevel m.sink).sink }
      { m' with
        context := (m'.context.step p m.debugger.traceLevel m.sink).context
        debugger := m.debugger
        sink := (m'.context.step p m.debugger.traceLevel m.sink).sink } :=
    ⟨hdone.same, rfl, h.input, hstep.sink⟩
  unfold Machine.advance
  rw [h.debugger, h.sink]
  dsimp only
  rw [hstep.result]
  split
  · exact ⟨hnext, rfl⟩
  · exact ⟨hnext, rfl⟩
  · exact ⟨hnext.charge g g', rfl⟩

/-- **A turn** is the same for machines that are the same, whatever their thresholds. -/
theorem turn (h : m.Same m') (hp : p.iterables = [(Iterable.rangeType, Iterable.range)])
    (g g' : Nat) :
    (m.turn p g).1.Same (m'.turn p g').1 ∧ (m'.turn p g').2 = (m.turn p g).2 := by
  obtain ⟨hattend, hresult⟩ := h.attend
  unfold Machine.turn
  generalize m.attend = a at hattend hresult ⊢
  generalize m'.attend = a' at hattend hresult ⊢
  obtain ⟨m₁, r⟩ := a
  obtain ⟨m₁', r'⟩ := a'
  dsimp only at hattend hresult
  subst hresult
  cases r' with
  | error e => exact ⟨hattend, rfl⟩
  | ok resume =>
    cases resume with
    | quit => exact ⟨hattend, rfl⟩
    | run => exact hattend.advance hp g g'

theorem isFinished (h : m.Same m') : m'.context.isFinished = m.context.isFinished := by
  obtain ⟨ρ, hc⟩ := h.context.renamed
  exact hc.isFinished

/-- After every number of turns the machines are the same. -/
theorem afterTurns (h : m.Same m') (hp : p.iterables = [(Iterable.rangeType, Iterable.range)])
    (g g' n : Nat) :
    Option.Rel Machine.Same (m.afterTurns p g n) (m'.afterTurns p g' n) := by
  induction n generalizing m m' with
  | zero => exact .some h
  | succ n ih =>
    obtain ⟨hturn, hresult⟩ := h.turn hp g g'
    rw [Machine.afterTurns, Machine.afterTurns, h.isFinished, hresult]
    split
    · exact .none
    · split
      · exact ih hturn
      · exact .none

/-- Two runs end for the same reason, with machines that are the same. -/
def Result (r r' : Machine.Result) : Prop :=
  r.1.Same r'.1 ∧ r'.2 = r.2

/-- Runs with the same fuel end in the same way, or neither ends. -/
theorem run (h : m.Same m') (hp : p.iterables = [(Iterable.rangeType, Iterable.range)])
    (g g' fuel : Nat) (budget : Option Nat) :
    Option.Rel Result (m.run p g fuel budget) (m'.run p g' fuel budget) := by
  induction fuel generalizing m m' budget with
  | zero => exact .none
  | succ fuel ih =>
    by_cases hf : m.context.isFinished
    · rw [run_finished fuel hf, run_finished fuel (h.isFinished.trans hf)]
      exact .some ⟨h, rfl⟩
    · by_cases hb : budget = some 0
      · subst hb
        rw [run_exhausted fuel hf, run_exhausted fuel (h.isFinished ▸ hf)]
        exact .some ⟨h, rfl⟩
      · have hm : ¬m.Halted budget := not_or.2 ⟨hf, hb⟩
        have hm' : ¬m'.Halted budget := not_or.2 ⟨h.isFinished ▸ hf, hb⟩
        obtain ⟨hturn, hresult⟩ := h.turn hp g g'
        rw [run_succ fuel hm, run_succ fuel hm', hresult]
        split
        · exact ih hturn _
        · exact .some ⟨hturn, rfl⟩

theorem runSlices (h : m.Same m') (hp : p.iterables = [(Iterable.rangeType, Iterable.range)])
    (g g' slice sliceFuel fuel : Nat) :
    Option.Rel Result (m.runSlices p g slice sliceFuel fuel)
      (m'.runSlices p g' slice sliceFuel fuel) := by
  induction fuel generalizing m m' with
  | zero => exact .none
  | succ fuel ih =>
    have hrun := h.run hp g g' sliceFuel (some slice)
    rw [Machine.runSlices, Machine.runSlices]
    generalize m.run p g sliceFuel (some slice) = r at hrun ⊢
    generalize m'.run p g' sliceFuel (some slice) = r' at hrun ⊢
    cases hrun with
    | none => exact .none
    | some hr =>
      rename_i r r'
      obtain ⟨m₁, r⟩ := r
      obtain ⟨m₁', r'⟩ := r'
      obtain ⟨hm₁, hr⟩ := hr
      dsimp only at hm₁ hr
      subst hr
      cases r' with
      | error e => exact .some ⟨hm₁, rfl⟩
      | ok o =>
        cases o with
        | suspended => exact ih hm₁
        | finished => exact .some ⟨hm₁, rfl⟩
        | quit => exact .some ⟨hm₁, rfl⟩

theorem drive (h : m.Same m') (hp : p.iterables = [(Iterable.rangeType, Iterable.range)])
    (g g' slice fuel : Nat) :
    Option.Rel Result (m.drive p g slice fuel) (m'.drive p g' slice fuel) := by
  rw [Machine.drive, Machine.drive]
  split
  · exact h.run hp g g' fuel none
  · exact h.runSlices hp g g' slice fuel fuel

end Same

end Machine

/-! ### Sessions -/

namespace Session

variable {p : Program}

/-- The session with another threshold for collections. -/
def withThreshold (g : Nat) (s : Session) : Session :=
  { s with config := { s.config with gcThreshold := g } }

/-- Two sessions are the same after the contexts of earlier runs: their debuggers, inputs and sinks
are the same, and the contexts since then are the same up to a renaming of handles each. -/
structure SameAfter (earlier : List Context) (s s' : Session) : Prop where
  debugger : s'.debugger = s.debugger
  input : s'.input = s.input
  sink : s'.sink = s.sink
  contexts : ∃ cs cs', s.contexts = earlier ++ cs ∧ s'.contexts = earlier ++ cs' ∧
    List.Forall₂ Context.Same cs cs'

/-- A task begins with a context that is the same as itself. -/
theorem start_same (hp : p.iterables = [(Iterable.rangeType, Iterable.range)]) (t : Task)
    (sink : Sink) : ∃ ρ, (t.start p sink).context.Renamed ρ (t.start p sink).context := by
  cases t with
  | module m => exact ⟨_, .start m.body m.scope⟩
  | entry id => exact ((Context.Renamed.start none Program.rootScope).startEntry hp id sink).context

/-- The machines of a task are the same in the same surroundings. -/
theorem taskMachine_same (hp : p.iterables = [(Iterable.rangeType, Iterable.range)]) (t : Task)
    {s s' : Session} (hd : s'.debugger = s.debugger) (hi : s'.input = s.input)
    (hs : s'.sink = s.sink) : (s.taskMachine p t).Same (s'.taskMachine p t) := by
  obtain ⟨ρ, hc⟩ := start_same hp t s.sink
  refine ⟨?_, hd, hi, ?_⟩
  · simp only [taskMachine, machine, hs]
    exact hc.same
  · simp only [taskMachine, machine, begun, hs]

theorem SameAfter.begun {earlier : List Context} {s s' : Session} (h : SameAfter earlier s s')
    (t : Task) : SameAfter earlier (s.begun p t) (s'.begun p t) :=
  ⟨h.debugger, h.input, by rw [Session.begun, Session.begun, h.sink], h.contexts⟩

theorem SameAfter.record {earlier : List Context} {s s' : Session} (h : SameAfter earlier s s')
    {m m' : Machine} (hm : m.Same m') : SameAfter earlier (s.record m) (s'.record m') := by
  obtain ⟨cs, cs', hcs, hcs', hsame⟩ := h.contexts
  refine ⟨hm.debugger, hm.input, hm.sink, cs ++ [m.context], cs' ++ [m'.context], ?_, ?_, ?_⟩
  · simp only [Session.record, hcs, List.append_assoc]
  · simp only [Session.record, hcs', List.append_assoc]
  · exact List.rel_append hsame (.cons hm.context .nil)

/-- Two runs of tasks end with the same status or fault, and leave sessions that are the same. -/
def SameResult (earlier : List Context) (r r' : Result) : Prop :=
  SameAfter earlier r.1 r'.1 ∧ r'.2 = r.2

/-- **Tasks** run in the same way whatever the threshold for collections. -/
theorem runTasks_same (hp : p.iterables = [(Iterable.rangeType, Iterable.range)])
    {earlier : List Context} (fuel : Nat) (ts : List Task) {s s' : Session}
    (h : SameAfter earlier s s') {g : Nat}
    (hconfig : s'.config = { s.config with gcThreshold := g }) :
    Option.Rel (SameResult earlier) (s.runTasks p fuel ts) (s'.runTasks p fuel ts) := by
  induction ts generalizing s s' with
  | nil => exact .some ⟨h, rfl⟩
  | cons t ts ih =>
    have hdrive := (taskMachine_same hp t h.debugger h.input h.sink).drive hp
      s.config.gcThreshold g s.config.timeslice fuel
    have hbegun : SameAfter earlier (s.begun p t) (s'.begun p t) := h.begun t
    rw [runTasks_cons, runTasks_cons, h.sink, hconfig]
    dsimp only
    -- Nothing but the relation of the two results is used from here on.
    generalize (s.taskMachine p t).drive p s.config.gcThreshold s.config.timeslice fuel = r
      at hdrive ⊢
    generalize (s'.taskMachine p t).drive p g s.config.timeslice fuel = r' at hdrive ⊢
    split
    · exact .some ⟨hbegun, rfl⟩
    · cases hdrive with
      | none => exact .none
      | some hr =>
        obtain ⟨hm, hr⟩ := hr
        rw [Option.bind_some, Option.bind_some, hr]
        split
        · exact .some ⟨hbegun.record hm, rfl⟩
        · exact ih (hbegun.record hm) hconfig

/-- A run of tasks that ends with one threshold ends in the same way with any other one. -/
theorem TasksEnd.same (hp : p.iterables = [(Iterable.rangeType, Iterable.range)]) {ts : List Task}
    {s : Session} {g : Nat} {r : Result} (h : (s.withThreshold g).TasksEnd p ts r) (g' : Nat) :
    ∃ r', (s.withThreshold g').TasksEnd p ts r' ∧ SameResult s.contexts r r' := by
  obtain ⟨fuel, h⟩ := h
  have hsame : SameAfter s.contexts (s.withThreshold g) (s.withThreshold g') :=
    ⟨rfl, rfl, rfl, [], [], (List.append_nil _).symm, (List.append_nil _).symm, .nil⟩
  have htasks := runTasks_same hp fuel ts hsame rfl
  rw [h] at htasks
  cases hr' : (s.withThreshold g').runTasks p fuel ts with
  | none => rw [hr'] at htasks; cases htasks
  | some r' =>
    rw [hr'] at htasks
    cases htasks with
    | some hrr => exact ⟨r', ⟨fuel, hr'⟩, hrr⟩

/-- A run of a program that ends with one threshold ends in the same way with any other one. -/
theorem Ends.same (hp : p.iterables = [(Iterable.rangeType, Iterable.range)]) {s : Session}
    {g : Nat} {r : Result} (h : (s.withThreshold g).Ends p r) (g' : Nat) :
    ∃ r', (s.withThreshold g').Ends p r' ∧ SameResult s.contexts r r' := by
  by_cases hrun : s.config.run
  · have hrun' : ∀ g, (s.withThreshold g).config.run = true := fun _ => hrun
    obtain ⟨fuel, h⟩ := h
    rw [run, if_pos (hrun' g)] at h
    obtain ⟨r', ⟨fuel', hr'⟩, hsame⟩ := TasksEnd.same hp ⟨fuel, h⟩ g'
    exact ⟨r', ⟨fuel', by rw [run, if_pos (hrun' g'), hr']⟩, hsame⟩
  · have hrun' : ∀ g, ¬(s.withThreshold g).config.run = true := fun _ => hrun
    obtain ⟨fuel, h⟩ := h
    rw [run, if_neg (hrun' g)] at h
    cases h
    refine ⟨(s.withThreshold g', .ok .skipped), ⟨0, by rw [run, if_neg (hrun' g')]⟩,
      ⟨rfl, rfl, rfl, [], [], ?_, ?_, .nil⟩, rfl⟩
    · exact (List.append_nil _).symm
    · exact (List.append_nil _).symm

end Session

/-- **Collection is invisible.** For every linked program, every session and every two thresholds
for collections, zero meaning that there are none:

* the run of the program ends for both thresholds or for neither;
* when it ends, it ends with the same status or fault, the same sink, input and debugger, and with
  as many contexts, which have taken as many steps, are as deep and are the same up to a one-to-one
  renaming of handles each;
* a task that is reached by both runs, after the same tasks before it, has contexts that are the
  same up to such a renaming after every number of turns. -/
theorem collection_invisible {d : Source.Program} {p : Program} (hp : Program.link d = .ok p)
    (s : Session) (g g' : Nat) :
    ((∃ r, (s.withThreshold g).Ends p r) ↔ ∃ r, (s.withThreshold g').Ends p r) ∧
    (∀ r r', (s.withThreshold g).Ends p r → (s.withThreshold g').Ends p r' →
      r'.2 = r.2 ∧ r.1.SameAfter s.contexts r'.1) ∧
    ∀ (before : List Task) (t : Task) (a b : Session),
      (s.withThreshold g).TasksEnd p before (a, .ok .completed) →
      (s.withThreshold g').TasksEnd p before (b, .ok .completed) →
      ∀ turns, Option.Rel Machine.Same ((a.taskMachine p t).afterTurns p g turns)
        ((b.taskMachine p t).afterTurns p g' turns) := by
  have hiterables := (Program.wellFormed_of_link hp).iterables
  refine ⟨⟨?_, ?_⟩, fun r r' hr hr' => ?_, fun before t a b ha hb turns => ?_⟩
  · rintro ⟨r, hr⟩
    obtain ⟨r', hr', -⟩ := hr.same hiterables g'
    exact ⟨r', hr'⟩
  · rintro ⟨r, hr⟩
    obtain ⟨r', hr', -⟩ := hr.same hiterables g
    exact ⟨r', hr'⟩
  · obtain ⟨r₁, hr₁, hsame, hstatus⟩ := hr.same hiterables g'
    rw [hr'.unique hr₁]
    exact ⟨hstatus, hsame⟩
  · obtain ⟨r₁, hr₁, hsame, -⟩ := ha.same hiterables g'
    obtain rfl : b = r₁.1 := congrArg Prod.fst (hb.unique hr₁)
    have hmachines :=
      Session.taskMachine_same hiterables t hsame.debugger hsame.input hsame.sink
    exact hmachines.afterTurns hiterables g g' turns

/-- A definition that makes a range for each element of another one, and tells whether they are
equal. -/
def Source.Program.ranges : Source.Program where
  modules := [⟨"m", [],
    [.forall ["i"] [.call (.function "range") [.scalar (.int 0), .scalar (.int 2)]]
      [.expr (.call (.function "==") [.call (.function "range") [.var "i", .scalar (.int 9)],
        .call (.function "range") [.var "i", .scalar (.int 9)]])]]⟩]
  entry := none

/-- A session that runs a program without interruptions. -/
def Session.plain : Session :=
  .start ⟨true, false, 0, 0, 0⟩ [] (.ofLimit none)

/-- A collection after every allocation does not show when ranges are made in a loop over a
range. -/
theorem collection_invisible_ranges : ∃ p r r', Program.link .ranges = .ok p ∧
    (Session.plain.withThreshold 1).Ends p r ∧ (Session.plain.withThreshold 0).Ends p r' ∧
    r'.2 = r.2 ∧ r.1.SameAfter [] r'.1 ∧ ∀ t turns, Option.Rel Machine.Same
      (((Session.plain.withThreshold 1).taskMachine p t).afterTurns p 1 turns)
      (((Session.plain.withThreshold 0).taskMachine p t).afterTurns p 0 turns) := by
  have hends : Program.tests .ranges (fun p _ =>
      ((Session.plain.withThreshold 1).run p 100).isSome &&
        ((Session.plain.withThreshold 0).run p 100).isSome) = true := by decide +kernel
  obtain ⟨p, -, hl, -, hends⟩ := Program.exists_of_tests hends
  obtain ⟨h₁, h₀⟩ := Bool.and_eq_true_iff.1 hends
  obtain ⟨r, hr⟩ := Option.isSome_iff_exists.1 h₁
  obtain ⟨r', hr'⟩ := Option.isSome_iff_exists.1 h₀
  obtain ⟨-, hresult, hturns⟩ := collection_invisible hl Session.plain 1 0
  obtain ⟨hstatus, hsame⟩ := hresult r r' ⟨100, hr⟩ ⟨100, hr'⟩
  exact ⟨p, r, r', hl, ⟨100, hr⟩, ⟨100, hr'⟩, hstatus, hsame, fun t turns =>
    hturns [] t _ _ ⟨0, rfl⟩ ⟨0, rfl⟩ turns⟩

end TreeMachine
