import TreeMachine.Proofs.Renaming.Runs
import TreeMachine.Proofs.Run.Events

/-!
# Single steps

A run that is interrupted at its start, and then told to step a number of times, stops once before
each of its first steps: `Paced` says what its log looks like, and `Paced.placed` where each event
stands in it. The proof goes beside a plain run. A debugger has as many stops left as there are
lines that mean to step, and one more (`Debugger.Stops`); a turn uses up a stop if there is one, and
its step gives the next (`Machine.Trail.single_steps`). Neither the end of a slice nor that of a
context is a step, so that a stop which is pending there is kept.

Three things are kept apart. `Debugger.Stops` is about the debugger and its input: what a dialogue
makes of a state with a number of stops left. `Machine.LetsStep` is about a turn: that the debugger
lets the step be taken, and that the turn is otherwise one of the plain machine, with the same
context. `Paced` is about logs, lists of events, and does not mention machines. The run itself is an
induction on the trail of the plain run, for machines first and then for sessions, whose tasks hand
their debugger on to the next one.

A jump is not charged and does not give a stop. So a stop that was asked for before a jump comes
behind the label that the jump leads to, which is what `Event.Placed` says about jumps.

The plain run is one that is neither interrupted nor traced, with no slices and no collections; that
it ends along with the given one, with as many steps, is taken from what is known about observation,
slices and collections. Runs that do not end, and runs that end with a fault, are left out. The main
result is `single_steps_stop`.
-/

namespace TreeMachine

/-! ### Logs of single steps -/

/-- A jump, if there is one. -/
def jumps (jumped : Bool) : List Event :=
  if jumped then [.jump] else []

/-- The log of a run that has some stops left and goes on until there are as many of them as the
last argument says. Each step uses up a stop if there is one: the debugger prompts before it, and
before the jump that leads to it. No context is without steps. -/
inductive Paced : Nat → List Event → Nat → Prop
  | nil (stops : Nat) : Paced stops [] stops
  | begins {stops left : Nat} {e : Event} {log : List Event} (he : e ≠ .begins)
      (h : Paced stops (e :: log) left) : Paced stops (.begins :: e :: log) left
  | stop {stops left : Nat} {log : List Event} (jumped : Bool) (h : Paced stops log left) :
      Paced (stops + 1) (.prompt :: (jumps jumped ++ .step :: log)) left
  | free {left : Nat} {log : List Event} (jumped : Bool) (h : Paced 0 log left) :
      Paced 0 (jumps jumped ++ .step :: log) left

/-- An event of a log that begins with a step, and at most with a jump to it before: it is the jump,
or the step, or comes behind them. -/
theorem cases_of_step {jumped : Bool} {log before after : List Event} {e : Event}
    (heq : jumps jumped ++ .step :: log = before ++ e :: after) :
    (e = .jump ∧ before = [] ∧ after = .step :: log) ∨
      (e = .step ∧ before = jumps jumped ∧ after = log) ∨
      ∃ between, before = jumps jumped ++ .step :: between ∧ log = between ++ e :: after := by
  cases jumped with
  | false =>
    rcases before with _ | ⟨b, before⟩
    · cases heq
      exact .inr (.inl ⟨rfl, rfl, rfl⟩)
    · obtain ⟨rfl, hlater⟩ := List.cons.inj heq
      exact .inr (.inr ⟨before, rfl, hlater⟩)
  | true =>
    rcases before with _ | ⟨b, _ | ⟨b', before⟩⟩
    · cases heq
      exact .inl ⟨rfl, rfl, rfl⟩
    · cases heq
      exact .inr (.inl ⟨rfl, rfl, rfl⟩)
    · obtain ⟨rfl, hstep⟩ := List.cons.inj heq
      obtain ⟨rfl, hlater⟩ := List.cons.inj hstep
      exact .inr (.inr ⟨before, rfl, hlater⟩)

/-- Where an event stands in the log of a run that stops before its first steps, given what comes
before and behind it. A task begins with a prompt when there are stops left. The debugger has
prompted as often as steps were taken before, and a step follows, at most with a jump to it between
them. The step of the label follows at once on a jump. Before a step there was a prompt for each
step up to it, as far as there were stops. -/
def Event.Placed (stops : Nat) (before after : List Event) : Event → Prop
  | .begins => before.count .step < stops → ∃ rest, after = .prompt :: rest
  | .prompt => before.count .prompt = before.count .step ∧
      ∃ jumped rest, after = jumps jumped ++ .step :: rest
  | .jump => ∃ rest, after = .step :: rest
  | .step => before.count .prompt = min (before.count .step + 1) stops

namespace Paced

variable {stops middle left : Nat} {log log' : List Event}

theorem append (h : Paced stops log middle) (h' : Paced middle log' left) :
    Paced stops (log ++ log') left := by
  induction h with
  | nil => exact h'
  | begins he _ ih => exact .begins he (ih h')
  | stop jumped _ ih =>
    rw [List.cons_append, List.append_assoc]
    exact .stop jumped (ih h')
  | free jumped _ ih =>
    rw [List.append_assoc]
    exact .free jumped (ih h')

/-- A step uses up a stop if there is one. -/
theorem step (jumped : Bool) (h : Paced (stops - 1) log left) :
    Paced stops (List.replicate (min stops 1) .prompt ++ (jumps jumped ++ .step :: log)) left := by
  cases stops with
  | zero => exact .free jumped h
  | succ stops =>
    rw [Nat.min_eq_right (Nat.le_add_left 1 stops)]
    exact .stop jumped h

theorem count_step_jumps (jumped : Bool) : (jumps jumped).count .step = 0 := by
  cases jumped <;> rfl

theorem count_prompt_jumps (jumped : Bool) : (jumps jumped).count .prompt = 0 := by
  cases jumped <;> rfl

/-- **The prompts of a log**: one for each step, as far as there are stops. -/
theorem count_prompt (h : Paced stops log left) :
    log.count .prompt = min (log.count .step) stops := by
  induction h with
  | nil => rw [List.count_nil, List.count_nil, Nat.zero_min]
  | begins he _ ih =>
    rw [List.count_cons_of_ne (show Event.begins ≠ .prompt by decide),
      List.count_cons_of_ne (show Event.begins ≠ .step by decide)]
    exact ih
  | stop jumped _ ih =>
    simp only [List.count_cons_self, List.count_append, count_prompt_jumps, count_step_jumps,
      List.count_cons_of_ne (show Event.step ≠ .prompt by decide),
      List.count_cons_of_ne (show Event.prompt ≠ .step by decide), ih]
    omega
  | free jumped _ ih =>
    simp only [List.count_cons_self, List.count_append, count_prompt_jumps, count_step_jumps,
      List.count_cons_of_ne (show Event.step ≠ .prompt by decide), ih]
    omega

/-- While there are stops left, a context begins with a prompt. -/
theorem prompt_first {e : Event} (h : Paced (stops + 1) (e :: log) left) (he : e ≠ .begins) :
    e = .prompt := by
  cases h with
  | begins => exact absurd rfl he
  | stop => rfl

/-- Where an event stands behind a step before which the debugger has stopped. -/
theorem placed_behind_stop {before after : List Event} {e : Event} (jumped : Bool)
    (h : e.Placed stops before after) :
    e.Placed (stops + 1) (.prompt :: (jumps jumped ++ .step :: before)) after := by
  have hsteps : (Event.prompt :: (jumps jumped ++ .step :: before)).count .step =
      before.count .step + 1 := by
    cases jumped <;> simp [jumps]
  have hprompts : (Event.prompt :: (jumps jumped ++ .step :: before)).count .prompt =
      before.count .prompt + 1 := by
    cases jumped <;> simp [jumps]
  unfold Event.Placed at h ⊢
  rw [hsteps, hprompts]
  cases e with
  | begins => exact fun hlt => h (Nat.lt_of_succ_lt_succ hlt)
  | prompt => exact ⟨congrArg (· + 1) h.1, h.2⟩
  | jump => exact h
  | step =>
    dsimp only at h ⊢
    omega

/-- Where an event stands behind a step when there are no stops left. -/
theorem placed_behind_free {before after : List Event} {e : Event} (jumped : Bool)
    (h : e.Placed 0 before after) (he : e ≠ .prompt) :
    e.Placed 0 (jumps jumped ++ .step :: before) after := by
  have hprompts : (jumps jumped ++ Event.step :: before).count .prompt =
      before.count .prompt := by
    cases jumped <;> simp [jumps]
  unfold Event.Placed at h ⊢
  rw [hprompts]
  cases e with
  | begins => exact nofun
  | prompt => exact absurd rfl he
  | jump => exact h
  | step =>
    dsimp only at h ⊢
    omega

/-- **Where the events of a log stand**, by induction on the log. -/
theorem placed (h : Paced stops log left) {before after : List Event} {e : Event}
    (heq : log = before ++ e :: after) : e.Placed stops before after := by
  induction h generalizing before with
  | nil => simp at heq
  | @begins stops left e' log he h ih =>
    rcases before with _ | ⟨b, before⟩
    · cases heq
      intro hlt
      obtain ⟨n, rfl⟩ : ∃ n, stops = n + 1 := Nat.exists_eq_succ_of_ne_zero (Nat.ne_of_gt hlt)
      rw [h.prompt_first he]
      exact ⟨log, rfl⟩
    · obtain ⟨rfl, hrest⟩ := List.cons.inj heq
      have hplaced := ih hrest
      cases e <;> simpa [Event.Placed] using hplaced
  | @stop stops left log jumped h ih =>
    rcases before with _ | ⟨b, before⟩
    · cases heq
      exact ⟨rfl, jumped, log, rfl⟩
    · obtain ⟨rfl, hrest⟩ := List.cons.inj heq
      rcases cases_of_step hrest with
        ⟨rfl, rfl, rfl⟩ | ⟨rfl, rfl, rfl⟩ | ⟨between, rfl, hlater⟩
      · exact ⟨log, rfl⟩
      · simp [Event.Placed, count_prompt_jumps, count_step_jumps]
      · exact placed_behind_stop jumped (ih hlater)
  | @free left log jumped h ih =>
    rcases cases_of_step heq with ⟨rfl, rfl, rfl⟩ | ⟨rfl, rfl, rfl⟩ | ⟨between, rfl, hlater⟩
    · exact ⟨log, rfl⟩
    · exact (count_prompt_jumps jumped).trans (Nat.min_zero _).symm
    · refine placed_behind_free jumped (ih hlater) ?_
      -- No prompt is left, so there is none behind the first step either.
      rintro rfl
      have hcount := h.count_prompt
      rw [Nat.min_zero, hlater, List.count_append, List.count_cons_self] at hcount
      omega

end Paced

/-! ### Stops of the debugger -/

namespace Debugger

/-- Lines that each mean to step, behind others. -/
def Stepping (past lines : List String) : Prop :=
  ∀ before line after, lines = before ++ line :: after →
    meaning (past ++ before) line = some .step

/-- Input behind which the run goes on for good: there is none, or a line that means to
continue. -/
def Resumes (past rest : List String) : Prop :=
  rest = [] ∨ ∃ line more, rest = line :: more ∧ meaning past line = some .continue

/-- The number of stops that a debugger has left: none when it neither has an interrupt pending nor
is stepping, and otherwise one for each line that means to step, and one more. -/
inductive Stops : Debugger → List Line → Nat → Prop
  | free {d : Debugger} {input : List Line} (hinterrupted : d.interrupted = false)
      (hstep : d.singleStep = false) : Stops d input 0
  | stopped {d : Debugger} {past lines rest : List String} (hinterrupted : d.interrupted = true)
      (hpast : d.Remembers past) (hlines : Stepping past lines)
      (hrest : Resumes (past ++ lines) rest) :
      Stops d ((lines ++ rest).map .text) (lines.length + 1)

theorem Stepping.head {past lines : List String} {line : String}
    (h : Stepping past (line :: lines)) : meaning past line = some .step := by
  have hline := h [] line lines rfl
  rwa [List.append_nil] at hline

theorem Stepping.tail {past lines : List String} {line : String}
    (h : Stepping past (line :: lines)) : Stepping (past ++ [line]) lines := by
  intro before next after heq
  have hnext := h (line :: before) next after (by rw [heq]; rfl)
  rwa [List.append_cons] at hnext

/-- A debugger that is left to itself: what becomes of it with the next step has some stops left. -/
structure Released (d : Debugger) (input : List Line) (stops : Nat) : Prop where
  interrupted : d.interrupted = false
  next : d.stepTaken.Stops input stops

theorem released_of_free {d : Debugger} {input : List Line} (hinterrupted : d.interrupted = false)
    (hstep : d.singleStep = false) : d.Released input 0 := by
  have hsame : d.stepTaken = d := by
    unfold stepTaken
    rw [hstep]
    rfl
  exact ⟨hinterrupted, by rw [hsame]; exact .free hinterrupted hstep⟩

/-- What a dialogue that uses up a stop comes to. -/
structure Stopped (sink : Sink) (stops : Nat) (done : Dialogue) : Prop where
  result : done.result = .ok .run
  limit : done.sink.limit = none
  prompts : done.sink.prompts = sink.prompts + 1
  released : done.debugger.Released done.input stops

/-- **A dialogue uses up a stop.** -/
theorem Stops.interact {d : Debugger} {input : List Line} {stops : Nat}
    (h : d.Stops input (stops + 1)) {sink : Sink} (hsink : sink.limit = none) :
    Stopped sink stops (d.interact sink input) := by
  generalize hstops : stops + 1 = n at h
  cases h with
  | free => cases hstops
  | @stopped past lines rest hinterrupted hpast hlines hrest =>
    obtain rfl := Nat.succ.inj hstops
    have henter : d.enter.Remembers past := hpast
    unfold Debugger.interact
    cases lines with
    | nil =>
      rw [List.append_nil] at hrest
      rw [List.nil_append]
      rcases hrest with rfl | ⟨line, more, rfl, hcontinue⟩
      · rw [List.map_nil, converse_nil hsink]
        exact ⟨rfl, hsink, prompts_end sink, released_of_free rfl rfl⟩
      · obtain ⟨hresume, hdebugger⟩ := henter.respond line
        rw [List.map_cons, converse_cons hsink]
        rw [hcontinue] at hresume hdebugger
        simp only [hresume]
        refine ⟨rfl, hsink, prompts_exchange sink _ line, released_of_free ?_ ?_⟩
        · rw [hdebugger]
          rfl
        · rw [hdebugger]
          rfl
    | cons line lines =>
      obtain ⟨hresume, hdebugger⟩ := henter.respond line
      rw [List.cons_append, List.map_cons, converse_cons hsink]
      rw [hlines.head] at hresume hdebugger
      simp only [hresume]
      refine ⟨rfl, hsink, prompts_exchange sink _ line, ?_, ?_⟩
      · rw [hdebugger]
        rfl
      · rw [List.append_cons] at hrest
        refine .stopped ?_ ?_ hlines.tail hrest
        · rw [hdebugger]
          rfl
        · rw [hdebugger]
          rfl

end Debugger

/-! ### Turns of a machine that stops -/

namespace Machine

variable {p : Program} {B : Option FnId → StmtId → Prop} {threshold : Nat}
  {m₀ m m₁ : Machine} {stops : Nat}

/-- The debugger lets a step be taken, after some prompts. What becomes of it with the step has some
stops left. -/
structure LetsStep (m m₁ : Machine) (prompts stops : Nat) : Prop where
  attend : m.attend = (m₁, .ok .run)
  prompts : m₁.sink.prompts = m.sink.prompts + prompts
  released : m₁.debugger.Released m₁.input stops

theorem letsStep_of_released (h : m.debugger.Released m.input stops) : m.LetsStep m 0 stops := by
  refine ⟨?_, rfl, h⟩
  unfold Machine.attend
  rw [h.interrupted]
  rfl

/-- A pending interrupt is attended to, if there is one. -/
theorem letsStep_of_stops (h : m.debugger.Stops m.input stops) (hsink : m.sink.limit = none) :
    ∃ m₁, m.LetsStep m₁ (min stops 1) (stops - 1) := by
  cases stops with
  | zero =>
    generalize hinput : m.input = input at h
    cases h with
    | free hinterrupted hstep =>
      exact ⟨m, letsStep_of_released (Debugger.released_of_free hinterrupted hstep)⟩
  | succ stops =>
    have hinterrupted : m.debugger.interrupted = true := by
      generalize m.input = input at h
      cases h with
      | stopped hinterrupted => exact hinterrupted
    obtain ⟨hresult, -, hprompts, hreleased⟩ := h.interact hsink
    refine ⟨⟨m.context, (m.debugger.interact m.sink m.input).debugger,
      (m.debugger.interact m.sink m.input).input, (m.debugger.interact m.sink m.input).sink⟩,
      ?_, ?_, hreleased⟩
    · unfold Machine.attend
      rw [if_pos hinterrupted]
      dsimp only
      rw [hresult]
    · rw [Nat.min_eq_right (Nat.le_add_left 1 stops)]
      exact hprompts

/-- What the debugger has become of with a step. -/
theorem advance_debugger (p : Program) (threshold : Nat) (m : Machine) :
    ((m.advance p threshold).2 = .ok .charged →
      (m.advance p threshold).1.debugger = m.debugger.stepTaken) ∧
    ((m.advance p threshold).2 = .ok .free → (m.advance p threshold).1.debugger = m.debugger) ∧
    (m.advance p threshold).2 ≠ .ok .quit := by
  unfold advance
  dsimp only
  split
  · exact ⟨nofun, nofun, nofun⟩
  · exact ⟨nofun, fun _ => rfl, nofun⟩
  · exact ⟨fun _ => rfl, nofun, nofun⟩

/-- **A turn in which the debugger lets a step be taken**, beside the turn of a plain machine. -/
theorem LetsStep.turn {prompts : Nat} (h : m.LetsStep m₁ prompts stops) (p : Program)
    (threshold : Nat) (hplain : m₀.PlainOf m) :
    (m₀.turn p threshold).2 = (m.turn p threshold).2 ∧
    (m₀.turn p threshold).1.PlainOf (m.turn p threshold).1 ∧
    ((m.turn p threshold).2 = .ok .charged →
      m.events p threshold = List.replicate prompts .prompt ++ [.step] ∧
      (m.turn p threshold).1.debugger.Stops (m.turn p threshold).1.input stops) ∧
    ((m.turn p threshold).2 = .ok .free →
      m.events p threshold = List.replicate prompts .prompt ++ [.jump] ∧
      (m.turn p threshold).1.debugger.Released (m.turn p threshold).1.input stops) := by
  obtain ⟨hattend, hprompts, hreleased⟩ := h
  have hturn : m.turn p threshold = m₁.advance p threshold := by
    unfold Machine.turn
    rw [hattend]
  have hcount : m.attend.1.sink.prompts - m.sink.prompts = prompts := by
    rw [hattend, hprompts]
    exact Nat.add_sub_cancel_left _ _
  have hinput := (advance_aside p threshold m₁).1
  obtain ⟨hcharged, hfree, hquit⟩ := advance_debugger p threshold m₁
  unfold events
  rw [hcount]
  rcases @PlainOf.turn p threshold _ _ hplain with ⟨hsame, hafter⟩ | ⟨hend, -⟩
  · rw [hturn] at hsame hafter ⊢
    refine ⟨hsame, hafter, fun hr => ⟨?_, ?_⟩, fun hr => ⟨?_, ?_⟩⟩
    · rw [hr]
    · rw [hcharged hr, hinput]
      exact hreleased.next
    · rw [hr]
    · rw [hfree hr, hinput]
      exact hreleased
  · rw [hturn] at hend
    exact absurd hend hquit

/-- **Single steps of a machine**, by induction on the trail of a plain machine beside it. The
second part is for a machine that is at the label to which it has jumped. -/
theorem Trail.single_steps (hp : p.WellFormed) (hB : p.Regions B) {m₀ m₀' : Machine}
    {log₀ : List Event} (h : m₀.Trail p threshold log₀ m₀') :
    (∀ (m : Machine) (stops : Nat), m₀.PlainOf m → m.context.Mirrors p B →
      m.debugger.Stops m.input stops →
      ∃ log m' left, m.Trail p threshold log m' ∧ m₀'.PlainOf m' ∧
        m'.debugger.Stops m'.input left ∧ Paced stops log left) ∧
    ∀ (m : Machine) (stops : Nat), m₀.PlainOf m → m.context.Mirrors p B →
      m.context.AtLabel p → m.debugger.Released m.input stops →
      ∃ log m' left, m.Trail p threshold (.step :: log) m' ∧ m₀'.PlainOf m' ∧
        m'.debugger.Stops m'.input left ∧ Paced stops log left := by
  induction h with
  | @finished m₀ hm₀ =>
    refine ⟨fun m stops hplain _ hstops => ?_, fun m stops hplain _ hlabel _ => ?_⟩
    · have hm : m.context.isFinished = true := hplain.isFinished ▸ hm₀
      exact ⟨[], m, stops, .finished hm, hplain, hstops, .nil stops⟩
    · obtain ⟨f, callers, hframes, -⟩ := hlabel
      have hm : m.context.isFinished = true := hplain.isFinished ▸ hm₀
      rw [Context.isFinished, hframes] at hm
      cases hm
  | @turn m₀ m₀' log₀ hm₀ hturn₀ _ ih =>
    refine ⟨fun m stops hplain hmirrors hstops => ?_,
      fun m stops hplain hmirrors hlabel hnext => ?_⟩
    · have hm : ¬m.context.isFinished = true := hplain.isFinished ▸ hm₀
      obtain ⟨m₁, hlets⟩ := letsStep_of_stops hstops hplain.sink.unlimited'
      obtain ⟨hsame, hafter, hcharged, hfree⟩ := hlets.turn p threshold hplain
      have hmirrors' := turn_mirrors hp hB hmirrors threshold false
      have hturn : m.GoesOn p threshold := by
        unfold GoesOn
        rw [← hsame]
        exact hturn₀
      rcases hturn with hr | hr
      · obtain ⟨hevents, hstops'⟩ := hcharged hr
        obtain ⟨log, m', left, htrail, hplain', hleft, hpaced⟩ :=
          ih.1 _ _ hafter hmirrors' hstops'
        refine ⟨_, m', left, .turn hm (.inl hr) htrail, hplain', hleft, ?_⟩
        rw [hevents, List.append_assoc]
        exact hpaced.step false
      · obtain ⟨hevents, hreleased⟩ := hfree hr
        have hlabel := turn_free hp hmirrors hr
        obtain ⟨log, m', left, htrail, hplain', hleft, hpaced⟩ :=
          ih.2 _ _ hafter hmirrors' hlabel hreleased
        refine ⟨_, m', left, .turn hm (.inr hr) htrail, hplain', hleft, ?_⟩
        rw [hevents, List.append_assoc]
        exact hpaced.step true
    · have hm : ¬m.context.isFinished = true := hplain.isFinished ▸ hm₀
      obtain ⟨hsame, hafter, hcharged, -⟩ :=
        (letsStep_of_released hnext).turn p threshold hplain
      have hmirrors' := turn_mirrors hp hB hmirrors threshold false
      have hr : (m.turn p threshold).2 = .ok .charged := by
        rw [GoesOn, hsame] at hturn₀
        exact hturn₀.resolve_right (turn_label hp hB hmirrors hlabel)
      obtain ⟨hevents, hstops⟩ := hcharged hr
      obtain ⟨log, m', left, htrail, hplain', hleft, hpaced⟩ := ih.1 _ _ hafter hmirrors' hstops
      refine ⟨log, m', left, ?_, hplain', hleft, hpaced⟩
      have hall := Trail.turn hm (.inl hr) htrail
      rw [hevents] at hall
      exact hall

/-- **A plain machine goes along with every completed run**, by induction on the trail. -/
theorem Trail.plain {log : List Event} {m' : Machine} (h : m.Trail p threshold log m')
    (hplain : m₀.PlainOf m) :
    ∃ log₀ m₀', m₀.Trail p threshold log₀ m₀' ∧ m₀'.PlainOf m' := by
  induction h generalizing m₀ with
  | @finished m hm =>
    have hm₀ : m₀.context.isFinished = true := hplain.isFinished ▸ hm
    exact ⟨[], m₀, .finished hm₀, hplain⟩
  | @turn m m' log hm hturn _ ih =>
    have hm₀ : ¬m₀.context.isFinished = true := hplain.isFinished ▸ hm
    rcases @PlainOf.turn p threshold _ _ hplain with ⟨hsame, hafter⟩ | ⟨hend, -⟩
    · obtain ⟨log₀, m₀', htrail, hplain'⟩ := ih hafter
      refine ⟨_, m₀', .turn hm₀ ?_ htrail, hplain'⟩
      unfold GoesOn
      rw [hsame]
      exact hturn
    · rcases hturn with hr | hr
      all_goals
        rw [hend] at hr
        cases hr

/-- A turn that goes on has an event, and its first one is not the begin of a task. -/
theorem exists_events (h : m.GoesOn p threshold) :
    ∃ e rest, m.events p threshold = e :: rest ∧ e ≠ .begins := by
  unfold events
  cases m.attend.1.sink.prompts - m.sink.prompts with
  | zero =>
    rcases h with hr | hr
    all_goals
      rw [hr]
      exact ⟨_, [], rfl, by decide⟩
  | succ n => exact ⟨.prompt, _, rfl, by decide⟩

theorem Trail.exists_first {log : List Event} {m' : Machine} (h : m.Trail p threshold log m')
    (hm : ¬m.context.isFinished = true) : ∃ e rest, log = e :: rest ∧ e ≠ .begins := by
  cases h with
  | finished hfinished => exact absurd hfinished hm
  | @turn _ _ log _ hturn _ =>
    obtain ⟨e, rest, hevents, he⟩ := exists_events hturn
    exact ⟨e, rest ++ log, by rw [hevents]; rfl, he⟩

end Machine

/-! ### Sessions that stop -/

namespace Session

variable {p : Program} {s₀ s₀' s s' : Session} {ts : List Task} {log : List Event}

/-- A session beside another one: it has the same contexts, it is neither interrupted nor traced,
and it has written what the program has written to the sink of the other one. -/
structure PlainOf (s₀ s : Session) : Prop where
  quiet : s₀.debugger.Quiet
  input : ∃ script : List String, s.input = script.map .text
  sink : s₀.sink.PlainOf s.sink
  contexts : s₀.contexts = s.contexts
  threshold : s₀.config.gcThreshold = s.config.gcThreshold

/-- The start of a task has the same effect with a plain sink. -/
theorem start_plain {sink sink' : Sink} (h : sink.PlainOf sink') (t : Task) :
    (t.start p sink).PlainOf (t.start p sink') := by
  cases t with
  | module m => exact ⟨rfl, rfl, h⟩
  | entry id =>
    unfold Task.start Context.startEntry
    split
    · exact ⟨rfl, rfl, h⟩
    · exact Context.invoke_plain h 1 _

theorem PlainOf.taskMachine (h : s₀.PlainOf s) (t : Task) :
    (s₀.taskMachine p t).PlainOf (s.taskMachine p t) := by
  have hstart := start_plain (p := p) h.sink t
  exact ⟨hstart.context, h.quiet, h.input, hstart.sink⟩

theorem PlainOf.record (h : s₀.PlainOf s) (t : Task) {m₀ m : Machine} (hm : m₀.PlainOf m) :
    ((s₀.begun p t).record m₀).PlainOf ((s.begun p t).record m) := by
  refine ⟨hm.quiet, hm.input, hm.sink, ?_, h.threshold⟩
  unfold Session.record begun
  rw [h.contexts, hm.context]

/-- The plain session beside another one. -/
def unobserved (s : Session) : Session :=
  { s with debugger := .start 0 false, input := [], sink := ⟨none, s.sink.output, s.sink.size⟩ }

theorem unobserved_plainOf (script : List String) (hinput : s.input = script.map .text)
    (hsink : s.sink.limit = none) : s.unobserved.PlainOf s :=
  ⟨⟨rfl, rfl, rfl⟩, ⟨script, hinput⟩, ⟨rfl, hsink, rfl⟩, rfl, rfl⟩

/-- **A plain session goes along with every completed run.** -/
theorem Trail.plain (h : s.Trail p ts log s') (hplain : s₀.PlainOf s) :
    ∃ log₀ s₀', s₀.Trail p ts log₀ s₀' ∧ s₀'.PlainOf s' := by
  induction h generalizing s₀ with
  | nil s => exact ⟨[], s₀, .nil s₀, hplain⟩
  | @task t ts s s' m log log' hstart hm _ ih =>
    have hresult := (start_plain (p := p) hplain.sink t).result
    obtain ⟨log₀, m₀, htrail, hm₀⟩ := hm.plain (hplain.taskMachine t)
    rw [← hplain.threshold] at htrail
    obtain ⟨log₀', s₀', htrail', hplain'⟩ := ih (hplain.record t hm₀)
    exact ⟨_, s₀', .task (hresult.trans hstart) htrail htrail', hplain'⟩

/-- A task of a program starts in one of its contexts, with an activation. -/
theorem starts_of_task {t : Task} (ht : t ∈ p.tasks) {sink : Sink}
    (hok : (t.start p sink).result = .ok ()) :
    (∃ outer, (t.start p sink).context.Starts p outer) ∧
      ¬(t.start p sink).context.isFinished = true := by
  rcases List.mem_append.1 ht with ht | ht
  · obtain ⟨m, hm, rfl⟩ := List.mem_map.1 ht
    exact ⟨⟨m.body, .forModule (Array.mem_toList_iff.1 hm)⟩, Bool.false_ne_true⟩
  · obtain ⟨id, -, rfl⟩ := List.mem_map.1 ht
    refine ⟨⟨none, .startEntry hok⟩, fun hfinished => ?_⟩
    exact Context.invoke_frames_ne_nil rfl 1 sink (List.isEmpty_iff.1 hfinished)

/-- **Single steps of a session**, by induction on the tasks. -/
theorem Trail.single_steps {d : Source.Program} (hlink : Program.link d = .ok p)
    (hts : ∀ t ∈ ts, t ∈ p.tasks) {log₀ : List Event} (h : s₀.Trail p ts log₀ s₀')
    (hplain : s₀.PlainOf s) {stops : Nat} (hstops : s.debugger.Stops s.input stops) :
    ∃ log s' left, s.Trail p ts log s' ∧ s₀'.PlainOf s' ∧ Paced stops log left := by
  have hp := Program.wellFormed_of_link hlink
  induction h generalizing s stops with
  | nil s₀ => exact ⟨[], s, stops, .nil s, hplain, .nil stops⟩
  | @task t ts s₀ s₀' m₀ log₀ log₀' hstart₀ hm₀ _ ih =>
    have hstart : (t.start p s.sink).result = .ok () :=
      (start_plain (p := p) hplain.sink t).result.symm.trans hstart₀
    obtain ⟨⟨outer, hstarts⟩, hunfinished⟩ := starts_of_task (hts t (.head ts)) hstart
    obtain ⟨hregions, hmirrors⟩ := hstarts.mirrors hp (Program.apart_of_link hlink)
    -- The context runs first, with the stops that are left; the other tasks have what remains.
    obtain ⟨log, m, middle, htrail, hm, hmiddle, hpaced⟩ :=
      (hm₀.single_steps hp hregions).1 (s.taskMachine p t) stops (hplain.taskMachine t) hmirrors
        hstops
    obtain ⟨log', s', left, htrail', hplain', hpaced'⟩ :=
      ih (fun t ht => hts t (.tail _ ht)) (hplain.record t hm) hmiddle
    obtain ⟨e, rest, rfl, he⟩ := htrail.exists_first hunfinished
    rw [hplain.threshold] at htrail
    exact ⟨_, s', left, .task hstart htrail htrail', hplain', .begins he (hpaced.append hpaced')⟩

/-- Another threshold for collections does not change how many steps are taken. -/
theorem SameAfter.steps (h : SameAfter [] s s') : s'.steps = s.steps := by
  obtain ⟨cs, cs', hcs, hcs', hsame⟩ := h.contexts
  have hmap : cs'.map Context.steps = cs.map Context.steps := by
    clear hcs hcs'
    induction hsame with
    | nil => rfl
    | cons hc _ ih => rw [List.map_cons, List.map_cons, hc.steps, ih]
  unfold Session.steps
  rw [hcs, hcs', List.nil_append, List.nil_append, hmap]

end Session

/-- **Single stepping stops before each step.** Let a linked program be run to its end, with `T`
steps in all its contexts; whatever the configuration, and whatever input that can be read. Then a
run that is interrupted at its start, at any trace level, in slices of any length and with any
threshold for collections, with a number of lines that each mean to step, and behind them a line
that means to continue or none, comes to its end as well.

* It takes `T` steps, and the debugger prompts once before each of them, as far as there are lines
  that mean to step, and once more.
* In the log of the run every event stands where it has to (`Event.Placed`): when the debugger
  prompts, it has done so for each step before; it does not prompt between a jump and the step of
  the label; and where a task begins, it prompts first if it has not yet been told to continue. -/
theorem single_steps_stop {d : Source.Program} {p : Program} (hlink : Program.link d = .ok p)
    {config₀ : Config} {input₀ : List String} {sink : Sink} (hsink : sink.limit = none)
    {s₀ : Session}
    (hends : (Session.start config₀ (input₀.map .text) sink).Ends p (s₀, .ok .completed))
    {config : Config} (hrun : config.run = true) (hinterrupt : config.interrupt = true)
    {lines rest : List String} (hlines : Debugger.Stepping [] lines)
    (hrest : Debugger.Resumes lines rest) :
    ∃ s log,
      (Session.start config ((lines ++ rest).map .text) sink).Ends p (s, .ok .completed) ∧
      (Session.start config ((lines ++ rest).map .text) sink).Trail p p.tasks log s ∧
      s.steps = s₀.steps ∧
      s.sink.prompts = sink.prompts + min s₀.steps (lines.length + 1) ∧
      log.count .step = s₀.steps ∧
      log.count .prompt = min s₀.steps (lines.length + 1) ∧
      ∀ before e after, log = before ++ e :: after → e.Placed (lines.length + 1) before after := by
  -- The run that is given does not depend on its threshold, so let it be that of the other one.
  have hiterables := (Program.wellFormed_of_link hlink).iterables
  obtain ⟨⟨s₁, status⟩, hends₁, hsame, hstatus⟩ :=
    Session.Ends.same (s := .start config₀ (input₀.map .text) sink) (g := config₀.gcThreshold)
      hiterables hends config.gcThreshold
  cases hstatus
  have hsteps₁ : s₁.steps = s₀.steps := hsame.steps
  have hrun₁ := hends₁.run_of_completed
  obtain ⟨log₁, htrail₁⟩ := (Session.ends_iff_trail hrun₁).1 hends₁
  -- The plain session beside it is also beside the one that stops.
  obtain ⟨log₂, s₂, htrail₂, hplain₂⟩ :=
    htrail₁.plain (Session.unobserved_plainOf input₀ rfl hsink)
  have hplain : (Session.unobserved ((Session.start config₀ (input₀.map .text) sink).withThreshold
      config.gcThreshold)).PlainOf (.start config ((lines ++ rest).map .text) sink) :=
    ⟨⟨rfl, rfl, rfl⟩, ⟨lines ++ rest, rfl⟩, ⟨rfl, hsink, rfl⟩, rfl, rfl⟩
  have hpast : (Debugger.start config.traceLevel config.interrupt).Remembers [] := rfl
  obtain ⟨log, s, left, htrail, hplain', hpaced⟩ :=
    htrail₂.single_steps hlink (fun _ ht => ht) hplain (.stopped hinterrupt hpast hlines hrest)
  have hsteps : s.steps = s₀.steps := by
    unfold Session.steps at hsteps₁ ⊢
    rw [← hplain'.contexts, hplain₂.contexts, hsteps₁]
  have hcount : log.count .step = s₀.steps := by
    have hcounts := htrail.steps
    rw [hsteps] at hcounts
    exact (hcounts.trans (Nat.zero_add _)).symm
  have hprompts := hpaced.count_prompt
  rw [hcount] at hprompts
  refine ⟨s, log, (Session.ends_iff_trail hrun).2 ⟨log, htrail⟩, htrail, hsteps, ?_, hcount,
    hprompts, fun before e after heq => hpaced.placed heq⟩
  rw [htrail.prompts, hprompts]
  rfl

/-- A definition with two modules, of which the first one jumps to a label and the second one is
empty. -/
def Source.Program.relaying : Source.Program where
  modules := [⟨"a", [], [.goto "on", .label "on"]⟩, ⟨"b", [], []⟩]
  entry := none

/-- Two single steps end the first context, and the run stops for the third time in the second one,
before its only step. -/
theorem single_steps_stop_relaying : ∃ p s₀, Program.link .relaying = .ok p ∧
    (Sink.ofLimit none).limit = none ∧
    (Session.start .default [] (.ofLimit none)).Ends p (s₀, .ok .completed) ∧ s₀.steps = 3 ∧
    Debugger.Stepping [] ["st\n", "\n"] ∧ Debugger.Resumes ["st\n", "\n"] ["c\n"] ∧
    ∃ s log, (Session.start ⟨true, true, 1, 1, 1⟩ (["st\n", "\n", "c\n"].map .text)
        (.ofLimit none)).Ends p (s, .ok .completed) ∧
      (Session.start ⟨true, true, 1, 1, 1⟩ (["st\n", "\n", "c\n"].map .text)
        (.ofLimit none)).Trail p p.tasks log s ∧
      s.steps = 3 ∧ s.sink.prompts = 3 ∧ log.count .step = 3 ∧ log.count .prompt = 3 ∧
      ∀ before e after, log = before ++ e :: after → e.Placed 3 before after := by
  have htests : Program.tests .relaying (fun p _ =>
      ((Session.start .default [] (.ofLimit none)).run p 9).any fun r =>
        decide (r.2.toOption = some .completed) && decide (r.1.steps = 3)) = true := by
    decide +kernel
  obtain ⟨p, -, hlink, -, htest⟩ := Program.exists_of_tests htests
  obtain ⟨⟨s₀, status⟩, hrun, htest⟩ := (Option.any_eq_true _ _).1 htest
  obtain ⟨hstatus, hsteps⟩ := Bool.and_eq_true_iff.1 htest
  obtain rfl : status = .ok .completed :=
    Except.eq_ok_of_toOption (of_decide_eq_true hstatus)
  have hsteps : s₀.steps = 3 := of_decide_eq_true hsteps
  have hends : (Session.start .default ([].map .text) (.ofLimit none)).Ends p
      (s₀, .ok .completed) := ⟨9, hrun⟩
  have hlines : Debugger.Stepping [] ["st\n", "\n"] := by
    intro before line after heq
    rcases before with _ | ⟨b, _ | ⟨b', before⟩⟩
    · cases heq
      decide +kernel
    · cases heq
      decide +kernel
    · simp at heq
  have hrest : Debugger.Resumes ["st\n", "\n"] ["c\n"] :=
    .inr ⟨"c\n", [], rfl, by decide +kernel⟩
  have hwanted : Config.run ⟨true, true, 1, 1, 1⟩ = true := rfl
  obtain ⟨s, log, hall⟩ := single_steps_stop hlink rfl hends hwanted rfl hlines hrest
  rw [hsteps] at hall
  exact ⟨p, s₀, hlink, rfl, hends, hsteps, hlines, hrest, s, log, hall⟩

end TreeMachine
