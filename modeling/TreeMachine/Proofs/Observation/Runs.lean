import TreeMachine.Proofs.Linking.Programs
import TreeMachine.Proofs.Observation.Dialogues
import TreeMachine.Proofs.Run.Fuel

/-!
# Observing a run does not change it

A run may be interrupted before any turn, and traced at any level. Such a run is followed turn by
turn (`Machine.follow`), beside a plain one that is neither interrupted nor traced. After every
number of turns both machines have the same context, and the plain one has written what is left of
the other's output without the trace and the dialogues (`Machine.PlainOf`); unless a dialogue has
ended the observed run, with a quit command (`observation_invisible`).

Interrupts come from outside, at any time. They are given as a function of the number of the turn,
and are raised before it. To follow a run is to take a number of turns and to tell whether, and how,
the run has ended on the way. Unlike a run with fuel it has a result for every number, so that the
two machines can be compared also where neither of them comes to an end. Without interrupts the
results are those of the run (`Machine.ends_iff_follow`).

What a dialogue does to a machine is read, remember and write, and it may stop the run: it leaves
the context alone. So a turn is the same for both machines unless it begins with a dialogue that
quits (`Machine.PlainOf.turn`), and the main result is an induction on the number of turns. In that
case the interrupt and the lines up to the quit command are given along with it (`Machine.QuitsTo`).

Input that cannot be read, and sinks with a limit, are left out. Both end a run early for a reason
that the plain run does not have.
-/

namespace TreeMachine

namespace Machine

/-! ### Following a run -/

/-- Raises an interrupt, if there is one to raise. -/
def signal (raised : Bool) (m : Machine) : Machine :=
  if raised then { m with debugger := m.debugger.interrupt } else m

/-- Follows a run for a number of turns. Interrupts are raised before the turns for which `signals`
says so. Gives the machine after these turns, or at the end of the run, and how the run has ended,
if it has. -/
def follow (p : Program) (threshold : Nat) (signals : Nat → Bool) (turns : Nat)
    (budget : Option Nat) (m : Machine) : Machine × Option (Except Fault Outcome) :=
  if m.context.isFinished then (m, some (.ok .finished))
  else if budget = some 0 then (m, some (.ok .suspended))
  else
    match turns with
    | 0 => (m, none)
    | turns + 1 =>
      let done := (m.signal (signals 0)).turn p threshold
      match budgetAfter budget done.2 with
      | some rest => done.1.follow p threshold (fun k => signals (k + 1)) turns rest
      | none => (done.1, some (endOfTurn done.2))

/-- No interrupts. -/
def never (_ : Nat) : Bool :=
  false

variable {p : Program} {threshold : Nat} {m m' : Machine} {budget : Option Nat}
  {signals : Nat → Bool} {turns : Nat}

theorem follow_halted (h : m.Halted budget) :
    m.follow p threshold signals turns budget = (m, some (.ok m.halting)) := by
  by_cases hf : m.context.isFinished
  · rw [follow.eq_def, if_pos hf, halting, if_pos hf]
  · obtain rfl := h.resolve_left hf
    rw [follow.eq_def, if_neg hf, if_pos rfl, halting, if_neg hf]

theorem follow_zero (h : ¬m.Halted budget) :
    m.follow p threshold signals 0 budget = (m, none) := by
  rw [follow, if_neg fun hf => h (.inl hf), if_neg fun hb => h (.inr hb)]

/-- **One turn of a run that is followed**, from a machine that is not halted. -/
theorem follow_succ (h : ¬m.Halted budget) :
    m.follow p threshold signals (turns + 1) budget =
      match budgetAfter budget ((m.signal (signals 0)).turn p threshold).2 with
      | some rest => ((m.signal (signals 0)).turn p threshold).1.follow p threshold
          (fun k => signals (k + 1)) turns rest
      | none => (((m.signal (signals 0)).turn p threshold).1,
          some (endOfTurn ((m.signal (signals 0)).turn p threshold).2)) := by
  rw [follow, if_neg fun hf => h (.inl hf), if_neg fun hb => h (.inr hb)]

theorem signal_never (m : Machine) (k : Nat) : m.signal (never k) = m :=
  rfl

theorem follow_of_run {fuel : Nat} {r : Except Fault Outcome}
    (h : m.run p threshold fuel budget = some (m', r)) :
    m.follow p threshold never fuel budget = (m', some r) := by
  induction fuel generalizing m budget with
  | zero => cases h
  | succ fuel ih =>
    by_cases hm : m.Halted budget
    · rw [run_halted hm] at h
      cases h
      exact follow_halted hm
    · rw [run_succ _ hm] at h
      rw [follow_succ hm, signal_never]
      cases hrest : budgetAfter budget (m.turn p threshold).2 with
      | some rest =>
        rw [hrest] at h
        exact ih h
      | none =>
        rw [hrest] at h
        cases h
        rfl

theorem run_of_follow {r : Except Fault Outcome}
    (h : m.follow p threshold never turns budget = (m', some r)) :
    m.run p threshold (turns + 1) budget = some (m', r) := by
  induction turns generalizing m budget with
  | zero =>
    by_cases hm : m.Halted budget
    · rw [follow_halted hm] at h
      cases h
      exact run_halted hm 0
    · rw [follow_zero hm] at h
      cases h
  | succ turns ih =>
    by_cases hm : m.Halted budget
    · rw [follow_halted hm] at h
      cases h
      exact run_halted hm _
    · rw [follow_succ hm, signal_never] at h
      rw [run_succ _ hm]
      cases hrest : budgetAfter budget (m.turn p threshold).2 with
      | some rest =>
        rw [hrest] at h
        exact ih h
      | none =>
        rw [hrest] at h
        cases h
        rfl

/-- **Following a run without interrupts** tells how it ends. -/
theorem ends_iff_follow {r : Except Fault Outcome} :
    m.Ends p threshold budget (m', r) ↔
      ∃ turns, m.follow p threshold never turns budget = (m', some r) := by
  constructor
  · rintro ⟨fuel, h⟩
    exact ⟨fuel, follow_of_run h⟩
  · rintro ⟨turns, h⟩
    exact ⟨turns + 1, run_of_follow h⟩

/-! ### One turn -/

/-- A plain machine beside an observed one: it has the same context, it is neither interrupted nor
traced, and it has written what the program has written to the sink of the other one. The input of
the other one can be read. -/
structure PlainOf (m m' : Machine) : Prop where
  context : m.context = m'.context
  quiet : m.debugger.Quiet
  input : ∃ script : List String, m'.input = script.map .text
  sink : m.sink.PlainOf m'.sink

/-- A pending interrupt leads to a dialogue that ends with a quit command. -/
def QuitsTo (m m' : Machine) : Prop :=
  m.debugger.interrupted = true ∧ ∃ lines rest : List String,
    m.input = (lines ++ rest).map .text ∧ m'.input = rest.map .text ∧
      m.debugger.enter.QuitsOn lines

theorem PlainOf.signal (h : m.PlainOf m') (raised : Bool) : m.PlainOf (m'.signal raised) := by
  cases raised with
  | false => exact h
  | true => exact ⟨h.context, h.quiet, h.input, h.sink⟩

theorem PlainOf.isFinished (h : m.PlainOf m') :
    m.context.isFinished = m'.context.isFinished := by
  rw [h.context]

theorem PlainOf.halted (h : m.PlainOf m') : m.Halted budget ↔ m'.Halted budget := by
  rw [Halted, Halted, h.isFinished]

theorem PlainOf.halting (h : m.PlainOf m') : m.halting = m'.halting := by
  rw [Machine.halting, Machine.halting, h.isFinished]

/-- The debugger attends to the observed machine. -/
theorem PlainOf.attend (h : m.PlainOf m') :
    ∃ m₁ r, m'.attend = (m₁, .ok r) ∧ m.PlainOf m₁ ∧ (r = .quit → m'.QuitsTo m₁) := by
  unfold Machine.attend
  -- Only the observed machine can have an interrupt to attend to.
  by_cases hinterrupted : m'.debugger.interrupted = true
  · rw [if_pos hinterrupted]
    obtain ⟨script, hscript⟩ := h.input
    obtain ⟨r, hresult, hsink, lines, rest, hlines, hrest, hquit⟩ :=
      Debugger.converse_plain h.sink m'.debugger.enter script
    rw [← hscript] at hresult hsink hrest
    have hinteract : m'.debugger.interact m'.sink m'.input =
        m'.debugger.enter.converse m'.sink m'.input := rfl
    dsimp only
    rw [hinteract, hresult]
    refine ⟨_, r, rfl, ⟨h.context, h.quiet, ⟨rest, hrest⟩, hsink⟩, fun hr => ?_⟩
    exact ⟨hinterrupted, lines, rest, by rw [hscript, hlines], hrest, hquit hr⟩
  · rw [if_neg hinterrupted]
    exact ⟨m', .run, rfl, h, nofun⟩

theorem PlainOf.charge (h : m.PlainOf m') (threshold : Nat) :
    (m.charge threshold).PlainOf (m'.charge threshold) := by
  refine ⟨?_, ?_, h.input, h.sink⟩
  · simp only [Machine.charge, h.context]
  · have hdebugger : (m.charge threshold).debugger = m.debugger := h.quiet.stepTaken
    rw [hdebugger]
    exact h.quiet

/-- A step of each of the two machines, with its charge. -/
theorem PlainOf.advance (h : m.PlainOf m') :
    (m.advance p threshold).2 = (m'.advance p threshold).2 ∧
      (m.advance p threshold).1.PlainOf (m'.advance p threshold).1 := by
  obtain ⟨hcontext, hresult, hsink⟩ :=
    Context.step_plain (p := p) h.sink m'.debugger.traceLevel m.context
  unfold Machine.advance
  rw [h.quiet.traceLevel]
  rw [h.context] at hcontext hresult hsink ⊢
  have hdone : PlainOf
      { m with
        context := (m'.context.step p 0 m.sink).context
        sink := (m'.context.step p 0 m.sink).sink }
      { m' with
        context := (m'.context.step p m'.debugger.traceLevel m'.sink).context
        sink := (m'.context.step p m'.debugger.traceLevel m'.sink).sink } :=
    ⟨hcontext, h.quiet, h.input, hsink⟩
  dsimp only
  rw [hresult]
  cases (m'.context.step p m'.debugger.traceLevel m'.sink).result with
  | error e => exact ⟨rfl, hdone⟩
  | ok progress =>
    cases progress with
    | jumped => exact ⟨rfl, hdone⟩
    | _ => exact ⟨rfl, hdone.charge threshold⟩

/-- **One turn** of each of the two machines: it is the same for both, unless a dialogue ends the
run of the observed one. -/
theorem PlainOf.turn (h : m.PlainOf m') :
    ((m.turn p threshold).2 = (m'.turn p threshold).2 ∧
      (m.turn p threshold).1.PlainOf (m'.turn p threshold).1) ∨
    ((m'.turn p threshold).2 = .ok .quit ∧ m.PlainOf (m'.turn p threshold).1 ∧
      m'.QuitsTo (m'.turn p threshold).1) := by
  have hplain : m.turn p threshold = m.advance p threshold := by
    rw [Machine.turn, Machine.attend, h.quiet.interrupted]
    rfl
  obtain ⟨m₁, r, hattend, h₁, hquit⟩ := h.attend
  rw [hplain]
  cases r with
  | quit =>
    have hobserved : m'.turn p threshold = (m₁, .ok .quit) := by
      rw [Machine.turn, hattend]
    rw [hobserved]
    exact .inr ⟨rfl, h₁, hquit rfl⟩
  | run =>
    have hobserved : m'.turn p threshold = m₁.advance p threshold := by
      rw [Machine.turn, hattend]
    rw [hobserved]
    exact .inl h₁.advance

/-! ### Whole runs -/

/-- What an observed run has come to after a number of turns, beside a plain one that is followed
for as many. It has come to the same; or it has ended after fewer turns, at which the plain one goes
on, by a dialogue that ends with a quit command. -/
inductive Observed (p : Program) (threshold : Nat) (budget : Option Nat) (m m' : Machine)
    (signals : Nat → Bool) (turns : Nat) : Prop
  | same
      (hend : (m'.follow p threshold signals turns budget).2 =
        (m.follow p threshold never turns budget).2)
      (hplain : (m.follow p threshold never turns budget).1.PlainOf
        (m'.follow p threshold signals turns budget).1)
  | quit {k : Nat} {m₁ m₁' : Machine} (hk : k < turns)
      (hend : (m'.follow p threshold signals turns budget).2 = some (.ok .quit))
      (hplain : m₁.PlainOf (m'.follow p threshold signals turns budget).1)
      (hgoing : m.follow p threshold never k budget = (m₁, none))
      (hgoing' : m'.follow p threshold signals k budget = (m₁', none))
      (hquit : (m₁'.signal (signals k)).QuitsTo (m'.follow p threshold signals turns budget).1)

/-- A turn that is the same for both machines comes before what is observed after it. -/
theorem Observed.later {rest : Option Nat} (hm : ¬m.Halted budget) (hm' : ¬m'.Halted budget)
    (hrest : budgetAfter budget (m.turn p threshold).2 = some rest)
    (hrest' : budgetAfter budget ((m'.signal (signals 0)).turn p threshold).2 = some rest)
    (h : Observed p threshold rest (m.turn p threshold).1
      ((m'.signal (signals 0)).turn p threshold).1 (fun k => signals (k + 1)) turns) :
    Observed p threshold budget m m' signals (turns + 1) := by
  -- Both runs begin with this turn, so what they come to later is said of the machines behind it.
  have hplain : ∀ n, m.follow p threshold never (n + 1) budget =
      (m.turn p threshold).1.follow p threshold never n rest := by
    intro n
    rw [follow_succ hm, signal_never, hrest]
    rfl
  have hobserved : ∀ n, m'.follow p threshold signals (n + 1) budget =
      ((m'.signal (signals 0)).turn p threshold).1.follow p threshold
        (fun k => signals (k + 1)) n rest := by
    intro n
    rw [follow_succ hm', hrest']
  cases h with
  | same hend hsame =>
    refine .same ?_ ?_
    · rw [hplain, hobserved]
      exact hend
    · rw [hplain, hobserved]
      exact hsame
  | @quit k m₁ m₁' hk hend hsame hgoing hgoing' hquit =>
    have hk' : k + 1 < turns + 1 := Nat.succ_lt_succ hk
    refine .quit hk' ?_ ?_ ((hplain k).trans hgoing) ((hobserved k).trans hgoing') ?_
    · rw [hobserved]
      exact hend
    · rw [hobserved]
      exact hsame
    · rw [hobserved]
      exact hquit

/-- **An observed run beside a plain one**, by induction on the turns. -/
theorem PlainOf.follow (h : m.PlainOf m') (signals : Nat → Bool) (budget : Option Nat)
    (turns : Nat) : Observed p threshold budget m m' signals turns := by
  induction turns generalizing m m' signals budget with
  | zero =>
    by_cases hm : m.Halted budget
    · refine .same ?_ ?_
      · rw [follow_halted hm, follow_halted (h.halted.1 hm), h.halting]
      · rw [follow_halted hm, follow_halted (h.halted.1 hm)]
        exact h
    · have hm' : ¬m'.Halted budget := fun hhalted => hm (h.halted.2 hhalted)
      refine .same ?_ ?_
      · rw [follow_zero hm, follow_zero hm']
      · rw [follow_zero hm, follow_zero hm']
        exact h
  | succ turns ih =>
    by_cases hm : m.Halted budget
    · refine .same ?_ ?_
      · rw [follow_halted hm, follow_halted (h.halted.1 hm), h.halting]
      · rw [follow_halted hm, follow_halted (h.halted.1 hm)]
        exact h
    · have hm' : ¬m'.Halted budget := fun hhalted => hm (h.halted.2 hhalted)
      rcases (h.signal (signals 0)).turn (p := p) with ⟨hsame, hplain⟩ | ⟨hend, hplain, hquit⟩
      · cases hrest : budgetAfter budget (m.turn p threshold).2 with
        | some rest =>
          have hrest' := hrest
          rw [hsame] at hrest'
          exact (ih hplain (fun k => signals (k + 1)) rest).later hm hm' hrest hrest'
        | none =>
          have hrest' := hrest
          rw [hsame] at hrest'
          refine .same ?_ ?_
          · rw [follow_succ hm, follow_succ hm', signal_never, hrest, hrest', hsame]
          · rw [follow_succ hm, follow_succ hm', signal_never, hrest, hrest']
            exact hplain
      · -- The dialogue has ended the observed run in its first turn, before any step of this turn.
        have hfollow : m'.follow p threshold signals (turns + 1) budget =
            (((m'.signal (signals 0)).turn p threshold).1, some (.ok .quit)) := by
          rw [follow_succ hm', hend]
          rfl
        refine .quit (Nat.succ_pos turns) ?_ ?_ (follow_zero hm) (follow_zero hm') ?_
        · rw [hfollow]
        · rw [hfollow]
          exact hplain
        · rw [hfollow]
          exact hquit

end Machine

/-- **Observing a run does not change it.** Let a machine be neither interrupted nor traced, and let
another one have the same context, any debugger and any input that can be read. Neither sink is
limited. However interrupts are raised before the turns of the other one, after every number of
turns both have the same context and have ended alike, if they have, and the first one has written
what the program has written to the sink of the other; unless the other one has ended before, by a
dialogue that ends with a quit command. -/
theorem observation_invisible (p : Program) (threshold : Nat) (budget : Option Nat)
    {m m' : Machine} (h : m.PlainOf m') :
    (∀ m₁ r, m.Ends p threshold budget (m₁, r) ↔
      ∃ turns, m.follow p threshold Machine.never turns budget = (m₁, some r)) ∧
    ∀ signals turns, Machine.Observed p threshold budget m m' signals turns :=
  ⟨fun _ _ => Machine.ends_iff_follow, fun signals turns => h.follow signals budget turns⟩

/-- A definition with a loop over a range that prints. -/
def Source.Program.printing : Source.Program where
  modules := [⟨"m", [],
    [.forall ["i"] [.call (.function "range") [.scalar (.int 0), .scalar (.int 2)]]
      [.expr (.call (.function "print") [.var "i"])]]⟩]
  entry := none

/-- A run that is traced at first, takes two single steps, and is interrupted again at the twentieth
turn to quit. Its output has thirteen writes by then. -/
theorem observation_invisible_printing : ∃ p, Program.link .printing = .ok p ∧
    ∃ m m' : Machine, m.PlainOf m' ∧ m'.debugger.interrupted = true ∧
      (m'.follow p 1 (fun k => k == 20) 30 none).1.sink.chunks.length = 13 ∧
      (∀ m₁ r, m.Ends p 1 none (m₁, r) ↔
        ∃ turns, m.follow p 1 Machine.never turns none = (m₁, some r)) ∧
      ∀ signals turns, Machine.Observed p 1 none m m' signals turns := by
  have hruns : Program.tests .printing (fun p m =>
      (Machine.follow p 1 (fun k => k == 20) 30 none
        ⟨.forModule m, .start 2 true, ["step\n", "\n", "t off\n", "c\n", "q\n"].map .text,
          .ofLimit none⟩).1.sink.chunks.length == 13) = true := by decide +kernel
  obtain ⟨p, m, hl, -, hruns⟩ := Program.exists_of_tests hruns
  have hplain : Machine.PlainOf ⟨.forModule m, .start 0 false, [], .ofLimit none⟩
      ⟨.forModule m, .start 2 true, ["step\n", "\n", "t off\n", "c\n", "q\n"].map .text,
        .ofLimit none⟩ :=
    ⟨rfl, ⟨rfl, rfl, rfl⟩, ⟨_, rfl⟩, ⟨rfl, rfl, rfl⟩⟩
  exact ⟨p, hl, _, _, hplain, rfl, beq_iff_eq.1 hruns, observation_invisible p 1 none hplain⟩

end TreeMachine
