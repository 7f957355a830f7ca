import TreeMachine.Proofs.Control.Outcomes
import TreeMachine.Proofs.Iteration.Schedules
import TreeMachine.Proofs.Observation.Runs
import TreeMachine.Proofs.Run.Slicing

/-!
# Budgets of runs

A step that jumps leaves the context at a label (`Context.Mirrors.step_jumped`), and the step of a
label is charged (`Machine.advance_label`). So at most every other turn is free, and a run with a
budget comes back after at most twice as many turns as it has charged steps to take
(`Machine.comes_back`), however the program jumps. What the run has charged is what the count of
steps has grown by (`Machine.follow_charges`). The last statement puts this together.

It is what makes a time slice a bound. A program that only jumps from label to label would use up no
budget if jumps could follow each other; since a jump goes to a label, and a label is a statement
with a step, there is a charge in between. The proof needs that the statement reached by a jump is a
label of the body, at its first stage, with no expression under evaluation, which is a part of how
an activation mirrors the tree.

Interrupts may be raised before any of the turns, and the debugger may hold a dialogue in each.
Neither takes a step. A dialogue that quits, a channel that fails and a step that fails end the run
early, which is allowed: the run comes back.

The count of steps is that of the context. It grows by the budget when the run is suspended, and by
no more than the budget in any case. Contexts that no task can get into are left out, as their jumps
may go anywhere.
-/

namespace TreeMachine

/-! ### Jumps and labels -/

/-- An activation is about to work on a label. No expression is evaluated. -/
structure Frame.AtLabel (p : Program) (f : Frame) : Prop where
  expr : f.expr = none
  stage : f.stage = 0
  label : ∃ i s name, f.stmt = some i ∧ p.stmt? i = some s ∧ s.kind = .label name

namespace Frame

variable {p : Program} {B : Option FnId → StmtId → Prop} {f : Frame}

/-- **Work that jumps** leaves the activation at a label. -/
theorem Mirrors.jumped (h : f.Mirrors p B) (hp : p.WellFormed) {w : Work} (hw : f.Works p w)
    (hjumped : w.2 = .ok .jumped) : w.1.AtLabel p := by
  rcases hw.cases with ⟨e, x, hexpr, hx, rfl⟩ | ⟨i, s, hexpr, hstmt, hs, rfl⟩
  · have hmoves := Frame.moves_expr p hexpr x
    generalize f.workExpr p e x = w at hmoves hjumped
    cases hmoves <;> cases hjumped
  · cases h with
    | nowhere hnone => exact absurd (hnone.symm.trans hstmt) nofun
    | @«at» j t h hstage =>
      cases h.stmt.symm.trans hstmt
      cases h.found.symm.trans hs
      have hat : f.AtStmt p i s := ⟨hstmt, hexpr, hs, h.chain, hstage⟩
      have hchanges := changes_stmt p hexpr i s
      have hmoves := hat.moves hp
      generalize f.workStmt p i s = w at hmoves hchanges hjumped ⊢
      cases hmoves with
      | @jumps g t label waiting resumes hk ht hchain hgoes hzero hfooting =>
        obtain ⟨s', name, hs', hname, -⟩ := hp.gotos i s t hs hk
        refine ⟨?_, hzero, t, s', name, hgoes, hs', hname⟩
        -- Only work that is pending begins an expression.
        cases hnew : g.expr with
        | none => rfl
        | some e => cases (hchanges.begins e hnew).2.2
      | _ => cases hjumped

/-- The work on a label is to move past it. -/
theorem AtLabel.works (h : f.AtLabel p) : f.Works p (f, .ok .complete) := by
  obtain ⟨hexpr, hstage, i, s, name, hstmt, hs, hname⟩ := h
  obtain ⟨kind, next, parent, scope⟩ := s
  cases hname
  have hworks := works_stmt hexpr hstmt hs
  simp only [workStmt, hstage] at hworks
  exact hworks

end Frame

namespace Context

variable {p : Program} {B : Option FnId → StmtId → Prop} {c : Context}

/-- A context whose innermost activation is at a label. -/
def AtLabel (p : Program) (c : Context) : Prop :=
  ∃ f callers, c.frames = f :: callers ∧ f.AtLabel p

/-- A context in which work has been met with a jump. -/
theorem jumped_of_meet {place : Place} {callers : List Frame} {w : Work} {sink : Sink}
    (h : (c.meet p place callers w sink).result = .ok .jumped) :
    w.2 = .ok .jumped ∧ (c.meet p place callers w sink).context.frames = w.1 :: callers := by
  have hprogress : ∀ c : Context, c.progress ≠ .jumped := by
    intro c
    unfold progress
    split <;> exact nofun
  obtain ⟨f, r⟩ := w
  cases r with
  | error e => cases h
  | ok d =>
    cases d with
    | jumped => exact ⟨rfl, rfl⟩
    | pending => exact absurd (Except.ok.inj h) (hprogress _)
    | complete =>
      unfold meet at h
      dsimp only at h
      split at h
      · exact absurd (Except.ok.inj h) (hprogress _)
      · cases h
    | leave v => exact absurd (Except.ok.inj h) (hprogress _)
    | call n =>
      unfold meet at h
      dsimp only at h
      cases hr : (invoke p n { c with frames := f :: callers } sink).result with
      | error e =>
        rw [hr] at h
        cases h
      | ok u =>
        rw [hr] at h
        exact absurd (Except.ok.inj h) (hprogress _)

/-- **A step that jumps** leaves the context at a label. -/
theorem Mirrors.step_jumped (h : c.Mirrors p B) (hp : p.WellFormed) {traceLevel : Nat} {sink : Sink}
    (hjumped : (c.step p traceLevel sink).result = .ok .jumped) :
    (c.step p traceLevel sink).context.AtLabel p := by
  cases hframes : c.frames with
  | nil =>
    rw [step_of_nil hframes] at hjumped
    cases hjumped
  | cons f callers =>
    have hf : f.Mirrors p B := h f (by rw [hframes]; exact List.mem_cons_self)
    have htaken := step_taken (p := p) hframes traceLevel sink
    generalize c.step p traceLevel sink = done at htaken hjumped ⊢
    cases htaken with
    | exhausted =>
      unfold progress at hjumped
      dsimp only at hjumped
      split at hjumped <;> cases hjumped
    | dangling => cases hjumped
    | untraced => cases hjumped
    | @worked w sink' hw =>
      obtain ⟨hdemand, hafter⟩ := jumped_of_meet hjumped
      exact ⟨w.1, callers, hafter, hf.jumped hp hw hdemand⟩

/-- **The step of a label** is no jump. It succeeds if its line of the trace can be written. -/
theorem Mirrors.step_label (h : c.Mirrors p B) (hp : p.WellFormed) (hB : p.Regions B)
    (hlabel : c.AtLabel p) (traceLevel : Nat) (sink : Sink) :
    (c.step p traceLevel sink).result = .ok .continue ∨
      ∃ e, (c.step p traceLevel sink).result = .error (.channel e) := by
  obtain ⟨f, callers, hframes, hlabel⟩ := hlabel
  have hf : f.Mirrors p B := h f (by rw [hframes]; exact List.mem_cons_self)
  obtain ⟨node, hnode, hwork⟩ := hlabel.works
  have htaken := step_taken (p := p) hframes traceLevel sink
  generalize c.step p traceLevel sink = done at htaken ⊢
  cases htaken with
  | exhausted _ hnone => cases hnode.symm.trans hnone
  | dangling _ herror => cases hnode.symm.trans herror
  | untraced _ e _ => exact .inr ⟨e, rfl⟩
  | worked sink' hw =>
    obtain ⟨node', hnode', rfl⟩ := hw
    cases hnode.symm.trans hnode'
    rw [hwork]
    -- The label is at its place in the tree, so it can be moved past.
    have hcomplete : Frame.WorkMirrors p B (f, .ok .complete) := hf.works hp hB hlabel.works
    obtain ⟨i, s, hstands⟩ := hcomplete
    obtain ⟨g, hadvance, -⟩ := hstands.advance hp hB
    have hadvance' : f.advance p = .ok g := hadvance
    refine .inl ?_
    simp only [meet, hadvance']
    rfl

end Context

/-! ### Turns -/

namespace Machine

variable {p : Program} {B : Option FnId → StmtId → Prop} {m : Machine} {threshold : Nat}

/-- The steps that a turn is charged for. -/
def chargeOf : Except Fault Turn → Nat
  | .ok .charged => 1
  | .ok .free | .ok .quit | .error _ => 0

/-- The step of a label is charged, unless its line of the trace cannot be written. -/
theorem advance_label (hp : p.WellFormed) (hB : p.Regions B) (hm : m.context.Mirrors p B)
    (hlabel : m.context.AtLabel p) (threshold : Nat) :
    (m.advance p threshold).2 = .ok .charged ∨
      ∃ e, (m.advance p threshold).2 = .error (.channel e) := by
  unfold advance
  dsimp only
  rcases hm.step_label hp hB hlabel m.debugger.traceLevel m.sink with h | ⟨e, h⟩
  · rw [h]
    exact .inl rfl
  · rw [h]
    exact .inr ⟨e, rfl⟩

/-- The count of steps grows by what a turn is charged for. -/
theorem turn_steps (p : Program) (threshold : Nat) (m : Machine) :
    (m.turn p threshold).1.context.steps = m.context.steps + chargeOf (m.turn p threshold).2 := by
  have hmoves := turn_moves p threshold m
  generalize m.turn p threshold = t at hmoves ⊢
  cases hmoves with
  | unattended hcontext | quits hcontext => exact congrArg Context.steps hcontext
  | fails level sink _ hcontext | jumps level sink _ hcontext =>
    exact (congrArg Context.steps hcontext).trans (Context.step_steps (p := p) level m.context sink)
  | @charges m' c' _ level sink _ _ hc' hcontext =>
    -- A collection leaves the count alone.
    have hcount : m'.context.steps = c'.steps := by
      rcases hcontext with h | h <;> rw [h]
      rfl
    rw [hcount, hc']
    exact congrArg (· + 1) (Context.step_steps (p := p) level m.context sink)

/-- A turn that ends a run leaves an activation if there was one. -/
theorem turn_end_frames_ne_nil (hm : m.context.frames ≠ [])
    (hend : budgetAfter none (m.turn p threshold).2 = none) :
    (m.turn p threshold).1.context.frames ≠ [] := by
  have hmoves := turn_moves p threshold m
  generalize m.turn p threshold = t at hmoves hend ⊢
  cases hmoves with
  | unattended hcontext | quits hcontext => exact hcontext ▸ hm
  | fails level sink hresult hcontext => exact hcontext ▸ Context.step_error_frames_ne_nil hresult
  | jumps | charges => cases hend

/-- The turn of a context at a label is charged, or the run ends with it. -/
theorem turn_label (hp : p.WellFormed) (hB : p.Regions B) (hm : m.context.Mirrors p B)
    (hlabel : m.context.AtLabel p) : (m.turn p threshold).2 ≠ .ok .free := by
  have hmoves := turn_moves p threshold m
  generalize m.turn p threshold = t at hmoves ⊢
  cases hmoves with
  | jumps level sink hresult =>
    rcases hm.step_label hp hB hlabel level sink with h | ⟨e, h⟩
    all_goals cases hresult.symm.trans h
  | _ => exact nofun

/-- A free turn leaves the context at a label. -/
theorem turn_free (hp : p.WellFormed) (hm : m.context.Mirrors p B)
    (hfree : (m.turn p threshold).2 = .ok .free) : (m.turn p threshold).1.context.AtLabel p := by
  have hmoves := turn_moves p threshold m
  generalize m.turn p threshold = t at hmoves hfree ⊢
  cases hmoves with
  | jumps level sink hresult hcontext => exact hcontext ▸ hm.step_jumped hp hresult
  | _ => cases hfree

/-! ### Runs within a budget -/

@[simp]
theorem signal_context (raised : Bool) (m : Machine) :
    (m.signal raised).context = m.context := by
  cases raised <;> rfl

/-- Whatever interrupts are raised, a run ends within a number of turns. -/
def ComesBack (p : Program) (threshold turns : Nat) (budget : Option Nat) (m : Machine) : Prop :=
  ∀ signals, ∃ m' r, m.follow p threshold signals turns budget = (m', some r)

theorem comesBack_of_halted {turns : Nat} {budget : Option Nat} (h : m.Halted budget) :
    m.ComesBack p threshold turns budget :=
  fun _ => ⟨m, _, follow_halted h⟩

/-- A run comes back if it does so behind each turn that does not end it. -/
theorem comesBack_of_turn {turns : Nat} {budget : Option Nat}
    (hnext : ∀ raised rest,
      budgetAfter budget ((m.signal raised).turn p threshold).2 = some rest →
        ((m.signal raised).turn p threshold).1.ComesBack p threshold turns rest) :
    m.ComesBack p threshold (turns + 1) budget := by
  intro signals
  by_cases hm : m.Halted budget
  · exact comesBack_of_halted hm signals
  · rw [follow_succ hm]
    cases hrest : budgetAfter budget ((m.signal (signals 0)).turn p threshold).2 with
    | none => exact ⟨_, _, rfl⟩
    | some rest => exact hnext (signals 0) rest hrest fun k => signals (k + 1)

/-- A turn keeps a context that mirrors the tree. -/
theorem turn_mirrors (hp : p.WellFormed) (hB : p.Regions B) (hm : m.context.Mirrors p B)
    (threshold : Nat) (raised : Bool) :
    ((m.signal raised).turn p threshold).1.context.Mirrors p B := by
  rw [← signal_context raised m] at hm
  exact hm.becomes hp hB (turn_becomes p _ threshold .refl)

/-- **A run with a budget comes back** within twice as many turns as it may charge. -/
theorem comes_back (hp : p.WellFormed) (hB : p.Regions B) {b turns : Nat} (hturns : 2 * b ≤ turns)
    (hm : m.context.Mirrors p B) : m.ComesBack p threshold turns (some b) := by
  induction b generalizing m turns with
  | zero => exact comesBack_of_halted (.inr rfl)
  | succ b ih =>
    -- A free turn takes nothing from the budget, but the turn behind it is one of a label.
    have hlabel : ∀ {m : Machine} {turns : Nat}, 2 * b ≤ turns → m.context.Mirrors p B →
        m.context.AtLabel p → m.ComesBack p threshold (turns + 1) (some (b + 1)) := by
      intro m turns hturns hm hlabel
      refine comesBack_of_turn fun raised rest hrest => ?_
      have hnot : ((m.signal raised).turn p threshold).2 ≠ .ok .free := by
        rw [← signal_context raised m] at hm hlabel
        exact turn_label hp hB hm hlabel
      rcases hr : ((m.signal raised).turn p threshold).2 with e | t
      · rw [hr] at hrest
        cases hrest
      · rw [hr] at hrest
        cases t with
        | charged =>
          cases hrest
          exact ih hturns (turn_mirrors hp hB hm threshold raised)
        | free => exact absurd hr hnot
        | quit => cases hrest
    obtain ⟨turns, rfl⟩ : ∃ n, turns = n + 2 := ⟨turns - 2, by omega⟩
    refine comesBack_of_turn fun raised rest hrest => ?_
    have hafter := turn_mirrors hp hB hm threshold raised
    rcases hr : ((m.signal raised).turn p threshold).2 with e | t
    · rw [hr] at hrest
      cases hrest
    · rw [hr] at hrest
      cases t with
      | charged =>
        cases hrest
        exact ih (by omega) hafter
      | free =>
        cases hrest
        rw [← signal_context raised m] at hm
        exact hlabel (by omega) hafter (turn_free hp hm hr)
      | quit => cases hrest

/-- What a run with a budget has charged when it ends. -/
structure Charges (b : Nat) (m m' : Machine) (r : Except Fault Outcome) : Prop where
  grows : m.context.steps ≤ m'.context.steps
  within : m'.context.steps ≤ m.context.steps + b
  suspended : r = .ok .suspended → m'.context.steps = m.context.steps + b
  finished : r = .ok .finished ↔ m'.context.isFinished = true

theorem charges_of_halted {b : Nat} (h : m.Halted (some b)) : Charges b m m (.ok m.halting) := by
  refine ⟨Nat.le_refl _, Nat.le_add_right _ _, fun hs => ?_, ?_⟩
  · have hnot : ¬m.context.isFinished = true := by
      intro hf
      rw [halting, if_pos hf] at hs
      cases hs
    cases h.resolve_left hnot
    rfl
  · unfold halting
    split
    · rename_i hf
      exact iff_of_true rfl hf
    · rename_i hf
      exact iff_of_false (by rintro ⟨⟩) hf

/-- What a run has charged with a turn before it. -/
theorem Charges.later {b k : Nat} {m₁ m' : Machine} {r : Except Fault Outcome}
    (h : Charges k m₁ m' r) {n : Nat} (hsteps : m₁.context.steps = m.context.steps + n)
    (hb : b = k + n) : Charges b m m' r := by
  obtain ⟨hgrows, hwithin, hsuspended, hfinished⟩ := h
  refine ⟨by omega, by omega, fun hs => ?_, hfinished⟩
  have hexact := hsuspended hs
  omega

/-- A run that a turn has ended has charged nothing for it. -/
theorem charges_of_turn {b : Nat} (hm : m.context.frames ≠ [])
    (hend : budgetAfter none (m.turn p threshold).2 = none) :
    Charges b m (m.turn p threshold).1 (endOfTurn (m.turn p threshold).2) := by
  have hsteps := turn_steps p threshold m
  have hcharge : chargeOf (m.turn p threshold).2 = 0 := by
    rcases hr : (m.turn p threshold).2 with e | t
    · rfl
    · rw [hr] at hend
      cases t <;> cases hend
      rfl
  have hleft := turn_end_frames_ne_nil hm hend
  have hfinished : (m.turn p threshold).1.context.isFinished = false := by
    unfold Context.isFinished
    exact Bool.eq_false_iff.2 fun h => hleft (List.isEmpty_iff.1 h)
  refine ⟨by omega, by omega, fun h => absurd h (endOfTurn_ne_suspended _), ?_⟩
  rw [hfinished]
  refine ⟨fun h => ?_, nofun⟩
  unfold endOfTurn at h
  split at h <;> cases h

/-- **What a run has charged**, by induction on the turns. -/
theorem follow_charges {signals : Nat → Bool} {turns b : Nat} {m' : Machine}
    {r : Except Fault Outcome}
    (h : m.follow p threshold signals turns (some b) = (m', some r)) : Charges b m m' r := by
  induction turns generalizing m signals b with
  | zero =>
    by_cases hm : m.Halted (some b)
    · rw [follow_halted hm] at h
      cases h
      exact charges_of_halted hm
    · rw [follow_zero hm] at h
      cases h
  | succ turns ih =>
    by_cases hm : m.Halted (some b)
    · rw [follow_halted hm] at h
      cases h
      exact charges_of_halted hm
    · rw [follow_succ hm] at h
      obtain ⟨k, rfl⟩ : ∃ k, b = k + 1 :=
        Nat.exists_eq_succ_of_ne_zero fun hb => hm (.inr (congrArg some hb))
      have hframes : (m.signal (signals 0)).context.frames ≠ [] := by
        rw [signal_context]
        exact fun hnil => hm (.inl (List.isEmpty_iff.2 hnil))
      have hsteps := turn_steps p threshold (m.signal (signals 0))
      rw [signal_context] at hsteps
      rcases hr : ((m.signal (signals 0)).turn p threshold).2 with e | t
      · have hend := charges_of_turn (b := k + 1) hframes (by rw [hr]; rfl)
        rw [hr] at h hend
        cases h
        exact hend.later (n := 0) (congrArg Context.steps (signal_context _ m)) rfl
      · rw [hr] at hsteps
        cases t with
        | charged =>
          rw [hr] at h
          exact (ih h).later hsteps rfl
        | free =>
          rw [hr] at h
          exact (ih h).later hsteps rfl
        | quit =>
          have hend := charges_of_turn (b := k + 1) hframes (by rw [hr]; rfl)
          rw [hr] at h hend
          cases h
          exact hend.later (n := 0) (congrArg Context.steps (signal_context _ m)) rfl

end Machine

/-- **A slice always comes back, and charges its budget.** Let a program be linked, let a task start
in a context, and let anything become of this context by steps, charges and collections.

* A step that jumps leaves the context at a label, at the first stage and with no expression being
  evaluated or suspended. The step that is taken next is charged, unless its line of the trace
  cannot be written.
* A run with a budget of `b` steps ends within `2 * b` turns, of which each takes one step at most,
  whatever interrupts are raised before the turns and whatever the debugger, the input and the sink
  are. Without such interrupts this is the result of the run.
* The count of steps grows by `b` when the run is suspended, and never by more. The run is finished
  if no activation is left, and only then; so it is not suspended when its last step has left the
  last activation. -/
theorem slice_comes_back {d : Source.Program} {p : Program} (hlink : Program.link d = .ok p)
    {outer : Option StmtId} {c₀ c : Context} (hstart : c₀.Starts p outer) (hc : c₀.Becomes p c)
    (threshold : Nat) :
    (∀ traceLevel sink, (c.step p traceLevel sink).result = .ok .jumped →
      (∃ f callers, (c.step p traceLevel sink).context.frames = f :: callers ∧ f.AtLabel p ∧
        f.suspended = []) ∧
        ∀ m : Machine, m.context = (c.step p traceLevel sink).context →
          (m.advance p threshold).2 = .ok .charged ∨
            ∃ e, (m.advance p threshold).2 = .error (.channel e)) ∧
    ∀ m : Machine, m.context = c → ∀ signals b, ∃ m' r,
      m.follow p threshold signals (2 * b) (some b) = (m', some r) ∧
        (signals = Machine.never → m.Ends p threshold (some b) (m', r)) ∧
        Machine.Charges b m m' r := by
  have hp := Program.wellFormed_of_link hlink
  obtain ⟨hregions, hmirrors⟩ := hstart.mirrors hp (Program.apart_of_link hlink)
  have hmirrors := hmirrors.becomes hp hregions hc
  refine ⟨fun traceLevel sink hjumped => ?_, ?_⟩
  · have hlabel := hmirrors.step_jumped hp hjumped
    have hafter := hmirrors.becomes hp hregions (Context.Becomes.refl.step traceLevel sink)
    have hfocused := (hc.step traceLevel sink).focused hstart.focused
    refine ⟨?_, fun m hm => ?_⟩
    · obtain ⟨f, callers, hframes, hf⟩ := hlabel
      rw [hframes] at hfocused
      exact ⟨f, callers, hframes, hf, (hfocused f List.mem_cons_self).idle hf.expr⟩
    · rw [← hm] at hlabel hafter
      exact Machine.advance_label hp hregions hafter hlabel threshold
  · rintro m rfl signals b
    have hback : m.ComesBack p threshold (2 * b) (some b) :=
      Machine.comes_back hp hregions (Nat.le_refl _) hmirrors
    obtain ⟨m', r, hfollow⟩ := hback signals
    refine ⟨m', r, hfollow, ?_, Machine.follow_charges hfollow⟩
    rintro rfl
    exact Machine.ends_iff_follow.2 ⟨2 * b, hfollow⟩

/-- A definition that jumps back to its first statement for ever. -/
def Source.Program.circling : Source.Program where
  modules := [⟨"m", [], [.label "top", .goto "top"]⟩]
  entry := none

/-- After its first step the definition jumps, and a slice of three steps takes six turns at
most. -/
theorem slice_comes_back_circling : ∃ p, Program.link .circling = .ok p ∧
    ∃ m : Module, m ∈ p.modules ∧ (Context.forModule m).Starts p m.body ∧
      ∃ c : Context, (Context.forModule m).Becomes p c ∧
        (c.step p 0 (.ofLimit none)).result = .ok .jumped ∧
        (∃ f callers, (c.step p 0 (.ofLimit none)).context.frames = f :: callers ∧
          f.AtLabel p ∧ f.suspended = []) ∧
        ∃ m' r, Machine.Ends p 1 (some 3) ⟨c, .start 0 false, [], .ofLimit none⟩ (m', r) ∧
          Machine.Charges 3 ⟨c, .start 0 false, [], .ofLimit none⟩ m' r := by
  have hruns : Program.suspendsAfter .circling 2 1 (fun p m =>
      decide ((m.context.step p 0 (.ofLimit none)).result.toOption = some .jumped)) = true := by
    decide +kernel
  obtain ⟨p, m, m₁, hlink, hm, hrun, htest⟩ := Program.exists_of_suspendsAfter hruns
  have hmem : m ∈ p.modules := Array.mem_of_getElem? hm
  have hstart : (Context.forModule m).Becomes p (.forModule m) := .refl
  have hbecomes := Machine.run_becomes hstart hrun
  have hjumped : (m₁.context.step p 0 (.ofLimit none)).result = .ok .jumped :=
    Except.eq_ok_of_toOption (of_decide_eq_true htest)
  obtain ⟨hjumps, hslices⟩ := slice_comes_back hlink (.forModule hmem) hbecomes 1
  obtain ⟨m', r, -, hends, hcharges⟩ :=
    hslices ⟨m₁.context, .start 0 false, [], .ofLimit none⟩ rfl Machine.never 3
  exact ⟨p, hlink, m, hmem, .forModule hmem, m₁.context, hbecomes, hjumped,
    (hjumps 0 _ hjumped).1, m', r, hends rfl, hcharges⟩

end TreeMachine
