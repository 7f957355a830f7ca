import TreeMachine.Proofs.Reference.Expressions

/-!
# Inside a statement

What a statement does is made of three things: it has an expression evaluated
(`Evaluator.Simulated.operand`), sends a message (`Evaluator.Simulated.send`), or runs a sequence
inside it (`Evaluator.Simulated.run`). A sequence that is completed normally leaves the activation
at the stage at which the statement is resumed, and other completions leave the statement as well
(`Spot.CompletesSequence.leave`).

The three are stated for any statement at any stage, given the unit of work that begins them. A
proof for a kind of statement then chains them in the order of its evaluator and does not go down to
single steps. Each takes one unit of fuel at least, for the step that begins it, and this is how the
fuel of the parts comes to be less than that of the whole.

A sequence may be empty, and is then over in the step that would have begun it. The statement is
resumed or, if it has nothing left to do, is completed itself; in the evaluator this is the
difference between going on and having nothing to go on with.
-/

namespace TreeMachine

variable {p : Program} {o : Spot} {i : StmtId} {s : Stmt} {env env' : Env} {w w' : World}

/-! ### Completions -/

namespace Spot

theorem Lands.before {pos : Position} {y : State} (h : o.Lands p env' pos w y)
    (hl : p.Leaves o.waiting env env') : o.Lands p env pos w y := by
  obtain ⟨env'', hl', hagrees, rfl⟩ := h
  exact ⟨env'', hl.trans hl', hagrees, rfl⟩

/-- What has been left alone before, too. -/
theorem Completes.before {after : Position} {c : Completion} {y : State}
    (h : o.Completes p env' after c w y) (hl : p.Leaves o.waiting env env') :
    o.Completes p env after c w y := by
  cases c with
  | normal => exact Lands.before h hl
  | «return» v => exact h
  | jump l =>
    obtain ⟨s, name, hs, hkind, hwaiting, hlands⟩ := h
    exact ⟨s, name, hs, hkind, hwaiting, hlands.before hl⟩

theorem CompletesSequence.before {owner : Option StmtId} {c : Completion} {y : State}
    (h : o.CompletesSequence p owner env' c w y) (hl : p.Leaves o.waiting env env') :
    o.CompletesSequence p owner env c w y :=
  ⟨Completes.before h.1 hl, h.2⟩

/-- **Leaving a statement** by what a sequence inside it does not catch. -/
theorem CompletesSequence.leave {resume : Nat} {c : Completion} {y : State}
    (h : (o.inside i resume).CompletesSequence p (some i) env c w y) (hc : c ≠ .normal)
    (after : Position) : o.Completes p env after c w y := by
  obtain ⟨h, hout⟩ := h
  cases c with
  | normal => exact absurd rfl hc
  | «return» v => exact h
  | jump l =>
    obtain ⟨t, name, ht, hkind, hwaiting, hlands⟩ := h
    have hparent : p.parent? l = t.parent := Program.parent?_eq ht
    have hnot : ¬some i = t.parent := fun he => hout l rfl (hparent.trans he.symm)
    -- The label is further out, so unwinding takes the statement off first.
    have hunwind : Frame.unwind t.parent (i :: o.waiting) (resume :: o.resumes) =
        Frame.unwind t.parent o.waiting o.resumes := by
      rw [Frame.unwind, if_neg hnot, List.tail_cons]
    refine ⟨t, name, ht, hkind, fun q hq => ?_, ?_⟩
    · exact (List.mem_cons.1 (hwaiting q hq)).resolve_left fun he => hnot (he ▸ hq.symm)
    · obtain ⟨env', hl, hagrees, rfl⟩ := hlands
      refine ⟨env', hl.outer, hagrees, ?_⟩
      dsimp only [Spot.inside]
      rw [hunwind]

/-- Where the machine is when a sequence inside a statement has been completed normally. -/
theorem CompletesSequence.lands {resume : Nat} {y : State}
    (h : (o.inside i resume).CompletesSequence p (some i) env .normal w y) :
    (o.inside i resume).Lands p env (p.behind (i :: o.waiting) (resume :: o.resumes)) w y :=
  h.1

/-- A statement that has nothing left to do after its sequence is completed as the sequence is. -/
theorem CompletesSequence.passing {c : Completion} {y : State}
    (h : (o.inside i 0).CompletesSequence p (some i) env c w y) :
    o.Completes p env (p.passing i o.waiting o.resumes) c w y := by
  cases c with
  | normal =>
    obtain ⟨env', hl, hagrees, rfl⟩ := h.lands
    exact ⟨env', hl.outer, hagrees, rfl⟩
  | «return» v => exact h.leave nofun _
  | jump l => exact h.leave nofun _

end Spot

/-! ### Steps of a statement -/

namespace Frame

/-- A statement that is finished leaves the activation behind it. -/
theorem Works.takes_passing {f : Frame} (hs : p.stmt? i = some s)
    (hchain : p.Chain s.parent o.waiting o.resumes) {stage : Nat} {operands : List Value}
    (h : f.Works p ((o.frame i stage env operands).demand .complete)) :
    State.Takes p ⟨f :: o.callers, w.heap, w.sink⟩
      ⟨o.home.at (p.passing i o.waiting o.resumes) env [] :: o.callers, w.heap, w.sink⟩ :=
  Works.takes_complete h (advance_at o.home env hs hchain stage operands)

/-- A statement that is finished is completed normally. -/
theorem Works.completes {f : Frame} {fuel stage : Nat} {operands : List Value}
    (h : f.Works p ((o.frame i stage env' operands).demand .complete)) (hs : p.stmt? i = some s)
    (hchain : p.Chain s.parent o.waiting o.resumes) (hleaves : p.Leaves o.waiting env env')
    (hagrees : env'.Agrees w.env) :
    Simulates p 1 (fuel + 1) ⟨f :: o.callers, w.heap, w.sink⟩ (some (.ok .normal, w))
      (o.Completes p env (p.passing i o.waiting o.resumes)) :=
  .step (takes_passing hs hchain h) (.result ⟨env', hleaves, hagrees, rfl⟩)

end Frame

namespace Evaluator.Simulated

variable {fuel : Nat} {ev : Evaluator}

/-- **An expression of a statement** is evaluated, and the statement is resumed at a stage with its
value as operand. -/
theorem operand (h : ev.Simulated p fuel) (hp : p.WellFormed) (hs : p.stmt? i = some s)
    {e : ExprId} (he : e ∈ s.kind.exprs) {f : Frame} {stage resume : Nat} {operands : List Value}
    (hworks : f.Works p ((o.frame i stage env operands).evaluate e resume))
    (hagrees : env.Agrees w.env) :
    Simulates p 1 (fuel + 1) ⟨f :: o.callers, w.heap, w.sink⟩ (ev.expr s.scope e w)
      (fun v w' y => ∃ env', (∀ n, p.From n e → env.SameBelow n env') ∧ env'.Agrees w'.env ∧
        y = o.state i resume env' (v :: operands) w') := by
  have hscope : p.scopeOf? (some i) o.home.scope = some s.scope := by
    rw [Program.scopeOf?, hs, Option.map_some]
  have hvalue := h.expr (f := (o.frame i stage env operands).eval e resume) o.callers w rfl rfl
    ((hp.stmts i s hs).exprs e he) hscope hagrees
  refine .step (Frame.Works.takes_pending hworks) (hvalue.imp ?_)
  rintro v w' y ⟨env', hbelow, hagrees', rfl⟩
  exact ⟨env', hbelow, hagrees', rfl⟩

/-- **A message of a statement** is sent, and the statement is resumed at a stage with the answer as
operand. -/
theorem send (h : ev.Simulated p fuel) (hp : p.WellFormed) (hs : p.stmt? i = some s) {m : Message}
    {args : List Value} {f : Frame} {resume : Nat}
    (hworks : f.Works p ((o.frame i resume env
      (args.reverse ++ [.selector m.selector])).demand (.call (args.length + 1)))) :
    Simulates p 1 (fuel + 1) ⟨f :: o.callers, w.heap, w.sink⟩ (ev.send p i s.scope m args w)
      (fun v w' y => w'.env = w.env ∧ y = o.state i resume env [v] w') := by
  have hscope : p.scopeOf? (some i) o.home.scope = some s.scope := by
    rw [Program.scopeOf?, hs, Option.map_some]
  have hoperands : args.reverse ++ [.selector m.selector] =
      args.reverse ++ .selector m.selector :: [] := rfl
  refine (h.call hp hworks hoperands hscope rfl).imp ?_
  rintro v w' y ⟨henv, rfl⟩
  exact ⟨henv, rfl⟩

/-- **A sequence inside a statement** is run, after which the statement is resumed at a stage. -/
theorem run (h : ev.Simulated p fuel) (hp : p.WellFormed) (hs : p.stmt? i = some s)
    (hchain : p.Chain s.parent o.waiting o.resumes) (hselect : s.kind.isSelect = false)
    {child : Option StmtId} (hchild : ∀ c, child = some c → c ∈ s.kind.children) {f : Frame}
    {stage resume : Nat} (hresume : s.kind.resume? = some resume)
    (hworks : f.Works p ((o.frame i stage env []).run child resume))
    (hagrees : env.Agrees w.env) :
    Simulates p 1 (fuel + 1) ⟨f :: o.callers, w.heap, w.sink⟩ (ev.body (some i) child w)
      ((o.inside i resume).CompletesSequence p (some i) env) := by
  cases child with
  | none =>
    have hbody : ev.body (some i) none w = some (.ok .normal, w) := rfl
    rw [hbody]
    have hlands : (o.inside i resume).CompletesSequence p (some i) env .normal w
        ⟨o.home.at (p.behind (i :: o.waiting) (resume :: o.resumes)) env [] :: o.callers, w.heap,
          w.sink⟩ := ⟨⟨env, .refl p _ env, hagrees, rfl⟩, nofun⟩
    refine .step ?_ (.result hlands)
    cases resume with
    | zero => exact Frame.Works.takes_passing hs hchain hworks
    | succ resume => exact Frame.Works.takes_pending hworks
  | some c =>
    obtain ⟨t, ht, hparent, -, harm⟩ := (hp.stmts i s hs).children c (hchild c rfl)
    have hinside : p.Chain t.parent (i :: o.waiting) (resume :: o.resumes) := by
      rw [hparent]
      exact .inside hs hresume hchain
    have hsequence := h.sequence (o.inside i resume) env w ht (harm.trans hselect) hinside hagrees
    rw [hparent] at hsequence
    exact .step (Frame.Works.takes_pending hworks) hsequence

end Evaluator.Simulated

end TreeMachine
