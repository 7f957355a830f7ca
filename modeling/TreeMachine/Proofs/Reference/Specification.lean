import TreeMachine.Proofs.Reference.Environments
import TreeMachine.Proofs.Reference.Positions

/-!
# What it means to simulate an evaluator

For each of the five things that an evaluator is available for, `Evaluator.Simulated` says from
which states the machine simulates it and to which ones it gets: an expression leaves its value as
an operand (`Gives`), and what is completed normally leaves the activation behind the statement or
sequence, a return leaves the activation, and a jump leaves it at the label, with what waits around
the label (`Completes`).

The states are described up to the environment. The machine remembers values for expressions and
statements in it, which the evaluator does not have, so the two agree on variables only
(`Env.Agrees`); and what is remembered for an expression or a statement that is still being worked
on has to be left alone (`Program.Leaves`), as otherwise a loop would not find its collection again.
For expressions this is said by numbers, because the parts of an expression come before it and all
of them come after the expressions of the statements around.

A `Spot` is the place of a statement or of a sequence: the activation, what waits around it, and the
callers. The statement of simulation is relative to a spot, and it is applied at the spot one level
deeper when a sequence is run. A jump out of a sequence is handed on until it comes to the sequence
that has the label, just as the evaluator hands it on, whereas the machine has unwound its stacks in
the step of the jump. So a completion by a jump is described by the state that the machine is in
already.
-/

namespace TreeMachine

/-- An activation after its current expression has been given a value. -/
def Frame.given (f : Frame) (env : Env) (v : Value) : Frame :=
  { f with
    env := env
    suspended := f.suspended.tail
    operands := v :: f.operands
    expr := f.suspended.head?.map Prod.fst
    exprStage := (f.suspended.head?.map Prod.snd).getD 0 }

/-- The machine has finished with an expression: its value is the top operand, the variables are
those of the world, and nothing else has been written but what is remembered for its parts. -/
def Gives (p : Program) (f : Frame) (e : ExprId) (callers : List Frame) (v : Value) (w : World)
    (y : State) : Prop :=
  ∃ env, (∀ n, p.From n e → f.env.SameBelow n env) ∧ env.Agrees w.env ∧
    y = ⟨f.given env v :: callers, w.heap, w.sink⟩

/-- The place of a statement or a sequence: the activation it is in, and what waits around it. -/
structure Spot where
  home : Home
  waiting : List StmtId
  resumes : List Nat
  callers : List Frame

/-- The activation at a stage of a statement of a spot. -/
def Spot.frame (o : Spot) (i : StmtId) (stage : Nat) (env : Env) (operands : List Value) : Frame :=
  o.home.at ⟨some i, stage, o.waiting, o.resumes⟩ env operands

/-- The state at a stage of a statement of a spot. -/
def Spot.state (o : Spot) (i : StmtId) (stage : Nat) (env : Env) (operands : List Value)
    (w : World) : State :=
  ⟨o.frame i stage env operands :: o.callers, w.heap, w.sink⟩

/-- Inside a statement of a spot, which is resumed at a stage. -/
def Spot.inside (o : Spot) (i : StmtId) (stage : Nat) : Spot :=
  { o with waiting := i :: o.waiting, resumes := stage :: o.resumes }

/-- The machine has got to a position, with the variables of the world, and has left alone what is
remembered for the statements that wait around the spot. -/
def Spot.Lands (p : Program) (o : Spot) (env : Env) (pos : Position) (w : World) (y : State) :
    Prop :=
  ∃ env', p.Leaves o.waiting env env' ∧ env'.Agrees w.env ∧
    y = ⟨o.home.at pos env' [] :: o.callers, w.heap, w.sink⟩

/-- **Where the machine is when something at a spot has been completed**, given the position behind
it. A label that is jumped to is one of the sequences that are being run. -/
def Spot.Completes (p : Program) (o : Spot) (env : Env) (after : Position) (c : Completion)
    (w : World) (y : State) : Prop :=
  match c with
  | .normal => o.Lands p env after w y
  | .return v => y = ⟨Frame.returned v o.callers, w.heap, w.sink⟩
  | .jump l => ∃ s name, p.stmt? l = some s ∧ s.kind = .label name ∧
      (∀ q, s.parent = some q → q ∈ o.waiting) ∧
      o.Lands p env ⟨some l, 0, (Frame.unwind s.parent o.waiting o.resumes).1,
        (Frame.unwind s.parent o.waiting o.resumes).2⟩ w y

/-- A sequence catches the jumps to labels in the sequences of its owner. -/
def Spot.CompletesSequence (p : Program) (o : Spot) (owner : Option StmtId) (env : Env)
    (c : Completion) (w : World) (y : State) : Prop :=
  o.Completes p env (p.behind o.waiting o.resumes) c w y ∧ ∀ l, c = .jump l → p.parent? l ≠ owner

/-- **The machine simulates an evaluator** with some fuel. -/
structure Evaluator.Simulated (p : Program) (fuel : Nat) (ev : Evaluator) : Prop where
  expr : ∀ {f : Frame} {e : ExprId} {scope : ScopeId} (callers : List Frame) (w : World),
    f.expr = some e → f.exprStage = 0 → (∃ x, p.expr? e = some x) →
    p.scopeOf? f.stmt f.scope = some scope → f.env.Agrees w.env →
    Simulates p 0 fuel ⟨f :: callers, w.heap, w.sink⟩ (ev.expr scope e w) (Gives p f e callers)
  sequence : ∀ {i : StmtId} {s : Stmt} (o : Spot) (env : Env) (w : World), p.stmt? i = some s →
    s.kind.isArm = false → p.Chain s.parent o.waiting o.resumes → env.Agrees w.env →
    Simulates p 0 fuel (o.state i 0 env [] w) (ev.sequence s.parent i w)
      (o.CompletesSequence p s.parent env)
  loop : ∀ {i : StmtId} {s : Stmt} {cond : ExprId} {body : Option StmtId} {testFirst : Bool}
    (o : Spot) (env : Env) (w : World), p.stmt? i = some s → s.kind = .loop cond body testFirst →
    p.Chain s.parent o.waiting o.resumes → env.Agrees w.env →
    Simulates p 0 fuel (o.state i LoopStage.test.number env [] w) (ev.loop i s.scope cond body w)
      (o.Completes p env (p.passing i o.waiting o.resumes))
  iterate : ∀ {i : StmtId} {s : Stmt} {index : VarId} {iterator : ExprId} {body : Option StmtId}
    {stage : ForallStage} {collection : Value} (o : Spot) (env : Env) (w : World) (state : Value),
    p.stmt? i = some s → s.kind = .forall [index] [iterator] body →
    p.Chain s.parent o.waiting o.resumes → env.Agrees w.env →
    env.get? (.expr iterator) = some collection → (stage = .valid ∨ stage = .advance) →
    Simulates p 0 fuel (o.state i stage.number env [state] w)
      (ev.iterate i s.scope index body collection state w)
      (o.Completes p env (p.passing i o.waiting o.resumes))
  arms : ∀ {i select : StmtId} {s : Stmt} {selected : Value} (o : Spot) (env : Env) (w : World),
    p.stmt? i = some s → s.kind.isArm = true → s.parent = some select →
    p.Chain s.parent o.waiting o.resumes → env.Agrees w.env →
    env.get? (.stmt select) = some selected →
    Simulates p 0 fuel (o.state i 0 env [] w) (ev.arms selected i w)
      (o.Completes p env (p.behind o.waiting o.resumes))

/-- Without fuel there is nothing to simulate. -/
theorem Evaluator.simulated_exhausted (p : Program) : Evaluator.exhausted.Simulated p 0 where
  expr _ _ _ _ _ _ _ := ⟨_, .refl _⟩
  sequence _ _ _ _ _ _ _ := ⟨_, .refl _⟩
  loop _ _ _ _ _ _ _ := ⟨_, .refl _⟩
  iterate _ _ _ _ _ _ _ _ _ _ := ⟨_, .refl _⟩
  arms _ _ _ _ _ _ _ _ _ := ⟨_, .refl _⟩

end TreeMachine
