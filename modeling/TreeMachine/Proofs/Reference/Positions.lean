import TreeMachine.Proofs.Execution.Frame
import TreeMachine.Proofs.Reference.Simulation
import TreeMachine.Proofs.Tree.Chain

/-!
# Positions in the tree

Where an activation is in the tree is a `Position`: a statement with a stage, and the statements
that wait with theirs. What comes behind a sequence, or behind a statement, is a function of what
waits (`Program.behind`, `Program.passing`), and the machine moves there (`Frame.advance_at`). What
one step of the machine does is said by the unit of work that it consists of (`Frame.Works`).

The two functions say by recursion on the waiting statements what the machine does by a loop. They
make it possible to name the state behind a statement before it is known how many statements end
with it: the last statement of a nested sequence ends all of those around it that have nothing left
to do, in the same step. The evaluator returns from each of them in turn, without a step of the
machine. So a statement that is simulated takes the activation behind it in this sense, and nothing
has to be done where the evaluator returns.

An activation between two expressions is given by its position, its environment and its operands,
and by what does not change while it moves (`Home`).
-/

namespace TreeMachine

/-- Where an activation is in the tree. -/
structure Position where
  stmt : Option StmtId
  stage : Nat
  waiting : List StmtId
  resumes : List Nat

/-- What stays the same while an activation moves in the tree. -/
structure Home where
  function : Option FnId
  scope : ScopeId

/-- An activation between two expressions. -/
def Home.at (home : Home) (pos : Position) (env : Env) (operands : List Value) : Frame where
  env := env
  waiting := pos.waiting
  resumes := pos.resumes
  suspended := []
  operands := operands
  stmt := pos.stmt
  expr := none
  stage := pos.stage
  exprStage := 0
  function := home.function
  scope := home.scope

namespace Program

variable {p : Program}

/-- The position behind a sequence, given what waits around it. -/
def behind (p : Program) : List StmtId → List Nat → Position
  | [], resumes => ⟨none, 0, [], resumes⟩
  | _ :: waiting, [] => ⟨none, 0, waiting, []⟩
  | q :: waiting, 0 :: resumes =>
    match (p.stmt? q).bind Stmt.next with
    | some next => ⟨some next, 0, waiting, resumes⟩
    | none => p.behind waiting resumes
  | q :: waiting, (stage + 1) :: resumes => ⟨some q, stage + 1, waiting, resumes⟩

/-- The position behind a statement. -/
def passing (p : Program) (i : StmtId) (waiting : List StmtId) (resumes : List Nat) : Position :=
  match (p.stmt? i).bind Stmt.next with
  | some next => ⟨some next, 0, waiting, resumes⟩
  | none => p.behind waiting resumes

theorem passing_of_next {i t : StmtId} {s : Stmt} (hs : p.stmt? i = some s)
    (hn : s.next = some t) (waiting : List StmtId) (resumes : List Nat) :
    p.passing i waiting resumes = ⟨some t, 0, waiting, resumes⟩ := by
  rw [passing, hs, Option.bind_some, hn]

theorem passing_of_last {i : StmtId} {s : Stmt} (hs : p.stmt? i = some s) (hn : s.next = none)
    (waiting : List StmtId) (resumes : List Nat) :
    p.passing i waiting resumes = p.behind waiting resumes := by
  rw [passing, hs, Option.bind_some, hn]

end Program

namespace Frame

variable {p : Program}

/-- **Moving past a statement** leads to the position behind it, wherever the activation was. -/
theorem moveOn_at (home : Home) (env : Env) {pos : Position} (hstage : pos.stage = 0) {i : StmtId}
    {s : Stmt} (hs : p.stmt? i = some s) {o : Option StmtId} {waiting : List StmtId}
    {resumes : List Nat} (h : p.Chain o waiting resumes) :
    (home.at pos env []).moveOn p i waiting resumes =
      .ok (home.at (p.passing i waiting resumes) env []) := by
  obtain ⟨here, stage, W, R⟩ := pos
  cases hstage
  induction h generalizing i s with
  | top =>
    unfold moveOn
    simp only [hs]
    cases hn : s.next with
    | none => rw [Program.passing_of_last hs hn]; rfl
    | some t => rw [Program.passing_of_next hs hn]; rfl
  | @inside q sq stage waiting resumes hq _ _ ih =>
    unfold moveOn
    simp only [hs]
    cases hn : s.next with
    | some t => rw [Program.passing_of_next hs hn]; rfl
    | none =>
      rw [Program.passing_of_last hs hn]
      cases stage with
      | zero => exact ih hq
      | succ stage => rfl

/-- An activation that is through with a statement goes on behind it. -/
theorem advance_at (home : Home) (env : Env) {i : StmtId} {s : Stmt} (hs : p.stmt? i = some s)
    {waiting : List StmtId} {resumes : List Nat} (h : p.Chain s.parent waiting resumes)
    (stage : Nat) (operands : List Value) :
    (home.at ⟨some i, stage, waiting, resumes⟩ env operands).advance p =
      .ok (home.at (p.passing i waiting resumes) env []) :=
  @moveOn_at p home env ⟨some i, 0, waiting, resumes⟩ rfl i s hs _ _ _ h

/-- A step does the unit of work and meets what it demands. -/
theorem Works.step {f : Frame} {w : Work} (h : f.Works p w) (callers : List Frame) (heap : Heap)
    (sink : Sink) (steps : Nat) :
    Context.step p 0 ⟨f :: callers, heap, steps⟩ sink =
      Context.meet p f.cursor callers w ⟨f :: callers, heap, steps⟩ sink := by
  obtain ⟨node, hnode, rfl⟩ := h
  simp only [Context.step, hnode, if_true]

variable {f g : Frame} {callers : List Frame} {heap : Heap} {sink : Sink}

theorem Works.takes_pending (h : f.Works p (g, .ok .pending)) :
    State.Takes p ⟨f :: callers, heap, sink⟩ ⟨g :: callers, heap, sink⟩ :=
  ⟨List.cons_ne_nil _ _, fun steps => ⟨_, h.step callers heap sink steps⟩⟩

theorem Works.takes_jumped (h : f.Works p (g, .ok .jumped)) :
    State.Takes p ⟨f :: callers, heap, sink⟩ ⟨g :: callers, heap, sink⟩ :=
  ⟨List.cons_ne_nil _ _, fun steps => ⟨_, h.step callers heap sink steps⟩⟩

theorem Works.takes_complete {g' : Frame} (h : f.Works p (g, .ok .complete))
    (hg : g.advance p = .ok g') :
    State.Takes p ⟨f :: callers, heap, sink⟩ ⟨g' :: callers, heap, sink⟩ := by
  refine ⟨List.cons_ne_nil _ _, fun steps => ⟨Context.progress ⟨g' :: callers, heap, steps⟩, ?_⟩⟩
  refine (h.step callers heap sink steps).trans ?_
  simp only [Context.meet, hg]
  rfl

theorem Works.fails {e : Fault} (h : f.Works p (g, .error e)) :
    State.Fails p ⟨f :: callers, heap, sink⟩ e heap sink :=
  ⟨List.cons_ne_nil _ _, fun steps => ⟨_, h.step callers heap sink steps⟩⟩

/-- The callers after the innermost activation has been left with a value. -/
def returned (v : Value) : List Frame → List Frame
  | caller :: rest => caller.push v :: rest
  | [] => []

theorem detach_eq (f : Frame) (callers : List Frame) (heap : Heap) (steps : Nat) (v : Value) :
    Context.detach ⟨f :: callers, heap, steps⟩ v = ⟨returned v callers, heap, steps⟩ := by
  cases callers <;> rfl

theorem Works.takes_leave {v : Value} (h : f.Works p (g, .ok (.leave v))) :
    State.Takes p ⟨f :: callers, heap, sink⟩ ⟨returned v callers, heap, sink⟩ := by
  refine ⟨List.cons_ne_nil _ _,
    fun steps => ⟨Context.progress ⟨returned v callers, heap, steps⟩, ?_⟩⟩
  refine (h.step callers heap sink steps).trans ?_
  simp only [Context.meet, detach_eq]
  rfl

/-- An activation that has nothing left to do is left with the empty value. -/
theorem takes_exhausted (hexpr : f.expr = none) (hstmt : f.stmt = none) :
    State.Takes p ⟨f :: callers, heap, sink⟩ ⟨returned .empty callers, heap, sink⟩ := by
  have hnone : f.pending? p = none := by simp only [pending?, hexpr, hstmt]
  refine ⟨List.cons_ne_nil _ _,
    fun steps => ⟨Context.progress ⟨returned .empty callers, heap, steps⟩, ?_⟩⟩
  simp only [State.context, Context.step, hnone, detach_eq]

end Frame

end TreeMachine
