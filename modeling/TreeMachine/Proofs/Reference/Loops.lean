import TreeMachine.Proofs.Reference.Sequences

/-!
# Simulating loops

A loop tests its condition and runs its body, and begins anew when the body is completed normally. A
loop over a collection has its collection and its state remembered in the environment, which the
body leaves alone, so that the machine sends the messages that the evaluator sends.

The evaluator has the collection and the state as arguments of a recursive function,
`Evaluator.iterate`. The machine has them under keys, one of the iterator and one of the statement
(`Looping`), and looks them up before each message. So behind the body of the loop the two agree
only because the environment has kept the two keys, which is part of what it means to complete the
body: it leaves alone what is remembered for the statements that wait, and the loop is one of them.

A round of the loop asks whether the state is valid, then for the element and, behind the body, for
the next state. Each question is a call, by the name of a message and in the scope of the statement;
it is answered by the collection if that is an object which can be iterated over, and else by a
function of the program, so a round may take any number of steps and may fail in between. That the
answers for a range are its elements is not used here.
-/

namespace TreeMachine

variable {p : Program} {o : Spot} {i : StmtId} {env : Env} {next parent : Option StmtId}
  {scope : ScopeId} {fuel : Nat} {ev : Evaluator}

/-- The environment has the collection and the state of a loop over a collection. -/
structure Looping (env : Env) (i : StmtId) (iterator : ExprId) (collection state : Value) :
    Prop where
  collection : env.get? (.expr iterator) = some collection
  state : env.get? (.stmt i) = some state

namespace Frame

theorem withCollection_of {f : Frame} {iterator : ExprId} {v : Value}
    (h : f.env.get? (.expr iterator) = some v) (next : Value → Work) :
    f.withCollection i iterator next = next v := by
  rw [withCollection, h]

end Frame

/-- A message about the state of a loop. -/
theorem Looping.ask {iterator : ExprId} {collection state : Value}
    (h : Looping env i iterator collection state) (o : Spot) (stage : Nat) (m : Message)
    (resume : ForallStage) : (o.frame i stage env []).askAtState i iterator m resume =
      (o.frame i resume.number env ([collection, state].reverse ++ [.selector m.selector])).demand
        (.call (m.argCount + 1)) := by
  have hcollection : (o.frame i stage env []).env.get? (.expr iterator) = some collection :=
    h.collection
  have hstate : (o.frame i stage env []).env.get? (.stmt i) = some state := h.state
  rw [Frame.askAtState, Frame.withCollection_of hcollection, Frame.withLoopState, hstate]
  rfl

namespace Evaluator.Simulated

/-- **A condition of a statement** is evaluated. What the statement does then depends on its truth
value. -/
theorem test (h : ev.Simulated p fuel) (hp : p.WellFormed) {s : Stmt} (hs : p.stmt? i = some s)
    {cond : ExprId} (hcond : cond ∈ s.kind.exprs) {stage resume : Nat}
    (hworks : (o.frame i stage env []).Works p ((o.frame i stage env []).evaluate cond resume))
    {work : Bool → Frame → Work}
    (hlook : ∀ env' v, (o.frame i resume env' [v]).Works p
      ((o.frame i resume env' [v]).popBool (.expr cond) work))
    (w : World) (hagrees : env.Agrees w.env) :
    Simulates p 1 (fuel + 1) (o.state i stage env [] w) (ev.condition s.scope cond w)
      (fun b w' y => ∃ env' v, (∀ n, p.From n cond → env.SameBelow n env') ∧
        env'.Agrees w'.env ∧ y = o.state i resume env' [v] w' ∧
        (o.frame i resume env' [v]).Works p (work b (o.frame i resume env' []))) := by
  refine (condition (h.operand hp hs hcond hworks hagrees) ?_).imp ?_
  · rintro v w' y c ⟨env', -, -, rfl⟩ hc
    have hfails := hlook env' v
    rw [Frame.popBool_error rfl hc] at hfails
    exact Frame.Works.fails hfails
  · rintro b w' y ⟨v, hb, env', hbelow, hagrees', rfl⟩
    have hnext := hlook env' v
    rw [Frame.popBool_ok rfl hb] at hnext
    exact ⟨env', v, hbelow, hagrees', rfl, hnext⟩

/-- The body of a loop, after which the loop begins anew. -/
theorem loopBody (h : ev.Simulated p fuel) (hp : p.WellFormed) {cond : ExprId}
    {body : Option StmtId} {testFirst : Bool}
    (hs : p.stmt? i = some ⟨.loop cond body testFirst, next, parent, scope⟩)
    (hchain : p.Chain parent o.waiting o.resumes) {f : Frame} {stage : Nat}
    (hworks : f.Works p ((o.frame i stage env []).run body LoopStage.test.number)) (w : World)
    (hagrees : env.Agrees w.env) :
    Simulates p 1 (fuel + 1) ⟨f :: o.callers, w.heap, w.sink⟩
      ((do
        match ← ev.body (some i) body with
        | .normal => ev.loop i scope cond body
        | c => return c : Eval Completion) w)
      (o.Completes p env (p.passing i o.waiting o.resumes)) := by
  have hbody : ∀ c, body = some c → c ∈ (StmtKind.loop cond body testFirst).children :=
    fun c hc => hc ▸ List.mem_singleton_self c
  refine (h.run hp hs hchain rfl hbody rfl hworks hagrees).bindLess ?_
  intro c w' y hc
  cases c with
  | normal =>
    obtain ⟨env', hl, hagrees', rfl⟩ := hc.lands
    refine (h.loop o env' w' hs rfl hchain hagrees').imp fun c w y hdone => ?_
    exact hdone.before hl.outer
  | «return» v => exact .result (hc.leave nofun _)
  | jump l => exact .result (hc.leave nofun _)

/-- A loop begins with its test or with its body. -/
theorem enterLoop (h : ev.Simulated p fuel) (hp : p.WellFormed) {cond : ExprId}
    {body : Option StmtId} {testFirst : Bool}
    (hs : p.stmt? i = some ⟨.loop cond body testFirst, next, parent, scope⟩)
    (hchain : p.Chain parent o.waiting o.resumes) (w : World) (hagrees : env.Agrees w.env) :
    Simulates p 1 (fuel + 1) (o.state i 0 env [] w)
      ((if testFirst then ev.loop i scope cond body
        else do
          match ← ev.body (some i) body with
          | .normal => ev.loop i scope cond body
          | c => return c : Eval Completion) w)
      (o.Completes p env (p.passing i o.waiting o.resumes)) := by
  have hworks := Frame.works_stmt (f := o.frame i 0 env []) rfl rfl hs
  cases testFirst with
  | true =>
    exact .step (Frame.Works.takes_pending hworks) (h.loop o env w hs rfl hchain hagrees)
  | false => exact h.loopBody hp hs hchain hworks w hagrees

/-- **A loop** from its next test on. -/
theorem evalLoop (h : ev.Simulated p fuel) (hp : p.WellFormed) {cond : ExprId}
    {body : Option StmtId} {testFirst : Bool}
    (hs : p.stmt? i = some ⟨.loop cond body testFirst, next, parent, scope⟩)
    (hchain : p.Chain parent o.waiting o.resumes) (w : World) (hagrees : env.Agrees w.env) :
    Simulates p 1 (fuel + 1) (o.state i LoopStage.test.number env [] w)
      (ev.evalLoop i scope cond body w) (o.Completes p env (p.passing i o.waiting o.resumes)) := by
  have hcond : cond ∈ (StmtKind.loop cond body testFirst).exprs := List.mem_singleton_self cond
  have hworks : (o.frame i 1 env []).Works p ((o.frame i 1 env []).evaluate cond 2) :=
    Frame.works_stmt rfl rfl hs
  have hlook : ∀ env' v, (o.frame i 2 env' [v]).Works p
      ((o.frame i 2 env' [v]).popBool (.expr cond) fun holds f =>
        if holds then f.run body LoopStage.test.number else f.demand .complete) :=
    fun _ _ => Frame.works_stmt rfl rfl hs
  refine (h.test hp hs hcond hworks hlook w hagrees).bindLess ?_
  rintro b w' y ⟨env', v, hbelow, hagrees', rfl, hnext⟩
  have hleaves : p.Leaves o.waiting env env' := .evaluate hp hs hchain hcond hbelow
  cases b with
  | false =>
    exact (hnext.completes hs hchain hleaves hagrees').lessFuel
  | true =>
    have hrun := h.loopBody hp hs hchain hnext w' hagrees'
    refine hrun.lessFuel.imp fun c w y hdone => ?_
    exact hdone.before hleaves

/-- A loop over a collection asks for the start state of the collection. -/
theorem evalForall (h : ev.Simulated p fuel) (hp : p.WellFormed) {index : VarId}
    {iterator : ExprId} {body : Option StmtId}
    (hs : p.stmt? i = some ⟨.forall [index] [iterator] body, next, parent, scope⟩)
    (hchain : p.Chain parent o.waiting o.resumes) (w : World) (hagrees : env.Agrees w.env) :
    Simulates p 1 (fuel + 1) (o.state i 0 env [] w)
      ((do
        let collection ← ev.expr scope iterator
        let state ← ev.send p i scope .start [collection]
        ev.iterate i scope index body collection state : Eval Completion) w)
      (o.Completes p env (p.passing i o.waiting o.resumes)) := by
  have hiterator : iterator ∈ (StmtKind.forall [index] [iterator] body).exprs :=
    List.mem_singleton_self iterator
  have hworks : (o.frame i 0 env []).Works p ((o.frame i 0 env []).evaluate iterator 1) :=
    Frame.works_stmt rfl rfl hs
  refine (h.operand hp hs hiterator hworks hagrees).bindLess ?_
  rintro collection w₁ y ⟨env₁, hbelow, hagrees₁, rfl⟩
  -- The collection is remembered for the iterator, whatever has been remembered for it before.
  have hstart : (o.frame i 1 env₁ [collection]).Works p
      ((o.frame i 2 (env₁.put (.expr iterator) collection)
        ([collection].reverse ++ [.selector Message.start.selector])).demand (.call 2)) :=
    Frame.works_stmt rfl rfl hs
  have hleaves : p.Leaves o.waiting env (env₁.put (.expr iterator) collection) :=
    .evaluate hp hs hchain hiterator fun n hn => (hbelow n hn).putExpr hn.le collection
  refine (h.send hp hs hstart).lessFuel.bindSame ?_
  rintro state w₂ y ⟨henv, rfl⟩
  have hagrees₂ : (env₁.put (.expr iterator) collection).Agrees w₂.env := by
    rw [henv]
    exact hagrees₁.putExpr iterator collection
  have hkept : (env₁.put (.expr iterator) collection).get? (.expr iterator) = some collection := by
    rw [Env.get?_put, if_pos rfl]
  have hiterate := h.iterate o _ w₂ state hs rfl hchain hagrees₂ hkept (.inl rfl)
  refine hiterate.imp fun c w y hc => ?_
  exact hc.before hleaves

/-- Behind its body a loop over a collection asks for the next state, and goes on from there. -/
theorem forallNext (h : ev.Simulated p fuel) (hp : p.WellFormed) {index : VarId}
    {iterator : ExprId} {body : Option StmtId} {collection state : Value}
    (hs : p.stmt? i = some ⟨.forall [index] [iterator] body, next, parent, scope⟩)
    (hchain : p.Chain parent o.waiting o.resumes)
    (hloop : Looping env i iterator collection state) (w : World) (hagrees : env.Agrees w.env) :
    Simulates p 1 (fuel + 1) (o.state i ForallStage.next.number env [] w)
      ((do
        let state' ← ev.send p i scope .next [collection, state]
        ev.iterate i scope index body collection state' : Eval Completion) w)
      (o.Completes p env (p.passing i o.waiting o.resumes)) := by
  have hask := hloop.ask o 5 .next .advance
  have hworks : (o.frame i 5 env []).Works p
      ((o.frame i 5 env []).askAtState i iterator .next .advance) := Frame.works_stmt rfl rfl hs
  rw [hask] at hworks
  refine (h.send hp hs hworks).bindLess ?_
  rintro state' w' y ⟨henv, rfl⟩
  have hagrees' : env.Agrees w'.env := by
    rw [henv]
    exact hagrees
  exact h.iterate o env w' state' hs rfl hchain hagrees' hloop.collection (.inr rfl)

/-- One round of a loop over a collection, which begins with a question for the element. -/
theorem forallRound (h : ev.Simulated p fuel) (hp : p.WellFormed) {index : VarId}
    {iterator : ExprId} {body : Option StmtId} {collection state : Value}
    (hs : p.stmt? i = some ⟨.forall [index] [iterator] body, next, parent, scope⟩)
    (hchain : p.Chain parent o.waiting o.resumes)
    (hloop : Looping env i iterator collection state) {f : Frame} {stage : Nat}
    (hworks : f.Works p ((o.frame i stage env []).askAtState i iterator .index .body)) (w : World)
    (hagrees : env.Agrees w.env) :
    Simulates p 1 (fuel + 1) ⟨f :: o.callers, w.heap, w.sink⟩
      ((do
        let element ← ev.send p i scope .index [collection, state]
        Eval.setVar index element
        match ← ev.body (some i) body with
        | .normal =>
          let state' ← ev.send p i scope .next [collection, state]
          ev.iterate i scope index body collection state'
        | c => return c : Eval Completion) w)
      (o.Completes p env (p.passing i o.waiting o.resumes)) := by
  have hbody : ∀ c, body = some c → c ∈ (StmtKind.forall [index] [iterator] body).children :=
    fun c hc => hc ▸ List.mem_singleton_self c
  rw [hloop.ask o stage .index .body] at hworks
  refine (h.send hp hs hworks).bindLess ?_
  rintro element w₁ y ⟨henv, rfl⟩
  have hagrees₁ : (env.put (.var index) element).Agrees (w₁.env.put (.var index) element) := by
    rw [henv]
    exact hagrees.putVar index element
  have hrunning : (o.frame i 4 env [element]).Works p
      ((o.frame i 4 (env.put (.var index) element) []).run body 5) :=
    Frame.works_stmt rfl rfl hs
  have hresume : (StmtKind.forall [index] [iterator] body).resume? = some 5 := rfl
  have hrun := h.run (w := { w₁ with env := w₁.env.put (.var index) element })
    hp hs hchain rfl hbody hresume hrunning hagrees₁
  refine hrun.lessFuel.bindSame ?_
  intro c w₂ y hc
  have hleaves : p.Leaves o.waiting env (env.put (.var index) element) :=
    (Program.Leaves.refl p o.waiting env).putVar index element
  cases c with
  | «return» v => exact .result ((hc.leave nofun _).before hleaves)
  | jump l => exact .result ((hc.leave nofun _).before hleaves)
  | normal =>
    -- The loop waited around its body, which has therefore left its collection and state alone.
    obtain ⟨env₂, hl, hagrees₂, rfl⟩ := hc.lands
    have hloop₂ : Looping env₂ i iterator collection state := by
      obtain ⟨hstate, hexprs⟩ := hl i List.mem_cons_self _ hs
      constructor
      · rw [hexprs iterator (List.mem_singleton_self iterator), Env.get?_put, if_neg nofun,
          hloop.collection]
      · rw [hstate, Env.get?_put, if_neg nofun, hloop.state]
    have hnext := h.forallNext hp hs hchain hloop₂ w₂ hagrees₂
    refine hnext.lessFuel.imp fun c w y hdone => ?_
    exact hdone.before (hleaves.trans hl.outer)

/-- **A loop over a collection** from a state on. -/
theorem evalIterate (h : ev.Simulated p fuel) (hp : p.WellFormed) {index : VarId}
    {iterator : ExprId} {body : Option StmtId} {stage : ForallStage} {collection state : Value}
    (hs : p.stmt? i = some ⟨.forall [index] [iterator] body, next, parent, scope⟩)
    (hchain : p.Chain parent o.waiting o.resumes) (w : World) (hagrees : env.Agrees w.env)
    (hcollection : env.get? (.expr iterator) = some collection)
    (hstage : stage = .valid ∨ stage = .advance) :
    Simulates p 1 (fuel + 1) (o.state i stage.number env [state] w)
      (ev.evalIterate p i scope index body collection state w)
      (o.Completes p env (p.passing i o.waiting o.resumes)) := by
  -- The state is remembered in the step in which the first message is sent.
  have hloop : Looping (env.put (.stmt i) state) i iterator collection state := by
    constructor
    · rw [Env.get?_put, if_neg nofun, hcollection]
    · rw [Env.get?_put, if_pos rfl]
  have hleaves : p.Leaves o.waiting env (env.put (.stmt i) state) :=
    (Program.Leaves.refl p o.waiting env).putStmt hp hs hchain state
  have hvalid : (o.frame i stage.number env [state]).Works p
      ((o.frame i 3 (env.put (.stmt i) state)
        ([collection, state].reverse ++ [.selector Message.valid.selector])).demand (.call 3)) := by
    have hworks := Frame.works_stmt (f := o.frame i stage.number env [state]) rfl rfl hs
    have hwork : (o.frame i stage.number env [state]).workStmt p i
        ⟨.forall [index] [iterator] body, next, parent, scope⟩ =
          (o.frame i stage.number (env.put (.stmt i) state) []).withCollection i iterator
            fun collection => (o.frame i 3 (env.put (.stmt i) state) []).send .valid collection
              (some state) := by
      rcases hstage with rfl | rfl <;> rfl
    rw [hwork, Frame.withCollection_of hloop.collection] at hworks
    exact hworks
  refine (h.send hp hs hvalid).bindLess ?_
  rintro valid w₁ y ⟨henv₁, rfl⟩
  have hagrees₁ : (env.put (.stmt i) state).Agrees w₁.env := by
    rw [henv₁]
    exact hagrees.putStmt i state
  have hcheck : (o.frame i 3 (env.put (.stmt i) state) [valid]).Works p
      ((o.frame i 3 (env.put (.stmt i) state) [valid]).popBool (.stmt i) fun valid f =>
        if valid then f.askAtState i iterator .index .body else f.demand .complete) :=
    Frame.works_stmt rfl rfl hs
  refine (show Simulates p 0 _ _ _ fun b w y => valid.asBool = .ok b ∧ w = w₁ ∧
    y = o.state i 3 (env.put (.stmt i) state) [valid] w₁ from .ofExcept ?_ ?_).bindSame ?_
  · exact fun b hb => .result ⟨hb, rfl, rfl⟩
  · intro c hc
    rw [Frame.popBool_error rfl hc] at hcheck
    exact Frame.Works.fails hcheck
  rintro b w' y ⟨hb, rfl, rfl⟩
  rw [Frame.popBool_ok rfl hb] at hcheck
  cases b with
  | false =>
    exact (Frame.Works.completes hcheck hs hchain hleaves hagrees₁).lessFuel
  | true =>
    have hround := h.forallRound hp hs hchain hloop hcheck w' hagrees₁
    refine hround.lessFuel.imp fun c w y hdone => ?_
    exact hdone.before hleaves

end Evaluator.Simulated

end TreeMachine
