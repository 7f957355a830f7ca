import TreeMachine.Proofs.Reference.Specification

/-!
# Simulating calls

A step that makes a call does what the evaluator does for it: it fails likewise, or the caller has
the value at once, or the body of the function is run in an activation of its own, and when that is
left the caller has the value (`Evaluator.Simulated.call`).

Calls are made by expressions and by loops over collections, and once by the start of a task. They
have in common that a step consists of some effect on a context (`State.Performs`), which is
computed from the callee, the arguments and the scope in the same order of checks as in the
evaluator: what the callee is, whether a collection answers, what the name resolves to, and how many
arguments there are.

The environment of a call holds the parameters. When the body is over this environment is gone,
together with the activation, and the variables of the caller are what they were (`Returns`). So is
all that it remembers, since the callers below are not touched in between, which is a part of how a
simulated sequence is described.
-/

namespace TreeMachine

/-- In an environment of its own a computation changes that one, and the other one is back in the
end. -/
theorem Simulates.within {α : Type} {p : Program} {least fuel : Nat} {x : State} {m : Eval α}
    {env : Env} {w : World} {Q : α → World → State → Prop}
    (h : Simulates p least fuel x (m { w with env := env }) Q) :
    Simulates p least fuel x (Eval.within env m w)
      (fun a w' y => w'.env = w.env ∧ ∃ env', Q a { w' with env := env' } y) := by
  unfold Eval.within
  match m { w with env := env }, h with
  | none, h => exact h
  | some (.error _, _), h => exact h
  | some (.ok a, w'), ⟨n, y, hn, hy, hQ⟩ => exact ⟨n, y, hn, hy, rfl, w'.env, hQ⟩

/-- A step from a state consists in a call, whose effect does not depend on the count of steps. -/
def State.Performs (p : Program) (x : State) (effect : Nat → Effect Unit) : Prop :=
  x.frames ≠ [] ∧ ∀ steps, (x.context steps).step p 0 x.sink =
    ⟨(effect steps).context, (effect steps).sink,
      (effect steps).result.map fun () => (effect steps).context.progress⟩

namespace State.Performs

variable {p : Program} {x y : State} {effect : Nat → Effect Unit}

theorem takes (h : x.Performs p effect)
    (he : ∀ steps, effect steps = ⟨y.context steps, y.sink, .ok ()⟩) : x.Takes p y := by
  refine ⟨h.1, fun steps => ⟨(y.context steps).progress, ?_⟩⟩
  rw [h.2 steps, he steps]
  rfl

theorem fails (h : x.Performs p effect) {e : Fault} {frames : List Frame} {heap : Heap}
    {sink : Sink} (he : ∀ steps, effect steps = ⟨⟨frames, heap, steps⟩, sink, .error e⟩) :
    x.Fails p e heap sink := by
  refine ⟨h.1, fun steps => ⟨frames, ?_⟩⟩
  rw [h.2 steps, he steps]
  rfl

end State.Performs

/-- The value of a call is an operand of the caller, and the variables are as before. -/
def Returns (frames : Value → List Frame) (env : Env) (v : Value) (w : World) (y : State) : Prop :=
  w.env = env ∧ y = ⟨frames v, w.heap, w.sink⟩

/-- There is a scope in which a body calls functions. -/
theorem Program.BodyFits.scopeOf? {p : Program} {first : Option StmtId} (h : p.BodyFits first)
    (otherwise : ScopeId) : ∃ scope, p.scopeOf? first otherwise = some scope := by
  cases first with
  | none => exact ⟨otherwise, rfl⟩
  | some c =>
    obtain ⟨s, hs, -⟩ := h c rfl
    exact ⟨s.scope, by rw [Program.scopeOf?, hs, Option.map_some]⟩

/-- **Nothing encloses a body**: when it has been completed, the activation is left with the value
of a return or with the empty value. -/
theorem Spot.CompletesSequence.outermost {p : Program} {home : Home} {callers : List Frame}
    {env : Env} {c : Completion} {w : World} {y : State}
    (h : Spot.CompletesSequence p ⟨home, [], [], callers⟩ none env c w y) :
    ∃ v, (c = .normal ∧ v = .empty ∨ c = .return v) ∧
      ∃ n, State.Steps p n y ⟨Frame.returned v callers, w.heap, w.sink⟩ := by
  obtain ⟨h, hout⟩ := h
  cases c with
  | normal =>
    obtain ⟨env', -, -, rfl⟩ := h
    have hstep : State.Takes p
        ⟨home.at (p.behind [] []) env' [] :: callers, w.heap, w.sink⟩
        ⟨Frame.returned .empty callers, w.heap, w.sink⟩ := Frame.takes_exhausted rfl rfl
    exact ⟨.empty, .inl ⟨rfl, rfl⟩, 1, .one hstep⟩
  | «return» v => exact ⟨v, .inr rfl, 0, h ▸ .refl y⟩
  | jump l =>
    -- The outermost sequence catches its labels, and all others have something around them.
    obtain ⟨s, name, hs, -, hwaiting, -⟩ := h
    have hparent : p.parent? l = s.parent := Program.parent?_eq hs
    cases hq : s.parent with
    | none => exact absurd (hparent.trans hq) (hout l rfl)
    | some q => cases hwaiting q hq

namespace Evaluator.Simulated

variable {p : Program} {fuel : Nat} {ev : Evaluator}

/-- A body from its start on. -/
theorem outerBody (h : ev.Simulated p fuel) {first : Option StmtId} (hbody : p.BodyFits first)
    (home : Home) (env : Env) (callers : List Frame) (w : World) (hagrees : env.Agrees w.env) :
    Simulates p 0 fuel ⟨home.at ⟨first, 0, [], []⟩ env [] :: callers, w.heap, w.sink⟩
      (ev.body none first w) (Spot.CompletesSequence p ⟨home, [], [], callers⟩ none env) := by
  cases first with
  | none => exact .result ⟨⟨env, .refl p [] env, hagrees, rfl⟩, nofun⟩
  | some c =>
    obtain ⟨s, hs, hparent, harm⟩ := hbody c rfl
    have hchain : p.Chain s.parent [] [] := hparent ▸ .top
    have hsequence := h.sequence ⟨home, [], [], callers⟩ env w hs harm hchain hagrees
    rw [hparent] at hsequence
    exact hsequence

/-- **A body** that is run in an activation of its own leaves its value to the caller. -/
theorem callBody (h : ev.Simulated p fuel) {first : Option StmtId} (hbody : p.BodyFits first)
    (home : Home) (place : Place) (env : Env) (callers : List Frame) (w : World) :
    Simulates p 0 fuel
      ⟨home.at ⟨first, 0, [], []⟩ env [] :: callers, w.heap, w.sink⟩
      ((do
        match ← Eval.within env (ev.body none first) with
        | .normal => return .empty
        | .return v => return v
        | .jump l => Eval.defect place (.labelOutOfReach l) : Eval Value) w)
      (Returns (fun v => Frame.returned v callers) w.env) := by
  have hsequence := h.outerBody hbody home env callers { w with env := env } fun _ => rfl
  refine hsequence.within.bindSame ?_
  rintro c w' y ⟨henv, env', hcompletes⟩
  obtain ⟨v, hvalue, n, hsteps⟩ := hcompletes.outermost
  rcases hvalue with ⟨rfl, rfl⟩ | rfl
  · exact ⟨n, _, Nat.zero_le n, hsteps, henv, rfl⟩
  · exact ⟨n, _, Nat.zero_le n, hsteps, henv, rfl⟩

/-- **Entering a function** in a step. -/
theorem enter (h : ev.Simulated p fuel) (hp : p.WellFormed) {x : State} {f : Frame}
    {callers : List Frame} {w : World} {place : Place} {id : FnId} {args : List Value}
    (hx : x.Performs p fun steps =>
      Context.enter p place id args ⟨f :: callers, w.heap, steps⟩ w.sink)
    (hbusy : f.isExhausted = false) :
    Simulates p 1 (fuel + 1) x (ev.enter p place id args w)
      (Returns (fun v => f.push v :: callers) w.env) := by
  have hfails : ∀ {e : Fault} {heap : Heap} {sink : Sink}, (∀ steps,
      Context.enter p place id args ⟨f :: callers, w.heap, steps⟩ w.sink =
        ⟨⟨f :: callers, heap, steps⟩, sink, .error e⟩) → x.Fails p e heap sink :=
    fun he => hx.fails he
  unfold Evaluator.enter
  cases hf : p.function? id with
  | none =>
    refine .failure (hfails fun steps => ?_)
    simp only [Context.enter, hf]
  | some fn =>
    dsimp only
    by_cases harity : args.length ≠ fn.arity
    · rw [if_pos harity]
      refine .failure (hfails fun steps => ?_)
      simp only [Context.enter, hf, if_pos harity]
    · rw [if_neg harity]
      cases hbody : fn.body with
      | primitive q =>
        unfold Eval.perform
        dsimp only
        cases hresult : (q.apply args w.heap w.sink).result with
        | error e =>
          refine .failure (hfails fun steps => ?_)
          simp only [Context.enter, hf, if_neg harity, hbody, hresult]
        | ok v =>
          have htakes : x.Takes p ⟨f.push v :: callers, (q.apply args w.heap w.sink).heap,
              (q.apply args w.heap w.sink).sink⟩ := by
            refine hx.takes fun steps => ?_
            simp only [Context.enter, hf, if_neg harity, hbody, hresult]
            rfl
          exact .step htakes (.result ⟨rfl, rfl⟩)
      | code first =>
        have hfits := (hp.functions id fn hf).body first hbody
        obtain ⟨scope, hscope⟩ := hfits.scopeOf? fn.scope
        have htakes : x.Takes p
            ⟨Home.at ⟨some id, scope⟩ ⟨first, 0, [], []⟩ (.ofParams fn.params args) [] ::
              f :: callers, w.heap, w.sink⟩ := by
          refine hx.takes fun steps => ?_
          simp only [Context.enter, hf, if_neg harity, hbody, hscope]
          simp only [Context.activate, hbusy]
          rfl
        exact .step htakes (h.callBody hfits ⟨some id, scope⟩ place _ (f :: callers) w)

/-- Calling what a value stands for in a step. -/
theorem apply (h : ev.Simulated p fuel) (hp : p.WellFormed) {x : State} {f : Frame}
    {callers : List Frame} {w : World} {place : Place} {scope : ScopeId} {callee : Value}
    {args : List Value}
    (hx : x.Performs p fun steps =>
      Context.apply p place scope callee args ⟨f :: callers, w.heap, steps⟩ w.sink)
    (hbusy : f.isExhausted = false) :
    Simulates p 1 (fuel + 1) x (ev.call p place scope callee args w)
      (Returns (fun v => f.push v :: callers) w.env) := by
  have hfails : ∀ {e : Fault}, (∀ steps,
      Context.apply p place scope callee args ⟨f :: callers, w.heap, steps⟩ w.sink =
        ⟨⟨f :: callers, w.heap, steps⟩, w.sink, .error e⟩) → x.Fails p e w.heap w.sink :=
    fun he => hx.fails he
  cases callee with
  | function id => exact h.enter hp hx hbusy
  | selector name =>
    cases hanswer : p.answer? w.heap place name args with
    | some r =>
      cases r with
      | error e =>
        have hcall : ev.call p place scope (.selector name) args w = some (.error e, w) := by
          simp only [Evaluator.call, Bind.bind, Eval.world, hanswer]
          rfl
        rw [hcall]
        exact .failure (hfails fun steps => by simp only [Context.apply, hanswer])
      | ok v =>
        have hcall : ev.call p place scope (.selector name) args w = some (.ok v, w) := by
          simp only [Evaluator.call, Bind.bind, Eval.world, hanswer]
          rfl
        rw [hcall]
        have htakes : x.Takes p ⟨f.push v :: callers, w.heap, w.sink⟩ := by
          refine hx.takes fun steps => ?_
          simp only [Context.apply, hanswer]
          rfl
        exact .step htakes (.result ⟨rfl, rfl⟩)
    | none =>
      cases hresolve : p.resolve scope name with
      | error c =>
        have hcall : ev.call p place scope (.selector name) args w =
            some (.error (.user place c), w) := by
          simp only [Evaluator.call, Bind.bind, Eval.world, hanswer, hresolve]
          rfl
        rw [hcall]
        exact .failure (hfails fun steps => by simp only [Context.apply, hanswer, hresolve])
      | ok id =>
        have hcall : ev.call p place scope (.selector name) args w =
            ev.enter p place id args w := by
          simp only [Evaluator.call, Bind.bind, Eval.world, hanswer, hresolve]
        rw [hcall]
        refine h.enter hp ?_ hbusy
        refine ⟨hx.1, fun steps => ?_⟩
        rw [hx.2 steps]
        simp only [Context.apply, hanswer, hresolve]
  | _ => exact .failure (hfails fun steps => rfl)

/-- **A call in a step**: the activation has the arguments on top of the callee as operands. -/
theorem call (h : ev.Simulated p fuel) (hp : p.WellFormed) {f g : Frame} {callers : List Frame}
    {w : World} {scope : ScopeId} {callee : Value} {args rest : List Value}
    (hworks : f.Works p (g, .ok (.call (args.length + 1))))
    (hoperands : g.operands = args.reverse ++ callee :: rest)
    (hscope : p.scopeOf? g.stmt g.scope = some scope) (hbusy : g.isExhausted = false) :
    Simulates p 1 (fuel + 1) ⟨f :: callers, w.heap, w.sink⟩
      (ev.call p g.cursor scope callee args w)
      (Returns (fun v => { g with operands := v :: rest } :: callers) w.env) := by
  have hdrop : g.operands.drop args.length = callee :: rest := by
    rw [hoperands, ← List.length_reverse, List.drop_left]
  have htake : (g.operands.take args.length).reverse = args := by
    rw [hoperands, ← List.length_reverse, List.take_left, List.reverse_reverse]
  -- The call itself is made by the activation without its callee and arguments.
  refine h.apply hp (f := { g with operands := rest }) ⟨List.cons_ne_nil _ _, fun steps => ?_⟩ hbusy
  refine (hworks.step callers w.heap w.sink steps).trans ?_
  simp only [Context.meet, Context.invoke, Context.cursor, hdrop, htake, hscope]

end Evaluator.Simulated

end TreeMachine
