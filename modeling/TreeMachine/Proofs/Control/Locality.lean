import TreeMachine.Proofs.Control.LateBinding
import TreeMachine.Proofs.Control.Outcomes
import TreeMachine.Proofs.Execution.Entries
import TreeMachine.Proofs.Execution.Flow
import TreeMachine.Proofs.Heap.Histories
import TreeMachine.Proofs.Linking.Parameters

/-!
# A step touches the current activation only

A step works in the innermost activation, leaves it, or calls from it. The activations below are
what they were, except that one which is returned to has got a single operand; an activation that is
entered starts with its arguments and nothing else; no activation loses a key of its environment;
and no object of the heap is changed (`step_stays_local`). All this holds of any context with a heap
that came about by allocations, writes and collections, whether a run can get into it or not, and of
any step, whether it succeeds or not.

The statement is a frame condition. It is put together from one that says what a step comes to, case
by case (`Context.StepEnds`), and one that says what a unit of work draws from
(`Frame.Works.draws`), without going through the stages of the nodes again. `Context.Touched` has
the four cases that are left when only the activations are looked at.

That the environment of an entered function holds its arguments, each under its parameter, needs the
parameters to be different variables. This is a property of linked programs
(`Program.distinctParams_of_link`), and the only thing that is asked of the program. The heap has to
be valid for an allocation not to overwrite an object, which is why its history is mentioned.

Collections are not steps. They free objects, and what they leave alone is said elsewhere.
-/

namespace TreeMachine

/-! ### Bound arguments -/

/-- Parameters that are different variables are bound to the arguments in order. -/
theorem Env.get?_bind {params : List VarId} (hdistinct : params.Nodup) (args : List Value)
    (env : Env) (k : Key) (v : Value) :
    ((params.zip args).foldl (fun env b => env.put (.var b.1) b.2) env).get? k = some v ↔
      (k, v) ∈ (params.map Key.var).zip args ∨
        (∀ b ∈ params.zip args, k ≠ .var b.1) ∧ env.get? k = some v := by
  induction params generalizing args env with
  | nil => simp
  | cons x params ih =>
    obtain ⟨hx, hdistinct⟩ := List.nodup_cons.1 hdistinct
    cases args with
    | nil => simp
    | cons a args =>
      simp only [List.zip_cons_cons, List.foldl_cons, List.map_cons, List.mem_cons, ih hdistinct,
        Env.get?_put, Prod.mk.injEq]
      by_cases hk : k = .var x
      · subst hk
        -- The variable is bound now, and is not bound again.
        have hlater : ∀ b ∈ params.zip args, Key.var x ≠ .var b.1 := by
          rintro b hb ⟨⟩
          exact hx (List.of_mem_zip hb).1
        have hnot : (Key.var x, v) ∉ (params.map Key.var).zip args := by
          intro hmem
          obtain ⟨y, hy, ⟨⟩⟩ := List.mem_map.1 (List.of_mem_zip hmem).1
          exact hx hy
        constructor
        · rintro (hmem | ⟨-, hget⟩)
          · exact absurd hmem hnot
          · rw [if_pos rfl] at hget
            exact .inl (.inl ⟨rfl, (Option.some.inj hget).symm⟩)
        · rintro ((⟨-, rfl⟩ | hmem) | ⟨hfresh, -⟩)
          · exact .inr ⟨hlater, if_pos rfl⟩
          · exact absurd hmem hnot
          · exact absurd rfl (hfresh (x, a) (.inl rfl))
      · simp [hk]

namespace Frame

/-- An activation that has just been entered: the function is called with the arguments, its cursor
is on the first statement of the body if there is one, nothing waits, and the environment has the
parameters and nothing else. -/
structure Entered (p : Program) (id : FnId) (fn : Function) (args : List Value) (new : Frame) :
    Prop where
  found : p.function? id = some fn
  function : new.function = some id
  cursor : fn.body = .code new.stmt
  expr : new.expr = none
  stages : new.stage = 0 ∧ new.exprStage = 0
  statements : new.waiting = [] ∧ new.resumes = []
  suspended : new.suspended = []
  operands : new.operands = []
  arity : args.length = fn.params.length
  env : ∀ k v, new.env.get? k = some v ↔ (k, v) ∈ (fn.params.map Key.var).zip args

theorem entered_begin {p : Program} {id : FnId} {fn : Function} {first : Option StmtId}
    (hp : p.DistinctParams) (hfn : p.function? id = some fn) (hbody : fn.body = .code first)
    {args : List Value} (hargs : args.length = fn.params.length) (scope : ScopeId) :
    ((Frame.start none scope).begin id first scope fn.params args).Entered p id fn args := by
  refine ⟨hfn, rfl, hbody, rfl, ⟨rfl, rfl⟩, ⟨rfl, rfl⟩, rfl, rfl, hargs, fun k v => ?_⟩
  refine (Env.get?_bind (hp id fn hfn) args .empty k v).trans (or_iff_left ?_)
  rintro ⟨-, hempty⟩
  cases hempty

end Frame

namespace Context

/-- What a step makes of the activations: the innermost one stays, or is left, and the one below
gets a value, or it calls a function, whose activation is put on top. -/
inductive Touched (p : Program) (f : Frame) (callers : List Frame) : List Frame → Prop
  | stays {g : Frame} (hkeys : ∀ k, f.env.Has k → g.env.Has k) : Touched p f callers (g :: callers)
  | finished (hcallers : callers = []) : Touched p f callers []
  | returned {caller : Frame} {rest : List Frame} (v : Value)
      (hcallers : callers = caller :: rest) : Touched p f callers (caller.push v :: rest)
  | called {g new : Frame} {w : Work} {callee : Value} {args : List Value} {scope : ScopeId}
      {id : FnId} {fn : Function} (hkeys : ∀ k, f.env.Has k → g.env.Has k)
      (hstmt : g.stmt = f.stmt) (hwaiting : g.waiting = f.waiting)
      (hresumes : g.resumes = f.resumes)
      (hcalls : f.Calls p w callee args g.operands)
      (hscope : p.scopeOf? f.stmt f.scope = some scope) (hcallee : p.StandsFor scope callee id)
      (hnew : new.Entered p id fn args) : Touched p f callers (new :: g :: callers)

/-- **A step has touched the current activation only.** Objects stay as they are under their
handles, at most one object is added, and the step has not been counted yet. -/
structure StaysLocal (p : Program) (c c' : Context) : Prop where
  frames : ∀ f callers, c.frames = f :: callers → Touched p f callers c'.frames
  finished : c.frames = [] → c' = c
  depth : c'.depth ≤ c.depth + 1 ∧ c.depth ≤ c'.depth + 1
  objects : ∀ k o, c.heap.get? k = some o → c'.heap.get? k = some o
  heap : c'.heap = c.heap ∨
    ∃ o, c'.heap = (c.heap.alloc o).1 ∧ c'.heap.liveCount = c.heap.liveCount + 1
  steps : c'.steps = c.steps

variable {p : Program} {c c' : Context} {f g : Frame} {callers frames : List Frame}

theorem Touched.length (h : Touched p f callers frames) :
    frames.length ≤ callers.length + 2 ∧ callers.length ≤ frames.length := by
  cases h with
  | stays => exact ⟨Nat.le_succ _, Nat.le_succ _⟩
  | finished hcallers => rw [hcallers]; exact ⟨Nat.zero_le _, Nat.le_refl _⟩
  | returned v hcallers =>
    rw [hcallers, List.length_cons, List.length_cons]
    omega
  | called =>
    rw [List.length_cons, List.length_cons]
    omega

theorem touched_detach (hframes : c.frames = g :: callers) (v : Value) :
    Touched p f callers (c.detach v).frames := by
  unfold detach
  rw [hframes]
  cases callers with
  | nil => exact .finished rfl
  | cons caller rest => exact .returned v rfl

/-- A call leaves the activation at its statement, and may enter another one. -/
theorem touched_call (hp : p.DistinctParams) {w : Work} {callee : Value} {args rest : List Value}
    {scope : ScopeId} (hcalls : f.Calls p w callee args rest)
    (hscope : p.scopeOf? w.1.stmt w.1.scope = some scope)
    (hends : CallEnds p scope callee args (c.withTop { w.1 with operands := rest } callers) c') :
    Touched p f callers c'.frames := by
  have hdrawing := hcalls.works.draws.call _ hcalls.demand
  have hkeys := hdrawing.draws.keeps
  rw [hdrawing.stmt, hdrawing.scope] at hscope
  cases hends with
  | refused => exact .stays hkeys
  | answered hv => exact .stays hkeys
  | made lo hi => exact .stays hkeys
  | entered hcallee hfn hbody hargs hinner =>
    have hbusy := hcalls.works.not_isExhausted hcalls.demand rest
    simp only [activate, withTop, hbusy]
    exact .called hkeys hdrawing.stmt hdrawing.waiting hdrawing.resumes hcalls hscope hcallee
      (Frame.entered_begin hp hfn hbody hargs _)

/-- A step touches the innermost activation. -/
theorem StepEnds.touched (hp : p.DistinctParams) (hframes : c.frames = f :: callers)
    (h : StepEnds p c f callers c') : Touched p f callers c'.frames := by
  cases h with
  | stuck =>
    rw [hframes]
    exact .stays fun _ hk => hk
  | exhausted => exact touched_detach hframes .empty
  | worked hw hleave => exact .stays (hw.draws.settled p).keeps
  | left hw hleave => exact touched_detach rfl _
  | called hcalls hscope hends => exact touched_call hp hcalls hscope hends

end Context

/-- **Steps are local**, in any context of a linked program, whatever its activations are. -/
theorem step_stays_local {d : Source.Program} {p : Program} (h : Program.link d = .ok p)
    {c : Context} {ops : List Heap.Op} (hheap : c.heap = Heap.empty.run ops) (traceLevel : Nat)
    (sink : Sink) : c.StaysLocal p (c.step p traceLevel sink).context := by
  have hvalid : c.heap.Valid := hheap ▸ Heap.valid_empty.run ops
  have hgrown := Context.step_heap p traceLevel c sink
  have htouched : ∀ f callers, c.frames = f :: callers →
      Context.Touched p f callers (c.step p traceLevel sink).context.frames :=
    fun f callers hframes =>
      (Context.step_ends (Program.wellFormed_of_link h).iterables hframes traceLevel sink).touched
        (Program.distinctParams_of_link h) hframes
  have hfinished : c.frames = [] → (c.step p traceLevel sink).context = c := fun hnil => by
    rw [Context.step_of_nil hnil]
  refine ⟨htouched, hfinished, ?_, fun k o hk => ?_, ?_, Context.step_steps traceLevel c sink⟩
  · cases hframes : c.frames with
    | nil =>
      rw [hfinished hframes]
      exact ⟨Nat.le_succ _, Nat.le_succ _⟩
    | cons f callers =>
      have hlength := (htouched f callers hframes).length
      rw [Context.depth, Context.depth, hframes, List.length_cons]
      omega
  · rcases hgrown with hsame | ⟨o', hnew⟩
    · rw [hsame]
      exact hk
    · rw [hnew]
      exact hvalid.get?_alloc hk o'
  · rcases hgrown with hsame | ⟨o', hnew⟩
    · exact .inl hsame
    · exact .inr ⟨o', hnew, hnew ▸ hvalid.liveCount_alloc o'⟩

/-- A context that no run of `Source.Program.calling` gets into. The call is not an expression of
the statement, there is a stage for one waiting statement only, and a handle has no object. -/
def Context.stray : Context where
  frames := [{
    Frame.start (some ⟨3⟩) ⟨9⟩ with
    env := Env.empty.put (.stmt ⟨2⟩) (.object ⟨4, 4⟩)
    waiting := [⟨0⟩, ⟨1⟩]
    resumes := [7]
    operands := [.int 1, .selector "late", .bool true]
    expr := some ⟨12⟩
    exprStage := 2 }, .start none ⟨0⟩]
  heap := Heap.empty.run [.alloc ⟨"o", [.int 1]⟩, .collect [], .alloc ⟨"o", [.int 2]⟩]
  steps := 5

/-- The step enters the function, and the function below has the operand that the call left. -/
theorem step_stays_local_stray : ∃ p, Program.link .calling = .ok p ∧
    Context.stray.StaysLocal p (Context.stray.step p 0 (.ofLimit none)).context ∧
    (Context.stray.step p 0 (.ofLimit none)).context.frames.map Frame.operands =
      [[], [.bool true], []] := by
  have htests : Program.tests .calling (fun p _ =>
      decide ((Context.stray.step p 0 (.ofLimit none)).context.frames.map Frame.operands =
        [[], [.bool true], []])) = true := by decide +kernel
  obtain ⟨p, _, hlink, -, htest⟩ := Program.exists_of_tests htests
  exact ⟨p, hlink, step_stays_local hlink rfl 0 (.ofLimit none), of_decide_eq_true htest⟩

end TreeMachine
