import TreeMachine.Proofs.Control.Outcomes
import TreeMachine.Proofs.Iteration.Schedules
import TreeMachine.Proofs.Reference.Expressions

/-!
# Costs of expressions

An expression takes one step for each of its stages and those of its parts, of which a conditional
evaluates only one of its sides (`Program.Costs`). Its parts are evaluated on top of the operands
and the suspended expressions that are there. While it is evaluated, and as long as its calls are
answered at once, an activation changes only above them (`Frame.Inside`); and it ends where it
began, with one operand more (`Evaluation.evaluates`), after as many steps as the expression costs.

Which side of a conditional is taken depends on a value, so the cost is a relation between an
expression and a run: `tops k` is the top operand after `k` steps, and the rule of the conditional
looks it up when the condition has been evaluated. The relation determines the cost
(`Program.Costs.unique`), together with the expression that is evaluated last, under which the value
of a conditional is remembered.

The induction is on the expression, by its number, since the parts of an expression come before it
in the tables. Each case is put together from statements of the form that a run comes to a certain
point, steadily, unless a step fails before (`Evaluation.Comes`); a failure is thus one disjunct
that is carried along and never split off in the middle. `Evaluation.part` evaluates a part and
`Evaluation.side` the side that takes the place of a conditional.

Calls of functions with a body are left out: they run statements, in an activation of their own, for
as many steps as they like. That each call is answered at once is a hypothesis about the contexts of
the run (`Evaluation.AtOnce`), and it holds in particular in programs whose functions are all
primitives (`Context.callsAtOnce_of_primitives`). Turns are taken on an arbitrary schedule, so
neither traces nor collections change the cost.
-/

namespace TreeMachine

/-! ### Costs -/

namespace Program

mutual

/-- The number of steps that the evaluation of an expression takes which begins after `k` steps of a
run, and the last expression that produces its value. The side of a conditional is the one for the
value on top of the operands when the condition has been evaluated; `tops` gives the top operand
after each number of steps. -/
inductive Costs (p : Program) (tops : Nat → Option Value) : Nat → ExprId → Nat → ExprId → Prop
  | leaf {k : Nat} {e : ExprId} {x : Expr} (hx : p.expr? e = some x) (hparts : x.parts = []) :
      Costs p tops k e 1 e
  | assign {k n : Nat} {e value last : ExprId} {target : VarId}
      (hx : p.expr? e = some (.assign target value)) (hvalue : Costs p tops (k + 1) value n last) :
      Costs p tops k e (n + 2) e
  | choose {k n m : Nat} {e cond thenExpr elseExpr last last' : ExprId} {v : Value} {b : Bool}
      (hx : p.expr? e = some (.choose cond thenExpr elseExpr))
      (hcond : Costs p tops (k + 1) cond n last) (htop : tops (k + 1 + n) = some v)
      (hb : v.asBool = .ok b)
      (hside : Costs p tops (k + 1 + n + 1) (if b then thenExpr else elseExpr) m last') :
      Costs p tops k e (n + m + 2) last'
  | call {k n m : Nat} {e callee last : ExprId} {args : List ExprId}
      (hx : p.expr? e = some (.call callee args))
      (hcallee : Costs p tops (k + 1) callee n last) (hargs : CostsAll p tops (k + 1 + n) args m) :
      Costs p tops k e (n + m + args.length + 3) e

/-- The number of steps that the evaluation of some arguments takes, without the one that begins
each of them. -/
inductive CostsAll (p : Program) (tops : Nat → Option Value) : Nat → List ExprId → Nat → Prop
  | nil (k : Nat) : CostsAll p tops k [] 0
  | cons {k n m : Nat} {arg last : ExprId} {args : List ExprId}
      (harg : Costs p tops (k + 1) arg n last) (hargs : CostsAll p tops (k + 1 + n) args m) :
      CostsAll p tops k (arg :: args) (n + m)

end

variable {p : Program} {tops : Nat → Option Value}

/-- **The cost is determined** by the run, and so is the last expression, by induction on how it is
made up. -/
theorem Costs.unique {k n n' : Nat} {e last last' : ExprId} (h : p.Costs tops k e n last)
    (h' : p.Costs tops k e n' last') : n = n' ∧ last = last' := by
  refine @Costs.rec p tops
    (fun k e n last _ => ∀ {n' last'}, p.Costs tops k e n' last' → n = n' ∧ last = last')
    (fun k args n _ => ∀ {n'}, p.CostsAll tops k args n' → n = n')
    ?leaf ?assign ?choose ?call ?nil ?cons k e n last h n' last' h'
  case leaf =>
    intro k e x hx hparts n' last' h'
    cases h' with
    | leaf => exact ⟨rfl, rfl⟩
    | assign hx' | choose hx' | call hx' =>
      cases hx.symm.trans hx'
      cases hparts
  case assign =>
    intro k n e value last target hx _ ihvalue n' last' h'
    cases h' with
    | leaf hx' hparts =>
      cases hx.symm.trans hx'
      cases hparts
    | assign hx' hvalue' =>
      cases hx.symm.trans hx'
      obtain ⟨rfl, -⟩ := ihvalue hvalue'
      exact ⟨rfl, rfl⟩
    | choose hx' | call hx' => cases hx.symm.trans hx'
  case choose =>
    intro k n m e cond thenExpr elseExpr last last₁ v b hx _ htop hb _ ihcond ihside n' last' h'
    cases h' with
    | leaf hx' hparts =>
      cases hx.symm.trans hx'
      cases hparts
    | assign hx' | call hx' => cases hx.symm.trans hx'
    | choose hx' hcond' htop' hb' hside' =>
      cases hx.symm.trans hx'
      obtain ⟨rfl, -⟩ := ihcond hcond'
      cases htop.symm.trans htop'
      cases hb.symm.trans hb'
      obtain ⟨rfl, rfl⟩ := ihside hside'
      exact ⟨rfl, rfl⟩
  case call =>
    intro k n m e callee last args hx _ _ ihcallee ihargs n' last' h'
    cases h' with
    | leaf hx' hparts =>
      cases hx.symm.trans hx'
      cases hparts
    | assign hx' | choose hx' => cases hx.symm.trans hx'
    | call hx' hcallee' hargs' =>
      cases hx.symm.trans hx'
      obtain ⟨rfl, -⟩ := ihcallee hcallee'
      obtain rfl := ihargs hargs'
      exact ⟨rfl, rfl⟩
  case nil =>
    intro k n' h'
    cases h'
    rfl
  case cons =>
    intro k n m arg last args _ _ iharg ihargs n' h'
    cases h' with
    | cons harg' hargs' =>
      obtain ⟨rfl, -⟩ := iharg harg'
      obtain rfl := ihargs hargs'
      rfl

end Program

/-! ### Calls that are answered at once -/

namespace Program

/-- A function that is a primitive, if there is such a function at all. -/
def IsPrimitive (p : Program) (id : FnId) : Prop :=
  ∀ f, p.function? id = some f → ∃ q, f.body = .primitive q

/-- A value that is called with arguments runs a primitive, or is a message that the machine answers
itself. What cannot be called fails. -/
def AnswersAtOnce (p : Program) (heap : Heap) (place : Place) (scope : ScopeId) (callee : Value)
    (args : List Value) : Prop :=
  match callee with
  | .function id => p.IsPrimitive id
  | .selector name =>
    (p.answer? heap place name args).isSome ∨ ∀ id, p.resolve scope name = .ok id → p.IsPrimitive id
  | _ => True

end Program

namespace Context

variable {p : Program} {c c' : Context} {g : Frame} {callers : List Frame} {s : Conditions}

/-- If the innermost activation is about to make the call of a call expression, the call is answered
at once. -/
def CallsAtOnce (p : Program) (c : Context) : Prop :=
  ∀ g callers e callee args, c.frames = g :: callers → g.expr = some e →
    p.expr? e = some (.call callee args) →
    CallStage.ofNumber? args.length g.exprStage = some .invoke →
    ∀ v rest scope, g.operands.drop args.length = v :: rest →
      p.scopeOf? g.stmt g.scope = some scope →
      p.AnswersAtOnce c.heap g.cursor scope v (g.operands.take args.length).reverse

theorem callsAtOnce_of_primitives (h : ∀ id, p.IsPrimitive id) (c : Context) :
    c.CallsAtOnce p := by
  intro g callers e callee args _ _ _ _ v rest scope _ _
  cases v with
  | function id => exact h id
  | selector name => exact .inr fun id _ => h id
  | _ => trivial

/-- A primitive that does not fail gives its value to the innermost activation. -/
theorem enter_primitive {id : FnId} (hid : p.IsPrimitive id) {place : Place} {args : List Value}
    {sink : Sink} (hok : (c.enter p place id args sink).result = .ok ()) :
    ∃ v, (c.enter p place id args sink).context.frames = (c.push v).frames := by
  unfold enter at hok ⊢
  split at hok
  · cases hok
  · rename_i f hf
    obtain ⟨q, hq⟩ := hid f hf
    split at hok
    · cases hok
    · rename_i harity
      simp only [hq] at hok
      simp only [harity, hq]
      cases hr : (q.apply args c.heap sink).result with
      | error e =>
        simp only [hr] at hok
        cases hok
      | ok v => exact ⟨v, frames_push_heap c _ v⟩

theorem apply_at_once {place : Place} {scope : ScopeId} {callee : Value} {args : List Value}
    {sink : Sink} (honce : p.AnswersAtOnce c.heap place scope callee args)
    (hok : (c.apply p place scope callee args sink).result = .ok ()) :
    ∃ v, (c.apply p place scope callee args sink).context.frames = (c.push v).frames := by
  unfold apply at hok ⊢
  cases callee with
  | function id => exact enter_primitive honce hok
  | selector name =>
    dsimp only at hok ⊢
    cases hanswer : p.answer? c.heap place name args with
    | some r =>
      rw [hanswer] at hok
      cases r with
      | ok v => exact ⟨v, rfl⟩
      | error e => cases hok
    | none =>
      rw [hanswer] at hok
      have hprimitive : ∀ id, p.resolve scope name = .ok id → p.IsPrimitive id := by
        refine honce.resolve_left fun hsome => ?_
        rw [hanswer] at hsome
        cases hsome
      cases hresolve : p.resolve scope name with
      | ok id =>
        rw [hresolve] at hok
        exact enter_primitive (hprimitive id hresolve) hok
      | error e =>
        rw [hresolve] at hok
        cases hok
  | _ => cases hok

/-- **A call that is answered at once** replaces its operands by a value. -/
theorem invoke_at_once (hframes : c.frames = g :: callers) {n : Nat} {fn : Value}
    {rest : List Value} (hdrop : g.operands.drop n = fn :: rest)
    (honce : ∀ scope, p.scopeOf? g.stmt g.scope = some scope →
      p.AnswersAtOnce c.heap g.cursor scope fn (g.operands.take n).reverse)
    {sink : Sink} (hok : (c.invoke p (n + 1) sink).result = .ok ()) :
    ∃ v, (c.invoke p (n + 1) sink).context.frames =
      { g with operands := v :: rest } :: callers := by
  have hcursor : c.cursor = g.cursor := by
    unfold cursor
    rw [hframes]
  unfold invoke at hok ⊢
  rw [hframes] at hok ⊢
  dsimp only at hok ⊢
  rw [hdrop] at hok ⊢
  dsimp only at hok ⊢
  cases hscope : p.scopeOf? g.stmt g.scope with
  | none =>
    rw [hscope] at hok
    cases hok
  | some scope =>
    rw [hscope] at hok
    dsimp only at hok ⊢
    rw [hcursor] at hok ⊢
    exact apply_at_once (honce scope hscope) hok

/-- The demand for a call is met if the call succeeds. -/
theorem meet_call_ok {place : Place} {n : Nat} {sink : Sink} {progress : Progress}
    (h : (c.meet p place callers (g, .ok (.call n)) sink).result = .ok progress) :
    ((c.withTop g callers).invoke p n sink).result = .ok () := by
  unfold meet at h
  cases hr : ((c.withTop g callers).invoke p n sink).result with
  | ok u => rfl
  | error e =>
    have hr' : (invoke p n { c with frames := g :: callers } sink).result = .error e := hr
    simp only [hr'] at h
    cases h

/-! ### Turns of an activation -/

theorem turn_eq_none (h : c.turn p s = none) :
    ∃ e, (c.step p s.traceLevel s.sink).result = .error e := by
  unfold turn at h
  dsimp only at h
  split at h
  · rename_i e he
    exact ⟨e, he⟩
  · cases h

/-- A turn meets the demand of the work. -/
theorem turn_meets (hframes : c.frames = g :: callers) {w : Work} (hw : g.Works p w)
    (hturn : c.turn p s = some c') : ∃ sink progress,
      (c.meet p g.cursor callers w sink).result = .ok progress ∧
        c'.frames = (c.meet p g.cursor callers w sink).context.frames := by
  have hafter := (turn_cases hturn).1
  have hok : ∃ progress, (c.step p s.traceLevel s.sink).result = .ok progress := by
    unfold turn at hturn
    dsimp only at hturn
    split at hturn
    · cases hturn
    · rename_i progress hprogress
      exact ⟨progress, hprogress⟩
  obtain ⟨node, hnode, rfl⟩ := hw
  have htaken := step_taken (p := p) hframes s.traceLevel s.sink
  generalize c.step p s.traceLevel s.sink = done at htaken hafter hok
  obtain ⟨progress, hok⟩ := hok
  cases htaken with
  | exhausted _ hnone => cases hnode.symm.trans hnone
  | dangling => cases hok
  | untraced => cases hok
  | worked sink hw' =>
    obtain ⟨node', hnode', rfl⟩ := hw'
    cases hnode.symm.trans hnode'
    exact ⟨sink, progress, hok, hafter⟩

end Context

/-! ### Inside an expression -/

/-- An activation in the midst of the evaluation of the current expression of another one: at this
expression or one that is evaluated for it, with more operands and suspended expressions on top, and
otherwise with the same state but for the environment. -/
structure Frame.Inside (p : Program) (f g : Frame) : Prop where
  expr : ∃ e e', f.expr = some e ∧ g.expr = some e' ∧ p.Involves e e'
  suspended : ∃ above, g.suspended = above ++ f.suspended
  operands : ∃ above, g.operands = above ++ f.operands
  stmt : g.stmt = f.stmt
  stage : g.stage = f.stage
  waiting : g.waiting = f.waiting
  resumes : g.resumes = f.resumes
  function : g.function = f.function
  scope : g.scope = f.scope

theorem Program.Involves.trans {p : Program} {r e e' : ExprId} (h : p.Involves r e)
    (h' : p.Involves e e') : p.Involves r e' := by
  induction h' with
  | self => exact h
  | part _ hx hc ih => exact .part ih hx hc

namespace Frame

variable {p : Program} {f g g' : Frame} {e : ExprId}

theorem Inside.trans (h : f.Inside p g) (h' : g.Inside p g') : f.Inside p g' := by
  obtain ⟨e, e₁, he, he₁, hinvolves⟩ := h.expr
  obtain ⟨e₂, e', he₂, he', hinvolves'⟩ := h'.expr
  cases he₁.symm.trans he₂
  obtain ⟨suspended, hsuspended⟩ := h.suspended
  obtain ⟨suspended', hsuspended'⟩ := h'.suspended
  obtain ⟨operands, hoperands⟩ := h.operands
  obtain ⟨operands', hoperands'⟩ := h'.operands
  refine ⟨⟨e, e', he, he', hinvolves.trans hinvolves'⟩, ⟨suspended' ++ suspended, ?_⟩,
    ⟨operands' ++ operands, ?_⟩, h'.stmt.trans h.stmt, h'.stage.trans h.stage,
    h'.waiting.trans h.waiting, h'.resumes.trans h.resumes, h'.function.trans h.function,
    h'.scope.trans h.scope⟩
  · rw [hsuspended', hsuspended, List.append_assoc]
  · rw [hoperands', hoperands, List.append_assoc]

/-- At any stage of the expression, with any operands on top. -/
theorem inside_partway (hexpr : f.expr = some e) (env : Env) (stage : Nat) (above : List Value) :
    f.Inside p (f.partway env stage (above ++ f.operands)) :=
  ⟨⟨e, e, hexpr, hexpr, .self⟩, ⟨[], rfl⟩, ⟨above, rfl⟩, rfl, rfl, rfl, rfl, rfl, rfl⟩

theorem inside_eval (hexpr : f.expr = some e) {x : Expr} (hx : p.expr? e = some x) {c : ExprId}
    (hc : c ∈ x.parts) (resume : Nat) : f.Inside p (f.eval c resume) := by
  rw [eval_of_expr_some hexpr]
  exact ⟨⟨e, c, hexpr, rfl, .part .self hx hc⟩, ⟨[(e, resume)], rfl⟩, ⟨[], rfl⟩, rfl, rfl, rfl, rfl,
    rfl, rfl⟩

/-- Only a declaration changes the activation, and nothing but its environment. -/
theorem leafValue_partway {x : Expr} {v : Value} (h : f.leafValue p x = .ok (v, g)) :
    ∃ env, g = f.partway env f.exprStage f.operands := by
  cases x with
  | var y =>
    simp only [leafValue] at h
    split at h
    · rename_i u _
      cases hread : u.read with
      | error c =>
        rw [hread] at h
        cases h
      | ok u' =>
        rw [hread] at h
        cases h
        exact ⟨f.env, rfl⟩
    · cases h
  | declare y =>
    cases h
    exact ⟨_, rfl⟩
  | literal | name | function =>
    cases h
    exact ⟨f.env, rfl⟩
  | _ => cases h

end Frame

/-! ### Evaluations -/

namespace Evaluation

variable {p : Program} {run : Nat → Option Context} {callers : List Frame} {f g : Frame}
  {k n m : Nat} {Q Q' : Nat → Prop}

/-- A run in which each context comes from the one before by a turn, unless the turn fails. -/
def IsRun (p : Program) (run : Nat → Option Context) : Prop :=
  ∀ k c, run k = some c → ∃ s, run (k + 1) = c.turn p s

/-- The top operand of the innermost activation after a number of steps. -/
def tops (run : Nat → Option Context) (k : Nat) : Option Value :=
  (run k).bind fun c => c.frames.head?.bind fun f => f.operands.head?

/-- The innermost activation after a number of steps, above some others. -/
def At (run : Nat → Option Context) (callers : List Frame) (k : Nat) (g : Frame) : Prop :=
  ∃ c, run k = some c ∧ c.frames = g :: callers

theorem At.tops (h : At run callers k g) : tops run k = g.operands.head? := by
  obtain ⟨c, hc, hframes⟩ := h
  rw [Evaluation.tops, hc, Option.bind_some, hframes]
  rfl

/-- For a number of steps the innermost activation is in the midst of the evaluation of an
expression, and those below stay as they are. -/
def Steady (p : Program) (run : Nat → Option Context) (callers : List Frame) (f : Frame)
    (k n : Nat) : Prop :=
  ∀ j < n, ∃ g, At run callers (k + j) g ∧ f.Inside p g

theorem Steady.append (h : Steady p run callers f k n) (h' : Steady p run callers f (k + n) m) :
    Steady p run callers f k (n + m) := by
  intro j hj
  by_cases hlt : j < n
  · exact h j hlt
  · have hrest := h' (j - n) (by omega)
    rwa [show k + n + (j - n) = k + j by omega] at hrest

theorem Steady.inside (h : Steady p run callers g k n) (hw : f.Inside p g) :
    Steady p run callers f k n := by
  intro j hj
  obtain ⟨g', hat, hw'⟩ := h j hj
  exact ⟨g', hat, hw.trans hw'⟩

theorem steady_zero : Steady p run callers f k 0 := by
  intro j hj
  cases hj

theorem steady_one (hat : At run callers k g) (hw : f.Inside p g) :
    Steady p run callers f k 1 := by
  intro j hj
  obtain rfl := Nat.lt_one_iff.1 hj
  exact ⟨g, hat, hw⟩

/-- While an expression is evaluated, its calls are answered at once. -/
def AtOnce (p : Program) (run : Nat → Option Context) (callers : List Frame) (f : Frame)
    (k : Nat) : Prop :=
  ∀ n c, run (k + n) = some c → Steady p run callers f k (n + 1) → c.CallsAtOnce p

/-- So are those of an expression that is evaluated for it. -/
theorem AtOnce.later (h : AtOnce p run callers f k) (hs : Steady p run callers f k n)
    (hw : f.Inside p g) : AtOnce p run callers g (k + n) := by
  intro m c hc hsteady
  refine h (n + m) c (by rw [← Nat.add_assoc]; exact hc) ?_
  rw [Nat.add_assoc]
  exact hs.append (hsteady.inside hw)

/-- An evaluation comes to something: a step fails in the midst of it, or what is said holds after
some steps. -/
def Comes (p : Program) (run : Nat → Option Context) (callers : List Frame) (f : Frame) (k : Nat)
    (Q : Nat → Prop) : Prop :=
  (∃ n, Steady p run callers f k (n + 1) ∧ run (k + n + 1) = none) ∨
    ∃ n, Steady p run callers f k n ∧ Q (k + n)

theorem Comes.now (h : Q k) : Comes p run callers f k Q :=
  .inr ⟨0, steady_zero, h⟩

/-- What an evaluation comes to in two parts. -/
theorem Comes.bind (h : Comes p run callers f k Q)
    (h' : ∀ n, Steady p run callers f k n → Q (k + n) → Comes p run callers f (k + n) Q') :
    Comes p run callers f k Q' := by
  rcases h with hfails | ⟨n, hs, hQ⟩
  · exact .inl hfails
  · rcases h' n hs hQ with ⟨m, hs', hnone⟩ | ⟨m, hs', hQ'⟩
    · refine .inl ⟨n + m, ?_, ?_⟩
      · rw [Nat.add_assoc]
        exact hs.append hs'
      · rw [← Nat.add_assoc]
        exact hnone
    · refine .inr ⟨n + m, hs.append hs', ?_⟩
      rw [← Nat.add_assoc]
      exact hQ'

theorem Comes.inside (h : Comes p run callers g k Q) (hw : f.Inside p g) :
    Comes p run callers f k Q := by
  rcases h with ⟨n, hs, hnone⟩ | ⟨n, hs, hQ⟩
  · exact .inl ⟨n, hs.inside hw, hnone⟩
  · exact .inr ⟨n, hs.inside hw, hQ⟩

/-- A turn in the midst of an evaluation. -/
theorem comes_of_turn (hrun : IsRun p run) (hat : At run callers k g) (hw : f.Inside p g)
    {w : Work} (hworks : g.Works p w)
    (hnext : ∀ c c' sink progress, run k = some c → c.frames = g :: callers →
      run (k + 1) = some c' → (c.meet p g.cursor callers w sink).result = .ok progress →
      c'.frames = (c.meet p g.cursor callers w sink).context.frames → Q (k + 1)) :
    Comes p run callers f k Q := by
  have hs := steady_one hat hw
  obtain ⟨c, hc, hframes⟩ := hat
  obtain ⟨s, hturn⟩ := hrun k c hc
  cases hafter : c.turn p s with
  | none => exact .inl ⟨0, hs, hturn.trans hafter⟩
  | some c' =>
    obtain ⟨sink, progress, hok, hframes'⟩ := Context.turn_meets hframes hworks hafter
    exact .inr ⟨1, hs, hnext c c' sink progress hc hframes (hturn.trans hafter) hok hframes'⟩

/-- Work that fails. -/
theorem comes_of_error (hrun : IsRun p run) (hat : At run callers k g) (hw : f.Inside p g)
    {g' : Frame} {e : Fault} (hworks : g.Works p (g', .error e)) : Comes p run callers f k Q := by
  refine comes_of_turn hrun hat hw hworks fun c c' sink progress _ _ _ hok _ => ?_
  cases hok

/-- Work that goes on. -/
theorem comes_of_pending (hrun : IsRun p run) (hat : At run callers k g) (hw : f.Inside p g)
    {g' : Frame} (hworks : g.Works p (g'.demand .pending))
    (hnext : At run callers (k + 1) g' → Q (k + 1)) : Comes p run callers f k Q :=
  comes_of_turn hrun hat hw hworks fun _ c' _ _ _ _ hc' _ hframes' => hnext ⟨c', hc', hframes'⟩

/-- What the evaluation of an expression comes to: after as many steps as it costs the activation
has been given a value, which is remembered for the last expression that has produced it. -/
def Yields (p : Program) (run : Nat → Option Context) (callers : List Frame) (f : Frame) (k : Nat)
    (e : ExprId) (i : Nat) : Prop :=
  ∃ n last env v, i = k + n ∧ p.Costs (tops run) k e n last ∧
    At run callers i (f.given env v) ∧ env.get? (.expr last) = some v

/-- The evaluation of an expression is balanced wherever it begins. -/
def Evaluates (p : Program) (run : Nat → Option Context) (callers : List Frame)
    (e : ExprId) : Prop :=
  ∀ f k, At run callers k f → f.expr = some e → f.exprStage = 0 → AtOnce p run callers f k →
    Comes p run callers f k (Yields p run callers f k e)

variable {e : ExprId} {x : Expr}

/-- **A part of an expression** is evaluated in the midst of the expression. -/
theorem part (hrun : IsRun p run) (hexpr : f.expr = some e) (hx : p.expr? e = some x) {c : ExprId}
    (hc : c ∈ x.parts) (ih : Evaluates p run callers c) (honce : AtOnce p run callers f k)
    (hs : Steady p run callers f k n) {env : Env} {stage resume : Nat} (above : List Value)
    (hat : At run callers (k + n) (f.partway env stage (above ++ f.operands)))
    (hworks : (f.partway env stage (above ++ f.operands)).Works p
      ((f.partway env stage (above ++ f.operands)).evaluate c resume)) :
    Comes p run callers f (k + n) fun i => ∃ m last env' v, i = k + n + 1 + m ∧
      p.Costs (tops run) (k + n + 1) c m last ∧
      At run callers i (f.partway env' resume (v :: above ++ f.operands)) := by
  have hw : f.Inside p (f.partway env stage (above ++ f.operands)) :=
    Frame.inside_partway hexpr env stage above
  have hexpr' : (f.partway env stage (above ++ f.operands)).expr = some e := hexpr
  generalize hg : f.partway env stage (above ++ f.operands) = g at *
  have hw' : f.Inside p (g.eval c resume) := hw.trans (Frame.inside_eval hexpr' hx hc resume)
  have heval : (g.eval c resume).expr = some c ∧ (g.eval c resume).exprStage = 0 := by
    rw [Frame.eval_of_expr_some hexpr']
    exact ⟨rfl, rfl⟩
  have hone := steady_one hat hw
  refine (comes_of_pending (Q := fun i => i = k + n + 1 ∧ At run callers i (g.eval c resume))
    hrun hat hw hworks fun h => ⟨rfl, h⟩).bind fun j hsj hj => ?_
  obtain ⟨hj, hateval⟩ := hj
  obtain rfl : j = 1 := by omega
  have honce' := honce.later (hs.append hone) hw'
  have hsub := ih (g.eval c resume) (k + n + 1) hateval heval.1 heval.2
    (by rw [Nat.add_assoc]; exact honce')
  refine (hsub.inside hw').bind fun m hsm hm => ?_
  obtain ⟨m', last, env', v, hm', hcosts, hgiven, -⟩ := hm
  refine .now ⟨m', last, env', v, hm', hcosts, ?_⟩
  rw [Frame.eval_given hexpr', ← hg] at hgiven
  exact hgiven

/-- A value is given to the expression. -/
theorem yields_of_finish (hrun : IsRun p run) (hexpr : f.expr = some e) {i : Nat}
    (hi : i + 1 = k + n) (hcosts : p.Costs (tops run) k e n e) (hat : At run callers i g)
    (hinside : f.Inside p g) {env : Env} {stage : Nat} {v : Value}
    (hworks : g.Works p (((f.partway env stage f.operands).finish v).demand .pending)) :
    Comes p run callers f i (Yields p run callers f k e) := by
  have hexpr' : (f.partway env stage f.operands).expr = some e := hexpr
  rw [Frame.finish_given hexpr'] at hworks
  refine comes_of_pending hrun hat hinside hworks fun h => ?_
  refine ⟨n, e, env.put (.expr e) v, v, hi, hcosts, h, ?_⟩
  rw [Env.get?_put, if_pos rfl]

/-- An expression without parts is finished by one step, or fails. -/
theorem evalLeaf (hrun : IsRun p run) (hx : p.expr? e = some x) (hparts : x.parts = []) :
    Evaluates p run callers e := by
  intro f k hat hexpr hstage _
  have hinside : f.Inside p f := Frame.inside_partway hexpr f.env f.exprStage []
  have hworks := Frame.works_expr hexpr hx
  rw [Frame.workExpr_leaf hstage hparts, Frame.workLeaf] at hworks
  cases hleaf : f.leafValue p x with
  | error c =>
    rw [hleaf] at hworks
    exact comes_of_error hrun hat hinside hworks
  | ok r =>
    obtain ⟨v, f'⟩ := r
    rw [hleaf] at hworks
    obtain ⟨env, rfl⟩ := Frame.leafValue_partway hleaf
    exact yields_of_finish hrun hexpr rfl (.leaf hx hparts) hat hinside hworks

/-- The value of an assignment is evaluated and stored. -/
theorem evalAssign (hrun : IsRun p run) {target : VarId} {value : ExprId}
    (hx : p.expr? e = some (.assign target value)) (ih : Evaluates p run callers value) :
    Evaluates p run callers e := by
  intro f k hat hexpr hstage honce
  have hworks := Frame.works_expr hexpr hx
  rw [Frame.workExpr_value hstage] at hworks
  have hvalue := part (n := 0) hrun hexpr hx List.mem_cons_self ih honce steady_zero [] hat hworks
  refine hvalue.bind fun j hs hj => ?_
  obtain ⟨m, last, env, v, hj, hcosts, hat'⟩ := hj
  have hinside : f.Inside p (f.partway env 1 ([v] ++ f.operands)) :=
    Frame.inside_partway hexpr env 1 [v]
  have hworks' := Frame.works_expr (f := f.partway env 1 (v :: f.operands)) hexpr hx
  cases hold : env.get? (.var target) with
  | none =>
    rw [Frame.workExpr_unknown hold] at hworks'
    exact comes_of_error hrun hat' hinside hworks'
  | some old =>
    rw [Frame.workExpr_store hold] at hworks'
    exact yields_of_finish hrun hexpr (by omega) (.assign hx hcosts) hat' hinside hworks'

/-- **The side of a conditional that is taken** is evaluated in the place of the conditional. -/
theorem side (hrun : IsRun p run) (hexpr : f.expr = some e) {cond thenExpr elseExpr : ExprId}
    (hx : p.expr? e = some (.choose cond thenExpr elseExpr))
    (ih : ∀ c ∈ (Expr.choose cond thenExpr elseExpr).parts, Evaluates p run callers c)
    (honce : AtOnce p run callers f k) (hs : Steady p run callers f k n) {env : Env} {v : Value}
    {b : Bool} (hb : v.asBool = .ok b)
    (hat : At run callers (k + n) (f.partway env 1 (v :: f.operands))) :
    Comes p run callers f (k + n) fun i => ∃ m last env' u, i = k + n + 1 + m ∧
      p.Costs (tops run) (k + n + 1) (if b then thenExpr else elseExpr) m last ∧
      At run callers i (f.given env' u) ∧ env'.get? (.expr last) = some u := by
  have hinside : f.Inside p (f.partway env 1 ([v] ++ f.operands)) :=
    Frame.inside_partway hexpr env 1 [v]
  have hside : (if b then thenExpr else elseExpr) ∈
      (Expr.choose cond thenExpr elseExpr).parts := by
    cases b <;> simp [Expr.parts]
  have hworks := Frame.works_expr (f := f.partway env 1 (v :: f.operands)) hexpr hx
  rw [Frame.workExpr_taken hb] at hworks
  generalize hg : { f.partway env 0 f.operands with
    expr := some (if b then thenExpr else elseExpr) } = g at hworks
  have hgiven : ∀ env' u, g.given env' u = f.given env' u := by
    intro env' u
    rw [← hg]
    rfl
  have hinside' : f.Inside p g := by
    rw [← hg]
    exact ⟨⟨e, _, hexpr, rfl, .part .self hx hside⟩, ⟨[], rfl⟩, ⟨[], rfl⟩, rfl, rfl, rfl, rfl,
      rfl, rfl⟩
  have hone := steady_one hat hinside
  have honce' := honce.later (hs.append hone) hinside'
  refine (comes_of_pending (Q := fun i => i = k + n + 1 ∧ At run callers i g) hrun hat hinside
    hworks fun h => ⟨rfl, h⟩).bind fun j _ hj => ?_
  obtain ⟨hj, hatside⟩ := hj
  obtain rfl : j = 1 := by omega
  have hsub := ih _ hside g (k + n + 1) hatside (by rw [← hg]) (by rw [← hg]; rfl) honce'
  refine (hsub.inside hinside').bind fun i _ hi => ?_
  obtain ⟨m, last, env', u, hi, hcosts, hgive, hmemo⟩ := hi
  rw [hgiven] at hgive
  exact .now ⟨m, last, env', u, hi, hcosts, hgive, hmemo⟩

/-- The condition of a conditional is evaluated, and then one of its sides. -/
theorem evalChoose (hrun : IsRun p run) {cond thenExpr elseExpr : ExprId}
    (hx : p.expr? e = some (.choose cond thenExpr elseExpr))
    (ih : ∀ c ∈ (Expr.choose cond thenExpr elseExpr).parts, Evaluates p run callers c) :
    Evaluates p run callers e := by
  intro f k hat hexpr hstage honce
  have hworks := Frame.works_expr hexpr hx
  rw [Frame.workExpr_test hstage] at hworks
  have hmem : cond ∈ (Expr.choose cond thenExpr elseExpr).parts := List.mem_cons_self
  have hcond := part (n := 0) hrun hexpr hx hmem (ih cond hmem) honce steady_zero [] hat hworks
  refine hcond.bind fun j hs hj => ?_
  obtain ⟨m, last, env, v, hj, hcosts, hat'⟩ := hj
  obtain rfl : j = 1 + m := by omega
  cases hb : v.asBool with
  | error c =>
    have hinside : f.Inside p (f.partway env 1 ([v] ++ f.operands)) :=
      Frame.inside_partway hexpr env 1 [v]
    have hworks' := Frame.works_expr (f := f.partway env 1 (v :: f.operands)) hexpr hx
    rw [Frame.workExpr_not_bool hb] at hworks'
    exact comes_of_error hrun hat' hinside hworks'
  | ok b =>
    -- What is on top of the operands settles which side is taken.
    have htop := hat'.tops
    refine (side hrun hexpr hx ih honce hs hb hat').bind fun i _ hi => ?_
    obtain ⟨m', last', env', u, hi, hcosts', hgive, hmemo⟩ := hi
    rw [← Nat.add_assoc] at htop hcosts'
    exact .now ⟨m + m' + 2, last', env', u, by omega, .choose hx hcosts htop hb hcosts', hgive,
      hmemo⟩

/-- Arguments are evaluated from left to right, on top of the operands that are there. -/
theorem arguments (hrun : IsRun p run) {callee : ExprId} {args : List ExprId}
    (hx : p.expr? e = some (.call callee args)) (hexpr : f.expr = some e)
    (honce : AtOnce p run callers f k) (done todo : List ExprId) (hargs : args = done ++ todo)
    (ih : ∀ c ∈ todo, Evaluates p run callers c) (hs : Steady p run callers f k n) {env : Env}
    (above : List Value)
    (hat : At run callers (k + n) (f.partway env (done.length + 1) (above ++ f.operands))) :
    Comes p run callers f (k + n) fun i => ∃ (m : Nat) (env' : Env) (vs : List Value),
      i = k + n + (m + todo.length) ∧
      p.CostsAll (tops run) (k + n) todo m ∧ vs.length = todo.length ∧
      At run callers i (f.partway env' (args.length + 1) (vs.reverse ++ above ++ f.operands)) := by
  induction todo generalizing done n env above with
  | nil =>
    refine .now ⟨0, env, [], rfl, .nil _, rfl, ?_⟩
    rw [hargs, List.append_nil]
    exact hat
  | cons arg todo iht =>
    have harg : args[done.length]? = some arg := by
      rw [hargs, List.getElem?_append_right (Nat.le_refl _), Nat.sub_self]
      rfl
    have hmem : arg ∈ (Expr.call callee args).parts :=
      List.mem_cons_of_mem _ (List.mem_of_getElem? harg)
    have hworks := Frame.works_expr
      (f := f.partway env (done.length + 1) (above ++ f.operands)) hexpr hx
    rw [Frame.workExpr_arg rfl harg] at hworks
    have hfirst := part hrun hexpr hx hmem (ih arg List.mem_cons_self) honce hs above hat hworks
    refine hfirst.bind fun j hsj hj => ?_
    obtain ⟨m, last, env', v, hj, hcosts, hat'⟩ := hj
    obtain rfl : j = 1 + m := by omega
    have hs' := hs.append hsj
    rw [Nat.add_assoc k n] at hat' ⊢
    have hrest := iht (n := n + (1 + m)) (done ++ [arg])
      (by rw [hargs, List.append_assoc]; rfl) (fun c hc => ih c (List.mem_cons_of_mem _ hc)) hs'
      (v :: above) (by rw [List.length_append]; exact hat')
    refine hrest.bind fun i _ hi => ?_
    obtain ⟨m', env'', vs, hi, hcosts', hlength, hat''⟩ := hi
    refine .now ⟨m + m', env'', v :: vs, ?_, ?_, congrArg Nat.succ hlength, ?_⟩
    · rw [List.length_cons]
      omega
    · rw [← Nat.add_assoc k, ← Nat.add_assoc] at hcosts'
      exact .cons hcosts hcosts'
    · rw [List.reverse_cons, List.append_assoc _ [v]]
      exact hat''

/-- The call itself replaces the callee and the arguments by a value. -/
theorem invoked (hrun : IsRun p run) {callee : ExprId} {args : List ExprId}
    (hx : p.expr? e = some (.call callee args)) (hexpr : f.expr = some e)
    (honce : AtOnce p run callers f k) (hs : Steady p run callers f k n) {env : Env} {fn : Value}
    {vs : List Value} (hlength : vs.length = args.length)
    (hat : At run callers (k + n)
      (f.partway env (args.length + 1) (vs.reverse ++ [fn] ++ f.operands))) :
    Comes p run callers f (k + n) fun i => i = k + n + 1 ∧
      ∃ v, At run callers i (f.partway env (args.length + 2) ([v] ++ f.operands)) := by
  have hinside : f.Inside p (f.partway env (args.length + 1) (vs.reverse ++ [fn] ++ f.operands)) :=
    Frame.inside_partway hexpr env _ _
  have hstage : CallStage.ofNumber? args.length (args.length + 1) = some .invoke :=
    CallStage.ofNumber?_invoke args.length
  have hworks := Frame.works_expr
    (f := f.partway env (args.length + 1) (vs.reverse ++ [fn] ++ f.operands)) hexpr hx
  rw [Frame.workExpr_invoke rfl] at hworks
  have hone := steady_one hat hinside
  refine comes_of_turn hrun hat hinside hworks
    fun c c' sink progress hc hframes hc' hok hafter => ⟨rfl, ?_⟩
  have hcalls := honce n c hc (hs.append hone)
  have hdrop : (vs.reverse ++ [fn] ++ f.operands).drop args.length = fn :: f.operands := by
    rw [List.append_assoc, ← hlength, ← List.length_reverse, List.drop_left]
    rfl
  have hanswers := fun scope => hcalls _ _ e callee args hframes hexpr hx hstage fn f.operands scope
    hdrop
  obtain ⟨v, hv⟩ := Context.invoke_at_once
    (c := c.withTop (f.partway env (args.length + 2) (vs.reverse ++ [fn] ++ f.operands)) callers)
    rfl hdrop hanswers (Context.meet_call_ok hok)
  exact ⟨v, c', hc', hafter.trans hv⟩

/-- The callee and the arguments of a call are evaluated, the call is made, and its value is
taken. -/
theorem evalCall (hrun : IsRun p run) {callee : ExprId} {args : List ExprId}
    (hx : p.expr? e = some (.call callee args))
    (ih : ∀ c ∈ (Expr.call callee args).parts, Evaluates p run callers c) :
    Evaluates p run callers e := by
  intro f k hat hexpr hstage honce
  have hworks := Frame.works_expr hexpr hx
  rw [Frame.workExpr_callee hstage] at hworks
  have hmem : callee ∈ (Expr.call callee args).parts := List.mem_cons_self
  have hcallee := part (n := 0) hrun hexpr hx hmem (ih callee hmem) honce steady_zero [] hat hworks
  refine hcallee.bind fun j hs hj => ?_
  obtain ⟨n, last, env, fn, hj, hcosts, hat₁⟩ := hj
  obtain rfl : j = 1 + n := by omega
  have hargs := arguments hrun hx hexpr honce [] args rfl
    (fun c hc => ih c (List.mem_cons_of_mem _ hc)) hs [fn] hat₁
  refine hargs.bind fun j hs₁ hj => ?_
  obtain ⟨m, env', vs, hj, hcosts', hlength, hat₂⟩ := hj
  obtain rfl : j = m + args.length := by omega
  have hs₂ := hs.append hs₁
  rw [Nat.add_assoc k] at hat₂ ⊢
  refine (invoked hrun hx hexpr honce hs₂ hlength hat₂).bind fun j _ hj => ?_
  obtain ⟨hj, v, hat₃⟩ := hj
  obtain rfl : j = 1 := by omega
  have hinside : f.Inside p (f.partway env' (args.length + 2) ([v] ++ f.operands)) :=
    Frame.inside_partway hexpr env' _ [v]
  have hworks' := Frame.works_expr
    (f := f.partway env' (args.length + 2) (v :: f.operands)) hexpr hx
  rw [Frame.workExpr_complete] at hworks'
  rw [← Nat.add_assoc] at hcosts'
  exact yields_of_finish hrun hexpr (by omega) (.call hx hcosts hcosts') hat₃ hinside hworks'

/-- **The evaluation of every expression is balanced**, by induction on its number: the parts of an
expression come before it. -/
theorem evaluates (hp : p.WellFormed) (hrun : IsRun p run) (e : ExprId) :
    Evaluates p run callers e := by
  obtain ⟨i⟩ := e
  induction i using Nat.strongRecOn with
  | ind i ih =>
    cases hx : p.expr? ⟨i⟩ with
    | none =>
      -- There is no such expression, so the first step fails.
      intro f k hat hexpr hstage _
      have hinside : f.Inside p f := Frame.inside_partway hexpr f.env f.exprStage []
      have hs := steady_one hat hinside
      obtain ⟨c, hc, hframes⟩ := hat
      obtain ⟨s, hturn⟩ := hrun k c hc
      have hdangling : f.pending? p = some (.error (.dangling (ExprId.text ⟨i⟩))) := by
        simp only [Frame.pending?, hexpr, hx]
      refine .inl ⟨0, hs, hturn.trans ?_⟩
      simp only [Context.turn, Context.step, hframes, hdangling]
    | some x =>
      have hparts : ∀ c ∈ x.parts, Evaluates p run callers c := fun c hc =>
        ih c.index ((hp.exprs ⟨i⟩ x hx).parts c hc)
      cases x with
      | assign target value => exact evalAssign hrun hx (hparts value List.mem_cons_self)
      | choose cond thenExpr elseExpr => exact evalChoose hrun hx hparts
      | call callee args => exact evalCall hrun hx hparts
      | _ => exact evalLeaf hrun hx rfl

end Evaluation

/-- **The evaluation of an expression is balanced and takes as many steps as it costs.** Let the
innermost activation of a context of a linked program be about to evaluate an expression, whatever
operands and suspended expressions it has; and let steps be taken, on any schedule of traces and
collections. If each call that is made inside the expression is answered at once, by a primitive or
by the machine itself, then one of two things happens.

* A step fails inside the expression.
* The steps that the expression costs are taken. The activation has then been given a value: it is
  the top operand above those that were there, it is remembered for the last expression that has
  produced it, the innermost suspended expression is resumed, or else the statement, and nothing
  else of the activation has changed but its environment.

Until then, before each of the steps, the activation has changed only above its operands and
suspended expressions, and the activations below are what they were throughout. -/
theorem evaluation_balanced {d : Source.Program} {p : Program} (hlink : Program.link d = .ok p)
    (schedule : Nat → Conditions) {c : Context} {f : Frame} {callers : List Frame} {e : ExprId}
    (hframes : c.frames = f :: callers) (hexpr : f.expr = some e) (hstage : f.exprStage = 0)
    (hcalls : Evaluation.AtOnce p (c.after p schedule) callers f 0) :
    (∃ n c' fault, Evaluation.Steady p (c.after p schedule) callers f 0 (n + 1) ∧
      c.after p schedule n = some c' ∧
      (c'.step p (schedule n).traceLevel (schedule n).sink).result = .error fault) ∨
    ∃ n last, p.Costs (Evaluation.tops (c.after p schedule)) 0 e n last ∧
      (∀ n' last', p.Costs (Evaluation.tops (c.after p schedule)) 0 e n' last' →
        n' = n ∧ last' = last) ∧
      Evaluation.Steady p (c.after p schedule) callers f 0 n ∧
      ∃ c' env v, c.after p schedule n = some c' ∧ c'.frames = f.given env v :: callers ∧
        env.get? (.expr last) = some v := by
  have hp := Program.wellFormed_of_link hlink
  have hrun : Evaluation.IsRun p (c.after p schedule) := by
    intro k c' hc'
    exact ⟨schedule k, by rw [Context.after, hc', Option.bind_some]⟩
  have hat : Evaluation.At (c.after p schedule) callers 0 f := ⟨c, rfl, hframes⟩
  rcases Evaluation.evaluates hp hrun e f 0 hat hexpr hstage hcalls with
    ⟨n, hs, hnone⟩ | ⟨n, hs, m, last, env, v, hm, hcosts, hat', hmemo⟩
  · obtain ⟨g, ⟨c', hc', -⟩, -⟩ := hs n (Nat.lt_succ_self n)
    rw [Nat.zero_add] at hc' hnone
    rw [Context.after, hc', Option.bind_some] at hnone
    obtain ⟨fault, hfault⟩ := Context.turn_eq_none hnone
    exact .inl ⟨n, c', fault, hs, hc', hfault⟩
  · rw [Nat.zero_add] at hm hat'
    obtain rfl : n = m := by omega
    obtain ⟨c', hc', hframes'⟩ := hat'
    exact .inr ⟨n, last, hcosts, fun n' last' h' => h'.unique hcosts, hs, c', env, v, hc',
      hframes', hmemo⟩

/-- A definition that assigns the value of a conditional to a variable. The condition is a call, and
so is the side that is taken. -/
def Source.Program.deciding : Source.Program where
  modules := [⟨"m", [],
    [.expr (.declare "x"),
      .expr (.assign "x" (.choose (.call (.function "!") [.scalar (.bool false)])
        (.call (.name "+") [.scalar (.int 1), .scalar (.int 2)]) (.scalar (.int 0))))]⟩]
  entry := none

/-- Nothing is traced, and the heap is collected after each step. -/
def Conditions.collecting (_ : Nat) : Conditions :=
  ⟨0, .ofLimit none, true⟩

/-- The context in which that definition is about to evaluate the assignment. -/
def Context.deciding? (p : Program) (m : Module) : Option Context :=
  (Context.forModule m).after p .collecting 4

/-- The expression that the innermost activation is at after a number of steps. -/
def Evaluation.exprAt (run : Nat → Option Context) (k : Nat) : Option ExprId :=
  (run k).bind fun c => c.frames.head?.bind Frame.expr

/-- The assignment takes 18 steps: two for itself, two for the conditional, six for its condition
and eight for the side that is taken. -/
theorem evaluation_balanced_deciding : ∃ p, Program.link .deciding = .ok p ∧
    ∃ m ∈ p.modules, ∃ c f e, Context.deciding? p m = some c ∧ c.frames = [f] ∧ f.expr = some e ∧
      f.exprStage = 0 ∧ Evaluation.AtOnce p (c.after p .collecting) [] f 0 ∧
      ∃ last c' env, p.Costs (Evaluation.tops (c.after p .collecting)) 0 e 18 last ∧
        c.after p .collecting 18 = some c' ∧ c'.frames = [f.given env (.scalar (.int 3))] ∧
        env.get? (.expr last) = some (.scalar (.int 3)) := by
  have htests : Program.tests .deciding (fun p m =>
      p.functions.all (fun f => f.body matches .primitive _) &&
      (Context.deciding? p m).any fun c =>
        decide (c.frames.length = 1) &&
        decide (∀ f ∈ c.frames, f.expr.isSome ∧ f.exprStage = 0 ∧ f.suspended = []) &&
        decide (∀ k < (19 : Nat), (c.after p .collecting k).isSome) &&
        decide (∀ k < (18 : Nat), (Evaluation.exprAt (c.after p .collecting) k).isSome) &&
        decide (Evaluation.exprAt (c.after p .collecting) 18 = none) &&
        decide (Evaluation.tops (c.after p .collecting) 18 = some (.scalar (.int 3)))) = true := by
    decide +kernel
  obtain ⟨p, m, hlink, hm, htest⟩ := Program.exists_of_tests htests
  rw [Bool.and_eq_true, Option.any_eq_true] at htest
  obtain ⟨hprimitive, c, hc, htest⟩ := htest
  simp only [Bool.and_eq_true, decide_eq_true_eq] at htest
  obtain ⟨⟨⟨⟨⟨hone, hbegins⟩, hgoes⟩, hinside⟩, hend⟩, htop⟩ := htest
  obtain ⟨f, hframes⟩ := List.length_eq_one_iff.1 hone
  rw [hframes, List.forall_mem_singleton] at hbegins
  obtain ⟨hsome, hstage, hsuspended⟩ := hbegins
  obtain ⟨e, hexpr⟩ := Option.isSome_iff_exists.1 hsome
  -- Every function is a primitive, so every call is answered at once.
  have hcalls : Evaluation.AtOnce p (c.after p .collecting) [] f 0 := by
    refine fun _ c' _ _ => c'.callsAtOnce_of_primitives fun id g hg => ?_
    have hbody := Array.all_eq_true'.1 hprimitive g (Array.mem_of_getElem? hg)
    cases hg' : g.body with
    | primitive q => exact ⟨q, rfl⟩
    | code => simp [hg'] at hbody
  -- The steps inside the expression are those at which there is an expression.
  have hle : ∀ n, Evaluation.Steady p (c.after p .collecting) [] f 0 n → n ≤ 18 := by
    refine fun n hs => Nat.le_of_not_lt fun hlt => ?_
    obtain ⟨g, ⟨c', hc', hframes'⟩, hg⟩ := hs 18 hlt
    obtain ⟨-, e', -, he', -⟩ := hg.expr
    rw [Nat.zero_add] at hc'
    rw [Evaluation.exprAt, hc', Option.bind_some, hframes'] at hend
    cases he'.symm.trans hend
  refine ⟨p, hlink, m, hm, c, f, e, hc, hframes, hexpr, hstage, hcalls, ?_⟩
  rcases evaluation_balanced hlink Conditions.collecting hframes hexpr hstage hcalls with
    ⟨n, c', fault, hs, hc', hfault⟩ | ⟨n, last, hcosts, -, hs, c', env, v, hc', hframes', hv⟩
  · have hnext := hgoes (n + 1) (Nat.lt_succ_of_le (hle (n + 1) hs))
    rw [Context.after, hc', Option.bind_some] at hnext
    simp [Context.turn, hfault] at hnext
  · have hge : 18 ≤ n := by
      refine Nat.le_of_not_lt fun hlt => ?_
      have hexpr' := hinside n hlt
      rw [Evaluation.exprAt, hc', Option.bind_some, hframes'] at hexpr'
      simp [Frame.given, hsuspended] at hexpr'
    obtain rfl := Nat.le_antisymm hge (hle n hs)
    rw [Evaluation.tops, hc', Option.bind_some, hframes'] at htop
    cases htop
    exact ⟨last, c', env, hcosts, hc', hframes', hv⟩

end TreeMachine
