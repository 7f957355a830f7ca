import TreeMachine.Execution.Step

/-!
# Laws of activations

What finishing an expression does to an activation, said field by field (`Frame.finish_eq`), what
evaluating an expression does inside another one and inside a statement, what running a sequence
inside a statement does when there is a sequence and when there is none, and how an activation moves
past a statement (`Frame.advance_eq`).

These are equations that the proofs about handlers rewrite with, so that they do not have to open
the definitions. Where an operation does different things, there is a lemma for each case, with the
condition as a hypothesis about one field.

The unit of work that an activation is about to do is a relation here (`Frame.Works`), which is
taken apart into work on an expression and work on a statement. An invariant is shown for the two
separately, and that is the beginning of most proofs about a step.

An environment has one entry for each key, so its values are those that its keys have
(`Env.mem_values_iff`). The roots of a context are taken apart in the same way at the end, into
values that keys have and values that are among the operands. In this form the order in which an
environment lists its entries does not matter any more.
-/

namespace TreeMachine

/-! ### Environments -/

namespace Env

/-- Each key has one entry. -/
theorem nodup_keys (env : Env) : (env.entries.map Prod.fst).Nodup :=
  List.pairwise_map.2 (env.ordered.imp Key.ne_of_lt)

/-- Among entries with different keys, a key has the value that it is paired with. -/
theorem lookup_eq_some_iff {es : List (Key × Value)} (hkeys : (es.map Prod.fst).Nodup) {k : Key}
    {v : Value} : lookup k es = some v ↔ (k, v) ∈ es := by
  induction es with
  | nil => simp [lookup]
  | cons e es ih =>
    obtain ⟨hfirst, hrest⟩ := List.nodup_cons.1 hkeys
    rw [lookup, List.mem_cons]
    split
    · rename_i hk
      -- No other entry has this key.
      have hnot : (k, v) ∉ es := fun hv => hfirst (hk ▸ List.mem_map_of_mem hv)
      constructor
      · intro hv
        exact .inl (Prod.ext hk.symm (Option.some.inj hv).symm)
      · intro hv
        rw [← hv.resolve_right hnot]
    · rename_i hk
      have hne : (k, v) ≠ e := fun he => hk (congrArg Prod.fst he).symm
      rw [ih hrest]
      exact ⟨.inr, fun hv => hv.resolve_left hne⟩

variable {env : Env} {k : Key} {v : Value}

/-- A key has the value that it is paired with. -/
theorem get?_eq_some_iff : env.get? k = some v ↔ (k, v) ∈ env.entries :=
  lookup_eq_some_iff env.nodup_keys

/-- The values are what the keys have. -/
theorem mem_values_iff : v ∈ env.values ↔ ∃ k, env.get? k = some v := by
  simp only [values, List.mem_map, Prod.exists, exists_eq_right, get?_eq_some_iff]

/-- What a key has is among the values. -/
theorem mem_values (h : env.get? k = some v) : v ∈ env.values :=
  mem_values_iff.2 ⟨k, h⟩

end Env

/-! ### Activations -/

namespace Frame

/-- The environment in which a value is remembered for an expression, if there is one. -/
def remember (env : Env) (e : Option ExprId) (v : Value) : Env :=
  match e with
  | some e => env.put (.expr e) v
  | none => env

/-- Finishing an expression remembers its value, pushes it and resumes what is suspended. -/
theorem finish_eq (f : Frame) (v : Value) : f.finish v =
    { f with
      env := remember f.env f.expr v
      suspended := f.suspended.tail
      operands := v :: f.operands
      expr := f.suspended.head?.map Prod.fst
      exprStage := (f.suspended.head?.map Prod.snd).getD 0 } := by
  rcases f with
    ⟨env, waiting, resumes, suspended, operands, stmt, expr, stage, exprStage, fn, scope⟩
  cases expr <;> cases suspended <;> rfl

/-- An expression is suspended while one of its parts is evaluated. -/
theorem eval_of_expr_some {f : Frame} {e : ExprId} (he : f.expr = some e) (c : ExprId)
    (resume : Nat) : f.eval c resume =
      { f with suspended := (e, resume) :: f.suspended, expr := some c, exprStage := 0 } := by
  simp only [eval, he]

theorem eval_of_expr_none {f : Frame} (he : f.expr = none) (e : ExprId) (resume : Nat) :
    f.eval e resume = { f with stage := resume, expr := some e, exprStage := 0 } := by
  simp only [eval, he]

/-- A statement without the sequence that it wants to run goes on at a stage, or is finished. -/
def skip (f : Frame) (resume : Nat) : Frame × Demand :=
  if resume = 0 then (f, .complete) else ({ f with stage := resume }, .pending)

theorem descend_none (f : Frame) (resume : Nat) : f.descend none resume = f.skip resume :=
  rfl

theorem descend_of_stmt_none {f : Frame} (hs : f.stmt = none) (child : Option StmtId)
    (resume : Nat) : f.descend child resume = f.skip resume := by
  rcases f with
    ⟨env, waiting, resumes, suspended, operands, stmt, expr, stage, exprStage, fn, scope⟩
  subst hs
  cases child <;> rfl

/-- The current statement waits while the sequence is run. -/
theorem descend_some {f : Frame} {s : StmtId} (hs : f.stmt = some s) (c : StmtId) (resume : Nat) :
    f.descend (some c) resume =
      ({ f with
        waiting := s :: f.waiting
        resumes := resume :: f.resumes
        stmt := some c
        stage := 0 }, .pending) := by
  rcases f with
    ⟨env, waiting, resumes, suspended, operands, stmt, expr, stage, exprStage, fn, scope⟩
  subst hs
  rfl

/-- Taking a waiting statement off leaves the rest of the activation alone. -/
theorem popWaiting_snd (f : Frame) : ∃ waiting resumes,
    f.popWaiting.2 = { f with waiting := waiting, resumes := resumes } := by
  unfold popWaiting
  split <;> exact ⟨_, _, rfl⟩

/-- An activation between two statements: there are no operands, and the stage is the first one. -/
def cleared (f : Frame) : Frame :=
  { f with stage := 0, operands := [] }

theorem advance_eq (p : Program) (f : Frame) : f.advance p =
    match f.stmt with
    | some current => f.cleared.moveOn p current f.waiting f.resumes
    | none => .ok f.cleared :=
  rfl

/-! ### Units of work -/

/-- The unit of work that an activation is about to do. -/
def Works (p : Program) (f : Frame) (w : Work) : Prop :=
  ∃ node, f.pending? p = some (.ok node) ∧ node.work = w

theorem works_stmt {p : Program} {f : Frame} {i : StmtId} {s : Stmt} (hexpr : f.expr = none)
    (hstmt : f.stmt = some i) (hs : p.stmt? i = some s) : f.Works p (f.workStmt p i s) := by
  refine ⟨⟨s.kind.name, f.stage, f.workStmt p i s⟩, ?_, rfl⟩
  simp only [pending?, hexpr, hstmt, hs]

theorem works_expr {p : Program} {f : Frame} {e : ExprId} {x : Expr} (hexpr : f.expr = some e)
    (hx : p.expr? e = some x) : f.Works p (f.workExpr p e x) := by
  refine ⟨⟨x.kindName, f.exprStage, f.workExpr p e x⟩, ?_, rfl⟩
  simp only [pending?, hexpr, hx]

/-- The work is on the expression, or else on the statement, that the activation is at. -/
theorem Works.cases {p : Program} {f : Frame} {w : Work} (h : f.Works p w) :
    (∃ e x, f.expr = some e ∧ p.expr? e = some x ∧ w = f.workExpr p e x) ∨
    ∃ i s, f.expr = none ∧ f.stmt = some i ∧ p.stmt? i = some s ∧ w = f.workStmt p i s := by
  obtain ⟨node, hnode, rfl⟩ := h
  unfold pending? at hnode
  split at hnode
  · rename_i hexpr
    split at hnode
    · rename_i x hx
      cases hnode
      exact .inl ⟨_, x, hexpr, hx, rfl⟩
    · cases hnode
  · rename_i i hexpr hstmt
    split at hnode
    · rename_i s hs
      cases hnode
      exact .inr ⟨i, s, hexpr, hstmt, hs, rfl⟩
    · cases hnode
  · cases hnode

/-- A truth value on top is taken. -/
theorem popBool_ok {f : Frame} {v : Value} {rest : List Value} (hoperands : f.operands = v :: rest)
    {b : Bool} (hb : v.asBool = .ok b) (place : Place) (next : Bool → Frame → Work) :
    f.popBool place next = next b { f with operands := rest } := by
  simp only [popBool, pop, hoperands, hb]

/-- Another value on top is complained about. -/
theorem popBool_error {f : Frame} {v : Value} {rest : List Value}
    (hoperands : f.operands = v :: rest) {c : Complaint} (hc : v.asBool = .error c) (place : Place)
    (next : Bool → Frame → Work) :
    f.popBool place next = { f with operands := rest }.complain place c := by
  simp only [popBool, pop, hoperands, hc]

end Frame

/-- The roots of a context are the values in the environments and operands of all its
activations. -/
theorem Context.mem_roots {c : Context} {v : Value} :
    v ∈ c.roots ↔ ∃ f ∈ c.frames, (∃ k, f.env.get? k = some v) ∨ v ∈ f.operands := by
  simp only [roots, List.mem_flatMap, Frame.roots, List.mem_append, Env.mem_values_iff]

end TreeMachine
