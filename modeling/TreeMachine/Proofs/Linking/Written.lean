import TreeMachine.Proofs.Linking.Modules
import TreeMachine.Proofs.Linking.Statements

/-!
# Written references in linked programs

A reference to a function that is written into a definition is found in the linked program, in the
statement of its number (`Program.cites_of_link`). The references that are in a linked program, in
turn, are each bound to the only function of a name in the scope of their statement, and into every
statement that has expressions another one can be written (`Program.binds_of_link`). What a written
reference relies on, besides what the definition has relied on before, is a function of its name
among those that are visible in that scope (`Program.demands_of_link`).

To write a reference is to make an expression of the statement with a given number the argument of a
call of the function. This is a relation between two definitions (`Source.Program.Writes`), defined
by recursion on both, and it counts statements from the first one of the program on, as linking
does. That is how the id of the statement, which belongs to the tables, is tied to a place of the
definition.

The three results are inductions along this relation or along the placement of the definition, from
statements over bodies to modules. Their common form is that a property of one statement is looked
for in the part that has the number of the statement in its range.

To which function the new reference is bound is not said here; for that the two programs have to be
compared.
-/

namespace TreeMachine

open Source (Expr.Writes ExprsWrites Stmt.Writes StmtsWrites Arm.Writes ArmsWrites Function.Writes
  FunctionsWrites Module.Writes ModulesWrites)

namespace Program

variable {p : Program} {scope : ScopeId} {name : String} {i k n : Nat}

/-! ### References -/

/-- An expression involves a reference to a function. -/
def RefersWithin (p : Program) (e : ExprId) (f : FnId) : Prop :=
  ∃ r, p.Involves e r ∧ p.expr? r = some (.function f)

/-- A reference to a function is written in a statement. -/
def RefersTo (p : Program) (i : StmtId) (f : FnId) : Prop :=
  ∃ s, p.stmt? i = some s ∧ ∃ e ∈ s.kind.exprs, p.RefersWithin e f

/-- A function of a name is referred to in the statement with number `i`. -/
def Cites (p : Program) (name : String) (i : Nat) : Prop :=
  ∃ f, p.functionName f = name ∧ p.RefersTo ⟨i⟩ f

/-- A function of a name is referred to in the statement with number `i`, provided that the given
expressions belong to the statement with number `k`. -/
def CitesBy (p : Program) (name : String) (i k : Nat) (es : List ExprId) : Prop :=
  p.Cites name i ∨ i = k ∧ ∃ f, p.functionName f = name ∧ ∃ e ∈ es, p.RefersWithin e f

theorem RefersWithin.part {e c : ExprId} {x : Expr} {f : FnId} (h : p.RefersWithin c f)
    (hx : p.expr? e = some x) (hc : c ∈ x.parts) : p.RefersWithin e f := by
  obtain ⟨r, hinvolves, hr⟩ := h
  refine ⟨r, ?_, hr⟩
  clear hr
  induction hinvolves with
  | self => exact .part .self hx hc
  | part _ hx' hc' ih => exact ih.part hx' hc'

theorem CitesBy.mono {es es' : List ExprId} (h : p.CitesBy name i k es)
    (hes : ∀ e ∈ es, e ∈ es') : p.CitesBy name i k es' :=
  h.imp_right fun ⟨hi, f, hf, e, he, hrefers⟩ => ⟨hi, f, hf, e, hes e he, hrefers⟩

/-- What a part of an expression refers to, the expression refers to. -/
theorem CitesBy.part {cs : List ExprId} {x : Expr} {m m' : Mark} {e : ExprId}
    (h : p.CitesBy name i k cs) (hx : p.ExprIs x m m' e) (hcs : ∀ c ∈ cs, c ∈ x.parts) :
    p.CitesBy name i k [e] :=
  h.imp_right fun ⟨hi, f, hf, c, hc, hrefers⟩ =>
    ⟨hi, f, hf, e, List.mem_singleton_self e, hrefers.part hx.2.2 (hcs c hc)⟩

/-- What an expression of a statement refers to, the statement refers to. -/
theorem CitesBy.stmt {es : List ExprId} {kind : StmtKind} {next parent : Option StmtId} {m : Mark}
    (h : p.CitesBy name i k es) (hm : m.stmts = k) (hs : p.StmtIs kind next parent scope m)
    (hes : ∀ e ∈ es, e ∈ kind.exprs) : p.Cites name i := by
  subst hm
  rcases h with h | ⟨rfl, f, hf, e, he, hrefers⟩
  · exact h
  · exact ⟨f, hf, _, hs, e, hes e he, hrefers⟩

/-! ### Statements -/

mutual

/-- **A reference that is written into an expression** is found there once it has been linked. -/
theorem exprAt_cites {k n : Nat} : ∀ {src src' : Source.Expr}, Expr.Writes name i k n src src' →
    ∀ {m m' : Mark} {e : ExprId}, p.ExprAt scope src' m m' e → m.stmts = n →
      p.CitesBy name i k [e]
  | _, _, .here, _, _, e, ⟨_, _, c, _, ⟨f, ⟨g, hg, hname⟩, _, _, hf⟩, _, hx⟩, hm => by
    have hname : p.functionName f = name := by rw [functionName, hg, ← hname]
    have hrefers : p.RefersWithin c f := ⟨c, .self, hf⟩
    exact .inr ⟨rfl, f, hname, e, List.mem_singleton_self e,
      hrefers.part hx.2.2 List.mem_cons_self⟩
  | _, _, .assign h, _, _, _, ⟨_, _, _, _, hv, hx⟩, hm =>
    (exprAt_cites h hv hm).part hx fun _ => id
  | _, _, .callee h, _, _, _, ⟨_, _, _, _, hc, _, hx⟩, hm =>
    (exprAt_cites h hc hm).part hx (List.forall_mem_singleton.2 List.mem_cons_self)
  | _, _, .args h, _, _, _, ⟨_, _, _, _, hc, has, hx⟩, hm =>
    (exprsAt_cites h has (hm ▸ exprAt_stmts hc)).part hx fun _ => List.mem_cons_of_mem _
  | _, _, .cond h, _, _, _, ⟨_, _, _, _, _, _, hc, _, _, hx⟩, hm =>
    (exprAt_cites h hc hm).part hx (List.forall_mem_singleton.2 List.mem_cons_self)
  | _, _, .thenExpr h, _, _, _, ⟨_, _, _, _, _, _, hc, ht, _, hx⟩, hm =>
    (exprAt_cites h ht (hm ▸ exprAt_stmts hc)).part hx
      (List.forall_mem_singleton.2 (.tail _ (.head _)))
  | _, _, .elseExpr h, _, _, _, ⟨_, _, _, _, _, _, hc, ht, hf, hx⟩, hm => by
    refine (exprAt_cites h hf ?_).part hx
      (List.forall_mem_singleton.2 (.tail _ (.tail _ (.head _))))
    rw [exprAt_stmts ht, exprAt_stmts hc, hm]
  | _, _, .closure h, m, _, _, ⟨_, _, hbody, _⟩, hm =>
    .inl (seqAt_cites h hbody ((stmts_inside m _).trans hm))

theorem exprsAt_cites {k n : Nat} : ∀ {es es' : List Source.Expr},
    ExprsWrites name i k n es es' → ∀ {m m' : Mark} {ids : List ExprId},
      p.ExprsAt scope es' m m' ids → m.stmts = n → p.CitesBy name i k ids
  | _, _, .head h, _, _, _, ⟨_, _, _, he, _, rfl⟩, hm =>
    (exprAt_cites h he hm).mono (List.forall_mem_singleton.2 List.mem_cons_self)
  | _, _, .tail h, _, _, _, ⟨_, _, _, he, hes, rfl⟩, hm =>
    (exprsAt_cites h hes (hm ▸ exprAt_stmts he)).mono fun _ => List.mem_cons_of_mem _

/-- **A reference that is written into a statement** is found in the statement of its number. -/
theorem stmtAt_cites {n : Nat} {parent : Option StmtId} : ∀ {s s' : Source.Stmt},
    Stmt.Writes name i n s s' → ∀ {next : Option StmtId} {m m' : Mark},
      p.StmtAt parent scope s' next m m' → m.stmts = n → p.Cites name i
  | _, _, .expr h, _, _, _, ⟨_, hx, hs⟩, hm =>
    (exprAt_cites h hx (congrArg (· + 1) hm)).stmt hm hs fun _ => id
  | _, _, .block h, _, _, _, ⟨_, _, hbody, _⟩, hm => seqAt_cites h hbody (congrArg (· + 1) hm)
  | _, _, .loopCond h, _, _, _, ⟨_, _, _, _, hc, _, _, hs⟩, hm =>
    (exprAt_cites h hc (congrArg (· + 1) hm)).stmt hm hs fun _ => id
  | _, _, .loopBody h, _, _, _, ⟨_, _, _, _, hc, hbody, _⟩, hm =>
    seqAt_cites h hbody (hm ▸ exprAt_stmts hc)
  | _, _, .iterators h, _, _, _, ⟨_, _, _, _, his, _, _, hs⟩, hm =>
    (exprsAt_cites h his (congrArg (· + 1) hm)).stmt hm hs fun _ => id
  | _, _, .forallBody h, _, _, _, ⟨m₁, _, _, _, his, hbody, _⟩, hm =>
    seqAt_cites h hbody ((stmts_inside m₁ _).trans (hm ▸ exprsAt_stmts his))
  | _, _, .branchCond h, _, _, _, ⟨_, _, _, _, _, _, hc, _, _, _, hs⟩, hm =>
    (exprAt_cites h hc (congrArg (· + 1) hm)).stmt hm hs fun _ => id
  | _, _, .thenBody h, _, _, _, ⟨_, _, _, _, _, _, hc, ht, _⟩, hm =>
    seqAt_cites h ht (hm ▸ exprAt_stmts hc)
  | _, _, .elseBody h, _, m, _, ⟨m₁, _, _, _, _, _, hc, ht, hf, _⟩, hm => by
    have hstart : m₁.stmts = m.stmts + 1 + _ := exprAt_stmts hc
    rw [hm] at hstart
    exact seqAt_cites h hf ((seqAt_stmts ht).trans (congrArg (· + _) hstart))
  | _, _, .selector h, _, _, _, ⟨_, _, _, hc, _, hs⟩, hm =>
    (exprAt_cites h hc (congrArg (· + 1) hm)).stmt hm hs fun _ => id
  | _, _, .arms h, _, _, _, ⟨_, _, _, hc, harms, _⟩, hm =>
    armsAt_cites h harms (hm ▸ exprAt_stmts hc)
  | _, _, .return h, _, _, _, ⟨_, hv, hs⟩, hm =>
    (exprAt_cites h hv (congrArg (· + 1) hm)).stmt hm hs fun _ => id

theorem seqAt_cites {n : Nat} {parent : Option StmtId} : ∀ {ss ss' : List Source.Stmt},
    StmtsWrites name i n ss ss' → ∀ {m m' : Mark} {first : Option StmtId},
      p.SeqAt parent scope ss' m m' first → m.stmts = n → p.Cites name i
  | _, _, .head h, _, _, _, ⟨_, _, hs, _⟩, hm => stmtAt_cites h hs hm
  | _, _, .tail h, _, _, _, ⟨_, _, hs, hss, _⟩, hm =>
    seqAt_cites h hss (hm ▸ stmtAt_stmts hs)

theorem armAt_cites {n : Nat} {select : StmtId} : ∀ {a a' : Source.Arm},
    Arm.Writes name i n a a' → ∀ {next : Option StmtId} {m m' : Mark},
      p.ArmAt select scope a' next m m' → m.stmts = n → p.Cites name i
  | _, _, .cases h, _, _, _, ⟨_, _, _, _, hcs, _, _, hs⟩, hm =>
    (exprsAt_cites h hcs (congrArg (· + 1) hm)).stmt hm hs fun _ => id
  | _, _, .body h, _, _, _, ⟨_, _, _, _, hcs, hbody, _⟩, hm =>
    seqAt_cites h hbody (hm ▸ exprsAt_stmts hcs)

theorem armsAt_cites {n : Nat} {select : StmtId} : ∀ {as as' : List Source.Arm},
    ArmsWrites name i n as as' → ∀ {m m' : Mark} {first : Option StmtId},
      p.ArmsAt select scope as' m m' first → m.stmts = n → p.Cites name i
  | _, _, .head h, _, _, _, ⟨_, _, ha, _⟩, hm => armAt_cites h ha hm
  | _, _, .tail h, _, _, _, ⟨_, _, ha, has, _⟩, hm =>
    armsAt_cites h has (hm ▸ armAt_stmts ha)

end

/-! ### Functions and modules -/

variable {visible : List String}

theorem BodyAt.stmts {ss : List Source.Stmt} {m m' : Mark} {first : Option StmtId}
    (h : p.BodyAt scope visible ss m m' first) : m'.stmts = m.stmts + Source.stmtsSize ss := by
  obtain ⟨m₁, hat, rfl⟩ := h.placed
  exact (seqAt_stmts hat :)

mutual

theorem functionAt_stmts : ∀ {f : Source.Function} {outer : ScopeId} {visible : List String}
    {id : FnId} {m m' : Mark}, p.FunctionAt outer visible f id m m' → m'.stmts = m.stmts + f.size
  | .mk _ _ _ _, _, _, _, m, _, ⟨_, _, _, _, _, m₁, m₂, _, _, _, hbody, hinner, rfl⟩ => by
    have h₁ : m₁.stmts = m.stmts + _ := hbody.stmts
    show m₂.stmts = _
    rw [functionsAt_stmts hinner, h₁, Source.Function.size, Nat.add_assoc]

theorem functionsAt_stmts : ∀ {fs : List Source.Function} {scope : ScopeId}
    {visible : List String} {ids : List FnId} {m m' : Mark},
      p.FunctionsAt scope visible fs ids m m' → m'.stmts = m.stmts + Source.functionsSize fs
  | [], _, _, _, _, _, ⟨_, rfl⟩ => rfl
  | _ :: _, _, _, _, _, _, ⟨_, _, _, _, hf, hfs⟩ => by
    rw [functionsAt_stmts hfs, functionAt_stmts hf, Source.functionsSize, Nat.add_assoc]

end

theorem ModuleAt.stmts {d : Source.Module} {d' : Module} {m m' : Mark}
    (h : p.ModuleAt visible d d' m m') : m'.stmts = m.stmts + d.size := by
  obtain ⟨_, _, m₁, m₂, _, _, hbody, hfunctions, rfl⟩ := h
  have h₁ : m₁.stmts = m.stmts + _ := hbody.stmts
  show m₂.stmts = _
  rw [functionsAt_stmts hfunctions, h₁, Source.Module.size, Nat.add_assoc]

/-! ### The references of a statement -/

/-- What is involved in an expression comes before it. -/
theorem WellFormed.le_of_involves (hp : p.WellFormed) {r e : ExprId} (h : p.Involves r e) :
    e.index ≤ r.index := by
  induction h with
  | self => exact Nat.le_refl _
  | part _ hx hc ih => exact (Nat.le_of_lt ((hp.exprs _ _ hx).parts _ hc)).trans ih

/-- The references in the statement with number `i` are bound, each to the only function of a name
in the scope of the statement. If the statement has expressions, something can be written into
it. -/
structure BindsStmt (p : Program) (i : Nat) (t : Stmt) (writable : Prop) : Prop where
  refers : ∀ f, p.RefersTo ⟨i⟩ f → ∃ name, p.visible t.scope name = [f]
  writable : t.kind.exprs ≠ [] → writable

variable {t : Stmt}

theorem BindsStmt.imp {writable writable' : Prop} (h : p.BindsStmt i t writable)
    (hw : writable → writable') : p.BindsStmt i t writable' :=
  ⟨h.refers, fun hne => hw (h.writable hne)⟩

/-- **The statements of a body** are in its scope, and their references are bound in it. -/
theorem BodyAt.binds (hp : p.WellFormed) (ht : p.stmt? ⟨i⟩ = some t) {ss : List Source.Stmt}
    {m m' : Mark} {first : Option StmtId} (h : p.BodyAt scope visible ss m m' first)
    (hle : m.stmts ≤ i) (hlt : i < m'.stmts) :
    t.scope = scope ∧ p.BindsStmt i t (∃ ss', StmtsWrites name i m.stmts ss ss') := by
  obtain ⟨m₁, hat, rfl⟩ := h.placed
  have hlies : p.Lies scope (m.enter []) m₁ t (∃ ss', StmtsWrites name i m.stmts ss ss') :=
    seqAt_lies ht hat hle hlt
  refine ⟨hlies.scope_eq, fun f ⟨s, hs, e, he, r, hinvolves, hr⟩ => ?_, hlies.writable⟩
  cases ht.symm.trans hs
  obtain ⟨hfrom, hbefore⟩ := hlies.exprs e he
  rw [hlies.scope_eq]
  refine h.refers r f (hinvolves.from hfrom).le (Nat.lt_of_le_of_lt ?_ hbefore) hr
  exact hp.le_of_involves hinvolves

mutual

theorem functionAt_binds (hp : p.WellFormed) (ht : p.stmt? ⟨i⟩ = some t) :
    ∀ {f : Source.Function} {outer : ScopeId} {visible : List String} {id : FnId} {m m' : Mark},
      p.FunctionAt outer visible f id m m' → m.stmts ≤ i → i < m'.stmts →
      p.BindsStmt i t (∃ f', Function.Writes name i m.stmts f f')
  | .mk _ _ _ _, _, _, _, m, _, ⟨_, _, _, _, _, m₁, _, _, _, _, hbody, hinner, rfl⟩, hle, hlt => by
    rcases Nat.lt_or_ge i m₁.stmts with hi | hi
    · exact (hbody.binds hp ht hle hi).2.imp fun ⟨_, h⟩ => ⟨_, .body h⟩
    · refine (functionsAt_binds hp ht hinner hi hlt).imp fun ⟨_, h⟩ => ?_
      rw [hbody.stmts] at h
      exact ⟨_, .inner h⟩

theorem functionsAt_binds (hp : p.WellFormed) (ht : p.stmt? ⟨i⟩ = some t) :
    ∀ {fs : List Source.Function} {scope : ScopeId} {visible : List String} {ids : List FnId}
      {m m' : Mark}, p.FunctionsAt scope visible fs ids m m' → m.stmts ≤ i → i < m'.stmts →
      p.BindsStmt i t (∃ fs', FunctionsWrites name i m.stmts fs fs')
  | [], _, _, _, _, _, ⟨_, rfl⟩, hle, hlt => absurd hlt (Nat.not_lt.2 hle)
  | _ :: _, _, _, _, _, _, ⟨_, _, m₁, _, hf, hfs⟩, hle, hlt => by
    rcases Nat.lt_or_ge i m₁.stmts with hi | hi
    · exact (functionAt_binds hp ht hf hle hi).imp fun ⟨_, h⟩ => ⟨_, .head h⟩
    · refine (functionsAt_binds hp ht hfs hi hlt).imp fun ⟨_, h⟩ => ?_
      rw [functionAt_stmts hf] at h
      exact ⟨_, .tail h⟩

end

theorem ModuleAt.binds (hp : p.WellFormed) (ht : p.stmt? ⟨i⟩ = some t) {d : Source.Module}
    {d' : Module} {m m' : Mark} (h : p.ModuleAt visible d d' m m') (hle : m.stmts ≤ i)
    (hlt : i < m'.stmts) : p.BindsStmt i t (∃ d'', Module.Writes name i m.stmts d d'') := by
  obtain ⟨_, _, m₁, _, _, _, hbody, hfunctions, rfl⟩ := h
  rcases Nat.lt_or_ge i m₁.stmts with hi | hi
  · exact (hbody.binds hp ht hle hi).2.imp fun ⟨_, h⟩ => ⟨_, .body h⟩
  · have hinner : p.BindsStmt i t (∃ fs, FunctionsWrites name i m₁.stmts d.functions fs) :=
      functionsAt_binds hp ht hfunctions hi hlt
    refine hinner.imp fun ⟨_, h⟩ => ?_
    rw [hbody.stmts] at h
    exact ⟨_, .functions h⟩

theorem modulesAt_binds (hp : p.WellFormed) (ht : p.stmt? ⟨i⟩ = some t) {ds : List Source.Module}
    {ds' : List Module} {m m' : Mark} (h : p.ModulesAt visible ds ds' m m') (hle : m.stmts ≤ i)
    (hlt : i < m'.stmts) : p.BindsStmt i t (∃ ds'', ModulesWrites name i m.stmts ds ds'') := by
  induction ds generalizing ds' m with
  | nil =>
    obtain ⟨-, rfl⟩ := h
    exact absurd hlt (Nat.not_lt.2 hle)
  | cons d ds ih =>
    obtain ⟨_, _, m₁, -, hd, hds⟩ := h
    rcases Nat.lt_or_ge i m₁.stmts with hi | hi
    · exact (hd.binds hp ht hle hi).imp fun ⟨_, h⟩ => ⟨_, .head h⟩
    · refine (ih hds hi).imp fun ⟨_, h⟩ => ?_
      rw [hd.stmts] at h
      exact ⟨_, .tail h⟩

/-- **The references of a linked program** are bound in the scopes of their statements, and another
one can be written into any statement that has expressions. -/
theorem binds_of_link {d : Source.Program} (h : link d = .ok p) (ht : p.stmt? ⟨i⟩ = some t) :
    p.BindsStmt i t (∃ d', d.Writes name i d') := by
  obtain ⟨-, hat⟩ := placed_of_link h
  have hlt : i < p.endMark.stmts := (Array.getElem?_eq_some_iff.1 ht).1
  exact (modulesAt_binds (wellFormed_of_link h) ht hat (Nat.zero_le i) hlt).imp
    fun ⟨ms, hms⟩ => ⟨⟨ms, d.entry⟩, hms, rfl⟩

/-! ### A reference that is written -/

theorem BodyAt.cites {ss ss' : List Source.Stmt} {m m' : Mark} {first : Option StmtId}
    (hw : StmtsWrites name i n ss ss') (h : p.BodyAt scope visible ss' m m' first)
    (hm : m.stmts = n) : p.Cites name i := by
  obtain ⟨_, hat, -⟩ := h.placed
  exact seqAt_cites hw hat hm

mutual

theorem functionAt_cites {n : Nat} : ∀ {f f' : Source.Function}, Function.Writes name i n f f' →
    ∀ {outer : ScopeId} {visible : List String} {id : FnId} {m m' : Mark},
      p.FunctionAt outer visible f' id m m' → m.stmts = n → p.Cites name i
  | _, _, .body h, _, _, _, _, _, ⟨_, _, _, _, _, _, _, _, _, _, hbody, _⟩, hm => hbody.cites h hm
  | _, _, .inner h, _, _, _, _, _, ⟨_, _, _, _, _, _, _, _, _, _, hbody, hinner, _⟩, hm =>
    functionsAt_cites h hinner (hm ▸ hbody.stmts)

theorem functionsAt_cites {n : Nat} : ∀ {fs fs' : List Source.Function},
    FunctionsWrites name i n fs fs' → ∀ {scope : ScopeId} {visible : List String}
      {ids : List FnId} {m m' : Mark}, p.FunctionsAt scope visible fs' ids m m' → m.stmts = n →
      p.Cites name i
  | _, _, .head h, _, _, _, _, _, ⟨_, _, _, _, hf, _⟩, hm => functionAt_cites h hf hm
  | _, _, .tail h, _, _, _, _, _, ⟨_, _, _, _, hf, hfs⟩, hm =>
    functionsAt_cites h hfs (hm ▸ functionAt_stmts hf)

end

theorem ModuleAt.cites {d d' : Source.Module} {c : Module} {m m' : Mark}
    (hw : Module.Writes name i n d d') (h : p.ModuleAt visible d' c m m') (hm : m.stmts = n) :
    p.Cites name i := by
  obtain ⟨_, _, _, _, _, _, hbody, hfunctions, -⟩ := h
  cases hw with
  | body hw => exact hbody.cites hw hm
  | functions hw => exact functionsAt_cites hw hfunctions (hm ▸ hbody.stmts)

theorem modulesAt_cites {ds ds' : List Source.Module} {cs : List Module} {m m' : Mark}
    (hw : ModulesWrites name i n ds ds') (h : p.ModulesAt visible ds' cs m m')
    (hm : m.stmts = n) : p.Cites name i := by
  induction hw generalizing cs m with
  | head hw =>
    obtain ⟨_, _, _, -, hd, -⟩ := h
    exact hd.cites hw hm
  | tail _ ih =>
    obtain ⟨_, _, _, -, hd, hds⟩ := h
    exact ih hds (hm ▸ hd.stmts)

/-- **A reference that is written into a statement** is there when the definition is linked. -/
theorem cites_of_link {d d' : Source.Program} (hw : d.Writes name i d')
    (h : link d' = .ok p) : p.Cites name i :=
  modulesAt_cites hw.modules (placed_of_link h).2 rfl

/-! ### What a reference that is written relies on -/

/-- A definition relies on a function of a name as well, where those are visible that are visible in
the scope of a statement. -/
def Demands (p : Program) (name : String) (t : Stmt) (us us' : List Source.Use) : Prop :=
  ∃ visible, p.Shows t.scope visible ∧ Source.Gains (.function name visible) us us'

theorem Demands.prepend {us us' : List Source.Use} (h : p.Demands name t us us')
    (vs : List Source.Use) : p.Demands name t (vs ++ us) (vs ++ us') :=
  h.imp fun _ h => h.imp_right (·.prepend vs)

theorem Demands.append {us us' : List Source.Use} (h : p.Demands name t us us')
    (vs : List Source.Use) : p.Demands name t (us ++ vs) (us' ++ vs) :=
  h.imp fun _ h => h.imp_right (·.append vs)

theorem BodyAt.demands (hp : p.WellFormed) (ht : p.stmt? ⟨i⟩ = some t)
    {ss ss' : List Source.Stmt} {m m' : Mark} {first : Option StmtId}
    (hw : StmtsWrites name i n ss ss') (h : p.BodyAt scope visible ss m m' first)
    (hm : m.stmts = n) (vars : List String) :
    p.Demands name t (Source.bodyUses visible vars ss) (Source.bodyUses visible vars ss') := by
  obtain ⟨hle, hlt⟩ := hw.range
  rw [← hm] at hle hlt
  rw [← h.stmts] at hlt
  have hbinds : t.scope = scope ∧ p.BindsStmt i t (∃ ss', StmtsWrites name i m.stmts ss ss') :=
    h.binds hp ht hle hlt
  exact ⟨visible, hbinds.1 ▸ h.shows, hw.bodyUses visible vars⟩

mutual

theorem functionAt_demands (hp : p.WellFormed) (ht : p.stmt? ⟨i⟩ = some t) {n : Nat} :
    ∀ {f f' : Source.Function}, Function.Writes name i n f f' → ∀ {outer : ScopeId}
      {visible : List String} {id : FnId} {m m' : Mark}, p.FunctionAt outer visible f id m m' →
      m.stmts = n → ∀ vars, p.Demands name t (f.uses visible vars) (f'.uses visible vars)
  | _, _, .body h, _, _, _, _, _, ⟨_, _, _, _, _, _, _, _, _, _, hbody, _⟩, hm, vars =>
    (hbody.demands hp ht h hm _).append _
  | _, _, .inner h, _, _, _, _, _, ⟨_, _, _, _, _, _, _, _, _, _, hbody, hinner, _⟩, hm, vars => by
    rw [Source.Function.uses, Source.Function.uses, h.names_eq]
    exact (functionsAt_demands hp ht h hinner (hm ▸ hbody.stmts) _).prepend _

theorem functionsAt_demands (hp : p.WellFormed) (ht : p.stmt? ⟨i⟩ = some t) {n : Nat} :
    ∀ {fs fs' : List Source.Function}, FunctionsWrites name i n fs fs' → ∀ {scope : ScopeId}
      {visible : List String} {ids : List FnId} {m m' : Mark},
      p.FunctionsAt scope visible fs ids m m' → m.stmts = n → ∀ vars,
        p.Demands name t (Source.functionsUses visible vars fs)
          (Source.functionsUses visible vars fs')
  | _, _, .head h, _, _, _, _, _, ⟨_, _, _, _, hf, _⟩, hm, vars =>
    (functionAt_demands hp ht h hf hm vars).append _
  | _, _, .tail h, _, _, _, _, _, ⟨_, _, _, _, hf, hfs⟩, hm, vars =>
    (functionsAt_demands hp ht h hfs (hm ▸ functionAt_stmts hf) vars).prepend _

end

theorem ModuleAt.demands (hp : p.WellFormed) (ht : p.stmt? ⟨i⟩ = some t) {d d' : Source.Module}
    {c : Module} {m m' : Mark} (hw : Module.Writes name i n d d')
    (h : p.ModuleAt (Primitive.all.map Primitive.name) d c m m') (hm : m.stmts = n) :
    p.Demands name t d.uses d'.uses := by
  obtain ⟨_, _, _, _, _, _, hbody, hfunctions, -⟩ := h
  cases hw with
  | body hw => exact (hbody.demands hp ht hw hm []).append _
  | functions hw =>
    rw [Source.Module.uses, Source.Module.uses, Source.Module.visible, Source.Module.visible,
      hw.names_eq]
    exact (functionsAt_demands hp ht hw hfunctions (hm ▸ hbody.stmts) []).prepend _

theorem modulesAt_demands (hp : p.WellFormed) (ht : p.stmt? ⟨i⟩ = some t)
    {ds ds' : List Source.Module} {cs : List Module} {m m' : Mark}
    (hw : ModulesWrites name i n ds ds')
    (h : p.ModulesAt (Primitive.all.map Primitive.name) ds cs m m') (hm : m.stmts = n) :
    p.Demands name t (ds.flatMap Source.Module.uses) (ds'.flatMap Source.Module.uses) := by
  induction hw generalizing cs m with
  | head hw =>
    obtain ⟨_, _, _, -, hd, -⟩ := h
    exact (hd.demands hp ht hw hm).append _
  | tail _ ih =>
    obtain ⟨_, _, _, -, hd, hds⟩ := h
    exact (ih hds (hm ▸ hd.stmts)).prepend _

/-- **A reference that is written into a statement** relies on what is visible in the scope that the
statement has without it. -/
theorem demands_of_link {d d' : Source.Program} (h : link d = .ok p)
    (ht : p.stmt? ⟨i⟩ = some t) (hw : d.Writes name i d') :
    p.Demands name t d.uses d'.uses :=
  modulesAt_demands (wellFormed_of_link h) ht hw.modules (placed_of_link h).2 rfl

end Program

end TreeMachine
