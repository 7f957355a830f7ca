import TreeMachine.Proofs.Linking.Modules
import TreeMachine.Proofs.Tree.Scoping

/-!
# Linking follows the scoping of the definition

The frames of variables that linking keeps are those of the list of what is declared and referred to
(`Program.Tells`): what a definition declares goes into the innermost frame, and what it refers to
is found in the frames. The variables of the list are those that linking has added, and every
reference of the tables is in it. So each reference is bound by the rule of the list.

The rule is about a list of events and mentions neither tables nor frames: a reference denotes the
latest declaration of its name in the innermost frame that is open and has one. The events of a
definition are read off the definition and the tables together, since they carry the names of the
one and the ids of the other (`Program.ModulesScoped`). Events come in the order in which the
definition is written: the target of an assignment is referred to before its value declares
anything, what a condition declares is visible behind the statement as well, and the iterators of a
loop do not see its indices.

The main result, `binds_lexically`, has as its last part that the sequences of a definition do not
interfere: a reference outside a sequence denotes the same declaration if the sequence is replaced
by any other one. This is a statement about two programs, and it is proved about two lists of events
that have a part in common.

Whether a declaration has been evaluated when its variable is read is a matter of runs, and is not
considered here.
-/

namespace TreeMachine

open ScopeEvent (Replays Binds Denotes inFrame declarations declared? past replays_declarations)

namespace Program

variable {p : Program}

/-! ### Events between marks -/

/-- Events lead from the frames of a mark to those of a later one. They declare the variables that
are added, besides some others that there have been before, and they have all references among the
expressions that are added. -/
structure Tells (p : Program) (others : List VarId) (m m' : Mark) (evs : List ScopeEvent) :
    Prop where
  exprs : m.exprs ≤ m'.exprs
  vars : m.vars ≤ m'.vars
  replays : ∀ frame frames, m.frames = frame :: frames → ∃ frame', m'.frames = frame' :: frames ∧
    Replays (frame :: frames) evs (frame' :: frames)
  declares : (evs.filterMap declared?).Perm (others ++ VarId.between m.vars m'.vars)
  refers : ∀ e x, m.exprs ≤ e.index → e.index < m'.exprs → p.Refers e x →
    ∃ name, .refer name x e ∈ evs

variable {m m' m'' : Mark} {others others' : List VarId} {evs es fs : List ScopeEvent}
  {e : ExprId} {x : VarId}

theorem Tells.refl (p : Program) (m : Mark) : p.Tells [] m m [] := by
  refine ⟨Nat.le_refl _, Nat.le_refl _, fun frame _ h => ⟨frame, h, .nil⟩, ?_, fun e _ h h' => ?_⟩
  · rw [VarId.between_self]
    exact .nil
  · exact absurd h (Nat.not_le.2 h')

theorem Tells.trans (h : p.Tells others m m' es) (h' : p.Tells others' m' m'' fs) :
    p.Tells (others ++ others') m m'' (es ++ fs) := by
  refine ⟨h.exprs.trans h'.exprs, h.vars.trans h'.vars, fun frame frames hm => ?_, ?_,
    fun e x he he' hx => ?_⟩
  · obtain ⟨_, hm', hes⟩ := h.replays frame frames hm
    obtain ⟨frame', hm'', hfs⟩ := h'.replays _ _ hm'
    exact ⟨frame', hm'', hes.append hfs⟩
  · rw [List.filterMap_append, ← VarId.between_append h.vars h'.vars]
    refine (h.declares.append h'.declares).trans ?_
    rw [List.append_assoc, List.append_assoc]
    refine List.Perm.append_left _ ?_
    rw [← List.append_assoc, ← List.append_assoc]
    exact List.perm_append_comm.append_right _
  · rcases Nat.lt_or_ge e.index m'.exprs with hlt | hge
    · obtain ⟨name, hmem⟩ := h.refers e x he hlt hx
      exact ⟨name, List.mem_append_left _ hmem⟩
    · obtain ⟨name, hmem⟩ := h'.refers e x hge he' hx
      exact ⟨name, List.mem_append_right _ hmem⟩

/-- A statement more is not told. -/
theorem Tells.ofStmt (h : p.Tells others m.addStmt m' evs) : p.Tells others m m' evs :=
  ⟨h.exprs, h.vars, h.replays, h.declares, h.refers⟩

/-- The variables of others that come next are variables that are added. -/
theorem Tells.absorb {n : Nat} (h : p.Tells (VarId.between m.vars n) { m with vars := n } m' evs)
    (hn : m.vars ≤ n) : p.Tells [] m m' evs := by
  have hvars : n ≤ m'.vars := h.vars
  refine ⟨h.exprs, hn.trans hvars, h.replays, ?_, h.refers⟩
  rw [List.nil_append, ← VarId.between_append hn hvars]
  exact h.declares

/-- What is told in a frame of its own. -/
theorem Tells.replays_inFrame (h : p.Tells others (m.enter []) m' evs) :
    Replays m.frames (inFrame evs) m.frames := by
  obtain ⟨frame, -, hevs⟩ := h.replays [] m.frames rfl
  exact hevs.framed

theorem Tells.framed (h : p.Tells others (m.enter []) m' evs) :
    p.Tells others m (m'.leave m) (inFrame evs) := by
  refine ⟨h.exprs, h.vars, fun frame frames hm => ⟨frame, hm, ?_⟩, ?_, fun e x he he' hx => ?_⟩
  · have hframe := h.replays_inFrame
    rwa [hm] at hframe
  · have hinside : (inFrame evs).filterMap declared? =
        (evs ++ [ScopeEvent.leave]).filterMap declared? := List.filterMap_cons_none rfl
    have hleave : [ScopeEvent.leave].filterMap declared? = [] := rfl
    rw [hinside, List.filterMap_append, hleave, List.append_nil]
    exact h.declares
  · obtain ⟨name, hmem⟩ := h.refers e x he he' hx
    exact ⟨name, List.mem_cons_of_mem _ (List.mem_append_left _ hmem)⟩

/-! ### Expressions and declarations -/

/-- An expression that refers to no variable itself. -/
theorem ExprIs.tells {y : Expr} (h : p.ExprIs y m m' e) (hvar : ∀ x, y ≠ .var x)
    (hassign : ∀ x v, y ≠ .assign x v) : p.Tells [] m m' [] := by
  obtain ⟨rfl, rfl, hy⟩ := h
  refine ⟨Nat.le_succ _, Nat.le_refl _, fun frame _ h => ⟨frame, h, .nil⟩, ?_,
    fun e x he he' hx => ?_⟩
  · rw [show m.addExpr.vars = m.vars from rfl, VarId.between_self]
    exact .nil
  · have hlast : e = m.exprId := congrArg ExprId.mk (Nat.le_antisymm (Nat.le_of_lt_succ he') he)
    subst hlast
    rcases hx with hx | ⟨v, hx⟩
    · cases hy.symm.trans hx
      exact absurd rfl (hvar x)
    · cases hy.symm.trans hx
      exact absurd rfl (hassign x v)

theorem Tells.expr {y : Expr} (h : p.Tells others m m' evs) (hy : p.ExprIs y m' m'' e)
    (hvar : ∀ x, y ≠ .var x) (hassign : ∀ x v, y ≠ .assign x v) : p.Tells others m m'' evs := by
  have htells := h.trans (hy.tells hvar hassign)
  rwa [List.append_nil, List.append_nil] at htells

/-- An expression that refers to a variable which is looked up before its parts are linked. -/
theorem Tells.refer {name : String} {y : Expr} (h : p.Tells [] m m' evs)
    (hx : m.lookup? name = some x) (hy : p.ExprIs y m' m'' e)
    (hrefers : ∀ x', p.Refers e x' → x' = x) : p.Tells [] m m'' (.refer name x e :: evs) := by
  obtain ⟨rfl, rfl, hy⟩ := hy
  refine ⟨Nat.le_succ_of_le h.exprs, h.vars, fun frame frames hm => ?_, h.declares,
    fun e' x' he he' hx' => ?_⟩
  · obtain ⟨frame', hm', hevs⟩ := h.replays frame frames hm
    refine ⟨frame', hm', .refer ?_ hevs⟩
    rw [← hm]
    exact hx
  · rcases Nat.lt_or_ge e'.index m'.exprs with hlt | hge
    · obtain ⟨name', hmem⟩ := h.refers e' x' he hlt hx'
      exact ⟨name', List.mem_cons_of_mem _ hmem⟩
    · have hlast : e' = m'.exprId :=
        congrArg ExprId.mk (Nat.le_antisymm (Nat.le_of_lt_succ he') hge)
      subst hlast
      rw [hrefers x' hx']
      exact ⟨name, List.mem_cons_self⟩

theorem tells_declare (p : Program) (m : Mark) (name : String) :
    p.Tells [] m (m.declare name) [.declare name m.varId] := by
  refine ⟨Nat.le_refl _, Nat.le_succ _, fun frame frames hm => ?_, ?_, fun e _ he he' => ?_⟩
  · refine ⟨(name, m.varId) :: frame, ?_, .declare .nil⟩
    rw [Mark.declare, hm]
  · rw [show (m.declare name).vars = m.vars + 1 from rfl, VarId.between_succ]
    exact .refl _
  · exact absurd he (Nat.not_le.2 he')

theorem tells_declareAll (p : Program) (m : Mark) (names : List String) :
    p.Tells [] m (m.declareAll names).1 (declarations names (m.declareAll names).2) := by
  induction names generalizing m with
  | nil => exact .refl p m
  | cons name names ih => exact (tells_declare p m name).trans (ih _)

theorem length_declareAll (m : Mark) (names : List String) :
    (m.declareAll names).2.length = names.length := by
  induction names generalizing m with
  | nil => rfl
  | cons name names ih => exact congrArg Nat.succ (ih _)

/-! ### The nodes of a definition -/

mutual

/-- **The nodes of an expression** tell its events. -/
theorem exprAt_tells {scope : ScopeId} : ∀ {src : Source.Expr} {m m' : Mark} {e : ExprId},
    p.ExprAt scope src m m' e → ∃ evs, p.ExprScoped src e evs ∧ p.Tells [] m m' evs
  | .scalar _, _, _, _, h => ⟨_, ⟨h.2.2, rfl⟩, h.tells nofun nofun⟩
  | .var name, m, _, _, ⟨x, hx, h⟩ => by
    refine ⟨_, ⟨x, h.2.2, rfl⟩, (Tells.refl p m).refer hx h fun x' hx' => ?_⟩
    rcases hx' with hx' | ⟨v, hx'⟩
    · cases h.2.2.symm.trans hx'
      rfl
    · cases h.2.2.symm.trans hx'
  | .declare name, m, _, _, h =>
    ⟨_, ⟨_, h.2.2, rfl⟩, (tells_declare p m name).trans (h.tells nofun nofun)⟩
  | .assign name value, m, _, _, ⟨x, m₁, v, hx, hv, h⟩ => by
    obtain ⟨es, hscoped, htells⟩ := exprAt_tells hv
    refine ⟨_, ⟨x, v, es, h.2.2, hscoped, rfl⟩, htells.refer hx h fun x' hx' => ?_⟩
    rcases hx' with hx' | ⟨v, hx'⟩
    · cases h.2.2.symm.trans hx'
    · cases h.2.2.symm.trans hx'
      rfl
  | .name _, _, _, _, h => ⟨_, ⟨h.2.2, rfl⟩, h.tells nofun nofun⟩
  | .function _, _, _, _, ⟨f, _, h⟩ => ⟨_, ⟨f, h.2.2, rfl⟩, h.tells nofun nofun⟩
  | .call .., _, _, _, ⟨_, _, c, as, hc, has, h⟩ => by
    obtain ⟨es, hcallee, htells₁⟩ := exprAt_tells hc
    obtain ⟨fs, hargs, htells₂⟩ := exprsAt_tells has
    exact ⟨_, ⟨c, as, es, fs, h.2.2, hcallee, hargs, rfl⟩,
      (htells₁.trans htells₂).expr h nofun nofun⟩
  | .choose .., _, _, _, ⟨_, _, _, c, t, f, hc, ht, hf, h⟩ => by
    obtain ⟨es, hcond, htells₁⟩ := exprAt_tells hc
    obtain ⟨fs, hthen, htells₂⟩ := exprAt_tells ht
    obtain ⟨gs, helse, htells₃⟩ := exprAt_tells hf
    exact ⟨_, ⟨c, t, f, es, fs, gs, h.2.2, hcond, hthen, helse, rfl⟩,
      (htells₁.trans (htells₂.trans htells₃)).expr h nofun nofun⟩
  | .closure params _, m, _, _, ⟨_, first, hbody, h⟩ => by
    obtain ⟨es, hseq, htells⟩ := seqAt_tells hbody
    have hframe := ((tells_declareAll p (m.enter []) params).trans htells.framed).framed
    exact ⟨_, ⟨_, first, es, h.2.2, length_declareAll _ _, hseq, rfl⟩, hframe.expr h nofun nofun⟩

theorem exprsAt_tells {scope : ScopeId} : ∀ {es : List Source.Expr} {m m' : Mark}
    {ids : List ExprId}, p.ExprsAt scope es m m' ids →
      ∃ evs, p.ExprsScoped es ids evs ∧ p.Tells [] m m' evs
  | [], m, _, _, ⟨rfl, hids⟩ => ⟨_, ⟨hids, rfl⟩, .refl p m⟩
  | _ :: _, _, _, _, ⟨_, i, is, he, hes, hids⟩ => by
    obtain ⟨fs, hi, htells₁⟩ := exprAt_tells he
    obtain ⟨gs, his, htells₂⟩ := exprsAt_tells hes
    exact ⟨_, ⟨i, is, fs, gs, hids, hi, his, rfl⟩, htells₁.trans htells₂⟩

/-- **The nodes of a statement** tell its events. -/
theorem stmtAt_tells {parent : Option StmtId} {scope : ScopeId} : ∀ {s : Source.Stmt}
    {next : Option StmtId} {m m' : Mark}, p.StmtAt parent scope s next m m' →
      ∃ kind evs, p.StmtIs kind next parent scope m ∧ p.StmtScoped s kind evs ∧
        p.Tells [] m m' evs
  | .expr _, _, _, _, ⟨x, hx, h⟩ => by
    obtain ⟨evs, hscoped, htells⟩ := exprAt_tells hx
    exact ⟨_, evs, h, ⟨x, rfl, hscoped⟩, htells.ofStmt⟩
  | .block _, _, m, _, ⟨_, first, hbody, rfl, h⟩ => by
    obtain ⟨es, hseq, htells⟩ := seqAt_tells hbody
    exact ⟨_, _, h, ⟨first, es, rfl, hseq, rfl⟩, (htells.framed (m := m.addStmt)).ofStmt⟩
  | .loop .., _, _, _, ⟨_, _, c, first, hc, hbody, rfl, h⟩ => by
    obtain ⟨es, hcond, htells₁⟩ := exprAt_tells hc
    obtain ⟨fs, hseq, htells₂⟩ := seqAt_tells hbody
    exact ⟨_, _, h, ⟨c, first, es, fs, rfl, hcond, hseq, rfl⟩,
      (htells₁.trans htells₂.framed).ofStmt⟩
  | .forall indices .., _, _, _, ⟨m₁, _, is, first, his, hbody, rfl, h⟩ => by
    obtain ⟨es, hiterators, htells₁⟩ := exprsAt_tells his
    obtain ⟨fs, hseq, htells₂⟩ := seqAt_tells hbody
    have hframe := ((tells_declareAll p (m₁.enter []) indices).trans htells₂.framed).framed
    exact ⟨_, _, h, ⟨_, is, first, es, fs, rfl, length_declareAll _ _, hiterators, hseq, rfl⟩,
      (htells₁.trans hframe).ofStmt⟩
  | .branch .., _, _, _, ⟨m₁, m₂, _, c, t, f, hc, ht, hf, rfl, h⟩ => by
    obtain ⟨es, hcond, htells₁⟩ := exprAt_tells hc
    obtain ⟨fs, hthen, htells₂⟩ := seqAt_tells ht
    obtain ⟨gs, helse, htells₃⟩ := seqAt_tells hf
    have hframes := htells₂.framed.trans (htells₃.framed (m := m₂.leave m₁))
    exact ⟨_, _, h, ⟨c, t, f, es, fs, gs, rfl, hcond, hthen, helse, rfl⟩,
      (htells₁.trans hframes).ofStmt⟩
  | .select .., _, _, _, ⟨_, c, first, hc, harms, h⟩ => by
    obtain ⟨es, hselector, htells₁⟩ := exprAt_tells hc
    obtain ⟨fs, harms', htells₂⟩ := armsAt_tells harms
    exact ⟨_, _, h, ⟨c, first, es, fs, rfl, hselector, harms', rfl⟩,
      (htells₁.trans htells₂).ofStmt⟩
  | .return none, _, m, _, ⟨rfl, h⟩ =>
    ⟨_, _, h, ⟨rfl, rfl⟩, (Tells.refl p m.addStmt).ofStmt⟩
  | .return (some _), _, _, _, ⟨v, hv, h⟩ => by
    obtain ⟨evs, hscoped, htells⟩ := exprAt_tells hv
    exact ⟨_, evs, h, ⟨v, rfl, hscoped⟩, htells.ofStmt⟩
  | .label _, _, m, _, ⟨rfl, h⟩ =>
    ⟨_, _, h, ⟨rfl, rfl⟩, (Tells.refl p m.addStmt).ofStmt⟩
  | .goto _, _, m, _, ⟨target, rfl, h⟩ =>
    ⟨_, _, h, ⟨target, rfl, rfl⟩, (Tells.refl p m.addStmt).ofStmt⟩

/-- **The nodes of a sequence** tell its events. -/
theorem seqAt_tells {parent : Option StmtId} {scope : ScopeId} : ∀ {ss : List Source.Stmt}
    {m m' : Mark} {first : Option StmtId}, p.SeqAt parent scope ss m m' first →
      ∃ evs, p.SeqScoped ss first evs ∧ p.Tells [] m m' evs
  | [], m, _, _, ⟨rfl, hfirst⟩ => ⟨_, ⟨hfirst, rfl⟩, .refl p m⟩
  | _ :: _, m, _, _, ⟨_, _, hs, hss, hfirst⟩ => by
    obtain ⟨kind, es, hat, hscoped, htells₁⟩ := stmtAt_tells hs
    obtain ⟨fs, hrest, htells₂⟩ := seqAt_tells hss
    exact ⟨_, ⟨m.stmtId, _, es, fs, hfirst, hat, hscoped, hrest, rfl⟩, htells₁.trans htells₂⟩

theorem armAt_tells {select : StmtId} {scope : ScopeId} : ∀ {a : Source.Arm}
    {next : Option StmtId} {m m' : Mark}, p.ArmAt select scope a next m m' →
      ∃ kind evs, p.StmtIs kind next (some select) scope m ∧ p.ArmScoped a kind evs ∧
        p.Tells [] m m' evs
  | .mk .., _, _, _, ⟨_, _, cs, first, hcs, hbody, rfl, h⟩ => by
    obtain ⟨es, hcases, htells₁⟩ := exprsAt_tells hcs
    obtain ⟨fs, hseq, htells₂⟩ := seqAt_tells hbody
    exact ⟨_, _, h, ⟨cs, first, es, fs, rfl, hcases, hseq, rfl⟩,
      (htells₁.trans htells₂.framed).ofStmt⟩

theorem armsAt_tells {select : StmtId} {scope : ScopeId} : ∀ {as : List Source.Arm}
    {m m' : Mark} {first : Option StmtId}, p.ArmsAt select scope as m m' first →
      ∃ evs, p.ArmsScoped as first evs ∧ p.Tells [] m m' evs
  | [], m, _, _, ⟨rfl, hfirst⟩ => ⟨_, ⟨hfirst, rfl⟩, .refl p m⟩
  | _ :: _, m, _, _, ⟨_, _, ha, has, hfirst⟩ => by
    obtain ⟨kind, es, hat, hscoped, htells₁⟩ := armAt_tells ha
    obtain ⟨fs, hrest, htells₂⟩ := armsAt_tells has
    exact ⟨_, ⟨m.stmtId, _, es, fs, hfirst, hat, hscoped, hrest, rfl⟩, htells₁.trans htells₂⟩

end

/-! ### Functions and modules -/

/-- Parameters that get their frame, which are variables that there have been before. -/
theorem tells_params (p : Program) (m : Mark) {names : List String} {xs : List VarId}
    (hlength : xs.length = names.length) :
    p.Tells xs (m.enter []) (m.enter (names.zip xs).reverse) (declarations names xs) := by
  have hreplays : Replays ([] :: m.frames) (declarations names xs)
      (((names.zip xs).reverse ++ []) :: m.frames) := replays_declarations hlength
  refine ⟨Nat.le_refl _, Nat.le_refl _, fun frame frames hm => ?_, ?_, fun e _ he he' => ?_⟩
  · cases hm
    rw [List.append_nil] at hreplays
    exact ⟨_, rfl, hreplays⟩
  · rw [show (m.enter (names.zip xs).reverse).vars = (m.enter []).vars from rfl,
      VarId.between_self, List.append_nil]
    clear hreplays
    induction names generalizing xs with
    | nil =>
      obtain rfl := List.eq_nil_of_length_eq_zero hlength
      exact .nil
    | cons name names ih =>
      cases xs with
      | nil => cases hlength
      | cons x xs => exact (ih (Nat.succ.inj hlength)).cons x
  · exact absurd he (Nat.not_le.2 he')

/-- **A body** tells the events of its sequence, in a frame. -/
theorem BodyAt.tells {scope : ScopeId} {visible : List String} {ss : List Source.Stmt}
    {first : Option StmtId} (h : p.BodyAt scope visible ss m m' first) :
    ∃ evs, p.SeqScoped ss first evs ∧ p.Tells [] m m' (inFrame evs) := by
  obtain ⟨_, hat, rfl⟩ := h.placed
  obtain ⟨evs, hseq, htells⟩ := seqAt_tells hat
  exact ⟨evs, hseq, htells.framed⟩

mutual

/-- **A function** tells its events, which declare its parameters besides what is added. -/
theorem functionAt_tells : ∀ {f : Source.Function} {outer : ScopeId} {visible : List String}
    {id : FnId} {m m' : Mark}, p.FunctionAt outer visible f id m m' →
      ∃ evs, p.FunctionScoped outer f id evs ∧ p.Tells (p.paramsOf id) m m' evs
  | .mk name params inner body, outer, visible, id, m, _,
      ⟨xs, first, scope, ids, n, m₁, m₂, hf, hlength, hscope, hbody, hinner, rfl⟩ => by
    obtain ⟨es, hseq, htells₁⟩ := hbody.tells
    obtain ⟨fs, hfunctions, htells₂⟩ := functionsAt_tells hinner
    have hinside := htells₁.trans htells₂
    rw [List.nil_append, hscope.params] at hinside
    have hbodies := Tells.absorb (m := m.enter (params.zip xs).reverse) hinside hscope.le
    have hframe := ((tells_params p m hlength).trans hbodies).framed
    rw [List.append_nil] at hframe
    have hown : p.paramsOf id = xs := by
      rw [paramsOf, hf]
      rfl
    rw [hown]
    exact ⟨_, ⟨xs, first, scope, ids, es, fs, hf, hlength, hscope.found, hseq, hfunctions, rfl⟩,
      hframe⟩

theorem functionsAt_tells : ∀ {fs : List Source.Function} {scope : ScopeId}
    {visible : List String} {ids : List FnId} {m m' : Mark},
      p.FunctionsAt scope visible fs ids m m' →
        ∃ evs, p.FunctionsScoped scope fs ids evs ∧ p.Tells (ids.flatMap p.paramsOf) m m' evs
  | [], _, _, _, m, _, ⟨rfl, rfl⟩ => ⟨_, ⟨rfl, rfl⟩, .refl p _⟩
  | _ :: _, _, _, _, _, _, ⟨id, rest, _, rfl, hf, hfs⟩ => by
    obtain ⟨es, hfunction, htells₁⟩ := functionAt_tells hf
    obtain ⟨gs, hfunctions, htells₂⟩ := functionsAt_tells hfs
    exact ⟨_, ⟨id, rest, es, gs, rfl, hfunction, hfunctions, rfl⟩, htells₁.trans htells₂⟩

end

/-- **A module** tells its events. -/
theorem ModuleAt.tells {visible : List String} {d : Source.Module} {d' : Module}
    (h : p.ModuleAt visible d d' m m') : ∃ evs, p.ModuleScoped d d' evs ∧ p.Tells [] m m' evs ∧
      Replays m.frames evs m'.frames := by
  obtain ⟨ids, n, m₁, m₂, hname, hscope, hbody, hfunctions, rfl⟩ := h
  obtain ⟨es, hseq, htells₁⟩ := hbody.tells
  obtain ⟨fs, hscoped, htells₂⟩ := functionsAt_tells hfunctions
  have hinside := htells₁.trans htells₂
  rw [List.nil_append, hscope.params] at hinside
  have hbodies := Tells.absorb (m := m.enter []) hinside hscope.le
  exact ⟨_, ⟨ids, es, fs, hname, hscope.found, hseq, hscoped, rfl⟩, hbodies.framed,
    hbodies.replays_inFrame⟩

theorem modulesAt_tells {visible : List String} {ds : List Source.Module} {ds' : List Module}
    (h : p.ModulesAt visible ds ds' m m') : ∃ evs, p.ModulesScoped ds ds' evs ∧
      p.Tells [] m m' evs ∧ Replays m.frames evs m'.frames := by
  induction ds generalizing ds' m with
  | nil =>
    obtain ⟨rfl, rfl⟩ := h
    exact ⟨_, ⟨rfl, rfl⟩, .refl p _, .nil⟩
  | cons d ds ih =>
    obtain ⟨d', rest, _, rfl, hd, hds⟩ := h
    obtain ⟨es, hmodule, htells₁, hreplays₁⟩ := hd.tells
    obtain ⟨fs, hmodules, htells₂, hreplays₂⟩ := ih hds
    exact ⟨_, ⟨d', rest, es, fs, rfl, hmodule, hmodules, rfl⟩, htells₁.trans htells₂,
      hreplays₁.append hreplays₂⟩

/-! ### Programs -/

/-- The events of the definition of a program bind its references: each of its variables is declared
once, each of its references is bound by the rule of bindings, and references outside a sequence
denote the same whatever the sequence is. -/
structure BindsLexically (p : Program) (d : Source.Program) (evs : List ScopeEvent) : Prop where
  events : p.ModulesScoped d.modules p.modules.toList evs
  declares : (evs.filterMap declared?).Perm (VarId.between 0 p.vars.size)
  refers : ∀ e x, p.Refers e x → ∃ name, .refer name x e ∈ evs
  binds : ∀ t name x e, evs[t]? = some (.refer name x e) → ∃ i, Binds (evs.take t) name i x
  apart : ∀ (d' : Source.Program) (p' : Program) (evs' : List ScopeEvent)
    (before after : List Mention) (ss ss' : List Source.Stmt) (t i : Nat),
    p'.ModulesScoped d'.modules p'.modules.toList evs' →
    d.mentions = before ++ (Mention.inFrame (Source.stmtsMentions ss) ++ after) →
    d'.mentions = before ++ (Mention.inFrame (Source.stmtsMentions ss') ++ after) →
    Denotes evs (past before (Mention.inFrame (Source.stmtsMentions ss)) t) i →
      ∃ j, i = past before (Mention.inFrame (Source.stmtsMentions ss)) j ∧
        Denotes evs' (past before (Mention.inFrame (Source.stmtsMentions ss')) t)
          (past before (Mention.inFrame (Source.stmtsMentions ss')) j)

/-- **Variable references bind lexically.** The events of the definition of a linked program declare
every variable once. Each reference is among them, to the variable of the declaration of its name
that is innermost and, within its frame, the latest, among those before it in a frame that is still
open. What is declared in a sequence makes no difference to a reference outside it: the reference
denotes a declaration outside, and does so with any other sequence in place of that one. -/
theorem binds_lexically {d : Source.Program} {p : Program} (h : link d = .ok p) :
    ∃ evs, p.BindsLexically d evs := by
  obtain ⟨-, hplaced⟩ := placed_of_link h
  obtain ⟨evs, hscoped, htells, hreplays⟩ := modulesAt_tells hplaced
  refine ⟨evs, hscoped, htells.declares, fun e x hx => ?_, fun t name x e ht => hreplays.denotes ht,
    fun d' p' evs' before after ss ss' t i hscoped' hd hd' ht => ?_⟩
  · have hlt : e.index < p.exprs.size := by
      rcases hx with hx | ⟨v, hx⟩ <;> exact expr?_isSome.1 ⟨_, hx⟩
    exact htells.refers e x (Nat.zero_le _) hlt hx
  · exact Denotes.swap ((modulesScoped_mentions hscoped).trans hd)
      ((modulesScoped_mentions hscoped').trans hd') (fun _ => Source.balanced_stmts ss)
      (fun _ => Source.balanced_stmts ss') ht

/-- A definition in which `x` is declared in many places: twice as a parameter, in a block, as the
value of an assignment to it, as the variable of a loop over itself, and as the parameter of a
closure. The condition of a branch declares a variable as well. -/
def shadowing : Source.Program :=
  ⟨[⟨"m", [.mk "f" ["x", "x"]
    [.mk "g" ["y"] [] [.return (some (.call (.var "x") [.var "y"]))]]
    [.branch (.declare "k") [.expr (.declare "x"), .expr (.var "x")] [],
      .expr (.assign "x" (.declare "x")),
      .forall ["x"] [.var "x"] [.expr (.closure ["x"] [.expr (.var "x")])],
      .expr (.var "k")]],
    [.expr (.declare "x")]⟩], none⟩

/-- The variables that expressions refer to, in the order of the table. -/
def referred (p : Program) : List VarId :=
  p.exprs.toList.filterMap fun
    | .var x | .assign x _ => some x
    | _ => none

theorem binds_lexically_shadowing : ∃ p evs, link shadowing = .ok p ∧
    p.BindsLexically shadowing evs ∧
      p.referred = [⟨5⟩, ⟨1⟩, ⟨6⟩, ⟨8⟩, ⟨4⟩, ⟨1⟩, ⟨3⟩] := by
  have htests : tests shadowing (fun p _ =>
      decide (p.referred = [⟨5⟩, ⟨1⟩, ⟨6⟩, ⟨8⟩, ⟨4⟩, ⟨1⟩, ⟨3⟩])) = true := by decide +kernel
  obtain ⟨p, _, hlink, -, htest⟩ := exists_of_tests htests
  obtain ⟨evs, hevs⟩ := binds_lexically hlink
  exact ⟨p, evs, hlink, hevs, of_decide_eq_true htest⟩

end Program

end TreeMachine
