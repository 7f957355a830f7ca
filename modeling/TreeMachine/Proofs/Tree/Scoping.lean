import TreeMachine.Proofs.Tree.Bindings
import TreeMachine.Proofs.Tree.Sequences

/-!
# The scoping of a definition

A definition mentions names in frames of variables (`Source.Program.mentions`). It is followed
through the tables of its program, and what it declares and refers to is listed on the way with the
ids of the tables (`Program.ModulesScoped`). Without the ids that is what the definition mentions.

What is mentioned is computed from the definition: which names are declared and referred to, in
which order, and where frames are entered and left. The ids are found beside it, by following the
definition into the tables. Since every reference comes with the expression that makes it, the list
of events says which node of the tables has which variable, and nothing is lost if it is looked at
by itself.

A frame is entered for each sequence of statements, for the parameters of a function or a closure,
and for the indices of a loop over collections, around the frame of its body. The frame of the
parameters of a function stays open for the functions inside it, which therefore see these
parameters, while the frame of its body is closed before them. Every frame that is entered is left
again, whatever the definition is (`Source.balanced_stmts`).
-/

namespace TreeMachine

/-! ### What a definition mentions -/

namespace Source

mutual

/-- What an expression mentions. The target of an assignment comes before the value. -/
def Expr.mentions : Expr → List Mention
  | .scalar _ | .name _ | .function _ => []
  | .var name => [.refer name]
  | .declare name => [.declare name]
  | .assign name value => .refer name :: value.mentions
  | .call callee args => callee.mentions ++ exprsMentions args
  | .choose cond thenExpr elseExpr =>
    cond.mentions ++ (thenExpr.mentions ++ elseExpr.mentions)
  | .closure params body =>
    Mention.inFrame (params.map .declare ++ Mention.inFrame (stmtsMentions body))

/-- What expressions mention. -/
def exprsMentions : List Expr → List Mention
  | [] => []
  | e :: es => e.mentions ++ exprsMentions es

/-- What a statement mentions. The frame of the variables of a loop over collections is entered
after the iterators, around the body. -/
def Stmt.mentions : Stmt → List Mention
  | .expr e => e.mentions
  | .block body => Mention.inFrame (stmtsMentions body)
  | .loop cond body _ => cond.mentions ++ Mention.inFrame (stmtsMentions body)
  | .forall indices iterators body =>
    exprsMentions iterators ++
      Mention.inFrame (indices.map .declare ++ Mention.inFrame (stmtsMentions body))
  | .branch cond thenBody elseBody =>
    cond.mentions ++
      (Mention.inFrame (stmtsMentions thenBody) ++ Mention.inFrame (stmtsMentions elseBody))
  | .select selector arms => selector.mentions ++ armsMentions arms
  | .return none | .label _ | .goto _ => []
  | .return (some value) => value.mentions

/-- What the statements of a sequence mention, without the frame around them. -/
def stmtsMentions : List Stmt → List Mention
  | [] => []
  | s :: ss => s.mentions ++ stmtsMentions ss

/-- What an arm mentions. The cases are outside the frame of the body. -/
def Arm.mentions : Arm → List Mention
  | .mk cases body => exprsMentions cases ++ Mention.inFrame (stmtsMentions body)

/-- What arms mention. -/
def armsMentions : List Arm → List Mention
  | [] => []
  | a :: as => a.mentions ++ armsMentions as

end

mutual

/-- What a function mentions. The frame of its parameters stays open for the functions inside it,
while that of its body does not. -/
def Function.mentions : Function → List Mention
  | .mk _ params inner body =>
    Mention.inFrame (params.map .declare ++
      (Mention.inFrame (stmtsMentions body) ++ functionsMentions inner))

/-- What functions mention. -/
def functionsMentions : List Function → List Mention
  | [] => []
  | f :: fs => f.mentions ++ functionsMentions fs

end

/-- What a module mentions. The frame of its body is closed before its functions. -/
def Module.mentions (m : Module) : List Mention :=
  Mention.inFrame (Mention.inFrame (stmtsMentions m.body) ++ functionsMentions m.functions)

/-- What a program mentions. -/
def Program.mentions (d : Program) : List Mention :=
  d.modules.flatMap Module.mentions

end Source

namespace Program

open ScopeEvent (Balanced mention inFrame declarations mention_inFrame mention_declarations)

/-! ### The events of a definition -/

mutual

/-- The events of an expression of the tables that is one of a definition. The target of an
assignment comes before the value. -/
def ExprScoped (p : Program) : Source.Expr → ExprId → List ScopeEvent → Prop
  | .scalar s, e, evs => p.expr? e = some (.literal s) ∧ evs = []
  | .var name, e, evs => ∃ x, p.expr? e = some (.var x) ∧ evs = [.refer name x e]
  | .declare name, e, evs => ∃ x, p.expr? e = some (.declare x) ∧ evs = [.declare name x]
  | .assign name value, e, evs =>
    ∃ x v es, p.expr? e = some (.assign x v) ∧ p.ExprScoped value v es ∧
      evs = .refer name x e :: es
  | .name name, e, evs => p.expr? e = some (.name name) ∧ evs = []
  | .function _, e, evs => ∃ f, p.expr? e = some (.function f) ∧ evs = []
  | .call callee args, e, evs =>
    ∃ c as es fs, p.expr? e = some (.call c as) ∧ p.ExprScoped callee c es ∧
      p.ExprsScoped args as fs ∧ evs = es ++ fs
  | .choose cond thenExpr elseExpr, e, evs =>
    ∃ c t f es fs gs, p.expr? e = some (.choose c t f) ∧ p.ExprScoped cond c es ∧
      p.ExprScoped thenExpr t fs ∧ p.ExprScoped elseExpr f gs ∧ evs = es ++ (fs ++ gs)
  | .closure params body, e, evs =>
    ∃ xs first es, p.expr? e = some (.closure xs first) ∧ xs.length = params.length ∧
      p.SeqScoped body first es ∧ evs = inFrame (declarations params xs ++ inFrame es)

/-- The events of expressions. -/
def ExprsScoped (p : Program) : List Source.Expr → List ExprId → List ScopeEvent → Prop
  | [], ids, evs => ids = [] ∧ evs = []
  | e :: es, ids, evs =>
    ∃ i is fs gs, ids = i :: is ∧ p.ExprScoped e i fs ∧ p.ExprsScoped es is gs ∧ evs = fs ++ gs

/-- The events of a statement of the given kind. The frame of the variables of a loop over
collections is entered after the iterators, around the body. -/
def StmtScoped (p : Program) : Source.Stmt → StmtKind → List ScopeEvent → Prop
  | .expr e, kind, evs => ∃ x, kind = .expr x ∧ p.ExprScoped e x evs
  | .block body, kind, evs =>
    ∃ first es, kind = .block first ∧ p.SeqScoped body first es ∧ evs = inFrame es
  | .loop cond body testLast, kind, evs =>
    ∃ c first es fs, kind = .loop c first !testLast ∧ p.ExprScoped cond c es ∧
      p.SeqScoped body first fs ∧ evs = es ++ inFrame fs
  | .forall indices iterators body, kind, evs =>
    ∃ xs is first es fs, kind = .forall xs is first ∧ xs.length = indices.length ∧
      p.ExprsScoped iterators is es ∧ p.SeqScoped body first fs ∧
        evs = es ++ inFrame (declarations indices xs ++ inFrame fs)
  | .branch cond thenBody elseBody, kind, evs =>
    ∃ c thenFirst elseFirst es fs gs, kind = .branch c thenFirst elseFirst ∧
      p.ExprScoped cond c es ∧ p.SeqScoped thenBody thenFirst fs ∧
        p.SeqScoped elseBody elseFirst gs ∧ evs = es ++ (inFrame fs ++ inFrame gs)
  | .select selector arms, kind, evs =>
    ∃ c first es fs, kind = .select c first ∧ p.ExprScoped selector c es ∧
      p.ArmsScoped arms first fs ∧ evs = es ++ fs
  | .return none, kind, evs => kind = .return none ∧ evs = []
  | .return (some value), kind, evs => ∃ v, kind = .return (some v) ∧ p.ExprScoped value v evs
  | .label name, kind, evs => kind = .label name ∧ evs = []
  | .goto _, kind, evs => ∃ target, kind = .goto target ∧ evs = []

/-- The events of the statements from a first one on, without those of the frame around them. -/
def SeqScoped (p : Program) : List Source.Stmt → Option StmtId → List ScopeEvent → Prop
  | [], first, evs => first = none ∧ evs = []
  | s :: ss, first, evs =>
    ∃ i t es fs, first = some i ∧ p.stmt? i = some t ∧ p.StmtScoped s t.kind es ∧
      p.SeqScoped ss t.next fs ∧ evs = es ++ fs

/-- The events of an arm of the given kind. The cases are outside the frame of the body. -/
def ArmScoped (p : Program) : Source.Arm → StmtKind → List ScopeEvent → Prop
  | .mk cases body, kind, evs =>
    ∃ cs first es fs, kind = .arm cs first ∧ p.ExprsScoped cases cs es ∧
      p.SeqScoped body first fs ∧ evs = es ++ inFrame fs

/-- The events of the arms from a first one on. -/
def ArmsScoped (p : Program) : List Source.Arm → Option StmtId → List ScopeEvent → Prop
  | [], first, evs => first = none ∧ evs = []
  | a :: as, first, evs =>
    ∃ i t es fs, first = some i ∧ p.stmt? i = some t ∧ p.ArmScoped a t.kind es ∧
      p.ArmsScoped as t.next fs ∧ evs = es ++ fs

end

mutual

/-- The events of a function. The frame of its parameters stays open for the functions inside it,
while that of its body does not. -/
def FunctionScoped (p : Program) (outer : ScopeId) :
    Source.Function → FnId → List ScopeEvent → Prop
  | .mk name params inner body, id, evs =>
    ∃ xs first scope ids es fs, p.function? id = some ⟨name, xs, .code first, outer⟩ ∧
      xs.length = params.length ∧ p.scope? scope = some ⟨some outer, ids⟩ ∧
        p.SeqScoped body first es ∧ p.FunctionsScoped scope inner ids fs ∧
          evs = inFrame (declarations params xs ++ (inFrame es ++ fs))

/-- The events of functions. -/
def FunctionsScoped (p : Program) (scope : ScopeId) :
    List Source.Function → List FnId → List ScopeEvent → Prop
  | [], ids, evs => ids = [] ∧ evs = []
  | f :: fs, ids, evs =>
    ∃ id rest es gs, ids = id :: rest ∧ p.FunctionScoped scope f id es ∧
      p.FunctionsScoped scope fs rest gs ∧ evs = es ++ gs

end

/-- The events of a module. The frame of its body is closed before its functions. -/
def ModuleScoped (p : Program) (m : Source.Module) (m' : Module) (evs : List ScopeEvent) : Prop :=
  ∃ ids es fs, m'.name = m.name ∧ p.scope? m'.scope = some ⟨some rootScope, ids⟩ ∧
    p.SeqScoped m.body m'.body es ∧ p.FunctionsScoped m'.scope m.functions ids fs ∧
      evs = inFrame (inFrame es ++ fs)

/-- The events of modules. -/
def ModulesScoped (p : Program) : List Source.Module → List Module → List ScopeEvent → Prop
  | [], ms', evs => ms' = [] ∧ evs = []
  | m :: ms, ms', evs =>
    ∃ m' rest es fs, ms' = m' :: rest ∧ p.ModuleScoped m m' es ∧ p.ModulesScoped ms rest fs ∧
      evs = es ++ fs

/-- An expression refers to a variable: it reads it, or assigns to it. -/
def Refers (p : Program) (e : ExprId) (x : VarId) : Prop :=
  p.expr? e = some (.var x) ∨ ∃ v, p.expr? e = some (.assign x v)

/-! ### Events without ids -/

variable {p : Program}

mutual

/-- **The events of an expression** are what it mentions. -/
theorem exprScoped_mentions : ∀ {e : Source.Expr} {i : ExprId} {evs : List ScopeEvent},
    p.ExprScoped e i evs → evs.map mention = e.mentions
  | .scalar _, _, _, ⟨_, h⟩ | .name _, _, _, ⟨_, h⟩ | .function _, _, _, ⟨_, _, h⟩ => by
    rw [h]
    rfl
  | .var _, _, _, ⟨_, _, h⟩ | .declare _, _, _, ⟨_, _, h⟩ => by
    rw [h]
    rfl
  | .assign .., _, _, ⟨_, _, _, _, hv, rfl⟩ => by
    rw [List.map_cons, exprScoped_mentions hv]
    rfl
  | .call .., _, _, ⟨_, _, _, _, _, hc, has, rfl⟩ => by
    rw [List.map_append, exprScoped_mentions hc, exprsScoped_mentions has]
    rfl
  | .choose .., _, _, ⟨_, _, _, _, _, _, _, hc, ht, hf, rfl⟩ => by
    rw [List.map_append, List.map_append, exprScoped_mentions hc, exprScoped_mentions ht,
      exprScoped_mentions hf]
    rfl
  | .closure .., _, _, ⟨_, _, _, _, hlength, hbody, rfl⟩ => by
    rw [mention_inFrame, List.map_append, mention_declarations hlength, mention_inFrame,
      seqScoped_mentions hbody]
    rfl

theorem exprsScoped_mentions : ∀ {es : List Source.Expr} {ids : List ExprId}
    {evs : List ScopeEvent}, p.ExprsScoped es ids evs → evs.map mention = Source.exprsMentions es
  | [], _, _, ⟨_, h⟩ => by
    rw [h]
    rfl
  | _ :: _, _, _, ⟨_, _, _, _, _, he, hes, rfl⟩ => by
    rw [List.map_append, exprScoped_mentions he, exprsScoped_mentions hes]
    rfl

theorem stmtScoped_mentions : ∀ {s : Source.Stmt} {kind : StmtKind} {evs : List ScopeEvent},
    p.StmtScoped s kind evs → evs.map mention = s.mentions
  | .expr _, _, _, ⟨_, _, he⟩ => exprScoped_mentions he
  | .block _, _, _, ⟨_, _, _, hbody, rfl⟩ => by
    rw [mention_inFrame, seqScoped_mentions hbody]
    rfl
  | .loop .., _, _, ⟨_, _, _, _, _, hc, hbody, rfl⟩ => by
    rw [List.map_append, exprScoped_mentions hc, mention_inFrame, seqScoped_mentions hbody]
    rfl
  | .forall .., _, _, ⟨_, _, _, _, _, _, hlength, his, hbody, rfl⟩ => by
    rw [List.map_append, exprsScoped_mentions his, mention_inFrame, List.map_append,
      mention_declarations hlength, mention_inFrame, seqScoped_mentions hbody]
    rfl
  | .branch .., _, _, ⟨_, _, _, _, _, _, _, hc, ht, hf, rfl⟩ => by
    rw [List.map_append, List.map_append, exprScoped_mentions hc, mention_inFrame,
      seqScoped_mentions ht, mention_inFrame, seqScoped_mentions hf]
    rfl
  | .select .., _, _, ⟨_, _, _, _, _, hc, harms, rfl⟩ => by
    rw [List.map_append, exprScoped_mentions hc, armsScoped_mentions harms]
    rfl
  | .return none, _, _, ⟨_, h⟩ | .label _, _, _, ⟨_, h⟩ | .goto _, _, _, ⟨_, _, h⟩ => by
    rw [h]
    rfl
  | .return (some _), _, _, ⟨_, _, hv⟩ => exprScoped_mentions hv

theorem seqScoped_mentions : ∀ {ss : List Source.Stmt} {first : Option StmtId}
    {evs : List ScopeEvent}, p.SeqScoped ss first evs → evs.map mention = Source.stmtsMentions ss
  | [], _, _, ⟨_, h⟩ => by
    rw [h]
    rfl
  | _ :: _, _, _, ⟨_, _, _, _, _, _, hs, hss, rfl⟩ => by
    rw [List.map_append, stmtScoped_mentions hs, seqScoped_mentions hss]
    rfl

theorem armScoped_mentions : ∀ {a : Source.Arm} {kind : StmtKind} {evs : List ScopeEvent},
    p.ArmScoped a kind evs → evs.map mention = a.mentions
  | .mk .., _, _, ⟨_, _, _, _, _, hcs, hbody, rfl⟩ => by
    rw [List.map_append, exprsScoped_mentions hcs, mention_inFrame, seqScoped_mentions hbody]
    rfl

theorem armsScoped_mentions : ∀ {as : List Source.Arm} {first : Option StmtId}
    {evs : List ScopeEvent}, p.ArmsScoped as first evs → evs.map mention = Source.armsMentions as
  | [], _, _, ⟨_, h⟩ => by
    rw [h]
    rfl
  | _ :: _, _, _, ⟨_, _, _, _, _, _, ha, has, rfl⟩ => by
    rw [List.map_append, armScoped_mentions ha, armsScoped_mentions has]
    rfl

end

mutual

theorem functionScoped_mentions : ∀ {f : Source.Function} {outer : ScopeId} {id : FnId}
    {evs : List ScopeEvent}, p.FunctionScoped outer f id evs → evs.map mention = f.mentions
  | .mk .., _, _, _, ⟨_, _, _, _, _, _, _, hlength, _, hbody, hinner, rfl⟩ => by
    rw [mention_inFrame, List.map_append, mention_declarations hlength, List.map_append,
      mention_inFrame, seqScoped_mentions hbody, functionsScoped_mentions hinner]
    rfl

theorem functionsScoped_mentions : ∀ {fs : List Source.Function} {scope : ScopeId}
    {ids : List FnId} {evs : List ScopeEvent}, p.FunctionsScoped scope fs ids evs →
      evs.map mention = Source.functionsMentions fs
  | [], _, _, _, ⟨_, h⟩ => by
    rw [h]
    rfl
  | _ :: _, _, _, _, ⟨_, _, _, _, _, hf, hfs, rfl⟩ => by
    rw [List.map_append, functionScoped_mentions hf, functionsScoped_mentions hfs]
    rfl

end

/-- **The events of modules** are what they mention. -/
theorem modulesScoped_mentions {ms : List Source.Module} {ms' : List Module}
    {evs : List ScopeEvent} (h : p.ModulesScoped ms ms' evs) :
    evs.map mention = ms.flatMap Source.Module.mentions := by
  induction ms generalizing ms' evs with
  | nil =>
    obtain ⟨-, rfl⟩ := h
    rfl
  | cons m ms ih =>
    obtain ⟨m', rest, es, fs, -, ⟨_, es', fs', -, -, hbody, hfunctions, rfl⟩, hms, rfl⟩ := h
    rw [List.map_append, ih hms, mention_inFrame, List.map_append, mention_inFrame,
      seqScoped_mentions hbody, functionsScoped_mentions hfunctions, List.flatMap_cons]
    rfl

end Program

/-! ### Sequences leave what they enter -/

namespace Source

open ScopeEvent (Balanced mention exists_of_inFrame)

variable {evs : List ScopeEvent}

theorem balanced_nil (h : evs.map ScopeEvent.mention = []) : Balanced evs := by
  rw [List.map_eq_nil_iff.1 h]
  rfl

theorem balanced_declares {names : List String} (h : evs.map mention = names.map .declare) :
    Balanced evs := by
  induction names generalizing evs with
  | nil => exact balanced_nil h
  | cons name names ih =>
    obtain ⟨e, es, rfl, he, hes⟩ := List.map_eq_cons_iff.1 h
    cases e <;> cases he
    exact (ih hes :)

mutual

/-- **An expression** leaves the frames that it enters, whatever the ids in its events. -/
theorem Expr.balanced : ∀ (e : Expr) {evs : List ScopeEvent}, evs.map mention = e.mentions →
    Balanced evs
  | .scalar _, _, h | .name _, _, h | .function _, _, h => balanced_nil h
  | .var _, _, h => by
    obtain ⟨e, es, rfl, he, hes⟩ := List.map_eq_cons_iff.1 h
    cases e <;> cases he
    exact (balanced_nil hes :)
  | .declare name, evs, h => by
    have hdeclares : evs.map mention = [name].map .declare := h
    exact balanced_declares hdeclares
  | .assign _ value, _, h => by
    obtain ⟨e, es, rfl, he, hes⟩ := List.map_eq_cons_iff.1 h
    cases e <;> cases he
    exact (value.balanced hes :)
  | .call callee args, _, h => by
    obtain ⟨es, fs, rfl, hes, hfs⟩ := List.map_eq_append_iff.1 h
    exact (callee.balanced hes).append (balanced_exprs args hfs)
  | .choose cond thenExpr elseExpr, _, h => by
    obtain ⟨es, rest, rfl, hes, hrest⟩ := List.map_eq_append_iff.1 h
    obtain ⟨fs, gs, rfl, hfs, hgs⟩ := List.map_eq_append_iff.1 hrest
    exact (cond.balanced hes).append ((thenExpr.balanced hfs).append (elseExpr.balanced hgs))
  | .closure params body, _, h => by
    obtain ⟨es, rfl, hes⟩ := exists_of_inFrame h
    obtain ⟨xs, fs, rfl, hxs, hfs⟩ := List.map_eq_append_iff.1 hes
    obtain ⟨gs, rfl, hgs⟩ := exists_of_inFrame hfs
    exact ((balanced_declares hxs).append (balanced_stmts body hgs).framed).framed

theorem balanced_exprs : ∀ (es : List Expr) {evs : List ScopeEvent},
    evs.map mention = exprsMentions es → Balanced evs
  | [], _, h => balanced_nil h
  | e :: es, _, h => by
    obtain ⟨fs, gs, rfl, hfs, hgs⟩ := List.map_eq_append_iff.1 h
    exact (e.balanced hfs).append (balanced_exprs es hgs)

theorem Stmt.balanced : ∀ (s : Stmt) {evs : List ScopeEvent}, evs.map mention = s.mentions →
    Balanced evs
  | .expr e, _, h => e.balanced h
  | .block body, _, h => by
    obtain ⟨es, rfl, hes⟩ := exists_of_inFrame h
    exact (balanced_stmts body hes).framed
  | .loop cond body _, _, h => by
    obtain ⟨es, rest, rfl, hes, hrest⟩ := List.map_eq_append_iff.1 h
    obtain ⟨fs, rfl, hfs⟩ := exists_of_inFrame hrest
    exact (cond.balanced hes).append (balanced_stmts body hfs).framed
  | .forall _ iterators body, _, h => by
    obtain ⟨es, rest, rfl, hes, hrest⟩ := List.map_eq_append_iff.1 h
    obtain ⟨fs, rfl, hfs⟩ := exists_of_inFrame hrest
    obtain ⟨xs, gs, rfl, hxs, hgs⟩ := List.map_eq_append_iff.1 hfs
    obtain ⟨inner, rfl, hinner⟩ := exists_of_inFrame hgs
    have hframe := (balanced_declares hxs).append (balanced_stmts body hinner).framed
    exact (balanced_exprs iterators hes).append hframe.framed
  | .branch cond thenBody elseBody, _, h => by
    obtain ⟨es, rest, rfl, hes, hrest⟩ := List.map_eq_append_iff.1 h
    obtain ⟨fs, gs, rfl, hfs, hgs⟩ := List.map_eq_append_iff.1 hrest
    obtain ⟨fs', rfl, hthen⟩ := exists_of_inFrame hfs
    obtain ⟨gs', rfl, helse⟩ := exists_of_inFrame hgs
    have hbodies := (balanced_stmts thenBody hthen).framed.append
      (balanced_stmts elseBody helse).framed
    exact (cond.balanced hes).append hbodies
  | .select selector arms, _, h => by
    obtain ⟨es, fs, rfl, hes, hfs⟩ := List.map_eq_append_iff.1 h
    exact (selector.balanced hes).append (balanced_arms arms hfs)
  | .return none, _, h | .label _, _, h | .goto _, _, h => balanced_nil h
  | .return (some value), _, h => value.balanced h

/-- **A sequence** leaves the frames that it enters. -/
theorem balanced_stmts : ∀ (ss : List Stmt) {evs : List ScopeEvent},
    evs.map mention = stmtsMentions ss → Balanced evs
  | [], _, h => balanced_nil h
  | s :: ss, _, h => by
    obtain ⟨fs, gs, rfl, hfs, hgs⟩ := List.map_eq_append_iff.1 h
    exact (s.balanced hfs).append (balanced_stmts ss hgs)

theorem Arm.balanced : ∀ (a : Arm) {evs : List ScopeEvent}, evs.map mention = a.mentions →
    Balanced evs
  | .mk cases body, _, h => by
    obtain ⟨es, rest, rfl, hes, hrest⟩ := List.map_eq_append_iff.1 h
    obtain ⟨fs, rfl, hfs⟩ := exists_of_inFrame hrest
    exact (balanced_exprs cases hes).append (balanced_stmts body hfs).framed

theorem balanced_arms : ∀ (as : List Arm) {evs : List ScopeEvent},
    evs.map mention = armsMentions as → Balanced evs
  | [], _, h => balanced_nil h
  | a :: as, _, h => by
    obtain ⟨fs, gs, rfl, hfs, hgs⟩ := List.map_eq_append_iff.1 h
    exact (a.balanced hfs).append (balanced_arms as hgs)

end

end Source

end TreeMachine
