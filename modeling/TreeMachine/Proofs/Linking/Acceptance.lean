import TreeMachine.Proofs.Linking.Checks
import TreeMachine.Proofs.Linking.Programs

/-!
# Linking accepts the valid definitions

Linking a definition checks what it relies on, from its expressions (`Link.checks_expr`) over its
functions (`Link.checks_function`) to its modules (`Link.checks_mapM_module`), and the entry
function comes last (`Link.ends_entry`). The main result is `Program.link_accepts_valid`: exactly
the valid definitions are linked, and of the others the first thing that is wrong is reported.

What a definition relies on is a list, computed from the definition alone: each place where
something is required, in the order in which it is written, with the names that are visible there
(`Source.Expr.uses` and its companions). It knows nothing of tables, ids or the state of the linker.
The first entry of the list that is not met is the error, so that not only the success of linking
but also its complaint, with the name and the number of candidates in it, is a function of the
definition.

The proof is an induction on the definition, in which the state of the linker is related to the
place that it has come to (`Linker.Stands`): the frames have the names of the variables in scope,
the labels are those noted down so far, and the next statement has the number that the definition
gives it. Forward jumps are checked when a body is complete (`Link.checks_bodyOf`), and so they come
behind all else that is wrong with the body.

That a linked program means what its definition says is left to the modules on trees and bindings;
here only success and failure are compared, and the entry function is identified
(`Program.EntersAt`).
-/

namespace TreeMachine

open Source (Landmark Use labelNames gotoUses)

/-! ### Sequences and declared names -/

namespace Linker

variable {l l' : Linker} {scope : ScopeId} {parent : Option StmtId} {base n : Nat}
  {around : List Nat} {functions vars labels : List String}

/-- Variables that are declared in order are visible afterwards. -/
theorem Sees.declareAll (h : l.Sees scope functions vars) {names : List String} {ids : List VarId}
    (hx : (names.mapM Link.declare).Gives l ids l') : l'.Sees scope functions (names ++ vars) := by
  have hsees := h.effect (Link.effect_mapM_declare 0 hx)
  refine ⟨hsees.functions, hsees.frames, fun name => ?_⟩
  rw [hsees.vars, List.mem_append, List.mem_append, List.mem_reverse]

theorem Stands.declareAll (h : l.Stands scope parent base n around functions vars labels)
    {names : List String} {ids : List VarId} (hx : (names.mapM Link.declare).Gives l ids l') :
    l'.Stands scope parent base n around functions (names ++ vars) labels where
  toSees := h.toSees.declareAll hx
  labels := (h.effect (Link.effect_mapM_declare base hx)).labels
  number := (h.effect (Link.effect_mapM_declare base hx)).number
  around := (h.effect (Link.effect_mapM_declare base hx)).around

/-- A sequence forgets what it declares. -/
theorem Stands.sequence (h : l.Stands scope parent base n around functions vars labels)
    {ss : List Source.Stmt} {first : Option StmtId}
    (hx : (Link.withFrame [] (Link.stmts scope parent ss)).Gives l first l') :
    Link.Effect base l (Source.stmtsSize ss) [] (Source.stmtsLandmarks n around ss)
      (Source.stmtsGotos l.program.stmts.size ss) l' := by
  obtain ⟨l₁, hseq, rfl⟩ := Link.gives_withFrame.1 hx
  obtain ⟨_, heffect⟩ := Link.stmts_effect scope parent base around ss hseq h.number rfl h.around
  exact heffect.leave

end Linker

namespace Link

variable {l l' : Linker} {scope : ScopeId} {functions vars : List String}

/-- **A body** checks its statements and then its jumps. -/
theorem checks_bodyOf {ss : List Source.Stmt} {us : List Use} (hl : l.Sees scope functions vars)
    (h : Checks (stmts scope none ss)
      { l with labels := [], jumps := [], frames := [] :: l.frames } us) :
    Checks (body scope ss) l (us ++ gotoUses (Source.stmtsLandmarks 0 [] ss)) :=
  checks_withBody (checks_withFrame h) fun _ _ hx => hl.begin.sequence hx

/-! ### Expressions and statements -/

mutual

/-- **Linking an expression** checks what it relies on. -/
theorem checks_expr : ∀ (e : Source.Expr) {l : Linker} {scope : ScopeId}
    {functions vars : List String}, l.Sees scope functions vars →
      Checks (expr scope e) l (e.uses functions vars)
  | .scalar _, l, scope, functions, vars, hl => checks_nil.2 (addExpr_succeeds _ l)
  | .var name, l, scope, functions, vars, hl =>
    (checks_lookup hl name).finish fun _ => addExpr_succeeds _
  | .declare name, l, scope, functions, vars, hl =>
    .after (gives_declare.2 ⟨rfl, rfl⟩) (checks_nil.2 (addExpr_succeeds _ _))
  | .assign name value, l, scope, functions, vars, hl => by
    rw [expr]
    refine (checks_lookup hl name).bind fun x l₁ hx => ?_
    obtain ⟨-, rfl⟩ := gives_lookup.1 hx
    exact (checks_expr value hl).finish fun _ => addExpr_succeeds _
  | .name _, l, scope, functions, vars, hl => checks_nil.2 (addExpr_succeeds _ l)
  | .function name, l, scope, functions, vars, hl => checks_functionName hl name
  | .call callee args, l, scope, functions, vars, hl => by
    rw [expr]
    refine (checks_expr callee hl).bind fun c l₁ hc => ?_
    have hl₁ := hl.effect (expr_effect scope 0 callee hc rfl)
    exact (checks_exprs args hl₁).finish fun _ => addExpr_succeeds _
  | .choose cond thenExpr elseExpr, l, scope, functions, vars, hl => by
    rw [expr]
    refine (checks_expr cond hl).bind fun c l₁ hc => ?_
    have hl₁ := hl.effect (expr_effect scope 0 cond hc rfl)
    refine (checks_expr thenExpr hl₁).bind fun t l₂ ht => ?_
    have hl₂ := hl₁.effect (expr_effect scope 0 thenExpr ht rfl)
    exact (checks_expr elseExpr hl₂).finish fun _ => addExpr_succeeds _
  | .closure params body, l, scope, functions, vars, hl => by
    rw [expr]
    obtain ⟨ids, l₁, hids⟩ := mapM_declare_succeeds params { l with frames := [] :: l.frames }
    have hl₁ : l₁.Sees scope functions (params ++ vars) := (hl.enter []).declareAll hids
    have hbody := checks_bodyOf hl₁ (checks_stmts body (hl₁.begin.enter []))
    exact (checks_withFrame (.after hids (hbody.finish fun first l₂ =>
      ⟨_, l₂, gives_pure.2 ⟨rfl, rfl⟩⟩))).finish fun _ => addExpr_succeeds _

theorem checks_exprs : ∀ (es : List Source.Expr) {l : Linker} {scope : ScopeId}
    {functions vars : List String}, l.Sees scope functions vars →
      Checks (exprs scope es) l (Source.exprsUses functions vars es)
  | [], l, scope, functions, vars, hl => checks_nil.2 ⟨[], l, gives_pure.2 ⟨rfl, rfl⟩⟩
  | e :: es, l, scope, functions, vars, hl => by
    rw [exprs]
    refine (checks_expr e hl).bind fun i l₁ hi => ?_
    have hl₁ := hl.effect (expr_effect scope 0 e hi rfl)
    exact (checks_exprs es hl₁).finish fun is l₂ => ⟨_, l₂, gives_pure.2 ⟨rfl, rfl⟩⟩

/-- **Linking a statement** checks what it relies on. -/
theorem checks_stmt : ∀ (s : Source.Stmt) {l : Linker} {scope : ScopeId} {parent : Option StmtId}
    {base n : Nat} {around : List Nat} {functions vars labels : List String},
      l.Stands scope parent base n around functions vars labels →
      Checks (stmt scope parent s) l (s.uses functions vars labels)
  | .expr e, l, scope, parent, base, n, around, functions, vars, labels, hl => by
    rw [stmt]
    exact .after (gives_addStmt.2 ⟨rfl, rfl⟩)
      ((checks_expr e hl.inside.toSees).finish fun _ => setKind_succeeds _ _)
  | .block body, l, scope, parent, base, n, around, functions, vars, labels, hl => by
    rw [stmt]
    exact .after (gives_addStmt.2 ⟨rfl, rfl⟩)
      ((checks_withFrame (checks_stmts body (hl.inside.enter []))).finish
        fun _ => setKind_succeeds _ _)
  | .loop cond body testLast, l, scope, parent, base, n, around, functions, vars, labels, hl => by
    rw [stmt]
    refine .after (gives_addStmt.2 ⟨rfl, rfl⟩)
      ((checks_expr cond hl.inside.toSees).bind fun c l₁ hc => ?_)
    have hl₁ := hl.inside.effect (expr_effect scope base cond hc rfl)
    exact (checks_withFrame (checks_stmts body (hl₁.enter []))).finish fun _ => setKind_succeeds _ _
  | .forall indices iterators body, l, scope, parent, base, n, around, functions, vars, labels,
    hl => by
    rw [stmt]
    refine .after (gives_addStmt.2 ⟨rfl, rfl⟩)
      ((checks_exprs iterators hl.inside.toSees).bind fun is l₁ his => ?_)
    have hl₁ := hl.inside.effect (exprs_effect scope base iterators his rfl)
    obtain ⟨xs, l₂, hxs⟩ := mapM_declare_succeeds indices { l₁ with frames := [] :: l₁.frames }
    have hl₂ := (hl₁.enter []).declareAll hxs
    have hbody := checks_withFrame (checks_stmts body (hl₂.enter []))
    exact (checks_withFrame (.after hxs (hbody.finish fun first l₃ =>
      ⟨_, l₃, gives_pure.2 ⟨rfl, rfl⟩⟩))).finish fun _ => setKind_succeeds _ _
  | .branch cond thenBody elseBody, l, scope, parent, base, n, around, functions, vars, labels,
    hl => by
    rw [stmt]
    refine .after (gives_addStmt.2 ⟨rfl, rfl⟩)
      ((checks_expr cond hl.inside.toSees).bind fun c l₁ hc => ?_)
    have hl₁ := hl.inside.effect (expr_effect scope base cond hc rfl)
    refine (checks_withFrame (checks_stmts thenBody (hl₁.enter []))).bind fun t l₂ ht => ?_
    have hl₂ := hl₁.effect (hl₁.sequence ht)
    rw [Source.stmts_labelNames_landmarks _ 0 _ []] at hl₂
    exact (checks_withFrame (checks_stmts elseBody (hl₂.enter []))).finish
      fun _ => setKind_succeeds _ _
  | .select selector arms, l, scope, parent, base, n, around, functions, vars, labels, hl => by
    rw [stmt]
    refine .after (gives_addStmt.2 ⟨rfl, rfl⟩)
      ((checks_expr selector hl.inside.toSees).bind fun c l₁ hc => ?_)
    have hl₁ := hl.inside.effect (expr_effect scope base selector hc rfl)
    exact (checks_arms arms hl₁).finish fun _ => setKind_succeeds _ _
  | .return none, l, scope, parent, base, n, around, functions, vars, labels, hl => by
    rw [stmt]
    exact .after (gives_addStmt.2 ⟨rfl, rfl⟩) (checks_nil.2 (setKind_succeeds _ _ _))
  | .return (some value), l, scope, parent, base, n, around, functions, vars, labels, hl => by
    rw [stmt]
    exact .after (gives_addStmt.2 ⟨rfl, rfl⟩)
      ((checks_expr value hl.inside.toSees).finish fun _ => setKind_succeeds _ _)
  | .label name, l, scope, parent, base, n, around, functions, vars, labels, hl => by
    rw [stmt]
    exact .after (gives_addStmt.2 ⟨rfl, rfl⟩)
      ((checks_declareLabel hl.inside.labels name _).finish fun _ => setKind_succeeds _ _)
  | .goto label, l, scope, parent, base, n, around, functions, vars, labels, hl => by
    rw [stmt]
    exact .after (gives_addStmt.2 ⟨rfl, rfl⟩)
      (.after (a := ()) (gives_recordJump.2 rfl) (checks_nil.2 (setKind_succeeds _ _ _)))

theorem checks_stmts : ∀ (ss : List Source.Stmt) {l : Linker} {scope : ScopeId}
    {parent : Option StmtId} {base n : Nat} {around : List Nat}
    {functions vars labels : List String},
      l.Stands scope parent base n around functions vars labels →
      Checks (stmts scope parent ss) l (Source.stmtsUses functions vars labels ss)
  | [], l, scope, parent, base, n, around, functions, vars, labels, hl =>
    checks_nil.2 ⟨none, l, gives_pure.2 ⟨rfl, rfl⟩⟩
  | s :: ss, l, scope, parent, base, n, around, functions, vars, labels, hl => by
    rw [stmts]
    refine (checks_stmt s hl).bind fun i l₁ hs => ?_
    have hl₁ := hl.effect (stmt_effect scope parent base around s hs hl.number rfl hl.around)
    rw [s.labelNames_landmarks _ 0 _ []] at hl₁
    exact (checks_stmts ss hl₁).finish fun next l₂ =>
      ⟨some i, _, gives_bind.2 ⟨(), _, gives_setNext.2 rfl, gives_pure.2 ⟨rfl, rfl⟩⟩⟩

theorem checks_arm : ∀ (a : Source.Arm) {l : Linker} {scope : ScopeId} {select : StmtId}
    {base n : Nat} {around : List Nat} {functions vars labels : List String},
      l.Stands scope (some select) base n around functions vars labels →
      Checks (arm scope select a) l (a.uses functions vars labels)
  | .mk cases body, l, scope, select, base, n, around, functions, vars, labels, hl => by
    rw [arm]
    refine .after (gives_addStmt.2 ⟨rfl, rfl⟩)
      ((checks_exprs cases hl.inside.toSees).bind fun cs l₁ hcs => ?_)
    have hl₁ := hl.inside.effect (exprs_effect scope base cases hcs rfl)
    exact (checks_withFrame (checks_stmts body (hl₁.enter []))).finish fun _ => setKind_succeeds _ _

theorem checks_arms : ∀ (as : List Source.Arm) {l : Linker} {scope : ScopeId} {select : StmtId}
    {base n : Nat} {around : List Nat} {functions vars labels : List String},
      l.Stands scope (some select) base n around functions vars labels →
      Checks (armSeq scope select as) l (Source.armsUses functions vars labels as)
  | [], l, scope, select, base, n, around, functions, vars, labels, hl =>
    checks_nil.2 ⟨none, l, gives_pure.2 ⟨rfl, rfl⟩⟩
  | a :: as, l, scope, select, base, n, around, functions, vars, labels, hl => by
    rw [armSeq]
    refine (checks_arm a hl).bind fun i l₁ ha => ?_
    have hl₁ := hl.effect (arm_effect scope select base around a ha hl.number rfl hl.around)
    rw [a.labelNames_landmarks _ 0 _ []] at hl₁
    exact (checks_arms as hl₁).finish fun next l₂ =>
      ⟨some i, _, gives_bind.2 ⟨(), _, gives_setNext.2 rfl, gives_pure.2 ⟨rfl, rfl⟩⟩⟩

end

/-- Linking a body checks what it relies on. -/
theorem checks_body (hl : l.Sees scope functions vars) (ss : List Source.Stmt) :
    Checks (body scope ss) l (Source.bodyUses functions vars ss) :=
  checks_bodyOf hl (checks_stmts ss (hl.begin.enter []))

/-! ### Functions and modules -/

theorem mapM_addVar_succeeds (names : List String) (l : Linker) :
    ∃ ids l', (names.mapM addVar).Gives l ids l' := by
  induction names generalizing l with
  | nil => exact ⟨[], l, gives_pure.2 ⟨rfl, rfl⟩⟩
  | cons name names ih =>
    obtain ⟨ids, l', h⟩ := ih (pushVar l name)
    refine ⟨l.mark.varId :: ids, l', ?_⟩
    simp only [List.mapM_cons, gives_bind, gives_addVar, gives_pure]
    exact ⟨_, _, ⟨rfl, rfl⟩, ids, l', h, rfl, rfl⟩

theorem mapM_declareFunction_succeeds (scope : ScopeId) (fs : List Source.Function) (l : Linker) :
    ∃ ids l', (fs.mapM (declareFunction scope)).Gives l ids l' := by
  induction fs generalizing l with
  | nil => exact ⟨[], l, gives_pure.2 ⟨rfl, rfl⟩⟩
  | cons f fs ih =>
    obtain ⟨params, l₁, hparams⟩ := mapM_addVar_succeeds f.params l
    obtain ⟨ids, l', h⟩ := ih (pushFunction l₁ ⟨f.name, params, .code none, scope⟩)
    refine ⟨⟨l₁.program.functions.size⟩ :: ids, l', ?_⟩
    simp only [List.mapM_cons, declareFunction, gives_bind, gives_addFunction, gives_pure]
    exact ⟨_, _, ⟨params, l₁, hparams, rfl, rfl⟩, ids, l', h, rfl, rfl⟩

/-- Names stay visible while bodies are linked. -/
theorem Retains.sees (h : Retains l l') (hl : l.Sees scope functions vars) :
    l'.Sees scope functions vars :=
  ⟨hl.functions.mono h.scopes, h.frames ▸ hl.frames, fun name => by
    rw [Linker.names, h.frames]
    exact hl.vars name⟩

mutual

/-- **Linking a function** checks what it relies on, where its own functions are visible as well. -/
theorem checks_function : ∀ (f : Source.Function) {l : Linker} {outer scope : ScopeId} {id : FnId}
    {functions vars : List String}, l.Sees outer functions vars → Implements l.program scope id f →
      Checks (function outer id f) l (f.uses functions vars)
  | .mk name params inner ss, l, outer, scope, id, functions, vars, hl, hid => by
    rw [function]
    obtain ⟨ids, l₁, hids⟩ := mapM_declareFunction_succeeds ⟨l.program.scopes.size⟩ inner
      (pushScope l outer)
    have hopens := opens_mapM_declareFunction hids
    refine .after (gives_addScope.2 ⟨rfl, rfl⟩) (.after hids (.after (gives_get.2 ⟨rfl, rfl⟩) ?_))
    obtain ⟨xs, _, hf, hlength⟩ := hid.mono hopens.keeps
    have hlength : xs.length = params.length := hlength
    rw [hf]
    have hsees := hopens.retains.sees hl
    have hl₂ : Linker.Sees { l₁ with frames := (params.zip xs).reverse :: l₁.frames }
        ⟨l.program.scopes.size⟩ (inner.map Source.Function.name ++ functions) (params ++ vars) := by
      refine ⟨hopens.shows hl.functions, List.cons_ne_nil _ _, fun other => ?_⟩
      rw [names_enter, List.map_reverse, List.map_fst_zip (Nat.le_of_eq hlength.symm),
        List.mem_append, List.mem_append, List.mem_reverse, hsees.vars]
    refine checks_withFrame ((checks_body hl₂ ss).bind fun first l₃ h₃ => ?_)
    have hretains := (retains_body h₃).trans (retains_putBody l₃ id first)
    exact .after (a := ()) (gives_setBody.2 rfl) (checks_functionSeq inner (hretains.sees hl₂)
      (hopens.functions.imp fun _ _ hf => hf.implements.mono hretains.scopes))

theorem checks_functionSeq : ∀ (fs : List Source.Function) {ids : List FnId} {l : Linker}
    {outer scope : ScopeId} {functions vars : List String}, l.Sees outer functions vars →
      List.Forall₂ (Implements l.program scope) ids fs →
      Checks (functionSeq outer ids fs) l (Source.functionsUses functions vars fs)
  | [], ids, l, outer, scope, functions, vars, hl, hids => by
    rw [functionSeq]
    exact checks_nil.2 ⟨(), l, gives_pure.2 ⟨rfl, rfl⟩⟩
  | f :: fs, ids, l, outer, scope, functions, vars, hl, hids => by
    cases hids with
    | cons hf hfs =>
      rw [functionSeq]
      refine (checks_function f hl hf).bind fun _ l₁ h₁ => ?_
      have hretains := retains_function h₁
      exact checks_functionSeq fs (hretains.sees hl)
        (hfs.imp fun _ _ h => h.mono hretains.scopes)

end

/-- **Linking a module** checks what it relies on, where only the primitives are visible besides its
own functions. -/
theorem checks_module (hframes : l.frames = [])
    (hroot : l.program.Shows Program.rootScope (Primitive.all.map Primitive.name))
    (m : Source.Module) : Checks (module m) l m.uses := by
  rw [module]
  obtain ⟨ids, l₁, hids⟩ := mapM_declareFunction_succeeds ⟨l.program.scopes.size⟩ m.functions
    (pushScope l Program.rootScope)
  have hopens := opens_mapM_declareFunction hids
  have hnames : l₁.names = [] := by
    rw [Linker.names, hopens.retains.frames, hframes]
    rfl
  have hl₂ : Linker.Sees { l₁ with frames := [] :: l₁.frames } ⟨l.program.scopes.size⟩ m.visible
      [] := by
    refine ⟨hopens.shows hroot, List.cons_ne_nil _ _, fun name => ?_⟩
    rw [names_enter, hnames]
    rfl
  refine .after (gives_addScope.2 ⟨rfl, rfl⟩) (.after hids (Checks.finish (checks_withFrame
    ((checks_body hl₂ m.body).bind fun first l₃ h₃ => ?_)) fun first l₃ => ?_))
  · have hretains := retains_body h₃
    exact (checks_functionSeq m.functions (hretains.sees hl₂)
      (hopens.functions.imp fun _ _ hf => hf.implements.mono hretains.scopes)).finish
      fun _ l₄ => ⟨first, l₄, gives_pure.2 ⟨rfl, rfl⟩⟩
  · exact ⟨ids, _, gives_bind.2 ⟨(), _, gives_modifyProgram.2 rfl, gives_pure.2 ⟨rfl, rfl⟩⟩⟩

/-! ### Programs -/

/-- **Linking modules** declares the functions of each one in the scope of a module. -/
theorem retains_mapM_module {ms : List Source.Module} {ids : List (List FnId)}
    (h : (ms.mapM module).Gives l ids l') :
    l.program.KeepsScopes l'.program ∧ l'.frames = l.frames ∧
      (∀ m ∈ l.program.modules, m ∈ l'.program.modules) ∧
      List.Forall₂ (fun ids m => ∃ m' ∈ l'.program.modules,
        List.Forall₂ (Implements l'.program m'.scope) ids m.functions) ids ms := by
  induction ms generalizing l ids with
  | nil =>
    obtain ⟨rfl, rfl⟩ := gives_pure.1 (show (pure [] : Link _).Gives l ids l' from h)
    exact ⟨.refl _, rfl, fun _ hm => hm, .nil⟩
  | cons m ms ih =>
    simp only [List.mapM_cons, gives_bind, gives_pure] at h
    obtain ⟨is, l₁, hm, rest, l₂, hrest, rfl, rfl⟩ := h
    obtain ⟨l₀, first, scope, hretains, hall, rfl⟩ := retains_module hm
    obtain ⟨hkeeps', hframes', hmodules', hall'⟩ := ih hrest
    have hkeeps := keepsScopes_pushModule l₀ ⟨m.name, first, scope⟩
    refine ⟨(hretains.scopes.trans hkeeps).trans hkeeps', hframes'.trans hretains.frames,
      fun m' hm' => hmodules' m' ?_, .cons ⟨⟨m.name, first, scope⟩, hmodules' _ Array.mem_push_self,
        hall.imp fun _ _ h => h.mono (hkeeps.trans hkeeps')⟩ hall'⟩
    rw [← hretains.modules] at hm'
    exact Array.mem_push_of_mem _ hm'

theorem checks_mapM_module (hframes : l.frames = [])
    (hroot : l.program.Shows Program.rootScope (Primitive.all.map Primitive.name))
    (ms : List Source.Module) : Checks (ms.mapM module) l (ms.flatMap Source.Module.uses) := by
  induction ms generalizing l with
  | nil => exact checks_nil.2 ⟨[], l, gives_pure.2 ⟨rfl, rfl⟩⟩
  | cons m ms ih =>
    rw [List.mapM_cons]
    refine (checks_module hframes hroot m).bind fun ids l₁ h₁ => ?_
    obtain ⟨l₀, first, scope, hretains, -, rfl⟩ := retains_module h₁
    have hkeeps := hretains.scopes.trans (keepsScopes_pushModule l₀ ⟨m.name, first, scope⟩)
    have hframes₁ : (pushModule l₀ ⟨m.name, first, scope⟩).frames = [] :=
      hretains.frames.trans hframes
    exact (ih hframes₁ (hroot.mono hkeeps)).finish fun rest l₂ =>
      ⟨_, l₂, gives_pure.2 ⟨rfl, rfl⟩⟩

theorem functionName_of_implements {p : Program} {scope : ScopeId} {ids : List FnId}
    {fs : List Source.Function} (h : List.Forall₂ (Implements p scope) ids fs) :
    ids.map p.functionName = fs.map Source.Function.name := by
  induction h with
  | nil => rfl
  | cons hf _ ih =>
    obtain ⟨params, body, hf, -⟩ := hf
    rw [List.map_cons, List.map_cons, ih, Program.functionName, hf]

/-- The candidates for the entry have the names that the definition says. -/
theorem functionName_candidates {p : Program} {ms : List Source.Module} {ids : List (List FnId)}
    (h : List.Forall₂ (fun ids m => ∃ m' ∈ p.modules,
      List.Forall₂ (Implements p m'.scope) ids m.functions) ids ms) :
    ids.flatten.map p.functionName = ms.flatMap fun m => m.functions.map Source.Function.name := by
  induction h with
  | nil => rfl
  | cons hm _ ih =>
    obtain ⟨m', -, hall⟩ := hm
    rw [List.flatten_cons, List.map_append, ih, functionName_of_implements hall, List.flatMap_cons]

/-- A candidate for the entry is a function of a module. -/
theorem implements_of_mem {p : Program} {ms : List Source.Module} {ids : List (List FnId)}
    (h : List.Forall₂ (fun ids m => ∃ m' ∈ p.modules,
      List.Forall₂ (Implements p m'.scope) ids m.functions) ids ms) {is : List FnId}
    (his : is ∈ ids) {id : FnId} (hid : id ∈ is) :
    ∃ m ∈ p.modules, ∃ f, p.function? id = some f ∧ f.scope = m.scope := by
  obtain ⟨m, m', hm', hall⟩ := exists_of_forall₂ h his
  obtain ⟨f, params, body, hf, -⟩ := exists_of_forall₂ hall hid
  exact ⟨m', hm', _, hf, rfl⟩

/-- **The entry function** is picked if there is one of its name. -/
theorem ends_entry {d : Source.Program} {candidates : List FnId}
    (h : candidates.map l.program.functionName = d.candidates) :
    Ends (entry candidates d.entry) l d.entryError? := by
  have hlength : (candidates.filter fun f => l.program.functionName f == d.entryName).length =
      d.candidates.count d.entryName := by
    rw [← h, List.count, List.countP_map, List.countP_eq_length_filter]
    rfl
  refine Ends.after (gives_get.2 ⟨rfl, rfl⟩) ?_
  rw [Source.Program.entryError?, ← hlength]
  dsimp only [Source.Program.entryName] at hlength ⊢
  rcases candidates.filter fun f => l.program.functionName f == d.entry.getD defaultEntry with
    _ | ⟨f, _ | ⟨g, rest⟩⟩ <;> cases d.entry
  · exact ⟨none, l, gives_pure.2 ⟨rfl, rfl⟩⟩
  · rfl
  · exact ⟨some f, l, gives_pure.2 ⟨rfl, rfl⟩⟩
  · exact ⟨some f, l, gives_pure.2 ⟨rfl, rfl⟩⟩
  · rfl
  · rfl

/-- The entry function that is picked has the name, and none is picked only if there is none. -/
theorem name_of_gives_entry {candidates : List FnId} {requested : Option String}
    {first : Option FnId} (h : (entry candidates requested).Gives l first l') :
    (∀ f, first = some f → l.program.functionName f = requested.getD defaultEntry) ∧
      (first = none → requested.getD defaultEntry ∉ candidates.map l.program.functionName) := by
  simp only [entry, gives_bind, gives_get] at h
  obtain ⟨_, _, ⟨rfl, rfl⟩, h⟩ := h
  split at h
  · rename_i f hf
    obtain ⟨rfl, rfl⟩ := gives_pure.1 h
    refine ⟨fun g hg => ?_, fun hnone => by cases hnone⟩
    cases hg
    exact beq_iff_eq.1 (List.mem_filter.1 (show f ∈ _ from hf ▸ List.mem_singleton_self f)).2
  · rename_i hnil
    obtain ⟨rfl, rfl⟩ := gives_pure.1 h
    refine ⟨fun g hg => (by cases hg), fun _ hmem => ?_⟩
    obtain ⟨f, hf, hname⟩ := List.mem_map.1 hmem
    exact absurd (beq_iff_eq.2 hname) (List.filter_eq_nil_iff.1 hnil f hf)
  · exact absurd h not_gives_throw
  · exact absurd h not_gives_throw

end Link

namespace Program

/-- The entry function is the one of a module that has the name, and there is none if no module has
one. -/
structure EntersAt (p : Program) (d : Source.Program) : Prop where
  named : ∀ id, p.entry = some id → ∃ f, p.function? id = some f ∧ f.name = d.entryName ∧
    ∃ m ∈ p.modules, f.scope = m.scope
  missing : p.entry = none ↔ d.entryName ∉ d.candidates

theorem entersAt_of_link {d : Source.Program} {p : Program} (h : link d = .ok p) :
    p.EntersAt d := by
  obtain ⟨ids, l, first, hids, hentry, rfl⟩ := gives_of_link h
  obtain ⟨-, hmem⟩ := Link.mem_of_gives_entry hentry
  obtain ⟨hnamed, hmissing⟩ := Link.name_of_gives_entry hentry
  obtain ⟨-, -, -, hall⟩ := Link.retains_mapM_module hids
  have hcandidates : ids.flatten.map l.program.functionName = d.candidates :=
    Link.functionName_candidates hall
  have hnamed' : ∀ f, first = some f → l.program.functionName f = d.entryName := hnamed
  rw [hcandidates] at hmissing
  refine ⟨fun id hid => ?_, hmissing,
    fun hnot => Option.eq_none_iff_forall_ne_some.2 fun f hf => ?_⟩
  · obtain ⟨is, his, hid'⟩ := List.mem_flatten.1 (hmem id hid)
    obtain ⟨m', hm', f, hf, hscope⟩ := Link.implements_of_mem hall his hid'
    refine ⟨f, hf, ?_, m', hm', hscope⟩
    rw [← hnamed' id hid, Program.functionName, hf]
  · refine hnot ?_
    rw [← hnamed' f hf, ← hcandidates]
    exact List.mem_map_of_mem (hmem f hf)

/-- Linking ends as the definition says. -/
theorem ends_program (d : Source.Program) :
    Link.Ends (Link.program d) ⟨base, [], [], []⟩ d.error? := by
  have hmodules : Link.Checks (d.modules.mapM Link.module) ⟨base, [], [], []⟩ d.uses :=
    Link.checks_mapM_module rfl base_shows d.modules
  refine Link.Ends.bind hmodules fun ids l₁ h₁ => ?_
  obtain ⟨-, -, -, hall⟩ := Link.retains_mapM_module h₁
  rw [← Option.or_none (o := d.entryError?)]
  refine (Link.ends_entry (Link.functionName_candidates hall)).bind fun first l₂ _ => ?_
  exact ⟨(), _, Link.gives_modifyProgram.2 rfl⟩

/-- **Linking accepts exactly the valid definitions.** Of a definition that is not valid, the first
thing that is wrong is reported. The entry function of a linked program is the one that the
definition names. -/
theorem link_accepts_valid (d : Source.Program) :
    ((∃ p, link d = .ok p) ↔ d.Valid) ∧ (∀ e, link d = .error e ↔ d.error? = some e) ∧
      ∀ p, link d = .ok p → p.EntersAt d := by
  have hends := ends_program d
  rw [d.valid_iff]
  cases herror : d.error? with
  | none =>
    rw [herror] at hends
    obtain ⟨_, l, hl⟩ := hends
    have hok : link d = .ok l.program := by
      have hrun : (Link.program d).run ⟨base, [], [], []⟩ = .ok ((), l) := hl
      rw [link, hrun]
      rfl
    refine ⟨⟨fun _ => rfl, fun _ => ⟨_, hok⟩⟩, fun e => ⟨fun h => ?_, fun h => ?_⟩,
      fun p => entersAt_of_link⟩
    · rw [hok] at h
      cases h
    · cases h
  | some e =>
    rw [herror] at hends
    have herr : link d = .error e := by
      have hrun : (Link.program d).run ⟨base, [], [], []⟩ = .error e := hends
      rw [link, hrun]
      rfl
    refine ⟨⟨?_, fun h => ?_⟩, fun e' => ?_, fun p => entersAt_of_link⟩
    · rintro ⟨p, hp⟩
      rw [herr] at hp
      cases hp
    · cases h
    · rw [herr, Except.error.injEq, Option.some.injEq]

/-- A definition with a function that is named before it and after it, a variable that a condition
declares, and a closure whose label has the name of one around it. -/
def winding : Source.Program :=
  ⟨[⟨"walk", [.mk "main" ["n"]
    [.mk "enough" ["k"] [] [.return (some (.call (.function "<") [.var "n", .var "k"]))]]
    [.goto "end",
      .loop (.call (.function "enough") [.declare "k"])
        [.label "again", .goto "end",
          .expr (.closure ["k"] [.label "end", .expr (.assign "k" (.var "n")), .goto "end"]),
          .goto "again"] false,
      .label "end", .return (some (.var "k"))]], []⟩], none⟩

theorem link_accepts_valid_winding :
    ∃ p, link winding = .ok p ∧ p.EntersAt winding ∧ p.entry ≠ none := by
  obtain ⟨haccepts, -, henters⟩ := link_accepts_valid winding
  obtain ⟨p, hp⟩ := haccepts.2 (winding.valid_iff.2 (by decide))
  refine ⟨p, hp, henters p hp, fun hnone => ?_⟩
  exact (henters p hp).missing.1 hnone (by decide)

end Program

end TreeMachine
