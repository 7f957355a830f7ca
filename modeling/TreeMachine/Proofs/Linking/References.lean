import TreeMachine.Proofs.Linking.Scopes

/-!
# References to functions

A reference to a function is bound while the body around it is linked, to the only function of its
name that is visible in the scope of the body (`Link.bound_body`). What is visible in a scope is not
changed by anything that is linked later (`Program.Shows.visible_eq`).

The first statement is an induction on the definition, for which linking an expression or a
statement is described by the references that it adds (`Link.Bound`). Everything else that a step
does to the tables leaves what is visible alone: expressions and statements are not looked at for
it, and functions only by their names. Closures have no scope of their own, so a reference in the
body of a closure is bound in the scope of the function around it.

The second statement is what takes a reference from the moment at which it was bound to the finished
program. Later scopes are inside of existing ones or beside them, so they are not on the way from a
scope to the root. A function that is declared later is in a later scope.
-/

namespace TreeMachine

namespace Program

variable {p p' : Program}

/-! ### What stays visible -/

/-- The functions that are visible depend on the scopes and on the names of the functions only. -/
theorem visible_congr (hscopes : p'.scopes = p.scopes)
    (hnames : ∀ id, (p'.function? id).map Function.name = (p.function? id).map Function.name)
    (scope : ScopeId) (name : String) : p'.visible scope name = p.visible scope name := by
  have hscope : ∀ i, p'.scope? i = p.scope? i := fun i => by rw [scope?, scope?, hscopes]
  have hnamed : ∀ q : Program, ∀ id, ((q.function? id).any fun f => f.name == name) =
      ((q.function? id).map Function.name).any (· == name) := fun q id => by
    cases q.function? id <;> rfl
  have hchain : ∀ count o, p'.scopeChain count o = p.scopeChain count o := by
    intro count
    induction count with
    | zero => exact fun o => by cases o <;> rfl
    | succ count ih =>
      rintro (_ | i)
      · rfl
      · rw [scopeChain, scopeChain, ih, hscope]
  rw [visible, visible, hchain, hscopes]
  refine congrArg (List.flatMap · _) (funext fun i => ?_)
  simp only [named, hscope, hnamed, hnames]

theorem Grows.visible (h : p.Grows p') (scope : ScopeId) (name : String) :
    p'.visible scope name = p.visible scope name :=
  visible_congr (by rw [h.rest]) (fun id => by rw [h.rest]; rfl) scope name

/-- The functions of a name in a scope whose functions are found. -/
theorem KeepsScopes.named (hp : p.KeepsScopes p') {i : ScopeId} {s : Scope} {names : List String}
    (hs : p.scope? i = some s) (hnames : p.Declares s.functions names) (name : String) :
    p'.named name i = p.named name i := by
  rw [Program.named, Program.named, hs, hp.scopes i s hs]
  refine List.filter_congr fun f hf => ?_
  have hmem := List.mem_map_of_mem (f := fun f => (p.function? f).map Function.name) hf
  rw [hnames] at hmem
  obtain ⟨_, -, hname⟩ := List.mem_map.1 hmem
  obtain ⟨g, hg, -⟩ := Option.map_eq_some_iff.1 hname.symm
  obtain ⟨body, hg'⟩ := hp.functions f g hg
  rw [hg, hg']
  rfl

/-- **What is visible in a scope stays so**, whatever scopes and functions are added. -/
theorem Shows.visible_eq {i : ScopeId} {names : List String} (h : p.Shows i names)
    (hp : p.KeepsScopes p') (name : String) : p'.visible i name = p.visible i name := by
  have hchain : ∀ {i names}, p.Shows i names → ∀ count count', i.index < count → i.index < count' →
      (p'.scopeChain count' (some i)).flatMap (p'.named name) =
        (p.scopeChain count (some i)).flatMap (p.named name) := by
    intro i names h
    induction h with
    | outermost hs hparent hnames =>
      rintro (_ | count) (_ | count') hcount hcount'
      · cases hcount
      · cases hcount
      · cases hcount'
      · have hend : ∀ (q : Program) n, q.scopeChain n none = [] := fun _ n => by cases n <;> rfl
        rw [scopeChain, scopeChain, hs, hp.scopes _ _ hs, Option.bind_some, hparent, hend, hend,
          List.flatMap_cons, List.flatMap_cons, hp.named hs hnames]
        rfl
    | inside hs hparent hlt hnames _ ih =>
      rintro (_ | count) (_ | count') hcount hcount'
      · cases hcount
      · cases hcount
      · cases hcount'
      · rw [scopeChain, scopeChain, hs, hp.scopes _ _ hs, Option.bind_some, hparent,
          List.flatMap_cons, List.flatMap_cons, hp.named hs hnames,
          ih count count' (by omega) (by omega)]
  exact hchain h _ _ h.index_lt (h.mono hp).index_lt

end Program

namespace Link

variable {l l' l₁ l'' : Linker} {scope : ScopeId}

/-! ### References that are added -/

/-- The references to functions that a step of linking adds are bound in a scope, each to the only
function of a name. -/
structure Bound (scope : ScopeId) (l l' : Linker) : Prop where
  advances : Advances l l'
  refers : ∀ e f, l.program.exprs.size ≤ e.index → l'.program.expr? e = some (.function f) →
    ∃ name, l'.program.visible scope name = [f]

theorem Bound.trans (h : Bound scope l l') (h' : Bound scope l' l'') : Bound scope l l'' := by
  refine ⟨h.advances.trans h'.advances, fun e f he hf => ?_⟩
  rcases Nat.lt_or_ge e.index l'.program.exprs.size with hlt | hge
  · obtain ⟨x, hx⟩ := Program.expr?_isSome.2 hlt
    cases (h'.advances.1.keeps.exprs e x hx).symm.trans hf
    obtain ⟨name, hname⟩ := h.refers e f he hx
    exact ⟨name, (h'.advances.1.visible scope name).trans hname⟩
  · exact h'.refers e f hge hf

/-- A step that adds no expression. -/
theorem Advances.bound (h : Advances l l') (hexprs : l'.program.exprs = l.program.exprs)
    (scope : ScopeId) : Bound scope l l' := by
  refine ⟨h, fun e f he hf => absurd he (Nat.not_le.2 ?_)⟩
  rw [← hexprs]
  exact Program.expr?_isSome.1 ⟨_, hf⟩

theorem bound_pushExpr (l : Linker) {x : Expr}
    (hx : ∀ f, x = .function f → ∃ name, l.program.visible scope name = [f]) :
    Bound scope l (pushExpr l x) := by
  have hadv := advances_pushExpr l x
  refine ⟨hadv, fun e f he hf => ?_⟩
  rw [expr?_pushExpr] at hf
  split at hf
  · obtain ⟨name, hname⟩ := hx f (Option.some.inj hf)
    exact ⟨name, (hadv.1.visible scope name).trans hname⟩
  · exact absurd he (Nat.not_le.2 (Program.expr?_isSome.1 ⟨_, hf⟩))

theorem visible_putKind (l : Linker) (id : StmtId) (kind : StmtKind) (scope : ScopeId)
    (name : String) :
    (putKind l id kind).program.visible scope name = l.program.visible scope name := by
  refine Program.visible_congr ?_ (fun _ => ?_) scope name <;> rfl

theorem visible_putNext (l : Linker) (id : StmtId) (next : Option StmtId) (scope : ScopeId)
    (name : String) :
    (putNext l id next).program.visible scope name = l.program.visible scope name := by
  refine Program.visible_congr ?_ (fun _ => ?_) scope name <;> rfl

/-- A statement has its kind set when its parts have been linked. -/
theorem Bound.putKind {parent : Option StmtId} {kind : StmtKind}
    (h : Bound scope (pushStmt l parent scope) l₁) (hkind : kind.isGoto = false) :
    Bound scope l (putKind l₁ l.mark.stmtId kind) := by
  refine ⟨advances_putKind h.advances hkind, fun e f he hf => ?_⟩
  obtain ⟨name, hname⟩ := h.refers e f he hf
  exact ⟨name, (visible_putKind l₁ _ kind scope name).trans hname⟩

theorem Bound.putNext (h : Bound scope l l₁) (next : Option StmtId) :
    Bound scope l (putNext l₁ l.mark.stmtId next) := by
  refine ⟨advances_putNext h.advances (Nat.le_refl _) next, fun e f he hf => ?_⟩
  obtain ⟨name, hname⟩ := h.refers e f he hf
  exact ⟨name, (visible_putNext l₁ _ next scope name).trans hname⟩

/-- Out of a frame of variables again. -/
theorem Bound.leave {fs gs : List (List (String × VarId))}
    (h : Bound scope { l with frames := fs } l') : Bound scope l { l' with frames := gs } :=
  ⟨h.advances, h.refers⟩

theorem bound_mapM_declare {names : List String} {ids : List VarId}
    (h : (names.mapM declare).Gives l ids l') (scope : ScopeId) : Bound scope l l' := by
  induction names generalizing l ids with
  | nil =>
    obtain ⟨-, rfl⟩ := gives_pure.1 (show (pure [] : Link _).Gives l ids l' from h)
    exact (Advances.refl _).bound rfl scope
  | cons name names ih =>
    simp only [List.mapM_cons, gives_bind, gives_declare, gives_pure] at h
    obtain ⟨_, _, ⟨rfl, rfl⟩, _, _, hrest, -, rfl⟩ := h
    exact ((advances_pushLocal l name).bound rfl scope).trans (ih hrest)

/-- Resolving the jumps of a body adds nothing. -/
theorem bound_withBody {α : Type} {x : Link α} {a : α} (h : (withBody x).Gives l a l')
    (hx : ∀ l₁, x.Gives { l with labels := [], jumps := [] } a l₁ →
      Bound scope { l with labels := [], jumps := [] } l₁) : Bound scope l l' := by
  obtain ⟨hadv, l₁, h₁, hkeeps, hmark⟩ := advances_withBody h fun l₁ h₁ => (hx l₁ h₁).advances
  refine ⟨hadv, fun e f he hf => ?_⟩
  have hlt : e.index < l₁.program.exprs.size :=
    Nat.lt_of_lt_of_eq (Program.expr?_isSome.1 ⟨_, hf⟩) (congrArg Mark.exprs hmark)
  obtain ⟨x, hx₁⟩ := Program.expr?_isSome.2 hlt
  cases (hkeeps.exprs e x hx₁).symm.trans hf
  obtain ⟨name, hname⟩ := (hx l₁ h₁).refers e f he hx₁
  have hsame : l₁.program.visible scope name = l.program.visible scope name :=
    (hx l₁ h₁).advances.1.visible scope name
  exact ⟨name, (hadv.1.visible scope name).trans (hsame.symm.trans hname)⟩

mutual

/-- **Linking an expression** binds its references to functions. -/
theorem expr_bound (scope : ScopeId) : ∀ (e : Source.Expr) {l l' : Linker} {x : ExprId},
    (expr scope e).Gives l x l' → Bound scope l l'
  | .scalar _, l, l', x, h => by
    obtain ⟨-, rfl⟩ := gives_addExpr.1 h
    exact bound_pushExpr l nofun
  | .var _, l, l', x, h => by
    obtain ⟨_, -, -, rfl⟩ := gives_var h
    exact bound_pushExpr _ nofun
  | .declare name, l, l', x, h => by
    obtain ⟨-, rfl⟩ := gives_declaration h
    exact ((advances_pushLocal l name).bound rfl scope).trans (bound_pushExpr _ nofun)
  | .assign _ value, l, l', x, h => by
    obtain ⟨_, _, l₁, -, hv, -, rfl⟩ := gives_assign h
    exact (expr_bound scope value hv).trans (bound_pushExpr l₁ nofun)
  | .name _, l, l', x, h => by
    obtain ⟨-, rfl⟩ := gives_addExpr.1 h
    exact bound_pushExpr l nofun
  | .function name, l, l', x, h => by
    obtain ⟨f, hf, -, rfl⟩ := gives_reference h
    refine bound_pushExpr _ fun g hg => ?_
    cases hg
    exact ⟨name, hf⟩
  | .call callee args, l, l', x, h => by
    obtain ⟨_, l₁, _, l₂, hc, has, -, rfl⟩ := gives_call h
    have hparts := (expr_bound scope callee hc).trans (exprs_bound scope args has)
    exact hparts.trans (bound_pushExpr l₂ nofun)
  | .choose cond thenExpr elseExpr, l, l', x, h => by
    obtain ⟨_, l₁, _, l₂, _, l₃, hc, ht, hf, -, rfl⟩ := gives_choose h
    have hparts := (expr_bound scope cond hc).trans
      ((expr_bound scope thenExpr ht).trans (expr_bound scope elseExpr hf))
    exact hparts.trans (bound_pushExpr l₃ nofun)
  | .closure params body, l, l', x, h => by
    obtain ⟨_, l₁, _, l₂, hids, hbody, -, rfl⟩ := gives_closure h
    have hbody' := bound_withBody hbody fun l₄ h₄ => by
      obtain ⟨l₅, h₅, rfl⟩ := gives_withFrame.1 h₄
      exact (stmts_bound scope none body h₅).leave
    have hparams := bound_mapM_declare hids scope
    exact (hparams.trans hbody').leave.trans (bound_pushExpr _ nofun)

theorem exprs_bound (scope : ScopeId) : ∀ (es : List Source.Expr) {l l' : Linker}
    {ids : List ExprId}, (exprs scope es).Gives l ids l' → Bound scope l l'
  | [], l, l', ids, h => by
    obtain ⟨-, rfl⟩ := gives_pure.1 h
    exact (Advances.refl _).bound rfl scope
  | e :: es, l, l', ids, h => by
    obtain ⟨_, l₁, _, hi, his, -⟩ := gives_exprs_cons h
    exact (expr_bound scope e hi).trans (exprs_bound scope es his)

theorem stmt_bound (scope : ScopeId) (parent : Option StmtId) : ∀ (s : Source.Stmt)
    {l l' : Linker} {i : StmtId}, (stmt scope parent s).Gives l i l' → Bound scope l l'
  | .expr e, l, l', i, h => by
    obtain ⟨x, l₁, rfl, hx, rfl⟩ := gives_exprStmt h
    exact (expr_bound scope e hx).putKind rfl
  | .block body, l, l', i, h => by
    obtain ⟨first, l₁, rfl, hbody, rfl⟩ := gives_block h
    exact Bound.putKind (stmts_bound scope _ body hbody).leave rfl
  | .loop cond body testLast, l, l', i, h => by
    obtain ⟨c, l₁, first, l₂, rfl, hc, hbody, rfl⟩ := gives_loop h
    exact ((expr_bound scope cond hc).trans (stmts_bound scope _ body hbody).leave).putKind rfl
  | .forall indices iterators body, l, l', i, h => by
    obtain ⟨is, l₁, xs, l₂, first, l₃, rfl, his, hxs, hbody, rfl⟩ := gives_forall h
    have hinside : Bound scope l₂ { l₃ with frames := l₂.frames } :=
      (stmts_bound scope _ body hbody).leave
    have hframe : Bound scope l₁ { l₃ with frames := l₁.frames } :=
      ((bound_mapM_declare hxs scope).trans hinside).leave
    exact ((exprs_bound scope iterators his).trans hframe).putKind rfl
  | .branch cond thenBody elseBody, l, l', i, h => by
    obtain ⟨c, l₁, t, l₂, f, l₃, rfl, hc, ht, hf, rfl⟩ := gives_branch h
    have hthen : Bound scope l₁ { l₂ with frames := l₁.frames } :=
      (stmts_bound scope _ thenBody ht).leave
    have helse : Bound scope { l₂ with frames := l₁.frames } { l₃ with frames := l₁.frames } :=
      Bound.leave (l := { l₂ with frames := l₁.frames }) (stmts_bound scope _ elseBody hf)
    exact ((expr_bound scope cond hc).trans (hthen.trans helse)).putKind rfl
  | .select selector arms, l, l', i, h => by
    obtain ⟨c, l₁, first, l₂, rfl, hc, harms, rfl⟩ := gives_select h
    exact ((expr_bound scope selector hc).trans (armSeq_bound scope _ arms harms)).putKind rfl
  | .return none, l, l', i, h => by
    obtain ⟨rfl, rfl⟩ := gives_return_none h
    exact ((Advances.refl _).bound rfl scope).putKind rfl
  | .return (some value), l, l', i, h => by
    obtain ⟨v, l₁, rfl, hv, rfl⟩ := gives_return_some h
    exact (expr_bound scope value hv).putKind rfl
  | .label name, l, l', i, h => (stmt_placed scope parent _ h).2.1.bound (by
      obtain ⟨rfl, -, rfl⟩ := gives_label h
      rfl) scope
  | .goto label, l, l', i, h => (stmt_placed scope parent _ h).2.1.bound (by
      obtain ⟨rfl, rfl⟩ := gives_goto h
      rfl) scope

theorem stmts_bound (scope : ScopeId) (parent : Option StmtId) : ∀ (ss : List Source.Stmt)
    {l l' : Linker} {first : Option StmtId}, (stmts scope parent ss).Gives l first l' →
      Bound scope l l'
  | [], l, l', first, h => by
    obtain ⟨-, rfl⟩ := gives_pure.1 h
    exact (Advances.refl _).bound rfl scope
  | s :: ss, l, l', first, h => by
    obtain ⟨_, l₁, next, l₂, hs, hss, rfl, rfl⟩ := gives_stmts_cons h
    obtain ⟨rfl, -⟩ := stmt_placed scope parent s hs
    exact ((stmt_bound scope parent s hs).trans (stmts_bound scope parent ss hss)).putNext next

theorem arm_bound (scope : ScopeId) (select : StmtId) : ∀ (a : Source.Arm) {l l' : Linker}
    {i : StmtId}, (arm scope select a).Gives l i l' → Bound scope l l'
  | .mk cases body, l, l', i, h => by
    obtain ⟨cs, l₁, first, l₂, rfl, hcs, hbody, rfl⟩ := gives_arm h
    exact ((exprs_bound scope cases hcs).trans (stmts_bound scope _ body hbody).leave).putKind rfl

theorem armSeq_bound (scope : ScopeId) (select : StmtId) : ∀ (as : List Source.Arm)
    {l l' : Linker} {first : Option StmtId}, (armSeq scope select as).Gives l first l' →
      Bound scope l l'
  | [], l, l', first, h => by
    obtain ⟨-, rfl⟩ := gives_pure.1 h
    exact (Advances.refl _).bound rfl scope
  | a :: as, l, l', first, h => by
    obtain ⟨_, l₁, next, l₂, ha, has, rfl, rfl⟩ := gives_armSeq_cons h
    obtain ⟨rfl, -⟩ := arm_placed scope select a ha
    exact ((arm_bound scope select a ha).trans (armSeq_bound scope select as has)).putNext next

end

/-- **The references in a body** are bound to functions that are the only ones of a name in its
scope. -/
theorem bound_body {ss : List Source.Stmt} {first : Option StmtId}
    (h : (body scope ss).Gives l first l') : Bound scope l l' := by
  refine bound_withBody h fun l₁ h₁ => ?_
  obtain ⟨l₂, h₂, rfl⟩ := gives_withFrame.1 h₁
  exact (stmts_bound scope none ss h₂).leave

end Link

end TreeMachine
