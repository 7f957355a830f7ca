import TreeMachine.Proofs.Linking.Placement
import TreeMachine.Proofs.Tree.WellFormed

/-!
# Marks follow each other

The marks between which a definition is placed come one after the other, and the variables that are
in scope at them have been declared (`Mark.Follows`). An expression is the last node of those placed
for it, and all that is evaluated for it has been placed with it (`Program.EndsWith`).

The first fact is what makes intervals of numbers out of the parts of a definition: adjacent parts
have a mark in common, and whatever has its number between two marks is in exactly one of the parts.
The second one is about what numbers say of expressions. The parts of an expression come before it
and after the mark at which it begins, and so an expression is evaluated without leaving the
interval (`Program.From`). Since a statement comes before its expressions, and a statement inside it
after them, numbers of expressions tell which statement is around which.

Entering a frame, leaving it and declaring variables do not change how many statements and
expressions there are. These are the steps that have to be passed over in each of the inductions.
-/

namespace TreeMachine

namespace Mark

/-- The variables in scope have been declared. -/
def Fits (m : Mark) : Prop :=
  ∀ frame ∈ m.frames, ∀ b ∈ frame, b.2.index < m.vars

/-- A mark follows another one. -/
structure Follows (m m' : Mark) : Prop where
  stmts : m.stmts ≤ m'.stmts
  exprs : m.exprs ≤ m'.exprs
  vars : m.vars ≤ m'.vars
  fits : m.Fits → m'.Fits

theorem Follows.refl (m : Mark) : m.Follows m :=
  ⟨Nat.le_refl _, Nat.le_refl _, Nat.le_refl _, fun h => h⟩

theorem Follows.trans {m m' m'' : Mark} (h : m.Follows m') (h' : m'.Follows m'') :
    m.Follows m'' :=
  ⟨Nat.le_trans h.stmts h'.stmts, Nat.le_trans h.exprs h'.exprs, Nat.le_trans h.vars h'.vars,
    fun hm => h'.fits (h.fits hm)⟩

theorem follows_addStmt (m : Mark) : m.Follows m.addStmt :=
  ⟨Nat.le_succ _, Nat.le_refl _, Nat.le_refl _, fun h => h⟩

theorem follows_addExpr (m : Mark) : m.Follows m.addExpr :=
  ⟨Nat.le_refl _, Nat.le_succ _, Nat.le_refl _, fun h => h⟩

theorem follows_enter (m : Mark) : m.Follows (m.enter []) := by
  refine ⟨Nat.le_refl _, Nat.le_refl _, Nat.le_refl _, fun h frame hf b hb => ?_⟩
  rcases List.mem_cons.1 hf with rfl | hf
  · cases hb
  · exact h frame hf b hb

/-- The frames of an earlier mark fit as well. -/
theorem Follows.leave {m m' : Mark} (h : m.Follows m') : m.Follows (m'.leave m) :=
  ⟨h.stmts, h.exprs, h.vars, fun hm frame hf b hb => Nat.lt_of_lt_of_le (hm frame hf b hb) h.vars⟩

theorem follows_declare (m : Mark) (name : String) : m.Follows (m.declare name) := by
  refine ⟨Nat.le_refl _, Nat.le_refl _, Nat.le_succ _, fun h frame hf b hb => ?_⟩
  rcases m with ⟨stmts, exprs, vars, _ | ⟨inner, frames⟩⟩
  · cases hf
  · rcases List.mem_cons.1 hf with rfl | hf
    · rcases List.mem_cons.1 hb with rfl | hb
      · exact Nat.lt_succ_self _
      · exact Nat.lt_succ_of_lt (h inner List.mem_cons_self b hb)
    · exact Nat.lt_succ_of_lt (h frame (List.mem_cons_of_mem _ hf) b hb)

theorem follows_declareAll (m : Mark) (names : List String) :
    m.Follows (m.declareAll names).1 := by
  induction names generalizing m with
  | nil => exact .refl m
  | cons name names ih => exact (follows_declare m name).trans (ih _)

/-- Variables that were declared in order have been declared. -/
theorem lt_of_mem_declareAll {m : Mark} {names : List String} {x : VarId}
    (h : x ∈ (m.declareAll names).2) : x.index < (m.declareAll names).1.vars := by
  induction names generalizing m with
  | nil => cases h
  | cons name names ih =>
    rcases List.mem_cons.1 h with rfl | h
    · exact Nat.lt_of_lt_of_le (Nat.lt_succ_self m.vars)
        (follows_declareAll (m.declare name) names).vars
    · exact ih h

theorem lt_of_lookup? {m : Mark} (h : m.Fits) {name : String} {x : VarId}
    (hx : m.lookup? name = some x) : x.index < m.vars := by
  obtain ⟨frame, hf, hx⟩ := List.exists_of_findSome?_eq_some hx
  obtain ⟨bs, cs, hbs, -⟩ := List.lookup_eq_some_iff.1 hx
  exact h frame hf (name, x) (by simp [hbs])

end Mark

namespace Program

variable {p : Program}

theorem ExprIs.follows {x : Expr} {m m' : Mark} {e : ExprId} (h : p.ExprIs x m m' e) :
    m.Follows m' := by
  obtain ⟨-, rfl, -⟩ := h
  exact m.follows_addExpr

/-! ### The order of marks -/

mutual

theorem exprAt_follows {scope : ScopeId} : ∀ {src : Source.Expr} {m m' : Mark} {e : ExprId},
    p.ExprAt scope src m m' e → m.Follows m'
  | .scalar _, _, _, _, h => ExprIs.follows h
  | .var _, _, _, _, ⟨_, _, h⟩ => h.follows
  | .declare name, m, _, _, h => (m.follows_declare name).trans (ExprIs.follows h)
  | .assign .., _, _, _, ⟨_, _, _, _, hv, h⟩ => (exprAt_follows hv).trans h.follows
  | .name _, _, _, _, h => ExprIs.follows h
  | .function _, _, _, _, ⟨_, _, h⟩ => h.follows
  | .call .., _, _, _, ⟨_, _, _, _, hc, has, h⟩ =>
    (exprAt_follows hc).trans ((exprsAt_follows has).trans h.follows)
  | .choose .., _, _, _, ⟨_, _, _, _, _, _, hc, ht, hf, h⟩ =>
    (exprAt_follows hc).trans ((exprAt_follows ht).trans ((exprAt_follows hf).trans h.follows))
  | .closure params _, m, _, _, ⟨_, _, hbody, h⟩ => by
    have hparams := (m.follows_enter).trans ((m.enter []).follows_declareAll params)
    have hinner := hparams.trans ((Mark.follows_enter _).trans (seqAt_follows hbody))
    exact hinner.leave.trans h.follows

theorem exprsAt_follows {scope : ScopeId} : ∀ {es : List Source.Expr} {m m' : Mark}
    {ids : List ExprId}, p.ExprsAt scope es m m' ids → m.Follows m'
  | [], _, _, _, ⟨rfl, _⟩ => .refl _
  | _ :: _, _, _, _, ⟨_, _, _, he, hes, _⟩ => (exprAt_follows he).trans (exprsAt_follows hes)

/-- A statement itself comes before all that is placed for it. -/
theorem stmtAt_follows {parent : Option StmtId} {scope : ScopeId} : ∀ {s : Source.Stmt}
    {next : Option StmtId} {m m' : Mark}, p.StmtAt parent scope s next m m' →
      m.addStmt.Follows m'
  | .expr _, _, _, _, ⟨_, hx, _⟩ => exprAt_follows hx
  | .block _, _, m, _, ⟨_, _, hbody, rfl, _⟩ =>
    ((m.addStmt.follows_enter).trans (seqAt_follows hbody)).leave
  | .loop .., _, _, _, ⟨_, _, _, _, hc, hbody, rfl, _⟩ =>
    (exprAt_follows hc).trans ((Mark.follows_enter _).trans (seqAt_follows hbody)).leave
  | .forall indices .., _, _, _, ⟨m₁, _, _, _, his, hbody, rfl, _⟩ => by
    have hindices := (m₁.follows_enter).trans ((m₁.enter []).follows_declareAll indices)
    have hinner := hindices.trans ((Mark.follows_enter _).trans (seqAt_follows hbody))
    exact (exprsAt_follows his).trans hinner.leave
  | .branch .., _, _, _, ⟨m₁, m₂, _, _, _, _, hc, ht, hf, rfl, _⟩ => by
    have hthen : m₁.Follows (m₂.leave m₁) :=
      ((m₁.follows_enter).trans (seqAt_follows ht)).leave
    have helse := hthen.trans ((Mark.follows_enter _).trans (seqAt_follows hf))
    exact (exprAt_follows hc).trans helse.leave
  | .select .., _, _, _, ⟨_, _, _, hc, harms, _⟩ =>
    (exprAt_follows hc).trans (armsAt_follows harms)
  | .return none, _, _, _, ⟨rfl, _⟩ => .refl _
  | .return (some _), _, _, _, ⟨_, hv, _⟩ => exprAt_follows hv
  | .label _, _, _, _, ⟨rfl, _⟩ => .refl _
  | .goto _, _, _, _, ⟨_, rfl, _⟩ => .refl _

theorem seqAt_follows {parent : Option StmtId} {scope : ScopeId} : ∀ {ss : List Source.Stmt}
    {m m' : Mark} {first : Option StmtId}, p.SeqAt parent scope ss m m' first → m.Follows m'
  | [], _, _, _, ⟨rfl, _⟩ => .refl _
  | _ :: _, m, _, _, ⟨_, _, hs, hss, _⟩ =>
    (m.follows_addStmt).trans ((stmtAt_follows hs).trans (seqAt_follows hss))

/-- An arm itself comes before all that is placed for it. -/
theorem armAt_follows {select : StmtId} {scope : ScopeId} : ∀ {a : Source.Arm}
    {next : Option StmtId} {m m' : Mark}, p.ArmAt select scope a next m m' →
      m.addStmt.Follows m'
  | .mk .., _, _, _, ⟨_, _, _, _, hcs, hbody, rfl, _⟩ =>
    (exprsAt_follows hcs).trans ((Mark.follows_enter _).trans (seqAt_follows hbody)).leave

theorem armsAt_follows {select : StmtId} {scope : ScopeId} : ∀ {as : List Source.Arm}
    {m m' : Mark} {first : Option StmtId}, p.ArmsAt select scope as m m' first → m.Follows m'
  | [], _, _, _, ⟨rfl, _⟩ => .refl _
  | _ :: _, m, _, _, ⟨_, _, ha, has, _⟩ =>
    (m.follows_addStmt).trans ((armAt_follows ha).trans (armsAt_follows has))

end

/-! ### Subexpressions -/

/-- An expression exists, is the last one before a mark, and all that is evaluated for it comes
after an earlier mark. -/
structure EndsWith (p : Program) (m m' : Mark) (e : ExprId) : Prop where
  from_start : p.From m.exprs e
  last : e.index + 1 = m'.exprs
  exists_expr : ∃ x, p.expr? e = some x

/-- An expression ends what is placed for it if its parts have been placed there. -/
theorem ExprIs.endsWith {x : Expr} {m₀ m m' : Mark} {e : ExprId} (h : p.ExprIs x m m' e)
    (hm : m₀.Follows m) (hparts : ∀ c ∈ x.parts, p.From m₀.exprs c) : p.EndsWith m₀ m' e := by
  obtain ⟨rfl, rfl, hx⟩ := h
  refine ⟨.mk hm.exprs fun y hy => ?_, rfl, x, hx⟩
  rw [hx] at hy
  cases hy
  exact hparts

mutual

theorem exprAt_endsWith {scope : ScopeId} : ∀ {src : Source.Expr} {m m' : Mark} {e : ExprId},
    p.ExprAt scope src m m' e → p.EndsWith m m' e
  | .scalar _, _, _, _, h => ExprIs.endsWith h (.refl _) nofun
  | .var _, _, _, _, ⟨_, _, h⟩ => h.endsWith (.refl _) nofun
  | .declare name, m, _, _, h => ExprIs.endsWith h (m.follows_declare name) nofun
  | .assign .., _, _, _, ⟨_, _, _, _, hv, h⟩ => by
    refine h.endsWith (exprAt_follows hv) fun c hc => ?_
    rw [List.mem_singleton.1 hc]
    exact (exprAt_endsWith hv).from_start
  | .name _, _, _, _, h => ExprIs.endsWith h (.refl _) nofun
  | .function _, _, _, _, ⟨_, _, h⟩ => h.endsWith (.refl _) nofun
  | .call .., _, _, _, ⟨_, _, _, _, hc, has, h⟩ => by
    refine h.endsWith ((exprAt_follows hc).trans (exprsAt_follows has)) fun c hmem => ?_
    rcases List.mem_cons.1 hmem with rfl | hmem
    · exact (exprAt_endsWith hc).from_start
    · exact ((exprsAt_from has).1 c hmem).mono (exprAt_follows hc).exprs
  | .choose .., _, _, _, ⟨_, _, _, _, _, _, hc, ht, hf, h⟩ => by
    have h₁ := exprAt_follows hc
    have h₂ := h₁.trans (exprAt_follows ht)
    refine h.endsWith (h₂.trans (exprAt_follows hf)) fun c hmem => ?_
    simp only [Expr.parts, List.mem_cons, List.not_mem_nil, or_false] at hmem
    rcases hmem with rfl | rfl | rfl
    · exact (exprAt_endsWith hc).from_start
    · exact (exprAt_endsWith ht).from_start.mono h₁.exprs
    · exact (exprAt_endsWith hf).from_start.mono h₂.exprs
  | .closure params _, m, _, _, ⟨_, _, hbody, h⟩ => by
    have hparams := (m.follows_enter).trans ((m.enter []).follows_declareAll params)
    have hinner := hparams.trans ((Mark.follows_enter _).trans (seqAt_follows hbody))
    exact h.endsWith hinner.leave nofun

theorem exprsAt_from {scope : ScopeId} : ∀ {es : List Source.Expr} {m m' : Mark}
    {ids : List ExprId}, p.ExprsAt scope es m m' ids →
      (∀ e ∈ ids, p.From m.exprs e) ∧ ∀ e ∈ ids, e.index < m'.exprs ∧ ∃ x, p.expr? e = some x
  | [], _, _, _, ⟨rfl, rfl⟩ => ⟨nofun, nofun⟩
  | _ :: _, _, _, _, ⟨m₁, i, is, he, hes, rfl⟩ => by
    have hi := exprAt_endsWith he
    have his := exprsAt_from hes
    refine ⟨fun e hmem => ?_, fun e hmem => ?_⟩
    · rcases List.mem_cons.1 hmem with rfl | hmem
      · exact hi.from_start
      · exact (his.1 e hmem).mono (exprAt_follows he).exprs
    · rcases List.mem_cons.1 hmem with rfl | hmem
      · have hlast := hi.last
        have hle := (exprsAt_follows hes).exprs
        exact ⟨by omega, hi.exists_expr⟩
      · exact his.2 e hmem

end

end Program

end TreeMachine
