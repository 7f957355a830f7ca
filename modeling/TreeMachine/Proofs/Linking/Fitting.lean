import TreeMachine.Proofs.Linking.Marks

/-!
# What is placed fits

The statements and expressions that a definition was given fit into the program, if they are placed
in it and if what is around the definition does: the scope exists, the variables in scope have been
declared, and the expressions of the statements around it come before (`Program.Around`). The main
result for a sequence is `Program.seqAt_fits`.

To fit is what well-formedness asks of a node. It is shown of all nodes between two marks at once
(`Program.FitsBetween`), so that parts can be put together. For a node itself it is a matter of
looking at its parts: the parts of an expression end before it, a successor is the first statement
behind the mark, and the first statement of a sequence has the statement around it as its parent
(`Program.HeadFits`).

The conditions that reach further than one node are on expressions of statements around others,
which have to have smaller numbers. They are handed down from statement to statement
(`Program.StmtIs.around`). Jumps are left out, since their targets are not fixed by the marks; they
are shown to fit when a body is complete.
-/

namespace TreeMachine

namespace Program

variable {p : Program}

/-! ### Nodes between marks -/

/-- The statements and expressions between two marks fit into the program. -/
structure FitsBetween (p : Program) (m m' : Mark) : Prop where
  stmts : ∀ i s, m.stmts ≤ i.index → i.index < m'.stmts → p.stmt? i = some s → p.StmtFits i s
  exprs : ∀ e x, m.exprs ≤ e.index → e.index < m'.exprs → p.expr? e = some x → p.ExprFits e x

theorem FitsBetween.refl (m : Mark) : p.FitsBetween m m :=
  ⟨fun _ _ h h' => absurd h' (Nat.not_lt.2 h), fun _ _ h h' => absurd h' (Nat.not_lt.2 h)⟩

theorem FitsBetween.trans {m m' m'' : Mark} (h : p.FitsBetween m m') (h' : p.FitsBetween m' m'') :
    p.FitsBetween m m'' := by
  refine ⟨fun i s hi hi' hs => ?_, fun e x he he' hx => ?_⟩
  · by_cases hlt : i.index < m'.stmts
    · exact h.stmts i s hi hlt hs
    · exact h'.stmts i s (Nat.le_of_not_lt hlt) hi' hs
  · by_cases hlt : e.index < m'.exprs
    · exact h.exprs e x he hlt hx
    · exact h'.exprs e x (Nat.le_of_not_lt hlt) he' hx

/-- Frames of variables do not matter. -/
theorem FitsBetween.leave {m m' outer : Mark} (h : p.FitsBetween m m') :
    p.FitsBetween m (m'.leave outer) :=
  ⟨h.stmts, h.exprs⟩

theorem FitsBetween.enter {m m' : Mark} {frame : List (String × VarId)}
    (h : p.FitsBetween (m.enter frame) m') : p.FitsBetween m m' :=
  ⟨h.stmts, h.exprs⟩

theorem FitsBetween.declareAll {m m' : Mark} {names : List String}
    (h : p.FitsBetween (m.declareAll names).1 m') : p.FitsBetween m m' := by
  induction names generalizing m with
  | nil => exact h
  | cons name names ih =>
    have h' : p.FitsBetween (m.declare name) m' := ih h
    exact ⟨h'.stmts, h'.exprs⟩

theorem ExprIs.fitsBetween {x : Expr} {m m' : Mark} {e : ExprId} (h : p.ExprIs x m m' e)
    (hx : p.ExprFits e x) : p.FitsBetween m m' := by
  obtain ⟨rfl, rfl, hx'⟩ := h
  refine ⟨fun i s hi hi' _ => absurd hi' (Nat.not_lt.2 hi), fun e y he he' hy => ?_⟩
  obtain ⟨e⟩ := e
  obtain rfl : e = m.exprs := Nat.le_antisymm (Nat.le_of_lt_succ he') he
  rw [show p.expr? ⟨m.exprs⟩ = some x from hx'] at hy
  cases hy
  exact hx

theorem StmtIs.fitsBetween {kind : StmtKind} {next parent : Option StmtId} {scope : ScopeId}
    {m : Mark} (h : p.StmtIs kind next parent scope m)
    (hs : p.StmtFits m.stmtId ⟨kind, next, parent, scope⟩) : p.FitsBetween m m.addStmt := by
  refine ⟨fun i s hi hi' hs' => ?_, fun _ _ he he' _ => absurd he' (Nat.not_lt.2 he)⟩
  obtain ⟨i⟩ := i
  obtain rfl : i = m.stmts := Nat.le_antisymm (Nat.le_of_lt_succ hi') hi
  rw [show p.stmt? ⟨m.stmts⟩ = _ from h] at hs'
  cases hs'
  exact hs

/-! ### Around a sequence -/

/-- The statements around a sequence come before it, and so do their expressions. The innermost one
is a select just when the sequence is one of arms. -/
structure Around (p : Program) (isArm : Bool) (parent : Option StmtId) (m : Mark) : Prop where
  select : ∀ q s, parent = some q → p.stmt? q = some s → s.kind.isSelect = isArm
  lt : ∀ q, parent = some q → q.index < m.stmts
  exprs : ∀ q r s, parent = some r → (q = r ∨ p.Encloses q r) → p.stmt? q = some s →
    ∀ e ∈ s.kind.exprs, e.index < m.exprs

theorem around_none (isArm : Bool) (m : Mark) : p.Around isArm none m :=
  ⟨nofun, nofun, nofun⟩

theorem Around.mono {isArm : Bool} {parent : Option StmtId} {m m' : Mark}
    (h : p.Around isArm parent m) (hm : m.Follows m') : p.Around isArm parent m' :=
  ⟨h.select, fun q hq => Nat.lt_of_lt_of_le (h.lt q hq) hm.stmts,
    fun q r s hr hq hs e he => Nat.lt_of_lt_of_le (h.exprs q r s hr hq hs e he) hm.exprs⟩

/-- Inside a statement, after its own expressions. -/
theorem StmtIs.around {kind : StmtKind} {next parent : Option StmtId} {scope : ScopeId}
    {m m' : Mark} (h : p.StmtIs kind next parent scope m)
    (hparent : p.Around kind.isArm parent m) (hm : m.addStmt.Follows m')
    (hexprs : ∀ e ∈ kind.exprs, e.index < m'.exprs) :
    p.Around kind.isSelect (some m.stmtId) m' := by
  have hp : p.parent? m.stmtId = parent := Program.parent?_eq h
  refine ⟨fun q s hq hs => ?_, fun q hq => ?_, fun q r s hr hq hs e he => ?_⟩
  · cases hq
    rw [h] at hs
    cases hs
    rfl
  · cases hq
    exact hm.stmts
  · cases hr
    rcases hq with rfl | hq
    · rw [h] at hs
      cases hs
      exact hexprs e he
    -- What encloses the statement comes before it, and so do its expressions.
    · have houter : ∀ r, p.parent? m.stmtId = some r → (q = r ∨ p.Encloses q r) →
          e.index < m'.exprs := fun r hr hq =>
        Nat.lt_of_lt_of_le (hparent.exprs q r s (hp ▸ hr) hq hs e he) hm.exprs
      cases hq with
      | direct hr => exact houter q hr (.inl rfl)
      | outer hr hq => exact houter _ hr (.inr hq)

/-- A sequence begins with a statement of the given place. -/
def HeadFits (p : Program) (parent : Option StmtId) (scope : ScopeId) (isArm : Bool)
    (first : Option StmtId) : Prop :=
  ∀ c, first = some c → ∃ s, p.stmt? c = some s ∧ s.parent = parent ∧ s.scope = scope ∧
    s.kind.isArm = isArm

/-- The kind of a statement that was placed, and that it is no arm. -/
theorem stmtAt_head {parent : Option StmtId} {scope : ScopeId} {s : Source.Stmt}
    {next : Option StmtId} {m m' : Mark} (h : p.StmtAt parent scope s next m m') :
    ∃ kind, p.StmtIs kind next parent scope m ∧ kind.isArm = false := by
  cases s with
  | expr e => obtain ⟨_, _, h⟩ := h; exact ⟨_, h, rfl⟩
  | block body => obtain ⟨_, _, _, _, h⟩ := h; exact ⟨_, h, rfl⟩
  | loop cond body testLast => obtain ⟨_, _, _, _, _, _, _, h⟩ := h; exact ⟨_, h, rfl⟩
  | «forall» indices iterators body => obtain ⟨_, _, _, _, _, _, _, h⟩ := h; exact ⟨_, h, rfl⟩
  | branch cond thenBody elseBody =>
    obtain ⟨_, _, _, _, _, _, _, _, _, _, h⟩ := h
    exact ⟨_, h, rfl⟩
  | select selector arms => obtain ⟨_, _, _, _, _, h⟩ := h; exact ⟨_, h, rfl⟩
  | «return» value =>
    cases value with
    | none => obtain ⟨_, h⟩ := h; exact ⟨_, h, rfl⟩
    | some value => obtain ⟨_, _, h⟩ := h; exact ⟨_, h, rfl⟩
  | label name => obtain ⟨_, h⟩ := h; exact ⟨_, h, rfl⟩
  | goto label => obtain ⟨_, _, h⟩ := h; exact ⟨_, h, rfl⟩

theorem seqAt_head {parent : Option StmtId} {scope : ScopeId} {ss : List Source.Stmt} {m m' : Mark}
    {first : Option StmtId} (h : p.SeqAt parent scope ss m m' first) :
    p.HeadFits parent scope false first := by
  cases ss with
  | nil => obtain ⟨-, rfl⟩ := h; exact nofun
  | cons s ss =>
    obtain ⟨_, _, hs, -, rfl⟩ := h
    obtain ⟨kind, hs, harm⟩ := stmtAt_head hs
    intro c hc
    cases hc
    exact ⟨_, hs, rfl, rfl, harm⟩

theorem armsAt_head {select : StmtId} {scope : ScopeId} {as : List Source.Arm} {m m' : Mark}
    {first : Option StmtId} (h : p.ArmsAt select scope as m m' first) :
    p.HeadFits (some select) scope true first := by
  cases as with
  | nil => obtain ⟨-, rfl⟩ := h; exact nofun
  | cons a as =>
    obtain ⟨_, _, ha, -, rfl⟩ := h
    cases a with
    | mk cases body =>
      obtain ⟨_, _, _, _, _, _, _, h⟩ := ha
      intro c hc
      cases hc
      exact ⟨_, h, rfl, rfl, rfl⟩

/-- What comes after a statement in its sequence begins later. -/
theorem seqAt_first_lt {parent : Option StmtId} {scope : ScopeId} {ss : List Source.Stmt}
    {m m' : Mark} {first : Option StmtId} (h : p.SeqAt parent scope ss m m' first) {n : Nat}
    (hn : n < m.stmts) : ∀ t, first = some t → n < t.index := by
  cases ss with
  | nil => obtain ⟨-, rfl⟩ := h; exact nofun
  | cons s ss =>
    obtain ⟨_, _, -, -, rfl⟩ := h
    rintro t ⟨⟩
    exact hn

theorem armsAt_first_lt {select : StmtId} {scope : ScopeId} {as : List Source.Arm}
    {m m' : Mark} {first : Option StmtId} (h : p.ArmsAt select scope as m m' first) {n : Nat}
    (hn : n < m.stmts) : ∀ t, first = some t → n < t.index := by
  cases as with
  | nil => obtain ⟨-, rfl⟩ := h; exact nofun
  | cons a as =>
    obtain ⟨_, _, -, -, rfl⟩ := h
    rintro t ⟨⟩
    exact hn

/-- The expressions of a statement are found, after a mark. -/
def ExprsFit (p : Program) (m m' : Mark) (es : List ExprId) : Prop :=
  (∀ e ∈ es, p.From m.exprs e) ∧ ∀ e ∈ es, e.index < m'.exprs ∧ ∃ x, p.expr? e = some x

theorem EndsWith.exprsFit {m m' : Mark} {e : ExprId} (h : p.EndsWith m m' e) :
    p.ExprsFit m m' [e] := by
  refine ⟨fun e' he => ?_, fun e' he => ?_⟩
  · rw [List.mem_singleton.1 he]
    exact h.from_start
  · rw [List.mem_singleton.1 he]
    have hlast := h.last
    exact ⟨by omega, h.exists_expr⟩

theorem exprsFit_nil (m m' : Mark) : p.ExprsFit m m' [] :=
  ⟨List.forall_mem_nil _, List.forall_mem_nil _⟩

/-- What comes after a statement in its sequence. -/
def NextFits (p : Program) (parent : Option StmtId) (scope : ScopeId) (isArm : Bool) (m : Mark)
    (next : Option StmtId) : Prop :=
  (∀ t, next = some t → m.stmts < t.index) ∧ p.HeadFits parent scope isArm next

/-- **A statement fits** if its parts do. -/
theorem StmtIs.fits {kind : StmtKind} {next parent : Option StmtId} {scope : ScopeId}
    {m m' : Mark} (h : p.StmtIs kind next parent scope m) (hscope : scope.index < p.scopes.size)
    (hexprs : p.ExprsFit m m' kind.exprs) (hvars : ∀ x ∈ kind.vars, x.index < p.vars.size)
    (hparent : p.Around kind.isArm parent m) (hnext : p.NextFits parent scope kind.isArm m next)
    (hchildren : ∀ c ∈ kind.children,
      p.HeadFits (some m.stmtId) scope kind.isSelect (some c))
    (harm : kind.isArm = true → ∃ q s', parent = some q ∧ p.stmt? q = some s' ∧
      s'.kind.isSelect = true) : p.FitsBetween m m.addStmt := by
  refine h.fitsBetween ⟨hscope, fun e he => (hexprs.2 e he).2, hvars, hparent.lt, fun t ht => ?_,
    fun c hc => hchildren c hc c rfl, harm, hparent.select, fun q s' hq hs' e' he' e he => ?_⟩
  · obtain ⟨s', hs', hp, hsc, ha⟩ := hnext.2 t ht
    exact ⟨hnext.1 t ht, s', hs', hp, hsc, ha⟩
  · have hp : p.parent? m.stmtId = parent := Program.parent?_eq h
    have hlt : e'.index < m.exprs := by
      cases hq with
      | direct hr => exact hparent.exprs q q s' (hp ▸ hr) (.inl rfl) hs' e' he'
      | outer hr hq => exact hparent.exprs q _ s' (hp ▸ hr) (.inr hq) hs' e' he'
    exact (hexprs.1 e he).mono hlt

/-! ### Definitions -/

theorem headFits_of_mem {first : Option StmtId} {parent : Option StmtId} {scope : ScopeId}
    {isArm : Bool} (h : p.HeadFits parent scope isArm first) :
    ∀ c ∈ first.toList, p.HeadFits parent scope isArm (some c) := by
  intro c hc t ht
  cases ht
  exact h c (Option.mem_toList.1 hc)

theorem HeadFits.bodyFits {scope : ScopeId} {first : Option StmtId}
    (h : p.HeadFits none scope false first) : p.BodyFits first := by
  intro c hc
  obtain ⟨s, hs, hp, -, ha⟩ := h c hc
  exact ⟨s, hs, hp, ha⟩

mutual

/-- The nodes of an expression fit. -/
theorem exprAt_fits {scope : ScopeId} (hscope : scope.index < p.scopes.size) :
    ∀ {src : Source.Expr} {m m' : Mark} {e : ExprId}, p.ExprAt scope src m m' e → m.Fits →
      m'.vars ≤ p.vars.size → p.FitsBetween m m'
  | .scalar _, _, _, _, h, _, _ => ExprIs.fitsBetween h ⟨nofun, nofun, nofun, nofun⟩
  | .var _, _, _, _, ⟨x, hx, h⟩, hm, hv => by
    refine h.fitsBetween ⟨nofun, fun y hy => ?_, nofun, nofun⟩
    rw [List.mem_singleton.1 hy]
    exact Nat.lt_of_lt_of_le (Mark.lt_of_lookup? hm hx) (Nat.le_trans h.follows.vars hv)
  | .declare name, m, m', _, h, _, hv => by
    have hd : p.FitsBetween (m.declare name) m' := by
      refine ExprIs.fitsBetween h ⟨nofun, fun y hy => ?_, nofun, nofun⟩
      rw [List.mem_singleton.1 hy]
      exact Nat.lt_of_lt_of_le (Nat.lt_succ_self m.vars)
        (Nat.le_trans (ExprIs.follows h).vars hv)
    exact ⟨hd.stmts, hd.exprs⟩
  | .assign .., _, _, _, ⟨x, _, v, hx, hvalue, h⟩, hm, hv => by
    have hle := Nat.le_trans h.follows.vars hv
    have hlast := (exprAt_endsWith hvalue).last
    refine (exprAt_fits hscope hvalue hm hle).trans
      (h.fitsBetween ⟨fun c hc => ?_, fun y hy => ?_, nofun, nofun⟩)
    · rw [List.mem_singleton.1 hc, h.1]
      exact Nat.lt_of_succ_le (Nat.le_of_eq hlast)
    · rw [List.mem_singleton.1 hy]
      exact Nat.lt_of_lt_of_le (Mark.lt_of_lookup? hm hx)
        (Nat.le_trans (exprAt_follows hvalue).vars hle)
  | .name _, _, _, _, h, _, _ => ExprIs.fitsBetween h ⟨nofun, nofun, nofun, nofun⟩
  | .function _, _, _, _, ⟨f, ⟨_, hf, _⟩, h⟩, _, _ => by
    refine h.fitsBetween ⟨nofun, nofun, fun g hg => ?_, nofun⟩
    cases hg
    exact (Array.getElem?_eq_some_iff.1 hf).1
  | .call .., _, _, _, ⟨m₁, m₂, c, as, hc, has, h⟩, hm, hv => by
    have hle := Nat.le_trans h.follows.vars hv
    have hlast := (exprAt_endsWith hc).last
    have hargs := (exprsAt_from has).2
    refine (exprAt_fits hscope hc hm (Nat.le_trans (exprsAt_follows has).vars hle)).trans
      ((exprsAt_fits hscope has ((exprAt_follows hc).fits hm) hle).trans
        (h.fitsBetween ⟨fun x hx => ?_, nofun, nofun, nofun⟩))
    rw [h.1]
    rcases List.mem_cons.1 hx with rfl | hx
    · exact Nat.lt_of_lt_of_le (Nat.lt_of_succ_le (Nat.le_of_eq hlast)) (exprsAt_follows has).exprs
    · exact (hargs x hx).1
  | .choose .., _, _, _, ⟨m₁, m₂, m₃, c, t, f, hc, ht, hf, h⟩, hm, hv => by
    have hle := Nat.le_trans h.follows.vars hv
    have hle₂ := Nat.le_trans (exprAt_follows hf).vars hle
    have hle₁ := Nat.le_trans (exprAt_follows ht).vars hle₂
    have hm₁ := (exprAt_follows hc).fits hm
    have hm₂ := (exprAt_follows ht).fits hm₁
    refine (exprAt_fits hscope hc hm hle₁).trans ((exprAt_fits hscope ht hm₁ hle₂).trans
      ((exprAt_fits hscope hf hm₂ hle).trans
        (h.fitsBetween ⟨fun x hx => ?_, nofun, nofun, nofun⟩)))
    have hc' := (exprAt_endsWith hc).last
    have ht' := (exprAt_endsWith ht).last
    have hf' := (exprAt_endsWith hf).last
    have hle₁ := (exprAt_follows ht).exprs
    have hle₂ := (exprAt_follows hf).exprs
    have hid : (Mark.exprId m₃).index = m₃.exprs := rfl
    rw [h.1, hid]
    simp only [Expr.parts, List.mem_cons, List.not_mem_nil, or_false] at hx
    rcases hx with rfl | rfl | rfl <;> omega
  | .closure params _, m, _, _, ⟨m₁, first, hbody, h⟩, hm, hv => by
    have hle : m₁.vars ≤ p.vars.size := Nat.le_trans h.follows.vars hv
    have hparams := (m.follows_enter).trans ((m.enter []).follows_declareAll params)
    have hinner := hparams.trans (Mark.follows_enter _)
    have hseq := seqAt_fits hscope hbody (around_none false _) (hinner.fits hm) hle
    refine (hseq.enter.declareAll.enter.leave).trans
      (h.fitsBetween ⟨nofun, fun y hy => ?_, nofun, fun _ _ hx => ?_⟩)
    · exact Nat.lt_of_lt_of_le (Mark.lt_of_mem_declareAll hy)
        (Nat.le_trans ((Mark.follows_enter _).trans (seqAt_follows hbody)).vars hle)
    · cases hx
      exact (seqAt_head hbody).bodyFits

theorem exprsAt_fits {scope : ScopeId} (hscope : scope.index < p.scopes.size) :
    ∀ {es : List Source.Expr} {m m' : Mark} {ids : List ExprId}, p.ExprsAt scope es m m' ids →
      m.Fits → m'.vars ≤ p.vars.size → p.FitsBetween m m'
  | [], _, _, _, ⟨rfl, _⟩, _, _ => .refl _
  | _ :: _, _, _, _, ⟨_, _, _, he, hes, _⟩, hm, hv =>
    (exprAt_fits hscope he hm (Nat.le_trans (exprsAt_follows hes).vars hv)).trans
      (exprsAt_fits hscope hes ((exprAt_follows he).fits hm) hv)

/-- A statement and the nodes in it fit. -/
theorem stmtAt_fits {scope : ScopeId} (hscope : scope.index < p.scopes.size) :
    ∀ {s : Source.Stmt} {parent next : Option StmtId} {m m' : Mark},
      p.StmtAt parent scope s next m m' → p.NextFits parent scope false m next →
      p.Around false parent m → m.Fits → m'.vars ≤ p.vars.size → p.FitsBetween m m'
  | .expr _, _, _, _, _, ⟨x, hx, h⟩, hnext, ha, hm, hv =>
    (h.fits hscope (exprAt_endsWith hx).exprsFit nofun ha hnext nofun nofun).trans
      (exprAt_fits hscope hx hm hv)
  | .block _, _, _, m, _, ⟨_, _, hbody, rfl, h⟩, hnext, ha, hm, hv => by
    have hin := h.around ha (m.addStmt.follows_enter) nofun
    have hseq := seqAt_fits hscope hbody hin ((m.addStmt.follows_enter).fits hm) hv
    exact (h.fits hscope (exprsFit_nil m m) nofun ha hnext (headFits_of_mem (seqAt_head hbody))
      nofun).trans hseq.enter.leave
  | .loop .., _, _, m, _, ⟨m₁, _, _, _, hc, hbody, rfl, h⟩, hnext, ha, hm, hv => by
    have hcond := (exprAt_endsWith hc).exprsFit
    have hfollows := (exprAt_follows hc).trans m₁.follows_enter
    have hin := h.around ha hfollows fun e he => (hcond.2 e he).1
    have hseq := seqAt_fits hscope hbody hin (hfollows.fits hm) hv
    have hle := ((m₁.follows_enter).trans (seqAt_follows hbody)).vars
    exact (h.fits hscope hcond nofun ha hnext (headFits_of_mem (seqAt_head hbody)) nofun).trans
      ((exprAt_fits hscope hc hm (Nat.le_trans hle hv)).trans hseq.enter.leave)
  | .forall indices .., _, _, m, _, ⟨m₁, _, _, _, his, hbody, rfl, h⟩, hnext, ha, hm, hv => by
    have hiterators := exprsAt_from his
    have hvars := (m₁.follows_enter).trans ((m₁.enter []).follows_declareAll indices)
    have hfollows := (exprsAt_follows his).trans (hvars.trans (Mark.follows_enter _))
    have hin := h.around ha hfollows fun e he =>
      Nat.lt_of_lt_of_le (hiterators.2 e he).1 (hvars.trans (Mark.follows_enter _)).exprs
    have hseq := seqAt_fits hscope hbody hin (hfollows.fits hm) hv
    have hle := ((Mark.follows_enter _).trans (seqAt_follows hbody)).vars
    refine (h.fits hscope hiterators (fun x hx => ?_) ha hnext
      (headFits_of_mem (seqAt_head hbody)) nofun).trans
        ((exprsAt_fits hscope his hm (Nat.le_trans hvars.vars (Nat.le_trans hle hv))).trans
          hseq.enter.declareAll.enter.leave)
    exact Nat.lt_of_lt_of_le (Mark.lt_of_mem_declareAll hx) (Nat.le_trans hle hv)
  | .branch .., _, _, m, _, ⟨m₁, m₂, _, c, _, _, hc, ht, hf, rfl, h⟩, hnext, ha, hm, hv => by
    have hcond := (exprAt_endsWith hc).exprsFit
    have hthen := (exprAt_follows hc).trans m₁.follows_enter
    have hback : m₁.Follows (m₂.leave m₁) := ((m₁.follows_enter).trans (seqAt_follows ht)).leave
    have helse := (exprAt_follows hc).trans (hback.trans (Mark.follows_enter _))
    have hlt : ∀ e ∈ [c], e.index < m₁.exprs := fun e he => (hcond.2 e he).1
    have hin := h.around ha hthen hlt
    have hin' := h.around ha helse fun e he => Nat.lt_of_lt_of_le (hlt e he) hback.exprs
    have hle := ((Mark.follows_enter (m₂.leave m₁)).trans (seqAt_follows hf)).vars
    have hle₂ : m₂.vars ≤ p.vars.size := Nat.le_trans hle hv
    have hle₁ : m₁.vars ≤ p.vars.size := Nat.le_trans hback.vars hle₂
    have hseq := seqAt_fits hscope ht hin (hthen.fits hm) hle₂
    have hseq' := seqAt_fits hscope hf hin' (helse.fits hm) hv
    refine (h.fits hscope hcond nofun ha hnext (fun c hmem => ?_) nofun).trans
      ((exprAt_fits hscope hc hm hle₁).trans (hseq.enter.leave.trans hseq'.enter.leave))
    rcases List.mem_append.1 hmem with hmem | hmem
    · exact headFits_of_mem (seqAt_head ht) c hmem
    · exact headFits_of_mem (seqAt_head hf) c hmem
  | .select .., _, _, m, _, ⟨m₁, _, _, hc, harms, h⟩, hnext, ha, hm, hv => by
    have hsel := (exprAt_endsWith hc).exprsFit
    have hin := h.around ha (exprAt_follows hc) fun e he => (hsel.2 e he).1
    have hseq := armsAt_fits hscope ⟨_, h, rfl⟩ harms hin ((exprAt_follows hc).fits hm) hv
    exact (h.fits hscope hsel nofun ha hnext (headFits_of_mem (armsAt_head harms)) nofun).trans
      ((exprAt_fits hscope hc hm (Nat.le_trans (armsAt_follows harms).vars hv)).trans hseq)
  | .return none, _, _, m, _, ⟨rfl, h⟩, hnext, ha, _, _ =>
    h.fits hscope (exprsFit_nil m m) nofun ha hnext nofun nofun
  | .return (some _), _, _, m, _, ⟨x, hx, h⟩, hnext, ha, hm, hv =>
    (h.fits hscope (exprAt_endsWith hx).exprsFit nofun ha hnext nofun nofun).trans
      (exprAt_fits hscope hx hm hv)
  | .label _, _, _, m, _, ⟨rfl, h⟩, hnext, ha, _, _ =>
    h.fits hscope (exprsFit_nil m m) nofun ha hnext nofun nofun
  | .goto _, _, _, m, _, ⟨_, rfl, h⟩, hnext, ha, _, _ =>
    h.fits hscope (exprsFit_nil m m) nofun ha hnext nofun nofun

/-- **The nodes of a sequence fit**, if what is around the sequence does. -/
theorem seqAt_fits {scope : ScopeId} (hscope : scope.index < p.scopes.size) :
    ∀ {ss : List Source.Stmt} {parent : Option StmtId} {m m' : Mark} {first : Option StmtId},
      p.SeqAt parent scope ss m m' first → p.Around false parent m → m.Fits →
      m'.vars ≤ p.vars.size → p.FitsBetween m m'
  | [], _, _, _, _, ⟨rfl, _⟩, _, _, _ => .refl _
  | _ :: _, _, m, _, _, ⟨_, _, hs, hss, _⟩, ha, hm, hv => by
    have hfollows := (m.follows_addStmt).trans (stmtAt_follows hs)
    have hnext : p.NextFits _ scope false m _ :=
      ⟨seqAt_first_lt hss (stmtAt_follows hs).stmts, seqAt_head hss⟩
    exact (stmtAt_fits hscope hs hnext ha hm (Nat.le_trans (seqAt_follows hss).vars hv)).trans
      (seqAt_fits hscope hss (ha.mono hfollows) (hfollows.fits hm) hv)

/-- An arm of a select and the nodes in it fit. -/
theorem armAt_fits {scope : ScopeId} (hscope : scope.index < p.scopes.size) {select : StmtId}
    (hselect : ∃ s, p.stmt? select = some s ∧ s.kind.isSelect = true) :
    ∀ {a : Source.Arm} {next : Option StmtId} {m m' : Mark}, p.ArmAt select scope a next m m' →
      p.NextFits (some select) scope true m next → p.Around true (some select) m → m.Fits →
      m'.vars ≤ p.vars.size → p.FitsBetween m m'
  | .mk .., _, m, _, ⟨m₁, _, _, _, hcs, hbody, rfl, h⟩, hnext, ha, hm, hv => by
    have hcases := exprsAt_from hcs
    have hfollows := (exprsAt_follows hcs).trans m₁.follows_enter
    have hin := h.around ha hfollows fun e he => (hcases.2 e he).1
    have hseq := seqAt_fits hscope hbody hin (hfollows.fits hm) hv
    have hle := ((m₁.follows_enter).trans (seqAt_follows hbody)).vars
    obtain ⟨s, hs, hkind⟩ := hselect
    exact (h.fits hscope hcases nofun ha hnext (headFits_of_mem (seqAt_head hbody))
      fun _ => ⟨select, s, rfl, hs, hkind⟩).trans
        ((exprsAt_fits hscope hcs hm (Nat.le_trans hle hv)).trans hseq.enter.leave)

theorem armsAt_fits {scope : ScopeId} (hscope : scope.index < p.scopes.size) {select : StmtId}
    (hselect : ∃ s, p.stmt? select = some s ∧ s.kind.isSelect = true) :
    ∀ {as : List Source.Arm} {m m' : Mark} {first : Option StmtId},
      p.ArmsAt select scope as m m' first → p.Around true (some select) m → m.Fits →
      m'.vars ≤ p.vars.size → p.FitsBetween m m'
  | [], _, _, _, ⟨rfl, _⟩, _, _, _ => .refl _
  | _ :: _, m, _, _, ⟨_, _, h, has, _⟩, ha, hm, hv => by
    have hfollows := (m.follows_addStmt).trans (armAt_follows h)
    have hnext : p.NextFits (some select) scope true m _ :=
      ⟨armsAt_first_lt has (armAt_follows h).stmts, armsAt_head has⟩
    exact (armAt_fits hscope hselect h hnext ha hm
      (Nat.le_trans (armsAt_follows has).vars hv)).trans
        (armsAt_fits hscope hselect has (ha.mono hfollows) (hfollows.fits hm) hv)

end

end Program

end TreeMachine
