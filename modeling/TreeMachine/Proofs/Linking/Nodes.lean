import TreeMachine.Proofs.Linking.Jumps

/-!
# Linking expressions and statements

Linking an expression puts its nodes between the mark before and the mark after, and so does linking
a statement or a sequence (`Link.expr_placed`, `Link.stmt_placed`, `Link.stmts_placed`). The
statements say where the nodes are in every program that keeps what was linked, so that nothing has
to be said again when the tables grow.

A statement is in the table before its parts are, with a kind and a successor that are still to be
set. So what is said about it comes in two steps. It is complete when its kind has been set
(`Link.completed_putKind`): then its nodes are where they belong in every program that keeps them
and in which the statement has a successor. The successor is set when the rest of the sequence has
been linked (`Link.completed_putNext`), and from then on only the target of a jump may change, which
is why a kind is kept up to that (`StmtKind.Kept`).

The induction is on the definition, and each case is the corresponding lemma of `Link.Gives`, the
induction hypotheses for the parts, and the equations for marks. Bodies of closures are linked in
the middle of an expression. Their labels and jumps are put aside for that time, and their jumps are
resolved at the end, which keeps the nodes in place (`Link.body_placed`).
-/

namespace TreeMachine

namespace Link

variable {l l' : Linker}

/-! ### Marks -/

theorem mark_pushExpr (l : Linker) (x : Expr) : (pushExpr l x).mark = l.mark.addExpr := by
  simp [Linker.mark, pushExpr, Mark.addExpr]

theorem mark_pushStmt (l : Linker) (parent : Option StmtId) (scope : ScopeId) :
    (pushStmt l parent scope).mark = l.mark.addStmt := by
  simp [Linker.mark, pushStmt, Mark.addStmt]

theorem mark_pushLocal (l : Linker) (name : String) :
    (pushLocal l name).mark = l.mark.declare name := by
  simp [Linker.mark, pushLocal, pushVar, Mark.declare]

theorem mark_putKind (l : Linker) (id : StmtId) (kind : StmtKind) :
    (putKind l id kind).mark = l.mark := by
  simp [Linker.mark, putKind]

theorem mark_putNext (l : Linker) (id : StmtId) (next : Option StmtId) :
    (putNext l id next).mark = l.mark := by
  simp [Linker.mark, putNext]

/-! ### Pieces -/

/-- An expression that was just added is found in every program that keeps it. -/
theorem exprIs_pushExpr {x : Expr} {lo : Nat} {p : Program}
    (hp : (pushExpr l x).program.Keeps lo p) :
    p.ExprIs x l.mark (pushExpr l x).mark l.mark.exprId :=
  ⟨rfl, mark_pushExpr l x, hp.exprs _ _ (by rw [expr?_pushExpr, if_pos rfl])⟩

/-- Variables that are declared in order have the ids of the mark. -/
theorem gives_mapM_declare {names : List String} {ids : List VarId}
    (h : (names.mapM declare).Gives l ids l') :
    ids = (l.mark.declareAll names).2 ∧ l'.mark = (l.mark.declareAll names).1 ∧
      Advances l l' := by
  induction names generalizing l ids with
  | nil =>
    obtain ⟨rfl, rfl⟩ := gives_pure.1 (show (pure [] : Link _).Gives l ids l' from h)
    exact ⟨rfl, rfl, .refl _⟩
  | cons name names ih =>
    simp only [List.mapM_cons, gives_bind, gives_declare, gives_pure] at h
    obtain ⟨_, _, ⟨rfl, rfl⟩, rest, l₁, hrest, rfl, rfl⟩ := h
    obtain ⟨rfl, hmark, hadv⟩ := ih hrest
    rw [mark_pushLocal] at hmark ⊢
    exact ⟨rfl, hmark, (advances_pushLocal l name).trans hadv⟩

/-- The statement at the mark before has its kind in the state after, without a successor yet, and
in every program that keeps it and what comes after it, with a successor, the nodes are where they
belong. -/
def Completed (l l' : Linker) (parent : Option StmtId) (scope : ScopeId)
    (At : Program → Option StmtId → Prop) : Prop :=
  ∃ kind, l'.program.stmt? l.mark.stmtId = some ⟨kind, none, parent, scope⟩ ∧
    ∀ p next kind', kind.Kept kind' →
      p.stmt? l.mark.stmtId = some ⟨kind', next, parent, scope⟩ →
      l'.program.Keeps (l.program.stmts.size + 1) p → At p next

theorem stmts_size_pushStmt (l : Linker) (parent : Option StmtId) (scope : ScopeId) :
    (pushStmt l parent scope).program.stmts.size = l.program.stmts.size + 1 := by
  simp [pushStmt]

/-- What is linked after a statement was added comes behind it. -/
theorem Advances.stmts_lt {parent : Option StmtId} {scope : ScopeId}
    (h : Advances (pushStmt l parent scope) l') :
    l.program.stmts.size + 1 ≤ l'.program.stmts.size := by
  rw [← stmts_size_pushStmt l parent scope]
  exact h.stmts_size

/-- A program that keeps what was linked in the end keeps what was linked before, from any later
statement on. -/
theorem Advances.keeps {l₁ l₂ : Linker} (h : Advances l₁ l₂) {lo lo' : Nat} {p : Program}
    (hp : l₂.program.Keeps lo p) (hlo : lo ≤ lo') : l₁.program.Keeps lo' p :=
  (h.1.keeps.mono (Nat.zero_le _)).trans (hp.mono hlo)

/-- A statement is complete when its kind is set. -/
theorem completed_putKind {l₁ : Linker} {parent : Option StmtId} {scope : ScopeId}
    {kind : StmtKind} {At : Program → Option StmtId → Prop}
    (h : Advances (pushStmt l parent scope) l₁) (hkind : kind.isGoto = false)
    (hat : ∀ p next, l₁.program.Keeps (l.program.stmts.size + 1) p →
      p.StmtIs kind next parent scope l.mark → At p next) :
    Advances l (putKind l₁ l.mark.stmtId kind) ∧
      Completed l (putKind l₁ l.mark.stmtId kind) parent scope At := by
  refine ⟨advances_putKind h hkind, kind, ?_, fun p next kind' hk hp hkeeps => ?_⟩
  · rw [stmt?_putKind, if_pos rfl, stmt?_of_advances h]
    rfl
  · rw [hk.eq hkind] at hp
    exact hat p next ((keeps_putKind l₁ l.mark.stmtId kind).trans hkeeps) hp

/-- A completed statement is where it belongs when its successor, the first statement of what was
linked after it, is set. -/
theorem completed_putNext {l₁ l₂ : Linker} {parent : Option StmtId} {scope : ScopeId}
    {At : Program → Option StmtId → Prop} (h₁ : Advances l l₁) (h : Completed l l₁ parent scope At)
    (h₂ : Advances l₁ l₂) (next : Option StmtId) :
    Advances l (putNext l₂ l.mark.stmtId next) ∧
      ∀ p, (putNext l₂ l.mark.stmtId next).program.Keeps l.program.stmts.size p →
        At p next ∧ l₂.program.Keeps l₁.program.stmts.size p := by
  refine ⟨advances_putNext (h₁.trans h₂) (Nat.le_refl _) next, fun p hp => ?_⟩
  obtain ⟨kind, hs, hat⟩ := h
  have hsize : l.program.stmts.size + 1 ≤ l₁.program.stmts.size :=
    Program.stmt?_isSome.1 ⟨_, hs⟩
  have hkeeps : l₂.program.Keeps (l.program.stmts.size + 1) p :=
    (keeps_putNext l₂ l.mark.stmtId next).trans (hp.mono (Nat.le_succ _))
  -- The kind may still change after this, as that of a jump does when it is resolved.
  obtain ⟨k, hk, hs₂⟩ := h₂.1.keeps.stmts _ _ (Nat.zero_le _) hs
  have hput : (putNext l₂ l.mark.stmtId next).program.stmt? l.mark.stmtId =
      some ⟨k, next, parent, scope⟩ := by
    rw [stmt?_putNext, if_pos rfl, hs₂]
    rfl
  obtain ⟨k', hk', hs'⟩ := hp.stmts _ _ (Nat.le_refl _) hput
  exact ⟨hat p next k' (hk.trans hk') hs' (h₂.keeps hkeeps (Nat.le_refl _)), hkeeps.mono hsize⟩

/-- A function that is visible under a name has the name. -/
theorem exists_of_mem_visible {p : Program} {scope : ScopeId} {name : String} {f : FnId}
    (h : f ∈ p.visible scope name) : ∃ g, p.function? f = some g ∧ g.name = name := by
  obtain ⟨s, -, hf⟩ := List.mem_flatMap.1 h
  rw [Program.named] at hf
  split at hf
  · obtain ⟨-, hf⟩ := List.mem_filter.1 hf
    obtain ⟨g, hg, hname⟩ := (Option.any_eq_true _ _).1 hf
    exact ⟨g, hg, beq_iff_eq.1 hname⟩
  · cases hf

theorem stmt?_putKind_pushStmt (l : Linker) (parent : Option StmtId) (scope : ScopeId)
    (kind : StmtKind) :
    (putKind (pushStmt l parent scope) l.mark.stmtId kind).program.stmt? l.mark.stmtId =
      some ⟨kind, none, parent, scope⟩ := by
  rw [stmt?_putKind, if_pos rfl, stmt?_of_advances (.refl _)]
  rfl

/-- A label is noted down with its statement. -/
theorem advances_declareLabel {id : StmtId} {name : String} {s : Stmt}
    (hs : l.program.stmt? id = some s) (hk : s.kind = .label name) :
    Advances l { l with labels := (name, id) :: l.labels } := by
  refine ⟨.refl _, fun outer h => ⟨fun b hb => ?_, h.jump, h.goto⟩⟩
  rcases List.mem_cons.1 hb with rfl | hb
  · exact ⟨s, hs, hk⟩
  · exact h.label b hb

/-- A jump is noted down with its statement, whose kind is set for the time being. -/
theorem advances_recordJump (l : Linker) (parent : Option StmtId) (scope : ScopeId)
    (label : String) :
    Advances l (putKind { pushStmt l parent scope with jumps := (l.mark.stmtId, label) :: l.jumps }
      l.mark.stmtId (.goto l.mark.stmtId)) := by
  have hpush := advances_pushStmt l parent scope
  have hid := stmt?_of_advances (.refl (pushStmt l parent scope))
  have hstmt : ∀ i, (putKind (pushStmt l parent scope) l.mark.stmtId
      (.goto l.mark.stmtId)).program.stmt? i =
      if i = l.mark.stmtId then some ⟨.goto l.mark.stmtId, none, parent, scope⟩
      else (pushStmt l parent scope).program.stmt? i := by
    intro i
    rw [stmt?_putKind]
    split
    · rename_i hi
      rw [hi, hid]
      rfl
    · rfl
  have hgrows : l.program.Grows (putKind (pushStmt l parent scope) l.mark.stmtId
      (.goto l.mark.stmtId)).program := by
    refine grows_of_new hpush (fun i hi => ?_) rfl
    rw [hstmt, if_neg]
    rintro rfl
    exact Nat.lt_irrefl _ hi
  refine ⟨hgrows, fun outer h => ⟨fun b hb => ?_, fun b hb => ?_, fun i s target hs hk => ?_⟩⟩
  · obtain ⟨s, hs, hk⟩ := h.label b hb
    obtain ⟨s', hs', -, hl, -⟩ := hgrows.keeps.places _ s hs
    exact ⟨s', hs', hl _ hk⟩
  · rcases List.mem_cons.1 hb with rfl | hb
    · exact ⟨_, (hstmt _).trans (if_pos rfl), rfl⟩
    · obtain ⟨s, hs, hk⟩ := h.jump b hb
      obtain ⟨s', hs', -, -, hg⟩ := hgrows.keeps.places _ s hs
      exact ⟨s', hs', hg hk⟩
  · have hs' := (hstmt i).symm.trans hs
    split at hs'
    · rename_i hi
      exact .inr (.inl ⟨_, List.mem_cons_self, hi.symm⟩)
    · rename_i hi
      rw [stmt?_pushStmt, if_neg hi] at hs'
      rcases h.goto i s target hs' hk with hfit | ⟨b, hb, rfl⟩ | hout
      · exact .inl (hgrows.keeps.places.gotoFits hfit)
      · exact .inr (.inl ⟨b, List.mem_cons_of_mem _ hb, rfl⟩)
      · exact .inr (.inr hout)

/-! ### Expressions, statements and sequences -/

mutual

/-- Linking an expression puts its nodes between the two marks. -/
theorem expr_placed (scope : ScopeId) : ∀ (src : Source.Expr) {l l' : Linker} {e : ExprId},
    (expr scope src).Gives l e l' → Advances l l' ∧ ∀ p,
      l'.program.Keeps l.program.stmts.size p → p.ExprAt scope src l.mark l'.mark e
  | .scalar s, l, l', e, h => by
    obtain ⟨rfl, rfl⟩ := gives_addExpr.1 h
    exact ⟨advances_pushExpr l _, fun p hp => exprIs_pushExpr hp⟩
  | .var name, l, l', e, h => by
    obtain ⟨x, hx, rfl, rfl⟩ := gives_var h
    exact ⟨advances_pushExpr _ _, fun p hp => ⟨x, hx, exprIs_pushExpr hp⟩⟩
  | .declare name, l, l', e, h => by
    obtain ⟨rfl, rfl⟩ := gives_declaration h
    refine ⟨(advances_pushLocal l name).trans (advances_pushExpr _ _), fun p hp => ?_⟩
    have hx := exprIs_pushExpr hp
    rw [mark_pushLocal] at hx ⊢
    exact hx
  | .assign name value, l, l', e, h => by
    obtain ⟨x, v, l₁, hx, hv, rfl, rfl⟩ := gives_assign h
    obtain ⟨hadv, hat⟩ := expr_placed scope value hv
    have hpush := advances_pushExpr l₁ (.assign x v)
    exact ⟨hadv.trans hpush, fun p hp => ⟨x, _, v, hx, hat p (hpush.keeps hp (Nat.le_refl _)),
      exprIs_pushExpr hp⟩⟩
  | .name name, l, l', e, h => by
    obtain ⟨rfl, rfl⟩ := gives_addExpr.1 h
    exact ⟨advances_pushExpr l _, fun p hp => exprIs_pushExpr hp⟩
  | .function name, l, l', e, h => by
    obtain ⟨f, hf, rfl, rfl⟩ := gives_reference h
    obtain ⟨g, hg, hname⟩ := exists_of_mem_visible (hf ▸ List.mem_singleton_self f)
    refine ⟨advances_pushExpr _ _, fun p hp => ⟨f, ?_, exprIs_pushExpr hp⟩⟩
    obtain ⟨body, hg'⟩ := hp.functions f g hg
    exact ⟨_, hg', hname⟩
  | .call callee args, l, l', e, h => by
    obtain ⟨c, l₁, as, l₂, hc, has, rfl, rfl⟩ := gives_call h
    obtain ⟨hadv₁, hat₁⟩ := expr_placed scope callee hc
    obtain ⟨hadv₂, hat₂⟩ := exprs_placed scope args has
    have hpush := advances_pushExpr l₂ (.call c as)
    exact ⟨hadv₁.trans (hadv₂.trans hpush), fun p hp => ⟨_, _, c, as,
      hat₁ p ((hadv₂.trans hpush).keeps hp (Nat.le_refl _)),
      hat₂ p (hpush.keeps hp hadv₁.stmts_size), exprIs_pushExpr hp⟩⟩
  | .choose cond thenExpr elseExpr, l, l', e, h => by
    obtain ⟨c, l₁, t, l₂, f, l₃, hc, ht, hf, rfl, rfl⟩ := gives_choose h
    obtain ⟨hadv₁, hat₁⟩ := expr_placed scope cond hc
    obtain ⟨hadv₂, hat₂⟩ := expr_placed scope thenExpr ht
    obtain ⟨hadv₃, hat₃⟩ := expr_placed scope elseExpr hf
    have hpush := advances_pushExpr l₃ (.choose c t f)
    exact ⟨hadv₁.trans (hadv₂.trans (hadv₃.trans hpush)), fun p hp => ⟨_, _, _, c, t, f,
      hat₁ p ((hadv₂.trans (hadv₃.trans hpush)).keeps hp (Nat.le_refl _)),
      hat₂ p ((hadv₃.trans hpush).keeps hp hadv₁.stmts_size),
      hat₃ p (hpush.keeps hp (hadv₁.trans hadv₂).stmts_size), exprIs_pushExpr hp⟩⟩
  | .closure params body, l, l', e, h => by
    obtain ⟨ids, l₁, first, l₂, hids, hbody, rfl, rfl⟩ := gives_closure h
    obtain ⟨rfl, hmark₁, hadv₁⟩ := gives_mapM_declare hids
    obtain ⟨hadv₂, _, hstmts, hkeeps, hmark₂⟩ := advances_withBody hbody fun l₄ h₄ => by
      obtain ⟨l₃, h₃, rfl⟩ := gives_withFrame.1 h₄
      exact (stmts_placed scope none body h₃).1
    obtain ⟨l₃, h₃, rfl⟩ := gives_withFrame.1 hstmts
    obtain ⟨-, hat⟩ := stmts_placed scope none body h₃
    have hadv : Advances l { l₂ with frames := l.frames } := Advances.trans hadv₁ hadv₂
    have hsize : l.program.stmts.size ≤ l₁.program.stmts.size := hadv₁.stmts_size
    have hpush := advances_pushExpr { l₂ with frames := l.frames }
      (.closure ((l.mark.enter []).declareAll params).2 first)
    have hstart : { l₁ with frames := [] :: l₁.frames }.mark =
        ((l.mark.enter []).declareAll params).1.enter [] := congrArg (Mark.enter · []) hmark₁
    have hend : { l₂ with frames := l.frames }.mark = l₃.mark.leave l.mark :=
      congrArg (Mark.leave · l.mark) hmark₂
    refine ⟨hadv.trans hpush, fun p hp => ⟨l₃.mark, first, ?_, ?_⟩⟩
    · rw [← hstart]
      exact hat p ((hkeeps.mono (Nat.zero_le _)).trans (hpush.keeps hp hsize))
    · rw [← hend]
      exact exprIs_pushExpr hp

/-- Linking expressions puts their nodes between the two marks. -/
theorem exprs_placed (scope : ScopeId) : ∀ (es : List Source.Expr) {l l' : Linker}
    {ids : List ExprId}, (exprs scope es).Gives l ids l' → Advances l l' ∧ ∀ p,
      l'.program.Keeps l.program.stmts.size p → p.ExprsAt scope es l.mark l'.mark ids
  | [], l, l', ids, h => by
    obtain ⟨rfl, rfl⟩ := gives_pure.1 h
    exact ⟨.refl _, fun p _ => ⟨rfl, rfl⟩⟩
  | e :: es, l, l', ids, h => by
    obtain ⟨i, l₁, is, hi, his, rfl⟩ := gives_exprs_cons h
    obtain ⟨hadv₁, hat₁⟩ := expr_placed scope e hi
    obtain ⟨hadv₂, hat₂⟩ := exprs_placed scope es his
    exact ⟨hadv₁.trans hadv₂, fun p hp => ⟨_, i, is, hat₁ p (hadv₂.keeps hp (Nat.le_refl _)),
      hat₂ p (hp.mono hadv₁.stmts_size), rfl⟩⟩

/-- Linking a statement puts it and its nodes between the two marks. -/
theorem stmt_placed (scope : ScopeId) (parent : Option StmtId) : ∀ (s : Source.Stmt)
    {l l' : Linker} {i : StmtId}, (stmt scope parent s).Gives l i l' → i = l.mark.stmtId ∧
      Advances l l' ∧ Completed l l' parent scope fun p next =>
        p.StmtAt parent scope s next l.mark l'.mark
  | .expr e, l, l', i, h => by
    obtain ⟨x, l₁, rfl, hx, rfl⟩ := gives_exprStmt h
    obtain ⟨hadv, hat⟩ := expr_placed scope e hx
    rw [stmts_size_pushStmt, mark_pushStmt] at hat
    refine ⟨rfl, completed_putKind hadv rfl fun p next hp hs => ?_⟩
    rw [mark_putKind]
    exact ⟨x, hat p hp, hs⟩
  | .block body, l, l', i, h => by
    obtain ⟨first, l₁, rfl, hbody, rfl⟩ := gives_block h
    obtain ⟨hadv, hat⟩ := stmts_placed scope (some l.mark.stmtId) body hbody
    have hsize := stmts_size_pushStmt l parent scope
    have hmark := mark_pushStmt l parent scope
    refine ⟨rfl, completed_putKind hadv rfl fun p next hp hs => ?_⟩
    rw [mark_putKind]
    refine ⟨l₁.mark, first, ?_, rfl, hs⟩
    rw [← hmark]
    exact hat p (hp.mono (Nat.le_of_eq hsize.symm))
  | .loop cond body testLast, l, l', i, h => by
    obtain ⟨c, l₁, first, l₂, rfl, hc, hbody, rfl⟩ := gives_loop h
    obtain ⟨hadv₁, hat₁⟩ := expr_placed scope cond hc
    obtain ⟨hadv₂, hat₂⟩ := stmts_placed scope (some l.mark.stmtId) body hbody
    rw [stmts_size_pushStmt, mark_pushStmt] at hat₁
    have hsize := hadv₁.stmts_lt
    refine ⟨rfl, completed_putKind (hadv₁.trans hadv₂) rfl fun p next hp hs => ?_⟩
    rw [mark_putKind]
    exact ⟨l₁.mark, l₂.mark, c, first, hat₁ p (hadv₂.keeps hp (Nat.le_refl _)),
      hat₂ p (hp.mono hsize), rfl, hs⟩
  | .forall indices iterators body, l, l', i, h => by
    obtain ⟨is, l₁, xs, l₂, first, l₃, rfl, his, hxs, hbody, rfl⟩ := gives_forall h
    obtain ⟨hadv₁, hat₁⟩ := exprs_placed scope iterators his
    obtain ⟨rfl, hmark, hadv₂⟩ := gives_mapM_declare hxs
    obtain ⟨hadv₃, hat₃⟩ := stmts_placed scope (some l.mark.stmtId) body hbody
    rw [stmts_size_pushStmt, mark_pushStmt] at hat₁
    have hsize : l.program.stmts.size + 1 ≤ l₂.program.stmts.size :=
      Nat.le_trans hadv₁.stmts_lt hadv₂.stmts_size
    have hadv : Advances l₁ { l₃ with frames := l₁.frames } := Advances.trans hadv₂ hadv₃
    refine ⟨rfl, completed_putKind (hadv₁.trans hadv) rfl fun p next hp hs => ?_⟩
    rw [mark_putKind]
    refine ⟨l₁.mark, l₃.mark, is, first, hat₁ p (hadv.keeps hp (Nat.le_refl _)), ?_, rfl, hs⟩
    have hframe : { l₂ with frames := [] :: l₂.frames }.mark =
        ((l₁.mark.enter []).declareAll indices).1.enter [] := congrArg (Mark.enter · []) hmark
    rw [← hframe]
    exact hat₃ p (hp.mono hsize)
  | .branch cond thenBody elseBody, l, l', i, h => by
    obtain ⟨c, l₁, t, l₂, f, l₃, rfl, hc, ht, hf, rfl⟩ := gives_branch h
    obtain ⟨hadv₁, hat₁⟩ := expr_placed scope cond hc
    obtain ⟨hadv₂, hat₂⟩ := stmts_placed scope (some l.mark.stmtId) thenBody ht
    obtain ⟨hadv₃, hat₃⟩ := stmts_placed scope (some l.mark.stmtId) elseBody hf
    rw [stmts_size_pushStmt, mark_pushStmt] at hat₁
    have hsize₁ := hadv₁.stmts_lt
    have hsize₂ : l.program.stmts.size + 1 ≤ l₂.program.stmts.size :=
      Nat.le_trans hsize₁ hadv₂.stmts_size
    have hadv : Advances l₁ { l₃ with frames := l₁.frames } := Advances.trans hadv₂ hadv₃
    refine ⟨rfl, completed_putKind (hadv₁.trans hadv) rfl fun p next hp hs => ?_⟩
    rw [mark_putKind]
    exact ⟨l₁.mark, l₂.mark, l₃.mark, c, t, f, hat₁ p (hadv.keeps hp (Nat.le_refl _)),
      hat₂ p (Advances.keeps hadv₃ hp hsize₁), hat₃ p (hp.mono hsize₂), rfl, hs⟩
  | .select selector arms, l, l', i, h => by
    obtain ⟨c, l₁, first, l₂, rfl, hc, harms, rfl⟩ := gives_select h
    obtain ⟨hadv₁, hat₁⟩ := expr_placed scope selector hc
    obtain ⟨hadv₂, hat₂⟩ := armSeq_placed scope l.mark.stmtId arms harms
    rw [stmts_size_pushStmt, mark_pushStmt] at hat₁
    have hsize := hadv₁.stmts_lt
    refine ⟨rfl, completed_putKind (hadv₁.trans hadv₂) rfl fun p next hp hs => ?_⟩
    rw [mark_putKind]
    exact ⟨l₁.mark, c, first, hat₁ p (hadv₂.keeps hp (Nat.le_refl _)), hat₂ p (hp.mono hsize), hs⟩
  | .return none, l, l', i, h => by
    obtain ⟨rfl, rfl⟩ := gives_return_none h
    refine ⟨rfl, completed_putKind (.refl _) rfl fun p next hp hs => ?_⟩
    rw [mark_putKind]
    exact ⟨mark_pushStmt l parent scope, hs⟩
  | .return (some value), l, l', i, h => by
    obtain ⟨v, l₁, rfl, hv, rfl⟩ := gives_return_some h
    obtain ⟨hadv, hat⟩ := expr_placed scope value hv
    rw [stmts_size_pushStmt, mark_pushStmt] at hat
    refine ⟨rfl, completed_putKind hadv rfl fun p next hp hs => ?_⟩
    rw [mark_putKind]
    exact ⟨v, hat p hp, hs⟩
  | .label name, l, l', i, h => by
    obtain ⟨rfl, -, rfl⟩ := gives_label h
    have hput := stmt?_putKind_pushStmt l parent scope (.label name)
    have hadv : Advances l (putKind (pushStmt l parent scope) l.mark.stmtId (.label name)) :=
      advances_putKind (.refl _) rfl
    refine ⟨rfl, hadv.trans (advances_declareLabel hput rfl), .label name, hput, ?_⟩
    intro p next kind' hk hs _
    rw [hk.eq rfl] at hs
    exact ⟨(mark_putKind _ _ _).trans (mark_pushStmt l parent scope), hs⟩
  | .goto label, l, l', i, h => by
    obtain ⟨rfl, rfl⟩ := gives_goto h
    have hput := stmt?_putKind_pushStmt l parent scope (.goto l.mark.stmtId)
    refine ⟨rfl, advances_recordJump l parent scope label, _, hput, ?_⟩
    intro p next kind' hk hs _
    obtain ⟨target, rfl⟩ : ∃ target, kind' = .goto target := by
      rcases hk with rfl | ⟨-, hg⟩
      · exact ⟨_, rfl⟩
      · cases kind' <;> first | exact ⟨_, rfl⟩ | cases hg
    exact ⟨target, (mark_putKind _ _ _).trans (mark_pushStmt l parent scope), hs⟩

/-- Linking a sequence puts its nodes between the two marks. -/
theorem stmts_placed (scope : ScopeId) (parent : Option StmtId) : ∀ (ss : List Source.Stmt)
    {l l' : Linker} {first : Option StmtId}, (stmts scope parent ss).Gives l first l' →
      Advances l l' ∧ ∀ p, l'.program.Keeps l.program.stmts.size p →
        p.SeqAt parent scope ss l.mark l'.mark first
  | [], l, l', first, h => by
    obtain ⟨rfl, rfl⟩ := gives_pure.1 h
    exact ⟨.refl _, fun p _ => ⟨rfl, rfl⟩⟩
  | s :: ss, l, l', first, h => by
    obtain ⟨_, l₁, next, l₂, hs, hss, rfl, rfl⟩ := gives_stmts_cons h
    obtain ⟨rfl, hadv₁, hcomp⟩ := stmt_placed scope parent s hs
    obtain ⟨hadv₂, hat₂⟩ := stmts_placed scope parent ss hss
    obtain ⟨hadv, hput⟩ := completed_putNext hadv₁ hcomp hadv₂ next
    refine ⟨hadv, fun p hp => ?_⟩
    obtain ⟨hat₁, hkeeps⟩ := hput p hp
    rw [mark_putNext]
    exact ⟨l₁.mark, next, hat₁, hat₂ p hkeeps, rfl⟩

/-- Linking an arm puts it and its nodes between the two marks. -/
theorem arm_placed (scope : ScopeId) (select : StmtId) : ∀ (a : Source.Arm) {l l' : Linker}
    {i : StmtId}, (arm scope select a).Gives l i l' → i = l.mark.stmtId ∧
      Advances l l' ∧ Completed l l' (some select) scope fun p next =>
        p.ArmAt select scope a next l.mark l'.mark
  | .mk cases body, l, l', i, h => by
    obtain ⟨cs, l₁, first, l₂, rfl, hcs, hbody, rfl⟩ := gives_arm h
    obtain ⟨hadv₁, hat₁⟩ := exprs_placed scope cases hcs
    obtain ⟨hadv₂, hat₂⟩ := stmts_placed scope (some l.mark.stmtId) body hbody
    rw [stmts_size_pushStmt, mark_pushStmt] at hat₁
    have hsize := hadv₁.stmts_lt
    refine ⟨rfl, completed_putKind (hadv₁.trans hadv₂) rfl fun p next hp hs => ?_⟩
    rw [mark_putKind]
    exact ⟨l₁.mark, l₂.mark, cs, first, hat₁ p (hadv₂.keeps hp (Nat.le_refl _)),
      hat₂ p (hp.mono hsize), rfl, hs⟩

/-- Linking the arms of a select puts their nodes between the two marks. -/
theorem armSeq_placed (scope : ScopeId) (select : StmtId) : ∀ (as : List Source.Arm)
    {l l' : Linker} {first : Option StmtId}, (armSeq scope select as).Gives l first l' →
      Advances l l' ∧ ∀ p, l'.program.Keeps l.program.stmts.size p →
        p.ArmsAt select scope as l.mark l'.mark first
  | [], l, l', first, h => by
    obtain ⟨rfl, rfl⟩ := gives_pure.1 h
    exact ⟨.refl _, fun p _ => ⟨rfl, rfl⟩⟩
  | a :: as, l, l', first, h => by
    obtain ⟨_, l₁, next, l₂, ha, has, rfl, rfl⟩ := gives_armSeq_cons h
    obtain ⟨rfl, hadv₁, hcomp⟩ := arm_placed scope select a ha
    obtain ⟨hadv₂, hat₂⟩ := armSeq_placed scope select as has
    obtain ⟨hadv, hput⟩ := completed_putNext hadv₁ hcomp hadv₂ next
    refine ⟨hadv, fun p hp => ?_⟩
    obtain ⟨hat₁, hkeeps⟩ := hput p hp
    rw [mark_putNext]
    exact ⟨l₁.mark, next, hat₁, hat₂ p hkeeps, rfl⟩

end

/-- **Linking a body** grows the tables, and puts the nodes of its statements between two marks. -/
theorem body_placed {scope : ScopeId} {ss : List Source.Stmt} {first : Option StmtId}
    (h : (body scope ss).Gives l first l') :
    Advances l l' ∧ ∃ m : Mark, l'.mark = m.leave l.mark ∧ ∀ p, l'.program.Keeps 0 p →
      p.SeqAt none scope ss (l.mark.enter []) m first := by
  obtain ⟨hadv, _, hinner, hkeeps, hmark⟩ := advances_withBody h fun l₁ h₁ => by
    obtain ⟨l₂, h₂, rfl⟩ := gives_withFrame.1 h₁
    exact (stmts_placed scope none ss h₂).1
  obtain ⟨l₂, hseq, rfl⟩ := gives_withFrame.1 hinner
  have hat := (stmts_placed scope none ss hseq).2
  exact ⟨hadv, l₂.mark, hmark, fun p hp => hat p ((hkeeps.trans hp).mono (Nat.zero_le _))⟩

end Link

end TreeMachine
