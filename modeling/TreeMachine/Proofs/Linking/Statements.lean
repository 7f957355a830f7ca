import TreeMachine.Proofs.Linking.Marks
import TreeMachine.Proofs.Linking.Tallies
import TreeMachine.Proofs.Source.Writing

/-!
# Statements between marks

The statements between the marks of a definition are as many as it has. Each of them has the scope
that the definition is linked with, and its expressions are among those between the marks. If it has
any, a reference to a function can be written into it (`Program.Lies`).

To look for a statement of a given number, a definition is gone through along its marks: the number
is between the marks of one part, since these follow each other, and the search goes on in this part
until the statement is found as one that was placed itself. All that is to be known of the
statements of a body is collected in the same search, so that it has to be made once only. There is
a lemma for each part that the search may go into, expressions included, as a statement may be one
of a closure.

What is left to the caller is what to conclude when a part of the definition has been found to be
writable: that the whole of it is.
-/

namespace TreeMachine

open Source (Expr.Writes ExprsWrites Stmt.Writes StmtsWrites Arm.Writes ArmsWrites)

namespace Program

variable {p : Program} {scope : ScopeId}

/-! ### How many statements there are -/

/-- Entering frames and declaring variables adds no statement. -/
theorem stmts_inside (m : Mark) (names : List String) :
    (((m.enter []).declareAll names).1.enter []).stmts = m.stmts :=
  (declareAll_sizes (m.enter []) names).1

/-- Entering frames and declaring variables adds no expression. -/
theorem exprs_inside (m : Mark) (names : List String) :
    (((m.enter []).declareAll names).1.enter []).exprs = m.exprs :=
  (declareAll_sizes (m.enter []) names).2

mutual

/-- **As many statements** are placed for an expression as there are in its closures. -/
theorem exprAt_stmts : ∀ {src : Source.Expr} {m m' : Mark} {e : ExprId},
    p.ExprAt scope src m m' e → m'.stmts = m.stmts + src.size
  | .scalar _, _, _, _, ⟨_, rfl, _⟩ | .var _, _, _, _, ⟨_, _, _, rfl, _⟩
  | .declare _, _, _, _, ⟨_, rfl, _⟩ | .name _, _, _, _, ⟨_, rfl, _⟩
  | .function _, _, _, _, ⟨_, _, _, rfl, _⟩ => rfl
  | .assign .., _, _, _, ⟨_, _, _, _, hv, _, rfl, _⟩ => (exprAt_stmts hv :)
  | .call .., m, _, _, ⟨m₁, m₂, _, _, hc, has, _, rfl, _⟩ => by
    have h₁ := exprAt_stmts hc
    have h₂ := exprsAt_stmts has
    show m₂.stmts = _
    rw [h₂, h₁, Source.Expr.size, Nat.add_assoc]
  | .choose .., m, _, _, ⟨m₁, m₂, m₃, _, _, _, hc, ht, hf, _, rfl, _⟩ => by
    have h₁ := exprAt_stmts hc
    have h₂ := exprAt_stmts ht
    have h₃ := exprAt_stmts hf
    show m₃.stmts = _
    rw [Source.Expr.size]
    omega
  | .closure params _, m, _, _, ⟨_, _, hbody, _, rfl, _⟩ =>
    (seqAt_stmts hbody).trans (congrArg (· + _) (stmts_inside m params))

theorem exprsAt_stmts : ∀ {es : List Source.Expr} {m m' : Mark} {ids : List ExprId},
    p.ExprsAt scope es m m' ids → m'.stmts = m.stmts + Source.exprsSize es
  | [], _, _, _, ⟨rfl, _⟩ => rfl
  | _ :: _, _, _, _, ⟨_, _, _, he, hes, _⟩ => by
    rw [exprsAt_stmts hes, exprAt_stmts he, Source.exprsSize, Nat.add_assoc]

/-- **As many statements** are placed for a statement as there are in it, with itself. -/
theorem stmtAt_stmts {parent : Option StmtId} : ∀ {s : Source.Stmt} {next : Option StmtId}
    {m m' : Mark}, p.StmtAt parent scope s next m m' → m'.stmts = m.stmts + s.size
  | .expr _, _, m, _, ⟨_, hx, _⟩ | .return (some _), _, m, _, ⟨_, hx, _⟩ =>
    (exprAt_stmts hx).trans (Nat.add_assoc m.stmts 1 _)
  | .block _, _, m, _, ⟨_, _, hbody, rfl, _⟩ =>
    (seqAt_stmts hbody).trans (Nat.add_assoc m.stmts 1 _)
  | .loop .., _, m, _, ⟨m₁, m₂, _, _, hc, hbody, rfl, _⟩ => by
    have h₁ : m₁.stmts = m.stmts + 1 + _ := exprAt_stmts hc
    have h₂ : m₂.stmts = m₁.stmts + _ := (seqAt_stmts hbody :)
    show m₂.stmts = _
    rw [Source.Stmt.size]
    omega
  | .forall indices .., _, m, _, ⟨m₁, m₂, _, _, his, hbody, rfl, _⟩ => by
    have h₁ : m₁.stmts = m.stmts + 1 + _ := exprsAt_stmts his
    have h₂ : m₂.stmts = m₁.stmts + _ :=
      (seqAt_stmts hbody).trans (congrArg (· + _) (stmts_inside m₁ indices))
    show m₂.stmts = _
    rw [Source.Stmt.size]
    omega
  | .branch .., _, m, _, ⟨m₁, m₂, m₃, _, _, _, hc, ht, hf, rfl, _⟩ => by
    have h₁ : m₁.stmts = m.stmts + 1 + _ := exprAt_stmts hc
    have h₂ : m₂.stmts = m₁.stmts + _ := (seqAt_stmts ht :)
    have h₃ : m₃.stmts = m₂.stmts + _ := (seqAt_stmts hf :)
    show m₃.stmts = _
    rw [Source.Stmt.size]
    omega
  | .select .., _, m, _, ⟨m₁, _, _, hc, harms, _⟩ => by
    have h₁ : m₁.stmts = m.stmts + 1 + _ := exprAt_stmts hc
    rw [armsAt_stmts harms, h₁, Source.Stmt.size]
    omega
  | .return none, _, _, _, ⟨rfl, _⟩ | .label _, _, _, _, ⟨rfl, _⟩ | .goto _, _, _, _, ⟨_, rfl, _⟩ =>
    rfl

theorem seqAt_stmts {parent : Option StmtId} : ∀ {ss : List Source.Stmt} {m m' : Mark}
    {first : Option StmtId}, p.SeqAt parent scope ss m m' first →
      m'.stmts = m.stmts + Source.stmtsSize ss
  | [], _, _, _, ⟨rfl, _⟩ => rfl
  | _ :: _, _, _, _, ⟨_, _, hs, hss, _⟩ => by
    rw [seqAt_stmts hss, stmtAt_stmts hs, Source.stmtsSize, Nat.add_assoc]

theorem armAt_stmts {select : StmtId} : ∀ {a : Source.Arm} {next : Option StmtId} {m m' : Mark},
    p.ArmAt select scope a next m m' → m'.stmts = m.stmts + a.size
  | .mk .., _, m, _, ⟨m₁, m₂, _, _, hcs, hbody, rfl, _⟩ => by
    have h₁ : m₁.stmts = m.stmts + 1 + _ := exprsAt_stmts hcs
    have h₂ : m₂.stmts = m₁.stmts + _ := (seqAt_stmts hbody :)
    show m₂.stmts = _
    rw [Source.Arm.size]
    omega

theorem armsAt_stmts {select : StmtId} : ∀ {as : List Source.Arm} {m m' : Mark}
    {first : Option StmtId}, p.ArmsAt select scope as m m' first →
      m'.stmts = m.stmts + Source.armsSize as
  | [], _, _, _, ⟨rfl, _⟩ => rfl
  | _ :: _, _, _, _, ⟨_, _, ha, has, _⟩ => by
    rw [armsAt_stmts has, armAt_stmts ha, Source.armsSize, Nat.add_assoc]

end

/-! ### What statements there are -/

/-- A statement has a scope, its expressions come between two marks, and if it has any, something
can be written into it. -/
structure Lies (p : Program) (scope : ScopeId) (m m' : Mark) (t : Stmt) (writable : Prop) :
    Prop where
  scope_eq : t.scope = scope
  exprs : ∀ e ∈ t.kind.exprs, p.From m.exprs e ∧ e.index < m'.exprs
  writable : t.kind.exprs ≠ [] → writable

variable {t : Stmt} {i : Nat} {name : String}

theorem Lies.mono {m m₁ m₂ m' : Mark} {writable writable' : Prop}
    (h : p.Lies scope m₁ m₂ t writable) (hm : m.exprs ≤ m₁.exprs) (hm' : m₂.exprs ≤ m'.exprs)
    (hw : writable → writable') : p.Lies scope m m' t writable' where
  scope_eq := h.scope_eq
  exprs e he := (h.exprs e he).imp (·.mono hm) fun h => Nat.lt_of_lt_of_le h hm'
  writable hne := hw (h.writable hne)

/-- A statement lies where it is placed itself. -/
theorem StmtIs.lies {kind : StmtKind} {next parent : Option StmtId} {m m' : Mark} {writable : Prop}
    (hs : p.StmtIs kind next parent scope m) (ht : p.stmt? m.stmtId = some t)
    (hexprs : ∀ e ∈ kind.exprs, p.From m.exprs e ∧ e.index < m'.exprs)
    (hw : kind.exprs ≠ [] → writable) : p.Lies scope m m' t writable := by
  cases hs.symm.trans ht
  exact ⟨rfl, hexprs, hw⟩

theorem exprAt_between {src : Source.Expr} {m m' : Mark} {e : ExprId}
    (h : p.ExprAt scope src m m' e) : p.From m.exprs e ∧ e.index < m'.exprs := by
  have hends := exprAt_endsWith h
  exact ⟨hends.from_start, hends.last ▸ Nat.lt_succ_self _⟩

theorem exprsAt_between {es : List Source.Expr} {m m' : Mark} {ids : List ExprId}
    (h : p.ExprsAt scope es m m' ids) (e : ExprId) (he : e ∈ ids) :
    p.From m.exprs e ∧ e.index < m'.exprs :=
  ⟨(exprsAt_from h).1 e he, ((exprsAt_from h).2 e he).1⟩

/-- A reference can be written around the first of some expressions. -/
theorem exprsAt_writes {es : List Source.Expr} {m m' : Mark} {ids : List ExprId}
    (h : p.ExprsAt scope es m m' ids) (hne : ids ≠ []) (n : Nat) :
    ∃ es', ExprsWrites name i i n es es' := by
  cases es with
  | nil => exact absurd h.2 hne
  | cons e es => exact ⟨_, .head .here⟩

mutual

/-- **A statement of a closure** in an expression. -/
theorem exprAt_lies (ht : p.stmt? ⟨i⟩ = some t) : ∀ {src : Source.Expr} {m m' : Mark}
    {e : ExprId}, p.ExprAt scope src m m' e → m.stmts ≤ i → i < m'.stmts →
      p.Lies scope m m' t (∀ k, ∃ src', Expr.Writes name i k m.stmts src src')
  | .scalar _, _, _, _, ⟨_, rfl, _⟩, hle, hlt | .var _, _, _, _, ⟨_, _, _, rfl, _⟩, hle, hlt
  | .declare _, _, _, _, ⟨_, rfl, _⟩, hle, hlt | .name _, _, _, _, ⟨_, rfl, _⟩, hle, hlt
  | .function _, _, _, _, ⟨_, _, _, rfl, _⟩, hle, hlt => absurd hlt (Nat.not_lt.2 hle)
  | .assign .., m, _, _, ⟨_, m₁, _, _, hv, _, rfl, _⟩, hle, hlt => by
    refine (exprAt_lies ht hv hle hlt).mono (Nat.le_refl _) (Nat.le_succ _) fun hw k => ?_
    obtain ⟨_, hv'⟩ := hw k
    exact ⟨_, .assign hv'⟩
  | .call callee _, m, _, _, ⟨m₁, m₂, _, _, hc, has, _, rfl, _⟩, hle, hlt => by
    have hm₁ := (exprAt_follows hc).exprs
    have hm₂ := (exprsAt_follows has).exprs
    rcases Nat.lt_or_ge i m₁.stmts with hi | hi
    · refine (exprAt_lies ht hc hle hi).mono (Nat.le_refl _) (Nat.le_succ_of_le hm₂)
        fun hw k => ?_
      obtain ⟨_, hc'⟩ := hw k
      exact ⟨_, .callee hc'⟩
    · refine (exprsAt_lies ht has hi hlt).mono hm₁ (Nat.le_succ _) fun hw k => ?_
      obtain ⟨_, has'⟩ := hw k
      rw [exprAt_stmts hc] at has'
      exact ⟨_, .args has'⟩
  | .choose cond thenExpr _, m, _, _, ⟨m₁, m₂, m₃, _, _, _, hc, ht', hf, _, rfl, _⟩, hle, hlt => by
    have hm₁ := (exprAt_follows hc).exprs
    have hm₂ := (exprAt_follows ht').exprs
    have hm₃ := (exprAt_follows hf).exprs
    rcases Nat.lt_or_ge i m₁.stmts with hi | hi
    · refine (exprAt_lies ht hc hle hi).mono (Nat.le_refl _)
        (Nat.le_succ_of_le (hm₂.trans hm₃)) fun hw k => ?_
      obtain ⟨_, hc'⟩ := hw k
      exact ⟨_, .cond hc'⟩
    · rcases Nat.lt_or_ge i m₂.stmts with hi' | hi'
      · refine (exprAt_lies ht ht' hi hi').mono hm₁ (Nat.le_succ_of_le hm₃) fun hw k => ?_
        obtain ⟨_, ht''⟩ := hw k
        rw [exprAt_stmts hc] at ht''
        exact ⟨_, .thenExpr ht''⟩
      · refine (exprAt_lies ht hf hi' hlt).mono (hm₁.trans hm₂) (Nat.le_succ _) fun hw k => ?_
        obtain ⟨_, hf'⟩ := hw k
        rw [exprAt_stmts ht', exprAt_stmts hc] at hf'
        exact ⟨_, .elseExpr hf'⟩
  | .closure params _, m, _, _, ⟨m₁, _, hbody, _, rfl, _⟩, hle, hlt => by
    have hstart := stmts_inside m params
    refine (seqAt_lies ht hbody (hstart ▸ hle) hlt).mono (Nat.le_of_eq (exprs_inside m params).symm)
      (Nat.le_succ _) fun ⟨_, hbody'⟩ k => ?_
    rw [hstart] at hbody'
    exact ⟨_, .closure hbody'⟩

theorem exprsAt_lies (ht : p.stmt? ⟨i⟩ = some t) : ∀ {es : List Source.Expr} {m m' : Mark}
    {ids : List ExprId}, p.ExprsAt scope es m m' ids → m.stmts ≤ i → i < m'.stmts →
      p.Lies scope m m' t (∀ k, ∃ es', ExprsWrites name i k m.stmts es es')
  | [], _, _, _, ⟨rfl, _⟩, hle, hlt => absurd hlt (Nat.not_lt.2 hle)
  | e :: _, m, _, _, ⟨m₁, _, _, he, hes, _⟩, hle, hlt => by
    rcases Nat.lt_or_ge i m₁.stmts with hi | hi
    · refine (exprAt_lies ht he hle hi).mono (Nat.le_refl _) (exprsAt_follows hes).exprs
        fun hw k => ?_
      obtain ⟨_, he'⟩ := hw k
      exact ⟨_, .head he'⟩
    · refine (exprsAt_lies ht hes hi hlt).mono (exprAt_follows he).exprs (Nat.le_refl _)
        fun hw k => ?_
      obtain ⟨_, hes'⟩ := hw k
      rw [exprAt_stmts he] at hes'
      exact ⟨_, .tail hes'⟩

/-- **A statement** lies where it is placed itself, or where one inside it is. -/
theorem stmtAt_lies (ht : p.stmt? ⟨i⟩ = some t) {parent : Option StmtId} : ∀ {s : Source.Stmt}
    {next : Option StmtId} {m m' : Mark}, p.StmtAt parent scope s next m m' → m.stmts ≤ i →
      i < m'.stmts → p.Lies scope m m' t (∃ s', Stmt.Writes name i m.stmts s s')
  | .expr _, _, m, m', ⟨_, hx, hs⟩, hle, hlt => by
    rcases Nat.eq_or_lt_of_le hle with rfl | hi
    · exact hs.lies ht (List.forall_mem_singleton.2 (exprAt_between hx :)) fun _ => ⟨_, .expr .here⟩
    · refine (exprAt_lies ht hx hi hlt).mono (Nat.le_refl _) (Nat.le_refl _) fun hw => ?_
      obtain ⟨_, hx'⟩ := hw m.stmts
      exact ⟨_, .expr hx'⟩
  | .block _, _, m, _, ⟨m₁, _, hbody, rfl, hs⟩, hle, hlt => by
    rcases Nat.eq_or_lt_of_le hle with rfl | hi
    · exact hs.lies ht nofun (absurd rfl)
    · exact (seqAt_lies ht hbody hi hlt).mono (Nat.le_refl _) (Nat.le_refl _)
        fun ⟨_, hbody'⟩ => ⟨_, .block hbody'⟩
  | .loop cond _ _, _, m, _, ⟨m₁, m₂, _, _, hc, hbody, rfl, hs⟩, hle, hlt => by
    have hm₁ := (exprAt_follows hc).exprs
    have hm₂ : m₁.exprs ≤ m₂.exprs := (seqAt_follows hbody).exprs
    rcases Nat.eq_or_lt_of_le hle with rfl | hi
    · refine hs.lies ht (List.forall_mem_singleton.2 ?_) fun _ => ⟨_, .loopCond .here⟩
      exact (exprAt_between hc).imp_right fun h => Nat.lt_of_lt_of_le h hm₂
    · rcases Nat.lt_or_ge i m₁.stmts with hi' | hi'
      · refine (exprAt_lies ht hc hi hi').mono (Nat.le_refl _) hm₂ fun hw => ?_
        obtain ⟨_, hc'⟩ := hw m.stmts
        exact ⟨_, .loopCond hc'⟩
      · refine (seqAt_lies ht hbody hi' hlt).mono hm₁ (Nat.le_refl _) fun ⟨_, hbody'⟩ => ?_
        have hstart : (m₁.enter []).stmts = m.stmts + 1 + cond.size := exprAt_stmts hc
        rw [hstart] at hbody'
        exact ⟨_, .loopBody hbody'⟩
  | .forall indices iterators _, _, m, _, ⟨m₁, m₂, _, _, his, hbody, rfl, hs⟩, hle, hlt => by
    have hstmts := stmts_inside m₁ indices
    have hexprs := exprs_inside m₁ indices
    have hm₁ := (exprsAt_follows his).exprs
    have hm₂ : m₁.exprs ≤ m₂.exprs := hexprs ▸ (seqAt_follows hbody).exprs
    rcases Nat.eq_or_lt_of_le hle with rfl | hi
    · refine hs.lies ht (fun e he => ?_) fun hne => ?_
      · exact (exprsAt_between his e he).imp_right fun h => Nat.lt_of_lt_of_le h hm₂
      · obtain ⟨_, hes⟩ := exprsAt_writes his hne (m.stmts + 1)
        exact ⟨_, .iterators hes⟩
    · rcases Nat.lt_or_ge i m₁.stmts with hi' | hi'
      · refine (exprsAt_lies ht his hi hi').mono (Nat.le_refl _) hm₂ fun hw => ?_
        obtain ⟨_, his'⟩ := hw m.stmts
        exact ⟨_, .iterators his'⟩
      · have hstart : (((m₁.enter []).declareAll indices).1.enter []).stmts =
            m.stmts + 1 + Source.exprsSize iterators := hstmts.trans (exprsAt_stmts his)
        refine (seqAt_lies ht hbody (hstmts.symm ▸ hi') hlt).mono
          (hm₁.trans (Nat.le_of_eq hexprs.symm)) (Nat.le_refl _) fun ⟨_, hbody'⟩ => ?_
        rw [hstart] at hbody'
        exact ⟨_, .forallBody hbody'⟩
  | .branch cond thenBody _, _, m, _, ⟨m₁, m₂, m₃, _, _, _, hc, ht', hf, rfl, hs⟩, hle, hlt => by
    have hm₁ := (exprAt_follows hc).exprs
    have hm₂ : m₁.exprs ≤ m₂.exprs := (seqAt_follows ht').exprs
    have hm₃ : m₂.exprs ≤ m₃.exprs := (seqAt_follows hf).exprs
    have hstart : (m₁.enter []).stmts = m.stmts + 1 + cond.size := exprAt_stmts hc
    rcases Nat.eq_or_lt_of_le hle with rfl | hi
    · refine hs.lies ht (List.forall_mem_singleton.2 ?_) fun _ => ⟨_, .branchCond .here⟩
      exact (exprAt_between hc).imp_right fun h => Nat.lt_of_lt_of_le h (hm₂.trans hm₃)
    · rcases Nat.lt_or_ge i m₁.stmts with hi' | hi'
      · refine (exprAt_lies ht hc hi hi').mono (Nat.le_refl _) (hm₂.trans hm₃) fun hw => ?_
        obtain ⟨_, hc'⟩ := hw m.stmts
        exact ⟨_, .branchCond hc'⟩
      · rcases Nat.lt_or_ge i m₂.stmts with hi'' | hi''
        · refine (seqAt_lies ht ht' hi' hi'').mono hm₁ hm₃ fun ⟨_, hbody'⟩ => ?_
          rw [hstart] at hbody'
          exact ⟨_, .thenBody hbody'⟩
        · refine (seqAt_lies ht hf hi'' hlt).mono (hm₁.trans hm₂) (Nat.le_refl _)
            fun ⟨_, hbody'⟩ => ?_
          have hstart' : ((m₂.leave m₁).enter []).stmts =
              m.stmts + 1 + cond.size + Source.stmtsSize thenBody := by
            rw [← hstart]
            exact (seqAt_stmts ht' :)
          rw [hstart'] at hbody'
          exact ⟨_, .elseBody hbody'⟩
  | .select selector _, _, m, _, ⟨m₁, _, _, hc, harms, hs⟩, hle, hlt => by
    have hm₁ := (exprAt_follows hc).exprs
    have hm₂ := (armsAt_follows harms).exprs
    rcases Nat.eq_or_lt_of_le hle with rfl | hi
    · refine hs.lies ht (List.forall_mem_singleton.2 ?_) fun _ => ⟨_, .selector .here⟩
      exact (exprAt_between hc).imp_right fun h => Nat.lt_of_lt_of_le h hm₂
    · rcases Nat.lt_or_ge i m₁.stmts with hi' | hi'
      · refine (exprAt_lies ht hc hi hi').mono (Nat.le_refl _) hm₂ fun hw => ?_
        obtain ⟨_, hc'⟩ := hw m.stmts
        exact ⟨_, .selector hc'⟩
      · refine (armsAt_lies ht harms hi' hlt).mono hm₁ (Nat.le_refl _) fun ⟨_, harms'⟩ => ?_
        have hstart : m₁.stmts = m.stmts + 1 + selector.size := exprAt_stmts hc
        rw [hstart] at harms'
        exact ⟨_, .arms harms'⟩
  | .return none, _, m, _, ⟨rfl, hs⟩, hle, hlt | .label _, _, m, _, ⟨rfl, hs⟩, hle, hlt
  | .goto _, _, m, _, ⟨_, rfl, hs⟩, hle, hlt => by
    obtain rfl := Nat.le_antisymm (Nat.le_of_lt_succ hlt) hle
    exact hs.lies ht nofun (absurd rfl)
  | .return (some _), _, m, _, ⟨_, hv, hs⟩, hle, hlt => by
    rcases Nat.eq_or_lt_of_le hle with rfl | hi
    · exact hs.lies ht (List.forall_mem_singleton.2 (exprAt_between hv :))
        fun _ => ⟨_, .return .here⟩
    · refine (exprAt_lies ht hv hi hlt).mono (Nat.le_refl _) (Nat.le_refl _) fun hw => ?_
      obtain ⟨_, hv'⟩ := hw m.stmts
      exact ⟨_, .return hv'⟩

theorem seqAt_lies (ht : p.stmt? ⟨i⟩ = some t) {parent : Option StmtId} :
    ∀ {ss : List Source.Stmt} {m m' : Mark} {first : Option StmtId},
      p.SeqAt parent scope ss m m' first → m.stmts ≤ i → i < m'.stmts →
      p.Lies scope m m' t (∃ ss', StmtsWrites name i m.stmts ss ss')
  | [], _, _, _, ⟨rfl, _⟩, hle, hlt => absurd hlt (Nat.not_lt.2 hle)
  | s :: _, m, _, _, ⟨m₁, _, hs, hss, _⟩, hle, hlt => by
    rcases Nat.lt_or_ge i m₁.stmts with hi | hi
    · exact (stmtAt_lies ht hs hle hi).mono (Nat.le_refl _) (seqAt_follows hss).exprs
        fun ⟨_, hs'⟩ => ⟨_, .head hs'⟩
    · refine (seqAt_lies ht hss hi hlt).mono (stmtAt_follows hs).exprs (Nat.le_refl _)
        fun ⟨_, hss'⟩ => ?_
      rw [stmtAt_stmts hs] at hss'
      exact ⟨_, .tail hss'⟩

theorem armAt_lies (ht : p.stmt? ⟨i⟩ = some t) {select : StmtId} : ∀ {a : Source.Arm}
    {next : Option StmtId} {m m' : Mark}, p.ArmAt select scope a next m m' → m.stmts ≤ i →
      i < m'.stmts → p.Lies scope m m' t (∃ a', Arm.Writes name i m.stmts a a')
  | .mk cases _, _, m, _, ⟨m₁, m₂, _, _, hcs, hbody, rfl, hs⟩, hle, hlt => by
    have hm₁ := (exprsAt_follows hcs).exprs
    have hm₂ : m₁.exprs ≤ m₂.exprs := (seqAt_follows hbody).exprs
    rcases Nat.eq_or_lt_of_le hle with rfl | hi
    · refine hs.lies ht (fun e he => ?_) fun hne => ?_
      · exact (exprsAt_between hcs e he).imp_right fun h => Nat.lt_of_lt_of_le h hm₂
      · obtain ⟨_, hcs'⟩ := exprsAt_writes hcs hne (m.stmts + 1)
        exact ⟨_, .cases hcs'⟩
    · rcases Nat.lt_or_ge i m₁.stmts with hi' | hi'
      · refine (exprsAt_lies ht hcs hi hi').mono (Nat.le_refl _) hm₂ fun hw => ?_
        obtain ⟨_, hcs'⟩ := hw m.stmts
        exact ⟨_, .cases hcs'⟩
      · refine (seqAt_lies ht hbody hi' hlt).mono hm₁ (Nat.le_refl _) fun ⟨_, hbody'⟩ => ?_
        have hstart : (m₁.enter []).stmts = m.stmts + 1 + Source.exprsSize cases :=
          exprsAt_stmts hcs
        rw [hstart] at hbody'
        exact ⟨_, .body hbody'⟩

theorem armsAt_lies (ht : p.stmt? ⟨i⟩ = some t) {select : StmtId} : ∀ {as : List Source.Arm}
    {m m' : Mark} {first : Option StmtId}, p.ArmsAt select scope as m m' first → m.stmts ≤ i →
      i < m'.stmts → p.Lies scope m m' t (∃ as', ArmsWrites name i m.stmts as as')
  | [], _, _, _, ⟨rfl, _⟩, hle, hlt => absurd hlt (Nat.not_lt.2 hle)
  | a :: _, m, _, _, ⟨m₁, _, ha, has, _⟩, hle, hlt => by
    rcases Nat.lt_or_ge i m₁.stmts with hi | hi
    · exact (armAt_lies ht ha hle hi).mono (Nat.le_refl _) (armsAt_follows has).exprs
        fun ⟨_, ha'⟩ => ⟨_, .head ha'⟩
    · refine (armsAt_lies ht has hi hlt).mono (armAt_follows ha).exprs (Nat.le_refl _)
        fun ⟨_, has'⟩ => ?_
      rw [armAt_stmts ha] at has'
      exact ⟨_, .tail has'⟩

end

/-- **The statements of a sequence** are in the scope that it is linked in. -/
theorem seqAt_scope {parent : Option StmtId} {ss : List Source.Stmt} {m m' : Mark}
    {first : Option StmtId} (h : p.SeqAt parent scope ss m m' first) (ht : p.stmt? ⟨i⟩ = some t)
    (hle : m.stmts ≤ i) (hlt : i < m'.stmts) : t.scope = scope := by
  have hlies : p.Lies scope m m' t (∃ ss', StmtsWrites "" i m.stmts ss ss') :=
    seqAt_lies ht h hle hlt
  exact hlies.scope_eq

end Program

end TreeMachine
