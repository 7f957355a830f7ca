import Mathlib.Algebra.Order.BigOperators.Group.Finset
import TreeMachine.Proofs.Linking.Modules

/-!
# Every expression is used once

An expression is used by the statement that evaluates it, or by the expression that it is a part of.
Linking a node uses the expressions that have been linked for it, and no other ones, so each
expression of a linked program is used once (`Program.usesOnce_of_link`). This is counted from mark
to mark. Hence an expression belongs to one statement only (`Program.BelongsTo.unique`).

The count is simpler than that of statements, because expressions are added after their parts:
between two marks every expression has been used, except for those at the end that are handed on to
what comes next. `Program.UsesOnce` has these as a list, which is empty for a statement and has one
element for an expression.

That an expression belongs to one statement is what makes it safe to remember values under
expressions. An activation that waits at a statement, while others inside it are run, finds what was
remembered for the expressions of the statement; and an expression that is suspended is one of the
statement that the activation is at, and of no other. Expressions inside a closure belong to the
statements of the closure.
-/

namespace TreeMachine

namespace Program

variable {p : Program} {n e n' e' n'' e'' : Nat} {own own' : List ExprId} {m m' : Mark}

/-! ### Counting -/

/-- How often the statement with a number evaluates an expression itself. -/
def stmtUses (p : Program) (c : ExprId) (i : Nat) : Nat :=
  ((p.stmt? ⟨i⟩).elim [] fun s => s.kind.exprs).count c

/-- How often an expression is a part of the one with a number. -/
def exprUses (p : Program) (c : ExprId) (i : Nat) : Nat :=
  ((p.expr? ⟨i⟩).elim [] Expr.parts).count c

/-- How often the nodes between numbers use an expression. -/
def usesBetween (p : Program) (n e n' e' : Nat) (c : ExprId) : Nat :=
  ∑ i ∈ Finset.Ico n n', p.stmtUses c i + ∑ i ∈ Finset.Ico e e', p.exprUses c i

/-- An expression between numbers counts once. -/
def exprBetween (e e' : Nat) (c : ExprId) : Nat :=
  if e ≤ c.index ∧ c.index < e' then 1 else 0

/-- **The nodes of a part use its expressions**, each of them once, except the given ones, which are
left to what comes after the part. -/
structure UsesOnce (p : Program) (n e n' e' : Nat) (own : List ExprId) : Prop where
  stmts : n ≤ n'
  exprs : e ≤ e'
  used : ∀ c, p.usesBetween n e n' e' c + own.count c = exprBetween e e' c

namespace UsesOnce

theorem refl (p : Program) (n e : Nat) : p.UsesOnce n e n e [] where
  stmts := Nat.le_refl _
  exprs := Nat.le_refl _
  used c := by
    have hempty : exprBetween e e c = 0 := if_neg fun h => Nat.not_le.2 h.2 h.1
    simp [usesBetween, hempty]

/-- Parts one after the other. -/
theorem trans (h : p.UsesOnce n e n' e' own) (h' : p.UsesOnce n' e' n'' e'' own') :
    p.UsesOnce n e n'' e'' (own ++ own') where
  stmts := Nat.le_trans h.stmts h'.stmts
  exprs := Nat.le_trans h.exprs h'.exprs
  used c := by
    have hused := h.used c
    have hused' := h'.used c
    have hle := h.exprs
    have hle' := h'.exprs
    rw [usesBetween] at hused hused'
    rw [usesBetween, ← Finset.sum_Ico_consecutive _ h.stmts h'.stmts,
      ← Finset.sum_Ico_consecutive _ hle hle', List.count_append]
    have hsplit : exprBetween e e'' c = exprBetween e e' c + exprBetween e' e'' c := by
      simp only [exprBetween]
      split <;> split <;> split <;> omega
    omega

/-- An expression comes after its parts, and uses them. -/
theorem expr {x : Expr} (hx : p.expr? ⟨e'⟩ = some x) (h : p.UsesOnce n e n' e' x.parts) :
    p.UsesOnce n e n' (e' + 1) [⟨e'⟩] where
  stmts := h.stmts
  exprs := Nat.le_succ_of_le h.exprs
  used c := by
    have hused := h.used c
    have hle := h.exprs
    rw [usesBetween] at hused
    rw [usesBetween, Finset.sum_Ico_succ_top h.exprs, exprUses, hx, Option.elim_some]
    have hlast : exprBetween e (e' + 1) c = exprBetween e e' c + [(⟨e'⟩ : ExprId)].count c := by
      rcases c with ⟨c⟩
      simp only [List.count_singleton, exprBetween, beq_iff_eq, ExprId.mk.injEq]
      split <;> split <;> split <;> omega
    omega

/-- A statement comes before what is linked for it, and uses the expressions. -/
theorem stmt {kind : StmtKind} {next parent : Option StmtId} {scope : ScopeId}
    (hs : p.stmt? ⟨n⟩ = some ⟨kind, next, parent, scope⟩)
    (h : p.UsesOnce (n + 1) e n' e' kind.exprs) : p.UsesOnce n e n' e' [] where
  stmts := Nat.le_of_succ_le h.stmts
  exprs := h.exprs
  used c := by
    have hused := h.used c
    rw [usesBetween] at hused
    rw [usesBetween, Finset.sum_eq_sum_Ico_succ_bot h.stmts, stmtUses, hs, List.count_nil]
    simp only [Option.elim_some]
    omega

end UsesOnce

/-! ### The nodes of a definition -/

/-- A sequence that begins after variables have been declared in a frame. -/
theorem UsesOnce.declared {names : List String} {m₁ : Mark}
    (h : p.UsesOnce (((m.enter []).declareAll names).1.enter []).stmts
      (((m.enter []).declareAll names).1.enter []).exprs m₁.stmts m₁.exprs own) :
    p.UsesOnce m.stmts m.exprs m₁.stmts m₁.exprs own := by
  obtain ⟨hstmts, hexprs⟩ := declareAll_sizes (m.enter []) names
  have hstart : (((m.enter []).declareAll names).1.enter []).stmts = m.stmts := hstmts
  have hstart' : (((m.enter []).declareAll names).1.enter []).exprs = m.exprs := hexprs
  rwa [hstart, hstart'] at h

mutual

/-- **The nodes of an expression** use what is linked for it, except itself. -/
theorem exprAt_usesOnce {scope : ScopeId} : ∀ {src : Source.Expr} {m m' : Mark} {i : ExprId},
    p.ExprAt scope src m m' i → p.UsesOnce m.stmts m.exprs m'.stmts m'.exprs [i]
  | .scalar _, m, _, _, ⟨rfl, rfl, hx⟩ => .expr hx (.refl p m.stmts m.exprs)
  | .var _, m, _, _, ⟨_, _, rfl, rfl, hx⟩ => .expr hx (.refl p m.stmts m.exprs)
  | .declare _, m, _, _, ⟨rfl, rfl, hx⟩ => .expr hx (.refl p m.stmts m.exprs)
  | .assign .., _, _, _, ⟨_, _, _, _, hv, rfl, rfl, hx⟩ => .expr hx (exprAt_usesOnce hv)
  | .name _, m, _, _, ⟨rfl, rfl, hx⟩ => .expr hx (.refl p m.stmts m.exprs)
  | .function _, m, _, _, ⟨_, _, rfl, rfl, hx⟩ => .expr hx (.refl p m.stmts m.exprs)
  | .call .., _, _, _, ⟨_, _, _, _, hc, has, rfl, rfl, hx⟩ =>
    .expr hx ((exprAt_usesOnce hc).trans (exprsAt_usesOnce has))
  | .choose .., _, _, _, ⟨_, _, _, _, _, _, hc, ht, hf, rfl, rfl, hx⟩ =>
    .expr hx (((exprAt_usesOnce hc).trans (exprAt_usesOnce ht)).trans (exprAt_usesOnce hf))
  | .closure .., _, _, _, ⟨_, _, hbody, rfl, rfl, hx⟩ =>
    .expr hx (seqAt_usesOnce hbody).declared

theorem exprsAt_usesOnce {scope : ScopeId} : ∀ {es : List Source.Expr} {m m' : Mark}
    {ids : List ExprId}, p.ExprsAt scope es m m' ids →
      p.UsesOnce m.stmts m.exprs m'.stmts m'.exprs ids
  | [], m, _, _, ⟨rfl, rfl⟩ => .refl p m.stmts m.exprs
  | _ :: _, _, _, _, ⟨_, _, _, he, hes, rfl⟩ => (exprAt_usesOnce he).trans (exprsAt_usesOnce hes)

/-- **The nodes of a statement** use what is linked for it. -/
theorem stmtAt_usesOnce {parent : Option StmtId} {scope : ScopeId} : ∀ {s : Source.Stmt}
    {next : Option StmtId} {m m' : Mark}, p.StmtAt parent scope s next m m' →
      p.UsesOnce m.stmts m.exprs m'.stmts m'.exprs []
  | .expr _, _, _, _, ⟨_, he, hs⟩ => .stmt hs (exprAt_usesOnce he)
  | .block _, _, _, _, ⟨_, _, hbody, rfl, hs⟩ => .stmt hs (seqAt_usesOnce hbody)
  | .loop .., _, _, _, ⟨_, _, _, _, hc, hbody, rfl, hs⟩ => by
    have hinside := seqAt_usesOnce hbody
    exact .stmt hs ((exprAt_usesOnce hc).trans hinside)
  | .forall .., _, _, _, ⟨_, _, is, _, his, hbody, rfl, hs⟩ => by
    have huses := (exprsAt_usesOnce his).trans (seqAt_usesOnce hbody).declared
    rw [List.append_nil] at huses
    exact .stmt hs huses
  | .branch .., _, _, _, ⟨_, _, _, _, _, _, hc, ht, hf, rfl, hs⟩ => by
    have hthen := seqAt_usesOnce ht
    have helse := seqAt_usesOnce hf
    exact .stmt hs (((exprAt_usesOnce hc).trans hthen).trans helse)
  | .select .., _, _, _, ⟨_, _, _, hc, harms, hs⟩ =>
    .stmt hs ((exprAt_usesOnce hc).trans (armsAt_usesOnce harms))
  | .return none, _, m, _, ⟨rfl, hs⟩ => .stmt hs (.refl p (m.stmts + 1) m.exprs)
  | .return (some _), _, _, _, ⟨_, hv, hs⟩ => .stmt hs (exprAt_usesOnce hv)
  | .label _, _, m, _, ⟨rfl, hs⟩ => .stmt hs (.refl p (m.stmts + 1) m.exprs)
  | .goto _, _, m, _, ⟨_, rfl, hs⟩ => .stmt hs (.refl p (m.stmts + 1) m.exprs)

/-- **The nodes of a sequence** use what is linked for it. -/
theorem seqAt_usesOnce {parent : Option StmtId} {scope : ScopeId} : ∀ {ss : List Source.Stmt}
    {m m' : Mark} {first : Option StmtId}, p.SeqAt parent scope ss m m' first →
      p.UsesOnce m.stmts m.exprs m'.stmts m'.exprs []
  | [], m, _, _, ⟨rfl, _⟩ => .refl p m.stmts m.exprs
  | _ :: _, _, _, _, ⟨_, _, hs, hss, _⟩ => (stmtAt_usesOnce hs).trans (seqAt_usesOnce hss)

theorem armAt_usesOnce {select : StmtId} {scope : ScopeId} : ∀ {a : Source.Arm}
    {next : Option StmtId} {m m' : Mark}, p.ArmAt select scope a next m m' →
      p.UsesOnce m.stmts m.exprs m'.stmts m'.exprs []
  | .mk .., _, _, _, ⟨_, _, _, _, hcs, hbody, rfl, hs⟩ => by
    have hinside := seqAt_usesOnce hbody
    have huses := (exprsAt_usesOnce hcs).trans hinside
    rw [List.append_nil] at huses
    exact .stmt hs huses

theorem armsAt_usesOnce {select : StmtId} {scope : ScopeId} : ∀ {as : List Source.Arm}
    {m m' : Mark} {first : Option StmtId}, p.ArmsAt select scope as m m' first →
      p.UsesOnce m.stmts m.exprs m'.stmts m'.exprs []
  | [], m, _, _, ⟨rfl, _⟩ => .refl p m.stmts m.exprs
  | _ :: _, _, _, _, ⟨_, _, ha, has, _⟩ => (armAt_usesOnce ha).trans (armsAt_usesOnce has)

end

/-! ### Functions and modules -/

theorem BodyAt.usesOnce {scope : ScopeId} {visible : List String} {ss : List Source.Stmt}
    {first : Option StmtId} (h : p.BodyAt scope visible ss m m' first) :
    p.UsesOnce m.stmts m.exprs m'.stmts m'.exprs [] := by
  obtain ⟨_, hat, rfl⟩ := h.placed
  have huses := seqAt_usesOnce hat
  exact huses

mutual

theorem functionAt_usesOnce : ∀ {f : Source.Function} {outer : ScopeId} {visible : List String}
    {id : FnId} {m m' : Mark}, p.FunctionAt outer visible f id m m' →
      p.UsesOnce m.stmts m.exprs m'.stmts m'.exprs []
  | .mk .., _, _, _, _, _, ⟨_, _, _, _, _, _, _, _, _, _, hbody, hinner, rfl⟩ => by
    have huses := hbody.usesOnce.trans (functionsAt_usesOnce hinner)
    exact huses

theorem functionsAt_usesOnce : ∀ {fs : List Source.Function} {scope : ScopeId}
    {visible : List String} {ids : List FnId} {m m' : Mark},
      p.FunctionsAt scope visible fs ids m m' → p.UsesOnce m.stmts m.exprs m'.stmts m'.exprs []
  | [], _, _, _, m, _, ⟨_, rfl⟩ => .refl p m.stmts m.exprs
  | _ :: _, _, _, _, _, _, ⟨_, _, _, _, hf, hfs⟩ =>
    (functionAt_usesOnce hf).trans (functionsAt_usesOnce hfs)

end

theorem modulesAt_usesOnce {visible : List String} {ds : List Source.Module} {ds' : List Module}
    (h : p.ModulesAt visible ds ds' m m') : p.UsesOnce m.stmts m.exprs m'.stmts m'.exprs [] := by
  induction ds generalizing ds' m with
  | nil =>
    obtain ⟨-, rfl⟩ := h
    exact .refl p m'.stmts m'.exprs
  | cons d ds ih =>
    obtain ⟨_, _, _, -, ⟨_, _, _, _, -, -, hbody, hfunctions, rfl⟩, hds⟩ := h
    have huses := hbody.usesOnce.trans (functionsAt_usesOnce hfunctions)
    have hrest := ih hds
    exact huses.trans hrest

/-- **Every expression of a linked program is used once.** -/
theorem usesOnce_of_link {d : Source.Program} (h : link d = .ok p) :
    p.UsesOnce 0 0 p.stmts.size p.exprs.size [] :=
  modulesAt_usesOnce (placed_of_link h).2

/-! ### The statement of an expression -/

/-- An expression belongs to a statement that evaluates it, itself or for another expression. -/
def BelongsTo (p : Program) (c : ExprId) (i : StmtId) : Prop :=
  ∃ s, p.stmt? i = some s ∧ ∃ r ∈ s.kind.exprs, p.Involves r c

/-- At most one term of a sum that is no more than one is not zero. -/
theorem eq_of_sum_le_one {f : Nat → Nat} {s : Finset Nat} (h : ∑ i ∈ s, f i ≤ 1) {i j : Nat}
    (hi : i ∈ s) (hj : j ∈ s) (hfi : 0 < f i) (hfj : 0 < f j) : i = j := by
  by_contra hne
  have hpair : f i + f j ≤ ∑ i ∈ s, f i := by
    rw [← Finset.sum_pair hne]
    exact Finset.sum_le_sum_of_subset (Finset.insert_subset hi (Finset.singleton_subset_iff.2 hj))
  omega

section Users

variable {c : ExprId} {i j : StmtId} {s t : Stmt} {x y : Expr} {a b : ExprId}

/-- What is used between numbers is used there at most once. -/
theorem UsesOnce.le_one (h : p.UsesOnce n e n' e' own) (c : ExprId) :
    p.usesBetween n e n' e' c ≤ 1 := by
  have hused := h.used c
  rw [exprBetween] at hused
  split at hused <;> omega

theorem stmtUses_pos (hs : p.stmt? i = some s) (hc : c ∈ s.kind.exprs) :
    i.index ∈ Finset.Ico 0 p.stmts.size ∧ 0 < p.stmtUses c i.index := by
  refine ⟨Finset.mem_Ico.2 ⟨Nat.zero_le _, stmt?_isSome.1 ⟨s, hs⟩⟩, ?_⟩
  rw [stmtUses, hs]
  exact List.count_pos_iff.2 hc

theorem exprUses_pos (hx : p.expr? a = some x) (hc : c ∈ x.parts) :
    a.index ∈ Finset.Ico 0 p.exprs.size ∧ 0 < p.exprUses c a.index := by
  refine ⟨Finset.mem_Ico.2 ⟨Nat.zero_le _, expr?_isSome.1 ⟨x, hx⟩⟩, ?_⟩
  rw [exprUses, hx]
  exact List.count_pos_iff.2 hc

/-- Two statements do not evaluate one expression. -/
theorem UsesOnce.stmt_unique (h : p.UsesOnce 0 0 p.stmts.size p.exprs.size own)
    (hs : p.stmt? i = some s) (hc : c ∈ s.kind.exprs) (ht : p.stmt? j = some t)
    (hc' : c ∈ t.kind.exprs) : i = j := by
  obtain ⟨hi, hpos⟩ := stmtUses_pos hs hc
  obtain ⟨hj, hpos'⟩ := stmtUses_pos ht hc'
  have hle := (Nat.le_add_right _ _).trans (h.le_one c)
  exact congrArg StmtId.mk (eq_of_sum_le_one hle hi hj hpos hpos')

/-- Two expressions do not have a part in common. -/
theorem UsesOnce.expr_unique (h : p.UsesOnce 0 0 p.stmts.size p.exprs.size own)
    (hx : p.expr? a = some x) (hc : c ∈ x.parts) (hy : p.expr? b = some y) (hc' : c ∈ y.parts) :
    a = b := by
  obtain ⟨ha, hpos⟩ := exprUses_pos hx hc
  obtain ⟨hb, hpos'⟩ := exprUses_pos hy hc'
  have hle := (Nat.le_add_left _ _).trans (h.le_one c)
  exact congrArg ExprId.mk (eq_of_sum_le_one hle ha hb hpos hpos')

/-- What a statement evaluates is not a part of an expression. -/
theorem UsesOnce.not_part (h : p.UsesOnce 0 0 p.stmts.size p.exprs.size own)
    (hs : p.stmt? i = some s) (hc : c ∈ s.kind.exprs) (hx : p.expr? a = some x) : c ∉ x.parts := by
  intro hc'
  obtain ⟨hi, hpos⟩ := stmtUses_pos hs hc
  obtain ⟨ha, hpos'⟩ := exprUses_pos hx hc'
  have hstmts := Finset.single_le_sum (f := p.stmtUses c) (fun _ _ => Nat.zero_le _) hi
  have hexprs := Finset.single_le_sum (f := p.exprUses c) (fun _ _ => Nat.zero_le _) ha
  have hle := h.le_one c
  rw [usesBetween] at hle
  omega

/-- **An expression belongs to one statement only.** -/
theorem BelongsTo.unique (h : p.UsesOnce 0 0 p.stmts.size p.exprs.size own)
    (hi : p.BelongsTo c i) (hj : p.BelongsTo c j) : i = j := by
  obtain ⟨s, hs, r, hr, hrc⟩ := hi
  obtain ⟨t, ht, r', hr', hrc'⟩ := hj
  induction hrc with
  | self =>
    cases hrc' with
    | self => exact h.stmt_unique hs hr ht hr'
    | part _ hy hc' => exact absurd hc' (h.not_part hs hr hy)
  | part _ hx hc ih =>
    cases hrc' with
    | self => exact absurd hc (h.not_part ht hr' hx)
    | part hre' hy hc' =>
      obtain rfl := h.expr_unique hx hc hy hc'
      exact ih hre'

end Users

end Program

end TreeMachine
