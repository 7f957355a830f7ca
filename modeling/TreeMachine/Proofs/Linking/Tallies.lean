import Mathlib.Algebra.BigOperators.Intervals
import TreeMachine.Proofs.Linking.Effects
import TreeMachine.Proofs.Tree.Sequences

/-!
# Every statement is led to once

The nodes between two marks are those of a definition, and so are the sequences that they record
(`Program.seqAt_tally`). Taken together, the successors and the first statements that are recorded
lead to each of the statements once. This is counted from mark to mark: `Program.Tally` says how
often a statement is led to from the nodes of a part, in terms of what leads into the part and out
of it.

Counting has an advantage over speaking about unique predecessors. Counts of adjacent parts are
added, whereas of two unique predecessors in different parts one would have to be excluded, for
which the parts would have to be compared. Here the count of a part is one for each of its own
statements, less what leads into it from outside, and more what it leads to outside; the terms for
outside cancel when the parts are put together.

There are four ways in which a statement may be led to, of which a tally keeps the count: as the
successor of a statement of the part, as the first of a sequence that a node of the part records, as
the first of one that is recorded by the node which is still to come, and from before the part. A
closure records a sequence as well, and it is an expression, so expressions and statements are
counted together.

The sequences of the definition are compared with those that are recorded in the same induction, as
lists. This is how it is known that nothing else is recorded.
-/

namespace TreeMachine

open Source (Sequence)

namespace Program

variable {p : Program} {n e n' e' n'' e'' size size' : Nat} {qs qs' : List Sequence}
  {recorded recorded' before before' after after' : StmtId → Nat}

/-! ### Counting -/

/-- How often the statement with a number records a first statement. -/
def firstsAt (p : Program) (c : StmtId) (i : Nat) : Nat :=
  ((p.stmt? ⟨i⟩).elim [] fun s => s.kind.children).count c

/-- How often the statement with a number has a successor. -/
def nextsAt (p : Program) (c : StmtId) (i : Nat) : Nat :=
  ((p.stmt? ⟨i⟩).elim [] fun s => s.next.toList).count c

/-- How often the expression with a number records a first statement. -/
def closuresAt (p : Program) (c : StmtId) (i : Nat) : Nat :=
  ((p.expr? ⟨i⟩).elim [] Expr.firsts).count c

/-- How often statements and expressions between numbers record a first statement. -/
def firstsBetween (p : Program) (n e n' e' : Nat) (c : StmtId) : Nat :=
  ∑ i ∈ Finset.Ico n n', p.firstsAt c i + ∑ i ∈ Finset.Ico e e', p.closuresAt c i

/-- How often statements between numbers have a successor. -/
def nextsBetween (p : Program) (n n' : Nat) (c : StmtId) : Nat :=
  ∑ i ∈ Finset.Ico n n', p.nextsAt c i

/-- A statement between numbers counts once. -/
def between (n n' : Nat) (c : StmtId) : Nat :=
  if n ≤ c.index ∧ c.index < n' then 1 else 0

theorem firstsBetween_append (hn : n ≤ n') (hn' : n' ≤ n'') (he : e ≤ e') (he' : e' ≤ e'')
    (c : StmtId) :
    p.firstsBetween n e n'' e'' c =
      p.firstsBetween n e n' e' c + p.firstsBetween n' e' n'' e'' c := by
  rw [firstsBetween, ← Finset.sum_Ico_consecutive _ hn hn', ← Finset.sum_Ico_consecutive _ he he',
    firstsBetween, firstsBetween]
  omega

theorem nextsBetween_append (hn : n ≤ n') (hn' : n' ≤ n'') (c : StmtId) :
    p.nextsBetween n n'' c = p.nextsBetween n n' c + p.nextsBetween n' n'' c :=
  (Finset.sum_Ico_consecutive _ hn hn').symm

theorem between_append (hn : n ≤ n') (hn' : n' ≤ n'') (c : StmtId) :
    between n n'' c = between n n' c + between n' n'' c := by
  simp only [between]
  split <;> split <;> split <;> omega

/-- **What the nodes of a part lead to.** The sequences that are recorded by them, or for them from
outside, are those of the definition. Each statement of the part is led to once: as a successor, as
the first of a sequence, or by what stands before the part; and other statements are led to only as
what comes after the part. -/
structure Tally (p : Program) (n e n' e' size : Nat) (qs : List Sequence)
    (recorded before after : StmtId → Nat) : Prop where
  size : n' = n + size
  exprs : e ≤ e'
  held : ∃ firsts,
    List.Forall₂ (fun q first => ∃ parent scope, p.Holds parent scope q first) qs firsts ∧
      ∀ c, p.firstsBetween n e n' e' c + recorded c = firsts.count (some c)
  led : ∀ c, p.nextsBetween n n' c + p.firstsBetween n e n' e' c + recorded c + before c =
    between n n' c + after c

theorem Tally.refl (p : Program) (n e : Nat) :
    p.Tally n e n e 0 [] (fun _ => 0) (fun _ => 0) fun _ => 0 where
  size := rfl
  exprs := Nat.le_refl _
  held := ⟨[], .nil, fun c => by simp [firstsBetween]⟩
  led c := by
    have hempty : between n n c = 0 := if_neg fun h => Nat.not_le.2 h.2 h.1
    simp [nextsBetween, firstsBetween, hempty]

/-- Parts one after the other. -/
theorem Tally.trans (h : p.Tally n e n' e' size qs recorded before after)
    (h' : p.Tally n' e' n'' e'' size' qs' recorded' before' after') :
    p.Tally n e n'' e'' (size + size') (qs ++ qs') (fun c => recorded c + recorded' c)
      (fun c => before c + before' c) fun c => after c + after' c := by
  have hn : n ≤ n' := h.size ▸ Nat.le_add_right _ _
  have hn' : n' ≤ n'' := h'.size ▸ Nat.le_add_right _ _
  have hfirsts := firstsBetween_append (p := p) hn hn' h.exprs h'.exprs
  obtain ⟨firsts, hholds, hcount⟩ := h.held
  obtain ⟨firsts', hholds', hcount'⟩ := h'.held
  refine ⟨by rw [h'.size, h.size, Nat.add_assoc], Nat.le_trans h.exprs h'.exprs,
    ⟨firsts ++ firsts', List.rel_append hholds hholds', fun c => ?_⟩, fun c => ?_⟩
  · rw [List.count_append, ← hcount, ← hcount', hfirsts]
    omega
  · have hled := h.led c
    have hled' := h'.led c
    rw [hfirsts, nextsBetween_append hn hn', between_append hn hn']
    omega

/-- An expression comes after its parts, and a closure records the first statement of its body. -/
theorem Tally.expr (h : p.Tally n e n' e' size qs recorded before after) {x : Expr}
    (hx : p.expr? ⟨e'⟩ = some x) (hrecorded : ∀ c, recorded c = x.firsts.count c) :
    p.Tally n e n' (e' + 1) size qs (fun _ => 0) before after := by
  have hfirsts : ∀ c, p.firstsBetween n e n' (e' + 1) c =
      p.firstsBetween n e n' e' c + recorded c := by
    intro c
    rw [firstsBetween, Finset.sum_Ico_succ_top h.exprs, ← Nat.add_assoc, closuresAt, hx, hrecorded]
    rfl
  obtain ⟨firsts, hholds, hcount⟩ := h.held
  refine ⟨h.size, Nat.le_succ_of_le h.exprs, ⟨firsts, hholds, fun c => ?_⟩, fun c => ?_⟩
  · rw [hfirsts, Nat.add_zero, hcount]
  · rw [hfirsts, Nat.add_zero, ← Nat.add_assoc, h.led]

/-- A statement comes before its parts, records the first statements of the sequences inside it, and
leads to its successor. -/
theorem Tally.stmt {kind : StmtKind} {next parent : Option StmtId} {scope : ScopeId}
    (hs : p.stmt? ⟨n⟩ = some ⟨kind, next, parent, scope⟩)
    (h : p.Tally (n + 1) e n' e' size qs recorded (fun _ => 0) fun _ => 0)
    (hrecorded : ∀ c, recorded c = kind.children.count c) :
    p.Tally n e n' e' (1 + size) qs (fun _ => 0) (between n (n + 1))
      fun c => next.toList.count c := by
  have hn' : n + 1 ≤ n' := h.size ▸ Nat.le_add_right _ _
  have hfirsts : ∀ c, p.firstsBetween n e n' e' c =
      p.firstsBetween (n + 1) e n' e' c + recorded c := by
    intro c
    rw [firstsBetween, Finset.sum_eq_sum_Ico_succ_bot hn', firstsBetween, firstsAt, hs, hrecorded]
    simp only [Option.elim_some]
    omega
  have hnexts : ∀ c, p.nextsBetween n n' c = next.toList.count c + p.nextsBetween (n + 1) n' c := by
    intro c
    rw [nextsBetween, Finset.sum_eq_sum_Ico_succ_bot hn', nextsAt, hs]
    rfl
  obtain ⟨firsts, hholds, hcount⟩ := h.held
  refine ⟨by rw [h.size, Nat.add_assoc], h.exprs, ⟨firsts, hholds, fun c => ?_⟩, fun c => ?_⟩
  · rw [hfirsts, Nat.add_zero, hcount]
  · have hled := h.led c
    rw [hfirsts, hnexts, between_append (Nat.le_add_right n 1) hn']
    omega

/-- A statement of a sequence leads to the rest of it. -/
theorem Tally.cons {next : Option StmtId}
    (h : p.Tally n e n' e' size qs (fun _ => 0) (between n (n + 1)) fun c => next.toList.count c)
    (h' : p.Tally n' e' n'' e'' size' qs' (fun _ => 0) (fun c => next.toList.count c) fun _ => 0) :
    p.Tally n e n'' e'' (size + size') (qs ++ qs') (fun _ => 0)
      (fun c => (some (⟨n⟩ : StmtId)).toList.count c) fun _ => 0 := by
  have hall := h.trans h'
  refine ⟨hall.size, hall.exprs, hall.held, fun c => ?_⟩
  have hled := hall.led c
  have hfirst : (some (⟨n⟩ : StmtId)).toList.count c = between n (n + 1) c := by
    rcases c with ⟨c⟩
    simp only [Option.toList_some, List.count_singleton, between, beq_iff_eq, StmtId.mk.injEq]
    split <;> split <;> omega
  omega

/-- The first statement of a sequence is recorded outside. -/
theorem Tally.own {first parent : Option StmtId} {scope : ScopeId} {q : Sequence}
    (h : p.Tally n e n' e' size qs (fun _ => 0) (fun c => first.toList.count c) fun _ => 0)
    (hq : p.Holds parent scope q first) :
    p.Tally n e n' e' size (q :: qs) (fun c => first.toList.count c) (fun _ => 0) fun _ => 0 := by
  obtain ⟨firsts, hholds, hcount⟩ := h.held
  refine ⟨h.size, h.exprs, ⟨first :: firsts, .cons ⟨parent, scope, hq⟩ hholds, fun c => ?_⟩,
    fun c => ?_⟩
  · rw [List.count_cons, ← hcount]
    cases first with
    | none => rfl
    | some f => simp [List.count_cons]
  · have hled := h.led c
    omega

/-! ### The nodes of a definition -/

/-- Jumps go to labels of the names that they are written with. -/
def Named (p : Program) (gotos : List (StmtId × String)) : Prop :=
  ∀ g ∈ gotos, p.NamesLabel g.1 g.2

theorem Named.append {gotos gotos' : List (StmtId × String)} (h : p.Named (gotos ++ gotos')) :
    p.Named gotos ∧ p.Named gotos' :=
  List.forall_mem_append.1 h

/-- Declaring variables adds neither statements nor expressions. -/
theorem declareAll_sizes (m : Mark) (names : List String) :
    (m.declareAll names).1.stmts = m.stmts ∧ (m.declareAll names).1.exprs = m.exprs := by
  induction names generalizing m with
  | nil => exact ⟨rfl, rfl⟩
  | cons name names ih => exact ih (m.declare name)

mutual

/-- **The nodes of an expression** between two marks are the expression of the definition. -/
theorem exprAt_tally {scope : ScopeId} : ∀ {src : Source.Expr} {m m' : Mark} {i : ExprId},
    p.ExprAt scope src m m' i → p.Named (src.gotos m.stmts) →
      p.ExprOf scope src i ∧ p.Tally m.stmts m.exprs m'.stmts m'.exprs src.size src.sequences
        (fun _ => 0) (fun _ => 0) fun _ => 0
  | .scalar _, m, _, _, ⟨rfl, rfl, hx⟩, _ =>
    ⟨hx, (Tally.refl p m.stmts m.exprs).expr hx fun _ => rfl⟩
  | .var _, m, _, _, ⟨_, _, rfl, rfl, hx⟩, _ =>
    ⟨⟨_, hx⟩, (Tally.refl p m.stmts m.exprs).expr hx fun _ => rfl⟩
  | .declare _, m, _, _, ⟨rfl, rfl, hx⟩, _ =>
    ⟨⟨_, hx⟩, (Tally.refl p m.stmts m.exprs).expr hx fun _ => rfl⟩
  | .assign _ value, m, _, _, ⟨_, _, _, _, hv, rfl, rfl, hx⟩, hnamed => by
    obtain ⟨hof, htally⟩ := exprAt_tally hv hnamed
    exact ⟨⟨_, _, hx, hof⟩, htally.expr hx fun _ => rfl⟩
  | .name _, m, _, _, ⟨rfl, rfl, hx⟩, _ =>
    ⟨hx, (Tally.refl p m.stmts m.exprs).expr hx fun _ => rfl⟩
  | .function _, m, _, _, ⟨_, _, rfl, rfl, hx⟩, _ =>
    ⟨⟨_, hx⟩, (Tally.refl p m.stmts m.exprs).expr hx fun _ => rfl⟩
  | .call callee args, m, _, _, ⟨_, _, _, _, hc, has, rfl, rfl, hx⟩, hnamed => by
    obtain ⟨hnamed₁, hnamed₂⟩ := hnamed.append
    obtain ⟨hof₁, htally₁⟩ := exprAt_tally hc hnamed₁
    rw [← htally₁.size] at hnamed₂
    obtain ⟨hof₂, htally₂⟩ := exprsAt_tally has hnamed₂
    exact ⟨⟨_, _, hx, hof₁, hof₂⟩, (htally₁.trans htally₂).expr hx fun _ => rfl⟩
  | .choose cond thenExpr elseExpr, m, _, _, ⟨_, _, _, _, _, _, hc, ht, hf, rfl, rfl, hx⟩,
    hnamed => by
    obtain ⟨hnamed', hnamed₃⟩ := hnamed.append
    obtain ⟨hnamed₁, hnamed₂⟩ := hnamed'.append
    obtain ⟨hof₁, htally₁⟩ := exprAt_tally hc hnamed₁
    rw [← htally₁.size] at hnamed₂ hnamed₃
    obtain ⟨hof₂, htally₂⟩ := exprAt_tally ht hnamed₂
    rw [← htally₂.size] at hnamed₃
    obtain ⟨hof₃, htally₃⟩ := exprAt_tally hf hnamed₃
    exact ⟨⟨_, _, _, hx, hof₁, hof₂, hof₃⟩,
      ((htally₁.trans htally₂).trans htally₃).expr hx fun _ => rfl⟩
  | .closure params body, m, _, _, ⟨_, first, hbody, rfl, rfl, hx⟩, hnamed => by
    obtain ⟨hstmts, hexprs⟩ := declareAll_sizes (m.enter []) params
    have hstart : (((m.enter []).declareAll params).1.enter []).stmts = m.stmts := hstmts
    have hstart' : (((m.enter []).declareAll params).1.enter []).exprs = m.exprs := hexprs
    obtain ⟨hof, htally⟩ := seqAt_tally hbody (hstart ▸ hnamed)
    rw [hstart, hstart'] at htally
    have hown := htally.own (q := .stmts body) hof
    exact ⟨⟨_, first, hx, hof⟩, hown.expr hx fun _ => rfl⟩

theorem exprsAt_tally {scope : ScopeId} : ∀ {es : List Source.Expr} {m m' : Mark}
    {ids : List ExprId}, p.ExprsAt scope es m m' ids → p.Named (Source.exprsGotos m.stmts es) →
      p.ExprsOf scope es ids ∧ p.Tally m.stmts m.exprs m'.stmts m'.exprs (Source.exprsSize es)
        (Source.exprsSequences es) (fun _ => 0) (fun _ => 0) fun _ => 0
  | [], m, _, _, ⟨rfl, rfl⟩, _ => ⟨rfl, .refl p _ _⟩
  | e :: es, m, _, _, ⟨_, _, _, he, hes, rfl⟩, hnamed => by
    obtain ⟨hnamed₁, hnamed₂⟩ := hnamed.append
    obtain ⟨hof₁, htally₁⟩ := exprAt_tally he hnamed₁
    rw [← htally₁.size] at hnamed₂
    obtain ⟨hof₂, htally₂⟩ := exprsAt_tally hes hnamed₂
    exact ⟨⟨_, _, rfl, hof₁, hof₂⟩, htally₁.trans htally₂⟩

/-- **The nodes of a statement** between two marks are the statement of the definition. -/
theorem stmtAt_tally {parent : Option StmtId} {scope : ScopeId} : ∀ {s : Source.Stmt}
    {next : Option StmtId} {m m' : Mark}, p.StmtAt parent scope s next m m' →
      p.Named (s.gotos m.stmts) →
      p.StmtOf parent scope s m.stmtId next ∧ p.Tally m.stmts m.exprs m'.stmts m'.exprs s.size
        s.sequences (fun _ => 0) (between m.stmts (m.stmts + 1)) fun c => next.toList.count c
  | .expr e, next, m, _, ⟨_, he, hs⟩, hnamed => by
    obtain ⟨hof, htally⟩ := exprAt_tally he hnamed
    exact ⟨⟨_, hs, hof⟩, htally.stmt hs fun _ => rfl⟩
  | .block body, next, m, _, ⟨_, first, hbody, rfl, hs⟩, hnamed => by
    obtain ⟨hof, htally⟩ := seqAt_tally hbody hnamed
    have hown := htally.own (q := .stmts body) hof
    exact ⟨⟨first, hs, hof⟩, hown.stmt hs fun _ => rfl⟩
  | .loop cond body _, next, m, _, ⟨_, _, _, first, hc, hbody, rfl, hs⟩, hnamed => by
    obtain ⟨hnamed₁, hnamed₂⟩ := hnamed.append
    obtain ⟨hof₁, htally₁⟩ := exprAt_tally hc hnamed₁
    rw [← show _ = m.stmts + 1 + cond.size from htally₁.size] at hnamed₂
    obtain ⟨hof₂, htally₂⟩ := seqAt_tally hbody hnamed₂
    have hown := htally₂.own (q := .stmts body) hof₂
    exact ⟨⟨_, first, hs, hof₁, hof₂⟩, (htally₁.trans hown).stmt hs fun _ => Nat.zero_add _⟩
  | .forall indices iterators body, next, m, _, ⟨m₁, _, _, first, his, hbody, rfl, hs⟩, hnamed => by
    obtain ⟨hnamed₁, hnamed₂⟩ := hnamed.append
    obtain ⟨hof₁, htally₁⟩ := exprsAt_tally his hnamed₁
    obtain ⟨hstmts, hexprs⟩ := declareAll_sizes (m₁.enter []) indices
    have hstart : (((m₁.enter []).declareAll indices).1.enter []).stmts = m₁.stmts := hstmts
    have hstart' : (((m₁.enter []).declareAll indices).1.enter []).exprs = m₁.exprs := hexprs
    rw [← show _ = m.stmts + 1 + Source.exprsSize iterators from htally₁.size, ← hstart] at hnamed₂
    obtain ⟨hof₂, htally₂⟩ := seqAt_tally hbody hnamed₂
    rw [hstart, hstart'] at htally₂
    have hown := htally₂.own (q := .stmts body) hof₂
    exact ⟨⟨_, _, first, hs, hof₁, hof₂⟩, (htally₁.trans hown).stmt hs fun _ => Nat.zero_add _⟩
  | .branch cond thenBody elseBody, next, m, _, ⟨m₁, _, _, _, thenFirst, elseFirst, hc, ht, hf, rfl,
    hs⟩, hnamed => by
    obtain ⟨hnamed', hnamed₃⟩ := hnamed.append
    obtain ⟨hnamed₁, hnamed₂⟩ := hnamed'.append
    obtain ⟨hof₁, htally₁⟩ := exprAt_tally hc hnamed₁
    rw [← show _ = m.stmts + 1 + cond.size from htally₁.size] at hnamed₂ hnamed₃
    obtain ⟨hof₂, htally₂⟩ := seqAt_tally ht hnamed₂
    rw [← show _ = m₁.stmts + Source.stmtsSize thenBody from htally₂.size] at hnamed₃
    obtain ⟨hof₃, htally₃⟩ := seqAt_tally hf hnamed₃
    have hown₂ := htally₂.own (q := .stmts thenBody) hof₂
    have hown₃ := htally₃.own (q := .stmts elseBody) hof₃
    refine ⟨⟨_, thenFirst, elseFirst, hs, hof₁, hof₂, hof₃⟩,
      ((htally₁.trans hown₂).trans hown₃).stmt hs fun c => ?_⟩
    simp only [StmtKind.children, List.count_append, Nat.zero_add]
  | .select selector arms, next, m, _, ⟨_, _, first, hc, harms, hs⟩, hnamed => by
    obtain ⟨hnamed₁, hnamed₂⟩ := hnamed.append
    obtain ⟨hof₁, htally₁⟩ := exprAt_tally hc hnamed₁
    rw [← show _ = m.stmts + 1 + selector.size from htally₁.size] at hnamed₂
    obtain ⟨hof₂, htally₂⟩ := armsAt_tally harms hnamed₂
    have hown := htally₂.own (q := .arms arms) ⟨_, rfl, hof₂⟩
    exact ⟨⟨_, first, hs, hof₁, hof₂⟩, (htally₁.trans hown).stmt hs fun _ => Nat.zero_add _⟩
  | .return none, next, m, _, ⟨rfl, hs⟩, _ =>
    ⟨hs, (Tally.refl p (m.stmts + 1) m.exprs).stmt hs fun _ => rfl⟩
  | .return (some value), next, m, _, ⟨_, hv, hs⟩, hnamed => by
    obtain ⟨hof, htally⟩ := exprAt_tally hv hnamed
    exact ⟨⟨_, hs, hof⟩, htally.stmt hs fun _ => rfl⟩
  | .label _, next, m, _, ⟨rfl, hs⟩, _ =>
    ⟨hs, (Tally.refl p (m.stmts + 1) m.exprs).stmt hs fun _ => rfl⟩
  | .goto label, next, m, _, ⟨target, rfl, hs⟩, hnamed => by
    obtain ⟨s, t, s', hs', hk, ht, hk'⟩ := hnamed _ (List.mem_singleton_self _)
    cases hs.symm.trans hs'
    cases hk
    exact ⟨⟨target, s', hs, ht, hk'⟩, (Tally.refl p (m.stmts + 1) m.exprs).stmt hs fun _ => rfl⟩

/-- **The nodes of a sequence** between two marks are the list of the definition. Its first
statement is led to from outside. -/
theorem seqAt_tally {parent : Option StmtId} {scope : ScopeId} : ∀ {ss : List Source.Stmt}
    {m m' : Mark} {first : Option StmtId}, p.SeqAt parent scope ss m m' first →
      p.Named (Source.stmtsGotos m.stmts ss) →
      p.SeqOf parent scope ss first ∧ p.Tally m.stmts m.exprs m'.stmts m'.exprs
        (Source.stmtsSize ss) (Source.stmtsSequences ss) (fun _ => 0)
        (fun c => first.toList.count c) fun _ => 0
  | [], m, _, _, ⟨rfl, rfl⟩, _ => ⟨rfl, .refl p _ _⟩
  | s :: ss, m, _, _, ⟨_, next, hs, hss, rfl⟩, hnamed => by
    obtain ⟨hnamed₁, hnamed₂⟩ := hnamed.append
    obtain ⟨hof₁, htally₁⟩ := stmtAt_tally hs hnamed₁
    rw [← htally₁.size] at hnamed₂
    obtain ⟨hof₂, htally₂⟩ := seqAt_tally hss hnamed₂
    exact ⟨⟨_, next, rfl, hof₁, hof₂⟩, htally₁.cons htally₂⟩

theorem armAt_tally {select : StmtId} {scope : ScopeId} : ∀ {a : Source.Arm}
    {next : Option StmtId} {m m' : Mark}, p.ArmAt select scope a next m m' →
      p.Named (a.gotos m.stmts) →
      p.ArmOf select scope a m.stmtId next ∧ p.Tally m.stmts m.exprs m'.stmts m'.exprs a.size
        a.sequences (fun _ => 0) (between m.stmts (m.stmts + 1)) fun c => next.toList.count c
  | .mk cases body, next, m, _, ⟨_, _, _, first, hcs, hbody, rfl, hs⟩, hnamed => by
    obtain ⟨hnamed₁, hnamed₂⟩ := hnamed.append
    obtain ⟨hof₁, htally₁⟩ := exprsAt_tally hcs hnamed₁
    rw [← show _ = m.stmts + 1 + Source.exprsSize cases from htally₁.size] at hnamed₂
    obtain ⟨hof₂, htally₂⟩ := seqAt_tally hbody hnamed₂
    have hown := htally₂.own (q := .stmts body) hof₂
    exact ⟨⟨_, first, hs, hof₁, hof₂⟩, (htally₁.trans hown).stmt hs fun _ => Nat.zero_add _⟩

theorem armsAt_tally {select : StmtId} {scope : ScopeId} : ∀ {as : List Source.Arm}
    {m m' : Mark} {first : Option StmtId}, p.ArmsAt select scope as m m' first →
      p.Named (Source.armsGotos m.stmts as) →
      p.ArmsOf select scope as first ∧ p.Tally m.stmts m.exprs m'.stmts m'.exprs
        (Source.armsSize as) (Source.armsSequences as) (fun _ => 0)
        (fun c => first.toList.count c) fun _ => 0
  | [], m, _, _, ⟨rfl, rfl⟩, _ => ⟨rfl, .refl p _ _⟩
  | a :: as, m, _, _, ⟨_, next, ha, has, rfl⟩, hnamed => by
    obtain ⟨hnamed₁, hnamed₂⟩ := hnamed.append
    obtain ⟨hof₁, htally₁⟩ := armAt_tally ha hnamed₁
    rw [← htally₁.size] at hnamed₂
    obtain ⟨hof₂, htally₂⟩ := armsAt_tally has hnamed₂
    exact ⟨⟨_, next, rfl, hof₁, hof₂⟩, htally₁.cons htally₂⟩

end

end Program

end TreeMachine
