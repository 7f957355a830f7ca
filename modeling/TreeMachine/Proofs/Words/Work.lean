import TreeMachine.Proofs.Execution.Rules
import TreeMachine.Proofs.Snapshot.Contexts
import TreeMachine.Proofs.Soundness.Values

/-!
# Units of work keep to 32 bits

The ids and the stages of an activation have 32 bits (`Frame.Fits`). They keep to that in every unit
of work for a program whose tables and whose lists of arguments and cases are short enough for it
(`Program.Small`): what a unit of work writes is an id of the program, a stage of one of its nodes,
or something that was in the activation before.

Numbers are natural numbers in the model, and they have words in the format of snapshots, where a
reader refuses what does not fit. So this is a condition for a snapshot to be read back, and not an
invariant that a run would have to check. It is an instance of the rules for units of work, in which
the property in the middle is the one of the activation.

The stages of most kinds are a few small numbers. Only those of a call depend on the number of its
arguments, and those of an arm on the number of its cases, which is why these lists are mentioned in
`Program.Small`. The other conditions are on the sizes of the tables: since ids are in range, they
have 32 bits if the tables have no more entries than that.
-/

namespace TreeMachine

/-! ### Programs -/

/-- The number of arguments of an expression that is a call. -/
def Expr.argCount : Expr → Nat
  | .call _ args => args.length
  | _ => 0

/-- The number of cases of a statement that is an arm. -/
def StmtKind.caseCount : StmtKind → Nat
  | .arm cases _ => cases.length
  | _ => 0

/-- Only the stages of an arm depend on its number of cases. -/
theorem StmtKind.le_of_hasStage {kind : StmtKind} {stage : Nat} (h : kind.hasStage stage = true) :
    stage ≤ 6 ∨ stage ≤ kind.caseCount + 1 := by
  by_cases hle : stage ≤ 6
  · exact .inl hle
  · obtain ⟨n, rfl⟩ : ∃ n, stage = n + 7 := ⟨stage - 7, by omega⟩
    cases kind with
    | arm cases body => exact .inr (ArmStage.le_of_isSome h)
    | _ => cases h

theorem Expr.le_of_resumesAt {x : Expr} {stage : Nat} (h : x.resumesAt stage = true) :
    stage ≤ x.argCount + 1 := by
  cases x with
  | assign target value => exact Nat.le_of_eq (beq_iff_eq.1 h)
  | choose cond thenExpr elseExpr => exact Nat.le_of_eq (beq_iff_eq.1 h)
  | call callee args => exact of_decide_eq_true (Bool.and_eq_true_iff.1 h).2
  | _ => cases h

/-- The tables of a program, and the lists of arguments and cases in it, are short enough for its
ids and its stages to have 32 bits. -/
structure Program.Small (p : Program) : Prop where
  stmts : p.stmts.size ≤ Word.max32
  exprs : p.exprs.size ≤ Word.max32
  vars : p.vars.size ≤ Word.max32
  functions : p.functions.size ≤ Word.max32
  scopes : p.scopes.size ≤ Word.max32
  args : ∀ x ∈ p.exprs.toList, x.argCount + 2 ≤ Word.max32
  cases : ∀ s ∈ p.stmts.toList, s.kind.caseCount + 1 ≤ Word.max32

instance (p : Program) : Decidable p.Small :=
  decidable_of_iff (p.stmts.size ≤ Word.max32 ∧ p.exprs.size ≤ Word.max32 ∧
      p.vars.size ≤ Word.max32 ∧ p.functions.size ≤ Word.max32 ∧ p.scopes.size ≤ Word.max32 ∧
      (∀ x ∈ p.exprs.toList, x.argCount + 2 ≤ Word.max32) ∧
      ∀ s ∈ p.stmts.toList, s.kind.caseCount + 1 ≤ Word.max32)
    ⟨fun ⟨h₁, h₂, h₃, h₄, h₅, h₆, h₇⟩ => ⟨h₁, h₂, h₃, h₄, h₅, h₆, h₇⟩,
      fun ⟨h₁, h₂, h₃, h₄, h₅, h₆, h₇⟩ => ⟨h₁, h₂, h₃, h₄, h₅, h₆, h₇⟩⟩

namespace Program.Small

variable {p : Program}

theorem stmt (h : p.Small) {i : StmtId} {s : Stmt} (hs : p.stmt? i = some s) :
    i.index ≤ Word.max32 :=
  Nat.le_trans (Nat.le_of_lt (Array.getElem?_eq_some_iff.1 hs).1) h.stmts

theorem expr (h : p.Small) {e : ExprId} {x : Expr} (hx : p.expr? e = some x) :
    e.index ≤ Word.max32 :=
  Nat.le_trans (Nat.le_of_lt (Array.getElem?_eq_some_iff.1 hx).1) h.exprs

theorem function (h : p.Small) {id : FnId} {f : Function} (hf : p.function? id = some f) :
    id.index ≤ Word.max32 :=
  Nat.le_trans (Nat.le_of_lt (Array.getElem?_eq_some_iff.1 hf).1) h.functions

/-- The expressions that a statement evaluates. -/
theorem stmtExpr (h : p.Small) (hp : p.WellFormed) {i : StmtId} {s : Stmt}
    (hs : p.stmt? i = some s) {e : ExprId} (he : e ∈ s.kind.exprs) : e.index ≤ Word.max32 := by
  obtain ⟨x, hx⟩ := (hp.stmts i s hs).exprs e he
  exact h.expr hx

/-- The sequences in a statement. -/
theorem child (h : p.Small) (hp : p.WellFormed) {i : StmtId} {s : Stmt}
    (hs : p.stmt? i = some s) {c : StmtId} (hc : c ∈ s.kind.children) : c.index ≤ Word.max32 := by
  obtain ⟨t, ht, -⟩ := (hp.stmts i s hs).children c hc
  exact h.stmt ht

/-- The parts of an expression. -/
theorem part (h : p.Small) (hp : p.WellFormed) {e : ExprId} {x : Expr} (hx : p.expr? e = some x)
    {c : ExprId} (hc : c ∈ x.parts) : c.index ≤ Word.max32 := by
  obtain ⟨y, hy⟩ := hp.part hx hc
  exact h.expr hy

/-- The variables that an expression names. -/
theorem exprVar (h : p.Small) (hp : p.WellFormed) {e : ExprId} {x : Expr}
    (hx : p.expr? e = some x) {y : VarId} (hy : y ∈ x.vars) : y.index ≤ Word.max32 :=
  Nat.le_trans (Nat.le_of_lt ((hp.exprs e x hx).vars y hy)) h.vars

/-- The keys that a statement writes. -/
theorem stmtKey (h : p.Small) (hp : p.WellFormed) {i : StmtId} {s : Stmt}
    (hs : p.stmt? i = some s) {k : Key} (hk : Frame.StmtKey i s k) : k.index ≤ Word.max32 := by
  cases hk with
  | own => exact h.stmt hs
  | expr he => exact h.stmtExpr hp hs he
  | var hy => exact Nat.le_trans (Nat.le_of_lt ((hp.stmts i s hs).vars _ hy)) h.vars

theorem stmtStage (h : p.Small) {i : StmtId} {s : Stmt} (hs : p.stmt? i = some s) {stage : Nat}
    (hstage : s.kind.hasStage stage = true) : stage ≤ Word.max32 := by
  have hsmall : 6 ≤ Word.max32 := by decide
  have hcases := h.cases s (Array.mem_toList_iff.2 (Array.mem_of_getElem? hs))
  rcases StmtKind.le_of_hasStage hstage with hle | hle
  · exact Nat.le_trans hle hsmall
  · exact Nat.le_trans hle hcases

/-- The stages at which an expression is resumed. -/
theorem exprStage (h : p.Small) {e : ExprId} {x : Expr} (hx : p.expr? e = some x) {stage : Nat}
    (hstage : x.resumesAt stage = true) : stage ≤ Word.max32 := by
  have hargs := h.args x (Array.mem_toList_iff.2 (Array.mem_of_getElem? hx))
  have hle := Expr.le_of_resumesAt hstage
  omega

end Program.Small

/-! ### Values and environments -/

theorem Value.Plain.fits {v : Value} (h : v.Plain) : v.Fits := by
  rcases h with rfl | ⟨s, rfl⟩ <;> trivial

namespace Env.Fits

variable {env : Env}

theorem empty : Env.empty.Fits :=
  nofun

theorem get? (h : env.Fits) {k : Key} {v : Value} (hv : env.get? k = some v) : v.Fits :=
  (h (k, v) (get?_eq_some_iff.1 hv)).2

theorem put (h : env.Fits) {k : Key} (hk : k.index ≤ Word.max32) {v : Value} (hv : v.Fits) :
    (env.put k v).Fits := by
  intro e he
  rcases mem_insert he with rfl | he
  · exact ⟨hk, hv⟩
  · exact h e he

end Env.Fits

/-! ### Units of work -/

/-- What a unit of work leaves behind has words of 32 bits. -/
def Work.Fits (w : Work) : Prop :=
  w.1.Fits ∧ ∀ v, w.2 = .ok (.leave v) → v.Fits

namespace Frame.Fits

variable {p : Program} {f : Frame}

theorem start {stmt : Option StmtId} {scope : ScopeId}
    (hstmt : ∀ s, stmt = some s → s.index ≤ Word.max32) (hscope : scope.index ≤ Word.max32) :
    (Frame.start stmt scope).Fits where
  env := .empty
  waiting := nofun
  resumes := nofun
  suspended := nofun
  operands := nofun
  stmt := hstmt
  expr := nofun
  stage := Nat.zero_le _
  exprStage := Nat.zero_le _
  function := nofun
  scope := hscope

theorem push (h : f.Fits) {v : Value} (hv : v.Fits) : (f.push v).Fits :=
  { h with operands := List.forall_mem_cons.2 ⟨hv, h.operands⟩ }

theorem put (h : f.Fits) {k : Key} (hk : k.index ≤ Word.max32) {v : Value} (hv : v.Fits) :
    Frame.Fits { f with env := f.env.put k v } :=
  { h with env := h.env.put hk hv }

theorem setStage (h : f.Fits) {stage : Nat} (hstage : stage ≤ Word.max32) :
    Frame.Fits { f with stage := stage } :=
  { h with stage := hstage }

/-- Finishing an expression moves words around. -/
theorem finish (h : f.Fits) {v : Value} (hv : v.Fits) : (f.finish v).Fits := by
  rw [finish_eq]
  refine { h with env := ?_, suspended := ?_, operands := ?_, expr := ?_, exprStage := ?_ }
  · unfold remember
    split
    · rename_i e he
      exact h.env.put (k := .expr e) (h.expr e he) hv
    · exact h.env
  · exact fun e he => h.suspended e (List.mem_of_mem_tail he)
  · exact List.forall_mem_cons.2 ⟨hv, h.operands⟩
  · intro e he
    obtain ⟨d, hd, rfl⟩ := Option.map_eq_some_iff.1 he
    exact (h.suspended d (List.mem_of_mem_head? hd)).1
  · cases hd : f.suspended.head? with
    | none => exact Nat.zero_le _
    | some d => exact (h.suspended d (List.mem_of_mem_head? hd)).2

/-! ### Ways to go on -/

theorem pending (h : f.Fits) : Work.Fits (f.demand .pending) :=
  ⟨h, nofun⟩

theorem complete (h : f.Fits) : Work.Fits (f.demand .complete) :=
  ⟨h, nofun⟩

theorem operand (h : f.Fits) {v : Value} {rest : List Value} (hoperands : f.operands = v :: rest) :
    v.Fits ∧ Frame.Fits { f with operands := rest } := by
  obtain ⟨hv, hrest⟩ := List.forall_mem_cons.1 (hoperands ▸ h.operands)
  exact ⟨hv, { h with operands := hrest }⟩

theorem evaluate (h : f.Fits) {e : ExprId} (he : e.index ≤ Word.max32) {resume : Nat}
    (hresume : resume ≤ Word.max32) : Work.Fits (f.evaluate e resume) := by
  have hexpr : ∀ e', some e = some e' → e'.index ≤ Word.max32 := by
    rintro e' ⟨⟩
    exact he
  unfold Frame.evaluate Frame.eval
  split
  · rename_i current hcurrent
    have hsuspended : ∀ d ∈ (current, resume) :: f.suspended,
        d.1.index ≤ Word.max32 ∧ d.2 ≤ Word.max32 :=
      List.forall_mem_cons.2 ⟨⟨h.expr current hcurrent, hresume⟩, h.suspended⟩
    exact pending
      { h with suspended := hsuspended, expr := hexpr, exprStage := Nat.zero_le _ }
  · exact pending { h with stage := hresume, expr := hexpr, exprStage := Nat.zero_le _ }

theorem send (h : f.Fits) (m : Message) {collection : Value} (hcollection : collection.Fits)
    {state : Option Value} (hstate : ∀ v, state = some v → v.Fits) :
    Work.Fits (f.send m collection state) := by
  have hboth := (h.push (v := .selector m.selector) trivial).push hcollection
  cases state with
  | none => exact ⟨hboth, nofun⟩
  | some v => exact ⟨hboth.push (hstate v rfl), nofun⟩

/-! ### Waiting statements -/

theorem popWaiting (h : f.Fits) : f.popWaiting.2.Fits := by
  unfold Frame.popWaiting
  split
  · exact h
  · rename_i q waiting hwaiting _
    exact { h with waiting := fun s hs => h.waiting s (hwaiting ▸ List.mem_cons_of_mem _ hs) }
  · rename_i q waiting stage resumes hwaiting hresumes
    exact { h with
      waiting := fun s hs => h.waiting s (hwaiting ▸ List.mem_cons_of_mem _ hs)
      resumes := fun n hn => h.resumes n (hresumes ▸ List.mem_cons_of_mem _ hn) }

/-- Waiting statements and stages that are left after a jump were there before. -/
theorem mem_of_unwind (target : Option StmtId) (waiting : List StmtId) (resumes : List Nat) :
    (unwind target waiting resumes).1 ⊆ waiting ∧ (unwind target waiting resumes).2 ⊆ resumes := by
  induction waiting generalizing resumes with
  | nil => exact ⟨fun _ hs => hs, fun _ hn => hn⟩
  | cons s waiting ih =>
    rw [unwind]
    split
    · exact ⟨fun _ hs => hs, fun _ hn => hn⟩
    · obtain ⟨hwaiting, hresumes⟩ := ih resumes.tail
      exact ⟨fun _ hs => List.mem_cons_of_mem _ (hwaiting hs),
        fun _ hn => List.mem_of_mem_tail (hresumes hn)⟩

/-- Leaving statements for a jump keeps to words of 32 bits. -/
theorem unwind (h : f.Fits) (target : Option StmtId) : Frame.Fits { f with
    waiting := (Frame.unwind target f.waiting f.resumes).1
    resumes := (Frame.unwind target f.waiting f.resumes).2 } := by
  obtain ⟨hwaiting, hresumes⟩ := mem_of_unwind target f.waiting f.resumes
  exact { h with
    waiting := fun s hs => h.waiting s (hwaiting hs)
    resumes := fun n hn => h.resumes n (hresumes hn) }

/-! ### All work -/

/-- Activations with words of 32 bits obey the rules of work on a statement. -/
theorem stmtRules (hp : p.WellFormed) (hsmall : p.Small) {i : StmtId} {s : Stmt}
    (hs : p.stmt? i = some s) : StmtRules p i s Frame.Fits Value.Fits Work.Fits where
  operand hg hoperands := hg.operand hoperands
  remembered hg _ hget := hg.env.get? hget
  write hg hk hv := hg.put (hsmall.stmtKey hp hs hk) hv
  pushEmpty hg := hg.push (v := .empty) trivial
  setStage hg hstage := hg.setStage (hsmall.stmtStage hs hstage)
  fails hg := ⟨hg, nofun⟩
  stays hg := hg.pending
  evaluates hg he hstage := hg.evaluate (hsmall.stmtExpr hp hs he) (hsmall.stmtStage hs hstage)
  enters hg hj hc hresume := by
    have hstage := hsmall.stmtStage hs (StmtKind.hasStage_resume hresume)
    refine pending { hg with
      waiting := List.forall_mem_cons.2 ⟨hg.stmt _ hj, hg.waiting⟩
      resumes := List.forall_mem_cons.2 ⟨hstage, hg.resumes⟩
      stmt := ?_
      stage := Nat.zero_le _ }
    rintro _ ⟨⟩
    exact hsmall.child hp hs hc
  completes hg := hg.complete
  sends hg hkind hstage hcollection hstate := by
    have hnumber := ForallStage.isSome_of_answered _ hstage
    refine (hg.setStage (hsmall.stmtStage hs ?_)).send _ hcollection hstate
    rw [hkind]
    exact hnumber
  leaves hg _ hwaiting hresumes := by
    obtain ⟨hq, hwaiting⟩ := List.forall_mem_cons.1 (hwaiting ▸ hg.waiting)
    obtain ⟨-, hresumes⟩ := List.forall_mem_cons.1 (hresumes ▸ hg.resumes)
    refine complete { hg with waiting := hwaiting, resumes := hresumes, stmt := ?_ }
    rintro _ ⟨⟩
    exact hq
  lost hg _ _ _ _ := ⟨hg.popWaiting, nofun⟩
  jumps hg _ ht _ := by
    refine ⟨{ hg.unwind _ with operands := nofun, stmt := ?_, stage := Nat.zero_le _ }, nofun⟩
    rintro _ ⟨⟩
    exact hsmall.stmt ht
  strays hg _ _ _ := ⟨hg.unwind _, nofun⟩
  returns hg hv := by
    refine ⟨hg, ?_⟩
    rintro _ ⟨⟩
    exact hv

/-- Activations with words of 32 bits obey the rules of work on an expression. -/
theorem exprRules (hp : p.WellFormed) (hsmall : p.Small) {e : ExprId} {x : Expr}
    (hx : p.expr? e = some x) : ExprRules e x Frame.Fits Value.Fits Work.Fits where
  operand hg hoperands := hg.operand hoperands
  reads hg hget hread := by
    rw [Value.eq_of_read hread]
    exact hg.env.get? hget
  constant hv := by
    cases x with
    | function id =>
      cases hv
      have hlt := (hp.exprs e _ hx).function id rfl
      exact Nat.le_trans (Nat.le_of_lt hlt) hsmall.functions
    | literal s => cases hv; trivial
    | name n => cases hv; trivial
    | declare y => cases hv; trivial
    | _ => cases hv
  declares hg hy := hg.put (k := .var _) (hsmall.exprVar hp hx hy) trivial
  assigns hg hy hv := hg.put (k := .var _) (hsmall.exprVar hp hx hy) hv
  fails hg := ⟨hg, nofun⟩
  evaluates hg hc hresume := hg.evaluate (hsmall.part hp hx hc) (hsmall.exprStage hx hresume)
  replaces hg hc := by
    refine pending { hg with expr := ?_, exprStage := Nat.zero_le _ }
    rintro _ ⟨⟩
    exact hsmall.part hp hx hc
  finishes hg hv := (hg.finish hv).pending
  calls hg hcall := by
    have hlength := hsmall.args _ (Array.mem_toList_iff.2 (Array.mem_of_getElem? hx))
    rw [hcall] at hlength
    exact ⟨{ hg with exprStage := hlength }, fun v hv => by cases hv⟩

/-- Whatever an activation is about to do keeps to words of 32 bits. -/
theorem pending? (h : f.Fits) (hp : p.WellFormed) (hsmall : p.Small) {node : Pending}
    (hnode : f.pending? p = some (.ok node)) : node.work.Fits := by
  unfold Frame.pending? at hnode
  split at hnode
  · split at hnode
    · rename_i x hx
      cases hnode
      exact (exprRules hp hsmall hx).workExpr h p
    · cases hnode
  · split at hnode
    · rename_i s hs
      cases hnode
      exact (stmtRules hp hsmall hs).workStmt h
    · cases hnode
  · cases hnode

/-- Moving past a statement keeps to words of 32 bits. -/
theorem moveOn (h : f.Fits) (hp : p.WellFormed) (hsmall : p.Small) {current : StmtId}
    {waiting : List StmtId} (hwaiting : ∀ s ∈ waiting, s.index ≤ Word.max32) {resumes : List Nat}
    (hresumes : ∀ n ∈ resumes, n ≤ Word.max32) {g : Frame}
    (hg : f.moveOn p current waiting resumes = .ok g) : g.Fits := by
  fun_induction Frame.moveOn p f current waiting resumes with
  | case1 => cases hg
  | case2 current s hs next waiting resumes hnext =>
    cases hg
    obtain ⟨-, t, ht, -⟩ := (hp.stmts current s hs).next next hnext
    refine { h with waiting := hwaiting, resumes := hresumes, stmt := ?_ }
    rintro i ⟨⟩
    exact hsmall.stmt ht
  | case3 =>
    cases hg
    exact { h with waiting := nofun, resumes := hresumes, stmt := nofun }
  | case4 =>
    cases hg
    exact { h with waiting := (List.forall_mem_cons.1 hwaiting).2, resumes := nofun, stmt := nofun }
  | case5 current s hs parent waiting resumes hnext ih =>
    exact ih (List.forall_mem_cons.1 hwaiting).2 (List.forall_mem_cons.1 hresumes).2 hg
  | case6 current s hs parent waiting stage resumes hnext =>
    cases hg
    obtain ⟨hparent, hwaiting⟩ := List.forall_mem_cons.1 hwaiting
    obtain ⟨hstage, hresumes⟩ := List.forall_mem_cons.1 hresumes
    refine { h with waiting := hwaiting, resumes := hresumes, stmt := ?_, stage := hstage }
    rintro i ⟨⟩
    exact hparent

theorem advance (h : f.Fits) (hp : p.WellFormed) (hsmall : p.Small) {g : Frame}
    (hg : f.advance p = .ok g) : g.Fits := by
  have hcleared : f.cleared.Fits := { h with operands := nofun, stage := Nat.zero_le _ }
  rw [advance_eq] at hg
  split at hg
  · exact hcleared.moveOn hp hsmall h.waiting h.resumes hg
  · cases hg
    exact hcleared

end Frame.Fits

end TreeMachine
