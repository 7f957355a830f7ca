import Mathlib.Algebra.Ring.Nat
import TreeMachine.Proofs.Execution.Calls
import TreeMachine.Proofs.Execution.Moves
import TreeMachine.Proofs.Soundness.Runs

/-!
# Operands are counted by the cursor

The number of operands of an activation follows from the stages of its current nodes, and those of
its suspended expressions (`Frame.operandsAt`). The shape of a sound context says this up to two
points, which are invariants of their own (`Context.Tidy`): a suspended expression waits for a part
and not for the result of a call, and an activation with nothing left to do has no operands. The
activations below the innermost one wait for a result, which is the operand that they lack
(`Frame.AtCall`).

The count is a table of numbers for stages of numbers, as one would write it down by hand:
`StmtKind.operandsAt`, `Expr.operandsAt`, and for suspended expressions `Expr.operandsBefore`. It
mentions neither values nor the names of stages. The shape, in contrast, gives each stage the
operands that work on it may take. That the two agree is shown kind by kind, and everything else is
carried over.

Statements that wait for a sequence do not occur in the count, since they have no operands while
they wait. So the operands of an activation are those of a single statement and of the expressions
that are suspended in it.

Loops over collections are restricted to one variable and one iterator, because soundness is; with
other loops a step fails for a defect, and nothing is said about the context that it leaves.
-/

namespace TreeMachine

/-! ### The count -/

/-- The operands that a statement has at the stage of a number. -/
def StmtKind.operandsAt (kind : StmtKind) (stage : Nat) : Nat :=
  match kind with
  | .expr _ | .branch .. | .select .. | .return _ => if stage = 1 then 1 else 0
  | .loop .. => if stage = 2 then 1 else 0
  | .forall .. => if stage ∈ [1, 2, 3, 4, 6] then 1 else 0
  | .arm cases _ => if 1 ≤ stage ∧ stage ≤ cases.length then 1 else 0
  | .block _ | .label _ | .goto _ => 0

/-- The operands that an expression has at the stage of a number. -/
def Expr.operandsAt (x : Expr) (stage : Nat) : Nat :=
  match x with
  | .call _ args =>
    if stage ≤ args.length + 1 then stage else if stage = args.length + 2 then 1 else 0
  | .assign .. | .choose .. => if stage = 1 then 1 else 0
  | .literal _ | .var _ | .declare _ | .name _ | .function _ | .closure .. => 0

/-- The operands that an expression has while it waits for a part, to be resumed at the stage of a
number. -/
def Expr.operandsBefore (x : Expr) (stage : Nat) : Nat :=
  match x with
  | .call .. => stage - 1
  | _ => 0

/-- The operands of a suspended expression. -/
def Program.operandsBefore (p : Program) (d : ExprId × Nat) : Nat :=
  match p.expr? d.1 with
  | some x => x.operandsBefore d.2
  | none => 0

/-- The operands of an activation, by its current nodes and its suspended expressions. -/
def Frame.operandsAt (p : Program) (f : Frame) : Nat :=
  match f.expr, f.stmt with
  | some e, _ => (f.suspended.map p.operandsBefore).sum +
      ((p.expr? e).map fun x => x.operandsAt f.exprStage).getD 0
  | none, some i => ((p.stmt? i).map fun s => s.kind.operandsAt f.stage).getD 0
  | none, none => 0

/-- The count of a stage is the one that the shape of an activation has for it. -/
theorem StmtKind.operandsAt_of_held {kind : StmtKind} {stage k : Nat}
    (h : kind.held stage = some k) : kind.operandsAt stage = k := by
  cases kind with
  | «arm» cases _ =>
    simp only [held, ArmStage.ofNumber?] at h
    simp only [operandsAt]
    split at h
    · cases h
      rw [if_neg (by omega)]
      rfl
    · split at h
      · cases h
        rw [if_pos (by omega)]
        rfl
      · split at h
        · cases h
          rw [if_neg (by omega)]
          rfl
        · cases h
  -- The other kinds have at most seven stages.
  | _ => rcases stage with _ | _ | _ | _ | _ | _ | _ | stage <;> cases h <;> rfl

theorem Expr.operandsAt_of_held {x : Expr} {stage k : Nat} (h : x.held stage = some k) :
    x.operandsAt stage = k := by
  cases x with
  | call _ args =>
    simp only [held, CallStage.ofNumber?] at h
    simp only [operandsAt]
    split at h
    · cases h
      rw [if_pos (by omega)]
      assumption
    · split at h
      · cases h
        rw [if_pos (by omega)]
        simp only [CallStage.held]
        omega
      · split at h
        · cases h
          rw [if_pos (by omega)]
          assumption
        · split at h
          · cases h
            rw [if_neg (by omega), if_pos (by assumption)]
            rfl
          · cases h
  | _ => rcases stage with _ | _ | stage <;> cases h <;> rfl

/-- A suspended expression lacks one of the operands of the stage at which it is resumed. -/
theorem Expr.operandsBefore_of_held {x : Expr} {stage k : Nat} (hstage : x.resumesAt stage = true)
    (h : x.held stage = some (k + 1)) : x.operandsBefore stage = k := by
  have hat := operandsAt_of_held h
  cases x with
  | call _ args =>
    obtain ⟨hpos, hle⟩ : 1 ≤ stage ∧ stage ≤ args.length + 1 := by
      simpa [resumesAt] using hstage
    rw [operandsAt, if_pos hle] at hat
    rw [operandsBefore]
    omega
  | assign | choose =>
    obtain rfl : stage = 1 := beq_iff_eq.1 hstage
    exact Nat.succ.inj hat
  | _ => cases hstage

/-! ### Activations -/

/-- The suspended expressions of an activation wait for parts. -/
def Frame.AwaitsParts (p : Program) (f : Frame) : Prop :=
  ∀ d ∈ f.suspended, ∃ x, p.expr? d.1 = some x ∧ x.resumesAt d.2 = true

theorem Program.Suspends.eq_sum {p : Program} {suspended : List (ExprId × Nat)} {n : Nat}
    (h : p.Suspends suspended n)
    (hparts : ∀ d ∈ suspended, ∃ x, p.expr? d.1 = some x ∧ x.resumesAt d.2 = true) :
    (suspended.map p.operandsBefore).sum = n := by
  induction h with
  | nil => rfl
  | @cons e x stage k n rest hx hheld _ ih =>
    obtain ⟨⟨y, hy, hstage⟩, hrest⟩ := List.forall_mem_cons.1 hparts
    cases hx.symm.trans hy
    have hbefore : p.operandsBefore (e, stage) = k := by
      rw [operandsBefore, hx]
      exact Expr.operandsBefore_of_held hstage hheld
    rw [List.map_cons, List.sum_cons, hbefore, ih hrest]

namespace Frame

/-- An activation waits for the result of a call: that of a call expression, or that of a message of
a loop over a collection. -/
inductive AtCall (p : Program) (f : Frame) : Prop
  | call {e callee : ExprId} {args : List ExprId} (hexpr : f.expr = some e)
      (hx : p.expr? e = some (.call callee args)) (hstage : f.exprStage = args.length + 2)
  | message {i : StmtId} {s : Stmt} {indices : List VarId} {iterators : List ExprId}
      {body : Option StmtId} (hexpr : f.expr = none) (hstmt : f.stmt = some i)
      (hs : p.stmt? i = some s) (hkind : s.kind = .forall indices iterators body)
      (hstage : f.stage ∈ [2, 3, 4, 6])

/-- What the shape of an activation leaves open about its operands. -/
structure Tidy (p : Program) (f : Frame) : Prop where
  parts : f.AwaitsParts p
  spent : f.isExhausted = true → f.operands = []

variable {p : Program} {f g : Frame} {i : StmtId} {s : Stmt}

theorem AtCall.not_isExhausted (h : f.AtCall p) : f.isExhausted = false := by
  cases h with
  | call hexpr => simp [isExhausted, hexpr]
  | message _ hstmt => simp [isExhausted, hstmt]

theorem AtCall.setOperands (h : f.AtCall p) (operands : List Value) :
    AtCall p { f with operands := operands } := by
  cases h with
  | call hexpr hx hstage => exact .call hexpr hx hstage
  | message hexpr hstmt hs hkind hstage => exact .message hexpr hstmt hs hkind hstage

theorem not_isExhausted_of_stmt (h : f.stmt = some i) : f.isExhausted = false := by
  simp [isExhausted, h]

/-- Operands do not matter to an activation that has something to do. -/
theorem Tidy.setOperands (h : f.Tidy p) (hf : f.isExhausted = false) (operands : List Value) :
    Tidy p { f with operands := operands } := by
  have hf' : isExhausted { f with operands := operands } = false := hf
  exact ⟨h.parts, fun hexhausted => absurd (hf'.symm.trans hexhausted) nofun⟩

theorem Tidy.of_stmt (hparts : g.AwaitsParts p) (hstmt : g.stmt = some i) : g.Tidy p :=
  ⟨hparts, fun h => absurd ((not_isExhausted_of_stmt hstmt).symm.trans h) nofun⟩

/-- **The operands of an activation** of the right shape are counted by its cursor. -/
theorem Shaped.length_operands (h : f.Shaped p) (ht : f.Tidy p) :
    f.operands.length = f.operandsAt p := by
  cases h with
  | exhausted hstmt hexpr =>
    have hspent : f.operands = [] := ht.spent (by simp [isExhausted, hstmt, hexpr])
    rw [operandsAt, hexpr, hstmt, hspent]
    rfl
  | stmt hw hexpr _ hheld =>
    have hcount := StmtKind.operandsAt_of_held hheld
    rw [operandsAt, hexpr, hw.stmt, ← hcount]
    simp only [hw.found, Option.map_some, Option.getD_some]
  | expr hw _ hexpr hx hstage hsuspended hoperands =>
    have hcount := Expr.operandsAt_of_held hstage
    have hsum := hsuspended.eq_sum ht.parts
    rw [operandsAt, hexpr, hsum, hoperands, ← hcount, Nat.add_comm]
    simp only [hx, Option.map_some, Option.getD_some]

/-- The operands of an activation that waits for a result lack this one. -/
theorem Awaits.length_operands (h : f.Awaits p) (ht : f.Tidy p) (hcall : f.AtCall p) :
    f.operands.length + 1 = f.operandsAt p :=
  (h.1 .empty).length_operands (ht.setOperands hcall.not_isExhausted _)

/-- What a unit of work leaves is tidy, and waits for a result if it has made a call. -/
def WorkTidy (p : Program) (w : Work) : Prop :=
  w.1.Tidy p ∧ ∀ n, w.2 = .ok (.call n) → w.1.AtCall p

theorem AwaitsParts.of_footing (h : f.AwaitsParts p) (hg : g.suspended = f.suspended) :
    g.AwaitsParts p := by
  rw [AwaitsParts, hg]
  exact h

/-- **Work on a statement** in each of its cases. -/
theorem Tidy.moves (h : f.Tidy p) (hs : p.stmt? i = some s) {w : Work}
    (hw : StmtMoves p i s f.footing w) : WorkTidy p w := by
  have hparts : ∀ {g : Frame}, g.footing.suspended = f.suspended → g.AwaitsParts p :=
    fun hg => h.parts.of_footing hg
  cases hw with
  | fails hstmt hfooting | stays hstmt hfooting | completes hstmt hfooting
  | returns hstmt hfooting =>
    exact ⟨.of_stmt (hparts (by rw [hfooting]; rfl)) hstmt, nofun⟩
  | enters _ _ hstmt _ hfooting | leaves _ _ _ hstmt hfooting
  | jumps _ _ _ hstmt _ hfooting =>
    exact ⟨.of_stmt (hparts (by rw [hfooting]; rfl)) hstmt, nofun⟩
  | sends hstmt hfooting hexpr hkind hstage =>
    exact ⟨.of_stmt (hparts (by rw [hfooting]; rfl)) hstmt,
      fun _ _ => .message hexpr hstmt hs hkind hstage⟩

/-- **Work on an expression** of an activation that works on a statement. -/
theorem Tidy.moves_expr (h : f.Tidy p) (hstmt : f.stmt = some i) {e : ExprId} {x : Expr}
    (hx : p.expr? e = some x) {w : Work} (hw : ExprMoves e x f w) : WorkTidy p w := by
  cases hw with
  | fails hsame hsuspended | replaced hsame hsuspended =>
    exact ⟨.of_stmt (h.parts.of_footing hsuspended) (hsame.stmt.trans hstmt), nofun⟩
  | suspends _ hresume hsame hsuspended _ =>
    refine ⟨.of_stmt ?_ (hsame.stmt.trans hstmt), nofun⟩
    rw [AwaitsParts, hsuspended]
    exact List.forall_mem_cons.2 ⟨⟨x, hx, hresume⟩, h.parts⟩
  | finishes hsame hsuspended =>
    refine ⟨.of_stmt ?_ (hsame.stmt.trans hstmt), nofun⟩
    rw [AwaitsParts, hsuspended]
    exact fun d hd => h.parts d (List.mem_of_mem_tail hd)
  | calls hcall hsame hsuspended hexpr hstage =>
    refine ⟨.of_stmt (h.parts.of_footing hsuspended) (hsame.stmt.trans hstmt), fun _ _ => ?_⟩
    exact .call hexpr (hcall ▸ hx) hstage

/-- A stage at which a statement has a count of operands is one of its stages. -/
theorem hasStage_of_held {kind : StmtKind} {stage k : Nat} (h : kind.held stage = some k) :
    kind.hasStage stage = true := by
  cases kind
  all_goals exact Option.isSome_map.symm.trans (Option.isSome_of_eq_some h)

/-- The work that an activation of the right shape is about to do. -/
theorem Tidy.pending? (h : f.Tidy p) (hshape : f.Shaped p) (hp : p.WellFormed) {node : Pending}
    (hnode : f.pending? p = some (.ok node)) : WorkTidy p node.work := by
  unfold Frame.pending? at hnode
  cases hshape with
  | exhausted hstmt hexpr =>
    simp only [hstmt, hexpr] at hnode
    cases hnode
  | stmt hw hexpr _ hheld =>
    have hat : f.AtStmt p _ _ := ⟨hw.stmt, hexpr, hw.found, hw.chain, hasStage_of_held hheld⟩
    simp only [hexpr, hw.stmt, hw.found] at hnode
    cases hnode
    exact h.moves hw.found (hat.moves hp)
  | expr hw _ hexpr hx _ _ _ =>
    simp only [hexpr, hx] at hnode
    cases hnode
    exact h.moves_expr hw.stmt hx (Frame.moves_expr p hexpr _)

/-- Moving past a statement clears the operands. -/
theorem Tidy.advance (h : f.Tidy p) (hthrough : f.Through p) (hp : p.WellFormed) {g : Frame}
    (hg : f.advance p = .ok g) : g.Tidy p := by
  obtain ⟨o, stage, waiting, resumes, hadvance, -⟩ := hthrough.advance hp
  cases hadvance.symm.trans hg
  exact ⟨h.parts, fun _ => rfl⟩

theorem awaitsParts_start (stmt : Option StmtId) (scope : ScopeId) :
    (Frame.start stmt scope).AwaitsParts p :=
  nofun

theorem Tidy.begin (h : f.AwaitsParts p) (hoperands : f.operands = []) (id : FnId)
    (first : Option StmtId) (scope : ScopeId) (params : List VarId) (args : List Value) :
    (f.begin id first scope params args).Tidy p :=
  ⟨h, fun _ => hoperands⟩

end Frame

/-! ### Contexts -/

namespace Context

/-- All activations are tidy, and those below the innermost one wait for results. -/
structure Tidy (p : Program) (c : Context) : Prop where
  frames : ∀ f ∈ c.frames, f.Tidy p
  callers : ∀ f ∈ c.frames.tail, f.AtCall p

variable {p : Program} {c c' : Context}

theorem Tidy.of_cons {f : Frame} {callers : List Frame} (hf : f.Tidy p)
    (hcallers : ∀ g ∈ callers, g.Tidy p ∧ g.AtCall p) : (c.withTop f callers).Tidy p :=
  ⟨List.forall_mem_cons.2 ⟨hf, fun g hg => (hcallers g hg).1⟩, fun g hg => (hcallers g hg).2⟩

/-- A value is given to the innermost activation, if this one has something to do. -/
theorem Tidy.push (h : c.Tidy p) {f : Frame} {callers : List Frame}
    (hframes : c.frames = f :: callers) (hf : f.isExhausted = false) (v : Value) :
    (c.push v).Tidy p := by
  obtain ⟨hall, hcallers⟩ := h
  rw [hframes] at hall hcallers
  obtain ⟨htop, hrest⟩ := List.forall_mem_cons.1 hall
  simp only [Context.push, hframes]
  exact ⟨List.forall_mem_cons.2 ⟨htop.setOperands hf _, hrest⟩, hcallers⟩

/-- The result of a call is given to the activation that waits for it. -/
theorem Tidy.detach (h : c.Tidy p) (v : Value) : (c.detach v).Tidy p := by
  obtain ⟨hall, hcallers⟩ := h
  unfold Context.detach
  split
  · rename_i g caller rest hframes
    rw [hframes] at hall hcallers
    obtain ⟨-, hall⟩ := List.forall_mem_cons.1 hall
    obtain ⟨hcaller, hrest⟩ := List.forall_mem_cons.1 hall
    obtain ⟨hcall, hcallers⟩ := List.forall_mem_cons.1 hcallers
    have htop := hcaller.setOperands hcall.not_isExhausted (v :: caller.operands)
    exact ⟨List.forall_mem_cons.2 ⟨htop, hrest⟩, hcallers⟩
  · exact ⟨nofun, nofun⟩

/-- What a call comes to, if the activation that makes it waits for its result. -/
theorem Tidy.called (h : c.Tidy p) {f : Frame} {callers : List Frame}
    (hframes : c.frames = f :: callers) (hcall : f.AtCall p) (hcalled : Called p c c') :
    c'.Tidy p := by
  cases hcalled with
  | same hsame => exact ⟨hsame ▸ h.frames, hsame ▸ h.callers⟩
  | answered v hpush =>
    have hpushed := h.push hframes hcall.not_isExhausted v
    exact ⟨hpush ▸ hpushed.frames, hpush ▸ hpushed.callers⟩
  | @entered id fn first scope args _ _ =>
    -- The activation that calls has something to do, so the function gets one of its own.
    obtain ⟨hall, hcallers⟩ := h
    have hnew : ((Frame.start none scope).begin id first scope fn.params args).Tidy p :=
      .begin (Frame.awaitsParts_start none scope) rfl id first scope fn.params args
    rw [hframes] at hall hcallers
    simp only [Context.activate, hframes, hcall.not_isExhausted]
    exact ⟨List.forall_mem_cons.2 ⟨hnew, hall⟩, List.forall_mem_cons.2 ⟨hcall, hcallers⟩⟩

/-- **A call** takes operands of the activation that makes it. -/
theorem Tidy.invoke (h : c.Tidy p) {f : Frame} {callers : List Frame}
    (hframes : c.frames = f :: callers) (hcall : f.AtCall p) (n : Nat) (sink : Sink) :
    (c.invoke p n sink).context.Tidy p := by
  obtain ⟨operands, hcalled⟩ := invoke_called (p := p) hframes n sink
  obtain ⟨hall, hcallers⟩ := h
  rw [hframes] at hall hcallers
  obtain ⟨htop, hrest⟩ := List.forall_mem_cons.1 hall
  have htidy : (c.withTop { f with operands := operands } callers).Tidy p :=
    .of_cons (htop.setOperands hcall.not_isExhausted operands) fun g hg =>
      ⟨hrest g hg, hcallers g hg⟩
  exact htidy.called rfl (hcall.setOperands operands) hcalled

/-- The demand of a unit of work is met. -/
theorem Tidy.meet (hp : p.WellFormed) (place : Place) {callers : List Frame} {w : Work}
    (hw : Frame.WorkTidy p w) (hsound : w.Sound p c.heap)
    (hcallers : ∀ g ∈ callers, g.Tidy p ∧ g.AtCall p) (sink : Sink) :
    (c.meet p place callers w sink).context.Tidy p := by
  obtain ⟨f, r⟩ := w
  obtain ⟨htidy, hcall⟩ := hw
  have hwith : (c.withTop f callers).Tidy p := .of_cons htidy hcallers
  cases r with
  | error e => exact hwith
  | ok d =>
    cases d with
    | pending => exact hwith
    | jumped => exact hwith
    | complete =>
      obtain ⟨o, stage, waiting, resumes, hadvance, -⟩ := Frame.Through.advance hsound.2 hp
      have hg := Frame.Tidy.advance htidy hsound.2 hp hadvance
      simp only [Context.meet, hadvance]
      exact .of_cons hg hcallers
    | leave v => exact hwith.detach v
    | call n => exact hwith.invoke rfl (hcall n rfl) n sink

/-- **A step** of a sound context. -/
theorem Tidy.step (h : c.Tidy p) (hs : c.Sound p) (hp : p.WellFormed) (hloops : p.SimpleLoops)
    (traceLevel : Nat) (sink : Sink) : (c.step p traceLevel sink).context.Tidy p := by
  unfold Context.step
  split
  · exact h
  · rename_i f callers hframes
    -- That the context is sound gives the shape of the activation that takes the step.
    have hshape := hs.top f (by rw [hframes]; rfl)
    have hholds := hs.holds f (by rw [hframes]; exact List.mem_cons_self)
    obtain ⟨hall, hcallers⟩ := h
    have hall' := hall
    have hcallers' := hcallers
    rw [hframes] at hall' hcallers'
    obtain ⟨htop, hrest⟩ := List.forall_mem_cons.1 hall'
    have hbelow : ∀ g ∈ callers, g.Tidy p ∧ g.AtCall p := fun g hg => ⟨hrest g hg, hcallers' g hg⟩
    have hsound := hshape.pending? hholds hp hloops
    split
    · exact Tidy.detach ⟨hall, hcallers⟩ .empty
    · exact ⟨hall, hcallers⟩
    · rename_i node hnode
      rw [hnode] at hsound
      have hmeet := fun sink =>
        Tidy.meet hp f.cursor (htop.pending? hshape hp hnode) hsound hbelow sink
      split
      · exact hmeet sink
      · dsimp only
        split
        · exact hmeet _
        · exact ⟨hall, hcallers⟩

/-- A context begins with an activation that has no operands. -/
theorem Tidy.start (stmt : Option StmtId) (scope : ScopeId) : (Context.start stmt scope).Tidy p :=
  ⟨List.forall_mem_cons.2 ⟨⟨Frame.awaitsParts_start stmt scope, fun _ => rfl⟩, nofun⟩, nofun⟩

/-- The entry function runs in the activation that is there. No primitive can be the entry function,
as each has a parameter. -/
theorem Tidy.startEntry {id : FnId} {sink : Sink}
    (hok : ((idle Program.rootScope).startEntry p id sink).result = .ok ()) :
    ((idle Program.rootScope).startEntry p id sink).context.Tidy p := by
  have henter : (idle Program.rootScope).startEntry p id sink =
      (idle Program.rootScope).enter p .nowhere id [] sink := rfl
  rw [henter] at hok ⊢
  unfold Context.enter at hok ⊢
  split at hok
  · cases hok
  · rename_i fn hfn
    split at hok
    · cases hok
    · rename_i harity
      cases hbody : fn.body with
      | primitive q =>
        -- Without arguments every primitive fails.
        rw [hbody] at hok
        cases q <;> cases hok
      | code first =>
        rw [hbody] at hok
        dsimp only at hok
        split at hok
        · cases hok
        · rename_i scope hscope
          have hbegin :
              ((Frame.start none Program.rootScope).begin id first scope fn.params []).Tidy p :=
            .begin (Frame.awaitsParts_start none _) rfl id first scope fn.params []
          simp only [hscope]
          rw [if_neg harity]
          exact ⟨List.forall_mem_cons.2 ⟨hbegin, nofun⟩, nofun⟩

theorem Reachable.tidy (h : c.Reachable p) (hp : p.WellFormed) (hloops : p.SimpleLoops) :
    c.Tidy p := by
  induction h with
  | forModule _ => exact .start _ _
  | startEntry hok => exact .startEntry hok
  | step h _ ih => exact ih.step (h.sound hp hloops) hp hloops _ _
  | charge _ ih => exact ⟨ih.frames, ih.callers⟩
  | collect _ ih => exact ⟨ih.frames, ih.callers⟩

end Context

/-- **Operands neither leak nor run short.** Let a program be linked, with one index variable and
one iterator for every loop over a collection. In every context that its tasks get into the
innermost activation has as many operands as its cursor says. Those below it wait for results, and
each has one operand less than its cursor says, which is the result. A suspended expression waits
for one of its parts. -/
theorem operands_counted {d : Source.Program} {p : Program} (hlink : Program.link d = .ok p)
    (hloops : p.SimpleLoops) {c : Context} (hc : c.Reachable p) :
    (∀ f ∈ c.frames.head?, f.operands.length = f.operandsAt p) ∧
    (∀ f ∈ c.frames.tail, f.AtCall p ∧ f.operands.length + 1 = f.operandsAt p) ∧
    ∀ f ∈ c.frames, f.AwaitsParts p := by
  have hp := Program.wellFormed_of_link hlink
  have hsound := hc.sound hp hloops
  have htidy := hc.tidy hp hloops
  refine ⟨fun f hf => ?_, fun f hf => ?_, fun f hf => (htidy.frames f hf).parts⟩
  · exact (hsound.top f hf).length_operands (htidy.frames f (List.mem_of_mem_head? hf))
  · have hcall := htidy.callers f hf
    have htidy' := htidy.frames f (List.mem_of_mem_tail hf)
    exact ⟨hcall, (hsound.callers f hf).length_operands htidy' hcall⟩

/-- After twenty-four steps, with a collection after every allocation, a function adds to its
argument, while the select that called it waits for the result. -/
theorem operands_counted_skipping : ∃ p, Program.link .skipping = .ok p ∧ p.SimpleLoops ∧
    ∃ c : Context, c.Reachable p ∧ c.frames.length = 2 ∧
      (∀ f ∈ c.frames.head?, f.operands.length = f.operandsAt p) ∧
      (∀ f ∈ c.frames.tail, f.AtCall p ∧ f.operands.length + 1 = f.operandsAt p) ∧
      ∀ f ∈ c.frames, f.AwaitsParts p := by
  have hruns : Program.suspendsAfter .skipping 100 24 (fun p m => decide p.SimpleLoops &&
      m.context.frames.length == 2) = true := by decide +kernel
  obtain ⟨p, m, m', hlink, hm, hrun, htest⟩ := Program.exists_of_suspendsAfter hruns
  obtain ⟨hloops, hlength⟩ := Bool.and_eq_true_iff.1 htest
  have hloops := of_decide_eq_true hloops
  have hreach := (Machine.run_sound (Program.wellFormed_of_link hlink) hloops
    (.forModule (Array.mem_of_getElem? hm)) hrun).2 _ rfl
  exact ⟨p, hlink, hloops, m'.context, hreach, beq_iff_eq.1 hlength,
    operands_counted hlink hloops hreach⟩

end TreeMachine
