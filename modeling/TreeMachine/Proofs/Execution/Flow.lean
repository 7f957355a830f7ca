import TreeMachine.Proofs.Execution.Rules
import TreeMachine.Proofs.Execution.Steps
import TreeMachine.Proofs.Soundness.Shape
import TreeMachine.Proofs.Soundness.Values

/-!
# Where values come from

A unit of work uses operands, what is remembered for expressions and statements, and the contents of
variables that can be read; besides those it uses new values that refer to no object
(`Frame.Offers`). Nothing else gets among the operands or into the environment, except that a
variable that is declared becomes uninitialized, and no key of the environment is lost
(`Frame.Works.draws`). Nothing is assumed about the activation, and a work that fails is covered as
well.

This is a statement about the flow of values that mentions neither stages nor kinds of nodes. A
property of values that all new values have is therefore kept by all work if the activation has it
(`Frame.Draws`), and that is how it is shown that values can be read, that handles have objects, and
that numbers fit into their words. It is an instance of the rules for units of work, with what the
activation has offered so far as the property in the middle.
-/

namespace TreeMachine

namespace Frame

/-- The values that work in an activation can use. -/
inductive Offers (f : Frame) : Value → Prop
  | operand {v : Value} (h : v ∈ f.operands) : Offers f v
  | remembered {k : Key} {v : Value} (h : f.env.get? k = some v) (hk : ∀ x, k ≠ .var x) : Offers f v
  | read {x : VarId} {v : Value} (h : f.env.get? (.var x) = some v) (hread : v.read = .ok v) :
    Offers f v
  | plain {v : Value} (h : v.Plain) : Offers f v
  | selector (name : String) : Offers f (.selector name)
  | function (id : FnId) : Offers f (.function id)

/-- An activation has only got values that another one offers, and has all of its keys. -/
structure Draws (f g : Frame) : Prop where
  keeps : ∀ k, f.env.Has k → g.env.Has k
  env : ∀ k v, g.env.get? k = some v →
    f.env.get? k = some v ∨ f.Offers v ∨ (∃ x, k = .var x) ∧ v = .uninitialized
  operands : ∀ v ∈ g.operands, f.Offers v

/-- An activation in the middle of work on a node: it draws on the activation that began the work,
and is still at the same statement, in the same scope. -/
structure Drawing (f g : Frame) : Prop where
  draws : f.Draws g
  stmt : g.stmt = f.stmt
  waiting : g.waiting = f.waiting
  resumes : g.resumes = f.resumes
  scope : g.scope = f.scope

/-- A unit of work uses only values that an activation offers. If it leaves, it leaves with such a
value, and if it calls, the activation stays at its statement. -/
structure WorkDraws (f : Frame) (w : Work) : Prop where
  draws : f.Draws w.1
  leave : ∀ v, w.2 = .ok (.leave v) → f.Offers v
  call : ∀ n, w.2 = .ok (.call n) → f.Drawing w.1

variable {p : Program} {f g g' : Frame} {v : Value} {w : Work}

theorem Draws.refl (f : Frame) : f.Draws f :=
  ⟨fun _ h => h, fun _ _ h => .inl h, fun _ h => .operand h⟩

namespace Draws

theorem same (h : f.Draws g) (henv : g'.env = g.env) (hoperands : g'.operands = g.operands) :
    f.Draws g' :=
  ⟨henv ▸ h.keeps, henv ▸ h.env, hoperands ▸ h.operands⟩

/-- Operands may be dropped. -/
theorem cleared (h : f.Draws g) (henv : g'.env = g.env) (hoperands : g'.operands = []) :
    f.Draws g' :=
  ⟨henv ▸ h.keeps, henv ▸ h.env, by rw [hoperands]; exact List.forall_mem_nil _⟩

theorem push (h : f.Draws g) (hv : f.Offers v) : f.Draws (g.push v) :=
  ⟨h.keeps, h.env, List.forall_mem_cons.2 ⟨hv, h.operands⟩⟩

/-- A value may be written when it is offered, and a variable may be declared. -/
theorem put (h : f.Draws g) {k : Key}
    (hv : f.Offers v ∨ (∃ x, k = .var x) ∧ v = .uninitialized) :
    f.Draws { g with env := g.env.put k v } := by
  refine ⟨fun k' hk' => (h.keeps k' hk').put k v, fun k' v' hget => ?_, h.operands⟩
  have hget : (g.env.put k v).get? k' = some v' := hget
  rw [Env.get?_put] at hget
  split at hget
  · rename_i hk
    cases hget
    exact .inr (hk ▸ hv)
  · exact h.env k' v' hget

/-- What is remembered has been remembered before, or is offered. -/
theorem offers (h : f.Draws g) {k : Key} (hk : ∀ x, k ≠ .var x) (hget : g.env.get? k = some v) :
    f.Offers v := by
  rcases h.env k v hget with hold | hv | ⟨⟨x, hx⟩, -⟩
  · exact .remembered hold hk
  · exact hv
  · exact absurd hx (hk x)

/-- What is read from a variable was there before, or is offered. -/
theorem reads (h : f.Draws g) {y : VarId} {w : Value} (hget : g.env.get? (.var y) = some v)
    (hread : v.read = .ok w) : f.Offers w := by
  obtain rfl := Value.eq_of_read hread
  rcases h.env _ _ hget with hold | hv | ⟨-, rfl⟩
  · exact .read hold hread
  · exact hv
  · cases hread

theorem finish (h : f.Draws g) (hv : f.Offers v) : f.Draws (g.finish v) := by
  rw [finish_eq]
  have hremember : f.Draws { g with env := remember g.env g.expr v } := by
    unfold remember
    split
    · exact h.put (.inl hv)
    · exact h
  exact (hremember.push hv).same rfl rfl

end Draws

namespace Drawing

theorem refl (f : Frame) : f.Drawing f :=
  ⟨.refl f, rfl, rfl, rfl, rfl⟩

theorem put (h : f.Drawing g) {k : Key}
    (hv : f.Offers v ∨ (∃ x, k = .var x) ∧ v = .uninitialized) :
    f.Drawing { g with env := g.env.put k v } :=
  { h with draws := h.draws.put hv }

theorem push (h : f.Drawing g) (hv : f.Offers v) : f.Drawing (g.push v) :=
  { h with draws := h.draws.push hv }

theorem setStage (h : f.Drawing g) (stage : Nat) : f.Drawing { g with stage := stage } :=
  { h with draws := h.draws.same rfl rfl }

theorem operand (h : f.Drawing g) {rest : List Value} (hoperands : g.operands = v :: rest) :
    f.Offers v ∧ f.Drawing { g with operands := rest } := by
  obtain ⟨hv, hrest⟩ := List.forall_mem_cons.1 (hoperands ▸ h.draws.operands)
  exact ⟨hv, { h with draws := ⟨h.draws.keeps, h.draws.env, hrest⟩ }⟩

/-! ### Ways to go on -/

/-- The work is done, without a call and without leaving the activation. -/
theorem stops (h : f.Drawing g) (henv : w.1.env = g.env) (hoperands : w.1.operands = g.operands)
    (hleave : ∀ v, w.2 ≠ .ok (.leave v)) (hcall : ∀ n, w.2 ≠ .ok (.call n)) : f.WorkDraws w :=
  ⟨h.draws.same henv hoperands, fun v hv => absurd hv (hleave v), fun n hn => absurd hn (hcall n)⟩

theorem send (h : f.Drawing g) (m : Message) {collection : Value} {state : Option Value}
    (hcollection : f.Offers collection) (hstate : ∀ v, state = some v → f.Offers v) :
    f.WorkDraws (g.send m collection state) := by
  have hpushed := (h.push (.selector m.selector)).push hcollection
  cases state with
  | none => exact ⟨hpushed.draws, nofun, fun _ _ => hpushed⟩
  | some v =>
    have hall := hpushed.push (hstate v rfl)
    exact ⟨hall.draws, nofun, fun _ _ => hall⟩

theorem evaluate (h : f.Drawing g) (e : ExprId) (resume : Nat) :
    f.WorkDraws (g.evaluate e resume) := by
  have hkept : (g.eval e resume).env = g.env ∧ (g.eval e resume).operands = g.operands := by
    unfold eval
    split <;> exact ⟨rfl, rfl⟩
  exact h.stops hkept.1 hkept.2 nofun nofun

end Drawing

/-! ### All work -/

/-- Using what an activation offers obeys the rules of work on a statement. -/
theorem stmtRules_draws (p : Program) (f : Frame) (i : StmtId) (s : Stmt) :
    StmtRules p i s f.Drawing f.Offers f.WorkDraws where
  operand hg hoperands := hg.operand hoperands
  remembered hg hk hget := hg.draws.offers hk hget
  write hg _ hv := hg.put (.inl hv)
  pushEmpty hg := hg.push (.plain (.inl rfl))
  setStage hg _ := hg.setStage _
  fails hg := hg.stops rfl rfl nofun nofun
  stays hg := hg.stops rfl rfl nofun nofun
  evaluates hg _ _ := hg.evaluate _ _
  enters hg _ _ _ := hg.stops rfl rfl nofun nofun
  completes hg := hg.stops rfl rfl nofun nofun
  sends hg _ _ hcollection hstate := (hg.setStage _).send _ hcollection hstate
  leaves hg _ _ _ := hg.stops rfl rfl nofun nofun
  lost {g _ _ _} hg _ _ _ _ := by
    obtain ⟨waiting, resumes, hpop⟩ := g.popWaiting_snd
    rw [hpop]
    exact hg.stops rfl rfl nofun nofun
  jumps hg _ _ _ := ⟨hg.draws.cleared rfl rfl, nofun, nofun⟩
  strays hg _ _ _ := hg.stops rfl rfl nofun nofun
  returns hg hv := by
    refine ⟨hg.draws, fun v' hv' => ?_, nofun⟩
    cases hv'
    exact hv

/-- Using what an activation offers obeys the rules of work on an expression. -/
theorem exprRules_draws (f : Frame) (e : ExprId) (x : Expr) :
    ExprRules e x f.Drawing f.Offers f.WorkDraws where
  operand hg hoperands := hg.operand hoperands
  reads hg hget hread := hg.draws.reads hget hread
  constant hv := by
    cases x with
    | literal s =>
      cases hv
      exact .plain (.inr ⟨s, rfl⟩)
    | declare y =>
      cases hv
      exact .plain (.inl rfl)
    | name n =>
      cases hv
      exact .selector n
    | function id =>
      cases hv
      exact .function id
    | _ => cases hv
  declares hg _ := hg.put (.inr ⟨⟨_, rfl⟩, rfl⟩)
  assigns hg _ hv := hg.put (.inl hv)
  fails hg := hg.stops rfl rfl nofun nofun
  evaluates hg _ _ := hg.evaluate _ _
  replaces hg _ := hg.stops rfl rfl nofun nofun
  finishes hg hv := ⟨hg.draws.finish hv, nofun, nofun⟩
  calls {g _ args} hg _ := by
    have hgo : f.Drawing { g with exprStage := CallStage.number args.length .complete } :=
      { hg with draws := hg.draws.same rfl rfl }
    exact ⟨hgo.draws, nofun, fun _ _ => hgo⟩

/-- **Work uses what the activation offers**, whether it succeeds or not. -/
theorem Works.draws (h : f.Works p w) : f.WorkDraws w := by
  rcases h.cases with ⟨e, x, -, -, rfl⟩ | ⟨i, s, -, -, -, rfl⟩
  · exact (exprRules_draws f e x).workExpr (.refl f) p
  · exact (stmtRules_draws p f i s).workStmt (.refl f)

/-- Moving past a statement only drops operands. -/
theorem WorkDraws.settled (h : f.WorkDraws w) (p : Program) : f.Draws (w.settled p) := by
  unfold Work.settled
  split
  · rename_i g _ hadvance
    obtain ⟨_, _, _, _, rfl⟩ := advance_keeps hadvance
    exact h.draws.cleared rfl rfl
  · exact h.draws

end Frame

end TreeMachine
