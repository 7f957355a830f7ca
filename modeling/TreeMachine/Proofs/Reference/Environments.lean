import TreeMachine.Env
import TreeMachine.Proofs.Tree.Chain

/-!
# What a computation leaves alone in the environment

The environment of an activation has the variables, and besides them what the machine remembers for
expressions and statements. The reference evaluator has the variables only (`Env.Agrees`). An
expression writes variables and remembers values for its own parts (`Env.SameBelow`), and a
statement leaves alone what is remembered for the statements that wait around it (`Program.Leaves`),
so that a select finds its value and a loop its state when they come back.

The two ways of saying what is left alone are tied by numbers. The expressions of a statement that
waits have smaller numbers than those of the statements inside it, so what is written for the latter
is not under a key of the former (`Program.Leaves.evaluate`). Both relations are reflexive and
transitive, and a write of each kind keeps them, under conditions on its key; these lemmas are all
that the simulation uses of environments.

Nothing is said here about variables, which the evaluator and the machine write in the same way.
-/

namespace TreeMachine

namespace Env

/-- Two environments have the same variables. -/
def Agrees (env env' : Env) : Prop :=
  ∀ x, env.get? (.var x) = env'.get? (.var x)

/-- Nothing has changed but variables and what is remembered for expressions from a number on. -/
def SameBelow (n : Nat) (env env' : Env) : Prop :=
  ∀ k, (∀ x, k ≠ .var x) → (∀ e, k = .expr e → e.index < n) → env'.get? k = env.get? k

variable {env env' env'' : Env} {n : Nat}

theorem Agrees.putVar (h : env.Agrees env') (x : VarId) (v : Value) :
    (env.put (.var x) v).Agrees (env'.put (.var x) v) := by
  intro y
  rw [get?_put, get?_put, h y]

theorem Agrees.putExpr (h : env.Agrees env') (e : ExprId) (v : Value) :
    (env.put (.expr e) v).Agrees env' := by
  intro y
  rw [get?_put, if_neg nofun, h y]

theorem Agrees.putStmt (h : env.Agrees env') (i : StmtId) (v : Value) :
    (env.put (.stmt i) v).Agrees env' := by
  intro y
  rw [get?_put, if_neg nofun, h y]

theorem SameBelow.refl (n : Nat) (env : Env) : SameBelow n env env :=
  fun _ _ _ => rfl

theorem SameBelow.trans (h : SameBelow n env env') (h' : SameBelow n env' env'') :
    SameBelow n env env'' :=
  fun k hv he => (h' k hv he).trans (h k hv he)

theorem SameBelow.putVar (h : SameBelow n env env') (x : VarId) (v : Value) :
    SameBelow n env (env'.put (.var x) v) := by
  intro k hv he
  rw [get?_put, if_neg (hv x), h k hv he]

theorem SameBelow.putExpr (h : SameBelow n env env') {e : ExprId} (hn : n ≤ e.index) (v : Value) :
    SameBelow n env (env'.put (.expr e) v) := by
  intro k hv he
  rw [get?_put, if_neg, h k hv he]
  intro hk
  have hlt := he e hk
  omega

end Env

namespace Program

/-- What is remembered for the waiting statements, and for their expressions, has not changed. -/
def Leaves (p : Program) (waiting : List StmtId) (env env' : Env) : Prop :=
  ∀ q ∈ waiting, ∀ s, p.stmt? q = some s → env'.get? (.stmt q) = env.get? (.stmt q) ∧
    ∀ e ∈ s.kind.exprs, env'.get? (.expr e) = env.get? (.expr e)

namespace Leaves

variable {p : Program} {env env' env'' : Env} {waiting : List StmtId}

theorem refl (p : Program) (waiting : List StmtId) (env : Env) : p.Leaves waiting env env :=
  fun _ _ _ _ => ⟨rfl, fun _ _ => rfl⟩

theorem trans (h : p.Leaves waiting env env') (h' : p.Leaves waiting env' env'') :
    p.Leaves waiting env env'' := by
  intro q hq s hs
  obtain ⟨h₁, h₂⟩ := h q hq s hs
  obtain ⟨h₁', h₂'⟩ := h' q hq s hs
  exact ⟨h₁'.trans h₁, fun e he => (h₂' e he).trans (h₂ e he)⟩

/-- Around a statement inside the others, there is less to leave alone. -/
theorem outer {q : StmtId} (h : p.Leaves (q :: waiting) env env') : p.Leaves waiting env env' :=
  fun r hr => h r (List.mem_cons_of_mem q hr)

theorem putVar (h : p.Leaves waiting env env') (x : VarId) (v : Value) :
    p.Leaves waiting env (env'.put (.var x) v) := by
  intro q hq s hs
  obtain ⟨h₁, h₂⟩ := h q hq s hs
  refine ⟨?_, fun e he => ?_⟩
  · rw [Env.get?_put, if_neg nofun, h₁]
  · rw [Env.get?_put, if_neg nofun, h₂ e he]

variable (hp : p.WellFormed) {i : StmtId} {s : Stmt} (hs : p.stmt? i = some s)
  {resumes : List Nat} (hchain : p.Chain s.parent waiting resumes)

include hs in
/-- What waits around a statement encloses it. -/
theorem encloses (hchain : p.Chain s.parent waiting resumes) {q : StmtId} (hq : q ∈ waiting) :
    p.Encloses q i := by
  have hparent : p.parent? i = s.parent := parent?_eq hs
  exact Chain.encloses_of_mem (hparent ▸ hchain) hq

include hp hs hchain

/-- A statement may write its own state. -/
theorem putStmt (h : p.Leaves waiting env env') (v : Value) :
    p.Leaves waiting env (env'.put (.stmt i) v) := by
  intro q hq t ht
  obtain ⟨h₁, h₂⟩ := h q hq t ht
  have hlt := hp.lt_of_encloses (encloses hs hchain hq)
  refine ⟨?_, fun e he => ?_⟩
  · rw [Env.get?_put, if_neg, h₁]
    intro hqi
    cases hqi
    exact absurd hlt (Nat.lt_irrefl _)
  · rw [Env.get?_put, if_neg nofun, h₂ e he]

/-- A statement may evaluate its own expressions. -/
theorem evaluate {e : ExprId} (he : e ∈ s.kind.exprs)
    (h : ∀ n, p.From n e → env.SameBelow n env') : p.Leaves waiting env env' := by
  intro q hq t ht
  -- The expressions of a statement come after those of what encloses it, so `h` covers the latter.
  have hafter := (hp.stmts i s hs).after q t (encloses hs hchain hq) ht
  refine ⟨?_, fun e' he' => ?_⟩
  · exact h 0 (hp.from_zero e) _ nofun nofun
  · refine h _ (hafter e' he' e he) _ nofun fun e'' heq => ?_
    cases heq
    exact Nat.lt_succ_self _

end Leaves

end Program

end TreeMachine
