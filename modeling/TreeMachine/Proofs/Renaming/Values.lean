import Mathlib.Data.List.Forall2
import TreeMachine.Primitive.Arithmetic
import TreeMachine.Proofs.Execution.Frame

/-!
# Renaming handles

Two runs of a program that differ only in when the heap was collected hold the same objects under
different handles. `Value.Renamed`, `Env.Renamed` and `Frame.Renamed` say that values, environments
and activations are the same up to a relation between handles. Nothing that is asked of a value
depends on the name of a handle, and whether two values are equal does not depend on it as long as
the relation is one-to-one.

A renaming is a relation and not a function, since neither heap has to have all the handles of the
other: a handle that no activation holds any more may be related to nothing. It has to be one-to-one
in both directions because handles can be compared by the program. Equality of two objects is
equality of their handles, and this is where the names of handles could show. They are neither
ordered nor hashed, and one is printed only when its object is gone, which does not happen to a
handle that is held.

What is related is everything that a step may look at. Environments have the same keys, as maps, and
their order does not matter. The stacks of an activation have the same nodes and stages. Any
relation that agrees on the handles which are held may be taken instead (`Frame.Renamed.imp`), and
that is how a renaming is cut down after a collection.
-/

namespace TreeMachine

/-- A relation between the handles of two heaps. -/
abbrev Renaming := Handle → Handle → Prop

/-- A renaming that relates every handle to at most one, in both directions. -/
structure Renaming.OneToOne (ρ : Renaming) : Prop where
  right : ∀ {h k k' : Handle}, ρ h k → ρ h k' → k = k'
  left : ∀ {h h' k : Handle}, ρ h k → ρ h' k → h = h'

/-! ### Values -/

/-- Two values are the same up to a renaming of handles. -/
inductive Value.Renamed (ρ : Renaming) : Value → Value → Prop
  | object {h k : Handle} (hρ : ρ h k) : Renamed ρ (.object h) (.object k)
  | same {v : Value} (hv : v.asObject? = none) : Renamed ρ v v

namespace Value.Renamed

variable {ρ ρ' : Renaming} {v v' : Value}

/-- A value stays renamed by every relation of the handles that it may be. -/
theorem imp (hv : v.Renamed ρ v')
    (hρ : ∀ h k, ρ h k → v = .object h → v' = .object k → ρ' h k) : v.Renamed ρ' v' := by
  cases hv with
  | object h => exact .object (hρ _ _ h rfl rfl)
  | same h => exact .same h

theorem asBool (hv : v.Renamed ρ v') : v'.asBool = v.asBool := by
  cases hv <;> rfl

theorem asInt (hv : v.Renamed ρ v') : v'.asInt = v.asInt := by
  cases hv <;> rfl

/-- Reading fails for both values in the same way, or gives them both. -/
theorem read (hv : v.Renamed ρ v') :
    (∃ e, v.read = .error e ∧ v'.read = .error e) ∨ v.read = .ok v ∧ v'.read = .ok v' := by
  cases hv with
  | object h => exact .inr ⟨rfl, rfl⟩
  | same h =>
    cases v with
    | empty => exact .inl ⟨_, rfl, rfl⟩
    | uninitialized => exact .inl ⟨_, rfl, rfl⟩
    | object k => cases h
    | scalar s => exact .inr ⟨rfl, rfl⟩
    | function id => exact .inr ⟨rfl, rfl⟩
    | selector name => exact .inr ⟨rfl, rfl⟩
    | closure id => exact .inr ⟨rfl, rfl⟩

end Value.Renamed

namespace Primitive

variable {ρ : Renaming} {a a' b b' : Value}

theorem numbers_renamed (op : String) (ha : a.Renamed ρ a') (hb : b.Renamed ρ b') :
    numbers op a' b' = numbers op a b := by
  cases ha with
  | object h =>
    cases hb with
    | object k => rfl
    | same k => cases b <;> rfl
  | same h =>
    cases hb with
    | object k =>
      cases a with
      | scalar s => cases s <;> rfl
      | _ => rfl
    | same k => rfl

theorem operation_renamed (op : Operation) (ha : a.Renamed ρ a') (hb : b.Renamed ρ b') :
    op.apply a' b' = op.apply a b := by
  rw [Operation.apply, Operation.apply, numbers_renamed op.name ha hb]

theorem sum_renamed (ha : a.Renamed ρ a') (hb : b.Renamed ρ b') : sum a' b' = sum a b := by
  have happly := operation_renamed addition ha hb
  cases ha with
  | object h => exact happly
  | same h =>
    cases hb with
    | object k =>
      cases a with
      | scalar s => cases s <;> exact happly
      | _ => exact happly
    | same k => rfl

theorem comparison_renamed (c : Comparison) (ha : a.Renamed ρ a') (hb : b.Renamed ρ b') :
    c.apply a' b' = c.apply a b := by
  cases ha with
  | object h =>
    cases hb with
    | object k => rfl
    | same k => cases b <;> rfl
  | same h =>
    cases hb with
    | object k =>
      cases a with
      | scalar s => cases s <;> rfl
      | _ => rfl
    | same k => rfl

/-- Whether values are equal does not depend on the names of handles. -/
theorem equal_renamed (hρ : ρ.OneToOne) (ha : a.Renamed ρ a') (hb : b.Renamed ρ b') :
    equal a' b' = equal a b := by
  cases ha with
  | object h =>
    cases hb with
    | object k =>
      -- The only comparison that sees handles, and the reason for one-to-one relations.
      have hiff : ∀ h₁ h₂ k₁ k₂, ρ h₁ k₁ → ρ h₂ k₂ →
          (Value.object k₁ == Value.object k₂) = (Value.object h₁ == Value.object h₂) := by
        intro h₁ h₂ k₁ k₂ h₁ρ h₂ρ
        rw [Bool.eq_iff_iff, beq_iff_eq, beq_iff_eq, Value.object.injEq, Value.object.injEq]
        refine ⟨fun e => ?_, fun e => ?_⟩
        · subst e
          exact hρ.left h₁ρ h₂ρ
        · subst e
          exact hρ.right h₁ρ h₂ρ
      exact congrArg Except.ok (hiff _ _ _ _ h k)
    | same k =>
      cases b with
      | object => cases k
      | _ => rfl
  | same h =>
    cases hb with
    | object k =>
      cases a with
      | object => cases h
      | scalar s => cases s <;> rfl
      | _ => rfl
    | same k => rfl

end Primitive

/-! ### Environments -/

/-- Two environments have the same keys, with values that are the same up to a renaming. -/
def Env.Renamed (ρ : Renaming) (env env' : Env) : Prop :=
  ∀ k, Option.Rel (Value.Renamed ρ) (env.get? k) (env'.get? k)

namespace Env.Renamed

variable {ρ ρ' : Renaming} {env env' : Env}

theorem empty : Env.Renamed ρ .empty .empty :=
  fun _ => .none

theorem put (h : env.Renamed ρ env') (k : Key) {v v' : Value} (hv : v.Renamed ρ v') :
    (env.put k v).Renamed ρ (env'.put k v') := by
  intro k'
  rw [Env.get?_put, Env.get?_put]
  split
  · exact .some hv
  · exact h k'

theorem declare (h : env.Renamed ρ env') (x : VarId) :
    (env.declare x).Renamed ρ (env'.declare x) :=
  h.put (.var x) (.same rfl)

/-- A key has a value in both environments or in neither. -/
theorem get? (h : env.Renamed ρ env') (k : Key) :
    (env.get? k = none ∧ env'.get? k = none) ∨
      ∃ v v', env.get? k = some v ∧ env'.get? k = some v' ∧ v.Renamed ρ v' := by
  have hk := h k
  cases he : env.get? k with
  | none =>
    rw [he] at hk
    cases he' : env'.get? k with
    | none => exact .inl ⟨rfl, rfl⟩
    | some v' => rw [he'] at hk; cases hk
  | some v =>
    rw [he] at hk
    cases he' : env'.get? k with
    | none => rw [he'] at hk; cases hk
    | some v' =>
      rw [he'] at hk
      cases hk with
      | some hv => exact .inr ⟨v, v', rfl, rfl, hv⟩

/-- Environments stay renamed by every relation of the handles that they hold. -/
theorem imp (h : env.Renamed ρ env')
    (hρ : ∀ h k, ρ h k → .object h ∈ env.values → .object k ∈ env'.values → ρ' h k) :
    env.Renamed ρ' env' := by
  intro k
  rcases h.get? k with ⟨he, he'⟩ | ⟨v, v', he, he', hv⟩
  · rw [he, he']
    exact .none
  · rw [he, he']
    refine .some (hv.imp fun a b hab ha hb => hρ a b hab ?_ ?_)
    · exact Env.mem_values (ha ▸ he)
    · exact Env.mem_values (hb ▸ he')

end Env.Renamed

/-! ### Activations -/

/-- Two activations are the same up to a renaming of the handles in their environments and on their
operand stacks. -/
structure Frame.Renamed (ρ : Renaming) (f f' : Frame) : Prop where
  env : f.env.Renamed ρ f'.env
  waiting : f'.waiting = f.waiting
  resumes : f'.resumes = f.resumes
  suspended : f'.suspended = f.suspended
  operands : List.Forall₂ (Value.Renamed ρ) f.operands f'.operands
  stmt : f'.stmt = f.stmt
  expr : f'.expr = f.expr
  stage : f'.stage = f.stage
  exprStage : f'.exprStage = f.exprStage
  function : f'.function = f.function
  scope : f'.scope = f.scope

namespace Frame.Renamed

variable {ρ ρ' : Renaming} {f f' : Frame}

theorem start (ρ : Renaming) (stmt : Option StmtId) (scope : ScopeId) :
    Frame.Renamed ρ (.start stmt scope) (.start stmt scope) :=
  ⟨.empty, rfl, rfl, rfl, .nil, rfl, rfl, rfl, rfl, rfl, rfl⟩

/-- Activations stay renamed by every relation of the handles among their roots. -/
theorem imp (h : f.Renamed ρ f')
    (hρ : ∀ h k, ρ h k → .object h ∈ f.roots → .object k ∈ f'.roots → ρ' h k) :
    f.Renamed ρ' f' := by
  have hops : ∀ {vs vs' : List Value}, List.Forall₂ (Value.Renamed ρ) vs vs' →
      (∀ h k, ρ h k → .object h ∈ vs → .object k ∈ vs' → ρ' h k) →
      List.Forall₂ (Value.Renamed ρ') vs vs' := by
    intro vs vs' hvs
    induction hvs with
    | nil => exact fun _ => .nil
    | cons hv _ ih =>
      refine fun hall => .cons (hv.imp fun a b hab ha hb => hall a b hab ?_ ?_)
        (ih fun a b hab ha hb => hall a b hab (List.mem_cons_of_mem _ ha)
          (List.mem_cons_of_mem _ hb))
      · exact ha ▸ List.mem_cons_self
      · exact hb ▸ List.mem_cons_self
  exact { h with
    env := h.env.imp fun a b hab ha hb => hρ a b hab (List.mem_append_left _ ha)
      (List.mem_append_left _ hb)
    operands := hops h.operands fun a b hab ha hb => hρ a b hab (List.mem_append_right _ ha)
      (List.mem_append_right _ hb) }

theorem mono (hρ : ∀ h k, ρ h k → ρ' h k) (h : f.Renamed ρ f') : f.Renamed ρ' f' :=
  h.imp fun a b hab _ _ => hρ a b hab

theorem isExhausted (h : f.Renamed ρ f') : f'.isExhausted = f.isExhausted := by
  rw [Frame.isExhausted, Frame.isExhausted, h.stmt, h.expr]

theorem cursor (h : f.Renamed ρ f') : f'.cursor = f.cursor := by
  rw [Frame.cursor, Frame.cursor, h.stmt, h.expr]

theorem push (h : f.Renamed ρ f') {v v' : Value} (hv : v.Renamed ρ v') :
    (f.push v).Renamed ρ (f'.push v') :=
  { h with operands := .cons hv h.operands }

theorem setOperands (h : f.Renamed ρ f') {vs vs' : List Value}
    (hvs : List.Forall₂ (Value.Renamed ρ) vs vs') :
    Frame.Renamed ρ { f with operands := vs } { f' with operands := vs' } :=
  { h with operands := hvs }

theorem pushWaiting (h : f.Renamed ρ f') (s : StmtId) (stage : Nat) :
    (f.pushWaiting s stage).Renamed ρ (f'.pushWaiting s stage) :=
  { h with
    waiting := congrArg (List.cons s) h.waiting
    resumes := congrArg (List.cons stage) h.resumes }

theorem putEnv (h : f.Renamed ρ f') (k : Key) {v v' : Value} (hv : v.Renamed ρ v') :
    Frame.Renamed ρ { f with env := f.env.put k v } { f' with env := f'.env.put k v' } :=
  { h with env := h.env.put k hv }

theorem eval (h : f.Renamed ρ f') (e : ExprId) (resume : Nat) :
    (f.eval e resume).Renamed ρ (f'.eval e resume) := by
  rw [Frame.eval, Frame.eval, h.expr]
  cases f.expr with
  | some current =>
    exact { h with
      suspended := congrArg (List.cons (current, resume)) h.suspended, expr := rfl,
      exprStage := rfl }
  | none => exact { h with stage := rfl, expr := rfl, exprStage := rfl }

theorem finish (h : f.Renamed ρ f') {v v' : Value} (hv : v.Renamed ρ v') :
    (f.finish v).Renamed ρ (f'.finish v') := by
  have henv : (remember f.env f.expr v).Renamed ρ (remember f'.env f'.expr v') := by
    rw [h.expr]
    cases f.expr with
    | some e => exact h.env.put (.expr e) hv
    | none => exact h.env
  rw [finish_eq, finish_eq]
  exact { h with
    env := henv
    suspended := congrArg List.tail h.suspended
    operands := .cons hv h.operands
    expr := by rw [h.suspended]
    exprStage := by rw [h.suspended] }

theorem pushMessage (h : f.Renamed ρ f') (m : Message) {collection collection' : Value}
    (hc : collection.Renamed ρ collection') {state state' : Option Value}
    (hs : Option.Rel (Value.Renamed ρ) state state') :
    (f.pushMessage m collection state).1.Renamed ρ (f'.pushMessage m collection' state').1 ∧
      (f'.pushMessage m collection' state').2 = (f.pushMessage m collection state).2 := by
  have hpush := (h.push (.same (v := .selector m.selector) rfl)).push hc
  refine ⟨?_, rfl⟩
  cases hs with
  | some hv => exact hpush.push hv
  | none => exact hpush

end Frame.Renamed

end TreeMachine
