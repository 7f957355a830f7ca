import TreeMachine.Proofs.Execution.Frame
import TreeMachine.Proofs.Heap.Marking
import TreeMachine.Proofs.Primitive.Results
import TreeMachine.Proofs.Tree.WellFormed

/-!
# What values refer to

A value is sound when the function or the object that it refers to is there (`Value.Sound`), and an
activation holds sound values when its operands and its environment do (`Frame.Holds`). An
allocation keeps values sound, since objects stay where they are; so does a collection, for the
values that are among its roots.

Functions are in the tables of the program, which do not change, and objects are in the heap, which
does. Two things happen to a heap in a run. It is extended, by an allocation, and then every handle
that has an object keeps it (`Heap.Extends`); or it is collected, and then those handles do that are
reached from the roots (`Frame.Holds.collect`). Units of work do neither, so soundness of values is
kept by them for the reason that they move values around.

Closures are sound whatever they refer to, as they are never made. Uninitialized variables are sound
as well; that they are not read is left to other invariants.
-/

namespace TreeMachine

/-- A value refers to a function of the program or to an object of the heap, if to either. -/
def Value.Sound (p : Program) (heap : Heap) : Value → Prop
  | .object h => ∃ o, heap.get? h = some o
  | .function id => ∃ f, p.function? id = some f
  | _ => True

theorem Value.Plain.sound {v : Value} (h : v.Plain) (p : Program) (heap : Heap) :
    v.Sound p heap := by
  rcases h with rfl | ⟨s, rfl⟩ <;> trivial

/-- A heap has the objects of another one under the same handles. -/
def Heap.Extends (heap' heap : Heap) : Prop :=
  ∀ h o, heap.get? h = some o → heap'.get? h = some o

theorem Heap.Extends.refl (heap : Heap) : heap.Extends heap :=
  fun _ _ h => h

theorem Heap.Valid.extends_alloc {heap : Heap} (h : heap.Valid) (o : Object) :
    (heap.alloc o).1.Extends heap :=
  fun _ _ hk => h.get?_alloc hk o

theorem Value.Sound.mono {p : Program} {heap heap' : Heap} {v : Value} (h : v.Sound p heap)
    (hext : heap'.Extends heap) : v.Sound p heap' := by
  cases v with
  | object k =>
    obtain ⟨o, ho⟩ := h
    exact ⟨o, hext k o ho⟩
  | function id => exact h
  | _ => trivial

/-- A value that is read is the one that is there. -/
theorem Value.eq_of_read {v w : Value} (h : v.read = .ok w) : w = v := by
  cases v <;> cases h <;> rfl

/-- What is found after parameters have been bound was there before, or is an argument. -/
theorem Env.of_get?_bind {params : List VarId} {args : List Value} {env : Env} {k : Key} {v : Value}
    (h : ((params.zip args).foldl (fun env b => env.put (.var b.1) b.2) env).get? k = some v) :
    env.get? k = some v ∨ (∃ x, k = .var x) ∧ v ∈ args := by
  induction params generalizing args env with
  | nil => exact .inl h
  | cons x params ih =>
    cases args with
    | nil => exact .inl h
    | cons a args =>
      rcases ih h with hput | ⟨hk, hmem⟩
      · rw [Env.get?_put] at hput
        split at hput
        · rename_i hk
          cases hput
          exact .inr ⟨⟨x, hk⟩, List.mem_cons_self⟩
        · exact .inl hput
      · exact .inr ⟨hk, List.mem_cons_of_mem _ hmem⟩

namespace Frame

/-- The values that an activation holds are sound, and its function and its scope are there. -/
structure Holds (p : Program) (heap : Heap) (f : Frame) : Prop where
  env : ∀ k v, f.env.get? k = some v → v.Sound p heap
  operands : ∀ v ∈ f.operands, v.Sound p heap
  function : ∀ id, f.function = some id → ∃ fn, p.function? id = some fn
  scope : ∃ s, p.scope? f.scope = some s

namespace Holds

variable {p : Program} {heap heap' : Heap} {f : Frame}

theorem mono (h : f.Holds p heap) (hext : heap'.Extends heap) : f.Holds p heap' :=
  { h with
    env := fun k v hv => (h.env k v hv).mono hext
    operands := fun v hv => (h.operands v hv).mono hext }

theorem start {heap : Heap} {scope : ScopeId} (hscope : ∃ s, p.scope? scope = some s)
    (stmt : Option StmtId) : (Frame.start stmt scope).Holds p heap :=
  ⟨nofun, nofun, nofun, hscope⟩

/-- The operands may be replaced by sound ones. -/
theorem setOperands (h : f.Holds p heap) (operands : List Value)
    (hsound : ∀ v ∈ operands, v.Sound p heap) :
    Holds p heap { f with operands := operands } :=
  { h with operands := hsound }

theorem push (h : f.Holds p heap) {v : Value} (hv : v.Sound p heap) : (f.push v).Holds p heap :=
  h.setOperands _ (List.forall_mem_cons.2 ⟨hv, h.operands⟩)

/-- Operands may be taken. -/
theorem take (h : f.Holds p heap) {operands : List Value} (hsub : operands ⊆ f.operands) :
    Holds p heap { f with operands := operands } :=
  h.setOperands _ fun v hv => h.operands v (hsub hv)

/-- A sound value may be written. -/
theorem put (h : f.Holds p heap) (k : Key) {v : Value} (hv : v.Sound p heap) :
    Holds p heap { f with env := f.env.put k v } := by
  refine { h with env := fun k' w hw => ?_ }
  simp only [Env.get?_put] at hw
  split at hw
  · cases hw
    exact hv
  · exact h.env k' w hw

theorem finish (h : f.Holds p heap) {v : Value} (hv : v.Sound p heap) :
    (f.finish v).Holds p heap := by
  rw [finish_eq]
  have hremember : Holds p heap { f with env := remember f.env f.expr v } := by
    unfold remember
    split
    · exact h.put _ hv
    · exact h
  exact { hremember.push hv with }

/-- Parameters are bound to sound arguments. -/
theorem bind (h : f.Holds p heap) (params : List VarId) {args : List Value}
    (hargs : ∀ v ∈ args, v.Sound p heap) : (f.bind params args).Holds p heap :=
  { h with
    env := fun k v hv => (Env.of_get?_bind hv).elim (fun hold => h.env k v hold)
      fun hnew => hargs v hnew.2 }

/-- The values of an activation survive a collection that has them among its roots. -/
theorem collect (h : f.Holds p heap) {roots : List Value} (hroots : f.roots ⊆ roots) :
    f.Holds p (heap.collect roots).1 := by
  have hkeep : ∀ v ∈ f.roots, v.Sound p heap → v.Sound p (heap.collect roots).1 := by
    intro v hv hsound
    cases v with
    | object k =>
      obtain ⟨o, ho⟩ := hsound
      have hstart : k ∈ roots.filterMap Value.asObject? :=
        List.mem_filterMap.2 ⟨.object k, hroots hv, rfl⟩
      exact ⟨o, Heap.get?_collect (.start hstart) ho⟩
    | function id => exact hsound
    | _ => trivial
  refine { h with
    env := fun k v hv => hkeep v ?_ (h.env k v hv)
    operands := fun v hv => hkeep v ?_ (h.operands v hv) }
  · exact List.mem_append_left _ (Env.mem_values hv)
  · exact List.mem_append_right _ hv

end Holds

end Frame

end TreeMachine
