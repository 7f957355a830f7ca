import TreeMachine.Execution.Step

/-!
# What a call does to the activations

A call takes operands of the innermost activation. After that it has failed, has given a value to
this activation, or has entered a function (`Context.invoke_called`). The activations below are left
alone in each case.

This is the short form of what a call comes to, without a word about the heap, the sink and the
reason of a failure. It is enough for invariants of single activations: an activation that is pushed
a value, or that begins with a function, is all that is new. What has been entered, and with what,
is in the long form (`Context.invoke_ends`), which needs more to be stated.

A function is entered in an activation of its own, unless the innermost one has nothing left to do,
as at the start of a task. Then it is that one which begins with the function.
-/

namespace TreeMachine

namespace Context

variable {p : Program}

/-- A context with other activations. -/
def withTop (c : Context) (f : Frame) (callers : List Frame) : Context :=
  { c with frames := f :: callers }

/-- What a call has come to: the activations are as they were, or the innermost one has got a value,
or a function has been entered. -/
inductive Called (p : Program) (c : Context) : Context → Prop
  | same {c' : Context} (h : c'.frames = c.frames) : Called p c c'
  | answered {c' : Context} (v : Value) (h : c'.frames = (c.push v).frames) : Called p c c'
  | entered {id : FnId} {f : Function} {first : Option StmtId} (scope : ScopeId) (args : List Value)
      (hf : p.function? id = some f) (hbody : f.body = .code first) :
      Called p c (c.activate id first scope f.params args)

/-- The heap does not matter to where a value is pushed. -/
theorem frames_push_heap (c : Context) (heap : Heap) (v : Value) :
    (push { c with heap := heap } v).frames = (c.push v).frames := by
  cases hframes : c.frames <;> simp only [push, hframes]

theorem enter_called (place : Place) (id : FnId) (args : List Value) (c : Context) (sink : Sink) :
    Called p c (c.enter p place id args sink).context := by
  unfold Context.enter
  split
  · exact .same rfl
  · rename_i f hf
    split
    · exact .same rfl
    · split
      · dsimp only
        split
        · rename_i v _
          exact .answered v (frames_push_heap c _ v)
        · exact .same rfl
      · rename_i first hbody
        split
        · exact .same rfl
        · exact .entered _ args hf hbody

theorem apply_called (place : Place) (scope : ScopeId) (callee : Value) (args : List Value)
    (c : Context) (sink : Sink) : Called p c (c.apply p place scope callee args sink).context := by
  unfold Context.apply
  split
  · exact enter_called place _ args c sink
  · split
    · rename_i v _
      exact .answered v rfl
    · exact .same rfl
    · split
      · exact enter_called place _ args c sink
      · exact .same rfl
  · exact .same rfl
  · exact .same rfl

/-- **A call** takes operands, and then comes to one of the cases. -/
theorem invoke_called {c : Context} {f : Frame} {callers : List Frame}
    (hframes : c.frames = f :: callers) (n : Nat) (sink : Sink) :
    ∃ operands, Called p (c.withTop { f with operands := operands } callers)
      (c.invoke p n sink).context := by
  have hsame : c.frames = (c.withTop { f with operands := f.operands } callers).frames := hframes
  unfold Context.invoke
  split
  · rename_i hnil
    rw [hnil] at hframes
    cases hframes
  · rename_i g callers' hcons
    obtain ⟨rfl, rfl⟩ := List.cons.inj (hcons.symm.trans hframes)
    split
    · exact ⟨g.operands, .same hsame⟩
    · split
      · exact ⟨g.operands, .same hsame⟩
      · rename_i callee rest _
        split
        · exact ⟨g.operands, .same hsame⟩
        · exact ⟨rest, apply_called _ _ callee _ _ sink⟩

end Context

end TreeMachine
