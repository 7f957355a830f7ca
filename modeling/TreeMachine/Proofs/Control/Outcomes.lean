import TreeMachine.Proofs.Control.Activations

/-!
# Outcomes of a step

A step of the innermost activation leaves it when it has nothing left to do, fails before there is
work, or meets the demand of a unit of work (`Context.step_taken`). It does not count itself
(`Context.step_steps`), and when it fails there is still an activation
(`Context.step_error_frames_ne_nil`).

These facts are about the step as an effect, with its result and its sink, whereas what it does to
the activations is described elsewhere. They are needed where runs are counted: the charge of a step
is added by the machine that takes it, and a run that has failed is not finished, so that a context
is finished exactly when its run says so.

A step may fail in three places. The node of the activation may not be there, which is a defect; the
line of the trace may not be written, which leaves the work undone; or the work may fail, or the
call that it demands. In each of them the activations are those that the step has come to by then.
-/

namespace TreeMachine

theorem Except.eq_ok_of_toOption {ε α : Type} {r : Except ε α} {a : α}
    (h : r.toOption = some a) : r = .ok a := by
  cases r with
  | error e => cases h
  | ok b =>
    cases h
    rfl

namespace Context

variable {p : Program} {c : Context}

/-! ### The count of steps -/

theorem push_steps (c : Context) (v : Value) : (c.push v).steps = c.steps := by
  unfold push
  split <;> rfl

theorem detach_steps (c : Context) (v : Value) : (c.detach v).steps = c.steps := by
  unfold detach
  split <;> rfl

theorem enter_steps (place : Place) (id : FnId) (args : List Value) (c : Context) (sink : Sink) :
    (c.enter p place id args sink).context.steps = c.steps := by
  unfold enter
  split
  · rfl
  · split
    · rfl
    · split
      · dsimp only
        split
        · exact push_steps _ _
        · rfl
      · split
        · rfl
        · rfl

theorem apply_steps (place : Place) (scope : ScopeId) (callee : Value) (args : List Value)
    (c : Context) (sink : Sink) :
    (c.apply p place scope callee args sink).context.steps = c.steps := by
  unfold apply
  split
  · exact enter_steps place _ args c sink
  · split
    · exact push_steps c _
    · rfl
    · split
      · exact enter_steps place _ args c sink
      · rfl
  · rfl
  · rfl

theorem invoke_steps (n : Nat) (c : Context) (sink : Sink) :
    (c.invoke p n sink).context.steps = c.steps := by
  unfold invoke
  split
  · rfl
  · split
    · rfl
    · split
      · rfl
      · split
        · rfl
        · exact apply_steps _ _ _ _ _ sink

theorem meet_steps (place : Place) (callers : List Frame) (w : Work) (c : Context) (sink : Sink) :
    (c.meet p place callers w sink).context.steps = c.steps := by
  obtain ⟨f, r⟩ := w
  cases r with
  | error e => rfl
  | ok d =>
    cases d with
    | pending => rfl
    | jumped => rfl
    | complete =>
      unfold meet
      dsimp only
      split
      · rfl
      · rfl
    | leave v => exact detach_steps _ v
    | call n => exact invoke_steps n (c.withTop f callers) sink

/-! ### What a step comes to -/

/-- What a step of the innermost activation comes to: the activation has nothing left to do and is
left, or its node is not there, or the line of the trace cannot be written, or the demand of a unit
of work is met. -/
inductive Taken (p : Program) (c : Context) (f : Frame) (callers : List Frame) :
    Effect Progress → Prop
  | exhausted (sink : Sink) (hf : f.pending? p = none) :
      Taken p c f callers ⟨c.detach .empty, sink, .ok (c.detach .empty).progress⟩
  | dangling {d : Defect} (sink : Sink) (hf : f.pending? p = some (.error d)) :
      Taken p c f callers ⟨c, sink, .error (.internal f.cursor d)⟩
  | untraced {w : Work} (sink : Sink) (e : ChannelError) (hw : f.Works p w) :
      Taken p c f callers ⟨c, sink, .error (.channel e)⟩
  | worked {w : Work} (sink : Sink) (hw : f.Works p w) :
      Taken p c f callers (c.meet p f.cursor callers w sink)

theorem step_taken {f : Frame} {callers : List Frame} (hframes : c.frames = f :: callers)
    (traceLevel : Nat) (sink : Sink) : Taken p c f callers (c.step p traceLevel sink) := by
  unfold step
  simp only [hframes]
  cases hpending : f.pending? p with
  | none => exact .exhausted sink hpending
  | some r =>
    cases r with
    | error d => exact .dangling sink hpending
    | ok node =>
      have hworks : f.Works p node.work := ⟨node, hpending, rfl⟩
      dsimp only
      split
      · exact .worked sink hworks
      · split
        · exact .worked _ hworks
        · exact .untraced _ _ hworks

/-- A step does not count itself. -/
theorem step_steps (traceLevel : Nat) (c : Context) (sink : Sink) :
    (c.step p traceLevel sink).context.steps = c.steps := by
  cases hframes : c.frames with
  | nil => rw [step_of_nil hframes]
  | cons f callers =>
    have htaken := step_taken (p := p) hframes traceLevel sink
    generalize c.step p traceLevel sink = done at htaken ⊢
    cases htaken with
    | exhausted => exact detach_steps c .empty
    | dangling => rfl
    | untraced => rfl
    | worked sink' _ => exact meet_steps _ _ _ c sink'

/-! ### Steps that fail -/

/-- A call leaves an activation behind. -/
theorem invoke_frames_ne_nil {f : Frame} {callers : List Frame} (hframes : c.frames = f :: callers)
    (n : Nat) (sink : Sink) : (c.invoke p n sink).context.frames ≠ [] := by
  obtain ⟨operands, hcalled⟩ := invoke_called (p := p) hframes n sink
  rcases frames_called hcalled rfl with ⟨_, h⟩ | ⟨_, h⟩ | ⟨-, _, h⟩
  all_goals
    rw [h]
    exact List.cons_ne_nil _ _

/-- Where the demand of a unit of work cannot be met, there is an activation. -/
theorem meet_frames_ne_nil {place : Place} {callers : List Frame} {w : Work} {sink : Sink}
    {e : Fault} (h : (c.meet p place callers w sink).result = .error e) :
    (c.meet p place callers w sink).context.frames ≠ [] := by
  obtain ⟨f, r⟩ := w
  cases r with
  | error e => exact List.cons_ne_nil _ _
  | ok d =>
    cases d with
    | pending => exact List.cons_ne_nil _ _
    | jumped => exact List.cons_ne_nil _ _
    | complete =>
      unfold meet
      dsimp only
      split
      · exact List.cons_ne_nil _ _
      · exact List.cons_ne_nil _ _
    | leave v => cases h
    | call n => exact invoke_frames_ne_nil (c := c.withTop f callers) rfl n sink

/-- A step that fails does not finish the context. -/
theorem step_error_frames_ne_nil {traceLevel : Nat} {sink : Sink} {e : Fault}
    (h : (c.step p traceLevel sink).result = .error e) :
    (c.step p traceLevel sink).context.frames ≠ [] := by
  cases hframes : c.frames with
  | nil =>
    rw [step_of_nil hframes] at h
    cases h
  | cons f callers =>
    have htaken := step_taken (p := p) hframes traceLevel sink
    generalize c.step p traceLevel sink = done at htaken h ⊢
    cases htaken with
    | exhausted => cases h
    | dangling | untraced =>
      rw [hframes]
      exact List.cons_ne_nil _ _
    | worked => exact meet_frames_ne_nil h

end Context

end TreeMachine
