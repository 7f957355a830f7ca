import TreeMachine.Machine
import TreeMachine.Proofs.Control.Activations

/-!
# Steps on a schedule

A turn of a context is a step that succeeds, under given conditions: with a trace or without, and
followed by a collection or not (`Context.turn`). A schedule gives the conditions of each turn in
advance, so that it settles what a context is after a number of turns (`Context.after`). Turns keep
what is known of the activations and of the heap (`Context.Orderly.turn`), and an object that is
held by an activation stays what it is unless work changes it (`Context.turn_get?`).

Schedules are there for statements about a part of a run. A machine decides by its threshold when to
collect and by its debugger when to trace; a statement that holds on every schedule does not depend
on either, and needs no debugger. Each turn of a machine that takes a step is a turn of its context
(`Machine.TurnMoves.turn`), so the contexts of a run are those on some schedule.

A trace may fail to be written, and a step with it. Where that would end the part of a run that is
being watched, the conditions are asked to take the trace (`Conditions.TakesTrace`).
-/

namespace TreeMachine

/-- Nothing is traced, or the sink takes any line of the trace. -/
def Conditions.TakesTrace (s : Conditions) : Prop :=
  s.traceLevel = 0 ∨ ∀ line, (s.sink.write .trace line).2 = .ok ()

namespace Context

/-- The context after a number of turns on a schedule; nothing if one of the steps fails. -/
def after (p : Program) (schedule : Nat → Conditions) (c : Context) : Nat → Option Context
  | 0 => some c
  | n + 1 => (after p schedule c n).bind (turn p (schedule n))

variable {p : Program} {s : Conditions} {c c' : Context} {k : Handle} {o : Object}

theorem turn_of_ok {progress : Progress}
    (h : (c.step p s.traceLevel s.sink).result = .ok progress) : ∃ c', c.turn p s = some c' := by
  rw [turn, h]
  exact ⟨_, rfl⟩

/-- A turn has the activations of the step, and its heap, which may have been collected. -/
theorem turn_cases (h : c.turn p s = some c') :
    c'.frames = (c.step p s.traceLevel s.sink).context.frames ∧
      (c'.heap = (c.step p s.traceLevel s.sink).context.heap ∨
        c'.heap = ((c.step p s.traceLevel s.sink).context.heap.collect c'.roots).1) := by
  unfold turn at h
  dsimp only at h
  split at h
  · cases h
  · cases h
    split
    · refine ⟨?_, .inr ?_⟩
      · split <;> rfl
      · split <;> rfl
    · refine ⟨?_, .inl ?_⟩
      · split <;> rfl
      · split <;> rfl

/-! ### The heap -/

theorem Grown.valid {heap heap' : Heap} (h : Grown heap heap') (hv : heap.Valid) :
    heap'.Valid ∧ heap'.Extends heap := by
  rcases h with rfl | ⟨o, rfl⟩
  · exact ⟨hv, .refl heap'⟩
  · exact ⟨hv.alloc o, hv.extends_alloc o⟩

theorem Starts.valid {outer : Option StmtId} (h : c.Starts p outer) : c.heap.Valid := by
  cases h with
  | forModule => exact Heap.valid_empty
  | startEntry => exact ((invoke_heap 1 _ _).valid Heap.valid_empty).1

theorem Becomes.valid {c₀ : Context} (h : c₀.Becomes p c) (hv : c₀.heap.Valid) : c.heap.Valid := by
  induction h with
  | refl => exact hv
  | step _ traceLevel sink ih => exact ((step_heap p traceLevel _ sink).valid ih).1
  | charge _ ih => exact ih
  | collect _ ih => exact ih.collect _

/-- **What an activation holds stays** through a turn, whether the heap is collected or not. -/
theorem turn_get? (h : c.turn p s = some c') (hv : c.heap.Valid) (ho : c.heap.get? k = some o)
    (hroot : .object k ∈ c'.roots) : c'.heap.get? k = some o := by
  obtain ⟨-, hheap⟩ := turn_cases h
  obtain ⟨-, hext⟩ := (step_heap p s.traceLevel c s.sink).valid hv
  have hafter := hext k o ho
  rcases hheap with hheap | hheap
  · rwa [hheap]
  · rw [hheap]
    exact Heap.get?_collect (.start (List.mem_filterMap.2 ⟨_, hroot, rfl⟩)) hafter

/-! ### The activations -/

theorem Starts.focused {outer : Option StmtId} (h : c.Starts p outer) :
    ∀ f ∈ c.frames, f.Focused p := by
  have hidle : ∀ stmt scope, (Frame.start stmt scope).Focused p := fun _ _ => .of_idle rfl rfl
  cases h with
  | forModule => exact List.forall_mem_cons.2 ⟨hidle _ _, nofun⟩
  | startEntry =>
    refine (Frame.kept_focused p).invoke (List.forall_mem_cons.2 ⟨?_, nofun⟩) 1 _
    exact .of_idle rfl rfl

theorem Becomes.focused {c₀ : Context} (h : c₀.Becomes p c) (hf : ∀ f ∈ c₀.frames, f.Focused p) :
    ∀ f ∈ c.frames, f.Focused p := by
  induction h with
  | refl => exact hf
  | step _ traceLevel sink ih => exact (Frame.kept_focused p).step ih traceLevel sink
  | charge _ ih => exact ih
  | collect _ ih => exact ih

/-- What is known of a context that a task of a linked program gets into. -/
structure Orderly (p : Program) (B : Option FnId → StmtId → Prop) (c : Context) : Prop where
  mirrors : c.Mirrors p B
  focused : ∀ f ∈ c.frames, f.Focused p
  heap : c.heap.Valid

theorem Starts.orderly {outer : Option StmtId} {c₀ : Context} (h : c₀.Starts p outer)
    (hp : p.WellFormed) (hapart : p.Apart) (hc : c₀.Becomes p c) :
    p.Regions (fun fn => p.InBodyOf (p.bodyOf outer fn)) ∧
      c.Orderly p fun fn => p.InBodyOf (p.bodyOf outer fn) := by
  obtain ⟨hregions, hmirrors⟩ := h.mirrors hp hapart
  exact ⟨hregions, hmirrors.becomes hp hregions hc, hc.focused h.focused, hc.valid h.valid⟩

/-- **Turns keep order.** -/
theorem Orderly.turn {B : Option FnId → StmtId → Prop} (h : c.Orderly p B) (hp : p.WellFormed)
    (hB : p.Regions B) (hturn : c.turn p s = some c') : c'.Orderly p B := by
  have hbecomes : c.Becomes p c' := Becomes.refl.turn hturn
  obtain ⟨hframes, -⟩ := turn_cases hturn
  refine ⟨h.mirrors.becomes hp hB hbecomes, ?_, hbecomes.valid h.heap⟩
  rw [hframes]
  exact (Frame.kept_focused p).step h.focused _ _

theorem Orderly.after {B : Option FnId → StmtId → Prop} (h : c.Orderly p B) (hp : p.WellFormed)
    (hB : p.Regions B) {schedule : Nat → Conditions} {n : Nat}
    (hafter : c.after p schedule n = some c') : c'.Orderly p B := by
  induction n generalizing c' with
  | zero =>
    cases hafter
    exact h
  | succ n ih =>
    obtain ⟨b, hb, hturn⟩ := Option.bind_eq_some_iff.1 hafter
    exact (ih hb).turn hp hB hturn

/-! ### Steps that are known -/

/-- When the trace can be written, a step does what the unit of work demands. -/
theorem step_of_works {f : Frame} {callers : List Frame} {w : Work}
    (hframes : c.frames = f :: callers) (hw : f.Works p w) (hs : s.TakesTrace) :
    ∃ sink, c.step p s.traceLevel s.sink = c.meet p f.cursor callers w sink := by
  obtain ⟨node, hnode, rfl⟩ := hw
  unfold step
  simp only [hframes, hnode]
  split
  · exact ⟨_, rfl⟩
  · rename_i hlevel
    rcases hs with hs | hs
    · exact absurd hs hlevel
    · have hwrite := hs (traceLine s.traceLevel node.kind f.cursor node.stage f.operands.length)
      split
      · exact ⟨_, rfl⟩
      · rename_i hfail
        rw [hfail] at hwrite
        cases hwrite

/-- A turn, given what meeting the demand of the work comes to. -/
theorem turn_of_works {f : Frame} {callers frames : List Frame} {w : Work}
    (hframes : c.frames = f :: callers) (hw : f.Works p w) (hs : s.TakesTrace)
    (hmeet : ∀ sink, ∃ progress, c.meet p f.cursor callers w sink =
      ⟨{ c with frames := frames }, sink, .ok progress⟩) :
    ∃ c', c.turn p s = some c' ∧ c'.frames = frames := by
  obtain ⟨sink, hstep⟩ := step_of_works hframes hw hs
  obtain ⟨progress, hmeet⟩ := hmeet sink
  obtain ⟨c', hturn⟩ : ∃ c', c.turn p s = some c' := turn_of_ok (by rw [hstep, hmeet])
  refine ⟨c', hturn, ?_⟩
  rw [(turn_cases hturn).1, hstep, hmeet]

end Context

end TreeMachine
