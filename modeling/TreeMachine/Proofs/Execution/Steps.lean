import TreeMachine.Proofs.Execution.Calls
import TreeMachine.Proofs.Execution.Frame
import TreeMachine.Proofs.Primitive.Results

/-!
# What a step does to a context

A step leaves everything as it is because it fails, leaves an activation that has nothing left to
do, or does one unit of work and meets its demand. `Context.Stepped` lists the cases with what they
do to the activations and to the heap, and `Context.step_stepped` says that there are no others. A
property of activations is kept by every step if work keeps it and if activations begin with it
(`Context.Kept.step`).

`Context.Kept` is the form in which most invariants of activations are proved. Its fields ask what
the property has to do with work, with an operand that is pushed, and with an activation that
starts; what a step does with callers, with results and with the innermost activation is settled
here. The invariants that relate several activations to each other, or activations to the heap, do
not have this form and go by the cases of a step.

The heap is touched by one primitive only, which allocates. So a step leaves the heap as it is or
adds one object to it (`Context.step_heap`).
-/

namespace TreeMachine

/-- The activation after a unit of work, moved past its statement when that is finished. -/
def Work.settled (p : Program) (w : Work) : Frame :=
  match w.2, w.1.advance p with
  | .ok .complete, .ok g => g
  | _, _ => w.1

namespace Frame

variable {p : Program} {f g : Frame}

theorem settled_of_ne {w : Work} (h : w.2 ≠ .ok .complete) : w.settled p = w.1 := by
  unfold Work.settled
  split
  · exact absurd ‹_› h
  · rfl

theorem moveOn_keeps {i : StmtId} {waiting : List StmtId} {resumes : List Nat}
    (h : f.moveOn p i waiting resumes = .ok g) :
    ∃ stmt stage waiting' resumes', g =
      { f with stmt := stmt, stage := stage, waiting := waiting', resumes := resumes' } := by
  fun_induction Frame.moveOn p f i waiting resumes with
  | case1 => cases h
  | case2 => cases h; exact ⟨_, _, _, _, rfl⟩
  | case3 => cases h; exact ⟨_, _, _, _, rfl⟩
  | case4 => cases h; exact ⟨_, _, _, _, rfl⟩
  | case5 _ _ _ _ _ _ _ ih => exact ih h
  | case6 => cases h; exact ⟨_, _, _, _, rfl⟩

/-- Moving past a statement leaves all but the place and the operands alone. -/
theorem advance_keeps (h : f.advance p = .ok g) :
    ∃ stmt stage waiting resumes, g =
      { f with
        stmt := stmt, stage := stage, waiting := waiting, resumes := resumes, operands := [] } := by
  rw [advance_eq] at h
  split at h
  · obtain ⟨stmt, stage, waiting, resumes, rfl⟩ := moveOn_keeps h
    exact ⟨stmt, stage, waiting, resumes, rfl⟩
  · cases h
    exact ⟨_, _, _, _, rfl⟩

end Frame

namespace Context

variable {p : Program} {c c' : Context} {f : Frame} {callers : List Frame}

/-! ### The heap -/

/-- A heap is the same, or has a new object. -/
def Grown (heap heap' : Heap) : Prop :=
  heap' = heap ∨ ∃ o, heap' = (heap.alloc o).1

theorem push_heap (c : Context) (v : Value) : (c.push v).heap = c.heap := by
  unfold push
  split <;> rfl

theorem detach_heap (c : Context) (v : Value) : (c.detach v).heap = c.heap := by
  unfold detach
  split <;> rfl

theorem enter_heap (place : Place) (id : FnId) (args : List Value) (c : Context) (sink : Sink) :
    Grown c.heap (c.enter p place id args sink).context.heap := by
  unfold enter
  split
  · exact .inl rfl
  · split
    · exact .inl rfl
    · split
      · rename_i q _
        have hgrown : Grown c.heap (q.apply args c.heap sink).heap := by
          rcases q.apply_cases args c.heap sink with ⟨_, _, happly, -⟩ | ⟨_, _, happly⟩
          · rw [happly]
            exact .inl rfl
          · rw [happly]
            exact .inr ⟨_, rfl⟩
        dsimp only
        split
        · rw [push_heap]
          exact hgrown
        · exact hgrown
      · split
        · exact .inl rfl
        · exact .inl rfl

theorem apply_heap (place : Place) (scope : ScopeId) (callee : Value) (args : List Value)
    (c : Context) (sink : Sink) :
    Grown c.heap (c.apply p place scope callee args sink).context.heap := by
  unfold apply
  split
  · exact enter_heap place _ args c sink
  · split
    · exact .inl (push_heap c _)
    · exact .inl rfl
    · split
      · exact enter_heap place _ args c sink
      · exact .inl rfl
  · exact .inl rfl
  · exact .inl rfl

/-- A call makes at most one object. -/
theorem invoke_heap (n : Nat) (c : Context) (sink : Sink) :
    Grown c.heap (c.invoke p n sink).context.heap := by
  unfold invoke
  split
  · exact .inl rfl
  · split
    · exact .inl rfl
    · split
      · exact .inl rfl
      · split
        · exact .inl rfl
        · exact apply_heap _ _ _ _ _ sink

/-! ### Cases of a step -/

/-- What a step makes of a context with the given activations. -/
inductive Stepped (p : Program) (c : Context) (f : Frame) (callers : List Frame) : Context → Prop
  | stuck : Stepped p c f callers c
  | exhausted (hf : f.pending? p = none) : Stepped p c f callers (c.detach .empty)
  | worked {w : Work} (hw : f.Works p w) (hleave : ∀ v, w.2 ≠ .ok (.leave v))
      (hcall : ∀ n, w.2 ≠ .ok (.call n)) :
      Stepped p c f callers (c.withTop (w.settled p) callers)
  | left {w : Work} {v : Value} (hw : f.Works p w) (hleave : w.2 = .ok (.leave v)) :
      Stepped p c f callers ((c.withTop w.1 callers).detach v)
  | called {w : Work} {n : Nat} {operands : List Value} {c' : Context} (hw : f.Works p w)
      (hcall : w.2 = .ok (.call n))
      (hcalled : Called p (c.withTop { w.1 with operands := operands } callers) c')
      (hheap : Grown c.heap c'.heap) : Stepped p c f callers c'

theorem meet_stepped {w : Work} (hw : f.Works p w) (place : Place) (c : Context) (sink : Sink) :
    Stepped p c f callers (c.meet p place callers w sink).context := by
  obtain ⟨g, r⟩ := w
  cases r with
  | error e => exact .worked hw nofun nofun
  | ok d =>
    cases d with
    | pending => exact .worked hw nofun nofun
    | jumped => exact .worked hw nofun nofun
    | complete =>
      have hworked : Stepped p c f callers
          (c.withTop (Work.settled p (g, .ok .complete)) callers) :=
        .worked hw nofun nofun
      unfold meet
      dsimp only
      cases hadvance : g.advance p with
      | ok g' =>
        rw [Work.settled] at hworked
        simp only [hadvance] at hworked
        exact hworked
      | error d =>
        rw [Work.settled] at hworked
        simp only [hadvance] at hworked
        exact hworked
    | leave v => exact .left hw rfl
    | call n =>
      obtain ⟨operands, hcalled⟩ := invoke_called (c := c.withTop g callers) rfl n sink
      exact .called hw rfl hcalled (invoke_heap n (c.withTop g callers) sink)

/-- **A step**, whether it succeeds or not, comes to one of the cases. -/
theorem step_stepped (hframes : c.frames = f :: callers) (p : Program) (traceLevel : Nat)
    (sink : Sink) : Stepped p c f callers (c.step p traceLevel sink).context := by
  unfold step
  simp only [hframes]
  cases hpending : f.pending? p with
  | none => exact .exhausted hpending
  | some r =>
    cases r with
    | error d => exact .stuck
    | ok node =>
      have hmeet : ∀ sink,
          Stepped p c f callers (c.meet p f.cursor callers node.work sink).context :=
        meet_stepped ⟨node, hpending, rfl⟩ f.cursor c
      dsimp only
      split
      · exact hmeet sink
      · split
        · exact hmeet _
        · exact .stuck

theorem Stepped.heap (h : Stepped p c f callers c') : Grown c.heap c'.heap := by
  cases h with
  | stuck => exact .inl rfl
  | exhausted => exact .inl (detach_heap c .empty)
  | worked => exact .inl rfl
  | left => exact .inl (detach_heap _ _)
  | called _ _ _ hheap => exact hheap

/-- A step without activations does nothing. -/
theorem step_of_nil (h : c.frames = []) (p : Program) (traceLevel : Nat) (sink : Sink) :
    c.step p traceLevel sink = ⟨c, sink, .ok .done⟩ := by
  unfold step
  rw [h]

/-- A step makes at most one object. -/
theorem step_heap (p : Program) (traceLevel : Nat) (c : Context) (sink : Sink) :
    Grown c.heap (c.step p traceLevel sink).context.heap := by
  cases hframes : c.frames with
  | nil =>
    rw [step_of_nil hframes]
    exact .inl rfl
  | cons f callers => exact (step_stepped hframes p traceLevel sink).heap

/-! ### Properties of activations -/

/-- A property that activations begin with and that work keeps, whatever the operands are. -/
structure Kept (p : Program) (P : Frame → Prop) : Prop where
  operands : ∀ f operands, P f → P { f with operands := operands }
  work : ∀ f w, P f → f.Works p w → P (w.settled p)
  start : ∀ scope, P (.start none scope)
  begin : ∀ f id fn first scope params args, P f → f.isExhausted = true →
    p.function? id = some fn → fn.body = .code first → P (f.begin id first scope params args)

namespace Kept

variable {P : Frame → Prop}

theorem push (hP : Kept p P) (h : ∀ g ∈ c.frames, P g) (v : Value) :
    ∀ g ∈ (c.push v).frames, P g := by
  unfold Context.push
  split
  · rename_i f callers hframes
    rw [hframes] at h
    obtain ⟨hf, hcallers⟩ := List.forall_mem_cons.1 h
    exact List.forall_mem_cons.2 ⟨hP.operands _ _ hf, hcallers⟩
  · exact h

theorem detach (hP : Kept p P) (h : ∀ g ∈ c.frames, P g) (v : Value) :
    ∀ g ∈ (c.detach v).frames, P g := by
  unfold Context.detach
  split
  · rename_i g caller rest hframes
    rw [hframes] at h
    obtain ⟨-, h⟩ := List.forall_mem_cons.1 h
    obtain ⟨hcaller, hrest⟩ := List.forall_mem_cons.1 h
    exact List.forall_mem_cons.2 ⟨hP.operands _ _ hcaller, hrest⟩
  · exact nofun

/-- A function is entered in a new activation, or in one that has nothing to do. -/
theorem called (hP : Kept p P) (h : ∀ g ∈ c.frames, P g) (hcalled : Called p c c') :
    ∀ g ∈ c'.frames, P g := by
  cases hcalled with
  | same hframes => rwa [hframes]
  | answered v hframes =>
    rw [hframes]
    exact hP.push h v
  | @entered id fn first scope args hfn hbody =>
    have hnew := hP.begin _ id fn first scope fn.params args (hP.start scope) rfl hfn hbody
    unfold Context.activate
    cases hframes : c.frames with
    | nil =>
      exact List.forall_mem_cons.2
        ⟨hP.begin _ id fn first _ _ args (hP.start _) rfl hfn hbody, List.forall_mem_nil _⟩
    | cons f callers =>
      rw [hframes] at h
      obtain ⟨hf, hcallers⟩ := List.forall_mem_cons.1 h
      by_cases hexhausted : f.isExhausted
      · simp only [hexhausted, if_true]
        exact List.forall_mem_cons.2
          ⟨hP.begin f id fn first _ _ args hf hexhausted hfn hbody, hcallers⟩
      · simp only [hexhausted]
        exact List.forall_mem_cons.2
          ⟨hP.begin _ id fn first _ _ args (hP.start _) rfl hfn hbody, h⟩

/-- A call, whether it succeeds or not. -/
theorem invoke (hP : Kept p P) (h : ∀ g ∈ c.frames, P g) (n : Nat) (sink : Sink) :
    ∀ g ∈ (c.invoke p n sink).context.frames, P g := by
  cases hframes : c.frames with
  | nil =>
    unfold Context.invoke
    simp only [hframes]
    exact nofun
  | cons f callers =>
    obtain ⟨operands, hcalled⟩ := invoke_called (p := p) hframes n sink
    obtain ⟨hf, hcallers⟩ := List.forall_mem_cons.1 (hframes ▸ h)
    refine hP.called ?_ hcalled
    exact List.forall_mem_cons.2 ⟨hP.operands f operands hf, hcallers⟩

/-- **A step keeps the property**, whether it succeeds or not. -/
theorem step (hP : Kept p P) (h : ∀ g ∈ c.frames, P g) (traceLevel : Nat) (sink : Sink) :
    ∀ g ∈ (c.step p traceLevel sink).context.frames, P g := by
  cases hframes : c.frames with
  | nil =>
    rw [step_of_nil hframes]
    exact h
  | cons f callers =>
    obtain ⟨hf, hcallers⟩ := List.forall_mem_cons.1 (hframes ▸ h)
    have hstepped := step_stepped hframes p traceLevel sink
    generalize (c.step p traceLevel sink).context = c' at hstepped ⊢
    cases hstepped with
    | stuck => exact h
    | exhausted => exact hP.detach h .empty
    | worked hw _ _ => exact List.forall_mem_cons.2 ⟨hP.work f _ hf hw, hcallers⟩
    | @left w v hw hleave =>
      have hw' := hP.work f _ hf hw
      rw [Frame.settled_of_ne (by rw [hleave]; exact nofun)] at hw'
      exact hP.detach (List.forall_mem_cons.2 ⟨hw', hcallers⟩) v
    | @called w n operands c' hw hcall hcalled _ =>
      have hw' := hP.work f _ hf hw
      rw [Frame.settled_of_ne (by rw [hcall]; exact nofun)] at hw'
      refine hP.called ?_ hcalled
      exact List.forall_mem_cons.2 ⟨hP.operands _ operands hw', hcallers⟩

end Kept

end Context

end TreeMachine
