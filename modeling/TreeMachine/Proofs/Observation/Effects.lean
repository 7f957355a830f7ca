import TreeMachine.Execution.Step

/-!
# Output and other writes

What the program writes is told apart in a sink from the lines of the trace and from the debugger's
side of a dialogue. A sink is the plain one of another if it holds what the program has written
there, and nothing else (`Sink.PlainOf`). No effect looks at a sink that is not limited, so a step
has the same effect with a plain sink and without a trace, and leaves plain what was plain
(`Context.step_plain`).

Everything that is written goes to one channel, in one order, and each chunk has its origin. The
origin is not a part of what a reader of the channel sees; it is kept in the sink so that such
statements can be made, and the program cannot ask for it.

Both sinks have to be without a limit. A limited one may fail in the middle of a line of the trace,
and the program with the plain sink would go on. What the limit counts is bytes, so it makes a
difference who has written them. Steps are compared one by one, with the same context on both sides;
no induction is needed here, since what a step does to the sink is done in a single place for each
primitive and for the trace.
-/

namespace TreeMachine

/-! ### Sinks -/

namespace Sink

/-- What the program has written, latest first. -/
def output (s : Sink) : List Chunk :=
  s.chunks.filter fun chunk => chunk.origin = .program

/-- A sink holds what the program has written to another one, and nothing else. Neither is limited.
-/
structure PlainOf (s s' : Sink) : Prop where
  unlimited : s.limit = none
  unlimited' : s'.limit = none
  chunks : s.chunks = s'.output

variable {s s' : Sink}

theorem write_of_unlimited (h : s.limit = none) (origin : Origin) (text : String) :
    s.write origin text = (s.append origin text.toUTF8, .ok ()) := by
  rw [write, h]

/-- The program writes to both. -/
theorem PlainOf.both (h : s.PlainOf s') (bytes : ByteArray) :
    (s.append .program bytes).PlainOf (s'.append .program bytes) := by
  refine ⟨h.unlimited, h.unlimited', ?_⟩
  have hchunks : (s'.append .program bytes).output = ⟨.program, bytes⟩ :: s'.output := by
    simp [output, append]
  rw [hchunks, ← h.chunks]
  rfl

/-- What others write does not matter. -/
theorem PlainOf.other (h : s.PlainOf s') {origin : Origin} (horigin : origin ≠ .program)
    (bytes : ByteArray) : s.PlainOf (s'.append origin bytes) := by
  refine ⟨h.unlimited, h.unlimited', ?_⟩
  have hchunks : (s'.append origin bytes).output = s'.output := by
    simp [output, append, horigin]
  rw [hchunks, h.chunks]

end Sink

/-! ### Primitives -/

/-- Two results of a primitive that differ in what others have written. -/
structure PrimitiveResult.PlainOf (r r' : PrimitiveResult) : Prop where
  heap : r.heap = r'.heap
  result : r.result = r'.result
  sink : r.sink.PlainOf r'.sink

namespace Primitive

variable {s s' : Sink}

theorem printValue_plain (h : s.PlainOf s') (v : Value) (heap : Heap) :
    (printValue v heap s).PlainOf (printValue v heap s') := by
  unfold printValue
  cases v.read with
  | error e => exact ⟨rfl, rfl, h⟩
  | ok v =>
    dsimp only
    rw [Sink.write_of_unlimited h.unlimited, Sink.write_of_unlimited h.unlimited']
    exact ⟨rfl, rfl, h.both _⟩

theorem makeRange_plain (h : s.PlainOf s') (lo hi : Value) (heap : Heap) :
    (makeRange lo hi heap s).PlainOf (makeRange lo hi heap s') := by
  unfold makeRange
  split
  · exact ⟨rfl, rfl, h⟩
  · exact ⟨rfl, rfl, h⟩

theorem apply_plain (h : s.PlainOf s') (q : Primitive) (args : List Value) (heap : Heap) :
    (q.apply args heap s).PlainOf (q.apply args heap s') := by
  unfold apply
  split
  · exact printValue_plain h _ heap
  · exact makeRange_plain h _ _ heap
  · exact ⟨rfl, rfl, h⟩
  · split
    · exact ⟨rfl, rfl, h⟩
    · exact ⟨rfl, rfl, h⟩

end Primitive

/-! ### Effects -/

/-- Two effects that differ in what others have written. -/
structure Effect.PlainOf {α : Type} (e e' : Effect α) : Prop where
  context : e.context = e'.context
  result : e.result = e'.result
  sink : e.sink.PlainOf e'.sink

namespace Context

variable {p : Program} {s s' : Sink}

theorem enter_plain (h : s.PlainOf s') (place : Place) (id : FnId) (args : List Value)
    (c : Context) : (c.enter p place id args s).PlainOf (c.enter p place id args s') := by
  unfold Context.enter
  split
  · exact ⟨rfl, rfl, h⟩
  · split
    · exact ⟨rfl, rfl, h⟩
    · split
      · rename_i q _
        -- A primitive is the only part of a call that writes.
        obtain ⟨hheap, hresult, hsink⟩ := Primitive.apply_plain h q args c.heap
        dsimp only
        rw [hheap, hresult]
        split
        · exact ⟨rfl, rfl, hsink⟩
        · exact ⟨rfl, rfl, hsink⟩
      · split
        · exact ⟨rfl, rfl, h⟩
        · exact ⟨rfl, rfl, h⟩

theorem apply_plain (h : s.PlainOf s') (place : Place) (scope : ScopeId) (callee : Value)
    (args : List Value) (c : Context) :
    (c.apply p place scope callee args s).PlainOf (c.apply p place scope callee args s') := by
  unfold Context.apply
  split
  · exact enter_plain h place _ args c
  · split
    · exact ⟨rfl, rfl, h⟩
    · exact ⟨rfl, rfl, h⟩
    · split
      · exact enter_plain h place _ args c
      · exact ⟨rfl, rfl, h⟩
  · exact ⟨rfl, rfl, h⟩
  · exact ⟨rfl, rfl, h⟩

theorem invoke_plain (h : s.PlainOf s') (operands : Nat) (c : Context) :
    (c.invoke p operands s).PlainOf (c.invoke p operands s') := by
  unfold Context.invoke
  split
  · exact ⟨rfl, rfl, h⟩
  · split
    · exact ⟨rfl, rfl, h⟩
    · split
      · exact ⟨rfl, rfl, h⟩
      · split
        · exact ⟨rfl, rfl, h⟩
        · exact apply_plain h _ _ _ _ _

theorem meet_plain (h : s.PlainOf s') (place : Place) (callers : List Frame) (work : Work)
    (c : Context) : (c.meet p place callers work s).PlainOf (c.meet p place callers work s') := by
  obtain ⟨f, r⟩ := work
  cases r with
  | error e => exact ⟨rfl, rfl, h⟩
  | ok d =>
    cases d with
    | call n =>
      obtain ⟨hcontext, hresult, hsink⟩ :=
        invoke_plain (p := p) h n { c with frames := f :: callers }
      refine ⟨hcontext, ?_, hsink⟩
      simp only [Context.meet, hcontext, hresult]
    | complete =>
      simp only [Context.meet]
      split
      · exact ⟨rfl, rfl, h⟩
      · exact ⟨rfl, rfl, h⟩
    | _ => exact ⟨rfl, rfl, h⟩

/-- **A step** has the same effect with a plain sink and without a trace. -/
theorem step_plain (h : s.PlainOf s') (traceLevel : Nat) (c : Context) :
    (c.step p 0 s).PlainOf (c.step p traceLevel s') := by
  unfold Context.step
  split
  · exact ⟨rfl, rfl, h⟩
  · split
    · exact ⟨rfl, rfl, h⟩
    · exact ⟨rfl, rfl, h⟩
    · rw [if_pos rfl]
      split
      · exact meet_plain h _ _ _ c
      · -- The line of the trace is written first, which does not matter to the plain sink.
        dsimp only
        rw [Sink.write_of_unlimited h.unlimited']
        exact meet_plain (h.other (by decide) _) _ _ _ c

end Context

end TreeMachine
