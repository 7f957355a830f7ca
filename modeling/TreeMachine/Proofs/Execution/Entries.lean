import TreeMachine.Proofs.Execution.Steps

/-!
# What a call comes to

A call takes a callee and its arguments from the operands, and then it is refused, is answered at
once, or enters the function that the callee stands for (`Context.invoke_ends`). An answer refers to
nothing, or it is a range that has just been made. With this a step is known in full
(`Context.step_ends`): nothing is assumed about the context.

`Context.CallEnds` and `Context.StepEnds` are inversion principles with a case for each outcome.
They say more than the cases that are enough for invariants of single activations
(`Context.Stepped`): which function has been entered, with which arguments and in which scope
(`Program.StandsFor`), what the work before the call has taken, and what has become of the heap. A
failure for a complaint and one for a defect are one case, since neither changes anything but the
operands that were taken.

Nothing is said about the sink. What a step writes is the subject of the modules on observation.
-/

namespace TreeMachine

/-- A function that a value stands for when it is called in a scope. -/
inductive Program.StandsFor (p : Program) (scope : ScopeId) : Value → FnId → Prop
  | function (id : FnId) : StandsFor p scope (.function id) id
  | selector {name : String} {id : FnId} (h : p.resolve scope name = .ok id) :
    StandsFor p scope (.selector name) id

/-- A unit of work of an activation that ends with a call: the callee, the arguments in order, and
the operands below them. -/
structure Frame.Calls (p : Program) (f : Frame) (w : Work) (callee : Value)
    (args rest : List Value) : Prop where
  works : f.Works p w
  demand : w.2 = .ok (.call (args.length + 1))
  operands : w.1.operands = args.reverse ++ callee :: rest

namespace Context

variable {p : Program} {c c' : Context} {f : Frame} {callers : List Frame} {scope : ScopeId}
  {callee : Value} {args : List Value}

/-! ### Calls -/

/-- What a call makes of a context. -/
inductive CallEnds (p : Program) (scope : ScopeId) (callee : Value) (args : List Value)
    (c : Context) : Context → Prop
  | refused : CallEnds p scope callee args c c
  | answered {v : Value} (hv : v.Plain) : CallEnds p scope callee args c (c.push v)
  | made (lo hi : Int64) : CallEnds p scope callee args c
      (push { c with heap := (c.heap.alloc (Iterable.rangeObject lo hi)).1 }
        (.object (c.heap.alloc (Iterable.rangeObject lo hi)).2))
  | entered {id : FnId} {fn : Function} {first : Option StmtId} {inner : ScopeId}
      (hcallee : p.StandsFor scope callee id) (hfn : p.function? id = some fn)
      (hbody : fn.body = .code first) (hargs : args.length = fn.params.length)
      (hinner : p.scopeOf? first fn.scope = some inner) :
      CallEnds p scope callee args c (c.activate id first inner fn.params args)

theorem enter_ends {id : FnId} (hcallee : p.StandsFor scope callee id) (place : Place)
    (args : List Value) (c : Context) (sink : Sink) :
    CallEnds p scope callee args c (c.enter p place id args sink).context := by
  unfold Context.enter
  split
  · exact .refused
  · rename_i fn hfn
    split
    · exact .refused
    · rename_i harity
      split
      · rename_i q _
        rcases q.apply_cases args c.heap sink with ⟨sink', r, happly, hplain⟩ | ⟨lo, hi, happly⟩
        · simp only [happly]
          cases r with
          | error e => exact .refused
          | ok v => exact .answered (hplain v rfl)
        · simp only [happly]
          exact .made lo hi
      · rename_i first hbody
        have hlength : args.length = fn.params.length := by
          rw [Function.arity, hbody] at harity
          exact Decidable.not_not.1 harity
        split
        · exact .refused
        · rename_i inner hinner
          exact .entered hcallee hfn hbody hlength hinner

theorem apply_ends (hp : p.iterables = [(Iterable.rangeType, Iterable.range)]) (place : Place)
    (scope : ScopeId) (callee : Value) (args : List Value) (c : Context) (sink : Sink) :
    CallEnds p scope callee args c (c.apply p place scope callee args sink).context := by
  unfold Context.apply
  split
  · rename_i id
    exact enter_ends (.function id) place args c sink
  · rename_i name
    split
    · rename_i v hanswer
      rcases Program.answer?_cases hp hanswer with ⟨v', hv', hplain⟩ | ⟨_, hv'⟩ | ⟨_, -, -, hv'⟩
      · cases hv'
        exact .answered hplain
      · cases hv'
      · cases hv'
    · exact .refused
    · split
      · rename_i id hid
        exact enter_ends (.selector hid) place args c sink
      · exact .refused
  · exact .refused
  · exact .refused

/-- **A call** is refused at once, or takes the callee and its arguments. -/
theorem invoke_ends (hp : p.iterables = [(Iterable.rangeType, Iterable.range)])
    (hframes : c.frames = f :: callers) (n : Nat) (sink : Sink) :
    (c.invoke p n sink).context = c ∨ ∃ callee args rest scope,
      n = args.length + 1 ∧ f.operands = args.reverse ++ callee :: rest ∧
        p.scopeOf? f.stmt f.scope = some scope ∧
          CallEnds p scope callee args (c.withTop { f with operands := rest } callers)
            (c.invoke p n sink).context := by
  unfold Context.invoke
  simp only [hframes]
  cases n with
  | zero => exact .inl rfl
  | succ argCount =>
    dsimp only
    split
    · exact .inl rfl
    · rename_i callee rest hdrop
      split
      · exact .inl rfl
      · rename_i scope hscope
        have hlt : argCount < f.operands.length := by
          have hlength := congrArg List.length hdrop
          rw [List.length_drop, List.length_cons] at hlength
          omega
        refine .inr ⟨callee, (f.operands.take argCount).reverse, rest, scope, ?_, ?_, hscope,
          apply_ends hp _ scope callee _ _ sink⟩
        · rw [List.length_reverse, List.length_take, Nat.min_eq_left (Nat.le_of_lt hlt)]
        · rw [List.reverse_reverse, ← hdrop, List.take_append_drop]

/-! ### Steps -/

/-- What a step makes of a context with the given activations. -/
inductive StepEnds (p : Program) (c : Context) (f : Frame) (callers : List Frame) : Context → Prop
  | stuck : StepEnds p c f callers c
  | exhausted (hf : f.pending? p = none) : StepEnds p c f callers (c.detach .empty)
  | worked {w : Work} (hw : f.Works p w) (hleave : ∀ v, w.2 ≠ .ok (.leave v)) :
      StepEnds p c f callers (c.withTop (w.settled p) callers)
  | left {w : Work} {v : Value} (hw : f.Works p w) (hleave : w.2 = .ok (.leave v)) :
      StepEnds p c f callers ((c.withTop w.1 callers).detach v)
  | called {w : Work} {callee : Value} {args rest : List Value} {scope : ScopeId} {c' : Context}
      (hcalls : f.Calls p w callee args rest) (hscope : p.scopeOf? w.1.stmt w.1.scope = some scope)
      (hends : CallEnds p scope callee args (c.withTop { w.1 with operands := rest } callers) c') :
      StepEnds p c f callers c'

/-- A step whose work ends with a call makes the call, unless the trace cannot be written. -/
theorem step_of_call (hframes : c.frames = f :: callers) {w : Work} (hw : f.Works p w) {n : Nat}
    (hcall : w.2 = .ok (.call n)) (traceLevel : Nat) (sink : Sink) :
    (c.step p traceLevel sink).context = c ∨ ∃ sink',
      (c.step p traceLevel sink).context = ((c.withTop w.1 callers).invoke p n sink').context := by
  obtain ⟨⟨kind, stage, g, r⟩, hnode, rfl⟩ := hw
  have hr : r = .ok (.call n) := hcall
  subst hr
  unfold Context.step
  simp only [hframes, hnode]
  split
  · exact .inr ⟨sink, rfl⟩
  · split
    · rename_i sink' _
      exact .inr ⟨sink', rfl⟩
    · exact .inl rfl

/-- **A step**, whether it succeeds or not, comes to one of the cases. -/
theorem step_ends (hp : p.iterables = [(Iterable.rangeType, Iterable.range)])
    (hframes : c.frames = f :: callers) (traceLevel : Nat) (sink : Sink) :
    StepEnds p c f callers (c.step p traceLevel sink).context := by
  have hstepped := step_stepped hframes p traceLevel sink
  generalize hc' : (c.step p traceLevel sink).context = c' at hstepped
  cases hstepped with
  | stuck => exact .stuck
  | exhausted hf => exact .exhausted hf
  | worked hw hleave _ => exact .worked hw hleave
  | left hw hleave => exact .left hw hleave
  | @called w n _ _ hw hcall _ _ =>
    have hleave : ∀ v, w.2 ≠ .ok (.leave v) := by
      rw [hcall]
      exact nofun
    have hsettled : w.settled p = w.1 := Frame.settled_of_ne (by rw [hcall]; exact nofun)
    rcases step_of_call hframes hw hcall traceLevel sink with hstuck | ⟨sink', hinvoke⟩
    · rw [← hc', hstuck]
      exact .stuck
    · rw [← hc', hinvoke]
      rcases invoke_ends (c := c.withTop w.1 callers) hp rfl n sink' with
        hrefused | ⟨callee, args, rest, scope, rfl, hoperands, hscope, hends⟩
      · rw [hrefused, ← hsettled]
        exact .worked hw hleave
      · exact .called ⟨hw, hcall, hoperands⟩ hscope hends

end Context

end TreeMachine
