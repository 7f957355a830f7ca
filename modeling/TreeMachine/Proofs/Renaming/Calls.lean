import TreeMachine.Execution.Call
import TreeMachine.Proofs.Heap.Marking
import TreeMachine.Proofs.Primitive.Results
import TreeMachine.Proofs.Renaming.Values

/-!
# Calls in renamed contexts

Two contexts are the same up to a renaming when their activations are and when the handles that are
related have the same object in the two heaps (`Context.Renamed`). Primitives, answers to messages
and calls do the same in both. Only an allocation changes the renaming: the two new handles become
related.

The objects of this machine are ranges, which hold integers and no handles. So related handles have
equal objects and not merely renamed ones, and the renaming need not be followed into the heap. This
is a field of the relation, and it is kept because the one primitive that allocates makes a range.

An allocation takes the latest free entry in each of the heaps, and these may be different ones, or
a free entry on one side and a new one on the other. That the new handle is related to nothing else
so far follows from its being fresh, for which both heaps have to be valid
(`Context.Renamed.alloc`). The relation is therefore existential in what calls leave behind
(`Effect.Renamed`), whereas sinks and results are equal. Results of steps are not values, so nothing
remains to be renamed in them.
-/

namespace TreeMachine

/-- Two contexts are the same up to a one-to-one renaming of handles. The related handles have the
same objects, which hold no handles themselves. -/
structure Context.Renamed (ρ : Renaming) (c c' : Context) : Prop where
  oneToOne : ρ.OneToOne
  frames : List.Forall₂ (Frame.Renamed ρ) c.frames c'.frames
  objects : ∀ {h k : Handle}, ρ h k →
    ∃ o, o.handles = [] ∧ c.heap.get? h = some o ∧ c'.heap.get? k = some o
  valid_left : c.heap.Valid
  valid_right : c'.heap.Valid
  steps : c'.steps = c.steps

/-! ### Primitives -/

namespace Primitive

variable {ρ : Renaming} {a a' b b' : Value}

/-- A primitive computes the same from renamed values. -/
theorem compute_renamed (hρ : ρ.OneToOne) (q : Primitive) (ha : a.Renamed ρ a')
    (hb : b.Renamed ρ b') : compute q a' b' = compute q a b := by
  cases q with
  | add => exact sum_renamed ha hb
  | sub => exact operation_renamed _ ha hb
  | mul => exact operation_renamed _ ha hb
  | div => exact operation_renamed _ ha hb
  | rem => exact operation_renamed _ ha hb
  | lt => exact congrArg (Except.map Value.bool) (comparison_renamed _ ha hb)
  | le => exact congrArg (Except.map Value.bool) (comparison_renamed _ ha hb)
  | gt => exact congrArg (Except.map Value.bool) (comparison_renamed _ ha hb)
  | ge => exact congrArg (Except.map Value.bool) (comparison_renamed _ ha hb)
  | eq => exact congrArg (Except.map Value.bool) (equal_renamed hρ ha hb)
  | ne => exact congrArg (Except.map fun same => Value.bool !same) (equal_renamed hρ ha hb)
  | not => exact congrArg (Except.map fun b => Value.bool !b) ha.asBool
  | print => rfl
  | range => rfl

/-- What two calls of a primitive with renamed values leave behind: the heaps as they were and the
same result, which is no object, or heaps with the same new object, which is the result. -/
inductive ResultRenamed (heap heap' : Heap) : PrimitiveResult → PrimitiveResult → Prop
  | same {sink : Sink} {r : Except Complaint Value} (hr : ∀ v, r = .ok v → v.asObject? = none) :
    ResultRenamed heap heap' ⟨heap, sink, r⟩ ⟨heap', sink, r⟩
  | alloc {sink : Sink} (o : Object) (ho : o.handles = []) :
    ResultRenamed heap heap' ⟨(heap.alloc o).1, sink, .ok (.object (heap.alloc o).2)⟩
      ⟨(heap'.alloc o).1, sink, .ok (.object (heap'.alloc o).2)⟩

theorem render_renamed {heap heap' : Heap}
    (hobj : ∀ {h k : Handle}, ρ h k → ∃ o, heap.get? h = some o ∧ heap'.get? k = some o)
    (ha : a.Renamed ρ a') : heap'.render a' = heap.render a := by
  cases ha with
  | object h =>
    obtain ⟨o, ho, ho'⟩ := hobj h
    simp only [Heap.render, ho, ho']
  | same h =>
    cases a with
    | object k => cases h
    | _ => rfl

theorem printValue_renamed {heap heap' : Heap} (sink : Sink)
    (hobj : ∀ {h k : Handle}, ρ h k → ∃ o, heap.get? h = some o ∧ heap'.get? k = some o)
    (ha : a.Renamed ρ a') :
    ResultRenamed heap heap' (printValue a heap sink) (printValue a' heap' sink) := by
  rw [printValue, printValue]
  rcases ha.read with ⟨e, he, he'⟩ | ⟨hok, hok'⟩
  · rw [he, he']
    exact .same nofun
  · rw [hok, hok']
    dsimp only
    rw [render_renamed hobj ha]
    split
    · refine .same fun v hv => ?_
      cases hv
      rfl
    · exact .same nofun

theorem makeRange_renamed {heap heap' : Heap} (sink : Sink) (ha : a.Renamed ρ a')
    (hb : b.Renamed ρ b') :
    ResultRenamed heap heap' (makeRange a b heap sink) (makeRange a' b' heap' sink) := by
  rw [makeRange, makeRange, ha.asInt, hb.asInt]
  split
  · exact .same nofun
  · exact .alloc _ rfl

/-- **A primitive** does the same with renamed values. -/
theorem apply_renamed (hρ : ρ.OneToOne) {heap heap' : Heap}
    (hobj : ∀ {h k : Handle}, ρ h k → ∃ o, heap.get? h = some o ∧ heap'.get? k = some o)
    (q : Primitive) {args args' : List Value} (hargs : List.Forall₂ (Value.Renamed ρ) args args')
    (sink : Sink) :
    ResultRenamed heap heap' (q.apply args heap sink) (q.apply args' heap' sink) := by
  have hcompute : ∀ q {a a' b b' : Value}, a.Renamed ρ a' → b.Renamed ρ b' →
      ResultRenamed heap heap' ⟨heap, sink, compute q a b⟩ ⟨heap', sink, compute q a' b'⟩ := by
    intro q a a' b b' ha hb
    rw [compute_renamed hρ q ha hb]
    exact .same fun v hv => (plain_of_compute hv).asObject?
  cases hargs with
  | nil => cases q <;> exact .same nofun
  | cons ha hrest =>
    cases hrest with
    | nil =>
      cases q with
      | print => exact printValue_renamed sink hobj ha
      | not => exact hcompute .not ha ha
      | _ => exact .same nofun
    | cons hb hrest =>
      cases hrest with
      | nil =>
        cases q with
        | range => exact makeRange_renamed sink ha hb
        | print => exact .same nofun
        | not => exact .same nofun
        | _ => exact hcompute _ ha hb
      | cons hc hrest =>
        have hlong : ∀ (heap : Heap) (x y z : Value) (rest : List Value),
            q.apply (x :: y :: z :: rest) heap sink =
              ⟨heap, sink, .error (.arityMismatch q.name q.arity (rest.length + 3))⟩ := by
          intro heap x y z rest
          cases q <;> rfl
        rw [hlong, hlong, hrest.length_eq]
        exact .same nofun

end Primitive

/-! ### Contexts -/

namespace Context.Renamed

variable {ρ : Renaming} {c c' : Context}

/-- Both contexts are finished, or both have an innermost activation. -/
theorem frames_cases (h : c.Renamed ρ c') :
    c.frames = [] ∧ c'.frames = [] ∨ ∃ f fs f' fs', c.frames = f :: fs ∧ c'.frames = f' :: fs' ∧
      f.Renamed ρ f' ∧ List.Forall₂ (Frame.Renamed ρ) fs fs' := by
  have hfs := h.frames
  cases hc : c.frames with
  | nil =>
    rw [hc, List.forall₂_nil_left_iff] at hfs
    exact .inl ⟨rfl, hfs⟩
  | cons f fs =>
    rw [hc, List.forall₂_cons_left_iff] at hfs
    obtain ⟨f', fs', hf, hrest, hc'⟩ := hfs
    exact .inr ⟨f, fs, f', fs', rfl, hc', hf, hrest⟩

/-- The activations can be replaced by renamed ones. -/
theorem setFrames (h : c.Renamed ρ c') {fs fs' : List Frame}
    (hfs : List.Forall₂ (Frame.Renamed ρ) fs fs') :
    Context.Renamed ρ { c with frames := fs } { c' with frames := fs' } :=
  { h with frames := hfs }

theorem object (h : c.Renamed ρ c') {k k' : Handle} (hk : ρ k k') :
    ∃ o, c.heap.get? k = some o ∧ c'.heap.get? k' = some o := by
  obtain ⟨o, -, ho, ho'⟩ := h.objects hk
  exact ⟨o, ho, ho'⟩

/-- **An allocation** in both heaps relates the two new handles. -/
theorem alloc (h : c.Renamed ρ c') {o : Object} (ho : o.handles = []) :
    ∃ ρ' : Renaming, (∀ k k', ρ k k' → ρ' k k') ∧ ρ' (c.heap.alloc o).2 (c'.heap.alloc o).2 ∧
      Context.Renamed ρ' { c with heap := (c.heap.alloc o).1 }
        { c' with heap := (c'.heap.alloc o).1 } := by
  refine ⟨fun k k' => ρ k k' ∨ k = (c.heap.alloc o).2 ∧ k' = (c'.heap.alloc o).2,
    fun _ _ => .inl, .inr ⟨rfl, rfl⟩, ⟨?_, ?_⟩, ?_, ?_, h.valid_left.alloc o, h.valid_right.alloc o,
    h.steps⟩
  -- A handle that was related before had an object, so it is not the new one.
  · intro k k₁ k₂ h₁ h₂
    rcases h₁ with h₁ | ⟨rfl, rfl⟩
    · rcases h₂ with h₂ | ⟨rfl, rfl⟩
      · exact h.oneToOne.right h₁ h₂
      · obtain ⟨o', ho', -⟩ := h.object h₁
        exact absurd rfl (h.valid_left.ne_alloc ho' o)
    · rcases h₂ with h₂ | ⟨-, rfl⟩
      · obtain ⟨o', ho', -⟩ := h.object h₂
        exact absurd rfl (h.valid_left.ne_alloc ho' o)
      · rfl
  · intro k₁ k₂ k h₁ h₂
    rcases h₁ with h₁ | ⟨rfl, rfl⟩
    · rcases h₂ with h₂ | ⟨rfl, rfl⟩
      · exact h.oneToOne.left h₁ h₂
      · obtain ⟨o', -, ho'⟩ := h.object h₁
        exact absurd rfl (h.valid_right.ne_alloc ho' o)
    · rcases h₂ with h₂ | ⟨rfl, -⟩
      · obtain ⟨o', -, ho'⟩ := h.object h₂
        exact absurd rfl (h.valid_right.ne_alloc ho' o)
      · rfl
  · exact h.frames.imp fun f f' hf => hf.mono fun _ _ => .inl
  · intro k k' hk
    rcases hk with hk | ⟨rfl, rfl⟩
    · obtain ⟨o', hp, ho', ho''⟩ := h.objects hk
      exact ⟨o', hp, h.valid_left.get?_alloc ho' o, h.valid_right.get?_alloc ho'' o⟩
    · exact ⟨o, ho, h.valid_left.get?_alloc_self o, h.valid_right.get?_alloc_self o⟩

theorem push (h : c.Renamed ρ c') {v v' : Value} (hv : v.Renamed ρ v') :
    (c.push v).Renamed ρ (c'.push v') := by
  rw [Context.push, Context.push]
  rcases h.frames_cases with ⟨hc, hc'⟩ | ⟨f, fs, f', fs', hc, hc', hf, hrest⟩
  · rw [hc, hc']
    exact h
  · rw [hc, hc']
    exact h.setFrames (.cons (hf.push hv) hrest)

end Context.Renamed

namespace Frame.Renamed

variable {ρ : Renaming} {f f' : Frame}

theorem bind (h : f.Renamed ρ f') (params : List VarId) {args args' : List Value}
    (hargs : List.Forall₂ (Value.Renamed ρ) args args') :
    (f.bind params args).Renamed ρ (f'.bind params args') := by
  have henv : ∀ {env env' : Env} {params : List VarId} {args args' : List Value},
      env.Renamed ρ env' → List.Forall₂ (Value.Renamed ρ) args args' →
      ((params.zip args).foldl (fun env b => env.put (.var b.1) b.2) env).Renamed ρ
        ((params.zip args').foldl (fun env b => env.put (.var b.1) b.2) env') := by
    intro env env' params
    induction params generalizing env env' with
    | nil => exact fun he _ => he
    | cons x params ih =>
      intro args args' he ha
      cases ha with
      | nil => exact he
      | cons hv hrest => exact ih (he.put (.var x) hv) hrest
  exact { h with env := henv h.env hargs }

theorem begin (h : f.Renamed ρ f') (id : FnId) (first : Option StmtId) (scope : ScopeId)
    (params : List VarId) {args args' : List Value}
    (hargs : List.Forall₂ (Value.Renamed ρ) args args') :
    (f.begin id first scope params args).Renamed ρ (f'.begin id first scope params args') := by
  have hbegin : Frame.Renamed ρ
      { f with stmt := first, stage := 0, scope := scope, function := some id }
      { f' with stmt := first, stage := 0, scope := scope, function := some id } :=
    { h with stmt := rfl, stage := rfl, scope := rfl, function := rfl }
  exact hbegin.bind params hargs

end Frame.Renamed

/-! ### Messages -/

namespace Iterable

theorem range_answer_renamed {ρ : Renaming} {v v' : Value} (hv : v.Renamed ρ v') (m : Message)
    (o : Object) : range.answer m o v' = range.answer m o v := by
  cases m with
  | start => rfl
  | valid => simp only [answer, range, hv.asInt]
  | index => simp only [answer, range, hv.asInt]
  | next => simp only [answer, range, hv.asInt]

end Iterable

/-- **Answers to messages** are the same, and no objects. -/
theorem Program.answer?_renamed {p : Program}
    (hp : p.iterables = [(Iterable.rangeType, Iterable.range)]) {ρ : Renaming} {c c' : Context}
    (h : c.Renamed ρ c') (place : Place) (name : String) {args args' : List Value}
    (hargs : List.Forall₂ (Value.Renamed ρ) args args') :
    p.answer? c'.heap place name args' = p.answer? c.heap place name args ∧
      ∀ v, p.answer? c.heap place name args = some (.ok v) → v.asObject? = none := by
  have hlen := hargs.length_eq
  -- There is nothing to show about a message that the machine does not answer.
  have hunanswered : ∀ v : Value, (none : Option (Except Fault Value)) = some (.ok v) →
      v.asObject? = none := fun v hv => by cases hv
  simp only [answer?]
  cases Message.ofSelector? name with
  | none => exact ⟨rfl, hunanswered⟩
  | some m =>
    cases hargs with
    | nil => exact ⟨rfl, hunanswered⟩
    | cons hv hrest =>
      cases hv with
      | same hv =>
        simp only [Option.bind_eq_bind, Option.bind_some, List.head?_cons, hv, Option.bind_none]
        exact ⟨trivial, hunanswered⟩
      | object hk =>
        obtain ⟨o, ho, ho'⟩ := h.object hk
        simp only [Option.bind_eq_bind, Option.bind_some, List.head?_cons, Value.asObject?, ho, ho',
          hlen]
        cases hit : p.iterable? o.typeName with
        | none => exact ⟨rfl, hunanswered⟩
        | some it =>
          obtain rfl := iterable?_eq_range hp hit
          have hstate : ∀ {vs vs' : List Value}, List.Forall₂ (Value.Renamed ρ) vs vs' →
              (vs[0]?.getD Value.empty).Renamed ρ (vs'[0]?.getD Value.empty) := by
            intro vs vs' hvs
            cases hvs with
            | nil => exact .same rfl
            | cons hv _ => exact hv
          have hanswer := Iterable.range_answer_renamed (hstate hrest) m o
          simp only [Option.bind_some, List.getElem?_cons_succ, hanswer]
          split
          · refine ⟨trivial, fun v hv => ?_⟩
            cases hv
          · refine ⟨trivial, fun v hv => ?_⟩
            have hv' := Option.some.inj hv
            cases ha : Iterable.range.answer m o _ with
            | error e => rw [ha] at hv'; cases hv'
            | ok w =>
              rw [ha] at hv'
              cases hv'
              exact (Iterable.plain_of_range_answer ha).asObject?

/-! ### Calls -/

/-- Two effects are the same up to a renaming: the contexts are, and the sinks and results are the
same. -/
structure Effect.Renamed {α : Type} (e e' : Effect α) : Prop where
  context : ∃ ρ, e.context.Renamed ρ e'.context
  sink : e'.sink = e.sink
  result : e'.result = e.result

namespace Context.Renamed

variable {ρ : Renaming} {c c' : Context} {p : Program}

theorem activate (h : c.Renamed ρ c') (id : FnId) (first : Option StmtId) (scope : ScopeId)
    (params : List VarId) {args args' : List Value}
    (hargs : List.Forall₂ (Value.Renamed ρ) args args') :
    (c.activate id first scope params args).Renamed ρ
      (c'.activate id first scope params args') := by
  have hstart := (Frame.Renamed.start ρ none scope).begin id first scope params hargs
  rcases h.frames_cases with ⟨hc, hc'⟩ | ⟨f, fs, f', fs', hc, hc', hf, hrest⟩
  · simp only [Context.activate, hc, hc']
    exact h.setFrames (.cons hstart .nil)
  · simp only [Context.activate, hc, hc', hf.isExhausted]
    split
    · exact h.setFrames (.cons (hf.begin id first scope params hargs) hrest)
    · exact h.setFrames (.cons hstart (.cons hf hrest))

theorem enter (h : c.Renamed ρ c') (place : Place) (id : FnId) {args args' : List Value}
    (hargs : List.Forall₂ (Value.Renamed ρ) args args') (sink : Sink) :
    (c.enter p place id args sink).Renamed (c'.enter p place id args' sink) := by
  have hfail : ∀ e, @Effect.Renamed Unit ⟨c, sink, .error e⟩ ⟨c', sink, .error e⟩ :=
    fun e => ⟨⟨ρ, h⟩, rfl, rfl⟩
  rw [Context.enter, Context.enter, hargs.length_eq]
  -- Which way a call goes depends on the function and the number of arguments alone.
  split
  · exact hfail _
  · rename_i f _
    split
    · exact hfail _
    · split
      · rename_i q _
        have happly := Primitive.apply_renamed h.oneToOne h.object q hargs sink
        generalize q.apply args c.heap sink = r at happly ⊢
        generalize q.apply args' c'.heap sink = r' at happly ⊢
        cases happly with
        | same hr =>
          dsimp only
          split
          · exact ⟨⟨ρ, h.push (.same (hr _ rfl))⟩, rfl, rfl⟩
          · exact ⟨⟨ρ, h⟩, rfl, rfl⟩
        | alloc o ho =>
          obtain ⟨ρ', -, hnew, hc⟩ := h.alloc ho
          exact ⟨⟨ρ', hc.push (.object hnew)⟩, rfl, rfl⟩
      · split
        · exact hfail _
        · exact ⟨⟨ρ, h.activate id _ _ f.params hargs⟩, rfl, rfl⟩

theorem apply (h : c.Renamed ρ c')
    (hp : p.iterables = [(Iterable.rangeType, Iterable.range)]) (place : Place) (scope : ScopeId)
    {callee callee' : Value} (hcallee : callee.Renamed ρ callee') {args args' : List Value}
    (hargs : List.Forall₂ (Value.Renamed ρ) args args') (sink : Sink) :
    (c.apply p place scope callee args sink).Renamed
      (c'.apply p place scope callee' args' sink) := by
  have hfail : ∀ e, @Effect.Renamed Unit ⟨c, sink, .error e⟩ ⟨c', sink, .error e⟩ :=
    fun e => ⟨⟨ρ, h⟩, rfl, rfl⟩
  cases hcallee with
  -- An object cannot be called, whatever its handle.
  | object hk => exact hfail _
  | same hv =>
    cases callee with
    | function id => exact h.enter place id hargs sink
    | selector name =>
      obtain ⟨hanswer, hplain⟩ := Program.answer?_renamed hp h place name hargs
      simp only [Context.apply, hanswer]
      split
      · rename_i v ha
        exact ⟨⟨ρ, h.push (.same (hplain v ha))⟩, rfl, rfl⟩
      · exact hfail _
      · split
        · exact h.enter place _ hargs sink
        · exact hfail _
    | _ => exact hfail _

theorem cursor (h : c.Renamed ρ c') : c'.cursor = c.cursor := by
  rw [Context.cursor, Context.cursor]
  rcases h.frames_cases with ⟨hc, hc'⟩ | ⟨f, fs, f', fs', hc, hc', hf, -⟩
  · rw [hc, hc']
  · rw [hc, hc']
    exact hf.cursor

theorem invoke (h : c.Renamed ρ c')
    (hp : p.iterables = [(Iterable.rangeType, Iterable.range)]) (operands : Nat) (sink : Sink) :
    (c.invoke p operands sink).Renamed (c'.invoke p operands sink) := by
  have hfail : ∀ e, @Effect.Renamed Unit ⟨c, sink, .error e⟩ ⟨c', sink, .error e⟩ :=
    fun e => ⟨⟨ρ, h⟩, rfl, rfl⟩
  unfold Context.invoke
  rw [h.cursor]
  rcases h.frames_cases with ⟨hc, hc'⟩ | ⟨f, fs, f', fs', hc, hc', hf, hrest⟩
  · rw [hc, hc']
    exact hfail _
  · rw [hc, hc']
    cases operands with
    | zero => exact hfail _
    | succ argCount =>
      have hdrop := List.forall₂_drop argCount hf.operands
      have htake := List.rel_reverse (List.forall₂_take argCount hf.operands)
      dsimp only
      have hscope : p.scopeOf? f'.stmt f'.scope = p.scopeOf? f.stmt f.scope := by
        rw [hf.stmt, hf.scope]
      rw [← hf.operands.length_eq, hscope]
      generalize f.operands.drop argCount = vs at hdrop ⊢
      generalize f'.operands.drop argCount = vs' at hdrop ⊢
      cases hdrop with
      | nil => exact hfail _
      | cons hcallee hops =>
        dsimp only
        split
        · exact hfail _
        · have hpopped := h.setFrames (.cons (hf.setOperands hops) hrest)
          exact hpopped.apply hp _ _ hcallee htake sink

/-- **Starting the entry function** is the same in renamed contexts. -/
theorem startEntry (h : c.Renamed ρ c')
    (hp : p.iterables = [(Iterable.rangeType, Iterable.range)]) (entry : FnId) (sink : Sink) :
    (c.startEntry p entry sink).Renamed (c'.startEntry p entry sink) := by
  unfold Context.startEntry
  rcases h.frames_cases with ⟨hc, hc'⟩ | ⟨f, fs, f', fs', hc, hc', hf, hrest⟩
  · rw [hc, hc']
    exact ⟨⟨ρ, h⟩, rfl, rfl⟩
  · rw [hc, hc']
    exact (h.setFrames (.cons (hf.push (.same rfl)) hrest)).invoke hp 1 sink

end Context.Renamed

end TreeMachine
