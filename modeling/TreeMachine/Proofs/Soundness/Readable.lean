import TreeMachine.Proofs.Control.Closures
import TreeMachine.Proofs.Execution.Entries
import TreeMachine.Proofs.Execution.Flow

/-!
# Only readable values flow

A value can be used when it is not that of a variable without a value, is no closure, and refers to
an object that is there, if to any (`Value.Usable`). Whatever an activation offers for its work can
be used, and so all that is handed on can be: operands, what is remembered for expressions and
statements, arguments, results and the fields of objects. Only variables may be uninitialized
(`Frame.Readable`, `Context.Readable`). Steps keep this, whether they succeed or not, and so do
collections, which leave all objects that activations and other objects refer to
(`Context.Becomes.readable`).

The proof does not go through the stages of nodes. Where the values of a unit of work come from is
known for all kinds at once (`Frame.Draws`), so it is enough that new values can be used, and that a
variable which is read is not uninitialized: reading it is a complaint otherwise, and the value does
not get anywhere.

Closures are values in the type of values only. To evaluate one is refused, so none is ever made.
Handles need the history of the heap to be valid: an allocation must not take the place of an object
that is still referred to. Collections are covered because what an activation holds is among the
roots, and what an object holds is reached from it.

Nothing is used of the program but that its iterable objects are ranges, and nothing of the shape of
activations. So the statement holds of failed steps as well, and of programs with loops over several
variables.
-/

namespace TreeMachine

/-- A value that can be handed on: it is not uninitialized, is no closure, and the object that it
refers to is there. -/
def Value.Usable (heap : Heap) : Value → Prop
  | .uninitialized | .closure _ => False
  | .object h => ∃ o, heap.get? h = some o
  | _ => True

theorem Value.Plain.usable {v : Value} (h : v.Plain) (heap : Heap) : v.Usable heap := by
  rcases h with rfl | ⟨s, rfl⟩ <;> trivial

theorem Value.Usable.mono {heap heap' : Heap} {v : Value} (h : v.Usable heap)
    (hext : heap'.Extends heap) : v.Usable heap' := by
  cases v with
  | object k =>
    obtain ⟨o, ho⟩ := h
    exact ⟨o, hext k o ho⟩
  | uninitialized => exact h
  | closure => exact h
  | _ => trivial

/-- A collection leaves the object of a value that can be reached. -/
theorem Value.Usable.collect {heap : Heap} {v : Value} (h : v.Usable heap) {roots : List Value}
    (hreach : ∀ k, v = .object k → heap.Reaches (roots.filterMap Value.asObject?) k) :
    v.Usable (heap.collect roots).1 := by
  cases v with
  | object k =>
    obtain ⟨o, ho⟩ := h
    exact ⟨o, Heap.get?_collect (hreach k rfl) ho⟩
  | uninitialized => exact h
  | closure => exact h
  | _ => trivial

/-! ### Activations -/

namespace Frame

/-- **An activation is readable**: its operands can be used, and so can what its environment holds,
except that variables may be uninitialized. -/
structure Readable (heap : Heap) (f : Frame) : Prop where
  operands : ∀ v ∈ f.operands, v.Usable heap
  env : ∀ k v, f.env.get? k = some v →
    v.Usable heap ∨ (∃ x, k = .var x) ∧ v = .uninitialized

namespace Readable

variable {heap heap' : Heap} {f g : Frame} {v : Value}

theorem start (heap : Heap) (stmt : Option StmtId) (scope : ScopeId) :
    (Frame.start stmt scope).Readable heap :=
  ⟨nofun, nofun⟩

theorem mono (h : f.Readable heap) (hext : heap'.Extends heap) : f.Readable heap' :=
  ⟨fun v hv => (h.operands v hv).mono hext,
    fun k v hv => (h.env k v hv).imp_left fun hused => hused.mono hext⟩

/-- **What a readable activation offers** can be used. -/
theorem offers (h : f.Readable heap) (hv : f.Offers v) : v.Usable heap := by
  cases hv with
  | operand hmem => exact h.operands v hmem
  | remembered hget hk =>
    refine (h.env _ v hget).resolve_right ?_
    rintro ⟨⟨x, hx⟩, -⟩
    exact hk x hx
  | read hget hread =>
    refine (h.env _ v hget).resolve_right ?_
    rintro ⟨-, rfl⟩
    cases hread
  | plain hplain => exact hplain.usable heap
  | selector => trivial
  | function => trivial

/-- What draws on a readable activation is readable. -/
theorem draws (h : f.Readable heap) (hg : f.Draws g) : g.Readable heap := by
  refine ⟨fun v hv => h.offers (hg.operands v hv), fun k v hv => ?_⟩
  rcases hg.env k v hv with hold | hoffered | hdeclared
  · exact h.env k v hold
  · exact .inl (h.offers hoffered)
  · exact .inr hdeclared

theorem setOperands (h : f.Readable heap) {operands : List Value}
    (hoperands : ∀ v ∈ operands, v.Usable heap) :
    Readable heap { f with operands := operands } :=
  ⟨hoperands, h.env⟩

theorem push (h : f.Readable heap) (hv : v.Usable heap) : (f.push v).Readable heap :=
  h.setOperands (List.forall_mem_cons.2 ⟨hv, h.operands⟩)

theorem begin (h : f.Readable heap) (id : FnId) (first : Option StmtId) (scope : ScopeId)
    (params : List VarId) {args : List Value} (hargs : ∀ v ∈ args, v.Usable heap) :
    (f.begin id first scope params args).Readable heap :=
  ⟨h.operands, fun k v hv => (Env.of_get?_bind hv).elim (fun hold => h.env k v hold)
    fun hnew => .inl (hargs v hnew.2)⟩

/-- The callee and the arguments of a call can be used, and so can the operands below them. -/
theorem calls (h : f.Readable heap) {p : Program} {w : Work} {callee : Value}
    {args rest : List Value} (hcalls : f.Calls p w callee args rest) :
    callee.Usable heap ∧ (∀ v ∈ args, v.Usable heap) ∧
      Readable heap { w.1 with operands := rest } := by
  have hw := h.draws hcalls.works.draws.draws
  have hall := hw.operands
  rw [hcalls.operands] at hall
  obtain ⟨hargs, hbelow⟩ := List.forall_mem_append.1 hall
  obtain ⟨hcallee, hrest⟩ := List.forall_mem_cons.1 hbelow
  exact ⟨hcallee, fun v hv => hargs v (List.mem_reverse.2 hv), hw.setOperands hrest⟩

end Readable

end Frame

/-! ### Contexts -/

namespace Context

/-- **A context is readable**: its activations are, and the fields of its objects can be used. -/
structure Readable (c : Context) : Prop where
  frames : ∀ f ∈ c.frames, f.Readable c.heap
  fields : ∀ h o, c.heap.get? h = some o → ∀ v ∈ o.fields, v.Usable c.heap
  heap : c.heap.Valid

variable {p : Program} {c c' : Context} {f g : Frame} {callers : List Frame} {v : Value}

namespace Readable

theorem start (stmt : Option StmtId) (scope : ScopeId) : (Context.start stmt scope).Readable where
  frames := List.forall_mem_singleton.2 (.start _ stmt scope)
  fields h o ho := by
    have hentry := Heap.get?_eq_some.1 ho
    cases hentry
  heap := Heap.valid_empty

theorem withTop (h : c.Readable) (hframes : c.frames = f :: callers) (hg : g.Readable c.heap) :
    (c.withTop g callers).Readable :=
  { h with
    frames := List.forall_mem_cons.2 ⟨hg, (List.forall_mem_cons.1 (hframes ▸ h.frames)).2⟩ }

theorem push (h : c.Readable) (hv : v.Usable c.heap) : (c.push v).Readable := by
  unfold Context.push
  split
  · rename_i f callers hframes
    have htop := h.frames f (hframes ▸ List.mem_cons_self)
    exact h.withTop hframes (htop.push hv)
  · exact h

theorem detach (h : c.Readable) (hv : v.Usable c.heap) : (c.detach v).Readable := by
  unfold Context.detach
  split
  · rename_i f caller rest hframes
    obtain ⟨-, hcallers⟩ := List.forall_mem_cons.1 (hframes ▸ h.frames)
    obtain ⟨hcaller, hrest⟩ := List.forall_mem_cons.1 hcallers
    exact { h with frames := List.forall_mem_cons.2 ⟨hcaller.push hv, hrest⟩ }
  · exact { h with frames := List.forall_mem_nil _ }

theorem activate (h : c.Readable) (id : FnId) (first : Option StmtId) (scope : ScopeId)
    (params : List VarId) {args : List Value} (hargs : ∀ v ∈ args, v.Usable c.heap) :
    (c.activate id first scope params args).Readable := by
  have hfresh := (Frame.Readable.start c.heap none scope).begin id first scope params hargs
  have hframes : ∀ f ∈ (c.activate id first scope params args).frames, f.Readable c.heap := by
    unfold Context.activate
    cases hc : c.frames with
    | nil => exact List.forall_mem_singleton.2 hfresh
    | cons f callers =>
      obtain ⟨hf, hcallers⟩ := List.forall_mem_cons.1 (hc ▸ h.frames)
      by_cases hexhausted : f.isExhausted = true
      · simp only [hexhausted, if_true]
        exact List.forall_mem_cons.2 ⟨hf.begin id first scope params hargs, hcallers⟩
      · simp only [hexhausted]
        exact List.forall_mem_cons.2 ⟨hfresh, hc ▸ h.frames⟩
  exact ⟨hframes, h.fields, h.heap⟩

/-- An object may be added whose fields can be used. -/
theorem alloc (h : c.Readable) {o : Object} (ho : ∀ v ∈ o.fields, v.Usable c.heap) :
    Readable { c with heap := (c.heap.alloc o).1 } := by
  have hext := h.heap.extends_alloc o
  refine ⟨fun f hf => (h.frames f hf).mono hext, fun k o' ho' v hv => ?_, h.heap.alloc o⟩
  rcases h.heap.of_get?_alloc ho' with rfl | hold
  · exact (ho v hv).mono hext
  · exact (h.fields k o' hold v hv).mono hext

/-- **A collection** leaves what activations and other objects refer to. -/
theorem collect (h : c.Readable) : c.collect.1.Readable := by
  have hroot : ∀ k, .object k ∈ c.roots →
      c.heap.Reaches (c.roots.filterMap Value.asObject?) k :=
    fun k hk => .start (List.mem_filterMap.2 ⟨.object k, hk, rfl⟩)
  refine ⟨fun f hf => ⟨fun v hv => ?_, fun k v hv => ?_⟩, fun k o ho v hv => ?_,
    h.heap.collect c.roots⟩
  · refine ((h.frames f hf).operands v hv).collect ?_
    rintro k rfl
    exact hroot k (mem_roots.2 ⟨f, hf, .inr hv⟩)
  · refine ((h.frames f hf).env k v hv).imp_left fun hused => hused.collect ?_
    rintro k' rfl
    exact hroot k' (mem_roots.2 ⟨f, hf, .inl ⟨k, hv⟩⟩)
  · -- An object that is left can be reached, and so can those of its fields.
    obtain ⟨hbefore, hreach⟩ := Heap.get?_collect_iff.1 ho
    refine (h.fields k o hbefore v hv).collect ?_
    rintro k' rfl
    exact hreach.field hbefore (List.mem_filterMap.2 ⟨.object k', hv, rfl⟩)

/-! ### Calls and steps -/

theorem callEnds (h : c.Readable) {scope : ScopeId} {callee : Value} {args : List Value}
    (hargs : ∀ v ∈ args, v.Usable c.heap) (hends : CallEnds p scope callee args c c') :
    c'.Readable := by
  cases hends with
  | refused => exact h
  | answered hplain => exact h.push (hplain.usable c.heap)
  | made lo hi =>
    have hbounds : ∀ v ∈ (Iterable.rangeObject lo hi).fields, v.Usable c.heap :=
      List.forall_mem_cons.2 ⟨trivial, List.forall_mem_singleton.2 trivial⟩
    exact (h.alloc hbounds).push ⟨_, h.heap.get?_alloc_self _⟩
  | entered _ _ _ _ _ => exact h.activate _ _ _ _ hargs

/-- **Steps** keep a context readable. -/
theorem stepEnds (h : c.Readable) (hframes : c.frames = f :: callers)
    (hends : StepEnds p c f callers c') : c'.Readable := by
  have hf := h.frames f (hframes ▸ List.mem_cons_self)
  cases hends with
  | stuck => exact h
  | exhausted _ => exact h.detach trivial
  | worked hw _ => exact h.withTop hframes (hf.draws (hw.draws.settled p))
  | left hw hleave =>
    have htop := h.withTop hframes (hf.draws hw.draws.draws)
    exact htop.detach (hf.offers (hw.draws.leave _ hleave))
  | called hcalls _ hends =>
    obtain ⟨-, hargs, hbelow⟩ := hf.calls hcalls
    exact (h.withTop hframes hbelow).callEnds hargs hends

theorem step (h : c.Readable) (hp : p.iterables = [(Iterable.rangeType, Iterable.range)])
    (traceLevel : Nat) (sink : Sink) : (c.step p traceLevel sink).context.Readable := by
  cases hframes : c.frames with
  | nil =>
    rw [step_of_nil hframes]
    exact h
  | cons f callers => exact h.stepEnds hframes (step_ends hp hframes traceLevel sink)

end Readable

/-- A task starts in a readable context. -/
theorem Starts.readable {outer : Option StmtId} (h : c.Starts p outer)
    (hp : p.iterables = [(Iterable.rangeType, Iterable.range)]) : c.Readable := by
  cases h with
  | forModule => exact .start _ _
  | @startEntry id sink _ =>
    let f := (Frame.start none Program.rootScope).push (.function id)
    let c₀ : Context := ⟨[f], .empty, 0⟩
    have hidle : c₀.Readable := (Readable.start none Program.rootScope).push trivial
    show (c₀.invoke p 1 sink).context.Readable
    rcases invoke_ends hp (show c₀.frames = [f] from rfl) 1 sink with
      hrefused | ⟨callee, args, rest, scope, hn, hoperands, -, hends⟩
    · rw [hrefused]
      exact hidle
    · obtain rfl := List.eq_nil_of_length_eq_zero (Nat.succ.inj hn).symm
      have hall : ∀ v ∈ f.operands, v.Usable c₀.heap :=
        (List.forall_mem_singleton.1 hidle.frames).operands
      rw [hoperands] at hall
      have hbelow := (List.forall_mem_singleton.1 hidle.frames).setOperands
        (List.forall_mem_cons.1 hall).2
      exact (hidle.withTop rfl hbelow).callEnds (List.forall_mem_nil _) hends

/-- **What becomes of a readable context** is readable. -/
theorem Becomes.readable {c₀ : Context} (hc : c₀.Becomes p c) (h : c₀.Readable)
    (hp : p.iterables = [(Iterable.rangeType, Iterable.range)]) : c.Readable := by
  induction hc with
  | refl => exact h
  | step _ traceLevel sink ih => exact ih.step hp traceLevel sink
  | charge _ ih => exact ⟨ih.frames, ih.fields, ih.heap⟩
  | collect _ ih => exact ih.collect

/-- **Only readable values flow** in a context. What an activation has as an operand, what it
remembers, what it leaves with, what it calls and what it calls with can be used, and so can the
fields of objects. Only variables may be uninitialized besides. No activation is in the body of a
closure. -/
structure Flows (p : Program) (c : Context) : Prop where
  operands : ∀ f ∈ c.frames, ∀ v ∈ f.operands, v.Usable c.heap
  env : ∀ f ∈ c.frames, ∀ k v, f.env.get? k = some v →
    v.Usable c.heap ∨ (∃ x, k = .var x) ∧ v = .uninitialized
  fields : ∀ h o, c.heap.get? h = some o → ∀ v ∈ o.fields, v.Usable c.heap
  results : ∀ f ∈ c.frames, ∀ w v, f.Works p w → w.2 = .ok (.leave v) → v.Usable c.heap
  calls : ∀ f ∈ c.frames, ∀ w callee args rest, f.Calls p w callee args rest →
    callee.Usable c.heap ∧ ∀ v ∈ args, v.Usable c.heap
  outside : ∀ f ∈ c.frames, f.OutsideClosures p

end Context

/-- **Only readable values flow.** Let a program be linked, and let a task start in a context.
Whatever becomes of the context, by steps that succeed or fail and by collections at any time, only
readable values flow in it. -/
theorem readable_values_flow {d : Source.Program} {p : Program} (hlink : Program.link d = .ok p)
    {outer : Option StmtId} {c₀ c : Context} (hstart : c₀.Starts p outer)
    (hc : c₀.Becomes p c) : c.Flows p := by
  have hp := (Program.wellFormed_of_link hlink).iterables
  have h := hc.readable (hstart.readable hp) hp
  refine ⟨fun f hf => (h.frames f hf).operands, fun f hf => (h.frames f hf).env, h.fields,
    fun f hf w v hw hleave => (h.frames f hf).offers (hw.draws.leave v hleave),
    fun f hf w callee args rest hcalls => ?_, hc.outsideClosures hlink hstart⟩
  obtain ⟨hcallee, hargs, -⟩ := (h.frames f hf).calls hcalls
  exact ⟨hcallee, hargs⟩

/-- A definition in which a range is lent to a function while a variable has not been assigned. A
closure stands where it is not evaluated. -/
def Source.Program.lending : Source.Program :=
  ⟨[⟨"m", [.mk "lend" ["r"] [] [.return (some (.var "r"))]],
    [.expr (.declare "x"),
      .branch (.scalar (.bool false)) [.expr (.closure ["y"] [.expr (.var "y")])] [],
      .expr (.call (.function "lend")
        [.call (.function "range") [.scalar (.int 0), .scalar (.int 3)]])]⟩], none⟩

/-- After twenty-one steps, with a collection after every allocation, the function is about to
return the range, which is there, and the variable is uninitialized. There is a closure, and no
activation is in it. -/
theorem readable_values_flow_lending : ∃ p, Program.link .lending = .ok p ∧
    (∃ i, p.InClosure (.stmt i)) ∧ ∃ m : Module, m ∈ p.modules ∧
      ∃ c : Context, (Context.forModule m).Becomes p c ∧ c.Flows p ∧
        (∃ f ∈ c.frames, ∃ k o, .object k ∈ f.operands ∧ c.heap.get? k = some o) ∧
        ∃ f ∈ c.frames, ∃ x, f.env.get? (.var x) = some .uninitialized := by
  have hruns : Program.suspendsAfter .lending 100 21 (fun p m =>
      (p.exprs.toList.any fun x => !x.firsts.isEmpty) &&
      (m.context.frames.any fun f => f.operands.any fun v => v.asObject?.isSome) &&
      m.context.frames.any fun f => f.env.values.contains .uninitialized) = true := by
    decide +kernel
  obtain ⟨p, m, a, hlink, hm, hrun, htest⟩ := Program.exists_of_suspendsAfter hruns
  have hmem : m ∈ p.modules := Array.mem_of_getElem? hm
  have hstart : (Context.forModule m).Becomes p (.forModule m) := .refl
  have hbecomes := Machine.run_becomes hstart hrun
  have hflows := readable_values_flow hlink (.forModule hmem) hbecomes
  simp only [Bool.and_eq_true, List.any_eq_true, List.contains_iff_mem] at htest
  obtain ⟨⟨⟨x, hx, hfirsts⟩, f, hf, v, hv, hobject⟩, g, hg, hvariable⟩ := htest
  refine ⟨p, hlink, ?_, m, hmem, a.context, hbecomes, hflows, ⟨f, hf, ?_⟩, g, hg, ?_⟩
  · obtain ⟨n, hn⟩ := Array.getElem?_of_mem (Array.mem_toList_iff.1 hx)
    cases x with
    | closure params first =>
      cases first with
      | some i => exact ⟨i, .stmt (e := ⟨n⟩) hn .first⟩
      | none => cases hfirsts
    | _ => cases hfirsts
  · cases v with
    | object k =>
      obtain ⟨o, ho⟩ := hflows.operands f hf _ hv
      exact ⟨k, o, hv, ho⟩
    | _ => cases hobject
  · obtain ⟨k, hk⟩ := Env.mem_values_iff.1 hvariable
    rcases hflows.env g hg k _ hk with hused | ⟨⟨x, rfl⟩, -⟩
    · cases hused
    · exact ⟨x, hk⟩

end TreeMachine
