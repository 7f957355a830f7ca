import TreeMachine.Proofs.Soundness.Expressions
import TreeMachine.Proofs.Soundness.Statements

/-!
# Steps are sound

A context is sound when the activation on top has the right shape, those below it each miss the
value of the call that they have made, all of them hold sound values, and the heap is valid
(`Context.Sound`). Steps, collections and the charge of a step leave it sound, and a step of a sound
context does not fail for a defect. So the contexts that a task of a well-formed program can get
into are sound (`Context.Reachable.sound`).

What a task gets into is given by constructors: the context that runs the statements of a module,
the one in which a call of an entry function has succeeded, and what a successful step, a charge or
a collection makes of either, in any order. So it does not depend on budgets, thresholds and the
debugger. Runs of machines are an instance.

A call is where contexts grow. The caller waits, with the callee and the arguments gone, and the
called function begins in an activation of its own or in one that has nothing to do
(`Context.Awaiting.activate`); or the call is answered at once, and its value completes the shape of
the caller (`Context.Awaiting.push`). A function that ends gives its value to the caller in the same
way (`Context.sound_detach`).

A step that fails leaves a context of which nothing is said here, since the run is over. In
particular operands may have been taken from it.
-/

namespace TreeMachine

/-- An effect that is no failure for a defect, and that leaves a sound context when it is none. -/
def Effect.Sound {α : Type} (P : Context → Prop) (e : Effect α) : Prop :=
  match e.result with
  | .error fault => ¬fault.IsInternal
  | .ok _ => P e.context

/-- The work that an activation of the right shape is about to do is sound, if there is any. -/
theorem Frame.Shaped.pending? {p : Program} {heap : Heap} {f : Frame} (h : f.Shaped p)
    (hholds : f.Holds p heap) (hp : p.WellFormed) (hloops : p.SimpleLoops) :
    match f.pending? p with
    | none => True
    | some (.error _) => False
    | some (.ok node) => node.work.Sound p heap := by
  unfold Frame.pending?
  cases h with
  | exhausted hstmt hexpr =>
    simp only [hstmt, hexpr]
  | stmt hw hexpr hsuspended hheld =>
    have hon : f.On p heap _ _ := ⟨hw, hexpr, hsuspended, hholds⟩
    simp only [hw.stmt, hexpr, hw.found]
    exact hon.workStmt hp (hloops _ _ hw.found) hheld
  | expr hw hheld hexpr hx hstage hsuspended hoperands =>
    have hon : f.OnExpr p heap _ _ _ := ⟨⟨_, _, hw, hheld⟩, hexpr, hx, hsuspended, hholds⟩
    simp only [hexpr, hx]
    exact hon.workExpr hp hstage hoperands

namespace Context

/-- **Sound contexts.** -/
structure Sound (p : Program) (c : Context) : Prop where
  heap : c.heap.Valid
  top : ∀ f ∈ c.frames.head?, f.Shaped p
  callers : ∀ f ∈ c.frames.tail, f.Awaits p
  holds : ∀ f ∈ c.frames, f.Holds p c.heap

/-- A context that waits for the value of a call. -/
structure Awaiting (p : Program) (c : Context) : Prop where
  heap : c.heap.Valid
  frames : ∀ f ∈ c.frames, f.Awaits p
  holds : ∀ f ∈ c.frames, f.Holds p c.heap

variable {p : Program} {c : Context}

/-! ### Calls -/

namespace Awaiting

/-- The value of a call is given to the activation that misses it. -/
theorem push (h : c.Awaiting p) {v : Value} (hv : v.Sound p c.heap) : (c.push v).Sound p := by
  unfold Context.push
  split
  · rename_i f callers hc
    refine ⟨h.heap, ?_, fun g hg => h.frames g (hc ▸ List.mem_cons_of_mem _ hg), ?_⟩
    · rintro g ⟨⟩
      exact (h.frames f (hc ▸ List.mem_cons_self)).1 v
    · intro g hg
      rcases List.mem_cons.1 hg with rfl | hg
      · exact (h.holds f (hc ▸ List.mem_cons_self)).push hv
      · exact h.holds g (hc ▸ List.mem_cons_of_mem _ hg)
  · rename_i hc
    exact ⟨h.heap, by rw [hc]; nofun, by rw [hc]; nofun, h.holds⟩

/-- The heap may grow. -/
theorem grow (h : c.Awaiting p) {heap : Heap} (hvalid : heap.Valid) (hext : heap.Extends c.heap) :
    Awaiting p { c with heap := heap } :=
  ⟨hvalid, h.frames, fun f hf => (h.holds f hf).mono hext⟩

/-- A function is entered in an activation of its own, or in one that has nothing to do. -/
theorem activate (h : c.Awaiting p) {id : FnId} (hid : ∃ fn, p.function? id = some fn)
    {first : Option StmtId} (hbody : p.BodyFits first) {scope : ScopeId}
    (hscope : ∃ s, p.scope? scope = some s) (params : List VarId) {args : List Value}
    (hargs : ∀ v ∈ args, v.Sound p c.heap) :
    (c.activate id first scope params args).Sound p := by
  -- Said of any activation that has nothing to do, as a call may take over an idle one.
  have hnew : ∀ f : Frame, f.Holds p c.heap → f.expr = none → f.suspended = [] →
      f.operands = [] → f.waiting = [] → f.resumes = [] → ∀ callers : List Frame,
      (∀ g ∈ callers, g.Awaits p) → (∀ g ∈ callers, g.Holds p c.heap) →
      Sound p { c with frames := f.begin id first scope params args :: callers } := by
    intro f hholds hexpr hsuspended hoperands hwaiting hresumes callers hcallers hcallersHold
    refine ⟨h.heap, ?_, hcallers, List.forall_mem_cons.2 ⟨?_, hcallersHold⟩⟩
    · rintro g ⟨⟩
      exact .of_body hbody rfl rfl hexpr hsuspended hoperands hwaiting hresumes
    · have hbegin : Frame.Holds p c.heap
          { f with stmt := first, stage := 0, scope := scope, function := some id } := by
        refine { hholds with function := ?_, scope := hscope }
        rintro id ⟨⟩
        exact hid
      exact hbegin.bind params hargs
  have hstart : (Frame.start none scope).Holds p c.heap := .start hscope none
  unfold Context.activate
  cases hc : c.frames with
  | nil => exact hnew _ hstart rfl rfl rfl rfl rfl [] nofun nofun
  | cons f callers =>
    have hframes := h.frames
    have hholds := h.holds
    rw [hc] at hframes hholds
    by_cases hf : f.isExhausted
    · simp only [hf, if_true]
      obtain ⟨hf₁, hf₂, hf₃, hf₄, hf₅⟩ := (hframes f List.mem_cons_self).of_isExhausted hf
      exact hnew f (hholds f List.mem_cons_self) hf₁ hf₂ hf₃ hf₄ hf₅ callers
        (fun g hg => hframes g (List.mem_cons_of_mem _ hg))
        fun g hg => hholds g (List.mem_cons_of_mem _ hg)
    · simp only [hf]
      exact hnew _ hstart rfl rfl rfl rfl rfl (f :: callers) hframes hholds

/-- Calling a function of the program with sound arguments. -/
theorem enter (h : c.Awaiting p) (hp : p.WellFormed) (place : Place) {id : FnId} {f : Function}
    (hf : p.function? id = some f) {args : List Value} (hargs : ∀ v ∈ args, v.Sound p c.heap)
    (sink : Sink) : Effect.Sound (Sound p) (c.enter p place id args sink) := by
  simp only [Context.enter, hf]
  split
  · exact fun hfault => hfault
  · split
    · rename_i q _
      rcases q.apply_cases args c.heap sink with ⟨sink', r, happly, hplain⟩ | ⟨lo, hi, happly⟩
      · simp only [happly]
        cases r with
        | error e => exact fun hfault => hfault
        | ok v => exact h.push ((hplain v rfl).sound p c.heap)
      · simp only [happly]
        have hgrow := h.grow (h.heap.alloc (Iterable.rangeObject lo hi)) (h.heap.extends_alloc _)
        exact hgrow.push (v := .object (c.heap.alloc _).2) ⟨_, h.heap.get?_alloc_self _⟩
    · rename_i first hbody
      have hfits := (hp.functions id f hf).body first hbody
      have hscopes : ∀ s : ScopeId, s.index < p.scopes.size → ∃ t, p.scope? s = some t :=
        fun s hs => ⟨p.scopes[s.index], Array.getElem?_eq_getElem hs⟩
      cases first with
      | none =>
        exact h.activate ⟨f, hf⟩ hfits (hscopes _ (hp.functions id f hf).scope) f.params hargs
      | some s =>
        obtain ⟨t, ht, -⟩ := hfits s rfl
        simp only [Program.scopeOf?, ht, Option.map_some]
        exact h.activate ⟨f, hf⟩ hfits (hscopes _ (hp.stmts s t ht).scope) f.params hargs

/-- Calling a sound value with sound arguments. -/
theorem apply (h : c.Awaiting p) (hp : p.WellFormed) (place : Place) {scope : ScopeId}
    {callee : Value} (hcallee : callee.Sound p c.heap) {args : List Value}
    (hargs : ∀ v ∈ args, v.Sound p c.heap) (sink : Sink) :
    Effect.Sound (Sound p) (c.apply p place scope callee args sink) := by
  cases callee with
  | function id =>
    obtain ⟨f, hf⟩ := hcallee
    exact h.enter hp place hf hargs sink
  | selector name =>
    simp only [Context.apply]
    cases hanswer : p.answer? c.heap place name args with
    | some r =>
      rcases Program.answer?_cases hp.iterables hanswer with ⟨v, rfl, hv⟩ | ⟨e, rfl⟩ |
        ⟨k, hk, hnone, -⟩
      · exact h.push (hv.sound p c.heap)
      · exact fun hfault => hfault
      · obtain ⟨o, ho⟩ := hargs _ hk
        rw [hnone] at ho
        cases ho
    | none =>
      cases hresolve : p.resolve scope name with
      | error e => exact fun hfault => hfault
      | ok id =>
        obtain ⟨f, hf⟩ := hp.function?_of_resolve hresolve
        exact h.enter hp place hf hargs sink
  | _ => exact fun hfault => hfault

end Awaiting

/-- **A call** with the operands that the innermost activation has for it. -/
theorem sound_invoke (hp : p.WellFormed) {f : Frame} {callers : List Frame} {args rest : List Value}
    {callee : Value} (hframes : c.frames = f :: callers)
    (hoperands : f.operands = args ++ callee :: rest) (hheap : c.heap.Valid)
    (htop : Frame.Awaits p { f with operands := rest }) (hcallers : ∀ g ∈ callers, g.Awaits p)
    (hholds : ∀ g ∈ c.frames, g.Holds p c.heap) (sink : Sink) :
    Effect.Sound (Sound p) (c.invoke p (args.length + 1) sink) := by
  rw [hframes] at hholds
  have hvalues := (hholds f List.mem_cons_self).operands
  rw [hoperands] at hvalues
  have hdrop : f.operands.drop args.length = callee :: rest := by
    rw [hoperands, List.drop_left]
  have htake : f.operands.take args.length = args := by
    rw [hoperands, List.take_left]
  obtain ⟨scope, hscope⟩ := htop.scopeOf?
  have hscope' : p.scopeOf? f.stmt f.scope = some scope := hscope
  simp only [Context.invoke, hframes, hdrop, htake, hscope']
  have hawaiting : Awaiting p { c with frames := { f with operands := rest } :: callers } := by
    refine ⟨hheap, List.forall_mem_cons.2 ⟨htop, hcallers⟩, List.forall_mem_cons.2 ⟨?_, ?_⟩⟩
    · exact (hholds f List.mem_cons_self).setOperands rest
        fun v hv => hvalues v (List.mem_append_right _ (List.mem_cons_of_mem _ hv))
    · exact fun g hg => hholds g (List.mem_cons_of_mem _ hg)
  refine hawaiting.apply hp _ ?_ ?_ sink
  · exact hvalues callee (List.mem_append_right _ List.mem_cons_self)
  · exact fun v hv => hvalues v (List.mem_append_left _ (List.mem_reverse.1 hv))

/-! ### Steps -/

/-- Leaving the innermost activation gives a value to its caller. -/
theorem sound_detach {f : Frame} {callers : List Frame} (hframes : c.frames = f :: callers)
    (hheap : c.heap.Valid) (hcallers : ∀ g ∈ callers, g.Awaits p)
    (hholds : ∀ g ∈ callers, g.Holds p c.heap) {v : Value} (hv : v.Sound p c.heap) :
    (c.detach v).Sound p := by
  unfold Context.detach
  rw [hframes]
  cases callers with
  | nil => exact ⟨hheap, nofun, nofun, nofun⟩
  | cons caller rest =>
    refine ⟨hheap, ?_, fun g hg => hcallers g (List.mem_cons_of_mem _ hg), ?_⟩
    · rintro g ⟨⟩
      exact (hcallers caller List.mem_cons_self).1 v
    · refine List.forall_mem_cons.2 ⟨?_, fun g hg => hholds g (List.mem_cons_of_mem _ hg)⟩
      exact (hholds caller List.mem_cons_self).push hv

/-- Meeting the demand of sound work on the innermost activation. -/
theorem sound_meet (hp : p.WellFormed) (place : Place) {callers : List Frame} {w : Work}
    (hw : w.Sound p c.heap) (hheap : c.heap.Valid) (hcallers : ∀ g ∈ callers, g.Awaits p)
    (hholds : ∀ g ∈ callers, g.Holds p c.heap) (sink : Sink) :
    Effect.Sound (Sound p) (c.meet p place callers w sink) := by
  obtain ⟨f, r⟩ := w
  have hwith : ∀ {g : Frame}, g.Shaped p → g.Holds p c.heap →
      Sound p { c with frames := g :: callers } := by
    intro g hshape hg
    refine ⟨hheap, ?_, hcallers, List.forall_mem_cons.2 ⟨hg, hholds⟩⟩
    rintro g' ⟨⟩
    exact hshape
  cases r with
  | error e => exact hw
  | ok d =>
    obtain ⟨hf, hmeets⟩ := hw
    cases d with
    | pending => exact hwith hmeets hf
    | jumped => exact hwith hmeets hf
    | complete =>
      obtain ⟨o, stage, waiting, resumes, hadvance, hshape⟩ := Frame.Through.advance hmeets hp
      simp only [Context.meet, hadvance]
      exact hwith hshape { hf.setOperands [] nofun with }
    | leave v =>
      exact sound_detach (c := { c with frames := f :: callers }) rfl hheap hcallers hholds hmeets
    | call n =>
      obtain ⟨args, callee, rest, rfl, hoperands, htop⟩ := hmeets
      have hcall := sound_invoke (c := { c with frames := f :: callers }) hp rfl hoperands hheap
        htop hcallers (List.forall_mem_cons.2 ⟨hf, hholds⟩) sink
      simp only [Context.meet]
      unfold Effect.Sound at hcall ⊢
      cases hr : (Context.invoke p (args.length + 1) { c with frames := f :: callers } sink).result
      all_goals
        rw [hr] at hcall
        exact hcall

namespace Sound

/-- **A step** of a sound context does not fail for a defect, and leaves a sound context. -/
theorem step (h : c.Sound p) (hp : p.WellFormed) (hloops : p.SimpleLoops) (traceLevel : Nat)
    (sink : Sink) : Effect.Sound (Sound p) (c.step p traceLevel sink) := by
  unfold Context.step
  split
  · exact h
  · rename_i f callers hc
    have htop := h.top f (by rw [hc]; rfl)
    have hcallers := h.callers
    have hholds := h.holds
    rw [hc] at hcallers hholds
    have hcallersHold := fun g hg => hholds g (List.mem_cons_of_mem f hg)
    have hwork := htop.pending? (hholds f List.mem_cons_self) hp hloops
    cases hpending : f.pending? p with
    | none => exact sound_detach hc h.heap hcallers hcallersHold trivial
    | some r =>
      rw [hpending] at hwork
      cases r with
      | error d => exact hwork.elim
      | ok node =>
        have hmeet := fun sink => sound_meet hp f.cursor hwork h.heap hcallers hcallersHold sink
        dsimp only
        split
        · exact hmeet sink
        · split
          · exact hmeet _
          · exact fun hfault => hfault

/-- **A collection** leaves a sound context: what the activations hold is among its roots. -/
theorem collect (h : c.Sound p) : c.collect.1.Sound p := by
  refine ⟨h.heap.collect c.roots, h.top, h.callers, fun f hf => (h.holds f hf).collect ?_⟩
  exact fun v hv => List.mem_flatMap.2 ⟨f, hf, hv⟩

/-- A context that runs the statements of a module. -/
theorem forModule (hp : p.WellFormed) {m : Module} (hm : m ∈ p.modules) :
    (Context.forModule m).Sound p := by
  obtain ⟨hscope, hbody⟩ := hp.modules m hm
  refine ⟨Heap.valid_empty, ?_, nofun, ?_⟩
  · rintro f ⟨⟩
    exact .of_body hbody rfl rfl rfl rfl rfl rfl rfl
  · refine List.forall_mem_cons.2 ⟨.start ?_ m.body, nofun⟩
    exact ⟨p.scopes[m.scope.index], Array.getElem?_eq_getElem hscope⟩

/-- A context in which the entry function has been called. -/
theorem startEntry (hp : p.WellFormed) {id : FnId} (hid : ∃ f, p.function? id = some f)
    (sink : Sink) :
    Effect.Sound (Sound p) ((Context.idle Program.rootScope).startEntry p id sink) := by
  have hroot : ∃ s, p.scope? Program.rootScope = some s :=
    ⟨_, Array.getElem?_eq_getElem hp.root⟩
  have hidle : (Frame.start none Program.rootScope).Awaits p :=
    ⟨fun v => .exhausted rfl rfl rfl rfl rfl, fun _ => rfl⟩
  have hholds : (Frame.start none Program.rootScope).Holds p .empty := .start hroot none
  have hpushed : ((Frame.start none Program.rootScope).push (.function id)).Holds p .empty :=
    hholds.push hid
  have hoperands : ((Frame.start none Program.rootScope).push (.function id)).operands =
      [] ++ .function id :: [] := rfl
  exact sound_invoke (c := ⟨[(Frame.start none Program.rootScope).push (.function id)], .empty, 0⟩)
    hp rfl hoperands Heap.valid_empty hidle nofun (List.forall_mem_cons.2 ⟨hpushed, nofun⟩) sink

end Sound

/-! ### Reachable contexts -/

/-- The contexts that a task of a program gets into: one for the statements of a module, or an idle
one in which a call of an entry function has succeeded; and what successful steps, their charges and
collections make of it, in any order. -/
inductive Reachable (p : Program) : Context → Prop
  | forModule {m : Module} (hm : m ∈ p.modules) : Reachable p (forModule m)
  | startEntry {id : FnId} {sink : Sink}
      (hok : ((idle Program.rootScope).startEntry p id sink).result = .ok ()) :
      Reachable p ((idle Program.rootScope).startEntry p id sink).context
  | step {c : Context} {traceLevel : Nat} {sink : Sink} {progress : Progress} (h : Reachable p c)
      (hok : (c.step p traceLevel sink).result = .ok progress) :
      Reachable p (c.step p traceLevel sink).context
  | charge {c : Context} (h : Reachable p c) : Reachable p { c with steps := c.steps + 1 }
  | collect {c : Context} (h : Reachable p c) : Reachable p c.collect.1

/-- A function that can be entered is there. -/
theorem function?_of_startEntry {id : FnId} {sink : Sink}
    (hok : ((idle Program.rootScope).startEntry p id sink).result = .ok ()) :
    ∃ f, p.function? id = some f := by
  cases hf : p.function? id with
  | some f => exact ⟨f, rfl⟩
  | none =>
    have henter : (idle Program.rootScope).startEntry p id sink =
        (idle Program.rootScope).enter p (.nowhere) id [] sink := rfl
    rw [henter, Context.enter, hf] at hok
    cases hok

/-- **Reachable contexts are sound.** -/
theorem Reachable.sound (h : c.Reachable p) (hp : p.WellFormed) (hloops : p.SimpleLoops) :
    c.Sound p := by
  induction h with
  | forModule hm => exact .forModule hp hm
  | @startEntry id sink hok =>
    have hsound := Sound.startEntry hp (function?_of_startEntry hok) sink
    unfold Effect.Sound at hsound
    rw [hok] at hsound
    exact hsound
  | @step c traceLevel sink progress _ hok ih =>
    have hsound := ih.step hp hloops traceLevel sink
    unfold Effect.Sound at hsound
    rw [hok] at hsound
    exact hsound
  | charge _ ih => exact { ih with }
  | collect _ ih => exact ih.collect

/-- All that a context refers to is there: the nodes that its activations are at or have to come
back to, their functions and scopes, the functions and objects that they hold, and the free
entries of the heap. -/
structure Grounded (p : Program) (c : Context) : Prop where
  stmt : ∀ f ∈ c.frames, ∀ i, f.stmt = some i → ∃ s, p.stmt? i = some s
  waiting : ∀ f ∈ c.frames, ∀ q ∈ f.waiting, ∃ s, p.stmt? q = some s
  expr : ∀ f ∈ c.frames, ∀ e, f.expr = some e → ∃ x, p.expr? e = some x
  suspended : ∀ f ∈ c.frames, ∀ d ∈ f.suspended, ∃ x, p.expr? d.1 = some x
  function : ∀ f ∈ c.frames, ∀ id, f.function = some id → ∃ fn, p.function? id = some fn
  scope : ∀ f ∈ c.frames, ∃ s, p.scope? f.scope = some s
  values : ∀ f ∈ c.frames, ∀ v ∈ f.operands, v.Sound p c.heap
  env : ∀ f ∈ c.frames, ∀ k v, f.env.get? k = some v → v.Sound p c.heap
  free : ∀ i ∈ c.heap.free, ∃ entry, c.heap.entries[i]? = some entry

theorem Sound.grounded (h : c.Sound p) : c.Grounded p := by
  have hnodes : ∀ f ∈ c.frames,
      (∀ i, f.stmt = some i → ∃ s, p.stmt? i = some s) ∧
      (∀ q ∈ f.waiting, ∃ s, p.stmt? q = some s) ∧
      (∀ e, f.expr = some e → ∃ x, p.expr? e = some x) ∧
      ∀ d ∈ f.suspended, ∃ x, p.expr? d.1 = some x := by
    intro f hf
    cases hc : c.frames with
    | nil =>
      rw [hc] at hf
      cases hf
    | cons g callers =>
      rw [hc] at hf
      rcases List.mem_cons.1 hf with rfl | hf
      · exact (h.top f (by rw [hc]; rfl)).nodes
      · exact ((h.callers f (by rw [hc]; exact hf)).1 .empty).nodes
  refine ⟨fun f hf => (hnodes f hf).1, fun f hf => (hnodes f hf).2.1,
    fun f hf => (hnodes f hf).2.2.1,
    fun f hf => (hnodes f hf).2.2.2, fun f hf => (h.holds f hf).function,
    fun f hf => (h.holds f hf).scope, fun f hf => (h.holds f hf).operands,
    fun f hf => (h.holds f hf).env, fun i hi => ?_⟩
  obtain ⟨g, hg⟩ := (h.heap.mem_free i).1 hi
  exact ⟨_, hg⟩

end Context

end TreeMachine
