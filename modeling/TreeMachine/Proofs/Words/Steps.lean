import TreeMachine.Proofs.Execution.Steps
import TreeMachine.Proofs.Soundness.Runs
import TreeMachine.Proofs.Words.Work

/-!
# Runs keep to 32 bits

The activations and the objects of a context have words of 32 bits (`Context.Words`). A step keeps
to that as long as there are no more than `2 ^ 32` entries in the heap (`Context.Words.step`), and
so does a run (`Machine.words_run`): the heap never shrinks, so it is enough to look at its size in
the end. Nothing is assumed about the activations but their words.

Positions of objects are the only ids that a program can make arbitrarily many of. A new object has
a position within the heap, so the size of the heap bounds them. Since a collection frees entries
without removing any, the size at an earlier time is no larger, and the bound at the end of a run is
one for all of it (`Machine.size_le_run`).

Three counters may outgrow their words in a long run: the one of steps, the one of allocations since
the last collection, and the number of entries (`Context.Counted`). They are left as a hypothesis
about the context that is to be written. Everything else has the size that it should have if it had
it at the start, and the start of a task has it (`Context.Words.forModule`).
-/

namespace TreeMachine

namespace Frame.Fits

variable {f : Frame}

/-- Parameters are bound to arguments. -/
theorem bind (h : f.Fits) {params : List VarId} (hparams : ∀ y ∈ params, y.index ≤ Word.max32)
    {args : List Value} (hargs : ∀ v ∈ args, v.Fits) : (f.bind params args).Fits := by
  have hzip : ∀ b ∈ params.zip args, b.1.index ≤ Word.max32 ∧ b.2.Fits := by
    intro b hb
    exact ⟨hparams _ (List.of_mem_zip hb).1, hargs _ (List.of_mem_zip hb).2⟩
  have henv : ∀ (bs : List (VarId × Value)) (env : Env), env.Fits →
      (∀ b ∈ bs, b.1.index ≤ Word.max32 ∧ b.2.Fits) →
      (bs.foldl (fun env b => env.put (.var b.1) b.2) env).Fits := by
    intro bs
    induction bs with
    | nil => exact fun _ henv _ => henv
    | cons b bs ih =>
      intro env henv hbs
      obtain ⟨⟨hy, hv⟩, hbs⟩ := List.forall_mem_cons.1 hbs
      exact ih _ (henv.put (k := .var b.1) hy hv) hbs
  exact { h with env := henv _ _ h.env hzip }

theorem begin (h : f.Fits) {id : FnId} (hid : id.index ≤ Word.max32) {first : Option StmtId}
    (hfirst : ∀ c, first = some c → c.index ≤ Word.max32) {scope : ScopeId}
    (hscope : scope.index ≤ Word.max32) {params : List VarId}
    (hparams : ∀ y ∈ params, y.index ≤ Word.max32) {args : List Value}
    (hargs : ∀ v ∈ args, v.Fits) : (f.begin id first scope params args).Fits := by
  have hstart : Frame.Fits
      { f with stmt := first, stage := 0, scope := scope, function := some id } := by
    refine { h with stmt := hfirst, stage := Nat.zero_le _, function := ?_, scope := hscope }
    rintro id' ⟨⟩
    exact hid
  exact hstart.bind hparams hargs

end Frame.Fits

/-! ### The heap -/

namespace Heap

/-- The objects and the free list of a heap have words of 32 bits. -/
structure Words (heap : Heap) : Prop where
  objects : ∀ e ∈ heap.entries, ∀ o, e.object = some o → o.Fits
  free : ∀ i ∈ heap.free, i ≤ Word.max32

variable {heap : Heap}

/-- A new object lies within the heap. -/
theorem index_alloc_lt (heap : Heap) (o : Object) :
    (heap.alloc o).2.index < (heap.alloc o).1.entries.size := by
  have happend : ∀ heap : Heap, (heap.append o).2.index < (heap.append o).1.entries.size := by
    intro heap
    simp only [append, Array.size_push]
    omega
  unfold alloc
  split
  · exact happend heap
  · split
    · rename_i i _ _ e he
      have hlt := (Array.getElem?_eq_some_iff.1 he).1
      simpa only [Array.size_setIfInBounds] using hlt
    · exact happend _

theorem size_le_alloc (heap : Heap) (o : Object) :
    heap.entries.size ≤ (heap.alloc o).1.entries.size := by
  unfold alloc append
  split
  · simp only [Array.size_push]
    omega
  · split
    · simp only [Array.size_setIfInBounds]
      omega
    · simp only [Array.size_push]
      omega

namespace Words

theorem alloc (h : heap.Words) {o : Object} (ho : o.Fits) : (heap.alloc o).1.Words := by
  have happend : ∀ heap : Heap, heap.Words → (heap.append o).1.Words := by
    intro heap h
    refine ⟨fun e he o' ho' => ?_, h.free⟩
    rcases Array.mem_push.1 he with he | rfl
    · exact h.objects e he o' ho'
    · cases ho'
      exact ho
  unfold Heap.alloc
  split
  · exact happend heap h
  · rename_i i rest hfree
    have hrest : ∀ j ∈ rest, j ≤ Word.max32 := fun j hj =>
      h.free j (hfree ▸ List.mem_cons_of_mem _ hj)
    split
    · refine ⟨fun e he o' ho' => ?_, hrest⟩
      rcases Array.mem_or_eq_of_mem_setIfInBounds he with he | rfl
      · exact h.objects e he o' ho'
      · cases ho'
        exact ho
    · exact happend _ ⟨h.objects, hrest⟩

theorem collect (h : heap.Words) (hsize : heap.entries.size ≤ Word.max32 + 1)
    (roots : List Value) : (heap.collect roots).1.Words := by
  refine ⟨fun e he o ho => ?_, fun i hi => ?_⟩
  · obtain ⟨i, hi⟩ := Array.mem_iff_getElem?.1 he
    rw [collect_entries] at hi
    split at hi
    · obtain ⟨e', -, rfl⟩ := Option.map_eq_some_iff.1 hi
      cases ho
    · exact h.objects e (Array.mem_of_getElem? hi) o ho
  · rcases List.mem_append.1 hi with hi | hi
    · obtain ⟨⟨g, o, he⟩, -⟩ := mem_garbage.1 (List.mem_reverse.1 hi)
      have hlt := (Array.getElem?_eq_some_iff.1 he).1
      omega
    · exact h.free i hi

end Words

end Heap

/-! ### Contexts -/

namespace Context

/-- The activations and the heap of a context have words of 32 bits. -/
structure Words (c : Context) : Prop where
  frames : ∀ f ∈ c.frames, f.Fits
  heap : c.heap.Words

/-- What counts the entries of the heap, the allocations and the steps of a context is as large as a
snapshot allows. -/
structure Counted (c : Context) : Prop where
  entries : c.heap.entries.size ≤ Word.max32 + 1
  allocated : c.heap.allocated ≤ Word.max64
  steps : c.steps ≤ Word.max64

instance (c : Context) : Decidable c.Counted :=
  decidable_of_iff (c.heap.entries.size ≤ Word.max32 + 1 ∧ c.heap.allocated ≤ Word.max64 ∧
    c.steps ≤ Word.max64) ⟨fun ⟨h₁, h₂, h₃⟩ => ⟨h₁, h₂, h₃⟩, fun ⟨h₁, h₂, h₃⟩ => ⟨h₁, h₂, h₃⟩⟩

theorem Fits.words {c : Context} (h : c.Fits) : c.Words :=
  ⟨h.frames, h.heap.objects, h.heap.free⟩

theorem Words.fits {c : Context} (h : c.Words) (hcounted : c.Counted) : c.Fits :=
  ⟨h.frames, ⟨h.heap.objects, h.heap.free, hcounted.allocated⟩, hcounted.steps⟩

variable {p : Program} {c : Context}

/-- **The heap never shrinks** in a step. -/
theorem size_le_step (c : Context) (traceLevel : Nat) (sink : Sink) :
    c.heap.entries.size ≤ (c.step p traceLevel sink).context.heap.entries.size := by
  rcases step_heap p traceLevel c sink with heq | ⟨o, heq⟩
  · rw [heq]
  · rw [heq]
    exact c.heap.size_le_alloc o

namespace Words

theorem push (h : c.Words) {v : Value} (hv : v.Fits) : (c.push v).Words := by
  unfold Context.push
  split
  · rename_i f callers hframes
    obtain ⟨hf, hcallers⟩ := List.forall_mem_cons.1 (hframes ▸ h.frames)
    exact ⟨List.forall_mem_cons.2 ⟨hf.push hv, hcallers⟩, h.heap⟩
  · exact h

theorem activate (h : c.Words) {id : FnId} (hid : id.index ≤ Word.max32) {first : Option StmtId}
    (hfirst : ∀ s, first = some s → s.index ≤ Word.max32) {scope : ScopeId}
    (hscope : scope.index ≤ Word.max32) {params : List VarId}
    (hparams : ∀ y ∈ params, y.index ≤ Word.max32) {args : List Value}
    (hargs : ∀ v ∈ args, v.Fits) : (c.activate id first scope params args).Words := by
  have hnew : ∀ (f : Frame) (callers : List Frame), f.Fits → (∀ g ∈ callers, g.Fits) →
      Words { c with frames := f.begin id first scope params args :: callers } :=
    fun f callers hf hcallers =>
      ⟨List.forall_mem_cons.2 ⟨hf.begin hid hfirst hscope hparams hargs, hcallers⟩, h.heap⟩
  have hstart : (Frame.start none scope).Fits := .start nofun hscope
  unfold Context.activate
  cases hframes : c.frames with
  | nil => exact hnew _ [] hstart nofun
  | cons f callers =>
    obtain ⟨hf, hcallers⟩ := List.forall_mem_cons.1 (hframes ▸ h.frames)
    by_cases hexhausted : f.isExhausted
    · simp only [hexhausted, if_true]
      exact hnew f callers hf hcallers
    · simp only [hexhausted]
      exact hnew _ (f :: callers) hstart (List.forall_mem_cons.2 ⟨hf, hcallers⟩)

/-- A function is called. A new object must lie within the first `2 ^ 32` entries. -/
theorem enter (h : c.Words) (hp : p.WellFormed) (hsmall : p.Small) (place : Place) {id : FnId}
    {args : List Value} (hargs : ∀ v ∈ args, v.Fits) (sink : Sink)
    (hsize : (c.enter p place id args sink).context.heap.entries.size ≤ Word.max32 + 1) :
    (c.enter p place id args sink).context.Words := by
  unfold Context.enter at hsize ⊢
  split
  · exact h
  · rename_i f hf
    simp only [hf] at hsize
    split
    · exact h
    · rename_i harity
      rw [if_neg harity] at hsize
      have hfits := hp.functions id f hf
      split
      · rename_i q hbody
        simp only [hbody] at hsize
        rcases q.apply_cases args c.heap sink with ⟨sink', r, happly, hplain⟩ | ⟨lo, hi, happly⟩
        · simp only [happly]
          cases r with
          | error e => exact h
          | ok v => exact h.push (hplain v rfl).fits
        · simp only [happly] at hsize ⊢
          rw [push_heap] at hsize
          -- The new object is a range, and its handle lies within the heap that there is then.
          have hrange : (Iterable.rangeObject lo hi).Fits := by
            intro v hv
            rcases List.mem_cons.1 hv with rfl | hv
            · trivial
            · rw [List.mem_singleton.1 hv]
              trivial
          have hindex := Nat.lt_of_lt_of_le (c.heap.index_alloc_lt _) hsize
          have hgrown : Words { c with heap := (c.heap.alloc (Iterable.rangeObject lo hi)).1 } :=
            ⟨h.frames, h.heap.alloc hrange⟩
          exact hgrown.push (v := .object _) (Nat.le_of_lt_succ hindex)
      · rename_i first hbody
        have hfirst : ∀ s, first = some s → s.index ≤ Word.max32 := by
          intro s hs
          obtain ⟨t, ht, -⟩ := hfits.body first hbody s hs
          exact hsmall.stmt ht
        split
        · exact h
        · rename_i scope hscope
          have hscope : scope.index < p.scopes.size := by
            cases first with
            | none =>
              cases hscope
              exact hfits.scope
            | some s =>
              obtain ⟨t, ht, rfl⟩ := Option.map_eq_some_iff.1 hscope
              exact (hp.stmts s t ht).scope
          refine h.activate (hsmall.function hf) hfirst ?_ (fun y hy => ?_) hargs
          · exact Nat.le_trans (Nat.le_of_lt hscope) hsmall.scopes
          · exact Nat.le_trans (Nat.le_of_lt (hfits.params y hy)) hsmall.vars

theorem apply (h : c.Words) (hp : p.WellFormed) (hsmall : p.Small) (place : Place)
    (scope : ScopeId) (callee : Value) {args : List Value} (hargs : ∀ v ∈ args, v.Fits)
    (sink : Sink)
    (hsize : (c.apply p place scope callee args sink).context.heap.entries.size ≤
      Word.max32 + 1) : (c.apply p place scope callee args sink).context.Words := by
  unfold Context.apply at hsize ⊢
  split
  · exact h.enter hp hsmall place hargs sink hsize
  · rename_i name
    dsimp only at hsize
    split
    · rename_i v hanswer
      rcases Program.answer?_cases hp.iterables hanswer with
        ⟨w, hw, hplain⟩ | ⟨_, hfail⟩ | ⟨_, _, _, hfail⟩
      · cases hw
        exact h.push hplain.fits
      · cases hfail
      · cases hfail
    · exact h
    · rename_i hanswer
      rw [hanswer] at hsize
      dsimp only at hsize
      split
      · rename_i id hresolve
        rw [hresolve] at hsize
        exact h.enter hp hsmall place hargs sink hsize
      · exact h
  · exact h
  · exact h

theorem invoke (h : c.Words) (hp : p.WellFormed) (hsmall : p.Small) (operands : Nat) (sink : Sink)
    (hsize : (c.invoke p operands sink).context.heap.entries.size ≤ Word.max32 + 1) :
    (c.invoke p operands sink).context.Words := by
  unfold Context.invoke at hsize ⊢
  split
  · exact h
  · rename_i f callers hframes
    obtain ⟨hf, hcallers⟩ := List.forall_mem_cons.1 (hframes ▸ h.frames)
    simp only [hframes] at hsize
    split
    · exact h
    · rename_i argCount
      dsimp only at hsize
      split
      · exact h
      · rename_i callee rest hdrop
        simp only [hdrop] at hsize
        split
        · exact h
        · rename_i scope hscope
          simp only [hscope] at hsize
          -- The callee and what is below it are what is left after the arguments.
          have hrest : ∀ v ∈ callee :: rest, v.Fits := fun v hv =>
            hf.operands v (List.mem_of_mem_drop (hdrop ▸ hv))
          have htaken : Words { c with frames := { f with operands := rest } :: callers } := by
            refine ⟨List.forall_mem_cons.2 ⟨?_, hcallers⟩, h.heap⟩
            exact { hf with operands := (List.forall_mem_cons.1 hrest).2 }
          refine htaken.apply hp hsmall _ scope callee (fun v hv => ?_) sink hsize
          exact hf.operands v (List.mem_of_mem_take (List.mem_reverse.1 hv))

theorem detach (h : c.Words) {v : Value} (hv : v.Fits) : (c.detach v).Words := by
  unfold Context.detach
  split
  · rename_i f caller rest hframes
    obtain ⟨-, hcallers⟩ := List.forall_mem_cons.1 (hframes ▸ h.frames)
    obtain ⟨hcaller, hrest⟩ := List.forall_mem_cons.1 hcallers
    exact ⟨List.forall_mem_cons.2 ⟨hcaller.push hv, hrest⟩, h.heap⟩
  · exact ⟨nofun, h.heap⟩

/-- What a unit of work demands is met. -/
theorem meet (h : c.Words) (hp : p.WellFormed) (hsmall : p.Small) (place : Place)
    {callers : List Frame} (hcallers : ∀ f ∈ callers, f.Fits) {w : Work} (hw : w.Fits)
    (sink : Sink) (hsize : (c.meet p place callers w sink).context.heap.entries.size ≤
      Word.max32 + 1) : (c.meet p place callers w sink).context.Words := by
  obtain ⟨f, result⟩ := w
  obtain ⟨hf, hleave⟩ := hw
  have htop : ∀ g : Frame, g.Fits → Words { c with frames := g :: callers } := fun g hg =>
    ⟨List.forall_mem_cons.2 ⟨hg, hcallers⟩, h.heap⟩
  cases result with
  | error e => exact htop f hf
  | ok demand =>
    cases demand with
    | pending => exact htop f hf
    | complete =>
      simp only [Context.meet]
      split
      · rename_i g hg
        exact htop g (hf.advance hp hsmall hg)
      · exact htop f hf
    | jumped => exact htop f hf
    | leave v => exact (htop f hf).detach (hleave v rfl)
    | call n => exact (htop f hf).invoke hp hsmall n sink hsize

/-- **A step** keeps to words of 32 bits, as long as the heap does. -/
theorem step (h : c.Words) (hp : p.WellFormed) (hsmall : p.Small) (traceLevel : Nat) (sink : Sink)
    (hsize : (c.step p traceLevel sink).context.heap.entries.size ≤ Word.max32 + 1) :
    (c.step p traceLevel sink).context.Words := by
  unfold Context.step at hsize ⊢
  split
  · exact h
  · rename_i f callers hframes
    obtain ⟨hf, hcallers⟩ := List.forall_mem_cons.1 (hframes ▸ h.frames)
    simp only [hframes] at hsize
    split
    · exact h.detach trivial
    · exact h
    · rename_i node hnode
      simp only [hnode] at hsize
      have hwork := hf.pending? hp hsmall hnode
      split
      · rename_i htrace
        rw [if_pos htrace] at hsize
        exact h.meet hp hsmall _ hcallers hwork sink hsize
      · rename_i htrace
        rw [if_neg htrace] at hsize
        dsimp only at hsize ⊢
        split
        · rename_i sink' hwrite
          rw [hwrite] at hsize
          exact h.meet hp hsmall _ hcallers hwork sink' hsize
        · exact h

theorem collect (h : c.Words) (hsize : c.heap.entries.size ≤ Word.max32 + 1) :
    c.collect.1.Words :=
  ⟨h.frames, h.heap.collect hsize c.roots⟩

/-- A context that runs the statements of a module. -/
theorem forModule (hp : p.WellFormed) (hsmall : p.Small) {m : Module} (hm : m ∈ p.modules) :
    (Context.forModule m).Words := by
  obtain ⟨hscope, hbody⟩ := hp.modules m hm
  have hstart : (Frame.start m.body m.scope).Fits := by
    refine .start (fun s hs => ?_) (Nat.le_trans (Nat.le_of_lt hscope) hsmall.scopes)
    obtain ⟨t, ht, -⟩ := hbody s hs
    exact hsmall.stmt ht
  exact ⟨List.forall_mem_cons.2 ⟨hstart, nofun⟩, ⟨nofun, nofun⟩⟩

end Words

theorem size_collect (c : Context) : c.collect.1.heap.entries.size = c.heap.entries.size := by
  have hfold : ∀ (is : List Nat) (es : Array Entry),
      (is.foldl (fun es i => es.modify i Entry.vacated) es).size = es.size := by
    intro is
    induction is with
    | nil => exact fun _ => rfl
    | cons i is ih => exact fun es => (ih _).trans (Array.size_modify ..)
  exact hfold _ _

end Context

/-! ### Runs -/

namespace Machine

variable {p : Program} {m : Machine}

theorem size_le_turn (threshold : Nat) (m : Machine) :
    m.context.heap.entries.size ≤ (m.turn p threshold).1.context.heap.entries.size := by
  have hmoves := turn_moves p threshold m
  generalize m.turn p threshold = r at hmoves ⊢
  cases hmoves with
  | unattended hcontext => exact hcontext ▸ Nat.le_refl _
  | quits hcontext => exact hcontext ▸ Nat.le_refl _
  | fails level sink _ hcontext => exact hcontext ▸ m.context.size_le_step level sink
  | jumps level sink _ hcontext => exact hcontext ▸ m.context.size_le_step level sink
  | @charges _ c' _ level sink _ _ hc' hcontext =>
    have hstep : m.context.heap.entries.size ≤ c'.heap.entries.size :=
      hc' ▸ m.context.size_le_step level sink
    rcases hcontext with hcontext | hcontext
    · exact hcontext ▸ hstep
    · rw [hcontext, c'.size_collect]
      exact hstep

theorem words_turn (hp : p.WellFormed) (hsmall : p.Small) {threshold : Nat}
    (h : m.context.Words)
    (hsize : (m.turn p threshold).1.context.heap.entries.size ≤ Word.max32 + 1) :
    (m.turn p threshold).1.context.Words := by
  have hmoves := turn_moves p threshold m
  generalize m.turn p threshold = r at hmoves hsize ⊢
  cases hmoves with
  | unattended hcontext => exact hcontext ▸ h
  | quits hcontext => exact hcontext ▸ h
  | fails level sink _ hcontext =>
    rw [hcontext] at hsize ⊢
    exact h.step hp hsmall level sink hsize
  | jumps level sink _ hcontext =>
    rw [hcontext] at hsize ⊢
    exact h.step hp hsmall level sink hsize
  | @charges _ c' _ level sink _ _ hc' hcontext =>
    have hcharged : c'.heap.entries.size ≤ Word.max32 + 1 → c'.Words := by
      intro hsize'
      subst hc'
      exact ⟨(h.step hp hsmall level sink hsize').frames,
        (h.step hp hsmall level sink hsize').heap⟩
    rcases hcontext with hcontext | hcontext
    · rw [hcontext] at hsize ⊢
      exact hcharged hsize
    · -- A collection leaves the number of entries alone.
      rw [hcontext, c'.size_collect] at hsize
      rw [hcontext]
      exact (hcharged hsize).collect hsize

/-- The heap does not shrink in a run. -/
theorem size_le_run {threshold fuel : Nat} {budget : Option Nat} {r : Result}
    (h : m.run p threshold fuel budget = some r) :
    m.context.heap.entries.size ≤ r.1.context.heap.entries.size :=
  run_keeps (P := fun m' => m.context.heap.entries.size ≤ m'.context.heap.entries.size)
    (fun m' hm => Nat.le_trans hm (m'.size_le_turn threshold)) (Nat.le_refl _) h

/-- **A run** keeps to words of 32 bits if the heap has done so in the end. -/
theorem words_run (hp : p.WellFormed) (hsmall : p.Small) {threshold fuel : Nat}
    {budget : Option Nat} {r : Result} (hm : m.context.Words)
    (h : m.run p threshold fuel budget = some r)
    (hsize : r.1.context.heap.entries.size ≤ Word.max32 + 1) : r.1.context.Words := by
  induction fuel generalizing m budget with
  | zero => cases h
  | succ fuel ih =>
    by_cases hhalted : m.Halted budget
    · rw [run_halted hhalted] at h
      cases h
      exact hm
    · rw [run_succ _ hhalted] at h
      split at h
      -- The heap after the turn is no larger than that in the end.
      · exact ih (words_turn hp hsmall hm (Nat.le_trans (size_le_run h) hsize)) h
      · cases h
        exact words_turn hp hsmall hm hsize

end Machine

end TreeMachine
