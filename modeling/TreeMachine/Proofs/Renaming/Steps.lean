import TreeMachine.Execution.Step
import TreeMachine.Proofs.Renaming.Calls
import TreeMachine.Proofs.Renaming.Work

/-!
# Steps of renamed contexts

A step does the same in two contexts that are the same up to a renaming of handles
(`Context.Renamed.step`). A collection of either of them keeps them the same, since the handles that
a later step can use are among the roots (`Context.Renamed.collect_left`,
`Context.Renamed.collect_right`).

A collection is a change on one side only. It frees objects that no activation holds, and in the
other context these objects may be there for longer, or may be gone already. After it the renaming
is cut down to the handles among the roots. The objects of these are kept, as roots are reached, and
the activations are still the same up to the smaller renaming, because it has all the handles that
they hold.

The two lemmas together say that collections may happen at different times in the two runs, in any
number. Nothing is said about the number of objects in the two heaps, which does differ. What a step
depends on in a heap is whether a handle of an activation has an object and which one.
-/

namespace TreeMachine

/-! ### Moving past a statement -/

namespace Frame.Renamed

variable {ρ : Renaming} {f f' : Frame} {p : Program}

/-- Moving on fails for both activations in the same way, or gives renamed activations. -/
theorem moveOn (h : f.Renamed ρ f') (current : StmtId) (waiting : List StmtId)
    (resumes : List Nat) :
    (∃ d, f.moveOn p current waiting resumes = .error d ∧
      f'.moveOn p current waiting resumes = .error d) ∨
    ∃ g g', f.moveOn p current waiting resumes = .ok g ∧
      f'.moveOn p current waiting resumes = .ok g' ∧ Frame.Renamed ρ g g' := by
  -- The tree and the two stacks decide, and they are the same on both sides.
  induction waiting generalizing current resumes with
  | nil =>
    unfold Frame.moveOn
    split
    · exact .inl ⟨_, rfl, rfl⟩
    · rename_i s _
      cases s.next with
      | none => exact .inr ⟨_, _, rfl, rfl, { h with stmt := rfl, waiting := rfl, resumes := rfl }⟩
      | some next =>
        exact .inr ⟨_, _, rfl, rfl, { h with stmt := rfl, waiting := rfl, resumes := rfl }⟩
  | cons parent waiting ih =>
    unfold Frame.moveOn
    split
    · exact .inl ⟨_, rfl, rfl⟩
    · rename_i s _
      cases s.next with
      | some next =>
        exact .inr ⟨_, _, rfl, rfl, { h with stmt := rfl, waiting := rfl, resumes := rfl }⟩
      | none =>
        cases resumes with
        | nil =>
          exact .inr ⟨_, _, rfl, rfl, { h with stmt := rfl, waiting := rfl, resumes := rfl }⟩
        | cons stage resumes =>
          cases stage with
          | zero => exact ih parent resumes
          | succ stage =>
            exact .inr ⟨_, _, rfl, rfl,
              { h with stmt := rfl, stage := rfl, waiting := rfl, resumes := rfl }⟩

theorem advance (h : f.Renamed ρ f') :
    (∃ d, f.advance p = .error d ∧ f'.advance p = .error d) ∨
    ∃ g g', f.advance p = .ok g ∧ f'.advance p = .ok g' ∧ Frame.Renamed ρ g g' := by
  have hcleared : f.cleared.Renamed ρ f'.cleared := { h with stage := rfl, operands := .nil }
  rw [advance_eq, advance_eq, h.stmt, h.waiting, h.resumes]
  split
  · exact hcleared.moveOn _ f.waiting f.resumes
  · exact .inr ⟨_, _, rfl, rfl, hcleared⟩

/-- Renamed activations have the same node to work on, or both have none. -/
theorem pending? (hρ : ρ.OneToOne) (h : f.Renamed ρ f') (p : Program) :
    f.pending? p = none ∧ f'.pending? p = none ∨
    (∃ d, f.pending? p = some (.error d) ∧ f'.pending? p = some (.error d)) ∨
    ∃ node node', f.pending? p = some (.ok node) ∧ f'.pending? p = some (.ok node') ∧
      node'.kind = node.kind ∧ node'.stage = node.stage ∧
      Work.Renamed ρ node.work node'.work := by
  unfold Frame.pending?
  rw [h.expr, h.stmt]
  split
  · split
    · exact .inr (.inr ⟨_, _, rfl, rfl, rfl, h.exprStage, h.workExpr p _ _⟩)
    · exact .inr (.inl ⟨_, rfl, rfl⟩)
  · split
    · exact .inr (.inr ⟨_, _, rfl, rfl, rfl, h.stage, h.workStmt hρ p _ _⟩)
    · exact .inr (.inl ⟨_, rfl, rfl⟩)
  · exact .inl ⟨rfl, rfl⟩

end Frame.Renamed

/-! ### Steps -/

namespace Context.Renamed

variable {ρ : Renaming} {c c' : Context} {p : Program}

theorem isFinished (h : c.Renamed ρ c') : c'.isFinished = c.isFinished := by
  rw [Context.isFinished, Context.isFinished]
  rcases h.frames_cases with ⟨hc, hc'⟩ | ⟨f, fs, f', fs', hc, hc', -, -⟩
  · rw [hc, hc']
  · rw [hc, hc']
    rfl

theorem progress (h : c.Renamed ρ c') : c'.progress = c.progress := by
  rw [Context.progress, Context.progress, h.isFinished]

/-- Leaving an activation gives its value to the caller. -/
theorem detach (h : c.Renamed ρ c') {v v' : Value} (hv : v.Renamed ρ v') :
    (c.detach v).Renamed ρ (c'.detach v') := by
  rw [Context.detach, Context.detach]
  rcases h.frames_cases with ⟨hc, hc'⟩ | ⟨f, fs, f', fs', hc, hc', hf, hrest⟩
  · rw [hc, hc']
    exact h.setFrames .nil
  · rw [hc, hc']
    cases hrest with
    | nil => exact h.setFrames .nil
    | cons hcaller hrest => exact h.setFrames (.cons (hcaller.push hv) hrest)

/-- The demand of renamed work is met in the same way. -/
theorem meet (h : c.Renamed ρ c') (hp : p.iterables = [(Iterable.rangeType, Iterable.range)])
    (place : Place) {callers callers' : List Frame}
    (hcallers : List.Forall₂ (Frame.Renamed ρ) callers callers') {w w' : Work}
    (hw : Work.Renamed ρ w w') (sink : Sink) :
    (c.meet p place callers w sink).Renamed (c'.meet p place callers' w' sink) := by
  obtain ⟨f, r⟩ := w
  obtain ⟨f', r'⟩ := w'
  obtain ⟨hf, hr⟩ := hw
  dsimp only at hf hr
  have hc := h.setFrames (.cons hf hcallers)
  cases hr with
  | leave hv =>
    have hdetach := hc.detach hv
    exact ⟨⟨ρ, hdetach⟩, rfl, congrArg Except.ok hdetach.progress⟩
  | same hne =>
    cases r with
    | error e => exact ⟨⟨ρ, hc⟩, rfl, rfl⟩
    | ok d =>
      cases d with
      | pending => exact ⟨⟨ρ, hc⟩, rfl, congrArg Except.ok hc.progress⟩
      | jumped => exact ⟨⟨ρ, hc⟩, rfl, rfl⟩
      | leave v => exact absurd rfl (hne v)
      | call n =>
        have hcall := hc.invoke hp n sink
        obtain ⟨ρ', hcontext⟩ := hcall.context
        refine ⟨⟨ρ', hcontext⟩, hcall.sink, ?_⟩
        simp only [Context.meet, hcall.result, hcontext.progress]
      | complete =>
        simp only [Context.meet]
        rcases hf.advance (p := p) with ⟨d, hd, hd'⟩ | ⟨g, g', hg, hg', hr⟩
        · rw [hd, hd']
          exact ⟨⟨ρ, hc⟩, rfl, rfl⟩
        · rw [hg, hg']
          have hnext := h.setFrames (.cons hr hcallers)
          exact ⟨⟨ρ, hnext⟩, rfl, congrArg Except.ok hnext.progress⟩

/-- **A step** does the same in renamed contexts. -/
theorem step (h : c.Renamed ρ c') (hp : p.iterables = [(Iterable.rangeType, Iterable.range)])
    (traceLevel : Nat) (sink : Sink) :
    (c.step p traceLevel sink).Renamed (c'.step p traceLevel sink) := by
  unfold Context.step
  rcases h.frames_cases with ⟨hc, hc'⟩ | ⟨f, fs, f', fs', hc, hc', hf, hrest⟩
  · rw [hc, hc']
    exact ⟨⟨ρ, h⟩, rfl, rfl⟩
  · rw [hc, hc']
    dsimp only
    rcases hf.pending? h.oneToOne p with ⟨hn, hn'⟩ | ⟨d, hd, hd'⟩ | ⟨node, node', hn, hn', hkind,
      hstage, hw⟩
    · rw [hn, hn']
      have hdetach := h.detach (v := .empty) (.same rfl)
      exact ⟨⟨ρ, hdetach⟩, rfl, congrArg Except.ok hdetach.progress⟩
    · rw [hd, hd']
      exact ⟨⟨ρ, h⟩, rfl, by rw [hf.cursor]⟩
    · rw [hn, hn']
      dsimp only
      rw [hkind, hstage, hf.cursor, ← hf.operands.length_eq]
      have hmeet := h.meet hp f.cursor hrest hw
      split
      · exact hmeet sink
      · split
        · exact hmeet _
        · exact ⟨⟨ρ, h⟩, rfl, rfl⟩

/-! ### Collections -/

/-- Contexts stay renamed by every part of the relation that has the handles among their roots. -/
theorem imp_frames (h : c.Renamed ρ c') {ρ' : Renaming}
    (hρ : ∀ h k, ρ h k → .object h ∈ c.roots → .object k ∈ c'.roots → ρ' h k) :
    List.Forall₂ (Frame.Renamed ρ') c.frames c'.frames := by
  have hall : ∀ {fs fs' : List Frame}, List.Forall₂ (Frame.Renamed ρ) fs fs' →
      (∀ h k, ρ h k → .object h ∈ fs.flatMap Frame.roots →
        .object k ∈ fs'.flatMap Frame.roots → ρ' h k) →
      List.Forall₂ (Frame.Renamed ρ') fs fs' := by
    intro fs fs' hfs
    induction hfs with
    | nil => exact fun _ => .nil
    | cons hf _ ih =>
      intro hroots
      simp only [List.flatMap_cons, List.mem_append] at hroots
      exact .cons (hf.imp fun a b hab ha hb => hroots a b hab (.inl ha) (.inl hb))
        (ih fun a b hab ha hb => hroots a b hab (.inr ha) (.inr hb))
  exact hall h.frames hρ

/-- The object of a root is kept by a collection. -/
theorem get?_collect_root {c : Context} {k : Handle} {o : Object} (hk : .object k ∈ c.roots)
    (ho : c.heap.get? k = some o) : c.collect.1.heap.get? k = some o :=
  Heap.get?_collect (.start (List.mem_filterMap.2 ⟨.object k, hk, rfl⟩)) ho

/-- **A collection** of the context on the left leaves renamed contexts. -/
theorem collect_left (h : c.Renamed ρ c') : ∃ ρ', c.collect.1.Renamed ρ' c' := by
  refine ⟨fun a b => ρ a b ∧ .object a ∈ c.roots, ⟨fun h₁ h₂ => h.oneToOne.right h₁.1 h₂.1,
    fun h₁ h₂ => h.oneToOne.left h₁.1 h₂.1⟩, h.imp_frames fun a b hab ha _ => ⟨hab, ha⟩,
    fun hab => ?_, h.valid_left.collect _, h.valid_right, h.steps⟩
  obtain ⟨o, hplain, ho, ho'⟩ := h.objects hab.1
  exact ⟨o, hplain, get?_collect_root hab.2 ho, ho'⟩

/-- **A collection** of the context on the right leaves renamed contexts. -/
theorem collect_right (h : c.Renamed ρ c') : ∃ ρ', c.Renamed ρ' c'.collect.1 := by
  refine ⟨fun a b => ρ a b ∧ .object b ∈ c'.roots, ⟨fun h₁ h₂ => h.oneToOne.right h₁.1 h₂.1,
    fun h₁ h₂ => h.oneToOne.left h₁.1 h₂.1⟩, h.imp_frames fun a b hab _ hb => ⟨hab, hb⟩,
    fun hab => ?_, h.valid_left, h.valid_right.collect _, h.steps⟩
  obtain ⟨o, hplain, ho, ho'⟩ := h.objects hab.1
  exact ⟨o, hplain, ho, get?_collect_root hab.2 ho'⟩

/-- A context that starts at a statement is the same as itself. -/
theorem start (stmt : Option StmtId) (scope : ScopeId) :
    Context.Renamed (fun _ _ => False) (.start stmt scope) (.start stmt scope) :=
  ⟨⟨nofun, nofun⟩, .cons (.start _ stmt scope) .nil, nofun, Heap.valid_empty, Heap.valid_empty,
    rfl⟩

end Context.Renamed

end TreeMachine
