import TreeMachine.Proofs.Linking.Fitting
import TreeMachine.Proofs.Linking.Nodes

/-!
# Tables that are sound

Between the links of bodies the tables are sound (`Program.Sound`): every node lies in a body that
was placed, the jumps of all bodies have been resolved, and functions, scopes and modules fit. Every
step that declares something or links a body keeps this, and at the end of linking the program is
well-formed (`Program.Sound.wellFormed`).

Well-formedness is about single nodes and the ids in them. While a body is being linked it does not
hold, since its statements have neither kinds nor successors yet, and there would be many exceptions
to state. So soundness speaks about complete bodies only, and says of a node that it is between the
marks of one. What is known of the nodes between two marks then gives what well-formedness asks for
(`Program.SeqAt`), and a node never has to be looked at in the tables of the linker.

Functions are declared before they have a body. The empty body fits like any other, so that no
exception is needed for them either. Two relations lead from one sound state to the next:
`Program.Extends` for tables, and `Linker.Leads` for states of the linker, which also has the frames
and the entry. `Link.leads_body` is the only place where the links of statements come in.
-/

namespace TreeMachine

namespace Program

/-! ### Growing tables -/

/-- The tables of a program grow into those of another one. -/
structure Extends (p p' : Program) : Prop where
  keeps : p.Keeps 0 p'
  vars : p.vars.size ≤ p'.vars.size
  scopes : p.scopes.size ≤ p'.scopes.size

theorem Extends.refl (p : Program) : p.Extends p :=
  ⟨.refl 0 p, Nat.le_refl _, Nat.le_refl _⟩

theorem Extends.trans {p p' p'' : Program} (h : p.Extends p') (h' : p'.Extends p'') :
    p.Extends p'' :=
  ⟨h.keeps.trans h'.keeps, Nat.le_trans h.vars h'.vars, Nat.le_trans h.scopes h'.scopes⟩

theorem Grows.extends {p p' : Program} (h : p.Grows p') : p.Extends p' :=
  ⟨h.keeps, h.vars, Nat.le_of_eq (by rw [h.rest])⟩

/-- A body that begins with a statement goes on to do so. -/
theorem BodyFits.mono {p p' : Program} (h : p.Extends p') {first : Option StmtId}
    (hb : p.BodyFits first) : p'.BodyFits first := by
  intro c hc
  obtain ⟨s, hs, hp, ha⟩ := hb c hc
  obtain ⟨kind, hk, hs'⟩ := h.keeps.stmts c s (Nat.zero_le _) hs
  refine ⟨_, hs', hp, ?_⟩
  rcases hk with rfl | ⟨-, hg⟩
  · exact ha
  · cases kind <;> first | rfl | cases hg

theorem FunctionFits.mono {p p' : Program} (h : p.Extends p') {f : Function}
    (hf : p.FunctionFits f) : p'.FunctionFits f :=
  ⟨Nat.lt_of_lt_of_le hf.scope h.scopes,
    fun x hx => Nat.lt_of_lt_of_le (hf.params x hx) h.vars,
    fun first hb => (hf.body first hb).mono h⟩

theorem ScopeFits.mono {p p' : Program} (h : p.Extends p') {i : ScopeId} {s : Scope}
    (hs : p.ScopeFits i s) : p'.ScopeFits i s :=
  ⟨hs.parent, fun f hf => Nat.lt_of_lt_of_le (hs.functions f hf) h.keeps.functions_size⟩

/-- The nodes between two marks are those of a body, now and later. -/
def Placed (p : Program) (m m' : Mark) : Prop :=
  ∃ scope body first, scope.index < p.scopes.size ∧ m.Fits ∧ m'.vars ≤ p.vars.size ∧
    ∀ p', p.Keeps 0 p' → p'.SeqAt none scope body m m' first

theorem Placed.mono {p p' : Program} (h : p.Extends p') {m m' : Mark} (hm : p.Placed m m') :
    p'.Placed m m' := by
  obtain ⟨scope, body, first, hscope, hfits, hvars, hat⟩ := hm
  exact ⟨scope, body, first, Nat.lt_of_lt_of_le hscope h.scopes, hfits,
    Nat.le_trans hvars h.vars, fun p'' hp => hat p'' (h.keeps.trans hp)⟩

/-! ### Sound tables -/

/-- The tables between the links of bodies. -/
structure Sound (p : Program) : Prop where
  stmts : ∀ i : StmtId, i.index < p.stmts.size →
    ∃ m m' : Mark, m.stmts ≤ i.index ∧ i.index < m'.stmts ∧ p.Placed m m'
  exprs : ∀ e : ExprId, e.index < p.exprs.size →
    ∃ m m' : Mark, m.exprs ≤ e.index ∧ e.index < m'.exprs ∧ p.Placed m m'
  gotos : ∀ i s target, p.stmt? i = some s → s.kind = .goto target → p.GotoFits i target
  functions : ∀ id f, p.function? id = some f → p.FunctionFits f
  scopes : ∀ i s, p.scope? i = some s → p.ScopeFits i s
  root : rootScope.index < p.scopes.size
  modules : ∀ m ∈ p.modules, m.scope.index < p.scopes.size ∧ p.BodyFits m.body
  iterables : p.iterables = [(Iterable.rangeType, Iterable.range)]

/-- Sound tables fit together. -/
theorem Sound.wellFormed {p : Program} (h : p.Sound)
    (entry : ∀ f, p.entry = some f → f.index < p.functions.size) : p.WellFormed := by
  have hfits : ∀ {m m' : Mark}, p.Placed m m' → p.FitsBetween m m' := by
    rintro m m' ⟨scope, body, first, hscope, hm, hv, hat⟩
    exact seqAt_fits hscope (hat p (.refl 0 p)) (around_none false m) hm hv
  refine ⟨fun i s hs => ?_, h.gotos, fun e x hx => ?_, h.functions, h.scopes, h.root, h.modules,
    entry, h.iterables⟩
  · obtain ⟨m, m', hi, hi', hp⟩ := h.stmts i (stmt?_isSome.1 ⟨s, hs⟩)
    exact (hfits hp).stmts i s hi hi' hs
  · obtain ⟨m, m', he, he', hp⟩ := h.exprs e (expr?_isSome.1 ⟨x, hx⟩)
    exact (hfits hp).exprs e x he he' hx

/-- Declarations keep tables sound: the statements and expressions stay, and what there is of the
other tables fits. -/
theorem Sound.declare {p p' : Program} (h : p.Sound) (hext : p.Extends p')
    (hstmts : p'.stmts = p.stmts) (hexprs : p'.exprs = p.exprs)
    (hfunctions : ∀ id f, p'.function? id = some f → p'.FunctionFits f)
    (hscopes : ∀ i s, p'.scope? i = some s → p'.ScopeFits i s)
    (hmodules : ∀ m ∈ p'.modules, m.scope.index < p'.scopes.size ∧ p'.BodyFits m.body)
    (hiterables : p'.iterables = p.iterables) : p'.Sound := by
  refine ⟨fun i hi => ?_, fun e he => ?_, fun i s target hs hk => ?_, hfunctions, hscopes,
    Nat.lt_of_lt_of_le h.root hext.scopes, hmodules, hiterables.trans h.iterables⟩
  · obtain ⟨m, m', hm, hm', hp⟩ := h.stmts i (hstmts ▸ hi)
    exact ⟨m, m', hm, hm', hp.mono hext⟩
  · obtain ⟨m, m', hm, hm', hp⟩ := h.exprs e (hexprs ▸ he)
    exact ⟨m, m', hm, hm', hp.mono hext⟩
  · have hs' : p.stmt? i = some s := by rw [← hs, Program.stmt?, Program.stmt?, hstmts]
    exact hext.keeps.places.gotoFits (h.gotos i s target hs' hk)

/-- Modules that fit go on to do so. -/
theorem Sound.modules_mono {p p' : Program} (h : p.Sound) (hext : p.Extends p') :
    ∀ m ∈ p.modules, m.scope.index < p'.scopes.size ∧ p'.BodyFits m.body := by
  intro m hm
  obtain ⟨hscope, hbody⟩ := h.modules m hm
  exact ⟨Nat.lt_of_lt_of_le hscope hext.scopes, hbody.mono hext⟩

end Program

/-! ### Sound states of the linker -/

/-- The state of the linker between the links of bodies. -/
structure Linker.Sound (l : Linker) : Prop where
  program : l.program.Sound
  labels : l.labels = []
  jumps : l.jumps = []
  fits : l.mark.Fits

/-- What declaring something or linking a body does to the state of the linker. -/
structure Linker.Leads (l l' : Linker) : Prop where
  sound : l'.Sound
  «extends» : l.program.Extends l'.program
  frames : l'.frames = l.frames
  entry : l'.program.entry = l.program.entry

namespace Linker

variable {l l' l'' : Linker}

theorem Leads.refl (h : l.Sound) : l.Leads l :=
  ⟨h, .refl _, rfl, rfl⟩

theorem Leads.trans (h : l.Leads l') (h' : l'.Leads l'') : l.Leads l'' :=
  ⟨h'.sound, h.extends.trans h'.extends, h'.frames.trans h.frames, h'.entry.trans h.entry⟩

/-- Frames that fit go on to do so. -/
theorem fits_mono (h : l.mark.Fits) (hf : l'.frames = l.frames)
    (hv : l.program.vars.size ≤ l'.program.vars.size) : l'.mark.Fits := by
  intro frame hframe b hb
  have hmem : frame ∈ l.frames := hf ▸ hframe
  exact Nat.lt_of_lt_of_le (h frame hmem b hb) hv

/-- Only the tables are changed by a declaration. -/
theorem Sound.leads_declare (h : l.Sound) {p : Program} (hext : l.program.Extends p)
    (hp : p.Sound) (hentry : p.entry = l.program.entry) : l.Leads { l with program := p } :=
  ⟨⟨hp, h.labels, h.jumps, fits_mono h.fits rfl hext.vars⟩, hext, rfl, hentry⟩

/-- In a frame of declared variables more. -/
theorem Sound.enter (h : l.Sound) {frame : List (String × VarId)}
    (hframe : ∀ b ∈ frame, b.2.index < l.program.vars.size) :
    Linker.Sound { l with frames := frame :: l.frames } := by
  refine ⟨h.program, h.labels, h.jumps, fun f hf b hb => ?_⟩
  rcases List.mem_cons.1 hf with rfl | hf
  · exact hframe b hb
  · exact h.fits f hf b hb

/-- Out of a frame of variables again. -/
theorem Leads.leave {frame : List (String × VarId)}
    (h : Linker.Leads { l with frames := frame :: l.frames } l') (hl : l.Sound) :
    l.Leads { l' with frames := l.frames } :=
  ⟨⟨h.sound.program, h.sound.labels, h.sound.jumps, fits_mono hl.fits rfl h.extends.vars⟩,
    h.extends, rfl, h.entry⟩

end Linker

namespace Link

variable {α : Type} {l l' : Linker}

/-! ### Declarations -/

theorem leads_pushVar (h : l.Sound) (name : String) : l.Leads (pushVar l name) := by
  have hext : l.program.Extends (pushVar l name).program :=
    ⟨⟨fun i s _ hs => ⟨s.kind, .refl _, hs⟩, fun _ _ hx => hx, fun _ f hf => ⟨f.body, hf⟩⟩,
      by simp [pushVar], Nat.le_refl _⟩
  exact h.leads_declare hext (h.program.declare hext rfl rfl
    (fun id f hf => (h.program.functions id f hf).mono hext)
    (fun i s hs => (h.program.scopes i s hs).mono hext) (h.program.modules_mono hext) rfl) rfl

theorem leads_pushScope (h : l.Sound) {parent : ScopeId}
    (hparent : parent.index < l.program.scopes.size) : l.Leads (pushScope l parent) := by
  have hext : l.program.Extends (pushScope l parent).program :=
    ⟨⟨fun i s _ hs => ⟨s.kind, .refl _, hs⟩, fun _ _ hx => hx, fun _ f hf => ⟨f.body, hf⟩⟩,
      Nat.le_refl _, by simp [pushScope]⟩
  refine h.leads_declare hext (h.program.declare hext rfl rfl
    (fun id f hf => (h.program.functions id f hf).mono hext) (fun i s hs => ?_)
    (h.program.modules_mono hext) rfl) rfl
  have hs' : (l.program.scopes.push ⟨some parent, []⟩)[i.index]? = some s := hs
  rw [Array.getElem?_push] at hs'
  split at hs'
  · rename_i hi
    cases hs'
    refine ⟨fun q hq => ?_, nofun⟩
    cases hq
    exact hi ▸ hparent
  · exact (h.program.scopes i s hs').mono hext

theorem leads_pushFunction (h : l.Sound) {f : Function} (hf : l.program.FunctionFits f) :
    l.Leads (pushFunction l f) ∧
      (⟨l.program.functions.size⟩ : FnId).index < (pushFunction l f).program.functions.size := by
  have hsize : (pushFunction l f).program.functions.size = l.program.functions.size + 1 := by
    simp [pushFunction]
  have hext : l.program.Extends (pushFunction l f).program := by
    refine ⟨⟨fun i s _ hs => ⟨s.kind, .refl _, hs⟩, fun _ _ hx => hx, fun id g hg => ?_⟩,
      Nat.le_refl _, by simp [pushFunction]⟩
    have hg' : (l.program.functions.push f)[id.index]? = some g := by
      rw [Array.getElem?_push, if_neg (Nat.ne_of_lt (Array.getElem?_eq_some_iff.1 hg).1)]
      exact hg
    exact ⟨g.body, hg'⟩
  refine ⟨h.leads_declare hext (h.program.declare hext rfl rfl (fun id g hg => ?_)
    (fun i s hs => ?_) (h.program.modules_mono hext) rfl) rfl,
    Nat.lt_of_lt_of_eq (Nat.lt_succ_self _) hsize.symm⟩
  · have hg' : (l.program.functions.push f)[id.index]? = some g := hg
    rw [Array.getElem?_push] at hg'
    split at hg'
    · cases hg'
      exact hf.mono hext
    · exact (h.program.functions id g hg').mono hext
  · have hs' : (l.program.scopes.modify f.scope.index fun s =>
        { s with functions := s.functions ++ [⟨l.program.functions.size⟩] })[i.index]? = some s :=
      hs
    rw [Array.getElem?_modify] at hs'
    split at hs'
    · obtain ⟨s₀, hs₀, rfl⟩ := Option.map_eq_some_iff.1 hs'
      have hfits := (h.program.scopes i s₀ hs₀).mono hext
      refine ⟨hfits.parent, fun g hg => ?_⟩
      rcases List.mem_append.1 hg with hg | hg
      · exact hfits.functions g hg
      · rw [List.mem_singleton.1 hg]
        exact Nat.lt_of_lt_of_eq (Nat.lt_succ_self _) hsize.symm
    · exact (h.program.scopes i s hs').mono hext

theorem leads_putBody (h : l.Sound) (id : FnId) {first : Option StmtId}
    (hfirst : l.program.BodyFits first) : l.Leads (putBody l id first) := by
  have hext : l.program.Extends (putBody l id first).program :=
    ⟨⟨fun i s _ hs => ⟨s.kind, .refl _, hs⟩, fun _ _ hx => hx,
        fun j f hf => exists_putBody hf id first⟩,
      Nat.le_refl _, Nat.le_refl _⟩
  refine h.leads_declare hext (h.program.declare hext rfl rfl (fun j f hf => ?_)
    (fun i s hs => (h.program.scopes i s hs).mono hext) (h.program.modules_mono hext) rfl) rfl
  have hf' : (l.program.functions.modify id.index fun f =>
      { f with body := .code first })[j.index]? = some f := hf
  rw [Array.getElem?_modify] at hf'
  split at hf'
  · obtain ⟨f₀, hf₀, rfl⟩ := Option.map_eq_some_iff.1 hf'
    have hfits := (h.program.functions j f₀ hf₀).mono hext
    refine ⟨hfits.scope, hfits.params, fun first' hb => ?_⟩
    cases hb
    exact hfirst.mono hext
  · exact (h.program.functions j f hf').mono hext

/-! ### Bodies -/

/-- **Linking a body** keeps the tables sound. -/
theorem leads_body (h : l.Sound) {scope : ScopeId} (hscope : scope.index < l.program.scopes.size)
    {ss : List Source.Stmt} {first : Option StmtId} (hx : (body scope ss).Gives l first l') :
    l.Leads l' ∧ l'.program.BodyFits first := by
  have hframes : l'.labels = l.labels ∧ l'.jumps = l.jumps := by
    obtain ⟨_, _, -, -, rfl⟩ := gives_withBody hx
    exact ⟨rfl, rfl⟩
  obtain ⟨⟨hgrows, hcons⟩, m', hmark, hat⟩ := body_placed hx
  have hext := hgrows.extends
  have hplaced : l'.program.Placed (l.mark.enter []) m' :=
    ⟨scope, ss, first, Nat.lt_of_lt_of_le hscope hext.scopes, (l.mark.follows_enter).fits h.fits,
      Nat.le_of_eq (congrArg Mark.vars hmark).symm, hat⟩
  have hrest := hgrows.rest
  have hsound : l'.program.Sound := by
    refine ⟨fun i hi => ?_, fun e he => ?_, fun i s target hs hk => ?_, fun id f hf => ?_,
      fun i s hs => ?_, Nat.lt_of_lt_of_le h.program.root hext.scopes, fun m hm => ?_, ?_⟩
    · by_cases hlt : i.index < l.program.stmts.size
      · obtain ⟨m, m', hm, hm', hp⟩ := h.program.stmts i hlt
        exact ⟨m, m', hm, hm', hp.mono hext⟩
      · have hi' : i.index < m'.stmts := Nat.lt_of_lt_of_eq hi (congrArg Mark.stmts hmark)
        exact ⟨_, _, Nat.le_of_not_lt hlt, hi', hplaced⟩
    · by_cases hlt : e.index < l.program.exprs.size
      · obtain ⟨m, m', hm, hm', hp⟩ := h.program.exprs e hlt
        exact ⟨m, m', hm, hm', hp.mono hext⟩
      · have he' : e.index < m'.exprs := Nat.lt_of_lt_of_eq he (congrArg Mark.exprs hmark)
        exact ⟨_, _, Nat.le_of_not_lt hlt, he', hplaced⟩
    · -- No jump waits any more, neither here nor further out.
      have hc := hcons (fun _ => False) ⟨by simp [h.labels], by simp [h.jumps],
        fun i s t hs hk => .inl (h.program.gotos i s t hs hk)⟩
      rcases hc.goto i s target hs hk with hfit | ⟨b, hb, -⟩ | hout
      · exact hfit
      · rw [hframes.2, h.jumps] at hb
        cases hb
      · exact hout.elim
    · exact (h.program.functions id f (by rw [← hf, hrest]; rfl)).mono hext
    · exact (h.program.scopes i s (by rw [← hs, hrest]; rfl)).mono hext
    · exact h.program.modules_mono hext m (by rw [hrest] at hm; exact hm)
    · rw [hrest]
      exact h.program.iterables
  have hl'frames : l'.frames = l.frames := congrArg Mark.frames hmark
  exact ⟨⟨⟨hsound, hframes.1.trans h.labels, hframes.2.trans h.jumps,
    Linker.fits_mono h.fits hl'frames hext.vars⟩, hext, hl'frames, by rw [hrest]⟩,
    (Program.seqAt_head (hat _ (.refl 0 _))).bodyFits⟩

end Link

end TreeMachine
