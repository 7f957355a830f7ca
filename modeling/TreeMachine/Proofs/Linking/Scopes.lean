import Mathlib.Data.List.Forall2
import TreeMachine.Proofs.Linking.Numbers
import TreeMachine.Proofs.Tree.Sequences

/-!
# Scopes of linked programs

The functions that are visible in a scope are those of the scope and of the scopes around it. Their
names are a list that is fixed before any body inside the scope is linked (`Program.Shows`): all
functions of a scope are declared at once (`Link.declares_mapM_declareFunction`), and linking leaves
the scopes that there are as they are (`Program.KeepsScopes`).

The list has the names with repetitions, innermost scope first. How often a name is in the list is
the number of functions that are visible under it (`Program.Shows.visible_length`), and this is all
that resolving a name depends on: one candidate is the answer, and any other number is an error that
reports the number. A name that is declared in two scopes, one inside the other, is therefore
ambiguous in the inner one; nothing is shadowed.

Declaring a function changes the last scope of the table only, and it is over before anything else
happens, so what is kept is said in two ways. While functions are being declared, the scopes other
than the new one are kept, and all functions (`Link.DeclaresIn`). When bodies are linked, all scopes
are kept, and functions up to their bodies (`Link.Retains`). The primitives are declared in the
outermost scope from the start (`Program.base_shows`).
-/

namespace TreeMachine

namespace Program

variable {p p' p'' : Program}

/-! ### Visible names -/

/-- Functions are found, and have the given names. -/
def Declares (p : Program) (functions : List FnId) (names : List String) : Prop :=
  functions.map (fun f => (p.function? f).map Function.name) = names.map some

/-- The names of the functions that are visible in a scope: those of the scope itself, then those of
the scopes around it. -/
inductive Shows (p : Program) : ScopeId → List String → Prop
  | outermost {i : ScopeId} {s : Scope} {names : List String} : p.scope? i = some s →
      s.parent = none → p.Declares s.functions names → p.Shows i names
  | inside {i outer : ScopeId} {s : Scope} {names visible : List String} :
      p.scope? i = some s → s.parent = some outer → outer.index < i.index →
      p.Declares s.functions names → p.Shows outer visible → p.Shows i (names ++ visible)

/-- As many functions of a name are declared as the name is declared. -/
theorem Declares.count {functions : List FnId} {names : List String}
    (h : p.Declares functions names) (name : String) :
    (functions.filter fun f => (p.function? f).any fun f => f.name == name).length =
      names.count name := by
  induction functions generalizing names with
  | nil =>
    obtain rfl := List.map_eq_nil_iff.1 h.symm
    rfl
  | cons f functions ih =>
    cases names with
    | nil => cases h
    | cons other names =>
      rw [Declares, List.map_cons, List.map_cons, List.cons.injEq] at h
      obtain ⟨hf, hrest⟩ := h
      obtain ⟨g, hg, rfl⟩ := Option.map_eq_some_iff.1 hf
      rw [List.filter_cons, List.count_cons, hg, Option.any_some, ← ih hrest]
      split <;> rfl

theorem Shows.index_lt {i : ScopeId} {names : List String} (h : p.Shows i names) :
    i.index < p.scopes.size := by
  cases h with
  | outermost hs _ _ => exact (Array.getElem?_eq_some_iff.1 hs).1
  | inside hs _ _ _ _ => exact (Array.getElem?_eq_some_iff.1 hs).1

/-- **Visible functions.** As many functions of a name are visible in a scope as the name is among
the visible ones. -/
theorem Shows.visible_length {i : ScopeId} {names : List String} (h : p.Shows i names)
    (name : String) : (p.visible i name).length = names.count name := by
  -- The number of scopes that are looked at does not matter if it is large enough.
  have hchain : ∀ {i names}, p.Shows i names → ∀ count, i.index < count →
      ((p.scopeChain count (some i)).flatMap (p.named name)).length = names.count name := by
    intro i names h
    induction h with
    | outermost hs hparent hnames =>
      rintro (_ | count) hcount
      · cases hcount
      · rw [scopeChain, hs, Option.bind_some, hparent, scopeChain.eq_def]
        cases count <;> simp [named, hs, hnames.count name]
    | inside hs hparent hlt hnames _ ih =>
      rintro (_ | count) hcount
      · cases hcount
      · rw [scopeChain, hs, Option.bind_some, hparent, List.flatMap_cons, List.length_append,
          List.count_append, ih count (by omega), named, hs]
        exact congrArg (· + _) (hnames.count name)
  exact hchain h _ h.index_lt

/-! ### Scopes that are kept -/

/-- The scopes stay what they are, and new ones are inside others. Functions keep all but their
bodies. -/
structure KeepsScopes (p p' : Program) : Prop where
  scopes : ∀ i s, p.scope? i = some s → p'.scope? i = some s
  inside : ∀ i s, p.scopes.size ≤ i.index → p'.scope? i = some s → s.parent ≠ none
  functions : ∀ id f, p.function? id = some f →
    ∃ body, p'.function? id = some { f with body := body }

theorem scope?_isSome {i : ScopeId} : (∃ s, p.scope? i = some s) ↔ i.index < p.scopes.size :=
  ⟨fun ⟨_, h⟩ => (Array.getElem?_eq_some_iff.1 h).1, fun h => ⟨_, Array.getElem?_eq_getElem h⟩⟩

theorem KeepsScopes.of_eq (hscopes : p'.scopes = p.scopes)
    (hfunctions : ∀ id f, p.function? id = some f →
      ∃ body, p'.function? id = some { f with body := body }) : p.KeepsScopes p' := by
  refine ⟨fun i s hs => ?_, fun i s hi hs => ?_, hfunctions⟩
  · rw [scope?, hscopes]
    exact hs
  · rw [scope?, hscopes] at hs
    exact absurd (scope?_isSome.1 ⟨s, hs⟩) (Nat.not_lt.2 hi)

theorem KeepsScopes.refl (p : Program) : p.KeepsScopes p :=
  .of_eq rfl fun _ f h => ⟨f.body, h⟩

theorem KeepsScopes.trans (h : p.KeepsScopes p') (h' : p'.KeepsScopes p'') : p.KeepsScopes p'' := by
  refine ⟨fun i s hs => h'.scopes i s (h.scopes i s hs), fun i s hi hs => ?_, fun id f hf => ?_⟩
  · by_cases hlt : i.index < p'.scopes.size
    · obtain ⟨s', hs'⟩ := scope?_isSome.2 hlt
      cases (h'.scopes i s' hs').symm.trans hs
      exact h.inside i s hi hs'
    · exact h'.inside i s (Nat.le_of_not_lt hlt) hs
  · obtain ⟨body, hf'⟩ := h.functions id f hf
    obtain ⟨body', hf''⟩ := h'.functions id _ hf'
    exact ⟨body', hf''⟩

theorem Grows.keepsScopes (h : p.Grows p') : p.KeepsScopes p' := by
  rw [h.rest]
  exact .of_eq rfl fun _ f h => ⟨f.body, h⟩

/-! ### Statements that are kept -/

/-- Statements and expressions are kept, and so are the targets of jumps. -/
structure Persists (p p' : Program) : Prop where
  keeps : p.Keeps 0 p'
  targets : ∀ i, p.KeepsTarget p' i

theorem Persists.refl (p : Program) : p.Persists p :=
  ⟨.refl 0 p, fun _ => keepsTarget_of_eq rfl⟩

theorem Persists.trans (h : p.Persists p') (h' : p'.Persists p'') : p.Persists p'' :=
  ⟨h.keeps.trans h'.keeps, fun i => (h.targets i).trans (h'.targets i)⟩

theorem Persists.of_eq (hstmts : p'.stmts = p.stmts) (hexprs : p'.exprs = p.exprs)
    (hfunctions : ∀ id f, p.function? id = some f →
      ∃ body, p'.function? id = some { f with body := body }) : p.Persists p' := by
  have hstmt : ∀ i, p'.stmt? i = p.stmt? i := fun i => by rw [stmt?, stmt?, hstmts]
  refine ⟨⟨fun i s _ hs => ⟨s.kind, .refl _, (hstmt i).trans hs⟩, fun e x hx => ?_, hfunctions⟩,
    fun i => keepsTarget_of_eq (hstmt i)⟩
  rw [expr?, hexprs]
  exact hx

/-! ### Names that are kept -/

theorem Declares.mono (hp : p.KeepsScopes p') {functions : List FnId} {names : List String}
    (h : p.Declares functions names) : p'.Declares functions names := by
  induction functions generalizing names with
  | nil => exact h
  | cons f functions ih =>
    cases names with
    | nil => cases h
    | cons name names =>
      rw [Declares, List.map_cons, List.map_cons, List.cons.injEq] at h ⊢
      obtain ⟨hf, hrest⟩ := h
      obtain ⟨g, hg, rfl⟩ := Option.map_eq_some_iff.1 hf
      obtain ⟨body, hg'⟩ := hp.functions f g hg
      exact ⟨by rw [hg']; rfl, ih hrest⟩

theorem Shows.mono (hp : p.KeepsScopes p') {i : ScopeId} {names : List String}
    (h : p.Shows i names) : p'.Shows i names := by
  induction h with
  | outermost hs hparent hnames => exact .outermost (hp.scopes _ _ hs) hparent (hnames.mono hp)
  | inside hs hparent hlt hnames _ ih =>
    exact .inside (hp.scopes _ _ hs) hparent hlt (hnames.mono hp) ih

/-- The primitives are visible in the root scope. -/
theorem base_shows : base.Shows rootScope (Primitive.all.map Primitive.name) :=
  .outermost (s := ⟨none, (List.range Primitive.all.length).map FnId.mk⟩) rfl rfl rfl

end Program

/-! ### Declaring functions -/

namespace Link

variable {l l' : Linker}

theorem exists_of_forall₂ {α β : Type} {R : α → β → Prop} {xs : List α} {ys : List β}
    (h : List.Forall₂ R xs ys) {x : α} (hx : x ∈ xs) : ∃ y, R x y := by
  induction h with
  | nil => cases hx
  | cons hxy _ ih =>
    rcases List.mem_cons.1 hx with rfl | hx
    · exact ⟨_, hxy⟩
    · exact ih hx

/-- A function has the name, the number of parameters and the scope that it has in a definition. -/
def Implements (p : Program) (scope : ScopeId) (id : FnId) (f : Source.Function) : Prop :=
  ∃ params body, p.function? id = some ⟨f.name, params, body, scope⟩ ∧
    params.length = f.params.length

theorem Implements.mono {p p' : Program} (hp : p.KeepsScopes p') {scope : ScopeId} {id : FnId}
    {f : Source.Function} (h : Implements p scope id f) : Implements p' scope id f := by
  obtain ⟨params, body, hf, hlength⟩ := h
  obtain ⟨body', hf'⟩ := hp.functions id _ hf
  exact ⟨params, body', hf', hlength⟩

/-- A function of a definition, before its body is linked. -/
def IsDeclared (p : Program) (scope : ScopeId) (id : FnId) (f : Source.Function) : Prop :=
  ∃ params, p.function? id = some ⟨f.name, params, .code none, scope⟩ ∧
    params.length = f.params.length

theorem IsDeclared.implements {p : Program} {scope : ScopeId} {id : FnId} {f : Source.Function}
    (h : IsDeclared p scope id f) : Implements p scope id f := by
  obtain ⟨params, hf, hlength⟩ := h
  exact ⟨params, _, hf, hlength⟩

/-- Functions are declared in a scope: the other scopes and the functions that there are stay as
they are, and no body is recorded. -/
structure DeclaresIn (scope : ScopeId) (l l' : Linker) : Prop where
  functions : ∀ id f, l.program.function? id = some f → l'.program.function? id = some f
  size : l.program.functions.size ≤ l'.program.functions.size
  firsts : l'.program.functionFirsts = l.program.functionFirsts
  others : ∀ i, i ≠ scope → l'.program.scope? i = l.program.scope? i
  rest : l' = { l with
    program := { l.program with
      vars := l'.program.vars, functions := l'.program.functions, scopes := l'.program.scopes } }

theorem DeclaresIn.refl (scope : ScopeId) (l : Linker) : DeclaresIn scope l l :=
  ⟨fun _ _ h => h, Nat.le_refl _, rfl, fun _ _ => rfl, rfl⟩

theorem DeclaresIn.trans {scope : ScopeId} {l'' : Linker} (h : DeclaresIn scope l l')
    (h' : DeclaresIn scope l' l'') : DeclaresIn scope l l'' where
  functions id f hf := h'.functions id f (h.functions id f hf)
  size := Nat.le_trans h.size h'.size
  firsts := h'.firsts.trans h.firsts
  others i hi := (h'.others i hi).trans (h.others i hi)
  rest := by
    have hrest := h'.rest
    rw [h.rest] at hrest
    exact hrest

/-- Parameters are variables that no frame has yet. -/
theorem gives_mapM_addVar {names : List String} {ids : List VarId}
    (h : (names.mapM addVar).Gives l ids l') : ids.length = names.length ∧
      ∃ vars, l' = { l with program := { l.program with vars := vars } } := by
  induction names generalizing l ids with
  | nil =>
    obtain ⟨rfl, rfl⟩ := gives_pure.1 (show (pure [] : Link _).Gives l ids l' from h)
    exact ⟨rfl, _, rfl⟩
  | cons name names ih =>
    simp only [List.mapM_cons, gives_bind, gives_addVar, gives_pure] at h
    obtain ⟨_, _, ⟨rfl, rfl⟩, rest, _, hrest, rfl, rfl⟩ := h
    obtain ⟨hlength, vars, rfl⟩ := ih hrest
    exact ⟨congrArg Nat.succ hlength, vars, rfl⟩

theorem function?_pushFunction (l : Linker) (f : Function) (id : FnId) :
    (pushFunction l f).program.function? id =
      if id = ⟨l.program.functions.size⟩ then some f else l.program.function? id := by
  rcases id with ⟨id⟩
  simp only [Program.function?, pushFunction, Array.getElem?_push, FnId.mk.injEq]

theorem scope?_pushFunction (l : Linker) (f : Function) (i : ScopeId) :
    (pushFunction l f).program.scope? i =
      if i = f.scope then (l.program.scope? i).map fun s =>
        { s with functions := s.functions ++ [⟨l.program.functions.size⟩] }
      else l.program.scope? i := by
  rcases i with ⟨i⟩
  obtain ⟨name, params, body, ⟨scope⟩⟩ := f
  simp only [Program.scope?, pushFunction, Array.getElem?_modify, ScopeId.mk.injEq]
  by_cases h : i = scope
  · simp [h]
  · simp [h, Ne.symm h]

/-- **Declaring a function** puts it behind those that its scope has already. -/
theorem declares_declareFunction {scope : ScopeId} {s : Scope} {f : Source.Function} {id : FnId}
    (hs : l.program.scope? scope = some s) (h : (declareFunction scope f).Gives l id l') :
    DeclaresIn scope l l' ∧ id = ⟨l.program.functions.size⟩ ∧ IsDeclared l'.program scope id f ∧
      l'.program.scope? scope = some { s with functions := s.functions ++ [id] } := by
  simp only [declareFunction, gives_bind, gives_addFunction] at h
  obtain ⟨params, l₁, hparams, rfl, rfl⟩ := h
  obtain ⟨hlength, vars, rfl⟩ := gives_mapM_addVar hparams
  refine ⟨⟨fun id g hg => ?_, ?_, ?_, fun i hi => ?_, rfl⟩, rfl, ⟨params, ?_, hlength⟩, ?_⟩
  · rw [function?_pushFunction, if_neg, ← hg]
    · rfl
    · rintro rfl
      exact absurd (Array.getElem?_eq_some_iff.1 hg).1 (Nat.lt_irrefl _)
  · simp [pushFunction]
  · simp [Program.functionFirsts, pushFunction, FnBody.first]
  · rw [scope?_pushFunction, if_neg hi]
    rfl
  · rw [function?_pushFunction, if_pos rfl]
  · rw [scope?_pushFunction, if_pos rfl]
    exact congrArg (Option.map _) hs

/-- **Declaring the functions of a scope**, in order. They are new, and each is another one. -/
theorem declares_mapM_declareFunction {scope : ScopeId} {s : Scope} {fs : List Source.Function}
    {ids : List FnId} (hs : l.program.scope? scope = some s)
    (h : (fs.mapM (declareFunction scope)).Gives l ids l') :
    DeclaresIn scope l l' ∧ (∀ id ∈ ids, l.program.functions.size ≤ id.index) ∧ ids.Nodup ∧
      List.Forall₂ (IsDeclared l'.program scope) ids fs ∧
        l'.program.scope? scope = some { s with functions := s.functions ++ ids } := by
  induction fs generalizing l ids s with
  | nil =>
    obtain ⟨rfl, rfl⟩ := gives_pure.1 (show (pure [] : Link _).Gives l ids l' from h)
    exact ⟨.refl scope _, nofun, .nil, .nil, by rw [hs, List.append_nil]⟩
  | cons f fs ih =>
    simp only [List.mapM_cons, gives_bind, gives_pure] at h
    obtain ⟨id, l₁, hid, rest, l₂, hrest, rfl, rfl⟩ := h
    obtain ⟨hin, rfl, ⟨params, hf, hlength⟩, hs₁⟩ := declares_declareFunction hs hid
    obtain ⟨hin', hnew, hdistinct, hall, hs₂⟩ := ih hs₁ hrest
    have hlt : l.program.functions.size < l₁.program.functions.size :=
      (Array.getElem?_eq_some_iff.1 hf).1
    refine ⟨hin.trans hin', List.forall_mem_cons.2 ⟨Nat.le_refl _, fun id hid => ?_⟩,
      List.nodup_cons.2 ⟨fun hmem => ?_, hdistinct⟩,
      .cons ⟨params, hin'.functions _ _ hf, hlength⟩ hall, ?_⟩
    · exact Nat.le_trans (Nat.le_of_lt hlt) (hnew id hid)
    · exact absurd (hnew _ hmem) (Nat.not_le.2 hlt)
    · rw [hs₂, List.append_assoc]
      rfl

theorem declares_of_declared {p : Program} {scope : ScopeId} {ids : List FnId}
    {fs : List Source.Function} (h : List.Forall₂ (IsDeclared p scope) ids fs) :
    p.Declares ids (fs.map Source.Function.name) := by
  induction h with
  | nil => rfl
  | cons hf _ ih =>
    obtain ⟨params, hf, -⟩ := hf
    rw [Program.Declares, List.map_cons, List.map_cons, List.map_cons, hf]
    exact congrArg _ ih

/-- What there is after a scope and its functions have been declared inside another scope. -/
structure Opens (outer : ScopeId) (fs : List Source.Function) (l : Linker) (ids : List FnId)
    (l' : Linker) : Prop where
  keeps : l.program.KeepsScopes l'.program
  declares : DeclaresIn ⟨l.program.scopes.size⟩ (pushScope l outer) l'
  new : ∀ id ∈ ids, l.program.functions.size ≤ id.index
  distinct : ids.Nodup
  functions : List.Forall₂ (IsDeclared l'.program ⟨l.program.scopes.size⟩) ids fs
  scope : l'.program.scope? ⟨l.program.scopes.size⟩ = some ⟨some outer, ids⟩

/-- **Opening a scope** with its functions keeps the other scopes. -/
theorem opens_mapM_declareFunction {outer : ScopeId} {fs : List Source.Function} {ids : List FnId}
    (h : (fs.mapM (declareFunction ⟨l.program.scopes.size⟩)).Gives (pushScope l outer) ids l') :
    Opens outer fs l ids l' := by
  have hnew : (pushScope l outer).program.scope? ⟨l.program.scopes.size⟩ = some ⟨some outer, []⟩ :=
    Array.getElem?_push_size
  obtain ⟨hin, hids, hdistinct, hall, hs⟩ := declares_mapM_declareFunction hnew h
  refine ⟨⟨fun i s hi => ?_, fun i s hi hs' => ?_, fun id f hf => ⟨f.body, hin.functions id f hf⟩⟩,
    hin, hids, hdistinct, hall, hs⟩
  · have hlt := Program.scope?_isSome.1 ⟨s, hi⟩
    have hne : i ≠ ⟨l.program.scopes.size⟩ := by
      rintro rfl
      exact Nat.lt_irrefl _ hlt
    rw [hin.others i hne, ← hi]
    exact (Array.getElem?_push_lt hlt).trans (Array.getElem?_eq_getElem hlt).symm
  · -- The scope itself is the only new one.
    by_cases hne : i = ⟨l.program.scopes.size⟩
    · subst hne
      cases hs.symm.trans hs'
      exact nofun
    · rw [hin.others i hne] at hs'
      have hlt : i.index < l.program.scopes.size + 1 :=
        Nat.lt_of_lt_of_eq (Program.scope?_isSome.1 ⟨s, hs'⟩) (by simp [pushScope])
      refine absurd ?_ hne
      rcases i with ⟨i⟩
      exact congrArg ScopeId.mk (Nat.le_antisymm (Nat.le_of_lt_succ hlt) hi)

/-- A scope shows its functions before those that are visible outside. -/
theorem Opens.shows {outer : ScopeId} {fs : List Source.Function} {ids : List FnId}
    (h : Opens outer fs l ids l') {visible : List String} (houter : l.program.Shows outer visible) :
    l'.program.Shows ⟨l.program.scopes.size⟩ (fs.map Source.Function.name ++ visible) :=
  .inside h.scope rfl houter.index_lt (declares_of_declared h.functions) (houter.mono h.keeps)

/-! ### Linking bodies -/

/-- Linking bodies keeps the statements, the scopes, the modules and the frames of variables, and
leaves no jump waiting. -/
structure Retains (l l' : Linker) : Prop where
  persists : l.program.Persists l'.program
  scopes : l.program.KeepsScopes l'.program
  modules : l'.program.modules = l.program.modules
  frames : l'.frames = l.frames
  jumps : l'.jumps = l.jumps

theorem Retains.refl (l : Linker) : Retains l l :=
  ⟨.refl _, .refl _, rfl, rfl, rfl⟩

theorem Retains.trans {l'' : Linker} (h : Retains l l') (h' : Retains l' l'') : Retains l l'' :=
  ⟨h.persists.trans h'.persists, h.scopes.trans h'.scopes, h'.modules.trans h.modules,
    h'.frames.trans h.frames, h'.jumps.trans h.jumps⟩

theorem Opens.retains {outer : ScopeId} {fs : List Source.Function} {ids : List FnId}
    (h : Opens outer fs l ids l') : Retains l l' := by
  refine ⟨?_, h.keeps, ?_, ?_, ?_⟩
  · refine .of_eq ?_ ?_ fun id f hf => ⟨f.body, h.declares.functions id f hf⟩
    all_goals
      rw [h.declares.rest]
      rfl
  all_goals
    rw [h.declares.rest]
    rfl

/-- Out of a frame of variables again. -/
theorem Retains.leave {fs : List (List (String × VarId))}
    (h : Retains { l with frames := fs } l') : Retains l { l' with frames := l.frames } :=
  ⟨h.persists, h.scopes, h.modules, rfl, h.jumps⟩

theorem retains_body {scope : ScopeId} {ss : List Source.Stmt} {first : Option StmtId}
    (h : (body scope ss).Gives l first l') : Retains l l' := by
  obtain ⟨hadv, _, hmark, -⟩ := body_placed h
  have heffect := effect_body 0 h
  exact ⟨⟨hadv.1.keeps, heffect.targets⟩, hadv.1.keepsScopes, by rw [hadv.1.rest],
    congrArg Mark.frames hmark, heffect.jumps⟩

theorem retains_putBody (l : Linker) (id : FnId) (first : Option StmtId) :
    Retains l (putBody l id first) := by
  have hfunctions := fun j f hf => exists_putBody (l := l) (j := j) (f := f) hf id first
  exact ⟨.of_eq rfl rfl hfunctions, .of_eq rfl hfunctions, rfl, rfl, rfl⟩

mutual

theorem retains_function : ∀ {f : Source.Function} {outer : ScopeId} {id : FnId} {l l' : Linker}
    {u : Unit}, (function outer id f).Gives l u l' → Retains l l'
  | .mk _ _ functions ss, outer, id, l, l', u, h => by
    obtain ⟨inner, l₁, first, l₂, l₃, hinner, hbody, hseq, rfl⟩ := gives_function h
    have hopens := (opens_mapM_declareFunction hinner).retains
    have hbodies := ((retains_body hbody).trans (retains_putBody l₂ id first)).trans
      (retains_functionSeq hseq)
    exact hopens.trans hbodies.leave

theorem retains_functionSeq : ∀ {fs : List Source.Function} {outer : ScopeId} {ids : List FnId}
    {l l' : Linker} {u : Unit}, (functionSeq outer ids fs).Gives l u l' → Retains l l'
  | [], outer, ids, l, l', u, h => by
    simp only [functionSeq, gives_pure] at h
    obtain ⟨-, rfl⟩ := h
    exact .refl _
  | f :: fs, outer, [], l, l', u, h => by
    simp only [functionSeq, gives_pure] at h
    obtain ⟨-, rfl⟩ := h
    exact .refl _
  | f :: fs, outer, id :: ids, l, l', u, h => by
    simp only [functionSeq, gives_bind] at h
    obtain ⟨_, l₁, hf, hfs⟩ := h
    exact (retains_function hf).trans (retains_functionSeq hfs)

end

/-! ### Linking modules -/

theorem persists_pushModule (l : Linker) (m : Module) :
    l.program.Persists (pushModule l m).program :=
  .of_eq rfl rfl fun _ f h => ⟨f.body, h⟩

theorem keepsScopes_pushModule (l : Linker) (m : Module) :
    l.program.KeepsScopes (pushModule l m).program :=
  .of_eq rfl fun _ f h => ⟨f.body, h⟩

/-- **Linking a module** declares its functions in a scope of its own, which is that of the module.
The module is added last. -/
theorem retains_module {m : Source.Module} {ids : List FnId} (h : (module m).Gives l ids l') :
    ∃ l₁ first scope, Retains l l₁ ∧ List.Forall₂ (Implements l₁.program scope) ids m.functions ∧
      l' = pushModule l₁ ⟨m.name, first, scope⟩ := by
  obtain ⟨l₁, first, l₂, l₃, hids, hbody, hseq, rfl⟩ := gives_module h
  have hopens := opens_mapM_declareFunction hids
  have hbodies := ((retains_body hbody).trans (retains_functionSeq hseq)).leave
  exact ⟨_, first, ⟨l.program.scopes.size⟩, hopens.retains.trans hbodies,
    hopens.functions.imp fun id f hf => hf.implements.mono hbodies.scopes, rfl⟩

end Link

end TreeMachine
