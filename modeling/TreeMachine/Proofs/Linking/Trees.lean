import TreeMachine.Proofs.Linking.Modules

/-!
# Linked bodies, functions and modules are those of the definition

What has been put between two marks is the tree of its part of the definition
(`Program.BodyAt.seqOf`, `Program.functionAt_of`, `Program.ModuleAt.moduleOf`). What is led to is
counted along: a function records the first statement of its body once, when the body is linked, and
so does a module (`Link.function_adds`, `Link.module_adds`).

The trees can be read off the marks, so there the linker does not occur. The counts cannot. A first
statement that is recorded by a function is not between any marks, and the table of functions is
changed in two steps, when a function is declared and when its body is set. So the count goes step
by step through the linker (`Program.Adds`): some sequences are added, which need their first
statements to be recorded, and some first statements are recorded. For a function and for a module
as a whole the two balance.

What a step adds is counted in any later program that keeps it, since the successors and kinds of
its statements are final by then.
-/

namespace TreeMachine

open Source (Sequence)

namespace Program

variable {p p' p'' : Program} {qs qs' : List Sequence}
  {needed needed' given given' : StmtId → Nat}

/-! ### Trees -/

/-- **A body** between two marks is the tree of its statements. -/
theorem BodyAt.seqOf {scope : ScopeId} {visible : List String} {ss : List Source.Stmt}
    {m m' : Mark} {first : Option StmtId} (h : p.BodyAt scope visible ss m m' first) :
    p.SeqOf none scope ss first := by
  obtain ⟨_, hat, -⟩ := h.placed
  exact (seqAt_tally hat h.jumps).1

mutual

/-- **A function** between two marks is that of the definition. -/
theorem functionAt_of : ∀ {f : Source.Function} {outer : ScopeId} {visible : List String}
    {id : FnId} {m m' : Mark}, p.FunctionAt outer visible f id m m' → p.FunctionOf outer f id
  | .mk .., _, _, _, _, _, ⟨xs, first, scope, ids, _, _, _, hf, hlength, hscope, hbody, hinner,
      _⟩ =>
    ⟨xs, first, scope, ids, hf, hlength, hscope.found, hbody.seqOf, functionsAt_of hinner⟩

theorem functionsAt_of : ∀ {fs : List Source.Function} {scope : ScopeId} {visible : List String}
    {ids : List FnId} {m m' : Mark}, p.FunctionsAt scope visible fs ids m m' →
      p.FunctionsOf scope fs ids
  | [], _, _, _, _, _, ⟨hids, _⟩ => hids
  | _ :: _, _, _, _, _, _, ⟨id, rest, _, hids, hf, hfs⟩ =>
    ⟨id, rest, hids, functionAt_of hf, functionsAt_of hfs⟩

end

/-- **A module** between two marks is that of the definition. -/
theorem ModuleAt.moduleOf {visible : List String} {d : Source.Module} {d' : Module} {m m' : Mark}
    (h : p.ModuleAt visible d d' m m') : p.ModuleOf d d' := by
  obtain ⟨ids, _, _, _, hname, hscope, hbody, hfunctions, -⟩ := h
  exact ⟨ids, hname, hscope.found, hbody.seqOf, functionsAt_of hfunctions⟩

theorem modulesAt_of {visible : List String} {ds : List Source.Module} {ds' : List Module}
    {m m' : Mark} (h : p.ModulesAt visible ds ds' m m') : List.Forall₂ p.ModuleOf ds ds' := by
  induction ds generalizing ds' m with
  | nil =>
    obtain ⟨rfl, -⟩ := h
    exact .nil
  | cons d ds ih =>
    obtain ⟨d', rest, _, rfl, hd, hds⟩ := h
    exact .cons hd.moduleOf (ih hds)

/-! ### What is led to -/

/-- The first statements of bodies that functions and modules record. -/
def outerFirsts (p : Program) : List StmtId :=
  p.functionFirsts ++ p.moduleFirsts

/-- The statements and expressions that are added to a program are those of some sequences, and they
need some first statements to be recorded outside. Functions and modules are given some. -/
structure Adds (p p' : Program) (qs : List Sequence) (needed given : StmtId → Nat) : Prop where
  tally : ∀ p'', p'.Persists p'' → ∃ size, p''.Tally p.stmts.size p.exprs.size p'.stmts.size
    p'.exprs.size size qs needed (fun _ => 0) fun _ => 0
  firsts : ∀ c, p'.outerFirsts.count c = p.outerFirsts.count c + given c

theorem Adds.trans (h : p.Adds p' qs needed given) (h' : p'.Adds p'' qs' needed' given')
    (hp : p'.Persists p'') : p.Adds p'' (qs ++ qs') (fun c => needed c + needed' c)
      fun c => given c + given' c where
  tally p₀ hp₀ := by
    obtain ⟨_, htally⟩ := h.tally p₀ (hp.trans hp₀)
    obtain ⟨_, htally'⟩ := h'.tally p₀ hp₀
    exact ⟨_, htally.trans htally'⟩
  firsts c := by rw [h'.firsts, h.firsts, Nat.add_assoc]

/-- A step that adds no statement and no expression. -/
theorem Adds.of_eq (hstmts : p'.stmts = p.stmts) (hexprs : p'.exprs = p.exprs)
    (hgiven : ∀ c, p'.outerFirsts.count c = p.outerFirsts.count c + given c) :
    p.Adds p' [] (fun _ => 0) given where
  tally p₀ _ := ⟨0, by rw [hstmts, hexprs]; exact .refl p₀ _ _⟩
  firsts := hgiven

end Program

namespace Link

variable {l l' l'' : Linker}

/-- A body adds its statements, and needs the first of them to be recorded. -/
theorem body_adds {scope : ScopeId} {ss : List Source.Stmt} {first : Option StmtId}
    (h : (body scope ss).Gives l first l') (hjumps : l.jumps = []) :
    l.program.Adds l'.program (Source.bodySequences ss) (fun c => first.toList.count c)
      fun _ => 0 := by
  obtain ⟨⟨hgrows, -⟩, m, hmark, hat⟩ := body_placed h
  have hstmts : l'.program.stmts.size = m.stmts := congrArg Mark.stmts hmark
  have hexprs : l'.program.exprs.size = m.exprs := congrArg Mark.exprs hmark
  refine ⟨fun p hp => ?_, fun c => ?_⟩
  · obtain ⟨hof, htally⟩ := Program.seqAt_tally (hat p hp.keeps) ((named_body h hjumps).mono hp)
    rw [hstmts, hexprs]
    exact ⟨_, htally.own (q := .stmts ss) hof⟩
  · rw [hgrows.rest]
    rfl

/-! ### Functions -/

theorem count_flatMap_modify {α β : Type} [DecidableEq β] (g : α → List β) (f : α → α) (b : β)
    {xs : List α} {i : Nat} {x : α} (hx : xs[i]? = some x) :
    ((xs.modify i f).flatMap g).count b + (g x).count b =
      (xs.flatMap g).count b + (g (f x)).count b := by
  induction xs generalizing i with
  | nil => cases hx
  | cons y ys ih =>
    cases i with
    | zero =>
      cases hx
      simp only [List.modify_zero_cons, List.flatMap_cons, List.count_append]
      omega
    | succ i =>
      have hrest := ih hx
      simp only [List.modify_succ_cons, List.flatMap_cons, List.count_append]
      omega

/-- A function without a body is given one. -/
theorem adds_putBody {id : FnId} {f : Function} (hf : l.program.function? id = some f)
    (hbody : f.body = .code none) (first : Option StmtId) :
    l.program.Adds (putBody l id first).program [] (fun _ => 0)
      fun c => first.toList.count c := by
  refine .of_eq rfl rfl fun c => ?_
  have hget : l.program.functions.toList[id.index]? = some f := by
    rw [Array.getElem?_toList]
    exact hf
  have hcount := count_flatMap_modify (fun f : Function => f.body.first.toList)
    (fun f => { f with body := .code first }) c hget
  rw [hbody] at hcount
  have hfunctions : (putBody l id first).program.functionFirsts.count c =
      l.program.functionFirsts.count c + first.toList.count c := by
    rw [Program.functionFirsts, putBody, Array.toList_modify]
    exact hcount
  rw [Program.outerFirsts, List.count_append, hfunctions, Program.outerFirsts, List.count_append]
  exact Nat.add_right_comm _ _ _

theorem Opens.adds {outer : ScopeId} {fs : List Source.Function} {ids : List FnId}
    (h : Opens outer fs l ids l') : l.program.Adds l'.program [] (fun _ => 0) fun _ => 0 := by
  refine .of_eq ?_ ?_ fun c => ?_
  · rw [h.declares.rest]
    rfl
  · rw [h.declares.rest]
    rfl
  · have hmodules : l'.program.moduleFirsts = l.program.moduleFirsts := by
      rw [h.declares.rest]
      rfl
    rw [Program.outerFirsts, h.declares.firsts, hmodules]
    rfl

mutual

/-- **A function** adds its sequences. What they need to be recorded it records itself. -/
theorem function_adds : ∀ {f : Source.Function} {outer : ScopeId} {id : FnId} {l l' : Linker}
    {u : Unit}, (function outer id f).Gives l u l' → l.jumps = [] →
      IsDeclared l.program outer id f →
      ∃ needed given, l.program.Adds l'.program f.sequences needed given ∧
        ∀ c, needed c = given c
  | .mk name params functions ss, outer, id, l, l', u, h, hjumps, hid => by
    obtain ⟨inner, l₁, first, l₂, _, hinner, hbody, hseq, rfl⟩ := gives_function h
    have hopens := opens_mapM_declareFunction hinner
    have hjumps₁ : l₁.jumps = [] := hopens.retains.jumps.trans hjumps
    have hlt := hid.index_lt
    obtain ⟨xs, hf, -⟩ := hid
    have hf₂ := (function?_body hopens hbody hlt).trans hf
    have hretains := (retains_body hbody).trans (retains_putBody l₂ id first)
    have hretains' := retains_functionSeq hseq
    obtain ⟨needed, given, hadds, hsame⟩ := functionSeq_adds hseq
      (hretains.jumps.trans hjumps₁) (declared_putBody hopens hbody hlt) hopens.distinct
    have hown := (body_adds hbody hjumps₁).trans (adds_putBody hf₂ rfl first)
      (retains_putBody l₂ id first).persists
    have hall := hopens.adds.trans (hown.trans hadds hretains'.persists)
      (hretains.trans hretains').persists
    rw [List.nil_append, List.append_nil] at hall
    refine ⟨_, _, hall, fun c => ?_⟩
    have hsame := hsame c
    omega

theorem functionSeq_adds : ∀ {fs : List Source.Function} {outer : ScopeId} {ids : List FnId}
    {l l' : Linker} {u : Unit}, (functionSeq outer ids fs).Gives l u l' → l.jumps = [] →
      List.Forall₂ (IsDeclared l.program outer) ids fs → ids.Nodup →
      ∃ needed given, l.program.Adds l'.program (Source.functionsSequences fs) needed given ∧
        ∀ c, needed c = given c
  | [], outer, ids, l, l', u, h, hjumps, hids, hdistinct => by
    cases hids
    simp only [functionSeq, gives_pure] at h
    obtain ⟨-, rfl⟩ := h
    exact ⟨_, _, .of_eq rfl rfl fun _ => rfl, fun _ => rfl⟩
  | f :: fs, outer, id :: ids, l, l', u, h, hjumps, hids, hdistinct => by
    simp only [functionSeq, gives_bind] at h
    obtain ⟨_, l₁, hf, hfs⟩ := h
    obtain ⟨hnot, hdistinct⟩ := List.nodup_cons.1 hdistinct
    cases hids with
    | cons hid hids =>
      obtain ⟨needed, given, hadds, hsame⟩ := function_adds hf hjumps hid
      obtain ⟨needed', given', hadds', hsame'⟩ := functionSeq_adds hfs
        ((retains_function hf).jumps.trans hjumps) (declared_function hf hnot hids) hdistinct
      refine ⟨_, _, hadds.trans hadds' (retains_functionSeq hfs).persists, fun c => ?_⟩
      rw [hsame, hsame']

end

/-! ### Modules -/

/-- A module is added with its body. -/
theorem adds_pushModule (l : Linker) (m : Module) :
    l.program.Adds (pushModule l m).program [] (fun _ => 0) fun c => m.body.toList.count c := by
  refine .of_eq rfl rfl fun c => ?_
  have hmodules : (pushModule l m).program.moduleFirsts =
      l.program.moduleFirsts ++ m.body.toList := by
    simp [Program.moduleFirsts, pushModule]
  rw [Program.outerFirsts, hmodules, Program.outerFirsts, ← List.append_assoc, List.count_append]
  rfl

/-- **A module** adds its sequences. What they need to be recorded it records itself. -/
theorem module_adds {m : Source.Module} {ids : List FnId} (h : (module m).Gives l ids l')
    (hjumps : l.jumps = []) : ∃ needed given,
      l.program.Adds l'.program m.sequences needed given ∧ ∀ c, needed c = given c := by
  obtain ⟨l₁, first, l₂, l₃, hids, hbody, hseq, rfl⟩ := gives_module h
  have hopens := opens_mapM_declareFunction hids
  have hretains := retains_body hbody
  have hretains' := retains_functionSeq hseq
  have hjumps₁ : l₁.jumps = [] := hopens.retains.jumps.trans hjumps
  have hdeclared :
      List.Forall₂ (IsDeclared l₂.program ⟨l.program.scopes.size⟩) ids m.functions := by
    refine declared_mono hopens.functions fun j _ => ?_
    rw [Program.function?, functions_body hbody]
    rfl
  obtain ⟨needed, given, hadds, hsame⟩ :=
    functionSeq_adds hseq (hretains.jumps.trans hjumps₁) hdeclared hopens.distinct
  let l₄ : Linker := { l₃ with frames := l₁.frames }
  let m' : Module := ⟨m.name, first, ⟨l.program.scopes.size⟩⟩
  have hadds₃ := hopens.adds.trans ((body_adds hbody hjumps₁).trans hadds hretains'.persists)
    (hretains.trans hretains').persists
  have hall := hadds₃.trans (adds_pushModule l₄ m') (persists_pushModule l₄ m')
  rw [List.nil_append, List.append_nil] at hall
  refine ⟨_, _, hall, fun c => ?_⟩
  have hsame := hsame c
  dsimp only [m']
  omega

theorem mapM_module_adds {ms : List Source.Module} {ids : List (List FnId)}
    (h : (ms.mapM module).Gives l ids l') (hjumps : l.jumps = []) :
    l.program.Persists l'.program ∧ ∃ needed given,
      l.program.Adds l'.program (ms.flatMap Source.Module.sequences) needed given ∧
        ∀ c, needed c = given c := by
  induction ms generalizing l ids with
  | nil =>
    obtain ⟨-, rfl⟩ := gives_pure.1 (show (pure [] : Link _).Gives l ids l' from h)
    exact ⟨.refl _, _, _, .of_eq rfl rfl fun _ => rfl, fun _ => rfl⟩
  | cons m ms ih =>
    simp only [List.mapM_cons, gives_bind, gives_pure] at h
    obtain ⟨is, l₁, hm, rest, l₂, hrest, rfl, rfl⟩ := h
    obtain ⟨needed, given, hadds, hsame⟩ := module_adds hm hjumps
    obtain ⟨hpersists, hjumps₁⟩ : l.program.Persists l₁.program ∧ l₁.jumps = [] := by
      obtain ⟨l₀, _, _, hretains, -, rfl⟩ := retains_module hm
      exact ⟨hretains.persists.trans (persists_pushModule l₀ _), hretains.jumps.trans hjumps⟩
    obtain ⟨hpersists', needed', given', hadds', hsame'⟩ := ih hrest hjumps₁
    refine ⟨hpersists.trans hpersists', _, _, hadds.trans hadds' hpersists', fun c => ?_⟩
    rw [hsame, hsame']

end Link

end TreeMachine
