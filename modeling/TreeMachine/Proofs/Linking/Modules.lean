import TreeMachine.Proofs.Linking.Programs
import TreeMachine.Proofs.Linking.References
import TreeMachine.Proofs.Linking.Tallies

/-!
# Where linking puts functions and modules

`Program.FunctionAt` and `Program.ModuleAt` say which nodes, variables and scopes of a program are
those of a function or a module, between two marks and by recursion on the definition. They begin
with the scope and the parameters of the functions in it, which are declared before any body is
linked. Linking a function makes them true of every program that keeps what has been linked
(`Link.function_placed`), so a linked program has all of its definition in place
(`Program.placed_of_link`).

The point of speaking about every program that keeps what was linked, instead of the one that there
is at the moment, is that the statement is not touched by what is linked later. A function is given
its body after others have been declared, and its inner functions are linked after that; each of
these steps keeps the bodies of other functions (`Link.keeps_function`). The condition on the later
program is made up of three parts, for nodes, scopes and functions, since they are kept in different
ways: a body is set once, and until then the function has none.

Whatever is to be shown of linked programs by recursion on the definition starts from
`Program.placed_of_link`, and the linker is not mentioned any more. The counts of statements and of
uses of expressions, the events of scopes, and the references that are written into a definition all
go this way.
-/

namespace TreeMachine

/-- The variables from one number on, before another one. -/
def VarId.between (lo hi : Nat) : List VarId :=
  (List.range' lo (hi - lo)).map VarId.mk

namespace VarId

@[simp]
theorem between_self (n : Nat) : between n n = [] := by
  simp [between]

theorem between_append {lo mid hi : Nat} (h : lo ≤ mid) (h' : mid ≤ hi) :
    between lo mid ++ between mid hi = between lo hi := by
  rw [between, between, between, ← List.map_append]
  refine congrArg _ ?_
  have hmid : mid = lo + 1 * (mid - lo) := by omega
  have hhi : hi - lo = (mid - lo) + (hi - mid) := by omega
  rw [hhi, ← List.range'_append, ← hmid]

theorem between_succ (n : Nat) : between n (n + 1) = [⟨n⟩] := by
  simp [between]

theorem nodup_between (lo hi : Nat) : (between lo hi).Nodup := by
  refine List.Nodup.map (fun a b hab => ?_) List.nodup_range'
  cases hab
  rfl

end VarId

namespace Program

variable {p p' p'' : Program}

/-! ### The definition between marks -/

/-- The parameters of a function. -/
def paramsOf (p : Program) (id : FnId) : List VarId :=
  (p.function? id).elim [] Function.params

/-- A scope is inside another one, and the parameters of its functions are the next variables. -/
structure ScopeAt (p : Program) (outer scope : ScopeId) (ids : List FnId) (lo hi : Nat) :
    Prop where
  found : p.scope? scope = some ⟨some outer, ids⟩
  le : lo ≤ hi
  params : ids.flatMap p.paramsOf = VarId.between lo hi

/-- The nodes between two marks are those of a body, in a scope that shows some functions. Jumps go
to labels of the names that they are written with, and each function that is referred to is the only
one of a name. -/
structure BodyAt (p : Program) (scope : ScopeId) (visible : List String) (ss : List Source.Stmt)
    (m m' : Mark) (first : Option StmtId) : Prop where
  shows : p.Shows scope visible
  placed : ∃ m₁, p.SeqAt none scope ss (m.enter []) m₁ first ∧ m' = m₁.leave m
  jumps : p.Named (Source.stmtsGotos m.stmts ss)
  refers : ∀ e f, m.exprs ≤ e.index → e.index < m'.exprs → p.expr? e = some (.function f) →
    ∃ name, p.visible scope name = [f]

mutual

/-- The nodes between two marks are those of a function. The functions inside it are declared before
its body, in a scope of their own, and its parameters are in scope from the body on. -/
def FunctionAt (p : Program) (outer : ScopeId) (visible : List String) :
    Source.Function → FnId → Mark → Mark → Prop
  | .mk name params inner body, id, m, m' =>
    ∃ xs first scope ids n m₁ m₂, p.function? id = some ⟨name, xs, .code first, outer⟩ ∧
      xs.length = params.length ∧ p.ScopeAt outer scope ids m.vars n ∧
        p.BodyAt scope (inner.map Source.Function.name ++ visible) body
          ({ m with vars := n }.enter (params.zip xs).reverse) m₁ first ∧
        p.FunctionsAt scope (inner.map Source.Function.name ++ visible) inner ids m₁ m₂ ∧
          m' = m₂.leave m

/-- The nodes between two marks are those of functions. -/
def FunctionsAt (p : Program) (scope : ScopeId) (visible : List String) :
    List Source.Function → List FnId → Mark → Mark → Prop
  | [], ids, m, m' => ids = [] ∧ m' = m
  | f :: fs, ids, m, m' =>
    ∃ id rest m₁, ids = id :: rest ∧ p.FunctionAt scope visible f id m m₁ ∧
      p.FunctionsAt scope visible fs rest m₁ m'

end

/-- The nodes between two marks are those of a module. -/
def ModuleAt (p : Program) (visible : List String) (d : Source.Module) (d' : Module)
    (m m' : Mark) : Prop :=
  ∃ ids n m₁ m₂, d'.name = d.name ∧ p.ScopeAt rootScope d'.scope ids m.vars n ∧
    p.BodyAt d'.scope (d.functions.map Source.Function.name ++ visible) d.body
      ({ m with vars := n }.enter []) m₁ d'.body ∧
    p.FunctionsAt d'.scope (d.functions.map Source.Function.name ++ visible) d.functions ids
      m₁ m₂ ∧ m' = m₂.leave m

/-- The nodes between two marks are those of modules. -/
def ModulesAt (p : Program) (visible : List String) :
    List Source.Module → List Module → Mark → Mark → Prop
  | [], ds', m, m' => ds' = [] ∧ m' = m
  | d :: ds, ds', m, m' =>
    ∃ d' rest m₁, ds' = d' :: rest ∧ p.ModuleAt visible d d' m m₁ ∧
      p.ModulesAt visible ds rest m₁ m'

/-- Modules leave the frames that they enter. -/
theorem modulesAt_frames {visible : List String} {ds : List Source.Module} {ds' : List Module}
    {m m' : Mark} (h : p.ModulesAt visible ds ds' m m') : m'.frames = m.frames := by
  induction ds generalizing ds' m with
  | nil =>
    obtain ⟨-, rfl⟩ := h
    rfl
  | cons d ds ih =>
    obtain ⟨_, _, _, -, ⟨_, _, _, _, -, -, -, -, rfl⟩, hds⟩ := h
    exact (ih hds :)

/-! ### What is kept -/

theorem Named.mono (hp : p.Persists p') {gotos : List (StmtId × String)} (h : p.Named gotos) :
    p'.Named gotos :=
  fun g hg => (h g hg).mono hp.keeps.places (hp.targets g.1)

/-- Functions stay what they are where a condition holds. -/
def KeepsFunctions (settled : FnId → Prop) (p p' : Program) : Prop :=
  ∀ id, settled id → id.index < p.functions.size → p'.function? id = p.function? id

theorem KeepsScopes.paramsOf (hp : p.KeepsScopes p') {id : FnId} {f : Function}
    (hf : p.function? id = some f) : p'.paramsOf id = p.paramsOf id := by
  obtain ⟨body, hf'⟩ := hp.functions id f hf
  rw [Program.paramsOf, Program.paramsOf, hf, hf']
  rfl

end Program

namespace Link

variable {l l' l'' : Linker}

/-! ### Bodies -/

/-- The jumps of a linked body go to labels of the names that they are written with. -/
theorem named_body {scope : ScopeId} {ss : List Source.Stmt} {first : Option StmtId}
    (h : (body scope ss).Gives l first l') (hjumps : l.jumps = []) :
    l'.program.Named (Source.stmtsGotos l.program.stmts.size ss) := by
  have heffect := effect_body 0 h
  intro g hg
  refine (heffect.gotos g hg).resolve_right fun hmem => ?_
  rw [heffect.jumps, hjumps] at hmem
  cases hmem

/-- **A linked body** stays where it has been put. -/
theorem body_at {scope : ScopeId} {visible : List String} {ss : List Source.Stmt}
    {first : Option StmtId} (h : (body scope ss).Gives l first l') (hjumps : l.jumps = [])
    (hshows : l.program.Shows scope visible) {p : Program} (hp : l'.program.Persists p)
    (hscopes : l'.program.KeepsScopes p) : p.BodyAt scope visible ss l.mark l'.mark first := by
  obtain ⟨hadv, m, hmark, hat⟩ := body_placed h
  have hshows' := hshows.mono hadv.1.keepsScopes
  refine ⟨hshows'.mono hscopes, ⟨m, hat p hp.keeps, hmark⟩, (named_body h hjumps).mono hp,
    fun e f he hlt hf => ?_⟩
  obtain ⟨x, hx⟩ := Program.expr?_isSome.2 hlt
  cases (hp.keeps.exprs e x hx).symm.trans hf
  obtain ⟨name, hname⟩ := (bound_body h).refers e f he hx
  exact ⟨name, (hshows'.visible_eq hscopes name).trans hname⟩

theorem functions_body {scope : ScopeId} {ss : List Source.Stmt} {first : Option StmtId}
    (h : (body scope ss).Gives l first l') : l'.program.functions = l.program.functions := by
  rw [(body_placed h).1.1.rest]

/-! ### Declared functions -/

/-- A function of a definition without a body, which is kept. -/
theorem IsDeclared.mono {p p' : Program} {scope : ScopeId} {id : FnId} {f : Source.Function}
    (h : IsDeclared p scope id f) (hid : p'.function? id = p.function? id) :
    IsDeclared p' scope id f := by
  obtain ⟨params, hf, hlength⟩ := h
  exact ⟨params, hid.trans hf, hlength⟩

theorem declared_mono {p p' : Program} {scope : ScopeId} {ids : List FnId}
    {fs : List Source.Function} (h : List.Forall₂ (IsDeclared p scope) ids fs)
    (hids : ∀ id ∈ ids, p'.function? id = p.function? id) :
    List.Forall₂ (IsDeclared p' scope) ids fs :=
  ((List.forall₂_and_left ids fs).2 ⟨hids, h⟩).imp fun _ _ ⟨hid, hf⟩ => hf.mono hid

theorem IsDeclared.index_lt {p : Program} {scope : ScopeId} {id : FnId} {f : Source.Function}
    (h : IsDeclared p scope id f) : id.index < p.functions.size := by
  obtain ⟨params, hf, -⟩ := h
  exact (Array.getElem?_eq_some_iff.1 hf).1

/-- The functions that there were before a scope was opened. -/
theorem Opens.keepsFunctions {outer : ScopeId} {fs : List Source.Function} {ids : List FnId}
    (h : Opens outer fs l ids l') (id : FnId) (hid : id.index < l.program.functions.size) :
    l'.program.function? id = l.program.function? id := by
  have hf : l.program.function? id = some l.program.functions[id.index] :=
    Array.getElem?_eq_getElem hid
  exact (h.declares.functions id _ hf).trans hf.symm

/-- Parameters get the next variables. -/
theorem between_mapM_addVar {names : List String} {ids : List VarId}
    (h : (names.mapM addVar).Gives l ids l') :
    l.program.vars.size ≤ l'.program.vars.size ∧
      ids = VarId.between l.program.vars.size l'.program.vars.size := by
  induction names generalizing l ids with
  | nil =>
    obtain ⟨rfl, rfl⟩ := gives_pure.1 (show (pure [] : Link _).Gives l ids l' from h)
    exact ⟨Nat.le_refl _, (VarId.between_self _).symm⟩
  | cons name names ih =>
    simp only [List.mapM_cons, gives_bind, gives_addVar, gives_pure] at h
    obtain ⟨_, _, ⟨rfl, rfl⟩, rest, _, hrest, rfl, rfl⟩ := h
    obtain ⟨hle, rfl⟩ := ih hrest
    have hsize : (pushVar l name).program.vars.size = l.program.vars.size + 1 := Array.size_push _
    rw [hsize] at hle ⊢
    refine ⟨Nat.le_of_succ_le hle, ?_⟩
    rw [← VarId.between_append (Nat.le_succ _) hle, VarId.between_succ]
    rfl

/-- The parameters of the functions of a scope are the next variables. -/
theorem params_mapM_declareFunction {scope : ScopeId} {s : Scope} {fs : List Source.Function}
    {ids : List FnId} (hs : l.program.scope? scope = some s)
    (h : (fs.mapM (declareFunction scope)).Gives l ids l') :
    l.program.vars.size ≤ l'.program.vars.size ∧ ids.flatMap l'.program.paramsOf =
      VarId.between l.program.vars.size l'.program.vars.size := by
  induction fs generalizing l ids s with
  | nil =>
    obtain ⟨rfl, rfl⟩ := gives_pure.1 (show (pure [] : Link _).Gives l ids l' from h)
    exact ⟨Nat.le_refl _, (VarId.between_self _).symm⟩
  | cons f fs ih =>
    simp only [List.mapM_cons, gives_bind, gives_pure] at h
    obtain ⟨id, l₁, hid, rest, _, hrest, rfl, rfl⟩ := h
    obtain ⟨-, -, -, hs₁⟩ := declares_declareFunction hs hid
    obtain ⟨hin, -⟩ := declares_mapM_declareFunction hs₁ hrest
    obtain ⟨hle, hparams⟩ := ih hs₁ hrest
    simp only [declareFunction, gives_bind, gives_addFunction] at hid
    obtain ⟨xs, l₀, hxs, rfl, rfl⟩ := hid
    obtain ⟨hle₀, rfl⟩ := between_mapM_addVar hxs
    have hf := hin.functions _ _ ((function?_pushFunction _ _ _).trans (if_pos rfl))
    have hown : l'.program.paramsOf ⟨l₀.program.functions.size⟩ =
        VarId.between l.program.vars.size l₀.program.vars.size := by
      rw [Program.paramsOf, hf]
      rfl
    refine ⟨hle₀.trans hle, ?_⟩
    rw [List.flatMap_cons, hparams, hown]
    exact VarId.between_append hle₀ hle

/-- An opened scope is in place, and where its functions have been declared the tables are as they
were before, but for more variables. -/
theorem scope_at {outer : ScopeId} {fs : List Source.Function} {ids : List FnId}
    (h : (fs.mapM (declareFunction ⟨l.program.scopes.size⟩)).Gives (pushScope l outer) ids l')
    {p : Program} (hscopes : l'.program.KeepsScopes p) :
    p.ScopeAt outer ⟨l.program.scopes.size⟩ ids l.program.vars.size l'.program.vars.size ∧
      l'.mark = { l.mark with vars := l'.program.vars.size } := by
  have hopens := opens_mapM_declareFunction h
  obtain ⟨hle, hparams⟩ := params_mapM_declareFunction (l := pushScope l outer)
    Array.getElem?_push_size h
  refine ⟨⟨hscopes.scopes _ _ hopens.scope, hle, ?_⟩, ?_⟩
  · have hsame : ids.flatMap p.paramsOf = ids.flatMap l'.program.paramsOf := by
      refine List.flatMap_congr fun id hid => ?_
      obtain ⟨f, params, hf, -⟩ := exists_of_forall₂ hopens.functions hid
      exact hscopes.paramsOf hf
    rw [hsame, hparams]
    rfl
  · rw [Linker.mark, hopens.declares.rest]
    rfl

/-! ### Functions -/

mutual

/-- **Linking a function** leaves the other ones alone. -/
theorem keeps_function : ∀ {f : Source.Function} {outer : ScopeId} {id : FnId} {l l' : Linker}
    {u : Unit}, (function outer id f).Gives l u l' →
      l.program.KeepsFunctions (fun j => j ≠ id) l'.program
  | .mk _ _ functions ss, outer, id, l, l', u, h => by
    obtain ⟨inner, l₁, first, l₂, _, hinner, hbody, hseq, rfl⟩ := gives_function h
    have hopens := opens_mapM_declareFunction hinner
    intro j hj hlt
    have hretains := (hopens.retains.persists.keeps.functions_size.trans
      (retains_body hbody).persists.keeps.functions_size).trans
        (retains_putBody l₂ id first).persists.keeps.functions_size
    have hnot : j ∉ inner := fun hmem => Nat.not_le.2 hlt (hopens.new j hmem)
    have hbodies : l₂.program.function? j = l₁.program.function? j := by
      rw [Program.function?, functions_body hbody]
      rfl
    rw [keeps_functionSeq hseq j hnot (Nat.lt_of_lt_of_le hlt hretains),
      function?_putBody, if_neg hj, hbodies, hopens.keepsFunctions j hlt]

theorem keeps_functionSeq : ∀ {fs : List Source.Function} {outer : ScopeId} {ids : List FnId}
    {l l' : Linker} {u : Unit}, (functionSeq outer ids fs).Gives l u l' →
      l.program.KeepsFunctions (fun j => j ∉ ids) l'.program
  | [], outer, ids, l, l', u, h => by
    simp only [functionSeq, gives_pure] at h
    obtain ⟨-, rfl⟩ := h
    exact fun _ _ _ => rfl
  | f :: fs, outer, [], l, l', u, h => by
    simp only [functionSeq, gives_pure] at h
    obtain ⟨-, rfl⟩ := h
    exact fun _ _ _ => rfl
  | f :: fs, outer, id :: ids, l, l', u, h => by
    simp only [functionSeq, gives_bind] at h
    obtain ⟨_, l₁, hf, hfs⟩ := h
    intro j hj hlt
    obtain ⟨hne, hnot⟩ := not_or.1 fun h => hj (List.mem_cons.2 h)
    have hle := (retains_function hf).persists.keeps.functions_size
    rw [keeps_functionSeq hfs j hnot (Nat.lt_of_lt_of_le hlt hle), keeps_function hf j hne hlt]

end

/-- The functions that come after a linked one are still without a body. -/
theorem declared_function {f : Source.Function} {fs : List Source.Function} {outer : ScopeId}
    {id : FnId} {ids : List FnId} {u : Unit} (h : (function outer id f).Gives l u l')
    (hnot : id ∉ ids) (hids : List.Forall₂ (IsDeclared l.program outer) ids fs) :
    List.Forall₂ (IsDeclared l'.program outer) ids fs := by
  refine declared_mono hids fun j hj => ?_
  obtain ⟨_, hdeclared⟩ := exists_of_forall₂ hids hj
  exact keeps_function h j (fun h => hnot (h ▸ hj)) hdeclared.index_lt

/-- The functions that there were before are the same when a body has been linked in a new scope. -/
theorem function?_body {outer scope : ScopeId} {fs : List Source.Function} {inner : List FnId}
    {ss : List Source.Stmt} {frames : List (List (String × VarId))} {first : Option StmtId}
    (hopens : Opens outer fs l inner l') (h : (body scope ss).Gives { l' with frames := frames }
      first l'') {id : FnId} (hlt : id.index < l.program.functions.size) :
    l''.program.function? id = l.program.function? id := by
  rw [Program.function?, functions_body h]
  exact hopens.keepsFunctions id hlt

/-- The functions of a new scope are still without a body when another one has been given its. -/
theorem declared_putBody {outer scope : ScopeId} {fs : List Source.Function} {inner : List FnId}
    {ss : List Source.Stmt} {frames : List (List (String × VarId))} {first : Option StmtId}
    (hopens : Opens outer fs l inner l') (h : (body scope ss).Gives { l' with frames := frames }
      first l'') {id : FnId} (hlt : id.index < l.program.functions.size) :
    List.Forall₂ (IsDeclared (putBody l'' id first).program ⟨l.program.scopes.size⟩) inner fs := by
  refine declared_mono hopens.functions fun j hj => ?_
  have hne : j ≠ id := by
    rintro rfl
    exact Nat.not_le.2 hlt (hopens.new j hj)
  rw [function?_putBody, if_neg hne, Program.function?, functions_body h]
  rfl

mutual

/-- **A linked function** stays where it has been put. -/
theorem function_placed : ∀ {f : Source.Function} {outer : ScopeId} {visible : List String}
    {id : FnId} {l l' : Linker} {u : Unit}, (function outer id f).Gives l u l' → l.jumps = [] →
      IsDeclared l.program outer id f → l.program.Shows outer visible →
      ∀ p : Program, l'.program.Persists p → l'.program.KeepsScopes p →
        l'.program.KeepsFunctions (fun j => j = id ∨ l.program.functions.size ≤ j.index) p →
          p.FunctionAt outer visible f id l.mark l'.mark
  | .mk name params functions ss, outer, visible, id, l, l', u, h, hjumps, hid, hshows => by
    obtain ⟨inner, l₁, first, l₂, l₃, hinner, hbody, hseq, rfl⟩ := gives_function h
    have hopens := opens_mapM_declareFunction hinner
    have hjumps₁ : l₁.jumps = [] := hopens.retains.jumps.trans hjumps
    have hshows₁ := hopens.shows hshows
    -- The function itself has been there before, and is given its body only now.
    have hlt := hid.index_lt
    have hnot : id ∉ inner := fun hmem => Nat.not_le.2 hlt (hopens.new id hmem)
    obtain ⟨xs, hf, hlength⟩ := hid
    have hf₁ : l₁.program.function? id = some ⟨name, xs, .code none, outer⟩ :=
      (hopens.keepsFunctions id hlt).trans hf
    have hf₂ : l₂.program.function? id = some ⟨name, xs, .code none, outer⟩ :=
      (function?_body hopens hbody hlt).trans hf
    have hput : (putBody l₂ id first).program.function? id =
        some ⟨name, xs, .code first, outer⟩ := by
      rw [function?_putBody, if_pos rfl, hf₂]
      rfl
    have hretains := (retains_body hbody).trans (retains_putBody l₂ id first)
    have hretains' := retains_functionSeq hseq
    have hsize : l.program.functions.size ≤ (putBody l₂ id first).program.functions.size :=
      hopens.retains.persists.keeps.functions_size.trans hretains.persists.keeps.functions_size
    intro p hp hscopes hfunctions
    obtain ⟨hscope, hmark⟩ := scope_at hinner ((hretains.trans hretains').scopes.trans hscopes)
    have hkept : p.function? id = some ⟨name, xs, .code first, outer⟩ := by
      rw [hfunctions id (.inl rfl) (Nat.lt_of_lt_of_le hlt
        (hsize.trans hretains'.persists.keeps.functions_size)),
        keeps_functionSeq hseq id hnot (Nat.lt_of_lt_of_le hlt hsize), hput]
    have hafter := (retains_putBody l₂ id first).trans hretains'
    have hat := body_at hbody hjumps₁ hshows₁ (hafter.persists.trans hp)
      (hafter.scopes.trans hscopes)
    have hframe : paramFrame l₁ id params = (params.zip xs).reverse := by
      rw [paramFrame, hf₁]
      rfl
    have hstart : { l₁ with frames := paramFrame l₁ id params :: l₁.frames }.mark =
        ({ l.mark with vars := l₁.program.vars.size }.enter (params.zip xs).reverse) := by
      rw [← hframe]
      exact congrArg (Mark.enter · (paramFrame l₁ id params)) hmark
    rw [hstart] at hat
    refine ⟨xs, first, _, inner, l₁.program.vars.size, l₂.mark, l₃.mark, hkept, hlength, hscope,
      hat, ?_, congrArg (fun m => l₃.mark.leave m) hmark⟩
    refine functionSeq_placed hseq (hretains.jumps.trans hjumps₁)
      (declared_putBody hopens hbody hlt) hopens.distinct (hshows₁.mono hretains.scopes) p hp
      hscopes ?_
    rintro j (hj | hj) hj'
    · exact hfunctions j (.inr (hopens.new j hj)) hj'
    · exact hfunctions j (.inr (hsize.trans hj)) hj'

theorem functionSeq_placed : ∀ {fs : List Source.Function} {outer : ScopeId}
    {visible : List String} {ids : List FnId} {l l' : Linker} {u : Unit},
      (functionSeq outer ids fs).Gives l u l' → l.jumps = [] →
      List.Forall₂ (IsDeclared l.program outer) ids fs → ids.Nodup →
      l.program.Shows outer visible →
      ∀ p : Program, l'.program.Persists p → l'.program.KeepsScopes p →
        l'.program.KeepsFunctions (fun j => j ∈ ids ∨ l.program.functions.size ≤ j.index) p →
          p.FunctionsAt outer visible fs ids l.mark l'.mark
  | [], outer, visible, ids, l, l', u, h, hjumps, hids, hdistinct, hshows => by
    cases hids
    simp only [functionSeq, gives_pure] at h
    obtain ⟨-, rfl⟩ := h
    exact fun _ _ _ _ => ⟨rfl, rfl⟩
  | f :: fs, outer, visible, id :: ids, l, l', u, h, hjumps, hids, hdistinct, hshows => by
    simp only [functionSeq, gives_bind] at h
    obtain ⟨_, l₁, hf, hfs⟩ := h
    obtain ⟨hnot, hdistinct⟩ := List.nodup_cons.1 hdistinct
    cases hids with
    | cons hid hids =>
      have hlt : ∀ j ∈ ids, j.index < l.program.functions.size := fun j hj => by
        obtain ⟨_, hj⟩ := exists_of_forall₂ hids hj
        exact hj.index_lt
      have hretains := retains_function hf
      have hretains' := retains_functionSeq hfs
      intro p hp hscopes hfunctions
      refine ⟨id, ids, l₁.mark, rfl, ?_, ?_⟩
      · refine function_placed hf hjumps hid hshows p (hretains'.persists.trans hp)
          (hretains'.scopes.trans hscopes) fun j hj hj' => ?_
        have hlt' := Nat.lt_of_lt_of_le hj' hretains'.persists.keeps.functions_size
        -- The functions that come after this one are not among those that it settles.
        have hnot' : j ∉ ids := by
          rcases hj with rfl | hj
          · exact hnot
          · exact fun hmem => Nat.not_le.2 (hlt j hmem) hj
        have hmem : j ∈ id :: ids ∨ l.program.functions.size ≤ j.index := by
          refine hj.imp_left fun hj => ?_
          rw [hj]
          exact List.mem_cons_self
        rw [hfunctions j hmem hlt', keeps_functionSeq hfs j hnot' hj']
      · refine functionSeq_placed hfs (hretains.jumps.trans hjumps)
          (declared_function hf hnot hids) hdistinct (hshows.mono hretains.scopes) p hp hscopes
          fun j hj hj' => hfunctions j ?_ hj'
        rcases hj with hj | hj
        · exact .inl (List.mem_cons_of_mem _ hj)
        · exact .inr (hretains.persists.keeps.functions_size.trans hj)

end

/-! ### Modules -/

/-- **A linked module** stays where it has been put. -/
theorem module_placed {m : Source.Module} {ids : List FnId} (h : (module m).Gives l ids l')
    (hjumps : l.jumps = []) {visible : List String}
    (hshows : l.program.Shows Program.rootScope visible) :
    ∃ l₁ m', Retains l l₁ ∧ l' = pushModule l₁ m' ∧
      l.program.KeepsFunctions (fun _ => True) l'.program ∧
        ∀ p : Program, l'.program.Persists p → l'.program.KeepsScopes p →
          l'.program.KeepsFunctions (fun j => l.program.functions.size ≤ j.index) p →
            p.ModuleAt visible m m' l.mark l'.mark := by
  obtain ⟨l₁, first, l₂, l₃, hids, hbody, hseq, rfl⟩ := gives_module h
  have hopens := opens_mapM_declareFunction hids
  have hretains := retains_body hbody
  have hretains' := retains_functionSeq hseq
  have hjumps₁ : l₁.jumps = [] := hopens.retains.jumps.trans hjumps
  have hshows₁ := hopens.shows hshows
  have hbodies : ∀ j, l₂.program.function? j = l₁.program.function? j := fun j => by
    rw [Program.function?, functions_body hbody]
    rfl
  have hdeclared := declared_mono hopens.functions fun j _ => hbodies j
  let l₄ : Linker := { l₃ with frames := l₁.frames }
  let m' : Module := ⟨m.name, first, ⟨l.program.scopes.size⟩⟩
  have hpush : l₃.program.Persists (pushModule l₄ m').program := persists_pushModule l₄ m'
  have hkeeps : l₃.program.KeepsScopes (pushModule l₄ m').program := keepsScopes_pushModule l₄ m'
  have hsize := hopens.retains.persists.keeps.functions_size.trans
    hretains.persists.keeps.functions_size
  refine ⟨l₄, m', hopens.retains.trans (hretains.trans hretains').leave, rfl,
    fun j _ hlt => ?_, fun p hp hscopes hsettled => ?_⟩
  · have hnot : j ∉ ids := fun hmem => Nat.not_le.2 hlt (hopens.new j hmem)
    rw [← hopens.keepsFunctions j hlt, ← hbodies,
      ← keeps_functionSeq hseq j hnot (Nat.lt_of_lt_of_le hlt hsize)]
    rfl
  · have hpersists := hpush.trans hp
    have hscopes₃ := hkeeps.trans hscopes
    obtain ⟨hscope, hmark⟩ := scope_at hids ((hretains.trans hretains').scopes.trans hscopes₃)
    have hat := body_at hbody hjumps₁ hshows₁ (hretains'.persists.trans hpersists)
      (hretains'.scopes.trans hscopes₃)
    have hstart : { l₁ with frames := [] :: l₁.frames }.mark =
        ({ l.mark with vars := l₁.program.vars.size }.enter []) :=
      congrArg (Mark.enter · []) hmark
    rw [hstart] at hat
    refine ⟨ids, l₁.program.vars.size, l₂.mark, l₃.mark, rfl, hscope, hat, ?_,
      congrArg (fun m => l₃.mark.leave m) hmark⟩
    refine functionSeq_placed hseq (hretains.jumps.trans hjumps₁) hdeclared hopens.distinct
      (hshows₁.mono hretains.scopes) p hpersists hscopes₃ fun j hj hlt => ?_
    refine hsettled j ?_ (Nat.lt_of_lt_of_le hlt hpush.keeps.functions_size)
    rcases hj with hj | hj
    · exact hopens.new j hj
    · exact hsize.trans hj

theorem mapM_module_placed {ms : List Source.Module} {ids : List (List FnId)}
    (h : (ms.mapM module).Gives l ids l') (hjumps : l.jumps = []) {visible : List String}
    (hshows : l.program.Shows Program.rootScope visible) :
    l.program.Persists l'.program ∧ l.program.KeepsScopes l'.program ∧
      l.program.KeepsFunctions (fun _ => True) l'.program ∧
      ∃ ms', l'.program.modules.toList = l.program.modules.toList ++ ms' ∧
        ∀ p : Program, l'.program.Persists p → l'.program.KeepsScopes p →
          l'.program.KeepsFunctions (fun j => l.program.functions.size ≤ j.index) p →
            p.ModulesAt visible ms ms' l.mark l'.mark := by
  induction ms generalizing l ids with
  | nil =>
    obtain ⟨-, rfl⟩ := gives_pure.1 (show (pure [] : Link _).Gives l ids l' from h)
    exact ⟨.refl _, .refl _, fun _ _ _ => rfl, [], (List.append_nil _).symm,
      fun _ _ _ _ => ⟨rfl, rfl⟩⟩
  | cons m ms ih =>
    simp only [List.mapM_cons, gives_bind, gives_pure] at h
    obtain ⟨is, l₁, hm, rest, l₂, hrest, rfl, rfl⟩ := h
    obtain ⟨l₀, m', hretains, hpush, hkept, hat⟩ := module_placed hm hjumps hshows
    have hpersists : l.program.Persists l₁.program := by
      rw [hpush]
      exact hretains.persists.trans (persists_pushModule l₀ m')
    have hkeeps : l.program.KeepsScopes l₁.program := by
      rw [hpush]
      exact hretains.scopes.trans (keepsScopes_pushModule l₀ m')
    have hmodules : l₁.program.modules.toList = l.program.modules.toList ++ [m'] := by
      rw [hpush, ← hretains.modules]
      exact Array.toList_push
    have hjumps₁ : l₁.jumps = [] := by
      rw [hpush]
      exact hretains.jumps.trans hjumps
    obtain ⟨hpersists', hkeeps', hkept', ms', hmodules', hat'⟩ :=
      ih hrest hjumps₁ (hshows.mono hkeeps)
    have hsize := hpersists.keeps.functions_size
    refine ⟨hpersists.trans hpersists', hkeeps.trans hkeeps', fun j _ hlt => ?_, m' :: ms', ?_,
      fun p hp hscopes hsettled => ⟨m', ms', l₁.mark, rfl, ?_, ?_⟩⟩
    · rw [hkept' j trivial (Nat.lt_of_lt_of_le hlt hsize), hkept j trivial hlt]
    · rw [hmodules', hmodules, List.append_assoc]
      rfl
    · refine hat p (hpersists'.trans hp) (hkeeps'.trans hscopes) fun j hj hlt => ?_
      rw [hsettled j hj (Nat.lt_of_lt_of_le hlt hpersists'.keeps.functions_size),
        hkept' j trivial hlt]
    · exact hat' p hp hscopes fun j hj hlt => hsettled j (hsize.trans hj) hlt

end Link

namespace Program

/-! ### Programs -/

/-- The moment at which linking a program begins. -/
def baseMark : Mark :=
  ⟨base.stmts.size, base.exprs.size, base.vars.size, []⟩

/-- The moment at which linking a program is over. -/
def endMark (p : Program) : Mark :=
  ⟨p.stmts.size, p.exprs.size, p.vars.size, []⟩

/-- **A linked program** has the modules of its definition in place, and nothing else. -/
theorem placed_of_link {d : Source.Program} {p : Program} (h : link d = .ok p) :
    base.KeepsScopes p ∧
      p.ModulesAt (Primitive.all.map Primitive.name) d.modules p.modules.toList baseMark
        p.endMark := by
  obtain ⟨ids, l, first, hids, -, rfl⟩ := gives_of_link h
  obtain ⟨-, hscopes, -, ms, hmodules, hat⟩ := Link.mapM_module_placed hids rfl base_shows
  -- The entry function is noted down last, which leaves the tables alone.
  let p : Program := { l.program with entry := first }
  have hscopes' : l.program.KeepsScopes p := .of_eq rfl fun _ f hf => ⟨f.body, hf⟩
  have hms : p.modules.toList = ms := hmodules
  have hplaced : p.ModulesAt (Primitive.all.map Primitive.name) d.modules ms baseMark l.mark :=
    hat p (.of_eq rfl rfl fun _ f hf => ⟨f.body, hf⟩) hscopes' fun _ _ _ => rfl
  refine ⟨hscopes.trans hscopes', ?_⟩
  show p.ModulesAt _ d.modules p.modules.toList baseMark p.endMark
  rw [hms]
  have hend : l.mark = p.endMark := congrArg (Mark.mk _ _ _) (modulesAt_frames hplaced)
  rwa [hend] at hplaced

end Program

end TreeMachine
