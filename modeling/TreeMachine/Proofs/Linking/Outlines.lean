import TreeMachine.Proofs.Linking.Written

/-!
# The outline of a definition

The scopes of a linked program, the names of its functions and the scopes of its statements depend
on the outline of the definition only: the names of its functions, how they are nested, and the
number of statements in each body (`Program.parallel_of_link`). Two definitions with the same
outline are linked side by side, function by function.

This makes definitions comparable that differ in what their statements are. A reference that is
written into an expression leaves the outline alone (`Source.Function.Writes.outline_eq`), so
resolving a name in the scope of a statement gives the same in both programs, although their tables
of expressions differ and the functions have different bodies.

The relation between the programs, `Program.Parallel`, compares the scopes as they are, the
functions by their names and the statements by their scopes. Nothing is said about variables,
expressions and the kinds of statements. The proof follows the linker in the order in which it fills
the tables: a scope is opened and its functions are declared, a body is linked, and the inner
functions come after it. What linking a body adds is a number of statements in one scope
(`Link.stmt_scopes_body`), which is the only thing that has to be known of bodies.
-/

namespace TreeMachine

/-- The outline of a function: its name, the number of statements in its body, and the functions
inside it. -/
inductive Outline
  | mk (name : String) (size : Nat) (inner : List Outline)

namespace Source

mutual

/-- The outline of a function. -/
def Function.outline : Function → Outline
  | .mk name _ inner body => .mk name (stmtsSize body) (functionsOutline inner)

/-- The outlines of functions. -/
def functionsOutline : List Function → List Outline
  | [] => []
  | f :: fs => f.outline :: functionsOutline fs

end

/-- The outline of a module, as of a function with the name of the module. -/
def Module.outline (m : Module) : Outline :=
  .mk m.name (stmtsSize m.body) (functionsOutline m.functions)

theorem Function.name_of_outline {f f' : Function} (h : f'.outline = f.outline) :
    f'.name = f.name := by
  cases f
  cases f'
  exact (Outline.mk.inj h).1

variable {name : String} {i : Nat}

mutual

/-- A reference that is written into a function leaves its outline alone. -/
theorem Function.Writes.outline_eq {n : Nat} : ∀ {f f' : Function},
    Function.Writes name i n f f' → f'.outline = f.outline
  | _, _, .body h => by rw [Function.outline, Function.outline, h.size_eq]
  | _, _, .inner h => by rw [Function.outline, Function.outline, h.outline_eq]

theorem FunctionsWrites.outline_eq {n : Nat} : ∀ {fs fs' : List Function},
    FunctionsWrites name i n fs fs' → functionsOutline fs' = functionsOutline fs
  | _, _, .head h | _, _, .tail h => by
    rw [functionsOutline, functionsOutline, h.outline_eq]

end

theorem Module.Writes.outline_eq {n : Nat} {m m' : Module} (h : Module.Writes name i n m m') :
    m'.outline = m.outline := by
  cases h with
  | body h => rw [Module.outline, Module.outline, h.size_eq]
  | functions h => rw [Module.outline, Module.outline, h.outline_eq]

theorem ModulesWrites.outline_eq {n : Nat} {ms ms' : List Module}
    (h : ModulesWrites name i n ms ms') : ms'.map Module.outline = ms.map Module.outline := by
  induction h with
  | head h => rw [List.map_cons, List.map_cons, h.outline_eq]
  | tail _ ih => rw [List.map_cons, List.map_cons, ih]

end Source

namespace Program

/-- Programs with the same scopes, whose functions have the same names and whose statements have the
same scopes. -/
structure Parallel (p p' : Program) : Prop where
  scopes : p'.scopes = p.scopes
  functions : p'.functions.map Function.name = p.functions.map Function.name
  stmts : p'.stmts.map Stmt.scope = p.stmts.map Stmt.scope

namespace Parallel

variable {p p' : Program}

theorem refl (p : Program) : p.Parallel p :=
  ⟨rfl, rfl, rfl⟩

theorem function_name (h : p.Parallel p') (id : FnId) :
    (p'.function? id).map Function.name = (p.function? id).map Function.name := by
  rw [function?, function?, ← Array.getElem?_map, ← Array.getElem?_map, h.functions]

/-- The same functions are visible. -/
theorem visible_eq (h : p.Parallel p') (scope : ScopeId) (name : String) :
    p'.visible scope name = p.visible scope name :=
  visible_congr h.scopes h.function_name scope name

theorem stmt_scope (h : p.Parallel p') (i : StmtId) :
    (p'.stmt? i).map Stmt.scope = (p.stmt? i).map Stmt.scope := by
  rw [stmt?, stmt?, ← Array.getElem?_map, ← Array.getElem?_map, h.stmts]

theorem functions_size (h : p.Parallel p') : p'.functions.size = p.functions.size := by
  simpa using congrArg Array.size h.functions

end Parallel

end Program

namespace Link

variable {l₁ l₁' l₂ l₂' : Linker}

/-! ### Side by side -/

theorem parallel_pushScope (h : l₁.program.Parallel l₂.program) (outer : ScopeId) :
    (pushScope l₁ outer).program.Parallel (pushScope l₂ outer).program :=
  ⟨congrArg (Array.push · _) h.scopes, h.functions, h.stmts⟩

theorem parallel_mapM_addVar (h : l₁.program.Parallel l₂.program) {names names' : List String}
    {ids ids' : List VarId} (h₁ : (names.mapM addVar).Gives l₁ ids l₁')
    (h₂ : (names'.mapM addVar).Gives l₂ ids' l₂') : l₁'.program.Parallel l₂'.program := by
  obtain ⟨-, _, rfl⟩ := gives_mapM_addVar h₁
  obtain ⟨-, _, rfl⟩ := gives_mapM_addVar h₂
  exact ⟨h.scopes, h.functions, h.stmts⟩

theorem parallel_pushFunction (h : l₁.program.Parallel l₂.program) {f f' : Function}
    (hname : f'.name = f.name) (hscope : f'.scope = f.scope) :
    (pushFunction l₁ f).program.Parallel (pushFunction l₂ f').program := by
  refine ⟨?_, ?_, h.stmts⟩
  · simp only [pushFunction, h.scopes, hscope, h.functions_size]
  · simp only [pushFunction, Array.map_push, h.functions, hname]

theorem parallel_mapM_declareFunction {scope : ScopeId} {fs fs' : List Source.Function}
    (houtline : Source.functionsOutline fs' = Source.functionsOutline fs) {ids ids' : List FnId}
    (h₁ : (fs.mapM (declareFunction scope)).Gives l₁ ids l₁')
    (h₂ : (fs'.mapM (declareFunction scope)).Gives l₂ ids' l₂')
    (h : l₁.program.Parallel l₂.program) : ids' = ids ∧ l₁'.program.Parallel l₂'.program := by
  induction fs generalizing fs' ids ids' l₁ l₂ with
  | nil =>
    cases fs' with
    | cons f' fs' => cases houtline
    | nil =>
      obtain ⟨rfl, rfl⟩ := gives_pure.1 (show (pure [] : Link _).Gives l₁ ids l₁' from h₁)
      obtain ⟨rfl, rfl⟩ := gives_pure.1 (show (pure [] : Link _).Gives l₂ ids' l₂' from h₂)
      exact ⟨rfl, h⟩
  | cons f fs ih =>
    cases fs' with
    | nil => cases houtline
    | cons f' fs' =>
      obtain ⟨hf, hfs⟩ := List.cons.inj houtline
      simp only [List.mapM_cons, declareFunction, gives_bind, gives_addFunction,
        gives_pure] at h₁ h₂
      obtain ⟨_, _, ⟨_, _, hxs₁, rfl, rfl⟩, _, _, hrest₁, rfl, rfl⟩ := h₁
      obtain ⟨_, _, ⟨_, _, hxs₂, rfl, rfl⟩, _, _, hrest₂, rfl, rfl⟩ := h₂
      have hvars := parallel_mapM_addVar h hxs₁ hxs₂
      obtain ⟨rfl, hpar⟩ := ih hfs hrest₁ hrest₂
        (parallel_pushFunction hvars (Source.Function.name_of_outline hf) rfl)
      rw [hvars.functions_size]
      exact ⟨rfl, hpar⟩

/-- **Linking a body** adds its statements, all in the scope that it is linked in. -/
theorem stmt_scopes_body {scope : ScopeId} {ss : List Source.Stmt} {l l' : Linker}
    {first : Option StmtId} (h : (body scope ss).Gives l first l') :
    l'.program.stmts.map Stmt.scope =
      l.program.stmts.map Stmt.scope ++ Array.replicate (Source.stmtsSize ss) scope := by
  obtain ⟨hadv, m, hmark, hat⟩ := body_placed h
  have hseq := hat l'.program (.refl 0 _)
  have hsize : l'.program.stmts.size = l.program.stmts.size + Source.stmtsSize ss :=
    (congrArg Mark.stmts hmark).trans (Program.seqAt_stmts hseq :)
  refine Array.ext_getElem? fun i => ?_
  rw [Array.getElem?_map, Array.getElem?_append, Array.size_map, Array.getElem?_map,
    Array.getElem?_replicate]
  split
  · -- What was there before stays in its scope.
    rename_i hi
    obtain ⟨kind, -, hs⟩ := hadv.1.keeps.stmts ⟨i⟩ _ (Nat.zero_le _) (Array.getElem?_eq_getElem hi)
    rw [Array.getElem?_eq_getElem hi]
    exact (congrArg (Option.map Stmt.scope) hs :)
  · rename_i hi
    split
    · rename_i hlt
      have hi' : i < l'.program.stmts.size := by omega
      have hm : i < m.stmts := Nat.lt_of_lt_of_eq hi' (congrArg Mark.stmts hmark)
      have ht : l'.program.stmt? ⟨i⟩ = some l'.program.stmts[i] := Array.getElem?_eq_getElem hi'
      rw [Array.getElem?_eq_getElem hi']
      exact congrArg some (Program.seqAt_scope hseq ht (Nat.le_of_not_lt hi) hm)
    · rw [Array.getElem?_eq_none (by omega)]
      rfl

theorem parallel_body {scope : ScopeId} {ss ss' : List Source.Stmt} {first first' : Option StmtId}
    (hsize : Source.stmtsSize ss' = Source.stmtsSize ss)
    (h₁ : (body scope ss).Gives l₁ first l₁') (h₂ : (body scope ss').Gives l₂ first' l₂')
    (h : l₁.program.Parallel l₂.program) : l₁'.program.Parallel l₂'.program := by
  refine ⟨?_, ?_, ?_⟩
  · rw [(body_placed h₁).1.1.rest, (body_placed h₂).1.1.rest]
    exact h.scopes
  · rw [functions_body h₁, functions_body h₂]
    exact h.functions
  · rw [stmt_scopes_body h₁, stmt_scopes_body h₂, hsize, h.stmts]

/-- The names of the functions do not depend on their bodies. -/
theorem names_putBody (l : Linker) (id : FnId) (first : Option StmtId) :
    (putBody l id first).program.functions.map Function.name =
      l.program.functions.map Function.name := by
  refine Array.ext_getElem? fun i => ?_
  rw [Array.getElem?_map, Array.getElem?_map]
  show ((putBody l id first).program.function? ⟨i⟩).map Function.name =
    (l.program.function? ⟨i⟩).map Function.name
  rw [function?_putBody]
  split
  · rw [Option.map_map]
    rfl
  · rfl

theorem parallel_putBody (h : l₁.program.Parallel l₂.program) (id : FnId)
    (first first' : Option StmtId) :
    (putBody l₁ id first).program.Parallel (putBody l₂ id first').program :=
  ⟨h.scopes, by rw [names_putBody, names_putBody, h.functions], h.stmts⟩

mutual

/-- **Functions with the same outline** are linked side by side. -/
theorem parallel_function : ∀ {f f' : Source.Function} {outer : ScopeId} {id : FnId}
    {l₁ l₁' l₂ l₂' : Linker} {u u' : Unit}, f'.outline = f.outline →
      (function outer id f).Gives l₁ u l₁' → (function outer id f').Gives l₂ u' l₂' →
      l₁.program.Parallel l₂.program → l₁'.program.Parallel l₂'.program
  | .mk _ _ _ _, .mk _ _ _ _, outer, id, l₁, l₁', l₂, l₂', u, u', houtline, h₁, h₂, h => by
    obtain ⟨-, hsize, hinner⟩ := Outline.mk.inj houtline
    obtain ⟨_, _, first₁, _, _, hids₁, hbody₁, hseq₁, rfl⟩ := gives_function h₁
    obtain ⟨_, _, first₂, _, _, hids₂, hbody₂, hseq₂, rfl⟩ := gives_function h₂
    rw [h.scopes] at hids₂ hbody₂ hseq₂
    obtain ⟨rfl, hpar⟩ := parallel_mapM_declareFunction hinner hids₁ hids₂
      (parallel_pushScope h outer)
    have hpar' := parallel_putBody (parallel_body hsize hbody₁ hbody₂ hpar) id first₁ first₂
    exact (parallel_functionSeq hinner hseq₁ hseq₂ hpar' :)

theorem parallel_functionSeq : ∀ {fs fs' : List Source.Function} {outer : ScopeId}
    {ids : List FnId} {l₁ l₁' l₂ l₂' : Linker} {u u' : Unit},
      Source.functionsOutline fs' = Source.functionsOutline fs →
      (functionSeq outer ids fs).Gives l₁ u l₁' → (functionSeq outer ids fs').Gives l₂ u' l₂' →
      l₁.program.Parallel l₂.program → l₁'.program.Parallel l₂'.program
  | [], [], _, _, _, _, _, _, _, _, _, h₁, h₂, h => by
    simp only [functionSeq, gives_pure] at h₁ h₂
    obtain ⟨-, rfl⟩ := h₁
    obtain ⟨-, rfl⟩ := h₂
    exact h
  | f :: fs, f' :: fs', _, [], _, _, _, _, _, _, _, h₁, h₂, h => by
    simp only [functionSeq, gives_pure] at h₁ h₂
    obtain ⟨-, rfl⟩ := h₁
    obtain ⟨-, rfl⟩ := h₂
    exact h
  | f :: fs, f' :: fs', _, id :: ids, _, _, _, _, _, _, houtline, h₁, h₂, h => by
    obtain ⟨hf, hfs⟩ := List.cons.inj houtline
    simp only [functionSeq, gives_bind] at h₁ h₂
    obtain ⟨_, _, hf₁, hfs₁⟩ := h₁
    obtain ⟨_, _, hf₂, hfs₂⟩ := h₂
    exact parallel_functionSeq hfs hfs₁ hfs₂ (parallel_function hf hf₁ hf₂ h)

end

theorem parallel_module {m m' : Source.Module} (houtline : m'.outline = m.outline)
    {ids ids' : List FnId} (h₁ : (module m).Gives l₁ ids l₁') (h₂ : (module m').Gives l₂ ids' l₂')
    (h : l₁.program.Parallel l₂.program) : l₁'.program.Parallel l₂'.program := by
  obtain ⟨-, hsize, hfunctions⟩ := Outline.mk.inj houtline
  obtain ⟨_, _, _, _, hids₁, hbody₁, hseq₁, rfl⟩ := gives_module h₁
  obtain ⟨_, _, _, _, hids₂, hbody₂, hseq₂, rfl⟩ := gives_module h₂
  rw [h.scopes] at hids₂ hbody₂ hseq₂
  obtain ⟨rfl, hpar⟩ := parallel_mapM_declareFunction hfunctions hids₁ hids₂
    (parallel_pushScope h _)
  have hpar' := parallel_functionSeq hfunctions hseq₁ hseq₂ (parallel_body hsize hbody₁ hbody₂ hpar)
  exact ⟨hpar'.scopes, hpar'.functions, hpar'.stmts⟩

theorem parallel_mapM_module {ms ms' : List Source.Module}
    (houtlines : ms'.map Source.Module.outline = ms.map Source.Module.outline)
    {ids ids' : List (List FnId)} (h₁ : (ms.mapM module).Gives l₁ ids l₁')
    (h₂ : (ms'.mapM module).Gives l₂ ids' l₂') (h : l₁.program.Parallel l₂.program) :
    l₁'.program.Parallel l₂'.program := by
  induction ms generalizing ms' ids ids' l₁ l₂ with
  | nil =>
    cases List.map_eq_nil_iff.1 houtlines
    obtain ⟨-, rfl⟩ := gives_pure.1 (show (pure [] : Link _).Gives l₁ ids l₁' from h₁)
    obtain ⟨-, rfl⟩ := gives_pure.1 (show (pure [] : Link _).Gives l₂ ids' l₂' from h₂)
    exact h
  | cons m ms ih =>
    cases ms' with
    | nil => cases houtlines
    | cons m' ms' =>
      obtain ⟨hm, hms⟩ := List.cons.inj houtlines
      simp only [List.mapM_cons, gives_bind, gives_pure] at h₁ h₂
      obtain ⟨_, _, hm₁, _, _, hrest₁, -, rfl⟩ := h₁
      obtain ⟨_, _, hm₂, _, _, hrest₂, -, rfl⟩ := h₂
      exact ih hms hrest₁ hrest₂ (parallel_module hm hm₁ hm₂ h)

end Link

/-- **Definitions with the same outline** are linked to programs with the same scopes, the same
function names, and statements in the same scopes. -/
theorem Program.parallel_of_link {d d' : Source.Program} {p p' : Program}
    (houtlines : d'.modules.map Source.Module.outline = d.modules.map Source.Module.outline)
    (h : link d = .ok p) (h' : link d' = .ok p') : p.Parallel p' := by
  obtain ⟨_, _, _, hids, -, rfl⟩ := gives_of_link h
  obtain ⟨_, _, _, hids', -, rfl⟩ := gives_of_link h'
  have hpar := Link.parallel_mapM_module houtlines hids hids' (.refl base)
  exact ⟨hpar.scopes, hpar.functions, hpar.stmts⟩

end TreeMachine
