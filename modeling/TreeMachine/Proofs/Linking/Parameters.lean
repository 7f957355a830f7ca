import TreeMachine.Proofs.Linking.Modules

/-!
# The parameters of linked functions

The parameters of a function get variables of their own when it is declared, and keep them when it
is given a body. So no function of a linked program has a variable twice among its parameters
(`Program.distinctParams_of_link`), and each argument of a call is bound to another variable.

A definition may use a name twice among the parameters of a function. Both of them are variables
then, of which the body can refer to the later one only. So this is not a condition that linking
checks but a consequence of how it hands out ids: each parameter is added to the table of variables,
and its id is the size of the table before.

The proof follows functions through linking. Bodies add variables and no functions, and the only
change to a function is that its body is set (`Link.distinct_putBody`). The primitives of the base
have no parameters of this kind.
-/

namespace TreeMachine

/-- No function has a variable twice among its parameters. -/
def Program.DistinctParams (p : Program) : Prop :=
  ∀ id f, p.function? id = some f → f.params.Nodup

theorem Program.DistinctParams.of_eq {p p' : Program} (h : p.DistinctParams)
    (hfunctions : p'.functions = p.functions) : p'.DistinctParams := by
  intro id f hf
  rw [Program.function?, hfunctions] at hf
  exact h id f hf

namespace Link

variable {l l' : Linker}

theorem functions_mapM_addVar {names : List String} {ids : List VarId}
    (h : (names.mapM addVar).Gives l ids l') : l'.program.functions = l.program.functions := by
  induction names generalizing l ids with
  | nil =>
    obtain ⟨-, rfl⟩ := gives_pure.1 (show (pure [] : Link _).Gives l ids l' from h)
    rfl
  | cons name names ih =>
    simp only [List.mapM_cons, gives_bind, gives_addVar, gives_pure] at h
    obtain ⟨_, _, ⟨-, rfl⟩, _, _, hrest, -, rfl⟩ := h
    have hsame := ih hrest
    exact hsame

/-- A function is declared with new variables. -/
theorem distinct_declareFunction {scope : ScopeId} {f : Source.Function} {id : FnId}
    (h : l.program.DistinctParams) (hx : (declareFunction scope f).Gives l id l') :
    l'.program.DistinctParams := by
  simp only [declareFunction, gives_bind, gives_addFunction] at hx
  obtain ⟨params, l₁, hparams, -, rfl⟩ := hx
  have hl₁ := h.of_eq (functions_mapM_addVar hparams)
  obtain ⟨-, rfl⟩ := between_mapM_addVar hparams
  intro j g hg
  rw [function?_pushFunction] at hg
  split at hg
  · cases hg
    exact VarId.nodup_between _ _
  · exact hl₁ j g hg

theorem distinct_mapM_declareFunction {scope : ScopeId} {fs : List Source.Function}
    {ids : List FnId} (h : l.program.DistinctParams)
    (hx : (fs.mapM (declareFunction scope)).Gives l ids l') : l'.program.DistinctParams := by
  induction fs generalizing l ids with
  | nil =>
    obtain ⟨-, rfl⟩ := gives_pure.1 (show (pure [] : Link _).Gives l ids l' from hx)
    exact h
  | cons f fs ih =>
    simp only [List.mapM_cons, gives_bind, gives_pure] at hx
    obtain ⟨_, l₁, hid, _, _, hrest, -, rfl⟩ := hx
    exact ih (distinct_declareFunction h hid) hrest

/-- A function keeps its parameters when it is given a body. -/
theorem distinct_putBody (h : l.program.DistinctParams) (id : FnId) (first : Option StmtId) :
    (putBody l id first).program.DistinctParams := by
  intro j g hg
  rw [function?_putBody] at hg
  split at hg
  · obtain ⟨g', hg', rfl⟩ := Option.map_eq_some_iff.1 hg
    exact h j g' hg'
  · exact h j g hg

mutual

theorem distinct_function : ∀ {f : Source.Function} {outer : ScopeId} {id : FnId} {l l' : Linker}
    {u : Unit}, l.program.DistinctParams → (function outer id f).Gives l u l' →
      l'.program.DistinctParams
  | .mk _ _ functions ss, outer, id, l, l', u, h, hx => by
    obtain ⟨inner, l₁, first, l₂, l₃, hinner, hbody, hseq, rfl⟩ := gives_function hx
    have hl₁ := distinct_mapM_declareFunction (l := pushScope l outer) (h.of_eq rfl) hinner
    have hsame := functions_body hbody
    have hl₃ := distinct_functionSeq (distinct_putBody (hl₁.of_eq hsame) id first) hseq
    exact hl₃

theorem distinct_functionSeq : ∀ {fs : List Source.Function} {outer : ScopeId} {ids : List FnId}
    {l l' : Linker} {u : Unit}, l.program.DistinctParams → (functionSeq outer ids fs).Gives l u l' →
      l'.program.DistinctParams
  | [], outer, ids, l, l', u, h, hx => by
    simp only [functionSeq, gives_pure] at hx
    obtain ⟨-, rfl⟩ := hx
    exact h
  | f :: fs, outer, [], l, l', u, h, hx => by
    simp only [functionSeq, gives_pure] at hx
    obtain ⟨-, rfl⟩ := hx
    exact h
  | f :: fs, outer, id :: ids, l, l', u, h, hx => by
    simp only [functionSeq, gives_bind] at hx
    obtain ⟨_, l₁, hf, hfs⟩ := hx
    exact distinct_functionSeq (distinct_function h hf) hfs

end

theorem distinct_module {m : Source.Module} {ids : List FnId} (h : l.program.DistinctParams)
    (hx : (module m).Gives l ids l') : l'.program.DistinctParams := by
  obtain ⟨l₁, first, l₂, l₃, hids, hbody, hseq, rfl⟩ := gives_module hx
  have hl₁ := distinct_mapM_declareFunction (l := pushScope l Program.rootScope) (h.of_eq rfl) hids
  have hsame := functions_body hbody
  exact (distinct_functionSeq (hl₁.of_eq hsame) hseq).of_eq rfl

theorem distinct_mapM_module {ms : List Source.Module} {ids : List (List FnId)}
    (h : l.program.DistinctParams) (hx : (ms.mapM module).Gives l ids l') :
    l'.program.DistinctParams := by
  induction ms generalizing l ids with
  | nil =>
    obtain ⟨-, rfl⟩ := gives_pure.1 (show (pure [] : Link _).Gives l ids l' from hx)
    exact h
  | cons m ms ih =>
    simp only [List.mapM_cons, gives_bind, gives_pure] at hx
    obtain ⟨_, l₁, hm, _, _, hms, -, rfl⟩ := hx
    exact ih (distinct_module h hm) hms

end Link

namespace Program

theorem base_distinctParams : base.DistinctParams := by
  intro id f hf
  have hmem : f ∈ Primitive.all.map fun p =>
      (⟨p.name, [], .primitive p, rootScope⟩ : Function) :=
    List.mem_toArray.1 (Array.mem_of_getElem? hf)
  obtain ⟨q, -, rfl⟩ := List.mem_map.1 hmem
  exact .nil

/-- **The parameters of a linked function** are different variables. -/
theorem distinctParams_of_link {d : Source.Program} {p : Program} (h : link d = .ok p) :
    p.DistinctParams := by
  obtain ⟨ids, l, first, hids, -, rfl⟩ := gives_of_link h
  exact (Link.distinct_mapM_module (l := ⟨base, [], [], []⟩) base_distinctParams hids).of_eq rfl

end Program

end TreeMachine
