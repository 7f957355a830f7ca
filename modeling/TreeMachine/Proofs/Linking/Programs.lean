import TreeMachine.Proofs.Linking.Tables

/-!
# Linked programs are well-formed

Functions and modules are linked by declarations and links of bodies, so the tables stay sound from
the primitives on. The main result is `Program.wellFormed_of_link`.

Well-formed tables are all that most statements about runs need to know of linking: ids are in
range, numbers grow along successors and into sequences, expressions come after their parts, jumps
go to labels, parents and scopes are what the structure says, and parameters are variables. It is a
property of the tables alone, which does not mention a definition. A program that was not linked may
have it too.

Linking a program is broken into what its modules give from the base on, and the entry that is noted
down last (`Program.gives_of_link`). This form is used wherever a whole program is considered. The
base has the primitives, in the outermost scope, and no statements (`Program.base_sound`). It is the
only part of the tables that is not built by the steps of linking.
-/

namespace TreeMachine

namespace Link

variable {l l' : Linker}

/-! ### Declaring functions -/

theorem leads_mapM_addVar {names : List String} {ids : List VarId} (h : l.Sound)
    (hx : (names.mapM addVar).Gives l ids l') :
    l.Leads l' ∧ ∀ x ∈ ids, x.index < l'.program.vars.size := by
  induction names generalizing l ids with
  | nil =>
    obtain ⟨rfl, rfl⟩ := gives_pure.1 (show (pure [] : Link _).Gives l ids l' from hx)
    exact ⟨.refl h, nofun⟩
  | cons name names ih =>
    simp only [List.mapM_cons, gives_bind, gives_addVar, gives_pure] at hx
    obtain ⟨_, _, ⟨rfl, rfl⟩, rest, l₁, hrest, rfl, rfl⟩ := hx
    have hpush := leads_pushVar h name
    obtain ⟨hl, hids⟩ := ih hpush.sound hrest
    refine ⟨hpush.trans hl, fun x hx => ?_⟩
    rcases List.mem_cons.1 hx with rfl | hx
    · have hlt : l.mark.varId.index < (pushVar l name).program.vars.size := by
        simp [Linker.mark, Mark.varId, pushVar]
      exact Nat.lt_of_lt_of_le hlt hl.extends.vars
    · exact hids x hx

theorem leads_declareFunction {scope : ScopeId} (hscope : scope.index < l.program.scopes.size)
    {f : Source.Function} {id : FnId} (h : l.Sound)
    (hx : (declareFunction scope f).Gives l id l') :
    l.Leads l' ∧ id.index < l'.program.functions.size := by
  simp only [declareFunction, gives_bind, gives_addFunction] at hx
  obtain ⟨params, l₁, hparams, rfl, rfl⟩ := hx
  obtain ⟨hl, hids⟩ := leads_mapM_addVar h hparams
  have hfits : l₁.program.FunctionFits ⟨f.name, params, .code none, scope⟩ := by
    refine ⟨Nat.lt_of_lt_of_le hscope hl.extends.scopes, hids, fun first hb c hc => ?_⟩
    cases hb
    cases hc
  obtain ⟨hpush, hid⟩ := leads_pushFunction hl.sound hfits
  exact ⟨hl.trans hpush, hid⟩

theorem leads_mapM_declareFunction {scope : ScopeId}
    (hscope : scope.index < l.program.scopes.size) {fs : List Source.Function} {ids : List FnId}
    (h : l.Sound) (hx : (fs.mapM (declareFunction scope)).Gives l ids l') :
    l.Leads l' ∧ ∀ id ∈ ids, id.index < l'.program.functions.size := by
  induction fs generalizing l ids with
  | nil =>
    obtain ⟨rfl, rfl⟩ := gives_pure.1 (show (pure [] : Link _).Gives l ids l' from hx)
    exact ⟨.refl h, nofun⟩
  | cons f fs ih =>
    simp only [List.mapM_cons, gives_bind, gives_pure] at hx
    obtain ⟨id, l₁, hid, rest, l₂, hrest, rfl, rfl⟩ := hx
    obtain ⟨hl₁, hlt⟩ := leads_declareFunction hscope h hid
    obtain ⟨hl₂, hids⟩ :=
      ih (Nat.lt_of_lt_of_le hscope hl₁.extends.scopes) hl₁.sound hrest
    refine ⟨hl₁.trans hl₂, fun i hi => ?_⟩
    rcases List.mem_cons.1 hi with rfl | hi
    · exact Nat.lt_of_lt_of_le hlt hl₂.extends.keeps.functions_size
    · exact hids i hi

/-! ### Bodies of functions -/

/-- The parameters of a declared function are variables. -/
theorem lt_of_mem_paramFrame (h : l.Sound) (id : FnId) (params : List String) :
    ∀ b ∈ paramFrame l id params, b.2.index < l.program.vars.size := by
  intro b hb
  have hmem := (List.of_mem_zip (List.mem_reverse.1 hb)).2
  cases hf : l.program.function? id with
  | none =>
    rw [hf] at hmem
    cases hmem
  | some f =>
    rw [hf] at hmem
    exact (h.program.functions id f hf).params b.2 hmem

mutual

theorem leads_function : ∀ {f : Source.Function} {outer : ScopeId} {id : FnId} {l l' : Linker}
    {u : Unit}, outer.index < l.program.scopes.size → l.Sound →
      (function outer id f).Gives l u l' → l.Leads l'
  | .mk name params functions ss, outer, id, l, l', u, houter, h, hx => by
    obtain ⟨inner, l₁, first, l₂, l₃, hinner, hbody, hseq, rfl⟩ := gives_function hx
    have hpush := leads_pushScope h houter
    have hscope : (⟨l.program.scopes.size⟩ : ScopeId).index <
        (pushScope l outer).program.scopes.size := by
      simp [pushScope]
    obtain ⟨hl₁, -⟩ := leads_mapM_declareFunction hscope hpush.sound hinner
    have henter := hl₁.sound.enter (lt_of_mem_paramFrame hl₁.sound id params)
    have hscope₁ := Nat.lt_of_lt_of_le hscope hl₁.extends.scopes
    obtain ⟨hl₂, hfirst⟩ := leads_body henter hscope₁ hbody
    have hput := leads_putBody hl₂.sound id hfirst
    have hscope₂ := Nat.lt_of_lt_of_le hscope₁ (hl₂.trans hput).extends.scopes
    have hrest := leads_functionSeq hscope₂ hput.sound hseq
    exact hpush.trans (hl₁.trans ((hl₂.trans (hput.trans hrest)).leave hl₁.sound))

theorem leads_functionSeq : ∀ {fs : List Source.Function} {outer : ScopeId} {ids : List FnId}
    {l l' : Linker} {u : Unit}, outer.index < l.program.scopes.size → l.Sound →
      (functionSeq outer ids fs).Gives l u l' → l.Leads l'
  | [], outer, ids, l, l', u, _, h, hx => by
    simp only [functionSeq, gives_pure] at hx
    obtain ⟨-, rfl⟩ := hx
    exact .refl h
  | f :: fs, outer, [], l, l', u, _, h, hx => by
    simp only [functionSeq, gives_pure] at hx
    obtain ⟨-, rfl⟩ := hx
    exact .refl h
  | f :: fs, outer, id :: ids, l, l', u, houter, h, hx => by
    simp only [functionSeq, gives_bind] at hx
    obtain ⟨_, l₁, hf, hfs⟩ := hx
    have hl₁ := leads_function houter h hf
    exact hl₁.trans
      (leads_functionSeq (Nat.lt_of_lt_of_le houter hl₁.extends.scopes) hl₁.sound hfs)

end

/-! ### Modules and programs -/

/-- A module is added with a body that has been linked, in a scope that there is. -/
theorem leads_pushModule (h : l.Sound) {m : Module}
    (hscope : m.scope.index < l.program.scopes.size) (hbody : l.program.BodyFits m.body) :
    l.Leads (pushModule l m) := by
  have hext : l.program.Extends (pushModule l m).program :=
    ⟨⟨fun i s _ hs => ⟨s.kind, .refl _, hs⟩, fun _ _ hx => hx, fun _ f hf => ⟨f.body, hf⟩⟩,
      Nat.le_refl _, Nat.le_refl _⟩
  refine h.leads_declare hext (h.program.declare hext rfl rfl
    (fun id f hf => (h.program.functions id f hf).mono hext)
    (fun i s hs => (h.program.scopes i s hs).mono hext) (fun m' hm' => ?_) rfl) rfl
  rcases Array.mem_push.1 hm' with hm' | rfl
  · exact h.program.modules_mono hext m' hm'
  · exact ⟨hscope, hbody.mono hext⟩

theorem leads_module {m : Source.Module} {ids : List FnId} (h : l.Sound)
    (hx : (module m).Gives l ids l') :
    l.Leads l' ∧ ∀ id ∈ ids, id.index < l'.program.functions.size := by
  obtain ⟨l₁, first, l₂, l₃, hids, hbody, hseq, rfl⟩ := gives_module hx
  have hpush : l.Leads (pushScope l Program.rootScope) := leads_pushScope h h.program.root
  have hscope : (⟨l.program.scopes.size⟩ : ScopeId).index <
      (pushScope l Program.rootScope).program.scopes.size := by
    simp [pushScope]
  obtain ⟨hl₁, hlt⟩ := leads_mapM_declareFunction hscope hpush.sound hids
  have henter := hl₁.sound.enter (List.forall_mem_nil _)
  have hscope₁ := Nat.lt_of_lt_of_le hscope hl₁.extends.scopes
  obtain ⟨hl₂, hfirst⟩ := leads_body henter hscope₁ hbody
  have hscope₂ := Nat.lt_of_lt_of_le hscope₁ hl₂.extends.scopes
  have hrest := leads_functionSeq hscope₂ hl₂.sound hseq
  have hl₃ := (hl₂.trans hrest).leave hl₁.sound
  have hadd : l₁.Leads (pushModule { l₃ with frames := l₁.frames } ⟨m.name, first, _⟩) :=
    hl₃.trans (leads_pushModule hl₃.sound (Nat.lt_of_lt_of_le hscope₂ hrest.extends.scopes)
      (hfirst.mono hrest.extends))
  exact ⟨hpush.trans (hl₁.trans hadd), fun id hid =>
    Nat.lt_of_lt_of_le (hlt id hid) hadd.extends.keeps.functions_size⟩

theorem leads_mapM_module {ms : List Source.Module} {ids : List (List FnId)} (h : l.Sound)
    (hx : (ms.mapM module).Gives l ids l') :
    l.Leads l' ∧ ∀ id ∈ ids.flatten, id.index < l'.program.functions.size := by
  induction ms generalizing l ids with
  | nil =>
    obtain ⟨rfl, rfl⟩ := gives_pure.1 (show (pure [] : Link _).Gives l ids l' from hx)
    exact ⟨.refl h, nofun⟩
  | cons m ms ih =>
    simp only [List.mapM_cons, gives_bind, gives_pure] at hx
    obtain ⟨first, l₁, hfirst, rest, l₂, hrest, rfl, rfl⟩ := hx
    obtain ⟨hl₁, hlt⟩ := leads_module h hfirst
    obtain ⟨hl₂, hids⟩ := ih hl₁.sound hrest
    refine ⟨hl₁.trans hl₂, fun id hid => ?_⟩
    rcases List.mem_append.1 (List.flatten_cons ▸ hid) with hid | hid
    · exact Nat.lt_of_lt_of_le (hlt id hid) hl₂.extends.keeps.functions_size
    · exact hids id hid

/-- The entry function is one of the candidates. -/
theorem mem_of_gives_entry {candidates : List FnId} {requested : Option String}
    {first : Option FnId} (hx : (entry candidates requested).Gives l first l') :
    l' = l ∧ ∀ f, first = some f → f ∈ candidates := by
  simp only [entry, gives_bind, gives_get] at hx
  obtain ⟨_, _, ⟨rfl, rfl⟩, hx⟩ := hx
  split at hx
  · rename_i f hf
    obtain ⟨rfl, rfl⟩ := gives_pure.1 hx
    refine ⟨rfl, fun g hg => ?_⟩
    cases hg
    exact (List.mem_filter.1 (hf ▸ List.mem_singleton_self f)).1
  · obtain ⟨rfl, rfl⟩ := gives_pure.1 hx
    refine ⟨rfl, fun f hf => ?_⟩
    cases hf
  · exact absurd hx not_gives_throw
  · exact absurd hx not_gives_throw

end Link

/-! ### The base -/

namespace Program

theorem base_functionFits {id : FnId} {f : Function} (h : base.function? id = some f) :
    base.FunctionFits f := by
  have hmem : f ∈ base.functions := Array.mem_of_getElem? h
  have hmem' : f ∈ Primitive.all.map fun p =>
      (⟨p.name, [], .primitive p, rootScope⟩ : Function) := List.mem_toArray.1 hmem
  obtain ⟨q, -, rfl⟩ := List.mem_map.1 hmem'
  exact ⟨Nat.zero_lt_one, nofun, nofun⟩

theorem base_scopeFits {i : ScopeId} {s : Scope} (h : base.scope? i = some s) :
    base.ScopeFits i s := by
  have hmem : s ∈ base.scopes := Array.mem_of_getElem? h
  obtain rfl := List.mem_singleton.1 (List.mem_toArray.1 hmem)
  refine ⟨nofun, fun f hf => ?_⟩
  obtain ⟨n, hn, rfl⟩ := List.mem_map.1 hf
  exact List.mem_range.1 hn

theorem base_sound : base.Sound :=
  ⟨nofun, nofun, nofun, fun _ _ => base_functionFits, fun _ _ => base_scopeFits,
    Nat.zero_lt_one, nofun, rfl⟩

/-- **A linked program** is what linking its modules gives from the base on, with the entry function
noted down last. -/
theorem gives_of_link {d : Source.Program} {p : Program} (h : link d = .ok p) :
    ∃ ids l first, (d.modules.mapM Link.module).Gives ⟨base, [], [], []⟩ ids l ∧
      (Link.entry ids.flatten d.entry).Gives l first l ∧
      p = { l.program with entry := first } := by
  rw [link] at h
  cases hrun : (Link.program d).run ⟨base, [], [], []⟩ with
  | error e => rw [hrun] at h; cases h
  | ok r =>
    rw [hrun] at h
    cases h
    have hgives : (Link.program d).Gives ⟨base, [], [], []⟩ r.1 r.2 := hrun
    simp only [Link.program, Link.gives_bind, Link.gives_modifyProgram] at hgives
    obtain ⟨ids, l, hids, first, _, hentry, hr⟩ := hgives
    obtain ⟨rfl, -⟩ := Link.mem_of_gives_entry hentry
    exact ⟨ids, _, first, hids, hentry, by rw [hr]⟩

/-- Whether the tables and the first module of a definition pass a test. -/
def tests (d : Source.Program) (test : Program → Module → Bool) : Bool :=
  match link d with
  | .ok p => p.modules[0]?.any (test p)
  | .error _ => false

theorem exists_of_tests {d : Source.Program} {test : Program → Module → Bool}
    (h : tests d test = true) :
    ∃ (p : Program) (m : Module), link d = .ok p ∧ m ∈ p.modules ∧ test p m = true := by
  unfold tests at h
  split at h
  · rename_i p hlink
    obtain ⟨m, hm, htest⟩ := (Option.any_eq_true _ _).1 h
    exact ⟨p, m, hlink, Array.mem_of_getElem? hm, htest⟩
  · cases h

/-- **Linked programs are well-formed.** -/
theorem wellFormed_of_link {d : Source.Program} {p : Program} (h : link d = .ok p) :
    p.WellFormed := by
  obtain ⟨ids, l, first, hids, hentry, rfl⟩ := gives_of_link h
  have hstart : Linker.Sound ⟨base, [], [], []⟩ := ⟨base_sound, rfl, rfl, List.forall_mem_nil _⟩
  obtain ⟨hl, hlt⟩ := Link.leads_mapM_module hstart hids
  obtain ⟨-, hfirst⟩ := Link.mem_of_gives_entry hentry
  have hext : l.program.Extends { l.program with entry := first } :=
    ⟨⟨fun i s _ hs => ⟨s.kind, .refl _, hs⟩, fun _ _ hx => hx, fun _ f hf => ⟨f.body, hf⟩⟩,
      Nat.le_refl _, Nat.le_refl _⟩
  have hsound := hl.sound.program.declare hext rfl rfl
    (fun id f hf => (hl.sound.program.functions id f hf).mono hext)
    (fun i s hs => (hl.sound.program.scopes i s hs).mono hext)
    (hl.sound.program.modules_mono hext) rfl
  exact hsound.wellFormed fun f hf => hlt f (hfirst f hf)

end Program

end TreeMachine
