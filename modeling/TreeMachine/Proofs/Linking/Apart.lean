import TreeMachine.Proofs.Linking.Bodies
import TreeMachine.Proofs.Linking.Programs

/-!
# The bodies of linked programs lie apart

Between the links of bodies no label and no jump is noted down, and the bodies that have been linked
so far lie apart (`Linker.Settled`). Declarations leave the statements alone, and linking a body
adds one that lies apart from the others. The main result is `Program.apart_of_link`.

That a new body lies apart from the earlier ones is due to its root: nothing leads to it, and all
that is new hangs from it. Bodies of closures that are linked on the way have roots of their own, to
which nothing leads either, because they are recorded in expressions (`Link.Grafts`).

Functions and modules take a body over that has been linked just before, and by then it is known to
begin with a statement that nothing leads to (`Linker.Settled.declare`). Nothing that is linked
afterwards leads to this statement, so it goes on to begin a body. This is why the relation between
two settled states has all the statements that begin bodies in it (`Linker.Settles`), and not only
the ones that functions have.
-/

namespace TreeMachine

/-- The state of the linker between the links of bodies. -/
structure Linker.Settled (l : Linker) : Prop where
  labels : l.labels = []
  jumps : l.jumps = []
  inside : l.program.LeadsInside
  apart : l.program.Apart

/-- The state of the linker is settled again, and what began a body goes on to do so. -/
structure Linker.Settles (l l' : Linker) : Prop where
  settled : l'.Settled
  begins : ∀ c, l.program.Begins c → l'.program.Begins c

namespace Linker

variable {l l' l'' : Linker}

theorem Settles.refl (h : l.Settled) : l.Settles l :=
  ⟨h, fun _ hc => hc⟩

theorem Settles.trans (h : l.Settles l') (h' : l'.Settles l'') : l.Settles l'' :=
  ⟨h'.settled, fun c hc => h'.begins c (h.begins c hc)⟩

/-- The frames of variables do not matter. -/
theorem Settled.withFrames (h : l.Settled) (fs : List (List (String × VarId))) :
    Linker.Settled { l with frames := fs } :=
  ⟨h.labels, h.jumps, h.inside, h.apart⟩

/-- Out of a frame of variables again. -/
theorem Settles.leave {fs : List (List (String × VarId))}
    (h : Linker.Settles { l with frames := fs } l') : l.Settles { l' with frames := l.frames } :=
  ⟨h.settled.withFrames _, h.begins⟩

/-- **Declarations** leave the statements alone. The bodies that functions and modules are given
have been linked before. -/
theorem Settled.declare (h : l.Settled) (hstmts : l'.program.stmts = l.program.stmts)
    (hlabels : l'.labels = l.labels) (hjumps : l'.jumps = l.jumps)
    (hfunctions : ∀ id f c, l'.program.function? id = some f → f.body.first = some c →
      l.program.Begins c)
    (hmodules : ∀ m ∈ l'.program.modules, ∀ c, m.body = some c → l.program.Begins c) :
    l.Settles l' := by
  have hstmt : ∀ i, l'.program.stmt? i = l.program.stmt? i := fun i => by
    rw [Program.stmt?, Program.stmt?, hstmts]
  have hleads : ∀ u t, l'.program.LeadsTo u t ↔ l.program.LeadsTo u t := fun u t => by
    rw [Program.LeadsTo, Program.LeadsTo, hstmt]
  have hbegins : ∀ c, l.program.Begins c → l'.program.Begins c := fun c hc =>
    ⟨by rw [hstmt]; exact hc.found, fun u hu => hc.free u ((hleads u c).1 hu)⟩
  refine ⟨⟨hlabels.trans h.labels, hjumps.trans h.jumps, fun u t hut => ?_,
    fun u u' t hut hut' => h.apart.unique u u' t ((hleads u t).1 hut) ((hleads u' t).1 hut'),
    fun id f c hf hc => hbegins c (hfunctions id f c hf hc),
    fun m hm c hc => hbegins c (hmodules m hm c hc), fun i s t hs hk => ?_⟩, hbegins⟩
  · rw [hstmts]
    exact h.inside u t ((hleads u t).1 hut)
  · obtain ⟨c, hc, hi, ht⟩ := h.apart.gotos i s t (hstmt i ▸ hs) hk
    exact ⟨c, hbegins c hc, hi.mono fun u t hut => (hleads u t).2 hut,
      ht.mono fun u t hut => (hleads u t).2 hut⟩

end Linker

namespace Link

variable {l l' : Linker}

/-! ### Declarations -/

theorem settles_mapM_addVar {names : List String} {ids : List VarId} (h : l.Settled)
    (hx : (names.mapM addVar).Gives l ids l') : l.Settles l' := by
  induction names generalizing l ids with
  | nil =>
    obtain ⟨-, rfl⟩ := gives_pure.1 (show (pure [] : Link _).Gives l ids l' from hx)
    exact .refl h
  | cons name names ih =>
    simp only [List.mapM_cons, gives_bind, gives_addVar, gives_pure] at hx
    obtain ⟨_, _, ⟨-, rfl⟩, _, _, hrest, -, rfl⟩ := hx
    have hpush : l.Settles (pushVar l name) :=
      h.declare rfl rfl rfl h.apart.functions h.apart.modules
    exact hpush.trans (ih hpush.settled hrest)

/-- A function that is declared has no body yet. -/
theorem settles_declareFunction {scope : ScopeId} {f : Source.Function} {id : FnId}
    (h : l.Settled) (hx : (declareFunction scope f).Gives l id l') : l.Settles l' := by
  simp only [declareFunction, gives_bind, gives_addFunction] at hx
  obtain ⟨params, l₁, hparams, -, rfl⟩ := hx
  have hvars := settles_mapM_addVar h hparams
  refine hvars.trans (hvars.settled.declare rfl rfl rfl (fun id g c hg hc => ?_)
    hvars.settled.apart.modules)
  have hg' : (l₁.program.functions.push ⟨f.name, params, .code none, scope⟩)[id.index]? = some g :=
    hg
  rw [Array.getElem?_push] at hg'
  split at hg'
  · cases hg'
    cases hc
  · exact hvars.settled.apart.functions id g c hg' hc

theorem settles_mapM_declareFunction {scope : ScopeId} {fs : List Source.Function}
    {ids : List FnId} (h : l.Settled) (hx : (fs.mapM (declareFunction scope)).Gives l ids l') :
    l.Settles l' := by
  induction fs generalizing l ids with
  | nil =>
    obtain ⟨-, rfl⟩ := gives_pure.1 (show (pure [] : Link _).Gives l ids l' from hx)
    exact .refl h
  | cons f fs ih =>
    simp only [List.mapM_cons, gives_bind, gives_pure] at hx
    obtain ⟨_, l₁, hid, _, _, hrest, -, rfl⟩ := hx
    have hl₁ := settles_declareFunction h hid
    exact hl₁.trans (ih hl₁.settled hrest)

/-! ### Bodies -/

/-- **Linking a body** adds one that lies apart from the others. -/
theorem settles_body {scope : ScopeId} {ss : List Source.Stmt} {first : Option StmtId}
    (h : l.Settled) (hx : (body scope ss).Gives l first l') :
    l.Settles l' ∧ ∀ c, first = some c → l'.program.Begins c := by
  obtain ⟨hgrafts, hfirst⟩ := grafts_body h.inside hx
  obtain ⟨hlabels, hjumps⟩ : l'.labels = l.labels ∧ l'.jumps = l.jumps := by
    obtain ⟨_, _, -, -, rfl⟩ := gives_withBody hx
    exact ⟨rfl, rfl⟩
  have hrest := (body_placed hx).1.1.rest
  refine ⟨⟨⟨hlabels.trans h.labels, hjumps.trans h.jumps, hgrafts.inside h.inside,
    fun u u' t hut hut' => ?_, fun id f c hf hc => ?_, fun m hm c hc => ?_,
    fun i s t hs hk => ?_⟩, fun c hc => hgrafts.begins hc⟩, hfirst⟩
  · -- A new statement belongs to the tree that is added, and an old one is led to as before.
    by_cases hnew : l.program.stmts.size ≤ t.index
    · exact hgrafts.unique u u' t hnew hut hut'
    · have hback : ∀ v, l'.program.LeadsTo v t → l.program.LeadsTo v t := fun v hv =>
        (hgrafts.new v t hv).resolve_right fun h => hnew h.1
      exact h.apart.unique u u' t (hback u hut) (hback u' hut')
  · exact hgrafts.begins (h.apart.functions id f c (by rw [← hf, hrest]; rfl) hc)
  · rw [hrest] at hm
    exact hgrafts.begins (h.apart.modules m hm c hc)
  · rcases hgrafts.gotos i s t hs hk with ⟨s₀, hs₀, hk₀⟩ | ⟨b, hb, -⟩ | ⟨c, -, -, hc, hi, ht⟩
    · obtain ⟨c, hc, hi, ht⟩ := h.apart.gotos i s₀ t hs₀ hk₀
      exact ⟨c, hgrafts.begins hc, hi.mono hgrafts.leads, ht.mono hgrafts.leads⟩
    · rw [hjumps, h.jumps] at hb
      cases hb
    · exact ⟨c, hc, hi, ht⟩

/-- A function is given a body that has been linked. -/
theorem settles_putBody (h : l.Settled) (id : FnId) {first : Option StmtId}
    (hfirst : ∀ c, first = some c → l.program.Begins c) : l.Settles (putBody l id first) := by
  refine h.declare rfl rfl rfl (fun j f c hf hc => ?_) h.apart.modules
  have hf' : (l.program.functions.modify id.index fun f =>
      { f with body := .code first })[j.index]? = some f := hf
  rw [Array.getElem?_modify] at hf'
  split at hf'
  · obtain ⟨_, -, rfl⟩ := Option.map_eq_some_iff.1 hf'
    exact hfirst c hc
  · exact h.apart.functions j f c hf' hc

theorem settles_pushScope (h : l.Settled) (parent : ScopeId) : l.Settles (pushScope l parent) :=
  h.declare rfl rfl rfl h.apart.functions h.apart.modules

mutual

theorem settles_function : ∀ {f : Source.Function} {outer : ScopeId} {id : FnId} {l l' : Linker}
    {u : Unit}, l.Settled → (function outer id f).Gives l u l' → l.Settles l'
  | .mk _ _ functions ss, outer, id, l, l', u, h, hx => by
    obtain ⟨inner, l₁, first, l₂, l₃, hinner, hbody, hseq, rfl⟩ := gives_function hx
    have hpush := settles_pushScope h outer
    have hdeclare := settles_mapM_declareFunction hpush.settled hinner
    obtain ⟨hl₂, hfirst⟩ := settles_body (hdeclare.settled.withFrames _) hbody
    have hput := settles_putBody hl₂.settled id hfirst
    have hrest := settles_functionSeq hput.settled hseq
    exact hpush.trans (hdeclare.trans (hl₂.trans (hput.trans hrest)).leave)

theorem settles_functionSeq : ∀ {fs : List Source.Function} {outer : ScopeId} {ids : List FnId}
    {l l' : Linker} {u : Unit}, l.Settled → (functionSeq outer ids fs).Gives l u l' → l.Settles l'
  | [], outer, ids, l, l', u, h, hx => by
    simp only [functionSeq, gives_pure] at hx
    obtain ⟨-, rfl⟩ := hx
    exact .refl h
  | f :: fs, outer, [], l, l', u, h, hx => by
    simp only [functionSeq, gives_pure] at hx
    obtain ⟨-, rfl⟩ := hx
    exact .refl h
  | f :: fs, outer, id :: ids, l, l', u, h, hx => by
    simp only [functionSeq, gives_bind] at hx
    obtain ⟨_, l₁, hf, hfs⟩ := hx
    have hl₁ := settles_function h hf
    exact hl₁.trans (settles_functionSeq hl₁.settled hfs)

end

/-! ### Modules and programs -/

theorem settles_module {m : Source.Module} {ids : List FnId} (h : l.Settled)
    (hx : (module m).Gives l ids l') : l.Settles l' := by
  obtain ⟨l₁, first, l₂, l₃, hids, hbody, hseq, rfl⟩ := gives_module hx
  have hpush := settles_pushScope h Program.rootScope
  have hdeclare := settles_mapM_declareFunction hpush.settled hids
  obtain ⟨hl₂, hfirst⟩ := settles_body (hdeclare.settled.withFrames _) hbody
  have hrest := settles_functionSeq hl₂.settled hseq
  have hl₃ := (hl₂.trans hrest).leave
  refine (hpush.trans (hdeclare.trans hl₃)).trans (hl₃.settled.declare rfl rfl rfl
    hl₃.settled.apart.functions fun m' hm' c hc => ?_)
  rcases Array.mem_push.1 hm' with hm' | rfl
  · exact hl₃.settled.apart.modules m' hm' c hc
  · exact hrest.begins c (hfirst c hc)

theorem settles_mapM_module {ms : List Source.Module} {ids : List (List FnId)} (h : l.Settled)
    (hx : (ms.mapM module).Gives l ids l') : l.Settles l' := by
  induction ms generalizing l ids with
  | nil =>
    obtain ⟨-, rfl⟩ := gives_pure.1 (show (pure [] : Link _).Gives l ids l' from hx)
    exact .refl h
  | cons m ms ih =>
    simp only [List.mapM_cons, gives_bind, gives_pure] at hx
    obtain ⟨_, l₁, hm, _, _, hms, -, rfl⟩ := hx
    have hl₁ := settles_module h hm
    exact hl₁.trans (ih hl₁.settled hms)

end Link

namespace Program

theorem base_apart : base.LeadsInside ∧ base.Apart := by
  have hempty : ∀ i, base.stmt? i = none := fun _ => rfl
  have hleads : ∀ u t, ¬base.LeadsTo u t := by
    rintro u t ⟨s, hs, -⟩
    rw [hempty] at hs
    cases hs
  refine ⟨fun u t h => absurd h (hleads u t), fun u _ t h _ => absurd h (hleads u t),
    fun id f c hf hc => ?_, nofun, fun i s t hs _ => ?_⟩
  · have hmem : f ∈ Primitive.all.map fun p =>
        (⟨p.name, [], .primitive p, rootScope⟩ : Function) :=
      List.mem_toArray.1 (Array.mem_of_getElem? hf)
    obtain ⟨q, -, rfl⟩ := List.mem_map.1 hmem
    cases hc
  · rw [hempty] at hs
    cases hs

/-- **The bodies of linked programs lie apart.** -/
theorem apart_of_link {d : Source.Program} {p : Program} (h : link d = .ok p) : p.Apart := by
  obtain ⟨ids, l, first, hids, -, rfl⟩ := gives_of_link h
  have hl := Link.settles_mapM_module ⟨rfl, rfl, base_apart.1, base_apart.2⟩ hids
  have hend : l.Settles { l with program := { l.program with entry := first } } :=
    hl.settled.declare rfl rfl rfl hl.settled.apart.functions hl.settled.apart.modules
  exact hend.settled.apart

end Program

end TreeMachine
