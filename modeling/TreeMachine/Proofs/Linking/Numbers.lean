import TreeMachine.Proofs.Linking.Effects

/-!
# Linking follows the numbers of the definition

What linking an expression, a statement or a sequence does to the state of the linker is read off
the definition (`Link.expr_effect`, `Link.stmt_effect`, `Link.stmts_effect`). A body forgets its
labels and jumps when it is complete, and its jumps have been resolved by then
(`Link.effect_withBody`).

These are the inductions that go with the description of effects. Each case has two parts: the
effects of the parts of a node are composed in the order in which they are linked, and the numbers
are added up. The number of a statement is that of the place in its body, so the induction carries
the place at which the part begins, together with the statements around it.

A closure begins a body in the middle of another one. Its statements count for the body around it,
as they take numbers there, while its labels and jumps do not. The jumps of a closure are therefore
in a list of their own, of those that are resolved already, and it is only shown of them that they
go to labels of their names and go on to do so.
-/

namespace TreeMachine

open Source (Landmark)

/-- What is around a place is so later on. -/
theorem Program.EnclosedBy.advance {l l' : Linker} {o : Option StmtId} {qs : List Nat}
    (h : l.program.EnclosedBy l.program.stmts.size o qs) (hadv : Link.Advances l l') :
    l'.program.EnclosedBy l'.program.stmts.size o qs :=
  h.mono hadv.1.keeps.places (Nat.le_refl _) hadv.stmts_size

namespace Link

variable {l l' l₁ : Linker} {base size : Nat} {declares : List String}
  {landmarks : List Landmark} {gotos : List (StmtId × String)}

/-! ### Inside statements -/

/-- Inside a statement that was added, it is around as well. -/
theorem enclosed_inside {n : Nat} {around : List Nat} {parent : Option StmtId}
    (hn : l.program.stmts.size = base + n)
    (haround : l.program.EnclosedBy l.program.stmts.size parent (around.map (base + ·)))
    (scope : ScopeId) : (pushStmt l parent scope).program.EnclosedBy
      (pushStmt l parent scope).program.stmts.size (some l.mark.stmtId)
      ((n :: around).map (base + ·)) := by
  have hid : l.mark.stmtId = ⟨base + n⟩ := congrArg StmtId.mk hn
  have hsize := stmts_size_pushStmt l parent scope
  refine ⟨congrArg some hid, show base + n < _ by omega, ?_⟩
  exact enclosed_new hn haround (advances_pushStmt l parent scope) (stmt?_of_advances (.refl _))

/-! ### Bodies -/

variable {js : List (StmtId × String)}

/-- Resolving jumps leaves the other statements alone. -/
theorem stmt?_forM {u : Unit} {i : StmtId} (hi : ∀ b ∈ js, b.1 ≠ i)
    (h : (js.forM resolveJump).Gives l u l') : l'.program.stmt? i = l.program.stmt? i := by
  induction js generalizing l with
  | nil =>
    obtain ⟨-, rfl⟩ := gives_pure.1 (show (pure () : Link Unit).Gives l u l' from h)
    rfl
  | cons j js ih =>
    obtain ⟨_, l₁, h₁, hrest⟩ :=
      gives_bind.1 (show (resolveJump j >>= fun _ => js.forM resolveJump).Gives l u l' from h)
    obtain ⟨target, -, -, rfl⟩ := gives_resolveJump h₁
    obtain ⟨hj, hjs⟩ := List.forall_mem_cons.1 hi
    rw [ih hjs hrest, stmt?_putKind, if_neg hj.symm]

/-- **Jumps that are resolved** go to labels of the names that they were written with. -/
theorem named_forM {u : Unit}
    (hlabels : ∀ b ∈ l.labels, ∃ s, l.program.stmt? b.2 = some s ∧ s.kind = .label b.1)
    (hjumps : ∀ b ∈ js, ∃ s, l.program.stmt? b.1 = some s ∧ s.kind.isGoto = true)
    (hdistinct : (js.map Prod.fst).Nodup) (h : (js.forM resolveJump).Gives l u l') :
    ∀ b ∈ js, l'.program.NamesLabel b.1 b.2 := by
  induction js generalizing l with
  | nil => nofun
  | cons j js ih =>
    obtain ⟨_, l₁, h₁, hrest⟩ :=
      gives_bind.1 (show (resolveJump j >>= fun _ => js.forM resolveJump).Gives l u l' from h)
    obtain ⟨target, ht, -, rfl⟩ := gives_resolveJump h₁
    obtain ⟨hj, hdistinct⟩ := List.nodup_cons.1 hdistinct
    obtain ⟨⟨s, hs, hg⟩, hjumps⟩ := List.forall_mem_cons.1 hjumps
    have hplaces := (keeps_putKind_goto hs hg target).places
    have hlabels' : ∀ b ∈ l.labels, ∃ s, (putKind l j.1 (.goto target)).program.stmt? b.2 = some s ∧
        s.kind = .label b.1 := by
      intro b hb
      obtain ⟨sb, hsb, hkb⟩ := hlabels b hb
      obtain ⟨s', hs', -, hl, -⟩ := hplaces _ sb hsb
      exact ⟨s', hs', hl _ hkb⟩
    have hjumps' : ∀ b ∈ js, ∃ s, (putKind l j.1 (.goto target)).program.stmt? b.1 = some s ∧
        s.kind.isGoto = true := by
      intro b hb
      obtain ⟨sb, hsb, hkb⟩ := hjumps b hb
      obtain ⟨s', hs', -, -, hg'⟩ := hplaces _ sb hsb
      exact ⟨s', hs', hg' hkb⟩
    refine List.forall_mem_cons.2 ⟨?_, ih hlabels' hjumps' hdistinct hrest⟩
    -- The jump has been given its label, and no other jump of the list is the same statement.
    have hnamed : (putKind l j.1 (.goto target)).program.NamesLabel j.1 j.2 := by
      obtain ⟨ls, rs, hls, -⟩ := List.lookup_eq_some_iff.1 ht
      obtain ⟨st, hst, hkt⟩ := hlabels' (j.2, target) (by simp [hls])
      refine ⟨{ s with kind := .goto target }, target, st, ?_, rfl, hst, hkt⟩
      rw [stmt?_putKind, if_pos rfl, hs]
      rfl
    have hrest' := stmt?_forM (i := j.1) (fun b hb hbj => hj (List.mem_map.2 ⟨b, hb, hbj⟩)) hrest
    exact hnamed.mono (resolves_forM hlabels' hjumps' hrest).grows.keeps.places
      (Program.keepsTarget_of_eq hrest')

/-- **A body** has labels and jumps of its own. When it is complete, all of them are forgotten, and
its jumps go to labels of their names. -/
theorem effect_withBody {α : Type} {x : Link α} {a : α} (h : (withBody x).Gives l a l')
    (hx : ∀ l₁, x.Gives { l with labels := [], jumps := [] } a l₁ →
      Effect l.program.stmts.size { l with labels := [], jumps := [] } size declares landmarks gotos
        l₁) : Effect base l size declares [] gotos l' := by
  have hadv := (advances_withBody h fun l₁ h₁ => (hx l₁ h₁).advances).1
  obtain ⟨l₁, l₂, h₁, h₂, rfl⟩ := gives_withBody h
  have heffect := hx l₁ h₁
  have hinner : l₁.program.Consistent (fun _ => True) l₁.labels l₁.jumps :=
    heffect.advances.2 _ ⟨by simp, by simp, fun _ _ _ _ _ => .inr (.inr trivial)⟩
  have hjumps : ∀ b ∈ l₁.jumps.reverse, ∃ s, l₁.program.stmt? b.1 = some s ∧
      s.kind.isGoto = true := fun b hb => hinner.jump b (List.mem_reverse.1 hb)
  have hres := resolves_forM hinner.label hjumps h₂
  -- The jumps of the body are the landmarks that are jumps, each under a number of its own.
  have hlist : l₁.jumps.reverse = (landmarks.filter (!·.isLabel)).map
      (·.jump l.program.stmts.size) := by
    rw [heffect.jumps, List.append_nil, List.reverse_reverse]
  have hdistinct : (l₁.jumps.reverse.map Prod.fst).Nodup := by
    rw [hlist, List.map_map, List.Nodup, List.pairwise_map]
    refine (heffect.sorted.filter _).imp fun {k k'} hlt heq => ?_
    have heq' : l.program.stmts.size + k.number = l.program.stmts.size + k'.number :=
      congrArg StmtId.index heq
    omega
  have hwaiting : ∀ b ∈ l₁.jumps.reverse, l.program.stmts.size ≤ b.1.index ∧
      ∃ s, l₁.program.stmt? b.1 = some s ∧ s.kind = .goto b.1 := by
    intro b hb
    rw [hlist] at hb
    obtain ⟨k, hk, rfl⟩ := List.mem_map.1 hb
    obtain ⟨hk, hlabel⟩ := List.mem_filter.1 hk
    exact ⟨(heffect.inside k hk).1, heffect.waiting k hk (by simpa using hlabel)⟩
  have hnamed := named_forM hinner.label hjumps hdistinct h₂
  refine ⟨hadv, ?_, ?_, ?_, rfl, rfl, fun hl => hl, nofun, .nil, nofun, nofun,
    fun i s t hs hk => ?_,
    fun g hg => ?_⟩
  · have hsize : l₂.program.stmts.size = l₁.program.stmts.size := congrArg Mark.stmts hres.mark
    exact hsize.trans heffect.size
  · have hframes : l₂.frames = l₁.frames := congrArg Mark.frames hres.mark
    intro hl
    rw [hframes]
    exact heffect.frames hl
  · have hframes : l₂.frames = l₁.frames := congrArg Mark.frames hres.mark
    intro hl name
    rw [Linker.names, hframes]
    exact heffect.names hl name
  · obtain ⟨s', hs', hk'⟩ := heffect.targets i s t hs hk
    have hi : ∀ b ∈ l₁.jumps.reverse, b.1 ≠ i := by
      rintro b hb rfl
      exact absurd (Program.stmt?_isSome.1 ⟨s, hs⟩) (Nat.not_lt.2 (hwaiting b hb).1)
    exact ⟨s', (stmt?_forM hi h₂).trans hs', hk'⟩
  · left
    rcases heffect.gotos g hg with hg | hg
    -- A jump that goes to a label is not one that waits, as those go to themselves.
    · have hother : ∀ b ∈ l₁.jumps.reverse, b.1 ≠ g.1 := by
        rintro b hb hbg
        obtain ⟨s, t, s', hs, hk, hs', hk'⟩ := hg
        obtain ⟨-, sb, hsb, hkb⟩ := hwaiting b hb
        rw [hbg, hs] at hsb
        cases hsb
        cases hk.symm.trans hkb
        rw [hbg, hs] at hs'
        cases hs'
        cases hk.symm.trans hk'
      have hsame : l₂.program.stmt? g.1 = l₁.program.stmt? g.1 := stmt?_forM hother h₂
      exact hg.mono hres.grows.keeps.places (Program.keepsTarget_of_eq hsame)
    · exact hnamed g (List.mem_reverse.2 hg)

/-! ### Definitions -/

mutual

/-- **Linking an expression** adds the statements of its closures and declares its names. -/
theorem expr_effect (scope : ScopeId) (base : Nat) : ∀ (src : Source.Expr) {n : Nat}
    {l l' : Linker} {e : ExprId}, (expr scope src).Gives l e l' → l.program.stmts.size = n →
      Effect base l src.size src.declares [] (src.gotos n) l'
  | .scalar s, n, l, l', e, h, hn => by
    obtain ⟨-, rfl⟩ := gives_addExpr.1 h
    exact effect_pushExpr base l _
  | .var name, n, l, l', e, h, hn => by
    obtain ⟨x, -, -, rfl⟩ := gives_var h
    exact effect_pushExpr base l _
  | .declare name, n, l, l', e, h, hn => by
    obtain ⟨-, rfl⟩ := gives_declaration h
    exact (effect_pushLocal base l name).pushExpr _
  | .assign name value, n, l, l', e, h, hn => by
    obtain ⟨x, v, l₁, -, hv, -, rfl⟩ := gives_assign h
    exact (expr_effect scope base value hv hn).pushExpr _
  | .name name, n, l, l', e, h, hn => by
    obtain ⟨-, rfl⟩ := gives_addExpr.1 h
    exact effect_pushExpr base l _
  | .function name, n, l, l', e, h, hn => by
    obtain ⟨f, -, -, rfl⟩ := gives_reference h
    exact effect_pushExpr base l _
  | .call callee args, n, l, l', e, h, hn => by
    obtain ⟨c, l₁, as, l₂, hc, has, -, rfl⟩ := gives_call h
    have h₁ := expr_effect scope base callee hc hn
    have h₂ := exprs_effect scope base args has (h₁.size.trans (by rw [hn]))
    exact (h₁.trans h₂).pushExpr _
  | .choose cond thenExpr elseExpr, n, l, l', e, h, hn => by
    obtain ⟨c, l₁, t, l₂, f, l₃, hc, ht, hf, -, rfl⟩ := gives_choose h
    have h₁ := expr_effect scope base cond hc hn
    have h₂ := expr_effect scope base thenExpr ht (h₁.size.trans (by rw [hn]))
    have h₃ := expr_effect scope base elseExpr hf (h₂.size.trans (by rw [h₁.size, hn]))
    exact ((h₁.trans h₂).trans h₃).pushExpr _
  | .closure params body, n, l, l', e, h, hn => by
    obtain ⟨ids, l₁, first, l₂, hids, hbody, -, rfl⟩ := gives_closure h
    have hparams := effect_mapM_declare base hids
    have hsize : l₁.program.stmts.size = n := hparams.size.trans hn
    have hbody' : Effect base l₁ (Source.stmtsSize body) [] [] (Source.stmtsGotos n body) l₂ :=
      effect_withBody hbody fun l₄ h₄ => by
        obtain ⟨l₅, h₅, rfl⟩ := gives_withFrame.1 h₄
        obtain ⟨_, h₆⟩ := stmts_effect scope none _ [] body h₅ (n := 0) rfl hsize rfl
        exact h₆.leave
    have hall := (hparams.trans hbody').leave
    rw [Nat.zero_add] at hall
    exact hall.pushExpr _

theorem exprs_effect (scope : ScopeId) (base : Nat) : ∀ (es : List Source.Expr) {n : Nat}
    {l l' : Linker} {ids : List ExprId}, (exprs scope es).Gives l ids l' →
      l.program.stmts.size = n →
        Effect base l (Source.exprsSize es) (Source.exprsDeclares es) [] (Source.exprsGotos n es) l'
  | [], n, l, l', ids, h, hn => by
    obtain ⟨-, rfl⟩ := gives_pure.1 h
    exact effect_refl base _
  | e :: es, n, l, l', ids, h, hn => by
    obtain ⟨i, l₁, is, hi, his, -⟩ := gives_exprs_cons h
    have h₁ := expr_effect scope base e hi hn
    exact h₁.trans (exprs_effect scope base es his (h₁.size.trans (by rw [hn])))

/-- **Linking a statement** adds it and the statements in it, in the order of the definition. -/
theorem stmt_effect (scope : ScopeId) (parent : Option StmtId) (base : Nat) (around : List Nat) :
    ∀ (s : Source.Stmt) {n g : Nat} {l l' : Linker} {i : StmtId},
      (stmt scope parent s).Gives l i l' →
      l.program.stmts.size = base + n → l.program.stmts.size = g →
      l.program.EnclosedBy l.program.stmts.size parent (around.map (base + ·)) →
        Effect base l s.size s.declares (s.landmarks n around) (s.gotos g) l'
  | .expr e, n, g, l, l', i, h, hn, hg, haround => by
    obtain ⟨x, l₁, -, hx, rfl⟩ := gives_exprStmt h
    have hsize := stmts_size_pushStmt l parent scope
    exact effect_putKind (expr_effect scope base e hx (by omega)) rfl
  | .block body, n, g, l, l', i, h, hn, hg, haround => by
    obtain ⟨first, l₁, -, hbody, rfl⟩ := gives_block h
    have hsize := stmts_size_pushStmt l parent scope
    have hinside := enclosed_inside hn haround scope
    obtain ⟨_, h₁⟩ := stmts_effect scope _ base (n :: around) body hbody (n := n + 1) (g := g + 1)
      (by dsimp only; omega) (by dsimp only; omega) hinside
    exact effect_putKind h₁.leave rfl
  | .loop cond body testLast, n, g, l, l', i, h, hn, hg, haround => by
    obtain ⟨c, l₁, first, l₂, -, hc, hbody, rfl⟩ := gives_loop h
    have hsize := stmts_size_pushStmt l parent scope
    have h₁ := expr_effect scope base cond hc (n := g + 1) (by omega)
    have hsize₁ := h₁.size
    have hinside := (enclosed_inside hn haround scope).advance h₁.advances
    obtain ⟨_, h₂⟩ := stmts_effect scope _ base (n :: around) body hbody
      (n := n + 1 + cond.size) (g := g + 1 + cond.size)
      (by dsimp only; omega) (by dsimp only; omega) hinside
    exact effect_putKind (h₁.trans h₂.leave) rfl
  | .forall indices iterators body, n, g, l, l', i, h, hn, hg, haround => by
    obtain ⟨is, l₁, xs, l₂, first, l₃, -, his, hxs, hbody, rfl⟩ := gives_forall h
    have hsize := stmts_size_pushStmt l parent scope
    have h₁ := exprs_effect scope base iterators his (n := g + 1) (by omega)
    have hsize₁ := h₁.size
    have h₂ := effect_mapM_declare base hxs
    have hsize₂ : l₂.program.stmts.size = l₁.program.stmts.size := h₂.size
    have hinside := ((enclosed_inside hn haround scope).advance h₁.advances).advance
      (l := { l₁ with frames := [] :: l₁.frames }) h₂.advances
    obtain ⟨_, h₃⟩ := stmts_effect scope _ base (n :: around) body hbody
      (n := n + 1 + Source.exprsSize iterators) (g := g + 1 + Source.exprsSize iterators)
      (by dsimp only; omega) (by dsimp only; omega) hinside
    have hinner := (h₂.trans h₃.leave).leave
    rw [Nat.zero_add] at hinner
    exact effect_putKind (h₁.trans hinner) rfl
  | .branch cond thenBody elseBody, n, g, l, l', i, h, hn, hg, haround => by
    obtain ⟨c, l₁, t, l₂, f, l₃, -, hc, ht, hf, rfl⟩ := gives_branch h
    have hsize := stmts_size_pushStmt l parent scope
    have h₁ := expr_effect scope base cond hc (n := g + 1) (by omega)
    have hsize₁ := h₁.size
    have hinside := (enclosed_inside hn haround scope).advance h₁.advances
    obtain ⟨_, h₂⟩ := stmts_effect scope _ base (n :: around) thenBody ht
      (n := n + 1 + cond.size) (g := g + 1 + cond.size)
      (by dsimp only; omega) (by dsimp only; omega) hinside
    have hsize₂ : l₂.program.stmts.size = l₁.program.stmts.size + Source.stmtsSize thenBody :=
      h₂.size
    obtain ⟨_, h₃⟩ := stmts_effect scope _ base (n :: around) elseBody hf
      (n := n + 1 + cond.size + Source.stmtsSize thenBody)
      (g := g + 1 + cond.size + Source.stmtsSize thenBody)
      (by dsimp only; omega) (by dsimp only; omega) (hinside.advance h₂.leave.advances)
    exact effect_putKind ((h₁.trans h₂.leave).trans h₃.leave) rfl
  | .select selector arms, n, g, l, l', i, h, hn, hg, haround => by
    obtain ⟨c, l₁, first, l₂, -, hc, harms, rfl⟩ := gives_select h
    have hsize := stmts_size_pushStmt l parent scope
    have h₁ := expr_effect scope base selector hc (n := g + 1) (by omega)
    have hsize₁ := h₁.size
    have hinside := (enclosed_inside hn haround scope).advance h₁.advances
    have h₂ := armSeq_effect scope _ base (n :: around) arms harms
      (n := n + 1 + selector.size) (g := g + 1 + selector.size) (by omega) (by omega) hinside
    exact effect_putKind (h₁.trans h₂) rfl
  | .return none, n, g, l, l', i, h, hn, hg, haround => by
    obtain ⟨-, rfl⟩ := gives_return_none h
    exact effect_putKind (effect_refl base _) rfl
  | .return (some value), n, g, l, l', i, h, hn, hg, haround => by
    obtain ⟨v, l₁, -, hv, rfl⟩ := gives_return_some h
    have hsize := stmts_size_pushStmt l parent scope
    exact effect_putKind (expr_effect scope base value hv (by omega)) rfl
  | .label name, n, g, l, l', i, h, hn, hg, haround => by
    obtain ⟨-, hname, rfl⟩ := gives_label h
    exact effect_label hn haround hname scope
  | .goto label, n, g, l, l', i, h, hn, hg, haround => by
    obtain ⟨-, rfl⟩ := gives_goto h
    have hgoto := effect_goto hn haround scope label
    rw [← hn, hg] at hgoto
    exact hgoto

/-- Linking a sequence adds its statements. What it declares is declared in a frame of its own. -/
theorem stmts_effect (scope : ScopeId) (parent : Option StmtId) (base : Nat) (around : List Nat) :
    ∀ (ss : List Source.Stmt) {n g : Nat} {l l' : Linker} {first : Option StmtId},
      (stmts scope parent ss).Gives l first l' →
      l.program.stmts.size = base + n → l.program.stmts.size = g →
      l.program.EnclosedBy l.program.stmts.size parent (around.map (base + ·)) → ∃ declares,
        Effect base l (Source.stmtsSize ss) declares (Source.stmtsLandmarks n around ss)
          (Source.stmtsGotos g ss) l'
  | [], n, g, l, l', first, h, hn, hg, haround => by
    obtain ⟨-, rfl⟩ := gives_pure.1 h
    exact ⟨[], effect_refl base _⟩
  | s :: ss, n, g, l, l', first, h, hn, hg, haround => by
    obtain ⟨_, l₁, next, l₂, hs, hss, -, rfl⟩ := gives_stmts_cons h
    obtain ⟨rfl, -, -⟩ := stmt_placed scope parent s hs
    have h₁ := stmt_effect scope parent base around s hs hn hg haround
    have hsize := h₁.size
    obtain ⟨_, h₂⟩ := stmts_effect scope parent base around ss hss (n := n + s.size)
      (g := g + s.size) (by omega) (by omega) (haround.advance h₁.advances)
    exact ⟨_, effect_putNext (h₁.trans h₂) (Nat.le_refl _) next⟩

theorem arm_effect (scope : ScopeId) (select : StmtId) (base : Nat) (around : List Nat) :
    ∀ (a : Source.Arm) {n g : Nat} {l l' : Linker} {i : StmtId},
      (arm scope select a).Gives l i l' →
      l.program.stmts.size = base + n → l.program.stmts.size = g →
      l.program.EnclosedBy l.program.stmts.size (some select) (around.map (base + ·)) →
        Effect base l a.size a.declares (a.landmarks n around) (a.gotos g) l'
  | .mk cases body, n, g, l, l', i, h, hn, hg, haround => by
    obtain ⟨cs, l₁, first, l₂, -, hcs, hbody, rfl⟩ := gives_arm h
    have hsize := stmts_size_pushStmt l (some select) scope
    have h₁ := exprs_effect scope base cases hcs (n := g + 1) (by omega)
    have hsize₁ := h₁.size
    have hinside := (enclosed_inside hn haround scope).advance h₁.advances
    obtain ⟨_, h₂⟩ := stmts_effect scope _ base (n :: around) body hbody
      (n := n + 1 + Source.exprsSize cases) (g := g + 1 + Source.exprsSize cases)
      (by dsimp only; omega) (by dsimp only; omega) hinside
    exact effect_putKind (h₁.trans h₂.leave) rfl

theorem armSeq_effect (scope : ScopeId) (select : StmtId) (base : Nat) (around : List Nat) :
    ∀ (as : List Source.Arm) {n g : Nat} {l l' : Linker} {first : Option StmtId},
      (armSeq scope select as).Gives l first l' →
      l.program.stmts.size = base + n → l.program.stmts.size = g →
      l.program.EnclosedBy l.program.stmts.size (some select) (around.map (base + ·)) →
        Effect base l (Source.armsSize as) (Source.armsDeclares as)
          (Source.armsLandmarks n around as) (Source.armsGotos g as) l'
  | [], n, g, l, l', first, h, hn, hg, haround => by
    obtain ⟨-, rfl⟩ := gives_pure.1 h
    exact effect_refl base _
  | a :: as, n, g, l, l', first, h, hn, hg, haround => by
    obtain ⟨_, l₁, next, l₂, ha, has, -, rfl⟩ := gives_armSeq_cons h
    obtain ⟨rfl, -, -⟩ := arm_placed scope select a ha
    have h₁ := arm_effect scope select base around a ha hn hg haround
    have hsize := h₁.size
    have h₂ := armSeq_effect scope select base around as has (n := n + a.size) (g := g + a.size)
      (by omega) (by omega) (haround.advance h₁.advances)
    exact effect_putNext (h₁.trans h₂) (Nat.le_refl _) next

end

/-- **Linking a body** adds its statements, and its jumps have been resolved. -/
theorem effect_body (base : Nat) {scope : ScopeId} {ss : List Source.Stmt} {first : Option StmtId}
    (h : (body scope ss).Gives l first l') :
    Effect base l (Source.stmtsSize ss) [] [] (Source.stmtsGotos l.program.stmts.size ss) l' :=
  effect_withBody h fun l₁ h₁ => by
    obtain ⟨l₂, h₂, rfl⟩ := gives_withFrame.1 h₁
    obtain ⟨_, heffect⟩ := stmts_effect scope none _ [] ss h₂ (n := 0) rfl rfl rfl
    exact heffect.leave

end Link

end TreeMachine
