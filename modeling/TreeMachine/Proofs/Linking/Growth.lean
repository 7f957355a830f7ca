import TreeMachine.Proofs.Linking.Gives
import TreeMachine.Proofs.Tree.WellFormed

/-!
# How linking changes the tables

While bodies are linked the tables only grow: `Program.Grows`. A statement keeps what is known of it
but for the target of a jump, which is set when the body is complete (`Program.Keeps`), and the
labels and jumps that are noted down belong to statements of their kinds (`Program.Consistent`).
`Link.Advances` is what every step of linking expressions and statements does.

`Program.Keeps` has a number from which on statements are kept. A statement that is being linked is
in the table with neither a kind nor a successor, and these are set after its parts have been
linked; so what the parts have added is kept from the end on, but the statement itself is not.
Taking the number to be that of the first statement that is final makes one relation do for both.

Functions keep all but their bodies under this relation, and the tables of functions, scopes and
modules are not touched by links of bodies at all. What is done to those is described with the
linking of functions and modules.
-/

namespace TreeMachine

/-- A kind that is kept, up to the target of a jump. -/
def StmtKind.Kept (k k' : StmtKind) : Prop :=
  k' = k ∨ k.isGoto = true ∧ k'.isGoto = true

theorem StmtKind.Kept.refl (k : StmtKind) : k.Kept k := .inl rfl

theorem StmtKind.Kept.trans {k k' k'' : StmtKind} (h : k.Kept k') (h' : k'.Kept k'') :
    k.Kept k'' := by
  rcases h with rfl | ⟨hk, hk'⟩
  · exact h'
  · rcases h' with rfl | ⟨-, hk''⟩
    · exact .inr ⟨hk, hk'⟩
    · exact .inr ⟨hk, hk''⟩

theorem StmtKind.Kept.eq {k k' : StmtKind} (h : k.Kept k') (hk : k.isGoto = false) : k' = k :=
  h.resolve_right fun h => by simp [hk] at h

namespace Program

/-- The statements from a number on and all expressions are kept, up to the targets of jumps, and
functions keep all but their bodies. -/
structure Keeps (lo : Nat) (p p' : Program) : Prop where
  stmts : ∀ i s, lo ≤ i.index → p.stmt? i = some s →
    ∃ kind, s.kind.Kept kind ∧ p'.stmt? i = some { s with kind := kind }
  exprs : ∀ e x, p.expr? e = some x → p'.expr? e = some x
  functions : ∀ id f, p.function? id = some f →
    ∃ body, p'.function? id = some { f with body := body }

theorem Keeps.refl (lo : Nat) (p : Program) : p.Keeps lo p :=
  ⟨fun _ s _ h => ⟨s.kind, .refl _, h⟩, fun _ _ h => h, fun _ f h => ⟨f.body, h⟩⟩

theorem Keeps.trans {lo : Nat} {p p' p'' : Program} (h : p.Keeps lo p') (h' : p'.Keeps lo p'') :
    p.Keeps lo p'' := by
  refine ⟨fun i s hi hs => ?_, fun e x hx => h'.exprs e x (h.exprs e x hx), fun id f hf => ?_⟩
  · obtain ⟨k, hk, hs'⟩ := h.stmts i s hi hs
    obtain ⟨k', hk', hs''⟩ := h'.stmts i _ hi hs'
    exact ⟨k', hk.trans hk', hs''⟩
  · obtain ⟨body, hf'⟩ := h.functions id f hf
    obtain ⟨body', hf''⟩ := h'.functions id _ hf'
    exact ⟨body', hf''⟩

theorem Keeps.mono {lo lo' : Nat} {p p' : Program} (h : p.Keeps lo p') (hlo : lo ≤ lo') :
    p.Keeps lo' p' :=
  ⟨fun i s hi => h.stmts i s (Nat.le_trans hlo hi), h.exprs, h.functions⟩

theorem stmt?_isSome {p : Program} {i : StmtId} : (∃ s, p.stmt? i = some s) ↔
    i.index < p.stmts.size :=
  ⟨fun ⟨_, h⟩ => (Array.getElem?_eq_some_iff.1 h).1, fun h => ⟨_, Array.getElem?_eq_getElem h⟩⟩

theorem expr?_isSome {p : Program} {e : ExprId} : (∃ x, p.expr? e = some x) ↔
    e.index < p.exprs.size :=
  ⟨fun ⟨_, h⟩ => (Array.getElem?_eq_some_iff.1 h).1, fun h => ⟨_, Array.getElem?_eq_getElem h⟩⟩

theorem Keeps.functions_size {lo : Nat} {p p' : Program} (h : p.Keeps lo p') :
    p.functions.size ≤ p'.functions.size := by
  refine Nat.le_of_not_lt fun hlt => ?_
  have hf : p.function? ⟨p'.functions.size⟩ = some p.functions[p'.functions.size] :=
    Array.getElem?_eq_getElem hlt
  obtain ⟨body, hf'⟩ := h.functions _ _ hf
  exact absurd (Array.getElem?_eq_some_iff.1 hf').1 (Nat.lt_irrefl _)

theorem Keeps.stmts_size {p p' : Program} (h : p.Keeps 0 p') : p.stmts.size ≤ p'.stmts.size := by
  refine Nat.le_of_not_lt fun hlt => ?_
  obtain ⟨s, hs⟩ := (stmt?_isSome (i := ⟨p'.stmts.size⟩)).2 hlt
  obtain ⟨k, -, hs'⟩ := h.stmts _ s (Nat.zero_le _) hs
  exact absurd (stmt?_isSome.1 ⟨_, hs'⟩) (Nat.lt_irrefl _)

/-- All statements and expressions are kept, and only they and the variables become more. -/
structure Grows (p p' : Program) : Prop where
  keeps : p.Keeps 0 p'
  vars : p.vars.size ≤ p'.vars.size
  rest : p' = { p with stmts := p'.stmts, exprs := p'.exprs, vars := p'.vars }

theorem Grows.refl (p : Program) : p.Grows p :=
  ⟨.refl 0 p, Nat.le_refl _, rfl⟩

theorem Grows.trans {p p' p'' : Program} (h : p.Grows p') (h' : p'.Grows p'') : p.Grows p'' := by
  refine ⟨h.keeps.trans h'.keeps, Nat.le_trans h.vars h'.vars, ?_⟩
  have hrest := h'.rest
  rw [h.rest] at hrest
  exact hrest

/-- Statements keep their parents, labels stay labels and jumps stay jumps. -/
def KeepsPlaces (p p' : Program) : Prop :=
  ∀ i s, p.stmt? i = some s → ∃ s', p'.stmt? i = some s' ∧ s'.parent = s.parent ∧
    (∀ name, s.kind = .label name → s'.kind = .label name) ∧
    (s.kind.isGoto = true → s'.kind.isGoto = true)

theorem Keeps.places {p p' : Program} (h : p.Keeps 0 p') : p.KeepsPlaces p' := by
  intro i s hs
  obtain ⟨k, hk, hs'⟩ := h.stmts i s (Nat.zero_le _) hs
  refine ⟨_, hs', rfl, fun name hn => ?_, fun hg => ?_⟩
  · exact (hk.eq (by rw [hn]; rfl)).trans hn
  · rcases hk with rfl | ⟨-, hk⟩
    · exact hg
    · exact hk

theorem KeepsPlaces.parent? {p p' : Program} (h : p.KeepsPlaces p') {i q : StmtId}
    (hq : p.parent? i = some q) : p'.parent? i = some q := by
  obtain ⟨s, hs, hsq⟩ := Option.bind_eq_some_iff.1 hq
  obtain ⟨s', hs', hp, -, -⟩ := h i s hs
  rw [Program.parent?_eq hs', hp, hsq]

theorem KeepsPlaces.encloses {p p' : Program} (h : p.KeepsPlaces p') {q i : StmtId}
    (hq : p.Encloses q i) : p'.Encloses q i := by
  induction hq with
  | direct hp => exact .direct (h.parent? hp)
  | outer hp _ ih => exact .outer (h.parent? hp) ih

theorem KeepsPlaces.gotoFits {p p' : Program} (h : p.KeepsPlaces p') {i target : StmtId}
    (hg : p.GotoFits i target) : p'.GotoFits i target := by
  obtain ⟨s, name, hs, hk, hq⟩ := hg
  obtain ⟨s', hs', hp, hl, -⟩ := h target s hs
  exact ⟨s', name, hs', hl name hk, fun q hs'q => h.encloses (hq q (hp ▸ hs'q))⟩

/-- The labels and jumps that are noted down for a body are statements of their kinds, and each jump
that does not fit is noted down, here or for a body further out. -/
structure Consistent (outer : StmtId → Prop) (p : Program) (labels : List (String × StmtId))
    (jumps : List (StmtId × String)) : Prop where
  label : ∀ b ∈ labels, ∃ s, p.stmt? b.2 = some s ∧ s.kind = .label b.1
  jump : ∀ b ∈ jumps, ∃ s, p.stmt? b.1 = some s ∧ s.kind.isGoto = true
  goto : ∀ i s target, p.stmt? i = some s → s.kind = .goto target →
    p.GotoFits i target ∨ (∃ b ∈ jumps, b.1 = i) ∨ outer i

/-- Consistency is kept when no jump is added. -/
theorem Consistent.transfer {outer : StmtId → Prop} {p p' : Program}
    {labels : List (String × StmtId)} {jumps : List (StmtId × String)}
    (h : p.Consistent outer labels jumps) (places : p.KeepsPlaces p')
    (back : ∀ i s target, p'.stmt? i = some s → s.kind = .goto target →
      ∃ s₀, p.stmt? i = some s₀ ∧ s₀.kind = .goto target) :
    p'.Consistent outer labels jumps := by
  refine ⟨fun b hb => ?_, fun b hb => ?_, fun i s target hs hk => ?_⟩
  · obtain ⟨s, hs, hk⟩ := h.label b hb
    obtain ⟨s', hs', -, hl, -⟩ := places _ s hs
    exact ⟨s', hs', hl _ hk⟩
  · obtain ⟨s, hs, hk⟩ := h.jump b hb
    obtain ⟨s', hs', -, -, hg⟩ := places _ s hs
    exact ⟨s', hs', hg hk⟩
  · obtain ⟨s₀, hs₀, hk₀⟩ := back i s target hs hk
    exact (h.goto i s₀ target hs₀ hk₀).imp_left places.gotoFits

end Program

namespace Link

/-- What linking expressions and statements does to the state of the linker. -/
def Advances (l l' : Linker) : Prop :=
  l.program.Grows l'.program ∧ ∀ outer, l.program.Consistent outer l.labels l.jumps →
    l'.program.Consistent outer l'.labels l'.jumps

theorem Advances.refl (l : Linker) : Advances l l :=
  ⟨.refl _, fun _ h => h⟩

theorem Advances.trans {l l' l'' : Linker} (h : Advances l l') (h' : Advances l' l'') :
    Advances l l'' :=
  ⟨h.1.trans h'.1, fun outer hc => h'.2 outer (h.2 outer hc)⟩

theorem Advances.stmts_size {l l' : Linker} (h : Advances l l') :
    l.program.stmts.size ≤ l'.program.stmts.size :=
  h.1.keeps.stmts_size

/-! ### New nodes -/

theorem stmt?_pushStmt (l : Linker) (parent : Option StmtId) (scope : ScopeId) (i : StmtId) :
    (pushStmt l parent scope).program.stmt? i =
      if i = l.mark.stmtId then some ⟨.block none, none, parent, scope⟩
      else l.program.stmt? i := by
  rcases i with ⟨i⟩
  simp only [Program.stmt?, pushStmt, Linker.mark, Mark.stmtId, Array.getElem?_push,
    StmtId.mk.injEq]

theorem expr?_pushExpr (l : Linker) (x : Expr) (e : ExprId) :
    (pushExpr l x).program.expr? e =
      if e = l.mark.exprId then some x else l.program.expr? e := by
  rcases e with ⟨e⟩
  simp only [Program.expr?, pushExpr, Linker.mark, Mark.exprId, Array.getElem?_push,
    ExprId.mk.injEq]

/-- A statement of a program is not the next one. -/
theorem ne_stmtId {l : Linker} {i : StmtId} {s : Stmt} (h : l.program.stmt? i = some s) :
    i ≠ l.mark.stmtId := by
  rintro rfl
  exact absurd (Program.stmt?_isSome.1 ⟨s, h⟩) (Nat.lt_irrefl _)

theorem ne_exprId {l : Linker} {e : ExprId} {x : Expr} (h : l.program.expr? e = some x) :
    e ≠ l.mark.exprId := by
  rintro rfl
  exact absurd (Program.expr?_isSome.1 ⟨x, h⟩) (Nat.lt_irrefl _)

theorem advances_pushExpr (l : Linker) (x : Expr) : Advances l (pushExpr l x) := by
  have hkeeps : l.program.Keeps 0 (pushExpr l x).program := by
    refine ⟨fun i s _ h => ⟨s.kind, .refl _, h⟩, fun e y h => ?_, fun _ f h => ⟨f.body, h⟩⟩
    rw [expr?_pushExpr, if_neg (ne_exprId h), h]
  exact ⟨⟨hkeeps, Nat.le_refl _, rfl⟩,
    fun outer h => h.transfer hkeeps.places fun i s _ hs hk => ⟨s, hs, hk⟩⟩

theorem advances_pushStmt (l : Linker) (parent : Option StmtId) (scope : ScopeId) :
    Advances l (pushStmt l parent scope) := by
  have hkeeps : l.program.Keeps 0 (pushStmt l parent scope).program := by
    refine ⟨fun i s _ h => ⟨s.kind, .refl _, ?_⟩, fun _ _ h => h, fun _ f h => ⟨f.body, h⟩⟩
    rw [stmt?_pushStmt, if_neg (ne_stmtId h), h]
  refine ⟨⟨hkeeps, Nat.le_refl _, rfl⟩, fun outer h => h.transfer hkeeps.places ?_⟩
  intro i s target hs hk
  rw [stmt?_pushStmt] at hs
  split at hs
  · cases hs
    cases hk
  · exact ⟨s, hs, hk⟩

theorem advances_pushLocal (l : Linker) (name : String) : Advances l (pushLocal l name) := by
  have hkeeps : l.program.Keeps 0 (pushLocal l name).program :=
    ⟨fun i s _ h => ⟨s.kind, .refl _, h⟩, fun _ _ h => h, fun _ f h => ⟨f.body, h⟩⟩
  refine ⟨⟨hkeeps, ?_, rfl⟩,
    fun outer h => h.transfer hkeeps.places fun i s _ hs hk => ⟨s, hs, hk⟩⟩
  simp [pushLocal, pushVar]

/-! ### Functions that are completed -/

theorem function?_putBody (l : Linker) (id j : FnId) (first : Option StmtId) :
    (putBody l id first).program.function? j =
      if j = id then (l.program.function? j).map fun f => { f with body := .code first }
      else l.program.function? j := by
  rcases j with ⟨j⟩
  rcases id with ⟨id⟩
  simp only [Program.function?, putBody, Array.getElem?_modify, FnId.mk.injEq]
  by_cases h : j = id
  · simp [h]
  · simp [h, Ne.symm h]

/-- A function keeps all but its body when one of them is given its. -/
theorem exists_putBody {l : Linker} {j : FnId} {f : Function} (hf : l.program.function? j = some f)
    (id : FnId) (first : Option StmtId) :
    ∃ body, (putBody l id first).program.function? j = some { f with body := body } := by
  rw [function?_putBody, hf]
  split
  · exact ⟨.code first, rfl⟩
  · exact ⟨f.body, rfl⟩

/-! ### Statements that are completed -/

theorem stmt?_putKind (l : Linker) (id i : StmtId) (kind : StmtKind) :
    (putKind l id kind).program.stmt? i =
      if i = id then (l.program.stmt? i).map fun s => { s with kind := kind }
      else l.program.stmt? i := by
  rcases i with ⟨i⟩
  rcases id with ⟨id⟩
  simp only [Program.stmt?, putKind, Array.getElem?_modify, StmtId.mk.injEq]
  by_cases h : i = id
  · simp [h]
  · simp [h, Ne.symm h]

theorem stmt?_putNext (l : Linker) (id i : StmtId) (next : Option StmtId) :
    (putNext l id next).program.stmt? i =
      if i = id then (l.program.stmt? i).map fun s => { s with next := next }
      else l.program.stmt? i := by
  rcases i with ⟨i⟩
  rcases id with ⟨id⟩
  simp only [Program.stmt?, putNext, Array.getElem?_modify, StmtId.mk.injEq]
  by_cases h : i = id
  · simp [h]
  · simp [h, Ne.symm h]

/-- The kind of a statement does not matter to the ones after it. -/
theorem keeps_putKind (l : Linker) (id : StmtId) (kind : StmtKind) :
    l.program.Keeps (id.index + 1) (putKind l id kind).program := by
  refine ⟨fun i s hi h => ⟨s.kind, .refl _, ?_⟩, fun _ _ h => h, fun _ f h => ⟨f.body, h⟩⟩
  have hne : i ≠ id := by
    rintro rfl
    omega
  rw [stmt?_putKind, if_neg hne, h]

/-- The successor of a statement does not matter to the ones after it. -/
theorem keeps_putNext (l : Linker) (id : StmtId) (next : Option StmtId) :
    l.program.Keeps (id.index + 1) (putNext l id next).program := by
  refine ⟨fun i s hi h => ⟨s.kind, .refl _, ?_⟩, fun _ _ h => h, fun _ f h => ⟨f.body, h⟩⟩
  have hne : i ≠ id := by
    rintro rfl
    omega
  rw [stmt?_putNext, if_neg hne, h]

/-- The next statement, after some steps more that did not complete it. -/
theorem stmt?_of_advances {l l' : Linker} {parent : Option StmtId} {scope : ScopeId}
    (h : Advances (pushStmt l parent scope) l') :
    l'.program.stmt? l.mark.stmtId = some ⟨.block none, none, parent, scope⟩ := by
  have hs : (pushStmt l parent scope).program.stmt? l.mark.stmtId =
      some ⟨.block none, none, parent, scope⟩ := by
    rw [stmt?_pushStmt, if_pos rfl]
  obtain ⟨k, hk, hs'⟩ := h.1.keeps.stmts _ _ (Nat.zero_le _) hs
  rwa [hk.eq rfl] at hs'

/-- A change to statements that are not old keeps the old ones. -/
theorem grows_of_new {l l' : Linker} {p : Program} (h : Advances l l')
    (hp : ∀ i, i.index < l.program.stmts.size → p.stmt? i = l'.program.stmt? i)
    (hrest : p = { l'.program with stmts := p.stmts }) : l.program.Grows p := by
  have hexprs : p.exprs = l'.program.exprs := by rw [hrest]
  have hfunctions : p.functions = l'.program.functions := by rw [hrest]
  refine ⟨⟨fun i s hi hs => ?_, fun e x hx => ?_, fun id f hf => ?_⟩, ?_, ?_⟩
  · obtain ⟨k, hk, hs'⟩ := h.1.keeps.stmts i s hi hs
    exact ⟨k, hk, by rw [hp i (Program.stmt?_isSome.1 ⟨s, hs⟩), hs']⟩
  · rw [Program.expr?, hexprs]
    exact h.1.keeps.exprs e x hx
  · rw [Program.function?, hfunctions]
    exact h.1.keeps.functions id f hf
  · rw [hrest]
    exact h.1.vars
  · rw [hrest, h.1.rest]

/-- A statement that is completed was no label and no jump. -/
theorem places_putKind {l : Linker} {id : StmtId} {parent : Option StmtId} {scope : ScopeId}
    (hid : l.program.stmt? id = some ⟨.block none, none, parent, scope⟩) (kind : StmtKind) :
    l.program.KeepsPlaces (putKind l id kind).program := by
  intro i s hs
  by_cases hi : i = id
  · subst hi
    rw [hid] at hs
    cases hs
    refine ⟨⟨kind, none, parent, scope⟩, ?_, rfl, nofun, fun hk => Bool.noConfusion hk⟩
    rw [stmt?_putKind, if_pos rfl, hid]
    rfl
  · exact ⟨s, by rw [stmt?_putKind, if_neg hi, hs], rfl, fun _ h => h, fun h => h⟩

/-- **Completing a statement** that was new: the kind of the statement is set after some steps
more. -/
theorem advances_putKind {l l' : Linker} {parent : Option StmtId} {scope : ScopeId}
    (h : Advances (pushStmt l parent scope) l') {kind : StmtKind} (hkind : kind.isGoto = false) :
    Advances l (putKind l' l.mark.stmtId kind) := by
  have hid := stmt?_of_advances h
  have hl : Advances l l' := (advances_pushStmt l parent scope).trans h
  refine ⟨grows_of_new hl (fun i hi => ?_) rfl,
    fun outer hc => (hl.2 outer hc).transfer (places_putKind hid kind) ?_⟩
  · rw [stmt?_putKind, if_neg]
    rintro rfl
    exact Nat.lt_irrefl _ hi
  -- No jump is made by this, as the kind is none.
  · intro i s target hs hk
    rw [stmt?_putKind] at hs
    split at hs
    · obtain ⟨s₀, -, rfl⟩ := Option.map_eq_some_iff.1 hs
      rw [show kind = .goto target from hk] at hkind
      cases hkind
    · exact ⟨s, hs, hk⟩

theorem places_putNext (l : Linker) (id : StmtId) (next : Option StmtId) :
    l.program.KeepsPlaces (putNext l id next).program := by
  intro i s hs
  by_cases hi : i = id
  · refine ⟨{ s with next := next }, ?_, rfl, fun _ h => h, fun h => h⟩
    rw [stmt?_putNext, if_pos hi, hs]
    rfl
  · exact ⟨s, by rw [stmt?_putNext, if_neg hi, hs], rfl, fun _ h => h, fun h => h⟩

/-- Setting the successor of a statement that was new. -/
theorem advances_putNext {l l' : Linker} (h : Advances l l') {id : StmtId}
    (hid : l.program.stmts.size ≤ id.index) (next : Option StmtId) :
    Advances l (putNext l' id next) := by
  refine ⟨grows_of_new h (fun i hi => ?_) rfl,
    fun outer hc => (h.2 outer hc).transfer (places_putNext l' id next) ?_⟩
  · rw [stmt?_putNext, if_neg]
    rintro rfl
    omega
  · intro i s target hs hk
    rw [stmt?_putNext] at hs
    split at hs
    · obtain ⟨s₀, hs₀, rfl⟩ := Option.map_eq_some_iff.1 hs
      exact ⟨s₀, hs₀, hk⟩
    · exact ⟨s, hs, hk⟩

end Link

end TreeMachine
