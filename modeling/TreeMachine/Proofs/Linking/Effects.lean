import TreeMachine.Proofs.Linking.Nodes
import TreeMachine.Proofs.Source.Labels

/-!
# What linking does to its state

Linking an expression or a statement adds as many statements as there are in it, declares the names
that it declares, and notes down its labels and jumps, each under the number that the definition
gives it (`Link.Effect`). A jump that has been resolved goes to a label of the name that it was
written with and goes on to do so; one that has not is noted down (`Program.NamesLabel`).

The parameters of `Link.Effect` are all computed from the definition: the size, the declared names,
the labels and jumps of the body that is being linked (`Source.Landmark`), and the jumps of closures
inside, which are complete already (`Source.Expr.gotos`). Numbers are relative to the body, whose
first statement has the given id, so that a landmark means the same wherever the body is put.

The effects of steps one after the other are composed (`Link.Effect.trans`), and there is one lemma
for each change to the tables: a statement is added before its parts and completed after them, a
label or a jump is noted down, and a frame of variables is left. The statements around a label or a
jump are those that the tables give when one goes from parent to parent (`Program.EnclosedBy`);
whether a jump may go to a label is decided by these.

What linking puts into the tables is left out here, except for parents and the targets of jumps.
-/

namespace TreeMachine

namespace Source

mutual

/-- The jumps of an expression whose first statement has the given number: those of its closures. -/
def Expr.gotos (n : Nat) : Expr → List (StmtId × String)
  | .scalar _ | .var _ | .declare _ | .name _ | .function _ => []
  | .assign _ value => value.gotos n
  | .call callee args => callee.gotos n ++ exprsGotos (n + callee.size) args
  | .choose cond thenExpr elseExpr =>
    cond.gotos n ++ thenExpr.gotos (n + cond.size) ++
      elseExpr.gotos (n + cond.size + thenExpr.size)
  | .closure _ body => stmtsGotos n body

/-- The jumps of expressions. -/
def exprsGotos (n : Nat) : List Expr → List (StmtId × String)
  | [] => []
  | e :: es => e.gotos n ++ exprsGotos (n + e.size) es

/-- The jumps of a statement with the given number, also those of closures. -/
def Stmt.gotos (n : Nat) : Stmt → List (StmtId × String)
  | .expr e => e.gotos (n + 1)
  | .block body => stmtsGotos (n + 1) body
  | .loop cond body _ => cond.gotos (n + 1) ++ stmtsGotos (n + 1 + cond.size) body
  | .forall _ iterators body =>
    exprsGotos (n + 1) iterators ++ stmtsGotos (n + 1 + exprsSize iterators) body
  | .branch cond thenBody elseBody =>
    cond.gotos (n + 1) ++ stmtsGotos (n + 1 + cond.size) thenBody ++
      stmtsGotos (n + 1 + cond.size + stmtsSize thenBody) elseBody
  | .select selector arms => selector.gotos (n + 1) ++ armsGotos (n + 1 + selector.size) arms
  | .return none | .label _ => []
  | .return (some value) => value.gotos (n + 1)
  | .goto label => [(⟨n⟩, label)]

/-- The jumps of a sequence. -/
def stmtsGotos (n : Nat) : List Stmt → List (StmtId × String)
  | [] => []
  | s :: ss => s.gotos n ++ stmtsGotos (n + s.size) ss

/-- The jumps of an arm. -/
def Arm.gotos (n : Nat) : Arm → List (StmtId × String)
  | .mk cases body => exprsGotos (n + 1) cases ++ stmtsGotos (n + 1 + exprsSize cases) body

/-- The jumps of arms. -/
def armsGotos (n : Nat) : List Arm → List (StmtId × String)
  | [] => []
  | a :: as => a.gotos n ++ armsGotos (n + a.size) as

end

/-- A label as the linker notes it down, in a body that begins with the given statement. -/
def Landmark.label (base : Nat) (k : Landmark) : String × StmtId := (k.name, ⟨base + k.number⟩)

/-- A jump as the linker notes it down. -/
def Landmark.jump (base : Nat) (k : Landmark) : StmtId × String := (⟨base + k.number⟩, k.name)

end Source

open Source (Landmark)

/-! ### Where statements are -/

namespace Program

variable {p p' : Program}

/-- The statements from a parent outwards are the given ones, each with a smaller number than the
one before. -/
def EnclosedBy (p : Program) : Nat → Option StmtId → List Nat → Prop
  | _, o, [] => o = none
  | bound, o, q :: qs => o = some ⟨q⟩ ∧ q < bound ∧ p.EnclosedBy q (p.parent? ⟨q⟩) qs

theorem KeepsPlaces.parent?_eq (h : p.KeepsPlaces p') {i : StmtId}
    (hi : i.index < p.stmts.size) : p'.parent? i = p.parent? i := by
  obtain ⟨s, hs⟩ := stmt?_isSome.2 hi
  obtain ⟨s', hs', hparent, -, -⟩ := h i s hs
  rw [Program.parent?_eq hs, Program.parent?_eq hs', hparent]

theorem EnclosedBy.mono (hp : p.KeepsPlaces p') {bound bound' : Nat} {o : Option StmtId}
    {qs : List Nat} (h : p.EnclosedBy bound o qs) (hsize : bound ≤ p.stmts.size)
    (hbound : bound ≤ bound') : p'.EnclosedBy bound' o qs := by
  induction qs generalizing bound bound' o with
  | nil => exact h
  | cons q qs ih =>
    obtain ⟨ho, hq, hqs⟩ := h
    have hq' : q ≤ p.stmts.size := Nat.le_trans (Nat.le_of_lt hq) hsize
    refine ⟨ho, Nat.lt_of_lt_of_le hq hbound, ?_⟩
    rw [hp.parent?_eq (i := ⟨q⟩) (Nat.lt_of_lt_of_le hq hsize)]
    exact ih hqs hq' (Nat.le_refl _)

/-- The linker finds the statements around a statement. -/
theorem EnclosedBy.enclosing {bound count : Nat} {i : StmtId} {qs : List Nat}
    (h : p.EnclosedBy bound (p.parent? i) qs) (hcount : bound ≤ count) :
    p.enclosing count i = qs.map StmtId.mk := by
  induction qs generalizing bound count i with
  | nil =>
    rw [Program.enclosing.eq_def]
    simp only [show p.parent? i = none from h]
    cases count <;> rfl
  | cons q qs ih =>
    obtain ⟨ho, hq, hqs⟩ := h
    obtain ⟨count, rfl⟩ : ∃ c, count = c + 1 := ⟨count - 1, by omega⟩
    rw [Program.enclosing.eq_def]
    simp only [ho]
    rw [ih hqs (by omega)]
    rfl

theorem EnclosedBy.head? {bound : Nat} {o : Option StmtId} {qs : List Nat}
    (h : p.EnclosedBy bound o qs) : o = qs.head?.map StmtId.mk := by
  cases qs with
  | nil => exact h
  | cons q qs => exact h.1

/-- A jump goes to a label of a name. -/
def NamesLabel (p : Program) (i : StmtId) (name : String) : Prop :=
  ∃ s t s', p.stmt? i = some s ∧ s.kind = .goto t ∧ p.stmt? t = some s' ∧ s'.kind = .label name

/-- A statement that is a jump has the same target in another program. -/
def KeepsTarget (p p' : Program) (i : StmtId) : Prop :=
  ∀ s t, p.stmt? i = some s → s.kind = .goto t →
    ∃ s', p'.stmt? i = some s' ∧ s'.kind = .goto t

theorem KeepsTarget.trans {p'' : Program} {i : StmtId} (h : p.KeepsTarget p' i)
    (h' : p'.KeepsTarget p'' i) : p.KeepsTarget p'' i := by
  intro s t hs hk
  obtain ⟨s', hs', hk'⟩ := h s t hs hk
  exact h' s' t hs' hk'

theorem keepsTarget_of_eq {i : StmtId} (h : p'.stmt? i = p.stmt? i) : p.KeepsTarget p' i :=
  fun s _ hs hk => ⟨s, h ▸ hs, hk⟩

theorem NamesLabel.mono {i : StmtId} {name : String} (h : p.NamesLabel i name)
    (hplaces : p.KeepsPlaces p') (htarget : p.KeepsTarget p' i) : p'.NamesLabel i name := by
  obtain ⟨s, t, s', hs, hk, hs', hk'⟩ := h
  obtain ⟨s₁, hs₁, hk₁⟩ := htarget s t hs hk
  obtain ⟨s₂, hs₂, -, hlabel, -⟩ := hplaces t s' hs'
  exact ⟨s₁, t, s₂, hs₁, hk₁, hs₂, hlabel name hk'⟩

end Program

/-! ### Names in scope -/

/-- The names of the variables in scope. -/
def Linker.names (l : Linker) : List String :=
  l.frames.flatten.map Prod.fst

namespace Link

variable {l l' l'' l₁ : Linker} {base size size' : Nat} {declares declares' : List String}
  {landmarks landmarks' : List Landmark} {gotos gotos' : List (StmtId × String)}

/-- **What linking does to its state**: it adds a number of statements, declares names in the
innermost frame, and notes down the labels and jumps of a body that begins with the given
statement. The jumps are resolved when the body is complete, all those of closures already. -/
structure Effect (base : Nat) (l : Linker) (size : Nat) (declares : List String)
    (landmarks : List Landmark) (gotos : List (StmtId × String)) (l' : Linker) : Prop where
  advances : Advances l l'
  size : l'.program.stmts.size = l.program.stmts.size + size
  frames : l.frames ≠ [] → l'.frames ≠ []
  names : l.frames ≠ [] → ∀ name, name ∈ l'.names ↔ name ∈ declares ∨ name ∈ l.names
  labels : l'.labels = ((landmarks.filter (·.isLabel)).map (·.label base)).reverse ++ l.labels
  jumps : l'.jumps = ((landmarks.filter (!·.isLabel)).map (·.jump base)).reverse ++ l.jumps
  distinct : (l.labels.map Prod.fst).Nodup → (l'.labels.map Prod.fst).Nodup
  inside : ∀ k ∈ landmarks, l.program.stmts.size ≤ base + k.number ∧
    base + k.number < l'.program.stmts.size
  sorted : landmarks.Pairwise fun k k' => k.number < k'.number
  around : ∀ k ∈ landmarks, l'.program.EnclosedBy (base + k.number)
    (l'.program.parent? ⟨base + k.number⟩) (k.around.map (base + ·))
  waiting : ∀ k ∈ landmarks, k.isLabel = false →
    ∃ s, l'.program.stmt? ⟨base + k.number⟩ = some s ∧ s.kind = .goto ⟨base + k.number⟩
  targets : ∀ i, l.program.KeepsTarget l'.program i
  gotos : ∀ g ∈ gotos, l'.program.NamesLabel g.1 g.2 ∨ g ∈ l'.jumps

/-- A jump that has been resolved goes on to go to its label. -/
theorem Effect.named (h : Effect base l size declares landmarks gotos l') {i : StmtId}
    {name : String} (hi : l.program.NamesLabel i name) : l'.program.NamesLabel i name :=
  hi.mono h.advances.1.keeps.places (h.targets i)

/-- Steps one after the other. -/
theorem Effect.trans (h : Effect base l size declares landmarks gotos l')
    (h' : Effect base l' size' declares' landmarks' gotos' l'') :
    Effect base l (size + size') (declares' ++ declares) (landmarks ++ landmarks')
      (gotos ++ gotos') l'' where
  advances := h.advances.trans h'.advances
  size := by rw [h'.size, h.size, Nat.add_assoc]
  frames hl := h'.frames (h.frames hl)
  names hl name := by
    rw [h'.names (h.frames hl), h.names hl, List.mem_append, or_assoc]
  labels := by
    rw [h'.labels, h.labels, List.filter_append, List.map_append, List.reverse_append,
      List.append_assoc]
  jumps := by
    rw [h'.jumps, h.jumps, List.filter_append, List.map_append, List.reverse_append,
      List.append_assoc]
  distinct hl := h'.distinct (h.distinct hl)
  inside k hk := by
    have hsize := h.advances.stmts_size
    have hsize' := h'.advances.stmts_size
    rcases List.mem_append.1 hk with hk | hk
    · have hin := h.inside k hk
      omega
    · have hin := h'.inside k hk
      omega
  sorted := by
    refine List.pairwise_append.2 ⟨h.sorted, h'.sorted, fun k hk k' hk' => ?_⟩
    have hin := h.inside k hk
    have hin' := h'.inside k' hk'
    omega
  around k hk := by
    have hplaces := h'.advances.1.keeps.places
    rcases List.mem_append.1 hk with hk | hk
    · have hlt := (h.inside k hk).2
      rw [hplaces.parent?_eq (i := ⟨base + k.number⟩) hlt]
      exact (h.around k hk).mono hplaces (Nat.le_of_lt hlt) (Nat.le_refl _)
    · exact h'.around k hk
  waiting k hk hlabel := by
    rcases List.mem_append.1 hk with hk | hk
    · obtain ⟨s, hs, hkind⟩ := h.waiting k hk hlabel
      exact h'.targets _ s _ hs hkind
    · exact h'.waiting k hk hlabel
  targets i := (h.targets i).trans (h'.targets i)
  gotos g hg := by
    rcases List.mem_append.1 hg with hg | hg
    · rcases h.gotos g hg with hnamed | hjump
      · exact .inl (h'.named hnamed)
      · exact .inr (h'.jumps ▸ List.mem_append_right _ hjump)
    · exact h'.gotos g hg

/-! ### Single steps -/

/-- A step that adds no statement and notes nothing down. -/
theorem Effect.quiet (hadv : Advances l l') (hstmts : l'.program.stmts = l.program.stmts)
    (hlabels : l'.labels = l.labels) (hjumps : l'.jumps = l.jumps)
    (hframes : l.frames ≠ [] → l'.frames ≠ [])
    (hnames : l.frames ≠ [] → ∀ name, name ∈ l'.names ↔ name ∈ declares ∨ name ∈ l.names) :
    Effect base l 0 declares [] [] l' where
  advances := hadv
  size := by rw [hstmts, Nat.add_zero]
  frames := hframes
  names := hnames
  labels := hlabels
  jumps := hjumps
  distinct h := hlabels ▸ h
  inside := nofun
  sorted := .nil
  around := nofun
  waiting := nofun
  targets i := Program.keepsTarget_of_eq (by rw [Program.stmt?, Program.stmt?, hstmts])
  gotos := nofun

theorem effect_refl (base : Nat) (l : Linker) : Effect base l 0 [] [] [] l :=
  .quiet (.refl l) rfl rfl rfl (fun h => h) fun _ _ => by simp

theorem effect_pushExpr (base : Nat) (l : Linker) (x : Expr) :
    Effect base l 0 [] [] [] (pushExpr l x) :=
  .quiet (advances_pushExpr l x) rfl rfl rfl (fun h => h) fun _ _ => by
    simp [Linker.names, pushExpr]

theorem effect_pushLocal (base : Nat) (l : Linker) (name : String) :
    Effect base l 0 [name] [] [] (pushLocal l name) := by
  refine .quiet (advances_pushLocal l name) rfl rfl rfl (fun h => ?_) fun h other => ?_
  all_goals
    obtain ⟨program, frames, labels, jumps⟩ := l
    cases frames with
    | nil => exact absurd rfl h
    | cons frame frames =>
      simp [Linker.names, pushLocal, Mark.declare, Linker.mark]

theorem effect_mapM_declare (base : Nat) {names : List String} {ids : List VarId}
    (h : (names.mapM declare).Gives l ids l') : Effect base l 0 names.reverse [] [] l' := by
  induction names generalizing l ids with
  | nil =>
    obtain ⟨-, rfl⟩ := gives_pure.1 (show (pure [] : Link _).Gives l ids l' from h)
    exact effect_refl base _
  | cons name names ih =>
    simp only [List.mapM_cons, gives_bind, gives_declare, gives_pure] at h
    obtain ⟨_, _, ⟨rfl, rfl⟩, _, _, hrest, rfl, rfl⟩ := h
    rw [List.reverse_cons]
    exact (effect_pushLocal base l name).trans (ih hrest)

/-- Names that are declared in a frame of their own are forgotten with it. -/
theorem Effect.leave {frame : List (String × VarId)}
    (h : Effect base { l with frames := frame :: l.frames } size declares landmarks gotos l₁) :
    Effect base l size [] landmarks gotos { l₁ with frames := l.frames } where
  advances := h.advances
  size := h.size
  frames hl := hl
  names _ _ := by simp [Linker.names]
  labels := h.labels
  jumps := h.jumps
  distinct := h.distinct
  inside := h.inside
  sorted := h.sorted
  around := h.around
  waiting := h.waiting
  targets := h.targets
  gotos := h.gotos

/-- In a frame of variables more. -/
theorem names_enter (l : Linker) (frame : List (String × VarId)) :
    Linker.names { l with frames := frame :: l.frames } = frame.map Prod.fst ++ l.names := by
  simp [Linker.names]

/-! ### Statements that are completed -/

theorem targets_putKind {id : StmtId} {parent : Option StmtId} {scope : ScopeId}
    (hid : l.program.stmt? id = some ⟨.block none, none, parent, scope⟩) (kind : StmtKind)
    (i : StmtId) : l.program.KeepsTarget (putKind l id kind).program i := by
  intro s t hs hk
  refine ⟨s, ?_, hk⟩
  rw [stmt?_putKind, if_neg, hs]
  -- The statement that is completed is no jump so far.
  rintro rfl
  rw [hid] at hs
  cases hs
  cases hk

theorem targets_putNext (l : Linker) (id : StmtId) (next : Option StmtId) (i : StmtId) :
    l.program.KeepsTarget (putNext l id next).program i := by
  intro s t hs hk
  by_cases hi : i = id
  · exact ⟨{ s with next := next }, by rw [stmt?_putNext, if_pos hi, hs]; rfl, hk⟩
  · exact ⟨s, by rw [stmt?_putNext, if_neg hi, hs], hk⟩

theorem targets_pushStmt (l : Linker) (parent : Option StmtId) (scope : ScopeId) (i : StmtId) :
    l.program.KeepsTarget (pushStmt l parent scope).program i :=
  fun s _ hs hk => ⟨s, by rw [stmt?_pushStmt, if_neg (ne_stmtId hs), hs], hk⟩

/-- A change that keeps the places of statements and what is noted down keeps the effect. -/
theorem Effect.change (h : Effect base l size declares landmarks gotos l₁)
    (hadv : Advances l l') (hsize : l'.program.stmts.size = l₁.program.stmts.size)
    (hframes : l'.frames = l₁.frames) (hlabels : l'.labels = l₁.labels)
    (hjumps : l'.jumps = l₁.jumps) (hplaces : l₁.program.KeepsPlaces l'.program)
    (htargets : ∀ i, l₁.program.KeepsTarget l'.program i) :
    Effect base l size declares landmarks gotos l' where
  advances := hadv
  size := by rw [hsize, h.size]
  frames hl := by rw [hframes]; exact h.frames hl
  names hl name := by rw [Linker.names, hframes]; exact h.names hl name
  labels := by rw [hlabels, h.labels]
  jumps := by rw [hjumps, h.jumps]
  distinct hl := by rw [hlabels]; exact h.distinct hl
  inside k hk := by rw [hsize]; exact h.inside k hk
  sorted := h.sorted
  around k hk := by
    have hlt := (h.inside k hk).2
    rw [hplaces.parent?_eq (i := ⟨base + k.number⟩) hlt]
    exact (h.around k hk).mono hplaces (Nat.le_of_lt hlt) (Nat.le_refl _)
  waiting k hk hlabel := by
    obtain ⟨s, hs, hkind⟩ := h.waiting k hk hlabel
    exact htargets _ s _ hs hkind
  targets i := (h.targets i).trans (htargets i)
  gotos g hg := by
    rw [hjumps]
    exact (h.gotos g hg).imp_left fun hnamed => hnamed.mono hplaces (htargets g.1)

/-- The expression that is made of parts comes after them. -/
theorem Effect.pushExpr (h : Effect base l size declares landmarks gotos l₁) (x : Expr) :
    Effect base l size declares landmarks gotos (pushExpr l₁ x) :=
  h.change (h.advances.trans (advances_pushExpr l₁ x)) rfl rfl rfl rfl
    (advances_pushExpr l₁ x).1.keeps.places fun _ => Program.keepsTarget_of_eq rfl

/-- A statement is added, and its parts are linked. -/
theorem Effect.push {parent : Option StmtId} {scope : ScopeId}
    (h : Effect base (pushStmt l parent scope) size declares landmarks gotos l₁) :
    Effect base l (1 + size) declares landmarks gotos l₁ where
  advances := (advances_pushStmt l parent scope).trans h.advances
  size := by rw [h.size, stmts_size_pushStmt, Nat.add_assoc]
  frames := h.frames
  names := h.names
  labels := h.labels
  jumps := h.jumps
  distinct := h.distinct
  inside k hk := by
    have hin := h.inside k hk
    rw [stmts_size_pushStmt] at hin
    omega
  sorted := h.sorted
  around := h.around
  waiting := h.waiting
  targets i := (targets_pushStmt l parent scope i).trans (h.targets i)
  gotos := h.gotos

/-- **Completing a statement** that was added before its parts. -/
theorem effect_putKind {parent : Option StmtId} {scope : ScopeId}
    (h : Effect base (pushStmt l parent scope) size declares landmarks gotos l₁) {kind : StmtKind}
    (hkind : kind.isGoto = false) :
    Effect base l (1 + size) declares landmarks gotos (putKind l₁ l.mark.stmtId kind) := by
  have hid := stmt?_of_advances h.advances
  exact h.push.change (advances_putKind h.advances hkind) (by simp [putKind]) rfl rfl rfl
    (places_putKind hid kind) (targets_putKind hid kind)

theorem effect_putNext (h : Effect base l size declares landmarks gotos l₁) {id : StmtId}
    (hid : l.program.stmts.size ≤ id.index) (next : Option StmtId) :
    Effect base l size declares landmarks gotos (putNext l₁ id next) :=
  h.change (advances_putNext h.advances hid next) (by simp [putNext]) rfl rfl rfl
    (places_putNext l₁ id next) (targets_putNext l₁ id next)

/-! ### Labels and jumps -/

/-- The statements around a statement that was added. -/
theorem enclosed_new {n : Nat} {around : List Nat} {kind : StmtKind}
    {next parent : Option StmtId} {scope : ScopeId} (hn : l.program.stmts.size = base + n)
    (haround : l.program.EnclosedBy l.program.stmts.size parent (around.map (base + ·)))
    (hadv : Advances l l')
    (hs : l'.program.stmt? l.mark.stmtId = some ⟨kind, next, parent, scope⟩) :
    l'.program.EnclosedBy (base + n) (l'.program.parent? ⟨base + n⟩) (around.map (base + ·)) := by
  have hid : l.mark.stmtId = ⟨base + n⟩ := congrArg StmtId.mk hn
  rw [← hid, Program.parent?_eq hs, ← hn]
  exact haround.mono hadv.1.keeps.places (Nat.le_refl _) (Nat.le_refl _)

/-- **A label** is noted down under its number, if there is no other one of its name. -/
theorem effect_label {n : Nat} {around : List Nat} {parent : Option StmtId} {name : String}
    (hn : l.program.stmts.size = base + n)
    (haround : l.program.EnclosedBy l.program.stmts.size parent (around.map (base + ·)))
    (hname : (l.labels.lookup name).isSome = false) (scope : ScopeId) :
    Effect base l 1 [] [⟨true, name, n, around⟩] []
      (putKind { pushStmt l parent scope with labels := (name, l.mark.stmtId) :: l.labels }
        l.mark.stmtId (.label name)) := by
  have hput := stmt?_putKind_pushStmt l parent scope (.label name)
  have hid : l.mark.stmtId = ⟨base + n⟩ := congrArg StmtId.mk hn
  have hadv : Advances l (putKind (pushStmt l parent scope) l.mark.stmtId (.label name)) :=
    advances_putKind (.refl _) rfl
  have h : Effect base l (1 + 0) [] [] []
      (putKind (pushStmt l parent scope) l.mark.stmtId (.label name)) :=
    effect_putKind (effect_refl base _) rfl
  refine ⟨hadv.trans (advances_declareLabel hput rfl), h.size, h.frames, h.names, ?_, h.jumps,
    fun hl => ?_, fun k hk => ?_, List.pairwise_singleton _ _, fun k hk => ?_,
    fun k hk hlabel => ?_,
    h.targets, nofun⟩
  · exact congrArg (fun id => (name, id) :: l.labels) hid
  · refine List.nodup_cons.2 ⟨fun hmem => ?_, hl⟩
    obtain ⟨b, hb, hbname⟩ := List.mem_map.1 hmem
    have hsome := List.lookup_isSome_iff.2 ⟨b, hb, beq_iff_eq.2 hbname.symm⟩
    rw [hname] at hsome
    cases hsome
  · obtain rfl := List.mem_singleton.1 hk
    have hsize :
        (putKind (pushStmt l parent scope) l.mark.stmtId (.label name)).program.stmts.size =
      l.program.stmts.size + 1 := h.size
    refine ⟨Nat.le_of_eq hn, Nat.lt_of_lt_of_eq ?_ hsize.symm⟩
    exact hn ▸ Nat.lt_succ_self _
  · obtain rfl := List.mem_singleton.1 hk
    have hnew := enclosed_new hn haround hadv hput
    exact hnew
  · obtain rfl := List.mem_singleton.1 hk
    cases hlabel

/-- **A jump** is noted down under its number. Until it is resolved it goes to itself. -/
theorem effect_goto {n : Nat} {around : List Nat} {parent : Option StmtId}
    (hn : l.program.stmts.size = base + n)
    (haround : l.program.EnclosedBy l.program.stmts.size parent (around.map (base + ·)))
    (scope : ScopeId) (label : String) :
    Effect base l 1 [] [⟨false, label, n, around⟩] [(⟨base + n⟩, label)]
      (putKind { pushStmt l parent scope with jumps := (l.mark.stmtId, label) :: l.jumps }
        l.mark.stmtId (.goto l.mark.stmtId)) := by
  have hput := stmt?_putKind_pushStmt l parent scope (.goto l.mark.stmtId)
  have hid : l.mark.stmtId = ⟨base + n⟩ := congrArg StmtId.mk hn
  have hblock := stmt?_of_advances (.refl (pushStmt l parent scope))
  have hadv := advances_recordJump l parent scope label
  have hsize : (putKind { pushStmt l parent scope with jumps := (l.mark.stmtId, label) :: l.jumps }
      l.mark.stmtId (.goto l.mark.stmtId)).program.stmts.size = l.program.stmts.size + 1 := by
    simp [putKind, pushStmt]
  refine ⟨hadv, hsize, fun hl => hl, fun _ _ => by simp [Linker.names, putKind, pushStmt], rfl, ?_,
    fun hl => hl, fun k hk => ?_, List.pairwise_singleton _ _, fun k hk => ?_, fun k hk _ => ?_,
    fun i => ?_, fun g hg => ?_⟩
  · exact congrArg (fun id => (id, label) :: l.jumps) hid
  · obtain rfl := List.mem_singleton.1 hk
    refine ⟨Nat.le_of_eq hn, Nat.lt_of_lt_of_eq ?_ hsize.symm⟩
    exact hn ▸ Nat.lt_succ_self _
  · obtain rfl := List.mem_singleton.1 hk
    exact enclosed_new hn haround hadv hput
  · obtain rfl := List.mem_singleton.1 hk
    exact ⟨_, (congrArg (Program.stmt? _) hid.symm).trans hput, by rw [hid]⟩
  · exact (targets_pushStmt l parent scope i).trans (targets_putKind hblock _ i)
  · obtain rfl := List.mem_singleton.1 hg
    right
    rw [← hid]
    exact List.mem_cons_self

end Link

end TreeMachine
