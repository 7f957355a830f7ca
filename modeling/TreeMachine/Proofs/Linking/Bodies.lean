import TreeMachine.Proofs.Linking.Nodes
import TreeMachine.Proofs.Tree.Bodies

/-!
# Linking keeps bodies apart

Linking a statement adds a tree of statements, and linking a sequence a chain of such trees. What is
added hangs from its first statement, to which nothing leads so far: the root. `Link.Grafts` says
this of a step of linking, with the labels and jumps that are noted down on the way, all of which
hang from the roots as well. When a body is complete its jumps are given labels of the same body,
and its root stays what it is (`Link.grafts_body`).

A statement leads to its successor and to the first ones of the sequences inside it
(`Program.LeadsTo`), and a body is all that its first statement leads to on the way
(`Program.InBody`). Jumps are left out of this, so that bodies are trees; that a jump and its label
are in the same body is a statement of its own, and it is due to the labels of a body being
forgotten before the next one is linked. Two bodies are apart if no statement is in both.

The linker completes statements after it has added them: kinds and successors are set later. Each of
these updates makes one root lead to others (`Program.Grafts.attach`), and a statement that nothing
leads to before the update is led to from one place after it. So uniqueness is kept by construction,
and nothing has to be compared with the statements of other bodies.

A jump waits until its body is complete; it goes to itself in the meantime. The invariant allows for
that: a jump that is new waits, or lies in a body of its own together with its label.
-/

namespace TreeMachine

/-! ### What leads where -/

/-- A jump has no sequences inside. -/
theorem StmtKind.children_of_isGoto {k : StmtKind} (h : k.isGoto = true) : k.children = [] := by
  cases k <;> first | rfl | cases h

theorem StmtKind.Kept.children {k k' : StmtKind} (h : k.Kept k') : k'.children = k.children := by
  rcases h with rfl | ⟨hk, hk'⟩
  · rfl
  · rw [children_of_isGoto hk, children_of_isGoto hk']

namespace Program

variable {p p' : Program} {u t : StmtId}

/-- Statements that are kept lead where they did. -/
theorem Keeps.leadsTo (h : p.Keeps 0 p') (hut : p.LeadsTo u t) : p'.LeadsTo u t := by
  obtain ⟨s, hs, hst⟩ := hut
  obtain ⟨k, hk, hs'⟩ := h.stmts u s (Nat.zero_le _) hs
  exact ⟨_, hs', hst.imp_right fun hmem => hk.children ▸ hmem⟩

/-- When all statements are kept and none is added, nothing else leads anywhere. -/
theorem Keeps.leadsTo_iff (h : p.Keeps 0 p') (hsize : p'.stmts.size = p.stmts.size) :
    p'.LeadsTo u t ↔ p.LeadsTo u t := by
  refine ⟨fun ⟨s', hs', hst⟩ => ?_, h.leadsTo⟩
  obtain ⟨s, hs⟩ := stmt?_isSome.2 (hsize ▸ stmt?_isSome.1 ⟨s', hs'⟩)
  obtain ⟨k, hk, hs''⟩ := h.stmts u s (Nat.zero_le _) hs
  cases hs'.symm.trans hs''
  exact ⟨s, hs, hst.imp_right fun hmem => hk.children ▸ hmem⟩

/-- Statements lead to statements of the table. -/
def LeadsInside (p : Program) : Prop :=
  ∀ u t, p.LeadsTo u t → t.index < p.stmts.size

/-- Growing tables lead where they did, and apart from that only to new statements, to each of them
from one statement at most. Nothing leads to the roots, from which all hangs that is noted down. A
jump that is new waits for its label or lies in a body of its own together with it. -/
structure Grafts (p p' : Program) (labels labels' : List (String × StmtId))
    (jumps jumps' : List (StmtId × String)) (roots : List StmtId) : Prop where
  size : p.stmts.size ≤ p'.stmts.size
  leads : ∀ u t, p.LeadsTo u t → p'.LeadsTo u t
  new : ∀ u t, p'.LeadsTo u t →
    p.LeadsTo u t ∨ p.stmts.size ≤ t.index ∧ t.index < p'.stmts.size ∧ t ∉ roots
  unique : ∀ u u' t, p.stmts.size ≤ t.index → p'.LeadsTo u t → p'.LeadsTo u' t → u = u'
  fresh : ∀ r ∈ roots, p.stmts.size ≤ r.index ∧ r.index < p'.stmts.size
  label : ∀ b ∈ labels', b ∈ labels ∨ ∃ r ∈ roots, p'.InBody r b.2
  jump : ∀ b ∈ jumps', b ∈ jumps ∨ ∃ r ∈ roots, p'.InBody r b.1
  pending : jumps ⊆ jumps'
  gotos : ∀ i s t, p'.stmt? i = some s → s.kind = .goto t →
    (∃ s₀, p.stmt? i = some s₀ ∧ s₀.kind = .goto t) ∨ (∃ b ∈ jumps', b.1 = i) ∨
      ∃ c, p.stmts.size ≤ c.index ∧ c ∉ roots ∧ p'.Begins c ∧ p'.InBody c i ∧ p'.InBody c t

namespace Grafts

variable {p'' : Program} {labels labels' labels'' : List (String × StmtId)}
  {jumps jumps' jumps'' : List (StmtId × String)} {roots roots' : List StmtId}

theorem inside (h : p.Grafts p' labels labels' jumps jumps' roots) (hp : p.LeadsInside) :
    p'.LeadsInside := by
  intro u t hut
  rcases h.new u t hut with hold | ⟨-, hlt, -⟩
  · exact Nat.lt_of_lt_of_le (hp u t hold) h.size
  · exact hlt

/-- What began a body goes on to do so. -/
theorem begins (h : p.Grafts p' labels labels' jumps jumps' roots) {c : StmtId}
    (hc : p.Begins c) : p'.Begins c := by
  have hlt := stmt?_isSome.1 hc.found
  refine ⟨stmt?_isSome.2 (Nat.lt_of_lt_of_le hlt h.size), fun u hu => ?_⟩
  rcases h.new u c hu with hold | ⟨hge, -, -⟩
  · exact hc.free u hold
  · omega

/-- A root begins a body as long as nothing else is added. -/
theorem begins_root (h : p.Grafts p' labels labels' jumps jumps' roots) (hp : p.LeadsInside)
    {r : StmtId} (hr : r ∈ roots) : p'.Begins r := by
  obtain ⟨hge, hlt⟩ := h.fresh r hr
  refine ⟨stmt?_isSome.2 hlt, fun u hu => ?_⟩
  rcases h.new u r hu with hold | ⟨-, -, hnot⟩
  · exact absurd (hp u r hold) (Nat.not_lt.2 hge)
  · exact hnot hr

theorem trans (h : p.Grafts p' labels labels' jumps jumps' roots)
    (h' : p'.Grafts p'' labels' labels'' jumps' jumps'' roots') :
    p.Grafts p'' labels labels'' jumps jumps'' (roots ++ roots') where
  size := Nat.le_trans h.size h'.size
  leads u t hut := h'.leads u t (h.leads u t hut)
  new u t hut := by
    -- What is new for the second part is new for both, and roots stay roots: they lie in one part.
    rcases h'.new u t hut with hmid | ⟨hge, hlt, hnot⟩
    · refine (h.new u t hmid).imp_right fun ⟨hge, hlt, hnot⟩ =>
        ⟨hge, Nat.lt_of_lt_of_le hlt h'.size, fun hmem => ?_⟩
      rcases List.mem_append.1 hmem with hmem | hmem
      · exact hnot hmem
      · exact absurd (h'.fresh t hmem).1 (Nat.not_le.2 hlt)
    · refine .inr ⟨Nat.le_trans h.size hge, hlt, fun hmem => ?_⟩
      rcases List.mem_append.1 hmem with hmem | hmem
      · exact absurd (h.fresh t hmem).2 (Nat.not_lt.2 hge)
      · exact hnot hmem
  unique u u' t hge hut hut' := by
    by_cases hmid : p'.stmts.size ≤ t.index
    · exact h'.unique u u' t hmid hut hut'
    · have hback : ∀ v, p''.LeadsTo v t → p'.LeadsTo v t := fun v hv =>
        (h'.new v t hv).resolve_right fun hnew => hmid hnew.1
      exact h.unique u u' t hge (hback u hut) (hback u' hut')
  fresh r hr := by
    rcases List.mem_append.1 hr with hr | hr
    · exact ⟨(h.fresh r hr).1, Nat.lt_of_lt_of_le (h.fresh r hr).2 h'.size⟩
    · exact ⟨Nat.le_trans h.size (h'.fresh r hr).1, (h'.fresh r hr).2⟩
  label b hb := by
    rcases h'.label b hb with hb | ⟨r, hr, hbody⟩
    · refine (h.label b hb).imp_right fun ⟨r, hr, hbody⟩ =>
        ⟨r, List.mem_append_left _ hr, hbody.mono h'.leads⟩
    · exact .inr ⟨r, List.mem_append_right _ hr, hbody⟩
  jump b hb := by
    rcases h'.jump b hb with hb | ⟨r, hr, hbody⟩
    · refine (h.jump b hb).imp_right fun ⟨r, hr, hbody⟩ =>
        ⟨r, List.mem_append_left _ hr, hbody.mono h'.leads⟩
    · exact .inr ⟨r, List.mem_append_right _ hr, hbody⟩
  pending b hb := h'.pending (h.pending hb)
  gotos i s t hs hk := by
    rcases h'.gotos i s t hs hk with ⟨s', hs', hk'⟩ | hjump | ⟨c, hge, hnot, hc, hi, ht⟩
    · rcases h.gotos i s' t hs' hk' with hold | ⟨b, hb, hbi⟩ | ⟨c, hge, hnot, hc, hi, ht⟩
      · exact .inl hold
      · exact .inr (.inl ⟨b, h'.pending hb, hbi⟩)
      · refine .inr (.inr ⟨c, hge, fun hmem => ?_, h'.begins hc, hi.mono h'.leads,
          ht.mono h'.leads⟩)
        rcases List.mem_append.1 hmem with hmem | hmem
        · exact hnot hmem
        · have hlt := stmt?_isSome.1 hc.found
          exact absurd (h'.fresh c hmem).1 (Nat.not_le.2 hlt)
    · exact .inr (.inl hjump)
    · refine .inr (.inr ⟨c, Nat.le_trans h.size hge, fun hmem => ?_, hc, hi, ht⟩)
      rcases List.mem_append.1 hmem with hmem | hmem
      · exact absurd (h.fresh c hmem).2 (Nat.not_lt.2 hge)
      · exact hnot hmem

/-- **Attaching**: a root is made to lead to the other ones, and is the only one that is left. -/
theorem attach {id : StmtId} {rest : List StmtId}
    (h : p.Grafts p' labels labels' jumps jumps' (id :: rest)) (hp : p.LeadsInside)
    (hid : id ∉ rest) (hsize : p''.stmts.size = p'.stmts.size)
    (hleads : ∀ u t, p''.LeadsTo u t ↔ p'.LeadsTo u t ∨ u = id ∧ t ∈ rest)
    (hgotos : ∀ i s t, p''.stmt? i = some s → s.kind = .goto t →
      ∃ s₀, p'.stmt? i = some s₀ ∧ s₀.kind = .goto t) :
    p.Grafts p'' labels labels' jumps jumps' [id] := by
  have hmono : ∀ u t, p'.LeadsTo u t → p''.LeadsTo u t := fun u t hut => (hleads u t).2 (.inl hut)
  -- So far nothing leads to the other roots.
  have hfree : ∀ u r, r ∈ rest → ¬p'.LeadsTo u r := fun u r hr =>
    (h.begins_root hp (List.mem_cons_of_mem _ hr)).free u
  have hhang : ∀ {i}, (∃ r ∈ id :: rest, p'.InBody r i) → ∃ r ∈ [id], p''.InBody r i := by
    rintro i ⟨r, hr, hbody⟩
    refine ⟨id, List.mem_singleton_self id, ?_⟩
    rcases List.mem_cons.1 hr with rfl | hr
    · exact hbody.mono hmono
    · exact (InBody.first.step ((hleads id r).2 (.inr ⟨rfl, hr⟩))).trans (hbody.mono hmono)
  refine ⟨hsize ▸ h.size, fun u t hut => hmono u t (h.leads u t hut), fun u t hut => ?_,
    fun u u' t hge hut hut' => ?_, fun r hr => ?_, fun b hb => (h.label b hb).imp_right hhang,
    fun b hb => (h.jump b hb).imp_right hhang, h.pending, fun i s t hs hk => ?_⟩
  · rcases (hleads u t).1 hut with hut | ⟨rfl, ht⟩
    · refine (h.new u t hut).imp_right fun ⟨hge, hlt, hnot⟩ => ⟨hge, hsize ▸ hlt, fun hmem => ?_⟩
      exact hnot (List.mem_singleton.1 hmem ▸ List.mem_cons_self)
    · obtain ⟨hge, hlt⟩ := h.fresh t (List.mem_cons_of_mem _ ht)
      exact .inr ⟨hge, hsize ▸ hlt, fun hmem => hid (List.mem_singleton.1 hmem ▸ ht)⟩
  · rcases (hleads u t).1 hut with hu | ⟨rfl, ht⟩
    · rcases (hleads u' t).1 hut' with hu' | ⟨-, ht⟩
      · exact h.unique u u' t hge hu hu'
      · exact absurd hu (hfree u t ht)
    · rcases (hleads u' t).1 hut' with hu' | ⟨rfl, -⟩
      · exact absurd hu' (hfree u' t ht)
      · rfl
  · rw [List.mem_singleton.1 hr, hsize]
    exact h.fresh id List.mem_cons_self
  · obtain ⟨s₀, hs₀, hk₀⟩ := hgotos i s t hs hk
    rcases h.gotos i s₀ t hs₀ hk₀ with hold | hjump | ⟨c, hge, hnot, hc, hi, ht⟩
    · exact .inl hold
    · exact .inr (.inl hjump)
    · have hbegins : p''.Begins c := by
        refine ⟨stmt?_isSome.2 (hsize ▸ stmt?_isSome.1 hc.found), fun u hu => ?_⟩
        rcases (hleads u c).1 hu with hu | ⟨-, hmem⟩
        · exact hc.free u hu
        · exact hnot (List.mem_cons_of_mem _ hmem)
      exact .inr (.inr ⟨c, hge, fun hmem => hnot (List.mem_singleton.1 hmem ▸ List.mem_cons_self),
        hbegins, hi.mono hmono, ht.mono hmono⟩)

end Grafts

end Program

namespace Link

variable {l l' l₁ : Linker} {roots : List StmtId}

/-- What a step of linking does to the trees of statements. -/
def Grafts (l : Linker) (roots : List StmtId) (l' : Linker) : Prop :=
  l.program.Grafts l'.program l.labels l'.labels l.jumps l'.jumps roots

/-- A step that adds no statement and notes nothing down. -/
theorem grafts_of_stmts (hl : l.program.LeadsInside) (hstmts : l'.program.stmts = l.program.stmts)
    (hlabels : l'.labels = l.labels) (hjumps : l'.jumps = l.jumps) : Grafts l [] l' := by
  have hstmt : ∀ i, l'.program.stmt? i = l.program.stmt? i := fun i => by
    rw [Program.stmt?, Program.stmt?, hstmts]
  have hleads : ∀ u t, l'.program.LeadsTo u t ↔ l.program.LeadsTo u t := fun u t => by
    rw [Program.LeadsTo, Program.LeadsTo, hstmt]
  rw [Grafts, hlabels, hjumps]
  exact ⟨Nat.le_of_eq (by rw [hstmts]), fun u t h => (hleads u t).2 h,
    fun u t h => .inl ((hleads u t).1 h),
    fun u _ t hge h _ => absurd (hl u t ((hleads u t).1 h)) (Nat.not_lt.2 hge),
    List.forall_mem_nil _, fun _ h => .inl h, fun _ h => .inl h, fun _ h => h,
    fun i s t hs hk => .inl ⟨s, hstmt i ▸ hs, hk⟩⟩

theorem grafts_pushExpr (hl : l.program.LeadsInside) (x : Expr) : Grafts l [] (pushExpr l x) :=
  grafts_of_stmts hl rfl rfl rfl

theorem grafts_mapM_declare {names : List String} {ids : List VarId} (hl : l.program.LeadsInside)
    (h : (names.mapM declare).Gives l ids l') : Grafts l [] l' := by
  induction names generalizing l ids with
  | nil =>
    obtain ⟨-, rfl⟩ := gives_pure.1 (show (pure [] : Link _).Gives l ids l' from h)
    exact grafts_of_stmts hl rfl rfl rfl
  | cons name names ih =>
    simp only [List.mapM_cons, gives_bind, gives_declare, gives_pure] at h
    obtain ⟨_, _, ⟨rfl, rfl⟩, _, _, hrest, rfl, rfl⟩ := h
    have hpush : Grafts l [] (pushLocal l name) := grafts_of_stmts hl rfl rfl rfl
    exact hpush.trans (ih (hpush.inside hl) hrest)

/-- A statement that is added is a root: its kind and its successor are not known yet. -/
theorem grafts_pushStmt (hl : l.program.LeadsInside) (parent : Option StmtId) (scope : ScopeId) :
    Grafts l [l.mark.stmtId] (pushStmt l parent scope) := by
  have hsize := stmts_size_pushStmt l parent scope
  have hleads : ∀ u t, (pushStmt l parent scope).program.LeadsTo u t → l.program.LeadsTo u t := by
    rintro u t ⟨s, hs, hst⟩
    rw [stmt?_pushStmt] at hs
    split at hs
    · cases hs
      rcases hst with hst | hst <;> cases hst
    · exact ⟨s, hs, hst⟩
  have hmono : ∀ u t, l.program.LeadsTo u t → (pushStmt l parent scope).program.LeadsTo u t :=
    fun u t => (advances_pushStmt l parent scope).1.keeps.leadsTo
  refine ⟨by omega, hmono, fun u t h => .inl (hleads u t h), fun u u' t hge h _ => ?_,
    fun r hr => ?_, fun b hb => .inl hb, fun b hb => .inl hb, fun b hb => hb, fun i s t hs hk => ?_⟩
  · exact absurd (hl u t (hleads u t h)) (Nat.not_lt.2 hge)
  · rw [List.mem_singleton.1 hr, hsize]
    exact ⟨Nat.le_refl _, Nat.lt_succ_self _⟩
  · rw [stmt?_pushStmt] at hs
    split at hs
    · cases hs
      cases hk
    · exact .inl ⟨s, hs, hk⟩

/-- Setting the kind of a statement that leads nowhere so far. -/
theorem leadsTo_putKind {id : StmtId} {parent : Option StmtId} {scope : ScopeId}
    (hid : l.program.stmt? id = some ⟨.block none, none, parent, scope⟩) (kind : StmtKind)
    (u t : StmtId) : (putKind l id kind).program.LeadsTo u t ↔
      l.program.LeadsTo u t ∨ u = id ∧ t ∈ kind.children := by
  unfold Program.LeadsTo
  rw [stmt?_putKind]
  by_cases hu : u = id
  · subst hu
    simp [hid, StmtKind.children]
  · simp [hu]

/-- Setting the successor of a statement that has none so far. -/
theorem leadsTo_putNext {id : StmtId} {kind : StmtKind} {parent : Option StmtId} {scope : ScopeId}
    (hid : l.program.stmt? id = some ⟨kind, none, parent, scope⟩) (next : Option StmtId)
    (u t : StmtId) : (putNext l id next).program.LeadsTo u t ↔
      l.program.LeadsTo u t ∨ u = id ∧ t ∈ next.toList := by
  unfold Program.LeadsTo
  rw [stmt?_putNext]
  by_cases hu : u = id
  · subst hu
    simp [hid, or_comm]
  · simp [hu]

/-- **A statement is complete** when its kind is set: what is inside it hangs from it. -/
theorem grafts_putKind (hl : l.program.LeadsInside) {parent : Option StmtId} {scope : ScopeId}
    (hadv : Advances (pushStmt l parent scope) l₁) {kind : StmtKind}
    (h : Grafts (pushStmt l parent scope) kind.children l₁) (hkind : kind.isGoto = false) :
    Grafts l [l.mark.stmtId] (putKind l₁ l.mark.stmtId kind) := by
  have hid := stmt?_of_advances hadv
  have hall : Grafts l (l.mark.stmtId :: kind.children) l₁ :=
    (grafts_pushStmt hl parent scope).trans h
  refine hall.attach hl (fun hmem => ?_) (by simp [putKind]) (leadsTo_putKind hid kind)
    fun i s t hs hk => ?_
  · have hge := (h.fresh _ hmem).1
    rw [stmts_size_pushStmt] at hge
    exact absurd hge (Nat.not_succ_le_self _)
  · rw [stmt?_putKind] at hs
    split at hs
    · obtain ⟨s₀, -, rfl⟩ := Option.map_eq_some_iff.1 hs
      rw [show kind = .goto t from hk] at hkind
      cases hkind
    · exact ⟨s, hs, hk⟩

/-- The rest of a sequence hangs from its first statement. -/
theorem grafts_putNext (hl : l.program.LeadsInside) {l₂ : Linker} {id : StmtId} {kind : StmtKind}
    {parent : Option StmtId} {scope : ScopeId}
    (hid : l₂.program.stmt? id = some ⟨kind, none, parent, scope⟩) (h : Grafts l [id] l₁)
    {next : Option StmtId} (h' : Grafts l₁ next.toList l₂) :
    Grafts l [id] (putNext l₂ id next) := by
  refine (h.trans h').attach hl (fun hmem => ?_) (by simp [putNext]) (leadsTo_putNext hid next)
    fun i s t hs hk => ?_
  · exact absurd (h'.fresh id hmem).1 (Nat.not_le.2 (h.fresh id (List.mem_singleton_self id)).2)
  · rw [stmt?_putNext] at hs
    split at hs
    · obtain ⟨s₀, hs₀, rfl⟩ := Option.map_eq_some_iff.1 hs
      exact ⟨s₀, hs₀, hk⟩
    · exact ⟨s, hs, hk⟩

/-! ### Labels and jumps -/

/-- A statement that is noted down as a label. -/
theorem grafts_declareLabel {id : StmtId} (h : Grafts l [id] l') (name : String) :
    Grafts l [id] { l' with labels := (name, id) :: l'.labels } := by
  refine ⟨h.size, h.leads, h.new, h.unique, h.fresh, fun b hb => ?_, h.jump, h.pending, h.gotos⟩
  rcases List.mem_cons.1 hb with rfl | hb
  · exact .inr ⟨id, List.mem_singleton_self id, .first⟩
  · exact h.label b hb

/-- A statement that is noted down as a jump, and becomes one that has no label yet. -/
theorem grafts_recordJump (hl : l.program.LeadsInside) (parent : Option StmtId) (scope : ScopeId)
    (label : String) :
    Grafts l [l.mark.stmtId] (putKind
      { pushStmt l parent scope with jumps := (l.mark.stmtId, label) :: l.jumps }
      l.mark.stmtId (.goto l.mark.stmtId)) := by
  have h := grafts_pushStmt hl parent scope
  have hid := stmt?_of_advances (.refl (pushStmt l parent scope))
  have hleads : ∀ u t, (putKind (pushStmt l parent scope) l.mark.stmtId
      (.goto l.mark.stmtId)).program.LeadsTo u t ↔ (pushStmt l parent scope).program.LeadsTo u t :=
    fun u t => (leadsTo_putKind hid _ u t).trans (or_iff_left fun ht => List.not_mem_nil ht.2)
  have hsize : (putKind (pushStmt l parent scope) l.mark.stmtId
      (.goto l.mark.stmtId)).program.stmts.size = (pushStmt l parent scope).program.stmts.size := by
    simp [putKind]
  refine ⟨hsize ▸ h.size, fun u t hut => (hleads u t).2 (h.leads u t hut), fun u t hut => ?_,
    fun u u' t hge hut hut' => h.unique u u' t hge ((hleads u t).1 hut) ((hleads u' t).1 hut'),
    fun r hr => hsize ▸ h.fresh r hr, fun b hb => .inl hb, fun b hb => ?_,
    fun b hb => List.mem_cons_of_mem _ hb, fun i s t hs hk => ?_⟩
  · refine (h.new u t ((hleads u t).1 hut)).imp_right ?_
    rintro ⟨hge, hlt, hnot⟩
    exact ⟨hge, hsize ▸ hlt, hnot⟩
  · rcases List.mem_cons.1 hb with rfl | hb
    · exact .inr ⟨_, List.mem_singleton_self _, .first⟩
    · exact .inl hb
  · have hs' : (putKind (pushStmt l parent scope) l.mark.stmtId
        (.goto l.mark.stmtId)).program.stmt? i = some s := hs
    rw [stmt?_putKind] at hs'
    split at hs'
    · rename_i hi
      exact .inr (.inl ⟨_, List.mem_cons_self, hi.symm⟩)
    · rw [stmt?_pushStmt, if_neg ‹_›] at hs'
      exact .inl ⟨s, hs', hk⟩

/-- After the jumps of a list have been resolved, they go to labels of the body, and the other jumps
go where they did. -/
theorem goto_of_forM {js : List (StmtId × String)} {u : Unit}
    (h : (js.forM resolveJump).Gives l u l') :
    ∀ i s t, l'.program.stmt? i = some s → s.kind = .goto t →
      ((∃ b ∈ js, b.1 = i) ∧ ∃ b ∈ l.labels, b.2 = t) ∨
        (∀ b ∈ js, b.1 ≠ i) ∧ ∃ s₀, l.program.stmt? i = some s₀ ∧ s₀.kind = .goto t := by
  induction js generalizing l with
  | nil =>
    obtain ⟨-, rfl⟩ := gives_pure.1 (show (pure () : Link Unit).Gives l u l' from h)
    exact fun i s t hs hk => .inr ⟨nofun, s, hs, hk⟩
  | cons j js ih =>
    obtain ⟨_, l₁, h₁, hrest⟩ :=
      gives_bind.1 (show (resolveJump j >>= fun _ => js.forM resolveJump).Gives l u l' from h)
    obtain ⟨target, ht, -, rfl⟩ := gives_resolveJump h₁
    intro i s t hs hk
    -- A jump that is not in the rest of the list is this one, which now goes to its label, or none.
    rcases ih hrest i s t hs hk with ⟨⟨b, hb, hbi⟩, hlabel⟩ | ⟨hnot, s₀, hs₀, hk₀⟩
    · exact .inl ⟨⟨b, List.mem_cons_of_mem _ hb, hbi⟩, hlabel⟩
    · rw [stmt?_putKind] at hs₀
      split at hs₀
      · rename_i hij
        obtain ⟨s₁, -, rfl⟩ := Option.map_eq_some_iff.1 hs₀
        cases hk₀
        obtain ⟨ls, rs, hls, -⟩ := List.lookup_eq_some_iff.1 ht
        exact .inl ⟨⟨j, List.mem_cons_self, hij.symm⟩, (j.2, target), by simp [hls], rfl⟩
      · rename_i hij
        refine .inr ⟨fun b hb => ?_, s₀, hs₀, hk₀⟩
        rcases List.mem_cons.1 hb with rfl | hb
        · exact Ne.symm hij
        · exact hnot b hb

/-- **Linking a body** with a root leaves nothing to hang from it: its labels and jumps are its
own, and what is left of them is forgotten. -/
theorem grafts_withBody {x : Link (Option StmtId)} {first : Option StmtId}
    (hl : l.program.LeadsInside) (h : (withBody x).Gives l first l')
    (hx : ∀ l₁, x.Gives { l with labels := [], jumps := [] } first l₁ →
      Advances { l with labels := [], jumps := [] } l₁ ∧
        Grafts { l with labels := [], jumps := [] } first.toList l₁) :
    Grafts l [] l' ∧ ∀ c, first = some c → l'.program.Begins c := by
  obtain ⟨l₁, l₂, h₁, h₂, rfl⟩ := gives_withBody h
  obtain ⟨⟨hgrows, hcons⟩, hgrafts⟩ := hx l₁ h₁
  -- The body was linked without any labels and jumps, so those that are there now are its own.
  have hinner : l₁.program.Consistent (fun _ => True) l₁.labels l₁.jumps :=
    hcons _ ⟨by simp, by simp, fun _ _ _ _ _ => .inr (.inr trivial)⟩
  have hres : Resolves l₁.jumps.reverse l₁ l₂ :=
    resolves_forM hinner.label (fun b hb => hinner.jump b (List.mem_reverse.1 hb)) h₂
  have hsize : l₂.program.stmts.size = l₁.program.stmts.size := congrArg Mark.stmts hres.mark
  have hleads : ∀ u t, l₂.program.LeadsTo u t ↔ l₁.program.LeadsTo u t := fun u t =>
    hres.grows.keeps.leadsTo_iff hsize
  have hbegins : ∀ c, l₁.program.Begins c → l₂.program.Begins c := fun c hc =>
    ⟨Program.stmt?_isSome.2 (hsize ▸ Program.stmt?_isSome.1 hc.found),
      fun u hu => hc.free u ((hleads u c).1 hu)⟩
  have hroot : ∀ c, first = some c → l₁.program.Begins c := fun c hc =>
    hgrafts.begins_root hl (Option.mem_toList.2 hc)
  have hbody : ∀ {c i}, l₁.program.InBody c i → l₂.program.InBody c i := fun hi =>
    hi.mono fun u t hut => (hleads u t).2 hut
  refine ⟨⟨hsize ▸ hgrafts.size, fun u t hut => (hleads u t).2 (hgrafts.leads u t hut),
    fun u t hut => ?_, fun u u' t hge hut hut' =>
      hgrafts.unique u u' t hge ((hleads u t).1 hut) ((hleads u' t).1 hut'),
    nofun, fun b hb => .inl hb, fun b hb => .inl hb, fun b hb => hb, fun i s t hs hk => ?_⟩,
    fun c hc => hbegins c (hroot c hc)⟩
  · exact (hgrafts.new u t ((hleads u t).1 hut)).imp_right fun ⟨hge, hlt, _⟩ =>
      ⟨hge, hsize ▸ hlt, List.not_mem_nil⟩
  · rcases goto_of_forM h₂ i s t hs hk with ⟨⟨b, hb, rfl⟩, b', hb', rfl⟩ | ⟨hnot, s₀, hs₀, hk₀⟩
    · -- The jump and its label hang from the one root of the body.
      obtain ⟨c, hc, hi⟩ := (hgrafts.jump b (List.mem_reverse.1 hb)).resolve_left List.not_mem_nil
      obtain ⟨c', hc', ht⟩ := (hgrafts.label b' hb').resolve_left List.not_mem_nil
      have hfirst := Option.mem_toList.1 hc
      obtain rfl : c = c' := Option.some.inj (hfirst.symm.trans (Option.mem_toList.1 hc'))
      exact .inr (.inr ⟨c, (hgrafts.fresh c hc).1, List.not_mem_nil, hbegins c (hroot c hfirst),
        hbody hi, hbody ht⟩)
    · rcases hgrafts.gotos i s₀ t hs₀ hk₀ with hold | ⟨b, hb, hbi⟩ | ⟨c, hge, -, hc, hi, ht⟩
      · exact .inl hold
      · exact absurd hbi (hnot b (List.mem_reverse.2 hb))
      · exact .inr (.inr ⟨c, hge, List.not_mem_nil, hbegins c hc, hbody hi, hbody ht⟩)

/-! ### Definitions -/

mutual

/-- Linking an expression adds bodies of closures only. -/
theorem expr_grafts (scope : ScopeId) : ∀ (e : Source.Expr) {l l' : Linker} {x : ExprId},
    (expr scope e).Gives l x l' → l.program.LeadsInside → Grafts l [] l'
  | .scalar _, l, l', x, h, hl => by
    obtain ⟨-, rfl⟩ := gives_addExpr.1 h
    exact grafts_of_stmts hl rfl rfl rfl
  | .var _, l, l', x, h, hl => by
    obtain ⟨_, -, -, rfl⟩ := gives_var h
    exact grafts_of_stmts hl rfl rfl rfl
  | .declare _, l, l', x, h, hl => by
    obtain ⟨-, rfl⟩ := gives_declaration h
    exact grafts_of_stmts hl rfl rfl rfl
  | .assign _ value, l, l', x, h, hl => by
    obtain ⟨_, _, l₁, -, hv, -, rfl⟩ := gives_assign h
    have hvalue := expr_grafts scope value hv hl
    exact hvalue.trans (grafts_pushExpr (hvalue.inside hl) _)
  | .name _, l, l', x, h, hl => by
    obtain ⟨-, rfl⟩ := gives_addExpr.1 h
    exact grafts_of_stmts hl rfl rfl rfl
  | .function _, l, l', x, h, hl => by
    obtain ⟨_, -, -, rfl⟩ := gives_reference h
    exact grafts_of_stmts hl rfl rfl rfl
  | .call callee args, l, l', x, h, hl => by
    obtain ⟨_, l₁, _, l₂, hc, has, -, rfl⟩ := gives_call h
    have h₁ := expr_grafts scope callee hc hl
    have h₂ := h₁.trans (exprs_grafts scope args has (h₁.inside hl))
    exact h₂.trans (grafts_pushExpr (h₂.inside hl) _)
  | .choose cond thenExpr elseExpr, l, l', x, h, hl => by
    obtain ⟨_, l₁, _, l₂, _, l₃, hc, ht, hf, -, rfl⟩ := gives_choose h
    have h₁ := expr_grafts scope cond hc hl
    have h₂ := h₁.trans (expr_grafts scope thenExpr ht (h₁.inside hl))
    have h₃ := h₂.trans (expr_grafts scope elseExpr hf (h₂.inside hl))
    exact h₃.trans (grafts_pushExpr (h₃.inside hl) _)
  | .closure params body, l, l', x, h, hl => by
    obtain ⟨_, l₁, _, l₂, hids, hbody, -, rfl⟩ := gives_closure h
    have h₂ : Grafts l [] l₁ :=
      grafts_mapM_declare (l := { l with frames := [] :: l.frames }) hl hids
    have h₃ := (grafts_withBody (h₂.inside hl) hbody fun l₄ h₄ => by
      obtain ⟨_, h₅, rfl⟩ := gives_withFrame.1 h₄
      have h₆ := stmts_grafts scope none body h₅ (h₂.inside hl)
      exact ⟨(stmts_placed scope none body h₅).1, h₆⟩).1
    have hall := h₂.trans h₃
    have hframes : l₂.program.LeadsInside := hall.inside hl
    exact hall.trans (grafts_pushExpr (l := { l₂ with frames := l.frames }) hframes _)

theorem exprs_grafts (scope : ScopeId) : ∀ (es : List Source.Expr) {l l' : Linker}
    {ids : List ExprId}, (exprs scope es).Gives l ids l' → l.program.LeadsInside → Grafts l [] l'
  | [], l, l', ids, h, hl => by
    obtain ⟨-, rfl⟩ := gives_pure.1 h
    exact grafts_of_stmts hl rfl rfl rfl
  | e :: es, l, l', ids, h, hl => by
    obtain ⟨_, l₁, _, hi, his, -⟩ := gives_exprs_cons h
    have h₁ := expr_grafts scope e hi hl
    exact h₁.trans (exprs_grafts scope es his (h₁.inside hl))

/-- **Linking a statement** adds a tree that hangs from it. -/
theorem stmt_grafts (scope : ScopeId) (parent : Option StmtId) : ∀ (s : Source.Stmt)
    {l l' : Linker} {i : StmtId}, (stmt scope parent s).Gives l i l' → l.program.LeadsInside →
      Grafts l [l.mark.stmtId] l'
  | .expr e, l, l', i, h, hl => by
    obtain ⟨x, l₁, rfl, hx, rfl⟩ := gives_exprStmt h
    have hpush := (grafts_pushStmt hl parent scope).inside hl
    exact grafts_putKind hl (expr_placed scope e hx).1
      (expr_grafts scope e hx hpush) rfl
  | .block body, l, l', i, h, hl => by
    obtain ⟨first, l₁, rfl, hbody, rfl⟩ := gives_block h
    have hpush := (grafts_pushStmt hl parent scope).inside hl
    have h₁ := stmts_grafts scope _ body hbody hpush
    exact grafts_putKind hl (stmts_placed scope _ body hbody).1 h₁ rfl
  | .loop cond body testLast, l, l', i, h, hl => by
    obtain ⟨c, l₁, first, l₂, rfl, hc, hbody, rfl⟩ := gives_loop h
    have hpush := (grafts_pushStmt hl parent scope).inside hl
    have h₁ := expr_grafts scope cond hc hpush
    have h₂ := stmts_grafts scope _ body hbody (h₁.inside hpush)
    have hadv := (expr_placed scope cond hc).1.trans (stmts_placed scope _ body hbody).1
    exact grafts_putKind hl hadv (h₁.trans h₂) rfl
  | .forall indices iterators body, l, l', i, h, hl => by
    obtain ⟨is, l₁, xs, l₂, first, l₃, rfl, his, hxs, hbody, rfl⟩ := gives_forall h
    have hpush := (grafts_pushStmt hl parent scope).inside hl
    have h₁ := exprs_grafts scope iterators his hpush
    have h₂ := h₁.trans (grafts_mapM_declare (l := { l₁ with frames := [] :: l₁.frames })
      (h₁.inside hpush) hxs)
    have h₃ := stmts_grafts scope _ body hbody (h₂.inside hpush)
    have hadv : Advances l₁ { l₃ with frames := l₁.frames } :=
      Advances.trans (gives_mapM_declare hxs).2.2 (stmts_placed scope _ body hbody).1
    exact grafts_putKind hl ((exprs_placed scope iterators his).1.trans hadv)
      (h₂.trans h₃) rfl
  | .branch cond thenBody elseBody, l, l', i, h, hl => by
    obtain ⟨c, l₁, t, l₂, f, l₃, rfl, hc, ht, hf, rfl⟩ := gives_branch h
    have hpush := (grafts_pushStmt hl parent scope).inside hl
    have h₁ := expr_grafts scope cond hc hpush
    have h₂ := stmts_grafts scope _ thenBody ht (h₁.inside hpush)
    have h₃ := stmts_grafts scope _ elseBody hf (h₂.inside (h₁.inside hpush))
    have hadv : Advances l₁ { l₃ with frames := l₁.frames } :=
      Advances.trans (stmts_placed scope _ thenBody ht).1 (stmts_placed scope _ elseBody hf).1
    exact grafts_putKind hl ((expr_placed scope cond hc).1.trans hadv)
      (h₁.trans (h₂.trans h₃)) rfl
  | .select selector arms, l, l', i, h, hl => by
    obtain ⟨c, l₁, first, l₂, rfl, hc, harms, rfl⟩ := gives_select h
    have hpush := (grafts_pushStmt hl parent scope).inside hl
    have h₁ := expr_grafts scope selector hc hpush
    have h₂ := h₁.trans (armSeq_grafts scope _ arms harms (h₁.inside hpush))
    have hadv := (expr_placed scope selector hc).1.trans (armSeq_placed scope _ arms harms).1
    exact grafts_putKind hl hadv h₂ rfl
  | .return none, l, l', i, h, hl => by
    obtain ⟨rfl, rfl⟩ := gives_return_none h
    have hpush := (grafts_pushStmt hl parent scope).inside hl
    exact grafts_putKind hl (.refl _) (grafts_of_stmts hpush rfl rfl rfl) rfl
  | .return (some value), l, l', i, h, hl => by
    obtain ⟨v, l₁, rfl, hv, rfl⟩ := gives_return_some h
    have hpush := (grafts_pushStmt hl parent scope).inside hl
    exact grafts_putKind hl (expr_placed scope value hv).1
      (expr_grafts scope value hv hpush) rfl
  | .label name, l, l', i, h, hl => by
    obtain ⟨rfl, -, rfl⟩ := gives_label h
    have hpush := (grafts_pushStmt hl parent scope).inside hl
    have hput : Grafts l [l.mark.stmtId]
        (putKind (pushStmt l parent scope) l.mark.stmtId (.label name)) :=
      grafts_putKind hl (.refl _) (grafts_of_stmts hpush rfl rfl rfl) rfl
    exact grafts_declareLabel hput name
  | .goto label, l, l', i, h, hl => by
    obtain ⟨rfl, rfl⟩ := gives_goto h
    exact grafts_recordJump hl parent scope label

/-- **Linking a sequence** adds what hangs from its first statement. -/
theorem stmts_grafts (scope : ScopeId) (parent : Option StmtId) : ∀ (ss : List Source.Stmt)
    {l l' : Linker} {first : Option StmtId}, (stmts scope parent ss).Gives l first l' →
      l.program.LeadsInside → Grafts l first.toList l'
  | [], l, l', first, h, hl => by
    obtain ⟨rfl, rfl⟩ := gives_pure.1 h
    exact grafts_of_stmts hl rfl rfl rfl
  | s :: ss, l, l', first, h, hl => by
    obtain ⟨_, l₁, next, l₂, hs, hss, rfl, rfl⟩ := gives_stmts_cons h
    obtain ⟨rfl, -, kind, hid, -⟩ := stmt_placed scope parent s hs
    have h₁ := stmt_grafts scope parent s hs hl
    obtain ⟨k, -, hid₂⟩ :=
      (stmts_placed scope parent ss hss).1.1.keeps.stmts _ _ (Nat.zero_le _) hid
    exact grafts_putNext hl hid₂ h₁ (stmts_grafts scope parent ss hss (h₁.inside hl))

theorem arm_grafts (scope : ScopeId) (select : StmtId) : ∀ (a : Source.Arm) {l l' : Linker}
    {i : StmtId}, (arm scope select a).Gives l i l' → l.program.LeadsInside →
      Grafts l [l.mark.stmtId] l'
  | .mk cases body, l, l', i, h, hl => by
    obtain ⟨cs, l₁, first, l₂, rfl, hcs, hbody, rfl⟩ := gives_arm h
    have hpush := (grafts_pushStmt hl (some select) scope).inside hl
    have h₁ := exprs_grafts scope cases hcs hpush
    have h₂ := stmts_grafts scope _ body hbody (h₁.inside hpush)
    have hadv := (exprs_placed scope cases hcs).1.trans (stmts_placed scope _ body hbody).1
    exact grafts_putKind hl hadv (h₁.trans h₂) rfl

theorem armSeq_grafts (scope : ScopeId) (select : StmtId) : ∀ (as : List Source.Arm)
    {l l' : Linker} {first : Option StmtId}, (armSeq scope select as).Gives l first l' →
      l.program.LeadsInside → Grafts l first.toList l'
  | [], l, l', first, h, hl => by
    obtain ⟨rfl, rfl⟩ := gives_pure.1 h
    exact grafts_of_stmts hl rfl rfl rfl
  | a :: as, l, l', first, h, hl => by
    obtain ⟨_, l₁, next, l₂, ha, has, rfl, rfl⟩ := gives_armSeq_cons h
    obtain ⟨rfl, -, kind, hid, -⟩ := arm_placed scope select a ha
    have h₁ := arm_grafts scope select a ha hl
    obtain ⟨k, -, hid₂⟩ :=
      (armSeq_placed scope select as has).1.1.keeps.stmts _ _ (Nat.zero_le _) hid
    exact grafts_putNext hl hid₂ h₁ (armSeq_grafts scope select as has (h₁.inside hl))

end

/-- **Linking a body** adds statements that nothing else leads to. -/
theorem grafts_body (hl : l.program.LeadsInside) {scope : ScopeId} {ss : List Source.Stmt}
    {first : Option StmtId} (h : (body scope ss).Gives l first l') :
    Grafts l [] l' ∧ ∀ c, first = some c → l'.program.Begins c := by
  refine grafts_withBody hl h fun l₁ h₁ => ?_
  obtain ⟨_, h₂, rfl⟩ := gives_withFrame.1 h₁
  have h₃ := stmts_grafts scope none ss h₂ hl
  exact ⟨(stmts_placed scope none ss h₂).1, h₃⟩

end Link

end TreeMachine
