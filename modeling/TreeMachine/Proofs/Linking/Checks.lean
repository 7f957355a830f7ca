import Mathlib.Data.List.Nodup
import TreeMachine.Proofs.Linking.Numbers
import TreeMachine.Proofs.Linking.Scopes

/-!
# Linking checks what a definition relies on

A step of linking meets the places that something is required of in the order of the definition. It
succeeds if all is well there, and otherwise fails with what is wrong at the first such place
(`Link.Checks`). Composed steps check what their parts check, one after the other
(`Link.Checks.bind`).

What is required at a place is read off the definition, and what the linker finds there depends on
its state. The two agree because the state follows the definition: the names that are visible are
those that it declares (`Linker.Sees`), and within a body the labels that have been noted down are
those of the statements so far (`Linker.Stands`). Both are kept by every step, since what a step
does to the state is known (`Linker.Stands.effect`).

There is one lemma for each kind of requirement: a variable (`Link.checks_lookup`), a reference to a
function (`Link.checks_functionName`), a label (`Link.checks_declareLabel`), and a jump, which may
go to a label if the parent of the label is among the statements around the jump
(`Link.canJump_iff`). The last is stated with the numbers of statements on the one side and with ids
on the other, the difference being where the body begins.

Steps that cannot fail have no place in the list. They come before or after a step that checks
something (`Link.Checks.after`, `Link.Checks.finish`), and the places of linking that were left out
on purpose, such as names of callees, do not show up at all.
-/

namespace TreeMachine

open Source (Landmark Use labelNames gotoUses)

/-! ### Steps that check places -/

namespace Link

variable {α β : Type} {x : Link α} {f : α → Link β} {l l' l₁ : Linker} {a : α}
  {us us' : List Use}

/-- A step of linking fails with the given error, or it succeeds if there is none. -/
def Ends (x : Link α) (l : Linker) : Option LinkError → Prop
  | none => ∃ a l', x.Gives l a l'
  | some e => x l = .error e

/-- **A step checks places**: it succeeds if nothing is wrong there, and otherwise fails with what
is wrong at the first such place. -/
def Checks (x : Link α) (l : Linker) (us : List Use) : Prop :=
  Ends x l (us.findSome? Use.error?)

theorem checks_nil : Checks x l [] ↔ ∃ a l', x.Gives l a l' :=
  Iff.rfl

theorem bind_of_gives (h : x.Gives l a l₁) : (x >>= f) l = f a l₁ := by
  have hx : x l = .ok (a, l₁) := h
  simp only [bind, StateT.bind, Except.bind, hx]

/-- Of steps one after the other, the first one that fails decides how they end. -/
theorem Ends.bind {e e' : Option LinkError} (hx : Ends x l e)
    (hf : ∀ a l₁, x.Gives l a l₁ → Ends (f a) l₁ e') : Ends (x >>= f) l (e.or e') := by
  cases e with
  | none =>
    obtain ⟨a, l₁, ha⟩ := hx
    have hrest := hf a l₁ ha
    rw [Option.none_or]
    cases e' with
    | none =>
      obtain ⟨b, l', hb⟩ := hrest
      exact ⟨b, l', gives_bind.2 ⟨a, l₁, ha, hb⟩⟩
    | some e' => exact (bind_of_gives ha).trans hrest
  | some e =>
    have hx' : x l = .error e := hx
    rw [Option.some_or]
    simp only [Ends, Bind.bind, StateT.bind, Except.bind, hx']

/-- Steps one after the other check the places of both. -/
theorem Checks.bind (hx : Checks x l us)
    (hf : ∀ a l₁, x.Gives l a l₁ → Checks (f a) l₁ us') : Checks (x >>= f) l (us ++ us') := by
  rw [Checks, List.findSome?_append]
  exact Ends.bind hx hf

/-- A step that succeeds leaves it to the next one how they end. -/
theorem Ends.after {e : Option LinkError} (hx : x.Gives l a l₁) (h : Ends (f a) l₁ e) :
    Ends (x >>= f) l e := by
  have hends : Ends x l none := ⟨a, l₁, hx⟩
  rw [← Option.none_or (o := e)]
  refine hends.bind fun b l₂ hb => ?_
  obtain ⟨rfl, rfl⟩ := Prod.mk.inj (Except.ok.inj (hb.symm.trans hx))
  exact h

/-- Before a step that checks places, there may be one that succeeds. -/
theorem Checks.after (hx : x.Gives l a l₁) (h : Checks (f a) l₁ us) : Checks (x >>= f) l us :=
  Ends.after hx h

/-- After a step that checks places, there may be one that succeeds. -/
theorem Checks.finish (hx : Checks x l us) (hf : ∀ a l₁, ∃ b l', (f a).Gives l₁ b l') :
    Checks (x >>= f) l us := by
  rw [← List.append_nil us]
  exact hx.bind fun a l₁ _ => checks_nil.2 (hf a l₁)

/-- A step that fails where something is wrong. -/
theorem checks_throw {e : LinkError} {u : Use} (he : u.error? = some e) :
    Checks (throw e : Link α) l [u] := by
  rw [Checks, List.findSome?_singleton, he]
  rfl

/-- A step that succeeds where all is well. -/
theorem checks_ok {u : Use} (hu : u.error? = none) (h : x.Gives l a l') : Checks x l [u] := by
  rw [Checks, List.findSome?_singleton, hu]
  exact ⟨a, l', h⟩

theorem checks_withFrame {frame : List (String × VarId)}
    (h : Checks x { l with frames := frame :: l.frames } us) : Checks (withFrame frame x) l us :=
  .after (gives_get.2 ⟨rfl, rfl⟩) (.after (a := ()) (gives_modify.2 rfl) (h.finish fun a l₁ =>
    ⟨a, { l₁ with frames := l.frames },
      gives_bind.2 ⟨(), _, gives_modify.2 rfl, gives_pure.2 ⟨rfl, rfl⟩⟩⟩))

/-- A statement is completed whatever it is. -/
theorem setKind_succeeds (id : StmtId) (kind : StmtKind) (l : Linker) :
    ∃ i l', (setKind id kind >>= fun _ => (pure id : Link StmtId)).Gives l i l' :=
  ⟨id, _, gives_bind.2 ⟨(), _, gives_setKind.2 rfl, gives_pure.2 ⟨rfl, rfl⟩⟩⟩

theorem addExpr_succeeds (x : Expr) (l : Linker) : ∃ e l', (addExpr x).Gives l e l' :=
  ⟨_, _, gives_addExpr.2 ⟨rfl, rfl⟩⟩

theorem mapM_declare_succeeds (names : List String) (l : Linker) :
    ∃ ids l', (names.mapM declare).Gives l ids l' := by
  induction names generalizing l with
  | nil => exact ⟨[], l, gives_pure.2 ⟨rfl, rfl⟩⟩
  | cons name names ih =>
    obtain ⟨ids, l', h⟩ := ih (pushLocal l name)
    refine ⟨l.mark.varId :: ids, l', ?_⟩
    simp only [List.mapM_cons, gives_bind, gives_declare, gives_pure]
    exact ⟨_, _, ⟨rfl, rfl⟩, ids, l', h, rfl, rfl⟩

end Link

/-! ### The state follows the definition -/

namespace Linker

/-- The functions that are visible in a scope and the variables in scope have the given names. -/
structure Sees (l : Linker) (scope : ScopeId) (functions vars : List String) : Prop where
  functions : l.program.Shows scope functions
  frames : l.frames ≠ []
  vars : ∀ name, name ∈ l.names ↔ name ∈ vars

/-- The linker is at a place of a body, before the statement with the given number and inside the
given statements. -/
structure Stands (l : Linker) (scope : ScopeId) (parent : Option StmtId) (base n : Nat)
    (around : List Nat) (functions vars labels : List String) : Prop
    extends l.Sees scope functions vars where
  labels : l.labels.map Prod.fst = labels
  number : l.program.stmts.size = base + n
  around : l.program.EnclosedBy l.program.stmts.size parent (around.map (base + ·))

variable {l l' : Linker} {scope : ScopeId} {parent : Option StmtId} {base n size : Nat}
  {around : List Nat} {functions vars labels declares : List String} {landmarks : List Landmark}
  {gotos : List (StmtId × String)}

/-- After some statements, what they declare is visible as well. -/
theorem Sees.effect (h : l.Sees scope functions vars)
    (he : Link.Effect base l size declares landmarks gotos l') :
    l'.Sees scope functions (declares ++ vars) where
  functions := h.functions.mono he.advances.1.keepsScopes
  frames := he.frames h.frames
  vars name := by rw [he.names h.frames, h.vars, List.mem_append]

theorem Sees.enter (h : l.Sees scope functions vars) (frame : List (String × VarId)) :
    Sees { l with frames := frame :: l.frames } scope functions (frame.map Prod.fst ++ vars) where
  functions := h.functions
  frames := List.cons_ne_nil _ _
  vars name := by rw [Link.names_enter, List.mem_append, List.mem_append, h.vars]

/-- After some statements of a body, their labels have been noted down as well. -/
theorem Stands.effect (h : l.Stands scope parent base n around functions vars labels)
    (he : Link.Effect base l size declares landmarks gotos l') :
    l'.Stands scope parent base (n + size) around functions (declares ++ vars)
      (labelNames landmarks ++ labels) where
  toSees := h.toSees.effect he
  labels := by
    rw [he.labels, List.map_append, h.labels, labelNames, List.map_reverse, List.map_map]
    rfl
  number := by rw [he.size, h.number, Nat.add_assoc]
  around := h.around.advance he.advances

theorem Stands.enter (h : l.Stands scope parent base n around functions vars labels)
    (frame : List (String × VarId)) :
    Stands { l with frames := frame :: l.frames } scope parent base n around functions
      (frame.map Prod.fst ++ vars) labels where
  toSees := h.toSees.enter frame
  labels := h.labels
  number := h.number
  around := h.around

/-- Inside a statement that is added at a place. -/
theorem Stands.inside (h : l.Stands scope parent base n around functions vars labels) :
    (Link.pushStmt l parent scope).Stands scope (some l.mark.stmtId) base (n + 1) (n :: around)
      functions vars labels where
  functions := h.functions.mono (Link.advances_pushStmt l parent scope).1.keepsScopes
  frames := h.frames
  vars := h.vars
  labels := h.labels
  number := by rw [Link.stmts_size_pushStmt, h.number, Nat.add_assoc]
  around := Link.enclosed_inside h.number h.around scope

/-- At the top of a body. -/
theorem Sees.begin (h : l.Sees scope functions vars) :
    Stands { l with labels := [], jumps := [] } scope none l.program.stmts.size 0 [] functions vars
      [] where
  toSees := ⟨h.functions, h.frames, h.vars⟩
  labels := rfl
  number := rfl
  around := rfl

end Linker

namespace Link

variable {l l' : Linker} {scope : ScopeId} {functions vars : List String}

/-! ### Names -/

/-- **A variable** is found if it is visible. -/
theorem checks_lookup (hl : l.Sees scope functions vars) (name : String) :
    Checks (lookup name) l [.var name vars] := by
  by_cases hname : name ∈ vars
  · have hsome : (l.mark.lookup? name).isSome := by
      obtain ⟨b, hb, hbname⟩ := List.mem_map.1 ((hl.vars name).2 hname)
      obtain ⟨frame, hframe, hb⟩ := List.mem_flatten.1 hb
      exact List.findSome?_isSome_iff.2 ⟨frame, hframe,
        List.lookup_isSome_iff.2 ⟨b, hb, beq_iff_eq.2 hbname.symm⟩⟩
    obtain ⟨x, hx⟩ := Option.isSome_iff_exists.1 hsome
    exact checks_ok (if_pos hname) (gives_lookup.2 ⟨hx, rfl⟩)
  · have hnone : (l.frames.findSome? fun frame => frame.lookup name) = none := by
      refine List.findSome?_eq_none_iff.2 fun frame hframe => List.lookup_eq_none_iff.2 ?_
      intro b hb
      refine bne_iff_ne.2 fun hbname => hname ((hl.vars name).1 ?_)
      exact List.mem_map.2 ⟨b, List.mem_flatten.2 ⟨frame, hframe, hb⟩, hbname.symm⟩
    refine .after (gives_get.2 ⟨rfl, rfl⟩) ?_
    rw [hnone]
    exact checks_throw (if_neg hname)

/-- **A function** is found if it is the only visible one of its name. -/
theorem checks_functionName (hl : l.Sees scope functions vars) (name : String) :
    Checks (expr scope (.function name)) l [.function name functions] := by
  have hlength := hl.functions.visible_length name
  rw [expr]
  refine .after (gives_get.2 ⟨rfl, rfl⟩) ?_
  split
  · rename_i f hf
    rw [hf] at hlength
    exact checks_ok (if_pos hlength.symm) (gives_addExpr.2 ⟨rfl, rfl⟩)
  · rename_i fs hfs
    rw [hlength]
    refine checks_throw (if_neg fun hone => ?_)
    rw [hone] at hlength
    obtain ⟨f, hf⟩ := List.length_eq_one_iff.1 hlength
    exact hfs f hf

/-- **A label** is declared if none of its name was declared before. -/
theorem checks_declareLabel {labels : List String} (hlabels : l.labels.map Prod.fst = labels)
    (name : String) (id : StmtId) :
    Checks (declareLabel name id) l [.label name labels] := by
  have hsome : (l.labels.lookup name).isSome ↔ name ∈ labels := by
    rw [List.lookup_isSome_iff, ← hlabels, List.mem_map]
    exact exists_congr fun b => and_congr_right fun _ => beq_iff_eq.trans eq_comm
  by_cases hname : name ∈ labels
  · refine .after (gives_get.2 ⟨rfl, rfl⟩) ?_
    rw [if_pos (hsome.2 hname)]
    have hthrow : Checks (throw (.duplicateLabel name) : Link Unit) l [.label name labels] :=
      checks_throw (if_pos hname)
    exact hthrow.finish fun _ l₁ => ⟨(), _, gives_modify.2 rfl⟩
  · have hnone : (l.labels.lookup name).isSome = false :=
      eq_false_of_ne_true fun h => hname (hsome.1 h)
    exact checks_ok (a := ()) (if_neg hname) (gives_declareLabel.2 ⟨hnone, rfl⟩)

/-! ### Jumps -/

variable {base : Nat} {labels : List Landmark}

/-- **A jump can go to a label** if the label opens to it. -/
theorem canJump_iff {p : Program} {label jump : Landmark}
    (hlabel : p.EnclosedBy (base + label.number) (p.parent? ⟨base + label.number⟩)
      (label.around.map (base + ·)))
    (hjump : p.EnclosedBy (base + jump.number) (p.parent? ⟨base + jump.number⟩)
      (jump.around.map (base + ·))) (hlt : base + jump.number ≤ p.stmts.size) :
    p.canJump ⟨base + jump.number⟩ ⟨base + label.number⟩ = true ↔ label.OpensTo jump := by
  rw [Program.canJump, hlabel.head?, hjump.enclosing hlt, Landmark.OpensTo]
  cases label.around with
  | nil => simp
  | cons q qs => simp

theorem parent?_putKind (l : Linker) (id i : StmtId) (kind : StmtKind) :
    (putKind l id kind).program.parent? i = l.program.parent? i := by
  rw [Program.parent?, stmt?_putKind, Program.parent?]
  split
  · cases l.program.stmt? i <;> rfl
  · rfl

theorem canJump_putKind (l : Linker) (id jump label : StmtId) (kind : StmtKind) :
    (putKind l id kind).program.canJump jump label = l.program.canJump jump label := by
  have henclosing : ∀ count i, (putKind l id kind).program.enclosing count i =
      l.program.enclosing count i := by
    intro count
    induction count with
    | zero => intro i; rw [Program.enclosing.eq_def, Program.enclosing.eq_def]
    | succ count ih =>
      intro i
      rw [Program.enclosing.eq_def, Program.enclosing.eq_def, parent?_putKind]
      cases l.program.parent? i with
      | none => rfl
      | some q => exact congrArg (q :: ·) (ih q)
  rw [Program.canJump, Program.canJump, parent?_putKind, henclosing]
  simp [putKind]

/-- **Resolving a jump** looks for a label of its name that opens to it. -/
theorem checks_resolveJump {jump : Landmark}
    (hlabels : l.labels = (labels.map (·.label base)).reverse)
    (hdistinct : (l.labels.map Prod.fst).Nodup)
    (hopens : ∀ k ∈ labels,
      l.program.canJump ⟨base + jump.number⟩ ⟨base + k.number⟩ = true ↔ k.OpensTo jump) :
    Checks (resolveJump (jump.jump base)) l [.goto jump labels] := by
  have hmem : ∀ k ∈ labels, k.label base ∈ l.labels := fun k hk => by
    rw [hlabels, List.mem_reverse]
    exact List.mem_map_of_mem hk
  refine .after (gives_get.2 ⟨rfl, rfl⟩) ?_
  cases htarget : l.labels.lookup jump.name with
  | none =>
    have hnone : ∀ k ∈ labels, k.name ≠ jump.name := fun k hk hname =>
      bne_iff_ne.1 (List.lookup_eq_none_iff.1 htarget _ (hmem k hk)) hname.symm
    simp only [show (jump.jump base).2 = jump.name from rfl, htarget]
    refine checks_throw ?_
    rw [Use.error?, if_neg, if_neg]
    · rintro ⟨k, hk, hname⟩
      exact hnone k hk hname
    · rintro ⟨k, hk, hname, -⟩
      exact hnone k hk hname
  | some target =>
    obtain ⟨ls, rs, hls, -⟩ := List.lookup_eq_some_iff.1 htarget
    have hfound : (jump.name, target) ∈ l.labels := by simp [hls]
    obtain ⟨k, hk, hkey⟩ : ∃ k ∈ labels, k.label base = (jump.name, target) := by
      rw [hlabels, List.mem_reverse] at hfound
      exact List.mem_map.1 hfound
    obtain ⟨hname, rfl⟩ := Prod.mk.injEq .. ▸ hkey
    -- There is no other label of the name.
    have honly : ∀ k' ∈ labels, k'.name = jump.name → k'.OpensTo jump → k.OpensTo jump := by
      intro k' hk' hname' hopen
      have hsame : k'.label base = k.label base :=
        List.inj_on_of_nodup_map hdistinct (hmem k' hk') (hmem k hk) (hname'.trans hname.symm)
      rw [← hopens k hk, ← show (⟨base + k'.number⟩ : StmtId) = ⟨base + k.number⟩ from
        congrArg Prod.snd hsame]
      exact (hopens k' hk').2 hopen
    simp only [show (jump.jump base).2 = jump.name from rfl, htarget,
      show (jump.jump base).1 = ⟨base + jump.number⟩ from rfl]
    by_cases hopen : k.OpensTo jump
    · rw [if_pos ((hopens k hk).2 hopen)]
      exact checks_ok (a := ()) (if_pos ⟨k, hk, hname, hopen⟩) (gives_setKind.2 rfl)
    · rw [if_neg fun hjump => hopen ((hopens k hk).1 hjump)]
      refine checks_throw ?_
      rw [Use.error?, if_neg, if_pos ⟨k, hk, hname⟩]
      rintro ⟨k', hk', hname', hopen'⟩
      exact hopen (honly k' hk' hname' hopen')

/-- Resolving the jumps of a body. -/
theorem checks_forM_resolveJump {jumps : List Landmark}
    (hlabels : l.labels = (labels.map (·.label base)).reverse)
    (hdistinct : (l.labels.map Prod.fst).Nodup)
    (hopens : ∀ jump ∈ jumps, ∀ k ∈ labels,
      l.program.canJump ⟨base + jump.number⟩ ⟨base + k.number⟩ = true ↔ k.OpensTo jump) :
    Checks ((jumps.map (·.jump base)).forM resolveJump) l
      (jumps.map fun jump => .goto jump labels) := by
  induction jumps generalizing l with
  | nil => exact checks_nil.2 ⟨(), l, gives_pure.2 ⟨rfl, rfl⟩⟩
  | cons jump jumps ih =>
    obtain ⟨hjump, hjumps⟩ := List.forall_mem_cons.1 hopens
    refine (checks_resolveJump hlabels hdistinct hjump).bind fun _ l₁ h₁ => ?_
    obtain ⟨target, -, -, rfl⟩ := gives_resolveJump h₁
    refine ih hlabels hdistinct fun j hj k hk => ?_
    rw [canJump_putKind]
    exact hjumps j hj k hk

/-- **A body** checks its statements and then its jumps. -/
theorem checks_withBody {α : Type} {x : Link α} {us : List Use} {size : Nat}
    {declares : List String} {landmarks : List Landmark} {gotos : List (StmtId × String)}
    (hx : Checks x { l with labels := [], jumps := [] } us)
    (heffect : ∀ a l₁, x.Gives { l with labels := [], jumps := [] } a l₁ →
      Effect l.program.stmts.size { l with labels := [], jumps := [] } size declares landmarks gotos
        l₁) : Checks (withBody x) l (us ++ gotoUses landmarks) := by
  refine .after (gives_get.2 ⟨rfl, rfl⟩)
    (.after (a := ()) (gives_modify.2 rfl) (hx.bind fun a l₁ h₁ => ?_))
  have he := heffect a l₁ h₁
  refine .after (gives_get.2 ⟨rfl, rfl⟩) (Checks.finish (f := fun _ => _) ?_ fun _ l₂ => ?_)
  · have hjumps : l₁.jumps.reverse =
        (landmarks.filter (!·.isLabel)).map (·.jump l.program.stmts.size) := by
      rw [he.jumps, List.append_nil, List.reverse_reverse]
    rw [hjumps]
    refine checks_forM_resolveJump (by rw [he.labels, List.append_nil]) (he.distinct .nil) ?_
    intro jump hjump k hk
    have hjump := (List.mem_filter.1 hjump).1
    have hk := (List.mem_filter.1 hk).1
    exact canJump_iff (he.around k hk) (he.around jump hjump)
      (Nat.le_of_lt (he.inside jump hjump).2)
  · exact ⟨a, _, gives_bind.2 ⟨(), _, gives_modify.2 rfl, gives_pure.2 ⟨rfl, rfl⟩⟩⟩

end Link

end TreeMachine
