import TreeMachine.Proofs.Tree.WellFormed

/-!
# Bodies

A body is run from its first statement on: a statement leads to the next one of its sequence and to
the first ones of the sequences inside it (`Program.LeadsTo`), and what the first statement of a
body leads to, directly or not, is the body (`Program.InBody`). `Program.Apart` says that the bodies
of a program lie apart: every statement is led to from one statement at most, the first statements
of bodies from none, and a jump stays in its body. It follows that a body is closed under all the
ways in which an activation changes its statement (`Program.Apart.closed`).

Closed sets of statements are what an invariant of activations can be stated with. An activation
changes its statement in a step to the next one, into a sequence, to the statement around it, or to
a label, and it is in the same set afterwards. Which set this is does not matter to the proof of the
invariant; that it is the body of the function that the activation runs is put in at the start.
-/

namespace TreeMachine

/-- The first statement of what a function runs. -/
def FnBody.first : FnBody → Option StmtId
  | .code first => first
  | .primitive _ => none

namespace Program

/-- A statement leads to the next one of its sequence and to the first ones of the sequences inside
it. -/
def LeadsTo (p : Program) (u t : StmtId) : Prop :=
  ∃ s, p.stmt? u = some s ∧ (s.next = some t ∨ t ∈ s.kind.children)

/-- The statements of the body that begins with the given one. -/
inductive InBody (p : Program) (first : StmtId) : StmtId → Prop
  | first : InBody p first first
  | step {u t : StmtId} (hu : InBody p first u) (h : p.LeadsTo u t) : InBody p first t

/-- A statement of a body, which may be empty. -/
def InBodyOf (p : Program) (first : Option StmtId) (i : StmtId) : Prop :=
  ∃ c, first = some c ∧ p.InBody c i

/-- The first statement of the body that an activation of a function runs, or of the body outside
all functions. -/
def bodyOf (p : Program) (outer : Option StmtId) : Option FnId → Option StmtId
  | some id => (p.function? id).bind fun f => f.body.first
  | none => outer

variable {p p' : Program} {c c' i t u : StmtId}

theorem InBody.mono (h : p.InBody c i) (hp : ∀ u t, p.LeadsTo u t → p'.LeadsTo u t) :
    p'.InBody c i := by
  induction h with
  | first => exact .first
  | step _ hut ih => exact ih.step (hp _ _ hut)

theorem InBody.trans (h : p.InBody c i) (h' : p.InBody i t) : p.InBody c t := by
  induction h' with
  | first => exact h
  | step _ hut ih => exact ih.step hut

/-- **What encloses a statement** of a body is in the body, as nothing encloses the first one. -/
theorem InBody.parent (h : p.InBody c i) (hp : p.WellFormed) (hc : p.parent? c = none)
    {q : StmtId} (hq : p.parent? i = some q) : p.InBody c q := by
  induction h with
  | first => exact absurd (hc.symm.trans hq) nofun
  | @step u t hu hut ih =>
    obtain ⟨s, hs, hnext | hchild⟩ := hut
    · obtain ⟨-, s', hs', hparent, -⟩ := (hp.stmts u s hs).next t hnext
      refine ih ?_
      rw [← hq, parent?_eq hs, parent?_eq hs', hparent]
    · obtain ⟨s', hs', hparent, -⟩ := (hp.stmts u s hs).children t hchild
      rw [parent?_eq hs', hparent] at hq
      cases hq
      exact hu

/-! ### Bodies that lie apart -/

/-- A statement that begins a body: nothing leads to it. -/
structure Begins (p : Program) (c : StmtId) : Prop where
  found : ∃ s, p.stmt? c = some s
  free : ∀ u, ¬p.LeadsTo u c

/-- Two statements lie in one body. -/
def Together (p : Program) (i t : StmtId) : Prop :=
  ∃ c, p.Begins c ∧ p.InBody c i ∧ p.InBody c t

/-- **The bodies of a program lie apart.** -/
structure Apart (p : Program) : Prop where
  unique : ∀ u u' t, p.LeadsTo u t → p.LeadsTo u' t → u = u'
  functions : ∀ id f c, p.function? id = some f → f.body.first = some c → p.Begins c
  modules : ∀ m ∈ p.modules, ∀ c, m.body = some c → p.Begins c
  gotos : ∀ i s t, p.stmt? i = some s → s.kind = .goto t → p.Together i t

/-- A statement lies in one body only. -/
theorem Apart.begin_unique (h : p.Apart) (hc : p.Begins c) (hc' : p.Begins c') (hi : p.InBody c i)
    (hi' : p.InBody c' i) : c = c' := by
  induction hi with
  | first =>
    cases hi' with
    | first => rfl
    | step _ hut => exact absurd hut (hc.free _)
  | step _ hut ih =>
    cases hi' with
    | first => exact absurd hut (hc'.free _)
    | step hu' hut' =>
      obtain rfl := h.unique _ _ _ hut hut'
      exact ih hu'

/-- Statements among which an activation stays whatever it does: the sequences inside a statement,
the next one, the one around it, and the target of a jump belong to them as well. -/
structure Closed (p : Program) (B : StmtId → Prop) : Prop where
  leads : ∀ u t, B u → p.LeadsTo u t → B t
  parent : ∀ i q, B i → p.parent? i = some q → B q
  goto : ∀ i s t, B i → p.stmt? i = some s → s.kind = .goto t → B t

/-- **A body is closed.** -/
theorem Apart.closed (h : p.Apart) (hp : p.WellFormed) {first : Option StmtId}
    (hfirst : ∀ c, first = some c → p.Begins c) (hbody : p.BodyFits first) :
    p.Closed (p.InBodyOf first) where
  leads := fun _ _ ⟨c, hc, hu⟩ hut => ⟨c, hc, hu.step hut⟩
  parent := fun i q ⟨c, hc, hi⟩ hq => by
    obtain ⟨s, hs, hparent, -⟩ := hbody c hc
    have hnone : p.parent? c = none := by rw [parent?_eq hs, hparent]
    exact ⟨c, hc, hi.parent hp hnone hq⟩
  goto := fun i s t ⟨c, hc, hi⟩ hs hk => by
    obtain ⟨c', hc', hi', ht⟩ := h.gotos i s t hs hk
    obtain rfl := h.begin_unique (hfirst c hc) hc' hi hi'
    exact ⟨c, hc, ht⟩

end Program

end TreeMachine
