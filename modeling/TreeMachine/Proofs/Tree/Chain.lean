import TreeMachine.Execution.Step
import TreeMachine.Proofs.Tree.WellFormed

/-!
# Chains of waiting statements

While a statement is worked on, the statements that enclose it wait, the innermost one first, each
with the one stage at which a statement of its kind goes on after a sequence inside it
(`StmtKind.resume?`). `Program.Chain` says so of the two stacks of an activation. The current
statement thus determines them, and what takes statements off leaves a chain: moving past a
statement (`Program.Chain.moveOn`) and unwinding to the sequence of a label
(`Program.Chain.unwind`).

The chain is given by the parent of the current statement and not by the statement, since this is
what all statements of a sequence have in common. So nothing changes when an activation goes on to
the next statement of a sequence, and entering a sequence adds one link.

To move past a statement is to go to its successor, or else to the statement that waits, and if that
has nothing left to do, past it as well. There are therefore three places to land at
(`Program.Landing`): nowhere, at the first stage of a statement, or at a later stage of one that has
waited. The proof is an induction on the chain.

A jump takes off what waits until it has come to the statement around the label. That this is found
is a matter of where the label is, and a hypothesis here.
-/

namespace TreeMachine

/-- The stage at which a statement goes on after a sequence that is run inside it. Nothing for a
statement without sequences. -/
def StmtKind.resume? : StmtKind → Option Nat
  | .block _ | .branch .. | .select .. => some 0
  | .loop .. => some LoopStage.test.number
  | .forall .. => some ForallStage.next.number
  | .arm cases _ => some (Frame.leaveStage cases)
  | .expr _ | .return _ | .label _ | .goto _ => none

namespace Program

/-- The waiting statements and their stages, given the innermost statement that encloses what is
worked on. -/
inductive Chain (p : Program) : Option StmtId → List StmtId → List Nat → Prop
  | top : Chain p none [] []
  | inside {q : StmtId} {s : Stmt} {stage : Nat} {waiting : List StmtId} {resumes : List Nat}
      (hs : p.stmt? q = some s) (hstage : s.kind.resume? = some stage)
      (h : Chain p s.parent waiting resumes) : Chain p (some q) (q :: waiting) (stage :: resumes)

namespace Chain

variable {p : Program} {o : Option StmtId} {waiting : List StmtId} {resumes : List Nat}

/-- Nothing waits around a statement that nothing encloses. -/
theorem of_none (h : p.Chain none waiting resumes) : waiting = [] ∧ resumes = [] := by
  cases h
  exact ⟨rfl, rfl⟩

/-- The innermost enclosing statement waits on top. -/
theorem of_some {q : StmtId} (h : p.Chain (some q) waiting resumes) :
    ∃ s stage waiting' resumes', p.stmt? q = some s ∧ s.kind.resume? = some stage ∧
      p.Chain s.parent waiting' resumes' ∧ waiting = q :: waiting' ∧
      resumes = stage :: resumes' := by
  cases h with
  | inside hs hstage h => exact ⟨_, _, _, _, hs, hstage, h, rfl, rfl⟩

theorem head? (h : p.Chain o waiting resumes) : waiting.head? = o := by
  cases h <;> rfl

/-- What waits is in the table. -/
theorem stmt? (h : p.Chain o waiting resumes) : ∀ q ∈ waiting, ∃ s, p.stmt? q = some s := by
  induction h with
  | top => nofun
  | inside hs _ _ ih =>
    intro q hq
    rcases List.mem_cons.1 hq with rfl | hq
    · exact ⟨_, hs⟩
    · exact ih q hq

/-- **The chain is determined** by what encloses the current statement. -/
theorem unique {waiting' : List StmtId} {resumes' : List Nat} (h : p.Chain o waiting resumes)
    (h' : p.Chain o waiting' resumes') : waiting = waiting' ∧ resumes = resumes' := by
  induction h generalizing waiting' resumes' with
  | top =>
    obtain ⟨rfl, rfl⟩ := h'.of_none
    exact ⟨rfl, rfl⟩
  | inside hs hstage _ ih =>
    obtain ⟨s, stage, W, R, hs', hstage', houter, rfl, rfl⟩ := h'.of_some
    rw [hs] at hs'
    cases hs'
    rw [hstage] at hstage'
    cases hstage'
    obtain ⟨rfl, rfl⟩ := ih houter
    exact ⟨rfl, rfl⟩

/-- What encloses a statement waits while it is worked on. -/
theorem mem_of_encloses {q i : StmtId} (he : p.Encloses q i)
    (h : p.Chain (p.parent? i) waiting resumes) : q ∈ waiting := by
  induction he generalizing waiting resumes with
  | direct hp =>
    rw [hp] at h
    obtain ⟨_, _, _, _, -, -, -, rfl, -⟩ := h.of_some
    exact List.mem_cons_self
  | @outer i r hp _ ih =>
    rw [hp] at h
    obtain ⟨s, _, W, R, hs, -, houter, rfl, -⟩ := h.of_some
    have hparent : p.parent? r = s.parent := parent?_eq hs
    exact List.mem_cons_of_mem _ (ih (hparent ▸ houter))

/-- What waits while a statement is worked on encloses it. -/
theorem encloses_of_mem {q i : StmtId} (h : p.Chain (p.parent? i) waiting resumes)
    (hq : q ∈ waiting) : p.Encloses q i := by
  generalize ho : p.parent? i = o at h
  induction h generalizing i with
  | top => cases hq
  | inside hs _ _ ih =>
    rcases List.mem_cons.1 hq with rfl | hq
    · exact .direct ho
    · exact .outer ho (ih hq (parent?_eq hs))

/-! ### Unwinding -/

/-- **Unwinding** to a sequence that is being run, or to the outermost one, leaves the chain of that
sequence. -/
theorem unwind {t : Option StmtId} (h : p.Chain o waiting resumes)
    (ht : ∀ q, t = some q → q ∈ waiting) :
    p.Chain t (Frame.unwind t waiting resumes).1 (Frame.unwind t waiting resumes).2 ∧
      (Frame.unwind t waiting resumes).1 ⊆ waiting := by
  induction h with
  | top =>
    cases t with
    | none => exact ⟨.top, fun _ hq => hq⟩
    | some q => cases ht q rfl
  | @inside q s stage W R hs hstage h ih =>
    rw [Frame.unwind]
    split
    · rename_i htop
      rw [← htop]
      exact ⟨.inside hs hstage h, fun _ hq => hq⟩
    · rename_i htop
      have ht' : ∀ r, t = some r → r ∈ W := fun r hr =>
        (List.mem_cons.1 (ht r hr)).resolve_left fun e => htop (e ▸ hr.symm)
      obtain ⟨hchain, hsub⟩ := ih ht'
      exact ⟨hchain, fun r hr => List.mem_cons_of_mem _ (hsub hr)⟩

end Chain

/-- The select of an arm is found. -/
theorem WellFormed.withSelect {p : Program} (hp : p.WellFormed) {i : StmtId} {s : Stmt}
    (hs : p.stmt? i = some s) (harm : s.kind.isArm = true) :
    ∃ q t, s.parent = some q ∧ p.stmt? q = some t ∧ t.kind.isSelect = true ∧
      ∀ (f : Frame) (next : StmtId → Work), Frame.withSelect p i s f next = next q := by
  obtain ⟨q, t, hq, ht, hselect⟩ := (hp.stmts i s hs).arm harm
  refine ⟨q, t, hq, ht, hselect, fun f next => ?_⟩
  obtain ⟨kind, tnext, tparent, tscope⟩ := t
  cases kind with
  | select selector arms => simp only [Frame.withSelect, hq, ht]
  | _ => cases hselect

/-! ### Moving past a statement -/

/-- Where an activation is after it has moved past a statement: at a statement with a stage, or
nowhere. Statements are reached at the first stage, or were waiting and are resumed. -/
inductive Landing (p : Program) (before : List StmtId) :
    Option StmtId → Nat → List StmtId → List Nat → Prop
  | finished : Landing p before none 0 [] []
  | first {t : StmtId} {s : Stmt} {waiting : List StmtId} {resumes : List Nat}
      (hs : p.stmt? t = some s) (h : p.Chain s.parent waiting resumes) (hsub : waiting ⊆ before) :
      Landing p before (some t) 0 waiting resumes
  | resumed {t : StmtId} {s : Stmt} {stage : Nat} {waiting : List StmtId} {resumes : List Nat}
      (hs : p.stmt? t = some s) (h : p.Chain s.parent waiting resumes) (hsub : waiting ⊆ before)
      (ht : t ∈ before) (hstage : s.kind.resume? = some (stage + 1)) :
      Landing p before (some t) (stage + 1) waiting resumes

theorem Landing.mono {p : Program} {before before' : List StmtId} {o : Option StmtId} {stage : Nat}
    {waiting : List StmtId} {resumes : List Nat} (h : p.Landing before o stage waiting resumes)
    (hsub : before ⊆ before') : p.Landing before' o stage waiting resumes := by
  cases h with
  | finished => exact .finished
  | first hs h hW => exact .first hs h fun _ hq => hsub (hW hq)
  | resumed hs h hW ht hstage => exact .resumed hs h (fun _ hq => hsub (hW hq)) (hsub ht) hstage

/-- **Moving past a statement** never fails, and lands where the chain says. -/
theorem Chain.moveOn {p : Program} (hp : p.WellFormed) {f : Frame} (hstage : f.stage = 0)
    {i : StmtId} {s : Stmt} (hs : p.stmt? i = some s) {waiting : List StmtId} {resumes : List Nat}
    (h : p.Chain s.parent waiting resumes) :
    ∃ o stage waiting' resumes', f.moveOn p i waiting resumes =
        .ok { f with stmt := o, stage := stage, waiting := waiting', resumes := resumes' } ∧
      p.Landing waiting o stage waiting' resumes' := by
  generalize ho : s.parent = o at h
  -- Induction on what waits: a sequence that is at its end gives way to what is around it.
  induction h generalizing i s with
  | top =>
    unfold Frame.moveOn
    simp only [hs]
    cases hn : s.next with
    | none => exact ⟨none, 0, [], [], by rw [← hstage], .finished⟩
    | some t =>
      obtain ⟨-, s', hs', hparent, -⟩ := (hp.stmts i s hs).next t hn
      refine ⟨some t, 0, [], [], by rw [← hstage], .first hs' ?_ fun _ hq => hq⟩
      rw [hparent, ho]
      exact .top
  | @inside q sq stage W R hq hresume h ih =>
    unfold Frame.moveOn
    simp only [hs]
    cases hn : s.next with
    | some t =>
      obtain ⟨-, s', hs', hparent, -⟩ := (hp.stmts i s hs).next t hn
      refine ⟨some t, 0, q :: W, stage :: R, by rw [← hstage], .first hs' ?_ fun _ hq => hq⟩
      rw [hparent, ho]
      exact .inside hq hresume h
    | none =>
      cases stage with
      -- A statement that waits at its first stage has nothing left to do either.
      | zero =>
        obtain ⟨o', stage', W', R', hmove, hland⟩ := ih hq rfl
        exact ⟨o', stage', W', R', hmove, hland.mono fun _ hr => List.mem_cons_of_mem _ hr⟩
      | succ stage =>
        exact ⟨some q, stage + 1, W, R, rfl, .resumed hq h
          (fun _ hr => List.mem_cons_of_mem _ hr) List.mem_cons_self hresume⟩

end Program

end TreeMachine
