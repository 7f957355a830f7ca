import TreeMachine.Proofs.Execution.Moves
import TreeMachine.Proofs.Execution.Steps
import TreeMachine.Proofs.Linking.Apart
import TreeMachine.Proofs.Soundness.Runs

/-!
# Continuations mirror the tree

The statements that wait in an activation are the ones that enclose its current statement, each with
the stage at which its kind goes on, and the current statement is one of the body that the
activation runs (`Frame.Mirrors`). Every step keeps this, whether it succeeds or not, and so it
holds of all that becomes of a context in which a task starts (`continuations_mirror_tree`).

So the two stacks of waiting statements and of stages hold no information: they can be computed from
the current statement (`Program.Chain.unique`). The invariant is stated in two layers.
`Program.Chain` is about the stacks and the tree alone; `Frame.Mirrors` adds the body, a set of
statements that is closed under successors, first statements of sequences and jumps
(`Program.Regions`), so that a jump cannot lead into another body.

The proof needs nothing about operands and values, since every way in which a unit of work may end
is listed by what it does to the place of the activation (`StmtMoves`, `ExprMoves`), failures
included. In particular it also covers steps of contexts that are not sound, loops with several
variables, and steps that end in a defect.

What becomes of a context is a relation with a constructor for a step, a charge and a collection
(`Context.Becomes`), in any order. Runs of a machine are an instance (`Machine.run_becomes`),
whatever its debugger does. What the stages of expressions say about the operands is another
invariant, which does need soundness.
-/

namespace TreeMachine

/-! ### Regions -/

namespace Program

/-- The statements that the activations of a function may be at: they are closed, and the body of
the function is among them. -/
structure Regions (p : Program) (B : Option FnId → StmtId → Prop) : Prop where
  closed : ∀ fn, p.Closed (B fn)
  entered : ∀ id f c, p.function? id = some f → f.body = .code (some c) → B (some id) c

variable {p : Program} {B : StmtId → Prop}

theorem Closed.encloses (hB : p.Closed B) {q i : StmtId} (hi : B i) (h : p.Encloses q i) : B q := by
  induction h with
  | direct hq => exact hB.parent _ _ hi hq
  | outer hr _ ih => exact ih (hB.parent _ _ hi hr)

/-- What waits around a statement of a region belongs to the region. -/
theorem Chain.forall_waiting {i : StmtId} {s : Stmt} {waiting : List StmtId} {resumes : List Nat}
    (h : p.Chain s.parent waiting resumes) (hs : p.stmt? i = some s) (hB : p.Closed B) (hi : B i) :
    ∀ q ∈ waiting, B q := by
  intro q hq
  have hparent : p.parent? i = s.parent := parent?_eq hs
  exact hB.encloses hi (Chain.encloses_of_mem (hparent ▸ h) hq)

/-- Moving past a statement of a region stays in the region. -/
theorem Closed.moveOn (hB : p.Closed B) {f g : Frame} {waiting : List StmtId} {resumes : List Nat}
    {i : StmtId} (hi : B i) (hwaiting : ∀ q ∈ waiting, B q)
    (h : f.moveOn p i waiting resumes = .ok g) : ∀ t, g.stmt = some t → B t := by
  fun_induction Frame.moveOn p f i waiting resumes with
  | case1 => cases h
  | case2 i s hs next waiting resumes hnext =>
    cases h
    rintro _ ⟨⟩
    exact hB.leads i next hi ⟨s, hs, .inl hnext⟩
  | case3 =>
    cases h
    rintro _ ⟨⟩
  | case4 =>
    cases h
    rintro _ ⟨⟩
  | case5 i s hs q waiting resumes hnext ih =>
    -- The statement around is finished as well, and is moved past in its turn.
    obtain ⟨hq, hwaiting⟩ := List.forall_mem_cons.1 hwaiting
    exact ih hq hwaiting h
  | case6 i s hs q waiting stage resumes hnext =>
    cases h
    rintro _ ⟨⟩
    exact hwaiting q List.mem_cons_self

end Program

/-! ### Activations -/

namespace Frame

/-- An activation stands at a statement of its region, inside the statements that enclose it. -/
structure Stands (p : Program) (B : Option FnId → StmtId → Prop) (f : Frame) (i : StmtId)
    (s : Stmt) : Prop where
  stmt : f.stmt = some i
  found : p.stmt? i = some s
  chain : p.Chain s.parent f.waiting f.resumes
  body : B f.function i

/-- **An activation mirrors the tree**: it has no statement and nothing waits, or it is at a stage
of a statement of its region, inside the statements that enclose it. -/
inductive Mirrors (p : Program) (B : Option FnId → StmtId → Prop) (f : Frame) : Prop
  | nowhere (hstmt : f.stmt = none) (hwaiting : f.waiting = []) (hresumes : f.resumes = [])
  | at {i : StmtId} {s : Stmt} (h : f.Stands p B i s) (hstage : s.kind.hasStage f.stage = true)

variable {p : Program} {B : Option FnId → StmtId → Prop} {f g : Frame} {i : StmtId} {s : Stmt}

/-- What stays at a stage of a statement mirrors the tree as before. -/
theorem Mirrors.sameStmt (h : f.Mirrors p B) (hg : f.SameStmt g) : g.Mirrors p B := by
  cases h with
  | nowhere hstmt hwaiting hresumes =>
    exact .nowhere (hg.stmt.trans hstmt) (hg.waiting.trans hwaiting) (hg.resumes.trans hresumes)
  | «at» h hstage =>
    refine .at ⟨hg.stmt.trans h.stmt, h.found, ?_, ?_⟩ (hg.stage ▸ hstage)
    · rw [hg.waiting, hg.resumes]
      exact h.chain
    · rw [hg.function]
      exact h.body

theorem Mirrors.setOperands (h : f.Mirrors p B) (operands : List Value) :
    Mirrors p B { f with operands := operands } :=
  h.sameStmt ⟨rfl, rfl, rfl, rfl, rfl⟩

theorem Stands.of_footing (h : f.Stands p B i s) (hstmt : g.stmt = some i)
    (hfooting : g.footing = f.footing) : g.Stands p B i s := by
  obtain ⟨hwaiting, hresumes, -, hfunction⟩ := Footing.mk.inj hfooting
  refine ⟨hstmt, h.found, ?_, ?_⟩
  · rw [hwaiting, hresumes]
    exact h.chain
  · rw [hfunction]
    exact h.body

/-- Moving past a statement never fails, and what follows mirrors the tree. -/
theorem Stands.advance (h : f.Stands p B i s) (hp : p.WellFormed) (hB : p.Regions B) :
    ∃ g, f.advance p = .ok g ∧ g.Mirrors p B := by
  obtain ⟨o, stage, waiting, resumes, hmove, hland⟩ :=
    h.chain.moveOn hp (f := f.cleared) rfl h.found
  refine ⟨_, by rw [advance_eq, h.stmt]; exact hmove, ?_⟩
  have hbody := (hB.closed f.function).moveOn h.body
    (h.chain.forall_waiting h.found (hB.closed _) h.body) hmove
  cases hland with
  | finished => exact .nowhere rfl rfl rfl
  | first ht hchain _ =>
    exact .at ⟨rfl, ht, hchain, hbody _ rfl⟩ (StmtKind.hasStage_zero _)
  | resumed ht hchain _ _ hresume =>
    exact .at ⟨rfl, ht, hchain, hbody _ rfl⟩ (StmtKind.hasStage_resume hresume)

/-- What a unit of work leaves mirrors the tree, or stands at the statement to be moved past. -/
def WorkMirrors (p : Program) (B : Option FnId → StmtId → Prop) (w : Work) : Prop :=
  match w.2 with
  | .ok .complete => ∃ i s, w.1.Stands p B i s
  | _ => w.1.Mirrors p B

/-- **Work on a statement** in each of its cases. -/
theorem Stands.moves (h : f.Stands p B i s) (hp : p.WellFormed) (hB : p.Regions B) {w : Work}
    (hw : StmtMoves p i s f.footing w) : WorkMirrors p B w := by
  have hclosed := hB.closed f.function
  cases hw with
  | fails hstmt hfooting hstage => exact .at (h.of_footing hstmt hfooting) hstage
  | stays hstmt hfooting hstage => exact .at (h.of_footing hstmt hfooting) hstage
  | @enters g c resume hc hresume hstmt hstage hfooting =>
    obtain ⟨t, ht, hparent, -⟩ := (hp.stmts i s h.found).children c hc
    obtain ⟨hwaiting, hresumes, -, hfunction⟩ := Footing.mk.inj hfooting
    refine .at ⟨hstmt, ht, ?_, ?_⟩ (hstage ▸ StmtKind.hasStage_zero _)
    · rw [hparent, hwaiting, hresumes]
      exact .inside h.found hresume h.chain
    · rw [hfunction]
      exact hclosed.leads i c h.body ⟨s, h.found, .inr hc⟩
  | completes hstmt hfooting => exact ⟨i, s, h.of_footing hstmt hfooting⟩
  | @leaves g q waiting resumes hparent hwaiting hresumes hstmt hfooting =>
    -- What waits around an arm is its select, and around that what waits around the select.
    have hchain := h.chain
    rw [hparent] at hchain
    obtain ⟨t, _, W, R, ht, -, houter, hW, hR⟩ := hchain.of_some
    obtain ⟨rfl, rfl⟩ : waiting = W ∧ resumes = R := by
      have hwaiting' : f.waiting = q :: waiting := hwaiting
      have hresumes' : f.resumes = 0 :: resumes := hresumes
      exact ⟨(List.cons.inj (hwaiting'.symm.trans hW)).2,
        (List.cons.inj (hresumes'.symm.trans hR)).2⟩
    obtain ⟨hgW, hgR, -, hfunction⟩ := Footing.mk.inj hfooting
    refine ⟨q, t, hstmt, ht, ?_, ?_⟩
    · rw [hgW, hgR]
      exact houter
    · rw [hfunction]
      exact hclosed.parent i q h.body ((Program.parent?_eq h.found).trans hparent)
  | @jumps g t label waiting resumes hk ht hchain hstmt hstage hfooting =>
    obtain ⟨hgW, hgR, -, hfunction⟩ := Footing.mk.inj hfooting
    refine .at ⟨hstmt, ht, ?_, ?_⟩ (hstage ▸ StmtKind.hasStage_zero _)
    · rw [hgW, hgR]
      exact hchain
    · rw [hfunction]
      exact hclosed.goto i s t h.body h.found hk
  | returns hstmt hfooting hstage => exact .at (h.of_footing hstmt hfooting) hstage
  | sends hstmt hfooting _ hkind hstage =>
    refine .at (h.of_footing hstmt hfooting) ?_
    rw [hkind]
    simp only [ForallStage.answered, List.mem_cons, List.not_mem_nil, or_false] at hstage
    rcases hstage with hstage | hstage | hstage | hstage <;> rw [hstage] <;> rfl

/-- **Work on an expression** leaves the statement alone. -/
theorem Mirrors.moves_expr (h : f.Mirrors p B) {e : ExprId} {x : Expr} {w : Work}
    (hw : ExprMoves e x f w) : WorkMirrors p B w := by
  cases hw with
  | fails hstmt _ => exact h.sameStmt hstmt
  | suspends _ _ hstmt _ _ => exact h.sameStmt hstmt
  | replaced hstmt _ => exact h.sameStmt hstmt
  | finishes hstmt _ => exact h.sameStmt hstmt
  | calls _ hstmt _ _ _ => exact h.sameStmt hstmt

/-- The work that an activation is about to do. -/
theorem Mirrors.works (h : f.Mirrors p B) (hp : p.WellFormed) (hB : p.Regions B) {w : Work}
    (hw : f.Works p w) : WorkMirrors p B w := by
  rcases hw.cases with ⟨e, x, hexpr, hx, rfl⟩ | ⟨j, t, hexpr, hstmt, ht, rfl⟩
  · exact h.moves_expr (Frame.moves_expr p hexpr x)
  · cases h with
    | nowhere hnone => exact absurd (hnone.symm.trans hstmt) nofun
    | @«at» i s h hstage =>
      cases h.stmt.symm.trans hstmt
      cases h.found.symm.trans ht
      have hat : f.AtStmt p j t := ⟨h.stmt, hexpr, h.found, h.chain, hstage⟩
      exact h.moves hp hB (hat.moves hp)

/-- An activation that has been moved past a finished statement. -/
theorem WorkMirrors.settled {w : Work} (hw : WorkMirrors p B w) (hp : p.WellFormed)
    (hB : p.Regions B) : (w.settled p).Mirrors p B := by
  obtain ⟨g, r⟩ := w
  by_cases hr : r = .ok .complete
  · subst hr
    obtain ⟨i, s, hstands⟩ := hw
    obtain ⟨g', hadvance, hg'⟩ := hstands.advance hp hB
    have hadvance' : g.advance p = .ok g' := hadvance
    simp only [Work.settled, hadvance']
    exact hg'
  · rw [settled_of_ne hr]
    unfold WorkMirrors at hw
    split at hw
    · exact absurd ‹_› hr
    · exact hw

/-- The activation that begins with the body of a function. -/
theorem Mirrors.begin (hp : p.WellFormed) (hB : p.Regions B) {id : FnId} {fn : Function}
    {first : Option StmtId} (hfn : p.function? id = some fn) (hbody : fn.body = .code first)
    (hwaiting : f.waiting = []) (hresumes : f.resumes = []) (scope : ScopeId)
    (params : List VarId) (args : List Value) :
    (f.begin id first scope params args).Mirrors p B := by
  cases first with
  | none => exact .nowhere rfl hwaiting hresumes
  | some c =>
    obtain ⟨s, hs, hparent, -⟩ := (hp.functions id fn hfn).body _ hbody c rfl
    refine .at ⟨rfl, hs, ?_, hB.entered id fn c hfn hbody⟩ (StmtKind.hasStage_zero _)
    have hchain : p.Chain s.parent f.waiting f.resumes := by
      rw [hparent, hwaiting, hresumes]
      exact .top
    exact hchain

end Frame

/-! ### Contexts -/

namespace Context

/-- All activations mirror the tree. -/
def Mirrors (p : Program) (B : Option FnId → StmtId → Prop) (c : Context) : Prop :=
  ∀ f ∈ c.frames, f.Mirrors p B

variable {p : Program} {B : Option FnId → StmtId → Prop} {c c' : Context}

/-- **Steps keep activations that mirror the tree**, whether they succeed or not. An activation that
has nothing to do may be used again, and nothing waits in it. -/
theorem kept_mirrors (hp : p.WellFormed) (hB : p.Regions B) :
    Kept p fun f => f.Mirrors p B where
  operands _ operands hf := hf.setOperands operands
  work _ _ hf hw := (hf.works hp hB hw).settled hp hB
  start _ := .nowhere rfl rfl rfl
  begin f id fn first scope params args hf hexhausted hfn hbody := by
    have hnone : f.stmt = none := by
      simp only [Frame.isExhausted, Bool.and_eq_true, Option.isNone_iff_eq_none] at hexhausted
      exact hexhausted.1
    cases hf with
    | nowhere _ hwaiting hresumes =>
      exact .begin hp hB hfn hbody hwaiting hresumes scope params args
    | «at» hf _ => cases hnone.symm.trans hf.stmt

/-! ### What becomes of a context -/

/-- The contexts in which a task starts, with the body that they run outside all functions: that of
a module, or none when the entry function has been called. -/
inductive Starts (p : Program) : Option StmtId → Context → Prop
  | forModule {m : Module} (hm : m ∈ p.modules) : Starts p m.body (forModule m)
  | startEntry {id : FnId} {sink : Sink}
      (hok : ((idle Program.rootScope).startEntry p id sink).result = .ok ()) :
      Starts p none ((idle Program.rootScope).startEntry p id sink).context

/-- What becomes of a context by steps, successful or not, their charges, and collections, in any
order. -/
inductive Becomes (p : Program) (c₀ : Context) : Context → Prop
  | refl : Becomes p c₀ c₀
  | step {c : Context} (h : Becomes p c₀ c) (traceLevel : Nat) (sink : Sink) :
      Becomes p c₀ (c.step p traceLevel sink).context
  | charge {c : Context} (h : Becomes p c₀ c) : Becomes p c₀ { c with steps := c.steps + 1 }
  | collect {c : Context} (h : Becomes p c₀ c) : Becomes p c₀ c.collect.1

theorem Mirrors.becomes {c₀ : Context} (h : c₀.Mirrors p B) (hp : p.WellFormed)
    (hB : p.Regions B) (hc : c₀.Becomes p c) : c.Mirrors p B := by
  induction hc with
  | refl => exact h
  | step _ traceLevel sink ih => exact (kept_mirrors hp hB).step ih traceLevel sink
  | charge _ ih => exact ih
  | collect _ ih => exact ih

/-- The bodies of a linked program, and the one outside all functions, are the regions of the
activations, and the context mirrors the tree at the start. -/
theorem Starts.mirrors {outer : Option StmtId} (h : c.Starts p outer) (hp : p.WellFormed)
    (hapart : p.Apart) :
    p.Regions (fun fn => p.InBodyOf (p.bodyOf outer fn)) ∧
      c.Mirrors p fun fn => p.InBodyOf (p.bodyOf outer fn) := by
  -- Functions have the same bodies wherever the task starts, so they come first.
  have hfunctions : ∀ id, p.Closed (p.InBodyOf (p.bodyOf outer (some id))) := by
    intro id
    cases hf : p.function? id with
    | none =>
      refine hapart.closed hp (fun c hc => ?_) fun c hc => ?_
      all_goals
        rw [Program.bodyOf, hf] at hc
        cases hc
    | some f =>
      have hbody : p.bodyOf outer (some id) = f.body.first := by
        rw [Program.bodyOf, hf]
        rfl
      rw [hbody]
      refine hapart.closed hp (fun c hc => hapart.functions id f c hf hc) ?_
      cases hfirst : f.body with
      | code first => exact (hp.functions id f hf).body first hfirst
      | primitive q => exact nofun
  have hentered : ∀ id f c, p.function? id = some f → f.body = .code (some c) →
      p.InBodyOf (p.bodyOf outer (some id)) c := by
    intro id f c hf hbody
    refine ⟨c, ?_, .first⟩
    rw [Program.bodyOf, hf, Option.bind_some, hbody]
    rfl
  cases h with
  | @forModule m hm =>
    obtain ⟨-, hfits⟩ := hp.modules m hm
    have hregions : p.Regions fun fn => p.InBodyOf (p.bodyOf m.body fn) := by
      refine ⟨fun fn => ?_, hentered⟩
      cases fn with
      | none => exact hapart.closed hp (hapart.modules m hm) hfits
      | some id => exact hfunctions id
    refine ⟨hregions, List.forall_mem_cons.2 ⟨?_, nofun⟩⟩
    cases hbody : m.body with
    | none => exact .nowhere rfl rfl rfl
    | some c =>
      obtain ⟨s, hs, hparent, -⟩ := hfits c hbody
      have hchain : p.Chain s.parent [] [] := by
        rw [hparent]
        exact .top
      exact .at ⟨rfl, hs, hchain, c, rfl, .first⟩ (StmtKind.hasStage_zero _)
  | @startEntry id sink hok =>
    have hregions : p.Regions fun fn => p.InBodyOf (p.bodyOf none fn) := by
      refine ⟨fun fn => ?_, hentered⟩
      cases fn with
      | none => exact hapart.closed hp nofun nofun
      | some id => exact hfunctions id
    have hidle : Mirrors p (fun fn => p.InBodyOf (p.bodyOf none fn))
        ⟨[(Frame.start none Program.rootScope).push (.function id)], .empty, 0⟩ :=
      List.forall_mem_cons.2 ⟨.nowhere rfl rfl rfl, nofun⟩
    exact ⟨hregions, (kept_mirrors hp hregions).invoke hidle 1 sink⟩

/-! ### Turns and runs -/

/-- Turns are among what becomes of a context. -/
theorem Becomes.turn {p : Program} {s : Conditions} {c₀ c c' : Context} (hc : c₀.Becomes p c)
    (h : c.turn p s = some c') : c₀.Becomes p c' := by
  have hstep := hc.step s.traceLevel s.sink
  unfold Context.turn at h
  dsimp only at h
  split at h
  · cases h
  · cases h
    split
    · refine .collect ?_
      split
      · exact hstep
      · exact hstep.charge
    · split
      · exact hstep
      · exact hstep.charge

end Context

namespace Machine

variable {p : Program} {m : Machine}

/-- A turn takes a step, which may be charged and followed by a collection, or none. -/
theorem turn_becomes (p : Program) (m : Machine) (threshold : Nat) {c₀ : Context}
    (hm : c₀.Becomes p m.context) : c₀.Becomes p (m.turn p threshold).1.context := by
  have hmoves := turn_moves p threshold m
  generalize m.turn p threshold = r at hmoves ⊢
  obtain ⟨m', e | t⟩ := r
  · cases hmoves with
    | unattended hcontext => exact hcontext ▸ hm
    | fails level sink _ hcontext => exact hcontext ▸ hm.step level sink
  · by_cases ht : t = .quit
    · subst ht
      cases hmoves with
      | quits hcontext => exact hcontext ▸ hm
    · obtain ⟨s, hturn⟩ := hmoves.turn ht
      exact hm.turn hturn

/-- **A run** takes steps, charges them and collects in between. -/
theorem run_becomes {threshold fuel : Nat} {budget : Option Nat}
    {r : Machine × Except Fault Outcome} {c₀ : Context} (hm : c₀.Becomes p m.context)
    (h : m.run p threshold fuel budget = some r) : c₀.Becomes p r.1.context :=
  run_keeps (fun m hm => turn_becomes p m threshold hm) hm h

end Machine

/-! ### The tree -/

/-- The number of the stage at which a statement goes on after a sequence inside it. -/
def StmtKind.resumeNumber : StmtKind → Option Nat
  | .block _ | .branch .. | .select .. => some 0
  | .loop .. => some 1
  | .forall .. => some 5
  | .arm cases _ => some (cases.length + 1)
  | .expr _ | .return _ | .label _ | .goto _ => none

theorem StmtKind.resume?_eq (kind : StmtKind) : kind.resume? = kind.resumeNumber := by
  cases kind <;> rfl

namespace Program.Chain

variable {p : Program} {waiting : List StmtId} {resumes : List Nat}

/-- What waits is all that encloses the current statement. -/
theorem eq_enclosing {i : StmtId} (h : p.Chain (p.parent? i) waiting resumes) (hp : p.WellFormed)
    {count : Nat} (hcount : i.index ≤ count) : waiting = p.enclosing count i := by
  -- What encloses a statement has a smaller number, so the count suffices all the way out.
  generalize ho : p.parent? i = o at h
  induction h generalizing i count with
  | top =>
    unfold enclosing
    rw [ho]
    cases count <;> rfl
  | @inside q s stage W R hs _ _ ih =>
    have hlt : q.index < i.index := hp.lt_of_encloses (.direct ho)
    obtain ⟨count, rfl⟩ : ∃ n, count = n + 1 := ⟨count - 1, by omega⟩
    have hparent : p.parent? q = s.parent := parent?_eq hs
    have houter : W = p.enclosing count q := ih (by omega) hparent
    unfold enclosing
    rw [ho, houter]

/-- Each of the waiting statements is resumed at the stage of its kind. -/
theorem map_resumes {o : Option StmtId} (h : p.Chain o waiting resumes) :
    resumes.map some = waiting.map fun q => (p.stmt? q).bind fun t => t.kind.resumeNumber := by
  induction h with
  | top => rfl
  | inside hs hstage _ ih =>
    rw [List.map_cons, List.map_cons, ih, hs, Option.bind_some, ← StmtKind.resume?_eq, hstage]

end Program.Chain

/-- **An activation follows the tree.** The waiting statements and their stages belong together.
They are all the statements that enclose the current one, innermost first, each with the stage at
which a statement of its kind goes on. The current statement is at one of its stages, and belongs to
the body of the function of the activation, or to the one outside all functions. Without a current
statement nothing waits. -/
structure Frame.FollowsTree (p : Program) (outer : Option StmtId) (f : Frame) : Prop where
  paired : f.waiting.length = f.resumes.length
  enclosing : ∀ i, f.stmt = some i → ∀ count, p.stmts.size ≤ count →
    f.waiting = p.enclosing count i
  resumes : f.resumes.map some =
    f.waiting.map fun q => (p.stmt? q).bind fun t => t.kind.resumeNumber
  stage : ∀ i, f.stmt = some i → ∃ s, p.stmt? i = some s ∧ s.kind.hasStage f.stage = true
  body : ∀ i, f.stmt = some i → p.InBodyOf (p.bodyOf outer f.function) i
  nowhere : f.stmt = none → f.waiting = [] ∧ f.resumes = []

theorem Frame.Mirrors.followsTree {p : Program} {outer : Option StmtId} {f : Frame}
    (h : f.Mirrors p fun fn => p.InBodyOf (p.bodyOf outer fn)) (hp : p.WellFormed) :
    f.FollowsTree p outer := by
  cases h with
  | nowhere hstmt hwaiting hresumes =>
    have hnone : ∀ i, f.stmt ≠ some i := fun i hi => by rw [hstmt] at hi; cases hi
    refine ⟨by rw [hwaiting, hresumes]; rfl, fun i hi => absurd hi (hnone i),
      by rw [hwaiting, hresumes]; rfl, fun i hi => absurd hi (hnone i),
      fun i hi => absurd hi (hnone i), fun _ => ⟨hwaiting, hresumes⟩⟩
  | @«at» i s h hstage =>
    have hstmt : ∀ j, f.stmt = some j → j = i := fun j hj =>
      Option.some.inj (hj.symm.trans h.stmt)
    have hmap := h.chain.map_resumes
    have hparent : p.parent? i = s.parent := Program.parent?_eq h.found
    refine ⟨?_, fun j hj count hcount => ?_, hmap, fun j hj => ?_, fun j hj => ?_, fun hnone => ?_⟩
    · have hlength := congrArg List.length hmap
      rw [List.length_map, List.length_map] at hlength
      exact hlength.symm
    · rw [hstmt j hj]
      have hlt := Program.stmt?_isSome.1 ⟨s, h.found⟩
      exact (hparent ▸ h.chain).eq_enclosing hp (by omega)
    · rw [hstmt j hj]
      exact ⟨s, h.found, hstage⟩
    · rw [hstmt j hj]
      exact h.body
    · exact absurd (hnone.symm.trans h.stmt) nofun

/-- **Continuations mirror the tree.** Let a program be linked, and let a task start in a context.
Whatever becomes of the context, by steps that succeed or fail, with or without a trace, by charges
and by collections, all its activations follow the tree. -/
theorem continuations_mirror_tree {d : Source.Program} {p : Program}
    (hlink : Program.link d = .ok p) {outer : Option StmtId} {c₀ c : Context}
    (hstart : c₀.Starts p outer) (hc : c₀.Becomes p c) : ∀ f ∈ c.frames, f.FollowsTree p outer := by
  have hp := Program.wellFormed_of_link hlink
  obtain ⟨hregions, hmirrors⟩ := hstart.mirrors hp (Program.apart_of_link hlink)
  intro f hf
  exact (hmirrors.becomes hp hregions hc f hf).followsTree hp

/-- After forty steps, with a collection after every allocation, a loop, a select and one of its
arms wait. -/
theorem continuations_mirror_tree_skipping : ∃ p, Program.link .skipping = .ok p ∧
    ∃ m : Module, m ∈ p.modules ∧ (Context.forModule m).Starts p m.body ∧
      ∃ c : Context, (Context.forModule m).Becomes p c ∧
        (∃ f ∈ c.frames, f.waiting.length = 3) ∧ ∀ f ∈ c.frames, f.FollowsTree p m.body := by
  have hruns : Program.suspendsAfter .skipping 100 40 (fun _ m =>
      m.context.frames.any fun f => f.waiting.length == 3) = true := by decide +kernel
  obtain ⟨p, m, m', hlink, hm, hrun, htest⟩ := Program.exists_of_suspendsAfter hruns
  have hmem : m ∈ p.modules := Array.mem_of_getElem? hm
  have hstart : (Context.forModule m).Becomes p (.forModule m) := .refl
  have hbecomes := Machine.run_becomes hstart hrun
  obtain ⟨f, hf, hlength⟩ := List.any_eq_true.1 htest
  exact ⟨p, hlink, m, hmem, .forModule hmem, m'.context, hbecomes, ⟨f, hf, beq_iff_eq.1 hlength⟩,
    continuations_mirror_tree hlink (.forModule hmem) hbecomes⟩

end TreeMachine
