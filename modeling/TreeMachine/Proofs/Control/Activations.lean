import TreeMachine.Proofs.Control.Continuations
import TreeMachine.Proofs.Execution.Writes
import TreeMachine.Proofs.Reference.Environments

/-!
# One activation through a step

An activation evaluates expressions of the statement that it is at (`Frame.Focused`), and so it
leaves alone what is remembered for the statements around (`Frame.Mirrors.leaves`). A step works in
the innermost activation only: any other one gets an operand at most, until those above it are left
(`Context.step_outlives`).

The two facts are made for following one activation through a run in which others come and go above
it. An activation is named by the number of its callers (`Context.activation?`), which does not
change while it is there, and `Context.Outlives` has a case for each thing that can happen to it in
a step: it works, it waits while another one works, it is returned to, or it calls.

What an activation leaves alone is said by keys of its environment. Work at a statement writes
variables, what is remembered for the expressions of the statement and for the statement itself;
since the expressions of a statement come after those of the statements around it, none of this is
remembered for a statement that waits. The value of a select and the state of a loop over a
collection are therefore found again. Variables are left out here: a body may write any variable in
scope, the index of the loop around it included.
-/

namespace TreeMachine

namespace Frame

variable {p : Program} {f : Frame} {w : Work}

/-! ### The expressions of a statement -/

/-- The expressions that are evaluated belong to the current statement, and nothing is suspended
without an expression that is evaluated first. -/
structure Focused (p : Program) (f : Frame) : Prop where
  idle : f.expr = none → f.suspended = []
  own : ∀ d ∈ f.exprs, ∃ i s r, f.stmt = some i ∧ p.stmt? i = some s ∧ r ∈ s.kind.exprs ∧
    p.Involves r d

theorem Focused.of_idle (hexpr : f.expr = none) (hsuspended : f.suspended = []) :
    f.Focused p := by
  refine ⟨fun _ => hsuspended, fun d hd => ?_⟩
  rw [exprs, hexpr, hsuspended] at hd
  cases hd

/-- Work on an expression is never the end of a statement or of an activation. -/
theorem sameStmt_expr {e : ExprId} {x : Expr} (hw : ExprMoves e x f w) :
    f.SameStmt w.1 ∧ w.2 ≠ .ok .complete := by
  cases hw with
  | fails hstmt _ => exact ⟨hstmt, nofun⟩
  | suspends _ _ hstmt _ _ => exact ⟨hstmt, nofun⟩
  | replaced hstmt _ => exact ⟨hstmt, nofun⟩
  | finishes hstmt _ => exact ⟨hstmt, nofun⟩
  | calls _ hstmt _ _ _ => exact ⟨hstmt, nofun⟩

/-- An expression that calls is still to be finished. -/
theorem expr_of_call {e : ExprId} {x : Expr} (hw : ExprMoves e x f w) {n : Nat}
    (hcall : w.2 = .ok (.call n)) : w.1.expr = some e := by
  cases hw with
  | calls _ _ _ hexpr _ => exact hexpr
  | _ => cases hcall

/-- The environment and the expressions of an activation after a unit of work are those that the
work leaves, also when the statement is moved past. -/
theorem settled_keeps (p : Program) (w : Work) : (w.settled p).env = w.1.env ∧
    (w.settled p).expr = w.1.expr ∧ (w.settled p).suspended = w.1.suspended := by
  unfold Work.settled
  split
  · rename_i g _ hadvance
    obtain ⟨_, _, _, _, rfl⟩ := advance_keeps hadvance
    exact ⟨rfl, rfl, rfl⟩
  · exact ⟨rfl, rfl, rfl⟩

theorem Focused.settled (hf : f.Focused p) (hw : f.Works p w) : (w.settled p).Focused p := by
  rcases hw.cases with ⟨e, x, hexpr, hx, rfl⟩ | ⟨i, s, hexpr, hstmt, hs, rfl⟩
  · obtain ⟨hsame, hgo⟩ := sameStmt_expr (moves_expr p hexpr x)
    have hchanges := changes_expr p hexpr x
    rw [settled_of_ne hgo]
    refine ⟨hchanges.idle, fun d hd => ?_⟩
    rw [hsame.stmt]
    rcases hchanges.exprs d hd with hold | hpart
    · exact hf.own d hold
    · obtain ⟨i, s, r, hi, hs, hr, he⟩ := hf.own e (mem_exprs.2 (.inl hexpr))
      exact ⟨i, s, r, hi, hs, hr, he.part hx hpart⟩
  · have hchanges := changes_stmt p hexpr i s
    have hsuspended : (f.workStmt p i s).1.suspended = [] :=
      hchanges.suspended.trans (hf.idle hexpr)
    obtain ⟨-, hkeptExpr, hkeptSuspended⟩ := settled_keeps p (f.workStmt p i s)
    cases hnew : (f.workStmt p i s).1.expr with
    | none => exact .of_idle (hkeptExpr.trans hnew) (hkeptSuspended.trans hsuspended)
    | some e =>
      obtain ⟨he, hsame, hgo⟩ := hchanges.begins e hnew
      rw [settled_of_ne (by rw [hgo]; exact nofun)]
      refine ⟨fun _ => hsuspended, fun d hd => ?_⟩
      rw [exprs, hnew, hsuspended] at hd
      cases List.mem_singleton.1 hd
      exact ⟨i, s, e, hsame.trans hstmt, hs, he, .self⟩

/-- **Steps keep activations focused**, whether they succeed or not. -/
theorem kept_focused (p : Program) : Context.Kept p (Focused p) where
  operands _ _ hf := ⟨hf.idle, hf.own⟩
  work _ _ hf hw := hf.settled hw
  start _ := .of_idle rfl rfl
  begin f _ _ _ _ _ _ hf hexhausted _ _ := by
    have hexpr : f.expr = none := by
      simp only [Frame.isExhausted, Bool.and_eq_true, Option.isNone_iff_eq_none] at hexhausted
      exact hexhausted.2
    exact .of_idle hexpr (hf.idle hexpr)

/-! ### What is left alone -/

/-- **Work leaves alone** what is remembered for the statements that wait, and for their
expressions. -/
theorem Mirrors.leaves {B : Option FnId → StmtId → Prop} (h : f.Mirrors p B) (hf : f.Focused p)
    (hp : p.WellFormed) (hw : f.Works p w) : p.Leaves f.waiting f.env (w.settled p).env := by
  rw [(settled_keeps p w).1]
  intro q hq t ht
  -- The waiting statements enclose the one that is worked on.
  have hat : ∀ {i s}, f.stmt = some i → p.stmt? i = some s → p.Encloses q i := by
    intro i s hi hs
    cases h with
    | nowhere hnone => exact absurd (hnone.symm.trans hi) nofun
    | «at» h _ =>
      cases h.stmt.symm.trans hi
      cases h.found.symm.trans hs
      exact Program.Leaves.encloses hs h.chain hq
  rcases hw.cases with ⟨e, x, hexpr, hx, rfl⟩ | ⟨i, s, hexpr, hstmt, hs, rfl⟩
  · have hchanges := changes_expr p hexpr x
    obtain ⟨i, s, r, hi, hs, hr, he⟩ := hf.own e (mem_exprs.2 (.inl hexpr))
    refine ⟨hchanges.env _ nofun nofun, fun e' he' => hchanges.env _ ?_ nofun⟩
    rintro ⟨⟩
    have hafter := (hp.stmts i s hs).after q t (hat hi hs) ht e he' r hr
    exact absurd (he.from hafter).le (Nat.not_succ_le_self _)
  · have hchanges := changes_stmt p hexpr i s
    have hencloses := hat hstmt hs
    refine ⟨hchanges.env _ ?_ (fun _ _ => nofun) nofun,
      fun e' he' => hchanges.env _ nofun (fun e he => ?_) nofun⟩
    · rintro ⟨⟩
      exact absurd (hp.lt_of_encloses hencloses) (Nat.lt_irrefl _)
    · rintro ⟨⟩
      have hafter := (hp.stmts i s hs).after q t hencloses ht e' he' e' he
      exact absurd hafter.le (Nat.not_succ_le_self _)

/-- An activation that calls has something left to do. -/
theorem Works.not_isExhausted (hw : f.Works p w) {n : Nat} (hcall : w.2 = .ok (.call n))
    (operands : List Value) : Frame.isExhausted { w.1 with operands := operands } = false := by
  rcases hw.cases with ⟨e, x, hexpr, -, rfl⟩ | ⟨i, s, hexpr, hstmt, -, rfl⟩
  · have hexpr' := expr_of_call (moves_expr p hexpr x) hcall
    simp [Frame.isExhausted, hexpr']
  · have hsame := (changes_stmt p hexpr i s).call n hcall
    simp [Frame.isExhausted, hsame, hstmt]

end Frame

/-! ### Activations in a context -/

namespace Context

variable {p : Program} {c c' : Context} {f g : Frame} {above callers : List Frame}

/-- The activation that has a number of callers. -/
def activation? (c : Context) (d : Nat) : Option Frame :=
  c.frames.reverse[d]?

theorem activation?_of_frames (h : c.frames = above ++ f :: callers) :
    c.activation? callers.length = some f := by
  have hreverse : c.frames.reverse = callers.reverse ++ f :: above.reverse := by
    rw [h, List.reverse_append, List.reverse_cons, List.append_assoc]
    rfl
  have hlength : callers.reverse.length ≤ callers.length := Nat.le_of_eq List.length_reverse
  rw [activation?, hreverse, List.getElem?_append_right hlength, List.length_reverse, Nat.sub_self]
  rfl

theorem activation?_eq_none {d : Nat} (h : c.frames.length ≤ d) : c.activation? d = none := by
  rw [activation?]
  exact List.getElem?_eq_none (by rwa [List.length_reverse])

/-- What a step makes of an activation, given those above it before and after the step: it gets or
loses operands while another one is worked in, or it does a unit of work itself, after which there
is an activation above it only if it has made a call. -/
inductive Outlives (p : Program) (f : Frame) : List Frame → List Frame → Frame → Prop
  | waits {above above' : List Frame} (operands : List Value) (h : above = [] → above' = []) :
      Outlives p f above above' { f with operands := operands }
  | works {w : Work} {above' : List Frame} (operands : List Value) (hw : f.Works p w)
      (hleave : ∀ v, w.2 ≠ .ok (.leave v)) (habove : above' = [] ∨ ∃ n, w.2 = .ok (.call n)) :
      Outlives p f [] above' { w.settled p with operands := operands }

/-- An activation is there after a step, with the same callers, or has been left. -/
def Follows (p : Program) (f : Frame) (above callers : List Frame) (c' : Context) : Prop :=
  c'.frames.length ≤ callers.length ∨
    ∃ above' f', Outlives p f above above' f' ∧ c'.frames = above' ++ f' :: callers

/-- An activation that is not the innermost one stays when another one is left. -/
theorem frames_detach (hframes : c.frames = g :: (above ++ f :: callers)) (v : Value) :
    ∃ above' operands,
      (c.detach v).frames = above' ++ { f with operands := operands } :: callers := by
  unfold Context.detach
  rw [hframes]
  cases above with
  | nil => exact ⟨[], v :: f.operands, rfl⟩
  | cons caller rest => exact ⟨caller.push v :: rest, f.operands, rfl⟩

/-- The innermost activation is left. -/
theorem length_detach (hframes : c.frames = f :: callers) (v : Value) :
    (c.detach v).frames.length ≤ callers.length := by
  unfold Context.detach
  rw [hframes]
  cases callers with
  | nil => exact Nat.le_refl _
  | cons caller rest => exact Nat.le_refl _

/-- A call puts activations on top, of which the one below may have got a value. -/
theorem frames_called (hcalled : Called p c c') (hframes : c.frames = g :: callers) :
    (∃ operands, c'.frames = { g with operands := operands } :: callers) ∨
    (∃ new, c'.frames = new :: g :: callers) ∨
    g.isExhausted = true ∧ ∃ new, c'.frames = new :: callers := by
  cases hcalled with
  | same h => exact .inl ⟨g.operands, h.trans hframes⟩
  | answered v h =>
    refine .inl ⟨v :: g.operands, h.trans ?_⟩
    unfold push
    rw [hframes]
    rfl
  | entered scope args hfn hbody =>
    unfold activate
    rw [hframes]
    by_cases hexhausted : g.isExhausted
    · simp only [hexhausted, if_true]
      exact .inr (.inr ⟨trivial, _, rfl⟩)
    · simp only [hexhausted]
      exact .inr (.inl ⟨_, rfl⟩)

/-- **An activation through a step**, whether the step succeeds or not. -/
theorem step_outlives (hframes : c.frames = above ++ f :: callers) (p : Program) (traceLevel : Nat)
    (sink : Sink) : Follows p f above callers (c.step p traceLevel sink).context := by
  cases above with
  | nil =>
    have hstepped := step_stepped hframes p traceLevel sink
    generalize (c.step p traceLevel sink).context = c' at hstepped ⊢
    cases hstepped with
    | stuck => exact .inr ⟨[], f, .waits f.operands fun h => h, hframes⟩
    | exhausted => exact .inl (length_detach hframes _)
    | worked hw hleave _ => exact .inr ⟨[], _, .works _ hw hleave (.inl rfl), rfl⟩
    | left => exact .inl (length_detach rfl _)
    | @called w n operands c' hw hcall hcalled _ =>
      have hleave : ∀ v, w.2 ≠ .ok (.leave v) := by rw [hcall]; exact nofun
      have hsettled : w.settled p = w.1 := Frame.settled_of_ne (by rw [hcall]; exact nofun)
      rcases frames_called hcalled rfl with ⟨operands', h⟩ | ⟨new, h⟩ | ⟨hexhausted, -⟩
      · refine .inr ⟨[], _, .works operands' hw hleave (.inl rfl), ?_⟩
        rw [hsettled]
        exact h
      · refine .inr ⟨[new], _, .works operands hw hleave (.inr ⟨n, hcall⟩), ?_⟩
        rw [hsettled]
        exact h
      · rw [hw.not_isExhausted hcall operands] at hexhausted
        cases hexhausted
  | cons g above =>
    have hwaits : ∀ {c' : Context} {above' : List Frame} {operands : List Value},
        c'.frames = above' ++ { f with operands := operands } :: callers →
          Follows p f (g :: above) callers c' :=
      fun h => .inr ⟨_, _, .waits _ nofun, h⟩
    have hstepped := step_stepped hframes p traceLevel sink
    generalize (c.step p traceLevel sink).context = c' at hstepped ⊢
    cases hstepped with
    | stuck => exact hwaits hframes
    | exhausted =>
      obtain ⟨_, _, h⟩ := frames_detach hframes .empty
      exact hwaits h
    | @worked w => exact @hwaits _ (w.settled p :: above) f.operands rfl
    | @left w v =>
      have hwith : (c.withTop w.1 (above ++ f :: callers)).frames =
          w.1 :: (above ++ f :: callers) := rfl
      obtain ⟨_, _, h⟩ := frames_detach hwith v
      exact hwaits h
    | @called w n operands c' hw hcall hcalled _ =>
      rcases frames_called hcalled rfl with ⟨operands', h⟩ | ⟨new, h⟩ | ⟨-, new, h⟩
      · exact @hwaits _ (_ :: above) f.operands h
      · exact @hwaits _ (new :: _ :: above) f.operands h
      · exact @hwaits _ (new :: above) f.operands h

end Context

end TreeMachine
