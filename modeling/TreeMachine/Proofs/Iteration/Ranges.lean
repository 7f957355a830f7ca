import TreeMachine.Proofs.Iteration.Messages
import TreeMachine.Proofs.Soundness.Runs

/-!
# Loops over ranges

A loop over a range is watched in one activation while turns are taken on a schedule (`Watch`). What
it does itself is written to a log: that it begins to evaluate its iterator, what it asks for and is
answered, and the element with which it enters its body. Whatever the body does, it leaves alone
what the loop has in the environment (`Visit.Underway.step`), so that one round follows the other
(`Visit.Asks.round`), and the log is that of a visit to all elements in order
(`Watch.visits_range`).

The log is computed from the contexts of the run, by looking at the activation of the loop before
each turn (`Watch.log`). It has an event only for what the loop does itself: calls that the body
makes, loops inside it, and other activations of the same loop are not in it, because they are at
other statements or at other depths.

The run is cut at the stages of the loop, and each piece is an implication from a state of the loop
to a later one, with the log that it has added: the iterator is evaluated (`Visit.Awaits`), a
message is answered (`Visit.Rests`), the body is run until it comes back (`Visit.Underway`). The
rounds are then an induction on the number of elements that are left. What carries it through the
body is that an activation leaves alone what is remembered for the statements around the one that it
is at, and that the range, being a value in that environment, is a root of every collection.

That the body comes back is a hypothesis: it may return, jump out of the loop or fail otherwise, and
then the visit ends early. That the iterator evaluates to a live range is one too. Nothing is asked
of the variable of the loop, which the body may overwrite.
-/

namespace TreeMachine

/-! ### Logs -/

/-- What a loop over a collection does in a step: it begins to evaluate its iterator, it calls, or
it enters its body, with the element that its variable has then. -/
inductive LoopEvent
  | evaluates
  | calls (r : Context.Request)
  | enters (element : Option Value)
  deriving DecidableEq

namespace LoopEvent

/-- The machine answers a message itself. -/
def answers (m : Message) (v : Value) : LoopEvent :=
  .calls (.answered m v)

/-- The round of an element: there is one more, it is given out, the body is entered with it, and
the next state is given out. -/
def round (lo : Int64) (j : Nat) : List LoopEvent :=
  [.answers .valid (.bool true), .answers .index (.int (Iterable.element lo j)),
    .enters (some (.int (Iterable.element lo j))),
    .answers .next (.int (Iterable.element lo (j + 1)))]

/-- The log before the round of an element. -/
def before (lo : Int64) (j : Nat) : List LoopEvent :=
  [.evaluates, .answers .start (.int lo)] ++ (List.range j).flatMap (round lo)

/-- The log of a visit to the first elements of a range. -/
def visit (lo : Int64) (n : Nat) : List LoopEvent :=
  before lo n ++ [.answers .valid (.bool false)]

theorem before_succ (lo : Int64) (j : Nat) : before lo (j + 1) = before lo j ++ round lo j := by
  rw [before, before, List.range_succ, List.flatMap_append, List.append_assoc,
    List.flatMap_singleton]

end LoopEvent

/-- A loop over a collection that is watched, with the number of callers of its activation and its
variable, while turns are taken from a context on. -/
structure Watch where
  program : Program
  schedule : Nat → Conditions
  context : Context
  depth : Nat
  loop : StmtId
  index : VarId

namespace Watch

variable (W : Watch) {l n : Nat} {c c' : Context} {f : Frame} {above callers : List Frame}

/-- The context after a number of turns. -/
def after (n : Nat) : Option Context :=
  W.context.after W.program W.schedule n

/-- The activation of the loop after a number of turns. -/
def activation? (n : Nat) : Option Frame :=
  (W.after n).bind fun c => c.activation? W.depth

/-- The activation is at a stage of the loop itself. -/
def AtStage (n : Nat) (stage : ForallStage) : Prop :=
  ∃ f, W.activation? n = some f ∧ f.stmt = some W.loop ∧ f.expr = none ∧ f.stage = stage.number

/-- The activation is inside the loop, which waits. -/
def InBody (n : Nat) : Prop :=
  ∃ f, W.activation? n = some f ∧ W.loop ∈ f.waiting

/-- The loop has not been left: it is worked on, or it waits. -/
def Running (n : Nat) : Prop :=
  ∃ f, W.activation? n = some f ∧ (f.stmt = some W.loop ∨ W.loop ∈ f.waiting)

/-- The activation is evaluating an expression. -/
def Evaluating (n : Nat) : Prop :=
  ∃ f, W.activation? n = some f ∧ f.expr ≠ none

/-- An expression that the activation begins to evaluate has a value after some turns. -/
structure Yields (n : Nat) (v : Value) : Prop where
  pos : 0 < n
  evaluating : ∀ l < n, 0 < l → W.Evaluating l
  value : ∃ f, W.activation? n = some f ∧ f.expr = none ∧ f.operands.head? = some v

/-- What the loop does in a step from a context to another one. -/
def event? (c c' : Context) : Option LoopEvent :=
  match c.frames with
  | [] => none
  | f :: callers =>
    if callers.length = W.depth ∧ f.stmt = some W.loop ∧ f.expr = none then
      match ForallStage.ofNumber? f.stage with
      | some .evalIterator => some .evaluates
      | some .body =>
        some (.enters ((c'.activation? W.depth).bind fun g => g.env.get? (.var W.index)))
      | _ => (c.request? W.program).map .calls
    else none

/-- What the loop does in a number of turns. -/
def log : Nat → List LoopEvent
  | 0 => []
  | n + 1 =>
    log n ++ match W.after n, W.after (n + 1) with
      | some c, some c' => (W.event? c c').toList
      | _, _ => []

instance (stage : ForallStage) : Decidable (W.AtStage n stage) := by
  unfold AtStage
  infer_instance

instance : Decidable (W.InBody n) := by
  unfold InBody
  infer_instance

instance : Decidable (W.Running n) := by
  unfold Running
  infer_instance

instance : Decidable (W.Evaluating n) := by
  unfold Evaluating
  infer_instance

variable {W}

theorem after_succ (hc : W.after n = some c) :
    W.after (n + 1) = c.turn W.program (W.schedule n) := by
  have hnext : W.after (n + 1) = (W.after n).bind (Context.turn W.program (W.schedule n)) := rfl
  rw [hnext, hc, Option.bind_some]

theorem log_succ (hc : W.after n = some c) (hc' : W.after (n + 1) = some c') :
    W.log (n + 1) = W.log n ++ (W.event? c c').toList := by
  rw [log, hc, hc']

theorem activation?_eq (hc : W.after n = some c) (hframes : c.frames = above ++ f :: callers)
    (hdepth : callers.length = W.depth) : W.activation? n = some f := by
  rw [activation?, hc, Option.bind_some, ← hdepth, Context.activation?_of_frames hframes]

/-- The activation of the loop is there after the next turn, and has come out of it. -/
theorem outlives (hc : W.after n = some c) (hframes : c.frames = above ++ f :: callers)
    (hdepth : callers.length = W.depth) {f' : Frame} (hf' : W.activation? (n + 1) = some f') :
    ∃ c' above', W.after (n + 1) = some c' ∧ c.turn W.program (W.schedule n) = some c' ∧
      c'.frames = above' ++ f' :: callers ∧
      Context.Outlives W.program f above above' f' := by
  obtain ⟨c', hc', hat⟩ := Option.bind_eq_some_iff.1 hf'
  have hturn := (after_succ hc).symm.trans hc'
  have hfollows := Context.step_outlives hframes W.program (W.schedule n).traceLevel
    (W.schedule n).sink
  have hsame := (Context.turn_cases hturn).1
  unfold Context.Follows at hfollows
  rw [← hsame] at hfollows
  rcases hfollows with hleft | ⟨above', g, houtlives, hframes'⟩
  · rw [Context.activation?_eq_none (hdepth ▸ hleft)] at hat
    cases hat
  · have hg := Context.activation?_of_frames hframes'
    rw [hdepth, hat] at hg
    cases hg
    exact ⟨c', above', hc', hturn, hframes', houtlives⟩

/-- Nothing is logged unless the activation of the loop is the innermost one, at the loop itself. -/
theorem event?_eq_none (hframes : c.frames = above ++ f :: callers)
    (hdepth : callers.length = W.depth)
    (hnot : above = [] → f.stmt = some W.loop → f.expr ≠ none) (c' : Context) :
    W.event? c c' = none := by
  unfold event?
  rw [hframes]
  cases above with
  | nil => exact if_neg fun ⟨_, hstmt, hexpr⟩ => hnot rfl hstmt hexpr
  | cons g above =>
    refine if_neg fun ⟨hlength, _⟩ => ?_
    rw [List.append_eq, List.length_append, List.length_cons] at hlength
    omega

end Watch

/-- An activation that follows the tree moves past its statement. -/
theorem Frame.advance_of_chain {p : Program} (hp : p.WellFormed) {f : Frame} {i : StmtId} {s : Stmt}
    (hstmt : f.stmt = some i) (hs : p.stmt? i = some s)
    (h : p.Chain s.parent f.waiting f.resumes) : ∃ g, f.advance p = .ok g := by
  obtain ⟨_, _, _, _, hmove, -⟩ := h.moveOn hp (f := f.cleared) rfl hs
  rw [advance_eq, hstmt]
  exact ⟨_, hmove⟩

/-! ### Visits -/

/-- A watched loop with its parts, the range that it is to visit, and its activation at the
start. -/
structure Visit extends Watch where
  stmt : Stmt
  iterator : ExprId
  body : Option StmtId
  range : Handle
  lo : Int64
  hi : Int64
  first : Frame
  callers : List Frame

namespace Visit

variable {V : Visit} {B : Option FnId → StmtId → Prop} {n m : Nat} {log : List LoopEvent}
  {b f : Frame} {stage : ForallStage} {v : Value} {rest : List Value} {j : Nat}

/-- The program is well-formed, the context is orderly, and the loop is there. The trace can be
written, and every run of the body comes back to the loop. -/
structure Fits (V : Visit) (B : Option FnId → StmtId → Prop) : Prop where
  wellFormed : V.program.WellFormed
  regions : V.program.Regions B
  orderly : V.context.Orderly V.program B
  trace : ∀ n, (V.schedule n).TakesTrace
  found : V.program.stmt? V.loop = some V.stmt
  kind : V.stmt.kind = .forall [V.index] [V.iterator] V.body
  depth : V.callers.length = V.depth
  chain : V.program.Chain V.stmt.parent V.first.waiting V.first.resumes
  comesBack : ∀ n, (∀ l ≤ n, V.Running l) → V.AtStage n .body →
    ∃ m, n < m ∧ (∀ l, n < l → l < m → V.InBody l) ∧ V.AtStage m .next

/-- The activations after a number of turns, while the range is there, and what has been logged. The
loop has not been left before. -/
structure Finds (V : Visit) (n : Nat) (frames : List Frame) (log : List LoopEvent) : Prop where
  context : ∃ c, V.after n = some c ∧ c.frames = frames ∧
    c.heap.get? V.range = some (Iterable.rangeObject V.lo V.hi)
  log : V.log n = log
  running : ∀ l < n, V.Running l

/-- The activation is the innermost one and at a stage of the loop. -/
structure Rests (V : Visit) (stage : ForallStage) (n : Nat) (log : List LoopEvent) (b : Frame) :
    Prop where
  finds : V.Finds n (b :: V.callers) log
  stmt : b.stmt = some V.loop
  expr : b.expr = none
  waiting : b.waiting = V.first.waiting
  resumes : b.resumes = V.first.resumes
  stage : b.stage = stage.number

/-- The activation is at a stage of the loop in which the range is kept. -/
structure AtLoop (V : Visit) (stage : ForallStage) (n : Nat) (log : List LoopEvent) (b : Frame) :
    Prop extends V.Rests stage n log b where
  collection : b.env.get? (.expr V.iterator) = some (.object V.range)

theorem Fits.orderlyAfter (hV : V.Fits B) {c : Context} (hc : V.after n = some c) :
    c.Orderly V.program B :=
  hV.orderly.after hV.wellFormed hV.regions hc

/-- The activation is there. -/
theorem Finds.activation? (h : V.Finds n (f :: V.callers) log) (hV : V.Fits B) :
    V.activation? n = some f := by
  obtain ⟨c, hc, hframes, -⟩ := h.context
  have hframes' : c.frames = [] ++ f :: V.callers := hframes
  exact Watch.activation?_eq hc hframes' hV.depth

theorem Finds.runs (h : V.Finds n (f :: V.callers) log) (hV : V.Fits B)
    (hf : f.stmt = some V.loop ∨ V.loop ∈ f.waiting) : ∀ l ≤ n, V.Running l := by
  intro l hl
  rcases Nat.lt_or_eq_of_le hl with hlt | rfl
  · exact h.running l hlt
  · exact ⟨f, h.activation? hV, hf⟩

/-- A turn at the loop itself, given what meeting the demand of its work comes to. -/
theorem Finds.next (h : V.Finds n (f :: V.callers) log) (hV : V.Fits B)
    (hstmt : f.stmt = some V.loop) {w : Work} {frames : List Frame} {event : Option LoopEvent}
    (hw : f.Works V.program w)
    (hmeet : ∀ c sink, c.heap.get? V.range = some (Iterable.rangeObject V.lo V.hi) →
      ∃ progress, Context.meet V.program f.cursor V.callers w c sink =
        ⟨{ c with frames := frames }, sink, .ok progress⟩)
    (hroot : ∃ g ∈ frames, ∃ k, g.env.get? k = some (.object V.range))
    (hevent : ∀ c c', c.frames = f :: V.callers →
      c.heap.get? V.range = some (Iterable.rangeObject V.lo V.hi) → c'.frames = frames →
      V.event? c c' = event) :
    V.Finds (n + 1) frames (log ++ event.toList) := by
  obtain ⟨c, hc, hframes, hrange⟩ := h.context
  obtain ⟨c', hturn, hframes'⟩ :=
    Context.turn_of_works hframes hw (hV.trace n) fun sink => hmeet c sink hrange
  have hc' : V.after (n + 1) = some c' := (Watch.after_succ hc).trans hturn
  refine ⟨⟨c', hc', hframes', ?_⟩, ?_, fun l hl =>
    h.runs hV (.inl hstmt) l (Nat.le_of_lt_succ hl)⟩
  · obtain ⟨g, hg, hk⟩ := hroot
    exact Context.turn_get? hturn (hV.orderlyAfter hc).heap hrange
      (Context.mem_roots.2 ⟨g, hframes' ▸ hg, .inl hk⟩)
  · rw [Watch.log_succ hc hc', h.log, hevent c c' hframes hrange hframes']

/-- **A message to the range** is answered by the machine, and the answer is an operand then. -/
theorem Rests.send (h : V.Rests stage n log b) (hV : V.Fits B) (hnot : stage ≠ .evalIterator)
    (hnot' : stage ≠ .body) {g : Frame} {m : Message} {state : Option Value}
    (hw : b.Works V.program (g.send m (.object V.range) state))
    (hg : b.SameStmt { g with stage := b.stage }) (hexpr : g.expr = none)
    (hstate : state.toList.length + 1 = m.argCount)
    (hanswer : ∀ {heap : Heap} place,
      heap.get? V.range = some (Iterable.rangeObject V.lo V.hi) →
      V.program.answer? heap place m.selector (.object V.range :: state.toList) = some (.ok v))
    {stage' : ForallStage} (hstage : g.stage = stage'.number)
    (hcollection : g.env.get? (.expr V.iterator) = some (.object V.range)) :
    V.AtLoop stage' (n + 1) (log ++ [.answers m v]) (g.push v) := by
  have hstmt : g.stmt = some V.loop := hg.stmt.trans h.stmt
  refine ⟨⟨?_, hstmt, hexpr, hg.waiting.trans h.waiting, hg.resumes.trans h.resumes, hstage⟩,
    hcollection⟩
  have hevent : ∀ c c' : Context, c.frames = b :: V.callers →
      c.heap.get? V.range = some (Iterable.rangeObject V.lo V.hi) →
      V.event? c c' = some (.answers m v) := by
    intro c c' hframes hrange
    have hrequest := Context.request?_send hframes hw hstate fun place => hanswer place hrange
    unfold Watch.event?
    rw [hframes, hrequest]
    dsimp only
    rw [if_pos ⟨hV.depth, h.stmt, h.expr⟩, h.stage, ForallStage.ofNumber?_number]
    cases stage with
    | evalIterator => exact absurd rfl hnot
    | body => exact absurd rfl hnot'
    | _ => rfl
  refine h.finds.next hV h.stmt hw (fun c sink hrange => ?_)
    ⟨g.push v, List.mem_cons_self, _, hcollection⟩ fun c c' hframes hrange _ =>
      hevent c c' hframes hrange
  exact Context.meet_send hstmt hV.found hstate (fun place => hanswer place hrange) _ sink

/-- The work at a stage of the loop. -/
theorem Rests.works (h : V.Rests stage n log b) (hV : V.Fits B) :
    b.Works V.program (b.workForall V.loop V.index V.iterator V.body stage) :=
  Frame.works_forall h.stmt h.expr hV.found hV.kind h.stage

/-- The loop asks whether the state that it was given is valid. -/
theorem AtLoop.takeState (h : V.AtLoop stage n log b) (hV : V.Fits B)
    (hstage : stage = .valid ∨ stage = .advance) {s : Int64}
    (hoperands : b.operands = .int s :: rest) : ∃ b',
      V.AtLoop .check (n + 1) (log ++ [.answers .valid (.bool (decide (s < V.hi)))]) b' ∧
      b'.operands = .bool (decide (s < V.hi)) :: rest ∧
      b'.env.get? (.stmt V.loop) = some (.int s) := by
  have hput : (b.env.put (.stmt V.loop) (.int s)).get? (.expr V.iterator) =
      some (.object V.range) := by
    rw [Env.get?_put, if_neg (by simp)]
    exact h.collection
  have htake : b.takeLoopState V.loop V.iterator =
      Frame.send { b with
        operands := rest
        env := b.env.put (.stmt V.loop) (.int s)
        stage := ForallStage.check.number } .valid (.object V.range) (some (.int s)) := by
    simp only [Frame.takeLoopState, Frame.pop, hoperands, Frame.withCollection, hput]
  have hworks := h.works hV
  have hw : b.Works V.program (b.takeLoopState V.loop V.iterator) := by
    rcases hstage with rfl | rfl <;> exact hworks
  rw [htake] at hw
  refine ⟨_, h.send hV ?_ ?_ hw ⟨rfl, rfl, rfl, rfl, rfl⟩ h.expr rfl
    (fun place hrange => Program.answer?_valid hV.wellFormed.iterables hrange place s) rfl hput,
    rfl, ?_⟩
  · rcases hstage with rfl | rfl <;> simp
  · rcases hstage with rfl | rfl <;> simp
  · exact (Env.get?_put _ _ _ _).trans (if_pos rfl)

/-- The loop asks the range about its state. -/
theorem AtLoop.askAtState (h : V.AtLoop stage n log b) (hV : V.Fits B)
    (hnot : stage ≠ .evalIterator) (hnot' : stage ≠ .body) {s : Int64}
    (hstate : b.env.get? (.stmt V.loop) = some (.int s)) {m : Message} (hm : m.argCount = 2)
    {resume : ForallStage} {operands : List Value}
    (hw : b.Works V.program
      (Frame.askAtState { b with operands := operands } V.loop V.iterator m resume))
    (hanswer : ∀ {heap : Heap} place,
      heap.get? V.range = some (Iterable.rangeObject V.lo V.hi) →
      V.program.answer? heap place m.selector [.object V.range, .int s] = some (.ok v)) : ∃ b',
      V.AtLoop resume (n + 1) (log ++ [.answers m v]) b' ∧ b'.operands = v :: operands ∧
      b'.env = b.env := by
  have hask : Frame.askAtState { b with operands := operands } V.loop V.iterator m resume =
      Frame.send { b with operands := operands, stage := resume.number } m (.object V.range)
        (some (.int s)) := by
    simp only [Frame.askAtState, Frame.withCollection, h.collection, Frame.withLoopState, hstate]
  rw [hask] at hw
  exact ⟨_, h.send hV hnot hnot' hw ⟨rfl, rfl, rfl, rfl, rfl⟩ h.expr hm.symm hanswer rfl
    h.collection, rfl, rfl⟩

/-! ### The body -/

/-- The body is being run, or the loop has just come back from it: the activation has the range and
the state in its environment, and the loop waits when other activations are above. -/
def Underway (V : Visit) (n : Nat) (log : List LoopEvent) (s : Value) : Prop :=
  ∃ c above g, V.after n = some c ∧ c.frames = above ++ g :: V.callers ∧
    c.heap.get? V.range = some (Iterable.rangeObject V.lo V.hi) ∧ V.log n = log ∧
    g.env.get? (.expr V.iterator) = some (.object V.range) ∧
    g.env.get? (.stmt V.loop) = some s ∧ (above ≠ [] → V.loop ∈ g.waiting)

/-- A statement that waits is not the current one. -/
theorem ne_of_mem_waiting (hV : V.Fits B) {c : Context} (hc : V.after n = some c)
    (hf : f ∈ c.frames) (hwaiting : V.loop ∈ f.waiting) : f.stmt ≠ some V.loop := by
  intro hstmt
  cases (hV.orderlyAfter hc).mirrors f hf with
  | nowhere hnone => exact absurd (hnone.symm.trans hstmt) nofun
  | «at» h _ =>
    cases h.stmt.symm.trans hstmt
    have hencloses := Program.Leaves.encloses h.found h.chain hwaiting
    exact Nat.lt_irrefl _ (hV.wellFormed.lt_of_encloses hencloses)

/-- An activation that calls stays where it is. -/
theorem waiting_of_call (hV : V.Fits B) {c : Context} (hc : V.after n = some c)
    (hf : f ∈ c.frames) {w : Work} (hw : f.Works V.program w) {k : Nat}
    (hcall : w.2 = .ok (.call k)) : w.1.waiting = f.waiting := by
  rcases hw.cases with ⟨e, x, hexpr, -, rfl⟩ | ⟨i, s, hexpr, hstmt, hs, rfl⟩
  · exact (Frame.sameStmt_expr (Frame.moves_expr V.program hexpr x)).1.waiting
  · cases (hV.orderlyAfter hc).mirrors f hf with
    | nowhere hnone => exact absurd (hnone.symm.trans hstmt) nofun
    | «at» h hstage =>
      cases h.stmt.symm.trans hstmt
      cases h.found.symm.trans hs
      have hat : f.AtStmt V.program i s := ⟨h.stmt, hexpr, h.found, h.chain, hstage⟩
      have hmoves := hat.moves hV.wellFormed
      generalize f.workStmt V.program i s = w at hmoves hcall ⊢
      cases hmoves with
      | sends _ hfooting => exact congrArg Footing.waiting hfooting
      | _ => cases hcall

/-- **A step inside the body** leaves the loop its range and its state, and is not logged. -/
theorem Underway.step {s : Value} (h : V.Underway n log s) (hV : V.Fits B) (hin : V.InBody n)
    {f' : Frame} (hf' : V.activation? (n + 1) = some f') : V.Underway (n + 1) log s := by
  obtain ⟨c, above, g, hc, hframes, hrange, hlog, hcollection, hstate, -⟩ := h
  obtain ⟨c', above', hc', hturn, hframes', houtlives⟩ := Watch.outlives hc hframes hV.depth hf'
  obtain ⟨g', hg', hwaiting⟩ := hin
  rw [Watch.activation?_eq hc hframes hV.depth] at hg'
  cases hg'
  have hg : g ∈ c.frames := hframes ▸ List.mem_append_right _ List.mem_cons_self
  have horderly := hV.orderlyAfter hc
  have hkept : f'.env.get? (.expr V.iterator) = some (.object V.range) ∧
      f'.env.get? (.stmt V.loop) = some s ∧ (above' ≠ [] → V.loop ∈ f'.waiting) := by
    cases houtlives with
    | waits => exact ⟨hcollection, hstate, fun _ => hwaiting⟩
    | @works w _ operands hw _ habove =>
      obtain ⟨hloop, hexprs⟩ := (horderly.mirrors g hg).leaves (horderly.focused g hg)
        hV.wellFormed hw V.loop hwaiting V.stmt hV.found
      have hiterator : V.iterator ∈ V.stmt.kind.exprs := by
        rw [hV.kind]
        exact List.mem_cons_self
      refine ⟨(hexprs V.iterator hiterator).trans hcollection, hloop.trans hstate, fun hne => ?_⟩
      obtain ⟨k, hcall⟩ := habove.resolve_left hne
      have hsettled : w.settled V.program = w.1 :=
        Frame.settled_of_ne (by rw [hcall]; exact nofun)
      change V.loop ∈ (w.settled V.program).waiting
      rw [hsettled, waiting_of_call hV hc hg hw hcall]
      exact hwaiting
  refine ⟨c', above', f', hc', hframes', ?_, ?_, hkept⟩
  · refine Context.turn_get? hturn horderly.heap hrange (Context.mem_roots.2 ⟨f', ?_, ?_⟩)
    · exact hframes' ▸ List.mem_append_right _ List.mem_cons_self
    · exact .inl ⟨_, hkept.1⟩
  · have hnone : V.event? c c' = none := by
      refine Watch.event?_eq_none hframes hV.depth (fun _ hstmt => ?_) c'
      exact absurd hstmt (ne_of_mem_waiting hV hc hg hwaiting)
    rw [Watch.log_succ hc hc', hnone, hlog]
    exact List.append_nil _

/-- The loop after its body has come back to it. -/
theorem Underway.atLoop {s : Value} (h : V.Underway n log s) (hV : V.Fits B)
    (hat : V.AtStage n stage) (hrunning : ∀ l < n, V.Running l) :
    ∃ b, V.AtLoop stage n log b ∧ b.env.get? (.stmt V.loop) = some s := by
  obtain ⟨c, above, g, hc, hframes, hrange, hlog, hcollection, hstate, habove⟩ := h
  obtain ⟨g', hg', hstmt, hexpr, hstage⟩ := hat
  rw [Watch.activation?_eq hc hframes hV.depth] at hg'
  cases hg'
  have hg : g ∈ c.frames := hframes ▸ List.mem_append_right _ List.mem_cons_self
  have htop : above = [] := by
    refine Classical.byContradiction fun hne => ?_
    exact ne_of_mem_waiting hV hc hg (habove hne) hstmt
  subst htop
  obtain ⟨hwaiting, hresumes⟩ : g.waiting = V.first.waiting ∧ g.resumes = V.first.resumes := by
    cases (hV.orderlyAfter hc).mirrors g hg with
    | nowhere hnone => exact absurd (hnone.symm.trans hstmt) nofun
    | «at» h _ =>
      cases h.stmt.symm.trans hstmt
      cases h.found.symm.trans hV.found
      exact h.chain.unique hV.chain
  exact ⟨g, ⟨⟨⟨⟨c, hc, hframes, hrange⟩, hlog, hrunning⟩, hstmt, hexpr, hwaiting, hresumes, hstage⟩,
    hcollection⟩, hstate⟩

/-- **A run of the body**, from the entry with an element to the next message. -/
theorem AtLoop.runBody (h : V.AtLoop .body n log b) (hV : V.Fits B) {s : Value}
    (hoperands : b.operands = v :: rest) (hstate : b.env.get? (.stmt V.loop) = some s) :
    ∃ m b', V.AtLoop .next m (log ++ [LoopEvent.enters (some v)]) b' ∧
      b'.env.get? (.stmt V.loop) = some s := by
  have hrunning := h.finds.runs hV (.inl h.stmt)
  obtain ⟨m, hnm, hinside, hback⟩ := hV.comesBack n hrunning
    ⟨b, h.finds.activation? hV, h.stmt, h.expr, h.stage⟩
  -- The turn that enters the body.
  obtain ⟨g, hrun, henv⟩ : ∃ g, Frame.run
      { b with operands := rest, env := b.env.put (.var V.index) v } V.body
        ForallStage.next.number = (g, .ok .pending) ∧ g.env = b.env.put (.var V.index) v := by
    cases V.body with
    | none => exact ⟨_, rfl, rfl⟩
    | some first =>
      have hstmt : Frame.stmt { b with
          operands := rest, env := b.env.put (.var V.index) v } = some V.loop := h.stmt
      rw [Frame.run, Frame.descend_some hstmt]
      exact ⟨_, rfl, rfl⟩
  have hw : b.Works V.program (g, .ok .pending) := by
    have hworks := h.works hV
    simp only [Frame.workForall, Frame.pop, hoperands] at hworks
    rwa [hrun] at hworks
  have hcollection : g.env.get? (.expr V.iterator) = some (.object V.range) := by
    rw [henv, Env.get?_put, if_neg (by simp)]
    exact h.collection
  have hevent : ∀ c c' : Context, c.frames = b :: V.callers → c'.frames = g :: V.callers →
      V.event? c c' = some (.enters (some v)) := by
    intro c c' hframes hframes'
    have hframes'' : c'.frames = [] ++ g :: V.callers := hframes'
    have hvariable : g.env.get? (.var V.index) = some v := by
      rw [henv, Env.get?_put, if_pos rfl]
    unfold Watch.event?
    rw [hframes]
    dsimp only
    rw [if_pos ⟨hV.depth, h.stmt, h.expr⟩, h.stage, ← hV.depth,
      Context.activation?_of_frames hframes'']
    exact congrArg (fun v => some (LoopEvent.enters v)) hvariable
  have hentered : V.Finds (n + 1) (g :: V.callers) (log ++ [LoopEvent.enters (some v)]) :=
    h.finds.next hV h.stmt hw (fun c sink _ => ⟨_, rfl⟩) ⟨g, List.mem_cons_self, _, hcollection⟩
      fun c c' hframes _ hframes' => hevent c c' hframes hframes'
  have hunderway : V.Underway (n + 1) (log ++ [LoopEvent.enters (some v)]) s := by
    obtain ⟨c, hc, hframes, hrange⟩ := hentered.context
    refine ⟨c, [], g, hc, hframes, hrange, hentered.log, hcollection, ?_, fun h => absurd rfl h⟩
    rw [henv, Env.get?_put, if_neg (by simp)]
    exact hstate
  -- The turns inside it, by induction on their number.
  have hthere : ∀ l, n < l → l ≤ m → ∃ f, V.activation? l = some f := by
    intro l hl hlm
    rcases Nat.lt_or_eq_of_le hlm with hlt | rfl
    · obtain ⟨f, hf, -⟩ := hinside l hl hlt
      exact ⟨f, hf⟩
    · obtain ⟨f, hf, -⟩ := hback
      exact ⟨f, hf⟩
  have hturns : ∀ d, n + 1 + d ≤ m →
      V.Underway (n + 1 + d) (log ++ [LoopEvent.enters (some v)]) s := by
    intro d
    induction d with
    | zero => exact fun _ => hunderway
    | succ d ih =>
      intro hd
      obtain ⟨f, hf⟩ := hthere (n + 1 + d + 1) (by omega) hd
      exact (ih (by omega)).step hV (hinside _ (by omega) (by omega)) hf
  have hlast := hturns (m - (n + 1)) (by omega)
  rw [Nat.add_sub_of_le hnm] at hlast
  obtain ⟨b', hb', hstate'⟩ := hlast.atLoop hV hback fun l hl => by
    rcases Nat.lt_or_ge n l with hlt | hge
    · obtain ⟨f, hf, hmem⟩ := hinside l hlt hl
      exact ⟨f, hf, .inr hmem⟩
    · exact hrunning l hge
  exact ⟨m, b', hb', hstate'⟩

/-! ### Rounds -/

/-- The loop is about to ask whether a state is valid. -/
def Asks (V : Visit) (j n : Nat) : Prop :=
  ∃ b rest stage, (stage = .valid ∨ stage = .advance) ∧
    V.AtLoop stage n (LoopEvent.before V.lo j) b ∧
      b.operands = .int (Iterable.element V.lo j) :: rest

/-- **One round**, when there are elements left. -/
theorem Asks.round (h : V.Asks j n) (hV : V.Fits B) (hj : j < Iterable.rangeLength V.lo V.hi) :
    ∃ m, V.Asks (j + 1) m := by
  obtain ⟨b, rest, stage, hstage, hb, hoperands⟩ := h
  obtain ⟨b₁, h₁, hoperands₁, hstate₁⟩ := hb.takeState hV hstage hoperands
  rw [Iterable.element_lt (Nat.le_of_lt hj), decide_eq_true hj] at h₁ hoperands₁
  have hw₁ := h₁.works hV
  simp only [Frame.workForall, Frame.popBool_ok hoperands₁ rfl, if_true] at hw₁
  obtain ⟨b₂, h₂, hoperands₂, henv₂⟩ := h₁.askAtState hV (by simp) (by simp) hstate₁ rfl hw₁
    fun place hrange => Program.answer?_index hV.wellFormed.iterables hrange place _
  obtain ⟨m, b₃, h₃, hstate₃⟩ := h₂.runBody hV hoperands₂ (henv₂ ▸ hstate₁)
  obtain ⟨b₄, h₄, hoperands₄, -⟩ := h₃.askAtState hV (by simp) (by simp) hstate₃ rfl (h₃.works hV)
    fun place hrange => Program.answer?_next hV.wellFormed.iterables hrange place _
  rw [Iterable.element_succ] at h₄ hoperands₄
  refine ⟨m + 1, b₄, b₃.operands, .advance, .inr rfl, ?_, hoperands₄⟩
  rw [LoopEvent.before_succ, LoopEvent.round]
  simpa only [List.append_assoc, List.cons_append, List.nil_append] using h₄

/-- **The end**, when there are no elements left: the loop is moved past. -/
theorem Asks.finish (h : V.Asks j n) (hV : V.Fits B) (hj : j = Iterable.rangeLength V.lo V.hi) :
    ∃ (b g : Frame) (m : Nat), b.stmt = some V.loop ∧ b.waiting = V.first.waiting ∧
      b.resumes = V.first.resumes ∧ b.advance V.program = .ok g ∧
      V.Finds m (g :: V.callers) (LoopEvent.visit V.lo j) := by
  obtain ⟨b, rest, stage, hstage, hb, hoperands⟩ := h
  obtain ⟨b₁, h₁, hoperands₁, -⟩ := hb.takeState hV hstage hoperands
  rw [Iterable.element_lt (Nat.le_of_eq hj), decide_eq_false (hj ▸ Nat.lt_irrefl _)]
    at h₁ hoperands₁
  have hw := h₁.works hV
  simp only [Frame.workForall, Frame.popBool_ok hoperands₁ rfl, Bool.false_eq_true, if_false] at hw
  obtain ⟨d, hd, hstmt, hwaiting, hresumes, henv⟩ : ∃ d : Frame,
      ({ b₁ with operands := rest } : Frame) = d ∧ d.stmt = some V.loop ∧
        d.waiting = V.first.waiting ∧ d.resumes = V.first.resumes ∧ d.env = b₁.env :=
    ⟨_, rfl, h₁.stmt, h₁.waiting, h₁.resumes, rfl⟩
  rw [hd] at hw
  obtain ⟨g, hadvance⟩ := Frame.advance_of_chain hV.wellFormed hstmt hV.found
    (hwaiting ▸ hresumes ▸ hV.chain)
  have hkept : g.env = d.env := by
    obtain ⟨_, _, _, _, rfl⟩ := Frame.advance_keeps hadvance
    rfl
  have hevent : ∀ c c' : Context, c.frames = b₁ :: V.callers → V.event? c c' = none := by
    intro c c' hframes
    unfold Watch.event?
    rw [hframes]
    dsimp only
    rw [if_pos ⟨hV.depth, h₁.stmt, h₁.expr⟩, h₁.stage]
    exact congrArg (Option.map LoopEvent.calls) (Context.request?_complete hframes hw)
  have hmeet : ∀ (c : Context) sink, ∃ progress, Context.meet V.program b₁.cursor V.callers
      (d, .ok .complete) c sink = ⟨{ c with frames := g :: V.callers }, sink, .ok progress⟩ := by
    intro c sink
    simp only [Context.meet, hadvance]
    exact ⟨_, rfl⟩
  have hcollection : g.env.get? (.expr V.iterator) = some (.object V.range) := by
    rw [hkept, henv]
    exact h₁.collection
  have hnext := h₁.finds.next hV h₁.stmt hw (fun c sink _ => hmeet c sink)
    ⟨g, List.mem_cons_self, _, hcollection⟩ fun c c' hframes _ _ => hevent c c' hframes
  rw [Option.toList_none, List.append_nil] at hnext
  exact ⟨d, g, _, hstmt, hwaiting, hresumes, hadvance, hnext⟩

/-- **All rounds**, by induction on the number of elements that are left. -/
theorem Asks.visits (h : V.Asks j n) (hV : V.Fits B) (hj : j ≤ Iterable.rangeLength V.lo V.hi) :
    ∃ (b g : Frame) (m : Nat), b.stmt = some V.loop ∧ b.waiting = V.first.waiting ∧
      b.resumes = V.first.resumes ∧ b.advance V.program = .ok g ∧
      V.Finds m (g :: V.callers) (LoopEvent.visit V.lo (Iterable.rangeLength V.lo V.hi)) := by
  generalize hleft : Iterable.rangeLength V.lo V.hi - j = left
  induction left generalizing j n with
  | zero =>
    obtain rfl : j = Iterable.rangeLength V.lo V.hi := by omega
    exact h.finish hV rfl
  | succ left ih =>
    obtain ⟨m, hm⟩ := h.round hV (by omega)
    exact ih hm (by omega) (by omega)

/-! ### The iterator -/

/-- The iterator is being evaluated, or has just been: the activation is at the loop, and evaluates
an expression when other activations are above. -/
def Awaits (V : Visit) (n : Nat) : Prop :=
  ∃ c above g, V.after n = some c ∧ c.frames = above ++ g :: V.callers ∧
    V.log n = [.evaluates] ∧ g.stmt = some V.loop ∧ g.waiting = V.first.waiting ∧
    g.resumes = V.first.resumes ∧ g.stage = ForallStage.start.number ∧
    (above ≠ [] → g.expr ≠ none)

/-- The loop begins to evaluate its iterator. -/
theorem Fits.awaits (hV : V.Fits B) (hframes : V.context.frames = V.first :: V.callers)
    (hstmt : V.first.stmt = some V.loop) (hexpr : V.first.expr = none)
    (hstage : V.first.stage = 0) : V.Awaits 1 := by
  obtain ⟨g, hg, hwaiting, hresumes, hstmt', hstage'⟩ : ∃ g,
      V.first.workForall V.loop V.index V.iterator V.body .evalIterator = (g, .ok .pending) ∧
        g.waiting = V.first.waiting ∧ g.resumes = V.first.resumes ∧ g.stmt = some V.loop ∧
        g.stage = ForallStage.start.number := by
    simp only [Frame.workForall, Frame.evaluate, Frame.eval, hexpr]
    exact ⟨_, rfl, rfl, rfl, hstmt, rfl⟩
  have hw : V.first.Works V.program
      (V.first.workForall V.loop V.index V.iterator V.body .evalIterator) :=
    Frame.works_forall hstmt hexpr hV.found hV.kind hstage
  rw [hg] at hw
  have hc : V.after 0 = some V.context := rfl
  have hmeet : ∀ sink, ∃ progress, V.context.meet V.program V.first.cursor V.callers
      (g, .ok .pending) sink =
        ⟨{ V.context with frames := g :: V.callers }, sink, .ok progress⟩ :=
    fun sink => ⟨_, rfl⟩
  obtain ⟨c', hturn, hframes'⟩ := Context.turn_of_works hframes hw (hV.trace 0) hmeet
  have hc' : V.after 1 = some c' := (Watch.after_succ hc).trans hturn
  refine ⟨c', [], g, hc', hframes', ?_, hstmt', hwaiting, hresumes, hstage',
    fun h => absurd rfl h⟩
  have hevent : V.event? V.context c' = some .evaluates := by
    unfold Watch.event?
    rw [hframes]
    dsimp only
    rw [if_pos ⟨hV.depth, hstmt, hexpr⟩, hstage]
    rfl
  rw [Watch.log_succ hc hc', hevent]
  rfl

/-- **A step of the evaluation** keeps the loop where it is, and is not logged. -/
theorem Awaits.step (h : V.Awaits n) (hV : V.Fits B) (hf : V.activation? n = some f)
    (hexpr : f.expr ≠ none) {f' : Frame} (hf' : V.activation? (n + 1) = some f') :
    V.Awaits (n + 1) := by
  obtain ⟨c, above, g, hc, hframes, hlog, hstmt, hwaiting, hresumes, hstage, -⟩ := h
  rw [Watch.activation?_eq hc hframes hV.depth] at hf
  cases hf
  obtain ⟨c', above', hc', -, hframes', houtlives⟩ := Watch.outlives hc hframes hV.depth hf'
  have hlog' : V.log (n + 1) = [.evaluates] := by
    rw [Watch.log_succ hc hc', Watch.event?_eq_none hframes hV.depth (fun _ _ => hexpr), hlog]
    rfl
  refine ⟨c', above', f', hc', hframes', hlog', ?_⟩
  cases houtlives with
  | waits => exact ⟨hstmt, hwaiting, hresumes, hstage, fun _ => hexpr⟩
  | @works w _ operands hw _ habove =>
    rcases hw.cases with ⟨e, x, he, -, rfl⟩ | ⟨i, s, hnone, -, -, rfl⟩
    · have hmoves := Frame.moves_expr V.program he x
      obtain ⟨hsame, hgo⟩ := Frame.sameStmt_expr hmoves
      rw [Frame.settled_of_ne hgo]
      refine ⟨hsame.stmt.trans hstmt, hsame.waiting.trans hwaiting, hsame.resumes.trans hresumes,
        hsame.stage.trans hstage, fun hne => ?_⟩
      obtain ⟨k, hcall⟩ := habove.resolve_left hne
      rw [Frame.expr_of_call hmoves hcall]
      exact nofun
    · exact absurd hnone hexpr

/-- The loop asks for the first state, and is then about to ask whether it is valid. -/
theorem Rests.start (h : V.Rests .start n [.evaluates] b) (hV : V.Fits B)
    (hoperand : b.operands.head? = some (.object V.range)) : V.Asks 0 (n + 1) := by
  obtain ⟨operands, hoperands⟩ : ∃ rest, b.operands = .object V.range :: rest := by
    cases hb : b.operands with
    | nil => rw [hb] at hoperand; cases hoperand
    | cons v rest =>
      rw [hb] at hoperand
      cases hoperand
      exact ⟨rest, rfl⟩
  have hw := h.works hV
  simp only [Frame.workForall, Frame.pop, hoperands] at hw
  have hput : (b.env.put (.expr V.iterator) (.object V.range)).get? (.expr V.iterator) =
      some (.object V.range) := by
    rw [Env.get?_put, if_pos rfl]
  have hsent : V.AtLoop .valid (n + 1) _ _ :=
    h.send hV (by simp) (by simp) hw ⟨rfl, rfl, rfl, rfl, rfl⟩ h.expr rfl
      (fun place hrange => Program.answer?_start hV.wellFormed.iterables hrange place) rfl hput
  refine ⟨_, operands, .valid, .inl rfl, hsent, ?_⟩
  rw [Iterable.element_zero]
  rfl

/-- **The whole loop**, once its iterator has the range for its value. -/
theorem Awaits.visits (h : V.Awaits 1) (hV : V.Fits B)
    (hstmt : V.first.stmt = some V.loop) (hframes : V.context.frames = V.first :: V.callers)
    (hyields : V.Yields n (.object V.range))
    (hrange : ∃ c, V.after n = some c ∧
      c.heap.get? V.range = some (Iterable.rangeObject V.lo V.hi)) :
    ∃ (b g : Frame) (m : Nat), b.stmt = some V.loop ∧ b.waiting = V.first.waiting ∧
      b.resumes = V.first.resumes ∧ b.advance V.program = .ok g ∧
      V.Finds m (g :: V.callers) (LoopEvent.visit V.lo (Iterable.rangeLength V.lo V.hi)) := by
  obtain ⟨hpos, hevaluating, f, hf, hexpr, hoperand⟩ := hyields
  -- The turns of the evaluation, by induction on their number.
  have hturns : ∀ d, 1 + d ≤ n → V.Awaits (1 + d) := by
    intro d
    induction d with
    | zero => exact fun _ => h
    | succ d ih =>
      intro hd
      obtain ⟨g, hg, hne⟩ := hevaluating (1 + d) (by omega) (by omega)
      obtain ⟨g', hg'⟩ : ∃ g', V.activation? (1 + d + 1) = some g' := by
        rcases Nat.lt_or_eq_of_le hd with hlt | heq
        · obtain ⟨g', hg', -⟩ := hevaluating (1 + d + 1) hlt (by omega)
          exact ⟨g', hg'⟩
        · exact ⟨f, heq ▸ hf⟩
      exact (ih (by omega)).step hV hg hne hg'
  have hawaits : ∀ l, 0 < l → l ≤ n → V.Awaits l := by
    intro l hl hln
    have := hturns (l - 1) (by omega)
    rwa [Nat.add_sub_of_le hl] at this
  have hrunning : ∀ l < n, V.Running l := by
    intro l hl
    rcases Nat.eq_zero_or_pos l with rfl | hlpos
    · have hframes' : V.context.frames = [] ++ V.first :: V.callers := hframes
      exact ⟨V.first, Watch.activation?_eq rfl hframes' hV.depth, .inl hstmt⟩
    · obtain ⟨c, above, g, hc, hframes, -, hg, -⟩ := hawaits l hlpos (Nat.le_of_lt hl)
      exact ⟨g, Watch.activation?_eq hc hframes hV.depth, .inl hg⟩
  obtain ⟨c, above, g, hc, hframes', hlog, hg, hwaiting, hresumes, hstage, habove⟩ :=
    hawaits n hpos (Nat.le_refl n)
  rw [Watch.activation?_eq hc hframes' hV.depth] at hf
  cases hf
  have htop : above = [] := Classical.byContradiction fun hne => habove hne hexpr
  subst htop
  obtain ⟨c', hc', hget⟩ := hrange
  cases hc.symm.trans hc'
  have hrests : V.Rests .start n [.evaluates] f :=
    ⟨⟨⟨c, hc, hframes', hget⟩, hlog, hrunning⟩, hg, hexpr, hwaiting, hresumes, hstage⟩
  exact (hrests.start hV hoperand).visits hV (Nat.zero_le _)

end Visit

/-! ### Every loop over a range -/

namespace Watch

/-- **A loop over a range visits exactly its elements, in order.** Given are a program that has been
linked, a context that one of its tasks gets into, with the innermost activation about to begin a
loop over one collection with one variable, and a schedule of collections; the iterator has a range
for its value after some turns, and every run of the body comes back to the loop. Then the loop
begins to evaluate its iterator once, asks for the first state, and, for each element, asks whether
there is one, asks for it, enters the body with it, and asks for the next state; it asks for no more
when there are no more elements, and is moved past. No state overflows. -/
theorem visits_range {d : Source.Program} {W : Watch} (hlink : Program.link d = .ok W.program)
    {outer : Option StmtId} {c₀ : Context} (hstart : c₀.Starts W.program outer)
    (hc : c₀.Becomes W.program W.context) (htrace : ∀ n, (W.schedule n).TakesTrace)
    {f : Frame} {callers : List Frame} (hframes : W.context.frames = f :: callers)
    (hdepth : callers.length = W.depth) (hstmt : f.stmt = some W.loop) (hstage : f.stage = 0)
    (hexpr : f.expr = none) {s : Stmt} (hs : W.program.stmt? W.loop = some s) {iterator : ExprId}
    {body : Option StmtId} (hkind : s.kind = .forall [W.index] [iterator] body) {lo hi : Int64}
    {k : Handle} {n : Nat} (hyields : W.Yields n (.object k))
    (hrange : ∃ c, W.after n = some c ∧ c.heap.get? k = some (Iterable.rangeObject lo hi))
    (hbody : ∀ n, (∀ l ≤ n, W.Running l) → W.AtStage n .body →
      ∃ m, n < m ∧ (∀ l, n < l → l < m → W.InBody l) ∧ W.AtStage m .next) :
    (∀ j ≤ Iterable.rangeLength lo hi, (Iterable.element lo j).toInt = lo.toInt + j) ∧
      ∃ (b g : Frame) (m : Nat), b.stmt = some W.loop ∧ b.waiting = f.waiting ∧
        b.resumes = f.resumes ∧ b.advance W.program = .ok g ∧
        (∀ l < m, W.Running l) ∧ (∃ c, W.after m = some c ∧ c.frames = g :: callers) ∧
        W.log m = LoopEvent.visit lo (Iterable.rangeLength lo hi) := by
  have hp := Program.wellFormed_of_link hlink
  obtain ⟨hregions, horderly⟩ := hstart.orderly hp (Program.apart_of_link hlink) hc
  have hchain : W.program.Chain s.parent f.waiting f.resumes := by
    cases horderly.mirrors f (hframes ▸ List.mem_cons_self) with
    | nowhere hnone => exact absurd (hnone.symm.trans hstmt) nofun
    | «at» h _ =>
      cases h.stmt.symm.trans hstmt
      cases h.found.symm.trans hs
      exact h.chain
  let V : Visit := ⟨W, s, iterator, body, k, lo, hi, f, callers⟩
  have hV : V.Fits _ := ⟨hp, hregions, horderly, htrace, hs, hkind, hdepth, hchain, hbody⟩
  obtain ⟨b, g, m, hb, hwaiting, hresumes, hadvance, hfinds⟩ :=
    (hV.awaits hframes hstmt hexpr hstage).visits hV hstmt hframes hyields hrange
  obtain ⟨c, hc, hcframes, -⟩ := hfinds.context
  exact ⟨fun j hj => Iterable.toInt_element hj,
    b, g, m, hb, hwaiting, hresumes, hadvance, hfinds.running, ⟨c, hc, hcframes⟩, hfinds.log⟩

end Watch

/-- A definition with a loop over a range. Its body overwrites the variable of the loop and
jumps. -/
def Source.Program.overwriting : Source.Program where
  modules := [⟨"m", [],
    [.forall ["i"] [.call (.function "range") [.scalar (.int 5), .scalar (.int 7)]]
      [.expr (.assign "i" (.scalar (.int 0))), .goto "on", .expr (.var "i"), .label "on"]]⟩]
  entry := none

/-- The loop of that definition, with a collection after every other turn. -/
def Watch.overwriting (p : Program) (m : Module) : Watch where
  program := p
  schedule n := ⟨0, .ofLimit none, n % 2 == 0⟩
  context := .forModule m
  depth := 0
  loop := ⟨0⟩
  index := ⟨0⟩

/-- Its body is entered with both elements of the range all the same. -/
theorem Watch.visits_range_overwriting : ∃ p m, Program.link .overwriting = .ok p ∧
    m ∈ p.modules ∧ ∃ n, (Watch.overwriting p m).log n =
      [.evaluates, .answers .start (.int 5),
        .answers .valid (.bool true), .answers .index (.int 5), .enters (some (.int 5)),
        .answers .next (.int 6),
        .answers .valid (.bool true), .answers .index (.int 6), .enters (some (.int 6)),
        .answers .next (.int 7),
        .answers .valid (.bool false)] := by
  have htests : Program.tests .overwriting (fun p m =>
      (fun W : Watch =>
        decide (m.body = some ⟨0⟩) &&
        decide ((p.stmt? ⟨0⟩).map (·.kind) = some (.forall [⟨0⟩] [⟨3⟩] (some ⟨1⟩))) &&
        decide (∀ l < (9 : Nat), 0 < l → W.Evaluating l) &&
        decide (∃ f, W.activation? 9 = some f ∧ f.expr = none ∧
          f.operands.head? = some (.object ⟨0, 0⟩)) &&
        decide ((W.after 9).bind (fun c => c.heap.get? ⟨0, 0⟩) = some (Iterable.rangeObject 5 7)) &&
        decide (∀ n < (50 : Nat), W.AtStage n .body →
          (∀ l < n + 8, n < l → W.InBody l) ∧ W.AtStage (n + 8) .next) &&
        decide (¬W.Running 50)) (.overwriting p m)) = true := by decide +kernel
  obtain ⟨p, m, hlink, hm, htest⟩ := Program.exists_of_tests htests
  simp only [Bool.and_eq_true, decide_eq_true_eq] at htest
  obtain ⟨⟨⟨⟨⟨⟨hbody, hkind⟩, hevaluating⟩, hvalue⟩, hrange⟩, hback⟩, hended⟩ := htest
  obtain ⟨s, hs, hkind⟩ := Option.map_eq_some_iff.1 hkind
  obtain ⟨-, b, g, n, -, -, -, -, -, -, hlog⟩ := visits_range (W := .overwriting p m)
    hlink (.forModule hm) .refl (fun _ => .inl rfl) rfl rfl hbody rfl rfl hs
    hkind ⟨by decide, hevaluating, hvalue⟩
    (Option.bind_eq_some_iff.1 hrange) fun n hrunning hat => by
      have hn : n < 50 := Nat.lt_of_not_le fun h => hended (hrunning 50 h)
      obtain ⟨hinside, hnext⟩ := hback n hn hat
      exact ⟨n + 8, by omega, fun l hl hl' => hinside l hl' hl, hnext⟩
  exact ⟨p, m, hlink, hm, n, hlog⟩

end TreeMachine
