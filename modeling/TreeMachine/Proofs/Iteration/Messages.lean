import TreeMachine.Proofs.Iteration.Schedules

/-!
# Messages to ranges

The elements of a range are the integers from its lower bound on, as many as it is long
(`Iterable.toInt_element`); none of them overflows, and a range answers to messages by them
(`Program.answer?_range`). A loop over a collection that sends a message which the machine answers
itself has the answer as an operand after the turn (`Context.meet_send`).

The states of a loop over a range include one more than its elements: the state behind the last
element, which is the upper bound, or the lower one of an empty range. It is a 64-bit integer as
well, so asking for the next state never wraps around, also for a range that ends with the largest
integer. A range whose upper bound is below the lower one is empty, with a length of zero.

That the answers are those of ranges relies on the iterable types of the program, which linking
sets. Functions of the program with the names of messages do not matter to an object of an iterable
type.
-/

namespace TreeMachine

/-! ### Elements -/

namespace Iterable

/-- The number of elements of a range. -/
def rangeLength (lo hi : Int64) : Nat :=
  (hi.toInt - lo.toInt).toNat

/-- The integer at a distance from the lower bound of a range. -/
def element (lo : Int64) (j : Nat) : Int64 :=
  .ofInt (lo.toInt + j)

variable {lo hi : Int64} {j : Nat}

/-- The elements of a range, and the bound behind them, are integers of 64 bits. -/
theorem toInt_element (hj : j ≤ rangeLength lo hi) : (element lo j).toInt = lo.toInt + j := by
  have hlo := lo.le_toInt
  have hloMax := lo.toInt_lt
  have hhi := hi.toInt_lt
  have hle : (j : Int) ≤ (hi.toInt - lo.toInt).toNat := by exact_mod_cast hj
  exact Int64.toInt_ofInt_of_le (by omega) (by omega)

theorem element_zero (lo : Int64) : element lo 0 = lo := by
  rw [element, Int.natCast_zero, Int.add_zero, Int64.ofInt_toInt]

/-- The next state is the next element. -/
theorem element_succ (lo : Int64) (j : Nat) : element lo j + 1 = element lo (j + 1) := by
  have hone : (1 : Int64) = .ofInt 1 := rfl
  rw [element, element, hone, ← Int64.ofInt_add, Int.natCast_succ, Int.add_assoc]

/-- A state is valid as long as there are elements left. -/
theorem element_lt (hj : j ≤ rangeLength lo hi) :
    decide (element lo j < hi) = decide (j < rangeLength lo hi) := by
  have hto := toInt_element hj
  refine decide_eq_decide.2 ?_
  rw [Int64.lt_iff_toInt_lt, hto]
  unfold rangeLength at hj ⊢
  omega

end Iterable

/-! ### Answers -/

namespace Program

variable {p : Program} {heap : Heap} {k : Handle} {lo hi : Int64}

/-- A range answers for itself, whatever functions there are of the names of the messages. -/
theorem answer?_range (hp : p.iterables = [(Iterable.rangeType, Iterable.range)])
    (hk : heap.get? k = some (Iterable.rangeObject lo hi)) (place : Place) (m : Message)
    (state : Option Value) (hstate : state.toList.length + 1 = m.argCount) :
    p.answer? heap place m.selector (.object k :: state.toList) =
      some ((Iterable.range.answer m (Iterable.rangeObject lo hi) (state.getD .empty)).mapError
        (.user place)) := by
  have hiterable : p.iterable? (Iterable.rangeObject lo hi).typeName = some Iterable.range := by
    rw [iterable?, hp]
    exact List.lookup_cons_self
  have hlength : ¬(.object k :: state.toList : List Value).length ≠ m.argCount := by
    rw [List.length_cons]
    exact fun h => h hstate
  have hget : (.object k :: state.toList : List Value)[1]?.getD .empty = state.getD .empty := by
    cases state <;> rfl
  simp only [answer?, Message.ofSelector?_selector, List.head?_cons, Value.asObject?,
    Option.bind_eq_bind, Option.bind_some, hk, hiterable, if_neg hlength, hget]
  rfl

theorem answer?_start (hp : p.iterables = [(Iterable.rangeType, Iterable.range)])
    (hk : heap.get? k = some (Iterable.rangeObject lo hi)) (place : Place) :
    p.answer? heap place Message.start.selector [.object k] = some (.ok (.int lo)) :=
  answer?_range hp hk place .start none rfl

theorem answer?_valid (hp : p.iterables = [(Iterable.rangeType, Iterable.range)])
    (hk : heap.get? k = some (Iterable.rangeObject lo hi)) (place : Place) (n : Int64) :
    p.answer? heap place Message.valid.selector [.object k, .int n] =
      some (.ok (.bool (decide (n < hi)))) :=
  answer?_range hp hk place .valid (some (.int n)) rfl

theorem answer?_index (hp : p.iterables = [(Iterable.rangeType, Iterable.range)])
    (hk : heap.get? k = some (Iterable.rangeObject lo hi)) (place : Place) (n : Int64) :
    p.answer? heap place Message.index.selector [.object k, .int n] = some (.ok (.int n)) :=
  answer?_range hp hk place .index (some (.int n)) rfl

theorem answer?_next (hp : p.iterables = [(Iterable.rangeType, Iterable.range)])
    (hk : heap.get? k = some (Iterable.rangeObject lo hi)) (place : Place) (n : Int64) :
    p.answer? heap place Message.next.selector [.object k, .int n] = some (.ok (.int (n + 1))) :=
  answer?_range hp hk place .next (some (.int n)) rfl

end Program

/-! ### Stages of a loop -/

theorem ForallStage.ofNumber?_number (stage : ForallStage) :
    ofNumber? stage.number = some stage := by
  cases stage <;> rfl

namespace Frame

variable {p : Program} {f g : Frame} {i : StmtId} {s : Stmt} {index : VarId} {iterator : ExprId}
  {body : Option StmtId}

/-- The work that an activation does on a loop over one collection with one variable. -/
theorem works_forall (hstmt : f.stmt = some i) (hexpr : f.expr = none) (hs : p.stmt? i = some s)
    (hkind : s.kind = .forall [index] [iterator] body) {stage : ForallStage}
    (hstage : f.stage = stage.number) : f.Works p (f.workForall i index iterator body stage) := by
  have hworks := works_stmt hexpr hstmt hs
  obtain ⟨kind, next, parent, scope⟩ := s
  cases hkind
  rw [workStmt] at hworks
  dsimp only at hworks
  rw [hstage, ForallStage.ofNumber?_number] at hworks
  exact hworks

/-- The operands with which a message is sent. -/
theorem send_eq (g : Frame) (m : Message) (collection : Value) (state : Option Value)
    (hstate : state.toList.length + 1 = m.argCount) : g.send m collection state =
      ({ g with operands := (collection :: state.toList).reverse ++
          .selector m.selector :: g.operands }, .ok (.call (state.toList.length + 1 + 1))) := by
  rw [hstate]
  cases state <;> rfl

end Frame

namespace Context

variable {p : Program} {c : Context} {f g : Frame} {callers : List Frame} {i : StmtId} {s : Stmt}
  {m : Message} {collection v : Value} {state : Option Value}

/-- **A message that the machine answers itself** gives a value at once. -/
theorem meet_send (hstmt : g.stmt = some i) (hs : p.stmt? i = some s)
    (hstate : state.toList.length + 1 = m.argCount)
    (hanswer : ∀ place,
      p.answer? c.heap place m.selector (collection :: state.toList) = some (.ok v))
    (place : Place) (sink : Sink) : ∃ progress,
      c.meet p place callers (g.send m collection state) sink =
        ⟨{ c with frames := g.push v :: callers }, sink, .ok progress⟩ := by
  have hlength : ((collection :: state.toList).reverse : List Value).length =
      state.toList.length + 1 := by
    rw [List.length_reverse, List.length_cons]
  have hscope : p.scopeOf? g.stmt g.scope = some s.scope := by
    rw [hstmt, Program.scopeOf?, hs, Option.map_some]
  rw [Frame.send_eq g m collection state hstate]
  simp only [meet, invoke, List.drop_left' hlength, List.take_left' hlength, List.reverse_reverse,
    hscope, apply, hanswer, push]
  exact ⟨_, rfl⟩

/-- What a step that calls calls for: an answer of the machine itself to a message, or anything
else. -/
inductive Request
  | answered (m : Message) (v : Value)
  | other
  deriving DecidableEq

/-- The request of the step that a context is about to take, if it calls. -/
def request? (p : Program) (c : Context) : Option Request :=
  match c.frames with
  | [] => none
  | f :: _ =>
    match f.pending? p with
    | some (.ok ⟨_, _, g, .ok (.call (n + 1))⟩) =>
      match g.operands.drop n with
      | .selector name :: _ =>
        match Message.ofSelector? name,
          p.answer? c.heap f.cursor name (g.operands.take n).reverse with
        | some m, some (.ok v) => some (.answered m v)
        | _, _ => some .other
      | _ => some .other
    | _ => none

theorem request?_send (hframes : c.frames = f :: callers)
    (hw : f.Works p (g.send m collection state))
    (hstate : state.toList.length + 1 = m.argCount)
    (hanswer : ∀ place,
      p.answer? c.heap place m.selector (collection :: state.toList) = some (.ok v)) :
    c.request? p = some (.answered m v) := by
  obtain ⟨⟨kind, stage, work⟩, hnode, rfl⟩ := hw
  have hlength : ((collection :: state.toList).reverse : List Value).length =
      state.toList.length + 1 := by
    rw [List.length_reverse, List.length_cons]
  rw [Frame.send_eq g m collection state hstate] at hnode
  simp only [request?, hframes, hnode, List.drop_left' hlength, List.take_left' hlength,
    List.reverse_reverse, Message.ofSelector?_selector, hanswer]

/-- Moving past a statement is no request. -/
theorem request?_complete (hframes : c.frames = f :: callers) (hw : f.Works p (g, .ok .complete)) :
    c.request? p = none := by
  obtain ⟨⟨kind, stage, work⟩, hnode, rfl⟩ := hw
  simp only [request?, hframes, hnode]

end Context

end TreeMachine
