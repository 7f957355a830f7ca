import TreeMachine.Execution.Call
import TreeMachine.Proofs.Heap.Valid

/-!
# Results of primitives and answers to messages

What a primitive computes, and what a range answers to a message, is a scalar or nothing
(`Value.Plain`). The only other result is a new object, which is a range (`Primitive.apply_cases`).

A primitive can thus be told by its effect: it leaves the heap as it was, or it makes one object,
which holds two integers. It does not read objects in any other way than to render them for printing
or to compare their handles. Most of what is known about values in a run comes from here: a value
that refers to nothing is sound, can be used, fits into its words and is renamed to itself, so each
of these properties has to be shown for new objects only.

Answers to messages are those of ranges, as ranges are the only objects that a program can iterate
over. An answer is refused for a defect if it is asked of a handle without an object, and this is
the one place where soundness of handles matters to a step (`Program.answer?_cases`).
-/

namespace TreeMachine

/-- A value that refers to nothing. -/
def Value.Plain (v : Value) : Prop :=
  v = .empty ∨ ∃ s, v = .scalar s

theorem Value.Plain.asObject? {v : Value} (h : v.Plain) : v.asObject? = none := by
  rcases h with rfl | ⟨s, rfl⟩ <;> rfl

/-! ### Primitives -/

namespace Primitive

variable {a b : Value}

theorem plain_of_fitting {op : String} {n : Int} {v : Value} (h : fitting op n = .ok v) :
    v.Plain := by
  rw [fitting] at h
  split at h
  · cases h
    exact .inr ⟨_, rfl⟩
  · cases h

theorem plain_of_operation {op : Operation} {v : Value} (h : op.apply a b = .ok v) : v.Plain := by
  rw [Operation.apply] at h
  cases hn : numbers op.name a b with
  | error e => rw [hn] at h; cases h
  | ok n =>
    rw [hn] at h
    cases n with
    | floats x y => cases h; exact .inr ⟨_, rfl⟩
    | ints x y =>
      have h' : (op.onInts x.toInt y.toInt >>= fitting op.name) = .ok v := h
      cases ho : op.onInts x.toInt y.toInt with
      | error e => rw [ho] at h'; cases h'
      | ok n => rw [ho] at h'; exact plain_of_fitting h'

theorem plain_of_map_bool {r : Except Complaint Bool} {f : Bool → Bool} {v : Value}
    (h : (r.map fun b => Value.bool (f b)) = .ok v) : v.Plain := by
  cases r with
  | error e => cases h
  | ok b => cases h; exact .inr ⟨_, rfl⟩

/-- What a primitive computes refers to nothing. -/
theorem plain_of_compute {q : Primitive} {v : Value} (h : compute q a b = .ok v) : v.Plain := by
  cases q with
  | add =>
    have h' : sum a b = .ok v := h
    unfold sum at h'
    split at h'
    · cases h'
      exact .inr ⟨_, rfl⟩
    · exact plain_of_operation h'
  | sub => exact plain_of_operation h
  | mul => exact plain_of_operation h
  | div => exact plain_of_operation h
  | rem => exact plain_of_operation h
  | print => cases h; exact .inl rfl
  | range => cases h; exact .inl rfl
  | ne => exact plain_of_map_bool h
  | not => exact plain_of_map_bool h
  | _ => exact plain_of_map_bool (f := id) h

/-- **What a call of a primitive leaves behind**: the heap as it was, and a complaint or a result
that refers to nothing; or a new range, which is the result. -/
theorem apply_cases (q : Primitive) (args : List Value) (heap : Heap) (sink : Sink) :
    (∃ sink' r, q.apply args heap sink = ⟨heap, sink', r⟩ ∧ ∀ v, r = .ok v → v.Plain) ∨
    ∃ lo hi, q.apply args heap sink = ⟨(heap.alloc (Iterable.rangeObject lo hi)).1, sink,
      .ok (.object (heap.alloc (Iterable.rangeObject lo hi)).2)⟩ := by
  have hcompute : ∀ q a b, ∃ sink' r, PrimitiveResult.mk heap sink (compute q a b) =
      ⟨heap, sink', r⟩ ∧ ∀ v, r = .ok v → v.Plain :=
    fun q a b => ⟨sink, _, rfl, fun v hv => plain_of_compute hv⟩
  unfold apply
  split
  · rename_i a
    refine .inl ?_
    unfold printValue
    split
    · exact ⟨sink, _, rfl, nofun⟩
    · split
      · refine ⟨_, _, rfl, fun v hv => ?_⟩
        cases hv
        exact .inl rfl
      · exact ⟨_, _, rfl, nofun⟩
  · rename_i a b
    unfold makeRange
    split
    · exact .inl ⟨sink, _, rfl, nofun⟩
    · exact .inr ⟨_, _, rfl⟩
  · exact .inl (hcompute .not _ _)
  · split
    · exact .inl (hcompute _ _ _)
    · exact .inl ⟨sink, _, rfl, nofun⟩

end Primitive

/-! ### Messages -/

/-- Ranges answer with integers and truth values. -/
theorem Iterable.plain_of_range_answer {m : Message} {o : Object} {state v : Value}
    (h : range.answer m o state = .ok v) : v.Plain := by
  cases m with
  | start =>
    simp only [answer, range] at h
    cases hb : rangeBounds o with
    | error e => rw [hb] at h; cases h
    | ok b => rw [hb] at h; cases h; exact .inr ⟨_, rfl⟩
  | valid => exact Primitive.plain_of_map_bool (f := id) h
  | index =>
    simp only [answer, range] at h
    cases hb : state.asInt with
    | error e => rw [hb] at h; cases h
    | ok b => rw [hb] at h; cases h; exact .inr ⟨_, rfl⟩
  | next =>
    simp only [answer, range] at h
    cases hb : state.asInt with
    | error e => rw [hb] at h; cases h
    | ok b => rw [hb] at h; cases h; exact .inr ⟨_, rfl⟩

namespace Program

/-- When only ranges are iterable, an answer is one of a range. -/
theorem iterable?_eq_range {p : Program}
    (hp : p.iterables = [(Iterable.rangeType, Iterable.range)]) {typeName : String} {it : Iterable}
    (h : p.iterable? typeName = some it) : it = Iterable.range := by
  rw [iterable?, hp, List.lookup_cons] at h
  split at h
  · exact (Option.some.inj h).symm
  · cases h

/-- **An answer to a message** refers to nothing, and is refused for a defect only when it was asked
of a handle without an object. -/
theorem answer?_cases {p : Program} (hp : p.iterables = [(Iterable.rangeType, Iterable.range)])
    {heap : Heap} {place : Place} {name : String} {args : List Value} {r : Except Fault Value}
    (h : p.answer? heap place name args = some r) :
    (∃ v, r = .ok v ∧ v.Plain) ∨ (∃ complaint, r = .error (.user place complaint)) ∨
      ∃ k, Value.object k ∈ args ∧ heap.get? k = none ∧
        r = .error (.internal place (.staleHandle k.text)) := by
  simp only [answer?, Option.bind_eq_bind, Option.bind_eq_some_iff] at h
  obtain ⟨m, -, collection, hhead, k, hk, h⟩ := h
  cases collection with
  | object k' =>
    cases hk
    split at h
    · rename_i hnone
      cases h
      exact .inr (.inr ⟨k, List.mem_of_mem_head? hhead, hnone, rfl⟩)
    · simp only [Option.bind_eq_some_iff] at h
      obtain ⟨it, hit, h⟩ := h
      cases iterable?_eq_range hp hit
      split at h
      · cases h
        exact .inr (.inl ⟨_, rfl⟩)
      · cases h
        rename_i o _ _
        cases ha : Iterable.range.answer m o ((args[1]?).getD .empty) with
        | ok v => exact .inl ⟨v, rfl, Iterable.plain_of_range_answer ha⟩
        | error c => exact .inr (.inl ⟨c, rfl⟩)
  | _ => cases hk

end Program

end TreeMachine
