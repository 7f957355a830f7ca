import Mathlib.Algebra.Ring.Nat
import TreeMachine.Proofs.Heap.Marking

/-!
# Histories of a heap

A history is a list of operations on a heap: allocations, writes to fields and collections with any
roots. Whatever the history, the free list names the vacant entries and no other ones
(`Heap.Valid.run`). The generation of an entry counts how often its object was freed
(`Heap.Valid.generationAt_perform`), and as long as that count fits 32 bits a handle whose
generation has passed resolves to nothing from then on (`Heap.Outdated.run`). So no handle is given
out twice (`Heap.issued_spec`), and each one resolves to its object until the object is freed
(`Heap.get?_run`). The main result puts these together (`Heap.handles_never_alias`).

A history is any list. The roots of its collections are arbitrary, so they may leave out objects
that somebody still has a handle of, and its writes may go through handles that have no object, in
which case they do nothing. The statements are thus about the heap alone, and no run of a program is
needed to make them true.

The bound is on how often each entry is freed, `2 ^ 32` times being too often. It is sharp: the next
object of an entry would have the generation, and so the handle, of the first one. The bound is a
hypothesis on the history and is not checked anywhere; a program would have to run for a very long
time to violate it.

What an object is at a later time is computed from the history as well (`Object.written`): the
writes that were made through its handle, in order.
-/

namespace TreeMachine

namespace Heap

/-! ### Operations -/

/-- An operation on a heap. -/
inductive Op
  | alloc (o : Object)
  | write (h : Handle) (field : Nat) (v : Value)
  | collect (roots : List Value)
  deriving DecidableEq, Repr

/-- The heap after an operation. -/
def perform (heap : Heap) : Op → Heap
  | .alloc o => (heap.alloc o).1
  | .write h field v => heap.setField h field v
  | .collect roots => (heap.collect roots).1

/-- The heap after a history. -/
def run (heap : Heap) : List Op → Heap
  | [] => heap
  | op :: ops => (heap.perform op).run ops

/-- The handles that the allocations of a history give out, in order. -/
def issued (heap : Heap) : List Op → List Handle
  | [] => []
  | .alloc o :: ops => (heap.alloc o).2 :: (heap.alloc o).1.issued ops
  | op :: ops => (heap.perform op).issued ops

/-- How often an operation frees the object of an entry: once, if it is a collection and the object
is garbage. -/
def freedBy (heap : Heap) (i : Nat) : Op → Nat
  | .collect roots => if i ∈ heap.garbage roots then 1 else 0
  | _ => 0

/-- How often the object of an entry is freed in a history. -/
def timesFreed (heap : Heap) (i : Nat) : List Op → Nat
  | [] => 0
  | op :: ops => heap.freedBy i op + (heap.perform op).timesFreed i ops

/-- A collection frees the object of a handle: there is one, and the roots do not reach it. -/
def Frees (heap : Heap) (roots : List Value) (h : Handle) : Prop :=
  (∃ o, heap.get? h = some o) ∧ ¬heap.Reaches (roots.filterMap Value.asObject?) h

/-- The object of a handle is freed in a history, by one of its collections. -/
def FreedIn (heap : Heap) (h : Handle) (ops : List Op) : Prop :=
  ∃ passed roots rest, ops = passed ++ .collect roots :: rest ∧ (heap.run passed).Frees roots h

end Heap

/-- An object after the writes of a history that were made through a handle. -/
def Object.written (o : Object) (h : Handle) : List Heap.Op → Object
  | [] => o
  | .write k field v :: ops =>
    if k = h then ({ o with fields := o.fields.set field v } : Object).written h ops
    else o.written h ops
  | _ :: ops => o.written h ops

namespace Heap

variable {heap : Heap} {h k : Handle} {o o' : Object} {op : Op} {ops : List Op}

theorem run_append (heap : Heap) (ops ops' : List Op) :
    heap.run (ops ++ ops') = (heap.run ops).run ops' := by
  induction ops generalizing heap with
  | nil => rfl
  | cons op ops ih => exact ih _

theorem timesFreed_le (heap : Heap) (i : Nat) (ops : List Op) :
    heap.timesFreed i ops ≤ ops.length := by
  induction ops generalizing heap with
  | nil => exact Nat.le_refl _
  | cons op ops ih =>
    have hrest := ih (heap.perform op)
    have hop : heap.freedBy i op ≤ 1 := by
      unfold freedBy
      split
      · split <;> decide
      · decide
    rw [timesFreed, List.length_cons]
    omega

theorem freedIn_nil : ¬heap.FreedIn h [] := by
  rintro ⟨passed, roots, rest, heq, -⟩
  exact absurd heq.symm (List.append_ne_nil_of_right_ne_nil _ (List.cons_ne_nil _ _))

theorem freedIn_cons : heap.FreedIn h (op :: ops) ↔
    (∃ roots, op = .collect roots ∧ heap.Frees roots h) ∨ (heap.perform op).FreedIn h ops := by
  constructor
  · rintro ⟨passed, roots, rest, heq, hfrees⟩
    cases passed with
    | nil =>
      obtain ⟨rfl, -⟩ := List.cons.inj heq
      exact .inl ⟨roots, rfl, hfrees⟩
    | cons op' passed =>
      obtain ⟨rfl, rfl⟩ := List.cons.inj heq
      exact .inr ⟨passed, roots, rest, rfl, hfrees⟩
  · rintro (⟨roots, rfl, hfrees⟩ | ⟨passed, roots, rest, rfl, hfrees⟩)
    · exact ⟨[], roots, ops, rfl, hfrees⟩
    · exact ⟨op :: passed, roots, rest, rfl, hfrees⟩

/-! ### Writes -/

/-- What the entries are after a write. -/
theorem setField_entries (heap : Heap) (h : Handle) (field : Nat) (v : Value) :
    heap.setField h field v = heap ∧ heap.get? h = none ∨
      ∃ o, heap.get? h = some o ∧ heap.setField h field v = { heap with
        entries := heap.entries.setIfInBounds h.index
          ⟨h.generation, some { o with fields := o.fields.set field v }⟩ } := by
  cases ho : heap.get? h with
  | none => exact .inl ⟨by rw [setField, modify, ho], rfl⟩
  | some o => exact .inr ⟨o, rfl, by rw [setField, modify, ho]⟩

/-- A write changes the object of its handle. -/
theorem get?_setField_self (ho : heap.get? h = some o) (field : Nat) (v : Value) :
    (heap.setField h field v).get? h = some { o with fields := o.fields.set field v } := by
  have hlt := (Array.getElem?_eq_some_iff.1 (get?_eq_some.1 ho)).1
  rw [setField, modify, ho, get?_eq_some]
  exact Array.getElem?_setIfInBounds_self_of_lt hlt

/-- A write leaves the objects of other handles. -/
theorem get?_setField_of_ne (hk : k ≠ h) (ho : heap.get? h = some o) (field : Nat) (v : Value) :
    (heap.setField k field v).get? h = some o := by
  rcases heap.setField_entries k field v with ⟨hsame, -⟩ | ⟨o', ho', hset⟩
  · rw [hsame, ho]
  · have hindex : k.index ≠ h.index := fun heq => hk (eq_of_index_eq ho' ho heq)
    rw [hset, get?_eq_some]
    exact (Array.getElem?_setIfInBounds_ne hindex).trans (get?_eq_some.1 ho)

theorem Valid.setField (hv : heap.Valid) (h : Handle) (field : Nat) (v : Value) :
    (heap.setField h field v).Valid := by
  rcases heap.setField_entries h field v with ⟨hsame, -⟩ | ⟨o, ho, hset⟩
  · rwa [hsame]
  · have hentry := get?_eq_some.1 ho
    have hlt := (Array.getElem?_eq_some_iff.1 hentry).1
    rw [hset]
    refine ⟨hv.nodup, fun i => (hv.mem_free i).trans ?_⟩
    -- The entry that is written to holds an object before and after.
    rw [Array.getElem?_setIfInBounds, if_pos hlt]
    split
    · rename_i hi
      subst hi
      constructor
      · rintro ⟨g, hg⟩
        rw [hentry] at hg
        cases hg
      · rintro ⟨g, hg⟩
        cases hg
    · exact Iff.rfl

/-! ### The free list -/

theorem Valid.perform (hv : heap.Valid) (op : Op) : (heap.perform op).Valid := by
  cases op with
  | alloc o => exact hv.alloc o
  | write h field v => exact hv.setField h field v
  | collect roots => exact hv.collect roots

/-- **The free list** names the vacant entries after any history. -/
theorem Valid.run (hv : heap.Valid) (ops : List Op) : (heap.run ops).Valid := by
  induction ops generalizing heap with
  | nil => exact hv
  | cons op ops ih => exact ih (hv.perform op)

/-- The entries that hold an object, counted by their positions. -/
theorem liveCount_eq (heap : Heap) : heap.liveCount =
    (List.range heap.entries.size).countP fun i => heap.entries[i]?.any Entry.isLive := by
  have hcount : ∀ es : List Entry, es.countP Entry.isLive =
      (List.range es.length).countP fun i => es[i]?.any Entry.isLive := by
    intro es
    induction es with
    | nil => rfl
    | cons e es ih =>
      rw [List.length_cons, List.range_succ_eq_map, List.countP_cons, List.countP_cons,
        List.countP_map, ih]
      rfl
  rw [liveCount, ← Array.countP_toList, hcount, Array.length_toList]
  simp only [Array.getElem?_toList]

/-- Every entry holds an object or is on the free list. -/
theorem Valid.liveCount_add (hv : heap.Valid) :
    heap.liveCount + heap.free.length = heap.entries.size := by
  have hvacant : heap.free.Perm ((List.range heap.entries.size).filter fun i =>
      !(heap.entries[i]?.any Entry.isLive)) := by
    refine (List.perm_ext_iff_of_nodup hv.nodup (List.nodup_range.filter _)).2 fun i => ?_
    rw [hv.mem_free, List.mem_filter, List.mem_range]
    constructor
    · rintro ⟨g, hg⟩
      exact ⟨(Array.getElem?_eq_some_iff.1 hg).1, by rw [hg]; rfl⟩
    · rintro ⟨hlt, hdead⟩
      rw [Array.getElem?_eq_getElem hlt] at hdead ⊢
      rw [Option.any_some, Entry.isLive, Bool.not_eq_true', Option.isSome_eq_false_iff,
        Option.isNone_iff_eq_none] at hdead
      exact ⟨heap.entries[i].generation, by rw [← hdead]⟩
  have hall : (List.range heap.entries.size).length =
      (List.range heap.entries.size).countP (fun i => heap.entries[i]?.any Entry.isLive) +
        (List.range heap.entries.size).countP
          fun i => !(heap.entries[i]?.any Entry.isLive) := by
    simpa using List.length_eq_countP_add_countP
      (fun i : Nat => heap.entries[i]?.any Entry.isLive) (l := List.range heap.entries.size)
  rw [hvacant.length_eq, ← List.countP_eq_length_filter, liveCount_eq, ← hall, List.length_range]

/-- There is one more object after an allocation. -/
theorem Valid.liveCount_alloc (hv : heap.Valid) (o : Object) :
    (heap.alloc o).1.liveCount = heap.liveCount + 1 := by
  have hbefore := hv.liveCount_add
  have hafter := (hv.alloc o).liveCount_add
  rcases hv.alloc_cases o with ⟨hfree, halloc⟩ | ⟨i, rest, g, hfree, -, halloc⟩
  · rw [halloc] at hafter ⊢
    simp only [append, Array.size_push, hfree, List.length_nil] at hbefore hafter ⊢
    omega
  · rw [halloc] at hafter ⊢
    simp only [Array.size_setIfInBounds, hfree, List.length_cons] at hbefore hafter ⊢
    omega

/-! ### Generations -/

/-- The generation of an entry; one that is still to be made has the first one. -/
def generationAt (heap : Heap) (i : Nat) : Nat :=
  heap.entries[i]?.elim 0 fun e => e.generation.toNat

theorem generationAt_eq {i : Nat} {e : Entry} (h : heap.entries[i]? = some e) :
    heap.generationAt i = e.generation.toNat := by
  rw [generationAt, h]
  rfl

theorem generationAt_of_get? (ho : heap.get? h = some o) :
    heap.generationAt h.index = h.generation.toNat :=
  generationAt_eq (get?_eq_some.1 ho)

/-- A handle is new: its generation is the one of its entry, and it has no object. -/
theorem Valid.generationAt_alloc (hv : heap.Valid) (o : Object) :
    heap.generationAt (heap.alloc o).2.index = (heap.alloc o).2.generation.toNat := by
  rcases hv.alloc_cases o with ⟨-, ha⟩ | ⟨i, rest, g, -, hi, ha⟩
  · rw [ha, generationAt]
    have hnew : heap.entries[heap.entries.size]? = none := Array.getElem?_eq_none (Nat.le_refl _)
    rw [show (heap.append o).2.index = heap.entries.size from rfl, hnew]
    rfl
  · rw [ha]
    exact generationAt_eq hi

/-- **The generation of an entry** moves on when its object is freed, unless there are no more of
them, and at no other time. -/
theorem Valid.generationAt_perform (hv : heap.Valid) {i : Nat}
    (hroom : heap.generationAt i + heap.freedBy i op < 2 ^ 32) :
    (heap.perform op).generationAt i = heap.generationAt i + heap.freedBy i op := by
  cases op with
  | alloc o =>
    change (heap.alloc o).1.generationAt i = heap.generationAt i
    rw [generationAt, (hv.alloc_entries o i).1]
    split
    · rename_i hi
      rw [hi, hv.generationAt_alloc o]
      rfl
    · rfl
  | write h field v =>
    change (heap.setField h field v).generationAt i = heap.generationAt i
    rcases heap.setField_entries h field v with ⟨hsame, -⟩ | ⟨o, ho, hset⟩
    · rw [hsame]
    · have hentry := get?_eq_some.1 ho
      have hlt := (Array.getElem?_eq_some_iff.1 hentry).1
      rw [hset, generationAt, Array.getElem?_setIfInBounds, if_pos hlt]
      split
      · rename_i hi
        rw [← hi, generationAt_of_get? ho]
        rfl
      · rfl
  | collect roots =>
    change (heap.collect roots).1.generationAt i =
      heap.generationAt i + if i ∈ heap.garbage roots then 1 else 0
    rw [freedBy] at hroom
    rw [generationAt, collect_entries]
    split
    · rename_i hi
      rw [if_pos hi] at hroom
      obtain ⟨⟨g, o, he⟩, -⟩ := mem_garbage.1 hi
      rw [generationAt_eq he] at hroom ⊢
      rw [he]
      change (g + 1).toNat = g.toNat + 1
      rw [UInt32.toNat_add]
      exact Nat.mod_eq_of_lt hroom
    · rfl

/-- No entry runs out of generations in a history. -/
def HasRoom (heap : Heap) (ops : List Op) : Prop :=
  ∀ i, heap.generationAt i + heap.timesFreed i ops < 2 ^ 32

theorem hasRoom_empty (h : ∀ i, empty.timesFreed i ops < 2 ^ 32) : empty.HasRoom ops := by
  intro i
  have hzero : empty.generationAt i = 0 := rfl
  rw [hzero, Nat.zero_add]
  exact h i

theorem HasRoom.generationAt (hroom : heap.HasRoom (op :: ops)) (hv : heap.Valid) (i : Nat) :
    (heap.perform op).generationAt i = heap.generationAt i + heap.freedBy i op := by
  have hi := hroom i
  rw [timesFreed] at hi
  exact hv.generationAt_perform (by omega)

theorem HasRoom.tail (hroom : heap.HasRoom (op :: ops)) (hv : heap.Valid) :
    (heap.perform op).HasRoom ops := by
  intro i
  have hi := hroom i
  rw [timesFreed] at hi
  rw [hroom.generationAt hv]
  omega

theorem HasRoom.append {ops' : List Op} (hroom : heap.HasRoom (ops ++ ops')) (hv : heap.Valid) :
    (heap.run ops).HasRoom ops' := by
  induction ops generalizing heap with
  | nil => exact hroom
  | cons op ops ih => exact ih (hroom.tail hv) (hv.perform op)

/-! ### Handles whose object was freed -/

/-- The generation of a handle has passed. -/
def Outdated (heap : Heap) (h : Handle) : Prop :=
  h.generation.toNat < heap.generationAt h.index

theorem Outdated.get? (hout : heap.Outdated h) : heap.get? h = none := by
  refine Option.eq_none_iff_forall_ne_some.2 fun o ho => ?_
  rw [Outdated, generationAt_of_get? ho] at hout
  exact Nat.lt_irrefl _ hout

theorem Outdated.perform (hout : heap.Outdated h) (hv : heap.Valid)
    (hroom : heap.HasRoom (op :: ops)) : (heap.perform op).Outdated h := by
  rw [Outdated, hroom.generationAt hv]
  exact Nat.lt_of_lt_of_le hout (Nat.le_add_right _ _)

/-- **A generation that has passed** does not come back. -/
theorem Outdated.run (hout : heap.Outdated h) (hv : heap.Valid) (hroom : heap.HasRoom ops) :
    (heap.run ops).Outdated h := by
  induction ops generalizing heap with
  | nil => exact hout
  | cons op ops ih => exact ih (hout.perform hv hroom) (hv.perform op) (hroom.tail hv)

/-- The generation of a handle passes when its object is freed. -/
theorem Frees.outdated {roots : List Value} (hfrees : heap.Frees roots h) (hv : heap.Valid)
    (hroom : heap.HasRoom (.collect roots :: ops)) :
    (heap.perform (.collect roots)).Outdated h := by
  obtain ⟨⟨o, ho⟩, hnot⟩ := hfrees
  have hmem : h.index ∈ heap.garbage roots := by
    refine Decidable.byContradiction fun hkept => hnot ?_
    have hget : (heap.collect roots).1.get? h = some o := by
      rw [get?_eq_some, collect_entries, if_neg hkept]
      exact get?_eq_some.1 ho
    exact (get?_collect_iff.1 hget).2
  rw [Outdated, hroom.generationAt hv, freedBy, if_pos hmem, generationAt_of_get? ho]
  exact Nat.lt_succ_self _

/-! ### Handles that were given out -/

/-- A handle has been given out: it has an object, or its generation has passed. -/
def Known (heap : Heap) (h : Handle) : Prop :=
  (∃ o, heap.get? h = some o) ∨ heap.Outdated h

/-- An operation keeps the object of a handle, but for what it writes to it, or frees it. -/
theorem get?_perform (op : Op) (ho : heap.get? h = some o) (hv : heap.Valid) :
    (heap.perform op).get? h = some (o.written h [op]) ∨
      ∃ roots, op = .collect roots ∧ heap.Frees roots h := by
  cases op with
  | alloc o' => exact .inl (hv.get?_alloc ho o')
  | write k field v =>
    refine .inl ?_
    rw [Object.written]
    split
    · rename_i hk
      subst hk
      exact get?_setField_self ho field v
    · rename_i hk
      exact get?_setField_of_ne hk ho field v
  | collect roots =>
    by_cases hr : heap.Reaches (roots.filterMap Value.asObject?) h
    · exact .inl (get?_collect hr ho)
    · exact .inr ⟨roots, rfl, ⟨o, ho⟩, hr⟩

theorem Known.perform (hknown : heap.Known h) (hv : heap.Valid)
    (hroom : heap.HasRoom (op :: ops)) : (heap.perform op).Known h := by
  rcases hknown with ⟨o, ho⟩ | hout
  · rcases get?_perform op ho hv with hget | ⟨roots, rfl, hfrees⟩
    · exact .inl ⟨_, hget⟩
    · exact .inr (hfrees.outdated hv hroom)
  · exact .inr (hout.perform hv hroom)

/-- A new handle has not been given out. -/
theorem Valid.not_known_alloc (hv : heap.Valid) (o : Object) : ¬heap.Known (heap.alloc o).2 := by
  rintro (⟨o', ho'⟩ | hout)
  · exact hv.ne_alloc ho' o rfl
  · rw [Outdated, hv.generationAt_alloc o] at hout
    exact Nat.lt_irrefl _ hout

/-- **Handles are given out once**: those of a history are different from each other and from all
that were given out before. -/
theorem issued_spec (hv : heap.Valid) (hroom : heap.HasRoom ops) :
    (heap.issued ops).Nodup ∧ ∀ h ∈ heap.issued ops, ¬heap.Known h := by
  induction ops generalizing heap with
  | nil => exact ⟨.nil, nofun⟩
  | cons op ops ih =>
    obtain ⟨hnodup, hnew⟩ := ih (hv.perform op) (hroom.tail hv)
    have hold : ∀ h ∈ (heap.perform op).issued ops, ¬heap.Known h := fun h hmem hknown =>
      hnew h hmem (hknown.perform hv hroom)
    cases op with
    | alloc o =>
      have hfirst : (heap.perform (.alloc o)).Known (heap.alloc o).2 :=
        .inl ⟨o, hv.get?_alloc_self o⟩
      refine ⟨List.nodup_cons.2 ⟨fun hmem => hnew _ hmem hfirst, hnodup⟩, fun h hmem => ?_⟩
      rcases List.mem_cons.1 hmem with rfl | hmem
      · exact hv.not_known_alloc o
      · exact hold h hmem
    | write h field v => exact ⟨hnodup, hold⟩
    | collect roots => exact ⟨hnodup, hold⟩

/-- **A handle resolves to its object** until the object is freed, and never again after that. -/
theorem get?_run (ho : heap.get? h = some o) (hv : heap.Valid) (hroom : heap.HasRoom ops) :
    (¬heap.FreedIn h ops → (heap.run ops).get? h = some (o.written h ops)) ∧
      (heap.FreedIn h ops → (heap.run ops).get? h = none) := by
  induction ops generalizing heap o with
  | nil => exact ⟨fun _ => ho, fun hfreed => absurd hfreed freedIn_nil⟩
  | cons op ops ih =>
    rw [freedIn_cons]
    rcases get?_perform op ho hv with hget | ⟨roots, rfl, hfrees⟩
    · have hrest := ih hget (hv.perform op) (hroom.tail hv)
      -- The operation does not free the object, which is still there after it.
      have hkept : ¬∃ roots, op = .collect roots ∧ heap.Frees roots h := by
        rintro ⟨roots, rfl, hfrees⟩
        have hnone := (hfrees.outdated hv hroom).get?
        rw [hget] at hnone
        cases hnone
      have hwritten : o.written h (op :: ops) = (o.written h [op]).written h ops := by
        cases op with
        | alloc o' => rfl
        | write k field v =>
          simp only [Object.written]
          split <;> rfl
        | collect roots => rfl
      rw [hwritten]
      exact ⟨fun hnot => hrest.1 fun hfreed => hnot (.inr hfreed),
        fun hfreed => hrest.2 (hfreed.resolve_left hkept)⟩
    · have hout := (hfrees.outdated hv hroom).run (hv.perform _) (hroom.tail hv)
      exact ⟨fun hnot => absurd (.inl ⟨roots, rfl, hfrees⟩) hnot, fun _ => hout.get?⟩

/-- **Handles never alias.** Take any history that starts with the empty heap and frees no entry
`2 ^ 32` times. Afterwards the free list holds each vacant entry once and nothing else. An
allocation uses a vacant entry or a new one, and leaves every object to its handle. All handles that
were given out are different. Each of them resolves to the object it was given out for, with the
writes that were made through it, unless a collection has freed the object: then it resolves to
nothing, whatever has been put into its entry since. -/
theorem handles_never_alias {ops : List Op} (hroom : ∀ i, empty.timesFreed i ops < 2 ^ 32) :
    ((empty.run ops).free.Nodup ∧
      (∀ i, i ∈ (empty.run ops).free ↔ ∃ g, (empty.run ops).entries[i]? = some ⟨g, none⟩) ∧
      (empty.run ops).liveCount + (empty.run ops).free.length = (empty.run ops).entries.size) ∧
    (∀ o, (∀ e, (empty.run ops).entries[((empty.run ops).alloc o).2.index]? = some e →
        e.object = none) ∧
      ∀ h o', (empty.run ops).get? h = some o' →
        h ≠ ((empty.run ops).alloc o).2 ∧ ((empty.run ops).alloc o).1.get? h = some o') ∧
    (empty.issued ops).Nodup ∧
    ∀ before o later, ops = before ++ .alloc o :: later →
      ∀ heap h, (empty.run before).alloc o = (heap, h) →
        (¬heap.FreedIn h later → (empty.run ops).get? h = some (o.written h later)) ∧
        (heap.FreedIn h later → (empty.run ops).get? h = none) := by
  have hv : (empty.run ops).Valid := valid_empty.run ops
  have hroom := hasRoom_empty hroom
  refine ⟨⟨hv.nodup, hv.mem_free, hv.liveCount_add⟩, fun o => ⟨(hv.alloc_entries o 0).2, ?_⟩,
    (issued_spec valid_empty hroom).1, ?_⟩
  · exact fun h o' ho' => ⟨hv.ne_alloc ho' o, hv.get?_alloc ho' o⟩
  · rintro before o later rfl heap h hmade
    have hbefore : (empty.run before).Valid := valid_empty.run before
    have hget := hbefore.get?_alloc_self o
    have hvalid := hbefore.alloc o
    have hrest := (hroom.append valid_empty).tail hbefore
    rw [run_append, run, perform]
    rw [perform] at hrest
    rw [hmade] at hget hvalid hrest ⊢
    exact get?_run hget hvalid hrest

/-- A history in which both of its entries are used several times. -/
def reusing : List Op :=
  [.alloc ⟨"a", [.int 1, .empty]⟩, .alloc ⟨"b", [.int 2]⟩, .write ⟨0, 0⟩ 1 (.object ⟨1, 0⟩),
    .collect [.int 3], .alloc ⟨"c", [.int 4]⟩, .alloc ⟨"d", [.object ⟨1, 1⟩]⟩,
    .write ⟨1, 0⟩ 0 (.int 5), .collect [.object ⟨1, 1⟩], .alloc ⟨"e", [.int 6]⟩,
    .write ⟨0, 2⟩ 0 (.int 7)]

/-- The first object was freed, and its entry now holds the third one in it. -/
theorem handles_never_alias_reusing :
    (∀ i, empty.timesFreed i reusing < 2 ^ 32) ∧
    empty.issued reusing = [⟨0, 0⟩, ⟨1, 0⟩, ⟨1, 1⟩, ⟨0, 1⟩, ⟨0, 2⟩] ∧
    (empty.issued reusing).Nodup ∧
    (empty.run reusing).get? ⟨0, 0⟩ = none ∧
    (empty.run reusing).get? ⟨0, 2⟩ = some ⟨"e", [.int 7]⟩ := by
  have hroom : ∀ i, empty.timesFreed i reusing < 2 ^ 32 := fun i =>
    Nat.lt_of_le_of_lt (empty.timesFreed_le i reusing) (by decide)
  obtain ⟨-, -, hnodup, hresolve⟩ := handles_never_alias hroom
  have hfirst := hresolve [] _ _ rfl _ _ rfl
  have hlast := hresolve (reusing.take 8) _ _ rfl _ _ rfl
  refine ⟨hroom, by decide, hnodup, hfirst.2 ?_, hlast.1 ?_⟩
  · -- The collection without roots frees everything.
    refine ⟨[.alloc ⟨"b", [.int 2]⟩, .write ⟨0, 0⟩ 1 (.object ⟨1, 0⟩)], [.int 3], _, rfl,
      ⟨_, rfl⟩, not_reaches_nil _⟩
  · rintro ⟨passed, roots, rest, heq, -⟩
    have hmem : Op.collect roots ∈ [Op.write ⟨0, 2⟩ 0 (.int 7)] :=
      heq ▸ List.mem_append_right _ List.mem_cons_self
    cases List.mem_singleton.1 hmem

end Heap

end TreeMachine
