import Mathlib.Data.List.Nodup
import Mathlib.Tactic.Tauto
import TreeMachine.Proofs.Execution.Frame
import TreeMachine.Proofs.Heap.Histories

/-!
# Exact collection

A collection frees the objects that the roots do not reach and does nothing else. The objects that
it frees are listed by their handles (`Heap.freed`), each of them once (`Heap.mem_freed`). What a
collection does depends on the handles among the roots only (`Heap.collect_eq_of_handles`), and
those of a context are the ones in the environments and operands of all of its activations
(`Context.mem_roots`).

The main result, `Heap.collects_exactly`, puts this together with what is known about marking: it
comes to an end whichever handle is taken off the work list, and the entries that it has marked do
not depend on the choices. It says what becomes of each entry, of the free list and of the number of
objects, and it is therefore a complete description of a collection as a function of the heap and of
a set of handles.

Reachability is through handles that resolve. A root whose object has been freed reaches nothing,
even if its entry holds another object by now, and so does a handle to an entry that was never made.
Heaps are those that come about by some history of allocations, writes and collections, which is
what makes the free list name the vacant entries. Generations may have gone around: nothing here
depends on their count.

When collections happen, and that they are not noticed by the program, is left to the modules on
renaming.
-/

namespace TreeMachine

namespace Heap

variable {heap : Heap} {roots roots' : List Value}

/-! ### What is freed -/

/-- The handles of the objects that a collection frees. -/
def freed (heap : Heap) (roots : List Value) : List Handle :=
  (heap.garbage roots).filterMap fun i => heap.entries[i]?.map fun e => ⟨i, e.generation⟩

/-- Garbage is listed by position and by handle. -/
theorem map_index_freed (heap : Heap) (roots : List Value) :
    (heap.freed roots).map Handle.index = heap.garbage roots := by
  have hlive : ∀ {is : List Nat}, (∀ i ∈ is, ∃ g o, heap.entries[i]? = some ⟨g, some o⟩) →
      (is.filterMap fun i => heap.entries[i]?.map fun e => (⟨i, e.generation⟩ : Handle)).map
        Handle.index = is := by
    intro is
    induction is with
    | nil => exact fun _ => rfl
    | cons i is ih =>
      intro h
      obtain ⟨g, o, he⟩ := h i List.mem_cons_self
      rw [List.filterMap_cons, he, Option.map_some, List.map_cons,
        ih fun j hj => h j (List.mem_cons_of_mem _ hj)]
  exact hlive fun i hi => (mem_garbage.1 hi).1

theorem length_freed (heap : Heap) (roots : List Value) :
    (heap.freed roots).length = (heap.garbage roots).length := by
  rw [← map_index_freed, List.length_map]

theorem nodup_freed (heap : Heap) (roots : List Value) : (heap.freed roots).Nodup :=
  List.Nodup.of_map Handle.index (heap.map_index_freed roots ▸ heap.nodup_garbage roots)

/-- **What is freed** are the objects that the roots do not reach. -/
theorem mem_freed {h : Handle} : h ∈ heap.freed roots ↔ heap.Frees roots h := by
  rw [freed, List.mem_filterMap]
  constructor
  · rintro ⟨i, hi, hmap⟩
    obtain ⟨⟨g, o, he⟩, hm⟩ := mem_garbage.1 hi
    rw [he] at hmap
    cases hmap
    have ho : heap.get? ⟨i, g⟩ = some o := get?_eq_some.2 he
    refine ⟨⟨o, ho⟩, fun hr => ?_⟩
    have hmarked := marks_of_reaches hr o ho
    rw [hm] at hmarked
    cases hmarked
  · rintro ⟨⟨o, ho⟩, hnot⟩
    have he := get?_eq_some.1 ho
    refine ⟨h.index, mem_garbage.2 ⟨⟨h.generation, o, he⟩, ?_⟩, by rw [he]; rfl⟩
    have hlt : h.index < (heap.marks roots).size :=
      heap.size_marks roots ▸ (Array.getElem?_eq_some_iff.1 he).1
    have hfalse : (heap.marks roots)[h.index] ≠ true := fun htrue =>
      hnot (reaches_of_marks ho (by rw [Array.getElem?_eq_getElem hlt, htrue]))
    rw [Array.getElem?_eq_getElem hlt, Bool.eq_false_iff.2 hfalse]

/-- A collection makes no entries and takes none away. -/
theorem size_collect (heap : Heap) (roots : List Value) :
    (heap.collect roots).1.entries.size = heap.entries.size := by
  have hnone : ∀ i : Nat, (heap.collect roots).1.entries[i]? = none ↔ heap.entries[i]? = none := by
    intro i
    rw [collect_entries]
    split
    · exact Option.map_eq_none_iff
    · exact Iff.rfl
  have hle : ∀ i, (heap.collect roots).1.entries.size ≤ i ↔ heap.entries.size ≤ i := fun i => by
    rw [← Array.getElem?_eq_none_iff, hnone, Array.getElem?_eq_none_iff]
  exact Nat.le_antisymm ((hle _).2 (Nat.le_refl _)) ((hle _).1 (Nat.le_refl _))

/-- The objects that are gone after a collection are those it freed. -/
theorem Valid.liveCount_collect (hv : heap.Valid) (roots : List Value) :
    (heap.collect roots).1.liveCount + (heap.collect roots).2 = heap.liveCount := by
  have hbefore := hv.liveCount_add
  have hafter := (hv.collect roots).liveCount_add
  have hfree : (heap.collect roots).1.free.length =
      (heap.collect roots).2 + heap.free.length := by
    change ((heap.garbage roots).reverse ++ heap.free).length = _
    rw [List.length_append, List.length_reverse]
    rfl
  rw [size_collect] at hafter
  omega

/-! ### The roots -/

/-- Roots with the same handles reach the same. -/
theorem Reaches.mono {start start' : List Handle} (hsub : ∀ h ∈ start, h ∈ start') {h : Handle}
    (hr : heap.Reaches start h) : heap.Reaches start' h :=
  hr.trans fun _ hk => .start (hsub _ hk)

theorem mem_handles {h : Handle} :
    h ∈ roots.filterMap Value.asObject? ↔ Value.object h ∈ roots := by
  rw [List.mem_filterMap]
  constructor
  · rintro ⟨v, hv, hh⟩
    cases v with
    | object k =>
      cases hh
      exact hv
    | _ => cases hh
  · exact fun hmem => ⟨_, hmem, rfl⟩

/-- **The roots matter by their handles** only: neither the order nor other values among them change
what a collection does. -/
theorem collect_eq_of_handles (hsame : ∀ h, Value.object h ∈ roots' ↔ Value.object h ∈ roots) :
    heap.collect roots' = heap.collect roots := by
  have hmem : ∀ h, h ∈ roots'.filterMap Value.asObject? ↔ h ∈ roots.filterMap Value.asObject? :=
    fun h => mem_handles.trans ((hsame h).trans mem_handles.symm)
  have hmarks : heap.marks roots' = heap.marks roots :=
    (heap.explores_marks roots').marked_eq (heap.explores_marks roots) rfl rfl fun h =>
      ⟨Reaches.mono fun k => (hmem k).1, Reaches.mono fun k => (hmem k).2⟩
  have hgarbage : heap.garbage roots' = heap.garbage roots := by rw [garbage, garbage, hmarks]
  rw [collect, collect, hgarbage]

/-! ### Exactness -/

/-- **Collection is exact.** Take a heap that was made by any history, and any roots. Whichever
handle marking takes off its work list in each round, it comes to an end, with the same entries
marked. The collection frees the objects that cannot be reached from the roots through handles that
have an object, each of them once, and gives their number. All that can be reached is where it was,
with its content and its generation; entries that were free stay as they are and stay free. Nothing
but the handles among the roots matters, and not their order. When a context collects, the roots are
the values in the environments and the operands of all of its activations. -/
theorem collects_exactly {ops : List Op} {heap : Heap} (hheap : empty.run ops = heap) :
    (WellFounded fun m' m => heap.Round m m') ∧
    (∀ roots,
      (∀ m, heap.Rounds (.start heap roots) m →
        (∃ m', heap.Round m m') ∨ m.work = [] ∧ m.marked = heap.marks roots) ∧
      (∃ freed : List Handle, freed.Nodup ∧
        (∀ h, h ∈ freed ↔ (∃ o, heap.get? h = some o) ∧
          ¬heap.Reaches (roots.filterMap Value.asObject?) h) ∧
        (heap.collect roots).2 = freed.length ∧
        (∀ i, (heap.collect roots).1.entries[i]? =
          if i ∈ freed.map Handle.index then heap.entries[i]?.map Entry.vacated
          else heap.entries[i]?) ∧
        (heap.collect roots).1.free = (freed.map Handle.index).reverse ++ heap.free) ∧
      (heap.collect roots).1.liveCount + (heap.collect roots).2 = heap.liveCount ∧
      (∀ h o, (heap.collect roots).1.get? h = some o ↔
        heap.get? h = some o ∧ heap.Reaches (roots.filterMap Value.asObject?) h) ∧
      (∀ i ∈ heap.free, i ∈ (heap.collect roots).1.free ∧
        ∃ g, heap.entries[i]? = some ⟨g, none⟩ ∧
          (heap.collect roots).1.entries[i]? = some ⟨g, none⟩) ∧
      ∀ roots', (∀ h, Value.object h ∈ roots' ↔ Value.object h ∈ roots) →
        heap.collect roots' = heap.collect roots) ∧
    ∀ c : Context, c.heap = heap → ∃ roots : List Value,
      (∀ v, v ∈ roots ↔ ∃ f ∈ c.frames, (∃ k, f.env.get? k = some v) ∨ v ∈ f.operands) ∧
      c.collect = ({ c with heap := (heap.collect roots).1 }, (heap.collect roots).2) := by
  have hv : heap.Valid := hheap ▸ valid_empty.run ops
  refine ⟨heap.wellFounded_round, fun roots => ⟨fun m hm => ?_, ?_, hv.liveCount_collect roots,
    fun h o => get?_collect_iff, fun i hi => ?_, fun roots' => collect_eq_of_handles⟩, ?_⟩
  · by_cases hdone : m.work = []
    · have hexplores := (Marking.explores_start heap roots).rounds hm
      exact .inr ⟨hdone, hexplores.marked_eq (heap.explores_marks roots) hdone rfl fun _ => .rfl⟩
    · exact .inl (heap.exists_round hdone)
  · refine ⟨heap.freed roots, heap.nodup_freed roots, fun h => mem_freed,
      (heap.length_freed roots).symm, fun i => ?_, ?_⟩
    · rw [map_index_freed, collect_entries]
    · rw [map_index_freed]
      rfl
  · obtain ⟨g, hg⟩ := (hv.mem_free i).1 hi
    -- An entry that was free has no object, so it is not garbage.
    have hkept : i ∉ heap.garbage roots := by
      intro hmem
      obtain ⟨⟨g', o, ho⟩, -⟩ := mem_garbage.1 hmem
      rw [hg] at ho
      cases ho
    exact ⟨List.mem_append_right _ hi, g, hg, by rw [collect_entries, if_neg hkept, hg]⟩
  · rintro c rfl
    exact ⟨c.roots, fun v => Context.mem_roots, rfl⟩

/-- A history that leaves two objects with handles to each other, one with a handle to itself, and
one in an entry where another object was before. -/
def tangled : List Op :=
  [.alloc ⟨"a", [.empty]⟩, .alloc ⟨"b", [.object ⟨0, 0⟩]⟩, .write ⟨0, 0⟩ 0 (.object ⟨1, 0⟩),
    .alloc ⟨"c", []⟩, .alloc ⟨"d", [.object ⟨3, 0⟩]⟩,
    .collect [.object ⟨1, 0⟩, .object ⟨3, 0⟩], .alloc ⟨"e", [.object ⟨3, 0⟩]⟩]

/-- A handle whose object was freed and one to an entry that was never made reach nothing, so that
only the first two objects stay. -/
theorem collects_exactly_tangled :
    ((empty.run tangled).collect [.object ⟨2, 0⟩, .object ⟨9, 0⟩, .object ⟨0, 0⟩]).2 = 2 ∧
    ((empty.run tangled).collect [.object ⟨2, 0⟩, .object ⟨9, 0⟩, .object ⟨0, 0⟩]).1.liveCount =
      2 ∧
    ¬(empty.run tangled).Reaches [⟨2, 0⟩, ⟨9, 0⟩, ⟨0, 0⟩] ⟨2, 1⟩ ∧
    (empty.run tangled).collect [.object ⟨0, 0⟩, .int 4, .object ⟨2, 0⟩, .object ⟨9, 0⟩] =
      (empty.run tangled).collect [.object ⟨2, 0⟩, .object ⟨9, 0⟩, .object ⟨0, 0⟩] := by
  obtain ⟨-, hcollect, -⟩ := @collects_exactly tangled _ rfl
  obtain ⟨-, -, hcount, hkept, -, hroots⟩ :=
    hcollect [.object ⟨2, 0⟩, .object ⟨9, 0⟩, .object ⟨0, 0⟩]
  have hfreed : ((empty.run tangled).collect
      [.object ⟨2, 0⟩, .object ⟨9, 0⟩, .object ⟨0, 0⟩]).2 = 2 := by decide
  have hlive : (empty.run tangled).liveCount = 4 := by decide
  refine ⟨hfreed, by omega, fun hr => ?_, hroots _ fun h => ?_⟩
  · have hget := (hkept ⟨2, 1⟩ ⟨"e", [.object ⟨3, 0⟩]⟩).2 ⟨by decide, hr⟩
    revert hget
    decide
  · simp only [List.mem_cons, Value.object.injEq, List.not_mem_nil]
    tauto

end Heap

end TreeMachine
