import TreeMachine.Heap

/-!
# Valid heaps

In a valid heap the free list names every vacant entry once and no other one (`Heap.Valid`). An
allocation in a valid heap gives a handle that no object had before, and leaves all objects where
they are.

Validity is the only invariant of a heap that an allocation needs. If the free list named an entry
with an object, then the allocation would write over it, with a handle that is the one of the old
object: the generation of an entry changes only when its object is freed. So the statement that a
new handle is not one of those with an object (`Heap.Valid.ne_alloc`) rests on vacancy alone, and
does not speak of generations.

That a new handle is none of those which ever had an object is more, and is proved of histories. It
needs that an entry is not freed too often.
-/

namespace TreeMachine

namespace Heap

/-- The free list names the vacant entries, each of them once. -/
structure Valid (heap : Heap) : Prop where
  nodup : heap.free.Nodup
  mem_free : ∀ i, i ∈ heap.free ↔ ∃ g, heap.entries[i]? = some ⟨g, none⟩

theorem valid_empty : Valid empty := by
  refine ⟨.nil, fun i => ⟨nofun, ?_⟩⟩
  rintro ⟨g, hg⟩
  cases hg

/-- An object is in the entry of its handle. -/
theorem get?_eq_some {heap : Heap} {h : Handle} {o : Object} :
    heap.get? h = some o ↔ heap.entries[h.index]? = some ⟨h.generation, some o⟩ := by
  rw [get?]
  constructor
  · intro hget
    split at hget
    · rename_i e he
      split at hget
      · rename_i hg
        rw [he, ← hg, ← hget]
      · cases hget
    · cases hget
  · intro he
    rw [he]
    exact if_pos rfl

/-- An allocation puts the object in an entry that was vacant, or in a new one. -/
theorem Valid.alloc_cases {heap : Heap} (h : heap.Valid) (o : Object) :
    heap.free = [] ∧ heap.alloc o = heap.append o ∨
      ∃ i rest g, heap.free = i :: rest ∧ heap.entries[i]? = some ⟨g, none⟩ ∧
        heap.alloc o = (⟨heap.entries.setIfInBounds i ⟨g, some o⟩, rest, heap.allocated + 1⟩,
          ⟨i, g⟩) := by
  cases hfree : heap.free with
  | nil => exact .inl ⟨rfl, by simp only [alloc, hfree]⟩
  | cons i rest =>
    obtain ⟨g, hg⟩ := (h.mem_free i).1 (hfree ▸ List.mem_cons_self)
    exact .inr ⟨i, rest, g, rfl, hg, by simp only [alloc, hfree, hg]⟩

/-- What the entries are after an allocation: the one of the new handle holds the object, and it was
vacant or missing before. -/
theorem Valid.alloc_entries {heap : Heap} (h : heap.Valid) (o : Object) (i : Nat) :
    (heap.alloc o).1.entries[i]? =
      (if i = (heap.alloc o).2.index then some ⟨(heap.alloc o).2.generation, some o⟩
        else heap.entries[i]?) ∧
    ∀ e, heap.entries[(heap.alloc o).2.index]? = some e → e.object = none := by
  rcases h.alloc_cases o with ⟨-, ha⟩ | ⟨j, rest, g, -, hj, ha⟩
  · rw [ha]
    refine ⟨?_, fun e he => ?_⟩
    · exact Array.getElem?_push
    · have hlt := (Array.getElem?_eq_some_iff.1 he).1
      exact absurd hlt (Nat.lt_irrefl _)
  · rw [ha]
    have hlt := (Array.getElem?_eq_some_iff.1 hj).1
    refine ⟨?_, fun e he => ?_⟩
    · simp only [Array.getElem?_setIfInBounds, hlt, if_true, eq_comm (a := j)]
    · rw [hj] at he
      cases he
      rfl

/-- The new object is found. -/
theorem Valid.get?_alloc_self {heap : Heap} (h : heap.Valid) (o : Object) :
    (heap.alloc o).1.get? (heap.alloc o).2 = some o := by
  rw [get?_eq_some, (h.alloc_entries o _).1, if_pos rfl]

/-- The handle of an object is not given out again. -/
theorem Valid.ne_alloc {heap : Heap} (h : heap.Valid) {k : Handle} {o' : Object}
    (hk : heap.get? k = some o') (o : Object) : k ≠ (heap.alloc o).2 := by
  rintro rfl
  cases (h.alloc_entries o 0).2 _ (get?_eq_some.1 hk)

/-- The objects that are there are found as before. -/
theorem Valid.get?_alloc {heap : Heap} (h : heap.Valid) {k : Handle} {o' : Object}
    (hk : heap.get? k = some o') (o : Object) : (heap.alloc o).1.get? k = some o' := by
  have hentry := get?_eq_some.1 hk
  rw [get?_eq_some, (h.alloc_entries o _).1, if_neg, hentry]
  intro hi
  cases (h.alloc_entries o 0).2 _ (hi ▸ hentry)

/-- An object that is found after an allocation is the new one, or was there before. -/
theorem Valid.of_get?_alloc {heap : Heap} (h : heap.Valid) {k : Handle} {o o' : Object}
    (hk : (heap.alloc o).1.get? k = some o') : o' = o ∨ heap.get? k = some o' := by
  have hentry := get?_eq_some.1 hk
  rw [(h.alloc_entries o _).1] at hentry
  split at hentry
  · exact .inl (Option.some.inj (Entry.mk.inj (Option.some.inj hentry)).2).symm
  · exact .inr (get?_eq_some.2 hentry)

theorem Valid.alloc {heap : Heap} (h : heap.Valid) (o : Object) : (heap.alloc o).1.Valid := by
  have hentries := fun i => (h.alloc_entries o i).1
  rcases h.alloc_cases o with ⟨hfree, ha⟩ | ⟨j, rest, g, hfree, hj, ha⟩
  · rw [ha] at hentries ⊢
    refine ⟨hfree ▸ .nil, fun i => ?_⟩
    rw [hentries]
    by_cases hi : i = heap.entries.size
    · subst hi
      refine ⟨fun hmem => ?_, ?_⟩
      · exact absurd (hfree ▸ hmem) List.not_mem_nil
      · rintro ⟨g, hg⟩
        cases (if_pos rfl).symm.trans hg
    · rw [if_neg (show ¬i = (heap.append o).2.index from hi)]
      exact h.mem_free i
  · have hnodup := h.nodup
    rw [hfree, List.nodup_cons] at hnodup
    rw [ha] at hentries ⊢
    refine ⟨hnodup.2, fun i => ?_⟩
    rw [hentries]
    by_cases hi : i = j
    · subst hi
      refine ⟨fun hmem => absurd hmem hnodup.1, ?_⟩
      rintro ⟨g', hg'⟩
      cases (if_pos rfl).symm.trans hg'
    · rw [if_neg hi, ← h.mem_free i, hfree, List.mem_cons]
      exact ⟨.inr, fun hmem => hmem.resolve_left hi⟩

end Heap

end TreeMachine
