import Mathlib.Logic.Relation
import TreeMachine.Proofs.Heap.Valid

/-!
# What a collection keeps

`Heap.Reaches` is reachability through handles that resolve. Marking goes on in rounds, each of
which takes one handle off a work list (`Heap.Round`). In whichever order it takes them it comes to
an end (`Heap.wellFounded_round`), and `Heap.marks` has the fuel to come to it
(`Heap.rounds_marks`). Then everything reachable is marked (`Heap.marks_of_reaches`) and nothing
else is (`Heap.reaches_of_marks`). Hence a collection leaves the objects that can be reached where
they are and frees the others (`Heap.get?_collect_iff`), and the heap stays valid
(`Heap.Valid.collect`).

The rounds are a relation, with the work list as a list from any place of which a handle may be
taken. The function that runs takes the first one; it is one of the ways to go on, and since all of
them end with the same marks, nothing is lost by the choice. The measure of termination is the
number of handles in objects that are not marked yet together with the length of the work list: a
round that marks an object moves its handles from the one to the other and takes one handle away.

The invariant that makes marking complete is that a marked object has its handles on the work list
or leading to marked objects. When the list is empty the marked objects are closed under
reachability.
-/

namespace TreeMachine

namespace Heap

variable {heap : Heap}

/-- A handle can be reached: it is one of the given handles, or lies in a field of an object that
can be reached. -/
inductive Reaches (heap : Heap) (start : List Handle) : Handle → Prop
  | start {h : Handle} (hmem : h ∈ start) : Reaches heap start h
  | field {h k : Handle} {o : Object} (hr : Reaches heap start h) (ho : heap.get? h = some o)
      (hk : k ∈ o.handles) : Reaches heap start k

/-- What can be reached from handles that can be reached. -/
theorem Reaches.trans {start start' : List Handle} (h : ∀ k ∈ start', heap.Reaches start k)
    {k : Handle} (hk : heap.Reaches start' k) : heap.Reaches start k := by
  induction hk with
  | start hmem => exact h _ hmem
  | field _ ho hmem ih => exact .field ih ho hmem

/-- Nothing can be reached from nothing. -/
theorem not_reaches_nil (h : Handle) : ¬heap.Reaches [] h := by
  intro hr
  induction hr with
  | start hmem => cases hmem
  | field _ _ _ ih => exact ih

/-- A handle is known by its entry, if it has an object. -/
theorem eq_of_index_eq {h k : Handle} {o o' : Object} (hh : heap.get? h = some o)
    (hk : heap.get? k = some o') (heq : h.index = k.index) : h = k := by
  have hentry := (get?_eq_some.1 hh).symm.trans (heq ▸ get?_eq_some.1 hk)
  obtain ⟨i, g⟩ := h
  obtain ⟨j, g'⟩ := k
  cases hentry
  rw [Handle.mk.injEq]
  exact ⟨heq, rfl⟩

/-! ### Rounds of marking -/

/-- Where marking stands: the handles to look at, and for every entry whether it is marked. -/
structure Marking where
  work : List Handle
  marked : Array Bool

/-- Marking begins with the handles among the roots, and with no entry marked. -/
def Marking.start (heap : Heap) (roots : List Value) : Marking :=
  ⟨roots.filterMap Value.asObject?, .replicate heap.entries.size false⟩

/-- A round takes a handle off the work list, whichever it is. If its object is there and its entry
is not marked, the entry is marked and the handles of the object are put on the list. -/
inductive Round (heap : Heap) : Marking → Marking → Prop
  | mark {work work' rest : List Handle} {marked : Array Bool} {h : Handle} {o : Object}
      (htake : work.Perm (h :: rest)) (hm : marked[h.index]? = some false)
      (ho : heap.get? h = some o) (hput : work'.Perm (o.handles ++ rest)) :
      Round heap ⟨work, marked⟩ ⟨work', marked.setIfInBounds h.index true⟩
  | skip {work work' : List Handle} {marked : Array Bool} {h : Handle}
      (htake : work.Perm (h :: work'))
      (hno : marked[h.index]? = some false → heap.get? h = none) :
      Round heap ⟨work, marked⟩ ⟨work', marked⟩

/-- Any number of rounds. -/
def Rounds (heap : Heap) : Marking → Marking → Prop :=
  Relation.ReflTransGen heap.Round

/-- There is another round as long as there is work. -/
theorem exists_round (heap : Heap) {m : Marking} (h : m.work ≠ []) : ∃ m', heap.Round m m' := by
  obtain ⟨work, marked⟩ := m
  cases work with
  | nil => exact absurd rfl h
  | cons k rest =>
    by_cases hm : marked[k.index]? = some false
    · cases ho : heap.get? k with
      | none => exact ⟨_, .skip (.refl _) fun _ => ho⟩
      | some o => exact ⟨_, .mark (.refl _) hm ho (.refl _)⟩
    · exact ⟨_, .skip (.refl _) fun h => absurd h hm⟩

/-! ### The number of rounds -/

/-- The number of handles in the object of an entry. -/
def handlesAt (heap : Heap) (i : Nat) : Nat :=
  match heap.entries[i]? with
  | some e => e.object.elim 0 fun o => o.handles.length
  | none => 0

/-- The number of handles in the objects of the first entries that are not marked. -/
def unmarked (heap : Heap) (marked : Array Bool) : Nat → Nat
  | 0 => 0
  | n + 1 => heap.unmarked marked n + if marked[n]? = some true then 0 else heap.handlesAt n

/-- The handles of an entry are gone from the count once it is marked. -/
theorem unmarked_mark (heap : Heap) {marked : Array Bool} {i : Nat} (hi : marked[i]? = some false)
    (n : Nat) :
    heap.unmarked (marked.setIfInBounds i true) n + (if i < n then heap.handlesAt i else 0) =
      heap.unmarked marked n := by
  have hlt := (Array.getElem?_eq_some_iff.1 hi).1
  induction n with
  | zero => rfl
  | succ n ih =>
    rw [unmarked, unmarked, ← ih]
    by_cases hn : i = n
    · subst hn
      rw [if_neg (Nat.lt_irrefl i), if_pos (Nat.lt_succ_self i), hi,
        Array.getElem?_setIfInBounds_self_of_lt hlt]
      simp
    · have hiff : i < n + 1 ↔ i < n := by omega
      rw [Array.getElem?_setIfInBounds_ne hn]
      simp only [hiff]
      omega

/-- In the beginning nothing is marked. -/
theorem unmarked_replicate (size : Nat) {n : Nat} (hn : n ≤ heap.entries.size) :
    heap.unmarked (.replicate size false) n =
      (heap.entries.toList.take n).foldl
        (fun n e => n + (e.object.elim 0 fun o => o.handles.length)) 0 := by
  induction n with
  | zero => rfl
  | succ n ih =>
    have hlt : n < heap.entries.toList.length := hn
    have hnot : ¬(Array.replicate size false)[n]? = some true := by
      rw [Array.getElem?_replicate]
      split <;> simp
    have hat : heap.entries[n]? = some heap.entries.toList[n] := by
      rw [← Array.getElem?_toList, List.getElem?_eq_getElem hlt]
    rw [unmarked, if_neg hnot, ih (Nat.le_of_succ_le hn), ← List.take_append_getElem hlt,
      List.foldl_append, handlesAt, hat]
    rfl

theorem handleCount_eq : heap.handleCount =
    heap.unmarked (.replicate heap.entries.size false) heap.entries.size := by
  rw [unmarked_replicate _ (Nat.le_refl _)]
  rw [handleCount, ← Array.length_toList, List.take_length]

/-- The number of rounds that are left at most: every handle on the work list takes one, and so will
those of the entries that are not marked. -/
def Marking.left (heap : Heap) (m : Marking) : Nat :=
  m.work.length + heap.unmarked m.marked heap.entries.size

/-- Every round leaves one round less. -/
theorem Round.left {m m' : Marking} (h : heap.Round m m') : m'.left heap + 1 = m.left heap := by
  cases h with
  | mark htake hm ho hput =>
    rename_i k o
    have hentry := get?_eq_some.1 ho
    have hlt := (Array.getElem?_eq_some_iff.1 hentry).1
    have hat : heap.handlesAt k.index = o.handles.length := by rw [handlesAt, hentry]; rfl
    have hcount := heap.unmarked_mark hm heap.entries.size
    rw [if_pos hlt, hat] at hcount
    simp only [Marking.left, htake.length_eq, hput.length_eq, ← hcount, List.length_cons,
      List.length_append]
    omega
  | skip htake =>
    simp only [Marking.left, htake.length_eq, List.length_cons]
    omega

/-- **Marking terminates**, in whichever order it takes the handles. -/
theorem wellFounded_round (heap : Heap) : WellFounded fun m' m => heap.Round m m' :=
  Subrelation.wf (fun h => Nat.lt_of_lt_of_eq (Nat.lt_succ_self _) (Round.left h))
    (measure (Marking.left heap)).wf

/-- With enough fuel, marking goes on until there is no work. -/
theorem markFrom_rounds {fuel : Nat} {work : List Handle} {marked : Array Bool}
    (hfuel : Marking.left heap ⟨work, marked⟩ ≤ fuel) :
    heap.Rounds ⟨work, marked⟩ ⟨[], heap.markFrom fuel work marked⟩ := by
  induction fuel generalizing work marked with
  | zero =>
    have hwork : work.length ≤ 0 := Nat.le_trans (Nat.le_add_right _ _) hfuel
    obtain rfl : work = [] := List.eq_nil_of_length_eq_zero (by omega)
    exact .refl
  | succ fuel ih =>
    cases work with
    | nil => exact .refl
    | cons h work =>
      rw [markFrom]
      split
      · rename_i o hm ho
        have hround : heap.Round ⟨h :: work, marked⟩
            ⟨o.handles ++ work, marked.setIfInBounds h.index true⟩ :=
          .mark (.refl _) hm ho (.refl _)
        have hleft := hround.left
        exact .head hround (ih (by omega))
      · rename_i hno
        have hround : heap.Round ⟨h :: work, marked⟩ ⟨work, marked⟩ :=
          .skip (.refl _) fun hm => Option.eq_none_iff_forall_ne_some.2 fun o ho => hno o hm ho
        have hleft := hround.left
        exact .head hround (ih (by omega))

/-- The marks are where the rounds end. -/
theorem rounds_marks (heap : Heap) (roots : List Value) :
    heap.Rounds (.start heap roots) ⟨[], heap.marks roots⟩ :=
  markFrom_rounds (Nat.le_of_eq (by rw [Marking.left, handleCount_eq]))

/-! ### What is marked -/

/-- The entry of a handle is marked, if the handle has an object. -/
def IsMarked (heap : Heap) (marked : Array Bool) (h : Handle) : Prop :=
  ∀ o, heap.get? h = some o → marked[h.index]? = some true

theorem getElem?_mark {marked : Array Bool} {i : Nat} (hi : marked[i]? = some false) (j : Nat) :
    (marked.setIfInBounds i true)[j]? = some true ↔ j = i ∨ marked[j]? = some true := by
  have hlt := (Array.getElem?_eq_some_iff.1 hi).1
  by_cases hij : i = j
  · subst hij
    rw [Array.getElem?_setIfInBounds_self_of_lt hlt]
    exact iff_of_true rfl (.inl rfl)
  · rw [Array.getElem?_setIfInBounds_ne hij]
    exact ⟨.inr, fun h => h.resolve_left (Ne.symm hij)⟩

/-- The invariant of marking. What is marked or on the work list can be reached, and a handle that
was given or is in a marked object is marked in turn, or still on the list. -/
structure Marking.Explores (heap : Heap) (given : List Handle) (m : Marking) : Prop where
  size : m.marked.size = heap.entries.size
  work : ∀ h ∈ m.work, heap.Reaches given h
  marked : ∀ i : Nat, m.marked[i]? = some true →
    ∃ h o, h.index = i ∧ heap.get? h = some o ∧ heap.Reaches given h
  given : ∀ h ∈ given, h ∈ m.work ∨ heap.IsMarked m.marked h
  fields : ∀ h o, heap.get? h = some o → m.marked[h.index]? = some true →
    ∀ k ∈ o.handles, k ∈ m.work ∨ heap.IsMarked m.marked k

namespace Marking

variable {given : List Handle} {m m' : Marking}

theorem explores_start (heap : Heap) (roots : List Value) :
    (start heap roots).Explores heap (roots.filterMap Value.asObject?) := by
  have hnot : ∀ i : Nat, ¬(start heap roots).marked[i]? = some true := by
    intro i hi
    rw [start, Array.getElem?_replicate] at hi
    split at hi <;> cases hi
  exact ⟨Array.size_replicate, fun _ => .start, fun i hi => absurd hi (hnot i), fun _ => .inl,
    fun h _ _ hm => absurd hm (hnot h.index)⟩

/-- A round keeps the invariant: the handle it takes off the list is marked after it, or has no
object. -/
theorem Explores.round (hm : m.Explores heap given) (h : heap.Round m m') :
    m'.Explores heap given := by
  cases h with
  | mark htake hfalse ho hput =>
    rename_i work work' rest marked k o
    have hmark := getElem?_mark hfalse
    have hself : heap.IsMarked (marked.setIfInBounds k.index true) k := fun _ _ =>
      (hmark _).2 (.inl rfl)
    -- What was still to be done before the round is done by it or is still to be done.
    have hkept : ∀ c, c ∈ work ∨ heap.IsMarked marked c →
        c ∈ work' ∨ heap.IsMarked (marked.setIfInBounds k.index true) c := by
      rintro c (hc | hc)
      · rcases List.mem_cons.1 (htake.mem_iff.1 hc) with rfl | hc
        · exact .inr hself
        · exact .inl (hput.mem_iff.2 (List.mem_append_right _ hc))
      · exact .inr fun o' ho' => (hmark _).2 (.inr (hc o' ho'))
    have hreach := hm.work k (htake.mem_iff.2 List.mem_cons_self)
    refine ⟨?_, fun c hc => ?_, fun i hi => ?_, fun c hc => hkept c (hm.given c hc), ?_⟩
    · rw [Array.size_setIfInBounds]
      exact hm.size
    · rcases List.mem_append.1 (hput.mem_iff.1 hc) with hc | hc
      · exact hreach.field ho hc
      · exact hm.work c (htake.mem_iff.2 (List.mem_cons_of_mem _ hc))
    · rcases (hmark i).1 hi with rfl | hi
      · exact ⟨k, o, rfl, ho, hreach⟩
      · exact hm.marked i hi
    · intro h o' ho' hm' c hc
      rcases (hmark _).1 hm' with hindex | hm'
      · obtain rfl := eq_of_index_eq ho' ho hindex
        obtain rfl := Option.some.inj (ho.symm.trans ho')
        exact .inl (hput.mem_iff.2 (List.mem_append_left _ hc))
      · exact hkept c (hm.fields h o' ho' hm' c hc)
  | skip htake hno =>
    rename_i work work' marked k
    have hself : heap.IsMarked marked k := by
      intro o ho
      have hlt : k.index < marked.size :=
        hm.size ▸ (Array.getElem?_eq_some_iff.1 (get?_eq_some.1 ho)).1
      rw [Array.getElem?_eq_getElem hlt] at hno ⊢
      cases hb : marked[k.index] with
      | true => rfl
      | false =>
        rw [hno (congrArg some hb)] at ho
        cases ho
    have hkept : ∀ c, c ∈ work ∨ heap.IsMarked marked c → c ∈ work' ∨ heap.IsMarked marked c := by
      rintro c (hc | hc)
      · rcases List.mem_cons.1 (htake.mem_iff.1 hc) with rfl | hc
        · exact .inr hself
        · exact .inl hc
      · exact .inr hc
    exact ⟨hm.size, fun c hc => hm.work c (htake.mem_iff.2 (List.mem_cons_of_mem _ hc)), hm.marked,
      fun c hc => hkept c (hm.given c hc),
      fun h o ho hmark c hc => hkept c (hm.fields h o ho hmark c hc)⟩

theorem Explores.rounds (hm : m.Explores heap given) (h : heap.Rounds m m') :
    m'.Explores heap given := by
  induction h with
  | refl => exact hm
  | tail _ hround ih => exact ih.round hround

/-- When the work is done, everything that can be reached is marked. -/
theorem Explores.isMarked (hm : m.Explores heap given) (hdone : m.work = []) {h : Handle}
    (hr : heap.Reaches given h) : heap.IsMarked m.marked h := by
  have hnot : ∀ c, c ∉ m.work := fun c => hdone ▸ List.not_mem_nil
  induction hr with
  | start hmem => exact (hm.given _ hmem).resolve_left (hnot _)
  | field _ ho hk ih => exact (hm.fields _ _ ho (ih _ ho) _ hk).resolve_left (hnot _)

/-- An object whose entry is marked can be reached. -/
theorem Explores.reaches (hm : m.Explores heap given) {h : Handle} {o : Object}
    (ho : heap.get? h = some o) (hmark : m.marked[h.index]? = some true) :
    heap.Reaches given h := by
  obtain ⟨k, o', hindex, ho', hr⟩ := hm.marked _ hmark
  exact eq_of_index_eq ho' ho hindex ▸ hr

/-- What is marked in the end is settled by the handles that can be reached. -/
theorem Explores.marked_eq {given' : List Handle} (hm : m.Explores heap given)
    (hm' : m'.Explores heap given') (hdone : m.work = []) (hdone' : m'.work = [])
    (hsame : ∀ h, heap.Reaches given h ↔ heap.Reaches given' h) : m.marked = m'.marked := by
  have htrue : ∀ i : Nat, m.marked[i]? = some true ↔ m'.marked[i]? = some true := by
    intro i
    constructor
    · intro hi
      obtain ⟨h, o, rfl, ho, hr⟩ := hm.marked i hi
      exact hm'.isMarked hdone' ((hsame h).1 hr) o ho
    · intro hi
      obtain ⟨h, o, rfl, ho, hr⟩ := hm'.marked i hi
      exact hm.isMarked hdone ((hsame h).2 hr) o ho
  refine Array.ext (hm.size.trans hm'.size.symm) fun i hi hi' => ?_
  have hat := htrue i
  rw [Array.getElem?_eq_getElem hi, Array.getElem?_eq_getElem hi'] at hat
  exact Bool.eq_iff_iff.2 (by simpa only [Option.some.injEq] using hat)

end Marking

theorem explores_marks (heap : Heap) (roots : List Value) :
    Marking.Explores heap (roots.filterMap Value.asObject?) ⟨[], heap.marks roots⟩ :=
  (Marking.explores_start heap roots).rounds (heap.rounds_marks roots)

/-- **Marking is complete**: all that can be reached from the roots is marked. -/
theorem marks_of_reaches {roots : List Value} {h : Handle}
    (hr : heap.Reaches (roots.filterMap Value.asObject?) h) :
    heap.IsMarked (heap.marks roots) h :=
  (heap.explores_marks roots).isMarked rfl hr

/-- **Marking is sound**: an object whose entry is marked can be reached from the roots. -/
theorem reaches_of_marks {roots : List Value} {h : Handle} {o : Object}
    (ho : heap.get? h = some o) (hm : (heap.marks roots)[h.index]? = some true) :
    heap.Reaches (roots.filterMap Value.asObject?) h :=
  (heap.explores_marks roots).reaches ho hm

/-- Every entry is marked or not. -/
theorem size_marks (heap : Heap) (roots : List Value) :
    (heap.marks roots).size = heap.entries.size :=
  (heap.explores_marks roots).size

/-! ### Collection -/

theorem foldl_vacate {is : List Nat} (hn : is.Nodup) (es : Array Entry) (i : Nat) :
    (is.foldl (fun es i => es.modify i Entry.vacated) es)[i]? =
      if i ∈ is then es[i]?.map Entry.vacated else es[i]? := by
  induction is generalizing es with
  | nil => rfl
  | cons j is ih =>
    obtain ⟨hj, hn⟩ := List.nodup_cons.1 hn
    rw [List.foldl_cons, ih hn, Array.getElem?_modify]
    by_cases hij : i = j
    · subst hij
      simp [hj]
    · simp [hij, Ne.symm hij]

theorem nodup_garbage (heap : Heap) (roots : List Value) : (heap.garbage roots).Nodup :=
  List.nodup_range.filter _

theorem mem_garbage {roots : List Value} {i : Nat} : i ∈ heap.garbage roots ↔
    (∃ g o, heap.entries[i]? = some ⟨g, some o⟩) ∧ (heap.marks roots)[i]? = some false := by
  rw [garbage, List.mem_filter, List.mem_range, Bool.and_eq_true, beq_iff_eq, Option.any_eq_true]
  constructor
  · rintro ⟨-, ⟨⟨g, o⟩, he, hlive⟩, hm⟩
    obtain ⟨o, rfl⟩ := Option.isSome_iff_exists.1 hlive
    exact ⟨⟨g, o, he⟩, hm⟩
  · rintro ⟨⟨g, o, he⟩, hm⟩
    exact ⟨(Array.getElem?_eq_some_iff.1 he).1, ⟨_, he, rfl⟩, hm⟩

/-- What the entries are after a collection. -/
theorem collect_entries (heap : Heap) (roots : List Value) (i : Nat) :
    (heap.collect roots).1.entries[i]? =
      if i ∈ heap.garbage roots then heap.entries[i]?.map Entry.vacated else heap.entries[i]? :=
  foldl_vacate (heap.nodup_garbage roots) heap.entries i

/-- **What can be reached is kept** by a collection. -/
theorem get?_collect {roots : List Value} {h : Handle} {o : Object}
    (hr : heap.Reaches (roots.filterMap Value.asObject?) h) (ho : heap.get? h = some o) :
    (heap.collect roots).1.get? h = some o := by
  have hmarked := marks_of_reaches hr o ho
  have hnot : h.index ∉ heap.garbage roots := by
    intro hmem
    rw [(mem_garbage.1 hmem).2] at hmarked
    cases hmarked
  rw [get?_eq_some, collect_entries, if_neg hnot]
  exact get?_eq_some.1 ho

/-- **What a collection leaves** are the objects that can be reached from the roots. -/
theorem get?_collect_iff {roots : List Value} {h : Handle} {o : Object} :
    (heap.collect roots).1.get? h = some o ↔
      heap.get? h = some o ∧ heap.Reaches (roots.filterMap Value.asObject?) h := by
  refine ⟨fun hget => ?_, fun ⟨ho, hr⟩ => get?_collect hr ho⟩
  have hentry := get?_eq_some.1 hget
  rw [collect_entries] at hentry
  split at hentry
  · obtain ⟨e, -, he⟩ := Option.map_eq_some_iff.1 hentry
    cases congrArg Entry.object he
  · rename_i hnot
    have ho := get?_eq_some.2 hentry
    have hlt : h.index < (heap.marks roots).size :=
      heap.size_marks roots ▸ (Array.getElem?_eq_some_iff.1 hentry).1
    refine ⟨ho, reaches_of_marks ho ?_⟩
    cases hm : (heap.marks roots)[h.index] with
    | true => rw [Array.getElem?_eq_getElem hlt, hm]
    | false =>
      refine absurd (mem_garbage.2 ⟨⟨_, _, hentry⟩, ?_⟩) hnot
      rw [Array.getElem?_eq_getElem hlt, hm]

/-- A collection leaves a valid heap. -/
theorem Valid.collect (h : heap.Valid) (roots : List Value) : (heap.collect roots).1.Valid := by
  have hfree : (heap.collect roots).1.free = (heap.garbage roots).reverse ++ heap.free := rfl
  refine ⟨?_, fun i => ?_⟩
  -- An entry that is vacated had an object, so it was not free.
  · rw [hfree, List.nodup_append]
    refine ⟨List.pairwise_reverse.2 ((heap.nodup_garbage roots).imp Ne.symm), h.nodup, ?_⟩
    rintro i hi j hj rfl
    obtain ⟨⟨g, o, he⟩, -⟩ := mem_garbage.1 (List.mem_reverse.1 hi)
    obtain ⟨g', he'⟩ := (h.mem_free i).1 hj
    rw [he] at he'
    cases he'
  · rw [hfree, List.mem_append, List.mem_reverse, collect_entries]
    by_cases hi : i ∈ heap.garbage roots
    · rw [if_pos hi]
      obtain ⟨⟨g, o, he⟩, -⟩ := mem_garbage.1 hi
      exact ⟨fun _ => ⟨g + 1, by rw [he]; rfl⟩, fun _ => .inl hi⟩
    · rw [if_neg hi, ← h.mem_free i]
      exact ⟨fun hmem => hmem.resolve_left hi, .inr⟩

end Heap

end TreeMachine
