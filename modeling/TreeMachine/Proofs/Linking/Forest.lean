import Mathlib.Logic.Relation
import TreeMachine.Proofs.Linking.Apart
import TreeMachine.Proofs.Linking.Trees

/-!
# Linked programs are the trees of their definitions

What linking has added from the base on is all of a program, so the successors and the recorded
first statements lead to each statement once (`Program.LedOnce`). With the well-formedness of the
tables, the statements fall into sequences: going back along successors, every statement has come
from one recorded first statement (`Program.LedOnce.existsUnique_first`). The main result is
`Program.isTreeOf_of_link`.

The counting is done elsewhere, from mark to mark; here its result for the whole program is turned
into statements about paths. Two facts are used. A statement that is led to as a successor is not
recorded as a first one, and no two statements have the same successor
(`Program.LedOnce.notMem_firsts`); and numbers grow along successors, so that following them ends
(`Program.WellFormed.exists_visits`). The statements of a sequence share their parent and their
scope (`Program.Visits.alike`), which therefore need to be known of the first one only.

The tables are compared with the definition by a relation that goes through both
(`Program.ModuleOf`). It fixes kinds, successors, parents, scopes and the names of jump targets, but
not the ids of nodes. So the result does not depend on the order in which the tables were written.
Where the ids do matter, as for the first statements that are recorded for the whole program, they
are compared as lists up to order.

Statements that are recorded nowhere, or that are in two sequences, do not occur in linked programs;
hand-made tables may have them, and for these nothing is claimed.
-/

namespace TreeMachine

open Source (Sequence)

namespace Program

variable {p : Program} {c i t u : StmtId} {ids : List StmtId}

/-! ### Following successors -/

/-- A statement is the successor of another one. -/
def Follows (p : Program) (u t : StmtId) : Prop :=
  ∃ s, p.stmt? u = some s ∧ s.next = some t

theorem Follows.leadsTo (h : p.Follows u t) : p.LeadsTo u t := by
  obtain ⟨s, hs, hnext⟩ := h
  exact ⟨s, hs, .inl hnext⟩

theorem Visits.mem_first (h : p.Visits (some c) ids) : c ∈ ids := by
  cases h with
  | cons _ _ => exact List.mem_cons_self

theorem Visits.mem_follows {o : Option StmtId} (h : p.Visits o ids) (hu : u ∈ ids)
    (hut : p.Follows u t) : t ∈ ids := by
  induction h with
  | nil => cases hu
  | cons hs hrest ih =>
    refine List.mem_cons_of_mem _ ?_
    rcases List.mem_cons.1 hu with rfl | hu
    · obtain ⟨s, hs', hnext⟩ := hut
      cases hs.symm.trans hs'
      rw [hnext] at hrest
      exact hrest.mem_first
    · exact ih hu

/-- What is visited is what is reached along successors. -/
theorem Visits.mem_iff (h : p.Visits (some c) ids) :
    i ∈ ids ↔ Relation.ReflTransGen p.Follows c i := by
  constructor
  · intro hi
    generalize ho : some c = o at h
    induction h generalizing c with
    | nil => cases hi
    | @cons j s ids hs hrest ih =>
      cases ho
      rcases List.mem_cons.1 hi with rfl | hi
      · exact .refl
      · cases hnext : s.next with
        | none =>
          rw [hnext] at hrest
          cases hrest
          cases hi
        | some t => exact (ih hi hnext.symm).head ⟨s, hs, hnext⟩
  · intro hi
    induction hi with
    | refl => exact h.mem_first
    | tail _ hut ih => exact h.mem_follows ih hut

/-- Successors come later, so following them ends. -/
theorem WellFormed.exists_visits (hp : p.WellFormed) (hi : i.index < p.stmts.size) :
    ∃ ids, p.Visits (some i) ids := by
  generalize hleft : p.stmts.size - i.index = left
  induction left using Nat.strongRecOn generalizing i with
  | ind left ih =>
    obtain ⟨s, hs⟩ := stmt?_isSome.2 hi
    cases hnext : s.next with
    | none => exact ⟨[i], .cons hs (hnext ▸ .nil)⟩
    | some t =>
      obtain ⟨hlt, s', hs', -⟩ := (hp.stmts i s hs).next t hnext
      have ht : t.index < p.stmts.size := stmt?_isSome.1 ⟨s', hs'⟩
      obtain ⟨ids, hids⟩ := ih (p.stmts.size - t.index) (by omega) ht rfl
      exact ⟨i :: ids, .cons hs (hnext ▸ hids)⟩

/-- The statements of a sequence have one parent and one scope, and if one is an arm, all are. They
come in the order of their numbers. -/
theorem Visits.alike (hp : p.WellFormed) {s : Stmt} (h : p.Visits (some c) ids)
    (hs : p.stmt? c = some s) (hi : i ∈ ids) :
    c.index ≤ i.index ∧ ∃ s', p.stmt? i = some s' ∧ s'.parent = s.parent ∧ s'.scope = s.scope ∧
      s'.kind.isArm = s.kind.isArm := by
  have hreach := h.mem_iff.1 hi
  clear hi
  induction hreach with
  | refl => exact ⟨Nat.le_refl _, s, hs, rfl, rfl, rfl⟩
  | tail _ hut ih =>
    obtain ⟨hle, s', hs', hparent, hscope, harm⟩ := ih
    obtain ⟨_, hu, hnext⟩ := hut
    cases hs'.symm.trans hu
    obtain ⟨hlt, s'', hs'', hparent', hscope', harm'⟩ := (hp.stmts _ _ hs').next _ hnext
    exact ⟨hle.trans hlt.le, s'', hs'', hparent'.trans hparent, hscope'.trans hscope,
      harm'.trans harm⟩

theorem Visits.nodup (hp : p.WellFormed) {o : Option StmtId} (h : p.Visits o ids) : ids.Nodup := by
  induction h with
  | nil => exact .nil
  | @cons j s ids hs hrest ih =>
    refine List.nodup_cons.2 ⟨fun hmem => ?_, ih⟩
    cases hnext : s.next with
    | none =>
      rw [hnext] at hrest
      cases hrest
      cases hmem
    | some t =>
      obtain ⟨hlt, s', hs', -⟩ := (hp.stmts j s hs).next t hnext
      rw [hnext] at hrest
      exact Nat.not_le.2 hlt (hrest.alike hp hs' hmem).1

/-! ### Every statement is led to once -/

/-- The successors in a program. -/
def nexts (p : Program) : List StmtId :=
  p.stmts.toList.flatMap fun s => s.next.toList

theorem mem_nexts : t ∈ p.nexts ↔ ∃ u, p.Follows u t := by
  simp only [nexts, List.mem_flatMap, Option.mem_toList]
  constructor
  · rintro ⟨s, hs, hnext⟩
    obtain ⟨n, hn⟩ := Array.getElem?_of_mem (Array.mem_toList_iff.1 hs)
    exact ⟨⟨n⟩, s, hn, hnext⟩
  · rintro ⟨u, s, hs, hnext⟩
    exact ⟨s, Array.mem_toList_iff.2 (Array.mem_of_getElem? hs), hnext⟩

/-- **Every statement is led to once**: as a successor, or as the recorded first statement of a
sequence. -/
def LedOnce (p : Program) : Prop :=
  ∀ c, p.nexts.count c + p.firsts.count c = between 0 p.stmts.size c

theorem between_zero (n : Nat) (c : StmtId) : between 0 n c = if c.index < n then 1 else 0 := by
  simp [between]

namespace LedOnce

theorem firsts_nodup (h : p.LedOnce) : p.firsts.Nodup := by
  refine List.nodup_iff_count_le_one.2 fun c => ?_
  have hc := h c
  rw [between_zero] at hc
  split at hc <;> omega

theorem index_lt (h : p.LedOnce) (hc : c ∈ p.firsts) : c.index < p.stmts.size := by
  have hcount := h c
  have hfirst := List.count_pos_iff.2 hc
  rw [between_zero] at hcount
  split at hcount
  · assumption
  · omega

theorem notMem_firsts (h : p.LedOnce) (hut : p.Follows u t) : t ∉ p.firsts := by
  intro hmem
  have ht := h t
  have hnext := List.count_pos_iff.2 (mem_nexts.2 ⟨u, hut⟩)
  have hfirst := List.count_pos_iff.2 hmem
  rw [between_zero] at ht
  split at ht <;> omega

theorem led (h : p.LedOnce) (hi : i.index < p.stmts.size) :
    i ∈ p.firsts ∨ ∃ u, p.Follows u i := by
  have hcount := h i
  rw [between_zero, if_pos hi] at hcount
  by_cases hmem : i ∈ p.firsts
  · exact .inl hmem
  · rw [List.count_eq_zero_of_not_mem hmem] at hcount
    exact .inr (mem_nexts.1 (List.count_pos_iff.1 (by omega)))

/-- A statement that begins a body is recorded as such. -/
theorem mem_bodyFirsts (h : p.LedOnce) (hc : p.Begins c) : c ∈ p.bodyFirsts := by
  obtain ⟨s, hs⟩ := hc.found
  rcases h.led (stmt?_isSome.1 ⟨s, hs⟩) with hmem | ⟨u, hu⟩
  · refine (List.mem_append.1 hmem).resolve_left fun hchild => ?_
    obtain ⟨s', hs', hchild⟩ := List.mem_flatMap.1 hchild
    obtain ⟨n, hn⟩ := Array.getElem?_of_mem (Array.mem_toList_iff.1 hs')
    exact hc.free ⟨n⟩ ⟨s', hn, .inr hchild⟩
  · exact absurd hu.leadsTo (hc.free u)

/-- There is only one way back along successors. -/
theorem first_unique (h : p.LedOnce) (hapart : p.Apart) {c' : StmtId} (hc : c ∈ p.firsts)
    (hc' : c' ∈ p.firsts) (hi : Relation.ReflTransGen p.Follows c i)
    (hi' : Relation.ReflTransGen p.Follows c' i) : c = c' := by
  induction hi with
  | refl =>
    cases hi' with
    | refl => rfl
    | tail _ hut => exact absurd hc (h.notMem_firsts hut)
  | tail _ hut ih =>
    cases hi' with
    | refl => exact absurd hc' (h.notMem_firsts hut)
    | tail hu' hut' =>
      obtain rfl := hapart.unique _ _ _ hut.leadsTo hut'.leadsTo
      exact ih hu'

/-- **Every statement belongs to one sequence**: going back along successors ends at a recorded
first statement. -/
theorem existsUnique_first (h : p.LedOnce) (hp : p.WellFormed) (hapart : p.Apart)
    (hi : i.index < p.stmts.size) :
    ∃! first, first ∈ p.firsts ∧ Relation.ReflTransGen p.Follows first i := by
  have hexists : ∃ first ∈ p.firsts, Relation.ReflTransGen p.Follows first i := by
    obtain ⟨i⟩ := i
    induction i using Nat.strongRecOn with
    | ind i ih =>
      rcases h.led hi with hmem | ⟨u, hu⟩
      · exact ⟨_, hmem, .refl⟩
      · obtain ⟨s, hs, hnext⟩ := hu
        obtain ⟨hlt, -⟩ := (hp.stmts u s hs).next _ hnext
        obtain ⟨first, hmem, hreach⟩ := ih u.index hlt (Nat.lt_trans hlt hi)
        exact ⟨first, hmem, hreach.tail ⟨s, hs, hnext⟩⟩
  obtain ⟨first, hmem, hreach⟩ := hexists
  exact ⟨first, ⟨hmem, hreach⟩, fun _ hfirst =>
    h.first_unique hapart hfirst.1 hmem hfirst.2 hreach⟩

end LedOnce

/-! ### The whole of a linked program -/

/-- Counting in lists that are joined goes item by item. -/
theorem count_flatMap_toList {α β : Type} [DecidableEq β] (f : α → List β) (b : β) (xs : Array α) :
    (xs.toList.flatMap f).count b =
      ∑ n ∈ Finset.Ico 0 xs.size, ((xs[n]?).elim [] f).count b := by
  obtain ⟨xs⟩ := xs
  rw [← Finset.range_eq_Ico]
  induction xs with
  | nil => rfl
  | cons x xs ih =>
    have hrest : (xs.flatMap f).count b =
        ∑ n ∈ Finset.range xs.length, ((xs[n]?).elim [] f).count b := by simpa using ih
    simp only [List.flatMap_cons, List.count_append, hrest, List.size_toArray, List.length_cons,
      List.getElem?_toArray]
    rw [Finset.sum_range_succ']
    exact Nat.add_comm _ _

theorem count_nexts (c : StmtId) : p.nexts.count c = p.nextsBetween 0 p.stmts.size c :=
  count_flatMap_toList _ c p.stmts

theorem count_firsts (c : StmtId) : p.firsts.count c =
    p.firstsBetween 0 0 p.stmts.size p.exprs.size c + p.outerFirsts.count c := by
  rw [firsts, bodyFirsts, List.count_append, List.count_append, count_flatMap_toList,
    count_flatMap_toList, ← Nat.add_assoc]
  rfl

theorem base_outerFirsts : base.outerFirsts = [] := by decide

/-- **A linked program is the whole of what its definition adds to the base.** -/
theorem whole_of_link {d : Source.Program} (h : link d = .ok p) :
    List.Forall₂ p.ModuleOf d.modules p.modules.toList ∧ base.KeepsScopes p ∧ p.LedOnce ∧
      ∃ firsts, List.Forall₂ (fun q first => ∃ parent scope, p.Holds parent scope q first)
        d.sequences firsts ∧ ∀ c, p.firsts.count c = firsts.count (some c) := by
  obtain ⟨hscopes, hplaced⟩ := placed_of_link h
  obtain ⟨ids, l, first, hids, -, rfl⟩ := gives_of_link h
  obtain ⟨-, needed, given, hadds, hsame⟩ := Link.mapM_module_adds hids rfl
  -- The entry function is noted down last, which leaves the tables alone.
  let p : Program := { l.program with entry := first }
  have hpersists : l.program.Persists p := .of_eq rfl rfl fun _ f hf => ⟨f.body, hf⟩
  have houter : ∀ c, p.outerFirsts.count c = needed c := by
    intro c
    have hgiven : p.outerFirsts.count c = base.outerFirsts.count c + given c := hadds.firsts c
    rw [hgiven, hsame, base_outerFirsts, List.count_nil, Nat.zero_add]
  obtain ⟨_, htally⟩ := hadds.tally p hpersists
  obtain ⟨firsts, hholds, hcount⟩ := htally.held
  refine ⟨modulesAt_of hplaced, hscopes, fun c => ?_, firsts, hholds, fun c => ?_⟩
  · show p.nexts.count c + p.firsts.count c = _
    rw [count_nexts, count_firsts, houter, ← Nat.add_assoc]
    exact htally.led c
  · show p.firsts.count c = _
    rw [count_firsts, houter]
    exact hcount c

/-! ### Ids, first statements and scopes -/

theorem BodyFits.index_lt {first : Option StmtId} (h : p.BodyFits first) (ht : t ∈ first) :
    t.index < p.stmts.size := by
  obtain ⟨s, hs, -⟩ := h t ht
  exact stmt?_isSome.1 ⟨s, hs⟩

theorem WellFormed.stmtLinks_lt (hp : p.WellFormed) {s : Stmt} (hs : p.stmt? i = some s)
    (ht : t ∈ stmtLinks s) : t.index < p.stmts.size := by
  have hfits := hp.stmts i s hs
  simp only [stmtLinks, List.mem_append, Option.mem_toList] at ht
  rcases ht with ((hnext | hparent) | hchild) | htarget
  · obtain ⟨-, s', hs', -⟩ := hfits.next t hnext
    exact stmt?_isSome.1 ⟨s', hs'⟩
  · exact Nat.lt_trans (hfits.parent t hparent) (stmt?_isSome.1 ⟨s, hs⟩)
  · obtain ⟨s', hs', -⟩ := hfits.children t hchild
    exact stmt?_isSome.1 ⟨s', hs'⟩
  · split at htarget
    · rename_i target hkind
      obtain rfl := List.mem_singleton.1 htarget
      obtain ⟨s', _, hs', -⟩ := hp.gotos i s t hs hkind
      exact stmt?_isSome.1 ⟨s', hs'⟩
    · cases htarget

theorem WellFormed.inRange (hp : p.WellFormed) : p.InRange where
  stmts i s hs := by
    have hfits := hp.stmts i s hs
    refine ⟨fun t ht => hp.stmtLinks_lt hs ht, fun e he => ?_, hfits.vars, hfits.scope⟩
    obtain ⟨x, hx⟩ := hfits.exprs e he
    exact expr?_isSome.1 ⟨x, hx⟩
  exprs e x hx := by
    have hfits := hp.exprs e x hx
    refine ⟨fun t ht => ?_, fun c hc => ?_, hfits.vars, hfits.function⟩
    · cases x with
      | closure params first =>
        exact (hfits.closure params first rfl).index_lt (Option.mem_toList.1 ht)
      | _ => cases ht
    · exact Nat.lt_trans (hfits.parts c hc) (expr?_isSome.1 ⟨x, hx⟩)
  functions id f hf := by
    have hfits := hp.functions id f hf
    refine ⟨fun t ht => ?_, hfits.params, hfits.scope⟩
    cases hbody : f.body with
    | code first =>
      rw [hbody] at ht
      exact (hfits.body first hbody).index_lt ht
    | primitive _ =>
      rw [hbody] at ht
      cases ht
  scopes i s hs := by
    have hfits := hp.scopes i s hs
    exact ⟨fun q hq => Nat.lt_trans (hfits.parent q hq) (scope?_isSome.1 ⟨s, hs⟩),
      hfits.functions⟩
  modules m hm := by
    obtain ⟨hscope, hbody⟩ := hp.modules m hm
    exact ⟨fun t ht => hbody.index_lt ht, hscope⟩
  entry := hp.entry

theorem BodyFits.parent?_eq_none {first : Option StmtId} (h : p.BodyFits first) (ht : t ∈ first) :
    p.parent? t = none := by
  obtain ⟨s, hs, hparent, -⟩ := h t ht
  rw [parent?_eq hs, hparent]

/-- Nothing encloses the recorded first statement of a body. -/
theorem WellFormed.parent?_bodyFirsts (hp : p.WellFormed) (ht : t ∈ p.bodyFirsts) :
    p.parent? t = none := by
  rcases List.mem_append.1 ht with ht | ht
  · obtain ⟨x, hx, ht⟩ := List.mem_flatMap.1 ht
    obtain ⟨n, hn⟩ := Array.getElem?_of_mem (Array.mem_toList_iff.1 hx)
    cases x with
    | closure params first =>
      have hbody := (hp.exprs ⟨n⟩ _ hn).closure params first rfl
      exact hbody.parent?_eq_none (Option.mem_toList.1 ht)
    | _ => cases ht
  rcases List.mem_append.1 ht with ht | ht
  · obtain ⟨f, hf, ht⟩ := List.mem_flatMap.1 ht
    obtain ⟨n, hn⟩ := Array.getElem?_of_mem (Array.mem_toList_iff.1 hf)
    cases hbody : f.body with
    | code first =>
      rw [hbody] at ht
      exact ((hp.functions ⟨n⟩ f hn).body first hbody).parent?_eq_none (Option.mem_toList.1 ht)
    | primitive _ =>
      rw [hbody] at ht
      cases ht
  · obtain ⟨m, hm, ht⟩ := List.mem_flatMap.1 ht
    obtain ⟨-, hbody⟩ := hp.modules m (Array.mem_toList_iff.1 hm)
    exact hbody.parent?_eq_none (Option.mem_toList.1 ht)

/-- Scopes are inside others with smaller numbers, down to the one that there has been from the base
on. -/
theorem withinRoot (hp : p.WellFormed) (hscopes : base.KeepsScopes p) (i : ScopeId)
    (hi : i.index < p.scopes.size) : p.WithinRoot i := by
  obtain ⟨i⟩ := i
  induction i using Nat.strongRecOn with
  | ind i ih =>
    obtain ⟨s, hs⟩ := scope?_isSome.2 hi
    by_cases hzero : i = 0
    · subst hzero
      exact .root (hscopes.scopes rootScope _ rfl) rfl
    · have hnew := hscopes.inside ⟨i⟩ s (Nat.pos_of_ne_zero hzero) hs
      obtain ⟨q, hq⟩ := Option.ne_none_iff_exists'.1 hnew
      have hlt := (hp.scopes ⟨i⟩ s hs).parent q hq
      exact .inside hs hq (ih q.index hlt (Nat.lt_trans hlt hi))

/-! ### Trees -/

/-- **Linked programs are the trees of their definitions.** -/
theorem isTreeOf_of_link {d : Source.Program} (h : link d = .ok p) : p.IsTreeOf d := by
  have hp := wellFormed_of_link h
  have hapart := apart_of_link h
  obtain ⟨hmodules, hscopes, hled, firsts, hholds, hcount⟩ := whole_of_link h
  refine ⟨hp.inRange, hmodules, ⟨firsts, hholds, List.perm_iff_count.2 fun c => ?_⟩,
    hled.firsts_nodup, fun i hi => ?_, fun first hmem => ?_, fun i s hs first hchild => ?_,
    fun first hmem => hp.parent?_bodyFirsts hmem, fun i q hq => ?_,
    fun i s hs => (hp.stmts i s hs).arm, fun i s selector first ids hs hkind hvisits j hj => ?_,
    fun i s target hs hkind => ⟨hp.gotos i s target hs hkind, ?_⟩, withinRoot hp hscopes⟩
  · rw [hcount, List.count_filterMap]
    rfl
  · obtain ⟨first, ⟨hmem, hreach⟩, hunique⟩ := hled.existsUnique_first hp hapart hi
    obtain ⟨ids, hids⟩ := hp.exists_visits (hled.index_lt hmem)
    refine ⟨first, ⟨hmem, ids, hids, hids.mem_iff.2 hreach⟩, ?_⟩
    rintro first' ⟨hmem', ids', hids', hi'⟩
    exact hunique first' ⟨hmem', hids'.mem_iff.1 hi'⟩
  · have hlt := hled.index_lt hmem
    obtain ⟨ids, hids⟩ := hp.exists_visits hlt
    obtain ⟨s, hs⟩ := stmt?_isSome.2 hlt
    refine ⟨ids, s.parent, s.scope, hids, hids.nodup hp, fun i hi => ?_⟩
    obtain ⟨-, s', hs', hparent, hscope, -⟩ := hids.alike hp hs hi
    exact ⟨s', hs', hparent, hscope⟩
  · obtain ⟨s', hs', hparent, -⟩ := (hp.stmts i s hs).children first hchild
    rw [parent?_eq hs', hparent]
  · exact hp.lt_of_encloses (.direct hq)
  · have hfits := hp.stmts i s hs
    cases hvisits with
    | nil => cases hj
    | @cons c s' ids hs' hrest =>
      have hchild : c ∈ s.kind.children := by
        rw [hkind]
        exact List.mem_singleton_self c
      obtain ⟨_, hs'', -, -, harm⟩ := hfits.children c hchild
      obtain ⟨-, s₁, hs₁, -, -, harm₁⟩ := (Visits.cons hs' hrest).alike hp hs'' hj
      exact ⟨s₁, hs₁, by rw [harm₁, harm, hkind]; rfl⟩
  · obtain ⟨c, hc, hi, htarget⟩ := hapart.gotos i s target hs hkind
    exact ⟨c, hled.mem_bodyFirsts hc, hi, htarget⟩

/-- The first digit of a number, as a closure: a select inside a loop, a jump out of the loop, a
function inside another one, and a module with statements of its own. -/
def leading : Source.Program :=
  ⟨[⟨"digits", [.mk "main" ["n"]
    [.mk "rest" ["k"] [] [.return (some (.call (.function "/") [.var "k", .scalar (.int 10)]))]]
    [.expr (.declare "last"),
      .loop (.scalar (.bool true))
        [.select (.var "n")
          [.mk [.scalar (.int 0)] [.goto "done"],
            .mk [] [.expr (.assign "last" (.var "n")),
              .expr (.assign "n" (.call (.function "rest") [.var "n"]))]]] false,
      .label "done",
      .return (some (.closure [] [.return (some (.var "last"))]))]], [.block []]⟩], none⟩

theorem isTreeOf_of_link_leading :
    ∃ p, link leading = .ok p ∧ p.IsTreeOf leading ∧ p.firsts.length = 8 := by
  have hrun : ((link leading).toOption.map fun p => p.firsts.length) = some 8 := by decide +kernel
  obtain ⟨p, hp, hfirsts⟩ := Option.map_eq_some_iff.1 hrun
  cases hlink : link leading with
  | error e =>
    rw [hlink] at hp
    cases hp
  | ok q =>
    rw [hlink] at hp
    cases hp
    exact ⟨p, rfl, isTreeOf_of_link hlink, hfirsts⟩

end Program

end TreeMachine
