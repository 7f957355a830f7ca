import TreeMachine.Proofs.Iteration.Schedules
import TreeMachine.Proofs.Linking.Forest
import TreeMachine.Proofs.Linking.Uses

/-!
# Bodies of closures are not run

The body of a closure lies apart from those of functions and modules
(`Program.LedOnce.begins_closure`), and activations run only the latter. So no activation is at a
statement of a closure or inside one, and since an expression belongs to one statement only, none
evaluates an expression of a closure either (`Context.Becomes.outsideClosures`).

This is a statement about what is linked and never run. The statements of a closure have places in
the tables like all others, with successors, parents and labels of their own, and nothing in the
step function keeps an activation away from them: a closure is refused when it is evaluated, before
anybody could call it. The proof does not go through the step function. It takes from the structure
of the program that the first statement of a closure begins a body, that bodies lie apart, and from
the runs that an activation stays in the body that it began with.
-/

namespace TreeMachine

/-- A place in the body of a closure: a statement of the body, or an expression that belongs to such
a statement. -/
inductive Program.InClosure (p : Program) : Place → Prop
  | stmt {e : ExprId} {params : List VarId} {first i : StmtId}
      (h : p.expr? e = some (.closure params (some first))) (hi : p.InBody first i) :
      InClosure p (.stmt i)
  | expr {c : ExprId} {i : StmtId} (hi : InClosure p (.stmt i)) (hc : p.BelongsTo c i) :
      InClosure p (.expr c)

namespace Program

variable {p : Program}

/-- **The body of a closure** is recorded by the closure, and not by a function or a module. -/
theorem LedOnce.begins_closure (h : p.LedOnce) {e : ExprId} {params : List VarId} {first : StmtId}
    (hx : p.expr? e = some (.closure params (some first))) :
    p.Begins first ∧ first ∉ p.outerFirsts := by
  have hclosure : first ∈ p.exprs.toList.flatMap Expr.firsts := by
    have hmem := Array.mem_toList_iff.2 (Array.mem_of_getElem? hx)
    exact List.mem_flatMap.2 ⟨_, hmem, List.mem_singleton_self first⟩
  have hbody : first ∈ p.bodyFirsts := List.mem_append_left _ hclosure
  have hfirst : first ∈ p.firsts := List.mem_append_right _ hbody
  obtain ⟨-, hbodies, hchildren⟩ := List.nodup_append.1 h.firsts_nodup
  obtain ⟨-, -, hapart⟩ := List.nodup_append.1 hbodies
  refine ⟨⟨stmt?_isSome.2 (h.index_lt hfirst), ?_⟩, fun hmem => hapart _ hclosure _ hmem rfl⟩
  rintro u ⟨s, hs, hnext | hchild⟩
  · exact h.notMem_firsts ⟨s, hs, hnext⟩ hfirst
  · have hmem := Array.mem_toList_iff.2 (Array.mem_of_getElem? hs)
    exact hchildren _ (List.mem_flatMap.2 ⟨s, hmem, hchild⟩) _ hbody rfl

/-- A body that a function or a module records has no statement of a closure. -/
theorem LedOnce.not_inClosure (h : p.LedOnce) (hapart : p.Apart) {c i : StmtId} (hc : p.Begins c)
    (hmem : c ∈ p.outerFirsts) (hi : p.InBody c i) : ¬p.InClosure (.stmt i) := by
  intro hin
  cases hin with
  | stmt hx hi' =>
    obtain ⟨hbegins, hnot⟩ := h.begins_closure hx
    exact hnot (hapart.begin_unique hc hbegins hi hi' ▸ hmem)

end Program

/-- The bodies that activations run are recorded by functions and modules. -/
theorem Context.Starts.bodyOf {p : Program} {outer : Option StmtId} {c : Context}
    (h : c.Starts p outer) (hapart : p.Apart) {fn : Option FnId} {first : StmtId}
    (hfirst : p.bodyOf outer fn = some first) : p.Begins first ∧ first ∈ p.outerFirsts := by
  cases fn with
  | some id =>
    obtain ⟨f, hf, hbody⟩ := Option.bind_eq_some_iff.1 hfirst
    have hmem := Array.mem_toList_iff.2 (Array.mem_of_getElem? hf)
    refine ⟨hapart.functions id f first hf hbody, List.mem_append_left _ ?_⟩
    exact List.mem_flatMap.2 ⟨f, hmem, Option.mem_toList.2 hbody⟩
  | none =>
    cases h with
    | @forModule m hm =>
      refine ⟨hapart.modules m hm first hfirst, List.mem_append_right _ ?_⟩
      exact List.mem_flatMap.2 ⟨m, Array.mem_toList_iff.2 hm, Option.mem_toList.2 hfirst⟩
    | startEntry => cases hfirst

/-- **An activation is outside the closures**: the node that it is at, the statements that wait, and
the expressions that are being evaluated are not in the body of a closure. -/
structure Frame.OutsideClosures (p : Program) (f : Frame) : Prop where
  cursor : ¬p.InClosure f.cursor
  stmt : ∀ i, f.stmt = some i → ¬p.InClosure (.stmt i)
  waiting : ∀ i ∈ f.waiting, ¬p.InClosure (.stmt i)
  exprs : ∀ e ∈ f.exprs, ¬p.InClosure (.expr e)

/-- An activation that stays in a region outside the closures is outside the closures. -/
theorem Frame.Mirrors.outsideClosures {p : Program} {B : Option FnId → StmtId → Prop} {f : Frame}
    (h : f.Mirrors p B) (hB : p.Regions B) (hf : f.Focused p)
    (huses : p.UsesOnce 0 0 p.stmts.size p.exprs.size [])
    (hout : ∀ fn i, B fn i → ¬p.InClosure (.stmt i)) : f.OutsideClosures p := by
  have hstmt : ∀ i, f.stmt = some i → ¬p.InClosure (.stmt i) := by
    intro i hi
    cases h with
    | nowhere hnone => cases hnone.symm.trans hi
    | «at» h _ =>
      cases h.stmt.symm.trans hi
      exact hout _ _ h.body
  have hwaiting : ∀ i ∈ f.waiting, ¬p.InClosure (.stmt i) := by
    intro i hi
    cases h with
    | nowhere _ hnil =>
      rw [hnil] at hi
      cases hi
    | «at» h _ => exact hout _ _ (h.chain.forall_waiting h.found (hB.closed _) h.body i hi)
  have hexprs : ∀ e ∈ f.exprs, ¬p.InClosure (.expr e) := by
    intro e he hin
    obtain ⟨i, s, r, hi, hs, hr, hre⟩ := hf.own e he
    cases hin with
    | expr hin hbelongs =>
      obtain rfl := Program.BelongsTo.unique huses ⟨s, hs, r, hr, hre⟩ hbelongs
      exact hstmt i hi hin
  refine ⟨?_, hstmt, hwaiting, hexprs⟩
  unfold Frame.cursor
  cases he : f.expr with
  | some e => exact hexprs e (mem_exprs.2 (.inl he))
  | none =>
    cases hi : f.stmt with
    | some i => exact hstmt i hi
    | none => exact nofun

/-- **No activation is in the body of a closure.** -/
theorem Context.Becomes.outsideClosures {d : Source.Program} {p : Program}
    (hlink : Program.link d = .ok p) {outer : Option StmtId} {c₀ c : Context}
    (hc : c₀.Becomes p c) (hstart : c₀.Starts p outer) :
    ∀ f ∈ c.frames, f.OutsideClosures p := by
  have hp := Program.wellFormed_of_link hlink
  have hapart := Program.apart_of_link hlink
  obtain ⟨-, -, hled, -⟩ := Program.whole_of_link hlink
  obtain ⟨hregions, hmirrors⟩ := hstart.mirrors hp hapart
  intro f hf
  refine (hmirrors.becomes hp hregions hc f hf).outsideClosures hregions
    (hc.focused hstart.focused f hf) (Program.usesOnce_of_link hlink) ?_
  rintro fn i ⟨first, hfirst, hi⟩
  obtain ⟨hbegins, hmem⟩ := hstart.bodyOf hapart hfirst
  exact hled.not_inClosure hapart hbegins hmem hi

end TreeMachine
