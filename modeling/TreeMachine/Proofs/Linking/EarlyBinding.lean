import TreeMachine.Proofs.Linking.Acceptance
import TreeMachine.Proofs.Linking.Outlines

/-!
# References are bound as names are resolved

A reference to a function is bound while some of the functions, scopes and modules of the program
are still to come. In the linked program it is bound to what its name is resolved to in the scope of
its statement (`Program.resolve_of_refersTo`). The other way round, what a name is resolved to in
the scope of a statement is what a reference of that name would have been bound to if it had been
written there (`Program.resolve_iff_refersTo`), and if the name cannot be resolved, then linking
would have failed, with as many candidates (`Program.resolve_iff_unresolved`).

That early and late binding agree comes down to one fact: the functions that are visible in a scope
are fixed before any body inside the scope is linked. All functions of a scope are declared at once,
and later scopes are inside or beside it. So the list of candidates that the linker has looked at is
the one that is found in the complete tables, whatever has been added in between.

For the converse a reference has to be written somewhere, and there may be no statement in which to
write it: a label or a jump has no expressions. The hypothesis is therefore that some definition
differs from the given one by such a reference (`Source.Program.Writes`), and this exists for every
statement that can make a call. The changed definition is linked separately; what makes the two
comparable is that scopes and functions depend on outlines only.
-/

namespace TreeMachine.Program

variable {d d' : Source.Program} {p p' : Program} {i : Nat} {t : Stmt} {name : String}

/-! ### Resolving a name -/

/-- A name is resolved to the only function of the name that is visible, if there is only one. -/
theorem resolve_eq_ok {scope : ScopeId} {f : FnId} :
    p.resolve scope name = .ok f ↔ p.visible scope name = [f] := by
  unfold resolve
  split
  · rename_i g hg
    rw [hg, Except.ok.injEq, List.singleton_inj]
  · rename_i hne
    exact iff_of_false (by rintro ⟨⟩) (hne f)

/-- A name is not resolved if another number of functions of the name is visible. -/
theorem resolve_eq_error {scope : ScopeId} {k : Nat} :
    p.resolve scope name = .error (.unresolved name k) ↔
      (p.visible scope name).length = k ∧ k ≠ 1 := by
  unfold resolve
  split
  · rename_i g hg
    rw [hg, List.length_singleton]
    exact iff_of_false (by rintro ⟨⟩) fun h => h.2 h.1.symm
  · rename_i hne
    rw [Except.error.injEq, Complaint.unresolved.injEq, eq_self, true_and]
    refine ⟨fun h => ⟨h, fun hk => ?_⟩, And.left⟩
    obtain ⟨f, hf⟩ := List.length_eq_one_iff.1 (h.trans hk)
    exact hne f hf

/-! ### Results of linking -/

/-- A definition is linked if nothing is wrong with it. -/
theorem exists_link_iff (d : Source.Program) : (∃ p, link d = .ok p) ↔ d.error? = none := by
  have hends := ends_program d
  cases herror : d.error? with
  | none =>
    rw [herror] at hends
    obtain ⟨_, l, hl⟩ := hends
    have hrun : (Link.program d).run ⟨base, [], [], []⟩ = .ok ((), l) := hl
    refine iff_of_true ⟨l.program, ?_⟩ rfl
    rw [link, hrun]
    rfl
  | some e =>
    rw [herror] at hends
    have hrun : (Link.program d).run ⟨base, [], [], []⟩ = .error e := hends
    refine iff_of_false ?_ (Option.some_ne_none e)
    rintro ⟨p, hp⟩
    rw [link, hrun] at hp
    cases hp

/-- Linking fails with what is wrong with the definition. -/
theorem link_eq_error {e : LinkError} : link d = .error e ↔ d.error? = some e := by
  have hends := ends_program d
  cases herror : d.error? with
  | none =>
    obtain ⟨p, hp⟩ := (exists_link_iff d).2 herror
    rw [hp]
    exact ⟨nofun, nofun⟩
  | some e' =>
    rw [herror] at hends
    have hrun : (Link.program d).run ⟨base, [], [], []⟩ = .error e' := hends
    rw [link, hrun, Option.some.injEq]
    exact Except.error.injEq e' e ▸ Iff.rfl

/-! ### Early binding -/

/-- **A reference is bound** to what its name is resolved to in the scope of its statement. -/
theorem resolve_of_refersTo (h : link d = .ok p) (ht : p.stmt? ⟨i⟩ = some t) {f : FnId}
    (hf : p.RefersTo ⟨i⟩ f) : ∃ g, p.function? f = some g ∧ p.resolve t.scope g.name = .ok f := by
  have hbinds : p.BindsStmt i t (∃ d', d.Writes "" i d') := binds_of_link h ht
  obtain ⟨name, hvisible⟩ := hbinds.refers f hf
  obtain ⟨g, hg, rfl⟩ := Link.exists_of_mem_visible (hvisible ▸ List.mem_singleton_self f)
  exact ⟨g, hg, resolve_eq_ok.2 hvisible⟩

/-- A reference that is written into a statement is bound to what its name is resolved to in the
scope that the statement has without it. -/
theorem resolve_of_written (h : link d = .ok p) (ht : p.stmt? ⟨i⟩ = some t)
    (hw : d.Writes name i d') (h' : link d' = .ok p') {f : FnId} (hf : p'.RefersTo ⟨i⟩ f)
    (hname : p'.functionName f = name) : p.resolve t.scope name = .ok f := by
  have hpar := parallel_of_link hw.modules.outline_eq h h'
  obtain ⟨t', ht', hrefers⟩ := hf
  have hscope : t'.scope = t.scope := by
    have hsame := hpar.stmt_scope ⟨i⟩
    rw [ht, ht'] at hsame
    exact Option.some.inj hsame
  obtain ⟨g, hg, hbound⟩ := resolve_of_refersTo h' ht' ⟨t', ht', hrefers⟩
  have hname : g.name = name := by rw [← hname, functionName, hg]
  rwa [resolve_eq_ok, hname, hscope, hpar.visible_eq, ← resolve_eq_ok] at hbound

/-- What a reference that is written into a statement relies on is that its name is resolved. -/
theorem error?_of_written (h : link d = .ok p) (ht : p.stmt? ⟨i⟩ = some t)
    (hw : d.Writes name i d') : d'.error? =
      if (p.visible t.scope name).length = 1 then none
      else some (.unresolvedFunction name (p.visible t.scope name).length) := by
  obtain ⟨visible, hshows, hgains⟩ := demands_of_link h ht hw
  rw [hw.error?_eq hgains ((exists_link_iff d).1 ⟨p, h⟩), hshows.visible_length]
  rfl

/-- **A name is resolved** in the scope of a statement to the function that a reference of the name
is bound to if it is written into the statement. -/
theorem resolve_iff_refersTo (h : link d = .ok p) (ht : p.stmt? ⟨i⟩ = some t)
    (hw : d.Writes name i d') (f : FnId) : p.resolve t.scope name = .ok f ↔
      ∃ p', link d' = .ok p' ∧ p'.RefersTo ⟨i⟩ f ∧ p'.functionName f = name := by
  refine ⟨fun hf => ?_, fun ⟨p', h', hrefers, hname⟩ => resolve_of_written h ht hw h' hrefers hname⟩
  have hvisible := resolve_eq_ok.1 hf
  obtain ⟨p', h'⟩ : ∃ p', link d' = .ok p' := by
    rw [exists_link_iff, error?_of_written h ht hw, hvisible]
    rfl
  obtain ⟨g, hname, hrefers⟩ := cites_of_link hw h'
  cases hf.symm.trans (resolve_of_written h ht hw h' hrefers hname)
  exact ⟨p', h', hrefers, hname⟩

/-- **A name is not resolved** in the scope of a statement if linking fails for a reference of the
name that is written into the statement. There are as many candidates in either case. -/
theorem resolve_iff_unresolved (h : link d = .ok p) (ht : p.stmt? ⟨i⟩ = some t)
    (hw : d.Writes name i d') (k : Nat) : p.resolve t.scope name = .error (.unresolved name k) ↔
      link d' = .error (.unresolvedFunction name k) := by
  rw [resolve_eq_error, link_eq_error, error?_of_written h ht hw]
  split
  · rename_i hone
    rw [hone]
    exact ⟨fun ⟨h, hk⟩ => absurd h.symm hk, nofun⟩
  · rename_i hne
    rw [Option.some.injEq, LinkError.unresolvedFunction.injEq, eq_self, true_and]
    exact ⟨And.left, fun h => ⟨h, h ▸ hne⟩⟩

end TreeMachine.Program
