import TreeMachine.Proofs.Iteration.Schedules
import TreeMachine.Proofs.Linking.EarlyBinding

/-!
# Calls by name

A call by name resolves the name when it is made, in the scope of the statement that the calling
activation is at (`Context.step_namedCall`). This statement is the one whose expressions make the
call, however many activations there are below (`Frame.Works.caller`). So a call by name comes to
what a reference of the name would have been bound to if it had been written into the statement
(`Program.bindings_agree`).

A reference and a call are compared through the definition. To write a reference into a statement
gives another definition (`Source.Program.Writes`), which is linked on its own; it has the same
outline and so the same scopes and functions. That this definition is linked, with the reference
bound to some function, is equivalent to the name being resolved to that function in the scope of
the statement; and that it is rejected, with a number of candidates, to the name not being resolved
with as many. This is shown where linking is studied. What is left for here is to find the
statement: a call is made by an expression of the statement that the activation is at, which is
where the mirror of the tree comes in.

A name that is a message to an object of an iterable type is answered before it is resolved. Such
calls are not calls by name in the sense used here (`Context.namedCall?`).
-/

namespace TreeMachine

/-! ### The activation that calls -/

/-- **An activation that calls** is at a statement that has expressions. -/
theorem Frame.Works.caller {p : Program} {f : Frame} {w : Work} (hw : f.Works p w)
    (hf : f.Focused p) {n : Nat} (hcall : w.2 = .ok (.call n)) :
    ∃ i t, w.1.stmt = some i ∧ p.stmt? i = some t ∧ t.kind.exprs ≠ [] := by
  rcases hw.cases with ⟨e, x, hexpr, -, rfl⟩ | ⟨i, t, hexpr, hstmt, ht, rfl⟩
  · obtain ⟨hsame, -⟩ := sameStmt_expr (moves_expr p hexpr x)
    obtain ⟨i, t, r, hi, ht, hr, -⟩ := hf.own e (mem_exprs.2 (.inl hexpr))
    exact ⟨i, t, hsame.stmt.trans hi, ht, List.ne_nil_of_mem hr⟩
  · have hsame := (changes_stmt p hexpr i t).call n hcall
    exact ⟨i, t, hsame.trans hstmt, ht, fun hnil => noCall_of_exprs_nil p f i hnil n hcall⟩

/-! ### Calls by name -/

/-- A call by name that is about to be made: the activation that makes it, without the operands that
the call takes, the activations below, and the name and the arguments. -/
structure NamedCall where
  caller : Frame
  callers : List Frame
  name : String
  args : List Value

/-- What a step comes to that makes a call by name, given what the name is resolved to. -/
def NamedCall.make (p : Program) (c : Context) (k : NamedCall) (sink : Sink) :
    Except Complaint FnId → Effect Progress
  | .ok f =>
    let entered := (c.withTop k.caller k.callers).enter p k.caller.cursor f k.args sink
    ⟨entered.context, entered.sink, entered.result.map fun () => entered.context.progress⟩
  | .error e => ⟨c.withTop k.caller k.callers, sink, .error (.user k.caller.cursor e)⟩

namespace Context

/-- The call by name that a context is about to make, if it is not a message that the machine
answers itself. -/
def namedCall? (p : Program) (c : Context) : Option NamedCall :=
  match c.frames with
  | [] => none
  | f :: callers =>
    match f.pending? p with
    | some (.ok ⟨_, _, g, .ok (.call (n + 1))⟩) =>
      match g.operands.drop n with
      | .selector name :: rest =>
        let args := (g.operands.take n).reverse
        match p.answer? c.heap g.cursor name args with
        | none => some ⟨{ g with operands := rest }, callers, name, args⟩
        | some _ => none
      | _ => none
    | _ => none

variable {p : Program} {c : Context} {k : NamedCall}

/-- A unit of work demands a call by name. -/
structure Demands (p : Program) (c : Context) (k : NamedCall) (f g : Frame) (n : Nat) : Prop where
  frames : c.frames = f :: k.callers
  works : f.Works p (g, .ok (.call (n + 1)))
  operands : g.operands.drop n = .selector k.name :: k.caller.operands
  args : (g.operands.take n).reverse = k.args
  caller : k.caller = { g with operands := k.caller.operands }
  answer : p.answer? c.heap g.cursor k.name k.args = none

theorem demands_of_namedCall? (h : c.namedCall? p = some k) : ∃ f g n, c.Demands p k f g n := by
  unfold namedCall? at h
  split at h
  · cases h
  · rename_i f callers hframes
    split at h
    · rename_i kind stage g n hpending
      split at h
      · rename_i name rest hoperands
        dsimp only at h
        split at h
        · rename_i hanswer
          cases h
          exact ⟨f, g, n, hframes, ⟨_, hpending, rfl⟩, hoperands, rfl, rfl, hanswer⟩
        · cases h
      · cases h
    · cases h

/-- **A call by name is made** with what the name is resolved to in the scope of the statement that
the calling activation is at. -/
theorem step_namedCall (h : c.namedCall? p = some k) {i : StmtId} {t : Stmt}
    (hstmt : k.caller.stmt = some i) (ht : p.stmt? i = some t) {s : Conditions}
    (hs : s.TakesTrace) :
    ∃ sink, c.step p s.traceLevel s.sink = k.make p c sink (p.resolve t.scope k.name) := by
  obtain ⟨f, g, n, hdemands⟩ := demands_of_namedCall? h
  obtain ⟨sink, hstep⟩ := step_of_works hdemands.frames hdemands.works hs
  have hgstmt : g.stmt = some i := by
    rw [hdemands.caller] at hstmt
    exact hstmt
  have hscope : p.scopeOf? g.stmt g.scope = some t.scope := by
    rw [hgstmt, Program.scopeOf?, ht, Option.map_some]
  have hcursor : k.caller.cursor = g.cursor := by
    rw [hdemands.caller]
    rfl
  refine ⟨sink, hstep.trans ?_⟩
  simp only [meet, invoke, hdemands.operands, hscope, apply, hdemands.args, cursor,
    hdemands.answer, ← hdemands.caller]
  cases p.resolve t.scope k.name with
  | ok id => rw [NamedCall.make, hcursor]; rfl
  | error e => rw [NamedCall.make, hcursor]; rfl

end Context

/-! ### Early and late binding -/

/-- **A call by name agrees with a reference.** The calling activation is at the statement with
number `i` of the definition. The call comes to what the name is resolved to in the scope of this
statement. That is the function to which a reference of the name is bound if it is written into the
statement; and if the name cannot be resolved, then linking fails for such a reference, with as many
candidates. There is a place for a reference in the statement. -/
structure NamedCall.Agrees (d : Source.Program) (p : Program) (c : Context) (k : NamedCall)
    (i : Nat) (t : Stmt) : Prop where
  stmt : k.caller.stmt = some ⟨i⟩
  found : p.stmt? ⟨i⟩ = some t
  step : ∀ s : Conditions, s.TakesTrace →
    ∃ sink, c.step p s.traceLevel s.sink = k.make p c sink (p.resolve t.scope k.name)
  writable : ∃ d', d.Writes k.name i d'
  bound : ∀ d', d.Writes k.name i d' → ∀ f, p.resolve t.scope k.name = .ok f ↔
    ∃ p', Program.link d' = .ok p' ∧ p'.RefersTo ⟨i⟩ f ∧ p'.functionName f = k.name
  rejected : ∀ d', d.Writes k.name i d' → ∀ n,
    p.resolve t.scope k.name = .error (.unresolved k.name n) ↔
      Program.link d' = .error (.unresolvedFunction k.name n)

namespace Program

/-- **Early and late binding agree.** Let a program be linked. Every reference to a function is
bound to what the name of the function is resolved to, once the program is complete, in the scope of
the statement of the reference. And let a task start in a context: whatever becomes of the context,
by steps that succeed or fail and by collections, a call by name that is about to be made agrees
with a reference of the name in the statement that makes the call, however many activations wait. -/
theorem bindings_agree {d : Source.Program} {p : Program} (h : link d = .ok p) :
    (∀ i t f, p.stmt? i = some t → p.RefersTo i f →
      ∃ g, p.function? f = some g ∧ p.resolve t.scope g.name = .ok f) ∧
    ∀ (outer : Option StmtId) (c₀ c : Context) (k : NamedCall), c₀.Starts p outer →
      c₀.Becomes p c → c.namedCall? p = some k → ∃ i t, k.Agrees d p c i t := by
  refine ⟨fun i t f ht hf => resolve_of_refersTo h ht hf,
    fun outer c₀ c k hstart hc hk => ?_⟩
  obtain ⟨f, g, n, hdemands⟩ := Context.demands_of_namedCall? hk
  have hfocused := hc.focused hstart.focused f (hdemands.frames ▸ List.mem_cons_self)
  obtain ⟨i, t, hstmt, ht, hexprs⟩ := hdemands.works.caller hfocused rfl
  have hcaller : k.caller.stmt = some i := by
    rw [hdemands.caller]
    exact hstmt
  exact ⟨i.index, t, hcaller, ht, fun s hs => Context.step_namedCall hk hcaller ht hs,
    (binds_of_link h ht).writable hexprs,
    fun d' hw f => resolve_iff_refersTo h ht hw f,
    fun d' hw n => resolve_iff_unresolved h ht hw n⟩

end Program

/-- A definition in which a name is called in two functions that come before the function of the
name. One of them is inside another function, and the other one has a function of the name inside
it. -/
def Source.Program.calling : Source.Program :=
  ⟨[⟨"m",
    [.mk "outer" []
        [.mk "deep" ["x"] [] [.return (some (.call (.name "late") [.var "x"]))]]
        [.return (some (.call (.function "deep") [.scalar (.int 1)]))],
      .mk "twice" [] [.mk "late" ["x"] [] []] [.expr (.call (.name "late") [.scalar (.int 1)])],
      .mk "late" ["x"] [] [.return (some (.var "x"))]],
    [.expr (.call (.function "outer") []), .expr (.call (.name "twice") [])]⟩], none⟩

/-- Whether a context is about to call a name that has a number of candidates. -/
def Context.callsAmong (p : Program) (c : Context) (name : String) (candidates : Nat) : Bool :=
  (c.namedCall? p).any fun k => k.name == name &&
    (k.caller.stmt.bind p.stmt?).any fun t => (p.visible t.scope name).length == candidates

theorem Context.callsAmong_iff {p : Program} {c : Context} {name : String} {candidates : Nat} :
    c.callsAmong p name candidates = true ↔ ∃ k, c.namedCall? p = some k ∧ k.name = name ∧
      ∃ t, k.caller.stmt.bind p.stmt? = some t ∧
        (p.visible t.scope name).length = candidates := by
  simp only [callsAmong, Option.any_eq_true, Bool.and_eq_true, beq_iff_eq]

namespace Program

/-- From the inner function the name is resolved, and so is a reference that is written there. In
the other function it is not, since there are two candidates, and linking fails for a reference
there. -/
theorem bindings_agree_calling : ∃ p, link .calling = .ok p ∧ ∃ m : Module, m ∈ p.modules ∧
    (∃ c k i t f, (Context.forModule m).Becomes p c ∧ c.frames.length = 3 ∧
      c.namedCall? p = some k ∧ k.name = "late" ∧ k.Agrees .calling p c i t ∧
      p.resolve t.scope "late" = .ok f ∧
      ∃ d' p' t' g, Source.Program.calling.Writes "late" i d' ∧ link d' = .ok p' ∧
        p'.stmt? ⟨i⟩ = some t' ∧ p'.RefersTo ⟨i⟩ f ∧ p'.function? f = some g ∧
        p'.resolve t'.scope g.name = .ok f) ∧
    ∃ c k i t d', (Context.forModule m).Becomes p c ∧ c.frames.length = 2 ∧
      c.namedCall? p = some k ∧ k.name = "late" ∧ k.Agrees .calling p c i t ∧
      Source.Program.calling.Writes "late" i d' ∧
      link d' = .error (.unresolvedFunction "late" 2) := by
  have hfirst : suspendsAfter .calling 100 15 (fun p m => m.context.frames.length == 3 &&
      m.context.callsAmong p "late" 1) = true := by decide +kernel
  have hsecond : suspendsAfter .calling 100 34 (fun p m => m.context.frames.length == 2 &&
      m.context.callsAmong p "late" 2) = true := by decide +kernel
  obtain ⟨p, m, a, hlink, hm, hrun, htest⟩ := exists_of_suspendsAfter hfirst
  obtain ⟨_, _, b, hlink', hm', hrun', htest'⟩ := exists_of_suspendsAfter hsecond
  cases hlink.symm.trans hlink'
  cases hm.symm.trans hm'
  have hmem : m ∈ p.modules := Array.mem_of_getElem? hm
  have hstart : (Context.forModule m).Becomes p (.forModule m) := .refl
  have ha := Machine.run_becomes hstart hrun
  have hb := Machine.run_becomes hstart hrun'
  simp only [Bool.and_eq_true, beq_iff_eq, Context.callsAmong_iff] at htest htest'
  obtain ⟨hlength, k, hk, hname, t, ht, hone⟩ := htest
  obtain ⟨hlength', k', hk', hname', t', ht', htwo⟩ := htest'
  obtain ⟨i, s, hagrees⟩ := (bindings_agree hlink).2 _ _ _ k (.forModule hmem) ha hk
  obtain ⟨i', s', hagrees'⟩ := (bindings_agree hlink).2 _ _ _ k' (.forModule hmem) hb hk'
  rw [hagrees.stmt, Option.bind_some, hagrees.found] at ht
  rw [hagrees'.stmt, Option.bind_some, hagrees'.found] at ht'
  cases ht
  cases ht'
  obtain ⟨f, hf⟩ := List.length_eq_one_iff.1 hone
  have hresolved := resolve_eq_ok.2 hf
  obtain ⟨d₁, hw₁⟩ := hagrees.writable
  obtain ⟨p₁, hlink₁, hrefers, -⟩ := (hagrees.bound d₁ hw₁ f).1 (hname ▸ hresolved)
  obtain ⟨u, hu, hexprs⟩ := hrefers
  obtain ⟨g, hg, hearly⟩ := (bindings_agree hlink₁).1 _ u f hu ⟨u, hu, hexprs⟩
  obtain ⟨d₂, hw₂⟩ := hagrees'.writable
  have hrejected := (hagrees'.rejected d₂ hw₂ 2).1 (by
    rw [hname', resolve_eq_error]
    exact ⟨htwo, by decide⟩)
  rw [hname] at hw₁
  rw [hname'] at hw₂ hrejected
  exact ⟨p, hlink, m, hmem,
    ⟨a.context, k, i, t, f, ha, hlength, hk, hname, hagrees, hresolved,
      d₁, p₁, u, g, hw₁, hlink₁, hu, ⟨u, hu, hexprs⟩, hg, hearly⟩,
    b.context, k', i', t', d₂, hb, hlength', hk', hname', hagrees', hw₂, hrejected⟩

end Program

end TreeMachine
