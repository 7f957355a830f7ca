import TreeMachine.Proofs.Run.Fuel

/-!
# What a turn comes to

In a turn the debugger fails, or it quits, or a step is taken; the step fails, is free or is
charged, and after a charge the heap may be collected. `Machine.TurnMoves` lists these cases with
what each does to the context, and `Machine.turn_moves` says that there are no others. So what all
of them keep is kept by a run (`Machine.run_keeps`).

A turn is the unit of what a machine does: a dialogue if there is one due, a step, its charge, and a
collection. Seen from the context, all that the debugger contributes is whether there is a step, how
much of it is traced, and what the sink holds before. `Conditions` collects this, together with
whether a collection follows. A turn of a context under conditions (`Context.turn`) is what is left
when the debugger, the input and the threshold are forgotten, and each turn of a machine that takes
a step is one of these (`Machine.TurnMoves.turn`). Statements that hold under all conditions
therefore hold of all machines.

A step that fails is a case of its own. It changes the context, though the turn of a context does
not say how, since a run is over then.
-/

namespace TreeMachine

/-! ### Turns of a context -/

/-- What surrounds a step: how much is traced and where to, and whether a collection follows. -/
structure Conditions where
  traceLevel : Nat
  sink : Sink
  collects : Bool

/-- A step that succeeds. It is charged unless it was a jump, and a collection may follow. -/
def Context.turn (p : Program) (s : Conditions) (c : Context) : Option Context :=
  let done := c.step p s.traceLevel s.sink
  match done.result with
  | .error _ => none
  | .ok progress =>
    let c := if progress = .jumped then done.context
      else { done.context with steps := done.context.steps + 1 }
    some (if s.collects then c.collect.1 else c)

/-! ### Turns of a machine -/

namespace Machine

/-- What a turn comes to, from a context. What a step traces and what had been written before it
depend on the debugger. -/
inductive TurnMoves (p : Program) (c : Context) : Machine × Except Fault Turn → Prop
  | unattended {m : Machine} {e : ChannelError} (hcontext : m.context = c) :
      TurnMoves p c (m, .error (.channel e))
  | quits {m : Machine} (hcontext : m.context = c) : TurnMoves p c (m, .ok .quit)
  | fails {m : Machine} {e : Fault} (level : Nat) (sink : Sink)
      (hresult : (c.step p level sink).result = .error e)
      (hcontext : m.context = (c.step p level sink).context) : TurnMoves p c (m, .error e)
  | jumps {m : Machine} (level : Nat) (sink : Sink)
      (hresult : (c.step p level sink).result = .ok .jumped)
      (hcontext : m.context = (c.step p level sink).context) : TurnMoves p c (m, .ok .free)
  | charges {m : Machine} {c' : Context} {progress : Progress} (level : Nat) (sink : Sink)
      (hresult : (c.step p level sink).result = .ok progress) (hprogress : progress ≠ .jumped)
      (hc' : c' = { (c.step p level sink).context with
        steps := (c.step p level sink).context.steps + 1 })
      (hcontext : m.context = c' ∨ m.context = c'.collect.1) : TurnMoves p c (m, .ok .charged)

variable {p : Program} {threshold : Nat} {m : Machine}

/-- **A turn of the machine is one of its context** when it has taken a step that succeeds. -/
theorem TurnMoves.turn {c : Context} {t : Turn} (h : TurnMoves p c (m, .ok t)) (ht : t ≠ .quit) :
    ∃ s, c.turn p s = some m.context := by
  cases h with
  | quits => exact absurd rfl ht
  | jumps level sink hresult hcontext =>
    refine ⟨⟨level, sink, false⟩, ?_⟩
    simp only [Context.turn, hresult, hcontext]
    rfl
  | charges level sink hresult hprogress hc' hcontext =>
    -- A collection follows when one is due.
    subst hc'
    rcases hcontext with hcontext | hcontext
    · refine ⟨⟨level, sink, false⟩, ?_⟩
      simp only [Context.turn, hresult, if_neg hprogress, hcontext]
      rfl
    · refine ⟨⟨level, sink, true⟩, ?_⟩
      simp only [Context.turn, hresult, if_neg hprogress, hcontext]
      rfl

/-- The debugger leaves the context alone. -/
theorem attend_context (m : Machine) : m.attend.1.context = m.context := by
  unfold attend
  split <;> rfl

/-- A step is counted when it is charged, and the heap is collected if that is due. -/
theorem charge_context (threshold : Nat) (m : Machine) :
    (m.charge threshold).context = { m.context with steps := m.context.steps + 1 } ∨
      (m.charge threshold).context =
        (Context.collect { m.context with steps := m.context.steps + 1 }).1 := by
  unfold charge collectDue
  dsimp only
  split
  · exact .inr rfl
  · exact .inl rfl

theorem advance_moves (p : Program) (threshold : Nat) (m : Machine) :
    TurnMoves p m.context (m.advance p threshold) := by
  unfold advance
  dsimp only
  split
  · rename_i e hresult
    exact .fails _ _ hresult rfl
  · rename_i hresult
    exact .jumps _ _ hresult rfl
  · rename_i progress hprogress hresult
    exact .charges _ _ hresult hprogress rfl (charge_context threshold _)

/-- **A turn** comes to one of the cases. -/
theorem turn_moves (p : Program) (threshold : Nat) (m : Machine) :
    TurnMoves p m.context (m.turn p threshold) := by
  have hcontext := attend_context m
  unfold turn
  split
  · rename_i m' e hattend
    rw [hattend] at hcontext
    exact .unattended hcontext
  · rename_i m' hattend
    rw [hattend] at hcontext
    exact .quits hcontext
  · rename_i m' hattend
    rw [hattend] at hcontext
    exact hcontext ▸ advance_moves p threshold m'

/-- What every turn keeps, **a run** keeps. -/
theorem run_keeps {P : Machine → Prop} (hturn : ∀ m, P m → P (m.turn p threshold).1)
    {fuel : Nat} {budget : Option Nat} {r : Result} (hm : P m)
    (h : m.run p threshold fuel budget = some r) : P r.1 := by
  induction fuel generalizing m budget with
  | zero => cases h
  | succ fuel ih =>
    by_cases hhalted : m.Halted budget
    · rw [run_halted hhalted] at h
      cases h
      exact hm
    · rw [run_succ _ hhalted] at h
      split at h
      · exact ih (hturn m hm) h
      · cases h
        exact hturn m hm

end Machine

end TreeMachine
