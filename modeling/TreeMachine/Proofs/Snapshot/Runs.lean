import Mathlib.Algebra.Ring.Nat
import TreeMachine.Proofs.Run.Slicing
import TreeMachine.Proofs.Snapshot.Contexts
import TreeMachine.Proofs.Words.Steps

/-!
# Snapshots lose nothing

A run may be suspended any number of times, its context written and read back each time, and then go
on (`Machine.runSaved`). This makes no difference as long as every double in the contexts that are
written is one that the writer and the reader of numbers map to itself (`Machine.savedEnds_iff`).
The words of the contexts need not be looked at on the way: they have the size that a snapshot takes
when those of the first context have, except for what counts steps, allocations and entries of the
heap. The last statement puts this together with what becomes of a single context.

A writer gives each context one of its snapshots (`Context.Writer`), and which one is left to it. A
run that is saved is described by a list with a budget and a writer for each time (`Machine.Save`),
so the order in which an environment is written may differ from one time to the next, as it does
when a map is laid out anew after it has been read. Of all this nothing is left in the result,
because what is read back is the very context that was suspended.

The proof cuts the run without saves at the sums of the budgets, where it is suspended with the same
machines (`Machine.SuspendedAt`), and a machine whose context is restored is the machine itself. So
no relation between runs is needed, and the statements about slices do the rest.

Snapshots are taken of contexts. Debugger, input and sink stay in the machine while the context is
away, and the program is linked again from its definition or kept, which gives the same tables. The
main result has the doubles as a hypothesis on the contexts at the points of suspension, and on no
others; a context with an infinite double is not saved without loss, but it may come and go between
two saves.
-/

namespace TreeMachine

/-! ### Writers -/

/-- A way to write contexts: one of its snapshots for each of them. -/
structure Context.Writer where
  write : Context → Json.Value
  isSnapshot : ∀ c : Context, c.IsSnapshot (write c)

namespace Context.Writer

/-- The writer that goes through each environment in the given order. -/
def ofOrder (order : Env → List (Key × Value)) (h : ∀ env, (order env).Perm env.entries) :
    Context.Writer where
  write c := c.snapshotWith
    (c.frames.reverse.map fun f => f.snapshotWith (Env.snapshotOf (order f.env)))
  isSnapshot c := by
    refine ⟨c.frames.reverse.map fun f => (f, f.snapshotWith (Env.snapshotOf (order f.env))), ?_,
      ?_, ?_⟩
    · rw [List.map_map]
      exact List.map_id _
    · intro w hw
      obtain ⟨f, -, rfl⟩ := List.mem_map.1 hw
      exact ⟨_, ⟨order f.env, h f.env, rfl⟩, rfl⟩
    · rw [List.map_map]
      rfl

/-- The writer that takes the keys in ascending order. -/
def ascending : Context.Writer :=
  ofOrder (fun env => env.entries.reverse) fun env => env.entries.reverse_perm

/-- The writer that takes the keys in descending order. -/
def descending : Context.Writer :=
  ofOrder Env.entries fun _ => .refl _

end Context.Writer

/-- What has the keys in ascending order is a snapshot. -/
theorem Context.isSnapshot_snapshot (c : Context) : c.IsSnapshot c.snapshot :=
  Writer.ascending.isSnapshot c

/-! ### Saving and going on -/

namespace Machine

/-- A machine whose context was written and read back, if it could be. -/
def restored? (w : Context.Writer) (m : Machine) : Option Machine :=
  (Context.ofText? (w.write m.context).text).map fun c => { m with context := c }

/-- A point at which a run is saved: what it may charge until then, and how its context is
written. -/
structure Save where
  budget : Nat
  writer : Context.Writer

/-- Runs with the budget of one save after the other, and at last with the given one. Each time that
a run was suspended, the context is written and read back before the next one. -/
def runSaved (p : Program) (threshold fuel : Nat) (budget : Option Nat) :
    List Save → Machine → Option Result
  | [], m => m.run p threshold fuel budget
  | a :: saves, m =>
    match m.run p threshold fuel (some a.budget) with
    | some (m, .ok .suspended) =>
      (m.restored? a.writer).bind (runSaved p threshold fuel budget saves)
    | result => result

/-- A run whose context is written and read back on the way ends, with the given result. -/
def SavedEnds (p : Program) (threshold : Nat) (saves : List Save) (budget : Option Nat)
    (m : Machine) (r : Result) : Prop :=
  ∃ fuel, m.runSaved p threshold fuel budget saves = some r

/-- A machine with which a run without interruption would be suspended, at one of the points at
which the budgets are used up. -/
def SuspendedAt (p : Program) (threshold : Nat) (budgets : List Nat) (m m' : Machine) : Prop :=
  ∃ a as, a :: as <+: budgets ∧ m.Ends p threshold (some (a :: as).sum) (m', .ok .suspended)

variable {p : Program} {threshold : Nat} {m m' : Machine} {budget : Option Nat}
  {budgets : List Nat} {saves : List Save} {r : Result}

theorem restored?_of_kept (w : Context.Writer) (hfits : m.context.Fits)
    (hkept : ∀ x ∈ m.context.floats, Json.Keeps x) : m.restored? w = some m := by
  rw [restored?, (w.isSnapshot m.context).ofText? hfits hkept]
  rfl

/-- The first budget is one of the points. -/
theorem SuspendedAt.first {a : Nat} (h : m.Ends p threshold (some a) (m', .ok .suspended)) :
    m.SuspendedAt p threshold (a :: budgets) m' :=
  ⟨a, [], List.prefix_append [a] budgets, by rwa [List.sum_singleton]⟩

/-- The points after the first one are those of the machine that is suspended there. -/
theorem SuspendedAt.later {a : Nat} {m₁ : Machine}
    (hfirst : m.Ends p threshold (some a) (m₁, .ok .suspended))
    (h : m₁.SuspendedAt p threshold budgets m') : m.SuspendedAt p threshold (a :: budgets) m' := by
  obtain ⟨b, bs, hprefix, hends⟩ := h
  refine ⟨a, b :: bs, List.cons_prefix_cons.2 ⟨rfl, hprefix⟩, ?_⟩
  rw [List.sum_cons]
  exact (ends_iff_of_suspended hfirst (some (b :: bs).sum) _).1 hends

theorem addBudget_add (a b : Nat) (budget : Option Nat) :
    addBudget (a + b) budget = addBudget a (addBudget b budget) := by
  cases budget with
  | none => rfl
  | some c => simp only [addBudget_some, Nat.add_assoc]

/-- A run that is saved on the way has the result of the run that is not. -/
theorem SavedEnds.ends (h : m.SavedEnds p threshold saves budget r)
    (hrestored : ∀ w m', m.SuspendedAt p threshold (saves.map Save.budget) m' →
      m'.restored? w = some m') :
    m.Ends p threshold (addBudget (saves.map Save.budget).sum budget) r := by
  obtain ⟨fuel, h⟩ := h
  induction saves generalizing m with
  | nil =>
    rw [List.map_nil, List.sum_nil, addBudget_zero]
    exact ⟨fuel, h⟩
  | cons a saves ih =>
    rw [List.map_cons] at hrestored
    rw [List.map_cons, List.sum_cons, addBudget_add]
    rw [runSaved] at h
    split at h
    · rename_i m₁ hrun
      -- The machine that goes on is the one that was suspended.
      have hfirst : m.Ends p threshold (some a.budget) (m₁, .ok .suspended) := ⟨fuel, hrun⟩
      rw [hrestored a.writer m₁ (.first hfirst), Option.bind_some] at h
      have hrest := ih (fun w m' hm' => hrestored w m' (.later hfirst hm')) h
      exact (ends_iff_of_suspended hfirst _ r).1 hrest
    · rename_i hne
      exact ⟨fuel, run_of_ne_suspended h fun hr => hne r.1 (by rw [h, ← hr])⟩

/-- More fuel keeps the result of a run that is saved on the way. -/
theorem runSaved_mono {fuel fuel' : Nat} (hle : fuel ≤ fuel')
    (h : m.runSaved p threshold fuel budget saves = some r) :
    m.runSaved p threshold fuel' budget saves = some r := by
  induction saves generalizing m with
  | nil => exact run_mono hle h
  | cons a saves ih =>
    rw [runSaved] at h ⊢
    split at h
    · rename_i m₁ hrun
      rw [run_mono hle hrun]
      obtain ⟨m₂, hm₂, h⟩ := Option.bind_eq_some_iff.1 h
      exact Option.bind_eq_some_iff.2 ⟨m₂, hm₂, ih h⟩
    · rename_i hne
      rw [run_mono hle h]
      split
      · rename_i m₁ hr
        cases hr
        exact absurd h (hne m₁)
      · rfl

/-- A run that is not saved on the way has the result of the run that is. -/
theorem Ends.saved (h : m.Ends p threshold (addBudget (saves.map Save.budget).sum budget) r)
    (hrestored : ∀ w m', m.SuspendedAt p threshold (saves.map Save.budget) m' →
      m'.restored? w = some m') : m.SavedEnds p threshold saves budget r := by
  induction saves generalizing m with
  | nil =>
    rw [List.map_nil, List.sum_nil, addBudget_zero] at h
    exact h
  | cons a saves ih =>
    rw [List.map_cons] at hrestored
    rw [List.map_cons, List.sum_cons, addBudget_add] at h
    obtain ⟨fuel, h⟩ := h
    rcases run_split h with ⟨hend, hne⟩ | ⟨m₁, rest, hrun, hrest, -, -⟩
    · refine ⟨fuel, ?_⟩
      rw [runSaved, hend]
      split
      · rename_i hr
        cases hr
        exact absurd rfl hne
      · rfl
    · have hfirst : m.Ends p threshold (some a.budget) (m₁, .ok .suspended) := ⟨fuel, hrun⟩
      obtain ⟨fuel', h'⟩ := ih ⟨rest, hrest⟩ fun w m' hm' => hrestored w m' (.later hfirst hm')
      refine ⟨max fuel fuel', ?_⟩
      rw [runSaved, run_mono (Nat.le_max_left fuel fuel') hrun]
      dsimp only
      rw [hrestored a.writer m₁ (.first hfirst), Option.bind_some]
      exact runSaved_mono (Nat.le_max_right fuel fuel') h'

/-- **Saving makes no difference** to a run if the contexts that are written can be restored. -/
theorem savedEnds_iff
    (hrestored : ∀ w m', m.SuspendedAt p threshold (saves.map Save.budget) m' →
      m'.restored? w = some m') (r : Result) :
    m.SavedEnds p threshold saves budget r ↔
      m.Ends p threshold (addBudget (saves.map Save.budget).sum budget) r :=
  ⟨fun h => h.ends hrestored, fun h => h.saved hrestored⟩

/-- A context that is written in a run can be restored if its doubles are kept. -/
theorem SuspendedAt.restored? (hp : p.WellFormed) (hsmall : p.Small) (hm : m.context.Fits)
    (h : m.SuspendedAt p threshold budgets m') (hcounted : m'.context.Counted)
    (hkept : ∀ x ∈ m'.context.floats, Json.Keeps x) (w : Context.Writer) :
    m'.restored? w = some m' := by
  obtain ⟨a, as, -, fuel, hrun⟩ := h
  -- The context was got into by a run without interruption, which keeps to words of 32 bits.
  have hwords := words_run hp hsmall hm.words hrun hcounted.entries
  exact restored?_of_kept w (hwords.fits hcounted) hkept

end Machine

/-! ### Snapshots -/

/-- **Snapshots lose nothing.** Let the numbers of a context fit into their words, and let a
snapshot of it be written, with the pairs of each environment in any order. The context that is read
back from the text is the one that was written, if the writer and the reader of numbers map each of
its doubles to itself; and none is read back if one of its doubles is infinite or NaN.

So a run of a linked program ends in the same way, with the same machine (context, debugger, input
and sink), whether it goes on without interruption or is suspended any number of times and its
context written and read back each time, if each of the doubles in these contexts is mapped to
itself. Each time another writer may be used, which is free to choose among the snapshots of the
context. Of the numbers of these contexts only those that count steps, allocations and entries could
have outgrown their words. -/
theorem snapshots_lose_nothing :
    (∀ c : Context, c.Fits → ∀ v, c.IsSnapshot v →
      ((∀ x ∈ c.floats, Json.Keeps x) → Context.ofText? v.text = some c) ∧
      ((∃ x ∈ c.floats, ¬IsFinite x) → Context.ofText? v.text = none)) ∧
    ∀ (d : Source.Program) (p : Program), Program.link d = .ok p → p.Small →
      ∀ (threshold : Nat) (saves : List Machine.Save) (m : Machine), m.context.Fits →
        (∀ m', m.SuspendedAt p threshold (saves.map Machine.Save.budget) m' →
          m'.context.Counted ∧ ∀ x ∈ m'.context.floats, Json.Keeps x) →
        (∀ budget r, m.SavedEnds p threshold saves budget r ↔
          m.Ends p threshold
            (Machine.addBudget (saves.map Machine.Save.budget).sum budget) r) ∧
        ∀ slice r, m.SavedEnds p threshold saves none r ↔ m.DriveEnds p threshold slice r := by
  refine ⟨fun c hfits v hv => ⟨hv.ofText? hfits, hv.ofText?_eq_none hfits⟩, ?_⟩
  intro d p hlink hsmall threshold saves m hm hsuspended
  have hp := Program.wellFormed_of_link hlink
  have hrestored : ∀ w m', m.SuspendedAt p threshold (saves.map Machine.Save.budget) m' →
      m'.restored? w = some m' := by
    intro w m' hm'
    obtain ⟨hcounted, hkept⟩ := hsuspended m' hm'
    exact hm'.restored? hp hsmall hm hcounted hkept w
  refine ⟨fun budget r => Machine.savedEnds_iff hrestored r, fun slice r => ?_⟩
  rw [Machine.driveEnds_iff]
  exact Machine.savedEnds_iff hrestored r

/-- A definition that halves a double until it is below one, with a call and an allocation for each
time. -/
def Source.Program.halving : Source.Program where
  modules := [⟨"m",
    [.mk "half" ["y"] [] [.return (some (.call (.function "/") [.var "y", .scalar (.float 2)]))]],
    [.expr (.declare "x"), .expr (.assign "x" (.scalar (.float 3))),
      .loop (.call (.function ">") [.var "x", .scalar (.float 1)])
        [.expr (.assign "x" (.call (.function "half") [.var "x"])),
          .expr (.call (.function "range") [.scalar (.int 0), .scalar (.int 9)])] false,
      .expr (.call (.function "print") [.var "x"])]⟩]
  entry := none

/-- A finished context with an infinite double in an object. -/
def Context.unbounded : Context :=
  ⟨[], ⟨#[⟨0, some ⟨"range", [.float (.ofBits 0x7FF0000000000000)]⟩⟩], [], 0⟩, 0⟩

theorem Context.unbounded_fits : unbounded.Fits := by
  refine ⟨nofun, ⟨fun e he o ho v hv => ?_, nofun, Nat.zero_le _⟩, Nat.zero_le _⟩
  cases List.mem_singleton.1 (Array.mem_toList_iff.2 he)
  cases ho
  cases List.mem_singleton.1 hv
  trivial

/-- Saved twice: first with the keys in ascending order, and then in descending order. -/
def Machine.Save.halving : List Machine.Save :=
  [⟨33, .ascending⟩, ⟨36, .descending⟩]

/-- The halving program can be saved inside a call and again after it. The first time its context
has eleven doubles and an environment with several keys, so that the two orders differ; it is read
back from both. A context with an infinite double in an object is not read back. -/
theorem snapshots_lose_nothing_halving : ∃ p, Program.link .halving = .ok p ∧ ∃ m m' : Machine,
    m.SuspendedAt p 1 [33, 36] m' ∧ m'.context.floats.length = 11 ∧
    (∃ f ∈ m'.context.frames, 2 < f.env.size) ∧
    Context.ofText? (Context.Writer.ascending.write m'.context).text = some m'.context ∧
    Context.ofText? (Context.Writer.descending.write m'.context).text = some m'.context ∧
    (∃ r, m.SavedEnds p 1 Machine.Save.halving none r) ∧
    (∀ r, m.SavedEnds p 1 Machine.Save.halving none r ↔ m.Ends p 1 none r) ∧
    Context.ofText? Context.unbounded.snapshot.text = none := by
  -- Both contexts can be saved, and the run comes to an end.
  have hfirst : Program.suspendsAfter .halving 300 33 (fun p m' => decide p.Small &&
      decide (m'.context.Counted ∧ ∀ x ∈ m'.context.floats, Json.Keeps x) &&
      decide (∃ f ∈ m'.context.frames, 2 < f.env.size) &&
      m'.context.floats.length == 11) = true := by decide +kernel
  have hsecond : Program.suspendsAfter .halving 300 69 (fun _ m' =>
      decide (m'.context.Counted ∧ ∀ x ∈ m'.context.floats, Json.Keeps x)) = true := by
    decide +kernel
  have hends : ((Program.link .halving).toOption.any fun p => p.modules[0]?.any fun md =>
      (Machine.run p 1 300 none ⟨.forModule md, .start 0 false, [], .ofLimit none⟩).isSome) =
        true := by decide +kernel
  obtain ⟨p, md, m', hl, hmd, hrun, htest⟩ := Program.exists_of_suspendsAfter hfirst
  obtain ⟨_, _, m'', hl', hmd', hrun', hkept''⟩ := Program.exists_of_suspendsAfter hsecond
  cases hl.symm.trans hl'
  cases hmd.symm.trans hmd'
  simp only [hl, Except.toOption, Option.any_some, hmd] at hends
  simp only [Bool.and_eq_true, decide_eq_true_eq, beq_iff_eq] at htest
  obtain ⟨⟨⟨hsmall, hkept'⟩, hkeys⟩, hlength⟩ := htest
  have hwords := Context.Words.forModule (Program.wellFormed_of_link hl) hsmall
    (Array.mem_of_getElem? hmd)
  have hfits := hwords.fits ⟨Nat.zero_le _, Nat.zero_le _, Nat.zero_le _⟩
  obtain ⟨hcontexts, hprograms⟩ := snapshots_lose_nothing
  have hsuspended : Machine.SuspendedAt p 1 [33, 36]
      ⟨.forModule md, .start 0 false, [], .ofLimit none⟩ m' := .first ⟨300, hrun⟩
  have hsaved : ∀ m₁, Machine.SuspendedAt p 1 [33, 36]
      ⟨.forModule md, .start 0 false, [], .ofLimit none⟩ m₁ →
      m₁.context.Counted ∧ ∀ x ∈ m₁.context.floats, Json.Keeps x := by
    rintro m₁ ⟨a, as, hprefix, hm₁⟩
    obtain ⟨rfl, hrest⟩ := List.cons_prefix_cons.1 hprefix
    rcases List.prefix_cons_iff.1 hrest with rfl | ⟨bs, rfl, hbs⟩
    · obtain rfl : m' = m₁ := congrArg Prod.fst (Machine.Ends.unique ⟨300, hrun⟩ hm₁)
      exact hkept'
    · rw [List.prefix_nil.1 hbs] at hm₁
      obtain rfl : m'' = m₁ := congrArg Prod.fst (Machine.Ends.unique ⟨300, hrun'⟩ hm₁)
      exact of_decide_eq_true hkept''
  have hruns := hprograms _ p hl hsmall 1 Machine.Save.halving _ hfits hsaved
  have hread : ∀ w : Context.Writer,
      Context.ofText? (w.write m'.context).text = some m'.context := by
    intro w
    obtain ⟨hcounted, hkept⟩ := hsaved m' hsuspended
    have hwords' := Machine.words_run (Program.wellFormed_of_link hl) hsmall hwords hrun
      hcounted.entries
    exact (hcontexts _ (hwords'.fits hcounted) _ (w.isSnapshot _)).1 hkept
  refine ⟨p, hl, _, m', hsuspended, hlength, hkeys, hread .ascending, hread .descending, ?_,
    hruns.1 none, ?_⟩
  · obtain ⟨r, hr⟩ := Option.isSome_iff_exists.1 hends
    exact ⟨r, (hruns.1 none r).2 ⟨300, hr⟩⟩
  · exact (hcontexts _ Context.unbounded_fits _ Context.unbounded.isSnapshot_snapshot).2
      ⟨.ofBits 0x7FF0000000000000, List.mem_cons_self, by decide⟩

end TreeMachine
