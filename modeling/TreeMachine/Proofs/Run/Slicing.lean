import TreeMachine.Linking
import TreeMachine.Proofs.Run.Fuel

/-!
# Slices of a run

A run that is suspended after a budget of charged steps goes on as if it had not been interrupted:
`Machine.ends_iff_of_suspended`. A run in slices of any length is therefore the run without slices
(`Machine.driveEnds_iff`), and the length of the slices does not show in a session
(`Session.Ends.withTimeslice`). The last statement puts this together.

A run with a budget of `a` steps and more is cut where the `a` steps have been charged
(`Machine.run_split`). Either it has ended before, for a reason that has nothing to do with the
budget, or it is suspended there, and the rest of it is a run with the rest of the budget. Jumps are
free, but a machine without budget is halted before it could jump, so the cut falls right behind a
charged step.

The machine in the statement is all of it: context, debugger, input and sink. In particular a
debugger that has been told to step, or that has an interrupt pending, keeps this over the end of a
slice, and collections happen at the same places, since what decides about them is in the heap.

Nothing is assumed about the program. Its tables may even be broken, in which case both runs fail in
the same way. That slices come to an end is a different matter, and so is what is written to a file
between two of them.
-/

namespace TreeMachine

namespace Machine

variable {p : Program} {threshold : Nat}

/-- A budget with some steps more. -/
def addBudget (a : Nat) (budget : Option Nat) : Option Nat :=
  budget.map (a + ·)

@[simp]
theorem addBudget_zero (budget : Option Nat) : addBudget 0 budget = budget := by
  cases budget <;> simp [addBudget]

@[simp]
theorem addBudget_some (a b : Nat) : addBudget a (some b) = some (a + b) := rfl

theorem pred_addBudget (a : Nat) (budget : Option Nat) :
    (addBudget (a + 1) budget).map Nat.pred = addBudget a budget := by
  cases budget with
  | none => rfl
  | some b => simp [addBudget, Nat.add_right_comm]

theorem addBudget_succ_ne_zero (a : Nat) (budget : Option Nat) :
    addBudget (a + 1) budget ≠ some 0 := by
  cases budget with
  | none => nofun
  | some b => simp [Nat.add_right_comm]

/-- The budgets after a turn, of a run with a budget of `a + 1` steps and of one with more. -/
theorem budgetAfter_addBudget (a : Nat) (budget : Option Nat) (t : Except Fault Turn) :
    budgetAfter (addBudget (a + 1) budget) t =
      match budgetAfter (some (a + 1)) t with
      | some (some rest) => some (addBudget rest budget)
      | _ => none := by
  rcases t with e | t
  · rfl
  · cases t with
    | charged => simp [budgetAfter, pred_addBudget]
    | free => rfl
    | quit => rfl

/-- The budget after a turn that goes on is not more than before, and still a budget. -/
theorem budgetAfter_some {a : Nat} {t : Except Fault Turn} {rest : Option Nat}
    (h : budgetAfter (some a) t = some rest) : ∃ b, rest = some b := by
  rcases t with e | t
  · simp [budgetAfter] at h
  · cases t <;> simp [budgetAfter] at h <;> exact ⟨_, h.symm⟩

/-- A turn does not suspend a run. -/
theorem endOfTurn_ne_suspended (t : Except Fault Turn) : endOfTurn t ≠ .ok .suspended := by
  cases t <;> simp [endOfTurn]

/-- **Splitting a run.** A run with a budget of `a` steps and more, cut off after the `a` steps: a
run of `a` steps either ends as the longer one does, or it is suspended and the longer one is what
follows, with less fuel when `a` is not zero. -/
theorem run_split {fuel a : Nat} {budget : Option Nat} {m : Machine} {r : Result}
    (h : m.run p threshold fuel (addBudget a budget) = some r) :
    (m.run p threshold fuel (some a) = some r ∧ r.2 ≠ .ok .suspended) ∨
      ∃ m' rest, m.run p threshold fuel (some a) = some (m', .ok .suspended) ∧
        m'.run p threshold rest budget = some r ∧ rest ≤ fuel ∧ (0 < a → rest < fuel) := by
  induction fuel generalizing a m with
  | zero => simp [run] at h
  | succ fuel ih =>
    by_cases hf : m.context.isFinished
    · rw [run_finished _ hf] at h
      refine .inl ⟨by rw [run_finished _ hf]; exact h, ?_⟩
      cases h
      simp
    · cases a with
      | zero =>
        rw [addBudget_zero] at h
        exact .inr
          ⟨m, fuel + 1, run_exhausted _ hf, h, Nat.le_refl _, fun ha => absurd ha (by simp)⟩
      | succ a =>
        have hlong : ¬m.Halted (addBudget (a + 1) budget) :=
          not_or.2 ⟨hf, addBudget_succ_ne_zero a budget⟩
        have hshort : ¬m.Halted (some (a + 1)) := not_or.2 ⟨hf, by simp⟩
        rw [run_succ _ hlong, budgetAfter_addBudget] at h
        rw [run_succ _ hshort]
        -- The turn is the same in both runs, and so is what it does to the budgets.
        cases hb : budgetAfter (some (a + 1)) (m.turn p threshold).2 with
        | none =>
          rw [hb] at h
          refine .inl ⟨h, ?_⟩
          cases h
          exact endOfTurn_ne_suspended _
        | some rest =>
          obtain ⟨b, rfl⟩ := budgetAfter_some hb
          rw [hb] at h
          rcases ih h with hend | ⟨m', n, hrun, hrest, hn, -⟩
          · exact .inl hend
          · exact .inr ⟨m', n, hrun, hrest, by omega, fun _ => by omega⟩

/-- A run that was suspended and what follows are together one run with the budgets added. -/
theorem run_append {fuel fuel' a : Nat} {budget : Option Nat} {m m' : Machine} {r : Result}
    (h : m.run p threshold fuel (some a) = some (m', .ok .suspended))
    (h' : m'.run p threshold fuel' budget = some r) :
    m.run p threshold (fuel + fuel') (addBudget a budget) = some r := by
  induction fuel generalizing a m with
  | zero => simp [run] at h
  | succ fuel ih =>
    by_cases hf : m.context.isFinished
    · rw [run_finished _ hf] at h
      simp at h
    · cases a with
      | zero =>
        rw [run_exhausted _ hf] at h
        cases h
        rw [addBudget_zero]
        exact run_mono (by omega) h'
      | succ a =>
        have hlong : ¬m.Halted (addBudget (a + 1) budget) :=
          not_or.2 ⟨hf, addBudget_succ_ne_zero a budget⟩
        have hshort : ¬m.Halted (some (a + 1)) := not_or.2 ⟨hf, by simp⟩
        rw [run_succ _ hshort] at h
        rw [Nat.succ_add, run_succ _ hlong, budgetAfter_addBudget]
        cases hb : budgetAfter (some (a + 1)) (m.turn p threshold).2 with
        | none =>
          rw [hb] at h
          exact absurd (congrArg Prod.snd (Option.some.inj h)) (endOfTurn_ne_suspended _)
        | some rest =>
          obtain ⟨b, rfl⟩ := budgetAfter_some hb
          rw [hb] at h
          exact ih h

/-- A run within a budget that ends for another reason ends so with a larger budget too. -/
theorem run_of_ne_suspended {fuel a : Nat} {budget : Option Nat} {m : Machine} {r : Result}
    (h : m.run p threshold fuel (some a) = some r) (hr : r.2 ≠ .ok .suspended) :
    m.run p threshold fuel (addBudget a budget) = some r := by
  induction fuel generalizing a m with
  | zero => simp [run] at h
  | succ fuel ih =>
    by_cases hf : m.context.isFinished
    · rw [run_finished _ hf] at h ⊢
      exact h
    · cases a with
      | zero =>
        rw [run_exhausted _ hf] at h
        cases h
        exact absurd rfl hr
      | succ a =>
        have hlong : ¬m.Halted (addBudget (a + 1) budget) :=
          not_or.2 ⟨hf, addBudget_succ_ne_zero a budget⟩
        have hshort : ¬m.Halted (some (a + 1)) := not_or.2 ⟨hf, by simp⟩
        rw [run_succ _ hshort] at h
        rw [run_succ _ hlong, budgetAfter_addBudget]
        cases hb : budgetAfter (some (a + 1)) (m.turn p threshold).2 with
        | none =>
          rw [hb] at h
          exact h
        | some rest =>
          obtain ⟨b, rfl⟩ := budgetAfter_some hb
          rw [hb] at h
          exact ih h

/-- **Going on after a suspension.** What a suspended run goes on to is what the run with both
budgets gives. -/
theorem ends_iff_of_suspended {a : Nat} {m m' : Machine}
    (h : m.Ends p threshold (some a) (m', .ok .suspended)) (budget : Option Nat) (r : Result) :
    m'.Ends p threshold budget r ↔ m.Ends p threshold (addBudget a budget) r := by
  obtain ⟨n, hn⟩ := h
  constructor
  · rintro ⟨n', hn'⟩
    exact ⟨n + n', run_append hn hn'⟩
  · rintro ⟨n', hn'⟩
    rcases run_split hn' with ⟨hend, hne⟩ | ⟨m'', rest, hrun, hrest, -, -⟩
    · exact absurd (congrArg Prod.snd (Ends.unique ⟨n', hend⟩ ⟨n, hn⟩)) hne
    · have hm : m'' = m' := congrArg Prod.fst (Ends.unique ⟨n', hrun⟩ ⟨n, hn⟩)
      exact ⟨rest, hm ▸ hrest⟩

/-! ### Runs in slices -/

/-- A run in slices goes on after a slice that was suspended, and ends with another one. -/
theorem runSlices_succ {slice sliceFuel fuel : Nat} {m : Machine} {r : Result}
    (h : m.runSlices p threshold slice sliceFuel (fuel + 1) = some r) :
    (m.run p threshold sliceFuel (some slice) = some r ∧ r.2 ≠ .ok .suspended) ∨
      ∃ m', m.run p threshold sliceFuel (some slice) = some (m', .ok .suspended) ∧
        m'.runSlices p threshold slice sliceFuel fuel = some r := by
  rw [runSlices] at h
  split at h
  · rename_i m' hs
    exact .inr ⟨m', hs, h⟩
  · rename_i hne
    exact .inl ⟨h, fun hr => hne r.1 (by rw [h, ← hr])⟩

/-- A run in slices that ends has the result of the run without slices. -/
theorem ends_of_runSlices {slice sliceFuel fuel : Nat} {m : Machine} {r : Result}
    (h : m.runSlices p threshold slice sliceFuel fuel = some r) : m.Ends p threshold none r := by
  induction fuel generalizing m with
  | zero => simp [runSlices] at h
  | succ fuel ih =>
    rcases runSlices_succ h with ⟨hs, hr⟩ | ⟨m', hs, hrest⟩
    · have hall : m.run p threshold sliceFuel (addBudget slice none) = some r :=
        run_of_ne_suspended hs hr
      exact ⟨sliceFuel, hall⟩
    · exact (ends_iff_of_suspended ⟨_, hs⟩ none r).1 (ih hrest)

/-- A run without slices that ends has the result of the run in slices that are not empty. The
slices together take no more turns than the run. -/
theorem runSlices_of_run {slice sliceFuel fuel : Nat} (hslice : 0 < slice)
    (hle : fuel ≤ sliceFuel) {m : Machine} {r : Result}
    (h : m.run p threshold fuel none = some r) :
    m.runSlices p threshold slice sliceFuel fuel = some r := by
  induction fuel using Nat.strongRecOn generalizing m with
  | ind fuel ih =>
    cases fuel with
    | zero => simp [run] at h
    | succ fuel =>
      rw [runSlices]
      have hall : m.run p threshold (fuel + 1) (addBudget slice none) = some r := h
      rcases run_split hall with
        ⟨hend, hne⟩ | ⟨m', rest, hs, hrest, -, hlt⟩
      · rw [run_mono hle hend]
        split
        · rename_i he
          cases he
          exact absurd rfl hne
        · rfl
      · rw [run_mono hle hs]
        have hrest' : rest ≤ fuel := Nat.le_of_lt_succ (hlt hslice)
        exact runSlices_mono (Nat.le_refl _) hrest' (ih rest (hlt hslice) (by omega) hrest)

/-- **Slices do not matter to a machine.** -/
theorem driveEnds_iff (slice : Nat) (m : Machine) (r : Result) :
    m.DriveEnds p threshold slice r ↔ m.Ends p threshold none r := by
  simp only [DriveEnds, drive]
  split
  · exact Iff.rfl
  · rename_i hslice
    constructor
    · rintro ⟨fuel, h⟩
      exact ends_of_runSlices h
    · rintro ⟨fuel, h⟩
      exact ⟨fuel, runSlices_of_run (Nat.pos_of_ne_zero hslice) (Nat.le_refl _) h⟩

end Machine

/-! ### Sessions -/

namespace Session

variable {p : Program}

/-- The session with slices of another length. -/
def withTimeslice (slice : Nat) (s : Session) : Session :=
  { s with config := { s.config with timeslice := slice } }

/-- **Slices do not matter to a session**: a run of tasks with slices of one length ends as with
slices of any other length. -/
theorem TasksEnd.withTimeslice {ts : List Task} {s : Session} {slice : Nat} {r : Result}
    (h : (s.withTimeslice slice).TasksEnd p ts r) (slice' : Nat) :
    (s.withTimeslice slice').TasksEnd p ts (r.1.withTimeslice slice', r.2) := by
  obtain ⟨fuel, h⟩ := h
  induction ts generalizing s with
  | nil =>
    cases h
    exact ⟨0, rfl⟩
  | cons t ts ih =>
    rw [runTasks_cons] at h
    split at h
    · rename_i e he
      cases h
      refine ⟨0, ?_⟩
      rw [runTasks_cons]
      simp only [Session.withTimeslice] at he ⊢
      rw [he]
      rfl
    · rename_i hok
      obtain ⟨done, hd, h⟩ := Option.bind_eq_some_iff.1 h
      have hends : (taskMachine p t s).Ends p s.config.gcThreshold none done :=
        (Machine.driveEnds_iff slice _ done).1 ⟨fuel, hd⟩
      obtain ⟨n, hn⟩ := (Machine.driveEnds_iff slice' _ done).2 hends
      have hdrive : ∀ n', n ≤ n' →
          ((s.withTimeslice slice').taskMachine p t).drive p
            (s.withTimeslice slice').config.gcThreshold
            (s.withTimeslice slice').config.timeslice n' = some done :=
        fun n' hle => Machine.drive_mono hle hn
      split at h
      · rename_i status hst
        cases h
        refine ⟨n, ?_⟩
        rw [runTasks_cons, hdrive n (Nat.le_refl _), Option.bind_some, hst]
        simp only [Session.withTimeslice] at hok ⊢
        rw [hok]
        rfl
      · rename_i hst
        obtain ⟨n', hn'⟩ := ih (s := (s.begun p t).record done.1) h
        refine ⟨max n n', ?_⟩
        rw [runTasks_cons, hdrive _ (Nat.le_max_left n n'), Option.bind_some, hst]
        simp only [Session.withTimeslice] at hok ⊢
        rw [hok]
        exact runTasks_mono (Nat.le_max_right n n') hn'

/-- A run of a program with slices of one length ends as with slices of any other length. -/
theorem Ends.withTimeslice {s : Session} {slice : Nat} {r : Result}
    (h : (s.withTimeslice slice).Ends p r) (slice' : Nat) :
    (s.withTimeslice slice').Ends p (r.1.withTimeslice slice', r.2) := by
  obtain ⟨fuel, h⟩ := h
  by_cases hrun : s.config.run
  · have hrun' : ∀ n, (s.withTimeslice n).config.run = true := fun _ => hrun
    rw [run, if_pos (hrun' slice)] at h
    obtain ⟨n, hn⟩ := TasksEnd.withTimeslice ⟨fuel, h⟩ slice'
    exact ⟨n, by rw [run, if_pos (hrun' slice')]; exact hn⟩
  · have hrun' : ∀ n, ¬(s.withTimeslice n).config.run = true := fun _ => hrun
    rw [run, if_neg (hrun' slice)] at h
    cases h
    exact ⟨0, by rw [run, if_neg (hrun' slice')]; rfl⟩

end Session

/-! ### Slices are invisible -/

/-- **Time slicing is invisible.** For every program, whatever its tables hold:

* a run of `a` charged steps that is suspended, followed by a run of `b` of them, is one run of
  `a + b`: the two end together, with the same machine (context, debugger, input and sink) and for
  the same reason;
* a run in slices of any length ends exactly when the run without slices does, and leaves the same
  machine for the same reason;
* a run of the program in a session, with slices of one length, ends as it does with slices of any
  other length: with the same status or fault, the same debugger, input and sink, and the same
  contexts. -/
theorem timeslice_invisible (p : Program) :
    (∀ (threshold a b : Nat) (m m' : Machine),
      m.Ends p threshold (some a) (m', .ok .suspended) →
        ∀ r, m'.Ends p threshold (some b) r ↔ m.Ends p threshold (some (a + b)) r) ∧
    (∀ (threshold slice : Nat) (m : Machine) (r : Machine.Result),
      m.DriveEnds p threshold slice r ↔ m.Ends p threshold none r) ∧
    ∀ (s : Session) (slice slice' : Nat) (r : Session.Result),
      (s.withTimeslice slice).Ends p r →
        (s.withTimeslice slice').Ends p (r.1.withTimeslice slice', r.2) :=
  ⟨fun _ _ b _ _ h r => Machine.ends_iff_of_suspended h (some b) r,
    fun _ slice m r => Machine.driveEnds_iff slice m r,
    fun _ _ slice' _ h => h.withTimeslice slice'⟩

/-- A program that jumps back to its first statement for ever. -/
def Program.endless : Program :=
  { Program.base with
    stmts := #[⟨.label "top", some ⟨1⟩, none, rootScope⟩, ⟨.goto ⟨0⟩, none, none, rootScope⟩]
    modules := #[⟨"m", some ⟨0⟩, rootScope⟩] }

/-- A session that is interrupted at its start, takes two single steps and is then quit. -/
def Session.steppedTwice : Session :=
  .start ⟨true, true, 1, 0, 1⟩ [.text "step\n", .text "\n", .text "quit\n"] (.ofLimit none)

/-- The endless program is suspended after two steps, of which each is a label that was jumped to,
and goes on from there; in slices of one step it is quit as it is without slices. -/
theorem timeslice_invisible_endless :
    (∃ m', (Session.steppedTwice.machine (.start (some ⟨0⟩) Program.rootScope)).Ends
        Program.endless 1 (some 1) (m', .ok .suspended) ∧
      ∀ r, m'.Ends Program.endless 1 (some 1) r ↔
        (Session.steppedTwice.machine (.start (some ⟨0⟩) Program.rootScope)).Ends
          Program.endless 1 (some 2) r) ∧
    ∃ r, (Session.steppedTwice.withTimeslice 1).Ends Program.endless r ∧
      (Session.steppedTwice.withTimeslice 0).Ends Program.endless (r.1.withTimeslice 0, r.2) := by
  constructor
  · have h : (Session.steppedTwice.machine (.start (some ⟨0⟩) Program.rootScope)).Ends
        Program.endless 1 (some 1) (_, .ok .suspended) := ⟨5, rfl⟩
    exact ⟨_, h, (timeslice_invisible Program.endless).1 1 1 1 _ _ h⟩
  · have h : ((Session.steppedTwice.withTimeslice 1).run Program.endless 9).isSome := by decide
    obtain ⟨r, hr⟩ := Option.isSome_iff_exists.1 h
    exact ⟨r, ⟨9, hr⟩, (timeslice_invisible Program.endless).2.2 Session.steppedTwice 1 0 r ⟨9, hr⟩⟩

end TreeMachine
