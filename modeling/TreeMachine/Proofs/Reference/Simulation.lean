import TreeMachine.Proofs.Reference.Evaluator
import TreeMachine.Execution.Step

/-!
# Simulating a computation

A state is what a step of the machine depends on: the activations, the heap and the sink, but not
the count of steps. `Simulates` compares the outcome of a computation with what the machine does
from a state on. A computation that has a result leads to a state as described; one that fails leads
to a step that fails likewise; and one whose fuel does not suffice leads to as many steps as there
was fuel, so that a computation without any outcome belongs to a run without an end.

The third case is what makes the comparison exact. If the evaluator has no outcome with any fuel,
then the machine takes any number of steps, and it does not end. For this each unit of fuel has to
be worth a step, and so a simulation also has a least number of steps: what uses up a unit of fuel
takes at least one.

Computations one after the other are simulated one after the other (`Simulates.bind`). The fuel of
the second one may be less than that of the first by as many units as the first takes steps at
least. The two instances that are used have the same fuel for both, or one unit less for the second
after a step. With these and with rules for results, failures and single steps, the proofs follow
the text of the evaluator line by line.

States are compared without traces and collections. Those are added to whole runs, where it is known
that they do not matter.
-/

namespace TreeMachine

/-- What a step depends on. -/
structure State where
  frames : List Frame
  heap : Heap
  sink : Sink

namespace State

/-- The context of a state after a number of steps. -/
def context (x : State) (steps : Nat) : Context :=
  ⟨x.frames, x.heap, steps⟩

/-- A step that leads from one state to the next. -/
def Takes (p : Program) (x y : State) : Prop :=
  x.frames ≠ [] ∧ ∀ steps, ∃ progress,
    (x.context steps).step p 0 x.sink = ⟨y.context steps, y.sink, .ok progress⟩

/-- A step that fails. What it leaves behind is a heap and a sink. -/
def Fails (p : Program) (x : State) (e : Fault) (heap : Heap) (sink : Sink) : Prop :=
  x.frames ≠ [] ∧ ∀ steps, ∃ frames,
    (x.context steps).step p 0 x.sink = ⟨⟨frames, heap, steps⟩, sink, .error e⟩

/-- A number of steps. -/
inductive Steps (p : Program) : Nat → State → State → Prop
  | refl (x : State) : Steps p 0 x x
  | step {n : Nat} {x y z : State} (h : x.Takes p y) (hn : Steps p n y z) : Steps p (n + 1) x z

namespace Steps

variable {p : Program} {x y z : State} {m n : Nat}

theorem one (h : x.Takes p y) : Steps p 1 x y :=
  .step h (.refl y)

theorem trans (h : Steps p m x y) (h' : Steps p n y z) : Steps p (m + n) x z := by
  induction h with
  | refl => rwa [Nat.zero_add]
  | step hs _ ih =>
    rw [Nat.add_right_comm]
    exact .step hs (ih h')

/-- A number of steps begins with any smaller number of them. -/
theorem first (h : Steps p n x z) (hm : m ≤ n) : ∃ y, Steps p m x y := by
  induction h generalizing m with
  | refl x =>
    obtain rfl : m = 0 := by omega
    exact ⟨x, .refl x⟩
  | @step n x y z hs _ ih =>
    cases m with
    | zero => exact ⟨x, .refl x⟩
    | succ m =>
      obtain ⟨y', hy'⟩ := ih (Nat.le_of_succ_le_succ hm)
      exact ⟨y', .step hs hy'⟩

end Steps

end State

/-! ### Simulation -/

/-- **The machine simulates a computation** with some fuel, from a state on. If the computation has
a result, the machine gets into a state as described by at least `least` steps. -/
def Simulates {α : Type} (p : Program) (least fuel : Nat) (x : State)
    (r : Option (Except Fault α × World)) (Q : α → World → State → Prop) : Prop :=
  match r with
  | none => ∃ y, State.Steps p fuel x y
  | some (.error e, w) => ∃ n y, State.Steps p n x y ∧ y.Fails p e w.heap w.sink
  | some (.ok a, w) => ∃ n y, least ≤ n ∧ State.Steps p n x y ∧ Q a w y

namespace Simulates

variable {α β : Type} {p : Program} {least fuel : Nat} {x y : State}
  {Q Q' : α → World → State → Prop} {R : β → World → State → Prop}

/-- A computation that has its result at once. -/
theorem result {a : α} {w : World} (h : Q a w x) : Simulates p 0 fuel x (some (.ok a, w)) Q :=
  ⟨0, x, Nat.le_refl 0, .refl x, h⟩

/-- A computation that fails at once. -/
theorem failure {e : Fault} {w : World} (h : x.Fails p e w.heap w.sink) :
    Simulates p least fuel x (some (.error e, w)) Q :=
  ⟨0, x, .refl x, h⟩

/-- A computation whose first step is known. -/
theorem step {r : Option (Except Fault α × World)} (h : x.Takes p y)
    (hr : Simulates p 0 fuel y r Q) : Simulates p 1 (fuel + 1) x r Q := by
  match r, hr with
  | none, ⟨z, hz⟩ => exact ⟨z, .step h hz⟩
  | some (.error e, w), ⟨n, z, hz, hf⟩ => exact ⟨n + 1, z, .step h hz, hf⟩
  | some (.ok a, w), ⟨n, z, _, hz, hQ⟩ => exact ⟨n + 1, z, Nat.le_add_left 1 n, .step h hz, hQ⟩

theorem imp {r : Option (Except Fault α × World)} (h : Simulates p least fuel x r Q)
    (hQ : ∀ a w y, Q a w y → Q' a w y) : Simulates p least fuel x r Q' := by
  match r, h with
  | none, h => exact h
  | some (.error _, _), h => exact h
  | some (.ok a, w), ⟨n, y, hn, hy, h⟩ => exact ⟨n, y, hn, hy, hQ a w y h⟩

/-- More steps after the result. -/
theorem andThen {r : Option (Except Fault α × World)} (h : Simulates p least fuel x r Q)
    (hQ : ∀ a w y, Q a w y → ∃ n z, State.Steps p n y z ∧ Q' a w z) :
    Simulates p least fuel x r Q' := by
  match r, h with
  | none, h => exact h
  | some (.error _, _), h => exact h
  | some (.ok a, w), ⟨n, y, hn, hy, h⟩ =>
    obtain ⟨k, z, hz, hQ'⟩ := hQ a w y h
    exact ⟨n + k, z, Nat.le_trans hn (Nat.le_add_right n k), hy.trans hz, hQ'⟩

/-- Fewer steps, and less fuel, are asked for. -/
theorem weaken {r : Option (Except Fault α × World)} {least' fuel' : Nat}
    (h : Simulates p least fuel x r Q) (hleast : least' ≤ least) (hfuel : fuel' ≤ fuel) :
    Simulates p least' fuel' x r Q := by
  match r, h with
  | none, ⟨y, hy⟩ => exact hy.first hfuel
  | some (.error _, _), h => exact h
  | some (.ok a, w), ⟨n, y, hn, hy, hQ⟩ => exact ⟨n, y, Nat.le_trans hleast hn, hy, hQ⟩

/-- No step is asked for. -/
theorem noLeast {r : Option (Except Fault α × World)} (h : Simulates p 1 fuel x r Q) :
    Simulates p 0 fuel x r Q :=
  h.weaken (Nat.zero_le 1) (Nat.le_refl fuel)

/-- No step is asked for, nor the fuel for one. -/
theorem lessFuel {r : Option (Except Fault α × World)} (h : Simulates p 1 (fuel + 1) x r Q) :
    Simulates p 0 fuel x r Q :=
  h.weaken (Nat.zero_le 1) (Nat.le_succ fuel)

/-- **Computations one after the other.** The second one has at most as much less fuel as the first
one takes steps. -/
theorem bind {m : Eval α} {f : α → Eval β} {w : World} {fuel' : Nat}
    (h : Simulates p least fuel x (m w) Q)
    (hf : ∀ a w' y, Q a w' y → Simulates p 0 fuel' y (f a w') R)
    (hfuel : fuel ≤ least + fuel') : Simulates p least fuel x ((m >>= f) w) R := by
  have hbind : (m >>= f) w = match m w with
    | none => none
    | some (.error e, w) => some (.error e, w)
    | some (.ok a, w) => f a w := rfl
  rw [hbind]
  match m w, h with
  | none, h => exact h
  | some (.error _, _), h => exact h
  | some (.ok a, w'), ⟨n, y, hn, hy, hQ⟩ =>
    -- The `n` steps so far make up for the fuel that the second computation has less.
    have hnext := hf a w' y hQ
    dsimp only
    match f a w', hnext with
    | none, ⟨z, hz⟩ =>
      obtain ⟨z', hz'⟩ := (hy.trans hz).first (m := fuel) (by omega)
      exact ⟨z', hz'⟩
    | some (.error e, w''), ⟨k, z, hz, hfails⟩ => exact ⟨n + k, z, hy.trans hz, hfails⟩
    | some (.ok b, w''), ⟨k, z, _, hz, hR⟩ =>
      exact ⟨n + k, z, Nat.le_trans hn (Nat.le_add_right n k), hy.trans hz, hR⟩

/-- The second computation has the fuel of the first one. -/
theorem bindSame {m : Eval α} {f : α → Eval β} {w : World}
    (h : Simulates p least fuel x (m w) Q)
    (hf : ∀ a w' y, Q a w' y → Simulates p 0 fuel y (f a w') R) :
    Simulates p least fuel x ((m >>= f) w) R :=
  h.bind hf (Nat.le_add_left fuel least)

/-- The second computation has one unit of fuel less than the first one, which takes a step. -/
theorem bindLess {m : Eval α} {f : α → Eval β} {w : World}
    (h : Simulates p 1 (fuel + 1) x (m w) Q)
    (hf : ∀ a w' y, Q a w' y → Simulates p 0 fuel y (f a w') R) :
    Simulates p 1 (fuel + 1) x ((m >>= f) w) R :=
  h.bind hf (Nat.le_of_eq (Nat.add_comm fuel 1))

/-- A result that is looked at, or a complaint at the next step. -/
theorem ofExcept {place : Place} {r : Except Complaint α} {w : World}
    (hok : ∀ a, r = .ok a → Simulates p least fuel x (some (.ok a, w)) Q)
    (herror : ∀ c, r = .error c → x.Fails p (.user place c) w.heap w.sink) :
    Simulates p least fuel x (Eval.ofExcept place r w) Q := by
  cases r with
  | ok a => exact hok a rfl
  | error c => exact failure (herror c rfl)

end Simulates

end TreeMachine
