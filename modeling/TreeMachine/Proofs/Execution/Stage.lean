import TreeMachine.Stage

/-!
# Laws of stages

The number of a stage of a call or of an arm means that stage, and a stage of an argument or of a
comparison is one of an argument or of a case that there is.

Stages are stored as numbers, since an activation keeps one number whatever it is evaluating, and
how many stages there are depends on the call or the arm. The handlers turn a number into a stage
and go on with that. So there are two directions: what a handler has stored is the stage that it
meant, and what is read from a number is within bounds, whatever the number.
-/

namespace TreeMachine

namespace CallStage

theorem ofNumber?_arg {n i : Nat} (hi : i < n) :
    ofNumber? n (number n (.arg i)) = some (.arg i) := by
  have hle : i + 1 ≤ n := hi
  simp [number, ofNumber?, hle]

theorem ofNumber?_invoke (n : Nat) : ofNumber? n (number n .invoke) = some .invoke := by
  have hnot : ¬n + 1 ≤ n := by omega
  simp [number, ofNumber?, hnot]

theorem ofNumber?_complete (n : Nat) : ofNumber? n (number n .complete) = some .complete := by
  have hnot : ¬n + 2 ≤ n := by omega
  simp [number, ofNumber?, hnot]

/-- A stage of an argument is one of an argument that there is. -/
theorem lt_of_ofNumber?_arg {n stage i : Nat} (h : ofNumber? n stage = some (.arg i)) : i < n := by
  unfold ofNumber? at h
  split at h
  · cases h
  · split at h
    · cases h
      omega
    · split at h
      · cases h
      · split at h <;> cases h

end CallStage

namespace ArmStage

theorem ofNumber?_compare {n i : Nat} (hi : i < n) :
    ofNumber? n (number n (.compare i)) = some (.compare i) := by
  have hle : i + 1 ≤ n := hi
  simp [number, ofNumber?, hle]

theorem ofNumber?_leave (n : Nat) : ofNumber? n (number n .leave) = some .leave := by
  have hnot : ¬n + 1 ≤ n := by omega
  simp [number, ofNumber?, hnot]

/-- A stage of a comparison is one of a case that there is. -/
theorem lt_of_ofNumber?_compare {n stage i : Nat} (h : ofNumber? n stage = some (.compare i)) :
    i < n := by
  unfold ofNumber? at h
  split at h
  · cases h
  · split at h
    · cases h
      omega
    · split at h <;> cases h

/-- Leaving the select is the last stage. -/
theorem le_of_isSome {n stage : Nat} (h : (ofNumber? n stage).isSome = true) : stage ≤ n + 1 := by
  unfold ofNumber? at h
  split at h
  · omega
  · split at h
    · omega
    · split at h
      · omega
      · cases h

end ArmStage

end TreeMachine
