import TreeMachine.Text.Decimal

/-!
# Laws of numerals

The digits of a number are digits (`isDigit_of_mem_digits`), they denote the number
(`ofDigits_digits`), and they do not begin with a zero unless the number is zero (`head?_digits`).

The digits are those of the library, so for the most part its lemmas are translated here. That they
denote the number is its statement about folding digits, where the value of a digit has to be
recognized as the one that readers use.
-/

namespace TreeMachine.Text

theorem digits_ne_nil (n : Nat) : digits n ≠ [] :=
  Nat.toDigits_ne_nil

theorem isDigit_of_mem_digits {n : Nat} {c : Char} (h : c ∈ digits n) : isDigit c = true := by
  have hdigit := Nat.isDigit_of_mem_toDigits (by omega) (by omega) h
  simpa [Char.isDigit, isDigit, Char.le_def] using hdigit

/-- The digits of a number denote it. -/
theorem ofDigits_digits (n : Nat) : ofDigits (digits n) = n := by
  have hvalue : ∀ c ∈ digits n, digitValue c = c.toNat - '0'.toNat := by
    intro c hc
    have hdigit := isDigit_of_mem_digits hc
    rw [isDigit, Bool.and_eq_true, decide_eq_true_eq, decide_eq_true_eq] at hdigit
    rw [digitValue, digit?, if_pos hdigit, Option.getD_some]
  have hfold : ∀ (l : List Char) (m : Nat), (∀ c ∈ l, digitValue c = c.toNat - '0'.toNat) →
      l.foldl (fun n d => n * 10 + digitValue d) m = Nat.ofDigitChars 10 l m := by
    intro l
    induction l with
    | nil => exact fun _ _ => rfl
    | cons c l ih =>
      intro m hl
      obtain ⟨hc, hl⟩ := List.forall_mem_cons.1 hl
      rw [List.foldl_cons, hc, Nat.mul_comm]
      exact ih _ hl
  rw [ofDigits, hfold _ _ hvalue]
  exact Nat.ofDigitChars_toDigits (by omega) (by omega)

/-- The first digit of a number above zero is not zero, by induction on the number of digits. -/
theorem head?_digits {n : Nat} (hn : 0 < n) : (digits n).head? ≠ some '0' := by
  induction n using Nat.strongRecOn with
  | ind n ih =>
    rw [digits, Nat.toDigits_eq_if (by omega)]
    split
    · rename_i hlt
      have hne : n.digitChar ≠ '0' := by
        intro hzero
        have hval := congrArg Char.toNat hzero
        rw [Nat.toNat_digitChar_of_lt_ten hlt] at hval
        simp at hval
        omega
      simpa using hne
    · rename_i hge
      have hhead : (Nat.toDigits 10 (n / 10) ++ [(n % 10).digitChar]).head? =
          (digits (n / 10)).head? := by
        cases hd : digits (n / 10) with
        | nil => exact absurd hd (digits_ne_nil _)
        | cons d ds =>
          have hd' : Nat.toDigits 10 (n / 10) = d :: ds := hd
          rw [hd']
          rfl
      rw [hhead]
      exact ih (n / 10) (by omega) (by omega)

end TreeMachine.Text
