import Mathlib.Data.Int.Basic
import Mathlib.Algebra.Order.Group.Unbundled.Int
import Mathlib.Algebra.Order.Ring.Int
import TreeMachine.Primitive.Apply

/-!
# Arithmetic on integers

Two integers have their exact sum, difference, product, quotient and remainder, or a complaint
(`Primitive.integers_exact`). Nothing is ever wrapped around: a result that needs more than 64 bits
is refused, and so is every division by zero. The comparisons are those of the integers.

The specification is in terms of the integers that the words stand for. A result is exact or it is
outside of the 64 bits (`Primitive.Exactly`), and the pair of a quotient and a remainder has the
properties of truncated division: they recombine to the dividend, the remainder is smaller than the
divisor, and it has the sign of the dividend unless it is zero (`Primitive.Divided`). These
properties determine both. The one quotient that does not fit is that of the least integer by minus
one; the remainder of the same pair, which would be zero, is refused together with it.

An operation is carried out on integers of any size first, and only its result has to fit
(`Primitive.operation_apply`). So what is to be shown is that quotients and remainders do fit apart
from the exception (`Primitive.fits_tdiv`, `Primitive.fits_tmod`), and that the order of words is
that of the integers.

Doubles are left out. With a double among the operands there is no complaint about zero, and a
result may be infinite or no number.
-/

namespace TreeMachine

theorem Word.signed?_cases (n : Int) :
    (∃ m : Int64, m.toInt = n ∧ Word.signed? n = some m) ∨
      ((n < -2 ^ 63 ∨ 2 ^ 63 ≤ n) ∧ Word.signed? n = none) := by
  rw [signed?, minSigned, maxSigned]
  split
  · rename_i h
    exact .inl ⟨_, Int64.toInt_ofInt_of_le (by omega) (by omega), rfl⟩
  · exact .inr ⟨by omega, rfl⟩

namespace Primitive

/-- The primitive answers two integers with `r`, whatever the heap and the sink, and touches
neither. -/
def Gives (q : Primitive) (x y : Int64) (r : Except Complaint Value) : Prop :=
  ∀ heap sink, q.apply [.int x, .int y] heap sink = ⟨heap, sink, r⟩

/-- An answer that is the exact result `n`, or the complaint that it does not fit 64 bits. -/
inductive Exactly (q : Primitive) (n : Int) : Except Complaint Value → Prop
  | fits (m : Int64) (exact : m.toInt = n) : Exactly q n (.ok (.int m))
  | overflows (outside : n < -2 ^ 63 ∨ 2 ^ 63 ≤ n) : Exactly q n (.error (.integerOverflow q.name))

/-- The answers to a division of `x` by `y`: its quotient and its remainder. -/
inductive Divided (x y : Int64) : Except Complaint Value → Except Complaint Value → Prop
  | byZero (zero : y.toInt = 0) : Divided x y (.error .divisionByZero) (.error .divisionByZero)
  | overflows (least : x.toInt = -2 ^ 63) (minusOne : y.toInt = -1) :
    Divided x y (.error (.integerOverflow "/")) (.error (.integerOverflow "%"))
  | truncated (q r : Int64) (nonzero : y.toInt ≠ 0)
    (representable : ¬(x.toInt = -2 ^ 63 ∧ y.toInt = -1))
    (recombines : x.toInt = q.toInt * y.toInt + r.toInt)
    (small : |r.toInt| < |y.toInt|)
    (signed : r.toInt = 0 ∨ r.toInt.sign = x.toInt.sign) :
    Divided x y (.ok (.int q)) (.ok (.int r))

variable {x y : Int64}

/-! ### Sums, differences and products -/

theorem exactly_fitting (q : Primitive) (n : Int) : Exactly q n (fitting q.name n) := by
  rw [fitting]
  rcases Word.signed?_cases n with ⟨m, hm, hs⟩ | ⟨hn, hs⟩ <;> rw [hs]
  · exact .fits m hm
  · exact .overflows hn

/-- An operation is carried out on the integers themselves; only its result has to fit. -/
theorem operation_apply (op : Operation) (x y : Int64) :
    op.apply (.int x) (.int y) = op.onInts x.toInt y.toInt >>= fitting op.name :=
  rfl

theorem add_exactly (x y : Int64) : ∃ r, add.Gives x y r ∧ Exactly add (x.toInt + y.toInt) r :=
  ⟨_, fun _ _ => rfl, exactly_fitting add _⟩

theorem sub_exactly (x y : Int64) : ∃ r, sub.Gives x y r ∧ Exactly sub (x.toInt - y.toInt) r :=
  ⟨_, fun _ _ => rfl, exactly_fitting sub _⟩

theorem mul_exactly (x y : Int64) : ∃ r, mul.Gives x y r ∧ Exactly mul (x.toInt * y.toInt) r :=
  ⟨_, fun _ _ => rfl, exactly_fitting mul _⟩

/-! ### Quotients and remainders -/

theorem natAbs_tmod_lt (a : Int) {b : Int} (hb : b ≠ 0) : (a.tmod b).natAbs < b.natAbs := by
  rw [Int.natAbs_tmod]
  exact Nat.mod_lt _ (by omega)

/-- A truncated quotient is no larger than the dividend, so it fits unless the least integer is
negated. -/
theorem fits_tdiv (hne : ¬(x.toInt = -2 ^ 63 ∧ y.toInt = -1)) :
    -2 ^ 63 ≤ x.toInt.tdiv y.toInt ∧ x.toInt.tdiv y.toInt < 2 ^ 63 := by
  have hlow := Int64.le_toInt x
  have hhigh := Int64.toInt_lt x
  have hle := Int.natAbs_tdiv_le_natAbs x.toInt y.toInt
  refine ⟨by omega, lt_of_le_of_ne (by omega) fun hq => ?_⟩
  have hx : x.toInt = -2 ^ 63 := by omega
  by_cases hy : y.toInt = 0
  · rw [hy, Int.tdiv_zero] at hq
    omega
  · -- `x = 2 ^ 63 * y + r` with `r` smaller than `y` leaves only `y = -1`
    have hr := natAbs_tmod_lt x.toInt hy
    have hsum := Int.mul_tdiv_add_tmod x.toInt y.toInt
    rw [hq] at hsum
    exact hne ⟨hx, by omega⟩

/-- A remainder is smaller than the divisor, so it fits. -/
theorem fits_tmod (x y : Int64) :
    -2 ^ 63 ≤ x.toInt.tmod y.toInt ∧ x.toInt.tmod y.toInt < 2 ^ 63 := by
  by_cases hy : y.toInt = 0
  · rw [hy, Int.tmod_zero]
    exact ⟨Int64.le_toInt x, Int64.toInt_lt x⟩
  · have hlow := Int64.le_toInt y
    have hhigh := Int64.toInt_lt y
    have hlt := natAbs_tmod_lt x.toInt hy
    omega

theorem fitting_of_fits {n : Int} (op : String) (h : -2 ^ 63 ≤ n ∧ n < 2 ^ 63) :
    ∃ m : Int64, m.toInt = n ∧ fitting op n = .ok (.int m) := by
  rcases Word.signed?_cases n with ⟨m, hm, hs⟩ | ⟨hn, -⟩
  · exact ⟨m, hm, by rw [fitting, hs]⟩
  · omega

theorem div_rem_divided (x y : Int64) :
    ∃ a b, div.Gives x y a ∧ rem.Gives x y b ∧ Divided x y a b := by
  refine ⟨_, _, fun _ _ => rfl, fun _ _ => rfl, ?_⟩
  change Divided x y (division.apply (.int x) (.int y)) (remaindering.apply (.int x) (.int y))
  rw [operation_apply, operation_apply]
  simp only [division, remaindering, unlessZero]
  by_cases hleast : x.toInt = -2 ^ 63 ∧ y.toInt = -1
  · obtain ⟨hx, hy⟩ := hleast
    rw [hx, hy]
    exact .overflows hx hy
  have hmin : ¬(x.toInt = Word.minSigned ∧ y.toInt = -1) := hleast
  rw [if_neg hmin]
  by_cases hy : y.toInt = 0
  · rw [if_pos hy, if_pos hy]
    exact .byZero hy
  · rw [if_neg hy, if_neg hy]
    obtain ⟨q, hq, hgives⟩ := fitting_of_fits div.name (fits_tdiv hleast)
    obtain ⟨r, hr, hgives'⟩ := fitting_of_fits rem.name (fits_tmod x y)
    change Divided x y (fitting div.name _) (fitting rem.name _)
    rw [hgives, hgives']
    refine .truncated q r hy hleast ?_ ?_ ?_
    · rw [hq, hr, Int.mul_comm, Int.mul_tdiv_add_tmod]
    · rw [hr, Int.abs_eq_natAbs, Int.abs_eq_natAbs]
      exact_mod_cast natAbs_tmod_lt x.toInt hy
    · rw [hr, Int.sign_tmod]
      split
      · rename_i hdvd
        exact .inl (Int.tmod_eq_zero_of_dvd hdvd)
      · exact .inr rfl

/-! ### Comparisons -/

/-- A comparison answers what the order of the two integers is. -/
theorem comparison_apply (c : Comparison) (x y : Int64) :
    c.apply (.int x) (.int y) = .ok (c.holds (compare x.toInt y.toInt)) :=
  rfl

theorem gives_comparison {q : Primitive} {c : Comparison} {P : Prop} [Decidable P]
    (hq : q.compute (.int x) (.int y) = (c.apply (.int x) (.int y)).map Value.bool)
    (hgives : q.Gives x y (q.compute (.int x) (.int y)))
    (hP : c.holds (compare x.toInt y.toInt) = true ↔ P) : q.Gives x y (.ok (.bool (decide P))) := by
  have hb : c.holds (compare x.toInt y.toInt) = decide P :=
    Bool.eq_iff_iff.2 (hP.trans (decide_eq_true_iff (p := P)).symm)
  rw [hq, comparison_apply, hb] at hgives
  exact hgives

theorem beq_eq_decide (x y : Int64) : (x == y) = decide (x.toInt = y.toInt) := by
  rw [Bool.eq_iff_iff, beq_iff_eq, decide_eq_true_iff, Int64.toInt_inj]

end Primitive

/-! ### All operations -/

open Primitive in
/-- **Integer primitives are exact or complain.** For any two 64-bit integers, sums, differences and
products are the exact ones, or refused when these do not fit; a quotient and a remainder are those
of truncated division, refused exactly for a divisor of zero and for the one quotient that does not
fit; and the comparisons are those of the integers. Neither the heap nor the sink is touched. -/
theorem Primitive.integers_exact (x y : Int64) :
    ((∃ r, add.Gives x y r ∧ Exactly add (x.toInt + y.toInt) r) ∧
      (∃ r, sub.Gives x y r ∧ Exactly sub (x.toInt - y.toInt) r) ∧
      (∃ r, mul.Gives x y r ∧ Exactly mul (x.toInt * y.toInt) r)) ∧
    (∃ a b, div.Gives x y a ∧ rem.Gives x y b ∧ Divided x y a b) ∧
    (lt.Gives x y (.ok (.bool (decide (x.toInt < y.toInt)))) ∧
      le.Gives x y (.ok (.bool (decide (x.toInt ≤ y.toInt)))) ∧
      gt.Gives x y (.ok (.bool (decide (x.toInt > y.toInt)))) ∧
      ge.Gives x y (.ok (.bool (decide (x.toInt ≥ y.toInt)))) ∧
      eq.Gives x y (.ok (.bool (decide (x.toInt = y.toInt)))) ∧
      ne.Gives x y (.ok (.bool (decide (x.toInt ≠ y.toInt))))) := by
  refine ⟨⟨add_exactly x y, sub_exactly x y, mul_exactly x y⟩, div_rem_divided x y, ?_, ?_, ?_, ?_,
    ?_, ?_⟩
  · exact gives_comparison (c := less) rfl (fun _ _ => rfl)
      (Ordering.isLT_iff_eq_lt.trans compare_lt_iff_lt)
  · exact gives_comparison (c := lessOrEqual) rfl (fun _ _ => rfl) Int.isLE_compare
  · exact gives_comparison (c := greater) rfl (fun _ _ => rfl)
      (Ordering.isGT_iff_eq_gt.trans compare_gt_iff_gt)
  · exact gives_comparison (c := greaterOrEqual) rfl (fun _ _ => rfl) Int.isGE_compare
  · rw [← beq_eq_decide]
    exact fun _ _ => rfl
  · rw [decide_not, ← beq_eq_decide]
    exact fun _ _ => rfl

end TreeMachine
