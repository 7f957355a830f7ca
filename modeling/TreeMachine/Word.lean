/-!
# Words

The numbers that fit into 32 and 64 bits.
-/

namespace TreeMachine.Word

/-- The largest number of 32 bits, `2 ^ 32 - 1`. -/
def max32 : Nat := 0xFFFFFFFF

/-- The largest number of 64 bits, `2 ^ 64 - 1`. -/
def max64 : Nat := 0xFFFFFFFFFFFFFFFF

/-- The largest signed integer of 64 bits, `2 ^ 63 - 1`. -/
def maxSigned : Int := 0x7FFFFFFFFFFFFFFF

/-- The least signed integer of 64 bits, `-2 ^ 63`. -/
def minSigned : Int := -0x8000000000000000

/-- The signed integer of 64 bits that an integer is. -/
def signed? (n : Int) : Option Int64 :=
  if minSigned ≤ n ∧ n ≤ maxSigned then some (.ofInt n) else none

end TreeMachine.Word
