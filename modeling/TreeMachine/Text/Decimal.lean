import TreeMachine.Word

/-!
# Numerals

Natural numbers and integers as digits of base ten: how they are written, and how a run of digits is
read. Digits of other bases are only read.

The readers come in the shapes in which the program needs them: a run of digits without anything
else, one after an optional plus sign and up to a limit, and one after an optional sign and within
64 bits. None of them accepts blanks or an empty run. What has too many digits is read first and
compared then, as there is no bound on natural numbers here.

Characters count as digits by their code and not by what Unicode says of them, so there are ten
digits of base ten.
-/

namespace TreeMachine.Text

/-- The digit that a character stands for. -/
def digit? (c : Char) : Option Nat :=
  if '0' ≤ c ∧ c ≤ '9' then some (c.toNat - '0'.toNat) else none

/-- The digit that a character stands for, zero for all other characters. -/
def digitValue (c : Char) : Nat :=
  (digit? c).getD 0

/-- Whether a character is a decimal digit. -/
def isDigit (c : Char) : Bool :=
  '0' ≤ c && c ≤ '9'

/-- The number that a run of digits denotes. -/
def ofDigits (ds : List Char) : Nat :=
  ds.foldl (fun n d => n * 10 + digitValue d) 0

/-- The digits of a number, without leading zeros. -/
def digits (n : Nat) : List Char :=
  Nat.toDigits 10 n

/-- Reads a nonempty run of digits. -/
def readNat? (ds : List Char) : Option Nat :=
  if ds.isEmpty || !ds.all isDigit then none else some (ofDigits ds)

/-- Reads digits after an optional plus sign, up to a largest value. -/
def readUnsigned? (limit : Nat) (cs : List Char) : Option Nat :=
  let ds := match cs with
    | '+' :: ds => ds
    | ds => ds
  (readNat? ds).filter (· ≤ limit)

/-- Reads digits after an optional sign, within the range of 64-bit integers. -/
def readInt64? (cs : List Char) : Option Int64 :=
  let number : Option Int := match cs with
    | '-' :: ds => (readNat? ds).map fun n => -(n : Int)
    | '+' :: ds => (readNat? ds).map fun n => (n : Int)
    | ds => (readNat? ds).map fun n => (n : Int)
  number.bind Word.signed?

/-- An integer in digits, with a minus sign below zero. -/
def signed (n : Int) : String :=
  if n < 0 then .ofList ('-' :: digits n.natAbs) else .ofList (digits n.natAbs)

/-- A natural number in digits. -/
def natural (n : Nat) : String :=
  .ofList (digits n)

/-! ### Other bases -/

/-- Whether a character is a digit of base sixteen. -/
def isHexDigit (c : Char) : Bool :=
  isDigit c || ('a' ≤ c && c ≤ 'f') || ('A' ≤ c && c ≤ 'F')

/-- The value of a digit of a base up to sixteen. -/
def hexDigitValue (c : Char) : Nat :=
  if isDigit c then digitValue c else c.toLower.toNat - 'a'.toNat + 10

/-- The number that digits of a base of at most sixteen denote. -/
def ofBase (base : Nat) (ds : List Char) : Nat :=
  ds.foldl (fun n d => n * base + hexDigitValue d) 0

/-- Reads a nonempty run of digits of base sixteen. -/
def readHex? (ds : List Char) : Option Nat :=
  if ds.isEmpty || !ds.all isHexDigit then none else some (ofBase 16 ds)

/-- The character of a code point. -/
def charOfCode? (code : Nat) : Option Char :=
  if code.isValidChar then some (.ofNat code) else none

end TreeMachine.Text
