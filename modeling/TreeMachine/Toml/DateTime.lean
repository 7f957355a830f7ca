import TreeMachine.Text.Decimal
import TreeMachine.Toml.Value

/-!
# Dates and times

Dates and times are literals. There is a second way to write them: a table whose first key is a
certain one stands for the date or time that the string under this key is, and its other fields do
not matter. Such strings are read with wider bounds than literals, which are parameters here
(`DateTimeBounds`).

A date is four, two and two digits with dashes between them, and the day is one that the month has
in that year. A time is hours, minutes and seconds of two digits each, possibly with a fraction; the
second may be 60. Both can stand together with a mark between them, and then the time may be
followed by its distance from universal time. Nothing is computed: a date or time keeps the text
that it is written as, and becomes a text when it is used as a setting.

Tables that stand for dates and times are found when the document is complete (`Value.settle?`),
because only then it is known which key of a table is the first one. If the string under the key is
no date or time the document is refused.
-/

namespace TreeMachine.Toml

/-- What hours there are in a day, and which hours and minutes are the distance of a local time from
universal time. -/
structure DateTimeBounds where
  lastHour : Nat
  isOffset : Nat → Nat → Bool

/-- The bounds in literals. -/
def DateTimeBounds.literal : DateTimeBounds :=
  ⟨23, fun hours minutes => hours ≤ 23 && minutes ≤ 59⟩

/-- The bounds in strings: distances of up to a day. -/
def DateTimeBounds.string : DateTimeBounds :=
  ⟨24, fun hours minutes => hours * 60 + minutes ≤ 24 * 60⟩

/-- Splits a text at the first character of a class, which is left out. -/
def splitAtFirst (isMark : Char → Bool) (cs : List Char) : List Char × Option (List Char) :=
  match cs.span (!isMark ·) with
  | (before, []) => (before, none)
  | (before, _ :: after) => (before, some after)

/-- A number with a fixed count of digits, within bounds. -/
def field? (count low high : Nat) (cs : List Char) : Option Nat :=
  if cs.length = count then (Text.readNat? cs).filter fun n => low ≤ n && n ≤ high else none

/-- The number of days of a month. -/
def daysOfMonth (year month : Nat) : Nat :=
  if month = 2 then
    if year % 4 = 0 ∧ (year % 100 ≠ 0 ∨ year % 400 = 0) then 29 else 28
  else if month ∈ [4, 6, 9, 11] then 30
  else 31

/-- Whether a text is a date. -/
def isDate (cs : List Char) : Bool :=
  match cs.splitOn '-' with
  | [y, m, d] =>
    ((do
      let year ← field? 4 0 9999 y
      let month ← field? 2 1 12 m
      field? 2 1 (daysOfMonth year month) d) : Option Nat).isSome
  | _ => false

/-- Whether a text is an hour, a minute and a second, possibly with a fraction. -/
def isTime (bounds : DateTimeBounds) (cs : List Char) : Bool :=
  match cs.splitOn ':' with
  | [h, m, s] =>
    let (second, fraction) := splitAtFirst (· == '.') s
    (field? 2 0 bounds.lastHour h).isSome && (field? 2 0 59 m).isSome &&
      (field? 2 0 60 second).isSome && fraction.all fun ds => (Text.readNat? ds).isSome
  | _ => false

/-- Whether a text is the distance of a local time from universal time. -/
def isOffset (bounds : DateTimeBounds) (cs : List Char) : Bool :=
  match cs.splitOn ':' with
  | [h, m] =>
    match field? 2 0 99 h, field? 2 0 99 m with
    | some hours, some minutes => bounds.isOffset hours minutes
    | _, _ => false
  | _ => false

/-- Whether a text is a time, possibly with an offset. -/
def isZonedTime (bounds : DateTimeBounds) (cs : List Char) : Bool :=
  match splitAtFirst (fun c => c == 'Z' || c == 'z' || c == '+' || c == '-') cs with
  | (time, none) => isTime bounds time
  | (time, some offset) =>
    let mark := cs[time.length]?
    isTime bounds time &&
      if mark = some 'Z' ∨ mark = some 'z' then offset.isEmpty else isOffset bounds offset

/-- Whether a text is a date, a time, or both with a mark between them. -/
def isDateTime (bounds : DateTimeBounds) (cs : List Char) : Bool :=
  isDate cs || isTime bounds cs ||
    (isDate (cs.take 10) && isZonedTime bounds (cs.drop 11) &&
      (cs[10]? == some 'T' || cs[10]? == some 't' || cs[10]? == some ' '))

/-! ### Tables that stand for dates and times -/

/-- The key that makes a table stand for a date or time when it is the first one. -/
def dateTimeKey : String := "$__toml_private_datetime"

/-- Whether a table stands for a date or time. -/
def Fields.isDateTime (fields : Fields) : Bool :=
  fields.head?.any fun f => f.1 == dateTimeKey

/-- The date or time that a table stands for. -/
def Fields.dateTime? : Fields → Option Value
  | (_, .scalar (.text s)) :: _ =>
    if Toml.isDateTime .string s.toList then some (.dateTime s) else none
  | _ => none

mutual

/-- A value with dates and times in the places of the tables that stand for them. Nothing if such a
table has no date or time. -/
def Value.settle? : Value → Option Value
  | .scalar s => some (.scalar s)
  | .dateTime text => some (.dateTime text)
  | .array vs => (Value.settleAll? vs).map .array
  | .table origin fields =>
    if Fields.isDateTime fields then Fields.dateTime? fields
    else (Fields.settle? fields).map (.table origin)
  | .tables rows => (Fields.settleRows? rows).map .array

/-- The items of an array after settling. -/
def Value.settleAll? : List Value → Option (List Value)
  | [] => some []
  | v :: vs => do return (← v.settle?) :: (← Value.settleAll? vs)

/-- The fields of a table after settling. -/
def Fields.settle? : Fields → Option Fields
  | [] => some []
  | (k, v) :: fields => do return (k, ← v.settle?) :: (← Fields.settle? fields)

/-- Repeated tables after settling, as the items of an array. -/
def Fields.settleRows? : List Fields → Option (List Value)
  | [] => some []
  | row :: rows => do
    let v ←
      if Fields.isDateTime row then Fields.dateTime? row
      else (Fields.settle? row).map (.table .header)
    return (← Fields.settleRows? rows) ++ [v]

end

end TreeMachine.Toml
