/-!
# ContentMesh.Calendar.Stamp — a moment in UTC, by its civil fields

A `Stamp` is a date of the proleptic Gregorian calendar, of the years -262143 to 262142, and a time of day to the
nanosecond.  A leap second is second 59 with a nanosecond count of a thousand million or more.  Moving a stamp by an
offset from UTC changes its date by one day at most, so no count of days since an epoch is needed.
-/

namespace ContentMesh

/-- Whether a year has 366 days. -/
def leapYear (y : Int) : Bool := y % 4 == 0 && (y % 100 != 0 || y % 400 == 0)

/-- The days of a month. -/
def daysIn (y : Int) (m : Nat) : Nat :=
  if m = 2 then (if leapYear y then 29 else 28)
  else if m = 4 ∨ m = 6 ∨ m = 9 ∨ m = 11 then 30
  else 31

/-- The fields of a stamp are in range. -/
def ValidFields (year : Int) (month day hour minute second nano : Nat) : Prop :=
  -262143 ≤ year ∧ year ≤ 262142 ∧ 1 ≤ month ∧ month ≤ 12 ∧ 1 ≤ day ∧ day ≤ daysIn year month ∧
    hour ≤ 23 ∧ minute ≤ 59 ∧ second ≤ 59 ∧ (nano < 1000000000 ∨ second = 59 ∧ nano < 2000000000)

instance (year : Int) (month day hour minute second nano : Nat) :
    Decidable (ValidFields year month day hour minute second nano) := by
  unfold ValidFields; infer_instance

/-- A moment in UTC. -/
structure Stamp where
  year : Int
  month : Nat
  day : Nat
  hour : Nat
  minute : Nat
  second : Nat
  nano : Nat
  valid : ValidFields year month day hour minute second nano
  deriving DecidableEq, Repr

namespace Stamp

/-- The stamp with these fields, if they are in range. -/
def ofFields? (year : Int) (month day hour minute second nano : Nat) : Option Stamp :=
  if h : ValidFields year month day hour minute second nano then
    some ⟨year, month, day, hour, minute, second, nano, h⟩
  else none

/-- The first moment of 1970. -/
def epoch : Stamp := ⟨1970, 1, 1, 0, 0, 0, 0, by decide⟩

instance : Inhabited Stamp := ⟨epoch⟩

/-- The day after a date. -/
def nextDay (y : Int) (m d : Nat) : Int × Nat × Nat :=
  if d < daysIn y m then (y, m, d + 1) else if m < 12 then (y, m + 1, 1) else (y + 1, 1, 1)

/-- The day before a date. -/
def previousDay (y : Int) (m d : Nat) : Int × Nat × Nat :=
  if 1 < d then (y, m, d - 1) else if 1 < m then (y, m - 1, daysIn y (m - 1)) else (y - 1, 12, 31)

/-- The stamp in UTC of local fields that are `offset` minutes ahead of it. -/
def ofLocal? (year : Int) (month day hour minute second nano : Nat) (offset : Int) : Option Stamp := do
  let _ ← ofFields? year month day hour minute second nano
  let total : Int := 60 * hour + minute - offset
  let (y, m, d) :=
    if total < 0 then previousDay year month day
    else if total < 1440 then (year, month, day)
    else nextDay year month day
  let rest := (total % 1440).toNat
  ofFields? y m d (rest / 60) (rest % 60) second nano

end Stamp

end ContentMesh
