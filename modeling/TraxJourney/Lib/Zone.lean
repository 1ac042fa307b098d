/-
  File:      Lib/Zone.lean
  Subject:   Clocks on the wall: time zones as sequences of offset changes, and days and times of day as
             text.

  * `readDay`, `readClock` -- a day and a time of day; **`readDay_isoformat`**,
    **`readClock_isoformat`** -- those that a point in time is written with.
-/
import TraxJourney.Lib.Clock

namespace TraxJourney.Lib

/-! ## 1. Points in time -/

def secondMicroseconds : ℤ := 1000000
def minuteMicroseconds : ℤ := 60000000

/-- The point in time in UTC. -/
def Instant.utc (t : Instant) : ℤ := t.wall - t.val.offset.getD 0

instance (wall : ℤ) : Decidable (InCalendar wall) := inferInstanceAs (Decidable (_ ∧ _))

/-- A clock on the wall without its seconds. -/
def toMinute (wall : ℤ) : ℤ := wall - wall % minuteMicroseconds

/-! ## 2. Zones -/

/-- `bisect_right` between two indices, in so many turns. -/
def bisectRight (xs : List ℤ) (x : ℤ) : ℕ → ℕ → ℕ → ℕ
  | 0, low, _ => low
  | turns + 1, low, high =>
    if low < high then
      let mid := (low + high) / 2
      if x < xs.getD mid 0 then bisectRight xs x turns low mid
      else bisectRight xs x turns (mid + 1) high
    else low

/-- `ZoneInfo`: the offset before the first change, and the changes: when, and the offset from then on.
    All in seconds, points in time from the same day as the clocks on the wall. -/
structure Zone where
  first : ℤ
  changes : List (ℤ × ℤ)
  ascending : (changes.map (·.1)).Pairwise (· < ·)
  bounded : ∀ offset ∈ first :: changes.map (·.2), offset.natAbs < 86400

namespace Zone

/-- The zone without changes. -/
def etcUtc : Zone := ⟨0, [], .nil, by decide⟩

/-- The offset after so many changes, in microseconds. -/
def offset (z : Zone) (count : ℕ) : ℤ :=
  (z.first :: z.changes.map (·.2)).getD count z.first * secondMicroseconds

/-- The offset at a point in time. -/
def offsetAt (z : Zone) (utc : ℤ) : ℤ :=
  z.offset (bisectRight (z.changes.map (·.1)) (utc / secondMicroseconds) z.changes.length 0 z.changes.length)

/-- What the clocks show at the changes: by the higher of the offsets before and after it, and by the
    lower one for what they show the second time. -/
def changesLocal (z : Zone) (fold : Bool) : List ℤ :=
  (z.changes.zip (z.first :: z.changes.map (·.2))).map fun c =>
    c.1.1 + if fold then min c.2 c.1.2 else max c.2 c.1.2

/-- `utcoffset` of what the clocks show, the first time or the second. -/
def utcoffset (z : Zone) (fold : Bool) (wall : ℤ) : ℤ :=
  let changes := z.changesLocal fold
  let shown := wall / secondMicroseconds
  match changes.head?, changes.getLast? with
  | some early, some late =>
    if shown < early then z.offset 0
    else if late < shown then z.offset changes.length
    else z.offset (bisectRight changes shown changes.length 0 changes.length)
  | _, _ => z.offset 0

/-- What the clocks show at a point in time, within the calendar: `astimezone`. -/
def fromUtc (z : Zone) (utc : ℤ) : Option ℤ :=
  if InCalendar utc ∧ InCalendar (utc + z.offsetAt utc) then some (utc + z.offsetAt utc) else none

/-- The point in time at which the clocks show this, within the calendar. -/
def toUtc (z : Zone) (fold : Bool) (wall : ℤ) : Option ℤ :=
  if InCalendar (wall - z.utcoffset fold wall) then some (wall - z.utcoffset fold wall) else none

variable {z : Zone} {utc wall : ℤ}

theorem fromUtc_eq_some : z.fromUtc utc = some wall ↔
    InCalendar utc ∧ InCalendar wall ∧ wall = utc + z.offsetAt utc := by
  unfold fromUtc
  constructor
  · intro h
    split at h
    case isTrue hin =>
      obtain rfl := Option.some.inj h
      exact ⟨hin.1, hin.2, rfl⟩
    case isFalse => cases h
  · rintro ⟨hutc, hwall, rfl⟩
    exact if_pos ⟨hutc, hwall⟩

end Zone

/-! ## 3. Texts -/

/-- `YYYY-MM-DD`: the number of the day. -/
def readDay (text : List Char) : Option ℕ := do
  let (year, cs) ← readDigits 4 0 text
  let cs ← expect '-' cs
  let (month, cs) ← readDigits 2 0 cs
  let cs ← expect '-' cs
  let (day, cs) ← readDigits 2 0 cs
  if cs = [] ∧ isDay year month day = true then some (ordinal year month day) else none

/-- `HH:MM`, in minutes. -/
def readClock (text : List Char) : Option ℕ := do
  let (hour, cs) ← readDigits 2 0 text
  let cs ← expect ':' cs
  let (minute, cs) ← readDigits 2 0 cs
  if cs = [] ∧ hour < 24 ∧ minute < 60 then some (hour * 60 + minute) else none

/-- The day, and the time of day, of a written point in time. -/
def writtenDay (text : List Char) : List Char := text.take 10
def writtenClock (text : List Char) : List Char := (text.drop 11).take 5

theorem readDay_isoformat (t : Instant) :
    readDay (writtenDay t.isoformat) = some (ordinal t.val.year t.val.month t.val.day) := by
  obtain ⟨⟨hyear, hlast, hmonth, hdec, hday, hend, -⟩, -⟩ := by
    have hvalid := t.property
    rw [Instant.Parts.valid, Bool.and_eq_true, decide_eq_true_eq] at hvalid
    exact hvalid
  have hmonthDays : daysInMonth t.val.year t.val.month ≤ 31 := by
    unfold daysInMonth
    split
    · split <;> omega
    · split <;> omega
  have htext : writtenDay t.isoformat =
      digits 4 t.val.year ++ '-' :: (digits 2 t.val.month ++ '-' :: (digits 2 t.val.day ++ [])) := by
    unfold writtenDay Instant.isoformat
    simp [List.take_append, List.take_of_length_le, length_digits]
  unfold readDay
  rw [htext, readDigits_digits (show t.val.year < 10 ^ 4 by omega)]
  dsimp only [Option.bind_eq_bind, Option.bind_some]
  rw [expect_cons, Option.bind_some, readDigits_digits (show t.val.month < 10 ^ 2 by omega)]
  dsimp only [Option.bind_some]
  rw [expect_cons, Option.bind_some, readDigits_digits (show t.val.day < 10 ^ 2 by omega)]
  dsimp only [Option.bind_some]
  refine if_pos ⟨rfl, ?_⟩
  exact decide_eq_true ⟨hyear, hmonth, hdec, hday, hend⟩

theorem readClock_isoformat (t : Instant) :
    readClock (writtenClock t.isoformat) = some (t.val.hour * 60 + t.val.minute) := by
  obtain ⟨⟨-, -, -, -, -, -, hhour, hminute, -⟩, -⟩ := by
    have hvalid := t.property
    rw [Instant.Parts.valid, Bool.and_eq_true, decide_eq_true_eq] at hvalid
    exact hvalid
  have htext : writtenClock t.isoformat = digits 2 t.val.hour ++ ':' :: (digits 2 t.val.minute ++ []) := by
    unfold writtenClock Instant.isoformat
    simp [List.drop_append, List.take_append, List.take_of_length_le, List.drop_eq_nil_of_le, length_digits]
  unfold readClock
  rw [htext, readDigits_digits (show t.val.hour < 10 ^ 2 by omega)]
  dsimp only [Option.bind_eq_bind, Option.bind_some]
  rw [expect_cons, Option.bind_some, readDigits_digits (show t.val.minute < 10 ^ 2 by omega)]
  dsimp only [Option.bind_some]
  exact if_pos ⟨rfl, hhour, hminute⟩

end TraxJourney.Lib
