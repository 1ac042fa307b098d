/-
  File:      Lib/IsoDate.lean
  Subject:   Days as ISO 8601 text, and the day of a stamp: its first characters.

  * `isDay`, `isWeekDay` -- a day of the calendar by month, or by week of the year.
  * **`leading_mono`** -- a text that is not greater does not begin greater.
-/
import Mathlib.Data.String.Basic
import TraxJourney.Lib.IsoTime

namespace TraxJourney.Lib

/-! ## 1. The first characters -/

/-- `s[:n]`. -/
def leading (n : ℕ) (s : String) : String := String.ofList (s.toList.take n)

theorem lt_of_take_lt {α : Type*} [LinearOrder α] {xs ys : List α} {n : ℕ}
    (h : xs.take n < ys.take n) : xs < ys := by
  induction n generalizing xs ys with
  | zero => exact absurd h (lt_irrefl _)
  | succ n ih =>
    cases ys with
    | nil => exact absurd h (List.not_lt_nil _)
    | cons y ys =>
      cases xs with
      | nil => exact List.nil_lt_cons y ys
      | cons x xs =>
        rw [List.take_succ_cons, List.take_succ_cons, List.cons_lt_cons_iff] at h
        rw [List.cons_lt_cons_iff]
        exact h.imp_right (And.imp_right ih)

theorem leading_mono (n : ℕ) {s t : String} (h : s ≤ t) : leading n s ≤ leading n t := by
  rw [String.le_iff_toList_le] at h ⊢
  unfold leading
  rw [String.toList_ofList, String.toList_ofList]
  exact not_lt.mp fun hlt => absurd h (not_le.mpr (lt_of_take_lt hlt))

theorem leading_append {s t : String} {n : ℕ} (h : s.length = n) : leading n (s ++ t) = s := by
  unfold leading
  rw [String.toList_append, List.take_left' (by rw [← h, String.length_toList]), String.ofList_toList]

/-! ## 2. Days -/

def daysBefore (year : ℕ) : ℕ := 365 * (year - 1) + (year - 1) / 4 - (year - 1) / 100 + (year - 1) / 400

def isDay (year month day : ℕ) : Bool :=
  decide (1 ≤ year ∧ 1 ≤ month ∧ month ≤ 12 ∧ 1 ≤ day ∧ day ≤ daysInMonth year month)

/-- The Monday of the first week of a year that has its Thursday in the year. -/
def firstMonday (year : ℕ) : ℕ :=
  let weekday := daysBefore year % 7
  if weekday ≤ 3 then daysBefore year + 1 - weekday else daysBefore year + 8 - weekday

/-- A day of a week that begins in the year, up to the last day of the year 9999. -/
def isWeekDay (year week day : ℕ) : Bool :=
  decide (1 ≤ year ∧ 1 ≤ week ∧ week ≤ 53 ∧ 1 ≤ day ∧ day ≤ 7 ∧
    firstMonday year + 7 * (week - 1) < firstMonday (year + 1) ∧
    firstMonday year + 7 * (week - 1) + (day - 1) ≤ daysBefore 10000)

def dash : Bool → List Char → Option (List Char)
  | true, cs => expect '-' cs
  | false, cs => some cs

def readWeekDay (dashes : Bool) (year : ℕ) (cs : List Char) : Option Bool := do
  let (week, cs) ← readDigits 2 0 cs
  if cs = [] then some (isWeekDay year week 1)
  else do
    let cs ← dash dashes cs
    let (day, cs) ← readDigits 1 0 cs
    if cs = [] then some (isWeekDay year week day) else none

def readMonthDay (dashes : Bool) (year : ℕ) (cs : List Char) : Option Bool := do
  let (month, cs) ← readDigits 2 0 cs
  let cs ← dash dashes cs
  let (day, cs) ← readDigits 2 0 cs
  if cs = [] then some (isDay year month day) else none

def readAfterYear (dashes : Bool) (year : ℕ) : List Char → Option Bool
  | 'W' :: cs => readWeekDay dashes year cs
  | cs => readMonthDay dashes year cs

def readYear : ℕ × List Char → Option Bool
  | (year, '-' :: cs) => readAfterYear true year cs
  | (year, cs) => readAfterYear false year cs

/-- Whether `date.fromisoformat` returns. -/
def fromisoformat (text : String) : Bool := ((readDigits 4 0 text.toList).bind readYear).getD false

example : ["2024-02-29", "20240229", "2024-W09-4", "2020W53"].all fromisoformat = true := by
  decide +kernel

example : ["", "2023-02-29", "2024-0229", "2023-W53-1", "2024-02-29T", "9999-W52-6"].any
    fromisoformat = false := by
  decide +kernel

end TraxJourney.Lib
