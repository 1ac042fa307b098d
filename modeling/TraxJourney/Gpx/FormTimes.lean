/-
  File:      Gpx/FormTimes.lean
  Subject:   The times of an imported track: those that the inspection of the file shows
             (`inspect_gpx_file`), and what the import makes of a form (`_resolve_times` in
             `api/activities.py`, `to_local` and `local_to_utc` in `src/gpx/timezone.py`).

  * **`previewed_times`** -- what is shown and sent back names the file's own points in time exactly
    where `NamesEnd` holds; `previewed_times_backward` -- not where the clocks went back past the start.

  A point in time is its microseconds in UTC; a stamp without an offset is one in UTC.
-/
import Mathlib.Algebra.Order.Group.Int
import TraxJourney.Lib.Zone

namespace TraxJourney.Gpx

open Lib

/-! ## 1. The file -/

inductive Raised where
  /-- `HTTPException`, 422 -/
  | errors (text : String)
  | typeError
  | overflowError
deriving DecidableEq

/-- `min` and `max` of stamps: the first of those that are equal. -/
def earliest (first : Instant) (stamps : List Instant) : Instant :=
  stamps.foldl (fun best t => if t.utc < best.utc then t else best) first

def latest (first : Instant) (stamps : List Instant) : Instant :=
  stamps.foldl (fun best t => if best.utc < t.utc then t else best) first

/-- `time_span`: stamps with and without an offset cannot be compared. -/
def timeSpan (times : List (Option Instant)) : Except Raised (Option (Instant × Instant)) :=
  match times.filterMap id with
  | [] => .ok none
  | [_] => .ok none
  | t :: u :: stamps =>
    let all := t :: u :: stamps
    if all.any (·.val.offset.isSome) && all.any (·.val.offset.isNone) then .error .typeError
    else
      let first := earliest t (u :: stamps)
      let last := latest t (u :: stamps)
      .ok (if first.utc < last.utc then some (first, last) else none)

def toLocal (t : Instant) (zone : Zone) : Option ℤ := zone.fromUtc t.utc

def localToUtc (wall : ℤ) (zone : Zone) (fold : Bool) : Option ℤ := do
  let instant ← zone.toUtc fold wall
  let shown ← zone.fromUtc instant
  if shown ≠ wall then zone.toUtc false wall else some instant

/-- What an inspection shows of the times. -/
structure Shown where
  startLocal : List Char
  endLocal : List Char

/-- `isoformat` of a clock on the wall. -/
def wallText (wall : ℤ) : Option (List Char) := (Instant.ofWall wall.toNat none).map (·.isoformat)

/-- The times of `inspect_gpx_file`; nothing where a clock is outside of the calendar. -/
def inspectTimes (span : Instant × Instant) (zone : Zone) : Option Shown := do
  let startLocal ← wallText (← toLocal span.1 zone)
  let endLocal ← wallText (← toLocal span.2 zone)
  some ⟨startLocal, endLocal⟩

/-! ## 2. The form -/

/-- What `strptime` reads of texts in other forms than `YYYY-MM-DD` and `HH:MM`, such as those of one
    digit. -/
structure Strptime where
  otherDays : List Char → Option ℕ
  otherClocks : List Char → Option ℕ

def Strptime.day (py : Strptime) (text : List Char) : Option ℕ := (readDay text).or (py.otherDays text)

def Strptime.clock (py : Strptime) (text : List Char) : Option ℕ := (readClock text).or (py.otherClocks text)

/-- `datetime.combine`. -/
def combine (day clock : ℕ) : ℤ := day * dayMicroseconds + clock * minuteMicroseconds

def ownWall (own : Instant) (frame : Zone) : Option ℤ := (toLocal own frame).map toMinute

/-- `instant`. -/
def instantOf (frame : Zone) (wall : ℤ) (own : Option Instant) (fold : Bool) : Option ℤ :=
  match own with
  | some own => if ownWall own frame = some wall then some own.utc else localToUtc wall frame fold
  | none => localToUtc wall frame fold

/-- The start and the end as points in time; nothing outside of the calendar. -/
def instants (frame : Zone) (span : Option (Instant × Instant)) (startWall endWall : ℤ) : Option (ℤ × ℤ) := do
  let start ← instantOf frame startWall (span.map (·.1)) false
  let stop ← instantOf frame endWall (span.map (·.2)) false
  if stop ≤ start then
    -- the clocks went back: the second time that they show the end
    let stop ← instantOf frame endWall none true
    some (start, stop)
  else some (start, stop)

structure Resolved where
  start : ℤ
  stop : ℤ
  typedStart : Option ℤ
deriving DecidableEq

/-- Typed clocks in their frame. -/
def resolveWalls (span : Option (Instant × Instant)) (frame : Zone) (startWall endWall : ℤ) :
    Except Raised Resolved :=
  if endWall = startWall then .error (.errors "Start and end cannot be the same time.")
  else
    match instants frame span startWall endWall with
    | none => .error (.errors "This date is outside the calendar the app can store.")
    | some (start, stop) =>
      if stop ≤ start then .error (.errors "The end must come after the start.")
      else .ok ⟨start, stop, if span.isNone then some startWall else none⟩

def resolveTimes (py : Strptime) (times : List (Option Instant))
    (date startTime endTime : Option (List Char)) (zone : Zone) (timesLocal : Bool) :
    Except Raised Resolved := do
  let span ← timeSpan times
  match date, startTime, endTime with
  | none, none, none =>
    match span with
    | some (first, last) => .ok ⟨first.utc, last.utc, none⟩
    | none => .error (.errors
        "This file has no timestamps, so it needs a date, a start time and an end time.")
  | some date, some startTime, some endTime =>
    match py.day date, py.clock startTime, py.clock endTime with
    | some day, some startClock, some endClock =>
      let startWall := combine day startClock
      let endWall := combine day endClock
      let frame := if span.isNone || timesLocal then zone else .etcUtc
      if endWall < startWall then
        -- past midnight; no day comes after the last one of the calendar
        if InCalendar (endWall + dayMicroseconds) then
          resolveWalls span frame startWall (endWall + dayMicroseconds)
        else .error .overflowError
      else resolveWalls span frame startWall endWall
    | _, _, _ => .error (.errors "date must be YYYY-MM-DD and start_time/end_time must be HH:MM.")
  | _, _, _ => .error (.errors ("A date, a start time and an end time go together — supply all " ++
      "three, or none to take them from the file."))

/-- What a form sends of the times that are shown: the day of the start, and both times of day. -/
def Shown.sent (shown : Shown) (py : Strptime) (times : List (Option Instant)) (zone : Zone) :
    Except Raised Resolved :=
  resolveTimes py times (some (writtenDay shown.startLocal)) (some (writtenClock shown.startLocal))
    (some (writtenClock shown.endLocal)) zone true

/-! ## 3. What is sent back -/

/-- The time of day of one clock on the day of another. -/
def onDayOf (startWall endWall : ℤ) : ℤ := startWall - startWall % dayMicroseconds + endWall % dayMicroseconds

/-- The end that a form names: on the day of the start, or on the next one where it reads earlier. -/
def formEnd (startWall endWall : ℤ) : ℤ :=
  if onDayOf startWall endWall < startWall then onDayOf startWall endWall + dayMicroseconds
  else onDayOf startWall endWall

/-- **The form names the end of the file**: the clocks read later than at the start, by less than a
    day; or they never read what the form names, and the offset before they skip it leads to the end. -/
def NamesEnd (zone : Zone) (last : Instant) (startWall endWall : ℤ) : Prop :=
  (startWall < endWall ∧ endWall < startWall + dayMicroseconds) ∨
    (formEnd startWall endWall ≠ startWall ∧ InCalendar (formEnd startWall endWall) ∧
      formEnd startWall endWall - zone.utcoffset false (formEnd startWall endWall) = last.utc)

/-- A clock without seconds. -/
def Whole (wall : ℤ) : Prop := wall % minuteMicroseconds = 0

theorem whole_toMinute (wall : ℤ) : Whole (toMinute wall) := by
  unfold Whole toMinute minuteMicroseconds
  omega

variable {wall : ℤ}

theorem toMinute_whole (h : Whole wall) : toMinute wall = wall := by
  unfold toMinute
  rw [h]
  omega

variable {startWall endWall : ℤ}

theorem whole_formEnd (hend : Whole endWall) : Whole (formEnd startWall endWall) := by
  unfold Whole minuteMicroseconds at hend ⊢
  unfold formEnd onDayOf dayMicroseconds
  split <;> omega

theorem formEnd_bounds (startWall endWall : ℤ) : startWall ≤ formEnd startWall endWall ∧
    formEnd startWall endWall < startWall + dayMicroseconds := by
  unfold formEnd onDayOf dayMicroseconds
  split <;> omega

theorem formEnd_eq (hlow : startWall ≤ endWall) (hhigh : endWall < startWall + dayMicroseconds) :
    formEnd startWall endWall = endWall := by
  unfold formEnd onDayOf dayMicroseconds at *
  split <;> omega

theorem inCalendar_toMinute (h : InCalendar wall) : InCalendar (toMinute wall) := by
  obtain ⟨hlow, hhigh⟩ := h
  unfold InCalendar toMinute minuteMicroseconds at *
  unfold dayMicroseconds at *
  omega

theorem inCalendar_onDayOf (h : InCalendar startWall) :
    InCalendar (onDayOf startWall endWall) := by
  obtain ⟨hlow, hhigh⟩ := h
  unfold InCalendar onDayOf at *
  unfold dayMicroseconds at *
  omega

theorem wall_of_text {text : List Char} (h : wallText wall = some text)
    (hwall : InCalendar wall) : ∃ day clock, readDay (writtenDay text) = some day ∧
      readClock (writtenClock text) = some clock ∧ clock < 1440 ∧ toMinute wall = combine day clock := by
  obtain ⟨t, ht, rfl⟩ := Option.map_eq_some_iff.mp h
  obtain ⟨hshown, -⟩ := Instant.ofWall_spec ht
  have hvalid := t.property
  rw [Instant.Parts.valid, Bool.and_eq_true, decide_eq_true_eq] at hvalid
  obtain ⟨⟨-, -, -, -, -, -, hhour, hminute, hsecond, hmicro⟩, -⟩ := hvalid
  refine ⟨_, _, readDay_isoformat t, readClock_isoformat t, by omega, ?_⟩
  have hnonneg : 0 ≤ wall := le_trans (Int.natCast_nonneg _) hwall.1
  have hcast : wall = (t.wall : ℤ) := by rw [hshown, Int.toNat_of_nonneg hnonneg]
  rw [hcast]
  unfold toMinute combine Instant.wall minuteMicroseconds dayMicroseconds
  omega

theorem combine_onDayOf (day day' : ℕ) {clock clock' : ℕ} (hclock : clock < 1440) (hclock' : clock' < 1440) :
    combine day clock' = onDayOf (combine day clock) (combine day' clock') := by
  unfold combine onDayOf minuteMicroseconds dayMicroseconds
  omega

variable {zone : Zone}

theorem toLocal_inCalendar {t : Instant} (h : toLocal t zone = some wall) :
    InCalendar wall := (Zone.fromUtc_eq_some.mp h).2.1

variable {times : List (Option Instant)}

theorem sent_eq (py : Strptime) {first last : Instant} {shown : Shown}
    (hspan : timeSpan times = .ok (some (first, last))) (hfirst : ownWall first zone = some startWall)
    (hlast : ownWall last zone = some endWall) (hshown : inspectTimes (first, last) zone = some shown) :
    shown.sent py times zone =
      if InCalendar (formEnd startWall endWall) then
        resolveWalls (some (first, last)) zone startWall (formEnd startWall endWall)
      else .error .overflowError := by
  obtain ⟨a, ha, rfl⟩ := Option.map_eq_some_iff.mp hfirst
  obtain ⟨b, hb, rfl⟩ := Option.map_eq_some_iff.mp hlast
  unfold inspectTimes at hshown
  dsimp only [Option.bind_eq_bind] at hshown
  rw [ha, hb, Option.bind_some] at hshown
  obtain ⟨startLocal, hstart, hshown⟩ := Option.bind_eq_some_iff.mp hshown
  rw [Option.bind_some] at hshown
  obtain ⟨endLocal, hend, hshown⟩ := Option.bind_eq_some_iff.mp hshown
  obtain rfl := Option.some.inj hshown
  obtain ⟨day, clock, hday, hclock, hlt, hwall⟩ := wall_of_text hstart (toLocal_inCalendar ha)
  obtain ⟨day', clock', -, hclock', hlt', hwall'⟩ := wall_of_text hend (toLocal_inCalendar hb)
  have hcalendar := inCalendar_toMinute (toLocal_inCalendar ha)
  unfold Shown.sent resolveTimes
  rw [hspan]
  show (match py.day (writtenDay startLocal), py.clock (writtenClock startLocal),
    py.clock (writtenClock endLocal) with
    | some day, some startClock, some endClock => _
    | _, _, _ => _) = _
  unfold Strptime.day Strptime.clock
  rw [hday, hclock, hclock', Option.some_or, Option.some_or, Option.some_or]
  dsimp only
  have hframe : (if (false || true) = true then zone else Zone.etcUtc) = zone := rfl
  rw [Option.isNone_some, hframe, combine_onDayOf day day' hlt hlt', ← hwall, ← hwall']
  unfold formEnd
  split
  case isTrue => rfl
  case isFalse => rw [if_pos (inCalendar_onDayOf hcalendar)]

theorem localToUtc_first {instant : ℤ} : localToUtc wall zone false = some instant ↔
    instant = wall - zone.utcoffset false wall ∧ InCalendar instant ∧
      (zone.fromUtc instant).isSome = true := by
  unfold localToUtc
  have htoUtc : ∀ u, zone.toUtc false wall = some u ↔
      u = wall - zone.utcoffset false wall ∧ InCalendar u := by
    intro u
    unfold Zone.toUtc
    constructor
    · intro h
      split at h
      case isTrue hin => exact ⟨(Option.some.inj h).symm, Option.some.inj h ▸ hin⟩
      case isFalse => cases h
    · rintro ⟨rfl, hin⟩
      exact if_pos hin
  dsimp only [Option.bind_eq_bind]
  constructor
  · intro h
    obtain ⟨u, hu, h⟩ := Option.bind_eq_some_iff.mp h
    obtain ⟨shown, hshown, h⟩ := Option.bind_eq_some_iff.mp h
    -- whether the clocks show it or not, it is the same point in time
    have hsame : u = instant := by
      split at h
      case isTrue =>
        rw [hu] at h
        exact Option.some.inj h
      case isFalse => exact Option.some.inj h
    subst hsame
    obtain ⟨heq, hin⟩ := (htoUtc u).mp hu
    exact ⟨heq, hin, by rw [hshown]; rfl⟩
  · rintro ⟨heq, hin, hsome⟩
    obtain ⟨shown, hshown⟩ := Option.isSome_iff_exists.mp hsome
    have hu := (htoUtc instant).mpr ⟨heq, hin⟩
    rw [hu, Option.bind_some, hshown, Option.bind_some]
    split
    · rfl
    · rfl

theorem instantOf_own {frame : Zone} {own : Instant} {fold : Bool} (h : ownWall own frame = some wall) :
    instantOf frame wall (some own) fold = some own.utc := if_pos h

theorem instantOf_other {frame : Zone} {own : Instant} {fold : Bool} (h : ownWall own frame ≠ some wall) :
    instantOf frame wall (some own) fold = localToUtc wall frame fold := if_neg h

theorem ordered_of_timeSpan {first last : Instant} (h : timeSpan times = .ok (some (first, last))) :
    first.utc < last.utc := by
  unfold timeSpan at h
  split at h
  · cases h
  · cases h
  · dsimp only at h
    split at h
    · cases h
    · split at h
      case isTrue hlt =>
        cases h
        exact hlt
      case isFalse => cases h

section Sent

variable {zone : Zone} {first last : Instant} {startWall endWall : ℤ}

theorem instants_own (hordered : first.utc < last.utc) (hfirst : ownWall first zone = some startWall)
    (hlast : ownWall last zone = some endWall) :
    instants zone (some (first, last)) startWall endWall = some (first.utc, last.utc) := by
  unfold instants
  dsimp only [Option.map_some, Option.bind_eq_bind]
  rw [instantOf_own hfirst, Option.bind_some, instantOf_own hlast, Option.bind_some,
    if_neg (not_le.mpr hordered)]

theorem instants_other (hordered : first.utc < last.utc) (hfirst : ownWall first zone = some startWall)
    (hlast : ownWall last zone = some endWall) (hwhole : Whole wall) (hother : wall ≠ endWall) :
    instants zone (some (first, last)) startWall wall = some (first.utc, last.utc) ↔
      wall - zone.utcoffset false wall = last.utc := by
  have hnot : ownWall last zone ≠ some wall := by
    rw [hlast]
    exact fun h => hother (Option.some.inj h).symm
  obtain ⟨b, hb, hminute⟩ := Option.map_eq_some_iff.mp hlast
  have hlastIn : InCalendar last.utc := (Zone.fromUtc_eq_some.mp hb).1
  have hfirstTime : ∀ u, localToUtc wall zone false = some u → u = wall - zone.utcoffset false wall :=
    fun u hu => (localToUtc_first.mp hu).1
  unfold instants
  dsimp only [Option.map_some, Option.bind_eq_bind]
  rw [instantOf_own hfirst, Option.bind_some, instantOf_other hnot]
  constructor
  · intro h
    obtain ⟨stop, hstop, h⟩ := Option.bind_eq_some_iff.mp h
    split at h
    case isFalse =>
      have hpair := Option.some.inj h
      rw [← hfirstTime stop hstop, (Prod.mk.inj hpair).2]
    case isTrue hback =>
      obtain ⟨again, hagain, h⟩ := Option.bind_eq_some_iff.mp h
      have hpair := Option.some.inj h
      obtain rfl : again = last.utc := (Prod.mk.inj hpair).2
      change localToUtc wall zone true = some last.utc at hagain
      unfold localToUtc at hagain
      dsimp only [Option.bind_eq_bind] at hagain
      obtain ⟨u, hu, hagain⟩ := Option.bind_eq_some_iff.mp hagain
      obtain ⟨shown, hshown, hagain⟩ := Option.bind_eq_some_iff.mp hagain
      split at hagain
      case isTrue =>
        -- not shown: the offset of the first time again
        unfold Zone.toUtc at hagain
        split at hagain
        case isTrue => exact Option.some.inj hagain
        case isFalse => cases hagain
      case isFalse hshows =>
        -- shown, so it is the clock of the file's end
        obtain rfl := Option.some.inj hagain
        obtain rfl : shown = wall := not_not.mp hshows
        have hb' : zone.fromUtc last.utc = some b := hb
        rw [hshown] at hb'
        obtain rfl := Option.some.inj hb'
        rw [toMinute_whole hwhole] at hminute
        exact absurd hminute hother
  · intro h
    have hstop : localToUtc wall zone false = some last.utc :=
      localToUtc_first.mpr ⟨h.symm, hlastIn, by rw [show zone.fromUtc last.utc = some b from hb]; rfl⟩
    rw [hstop, Option.bind_some, if_neg (not_le.mpr hordered)]

theorem resolveWalls_ok (hordered : first.utc < last.utc) :
    resolveWalls (some (first, last)) zone startWall wall = .ok ⟨first.utc, last.utc, none⟩ ↔
      wall ≠ startWall ∧ instants zone (some (first, last)) startWall wall = some (first.utc, last.utc) := by
  unfold resolveWalls
  split
  case isTrue hsame => simp [hsame]
  case isFalse hdiffer =>
    rw [and_iff_right hdiffer]
    cases hinstants : instants zone (some (first, last)) startWall wall with
    | none => simp
    | some pair =>
      obtain ⟨start, stop⟩ := pair
      dsimp only
      split
      case isTrue hback =>
        constructor
        · intro h
          cases h
        · intro h
          obtain ⟨rfl, rfl⟩ := Prod.mk.inj (Option.some.inj h)
          omega
      case isFalse =>
        constructor
        · intro h
          cases h
          rfl
        · intro h
          obtain ⟨rfl, rfl⟩ := Prod.mk.inj (Option.some.inj h)
          rfl

end Sent

theorem resolveTimes_ordered {py : Strptime} {date startTime endTime : Option (List Char)} {timesLocal : Bool}
    {r : Resolved} (h : resolveTimes py times date startTime endTime zone timesLocal = .ok r) :
    r.start < r.stop := by
  have hwalls : ∀ {span : Option (Instant × Instant)} {frame : Zone} {startWall endWall : ℤ},
      resolveWalls span frame startWall endWall = .ok r → r.start < r.stop := by
    intro span frame startWall endWall h
    unfold resolveWalls at h
    split at h
    · cases h
    · split at h
      · cases h
      · split at h
        case isTrue => cases h
        case isFalse hafter =>
          cases h
          exact not_le.mp hafter
  unfold resolveTimes at h
  cases hspan : timeSpan times with
  | error raised =>
    rw [hspan] at h
    cases h
  | ok span =>
    rw [hspan] at h
    change (match date, startTime, endTime with
      | none, none, none => _
      | some _, some _, some _ => _
      | _, _, _ => _) = _ at h
    split at h
    · split at h
      · cases h
        exact ordered_of_timeSpan hspan
      · cases h
    · split at h
      · dsimp only at h
        split at h
        · split at h
          · exact hwalls h
          · cases h
        · exact hwalls h
      · cases h
    · cases h

/-- **Previewed times**: the times that the inspection shows, sent back, name the file's own first and
    last point in time exactly where `NamesEnd` holds; and of any form the end comes after the start. -/
theorem previewed_times (py : Strptime) (times : List (Option Instant)) (zone : Zone) :
    (∀ first last startWall endWall shown, timeSpan times = .ok (some (first, last)) →
      ownWall first zone = some startWall → ownWall last zone = some endWall →
      inspectTimes (first, last) zone = some shown →
      (shown.sent py times zone = .ok ⟨first.utc, last.utc, none⟩ ↔ NamesEnd zone last startWall endWall)) ∧
    ∀ date startTime endTime timesLocal r,
      resolveTimes py times date startTime endTime zone timesLocal = .ok r → r.start < r.stop := by
  refine ⟨?_, fun _ _ _ _ _ => resolveTimes_ordered⟩
  intro first last startWall endWall shown hspan hfirst hlast hshown
  have hordered := ordered_of_timeSpan hspan
  have hbounds := formEnd_bounds startWall endWall
  obtain ⟨b, hb, hminute⟩ := Option.map_eq_some_iff.mp hlast
  have hwholeEnd : Whole endWall := hminute ▸ whole_toMinute b
  have hendIn : InCalendar endWall := hminute ▸ inCalendar_toMinute (toLocal_inCalendar hb)
  have hok : shown.sent py times zone = .ok ⟨first.utc, last.utc, none⟩ ↔
      InCalendar (formEnd startWall endWall) ∧ formEnd startWall endWall ≠ startWall ∧
        instants zone (some (first, last)) startWall (formEnd startWall endWall) =
          some (first.utc, last.utc) := by
    rw [sent_eq py hspan hfirst hlast hshown, ← resolveWalls_ok hordered]
    split
    case isTrue hin => exact (and_iff_right hin).symm
    case isFalse hout =>
      constructor
      · intro h
        cases h
      · exact fun h => absurd h.1 hout
  rw [hok]
  unfold NamesEnd
  by_cases hown : formEnd startWall endWall = endWall
  · rw [hown] at hbounds ⊢
    constructor
    · rintro ⟨-, hne, -⟩
      exact .inl ⟨lt_of_le_of_ne hbounds.1 (Ne.symm hne), hbounds.2⟩
    · intro h
      have hne : endWall ≠ startWall := h.elim (fun h => (ne_of_lt h.1).symm) fun h => h.1
      exact ⟨hendIn, hne, instants_own hordered hfirst hlast⟩
  · rw [instants_other hordered hfirst hlast (whole_formEnd hwholeEnd) hown]
    constructor
    · rintro ⟨hin, hne, hleads⟩
      exact .inr ⟨hne, hin, hleads⟩
    · rintro (⟨hlow, hhigh⟩ | ⟨hne, hin, hleads⟩)
      · exact absurd (formEnd_eq hlow.le hhigh) hown
      · exact ⟨hin, hne, hleads⟩

/-! ## 4. Fixed files -/

/-- A library that reads no other forms. -/
def plainForms : Strptime := ⟨fun _ => none, fun _ => none⟩

/-- Lisbon in the autumn of 2024: one hour ahead of UTC up to 01:00 on 27 October, and none after it. -/
def lisbonAutumn : Zone := ⟨3600, [(ordinal 2024 10 27 * 86400 + 3600, 0)], by simp, by decide⟩

/-- Stamps of that morning: the clocks show 01:10, 01:50 and, an hour later, 01:20. -/
def firstTen : Instant := ⟨⟨2024, 10, 27, 0, 10, 20, 0, some 0⟩, by decide⟩
def firstFifty : Instant := ⟨⟨2024, 10, 27, 0, 50, 20, 0, some 0⟩, by decide⟩
def secondTwenty : Instant := ⟨⟨2024, 10, 27, 1, 20, 40, 0, some 0⟩, by decide⟩

/-- What the clocks show that morning, so many minutes past midnight. -/
def thatMorning (minutes : ℕ) : ℤ := combine (ordinal 2024 10 27) minutes

/-- From 01:10 to 01:20 an hour later, the times that are shown are the file's own. -/
theorem previewed_times_forward : ∃ shown, inspectTimes (firstTen, secondTwenty) lisbonAutumn = some shown ∧
    shown.sent plainForms [some firstTen, some secondTwenty] lisbonAutumn =
      .ok ⟨firstTen.utc, secondTwenty.utc, none⟩ ∧ firstTen.utc < secondTwenty.utc := by
  have hsome : (inspectTimes (firstTen, secondTwenty) lisbonAutumn).isSome = true := by decide +kernel
  obtain ⟨shown, hshown⟩ := Option.isSome_iff_exists.mp hsome
  obtain ⟨hown, hafter⟩ := previewed_times plainForms [some firstTen, some secondTwenty] lisbonAutumn
  have hsent := (hown firstTen secondTwenty (thatMorning 70) (thatMorning 80) shown (by decide +kernel)
    (by decide +kernel) (by decide +kernel) hshown).mpr (.inl (by decide +kernel))
  have hordered := hafter _ _ _ _ _ hsent
  exact ⟨shown, hshown, hsent, hordered⟩

/-- **From 01:50 to 01:20 half an hour later the end is taken for the next day's**: the clocks went back
    past the start. -/
theorem previewed_times_backward : ¬ ∀ (py : Strptime) (times : List (Option Instant)) (zone : Zone)
    (first last : Instant) (startWall endWall : ℤ) (shown : Shown),
    timeSpan times = .ok (some (first, last)) → last.utc < first.utc + dayMicroseconds →
    ownWall first zone = some startWall → ownWall last zone = some endWall →
    startWall % dayMicroseconds ≠ endWall % dayMicroseconds →
    inspectTimes (first, last) zone = some shown →
    shown.sent py times zone = .ok ⟨first.utc, last.utc, none⟩ := by
  intro hclaim
  have hnext : ((inspectTimes (firstFifty, secondTwenty) lisbonAutumn).any fun shown =>
      decide (shown.sent plainForms [some firstFifty, some secondTwenty] lisbonAutumn =
        .ok ⟨firstFifty.utc, secondTwenty.utc - 40 * secondMicroseconds + dayMicroseconds, none⟩)) =
      true := by
    decide +kernel
  obtain ⟨shown, hshown, hsent⟩ := (Option.any_eq_true _ _).mp hnext
  have hkept := hclaim plainForms [some firstFifty, some secondTwenty] lisbonAutumn firstFifty
    secondTwenty (thatMorning 110) (thatMorning 80) shown (by decide +kernel) (by decide +kernel)
    (by decide +kernel) (by decide +kernel) (by decide +kernel) hshown
  obtain ⟨-, hstops, -⟩ := Resolved.mk.inj (Except.ok.inj ((of_decide_eq_true hsent).symm.trans hkept))
  unfold secondMicroseconds dayMicroseconds at hstops
  omega

end TraxJourney.Gpx
