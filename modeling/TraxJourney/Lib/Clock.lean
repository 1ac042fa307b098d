/-
  File:      Lib/Clock.lean
  Subject:   Points in time counted from the first day of the calendar, and moved on.

  * `Instant.wall`, `Instant.plus` -- the microseconds that a clock on the wall shows, and so many more;
    **`plus_spec`**, **`plus_exists`** -- it shows them then, with the same offset.
-/
import Mathlib.Algebra.GroupWithZero.Nat
import Mathlib.Data.Nat.Find
import TraxJourney.Lib.IsoDate

namespace TraxJourney.Lib

/-! ## 1. Days -/

def daysBeforeMonth (year month : ℕ) : ℕ := ((List.range' 1 (month - 1)).map (daysInMonth year)).sum

/-- `date.toordinal`. -/
def ordinal (year month day : ℕ) : ℕ := daysBefore year + daysBeforeMonth year month + day

/-- `date.fromordinal`. -/
def ofOrdinal (n : ℕ) : Option (ℕ × ℕ × ℕ) := do
  let year ← (List.range' 1 9999).find? fun y => daysBefore y < n ∧ n ≤ daysBefore (y + 1)
  let rest := n - daysBefore year
  let month ← (List.range' 1 12).find? fun m =>
    daysBeforeMonth year m < rest ∧ rest ≤ daysBeforeMonth year (m + 1)
  some (year, month, rest - daysBeforeMonth year month)

theorem daysBeforeMonth_succ (year : ℕ) {month : ℕ} (h : 1 ≤ month) :
    daysBeforeMonth year (month + 1) = daysBeforeMonth year month + daysInMonth year month := by
  obtain ⟨m, rfl⟩ := Nat.exists_eq_add_of_le' h
  unfold daysBeforeMonth
  rw [Nat.add_sub_cancel, Nat.add_sub_cancel, List.range'_concat, List.map_append, List.sum_append]
  simp [Nat.add_comm]

theorem daysBefore_succ {year : ℕ} (h : 1 ≤ year) :
    daysBefore (year + 1) = daysBefore year + daysBeforeMonth year 13 := by
  have hmonths : daysBeforeMonth year 13 = 365 + if isLeap year then 1 else 0 := by
    unfold daysBeforeMonth daysInMonth
    cases isLeap year <;> rfl
  have hleap : (isLeap year = true) ↔ (4 ∣ year ∧ (¬ 100 ∣ year ∨ 400 ∣ year)) := by
    simp [isLeap, Nat.dvd_iff_mod_eq_zero]
  obtain ⟨k, rfl⟩ := Nat.exists_eq_add_of_le' h
  have h100 : k / 100 ≤ k / 4 := Nat.div_le_div_left (by decide) (by decide)
  rw [hmonths, if_congr hleap rfl rfl]
  unfold daysBefore
  rw [Nat.add_sub_cancel, Nat.add_sub_cancel, Nat.succ_div, Nat.succ_div, Nat.succ_div]
  -- a fourth hundredth year is a hundredth one, and a hundredth one a fourth
  by_cases h4 : 4 ∣ k + 1
  · by_cases h100' : 100 ∣ k + 1
    · by_cases h400 : 400 ∣ k + 1 <;> simp [h4, h100', h400] <;> omega
    · have h400 : ¬ 400 ∣ k + 1 := fun h => h100' (Nat.dvd_trans (by decide) h)
      simp [h4, h100', h400]
      omega
  · have h100' : ¬ 100 ∣ k + 1 := fun h => h4 (Nat.dvd_trans (by decide) h)
    have h400 : ¬ 400 ∣ k + 1 := fun h => h4 (Nat.dvd_trans (by decide) h)
    simp [h4, h100', h400]
    omega

theorem ofOrdinal_spec {n year month day : ℕ} (h : ofOrdinal n = some (year, month, day)) :
    1 ≤ year ∧ year ≤ 9999 ∧ 1 ≤ month ∧ month ≤ 12 ∧ 1 ≤ day ∧ day ≤ daysInMonth year month ∧
      ordinal year month day = n := by
  unfold ofOrdinal at h
  dsimp only at h
  obtain ⟨y, hy, h⟩ := Option.bind_eq_some_iff.mp h
  obtain ⟨m, hm, h⟩ := Option.bind_eq_some_iff.mp h
  obtain ⟨rfl, rfl, rfl⟩ : y = year ∧ m = month ∧ n - daysBefore y - daysBeforeMonth y m = day := by
    simpa using h
  have hyear := List.mem_range'_1.mp (List.mem_of_find?_eq_some hy)
  have hmonth := List.mem_range'_1.mp (List.mem_of_find?_eq_some hm)
  have hyear' : daysBefore y < n ∧ n ≤ daysBefore (y + 1) := by simpa using List.find?_some hy
  have hmonth' : daysBeforeMonth y m < n - daysBefore y ∧
      n - daysBefore y ≤ daysBeforeMonth y (m + 1) := by simpa using List.find?_some hm
  rw [daysBeforeMonth_succ y hmonth.1] at hmonth'
  unfold ordinal
  refine ⟨hyear.1, ?_, hmonth.1, ?_, ?_, ?_, ?_⟩ <;> omega

theorem exists_step (f : ℕ → ℕ) {n last : ℕ} (hlow : f 1 < n) (hhigh : n ≤ f (last + 1)) :
    ∃ k, 1 ≤ k ∧ k ≤ last ∧ f k < n ∧ n ≤ f (k + 1) := by
  induction last with
  | zero => exact absurd hhigh (not_le.mpr hlow)
  | succ last ih =>
    by_cases hle : n ≤ f (last + 1)
    · obtain ⟨k, hk, hlast, hstep⟩ := ih hle
      exact ⟨k, hk, by omega, hstep⟩
    · exact ⟨last + 1, by omega, le_rfl, by omega, hhigh⟩

theorem ofOrdinal_exists {n : ℕ} (hlow : 1 ≤ n) (hhigh : n ≤ daysBefore 10000) :
    ∃ day, ofOrdinal n = some day := by
  have hfind : ∀ (p : ℕ → Bool) (k count : ℕ), 1 ≤ k → k ≤ count → p k = true →
      ∃ x, (List.range' 1 count).find? p = some x ∧ 1 ≤ x ∧ p x = true := by
    intro p k count hk hcount hp
    obtain ⟨x, hx⟩ := Option.isSome_iff_exists.mp
      (List.find?_isSome.mpr ⟨k, List.mem_range'_1.mpr ⟨hk, show k < 1 + count by omega⟩, hp⟩)
    exact ⟨x, hx, (List.mem_range'_1.mp (List.mem_of_find?_eq_some hx)).1, List.find?_some hx⟩
  obtain ⟨y₀, hy₀, hlast, hstep⟩ := exists_step daysBefore (show daysBefore 1 < n from hlow) hhigh
  obtain ⟨y, hy, hpos, hin⟩ := hfind (fun y => daysBefore y < n ∧ n ≤ daysBefore (y + 1)) y₀ 9999 hy₀
    hlast (decide_eq_true hstep)
  have hin := of_decide_eq_true hin
  rw [daysBefore_succ hpos] at hin
  have hfirst : daysBeforeMonth y 1 < n - daysBefore y := Nat.sub_pos_of_lt hin.1
  have hend : n - daysBefore y ≤ daysBeforeMonth y (12 + 1) := Nat.sub_le_iff_le_add'.mpr hin.2
  obtain ⟨m₀, hm₀, hdec, hmonth⟩ := exists_step (daysBeforeMonth y) hfirst hend
  obtain ⟨m, hm, -, -⟩ := hfind (fun m => daysBeforeMonth y m < n - daysBefore y ∧
    n - daysBefore y ≤ daysBeforeMonth y (m + 1)) m₀ 12 hm₀ hdec (decide_eq_true hmonth)
  exact ⟨_, Option.bind_eq_some_iff.mpr ⟨y, hy, Option.bind_eq_some_iff.mpr ⟨m, hm, rfl⟩⟩⟩

/-! ## 2. Clocks -/

/-- What a clock on the wall shows, in microseconds since the day before the first. -/
def Instant.wall (t : Instant) : ℕ :=
  ordinal t.val.year t.val.month t.val.day * dayMicroseconds +
    (((t.val.hour * 60 + t.val.minute) * 60 + t.val.second) * 1000000 + t.val.microsecond)

/-- The point in time at which the clock shows this. -/
def Instant.ofWall (wall : ℕ) (offset : Option ℤ) : Option Instant := do
  let (year, month, day) ← ofOrdinal (wall / dayMicroseconds)
  let time := wall % dayMicroseconds
  let parts : Instant.Parts :=
    { year := year, month := month, day := day, hour := time / 3600000000,
      minute := time / 60000000 % 60, second := time / 1000000 % 60, microsecond := time % 1000000,
      offset := offset }
  if h : parts.valid = true then some ⟨parts, h⟩ else none

/-- `dt + timedelta(seconds=seconds)`; nothing outside of the calendar. -/
def Instant.plus (t : Instant) (seconds : ℤ) : Option Instant :=
  Instant.ofWall (t.wall + seconds * 1000000).toNat t.val.offset

theorem Instant.ofWall_spec {wall : ℕ} {offset : Option ℤ} {t : Instant}
    (h : Instant.ofWall wall offset = some t) : t.wall = wall ∧ t.val.offset = offset := by
  unfold Instant.ofWall at h
  obtain ⟨⟨year, month, day⟩, hday, h⟩ := Option.bind_eq_some_iff.mp h
  dsimp only at h
  split at h
  case isFalse => cases h
  case isTrue =>
    obtain rfl := Option.some.inj h
    obtain ⟨-, -, -, -, -, -, hordinal⟩ := ofOrdinal_spec hday
    refine ⟨?_, rfl⟩
    unfold Instant.wall
    dsimp only
    rw [hordinal]
    unfold dayMicroseconds
    omega

theorem Instant.ofWall_exists {wall : ℕ} {offset : Option ℤ} (hlow : dayMicroseconds ≤ wall)
    (hhigh : wall < (daysBefore 10000 + 1) * dayMicroseconds)
    (hoffset : offset.all fun offset => decide (offset.natAbs < dayMicroseconds)) :
    ∃ t, Instant.ofWall wall offset = some t := by
  have hpos : 0 < dayMicroseconds := by decide
  obtain ⟨⟨year, month, day⟩, hday⟩ := ofOrdinal_exists ((Nat.one_le_div_iff hpos).mpr hlow)
    (Nat.lt_succ_iff.mp (Nat.div_lt_of_lt_mul (Nat.mul_comm _ _ ▸ hhigh)))
  obtain ⟨hyear, hlast, hmonth, hdec, hfirst, hend, -⟩ := ofOrdinal_spec hday
  have htime : wall % dayMicroseconds < 86400000000 := Nat.mod_lt _ hpos
  unfold Instant.ofWall
  rw [hday]
  refine ⟨_, dif_pos ?_⟩
  unfold Instant.Parts.valid
  rw [Bool.and_eq_true, decide_eq_true_eq]
  refine ⟨⟨hyear, hlast, hmonth, hdec, hfirst, hend, ?_, ?_, ?_, ?_⟩, hoffset⟩ <;> dsimp only <;> omega

theorem Instant.plus_spec {t t' : Instant} {seconds : ℤ} (h : t.plus seconds = some t')
    (hlow : 0 ≤ t.wall + seconds * 1000000) :
    (t'.wall : ℤ) = t.wall + seconds * 1000000 ∧ t'.val.offset = t.val.offset := by
  obtain ⟨hwall, hoffset⟩ := Instant.ofWall_spec h
  exact ⟨by rw [hwall, Int.toNat_of_nonneg hlow], hoffset⟩

/-- What the clock shows within the calendar. -/
def InCalendar (wall : ℤ) : Prop :=
  dayMicroseconds ≤ wall ∧ wall < ((daysBefore 10000 + 1) * dayMicroseconds : ℕ)

theorem Instant.plus_exists (t : Instant) {seconds : ℤ} (h : InCalendar (t.wall + seconds * 1000000)) :
    ∃ t', t.plus seconds = some t' ∧ (t'.wall : ℤ) = t.wall + seconds * 1000000 ∧
      t'.val.offset = t.val.offset := by
  obtain ⟨hlow, hhigh⟩ := h
  have hnonneg : 0 ≤ t.wall + seconds * 1000000 := by omega
  have hoffset : t.val.offset.all fun offset => decide (offset.natAbs < dayMicroseconds) :=
    (Bool.and_eq_true_iff.mp t.property).2
  have hlow' : dayMicroseconds ≤ (t.wall + seconds * 1000000).toNat := by omega
  have hhigh' : (t.wall + seconds * 1000000).toNat < (daysBefore 10000 + 1) * dayMicroseconds :=
    (Int.toNat_lt hnonneg).mpr hhigh
  obtain ⟨t', ht'⟩ := Instant.ofWall_exists hlow' hhigh' hoffset
  exact ⟨t', ht', Instant.plus_spec ht' hnonneg⟩

end TraxJourney.Lib
