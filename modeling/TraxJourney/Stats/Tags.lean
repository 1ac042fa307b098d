/-
  File:      Stats/Tags.lean
  Subject:   The distance of a tag's days, by the filter and by the breakdown (`_compute_stats` of
             `src/project/repo_core.py`).

  * **`rideDistance_byTag_iff`** -- the two distances are equal exactly if all days with rides agree.

  Neither way inherits the tags of a day from an earlier one.
-/
import TraxJourney.Stats.Totals

namespace TraxJourney.Stats

open Lib

variable {p : Project} {tag date : String}

/-! ## 1. Days -/

theorem allows_single {tags : List String} :
    allows [tag] tags = true ↔ if tag = untaggedLabel then tags = [] else tag ∈ tags := by
  unfold allows
  by_cases h : tag = untaggedLabel
  case pos =>
    subst h
    simp
  case neg => simp [h, Ne.symm h]

theorem letsThrough_single : letsThrough (p.allowedDates [tag]) (some date) = true ↔
    ∃ m, p.dayMeta.find date = some m ∧ allows [tag] m.ownTags = true := by
  unfold letsThrough Project.allowedDates
  rw [if_neg (List.cons_ne_nil _ _), Option.all_some, Option.any_some, List.contains_iff_mem, List.mem_map]
  constructor
  · rintro ⟨⟨day, m⟩, hmem, rfl⟩
    obtain ⟨hmem, hallows⟩ := List.mem_filter.mp hmem
    exact ⟨m, Table.find_eq_some.mpr hmem, hallows⟩
  · rintro ⟨m, hfind, hallows⟩
    exact ⟨(date, m), List.mem_filter.mpr ⟨Table.find_eq_some.mp hfind, hallows⟩, rfl⟩

/-- If a ride of the day is one for the tag: the day is known, and has no tag at all or the tag once. -/
def DayAgrees (p : Project) (tag date : String) : Prop :=
  tag ∈ p.rideTags date → date ≠ "" ∧ ∃ m, p.dayMeta.find date = some m ∧
    (m.ownTags = [] ∨ tag ≠ untaggedLabel ∧ m.ownTags.count tag = 1)

/-- How often the filter counts a ride of the day. -/
def Project.filterCount (p : Project) (tag date : String) : ℕ :=
  if letsThrough (p.allowedDates [tag]) (some date) ∧ date ≠ "" then 1 else 0

theorem rideTags_of_some {m : DayMeta} (h : p.dayMeta.find date = some m) :
    p.rideTags date = if m.ownTags = [] then [untaggedLabel] else m.ownTags := by
  unfold Project.rideTags
  rw [h]
  rfl

theorem mem_rideTags (h : letsThrough (p.allowedDates [tag]) (some date) = true) : tag ∈ p.rideTags date := by
  obtain ⟨m, hfind, hallows⟩ := letsThrough_single.mp h
  rw [allows_single] at hallows
  rw [rideTags_of_some hfind]
  by_cases htag : tag = untaggedLabel
  case pos =>
    rw [if_pos htag] at hallows
    rw [if_pos hallows, htag]
    exact List.mem_singleton_self _
  case neg =>
    rw [if_neg htag] at hallows
    rwa [if_neg (List.ne_nil_of_mem hallows)]

theorem once_iff (h : tag ∈ p.rideTags date) :
    (letsThrough (p.allowedDates [tag]) (some date) = true ∧ (p.rideTags date).count tag = 1) ↔
      ∃ m, p.dayMeta.find date = some m ∧
        (m.ownTags = [] ∨ tag ≠ untaggedLabel ∧ m.ownTags.count tag = 1) := by
  rw [letsThrough_single]
  cases hfind : p.dayMeta.find date with
  | none => simp
  | some m =>
    rw [rideTags_of_some hfind] at h ⊢
    simp only [Option.some.injEq, exists_eq_left', allows_single]
    by_cases hown : m.ownTags = []
    case pos =>
      rw [if_pos hown, List.mem_singleton] at h
      simp [h, hown]
    case neg =>
      rw [if_neg hown] at h
      by_cases htag : tag = untaggedLabel <;> simp [hown, htag, h]

theorem countedOnce_iff : p.filterCount tag date ≤ (p.rideTags date).count tag ∧
    (p.filterCount tag date = (p.rideTags date).count tag ↔ DayAgrees p tag date) := by
  unfold Project.filterCount DayAgrees
  by_cases hmem : tag ∈ p.rideTags date
  case neg =>
    have hnot : ¬ (letsThrough (p.allowedDates [tag]) (some date) = true ∧ date ≠ "") :=
      fun h => hmem (mem_rideTags h.1)
    rw [if_neg hnot, List.count_eq_zero_of_not_mem hmem]
    exact ⟨le_rfl, fun _ h => absurd h hmem, fun _ => rfl⟩
  case pos =>
    have hcount : 0 < (p.rideTags date).count tag := List.count_pos_iff.mpr hmem
    have honce := once_iff hmem
    by_cases hlets : letsThrough (p.allowedDates [tag]) (some date) = true ∧ date ≠ ""
    case pos =>
      rw [if_pos hlets]
      refine ⟨hcount, fun h _ => ⟨hlets.2, honce.mp ⟨hlets.1, h.symm⟩⟩, fun h => ?_⟩
      exact (honce.mpr (h hmem).2).2.symm
    case neg =>
      rw [if_neg hlets]
      refine ⟨hcount.le, fun h => absurd h hcount.ne, fun h => ?_⟩
      exact absurd ⟨(honce.mpr (h hmem).2).1, (h hmem).1⟩ hlets

/-! ## 2. Distances -/

variable {lower : String → String} {a : Activity}

def RideAgrees (lower : String → String) (p : Project) (tag : String) (a : Activity) : Prop :=
  a.isRide lower = true → 0 < figure a.distance distanceMaxM → ∀ date, a.date = some date →
    DayAgrees p tag date

theorem rideDistance_agrees : rideDistance lower (p.allowedDates [tag]) a ≤ p.tagDistance lower tag a ∧
      (rideDistance lower (p.allowedDates [tag]) a = p.tagDistance lower tag a ↔
        RideAgrees lower p tag a) := by
  unfold RideAgrees Project.tagDistance
  cases hride : a.isRide lower with
  | false =>
    have hnone : rideDistance lower (p.allowedDates [tag]) a = 0 := by
      unfold rideDistance
      rw [hride]
      exact if_neg fun h => Bool.false_ne_true h.1
    rw [hnone]
    exact ⟨le_rfl, fun _ h => absurd h Bool.false_ne_true, fun _ => rfl⟩
  | true =>
    cases hdate : a.date with
    | none =>
      have hnone : rideDistance lower (p.allowedDates [tag]) a = 0 := by
        unfold rideDistance
        rw [hdate]
        exact if_neg fun h => Bool.false_ne_true h.2.2
      rw [hnone]
      exact ⟨le_rfl, fun _ _ _ date h => (by cases h), fun _ => rfl⟩
    | some date =>
      have hfilter : rideDistance lower (p.allowedDates [tag]) a =
          p.filterCount tag date • figure a.distance distanceMaxM := by
        unfold rideDistance Project.filterCount
        rw [hride, hdate]
        simp [ite_smul]
      obtain ⟨hle, hiff⟩ : p.filterCount tag date ≤ (p.rideTags date).count tag ∧
          (p.filterCount tag date = (p.rideTags date).count tag ↔ DayAgrees p tag date) :=
        countedOnce_iff
      have hnonneg : 0 ≤ figure a.distance distanceMaxM := figure_nonneg _ (by decide +kernel)
      rw [hfilter, if_pos rfl, Option.map_some, Option.getD_some]
      refine ⟨nsmul_le_nsmul_left hnonneg hle, fun heq _ hpos day hday => ?_, fun h => ?_⟩
      · obtain rfl := Option.some.inj hday
        rw [nsmul_eq_mul, nsmul_eq_mul] at heq
        exact hiff.mp (Nat.cast_injective (mul_right_cancel₀ hpos.ne' heq))
      · rcases hnonneg.eq_or_lt with hzero | hpos
        · rw [← hzero, nsmul_zero, nsmul_zero]
        · rw [hiff.mpr (h rfl hpos date rfl)]

/-- **The filter and the breakdown agree on a tag that is offered, exactly if all its rides do.** -/
theorem rideDistance_byTag_iff (lower : String → String)
    (haversineKm : SegmentEndpoint → SegmentEndpoint → ℚ) (p : Project) {tag : String}
    (h : tag ∈ (computeStats lower haversineKm p []).tagOptions) :
    (computeStats lower haversineKm p [tag]).distanceByMode.ride =
        (computeStats lower haversineKm p []).distancePerTag.amount tag ↔
      ∀ a ∈ p.activities, RideAgrees lower p tag a := by
  have hsum : (computeStats lower haversineKm p []).distancePerTag.amount tag =
      (p.activities.map (p.tagDistance lower tag)).sum := amount_distancePerTag (List.ne_nil_of_mem h) tag
  have hride : (computeStats lower haversineKm p [tag]).distanceByMode.ride =
      (p.activities.map (rideDistance lower (p.allowedDates [tag]))).sum := totals_ride p.activities
  rw [hsum, hride, sum_map_eq_iff fun a _ => rideDistance_agrees.1]
  exact forall₂_congr fun a _ => rideDistance_agrees.2

/-! ## 3. A day without an entry -/

def noon (day : ℕ) (h : (⟨2024, 6, day, 12, 0, 0, 0, none⟩ : Instant.Parts).valid = true) : LocalStart :=
  .datetime ⟨_, h⟩

/-- A day with a tag, a day without, and a ride on the first and on the third. -/
def threeDays : Project where
  dayMeta := ⟨[("2024-06-01", ⟨none, some ["Alps"], []⟩), ("2024-06-02", ⟨none, some [], []⟩)], by decide⟩
  activities := [⟨some "Ride", some (.int 50000), none, none, some (noon 1 (by decide))⟩,
    ⟨some "Ride", some (.int 20000), none, none, some (noon 3 (by decide))⟩]
  segments := []
  counters := []
  sleepingOptions := []
  sleepingOptionGroups := .empty

theorem threeDays_untagged :
    untaggedLabel ∈ (computeStats String.toLower (fun _ _ => 0) threeDays []).tagOptions ∧
      (computeStats String.toLower (fun _ _ => 0) threeDays [untaggedLabel]).distanceByMode.ride = 0 ∧
      (computeStats String.toLower (fun _ _ => 0) threeDays []).distancePerTag.find untaggedLabel =
        some 20000 := by
  decide +kernel

theorem rideDistance_byTag_iff_threeDays :
    (computeStats String.toLower (fun _ _ => 0) threeDays ["Alps"]).distanceByMode.ride =
        (computeStats String.toLower (fun _ _ => 0) threeDays []).distancePerTag.amount "Alps" ↔
      ∀ a ∈ threeDays.activities, RideAgrees String.toLower threeDays "Alps" a :=
  rideDistance_byTag_iff _ _ threeDays (by decide +kernel)

end TraxJourney.Stats
