/-
  File:      Transfer/Elevations.lean
  Subject:   What `repair_elevations` leaves behind: whether it is within the bounds, and whether a
             second repair would change it (`src/models/track_edit.py`).

  * **`settles_iff`** -- when a repair settles everything.
-/
import TraxJourney.Lib.StableSort
import TraxJourney.Transfer.Crashes

namespace TraxJourney.Transfer

open Lib Schema

/-! ## 1. Samples -/

/-- A distance, and an elevation or none; both finite numbers, the distance as a double too. -/
structure Sample where
  distance : Number
  elevation : Option Number
  finite : distance.toDouble.exact.isSome = true
  finiteElevation : ∀ e ∈ elevation, e.exact.isSome = true

structure Recorded where
  gain : Option Number
  high : Option Number
  low : Option Number

def asJson (n : Option Number) : Json := (n.map .num).getD .null

def Recorded.figures (r : Recorded) : Figures :=
  { gain := asJson r.gain, high := asJson r.high, low := asJson r.low }

/-- The elevation of a sample, if it is plausible. -/
def Sample.reading (s : Sample) : Option Number :=
  s.elevation.filter fun e => e.within elevationMinM elevationMaxM

variable {samples : List Sample} {s : Sample} {profile : Option Profile} {given figures : Figures}

def profileOf (samples : List Sample) : Profile :=
  { distancesKm := samples.map fun s => .num s.distance
    elevationsM := samples.map fun s => asJson s.elevation }

theorem finiteOrNone_distance (s : Sample) : finiteOrNone (.num s.distance) = some s.distance := by
  have hexact : s.distance.exact.isSome = true := by
    cases hdistance : s.distance with
    | int n => rfl
    | float d =>
      have hfinite := s.finite
      rw [hdistance] at hfinite
      exact hfinite
  exact if_pos hexact

theorem plausible_elevation (s : Sample) : plausibleElevation (asJson s.elevation) = s.reading := by
  unfold Sample.reading
  cases s.elevation with
  | none => rfl
  | some e =>
    change (if e.within elevationMinM elevationMaxM = true then some e else none) = _
    by_cases hwithin : e.within elevationMinM elevationMaxM = true
    · simp [Option.filter, hwithin]
    · simp [Option.filter, hwithin]

theorem within_of_reading {e : Number} (h : s.reading = some e) :
    e.within elevationMinM elevationMaxM = true := by
  unfold Sample.reading at h
  exact (Option.filter_eq_some_iff.mp h).2

theorem needsRepair_profileOf :
    (profileOf samples).needsRepair = false ↔ ∀ s ∈ samples, s.reading.isSome = true := by
  unfold Profile.needsRepair profileOf
  rw [Bool.not_eq_false', Bool.and_eq_true, List.all_map, List.all_map, List.all_eq_true, List.all_eq_true]
  constructor
  · intro h s hs
    have hreading := h.2 s hs
    rwa [Function.comp_apply, plausible_elevation] at hreading
  · intro h
    refine ⟨fun s _ => ?_, fun s hs => ?_⟩
    · rw [Function.comp_apply, finiteOrNone_distance]
      rfl
    · rw [Function.comp_apply, plausible_elevation]
      exact h s hs

theorem rebuilt_profileOf : (profileOf samples).rebuilt = (profileOf samples).needsRepair := by
  have hreadings : (profileOf samples).distancesKm.all isReading = true ∧
      (profileOf samples).elevationsM.all isReading = true := by
    unfold profileOf
    rw [List.all_map, List.all_map, List.all_eq_true, List.all_eq_true]
    refine ⟨fun s _ => rfl, fun s _ => ?_⟩
    rw [Function.comp_apply]
    cases s.elevation <;> rfl
  unfold Profile.rebuilt
  rw [hreadings.1, hreadings.2, Bool.and_true, Bool.and_true]

theorem clean_profileOf : cleanElevationProfile (profileOf samples) =
    if samples.length < 2 ∨ (∀ s ∈ samples, s.reading = none) then none
    else some
      { distancesKm := samples.map fun s => .num s.distance
        elevationsM := (interpolateElevationGaps (samples.map Sample.distance)
          (samples.map Sample.reading)).map .num } := by
  have hsamples : ((profileOf samples).distancesKm.zip (profileOf samples).elevationsM).filterMap
      (fun s => (finiteOrNone s.1).map fun d => (d, plausibleElevation s.2)) =
        samples.map fun s => (s.distance, s.reading) := by
    unfold profileOf
    rw [List.zip_map', List.filterMap_map, ← List.filterMap_eq_map]
    refine List.filterMap_congr fun s _ => ?_
    rw [Function.comp_apply, finiteOrNone_distance, plausible_elevation]
    rfl
  unfold cleanElevationProfile
  simp only [hsamples, List.length_map, List.map_map]
  have hnone : (List.map (Prod.snd ∘ fun s : Sample => (s.distance, s.reading)) samples).all
      (·.isNone) = true ↔ ∀ s ∈ samples, s.reading = none := by
    rw [List.all_map, List.all_eq_true]
    exact forall₂_congr fun s _ => Option.isNone_iff_eq_none
  simp only [hnone]
  rfl

/-! ## 2. Gaps -/

/-- An index between two others, with no reading between those. -/
structure Gap (samples : List Sample) (a i b : ℕ) : Prop where
  before : a < i
  behind : i < b
  unread : ∀ j s, a < j → j < b → samples[j]? = some s → s.reading = none

/-- In every gap the line between the readings on both sides of it is plausible. -/
def LinesPlausible (samples : List Sample) : Prop :=
  ∀ a i b sa s sb ea eb, Gap samples a i b → samples[a]? = some sa → samples[i]? = some s →
    samples[b]? = some sb → sa.reading = some ea → sb.reading = some eb →
      (between s.distance sa.distance sb.distance ea eb).within elevationMinM elevationMaxM = true

section Filled

variable {i a b : ℕ} {sa sb : Sample} {ea eb : Number}

def filled (samples : List Sample) (i : ℕ) : Number :=
  filledAt (samples.map Sample.distance) (samples.map Sample.reading) i

/-- The indices of the readings. -/
def known (samples : List Sample) : List ℕ :=
  (List.range (samples.map Sample.reading).length).filter fun j =>
    ((samples.map Sample.reading)[j]?.join).isSome

theorem mem_known : i ∈ known samples ↔ ∃ s e, samples[i]? = some s ∧ s.reading = some e := by
  unfold known
  rw [List.mem_filter, List.mem_range, List.length_map, List.getElem?_map]
  constructor
  · intro ⟨hi, hsome⟩
    rw [List.getElem?_eq_getElem hi] at hsome ⊢
    obtain ⟨e, he⟩ := Option.isSome_iff_exists.mp hsome
    exact ⟨_, e, rfl, he⟩
  · intro ⟨s, e, hs, he⟩
    refine ⟨(List.getElem?_eq_some_iff.mp hs).1, ?_⟩
    rw [hs, Option.map_some, Option.join_some, he]
    rfl

theorem sorted_known (p : ℕ → Bool) : sortBy id ((known samples).filter p) = (known samples).filter p := by
  refine sortBy_eq_self (List.Pairwise.imp (fun h => le_of_lt h) ?_)
  exact (List.pairwise_lt_range.filter _).filter p

theorem last_known : ((known samples).filter (· < i)).getLast? = some a ↔
    a ∈ known samples ∧ a < i ∧ ∀ j ∈ known samples, j < i → j ≤ a := by
  rw [← sorted_known, getLast?_sortBy]
  simp only [IsGreatest, mem_upperBounds, Set.mem_ofPred_eq, List.mem_filter,
    decide_eq_true_eq, and_imp, and_assoc]

theorem first_known : ((known samples).filter (i < ·)).head? = some b ↔
    b ∈ known samples ∧ i < b ∧ ∀ j ∈ known samples, i < j → b ≤ j := by
  rw [← sorted_known, head?_sortBy]
  simp only [IsLeast, mem_lowerBounds, Set.mem_ofPred_eq, List.mem_filter,
    decide_eq_true_eq, and_imp, and_assoc]

theorem reading_at {e : Number} (hs : samples[i]? = some s) (he : s.reading = some e) (zero : Number) :
    (((samples.map Sample.reading)[i]?.join).getD zero) = e := by
  rw [List.getElem?_map, hs, Option.map_some, Option.join_some, he]
  rfl

theorem distance_at (hs : samples[i]? = some s) (zero : Number) :
    (samples.map Sample.distance).getD i zero = s.distance := by
  rw [List.getD_eq_getElem?_getD, List.getElem?_map, hs]
  rfl

theorem filled_gap (hgap : Gap samples a i b) (ha : samples[a]? = some sa)
    (hs : samples[i]? = some s) (hb : samples[b]? = some sb) (hea : sa.reading = some ea)
    (heb : sb.reading = some eb) :
    filled samples i = between s.distance sa.distance sb.distance ea eb := by
  have hunread : i ∉ known samples := by
    intro hi
    obtain ⟨t, e, ht, he⟩ := mem_known.mp hi
    rw [hgap.unread i t hgap.before hgap.behind ht] at he
    cases he
  have hnone : ∀ j ∈ known samples, j ≤ a ∨ b ≤ j := by
    intro j hj
    obtain ⟨t, e, ht, he⟩ := mem_known.mp hj
    by_contra hbetween
    rw [not_or, not_le, not_le] at hbetween
    rw [hgap.unread j t hbetween.1 hbetween.2 ht] at he
    cases he
  have hlast : ((known samples).filter (· < i)).getLast? = some a :=
    last_known.mpr ⟨mem_known.mpr ⟨sa, ea, ha, hea⟩, hgap.before, fun j hj hji =>
      (hnone j hj).resolve_right fun h => absurd (hji.trans hgap.behind) (not_lt.mpr h)⟩
  have hfirst : ((known samples).filter (i < ·)).head? = some b :=
    first_known.mpr ⟨mem_known.mpr ⟨sb, eb, hb, heb⟩, hgap.behind, fun j hj hij =>
      (hnone j hj).resolve_left fun h => absurd (hgap.before.trans hij) (not_lt.mpr h)⟩
  unfold filled filledAt
  unfold known at hunread hlast hfirst
  simp only [hunread, hlast, hfirst, if_false, distance_at hs, distance_at ha, distance_at hb,
    reading_at ha hea, reading_at hb heb]

theorem filled_reading {e : Number} (hs : samples[i]? = some s) (he : s.reading = some e) :
    filled samples i = e := by
  have hi : i ∈ known samples := mem_known.mpr ⟨s, e, hs, he⟩
  unfold filled filledAt
  unfold known at hi
  simp only [hi, if_true, reading_at hs he]

theorem filled_cases (hs : samples[i]? = some s) :
    (∃ t : Sample, t.reading = some (filled samples i)) ∨ filled samples i = .float .zero ∨
      ∃ a b sa sb ea eb, Gap samples a i b ∧ samples[a]? = some sa ∧ samples[b]? = some sb ∧
        sa.reading = some ea ∧ sb.reading = some eb := by
  by_cases hi : i ∈ known samples
  · obtain ⟨t, e, ht, he⟩ := mem_known.mp hi
    rw [filled_reading ht he]
    exact .inl ⟨t, he⟩
  · cases hlast : ((known samples).filter (· < i)).getLast? with
    | none =>
      cases hfirst : ((known samples).filter (i < ·)).head? with
      | none =>
        refine .inr (.inl ?_)
        unfold filled filledAt
        unfold known at hi hlast hfirst
        simp only [hi, hlast, hfirst, if_false]
      | some b =>
        obtain ⟨t, e, ht, he⟩ := mem_known.mp (first_known.mp hfirst).1
        refine .inl ⟨t, he.trans (congrArg some ?_)⟩
        unfold filled filledAt
        unfold known at hi hlast hfirst
        simp only [hi, hlast, hfirst, if_false, reading_at ht he]
    | some a =>
      obtain ⟨hknown, hlt, hmax⟩ := last_known.mp hlast
      obtain ⟨sa, ea, ha, hea⟩ := mem_known.mp hknown
      cases hfirst : ((known samples).filter (i < ·)).head? with
      | none =>
        refine .inl ⟨sa, hea.trans (congrArg some ?_)⟩
        unfold filled filledAt
        unfold known at hi hlast hfirst
        simp only [hi, hlast, hfirst, if_false, reading_at ha hea]
      | some b =>
        obtain ⟨hknown', hlt', hmin⟩ := first_known.mp hfirst
        obtain ⟨sb, eb, hb, heb⟩ := mem_known.mp hknown'
        refine .inr (.inr ⟨a, b, sa, sb, ea, eb, ⟨hlt, hlt', fun j t haj hjb ht => ?_⟩, ha, hb,
          hea, heb⟩)
        by_contra hread
        obtain ⟨e, he⟩ := Option.ne_none_iff_exists'.mp hread
        have hj : j ∈ known samples := mem_known.mpr ⟨t, e, ht, he⟩
        rcases lt_trichotomy j i with hji | rfl | hij
        · exact absurd haj (not_lt.mpr (hmax j hj hji))
        · exact hi hj
        · exact absurd hjb (not_lt.mpr (hmin j hj hij))

theorem filled_plausible_iff :
    (∀ i s, samples[i]? = some s → (filled samples i).within elevationMinM elevationMaxM = true) ↔
      LinesPlausible samples := by
  constructor
  · intro h a i b sa s sb ea eb hgap ha hs hb hea heb
    rw [← filled_gap hgap ha hs hb hea heb]
    exact h i s hs
  · intro h i s hs
    rcases filled_cases hs with ⟨t, ht⟩ | hzero | ⟨a, b, sa, sb, ea, eb, hgap, ha, hb, hea, heb⟩
    · exact within_of_reading ht
    · rw [hzero]
      decide +kernel
    · rw [filled_gap hgap ha hs hb hea heb]
      exact h a i b sa s sb ea eb hgap ha hs hb hea heb

theorem plausible_num {n : Number} :
    (plausibleElevation (.num n)).isSome = n.within elevationMinM elevationMaxM := by
  change (if n.within elevationMinM elevationMaxM = true then some n else none).isSome = _
  cases n.within elevationMinM elevationMaxM <;> rfl

theorem needsRepair_filled : Profile.needsRepair
      { distancesKm := samples.map fun s => .num s.distance
        elevationsM := (interpolateElevationGaps (samples.map Sample.distance)
          (samples.map Sample.reading)).map .num } = false ↔
      ∀ i s, samples[i]? = some s → (filled samples i).within elevationMinM elevationMaxM = true := by
  have hdistances : (samples.map fun s => Json.num s.distance).all
      (fun d => (finiteOrNone d).isSome) = true := by
    rw [List.all_map, List.all_eq_true]
    intro s _
    rw [Function.comp_apply, finiteOrNone_distance]
    rfl
  unfold Profile.needsRepair interpolateElevationGaps
  rw [hdistances, Bool.true_and, Bool.not_eq_false', List.map_map, List.all_map, List.all_eq_true]
  simp only [List.mem_range, List.length_map, Function.comp_apply, plausible_num]
  constructor
  · intro h i s hs
    exact h i (List.getElem?_eq_some_iff.mp hs).1
  · intro h i hi
    exact h i _ (List.getElem?_eq_getElem hi)

end Filled

/-- The profile as the writers store it: as it is where no sample is missing, with its gaps filled
    otherwise, and none of fewer than two samples or without a reading. -/
def written (samples : List Sample) : Option Profile :=
  if (profileOf samples).needsRepair then cleanElevationProfile (profileOf samples)
  else some (profileOf samples)

theorem written_fine_iff : (∀ p ∈ written samples, p.needsRepair = false) ↔ LinesPlausible samples := by
  unfold written
  by_cases hneeds : (profileOf samples).needsRepair = true
  · rw [if_pos hneeds, clean_profileOf]
    split
    case isTrue hnone =>
      refine ⟨fun _ a i b sa s sb ea eb hgap ha hs hb hea heb => ?_, fun _ p hp => by cases hp⟩
      -- a gap takes three samples, and two readings
      rcases hnone with hfew | hunread
      · have hb' := (List.getElem?_eq_some_iff.mp hb).1
        have h2 := hgap.behind
        omega
      · rw [hunread sa (List.mem_of_getElem? ha)] at hea
        cases hea
    case isFalse hsome =>
      rw [← filled_plausible_iff, ← needsRepair_filled]
      exact ⟨fun h => h _ rfl, fun h p hp => Option.some.inj hp ▸ h⟩
  · rw [if_neg hneeds]
    have hread := needsRepair_profileOf.mp (Bool.not_eq_true _ ▸ hneeds)
    refine iff_of_true (fun p hp => ?_) fun a i b sa s sb ea eb hgap ha hs hb hea heb => ?_
    · obtain rfl := Option.some.inj hp
      exact Bool.not_eq_true _ ▸ hneeds
    · have hsome := hread s (List.mem_of_getElem? hs)
      rw [hgap.unread i s hgap.before hgap.behind hs] at hsome
      cases hsome

/-- Of samples there are, the ones that are written have a reading. -/
theorem written_isSome_iff (hsamples : samples ≠ []) :
    (∃ p, written samples = some p) ↔ ∃ s ∈ samples, s.reading ≠ none := by
  unfold written
  by_cases hneeds : (profileOf samples).needsRepair = true
  case pos =>
    rw [if_pos hneeds, clean_profileOf]
    constructor
    · rintro ⟨p, hp⟩
      obtain ⟨hnot, -⟩ := Option.ite_none_left_eq_some.mp hp
      have hread := (not_or.mp hnot).2
      push Not at hread
      exact hread
    · rintro ⟨s, hs, hread⟩
      refine ⟨_, if_neg ?_⟩
      rintro (hfew | hunread)
      · -- the only sample has a reading, and needs no repair
        have hlength := List.length_pos_of_mem hs
        obtain ⟨only, rfl⟩ := List.length_eq_one_iff.mp (by omega : samples.length = 1)
        rw [List.mem_singleton.mp hs] at hread
        have hfine : (profileOf [only]).needsRepair = false := needsRepair_profileOf.mpr fun s hs => by
          rw [List.mem_singleton.mp hs]
          exact Option.isSome_iff_ne_none.mpr hread
        rw [hfine] at hneeds
        cases hneeds
      · exact hread (hunread s hs)
  case neg =>
    have hread := needsRepair_profileOf.mp (Bool.not_eq_true _ ▸ hneeds)
    obtain ⟨s, hs⟩ := List.exists_mem_of_ne_nil samples hsamples
    rw [if_neg hneeds]
    exact ⟨fun _ => ⟨s, hs, Option.isSome_iff_ne_none.mp (hread s hs)⟩, fun _ => ⟨_, rfl⟩⟩

/-- What is written are the filled samples. -/
theorem written_filled (hlines : LinesPlausible samples) {p : Profile} (hp : written samples = some p) :
    p.elevationsM.filterMap plausibleElevation = (List.range samples.length).map (filled samples) ∧
      p.distancesKm.filterMap finiteOrNone = samples.map Sample.distance := by
  have hdistances : (samples.map fun s => Json.num s.distance).filterMap finiteOrNone =
      samples.map Sample.distance := by
    rw [List.filterMap_map, ← List.filterMap_eq_map]
    exact List.filterMap_congr fun s _ => finiteOrNone_distance s
  unfold written at hp
  by_cases hneeds : (profileOf samples).needsRepair = true
  case pos =>
    rw [if_pos hneeds, clean_profileOf] at hp
    obtain ⟨-, hp⟩ := Option.ite_none_left_eq_some.mp hp
    obtain rfl := Option.some.inj hp
    refine ⟨?_, hdistances⟩
    unfold interpolateElevationGaps
    rw [List.length_map, List.map_map, List.filterMap_map, ← List.filterMap_eq_map (f := filled samples)]
    refine List.filterMap_congr fun i hi => ?_
    have hs := List.getElem?_eq_getElem (List.mem_range.mp hi)
    exact if_pos (filled_plausible_iff.mpr hlines i _ hs)
  case neg =>
    rw [if_neg hneeds] at hp
    obtain rfl := Option.some.inj hp
    have hread := needsRepair_profileOf.mp (Bool.not_eq_true _ ▸ hneeds)
    refine ⟨?_, hdistances⟩
    have hreadings : samples.map Sample.reading = (List.range samples.length).map (some ∘ filled samples) := by
      refine List.ext_getElem (by simp) fun i h1 h2 => ?_
      rw [List.length_map] at h1
      obtain ⟨e, he⟩ := Option.isSome_iff_exists.mp (hread samples[i] (List.getElem_mem h1))
      rw [List.getElem_map, List.getElem_map, List.getElem_range, he, Function.comp_apply,
        filled_reading (List.getElem?_eq_getElem h1) he]
    calc (profileOf samples).elevationsM.filterMap plausibleElevation
        = samples.filterMap Sample.reading := by
          unfold profileOf
          rw [List.filterMap_map]
          exact List.filterMap_congr fun s _ => plausible_elevation s
      _ = (samples.map Sample.reading).filterMap id := by rw [List.filterMap_map, Function.id_comp]
      _ = (List.range samples.length).map (filled samples) := by
          rw [hreadings, List.filterMap_map, Function.id_comp, ← List.filterMap_eq_map]

/-! ## 3. Figures -/

theorem fold_mem (better : Number → Number → Bool) (xs : List Number) (x : Number) :
    xs.foldl (fun m y => if better m y then y else m) x ∈ x :: xs := by
  induction xs generalizing x with
  | nil => exact List.mem_cons_self
  | cons y ys ih =>
    rw [List.foldl_cons]
    rcases List.mem_cons.mp (ih (if better x y then y else x)) with hfirst | hrest
    · rw [hfirst]
      split
      · exact List.mem_cons_of_mem _ List.mem_cons_self
      · exact List.mem_cons_self
    · exact List.mem_cons_of_mem _ (List.mem_cons_of_mem _ hrest)

theorem maximum_mem {xs : List Number} {m : Number} (h : Number.maximum xs = some m) : m ∈ xs := by
  cases xs with
  | nil => cases h
  | cons x xs => exact Option.some.inj h ▸ fold_mem _ xs x

theorem minimum_mem {xs : List Number} {m : Number} (h : Number.minimum xs = some m) : m ∈ xs := by
  cases xs with
  | nil => cases h
  | cons x xs => exact Option.some.inj h ▸ fold_mem (fun m y => y.lt m) xs x

theorem badElevation_of_mem {es : List Json} {n : Number}
    (h : n ∈ es.filterMap plausibleElevation) : badElevation (.num n) = false := by
  obtain ⟨v, -, hv⟩ := List.mem_filterMap.mp h
  have hsome : (plausibleElevation (.num n)).isSome = true := by
    cases v with
    | num m =>
      change (if m.within elevationMinM elevationMaxM = true then some m else none) = some n at hv
      obtain ⟨hwithin, hn⟩ := Option.ite_none_right_eq_some.mp hv
      rw [← Option.some.inj hn, plausible_num, hwithin]
    | _ => cases hv
  unfold badElevation
  rw [Option.isNone_eq_false_iff.mpr hsome, Bool.and_false]

theorem measured_fine {m : Figures} (h : measured serverGain profile = some m) :
    badElevation m.high = false ∧ badElevation m.low = false := by
  unfold measured at h
  cases hfine : profile.filter fun p => !p.needsRepair with
  | none =>
    rw [hfine] at h
    obtain rfl := Option.some.inj h
    exact ⟨rfl, rfl⟩
  | some p =>
    rw [hfine] at h
    simp only [Option.bind_eq_bind, Option.bind_eq_some_iff] at h
    obtain ⟨gain, -, high, hhigh, low, hlow, hm⟩ := h
    obtain rfl := Option.some.inj hm
    exact ⟨badElevation_of_mem (maximum_mem hhigh), badElevation_of_mem (minimum_mem hlow)⟩

theorem figures_bad_iff {m : Figures} (hm : measured serverGain profile = some m)
    (h : plausibleFigures serverGain profile given = some figures) :
    figures.bad = (badGain given.gain && badGain m.gain) := by
  obtain ⟨hhigh, hlow⟩ := measured_fine hm
  unfold plausibleFigures at h
  by_cases hbad : given.bad = true
  · have hany : (badGain given.gain || badElevation given.high || badElevation given.low) = true := hbad
    rw [if_pos hany, hm, Option.map_some] at h
    obtain rfl := Option.some.inj h
    have hhigh' : badElevation (if badElevation given.high then m.high else given.high) = false := by
      cases hgiven : badElevation given.high <;> simp [hgiven, hhigh]
    have hlow' : badElevation (if badElevation given.low then m.low else given.low) = false := by
      cases hgiven : badElevation given.low <;> simp [hgiven, hlow]
    unfold Figures.bad
    rw [hhigh', hlow', Bool.or_false, Bool.or_false]
    cases hgiven : badGain given.gain <;> simp [hgiven]
  · have hnone : ¬ (badGain given.gain || badElevation given.high || badElevation given.low) = true := hbad
    rw [if_neg hnone] at h
    obtain rfl := Option.some.inj h
    rw [Bool.not_eq_true] at hbad
    have hgain : badGain given.gain = false := by
      unfold Figures.bad at hbad
      rw [Bool.or_eq_false_iff, Bool.or_eq_false_iff] at hbad
      exact hbad.1.1
    rw [hbad, hgain, Bool.false_and]

theorem plausible_of_fine (h : given.bad = false) :
    plausibleFigures serverGain profile given = some given := by
  have hnone : ¬ (badGain given.gain || badElevation given.high || badElevation given.low) = true := by
    rw [Bool.not_eq_true]
    exact h
  exact if_neg hnone

theorem measured_gain {p : Profile} {m : Figures} (hp : p.needsRepair = false)
    (h : measured serverGain (some p) = some m) :
    ∃ gain, serverGain (p.elevationsM.filterMap plausibleElevation)
      (p.distancesKm.filterMap finiteOrNone) = some gain ∧ m.gain = .num (.float gain.toDouble) := by
  have hkept : (some p).filter (fun p => !p.needsRepair) = some p := by simp [Option.filter, hp]
  unfold measured at h
  rw [hkept] at h
  simp only [Option.bind_eq_bind, Option.bind_eq_some_iff] at h
  obtain ⟨gain, hgain, high, -, low, -, hm⟩ := h
  exact ⟨gain, hgain, (congrArg Figures.gain (Option.some.inj hm)).symm⟩

/-! ## 4. A repair and the next one -/

/-- What `repair_elevations` returns. -/
def repaired (profile : Option Profile) (given : Figures) (byApp : Bool) :
    Option (Option Profile × Figures) :=
  (repairElevations serverGain profile given byApp).map fun r => (r.1.getD profile, r.2)

/-- The figures before the last look at them. -/
def keptFigures (samples : List Sample) (recorded : Recorded) (byApp : Bool) : Option Figures :=
  remeasured serverGain (written samples) ((profileOf samples).needsRepair && byApp) recorded.figures

theorem repaired_profileOf (samples : List Sample) (recorded : Recorded) (byApp : Bool) :
    repaired (some (profileOf samples)) recorded.figures byApp =
      (keptFigures samples recorded byApp).bind fun kept =>
        (plausibleFigures serverGain (written samples) kept).map fun figures =>
          (written samples, figures) := by
  unfold repaired repairElevations keptFigures
  dsimp only
  rw [Option.any_some, rebuilt_profileOf, Option.bind_some]
  have hwritten : (if (profileOf samples).needsRepair = true
      then cleanElevationProfile (profileOf samples) else some (profileOf samples)) = written samples := rfl
  rw [hwritten, Option.map_bind]
  refine congrArg _ (funext fun kept => ?_)
  rw [Function.comp_apply, Option.map_map]
  refine congrArg (Option.map · _) (funext fun figures => ?_)
  unfold written
  cases (profileOf samples).needsRepair <;> rfl

theorem repaired_of_fine {byApp : Bool} (hprofile : ∀ p ∈ profile, p.needsRepair = false)
    (hfigures : figures.bad = false) : repaired profile figures byApp = some (profile, figures) := by
  have hrebuilt : profile.any Profile.rebuilt = false := by
    cases profile with
    | none => rfl
    | some p => rw [Option.any_some, Profile.rebuilt, hprofile p rfl, Bool.false_and, Bool.false_and]
  unfold repaired repairElevations
  dsimp only
  rw [hrebuilt, Bool.false_and, if_neg Bool.false_ne_true]
  show ((some figures).bind _).map _ = _
  rw [Option.bind_some, plausible_of_fine hfigures]
  rfl

/-- The profile that is returned needs no repair, every figure is absent or within its bounds, and a
    second repair changes nothing. -/
def Settles (samples : List Sample) (recorded : Recorded) (byApp : Bool) : Prop :=
  ∃ profile figures, repaired (some (profileOf samples)) recorded.figures byApp = some (profile, figures) ∧
    (∀ p ∈ profile, p.needsRepair = false) ∧ figures.bad = false ∧
      repaired profile figures byApp = some (profile, figures)

/-- The gain is one to be measured: there is one, and it is bad, or the app measured it from samples
    that are filled in. -/
def measuresGain (samples : List Sample) (recorded : Recorded) (byApp : Bool) : Bool :=
  recorded.gain.isSome && (badGain recorded.figures.gain || ((profileOf samples).needsRepair && byApp))

/-- No figure is to be measured from no samples, the lines across the gaps are plausible, and so is the
    climb of the samples and those lines, where it is to be measured and there is a reading. -/
structure Settling (samples : List Sample) (recorded : Recorded) (byApp : Bool) : Prop where
  sampled : recorded.figures.bad = true → samples ≠ []
  lines : LinesPlausible samples
  climb : measuresGain samples recorded byApp = true → (∃ s ∈ samples, s.reading ≠ none) → ∀ gain,
    serverGain ((List.range samples.length).map (filled samples)) (samples.map Sample.distance) = some gain →
      badGain (.num (.float gain.toDouble)) = false

variable {recorded : Recorded} {byApp : Bool} {kept m : Figures}

theorem kept_gain (hkept : keptFigures samples recorded byApp = some kept)
    (hm : measured serverGain (written samples) = some m) :
    (badGain kept.gain && badGain m.gain) = (measuresGain samples recorded byApp && badGain m.gain) := by
  unfold keptFigures remeasured at hkept
  have hnull : recorded.gain = none → badGain recorded.figures.gain = false := by
    intro hnone
    unfold Recorded.figures
    rw [hnone]
    rfl
  unfold measuresGain
  cases hanew : ((profileOf samples).needsRepair && byApp) with
  | false =>
    rw [hanew, if_neg Bool.false_ne_true] at hkept
    obtain rfl := Option.some.inj hkept
    rw [Bool.or_false]
    cases hgain : recorded.gain with
    | none => rw [hnull hgain, Option.isSome_none, Bool.and_false]
    | some n => rw [Option.isSome_some, Bool.true_and]
  | true =>
    rw [hanew, if_pos rfl, hm, Option.map_some] at hkept
    obtain rfl := Option.some.inj hkept
    rw [Bool.or_true, Bool.and_true]
    unfold Recorded.figures
    cases recorded.gain with
    | none => rfl
    | some n =>
      change (badGain m.gain && badGain m.gain) = (true && badGain m.gain)
      rw [Bool.and_self, Bool.true_and]

theorem measured_of_samples (h : samples ≠ []) : ∃ m, measured serverGain (written samples) = some m := by
  rw [← Option.isSome_iff_exists, Option.isSome_iff_ne_none, ne_eq, measured_none_iff]
  intro hany
  obtain ⟨p, hp, hempty⟩ := (Option.any_eq_true _ _).mp hany
  unfold written at hp
  split at hp
  · rw [cleaned_not_empty hp] at hempty
    cases hempty
  · obtain rfl := Option.some.inj hp
    unfold Profile.isEmpty profileOf at hempty
    rw [Bool.and_eq_true, List.isEmpty_iff, List.map_eq_nil_iff] at hempty
    exact h hempty.1

theorem returned_bad {figures : Figures} (hsamples : samples ≠ [])
    (h : repaired (some (profileOf samples)) recorded.figures byApp = some (profile, figures)) :
    profile = written samples ∧ ∃ m, measured serverGain (written samples) = some m ∧
      figures.bad = (measuresGain samples recorded byApp && badGain m.gain) := by
  rw [repaired_profileOf] at h
  obtain ⟨kept, hkept, hfigures⟩ := Option.bind_eq_some_iff.mp h
  obtain ⟨given, hgiven, hpair⟩ := Option.map_eq_some_iff.mp hfigures
  obtain ⟨rfl, rfl⟩ := Prod.mk.inj hpair
  obtain ⟨m, hm⟩ := measured_of_samples hsamples
  exact ⟨rfl, m, hm, (figures_bad_iff hm hgiven).trans (kept_gain hkept hm)⟩

/-- **A repair settles everything** exactly where no figure is to be measured from no samples, the
    lines across the gaps are plausible, and so is the climb that is measured. -/
theorem settles_iff (samples : List Sample) (recorded : Recorded) (byApp : Bool) :
    Settles samples recorded byApp ↔ Settling samples recorded byApp := by
  have hempty : ∀ samples : List Sample, (some (profileOf samples)).any Profile.isEmpty = true ↔
      samples = [] := by
    intro samples
    rw [Option.any_some, Profile.isEmpty, Bool.and_eq_true, List.isEmpty_iff]
    unfold profileOf
    rw [List.map_eq_nil_iff]
    refine ⟨fun h => h.1, fun h => ⟨h, ?_⟩⟩
    rw [h]
    rfl
  have hreturns : repaired (some (profileOf samples)) recorded.figures byApp = none ↔
      recorded.figures.bad = true ∧ samples = [] := by
    unfold repaired
    rw [Option.map_eq_none_iff, repairElevations_none_iff, hempty]
  constructor
  · intro hsettles
    obtain ⟨profile, figures, hreturned, hfine, hfigures, _⟩ := hsettles
    have hsampled : recorded.figures.bad = true → samples ≠ [] := by
      intro hbad hnil
      rw [hreturns.mpr ⟨hbad, hnil⟩] at hreturned
      cases hreturned
    have hwritten : profile = written samples := by
      rw [repaired_profileOf] at hreturned
      obtain ⟨kept, -, hkept⟩ := Option.bind_eq_some_iff.mp hreturned
      obtain ⟨_, -, hpair⟩ := Option.map_eq_some_iff.mp hkept
      exact (congrArg Prod.fst hpair).symm
    subst hwritten
    have hlines := written_fine_iff.mp hfine
    refine ⟨hsampled, hlines, fun hmeasures hread gain hgain => ?_⟩
    have hsamples : samples ≠ [] := by
      rintro rfl
      obtain ⟨s, hs, -⟩ := hread
      exact absurd hs List.not_mem_nil
    obtain ⟨p, hp⟩ := (written_isSome_iff hsamples).mpr hread
    obtain ⟨-, m, hm, hbad⟩ := returned_bad hsamples hreturned
    rw [hp] at hm
    obtain ⟨gain', hgain', hmgain⟩ := measured_gain (hfine p hp) hm
    rw [hfigures, hmeasures, Bool.true_and, hmgain] at hbad
    obtain ⟨helevations, hdistances⟩ := written_filled hlines hp
    rw [helevations, hdistances, hgain] at hgain'
    rw [Option.some.inj hgain']
    exact hbad.symm
  · intro h
    have hfine := written_fine_iff.mpr h.lines
    obtain ⟨r, hr⟩ : ∃ r, repaired (some (profileOf samples)) recorded.figures byApp = some r :=
      Option.ne_none_iff_exists'.mp fun hnone => h.sampled (hreturns.mp hnone).1 (hreturns.mp hnone).2
    obtain ⟨profile, figures⟩ := r
    by_cases hsamples : samples = []
    · subst hsamples
      have hbad : recorded.figures.bad = false := by
        rw [← Bool.not_eq_true]
        exact fun hbad => h.sampled hbad rfl
      have hsame : repaired (written []) recorded.figures byApp = _ := repaired_of_fine hfine hbad
      exact ⟨_, _, hsame, hfine, hbad, hsame⟩
    · obtain ⟨rfl, m, hm, hbad⟩ := returned_bad hsamples hr
      have hfigures : figures.bad = false := by
        rw [hbad, Bool.and_eq_false_iff]
        cases hmeasures : measuresGain samples recorded byApp with
        | false => exact .inl rfl
        | true =>
          right
          cases hp : written samples with
          | none =>
            rw [hp] at hm
            obtain rfl := Option.some.inj hm
            rfl
          | some p =>
            rw [hp] at hm
            obtain ⟨gain, hgain, hmgain⟩ := measured_gain (hfine p hp) hm
            obtain ⟨helevations, hdistances⟩ := written_filled h.lines hp
            rw [helevations, hdistances] at hgain
            rw [hmgain]
            exact h.climb hmeasures ((written_isSome_iff hsamples).mp ⟨p, hp⟩) gain hgain
      exact ⟨_, _, hr, hfine, hfigures, repaired_of_fine hfine hfigures⟩

/-- A missing elevation between two readings, its distance beyond both. -/
def crossed : List Sample :=
  [⟨.int 0, some (.int 0), by decide +kernel, by decide +kernel⟩,
    ⟨.int 10, none, by decide +kernel, by decide +kernel⟩,
    ⟨.int 1, some (.int 20000), by decide +kernel, by decide +kernel⟩]

/-- **It is filled with 200 km**, and the profile needs a repair again. -/
theorem repair_unsettled : ¬ ∀ (samples : List Sample) (recorded : Recorded) (byApp : Bool),
    Settles samples recorded byApp := by
  intro hall
  obtain ⟨profile, figures, hreturned, hfine, -, -⟩ := hall crossed ⟨none, none, none⟩ false
  have hneeds : ((repaired (some (profileOf crossed)) (Recorded.figures ⟨none, none, none⟩) false).any
      fun r => r.1.any Profile.needsRepair) = true := by decide +kernel
  rw [hreturned, Option.any_some] at hneeds
  obtain ⟨p, hp, hneeds⟩ := (Option.any_eq_true _ _).mp hneeds
  rw [hfine p hp] at hneeds
  cases hneeds

end TraxJourney.Transfer
