/-
  File:      Track/Lengths.lean
  Subject:   The length of a track and of its parts, and what `recompute_track_metrics` makes of it.

  * **`round_shares`** -- of a number cut in two and rounded, no more than one is lost or won.
-/
import TraxJourney.Track.StoredPoints

namespace TraxJourney.Track

open Lib

variable {K : Type} [Field K] [LinearOrder K]

/-! ## 1. Lengths -/

def lengthKm (F : Functions K) : List (TrackPoint K) → K
  | a :: b :: rest => (haversineKm F a.lat a.lng b.lat b.lng).getD 0 + lengthKm F (b :: rest)
  | _ => 0

theorem lengthKm_append (F : Functions K) (xs : List (TrackPoint K)) (y : TrackPoint K)
    (ys : List (TrackPoint K)) :
    lengthKm F (xs ++ y :: ys) = lengthKm F (xs ++ [y]) + lengthKm F (y :: ys) := by
  induction xs with
  | nil =>
    show lengthKm F (y :: ys) = 0 + _
    rw [zero_add]
  | cons x xs ih =>
    cases xs with
    | nil =>
      show _ + lengthKm F (y :: ys) = (_ + 0) + lengthKm F (y :: ys)
      rw [add_zero]
    | cons z zs =>
      show _ + lengthKm F (z :: zs ++ y :: ys) = (_ + lengthKm F (z :: zs ++ [y])) + _
      rw [ih, add_assoc]

variable {points : List (TrackPoint K)}

theorem lengthKm_take_drop (F : Functions K) {k : ℕ} (hk : k < points.length) :
    lengthKm F (points.take (k + 1)) + lengthKm F (points.drop k) = lengthKm F points := by
  conv_rhs => rw [← List.take_append_drop k points, List.drop_eq_getElem_cons hk]
  rw [lengthKm_append, List.take_succ_eq_append_getElem hk, ← List.drop_eq_getElem_cons hk]

variable {F : Functions K}

theorem lengthKm_nonneg [IsStrictOrderedRing K] (hF : Measures F) (points : List (TrackPoint K)) :
    0 ≤ lengthKm F points := by
  induction points with
  | nil => exact le_rfl
  | cons a points ih =>
    cases points with
    | nil => exact le_rfl
    | cons b rest =>
      obtain ⟨km, hkm⟩ := hF.some a.lat a.lng b.lat b.lng
      have hstep := hF.nonneg hkm
      show 0 ≤ (haversineKm F a.lat a.lng b.lat b.lng).getD 0 + lengthKm F (b :: rest)
      rw [hkm, Option.getD_some]
      exact add_nonneg hstep ih

theorem distanceKm_eq (hF : Measures F) (hpos : 0 < points.length) {start : Series K}
    (hstart : start.distanceKm = 0) :
    ∃ s, (List.range' 1 (points.length - 1)).foldlM (seriesStep F points) start = some s ∧
      s.distanceKm = lengthKm F points := by
  have hturn : ∀ i (s : Series K), 1 ≤ i → i < 1 + (points.length - 1) →
      s.distanceKm = lengthKm F (points.take i) →
      ∃ s', seriesStep F points s i = some s' ∧ s'.distanceKm = lengthKm F (points.take (i + 1)) := by
    intro i s hlow hhigh hs
    obtain ⟨k, rfl⟩ := Nat.exists_eq_add_of_le' hlow
    have hk : k < points.length := by omega
    have hk' : k + 1 < points.length := by omega
    obtain ⟨km, hkm⟩ := hF.some points[k].lat points[k].lng points[k + 1].lat points[k + 1].lng
    have hrecord : ∀ (r : Series K) (elev : Option K), (r.record elev).distanceKm = r.distanceKm :=
      fun r elev => by cases elev <;> rfl
    refine ⟨({ s with distanceKm := s.distanceKm + km } : Series K).record points[k + 1].elev, ?_, ?_⟩
    · unfold seriesStep
      rw [Nat.add_sub_cancel, List.getElem?_eq_getElem hk, List.getElem?_eq_getElem hk']
      exact congrArg (Option.bind · _) hkm
    · rw [hrecord, hs, List.take_succ_eq_append_getElem hk', List.take_succ_eq_append_getElem hk,
        List.append_assoc, List.singleton_append,
        lengthKm_append F (points.take k) points[k] [points[k + 1]]]
      show _ + km = _ + ((haversineKm F _ _ _ _).getD 0 + 0)
      rw [hkm, Option.getD_some, add_zero]
  have hfirst : start.distanceKm = lengthKm F (points.take 1) := by
    obtain ⟨p, rest, rfl⟩ := List.exists_cons_of_length_pos hpos
    exact hstart
  obtain ⟨s, hs, hlast⟩ := foldlM_range'_spec hturn hfirst
  have hall : 1 + (points.length - 1) = points.length := by omega
  rw [hall, List.take_length] at hlast
  exact ⟨s, hs, hlast⟩

/-! ## 2. Figures -/

variable [FloorRing K]

/-- The climb that `recompute_track_metrics` measures. -/
def measuredClimb (F : Functions K) (points : List (TrackPoint K)) : K :=
  ((recomputeTrackMetrics F points 0 0 0).map (·.totalElevationGain)).getD 0

/-- The share of a track that a part of it is. -/
def share (distanceM originalDistanceM : K) : K :=
  if 0 < originalDistanceM then max 0 (min 1 (distanceM / originalDistanceM)) else 1

omit [FloorRing K] in
theorem pyIndex_last (hmany : 2 ≤ points.length) :
    pyIndex points (-1) = some points[points.length - 1] := by
  rw [pyIndex_neg_one, List.getLast?_eq_getElem?]
  exact List.getElem?_eq_getElem (by omega)

theorem measuredClimb_eq {s : Series K} {gain : K} (hmany : 2 ≤ points.length)
    (hs : (List.range' 1 (points.length - 1)).foldlM (seriesStep F points)
      ((⟨0, [], []⟩ : Series K).record points[0].elev) = some s)
    (hgain : elevationGain (exact K F.root) s.elevs (some s.elevDistKm) none = some gain) :
    measuredClimb F points = gain := by
  have hfirst : points[0]? = some points[0] := List.getElem?_eq_getElem (by omega)
  unfold measuredClimb recomputeTrackMetrics
  rw [if_neg (by omega)]
  simp only [Option.bind_eq_bind, hfirst, Option.bind_some, hs, hgain, pyIndex_last hmany,
    Option.map_some, Option.getD_some]

theorem recomputeTrackMetrics_spec [IsStrictOrderedRing K] (hF : Measures F) (hroot : Device.HasRoots F.root)
    (hmany : 2 ≤ points.length) (originalDistanceM : K) (moving elapsed : ℤ) :
    ∃ t, recomputeTrackMetrics F points originalDistanceM moving elapsed = some t ∧
      t.distance = lengthKm F points * ((1000 : ℤ) : K) ∧ t.totalElevationGain = measuredClimb F points ∧
      t.movingTime = roundHalfEven ((moving : K) * share t.distance originalDistanceM) ∧
      t.elapsedTime = roundHalfEven ((elapsed : K) * share t.distance originalDistanceM) := by
  have hfirst : points[0]? = some points[0] := List.getElem?_eq_getElem (by omega)
  have hstart : ((⟨0, [], []⟩ : Series K).record points[0].elev).distanceKm = 0 := by
    cases points[0].elev <;> rfl
  obtain ⟨s, hs, hlength⟩ := distanceKm_eq hF (by omega : 0 < points.length) hstart
  obtain ⟨gain, hgain⟩ := Device.elevationGain_exact hroot s.elevs (some s.elevDistKm)
  rw [measuredClimb_eq hmany hs hgain]
  unfold recomputeTrackMetrics
  rw [if_neg (by omega)]
  simp only [Option.bind_eq_bind, hfirst, Option.bind_some, hs, hgain, pyIndex_last hmany]
  refine ⟨_, rfl, ?_, rfl, rfl, rfl⟩
  dsimp only
  rw [hlength]

theorem round_shares [IsStrictOrderedRing K] (n : ℤ) {d₁ d₂ d : K} (h₁ : 0 ≤ d₁) (h₂ : 0 ≤ d₂)
    (hsum : d₁ + d₂ = d) (hd : 0 < d) :
    |roundHalfEven ((n : K) * share d₁ d) + roundHalfEven ((n : K) * share d₂ d) - n| ≤ 1 := by
  have hshare : ∀ part, 0 ≤ part → part ≤ d → share part d = part / d := by
    intro part hlow hhigh
    unfold share
    rw [if_pos hd, min_eq_right ((div_le_one hd).mpr hhigh), max_eq_right (div_nonneg hlow hd.le)]
  have hwhole : (n : K) * share d₁ d + n * share d₂ d = n := by
    rw [hshare d₁ h₁ (by linarith), hshare d₂ h₂ (by linarith), ← mul_add, ← add_div, hsum,
      div_self hd.ne', mul_one]
  have hround₁ := abs_le.mp (abs_roundHalfEven_sub_le ((n : K) * share d₁ d))
  have hround₂ := abs_le.mp (abs_roundHalfEven_sub_le ((n : K) * share d₂ d))
  have hclose : |((roundHalfEven ((n : K) * share d₁ d) + roundHalfEven ((n : K) * share d₂ d) - n : ℤ) : K)| ≤
      1 := by
    push_cast
    rw [abs_le]
    constructor <;> linarith
  exact_mod_cast hclose

end TraxJourney.Track
