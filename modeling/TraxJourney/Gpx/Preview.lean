/-
  File:      Gpx/Preview.lean
  Subject:   The outline of a track in the preview of an import (`_preview_polyline` in
             `api/activities.py`).

  * **`outline_iff`** -- the points are an outline of the track exactly for the lengths of `Fits`;
    `outline_fails_short` -- not of a short track, whose last point is there twice.
-/
import Mathlib.Data.List.Induction
import Mathlib.Algebra.Order.Ring.Nat

namespace TraxJourney.Gpx

/-! ## 1. Slices -/

section Slices

variable {α : Type*}

/-- Every so many elements, the next one after as many as are told. -/
def everyNthFrom (stride : ℕ) : ℕ → List α → List α
  | _, [] => []
  | 0, x :: xs => x :: everyNthFrom stride (stride - 1) xs
  | skip + 1, _ :: xs => everyNthFrom stride skip xs

/-- `points[::stride]`. -/
def everyNth (stride : ℕ) (points : List α) : List α := everyNthFrom stride 0 points

theorem everyNthFrom_sublist (stride skip : ℕ) (points : List α) :
    (everyNthFrom stride skip points).Sublist points := by
  induction points generalizing skip with
  | nil => cases skip <;> exact .slnil
  | cons x xs ih =>
    cases skip with
    | zero => exact (ih _).cons_cons x
    | succ skip => exact (ih skip).cons x

theorem everyNthFrom_append {stride : ℕ} (hstride : 0 < stride) (skip : ℕ) (points : List α) (x : α) :
    everyNthFrom stride skip (points ++ [x]) = everyNthFrom stride skip points ++
      if skip ≤ points.length ∧ (points.length - skip) % stride = 0 then [x] else [] := by
  induction points generalizing skip with
  | nil =>
    cases skip with
    | zero => simp [everyNthFrom]
    | succ skip => simp [everyNthFrom]
  | cons y ys ih =>
    cases skip with
    | zero =>
      -- the next one is taken after a whole stride
      have hnext : (stride - 1 ≤ ys.length ∧ (ys.length - (stride - 1)) % stride = 0) ↔
          0 ≤ (y :: ys).length ∧ ((y :: ys).length - 0) % stride = 0 := by
        rw [List.length_cons, Nat.sub_zero]
        by_cases hle : stride ≤ ys.length + 1
        · have hmod : (ys.length + 1) % stride = (ys.length - (stride - 1)) % stride := by
            rw [Nat.mod_eq_sub_mod hle]
            congr 1
            omega
          rw [hmod]
          constructor
          · exact fun h => ⟨Nat.zero_le _, h.2⟩
          · exact fun h => ⟨by omega, h.2⟩
        · rw [Nat.mod_eq_of_lt (not_le.mp hle)]
          omega
      rw [List.cons_append, everyNthFrom, everyNthFrom, ih, List.cons_append, if_congr hnext rfl rfl]
    | succ skip =>
      have hsame : (skip ≤ ys.length ∧ (ys.length - skip) % stride = 0) ↔
          skip + 1 ≤ (y :: ys).length ∧ ((y :: ys).length - (skip + 1)) % stride = 0 := by
        rw [List.length_cons, Nat.add_sub_add_right, Nat.add_le_add_iff_right]
      rw [List.cons_append, everyNthFrom, everyNthFrom, ih, if_congr hsame rfl rfl]

theorem everyNth_append {stride : ℕ} (hstride : 0 < stride) (points : List α) (x : α) :
    everyNth stride (points ++ [x]) =
      everyNth stride points ++ if points.length % stride = 0 then [x] else [] := by
  unfold everyNth
  rw [everyNthFrom_append hstride, Nat.sub_zero]
  exact congrArg _ (if_congr (and_iff_right (Nat.zero_le _)) rfl rfl)

theorem length_everyNth {stride : ℕ} (hstride : 0 < stride) (points : List α) :
    (everyNth stride points).length = (points.length + (stride - 1)) / stride := by
  induction points using List.reverseRecOn with
  | nil => exact (Nat.div_eq_of_lt (by rw [List.length_nil]; omega)).symm
  | append_singleton points x ih =>
    rw [everyNth_append hstride, List.length_append, ih, List.length_append, List.length_singleton]
    obtain ⟨k, rfl⟩ := Nat.exists_eq_add_of_le' hstride
    have hshift : points.length + 1 + (k + 1 - 1) = points.length + (k + 1 - 1) + 1 := by omega
    have hdvd : k + 1 ∣ points.length + (k + 1 - 1) + 1 ↔ points.length % (k + 1) = 0 := by
      have hsum : points.length + (k + 1 - 1) + 1 = points.length + (k + 1) := by omega
      rw [hsum, Nat.dvd_add_left (Nat.dvd_refl _), Nat.dvd_iff_mod_eq_zero]
    rw [hshift, Nat.succ_div, if_congr hdvd rfl rfl]
    split
    · rfl
    · rfl

end Slices

/-! ## 2. The outline -/

/-- `PREVIEW_POINTS`. -/
def previewPointsMax : ℕ := 200

/-- `-(-n // PREVIEW_POINTS)`. -/
def previewStride (count : ℕ) : ℕ := (count + (previewPointsMax - 1)) / previewPointsMax

variable {α : Type*}

def previewKept (points : List α) : List α :=
  let stride := previewStride points.length
  let kept := everyNth stride points
  if points.length % stride ≠ 1 then kept ++ points.getLast?.toList else kept

def previewPolyline (encode : List α → String) (points : List α) : Option String :=
  if points.length < 2 then none else some (encode (previewKept points))

/-- An outline of a track: points of it in their order, no place of it twice, from its first to its last
    one, and not too many. -/
structure Outline (points kept : List α) : Prop where
  sublist : kept.Sublist points
  first : kept.head? = points.head?
  last : kept.getLast? = points.getLast?
  few : kept.length ≤ previewPointsMax

/-- The lengths of a track that are thinned right: more points than an outline has, and room for the
    last one where the stride does not meet it. -/
def Fits (count : ℕ) : Prop :=
  previewPointsMax < count ∧
    (count % previewStride count = 1 ∨ count ≤ (previewPointsMax - 1) * previewStride count)

instance (count : ℕ) : Decidable (Fits count) := inferInstanceAs (Decidable (_ ∧ _))

theorem stride_long {count : ℕ} (h : previewPointsMax < count) :
    2 ≤ previewStride count ∧ count ≤ previewPointsMax * previewStride count := by
  unfold previewStride previewPointsMax at *
  omega

theorem div_up_le {count stride most : ℕ} (hstride : 0 < stride) :
    (count + (stride - 1)) / stride ≤ most ↔ count ≤ most * stride := by
  rw [Nat.div_le_iff_le_mul_add_pred hstride, Nat.mul_comm stride most]
  omega

variable {points : List α}

theorem exists_last (h : 0 < points.length) : ∃ init last, points = init ++ [last] := by
  obtain ⟨init, last, hpoints⟩ := (List.eq_nil_or_concat points).resolve_left (List.ne_nil_of_length_pos h)
  exact ⟨init, last, hpoints.trans List.concat_eq_append⟩

theorem succ_mod_eq_one {count stride : ℕ} (hstride : 2 ≤ stride) :
    (count + 1) % stride = 1 ↔ count % stride = 0 := by
  have hlt : count % stride < stride := Nat.mod_lt _ (by omega)
  rw [Nat.add_mod, Nat.mod_eq_of_lt (show 1 < stride by omega)]
  by_cases hnext : count % stride + 1 < stride
  · rw [Nat.mod_eq_of_lt hnext]
    omega
  · rw [show count % stride + 1 = stride by omega, Nat.mod_self]
    omega

theorem previewKept_short (hmany : 2 ≤ points.length) (hfew : points.length ≤ previewPointsMax) :
    points.length < (previewKept points).length := by
  have hstride : previewStride points.length = 1 := by
    unfold previewStride previewPointsMax at *
    omega
  obtain ⟨init, last, hpoints⟩ := exists_last (show 0 < points.length by omega)
  have hlast : points.getLast? = some last := by rw [hpoints, List.getLast?_concat]
  have hmod : ¬ points.length % 1 = 1 := by
    rw [Nat.mod_one]
    decide
  have hkept : previewKept points = everyNth 1 points ++ [last] := by
    unfold previewKept
    dsimp only
    rw [hstride, if_pos hmod, hlast, Option.toList_some]
  have hlength := length_everyNth Nat.one_pos points
  rw [Nat.div_one] at hlength
  rw [hkept, List.length_append, hlength, List.length_singleton]
  omega

theorem head_everyNth (stride : ℕ) (points : List α) : (everyNth stride points).head? = points.head? := by
  cases points <;> rfl

theorem previewKept_long (hlong : previewPointsMax < points.length) :
    (previewKept points).Sublist points ∧ (previewKept points).head? = points.head? ∧
      (previewKept points).getLast? = points.getLast? ∧
      ((previewKept points).length ≤ previewPointsMax ↔ points.length % previewStride points.length = 1 ∨
          points.length ≤ (previewPointsMax - 1) * previewStride points.length) := by
  obtain ⟨hstride, hcount⟩ := stride_long hlong
  have hpos : 0 < previewStride points.length := by omega
  have hlength := length_everyNth hpos points
  obtain ⟨init, last, hpoints⟩ := exists_last (show 0 < points.length by omega)
  have hlast : points.getLast? = some last := by rw [hpoints, List.getLast?_concat]
  have hinit : points.length = init.length + 1 := by rw [hpoints]; simp
  have hslice := everyNth_append hpos init last
  rw [← hpoints] at hslice
  have hmeets : points.length % previewStride points.length = 1 ↔
      init.length % previewStride points.length = 0 := by
    rw [← succ_mod_eq_one hstride, ← hinit]
  unfold previewKept
  dsimp only
  by_cases hmod : points.length % previewStride points.length = 1
  · rw [if_neg (not_not.mpr hmod)]
    rw [if_pos (hmeets.mp hmod)] at hslice
    refine ⟨everyNthFrom_sublist _ _ _, head_everyNth _ _, ?_, ?_⟩
    · rw [hslice, List.getLast?_concat, hlast]
    · rw [hlength, div_up_le hpos]
      exact iff_of_true hcount (.inl hmod)
  · rw [if_pos hmod, hlast, Option.toList_some]
    rw [if_neg fun h => hmod (hmeets.mpr h), List.append_nil] at hslice
    refine ⟨?_, ?_, by rw [List.getLast?_concat], ?_⟩
    · rw [hslice]
      exact hpoints ▸ (everyNthFrom_sublist _ 0 init).append (List.Sublist.refl [last])
    · rw [List.head?_append, head_everyNth]
      cases hhead : points.head? with
      | none => rw [List.head?_eq_none_iff.mp hhead] at hlong; cases hlong
      | some p => rfl
    · rw [List.length_append, List.length_singleton, hlength, or_iff_right hmod, ← div_up_le hpos]
      unfold previewPointsMax
      omega

/-- **The preview of a track is an outline of it exactly if its length is one that fits.** -/
theorem outline_iff (encode : List α → String) (points : List α) (h : 2 ≤ points.length) :
    previewPolyline encode points = some (encode (previewKept points)) ∧
      (Outline points (previewKept points) ↔ Fits points.length) := by
  refine ⟨if_neg (not_lt.mpr h), ?_⟩
  by_cases hlong : previewPointsMax < points.length
  · obtain ⟨hsublist, hfirst, hlast, hfew⟩ := previewKept_long hlong
    unfold Fits
    rw [and_iff_right hlong, ← hfew]
    exact ⟨fun houtline => houtline.few, fun hlen => ⟨hsublist, hfirst, hlast, hlen⟩⟩
  · have hmore := previewKept_short h (not_lt.mp hlong)
    refine iff_of_false (fun houtline => ?_) fun hfits => hlong hfits.1
    exact absurd houtline.sublist.length_le (not_le.mpr hmore)

/-- A track of 399 points: every second one, the last of them among these. -/
theorem outline_of_399 : Outline (List.range 399) (previewKept (List.range 399)) :=
  (outline_iff (fun _ => "") (List.range 399) (by simp)).2.mpr (by rw [List.length_range]; decide)

/-- **A track of two points has its last one twice**, and one of 400 points a point too many. -/
theorem outline_fails_short : (¬ ∀ points : List ℕ, 2 ≤ points.length → Outline points (previewKept points)) ∧
      previewKept [0, 1] = [0, 1, 1] ∧ (previewKept (List.range 400)).length = previewPointsMax + 1 := by
  refine ⟨fun hclaim => ?_, rfl, by decide +kernel⟩
  have hkept := (hclaim [0, 1] (by decide)).sublist.length_le
  exact absurd hkept (by decide)

end TraxJourney.Gpx
