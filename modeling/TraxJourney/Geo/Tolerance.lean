/-
  File:      Geo/Tolerance.lean
  Subject:   What a line loses in simplification (`simplify_lonlat`): nothing further than the tolerance
             from what is left.

  * **`simplifyLonlat_within`** -- both ends are kept, and each dropped vertex lies within the tolerance
    of the chord between the two kept ones around it.

  The distance of a vertex to a chord is the code's, on the projected line, with any two functions for
  the cosine and the hypotenuse.
-/
import TraxJourney.Geo.PreparedLevels

namespace TraxJourney.Geo

open Lib Lib.Numerals

variable {K : Type*} [Field K] [LinearOrder K] {M : Trig K}

/-! ## 1. The furthest vertex -/

theorem le_furthest (dist : ℕ → K) {ks : List ℕ} {k : ℕ} (h : k ∈ ks) : dist k ≤ (furthest dist ks).1 := by
  unfold furthest
  induction ks using List.reverseRecOn with
  | nil => cases h
  | append_singleton ks x ih =>
    rw [List.foldl_append, List.foldl_cons, List.foldl_nil]
    rcases List.mem_append.mp h with hold | hnew
    · have hle := ih hold
      split
      case isTrue hlt => exact hle.trans hlt.le
      case isFalse => exact hle
    · obtain rfl := List.mem_singleton.mp hnew
      split
      case isTrue => exact le_rfl
      case isFalse hnot => exact not_lt.mp hnot

theorem furthest_none {dist : ℕ → K} {ks : List ℕ} (h : (furthest dist ks).2 = none) :
    (furthest dist ks).1 = -1 := by
  unfold furthest at h ⊢
  induction ks using List.reverseRecOn with
  | nil => rfl
  | append_singleton ks x ih =>
    rw [List.foldl_append, List.foldl_cons, List.foldl_nil] at h ⊢
    split at h
    case isTrue => cases h
    case isFalse hnot =>
      rw [if_neg hnot]
      exact ih h

variable [IsStrictOrderedRing K]

theorem chordDistance_le {proj : List (K × K)} {eps : K} (heps : 0 < eps) {i j k : ℕ} {c : Unit}
    (h : (toleranceSplitter M proj eps).split i j c = none) (hi : i < k) (hj : k < j) :
    chordDistance M (proj.getD i (0, 0)) (proj.getD j (0, 0)) (proj.getD k (0, 0)) ≤ eps := by
  have hmem : k ∈ List.range' (i + 1) (j - (i + 1)) := List.mem_range'_1.mpr (by omega)
  have hle : chordDistance M (proj.getD i (0, 0)) (proj.getD j (0, 0)) (proj.getD k (0, 0)) ≤
      (scan M proj i j).1 := le_furthest (fun k =>
    chordDistance M (proj.getD i (0, 0)) (proj.getD j (0, 0)) (proj.getD k (0, 0))) hmem
  refine hle.trans (not_lt.mp fun hlt => ?_)
  change (if eps < (scan M proj i j).1 then _ else _) = none at h
  rw [if_pos hlt, Option.map_eq_none_iff] at h
  have hnone : (scan M proj i j).1 = -1 := furthest_none h
  rw [hnone] at hlt
  linarith

/-! ## 2. What is kept -/

def keptIndices (M : Trig K) (poly : List (Position K)) (toleranceM : K) : List ℕ :=
  (List.range poly.length).filter fun index =>
    decide (poly.length < 3) || keptVertices M poly (toleranceM / 111000) index

theorem filterMap_range {α : Type*} (p : ℕ → Bool) (xs : List α) :
    ((List.range xs.length).filter p).filterMap (xs[·]?) = (xs.zipIdx.filter fun q => p q.2).map (·.1) := by
  induction xs using List.reverseRecOn with
  | nil => rfl
  | append_singleton xs x ih =>
    have hbefore : ((List.range xs.length).filter p).filterMap ((xs ++ [x])[·]?) =
        ((List.range xs.length).filter p).filterMap (xs[·]?) :=
      List.filterMap_congr fun k hk =>
        List.getElem?_append_left (List.mem_range.mp (List.mem_of_mem_filter hk))
    have hlast : ([xs.length].filter p).filterMap ((xs ++ [x])[·]?) =
        (([x].zipIdx xs.length).filter fun q => p q.2).map (·.1) := by
      cases hp : p xs.length <;> simp [hp]
    rw [List.length_append, List.length_singleton, List.range_succ, List.filter_append,
      List.filterMap_append, List.zipIdx_append, Nat.zero_add, List.filter_append, List.map_append,
      hbefore, ih, hlast]

variable {toleranceM : K}

omit [IsStrictOrderedRing K] in
theorem simplifyLonlat_eq_kept (poly : List (Position K)) (h : 0 < toleranceM) :
    simplifyLonlat M poly toleranceM = (keptIndices M poly toleranceM).filterMap (poly[·]?) := by
  unfold simplifyLonlat keptIndices
  rw [filterMap_range]
  by_cases hshort : poly.length < 3
  · rw [if_pos (.inl hshort)]
    simp [hshort]
  · rw [if_neg (by simp [hshort, h])]
    simp [hshort]

omit [IsStrictOrderedRing K] in
theorem keptVertices_eq (M : Trig K) (poly : List (Position K)) (eps : K) (index : ℕ) :
    keptVertices M poly eps index = true ↔ index = 0 ∨ index = poly.length - 1 ∨
      (toleranceSplitter M (project M poly) eps).marked 0 (poly.length - 1) () index ≠ none := by
  unfold keptVertices
  rw [Splitter.loop_single]
  cases (toleranceSplitter M (project M poly) eps).marked 0 (poly.length - 1) () index with
  | none => simp
  | some c => simp

omit [IsStrictOrderedRing K] in
theorem mem_keptIndices {poly : List (Position K)} {index : ℕ} :
    index ∈ keptIndices M poly toleranceM ↔ index < poly.length ∧
      (poly.length < 3 ∨ keptVertices M poly (toleranceM / 111000) index = true) := by
  rw [keptIndices, List.mem_filter, List.mem_range, Bool.or_eq_true, decide_eq_true_eq]

omit [IsStrictOrderedRing K] in
theorem keptIndices_sorted (M : Trig K) (poly : List (Position K)) (toleranceM : K) :
    (keptIndices M poly toleranceM).Pairwise (· < ·) := List.pairwise_lt_range.filter _

omit [IsStrictOrderedRing K] in
theorem simplifyLonlat_sublist (M : Trig K) (poly : List (Position K)) (toleranceM : K) :
    (simplifyLonlat M poly toleranceM).Sublist poly := by
  unfold simplifyLonlat
  split
  case isTrue => exact List.Sublist.refl poly
  case isFalse =>
    have hsub := (List.filter_sublist (l := poly.zipIdx)
      (p := fun q => keptVertices M poly (toleranceM / 111000) q.2)).map Prod.fst
    rwa [List.zipIdx_map_fst] at hsub

omit [IsStrictOrderedRing K] in
theorem head?_simplifyLonlat (poly : List (Position K)) (h : 0 < toleranceM) :
    (simplifyLonlat M poly toleranceM).head? = poly.head? := by
  rw [simplifyLonlat_eq_kept poly h, keptIndices]
  cases poly with
  | nil => rfl
  | cons first rest =>
    have hkept : keptVertices M (first :: rest) (toleranceM / 111000) 0 = true :=
      (keptVertices_eq M _ _ 0).mpr (.inl rfl)
    rw [List.length_cons, List.range_succ_eq_map, List.filter_cons_of_pos (by rw [hkept, Bool.or_true])]
    rfl

omit [IsStrictOrderedRing K] in
theorem getLast?_simplifyLonlat (poly : List (Position K)) (h : 0 < toleranceM) :
    (simplifyLonlat M poly toleranceM).getLast? = poly.getLast? := by
  rw [simplifyLonlat_eq_kept poly h, keptIndices]
  rcases List.eq_nil_or_concat poly with rfl | ⟨front, last, rfl⟩
  · rfl
  · have hlen : (front.concat last).length = front.length + 1 := List.length_concat
    have hkept : keptVertices M (front.concat last) (toleranceM / 111000) front.length = true :=
      (keptVertices_eq M _ _ _).mpr (.inr (.inl (by rw [hlen, Nat.add_sub_cancel])))
    have hat : (front.concat last)[front.length]? = some last := by
      rw [List.concat_eq_append, List.getElem?_append_right le_rfl, Nat.sub_self]
      rfl
    rw [hlen, List.range_succ, List.filter_append,
      List.filter_cons_of_pos (l := []) (by rw [hkept, Bool.or_true]), List.filter_nil,
      List.filterMap_append, List.filterMap_cons_some hat, List.filterMap_nil, List.getLast?_concat,
      List.concat_eq_append, List.getLast?_concat]

theorem dropped_within (poly : List (Position K)) (htol : 0 < toleranceM) {x : ℕ} (hx : x < poly.length)
    (hdropped : x ∉ keptIndices M poly toleranceM) :
    ∃ i ∈ keptIndices M poly toleranceM, ∃ j ∈ keptIndices M poly toleranceM, i < x ∧ x < j ∧
      (∀ y ∈ keptIndices M poly toleranceM, y ≤ i ∨ j ≤ y) ∧
      chordDistance M ((project M poly).getD i (0, 0)) ((project M poly).getD j (0, 0))
        ((project M poly).getD x (0, 0)) ≤ toleranceM / 111000 := by
  have heps : 0 < toleranceM / 111000 := div_pos htol (by norm_num)
  simp only [mem_keptIndices, keptVertices_eq] at hdropped ⊢
  have hmany : ¬ poly.length < 3 := fun hshort => hdropped ⟨hx, .inl hshort⟩
  have hinner : 0 < x ∧ x < poly.length - 1 := by
    have hfirst : x ≠ 0 := fun h => hdropped ⟨hx, .inr (.inl h)⟩
    have hlast : x ≠ poly.length - 1 := fun h => hdropped ⟨hx, .inr (.inr (.inl h))⟩
    omega
  have hnone : (toleranceSplitter M (project M poly) (toleranceM / 111000)).marked 0
      (poly.length - 1) () x = none := by
    by_contra hmark
    exact hdropped ⟨hx, .inr (.inr (.inr hmark))⟩
  obtain ⟨i, j, -, hi, hj, hlast, hgap⟩ := Splitter.exists_gap hinner hnone
  obtain ⟨c, hwhole⟩ := hgap.whole
  refine ⟨i, ⟨by omega, .inr ?_⟩, j, ⟨by omega, .inr (.inr hgap.right_eq)⟩, hi, hj,
    fun y ⟨_, hy⟩ => ?_, chordDistance_le heps hwhole hi hj⟩
  · rcases hgap.left_eq with heq | hmark
    · exact .inl heq
    · exact .inr (.inr hmark)
  · -- a kept vertex is not strictly between them
    by_contra hbetween
    have hmark := hgap.between y (by omega) (by omega)
    rcases hy with hshort | hzero | hend | hmarked
    · exact hmany hshort
    · omega
    · omega
    · exact hmarked hmark

/-- **Nothing is lost but what lies within the tolerance.** -/
theorem simplifyLonlat_within (M : Trig K) (poly : List (Position K)) {toleranceM : K}
    (htol : 0 < toleranceM) :
    ∃ kept : List ℕ, simplifyLonlat M poly toleranceM = kept.filterMap (poly[·]?) ∧
      kept.Pairwise (· < ·) ∧ (∀ k ∈ kept, k < poly.length) ∧
      (simplifyLonlat M poly toleranceM).Sublist poly ∧
      (simplifyLonlat M poly toleranceM).head? = poly.head? ∧
      (simplifyLonlat M poly toleranceM).getLast? = poly.getLast? ∧
      ∀ x, x < poly.length → x ∉ kept → ∃ i ∈ kept, ∃ j ∈ kept, i < x ∧ x < j ∧ (∀ y ∈ kept, y ≤ i ∨ j ≤ y) ∧
        chordDistance M ((project M poly).getD i (0, 0)) ((project M poly).getD j (0, 0))
          ((project M poly).getD x (0, 0)) ≤ toleranceM / 111000 :=
  ⟨keptIndices M poly toleranceM, simplifyLonlat_eq_kept poly htol, keptIndices_sorted M poly toleranceM,
    fun _ hk => (mem_keptIndices.mp hk).1, simplifyLonlat_sublist M poly toleranceM,
    head?_simplifyLonlat poly htol, getLast?_simplifyLonlat poly htol,
    fun _ hx hdropped => dropped_within poly htol hx hdropped⟩

/-- The hairpins, at ten metres: the vertex on the way north is dropped, and lies as near to what is kept. -/
theorem simplifyLonlat_within_hairpins : (0 : ℚ) < 10 ∧ ∃ kept : List ℕ,
    simplifyLonlat nearEquator hairpins 10 = kept.filterMap (hairpins[·]?) ∧ minPoints < kept.length ∧ 36 ∉ kept ∧
      ∃ i ∈ kept, ∃ j ∈ kept, i < 36 ∧ 36 < j ∧ (∀ y ∈ kept, y ≤ i ∨ j ≤ y) ∧
        chordDistance nearEquator ((project nearEquator hairpins).getD i (0, 0))
          ((project nearEquator hairpins).getD j (0, 0)) ((project nearEquator hairpins).getD 36 (0, 0)) ≤
            10 / 111000 := by
  have hpos : (0 : ℚ) < 10 := by norm_num
  obtain ⟨kept, hline, -, -, -, -, -, hdropped⟩ := simplifyLonlat_within nearEquator hairpins hpos
  have hlost : (simplifyLonlat nearEquator hairpins 10).length = 39 ∧
      ∀ p ∈ simplifyLonlat nearEquator hairpins 10, p.lat ≠ 18 / 5 := by decide +kernel
  have hnot : 36 ∉ kept := fun hmem =>
    hlost.2 ⟨1, 18 / 5, []⟩ (hline ▸ List.mem_filterMap.mpr ⟨36, hmem, rfl⟩) rfl
  have hmany : 39 ≤ kept.length := by
    rw [← hlost.1, hline]
    exact List.length_filterMap_le _ _
  exact ⟨hpos, kept, hline, Nat.lt_of_lt_of_le (by decide) hmany, hnot, hdropped 36 (by decide) hnot⟩

end TraxJourney.Geo
