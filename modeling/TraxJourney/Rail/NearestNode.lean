/-
  File:      Rail/NearestNode.lean
  Subject:   The vertex of a region's tracks that is nearest to a point: `RailStore.nearest_node` of
             `src/rail/store.py`, over the rows that `src/rail/builder.py` writes.

  * **`nearestNode_nearest`** -- the boxes that widen find the nearest vertex, for a radius that is not
    negative; **`nearestNode_inverted`** -- not for a negative one.

  The order of the rows is that of the ways, which may be any.
-/
import TraxJourney.Lib.Boxes

namespace TraxJourney.Rail

open Lib

/-! ## 1. The store -/

/-- A row of `way`: the class bits, and the vertices as fixed-point pairs of latitude and longitude. -/
structure Way where
  id : ℕ
  cls : ℕ
  geom : List (ℤ × ℤ)

def clsRoute : ℕ := 1

structure Vertex (K : Type*) where
  lat : K
  lon : K
  way : ℕ
deriving DecidableEq

section Store

variable {K : Type*} [Field K] [LinearOrder K]

/-- `vals[i] / _COORD_SCALE`. -/
def degrees (fixed : ℤ) : K := fixed / 10000000

/-- `decode_geometry`, with the way that the vertices are of. -/
def Way.vertices (w : Way) : List (Vertex K) := w.geom.map fun p => ⟨degrees p.1, degrees p.2, w.id⟩

/-- The row of `way_bbox`; a way of no vertices has none. -/
def boxOf (w : Way) : Option (Box K) :=
  match (w.vertices : List (Vertex K)) with
  | [] => none
  | v :: rest => some
      { left := rest.foldl (fun m u => min m u.lon) v.lon
        right := rest.foldl (fun m u => max m u.lon) v.lon
        top := rest.foldl (fun m u => min m u.lat) v.lat
        bottom := rest.foldl (fun m u => max m u.lat) v.lat }

/-- The index: what it stores of a box has the points of the box. -/
structure Rtree (K : Type*) [LinearOrder K] where
  stored : Box K → Box K
  outward : ∀ (b : Box K) (x y : K), b.Has x y → (stored b).Has x y

variable (rtree : Rtree K)

/-- `_in_box`: the ways with a bit of the mask whose box overlaps the given one. -/
def inBox (ways : List Way) (mask : ℕ) (minLon maxLon minLat maxLat : K) : List Way :=
  ways.filter fun w => (w.cls &&& mask != 0) &&
    ((boxOf w).map rtree.stored).any fun b =>
      decide (b.right ≥ minLon) && decide (b.left ≤ maxLon) &&
        decide (b.bottom ≥ minLat) && decide (b.top ≤ maxLat)

/-! ## 2. The search -/

/-- The squared degrees between a vertex and the point. -/
def sq (lat lon : K) (v : Vertex K) : K := (v.lat - lat) ^ 2 + (v.lon - lon) ^ 2

/-- `if sq <= best_sq`. -/
def closer (lat lon : K) (s : Option (Vertex K) × K) (v : Vertex K) : Option (Vertex K) × K :=
  if sq lat lon v ≤ s.2 then (some v, sq lat lon v) else s

/-- One turn of the ladder. -/
def searchWithin (ways : List Way) (lat lon h : K) : Option (Vertex K) :=
  ((inBox rtree ways clsRoute (lon - h) (lon + h) (lat - h) (lat + h)).foldl
    (fun s w => w.vertices.foldl (closer lat lon) s) (none, h * h)).1

def mPerDegLat : K := 111320

def searchStepsDeg : List K := [500 / mPerDegLat, 2000 / mPerDegLat, 10000 / mPerDegLat]

/-- `max_radius_m / _M_PER_DEG_LAT`. -/
def capOf (maxRadiusM : K) : K := maxRadiusM / mPerDegLat

/-- `RailStore.nearest_node`. -/
def nearestNode (ways : List Way) (lat lon maxRadiusM : K) : Option (Vertex K) :=
  (searchStepsDeg.filter (· < capOf maxRadiusM) ++ [capOf maxRadiusM]).findSome?
    (searchWithin rtree ways lat lon)

/-- The stored vertices of the route class. -/
def routeVertices (ways : List Way) : List (Vertex K) :=
  (ways.filter fun w => w.cls &&& clsRoute != 0).flatMap Way.vertices

end Store

/-! ## 3. One box -/

section Search

variable {K : Type*} [Field K] [LinearOrder K] {w : Way} {v : Vertex K}

theorem exists_boxOf (hv : v ∈ w.vertices) : ∃ b, boxOf w = some b ∧ b.Has v.lon v.lat := by
  unfold boxOf
  cases hvs : (w.vertices : List (Vertex K)) with
  | nil =>
    rw [hvs] at hv
    exact absurd hv List.not_mem_nil
  | cons first rest =>
    rw [hvs] at hv
    refine ⟨_, rfl, ?_⟩
    have hlons := foldl_min_le (rest.map Vertex.lon) first.lon
    have hlons' := le_foldl_max (rest.map Vertex.lon) first.lon
    have hlats := foldl_min_le (rest.map Vertex.lat) first.lat
    have hlats' := le_foldl_max (rest.map Vertex.lat) first.lat
    simp only [List.foldl_map] at hlons hlons' hlats hlats'
    rcases List.mem_cons.mp hv with heq | hmem
    · subst heq
      exact ⟨hlons.1, hlons'.1, hlats.1, hlats'.1⟩
    · have hlon := List.mem_map_of_mem (f := Vertex.lon) hmem
      have hlat := List.mem_map_of_mem (f := Vertex.lat) hmem
      exact ⟨hlons.2 _ hlon, hlons'.2 _ hlon, hlats.2 _ hlat, hlats'.2 _ hlat⟩

theorem foldl_closer (lat lon : K) (vs : List (Vertex K)) (s : Option (Vertex K) × K) :
    (vs.foldl (closer lat lon) s = s ∧ ∀ u ∈ vs, s.2 < sq lat lon u) ∨
      ∃ v ∈ vs, vs.foldl (closer lat lon) s = (some v, sq lat lon v) ∧ sq lat lon v ≤ s.2 ∧
        ∀ u ∈ vs, sq lat lon v ≤ sq lat lon u := by
  induction vs generalizing s with
  | nil => exact Or.inl ⟨rfl, fun u hu => absurd hu List.not_mem_nil⟩
  | cons w vs ih =>
    rw [List.foldl_cons, closer]
    split
    case isTrue hle =>
      right
      rcases ih (some w, sq lat lon w) with hkept | hfound
      · refine ⟨w, List.mem_cons_self, hkept.1, hle, ?_⟩
        exact List.forall_mem_cons.mpr ⟨le_rfl, fun u hu => (hkept.2 u hu).le⟩
      · obtain ⟨v, hv, hfold, hvw, hleast⟩ := hfound
        exact ⟨v, List.mem_cons_of_mem w hv, hfold, hvw.trans hle, List.forall_mem_cons.mpr ⟨hvw, hleast⟩⟩
    case isFalse hgt =>
      rcases ih s with hkept | hfound
      · exact Or.inl ⟨hkept.1, List.forall_mem_cons.mpr ⟨not_le.mp hgt, hkept.2⟩⟩
      · obtain ⟨v, hv, hfold, hvs, hleast⟩ := hfound
        exact Or.inr ⟨v, List.mem_cons_of_mem w hv, hfold, hvs,
          List.forall_mem_cons.mpr ⟨hvs.trans (not_le.mp hgt).le, hleast⟩⟩

variable (rtree : Rtree K) {ways : List Way} {lat lon h : K}

def scanned (ways : List Way) (lat lon h : K) : List (Vertex K) :=
  (inBox rtree ways clsRoute (lon - h) (lon + h) (lat - h) (lat + h)).flatMap Way.vertices

theorem searchWithin_eq : searchWithin rtree ways lat lon h =
      ((scanned rtree ways lat lon h).foldl (closer lat lon) (none, h * h)).1 := by
  rw [searchWithin, scanned, List.foldl_flatMap]

theorem mem_routeVertices_of_scanned (hv : v ∈ scanned rtree ways lat lon h) : v ∈ routeVertices ways := by
  obtain ⟨w, hw, hvw⟩ := List.mem_flatMap.mp hv
  obtain ⟨hways, hin⟩ := List.mem_filter.mp hw
  exact List.mem_flatMap.mpr ⟨w, List.mem_filter.mpr ⟨hways, (Bool.and_eq_true_iff.mp hin).1⟩, hvw⟩

variable [IsStrictOrderedRing K]

theorem mem_scanned (hh : 0 ≤ h) (hv : v ∈ routeVertices ways) (hnear : sq lat lon v ≤ h * h) :
    v ∈ scanned rtree ways lat lon h := by
  obtain ⟨w, hw, hvw⟩ := List.mem_flatMap.mp hv
  obtain ⟨hways, hcls⟩ := List.mem_filter.mp hw
  obtain ⟨b, hbox, hhas⟩ := exists_boxOf hvw
  have hstored := rtree.outward b _ _ hhas
  have hlat : |v.lat - lat| ≤ h := abs_le_of_sq_le_sq (by unfold sq at hnear; nlinarith) hh
  have hlon : |v.lon - lon| ≤ h := abs_le_of_sq_le_sq (by unfold sq at hnear; nlinarith) hh
  rw [abs_le] at hlat hlon
  refine List.mem_flatMap.mpr ⟨w, List.mem_filter.mpr ⟨hways, ?_⟩, hvw⟩
  rw [hbox, Option.map_some, Option.any_some, hcls, Bool.true_and]
  simp only [Bool.and_eq_true, decide_eq_true_eq]
  refine ⟨⟨⟨?_, ?_⟩, ?_⟩, ?_⟩
  · linarith [hstored.right]
  · linarith [hstored.left]
  · linarith [hstored.bottom]
  · linarith [hstored.top]

omit [IsStrictOrderedRing K] in
theorem searchWithin_mem (hv : searchWithin rtree ways lat lon h = some v) :
    v ∈ routeVertices ways ∧ sq lat lon v ≤ h * h ∧
      ∀ u ∈ scanned rtree ways lat lon h, sq lat lon v ≤ sq lat lon u := by
  rw [searchWithin_eq] at hv
  rcases foldl_closer lat lon (scanned rtree ways lat lon h) (none, h * h) with hkept | hfound
  · rw [hkept.1] at hv
    cases hv
  · obtain ⟨w, hw, hfold, hbound, hleast⟩ := hfound
    rw [hfold] at hv
    cases hv
    exact ⟨mem_routeVertices_of_scanned rtree hw, hbound, hleast⟩

theorem searchWithin_some (hh : 0 ≤ h) (hv : searchWithin rtree ways lat lon h = some v) :
    ∀ u ∈ routeVertices ways, sq lat lon v ≤ sq lat lon u := by
  obtain ⟨-, hbound, hleast⟩ := searchWithin_mem rtree hv
  intro u hu
  by_cases hnear : sq lat lon u ≤ h * h
  · exact hleast u (mem_scanned rtree hh hu hnear)
  · exact hbound.trans (not_le.mp hnear).le

theorem searchWithin_none (hh : 0 ≤ h) :
    searchWithin rtree ways lat lon h = none ↔ ∀ u ∈ routeVertices ways, h * h < sq lat lon u := by
  rw [searchWithin_eq]
  rcases foldl_closer lat lon (scanned rtree ways lat lon h) (none, h * h) with hkept | hfound
  · rw [hkept.1]
    refine iff_of_true rfl fun u hu => ?_
    by_contra hnear
    have hu' := mem_scanned rtree hh hu (not_lt.mp hnear)
    exact hnear (hkept.2 u hu')
  · obtain ⟨v, hv, hfold, hbound, -⟩ := hfound
    rw [hfold]
    refine iff_of_false (fun hnone => by cases hnone) fun hfar => ?_
    exact absurd (hfar v (mem_routeVertices_of_scanned rtree hv)) (not_lt.mpr hbound)

/-! ## 4. The ladder -/

theorem searchStep_nonneg {h : K} (hstep : h ∈ searchStepsDeg) : 0 ≤ h := by
  have hm : (0 : K) < mPerDegLat := Nat.cast_pos.mpr (by decide : 0 < 111320)
  rcases List.mem_cons.mp hstep with heq | hstep
  · rw [heq]
    exact div_nonneg (Nat.cast_nonneg 500) hm.le
  · rcases List.mem_cons.mp hstep with heq | hstep
    · rw [heq]
      exact div_nonneg (Nat.cast_nonneg 2000) hm.le
    · rw [List.mem_singleton.mp hstep]
      exact div_nonneg (Nat.cast_nonneg 10000) hm.le

theorem rung_cases {cap h : K} (hrung : h ∈ searchStepsDeg.filter (· < cap) ++ [cap]) :
    (0 ≤ h ∧ h < cap) ∨ h = cap := by
  rcases List.mem_append.mp hrung with hstep | hlast
  · obtain ⟨hmem, hlt⟩ := List.mem_filter.mp hstep
    exact Or.inl ⟨searchStep_nonneg hmem, of_decide_eq_true hlt⟩
  · exact Or.inr (List.mem_singleton.mp hlast)

/-- **The widening search is a nearest-neighbour search.** -/
theorem nearestNode_nearest (ways : List Way) (lat lon maxRadiusM : K) :
    (∀ v, nearestNode rtree ways lat lon maxRadiusM = some v →
      v ∈ routeVertices ways ∧ sq lat lon v ≤ capOf maxRadiusM * capOf maxRadiusM) ∧
    (0 ≤ maxRadiusM → (∀ v, nearestNode rtree ways lat lon maxRadiusM = some v →
        ∀ u ∈ routeVertices ways, sq lat lon v ≤ sq lat lon u) ∧
      (nearestNode rtree ways lat lon maxRadiusM = none ↔
        ∀ u ∈ routeVertices ways, capOf maxRadiusM * capOf maxRadiusM < sq lat lon u)) := by
  have hfound : ∀ v, nearestNode rtree ways lat lon maxRadiusM = some v →
      ∃ h, ((0 ≤ h ∧ h < capOf maxRadiusM) ∨ h = capOf maxRadiusM) ∧
        searchWithin rtree ways lat lon h = some v := by
    intro v hv
    obtain ⟨h, hrung, hsearch⟩ := List.exists_of_findSome?_eq_some hv
    exact ⟨h, rung_cases hrung, hsearch⟩
  refine ⟨?_, fun hradius => ?_⟩
  · intro v hv
    obtain ⟨h, hrung, hsearch⟩ := hfound v hv
    obtain ⟨hmem, hbound, -⟩ := searchWithin_mem rtree hsearch
    refine ⟨hmem, hbound.trans ?_⟩
    rcases hrung with hstep | hcap
    · exact mul_self_le_mul_self hstep.1 hstep.2.le
    · rw [hcap]
  · have hcap : (0 : K) ≤ capOf maxRadiusM := div_nonneg hradius (Nat.cast_nonneg 111320)
    constructor
    · intro v hv
      obtain ⟨h, hrung, hsearch⟩ := hfound v hv
      have hh : 0 ≤ h := by
        rcases hrung with hstep | heq
        · exact hstep.1
        · rw [heq]
          exact hcap
      exact searchWithin_some rtree hh hsearch
    · unfold nearestNode
      rw [List.findSome?_eq_none_iff]
      constructor
      · intro hnone
        have hlast := hnone (capOf maxRadiusM) (List.mem_append_right _ (List.mem_singleton_self _))
        exact (searchWithin_none rtree hcap).mp hlast
      · intro hfar h hrung
        rcases rung_cases hrung with hstep | heq
        · refine (searchWithin_none rtree hstep.1).mpr fun u hu => ?_
          exact (mul_self_le_mul_self hstep.1 hstep.2.le).trans_lt (hfar u hu)
        · rw [heq]
          exact (searchWithin_none rtree hcap).mpr hfar

end Search

/-- Ways at latitude and longitude zero: the one spans the box, the other is nearer. -/
def spanning : List Way :=
  [⟨1, clsRoute, [(-20000000, -20000000), (0, 5000000), (20000000, 20000000)]⟩,
    ⟨2, clsRoute, [(0, 1000000), (0, 2000000)]⟩]

/-- An index that stores boxes as they are. -/
def exactRtree : Rtree ℚ := ⟨id, fun _ _ _ h => h⟩

/-- Within a degree the nearer vertex is found, and no other is nearer. -/
theorem nearestNode_spanning : nearestNode exactRtree spanning 0 0 mPerDegLat = some ⟨0, 1 / 10, 2⟩ ∧
      ∀ u ∈ (routeVertices spanning : List (Vertex ℚ)), sq 0 0 (⟨0, 1 / 10, 2⟩ : Vertex ℚ) ≤ sq 0 0 u := by
  have hfound : nearestNode exactRtree spanning 0 0 mPerDegLat = some ⟨0, 1 / 10, 2⟩ := by decide +kernel
  have hradius : (0 : ℚ) ≤ mPerDegLat := by decide +kernel
  have hnearest := (nearestNode_nearest exactRtree spanning 0 0 mPerDegLat).2 hradius
  exact ⟨hfound, hnearest.1 _ hfound⟩

/-- A radius of minus one degree: a vertex is returned, and a nearer one within the square is not. -/
theorem nearestNode_inverted : nearestNode exactRtree spanning 0 0 (-mPerDegLat) = some ⟨0, 1 / 2, 1⟩ ∧
      (⟨0, 1 / 10, 2⟩ : Vertex ℚ) ∈ routeVertices spanning ∧
      sq 0 0 (⟨0, 1 / 10, 2⟩ : Vertex ℚ) ≤ capOf (-mPerDegLat) * capOf (-mPerDegLat) ∧
      sq 0 0 (⟨0, 1 / 10, 2⟩ : Vertex ℚ) < sq 0 0 (⟨0, 1 / 2, 1⟩ : Vertex ℚ) := by
  decide +kernel

end TraxJourney.Rail
