/-
  File:      Video/Unwrapped.lean
  Subject:   The longitudes of a trip video: `unwrap_lons` and what `build_legs` makes of it, in
             `src/video/legs.py`.

  * **`unwrapLons_legsOfItems`** -- every line is turned as a whole and nowhere torn, and neither are
    the legs of a trip at their joints.

  Arithmetic is exact, and the longitudes may lie anywhere.
-/
import Mathlib.Data.Rat.Floor
import TraxJourney.Video.Legs

namespace TraxJourney.Video

open Lib Lib.Numerals

/-! ## 1. One longitude -/

section

variable {K : Type*} [Field K] [LinearOrder K]

/-- The same point of the globe, whole turns away. -/
def Turned (p q : K × K) : Prop := q.2 = p.2 ∧ ∃ turns : ℤ, q.1 = p.1 + 360 * (turns : K)

/-- No more than a half turn apart. -/
def Close (lon lon' : K) : Prop := |lon' - lon| ≤ 180

/-- The longitudes of some legs, one after the other. -/
def lonsOf (legs : List (DrawnLeg K)) : List K := legs.flatMap fun leg => leg.points.map Prod.fst

/-- The lines that `build_legs` draws. -/
def drawnLines (items : List (Drawable K × Option (List (K × K)))) : List (List (K × K)) :=
  items.filterMap fun item => item.2.filter (2 ≤ ·.length)

variable [FloorRing K]

theorem unwrapLon_turned (prev : Option K) (lon lat : K) : Turned (lon, lat) (unwrapLon prev lon, lat) := by
  refine ⟨rfl, ?_⟩
  cases prev with
  | none => exact ⟨0, by simp [unwrapLon]⟩
  | some p =>
    refine ⟨-roundHalfEven ((lon - p) / 360), ?_⟩
    show lon - 360 * (roundHalfEven ((lon - p) / 360) : K) = _
    push_cast
    ring

theorem unwrapLons_turned (prev : Option K) (line : List (K × K)) :
    List.Forall₂ Turned line (unwrapLons prev line) := by
  induction line generalizing prev with
  | nil => exact List.Forall₂.nil
  | cons p line ih => exact List.Forall₂.cons (unwrapLon_turned prev p.1 p.2) (ih _)

variable [IsStrictOrderedRing K]

theorem unwrapLon_close (prev lon : K) : Close prev (unwrapLon (some prev) lon) := by
  have hround := abs_roundHalfEven_sub_le ((lon - prev) / 360)
  have hleft : unwrapLon (some prev) lon - prev =
      360 * -((roundHalfEven ((lon - prev) / 360) : K) - (lon - prev) / 360) := by
    show lon - 360 * (roundHalfEven ((lon - prev) / 360) : K) - prev = _
    field_simp
    ring
  unfold Close
  rw [hleft, abs_mul, abs_neg, abs_of_pos (by norm_num)]
  calc 360 * |(roundHalfEven ((lon - prev) / 360) : K) - (lon - prev) / 360|
      ≤ 360 * (1 / 2) := mul_le_mul_of_nonneg_left hround (by norm_num)
    _ = 180 := by norm_num

/-! ## 2. One line -/

theorem unwrapLons_close (prev : Option K) (line : List (K × K)) :
    (prev.toList ++ (unwrapLons prev line).map Prod.fst).IsChain Close := by
  induction line generalizing prev with
  | nil => cases prev <;> simp [unwrapLons]
  | cons p line ih =>
    have hrest := ih (some (unwrapLon prev p.1))
    rw [Option.toList_some, List.singleton_append] at hrest
    rw [unwrapLons, List.map_cons]
    cases prev with
    | none => exact hrest
    | some prev =>
      rw [Option.toList_some, List.singleton_append, List.isChain_cons_cons]
      exact ⟨unwrapLon_close prev p.1, hrest⟩

/-! ## 3. The legs -/

/-- The legs so far: the lines they are drawn from, turned; not torn, and ending at `_last_lon`. -/
structure Joined (lines : List (List (K × K))) (legs : List (DrawnLeg K)) : Prop where
  turned : List.Forall₂ (List.Forall₂ Turned) lines (legs.map (·.points))
  close : (lonsOf legs).IsChain Close
  last : lastLon legs = (lonsOf legs).getLast?

omit [FloorRing K] [IsStrictOrderedRing K] in
theorem Joined.nil : Joined ([] : List (List (K × K))) [] where
  turned := List.Forall₂.nil
  close := List.isChain_nil
  last := rfl

omit [Field K] [LinearOrder K] [FloorRing K] [IsStrictOrderedRing K] in
theorem lonsOf_append (legs : List (DrawnLeg K)) (leg : DrawnLeg K) :
    lonsOf (legs ++ [leg]) = lonsOf legs ++ leg.points.map Prod.fst := by
  simp [lonsOf]

omit [FloorRing K] [IsStrictOrderedRing K] in
theorem legOf_points (haversine : K × K → K × K → K) (index : ℕ) (item : Drawable K)
    (points : List (K × K)) : (legOf haversine index item points).points = points := by
  cases item <;> rfl

omit [IsStrictOrderedRing K] in
theorem unwrapLons_ne_nil {prev : Option K} {line : List (K × K)} (h : line ≠ []) :
    unwrapLons prev line ≠ [] := by
  intro hnil
  have hlen := length_unwrapLons prev line
  rw [hnil, List.length_nil] at hlen
  exact h (List.length_eq_zero_iff.mp hlen.symm)

variable {lines : List (List (K × K))} {legs : List (DrawnLeg K)}

theorem Joined.addItem {haversine : K × K → K × K → K} (h : Joined lines legs)
    (item : Drawable K × Option (List (K × K))) :
    Joined (lines ++ drawnLines [item]) (addItem haversine legs item) := by
  unfold Video.addItem
  cases hline : item.2.filter (2 ≤ ·.length) with
  | none =>
    have hnone : drawnLines [item] = [] := by simp [drawnLines, hline]
    rw [hnone, List.append_nil]
    exact h
  | some line =>
    have hsome : drawnLines [item] = [line] := by simp [drawnLines, hline]
    have htwo : 2 ≤ line.length := of_decide_eq_true (Option.filter_eq_some_iff.mp hline).2
    have hne : line ≠ [] := by
      intro hnil
      rw [hnil, List.length_nil] at htwo
      omega
    have hpoints := legOf_points haversine legs.length item.1 (unwrapLons (lastLon legs) line)
    have hlons := lonsOf_append legs (legOf haversine legs.length item.1 (unwrapLons (lastLon legs) line))
    rw [hpoints] at hlons
    rw [hsome]
    refine { turned := ?turned, close := ?close, last := ?last }
    case turned =>
      rw [List.map_append, List.map_singleton, hpoints]
      exact List.rel_append h.turned (List.Forall₂.cons (unwrapLons_turned _ line) List.Forall₂.nil)
    case close =>
      have hnew := unwrapLons_close (lastLon legs) line
      rw [hlons, List.isChain_append]
      rw [List.isChain_append] at hnew
      refine ⟨h.close, hnew.2.1, fun x hx y hy => hnew.2.2 x ?_ y hy⟩
      rw [h.last]
      cases hlast : (lonsOf legs).getLast? with
      | none => rw [hlast] at hx; cases hx
      | some last => rw [hlast] at hx; simpa using hx
    case last =>
      rw [hlons, List.getLast?_append_of_ne_nil _ (by simpa using unwrapLons_ne_nil hne)]
      rw [lastLon, List.getLast?_concat, Option.bind_some, hpoints, List.getLast?_map]

theorem foldl_joined (haversine : K × K → K × K → K) (items : List (Drawable K × Option (List (K × K))))
    (h : Joined lines legs) :
    Joined (lines ++ drawnLines items) (items.foldl (addItem haversine) legs) := by
  induction items generalizing lines legs with
  | nil =>
    rw [drawnLines, List.filterMap_nil, List.append_nil]
    exact h
  | cons item items ih =>
    have hsplit : drawnLines (item :: items) = drawnLines [item] ++ drawnLines items := by
      rw [drawnLines, drawnLines, drawnLines, ← List.filterMap_append, List.singleton_append]
    rw [List.foldl_cons, hsplit, ← List.append_assoc]
    exact ih (h.addItem item)

omit [Field K] [LinearOrder K] [FloorRing K] [IsStrictOrderedRing K] in
theorem fillDates_points (legs : List (DrawnLeg K)) :
    (fillDates legs).map (·.points) = legs.map (·.points) := by
  have hfill : ∀ (last : Option String) (legs : List (DrawnLeg K)),
      (fillFrom last legs).map (·.points) = legs.map (·.points) := by
    intro last legs
    induction legs generalizing last with
    | nil => rfl
    | cons leg rest ih => rw [fillFrom, List.map_cons, ih, List.map_cons]
  rw [fillDates, List.map_reverse, hfill, List.map_reverse, List.reverse_reverse, hfill]

/-- **Unwrapping turns points by whole turns and tears no line**: of every line, after any longitude or
    none; and the legs of all items, one behind the other, are torn at no joint either. -/
theorem unwrapLons_legsOfItems (haversine : K × K → K × K → K) (prev : Option K) (line : List (K × K))
    (items : List (Drawable K × Option (List (K × K)))) :
    ((unwrapLons prev line).length = line.length ∧ List.Forall₂ Turned line (unwrapLons prev line) ∧
        (prev.toList ++ (unwrapLons prev line).map Prod.fst).IsChain Close) ∧
      List.Forall₂ (List.Forall₂ Turned) (drawnLines items) ((legsOfItems haversine items).map (·.points)) ∧
      (lonsOf (legsOfItems haversine items)).IsChain Close := by
  have hall := foldl_joined haversine items Joined.nil
  have hpoints := fillDates_points (items.foldl (addItem haversine) [])
  have hlons : lonsOf (legsOfItems haversine items) = lonsOf (items.foldl (addItem haversine) []) := by
    have hmap : ∀ legs : List (DrawnLeg K), lonsOf legs = (legs.map (·.points)).flatMap (·.map Prod.fst) :=
      fun legs => by rw [lonsOf, List.flatMap_map]
    rw [hmap, hmap, legsOfItems, hpoints]
  refine ⟨⟨length_unwrapLons prev line, unwrapLons_turned prev line, unwrapLons_close prev line⟩, ?_, ?_⟩
  · rw [legsOfItems, hpoints]
    exact hall.turned
  · rw [hlons]
    exact hall.close

end

def overDateLine : List (Drawable ℚ × Option (List (ℚ × ℚ))) :=
  [(.segment "flight" none 800, some [(179, 0), (-179, 1)]),
   (.activity "ride" none none none none 20, some [(-178, 1), (178, 2)])]

theorem unwrapLons_legsOfItems_dateLine :
    lonsOf (legsOfItems (fun _ _ => 1) overDateLine) = [179, 181, 182, 178] ∧
      (lonsOf (legsOfItems (fun _ _ => 1) overDateLine)).IsChain Close :=
  ⟨by decide +kernel, (unwrapLons_legsOfItems (fun _ _ => 1) none [] overDateLine).2.2⟩

end TraxJourney.Video
