/-
  File:      Poster/CardPlacement.lean
  Subject:   The cards of a poster, placed around their pins: `src/poster/card_placement.py`, in exact
             arithmetic. The table of directions is a parameter.

  * **`placeCards_safe`** -- one result for every pin, in the order of the keys; the cards are apart
    from each other and from every obstacle, and inside the margin.

  `fuel` bounds the turns of the loop over the radii.
-/
import TraxJourney.Lib.Doubles
import TraxJourney.Poster.RouteIndex
import Mathlib.Algebra.Order.Archimedean.Basic
import Mathlib.Data.List.Sort

namespace TraxJourney.Poster

open Lib

/-! ## 1. Rectangles -/

section Rectangles

variable {K : Type*} [Field K] [LinearOrder K]

def Rect.overlaps (r other : Rect K) (margin : K) : Bool :=
  !(decide (r.right + margin ≤ other.left) || decide (other.right ≤ r.left - margin) ||
    decide (r.bottom + margin ≤ other.top) || decide (other.bottom ≤ r.top - margin))

def Rect.within (r : Rect K) (canvasSize : ℤ × ℤ) (margin : K) : Bool :=
  decide (margin ≤ r.left) && decide (margin ≤ r.top) &&
    decide (r.right ≤ (canvasSize.1 : K) - margin) && decide (r.bottom ≤ (canvasSize.2 : K) - margin)

/-- `min(distances, key=lambda d: d[0])[1]`, of a first and the rest. -/
def nearest (first : K × Point K) (rest : List (K × Point K)) : Point K :=
  (rest.foldl (fun best d => if d.1 < best.1 then d else best) first).2

def Rect.edgeAnchor (r : Rect K) (x y : K) : Point K :=
  let cx := min (max x r.left) r.right
  let cy := min (max y r.top) r.bottom
  nearest (|cx - r.left|, (r.left, cy)) [(|cx - r.right|, (r.right, cy)),
    (|cy - r.top|, (cx, r.top)), (|cy - r.bottom|, (cx, r.bottom))]

/-- Along one of the axes the gap is at least the gutter. -/
def Apart (gutter : K) (a b : Rect K) : Prop :=
  a.right + gutter ≤ b.left ∨ b.right + gutter ≤ a.left ∨
    a.bottom + gutter ≤ b.top ∨ b.bottom + gutter ≤ a.top

variable {a b : Rect K} {gutter : K}

theorem Apart.symm (h : Apart gutter a b) : Apart gutter b a := by
  rcases h with h | h | h | h
  · exact .inr (.inl h)
  · exact .inl h
  · exact .inr (.inr (.inr h))
  · exact .inr (.inr (.inl h))

theorem overlaps_eq_false [IsStrictOrderedRing K] : a.overlaps b gutter = false ↔ Apart gutter a b := by
  simp only [Rect.overlaps, Bool.not_eq_false', Bool.or_eq_true, decide_eq_true_eq, le_sub_iff_add_le,
    or_assoc]
  rfl

end Rectangles

/-! ## 2. The search -/

/-- A pin, and the size of its card; `sortKey` is of any ordered kind. -/
structure PinSpec (ι σ K : Type*) where
  id : ι
  x : K
  y : K
  sortKey : σ
  size : ℤ × ℤ

/-- The card of a pin and where its leader line ends; none where the pin goes to the legend. -/
structure CardPlacement (ι K : Type*) where
  pinId : ι
  card : Option (Rect K × Point K)

def CardPlacement.cardRect {ι K : Type*} (p : CardPlacement ι K) : Option (Rect K) := p.card.map Prod.fst

/-- The keyword arguments of `place_cards`. -/
structure Options (K : Type*) where
  route : Option (RouteIndex K) := none
  otherPins : Bool := true
  margin : K
  gutter : K
  minRadius : Option K := none
  maxRadius : Option K := none
  radiusStep : Option K := none
  obstacles : List (Rect K) := []

section Search

variable {ι σ K : Type*} [Field K] [LinearOrder K] [FloorRing K]

def candidateRect (pinX pinY : K) (d : Point K) (radius : K) (cardSize : ℤ × ℤ) : Rect K :=
  let cx := pinX + d.1 * radius
  let cy := pinY + d.2 * radius
  let left : K := ((roundHalfEven (cx - (cardSize.1 : K) / ((2 : ℤ) : K)) : ℤ) : K)
  let top : K := ((roundHalfEven (cy - (cardSize.2 : K) / ((2 : ℤ) : K)) : ℤ) : K)
  ⟨left, top, left + cardSize.1, top + cardSize.2⟩

def routeOverlapPenalty : ℤ := 100000

def leaderCrossesRoutePenalty : ℤ := 25000

def leaderCrossesCardPenalty : ℤ := 50000

def pinCoveredPenalty : ℤ := 40000

def score (candidate : Rect K) (pin : PinSpec ι σ K) (radius : K) (route : Option (RouteIndex K))
    (placedRects : List (Rect K)) (pinPoints : List (Point K)) : K :=
  let anchor := candidate.edgeAnchor pin.x pin.y
  let leader : Segment K := ⟨pin.x, pin.y, anchor.1, anchor.2⟩
  let onRoute := route.any fun index => !index.segments.isEmpty && index.intersectsRect candidate
  let acrossRoute := route.any fun index => !index.segments.isEmpty && index.crossesSegment leader
  let acrossCard := placedRects.any fun other => segmentIntersectsRect leader other
  let covers := pinPoints.any fun p => decide (p ≠ (pin.x, pin.y)) && inRect candidate p.1 p.2
  radius + (if onRoute then (routeOverlapPenalty : K) else 0) +
    (if acrossRoute then (leaderCrossesRoutePenalty : K) else 0) +
    (if acrossCard then (leaderCrossesCardPenalty : K) else 0) +
    (if covers then (pinCoveredPenalty : K) else 0)

/-- What a search looks at. -/
structure Scene (K : Type*) where
  canvasSize : ℤ × ℤ
  options : Options K
  directions : List (Point K)
  pinPoints : List (Point K)

/-- `if score < best_score`. -/
def keepBest (candidate : Rect K) (score : K) (best : Option (Rect K × K)) : Option (Rect K × K) :=
  if best.all fun b => decide (score < b.2) then some (candidate, score) else best

/-- One direction of one radius; `best` is the best candidate so far, with its score. -/
def tryDirection (scene : Scene K) (pin : PinSpec ι σ K) (placedRects : List (Rect K)) (radius : K)
    (best : Option (Rect K × K)) (d : Point K) : Option (Rect K × K) :=
  let candidate := candidateRect pin.x pin.y d radius pin.size
  if !candidate.within scene.canvasSize scene.options.margin then best
  else if placedRects.any fun existing => candidate.overlaps existing scene.options.gutter then best
  else
    keepBest candidate (score candidate pin radius scene.options.route placedRects
      (if scene.options.otherPins then scene.pinPoints else [])) best

/-- The loop over the radii up to `hi`; `none` where the turns run out. -/
def search (scene : Scene K) (pin : PinSpec ι σ K) (placedRects : List (Rect K)) (hi step : K) :
    ℕ → K → Option (Rect K × K) → Option (Option (Rect K × K))
  | 0, _, _ => none
  | fuel + 1, radius, best =>
    if radius ≤ hi then
      let best' := scene.directions.foldl (tryDirection scene pin placedRects radius) best
      if best'.any fun b => decide (b.2 < (leaderCrossesRoutePenalty : K)) then some best'
      else search scene pin placedRects hi step fuel (radius + step) best'
    else some best

/-- `lo`, `hi` and `step` for a pin. -/
def radii (options : Options K) (pin : PinSpec ι σ K) : K × K × K :=
  let lo := options.minRadius.getD
    (((31 : ℤ) : K) / ((50 : ℤ) : K) * ((max pin.size.1 pin.size.2 : ℤ) : K))
  let hi := options.maxRadius.getD (((6 : ℤ) : K) * lo)
  (lo, hi, options.radiusStep.getD (max 1 ((hi - lo) / ((12 : ℤ) : K))))

def placeLoop (scene : Scene K) (fuel : ℕ) :
    List (PinSpec ι σ K) → List (Rect K) → Option (List (CardPlacement ι K))
  | [], _ => some []
  | pin :: pins, placedRects =>
    let (lo, hi, step) := radii scene.options pin
    (search scene pin placedRects hi step fuel lo none).bind fun best =>
      match best with
      | some (rect, _) => (placeLoop scene fuel pins (placedRects ++ [rect])).map
          (⟨pin.id, some (rect, rect.edgeAnchor pin.x pin.y)⟩ :: ·)
      | none => (placeLoop scene fuel pins placedRects).map (⟨pin.id, none⟩ :: ·)

variable [LinearOrder σ]

/-- `sorted(pins, key=lambda p: p.sort_key)`. -/
def sortedPins (pins : List (PinSpec ι σ K)) : List (PinSpec ι σ K) :=
  pins.insertionSort fun p q => p.sortKey ≤ q.sortKey

def placeCards (directions : List (Point K)) (options : Options K) (pins : List (PinSpec ι σ K))
    (canvasSize : ℤ × ℤ) (fuel : ℕ) : Option (List (CardPlacement ι K)) :=
  let scene : Scene K := ⟨canvasSize, options, directions, (sortedPins pins).map fun p => (p.x, p.y)⟩
  placeLoop scene fuel (sortedPins pins) options.obstacles

end Search

/-! ## 3. What a search accepts -/

section Safety

variable {ι σ K : Type*} [Field K] [LinearOrder K] [IsStrictOrderedRing K] [FloorRing K]
  {scene : Scene K} {pin : PinSpec ι σ K} {pins : List (PinSpec ι σ K)}
  {placedRects : List (Rect K)} {hi step radius : K} {best best' : Option (Rect K × K)} {d : Point K}
  {r : Rect K}

structure Clear (scene : Scene K) (placedRects : List (Rect K)) (r : Rect K) : Prop where
  inside : r.within scene.canvasSize scene.options.margin = true
  apart : ∀ other ∈ placedRects, Apart scene.options.gutter r other

/-- The best candidate so far is clear. -/
def AllClear (scene : Scene K) (placedRects : List (Rect K)) (best : Option (Rect K × K)) : Prop :=
  ∀ b ∈ best, Clear scene placedRects b.1

omit [IsStrictOrderedRing K] [FloorRing K] in
theorem keepBest_clear {s : K} (h : AllClear scene placedRects best) (hr : Clear scene placedRects r) :
    AllClear scene placedRects (keepBest r s best) := by
  unfold keepBest
  split
  · intro b hb
    obtain rfl := Option.mem_some_iff.mp hb
    exact hr
  · exact h

theorem tryDirection_clear (h : AllClear scene placedRects best) :
    AllClear scene placedRects (tryDirection scene pin placedRects radius best d) := by
  unfold tryDirection
  dsimp only
  split
  case isTrue => exact h
  case isFalse hinside =>
    split
    case isTrue => exact h
    case isFalse hapart =>
      refine keepBest_clear h ⟨by simpa using hinside, fun other hother => overlaps_eq_false.mp ?_⟩
      rw [Bool.not_eq_true, List.any_eq_false] at hapart
      simpa using hapart other hother

theorem foldl_clear (directions : List (Point K)) (h : AllClear scene placedRects best) :
    AllClear scene placedRects (directions.foldl (tryDirection scene pin placedRects radius) best) := by
  induction directions generalizing best with
  | nil => exact h
  | cons d directions ih => exact ih (tryDirection_clear h)

theorem search_clear {fuel : ℕ} (h : AllClear scene placedRects best)
    (hsearch : search scene pin placedRects hi step fuel radius best = some best') :
    AllClear scene placedRects best' := by
  induction fuel generalizing radius best with
  | zero => cases hsearch
  | succ fuel ih =>
    rw [search] at hsearch
    split at hsearch
    · dsimp only at hsearch
      split at hsearch
      · cases hsearch
        exact foldl_clear _ h
      · exact ih (foldl_clear _ h) hsearch
    · cases hsearch
      exact h

theorem search_ends (n : ℕ) (h : hi < radius + n * step) (best : Option (Rect K × K)) :
    ∃ best', ∀ more, search scene pin placedRects hi step (n + 1 + more) radius best = some best' := by
  induction n generalizing radius best with
  | zero =>
    have hpast : ¬ radius ≤ hi := by
      rw [Nat.cast_zero, zero_mul, add_zero] at h
      exact not_le.mpr h
    refine ⟨best, fun more => ?_⟩
    rw [Nat.add_right_comm, search, if_neg hpast]
  | succ n ih =>
    by_cases hle : radius ≤ hi
    · have hnext : hi < radius + step + n * step := by
        rw [Nat.cast_succ] at h
        linarith
      generalize htried : scene.directions.foldl (tryDirection scene pin placedRects radius) best = tried
      obtain ⟨best', hends⟩ := ih hnext tried
      by_cases hearly : tried.any (fun b => decide (b.2 < (leaderCrossesRoutePenalty : K))) = true
      · refine ⟨tried, fun more => ?_⟩
        rw [Nat.add_right_comm, search, if_pos hle, htried]
        exact if_pos hearly
      · refine ⟨best', fun more => ?_⟩
        rw [Nat.add_right_comm, search, if_pos hle, htried]
        exact (if_neg hearly).trans (hends more)
    · refine ⟨best, fun more => ?_⟩
      rw [Nat.add_right_comm, search, if_neg hle]

omit [IsStrictOrderedRing K] in
theorem search_more {fuel : ℕ} (h : search scene pin placedRects hi step fuel radius best = some best')
    (more : ℕ) : search scene pin placedRects hi step (fuel + more) radius best = some best' := by
  induction fuel generalizing radius best with
  | zero => cases h
  | succ fuel ih =>
    rw [search] at h
    rw [Nat.add_right_comm, search]
    split at h
    case isTrue hle =>
      rw [if_pos hle]
      dsimp only at h ⊢
      split at h
      case isTrue hearly => rw [if_pos hearly, h]
      case isFalse hlate => rw [if_neg hlate, ih h]
    case isFalse hpast => rw [if_neg hpast, h]

omit [IsStrictOrderedRing K] in
theorem radii_step (pin : PinSpec ι σ K) (hstep : ∀ step, scene.options.radiusStep = some step → 0 < step) :
    0 < (radii scene.options pin).2.2 := by
  unfold radii
  cases hs : scene.options.radiusStep with
  | none => exact lt_of_lt_of_le one_pos (le_max_left _ _)
  | some step => exact hstep step hs

/-! ## 4. All pins -/

/-- What the results of the pins are, among rectangles already placed. -/
structure Safe (scene : Scene K) (pins : List (PinSpec ι σ K)) (placedRects : List (Rect K))
    (results : List (CardPlacement ι K)) : Prop where
  ids : results.map CardPlacement.pinId = pins.map PinSpec.id
  clear : ∀ r ∈ results.filterMap CardPlacement.cardRect, Clear scene placedRects r
  apart : (results.filterMap CardPlacement.cardRect).Pairwise (Apart scene.options.gutter)

variable {results : List (CardPlacement ι K)}

omit [IsStrictOrderedRing K] [FloorRing K] in
theorem Safe.cons_none (h : Safe scene pins placedRects results) :
    Safe scene (pin :: pins) placedRects (⟨pin.id, none⟩ :: results) where
  ids := congrArg (pin.id :: ·) h.ids
  clear := h.clear
  apart := h.apart

omit [IsStrictOrderedRing K] [FloorRing K] in
theorem Safe.cons_some {anchor : Point K} (hr : Clear scene placedRects r)
    (h : Safe scene pins (placedRects ++ [r]) results) :
    Safe scene (pin :: pins) placedRects (⟨pin.id, some (r, anchor)⟩ :: results) where
  ids := congrArg (pin.id :: ·) h.ids
  clear := by
    intro r' hr'
    rcases List.mem_cons.mp hr' with rfl | hr'
    · exact hr
    · have hclear := h.clear r' hr'
      exact ⟨hclear.inside, fun other hother => hclear.apart other (List.mem_append_left _ hother)⟩
  apart := List.pairwise_cons.mpr ⟨fun r' hr' =>
    ((h.clear r' hr').apart r (List.mem_append_right _ List.mem_cons_self)).symm, h.apart⟩

theorem placeLoop_safe (scene : Scene K) (hstep : ∀ step, scene.options.radiusStep = some step → 0 < step)
    (pins : List (PinSpec ι σ K)) (placedRects : List (Rect K)) :
    ∃ n results, (∀ more, placeLoop scene (n + more) pins placedRects = some results) ∧
      Safe scene pins placedRects results := by
  induction pins generalizing placedRects with
  | nil => exact ⟨0, [], fun _ => rfl, rfl, fun r hr => absurd hr List.not_mem_nil, List.Pairwise.nil⟩
  | cons pin pins ih =>
    have hpos := radii_step pin hstep
    generalize hradii : radii scene.options pin = bounds at hpos
    obtain ⟨lo, hi, step⟩ := bounds
    have := FloorRing.archimedean K
    obtain ⟨n, hn⟩ := exists_nat_gt ((hi - lo) / step)
    have hpast : hi < lo + n * step := by
      have hsteps := (div_lt_iff₀ hpos).mp hn
      linarith
    obtain ⟨best, hbest⟩ : ∃ best, ∀ more,
        search scene pin placedRects hi step (n + 1 + more) lo none = some best :=
      search_ends n hpast none
    have hclear : AllClear scene placedRects best := search_clear (fun b hb => by cases hb) (hbest 0)
    cases hfound : best with
    | none =>
      obtain ⟨m, results, hresults, hsafe⟩ := ih placedRects
      refine ⟨n + 1 + m, ⟨pin.id, none⟩ :: results, fun more => ?_, hsafe.cons_none⟩
      have hsearch := hbest (m + more)
      have hrest := hresults (n + 1 + more)
      rw [placeLoop, hradii]
      dsimp only
      rw [Nat.add_assoc, hsearch, hfound, Option.bind_some, Nat.add_left_comm, hrest]
      rfl
    | some found =>
      obtain ⟨rect, s⟩ := found
      obtain ⟨m, results, hresults, hsafe⟩ := ih (placedRects ++ [rect])
      refine ⟨n + 1 + m, ⟨pin.id, some (rect, rect.edgeAnchor pin.x pin.y)⟩ :: results,
        fun more => ?_, Safe.cons_some (hclear (rect, s) hfound) hsafe⟩
      have hsearch := hbest (m + more)
      have hrest := hresults (n + 1 + more)
      rw [placeLoop, hradii]
      dsimp only
      rw [Nat.add_assoc, hsearch, hfound, Option.bind_some]
      dsimp only
      rw [Nat.add_left_comm, hrest]
      rfl

omit [IsStrictOrderedRing K] in
theorem placeLoop_more {fuel : ℕ} (h : placeLoop scene fuel pins placedRects = some results) (more : ℕ) :
    placeLoop scene (fuel + more) pins placedRects = some results := by
  induction pins generalizing placedRects results with
  | nil => exact h
  | cons pin pins ih =>
    rw [placeLoop] at h ⊢
    generalize radii scene.options pin = bounds at h ⊢
    obtain ⟨lo, hi, step⟩ := bounds
    obtain ⟨best, hbest, hplaced⟩ := Option.bind_eq_some_iff.mp h
    dsimp only
    rw [search_more hbest, Option.bind_some]
    cases best with
    | none =>
      obtain ⟨rest, hrest, rfl⟩ := Option.map_eq_some_iff.mp hplaced
      rw [ih hrest, Option.map_some]
    | some found =>
      obtain ⟨rest, hrest, rfl⟩ := Option.map_eq_some_iff.mp hplaced
      dsimp only
      rw [ih hrest, Option.map_some]

variable [LinearOrder σ]

omit [Field K] [LinearOrder K] [IsStrictOrderedRing K] [FloorRing K] in
theorem sortedPins_spec (pins : List (PinSpec ι σ K)) :
    (sortedPins pins).Perm pins ∧ (sortedPins pins).Pairwise (fun p q => p.sortKey ≤ q.sortKey) ∧
      ∀ p q : PinSpec ι σ K, p.sortKey ≤ q.sortKey → [p, q].Sublist pins →
        [p, q].Sublist (sortedPins pins) := by
  have htotal : Std.Total fun p q : PinSpec ι σ K => p.sortKey ≤ q.sortKey :=
    ⟨fun p q => le_total p.sortKey q.sortKey⟩
  exact ⟨List.perm_insertionSort _ _, List.pairwise_insertionSort _ _, fun p q hpq hsub =>
    List.pair_sublist_insertionSort hpq hsub⟩

/-- **Cards are placed safely**: the placement ends, always in the same way, with one result for every pin, in
    the order of the keys and within a key of the pins; the cards are apart from each other and from every
    obstacle, and inside the margin. -/
theorem placeCards_safe (directions : List (Point K)) (options : Options K)
    (pins : List (PinSpec ι σ K)) (canvasSize : ℤ × ℤ)
    (hstep : ∀ step, options.radiusStep = some step → 0 < step) :
    ∃ n results, (∀ more, placeCards directions options pins canvasSize (n + more) = some results) ∧
      (∀ fuel ended, placeCards directions options pins canvasSize fuel = some ended → ended = results) ∧
      results.map CardPlacement.pinId = (sortedPins pins).map PinSpec.id ∧
      (sortedPins pins).Perm pins ∧ (sortedPins pins).Pairwise (fun p q => p.sortKey ≤ q.sortKey) ∧
      (∀ p q : PinSpec ι σ K, p.sortKey ≤ q.sortKey → [p, q].Sublist pins → [p, q].Sublist (sortedPins pins)) ∧
      (∀ r ∈ results.filterMap CardPlacement.cardRect, r.within canvasSize options.margin = true ∧
          ∀ obstacle ∈ options.obstacles, Apart options.gutter r obstacle) ∧
      (results.filterMap CardPlacement.cardRect).Pairwise (Apart options.gutter) := by
  obtain ⟨n, results, hresults, hsafe⟩ := placeLoop_safe ⟨canvasSize, options, directions,
    (sortedPins pins).map fun p => (p.x, p.y)⟩ hstep (sortedPins pins) options.obstacles
  obtain ⟨hperm, hsorted, hstable⟩ := sortedPins_spec pins
  refine ⟨n, results, hresults, fun fuel ended hended => ?_, hsafe.ids, hperm, hsorted, hstable,
    fun r hr => ⟨(hsafe.clear r hr).inside, (hsafe.clear r hr).apart⟩, hsafe.apart⟩
  have hlonger := placeLoop_more hended n
  rw [Nat.add_comm, hresults fuel] at hlonger
  exact (Option.some.inj hlonger).symm

end Safety

/-- The directions, to four places. -/
def compass : List (Point ℚ) :=
  [(0, -1), (3827/10000, -9239/10000), (7071/10000, -7071/10000), (9239/10000, -3827/10000), (1, 0),
    (9239/10000, 3827/10000), (7071/10000, 7071/10000), (3827/10000, 9239/10000), (0, 1),
    (-3827/10000, 9239/10000), (-7071/10000, 7071/10000), (-9239/10000, 3827/10000), (-1, 0),
    (-9239/10000, -3827/10000), (-7071/10000, -7071/10000), (-3827/10000, -9239/10000)]

/-- A page that is searched in steps of 3, with an obstacle. -/
def widePage : Options ℚ where
  radiusStep := some 3
  margin := 1
  gutter := 2
  obstacles := [⟨0, 0, 10, 10⟩]

/-- Two pins near to each other, of one key. -/
def twoStops : List (PinSpec ℕ ℕ ℚ) := [⟨1, 18, 15, 10, (10, 6)⟩, ⟨2, 22, 15, 10, (10, 6)⟩]

/-- Both get a card. -/
theorem placeCards_safe_twoStops : ∃ first second : Rect ℚ,
    (∃ results, placeCards compass widePage twoStops (40, 30) 40 = some results ∧
      results.map CardPlacement.pinId = [1, 2] ∧
      results.filterMap CardPlacement.cardRect = [first, second]) ∧
    Apart widePage.gutter first second ∧ ∀ obstacle ∈ widePage.obstacles, Apart widePage.gutter first obstacle := by
  have hstep : ∀ step, widePage.radiusStep = some step → 0 < step := by
    intro step h
    cases h
    norm_num
  have hrun : (placeCards compass widePage twoStops (40, 30) 40).any (fun results =>
      decide (results.map CardPlacement.pinId = [1, 2]) &&
        decide (results.filterMap CardPlacement.cardRect = [⟨13, 6, 23, 12⟩, ⟨23, 14, 33, 20⟩])) = true := by
    decide +kernel
  obtain ⟨ended, hended, hcards⟩ := (Option.any_eq_true _ _).mp hrun
  rw [Bool.and_eq_true, decide_eq_true_eq, decide_eq_true_eq] at hcards
  obtain ⟨n, results, -, hsame, -, -, -, -, hsafe, happart⟩ := placeCards_safe compass widePage twoStops (40, 30) hstep
  rw [← hsame 40 ended hended, hcards.2] at hsafe happart
  exact ⟨_, _, ⟨ended, hended, hcards⟩, List.rel_of_pairwise_cons happart List.mem_cons_self,
    (hsafe _ List.mem_cons_self).2⟩

/-! ## 5. What is not promised -/

/-- A page that one card fills, and a route across it. -/
def crossedPage : Options ℚ where
  route := some (RouteIndex.new [[(0, 5), (10, 5)]] (10, 10) none)
  margin := 0
  gutter := 2

/-- Two pins below the page, the later memory first. -/
def twoPins : List (PinSpec ℕ ℕ ℚ) := [⟨1, 5, 56/5, 20, (10, 10)⟩, ⟨2, 5, 56/5, 10, (10, 10)⟩]

/-- **The results are not in the order of the pins, and a card may cover the route.** -/
theorem placeCards_reorders :
    (¬ ∀ (options : Options ℚ) (pins : List (PinSpec ℕ ℕ ℚ)) (canvasSize : ℤ × ℤ) (fuel : ℕ) results,
      placeCards compass options pins canvasSize fuel = some results →
        results.map CardPlacement.pinId = pins.map PinSpec.id) ∧
    ¬ ∀ (options : Options ℚ) (pins : List (PinSpec ℕ ℕ ℚ)) (canvasSize : ℤ × ℤ) (fuel : ℕ) results,
      placeCards compass options pins canvasSize fuel = some results →
        ∀ index ∈ options.route, ∀ r ∈ results.filterMap CardPlacement.cardRect,
          index.intersectsRect r = false := by
  have hrun : (placeCards compass crossedPage twoPins (10, 10) 14).any (fun results =>
      decide (results.map CardPlacement.pinId = [2, 1]) &&
        decide (results.filterMap CardPlacement.cardRect = [⟨0, 0, 10, 10⟩])) = true := by
    decide +kernel
  obtain ⟨results, hresults, hends⟩ := (Option.any_eq_true _ _).mp hrun
  rw [Bool.and_eq_true, decide_eq_true_eq, decide_eq_true_eq] at hends
  constructor
  · intro h
    have hids := (h crossedPage twoPins (10, 10) 14 results hresults).symm.trans hends.1
    exact absurd hids (by decide)
  · intro h
    have hclear := h crossedPage twoPins (10, 10) 14 results hresults _ rfl ⟨0, 0, 10, 10⟩ (by
      rw [hends.2]
      exact List.mem_singleton_self _)
    exact absurd hclear (by decide +kernel)

end TraxJourney.Poster
