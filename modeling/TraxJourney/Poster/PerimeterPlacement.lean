/-
  File:      Poster/PerimeterPlacement.lean
  Subject:   The cards of a poster, laid along its border: `src/poster/perimeter_placement.py`, in
             exact arithmetic. The angle of a direction and the full turn are parameters.

  * **`placeCardsPerimeter_spec`** -- the placement ends and is safe, and in time it keeps the cyclic
    order of the pins; `card_overtakes` -- else it may not.

  `fuel` bounds the turns of a search. The crossings of the route are only written to the log.
-/
import TraxJourney.Lib.Circle
import TraxJourney.Lib.StableSort
import TraxJourney.Poster.CardPlacement

namespace TraxJourney.Poster

open Lib

/-! ## 1. The track -/

inductive Side where
  | left
  | bottom
  | right
  | top

/-- The border rectangle, counter-clockwise from its top left corner. -/
structure Track (K : Type*) where
  left : K
  top : K
  right : K
  bottom : K

/-- A card on the track: its rectangle, and where it ends; where it starts is kept for the statements. -/
structure Slot (K : Type*) where
  start : K
  rect : Rect K
  stop : K
deriving DecidableEq

namespace Track

variable {K : Type*} [Field K] [LinearOrder K]

def new (canvasSize : ℤ × ℤ) (margin : K) : Track K :=
  ⟨margin, margin, canvasSize.1 - margin, canvasSize.2 - margin⟩

def sideLength (track : Track K) : Side → K
  | .left | .right => track.bottom - track.top
  | .bottom | .top => track.right - track.left

def length (track : Track K) : K := ((2 : ℤ) : K) * ((track.right - track.left) + (track.bottom - track.top))

/-- `for index, length in enumerate(self.lengths)`. -/
def walkSides (track : Track K) : List Side → K → Side × K
  | [], _ => (.top, track.sideLength .top)
  | side :: sides, offset =>
    if offset < track.sideLength side then (side, offset)
    else walkSides track sides (offset - track.sideLength side)

/-- `needed`: how far along a side a card clears what is in its way. -/
def needed (track : Track K) (side : Side) (blocker : Rect K) (gutter : K) : K :=
  match side with
  | .left => blocker.bottom + gutter - track.top
  | .bottom => blocker.right + gutter - track.left
  | .right => track.bottom + gutter - blocker.top
  | .top => track.right + gutter - blocker.left

/-- `card_h if index in (self.LEFT, self.RIGHT) else card_w`. -/
def extent (side : Side) (cardSize : ℤ × ℤ) : ℤ :=
  match side with
  | .left | .right => cardSize.2
  | .bottom | .top => cardSize.1

/-- The card on a side, its corner next to the corner of the track at the offset. -/
def cardAt (track : Track K) (side : Side) (offset : K) (cardSize : ℤ × ℤ) : Rect K :=
  match side with
  | .left => ⟨track.left, track.top + offset, track.left + cardSize.1, track.top + offset + cardSize.2⟩
  | .bottom => ⟨track.left + offset, track.bottom - cardSize.2, track.left + offset + cardSize.1,
      track.bottom⟩
  | .right => ⟨track.right - cardSize.1, track.bottom - offset - cardSize.2, track.right,
      track.bottom - offset⟩
  | .top => ⟨track.right - offset - cardSize.1, track.top, track.right - offset, track.top + cardSize.2⟩

variable [FloorRing K]

def segment (track : Track K) (position : K) : Side × K :=
  track.walkSides [.left, .bottom, .right, .top] (around track.length position)

def segmentEnd (track : Track K) (position : K) : K :=
  let (side, offset) := track.segment position
  position + (track.sideLength side - offset)

def rectAt (track : Track K) (position : K) (cardSize : ℤ × ℤ) : Option (Slot K) :=
  let (side, offset) := track.segment position
  if track.sideLength side < offset + extent side cardSize then none
  else some ⟨position, track.cardAt side offset cardSize, position + extent side cardSize⟩

def advancePast (track : Track K) (position : K) (blocker : Rect K) (gutter : K) : K :=
  let (side, offset) := track.segment position
  let segmentStart := position - offset
  segmentStart + track.needed side blocker gutter

end Track

/-! ## 2. The placement -/

/-- The arguments of a placement, and the angles: `math.atan2` and `math.tau`. -/
structure Page (K : Type*) [Field K] [LinearOrder K] where
  canvasSize : ℤ × ℤ
  margin : K
  gutter : K
  obstacles : List (Rect K) := []
  atan2 : K → K → K
  tau : K
  tau_pos : 0 < tau

/-- The loop over the pins; where the first card starts is kept for the statements. -/
structure Walk (K : Type*) where
  placed : List (Rect K)
  cursor : K
  first : Option K

section Placement

variable {ι σ K : Type*} [Field K] [LinearOrder K] [FloorRing K]

def Page.track (page : Page K) : Track K := .new page.canvasSize page.margin

def Page.angle (page : Page K) (x y : K) : K :=
  page.atan2 (-(y - (page.canvasSize.2 : K) / ((2 : ℤ) : K))) (x - (page.canvasSize.1 : K) / ((2 : ℤ) : K))

def Page.trackFraction (page : Page K) (pin : PinSpec ι σ K) : K :=
  around page.tau (page.angle pin.x pin.y - page.angle page.track.left page.track.top) / page.tau

/-- The card's natural position. -/
def Page.natural (page : Page K) (pin : PinSpec ι σ K) : K := page.trackFraction pin * page.track.length

/-- One turn of the search. -/
def Page.lookAt (page : Page K) (cardSize : ℤ × ℤ) (placed : List (Rect K)) (position : K) :
    Turn (Slot K) K :=
  match (page.track.rectAt position cardSize).filter fun slot =>
      slot.rect.within page.canvasSize page.margin with
  | none => .next (page.track.segmentEnd position)
  | some slot =>
    match placed.find? fun other => slot.rect.overlaps other page.gutter with
    | none => .found slot
    | some blocker =>
      let nudged := page.track.advancePast position blocker page.gutter
      .next (if position < nudged then nudged else page.track.segmentEnd position)

def Page.findSlot (page : Page K) (start : K) (cardSize : ℤ × ℤ) (placed : List (Rect K))
    (fuel : ℕ) : Option (Option (Slot K)) :=
  seek (page.lookAt cardSize placed) (start + page.track.length) fuel start

/-- Where the search for a pin's card starts. -/
def Page.startOf (page : Page K) (walk : Walk K) (pin : PinSpec ι σ K) : K :=
  max (page.natural pin) walk.cursor

def Page.slotFor (page : Page K) (fuel : ℕ) (walk : Walk K) (pin : PinSpec ι σ K) :
    Option (Option (Slot K)) :=
  page.findSlot (page.startOf walk pin) pin.size walk.placed fuel

/-- After the search for a card. -/
def Page.advance (page : Page K) (walk : Walk K) : Option (Slot K) → Walk K
  | none => walk
  | some slot => ⟨walk.placed ++ [slot.rect], slot.stop + page.gutter, walk.first.or (some slot.start)⟩

/-- `for pin in ordered:`. -/
def Page.walkPins (page : Page K) (fuel : ℕ) :
    List (PinSpec ι σ K) → Walk K → Option (List (PinSpec ι σ K × Option (Slot K)))
  | [], _ => some []
  | pin :: pins, walk =>
    (page.slotFor fuel walk pin).bind fun slot =>
      (page.walkPins fuel pins (page.advance walk slot)).map ((pin, slot) :: ·)

def toPlacement (found : PinSpec ι σ K × Option (Slot K)) : CardPlacement ι K :=
  ⟨found.1.id, found.2.map fun slot => (slot.rect, slot.rect.edgeAnchor found.1.x found.1.y)⟩

def Page.begin (page : Page K) : Walk K := ⟨page.obstacles, 0, none⟩

/-- `sorted(pins, key=track_fraction)`. -/
def Page.ordered (page : Page K) (pins : List (PinSpec ι σ K)) : List (PinSpec ι σ K) :=
  sortBy page.trackFraction pins

def placeCardsPerimeter (page : Page K) (pins : List (PinSpec ι σ K)) (fuel : ℕ) :
    Option (List (CardPlacement ι K)) :=
  (page.walkPins fuel (page.ordered pins) page.begin).map (·.map toPlacement)

def cardsOf (found : List (PinSpec ι σ K × Option (Slot K))) : List (PinSpec ι σ K × Slot K) :=
  found.filterMap fun f => f.2.map (f.1, ·)

end Placement

/-! ## 3. A search goes on and ends -/

section Search

variable {ι σ K : Type*} [Field K] [LinearOrder K] [IsStrictOrderedRing K] [FloorRing K]
  {track : Track K} {page : Page K} {position start : K} {cardSize : ℤ × ℤ} {placed : List (Rect K)}
  {slot : Slot K} {fuel : ℕ}

def Track.sideStart (track : Track K) : Side → K
  | .left => 0
  | .bottom => track.sideLength .left
  | .right => track.sideLength .left + track.sideLength .bottom
  | .top => track.sideLength .left + track.sideLength .bottom + track.sideLength .right

theorem Track.segment_spec (hlength : 0 < track.length) (position : K) :
    (track.segment position).2 < track.sideLength (track.segment position).1 ∧
      position - (track.segment position).2 =
        ⌊position / track.length⌋ * track.length + track.sideStart (track.segment position).1 := by
  have hlap : around track.length position < track.length := around_lt hlength position
  have hoff : position - around track.length position = ⌊position / track.length⌋ * track.length := by
    rw [around]
    ring
  rw [← hoff]
  have htotal : track.length = track.sideLength .left + track.sideLength .bottom +
      track.sideLength .right + track.sideLength .top := by
    simp only [Track.length, Track.sideLength]
    push_cast
    ring
  rw [Track.segment]
  generalize around track.length position = offset at hlap ⊢
  rw [htotal] at hlap
  simp only [Track.walkSides]
  split_ifs with h₁ h₂ h₃ h₄
  · exact ⟨h₁, by rw [Track.sideStart]; ring⟩
  · exact ⟨h₂, by rw [Track.sideStart]; ring⟩
  · exact ⟨h₃, by rw [Track.sideStart]; ring⟩
  · exact ⟨h₄, by rw [Track.sideStart]; ring⟩
  · exact absurd hlap (by linarith)

theorem Track.lt_segmentEnd (hlength : 0 < track.length) (position : K) :
    position < track.segmentEnd position := by
  have hless := (track.segment_spec hlength position).1
  rw [Track.segmentEnd]
  linarith

/-- The positions that a search from `start` can go on to, on one side of one lap. -/
def Page.marksOn (page : Page K) (placed : List (Rect K)) (lap : ℤ) (side : Side) : List K :=
  let sideStart := lap * page.track.length + page.track.sideStart side
  (sideStart + page.track.sideLength side) ::
    placed.map fun blocker => sideStart + page.track.needed side blocker page.gutter

/-- The positions that a search from `start` can go on to. -/
def Page.marks (page : Page K) (placed : List (Rect K)) (start : K) : List K :=
  [⌊start / page.track.length⌋, ⌊start / page.track.length⌋ + 1].flatMap fun lap =>
    [Side.left, .bottom, .right, .top].flatMap (page.marksOn placed lap)

omit [IsStrictOrderedRing K] in
theorem Page.length_marks (page : Page K) (placed : List (Rect K)) (start : K) :
    (page.marks placed start).length = 8 * (placed.length + 1) := by
  simp only [Page.marks, Page.marksOn, List.flatMap_cons, List.flatMap_nil, List.append_nil,
    List.length_append, List.length_cons, List.length_map]
  omega

theorem Page.mem_marks (hlength : 0 < page.track.length) (hstart : start ≤ position)
    (hlimit : position < start + page.track.length) {x : K}
    (hx : x ∈ page.marksOn placed ⌊position / page.track.length⌋ (page.track.segment position).1) :
    x ∈ page.marks placed start := by
  have hlap : ⌊position / page.track.length⌋ = ⌊start / page.track.length⌋ ∨
      ⌊position / page.track.length⌋ = ⌊start / page.track.length⌋ + 1 := by
    have hlow : ⌊start / page.track.length⌋ ≤ ⌊position / page.track.length⌋ :=
      Int.floor_le_floor (div_le_div_of_nonneg_right hstart hlength.le)
    have hhigh : ⌊position / page.track.length⌋ ≤ ⌊start / page.track.length⌋ + 1 := by
      rw [← Int.floor_add_one, div_add_one hlength.ne']
      exact Int.floor_le_floor (div_le_div_of_nonneg_right hlimit.le hlength.le)
    omega
  have hside : (page.track.segment position).1 ∈ [Side.left, .bottom, .right, .top] := by
    cases (page.track.segment position).1 <;> simp
  rw [Page.marks, List.mem_flatMap]
  refine ⟨⌊position / page.track.length⌋, ?_, List.mem_flatMap.mpr ⟨_, hside, hx⟩⟩
  rcases hlap with hlap | hlap
  · rw [hlap]
    exact List.mem_cons_self
  · rw [hlap]
    exact List.mem_cons_of_mem _ List.mem_cons_self

theorem Page.segmentEnd_mem (hlength : 0 < page.track.length) (position : K) :
    page.track.segmentEnd position ∈
      page.marksOn placed ⌊position / page.track.length⌋ (page.track.segment position).1 := by
  have hside := (page.track.segment_spec hlength position).2
  have hend : page.track.segmentEnd position = position - (page.track.segment position).2 +
        page.track.sideLength (page.track.segment position).1 := by
    rw [Track.segmentEnd]
    ring
  rw [hend, hside, Page.marksOn]
  exact List.mem_cons_self

theorem Page.advancePast_mem (hlength : 0 < page.track.length) (position : K) {blocker : Rect K}
    (hblocker : blocker ∈ placed) :
    page.track.advancePast position blocker page.gutter ∈
      page.marksOn placed ⌊position / page.track.length⌋ (page.track.segment position).1 := by
  have hside := (page.track.segment_spec hlength position).2
  have hpast : page.track.advancePast position blocker page.gutter =
      position - (page.track.segment position).2 +
        page.track.needed (page.track.segment position).1 blocker page.gutter := rfl
  rw [hpast, hside, Page.marksOn]
  exact List.mem_cons_of_mem _ (List.mem_map_of_mem hblocker)

theorem Page.onward_lookAt (page : Page K) (cardSize : ℤ × ℤ) (placed : List (Rect K)) (start : K) :
    Onward (page.lookAt cardSize placed) start (start + page.track.length)
      (page.marks placed start).toFinset := by
  intro position hstart hlimit further hturn
  have hlength : 0 < page.track.length := by linarith
  have hend := page.track.lt_segmentEnd hlength position
  have hmark : ∀ x, x ∈ page.marksOn placed ⌊position / page.track.length⌋
      (page.track.segment position).1 → x ∈ (page.marks placed start).toFinset := fun x hx =>
    List.mem_toFinset.mpr (page.mem_marks hlength hstart hlimit hx)
  rw [Page.lookAt] at hturn
  split at hturn
  · cases hturn
    exact ⟨hend, hmark _ (page.segmentEnd_mem hlength position)⟩
  · rename_i slot hslot
    split at hturn
    · cases hturn
    · rename_i blocker hblocker
      dsimp only at hturn
      split at hturn
      · rename_i hnudged
        cases hturn
        exact ⟨hnudged, hmark _ (page.advancePast_mem hlength position (List.mem_of_find?_eq_some hblocker))⟩
      · cases hturn
        exact ⟨hend, hmark _ (page.segmentEnd_mem hlength position)⟩

theorem Page.findSlot_ends (start : K) (cardSize : ℤ × ℤ) (hfuel : 8 * (placed.length + 1) < fuel) :
    ∃ slot, page.findSlot start cardSize placed fuel = some slot := by
  refine seek_ends (page.onward_lookAt cardSize placed start) le_rfl (lt_of_le_of_lt ?_ hfuel)
  rw [← page.length_marks placed start]
  exact (Finset.card_filter_le _ _).trans (List.toFinset_card_le _)

/-! ## 4. What a search finds -/

/-- A card found: where it lies on the track, and that it is clear of what is placed. -/
structure Fits (page : Page K) (cardSize : ℤ × ℤ) (placed : List (Rect K)) (slot : Slot K) : Prop where
  lies : page.track.rectAt slot.start cardSize = some slot
  inside : slot.rect.within page.canvasSize page.margin = true
  apart : ∀ other ∈ placed, Apart page.gutter slot.rect other

omit [IsStrictOrderedRing K] in
theorem Track.rectAt_start (h : track.rectAt position cardSize = some slot) : slot.start = position := by
  rw [Track.rectAt] at h
  dsimp only at h
  split at h
  · cases h
  · cases h
    rfl

theorem Track.lt_stop (h : track.rectAt position cardSize = some slot)
    (hsize : 0 < cardSize.1 ∧ 0 < cardSize.2) : slot.start < slot.stop := by
  have hextent : ∀ side, (0 : K) < (extent side cardSize : ℤ) := by
    intro side
    rw [Int.cast_pos]
    cases side
    · exact hsize.2
    · exact hsize.1
    · exact hsize.2
    · exact hsize.1
  rw [Track.rectAt] at h
  dsimp only at h
  split at h
  · cases h
  · cases h
    exact lt_add_of_pos_right _ (hextent _)

theorem Page.lookAt_found (h : page.lookAt cardSize placed position = .found slot) :
    slot.start = position ∧ Fits page cardSize placed slot := by
  rw [Page.lookAt] at h
  split at h
  · cases h
  · rename_i slot' hslot
    split at h
    · rename_i hfree
      cases h
      obtain ⟨hrect, hinside⟩ := Option.filter_eq_some_iff.mp hslot
      have hstart := Track.rectAt_start hrect
      refine ⟨hstart, by rw [hstart]; exact hrect, hinside, fun other hother => ?_⟩
      have hnot := List.find?_eq_none.mp hfree other hother
      exact overlaps_eq_false.mp (Bool.not_eq_true _ ▸ hnot)
    · cases h

theorem Page.findSlot_found (h : page.findSlot start cardSize placed fuel = some (some slot)) :
    start ≤ slot.start ∧ Fits page cardSize placed slot := by
  obtain ⟨place, hle, -, hplace⟩ := seek_found (page.onward_lookAt cardSize placed start) le_rfl h
  obtain ⟨hstart, hfits⟩ := Page.lookAt_found hplace
  exact ⟨hstart ▸ hle, hfits⟩

end Search

/-! ## 5. The walk -/

section Walk

variable {ι σ K : Type*} [Field K] [LinearOrder K] [IsStrictOrderedRing K] [FloorRing K]
  {page : Page K} {pin : PinSpec ι σ K} {pins : List (PinSpec ι σ K)} {walk : Walk K}
  {found : List (PinSpec ι σ K × Option (Slot K))} {fuel : ℕ}

/-- What the placement around the pins calls a scene, of the border. -/
def Page.scene (page : Page K) : Scene K where
  canvasSize := page.canvasSize
  options := { margin := page.margin, gutter := page.gutter }
  directions := []
  pinPoints := []

omit [IsStrictOrderedRing K] [FloorRing K] in
theorem Page.length_placed_advance (page : Page K) (walk : Walk K) (slot : Option (Slot K)) :
    (page.advance walk slot).placed.length ≤ walk.placed.length + 1 := by
  cases slot with
  | none => exact Nat.le_succ _
  | some slot => exact (List.length_append).le

theorem Page.walkPins_ends (pins : List (PinSpec ι σ K)) (walk : Walk K)
    (hfuel : 8 * (walk.placed.length + pins.length + 1) < fuel) :
    ∃ found, page.walkPins fuel pins walk = some found := by
  induction pins generalizing walk with
  | nil => exact ⟨[], rfl⟩
  | cons pin pins ih =>
    rw [List.length_cons] at hfuel
    obtain ⟨slot, hslot⟩ : ∃ slot, page.slotFor fuel walk pin = some slot := page.findSlot_ends _ _ (by omega)
    have hplaced := page.length_placed_advance walk slot
    obtain ⟨found, hfound⟩ := ih (page.advance walk slot) (by omega)
    exact ⟨(pin, slot) :: found, by rw [Page.walkPins, hslot, Option.bind_some, hfound]; rfl⟩

omit [IsStrictOrderedRing K] in
theorem Page.walkPins_cons (h : page.walkPins fuel (pin :: pins) walk = some found) :
    ∃ slot rest, page.slotFor fuel walk pin = some slot ∧
      page.walkPins fuel pins (page.advance walk slot) = some rest ∧ found = (pin, slot) :: rest := by
  rw [Page.walkPins] at h
  obtain ⟨slot, hslot, h⟩ := Option.bind_eq_some_iff.mp h
  obtain ⟨rest, hrest, rfl⟩ := Option.map_eq_some_iff.mp h
  exact ⟨slot, rest, hslot, hrest, rfl⟩

omit [IsStrictOrderedRing K] in
theorem Page.walkPins_pins (h : page.walkPins fuel pins walk = some found) : found.map Prod.fst = pins := by
  induction pins generalizing walk found with
  | nil =>
    cases h
    rfl
  | cons pin pins ih =>
    obtain ⟨slot, rest, -, hrest, rfl⟩ := page.walkPins_cons h
    exact congrArg (pin :: ·) (ih hrest)

theorem Page.walkPins_safe (h : page.walkPins fuel pins walk = some found) :
    Safe page.scene pins walk.placed (found.map toPlacement) := by
  induction pins generalizing walk found with
  | nil =>
    cases h
    exact ⟨rfl, fun r hr => absurd hr List.not_mem_nil, List.Pairwise.nil⟩
  | cons pin pins ih =>
    obtain ⟨slot, rest, hslot, hrest, rfl⟩ := page.walkPins_cons h
    cases slot with
    | none => exact (ih hrest).cons_none
    | some slot =>
      obtain ⟨-, hfits⟩ := page.findSlot_found hslot
      exact Safe.cons_some ⟨hfits.inside, hfits.apart⟩ (ih hrest)

/-! ## 6. Cards in time -/

/-- No search goes on past where the first card starts, once round: to look no further finds the
    same. -/
def Page.inTime (page : Page K) (fuel : ℕ) (walk : Walk K) (pin : PinSpec ι σ K) : Bool :=
  walk.first.all fun first =>
    seek (page.lookAt pin.size walk.placed) (first + page.track.length) fuel
      (page.startOf walk pin) == page.slotFor fuel walk pin

def Page.allInTime (page : Page K) (fuel : ℕ) : List (PinSpec ι σ K) → Walk K → Bool
  | [], _ => true
  | pin :: pins, walk => page.inTime fuel walk pin &&
      (page.slotFor fuel walk pin).all fun slot => page.allInTime fuel pins (page.advance walk slot)

/-- One card after another, within a lap. -/
def Page.Ahead (page : Page K) (c d : PinSpec ι σ K × Slot K) : Prop :=
  c.2.start < d.2.start ∧ d.2.start < c.2.start + page.track.length

theorem Page.walkPins_lap (hgutter : 0 ≤ page.gutter) (hsizes : ∀ pin ∈ pins, 0 < pin.size.1 ∧ 0 < pin.size.2)
    (hwalk : ∀ first, walk.first = some first → first < walk.cursor)
    (htime : page.allInTime fuel pins walk = true) (h : page.walkPins fuel pins walk = some found) :
    (∀ c ∈ cardsOf found, walk.cursor ≤ c.2.start) ∧ (∀ first, walk.first = some first →
        ∀ c ∈ cardsOf found, c.2.start < first + page.track.length) ∧
      (cardsOf found).Pairwise page.Ahead := by
  induction pins generalizing walk found with
  | nil =>
    cases h
    exact ⟨fun c hc => absurd hc List.not_mem_nil, fun _ _ c hc => absurd hc List.not_mem_nil,
      List.Pairwise.nil⟩
  | cons pin pins ih =>
    obtain ⟨slot, rest, hslot, hrest, rfl⟩ := page.walkPins_cons h
    have hsizes' : ∀ pin ∈ pins, 0 < pin.size.1 ∧ 0 < pin.size.2 := fun pin hpin =>
      hsizes pin (List.mem_cons_of_mem _ hpin)
    rw [Page.allInTime, Bool.and_eq_true, hslot] at htime
    obtain ⟨hnow, hrun⟩ := htime
    cases slot with
    | none =>
      have hlater := ih hsizes' hwalk hrun hrest
      exact hlater
    | some slot =>
      obtain ⟨hstart, hfits⟩ := page.findSlot_found hslot
      have hcursor : walk.cursor ≤ slot.start := (le_max_right _ _).trans hstart
      have hstop : slot.start < slot.stop + page.gutter :=
        (Track.lt_stop hfits.lies (hsizes pin List.mem_cons_self)).trans_le (le_add_of_nonneg_right hgutter)
      obtain ⟨first, hfirst, hle, hkeep⟩ : ∃ first,
          (page.advance walk (some slot)).first = some first ∧ first ≤ slot.start ∧
            ∀ f, walk.first = some f → f = first := by
        cases hf : walk.first with
        | none =>
          refine ⟨slot.start, ?_, le_rfl, fun f h => by cases h⟩
          rw [Page.advance, hf]
          rfl
        | some f =>
          refine ⟨f, ?_, ((hwalk f hf).trans_le hcursor).le, fun f' h => by cases h; rfl⟩
          rw [Page.advance, hf]
          rfl
      have hbehind : ∀ f, (page.advance walk (some slot)).first = some f → f < slot.stop + page.gutter := by
        intro f hf
        rw [hfirst] at hf
        cases hf
        exact hle.trans_lt hstop
      obtain ⟨hnext, hlap, hpairs⟩ := ih hsizes' hbehind hrun hrest
      have hafter : ∀ c ∈ cardsOf rest, slot.start < c.2.start := fun c hc => hstop.trans_le (hnext c hc)
      refine ⟨fun c hc => ?_, fun f hf c hc => ?_, List.pairwise_cons.mpr ⟨fun c hc => ?_, hpairs⟩⟩
      · rcases List.mem_cons.mp hc with rfl | hc
        · exact hcursor
        · exact hcursor.trans (hafter c hc).le
      · rcases List.mem_cons.mp hc with rfl | hc
        · -- the search that looks no further than the first card finds this one too
          rw [Page.inTime, hf, hslot] at hnow
          have hsooner := eq_of_beq hnow
          have hlimit : f + page.track.length ≤ page.startOf walk pin + page.track.length :=
            add_le_add_left ((hwalk f hf).le.trans (le_max_right _ _)) _
          obtain ⟨place, -, hbefore, hplace⟩ := seek_found
            ((page.onward_lookAt pin.size walk.placed _).mono hlimit) le_rfl hsooner
          rw [(Page.lookAt_found hplace).1]
          exact hbefore
        · exact hkeep f hf ▸ hlap first hfirst c hc
      · have hless := hlap first hfirst c hc
        exact ⟨hafter c hc, by linarith⟩

omit [Field K] [LinearOrder K] [IsStrictOrderedRing K] [FloorRing K] in
theorem mem_cardsOf {c : PinSpec ι σ K × Slot K} : c ∈ cardsOf found ↔ (c.1, some c.2) ∈ found := by
  obtain ⟨pin, slot⟩ := c
  rw [cardsOf, List.mem_filterMap]
  constructor
  · intro ⟨⟨pin', slot'⟩, hmem, h⟩
    obtain ⟨s, rfl, hs⟩ := Option.map_eq_some_iff.mp h
    cases hs
    exact hmem
  · intro h
    exact ⟨_, h, rfl⟩

theorem Page.walkPins_lies (h : page.walkPins fuel pins walk = some found) :
    ∀ c ∈ cardsOf found, page.track.rectAt c.2.start c.1.size = some c.2 := by
  induction pins generalizing walk found with
  | nil =>
    cases h
    exact fun c hc => absurd hc List.not_mem_nil
  | cons pin pins ih =>
    obtain ⟨slot, rest, hslot, hrest, rfl⟩ := page.walkPins_cons h
    intro c hc
    rcases List.mem_cons.mp (mem_cardsOf.mp hc) with hfirst | hlater
    · obtain ⟨pin', slot'⟩ := c
      cases hfirst
      exact (page.findSlot_found hslot).2.lies
    · exact ih hrest c (mem_cardsOf.mpr hlater)

/-! ## 7. The order of the pins -/

/-- The cards are met, once round the border, as their pins are. -/
def Page.InOrder (page : Page K) (cards : List (PinSpec ι σ K × Slot K)) : Prop :=
  ∀ x ∈ cards, ∀ y ∈ cards, ∀ z ∈ cards,
    Follows page.track.length (page.natural x.1) (page.natural y.1) (page.natural z.1) →
      Follows page.track.length x.2.start y.2.start z.2.start

instance (page : Page K) (cards : List (PinSpec ι σ K × Slot K)) : Decidable (page.InOrder cards) :=
  inferInstanceAs (Decidable (∀ x ∈ cards, ∀ y ∈ cards, ∀ z ∈ cards, _ → _))

/-- Two cards stand as their pins do. -/
structure Alike (page : Page K) (x y : PinSpec ι σ K × Slot K) : Prop where
  forth : page.trackFraction x.1 < page.trackFraction y.1 → x.2.start < y.2.start
  back : page.trackFraction y.1 < page.trackFraction x.1 → y.2.start < x.2.start
  near : |x.2.start - y.2.start| < page.track.length

variable {x y : PinSpec ι σ K × Slot K}

omit [IsStrictOrderedRing K] in
theorem Alike.symm (h : Alike page x y) : Alike page y x :=
  ⟨h.back, h.forth, by rw [abs_sub_comm]; exact h.near⟩

theorem Alike.of_ahead (hpins : page.trackFraction x.1 ≤ page.trackFraction y.1) (h : page.Ahead x y) :
    Alike page x y :=
  ⟨fun _ => h.1, fun hback => absurd hback (not_lt.mpr hpins),
    abs_lt.mpr ⟨by linarith [h.2], by linarith [h.1, h.2]⟩⟩

theorem Page.natural_lt (hlength : 0 < page.track.length) (pin : PinSpec ι σ K) :
    0 ≤ page.natural pin ∧ page.natural pin < page.track.length := by
  have hlow : 0 ≤ page.trackFraction pin := div_nonneg (around_nonneg page.tau_pos _) page.tau_pos.le
  have hhigh : page.trackFraction pin < 1 := (div_lt_one page.tau_pos).mpr (around_lt page.tau_pos _)
  exact ⟨mul_nonneg hlow hlength.le, mul_lt_of_lt_one_left hlength hhigh⟩

theorem Page.inOrder_of_ahead {cards : List (PinSpec ι σ K × Slot K)}
    (hpins : cards.Pairwise fun c d => page.trackFraction c.1 ≤ page.trackFraction d.1)
    (hcards : cards.Pairwise page.Ahead) : page.InOrder cards := by
  have hsymm : Std.Symm (Alike page : PinSpec ι σ K × Slot K → PinSpec ι σ K × Slot K → Prop) :=
    ⟨fun _ _ h => h.symm⟩
  have halike : cards.Pairwise (Alike page) := (hpins.and hcards).imp fun h => Alike.of_ahead h.1 h.2
  have hpairs : ∀ x ∈ cards, ∀ y ∈ cards, x ≠ y → Alike page x y := fun x hx y hy hne =>
    halike.forall hx hy hne
  intro x hx y hy z hz hfollows
  have hxy : x ≠ y := fun heq => hfollows.ne (congrArg (fun c => page.natural c.1) heq)
  have hlength : 0 < page.track.length := (abs_nonneg _).trans_lt (hpairs x hx y hy hxy).near
  have hall : ∀ x ∈ cards, ∀ y ∈ cards, Alike page x y := by
    intro x hx y hy
    by_cases heq : x = y
    · subst heq
      exact ⟨fun h => absurd h (lt_irrefl _), fun h => absurd h (lt_irrefl _),
        by rwa [sub_self, abs_zero]⟩
    · exact hpairs x hx y hy heq
  have hnear : ∀ x y : PinSpec ι σ K × Slot K,
      |page.natural x.1 - page.natural y.1| < page.track.length := by
    intro x y
    have hx := page.natural_lt hlength x.1
    have hy := page.natural_lt hlength y.1
    exact abs_lt.mpr ⟨by linarith [hx.1, hy.2], by linarith [hx.2, hy.1]⟩
  have hforth : ∀ x ∈ cards, ∀ y ∈ cards, page.natural x.1 < page.natural y.1 →
      x.2.start < y.2.start := fun x hx y hy h =>
    (hall x hx y hy).forth (lt_of_mul_lt_mul_right h hlength.le)
  rw [follows_iff (hnear x y) (hnear y z) (hnear z x)] at hfollows
  rw [follows_iff (hall x hx y hy).near (hall y hy z hz).near (hall z hz x hx).near]
  rcases hfollows with ⟨h₁, h₂⟩ | ⟨h₁, h₂⟩ | ⟨h₁, h₂⟩
  · exact .inl ⟨hforth x hx y hy h₁, hforth y hy z hz h₂⟩
  · exact .inr (.inl ⟨hforth y hy z hz h₁, hforth z hz x hx h₂⟩)
  · exact .inr (.inr ⟨hforth z hz x hx h₁, hforth x hx y hy h₂⟩)

/-- **Cards along the border**: the placement ends, with one result for every pin; the cards are inside
    the margin and apart from each other and from every obstacle, each where the track says, and if
    every search is in time they are in the cyclic order of their pins. -/
theorem placeCardsPerimeter_spec (page : Page K) (pins : List (PinSpec ι σ K))
    (hgutter : 0 ≤ page.gutter) (hsizes : ∀ pin ∈ pins, 0 < pin.size.1 ∧ 0 < pin.size.2)
    (hfuel : 8 * (page.obstacles.length + pins.length + 1) < fuel) :
    ∃ found, page.walkPins fuel (page.ordered pins) page.begin = some found ∧
      placeCardsPerimeter page pins fuel = some (found.map toPlacement) ∧
      (found.map Prod.fst).Perm pins ∧
      (∀ c ∈ cardsOf found, page.track.rectAt c.2.start c.1.size = some c.2) ∧
      (∀ r ∈ (found.map toPlacement).filterMap CardPlacement.cardRect,
        r.within page.canvasSize page.margin = true ∧
          ∀ obstacle ∈ page.obstacles, Apart page.gutter r obstacle) ∧
      ((found.map toPlacement).filterMap CardPlacement.cardRect).Pairwise (Apart page.gutter) ∧
      (page.allInTime fuel (page.ordered pins) page.begin = true → page.InOrder (cardsOf found)) := by
  have hperm : (page.ordered pins).Perm pins := perm_sortBy page.trackFraction pins
  obtain ⟨found, hfound⟩ := page.walkPins_ends (page.ordered pins) page.begin
    (by rw [hperm.length_eq]; exact hfuel)
  have hsafe := page.walkPins_safe hfound
  have hpins := page.walkPins_pins hfound
  have hsorted : (found.map Prod.fst).Pairwise fun p q =>
      page.trackFraction p ≤ page.trackFraction q :=
    hpins ▸ pairwise_sortBy page.trackFraction pins
  refine ⟨found, hfound, ?_, hpins ▸ hperm, page.walkPins_lies hfound, fun r hr =>
    ⟨(hsafe.clear r hr).inside, (hsafe.clear r hr).apart⟩, hsafe.apart, fun htime => ?_⟩
  · rw [placeCardsPerimeter, hfound]
    rfl
  · refine page.inOrder_of_ahead ?_ (page.walkPins_lap hgutter
      (fun pin hpin => hsizes pin (hperm.mem_iff.mp hpin)) (fun f hf => by cases hf) htime hfound).2.2
    refine (List.pairwise_map.mp hsorted).filterMap _ fun f g hle c hc d hd => ?_
    obtain ⟨s, -, rfl⟩ := Option.map_eq_some_iff.mp hc
    obtain ⟨t, -, rfl⟩ := Option.map_eq_some_iff.mp hd
    exact hle

end Walk

/-! ## 8. A card that comes round -/

/-- `math.atan2` in eighths of a turn, of the eight directions. -/
def octant (y x : ℚ) : ℚ :=
  if 0 < y then (if 0 < x then 1 else if x = 0 then 2 else 3)
  else if y = 0 then (if 0 ≤ x then 0 else 4)
  else if 0 < x then -1 else if x = 0 then -2 else -3

def smallPage : Page ℚ where
  canvasSize := (100, 100)
  margin := 0
  gutter := 0
  atan2 := octant
  tau := 8
  tau_pos := by decide

/-- In the top left corner, in the bottom right one, and at the top. -/
def threePins : List (PinSpec ℕ ℕ ℚ) :=
  [⟨1, 10, 10, 1, (20, 20)⟩, ⟨2, 90, 90, 2, (20, 20)⟩, ⟨3, 50, 10, 3, (20, 20)⟩]

theorem placeCardsPerimeter_threePins :
    ∃ found, smallPage.walkPins 33 (smallPage.ordered threePins) smallPage.begin = some found ∧
      smallPage.InOrder (cardsOf found) := by
  obtain ⟨found, hfound, -, -, -, -, -, horder⟩ :=
    placeCardsPerimeter_spec smallPage threePins (by decide) (by decide) (by decide : 32 < 33)
  exact ⟨found, hfound, horder (by decide +kernel)⟩

/-- And another one at the top. -/
def fourPins : List (PinSpec ℕ ℕ ℚ) := threePins ++ [⟨4, 50, 20, 4, (20, 20)⟩]

/-- **A card overtakes the first one**: the fourth has no room left before the first card, and comes to
    stand between the first and the second. -/
theorem card_overtakes : ¬ ∀ (page : Page ℚ) (pins : List (PinSpec ℕ ℕ ℚ)) (fuel : ℕ) found,
      0 ≤ page.gutter → (∀ pin ∈ pins, 0 < pin.size.1 ∧ 0 < pin.size.2) →
      page.walkPins fuel (page.ordered pins) page.begin = some found → page.InOrder (cardsOf found) := by
  intro h
  have hrun : (smallPage.walkPins 41 (smallPage.ordered fourPins) smallPage.begin).any (fun found =>
      decide ((cardsOf found).map (fun c => (c.1.id, c.2.start)) =
        [(1, 0), (2, 200), (3, 350), (4, 420)]) &&
      !decide (smallPage.InOrder (cardsOf found))) = true := by
    decide +kernel
  obtain ⟨found, hfound, hends⟩ := (Option.any_eq_true _ _).mp hrun
  rw [Bool.and_eq_true, Bool.not_eq_true', decide_eq_false_iff_not] at hends
  exact hends.2 (h smallPage fourPins 41 found (by decide) (by decide) hfound)

end TraxJourney.Poster
