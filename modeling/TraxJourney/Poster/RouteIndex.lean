/-
  File:      Poster/RouteIndex.lean
  Subject:   The index over the segments of a drawn route, and its two queries:
             `src/poster/route_index.py`, in exact arithmetic.

  * **`routeIndex_brute_force`** -- both queries answer as a scan of all pairs of neighbouring points
    would; `routeIndex_misses` -- not for a rectangle the wrong way round, or a line of one point.
-/
import TraxJourney.Lib.Boxes
import Mathlib.Data.Rat.Floor

namespace TraxJourney.Poster

open Lib

/-! ## 1. Segments -/

abbrev Point (K : Type*) := K × K

structure Segment (K : Type*) where
  x1 : K
  y1 : K
  x2 : K
  y2 : K

abbrev Rect (K : Type*) := Box K

section Segments

variable {K : Type*} [DecidableEq K]

/-- The inner loop of `_segments_from_polylines`, after the point `previous`. -/
def segmentsAfter (previous : Point K) : List (Point K) → List (Segment K)
  | [] => []
  | point :: line =>
    if point ≠ previous then
      ⟨previous.1, previous.2, point.1, point.2⟩ :: segmentsAfter point line
    else segmentsAfter point line

def segmentsFromLine : List (Point K) → List (Segment K)
  | [] => []
  | point :: line => segmentsAfter point line

def segmentsFromPolylines (polylines : List (List (Point K))) : List (Segment K) :=
  polylines.flatMap segmentsFromLine

end Segments

variable {K : Type*} [Field K] [LinearOrder K]

def Segment.box (s : Segment K) : Box K := ⟨min s.x1 s.x2, min s.y1 s.y2, max s.x1 s.x2, max s.y1 s.y2⟩

/-! ## 2. The predicates -/

def orientation (a b c : Point K) : K := (b.2 - a.2) * (c.1 - b.1) - (b.1 - a.1) * (c.2 - b.2)

def Segment.start (s : Segment K) : Point K := (s.x1, s.y1)

def Segment.stop (s : Segment K) : Point K := (s.x2, s.y2)

def onSegment (a b p : Point K) : Bool :=
  decide (min a.1 b.1 ≤ p.1) && decide (p.1 ≤ max a.1 b.1) &&
    (decide (min a.2 b.2 ≤ p.2) && decide (p.2 ≤ max a.2 b.2))

def segmentsCross (s1 s2 : Segment K) : Bool :=
  let d1 := orientation s1.start s1.stop s2.start
  let d2 := orientation s1.start s1.stop s2.stop
  let d3 := orientation s2.start s2.stop s1.start
  let d4 := orientation s2.start s2.stop s1.stop
  if (decide (0 < d1) != decide (0 < d2)) && (decide (0 < d3) != decide (0 < d4)) then true
  else if d1 = 0 ∧ onSegment s1.start s1.stop s2.start then true
  else if d2 = 0 ∧ onSegment s1.start s1.stop s2.stop then true
  else if d3 = 0 ∧ onSegment s2.start s2.stop s1.start then true
  else if d4 = 0 ∧ onSegment s2.start s2.stop s1.stop then true
  else false

/-- A point is in the rectangle. -/
def inRect (r : Rect K) (x y : K) : Bool :=
  decide (r.left ≤ x) && decide (x ≤ r.right) && (decide (r.top ≤ y) && decide (y ≤ r.bottom))

def Rect.edges (r : Rect K) : List (Segment K) :=
  [⟨r.left, r.top, r.right, r.top⟩, ⟨r.right, r.top, r.right, r.bottom⟩,
    ⟨r.right, r.bottom, r.left, r.bottom⟩, ⟨r.left, r.bottom, r.left, r.top⟩]

def segmentIntersectsRect (s : Segment K) (r : Rect K) : Bool :=
  if max s.x1 s.x2 < r.left ∨ r.right < min s.x1 s.x2 then false
  else if max s.y1 s.y2 < r.top ∨ r.bottom < min s.y1 s.y2 then false
  else if inRect r s.x1 s.y1 then true
  else if inRect r s.x2 s.y2 then true
  else (Rect.edges r).any fun edge => segmentsCross s edge

/-! ## 3. The grid -/

section Grid

variable [FloorRing K]

def maxSegmentsPerCell : ℕ := 64

def maxDepth : ℕ := 8

/-- What a cell holds: nothing, a flat list of segment indices, or a nested, finer grid with the
    segments too long for its cells. -/
inductive Bucket (K : Type*) where
  | missing
  | leaf (indices : List ℕ)
  | node (cell : K) (overflow : List ℕ) (buckets : ℤ × ℤ → Bucket K)

/-- `overflow` and `raw` of `_GridNode.__init__`; a key that is not in `raw` has no indices. -/
structure Raw where
  overflow : List ℕ
  raw : ℤ × ℤ → List ℕ

/-- `raw.setdefault(key, []).append(i)`. -/
def Raw.add (raw : Raw) (i : ℕ) (key : ℤ × ℤ) : Raw :=
  { raw with raw := Function.update raw.raw key (raw.raw key ++ [i]) }

/-- One turn of the loop over the indices. -/
def Raw.place (segments : List (Segment K)) (cell : K) (raw : Raw) (i : ℕ) : Raw :=
  match segments[i]? with
  | none => raw
  | some s =>
    if cell * ((4 : ℤ) : K) < max (s.box.right - s.box.left) (s.box.bottom - s.box.top) then
      { raw with overflow := raw.overflow ++ [i] }
    else (cells cell s.box).foldl (fun raw key => raw.add i key) raw

/-- `_GridNode.__init__`, with `levels` more levels below it at most. -/
def gridNode (segments : List (Segment K)) : ℕ → List ℕ → K → Bucket K
  | 0, indices, cell =>
    let raw := indices.foldl (Raw.place segments cell) ⟨[], fun _ => []⟩
    .node cell raw.overflow fun key => if raw.raw key = [] then .missing else .leaf (raw.raw key)
  | levels + 1, indices, cell =>
    let raw := indices.foldl (Raw.place segments cell) ⟨[], fun _ => []⟩
    .node cell raw.overflow fun key =>
      if raw.raw key = [] then .missing
      else if maxSegmentsPerCell < (raw.raw key).length ∧ ((2 : ℤ) : K) < cell then
        gridNode segments levels (raw.raw key) (cell / ((4 : ℤ) : K))
      else .leaf (raw.raw key)

/-- `_GridNode.collect`, and what it does of a flat bucket: the indices that a query finds. -/
def collect : Bucket K → Box K → List ℕ
  | .missing, _ => []
  | .leaf indices, _ => indices
  | .node cell overflow buckets, b =>
    overflow ++ (cells cell b).flatMap fun key => collect (buckets key) (b.clip (cellBox cell key))

structure RouteIndex (K : Type*) where
  segments : List (Segment K)
  root : Bucket K

/-- `cell_size or max(32.0, max(canvas_w, canvas_h) / 64.0)`. -/
def startCell (canvasSize : ℤ × ℤ) (cellSize : Option K) : K :=
  let default : K := max ((32 : ℤ) : K) (((max canvasSize.1 canvasSize.2 : ℤ) : K) / ((64 : ℤ) : K))
  match cellSize with
  | none => default
  | some cell => if cell = 0 then default else cell

def RouteIndex.new (polylines : List (List (Point K))) (canvasSize : ℤ × ℤ) (cellSize : Option K) :
    RouteIndex K :=
  let segments := segmentsFromPolylines polylines
  ⟨segments, gridNode segments maxDepth (List.range segments.length) (startCell canvasSize cellSize)⟩

/-- The two queries, over the indices that the grid finds. -/
def RouteIndex.anyIn (index : RouteIndex K) (b : Box K) (p : Segment K → Bool) : Bool :=
  (collect index.root b).any fun i => index.segments[i]?.any p

def RouteIndex.intersectsRect (index : RouteIndex K) (r : Rect K) : Bool :=
  index.anyIn r fun s => segmentIntersectsRect s r

def RouteIndex.crossesSegment (index : RouteIndex K) (t : Segment K) : Bool :=
  index.anyIn t.box fun s => segmentsCross s t

/-! ## 4. What a query visits -/

variable {segments : List (Segment K)} {s t : Segment K} {i j : ℕ} {raw : Raw} {cell x y : K}
  {key : ℤ × ℤ} {keys : List (ℤ × ℤ)} {b : Box K}

theorem Raw.mem_add {key' : ℤ × ℤ} :
    i ∈ (raw.add j key).raw key' ↔ i ∈ raw.raw key' ∨ key' = key ∧ i = j := by
  unfold Raw.add
  by_cases h : key' = key
  · subst h
    simp
  · simp [h]

theorem Raw.mem_foldl_add : i ∈ (keys.foldl (fun raw key => raw.add j key) raw).raw key ↔
    i ∈ raw.raw key ∨ key ∈ keys ∧ i = j := by
  induction keys generalizing raw with
  | nil => simp
  | cons k keys ih => rw [List.foldl_cons, ih, Raw.mem_add, List.mem_cons, or_assoc, or_and_right]

theorem Raw.overflow_foldl_add : (keys.foldl (fun raw key => raw.add j key) raw).overflow = raw.overflow := by
  induction keys generalizing raw with
  | nil => rfl
  | cons k keys ih => exact ih

/-- The segment with the index is found from `raw`: in the overflow, or in every cell of its box; the
    latter only where the cells are of some size. -/
def Raw.Finds (raw : Raw) (cell : K) (s : Segment K) (i : ℕ) : Prop :=
  i ∈ raw.overflow ∨ 0 ≤ cell ∧ ∀ key ∈ cells cell s.box, i ∈ raw.raw key

theorem Raw.finds_mono (h : raw.Finds cell s i) : (raw.place segments cell j).Finds cell s i := by
  unfold Raw.place
  split
  · exact h
  · split
    · rcases h with h | h
      · exact .inl (List.mem_append_left _ h)
      · exact .inr h
    · rcases h with h | ⟨hcell, h⟩
      · exact .inl (by rwa [Raw.overflow_foldl_add])
      · exact .inr ⟨hcell, fun key hkey => Raw.mem_foldl_add.mpr (.inl (h key hkey))⟩

variable [IsStrictOrderedRing K]

theorem Raw.finds_place (hs : segments[i]? = some s) : (raw.place segments cell i).Finds cell s i := by
  unfold Raw.place
  rw [hs]
  dsimp only
  split
  case isTrue => exact .inl (List.mem_append_right _ List.mem_cons_self)
  case isFalse hshort =>
    have hspan : 0 ≤ s.box.right - s.box.left := sub_nonneg.mpr min_le_max
    have hbound : 0 ≤ cell * ((4 : ℤ) : K) := hspan.trans ((le_max_left _ _).trans (not_lt.mp hshort))
    have hfour : (0 : K) < ((4 : ℤ) : K) := by exact_mod_cast (by decide : (0 : ℤ) < 4)
    exact .inr ⟨nonneg_of_mul_nonneg_left hbound hfour, fun key hkey =>
      Raw.mem_foldl_add.mpr (.inr ⟨hkey, rfl⟩)⟩

variable {indices : List ℕ}

theorem Raw.finds_foldl (hs : segments[i]? = some s) (hi : i ∈ indices) :
    (indices.foldl (Raw.place segments cell) raw).Finds cell s i := by
  induction indices generalizing raw with
  | nil => cases hi
  | cons j indices ih =>
    rw [List.foldl_cons]
    rcases List.mem_cons.mp hi with rfl | hi
    · have hstays : ∀ (js : List ℕ) (raw : Raw), raw.Finds cell s i →
          (js.foldl (Raw.place segments cell) raw).Finds cell s i := by
        intro js
        induction js with
        | nil => exact fun _ h => h
        | cons j js ih => exact fun raw h => ih _ (Raw.finds_mono h)
      exact hstays indices _ (Raw.finds_place hs)
    · exact ih hi

theorem mem_visited {buckets : ℤ × ℤ → Bucket K} (hcell : cell ≠ 0) (hs : segments[i]? = some s)
    (hi : i ∈ indices) (hseg : s.box.Has x y) (hb : b.Has x y)
    (hbuckets : ∀ key, i ∈ (indices.foldl (Raw.place segments cell) ⟨[], fun _ => []⟩).raw key →
      ∀ b', b'.Has x y → i ∈ collect (buckets key) b') :
    i ∈ collect (.node cell (indices.foldl (Raw.place segments cell) ⟨[], fun _ => []⟩).overflow
      buckets) b := by
  rw [collect, List.mem_append]
  have hfinds : (indices.foldl (Raw.place segments cell) ⟨[], fun _ => []⟩).Finds cell s i :=
    Raw.finds_foldl hs hi
  rcases hfinds with h | ⟨hnonneg, h⟩
  · exact .inl h
  · have hpos : 0 < cell := lt_of_le_of_ne hnonneg (Ne.symm hcell)
    refine .inr (List.mem_flatMap.mpr ⟨_, floor_mem_cells hpos hb, ?_⟩)
    exact hbuckets _ (h _ (floor_mem_cells hpos hseg)) _ (has_clip hb (has_cellBox hpos))

theorem mem_collect {levels : ℕ} (hcell : cell ≠ 0) (hs : segments[i]? = some s) (hi : i ∈ indices)
    (hseg : s.box.Has x y) (hb : b.Has x y) :
    i ∈ collect (gridNode segments levels indices cell) b := by
  induction levels generalizing indices cell b with
  | zero =>
    refine mem_visited hcell hs hi hseg hb fun key hmem b' _ => ?_
    rw [if_neg (List.ne_nil_of_mem hmem)]
    exact hmem
  | succ levels ih =>
    refine mem_visited hcell hs hi hseg hb fun key hmem b' hb' => ?_
    rw [if_neg (List.ne_nil_of_mem hmem)]
    split
    case isTrue =>
      have hfour : ((4 : ℤ) : K) ≠ 0 := by exact_mod_cast (by decide : (4 : ℤ) ≠ 0)
      exact ih (div_ne_zero hcell hfour) hmem hb'
    case isFalse => exact hmem

theorem startCell_ne_zero (canvasSize : ℤ × ℤ) (cellSize : Option K) : startCell canvasSize cellSize ≠ 0 := by
  have hdefault : max ((32 : ℤ) : K) (((max canvasSize.1 canvasSize.2 : ℤ) : K) / ((64 : ℤ) : K)) ≠ 0 := by
    have hpos : (0 : K) < ((32 : ℤ) : K) := by exact_mod_cast (by decide : (0 : ℤ) < 32)
    exact (hpos.trans_le (le_max_left _ _)).ne'
  unfold startCell
  dsimp only
  split
  · exact hdefault
  · split
    · exact hdefault
    · assumption

theorem anyIn_scan {polylines : List (List (Point K))} (canvasSize : ℤ × ℤ) (cellSize : Option K)
    {p : Segment K → Bool} (hp : ∀ s, p s = true → ∃ x y, s.box.Has x y ∧ b.Has x y) :
    (RouteIndex.new polylines canvasSize cellSize).anyIn b p = (segmentsFromPolylines polylines).any p := by
  rw [Bool.eq_iff_iff]
  unfold RouteIndex.anyIn
  rw [List.any_eq_true, List.any_eq_true]
  constructor
  · rintro ⟨i, -, hany⟩
    obtain ⟨s, hs, hps⟩ := (Option.any_eq_true _ _).mp hany
    exact ⟨s, List.mem_of_getElem? hs, hps⟩
  · rintro ⟨s, hs, hps⟩
    obtain ⟨i, hi⟩ := List.mem_iff_getElem?.mp hs
    obtain ⟨x, y, hseg, hb⟩ := hp s hps
    obtain ⟨hlt, -⟩ := List.getElem?_eq_some_iff.mp hi
    refine ⟨i, mem_collect (startCell_ne_zero _ _) hi (List.mem_range.mpr hlt) hseg hb, ?_⟩
    exact (Option.any_eq_true _ _).mpr ⟨s, hi, hps⟩

end Grid

/-! ## 5. Segments that meet have boxes that do -/

section Meet

variable [IsStrictOrderedRing K] {s t : Segment K} {r : Rect K} {a b c d : Point K}

theorem between {p q u : K} (h0 : 0 ≤ u) (h1 : u ≤ 1) :
    min p q ≤ p + u * (q - p) ∧ p + u * (q - p) ≤ max p q := by
  rcases le_total p q with h | h
  · rw [min_eq_left h, max_eq_right h]
    have hstep : u * (q - p) ≤ 1 * (q - p) := mul_le_mul_of_nonneg_right h1 (sub_nonneg.mpr h)
    have hnonneg : 0 ≤ u * (q - p) := mul_nonneg h0 (sub_nonneg.mpr h)
    constructor
    · linarith
    · linarith
  · rw [min_eq_right h, max_eq_left h]
    have hstep : u * (p - q) ≤ 1 * (p - q) := mul_le_mul_of_nonneg_right h1 (sub_nonneg.mpr h)
    have hnonneg : 0 ≤ u * (p - q) := mul_nonneg h0 (sub_nonneg.mpr h)
    constructor
    · linarith
    · linarith

theorem exists_zero {p q : K} (h : decide (0 < p) ≠ decide (0 < q)) :
    p - q ≠ 0 ∧ 0 ≤ p / (p - q) ∧ p / (p - q) ≤ 1 := by
  have hcases : 0 < p ∧ q ≤ 0 ∨ p ≤ 0 ∧ 0 < q := by
    by_cases hp : 0 < p
    · by_cases hq : 0 < q
      · simp [hp, hq] at h
      · exact .inl ⟨hp, not_lt.mp hq⟩
    · by_cases hq : 0 < q
      · exact .inr ⟨not_lt.mp hp, hq⟩
      · simp [hp, hq] at h
  rcases hcases with ⟨hp, hq⟩ | ⟨hp, hq⟩
  · have hpos : 0 < p - q := by linarith
    exact ⟨hpos.ne', div_nonneg hp.le hpos.le, (div_le_one hpos).mpr (by linarith)⟩
  · have hneg : p - q < 0 := by linarith
    exact ⟨hneg.ne, div_nonneg_of_nonpos hp hneg.le, (div_le_one_of_neg hneg).mpr (by linarith)⟩

omit [LinearOrder K] [IsStrictOrderedRing K] in
theorem crossing (h : orientation a b c - orientation a b d ≠ 0) :
    a.1 + orientation c d a / (orientation c d a - orientation c d b) * (b.1 - a.1) =
      c.1 + orientation a b c / (orientation a b c - orientation a b d) * (d.1 - c.1) ∧
    a.2 + orientation c d a / (orientation c d a - orientation c d b) * (b.2 - a.2) =
      c.2 + orientation a b c / (orientation a b c - orientation a b d) * (d.2 - c.2) := by
  have hneg : orientation c d a - orientation c d b = -(orientation a b c - orientation a b d) := by
    unfold orientation
    ring
  rw [hneg]
  constructor
  · field_simp
    unfold orientation
    ring
  · field_simp
    unfold orientation
    ring

omit [Field K] [IsStrictOrderedRing K] in
theorem has_of_onSegment {p : Point K} (h : onSegment s.start s.stop p = true) : s.box.Has p.1 p.2 := by
  simp only [onSegment, Bool.and_eq_true, decide_eq_true_eq] at h
  exact ⟨h.1.1, h.1.2, h.2.1, h.2.2⟩

omit [Field K] [IsStrictOrderedRing K] in
theorem has_start : s.box.Has s.start.1 s.start.2 :=
  ⟨min_le_left _ _, le_max_left _ _, min_le_left _ _, le_max_left _ _⟩

omit [Field K] [IsStrictOrderedRing K] in
theorem has_stop : s.box.Has s.stop.1 s.stop.2 :=
  ⟨min_le_right _ _, le_max_right _ _, min_le_right _ _, le_max_right _ _⟩

def Segment.Through (s : Segment K) (p : Point K) : Prop :=
  orientation s.start s.stop p = 0 ∧ onSegment s.start s.stop p = true

omit [IsStrictOrderedRing K] in
theorem segmentsCross_iff : segmentsCross s t = true ↔ (decide (0 < orientation s.start s.stop t.start) ≠
        decide (0 < orientation s.start s.stop t.stop) ∧
      decide (0 < orientation t.start t.stop s.start) ≠ decide (0 < orientation t.start t.stop s.stop)) ∨
    s.Through t.start ∨ s.Through t.stop ∨ t.Through s.start ∨ t.Through s.stop := by
  unfold segmentsCross Segment.Through
  dsimp only
  rw [← bne_iff_ne, ← bne_iff_ne, ← Bool.and_eq_true]
  simp only [Bool.if_true_left, Bool.or_eq_true, Bool.and_eq_true, decide_eq_true_eq, Bool.or_false]

theorem common_of_segmentsCross (h : segmentsCross s t = true) : ∃ x y, s.box.Has x y ∧ t.box.Has x y := by
  rcases segmentsCross_iff.mp h with ⟨hs, ht⟩ | h | h | h | h
  · obtain ⟨hne, ht0, ht1⟩ := exists_zero hs
    obtain ⟨-, hu0, hu1⟩ := exists_zero ht
    obtain ⟨hx, hy⟩ := crossing hne
    refine ⟨_, _, ⟨(between hu0 hu1).1, (between hu0 hu1).2, (between hu0 hu1).1, (between hu0 hu1).2⟩, ?_⟩
    change t.box.Has (s.start.1 + _ * (s.stop.1 - s.start.1)) (s.start.2 + _ * (s.stop.2 - s.start.2))
    rw [hx, hy]
    exact ⟨(between ht0 ht1).1, (between ht0 ht1).2, (between ht0 ht1).1, (between ht0 ht1).2⟩
  · exact ⟨_, _, has_of_onSegment h.2, has_start⟩
  · exact ⟨_, _, has_of_onSegment h.2, has_stop⟩
  · exact ⟨_, _, has_start, has_of_onSegment h.2⟩
  · exact ⟨_, _, has_stop, has_of_onSegment h.2⟩

omit [IsStrictOrderedRing K] in
theorem common_of_segmentIntersectsRect (hx : r.left ≤ r.right) (hy : r.top ≤ r.bottom)
    (h : segmentIntersectsRect s r = true) : ∃ x y, s.box.Has x y ∧ r.Has x y := by
  unfold segmentIntersectsRect at h
  split at h
  case isTrue => cases h
  case isFalse hxs =>
    split at h
    case isTrue => cases h
    case isFalse hys =>
      rw [not_or, not_lt, not_lt] at hxs hys
      exact exists_common min_le_max min_le_max hx hy ⟨hxs.1, hxs.2, hys.1, hys.2⟩

end Meet

/-! ## 6. Against a scan -/

/-- The pairs of neighbouring points of a line, those of one point twice with them. -/
def neighboursAfter (previous : Point K) : List (Point K) → List (Segment K)
  | [] => []
  | point :: line => ⟨previous.1, previous.2, point.1, point.2⟩ :: neighboursAfter point line

def neighbours : List (Point K) → List (Segment K)
  | [] => []
  | point :: line => neighboursAfter point line

/-- Not one point over and over. -/
def Moves (line : List (Point K)) : Prop := ∃ a ∈ line, ∃ b ∈ line, a ≠ b

section Scan

variable {s t : Segment K} {r : Rect K} {p : Segment K → Bool} {previous q : Point K} {line : List (Point K)}

omit [Field K] in
theorem mem_segmentsAfter :
    s ∈ segmentsAfter previous line ↔ s ∈ neighboursAfter previous line ∧ s.start ≠ s.stop := by
  induction line generalizing previous with
  | nil => simp [segmentsAfter, neighboursAfter]
  | cons point line ih =>
    rw [segmentsAfter, neighboursAfter, List.mem_cons]
    split
    case isTrue hne =>
      rw [List.mem_cons, ih]
      constructor
      · rintro (rfl | h)
        · exact ⟨.inl rfl, fun he => hne he.symm⟩
        · exact ⟨.inr h.1, h.2⟩
      · rintro ⟨rfl | h, hs⟩
        · exact .inl rfl
        · exact .inr ⟨h, hs⟩
    case isFalse heq =>
      rw [not_not] at heq
      subst heq
      rw [ih]
      constructor
      · exact fun h => ⟨.inr h.1, h.2⟩
      · rintro ⟨rfl | h, hs⟩
        · exact absurd rfl hs
        · exact ⟨h, hs⟩

omit [Field K] [LinearOrder K] in
theorem ends_of_neighboursAfter (h : s ∈ neighboursAfter previous line) :
    s.start ∈ previous :: line ∧ s.stop ∈ previous :: line := by
  induction line generalizing previous with
  | nil => cases h
  | cons point line ih =>
    rcases List.mem_cons.mp h with rfl | h
    · exact ⟨List.mem_cons_self, List.mem_cons_of_mem _ List.mem_cons_self⟩
    · exact ⟨List.mem_cons_of_mem _ (ih h).1, List.mem_cons_of_mem _ (ih h).2⟩

omit [Field K] in
theorem exists_end (hq : q ∈ previous :: line) (hother : ∃ b ∈ previous :: line, b ≠ q) :
    ∃ s ∈ segmentsAfter previous line, s.start = q ∨ s.stop = q := by
  induction line generalizing previous with
  | nil =>
    obtain ⟨b, hb, hne⟩ := hother
    rw [List.mem_singleton] at hq hb
    exact absurd (hb.trans hq.symm) hne
  | cons point line ih =>
    rw [segmentsAfter]
    split
    case isTrue hne =>
      by_cases hprevious : previous = q
      · exact ⟨_, List.mem_cons_self, .inl hprevious⟩
      · by_cases hpoint : point = q
        · exact ⟨_, List.mem_cons_self, .inr hpoint⟩
        · have hrest : q ∈ point :: line := (List.mem_cons.mp hq).resolve_left (Ne.symm hprevious)
          obtain ⟨s, hs, hends⟩ := ih hrest ⟨point, List.mem_cons_self, hpoint⟩
          exact ⟨s, List.mem_cons_of_mem _ hs, hends⟩
    case isFalse heq =>
      rw [not_not] at heq
      subst heq
      have htwice : ∀ b, b ∈ point :: point :: line → b ∈ point :: line := fun b hb => by
        rcases List.mem_cons.mp hb with rfl | hb
        · exact List.mem_cons_self
        · exact hb
      obtain ⟨b, hb, hne⟩ := hother
      exact ih (htwice q hq) ⟨b, htwice b hb, hne⟩

/-- What holds of a point holds of every segment that ends there. -/
def AtEnds (p : Segment K → Bool) : Prop :=
  ∀ s q, p ⟨q.1, q.2, q.1, q.2⟩ = true → s.start = q ∨ s.stop = q → p s = true

omit [Field K] in
theorem exists_segment_iff (hp : AtEnds p) : (∃ s ∈ segmentsFromLine line, p s = true) ↔
    Moves line ∧ ∃ s ∈ neighbours line, p s = true := by
  cases line with
  | nil => simp [segmentsFromLine, neighbours]
  | cons point line =>
    constructor
    · rintro ⟨s, hs, hps⟩
      obtain ⟨hs, hne⟩ := mem_segmentsAfter.mp hs
      obtain ⟨hstart, hstop⟩ := ends_of_neighboursAfter hs
      exact ⟨⟨_, hstart, _, hstop, hne⟩, s, hs, hps⟩
    · rintro ⟨⟨a, ha, b, hb, hab⟩, s, hs, hps⟩
      by_cases hne : s.start = s.stop
      · obtain ⟨hstart, -⟩ := ends_of_neighboursAfter hs
        have hother : ∃ b ∈ point :: line, b ≠ s.start := by
          by_cases hsa : a = s.start
          · exact ⟨b, hb, fun hsb => hab (hsa.trans hsb.symm)⟩
          · exact ⟨a, ha, hsa⟩
        obtain ⟨s', hs', hends⟩ := exists_end hstart hother
        have hpoint : s = ⟨s.start.1, s.start.2, s.start.1, s.start.2⟩ := by
          obtain ⟨x1, y1, x2, y2⟩ := s
          cases hne
          rfl
        rw [hpoint] at hps
        exact ⟨s', hs', hp s' s.start hps hends⟩
      · exact ⟨s, mem_segmentsAfter.mpr ⟨hs, hne⟩, hps⟩

omit [Field K] in
theorem inRect_iff {x y : K} : inRect r x y = true ↔ r.Has x y := by
  simp only [inRect, Bool.and_eq_true, decide_eq_true_eq]
  constructor
  · rintro ⟨⟨hl, hr⟩, ht, hb⟩
    exact ⟨hl, hr, ht, hb⟩
  · rintro ⟨hl, hr, ht, hb⟩
    exact ⟨⟨hl, hr⟩, ht, hb⟩

theorem intersectsRect_of_has (h : r.Has q.1 q.2) (hends : s.start = q ∨ s.stop = q) :
    segmentIntersectsRect s r = true := by
  have hbox : s.box.Has q.1 q.2 := by
    rcases hends with rfl | rfl
    · exact has_start
    · exact has_stop
  have hx : ¬ (max s.x1 s.x2 < r.left ∨ r.right < min s.x1 s.x2) := by
    rw [not_or, not_lt, not_lt]
    exact ⟨h.left.trans hbox.right, hbox.left.trans h.right⟩
  have hy : ¬ (max s.y1 s.y2 < r.top ∨ r.bottom < min s.y1 s.y2) := by
    rw [not_or, not_lt, not_lt]
    exact ⟨h.top.trans hbox.bottom, hbox.top.trans h.bottom⟩
  unfold segmentIntersectsRect
  rw [if_neg hx, if_neg hy]
  rcases hends with rfl | rfl
  · exact if_pos (inRect_iff.mpr h)
  · split
    · rfl
    · exact if_pos (inRect_iff.mpr h)

theorem atEnds_intersectsRect : AtEnds fun s : Segment K => segmentIntersectsRect s r := by
  intro s q h hends
  dsimp only at h
  unfold segmentIntersectsRect at h
  rw [max_self, min_self, max_self, min_self] at h
  split at h
  case isTrue => cases h
  case isFalse hx =>
    split at h
    case isTrue => cases h
    case isFalse hy =>
      rw [not_or, not_lt, not_lt] at hx hy
      exact intersectsRect_of_has ⟨hx.1, hx.2, hy.1, hy.2⟩ hends

theorem through_ends : t.Through t.start ∧ t.Through t.stop := by
  have hon : ∀ a b : Point K, onSegment a b a = true ∧ onSegment a b b = true := fun a b => by
    simp [onSegment]
  refine ⟨⟨?_, (hon _ _).1⟩, ?_, (hon _ _).2⟩
  · unfold orientation
    ring
  · unfold orientation
    ring

theorem atEnds_segmentsCross : AtEnds fun s : Segment K => segmentsCross s t := by
  intro s q h hends
  have hflat : ∀ c : Point K, orientation q q c = 0 := fun c => by
    unfold orientation
    ring
  have hsame : ∀ c : Point K, onSegment q q c = true → c = q := fun c hc => by
    simp only [onSegment, min_self, max_self, Bool.and_eq_true, decide_eq_true_eq] at hc
    exact Prod.ext (le_antisymm hc.1.2 hc.1.1) (le_antisymm hc.2.2 hc.2.1)
  have hthrough : t.Through q := by
    rcases segmentsCross_iff.mp h with ⟨hs, -⟩ | hc | hc | hc | hc
    · change decide (0 < orientation q q t.start) ≠ decide (0 < orientation q q t.stop) at hs
      rw [hflat, hflat] at hs
      exact absurd rfl hs
    · exact hsame _ hc.2 ▸ through_ends.1
    · exact hsame _ hc.2 ▸ through_ends.2
    · exact hc
    · exact hc
  rcases hends with rfl | rfl
  · exact segmentsCross_iff.mpr (.inr (.inr (.inr (.inl hthrough))))
  · exact segmentsCross_iff.mpr (.inr (.inr (.inr (.inr hthrough))))

/-- **The index answers as a scan of the pairs of neighbours**, for a rectangle whose edges are not the
    wrong way round, and of the lines that move. -/
theorem routeIndex_brute_force {K : Type*} [Field K] [LinearOrder K] [IsStrictOrderedRing K]
    [FloorRing K] (polylines : List (List (Point K))) (canvasSize : ℤ × ℤ) (cellSize : Option K) :
    (∀ r : Rect K, r.left ≤ r.right → r.top ≤ r.bottom →
      ((RouteIndex.new polylines canvasSize cellSize).intersectsRect r = true ↔
        ∃ line ∈ polylines, Moves line ∧ ∃ s ∈ neighbours line, segmentIntersectsRect s r = true)) ∧
    ∀ t : Segment K, (RouteIndex.new polylines canvasSize cellSize).crossesSegment t = true ↔
      ∃ line ∈ polylines, Moves line ∧ ∃ s ∈ neighbours line, segmentsCross s t = true := by
  have hscan : ∀ p : Segment K → Bool, AtEnds p → ((segmentsFromPolylines polylines).any p = true ↔
      ∃ line ∈ polylines, Moves line ∧ ∃ s ∈ neighbours line, p s = true) := by
    intro p hp
    rw [List.any_eq_true]
    constructor
    · rintro ⟨s, hs, hps⟩
      obtain ⟨line, hline, hs⟩ := List.mem_flatMap.mp hs
      exact ⟨line, hline, (exists_segment_iff hp).mp ⟨s, hs, hps⟩⟩
    · rintro ⟨line, hline, h⟩
      obtain ⟨s, hs, hps⟩ := (exists_segment_iff hp).mpr h
      exact ⟨s, List.mem_flatMap.mpr ⟨line, hline, hs⟩, hps⟩
  constructor
  · intro r hx hy
    unfold RouteIndex.intersectsRect
    rw [anyIn_scan canvasSize cellSize fun s => common_of_segmentIntersectsRect hx hy]
    exact hscan _ atEnds_intersectsRect
  · intro t
    unfold RouteIndex.crossesSegment
    rw [anyIn_scan canvasSize cellSize fun s => common_of_segmentsCross]
    exact hscan _ atEnds_segmentsCross

/-- A dot in the middle of the page, and a line across it. -/
def dotAndLine : List (List (Point ℚ)) := [[(5, 5), (5, 5)], [(40, 30), (110, 30)]]

/-- The rectangle is on the line. -/
theorem routeIndex_brute_force_dotAndLine :
    (RouteIndex.new dotAndLine (200, 200) none).intersectsRect ⟨60, 20, 70, 40⟩ = true ↔
      ∃ line ∈ dotAndLine, Moves line ∧
        ∃ s ∈ neighbours line, segmentIntersectsRect s ⟨60, 20, 70, 40⟩ = true :=
  (routeIndex_brute_force dotAndLine (200, 200) none).1 ⟨60, 20, 70, 40⟩ (by decide) (by decide)

/-- **Neither can be left out**: the index has no segment for a dot, and a rectangle whose edges are the
    wrong way round reaches no cell, where the predicate still answers. -/
theorem routeIndex_misses : (¬ ∀ (polylines : List (List (Point ℚ))) (canvasSize : ℤ × ℤ) (r : Rect ℚ),
      r.left ≤ r.right → r.top ≤ r.bottom →
      ((RouteIndex.new polylines canvasSize none).intersectsRect r = true ↔
        ∃ line ∈ polylines, ∃ s ∈ neighbours line, segmentIntersectsRect s r = true)) ∧
    ¬ ∀ (polylines : List (List (Point ℚ))) (canvasSize : ℤ × ℤ) (r : Rect ℚ),
      (∀ line ∈ polylines, Moves line) →
      ((RouteIndex.new polylines canvasSize none).intersectsRect r = true ↔
        ∃ line ∈ polylines, ∃ s ∈ neighbours line, segmentIntersectsRect s r = true) := by
  constructor
  · intro h
    have hdot := (h [[(5, 5), (5, 5)]] (200, 200) ⟨0, 0, 10, 10⟩ (by decide) (by decide)).mpr
    exact absurd (hdot (by decide +kernel)) (by decide +kernel)
  · intro h
    have hline := (h [[(40, 30), (110, 30)]] (200, 200) ⟨100, 0, 50, 60⟩ fun line hmem => by
      rw [List.mem_singleton.mp hmem]
      exact ⟨(40, 30), by simp, (110, 30), by simp, by decide⟩).mpr
    exact absurd (hline (by decide +kernel)) (by decide +kernel)

end Scan

end TraxJourney.Poster
