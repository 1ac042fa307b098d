/-
  File:      Geo/Decimation.lean
  Subject:   The point budget of the map, `lib/src/projects/polyline_decimation.dart`, calculated exactly.

  * **`decimatePolylinePoints_spec`** -- all of this, of any lines and any budget.

  Nothing is answered where an index is past the end of a line, or where the centre of an empty bucket is
  asked for.
-/
import TraxJourney.Lib.Doubles
import TraxJourney.Track.Downsample

namespace TraxJourney.Geo.Decimation

open Lib
open Track (bucketStart Best)

/-! ## 1. The budget -/

section Defs

variable {K : Type} [Field K] [LinearOrder K] [FloorRing K]

omit [Field K] [LinearOrder K] [FloorRing K] in
def totalPolylinePoints (lines : List (List (K × K))) : ℕ := lines.foldl (fun sum l => sum + l.length) 0

variable (K) in
/-- `(budget * line.length / total).round().clamp(2, line.length)`. -/
def share (budget length total : ℕ) : ℕ :=
  let rounded := roundHalfAway (((budget * length : ℕ) : K) / total)
  if rounded < 2 then 2 else if (length : ℤ) < rounded then length else rounded.toNat

variable (K) in
/-- `(i * every + 1).floor()`. -/
def bound (n threshold i : ℕ) : ℤ :=
  let every : K := ((n - 2 : ℤ) : K) / ((threshold - 2 : ℤ) : K)
  ⌊(i : K) * every + 1⌋

/-- `x.clamp(0, n)`. -/
def clampTo (n : ℕ) (x : ℤ) : ℤ := if x < 0 then 0 else if n < x then n else x

/-- `avgX += data[j].$1; avgY += data[j].$2`, from `nS` to before `nE`. -/
def sumLoop (data : List (K × K)) (nS nE : ℤ) : Option (K × K) :=
  (List.range' nS.toNat (nE - nS).toNat).foldlM
    (fun sum j => (data[j]?).map fun p => (sum.1 + p.1, sum.2 + p.2)) (0, 0)

/-- One turn of the loop over a bucket. -/
def areaTurn (data : List (K × K)) (ax ay avgX avgY : K) (s : Best K) (j : ℕ) : Option (Best K) :=
  (data[j]?).map fun p =>
    let area := |(ax - avgX) * (p.2 - ay) - (ax - p.1) * (avgY - ay)|
    if s.maxArea < area then { maxArea := area, best := j } else s

/-- One turn of the loop over the buckets: the point picked from bucket `i`, after the point `a`. -/
def pick (data : List (K × K)) (threshold a i : ℕ) : Option ℕ := do
  let n := data.length
  let nS := bound K n threshold (i + 1)
  let nE := clampTo n (bound K n threshold (i + 2))
  let sum ← sumLoop data nS nE
  let cnt := nE - nS
  if cnt = 0 then none
  else
    let avgX := sum.1 / (cnt : K)
    let avgY := sum.2 / (cnt : K)
    let cS := bound K n threshold i
    let cE := clampTo n (bound K n threshold (i + 1))
    let (ax, ay) ← data[a]?
    let s ← (List.range' cS.toNat (cE - cS).toNat).foldlM (areaTurn data ax ay avgX avgY)
      { maxArea := -1, best := cS.toNat }
    some s.best

def lttbPoints (data : List (K × K)) (threshold : ℕ) : Option (List (K × K)) :=
  if data.length ≤ threshold then some data
  else do
    let first ← data.head?
    let (out, _) ← (List.range' 0 (threshold - 2)).foldlM (fun (out, a) i => do
      let best ← pick data threshold a i
      let p ← data[best]?
      some (out ++ [p], best)) ([first], 0)
    let last ← data.getLast?
    some (out ++ [last])

def decimatePolylinePoints (lines : List (List (K × K))) (budget : ℕ) : Option (List (List (K × K))) :=
  let total := totalPolylinePoints lines
  if total ≤ budget ∨ lines = [] then some lines
  else lines.mapM fun line =>
    if line.length ≤ 2 then some line else lttbPoints line (share K budget line.length total)

end Defs

/-! ## 2. The buckets -/

section

variable {K : Type} [Field K] [LinearOrder K] [FloorRing K] [IsStrictOrderedRing K] {n threshold : ℕ}

theorem bound_eq (hthree : 3 ≤ threshold) (hmany : threshold < n) (i : ℕ) :
    bound K n threshold i = bucketStart K n threshold i := by
  have hn : ((n - 2 : ℤ) : K) = ((n - 2 : ℕ) : K) := by
    rw [Nat.cast_sub (by omega)]
    push_cast
    rfl
  have ht : ((threshold - 2 : ℤ) : K) = ((threshold - 2 : ℕ) : K) := by
    rw [Nat.cast_sub (by omega)]
    push_cast
    rfl
  have hwidth : (i : K) * (((n - 2 : ℕ) : K) / ((threshold - 2 : ℕ) : K)) =
      ((i * (n - 2) : ℕ) : K) / ((threshold - 2 : ℕ) : K) := by
    rw [Nat.cast_mul, mul_div_assoc]
  have hfloor : ⌊((i * (n - 2) : ℕ) : K) / ((threshold - 2 : ℕ) : K)⌋ =
      ((i * (n - 2) / (threshold - 2) : ℕ) : ℤ) := by
    rw [← Nat.floor_div_eq_div (K := K), Int.natCast_floor_eq_floor (by positivity)]
  unfold bound
  dsimp only
  rw [hn, ht, hwidth, Int.floor_add_one, hfloor, Track.bucketStart_eq hthree hmany]
  rfl

theorem clampTo_natCast (b : ℕ) : clampTo n b = (min b n : ℕ) := by
  unfold clampTo
  split <;> omega

/-- What a turn reads: its bucket and the next one, neither of which is empty, behind the first point. -/
structure Bucket (K : Type) [Field K] [LinearOrder K] [FloorRing K] (n threshold i : ℕ) : Prop where
  behind_first : 1 ≤ bound K n threshold i
  current : bound K n threshold i < clampTo n (bound K n threshold (i + 1))
  next : bound K n threshold (i + 1) < clampTo n (bound K n threshold (i + 2))

theorem bucket (hthree : 3 ≤ threshold) (hmany : threshold < n) {i : ℕ} (hi : i < threshold - 2) :
    Bucket K n threshold i := by
  have hlt := Track.bucketStart_lt (K := K) hthree hmany i
  have hlt' : bucketStart K n threshold (i + 1) < bucketStart K n threshold (i + 2) :=
    Track.bucketStart_lt hthree hmany (i + 1)
  have hle := Track.bucketStart_le (K := K) hthree hmany hi
  have hstart := Track.bucketStart_end (K := K) hthree hmany
  have hmono := Track.bucketStart_mono (K := K) hthree hmany (Nat.zero_le i)
  refine ⟨?_, ?_, ?_⟩
  · rw [bound_eq hthree hmany]
    omega
  · rw [bound_eq hthree hmany, bound_eq hthree hmany, clampTo_natCast]
    omega
  · rw [bound_eq hthree hmany, bound_eq hthree hmany, clampTo_natCast]
    omega

variable {data : List (K × K)}

omit [LinearOrder K] [FloorRing K] [IsStrictOrderedRing K] in
theorem sumLoop_some {nS nE : ℤ} (h : nE ≤ data.length) (hstart : 0 ≤ nS) :
    ∃ sum, sumLoop data nS nE = some sum := by
  refine foldlM_some (fun j hj s => ?_) _
  rw [List.mem_range'_1] at hj
  rw [List.getElem?_eq_getElem (by omega)]
  exact ⟨_, rfl⟩

theorem pick_spec (hthree : 3 ≤ threshold) (hmany : threshold < data.length) {a i : ℕ} (ha : a < data.length)
    (hi : i < threshold - 2) :
    ∃ best, pick data threshold a i = some best ∧ bucketStart K data.length threshold i ≤ best ∧
      best < bucketStart K data.length threshold (i + 1) := by
  have hlt := Track.bucketStart_lt (K := K) hthree hmany i
  have hle := Track.bucketStart_le (K := K) hthree hmany hi
  have hbucket := bucket (K := K) hthree hmany hi
  have hend : clampTo data.length (bound K data.length threshold (i + 2)) ≤ data.length := by
    rw [bound_eq hthree hmany, clampTo_natCast]
    omega
  have hnext := bound_eq (K := K) hthree hmany (i + 1)
  have hnonneg : 0 ≤ bound K data.length threshold (i + 1) := by
    rw [hnext]
    exact Int.natCast_nonneg _
  obtain ⟨sum, hsum⟩ := sumLoop_some hend hnonneg
  have hcnt : clampTo data.length (bound K data.length threshold (i + 2)) -
      bound K data.length threshold (i + 1) ≠ 0 := sub_ne_zero.mpr hbucket.next.ne'
  unfold pick
  dsimp only
  rw [hsum, Option.bind_eq_bind, Option.bind_some, if_neg hcnt, bound_eq hthree hmany i, hnext,
    clampTo_natCast, min_eq_left (by omega), List.getElem?_eq_getElem ha]
  simp only [Option.bind_eq_bind, Option.bind_some, Int.toNat_natCast]
  generalize sum.1 / _ = avgX
  generalize sum.2 / _ = avgY
  generalize bucketStart K data.length threshold (i + 1) = ce at hlt hle
  generalize bucketStart K data.length threshold i = cs at hlt
  have hturn : ∀ (j : ℕ) (s : Best K), cs ≤ j → j < cs + ((ce : ℤ) - cs).toNat → cs ≤ s.best ∧ s.best < ce →
        ∃ s', areaTurn data data[a].1 data[a].2 avgX avgY s j = some s' ∧ cs ≤ s'.best ∧ s'.best < ce := by
    intro j s hj hj' hs
    unfold areaTurn
    rw [List.getElem?_eq_getElem (by omega : j < data.length), Option.map_some]
    refine ⟨_, rfl, ?_⟩
    dsimp only
    split
    · exact ⟨hj, by show j < ce; omega⟩
    · exact hs
  obtain ⟨s, hs, hin⟩ := foldlM_range'_spec (s := { maxArea := -1, best := cs }) hturn ⟨le_rfl, hlt⟩
  rw [hs]
  exact ⟨s.best, rfl, hin⟩

/-! ## 3. One line -/

/-- A line at some of its positions, without repeats; where it has points, its ends are kept. -/
structure Thinned (points out : List (K × K)) : Prop where
  positions : ∃ idx : List ℕ, idx.Pairwise (· < ·) ∧ out.map some = idx.map (points[·]?) ∧
    (points ≠ [] → 0 ∈ idx ∧ points.length - 1 ∈ idx)

omit [Field K] [LinearOrder K] [FloorRing K] [IsStrictOrderedRing K] in
theorem Thinned.whole (points : List (K × K)) : Thinned points points := by
  refine ⟨List.range points.length, List.pairwise_lt_range, ?_, fun hne => ?_⟩
  · have htake := Track.take_samples (le_refl points.length)
    rwa [List.take_length] at htake
  · have hpos := List.length_pos_of_ne_nil hne
    exact ⟨List.mem_range.mpr hpos, List.mem_range.mpr (by omega)⟩

omit [Field K] [LinearOrder K] [FloorRing K] [IsStrictOrderedRing K] in
theorem Thinned.add_last {points out : List (K × K)} {idx : List ℕ} (hordered : idx.Pairwise (· < ·))
    (hout : out.map some = idx.map (points[·]?)) (hfirst : 0 ∈ idx)
    (hbefore : ∀ p ∈ idx, p < points.length - 1) {last : K × K} (hlast : points.getLast? = some last) :
    Thinned points (out ++ [last]) := by
  refine ⟨idx ++ [points.length - 1], ?_, ?_, fun _ => ⟨List.mem_append_left _ hfirst, by simp⟩⟩
  · refine List.pairwise_append.mpr ⟨hordered, List.pairwise_singleton _ _, fun p hp q hq => ?_⟩
    rw [List.mem_singleton.mp hq]
    exact hbefore p hp
  · rw [List.map_append, List.map_append, hout, List.map_singleton, List.map_singleton, ← hlast,
      List.getLast?_eq_getElem?]

/-- The points so far: the first, and one from each of the buckets before bucket `i`. -/
structure Picked (data : List (K × K)) (threshold i : ℕ) (s : List (K × K) × ℕ) : Prop where
  positions : ∃ idx : List ℕ, idx.Pairwise (· < ·) ∧ s.1.map some = idx.map (data[·]?) ∧ 0 ∈ idx ∧
    idx.length = i + 1 ∧ ∀ p ∈ idx, p < bucketStart K data.length threshold i
  last : s.2 < data.length

theorem Picked.push {i best : ℕ} {s : List (K × K) × ℕ} (hthree : 3 ≤ threshold)
    (hmany : threshold < data.length) (h : Picked data threshold i s)
    (hlow : bucketStart K data.length threshold i ≤ best)
    (hhigh : best < bucketStart K data.length threshold (i + 1)) (hlast : best < data.length) :
    Picked data threshold (i + 1) (s.1 ++ [data[best]], best) := by
  obtain ⟨idx, hordered, hout, hfirst, hlen, hbefore⟩ := h.positions
  refine ⟨⟨idx ++ [best], ?_, ?_, List.mem_append_left _ hfirst, by simp [hlen], fun p hp => ?_⟩, hlast⟩
  · refine List.pairwise_append.mpr ⟨hordered, List.pairwise_singleton _ _, fun p hp q hq => ?_⟩
    rw [List.mem_singleton.mp hq]
    exact (hbefore p hp).trans_le hlow
  · rw [List.map_append, List.map_append, hout, List.map_singleton, List.map_singleton,
      List.getElem?_eq_getElem hlast]
  · rcases List.mem_append.mp hp with hp | hp
    · have hlt := Track.bucketStart_lt (K := K) hthree hmany i
      exact (hbefore p hp).trans hlt
    · rwa [List.mem_singleton.mp hp]

theorem lttbPoints_spec (htwo : 2 ≤ threshold) (hmany : threshold < data.length) :
    ∃ out, lttbPoints data threshold = some out ∧ Thinned data out ∧ out.length = threshold := by
  have hhead : data.head? = some data[0] := by rw [List.head?_eq_getElem?, List.getElem?_eq_getElem]
  obtain ⟨last, hlast⟩ : ∃ last, data.getLast? = some last := by
    rw [List.getLast?_eq_getElem?, List.getElem?_eq_getElem (by omega)]
    exact ⟨_, rfl⟩
  unfold lttbPoints
  rw [if_neg (not_le.mpr hmany), hhead, hlast]
  rcases htwo.eq_or_lt with rfl | hthree
  · -- a share of two: no bucket at all
    refine ⟨[data[0], last], rfl, ?_, rfl⟩
    have hone : [data[0]].map some = [0].map (data[·]?) := by
      rw [List.map_singleton, List.map_singleton, List.getElem?_eq_getElem]
    exact Thinned.add_last (List.pairwise_singleton _ _) hone (List.mem_singleton.mpr rfl)
      (fun p hp => by rw [List.mem_singleton.mp hp]; omega) hlast
  · have hstart : Picked data threshold 0 ([data[0]], 0) := by
      refine ⟨⟨[0], List.pairwise_singleton _ _, ?_, List.mem_singleton.mpr rfl, rfl, fun p hp => ?_⟩,
        by show 0 < data.length; omega⟩
      · rw [List.map_singleton, List.map_singleton, List.getElem?_eq_getElem]
      · rw [List.mem_singleton.mp hp, (Track.bucketStart_end hthree hmany).1]
        exact Nat.one_pos
    have hturn : ∀ (i : ℕ) (s : List (K × K) × ℕ), 0 ≤ i → i < 0 + (threshold - 2) →
        Picked data threshold i s → ∃ s', (do
          let best ← pick data threshold s.2 i
          let p ← data[best]?
          some (s.1 ++ [p], best)) = some s' ∧ Picked data threshold (i + 1) s' := by
      intro i s _ hi hs
      rw [Nat.zero_add] at hi
      obtain ⟨best, hbest, hlow, hhigh⟩ := pick_spec hthree hmany hs.last hi
      have hbefore := Track.bucketStart_le (K := K) hthree hmany hi
      have hin : best < data.length := by omega
      exact ⟨_, by rw [hbest, Option.bind_eq_bind, Option.bind_some, List.getElem?_eq_getElem hin]; rfl,
        hs.push hthree hmany hlow hhigh hin⟩
    obtain ⟨s, hs, hend⟩ := foldlM_range'_spec hturn hstart
    obtain ⟨idx, hordered, hout, hfirst, hlen, hbefore⟩ := hend.positions
    rw [Nat.zero_add, (Track.bucketStart_end hthree hmany).2] at hbefore
    have hlen' : s.1.length = idx.length := by
      have hsame := congrArg List.length hout
      rwa [List.length_map, List.length_map] at hsame
    refine ⟨s.1 ++ [last], ?_, Thinned.add_last hordered hout hfirst hbefore hlast, ?_⟩
    · exact congrArg (Option.bind · fun r : List (K × K) × ℕ => some (r.1 ++ [last])) hs
    · rw [List.length_append, List.length_singleton]
      omega

/-! ## 4. The shares -/

theorem share_le (budget length total : ℕ) :
    (share K budget length total : K) ≤ (budget : K) * length / total + 2 := by
  have hnonneg : 0 ≤ (budget : K) * length / total := by positivity
  have hround : ((roundHalfAway ((budget : K) * length / total) : ℤ) : K) ≤
      (budget : K) * length / total + 1 / 2 := by
    unfold roundHalfAway
    rw [if_pos hnonneg, Nat.cast_ofNat]
    exact Int.floor_le _
  unfold share
  dsimp only
  rw [Nat.cast_mul]
  generalize roundHalfAway ((budget : K) * length / total) = rounded at hround
  split
  case isTrue => 
    rw [Nat.cast_ofNat]
    linarith
  case isFalse hlarge =>
    have hcast : ((rounded.toNat : ℕ) : K) = rounded := by
      rw [← Int.cast_natCast, Int.toNat_of_nonneg (by omega)]
    split
    case isTrue hmore =>
      have hle : ((length : ℤ) : K) ≤ rounded := by exact_mod_cast hmore.le
      rw [Int.cast_natCast] at hle
      linarith
    case isFalse =>
      rw [hcast]
      linarith

omit [IsStrictOrderedRing K] in
theorem share_bounds {budget length total : ℕ} (h : 2 < length) :
    2 ≤ share K budget length total ∧ share K budget length total ≤ length := by
  unfold share
  dsimp only
  split
  · omega
  · split <;> omega

/-! ## 5. All lines -/

omit [Field K] [LinearOrder K] [FloorRing K] [IsStrictOrderedRing K] in
theorem totalPolylinePoints_eq (lines : List (List (K × K))) :
    totalPolylinePoints lines = (lines.map List.length).sum := by
  rw [totalPolylinePoints, List.sum_eq_foldl, List.foldl_map]

/-- What is made of one line when the budget is too small. -/
structure Decimated (budget total : ℕ) (line out : List (K × K)) : Prop where
  thinned : Thinned line out
  length_le : (out.length : K) ≤ (budget : K) * line.length / total + 2

theorem decimated (budget total : ℕ) (line : List (K × K)) :
    ∃ out, (if line.length ≤ 2 then some line else lttbPoints line (share K budget line.length total)) =
      some out ∧ Decimated budget total line out := by
  have hshare := share_le (K := K) budget line.length total
  split
  case isTrue hshort =>
    have hlen : (line.length : K) ≤ 2 := by exact_mod_cast hshort
    have hnonneg : 0 ≤ (budget : K) * line.length / total := by positivity
    exact ⟨line, rfl, Thinned.whole line, by linarith⟩
  case isFalse hlong =>
    have hbounds : 2 ≤ share K budget line.length total ∧ share K budget line.length total ≤ line.length :=
      share_bounds (not_le.mp hlong)
    rcases hbounds.2.eq_or_lt with hall | hless
    · refine ⟨line, ?_, Thinned.whole line, by rwa [hall] at hshare⟩
      rw [lttbPoints, if_pos hall.ge]
    · obtain ⟨out, hout, hthin, hlen⟩ := lttbPoints_spec hbounds.1 hless
      exact ⟨out, hout, hthin, by rwa [hlen]⟩

theorem length_decimated {budget total : ℕ} {lines outs : List (List (K × K))} (htotal : 0 < total)
    (hsum : (lines.map List.length).sum = total) (h : List.Forall₂ (Decimated budget total) lines outs) :
    (outs.map List.length).sum ≤ budget + 2 * lines.length := by
  have hpartial : (((outs.map List.length).sum : ℕ) : K) ≤
      (budget : K) * ((lines.map List.length).sum : ℕ) / total + 2 * lines.length := by
    clear hsum
    induction h with
    | nil => simp
    | cons hline _ ih =>
      simp only [List.map_cons, List.sum_cons, List.length_cons]
      push_cast at ih ⊢
      have hone := hline.length_le
      rw [mul_add, add_div]
      linarith
  have hcast : (total : K) ≠ 0 := Nat.cast_ne_zero.mpr htotal.ne'
  rw [hsum, mul_div_assoc, div_self hcast, mul_one] at hpartial
  exact_mod_cast hpartial

/-- **Any lines under any budget**: as many lines in order, each at some of its positions, without repeats
    and with its ends; all of them unchanged where they fit, and else the budget and three points a line at
    most; no turn reads an empty bucket. -/
theorem decimatePolylinePoints_spec (lines : List (List (K × K))) (budget : ℕ) :
    ∃ outs, decimatePolylinePoints lines budget = some outs ∧ List.Forall₂ Thinned lines outs ∧
      (totalPolylinePoints lines ≤ budget → outs = lines) ∧
      (budget < totalPolylinePoints lines → totalPolylinePoints outs ≤ budget + 3 * lines.length) ∧
      ∀ line ∈ lines, 2 < line.length → share K budget line.length (totalPolylinePoints lines) < line.length →
          ∀ i, i < share K budget line.length (totalPolylinePoints lines) - 2 →
            Bucket K line.length (share K budget line.length (totalPolylinePoints lines)) i := by
  have hbuckets : ∀ line ∈ lines, 2 < line.length →
      share K budget line.length (totalPolylinePoints lines) < line.length →
        ∀ i, i < share K budget line.length (totalPolylinePoints lines) - 2 →
          Bucket K line.length (share K budget line.length (totalPolylinePoints lines)) i :=
    fun line _ _ hless i hi => bucket (by omega) hless hi
  unfold decimatePolylinePoints
  dsimp only
  split
  case isTrue hfits =>
    refine ⟨lines, rfl, List.forall₂_same.mpr fun line _ => Thinned.whole line, fun _ => rfl, fun hover => ?_,
      hbuckets⟩
    rcases hfits with hfits | rfl
    · omega
    · exact absurd hover (Nat.not_lt_zero _)
  case isFalse hover =>
    simp only [not_or, not_le] at hover
    obtain ⟨outs, houts, hall⟩ := mapM_forall₂ fun line (_ : line ∈ lines) =>
      decimated (K := K) budget (totalPolylinePoints lines) line
    have hlength := length_decimated (Nat.zero_lt_of_lt hover.1) (totalPolylinePoints_eq lines).symm hall
    refine ⟨outs, houts, hall.imp fun _ _ h => h.thinned, fun hfits => absurd hfits (by omega), fun _ => ?_,
      hbuckets⟩
    rw [totalPolylinePoints_eq]
    omega

/-- A line of four points and a short one, under a budget of four. -/
theorem decimatePolylinePoints_spec_corner :
    decimatePolylinePoints ([[(0, 0), (1, 0), (2, 5), (3, 0)], [(7, 7)]] : List (List (ℚ × ℚ))) 4 =
        some [[(0, 0), (2, 5), (3, 0)], [(7, 7)]] ∧
      ∃ outs, decimatePolylinePoints ([[(0, 0), (1, 0), (2, 5), (3, 0)], [(7, 7)]] : List (List (ℚ × ℚ))) 4 =
        some outs ∧ totalPolylinePoints outs ≤ 4 + 3 * 2 := by
  obtain ⟨outs, houts, -, -, htotal, -⟩ :=
    decimatePolylinePoints_spec ([[(0, 0), (1, 0), (2, 5), (3, 0)], [(7, 7)]] : List (List (ℚ × ℚ))) 4
  exact ⟨by decide +kernel, outs, houts, htotal (by decide)⟩

end

end TraxJourney.Geo.Decimation
