/-
  File:      Track/ElevationGain.lean
  Subject:   The climb of a recorded track, as the server measures it (`elevation_gain` and what it
             calls, in `src/models/track_edit.py`).

  * `runStride` -- samples to a reading, by the median of the runs of equal ones.

  Nothing is answered where an operation raises: an index past the end of a list, a division by zero, a
  square that overflows, the root of a negative number.
-/
import TraxJourney.Lib.Arithmetic

namespace TraxJourney.Track

open Lib

variable {α : Type} (A : Arithmetic α)

/-! ## 1. Runs of equal readings -/

def noiseMaxRunStride : ℕ := 16

/-- The counts of the runs by their length, how many they are, and the length of the one that is open. -/
structure RunCounts where
  counts : List ℕ
  runs : ℕ
  length : ℕ

def RunCounts.close (s : RunCounts) : RunCounts :=
  { counts := s.counts.modify (if s.length < noiseMaxRunStride then s.length else noiseMaxRunStride)
      (· + 1)
    runs := s.runs + 1
    length := 1 }

def RunCounts.start : RunCounts :=
  { counts := List.replicate (noiseMaxRunStride + 1) 0, runs := 0, length := 1 }

def runStep (s : RunCounts) (pair : α × α) : RunCounts :=
  if A.same pair.1 pair.2 then { s with length := s.length + 1 } else s.close

/-- The first stride that more than half of the runs do not exceed; `n` are left to be looked at. -/
def strideFrom (counts : List ℕ) (runs : ℕ) : ℕ → ℕ → ℕ → ℕ
  | 0, _, _ => noiseMaxRunStride
  | n + 1, stride, seen =>
    let seen := seen + counts.getD stride 0
    if runs < seen * 2 then stride else strideFrom counts runs n (stride + 1) seen

def RunCounts.stride (s : RunCounts) : ℕ := strideFrom s.counts s.runs noiseMaxRunStride 1 0

def runStride (elevations : List α) : ℕ :=
  ((elevations.zip elevations.tail).foldl (runStep A) .start).close.stride

/-! ## 2. Noise -/

/-- `_NOISE_DIFFERENCE_ORDERS`: `range(3, 6)`. -/
def noiseDifferenceOrders : List ℕ := List.range' 3 3

def noiseMinDifferences : ℕ := 8

def noiseMedianSampleCap : ℕ := 20000

/-- `_NOISE_DIFFERENCE_SCALE`: `1.4826 / math.sqrt(math.comb(2 * k, k))`. -/
def noiseDifferenceScale (order : ℕ) : Option α :=
  (A.sqrt (A.ofInt ((2 * order).choose order))).bind (A.div (A.literal 1.4826))

/-- `zip(xs, islice(xs, stride, None))`, each second less its first. -/
def differences (stride : ℕ) (xs : List α) : List α := List.zipWith (fun a b => A.sub b a) xs (xs.drop stride)

/-- `xs[::step]`, for a step that is not zero. -/
def everyNth (step : ℕ) (xs : List α) : List α :=
  (List.range ((xs.length + step - 1) / step)).filterMap fun k => xs[k * step]?

/-- `sorted(map(abs, differences[::step]))`, at its middle. -/
def medianMagnitude (xs : List α) : Option α :=
  let step := 1 + xs.length / noiseMedianSampleCap
  let magnitudes := A.sorted ((everyNth step xs).map A.abs)
  magnitudes[magnitudes.length / 2]?

/-- The estimate of one order, or the smaller one that there was. -/
def estimateOf (order : ℕ) (xs : List α) (estimate : Option α) : Option α :=
  (noiseDifferenceScale A order).bind fun scale => (medianMagnitude A xs).map fun middle =>
    let sigma := A.mul scale middle
    match estimate with
    | none => sigma
    | some estimate => A.min estimate sigma

def noiseLoop (stride : ℕ) : List ℕ → List α → Option α → Option (Option α)
  | [], _, estimate => some estimate
  | order :: orders, xs, estimate =>
    let xs := differences A stride xs
    if xs.length < noiseMinDifferences then some estimate
    else if order ∉ noiseDifferenceOrders then noiseLoop stride orders xs estimate
    else (estimateOf A order xs estimate).bind fun sigma => noiseLoop stride orders xs (some sigma)

/-- `_noise_estimate`: `(sigma, stride)`. -/
def noiseEstimate (elevations : List α) : Option (α × ℤ) :=
  let stride := runStride A elevations
  (noiseLoop A stride (List.range' 1 5) elevations none).map fun estimate =>
    (estimate.getD (A.literal 0), stride)

/-! ## 3. Smoothing -/

/-- `ELEV_SMOOTH_SPAN_M`, `ELEV_SMOOTH_MAX_SPAN_M`, `ELEV_SMOOTH_TARGET_SIGMA_M`. -/
def elevSmoothSpanM : ℚ := 60
def elevSmoothMaxSpanM : ℚ := 240
def elevSmoothTargetSigmaM : ℚ := 1

/-- `while distances_km[i] - distances_km[lo] > half_km: lo += 1`, in at most `fuel` turns; an index
    past the end ends it as well. -/
def advanceLo (distances : List α) (half : α) (i : ℕ) : ℕ → ℕ → Option ℕ
  | 0, _ => none
  | fuel + 1, lo => do
      let here ← distances[i]?
      let low ← distances[lo]?
      if A.lt half (A.sub here low) then advanceLo distances half i fuel (lo + 1) else some lo

/-- `while hi + 1 < n and distances_km[hi + 1] - distances_km[i] <= half_km: hi += 1`. -/
def advanceHi (distances : List α) (half : α) (i : ℕ) : ℕ → ℕ → ℕ
  | 0, hi => hi
  | fuel + 1, hi =>
    match distances[hi + 1]?, distances[i]? with
    | some high, some here =>
      if A.le (A.sub high here) half then advanceHi distances half i fuel (hi + 1) else hi
    | _, _ => hi

/-- The ends of the window, what was averaged so far, and the widths together. -/
structure Window (α : Type) where
  lo : ℕ
  hi : ℕ
  out : List α
  totalWidth : ℤ

/-- The window moves to the sample `i`. -/
def windowStep (distances sums : List α) (half : α) (w : Window α) (i : ℕ) : Option (Window α) := do
  let lo ← advanceLo A distances half i (distances.length + 1) w.lo
  let hi := advanceHi A distances half i distances.length w.hi
  let width : ℤ := hi + 1 - lo
  let upper ← sums[hi + 1]?
  let lower ← sums[lo]?
  let mean ← A.div (A.sub upper lower) (A.ofInt width)
  some { lo := lo, hi := hi, out := w.out ++ [mean], totalWidth := w.totalWidth + width }

/-- `prefix`: the sums of the first elevations. -/
def prefixSums (elevations : List α) : List α := elevations.scanl A.add (A.literal 0)

/-- `half_km`, for the gaps between the samples. -/
def halfWidth (gaps : List α) (sigma : α) (stride : ℤ) : Option α := do
  let gaps := A.sorted gaps
  let medianGap ← gaps[gaps.length / 2]?
  let ratio ← A.div sigma (A.literal elevSmoothTargetSigmaM)
  let squared ← A.square ratio
  let wanted := A.mul (A.mul (A.ofInt stride) squared) (A.mul medianGap (A.literal 1000))
  let span := A.max (A.literal elevSmoothSpanM) (A.min (A.literal elevSmoothMaxSpanM) wanted)
  let half ← A.div span (A.literal 2)
  A.div half (A.literal 1000)

/-- The windows over all samples. -/
def windows (distances sums : List α) (half : α) : Option (Window α) :=
  (List.range distances.length).foldlM (windowStep A distances sums half)
    { lo := 0, hi := 0, out := [], totalWidth := 0 }

/-- `_smooth_elevations`: the series, and the mean number of samples that its windows held. -/
def smoothElevations (elevations : List α) (distances : Option (List α)) (sigma : α) (stride : ℤ) :
    Option (List α × α) :=
  match distances with
  | none => some (elevations, A.literal 1)
  | some distances =>
    if elevations.length < 3 ∨ distances.isEmpty = true ∨ distances.length ≠ elevations.length then
      some (elevations, A.literal 1)
    else do
      let half ← halfWidth A (differences A 1 distances) sigma stride
      let w ← windows A distances (prefixSums A elevations) half
      let mean ← A.div (A.ofInt w.totalWidth) (A.ofInt elevations.length)
      some (w.out, mean)

/-! ## 4. Climb -/

/-- `ELEV_NOISE_SIGMA_MULTIPLE`, `ELEV_GAIN_THRESHOLD_MIN_M`, `ELEV_GAIN_THRESHOLD_MAX_M`. -/
def elevNoiseSigmaMultiple : ℚ := 4.5
def elevGainThresholdMinM : ℚ := 1
def elevGainThresholdMaxM : ℚ := 20

def noiseThreshold (sigma : α) (stride : ℤ) (window : α) : Option α := do
  let readings ← A.div window (A.ofInt stride)
  let root ← A.sqrt (A.max (A.literal 1) readings)
  let residual ← A.div sigma root
  some (A.min (A.literal elevGainThresholdMaxM)
    (A.max (A.literal elevGainThresholdMinM) (A.mul (A.literal elevNoiseSigmaMultiple) residual)))

/-- The climb so far, and the elevation that was counted last. -/
structure Climb (α : Type) where
  gain : α
  ref : α

def climbStep (threshold : α) (c : Climb α) (value : α) : Climb α :=
  if A.le threshold (A.sub value c.ref) then
    { gain := A.add c.gain (A.sub value c.ref), ref := value }
  else if A.le threshold (A.sub c.ref value) then { c with ref := value }
  else c

/-- The rises of a series that go beyond a threshold. -/
def climbOf (threshold : α) : List α → Option α
  | [] => none
  | first :: rest => some (rest.foldl (climbStep A threshold) { gain := A.literal 0, ref := first }).gain

/-- `elevation_gain`; `noise` is a measurement of the caller's. -/
def elevationGain (elevations : List α) (distances : Option (List α)) (noise : Option (α × ℤ)) : Option α :=
  if elevations.length < 2 then some (A.literal 0)
  else do
    let (sigma, stride) ← match noise with
      | some measured => some measured
      | none => noiseEstimate A elevations
    let (smoothed, window) ← smoothElevations A elevations distances sigma stride
    let threshold ← noiseThreshold A sigma stride window
    climbOf A threshold smoothed

end TraxJourney.Track
