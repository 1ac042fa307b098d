/-
  File:      Track/DeviceGain.lean
  Subject:   The climb of a recorded track, as the device measures it
             (`flutter_client/lib/src/track_metrics/elevation_gain.dart`), and that it measures what
             the server does.

  * **`noiseEstimate_device`**, **`smoothElevations_device`**, **`elevationGain_device`** -- the same
    values as the server's, or none where it has none.
-/
import TraxJourney.Lib.IndexLoops
import TraxJourney.Track.Readings

namespace TraxJourney.Track.Device

open Lib

variable {α : Type} (A : Arithmetic α)

/-! ## 1. The port -/

def centralBinomial (k : ℕ) : Option α :=
  (List.range' 1 k).foldlM (fun (c : α) (i : ℕ) => A.div (A.mul c (A.ofInt (k + i))) (A.ofInt i))
    (A.literal 1)

def noiseDifferenceScale (k : ℕ) : Option α :=
  (centralBinomial A k).bind fun c => (A.sqrt c).bind (A.div (A.literal 1.4826))

/-- `counts[…] += 1; runs += 1`. -/
def countRun (s : RunCounts) : RunCounts :=
  { s with
    counts := s.counts.modify (if s.length < 16 then s.length else 16) (· + 1)
    runs := s.runs + 1 }

def runTurn (elevations : List α) (s : RunCounts) (i : ℕ) : Option RunCounts := do
  let before ← elevations[i - 1]?
  let here ← elevations[i]?
  some (if A.same before here then { s with length := s.length + 1 }
    else { countRun s with length := 1 })

/-- `for (stride = 1; stride <= 16; stride++)`. -/
def strideLoop (counts : List ℕ) (runs : ℕ) : List ℕ → ℕ → ℕ
  | [], _ => 16
  | stride :: rest, seen =>
    let seen := seen + counts.getD stride 0
    if seen * 2 > runs then stride else strideLoop counts runs rest seen

def runStride (elevations : List α) : Option ℕ := do
  let s ← (List.range' 1 (elevations.length - 1)).foldlM (runTurn A elevations)
    { counts := List.replicate 17 0, runs := 0, length := 1 }
  let s := countRun s
  some (strideLoop s.counts s.runs (List.range' 1 16) 0)

/-- `for (i = 0; i + stride < differences.length; i++)`. -/
def differencesAt (stride : ℕ) (xs : List α) : Option (List α) :=
  (List.range' 0 (xs.length - stride)).foldlM (fun next i => do
    let later ← xs[i + stride]?
    let here ← xs[i]?
    some (next ++ [A.sub later here])) []

/-- `math.min(estimate, sigma)`, where there is an estimate. -/
def smaller (estimate : Option α) (sigma : α) : α :=
  match estimate with
  | none => sigma
  | some estimate => A.min estimate sigma

def noiseLoop (stride : ℕ) : List ℕ → List α → Option α → Option (Option α)
  | [], _, estimate => some estimate
  | order :: orders, xs, estimate =>
    (differencesAt A stride xs).bind fun xs =>
      if xs.length < 8 then some estimate
      else if !([3, 4, 5].contains order) then noiseLoop stride orders xs estimate
      else do
        let step := 1 + xs.length / 20000
        let magnitudes := A.sorted ((everyFrom xs step xs.length 0).map A.abs)
        let middle ← magnitudes[magnitudes.length / 2]?
        let scale ← noiseDifferenceScale A order
        noiseLoop stride orders xs (some (smaller A estimate (A.mul scale middle)))

def noiseEstimate (elevations : List α) : Option (α × ℤ) := do
  let stride ← runStride A elevations
  let estimate ← noiseLoop A stride (List.range' 1 5) elevations none
  some (estimate.getD (A.literal 0), stride)

/-- `while (distancesKm[i] - distancesKm[lo] > halfKm) lo += 1`, in at most `fuel` turns. -/
def lowEnd (distances : List α) (half : α) (i : ℕ) : ℕ → ℕ → Option ℕ
  | 0, _ => none
  | fuel + 1, lo => do
      let here ← distances[i]?
      let low ← distances[lo]?
      if A.lt half (A.sub here low) then lowEnd distances half i fuel (lo + 1) else some lo

/-- `while (hi + 1 < n && distancesKm[hi + 1] - distancesKm[i] <= halfKm) hi += 1`. -/
def highEnd (distances : List α) (half : α) (i : ℕ) : ℕ → ℕ → ℕ
  | 0, hi => hi
  | fuel + 1, hi =>
    match distances[hi + 1]?, distances[i]? with
    | some high, some here =>
      if A.le (A.sub high here) half then highEnd distances half i fuel (hi + 1) else hi
    | _, _ => hi

def windowTurn (distances sums : List α) (half : α) (w : Window α) (i : ℕ) : Option (Window α) := do
  let lo ← lowEnd A distances half i (distances.length + 1) w.lo
  let hi := highEnd A distances half i distances.length w.hi
  let width : ℤ := hi + 1 - lo
  let upper ← sums[hi + 1]?
  let lower ← sums[lo]?
  let mean ← A.div (A.sub upper lower) (A.ofInt width)
  some { lo := lo, hi := hi, out := w.out ++ [mean], totalWidth := w.totalWidth + width }

def smoothElevations (elevations : List α) (distances : Option (List α)) (sigma : α) (stride : ℤ) :
    Option (List α × α) :=
  match distances with
  | none => some (elevations, A.literal 1)
  | some distances =>
    if elevations.length < 3 ∨ distances.isEmpty = true ∨ distances.length ≠ elevations.length then
      some (elevations, A.literal 1)
    else do
      let gaps ← (List.range' 1 (elevations.length - 1)).foldlM (fun gaps i => do
        let here ← distances[i]?
        let before ← distances[i - 1]?
        some (gaps ++ [A.sub here before])) []
      let gaps := A.sorted gaps
      let medianGap ← gaps[gaps.length / 2]?
      let medianGapM := A.mul medianGap (A.literal 1000)
      let ratio ← A.div sigma (A.literal 1)
      let wanted := A.mul (A.mul (A.ofInt stride) (A.mul ratio ratio)) medianGapM
      let span := A.max (A.literal 60) (A.min (A.literal 240) wanted)
      let half ← A.div span (A.literal 2)
      let half ← A.div half (A.literal 1000)
      let sums := elevations.foldl
        (fun sums value => sums ++ [A.add (sums.getLastD (A.literal 0)) value]) [A.literal 0]
      let w ← (List.range' 0 elevations.length).foldlM (windowTurn A distances sums half)
        { lo := 0, hi := 0, out := [], totalWidth := 0 }
      let window ← A.div (A.ofInt w.totalWidth) (A.ofInt elevations.length)
      some (w.out, window)

def noiseThreshold (sigma : α) (stride : ℤ) (window : α) : Option α := do
  let readings ← A.div window (A.ofInt stride)
  let root ← A.sqrt (A.max (A.literal 1) readings)
  let residual ← A.div sigma root
  some (A.min (A.literal 20) (A.max (A.literal 1) (A.mul (A.literal 4.5) residual)))

def climbTurn (smoothed : List α) (threshold : α) (c : Climb α) (i : ℕ) : Option (Climb α) := do
  let value ← smoothed[i]?
  some (
    if A.le threshold (A.sub value c.ref) then
      { gain := A.add c.gain (A.sub value c.ref), ref := value }
    else if A.le threshold (A.sub c.ref value) then { c with ref := value }
    else c)

def elevationGain (elevations : List α) (distances : Option (List α)) : Option α :=
  if elevations.length < 2 then some (A.literal 0)
  else do
    let (sigma, stride) ← noiseEstimate A elevations
    let (smoothed, window) ← smoothElevations A elevations distances sigma stride
    let threshold ← noiseThreshold A sigma stride window
    let first ← smoothed[0]?
    let c ← (List.range' 1 (smoothed.length - 1)).foldlM (climbTurn A smoothed threshold)
      { gain := A.literal 0, ref := first }
    some c.gain

/-! ## 2. The noise -/

theorem strideLoop_eq (counts : List ℕ) (runs n stride seen : ℕ) :
    strideLoop counts runs (List.range' stride n) seen = strideFrom counts runs n stride seen := by
  induction n generalizing stride seen with
  | zero => rfl
  | succ n ih => rw [List.range'_succ, strideLoop, strideFrom, ih]

theorem runStride_device (elevations : List α) :
    runStride A elevations = some (Track.runStride A elevations) := by
  have hturns : (List.range' 1 (elevations.length - 1)).foldlM (runTurn A elevations) RunCounts.start =
      some ((elevations.zip elevations.tail).foldl (runStep A) .start) := by
    rw [← length_zip_tail]
    refine foldlM_range' (fun i hi s => ?_) _
    obtain ⟨hbefore, hhere⟩ := zip_tail_get hi
    unfold runTurn
    rw [hbefore, hhere]
    rfl
  unfold runStride Track.runStride RunCounts.stride
  change ((List.range' 1 (elevations.length - 1)).foldlM (runTurn A elevations) RunCounts.start).bind _ = _
  rw [hturns, Option.bind_some]
  exact congrArg some (strideLoop_eq _ _ _ _ _)

theorem differencesAt_eq (stride : ℕ) (xs : List α) :
    differencesAt A stride xs = some (differences A stride xs) := by
  have hcount : xs.length - stride = (xs.zip (xs.drop stride)).length := by
    rw [List.length_zip, List.length_drop]
    omega
  unfold differencesAt differences
  rw [hcount, ← List.map_uncurry_zip_eq_zipWith]
  refine foldlM_push fun i hi out => ?_
  rw [List.length_zip, List.length_drop] at hi
  rw [Nat.zero_add, List.getElem?_eq_getElem (by omega), List.getElem?_eq_getElem (by omega)]
  simp [Nat.add_comm]

theorem everyFrom_everyNth {xs : List α} {step : ℕ} (hstep : 0 < step) :
    everyFrom xs step xs.length 0 = everyNth step xs := by
  rw [everyFrom_eq hstep (by omega)]
  unfold everyNth
  simp only [Nat.sub_zero, Nat.zero_add]

/-- What the port asks of the operations. -/
structure Agrees : Prop where
  square : ∀ x, A.square x = some (A.mul x x)
  scale : ∀ order ∈ noiseDifferenceOrders, noiseDifferenceScale A order = Track.noiseDifferenceScale A order

variable {A}

theorem noiseLoop_device (h : Agrees A) (stride : ℕ) (orders : List ℕ) (xs : List α) (estimate : Option α) :
    noiseLoop A stride orders xs estimate = Track.noiseLoop A stride orders xs estimate := by
  induction orders generalizing xs estimate with
  | nil => rfl
  | cons order orders ih =>
    rw [noiseLoop, Track.noiseLoop, differencesAt_eq, Option.bind_some]
    by_cases hfew : (differences A stride xs).length < noiseMinDifferences
    · rw [if_pos hfew]
      exact if_pos hfew
    · rw [if_neg hfew]
      refine (if_neg hfew).trans ?_
      by_cases horder : order ∈ noiseDifferenceOrders
      · have hcontains : (!([3, 4, 5].contains order)) = false := by
          rw [Bool.not_eq_false', List.contains_iff_mem]
          exact horder
        rw [hcontains, if_neg Bool.false_ne_true, if_neg (not_not.mpr horder)]
        have hmedian : medianMagnitude A (differences A stride xs) =
            let magnitudes := A.sorted ((everyFrom (differences A stride xs)
              (1 + (differences A stride xs).length / 20000) (differences A stride xs).length 0).map A.abs)
            magnitudes[magnitudes.length / 2]? := by
          rw [everyFrom_everyNth (by omega)]
          rfl
        unfold estimateOf
        rw [hmedian, ← h.scale order horder]
        -- the one takes the scale first, the other the median
        cases noiseDifferenceScale A order with
        | none => simp
        | some scale =>
          simp only [Option.bind_eq_bind, Option.bind_some, Option.bind_map]
          refine Option.bind_congr fun middle _ => ?_
          rw [ih]
          cases estimate <;> rfl
      · have hcontains : (!([3, 4, 5].contains order)) = true := by
          rw [Bool.not_eq_true', ← Bool.not_eq_true, List.contains_iff_mem]
          exact horder
        rw [hcontains, if_pos rfl, if_pos horder, ih]

theorem noiseEstimate_device (h : Agrees A) (elevations : List α) :
    noiseEstimate A elevations = Track.noiseEstimate A elevations := by
  unfold noiseEstimate Track.noiseEstimate
  rw [runStride_device]
  simp only [Option.bind_eq_bind, Option.bind_some]
  rw [noiseLoop_device h]
  cases Track.noiseLoop A (Track.runStride A elevations) (List.range' 1 5) elevations none <;> rfl

/-! ## 3. The smoothing -/

theorem lowEnd_eq (distances : List α) (half : α) (i fuel lo : ℕ) :
    lowEnd A distances half i fuel lo = advanceLo A distances half i fuel lo := by
  induction fuel generalizing lo with
  | zero => rfl
  | succ fuel ih =>
    rw [lowEnd, advanceLo]
    simp only [ih]

theorem highEnd_eq (distances : List α) (half : α) (i fuel hi : ℕ) :
    highEnd A distances half i fuel hi = advanceHi A distances half i fuel hi := by
  induction fuel generalizing hi with
  | zero => rfl
  | succ fuel ih =>
    rw [highEnd, advanceHi]
    cases distances[hi + 1]? with
    | none => rfl
    | some high =>
      cases distances[i]? with
      | none => rfl
      | some here =>
        rw [ih]

theorem windowTurn_eq (distances sums : List α) (half : α) (w : Window α) (i : ℕ) :
    windowTurn A distances sums half w i = windowStep A distances sums half w i := by
  unfold windowTurn windowStep
  rw [lowEnd_eq, highEnd_eq]

theorem sums_eq (elevations : List α) :
    elevations.foldl (fun sums value => sums ++ [A.add (sums.getLastD (A.literal 0)) value])
      [A.literal 0] = prefixSums A elevations := by
  have hfrom : ∀ (xs out : List α) (last : α),
      xs.foldl (fun sums value => sums ++ [A.add (sums.getLastD (A.literal 0)) value])
        (out ++ [last]) = out ++ xs.scanl A.add last := by
    intro xs
    induction xs with
    | nil => intro out last; rfl
    | cons x xs ih =>
      intro out last
      rw [List.foldl_cons, List.getLastD_concat, ih, List.scanl_cons, List.append_assoc]
      rfl
  exact hfrom elevations [] _

theorem gaps_eq (distances : List α) : (List.range' 1 (distances.length - 1)).foldlM (fun gaps i => do
        let here ← distances[i]?
        let before ← distances[i - 1]?
        some (gaps ++ [A.sub here before])) [] = some (differences A 1 distances) := by
  have hpairs : differences A 1 distances =
      (distances.zip distances.tail).map fun pair => A.sub pair.2 pair.1 := by
    unfold differences
    rw [← List.map_uncurry_zip_eq_zipWith, List.drop_one]
    rfl
  rw [hpairs, ← length_zip_tail]
  refine foldlM_push fun i hi out => ?_
  obtain ⟨hbefore, hhere⟩ := zip_tail_get hi
  rw [hbefore, hhere]
  rfl

theorem smoothElevations_device (h : Agrees A) (elevations : List α) (distances : Option (List α))
    (sigma : α) (stride : ℤ) :
    smoothElevations A elevations distances sigma stride =
      Track.smoothElevations A elevations distances sigma stride := by
  unfold smoothElevations Track.smoothElevations
  cases distances with
  | none => rfl
  | some distances =>
    dsimp only
    split
    · rfl
    · rename_i husable
      simp only [not_or, not_not] at husable
      have hturn : windowTurn A distances (prefixSums A elevations) =
          windowStep A distances (prefixSums A elevations) := by
        funext half w i
        exact windowTurn_eq distances _ half w i
      have hloop : List.range' 0 elevations.length = List.range distances.length := by
        rw [husable.2.2, List.range_eq_range']
      have hgaps := gaps_eq (A := A) distances
      rw [husable.2.2] at hgaps
      rw [hgaps, sums_eq, hturn, hloop]
      unfold halfWidth windows
      simp only [Option.bind_eq_bind, Option.bind_some, Option.bind_assoc, h.square]
      rfl

/-! ## 4. The climb -/

theorem climbTurns_eq (threshold first : α) (rest : List α) (c : Climb α) :
    (List.range' 1 ((first :: rest).length - 1)).foldlM (climbTurn A (first :: rest) threshold) c =
      some (rest.foldl (climbStep A threshold) c) := by
  refine foldlM_range' (fun i hi c => ?_) c
  unfold climbTurn
  rw [Nat.add_comm, List.getElem?_cons_succ, List.getElem?_eq_getElem hi]
  rfl

theorem elevationGain_device (h : Agrees A) (elevations : List α) (distances : Option (List α)) :
    elevationGain A elevations distances = Track.elevationGain A elevations distances none := by
  have hclimb : ∀ (smoothed : List α) (threshold : α), (smoothed[0]?.bind fun first =>
        ((List.range' 1 (smoothed.length - 1)).foldlM (climbTurn A smoothed threshold)
          { gain := A.literal 0, ref := first }).bind fun c => some c.gain) =
        climbOf A threshold smoothed := by
    intro smoothed threshold
    cases smoothed with
    | nil => rfl
    | cons first rest =>
      rw [List.getElem?_cons_zero, Option.bind_some, climbTurns_eq]
      rfl
  unfold elevationGain Track.elevationGain
  rw [noiseEstimate_device h]
  split
  · rfl
  · simp only [Option.bind_eq_bind]
    refine Option.bind_congr fun noise _ => ?_
    rw [smoothElevations_device h]
    refine Option.bind_congr fun smoothing _ => ?_
    refine Option.bind_congr fun threshold _ => ?_
    exact hclimb _ _

/-! ## 5. Exact arithmetic -/

section

variable {K : Type} [Field K] [LinearOrder K] [IsStrictOrderedRing K] {root : K → K}

theorem centralBinomial_exact (k : ℕ) :
    centralBinomial (exact K root) k = some (((2 * k).choose k : ℕ) : K) := by
  have hturns : ∀ n, (List.range' 1 n).foldlM (fun (c : K) (i : ℕ) => (exact K root).div
      ((exact K root).mul c ((exact K root).ofInt (k + i))) ((exact K root).ofInt i))
      ((exact K root).literal 1) = some (((k + n).choose n : ℕ) : K) := by
    intro n
    induction n with
    | zero =>
      show some (((1 : ℚ) : K)) = _
      rw [Nat.choose_zero_right, Rat.cast_one, Nat.cast_one]
    | succ n ih =>
      have hne : ((n + 1 : ℕ) : K) ≠ 0 := Nat.cast_ne_zero.mpr (Nat.succ_ne_zero n)
      have hchoose : (((k + (n + 1)).choose (n + 1) : ℕ) : K) * ((n + 1 : ℕ) : K) =
          (((k + n).choose n : ℕ) : K) * ((k + (n + 1) : ℕ) : K) := by
        have hnat := Nat.add_one_mul_choose_eq (k + n) n
        rw [Nat.mul_comm] at hnat
        exact_mod_cast hnat.symm
      have hint : ∀ m : ℕ, (exact K root).ofInt (m : ℤ) = (m : K) := fun m => Int.cast_natCast m
      have hsum : (exact K root).ofInt ((k : ℤ) + ((n + 1 : ℕ) : ℤ)) = ((k + (n + 1) : ℕ) : K) := by
        rw [← Nat.cast_add]
        exact hint _
      rw [List.range'_concat, List.foldlM_append, ih, Option.bind_eq_bind, Option.bind_some,
        List.foldlM_cons, Nat.one_mul, Nat.add_comm 1 n, hint, hsum]
      show ((if ((n + 1 : ℕ) : K) = 0 then none else some _ : Option K)).bind some = _
      rw [if_neg hne, Option.bind_some]
      exact congrArg some ((congrArg (· / _) hchoose.symm).trans (mul_div_cancel_right₀ _ hne))
  unfold centralBinomial
  rw [hturns k, two_mul]

theorem exact_agrees : Agrees (exact K root) where
  square x := congrArg some (sq x)
  scale order _ := by
    unfold noiseDifferenceScale Track.noiseDifferenceScale
    rw [centralBinomial_exact]
    exact congrArg (fun c => ((exact K root).sqrt c).bind _) (Int.cast_natCast _).symm

/-- A root is there for every number from one on, and is not zero. -/
def HasRoots (root : K → K) : Prop := ∀ x, 1 ≤ x → root x ≠ 0

theorem sqrt_exact {x : K} (h : 1 ≤ x) : (exact K root).sqrt x = some (root x) :=
  if_neg (not_lt.mpr (zero_le_one.trans h))

omit [IsStrictOrderedRing K] in
theorem div_exact {x y : K} (h : y ≠ 0) : (exact K root).div x y = some (x / y) := if_neg h

theorem ofInt_exact_ne_zero {n : ℤ} (h : n ≠ 0) : (exact K root).ofInt n ≠ 0 := Int.cast_ne_zero.mpr h

theorem noiseDifferenceScale_exact (hroot : HasRoots root) (order : ℕ) :
    ∃ scale, Track.noiseDifferenceScale (exact K root) order = some scale := by
  have hchoose : 1 ≤ (exact K root).ofInt ((2 * order).choose order) := by
    show (1 : K) ≤ (((2 * order).choose order : ℕ) : ℤ)
    exact_mod_cast Nat.choose_pos (Nat.le_mul_of_pos_left order Nat.two_pos)
  unfold Track.noiseDifferenceScale
  rw [sqrt_exact hchoose, Option.bind_some, div_exact (hroot _ hchoose)]
  exact ⟨_, rfl⟩

theorem noiseEstimate_exact (hroot : HasRoots root) (elevations : List K) :
    ∃ sigma, Track.noiseEstimate (exact K root) elevations =
      some (sigma, (Track.runStride (exact K root) elevations : ℤ)) := by
  have hloop : ∀ (stride : ℕ) (orders : List ℕ) (xs : List K) (estimate : Option K),
      ∃ found, Track.noiseLoop (exact K root) stride orders xs estimate = some found := by
    intro stride orders
    induction orders with
    | nil => exact fun xs estimate => ⟨estimate, rfl⟩
    | cons order orders ih =>
      intro xs estimate
      rw [Track.noiseLoop]
      split
      · exact ⟨estimate, rfl⟩
      · rename_i hmany
        split
        · exact ih _ _
        · have hne : differences (exact K root) stride xs ≠ [] := by
            intro hnil
            rw [hnil, List.length_nil] at hmany
            exact hmany (by decide)
          obtain ⟨scale, hscale⟩ := noiseDifferenceScale_exact hroot order
          obtain ⟨x, -, hmedian⟩ := medianMagnitude_some (exact K root) hne
          unfold estimateOf
          rw [hscale, Option.bind_some, hmedian, Option.map_some, Option.bind_some]
          exact ih _ _
  obtain ⟨found, hfound⟩ := hloop (Track.runStride (exact K root) elevations) (List.range' 1 5)
    elevations none
  unfold Track.noiseEstimate
  dsimp only
  rw [hfound]
  exact ⟨_, rfl⟩

theorem literal_exact_ne_zero {q : ℚ} (h : q ≠ 0) : (exact K root).literal q ≠ 0 := Rat.cast_ne_zero.mpr h

theorem halfWidth_exact {gaps : List K} (hgaps : gaps ≠ []) (sigma : K) (stride : ℤ) :
    ∃ half, halfWidth (exact K root) gaps sigma stride = some half ∧ 0 ≤ half := by
  have hspan : ∀ wanted : K, 0 ≤ (exact K root).max ((exact K root).literal elevSmoothSpanM) wanted := by
    intro wanted
    have hsixty : (0 : K) ≤ (exact K root).literal elevSmoothSpanM := by
      show (0 : K) ≤ ((elevSmoothSpanM : ℚ) : K)
      exact Rat.cast_nonneg.mpr (by norm_num [elevSmoothSpanM])
    unfold Arithmetic.max
    split
    · rename_i hlt
      exact hsixty.trans (of_decide_eq_true hlt).le
    · exact hsixty
  have hpositive : ∀ q : ℚ, 0 < q → (0 : K) ≤ (exact K root).literal q := fun q hq =>
    Rat.cast_nonneg.mpr hq.le
  obtain ⟨medianGap, -, hmedian⟩ := middle_some (exact K root) hgaps
  have hone : (exact K root).literal elevSmoothTargetSigmaM ≠ 0 :=
    literal_exact_ne_zero (by norm_num [elevSmoothTargetSigmaM])
  have htwo : (exact K root).literal 2 ≠ 0 := literal_exact_ne_zero (by norm_num)
  have hthousand : (exact K root).literal 1000 ≠ 0 := literal_exact_ne_zero (by norm_num)
  unfold halfWidth
  simp only [Option.bind_eq_bind]
  rw [hmedian, Option.bind_some, div_exact hone, Option.bind_some, exact_agrees.square, Option.bind_some,
    div_exact htwo, Option.bind_some, div_exact hthousand]
  exact ⟨_, rfl, div_nonneg (div_nonneg (hspan _) (hpositive 2 (by norm_num)))
    (hpositive 1000 (by norm_num))⟩

theorem smoothElevations_exact (elevations : List K) (distances : Option (List K)) (sigma : K) (stride : ℤ) :
    ∃ smoothed window, Track.smoothElevations (exact K root) elevations distances sigma stride =
      some (smoothed, window) ∧ smoothed.length = elevations.length := by
  unfold Track.smoothElevations
  cases distances with
  | none => exact ⟨elevations, _, rfl, rfl⟩
  | some ds =>
    dsimp only
    split
    · exact ⟨elevations, _, rfl, rfl⟩
    · rename_i husable
      simp only [not_or, not_not] at husable
      obtain ⟨hmany, hne, hsame⟩ := husable
      have hlen : (differences (exact K root) 1 ds).length = ds.length - 1 := by
        rw [differences, List.length_zipWith, List.length_drop]
        omega
      have hgaps : differences (exact K root) 1 ds ≠ [] := List.ne_nil_of_length_pos (by omega)
      have hds : ds ≠ [] := List.ne_nil_of_length_pos (by omega)
      obtain ⟨half, hhalf, hpos⟩ := @halfWidth_exact K _ _ _ root _ hgaps sigma stride
      have hstop : ∀ x ∈ ds, (exact K root).lt half ((exact K root).sub x x) = false := by
        intro x _
        show decide (half < x - x) = false
        rw [sub_self]
        exact decide_eq_false (not_lt.mpr hpos)
      have hnext : ∀ x ∈ ds, (exact K root).le ((exact K root).sub x x) half = true := by
        intro x _
        show decide (x - x ≤ half) = true
        rw [sub_self]
        exact decide_eq_true hpos
      have hdiv : ∀ x (width : ℤ), 1 ≤ width →
          ((exact K root).div x ((exact K root).ofInt width)).isSome = true := by
        intro x width hwidth
        rw [div_exact (ofInt_exact_ne_zero (by omega))]
        rfl
      obtain ⟨w, hw, hout⟩ := windows_some (exact K root) hds
        ((length_prefixSums (exact K root) elevations).trans (by omega)) hstop hnext hdiv
      obtain ⟨mean, hmean⟩ := Option.isSome_iff_exists.mp
        (hdiv ((exact K root).ofInt w.totalWidth) elevations.length (by omega))
      simp only [Option.bind_eq_bind]
      rw [hhalf, Option.bind_some, hw, Option.bind_some, hmean]
      exact ⟨w.out, mean, rfl, by omega⟩

theorem noiseThreshold_exact (hroot : HasRoots root) (sigma : K) {stride : ℤ} (hstride : stride ≠ 0)
    (window : K) :
    ∃ threshold, Track.noiseThreshold (exact K root) sigma stride window = some threshold ∧
      1 ≤ threshold := by
  have hliteral : (exact K root).literal 1 = 1 := Rat.cast_one
  have hone : ∀ x : K, 1 ≤ (exact K root).max ((exact K root).literal 1) x := by
    intro x
    rw [hliteral]
    unfold Arithmetic.max
    split
    · rename_i hlt
      exact (of_decide_eq_true hlt).le
    · exact le_rfl
  have hmost : (1 : K) ≤ (exact K root).literal elevGainThresholdMaxM := by
    show (1 : K) ≤ ((elevGainThresholdMaxM : ℚ) : K)
    exact_mod_cast (by norm_num [elevGainThresholdMaxM] : (1 : ℚ) ≤ elevGainThresholdMaxM)
  have hmin : ∀ x y : K, 1 ≤ x → 1 ≤ y → 1 ≤ (exact K root).min x y := by
    intro x y hx hy
    unfold Arithmetic.min
    split
    · exact hy
    · exact hx
  have hnonzero : (exact K root).ofInt stride ≠ 0 := ofInt_exact_ne_zero hstride
  unfold Track.noiseThreshold
  simp only [Option.bind_eq_bind]
  rw [div_exact hnonzero, Option.bind_some, sqrt_exact (hone _), Option.bind_some,
    div_exact (hroot _ (hone _))]
  exact ⟨_, rfl, hmin _ _ hmost (hone _)⟩

/-- **In exact arithmetic the climb is always measured.** -/
theorem elevationGain_exact (hroot : HasRoots root) (elevations : List K) (distances : Option (List K)) :
    ∃ gain, Track.elevationGain (exact K root) elevations distances none = some gain := by
  unfold Track.elevationGain
  split
  · exact ⟨_, rfl⟩
  · rename_i hmany
    obtain ⟨sigma, hsigma⟩ := noiseEstimate_exact hroot elevations
    obtain ⟨smoothed, window, hsmoothed, hlen⟩ := @smoothElevations_exact K _ _ _ root elevations
      distances sigma (Track.runStride (exact K root) elevations)
    obtain ⟨threshold, hthreshold, -⟩ :=
      noiseThreshold_exact hroot sigma (runStride_ne_zero (exact K root) elevations) window
    simp only [Option.bind_eq_bind]
    rw [hsigma, Option.bind_some, hsmoothed, Option.bind_some, hthreshold, Option.bind_some]
    cases smoothed with
    | nil => rw [List.length_nil] at hlen; omega
    | cons first rest => exact ⟨_, rfl⟩

end

end TraxJourney.Track.Device
