/-
  File:      Track/Smoothing.lean
  Subject:   What the smoothing of a recorded track averages (`_smooth_elevations`), in exact arithmetic.

  * **`smoothElevations_windows`** -- every series is smoothed, between the bounds of its elevations; one
    of at least three samples, whose distances never go back, to the means of its windows.
-/
import TraxJourney.Lib.ListSlices
import TraxJourney.Track.DeviceGain

namespace TraxJourney.Track

open Lib

variable {K : Type} [Field K] [LinearOrder K]

/-- The mean over the samples within half a window's width of a place. -/
def meanWithin (half : K) (distances elevations : List K) (here : K) : K :=
  mean (((distances.zip elevations).filter fun s => decide (|s.1 - here| ≤ half)).map Prod.snd)

variable {root : K → K} {distances elevations : List K} {half here : K} {i lo hi : ℕ} {w : Window K}

/-! ## 1. One turn -/

/-- The two ends for the sample `i`, and before it: they move on just as far as they have to. -/
structure Turned (distances : List K) (half : K) (i : ℕ) (here : K) (lo hi lo' hi' : ℕ) : Prop where
  from_lo : lo ≤ lo'
  lo_le : lo' ≤ i
  le_hi : i ≤ hi'
  hi_lt : hi' < distances.length
  left : ∀ k x, lo ≤ k → k < lo' → distances[k]? = some x → half < here - x
  first : ∀ x, distances[lo']? = some x → here - x ≤ half
  right : ∀ k x, hi < k → k ≤ hi' → distances[k]? = some x → x - here ≤ half
  beyond : ∀ x, distances[hi' + 1]? = some x → half < x - here

variable (root) in
theorem advanceLo_turned (hhere : distances[i]? = some here) (hhalf : 0 ≤ half) (fuel : ℕ)
    (hlo : lo ≤ i) (hfuel : i - lo < fuel) :
    ∃ lo', advanceLo (exact K root) distances half i fuel lo = some lo' ∧ lo ≤ lo' ∧ lo' ≤ i ∧
      (∀ k x, lo ≤ k → k < lo' → distances[k]? = some x → half < here - x) ∧
      ∀ x, distances[lo']? = some x → here - x ≤ half := by
  have hlen := (List.getElem?_eq_some_iff.mp hhere).1
  induction fuel generalizing lo with
  | zero => omega
  | succ fuel ih =>
    have hat : distances[lo]? = some distances[lo] := List.getElem?_eq_getElem (by omega)
    rw [advanceLo, hhere, hat]
    simp only [Option.bind_eq_bind, Option.bind_some]
    by_cases hout : half < here - distances[lo]
    · have hbefore : lo ≠ i := by
        intro heq
        subst heq
        rw [Option.some.inj (hat.symm.trans hhere), sub_self] at hout
        exact absurd hhalf (not_le.mpr hout)
      obtain ⟨lo', hrun, hle, hi, hleft, hfirst⟩ := @ih (lo + 1) (by omega) (by omega)
      refine ⟨lo', (if_pos (decide_eq_true hout)).trans hrun, by omega, hi, ?_, hfirst⟩
      intro k x hk hk' hx
      rcases Nat.eq_or_lt_of_le hk with rfl | hlt
      · rwa [← Option.some.inj (hat.symm.trans hx)]
      · exact hleft k x hlt hk' hx
    · refine ⟨lo, if_neg fun h => hout (of_decide_eq_true h), le_rfl, hlo, ?_, ?_⟩
      · intro k x hk hk'
        omega
      · intro x hx
        rw [← Option.some.inj (hat.symm.trans hx)]
        exact not_lt.mp hout

theorem advanceHi_turned (hhere : distances[i]? = some here) {fuel hi' : ℕ}
    (hhi : hi < distances.length) (hfuel : distances.length ≤ hi + 1 + fuel)
    (hrun : advanceHi (exact K root) distances half i fuel hi = hi') :
    hi ≤ hi' ∧ hi' < distances.length ∧ (∀ k x, hi < k → k ≤ hi' → distances[k]? = some x → x - here ≤ half) ∧
      ∀ x, distances[hi' + 1]? = some x → half < x - here := by
  induction fuel generalizing hi with
  | zero =>
    subst hrun
    refine ⟨le_rfl, hhi, fun k x hk hk' => ?_, fun x hx => ?_⟩
    · change k ≤ hi at hk'
      omega
    · have hlt : hi + 1 < distances.length := (List.getElem?_eq_some_iff.mp hx).1
      omega
  | succ fuel ih =>
    rw [advanceHi, hhere] at hrun
    cases hnext : distances[hi + 1]? with
    | none =>
      rw [hnext] at hrun
      subst hrun
      refine ⟨le_rfl, hhi, fun k x hk hk' => absurd hk (Nat.not_lt.mpr hk'), fun x hx => ?_⟩
      rw [hnext] at hx
      cases hx
    | some high =>
      rw [hnext] at hrun
      by_cases hin : high - here ≤ half
      · replace hrun := (if_pos (decide_eq_true hin)).symm.trans hrun
        have hlt : hi + 1 < distances.length := (List.getElem?_eq_some_iff.mp hnext).1
        obtain ⟨hle, hlast, hright, hbeyond⟩ := ih hlt (by omega) hrun
        refine ⟨by omega, hlast, fun k x hk hk' hx => ?_, hbeyond⟩
        rcases Nat.eq_or_lt_of_le (Nat.succ_le_of_lt hk) with heq | hgt
        · rw [← heq, Nat.succ_eq_add_one, hnext] at hx
          rwa [← Option.some.inj hx]
        · exact hright k x hgt hk' hx
      · replace hrun := (if_neg fun h => hin (of_decide_eq_true h)).symm.trans hrun
        subst hrun
        refine ⟨le_rfl, hhi, fun k x hk hk' => absurd hk (Nat.not_lt.mpr hk'), fun x hx => ?_⟩
        rw [hnext] at hx
        rw [← Option.some.inj hx]
        exact not_le.mp hin

variable [IsStrictOrderedRing K]

/-- The window over some stretches, one for each sample so far. -/
def windowOver (stretches : List (ℕ × ℕ)) (lo hi : ℕ) (elevations : List K) : Window K :=
  { lo := lo, hi := hi, out := stretches.map fun s => mean (slice elevations s.1 s.2)
    totalWidth := (stretches.map fun s => (s.2 : ℤ) - s.1).sum }

omit [IsStrictOrderedRing K] in
theorem prefixSums_exact {k : ℕ} (hk : k ≤ elevations.length) :
    (prefixSums (exact K root) elevations)[k]? = some (elevations.take k).sum := by
  have hzero : (exact K root).literal 0 = (0 : K) := Rat.cast_zero
  have hsums := getElem?_scanl_add (0 : K) hk
  rw [zero_add] at hsums
  rw [prefixSums, hzero]
  exact hsums

variable (root) in
theorem windowStep_turned (stretches : List (ℕ × ℕ)) (hhere : distances[i]? = some here)
    (hhalf : 0 ≤ half) (hlo : lo ≤ i) (hreach : i ≤ hi + 1) (hhi : hi < distances.length) :
    ∃ lo' hi', Turned distances half i here lo hi lo' hi' ∧
      ∀ elevations : List K, elevations.length = distances.length →
        windowStep (exact K root) distances (prefixSums (exact K root) elevations) half
            (windowOver stretches lo hi elevations) i =
          some (windowOver (stretches ++ [(lo', hi' + 1)]) lo' hi' elevations) := by
  have hlt : i < distances.length := (List.getElem?_eq_some_iff.mp hhere).1
  obtain ⟨lo', hrun, hfrom, hle, hleft, hfirst⟩ :=
    advanceLo_turned root hhere hhalf (distances.length + 1) hlo (by omega)
  generalize hend : advanceHi (exact K root) distances half i distances.length hi = hi'
  obtain ⟨hge, hlast, hright, hbeyond⟩ := advanceHi_turned hhere hhi (by omega) hend
  -- the sample itself is within the window, so that the high end is not left before it
  have hself : i ≤ hi' := by
    rcases Nat.lt_or_ge hi' i with hbefore | hnot
    · have heq : i = hi' + 1 := by omega
      subst heq
      have hout := hbeyond here hhere
      rw [sub_self] at hout
      exact absurd hhalf (not_le.mpr hout)
    · exact hnot
  refine ⟨lo', hi', ⟨hfrom, hle, hself, hlast, hleft, hfirst, hright, hbeyond⟩, fun elevations hlen => ?_⟩
  have hwidth : ((hi' : ℤ) + 1 - lo' : ℤ) = ((slice elevations lo' (hi' + 1)).length : ℤ) := by
    rw [length_slice (by omega)]
    omega
  have hmean : (exact K root).sub (elevations.take (hi' + 1)).sum (elevations.take lo').sum /
      (exact K root).ofInt ((hi' : ℤ) + 1 - lo') = mean (slice elevations lo' (hi' + 1)) := by
    rw [hwidth, mean, ← sum_take_sub elevations (by omega : lo' ≤ hi' + 1)]
    show _ / ((((slice elevations lo' (hi' + 1)).length : ℕ) : ℤ) : K) = _
    rw [Int.cast_natCast]
    rfl
  unfold windowStep windowOver
  dsimp only
  rw [hrun, hend]
  simp only [Option.bind_eq_bind, Option.bind_some]
  rw [prefixSums_exact (by omega), prefixSums_exact (by omega), Option.bind_some, Option.bind_some,
    Device.div_exact (Device.ofInt_exact_ne_zero (by omega)), Option.bind_some, hmean, List.map_append,
    List.map_append, List.sum_append]
  simp

/-! ## 2. The loop -/

/-- The two ends, where the distances never go back: what they have passed stays outside for every later
    sample, and what they have reached stays within on its side. -/
structure Passed (distances : List K) (half : K) (i lo hi : ℕ) : Prop where
  left : ∀ j k x y, i ≤ j → k < lo → distances[k]? = some x → distances[j]? = some y → half < y - x
  right : ∀ j k x y, i ≤ j → k ≤ hi → distances[k]? = some x → distances[j]? = some y → x - y ≤ half

theorem Passed.turned {lo' hi' : ℕ} (hsorted : distances.Pairwise (· ≤ ·))
    (hhere : distances[i]? = some here) (h : Passed distances half i lo hi)
    (hturned : Turned distances half i here lo hi lo' hi') : Passed distances half i lo' hi' := by
  constructor
  · intro j k x y hj hk hx hy
    rcases Nat.lt_or_ge k lo with hold | hnew
    · exact h.left j k x y hj hold hx hy
    · have hle := le_of_sorted hsorted hj hhere hy
      have hout := hturned.left k x hnew hk hx
      linarith
  · intro j k x y hj hk hx hy
    rcases Nat.lt_or_ge hi k with hnew | hold
    · have hle := le_of_sorted hsorted hj hhere hy
      have hin := hturned.right k x hnew hk hx
      linarith
    · exact h.right j k x y hj hold hx hy

/-- A stretch holds the samples within the window, and no others. -/
def Within (distances : List K) (half here : K) (s : ℕ × ℕ) : Prop :=
  ∀ (k : ℕ) (x : K), distances[k]? = some x → (|x - here| ≤ half ↔ s.1 ≤ k ∧ k < s.2)

theorem Passed.within {lo' hi' : ℕ} (hsorted : distances.Pairwise (· ≤ ·))
    (hhere : distances[i]? = some here) (h : Passed distances half i lo' hi')
    (hturned : Turned distances half i here lo hi lo' hi') :
    Within distances half here (lo', hi' + 1) := by
  intro k x hx
  rw [abs_le]
  constructor
  · intro ⟨hlow, hhigh⟩
    refine ⟨not_lt.mp fun hbefore => ?_, not_le.mp fun hpast => ?_⟩
    · have hout := h.left i k _ _ le_rfl hbefore hx hhere
      linarith
    · -- the first sample beyond is already too far away
      have hlt : hi' + 1 < distances.length := hpast.trans_lt (List.getElem?_eq_some_iff.mp hx).1
      have hnext := List.getElem?_eq_getElem hlt
      have hout := hturned.beyond _ hnext
      have hle := le_of_sorted hsorted hpast hnext hx
      linarith
  · intro ⟨hge, hlt⟩
    have hlo : lo' < distances.length := hturned.lo_le.trans_lt (hturned.le_hi.trans_lt hturned.hi_lt)
    have hfirst := List.getElem?_eq_getElem hlo
    have hle := le_of_sorted hsorted hge hfirst hx
    have hin := hturned.first _ hfirst
    have hright := h.right i k _ _ le_rfl (Nat.le_of_lt_succ hlt) hx hhere
    exact ⟨by linarith, hright⟩

/-- The stretches of the first samples, and the two ends after them. -/
structure Stretches (distances : List K) (half : K) (n : ℕ) (stretches : List (ℕ × ℕ)) (lo hi : ℕ) :
    Prop where
  length : stretches.length = n
  inside : ∀ s ∈ stretches, s.1 < s.2 ∧ s.2 ≤ distances.length
  lo_le : lo ≤ n
  le_hi : n ≤ hi + 1
  hi_lt : hi < distances.length
  passed : distances.Pairwise (· ≤ ·) → Passed distances half n lo hi
  within : distances.Pairwise (· ≤ ·) → ∀ (k : ℕ) (here : K) (s : ℕ × ℕ),
    distances[k]? = some here → stretches[k]? = some s → Within distances half here s

theorem Stretches.start (hne : distances ≠ []) (hhalf : 0 ≤ half) : Stretches distances half 0 [] 0 0 := by
  refine ⟨rfl, fun s hs => absurd hs List.not_mem_nil, le_rfl, Nat.zero_le _,
    List.length_pos_iff.mpr hne, fun hsorted => ?_, fun _ k here s _ hs => by cases hs⟩
  refine ⟨fun j k x y _ hk => absurd hk (Nat.not_lt_zero k), fun j k x y _ hk hx hy => ?_⟩
  have hle := le_of_sorted hsorted (hk.trans (Nat.zero_le j)) hx hy
  linarith

variable {stretches : List (ℕ × ℕ)}

theorem Stretches.turned {n lo' hi' : ℕ} (h : Stretches distances half n stretches lo hi)
    (hhere : distances[n]? = some here) (hturned : Turned distances half n here lo hi lo' hi') :
    Stretches distances half (n + 1) (stretches ++ [(lo', hi' + 1)]) lo' hi' := by
  have hpassed : distances.Pairwise (· ≤ ·) → Passed distances half n lo' hi' := fun hsorted =>
    (h.passed hsorted).turned hsorted hhere hturned
  refine ⟨by rw [List.length_append, h.length]; rfl, fun s hs => ?_, Nat.le_succ_of_le hturned.lo_le,
    Nat.succ_le_succ hturned.le_hi, hturned.hi_lt, fun hsorted => ?_, ?_⟩
  · rcases List.mem_append.mp hs with hold | hnew
    · exact h.inside s hold
    · rw [List.mem_singleton.mp hnew]
      exact ⟨Nat.lt_succ_of_le (hturned.lo_le.trans hturned.le_hi), hturned.hi_lt⟩
  · exact ⟨fun j k x y hj => (hpassed hsorted).left j k x y (Nat.le_of_succ_le hj),
      fun j k x y hj => (hpassed hsorted).right j k x y (Nat.le_of_succ_le hj)⟩
  · intro hsorted k there s hthere hs
    rcases Nat.lt_or_ge k stretches.length with hold | hnew
    · rw [List.getElem?_append_left hold] at hs
      exact h.within hsorted k there s hthere hs
    · rw [List.getElem?_append_right hnew, List.getElem?_singleton] at hs
      split at hs
      case isTrue hlast =>
        obtain rfl : k = n := by rw [← h.length]; omega
        cases hs
        cases hhere.symm.trans hthere
        exact (hpassed hsorted).within hsorted hhere hturned
      case isFalse => cases hs

theorem windows_stretches (root : K → K) (hne : distances ≠ []) (hhalf : 0 ≤ half) :
    ∃ stretches lo hi, Stretches distances half distances.length stretches lo hi ∧
      ∀ elevations : List K, elevations.length = distances.length →
        windows (exact K root) distances (prefixSums (exact K root) elevations) half =
          some (windowOver stretches lo hi elevations) := by
  have hrun : ∀ n, n ≤ distances.length → ∃ stretches lo hi, Stretches distances half n stretches lo hi ∧
        ∀ elevations : List K, elevations.length = distances.length → (List.range n).foldlM
            (windowStep (exact K root) distances (prefixSums (exact K root) elevations) half)
            { lo := 0, hi := 0, out := [], totalWidth := 0 } =
              some (windowOver stretches lo hi elevations) := by
    intro n
    induction n with
    | zero => exact fun _ => ⟨[], 0, 0, .start hne hhalf, fun _ _ => rfl⟩
    | succ n ih =>
      intro hn
      obtain ⟨stretches, lo, hi, hstretches, hw⟩ := ih (Nat.le_of_succ_le hn)
      have hhere : distances[n]? = some distances[n] := List.getElem?_eq_getElem hn
      obtain ⟨lo', hi', hturned, hw'⟩ := windowStep_turned root stretches
        hhere hhalf hstretches.lo_le hstretches.le_hi hstretches.hi_lt
      refine ⟨_, lo', hi', hstretches.turned hhere hturned, fun elevations hlen => ?_⟩
      rw [List.range_succ, List.foldlM_append, hw elevations hlen]
      show (List.foldlM _ _ [n]) = some _
      rw [List.foldlM_cons, hw' elevations hlen]
      rfl
  exact hrun _ le_rfl

theorem Stretches.between {n : ℕ} {stretches : List (ℕ × ℕ)} {least most s : K}
    (h : Stretches distances half n stretches lo hi) (hlen : elevations.length = distances.length)
    (hall : ∀ e ∈ elevations, least ≤ e ∧ e ≤ most)
    (hs : s ∈ (windowOver stretches lo hi elevations).out) : least ≤ s ∧ s ≤ most := by
  obtain ⟨stretch, hmem, rfl⟩ := List.mem_map.mp hs
  obtain ⟨hlt, hle⟩ := h.inside stretch hmem
  have hslice : slice elevations stretch.1 stretch.2 ≠ [] := by
    refine List.ne_nil_of_length_pos ?_
    rw [length_slice (hlen ▸ hle)]
    omega
  exact mean_between hslice fun e he => hall e (mem_of_mem_slice he)

omit [IsStrictOrderedRing K] in
theorem Stretches.means (h : Stretches distances half distances.length stretches lo hi)
    (hlen : elevations.length = distances.length) (hsorted : distances.Pairwise (· ≤ ·)) :
    (windowOver stretches lo hi elevations).out = distances.map (meanWithin half distances elevations) := by
  refine List.ext_getElem? fun k => ?_
  rw [windowOver, List.getElem?_map, List.getElem?_map]
  rcases Nat.lt_or_ge k distances.length with hlt | hge
  · have hhere := List.getElem?_eq_getElem hlt
    have hs := List.getElem?_eq_getElem (h.length.symm ▸ hlt)
    have hwithin := h.within hsorted k _ _ hhere hs
    obtain ⟨hle, -⟩ := h.inside _ (List.mem_of_getElem? hs)
    have hpick : (distances.zip elevations).filter (fun s => decide (|s.1 - distances[k]| ≤ half)) =
        slice (distances.zip elevations) _ _ :=
      filter_eq_slice hle.le fun j s hj =>
        decide_eq_true_iff.trans (hwithin j s.1 (List.getElem?_zip_eq_some.mp hj).1)
    rw [hhere, hs, Option.map_some, Option.map_some, meanWithin, hpick, map_slice, List.map_snd_zip hlen.le]
  · rw [List.getElem?_eq_none hge, List.getElem?_eq_none (h.length.symm ▸ hge)]
    rfl

/-! ## 3. The series -/

omit [IsStrictOrderedRing K] in
theorem smoothElevations_loop {mean sigma : K} {stride : ℤ} (hmany : 3 ≤ distances.length)
    (hlen : elevations.length = distances.length)
    (hhalf : halfWidth (exact K root) (differences (exact K root) 1 distances) sigma stride = some half)
    (hw : windows (exact K root) distances (prefixSums (exact K root) elevations) half = some w)
    (hmean : (exact K root).div ((exact K root).ofInt w.totalWidth)
      ((exact K root).ofInt elevations.length) = some mean) :
    smoothElevations (exact K root) elevations (some distances) sigma stride = some (w.out, mean) := by
  have hne : distances.isEmpty = false := List.isEmpty_eq_false_iff.mpr (List.ne_nil_of_length_pos (by omega))
  unfold smoothElevations
  dsimp only
  rw [hne, if_neg (by simp; omega)]
  simp only [Option.bind_eq_bind]
  rw [hhalf, Option.bind_some, hw, Option.bind_some, hmean]
  rfl

variable (root) in
omit [IsStrictOrderedRing K] in
theorem gaps_ne_nil (hmany : 3 ≤ distances.length) : differences (exact K root) 1 distances ≠ [] := by
  refine List.ne_nil_of_length_pos ?_
  rw [differences, List.length_zipWith, List.length_drop]
  omega

variable (root) in
omit [IsStrictOrderedRing K] in
theorem smoothElevations_cases (elevations : List K) (distances : Option (List K)) (sigma : K) (stride : ℤ) :
    (smoothElevations (exact K root) elevations distances sigma stride =
        some (elevations, (exact K root).literal 1) ∧
      ∀ ds, distances = some ds → ds.length = elevations.length → ds.length < 3) ∨
      ∃ ds, distances = some ds ∧ ds.length = elevations.length ∧ 3 ≤ ds.length := by
  cases distances with
  | none => exact .inl ⟨rfl, fun ds hds => by cases hds⟩
  | some ds =>
    by_cases hlen : ds.length = elevations.length ∧ 3 ≤ ds.length
    · exact .inr ⟨ds, rfl, hlen⟩
    · refine .inl ⟨?_, fun ds' hds hlen' => ?_⟩
      · unfold smoothElevations
        dsimp only
        refine if_pos ?_
        by_contra hneither
        simp only [not_or, not_not] at hneither
        exact hlen ⟨hneither.2.2, by omega⟩
      · cases hds
        omega

/-- **The means of the windows.** -/
theorem smoothElevations_windows (elevations : List K) (distances : Option (List K)) (sigma : K)
    (stride : ℤ) :
    ∃ smoothed window,
      smoothElevations (exact K root) elevations distances sigma stride = some (smoothed, window) ∧
      smoothed.length = elevations.length ∧
      (∀ least most, (∀ e ∈ elevations, least ≤ e ∧ e ≤ most) → ∀ s ∈ smoothed, least ≤ s ∧ s ≤ most) ∧
      ∀ ds, distances = some ds → ds.length = elevations.length → ds.Pairwise (· ≤ ·) →
        if ds.length < 3 then smoothed = elevations
        else ∃ half, halfWidth (exact K root) (differences (exact K root) 1 ds) sigma stride = some half ∧
          smoothed = ds.map (meanWithin half ds elevations) := by
  rcases smoothElevations_cases root elevations distances sigma stride with
    ⟨hsame, hfew⟩ | ⟨ds, rfl, hlen, hmany⟩
  · refine ⟨elevations, _, hsame, rfl, fun _ _ hall => hall, fun ds hds hlen _ => ?_⟩
    rw [if_pos (hfew ds hds hlen)]
  · have hne : ds ≠ [] := List.ne_nil_of_length_pos (by omega)
    obtain ⟨half, hhalf, hpos⟩ := @Device.halfWidth_exact K _ _ _ root _ (gaps_ne_nil root hmany) sigma stride
    obtain ⟨stretches, lo, hi, hstretches, hw⟩ := windows_stretches root hne hpos
    have hloop := smoothElevations_loop hmany hlen.symm hhalf (hw elevations hlen.symm)
      (Device.div_exact (Device.ofInt_exact_ne_zero (by omega)))
    refine ⟨_, _, hloop, ?_, fun least most hall s => hstretches.between hlen.symm hall,
      fun ds' hds _ hsorted => ?_⟩
    · rw [windowOver, List.length_map, hstretches.length, hlen]
    · cases hds
      rw [if_neg (Nat.not_lt.mpr hmany)]
      exact ⟨half, hhalf, hstretches.means hlen.symm hsorted⟩

/-- A peak ten metres from the samples beside it: none of the means is above it. -/
theorem smoothElevations_peak : ∃ smoothed window half,
      smoothElevations (exact ℚ id) [0, 9, 0] (some [0, 1 / 100, 2 / 100]) 0 1 = some (smoothed, window) ∧
      smoothed = [0, 1 / 100, 2 / 100].map (meanWithin half [0, 1 / 100, 2 / 100] [0, 9, 0]) ∧
      ∀ s ∈ smoothed, 0 ≤ s ∧ s ≤ 9 := by
  obtain ⟨smoothed, window, hsmoothed, -, hbetween, hmeans⟩ :=
    @smoothElevations_windows ℚ _ _ id _ [0, 9, 0] (some [0, 1 / 100, 2 / 100]) 0 1
  have hsorted : [(0 : ℚ), 1 / 100, 2 / 100].Pairwise (· ≤ ·) := by decide +kernel
  have hwindows := hmeans [0, 1 / 100, 2 / 100] rfl rfl hsorted
  rw [if_neg (by decide)] at hwindows
  obtain ⟨half, -, hout⟩ := hwindows
  exact ⟨smoothed, window, half, hsmoothed, hout, hbetween 0 9 (by decide +kernel)⟩

/-- Two samples are not averaged, although both are within the window of each. -/
theorem smoothElevations_two : (smoothElevations (exact ℚ id) [0, 10] (some [0, 1 / 100]) 0 1).any
        (fun r => decide (r.1 = [0, 10])) = true ∧
      halfWidth (exact ℚ id) (differences (exact ℚ id) 1 [0, 1 / 100]) 0 1 = some (3 / 100) ∧
      meanWithin (3 / 100) [0, 1 / 100] [0, 10] (0 : ℚ) = 5 := by
  decide +kernel

end TraxJourney.Track
