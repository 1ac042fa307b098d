/-
  File:      Track/Readings.lean
  Subject:   The climb of a series of plausible readings is always there: nothing that `elevation_gain`
             does on one raises, whatever the distances are.

  * **`elevationGain_readings`** -- the climb is there.
-/
import TraxJourney.Track.ElevationGain

namespace TraxJourney.Track

open Lib

/-! ## 1. The stride -/

section

variable {α : Type} (A : Arithmetic α)

theorem one_le_strideFrom (counts : List ℕ) (runs n : ℕ) {stride : ℕ} (h : 1 ≤ stride) (seen : ℕ) :
    1 ≤ strideFrom counts runs n stride seen := by
  induction n generalizing stride seen with
  | zero => exact (by decide : 1 ≤ noiseMaxRunStride)
  | succ n ih =>
    rw [strideFrom]
    split
    · exact h
    · exact ih (by omega) _

theorem one_le_runStride (xs : List α) : 1 ≤ runStride A xs := one_le_strideFrom _ _ _ le_rfl _

theorem runStride_ne_zero (xs : List α) : (runStride A xs : ℤ) ≠ 0 := by
  have hone := one_le_runStride A xs
  omega

/-! ## 2. The windows -/

variable {distances : List α} {half : α}

theorem advanceLo_some {i lo fuel : ℕ} (hi : i < distances.length)
    (hstop : ∀ x, distances[i]? = some x → A.lt half (A.sub x x) = false) (hlo : lo ≤ i)
    (hfuel : i - lo < fuel) :
    ∃ lo', advanceLo A distances half i fuel lo = some lo' ∧ lo' ≤ i := by
  induction fuel generalizing lo with
  | zero => omega
  | succ fuel ih =>
    rw [advanceLo, List.getElem?_eq_getElem hi, List.getElem?_eq_getElem (by omega)]
    simp only [Option.bind_eq_bind, Option.bind_some]
    rcases Nat.lt_or_ge lo i with hlt | hge
    · split
      · exact ih (by omega) (by omega)
      · exact ⟨lo, rfl, hlo⟩
    · -- the sample itself is not out of the window
      have heq : lo = i := by omega
      subst heq
      have hself := hstop _ (List.getElem?_eq_getElem hi)
      rw [hself]
      exact ⟨lo, rfl, le_rfl⟩

theorem advanceHi_spec {i hi fuel : ℕ} (hlen : i < distances.length)
    (hnext : ∀ x, distances[i]? = some x → A.le (A.sub x x) half = true) (hhi : hi < distances.length)
    (hreach : i ≤ hi + 1) (hfuel : 0 < fuel) :
    i ≤ advanceHi A distances half i fuel hi ∧ advanceHi A distances half i fuel hi < distances.length := by
  have hkeeps : ∀ (fuel hi : ℕ), hi < distances.length → hi ≤ advanceHi A distances half i fuel hi ∧
        advanceHi A distances half i fuel hi < distances.length := by
    intro fuel
    induction fuel with
    | zero => exact fun hi hhi => ⟨le_rfl, hhi⟩
    | succ fuel ih =>
      intro hi hhi
      rw [advanceHi]
      split
      · rename_i high here hhigh _
        split
        · have hnext : hi + 1 < distances.length := (List.getElem?_eq_some_iff.mp hhigh).1
          obtain ⟨hle, hlt⟩ := ih (hi + 1) hnext
          exact ⟨by omega, hlt⟩
        · exact ⟨le_rfl, hhi⟩
      · exact ⟨le_rfl, hhi⟩
  obtain ⟨hle, hlt⟩ := hkeeps fuel hi hhi
  refine ⟨?_, hlt⟩
  rcases Nat.lt_or_ge hi i with hbefore | hpast
  · have heq : hi + 1 = i := by omega
    obtain ⟨fuel', rfl⟩ := Nat.exists_eq_succ_of_ne_zero (by omega : fuel ≠ 0)
    have hself := hnext _ (List.getElem?_eq_getElem hlen)
    rw [advanceHi, heq, List.getElem?_eq_getElem hlen]
    dsimp only
    rw [hself, if_pos rfl]
    exact (hkeeps fuel' i hlen).1
  · omega

/-- The window around the samples before `i`. -/
structure WindowAt (distances : List α) (w : Window α) (i : ℕ) : Prop where
  lo : w.lo ≤ i
  hi : w.hi < distances.length
  reach : i ≤ w.hi + 1
  out : w.out.length = i

theorem windowStep_some {sums : List α} {w : Window α} {i : ℕ} (hi : i < distances.length)
    (hsums : sums.length = distances.length + 1)
    (hstop : ∀ x, distances[i]? = some x → A.lt half (A.sub x x) = false)
    (hnext : ∀ x, distances[i]? = some x → A.le (A.sub x x) half = true)
    (hdiv : ∀ x (width : ℤ), 1 ≤ width → (A.div x (A.ofInt width)).isSome = true)
    (h : WindowAt distances w i) :
    ∃ w', windowStep A distances sums half w i = some w' ∧ WindowAt distances w' (i + 1) := by
  have hturns : i - w.lo < distances.length + 1 := by omega
  have hsome : 0 < distances.length := by omega
  obtain ⟨lo, hlo, hle⟩ := advanceLo_some A hi hstop h.lo hturns
  obtain ⟨hreach, hlast⟩ := advanceHi_spec A hi hnext h.hi h.reach hsome
  unfold windowStep
  rw [hlo]
  simp only [Option.bind_eq_bind, Option.bind_some]
  generalize advanceHi A distances half i distances.length w.hi = high at hreach hlast
  rw [List.getElem?_eq_getElem (by omega), List.getElem?_eq_getElem (by omega)]
  simp only [Option.bind_some]
  obtain ⟨mean, hmean⟩ := Option.isSome_iff_exists.mp
    (hdiv (A.sub sums[high + 1] sums[lo]) ((high : ℤ) + 1 - lo) (by omega))
  rw [hmean]
  exact ⟨_, rfl, by show lo ≤ i + 1; omega, hlast, by show i + 1 ≤ high + 1; omega,
    by show (w.out ++ [mean]).length = i + 1; rw [List.length_append, h.out]; rfl⟩

theorem windows_some {sums : List α} (hne : distances ≠ []) (hsums : sums.length = distances.length + 1)
    (hstop : ∀ x ∈ distances, A.lt half (A.sub x x) = false)
    (hnext : ∀ x ∈ distances, A.le (A.sub x x) half = true)
    (hdiv : ∀ x (width : ℤ), 1 ≤ width → (A.div x (A.ofInt width)).isSome = true) :
    ∃ w, windows A distances sums half = some w ∧ w.out.length = distances.length := by
  have hrun : ∀ n, n ≤ distances.length → ∃ w, (List.range n).foldlM (windowStep A distances sums half)
        { lo := 0, hi := 0, out := [], totalWidth := 0 } = some w ∧ WindowAt distances w n := by
    intro n
    induction n with
    | zero => exact fun _ => ⟨_, rfl, le_rfl, List.length_pos_iff.mpr hne, Nat.zero_le _, rfl⟩
    | succ n ih =>
      intro hn
      obtain ⟨w, hw, hat⟩ := ih (by omega)
      obtain ⟨w', hw', hat'⟩ := windowStep_some A (w := w) (by omega) hsums
        (fun x hx => hstop x (List.mem_of_getElem? hx))
        (fun x hx => hnext x (List.mem_of_getElem? hx)) hdiv hat
      refine ⟨w', ?_, hat'⟩
      rw [List.range_succ, List.foldlM_append, hw]
      show (List.foldlM _ w [n]) = some w'
      rw [List.foldlM_cons, hw']
      rfl
  obtain ⟨w, hw, hat⟩ := hrun _ le_rfl
  exact ⟨w, hw, hat.out⟩

theorem length_prefixSums (xs : List α) : (prefixSums A xs).length = xs.length + 1 := by
  rw [prefixSums, List.length_scanl]

/-! ## 3. The middle of what is sorted -/

theorem length_sorted (xs : List α) : (A.sorted xs).length = xs.length := List.length_mergeSort _

variable {xs : List α}

theorem mem_sorted {x : α} : x ∈ A.sorted xs ↔ x ∈ xs := List.mem_mergeSort

theorem middle_some (h : xs ≠ []) : ∃ x ∈ xs, (A.sorted xs)[(A.sorted xs).length / 2]? = some x := by
  have hpos : 0 < (A.sorted xs).length := (length_sorted A xs).symm ▸ List.length_pos_iff.mpr h
  have hlt : (A.sorted xs).length / 2 < (A.sorted xs).length := Nat.div_lt_self hpos (by decide)
  exact ⟨_, (mem_sorted A).mp (List.getElem_mem hlt), List.getElem?_eq_getElem hlt⟩

theorem everyNth_ne_nil {step : ℕ} (hstep : 0 < step) (h : xs ≠ []) :
    everyNth step xs ≠ [] := by
  obtain ⟨x, rest, rfl⟩ := List.exists_cons_of_ne_nil h
  have hfirst : 0 < ((x :: rest).length + step - 1) / step :=
    Nat.div_pos (by rw [List.length_cons]; omega) hstep
  refine List.ne_nil_of_mem (a := x) (List.mem_filterMap.mpr ⟨0, List.mem_range.mpr hfirst, ?_⟩)
  rw [Nat.zero_mul]
  rfl

theorem mem_of_everyNth {step : ℕ} {x : α} (h : x ∈ everyNth step xs) : x ∈ xs := by
  obtain ⟨k, -, hk⟩ := List.mem_filterMap.mp h
  exact List.mem_of_getElem? hk

theorem mem_differences {stride : ℕ} {d : α} (h : d ∈ differences A stride xs) :
    ∃ a ∈ xs, ∃ b ∈ xs, d = A.sub b a := by
  unfold differences at h
  rw [← List.map_uncurry_zip_eq_zipWith] at h
  obtain ⟨⟨a, b⟩, hab, rfl⟩ := List.mem_map.mp h
  obtain ⟨ha, hb⟩ := List.of_mem_zip hab
  exact ⟨a, ha, b, List.mem_of_mem_drop hb, rfl⟩

theorem medianMagnitude_some (h : xs ≠ []) :
    ∃ x ∈ xs, medianMagnitude A xs = some (A.abs x) := by
  have hne : (everyNth (1 + xs.length / noiseMedianSampleCap) xs).map A.abs ≠ [] :=
    mt List.map_eq_nil_iff.mp (everyNth_ne_nil (Nat.add_pos_left Nat.one_pos _) h)
  obtain ⟨y, hy, hmiddle⟩ := middle_some A hne
  obtain ⟨x, hx, rfl⟩ := List.mem_map.mp hy
  exact ⟨x, mem_of_everyNth hx, hmiddle⟩

end

/-! ## 4. The noise of readings -/

/-- The bound on the differences of one order: that of readings, sixteen times for each order. -/
def orderBound (order : ℕ) : ℚ := 20000 * 16 ^ order

theorem one_le_orderBound (order : ℕ) : 1 ≤ orderBound order := by
  have hpow : (1 : ℚ) ≤ 16 ^ order := one_le_pow₀ (by norm_num)
  unfold orderBound
  linarith

theorem orderBound_le {order : ℕ} (h : order ≤ 5) : orderBound order ≤ 2 ^ 40 := by
  have hpow : (16 : ℚ) ^ order ≤ 16 ^ 5 := pow_le_pow_right₀ (by norm_num) h
  unfold orderBound
  calc (20000 : ℚ) * 16 ^ order ≤ 20000 * 16 ^ 5 := by linarith
    _ ≤ 2 ^ 40 := by norm_num

theorem Below.mono {a b : ℚ} {x : Number} (h : Below a x) (hab : a ≤ b) : Below b x := by
  obtain ⟨q, hq, hle⟩ := h
  exact ⟨q, hq, hle.trans hab⟩

theorem differences_below {order stride : ℕ} (horder : order < 5) {xs : List Number}
    (h : ∀ x ∈ xs, Below (orderBound order) x) :
    ∀ d ∈ differences doubles stride xs, Below (orderBound (order + 1)) d := by
  intro d hd
  obtain ⟨a, ha, b, hb, rfl⟩ := mem_differences doubles hd
  have hone := one_le_orderBound order
  have hle := orderBound_le horder.le
  have hnext : orderBound (order + 1) = 16 * orderBound order := by
    unfold orderBound
    ring
  exact Below.mono (below_sub (by linarith) (by linarith) (h b hb) (h a ha)) (by linarith)

theorem noiseDifferenceScale_below {order : ℕ} (h : order ∈ noiseDifferenceOrders) :
    ∃ d, noiseDifferenceScale doubles order = some (.float d) ∧ Below 1 (.float d) := by
  have hall : ∀ order ∈ noiseDifferenceOrders, (noiseDifferenceScale doubles order).any (fun x =>
      match x with
      | .float d => d.exact.any fun q => decide (|q| ≤ 1)
      | .int _ => false) = true := by decide +kernel
  obtain ⟨x, hx, hbound⟩ := (Option.any_eq_true _ _).mp (hall order h)
  cases x with
  | int n => cases hbound
  | float d =>
    obtain ⟨q, hq, hle⟩ := (Option.any_eq_true _ _).mp hbound
    exact ⟨d, hx, q, hq, of_decide_eq_true hle⟩

theorem estimateOf_below {order : ℕ} (horder : order ∈ noiseDifferenceOrders) {b : ℚ} (hb : 0 ≤ b)
    (hle : 4 * b + 4 ≤ 2 ^ 50) {xs : List Number} (hne : xs ≠ []) (hxs : ∀ x ∈ xs, Below b x)
    {estimate : Option Number} (he : ∀ e ∈ estimate, Below (2 ^ 50) e) :
    ∃ sigma, estimateOf doubles order xs estimate = some sigma ∧ Below (2 ^ 50) sigma := by
  obtain ⟨scale, hscale, hone⟩ := noiseDifferenceScale_below horder
  obtain ⟨x, hx, hmedian⟩ := medianMagnitude_some doubles hne
  have hsigma : Below (2 ^ 50) (doubles.mul (.float scale) (doubles.abs x)) :=
    Below.mono (below_mul hb (hle.trans (by norm_num)) hone (below_abs (hxs x hx))) hle
  unfold estimateOf
  rw [hscale, hmedian]
  refine ⟨_, rfl, ?_⟩
  cases estimate with
  | none => exact hsigma
  | some e =>
    show Below _ (if _ then _ else _)
    split
    · exact hsigma
    · exact he e rfl

variable {elevations : List Number}

theorem noiseEstimate_readings (h : ∀ x ∈ elevations, Below 20000 x) :
    ∃ sigma, noiseEstimate doubles elevations = some (sigma, (runStride doubles elevations : ℤ)) ∧
      Below (2 ^ 50) sigma := by
  have hloop : ∀ (orders : List ℕ) (order stride : ℕ) (xs : List Number) (estimate : Option Number),
      orders = List.range' (order + 1) (5 - order) → order ≤ 5 →
      (∀ x ∈ xs, Below (orderBound order) x) → (∀ e ∈ estimate, Below (2 ^ 50) e) →
      ∃ found, noiseLoop doubles stride orders xs estimate = some found ∧ ∀ e ∈ found, Below (2 ^ 50) e := by
    intro orders
    induction orders with
    | nil => exact fun order stride xs estimate _ _ _ he => ⟨estimate, rfl, he⟩
    | cons first orders ih =>
      intro order stride xs estimate hrange horder hxs he
      have hlt : order < 5 := by
        by_contra hge
        have hzero : 5 - order = 0 := by omega
        rw [hzero] at hrange
        cases hrange
      have hcount : 5 - order = (5 - (order + 1)) + 1 := by omega
      rw [hcount, List.range'_succ] at hrange
      obtain ⟨rfl, hrest⟩ := List.cons.inj hrange
      have hbelow : ∀ d ∈ differences doubles stride xs, Below (orderBound (order + 1)) d :=
        differences_below hlt hxs
      rw [noiseLoop]
      split
      · exact ⟨estimate, rfl, he⟩
      · rename_i hmany
        split
        · exact ih (order + 1) stride _ estimate hrest hlt hbelow he
        · rename_i hmeasured
          have hne : differences doubles stride xs ≠ [] := by
            intro hnil
            rw [hnil] at hmany
            exact hmany (by decide)
          have hone := one_le_orderBound (order + 1)
          have hbound := orderBound_le hlt
          obtain ⟨sigma, hsigma, hsmall⟩ := estimateOf_below (not_not.mp hmeasured) (by linarith)
            (by linarith : 4 * orderBound (order + 1) + 4 ≤ 2 ^ 50) hne hbelow he
          rw [hsigma, Option.bind_some]
          refine ih (order + 1) stride _ _ hrest hlt hbelow fun e hmem => ?_
          exact Option.some.inj hmem ▸ hsmall
  have hstart : ∀ x ∈ elevations, Below (orderBound 0) x := fun x hx =>
    Below.mono (h x hx) (by norm_num [orderBound])
  obtain ⟨found, hfound, hsmall⟩ := hloop (List.range' 1 5) 0 (runStride doubles elevations) elevations
    none rfl (by decide) hstart fun e h => by cases h
  refine ⟨found.getD (doubles.literal 0), ?_, ?_⟩
  · unfold noiseEstimate
    dsimp only
    rw [hfound]
    rfl
  · cases found with
    | none => exact ⟨0, by decide +kernel, by norm_num⟩
    | some e => exact hsmall e rfl

/-! ## 5. The climb of readings -/

theorem halfWidth_readings {gaps : List Number} (hgaps : gaps ≠ []) {sigma : Number}
    (hsigma : Below (2 ^ 50) sigma) (stride : ℕ) :
    ∃ half, halfWidth doubles gaps sigma stride = some half ∧ Between (2 ^ 20) half := by
  have hliterals : Double.ofRat 1 = .finite false 1 ∧ Double.ofRat 2 = .finite false 2 ∧
      Double.ofRat 60 = .finite false 60 ∧ Double.ofRat 240 = .finite false 240 ∧
      Double.ofRat 1000 = .finite false 1000 := by decide +kernel
  obtain ⟨hone, htwo, hsixty, hmax, hthousand⟩ := hliterals
  obtain ⟨medianGap, -, hmedian⟩ := middle_some doubles hgaps
  have hratio := below_div (by norm_num) (by norm_num) hsigma (le_refl (1 : ℚ))
  obtain ⟨squared, hsquared⟩ := square_of_below (by norm_num) hratio
  have hspan : ∀ wanted : Number, Between 240 (doubles.max (doubles.literal elevSmoothSpanM)
      (doubles.min (doubles.literal elevSmoothMaxSpanM) wanted)) := by
    intro wanted
    have h60 : Between 240 (.float (.ofRat 60)) := by
      rw [hsixty]
      exact ⟨60, rfl, by norm_num, by norm_num⟩
    have h240 : Between 240 (.float (.ofRat 240)) := by
      rw [hmax]
      exact ⟨240, rfl, by norm_num, le_rfl⟩
    unfold Arithmetic.max Arithmetic.min
    by_cases hsmall : doubles.lt wanted (doubles.literal elevSmoothMaxSpanM) = true
    · rw [if_pos hsmall]
      split
      · rename_i hlarge
        exact between_of_lt hsixty hmax (by norm_num) hlarge hsmall
      · exact h60
    · rw [if_neg hsmall]
      split
      · exact h240
      · exact h60
  have htarget : doubles.div sigma (doubles.literal elevSmoothTargetSigmaM) =
      some (.float (sigma.toDouble.div (.finite false 1))) := div_literal sigma hone le_rfl
  have hsquare : doubles.square (.float (sigma.toDouble.div (.finite false 1))) = some squared := hsquared
  unfold halfWidth
  simp only [Option.bind_eq_bind]
  rw [hmedian, Option.bind_some, htarget, Option.bind_some, hsquare,
    Option.bind_some, div_literal _ htwo (by norm_num), Option.bind_some, div_literal _ hthousand (by norm_num)]
  refine ⟨_, rfl, ?_⟩
  obtain ⟨q, hq, hpos, hle⟩ := between_div (by norm_num) (by norm_num)
    (between_div (c := 2) (by norm_num) (by norm_num) (hspan _) (by norm_num))
    (by norm_num : (1 : ℚ) ≤ 1000)
  exact ⟨q, hq, hpos, hle.trans (by norm_num)⟩

theorem smoothElevations_readings {distances : Option (List Number)}
    (hdistances : ∀ ds ∈ distances, ∀ d ∈ ds, d.exact.isSome = true) {sigma : Number}
    (hsigma : Below (2 ^ 50) sigma) (stride : ℕ) :
    ∃ smoothed width, smoothElevations doubles elevations distances sigma stride =
      some (smoothed, .float width) ∧ smoothed.length = elevations.length := by
  unfold smoothElevations
  cases distances with
  | none => exact ⟨elevations, _, rfl, rfl⟩
  | some ds =>
    dsimp only
    split
    · exact ⟨elevations, _, rfl, rfl⟩
    · rename_i husable
      simp only [not_or, not_not] at husable
      obtain ⟨hmany, hne, hsame⟩ := husable
      have hgaps : differences doubles 1 ds ≠ [] := by
        have hlen : (differences doubles 1 ds).length = ds.length - 1 := by
          rw [differences, List.length_zipWith, List.length_drop]
          omega
        refine List.ne_nil_of_length_pos ?_
        omega
      have hds : ds ≠ [] := by
        rintro rfl
        exact hne rfl
      obtain ⟨half, hhalf, hbetween⟩ := halfWidth_readings hgaps hsigma stride
      have hself : ∀ x ∈ ds, doubles.lt half (doubles.sub x x) = false ∧
          doubles.le (doubles.sub x x) half = true := fun x hx =>
        sub_self_le (hdistances ds rfl x hx) hbetween
      have hdiv : ∀ x (width : ℤ), 1 ≤ width → (doubles.div x (doubles.ofInt width)).isSome = true := by
        intro x width hwidth
        have hnonzero : (Number.int width).isZero = false := beq_eq_false_iff_ne.mpr (by omega)
        show (if (Number.int width).isZero then none else some _ : Option Number).isSome = true
        rw [hnonzero]
        rfl
      obtain ⟨w, hw, hout⟩ := windows_some doubles hds
        ((length_prefixSums doubles elevations).trans (by omega)) (fun x hx => (hself x hx).1)
        (fun x hx => (hself x hx).2) hdiv
      obtain ⟨mean, hmean⟩ := Option.isSome_iff_exists.mp
        (hdiv (.int w.totalWidth) elevations.length (by omega))
      have hfloat : ∃ d, mean = .float d := by
        change (if _ then none else some (Number.float _) : Option Number) = some mean at hmean
        split at hmean
        · cases hmean
        · exact ⟨_, (Option.some.inj hmean).symm⟩
      obtain ⟨d, rfl⟩ := hfloat
      simp only [Option.bind_eq_bind]
      rw [hhalf, Option.bind_some, hw, Option.bind_some,
        show doubles.div (doubles.ofInt w.totalWidth) (doubles.ofInt elevations.length) = _ from hmean]
      exact ⟨w.out, d, rfl, by omega⟩

theorem noiseThreshold_readings {stride : ℕ} (hstride : 1 ≤ stride) (sigma : Number) (width : Double) :
    ∃ threshold, noiseThreshold doubles sigma stride (.float width) = some threshold := by
  have hnonzero : (Number.int stride).isZero = false := beq_eq_false_iff_ne.mpr (by omega)
  have hreadings : doubles.div (.float width) (doubles.ofInt stride) =
      some (.float (width.div (Number.int stride).toDouble)) := by
    show (if (Number.int stride).isZero then none else some _) = _
    rw [hnonzero]
    rfl
  obtain ⟨root, hroot, hne⟩ := sqrt_of_max_one (width.div (Number.int stride).toDouble)
  have hresidual : doubles.div sigma (.float root) = some (sigma.div (.float root)) := by
    show (if root.isZero then none else some _) = _
    rw [hne]
    rfl
  unfold noiseThreshold
  simp only [Option.bind_eq_bind]
  rw [hreadings, Option.bind_some, hroot, Option.bind_some, hresidual, Option.bind_some]
  exact ⟨_, rfl⟩

theorem elevationGain_readings {distances : Option (List Number)} (h : ∀ x ∈ elevations, Below 20000 x)
    (hdistances : ∀ ds ∈ distances, ∀ d ∈ ds, d.exact.isSome = true) :
    ∃ gain, elevationGain doubles elevations distances none = some gain := by
  unfold elevationGain
  split
  · exact ⟨_, rfl⟩
  · rename_i hmany
    obtain ⟨sigma, hsigma, hsmall⟩ := noiseEstimate_readings h
    obtain ⟨smoothed, width, hsmoothed, hlen⟩ : ∃ smoothed width, smoothElevations doubles elevations
        distances sigma (runStride doubles elevations) = some (smoothed, .float width) ∧ _ :=
      smoothElevations_readings hdistances hsmall (runStride doubles elevations)
    obtain ⟨threshold, hthreshold⟩ :=
      noiseThreshold_readings (one_le_runStride doubles elevations) sigma width
    simp only [Option.bind_eq_bind]
    rw [hsigma, Option.bind_some, hsmoothed, Option.bind_some, hthreshold, Option.bind_some]
    cases smoothed with
    | nil => rw [List.length_nil] at hlen; omega
    | cons first rest => exact ⟨_, rfl⟩

end TraxJourney.Track
