/-
  File:      Track/Terrain.lean
  Subject:   The climb of a recording whose flat stretches are taken from a terrain model
             (`terrain_corrected_gain`).

  * **`terrainCorrectedGain_recorded`** -- where no window is flat, the climb is that of the recording.
-/
import TraxJourney.Track.ClimbBounds

namespace TraxJourney.Track

open Lib

/-! ## 1. Windows of ground -/

section Definitions

variable {α : Type} (A : Arithmetic α)

/-- `TERRAIN_WINDOW_M`, `TERRAIN_RELIEF_M`. -/
def terrainWindowM : ℚ := 500
def terrainReliefM : ℚ := 5

/-- `while hi < count and distances_km[hi] < limit: hi += 1`, in at most `fuel` turns. -/
def walkTo (distances : List α) (limit : α) : ℕ → ℕ → ℕ
  | 0, hi => hi
  | fuel + 1, hi =>
    match distances[hi]? with
    | some d => if A.lt d limit then walkTo distances limit fuel (hi + 1) else hi
    | none => hi

def windowEnd (distances : List α) (km : α) (lo : ℕ) (start : α) : ℕ :=
  min distances.length (max (walkTo A distances (A.add start km) distances.length (lo + 1)) (lo + 3) + 1)

/-- `while lo < count - 1`, in at most `fuel` turns. -/
def windowsFrom (distances : List α) (km : α) : ℕ → ℕ → List (ℕ × ℕ)
  | 0, _ => []
  | fuel + 1, lo =>
    if lo + 1 < distances.length then
      match distances[lo]? with
      | some start =>
        (lo, windowEnd A distances km lo start) ::
          windowsFrom distances km fuel (windowEnd A distances km lo start - 1)
      | none => []
    else []

/-- The windows without distances: `range(0, count - 1, step)`. -/
def evenWindows (count : ℕ) : List (ℕ × ℕ) :=
  let step := max 3 (count / 2)
  (List.range ((count - 1 + step - 1) / step)).map fun k => (k * step, min count (k * step + step + 1))

/-- `distances_km and len(distances_km) == count`. -/
def usable (distances : Option (List α)) (count : ℕ) : Option (List α) :=
  distances.filter fun ds => decide (ds ≠ [] ∧ ds.length = count)

def terrainWindows (distances : Option (List α)) (count : ℕ) (windowM : α) : Option (List (ℕ × ℕ)) :=
  match usable distances count with
  | some ds => (A.div windowM (A.literal 1000)).map fun km => windowsFrom A ds km ds.length 0
  | none => some (evenWindows count)

/-! ## 2. Relief -/

/-- `while back > 0 and distances_km[back] > floor: back -= 1`. -/
def stepBack (distances : List α) (floor : α) : ℕ → Option ℕ
  | 0 => some 0
  | back + 1 => distances[back + 1]?.bind fun d =>
    if A.lt floor d then stepBack distances floor back else some (back + 1)

/-- `_relief_span`: where the samples start over which the relief is asked. -/
def reliefStart (distances : Option (List α)) (count : ℕ) (windowM : α) (lo hi : ℕ) : Option ℕ :=
  match usable distances count with
  | some ds =>
    if 2 ≤ hi - lo then do
      let last ← ds[hi - 1]?
      let first ← ds[lo]?
      if A.lt (A.mul (A.sub last first) (A.literal 1000)) windowM then do
        let km ← A.div windowM (A.literal 1000)
        stepBack A ds (A.sub last km) lo
      else some lo
    else some lo
  | none => some lo

def relief : List α → Option α
  | [] => none
  | x :: xs => some (A.sub (xs.foldl A.max x) (xs.foldl A.min x))

def judgedFlat (terrain : List α) (distances : Option (List α)) (count : ℕ) (windowM reliefM : α)
    (window : ℕ × ℕ) : Option Bool :=
  (reliefStart A distances count windowM window.1 window.2).bind fun start =>
    let verdict := slice terrain start window.2
    if verdict.length < 3 then some false
    else (relief A verdict).map fun r => A.lt r reliefM

/-! ## 3. The series -/

/-- `series.append(series[-1] + (current - previous))`. -/
def appendStep (series : List α) (step : α × α) : Option (List α) :=
  series.getLast?.map fun last => series ++ [A.add last (A.sub step.2 step.1)]

/-- The steps of one window, from either source. -/
def splice (recorded terrain : List α) (distances : Option (List α)) (windowM reliefM : α)
    (series : List α) (window : ℕ × ℕ) : Option (List α) :=
  (judgedFlat A terrain distances recorded.length windowM reliefM window).bind fun flat =>
    let source := if flat then terrain else recorded
    ((slice source window.1 window.2).zip (slice source (window.1 + 1) window.2)).foldlM (appendStep A) series

def terrainCorrectedGain (recorded terrain : List α) (distances : Option (List α))
    (windowM reliefM : α) : Option α :=
  if terrain.isEmpty = true ∨ terrain.length ≠ recorded.length then
    elevationGain A recorded distances none
  else if recorded.length < 3 then elevationGain A recorded distances none
  else do
    let windows ← terrainWindows A distances recorded.length windowM
    let series ← windows.foldlM (splice A recorded terrain distances windowM reliefM) (recorded.take 1)
    let noise ← noiseEstimate A recorded
    elevationGain A series distances (some noise)

end Definitions

/-! ## 4. Every step once -/

section Steps

variable {α : Type} {A : Arithmetic α}

/-- The steps of a window, each by the sample that it starts from. -/
def stepsOf (window : ℕ × ℕ) : List ℕ := List.range' window.1 (window.2 - 1 - window.1)

/-- From one sample on the windows cut the rest up: each starts where the one before ends. -/
def CutUp (count : ℕ) : ℕ → List (ℕ × ℕ) → Prop
  | lo, [] => count ≤ lo + 1
  | lo, window :: windows =>
    window.1 = lo ∧ lo + 1 < window.2 ∧ window.2 ≤ count ∧ CutUp count (window.2 - 1) windows

theorem CutUp.steps {count lo : ℕ} {windows : List (ℕ × ℕ)} (h : CutUp count lo windows) :
    windows.flatMap stepsOf = List.range' lo (count - 1 - lo) := by
  induction windows generalizing lo with
  | nil =>
    change count ≤ lo + 1 at h
    rw [List.flatMap_nil, show count - 1 - lo = 0 by omega]
    rfl
  | cons window windows ih =>
    obtain ⟨rfl, hlt, hle, hrest⟩ := h
    have hsplit : count - 1 - window.1 = window.2 - 1 - window.1 + (count - 1 - (window.2 - 1)) := by omega
    have hnext : window.1 + 1 * (window.2 - 1 - window.1) = window.2 - 1 := by omega
    rw [List.flatMap_cons, ih hrest, stepsOf, hsplit, ← List.range'_append, hnext]

theorem windowEnd_bounds {distances : List α} (km start : α) {lo : ℕ} (h : lo + 1 < distances.length) :
    lo + 1 < windowEnd A distances km lo start ∧ windowEnd A distances km lo start ≤ distances.length := by
  unfold windowEnd
  omega

theorem windowsFrom_cutUp {distances : List α} {km : α} {fuel lo : ℕ}
    (hfuel : distances.length ≤ lo + 1 + fuel) :
    CutUp distances.length lo (windowsFrom A distances km fuel lo) := by
  induction fuel generalizing lo with
  | zero => exact hfuel
  | succ fuel ih =>
    rw [windowsFrom]
    split
    case isTrue hmore =>
      rw [List.getElem?_eq_getElem (Nat.lt_of_succ_lt hmore)]
      obtain ⟨hlt, hle⟩ := windowEnd_bounds (A := A) km distances[lo] hmore
      exact ⟨rfl, hlt, hle, ih (by omega)⟩
    case isFalse hdone => exact Nat.not_lt.mp hdone

theorem evenWindows_cutUp (count : ℕ) : CutUp count 0 (evenWindows count) := by
  have hpos : 0 < max 3 (count / 2) := Nat.lt_of_lt_of_le (by decide) (le_max_left 3 _)
  unfold evenWindows
  dsimp only
  generalize max 3 (count / 2) = step at hpos
  -- the windows from one of them on
  have hrest : ∀ n k, (count - 1 + step - 1) / step = k + n →
      CutUp count (k * step) ((List.range' k n).map fun k =>
        (k * step, min count (k * step + step + 1))) := by
    intro n
    induction n with
    | zero =>
      intro k hk
      rw [Nat.add_zero, Nat.div_eq_iff hpos] at hk
      show count ≤ k * step + 1
      omega
    | succ n ih =>
      intro k hk
      have hk' : k < (count - 1 + step - 1) / step := by omega
      rw [Nat.lt_div_iff_mul_lt hpos] at hk'
      have hmul : (k + 1) * step = k * step + step := Nat.succ_mul k step
      refine ⟨rfl, by dsimp only; omega, min_le_left _ _, ?_⟩
      rcases Nat.lt_or_ge count (k * step + step + 1) with hlast | hmore
      · -- the last window: no step is left
        have hn : n = 0 := by
          by_contra hne
          have hk'' : k + 1 < (count - 1 + step - 1) / step := by omega
          rw [Nat.lt_div_iff_mul_lt hpos] at hk''
          omega
        subst hn
        show count ≤ min count (k * step + step + 1) - 1 + 1
        omega
      · have hend : min count (k * step + step + 1) - 1 = (k + 1) * step := by omega
        rw [hend]
        exact ih (k + 1) (by omega)
  have h := hrest _ 0 (Nat.zero_add _).symm
  rwa [Nat.zero_mul, ← List.range_eq_range'] at h

theorem usable_eq_some {distances : Option (List α)} {count : ℕ} {ds : List α}
    (h : usable distances count = some ds) : ds.length = count := by
  obtain ⟨-, hp⟩ := Option.filter_eq_some_iff.mp h
  exact (of_decide_eq_true hp).2

end Steps

/-! ## 5. The recording -/

variable {K : Type} [Field K] [LinearOrder K] [IsStrictOrderedRing K] {root : K → K}
  {recorded terrain : List K} {distances : Option (List K)} {windowM reliefM : K}

variable (root) in
theorem terrainWindows_cutUp (distances : Option (List K)) (count : ℕ) (windowM : K) :
    ∃ windows, terrainWindows (exact K root) distances count windowM = some windows ∧
      CutUp count 0 windows := by
  have hthousand : (exact K root).literal 1000 ≠ 0 := Device.literal_exact_ne_zero (by norm_num)
  unfold terrainWindows
  cases husable : usable distances count with
  | none => exact ⟨_, rfl, evenWindows_cutUp count⟩
  | some ds =>
    dsimp only
    rw [Device.div_exact hthousand, Option.map_some]
    refine ⟨_, rfl, ?_⟩
    rw [← usable_eq_some husable]
    exact windowsFrom_cutUp (by omega)

omit [IsStrictOrderedRing K] in
theorem stepBack_some {ds : List K} {floor : K} {back : ℕ} (h : back < ds.length) :
    ∃ start, stepBack (exact K root) ds floor back = some start := by
  induction back with
  | zero => exact ⟨0, rfl⟩
  | succ back ih =>
    rw [stepBack, List.getElem?_eq_getElem h, Option.bind_some]
    split
    · exact ih (Nat.lt_of_succ_lt h)
    · exact ⟨_, rfl⟩

theorem judgedFlat_some {window : ℕ × ℕ} {count : ℕ} (hlt : window.1 + 1 < window.2)
    (hle : window.2 ≤ count) :
    ∃ flat, judgedFlat (exact K root) terrain distances count windowM reliefM window = some flat := by
  have hthousand : (exact K root).literal 1000 ≠ 0 := Device.literal_exact_ne_zero (by norm_num)
  obtain ⟨start, hstart⟩ : ∃ start,
      reliefStart (exact K root) distances count windowM window.1 window.2 = some start := by
    unfold reliefStart
    cases husable : usable distances count with
    | none => exact ⟨_, rfl⟩
    | some ds =>
      have hlen := usable_eq_some husable
      simp only [Option.bind_eq_bind]
      rw [if_pos (by omega), List.getElem?_eq_getElem (by omega), Option.bind_some,
        List.getElem?_eq_getElem (by omega), Option.bind_some, Device.div_exact hthousand,
        Option.bind_some]
      split
      · exact stepBack_some (by omega)
      · exact ⟨_, rfl⟩
  unfold judgedFlat
  rw [hstart, Option.bind_some]
  dsimp only
  split
  · exact ⟨false, rfl⟩
  · rename_i hmany
    cases hverdict : slice terrain start window.2 with
    | nil =>
      rw [hverdict] at hmany
      exact absurd (Nat.zero_lt_succ 2) hmany
    | cons x xs => exact ⟨_, rfl⟩

omit [IsStrictOrderedRing K] in
theorem appendStep_all (xs : List K) {x : K} {series : List K} (hlast : series.getLast? = some x) :
    ((x :: xs).zip xs).foldlM (appendStep (exact K root)) series = some (series ++ xs) := by
  induction xs generalizing x series with
  | nil =>
    rw [List.append_nil]
    rfl
  | cons y xs ih =>
    have hstep : appendStep (exact K root) series (x, y) = some (series ++ [y]) := by
      rw [appendStep, hlast, Option.map_some]
      show some (series ++ [x + (y - x)]) = _
      rw [add_sub_cancel]
    have hnext : (series ++ [y]).getLast? = some y := List.getLast?_concat
    rw [List.zip_cons_cons, List.foldlM_cons, hstep]
    show List.foldlM _ (series ++ [y]) ((y :: xs).zip xs) = _
    rw [ih hnext, List.append_assoc, List.singleton_append]

theorem splice_recorded {window : ℕ × ℕ} (hlt : window.1 + 1 < window.2) (hle : window.2 ≤ recorded.length)
    (hflat : judgedFlat (exact K root) terrain distances recorded.length windowM reliefM window ≠ some true) :
    splice (exact K root) recorded terrain distances windowM reliefM (recorded.take (window.1 + 1))
      window = some (recorded.take window.2) := by
  obtain ⟨flat, hjudged⟩ : ∃ flat, judgedFlat (exact K root) terrain distances recorded.length windowM
      reliefM window = some flat := judgedFlat_some hlt hle
  cases flat with
  | true => exact absurd hjudged hflat
  | false =>
    have hat := List.getElem?_eq_getElem (by omega : window.1 < recorded.length)
    have hcons : slice recorded window.1 window.2 =
        recorded[window.1] :: slice recorded (window.1 + 1) window.2 := by
      unfold slice
      have hdrop := List.drop_eq_getElem_cons (l := recorded.take window.2) (i := window.1)
        (by rw [List.length_take]; omega)
      rwa [List.getElem_take] at hdrop
    have hlast : (recorded.take (window.1 + 1)).getLast? = some recorded[window.1] := by
      rw [List.take_add_one, hat]
      exact List.getLast?_concat
    unfold splice
    rw [hjudged, Option.bind_some]
    show List.foldlM _ _ ((slice recorded window.1 window.2).zip (slice recorded (window.1 + 1) window.2)) = _
    rw [hcons, appendStep_all _ hlast, take_append_slice recorded (by omega)]

theorem splice_all {windows : List (ℕ × ℕ)} {lo : ℕ} (hlo : lo < recorded.length)
    (hcut : CutUp recorded.length lo windows)
    (hflat : ∀ window ∈ windows, judgedFlat (exact K root) terrain distances recorded.length windowM
      reliefM window ≠ some true) :
    windows.foldlM (splice (exact K root) recorded terrain distances windowM reliefM)
      (recorded.take (lo + 1)) = some recorded := by
  induction windows generalizing lo with
  | nil =>
    change recorded.length ≤ lo + 1 at hcut
    rw [List.take_of_length_le hcut]
    rfl
  | cons window windows ih =>
    obtain ⟨rfl, hlt, hle, hrest⟩ := hcut
    have hnext : window.2 - 1 + 1 = window.2 := by omega
    have hstep := splice_recorded hlt hle (hflat window List.mem_cons_self)
    have hmore := @ih (window.2 - 1) (by omega) hrest fun w hw => hflat w (List.mem_cons_of_mem _ hw)
    rw [hnext] at hmore
    rw [List.foldlM_cons, hstep]
    exact hmore

/-- **Where no window is judged flat, the climb is that of the recording**; and whatever is judged, the
    windows hold every step of it once. -/
theorem terrainCorrectedGain_recorded (recorded terrain : List K) (distances : Option (List K))
    (windowM reliefM : K) :
    ∃ windows, terrainWindows (exact K root) distances recorded.length windowM = some windows ∧
      windows.flatMap stepsOf = List.range (recorded.length - 1) ∧
      ((∀ window ∈ windows, judgedFlat (exact K root) terrain distances recorded.length windowM
          reliefM window ≠ some true) →
        terrainCorrectedGain (exact K root) recorded terrain distances windowM reliefM =
          elevationGain (exact K root) recorded distances none) := by
  obtain ⟨windows, hwindows, hcut⟩ := terrainWindows_cutUp root distances recorded.length windowM
  refine ⟨windows, hwindows, ?_, fun hflat => ?_⟩
  · rw [hcut.steps, List.range_eq_range', Nat.sub_zero]
  · unfold terrainCorrectedGain
    split
    case isTrue => rfl
    case isFalse =>
      split
      case isTrue => rfl
      case isFalse hmany =>
        have hseries := splice_all (by omega : 0 < recorded.length) hcut hflat
        simp only [Option.bind_eq_bind]
        rw [hwindows, Option.bind_some, hseries, Option.bind_some]
        have hfew : 2 ≤ recorded.length := by omega
        -- the noise is measured on the recording in both
        cases hnoise : noiseEstimate (exact K root) recorded with
        | none =>
          rw [elevationGain_eq _ _ _ hfew, hnoise]
          rfl
        | some noise =>
          rw [Option.bind_some, elevationGain_eq _ _ _ hfew, elevationGain_eq _ _ _ hfew, hnoise]
          rfl

/-- A hill of a kilometre and a half, a sample every 125 m: as it is recorded, and in a terrain model. -/
noncomputable def hillKm : List ℝ := (List.range 13).map fun i => (i : ℝ) / (8 : ℕ)
def hillRecorded : List ℝ := [100, 104, 106, 108, 112, 116, 118, 114, 112, 110, 106, 102, 100]
def hillTerrain : List ℝ := [100, 103, 106, 109, 112, 115, 118, 115, 112, 109, 106, 103, 100]

/-- The hill is cut into three windows, and none of them is flat: not the one over the top either. -/
theorem terrainCorrectedGain_hill :
    terrainWindows (exact ℝ Real.sqrt) (some hillKm) 13 (terrainWindowM : ℚ) = some [(0, 5), (4, 9), (8, 13)] ∧
      terrainCorrectedGain (exact ℝ Real.sqrt) hillRecorded hillTerrain (some hillKm)
          (terrainWindowM : ℚ) (terrainReliefM : ℚ) =
        elevationGain (exact ℝ Real.sqrt) hillRecorded (some hillKm) none := by
  have hkms : hillKm =
      [0, 1 / 8, 2 / 8, 3 / 8, 4 / 8, 5 / 8, 6 / 8, 7 / 8, 8 / 8, 9 / 8, 10 / 8, 11 / 8, 12 / 8] := by
    simp [hillKm, List.range_succ]
  have husable : usable (some hillKm) 13 = some hillKm := by simp [usable, hkms]
  have hkm : (exact ℝ Real.sqrt).div ((terrainWindowM : ℚ) : ℝ) ((exact ℝ Real.sqrt).literal 1000) = some (1 / 2) := by
    norm_num [exact, terrainWindowM]
  have hends : windowEnd (exact ℝ Real.sqrt) hillKm (1 / 2) 0 0 = 5 ∧
      windowEnd (exact ℝ Real.sqrt) hillKm (1 / 2) 4 (4 / 8) = 9 ∧
      windowEnd (exact ℝ Real.sqrt) hillKm (1 / 2) 8 (8 / 8) = 13 := by
    norm_num [windowEnd, walkTo, exact, hkms]
  have hcut : terrainWindows (exact ℝ Real.sqrt) (some hillKm) 13 ((terrainWindowM : ℚ) : ℝ) =
      some [(0, 5), (4, 9), (8, 13)] := by
    obtain ⟨hfirst, hsecond, hthird⟩ := hends
    have hstarts : hillKm[0]? = some 0 ∧ hillKm[4]? = some (4 / 8) ∧ hillKm[8]? = some (8 / 8) := by
      rw [hkms]
      exact ⟨rfl, rfl, rfl⟩
    unfold terrainWindows
    rw [husable]
    have hnext : ∀ {fuel lo hi : ℕ} {start : ℝ}, lo + 1 < 13 → hillKm[lo]? = some start →
        windowEnd (exact ℝ Real.sqrt) hillKm (1 / 2) lo start = hi →
        windowsFrom (exact ℝ Real.sqrt) hillKm (1 / 2) (fuel + 1) lo =
          (lo, hi) :: windowsFrom (exact ℝ Real.sqrt) hillKm (1 / 2) fuel (hi - 1) := by
      intro fuel lo hi start hlo hstart hend
      rw [windowsFrom, if_pos (show lo + 1 < hillKm.length from hlo), hstart, ← hend]
    calc ((exact ℝ Real.sqrt).div ((terrainWindowM : ℚ) : ℝ) ((exact ℝ Real.sqrt).literal 1000)).map
          (fun km => windowsFrom (exact ℝ Real.sqrt) hillKm km 13 0)
        = some (windowsFrom (exact ℝ Real.sqrt) hillKm (1 / 2) 13 0) := by rw [hkm, Option.map_some]
      _ = some ((0, 5) :: (4, 9) :: (8, 13) :: windowsFrom (exact ℝ Real.sqrt) hillKm (1 / 2) 10 12) := by
        rw [hnext (by decide) hstarts.1 hfirst, hnext (by decide) hstarts.2.1 hsecond,
          hnext (by decide) hstarts.2.2 hthird]
      _ = some [(0, 5), (4, 9), (8, 13)] := rfl
  have hflat : ∀ window ∈ [(0, 5), (4, 9), (8, 13)],
      judgedFlat (exact ℝ Real.sqrt) hillTerrain (some hillKm) 13 ((terrainWindowM : ℚ) : ℝ)
        ((terrainReliefM : ℚ) : ℝ) window = some false := by
    unfold judgedFlat reliefStart
    rw [husable]
    norm_num [slice, relief, Arithmetic.max, Arithmetic.min, exact, terrainReliefM, terrainWindowM, hkms,
      hillTerrain]
  obtain ⟨windows, hwindows, -, hrecorded⟩ := @terrainCorrectedGain_recorded ℝ _ _ _ Real.sqrt
    hillRecorded hillTerrain (some hillKm) (terrainWindowM : ℚ) (terrainReliefM : ℚ)
  refine ⟨hcut, hrecorded fun window hwindow => ?_⟩
  rw [← Option.some.inj (hcut.symm.trans hwindows)] at hwindow
  exact fun htrue => Bool.false_ne_true (Option.some.inj ((hflat window hwindow).symm.trans htrue))

end TraxJourney.Track
