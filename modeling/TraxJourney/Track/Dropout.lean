/-
  File:      Track/Dropout.lean
  Subject:   Zeros that stand for missing readings: `_sentinel_mask` and the repair of
             `c4a9e1f70b38_repair_elevation_dropout_sentinel.py`, and the device's `sentinelMask` of
             `lib/src/track_metrics/elevation_gain.dart`, calculated exactly.

  * **`settles_iff`** -- the repair settles exactly where this does not happen.
-/
import TraxJourney.Lib.ListSlices
import TraxJourney.Track.Gaps

namespace TraxJourney.Track

open Lib

section Defs

variable {K : Type} [Field K] [LinearOrder K]

/-! ## 1. The marks -/

variable (K) in
def sentinelMinGrade : K := 1

variable (K) in
def sentinelMinStepM : K := ((5 : ℕ) : K)

/-- `while run_end < n and elevations[run_end] == 0.0`, in at most `fuel` turns. -/
def runEndFrom (es : List K) : ℕ → ℕ → ℕ
  | 0, runEnd => runEnd
  | fuel + 1, runEnd => if es[runEnd]? = some 0 then runEndFrom es fuel (runEnd + 1) else runEnd

/-- The grade of the step from the run to the reading on one side, if there is one that is high enough. -/
def addGrade (es ds : List K) (grades : List (WithTop K)) (side : ℤ × ℕ) : Option (List (WithTop K)) :=
  if ¬ (0 ≤ side.1 ∧ side.1 < es.length) then some grades
  else do
    let e ← es[side.1.toNat]?
    let step := |e|
    if step < sentinelMinStepM K then some grades
    else do
      let d ← ds[side.1.toNat]?
      let d' ← ds[side.2]?
      let runM := |d - d'| * ((1000 : ℕ) : K)
      some (grades ++ [if 0 < runM then ((step / runM : K) : WithTop K) else ⊤])

/-- The loop over the samples, from sample `i` on; `tooSteep` judges the grades beside a run. -/
def markRuns (tooSteep : List (WithTop K) → Bool) (es ds : List K) : ℕ → ℕ → List Bool → Option (List Bool)
  | 0, _, mask => some mask
  | fuel + 1, i, mask =>
    if i < es.length then do
      let e ← es[i]?
      if e ≠ 0 then markRuns tooSteep es ds fuel (i + 1) mask
      else do
        let runEnd := runEndFrom es es.length i
        let grades ← [((i : ℤ) - 1, i), ((runEnd : ℤ), runEnd - 1)].foldlM (addGrade es ds) []
        let mask :=
          if tooSteep grades then (List.range' i (runEnd - i)).foldl (fun mask j => mask.set j true) mask
          else mask
        markRuns tooSteep es ds fuel runEnd mask
    else some mask

/-- What both functions do, up to the grades. -/
def maskWith (tooSteep : List (WithTop K) → Bool) (es ds : List K) : Option (List Bool) :=
  let mask := List.replicate es.length false
  if ds.length ≠ es.length then some mask else markRuns tooSteep es ds es.length 0 mask

/-- `grades and max(grades) > _SENTINEL_MIN_GRADE`. -/
def maxTooSteep : List (WithTop K) → Bool
  | [] => false
  | g :: grades => decide ((sentinelMinGrade K : WithTop K) <
      grades.foldl (fun largest g => if largest < g then g else largest) g)

/-- `grades.isNotEmpty && grades.reduce(math.max) > _SENTINEL_MIN_GRADE`. -/
def Device.maxTooSteep : List (WithTop K) → Bool
  | [] => false
  | g :: grades => decide ((sentinelMinGrade K : WithTop K) < grades.foldl max g)

/-- `_sentinel_mask`. Nothing where it raises. -/
def sentinelMask (es ds : List K) : Option (List Bool) := maskWith maxTooSteep es ds

/-- `sentinelMask` of the device. -/
def Device.sentinelMask (es ds : List K) : Option (List Bool) := maskWith Device.maxTooSteep es ds

/-- The samples with those marked left out, filled again. -/
def repair (es ds : List K) : Option (List K) := do
  let mask ← sentinelMask es ds
  interpolateElevationGaps ds (List.zipWith (fun e flag => if flag then none else some e) es mask)

end Defs

/-! ## 2. The grades -/

section

variable {K : Type} [Field K] [LinearOrder K] {es ds : List K}

omit [Field K] in
theorem lt_foldl_larger {x : K} (grades : List K) (g : K) :
    x < grades.foldl (fun largest g => if largest < g then g else largest) g ↔ ∃ y ∈ g :: grades, x < y := by
  induction grades generalizing g with
  | nil => simp
  | cons g' grades ih =>
    rw [List.foldl_cons, ih]
    simp only [List.mem_cons, exists_eq_or_imp]
    split
    case isTrue hlt => exact ⟨.inr, fun h => h.elim (fun hx => .inl (hx.trans hlt)) id⟩
    case isFalse hge =>
      refine ⟨fun h => h.imp_right .inr, fun h => ?_⟩
      rcases h with hx | hx | hx
      · exact .inl hx
      · exact .inl (hx.trans_le (not_lt.mp hge))
      · exact .inr hx

omit [Field K] in
theorem foldl_max_eq (grades : List K) (g : K) :
    grades.foldl max g = grades.foldl (fun largest g => if largest < g then g else largest) g := by
  have hmax : ∀ a b : K, max a b = if a < b then b else a := by
    intro a b
    split
    case isTrue hlt => exact max_eq_right hlt.le
    case isFalse hge => exact max_eq_left (not_lt.mp hge)
  simp only [← hmax]

theorem Device.sentinelMask_eq (es ds : List K) : Device.sentinelMask es ds = Track.sentinelMask es ds := by
  have hsame : (Device.maxTooSteep : List (WithTop K) → Bool) = Track.maxTooSteep := by
    funext grades
    cases grades with
    | nil => rfl
    | cons g grades =>
      show decide (_ < grades.foldl max g) = decide _
      rw [foldl_max_eq]
  rw [Device.sentinelMask, hsame, Track.sentinelMask]

theorem maxTooSteep_iff {grades : List (WithTop K)} :
    maxTooSteep grades = true ↔ ∃ g ∈ grades, (sentinelMinGrade K : WithTop K) < g := by
  cases grades with
  | nil => exact ⟨nofun, fun ⟨_, hmem, _⟩ => absurd hmem List.not_mem_nil⟩
  | cons g grades =>
    unfold maxTooSteep
    rw [decide_eq_true_iff, lt_foldl_larger]

/-- A step to a reading that no track takes: five metres at least, and steeper than 45 degrees. -/
def Steep (es ds : List K) (idx edge : ℕ) : Prop :=
  ∃ e d d' : K, es[idx]? = some e ∧ ds[idx]? = some d ∧ ds[edge]? = some d' ∧ ((5 : ℕ) : K) ≤ |e| ∧
    |d - d'| * ((1000 : ℕ) : K) < |e|

variable [IsStrictOrderedRing K]

theorem addGrade_spec (hlen : ds.length = es.length) (grades : List (WithTop K)) (idx : ℤ) (edge : ℕ)
    (hedge : edge < es.length) : ∃ more, addGrade es ds grades (idx, edge) = some (grades ++ more) ∧
      ((∃ g ∈ more, (sentinelMinGrade K : WithTop K) < g) ↔ 0 ≤ idx ∧ Steep es ds idx.toNat edge) := by
  unfold addGrade
  dsimp only
  split
  case isTrue hout =>
    refine ⟨[], by rw [List.append_nil], fun ⟨_, hmem, _⟩ => absurd hmem List.not_mem_nil, ?_⟩
    rintro ⟨hnonneg, e, d, d', he, -⟩
    have hlt := (List.getElem?_eq_some_iff.mp he).1
    exact absurd ⟨hnonneg, by omega⟩ hout
  case isFalse hin =>
    rw [not_not] at hin
    have hlt : idx.toNat < es.length := by omega
    rw [List.getElem?_eq_getElem hlt, Option.bind_eq_bind, Option.bind_some]
    split
    case isTrue hlow =>
      refine ⟨[], by rw [List.append_nil], fun ⟨_, hmem, _⟩ => absurd hmem List.not_mem_nil, ?_⟩
      rintro ⟨-, e, d, d', he, -, -, hfive, -⟩
      rw [List.getElem?_eq_getElem hlt] at he
      obtain rfl := Option.some.inj he
      exact absurd hlow (not_lt.mpr hfive)
    case isFalse hhigh =>
      have hd : ds[idx.toNat]? = some (ds.get ⟨idx.toNat, by omega⟩) := List.getElem?_eq_getElem _
      have hd' : ds[edge]? = some (ds.get ⟨edge, by omega⟩) := List.getElem?_eq_getElem _
      rw [hd, hd']
      refine ⟨_, rfl, ?_⟩
      have hpos : 0 < |es[idx.toNat]| := lt_of_lt_of_le (by unfold sentinelMinStepM; positivity) (not_lt.mp hhigh)
      have hgrade : ∀ runM : K, 0 ≤ runM → ((sentinelMinGrade K : WithTop K) <
          (if 0 < runM then ((|es[idx.toNat]| / runM : K) : WithTop K) else ⊤) ↔ runM < |es[idx.toNat]|) := by
        intro runM hnonneg
        split
        case isTrue hrun =>
          unfold sentinelMinGrade
          rw [WithTop.coe_lt_coe, one_lt_div hrun]
        case isFalse hrun =>
          rw [le_antisymm (not_lt.mp hrun) hnonneg]
          exact ⟨fun _ => hpos, fun _ => WithTop.coe_lt_top _⟩
      simp only [List.mem_singleton, exists_eq_left]
      rw [hgrade _ (by positivity)]
      constructor
      · exact fun h => ⟨hin.1, _, _, _, List.getElem?_eq_getElem hlt, hd, hd', not_lt.mp hhigh, h⟩
      · rintro ⟨-, e, d, d', he, hdx, hdx', -, h⟩
        rw [List.getElem?_eq_getElem hlt] at he
        rw [hd] at hdx
        rw [hd'] at hdx'
        obtain rfl := Option.some.inj he
        obtain rfl := Option.some.inj hdx
        obtain rfl := Option.some.inj hdx'
        exact h

/-! ## 3. The runs -/

/-- A run of zeros that cannot be longer. -/
structure Run (es : List K) (i r : ℕ) : Prop where
  lt : i < r
  le : r ≤ es.length
  zero : ∀ j, i ≤ j → j < r → es[j]? = some 0
  before : i = 0 ∨ es[i - 1]? ≠ some 0
  after : es[r]? ≠ some 0

/-- A run that no track comes to, or leaves, as it does. -/
def Flagged (es ds : List K) (i r : ℕ) : Prop := 0 < i ∧ Steep es ds (i - 1) i ∨ Steep es ds r (r - 1)

/-- A sample that is a dropout. -/
def Masked (es ds : List K) (j : ℕ) : Prop := ∃ i r, Run es i r ∧ i ≤ j ∧ j < r ∧ Flagged es ds i r

variable {i r j : ℕ}

omit [LinearOrder K] [IsStrictOrderedRing K] in
theorem Run.unique {i' r' : ℕ} (h : Run es i r) (h' : Run es i' r') (hi : i ≤ j) (hr : j < r) (hi' : i' ≤ j)
    (hr' : j < r') : i = i' ∧ r = r' := by
  have hstart : ∀ {i r i' r' : ℕ}, Run es i r → Run es i' r' → i ≤ j → j < r → i' ≤ j → j < r' → i ≤ i' := by
    intro i r i' r' h h' hi hr hi' hr'
    by_contra hlt
    rcases h.before with hzero | hne
    · omega
    · exact hne (h'.zero (i - 1) (by omega) (by omega))
  have hend : ∀ {i r i' r' : ℕ}, Run es i r → Run es i' r' → i ≤ j → j < r → i' ≤ j → j < r' → r ≤ r' := by
    intro i r i' r' h h' hi hr hi' hr'
    by_contra hlt
    exact h'.after (h.zero r' (by omega) (by omega))
  exact ⟨le_antisymm (hstart h h' hi hr hi' hr') (hstart h' h hi' hr' hi hr),
    le_antisymm (hend h h' hi hr hi' hr') (hend h' h hi' hr' hi hr)⟩

omit [IsStrictOrderedRing K] in
theorem Masked.zero (h : Masked es ds j) : es[j]? = some 0 := by
  obtain ⟨i, r, hrun, hi, hr, -⟩ := h
  exact hrun.zero j hi hr

omit [IsStrictOrderedRing K] in
theorem Run.masked_iff (h : Run es i r) (hi : i ≤ j) (hr : j < r) :
    Masked es ds j ↔ Flagged es ds i r := by
  constructor
  · rintro ⟨i', r', hrun, hi', hr', hflagged⟩
    obtain ⟨rfl, rfl⟩ := h.unique hrun hi hr hi' hr'
    exact hflagged
  · exact fun hflagged => ⟨i, r, h, hi, hr, hflagged⟩

omit [IsStrictOrderedRing K] in
theorem runEndFrom_spec (runEnd : ℕ) {fuel : ℕ} (hfuel : es.length ≤ runEnd + fuel) :
    runEnd ≤ runEndFrom es fuel runEnd ∧ es[runEndFrom es fuel runEnd]? ≠ some 0 ∧
      ∀ j, runEnd ≤ j → j < runEndFrom es fuel runEnd → es[j]? = some 0 := by
  induction fuel generalizing runEnd with
  | zero =>
    refine ⟨le_rfl, ?_, fun j hlow hhigh => absurd hhigh (not_lt.mpr hlow)⟩
    rw [runEndFrom, List.getElem?_eq_none (by omega)]
    exact nofun
  | succ fuel ih =>
    rw [runEndFrom]
    split
    case isFalse hne => exact ⟨le_rfl, hne, fun j hlow hhigh => absurd hhigh (not_lt.mpr hlow)⟩
    case isTrue hzero =>
      obtain ⟨hle, hafter, hall⟩ := ih (runEnd + 1) (by omega)
      refine ⟨by omega, hafter, fun j hlow hhigh => ?_⟩
      rcases hlow.eq_or_lt with rfl | hlow
      · exact hzero
      · exact hall j hlow hhigh

omit [IsStrictOrderedRing K] in
theorem run_from (hzero : es[i]? = some 0) (hbefore : i = 0 ∨ es[i - 1]? ≠ some 0) :
    Run es i (runEndFrom es es.length i) := by
  obtain ⟨hle, hafter, hall⟩ := runEndFrom_spec i (Nat.le_add_left es.length i)
  have hi := (List.getElem?_eq_some_iff.mp hzero).1
  refine ⟨lt_of_le_of_ne hle fun heq => hafter (heq ▸ hzero), ?_, hall, hbefore, hafter⟩
  by_contra hlong
  have hpast := hall es.length hi.le (not_le.mp hlong)
  rw [List.getElem?_eq_none le_rfl] at hpast
  exact absurd hpast nofun

theorem grades_spec (hlen : ds.length = es.length) (h : Run es i r) :
    ∃ grades, [((i : ℤ) - 1, i), ((r : ℤ), r - 1)].foldlM (addGrade es ds) [] = some grades ∧
      (maxTooSteep grades = true ↔ Flagged es ds i r) := by
  have hlt := h.lt
  have hle := h.le
  obtain ⟨left, hleft, hleftSteep⟩ := addGrade_spec hlen [] ((i : ℤ) - 1) i (by omega)
  obtain ⟨right, hright, hrightSteep⟩ := addGrade_spec hlen ([] ++ left) (r : ℤ) (r - 1) (by omega)
  refine ⟨[] ++ left ++ right, ?_, ?_⟩
  · rw [List.foldlM_cons, hleft, Option.bind_eq_bind, Option.bind_some, List.foldlM_cons, hright]
    rfl
  · have hidx : 0 < i → ((i : ℤ) - 1).toNat = i - 1 := by omega
    rw [maxTooSteep_iff, List.nil_append]
    simp only [List.mem_append, or_and_right, exists_or]
    rw [hleftSteep, hrightSteep, Int.toNat_natCast]
    unfold Flagged
    constructor
    · rintro (⟨hpos, hsteep⟩ | ⟨-, hsteep⟩)
      · rw [hidx (by omega)] at hsteep
        exact .inl ⟨by omega, hsteep⟩
      · exact .inr hsteep
    · rintro (⟨hpos, hsteep⟩ | hsteep)
      · exact .inl ⟨by omega, by rwa [hidx hpos]⟩
      · exact .inr ⟨Int.natCast_nonneg _, hsteep⟩

/-! ## 4. The marks are those of flagged runs -/

theorem foldl_set_true (mask : List Bool) (i cnt : ℕ) :
    ((List.range' i cnt).foldl (fun mask j => mask.set j true) mask).length = mask.length ∧
      ∀ j < mask.length, ((List.range' i cnt).foldl (fun mask j => mask.set j true) mask)[j]? =
        if i ≤ j ∧ j < i + cnt then some true else mask[j]? := by
  induction cnt generalizing i mask with
  | zero =>
    refine ⟨rfl, fun j _ => ?_⟩
    rw [if_neg (by omega)]
    rfl
  | succ cnt ih =>
    rw [List.range'_succ, List.foldl_cons]
    obtain ⟨hlen, hall⟩ := ih (mask.set i true) (i + 1)
    rw [List.length_set] at hlen hall
    refine ⟨hlen, fun j hj => ?_⟩
    rw [hall j hj]
    by_cases hij : i = j
    · subst hij
      rw [if_neg (by omega), if_pos (by omega), List.getElem?_set_self hj]
    · rw [List.getElem?_set_ne hij]
      by_cases hin : i + 1 ≤ j ∧ j < i + 1 + cnt
      · rw [if_pos hin, if_pos (by omega)]
      · rw [if_neg hin, if_neg (by omega)]

/-- The marks before sample `i` are right, and none is set from there on. -/
structure MarkedTo (es ds : List K) (i : ℕ) (mask : List Bool) : Prop where
  length : mask.length = es.length
  marked : ∀ j, j < i → j < es.length → (mask[j]? = some true ↔ Masked es ds j)
  rest : ∀ j, i ≤ j → j < es.length → mask[j]? = some false
  boundary : i = 0 ∨ es[i - 1]? ≠ some 0 ∨ es[i]? ≠ some 0

variable {mask : List Bool}

theorem markRuns_spec (hlen : ds.length = es.length) {fuel : ℕ} (hfuel : es.length ≤ i + fuel)
    (h : MarkedTo es ds i mask) :
    ∃ mask', markRuns maxTooSteep es ds fuel i mask = some mask' ∧ mask'.length = es.length ∧
      ∀ j < es.length, (mask'[j]? = some true ↔ Masked es ds j) := by
  induction fuel generalizing i mask with
  | zero => exact ⟨mask, rfl, h.length, fun j hj => h.marked j (by omega) hj⟩
  | succ fuel ih =>
    rw [markRuns]
    split
    case isFalse hend => exact ⟨mask, rfl, h.length, fun j hj => h.marked j (by omega) hj⟩
    case isTrue hi =>
      rw [List.getElem?_eq_getElem hi, Option.bind_eq_bind, Option.bind_some]
      split
      case isTrue hne =>
        have hread : es[i]? ≠ some 0 := by
          rw [List.getElem?_eq_getElem hi]
          exact fun heq => hne (Option.some.inj heq)
        refine ih (by omega) ⟨h.length, fun j hj hin => ?_, fun j hj hin => h.rest j (by omega) hin,
          .inr (.inl hread)⟩
        rcases Nat.lt_succ_iff_lt_or_eq.mp hj with hlt | rfl
        · exact h.marked j hlt hin
        · rw [h.rest j le_rfl hin]
          exact ⟨nofun, fun hmasked => absurd hmasked.zero hread⟩
      case isFalse hzero =>
        have hread : es[i]? = some 0 := by rw [List.getElem?_eq_getElem hi, not_not.mp hzero]
        have hrun := run_from hread (h.boundary.imp_right fun hor => hor.resolve_right (not_not_intro hread))
        obtain ⟨grades, hgrades, hflagged⟩ := grades_spec hlen hrun
        dsimp only
        rw [hgrades, Option.bind_eq_bind, Option.bind_some]
        have hlt := hrun.lt
        generalize runEndFrom es es.length i = r at hrun hflagged hlt
        refine ih (by omega) ?_
        obtain ⟨hsetLen, hset⟩ := foldl_set_true mask i (r - i)
        have hsame : ∀ j, j < i ∨ r ≤ j → j < es.length → (if maxTooSteep grades = true then
              (List.range' i (r - i)).foldl (fun mask j => mask.set j true) mask else mask)[j]? = mask[j]? := by
          intro j hj hin
          split
          · rw [hset j (by rw [h.length]; exact hin), if_neg (by omega)]
          · rfl
        refine ⟨?_, fun j hj hin => ?_, fun j hj hin => ?_, .inr (.inr hrun.after)⟩
        · split
          · rw [hsetLen, h.length]
          · exact h.length
        · rcases Nat.lt_or_ge j i with hji | hij
          · rw [hsame j (.inl hji) hin]
            exact h.marked j hji hin
          · rw [hrun.masked_iff hij hj, ← hflagged]
            split
            case isTrue hsteep =>
              rw [hset j (by rw [h.length]; exact hin), if_pos (by omega)]
              exact ⟨fun _ => hsteep, fun _ => rfl⟩
            case isFalse hsteep =>
              rw [h.rest j hij hin]
              exact ⟨nofun, fun hyes => absurd hyes hsteep⟩
        · rw [hsame j (.inr hj) hin]
          exact h.rest j (by omega) hin

theorem sentinelMask_spec (hlen : ds.length = es.length) : ∃ mask, sentinelMask es ds = some mask ∧
    mask.length = es.length ∧ ∀ j < es.length, (mask[j]? = some true ↔ Masked es ds j) := by
  have hstart : MarkedTo es ds 0 (List.replicate es.length false) :=
    ⟨List.length_replicate, fun j hj => absurd hj (Nat.not_lt_zero j),
      fun j _ hin => List.getElem?_replicate_of_lt hin, .inl rfl⟩
  unfold sentinelMask maskWith
  rw [if_neg (not_not_intro hlen)]
  exact markRuns_spec hlen (Nat.le_add_left _ _) hstart

/-! ## 5. Steps beside a zero -/

omit [IsStrictOrderedRing K] in
theorem exists_run (hzero : es[j]? = some 0) : ∃ i r, Run es i r ∧ i ≤ j ∧ j < r := by
  have hstart : ∃ i, i ≤ j ∧ (i = 0 ∨ es[i - 1]? ≠ some 0) ∧ ∀ k, i ≤ k → k ≤ j → es[k]? = some 0 := by
    induction j with
    | zero => exact ⟨0, le_rfl, .inl rfl, fun k _ hk => by rwa [Nat.le_zero.mp hk]⟩
    | succ j ih =>
      by_cases hprev : es[j]? = some 0
      · obtain ⟨i, hi, hbefore, hall⟩ := ih hprev
        refine ⟨i, by omega, hbefore, fun k hlow hhigh => ?_⟩
        rcases hhigh.eq_or_lt with rfl | hlt
        · exact hzero
        · exact hall k hlow (by omega)
      · refine ⟨j + 1, le_rfl, .inr hprev, fun k hlow hhigh => ?_⟩
        rwa [le_antisymm hhigh hlow]
  obtain ⟨i, hi, hbefore, hall⟩ := hstart
  have hrun := run_from (hall i le_rfl hi) hbefore
  refine ⟨i, _, hrun, hi, ?_⟩
  by_contra hshort
  exact hrun.after (hall _ hrun.lt.le (not_lt.mp hshort))

/-- Two samples beside one another. -/
def Beside (k j : ℕ) : Prop := k + 1 = j ∨ k = j + 1

theorem Steep.ne_zero {k : ℕ} (h : Steep es ds k j) : es[k]? ≠ some 0 := by
  obtain ⟨e, d, d', he, -, -, hfive, -⟩ := h
  rw [he]
  intro heq
  obtain rfl := Option.some.inj heq
  rw [abs_zero, Nat.cast_ofNat] at hfive
  exact absurd hfive (by norm_num)

theorem masked_of_steep {k : ℕ} (hbeside : Beside k j) (hzero : es[j]? = some 0) (h : Steep es ds k j) :
    Masked es ds j := by
  obtain ⟨i, r, hrun, hi, hr⟩ := exists_run hzero
  refine ⟨i, r, hrun, hi, hr, ?_⟩
  rcases hbeside with rfl | rfl
  · have hfirst : i = k + 1 := by
      by_contra hne
      exact h.ne_zero (hrun.zero k (by omega) (by omega))
    subst hfirst
    exact .inl ⟨Nat.succ_pos k, by rwa [Nat.add_sub_cancel]⟩
  · have hlast : r = j + 1 := by
      by_contra hne
      exact h.ne_zero (hrun.zero (j + 1) (by omega) (by omega))
    subst hlast
    exact .inr (by rwa [Nat.add_sub_cancel])

omit [IsStrictOrderedRing K] in
theorem Masked.steep (h : Masked es ds j) :
    ∃ j k, Beside k j ∧ es[j]? = some 0 ∧ Steep es ds k j := by
  obtain ⟨i, r, hrun, -, -, hflagged⟩ := h
  have hlt := hrun.lt
  rcases hflagged with ⟨hpos, hsteep⟩ | hsteep
  · exact ⟨i, i - 1, .inl (by omega), hrun.zero i le_rfl hlt, hsteep⟩
  · exact ⟨r - 1, r, .inr (by omega), hrun.zero (r - 1) (by omega) (by omega), hsteep⟩

/-! ## 6. The repaired series -/

/-- What the samples of a flagged run are filled with. -/
inductive FromBeside (es ds : List K) (i r j : ℕ) : K → Prop
  | ahead {e : K} (hi : i = 0) (hr : es[r]? = some e) : FromBeside es ds i r j e
  | behind {e : K} (hr : r = es.length) (hpos : 0 < i) (hi : es[i - 1]? = some e) : FromBeside es ds i r j e
  | between {e₀ e₁ d₀ d₁ d : K} (hpos : 0 < i) (hi : es[i - 1]? = some e₀) (hr : es[r]? = some e₁)
      (hd₀ : ds[i - 1]? = some d₀) (hd₁ : ds[r]? = some d₁) (hd : ds[j]? = some d) :
      FromBeside es ds i r j (line d₀ d₁ e₀ e₁ d)

/-- The series after a repair: as it was but for the dropouts, which are filled from beside their runs. -/
structure Repaired (es ds filled : List K) : Prop where
  length : filled.length = es.length
  kept : ∀ {j : ℕ} {e : K}, es[j]? = some e → ¬ Masked es ds j → filled[j]? = some e
  filled : ∀ {i r j : ℕ}, Run es i r → Flagged es ds i r → i ≤ j → j < r →
    ∃ v, filled[j]? = some v ∧ FromBeside es ds i r j v

/-- The series with its dropouts left out. -/
structure Holed (es ds : List K) (holed : List (Option K)) : Prop where
  length : holed.length = es.length
  hole : ∀ {j : ℕ}, Masked es ds j → holed[j]? = some none
  known : ∀ {j : ℕ} {e : K}, es[j]? = some e → ¬ Masked es ds j → holed[j]? = some (some e)

omit [IsStrictOrderedRing K] in
theorem holed_zipWith (hlen : mask.length = es.length)
    (hmask : ∀ j < es.length, (mask[j]? = some true ↔ Masked es ds j)) :
    Holed es ds (List.zipWith (fun e flag => if flag then none else some e) es mask) := by
  have hread : ∀ {j : ℕ} {e : K}, es[j]? = some e → ∃ flag, mask[j]? = some flag ∧
      (List.zipWith (fun e flag => if flag then none else some e) es mask)[j]? =
        some (if flag then none else some e) := by
    intro j e he
    have hj := (List.getElem?_eq_some_iff.mp he).1
    refine ⟨mask.get ⟨j, by omega⟩, List.getElem?_eq_getElem _, ?_⟩
    rw [List.getElem?_zipWith, he, List.getElem?_eq_getElem (by omega : j < mask.length)]
    rfl
  refine ⟨by rw [List.length_zipWith, hlen, Nat.min_self], fun {j} hmasked => ?_, fun {j e} he hnot => ?_⟩
  · obtain ⟨flag, hflag, hzip⟩ := hread hmasked.zero
    have hj := (List.getElem?_eq_some_iff.mp hmasked.zero).1
    rw [(hmask j hj).mpr hmasked] at hflag
    obtain rfl := Option.some.inj hflag
    exact hzip
  · obtain ⟨flag, hflag, hzip⟩ := hread he
    have hj := (List.getElem?_eq_some_iff.mp he).1
    cases flag with
    | true => exact absurd ((hmask j hj).mp hflag) hnot
    | false => exact hzip

omit [IsStrictOrderedRing K] in
theorem Run.next_known {b : ℕ} (h : Run es i r) (hflagged : Flagged es ds i r) (hi : i ≤ j) (hr : j < r)
    (hjb : j < b) (hall : ∀ k, j < k → k < b → Masked es ds k) (hb : ¬ Masked es ds b) : b = r := by
  refine le_antisymm (not_lt.mp fun hlt => ?_) (not_lt.mp fun hlt => ?_)
  · exact h.after (hall r hr hlt).zero
  · exact hb ⟨i, r, h, by omega, hlt, hflagged⟩

omit [IsStrictOrderedRing K] in
theorem Run.prev_known {a : ℕ} (h : Run es i r) (hflagged : Flagged es ds i r) (hi : i ≤ j) (hr : j < r)
    (haj : a < j) (hall : ∀ k, a < k → k < j → Masked es ds k) (ha : ¬ Masked es ds a) : a + 1 = i := by
  refine le_antisymm (not_lt.mp fun hlt => ?_) (not_lt.mp fun hlt => ?_)
  · exact ha ⟨i, r, h, by omega, by omega, hflagged⟩
  · rcases h.before with hzero | hne
    · omega
    · exact hne (hall (i - 1) (by omega) (by omega)).zero

omit [IsStrictOrderedRing K] in
theorem FilledAs.fromBeside {holed : List (Option K)} (h : Holed es ds holed) {v : K} (hrun : Run es i r)
    (hflagged : Flagged es ds i r) (hi : i ≤ j) (hr : j < r) (hv : FilledAs ds holed j v) :
    FromBeside es ds i r j v := by
  have hnone : ∀ {k : ℕ}, holed[k]? = some none → Masked es ds k := by
    intro k hk
    have hlt : k < es.length := by
      rw [← h.length]
      exact (List.getElem?_eq_some_iff.mp hk).1
    by_contra hnot
    rw [h.known (List.getElem?_eq_getElem hlt) hnot] at hk
    exact absurd (Option.some.inj hk) nofun
  have hsome : ∀ {k : ℕ} {e : K}, holed[k]? = some (some e) → ¬ Masked es ds k ∧ es[k]? = some e := by
    intro k e hk
    have hlt : k < es.length := by
      rw [← h.length]
      exact (List.getElem?_eq_some_iff.mp hk).1
    have hnot : ¬ Masked es ds k := by
      intro hmasked
      rw [h.hole hmasked] at hk
      exact absurd (Option.some.inj hk) nofun
    rw [h.known (List.getElem?_eq_getElem hlt) hnot] at hk
    exact ⟨hnot, by rw [List.getElem?_eq_getElem hlt, Option.some.inj (Option.some.inj hk)]⟩
  have hlt := hrun.lt
  cases hv with
  | known he => exact absurd ⟨i, r, hrun, hi, hr, hflagged⟩ (hsome he).1
  | @leading b _ hj hall hb =>
    obtain ⟨hnot, he⟩ := hsome hb
    have hbr := hrun.next_known hflagged hi hr hj (fun k _ hk => hnone (hall k hk)) hnot
    rw [hbr] at he
    refine .ahead ?_ he
    rcases hrun.before with hzero | hne
    · exact hzero
    · by_contra hpos
      exact hne (hnone (hall (i - 1) (by omega))).zero
  | @trailing a _ hj hall ha =>
    obtain ⟨hnot, he⟩ := hsome ha
    have hle := hrun.le
    rw [h.length] at hall
    have hai := hrun.prev_known hflagged hi hr hj (fun k hak hkj => hnone (hall k hak (by omega))) hnot
    have hend : r = es.length := by
      by_contra hne
      exact hrun.after (hnone (hall r (by omega) (by omega))).zero
    exact .behind hend (by omega) (by rwa [← hai, Nat.add_sub_cancel])
  | @between a b _ _ _ _ _ hlow hhigh hall ha hb hd₀ hd₁ hd =>
    obtain ⟨hnotA, heA⟩ := hsome ha
    obtain ⟨hnotB, heB⟩ := hsome hb
    have hai := hrun.prev_known hflagged hi hr hlow (fun k hak hkj => hnone (hall k hak (by omega))) hnotA
    have hbr := hrun.next_known hflagged hi hr hhigh (fun k hjk hkb => hnone (hall k (by omega) hkb)) hnotB
    subst hai hbr
    exact .between (Nat.succ_pos a) (by rwa [Nat.add_sub_cancel]) heB (by rwa [Nat.add_sub_cancel]) hd₁ hd

theorem repair_spec (hlen : ds.length = es.length) (hne : es ≠ []) :
    ∃ filled, repair es ds = some filled ∧ Repaired es ds filled := by
  obtain ⟨mask, hmask, hmaskLen, hmarked⟩ := sentinelMask_spec hlen
  have hholed := holed_zipWith hmaskLen hmarked
  have hpos := List.length_pos_of_ne_nil hne
  have hknown : ∃ (j : ℕ) (e : K),
      (List.zipWith (fun e flag => if flag then none else some e) es mask)[j]? = some (some e) := by
    by_cases hfirst : Masked es ds 0
    · -- the reading that the first run is judged by
      obtain ⟨j, k, -, -, hsteep⟩ := hfirst.steep
      have hnz := hsteep.ne_zero
      obtain ⟨e, d, d', he, -⟩ := hsteep
      exact ⟨k, e, hholed.known he fun hmasked => hnz hmasked.zero⟩
    · exact ⟨0, _, hholed.known (List.getElem?_eq_getElem hpos) hfirst⟩
  obtain ⟨filled, hfilled, hfilledLen, hall⟩ :=
    interpolateElevationGaps_spec hknown (hholed.length.trans hlen.symm).le
  rw [hholed.length] at hfilledLen hall
  refine ⟨filled, by rw [repair, hmask]; exact hfilled, hfilledLen, fun {j e} he hnot => ?_,
    fun {i r j} hrun hflagged hi hr => ?_⟩
  · obtain ⟨v, hv, hsame⟩ := hall j (List.getElem?_eq_some_iff.mp he).1
    rw [hv, hsame.eq_of_known (hholed.known he hnot)]
  · obtain ⟨v, hv, hfrom⟩ := hall j (hr.trans_le hrun.le)
    exact ⟨v, hv, hfrom.fromBeside hholed hrun hflagged hi hr⟩

/-! ## 7. Back at sea level -/

/-- A sample of a run of zeros between two readings lies where the straight line between them comes to sea
    level, the line is steeper than 45 degrees, and it is five metres off beside the sample. -/
structure RecrossesAt (es ds : List K) (a b j k : ℕ) (e₀ e₁ d₀ d₁ d d' : K) : Prop where
  zeros : ∀ i, a < i → i < b → es[i]? = some 0
  lower : a < j
  upper : j < b
  beside : Beside k j
  behind : es[a]? = some e₀
  ahead : es[b]? = some e₁
  reading : e₀ ≠ 0 ∧ e₁ ≠ 0
  start : ds[a]? = some d₀
  finish : ds[b]? = some d₁
  here : ds[j]? = some d
  there : ds[k]? = some d'
  onward : d₀ < d₁
  crosses : e₀ * (d₁ - d) + e₁ * (d - d₀) = 0
  steep : (d₁ - d₀) * ((1000 : ℕ) : K) < |e₁ - e₀|
  off : ((5 : ℕ) : K) * (d₁ - d₀) ≤ |e₁ - e₀| * |d' - d|

/-- A filled sample comes to lie at sea level again, beside one that does not. -/
def Recrosses (es ds : List K) : Prop :=
  ∃ a b j k e₀ e₁ d₀ d₁ d d', RecrossesAt es ds a b j k e₀ e₁ d₀ d₁ d d'

variable {d₀ d₁ : K}

omit [IsStrictOrderedRing K] in
theorem line_eq (hspan : d₁ - d₀ ≠ 0) (e₀ e₁ d : K) :
    line d₀ d₁ e₀ e₁ d = (e₀ * (d₁ - d) + e₁ * (d - d₀)) / (d₁ - d₀) := by
  unfold line
  dsimp only
  rw [if_neg hspan]
  field_simp
  ring

variable {e₀ e₁ : K}

omit [IsStrictOrderedRing K] in
theorem line_off {d : K} (hspan : d₁ - d₀ ≠ 0) (hcross : e₀ * (d₁ - d) + e₁ * (d - d₀) = 0) (d' : K) :
    line d₀ d₁ e₀ e₁ d' = (e₁ - e₀) * (d' - d) / (d₁ - d₀) := by
  rw [line_eq hspan]
  congr 1
  linear_combination hcross

theorem steep_line_iff {d d' : K} (honward : d₀ < d₁) (hcross : e₀ * (d₁ - d) + e₁ * (d - d₀) = 0) :
    (((5 : ℕ) : K) ≤ |line d₀ d₁ e₀ e₁ d'| ∧ |d' - d| * ((1000 : ℕ) : K) < |line d₀ d₁ e₀ e₁ d'|) ↔
      (d₁ - d₀) * ((1000 : ℕ) : K) < |e₁ - e₀| ∧ ((5 : ℕ) : K) * (d₁ - d₀) ≤ |e₁ - e₀| * |d' - d| := by
  have hspan : 0 < d₁ - d₀ := sub_pos.mpr honward
  rw [line_off hspan.ne' hcross, abs_div, abs_mul, abs_of_pos hspan, le_div_iff₀ hspan, lt_div_iff₀ hspan]
  have hfive : (0 : K) < ((5 : ℕ) : K) * (d₁ - d₀) := mul_pos (Nat.cast_pos.mpr (by decide)) hspan
  have hpos : ((5 : ℕ) : K) * (d₁ - d₀) ≤ |e₁ - e₀| * |d' - d| → 0 < |d' - d| := by
    intro hoff
    rcases (abs_nonneg (d' - d)).eq_or_lt with hzero | hpos
    · rw [← hzero, mul_zero] at hoff
      exact absurd hoff (not_le.mpr hfive)
    · exact hpos
  constructor
  · rintro ⟨hoff, hsteep⟩
    refine ⟨lt_of_mul_lt_mul_right ?_ (hpos hoff).le, hoff⟩
    calc (d₁ - d₀) * ((1000 : ℕ) : K) * |d' - d| = |d' - d| * ((1000 : ℕ) : K) * (d₁ - d₀) := by ring
      _ < |e₁ - e₀| * |d' - d| := hsteep
  · rintro ⟨hsteep, hoff⟩
    refine ⟨hoff, ?_⟩
    calc |d' - d| * ((1000 : ℕ) : K) * (d₁ - d₀) = (d₁ - d₀) * ((1000 : ℕ) : K) * |d' - d| := by ring
      _ < |e₁ - e₀| * |d' - d| := mul_lt_mul_of_pos_right hsteep (hpos hoff)

variable {filled : List K}

theorem Repaired.along (h : Repaired es ds filled) (hrun : Run es i r) (hflagged : Flagged es ds i r)
    (hpos : 0 < i) (hi : es[i - 1]? = some e₀) (hr : es[r]? = some e₁) (hd₀ : ds[i - 1]? = some d₀)
    (hd₁ : ds[r]? = some d₁) (honward : d₀ < d₁) {k : ℕ} {d : K} (hlow : i - 1 ≤ k) (hhigh : k ≤ r)
    (hd : ds[k]? = some d) :
    filled[k]? = some (line d₀ d₁ e₀ e₁ d) := by
  have hspan : d₁ - d₀ ≠ 0 := (sub_pos.mpr honward).ne'
  have hbefore : es[i - 1]? ≠ some 0 := hrun.before.resolve_left (by omega)
  rcases hlow.eq_or_lt with rfl | hlow
  · rw [hd₀] at hd
    obtain rfl := Option.some.inj hd
    rw [h.kept hi fun hmasked => hbefore hmasked.zero, line_eq hspan, sub_self, mul_zero, add_zero,
      mul_div_assoc, div_self hspan, mul_one]
  · rcases hhigh.eq_or_lt with rfl | hhigh
    · rw [hd₁] at hd
      obtain rfl := Option.some.inj hd
      rw [h.kept hr fun hmasked => hrun.after hmasked.zero, line_eq hspan, sub_self, mul_zero, zero_add,
        mul_div_assoc, div_self hspan, mul_one]
    · obtain ⟨v, hv, hfrom⟩ := h.filled (j := k) hrun hflagged (by omega) hhigh
      cases hfrom with
      | ahead hzero _ => omega
      | behind hend _ _ =>
        have hlt := (List.getElem?_eq_some_iff.mp hr).1
        omega
      | between _ hi' hr' hd₀' hd₁' hd' =>
        rw [hi] at hi'
        rw [hr] at hr'
        rw [hd₀] at hd₀'
        rw [hd₁] at hd₁'
        rw [hd] at hd'
        rw [hv, Option.some.inj hi', Option.some.inj hr', Option.some.inj hd₀', Option.some.inj hd₁',
          Option.some.inj hd']

omit [IsStrictOrderedRing K] in
theorem Repaired.zero (h : Repaired es ds filled) (hj : filled[j]? = some 0) : es[j]? = some 0 := by
  have hlt : j < es.length := by
    rw [← h.length]
    exact (List.getElem?_eq_some_iff.mp hj).1
  by_contra hne
  have hkept := h.kept (List.getElem?_eq_getElem hlt) fun hmasked => hne hmasked.zero
  rw [hj] at hkept
  exact hne (by rw [List.getElem?_eq_getElem hlt, ← Option.some.inj hkept])

theorem Repaired.recrosses (h : Repaired es ds filled) (hsorted : ds.Pairwise (· ≤ ·)) {k : ℕ}
    (hbeside : Beside k j) (hzero : filled[j]? = some 0) (hsteep : Steep filled ds k j) :
    Recrosses es ds := by
  have hz := h.zero hzero
  obtain ⟨i, r, hrun, hi, hr⟩ := exists_run hz
  have hlow : i - 1 ≤ k := by
    unfold Beside at hbeside
    omega
  have hhigh : k ≤ r := by
    unfold Beside at hbeside
    omega
  obtain ⟨e, d', d, he, hd', hd, hfive, hgrade⟩ := hsteep
  by_cases hflagged : Flagged es ds i r
  · obtain ⟨v, hv, hfrom⟩ := h.filled hrun hflagged hi hr
    rw [hzero] at hv
    obtain rfl := Option.some.inj hv
    generalize hvalue : (0 : K) = v at hfrom
    cases hfrom with
    | ahead _ hread => exact absurd (hvalue ▸ hread) hrun.after
    | behind _ hpos hread => exact absurd (hvalue ▸ hread) (hrun.before.resolve_left (by omega))
    | @between e₀ e₁ d₀ d₁ dj hpos he₀ he₁ hd₀ hd₁ hdj =>
      have hne₀ : e₀ ≠ 0 := fun heq => hrun.before.resolve_left (by omega) (heq ▸ he₀)
      have hne₁ : e₁ ≠ 0 := fun heq => hrun.after (heq ▸ he₁)
      have honward : d₀ < d₁ := by
        refine lt_of_le_of_ne (le_of_sorted hsorted (by omega) hd₀ hd₁) fun heq => hne₀ ?_
        rw [hvalue, line]
        simp [heq]
      have hspan : d₁ - d₀ ≠ 0 := (sub_pos.mpr honward).ne'
      obtain rfl := Option.some.inj (hd.symm.trans hdj)
      have hcross : e₀ * (d₁ - d) + e₁ * (d - d₀) = 0 := by
        rw [line_eq hspan] at hvalue
        exact (div_eq_zero_iff.mp hvalue.symm).resolve_right hspan
      have hk := h.along hrun hflagged hpos he₀ he₁ hd₀ hd₁ honward hlow hhigh hd'
      obtain rfl := Option.some.inj (he.symm.trans hk)
      obtain ⟨hsteep, hoff⟩ := (steep_line_iff honward hcross).mp ⟨hfive, hgrade⟩
      exact ⟨i - 1, r, j, k, e₀, e₁, d₀, d₁, d, d',
        { zeros := fun m hm hm' => hrun.zero m (by omega) hm', lower := by omega, upper := hr,
          beside := hbeside, behind := he₀, ahead := he₁, reading := ⟨hne₀, hne₁⟩, start := hd₀,
          finish := hd₁, here := hd, there := hd', onward := honward, crosses := hcross,
          steep := hsteep, off := hoff }⟩
  · -- the readings beside a run that is not flagged are as they were
    have hk : k < es.length := by
      rw [← h.length]
      exact (List.getElem?_eq_some_iff.mp he).1
    have hnot : ¬ Masked es ds k := by
      intro hmasked
      rcases Nat.lt_or_ge k i with hki | hik
      · have hbefore := hrun.before.resolve_left (by omega)
        rw [show i - 1 = k by omega] at hbefore
        exact hbefore hmasked.zero
      · rcases hhigh.eq_or_lt with rfl | hkr
        · exact hrun.after hmasked.zero
        · exact hflagged ((hrun.masked_iff hik hkr).mp hmasked)
    have hkept := h.kept (List.getElem?_eq_getElem hk) hnot
    rw [he] at hkept
    have hread : es[k]? = some e := by rw [List.getElem?_eq_getElem hk, ← Option.some.inj hkept]
    have hmasked := masked_of_steep hbeside hz ⟨e, d', d, hread, hd', hd, hfive, hgrade⟩
    exact absurd ((hrun.masked_iff hi hr).mp hmasked) hflagged

theorem steep_reading {d d' dEnd e dNext : K} {idx edge : ℕ} (honward : d₀ < d₁)
    (hcross : e₀ * (d₁ - d) + e₁ * (d - d₀) = 0) (hsteep : (d₁ - d₀) * ((1000 : ℕ) : K) < |e₁ - e₀|)
    (hoff : ((5 : ℕ) : K) * (d₁ - d₀) ≤ |e₁ - e₀| * |d' - d|) (he : es[idx]? = some e)
    (hline : line d₀ d₁ e₀ e₁ dEnd = e) (hdEnd : ds[idx]? = some dEnd) (hdNext : ds[edge]? = some dNext)
    (hfar : |d' - d| ≤ |dEnd - d|) (hnear : |dEnd - dNext| ≤ |dEnd - d|) : Steep es ds idx edge := by
  obtain ⟨hfive, hgrade⟩ := (steep_line_iff honward hcross).mpr
    ⟨hsteep, hoff.trans (mul_le_mul_of_nonneg_left hfar (abs_nonneg _))⟩
  rw [hline] at hfive hgrade
  exact ⟨e, dEnd, dNext, he, hdEnd, hdNext, hfive,
    lt_of_le_of_lt (mul_le_mul_of_nonneg_right hnear (Nat.cast_nonneg _)) hgrade⟩

theorem RecrossesAt.masked (h : Repaired es ds filled) (hsorted : ds.Pairwise (· ≤ ·)) {a b k : ℕ} {d d' : K}
    (hx : RecrossesAt es ds a b j k e₀ e₁ d₀ d₁ d d') : Masked filled ds j := by
  obtain ⟨hzeros, hlower, hupper, hbeside, he₀, he₁, hreading, hd₀, hd₁, hd, hd', honward, hcross, hsteep,
    hoff⟩ := hx
  have hspan : d₁ - d₀ ≠ 0 := (sub_pos.mpr honward).ne'
  have hrun : Run es (a + 1) b :=
    { lt := by omega
      le := (List.getElem?_eq_some_iff.mp he₁).1.le
      zero := fun m hm hm' => hzeros m hm hm'
      before := .inr (by rw [Nat.add_sub_cancel, he₀]; exact fun heq => hreading.1 (Option.some.inj heq))
      after := by rw [he₁]; exact fun heq => hreading.2 (Option.some.inj heq) }
  have hin := (List.getElem?_eq_some_iff.mp hd₁).1
  have hstart : line d₀ d₁ e₀ e₁ d₀ = e₀ := by
    rw [line_eq hspan, sub_self, mul_zero, add_zero, mul_div_assoc, div_self hspan, mul_one]
  have hend : line d₀ d₁ e₀ e₁ d₁ = e₁ := by
    rw [line_eq hspan, sub_self, mul_zero, zero_add, mul_div_assoc, div_self hspan, mul_one]
  -- the reading on the side of `k` is farther off than the line is at `k`
  have hflagged : Flagged es ds (a + 1) b := by
    rcases hbeside with hkj | hkj
    · obtain ⟨dNext, hdNext⟩ : ∃ dNext, ds[a + 1]? = some dNext := ⟨_, List.getElem?_eq_getElem (by omega)⟩
      have hnextJ := le_of_sorted hsorted (by omega) hdNext hd
      have haNext := le_of_sorted hsorted (by omega) hd₀ hdNext
      have hak := le_of_sorted hsorted (by omega) hd₀ hd'
      have hkd := le_of_sorted hsorted (by omega) hd' hd
      refine .inl ⟨Nat.succ_pos a, steep_reading honward hcross hsteep hoff he₀ hstart hd₀ hdNext ?_ ?_⟩
      · rw [abs_sub_comm, abs_sub_comm d₀ d, abs_of_nonneg (by linarith), abs_of_nonneg (by linarith)]
        linarith
      · rw [abs_sub_comm, abs_sub_comm d₀ d, abs_of_nonneg (by linarith), abs_of_nonneg (by linarith)]
        linarith
    · obtain ⟨dPrev, hdPrev⟩ : ∃ dPrev, ds[b - 1]? = some dPrev := ⟨_, List.getElem?_eq_getElem (by omega)⟩
      have hjPrev := le_of_sorted hsorted (by omega) hd hdPrev
      have hprevB := le_of_sorted hsorted (by omega) hdPrev hd₁
      have hkb := le_of_sorted hsorted (by omega) hd' hd₁
      have hdk := le_of_sorted hsorted (by omega) hd hd'
      refine .inr (steep_reading honward hcross hsteep hoff he₁ hend hd₁ hdPrev ?_ ?_)
      · rw [abs_of_nonneg (by linarith), abs_of_nonneg (by linarith)]
        linarith
      · rw [abs_of_nonneg (by linarith), abs_of_nonneg (by linarith)]
        linarith
  have halong : ∀ {m : ℕ} {x : K}, a ≤ m → m ≤ b → ds[m]? = some x → filled[m]? = some (line d₀ d₁ e₀ e₁ x) :=
    fun hlow hhigh hx => h.along hrun hflagged (Nat.succ_pos a) (by rwa [Nat.add_sub_cancel]) he₁
      (by rwa [Nat.add_sub_cancel]) hd₁ honward (by omega) hhigh hx
  have hzero : filled[j]? = some 0 := by rw [halong hlower.le hupper.le hd, line_eq hspan, hcross, zero_div]
  have hk : a ≤ k ∧ k ≤ b := by
    unfold Beside at hbeside
    omega
  obtain ⟨hfive, hgrade⟩ := (steep_line_iff honward hcross).mpr ⟨hsteep, hoff⟩
  exact masked_of_steep hbeside hzero ⟨_, d', d, halong hk.1 hk.2 hd', hd', hd, hfive, hgrade⟩

/-! ## 8. The repair settles -/

/-- What a repair has given: every reading is spared, and there is no dropout, so that the next repair does
    nothing. -/
structure Settled (es ds : List K) (mask : List Bool) (filled : List K) : Prop where
  length : filled.length = es.length
  spared : ∀ (j : ℕ) (e : K), es[j]? = some e → mask[j]? = some false → filled[j]? = some e
  clean : sentinelMask filled ds = some (List.replicate es.length false)
  again : repair filled ds = some filled

/-- The repair answers with such a series. -/
def Settles (es ds : List K) : Prop :=
  ∃ mask filled, sentinelMask es ds = some mask ∧ repair es ds = some filled ∧ Settled es ds mask filled

omit [IsStrictOrderedRing K] in
theorem eq_replicate_false {n : ℕ} (hlen : mask.length = n) (hall : ∀ j < n, mask[j]? ≠ some true) :
    mask = List.replicate n false := by
  refine List.eq_replicate_iff.mpr ⟨hlen, fun b hb => ?_⟩
  obtain ⟨j, hj⟩ := List.mem_iff_getElem?.mp hb
  cases b with
  | false => rfl
  | true => exact absurd hj (hall j (hlen ▸ (List.getElem?_eq_some_iff.mp hj).1))

omit [IsStrictOrderedRing K] in
theorem repair_clean {es : List K} (hne : es ≠ [])
    (hclean : sentinelMask es ds = some (List.replicate es.length false)) : repair es ds = some es := by
  have hholed : List.zipWith (fun e flag => if flag then none else some e) es
      (List.replicate es.length false) = es.map some := by
    refine List.ext_getElem (by simp) fun j hj hj' => ?_
    rw [List.getElem_zipWith, List.getElem_replicate, List.getElem_map]
    rfl
  rw [repair, hclean, Option.bind_eq_bind, Option.bind_some, hholed, interpolateElevationGaps_full ds hne]

theorem settles_of_sorted (hlen : ds.length = es.length) (hsorted : ds.Pairwise (· ≤ ·)) :
    Settles es ds ↔ es ≠ [] ∧ ¬ Recrosses es ds := by
  constructor
  · rintro ⟨mask, filled, hmask, hfilled, hsettled⟩
    have hne : es ≠ [] := by
      rintro rfl
      rw [repair, hmask, Option.bind_eq_bind, Option.bind_some, List.zipWith_nil_left] at hfilled
      exact absurd hfilled nofun
    refine ⟨hne, ?_⟩
    rintro ⟨a, b, j, k, e₀, e₁, d₀, d₁, d, d', hx⟩
    obtain ⟨filled', hfilled', hrepaired⟩ := repair_spec hlen hne
    obtain rfl := Option.some.inj (hfilled.symm.trans hfilled')
    have hmasked := hx.masked hrepaired hsorted
    have hj : j < filled.length := (List.getElem?_eq_some_iff.mp hmasked.zero).1
    obtain ⟨mask', hmask', -, hmarked⟩ := sentinelMask_spec (hlen.trans hsettled.length.symm)
    obtain rfl := Option.some.inj (hmask'.symm.trans hsettled.clean)
    have htrue := (hmarked j hj).mpr hmasked
    rw [List.getElem?_replicate_of_lt (hsettled.length ▸ hj)] at htrue
    exact absurd htrue nofun
  · rintro ⟨hne, hnot⟩
    obtain ⟨filled, hfilled, hrepaired⟩ := repair_spec hlen hne
    obtain ⟨mask, hmask, -, hmarked⟩ := sentinelMask_spec hlen
    obtain ⟨mask', hmask', hmaskLen', hmarked'⟩ := sentinelMask_spec (hlen.trans hrepaired.length.symm)
    have hnone : ∀ j < filled.length, mask'[j]? ≠ some true := by
      intro j hj htrue
      obtain ⟨j', k, hbeside, hzero, hsteep⟩ := ((hmarked' j hj).mp htrue).steep
      exact hnot (hrepaired.recrosses hsorted hbeside hzero hsteep)
    rw [eq_replicate_false hmaskLen' hnone] at hmask'
    have hne' : filled ≠ [] := by
      intro hnil
      rw [hnil] at hrepaired
      exact hne (List.length_eq_zero_iff.mp hrepaired.length.symm)
    refine ⟨mask, filled, hmask, hfilled, hrepaired.length, fun j e he hfalse => ?_, ?_,
      repair_clean hne' hmask'⟩
    · refine hrepaired.kept he fun hmasked => ?_
      have htrue := (hmarked j (List.getElem?_eq_some_iff.mp he).1).mpr hmasked
      rw [hfalse] at htrue
      exact absurd htrue nofun
    · rw [hmask', hrepaired.length]

variable (K) in
/-- **The repair, and its two sides**: device and server mark the same zeros of any two lists and fill holes
    with the same values; with distances in order, the repair answers, spares every reading and leaves
    nothing for a second one exactly where there is a reading at all and no filled sample comes to lie at
    sea level again. -/
theorem repair_settles_iff : (∀ es ds : List K, Device.sentinelMask es ds = sentinelMask es ds) ∧
      (∀ (ds : List K) (holed : List (Option K)),
        Device.interpolateElevationGaps ds holed = interpolateElevationGaps ds holed) ∧
      ∀ es ds : List K, ds.length = es.length → ds.Pairwise (· ≤ ·) →
        (Settles es ds ↔ es ≠ [] ∧ ¬ Recrosses es ds) :=
  ⟨Device.sentinelMask_eq, Device.interpolateElevationGaps_eq, fun _ _ => settles_of_sorted⟩

end

/-! ### Two tracks -/

/-- Two readings on either side of sea level, five metres from a dropout between them. -/
def dike : List ℚ × List ℚ := ([-10, 0, 10], [0, 1 / 200, 1 / 100])

theorem dike_again : repair dike.1 dike.2 = some dike.1 ∧
    sentinelMask dike.1 dike.2 = some [false, true, false] := by
  decide +kernel

theorem repair_settles_fails_dike : dike.2.Pairwise (· ≤ ·) ∧ dike.2.length = dike.1.length ∧
    repair dike.1 dike.2 = some dike.1 ∧ sentinelMask dike.1 dike.2 = some [false, true, false] ∧
      ¬ Settles dike.1 dike.2 := by
  refine ⟨by decide +kernel, rfl, dike_again.1, dike_again.2, ?_⟩
  rintro ⟨mask, filled, -, hfilled, hsettled⟩
  obtain rfl := Option.some.inj (dike_again.1.symm.trans hfilled)
  have hclean := dike_again.2.symm.trans hsettled.clean
  exact absurd (Option.some.inj hclean) (by decide)

/-- A dropout in the hills. -/
theorem repair_settles_iff_hill : repair [500, 0, 520] ([0, 1 / 10, 1 / 5] : List ℚ) = some [500, 510, 520] ∧
    (Settles [500, 0, 520] ([0, 1 / 10, 1 / 5] : List ℚ) ↔
      ([500, 0, 520] : List ℚ) ≠ [] ∧ ¬ Recrosses [500, 0, 520] ([0, 1 / 10, 1 / 5] : List ℚ)) :=
  ⟨by decide +kernel, (repair_settles_iff ℚ).2.2 [500, 0, 520] [0, 1 / 10, 1 / 5] rfl (by decide +kernel)⟩

end TraxJourney.Track
