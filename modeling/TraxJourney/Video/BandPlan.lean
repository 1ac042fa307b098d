/-
  File:      Video/BandPlan.lean
  Subject:   The plan of a trip video's basemap within a budget of tiles: `plan_bands` of
             `src/video/basemap_bands.py`.

  * **`planBands_sound`** -- every frame has positive weights that sum to 1 and sheets that hold its
    viewport, and sheets of several frames keep within the area cap.
-/
import TraxJourney.Video.Bands

namespace TraxJourney.Video

open Lib Lib.Numerals Geo Poster

variable {K : Type*}

/-! ## 1. Bands of a plan -/

variable {bands refs : List (ℕ × K)}

theorem Planner.FrameIn.of_ref {p : Planner} {n : ℕ} {rectOf : ℕ → Rect} (h : p.FrameIn n rectOf bands refs)
    {ref : ℕ × K} (href : ref ∈ refs) :
    ∃ band ∈ bands, ref.2 = band.2 ∧ p.PlacedAt n band.1 (rectOf band.1) ref.1 := by
  induction h with
  | nil => exact absurd href List.not_mem_nil
  | cons hplaced _ ih =>
    rcases List.mem_cons.mp href with rfl | href
    · exact ⟨_, List.mem_cons_self, hplaced⟩
    · obtain ⟨band, hband, hfound⟩ := ih href
      exact ⟨band, List.mem_cons_of_mem _ hband, hfound⟩

theorem Planner.FrameIn.weights {p : Planner} {n : ℕ} {rectOf : ℕ → Rect}
    (h : p.FrameIn n rectOf bands refs) : refs.map Prod.snd = bands.map Prod.snd := by
  induction h with
  | nil => rfl
  | cons hplaced _ ih => rw [List.map_cons, List.map_cons, hplaced.1, ih]

variable [Field K] [LinearOrder K] [FloorRing K] (M : MapMath K) (exp2 : K → K) (size : Size)

theorem plan_band (shots : List (Shot K)) (maxBand : Option ℤ) :
    ∀ s ∈ (plan M exp2 size shots maxBand).sheets,
      ∃ shot ∈ shots, ∃ band ∈ bandWeights shot.zoom maxBand, s.band = band.1 := by
  intro s hs
  have hspec := plan_spec M exp2 size shots maxBand
  obtain ⟨j, hj⟩ := List.getElem?_of_mem hs
  obtain ⟨m, refs, hrefs, hused, -⟩ := hspec.fresh j s hj (Nat.zero_le j)
  have hm : m < shots.length := hspec.length ▸ (List.getElem?_eq_some_iff.mp hrefs).1
  have hframe := hspec.frame m shots[m] refs (List.getElem?_eq_getElem hm) hrefs
  obtain ⟨ref, href, rfl⟩ := List.mem_map.mp hused
  obtain ⟨band, hband, -, t, ht, hsame, -⟩ := hframe.of_ref href
  obtain rfl : s = t := Option.some.inj (hj.symm.trans ht)
  exact ⟨shots[m], List.getElem_mem hm, band, hband, hsame⟩

def topBand (sheets : List Sheet) : Option ℕ := (sheets.map Sheet.band).max?

theorem topBand_le {sheets : List Sheet} {bound : ℕ} (h : ∀ s ∈ sheets, s.band ≤ bound) :
    (topBand sheets).getD 0 ≤ bound := by
  unfold topBand
  cases hmax : (sheets.map Sheet.band).max? with
  | none => exact Nat.zero_le bound
  | some top =>
    obtain ⟨s, hs, rfl⟩ := List.mem_map.mp (List.max?_eq_some_iff.mp hmax).1
    exact h s hs

theorem plan_topBand_le (shots : List (Shot K)) (top : ℕ) :
    (topBand (plan M exp2 size shots (some (top : ℤ))).sheets).getD 0 ≤ top :=
  topBand_le fun s hs => by
    obtain ⟨shot, -, band, hband, hsame⟩ := plan_band M exp2 size shots (some (top : ℤ)) s hs
    exact hsame ▸ bandWeights_le band hband

/-! ## 2. The budget -/

/-- The loop of `plan_bands`; of no sheets there is no `max`. -/
def lowered (shots : List (Shot K)) (maxTiles : ℤ) (p : BandPlan K) : Option (BandPlan K) :=
  if maxTiles < p.tiles then
    match htop : topBand p.sheets with
    | none => none
    | some top =>
      if hzero : top = 0 then some p
      else lowered shots maxTiles (plan M exp2 size shots (some ((top - 1 : ℕ) : ℤ)))
  else some p
termination_by (topBand p.sheets).getD 0
decreasing_by
  have hle := plan_topBand_le M exp2 size shots (top - 1)
  rw [htop, Option.getD_some]
  omega

def planBands (shots : List (Shot K)) (maxTiles : ℤ) : Option (BandPlan K) :=
  lowered M exp2 size shots maxTiles (plan M exp2 size shots none)

variable {M exp2 size}

theorem plan_tiles (shots : List (Shot K)) (maxBand : Option ℤ) : (plan M exp2 size shots maxBand).tiles =
      ((plan M exp2 size shots maxBand).sheets.map (Sheet.tiles M)).sum := rfl

variable {shots : List (Shot K)}

theorem lowered_eq {maxTiles : ℤ} (p : BandPlan K) (hp : ∃ cap, p = plan M exp2 size shots cap)
    {q : BandPlan K} (h : lowered M exp2 size shots maxTiles p = some q) :
    (∃ cap, q = plan M exp2 size shots cap) ∧ (q.tiles ≤ maxTiles ∨ ∀ s ∈ q.sheets, s.band = 0) := by
  fun_induction lowered M exp2 size shots maxTiles p with
  | case1 p hover htop => cases h
  | case2 p hover htop =>
    cases h
    refine ⟨hp, .inr fun s hs => ?_⟩
    exact Nat.le_zero.mp ((List.max?_eq_some_iff.mp htop).2 s.band (List.mem_map_of_mem hs))
  | case3 p hover top htop hzero ih => exact ih ⟨_, rfl⟩ h
  | case4 p hfits =>
    cases h
    exact ⟨hp, .inl (not_lt.mp hfits)⟩

theorem lowered_isSome {maxTiles : ℤ} (hbudget : 0 ≤ maxTiles) (p : BandPlan K)
    (hp : ∃ cap, p = plan M exp2 size shots cap) : ∃ q, lowered M exp2 size shots maxTiles p = some q := by
  fun_induction lowered M exp2 size shots maxTiles p with
  | case1 p hover htop =>
    -- no sheets
    obtain ⟨cap, rfl⟩ := hp
    have hnone : (plan M exp2 size shots cap).sheets = [] :=
      List.map_eq_nil_iff.mp (List.max?_eq_none_iff.mp htop)
    rw [plan_tiles, hnone, List.map_nil, List.sum_nil] at hover
    omega
  | case2 p hover htop => exact ⟨p, rfl⟩
  | case3 p hover top htop hzero ih => exact ih ⟨_, rfl⟩
  | case4 p hfits => exact ⟨p, rfl⟩

theorem planBands_eq {maxTiles : ℤ} {p : BandPlan K} (h : planBands M exp2 size shots maxTiles = some p) :
    (∃ cap, p = plan M exp2 size shots cap) ∧ (p.tiles ≤ maxTiles ∨ ∀ s ∈ p.sheets, s.band = 0) :=
  lowered_eq _ ⟨none, rfl⟩ h

variable (M exp2 size) in
theorem planBands_isSome (shots : List (Shot K)) {maxTiles : ℤ} (hbudget : 0 ≤ maxTiles) :
    ∃ p, planBands M exp2 size shots maxTiles = some p :=
  lowered_isSome hbudget _ ⟨none, rfl⟩

/-! ## 3. Every plan -/

theorem plan_in_use {maxBand : Option ℤ} {n : ℕ} {shot : Shot K} (hshot : shots[n]? = some shot)
    (hrefs : (plan M exp2 size shots maxBand).frames[n]? = some refs) {ref : ℕ × K} (href : ref ∈ refs) :
    ∃ s : Sheet, (plan M exp2 size shots maxBand).sheets[ref.1]? = some s ∧ s.first ≤ n ∧ n ≤ s.last ∧
      (rectOf M exp2 size shot s.band).In s.toRect := by
  have hframe := (plan_spec M exp2 size shots maxBand).frame n shot refs hshot hrefs
  rw [Nat.zero_add] at hframe
  obtain ⟨band, -, -, s, hs, hband, hfirst, hlast, hin⟩ := hframe.of_ref href
  exact ⟨s, hs, hfirst, hlast, hband ▸ hin⟩

variable (M exp2 size) in
/-- **The plan is sound.** -/
theorem planBands_sound [IsStrictOrderedRing K] (shots : List (Shot K)) {maxTiles : ℤ}
    (hbudget : 0 ≤ maxTiles) :
    ∃ p, planBands M exp2 size shots maxTiles = some p ∧ p.frames.length = shots.length ∧
      (∀ (n : ℕ) (shot : Shot K) (refs : List (ℕ × K)), shots[n]? = some shot → p.frames[n]? = some refs →
        (∀ ref ∈ refs, 0 < ref.2) ∧ (refs.map Prod.snd).sum = 1 ∧
          ∀ ref ∈ refs, ∃ s : Sheet, p.sheets[ref.1]? = some s ∧ s.first ≤ n ∧ n ≤ s.last ∧
            s.toRect.Holds (viewRect M exp2 shot s.band size) s.band) ∧
      (∀ (i n m : ℕ) (s : Sheet) (refs refs' : List (ℕ × K)), p.sheets[i]? = some s →
        p.frames[n]? = some refs → i ∈ refs.map Prod.fst → p.frames[m]? = some refs' →
        i ∈ refs'.map Prod.fst → n < m → s.area ≤ sheetMaxFrames * size.1 * size.2) ∧
      p.tiles = (p.sheets.map (Sheet.tiles M)).sum ∧
      (p.tiles ≤ maxTiles ∨ ∀ s ∈ p.sheets, s.band = 0) := by
  obtain ⟨p, hp⟩ := planBands_isSome M exp2 size shots hbudget
  obtain ⟨⟨cap, rfl⟩, hfits⟩ := planBands_eq hp
  have hspec := plan_spec M exp2 size shots cap
  have huse : ∀ (i n : ℕ) (s : Sheet) (refs : List (ℕ × K)),
      (plan M exp2 size shots cap).sheets[i]? = some s →
      (plan M exp2 size shots cap).frames[n]? = some refs → i ∈ refs.map Prod.fst →
      s.first ≤ n ∧ n ≤ s.last := by
    intro i n s refs hs hrefs hi
    obtain ⟨ref, href, rfl⟩ := List.mem_map.mp hi
    have hn : n < shots.length := hspec.length ▸ (List.getElem?_eq_some_iff.mp hrefs).1
    obtain ⟨t, ht, hfirst, hlast, -⟩ := plan_in_use (List.getElem?_eq_getElem hn) hrefs href
    obtain rfl : s = t := Option.some.inj (hs.symm.trans ht)
    exact ⟨hfirst, hlast⟩
  refine ⟨_, hp, hspec.length, ?frames, ?area, rfl, hfits⟩
  case frames =>
    intro n shot refs hshot hrefs
    have hframe := hspec.frame n shot refs hshot hrefs
    refine ⟨fun ref href => ?_, ?_, fun ref href => ?_⟩
    · obtain ⟨band, hband, hweight, -⟩ := hframe.of_ref href
      exact hweight ▸ bandWeights_pos band hband
    · rw [hframe.weights]
      exact bandWeights_sum shot.zoom cap
    · obtain ⟨s, hs, hfirst, hlast, hin⟩ := plan_in_use hshot hrefs href
      exact ⟨s, hs, hfirst, hlast, (frameRect_holds _ _).mono hin⟩
  case area =>
    intro i n m s refs refs' hs hrefs hi hrefs' hi' hlt
    refine hspec.tidy.area s (List.mem_of_getElem? hs) ?_
    exact lt_of_le_of_lt (huse i n s refs hs hrefs hi).1 (hlt.trans_le (huse i m s refs' hs hrefs' hi').2)

def maxTiles : ℤ := 3000

/-- Two frames of the real map, within the usual budget. -/
theorem planBands_sound_real : ∃ p, planBands realMap (fun x => (2 : ℝ) ^ x) (1920, 1080)
      [⟨0, 0, 3, false⟩, ⟨1, 0, 7 / 2, false⟩] maxTiles = some p ∧ p.frames.length = 2 ∧
    (p.tiles ≤ maxTiles ∨ ∀ s ∈ p.sheets, s.band = 0) := by
  obtain ⟨p, hp, hlength, -, -, -, hfits⟩ := planBands_sound realMap
    (fun x => (2 : ℝ) ^ x) (1920, 1080) [⟨0, 0, 3, false⟩, ⟨1, 0, 7 / 2, false⟩]
    (by decide : (0 : ℤ) ≤ maxTiles)
  exact ⟨p, hp, hlength, hfits⟩

end TraxJourney.Video
