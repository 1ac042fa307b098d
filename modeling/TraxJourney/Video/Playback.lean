/-
  File:      Video/Playback.lean
  Subject:   The clocks of a trip video's timeline: what `ease_clock`, the two bisections and
             `build_timeline` of `src/video/timeline.py` give.

  * `Timeline.Sound` -- legs, clips, room between the cards, times that follow each other, and the trip's
    legs in order; **`buildTimeline_sound`** -- a timeline that is built is such.
-/
import TraxJourney.Video.Timeline

namespace TraxJourney.Video

open Lib Lib.Numerals

section Playback

variable {K : Type*} [Field K] [LinearOrder K] [IsStrictOrderedRing K]

/-! ## 1. The eased clock -/

/-- What a ramp has covered of its length: half of it at its end. -/
def rampShare (tau : K) : K := tau ^ 3 - tau ^ 4 / 2

/-- The eased clock of a clip, for a ramp length and a speed between the ramps. -/
def eased (duration e v u : K) : K :=
  if u < e then v * e * rampShare (u / e)
  else if duration - e < u then duration - v * e * rampShare ((duration - u) / e)
  else v * (e / 2 + (u - e))

theorem rampShare_mono {a b : K} (ha : 0 ≤ a) (hab : a ≤ b) (hb : b ≤ 1) : rampShare a ≤ rampShare b := by
  have hhalf : (a + b) / 2 ≤ 1 := by linarith
  have hsquares : (a + b) / 2 * (a ^ 2 + b ^ 2) ≤ a ^ 2 + b ^ 2 := mul_le_of_le_one_left (by positivity) hhalf
  have hmixed : 0 ≤ a * b := mul_nonneg ha (ha.trans hab)
  have hslope : 0 ≤ a ^ 2 + a * b + b ^ 2 - (a + b) / 2 * (a ^ 2 + b ^ 2) := by linarith
  have hrise : rampShare b - rampShare a = (b - a) * (a ^ 2 + a * b + b ^ 2 - (a + b) / 2 * (a ^ 2 + b ^ 2)) := by
    unfold rampShare
    ring
  exact sub_nonneg.mp (hrise ▸ mul_nonneg (sub_nonneg.mpr hab) hslope)

theorem rampShare_pos {a : K} (ha : 0 < a) (hb : a ≤ 1) : 0 < rampShare a := by
  have hfactor : rampShare a = a ^ 3 * (1 - a / 2) := by
    unfold rampShare
    ring
  rw [hfactor]
  exact mul_pos (pow_pos ha 3) (by linarith)

theorem rampShare_between {e v u : K} (he : 0 < e) (hv : 0 < v) (hu : 0 ≤ u) (hue : u ≤ e) :
    0 ≤ v * e * rampShare (u / e) ∧ v * e * rampShare (u / e) ≤ v * e / 2 := by
  have hve : 0 ≤ v * e := (mul_pos hv he).le
  have hquot : 0 ≤ u / e := div_nonneg hu he.le
  have hone : u / e ≤ 1 := (div_le_one he).mpr hue
  have hzero : rampShare (0 : K) = 0 := by norm_num [rampShare]
  have hhalf : rampShare (1 : K) = 1 / 2 := by norm_num [rampShare]
  have hlow : 0 ≤ rampShare (u / e) := hzero ▸ rampShare_mono le_rfl hquot hone
  have hhigh : rampShare (u / e) ≤ 1 / 2 := hhalf ▸ rampShare_mono hquot hone le_rfl
  refine ⟨mul_nonneg hve hlow, ?_⟩
  calc v * e * rampShare (u / e) ≤ v * e * (1 / 2) := mul_le_mul_of_nonneg_left hhigh hve
    _ = v * e / 2 := by ring

section Eased

variable {duration e v : K} (he : 0 < e) (hv : 0 < v) (hroom : 2 * e ≤ duration)
  (hspeed : v * (duration - e) = duration)

include he hv hroom hspeed

omit he hroom in
theorem eased_between {u : K} (hlow : e ≤ u) (hhigh : u ≤ duration - e) :
    v * e / 2 ≤ v * (e / 2 + (u - e)) ∧ v * (e / 2 + (u - e)) ≤ duration - v * e / 2 := by
  have hfirst : 0 ≤ v * (u - e) := mul_nonneg hv.le (by linarith)
  have hlast : 0 ≤ v * (duration - e - u) := mul_nonneg hv.le (by linarith)
  constructor
  · linarith
  · linarith

theorem eased_mono {a b : K} (ha : 0 ≤ a) (hab : a ≤ b) (hb : b ≤ duration) :
    eased duration e v a ≤ eased duration e v b := by
  have hve : 0 ≤ v * e := (mul_pos hv he).le
  have hgap : v * e / 2 ≤ duration - v * e / 2 := by
    have hwide : 0 ≤ v * (duration - 2 * e) := mul_nonneg hv.le (by linarith)
    linarith
  have hramp : ∀ {x y : K}, 0 ≤ x → x ≤ y → y ≤ e → v * e * rampShare (x / e) ≤ v * e * rampShare (y / e) := by
    intro x y hx hxy hy
    refine mul_le_mul_of_nonneg_left (rampShare_mono (div_nonneg hx he.le) ?_ ((div_le_one he).mpr hy)) hve
    exact div_le_div_of_nonneg_right hxy he.le
  unfold eased
  split
  case isTrue hae =>
    have hlow := (rampShare_between he hv ha hae.le).2
    split
    case isTrue hbe => exact hramp ha hab hbe.le
    case isFalse hbe =>
      split
      case isTrue hlate =>
        have hhigh := (rampShare_between (u := duration - b) he hv (by linarith) (by linarith)).2
        linarith
      case isFalse hmid => exact hlow.trans (eased_between hv hspeed (not_lt.mp hbe) (not_lt.mp hmid)).1
  case isFalse hae =>
    rw [if_neg fun hbe : b < e => hae (hab.trans_lt hbe)]
    split
    case isTrue hlate =>
      rw [if_pos (hlate.trans_le hab)]
      have hback := hramp (x := duration - b) (y := duration - a) (by linarith) (by linarith)
        (by linarith)
      linarith
    case isFalse hmid =>
      split
      case isTrue hlate =>
        have hhigh := (rampShare_between (u := duration - b) he hv (by linarith) (by linarith)).2
        have hmiddle := (eased_between hv hspeed (not_lt.mp hae) (not_lt.mp hmid)).2
        linarith
      case isFalse => exact mul_le_mul_of_nonneg_left (by linarith) hv.le

theorem eased_within {u : K} (hu : 0 ≤ u) (hlt : u < duration) :
    0 ≤ eased duration e v u ∧ eased duration e v u < duration := by
  have hve : 0 < v * e := mul_pos hv he
  have hwide : 0 ≤ v * (duration - 2 * e) := mul_nonneg hv.le (by linarith)
  unfold eased
  split
  case isTrue hue =>
    obtain ⟨hlow, hhigh⟩ := rampShare_between he hv hu hue.le
    exact ⟨hlow, by linarith⟩
  case isFalse hue =>
    split
    case isTrue hlate =>
      obtain ⟨-, hhigh⟩ := rampShare_between (u := duration - u) he hv (by linarith) (by linarith)
      have hpos : 0 < v * e * rampShare ((duration - u) / e) :=
        mul_pos hve (rampShare_pos (div_pos (by linarith) he) ((div_le_one he).mpr (by linarith)))
      exact ⟨by linarith, by linarith⟩
    case isFalse hmid =>
      obtain ⟨hlow, hhigh⟩ := eased_between hv hspeed (not_lt.mp hue) (not_lt.mp hmid)
      exact ⟨by linarith, by linarith⟩

end Eased

theorem easeClock_spec {duration : K} (hpos : 0 < duration) :
    ∃ clock : K → K, (∀ u, easeClock u duration = some (clock u)) ∧ (∀ a b, a ≤ b → clock a ≤ clock b) ∧
      ∀ u, 0 ≤ u → u < duration → 0 ≤ clock u ∧ clock u < duration := by
  obtain ⟨e, he⟩ : ∃ e : K, e = min easeS (easeFraction * duration) := ⟨_, rfl⟩
  have hfraction : (0 : K) < easeFraction := by norm_num [easeFraction]
  have hlong : (0 : K) < easeS := by norm_num [easeS]
  have hepos : 0 < e := he ▸ lt_min hlong (mul_pos hfraction hpos)
  have hfifth : e ≤ duration / 5 := by
    calc e ≤ easeFraction * duration := he ▸ min_le_right _ _
      _ = duration / 5 := by rw [easeFraction, one_div_mul_eq_div]
  have hrest : 0 < duration - e := by linarith
  have hroom : 2 * e ≤ duration := by linarith
  have hv : 0 < duration / (duration - e) := div_pos hpos hrest
  have hspeed : duration / (duration - e) * (duration - e) = duration := div_mul_cancel₀ _ hrest.ne'
  have hclamp : ∀ u : K, 0 ≤ min (max u 0) duration ∧ min (max u 0) duration ≤ duration := fun u =>
    ⟨le_min (le_max_right u 0) hpos.le, min_le_right _ _⟩
  refine ⟨fun u => eased duration e (duration / (duration - e)) (min (max u 0) duration), ?_, ?_, ?_⟩
  · intro u
    have hramp : ∀ x, divide x e = some (x / e) := fun x => if_neg hepos.ne'
    have hv' : divide duration (duration - e) = some (duration / (duration - e)) := if_neg hrest.ne'
    unfold easeClock eased
    dsimp only
    rw [if_neg (not_le.mpr hpos), ← he, hv', Option.bind_some, hramp, hramp, Option.map_some,
      Option.map_some, Option.map_some]
    split
    · rfl
    · split
      · rfl
      · rfl
  · intro a b hab
    exact eased_mono hepos hv hroom hspeed (hclamp a).1
      (min_le_min_right _ (max_le_max_right _ hab)) (hclamp b).2
  · intro u hu hlt
    dsimp only
    rw [max_eq_left hu, min_eq_left hlt.le]
    exact eased_within hepos hv hroom hspeed hu hlt

/-! ## 2. The clip and the leg at a time -/

omit [Field K] [IsStrictOrderedRing K] in
theorem bisectRight_cons (a : K) (xs : List K) (x : K) :
    bisectRight (a :: xs) x = if a ≤ x then bisectRight xs x + 1 else 0 := by
  unfold bisectRight
  rw [List.takeWhile_cons]
  by_cases hx : a ≤ x
  · rw [decide_eq_true hx, if_pos rfl, if_pos hx, List.length_cons]
  · rw [decide_eq_false hx, if_neg Bool.false_ne_true, if_neg hx, List.length_nil]

omit [Field K] [IsStrictOrderedRing K] in
theorem bisectRight_mono (xs : List K) {x y : K} (h : x ≤ y) : bisectRight xs x ≤ bisectRight xs y := by
  induction xs with
  | nil => exact le_rfl
  | cons a xs ih =>
    rw [bisectRight_cons, bisectRight_cons]
    by_cases hx : a ≤ x
    · rw [if_pos hx, if_pos (hx.trans h)]
      exact Nat.succ_le_succ ih
    · rw [if_neg hx]
      exact Nat.zero_le _

omit [Field K] [IsStrictOrderedRing K] in
theorem Tiled.find {duration t x : K} {subs : List (TimedLeg K)} (h : Tiled t duration subs) (hx : t ≤ x)
    (hlt : x < duration) :
    ∃ sub, subs[bisectRight (subs.map TimedLeg.endS) x]? = some sub ∧ sub.startS ≤ x ∧ x < sub.endS := by
  induction subs generalizing t with
  | nil =>
    have hend : t = duration := h
    exact absurd hlt (not_lt.mpr (hend ▸ hx))
  | cons sub rest ih =>
    obtain ⟨hstart, -, hrest⟩ := h
    rw [List.map_cons, bisectRight_cons]
    by_cases hpast : sub.endS ≤ x
    · rw [if_pos hpast, List.getElem?_cons_succ]
      exact ih hrest hpast
    · rw [if_neg hpast]
      exact ⟨sub, rfl, hstart ▸ hx, not_le.mp hpast⟩

omit [IsStrictOrderedRing K] in
theorem Laid.find {clipsEnd a t : K} {clips : List (TimedClip K)} (h : Laid clipsEnd a clips)
    (hne : clips ≠ []) (ha : a ≤ t) (hlt : t < clipsEnd) :
    ∃ i clip, bisectRight (clips.map TimedClip.startS) t = i + 1 ∧ clips[i]? = some clip ∧
      clip.startS ≤ t ∧ t < clip.endS ∧ Tiled 0 (clip.endS - clip.startS) clip.subs := by
  induction clips generalizing a with
  | nil => exact absurd rfl hne
  | cons clip rest ih =>
    obtain ⟨hstart, htiled, hend, hrest⟩ := h
    have hbegun : clip.startS ≤ t := hstart ▸ ha
    rw [List.map_cons, bisectRight_cons, if_pos hbegun]
    cases rest with
    | nil =>
      have hend : clip.endS = clipsEnd := hend
      have hinside : t < clip.endS := hend ▸ hlt
      exact ⟨0, clip, rfl, rfl, hbegun, hinside, htiled (hbegun.trans hinside.le)⟩
    | cons next rest =>
      rw [if_neg (List.cons_ne_nil next rest)] at hend
      by_cases hpast : clip.endS ≤ t
      · obtain ⟨i, found, hi, hfound, hin⟩ := ih hrest (List.cons_ne_nil next rest) hpast
        exact ⟨i + 1, found, congrArg (· + 1) hi, hfound, hin⟩
      · have hnext : next.startS = clip.endS := hrest.1
        rw [List.map_cons, bisectRight_cons, hnext, if_neg hpast]
        exact ⟨0, clip, rfl, rfl, hbegun, not_le.mp hpast, htiled hend⟩

/-! ## 3. What a build gives -/

structure Timeline.Sound (tl : Timeline K) : Prop where
  legs_ne : tl.legset.legs ≠ []
  clips_ne : tl.clips ≠ []
  room : titleS ≤ tl.totalS - endS
  laid : Laid (tl.totalS - endS) titleS tl.clips
  in_order : tl.clips.flatMap (fun c => c.subs.map TimedLeg.leg) =
    tl.legset.legs.map DrawnLeg.toLeg

omit [IsStrictOrderedRing K] in
theorem legs_ascend (legset : LegSet K) :
    (legset.legs.map DrawnLeg.toLeg).Pairwise fun a b => a.index < b.index := by
  rw [List.pairwise_map, List.pairwise_iff_getElem]
  intro m n hm hn hlt
  have hfirst := legset.sound.numbered m _ (List.getElem?_eq_getElem hm)
  have hsecond := legset.sound.numbered n _ (List.getElem?_eq_getElem hn)
  rw [hfirst, hsecond]
  exact Int.ofNat_lt.mpr hlt

omit [IsStrictOrderedRing K] in
theorem timeClips_zero (R : Root K) (clipsEnd t : K) {clips : List (Clip K × K)} (hne : clips ≠ []) :
    timeClips R 0 clipsEnd t clips = none := by
  cases clips with
  | nil => exact absurd rfl hne
  | cons p rest =>
    have hframe : divide 1 ((0 : ℤ) : K) = none := if_pos Int.cast_zero
    rw [timeClips, timeSubs]
    rw [hframe]
    rfl

theorem clipBudgetS_nonneg [FloorRing K] {totalS : K} (h : 1 ≤ maxClips totalS) : 0 ≤ clipBudgetS totalS := by
  have hfloor : 1 ≤ ⌊clipBudgetS totalS / minClipS + 1 / 1000000000⌋ := by
    unfold maxClips at h
    omega
  have hclip : clipBudgetS totalS / minClipS = clipBudgetS totalS * (2 / 3) := by
    rw [minClipS, div_div_eq_mul_div, mul_div_assoc]
  have hone : (1 : K) ≤ clipBudgetS totalS / minClipS + 1 / 1000000000 := by
    have hcast := Int.le_floor.mp hfloor
    rwa [Int.cast_one] at hcast
  rw [hclip] at hone
  linarith

theorem buildTimeline_sound [FloorRing K] {R : Root K} {policy : PacingPolicy K} {fps : ℤ}
    {legset : LegSet K} {totalS : K} {tl : Timeline K}
    (h : buildTimeline R policy fps legset totalS = some tl) :
    tl.Sound ∧ tl.legset = legset ∧ tl.totalS = totalS := by
  unfold buildTimeline at h
  split at h
  case isTrue => cases h
  case isFalse hlegs =>
    split at h
    case isTrue => cases h
    case isFalse hmost =>
      have hne : legset.legs ≠ [] := fun hnil => hlegs (hnil ▸ rfl)
      have hascend := legs_ascend legset
      obtain ⟨hclips, -⟩ := groupClips_eq R.floats (legset.legs.map DrawnLeg.toLeg) (maxClips totalS)
        (hascend.imp le_of_lt)
      obtain ⟨hflat, hfull⟩ := plainClips_runs R.floats (legset.legs.map DrawnLeg.toLeg) (maxClips totalS)
      obtain ⟨clips, heq⟩ : ∃ clips, clips = plainClips R.floats (legset.legs.map DrawnLeg.toLeg)
        (maxClips totalS) := ⟨_, rfl⟩
      rw [← heq] at hclips hflat hfull
      rw [hclips, Option.bind_some] at h
      obtain ⟨timed, htimed, rfl⟩ := Option.map_eq_some_iff.mp h
      have hbudget : 0 ≤ clipBudgetS totalS := clipBudgetS_nonneg (not_lt.mp hmost)
      have hlength := policy.length_eq clips (clipBudgetS totalS)
      have hclipsne : clips ≠ [] := by
        intro hnil
        rw [hnil, List.flatMap_nil] at hflat
        exact hne (List.map_eq_nil_iff.mp hflat.symm)
      have hzip : clips.zip (policy.allocate clips (clipBudgetS totalS)) ≠ [] := by
        intro hnil
        have hzero := congrArg List.length hnil
        rw [List.length_zip, hlength, Nat.min_self, List.length_nil] at hzero
        exact hclipsne (List.length_eq_zero_iff.mp hzero)
      have hfps : fps ≠ 0 := by
        intro hzero
        rw [hzero, timeClips_zero R _ _ hzip] at htimed
        cases htimed
      obtain ⟨laid, hlaid, hcount, htimes, horder⟩ := timeClips_laid R hfps
        (titleS + clipBudgetS totalS) titleS (clips.zip (policy.allocate clips (clipBudgetS totalS)))
        (fun p hp => hfull p.1 (List.of_mem_zip hp).1)
        (fun p hp => policy.nonneg clips _ hbudget p.2 (List.of_mem_zip hp).2)
      obtain rfl : laid = timed := Option.some.inj (hlaid.symm.trans htimed)
      have hend : titleS + clipBudgetS totalS = totalS - endS := by
        unfold clipBudgetS
        ring
      have hmany : laid ≠ [] := by
        intro hnil
        rw [hnil, List.length_nil] at hcount
        exact hzip (List.length_eq_zero_iff.mp hcount.symm)
      refine ⟨⟨hne, hmany, hend ▸ le_add_of_nonneg_right hbudget, hend ▸ htimes, ?_⟩, rfl, rfl⟩
      calc laid.flatMap (fun c => c.subs.map TimedLeg.leg)
          = ((clips.zip (policy.allocate clips (clipBudgetS totalS))).map Prod.fst).flatMap Clip.legs := by
            rw [horder, List.flatMap_map]
        _ = legset.legs.map DrawnLeg.toLeg := by rw [List.map_fst_zip hlength.ge, hflat]

/-- **A trip with legs and room has a timeline.** -/
theorem buildTimeline_some [FloorRing K] (R : Root K) (policy : PacingPolicy K) {fps : ℤ} (hfps : fps ≠ 0)
    {legset : LegSet K} (hlegs : legset.legs ≠ []) {totalS : K} (hroom : 1 ≤ maxClips totalS) :
    ∃ tl, buildTimeline R policy fps legset totalS = some tl := by
  obtain ⟨hclips, -⟩ := groupClips_eq R.floats (legset.legs.map DrawnLeg.toLeg) (maxClips totalS)
    ((legs_ascend legset).imp le_of_lt)
  obtain ⟨-, hfull⟩ := plainClips_runs R.floats (legset.legs.map DrawnLeg.toLeg) (maxClips totalS)
  unfold buildTimeline
  rw [if_neg (fun hempty => hlegs (List.isEmpty_iff.mp hempty)), if_neg (not_lt.mpr hroom), hclips,
    Option.bind_some]
  dsimp only
  generalize plainClips R.floats (legset.legs.map DrawnLeg.toLeg) (maxClips totalS) = clips at hfull
  obtain ⟨timed, htimed, -⟩ := timeClips_laid R hfps (titleS + clipBudgetS totalS) titleS
    (clips.zip (policy.allocate clips (clipBudgetS totalS))) (fun p hp => hfull p.1 (List.of_mem_zip hp).1)
    (fun p hp => policy.nonneg clips _ (clipBudgetS_nonneg hroom) p.2 (List.of_mem_zip hp).2)
  rw [htimed]
  exact ⟨_, rfl⟩

end Playback

end TraxJourney.Video
