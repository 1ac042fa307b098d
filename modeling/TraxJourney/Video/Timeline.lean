/-
  File:      Video/Timeline.lean
  Subject:   The timeline of a trip video: `Timeline` and `build_timeline` of `src/video/timeline.py`.

  * `Tiled`, `Laid` -- the legs' times follow each other through a clip, and the clips' times through the
    video; **`timeSubs_tiled`**, **`timeClips_laid`** -- they do.

  What raises in the source is nothing here: a division by zero, an index out of range, an empty trip.
  A leg object is known by its index. Arithmetic is exact.
-/
import TraxJourney.Video.Legs
import TraxJourney.Video.Pacing

namespace TraxJourney.Video

open Lib Lib.Numerals

/-! ## 1. The clock of a clip -/

section Times

variable {K : Type*} [Field K] [LinearOrder K]

/-- `a / b`. -/
def divide (a b : K) : Option K := if b = 0 then none else some (a / b)

/-- The square root of `math`. -/
structure Root (K : Type*) [Zero K] [LE K] where
  sqrt : K → K
  nonneg : ∀ x, 0 ≤ sqrt x

/-- The operations of pacing, exact. -/
def Root.floats (R : Root K) : Floats K where
  minusOne := -1
  zero := 0
  one := 1
  half := 1 / 2
  add := (· + ·)
  mul := (· * ·)
  sqrt := R.sqrt
  sum := List.sum

/-- `EASE_S`, `EASE_FRACTION`. -/
def easeS : K := 3 / 10
def easeFraction : K := 1 / 5

def easeClock (u duration : K) : Option K :=
  if duration ≤ 0 then some 0
  else
    let u := min (max u 0) duration
    let e := min easeS (easeFraction * duration)
    (divide duration (duration - e)).bind fun v =>
      let ramp := fun x : K => (divide x e).map fun tau => v * e * (tau ^ 3 - tau ^ 4 / 2)
      if u < e then ramp u
      else if duration - e < u then (ramp (duration - u)).map (duration - ·)
      else some (v * (e / 2 + (u - e)))

/-- A leg inside its clip, on the clip's eased clock. -/
structure TimedLeg (K : Type*) where
  leg : Leg K
  startS : K
  endS : K
  instant : Bool

/-- The legs of `_time_subs`, one after the other from `t` on, the last up to the end. -/
def timeFrom (duration total frame : K) : K → List (Leg K × K) → Option (List (TimedLeg K))
  | _, [] => some []
  | t, (leg, share) :: rest =>
    (if rest.isEmpty then some duration
      else (divide (duration * share) total).map (t + ·)).bind fun ends =>
      (timeFrom duration total frame ends rest).map fun subs =>
        { leg := leg, startS := t, endS := ends, instant := decide (ends - t < 2 * frame) } :: subs

def timeSubs (R : Root K) (fps : ℤ) (clip : Clip K) (duration : K) : Option (List (TimedLeg K)) :=
  let shares := clip.legs.map fun leg => R.sqrt (max leg.realS 0)
  let even := List.replicate shares.length (1 : K)
  (divide 1 (fps : K)).bind fun frame =>
    if shares.sum ≤ 0 then timeFrom duration (shares.length : K) frame 0 (clip.legs.zip even)
    else timeFrom duration shares.sum frame 0 (clip.legs.zip shares)

structure TimedClip (K : Type*) where
  startS : K
  endS : K
  subs : List (TimedLeg K)

/-- The loop of `__init__`, from the time `t` on, the last clip up to the end of the clips. -/
def timeClips (R : Root K) (fps : ℤ) (clipsEnd : K) : K → List (Clip K × K) → Option (List (TimedClip K))
  | _, [] => some []
  | t, (clip, d) :: rest =>
    let ends := if rest.isEmpty then clipsEnd else t + d
    (timeSubs R fps clip (ends - t)).bind fun subs =>
      (timeClips R fps clipsEnd ends rest).map fun timed =>
        { startS := t, endS := ends, subs := subs } :: timed

/-! ## 2. The timeline -/

/-- `TITLE_S`, `END_S`, `MIN_CLIP_S`. -/
def titleS : K := 5 / 2
def endS : K := 3
def minClipS : K := 3 / 2

def clipBudgetS (totalS : K) : K := totalS - (titleS + endS)

def maxClips [FloorRing K] (totalS : K) : ℤ := max 0 ⌊clipBudgetS totalS / minClipS + 1 / 1000000000⌋

/-- `PacingPolicy`: each clip's screen time. -/
structure PacingPolicy (K : Type*) [Zero K] [LE K] where
  allocate : List (Clip K) → K → List K
  length_eq : ∀ clips totalS, (allocate clips totalS).length = clips.length
  nonneg : ∀ clips totalS, 0 ≤ totalS → ∀ s ∈ allocate clips totalS, 0 ≤ s

def Clip.weight (F : Floats K) (c : Clip K) : K :=
  clipWeight F (F.sum (c.legs.map Leg.realS)) (dominant F (modeSeconds F c.legs))

/-- `SqrtBudgetPolicy()`, with its defaults. -/
def sqrtBudgetPolicy : SqrtBudgetPolicy K := ⟨minClipS, 1 / 4⟩

/-- The policy that is used where none is asked for. -/
def sqrtBudget [IsStrictOrderedRing K] (R : Root K) : PacingPolicy K where
  allocate clips totalS := sqrtBudgetPolicy.allocate (clips.map (Clip.weight R.floats)) totalS
  length_eq _ _ := allocate_length.trans (List.length_map _)
  nonneg _ _ htotal := allocate_nonneg (div_nonneg (by norm_num) (by norm_num)) htotal

structure Timeline (K : Type*) [Zero K] [LE K] where
  legset : LegSet K
  totalS : K
  clips : List (TimedClip K)

/-- `build_timeline`, for a policy. -/
def buildTimeline [FloorRing K] (R : Root K) (policy : PacingPolicy K) (fps : ℤ) (legset : LegSet K)
    (totalS : K) : Option (Timeline K) :=
  if legset.legs.isEmpty then none
  else if maxClips totalS < 1 then none
  else
    (groupClips R.floats (legset.legs.map DrawnLeg.toLeg) (maxClips totalS)).bind fun clips =>
      let durations := policy.allocate clips (clipBudgetS totalS)
      (timeClips R fps (titleS + clipBudgetS totalS) titleS (clips.zip durations)).map fun timed =>
        { legset := legset, totalS := totalS, clips := timed }

/-! ## 3. Sampling -/

/-- `running[leg.mode] = running.get(leg.mode, 0.0) + km`. -/
def addKm (running : Dict String K) (mode : String) (km : K) : Dict String K :=
  running.put (mode, (running.find mode).getD 0 + km)

/-- `_km_before`; the last entry is the trip's totals. -/
def kmBefore (legs : List (DrawnLeg K)) : List (Dict String K) :=
  legs.scanl (fun running leg => addKm running leg.mode leg.km) .empty

def Timeline.kmTotals (tl : Timeline K) : Dict String K := ((kmBefore tl.legset.legs).getLast?).getD .empty

/-- `bisect_left` and `bisect_right`, of an ascending list. -/
def bisectLeft (xs : List K) (x : K) : ℕ := (xs.takeWhile (· < x)).length
def bisectRight (xs : List K) (x : K) : ℕ := (xs.takeWhile (· ≤ x)).length

/-- `_point_at`: a place and the heading there; the bearing is a parameter. -/
def pointAt (bearing : K × K → K × K → K) (leg : DrawnLeg K) (fraction : K) : Option (K × K × K) :=
  leg.cumKm.getLast?.bind fun last =>
    let target := fraction * last
    let i := max 1 (min (bisectLeft leg.cumKm target) (leg.cumKm.length - 1))
    leg.cumKm[i]?.bind fun here => leg.cumKm[i - 1]?.bind fun before =>
      let span := here - before
      (if span ≤ 0 then some 0
        else (divide (target - before) span).map fun f => min 1 (max 0 f)).bind fun f =>
        leg.points[i - 1]?.bind fun p => leg.points[i]?.map fun q =>
          (p.1 + f * (q.1 - p.1), p.2 + f * (q.2 - p.2), bearing p q)

inductive Kind where
  | title
  | clip
  | ending
deriving DecidableEq

/-- What is shown at a time: the leg, and the fraction of it. -/
structure Spot (K : Type*) where
  kind : Kind
  clipIndex : Option ℕ
  subIndex : Option ℕ
  leg : Leg K
  fraction : K

structure FrameState (K : Type*) where
  kind : Kind
  t : K
  clipIndex : Option ℕ
  subIndex : Option ℕ
  legIndex : Option ℕ
  lon : K
  lat : K
  heading : K
  mode : String
  speedKmh : K
  kmByMode : Dict String K
  date : Option String

/-- `_leg_pos[id(leg)]`. -/
def Timeline.legPos (tl : Timeline K) (leg : Leg K) : Option ℕ :=
  tl.legset.legs.findIdx? fun l => l.index = leg.index

def Timeline.state (bearing : K × K → K × K → K) (tl : Timeline K) (t : K) (s : Spot K) :
    Option (FrameState K) :=
  (tl.legPos s.leg).bind fun n => tl.legset.legs[n]?.bind fun leg =>
    (pointAt bearing leg s.fraction).bind fun p => (kmBefore tl.legset.legs)[n]?.map fun km =>
      { kind := s.kind, t := t, clipIndex := s.clipIndex, subIndex := s.subIndex,
        legIndex := if s.kind = .clip then some n else none,
        lon := p.1, lat := p.2.1, heading := p.2.2, mode := leg.mode, speedKmh := leg.speedKmh,
        kmByMode := addKm km leg.mode (leg.km * s.fraction), date := leg.date }

/-- A clip by the starts of the clips: `self.clips[bisect_right(..) - 1]`, the last one for `-1`. -/
def clipAt (clips : List (TimedClip K)) (t : K) : Option (ℕ × TimedClip K) :=
  match bisectRight (clips.map TimedClip.startS) t with
  | 0 => clips.getLast?.map fun c => (clips.length - 1, c)
  | k + 1 => clips[k]?.map fun c => (k, c)

/-- The leg of a clip, and the fraction of it, at a time on the clip's clock. -/
def spotIn (ci : ℕ) (clip : TimedClip K) (local' : K) : Option (Spot K) :=
  let si := min (bisectRight (clip.subs.map TimedLeg.endS) local') (clip.subs.length - 1)
  clip.subs[si]?.bind fun sub =>
    (if sub.instant then some 1
      else (divide (local' - sub.startS) (sub.endS - sub.startS)).map fun f => min 1 (max 0 f)).map
      fun fraction => ⟨.clip, some ci, some si, sub.leg, fraction⟩

/-- The leg and the fraction that `sample` shows at a time that is brought into the video. -/
def Timeline.position (tl : Timeline K) (t : K) : Option (Spot K) :=
  if t < titleS then tl.legset.legs.head?.map fun leg => ⟨.title, none, none, leg.toLeg, 0⟩
  else if tl.totalS - endS ≤ t then
    tl.legset.legs.getLast?.map fun leg => ⟨.ending, none, none, leg.toLeg, 1⟩
  else
    (clipAt tl.clips t).bind fun c =>
      (easeClock (t - c.2.startS) (c.2.endS - c.2.startS)).bind fun local' => spotIn c.1 c.2 local'

def Timeline.sample (bearing : K × K → K × K → K) (tl : Timeline K) (t : K) : Option (FrameState K) :=
  let t := min (max t 0) tl.totalS
  (tl.position t).bind fun s => tl.state bearing t s

end Times

/-! ## 4. The times follow each other -/

/-- The legs' times, one after the other from `t` to `duration`. -/
def Tiled {K : Type*} [LE K] : K → K → List (TimedLeg K) → Prop
  | t, duration, [] => t = duration
  | t, duration, s :: rest => s.startS = t ∧ t ≤ s.endS ∧ Tiled s.endS duration rest

/-- The clips' times, one after the other from `t` on; the last ends with the clips, and may begin after
    that. -/
def Laid {K : Type*} [Zero K] [Sub K] [LE K] (clipsEnd : K) : K → List (TimedClip K) → Prop
  | _, [] => True
  | t, c :: rest => c.startS = t ∧ (c.startS ≤ c.endS → Tiled 0 (c.endS - c.startS) c.subs) ∧
      (if rest = [] then c.endS = clipsEnd else c.startS ≤ c.endS) ∧ Laid clipsEnd c.endS rest

section Tiles

variable {K : Type*} [Field K] [LinearOrder K] [IsStrictOrderedRing K]

theorem timeFrom_tiled (duration frame : K) {total : K} (htotal : 0 < total) {t : K}
    {legs : List (Leg K × K)} (hne : legs ≠ []) (hshares : ∀ p ∈ legs, 0 ≤ p.2) :
    ∃ subs, timeFrom duration total frame t legs = some subs ∧ subs.map TimedLeg.leg = legs.map Prod.fst ∧
      (0 ≤ duration → t + duration * (legs.map Prod.snd).sum / total = duration → Tiled t duration subs) := by
  induction legs generalizing t with
  | nil => exact absurd rfl hne
  | cons p rest ih =>
    obtain ⟨leg, share⟩ := p
    rw [timeFrom]
    cases rest with
    | nil =>
      refine ⟨_, rfl, rfl, fun hduration hsum => ⟨rfl, ?_, rfl⟩⟩
      have hshare : 0 ≤ duration * share / total :=
        div_nonneg (mul_nonneg hduration (hshares (leg, share) List.mem_cons_self)) htotal.le
      rw [List.map_singleton, List.sum_singleton] at hsum
      linarith
    | cons q rest =>
      have hdivide : divide (duration * share) total = some (duration * share / total) := if_neg htotal.ne'
      obtain ⟨subs, hsubs, hlegs, htiled⟩ := ih (t := t + duration * share / total)
        (List.cons_ne_nil q rest) fun x hx => hshares x (List.mem_cons_of_mem _ hx)
      rw [List.isEmpty_cons, if_neg Bool.false_ne_true, hdivide, Option.map_some, Option.bind_some,
        hsubs, Option.map_some]
      refine ⟨_, rfl, congrArg (leg :: ·) hlegs, fun hduration hsum => ?_⟩
      have hshare : 0 ≤ duration * share / total :=
        div_nonneg (mul_nonneg hduration (hshares (leg, share) List.mem_cons_self)) htotal.le
      refine ⟨rfl, le_add_of_nonneg_right hshare, htiled hduration (Eq.trans ?_ hsum)⟩
      have hall : (((leg, share) :: q :: rest).map Prod.snd).sum =
          share + ((q :: rest).map Prod.snd).sum := List.sum_cons
      rw [hall]
      ring

theorem timeSubs_tiled (R : Root K) {fps : ℤ} (hfps : fps ≠ 0) {clip : Clip K} (hne : clip.legs ≠ [])
    (duration : K) :
    ∃ subs, timeSubs R fps clip duration = some subs ∧ subs.map TimedLeg.leg = clip.legs ∧
      (0 ≤ duration → Tiled 0 duration subs) := by
  have hframe : divide 1 (fps : K) = some (1 / (fps : K)) := if_neg (Int.cast_ne_zero.mpr hfps)
  have hsome : ∀ (shares : List K) (total : K), 0 < total → shares.length = clip.legs.length →
      (∀ x ∈ shares, 0 ≤ x) → shares.sum = total →
      ∃ subs, timeFrom duration total (1 / (fps : K)) 0 (clip.legs.zip shares) = some subs ∧
        subs.map TimedLeg.leg = clip.legs ∧ (0 ≤ duration → Tiled 0 duration subs) := by
    intro shares total htotal hlength hshares hsum
    have hzip : clip.legs.zip shares ≠ [] := by
      intro hnil
      have hzero := congrArg List.length hnil
      rw [List.length_zip, hlength, Nat.min_self, List.length_nil] at hzero
      exact hne (List.length_eq_zero_iff.mp hzero)
    obtain ⟨subs, hsubs, hlegs, htiled⟩ := timeFrom_tiled duration (1 / (fps : K))
      (t := 0) htotal hzip fun p hp => hshares p.2 (List.of_mem_zip hp).2
    refine ⟨subs, hsubs, ?_, fun hduration => htiled hduration ?_⟩
    · rw [hlegs, List.map_fst_zip hlength.ge]
    · rw [List.map_snd_zip hlength.le, hsum, zero_add, mul_div_cancel_right₀ _ htotal.ne']
  have hpos : 0 < clip.legs.length := List.length_pos_iff.mpr hne
  unfold timeSubs
  dsimp only
  rw [hframe, Option.bind_some, List.length_map]
  split
  case isTrue =>
    refine hsome _ _ (Nat.cast_pos.mpr hpos) List.length_replicate ?_ ?_
    · intro x hx
      rw [List.eq_of_mem_replicate hx]
      exact zero_le_one
    · rw [List.sum_replicate, nsmul_eq_mul, mul_one]
  case isFalse hsum =>
    refine hsome _ _ (not_le.mp hsum) (List.length_map _) ?_ rfl
    intro x hx
    obtain ⟨leg, -, heq⟩ := List.mem_map.mp hx
    rw [← heq]
    exact R.nonneg _

theorem timeClips_laid (R : Root K) {fps : ℤ} (hfps : fps ≠ 0) (clipsEnd t : K)
    (clips : List (Clip K × K)) (hne : ∀ p ∈ clips, p.1.legs ≠ []) (hd : ∀ p ∈ clips, 0 ≤ p.2) :
    ∃ timed, timeClips R fps clipsEnd t clips = some timed ∧ timed.length = clips.length ∧
      Laid clipsEnd t timed ∧
      timed.flatMap (fun c => c.subs.map TimedLeg.leg) = clips.flatMap (fun p => p.1.legs) := by
  induction clips generalizing t with
  | nil => exact ⟨[], rfl, rfl, trivial, rfl⟩
  | cons p rest ih =>
    obtain ⟨clip, d⟩ := p
    rw [timeClips]
    obtain ⟨subs, hsubs, hlegs, htiled⟩ := timeSubs_tiled R hfps (hne (clip, d) List.mem_cons_self)
      ((if rest.isEmpty then clipsEnd else t + d) - t)
    obtain ⟨timed, htimed, hlength, hlaid, hflat⟩ := ih (if rest.isEmpty then clipsEnd else t + d)
      (fun q hq => hne q (List.mem_cons_of_mem _ hq)) fun q hq => hd q (List.mem_cons_of_mem _ hq)
    rw [hsubs, Option.bind_some, htimed, Option.map_some]
    refine ⟨_, rfl, congrArg Nat.succ hlength, ⟨rfl, fun hle => htiled (sub_nonneg.mpr hle), ?_, hlaid⟩,
      ?_⟩
    · cases rest with
      | nil =>
        rw [if_pos (List.length_eq_zero_iff.mp hlength)]
        rfl
      | cons q rest =>
        have hmore : timed ≠ [] := by
          intro hnil
          rw [hnil] at hlength
          cases hlength
        rw [if_neg hmore]
        exact le_add_of_nonneg_right (hd (clip, d) List.mem_cons_self)
    · rw [List.flatMap_cons, List.flatMap_cons, hflat, hlegs]

end Tiles

end TraxJourney.Video
