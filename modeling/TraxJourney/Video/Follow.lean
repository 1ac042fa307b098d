/-
  File:      Video/Follow.lean
  Subject:   The follow camera of a trip video: `_follow` of `src/video/camera.py`, with `overview`,
             `_spring`, `_leash`, `_fly` and `_off_frame`.

  * **`followPath_promised`** -- the path of any aims keeps what the camera promises.

  What raises in the source is nothing here: a division by zero, a logarithm of what is not positive, an
  index out of range. Arithmetic is exact.
-/
import TraxJourney.Lib.IndexLoops
import TraxJourney.Video.Bands
import TraxJourney.Video.Sampling
import TraxJourney.Video.ZoomPlan
import Mathlib.Analysis.SpecialFunctions.Log.Base

namespace TraxJourney.Video

open Lib Lib.Numerals Geo Poster

/-! ## 1. Views -/

/-- The functions of `math` that the camera uses; `exp2` is `2.0 ** x`. -/
structure CameraMath (K : Type*) extends MapMath K where
  exp : K → K
  cosh : K → K
  tanh : K → K
  asinh : K → K
  log2 : K → K
  exp2 : K → K
  sqrt : K → K
  hypot : K → K → K

/-- Centre and zoom, in world units. -/
structure View (K : Type*) where
  x : K
  y : K
  zoom : K

/-- An aim of a leg of a clip: a place, or the marker; the zoom level; whether it is a fast leg. -/
structure Aim (K : Type*) where
  point : Option (K × K)
  level : K
  fast : Bool

/-- The segment of a frame: a card, or a clip and the group of its legs. -/
inductive Seg where
  | card (side : ℤ)
  | clip (index group : ℕ)
deriving DecidableEq

/-- A frame and what it aims at. -/
structure Aimed (K : Type*) where
  kind : Kind
  seg : Seg
  target : View K

section Defs

variable {K : Type*} [Field K] [LinearOrder K]

/-- `MIN_ZOOM`, `MAX_ZOOM`, `OVERVIEW_FILL`, `TRANSITION_S`, `SPRING_OMEGA`, `LEASH`, `CUT`. -/
def minZoom : K := 0
def maxZoom : K := ((16 : ℕ) : K)
def overviewFill : K := ((17 : ℕ) : K) / ((20 : ℕ) : K)
def transitionS : K := ((3 : ℕ) : K) / ((5 : ℕ) : K)
def springOmega : K := ((10 : ℕ) : K)
def leashReach : K := ((3 : ℕ) : K) / ((10 : ℕ) : K)
def cutJump : K := 1 / 2

variable (M : CameraMath K) (size : Size)

/-- A logarithm, of what is positive. -/
def logOf (log : K → K) (x : K) : Option K := if 0 < x then some (log x) else none

def CameraMath.worldPx (zoom : K) : K := (tileSize : K) * M.exp2 zoom

/-- `lonlat_to_world`, where it does not raise. -/
def worldOf (lon lat : K) : Option (K × K) :=
  let r := min (max lat (-maxLat)) maxLat * (M.pi / 180)
  (divide 1 (M.cos r)).bind fun sec => (logOf M.log (M.tan r + sec)).bind fun rise =>
    (divide rise M.pi).map fun _ => lonlatToWorld M.toMapMath lon lat

def View.shot (v : View K) (flying : Bool) : Shot K :=
  let p := worldToLonlat M.toMapMath v.x v.y
  ⟨p.1, p.2, v.zoom, flying⟩

/-- One of the two sides of `_fit_box`. -/
def fitSide (side : ℤ) (fill extent zoom : K) : Option K :=
  if 0 < extent then
    (divide (fill * side) (tileSize * extent)).bind fun q => (logOf M.log2 q).map (min zoom)
  else some zoom

/-- `_fit`, of one point at least. -/
def fit (fill : K) : List (K × K) → Option (View K)
  | [] => none
  | p :: rest =>
    let x0 := rest.foldl (fun m q => min m q.1) p.1
    let x1 := rest.foldl (fun m q => max m q.1) p.1
    let y0 := rest.foldl (fun m q => min m q.2) p.2
    let y1 := rest.foldl (fun m q => max m q.2) p.2
    (fitSide M size.1 fill (x1 - x0) maxZoom).bind fun zoom =>
      (fitSide M size.2 fill (y1 - y0) zoom).map fun zoom => ⟨(x0 + x1) / 2, (y0 + y1) / 2, max minZoom zoom⟩

def overview (tl : Timeline K) : Option (View K) :=
  ((tl.legset.legs.flatMap DrawnLeg.points).mapM fun p => worldOf M p.1 p.2).bind (fit M size overviewFill)

def spring (pos vel target dt : K) : K × K :=
  let d := pos - target
  let e := M.exp (-springOmega * dt)
  let k := (vel + springOmega * d) * dt
  (target + (d + k) * e, (vel - springOmega * k) * e)

def offFrame (point : K × K) (view : View K) : Option K :=
  let px := M.worldPx view.zoom
  (divide (|point.1 - view.x| * px) size.1).bind fun across =>
    (divide (|point.2 - view.y| * px) size.2).map (max across)

def leash (view : View K) (point : K × K) (reach : K) : Option (View K) :=
  let px := M.worldPx view.zoom
  (divide (reach * size.1) px).bind fun hw => (divide (reach * size.2) px).map fun hh =>
    ⟨min (max view.x (point.1 - hw)) (point.1 + hw), min (max view.y (point.2 - hh)) (point.2 + hh), view.zoom⟩

def fly (a b : View K) (s : K) : Option (View K) :=
  (divide (size.1 : K) (M.worldPx a.zoom)).bind fun w0 => (divide (size.1 : K) (M.worldPx b.zoom)).bind fun w1 =>
    let dx := b.x - a.x
    let dy := b.y - a.y
    let d1 := M.hypot dx dy
    if d1 < 1 / ((10 ^ 12 : ℕ) : K) then some ⟨a.x + s * dx, a.y + s * dy, a.zoom + s * (b.zoom - a.zoom)⟩
    else
      let rho2 := M.sqrt 2 * M.sqrt 2
      (divide (w1 * w1 - w0 * w0 + rho2 * rho2 * d1 * d1) (2 * w0 * rho2 * d1)).bind fun b0 =>
      (divide (w1 * w1 - w0 * w0 - rho2 * rho2 * d1 * d1) (2 * w1 * rho2 * d1)).bind fun b1 =>
      let r0 := -M.asinh b0
      let r1 := -M.asinh b1
      let r := r0 + s * (r1 - r0)
      (divide w0 (rho2 * d1)).bind fun k => (divide (w0 * M.cosh r0) (M.cosh r)).bind fun w =>
      let u := k * (M.cosh r0 * M.tanh r - M.sinh r0)
      (divide (size.1 : K) (tileSize * w)).bind fun q => (logOf M.log2 q).map fun zoom =>
        ⟨a.x + u * dx, a.y + u * dy, zoom⟩

/-! ## 2. The stages -/

def frameCount [FloorRing K] (tl : Timeline K) (fps : ℤ) : ℕ := (roundHalfEven (tl.totalS * fps)).toNat

/-- The frames of a transition. -/
def rampOf (K : Type*) [Field K] [LinearOrder K] [FloorRing K] (fps : ℤ) : ℕ :=
  (max 1 (roundHalfEven ((transitionS : K) * fps))).toNat

/-- The groups of a clip's legs: one more where fast and not follow each other. -/
def groupsFrom : ℕ → Option Bool → List (Aim K) → List ℕ
  | _, _, [] => []
  | g, before, aim :: rest =>
    let g := if before.any (· != aim.fast) then g + 1 else g
    g :: groupsFrom g (some aim.fast) rest

def segmentOf (state : FrameState K) (clips : ℕ) : Option ℤ :=
  match state.kind with
  | .title => some (-1)
  | .ending => some clips
  | .clip => state.clipIndex.map Nat.cast

/-- One turn of the loop over the samples: the overview on the cards, else the aim of the leg. -/
def aimed (aims : List (List (Aim K))) (home : View K) (clips : ℕ) (state : FrameState K) : Option (Aimed K) :=
  (segmentOf state clips).bind fun seg =>
    if 0 ≤ seg ∧ seg < clips then
      aims[seg.toNat]?.bind fun clipAims => state.subIndex.bind fun sub => clipAims[sub]?.bind fun aim =>
        (match aim.point with
          | some p => some p
          | none => worldOf M state.lon state.lat).bind fun p =>
        (groupsFrom 0 none clipAims)[sub]?.map fun group =>
          ⟨state.kind, .clip seg.toNat group, ⟨p.1, p.2, aim.level⟩⟩
    else some ⟨state.kind, .card seg, home⟩

def planRun (ramp : ℕ) (run : List (Aimed K)) : Option (List K) :=
  let levels := run.map fun frame => frame.target.zoom
  if run.head?.any (·.kind = .clip) then zoomPlan levels ramp else some levels

/-- The loop over the segments; `run` are the frames from `start` on. -/
def planRuns (ramp : ℕ) : List (Aimed K) → List (Aimed K) → Option (List K)
  | run, [] => planRun ramp run
  | run, frame :: rest =>
    if run.head?.any (·.seg ≠ frame.seg) then
      (planRun ramp run).bind fun zooms => (planRuns ramp [frame] rest).map (zooms ++ ·)
    else planRuns ramp (run ++ [frame]) rest

/-- Whether a card or a clip starts at a frame, or the aim jumps. -/
def isCut (frames : List (Aimed K)) (zooms : List K) (n : ℕ) : Option Bool :=
  frames[n - 1]?.bind fun before => frames[n]?.bind fun now =>
    if now.seg ≠ before.seg then some true
    else zooms[n - 1]?.bind fun z => zooms[n]?.bind fun z' =>
      (offFrame M size (before.target.x, before.target.y) ⟨now.target.x, now.target.y, min z z'⟩).map
        fun off => decide (cutJump < off)

def cutsOf (frames : List (Aimed K)) (zooms : List K) : Option (List ℕ) :=
  ((List.range' 1 (frames.length - 1)).mapM fun n => (isCut M size frames zooms n).map fun cut => (n, cut)).map
    fun flags => (flags.filter Prod.snd).map Prod.fst

/-- What is known of the frames before the camera moves. -/
structure Stages (K : Type*) where
  home : View K
  frames : List (Aimed K)
  zooms : List K
  cuts : List ℕ

variable [FloorRing K] (bearing : K × K → K × K → K) (tl : Timeline K) (fps : ℤ) (aims : List (List (Aim K)))

/-- The first half of `_follow`. -/
def stages : Option (Stages K) :=
  (overview M size tl).bind fun home => (divide 1 (fps : K)).bind fun dt =>
    ((List.range (frameCount tl fps)).mapM fun (n : ℕ) =>
      (tl.sample bearing ((n : K) * dt)).bind (aimed M aims home tl.clips.length)).bind fun frames =>
    (planRuns (rampOf K fps) [] frames).bind fun zooms => (cutsOf M size frames zooms).map fun cuts =>
      ⟨home, frames, zooms, cuts⟩

/-! ## 3. The path -/

/-- The centre, and how fast it moves. -/
structure Motion (K : Type*) where
  x : K
  y : K
  vx : K
  vy : K

variable {size tl fps aims}

/-- One turn of the loop that follows: the spring, reset on every cut. -/
def followFrame (size : Size) (dt : K) (st : Stages K) (s : Motion K × List (View K)) (n : ℕ) :
    Option (Motion K × List (View K)) :=
  st.frames[n]?.bind fun frame => st.zooms[n]?.bind fun zoom =>
    let t := frame.target
    if n = 0 ∨ n ∈ st.cuts then some (⟨t.x, t.y, 0, 0⟩, s.2 ++ [⟨t.x, t.y, zoom⟩])
    else
      let x := spring M s.1.x s.1.vx t.x dt
      let y := spring M s.1.y s.1.vy t.y dt
      (leash M size ⟨x.1, y.1, zoom⟩ (t.x, t.y) leashReach).map fun v => (⟨v.x, v.y, x.2, y.2⟩, s.2 ++ [v])

/-- One turn of the inner loop that flies, from frame `w0` to the cut `c`. -/
def flyFrame (size : Size) (follow : List (View K)) (w0 c : ℕ) (shots : List (View K × Bool)) (n : ℕ) :
    Option (List (View K × Bool)) :=
  follow[n]?.bind fun a => follow[c]?.bind fun b => (divide ((n : K) - w0) ((c : K) - w0)).bind fun u =>
    (fly M size a b (smoothstep u)).bind fun v =>
      if n < shots.length then some (shots.set n (v, true)) else none

/-- The loop over the cuts, after the cut `prev`. -/
def flyAll (size : Size) (ramp : ℕ) (follow : List (View K)) :
    ℕ → List ℕ → List (View K × Bool) → Option (List (View K × Bool))
  | _, [], shots => some shots
  | prev, c :: rest, shots =>
    let w0 := max prev (c - ramp)
    ((List.range' (w0 + 1) (c - (w0 + 1))).foldlM (flyFrame M size follow w0 c) shots).bind
      (flyAll size ramp follow c rest)

/-- `_follow`. -/
def followPath (size : Size) (tl : Timeline K) (fps : ℤ) (aims : List (List (Aim K))) : Option (List (Shot K)) :=
  (stages M size bearing tl fps aims).bind fun st => (divide 1 (fps : K)).bind fun dt =>
    ((List.range' 0 st.frames.length).foldlM (followFrame M size dt st) (⟨0, 0, 0, 0⟩, [])).bind fun s =>
    (flyAll M size (rampOf K fps) s.2 0 st.cuts (s.2.map fun v => (v, false))).map fun shots =>
      shots.map fun p => p.1.shot M p.2

end Defs

/-! ## 4. One view -/

/-- What is asked of the functions of `math`. -/
structure CameraMath.Lawful {K : Type*} [Field K] [LinearOrder K] (M : CameraMath K) : Prop where
  exp2_pos : ∀ x, 0 < M.exp2 x
  cosh_pos : ∀ x, 0 < M.cosh x
  sqrt_two : 0 < M.sqrt 2
  pi_pos : 0 < M.pi
  cos_pos : ∀ lat, -maxLat ≤ lat → lat ≤ maxLat → 0 < M.cos (lat * (M.pi / 180))
  rise_pos : ∀ lat, -maxLat ≤ lat → lat ≤ maxLat →
    0 < M.tan (lat * (M.pi / 180)) + 1 / M.cos (lat * (M.pi / 180))

section Views

variable {K : Type} [Field K] [LinearOrder K] [IsStrictOrderedRing K] {M : CameraMath K} {size : Size}

omit [IsStrictOrderedRing K] in
theorem divide_pos (a : K) {b : K} (hb : 0 < b) : divide a b = some (a / b) := if_neg hb.ne'

omit [IsStrictOrderedRing K] in
theorem logOf_pos (log : K → K) {x : K} (hx : 0 < x) : logOf log x = some (log x) := if_pos hx

theorem CameraMath.Lawful.px_pos (hM : M.Lawful) (zoom : K) : 0 < M.worldPx zoom := by
  have htile : (0 : K) < tileSize := by norm_num [tileSize]
  exact mul_pos htile (hM.exp2_pos zoom)

theorem worldOf_some (hM : M.Lawful) (lon lat : K) : ∃ p, worldOf M lon lat = some p := by
  have hmax : (0 : K) < maxLat := by
    unfold maxLat
    positivity
  have hlow : -maxLat ≤ min (max lat (-maxLat)) maxLat := le_min (le_max_right _ _) (by linarith)
  have hhigh : min (max lat (-maxLat)) maxLat ≤ maxLat := min_le_right _ _
  have hrise := hM.rise_pos _ hlow hhigh
  unfold worldOf
  dsimp only
  rw [divide_pos 1 (hM.cos_pos _ hlow hhigh), Option.bind_some, logOf_pos _ hrise, Option.bind_some,
    divide_pos _ hM.pi_pos]
  exact ⟨_, rfl⟩

theorem fitSide_some {side : ℤ} (hside : 0 < side) {fill : K} (hfill : 0 < fill) (extent zoom : K) :
    ∃ z, fitSide M side fill extent zoom = some z := by
  unfold fitSide
  split
  case isTrue hextent =>
    have hside : (0 : K) < side := Int.cast_pos.mpr hside
    have htile : (0 : K) < tileSize := by norm_num [tileSize]
    have hden : 0 < (tileSize : K) * extent := mul_pos htile hextent
    rw [divide_pos _ hden, Option.bind_some, logOf_pos _ (div_pos (mul_pos hfill hside) hden)]
    exact ⟨_, rfl⟩
  case isFalse => exact ⟨_, rfl⟩

theorem overview_some (hM : M.Lawful) (hwidth : 0 < size.1) (hheight : 0 < size.2) {tl : Timeline K}
    (htl : tl.Sound) : ∃ home, overview M size tl = some home := by
  have hall : ∀ p ∈ tl.legset.legs.flatMap DrawnLeg.points, ∃ q, worldOf M p.1 p.2 = some q ∧ True := by
    intro p _
    obtain ⟨q, hq⟩ := worldOf_some hM p.1 p.2
    exact ⟨q, hq, trivial⟩
  obtain ⟨points, hpoints, hlength⟩ : ∃ points,
      (tl.legset.legs.flatMap DrawnLeg.points).mapM (fun p => worldOf M p.1 p.2) = some points ∧
      List.Forall₂ (fun _ _ => True) (tl.legset.legs.flatMap DrawnLeg.points) points := mapM_forall₂ hall
  have hne : points ≠ [] := by
    obtain ⟨leg, hleg⟩ := List.exists_mem_of_ne_nil _ htl.legs_ne
    have hmany : leg.points ≠ [] := by
      intro hnil
      have htwo := (tl.legset.sound.drawn leg hleg).1
      rw [hnil, List.length_nil] at htwo
      omega
    obtain ⟨p, hp⟩ := List.exists_mem_of_ne_nil _ hmany
    rintro rfl
    rw [List.forall₂_nil_right_iff] at hlength
    have hmem := List.mem_flatMap.mpr ⟨leg, hleg, hp⟩
    rw [hlength] at hmem
    cases hmem
  unfold overview
  rw [hpoints, Option.bind_some]
  have hfill : (0 : K) < overviewFill := by
    unfold overviewFill
    positivity
  cases points with
  | nil => exact absurd rfl hne
  | cons p rest =>
    unfold fit
    dsimp only
    obtain ⟨z, hz⟩ := fitSide_some (M := M) hwidth hfill
      (rest.foldl (fun m q => max m q.1) p.1 - rest.foldl (fun m q => min m q.1) p.1) maxZoom
    obtain ⟨z', hz'⟩ := fitSide_some (M := M) hheight hfill
      (rest.foldl (fun m q => max m q.2) p.2 - rest.foldl (fun m q => min m q.2) p.2) z
    rw [hz, Option.bind_some, hz']
    exact ⟨_, rfl⟩

theorem fly_some (hM : M.Lawful) (hwidth : 0 < size.1) (a b : View K) (s : K) :
    ∃ v, fly M size a b s = some v := by
  have hside : (0 : K) < size.1 := Int.cast_pos.mpr hwidth
  have htile : (0 : K) < tileSize := by norm_num [tileSize]
  have hw0 := div_pos hside (hM.px_pos a.zoom)
  have hw1 := div_pos hside (hM.px_pos b.zoom)
  unfold fly
  rw [divide_pos _ (hM.px_pos a.zoom), Option.bind_some, divide_pos _ (hM.px_pos b.zoom), Option.bind_some]
  dsimp only
  generalize (size.1 : K) / M.worldPx a.zoom = w0 at hw0
  generalize (size.1 : K) / M.worldPx b.zoom = w1 at hw1
  split
  case isTrue => exact ⟨_, rfl⟩
  case isFalse hfar =>
    have hd1 : 0 < M.hypot (b.x - a.x) (b.y - a.y) := by
      refine lt_of_lt_of_le ?_ (not_lt.mp hfar)
      positivity
    have hrho : 0 < M.sqrt 2 * M.sqrt 2 := mul_pos hM.sqrt_two hM.sqrt_two
    have htwo : (0 : K) < 2 := zero_lt_two
    have hden : ∀ w : K, 0 < w → 0 < 2 * w * (M.sqrt 2 * M.sqrt 2) * M.hypot (b.x - a.x) (b.y - a.y) :=
      fun w hw => mul_pos (mul_pos (mul_pos htwo hw) hrho) hd1
    rw [divide_pos _ (hden w0 hw0), Option.bind_some, divide_pos _ (hden w1 hw1), Option.bind_some,
      divide_pos _ (mul_pos hrho hd1), Option.bind_some, divide_pos _ (hM.cosh_pos _), Option.bind_some]
    have hw : ∀ r0 r : K, 0 < (tileSize : K) * (w0 * M.cosh r0 / M.cosh r) := fun r0 r =>
      mul_pos htile (div_pos (mul_pos hw0 (hM.cosh_pos r0)) (hM.cosh_pos r))
    rw [divide_pos _ (hw _ _), Option.bind_some, logOf_pos _ (div_pos hside (hw _ _))]
    exact ⟨_, rfl⟩

omit [IsStrictOrderedRing K] in
theorem offFrame_eq [IsStrictOrderedRing K] (hwidth : 0 < size.1) (hheight : 0 < size.2) (point : K × K) (view : View K) :
    offFrame M size point view = some (max (|point.1 - view.x| * M.worldPx view.zoom / size.1)
      (|point.2 - view.y| * M.worldPx view.zoom / size.2)) := by
  unfold offFrame
  dsimp only
  rw [divide_pos _ (Int.cast_pos.mpr hwidth), Option.bind_some, divide_pos _ (Int.cast_pos.mpr hheight)]
  rfl

theorem leash_axis {px side reach : K} (hpx : 0 < px) (hside : 0 < side) (hreach : 0 ≤ reach) (pos target : K) :
    |target - min (max pos (target - reach * side / px)) (target + reach * side / px)| * px / side ≤ reach := by
  have hhalf : 0 ≤ reach * side / px := div_nonneg (mul_nonneg hreach hside.le) hpx.le
  have hnear : |target - min (max pos (target - reach * side / px)) (target + reach * side / px)| ≤
      reach * side / px := by
    have hlow : target - reach * side / px ≤
        min (max pos (target - reach * side / px)) (target + reach * side / px) :=
      le_min (le_max_right _ _) (by linarith)
    have hhigh := min_le_right (max pos (target - reach * side / px)) (target + reach * side / px)
    rw [abs_le]
    constructor <;> linarith
  rw [div_le_iff₀ hside]
  exact (le_div_iff₀ hpx).mp hnear

theorem leash_off (hM : M.Lawful) (hwidth : 0 < size.1) (hheight : 0 < size.2) (view : View K) (point : K × K)
    {reach : K} (hreach : 0 ≤ reach) : ∃ v off, leash M size view point reach = some v ∧ v.zoom = view.zoom ∧
      offFrame M size point v = some off ∧ off ≤ reach := by
  have hpx := hM.px_pos view.zoom
  unfold leash
  dsimp only
  rw [divide_pos _ hpx, Option.bind_some, divide_pos _ hpx, Option.map_some]
  refine ⟨_, _, rfl, rfl, offFrame_eq hwidth hheight _ _, max_le ?_ ?_⟩
  · exact leash_axis hpx (Int.cast_pos.mpr hwidth) hreach _ _
  · exact leash_axis hpx (Int.cast_pos.mpr hheight) hreach _ _

theorem offFrame_self (hwidth : 0 < size.1) (hheight : 0 < size.2) (x y zoom : K) :
    offFrame M size (x, y) ⟨x, y, zoom⟩ = some 0 := by
  rw [offFrame_eq hwidth hheight, sub_self, sub_self, abs_zero, zero_mul, zero_div, zero_div, max_self]

end Views

/-! ## 5. Zooms, cuts and windows -/

section Stages

variable {K : Type} [Field K] [LinearOrder K] [IsStrictOrderedRing K] {M : CameraMath K} {size : Size}

omit [IsStrictOrderedRing K] in
theorem planRun_spec (ramp : ℕ) (run : List (Aimed K)) : ∃ zooms, planRun ramp run = some zooms ∧
    List.Forall₂ (fun frame z => frame.target.zoom ≤ z) run zooms := by
  have hkeep : List.Forall₂ (fun frame z => frame.target.zoom ≤ z) run (run.map fun frame => frame.target.zoom) :=
    List.forall₂_map_right_iff.mpr (List.forall₂_same.mpr fun _ _ => le_rfl)
  unfold planRun
  split
  case isFalse => exact ⟨_, rfl, hkeep⟩
  case isTrue hclip =>
    have hne : (run.map fun frame => frame.target.zoom) ≠ [] := by
      rintro hnil
      rw [List.map_eq_nil_iff.mp hnil] at hclip
      cases hclip
    obtain ⟨low, hmin⟩ := Option.isSome_iff_exists.mp (List.isSome_min?_of_ne_nil hne)
    obtain ⟨zooms, hplan⟩ : ∃ zooms, zoomPlan (run.map fun frame => frame.target.zoom) ramp = some zooms :=
      ⟨_, by rw [zoomPlan, hmin]; rfl⟩
    refine ⟨zooms, hplan, List.forall₂_iff_get.mpr ⟨?_, fun n hn hn' => ?_⟩⟩
    · rw [zoomPlan, hmin] at hplan
      rw [← Option.some.inj hplan, List.length_map, List.length_range, List.length_map]
    · obtain ⟨-, hz⟩ := zoomPlan_get hmin hplan (List.getElem?_eq_getElem hn')
      rw [List.get_eq_getElem, List.get_eq_getElem, hz]
      refine le_trans (le_of_eq ?_) (le_foldl_raised _ _)
      rw [List.getD_eq_getElem?_getD, List.getElem?_map, List.getElem?_eq_getElem hn]
      rfl

omit [IsStrictOrderedRing K] in
theorem planRuns_spec (ramp : ℕ) (run rest : List (Aimed K)) : ∃ zooms, planRuns ramp run rest = some zooms ∧
    List.Forall₂ (fun frame z => frame.target.zoom ≤ z) (run ++ rest) zooms := by
  induction rest generalizing run with
  | nil =>
    rw [planRuns, List.append_nil]
    exact planRun_spec ramp run
  | cons frame rest ih =>
    rw [planRuns]
    split
    case isTrue =>
      obtain ⟨zooms, hzooms, hrun⟩ := planRun_spec ramp run
      obtain ⟨more, hmore, hrest⟩ := ih [frame]
      rw [hzooms, Option.bind_some, hmore]
      exact ⟨zooms ++ more, rfl, List.rel_append hrun hrest⟩
    case isFalse =>
      obtain ⟨zooms, hzooms, hall⟩ := ih (run ++ [frame])
      rw [List.append_assoc] at hall
      exact ⟨zooms, hzooms, hall⟩

theorem cutsOf_spec (hwidth : 0 < size.1) (hheight : 0 < size.2) {frames : List (Aimed K)} {zooms : List K}
    (hlength : zooms.length = frames.length) : ∃ cuts, cutsOf M size frames zooms = some cuts ∧
      cuts.Pairwise (· < ·) ∧ ∀ c ∈ cuts, 0 < c ∧ c < frames.length := by
  have hall : ∀ n ∈ List.range' 1 (frames.length - 1), ∃ p : ℕ × Bool,
      (isCut M size frames zooms n).map (fun cut => (n, cut)) = some p ∧ n = p.1 := by
    intro n hn
    rw [List.mem_range'_1] at hn
    unfold isCut
    rw [List.getElem?_eq_getElem (by omega : n - 1 < frames.length), Option.bind_some,
      List.getElem?_eq_getElem (by omega : n < frames.length), Option.bind_some,
      List.getElem?_eq_getElem (by omega : n - 1 < zooms.length), Option.bind_some,
      List.getElem?_eq_getElem (by omega : n < zooms.length), Option.bind_some, offFrame_eq hwidth hheight]
    split <;> exact ⟨_, rfl, rfl⟩
  obtain ⟨flags, hflags, hindex⟩ := mapM_forall₂ (R := fun n (p : ℕ × Bool) => n = p.1) hall
  have hfirst : List.range' 1 (frames.length - 1) = flags.map Prod.fst :=
    List.forall₂_eq_eq_eq ▸ List.forall₂_map_right_iff.mpr hindex
  have hsub : ((flags.filter Prod.snd).map Prod.fst).Sublist (List.range' 1 (frames.length - 1)) :=
    hfirst ▸ List.filter_sublist.map Prod.fst
  unfold cutsOf
  rw [hflags]
  refine ⟨_, rfl, List.Pairwise.sublist hsub List.pairwise_lt_range', fun c hc => ?_⟩
  have hmem := hsub.subset hc
  rw [List.mem_range'_1] at hmem
  omega

theorem flyAll_spec (hM : M.Lawful) (hwidth : 0 < size.1) (ramp : ℕ) {follow : List (View K)} {prev : ℕ}
    {cuts : List ℕ} (hsorted : cuts.Pairwise (· < ·)) (hcuts : ∀ c ∈ cuts, prev < c ∧ c < follow.length)
    {shots : List (View K × Bool)} (hlength : shots.length = follow.length) :
    ∃ shots', flyAll M size ramp follow prev cuts shots = some shots' ∧ shots'.length = follow.length ∧
      (∀ (m : ℕ) p, shots'[m]? = some p → p.2 = false → shots[m]? = some p) ∧
      ∀ m, m ≤ prev ∨ m ∈ cuts → shots'[m]? = shots[m]? := by
  induction cuts generalizing prev shots with
  | nil => exact ⟨shots, rfl, hlength, fun _ _ hp _ => hp, fun _ _ => rfl⟩
  | cons c rest ih =>
    obtain ⟨hlater, hrest⟩ := List.pairwise_cons.mp hsorted
    obtain ⟨hprev, hc⟩ := hcuts c List.mem_cons_self
    obtain ⟨w0, hw0⟩ : ∃ w0, w0 = max prev (c - ramp) := ⟨_, rfl⟩
    -- what the turns of the inner loop keep
    obtain ⟨flown, hflown, hsame, hfalse, hout⟩ := foldlM_range'_spec (f := flyFrame M size follow w0 c)
      (a := w0 + 1) (n := c - (w0 + 1)) (s := shots) (P := fun _ s => s.length = follow.length ∧
        (∀ (m : ℕ) p, s[m]? = some p → p.2 = false → shots[m]? = some p) ∧
        ∀ m, m ≤ prev ∨ c ≤ m → s[m]? = shots[m]?) (by
      rintro n s hlow hhigh ⟨hlen, hkeep, houtside⟩
      have hn : n < c := by omega
      have hspan : (0 : K) < (c : K) - w0 := sub_pos.mpr (Nat.cast_lt.mpr (by omega))
      obtain ⟨v, hv⟩ := fly_some hM hwidth follow[n] follow[c]
        (smoothstep (((n : K) - w0) / ((c : K) - w0)))
      refine ⟨s.set n (v, true), ?_, ?_, ?_, ?_⟩
      · unfold flyFrame
        rw [List.getElem?_eq_getElem (hn.trans hc), Option.bind_some, List.getElem?_eq_getElem hc,
          Option.bind_some, divide_pos _ hspan, Option.bind_some, hv, Option.bind_some, if_pos (by omega)]
      · rw [List.length_set, hlen]
      · intro m p hp hfalse
        by_cases hm : n = m
        · rw [← hm, List.getElem?_set_self (by omega)] at hp
          rw [← Option.some.inj hp] at hfalse
          cases hfalse
        · rw [List.getElem?_set_ne hm] at hp
          exact hkeep m p hp hfalse
      · intro m hm
        rw [List.getElem?_set_ne (by omega)]
        exact houtside m hm) ⟨hlength, fun _ _ hp _ => hp, fun _ _ => rfl⟩
    obtain ⟨shots', hshots', hsame', hfalse', hout'⟩ := ih hrest
      (fun d hd => ⟨hlater d hd, (hcuts d (List.mem_cons_of_mem _ hd)).2⟩) hsame
    rw [flyAll, ← hw0, hflown, Option.bind_some]
    refine ⟨shots', hshots', hsame', fun m p hp hp' => hfalse m p (hfalse' m p hp hp') hp', fun m hm => ?_⟩
    rcases hm with hm | hm
    · exact (hout' m (.inl (by omega))).trans (hout m (.inl hm))
    · rcases List.mem_cons.mp hm with rfl | hm
      · exact (hout' m (.inl le_rfl)).trans (hout m (.inr le_rfl))
      · exact (hout' m (.inr hm)).trans (hout m (.inr (hlater m hm).le))

omit [Field K] [LinearOrder K] [IsStrictOrderedRing K] in
theorem length_groupsFrom (g : ℕ) (before : Option Bool) (clipAims : List (Aim K)) :
    (groupsFrom g before clipAims).length = clipAims.length := by
  induction clipAims generalizing g before with
  | nil => rfl
  | cons aim rest ih =>
    rw [groupsFrom]
    exact congrArg (· + 1) (ih _ _)

variable {bearing : K × K → K × K → K}

omit [IsStrictOrderedRing K] in
theorem sample_clip {tl : Timeline K} {t : K} {state : FrameState K} (h : tl.sample bearing t = some state)
    (hkind : state.kind = .clip) : ∃ (i : ℕ) (clip : TimedClip K) (j : ℕ),
      state.clipIndex = some i ∧ tl.clips[i]? = some clip ∧ state.subIndex = some j ∧ j < clip.subs.length := by
  unfold Timeline.sample Timeline.state at h
  obtain ⟨s, hs, h⟩ := Option.bind_eq_some_iff.mp h
  obtain ⟨n, -, h⟩ := Option.bind_eq_some_iff.mp h
  obtain ⟨leg, -, h⟩ := Option.bind_eq_some_iff.mp h
  obtain ⟨p, -, h⟩ := Option.bind_eq_some_iff.mp h
  obtain ⟨km, -, rfl⟩ := Option.map_eq_some_iff.mp h
  dsimp only at hkind ⊢
  unfold Timeline.position at hs
  split at hs
  · obtain ⟨leg, -, rfl⟩ := Option.map_eq_some_iff.mp hs
    cases hkind
  · split at hs
    · obtain ⟨leg, -, rfl⟩ := Option.map_eq_some_iff.mp hs
      cases hkind
    · obtain ⟨⟨i, clip⟩, hc, hs⟩ := Option.bind_eq_some_iff.mp hs
      obtain ⟨x, -, hs⟩ := Option.bind_eq_some_iff.mp hs
      obtain ⟨sub, hsub, hs⟩ := Option.bind_eq_some_iff.mp hs
      obtain ⟨f, -, rfl⟩ := Option.map_eq_some_iff.mp hs
      refine ⟨i, clip, _, rfl, ?_, rfl, (List.getElem?_eq_some_iff.mp hsub).1⟩
      unfold clipAt at hc
      split at hc
      · obtain ⟨last, hlast, heq⟩ := Option.map_eq_some_iff.mp hc
        obtain ⟨rfl, rfl⟩ := Prod.mk.inj heq
        rwa [List.getLast?_eq_getElem?] at hlast
      · obtain ⟨last, hlast, heq⟩ := Option.map_eq_some_iff.mp hc
        obtain ⟨rfl, rfl⟩ := Prod.mk.inj heq
        exact hlast

theorem aimed_some (hM : M.Lawful) {tl : Timeline K} {aims : List (List (Aim K))}
    (haims : List.Forall₂ (fun clipAims clip => clipAims.length = clip.subs.length) aims tl.clips)
    (home : View K) {t : K} {state : FrameState K} (h : tl.sample bearing t = some state) :
    ∃ frame, aimed M aims home tl.clips.length state = some frame := by
  have hcard : ∀ side : ℤ, segmentOf state tl.clips.length = some side → ¬ (0 ≤ side ∧ side < tl.clips.length) →
      ∃ frame, aimed M aims home tl.clips.length state = some frame := by
    intro side hside hout
    unfold aimed
    rw [hside, Option.bind_some, if_neg hout]
    exact ⟨_, rfl⟩
  rcases hkind : state.kind with _ | _ | _
  · exact hcard (-1) (by rw [segmentOf, hkind]) (by omega)
  · obtain ⟨i, clip, j, hi, hclip, hj, hlt⟩ := sample_clip h hkind
    obtain ⟨hin, hget⟩ := List.getElem?_eq_some_iff.mp hclip
    obtain ⟨hcount, hshape⟩ := List.forall₂_iff_get.mp haims
    have hi' : i < aims.length := by omega
    have hlegs : aims[i].length = tl.clips[i].subs.length := hshape i hi' hin
    rw [hget] at hlegs
    have hseg : segmentOf state tl.clips.length = some (i : ℤ) := by rw [segmentOf, hkind, hi]; rfl
    unfold aimed
    rw [hseg, Option.bind_some, if_pos (by omega), Int.toNat_natCast,
      List.getElem?_eq_getElem hi', Option.bind_some, hj, Option.bind_some,
      List.getElem?_eq_getElem (by omega : j < aims[i].length), Option.bind_some,
      List.getElem?_eq_getElem (by rw [length_groupsFrom]; omega : j < (groupsFrom 0 none aims[i]).length)]
    obtain ⟨p, hp⟩ := worldOf_some hM state.lon state.lat
    split
    · exact ⟨_, rfl⟩
    · rw [hp]
      exact ⟨_, rfl⟩
  · exact hcard tl.clips.length (by rw [segmentOf, hkind]) (by omega)

end Stages

/-! ## 6. The promises -/

section Promises

variable {K : Type} [Field K] [LinearOrder K] [IsStrictOrderedRing K] {M : CameraMath K} {size : Size}

/-- What a frame keeps that aims at `target`: unless it is flown its zoom is not below the level and the aim
    is on the leash, and at a cut it shows the aim. -/
structure Promised (M : CameraMath K) (size : Size) (target : View K) (zoom : K) (cut : Prop) (shot : Shot K) :
    Prop where
  level : shot.flying = false → target.zoom ≤ shot.zoom
  leashed : shot.flying = false → ∃ view off, shot = view.shot M false ∧
    offFrame M size (target.x, target.y) view = some off ∧ off ≤ leashReach
  landed : cut → shot = View.shot M ⟨target.x, target.y, zoom⟩ false

/-- A view that follows the aim of frame `n`. -/
def Stages.Followed (M : CameraMath K) (size : Size) (st : Stages K) (n : ℕ) (v : View K) : Prop :=
  ∃ frame off, st.frames[n]? = some frame ∧ st.zooms[n]? = some v.zoom ∧
    offFrame M size (frame.target.x, frame.target.y) v = some off ∧ off ≤ leashReach ∧
    (n ∈ st.cuts → v = ⟨frame.target.x, frame.target.y, v.zoom⟩)

theorem followFrame_spec (hM : M.Lawful) (hwidth : 0 < size.1) (hheight : 0 < size.2) {st : Stages K}
    (hlength : st.zooms.length = st.frames.length) (dt : K) (s : Motion K × List (View K)) {n : ℕ}
    (hn : n < st.frames.length) : ∃ motion v, followFrame M size dt st s n = some (motion, s.2 ++ [v]) ∧
      st.Followed M size n v := by
  have hreach : (0 : K) ≤ leashReach := by
    unfold leashReach
    positivity
  have hframe := List.getElem?_eq_getElem hn
  have hzoom := List.getElem?_eq_getElem (hlength ▸ hn)
  generalize st.frames[n] = frame at hframe
  unfold followFrame
  rw [hframe, Option.bind_some, hzoom, Option.bind_some]
  dsimp only
  split
  case isTrue =>
    exact ⟨_, _, rfl, frame, 0, hframe, hzoom, offFrame_self hwidth hheight _ _ _, hreach, fun _ => rfl⟩
  case isFalse hfree =>
    obtain ⟨v, off, hv, hsame, hoff, hle⟩ := leash_off hM hwidth hheight
      ⟨(spring M s.1.x s.1.vx frame.target.x dt).1, (spring M s.1.y s.1.vy frame.target.y dt).1, st.zooms[n]⟩
      (frame.target.x, frame.target.y) hreach
    rw [hv]
    exact ⟨_, v, rfl, frame, off, hframe, hsame ▸ hzoom, hoff, hle, fun hcut => absurd (.inr hcut) hfree⟩

theorem follow_spec (hM : M.Lawful) (hwidth : 0 < size.1) (hheight : 0 < size.2) {st : Stages K}
    (hlength : st.zooms.length = st.frames.length) (dt : K) (start : Motion K) :
    ∃ s, (List.range' 0 st.frames.length).foldlM (followFrame M size dt st) (start, []) = some s ∧
      s.2.length = st.frames.length ∧ ∀ (n : ℕ) v, s.2[n]? = some v → st.Followed M size n v := by
  obtain ⟨s, hs, hcount, hall⟩ := foldlM_range'_spec (f := followFrame M size dt st) (a := 0)
    (n := st.frames.length) (s := (start, [])) (P := fun n s => s.2.length = n ∧
      ∀ (m : ℕ) v, s.2[m]? = some v → st.Followed M size m v) (by
    rintro n s - hn ⟨hcount, hall⟩
    obtain ⟨motion, v, hv, hfollowed⟩ := followFrame_spec hM hwidth hheight hlength dt s (by omega : n < _)
    refine ⟨_, hv, by rw [List.length_append, hcount, List.length_singleton], fun m w hw => ?_⟩
    rcases lt_trichotomy m n with hm | rfl | hm
    · rw [List.getElem?_append_left (by omega)] at hw
      exact hall m w hw
    · rw [List.getElem?_append_right hcount.le, hcount, Nat.sub_self] at hw
      exact Option.some.inj hw ▸ hfollowed
    · rw [List.getElem?_eq_none (by rw [List.length_append, List.length_singleton]; omega)] at hw
      cases hw) ⟨rfl, fun m v hv => by cases hv⟩
  exact ⟨s, hs, by omega, hall⟩

theorem stages_spec [FloorRing K] (hM : M.Lawful) (hwidth : 0 < size.1) (hheight : 0 < size.2) {tl : Timeline K}
    (htl : tl.Sound) (bearing : K × K → K × K → K) {fps : ℤ} (hfps : 0 < fps) {aims : List (List (Aim K))}
    (haims : List.Forall₂ (fun clipAims clip => clipAims.length = clip.subs.length) aims tl.clips) :
    ∃ st, stages M size bearing tl fps aims = some st ∧ st.frames.length = frameCount tl fps ∧
      List.Forall₂ (fun frame z => frame.target.zoom ≤ z) st.frames st.zooms ∧
      (st.cuts.Pairwise (· < ·) ∧ ∀ c ∈ st.cuts, 0 < c ∧ c < st.frames.length) ∧
      ∀ (n : ℕ) frame, st.frames[n]? = some frame → ∃ state, tl.sample bearing ((n : K) * (1 / fps)) = some state ∧
        aimed M aims st.home tl.clips.length state = some frame := by
  obtain ⟨home, hhome⟩ := overview_some hM hwidth hheight htl
  have hall : ∀ n ∈ List.range (frameCount tl fps), ∃ frame,
      (tl.sample bearing ((n : K) * (1 / fps))).bind (aimed M aims home tl.clips.length) = some frame ∧
      ∃ state, tl.sample bearing ((n : K) * (1 / fps)) = some state ∧
        aimed M aims home tl.clips.length state = some frame := by
    intro n _
    obtain ⟨s, i, leg, hs, hi, hleg, -⟩ := htl.position (tl.clamped ((n : K) * (1 / fps)))
    obtain ⟨state, hstate, -⟩ := tl.state_some bearing (tl.clamped ((n : K) * (1 / fps))) hi hleg
    have hsample : tl.sample bearing ((n : K) * (1 / fps)) = some state := by
      unfold Timeline.sample
      dsimp only
      rw [← Timeline.clamped, hs, Option.bind_some, hstate]
    obtain ⟨frame, hframe⟩ := aimed_some hM haims home hsample
    exact ⟨frame, by rw [hsample, Option.bind_some, hframe], state, hsample, hframe⟩
  obtain ⟨frames, hframes, hrel⟩ : ∃ frames, (List.range (frameCount tl fps)).mapM (fun (n : ℕ) =>
      (tl.sample bearing ((n : K) * (1 / fps))).bind (aimed M aims home tl.clips.length)) = some frames ∧
      List.Forall₂ (fun (n : ℕ) frame => ∃ state, tl.sample bearing ((n : K) * (1 / fps)) = some state ∧
        aimed M aims home tl.clips.length state = some frame) (List.range (frameCount tl fps)) frames :=
    mapM_forall₂ hall
  obtain ⟨hcount, hrel⟩ := List.forall₂_iff_get.mp hrel
  rw [List.length_range] at hcount
  obtain ⟨zooms, hzooms, hlevels⟩ := planRuns_spec (rampOf K fps) [] frames
  rw [List.nil_append] at hlevels
  obtain ⟨cuts, hcuts, hsorted⟩ := cutsOf_spec (M := M) hwidth hheight hlevels.length_eq.symm
  refine ⟨⟨home, frames, zooms, cuts⟩, ?_, hcount.symm, hlevels, hsorted, fun n frame hn => ?_⟩
  · unfold stages
    rw [hhome, Option.bind_some, divide_pos 1 (Int.cast_pos.mpr hfps), Option.bind_some, hframes,
      Option.bind_some, hzooms, Option.bind_some, hcuts]
    rfl
  · obtain ⟨hlt, rfl⟩ : ∃ h : n < frames.length, frames[n] = frame := List.getElem?_eq_some_iff.mp hn
    have hframe := hrel n (by rw [List.length_range]; omega) hlt
    rwa [List.get_eq_getElem, List.getElem_range] at hframe

end Promises

section Reals

open Real

/-- The functions of analysis. -/
noncomputable def realCamera : CameraMath ℝ :=
  { realMap with
    exp := Real.exp
    cosh := Real.cosh
    tanh := Real.tanh
    asinh := arsinh
    log2 := logb 2
    exp2 := fun x => 2 ^ x
    sqrt := Real.sqrt
    hypot := fun x y => √(x ^ 2 + y ^ 2) }

theorem realCamera_lawful : realCamera.Lawful := by
  have hangle : ∀ lat : ℝ, -maxLat ≤ lat → lat ≤ maxLat → 0 < cos (lat * (π / 180)) := by
    intro lat hlow hhigh
    have hmax : (maxLat : ℝ) < 90 := by
      unfold maxLat
      norm_num
    refine cos_pos_of_mem_Ioo ⟨?_, ?_⟩
    · have hdegree := mul_lt_mul_of_pos_right (by linarith : -90 < lat) (by positivity : 0 < π / 180)
      linarith
    · have hdegree := mul_lt_mul_of_pos_right (by linarith : lat < 90) (by positivity : 0 < π / 180)
      linarith
  refine ⟨fun x => rpow_pos_of_pos two_pos x, Real.cosh_pos, sqrt_pos.mpr two_pos, pi_pos, hangle, ?_⟩
  intro lat hlow hhigh
  have hcos := hangle lat hlow hhigh
  change 0 < tan (lat * (π / 180)) + 1 / cos (lat * (π / 180))
  rw [tan_eq_sin_div_cos, ← add_div]
  refine div_pos ?_ hcos
  have hunit := sin_sq_add_cos_sq (lat * (π / 180))
  have hsquare : 0 < cos (lat * (π / 180)) ^ 2 := pow_pos hcos 2
  have hsin : |sin (lat * (π / 180))| < 1 := by
    rw [← sq_lt_one_iff_abs_lt_one]
    linarith
  linarith [(abs_lt.mp hsin).1]

/-- **The follow camera keeps its promises.** -/
theorem followPath_promised {R : Root ℝ} {policy : PacingPolicy ℝ} {timelineFps : ℤ} {legset : LegSet ℝ}
    {totalS : ℝ} {tl : Timeline ℝ} (hbuild : buildTimeline R policy timelineFps legset totalS = some tl)
    (bearing : ℝ × ℝ → ℝ × ℝ → ℝ) {fps : ℤ} (hfps : 0 < fps) {size : Size} (hwidth : 0 < size.1)
    (hheight : 0 < size.2) {aims : List (List (Aim ℝ))}
    (haims : List.Forall₂ (fun clipAims clip => clipAims.length = clip.subs.length) aims tl.clips) :
    ∃ st path, stages realCamera size bearing tl fps aims = some st ∧
      followPath realCamera bearing size tl fps aims = some path ∧ path.length = frameCount tl fps ∧
      ∀ (n : ℕ) shot, path[n]? = some shot → ∃ state frame zoom,
        tl.sample bearing ((n : ℝ) * (1 / fps)) = some state ∧
        aimed realCamera aims st.home tl.clips.length state = some frame ∧
        st.frames[n]? = some frame ∧ st.zooms[n]? = some zoom ∧
        Promised realCamera size frame.target zoom (n ∈ st.cuts) shot := by
  obtain ⟨htl, -, -⟩ := buildTimeline_sound hbuild
  obtain ⟨st, hst, hcount, hlevels, ⟨hsorted, hcuts⟩, haimed⟩ :=
    stages_spec realCamera_lawful hwidth hheight htl bearing hfps haims
  obtain ⟨hzooms, hlevel⟩ := List.forall₂_iff_get.mp hlevels
  obtain ⟨s, hs, hfollow, hfollowed⟩ :=
    follow_spec realCamera_lawful hwidth hheight hzooms.symm (1 / (fps : ℝ)) ⟨0, 0, 0, 0⟩
  obtain ⟨shots, hshots, hlength, hstill, hcut⟩ := flyAll_spec realCamera_lawful hwidth (rampOf ℝ fps) hsorted
    (fun c hc => hfollow ▸ hcuts c hc) (List.length_map _ : (s.2.map fun v => (v, false)).length = _)
  refine ⟨st, shots.map fun p => p.1.shot realCamera p.2, hst, ?_, ?_, fun n shot hshot => ?_⟩
  · unfold followPath
    rw [hst, Option.bind_some, divide_pos 1 (Int.cast_pos.mpr hfps), Option.bind_some, hs, Option.bind_some,
      hshots]
    rfl
  · rw [List.length_map, hlength, hfollow, hcount]
  · obtain ⟨p, hp, rfl⟩ : ∃ p, shots[n]? = some p ∧ p.1.shot realCamera p.2 = shot := by
      rwa [List.getElem?_map, Option.map_eq_some_iff] at hshot
    have hn : n < s.2.length := hlength ▸ (List.getElem?_eq_some_iff.mp hp).1
    obtain ⟨frame, off, hframe, hzoom, hoff, hle, hlanded⟩ := hfollowed n _ (List.getElem?_eq_getElem hn)
    obtain ⟨state, hstate, haim⟩ := haimed n frame hframe
    have hstart : (s.2.map fun v => (v, false))[n]? = some (s.2[n], false) := by
      rw [List.getElem?_map, List.getElem?_eq_getElem hn, Option.map_some]
    -- a frame that is not flown shows what is followed
    have hfollows : p.2 = false → p = (s.2[n], false) := fun hp' =>
      Option.some.inj ((hstill n p hp hp').symm.trans hstart)
    refine ⟨state, frame, s.2[n].zoom, hstate, haim, hframe, hzoom, ?_, ?_, ?_⟩
    · intro hflying
      rw [hfollows hflying]
      obtain ⟨hin, rfl⟩ := List.getElem?_eq_some_iff.mp hframe
      obtain ⟨hin', hget⟩ := List.getElem?_eq_some_iff.mp hzoom
      have hbelow := hlevel n hin hin'
      rwa [List.get_eq_getElem, List.get_eq_getElem, hget] at hbelow
    · intro hflying
      rw [hfollows hflying]
      exact ⟨s.2[n], off, rfl, hoff, hle⟩
    · intro hmem
      have hsame := (hcut n (.inr hmem)).symm.trans hp
      rw [hstart] at hsame
      rw [← Option.some.inj hsame, ← hlanded hmem]

/-- A ride along a parallel. -/
noncomputable def oneRide : LegSet ℝ :=
  buildLegs (fun _ _ => 0) (fun _ _ => le_rfl) [(.activity "ride" none none none none 18, some [(7, 46), (8, 46)])]

/-- Eight seconds of it, at thirty frames a second. -/
theorem followPath_promised_ride : ∃ tl path,
    buildTimeline ⟨Real.sqrt, Real.sqrt_nonneg⟩ (sqrtBudget ⟨Real.sqrt, Real.sqrt_nonneg⟩) 30 oneRide 8 = some tl ∧
      followPath realCamera (fun _ _ => 0) (1920, 1080) tl 30
        (tl.clips.map fun clip => clip.subs.map fun _ => ⟨none, 12, false⟩) = some path ∧
      path.length = frameCount tl 30 := by
  have hlegs : oneRide.legs ≠ [] := by
    have hone : oneRide.legs.length = 1 := by
      change (legsOfItems _ _).length = 1
      unfold legsOfItems fillDates
      rw [List.length_reverse, length_fillFrom, List.length_reverse, length_fillFrom]
      rfl
    intro hnil
    rw [hnil] at hone
    cases hone
  have hroom : 1 ≤ maxClips (8 : ℝ) :=
    le_max_of_le_right (Int.le_floor.mpr (by norm_num [clipBudgetS, titleS, endS, minClipS]))
  obtain ⟨tl, htl⟩ := buildTimeline_some ⟨Real.sqrt, Real.sqrt_nonneg⟩
    (sqrtBudget ⟨Real.sqrt, Real.sqrt_nonneg⟩) (by decide : (30 : ℤ) ≠ 0) hlegs hroom
  obtain ⟨-, path, -, hpath, hlength, -⟩ := followPath_promised htl (fun _ _ => 0) (by decide : (0 : ℤ) < 30)
    (by decide : (0 : ℤ) < ((1920, 1080) : Size).1) (by decide : (0 : ℤ) < ((1920, 1080) : Size).2)
    (List.forall₂_map_left_iff.mpr (List.forall₂_same.mpr fun _ _ => List.length_map _))
  exact ⟨tl, path, htl, hpath, hlength⟩

end Reals

end TraxJourney.Video
