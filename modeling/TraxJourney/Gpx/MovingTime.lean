/-
  File:      Gpx/MovingTime.lean
  Subject:   The moving time of a recorded track (`GpxCandidate.moving_seconds` of `src/gpx/importer.py`).

  * `Judges` -- the verdict on a step in every list, and on a short one where the ends of the window can move on.
  * **`movingSeconds_spec`** -- the moving time is that of the steps with a verdict for them.

  Stamps are in seconds, calculated exactly; the distance of two points is given, in kilometres.
-/
import TraxJourney.Track.Smoothing

namespace TraxJourney.Gpx

open Lib Track

/-! ## 1. The loop -/

/-- `MOVING_MIN_SPEED_MS`, `MOVING_WINDOW_S`, `MAX_SAMPLE_GAP_S`. -/
def movingMinSpeedMs : ℚ := 3 / 10
def movingWindowS : ℚ := 30
def maxSampleGapS : ℚ := 300

/-- `GpxCandidate`: the points and their stamps. -/
structure GpxCandidate (P : Type) where
  points : List P
  times : List (Option ℚ)

variable {P : Type} (haversineKm : P → P → ℚ)

def GpxCandidate.stamped (c : GpxCandidate P) : List (P × ℚ) :=
  (c.points.zip c.times).filterMap fun s => s.2.map fun t => (s.1, t)

def GpxCandidate.timeSpan (c : GpxCandidate P) : Option (ℚ × ℚ) := do
  let stamps := c.times.filterMap id
  if stamps.length < 2 then none
  else
    let first ← stamps.min?
    let last ← stamps.max?
    if first < last then some (first, last) else none

def GpxCandidate.elapsedSeconds (c : GpxCandidate P) : Option ℤ := c.timeSpan.map fun span => ⌊span.2 - span.1⌋

/-- The time so far, and the two ends of the window. -/
structure Walk where
  moving : ℚ
  low : ℕ
  high : ℕ

/-- Between two points the net speed is one of moving. -/
def moves (a b : P × ℚ) : Bool :=
  decide (0 < b.2 - a.2) && decide (movingMinSpeedMs ≤ haversineKm a.1 b.1 * 1000 / (b.2 - a.2))

/-- A step more that counts, or not. -/
def Walk.add (w : Walk) (counted : Bool) (seconds : ℚ) : Walk :=
  if counted then { w with moving := w.moving + seconds } else w

/-- One turn of the loop. -/
def movingStep (stamped : List (P × ℚ)) (w : Walk) (index : ℕ) : Option Walk := do
  let here ← stamped[index]?
  let next ← stamped[index + 1]?
  let seconds := next.2 - here.2
  if seconds ≤ 0 ∨ maxSampleGapS < seconds then some w
  else if movingWindowS ≤ seconds then some (w.add (moves haversineKm here next) seconds)
  else do
    let stamps := stamped.map Prod.snd
    let half := movingWindowS / 2
    let low ← advanceLo (exact ℚ id) stamps half index (stamps.length + 1) w.low
    let high := advanceHi (exact ℚ id) stamps half index stamps.length w.high
    let first ← stamped[low]?
    let last ← stamped[high]?
    some ({ w with low := low, high := high }.add (moves haversineKm first last) seconds)

/-- `int(min(moving, elapsed))`, where there is an elapsed time. -/
def GpxCandidate.reported (c : GpxCandidate P) (moving : ℚ) : ℤ :=
  ⌊(c.elapsedSeconds.map fun elapsed : ℤ => min moving (elapsed : ℚ)).getD moving⌋

def GpxCandidate.movingSeconds (c : GpxCandidate P) : Option ℤ :=
  if c.times.all Option.isNone then none
  else if c.stamped.length < 2 then some 0
  else do
    let w ← (List.range' 0 (c.stamped.length - 1)).foldlM (movingStep haversineKm c.stamped) ⟨0, 0, 0⟩
    some (c.reported w.moving)

/-! ## 2. Windows -/

/-- A stamp is within the window of a time. -/
def within (here t : ℚ) : Bool := decide (|t - here| ≤ movingWindowS / 2)

/-- The points within the window of a time. -/
def windowOf (stamped : List (P × ℚ)) (here : ℚ) : List (P × ℚ) := stamped.filter fun s => within here s.2

/-- A step counts: a short one by the net speed from the first to the last point of its window. -/
def counts (stamped : List (P × ℚ)) (here next : P × ℚ) : Bool :=
  let seconds := next.2 - here.2
  if seconds ≤ 0 ∨ maxSampleGapS < seconds then false
  else if movingWindowS ≤ seconds then moves haversineKm here next
  else
    match (windowOf stamped here.2).head?, (windowOf stamped here.2).getLast? with
    | some first, some last => moves haversineKm first last
    | _, _ => false

def countedStep (stamped : List (P × ℚ)) (step : (P × ℚ) × (P × ℚ)) : ℚ :=
  if counts haversineKm stamped step.1 step.2 then step.2.2 - step.1.2 else 0

def countedTime (stamped : List (P × ℚ)) : ℚ :=
  ((stamped.zip stamped.tail).map (countedStep haversineKm stamped)).sum

/-- The time of the steps with a verdict, each at its place. -/
def timeOf (stamped : List (P × ℚ)) (verdict : ℕ → (P × ℚ) × (P × ℚ) → Bool) : ℚ :=
  ((stamped.zip stamped.tail).zipIdx.map fun s => if verdict s.2 s.1 then s.1.2.2 - s.1.1.2 else 0).sum

section Stamps

variable (stamps : List ℚ)

def judged (i : ℕ) : Bool :=
  match stamps[i]?, stamps[i + 1]? with
  | some here, some next => decide (0 < next - here) && decide (next - here < movingWindowS)
  | _, _ => false

/-- The first and the last point within the window of a step. -/
def windowAt (i : ℕ) : ℕ × ℕ :=
  ((stamps.findIdx (within (stamps.getD i 0))), lastIdx (within (stamps.getD i 0)) stamps)

/-- The window of the last step before that is judged by its own. -/
def lastWindow : ℕ → ℕ × ℕ
  | 0 => (0, 0)
  | i + 1 => if judged stamps i then windowAt stamps i else lastWindow i

/-- The two ends, moved on for a step. -/
def moveOn (i : ℕ) (ends : ℕ × ℕ) : ℕ × ℕ :=
  ((advanceLo (exact ℚ id) stamps (movingWindowS / 2) i (stamps.length + 1) ends.1).getD ends.1,
    advanceHi (exact ℚ id) stamps (movingWindowS / 2) i stamps.length ends.2)

/-- The two ends after the first steps. -/
def endsAfter : ℕ → ℕ × ℕ
  | 0 => (0, 0)
  | i + 1 => if judged stamps i then moveOn stamps i (endsAfter i) else endsAfter i

/-- Both ends can move on from a window to the next. -/
structure Follows (here : ℚ) (before after : ℕ × ℕ) : Prop where
  low : before.1 ≤ after.1
  older : ∀ k x, before.1 ≤ k → k < after.1 → stamps[k]? = some x → movingWindowS / 2 < here - x
  high : before.2 ≤ after.2
  taken : ∀ k x, before.2 < k → k ≤ after.2 → stamps[k]? = some x → x - here ≤ movingWindowS / 2
  beyond : ∀ x, stamps[after.2 + 1]? = some x → movingWindowS / 2 < x - here

/-- So they can at every step that is judged by its window. -/
def Forward : Prop :=
  ∀ i here, judged stamps i = true → stamps[i]? = some here →
    Follows stamps here (lastWindow stamps i) (windowAt stamps i)

end Stamps

/-- The verdict of the loop: a short step is judged between the two ends as they are then. -/
def verdict (stamped : List (P × ℚ)) (i : ℕ) (step : (P × ℚ) × (P × ℚ)) : Bool :=
  let seconds := step.2.2 - step.1.2
  let ends := endsAfter (stamped.map Prod.snd) (i + 1)
  if seconds ≤ 0 ∨ maxSampleGapS < seconds then false
  else if movingWindowS ≤ seconds then moves haversineKm step.1 step.2
  else
    match stamped[ends.1]?, stamped[ends.2]? with
    | some first, some last => moves haversineKm first last
    | _, _ => false

/-- What the verdict on a step is, in every list; and in one whose ends can move on, on a short step too. -/
structure Judges (stamped : List (P × ℚ)) (here next : P × ℚ) (counted : Bool) : Prop where
  never : next.2 - here.2 ≤ 0 ∨ maxSampleGapS < next.2 - here.2 → counted = false
  own : movingWindowS ≤ next.2 - here.2 → next.2 - here.2 ≤ maxSampleGapS →
    counted = moves haversineKm here next
  window : Forward (stamped.map Prod.snd) → counted = counts haversineKm stamped here next

section Spec

variable {stamps : List ℚ} {i : ℕ} {here : ℚ}

theorem within_iff {here t : ℚ} :
    within here t = true ↔ here - t ≤ movingWindowS / 2 ∧ t - here ≤ movingWindowS / 2 := by
  unfold within
  rw [decide_eq_true_iff, abs_le, neg_le, neg_sub]

theorem not_within_iff {here t : ℚ} :
    within here t = false ↔ movingWindowS / 2 < here - t ∨ movingWindowS / 2 < t - here := by
  rw [Bool.eq_false_iff, Ne, within_iff, not_and_or, not_le, not_le]

theorem within_self (here : ℚ) : within here here = true := by
  rw [within_iff, sub_self]
  decide +kernel

theorem judged_here (h : judged stamps i = true) : ∃ here, stamps[i]? = some here := by
  unfold judged at h
  cases hi : stamps[i]? with
  | none =>
    rw [hi] at h
    cases h
  | some here => exact ⟨here, rfl⟩

structure IsWindow (stamps : List ℚ) (here : ℚ) (i : ℕ) (ends : ℕ × ℕ) : Prop where
  first : ∃ x, stamps[ends.1]? = some x ∧ within here x = true
  first_le : ends.1 ≤ i
  before : ∀ k x, k < ends.1 → stamps[k]? = some x → within here x = false
  last : ∃ x, stamps[ends.2]? = some x ∧ within here x = true
  le_last : i ≤ ends.2
  last_lt : ends.2 < stamps.length
  behind : ∀ k x, ends.2 < k → stamps[k]? = some x → within here x = false

theorem windowAt_spec (h : stamps[i]? = some here) : IsWindow stamps here i (windowAt stamps i) := by
  have hd : stamps.getD i 0 = here := by rw [List.getD_eq_getElem?_getD, h, Option.getD_some]
  obtain ⟨hfirst, hle, hbefore⟩ := findIdx_spec h (within_self here)
  obtain ⟨hlast, hge, hlt, hbehind⟩ := lastIdx_spec h (within_self here)
  unfold windowAt
  rw [hd]
  exact ⟨hfirst, hle, hbefore, hlast, hge, hlt, hbehind⟩

theorem lastWindow_bounds (hi : i < stamps.length) :
    (lastWindow stamps i).1 ≤ i ∧ (lastWindow stamps i).2 < stamps.length := by
  induction i with
  | zero => exact ⟨le_rfl, hi⟩
  | succ i ih =>
    unfold lastWindow
    split
    case isTrue =>
      have hw := windowAt_spec (List.getElem?_eq_getElem (by omega : i < stamps.length))
      exact ⟨Nat.le_succ_of_le hw.first_le, hw.last_lt⟩
    case isFalse =>
      obtain ⟨hle, hlt⟩ := ih (by omega)
      exact ⟨Nat.le_succ_of_le hle, hlt⟩

/-- What the two loops do to the ends. -/
structure Moved (stamps : List ℚ) (here : ℚ) (i : ℕ) (before after : ℕ × ℕ) : Prop
    extends Follows stamps here before after where
  low_le : after.1 ≤ i
  high_lt : after.2 < stamps.length
  first : ∀ x, stamps[after.1]? = some x → here - x ≤ movingWindowS / 2

theorem moveOn_spec (h : stamps[i]? = some here) {ends : ℕ × ℕ} (hlow : ends.1 ≤ i)
    (hhigh : ends.2 < stamps.length) :
    advanceLo (exact ℚ id) stamps (movingWindowS / 2) i (stamps.length + 1) ends.1 =
        some (moveOn stamps i ends).1 ∧
      Moved stamps here i ends (moveOn stamps i ends) := by
  have hhalf : (0 : ℚ) ≤ movingWindowS / 2 := by decide +kernel
  have hi : i < stamps.length := (List.getElem?_eq_some_iff.mp h).1
  obtain ⟨lo, hlo, hfrom, hle, holder, hfirst⟩ :=
    advanceLo_turned id h hhalf (stamps.length + 1) hlow (by omega)
  have hrun : advanceHi (exact ℚ id) stamps (movingWindowS / 2) i stamps.length ends.2 = (moveOn stamps i ends).2 :=
    rfl
  obtain ⟨hge, hlt, htaken, hbeyond⟩ := advanceHi_turned h hhigh (by omega) hrun
  unfold moveOn
  rw [hlo, Option.getD_some]
  exact ⟨rfl, ⟨hfrom, holder, hge, htaken, hbeyond⟩, hle, hlt, hfirst⟩

theorem Moved.unique {before after after' : ℕ × ℕ} (h : Moved stamps here i before after)
    (h' : Moved stamps here i before after') (hi : i < stamps.length) : after = after' := by
  have hlow : ∀ {a b : ℕ × ℕ}, Moved stamps here i before a → Moved stamps here i before b → ¬ a.1 < b.1 := by
    intro a b ha hb hlt
    have hat := List.getElem?_eq_getElem (by have := ha.low_le; omega : a.1 < stamps.length)
    exact absurd (hb.older a.1 _ ha.low hlt hat) (not_lt.mpr (ha.first _ hat))
  have hhigh : ∀ {a b : ℕ × ℕ}, Moved stamps here i before a → Moved stamps here i before b → ¬ a.2 < b.2 := by
    intro a b ha hb hlt
    have hat := List.getElem?_eq_getElem (by have := hb.high_lt; omega : a.2 + 1 < stamps.length)
    exact absurd (ha.beyond _ hat) (not_lt.mpr (hb.taken (a.2 + 1) _ (by have := ha.high; omega) hlt hat))
  refine Prod.ext ?_ ?_
  · exact Nat.le_antisymm (not_lt.mp (hlow h' h)) (not_lt.mp (hlow h h'))
  · exact Nat.le_antisymm (not_lt.mp (hhigh h' h)) (not_lt.mp (hhigh h h'))

theorem Follows.moved {before after : ℕ × ℕ} (h : Follows stamps here before after)
    (hw : IsWindow stamps here i after) : Moved stamps here i before after := by
  obtain ⟨x, hx, hin⟩ := hw.first
  refine ⟨h, hw.first_le, hw.last_lt, fun y hy => ?_⟩
  obtain rfl := Option.some.inj (hx.symm.trans hy)
  exact (within_iff.mp hin).1

theorem endsAfter_eq {n : ℕ} (h : ∀ i, i < n → judged stamps i = true → endsAfter stamps (i + 1) = windowAt stamps i) :
    endsAfter stamps n = lastWindow stamps n := by
  induction n with
  | zero => rfl
  | succ n ih =>
    cases hj : judged stamps n with
    | true => rw [h n n.lt_succ_self hj, lastWindow, if_pos hj]
    | false =>
      rw [endsAfter, lastWindow, hj, if_neg Bool.false_ne_true, if_neg Bool.false_ne_true]
      exact ih fun i hi => h i (Nat.lt_succ_of_lt hi)

theorem windows_iff_forward :
    (∀ i, judged stamps i = true → endsAfter stamps (i + 1) = windowAt stamps i) ↔ Forward stamps := by
  constructor
  · intro h i here hj hhere
    obtain ⟨hlow, hhigh⟩ := lastWindow_bounds (List.getElem?_eq_some_iff.mp hhere).1
    obtain ⟨-, hmoved⟩ := moveOn_spec hhere hlow hhigh
    have hends := h i hj
    rw [endsAfter, if_pos hj, endsAfter_eq fun i _ => h i] at hends
    rw [← hends]
    exact hmoved.toFollows
  · intro h
    have hrun : ∀ n i, i < n → judged stamps i = true → endsAfter stamps (i + 1) = windowAt stamps i := by
      intro n
      induction n with
      | zero => exact fun i hi => absurd hi (Nat.not_lt_zero i)
      | succ n ih =>
        intro i hi hj
        obtain ⟨here, hhere⟩ := judged_here hj
        have hlt := (List.getElem?_eq_some_iff.mp hhere).1
        obtain ⟨hlow, hhigh⟩ := lastWindow_bounds hlt
        obtain ⟨-, hmoved⟩ := moveOn_spec hhere hlow hhigh
        rw [endsAfter, if_pos hj, endsAfter_eq fun j hjn => ih j (by omega)]
        exact hmoved.unique ((h i here hj hhere).moved (windowAt_spec hhere)) hlt
    exact fun i => hrun (i + 1) i i.lt_succ_self

theorem lastWindow_cases (hi : i < stamps.length) : lastWindow stamps i = (0, 0) ∨
    ∃ j there, j < i ∧ stamps[j]? = some there ∧ lastWindow stamps i = windowAt stamps j := by
  induction i with
  | zero => exact .inl rfl
  | succ i ih =>
    unfold lastWindow
    split
    case isTrue => exact .inr ⟨i, _, i.lt_succ_self, List.getElem?_eq_getElem (by omega), rfl⟩
    case isFalse =>
      rcases ih (by omega) with hzero | ⟨j, there, hj, hthere, hlast⟩
      · exact .inl hzero
      · exact .inr ⟨j, there, Nat.lt_succ_of_lt hj, hthere, hlast⟩

theorem IsWindow.mono (h : stamps.Pairwise (· ≤ ·)) {j : ℕ} {there : ℚ} {ends ends' : ℕ × ℕ} (hj : j ≤ i)
    (hthere : stamps[j]? = some there) (hhere : stamps[i]? = some here) (hw : IsWindow stamps there j ends)
    (hw' : IsWindow stamps here i ends') : ends.1 ≤ ends'.1 ∧ ends.2 ≤ ends'.2 := by
  have hle := le_of_sorted h hj hthere hhere
  constructor
  · by_contra hnot
    -- what was too old for the earlier step is so for the later one
    obtain ⟨x, hx, hin⟩ := hw'.first
    have hold := hw.before _ x (not_le.mp hnot) hx
    have hxle := le_of_sorted h (show ends'.1 ≤ j from (not_le.mp hnot).le.trans hw.first_le) hx hthere
    rw [not_within_iff] at hold
    rw [within_iff] at hin
    rcases hold with hold | hold
    · linarith [hin.1]
    · linarith
  · by_contra hnot
    obtain ⟨x, hx, hin⟩ := hw.last
    have hout := hw'.behind _ x (not_le.mp hnot) hx
    have hxle := le_of_sorted h (hw'.le_last.trans (not_le.mp hnot).le) hhere hx
    rw [not_within_iff] at hout
    rw [within_iff] at hin
    rcases hout with hout | hout
    · linarith
    · linarith [hin.2]

theorem forward_of_ordered (h : stamps.Pairwise (· ≤ ·)) : Forward stamps := by
  intro i here _ hhere
  have hlt := (List.getElem?_eq_some_iff.mp hhere).1
  have hw := windowAt_spec hhere
  have hpos : (0 : ℚ) < movingWindowS / 2 := by decide +kernel
  obtain ⟨hlow, hhigh⟩ : (lastWindow stamps i).1 ≤ (windowAt stamps i).1 ∧
      (lastWindow stamps i).2 ≤ (windowAt stamps i).2 := by
    rcases lastWindow_cases hlt with hzero | ⟨j, there, hj, hthere, hlast⟩
    · rw [hzero]
      exact ⟨Nat.zero_le _, Nat.zero_le _⟩
    · rw [hlast]
      exact (windowAt_spec hthere).mono h hj.le hthere hhere hw
  refine ⟨hlow, fun k x _ hk hx => ?_, hhigh, fun k x _ hk hx => ?_, fun x hx => ?_⟩
  · have hout := hw.before k x hk hx
    have hxle := le_of_sorted h (hk.le.trans hw.first_le) hx hhere
    rw [not_within_iff] at hout
    rcases hout with hout | hout
    · exact hout
    · linarith
  · obtain ⟨y, hy, hin⟩ := hw.last
    have hxle := le_of_sorted h hk hx hy
    rw [within_iff] at hin
    linarith [hin.2]
  · have hout := hw.behind _ x (Nat.lt_succ_self _) hx
    have hxle := le_of_sorted h (Nat.le_succ_of_le hw.le_last) hhere hx
    rw [not_within_iff] at hout
    rcases hout with hout | hout
    · linarith
    · exact hout

theorem endsAfter_bounds (hi : i < stamps.length) :
    (endsAfter stamps i).1 ≤ i ∧ (endsAfter stamps i).2 < stamps.length := by
  induction i with
  | zero => exact ⟨le_rfl, hi⟩
  | succ i ih =>
    obtain ⟨hle, hlt⟩ := ih (by omega)
    unfold endsAfter
    split
    case isTrue =>
      obtain ⟨-, hmoved⟩ := moveOn_spec (List.getElem?_eq_getElem (by omega : i < stamps.length)) hle hlt
      exact ⟨Nat.le_succ_of_le hmoved.low_le, hmoved.high_lt⟩
    case isFalse => exact ⟨Nat.le_succ_of_le hle, hlt⟩

end Spec

/-! ## 3. The moving time -/

section Moving

variable {haversineKm : P → P → ℚ} {stamped : List (P × ℚ)} {i : ℕ}

variable {here : P × ℚ}

theorem windowOf_ends (hhere : stamped[i]? = some here) :
    (windowOf stamped here.2).head? = stamped[(windowAt (stamped.map Prod.snd) i).1]? ∧
      (windowOf stamped here.2).getLast? = stamped[(windowAt (stamped.map Prod.snd) i).2]? := by
  have hd : (stamped.map Prod.snd).getD i 0 = here.2 := by
    rw [List.getD_eq_getElem?_getD, List.getElem?_map, hhere]
    rfl
  have hlast : lastIdx (within here.2) (stamped.map Prod.snd) = lastIdx (fun s => within here.2 s.2) stamped := by
    unfold lastIdx
    rw [List.length_map, ← List.map_reverse, List.findIdx_map]
    rfl
  unfold windowAt windowOf
  rw [hd, List.findIdx_map, hlast]
  exact ⟨head?_filter_eq, getLast?_filter_eq hhere (within_self here.2)⟩

variable {next : P × ℚ}

theorem judged_iff (hhere : stamped[i]? = some here) (hnext : stamped[i + 1]? = some next) :
    judged (stamped.map Prod.snd) i = true ↔ 0 < next.2 - here.2 ∧ next.2 - here.2 < movingWindowS := by
  unfold judged
  rw [List.getElem?_map, List.getElem?_map, hhere, hnext]
  simp

theorem Walk.add_moving (w : Walk) (counted : Bool) (seconds : ℚ) :
    (w.add counted seconds).moving = w.moving + if counted then seconds else 0 := by
  cases counted with
  | false => exact (add_zero _).symm
  | true => rfl

theorem Walk.add_ends (w : Walk) (counted : Bool) (seconds : ℚ) :
    ((w.add counted seconds).low, (w.add counted seconds).high) = (w.low, w.high) := by
  cases counted <;> rfl

variable (haversineKm) in
theorem verdict_judges (hhere : stamped[i]? = some here) (hnext : stamped[i + 1]? = some next) :
    Judges haversineKm stamped here next (verdict haversineKm stamped i (here, next)) := by
  have hzero : (0 : ℚ) < movingWindowS := by decide +kernel
  unfold verdict
  dsimp only
  refine ⟨fun hskip => if_pos hskip, fun hlong hshort => ?_, fun hforward => ?_⟩
  · rw [if_neg (not_or.mpr ⟨not_le.mpr (hzero.trans_le hlong), not_lt.mpr hshort⟩), if_pos hlong]
  · unfold counts
    by_cases hskip : next.2 - here.2 ≤ 0 ∨ maxSampleGapS < next.2 - here.2
    case pos => rw [if_pos hskip, if_pos hskip]
    case neg =>
      rw [if_neg hskip, if_neg hskip]
      by_cases hlong : movingWindowS ≤ next.2 - here.2
      case pos => rw [if_pos hlong, if_pos hlong]
      case neg =>
        have hj := (judged_iff hhere hnext).mpr ⟨not_le.mp (not_or.mp hskip).1, not_le.mp hlong⟩
        obtain ⟨hhead, hback⟩ := windowOf_ends hhere
        rw [if_neg hlong, if_neg hlong, hhead, hback, windows_iff_forward.mpr hforward i hj]

variable (haversineKm) in
theorem movingStep_spec (hhere : stamped[i]? = some here) (hnext : stamped[i + 1]? = some next) {w : Walk}
    (hends : (w.low, w.high) = endsAfter (stamped.map Prod.snd) i) :
    ∃ w', movingStep haversineKm stamped w i = some w' ∧
      (w'.low, w'.high) = endsAfter (stamped.map Prod.snd) (i + 1) ∧
      w'.moving = w.moving + if verdict haversineKm stamped i (here, next) then next.2 - here.2 else 0 := by
  have hjudged := judged_iff hhere hnext
  unfold movingStep verdict
  rw [hhere, hnext]
  simp only [Option.bind_eq_bind, Option.bind_some]
  by_cases hskip : next.2 - here.2 ≤ 0 ∨ maxSampleGapS < next.2 - here.2
  case pos =>
    have hnot : ¬ judged (stamped.map Prod.snd) i = true := by
      rw [hjudged]
      have hless : movingWindowS ≤ maxSampleGapS := by decide +kernel
      rintro ⟨hpos, hshort⟩
      rcases hskip with hskip | hskip <;> linarith
    rw [if_pos hskip, if_pos hskip, endsAfter, if_neg hnot]
    exact ⟨w, rfl, hends, (add_zero _).symm⟩
  case neg =>
    rw [if_neg hskip, if_neg hskip]
    by_cases hlong : movingWindowS ≤ next.2 - here.2
    case pos =>
      have hnot : ¬ judged (stamped.map Prod.snd) i = true := by
        rw [hjudged]
        exact fun h => absurd hlong (not_le.mpr h.2)
      rw [if_pos hlong, if_pos hlong, endsAfter, if_neg hnot]
      exact ⟨_, rfl, (w.add_ends _ _).trans hends, w.add_moving _ _⟩
    case neg =>
      rw [not_or, not_le] at hskip
      have hj : judged (stamped.map Prod.snd) i = true := hjudged.mpr ⟨hskip.1, not_le.mp hlong⟩
      have hstamp : (stamped.map Prod.snd)[i]? = some here.2 := by
        rw [List.getElem?_map, hhere]
        rfl
      have hlt := (List.getElem?_eq_some_iff.mp hstamp).1
      obtain ⟨hlow, hhigh⟩ := endsAfter_bounds hlt
      obtain ⟨hlo, hmoved⟩ := moveOn_spec hstamp hlow hhigh
      have hends' : endsAfter (stamped.map Prod.snd) (i + 1) =
          moveOn (stamped.map Prod.snd) i (endsAfter (stamped.map Prod.snd) i) := if_pos hj
      rw [← hends] at hlo hmoved hends'
      generalize hto : moveOn (stamped.map Prod.snd) i (w.low, w.high) = ends at hlo hmoved hends'
      have hhi : advanceHi (exact ℚ id) (stamped.map Prod.snd) (movingWindowS / 2) i
          (stamped.map Prod.snd).length w.high = ends.2 := congrArg Prod.snd hto
      have hlowLt : ends.1 < stamped.length := hmoved.low_le.trans_lt (by rwa [List.length_map] at hlt)
      have hhighLt : ends.2 < stamped.length := by simpa using hmoved.high_lt
      have hfirst : stamped[ends.1]? = some stamped[ends.1] := List.getElem?_eq_getElem hlowLt
      have hlast : stamped[ends.2]? = some stamped[ends.2] := List.getElem?_eq_getElem hhighLt
      rw [if_neg hlong, if_neg hlong, hlo, Option.bind_some, hends', hfirst, Option.bind_some, hhi, hlast,
        Option.bind_some]
      exact ⟨_, rfl, Walk.add_ends _ _ _, Walk.add_moving _ _ _⟩

theorem movingRun_spec (haversineKm : P → P → ℚ) (stamped : List (P × ℚ)) :
    ∃ w, (List.range' 0 (stamped.length - 1)).foldlM (movingStep haversineKm stamped) ⟨0, 0, 0⟩ = some w ∧
      w.moving = timeOf stamped (verdict haversineKm stamped) := by
  have hturn : ∀ i (w : Walk), 0 ≤ i → i < 0 + (stamped.length - 1) →
      ((w.low, w.high) = endsAfter (stamped.map Prod.snd) i ∧
        w.moving = (((stamped.zip stamped.tail).take i).zipIdx.map fun s =>
          if verdict haversineKm stamped s.2 s.1 then s.1.2.2 - s.1.1.2 else 0).sum) →
      ∃ w', movingStep haversineKm stamped w i = some w' ∧
        ((w'.low, w'.high) = endsAfter (stamped.map Prod.snd) (i + 1) ∧
          w'.moving = (((stamped.zip stamped.tail).take (i + 1)).zipIdx.map fun s =>
            if verdict haversineKm stamped s.2 s.1 then s.1.2.2 - s.1.1.2 else 0).sum) := by
    rintro i w - hi ⟨hends, hmoving⟩
    have hpair : i < (stamped.zip stamped.tail).length := by
      rw [length_zip_tail]
      omega
    obtain ⟨hhere, hnext⟩ := zip_tail_get hpair
    rw [Nat.add_sub_cancel_left] at hhere
    rw [Nat.add_comm] at hnext
    obtain ⟨w', hw', hends', hmoving'⟩ := movingStep_spec haversineKm hhere hnext hends
    refine ⟨w', hw', hends', ?_⟩
    rw [hmoving', hmoving, List.take_succ_eq_append_getElem hpair, List.zipIdx_append, List.map_append,
      List.sum_append, List.length_take_of_le hpair.le, Nat.zero_add, List.zipIdx_singleton,
      List.map_singleton, List.sum_singleton]
  obtain ⟨w, hw, -, hmoving⟩ := foldlM_range'_spec (s := ⟨0, 0, 0⟩) hturn ⟨rfl, rfl⟩
  refine ⟨w, hw, ?_⟩
  rw [hmoving, Nat.zero_add, ← length_zip_tail, List.take_length]
  rfl

theorem timeOf_forward (haversineKm : P → P → ℚ) (hforward : Forward (stamped.map Prod.snd)) :
    timeOf stamped (verdict haversineKm stamped) = countedTime haversineKm stamped := by
  have hstep : ∀ s ∈ (stamped.zip stamped.tail).zipIdx,
      (if verdict haversineKm stamped s.2 s.1 then s.1.2.2 - s.1.1.2 else 0) =
        countedStep haversineKm stamped s.1 := by
    intro s hs
    obtain ⟨hlt, hget⟩ := List.getElem?_eq_some_iff.mp (List.mem_zipIdx_iff_getElem?.mp hs)
    obtain ⟨hhere, hnext⟩ := zip_tail_get hlt
    rw [Nat.add_sub_cancel_left] at hhere
    rw [Nat.add_comm] at hnext
    rw [hget] at hhere hnext
    rw [(verdict_judges haversineKm hhere hnext).window hforward]
    rfl
  calc timeOf stamped (verdict haversineKm stamped)
      = ((stamped.zip stamped.tail).zipIdx.map (countedStep haversineKm stamped ∘ Prod.fst)).sum :=
        congrArg List.sum (List.map_congr_left hstep)
    _ = countedTime haversineKm stamped := by
        rw [← List.map_map, List.zipIdx_map_fst]
        rfl

variable {c : GpxCandidate P}

theorem GpxCandidate.reported_le {elapsed : ℤ} (h : c.elapsedSeconds = some elapsed) (moving : ℚ) :
    c.reported moving ≤ elapsed := by
  unfold GpxCandidate.reported
  rw [h, Option.map_some, Option.getD_some]
  calc ⌊min moving (elapsed : ℚ)⌋ ≤ ⌊(elapsed : ℚ)⌋ := Int.floor_mono (min_le_right _ _)
    _ = elapsed := Int.floor_intCast elapsed

theorem GpxCandidate.timeSpan_lt {span : ℚ × ℚ} (h : c.timeSpan = some span) :
    span.1 < span.2 := by
  unfold GpxCandidate.timeSpan at h
  obtain ⟨-, h⟩ := Option.ite_none_left_eq_some.mp h
  obtain ⟨first, -, h⟩ := Option.bind_eq_some_iff.mp h
  obtain ⟨last, -, h⟩ := Option.bind_eq_some_iff.mp h
  obtain ⟨hlt, h⟩ := Option.ite_none_right_eq_some.mp h
  cases h
  exact hlt

theorem GpxCandidate.reported_zero (c : GpxCandidate P) : c.reported 0 = 0 := by
  unfold GpxCandidate.reported GpxCandidate.elapsedSeconds
  cases hspan : c.timeSpan with
  | none => exact Int.floor_zero
  | some span =>
    have hnonneg : (0 : ℚ) ≤ (⌊span.2 - span.1⌋ : ℤ) :=
      Int.cast_nonneg (Int.floor_nonneg.mpr (sub_nonneg.mpr (timeSpan_lt hspan).le))
    rw [Option.map_some, Option.map_some, Option.getD_some, min_eq_left hnonneg, Int.floor_zero]

theorem timeOf_short (h : stamped.length < 2) (verdict : ℕ → (P × ℚ) × (P × ℚ) → Bool) :
    timeOf stamped verdict = 0 := by
  have hnone : stamped.zip stamped.tail = [] := by
    rw [← List.length_eq_zero_iff, length_zip_tail]
    omega
  unfold timeOf
  rw [hnone]
  rfl

theorem movingSeconds_eq (haversineKm : P → P → ℚ) (htimes : c.times.all Option.isNone = false) :
    c.movingSeconds haversineKm = some (c.reported (timeOf c.stamped (verdict haversineKm c.stamped))) := by
  obtain ⟨w, hw, hmoving⟩ := movingRun_spec haversineKm c.stamped
  unfold GpxCandidate.movingSeconds
  rw [htimes, if_neg Bool.false_ne_true]
  by_cases hfew : c.stamped.length < 2
  case pos => rw [if_pos hfew, timeOf_short hfew, c.reported_zero]
  case neg =>
    rw [if_neg hfew, hw, ← hmoving]
    rfl

theorem GpxCandidate.stamped_same (h : c.elapsedSeconds = none) :
    ∀ s ∈ c.stamped, ∀ s' ∈ c.stamped, s.2 = s'.2 := by
  have hmem : ∀ s ∈ c.stamped, s.2 ∈ c.times.filterMap id := by
    intro s hs
    obtain ⟨⟨p, t⟩, hzip, ht⟩ := List.mem_filterMap.mp hs
    obtain ⟨t, rfl, rfl⟩ := Option.map_eq_some_iff.mp ht
    exact List.mem_filterMap.mpr ⟨some t, (List.of_mem_zip hzip).2, rfl⟩
  suffices hsame : ∀ t ∈ c.times.filterMap id, ∀ t' ∈ c.times.filterMap id, t = t' from
    fun s hs s' hs' => hsame _ (hmem s hs) _ (hmem s' hs')
  intro t ht t' ht'
  have hspan : c.timeSpan = none := Option.map_eq_none_iff.mp h
  unfold GpxCandidate.timeSpan at hspan
  by_cases hfew : (c.times.filterMap id).length < 2
  case pos =>
    obtain ⟨only, honly⟩ := List.length_eq_one_iff.mp
      (show (c.times.filterMap id).length = 1 by have := List.length_pos_of_mem ht; omega)
    rw [honly, List.mem_singleton] at ht ht'
    rw [ht, ht']
  case neg =>
    obtain ⟨first, hfirst⟩ := Option.isSome_iff_exists.mp (List.isSome_min?_of_mem ht)
    obtain ⟨last, hlast⟩ := Option.isSome_iff_exists.mp (List.isSome_max?_of_mem ht)
    simp only [if_neg hfew, hfirst, hlast, Option.bind_eq_bind, Option.bind_some] at hspan
    have hle : last ≤ first := by
      by_contra hnot
      rw [if_pos (not_le.mp hnot)] at hspan
      cases hspan
    have hlow := (List.min?_eq_some_iff.mp hfirst).2
    have hhigh := (List.max?_eq_some_iff.mp hlast).2
    exact le_antisymm ((hhigh t ht).trans (hle.trans (hlow t' ht')))
      ((hhigh t' ht').trans (hle.trans (hlow t ht)))

theorem movingSeconds_same (haversineKm : P → P → ℚ) (htimes : c.times.all Option.isNone = false)
    (h : c.elapsedSeconds = none) :
    c.movingSeconds haversineKm = some 0 := by
  have hsame := GpxCandidate.stamped_same h
  have hordered : (c.stamped.map Prod.snd).Pairwise (· ≤ ·) := by
    rw [List.pairwise_map]
    exact List.Pairwise.imp_of_mem (fun hs hs' _ => (hsame _ hs _ hs').le) (List.pairwise_of_forall fun _ _ => trivial)
  have hnone : countedTime haversineKm c.stamped = 0 := by
    refine List.sum_eq_zero fun x hx => ?_
    obtain ⟨⟨a, b⟩, hab, rfl⟩ := List.mem_map.mp hx
    obtain ⟨ha, hb⟩ := List.of_mem_zip hab
    unfold countedStep
    rw [hsame b (List.mem_of_mem_tail hb) a ha, sub_self, ite_self]
  rw [movingSeconds_eq haversineKm htimes, timeOf_forward haversineKm (forward_of_ordered hordered), hnone,
    c.reported_zero]

theorem counts_insert (haversineKm : P → P → ℚ) (before after : List (P × ℚ)) {x : P × ℚ}
    (hout : within here.2 x.2 = false) :
    counts haversineKm (before ++ x :: after) here next = counts haversineKm (before ++ after) here next := by
  have hwindow : windowOf (before ++ x :: after) here.2 = windowOf (before ++ after) here.2 := by
    unfold windowOf
    rw [List.filter_append, List.filter_append, List.filter_cons_of_neg (by rw [hout]; exact Bool.false_ne_true)]
  unfold counts
  rw [hwindow]

/-- **The moving time**: that of the steps with a verdict for them. In every list a step of no time, back in time
    or over the limit has none, and one of the window's length or more has its own; where the ends can move on,
    a shorter one has that of its window, and a point outside of it does not matter to the step. The time is
    never above the elapsed one. -/
theorem movingSeconds_spec (haversineKm : P → P → ℚ) (c : GpxCandidate P)
    (htimes : c.times.all Option.isNone = false) :
    (c.movingSeconds haversineKm = some (c.reported (timeOf c.stamped (verdict haversineKm c.stamped))) ∧
        ∀ i here next, c.stamped[i]? = some here → c.stamped[i + 1]? = some next →
          Judges haversineKm c.stamped here next (verdict haversineKm c.stamped i (here, next))) ∧
      (Forward (c.stamped.map Prod.snd) →
        c.movingSeconds haversineKm = some (c.reported (countedTime haversineKm c.stamped))) ∧
      (∀ before x after here next, c.stamped = before ++ x :: after → within (here : P × ℚ).2 x.2 = false →
        counts haversineKm c.stamped here next = counts haversineKm (before ++ after) here next) ∧
      ∃ seconds, c.movingSeconds haversineKm = some seconds ∧
        (∀ elapsed, c.elapsedSeconds = some elapsed → seconds ≤ elapsed) ∧
        (c.elapsedSeconds = none → seconds = 0) := by
  have heq := movingSeconds_eq haversineKm htimes
  refine ⟨⟨heq, fun i here next hhere hnext => verdict_judges haversineKm hhere hnext⟩, fun hforward => ?_,
    fun before x after here next hsplit hout => ?_,
    _, heq, fun elapsed helapsed => GpxCandidate.reported_le helapsed _, fun hnone => ?_⟩
  · rw [heq, timeOf_forward haversineKm hforward]
  · rw [hsplit, counts_insert haversineKm before after hout]
  · exact Option.some.inj (heq.symm.trans (movingSeconds_same haversineKm htimes hnone))

end Moving

/-! ## 4. Two tracks -/

/-- Along a line, in kilometres. -/
def apart (a b : ℚ) : ℚ := |a - b|

/-- A hundred metres in a minute, after a rest. -/
def longStep : GpxCandidate ℚ where
  points := [0, 0, 1 / 10]
  times := [some 0, some 10, some 70]

/-- 14 m every 5 s, and a stamp of years later in between. -/
def strayStamp : GpxCandidate ℚ where
  points := [0, 14 / 1000, 28 / 1000, 35 / 1000, 42 / 1000, 56 / 1000, 70 / 1000, 84 / 1000, 98 / 1000, 112 / 1000]
  times := [some 0, some 5, some 10, some 1000000000, some 15, some 20, some 25, some 30, some 35, some 40]

/-- The long step counts, though nothing moves within its window; behind the stray stamp the ends soon stand
    still, and what moves is not counted any more. -/
theorem movingSeconds_stray :
    longStep.movingSeconds apart = some 60 ∧ windowOf longStep.stamped 10 = [(0, 0), (0, 10)] ∧
      strayStamp.movingSeconds apart = some 20 ∧
      strayStamp.reported (countedTime apart strayStamp.stamped) = 35 := by
  decide +kernel

/-- Of the track with the stray stamp, the step to it has no verdict for it; of the other, whose clock never goes
    back, the time is that of the steps that count. -/
theorem movingSeconds_spec_longStep :
    (∀ here next, strayStamp.stamped[2]? = some here → strayStamp.stamped[3]? = some next →
        verdict apart strayStamp.stamped 2 (here, next) = false) ∧
      longStep.movingSeconds apart = some (longStep.reported (countedTime apart longStep.stamped)) ∧
      ∃ seconds, longStep.movingSeconds apart = some seconds ∧
        ∀ elapsed, longStep.elapsedSeconds = some elapsed → seconds ≤ elapsed := by
  obtain ⟨⟨-, hjudges⟩, -⟩ := movingSeconds_spec apart strayStamp (by decide)
  obtain ⟨-, hforward, -, seconds, hseconds, hle, -⟩ := movingSeconds_spec apart longStep (by decide)
  refine ⟨fun here next hhere hnext => ?_, hforward (forward_of_ordered (by decide +kernel)), seconds, hseconds, hle⟩
  refine (hjudges 2 here next hhere hnext).never (.inr ?_)
  cases hhere
  cases hnext
  decide +kernel

end TraxJourney.Gpx
