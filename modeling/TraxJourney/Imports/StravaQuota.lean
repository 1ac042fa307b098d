/-
  File:      Imports/StravaQuota.lean
  Subject:   `RateLimiter` (`src/api/strava_client.py`), the quota of requests to Strava that all threads of
             the process share: passes under the lock, a second reading of the clock after a full one, and
             sleeps.

  * **`quota_honoured_iff`** -- a call raises only where the oldest slot frees too late, exactly in the runs
    whose checks come soon enough after their passes;
  * **`quota_fails`** -- a check that comes a second late gives up a slot that frees in time.

  `reset` is for tests. Times are exact, and a sleep lasts as long as asked.
-/
import TraxJourney.Lib.Clients
import TraxJourney.Lib.SlidingWindow
import Mathlib.Algebra.Order.Field.Basic
import Mathlib.Tactic.Linarith

namespace TraxJourney.Imports

open Lib

/-! ## 1. The limiter -/

/-- A `RateLimitError`: the deadline of the call, and on its last pass the slots in use and the oldest. -/
structure QuotaError (K : Type*) where
  deadline : K
  used : ℕ
  oldest : K

/-- `RateLimiter`, with the clock and the errors raised so far. -/
structure RateLimiter (K : Type*) where
  timestamps : TimeWindow K
  clock : K
  raised : List (QuotaError K)

/-- Where a thread is: in no call, before a pass, after one that found the window full, or asleep. -/
inductive AcquireState (K : Type*) where
  | idle
  | before (deadline : K)
  | full (deadline now oldest : K) (used : ℕ)
  | asleep (deadline wake : K)

inductive QuotaStep (K : Type*) where
  | advance (now : K)
  | acquire (maxWait : Option K)
  | pass
  | check
  | wake
  | currentUsage

section Defs

variable {K : Type*} [Field K] [LinearOrder K]

def maxWaitSeconds : K := ((60 : ℕ) : K)

def pollSeconds : K := 1 / ((2 : ℕ) : K)

/-- The part of `acquire` under the lock; an empty window that is full is an `IndexError`. -/
def RateLimiter.pass (maxRequests : ℕ) (window : K) (s : RateLimiter K) (deadline : K) :
    AcquireState K × RateLimiter K :=
  let timestamps := s.timestamps.prune (s.clock - window)
  if timestamps.kept.length < maxRequests then (.idle, { s with timestamps := timestamps.push s.clock })
  else match timestamps.kept.head? with
    | some oldest => (.full deadline s.clock oldest timestamps.kept.length, { s with timestamps := timestamps })
    | none => (.idle, { s with timestamps := timestamps })

/-- The part of `acquire` after a full pass. -/
def RateLimiter.check (window : K) (s : RateLimiter K) (deadline now oldest : K) (used : ℕ) :
    AcquireState K × RateLimiter K :=
  let waitFor := oldest + window - now
  if deadline < s.clock + waitFor then (.idle, { s with raised := s.raised ++ [⟨deadline, used, oldest⟩] })
  else (.asleep deadline (s.clock + min waitFor pollSeconds), s)

/-- A step of a thread. -/
def quotaTurn (maxRequests : ℕ) (window : K) :
    AcquireState K → QuotaStep K → RateLimiter K → Option (AcquireState K × RateLimiter K)
  | l, .advance now, s => if s.clock ≤ now then some (l, { s with clock := now }) else none
  | .idle, .acquire maxWait, s => some (.before (s.clock + maxWait.getD maxWaitSeconds), s)
  | .before deadline, .pass, s => some (s.pass maxRequests window deadline)
  | .full deadline now oldest used, .check, s => some (s.check window deadline now oldest used)
  | .asleep deadline wake, .wake, s => if wake ≤ s.clock then some (.before deadline, s) else none
  | .idle, .currentUsage, s => some (.idle, { s with timestamps := s.timestamps.prune (s.clock - window) })
  | _, _, _ => none

/-- Granted slots in a closed interval of the window's length. -/
def RateLimiter.grantedIn (window : K) (s : RateLimiter K) (start : K) : ℕ :=
  s.timestamps.pushed.countP fun t => decide (start ≤ t ∧ t ≤ start + window)

/-- What is promised of the limiter: the quota of every interval; a sleep ends by its call's deadline, and past
    it the next check raises; an error is raised only where the window was full on the last pass and its oldest
    slot frees after the deadline. -/
structure QuotaHonoured {ι : Type*} (maxRequests : ℕ) (window : K) (w : Clients ι (AcquireState K) (RateLimiter K)) :
    Prop where
  quota : ∀ start, w.store.grantedIn window start ≤ maxRequests
  asleep : ∀ i deadline wake, w.locals i = .asleep deadline wake → wake ≤ deadline
  late : ∀ i deadline now oldest used, w.locals i = .full deadline now oldest used → deadline < w.store.clock →
    (w.store.check window deadline now oldest used).1 = .idle
  raised : ∀ e ∈ w.store.raised, maxRequests ≤ e.used ∧ e.deadline < e.oldest + window

/-- Where the oldest slot frees by the deadline, the check comes no later after the pass than that leaves. -/
def ChecksInTime {ι : Type*} (window : K) (w : Clients ι (AcquireState K) (RateLimiter K)) (l : ι × QuotaStep K) : Prop :=
  match w.locals l.1, l.2 with
  | .full deadline now oldest _, .check =>
    oldest + window ≤ deadline → w.store.clock - now ≤ deadline - (oldest + window)
  | _, _ => True

end Defs

/-! ## 2. Passes in any order -/

section Passes

variable {K : Type*} [Field K] [LinearOrder K] {maxRequests : ℕ} {window : K} {s : RateLimiter K}

/-- The quota of every interval, and what is pruned lies before the window. -/
structure RateLimiter.Sound (maxRequests : ℕ) (window : K) (s : RateLimiter K) : Prop where
  quota : ∀ start, s.grantedIn window start ≤ maxRequests
  pruned : ∀ e ∈ s.timestamps.pruned, e < s.clock - window

/-- A pass found the window full; a sleep ends in time. -/
def AcquireState.Sound (maxRequests : ℕ) (window : K) : AcquireState K → RateLimiter K → Prop
  | .full _ now oldest used, s => now ≤ s.clock ∧ now - window ≤ oldest ∧ maxRequests ≤ used
  | .asleep deadline wake, _ => wake ≤ deadline
  | _, _ => True

theorem RateLimiter.Sound.prune (h : s.Sound maxRequests window) :
    RateLimiter.Sound maxRequests window { s with timestamps := s.timestamps.prune (s.clock - window) } where
  quota start := by
    rw [RateLimiter.grantedIn, TimeWindow.pushed_prune]
    exact h.quota start
  pruned e he := (TimeWindow.of_mem_prune he).elim (h.pruned e) id

theorem AcquireState.Sound.mono {l : AcquireState K} {s' : RateLimiter K} (h : l.Sound maxRequests window s)
    (hclock : s.clock ≤ s'.clock) : l.Sound maxRequests window s' := by
  cases l with
  | full deadline now oldest used => exact ⟨h.1.trans hclock, h.2⟩
  | asleep deadline wake => exact h
  | _ => trivial

variable [IsStrictOrderedRing K]

theorem RateLimiter.Sound.pass (h : s.Sound maxRequests window) (deadline : K) :
    (s.pass maxRequests window deadline).2.Sound maxRequests window ∧
      (s.pass maxRequests window deadline).1.Sound maxRequests window (s.pass maxRequests window deadline).2 := by
  have hpruned := h.prune
  unfold RateLimiter.pass
  dsimp only
  split
  case isTrue hroom =>
    refine ⟨⟨fun start => TimeWindow.push_countP hroom (hpruned.quota start) fun hnow e he => ?_, hpruned.pruned⟩, trivial⟩
    have hlt := hpruned.pruned e he
    have hend := (of_decide_eq_true hnow).2
    exact decide_eq_false fun hin => by
      dsimp only at hlt
      linarith [hin.1]
  case isFalse hfull =>
    split
    case h_1 oldest holdest =>
      exact ⟨hpruned, le_rfl, TimeWindow.cutoff_le_of_head holdest, Nat.le_of_not_lt hfull⟩
    case h_2 => exact ⟨hpruned, trivial⟩

theorem RateLimiter.check_sound (h : s.Sound maxRequests window) (deadline now oldest : K) (used : ℕ) :
    (s.check window deadline now oldest used).2.Sound maxRequests window ∧
      (s.check window deadline now oldest used).1.Sound maxRequests window (s.check window deadline now oldest used).2 := by
  unfold RateLimiter.check
  dsimp only
  split
  case isTrue => exact ⟨⟨h.quota, h.pruned⟩, trivial⟩
  case isFalse hlate =>
    refine ⟨h, ?_⟩
    show s.clock + min (oldest + window - now) pollSeconds ≤ deadline
    have hmin := min_le_left (oldest + window - now) (pollSeconds (K := K))
    linarith [not_lt.mp hlate]

theorem quotaTurn_sound {l l' : AcquireState K} {a : QuotaStep K} {s' : RateLimiter K} (h : s.Sound maxRequests window)
    (hl : l.Sound maxRequests window s) (hturn : quotaTurn maxRequests window l a s = some (l', s')) :
    s'.Sound maxRequests window ∧ l'.Sound maxRequests window s' ∧ s.clock ≤ s'.clock := by
  match l, a, hl, hturn with
  | l, .advance now, hl, hturn =>
    obtain ⟨hle, heq⟩ := Option.ite_none_right_eq_some.mp hturn
    obtain ⟨rfl, rfl⟩ := Prod.mk.inj (Option.some.inj heq)
    exact ⟨⟨h.quota, fun e he => (h.pruned e he).trans_le (sub_le_sub_right hle window)⟩, hl.mono hle, hle⟩
  | .idle, .acquire maxWait, _, hturn =>
    obtain ⟨rfl, rfl⟩ := Prod.mk.inj (Option.some.inj hturn)
    exact ⟨h, trivial, le_rfl⟩
  | .before deadline, .pass, _, hturn =>
    have hpass := h.pass deadline
    have hclock : (s.pass maxRequests window deadline).2.clock = s.clock := by
      unfold RateLimiter.pass
      dsimp only
      split
      · rfl
      · split <;> rfl
    rw [Option.some.inj hturn] at hpass hclock
    exact ⟨hpass.1, hpass.2, hclock.ge⟩
  | .full deadline now oldest used, .check, _, hturn =>
    have hcheck := RateLimiter.check_sound h deadline now oldest used
    have hclock : (s.check window deadline now oldest used).2.clock = s.clock := by
      unfold RateLimiter.check
      dsimp only
      split <;> rfl
    rw [Option.some.inj hturn] at hcheck hclock
    exact ⟨hcheck.1, hcheck.2, hclock.ge⟩
  | .asleep deadline wake, .wake, _, hturn =>
    obtain ⟨-, heq⟩ := Option.ite_none_right_eq_some.mp hturn
    obtain ⟨rfl, rfl⟩ := Prod.mk.inj (Option.some.inj heq)
    exact ⟨h, trivial, le_rfl⟩
  | .idle, .currentUsage, _, hturn =>
    obtain ⟨rfl, rfl⟩ := Prod.mk.inj (Option.some.inj hturn)
    exact ⟨h.prune, trivial, le_rfl⟩

variable {ι : Type*} {w w' : Clients ι (AcquireState K) (RateLimiter K)}

theorem quotaTurn_kept (maxRequests : ℕ) (window : K) :
    Kept (quotaTurn maxRequests window) (fun (_ : Clients ι (AcquireState K) (RateLimiter K)) _ => True)
      (RateLimiter.Sound maxRequests window) (AcquireState.Sound maxRequests window) where
  own _ i _ _ _ hG hI _ hturn :=
    have hsound := quotaTurn_sound hG (hI i) hturn
    ⟨hsound.1, hsound.2.1⟩
  other _ i _ _ _ j _ hG hI _ hturn := (hI j).mono (quotaTurn_sound hG (hI i) hturn).2.2

/-! ## 3. Errors -/

/-- An error tells of a full window whose oldest slot frees too late. -/
def QuotaError.Due (maxRequests : ℕ) (window : K) (e : QuotaError K) : Prop :=
  maxRequests ≤ e.used ∧ e.deadline < e.oldest + window

theorem quotaHonoured_iff (hG : w.store.Sound maxRequests window)
    (hI : ∀ i, (w.locals i).Sound maxRequests window w.store) :
    QuotaHonoured maxRequests window w ↔ ∀ e ∈ w.store.raised, e.Due maxRequests window := by
  refine ⟨fun h => h.raised, fun h => ⟨hG.quota, fun i deadline wake hi => ?_, fun i deadline now oldest used hi hlate => ?_, h⟩⟩
  · have hsleep := hI i
    rw [hi] at hsleep
    exact hsleep
  · have hfull := hI i
    rw [hi] at hfull
    unfold RateLimiter.check
    rw [if_pos (by linarith [hfull.2.1])]

variable [DecidableEq ι]

theorem raised_iff {l : ι × QuotaStep K} (hI : (w.locals l.1).Sound maxRequests window w.store)
    (hraised : ∀ e ∈ w.store.raised, e.Due maxRequests window)
    (h : Clients.step (quotaTurn maxRequests window) w l = some w') :
    (∀ e ∈ w'.store.raised, e.Due maxRequests window) ↔ ChecksInTime window w l := by
  obtain ⟨i, a⟩ := l
  obtain ⟨l', s', hturn, rfl⟩ := Clients.step_cases h
  unfold ChecksInTime
  dsimp only at hI ⊢
  generalize w.locals i = l at hI hturn
  generalize w.store = s at hI hraised hturn
  match l, a, hI, hturn with
  | l, .advance now, _, hturn =>
    obtain ⟨-, heq⟩ := Option.ite_none_right_eq_some.mp hturn
    obtain ⟨-, rfl⟩ := Prod.mk.inj (Option.some.inj heq)
    exact iff_of_true hraised (by cases l <;> trivial)
  | .idle, .acquire maxWait, _, hturn =>
    obtain ⟨-, rfl⟩ := Prod.mk.inj (Option.some.inj hturn)
    exact iff_of_true hraised trivial
  | .before deadline, .pass, _, hturn =>
    have hsame : (s.pass maxRequests window deadline).2.raised = s.raised := by
      unfold RateLimiter.pass
      dsimp only
      split
      · rfl
      · split <;> rfl
    rw [Option.some.inj hturn] at hsame
    exact iff_of_true (hsame ▸ hraised) trivial
  | .full deadline now oldest used, .check, hI, hturn =>
    have heq := Option.some.inj hturn
    unfold RateLimiter.check at heq
    dsimp only at heq ⊢
    by_cases hlate : deadline < s.clock + (oldest + window - now)
    case pos =>
      rw [if_pos hlate] at heq
      obtain ⟨-, rfl⟩ := Prod.mk.inj heq
      rw [List.forall_mem_append, List.forall_mem_singleton]
      constructor
      · rintro ⟨-, -, hdue⟩ hfrees
        exact absurd hdue (not_lt.mpr hfrees)
      · intro htime
        refine ⟨hraised, hI.2.2, lt_of_not_ge fun hfrees => ?_⟩
        linarith [htime hfrees]
    case neg =>
      rw [if_neg hlate] at heq
      obtain ⟨-, rfl⟩ := Prod.mk.inj heq
      exact iff_of_true hraised fun _ => by linarith [not_lt.mp hlate]
  | .asleep deadline wake, .wake, _, hturn =>
    obtain ⟨-, heq⟩ := Option.ite_none_right_eq_some.mp hturn
    obtain ⟨-, rfl⟩ := Prod.mk.inj (Option.some.inj heq)
    exact iff_of_true hraised trivial
  | .idle, .currentUsage, _, hturn =>
    obtain ⟨-, rfl⟩ := Prod.mk.inj (Option.some.inj hturn)
    exact iff_of_true hraised trivial

/-- **The quota, and when errors are due.** -/
theorem quota_honoured_iff (maxRequests : ℕ) (window clock : K) (tr : List (ι × QuotaStep K)) :
    Always (Clients.step (quotaTurn maxRequests window)) (QuotaHonoured maxRequests window)
        ⟨fun _ => .idle, ⟨.empty, clock, []⟩⟩ tr ↔
      AllMeet (Clients.step (quotaTurn maxRequests window)) (ChecksInTime window)
        ⟨fun _ => .idle, ⟨.empty, clock, []⟩⟩ tr := by
  have hkept := quotaTurn_kept (ι := ι) maxRequests window
  have hkeeps : ∀ w l w', (w.store.Sound maxRequests window ∧ ∀ i, (w.locals i).Sound maxRequests window w.store) →
      Clients.step (quotaTurn maxRequests window) w l = some w' →
      w'.store.Sound maxRequests window ∧ ∀ i, (w'.locals i).Sound maxRequests window w'.store :=
    fun _ _ _ hw h => hkept.step hw.1 hw.2 trivial h
  have hstart : RateLimiter.Sound maxRequests window ⟨.empty, clock, []⟩ :=
    ⟨fun _ => Nat.zero_le _, fun _ he => absurd he List.not_mem_nil⟩
  have hidle : ∀ i : ι, AcquireState.Sound maxRequests window ((fun _ => .idle : ι → AcquireState K) i)
      ⟨.empty, clock, []⟩ := fun _ => trivial
  refine always_iff_allMeet hkeeps (fun w l w' hw hP h => ?_) ⟨hstart, hidle⟩
    ((quotaHonoured_iff hstart hidle).mpr fun _ he => absurd he List.not_mem_nil)
  obtain ⟨hG, hI⟩ := hkeeps w l w' hw h
  exact (quotaHonoured_iff hG hI).trans (raised_iff (hw.2 l.1) hP.raised h)

end Passes

/-! ## 4. A check that comes late -/

/-- The hundred slots are taken; a call that may wait for fifty seconds finds the window full at 850, and its
    check reads the clock at 851. -/
def lateCheck : List (Bool × QuotaStep ℚ) :=
  (List.replicate 100 [(false, .acquire none), (false, .pass)]).flatten ++
    [(true, .advance 850), (true, .acquire (some 50)), (true, .pass), (true, .advance 851), (true, .check)]

theorem quota_honoured_iff_late :
    Always (Clients.step (quotaTurn 100 900)) (QuotaHonoured 100 900) ⟨fun _ => .idle, ⟨.empty, 0, []⟩⟩ lateCheck ↔
      AllMeet (Clients.step (quotaTurn 100 900)) (ChecksInTime 900) ⟨fun _ => .idle, ⟨.empty, 0, []⟩⟩ lateCheck :=
  quota_honoured_iff 100 900 0 lateCheck

/-- The oldest slot frees at 900, the deadline is 900, and the call raises. -/
theorem quota_fails : ¬ ∀ (tr : List (Bool × QuotaStep ℚ)) w,
    Run (Steps (Clients.step (quotaTurn 100 900))) ⟨fun _ => .idle, ⟨.empty, 0, []⟩⟩ tr w →
      QuotaHonoured 100 900 w := by
  intro h
  have hrun : (exec (Clients.step (quotaTurn 100 900)) ⟨fun _ => .idle, ⟨.empty, 0, []⟩⟩ lateCheck).map
      (fun w => w.store.raised.map fun e => (e.deadline, e.oldest)) = some [(900, 0)] := by decide +kernel
  obtain ⟨w, hw, hraised⟩ := Option.map_eq_some_iff.mp hrun
  obtain ⟨e, he, heq⟩ : ∃ e ∈ w.store.raised, (e.deadline, e.oldest) = (900, 0) := by
    rw [← List.mem_map, hraised]
    exact List.mem_singleton_self _
  have hdue := ((h lateCheck w (run_iff_exec.mpr hw)).raised e he).2
  obtain ⟨hdeadline, holdest⟩ := Prod.mk.inj heq
  rw [hdeadline, holdest, zero_add] at hdue
  exact lt_irrefl _ hdue

end TraxJourney.Imports
