/-
  File:      Access/MailLimit.lean
  Subject:   `KeyedRateLimiter` (`src/utils/rate_limit.py`), which limits the actions that send mail, called
             by any number of threads: each call reads the clock, and runs its locked part later.

  * **`mail_limit`** -- no interval of the window's length holds more granted calls than the limit, if no
    call judges by a window that was pruned past its own;
  * **`mail_limit_fails`** -- a call that read the clock before eleven others is granted after them.

  `reset` is for tests. Times are exact.
-/
import TraxJourney.Lib.Clients
import TraxJourney.Lib.SlidingWindow
import Mathlib.Algebra.Order.Field.Basic
import Mathlib.Tactic.Linarith

namespace TraxJourney.Access

open Lib

/-! ## 1. The limiter -/

/-- `KeyedRateLimiter`, with the clock; what was granted on a key and pruned since is remembered. -/
structure KeyedRateLimiter (κ K : Type*) where
  events : κ → TimeWindow K
  clock : K

inductive LimiterCall (κ : Type*) where
  | tryAcquire (key : κ)
  | remaining (key : κ)

/-- The clock goes on, a thread enters a call and reads it, or runs the locked part of its call. -/
inductive LimiterStep (κ K : Type*) where
  | advance (now : K)
  | read (call : LimiterCall κ)
  | locked

section Defs

variable {κ K : Type*} [DecidableEq κ] [Field K] [LinearOrder K]

/-- The locked part of `try_acquire`, for a reading. -/
def KeyedRateLimiter.tryAcquire (maxEvents : ℕ) (window : K) (s : KeyedRateLimiter κ K) (key : κ) (now : K) :
    Bool × KeyedRateLimiter κ K :=
  let events := (s.events key).prune (now - window)
  if maxEvents ≤ events.kept.length then (false, { s with events := Function.update s.events key events })
  else (true, { s with events := Function.update s.events key (events.push now) })

/-- The locked part of `remaining`. -/
def KeyedRateLimiter.remaining (maxEvents : ℕ) (window : K) (s : KeyedRateLimiter κ K) (key : κ) (now : K) :
    ℤ × KeyedRateLimiter κ K :=
  let events := (s.events key).prune (now - window)
  (maxEvents - events.kept.length, { s with events := Function.update s.events key events })

/-- A step of a thread, which is in no call or in one with its reading. -/
def mailTurn (maxEvents : ℕ) (window : K) :
    Option (LimiterCall κ × K) → LimiterStep κ K → KeyedRateLimiter κ K →
      Option (Option (LimiterCall κ × K) × KeyedRateLimiter κ K)
  | pending, .advance now, s => if s.clock ≤ now then some (pending, { s with clock := now }) else none
  | none, .read call, s => some (some (call, s.clock), s)
  | some (.tryAcquire key, now), .locked, s => some (none, (s.tryAcquire maxEvents window key now).2)
  | some (.remaining key, now), .locked, s => some (none, (s.remaining maxEvents window key now).2)
  | _, _, _ => none

/-- No call has been granted yet. -/
def noMail (clock : K) : KeyedRateLimiter κ K := ⟨fun _ => .empty, clock⟩

/-- A call that asks for an event has none of the key's pruned ones in its window, nor after it. -/
def JudgesItsWindow {ι : Type*} (window : K) (w : Clients ι (Option (LimiterCall κ × K)) (KeyedRateLimiter κ K))
    (l : ι × LimiterStep κ K) : Prop :=
  match w.locals l.1, l.2 with
  | some (.tryAcquire key, now), .locked => ∀ e ∈ (w.store.events key).pruned, e ≤ now - window
  | _, _ => True

instance {ι : Type*} (window : K) (w : Clients ι (Option (LimiterCall κ × K)) (KeyedRateLimiter κ K))
    (l : ι × LimiterStep κ K) : Decidable (JudgesItsWindow window w l) := by
  unfold JudgesItsWindow
  split <;> infer_instance

/-- The granted calls on a key whose readings lie in an interval of the window's length, open at its old end. -/
def KeyedRateLimiter.grantedIn (window : K) (s : KeyedRateLimiter κ K) (key : κ) (start : K) : ℕ :=
  (s.events key).pushed.countP fun t => decide (start < t ∧ t ≤ start + window)

end Defs

/-! ## 2. The limit -/

section Limit

variable {κ K : Type*} [DecidableEq κ] [Field K] [LinearOrder K] {maxEvents : ℕ} {window : K}
  {s : KeyedRateLimiter κ K}

/-- No interval holds more granted calls than the limit. -/
def WithinLimit (maxEvents : ℕ) (window : K) (s : KeyedRateLimiter κ K) : Prop :=
  ∀ key start, s.grantedIn window key start ≤ maxEvents

theorem WithinLimit.update (h : WithinLimit maxEvents window s) {key : κ} {events : TimeWindow K}
    (hevents : ∀ start, events.pushed.countP (fun t => decide (start < t ∧ t ≤ start + window)) ≤ maxEvents) :
    WithinLimit maxEvents window { s with events := Function.update s.events key events } := by
  intro other start
  by_cases hkey : other = key
  · subst hkey
    simp only [KeyedRateLimiter.grantedIn, Function.update_self]
    exact hevents start
  · simp only [KeyedRateLimiter.grantedIn, Function.update_of_ne hkey]
    exact h other start

theorem WithinLimit.prune (h : WithinLimit maxEvents window s) (key : κ) (cutoff : K) :
    WithinLimit maxEvents window { s with events := Function.update s.events key ((s.events key).prune cutoff) } :=
  h.update fun start => by
    rw [TimeWindow.pushed_prune]
    exact h key start

variable [IsStrictOrderedRing K]

theorem WithinLimit.tryAcquire (h : WithinLimit maxEvents window s) {key : κ} {now : K}
    (hjudges : ∀ e ∈ (s.events key).pruned, e ≤ now - window) :
    WithinLimit maxEvents window (s.tryAcquire maxEvents window key now).2 := by
  unfold KeyedRateLimiter.tryAcquire
  dsimp only
  split
  case isTrue => exact h.prune key (now - window)
  case isFalse hroom =>
    refine h.update fun start => TimeWindow.push_countP (Nat.lt_of_not_le hroom) ?_ fun hnow e he => ?_
    · rw [TimeWindow.pushed_prune]
      exact h key start
    · have hle : e ≤ now - window := (TimeWindow.of_mem_prune he).elim (hjudges e) le_of_lt
      have hend := (of_decide_eq_true hnow).2
      exact decide_eq_false fun hin => by linarith [hin.1]

theorem mailTurn_kept {ι : Type*} [DecidableEq ι] (maxEvents : ℕ) (window : K) :
    Kept (mailTurn (κ := κ) maxEvents window) (JudgesItsWindow (ι := ι) window) (WithinLimit maxEvents window)
      (fun _ _ => True) where
  own w i a l' s' hG _ hC hturn := by
    refine ⟨?_, trivial⟩
    unfold JudgesItsWindow at hC
    dsimp only at hC
    generalize w.locals i = pending at hC hturn
    match pending, a, hC, hturn with
    | _, .advance now, _, hturn =>
      obtain ⟨-, heq⟩ := Option.ite_none_right_eq_some.mp hturn
      obtain ⟨-, rfl⟩ := Prod.mk.inj (Option.some.inj heq)
      exact hG
    | none, .read call, _, hturn =>
      obtain ⟨-, rfl⟩ := Prod.mk.inj (Option.some.inj hturn)
      exact hG
    | some (.tryAcquire key, now), .locked, hC, hturn =>
      obtain ⟨-, rfl⟩ := Prod.mk.inj (Option.some.inj hturn)
      exact hG.tryAcquire hC
    | some (.remaining key, now), .locked, _, hturn =>
      obtain ⟨-, rfl⟩ := Prod.mk.inj (Option.some.inj hturn)
      exact hG.prune key (now - window)
  other _ _ _ _ _ _ _ _ _ _ _ := trivial

/-- **The limit holds while calls judge their own windows.** -/
theorem mail_limit {ι : Type*} [DecidableEq ι] {maxEvents : ℕ} {window clock : K} {tr : List (ι × LimiterStep κ K)}
    {w : Clients ι (Option (LimiterCall κ × K)) (KeyedRateLimiter κ K)}
    (h : Run (Meeting (Steps (Clients.step (mailTurn maxEvents window))) (JudgesItsWindow window))
      ⟨fun _ => none, noMail clock⟩ tr w) (key : κ) (start : K) :
    w.store.grantedIn window key start ≤ maxEvents :=
  ((mailTurn_kept maxEvents window).run (fun _ _ => Nat.zero_le _) (fun _ => trivial) h).1 key start

end Limit

/-! ## 3. A call that waits for the lock -/

/-- One call of a thread, its reading and its locked part. -/
def acquireAtOnce : List (Bool × LimiterStep String ℚ) :=
  [(false, .read (.tryAcquire "invite-send:7")), (false, .locked)]

/-- A thread reads the clock and waits while another acquires ten times; it is refused. After the hour the
    other one acquires again, and the ten are pruned. -/
def contended : List (Bool × LimiterStep String ℚ) :=
  [(true, .read (.tryAcquire "invite-send:7")), (true, .advance 5)] ++
    (List.replicate 10 acquireAtOnce).flatten ++ [(true, .locked), (false, .advance 4000)] ++ acquireAtOnce

theorem mail_limit_contended : ∃ w, Run (Meeting (Steps (Clients.step (mailTurn 10 3600))) (JudgesItsWindow 3600))
    ⟨fun _ => none, noMail 0⟩ contended w ∧
      ((w.store.events "invite-send:7").kept, (w.store.events "invite-send:7").pruned.length) =
        ([(4000 : ℚ)], 10) ∧ w.store.grantedIn (3600 : ℚ) "invite-send:7" (-1) ≤ 10 := by
  have hmeet : AllMeet (Clients.step (mailTurn 10 3600)) (JudgesItsWindow 3600) ⟨fun _ => none, noMail 0⟩
      contended := by decide +kernel
  have hend : (exec (Clients.step (mailTurn 10 3600)) ⟨fun _ => none, noMail 0⟩ contended).map
      (fun w => ((w.store.events "invite-send:7").kept, (w.store.events "invite-send:7").pruned.length)) =
        some ([(4000 : ℚ)], 10) := by decide +kernel
  obtain ⟨w, hw, hwindow⟩ := Option.map_eq_some_iff.mp hend
  have hrun := run_of_allMeet hw hmeet
  exact ⟨w, hrun, hwindow, mail_limit hrun "invite-send:7" (-1)⟩

/-- A thread reads the clock; another acquires ten times five seconds later, and once more after the hour;
    then the first one gets the lock. -/
def longWait : List (Bool × LimiterStep String ℚ) :=
  [(true, .read (.tryAcquire "invite-send:7")), (true, .advance 5)] ++
    (List.replicate 10 acquireAtOnce).flatten ++ [(false, .advance 4000)] ++ acquireAtOnce ++ [(true, .locked)]

/-- Eleven mails within five seconds. -/
theorem mail_limit_fails : ¬ ∀ tr (w : Clients Bool (Option (LimiterCall String × ℚ)) (KeyedRateLimiter String ℚ)),
    Run (Steps (Clients.step (mailTurn 10 3600))) ⟨fun _ => none, noMail 0⟩ tr w →
      ∀ key start, w.store.grantedIn (3600 : ℚ) key start ≤ 10 := by
  intro h
  have hrun : (exec (Clients.step (mailTurn 10 3600)) ⟨fun _ => none, noMail 0⟩ longWait).map
      (fun w => w.store.grantedIn (3600 : ℚ) "invite-send:7" (-1)) = some 11 := by decide +kernel
  obtain ⟨w, hw, hcount⟩ := Option.map_eq_some_iff.mp hrun
  have hle := h longWait w (run_iff_exec.mpr hw) "invite-send:7" (-1)
  omega

end TraxJourney.Access
