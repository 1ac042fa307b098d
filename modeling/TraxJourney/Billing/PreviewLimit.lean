/-
  File:      Billing/PreviewLimit.lean
  Subject:   The hourly limit of trip video previews and the forecast of its next slot:
             `_counting_preview`, `previews_in_last_hour` and `preview_slot_frees_at` of
             `src/billing/entitlements.py`.

  * **`slot_forecast`** -- the forecast is when the count falls below the limit, where previews complete in
    time; `slot_forecast_fails` -- not where one completes later.

  Times are exact.
-/
import Mathlib.Algebra.Order.Field.Basic
import Mathlib.Tactic.Linarith
import TraxJourney.Lib.StableSort

namespace TraxJourney.Billing.PreviewLimit

open Lib

/-! ## 1. The count and the forecast -/

inductive Kind where
  | video
  | preview
deriving DecidableEq

inductive Status where
  | pending
  | running
  | done
  | failed
  | expired
deriving DecidableEq

/-- `DBVideoJob`, as far as the limit reads it. -/
structure VideoJob (K : Type*) where
  userInfoId : ℕ
  kind : Kind
  status : Status
  createdAt : K
  startedAt : Option K
  completedAt : Option K

/-- `status.in_(("pending", "running"))`. -/
def VideoJob.InFlight {K : Type*} (r : VideoJob K) : Prop := r.status = .pending ∨ r.status = .running

instance {K : Type*} (r : VideoJob K) : Decidable r.InFlight := by
  unfold VideoJob.InFlight
  infer_instance

section Defs

variable {K : Type*} [Field K] [LinearOrder K]

/-- `PREVIEW_WINDOW_S`. -/
def previewWindow : K := ((3600 : ℕ) : K)

/-- `PREVIEW_IN_FLIGHT_S`. -/
def previewInFlight : K := ((900 : ℕ) : K)

/-- `_counting_preview`: nothing is at most a time that is not there. -/
def Counting (user : ℕ) (now : K) (r : VideoJob K) : Prop :=
  r.userInfoId = user ∧ r.kind = .preview ∧ now - previewWindow < r.createdAt ∧ (r.status = .done ∨
      (r.status = .failed ∧ r.startedAt.isSome ∧ ∃ t ∈ r.completedAt, t ≤ r.createdAt + previewInFlight) ∨
      r.InFlight ∧ now - previewInFlight < r.createdAt)

instance (user : ℕ) (now : K) (r : VideoJob K) : Decidable (Counting user now r) := by
  unfold Counting
  infer_instance

def previewsInLastHour (user : ℕ) (now : K) (rows : List (VideoJob K)) : ℕ :=
  rows.countP fun r => Counting user now r

/-- `leaves` of `preview_slot_frees_at`. -/
def leaves (user : ℕ) (now : K) (rows : List (VideoJob K)) : List K :=
  sortBy id ((rows.filter fun r => Counting user now r).map fun r => r.createdAt + previewWindow)

/-- `preview_slot_frees_at`; nothing at all is an index past the end. -/
def previewSlotFreesAt (user : ℕ) (now : K) (limit : ℤ) (rows : List (VideoJob K)) : Option (Option K) :=
  let excess : ℤ := (leaves user now rows).length - limit
  if excess < 0 then some none else ((leaves user now rows)[excess.toNat]?).map some

/-! ## 2. Rows that move on -/

/-- One move of a row, at a time. -/
inductive Move (u : K) (r : VideoJob K) : VideoJob K → Prop where
  | start (h : r.status = .pending) : Move u r { r with status := .running, startedAt := some u }
  | complete (h : r.status = .running) : Move u r { r with status := .done, completedAt := some u }
  | fail (h : r.InFlight) : Move u r { r with status := .failed, completedAt := some u }
  | expire (h : r.status = .done) : Move u r { r with status := .expired }

/-- What the row may be later on. -/
inductive Later (now : K) (r : VideoJob K) : K → VideoJob K → Prop where
  | now : Later now r now r
  | wait {t u : K} {r' : VideoJob K} (h : Later now r t r') (htu : t ≤ u) : Later now r u r'
  | move {t u : K} {r' r'' : VideoJob K} (h : Later now r t r') (htu : t ≤ u) (hu : now < u)
      (hmove : Move u r' r'') : Later now r u r''

end Defs

section Forecast

variable {K : Type*} [Field K] [LinearOrder K] {now t : K} {r r' : VideoJob K}

/-- What a later row tells of the row before. -/
structure Descends (now : K) (r r' : VideoJob K) : Prop where
  user : r'.userInfoId = r.userInfoId
  kind : r'.kind = r.kind
  created : r'.createdAt = r.createdAt
  inFlight : r'.InFlight → r.InFlight
  done : r'.status = .done → r.status = .done ∨ r.InFlight
  failed : r'.status = .failed → r' = r ∨ r.InFlight ∧ ∃ u, now < u ∧ r'.completedAt = some u

omit [Field K] in
theorem Later.descends (h : Later now r t r') : now ≤ t ∧ Descends now r r' := by
  induction h with
  | now => exact ⟨le_rfl, rfl, rfl, rfl, id, .inl, fun _ => .inl rfl⟩
  | wait _ htu ih => exact ⟨ih.1.trans htu, ih.2⟩
  | move _ htu hu hmove ih =>
    obtain ⟨hnow, h⟩ := ih
    refine ⟨hnow.trans htu, ?_⟩
    cases hmove with
    | start hpending => exact ⟨h.user, h.kind, h.created, fun _ => h.inFlight (.inl hpending), nofun, nofun⟩
    | complete hrunning =>
      exact ⟨h.user, h.kind, h.created, nofun, fun _ => .inr (h.inFlight (.inr hrunning)), nofun⟩
    | fail hflight =>
      exact ⟨h.user, h.kind, h.created, nofun, nofun, fun _ => .inr ⟨h.inFlight hflight, _, hu, rfl⟩⟩
    | expire hdone => exact ⟨h.user, h.kind, h.created, nofun, nofun, nofun⟩

omit [Field K] in
theorem Later.ended (h : Later now r t r') :
    (r.status = .failed → r' = r) ∧ (r.status = .done → r'.status = .done ∨ r'.status = .expired) := by
  induction h with
  | now => exact ⟨fun _ => rfl, .inl⟩
  | wait _ _ ih => exact ih
  | move _ _ _ hmove ih =>
    obtain ⟨hfailed, hdone⟩ := ih
    cases hmove with
    | start hpending =>
      refine ⟨fun h => ?_, fun h => ?_⟩
      · rw [hfailed h, h] at hpending
        cases hpending
      · rcases hdone h with hd | hd <;> rw [hd] at hpending <;> cases hpending
    | complete hrunning =>
      refine ⟨fun h => ?_, fun h => ?_⟩
      · rw [hfailed h, h] at hrunning
        cases hrunning
      · rcases hdone h with hd | hd <;> rw [hd] at hrunning <;> cases hrunning
    | fail hflight =>
      refine ⟨fun h => ?_, fun h => ?_⟩
      · rcases hflight with hf | hf <;> rw [hfailed h, h] at hf <;> cases hf
      · rcases hdone h with hd | hd <;> rcases hflight with hf | hf <;> rw [hd] at hf <;> cases hf
    | expire hdone' =>
      refine ⟨fun h => ?_, fun _ => .inr rfl⟩
      rw [hfailed h, h] at hdone'
      cases hdone'

/-- A preview that no longer counted in flight is not completed after all. -/
def NotLate (now : K) (r r' : VideoJob K) : Prop :=
  r.InFlight → r.createdAt ≤ now - previewInFlight → r'.status ≠ .done

/-- Every preview in flight is done a quarter of an hour after its creation, and none expires. -/
structure InTime (t : K) (r r' : VideoJob K) : Prop where
  failed : r.InFlight → r'.status ≠ .failed
  done : r.InFlight → r.createdAt + previewInFlight ≤ t → r'.status = .done
  expired : r'.status = .expired → r.status = .expired

variable [IsStrictOrderedRing K] {user : ℕ}

theorem Later.counting (h : Later now r t r') (hlate : NotLate now r r') (hcounts : Counting user t r') :
    Counting user now r ∧ t < r.createdAt + previewWindow := by
  obtain ⟨hnow, hd⟩ := h.descends
  obtain ⟨huser, hkind, hwindow, hstatus⟩ := hcounts
  rw [hd.created] at hwindow
  refine ⟨⟨hd.user ▸ huser, hd.kind ▸ hkind, by linarith, ?_⟩, by linarith⟩
  rcases hstatus with hdone | ⟨hfailed, hstarted, u, hu, hsoon⟩ | ⟨hflight, hyoung⟩
  · rcases hd.done hdone with hdone' | hflight
    · exact .inl hdone'
    · refine .inr (.inr ⟨hflight, ?_⟩)
      by_contra hold
      exact hlate hflight (not_lt.mp hold) hdone
  · rcases hd.failed hfailed with rfl | ⟨hflight, v, hv, hcompleted⟩
    · exact .inr (.inl ⟨hfailed, hstarted, u, hu, hsoon⟩)
    · obtain rfl : v = u := Option.some.inj (hcompleted.symm.trans hu)
      rw [hd.created] at hsoon
      exact .inr (.inr ⟨hflight, by linarith⟩)
  · rw [hd.created] at hyoung
    exact .inr (.inr ⟨hd.inFlight hflight, by linarith⟩)

theorem Later.counting_of (h : Later now r t r') (htime : InTime t r r') (hcounts : Counting user now r)
    (hyoung : t < r.createdAt + previewWindow) : Counting user t r' := by
  obtain ⟨hnow, hd⟩ := h.descends
  obtain ⟨huser, hkind, hwindow, hstatus⟩ := hcounts
  obtain ⟨hfailed, hdone⟩ := h.ended
  refine ⟨hd.user.trans huser, hd.kind.trans hkind, by rw [hd.created]; linarith, ?_⟩
  rcases hstatus with hdone' | ⟨hfailed', hstarted, u, hu, hsoon⟩ | ⟨hflight, hage⟩
  · rcases hdone hdone' with hdone | hexpired
    · exact .inl hdone
    · have hbefore := htime.expired hexpired
      rw [hdone'] at hbefore
      cases hbefore
  · rw [hfailed hfailed']
    exact .inr (.inl ⟨hfailed', hstarted, u, hu, hsoon⟩)
  · by_cases hold : r.createdAt + previewInFlight ≤ t
    · exact .inl (htime.done hflight hold)
    · cases hstatus' : r'.status with
      | pending => exact .inr (.inr ⟨.inl hstatus', by rw [hd.created]; linarith⟩)
      | running => exact .inr (.inr ⟨.inr hstatus', by rw [hd.created]; linarith⟩)
      | done => exact .inl rfl
      | failed => exact absurd hstatus' (htime.failed hflight)
      | expired =>
        have hbefore := htime.expired hstatus'
        rcases hflight with hf | hf <;> rw [hbefore] at hf <;> cases hf

/-! ## 3. The forecast -/

omit [IsStrictOrderedRing K] in
theorem countP_leaves (user : ℕ) (now t : K) (rows : List (VideoJob K)) :
    (leaves user now rows).countP (fun x => decide (t < x)) =
      rows.countP fun r => decide (Counting user now r ∧ t < r.createdAt + previewWindow) := by
  unfold leaves
  rw [(perm_sortBy id _).countP_eq, List.countP_map, List.countP_filter]
  refine List.countP_congr fun r _ => ?_
  simp [and_comm]

theorem countP_le_of_forall₂ {α : Type*} {p q : α → Bool} {rows rows' : List α}
    (h : List.Forall₂ (fun r r' => p r' = true → q r = true) rows rows') :
    rows'.countP p ≤ rows.countP q := by
  induction h with
  | nil => exact le_rfl
  | @cons r r' _ _ hr _ ih =>
    rw [List.countP_cons, List.countP_cons]
    by_cases hp : p r' = true
    · rw [if_pos hp, if_pos (hr hp)]
      omega
    · rw [if_neg hp]
      omega

/-- **From the forecast on the count is below the limit**, if no preview that had stopped counting is
    completed after all; and **before it is not**, if all that are in flight are done in time. -/
theorem slot_forecast (user : ℕ) (now t : K) (limit : ℤ) (rows : List (VideoJob K)) :
    (∀ rows', List.Forall₂ (fun r r' => Later now r t r' ∧ NotLate now r r') rows rows' →
      ∀ frees, previewSlotFreesAt user now limit rows = some frees → (∀ free ∈ frees, free ≤ t) →
        (previewsInLastHour user t rows' : ℤ) < limit) ∧
    (∀ rows', List.Forall₂ (fun r r' => Later now r t r' ∧ InTime t r r') rows rows' →
      ∀ free, previewSlotFreesAt user now limit rows = some (some free) → t < free →
        limit ≤ (previewsInLastHour user t rows' : ℤ)) := by
  have hsorted := pairwise_sortBy id ((rows.filter fun r => Counting user now r).map
    fun r => r.createdAt + previewWindow)
  have hsorted : (leaves user now rows).Pairwise (· ≤ ·) := hsorted
  have hlength := List.countP_le_length (p := fun x => decide (t < x)) (l := leaves user now rows)
  constructor
  · intro rows' hrows frees hfrees hlater
    have hcount : previewsInLastHour user t rows' ≤
        (leaves user now rows).countP fun x => decide (t < x) := by
      rw [countP_leaves]
      exact countP_le_of_forall₂ (hrows.imp fun r r' hr hp =>
        decide_eq_true (hr.1.counting hr.2 (of_decide_eq_true hp)))
    unfold previewSlotFreesAt at hfrees
    dsimp only at hfrees
    split at hfrees
    case isTrue hunder => omega
    case isFalse hover =>
      obtain ⟨free, hget, rfl⟩ := Option.map_eq_some_iff.mp hfrees
      have habove := countP_above_le hsorted hget (hlater free rfl)
      omega
  · intro rows' hrows free hfrees hbefore
    have hcount : (leaves user now rows).countP (fun x => decide (t < x)) ≤
        previewsInLastHour user t rows' := by
      rw [countP_leaves]
      refine countP_le_of_forall₂ (hrows.flip.imp fun r' r hr hp => decide_eq_true ?_)
      obtain ⟨hcounts, hyoung⟩ := of_decide_eq_true hp
      exact hr.1.counting_of hr.2 hcounts hyoung
    unfold previewSlotFreesAt at hfrees
    dsimp only at hfrees
    split at hfrees
    case isTrue => cases hfrees
    case isFalse hover =>
      obtain ⟨a, hget, heq⟩ := Option.map_eq_some_iff.mp hfrees
      obtain rfl : a = free := Option.some.inj heq
      have habove := le_countP_above hsorted hget hbefore
      omega

end Forecast

/-- Previews of one user: two that are done, one that waits, one that has run for too long to count, and one
    that runs. -/
def queue : List (VideoJob ℚ) :=
  [⟨1, .preview, .done, 0, some 10, some 60⟩, ⟨1, .preview, .done, 200, some 250, some 300⟩,
    ⟨1, .preview, .pending, 500, none, none⟩, ⟨1, .preview, .running, 0, some 50, none⟩,
    ⟨1, .preview, .running, 600, some 700, none⟩]

/-- The second one expires, the third is completed, and the others fail. -/
def mixed : List (VideoJob ℚ) :=
  [⟨1, .preview, .done, 0, some 10, some 60⟩, ⟨1, .preview, .expired, 200, some 250, some 300⟩,
    ⟨1, .preview, .done, 500, some 1100, some 1300⟩, ⟨1, .preview, .failed, 0, some 50, some 1200⟩,
    ⟨1, .preview, .failed, 600, some 700, some 1100⟩]

/-- All that are in flight are completed. -/
def completed : List (VideoJob ℚ) :=
  [⟨1, .preview, .done, 0, some 10, some 60⟩, ⟨1, .preview, .done, 200, some 250, some 300⟩,
    ⟨1, .preview, .done, 500, some 1100, some 1300⟩, ⟨1, .preview, .done, 0, some 50, some 1200⟩,
    ⟨1, .preview, .done, 600, some 700, some 1100⟩]

theorem slot_forecast_queue : previewSlotFreesAt 1 1000 3 queue = some (some 3800) ∧
    previewsInLastHour 1 3800 mixed < 3 ∧ 3 ≤ previewsInLastHour 1 2000 completed := by
  have hfrees : previewSlotFreesAt 1 1000 3 queue = some (some 3800) := by decide +kernel
  have hmoved : ∀ {u t : ℚ} {r r' : VideoJob ℚ}, 1000 < u ∧ u ≤ t → Move u r r' → Later 1000 r t r' :=
    fun hu hmove => .wait (.move .now hu.1.le hu.1 hmove) hu.2
  have hdone : ∀ t : ℚ, 1300 ≤ t → Later 1000 ⟨1, .preview, .pending, 500, none, none⟩ t
      ⟨1, .preview, .done, 500, some 1100, some 1300⟩ := fun t ht =>
    .wait (.move (hmoved (u := 1100) ⟨by norm_num, le_rfl⟩ (.start rfl)) (by norm_num) (by norm_num)
      (.complete rfl)) ht
  have hmixed : List.Forall₂ (fun r r' => Later 1000 r 3800 r' ∧ NotLate 1000 r r') queue mixed :=
    .cons ⟨.wait .now (by norm_num), fun hflight => absurd hflight (by decide)⟩
      (.cons ⟨hmoved (u := 1500) (by norm_num) (.expire rfl), fun _ _ => by decide⟩
        (.cons ⟨hdone _ (by norm_num), fun _ hold => absurd hold (by norm_num [previewInFlight])⟩
          (.cons ⟨hmoved (u := 1200) (by norm_num) (.fail (.inr rfl)), fun _ _ => by decide⟩
            (.cons ⟨hmoved (u := 1100) (by norm_num) (.fail (.inr rfl)), fun _ _ => by decide⟩ .nil))))
  have hcompleted : List.Forall₂ (fun r r' => Later 1000 r 2000 r' ∧ InTime 2000 r r') queue completed :=
    .cons ⟨.wait .now (by norm_num), by decide, by decide, by decide⟩
      (.cons ⟨.wait .now (by norm_num), by decide, by decide, by decide⟩
        (.cons ⟨hdone _ (by norm_num), by decide, fun _ _ => rfl, by decide⟩
          (.cons ⟨hmoved (u := 1200) (by norm_num) (.complete rfl), by decide, fun _ _ => rfl, by decide⟩
            (.cons ⟨hmoved (u := 1100) (by norm_num) (.complete rfl), by decide, fun _ _ => rfl, by decide⟩
              .nil))))
  refine ⟨hfrees, ?_, ?_⟩
  · have hbelow := (slot_forecast 1 1000 3800 3 queue).1 mixed hmixed _ hfrees fun free hfree => by
      rw [← Option.some.inj hfree]
    exact_mod_cast hbelow
  · have habove := (slot_forecast 1 1000 2000 3 queue).2 completed hcompleted 3800 hfrees (by norm_num)
    exact_mod_cast habove

/-- A preview that has waited for a quarter of an hour, and is completed after that. -/
def late : VideoJob ℚ := ⟨1, .preview, .running, 0, some 60, none⟩

/-- **Ten such previews**: none counts, there is no wait, and ten seconds later there are ten that count. -/
theorem slot_forecast_fails : List.Forall₂ (fun r r' => Later 1000 r 1010 r') (List.replicate 10 late)
        (List.replicate 10 { late with status := .done, completedAt := some 1010 }) ∧
      previewSlotFreesAt 1 1000 10 (List.replicate 10 late) = some none ∧
      previewsInLastHour 1 1010
        (List.replicate 10 { late with status := .done, completedAt := some 1010 }) = 10 := by
  refine ⟨?_, by decide +kernel, by decide +kernel⟩
  have hlater : Later 1000 late 1010 { late with status := .done, completedAt := some 1010 } :=
    .move .now (by norm_num) (by norm_num) (.complete rfl)
  simp [List.replicate, hlater]

end TraxJourney.Billing.PreviewLimit
