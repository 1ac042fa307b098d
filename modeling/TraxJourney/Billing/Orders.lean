/-
  File:      Billing/Orders.lean
  Subject:   The order in which the events of one provider subscription are delivered: when
             `apply_update` leaves the same state whatever that order is.

  * **`orders_agree_iff`** -- every order of delivery leaves what the order of the events' times
    leaves, exactly when the newest event is `Settled`;
  * **`orders_agree_fails_checkout`** -- a checkout event that is newer than the event of the
    subscription it started, and comes before it.
-/
import TraxJourney.Billing.Subscriptions
import TraxJourney.Lib.Newest
import Mathlib.Data.List.MinMax
import Mathlib.Data.List.Sort

namespace TraxJourney.Billing

open Lib

/-! ## 1. The events of one subscription -/

/-- What is stored of a subscription, of the fields that decide what the account may do. -/
structure Stored where
  plan : Plan
  status : String
  currentPeriodEnd : ℚ
  contractStartedAt : ℚ
deriving DecidableEq

def Subscription.stored (row : Subscription) : Stored :=
  ⟨row.plan, row.status, row.currentPeriodEnd, row.contractStartedAt⟩

variable {row s : Subscription} {subscriptionId : String} {us c : List SubscriptionUpdate}
  {u m : SubscriptionUpdate}

/-- The updates are those of one subscription, each with an id and a time of its own; one that the
    row has as its last has the time that the row has. -/
structure OfSubscription (row : Subscription) (subscriptionId : String)
    (us : List SubscriptionUpdate) : Prop where
  named : subscriptionId ≠ ""
  one : ∀ u ∈ us, u.subscriptionId = subscriptionId
  ids : ∀ u ∈ us, u.eventId ≠ ""
  times : ∀ u ∈ us, 0 < u.eventAt
  apart : ∀ u ∈ us, ∀ v ∈ us, u.eventId = v.eventId ∨ u.eventAt = v.eventAt → u = v
  seen : ∀ u ∈ us, row.lastEventId = u.eventId → row.lastEventAt = u.eventAt

def opens (row : Subscription) (u : SubscriptionUpdate) : Bool := !stale row u

/-- An event that the row takes. -/
def app (row : Subscription) (u : SubscriptionUpdate) : Subscription := taking row u (firstPaid row u)

structure Last (subscriptionId : String) (row : Subscription) (m : SubscriptionUpdate) : Prop where
  id : row.lastEventId = m.eventId
  time : row.lastEventAt = m.eventAt
  subscription : row.providerSubscriptionId = subscriptionId

theorem last_app (h : OfSubscription row subscriptionId us) (hu : u ∈ us) :
    Last subscriptionId (app s u) u := by
  refine ⟨rfl, rfl, ?_⟩
  have hne : u.subscriptionId ≠ "" := by rw [h.one u hu]; exact h.named
  show (if u.subscriptionId ≠ "" then u.subscriptionId else s.providerSubscriptionId) = _
  rw [if_pos hne, h.one u hu]

theorem stale_last (h : OfSubscription row subscriptionId us) (hl : Last subscriptionId s m)
    (hm : m ∈ us) (hu : u ∈ us) : stale s u = decide (¬ m.eventAt < u.eventAt) := by
  have hsame : aboutAnotherSubscription s u = false := by
    unfold aboutAnotherSubscription
    rw [hl.subscription, h.one u hu]
    simp
  have hut : u.eventAt ≠ 0 := ne_of_gt (h.times u hu)
  have hmt : m.eventAt ≠ 0 := ne_of_gt (h.times m hm)
  unfold stale
  rw [hsame, hl.id, hl.time, Bool.false_and, Bool.or_false]
  by_cases hid : m.eventId = u.eventId
  · obtain rfl := h.apart m hm u hu (.inl hid)
    simp [h.ids m hm]
  · by_cases hlt : u.eventAt < m.eventAt
    · simp [hut, hmt, hlt, not_lt.mpr (le_of_lt hlt)]
    · have hmu : m.eventAt < u.eventAt := by
        refine lt_of_le_of_ne (not_lt.mp hlt) fun he => hid ?_
        rw [h.apart m hm u hu (.inr he)]
      simp [hid, hlt, hmu]

theorem foldl_takes (h : OfSubscription row subscriptionId us) {ds : List SubscriptionUpdate}
    (hds : ∀ u ∈ ds, u ∈ us) :
    ds.foldl takes row = (taken (·.eventAt) (opens row) ds).foldl app row := by
  refine foldl_taken (L := Last subscriptionId) (P := (· ∈ us)) ?_ ?_ ?_ ?_ hds
  · intro u _
    unfold takes opens
    cases stale row u <;> rfl
  · intro u hu _
    exact last_app h hu
  · intro s m u hm hu hl
    unfold takes
    rw [stale_last h hl hm hu]
    by_cases hlt : m.eventAt < u.eventAt
    · simp [hlt, app]
    · simp [hlt]
  · intro s m u _ hu _ _
    exact last_app h hu

/-! ## 2. What a chain leaves -/

/-- In-order delivery takes it: it is not older than every event that the row opens to. -/
def Reached (row : Subscription) (us : List SubscriptionUpdate) (u : SubscriptionUpdate) : Prop :=
  ∃ o ∈ us, stale row o = false ∧ o.eventAt ≤ u.eventAt

instance (row : Subscription) (us : List SubscriptionUpdate) (u : SubscriptionUpdate) :
    Decidable (Reached row us u) := inferInstanceAs (Decidable (∃ o ∈ us, _))

/-- What the newest event leaves of the contract's start. -/
def startLeft (row : Subscription) (m : SubscriptionUpdate) : ℚ :=
  if m.paidSince ≠ 0 then m.paidSince else row.contractStartedAt

/-- **The newest event says it all**: where any event is taken it is; it carries the period end, or
    no event that is taken in order has one that the row has not; and, unless the subscription was
    judged before, no paid event that is taken in order shows another start than it leaves. -/
def Settled (row : Subscription) (us : List SubscriptionUpdate) : Prop :=
  ∀ m ∈ us, (∀ u ∈ us, u.eventAt ≤ m.eventAt) → (∃ o ∈ us, stale row o = false) → stale row m = false ∧
    (m.currentPeriodEnd ≠ 0 ∨ ∀ u ∈ us, Reached row us u →
      u.currentPeriodEnd = 0 ∨ u.currentPeriodEnd = row.currentPeriodEnd) ∧
    (judged row m.subscriptionId = true ∨ ∀ u ∈ us, Reached row us u →
      u.paidSince ≠ 0 → u.paidSince = startLeft row m)

instance (row : Subscription) (us : List SubscriptionUpdate) : Decidable (Settled row us) :=
  inferInstanceAs (Decidable (∀ m ∈ us, _))

theorem judged_app (h : judged row subscriptionId = true) (hu : u.subscriptionId = subscriptionId) :
    judged (app row u) subscriptionId = true ∧ (app row u).contractStartedAt = row.contractStartedAt := by
  have hfirst : firstPaid row u = false := by
    unfold firstPaid
    rw [hu, h, Bool.not_true, Bool.and_false]
  unfold app
  rw [hfirst]
  refine ⟨?_, rfl⟩
  unfold judged taking at *
  by_cases hp : u.paidSince ≠ 0 ∧ u.subscriptionId ≠ ""
  · rw [hu] at hp
    simp only [hu, if_pos hp, beq_self_eq_true, Bool.or_true]
  · simpa [hp] using h

theorem foldl_judged (h : judged row subscriptionId = true)
    (hc : ∀ u ∈ c, u.subscriptionId = subscriptionId) :
    (c.foldl app row).contractStartedAt = row.contractStartedAt := by
  induction c generalizing row with
  | nil => rfl
  | cons u c ih =>
    obtain ⟨hj, hstart⟩ := judged_app h (hc u List.mem_cons_self)
    rw [List.foldl_cons, ih hj fun v hv => hc v (List.mem_cons_of_mem _ hv), hstart]

theorem app_unpaid (row : Subscription) (subscriptionId : String) (h : u.paidSince = 0) :
    (app row u).contractStartedAt = row.contractStartedAt ∧
      judged (app row u) subscriptionId = judged row subscriptionId := by
  have hfirst : firstPaid row u = false := by
    unfold firstPaid
    simp [h]
  unfold app
  rw [hfirst]
  refine ⟨rfl, ?_⟩
  unfold judged taking
  simp [h]

theorem app_paid (hj : judged row subscriptionId = false) (hu : u.subscriptionId = subscriptionId)
    (hne : subscriptionId ≠ "") (hp : u.paidSince ≠ 0) :
    (app row u).contractStartedAt = u.paidSince ∧ judged (app row u) subscriptionId = true := by
  have hfirst : firstPaid row u = true := by
    unfold firstPaid
    rw [hu, hj]
    simp [hp, hne]
  unfold app
  rw [hfirst]
  refine ⟨rfl, ?_⟩
  unfold judged taking
  simp [hu]

theorem foldl_start {v : ℚ} (hj : judged row subscriptionId = false) (hne : subscriptionId ≠ "")
    (hc : ∀ u ∈ c, u.subscriptionId = subscriptionId)
    (hv : ∀ u ∈ c, u.paidSince ≠ 0 → u.paidSince = v)
    (hnone : (∀ u ∈ c, u.paidSince = 0) → row.contractStartedAt = v) :
    (c.foldl app row).contractStartedAt = v := by
  induction c generalizing row with
  | nil => exact hnone fun u hu => nomatch hu
  | cons u c ih =>
    have hc' : ∀ w ∈ c, w.subscriptionId = subscriptionId := fun w hw => hc w (List.mem_cons_of_mem _ hw)
    rw [List.foldl_cons]
    by_cases hp : u.paidSince = 0
    · obtain ⟨hstart, hjudged⟩ := app_unpaid row subscriptionId hp
      refine ih (hjudged.trans hj) hc' (fun w hw => hv w (List.mem_cons_of_mem _ hw)) fun hall => ?_
      rw [hstart]
      refine hnone fun w hw => ?_
      rcases List.mem_cons.mp hw with rfl | hw
      · exact hp
      · exact hall w hw
    · obtain ⟨hstart, hjudged⟩ := app_paid hj (hc u List.mem_cons_self) hne hp
      rw [foldl_judged hjudged hc', hstart]
      exact hv u List.mem_cons_self hp

theorem foldl_period (h : ∀ u ∈ c, u.currentPeriodEnd = 0 ∨ u.currentPeriodEnd = row.currentPeriodEnd) :
    (c.foldl app row).currentPeriodEnd = row.currentPeriodEnd := by
  induction c generalizing row with
  | nil => rfl
  | cons u c ih =>
    have hu : (app row u).currentPeriodEnd = row.currentPeriodEnd := by
      show (if u.currentPeriodEnd ≠ 0 then u.currentPeriodEnd else row.currentPeriodEnd) = _
      rcases h u List.mem_cons_self with h0 | he
      · rw [if_neg (not_not.mpr h0)]
      · split
        · exact he
        · rfl
    rw [List.foldl_cons, ih, hu]
    intro v hv
    rw [hu]
    exact h v (List.mem_cons_of_mem _ hv)

/-! ## 3. Every order, or the order of the times -/

theorem chain_last (hm : m ∈ us) (hnewest : ∀ u ∈ us, u.eventAt ≤ m.eventAt)
    (h : OfSubscription row subscriptionId us) (hopen : stale row m = false)
    (hc : Chain (·.eventAt) (opens row) us c) : ∃ c', c = c' ++ [m] := by
  obtain ⟨n, hn, hle⟩ := hc.closed m hm (by simp [opens, hopen])
  have he : n = m := h.apart n (hc.mem n hn) m hm (.inr (le_antisymm (hnewest n (hc.mem n hn)) hle))
  subst he
  rcases List.eq_nil_or_concat c with rfl | ⟨c', last, rfl⟩
  · cases hn
  · have hlast : last = n := by
      by_contra hne
      rw [List.concat_eq_append] at hn hc
      have hin : n ∈ c' := by
        rcases List.mem_append.mp hn with hin | hin
        · exact hin
        · exact absurd (List.mem_singleton.mp hin).symm hne
      have hlt := (List.pairwise_append.mp hc.increasing).2.2 n hin last (List.mem_singleton_self _)
      exact absurd (hnewest last (hc.mem last (by simp))) (not_le.mpr hlt)
    exact ⟨c', by rw [List.concat_eq_append, hlast]⟩

theorem chain_reached (hc : Chain (·.eventAt) (opens row) us c) (hu : u ∈ c) : Reached row us u := by
  cases c with
  | nil => cases hu
  | cons o c =>
    refine ⟨o, hc.mem o List.mem_cons_self, by simpa [opens] using hc.opening o rfl, ?_⟩
    rcases List.mem_cons.mp hu with rfl | hu
    · exact le_rfl
    · exact le_of_lt ((List.pairwise_cons.mp hc.increasing).1 u hu)

/-- What the newest event leaves, when it is settled. -/
def settledState (row : Subscription) (m : SubscriptionUpdate) : Stored where
  plan := m.plan
  status := m.status
  currentPeriodEnd := if m.currentPeriodEnd ≠ 0 then m.currentPeriodEnd else row.currentPeriodEnd
  contractStartedAt := if judged row m.subscriptionId then row.contractStartedAt else startLeft row m

theorem settled_stored (h : OfSubscription row subscriptionId us) (hs : Settled row us) (hm : m ∈ us)
    (hnewest : ∀ u ∈ us, u.eventAt ≤ m.eventAt) (hopen : ∃ o ∈ us, stale row o = false)
    (hc : Chain (·.eventAt) (opens row) us c) :
    (c.foldl app row).stored = settledState row m := by
  obtain ⟨hfresh, hperiod, hstart⟩ := hs m hm hnewest hopen
  obtain ⟨c', rfl⟩ := chain_last hm hnewest h hfresh hc
  have hone : ∀ u ∈ c' ++ [m], u.subscriptionId = subscriptionId := fun u hu => h.one u (hc.mem u hu)
  have hcontract : ((c' ++ [m]).foldl app row).contractStartedAt =
      (settledState row m).contractStartedAt := by
    unfold settledState
    dsimp only
    rw [h.one m hm]
    cases hj : judged row subscriptionId with
    | true => exact foldl_judged hj hone
    | false =>
      have hstart' : ∀ u ∈ us, Reached row us u → u.paidSince ≠ 0 → u.paidSince = startLeft row m := by
        rcases hstart with hjm | hstart
        · rw [h.one m hm, hj] at hjm
          cases hjm
        · exact hstart
      refine foldl_start hj h.named hone
        (fun u hu hp => hstart' u (hc.mem u hu) (chain_reached hc hu) hp) fun hnone => ?_
      unfold startLeft
      rw [if_neg (not_not.mpr (hnone m (by simp)))]
      exact (if_neg Bool.false_ne_true).symm
  have hend : ((c' ++ [m]).foldl app row).currentPeriodEnd = (settledState row m).currentPeriodEnd := by
    show _ = if m.currentPeriodEnd ≠ 0 then m.currentPeriodEnd else row.currentPeriodEnd
    by_cases hp : m.currentPeriodEnd ≠ 0
    · rw [if_pos hp, List.foldl_append]
      exact if_pos hp
    · rw [if_neg hp]
      refine foldl_period fun u hu => ?_
      exact (hperiod.resolve_left hp) u (hc.mem u hu) (chain_reached hc hu)
  unfold Subscription.stored
  rw [hcontract, hend, List.foldl_append]
  rfl

theorem stale_newer {o : SubscriptionUpdate} (h : OfSubscription row subscriptionId us) (ho : o ∈ us)
    (hu : u ∈ us) (hopen : stale row o = false) (hle : o.eventAt ≤ u.eventAt) :
    stale row u = (aboutAnotherSubscription row u && !subscriptionIsLive u.status) := by
  have hot : o.eventAt ≠ 0 := ne_of_gt (h.times o ho)
  unfold stale at hopen ⊢
  rw [Bool.or_eq_false_iff, Bool.or_eq_false_iff] at hopen
  obtain ⟨⟨hid, htime⟩, -⟩ := hopen
  have hnotOlder : ¬ (row.lastEventAt ≠ 0 ∧ o.eventAt < row.lastEventAt) := by
    rintro ⟨h0, hlt⟩
    simp [hot, h0, hlt] at htime
  have hidu : (u.eventId != "" && row.lastEventId == u.eventId) = false := by
    by_contra hc
    have hc : row.lastEventId = u.eventId := by
      simp only [Bool.not_eq_false, Bool.and_eq_true, beq_iff_eq] at hc
      exact hc.2
    have hat := h.seen u hu hc
    have hlast : row.lastEventAt ≠ 0 := by rw [hat]; exact ne_of_gt (h.times u hu)
    rcases lt_or_eq_of_le hle with hlt | he
    · exact hnotOlder ⟨hlast, hat ▸ hlt⟩
    · obtain rfl := h.apart o ho u hu (.inr he)
      simp [hc, h.ids o ho] at hid
  have htimeu : (u.eventAt != 0 && row.lastEventAt != 0 && decide (u.eventAt < row.lastEventAt)) =
      false := by
    by_contra hc
    simp only [Bool.not_eq_false, Bool.and_eq_true, bne_iff_ne, decide_eq_true_eq] at hc
    exact hnotOlder ⟨hc.1.2, lt_of_le_of_lt hle hc.2⟩
  rw [hidu, htimeu, Bool.false_or, Bool.false_or]

theorem chain_concat (hm : m ∈ us) (hnewest : ∀ u ∈ us, u.eventAt ≤ m.eventAt)
    (hfresh : stale row m = false) (hmem : ∀ u ∈ c, u ∈ us ∧ u.eventAt < m.eventAt)
    (hinc : c.Pairwise fun u v => u.eventAt < v.eventAt)
    (hopen : ∀ u, c.head? = some u → stale row u = false) :
    Chain (·.eventAt) (opens row) us (c ++ [m]) where
  mem u hu := by
    rcases List.mem_append.mp hu with hu | hu
    · exact (hmem u hu).1
    · rw [List.mem_singleton.mp hu]
      exact hm
  increasing := by
    refine List.pairwise_append.mpr ⟨hinc, List.pairwise_singleton _ _, fun u hu v hv => ?_⟩
    rw [List.mem_singleton.mp hv]
    exact (hmem u hu).2
  opening u hu := by
    cases c with
    | nil =>
      cases hu
      simp [opens, hfresh]
    | cons o c =>
      have ho := hopen o rfl
      cases hu
      simp [opens, ho]
  closed u hu _ := ⟨m, by simp, hnewest u hu⟩

theorem settled_of_agree (h : OfSubscription row subscriptionId us)
    (hactive : ∀ u ∈ us, u.paidSince ≠ 0 → u.status = "active")
    (hagree : ∀ c c', Chain (·.eventAt) (opens row) us c → Chain (·.eventAt) (opens row) us c' →
      (c.foldl app row).stored = (c'.foldl app row).stored) : Settled row us := by
  intro m hm hnewest ⟨o, ho, hopen⟩
  have hbefore : ∀ u ∈ us, u ≠ m → u.eventAt < m.eventAt := fun u hu hne =>
    lt_of_le_of_ne (hnewest u hu) fun he => hne (h.apart u hu m hm (.inr he))
  have hfresh : stale row m = false := by
    by_contra hstale
    rw [Bool.not_eq_false] at hstale
    -- the newest of the events that the row opens to
    obtain ⟨n, hn⟩ : ∃ n, n ∈ (us.filter fun u => !stale row u).argmax (·.eventAt) := by
      cases hmax : (us.filter fun u => !stale row u).argmax (·.eventAt) with
      | none =>
        rw [List.argmax_eq_none, List.filter_eq_nil_iff] at hmax
        exact absurd (by simp [hopen]) (hmax o ho)
      | some n => exact ⟨n, rfl⟩
    obtain ⟨hnus, hnopen⟩ := List.mem_filter.mp (List.argmax_mem hn)
    rw [Bool.not_eq_true'] at hnopen
    have hmax : ∀ u ∈ us, stale row u = false → u.eventAt ≤ n.eventAt := fun u hu hs =>
      List.le_of_mem_argmax (List.mem_filter.mpr ⟨hu, by simp [hs]⟩) hn
    have hlt : n.eventAt < m.eventAt := by
      refine hbefore n hnus ?_
      rintro rfl
      rw [hnopen] at hstale
      cases hstale
    have hone : Chain (·.eventAt) (opens row) us [n] :=
      ⟨by simpa using hnus, List.pairwise_singleton _ _, fun u hu => by cases hu; simp [opens, hnopen],
        fun u hu hs => ⟨n, List.mem_singleton_self _, hmax u hu (by simpa [opens] using hs)⟩⟩
    have htwo : Chain (·.eventAt) (opens row) us [n, m] := by
      refine ⟨fun u hu => ?_, by simpa using hlt, fun u hu => by cases hu; simp [opens, hnopen],
        fun u hu _ => ⟨m, by simp, hnewest u hu⟩⟩
      simp only [List.mem_cons, List.not_mem_nil, or_false] at hu
      rcases hu with rfl | rfl
      · exact hnus
      · exact hm
    have hstatus : n.status = m.status := congrArg Stored.status (hagree _ _ hone htwo)
    have hm' := stale_newer h hnus hm hnopen (le_of_lt hlt)
    have hn' := stale_newer h hnus hnus hnopen le_rfl
    have hsub : aboutAnotherSubscription row n = aboutAnotherSubscription row m := by
      unfold aboutAnotherSubscription
      rw [h.one n hnus, h.one m hm]
    rw [hsub, hstatus, ← hm', hnopen, hstale] at hn'
    cases hn'
  have hlast := chain_concat (c := []) hm hnewest hfresh (by simp) .nil (by simp)
  refine ⟨hfresh, or_iff_not_imp_left.mpr fun hp u hu hreach => or_iff_not_imp_left.mpr fun hup => ?_,
    or_iff_not_imp_left.mpr fun hj u hu hreach hup => ?_⟩
  · -- no period end in the newest event: one in an older event stays when that comes before it
    rw [not_not] at hp
    have hlt : u.eventAt < m.eventAt := hbefore u hu (by rintro rfl; exact hup hp)
    obtain ⟨f, hf, hfopen, hfu⟩ := hreach
    have hleft : (([] ++ [m]).foldl app row).currentPeriodEnd = row.currentPeriodEnd :=
      if_neg (not_not.mpr hp)
    have hends : ∀ s : Subscription, ((app (app s u) m)).currentPeriodEnd = u.currentPeriodEnd := by
      intro s
      show (if m.currentPeriodEnd ≠ 0 then m.currentPeriodEnd else (app s u).currentPeriodEnd) = _
      rw [if_neg (not_not.mpr hp)]
      exact if_pos hup
    rw [← hleft]
    by_cases hus : stale row u = false
    · have hchain := chain_concat (c := [u]) hm hnewest hfresh (by simpa using ⟨hu, hlt⟩)
        (List.pairwise_singleton _ _) (by rintro v hv; cases hv; exact hus)
      exact (hends row).symm.trans (congrArg Stored.currentPeriodEnd (hagree _ _ hchain hlast))
    · have hfu' : f.eventAt < u.eventAt := by
        refine lt_of_le_of_ne hfu fun he => hus ?_
        rw [← h.apart f hf u hu (.inr he)]
        exact hfopen
      have hchain := chain_concat (c := [f, u]) hm hnewest hfresh
        (by simpa using ⟨⟨hf, lt_trans hfu' hlt⟩, hu, hlt⟩) (by simpa using hfu')
        (by rintro v hv; cases hv; exact hfopen)
      exact (hends _).symm.trans (congrArg Stored.currentPeriodEnd (hagree _ _ hchain hlast))
  · -- a paid event is live, so that it may come first: the contract then starts with it
    rw [Bool.not_eq_true, h.one m hm] at hj
    obtain ⟨f, hf, hfopen, hfu⟩ := hreach
    have hlive : stale row u = false := by
      rw [stale_newer h hf hu hfopen hfu, hactive u hu hup]
      exact Bool.and_false _
    have hleft : (([] ++ [m]).foldl app row).contractStartedAt = startLeft row m := by
      unfold startLeft
      by_cases hmp : m.paidSince = 0
      · rw [if_neg (not_not.mpr hmp)]
        exact (app_unpaid row subscriptionId hmp).1
      · rw [if_pos hmp]
        exact (app_paid hj (h.one m hm) h.named hmp).1
    by_cases hum : u = m
    · subst hum
      rw [startLeft, if_pos hup]
    · have hlt := hbefore u hu hum
      have hchain := chain_concat (c := [u]) hm hnewest hfresh (by simpa using ⟨hu, hlt⟩)
        (List.pairwise_singleton _ _) (by rintro v hv; cases hv; exact hlive)
      obtain ⟨hstart, hjudged⟩ := app_paid hj (h.one u hu) h.named hup
      have := congrArg Stored.contractStartedAt (hagree _ _ hchain hlast)
      rw [← hleft]
      refine Eq.trans ?_ this
      show u.paidSince = (app (app row u) m).contractStartedAt
      rw [(judged_app hjudged (h.one m hm)).2, hstart]

/-! ## 4. The database -/

variable {db : Db} {account : ℤ} {customer : String} {priceIdForPlan : Plan → String}

theorem ofSubscription_core (h : OfSubscription row subscriptionId us) :
    OfSubscription (core row) subscriptionId us :=
  ⟨h.named, h.one, h.ids, h.times, h.apart, h.seen⟩

theorem quiet_takes {v : SubscriptionUpdate} {others : Option Bool}
    (hu : u.subscriptionId = subscriptionId) (hv : v.subscriptionId = subscriptionId)
    (hne : subscriptionId ≠ "") (h : Quiet row v others) : Quiet (takes row u) v others := by
  unfold takes
  split
  · exact h
  · unfold Quiet at h ⊢
    cases others with
    | some b => exact h
    | none =>
      have hsub : (taking row u (firstPaid row u)).providerSubscriptionId = subscriptionId := by
        show (if u.subscriptionId ≠ "" then u.subscriptionId else row.providerSubscriptionId) = _
        rw [hu, if_pos hne]
      show tracksAnotherInForce (taking row u (firstPaid row u)) v = false
      unfold tracksAnotherInForce
      rw [hsub, hv]
      simp

variable {ds : List (SubscriptionUpdate × Option Bool)}

theorem applyAll_core (hb : Belongs db account customer us)
    (hone : ∀ u ∈ us, u.subscriptionId = subscriptionId) (hne : subscriptionId ≠ "")
    (hds : ∀ d ∈ ds, d.1 ∈ us) (hquiet : ∀ d ∈ ds, Quiet (db.subscription account) d.1 d.2) :
    core ((applyAll db ds).subscription account) =
      (ds.map Prod.fst).foldl takes (core (db.subscription account)) := by
  induction ds generalizing db with
  | nil => rfl
  | cons d ds ih =>
    have hd := hds d List.mem_cons_self
    obtain ⟨hrow, hb'⟩ := applyUpdate_belongs d.2 hb hd
    have hcore := applyTo_core (hquiet d List.mem_cons_self)
    have hquiet' : ∀ e ∈ ds, Quiet ((applyUpdate db d.1 d.2).1.subscription account) e.1 e.2 := by
      intro e he
      have hq : Quiet (takes (core (db.subscription account)) d.1) e.1 e.2 :=
        quiet_takes (hone _ hd) (hone _ (hds e (List.mem_cons_of_mem _ he))) hne
          (hquiet e (List.mem_cons_of_mem _ he))
      rw [← hcore, ← hrow] at hq
      exact hq
    have hrest := ih hb' (fun e he => hds e (List.mem_cons_of_mem _ he)) hquiet'
    rw [List.map_cons, List.foldl_cons, ← hcore, ← hrow]
    exact hrest

/-- The events in the order of their times, each once, while nothing else is in force. -/
def inOrder (us : List SubscriptionUpdate) : List (SubscriptionUpdate × Option Bool) :=
  (us.insertionSort fun u v => u.eventAt ≤ v.eventAt).map fun u => (u, some false)

/-- Every order of delivery, with any redeliveries, leaves the account with what the order of the
    events' times leaves. -/
def OrdersAgree (db : Db) (account : ℤ) (us : List SubscriptionUpdate) : Prop :=
  ∀ ds, Delivers us (ds.map Prod.fst) → (∀ d ∈ ds, Quiet (db.subscription account) d.1 d.2) →
    ((applyAll db ds).subscription account).stored = ((applyAll db (inOrder us)).subscription account).stored

theorem applyAll_stored (hb : Belongs db account customer us)
    (h : OfSubscription (db.subscription account) subscriptionId us) (hds : Delivers us (ds.map Prod.fst))
    (hquiet : ∀ d ∈ ds, Quiet (db.subscription account) d.1 d.2) :
    ((applyAll db ds).subscription account).stored =
      ((taken (·.eventAt) (opens (core (db.subscription account))) (ds.map Prod.fst)).foldl app
        (core (db.subscription account))).stored := by
  have hcore := applyAll_core hb h.one h.named (fun d hd => hds.1 d.1 (List.mem_map_of_mem hd)) hquiet
  rw [foldl_takes (ofSubscription_core h) hds.1] at hcore
  rw [← hcore]
  rfl

theorem inOrder_fst (us : List SubscriptionUpdate) :
    (inOrder us).map Prod.fst = us.insertionSort fun u v => u.eventAt ≤ v.eventAt := by
  unfold inOrder
  rw [List.map_map]
  exact List.map_id _

theorem inOrder_delivers (us : List SubscriptionUpdate) : Delivers us ((inOrder us).map Prod.fst) := by
  rw [inOrder_fst]
  exact ⟨fun u hu => (List.perm_insertionSort _ us).mem_iff.mp hu,
    fun u hu => (List.perm_insertionSort _ us).mem_iff.mpr hu⟩

theorem inOrder_quiet (d : SubscriptionUpdate × Option Bool) (hd : d ∈ inOrder us) : Quiet row d.1 d.2 := by
  obtain ⟨u, -, rfl⟩ := List.mem_map.mp hd
  exact rfl

/-- **Billing events commute exactly when the newest one is settled**: for the events of one subscription,
    no other being in force, every order of delivery and any redeliveries leave what their own order leaves,
    if and only if the newest of them says all there is to say. -/
theorem orders_agree_iff {events : List Event} (hb : Belongs db account customer
      (events.filterMap (subscriptionUpdateFromEvent priceIdForPlan)))
    (h : OfSubscription (db.subscription account) subscriptionId
      (events.filterMap (subscriptionUpdateFromEvent priceIdForPlan))) :
    OrdersAgree db account (events.filterMap (subscriptionUpdateFromEvent priceIdForPlan)) ↔
      Settled (db.subscription account) (events.filterMap (subscriptionUpdateFromEvent priceIdForPlan)) := by
  have hactive : ∀ u ∈ events.filterMap (subscriptionUpdateFromEvent priceIdForPlan),
      u.paidSince ≠ 0 → u.status = "active" := by
    intro u hu hp
    obtain ⟨event, -, he⟩ := List.mem_filterMap.mp hu
    exact SubscriptionUpdate.active_of_paid he hp
  generalize events.filterMap (subscriptionUpdateFromEvent priceIdForPlan) = us at *
  have hc := ofSubscription_core h
  constructor
  · intro hagree
    show Settled (core (db.subscription account)) us
    refine settled_of_agree hc hactive fun c c' hch hch' => ?_
    have hstate : ∀ c, Chain (·.eventAt) (opens (core (db.subscription account))) us c →
        (c.foldl app (core (db.subscription account))).stored =
          ((applyAll db (inOrder us)).subscription account).stored := by
      intro c hch
      obtain ⟨ds, hds, rfl⟩ := chain_taken hch
      have hfst : (ds.map fun u => (u, some false)).map Prod.fst = ds := by
        rw [List.map_map]
        exact List.map_id _
      have hquiet : ∀ d ∈ ds.map fun u => (u, some false),
          Quiet (db.subscription account) d.1 d.2 := by
        intro d hd
        obtain ⟨u, -, rfl⟩ := List.mem_map.mp hd
        exact rfl
      rw [← hagree _ (by rw [hfst]; exact hds) hquiet,
        applyAll_stored hb h (by rw [hfst]; exact hds) hquiet, hfst]
    rw [hstate c hch, hstate c' hch']
  · intro hs ds hds hquiet
    rw [applyAll_stored hb h hds hquiet, applyAll_stored hb h (inOrder_delivers us) inOrder_quiet]
    have hch : Chain (·.eventAt) (opens (core (db.subscription account))) us _ := taken_chain hds
    have hch' : Chain (·.eventAt) (opens (core (db.subscription account))) us _ :=
      taken_chain (inOrder_delivers us)
    by_cases hopen : ∃ o ∈ us, stale (core (db.subscription account)) o = false
    · obtain ⟨m, hm⟩ : ∃ m, m ∈ us.argmax (·.eventAt) := by
        cases hmax : us.argmax (·.eventAt) with
        | none =>
          obtain ⟨o, ho, -⟩ := hopen
          rw [List.argmax_eq_none.mp hmax] at ho
          cases ho
        | some m => exact ⟨m, rfl⟩
      have hmem := List.argmax_mem hm
      have hnewest : ∀ u ∈ us, u.eventAt ≤ m.eventAt := fun u hu => List.le_of_mem_argmax hu hm
      have hs' : Settled (core (db.subscription account)) us := hs
      rw [settled_stored hc hs' hmem hnewest hopen hch, settled_stored hc hs' hmem hnewest hopen hch']
    · have hnil : ∀ {c}, Chain (·.eventAt) (opens (core (db.subscription account))) us c → c = [] := by
        intro c hch
        cases c with
        | nil => rfl
        | cons u c =>
          refine absurd ⟨u, hch.mem u List.mem_cons_self, ?_⟩ hopen
          simpa [opens] using hch.opening u rfl
      rw [hnil hch, hnil hch']

/-! ## 5. A checkout event newer than its subscription's -/

/-- An account that has never checked out. -/
def newAccount : Db := ⟨[7], Table.empty⟩

/-- A subscription, paid for from the start. -/
def created : Event where
  id := "evt_1"
  type := .subscriptionCreated
  created := 1
  object :=
    { id := "sub_1"
      status := "active"
      customer := "cus_1"
      metadataUserInfoId := some 7
      items := [{ price := some { id := "price_1", metadataPlan := "tier_2" } }]
      currentPeriodEnd := 30
      startDate := 1 }

/-- The checkout that started it, completed a second later. -/
def checkedOut : Event where
  id := "evt_2"
  type := .checkoutSessionCompleted
  created := 2
  object :=
    { mode := "subscription"
      customer := "cus_1"
      subscription := "sub_1"
      metadataUserInfoId := some 7
      metadataPlan := "tier_2" }

def renewed : Event where
  id := "evt_3"
  type := .subscriptionUpdated
  created := 30
  object := { created.object with currentPeriodEnd := 60 }

def noPrices (_ : Plan) : String := ""

/-- The updates of a list of events, in a deployment without configured prices. -/
def updatesOf (events : List Event) : List SubscriptionUpdate :=
  events.filterMap (subscriptionUpdateFromEvent noPrices)

theorem belongs_newAccount : Belongs newAccount 7 "cus_1" (updatesOf [created, checkedOut, renewed]) :=
  ⟨by decide, by decide⟩

theorem ofSubscription_newAccount : OfSubscription (newAccount.subscription 7) "sub_1"
    (updatesOf [created, checkedOut, renewed]) :=
  ⟨by decide, by decide, by decide, by decide, by decide, by decide⟩

theorem orders_agree_iff_renewed :
    Settled (newAccount.subscription 7) (updatesOf [created, checkedOut, renewed]) ∧
      OrdersAgree newAccount 7 (updatesOf [created, checkedOut, renewed]) := by
  have hs : Settled (newAccount.subscription 7) (updatesOf [created, checkedOut, renewed]) := by decide
  exact ⟨hs, (orders_agree_iff belongs_newAccount ofSubscription_newAccount).mpr hs⟩

/-- Delivered first, the checkout makes the subscription's own event stale: its period end and the
    start of the contract are lost. -/
theorem orders_agree_fails_checkout : Belongs newAccount 7 "cus_1" (updatesOf [created, checkedOut]) ∧
    OfSubscription (newAccount.subscription 7) "sub_1" (updatesOf [created, checkedOut]) ∧
    ¬ OrdersAgree newAccount 7 (updatesOf [created, checkedOut]) := by
  refine ⟨⟨by decide, by decide⟩,
    ⟨by decide, by decide, by decide, by decide, by decide, by decide⟩, fun hagree => ?_⟩
  have hstored := hagree ((updatesOf [checkedOut, created]).map fun u => (u, some false))
    (by decide) (by decide)
  revert hstored
  decide

end TraxJourney.Billing
