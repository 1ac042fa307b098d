/-
  File:      Billing/Fencing.lean
  Subject:   What each operation of the refund runs does to the store, and to what its own run and
             the others know: the fence around a claimed row.

  * **`sound`** -- the store's invariant and what each run knows of its row are kept, by whichever runs the
    operations are performed.
-/
import TraxJourney.Billing.Claims
import TraxJourney.Billing.Withdrawal

namespace TraxJourney.Billing.Withdrawal

open Lib

/-! ## 1. What a run may do -/

structure Writes (c : Claim) (r : SubscriptionRefund) : Prop where
  sound : r.Sound
  later : Later c.row r
  token : r.claimToken = c.row.claimToken ∨ r.claimToken = none
  attempt : r.attempt = c.row.attempt ∨ c.conflict = true ∧ r.attempt = c.row.attempt + 1

/-- A row as it is when it was just claimed. -/
structure TakenFor (i : String) (token : ℕ) (r : SubscriptionRefund) : Prop where
  sound : r.Sound
  pending : r.state = .pending
  token : r.claimToken = some token
  subscription : r.subscriptionId = i

def allows (k : Option Claim) : Op → Prop
  | .save i token fields =>
    ∃ c, k = some c ∧ c.token = token ∧ c.row.subscriptionId = i ∧ Writes c (stamped fields c.row)
  | .forget i token => ∃ c, k = some c ∧ c.token = token ∧ c.row.subscriptionId = i
  | .discardPendingItems _ i | .refundBasis i _ | .findCreditNote i _ _ =>
    ∃ c, k = some c ∧ c.row.subscriptionId = i
  | .refundPlan i amount key _ =>
    ∃ c, k = some c ∧ c.row.subscriptionId = i ∧ key = refundKey i ∧ amount = c.row.amount ∧ 0 ≤ amount
  | .createCreditNote i amount key invoiceId =>
    ∃ c, k = some c ∧ c.row.subscriptionId = i ∧ key = ⟨refundKey i, c.row.attempt⟩ ∧
      invoiceId = c.row.invoiceId ∧ amount = c.row.toRefund ∧ 0 < amount ∧ 0 ≤ c.row.amount
  | .recordFailure refundId _ _ => refundId ≠ ""
  | _ => True

def admits (k : Option Claim) : (o : Op) → Ans o → Prop
  | .claim _ i _ _ _, .ok (.taken row token) => TakenFor i token row
  | .save _ _ fields, .ok row => ∀ c, k = some c → row = stamped fields c.row
  | .refundPlan _ amount _ _, .ok plan => plan.Fits amount
  | .findCreditNote _ _ _, .error e => e ≠ .idempotencyConflict
  | _, _ => True

/-- A claim taken is known; a row saved is the copy; a conflict is noted. What is written under no
    claim ends the one that was held. -/
def learn (k : Option Claim) : (o : Op) → Ans o → Option Claim
  | .claim _ _ _ _ _, .ok (.taken row token) => some ⟨token, row, false⟩
  | .claim _ _ _ _ _, _ | .recordFailure _ _ _, _ => none
  | .save _ _ _, .ok row => k.map fun c => { c with row := row, conflict := false }
  | .createCreditNote _ _ _ _, .error .idempotencyConflict => k.map fun c => { c with conflict := true }
  | _, _ => k

/-- How a proof follows a run. -/
def rules : Rules Op Ans (Option Claim) := ⟨allows, admits, learn⟩

/-- What a run knows is so. -/
def Knows (k : Option Claim) (s : Store) : Prop := ∀ c, k = some c → c.Known s

/-- Two runs hold different claims. -/
def Apart (k k' : Option Claim) : Prop := ∀ c c', k = some c → k' = some c' → c.token ≠ c'.token

/-- The row of `i` is no longer under the token. -/
def Replaced (i : String) (t : ℕ) (s : Store) : Prop := ∀ r, s.row i = some r → r.claimToken ≠ some t

/-- What is shown of an operation: invariant and knowledge are kept, what is fixed stays, rows under other
    claims are spared, a token is new or was on its row, and a run whose claim was replaced leaves the
    ledger alone. -/
structure Effect (k : Option Claim) (o : Op) (a : Ans o) (s s' : Store) : Prop where
  ok : s'.Ok
  admits : admits k o a
  knows : Knows (learn k o a) s'
  evolves : Evolves s s'
  spares : ∀ t, (∀ c, k = some c → c.token ≠ t) → t < s.tokens → Spares t s s'
  fresh : ∀ c, learn k o a = some c → (∃ c0, k = some c0 ∧ c0.token = c.token) ∨ c.token = s.tokens
  old : ∀ i t, t < s.tokens → Replaced i t s → Replaced i t s'
  fenced : ∀ c c', k = some c → learn k o a = some c' → c'.token = c.token →
    Replaced c.row.subscriptionId c.token s → s'.ledger = s.ledger

variable {k : Option Claim} {o : Op} {a : Ans o} {s s' : Store}

theorem Effect.quiet (h : s.Ok) (hk : Knows k s) (ha : Withdrawal.admits k o a)
    (hl : learn k o a = k) : Effect k o a s s where
  ok := h
  admits := ha
  knows := hl.symm ▸ hk
  evolves := .refl s
  spares _ _ _ _ _ hr _ := hr
  fresh c hc := .inl ⟨c, hl ▸ hc, rfl⟩
  old _ _ _ hr := hr
  fenced _ _ _ _ _ _ := rfl

theorem Effect.provider (hk : Knows k s) (ha : Withdrawal.admits k o a) (hl : learn k o a = k)
    (hok : s'.Ok) (he : Evolves s s') (hledger : s'.ledger = s.ledger) : Effect k o a s s' where
  ok := hok
  admits := ha
  knows c hc := by
    refine (hk c (hl ▸ hc)).mono he fun i r hr _ => ?_
    unfold Store.row at hr ⊢
    rwa [← hledger]
  evolves := he
  spares t _ _ i r hr _ := by
    unfold Store.row at hr ⊢
    rwa [← hledger]
  fresh c hc := .inl ⟨c, hl ▸ hc, rfl⟩
  old i t _ hr := by
    unfold Replaced Store.row at hr ⊢
    rwa [hledger]
  fenced _ _ _ _ _ _ := hledger

theorem Effect.unclaimed (ha : Withdrawal.admits k o a) (hl : learn k o a = none) (hok : s'.Ok)
    (he : Evolves s s') (hs : ∀ t, Spares t s s') : Effect k o a s s' where
  ok := hok
  admits := ha
  knows c hc := by
    rw [hl] at hc
    cases hc
  evolves := he
  spares t _ _ := hs t
  fresh c hc := by
    rw [hl] at hc
    cases hc
  old i t _ hr r hr' ht := hr r (hs t i r hr' ht) ht
  fenced _ c' _ hc' := by
    rw [hl] at hc'
    cases hc'

/-! ## 2. Claims -/

variable {i : String} {row : SubscriptionRefund} {now : ℚ}

theorem taking_later (row : SubscriptionRefund) (token : ℕ) (now : ℚ) : Later row (taking row token now) :=
  ⟨rfl, fun _ => ⟨rfl, rfl⟩, fun _ => rfl, Nat.le_refl _, id⟩

theorem taking_sound {token : ℕ} (h : row.Sound) (hp : row.state = .pending) :
    (taking row token now).Sound where
  refunded := h.refunded
  owed := h.owed
  sum := h.sum
  split := h.split
  unsent := h.unsent
  pending := h.pending
  attempt := h.attempt
  final hf := by
    have hfinal : row.state.final = true := hf
    rw [hp] at hfinal
    cases hfinal

variable {customerId : String} {contractStart requestedAt : ℚ}

theorem Effect.take {create : Bool} (h : s.Ok) (hk : Knows k s) (hrow : row.Sound) (hp : row.state = .pending)
    (hi : row.subscriptionId = i) (hold : s.row i = some row ∨ s.row i = none ∧ row.attempt = 0) :
    Effect k (.claim customerId i contractStart requestedAt create)
      (.ok (s.take row now).1) s (s.take row now).2 := by
  have hover : Overwrites s (taking row s.tokens now) := by
    intro old ho
    have ho : s.row row.subscriptionId = some old := ho
    rw [hi] at ho
    rcases hold with hr | ⟨hr, -⟩
    · rw [hr] at ho
      cases ho
      exact taking_later _ _ _
    · rw [hr] at ho
      cases ho
  have hb : ∀ a < (taking row s.tokens now).attempt, ∃ q,
      s.requests.get ⟨refundKey (taking row s.tokens now).subscriptionId, a⟩ = some q ∧
        ¬ q.Carries (taking row s.tokens now) := by
    rcases hold with hr | ⟨-, h0⟩
    · exact h.bumped_later (hi.symm ▸ hr) (taking_later _ _ _) rfl
    · intro a ha
      have ha : a < row.attempt := ha
      omega
  have hget : (s.take row now).2.row i = some (taking row s.tokens now) := by
    refine Store.write_row.trans ?_
    rw [if_pos]
    exact hi.symm
  refine ⟨?_, ?_, ?_, ?_, ?_, ?_, ?_, ?_⟩
  · refine h.write (Nat.le_succ _) (taking_sound hrow hp) (fun t ht => ?_) hover hb
    cases ht
    exact Nat.lt_succ_self _
  · exact ⟨taking_sound hrow hp, hp, rfl, hi⟩
  · intro c hc
    cases hc
    refine ⟨Nat.lt_succ_self _, fun r hr _ => ?_, fun _ => ?_, fun hc => by cases hc⟩
    · have hr : (s.take row now).2.row row.subscriptionId = some r := hr
      rw [hi, hget] at hr
      exact (Option.some.inj hr).symm
    · refine ⟨taking row s.tokens now, ?_, .refl _⟩
      show (s.take row now).2.row row.subscriptionId = _
      rw [hi]
      exact hget
  · exact Evolves.write (Nat.le_succ _) hover
  · intro t _ ht
    refine Spares.write fun hc => ?_
    cases hc
    exact Nat.lt_irrefl _ ht
  · intro c hc
    cases hc
    exact .inr rfl
  · intro j t ht hr r hr' htoken
    refine hr r ?_ htoken
    refine Spares.write (fun hc => ?_) j r hr' htoken
    cases hc
    exact Nat.lt_irrefl _ ht
  · intro c c' hc hc' htoken _
    have hissued := (hk c hc).issued
    cases hc'
    exact absurd htoken (Nat.ne_of_gt hissued)

theorem created_sound : SubscriptionRefund.Sound
      { subscriptionId := i, customerId, contractStartedAt := contractStart, requestedAt,
        cancelAttemptedAt := requestedAt } where
  refunded := le_rfl
  owed := le_rfl
  sum := by simp
  split h := by simp at h
  unsent _ := ⟨rfl, rfl⟩
  pending _ h := by simp at h
  attempt h := absurd h (Nat.lt_irrefl 0)
  final _ := rfl

theorem Effect.claim {create accountExists : Bool} (h : s.Ok) (hk : Knows k s) :
    Effect k (.claim customerId i contractStart requestedAt create)
      (s.claim customerId i contractStart requestedAt create now accountExists).1 s
      (s.claim customerId i contractStart requestedAt create now accountExists).2 := by
  have hnone : ∀ a, Withdrawal.admits k (.claim customerId i contractStart requestedAt create) a →
      learn k (.claim customerId i contractStart requestedAt create) a = none →
      Effect k (.claim customerId i contractStart requestedAt create) a s s :=
    fun _ ha hl => .unclaimed ha hl h (.refl s) fun _ _ _ hr _ => hr
  unfold Store.claim
  cases hrow : s.row i with
  | none =>
    dsimp only
    split
    · exact hnone _ trivial rfl
    · split
      · exact hnone _ trivial rfl
      · exact .take h hk created_sound rfl rfl (.inr ⟨hrow, rfl⟩)
  | some row =>
    dsimp only
    split
    · exact hnone _ trivial rfl
    · rename_i hfinal
      split
      · exact hnone _ trivial rfl
      · have hp : row.state = .pending := by
          cases hs : row.state with
          | pending => rfl
          | done | owed | settled => exact absurd (by rw [hs]; rfl) hfinal
        exact .take h hk (h.rows i row hrow) hp (Store.row_key hrow) (.inl hrow)

/-! ## 3. Writes under a claim -/

variable {token : ℕ} {fields : SubscriptionRefund → SubscriptionRefund}

theorem Effect.save (h : s.Ok) (hk : Knows k s) (ha : allows k (.save i token fields)) :
    Effect k (.save i token fields) (s.save i token fields).1 s (s.save i token fields).2 := by
  obtain ⟨c, rfl, rfl, rfl, hw⟩ := ha
  have hknown := hk c rfl
  unfold Store.save
  cases hrow : s.row c.row.subscriptionId with
  | none => exact .quiet h hk trivial rfl
  | some row =>
    dsimp only
    split
    · rename_i htoken
      obtain rfl : row = c.row := hknown.held row hrow htoken
      have hsub := hw.later.subscription
      have hover : Overwrites s (stamped fields c.row) := by
        intro old hold
        rw [hsub, hrow] at hold
        cases hold
        exact hw.later
      refine ⟨?_, ?_, ?_, ?_, ?_, ?_, ?_, ?_⟩
      · refine h.write (Nat.le_refl _) hw.sound (fun t ht => ?_) hover ?_
        · rcases hw.token with he | he
          · exact h.tokens _ _ t hrow (he ▸ ht)
          · rw [he] at ht
            cases ht
        · rcases hw.attempt with he | ⟨hconf, he⟩
          · exact h.bumped_later (hsub.symm ▸ hrow) hw.later he
          · obtain ⟨hpos, q, hq, hno⟩ := hknown.conflict hconf
            have hsound := h.rows _ _ hrow
            rw [he, hsub]
            intro a hlt
            -- the attempt left behind now, or one left behind before
            rcases Nat.lt_succ_iff_lt_or_eq.mp hlt with hlt | rfl
            · obtain ⟨p, hp, hno'⟩ := h.bumped _ _ a hrow hlt
              exact ⟨p, hp, fun hcar => hno' ((hw.later.carries hsound hpos).mp hcar)⟩
            · exact ⟨q, hq, fun hcar => hno ((hw.later.carries hsound hpos).mp hcar)⟩
      · intro c' hc'
        cases hc'
        rfl
      · intro c' hc'
        cases hc'
        have hget : (s.write (stamped fields c.row) s.tokens).row
            (stamped fields c.row).subscriptionId = some (stamped fields c.row) :=
          Store.write_row.trans (if_pos rfl)
        refine ⟨hknown.issued, fun r hr _ => ?_, fun _ => ⟨_, hget, .refl _⟩, fun hf => by cases hf⟩
        exact Option.some.inj (hr.symm.trans hget)
      · exact Evolves.write (Nat.le_refl _) hover
      · intro t hne _
        refine Spares.write fun hct => ?_
        rcases hw.token with he | he
        · rw [he, htoken] at hct
          exact hne c rfl (Option.some.inj hct)
        · rw [he] at hct
          cases hct
      · intro c' hc'
        cases hc'
        exact .inl ⟨c, rfl, rfl⟩
      · intro j t _ hr r hr' ht
        replace hr' : (s.write (stamped fields c.row) s.tokens).row j = some r := hr'
        rw [Store.write_row] at hr'
        split at hr'
        · rename_i hj
          cases hr'
          rcases hw.token with he | he
          · exact hr c.row (by rw [hj, hsub]; exact hrow) (he ▸ ht)
          · rw [he] at ht
            cases ht
        · exact hr r hr' ht
      · intro c' _ hc' _ _ hr
        cases hc'
        exact absurd htoken (hr c.row hrow)
    · exact .quiet h hk trivial rfl

theorem Effect.forget (h : s.Ok) (hk : Knows k s) (ha : allows k (.forget i token)) :
    Effect k (.forget i token) () s (s.forget i token) := by
  unfold Store.forget
  cases hrow : s.row i with
  | none => exact .quiet h hk trivial rfl
  | some row =>
    dsimp only
    split
    · rename_i hheld
      have hfree : ∀ r, s.row i = some r → ¬ Fixed r := by
        intro r hr hfix
        rw [hrow] at hr
        cases hr
        rcases hfix with ha | hf
        · omega
        · rw [(h.rows i row hrow).final hf] at hheld
          cases hheld.1
      refine ⟨h.drop hfree, trivial, fun c hc => ?_, Evolves.drop hfree, ?_, ?_, ?_, ?_⟩
      · exact (hk c hc).mono (Evolves.drop hfree) fun _ _ hr _ => Store.drop_some hr
      · exact fun _ _ _ _ _ hr _ => Store.drop_some hr
      · exact fun c hc => .inl ⟨c, hc, rfl⟩
      · exact fun _ _ _ hr r hr' => hr r (Store.drop_some hr')
      · intro c c' hc _ _ hr
        obtain ⟨c0, hc0, rfl, rfl⟩ := ha
        rw [hc] at hc0
        cases hc0
        exact absurd hheld.1 (hr row hrow)
    · exact .quiet h hk trivial rfl

/-! ## 4. Writes under no claim -/

theorem Effect.write {r : SubscriptionRefund} (h : s.Ok)
    (ha : Withdrawal.admits k o a) (hl : learn k o a = none) (hrow : s.row i = some row)
    (hr : r.Sound) (hlater : Later row r) (hattempt : r.attempt = row.attempt)
    (htoken : r.claimToken = none) : Effect k o a s (s.write r s.tokens) := by
  have hi : s.row r.subscriptionId = some row := by
    rw [hlater.subscription, Store.row_key hrow]
    exact hrow
  have hover : Overwrites s r := by
    intro old hold
    rw [hi] at hold
    cases hold
    exact hlater
  refine .unclaimed ha hl ?_ (Evolves.write (Nat.le_refl _) hover) fun t => Spares.write ?_
  · refine h.write (Nat.le_refl _) hr (fun t ht => ?_) hover (h.bumped_later hi hlater hattempt)
    rw [htoken] at ht
    cases ht
  · rw [htoken]
    exact fun hc => by cases hc

theorem failing_sound (refundId : String) (amount : ℤ) (reason : String) (h : row.Sound)
    (hnew : row.refundId ≠ "") : (failing row refundId amount reason).Sound where
  refunded := by
    unfold failing
    dsimp only
    omega
  owed := by
    have h0 := h.refunded
    have h1 := h.owed
    unfold failing
    dsimp only
    generalize (if amount = 0 then row.refunded else amount) = failed
    split <;> omega
  sum := by
    have h1 := h.owed
    have h2 := h.sum
    unfold failing
    dsimp only
    generalize (if amount = 0 then row.refunded else amount) = failed
    split <;> omega
  split := h.split
  unsent hp := by cases hp
  pending hp := by cases hp
  attempt := h.attempt
  final _ := by
    refine h.final ?_
    cases hs : row.state with
    | pending => exact absurd (h.unsent hs).2 hnew
    | done | owed | settled => rfl

theorem Effect.recordFailure {refundId reason : String} {amount : ℤ} (h : s.Ok)
    (ha : allows k (.recordFailure refundId amount reason)) :
    Effect k (.recordFailure refundId amount reason) (s.recordFailure refundId amount reason).1 s
      (s.recordFailure refundId amount reason).2 := by
  unfold Store.recordFailure
  cases hfirst : s.ledger.first fun r => r.refundId == refundId with
  | none => exact .unclaimed trivial rfl h (.refl s) fun _ _ _ hr _ => hr
  | some row =>
    obtain ⟨hmem, hid⟩ := Table.first_some hfirst
    have hrow : s.row row.subscriptionId = some row := Table.get_eq_some.mpr ⟨hmem, rfl⟩
    have hnew : row.refundId ≠ "" := by
      rw [eq_of_beq hid]
      exact ha
    have hnext := failing_sound refundId amount reason (h.rows _ row hrow) hnew
    exact .write h trivial rfl hrow hnext
      ⟨rfl, fun _ => ⟨rfl, rfl⟩, fun _ => rfl, Nat.le_refl _, fun _ => rfl⟩ rfl (hnext.final rfl)

/-! ## 5. The provider -/

theorem Effect.voidNote {key : IdempotencyKey} (h : s.Ok) (hk : Knows k s) :
    Effect k (.voidNote key) () s (s.voidNote key) := by
  unfold Store.voidNote
  cases hq : s.requests.get key with
  | none => exact .quiet h hk trivial rfl
  | some q =>
    dsimp only
    cases hres : q.result with
    | error t => exact .quiet h hk trivial rfl
    | ok note =>
      have hkey : q.key = key := Table.key_of_get hq
      have hsame : ∀ p, s.requests.get q.key = some p → q.invoiceId = p.invoiceId ∧ q.amount = p.amount := by
        intro p hp
        rw [hkey, hq] at hp
        cases hp
        exact ⟨rfl, rfl⟩
      have hnote : q.note = some note := by
        unfold Request.note
        rw [hres]
      refine .provider hk trivial rfl (h.record hsame fun _ _ => ?_) (Evolves.record hsame) rfl
      obtain ⟨j, r, hr, hi, hc, hpos, hle⟩ := h.notes key q note hq hnote
      rw [← hkey] at hi hle
      exact ⟨j, r, hr, hi, hc, hpos, hle⟩

variable {invoiceId : String}

theorem Effect.create {amount : ℤ} {key : IdempotencyKey} {result : Except Trouble CreditNote} {lost : Bool}
    (h : s.Ok) (hk : Knows k s) (ha : allows k (.createCreditNote i amount key invoiceId)) :
    Effect k (.createCreditNote i amount key invoiceId)
      (if lost then .error (.trouble (.transient "no answer"))
        else (s.create key invoiceId amount result).1) s (s.create key invoiceId amount result).2 := by
  obtain ⟨c, rfl, rfl, rfl, rfl, rfl, hpos, hamount⟩ := ha
  have hknown := hk c rfl
  -- only a conflict teaches the run something
  have hsilent : ∀ a : Except Failure IssuedRefund, a ≠ .error .idempotencyConflict →
      learn (some c) (.createCreditNote c.row.subscriptionId c.row.toRefund
        ⟨refundKey c.row.subscriptionId, c.row.attempt⟩ c.row.invoiceId) a = some c := by
    rintro (e | issued) hne
    · cases e <;> first | rfl | exact absurd rfl hne
    · rfl
  have hanswer : ∀ x : Except Trouble CreditNote,
      (if lost then .error (.trouble (.transient "no answer")) else answer x) ≠
        (.error .idempotencyConflict : Except Failure IssuedRefund) := by
    intro x hx
    cases lost <;> cases x <;> cases hx
  unfold Store.create
  cases hq : s.requests.get ⟨refundKey c.row.subscriptionId, c.row.attempt⟩ with
  | none =>
    obtain ⟨r, hr, hl⟩ := hknown.seen hamount
    refine .provider hk trivial (hsilent _ (hanswer result))
      (h.record (fun p hp => ?_) fun _ _ => ?_) (Evolves.record fun p hp => ?_) rfl
    · rw [hq] at hp
      cases hp
    · refine ⟨_, r, hr, rfl, ⟨?_, ?_⟩, ?_, hl.attempt⟩
      · exact (hl.amount hamount).2.symm
      · exact (hl.split (le_of_lt hpos)).symm
      · rw [hl.split (le_of_lt hpos)]
        exact hpos
    · rw [hq] at hp
      cases hp
  | some q =>
    dsimp only
    by_cases hsame : q.invoiceId = c.row.invoiceId ∧ q.amount = c.row.toRefund
    · rw [if_pos hsame]
      exact .quiet h hk trivial (hsilent _ (hanswer q.result))
    · rw [if_neg hsame]
      cases lost with
      | true => exact .quiet h hk trivial rfl
      | false =>
        refine ⟨h, trivial, fun c' hc' => ?_, .refl s, fun _ _ _ _ _ hr _ => hr,
          fun c' hc' => ?_, fun _ _ _ hr => hr, fun _ _ _ _ _ _ => rfl⟩
        · cases hc'
          exact ⟨hknown.issued, hknown.held, hknown.seen, fun _ => ⟨le_of_lt hpos, q, hq, hsame⟩⟩
        · cases hc'
          exact .inl ⟨c, rfl, rfl⟩

theorem notes_within {c : Claim} {note : FoundNote} (h : s.Ok) (hc : c.Known s) (hamount : 0 ≤ c.row.amount)
    (hn : note ∈ s.notes invoiceId (refundKey c.row.subscriptionId)) :
    0 ≤ note.amount ∧ note.amount ≤ c.row.amount := by
  obtain ⟨q, hq, hbind⟩ := List.mem_filterMap.mp hn
  obtain ⟨made, hmade, hif⟩ := Option.bind_eq_some_iff.mp hbind
  split at hif
  · rename_i hmatch
    cases hif
    obtain ⟨j, r, hr, hkey, hcar, hpos, -⟩ := h.notes q.key q made (Table.get_eq_some.mpr ⟨hq, rfl⟩) hmade
    obtain rfl : c.row.subscriptionId = j := refundKey_inj.mp (hmatch.2.1.symm.trans hkey)
    obtain ⟨r', hr', hl⟩ := hc.seen hamount
    rw [hr] at hr'
    cases hr'
    have hle := (h.rows _ r hr).split (le_of_lt hpos)
    have ha := (hl.amount hamount).1
    have hq := hcar.2
    dsimp only
    omega
  · cases hif

theorem Effect.plan {amount : ℤ} {key : String} {reading : InvoiceReading} (h : s.Ok) (hk : Knows k s)
    (ha : allows k (.refundPlan i amount key invoiceId)) :
    Effect k (.refundPlan i amount key invoiceId)
      (.ok (refundPlan amount (s.notes invoiceId key).head? reading)) s s := by
  obtain ⟨c, rfl, rfl, rfl, rfl, hamount⟩ := ha
  refine .quiet h hk ?_ rfl
  refine refundPlan_fits reading hamount fun note hnote => ?_
  exact notes_within h (hk c rfl) hamount (List.mem_of_head? hnote)

/-! ## 6. All operations -/

theorem pair_of_some {α β : Type*} {p : α × β} {x : α} {y : β} (h : some p = some (x, y)) :
    p.1 = x ∧ p.2 = y := by
  cases h
  exact ⟨rfl, rfl⟩

theorem effect {l : Label} (h : s.Ok) (hk : Knows k s) (ha : allows k o)
    (he : exe o l s = some (a, s')) : Effect k o a s s' := by
  unfold exe at he
  split at he
  case h_22 => cases he
  all_goals obtain ⟨rfl, rfl⟩ := pair_of_some he
  case h_4 => exact .claim h hk
  case h_5 => exact .save h hk ha
  case h_6 => exact .forget h hk ha
  case h_13 => exact .plan h hk ha
  case h_16 => exact .quiet h hk (fun hc => by cases hc) rfl
  case h_17 => exact .create h hk ha
  case h_20 => exact .recordFailure h ha
  case h_21 => exact .voidNote h hk
  -- the others read, or ask the provider for something that changes nothing
  all_goals exact .quiet h hk trivial rfl

theorem sound : Sound rules exe Store.Ok Knows Apart where
  symm k k' h c c' hc hc' he := h c' c hc' hc he.symm
  own k o l s a s' h hk ha he := by
    have hf := effect h hk ha he
    exact ⟨hf.ok, hf.admits, hf.knows⟩
  other k k' o l s a s' h hk hk' hapart ha he := by
    have hf := effect h hk ha he
    constructor
    · intro c hc
      have hissued := (hk' c hc).issued
      exact (hk' c hc).mono hf.evolves (hf.spares c.token (fun c0 hc0 => hapart c0 c hc0 hc) hissued)
    · intro c c' hc hc'
      rcases hf.fresh c hc with ⟨c0, hc0, he0⟩ | hnew
      · rw [← he0]
        exact hapart c0 c' hc0 hc'
      · have hissued := (hk' c' hc').issued
        omega

end TraxJourney.Billing.Withdrawal
