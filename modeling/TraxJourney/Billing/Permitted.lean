/-
  File:      Billing/Permitted.lean
  Subject:   The refund runs do only what the rules allow: each program, followed along its text.

  * **`Task.program_permitted`** -- every task is safe, whatever its client knew before.
-/
import TraxJourney.Billing.Fencing

namespace TraxJourney.Billing.Withdrawal

open Lib

variable {k : Option Claim} {row : SubscriptionRefund} {token : ℕ} {i : String} {α : Type}

/-! ## 1. Holding a claim -/

/-- The run holds the claim on the row of `i`. -/
def Has (i : String) (token : ℕ) (k : Option Claim) : Prop :=
  ∃ c, k = some c ∧ c.token = token ∧ TakenFor i token c.row

/-- The run holds the claim of a row with these amounts. -/
def Copy (row : SubscriptionRefund) (token : ℕ) (k : Option Claim) : Prop :=
  ∃ c, k = some c ∧ c.token = token ∧ TakenFor row.subscriptionId token c.row ∧
    c.row.amount = row.amount ∧ c.row.toRefund = row.toRefund ∧ c.row.owed = row.owed

def Exactly (row : SubscriptionRefund) (token : ℕ) (k : Option Claim) : Prop :=
  ∃ b, k = some ⟨token, row, b⟩ ∧ TakenFor row.subscriptionId token row

theorem Exactly.copy (h : Exactly row token k) : Copy row token k := by
  obtain ⟨_, rfl, ht⟩ := h
  exact ⟨_, rfl, rfl, ht, rfl, rfl, rfl⟩

theorem TakenFor.exactly (h : TakenFor i token row) :
    Exactly row token (some ⟨token, row, false⟩) ∧ row.subscriptionId = i := by
  obtain ⟨hsound, hpending, htoken, rfl⟩ := h
  exact ⟨⟨false, rfl, hsound, hpending, htoken, rfl⟩, rfl⟩

theorem Copy.has (h : Copy row token k) : Has row.subscriptionId token k := by
  obtain ⟨c, rfl, rfl, ht, -⟩ := h
  exact ⟨c, rfl, rfl, ht⟩

theorem Has.claimed (h : Has i token k) : ∃ c, k = some c ∧ c.row.subscriptionId = i := by
  obtain ⟨c, rfl, rfl, ht⟩ := h
  exact ⟨c, rfl, ht.subscription⟩

/-! ## 2. What the transactions write -/

section Written

variable {c : Claim}

variable {version : ℕ}

theorem Writes.giveBack {cancelAttemptedAt leaseUntil : ℚ} (h : TakenFor i token c.row) :
    Writes c { c.row with cancelAttemptedAt, leaseUntil, claimToken := none, version } where
  sound := ⟨h.sound.refunded, h.sound.owed, h.sound.sum, h.sound.split, h.sound.unsent,
    h.sound.pending, h.sound.attempt, fun _ => rfl⟩
  later := ⟨rfl, fun _ => ⟨rfl, rfl⟩, fun _ => rfl, Nat.le_refl _, id⟩
  token := .inr rfl
  attempt := .inl rfl

theorem Writes.priced {amount : ℤ} {invoiceId currency : String} (h : TakenFor i token c.row)
    (hnew : c.row.amount < 0) (hamount : amount = c.row.amount ∨ 0 ≤ amount) :
    Writes c { c.row with amount, invoiceId, currency, version } := by
  have hunsplit : c.row.toRefund < 0 := by
    by_contra hs
    have := h.sound.split (by omega)
    omega
  refine ⟨⟨h.sound.refunded, h.sound.owed, ?_, fun hs => ?_, h.sound.unsent, fun _ hs => ?_,
    h.sound.attempt, h.sound.final⟩, ⟨rfl, fun ha => ?_, fun _ => rfl, Nat.le_refl _, id⟩, .inl rfl,
    .inl rfl⟩
  · have hsum := h.sound.sum
    dsimp only
    rcases hamount with ha | ha <;> omega
  · exact absurd hs (by dsimp only; omega)
  · exact absurd hs (by dsimp only; omega)
  · omega

theorem Writes.split {toRefund owed : ℤ} {reason : String} (h : TakenFor i token c.row)
    (hnew : c.row.toRefund < 0) (hsend : 0 ≤ toRefund) (howed : 0 ≤ owed)
    (hfit : toRefund + owed ≤ c.row.amount) :
    Writes c { c.row with toRefund, owed, reason, version } := by
  have hunsent := (h.sound.unsent h.pending).1
  refine ⟨⟨h.sound.refunded, howed, ?_, fun _ => ?_, h.sound.unsent, fun _ _ => hfit, fun ha => ?_,
    h.sound.final⟩, ⟨rfl, fun _ => ⟨rfl, rfl⟩, fun hs => ?_, Nat.le_refl _, id⟩, .inl rfl, .inl rfl⟩
  · dsimp only
    omega
  · dsimp only
    omega
  · exact hsend
  · omega

theorem Writes.bump (h : TakenFor i token c.row) (hs : 0 ≤ c.row.toRefund) (hc : c.conflict = true) :
    Writes c { c.row with attempt := c.row.attempt + 1, version } where
  sound := ⟨h.sound.refunded, h.sound.owed, h.sound.sum, h.sound.split, h.sound.unsent,
    h.sound.pending, fun _ => hs, h.sound.final⟩
  later := ⟨rfl, fun _ => ⟨rfl, rfl⟩, fun _ => rfl, Nat.le_succ _, id⟩
  token := .inl rfl
  attempt := .inr ⟨hc, rfl⟩

theorem Writes.finish {state : RefundState} {refunded owed : ℤ} {creditNoteId refundId reason : String}
    {leaseUntil : ℚ} (h : TakenFor i token c.row) (hfinal : state.final = true) (hrefunded : 0 ≤ refunded)
    (howed : 0 ≤ owed) (hfit : refunded + owed ≤ max c.row.amount 0) :
    Writes c { c.row with
      state, refunded, creditNoteId, refundId, owed, reason, leaseUntil, claimToken := none,
      version } := by
  have hnot : state ≠ .pending := by
    rintro rfl
    cases hfinal
  exact ⟨⟨hrefunded, howed, hfit, h.sound.split, fun hp => absurd hp hnot,
    fun hp => absurd hp hnot, h.sound.attempt, fun _ => rfl⟩,
    ⟨rfl, fun _ => ⟨rfl, rfl⟩, fun _ => rfl, Nat.le_refl _, fun _ => hfinal⟩, .inr rfl, .inl rfl⟩

end Written

/-! ## 3. Transactions -/

variable {customerId : String} {contractStart : ℚ} {E : Option Claim → Failure → Prop}

theorem claim_wp {requestedAt : ℚ} {create : Bool} {Q : Option Claim → Claimed → Prop}
    (htaken : ∀ row token, TakenFor i token row → Q (some ⟨token, row, false⟩) (.taken row token))
    (hfinal : ∀ row, Q none (.final row)) (habsent : Q none .absent) (hE : ∀ e, E none e) :
    rules.wp Q E k (claim customerId i contractStart requestedAt create) := by
  unfold claim
  rw [Rules.wp_bind]
  refine ⟨trivial, fun a ha => ?_⟩
  rcases a with e | (_ | row | ⟨row, token⟩)
  · exact hE e
  · exact habsent
  · exact hfinal row
  · exact htaken row token ha

theorem save_wp {c : Claim} {fields : SubscriptionRefund → SubscriptionRefund}
    {Q : Option Claim → SubscriptionRefund → Prop} (hk : k = some c) (ht : c.token = token)
    (hi : c.row.subscriptionId = i) (hw : Writes c (stamped fields c.row))
    (hQ : Q (some { c with row := stamped fields c.row, conflict := false }) (stamped fields c.row))
    (hE : ∀ e, E k e) : rules.wp Q E k (save i token fields) := by
  subst hk ht hi
  unfold save
  rw [Rules.wp_bind]
  refine ⟨⟨c, rfl, rfl, rfl, hw⟩, fun a ha => ?_⟩
  cases a with
  | ok r =>
    obtain rfl : r = stamped fields c.row := ha c rfl
    exact hQ
  | error e => exact hE e

theorem release_wp (hk : Has i token k) :
    rules.wp (fun _ _ => True) (fun _ _ => True) k (release i token) := by
  obtain ⟨c, hc, ht, htaken⟩ := hk
  unfold release
  rw [Rules.wp_catching, Rules.wp_bind]
  refine save_wp hc ht htaken.subscription (Writes.giveBack htaken) trivial fun e => ?_
  cases e <;> trivial

theorem finish_wp {refunded owed : ℤ} {noteId reason refundId : String} {owedAnyway : Bool}
    (hk : Copy row token k) (hrefunded : 0 ≤ refunded) (howed : 0 ≤ owed)
    (hfit : refunded + owed ≤ max row.amount 0) :
    rules.wp (fun _ _ => True) (fun k' _ => k' = k) k
      (finish row token refunded noteId owed reason refundId owedAnyway) := by
  obtain ⟨c, hc, ht, htaken, hamount, -, -⟩ := hk
  unfold finish
  rw [Rules.wp_bind]
  refine save_wp hc ht htaken.subscription (Writes.finish htaken ?_ hrefunded howed ?_) trivial fun _ => rfl
  · split <;> rfl
  · rw [hamount]
    exact hfit

/-! ## 4. Calls to the provider -/

section Calls

variable {E : Option Claim → Failure → Prop}

theorem discardPendingItems_wp {Q : Option Claim → Unit → Prop} (hk : Has i token k) (hQ : Q k ())
    (hE : ∀ e, E k e) :
    rules.wp Q E k (discardPendingItems customerId i) := by
  unfold discardPendingItems
  split
  · exact hQ
  · rw [Rules.wp_bind]
    refine ⟨hk.claimed, fun a _ => ?_⟩
    cases a with
    | ok u => exact hQ
    | error e => exact hE e

theorem readBasis_wp {invoiceId : String} {Q : Option Claim → RefundBasis → Prop}
    (hk : Has i token k) (hQ : ∀ b, Q k b) (hE : ∀ e, E k e) :
    rules.wp Q E k (readBasis i invoiceId) := by
  unfold readBasis
  split
  · exact hE _
  · rw [Rules.wp_bind]
    refine ⟨hk.claimed, fun a _ => ?_⟩
    cases a with
    | ok b => exact hQ b
    | error e => exact hE e

theorem planRefund_wp {invoiceId : String} {Q : Option Claim → RefundPlan → Prop}
    (hk : Copy row token k) (hamount : 0 ≤ row.amount)
    (hQ : ∀ plan, plan.Fits row.amount → Q k plan) (hE : ∀ e, E k e) :
    rules.wp Q E k (planRefund row.subscriptionId row.amount (refundKey row.subscriptionId) invoiceId) := by
  obtain ⟨c, hc, ht, htaken, ha, -, -⟩ := hk
  unfold planRefund
  split
  · exact hE _
  · rw [Rules.wp_bind]
    refine ⟨⟨c, hc, htaken.subscription, rfl, ha.symm, hamount⟩, fun a ha => ?_⟩
    cases a with
    | ok plan => exact hQ plan ha
    | error e => exact hE e

theorem issueRefund_wp {Q : Option Claim → IssuedRefund → Prop} (hk : Exactly row token k)
    (hamount : 0 ≤ row.amount) (hQ : ∀ a, Q k a) (hE : ∀ e, e ≠ .idempotencyConflict → E k e)
    (hconflict : E (k.map fun c => { c with conflict := true }) .idempotencyConflict) :
    rules.wp Q E k (issueRefund row.subscriptionId row.toRefund (refundKey row.subscriptionId)
      row.invoiceId row.attempt) := by
  have hclaimed := hk.copy.has.claimed
  obtain ⟨b, hc, htaken⟩ := hk
  unfold issueRefund
  split
  · exact hE _ (fun h => by cases h)
  · rename_i hsend
    rw [Rules.wp_bind]
    refine ⟨hclaimed, fun found hfound => ?_⟩
    cases found with
    | error e => exact hE e hfound
    | ok note =>
      cases note with
      | some note => exact hQ _
      | none =>
        show rules.wp Q E k (perform (.createCreditNote row.subscriptionId row.toRefund
          ⟨refundKey row.subscriptionId, row.attempt⟩ row.invoiceId) >>= fun a => orFail a)
        rw [Rules.wp_bind]
        refine ⟨⟨_, hc, rfl, rfl, rfl, rfl, by omega, hamount⟩, fun a _ => ?_⟩
        cases a with
        | ok issued => exact hQ issued
        | error e =>
          cases e with
          | idempotencyConflict => exact hconflict
          | trouble t => exact hE _ (fun h => by cases h)
          | lostClaim => exact hE _ (fun h => by cases h)
          | refundInProgress => exact hE _ (fun h => by cases h)
          | accountGone => exact hE _ (fun h => by cases h)
          | notEligible => exact hE _ (fun h => by cases h)

theorem issue_wp (hk : Exactly row token k) (hamount : 0 ≤ row.amount) (hsend : 0 ≤ row.toRefund) :
    rules.wp (fun k _ => Copy row token k) (fun k _ => Copy row token k) k (issue row token) := by
  obtain ⟨b, hc, htaken⟩ := hk
  subst hc
  have hexact : Exactly row token (some ⟨token, row, b⟩) := ⟨b, rfl, htaken⟩
  unfold issue
  rw [Rules.wp_catching]
  refine issueRefund_wp hexact hamount (fun _ => hexact.copy) (fun e he => ?_) ?_
  · cases e with
    | idempotencyConflict => exact absurd rfl he
    | trouble t => exact hexact.copy
    | lostClaim => exact hexact.copy
    | refundInProgress => exact hexact.copy
    | accountGone => exact hexact.copy
    | notEligible => exact hexact.copy
  · -- the key is in use: once more, under the next one
    have hconflict : Exactly row token (some ⟨token, row, true⟩) := ⟨true, rfl, htaken⟩
    show rules.wp _ _ (some ⟨token, row, true⟩) (save _ _ _ >>= _)
    rw [Rules.wp_bind]
    have hw : Writes ⟨token, row, true⟩ (stamped (nextAttempt row) row) := Writes.bump htaken hsend rfl
    refine save_wp rfl rfl rfl hw ?_ fun _ => hconflict.copy
    have hnext : TakenFor row.subscriptionId token (stamped (nextAttempt row) row) :=
      ⟨hw.sound, htaken.pending, htaken.token, rfl⟩
    have hcopy : ∀ b, Copy row token (some ⟨token, stamped (nextAttempt row) row, b⟩) :=
      fun b => ⟨_, rfl, rfl, hnext, rfl, rfl, rfl⟩
    have hexact' : Exactly (stamped (nextAttempt row) row) token
        (some ⟨token, stamped (nextAttempt row) row, false⟩) :=
      ⟨false, rfl, hnext⟩
    exact issueRefund_wp hexact' hamount (fun _ => hcopy false) (fun _ _ => hcopy false) (hcopy true)

end Calls

/-! ## 5. The stages of `settle` -/

/-- What the body of `settle`'s `try` hands its handlers. -/
def Handled (token : ℕ) (k : Option Claim) (p : Failure × SubscriptionRefund) : Prop := Copy p.2 token k

variable {p : Session α}

variable {Q : Option Claim → α → Prop}

theorem seeing_wp {E : Option Claim → Failure × SubscriptionRefund → Prop}
    (h : rules.wp Q (fun k e => E k (e, row)) k p) : rules.wp Q E k (seeing row p) := by
  unfold seeing
  rw [Rules.wp_catching]
  exact h

/-- A row that stays in the run's hands has an amount. -/
def Priced (token : ℕ) (k : Option Claim) : Refund ⊕ SubscriptionRefund → Prop
  | .inl _ => True
  | .inr row => Exactly row token k ∧ 0 ≤ row.amount

theorem price_wp (hk : Exactly row token k) :
    rules.wp (Priced token) (Handled token) k (price contractStart row token) := by
  obtain ⟨b, rfl, htaken⟩ := hk
  have hexact : Exactly row token (some ⟨token, row, b⟩) := ⟨b, rfl, htaken⟩
  unfold price
  split
  · rename_i hnew
    dsimp only
    generalize (if row.contractStartedAt = 0 then contractStart else row.contractStartedAt) = start
    split
    · exact hexact.copy
    · rw [Rules.wp_bind]
      refine seeing_wp (readBasis_wp hexact.copy.has (fun basis => ?_) fun _ => hexact.copy)
      split
      · exact hexact.copy
      · rw [Rules.wp_bind]
        have hw : Writes ⟨token, row, b⟩ (stamped (pricing row basis) row) :=
          Writes.priced htaken hnew (.inr (basisAmount_nonneg row basis))
        have hnext : Exactly (stamped (pricing row basis) row) token
            (some ⟨token, stamped (pricing row basis) row, false⟩) :=
          ⟨false, rfl, hw.sound, htaken.pending, htaken.token, rfl⟩
        refine seeing_wp (save_wp rfl rfl rfl hw ?_ fun _ => hexact.copy)
        split
        · exact ⟨hnext, basisAmount_nonneg row basis⟩
        · rw [Rules.wp_bind]
          refine seeing_wp (Rules.wp_mono (fun _ _ _ => trivial) (fun k' e he => ?_)
            (finish_wp hnext.copy le_rfl (basisAmount_nonneg row basis) ?_))
          · exact he ▸ hnext.copy
          · exact (zero_add _).le.trans (le_max_left _ _)
  · rename_i hold
    exact ⟨hexact, not_lt.mp hold⟩

theorem readPlan_wp {Q : Option Claim → RefundPlan → Prop} (hk : Exactly row token k)
    (hamount : 0 ≤ row.amount) (hQ : ∀ plan, plan.Fits row.amount → Q k plan) (hE : ∀ e, E k e) :
    rules.wp Q E k (readPlan row) := by
  unfold readPlan
  split
  · exact hQ _ ⟨le_rfl, le_rfl, le_rfl, hamount, hamount⟩
  · exact planRefund_wp hk.copy hamount hQ hE

/-- A row that stays in the run's hands is split. -/
def Split (token : ℕ) (k : Option Claim) : Refund ⊕ SubscriptionRefund → Prop
  | .inl _ => True
  | .inr row => Exactly row token k ∧ 0 ≤ row.amount ∧ 0 ≤ row.toRefund

theorem splitRow_wp (hk : Exactly row token k) (hamount : 0 ≤ row.amount) :
    rules.wp (Split token) (Handled token) k (splitRow row token) := by
  have hcopy := hk.copy
  unfold splitRow
  split
  · rename_i hnew
    rw [Rules.wp_bind]
    refine seeing_wp (readPlan_wp hk hamount (fun plan hfits => ?_) fun _ => hcopy)
    split
    · rw [Rules.wp_bind]
      refine seeing_wp (Rules.wp_mono (fun _ _ _ => trivial) (fun k' e he => ?_)
        (finish_wp hcopy hfits.existing hfits.owed (hfits.found.trans (le_max_left _ _))))
      exact he ▸ hcopy
    · rw [Rules.wp_bind]
      obtain ⟨b, rfl, htaken⟩ := hk
      have hw : Writes ⟨token, row, b⟩ (stamped (splitting plan) row) :=
        Writes.split htaken hnew hfits.send hfits.owed hfits.split
      refine seeing_wp (save_wp rfl rfl rfl hw ?_ fun _ => hcopy)
      exact ⟨⟨false, rfl, hw.sound, htaken.pending, htaken.token, rfl⟩, hamount, hfits.send⟩
  · rename_i hold
    exact ⟨hk, hamount, not_lt.mp hold⟩

theorem sendRefund_wp (hk : Exactly row token k) (hamount : 0 ≤ row.amount) :
    rules.wp (fun k _ => Copy row token k) (fun k _ => Copy row token k) k
      (sendRefund row token) := by
  unfold sendRefund
  split
  · rename_i hsend
    exact issue_wp hk hamount (le_of_lt hsend)
  · exact hk.copy

/-- What `settle` finishes after its `try`. -/
def Issued (token : ℕ) (k : Option Claim) : Refund ⊕ SubscriptionRefund × IssuedRefund → Prop
  | .inl _ => True
  | .inr (row, _) => Copy row token k ∧ 0 ≤ row.toRefund

theorem settleBody_wp (hk : Exactly row token k) :
    rules.wp (Issued token) (Handled token) k (settleBody customerId contractStart row token) := by
  unfold settleBody
  rw [Rules.wp_bind]
  refine seeing_wp (discardPendingItems_wp hk.copy.has ?_ fun _ => hk.copy)
  rw [Rules.wp_bind]
  refine Rules.wp_mono (fun k r hr => ?_) (fun _ _ h => h) (price_wp hk)
  cases r with
  | inl refund => trivial
  | inr row =>
    rw [Rules.wp_bind]
    refine Rules.wp_mono (fun k r hr => ?_) (fun _ _ h => h) (splitRow_wp hr.1 hr.2)
    cases r with
    | inl refund => trivial
    | inr row =>
      rw [Rules.wp_bind]
      refine seeing_wp (Rules.wp_mono (fun k issued h => ?_) (fun _ _ h => h)
        (sendRefund_wp hr.1 hr.2.1))
      exact ⟨h, hr.2.2⟩

/-! ## 6. Runs -/

/-- Nothing is asked of where a run ends. -/
def Permitted (p : Session α) : Prop := ∀ k, rules.Safe k p

theorem Permitted.bind {β : Type} {f : α → Session β} (hp : Permitted p) (hf : ∀ a, Permitted (f a)) :
    Permitted (p >>= f) := by
  intro k
  unfold Rules.Safe
  rw [Rules.wp_bind]
  exact Rules.wp_mono (fun k a _ => hf a k) (fun _ _ h => h) (hp k)

theorem Permitted.catching {f : Failure → Session α} (hp : Permitted p) (hf : ∀ e, Permitted (f e)) :
    Permitted (p.catching f) := by
  intro k
  unfold Rules.Safe
  rw [Rules.wp_catching]
  exact Rules.wp_mono (fun _ _ h => h) (fun k e _ => hf e k) (hp k)

theorem Copy.fits (h : Copy row token k) :
    0 ≤ row.owed ∧ (0 ≤ row.toRefund → row.toRefund + row.owed ≤ row.amount) := by
  obtain ⟨c, -, -, ht, ha, hs, ho⟩ := h
  have howed := ht.sound.owed
  have hfit := ht.sound.pending ht.pending
  rw [ha, hs, ho] at hfit
  rw [ho] at howed
  exact ⟨howed, hfit⟩

theorem raising_wp (hk : Has i token k) (e : Failure) :
    rules.wp Q (fun _ _ => True) k (raising i token e) := by
  cases e with
  | trouble t | idempotencyConflict =>
    unfold raising
    rw [Rules.wp_bind]
    exact Rules.wp_mono (fun _ _ _ => trivial) (fun _ _ h => h) (release_wp hk)
  | lostClaim | refundInProgress | accountGone | notEligible => trivial

theorem handle_safe {p : Failure × SubscriptionRefund} (hk : Copy p.2 token k) :
    rules.Safe k (handle token p) := by
  unfold handle
  split
  · obtain ⟨howed, hfit⟩ := hk.fits
    dsimp only at howed hfit
    refine .of_wp (finish_wp hk le_rfl ?_ ?_) <;> split <;> omega
  · obtain ⟨c, hc, ht, htaken⟩ := hk.has
    exact Rules.wp_perform ⟨c, hc, ht, htaken.subscription⟩ fun _ _ => trivial
  · exact raising_wp hk.has _

theorem settle_permitted (customerId subscriptionId : String) (contractStart requestedAt : ℚ) :
    Permitted (settle customerId subscriptionId contractStart requestedAt) := by
  intro k
  unfold settle Rules.Safe
  rw [Rules.wp_bind]
  refine claim_wp (fun row token htaken => ?_) (fun _ => trivial) trivial fun _ => trivial
  have hk : Exactly row token (some ⟨token, row, false⟩) :=
    ⟨false, rfl, htaken.sound, htaken.pending, htaken.token, rfl⟩
  rw [Rules.wp_bind, Rules.wp_catching]
  refine Rules.wp_mono (fun k r hr => ?_) (fun k p hp => ?_) (settleBody_wp hk)
  · cases r with
    | inl refund => trivial
    | inr r =>
      obtain ⟨row, issued⟩ := r
      obtain ⟨hcopy, hsend⟩ := hr
      obtain ⟨howed, hfit⟩ := hcopy.fits
      exact Rules.Safe.of_wp (finish_wp hcopy (le_max_left _ _) howed (by omega))
  · rw [Rules.wp_bind]
    exact Rules.wp_mono (fun _ _ _ => trivial) (fun _ _ h => h) (handle_safe hp)

theorem stampAttempt_wp (hk : Has i token k) :
    rules.wp (fun _ _ => True) (fun k _ => Has i token k) k (stampAttempt i token) := by
  have hhas := hk
  obtain ⟨c, hc, ht, htaken⟩ := hk
  refine Rules.wp_perform trivial fun now _ => ?_
  rw [Rules.wp_bind]
  exact save_wp hc ht htaken.subscription (Writes.giveBack htaken) trivial fun _ => hhas

theorem freezeInvoice_wp (hk : Exactly row token k) :
    rules.wp (fun k _ => Has row.subscriptionId token k) (fun k _ => Has row.subscriptionId token k) k
      (freezeInvoice row token) := by
  have hhas := hk.copy.has
  unfold freezeInvoice
  split
  · rename_i hnew
    rw [Rules.wp_bind]
    refine readBasis_wp hhas (fun basis => ?_) fun _ => hhas
    split
    · exact hhas
    · rw [Rules.wp_bind]
      obtain ⟨b, rfl, htaken⟩ := hk
      have hw : Writes ⟨token, row, b⟩ (stamped (freezing basis) row) :=
        Writes.priced htaken hnew.2 (.inl rfl)
      refine save_wp rfl rfl rfl hw ?_ fun _ => hhas
      exact ⟨_, rfl, rfl, hw.sound, htaken.pending, htaken.token, rfl⟩
  · exact hhas

theorem giveUp_safe (hk : Has i token k) (e : Failure) : rules.Safe k (giveUp i token e) := by
  unfold giveUp
  split
  · exact Rules.Safe.of_wp (stampAttempt_wp hk)
  · exact raising_wp hk _

theorem requestWithdrawal_permitted (customerId subscriptionId : String) (contractStart requestedAt : ℚ) :
    Permitted (requestWithdrawal customerId subscriptionId contractStart requestedAt) := by
  intro k
  unfold requestWithdrawal Rules.Safe
  rw [Rules.wp_bind]
  refine claim_wp (fun row token htaken => ?_) (fun _ => trivial) trivial fun _ => trivial
  obtain ⟨hk, rfl⟩ := htaken.exactly
  rw [Rules.wp_bind, Rules.wp_catching, Rules.wp_bind]
  refine Rules.wp_mono (fun k _ hk => ?_) (fun k e hk => ?_) (freezeInvoice_wp hk)
  · refine Rules.wp_mono (fun _ _ _ => trivial) (fun k e hk => ?_) (stampAttempt_wp hk)
    exact giveUp_safe hk e
  · exact giveUp_safe hk e

theorem cancelSubscription_permitted (subscriptionId customerId : String) :
    Permitted (cancelSubscription subscriptionId customerId) := by
  intro k
  unfold cancelSubscription
  split
  · trivial
  · refine Rules.wp_perform trivial fun a _ => ?_
    cases a <;> trivial

theorem finishRow_permitted (customerId subscriptionId : String) (contractStart requestedAt : ℚ) :
    Permitted (finishRow customerId subscriptionId contractStart requestedAt) := by
  refine .catching ?_ fun e => ?_
  · refine .bind (requestWithdrawal_permitted _ _ _ _) fun _ => ?_
    refine .bind (cancelSubscription_permitted _ _) fun _ => ?_
    exact .bind (settle_permitted _ _ _ _) fun _ _ => trivial
  · intro k
    cases e <;> trivial

theorem finishRows_permitted (customerId : String) (rows : List (String × ℚ × ℚ)) :
    Permitted (finishRows customerId rows) := by
  induction rows with
  | nil => exact fun _ => trivial
  | cons row rows ih =>
    refine .bind (finishRow_permitted _ _ _ _) fun refund => ?_
    exact .bind ih fun refunds _ => trivial

theorem finishPending_permitted (customerId skip : String) : Permitted (finishPending customerId skip) := by
  unfold finishPending
  split
  · exact fun _ => trivial
  · exact fun k => Rules.wp_perform trivial fun rows _ => finishRows_permitted customerId rows _

theorem resolveSent_wp (hk : Exactly row token k) :
    rules.wp (fun k r => r = none → Has row.subscriptionId token k)
      (fun k _ => Has row.subscriptionId token k) k (resolveSent row token) := by
  have hcopy := hk.copy
  unfold resolveSent
  split
  · rename_i hsend
    have hamount : 0 ≤ row.amount := by
      have := hcopy.fits.2 (le_of_lt hsend)
      have := hcopy.fits.1
      omega
    rw [Rules.wp_bind]
    refine planRefund_wp hcopy hamount (fun plan hfits => ?_) fun _ => hcopy.has
    split
    · rw [Rules.wp_bind]
      refine Rules.wp_mono (fun k refund _ => ?_) (fun k' e he => ?_)
        (finish_wp hcopy hfits.existing hfits.owed (hfits.found.trans (le_max_left _ _)))
      · exact Rules.wp_perform trivial fun found _ h => by cases h
      · exact he ▸ hcopy.has
    · exact fun _ => hcopy.has
  · exact fun _ => hcopy.has

theorem resolvePending_permitted (subscriptionId : String) : Permitted (resolvePending subscriptionId) := by
  intro k
  refine Rules.wp_perform trivial fun found _ => ?_
  cases found with
  | none => trivial
  | some found =>
    rw [Rules.wp_bind]
    refine claim_wp (fun row token htaken => ?_) (fun _ => trivial) trivial fun _ => trivial
    obtain ⟨hk, rfl⟩ := htaken.exactly
    rw [Rules.wp_bind, Rules.wp_catching]
    refine Rules.wp_mono (fun k state hstate => ?_) (fun k e he => ?_) (resolveSent_wp hk)
    · cases state with
      | some state => trivial
      | none =>
        rw [Rules.wp_bind]
        exact Rules.wp_mono (fun _ _ _ => trivial) (fun _ _ h => h) (release_wp (hstate rfl))
    · exact raising_wp he e

theorem recordRefundFailure_permitted (refundId : String) (amount : ℤ) (reason : String) :
    Permitted (recordRefundFailure refundId amount reason) := by
  intro k
  unfold recordRefundFailure
  split
  · trivial
  · rename_i hid
    refine Rules.wp_perform trivial fun found _ => ?_
    cases found with
    | some answer => trivial
    | none => exact ⟨hid, fun _ _ => trivial⟩

theorem Task.program_permitted (task : Task) : Permitted task.program := by
  cases task with
  | requestWithdrawal => exact .bind (requestWithdrawal_permitted _ _ _ _) fun _ _ => trivial
  | settle => exact .bind (settle_permitted _ _ _ _) fun _ _ => trivial
  | finishPending => exact .bind (finishPending_permitted _ _) fun _ _ => trivial
  | resolvePending => exact .bind (resolvePending_permitted _) fun _ _ => trivial
  | recordRefundFailure => exact .bind (recordRefundFailure_permitted _ _ _) fun _ _ => trivial
  | voidNote => exact fun _ => ⟨trivial, fun _ _ => trivial⟩

end TraxJourney.Billing.Withdrawal
