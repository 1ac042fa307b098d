/-
  File:      Billing/Refunds.lean
  Subject:   The arithmetic of a withdrawal: `src/billing/refunds.py`, the row that a refund is
             recorded in, and how `refund_plan` of `src/billing/stripe_gateway.py` splits it.

  * **`refundPlan_fits`** -- the two parts, or what a note found returned and what is still owed,
    never exceed the amount.

  Instants are seconds, as in the source, and exact. `created_at`, `updated_at` and `settled_at` are
  written only, and left out. A claim's token is a number that was not used before.
-/
import Mathlib.Algebra.Order.Ring.Rat

namespace TraxJourney.Billing.Withdrawal

/-! ## 1. Windows and shares -/

def withdrawalWindowDays : ℤ := 14

/-- Midnight (UTC) at the start of the day after the last one, and 0 without a start. -/
def withdrawalWindowClosesAt (contractStart : ℚ) : ℚ :=
  if contractStart ≤ 0 then 0
  else (((contractStart / 86400).floor + withdrawalWindowDays + 1) * 86400 : ℤ)

def withdrawalWindowOpen (contractStart instant : ℚ) : Bool :=
  withdrawalWindowClosesAt contractStart != 0 && instant < withdrawalWindowClosesAt contractStart

/-- The unused part of an amount at `now`, rounded down. -/
def proratedRefundAmount (periodStart periodEnd : ℚ) (amountPaidCents : ℤ) (now : ℚ) : ℤ :=
  if amountPaidCents ≤ 0 ∨ periodEnd ≤ periodStart then 0
  else max 0 (min amountPaidCents (amountPaidCents * (periodEnd - now) / (periodEnd - periodStart)).floor)

theorem proratedRefundAmount_nonneg (periodStart periodEnd : ℚ) (amountPaidCents : ℤ) (now : ℚ) :
    0 ≤ proratedRefundAmount periodStart periodEnd amountPaidCents now := by
  unfold proratedRefundAmount
  split
  · exact le_rfl
  · exact le_max_left _ _

/-! ## 2. Rows -/

inductive RefundState where
  | pending | done | owed | settled
deriving DecidableEq

/-- `FINAL`: the states that the app never sends to the provider again. -/
def RefundState.final : RefundState → Bool
  | .pending => false
  | .done | .owed | .settled => true

/-- A `SubscriptionRefund` row. An amount of -1 is one not fixed yet. -/
structure SubscriptionRefund where
  subscriptionId : String
  customerId : String := ""
  state : RefundState := .pending
  contractStartedAt : ℚ := 0
  attempt : ℕ := 0
  amount : ℤ := -1
  toRefund : ℤ := -1
  owed : ℤ := 0
  refunded : ℤ := 0
  currency : String := ""
  invoiceId : String := ""
  creditNoteId : String := ""
  refundId : String := ""
  failedRefundId : String := ""
  reason : String := ""
  requestedAt : ℚ := 0
  cancelAttemptedAt : ℚ := 0
  version : ℕ := 0
  claimToken : Option ℕ := none
  leaseUntil : ℚ := 0

/-- What a run answers its caller. -/
structure Refund where
  amountCents : ℤ
  currency : String
  owedCents : ℤ := 0

def outcome (row : SubscriptionRefund) : Refund :=
  ⟨row.refunded, row.currency, if row.state = .owed then row.owed else 0⟩

def refundKey (subscriptionId : String) : String := "traxjourney-unused-period-refund-" ++ subscriptionId

theorem refundKey_inj {s t : String} : refundKey s = refundKey t ↔ s = t := String.append_right_inj _

/-! ## 3. What the provider shows -/

/-- `RefundBasis`; an end of 0 is a subscription that still runs. -/
structure RefundBasis where
  endedAt : ℚ
  invoiceId : String
  amountPaid : ℤ
  currency : String
  periodStart : ℚ
  periodEnd : ℚ
  total : ℤ

structure RefundPlan where
  sendCents : ℤ
  owedCents : ℤ := 0
  reason : String := ""
  existingNoteId : String := ""
  existingCents : ℤ := 0
  existingRefundId : String := ""

structure IssuedRefund where
  creditNoteId : String
  refundId : String := ""

/-- What `refund_plan` reads of an invoice beside our own note: what was paid, its total, what was
    refunded on its payment (`none` when it was paid without one), and what else it was credited. -/
structure InvoiceReading where
  amountPaid : ℤ
  total : ℤ
  already : Option ℕ
  credited : ℕ

/-- A credit note of ours, as it is listed. -/
structure FoundNote where
  id : String
  refundId : String
  amount : ℤ

def refundPlan (amountCents : ℤ) (ours : Option FoundNote) (invoice : InvoiceReading) : RefundPlan :=
  let total := if invoice.total = 0 then invoice.amountPaid else invoice.total
  let already : ℤ := (invoice.already.getD 0 : ℕ)
  match ours with
  | some note =>
    let byHand := max 0 (already - note.amount)
    let still := max 0 (amountCents - note.amount - byHand)
    { sendCents := 0
      owedCents := still
      reason := if still ≠ 0 then "part of the refund could not be made" else ""
      existingNoteId := note.id
      existingCents := note.amount
      existingRefundId := note.refundId }
  | none =>
    let owed := max 0 (amountCents - already)
    if invoice.already = none then
      { sendCents := 0
        owedCents := owed
        reason := if owed ≠ 0 then "paid without a refundable payment" else "" }
    else
      let creditable := max 0 (total - invoice.credited)
      let send := max 0 (min (min owed (invoice.amountPaid - already)) creditable)
      let short := owed - send
      { sendCents := send
        owedCents := short
        reason :=
          if short = 0 then ""
          else if owed > invoice.amountPaid - already then
            "paid partly from the customer's balance"
          else "the invoice was already credited" }

/-- A plan that stays within the amount. -/
structure RefundPlan.Fits (plan : RefundPlan) (amountCents : ℤ) : Prop where
  send : 0 ≤ plan.sendCents
  owed : 0 ≤ plan.owedCents
  existing : 0 ≤ plan.existingCents
  split : plan.sendCents + plan.owedCents ≤ amountCents
  found : plan.existingCents + plan.owedCents ≤ amountCents

theorem refundPlan_fits {amountCents : ℤ} {ours : Option FoundNote} (invoice : InvoiceReading)
    (hamount : 0 ≤ amountCents)
    (hours : ∀ note, ours = some note → 0 ≤ note.amount ∧ note.amount ≤ amountCents) :
    (refundPlan amountCents ours invoice).Fits amountCents := by
  have halready : (0 : ℤ) ≤ (invoice.already.getD 0 : ℕ) := Int.natCast_nonneg _
  unfold refundPlan
  generalize ((invoice.already.getD 0 : ℕ) : ℤ) = already at halready
  cases ours with
  | some note =>
    obtain ⟨hpos, hle⟩ := hours note rfl
    constructor <;> dsimp only <;> omega
  | none =>
    dsimp only
    split
    · constructor <;> dsimp only <;> omega
    · generalize max 0 ((if invoice.total = 0 then invoice.amountPaid else invoice.total) -
        (invoice.credited : ℤ)) = creditable
      constructor <;> dsimp only <;> omega

/-! ## 4. What `settle` makes of the invoice -/

def leaseSeconds : ℚ := 15 * 60

def cancelBoundSeconds : ℚ := 10 * 60

/-- Why a refund is not made automatically, or "", and the instant at which the unused part is
    measured. -/
def problemAt (row : SubscriptionRefund) (basis : RefundBasis) : String × ℚ :=
  let attempted := if row.cancelAttemptedAt = 0 then row.requestedAt else row.cancelAttemptedAt
  if basis.endedAt > attempted + cancelBoundSeconds then
    ("the cancellation landed " ++ toString (basis.endedAt - attempted).floor ++
      " s after it was attempted; check it before refunding", basis.endedAt)
  else if basis.periodStart > row.requestedAt then
    ("the subscription renewed (" ++ basis.invoiceId ++ ") after the withdrawal was asked for: " ++
      "refund the renewal, and the unused part of the invoice before it (measured at the " ++
      "request, not computed here), by hand", row.requestedAt)
  else if row.invoiceId ≠ "" ∧ basis.periodEnd ≠ 0 ∧ basis.endedAt > basis.periodEnd then
    ("the subscription renewed after the withdrawal was asked for: refund the renewal and the " ++
      "unused part (measured at the request) by hand", row.requestedAt)
  else ("", basis.endedAt)

def basisAmount (row : SubscriptionRefund) (basis : RefundBasis) : ℤ :=
  proratedRefundAmount basis.periodStart basis.periodEnd
    (if basis.total = 0 then basis.amountPaid else basis.total) (problemAt row basis).2

theorem basisAmount_nonneg (row : SubscriptionRefund) (basis : RefundBasis) :
    0 ≤ basisAmount row basis := proratedRefundAmount_nonneg _ _ _ _

end TraxJourney.Billing.Withdrawal
