/-
  File:      Billing/Withdrawal.lean
  Subject:   The runs of `src/billing/withdrawal.py`, as programs over the ledger and the provider,
             with `refund_plan` and `issue_refund` of `src/billing/stripe_gateway.py`.

  * `requestWithdrawal`, `settle`, `finishPending`, `resolvePending`, `recordRefundFailure` -- one
    program for each function, one operation for each transaction and each call to the provider.

  A run is stopped between any two operations when its client takes no further step: a crash. Of the
  account there is what a claim reads of it. The owner's settlement by hand, which takes the row away
  where the account is gone, is not among the runs.
-/
import TraxJourney.Billing.Ledger
import TraxJourney.Lib.Programs

namespace TraxJourney.Billing.Withdrawal

open Lib

abbrev Session := Prog Op Ans Failure

/-- A failure comes with the row. -/
abbrev Body := Prog Op Ans (Failure × SubscriptionRefund)

/-- One operation of a run. -/
def perform (o : Op) : Session (Ans o) := Prog.perform o

/-- An answer, or its failure raised. -/
def orFail {ε α : Type} : Except ε α → Prog Op Ans ε α
  | .ok a => .ret a
  | .error e => .fail e

/-- A failure of `p`, with the row as it is known by then. -/
def seeing {α : Type} (row : SubscriptionRefund) (p : Session α) : Body α :=
  p.catching fun e => .fail (e, row)

/-! ## 1. Transactions -/

def claim (customerId subscriptionId : String) (contractStart requestedAt : ℚ) (create : Bool) :
    Session Claimed := do
  orFail (← perform (.claim customerId subscriptionId contractStart requestedAt create))

def save (subscriptionId : String) (token : ℕ)
    (fields : SubscriptionRefund → SubscriptionRefund) : Session SubscriptionRefund := do
  orFail (← perform (.save subscriptionId token fields))

/-- The claim given back. -/
def releasing (r : SubscriptionRefund) : SubscriptionRefund := { r with leaseUntil := 0, claimToken := none }

def release (subscriptionId : String) (token : ℕ) : Session Unit :=
  (do
    let _ ← save subscriptionId token releasing
    pure ()).catching fun
  | .lostClaim => pure ()
  | e => .fail e

/-- `except GatewayError`: the claim is given back; every failure is raised. -/
def raising {α : Type} (subscriptionId : String) (token : ℕ) : Failure → Session α
  | .trouble t => do
      release subscriptionId token
      .fail (.trouble t)
  | .idempotencyConflict => do
      release subscriptionId token
      .fail .idempotencyConflict
  | e => .fail e

def finish (row : SubscriptionRefund) (token : ℕ) (refunded : ℤ) (noteId : String) (owed : ℤ)
    (reason refundId : String) (owedAnyway : Bool) : Session Refund := do
  let row ← save row.subscriptionId token fun r =>
    { r with
      state := if 0 < owed ∨ owedAnyway = true then .owed else .done
      refunded := refunded
      creditNoteId := noteId
      refundId := refundId
      owed := owed
      reason := reason
      leaseUntil := 0
      claimToken := none }
  pure (outcome row)

/-! ## 2. Calls to the provider -/

def discardPendingItems (customerId subscriptionId : String) : Session Unit := do
  if customerId = "" ∨ subscriptionId = "" then pure ()
  else orFail (← perform (.discardPendingItems customerId subscriptionId))

def readBasis (subscriptionId invoiceId : String) : Session RefundBasis := do
  if subscriptionId = "" then .fail (.trouble (.transient "No subscription to refund"))
  else orFail (← perform (.refundBasis subscriptionId invoiceId))

def planRefund (subscriptionId : String) (amountCents : ℤ) (key invoiceId : String) : Session RefundPlan := do
  if key = "" ∨ invoiceId = "" then
    .fail (.trouble (.transient "A refund needs a refund key and an invoice"))
  else orFail (← perform (.refundPlan subscriptionId amountCents key invoiceId))

/-- `issue_refund`: a note found is the refund, and else one is made. -/
def issueRefund (subscriptionId : String) (sendCents : ℤ) (key invoiceId : String) (attempt : ℕ) :
    Session IssuedRefund := do
  if sendCents ≤ 0 ∨ key = "" ∨ invoiceId = "" then
    .fail (.trouble (.transient "Nothing to refund, or no key or invoice"))
  else
    match ← orFail (← perform (.findCreditNote subscriptionId invoiceId key)) with
    | some note => pure ⟨note.id, note.refundId⟩
    | none => orFail (← perform (.createCreditNote subscriptionId sendCents ⟨key, attempt⟩ invoiceId))

/-- The fields written when the row's last key was found in use. -/
def nextAttempt (row r : SubscriptionRefund) : SubscriptionRefund := { r with attempt := row.attempt + 1 }

/-- `_issue`: on a key conflict once more, under a new key. -/
def issue (row : SubscriptionRefund) (token : ℕ) : Session IssuedRefund :=
  (issueRefund row.subscriptionId row.toRefund (refundKey row.subscriptionId) row.invoiceId
    row.attempt).catching fun
  | .idempotencyConflict => do
      let row ← save row.subscriptionId token (nextAttempt row)
      issueRefund row.subscriptionId row.toRefund (refundKey row.subscriptionId) row.invoiceId row.attempt
  | e => .fail e

/-! ## 3. The request -/

/-- The fields of the invoice that is frozen. -/
def freezing (basis : RefundBasis) (r : SubscriptionRefund) : SubscriptionRefund :=
  { r with invoiceId := basis.invoiceId, currency := basis.currency }

/-- The invoice frozen with the request. -/
def freezeInvoice (row : SubscriptionRefund) (token : ℕ) : Session Unit := do
  if row.invoiceId = "" ∧ row.amount < 0 then
    let basis ← readBasis row.subscriptionId ""
    if basis.invoiceId = "" then pure ()
    else
      let _ ← save row.subscriptionId token (freezing basis)
      pure ()
  else pure ()

/-- The fields written just before a cancellation. -/
def stamping (now : ℚ) (r : SubscriptionRefund) : SubscriptionRefund :=
  releasing { r with cancelAttemptedAt := now }

/-- The cancellation about to be attempted, and the claim given back. -/
def stampAttempt (subscriptionId : String) (token : ℕ) : Session Unit := do
  let now ← perform .clock
  let _ ← save subscriptionId token (stamping now)
  pure ()

/-- The handlers of `request_withdrawal`: a refusal for good leaves the request standing. -/
def giveUp (subscriptionId : String) (token : ℕ) : Failure → Session Unit
  | .trouble (.permanent _) => stampAttempt subscriptionId token
  | e => raising subscriptionId token e

def requestWithdrawal (customerId subscriptionId : String) (contractStart requestedAt : ℚ) :
    Session RefundState := do
  match ← claim customerId subscriptionId contractStart requestedAt true with
  | .absent => .fail .accountGone -- only with `create` off
  | .final row => pure row.state
  | .taken row token =>
    (do
      freezeInvoice row token
      stampAttempt subscriptionId token).catching (giveUp subscriptionId token)
    pure .pending

/-! ## 4. The settlement -/

/-- The fields written when the row is priced. -/
def pricing (row : SubscriptionRefund) (basis : RefundBasis) (r : SubscriptionRefund) :
    SubscriptionRefund :=
  { r with
    amount := basisAmount row basis
    invoiceId := basis.invoiceId
    currency := basis.currency }

/-- The row priced, at the first computation; a problem with the basis finishes it as owed. -/
def price (contractStart : ℚ) (row : SubscriptionRefund) (token : ℕ) :
    Body (Refund ⊕ SubscriptionRefund) := do
  if row.amount < 0 then
    let start := if row.contractStartedAt = 0 then contractStart else row.contractStartedAt
    if withdrawalWindowOpen start row.requestedAt = false then .fail (.notEligible, row)
    else
      let basis ← seeing row (readBasis row.subscriptionId row.invoiceId)
      if basis.endedAt = 0 then
        .fail (.trouble (.transient (row.subscriptionId ++ " has not ended at Stripe yet")), row)
      else
        let priced ← seeing row (save row.subscriptionId token (pricing row basis))
        if (problemAt row basis).1 = "" then pure (.inr priced)
        else
          let refund ← seeing priced
            (finish priced token 0 "" priced.amount (problemAt row basis).1 "" true)
          pure (.inl refund)
  else pure (.inr row)

def readPlan (row : SubscriptionRefund) : Session RefundPlan :=
  if row.amount = 0 then pure { sendCents := 0 }
  else planRefund row.subscriptionId row.amount (refundKey row.subscriptionId) row.invoiceId

/-- The fields written when the amount is split. -/
def splitting (plan : RefundPlan) (r : SubscriptionRefund) : SubscriptionRefund :=
  { r with toRefund := plan.sendCents, owed := plan.owedCents, reason := plan.reason }

/-- The amount split; a note found finishes the row. -/
def splitRow (row : SubscriptionRefund) (token : ℕ) : Body (Refund ⊕ SubscriptionRefund) := do
  if row.toRefund < 0 then
    let plan ← seeing row (readPlan row)
    if plan.existingNoteId ≠ "" then
      let refund ← seeing row (finish row token plan.existingCents plan.existingNoteId
        plan.owedCents plan.reason plan.existingRefundId false)
      pure (.inl refund)
    else
      let row ← seeing row (save row.subscriptionId token (splitting plan))
      pure (.inr row)
  else pure (.inr row)

/-- What is to be sent, sent. -/
def sendRefund (row : SubscriptionRefund) (token : ℕ) : Session IssuedRefund :=
  if 0 < row.toRefund then issue row token else pure ⟨"", ""⟩

/-- The `try` of `settle`: finished already, or the row with what was issued. -/
def settleBody (customerId : String) (contractStart : ℚ) (row : SubscriptionRefund) (token : ℕ) :
    Body (Refund ⊕ SubscriptionRefund × IssuedRefund) := do
  seeing row (discardPendingItems customerId row.subscriptionId)
  match ← price contractStart row token with
  | .inl refund => pure (.inl refund)
  | .inr row =>
    match ← splitRow row token with
    | .inl refund => pure (.inl refund)
    | .inr row =>
      let issued ← seeing row (sendRefund row token)
      pure (.inr (row, issued))

def refusalReason (row : SubscriptionRefund) (message : String) : String :=
  String.ofList (message.toList.take 500) ++
    if row.amount < 0 then " (amount unknown: see the subscription's last invoice)" else ""

/-- The handlers of `settle`. -/
def handle (token : ℕ) : Failure × SubscriptionRefund → Session Refund
  | (.trouble (.permanent message), row) =>
    finish row token 0 "" (if 0 ≤ row.toRefund then max 0 row.toRefund + row.owed else max 0 row.amount)
      (refusalReason row message) "" true
  | (.notEligible, row) => do
      perform (.forget row.subscriptionId token)
      .fail .notEligible
  | (e, row) => raising row.subscriptionId token e

def settle (customerId subscriptionId : String) (contractStart requestedAt : ℚ) : Session Refund := do
  match ← claim customerId subscriptionId contractStart requestedAt true with
  | .absent => .fail .accountGone -- only with `create` off
  | .final row => pure (outcome row)
  | .taken row token =>
    let settled ← (settleBody customerId contractStart row token).catching fun e => do
      let refund ← handle token e
      pure (.inl refund)
    match settled with
    | .inl refund => pure refund
    | .inr (row, issued) =>
      finish row token (max 0 row.toRefund) issued.creditNoteId row.owed row.reason issued.refundId false

/-! ## 5. The other runs -/

def cancelSubscription (subscriptionId customerId : String) : Session Unit := do
  if subscriptionId = "" then .fail (.trouble (.transient "No subscription to cancel"))
  else orFail (← perform (.cancelSubscription subscriptionId customerId))

/-- One pending row completed; one that is no longer eligible is left. -/
def finishRow (customerId subscriptionId : String) (contractStart requestedAt : ℚ) :
    Session (Option Refund) :=
  (do
    let _ ← requestWithdrawal customerId subscriptionId contractStart requestedAt
    cancelSubscription subscriptionId customerId
    let refund ← settle customerId subscriptionId contractStart requestedAt
    pure (some refund)).catching fun
  | .notEligible => pure none
  | e => .fail e

def finishRows (customerId : String) : List (String × ℚ × ℚ) → Session (List Refund)
  | [] => pure []
  | (subscriptionId, contractStart, requestedAt) :: rows => do
      let refund ← finishRow customerId subscriptionId contractStart requestedAt
      let refunds ← finishRows customerId rows
      pure (refund.toList ++ refunds)

def finishPending (customerId skip : String) : Session (List Refund) := do
  if customerId = "" then pure []
  else finishRows customerId (← perform (.pendingRows customerId skip))

/-- The note looked for, of a row that may have been sent: the state that it leaves. -/
def resolveSent (row : SubscriptionRefund) (token : ℕ) : Session (Option RefundState) := do
  if 0 < row.toRefund then
    let plan ← planRefund row.subscriptionId row.amount (refundKey row.subscriptionId) row.invoiceId
    if plan.existingNoteId ≠ "" then
      let _ ← finish row token plan.existingCents plan.existingNoteId plan.owedCents plan.reason
        plan.existingRefundId false
      let found ← perform (.readRow row.subscriptionId)
      pure (some ((found.map (·.state)).getD .pending))
    else pure none
  else pure none

def resolvePending (subscriptionId : String) : Session (Option RefundState) := do
  match ← perform (.readRow subscriptionId) with
  | none => pure none
  | some found =>
    match ← claim found.customerId subscriptionId found.contractStartedAt found.requestedAt
      false with
    | .absent => pure none
    | .final row => pure (some row.state)
    | .taken row token =>
      let state ← (resolveSent row token).catching (raising subscriptionId token)
      match state with
      | some state => pure (some state)
      | none => do
          release subscriptionId token
          pure (some .pending)

def recordRefundFailure (refundId : String) (amount : ℤ) (reason : String) : Session FailureRecord := do
  if refundId = "" then pure .unmatched
  else
    match ← perform (.matchRefund refundId) with
    | some answer => pure answer
    | none => perform (.recordFailure refundId amount reason)

/-! ## 6. Tasks -/

inductive Task where
  | requestWithdrawal (customerId subscriptionId : String) (contractStart requestedAt : ℚ)
  | settle (customerId subscriptionId : String) (contractStart requestedAt : ℚ)
  | finishPending (customerId skip : String)
  | resolvePending (subscriptionId : String)
  | recordRefundFailure (refundId : String) (amount : ℤ) (reason : String)
  | voidNote (key : IdempotencyKey)

/-- What a task runs; its result is for its caller. -/
def Task.program : Task → Session Unit
  | .requestWithdrawal customerId subscriptionId contractStart requestedAt => do
      let _ ← Withdrawal.requestWithdrawal customerId subscriptionId contractStart requestedAt
      pure ()
  | .settle customerId subscriptionId contractStart requestedAt => do
      let _ ← Withdrawal.settle customerId subscriptionId contractStart requestedAt
      pure ()
  | .finishPending customerId skip => do
      let _ ← Withdrawal.finishPending customerId skip
      pure ()
  | .resolvePending subscriptionId => do
      let _ ← Withdrawal.resolvePending subscriptionId
      pure ()
  | .recordRefundFailure refundId amount reason => do
      let _ ← Withdrawal.recordRefundFailure refundId amount reason
      pure ()
  | .voidNote key => perform (.voidNote key)

end TraxJourney.Billing.Withdrawal
