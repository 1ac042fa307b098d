/-
  File:      Billing/Ledger.lean
  Subject:   The refund ledger and the provider, as the runs of `src/billing/withdrawal.py` see them:
             each transaction and each call to the provider is one operation.

  * `Request`, `CreditNote` -- what the provider keeps under an idempotency key, for good.

  A key `refund_key:attempt` is the pair of its parts. A call may fail before it does anything
  (`fails`), and an answer may be lost after the note was made (`executes … true`).
-/
import TraxJourney.Billing.Refunds
import TraxJourney.Lib.Table

namespace TraxJourney.Billing.Withdrawal

open Lib

/-! ## 1. The provider -/

/-- An error of the provider: one that says to try again, or a refusal for good. -/
inductive Trouble where
  | transient (message : String)
  | permanent (message : String)

/-- What a run can fail with. -/
inductive Failure where
  | trouble (t : Trouble)
  | idempotencyConflict
  | lostClaim
  | refundInProgress
  | accountGone
  | notEligible

structure IdempotencyKey where
  refundKey : String
  attempt : ℕ
deriving DecidableEq

structure CreditNote where
  id : String
  refundId : String := ""
  void : Bool := false

/-- A request to make a credit note, and what it came to. -/
structure Request where
  key : IdempotencyKey
  invoiceId : String
  amount : ℤ
  result : Except Trouble CreditNote

def Request.note (r : Request) : Option CreditNote :=
  match r.result with
  | .ok note => some note
  | .error _ => none

/-! ## 2. The store -/

structure Store where
  ledger : Table SubscriptionRefund SubscriptionRefund.subscriptionId
  requests : Table Request Request.key
  tokens : ℕ

def Store.row (s : Store) (subscriptionId : String) : Option SubscriptionRefund := s.ledger.get subscriptionId

/-- What a claim comes to, where it does not fail. -/
inductive Claimed where
  | absent
  | final (row : SubscriptionRefund)
  | taken (row : SubscriptionRefund) (token : ℕ)

def taking (row : SubscriptionRefund) (token : ℕ) (now : ℚ) : SubscriptionRefund :=
  { row with
    claimToken := some token
    leaseUntil := now + leaseSeconds
    version := row.version + 1 }

def Store.take (s : Store) (row : SubscriptionRefund) (now : ℚ) : Claimed × Store :=
  (.taken (taking row s.tokens now) s.tokens,
    { s with ledger := s.ledger.put (taking row s.tokens now), tokens := s.tokens + 1 })

def Store.claim (s : Store) (customerId subscriptionId : String) (contractStart requestedAt : ℚ)
    (create : Bool) (now : ℚ) (accountExists : Bool) : Except Failure Claimed × Store :=
  match s.row subscriptionId with
  | none =>
    if create = false then (.ok .absent, s)
    else if accountExists = false then (.error .accountGone, s)
    else
      let c := s.take
        { subscriptionId, customerId, contractStartedAt := contractStart, requestedAt,
          cancelAttemptedAt := requestedAt } now
      (.ok c.1, c.2)
  | some row =>
    if row.state.final then (.ok (.final row), s)
    else if row.leaseUntil > now then (.error .refundInProgress, s)
    else
      let c := s.take row now
      (.ok c.1, c.2)

/-- A row rewritten: every write counts up the version. -/
def stamped (fields : SubscriptionRefund → SubscriptionRefund) (row : SubscriptionRefund) :
    SubscriptionRefund :=
  { fields row with version := row.version + 1 }

/-- `_save`: the fields are written only while the token holds the claim. -/
def Store.save (s : Store) (subscriptionId : String) (token : ℕ)
    (fields : SubscriptionRefund → SubscriptionRefund) : Except Failure SubscriptionRefund × Store :=
  match s.row subscriptionId with
  | none => (.error .lostClaim, s)
  | some row =>
    if row.claimToken = some token then
      (.ok (stamped fields row), { s with ledger := s.ledger.put (stamped fields row) })
    else (.error .lostClaim, s)

def Store.forget (s : Store) (subscriptionId : String) (token : ℕ) : Store :=
  match s.row subscriptionId with
  | none => s
  | some row =>
    if row.claimToken = some token ∧ row.amount < 0 then
      { s with ledger := s.ledger.erase subscriptionId }
    else s

/-- `pending_refunds`, as `finish_pending` lists them. -/
def Store.pendingRows (s : Store) (customerId skip : String) : List (String × ℚ × ℚ) :=
  (s.ledger.rows.filter fun r =>
    r.customerId == customerId && r.state == .pending && r.subscriptionId != skip).map
    fun r => (r.subscriptionId, r.contractStartedAt, r.requestedAt)

/-- The notes that are not void and carry the refund key on the invoice. -/
def Store.notes (s : Store) (invoiceId key : String) : List FoundNote :=
  s.requests.rows.filterMap fun r =>
    r.note.bind fun note =>
      if r.invoiceId = invoiceId ∧ r.key.refundKey = key ∧ note.void = false then
        some ⟨note.id, note.refundId, r.amount⟩
      else none

/-- What a request that was executed answers. -/
def answer : Except Trouble CreditNote → Except Failure IssuedRefund
  | .ok note => .ok ⟨note.id, note.refundId⟩
  | .error t => .error (.trouble t)

/-- A request for a credit note, executed; under a key not seen before it comes to `result`. -/
def Store.create (s : Store) (key : IdempotencyKey) (invoiceId : String) (amount : ℤ)
    (result : Except Trouble CreditNote) : Except Failure IssuedRefund × Store :=
  match s.requests.get key with
  | none => (answer result, { s with requests := s.requests.put ⟨key, invoiceId, amount, result⟩ })
  | some r =>
    if r.invoiceId = invoiceId ∧ r.amount = amount then (answer r.result, s)
    else (.error .idempotencyConflict, s)

/-- What `record_refund_failure` finds. -/
inductive FailureRecord where
  | applied
  | recorded
  | unmatched

/-- The refund id matched: without a row, whether its failure was recorded before. -/
def Store.matchRefund (s : Store) (refundId : String) : Option FailureRecord :=
  if (s.ledger.first fun r => r.refundId == refundId).isSome then none
  else if (s.ledger.first fun r => r.failedRefundId == refundId).isSome then some .recorded
  else some .unmatched

/-- A row whose refund failed after it was made. -/
def failing (row : SubscriptionRefund) (refundId : String) (amount : ℤ) (reason : String) :
    SubscriptionRefund :=
  let failed := min (max 0 (if amount = 0 then row.refunded else amount)) row.refunded
  { row with
    owed := if row.state = .settled then failed else row.owed + failed
    refunded := row.refunded - failed
    state := .owed
    refundId := ""
    failedRefundId := refundId
    reason :=
      "the refund failed after it was made: " ++ (if reason = "" then "no reason given" else reason) ++
        if row.state = .settled then
          " (after " ++ toString row.owed ++ " cents were settled by hand)"
        else ""
    version := row.version + 1 }

def Store.recordFailure (s : Store) (refundId : String) (amount : ℤ) (reason : String) :
    FailureRecord × Store :=
  match s.ledger.first fun r => r.refundId == refundId with
  | none => (.recorded, s)
  | some row => (.applied, { s with ledger := s.ledger.put (failing row refundId amount reason) })

/-- A note made void at the provider. -/
def Store.voidNote (s : Store) (key : IdempotencyKey) : Store :=
  match s.requests.get key with
  | none => s
  | some r =>
    match r.result with
    | .error _ => s
    | .ok note => { s with requests := s.requests.put { r with result := .ok { note with void := true } } }

/-! ## 3. Operations -/

inductive Op where
  | clock
  | readRow (subscriptionId : String)
  | pendingRows (customerId skip : String)
  | claim (customerId subscriptionId : String) (contractStart requestedAt : ℚ) (create : Bool)
  | save (subscriptionId : String) (token : ℕ) (fields : SubscriptionRefund → SubscriptionRefund)
  | forget (subscriptionId : String) (token : ℕ)
  | cancelSubscription (subscriptionId customerId : String)
  | discardPendingItems (customerId subscriptionId : String)
  | refundBasis (subscriptionId invoiceId : String)
  | refundPlan (subscriptionId : String) (amountCents : ℤ) (key invoiceId : String)
  | findCreditNote (subscriptionId invoiceId key : String)
  | createCreditNote (subscriptionId : String) (amount : ℤ) (key : IdempotencyKey) (invoiceId : String)
  | matchRefund (refundId : String)
  | recordFailure (refundId : String) (amount : ℤ) (reason : String)
  | voidNote (key : IdempotencyKey)

def Ans : Op → Type
  | .clock => ℚ
  | .readRow _ => Option SubscriptionRefund
  | .pendingRows _ _ => List (String × ℚ × ℚ)
  | .claim _ _ _ _ _ => Except Failure Claimed
  | .save _ _ _ => Except Failure SubscriptionRefund
  | .forget _ _ => Unit
  | .cancelSubscription _ _ => Except Failure Unit
  | .discardPendingItems _ _ => Except Failure Unit
  | .refundBasis _ _ => Except Failure RefundBasis
  | .refundPlan _ _ _ _ => Except Failure RefundPlan
  | .findCreditNote _ _ _ => Except Failure (Option FoundNote)
  | .createCreditNote _ _ _ _ => Except Failure IssuedRefund
  | .matchRefund _ => Option FailureRecord
  | .recordFailure _ _ _ => FailureRecord
  | .voidNote _ => Unit

/-- The row for which the provider is asked; a cancellation is the subscription's, and asked by
    runs that hold no claim. -/
def Op.asks : Op → Option String
  | .discardPendingItems _ subscriptionId | .refundBasis subscriptionId _
  | .refundPlan subscriptionId _ _ _ | .findCreditNote subscriptionId _ _
  | .createCreditNote subscriptionId _ _ _ => some subscriptionId
  | _ => none

/-- What an operation leaves open. -/
inductive Label where
  | plain
  | instant (now : ℚ)
  | claims (now : ℚ) (accountExists : Bool)
  | fails (t : Trouble)
  | basis (b : RefundBasis)
  | reading (r : InvoiceReading)
  | executes (result : Except Trouble CreditNote) (lost : Bool)

/-- One operation. A label that does not fit it is no step. -/
def exe : (o : Op) → Label → Store → Option (Ans o × Store)
  | .clock, .instant now, s => some (now, s)
  | .readRow subscriptionId, .plain, s => some (s.row subscriptionId, s)
  | .pendingRows customerId skip, .plain, s => some (s.pendingRows customerId skip, s)
  | .claim customerId subscriptionId contractStart requestedAt create, .claims now accountExists, s =>
    some (s.claim customerId subscriptionId contractStart requestedAt create now accountExists)
  | .save subscriptionId token fields, .plain, s => some (s.save subscriptionId token fields)
  | .forget subscriptionId token, .plain, s => some ((), s.forget subscriptionId token)
  | .cancelSubscription _ _, .plain, s => some (.ok (), s)
  | .cancelSubscription _ _, .fails t, s => some (.error (.trouble t), s)
  | .discardPendingItems _ _, .plain, s => some (.ok (), s)
  | .discardPendingItems _ _, .fails t, s => some (.error (.trouble t), s)
  | .refundBasis _ _, .basis b, s => some (.ok b, s)
  | .refundBasis _ _, .fails t, s => some (.error (.trouble t), s)
  | .refundPlan _ amountCents key invoiceId, .reading r, s =>
    some (.ok (refundPlan amountCents (s.notes invoiceId key).head? r), s)
  | .refundPlan _ _ _ _, .fails t, s => some (.error (.trouble t), s)
  | .findCreditNote _ invoiceId key, .plain, s => some (.ok (s.notes invoiceId key).head?, s)
  | .findCreditNote _ _ _, .fails t, s => some (.error (.trouble t), s)
  | .createCreditNote _ amount key invoiceId, .executes result lost, s =>
    let made := s.create key invoiceId amount result
    some (if lost then .error (.trouble (.transient "no answer")) else made.1, made.2)
  | .createCreditNote _ _ _ _, .fails t, s => some (.error (.trouble t), s)
  | .matchRefund refundId, .plain, s => some (s.matchRefund refundId, s)
  | .recordFailure refundId amount reason, .plain, s => some (s.recordFailure refundId amount reason)
  | .voidNote key, .plain, s => some ((), s.voidNote key)
  | _, _, _ => none

end TraxJourney.Billing.Withdrawal
