/-
  File:      Billing/Events.lean
  Subject:   The translation of a provider event into subscription state:
             `subscription_update_from_event` from `src/billing/webhook_events.py`, with the plan of
             a price from there and from `plans.py`.

  * `Event`, `EventObject` -- a webhook payload, with the fields that are read: a text that is
    missing is `""`, a number that is missing or no number is `0`, and ids that come as an expanded
    object are read out of it (`_customer_id`, `_subscription_id`).

  The price ids of a deployment (`STRIPE_PRICE_*`) are a parameter. Times are in seconds.
-/
import Mathlib.Algebra.Order.Ring.Rat
import TraxJourney.Lib.FloatText

namespace TraxJourney.Billing

/-! ## 1. Plans -/

inductive Plan where
  | free
  | tier1
  | tier2
  | tier3
deriving DecidableEq

def paidPlans : List Plan := [.tier1, .tier2, .tier3]

def Plan.name : Plan → String
  | .free => "free"
  | .tier1 => "tier_1"
  | .tier2 => "tier_2"
  | .tier3 => "tier_3"

def priceLookupKey (plan : Plan) : String := "traxjourney_" ++ plan.name ++ "_monthly_eur"

def planForLookupKey (key : String) : Option Plan := paidPlans.find? fun p => key == priceLookupKey p

def paidPlanNamed (text : String) : Option Plan := paidPlans.find? fun p => text == p.name

/-- `metadata.plan` without its blanks, where it is a paid plan. -/
def metadataPlanNamed (text : String) : Option Plan := paidPlanNamed (String.ofList (Lib.strip text.toList))

/-- A price as a subscription's item carries it. -/
structure Price where
  id : String
  lookupKey : String := ""
  metadataPlan : String := ""

variable (priceIdForPlan : Plan → String)

/-- `plan_for_price`: a price that is not known grants the entry tier. -/
def planForPrice (priceId : String) : Plan :=
  if priceId = "" then .free
  else (paidPlans.find? fun p => priceId == priceIdForPlan p).getD .tier1

def planForPriceObject : Option Price → Plan
  | none => .free
  | some price =>
    ((planForLookupKey price.lookupKey).or (metadataPlanNamed price.metadataPlan)).getD
      (planForPrice priceIdForPlan price.id)

/-! ## 2. Events -/

inductive EventType where
  | checkoutSessionCompleted
  | subscriptionCreated
  | subscriptionUpdated
  | subscriptionDeleted
  | invoicePaymentFailed
  | other

structure Item where
  price : Option Price := none
  legacyPlan : Option Price := none
  currentPeriodEnd : ℚ := 0

/-- `event["data"]["object"]`: a checkout session or a subscription. -/
structure EventObject where
  id : String := ""
  mode : String := ""
  status : String := ""
  customer : String := ""
  subscription : String := ""
  termsOfService : String := ""
  metadataUserInfoId : Option ℤ := none
  metadataPlan : String := ""
  metadataTermsVersion : String := ""
  clientReferenceId : Option ℤ := none
  items : List Item := []
  currentPeriodEnd : ℚ := 0
  cancelAtPeriodEnd : Bool := false
  startDate : ℚ := 0

structure Event where
  id : String
  type : EventType
  created : ℚ
  object : EventObject

structure SubscriptionUpdate where
  eventId : String
  eventAt : ℚ
  customerId : String
  subscriptionId : String
  plan : Plan
  status : String
  currentPeriodEnd : ℚ
  cancelAtPeriodEnd : Bool
  userInfoId : Option ℤ := none
  paidSince : ℚ := 0
  termsAcceptedAt : ℚ := 0
  termsVersion : String := ""
deriving DecidableEq

/-- `_price_object`: the first item's price that has an id, or its older `plan`. -/
def priceObject : List Item → Option Price
  | [] => none
  | item :: items =>
    match item.price.filter (·.id != ""), item.legacyPlan.filter (·.id != "") with
    | some price, _ => some price
    | none, some legacyPlan => some legacyPlan
    | none, none => priceObject items

/-- `_period_end`: on the subscription, or on its items. -/
def periodEnd (obj : EventObject) : ℚ :=
  if obj.currentPeriodEnd ≠ 0 then obj.currentPeriodEnd
  else ((obj.items.map (·.currentPeriodEnd)).max?).getD 0

/-- `_paid_since`: the start of a subscription that is `active`. -/
def paidSince (obj : EventObject) : ℚ := if obj.status = "active" then obj.startDate else 0

def termsConsent (obj : EventObject) (eventAt : ℚ) : ℚ × String :=
  if obj.termsOfService = "accepted" then (eventAt, obj.metadataTermsVersion) else (0, "")

def planFromMetadata (obj : EventObject) : Plan := (metadataPlanNamed obj.metadataPlan).getD .tier1

def userInfoId (obj : EventObject) : Option ℤ :=
  (obj.metadataUserInfoId.filter (· != 0)).or obj.clientReferenceId

def subscriptionUpdateFromEvent (event : Event) : Option SubscriptionUpdate :=
  let obj := event.object
  match event.type with
  | .other => none
  | .invoicePaymentFailed => none
  | .checkoutSessionCompleted =>
    if obj.mode ≠ "" ∧ obj.mode ≠ "subscription" then none
    else some
      { eventId := event.id
        eventAt := event.created
        customerId := obj.customer
        subscriptionId := obj.subscription
        plan := planFromMetadata obj
        status := "active"
        currentPeriodEnd := 0
        cancelAtPeriodEnd := false
        userInfoId := userInfoId obj
        termsAcceptedAt := (termsConsent obj event.created).1
        termsVersion := (termsConsent obj event.created).2 }
  | .subscriptionDeleted => some
      { eventId := event.id
        eventAt := event.created
        customerId := obj.customer
        subscriptionId := obj.id
        plan := .free
        status := "canceled"
        currentPeriodEnd := periodEnd obj
        cancelAtPeriodEnd := obj.cancelAtPeriodEnd
        userInfoId := userInfoId obj }
  | .subscriptionCreated | .subscriptionUpdated => some
      { eventId := event.id
        eventAt := event.created
        customerId := obj.customer
        subscriptionId := obj.id
        plan := planForPriceObject priceIdForPlan (priceObject obj.items)
        status := obj.status
        currentPeriodEnd := periodEnd obj
        cancelAtPeriodEnd := obj.cancelAtPeriodEnd
        userInfoId := userInfoId obj
        paidSince := paidSince obj }

variable {priceIdForPlan}

/-- **Only an `active` subscription is shown as paid for**, whatever the event. -/
theorem SubscriptionUpdate.active_of_paid {event : Event} {u : SubscriptionUpdate}
    (h : subscriptionUpdateFromEvent priceIdForPlan event = some u) (hpaid : u.paidSince ≠ 0) :
    u.status = "active" := by
  unfold subscriptionUpdateFromEvent at h
  dsimp only at h
  split at h
  · cases h
  · cases h
  · split at h
    · cases h
    · cases h
      rfl
  · cases h
    exact absurd rfl hpaid
  all_goals
    cases h
    by_contra hne
    exact hpaid (if_neg hne)

end TraxJourney.Billing
