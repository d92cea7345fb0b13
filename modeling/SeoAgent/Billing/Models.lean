import SeoAgent.Billing.Plans

/-!
# Subscriptions and payments

A tenant's subscription, and the payments that extend it (`app/billing/models.py`),
over a type of times. A payment's masked card number is shown to the customer and
read by nothing here; it is kept because the write that marks a payment paid sets it.
-/

namespace SeoAgent.Billing

open SeoAgent.Verified

/-- What happened to a subscription: a trial started, or a payment came in. -/
structure SubscriptionEvent (τ : Type) where
  at_ : τ
  reason : String
  plan : PlanId
  endsAt : τ
  paymentId : Option String := none
  deriving DecidableEq, Repr

/-- Active until `endsAt`. -/
structure Subscription (τ : Type) where
  tenantId : String
  plan : PlanId
  startedAt : τ
  endsAt : τ
  history : List (SubscriptionEvent τ) := []
  deriving DecidableEq, Repr

inductive PaymentStatus
  | pending
  | paid
  | failed
  deriving DecidableEq, Repr

/-- One payment, with the price as it was when the customer pressed pay. -/
structure Payment (τ : Type) where
  paymentId : String
  tenantId : String
  plan : PlanId
  amount : Nat
  authority : Option String := none
  status : PaymentStatus := .pending
  refId : Option String := none
  cardPan : Option String := none
  failure : Option String := none
  verifyTried : Bool := false
  createdAt : τ
  settledAt : Option τ := none
  deriving DecidableEq, Repr

end SeoAgent.Billing
