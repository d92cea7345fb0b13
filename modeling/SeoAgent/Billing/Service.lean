import SeoAgent.Billing.Credit
import SeoAgent.Verified.Requests

/-!
# Paying

Starting a trial, the checkout, the return from the gateway and the recheck
(`app/billing/service.py`, `app/billing/store.py`, `app/billing/zarinpal.py`), over one
repository of subscriptions, payments and the gateway's ids of payments. A
transaction is one commit of its writes; what is read inside it is read before.

The gateway is outside. It keeps which payments it has answered as paid, which
no process reads.
-/

namespace SeoAgent.Billing

open SeoAgent.Verified Service

/-! ## The repository and the gateway -/

inductive BillingType
  | subscription
  | payment
  | paymentAuthority
  deriving DecidableEq, Repr

/-- What is stored under an aggregate type; under an authority, the id of a payment. -/
@[reducible] def BillingType.Payload : BillingType → Type
  | subscription => Subscription Int
  | payment => Payment Int
  | paymentAuthority => String

instance BillingType.decidableEqPayload : (t : BillingType) → DecidableEq t.Payload
  | subscription => inferInstanceAs (DecidableEq (Subscription Int))
  | payment => inferInstanceAs (DecidableEq (Payment Int))
  | paymentAuthority => inferInstanceAs (DecidableEq String)

inductive BillingExc
  | persistenceConflictError
  | persistenceNotFoundError
  | databaseError (message : String)
  | gatewayError (message : String)
  | arithmeticError (error : ArithmeticError)
  | paymentUnavailable (message : String)
  /-- A payment is settled with no gateway set up. -/
  | attributeError
  deriving DecidableEq, Repr

def BillingExc.refused (_ : BillingType) (_ : String) : Repository.Refusal → BillingExc
  | .notFound => persistenceNotFoundError
  | _ => persistenceConflictError

@[reducible] def billing : Backend where
  T := BillingType
  Payload := BillingType.Payload
  Exn := BillingExc
  refused := BillingExc.refused
  broken := .databaseError

/-- The gateway's answer to a verify. -/
structure VerifiedPayment where
  paid : Bool
  refId : Option String
  cardPan : Option String
  code : Option Int
  deriving DecidableEq, Repr

/-- 100: paid now. 101: paid, and verified by an earlier call. -/
def paidCodes : List Int := [100, 101]

/-- `ZarinpalGateway.verify`, from what the gateway answers. -/
def VerifiedPayment.ofAnswer (code : Option Int) (refId cardPan : Option String) :
    VerifiedPayment :=
  if code.any (· ∈ paidCodes) then { paid := true, refId, cardPan, code }
  else { paid := false, refId := none, cardPan := none, code }

inductive GatewayOp
  | request (amount : Nat) (mobile : Option String) (orderId : String)
  | verify (amount : Nat) (authority : String)

@[reducible] def GatewayOp.Res : GatewayOp → Type
  | request _ _ _ => String
  | verify _ _ => VerifiedPayment

/-- What the gateway answers, or that it could not be reached. -/
inductive GatewayAnswer
  | authority (authority : String)
  | verified (code : Option Int) (refId cardPan : Option String)
  | failed (message : String)

/-- The authorities the gateway has answered as paid. -/
abbrev PaidAuthorities : Type := List String

def gatewayExec (answered : PaidAuthorities) : (o : GatewayOp) → GatewayAnswer →
    Option (Except BillingExc o.Res × PaidAuthorities)
  | .request _ _ _, .authority a => some (.ok a, answered)
  | .verify _ a, .verified code refId cardPan =>
      let v := VerifiedPayment.ofAnswer code refId cardPan
      some (.ok v, if v.paid then a :: answered else answered)
  | _, .failed m => some (.error (.gatewayError m), answered)
  | _, _ => none

@[reducible] def gateway : Outside BillingExc where
  Op := GatewayOp
  Res := GatewayOp.Res
  State := PaidAuthorities
  Choice := GatewayAnswer
  Env := Empty
  exec := gatewayExec
  change := fun _ e => nomatch e

abbrev BillProc (α : Type) : Type := Proc billing gateway α

abbrev BillPast : Type := Past billing gateway

/-! The operations of a process, at this repository and gateway. -/

abbrev find (t : BillingType) (i : String) : BillProc (Option (t.Payload × Nat)) :=
  Service.find (B := billing) (X := gateway) t i

abbrev list (t : BillingType) : BillProc (Listing (t.Payload × Nat)) :=
  Service.list (B := billing) (X := gateway) t

abbrev commit (ws : List (Repository.Write BillingType BillingType.Payload)) :
    BillProc Unit :=
  Service.commit (B := billing) (X := gateway) ws

abbrev ext (x : GatewayOp) : BillProc x.Res :=
  Service.ext (B := billing) (X := gateway) x

/-! ## Stores -/

/-- A write over the version that was read, or of a first version. -/
def saveWrite (t : BillingType) (i : String) (v : t.Payload) (expectedVersion : Nat) :
    Repository.Write BillingType BillingType.Payload :=
  if expectedVersion = 0 then .create t i v else .replace t i v expectedVersion

/-- `SubscriptionStore.save`, as a write of a transaction. -/
def saveSubscription (s : Subscription Int) (expectedVersion : Nat) :
    Repository.Write BillingType BillingType.Payload :=
  saveWrite .subscription s.tenantId s expectedVersion

/-- `PaymentStore.save`, as a write of a transaction. -/
def savePayment (payment : Payment Int) (expectedVersion : Nat) :
    Repository.Write BillingType BillingType.Payload :=
  saveWrite .payment payment.paymentId payment expectedVersion

/-- `PaymentStore.by_authority`. -/
def byAuthority (authority : String) : BillProc (Option (Payment Int × Nat)) := do
  match ← find .paymentAuthority authority with
  | none => pure none
  | some (paymentId, _) => find .payment paymentId

/-- `PaymentStore.for_tenant`: the payments the page of a tenant shows. Which ones and
in which order is a parameter, because it is by when a record was first written, which
nothing else here reads. -/
def forTenant (tenantId : String) (shown : List String) : BillProc (List (Payment Int)) := do
  let payments ← list .payment
  pure ((shown.filterMap fun i => (payments.entries.lookup i).map Prod.fst).filter
    fun payment => payment.tenantId = tenantId)

/-! ## Settings -/

/-- How the service is set up. -/
structure BillingSettings where
  prices : Prices
  gateway : Bool
  callbackUrl : Bool

namespace BillingSettings

def plans (settings : BillingSettings) : PlanId → Plan := catalog settings.prices

def canTakePayments (settings : BillingSettings) : Bool :=
  settings.gateway && settings.callbackUrl

end BillingSettings

/-- Twenty minutes. -/
def recheckAfter : Int := 1200000000

def creditAttempts : Nat := 3

/-- The gateway's answer for a payment the customer did not complete. -/
def notPaidCodes : List Int := [-51]

/-- Two days. -/
def giveUpAfter : Int := 2 * TimeArith.dayLength

/-- An arithmetic outcome as a step of a process. -/
def computed {α : Type} (x : Except ArithmeticError α) : BillProc α :=
  Prog.ofExcept (x.mapError BillingExc.arithmeticError)

/-! ## Trials and checkouts -/

def startTrial (tenantId : String) : BillProc Unit := do
  let at_ ← now
  let trial ← computed (startedTrial tenantId at_)
  commit [saveSubscription trial 0]

/-- The payment could not be asked for. -/
def requestRefused (payment : Payment Int) : BillProc Unit := do
  let at_ ← now
  commit [savePayment { payment with
    status := .failed, failure := some "request_refused", settledAt := some at_ } 1]
  throw (.paymentUnavailable
    "The payment gateway did not answer. Try again in a few minutes.")

/-- `except GatewayError`: no answer. -/
def unlessGatewayError {α : Type} (p : BillProc α) : BillProc (Option α) :=
  tryCatch (do
      let answer ← p
      pure (some answer))
    fun
      | .gatewayError _ => pure none
      | e => throw e

def checkout (settings : BillingSettings) (tenantId : String) (planId : PlanId)
    (mobile : Option String) : BillProc Unit := do
  if !settings.canTakePayments then
    throw (.paymentUnavailable "Online payment is not available yet.")
  let plan := settings.plans planId
  if plan.planId = .trial then
    throw (.paymentUnavailable "The trial is not for sale.")
  match ← find .subscription tenantId with
  | none => throw (.paymentUnavailable "This account has no plan to pay for.")
  | some _ =>
      let _ ← now
      let paymentId ← newId
      let at_ ← now
      let payment : Payment Int :=
        { paymentId, tenantId, plan := plan.planId, amount := plan.price, createdAt := at_ }
      commit [savePayment payment 0]
      let asked ← unlessGatewayError (ext (.request payment.amount mobile paymentId))
      match asked with
      | none => requestRefused payment
      | some authority =>
          commit [savePayment { payment with authority := some authority } 1,
            .create .paymentAuthority authority paymentId]

/-! ## Settling -/

/-- `except PersistenceConflictError`. -/
def onConflict {α : Type} (handler : BillProc α) : BillingExc → BillProc α
  | .persistenceConflictError => handler
  | e => throw e

/-- The stored payment, without its version. -/
def stored (paymentId : String) : BillProc (Option (Payment Int)) := do
  let found ← find .payment paymentId
  pure (found.map Prod.fst)

/-- Saves a payment over the version that was read; when another write was there
first, the payment is what that one made of it. -/
def saveOver (payment : Payment Int) (version : Nat) : BillProc (Option (Payment Int)) :=
  tryCatch (do
      commit [savePayment payment version]
      pure (some payment))
    (onConflict (stored payment.paymentId))

/-- `_close`. -/
def close (payment : Payment Int) (version : Nat) (failure : String) :
    BillProc (Option (Payment Int)) := do
  let at_ ← now
  saveOver { payment with
    status := .failed, failure := some failure, settledAt := some at_ } version

/-- Keeps the payment pending, marked as asked for. -/
def markTried (payment : Payment Int) (version : Nat) : BillProc (Option (Payment Int)) :=
  if payment.verifyTried then pure (some payment)
  else saveOver { payment with verifyTried := true } version

/-- The payment as paid. -/
def asPaid (payment : Payment Int) (verified : VerifiedPayment) (at_ : Int) : Payment Int :=
  { payment with
    status := .paid, refId := verified.refId, cardPan := verified.cardPan
    settledAt := some at_ }

/-- The transaction of `_credit`: the payment and its month land together. -/
def creditTogether (settings : BillingSettings) (payment : Payment Int) (version : Nat)
    (verified : VerifiedPayment) (at_ : Int) : BillProc Unit := do
  let current ← find .subscription payment.tenantId
  let renewed ← computed (renewal settings.plans payment (current.map Prod.fst) at_)
  commit [savePayment (asPaid payment verified at_) version,
    saveSubscription renewed ((current.map Prod.snd).getD 0)]

/-- `_credit`, with the attempts that are left. -/
def credit (settings : BillingSettings) (verified : VerifiedPayment) :
    Nat → Payment Int → Nat → BillProc (Option (Payment Int))
  | 0, payment, _ => pure (some payment)
  | attempts + 1, payment, version => do
      let at_ ← now
      let conflict ← tryCatch (do
          creditTogether settings payment version verified at_
          pure none)
        (onConflict do
          let latest ← find .payment payment.paymentId
          pure (some latest))
      match conflict with
      | none => pure (some (asPaid payment verified at_))
      | some none => pure none
      | some (some (latest, version)) =>
          if latest.status ≠ .pending then pure (some latest)
          else credit settings verified attempts latest version

/-- The text of a code in a failure. -/
def codeText : Option Int → String
  | none => "None"
  | some code => toString code

/-- What the gateway's answer makes of a payment. -/
def answered (settings : BillingSettings) (payment : Payment Int) (version : Nat)
    (verified : VerifiedPayment) : BillProc (Option (Payment Int)) :=
  if verified.paid then credit settings verified creditAttempts payment version
  else if verified.code.any (· ∈ notPaidCodes) then
    close payment version s!"not_paid:{codeText verified.code}"
  else do
    let at_ ← now
    if giveUpAfter ≤ at_ - payment.createdAt then
      close payment version s!"not_paid:{codeText verified.code}"
    else markTried payment version

/-- `_verify`. -/
def verify (settings : BillingSettings) (payment : Payment Int) (version : Nat) :
    BillProc (Option (Payment Int)) := do
  if !settings.gateway then throw .attributeError
  let verified ← unlessGatewayError
    (ext (.verify payment.amount (payment.authority.getD "")))
  match verified with
  | none => markTried payment version
  | some verified => answered settings payment version verified

/-- The customer is back from the gateway. -/
def settle (settings : BillingSettings) (authority status : String) :
    BillProc (Option (Payment Int)) := do
  match ← byAuthority authority with
  | none => pure none
  | some (payment, version) =>
      if payment.status ≠ .pending then pure (some payment)
      else if status ≠ "OK" then close payment version "cancelled"
      else verify settings payment version

/-- One payment of a recheck. -/
def recheckOne (settings : BillingSettings) (at_ : Int) (payment : Payment Int) :
    BillProc Unit :=
  if payment.status ≠ .pending ∨ payment.authority.getD "" = "" then pure ()
  else if payment.verifyTried ∨ recheckAfter ≤ at_ - payment.createdAt then do
    match ← find .payment payment.paymentId with
    | none => pure ()
    | some (current, version) =>
        if current.status = .pending then (verify settings current version).void
        else pure ()
  else pure ()

def recheckEach (settings : BillingSettings) (at_ : Int) : List (Payment Int) → BillProc Unit
  | [] => pure ()
  | payment :: payments => do
      recheckOne settings at_ payment
      recheckEach settings at_ payments

/-- Settles the pending payments of a tenant that can be settled now. -/
def recheck (settings : BillingSettings) (tenantId : String) (shown : List String) :
    BillProc Unit :=
  if !settings.gateway then pure ()
  else do
    let at_ ← now
    let payments ← forTenant tenantId shown
    recheckEach settings at_ payments

/-! ## The machine -/

inductive BillingKind
  | startTrial (tenantId : String)
  | checkout (tenantId : String) (planId : PlanId) (mobile : Option String)
  | settle (authority status : String)
  | recheck (tenantId : String) (shown : List String)

def billingBody (settings : BillingSettings) : BillingKind → BillProc Unit
  | .startTrial tenantId => Billing.startTrial tenantId
  | .checkout tenantId planId mobile => Billing.checkout settings tenantId planId mobile
  | .settle authority status => (Billing.settle settings authority status).void
  | .recheck tenantId shown => Billing.recheck settings tenantId shown

/-- Any number of requests at once. -/
@[reducible] def billingProcesses (settings : BillingSettings) : Processes billing gateway where
  Kind := BillingKind
  body := billingBody settings
  admits := fun _ _ => true

@[reducible] def billingMachine (settings : BillingSettings) :
    Machine (iface billing gateway) :=
  Service.machine (billingProcesses settings)

/-- Nothing stored, nothing answered and no process. -/
def noBilling : World billing gateway := ⟨Repository.empty, []⟩

end SeoAgent.Billing
