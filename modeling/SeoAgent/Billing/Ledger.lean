import Mathlib.Data.List.Chain
import SeoAgent.Billing.Service

/-!
# Credit exactly once

`BillingCommit` says which transactions the requests make and what they were answered
before; `billingTerms_kept` proves it of every body once. From it alone follows what
is stored: the versions of a subscription after its trial are in correspondence with
the tenant's paid payments, and each ends where the rule puts it.

## Main results

* `billingTerms_kept` — every process keeps the terms.
* `credited_once` — in every reachable state each tenant's ledger is in order.
-/

namespace SeoAgent.Billing

open SeoAgent.Verified Machine
open Service (iface World Processes Terms Committing)

/-- What a process last learned about a record. -/
abbrev seen (t : BillingType) (i : String) (past : BillPast) : Option (t.Payload × Nat) :=
  Service.seen (B := billing) t i past

/-! ## Terms -/

/-- A process has last seen a payment pending. -/
def SeenPending (past : BillPast) (payment : Payment Int) (version : Nat) : Prop :=
  seen .payment payment.paymentId past = some (payment, version) ∧
    payment.status = .pending

/-- What makes a process close a payment: a return from the gateway that says anything
but `OK`, or an answer of the gateway that it was not paid, with the code that means
so or when it is time to give up. -/
inductive CloseReason (k : BillingKind) (payment : Payment Int) : BillPast → Prop
  | cancelled {past : BillPast} {authority status : String}
      {version : Nat} (kind : k = .settle authority status) (status_ne : status ≠ "OK")
      (found : ⟨.find .payment payment.paymentId, .ok (some (payment, version))⟩ ∈ past) :
      CloseReason k payment past
  | notPaid {past : BillPast} {amount : Nat} {verified : VerifiedPayment}
      (unpaid : verified.paid = false) (code : verified.code.any (· ∈ notPaidCodes)) :
      CloseReason k payment
        (⟨.ext (.verify amount (payment.authority.getD "")), .ok verified⟩ :: past)
  | gaveUp {past : BillPast} {amount : Nat} {verified : VerifiedPayment} {at_ : Int}
      (unpaid : verified.paid = false) (late : giveUpAfter ≤ at_ - payment.createdAt) :
      CloseReason k payment (⟨.now, .ok at_⟩ ::
        ⟨.ext (.verify amount (payment.authority.getD "")), .ok verified⟩ :: past)

/-- The transactions of the requests. -/
inductive BillingCommit (settings : BillingSettings) (k : BillingKind) (past : BillPast) :
    List (Repository.Write BillingType BillingType.Payload) → Prop
  | trial {trial : Subscription Int} {at_ : Int}
      (started : startedTrial trial.tenantId at_ = .ok trial) :
      BillingCommit settings k past [saveSubscription trial 0]
  | payment {payment : Payment Int} {s : Subscription Int} {version : Nat}
      (subscribed : seen .subscription payment.tenantId past = some (s, version))
      (pending : payment.status = .pending) (unlinked : payment.authority = none) :
      BillingCommit settings k past [savePayment payment 0]
  | linked {payment : Payment Int} {authority : String}
      (pending : SeenPending past payment 1) :
      BillingCommit settings k past
        [savePayment { payment with authority := some authority } 1,
          .create .paymentAuthority authority payment.paymentId]
  | refused {payment : Payment Int} {at_ : Int} (pending : SeenPending past payment 1)
      (unlinked : payment.authority = none) :
      BillingCommit settings k past [savePayment { payment with
        status := .failed, failure := some "request_refused", settledAt := some at_ } 1]
  | tried {payment : Payment Int} {version : Nat}
      (pending : SeenPending past payment version) :
      BillingCommit settings k past [savePayment { payment with verifyTried := true } version]
  | closed {payment : Payment Int} {version : Nat} {rest : BillPast} {failure : String}
      {at_ : Int} (pending : SeenPending past payment version)
      (clock : past = ⟨.now, .ok at_⟩ :: rest) (reason : CloseReason k payment rest) :
      BillingCommit settings k past [savePayment { payment with
        status := .failed, failure := some failure, settledAt := some at_ } version]
  | credited {payment : Payment Int} {version : Nat} {verified : VerifiedPayment}
      {at_ : Int} {current : Option (Subscription Int × Nat)} {renewed : Subscription Int}
      (pending : SeenPending past payment version)
      (read : seen .subscription payment.tenantId past = current)
      (renewal : renewal settings.plans payment (current.map Prod.fst) at_ = .ok renewed) :
      BillingCommit settings k past [savePayment (asPaid payment verified at_) version,
        saveSubscription renewed ((current.map Prod.snd).getD 0)]

/-- Subscriptions and payments are stored under their own ids. -/
def billingValid : (t : BillingType) → String → t.Payload → Prop
  | .subscription, i, s => s.tenantId = i
  | .payment, i, payment => payment.paymentId = i
  | .paymentAuthority, _, _ => True

@[reducible] def billingTerms (settings : BillingSettings) :
    Terms (billingProcesses settings) where
  Valid := billingValid
  permits := fun k => Service.commitsOnly (BillingCommit settings k)

/-- The contract of a request. -/
@[reducible] def billingContract (settings : BillingSettings) (k : BillingKind) :
    Prog.Contract (iface billing gateway) :=
  Service.commitContract billingValid (BillingCommit settings k)

theorem saveWrite_carries {t : BillingType} {i : String} {v : t.Payload} {n : Nat}
    (h : billingValid t i v) : (saveWrite t i v n).Carries billingValid := by
  unfold saveWrite
  split
  · exact h
  · exact h

theorem savePayment_carries (payment : Payment Int) (n : Nat) :
    (savePayment payment n).Carries billingValid :=
  saveWrite_carries (t := .payment) rfl

theorem saveSubscription_carries (s : Subscription Int) (n : Nat) :
    (saveSubscription s n).Carries billingValid :=
  saveWrite_carries (t := .subscription) rfl

/-! ## The parts of the requests -/

section Parts
variable {settings : BillingSettings} {k : BillingKind} {past : BillPast}

/-- A process nobody waits for the outcome of keeps the contract. -/
abbrev Keeps (settings : BillingSettings) (k : BillingKind) {α : Type} (p : BillProc α)
    (past : BillPast) : Prop :=
  Prog.wp (billingContract settings k) (fun _ _ => True) p past

theorem stored_keeps (paymentId : String) : Keeps settings k (stored paymentId) past := by
  unfold stored
  exact Service.find_bind (fun _ _ _ => trivial) trivial fun _ => trivial

theorem computed_bind {α β : Type} {Q : BillPast → Except BillingExc β → Prop}
    {x : Except ArithmeticError α} {f : α → BillProc β}
    (hok : ∀ a, x = .ok a → Prog.wp (billingContract settings k) Q (f a) past)
    (herr : ∀ e, Q past (.error e)) :
    Prog.wp (billingContract settings k) Q (computed x >>= f) past := by
  unfold computed
  refine Prog.wp_ofExcept_bind (fun a ha => hok a ?_) fun e _ => herr e
  cases x with
  | error e => cases ha
  | ok b => exact congrArg _ (Except.ok.inj ha)

theorem saveOver_keeps {payment : Payment Int} {version : Nat}
    (h : BillingCommit settings k past [savePayment payment version]) :
    Keeps settings k (saveOver payment version) past := by
  unfold saveOver
  rw [Keeps, Prog.wp_tryCatch]
  refine Service.commit_bind h (by simpa using savePayment_carries payment version)
    trivial fun e => ?_
  rw [Prog.recovering_error]
  cases e with
  | persistenceConflictError => exact stored_keeps _
  | _ => trivial

theorem close_keeps {payment : Payment Int} {version : Nat} {failure : String}
    (hpending : SeenPending past payment version) (hreason : CloseReason k payment past) :
    Keeps settings k (close payment version failure) past := by
  unfold close
  refine Service.now_bind (fun at_ => ?_) fun _ => trivial
  refine saveOver_keeps (.closed ?_ rfl hreason)
  exact ⟨(Service.seen_now (B := billing) _).trans hpending.1, hpending.2⟩

theorem markTried_keeps {payment : Payment Int} {version : Nat}
    (hpending : SeenPending past payment version) :
    Keeps settings k (markTried payment version) past := by
  unfold markTried
  split
  · trivial
  · exact saveOver_keeps (.tried hpending)

/-- What the process had seen of payments, after it read a subscription. -/
theorem SeenPending.find_subscription {payment : Payment Int} {version : Nat} {i : String}
    (h : SeenPending past payment version) (x : Option (Subscription Int × Nat)) :
    SeenPending (⟨.find .subscription i, .ok x⟩ :: past) payment version := by
  have hne : (BillingType.subscription, i) ≠ (BillingType.payment, payment.paymentId) :=
    fun h => by cases (Prod.mk.inj h).1
  have hkept : seen .payment payment.paymentId (⟨.find .subscription i, .ok x⟩ :: past) =
      seen .payment payment.paymentId past := by
    refine Service.seen_find_of_ne (B := billing) ?_ ?_
    exact hne
  exact ⟨hkept.trans h.1, h.2⟩

/-- A payment that was just read is the one that was last seen. -/
theorem seenPending_find {payment : Payment Int} {paymentId : String} {version : Nat}
    (hid : payment.paymentId = paymentId) (hpending : payment.status = .pending) :
    SeenPending (⟨.find .payment paymentId, .ok (some (payment, version))⟩ :: past)
      payment version := by
  subst hid
  exact ⟨Service.seen_find (B := billing) (t := .payment) _, hpending⟩

theorem creditTogether_bind {β : Type} {Q : BillPast → Except BillingExc β → Prop}
    {payment : Payment Int} {version : Nat} {verified : VerifiedPayment} {at_ : Int}
    {f : Unit → BillProc β} (hpending : SeenPending past payment version)
    (hok : ∀ past', Prog.wp (billingContract settings k) Q (f ()) past')
    (herr : ∀ past' e, Q past' (.error e)) :
    Prog.wp (billingContract settings k) Q
      (creditTogether settings payment version verified at_ >>= f) past := by
  have hcommit : ∀ x : Option (Subscription Int × Nat),
      Prog.wp (billingContract settings k) (Prog.after (billingContract settings k) Q f)
        (computed (renewal settings.plans payment (x.map Prod.fst) at_) >>= fun renewed =>
          commit [savePayment (asPaid payment verified at_) version,
            saveSubscription renewed ((x.map Prod.snd).getD 0)])
        (⟨.find .subscription payment.tenantId, .ok x⟩ :: past) := by
    intro x
    refine computed_bind (fun renewed hrenewed => ?_) fun e => herr _ _
    refine Service.commit_wp (.credited (hpending.find_subscription x) ?_ hrenewed) ?_
      fun r => ?_
    · exact Service.seen_find (B := billing) (t := .subscription) x
    · intro w hw
      rcases List.mem_cons.mp hw with rfl | hw
      · exact savePayment_carries _ _
      · exact List.mem_singleton.mp hw ▸ saveSubscription_carries _ _
    · cases r with
      | ok _ => exact hok _
      | error e => exact herr _ e
  rw [Prog.wp_bind]
  unfold creditTogether
  refine Service.find_bind (fun s n _ => ?_) ?_ fun e => herr _ _
  · exact hcommit (some (s, n))
  · exact hcommit none

theorem credit_keeps (verified : VerifiedPayment) (attempts : Nat) {payment : Payment Int}
    {version : Nat} (hpending : SeenPending past payment version) :
    Keeps settings k (credit settings verified attempts payment version) past := by
  induction attempts generalizing past payment version with
  | zero => trivial
  | succ attempts ih =>
      unfold credit
      refine Service.now_bind (fun at_ => ?_) fun _ => trivial
      have hpending' : SeenPending (⟨.now, .ok at_⟩ :: past) payment version :=
        ⟨(Service.seen_now (B := billing) _).trans hpending.1, hpending.2⟩
      rw [Prog.wp_bind, Prog.wp_tryCatch]
      refine creditTogether_bind hpending' (fun past' => ?_) fun past' e => ?_
      · rw [Prog.wp_pure]
        trivial
      rw [Prog.recovering_error]
      cases e with
      | persistenceConflictError =>
          refine Service.find_bind (fun latest n hlatest => ?_) ?_ fun e => trivial
          · rw [Prog.wp_pure, Prog.after_ok]
            dsimp only
            split
            · trivial
            · next hstatus =>
                exact ih (seenPending_find hlatest (not_not.mp hstatus))
          · trivial
      | _ => trivial

/-- One question to the gateway, and what is done with the answer or without one. -/
theorem unlessGatewayError_bind {β : Type} {Q : BillPast → Except BillingExc β → Prop}
    {x : GatewayOp} {f : Option x.Res → BillProc β}
    (hok : ∀ a : x.Res, Prog.wp (billingContract settings k) Q (f (some a))
      (⟨.ext x, .ok a⟩ :: past))
    (hnone : ∀ e, Prog.wp (billingContract settings k) Q (f none)
      (⟨.ext x, .error e⟩ :: past))
    (herr : ∀ e, Q (⟨.ext x, .error e⟩ :: past) (.error e)) :
    Prog.wp (billingContract settings k) Q (unlessGatewayError (ext x) >>= f) past := by
  unfold unlessGatewayError
  rw [Prog.wp_bind, Prog.wp_tryCatch]
  refine Service.ext_bind (B := billing) (X := gateway) (fun a => ?_) fun e => ?_
  · exact hok a
  rw [Prog.recovering_error]
  cases e with
  | gatewayError m => exact hnone _
  | _ => exact herr _

theorem answered_keeps {payment : Payment Int} {version amount : Nat}
    {verified : VerifiedPayment} {rest : BillPast}
    (hpast : past = ⟨.ext (.verify amount (payment.authority.getD "")), .ok verified⟩ :: rest)
    (hpending : SeenPending past payment version) :
    Keeps settings k (answered settings payment version verified) past := by
  unfold answered
  cases hpaid : verified.paid with
  | true =>
      rw [if_pos rfl]
      exact credit_keeps verified creditAttempts hpending
  | false =>
      rw [if_neg Bool.false_ne_true]
      split
      · next hcode =>
          refine close_keeps hpending ?_
          rw [hpast]
          exact .notPaid hpaid hcode
      · refine Service.now_bind (fun at_ => ?_) fun _ => trivial
        have hpending' : SeenPending (⟨.now, .ok at_⟩ :: past) payment version :=
          ⟨(Service.seen_now (B := billing) _).trans hpending.1, hpending.2⟩
        split
        · next hlate =>
            refine close_keeps hpending' ?_
            rw [hpast]
            exact .gaveUp hpaid hlate
        · exact markTried_keeps hpending'

theorem SeenPending.ext {payment : Payment Int} {version : Nat} {x : GatewayOp}
    (h : SeenPending past payment version) (r : Except BillingExc x.Res) :
    SeenPending (⟨.ext x, r⟩ :: past) payment version :=
  ⟨(Service.seen_ext (B := billing) (X := gateway) r).trans h.1, h.2⟩

theorem verify_keeps {payment : Payment Int} {version : Nat}
    (hpending : SeenPending past payment version) :
    Keeps settings k (verify settings payment version) past := by
  unfold verify
  cases settings.gateway with
  | false => trivial
  | true =>
      refine unlessGatewayError_bind (fun verified => ?_) (fun e => ?_) fun _ => trivial
      · exact answered_keeps rfl (hpending.ext _)
      · exact markTried_keeps (hpending.ext _)

theorem settle_keeps {authority status : String} :
    Keeps settings (.settle authority status) (settle settings authority status) past := by
  unfold settle byAuthority
  rw [Keeps, Prog.wp_bind]
  refine Service.find_bind (fun paymentId n _ => ?_) trivial fun _ => trivial
  refine Prog.wp_ask ⟨trivial, trivial⟩ fun r htrust => ?_
  match r with
  | .error e => trivial
  | .ok none => trivial
  | .ok (some (payment, version)) =>
      rw [Prog.after_ok]
      dsimp only
      split
      · trivial
      next hstatus =>
      have hid : payment.paymentId = paymentId := htrust
      subst hid
      have hpending : SeenPending (⟨.find .payment payment.paymentId,
          .ok (some (payment, version))⟩ :: ⟨.find .paymentAuthority authority,
          .ok (some (payment.paymentId, n))⟩ :: past) payment version :=
        seenPending_find rfl (not_not.mp hstatus)
      split
      · next hne => exact close_keeps hpending (.cancelled rfl hne List.mem_cons_self)
      · exact verify_keeps hpending

theorem recheckOne_keeps {at_ : Int} {payment : Payment Int} :
    Keeps settings k (recheckOne settings at_ payment) past := by
  unfold recheckOne
  split
  · trivial
  split
  · refine Service.find_bind (fun current version hid => ?_) trivial fun _ => trivial
    dsimp only
    split
    · next hpending => exact Prog.wp_void (verify_keeps (seenPending_find hid hpending))
    · trivial
  · trivial

theorem recheckEach_keeps {at_ : Int} (payments : List (Payment Int)) :
    Keeps settings k (recheckEach settings at_ payments) past := by
  induction payments generalizing past with
  | nil => trivial
  | cons payment payments ih =>
      exact Prog.wp_seq recheckOne_keeps (fun _ _ _ _ => ih) fun _ _ _ _ => trivial

theorem recheck_keeps {tenantId : String} {shown : List String} :
    Keeps settings k (recheck settings tenantId shown) past := by
  unfold recheck
  split
  · trivial
  refine Service.now_bind (fun at_ => ?_) fun _ => trivial
  unfold forTenant
  rw [Prog.wp_bind]
  refine Service.list_bind (fun payments _ => ?_) fun _ => trivial
  exact recheckEach_keeps _

theorem startTrial_keeps {tenantId : String} :
    Keeps settings k (startTrial tenantId) past := by
  unfold startTrial
  refine Service.now_bind (fun at_ => ?_) fun _ => trivial
  refine computed_bind (fun trial htrial => ?_) fun _ => trivial
  have htenant : trial.tenantId = tenantId := (startedTrial_eq_ok htrial).1
  refine Service.commit_wp (.trial (htenant ▸ htrial)) ?_ fun _ => trivial
  exact fun w hw => List.mem_singleton.mp hw ▸ saveSubscription_carries trial 0

/-- The version a first save makes is the one its process has seen. -/
theorem seenPending_saved {payment : Payment Int} (hpending : payment.status = .pending) :
    SeenPending (⟨.commit [savePayment payment 0], .ok ()⟩ :: past) payment 1 := by
  refine ⟨?_, hpending⟩
  simp [Service.seen, Service.tells, Service.lastWrite, Service.writeTells, savePayment,
    saveWrite]

theorem requestRefused_keeps {payment : Payment Int} (hpending : SeenPending past payment 1)
    (hunlinked : payment.authority = none) :
    Keeps settings k (requestRefused payment) past := by
  unfold requestRefused
  refine Service.now_bind (fun at_ => ?_) fun _ => trivial
  have hpending' : SeenPending (⟨.now, .ok at_⟩ :: past) payment 1 :=
    ⟨(Service.seen_now (B := billing) _).trans hpending.1, hpending.2⟩
  refine Service.commit_bind (.refused hpending' hunlinked) ?_ trivial fun _ => trivial
  exact fun w hw => List.mem_singleton.mp hw ▸ savePayment_carries _ _

theorem checkout_keeps {tenantId : String} {planId : PlanId} {mobile : Option String} :
    Keeps settings k (checkout settings tenantId planId mobile) past := by
  unfold checkout
  split
  · trivial
  dsimp only
  split
  · trivial
  refine Service.find_bind (fun s version _ => ?_) trivial fun _ => trivial
  refine Service.now_bind (fun asked => ?_) fun _ => trivial
  refine Service.newId_bind (fun paymentId => ?_) fun _ => trivial
  refine Service.now_bind (fun at_ => ?_) fun _ => trivial
  have hsubscribed : seen .subscription tenantId (⟨.now, .ok at_⟩ :: ⟨.newId, .ok paymentId⟩ ::
      ⟨.now, .ok asked⟩ :: ⟨.find .subscription tenantId, .ok (some (s, version))⟩ :: past) =
      some (s, version) := by
    simp only [Service.seen_now, Service.seen_newId]
    exact Service.seen_find (B := billing) (t := .subscription) _
  refine Service.commit_bind (.payment hsubscribed rfl rfl) ?_ ?_ fun _ => trivial
  · exact fun w hw => List.mem_singleton.mp hw ▸ savePayment_carries _ _
  refine unlessGatewayError_bind (fun authority => ?_) (fun e => ?_) fun _ => trivial
  · refine Service.commit_wp (.linked ((seenPending_saved rfl).ext _)) ?_ fun _ => trivial
    intro w hw
    rcases List.mem_cons.mp hw with rfl | hw
    · exact savePayment_carries _ _
    · exact List.mem_singleton.mp hw ▸ trivial
  · exact requestRefused_keeps ((seenPending_saved rfl).ext _) rfl

end Parts

/-- Every process keeps the terms. -/
theorem billingTerms_kept (settings : BillingSettings) : (billingTerms settings).Kept := by
  intro k
  cases k with
  | startTrial tenantId => exact startTrial_keeps
  | checkout tenantId planId mobile => exact checkout_keeps
  | settle authority status => exact Prog.wp_void settle_keeps
  | recheck tenantId shown => exact recheck_keeps

/-! ## The ledger of a tenant -/

abbrev BillRecords : Type := Repository BillingType BillingType.Payload

/-- The payment behind the last event of a subscription. -/
def lastPayment (s : Subscription Int) : Option String :=
  s.history.getLast?.bind SubscriptionEvent.paymentId

/-- A tenant's payment is stored as paid. -/
def PaidBy (r : BillRecords) (tenantId paymentId : String) : Prop :=
  ∃ payment n, r.current .payment paymentId = some (payment, n) ∧
    payment.tenantId = tenantId ∧ payment.status = .paid

/-- The last event of a version is a payment, read at some clock reading, and the
version ends the time left of the one before it and one period later. -/
def Extends (plans : PlanId → Plan) (s s' : Subscription Int) : Prop :=
  ∃ event left, s'.history.getLast? = some event ∧ event.reason = "paid" ∧
    remainingIn plans (some s) s'.plan event.at_ = .ok left ∧
    s'.endsAt = event.at_ + left + period

/-- The ledger of a tenant: its payments came after its subscription, each version of
the subscription extends the one before it, and the versions after the first are those
of the paid payments, one each. -/
structure TenantLedger (plans : PlanId → Plan) (r : BillRecords) (tenantId : String) :
    Prop where
  subscribed : ∀ i, ∀ payment ∈ r.versions .payment i, payment.tenantId = tenantId →
    r.versions .subscription tenantId ≠ []
  extended : (r.versions .subscription tenantId).IsChain (Extends plans)
  credited : ∃ ids : List String,
    ((r.versions .subscription tenantId).drop 1).map lastPayment = ids.map some ∧
    ids.Nodup ∧ ∀ i, i ∈ ids ↔ PaidBy r tenantId i

section Append
variable {plans : PlanId → Plan} {r : BillRecords} {tenantId : String}

theorem apply_saveWrite {s : BillRecords} {t : BillingType} {i : String} {v : t.Payload}
    {n : Nat} (h : r.apply (saveWrite t i v n) = .ok s) :
    (r.versions t i).length = n ∧ s = r.append t i v := by
  unfold saveWrite at h
  split at h
  · next hn =>
      obtain ⟨hfresh, hs⟩ := Repository.apply_create h
      exact ⟨by rw [hfresh, hn]; rfl, hs⟩
  · exact Repository.apply_replace h

theorem paidBy_append_of_ne {t : BillingType} (ht : t ≠ .payment) (i : String)
    (v : t.Payload) (j : String) : PaidBy (r.append t i v) tenantId j ↔ PaidBy r tenantId j := by
  have hsame := Repository.current_congr
    (Repository.versions_append_of_ne_type r t i v (Ne.symm ht) j)
  simp only [PaidBy, hsame]

/-- A payment that was not paid, written again. -/
theorem paidBy_append {i : String} (hunpaid : ¬PaidBy r tenantId i) (payment : Payment Int)
    (j : String) : PaidBy (r.append .payment i payment) tenantId j ↔
      (j = i ∧ payment.tenantId = tenantId ∧ payment.status = .paid) ∨
        PaidBy r tenantId j := by
  by_cases hj : j = i
  · subst hj
    have hnew : PaidBy (r.append .payment j payment) tenantId j ↔
        payment.tenantId = tenantId ∧ payment.status = .paid := by
      simp only [PaidBy, Repository.current_append_self, Option.some.injEq, Prod.mk.injEq]
      constructor
      · rintro ⟨_, _, ⟨rfl, -⟩, h⟩
        exact h
      · exact fun h => ⟨_, _, ⟨rfl, rfl⟩, h⟩
    rw [hnew]
    exact ⟨fun h => .inl ⟨rfl, h⟩, fun h => h.elim And.right fun h => absurd h hunpaid⟩
  · have hsame := Repository.current_congr
      (Repository.versions_append_of_ne r .payment i payment hj)
    simp only [PaidBy, hsame, hj, false_and, false_or]

/-- A payment that was not paid and still is not, or is another tenant's. -/
theorem TenantLedger.append_payment (h : TenantLedger plans r tenantId) {i : String}
    {payment : Payment Int} (hunpaid : ¬PaidBy r tenantId i)
    (hstatus : payment.tenantId = tenantId → payment.status ≠ .paid)
    (hsub : payment.tenantId = tenantId → r.versions .subscription tenantId ≠ []) :
    TenantLedger plans (r.append .payment i payment) tenantId := by
  have hkept : (r.append .payment i payment).versions .subscription tenantId =
      r.versions .subscription tenantId :=
    Repository.versions_append_of_ne_type r .payment i payment (by decide) tenantId
  refine ⟨fun j p hp ht => ?_, hkept.symm ▸ h.extended, ?_⟩
  · rw [hkept]
    rw [Repository.versions_append] at hp
    split at hp
    · rcases List.mem_append.mp hp with hp | hp
      · exact h.subscribed j p hp ht
      · exact hsub (List.mem_singleton.mp hp ▸ ht)
    · exact h.subscribed j p hp ht
  · obtain ⟨ids, hids, hnodup, hpaid⟩ := h.credited
    refine ⟨ids, hkept.symm ▸ hids, hnodup, fun j => ?_⟩
    rw [hpaid, paidBy_append hunpaid]
    exact ⟨.inr, fun hj => hj.elim (fun hj => absurd hj.2.2 (hstatus hj.2.1)) id⟩

/-- A record of another kind. -/
theorem TenantLedger.append_authority (h : TenantLedger plans r tenantId) (i v : String) :
    TenantLedger plans (r.append .paymentAuthority i v) tenantId := by
  have hkept : ∀ t, t ≠ .paymentAuthority → ∀ j,
      (r.append .paymentAuthority i v).versions t j = r.versions t j :=
    fun t ht j => Repository.versions_append_of_ne_type r .paymentAuthority i v ht j
  have hsub := hkept .subscription (by decide) tenantId
  refine ⟨fun j p hp ht => ?_, hsub.symm ▸ h.extended, ?_⟩
  · rw [hsub]
    rw [hkept .payment (by decide)] at hp
    exact h.subscribed j p hp ht
  · obtain ⟨ids, hids, hnodup, hpaid⟩ := h.credited
    refine ⟨ids, hsub.symm ▸ hids, hnodup, fun j => ?_⟩
    rw [hpaid, paidBy_append_of_ne (by decide)]

/-- Another tenant's subscription. -/
theorem TenantLedger.append_subscription_of_ne (h : TenantLedger plans r tenantId)
    {i : String} (hi : tenantId ≠ i) (s : Subscription Int) :
    TenantLedger plans (r.append .subscription i s) tenantId := by
  have hsub : (r.append .subscription i s).versions .subscription tenantId =
      r.versions .subscription tenantId :=
    Repository.versions_append_of_ne r .subscription i s hi
  refine ⟨fun j p hp ht => ?_, hsub.symm ▸ h.extended, ?_⟩
  · rw [hsub]
    rw [Repository.versions_append_of_ne_type r .subscription i s (by decide)] at hp
    exact h.subscribed j p hp ht
  · obtain ⟨ids, hids, hnodup, hpaid⟩ := h.credited
    refine ⟨ids, hsub.symm ▸ hids, hnodup, fun j => ?_⟩
    rw [hpaid, paidBy_append_of_ne (by decide)]

/-- The first version of a subscription. -/
theorem TenantLedger.append_trial (h : TenantLedger plans r tenantId)
    (hfresh : r.versions .subscription tenantId = []) (s : Subscription Int) :
    TenantLedger plans (r.append .subscription tenantId s) tenantId := by
  have hnew : (r.append .subscription tenantId s).versions .subscription tenantId = [s] := by
    rw [Repository.versions_append_self, hfresh, List.nil_append]
  refine ⟨fun _ _ _ _ => ?_, ?_, ?_⟩
  · rw [hnew]
    exact List.cons_ne_nil _ _
  · rw [hnew]
    exact List.isChain_singleton s
  · refine ⟨[], by rw [hnew]; rfl, List.nodup_nil, fun j => ?_⟩
    rw [paidBy_append_of_ne (by decide)]
    refine ⟨fun hj => absurd hj List.not_mem_nil, ?_⟩
    rintro ⟨payment, n, hcur, ht, -⟩
    have hmem := Repository.mem_of_versionAt (Repository.current_eq_some_iff.mp hcur).1
    exact absurd hfresh (h.subscribed j payment hmem ht)

/-- A payment becomes paid and its tenant's subscription is extended by it. -/
theorem TenantLedger.append_credit (h : TenantLedger plans r tenantId) {i : String}
    {payment : Payment Int} {s renewed : Subscription Int} (hunpaid : ¬PaidBy r tenantId i)
    (htenant : payment.tenantId = tenantId) (hstatus : payment.status = .paid)
    (hlast : (r.versions .subscription tenantId).getLast? = some s)
    (hextends : Extends plans s renewed) (hpayment : lastPayment renewed = some i) :
    TenantLedger plans ((r.append .payment i payment).append .subscription tenantId renewed)
      tenantId := by
  have hne : r.versions .subscription tenantId ≠ [] := fun hnil => by
    rw [hnil] at hlast
    cases hlast
  have hnew : ((r.append .payment i payment).append .subscription tenantId renewed).versions
      .subscription tenantId = r.versions .subscription tenantId ++ [renewed] := by
    rw [Repository.versions_append_self, Repository.versions_append_of_ne_type r .payment i
      payment (by decide)]
  refine ⟨fun _ _ _ _ => ?_, ?_, ?_⟩
  · rw [hnew]
    exact List.append_ne_nil_of_right_ne_nil _ (List.cons_ne_nil _ _)
  · rw [hnew, List.isChain_append]
    refine ⟨h.extended, List.isChain_singleton _, fun x hx y hy => ?_⟩
    obtain rfl := Option.some.inj (hlast.symm.trans hx)
    obtain rfl := Option.some.inj hy
    exact hextends
  · obtain ⟨ids, hids, hnodup, hpaid⟩ := h.credited
    have hfresh : i ∉ ids := fun hi => hunpaid ((hpaid i).mp hi)
    refine ⟨ids ++ [i], ?_, ?_, fun j => ?_⟩
    · have hlen : 1 ≤ (r.versions .subscription tenantId).length :=
        List.length_pos_iff.mpr hne
      rw [hnew, List.drop_append_of_le_length hlen, List.map_append, hids, List.map_append]
      simp [hpayment]
    · rw [List.nodup_append]
      refine ⟨hnodup, List.nodup_singleton i, fun a ha b hb => ?_⟩
      rw [List.mem_singleton.mp hb]
      exact fun hai => hfresh (hai ▸ ha)
    · rw [paidBy_append_of_ne (by decide), paidBy_append hunpaid, List.mem_append,
        List.mem_singleton, hpaid]
      constructor
      · exact fun hj => hj.elim .inr fun hj => .inl ⟨hj, htenant, hstatus⟩
      · exact fun hj => hj.elim (fun hj => .inr hj.1) .inl

end Append

/-! ## Every transaction keeps the ledgers -/

section Commits
variable {plans : PlanId → Plan} {r r' : BillRecords} {past : BillPast}
  {payment payment' : Payment Int} {version : Nat}

/-- A payment that was seen pending and is written over that version is stored so. -/
theorem SeenPending.current (h : SeenPending past payment version)
    (htold : Service.Told (B := billing) (X := gateway) r past)
    (hlen : (r.versions .payment payment.paymentId).length = version) :
    r.current .payment payment.paymentId = some (payment, version) :=
  Repository.current_eq_some_iff.mpr ⟨htold.seen h.1, hlen⟩

theorem SeenPending.not_paidBy (h : SeenPending past payment version)
    (htold : Service.Told (B := billing) (X := gateway) r past)
    (hlen : (r.versions .payment payment.paymentId).length = version) (tenantId : String) :
    ¬PaidBy r tenantId payment.paymentId := by
  rintro ⟨p, n, hcur, -, hpaid⟩
  obtain ⟨rfl, -⟩ := Prod.mk.inj (Option.some.inj ((h.current htold hlen).symm.trans hcur))
  rw [h.2] at hpaid
  cases hpaid

/-- A pending payment written again, and not as paid. -/
theorem ledger_of_save (hall : ∀ t, TenantLedger plans r t)
    (htold : Service.Told (B := billing) (X := gateway) r past) (hpending : SeenPending past payment version)
    (happ : r.apply (savePayment payment' version) = .ok r')
    (hid : payment'.paymentId = payment.paymentId)
    (htenant : payment'.tenantId = payment.tenantId) (hstatus : payment'.status ≠ .paid) :
    ∀ t, TenantLedger plans r' t := by
  obtain ⟨hlen, rfl⟩ := apply_saveWrite happ
  rw [hid] at hlen ⊢
  have hmem := Repository.mem_of_versionAt (htold.seen hpending.1)
  exact fun t => (hall t).append_payment (hpending.not_paidBy htold hlen t)
    (fun _ => hstatus) fun ht => (hall t).subscribed _ _ hmem (htenant.symm.trans ht)

theorem extends_of_renewal {s renewed : Subscription Int} {at_ : Int}
    (h : renewal plans payment (some s) at_ = .ok renewed) : Extends plans s renewed := by
  obtain ⟨hplan, hend⟩ := renewal_eq_ok h
  obtain ⟨-, hlast⟩ := renewal_last h
  obtain ⟨left, hleft, hmoved⟩ := bind_eq_ok.mp hend
  obtain ⟨moved, hshift, hend⟩ := bind_eq_ok.mp hmoved
  obtain ⟨rfl, -⟩ := TimeArith.shift_eq_ok_iff.mp hshift
  obtain ⟨hend, -⟩ := TimeArith.shift_eq_ok_iff.mp hend
  exact ⟨_, left, hlast, rfl, hplan ▸ hleft, hend.symm⟩

/-- The transaction that credits a payment. -/
theorem ledger_of_credit {verified : VerifiedPayment} {at_ : Int}
    {current : Option (Subscription Int × Nat)} {renewed : Subscription Int}
    (hall : ∀ t, TenantLedger plans r t) (htold : Service.Told (B := billing) (X := gateway) r past)
    (hpending : SeenPending past payment version)
    (hread : seen .subscription payment.tenantId past = current)
    (hrenewal : renewal plans payment (current.map Prod.fst) at_ = .ok renewed)
    (hcommit : r.commit [savePayment (asPaid payment verified at_) version,
      saveSubscription renewed ((current.map Prod.snd).getD 0)] = .ok r') :
    ∀ t, TenantLedger plans r' t := by
  obtain ⟨u, happ, hcommit⟩ := Repository.commit_cons.mp hcommit
  obtain ⟨hlen, rfl⟩ := apply_saveWrite happ
  obtain ⟨hlen', rfl⟩ := apply_saveWrite (Repository.commit_singleton.mp hcommit)
  have hmem := Repository.mem_of_versionAt (htold.seen hpending.1)
  obtain ⟨htenant, hlast⟩ := renewal_last hrenewal
  rw [Repository.versions_append_of_ne_type r .payment _ _ (by decide), htenant] at hlen'
  rw [htenant]
  intro t
  by_cases ht : payment.tenantId = t
  case neg =>
    refine TenantLedger.append_subscription_of_ne ?_ (Ne.symm ht) renewed
    exact (hall t).append_payment (hpending.not_paidBy htold hlen t)
      (fun h => absurd h ht) fun h => absurd h ht
  subst ht
  have hsub := (hall payment.tenantId).subscribed _ _ hmem rfl
  cases current with
  | none => exact absurd (List.length_eq_zero_iff.mp hlen') hsub
  | some x =>
      obtain ⟨s, n⟩ := x
      have hcur : r.current .subscription payment.tenantId = some (s, n) :=
        Repository.current_eq_some_iff.mpr ⟨htold.seen hread, hlen'⟩
      refine (hall _).append_credit (hpending.not_paidBy htold hlen _) rfl rfl
        (Repository.getLast?_of_current hcur) (extends_of_renewal hrenewal) ?_
      rw [lastPayment, hlast]
      rfl

/-- Every permitted transaction keeps every ledger. -/
theorem ledger_of_commit {settings : BillingSettings} {k : BillingKind}
    {ws : List (Repository.Write BillingType BillingType.Payload)}
    (h : BillingCommit settings k past ws) (htold : Service.Told (B := billing) (X := gateway) r past)
    (hall : ∀ t, TenantLedger settings.plans r t) (hcommit : r.commit ws = .ok r') :
    ∀ t, TenantLedger settings.plans r' t := by
  cases h with
  | @trial trial at_ started =>
      obtain ⟨hlen, rfl⟩ := apply_saveWrite (Repository.commit_singleton.mp hcommit)
      have hfresh := List.length_eq_zero_iff.mp hlen
      intro t
      by_cases ht : t = trial.tenantId
      · subst ht
        exact (hall _).append_trial hfresh trial
      · exact (hall t).append_subscription_of_ne ht trial
  | @payment payment s version subscribed pending unlinked =>
      obtain ⟨hlen, rfl⟩ := apply_saveWrite (Repository.commit_singleton.mp hcommit)
      have hfresh : r.versions .payment payment.paymentId = [] :=
        List.length_eq_zero_iff.mp hlen
      have hmem := Repository.mem_of_versionAt (htold.seen subscribed)
      intro t
      refine (hall t).append_payment ?_ (fun _ h => ?_) fun ht => ?_
      · rintro ⟨p, n, hcur, -⟩
        rw [Repository.current_eq_none_iff.mpr hfresh] at hcur
        cases hcur
      · rw [pending] at h
        cases h
      · exact ht ▸ List.ne_nil_of_mem hmem
  | linked pending =>
      obtain ⟨u, happ, hcommit⟩ := Repository.commit_cons.mp hcommit
      have hpaid := ledger_of_save hall htold pending happ rfl rfl
        fun h => by rw [pending.2] at h; cases h
      obtain ⟨-, rfl⟩ := Repository.apply_create (Repository.commit_singleton.mp hcommit)
      exact fun t => (hpaid t).append_authority _ _
  | refused pending _ =>
      exact ledger_of_save hall htold pending (Repository.commit_singleton.mp hcommit) rfl
        rfl fun h => by cases h
  | tried pending =>
      exact ledger_of_save hall htold pending (Repository.commit_singleton.mp hcommit) rfl
        rfl fun h => by rw [pending.2] at h; cases h
  | closed pending _ _ =>
      exact ledger_of_save hall htold pending (Repository.commit_singleton.mp hcommit) rfl
        rfl fun h => by cases h
  | credited pending read renewal =>
      exact ledger_of_credit hall htold pending read renewal hcommit

end Commits

/-! ## Runs -/

theorem ledger_empty (plans : PlanId → Plan) (tenantId : String) :
    TenantLedger plans Repository.empty tenantId where
  subscribed := fun _ _ h => absurd h List.not_mem_nil
  extended := List.IsChain.nil
  credited := ⟨[], rfl, List.nodup_nil, fun i => ⟨fun h => absurd h List.not_mem_nil,
    fun ⟨_, _, h, _⟩ => by cases h⟩⟩

theorem billingValid_empty : Service.AllValid (B := billing) billingValid Repository.empty :=
  fun _ _ _ h => absurd h List.not_mem_nil

/-- In every reachable state, whatever the requests and the gateway did, every tenant's
ledger is in order: its paid payments and the versions of its subscription after the
first correspond one to one, and each version adds one period to what was left. -/
theorem credited_once {settings : BillingSettings} {c : Config (billingMachine settings)}
    (hr : Run anyMove ⟨noBilling, []⟩ c) (tenantId : String) :
    TenantLedger settings.plans c.shared.records tenantId :=
  Service.repository_invariant
    (K := fun r => ∀ t, TenantLedger settings.plans r t) (billingTerms_kept settings)
    billingValid_empty (fun hcom hall hc => ledger_of_commit hcom.permitted hcom.told hall hc)
    (ledger_empty settings.plans) hr tenantId

/-- A service with a gateway, at the default prices. -/
def soldAtDefault : BillingSettings where
  prices := defaultPrices
  gateway := true
  callbackUrl := true

/-- A trial is started, and a payment of its tenant is sent to the gateway. -/
def checkedOut : List (Move (M := billingMachine soldAtDefault)) :=
  [.spawn (.startTrial "t-1"), .act 0 (.clock newYear), .act 0 .done,
    .spawn (.checkout "t-1" .starter none), .act 1 .done, .act 1 (.clock newYear),
    .act 1 (.name "pay-1"), .act 1 (.clock newYear), .act 1 .done,
    .act 1 (.ext (.authority "A1")), .act 1 .done]

/-- The customer comes back and the gateway says the payment was made. -/
def creditedRun : List (Move (M := billingMachine soldAtDefault)) :=
  checkedOut ++ [.spawn (.settle "A1" "OK"), .act 2 .done, .act 2 .done,
    .act 2 (.ext (.verified (some 100) (some "r-1") none)), .act 2 (.clock newYear),
    .act 2 .done, .act 2 .done]

/-- The status of a payment, and how many versions its tenant's subscription has. -/
def ledgerAt (r : BillRecords) (tenantId paymentId : String) :
    Option PaymentStatus × Nat :=
  ((r.latest .payment paymentId).map Payment.status,
    (r.versions .subscription tenantId).length)

set_option maxRecDepth 10000 in
theorem credited_once_creditedRun : ∃ c : Config (billingMachine soldAtDefault),
    ledgerAt c.shared.records "t-1" "pay-1" = (some .paid, 2) ∧
      TenantLedger soldAtDefault.plans c.shared.records "t-1" := by
  have h : (fires ⟨noBilling, []⟩ creditedRun).map (fun c =>
      ledgerAt c.shared.records "t-1" "pay-1") = some (some .paid, 2) := by decide
  obtain ⟨c, hc, hs⟩ := Option.map_eq_some_iff.mp h
  exact ⟨c, hs, credited_once (Run.of_moves hc) "t-1"⟩

end SeoAgent.Billing
