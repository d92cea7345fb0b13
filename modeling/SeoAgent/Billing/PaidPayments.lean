import SeoAgent.Billing.Ledger

/-!
# A paid payment is not thrown away

A payment the gateway has answered as paid stays open to be credited as long as no
return from the gateway says otherwise of it: a return with another status closes the
pending payment it finds without asking the gateway. `Consistent` is what this takes of
the requests and of the gateway, and `cancelled_after_paid` a run where it fails.

## Main results

* `paid_never_failed` — over every run whose steps are consistent.
* `cancelled_after_paid` — a payment that was paid and ends as failed.
-/

namespace SeoAgent.Billing

open SeoAgent.Verified Machine
open Service (iface World)

/-! ## What is claimed -/

/-- The authority of a payment, or an empty text. -/
def Payment.authorityText {τ : Type} (payment : Payment τ) : String :=
  payment.authority.getD ""

/-- No payment whose authority the gateway has answered as paid is stored as failed. -/
def NeverLost (w : World billing gateway) : Prop :=
  ∀ i payment n, w.records.current .payment i = some (payment, n) →
    ∀ authority, payment.authority = some authority → authority ∈ w.outside →
      payment.status ≠ .failed

/-! ## Consistent returns and answers -/

/-- A return from the gateway that says anything but `OK`. -/
def BillingKind.cancels : BillingKind → Bool
  | .settle _ status => status ≠ "OK"
  | _ => false

/-- The authority the gateway has just answered as not paid. -/
def justUnpaid : BillPast → Option String
  | ⟨.ext (.verify _ authority), .ok verified⟩ :: _ =>
      if verified.paid then none else some authority
  | _ => none

/-- Every stored version of every payment. -/
def EachPayment (r : BillRecords) (Q : Payment Int → Prop) : Prop :=
  ∀ i ∈ r.ids .payment, ∀ payment ∈ r.versions .payment i, Q payment

instance (r : BillRecords) (Q : Payment Int → Prop) [DecidablePred Q] :
    Decidable (EachPayment r Q) := by
  unfold EachPayment
  infer_instance

section Consistent
variable {settings : BillingSettings} (Paid : String → Prop)

/-- What one operation has to do with the authorities that get paid: the gateway says
`paid` of no other, does not say of one of them that the payment was not made, and says
nothing else against it two days after the payment was made; and a return that says
anything but `OK` does not find its payment pending. -/
def ConsistentOp (c : Config (billingMachine settings)) (k : BillingKind) (past : BillPast) :
    Service.Op billing gateway → Service.Choice (B := billing) gateway → Prop
  | .ext (.verify _ authority), .ext (.verified code _ _) =>
      if code.any (· ∈ paidCodes) then Paid authority
      else Paid authority → ¬code.any (· ∈ notPaidCodes)
  | .now, .clock at_ =>
      match justUnpaid past with
      | none => True
      | some authority => Paid authority → EachPayment c.shared.records fun payment =>
          payment.authorityText = authority → at_ - payment.createdAt < giveUpAfter
  | .find .payment i, .done =>
      k.cancels → ∀ payment ∈ (c.shared.records.latest .payment i).toList,
        payment.status = .pending → ¬Paid payment.authorityText
  | _, _ => True

instance [DecidablePred Paid] (c : Config (billingMachine settings)) (k : BillingKind)
    (past : BillPast) (o : Service.Op billing gateway) (ch : Service.Choice (B := billing) gateway) :
    Decidable (ConsistentOp Paid c k past o ch) := by
  unfold ConsistentOp
  split
  · infer_instance
  · split <;> infer_instance
  · infer_instance
  · infer_instance

/-- Every step is consistent with the authorities that get paid. -/
def Consistent : Condition (billingMachine settings) := eachOp (ConsistentOp Paid)

instance [DecidablePred Paid] (c : Config (billingMachine settings))
    (m : Move (M := billingMachine settings)) : Decidable (Consistent Paid c m) := by
  unfold Consistent
  infer_instance

/-! ## What a process was answered -/

/-- What consistent steps make of the past of a process. -/
structure FairPast (k : BillingKind) (past : BillPast) : Prop where
  found : k.cancels → ∀ i payment n,
    ⟨.find .payment i, .ok (some (payment, n))⟩ ∈ past → payment.status = .pending →
      ¬Paid payment.authorityText
  code : ∀ amount authority verified,
    ⟨.ext (.verify amount authority), .ok verified⟩ ∈ past → verified.paid = false →
      Paid authority → ¬verified.code.any (· ∈ notPaidCodes)
  early : ∀ at_ rest, (⟨.now, .ok at_⟩ :: rest : BillPast) <:+ past →
    ∀ authority, justUnpaid rest = some authority → Paid authority →
      ∀ payment n, seen .payment payment.paymentId rest = some (payment, n) →
        payment.authorityText = authority → at_ - payment.createdAt < giveUpAfter

variable {Paid} {c : Config (billingMachine settings)} {t : Nat}
  {ch : Service.Choice (B := billing) gateway} {k : BillingKind} {past : BillPast}

/-- An answer of the gateway is the one its code makes. -/
theorem verify_answer {answered answered' : PaidAuthorities} {amount : Nat}
    {authority : String} {verified : VerifiedPayment} {ga : GatewayAnswer}
    (h : gatewayExec answered (.verify amount authority) ga = some (.ok verified, answered')) :
    ∃ code refId cardPan, ga = .verified code refId cardPan ∧
      verified = VerifiedPayment.ofAnswer code refId cardPan ∧
      answered' = if verified.paid then authority :: answered else answered := by
  cases ga with
  | verified code refId cardPan =>
      obtain ⟨hv, hs⟩ := Prod.mk.inj (Option.some.inj h)
      obtain rfl := Except.ok.inj hv
      exact ⟨code, refId, cardPan, rfl, rfl, hs.symm⟩
  | authority a => cases h
  | failed m => cases h

theorem ofAnswer_paid {code : Option Int} {refId cardPan : Option String} :
    (VerifiedPayment.ofAnswer code refId cardPan).paid = code.any (· ∈ paidCodes) := by
  unfold VerifiedPayment.ofAnswer
  split
  · next h => exact h.symm
  · next h => exact (Bool.eq_false_iff.mpr h).symm

theorem ofAnswer_code {code : Option Int} {refId cardPan : Option String} :
    (VerifiedPayment.ofAnswer code refId cardPan).code = code := by
  unfold VerifiedPayment.ofAnswer
  split <;> rfl

theorem FairPast.step {o : Service.Op billing gateway}
    {r : Except BillingExc o.Res} {s : World billing gateway}
    (htold : Service.Told (B := billing) (X := gateway) c.shared.records past)
    (hgood : ConsistentOp Paid c k past o ch)
    (hexec : Service.exec c.shared o ch = some (r, s)) (h : FairPast Paid k past) :
    FairPast Paid k (⟨o, r⟩ :: past) where
  found := by
    intro hk i payment n hmem hpending
    rcases List.mem_cons.mp hmem with heq | hmem
    · cases heq
      obtain ⟨hcur, -⟩ := Service.exec_find_ok hexec
      cases ch with
      | done =>
          refine hgood hk payment ?_ hpending
          rw [Option.mem_toList]
          exact Repository.getLast?_of_current hcur
      | _ => cases hexec
    · exact h.found hk i payment n hmem hpending
  code := by
    intro amount authority verified hmem hunpaid hpaid
    rcases List.mem_cons.mp hmem with heq | hmem
    · cases heq
      obtain ⟨ga, rfl, hga, -⟩ := Service.exec_ext hexec
      obtain ⟨code, refId, cardPan, rfl, rfl, -⟩ := verify_answer hga
      rw [ofAnswer_paid] at hunpaid
      rw [ofAnswer_code]
      simp only [ConsistentOp, hunpaid, Bool.false_eq_true, if_false] at hgood
      exact hgood hpaid
    · exact h.code amount authority verified hmem hunpaid hpaid
  early := by
    intro at_ rest hsuffix authority hunpaid hpaid payment n hseen hauth
    rcases List.suffix_cons_iff.mp hsuffix with heq | hsuffix
    · obtain ⟨hev, rfl⟩ := List.cons.inj heq
      cases hev
      cases ch with
      | clock u =>
          cases hexec
          simp only [ConsistentOp, hunpaid] at hgood
          have hmem := Repository.mem_of_versionAt (htold.seen hseen)
          refine hgood hpaid payment.paymentId ?_ payment hmem hauth
          exact (c.shared.records.mem_ids .payment payment.paymentId).mpr
            (List.ne_nil_of_mem hmem)
      | _ => cases hexec
    · exact h.early at_ rest hsuffix authority hunpaid hpaid payment n hseen hauth

theorem fairPast_of_run (hr : Run (Consistent Paid) ⟨noBilling, []⟩ c) :
    ∀ th ∈ c.pool, FairPast Paid th.kind th.past :=
  Service.past_of_run
    (fun _ => ⟨fun _ _ _ _ h => absurd h List.not_mem_nil,
      fun _ _ _ h => absurd h List.not_mem_nil, fun _ _ h => by cases List.suffix_nil.mp h⟩)
    (fun htold hgood hp hexec h => h.step htold (eachOp_act hgood hp) hexec) hr

/-! ## What is closed was not paid -/

/-- Only authorities that get paid were answered so. -/
theorem answered_paid (hr : Run (Consistent Paid) ⟨noBilling, []⟩ c) :
    ∀ authority ∈ c.shared.outside, Paid authority := by
  refine Service.outside_invariant (J := fun answered : PaidAuthorities =>
    ∀ authority ∈ answered, Paid authority) ?_ (fun {_ e _} _ _ => nomatch e)
    (fun _ h => absurd h List.not_mem_nil) hr
  intro c t ga k x f past r s hgood hp hexec hall
  cases x with
  | request amount mobile orderId =>
      cases ga with
      | verified _ _ _ => cases hexec
      | authority a =>
          cases hexec
          exact hall
      | failed m =>
          cases hexec
          exact hall
  | verify amount authority =>
      cases ga with
      | authority a => cases hexec
      | failed m =>
          cases hexec
          exact hall
      | verified code refId cardPan =>
          cases hexec
          have hop : ConsistentOp Paid c k past (.ext (.verify amount authority))
            (.ext (.verified code refId cardPan)) := eachOp_act hgood hp
          rw [ofAnswer_paid]
          split
          · next hcode =>
              simp only [ConsistentOp, hcode, if_true] at hop
              intro a ha
              rcases List.mem_cons.mp ha with rfl | ha
              · exact hop
              · exact hall a ha
          · exact hall

/-- Every payment stored as failed is of an authority that does not get paid. -/
def FailedUnpaid (Paid : String → Prop) (r : BillRecords) : Prop :=
  ∀ i payment n, r.current .payment i = some (payment, n) → payment.status = .failed →
    ∀ authority, payment.authority = some authority → ¬Paid authority

/-- What makes a process close a payment says that it does not get paid. -/
theorem CloseReason.not_paid {payment : Payment Int} {version : Nat} {at_ : Int}
    (h : CloseReason k payment past) (hfair : FairPast Paid k (⟨.now, .ok at_⟩ :: past))
    (hpending : SeenPending (⟨.now, .ok at_⟩ :: past) payment version) {authority : String}
    (ha : payment.authority = some authority) : ¬Paid authority := by
  have htext : payment.authorityText = authority := by
    rw [Payment.authorityText, ha, Option.getD_some]
  intro hpaid
  have hpaid' : Paid payment.authorityText := by
    rw [htext]
    exact hpaid
  cases h with
  | cancelled kind status_ne found =>
      have hk : k.cancels := by
        rw [kind]
        exact decide_eq_true status_ne
      exact hfair.found hk _ payment _ (List.mem_cons_of_mem _ found) hpending.2 hpaid'
  | notPaid unpaid code =>
      exact hfair.code _ _ _ (List.mem_cons_of_mem _ List.mem_cons_self) unpaid hpaid' code
  | @gaveUp rest amount verified asked unpaid late =>
      have hjust : justUnpaid
          (⟨.ext (.verify amount (payment.authority.getD "")), .ok verified⟩ :: rest) =
            some payment.authorityText := by
        simp only [justUnpaid, unpaid, Bool.false_eq_true, if_false]
        rfl
      have hseen : seen .payment payment.paymentId
          (⟨.ext (.verify amount (payment.authority.getD "")), .ok verified⟩ :: rest) =
            some (payment, version) := by
        have hpast := hpending.1
        simpa only [Service.seen_now] using hpast
      have hearly := hfair.early asked _ (List.suffix_cons _ _) _ hjust hpaid' payment
        version hseen rfl
      exact absurd late (not_le.mpr hearly)

theorem failedUnpaid_append {r : BillRecords} (h : FailedUnpaid Paid r)
    {payment : Payment Int} (hnew : payment.status = .failed → ∀ authority,
      payment.authority = some authority → ¬Paid authority) (i : String) :
    FailedUnpaid Paid (r.append .payment i payment) := by
  intro j p n hcur
  by_cases hj : j = i
  · subst hj
    rw [Repository.current_append_self] at hcur
    obtain ⟨rfl, -⟩ := Prod.mk.inj (Option.some.inj hcur)
    exact hnew
  · rw [Repository.current_congr (Repository.versions_append_of_ne r .payment i payment hj)]
      at hcur
    exact h j p n hcur

theorem failedUnpaid_append_of_ne {r : BillRecords} (h : FailedUnpaid Paid r)
    {t : BillingType} (ht : t ≠ .payment) (i : String) (v : t.Payload) :
    FailedUnpaid Paid (r.append t i v) := by
  intro j p n hcur
  rw [Repository.current_congr
    (Repository.versions_append_of_ne_type r t i v (Ne.symm ht) j)] at hcur
  exact h j p n hcur

theorem failedUnpaid_save {r r' : BillRecords} (h : FailedUnpaid Paid r)
    {payment : Payment Int} {version : Nat}
    (happ : r.apply (savePayment payment version) = .ok r')
    (hnew : payment.status = .failed → ∀ authority,
      payment.authority = some authority → ¬Paid authority) : FailedUnpaid Paid r' := by
  obtain ⟨-, rfl⟩ := apply_saveWrite happ
  exact failedUnpaid_append h hnew _

theorem SeenPending.not_failed {payment : Payment Int} {version : Nat} {Q : Prop}
    (h : SeenPending past payment version) (hf : payment.status = .failed) : Q := by
  rw [h.2] at hf
  cases hf

/-- Every permitted transaction of a fair process keeps failed payments unpaid. -/
theorem failedUnpaid_of_commit {r r' : BillRecords}
    {ws : List (Repository.Write BillingType BillingType.Payload)}
    (h : BillingCommit settings k past ws) (hfair : FairPast Paid k past)
    (hall : FailedUnpaid Paid r) (hcommit : r.commit ws = .ok r') : FailedUnpaid Paid r' := by
  cases h with
  | trial _ =>
      obtain ⟨-, rfl⟩ := apply_saveWrite (Repository.commit_singleton.mp hcommit)
      exact failedUnpaid_append_of_ne hall (by decide) _ _
  | payment subscribed pending unlinked =>
      refine failedUnpaid_save hall (Repository.commit_singleton.mp hcommit) fun hf => ?_
      rw [pending] at hf
      cases hf
  | linked pending =>
      obtain ⟨u, happ, hcommit⟩ := Repository.commit_cons.mp hcommit
      have hu : FailedUnpaid Paid u := failedUnpaid_save hall happ pending.not_failed
      obtain ⟨-, rfl⟩ := Repository.apply_create (Repository.commit_singleton.mp hcommit)
      exact failedUnpaid_append_of_ne hu (by decide) _ _
  | refused pending unlinked =>
      refine failedUnpaid_save hall (Repository.commit_singleton.mp hcommit)
        fun _ authority ha => ?_
      cases unlinked.symm.trans ha
  | tried pending =>
      exact failedUnpaid_save hall (Repository.commit_singleton.mp hcommit) pending.not_failed
  | closed pending clock reason =>
      subst clock
      exact failedUnpaid_save hall (Repository.commit_singleton.mp hcommit)
        fun _ _ ha => reason.not_paid hfair pending ha
  | credited pending read renewal =>
      obtain ⟨u, happ, hcommit⟩ := Repository.commit_cons.mp hcommit
      have hu : FailedUnpaid Paid u := failedUnpaid_save hall happ fun hf => by cases hf
      obtain ⟨-, rfl⟩ := apply_saveWrite (Repository.commit_singleton.mp hcommit)
      exact failedUnpaid_append_of_ne hu (by decide) _ _

/-- In every run whose steps are consistent with the authorities that get paid, no
payment the gateway has answered as paid is stored as failed. -/
theorem paid_never_failed (hr : Run (Consistent Paid) ⟨noBilling, []⟩ c) :
    NeverLost c.shared := by
  have hfailed : FailedUnpaid Paid c.shared.records :=
    Service.repository_invariant (K := FailedUnpaid Paid) (billingTerms_kept settings)
      billingValid_empty
      (fun hcom hall hc => by
        obtain ⟨tid, -, f, hp⟩ := hcom.ok
        exact failedUnpaid_of_commit hcom.permitted
          (fairPast_of_run hcom.reached _ (List.mem_of_getElem? hp)) hall hc)
      (fun _ _ _ h => by cases h) hr
  intro i payment n hcur authority ha hanswered hstatus
  exact hfailed i payment n hcur hstatus authority ha (answered_paid hr authority hanswered)

end Consistent

/-! ## Two runs -/

/-- The gateway says the payment was made, but the process stops before the credit; the
customer's return page is then opened with another status. -/
def cancelledAfterPaid : List (Move (M := billingMachine soldAtDefault)) :=
  checkedOut ++ [.spawn (.settle "A1" "OK"), .act 2 .done, .act 2 .done,
    .act 2 (.ext (.verified (some 100) (some "r-1") none)), .stop 2,
    .spawn (.settle "A1" "NOK"), .act 2 .done, .act 2 .done, .act 2 (.clock newYear),
    .act 2 .done]

/-- The status and authority of a payment, and what the gateway answered as paid. -/
def paymentAt (w : World billing gateway) (i : String) :
    Option (PaymentStatus × Option String) × List String :=
  ((w.records.current .payment i).map fun x => (x.1.status, x.1.authority), w.outside)

set_option maxRecDepth 10000 in
theorem paid_never_failed_creditedRun : ∃ c : Config (billingMachine soldAtDefault),
    paymentAt c.shared "pay-1" = (some (.paid, some "A1"), ["A1"]) ∧ NeverLost c.shared := by
  have h : (firesIf (Consistent fun authority => authority = "A1") ⟨noBilling, []⟩
      creditedRun).map (fun c => paymentAt c.shared "pay-1") =
      some (some (.paid, some "A1"), ["A1"]) := by decide
  obtain ⟨c, hc, hs⟩ := Option.map_eq_some_iff.mp h
  exact ⟨c, hs, paid_never_failed (Run.of_good_moves hc)⟩

set_option maxRecDepth 10000 in
/-- A payment the gateway has answered as paid is stored as failed. -/
theorem cancelled_after_paid : ∃ c : Config (billingMachine soldAtDefault),
    Run anyMove ⟨noBilling, []⟩ c ∧
      paymentAt c.shared "pay-1" = (some (.failed, some "A1"), ["A1"]) ∧
      ¬NeverLost c.shared := by
  have h : (fires ⟨noBilling, []⟩ cancelledAfterPaid).map (fun c =>
      paymentAt c.shared "pay-1") = some (some (.failed, some "A1"), ["A1"]) := by decide
  obtain ⟨c, hc, hs⟩ := Option.map_eq_some_iff.mp h
  refine ⟨c, Run.of_moves hc, hs, fun hnever => ?_⟩
  obtain ⟨hpay, hanswered⟩ := Prod.mk.inj hs
  obtain ⟨⟨payment, n⟩, hcur, hx⟩ := Option.map_eq_some_iff.mp hpay
  obtain ⟨hstatus, hauth⟩ := Prod.mk.inj hx
  exact hnever "pay-1" payment n hcur "A1" hauth (hanswered ▸ List.mem_cons_self) hstatus

end SeoAgent.Billing
