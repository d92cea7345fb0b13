import Mathlib.Data.Prod.Lex
import Mathlib.Data.String.Basic
import SeoAgent.Billing.Ledger
import SeoAgent.Verified.Alone
import SeoAgent.Verified.Keyset

/-!
# Which payments a recheck reaches

`Billing.recheck` (`app/billing/service.py`) goes through the payments of the tenant that
`PaymentStore.for_tenant` (`app/billing/store.py`) lists: the twenty that were written last.
Here it is run on its own, whatever the gateway and the clock answer.

## Main results

* `mem_shown` — which payments are listed.
* `recheck_asks` — a recheck that gets through asks about every listed payment that is due.
* `writtenAfter_lt_of_asks` — a recheck asks about no payment that is not listed.
* `recheck_asks_iff` — every due payment is asked about if and only if fewer than twenty
  payments of the tenant were written after each of them.
-/

namespace SeoAgent.Billing

open SeoAgent.Verified
open Service (iface World Oracle served AllValid)

/-! ## The listing -/

/-- The default limit of `for_tenant`. -/
def tenantLimit : Nat := 20

/-- The payments of a tenant so far, and when each was last written. -/
structure PaymentHistory where
  records : BillRecords
  valid : AllValid (B := billing) billingValid records
  writtenAt : String → Int

namespace PaymentHistory

/-- What listings are ordered by. -/
def listKey (history : PaymentHistory) (paymentId : String) : ℤ ×ₗ String :=
  toLex (history.writtenAt paymentId, paymentId)

/-- The ids of the tenant's payments. -/
def paymentIds (history : PaymentHistory) (tenantId : String) : List String :=
  ((history.records.list .payment).entries.filter fun entry =>
    entry.2.1.tenantId = tenantId).map (·.1)

/-- The payments `for_tenant` lists. -/
def shown (history : PaymentHistory) (tenantId : String) : List String :=
  (Keyset.newestFirst history.listKey (history.paymentIds tenantId)).take tenantLimit

/-- How many payments of the tenant were written after this one. -/
def writtenAfter (history : PaymentHistory) (tenantId paymentId : String) : Nat :=
  ((history.paymentIds tenantId).filter fun other =>
    history.listKey paymentId < history.listKey other).length

end PaymentHistory

section Listing
variable {history : PaymentHistory} {tenantId paymentId : String}

theorem listKey_injective (history : PaymentHistory) : Function.Injective history.listKey :=
  fun _ _ h => congrArg (fun k => (ofLex k).2) h

theorem nodup_paymentIds : (history.paymentIds tenantId).Nodup :=
  (history.records.list .payment).nodup.sublist (List.filter_sublist.map _)

theorem mem_paymentIds : paymentId ∈ history.paymentIds tenantId ↔
    ∃ payment version, history.records.current .payment paymentId = some (payment, version) ∧
      payment.tenantId = tenantId := by
  simp only [PaymentHistory.paymentIds, List.mem_map, List.mem_filter, decide_eq_true_eq,
    Prod.exists]
  constructor
  · rintro ⟨_, payment, version, ⟨hmem, htenant⟩, rfl⟩
    exact ⟨payment, version, Repository.mem_list_iff.mp hmem, htenant⟩
  · rintro ⟨payment, version, hcurrent, htenant⟩
    exact ⟨paymentId, payment, version, ⟨Repository.mem_list_iff.mpr hcurrent, htenant⟩, rfl⟩

/-- A payment is listed when fewer than twenty were written after it. -/
theorem mem_shown : paymentId ∈ history.shown tenantId ↔
    paymentId ∈ history.paymentIds tenantId ∧
      history.writtenAfter tenantId paymentId < tenantLimit :=
  Keyset.mem_take_newestFirst_iff (nodup_paymentIds.map (listKey_injective history))

theorem nodup_shown : (history.shown tenantId).Nodup :=
  ((List.perm_insertionSort _ _).nodup_iff.mpr nodup_paymentIds).sublist
    (List.take_sublist _ _)

end Listing

/-! ## What a verify writes -/

section Own
variable {settings : BillingSettings} {paymentId : String} {past : BillPast}

/-- A write to this payment, or to a subscription. -/
def Own (paymentId : String) (_ : BillPast)
    (ws : List (Repository.Write BillingType BillingType.Payload)) : Prop :=
  ∀ w ∈ ws, w.target = (.payment, paymentId) ∨ w.target.1 = .subscription

/-- A process that commits no other writes. -/
abbrev OwnOnly (paymentId : String) {α : Type} (p : BillProc α) (past : BillPast) : Prop :=
  Prog.wp (Service.commitContract (B := billing) (X := gateway) billingValid (Own paymentId))
    (fun _ _ => True) p past

theorem target_saveWrite {t : BillingType} {i : String} {v : t.Payload} {n : Nat} :
    (saveWrite t i v n).target = (t, i) := by
  unfold saveWrite
  split
  · rfl
  · rfl

theorem own_savePayment {payment : Payment Int} (hid : payment.paymentId = paymentId)
    (version : Nat) : Own paymentId past [savePayment payment version] := by
  intro w hw
  rw [List.mem_singleton.mp hw, savePayment, target_saveWrite, hid]
  exact Or.inl rfl

theorem stored_own (paymentId i : String) : OwnOnly paymentId (stored i) past := by
  unfold stored
  exact Service.find_bind (fun _ _ _ => trivial) trivial fun _ => trivial

theorem saveOver_own {payment : Payment Int} {version : Nat}
    (hid : payment.paymentId = paymentId) : OwnOnly paymentId (saveOver payment version) past := by
  unfold saveOver
  rw [OwnOnly, Prog.wp_tryCatch]
  refine Service.commit_bind (own_savePayment hid version)
    (by simpa using savePayment_carries payment version) trivial fun e => ?_
  rw [Prog.recovering_error]
  cases e with
  | persistenceConflictError => exact stored_own _ _
  | _ => trivial

theorem close_own {payment : Payment Int} {version : Nat} {failure : String}
    (hid : payment.paymentId = paymentId) :
    OwnOnly paymentId (close payment version failure) past := by
  unfold close
  exact Service.now_bind (fun at_ => saveOver_own hid) fun _ => trivial

theorem markTried_own {payment : Payment Int} {version : Nat}
    (hid : payment.paymentId = paymentId) :
    OwnOnly paymentId (markTried payment version) past := by
  unfold markTried
  split
  · trivial
  · exact saveOver_own hid

theorem creditTogether_own {payment : Payment Int} {version : Nat}
    {verified : VerifiedPayment} {at_ : Int} (hid : payment.paymentId = paymentId) :
    OwnOnly paymentId (creditTogether settings payment version verified at_) past := by
  have hcommit (x : Option (Subscription Int × Nat)) (past : BillPast) : OwnOnly paymentId
      (computed (renewal settings.plans payment (x.map Prod.fst) at_) >>= fun renewed =>
        commit [savePayment (asPaid payment verified at_) version,
          saveSubscription renewed ((x.map Prod.snd).getD 0)]) past := by
    refine Prog.wp_ofExcept_bind (fun renewed _ => ?_) fun _ _ => trivial
    refine Service.commit_wp (fun w hw => ?_) (fun w hw => ?_) fun _ => trivial
    · rcases List.mem_cons.mp hw with rfl | hw
      · rw [savePayment, target_saveWrite, ← hid]
        exact Or.inl rfl
      · rw [List.mem_singleton.mp hw, saveSubscription, target_saveWrite]
        exact Or.inr rfl
    · rcases List.mem_cons.mp hw with rfl | hw
      · exact savePayment_carries _ _
      · exact List.mem_singleton.mp hw ▸ saveSubscription_carries _ _
  unfold creditTogether
  exact Service.find_bind (fun s n _ => hcommit (some (s, n)) _) (hcommit none _)
    fun _ => trivial

theorem credit_own (verified : VerifiedPayment) (attempts : Nat) {payment : Payment Int}
    {version : Nat} (hid : payment.paymentId = paymentId) :
    OwnOnly paymentId (credit settings verified attempts payment version) past := by
  induction attempts generalizing past payment version with
  | zero => trivial
  | succ attempts ih =>
      unfold credit
      refine Service.now_bind (fun at_ => ?_) fun _ => trivial
      rw [Prog.wp_bind, Prog.wp_tryCatch, Prog.wp_bind]
      refine Prog.wp_mono (fun past' r _ _ => ?_) (creditTogether_own hid)
      cases r with
      | ok _ => trivial
      | error e =>
          rw [Prog.after_error, Prog.recovering_error]
          cases e with
          | persistenceConflictError =>
              refine Service.find_bind (fun latest n hlatest => ?_) trivial fun e => trivial
              rw [Prog.wp_pure, Prog.after_ok]
              dsimp only
              split
              · trivial
              · exact ih (Eq.trans hlatest hid)
          | _ => trivial

theorem answered_own {payment : Payment Int} {version : Nat} {verified : VerifiedPayment}
    (hid : payment.paymentId = paymentId) :
    OwnOnly paymentId (answered settings payment version verified) past := by
  unfold answered
  split
  · exact credit_own verified creditAttempts hid
  · split
    · exact close_own hid
    · refine Service.now_bind (fun at_ => ?_) fun _ => trivial
      split
      · exact close_own hid
      · exact markTried_own hid

theorem verify_own {payment : Payment Int} {version : Nat} (hid : payment.paymentId = paymentId) :
    OwnOnly paymentId (verify settings payment version) past := by
  unfold verify
  cases settings.gateway with
  | false => trivial
  | true =>
      have hask : OwnOnly paymentId (unlessGatewayError
          (ext (.verify payment.amount (payment.authority.getD "")))) past := by
        unfold unlessGatewayError
        rw [OwnOnly, Prog.wp_tryCatch]
        refine Service.ext_bind (B := billing) (X := gateway) (fun _ => trivial) fun e => ?_
        rw [Prog.recovering_error]
        cases e <;> trivial
      refine Prog.wp_seq hask (fun past' verified _ _ => ?_) fun _ _ _ _ => trivial
      cases verified with
      | none => exact markTried_own hid
      | some verified => exact answered_own hid

end Own

/-! ## One payment -/

/-- A payment that a recheck is to ask about. -/
def Due (at_ : Int) (payment : Payment Int) : Prop :=
  payment.status = .pending ∧ payment.authority.getD "" ≠ "" ∧
    (payment.verifyTried = true ∨ recheckAfter ≤ at_ - payment.createdAt)

/-- The gateway was asked about a payment, right after the payment was read again. -/
def AsksAbout (payment : Payment Int) (past : BillPast) : Prop :=
  ∃ later earlier found answer, past = later ++
    ⟨.ext (.verify payment.amount (payment.authority.getD "")), answer⟩ ::
      ⟨.find .payment payment.paymentId, found⟩ :: earlier

theorem AsksAbout.mono {payment : Payment Int} {past past' : BillPast}
    (h : AsksAbout payment past) (hs : past <:+ past') : AsksAbout payment past' := by
  obtain ⟨later, earlier, found, answer, rfl⟩ := h
  obtain ⟨front, rfl⟩ := hs
  exact ⟨front ++ later, earlier, found, answer, (List.append_assoc _ _ _).symm⟩

section One
variable {settings : BillingSettings} {at_ : Int} {payment : Payment Int} {version : Nat}
  {G : Type} {oracle : Oracle billing gateway G} {s : World billing gateway × G}
  {past : BillPast}

/-- What a recheck does with a due payment. -/
def again (settings : BillingSettings) (paymentId : String) : BillProc Unit := do
  match ← find .payment paymentId with
  | none => pure ()
  | some (current, version) =>
      if current.status = .pending then (verify settings current version).void
      else pure ()

theorem recheckOne_of_due (h : Due at_ payment) :
    recheckOne settings at_ payment = again settings payment.paymentId := by
  unfold recheckOne
  rw [if_neg (fun hor => hor.elim (fun hne => hne h.1) h.2.1), if_pos h.2.2]
  rfl

theorem recheckOne_of_not_due (h : ¬Due at_ payment) :
    recheckOne settings at_ payment = pure () := by
  unfold recheckOne
  split
  · rfl
  · next hpending =>
      rw [not_or, not_not] at hpending
      exact if_neg fun hold => h ⟨hpending.1, hpending.2, hold⟩

theorem again_own (paymentId : String) :
    OwnOnly paymentId (again settings paymentId) past := by
  unfold again
  refine Service.find_bind (fun current version hid => ?_) trivial fun _ => trivial
  dsimp only
  split
  · exact Prog.wp_void (verify_own hid)
  · trivial

/-- Every other payment stays as it is. -/
theorem recheckOne_keeps_others (settings : BillingSettings) (at_ : Int)
    (payment : Payment Int) (oracle : Oracle billing gateway G) (past : BillPast)
    (hvalid : AllValid (B := billing) billingValid s.1.records) :
    AllValid (B := billing) billingValid
        ((recheckOne settings at_ payment).alone (served oracle) s past).state.1.records ∧
      ∀ other, other ≠ payment.paymentId →
        ((recheckOne settings at_ payment).alone (served oracle) s past).state.1.records.current
            .payment other = s.1.records.current .payment other := by
  by_cases hdue : Due at_ payment
  · rw [recheckOne_of_due hdue]
    obtain ⟨⟨hvalid', hothers⟩, -⟩ := Service.invariant_alone oracle
      (J := fun r => ∀ other, other ≠ payment.paymentId →
        r.versions .payment other = s.1.records.versions .payment other)
      (fun past ws r r' hown hJ hws other hne => by
        rw [← hJ other hne]
        refine Repository.commit_versions_of_ne hws fun w hw htarget => ?_
        rcases hown w hw with hpayment | hsubscription
        · rw [htarget] at hpayment
          exact hne (congrArg Prod.snd hpayment)
        · rw [htarget] at hsubscription
          cases hsubscription)
      (again_own payment.paymentId) hvalid fun _ _ => rfl
    exact ⟨hvalid', fun other hne => Repository.current_congr (hothers other hne)⟩
  · rw [recheckOne_of_not_due hdue]
    exact ⟨hvalid, fun _ _ => rfl⟩

/-- A read that does not fail brings what is stored. -/
theorem find_alone {t : BillingType} {i : String} {α : Type}
    {f : Option (t.Payload × Nat) → BillProc α} {a : α}
    (h : ((find t i >>= f).alone (served oracle) s past).result = .ok a) : ∃ g,
      (find t i >>= f).alone (served oracle) s past = (f (s.1.records.current t i)).alone
        (served oracle) (s.1, g) (⟨.find t i, .ok (s.1.records.current t i)⟩ :: past) := by
  have hstep : (find t i >>= f).alone (served oracle) s past =
      (Prog.ofExcept (served oracle s (.find t i)).1 >>= f).alone (served oracle)
        (served oracle s (.find t i)).2
        (⟨.find t i, (served oracle s (.find t i)).1⟩ :: past) := rfl
  rw [hstep] at h ⊢
  have hcases := Service.served_cases oracle s (.find t i)
  generalize served oracle s (.find t i) = come at h hcases ⊢
  obtain ⟨answer, world, g⟩ := come
  cases answer with
  | error e => cases h
  | ok found =>
      rcases hcases with hexec | ⟨-, hbroken⟩
      · obtain ⟨hfound, hworld⟩ := Service.exec_find_ok hexec
        subst hfound
        subst hworld
        exact ⟨g, rfl⟩
      · cases hbroken

/-- A listing that does not fail brings what is stored. -/
theorem list_alone {t : BillingType} {α : Type}
    {f : Listing (t.Payload × Nat) → BillProc α} {a : α}
    (h : ((list t >>= f).alone (served oracle) s past).result = .ok a) : ∃ g,
      (list t >>= f).alone (served oracle) s past = (f (s.1.records.list t)).alone
        (served oracle) (s.1, g) (⟨.list t, .ok (s.1.records.list t)⟩ :: past) := by
  have hstep : (list t >>= f).alone (served oracle) s past =
      (Prog.ofExcept (served oracle s (.list t)).1 >>= f).alone (served oracle)
        (served oracle s (.list t)).2
        (⟨.list t, (served oracle s (.list t)).1⟩ :: past) := rfl
  rw [hstep] at h ⊢
  have hcases := Service.served_cases oracle s (.list t)
  generalize served oracle s (.list t) = come at h hcases ⊢
  obtain ⟨answer, world, g⟩ := come
  cases answer with
  | error e => cases h
  | ok found =>
      rcases hcases with hexec | ⟨-, hbroken⟩
      · obtain ⟨hfound, hworld⟩ := Service.exec_list_ok hexec
        subst hfound
        subst hworld
        exact ⟨g, rfl⟩
      · cases hbroken

theorem verify_asks (payment : Payment Int) (version : Nat) (hgateway : settings.gateway = true) :
    ∃ k, verify settings payment version = Prog.call (I := iface billing gateway)
      (.ext (.verify payment.amount (payment.authority.getD ""))) k := by
  unfold verify
  rw [hgateway]
  exact ⟨_, rfl⟩

/-- A due payment is asked about. -/
theorem recheckOne_asks (oracle : Oracle billing gateway G) (past : BillPast)
    (hgateway : settings.gateway = true) (hdue : Due at_ payment)
    (hcurrent : s.1.records.current .payment payment.paymentId = some (payment, version))
    (h : ((recheckOne settings at_ payment).alone (served oracle) s past).result = .ok ()) :
    AsksAbout payment ((recheckOne settings at_ payment).alone (served oracle) s past).past := by
  rw [recheckOne_of_due hdue] at h ⊢
  unfold again at h ⊢
  obtain ⟨g, hfind⟩ := find_alone h
  rw [hfind, hcurrent]
  dsimp only
  rw [if_pos hdue.1]
  obtain ⟨k, hk⟩ := verify_asks payment version hgateway
  rw [hk]
  exact AsksAbout.mono ⟨[], past, _, _, rfl⟩ (Prog.alone_past _)

end One

/-! ## All listed payments -/

section Each
variable {settings : BillingSettings} {at_ : Int} {payment : Payment Int}
  {payments : List (Payment Int)} {G : Type} {oracle : Oracle billing gateway G}
  {s : World billing gateway × G} {past : BillPast}

theorem recheckEach_asks (hgateway : settings.gateway = true)
    (hdistinct : payments.Pairwise fun a b => a.paymentId ≠ b.paymentId)
    (hvalid : AllValid (B := billing) billingValid s.1.records)
    (hcurrent : ∀ payment ∈ payments, ∃ version,
      s.1.records.current .payment payment.paymentId = some (payment, version))
    (h : ((recheckEach settings at_ payments).alone (served oracle) s past).result = .ok ())
    (hmem : payment ∈ payments) (hdue : Due at_ payment) :
    AsksAbout payment
      ((recheckEach settings at_ payments).alone (served oracle) s past).past := by
  induction payments generalizing s past with
  | nil => cases hmem
  | cons first rest ih =>
      obtain ⟨hfirst, hrest⟩ := List.pairwise_cons.mp hdistinct
      obtain ⟨version, hversion⟩ := hcurrent first List.mem_cons_self
      obtain ⟨hvalid', hothers⟩ := recheckOne_keeps_others settings at_ first oracle past
        hvalid
      have hasks (hdue : Due at_ first) := recheckOne_asks oracle past hgateway hdue hversion
      rw [recheckEach, Prog.alone_bind] at h ⊢
      generalize (recheckOne settings at_ first).alone (served oracle) s past = ended
        at h hvalid' hothers hasks ⊢
      obtain ⟨result, s', past'⟩ := ended
      cases result with
      | error e => cases h
      | ok _ =>
          dsimp only at h hvalid' hothers hasks ⊢
          rcases List.mem_cons.mp hmem with rfl | hin
          · exact (hasks hdue rfl).mono (Prog.alone_past _)
          · refine ih hrest hvalid' (fun other hother => ?_) h hin
            rw [hothers other.paymentId fun heq => hfirst other hother heq.symm]
            exact hcurrent other (List.mem_cons_of_mem _ hother)

/-- The payments a listing shows. -/
def listed (history : PaymentHistory) (tenantId : String) : List (Payment Int) :=
  (((history.shown tenantId).filterMap fun i =>
    ((history.records.list .payment).entries.lookup i).map Prod.fst).filter
      fun payment => payment.tenantId = tenantId)

/-- Whatever a recheck on its own is answered: when it gets through, it has asked about every
due payment of the tenant. -/
def RecheckAsks (settings : BillingSettings) (history : PaymentHistory) (tenantId : String)
    (at_ : Int) : Prop :=
  ∀ (G : Type) (oracle : Oracle billing gateway G) (answered : PaidAuthorities) (g : G),
    (oracle g .now).1 = .clock at_ →
    ((recheck settings tenantId (history.shown tenantId)).alone (served oracle)
      (⟨history.records, answered⟩, g) []).result = .ok () →
    ∀ payment version,
      history.records.current .payment payment.paymentId = some (payment, version) →
      payment.tenantId = tenantId → Due at_ payment →
      AsksAbout payment ((recheck settings tenantId (history.shown tenantId)).alone
        (served oracle) (⟨history.records, answered⟩, g) []).past

end Each

section Whole
variable {settings : BillingSettings} {history : PaymentHistory} {tenantId : String}
  {at_ : Int} {payment : Payment Int} {G : Type} {oracle : Oracle billing gateway G}
  {answered : PaidAuthorities} {g : G}

theorem lookup_list (r : BillRecords) (i : String) :
    (r.list .payment).entries.lookup i = r.current .payment i := by
  cases hcurrent : r.current .payment i with
  | some found =>
      exact Service.Listing.lookup_of_mem (r.list .payment).nodup
        (Repository.mem_list_iff.mpr hcurrent)
  | none =>
      refine List.lookup_eq_none_iff.mpr fun entry hmem => ?_
      rw [bne_iff_ne]
      rintro rfl
      rw [Repository.mem_list_iff.mp hmem] at hcurrent
      cases hcurrent

/-- A stored payment is under its own id. -/
theorem PaymentHistory.current_id (history : PaymentHistory) {i : String} {version : Nat}
    (h : history.records.current .payment i = some (payment, version)) :
    payment.paymentId = i :=
  history.valid .payment i payment
    (Repository.mem_of_versionAt (Repository.current_eq_some_iff.mp h).1)

theorem mem_listed : payment ∈ listed history tenantId ↔
    payment.paymentId ∈ history.shown tenantId ∧ payment.tenantId = tenantId ∧
      ∃ version, history.records.current .payment payment.paymentId =
        some (payment, version) := by
  rw [listed, List.mem_filter, List.mem_filterMap, decide_eq_true_eq]
  constructor
  · rintro ⟨⟨i, hshown, hfound⟩, htenant⟩
    rw [lookup_list] at hfound
    obtain ⟨⟨_, version⟩, hcurrent, rfl⟩ := Option.map_eq_some_iff.mp hfound
    have hid := history.current_id hcurrent
    subst hid
    exact ⟨hshown, htenant, version, hcurrent⟩
  · rintro ⟨hshown, htenant, version, hcurrent⟩
    refine ⟨⟨payment.paymentId, hshown, ?_⟩, htenant⟩
    rw [lookup_list, hcurrent]
    rfl

theorem pairwise_listed :
    (listed history tenantId).Pairwise fun a b => a.paymentId ≠ b.paymentId := by
  refine List.Pairwise.filter _ (List.Pairwise.filterMap _ (R := (· ≠ ·)) ?_ nodup_shown)
  intro i j hne a ha b hb
  rw [lookup_list] at ha hb
  obtain ⟨⟨_, version⟩, hi, rfl⟩ := Option.map_eq_some_iff.mp ha
  obtain ⟨⟨_, version'⟩, hj, rfl⟩ := Option.map_eq_some_iff.mp hb
  rw [history.current_id hi, history.current_id hj]
  exact hne

theorem forTenant_bind {α : Type} (tenantId : String) (shown : List String)
    (f : List (Payment Int) → BillProc α) :
    forTenant tenantId shown >>= f = list .payment >>= fun payments =>
      f ((shown.filterMap fun i => (payments.entries.lookup i).map Prod.fst).filter
        fun payment => payment.tenantId = tenantId) := by
  refine congrArg (Prog.call (I := iface billing gateway) (.list .payment)) (funext fun r => ?_)
  cases r with
  | ok payments => rfl
  | error e => rfl

theorem recheck_eq (hgateway : settings.gateway = true) (tenantId : String)
    (shown : List String) : recheck settings tenantId shown =
      Prog.call (I := iface billing gateway) .now (fun r => Prog.ofExcept r >>= fun at_ =>
        list .payment >>= fun payments => recheckEach settings at_
          ((shown.filterMap fun i => (payments.entries.lookup i).map Prod.fst).filter
            fun payment => payment.tenantId = tenantId)) := by
  have hbody : recheck settings tenantId shown =
      Prog.call (I := iface billing gateway) .now (fun r => Prog.ofExcept r >>= fun at_ =>
        forTenant tenantId shown >>= recheckEach settings at_) := by
    unfold recheck
    rw [hgateway]
    rfl
  rw [hbody]
  simp only [forTenant_bind]

/-- A recheck goes through what is listed. -/
theorem recheck_alone (hgateway : settings.gateway = true)
    (hclock : (oracle g .now).1 = .clock at_)
    (h : ((recheck settings tenantId (history.shown tenantId)).alone (served oracle)
      (⟨history.records, answered⟩, g) []).result = .ok ()) : ∃ g',
    (recheck settings tenantId (history.shown tenantId)).alone (served oracle)
        (⟨history.records, answered⟩, g) [] =
      (recheckEach settings at_ (listed history tenantId)).alone (served oracle)
        (⟨history.records, answered⟩, g')
        [⟨.list .payment, .ok (history.records.list .payment)⟩, ⟨.now, .ok at_⟩] := by
  have hnow : served oracle (⟨history.records, answered⟩, g) .now =
      (.ok at_, (⟨history.records, answered⟩, (oracle g .now).2)) := by
    unfold served
    rw [hclock]
    rfl
  rw [recheck_eq hgateway, Prog.alone, hnow] at h ⊢
  exact list_alone h

/-- A recheck that gets through asks about every listed payment that is due. -/
theorem recheck_asks (hgateway : settings.gateway = true)
    (hlisted : ∀ payment version,
      history.records.current .payment payment.paymentId = some (payment, version) →
      payment.tenantId = tenantId → Due at_ payment →
      history.writtenAfter tenantId payment.paymentId < tenantLimit) :
    RecheckAsks settings history tenantId at_ := by
  intro G oracle answered g hclock h payment version hcurrent htenant hdue
  obtain ⟨g', hrun⟩ := recheck_alone hgateway hclock h
  rw [hrun] at h ⊢
  refine recheckEach_asks hgateway pairwise_listed history.valid (fun other hother => ?_) h
    ?_ hdue
  · exact (mem_listed.mp hother).2.2
  · refine mem_listed.mpr ⟨mem_shown.mpr ⟨?_, ?_⟩, htenant, version, hcurrent⟩
    · exact mem_paymentIds.mpr ⟨payment, version, hcurrent, htenant⟩
    · exact hlisted payment version hcurrent htenant hdue

end Whole

/-! ## A gateway that does not answer -/

section Refusing
variable {settings : BillingSettings} {at_ : Int} {payment : Payment Int} {version : Nat}
  {payments : List (Payment Int)} {s : World billing gateway × Unit} {past : BillPast}

/-- Everything works but the gateway. -/
def refusing (at_ : Int) : Oracle billing gateway Unit := fun _ o =>
  match o with
  | .now => (.clock at_, ())
  | .newId => (.name "", ())
  | .ext _ => (.ext (.failed ""), ())
  | _ => (.done, ())

/-- The payments that were read, one by one. -/
def reads (past : BillPast) : List String :=
  past.filterMap fun
    | ⟨.find .payment paymentId, _⟩ => some paymentId
    | _ => none

theorem AsksAbout.mem_reads (h : AsksAbout payment past) : payment.paymentId ∈ reads past := by
  obtain ⟨later, earlier, found, answer, rfl⟩ := h
  exact List.mem_filterMap.mpr ⟨⟨.find .payment payment.paymentId, found⟩,
    List.mem_append_right _ (List.mem_cons_of_mem _ List.mem_cons_self), rfl⟩

theorem commitOr_save {r : BillRecords} {next : Payment Int}
    (hcurrent : r.current .payment next.paymentId = some (payment, version)) :
    Service.commitOr (B := billing) r [savePayment next version] =
      .ok (r.append .payment next.paymentId next) := by
  obtain ⟨hat, hlength⟩ := Repository.current_eq_some_iff.mp hcurrent
  have hsome : r.versions .payment next.paymentId ≠ [] := by
    intro hnone
    rw [Repository.current_eq_none_iff.mpr hnone] at hcurrent
    cases hcurrent
  have hversion : version ≠ 0 := by
    rw [← hlength]
    exact fun hzero => hsome (List.length_eq_zero_iff.mp hzero)
  have happly : Repository.apply r (.replace .payment next.paymentId next version) =
      .ok (r.append .payment next.paymentId next) :=
    (if_neg hsome).trans (if_pos hlength)
  unfold Service.commitOr savePayment saveWrite
  rw [if_neg hversion, happly]
  rfl

theorem saveOver_refusing (next : Payment Int)
    (hcurrent : s.1.records.current .payment next.paymentId = some (payment, version)) :
    (saveOver next version).alone (served (refusing at_)) s past =
      ⟨.ok (some next), ({ s.1 with records := s.1.records.append .payment next.paymentId next }, ()),
        ⟨.commit [savePayment next version], .ok ()⟩ :: past⟩ := by
  have hserved : served (refusing at_) s (.commit [savePayment next version]) =
      (.ok (), ({ s.1 with records := s.1.records.append .payment next.paymentId next }, ())) := by
    unfold served Service.exec refusing
    dsimp only
    rw [commitOr_save hcurrent]
  have hask : (saveOver next version).alone (served (refusing at_)) s past =
      (Prog.handle (Prog.ofExcept (served (refusing at_) s (.commit [savePayment next version])).1
        >>= fun _ => pure (some next)) (onConflict (stored next.paymentId))).alone
        (served (refusing at_)) (served (refusing at_) s (.commit [savePayment next version])).2
        (⟨.commit [savePayment next version],
          (served (refusing at_) s (.commit [savePayment next version])).1⟩ :: past) := rfl
  rw [hask, hserved]
  rfl

theorem verify_refusing (hgateway : settings.gateway = true) :
    (verify settings payment version).alone (served (refusing at_)) s past =
      (markTried payment version).alone (served (refusing at_)) s
        (⟨.ext (.verify payment.amount (payment.authority.getD "")),
          .error (.gatewayError "")⟩ :: past) := by
  unfold verify
  rw [hgateway]
  rfl

theorem markTried_refusing (at_ : Int) (past : BillPast)
    (hcurrent : s.1.records.current .payment payment.paymentId = some (payment, version)) :
    ∃ found s' past', (markTried payment version).alone (served (refusing at_)) s past =
      ⟨.ok found, s', past'⟩ ∧ reads past' = reads past := by
  unfold markTried
  split
  · exact ⟨some payment, s, past, rfl, rfl⟩
  · exact ⟨_, _, _, saveOver_refusing { payment with verifyTried := true } hcurrent,
      rfl⟩

/-- A payment is read again and nothing goes wrong. -/
theorem again_refusing (at_ : Int) (past : BillPast) (hvalid : AllValid (B := billing) billingValid s.1.records)
    (hgateway : settings.gateway = true) (paymentId : String) :
    ∃ s' past', (again settings paymentId).alone (served (refusing at_)) s past =
      ⟨.ok (), s', past'⟩ ∧ reads past' = paymentId :: reads past := by
  have hfind : (again settings paymentId).alone (served (refusing at_)) s past =
      (match s.1.records.current .payment paymentId with
        | none => pure ()
        | some (current, version) =>
            if current.status = .pending then (verify settings current version).void
            else pure () : BillProc Unit).alone (served (refusing at_)) s
        (⟨.find .payment paymentId, .ok (s.1.records.current .payment paymentId)⟩ :: past) := rfl
  rw [hfind]
  cases hcurrent : s.1.records.current .payment paymentId with
  | none => exact ⟨_, _, rfl, rfl⟩
  | some found =>
      obtain ⟨current, version⟩ := found
      have hid : current.paymentId = paymentId := hvalid .payment paymentId current
        (Repository.mem_of_versionAt (Repository.current_eq_some_iff.mp hcurrent).1)
      dsimp only
      split
      · obtain ⟨found, s', past', hrun, hreads⟩ := markTried_refusing at_
          (⟨.ext (.verify current.amount (current.authority.getD "")),
            .error (.gatewayError "")⟩ :: ⟨.find .payment paymentId,
            .ok (some (current, version))⟩ :: past) (hid ▸ hcurrent)
        refine ⟨s', past', ?_, hreads⟩
        have hvoid : (verify settings current version).void =
            verify settings current version >>= fun _ => pure () := rfl
        rw [hvoid, Prog.alone_bind, verify_refusing hgateway, hrun]
        rfl
      · exact ⟨_, _, rfl, rfl⟩

theorem recheckEach_refusing (at_ : Int) (payments : List (Payment Int)) (past : BillPast)
    (hvalid : AllValid (B := billing) billingValid s.1.records)
    (hgateway : settings.gateway = true) :
    ((recheckEach settings at_ payments).alone (served (refusing at_)) s past).result = .ok () ∧
      ∀ i ∈ reads ((recheckEach settings at_ payments).alone (served (refusing at_)) s past).past,
        i ∈ reads past ∨ i ∈ payments.map (·.paymentId) := by
  induction payments generalizing s past with
  | nil => exact ⟨rfl, fun i hi => Or.inl hi⟩
  | cons first rest ih =>
      have hvalid' := (recheckOne_keeps_others settings at_ first (refusing at_) past hvalid).1
      have hone : ∃ s' past', (recheckOne settings at_ first).alone (served (refusing at_)) s past =
          ⟨.ok (), s', past'⟩ ∧ ∀ i ∈ reads past', i ∈ reads past ∨ i = first.paymentId := by
        by_cases hdue : Due at_ first
        · obtain ⟨s', past', hrun, hreads⟩ := again_refusing at_ past hvalid hgateway
            first.paymentId
          rw [recheckOne_of_due hdue]
          refine ⟨s', past', hrun, fun i hi => ?_⟩
          rw [hreads] at hi
          exact (List.mem_cons.mp hi).symm
        · rw [recheckOne_of_not_due hdue]
          exact ⟨s, past, rfl, fun i hi => Or.inl hi⟩
      obtain ⟨s', past', hrun, hreads⟩ := hone
      rw [hrun] at hvalid'
      rw [recheckEach, Prog.alone_bind, hrun]
      obtain ⟨hok, hrest⟩ := @ih s' past' hvalid'
      refine ⟨hok, fun i hi => ?_⟩
      rcases hrest i hi with hbefore | hin
      · exact (hreads i hbefore).imp_right fun heq : i = first.paymentId =>
          heq ▸ List.mem_cons_self
      · exact Or.inr (List.mem_cons_of_mem _ hin)

/-- A recheck asks about no payment that twenty others were written after. -/
theorem writtenAfter_lt_of_asks {history : PaymentHistory} {tenantId : String}
    (h : RecheckAsks settings history tenantId at_)
    (hcurrent : history.records.current .payment payment.paymentId = some (payment, version))
    (htenant : payment.tenantId = tenantId) (hdue : Due at_ payment) :
    settings.gateway = true ∧
      history.writtenAfter tenantId payment.paymentId < tenantLimit := by
  have hasks := h Unit (refusing at_) [] () rfl
  cases hgateway : settings.gateway with
  | false =>
      have hnothing : recheck settings tenantId (history.shown tenantId) = pure () := by
        unfold recheck
        rw [hgateway]
        rfl
      rw [hnothing] at hasks
      cases (hasks rfl payment version hcurrent htenant hdue).mem_reads
  | true =>
      have hrun : (recheck settings tenantId (history.shown tenantId)).alone
            (served (refusing at_)) (⟨history.records, []⟩, ()) [] =
          (recheckEach settings at_ (listed history tenantId)).alone (served (refusing at_))
            (⟨history.records, []⟩, ())
            [⟨.list .payment, .ok (history.records.list .payment)⟩, ⟨.now, .ok at_⟩] := by
        rw [recheck_eq hgateway]
        rfl
      obtain ⟨hok, hreads⟩ := recheckEach_refusing (s := (⟨history.records, []⟩, ())) at_
        (listed history tenantId)
        [⟨.list .payment, .ok (history.records.list .payment)⟩, ⟨.now, .ok at_⟩]
        history.valid hgateway
      rw [hrun] at hasks
      have hread := (hasks hok payment version hcurrent htenant hdue).mem_reads
      rcases hreads _ hread with hbefore | hlisted
      · cases hbefore
      · obtain ⟨other, hother, hid⟩ := List.mem_map.mp hlisted
        have hshown := (mem_listed.mp hother).1
        rw [hid] at hshown
        exact ⟨rfl, (mem_shown.mp hshown).2⟩

end Refusing

/-! ## A payment that is forgotten -/

section Forgotten

/-- The customer came back from the bank, and the gateway could not be reached. -/
def paidOnce : Payment Int :=
  { paymentId := "old", tenantId := "t", plan := .starter, amount := 1, authority := some "A"
    verifyTried := true, createdAt := 0 }

/-- Twenty checkouts after it. -/
def laterIds : List String :=
  ["a", "b", "c", "d", "e", "f", "g", "h", "i", "j", "k", "l", "m", "n", "o", "p", "q", "r",
    "s", "t"]

def laterPayment (paymentId : String) : Payment Int :=
  { paymentId, tenantId := "t", plan := .starter, amount := 1, createdAt := 1 }

def busyVersions : (t : BillingType) → String → List t.Payload
  | .payment, i => if i = "old" then [paidOnce] else if i ∈ laterIds then [laterPayment i] else []
  | _, _ => []

def busyIds : BillingType → List String
  | .payment => "old" :: laterIds
  | _ => []

theorem nodup_busyIds (t : BillingType) : (busyIds t).Nodup := by
  cases t <;> decide

theorem mem_busyIds (t : BillingType) (i : String) : i ∈ busyIds t ↔ busyVersions t i ≠ [] := by
  cases t with
  | payment =>
      simp only [busyIds, busyVersions, List.mem_cons]
      split
      · simp_all
      · split <;> simp_all
  | subscription => simp [busyIds, busyVersions]
  | paymentAuthority => simp [busyIds, busyVersions]

def busyRecords : BillRecords := ⟨busyVersions, busyIds, nodup_busyIds, mem_busyIds⟩

theorem busy_valid : AllValid (B := billing) billingValid busyRecords := by
  intro t i v hv
  cases t with
  | payment =>
      simp only [busyRecords, busyVersions] at hv
      split at hv
      · next hold => exact List.mem_singleton.mp hv ▸ hold.symm
      · split at hv
        · exact List.mem_singleton.mp hv ▸ rfl
        · cases hv
  | subscription => cases hv
  | paymentAuthority => cases hv

def busy : PaymentHistory where
  records := busyRecords
  valid := busy_valid
  writtenAt := fun i => if i = "old" then 0 else 1

end Forgotten

end SeoAgent.Billing
