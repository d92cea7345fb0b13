import SeoAgent.Billing.Models

/-!
# Turning a payment into time

The time a payment adds to a subscription (`Billing._remaining_in` and the new
subscription of `Billing._credit`, `app/billing/service.py`). What is left of a
running subscription is carried over: as days to the same plan and from a trial, and
to another plan as the days its price still buys.

The functions are written over `TimeArith`: over `ℚ` they say what the rule means,
over `Int` what Python computes, with the ranges of `datetime` and `timedelta`.

## Main results

* `renewal_worth` — a payment adds one period of its plan to what was left.
* `credits_worth` — two payments in either order, and the one case where the order
  shows: the days of a running trial.
* `renewal_ok_iff` — when Python's arithmetic gets through.
* `credited_ok_iff` — when it gets through a whole history of purchases.
* `remainingIn_rounding` — the two readings are at most half a microsecond apart.
-/

namespace SeoAgent.Billing

open SeoAgent.Verified TimeArith

/-- The events a subscription keeps. -/
def historyLimit : Nat := 50

section Rule
variable {τ : Type} [LinearOrder τ] [Zero τ] [Sub τ] [TimeArith τ]

/-- The time left, in the plan being bought. -/
def remainingIn (plans : PlanId → Plan) (current : Option (Subscription τ))
    (plan : PlanId) (now : τ) : Except ArithmeticError τ :=
  match current with
  | none => .ok 0
  | some current =>
      if current.endsAt ≤ now then .ok 0
      else if current.plan = plan ∨ current.plan = .trial then .ok (current.endsAt - now)
      else do
        let worth ← times (current.endsAt - now) (plans current.plan).price
        divided worth (plans plan).price

/-- The new end of a subscription a payment for `plan` extends. -/
def renewedEnd (plans : PlanId → Plan) (current : Option (Subscription τ))
    (plan : PlanId) (now : τ) : Except ArithmeticError τ := do
  let remaining ← remainingIn plans current plan now
  let moved ← shift now remaining
  shift moved period

omit [LinearOrder τ] [Zero τ] [Sub τ] [TimeArith τ] in
/-- The last events of a list, `xs[-50:]`. -/
def lastEvents (events : List (SubscriptionEvent τ)) : List (SubscriptionEvent τ) :=
  events.drop (events.length - historyLimit)

omit [LinearOrder τ] [Zero τ] [Sub τ] [TimeArith τ] in
/-- The newest event is always kept. -/
theorem lastEvents_append (events : List (SubscriptionEvent τ))
    (event : SubscriptionEvent τ) :
    (lastEvents (events ++ [event])).getLast? = some event := by
  have hlt : (events ++ [event]).length - historyLimit < (events ++ [event]).length := by
    simp only [List.length_append, List.length_singleton, historyLimit]
    omega
  unfold lastEvents
  rw [List.getLast?_drop, if_neg (by omega), List.getLast?_concat]

/-- The subscription a paid payment makes of the current one. -/
def renewal (plans : PlanId → Plan) (payment : Payment τ)
    (current : Option (Subscription τ)) (now : τ) :
    Except ArithmeticError (Subscription τ) :=
  (renewedEnd plans current payment.plan now).map fun endsAt =>
    { tenantId := payment.tenantId
      plan := payment.plan
      startedAt := (current.map Subscription.startedAt).getD now
      endsAt
      history := lastEvents ((current.map Subscription.history).getD [] ++
        [{ at_ := now, reason := "paid", plan := payment.plan, endsAt,
           paymentId := some payment.paymentId }]) }

/-- The subscription of a tenant that has just signed up. -/
def startedTrial (tenantId : String) (now : τ) :
    Except ArithmeticError (Subscription τ) :=
  (shift now trialLength).map fun endsAt =>
    { tenantId, plan := .trial, startedAt := now, endsAt
      history := [{ at_ := now, reason := "trial_started", plan := .trial, endsAt }] }

/-- A renewal is of the payment's plan and ends at the new end. -/
theorem renewal_eq_ok {plans : PlanId → Plan} {payment : Payment τ}
    {current : Option (Subscription τ)} {now : τ} {s : Subscription τ}
    (h : renewal plans payment current now = .ok s) :
    s.plan = payment.plan ∧ renewedEnd plans current payment.plan now = .ok s.endsAt := by
  unfold renewal at h
  cases he : renewedEnd plans current payment.plan now with
  | error e =>
      rw [he] at h
      cases h
  | ok endsAt =>
      rw [he] at h
      obtain rfl := Except.ok.inj h
      exact ⟨rfl, rfl⟩

theorem renewal_isOk {plans : PlanId → Plan} {payment : Payment τ}
    {current : Option (Subscription τ)} {now : τ} :
    (∃ s, renewal plans payment current now = .ok s) ↔
      ∃ e, renewedEnd plans current payment.plan now = .ok e := by
  constructor
  · rintro ⟨s, hs⟩
    exact ⟨s.endsAt, (renewal_eq_ok hs).2⟩
  · rintro ⟨e, he⟩
    unfold renewal
    rw [he]
    exact ⟨_, rfl⟩

/-- A renewal is the tenant's, and its last event is the payment's. -/
theorem renewal_last {plans : PlanId → Plan} {payment : Payment τ}
    {current : Option (Subscription τ)} {now : τ} {s : Subscription τ}
    (h : renewal plans payment current now = .ok s) :
    s.tenantId = payment.tenantId ∧ s.history.getLast? = some
      { at_ := now, reason := "paid", plan := s.plan, endsAt := s.endsAt
        paymentId := some payment.paymentId } := by
  unfold renewal at h
  cases he : renewedEnd plans current payment.plan now with
  | error e =>
      rw [he] at h
      cases h
  | ok endsAt =>
      rw [he] at h
      obtain rfl := Except.ok.inj h
      exact ⟨rfl, lastEvents_append _ _⟩

omit [LinearOrder τ] [Zero τ] [Sub τ] in
/-- A trial is the tenant's, and starts now. -/
theorem startedTrial_eq_ok {tenantId : String} {now : τ} {s : Subscription τ}
    (h : startedTrial tenantId now = .ok s) :
    s.tenantId = tenantId ∧ s.plan = .trial ∧ shift now trialLength = .ok s.endsAt := by
  unfold startedTrial at h
  cases he : shift now (trialLength : τ) with
  | error e =>
      rw [he] at h
      cases h
  | ok endsAt =>
      rw [he] at h
      obtain rfl := Except.ok.inj h
      exact ⟨rfl, rfl, rfl⟩

end Rule

/-! ## What the rule means -/

section Exact
variable {prices : Prices} {current : Option (Subscription ℚ)} {plan : PlanId} {now : ℚ}

/-- What is left of a subscription, in tomans times microseconds: the time left at the
price of its plan, and the time left of a trial at the price of `plan`. -/
def worth (plans : PlanId → Plan) (current : Option (Subscription ℚ)) (plan : PlanId)
    (now : ℚ) : ℚ :=
  match current with
  | none => 0
  | some current =>
      if current.endsAt ≤ now then 0
      else (current.endsAt - now) *
        (plans (if current.plan = .trial then plan else current.plan)).price

/-- The time left of a running trial. -/
def trialLeft (current : Option (Subscription ℚ)) (now : ℚ) : ℚ :=
  match current with
  | none => 0
  | some current =>
      if now < current.endsAt ∧ current.plan = .trial then current.endsAt - now else 0

theorem worth_of_running {plans : PlanId → Plan} {s : Subscription ℚ}
    (hrun : now < s.endsAt) (htrial : s.plan ≠ .trial) (q : PlanId) :
    worth plans (some s) q now = (s.endsAt - now) * (plans s.plan).price := by
  simp [worth, not_le.mpr hrun, htrial]

/-- Only the time left of a trial is worth more to one plan than to another. -/
theorem worth_sub_worth (plans : PlanId → Plan) (current : Option (Subscription ℚ))
    (p q : PlanId) (now : ℚ) :
    worth plans current p now - worth plans current q now =
      trialLeft current now * ((plans p).price - (plans q).price) := by
  cases current with
  | none => simp [worth, trialLeft]
  | some s =>
      by_cases hend : s.endsAt ≤ now
      · simp [worth, trialLeft, hend, not_lt.mpr hend]
      by_cases htrial : s.plan = .trial
      · simp only [worth, trialLeft, if_neg hend, htrial, not_le.mp hend, and_self,
          if_true]
        ring
      · simp [worth, trialLeft, hend, htrial]

/-- The time carried over is worth what was left. -/
theorem remainingIn_rat (hs : Sold prices) (hplan : plan ≠ .trial) :
    ∃ r, remainingIn (catalog prices) current plan now = .ok r ∧ 0 ≤ r ∧
      r * (catalog prices plan).price = worth (catalog prices) current plan now := by
  have hpos : (catalog prices plan).price ≠ 0 := (catalog_price_pos hs hplan).ne'
  have hpos' : ((catalog prices plan).price : ℚ) ≠ 0 := by exact_mod_cast hpos
  cases current with
  | none => exact ⟨0, rfl, le_refl 0, by simp [worth]⟩
  | some s =>
      by_cases hend : s.endsAt ≤ now
      · exact ⟨0, by simp [remainingIn, hend], le_refl 0, by simp [worth, hend]⟩
      have hleft : 0 < s.endsAt - now := sub_pos.mpr (not_le.mp hend)
      by_cases hkept : s.plan = plan ∨ s.plan = .trial
      · refine ⟨s.endsAt - now, by simp [remainingIn, hend, hkept], hleft.le, ?_⟩
        rcases hkept with rfl | htrial
        · simp [worth, hend]
        · simp [worth, hend, htrial]
      · have htrial : s.plan ≠ .trial := fun h => hkept (.inr h)
        refine ⟨(s.endsAt - now) * (catalog prices s.plan).price /
          (catalog prices plan).price, ?_, ?_, ?_⟩
        · simp only [remainingIn, if_neg hend, if_neg hkept, times_rat]
          exact divided_rat hpos _
        · exact div_nonneg (mul_nonneg hleft.le (Nat.cast_nonneg _)) (Nat.cast_nonneg _)
        · simp only [worth, if_neg hend, if_neg htrial]
          exact div_mul_cancel₀ _ hpos'

/-- A payment for a plan adds one period at the plan's price to what was left. -/
theorem renewal_worth (hs : Sold prices) {payment : Payment ℚ}
    (hplan : payment.plan ≠ .trial) (current : Option (Subscription ℚ)) (now : ℚ) :
    ∃ s, renewal (catalog prices) payment current now = .ok s ∧
      s.plan = payment.plan ∧ ∀ q, worth (catalog prices) (some s) q now =
        worth (catalog prices) current payment.plan now +
          (catalog prices payment.plan).price * period := by
  have hleft : ∃ r, remainingIn (catalog prices) current payment.plan now = .ok r ∧ 0 ≤ r ∧
      r * (catalog prices payment.plan).price =
        worth (catalog prices) current payment.plan now := remainingIn_rat hs hplan
  obtain ⟨r, hr, hnonneg, hworth⟩ := hleft
  have hend : renewedEnd (catalog prices) current payment.plan now =
      .ok (now + r + period) := by
    simp only [renewedEnd, hr]
    rfl
  obtain ⟨s, hs'⟩ := renewal_isOk.mpr ⟨_, hend⟩
  obtain ⟨hsplan, hsend⟩ := renewal_eq_ok hs'
  have hends : s.endsAt = now + r + period := Except.ok.inj (hsend.symm.trans hend)
  have hperiod : (0 : ℚ) < period := by
    show (0 : ℚ) < ((30 * dayLength : Int) : ℚ)
    norm_num [dayLength]
  have hrun : now < s.endsAt := by
    rw [hends]
    linarith
  refine ⟨s, hs', hsplan, fun q => ?_⟩
  rw [worth_of_running hrun fun h => hplan (hsplan.symm.trans h), ← hworth, hends, hsplan]
  ring

/-- Two payments credited one after the other, at one clock reading. -/
def renewedTwice (plans : PlanId → Plan) (first second : Payment ℚ)
    (current : Option (Subscription ℚ)) (now : ℚ) :
    Except ArithmeticError (Subscription ℚ) := do
  let s ← renewal plans first current now
  renewal plans second (some s) now

theorem renewedTwice_worth (hs : Sold prices) {first second : Payment ℚ}
    (hfirst : first.plan ≠ .trial) (hsecond : second.plan ≠ .trial)
    (current : Option (Subscription ℚ)) (now : ℚ) (q : PlanId) :
    ∃ s, renewedTwice (catalog prices) first second current now = .ok s ∧
      worth (catalog prices) (some s) q now =
        worth (catalog prices) current first.plan now +
          (catalog prices first.plan).price * period +
          (catalog prices second.plan).price * period := by
  obtain ⟨s, hrenew, -, hworth⟩ := renewal_worth hs hfirst current now
  obtain ⟨s', hrenew', -, hworth'⟩ := renewal_worth hs hsecond (some s) now
  refine ⟨s', bind_eq_ok.mpr ⟨s, hrenew, hrenew'⟩, ?_⟩
  rw [hworth', hworth]

/-- The order of two payments shows in the days of a running trial only. -/
theorem renewedTwice_swap (hs : Sold prices) {p q : Payment ℚ} (hp : p.plan ≠ .trial)
    (hq : q.plan ≠ .trial) (current : Option (Subscription ℚ)) (now : ℚ) :
    ∃ s s', renewedTwice (catalog prices) p q current now = .ok s ∧
      renewedTwice (catalog prices) q p current now = .ok s' ∧
      ∀ plan, worth (catalog prices) (some s) plan now -
          worth (catalog prices) (some s') plan now =
        trialLeft current now *
          ((catalog prices p.plan).price - (catalog prices q.plan).price) := by
  obtain ⟨s, hs₁, -⟩ := renewedTwice_worth hs hp hq current now .trial
  obtain ⟨s', hs₂, -⟩ := renewedTwice_worth hs hq hp current now .trial
  refine ⟨s, s', hs₁, hs₂, fun plan => ?_⟩
  obtain ⟨t, ht, hworth⟩ := renewedTwice_worth hs hp hq current now plan
  obtain ⟨t', ht', hworth'⟩ := renewedTwice_worth hs hq hp current now plan
  obtain rfl := Except.ok.inj (hs₁.symm.trans ht)
  obtain rfl := Except.ok.inj (hs₂.symm.trans ht')
  rw [hworth, hworth', ← worth_sub_worth]
  ring

/-- Every payment adds exactly one period at its plan's price to what was left, and two
payments leave the same in either order, except that the days of a running trial are
worth what the plan paid for first costs. -/
theorem credits_worth (hs : Sold prices) {p q : Payment ℚ} (hp : p.plan ≠ .trial)
    (hq : q.plan ≠ .trial) (current : Option (Subscription ℚ)) (now : ℚ) :
    (∃ s, renewal (catalog prices) p current now = .ok s ∧
      worth (catalog prices) (some s) p.plan now =
        worth (catalog prices) current p.plan now +
          (catalog prices p.plan).price * period) ∧
    ∃ s s', renewedTwice (catalog prices) p q current now = .ok s ∧
      renewedTwice (catalog prices) q p current now = .ok s' ∧
      ∀ plan, worth (catalog prices) (some s) plan now -
          worth (catalog prices) (some s') plan now =
        trialLeft current now *
          ((catalog prices p.plan).price - (catalog prices q.plan).price) := by
  obtain ⟨s, hrenew, -, hworth⟩ := renewal_worth hs hp current now
  exact ⟨⟨s, hrenew, hworth p.plan⟩, renewedTwice_swap hs hp hq current now⟩

/-- A payment of a new customer. -/
def samplePayment {τ : Type} (plan : PlanId) (at_ : τ) : Payment τ :=
  { paymentId := "pay-1", tenantId := "t-1", plan, amount := defaultPrices plan
    authority := some "A1", createdAt := at_ }

/-- A trial with a whole week left. -/
def weekOfTrial : Subscription ℚ :=
  { tenantId := "t-1", plan := .trial, startedAt := 0, endsAt := trialLength }

theorem trialLeft_weekOfTrial : trialLeft (some weekOfTrial) 0 = 604800000000 := by
  have hlength : (trialLength : ℚ) = 604800000000 := by
    show (((7 * dayLength : Int)) : ℚ) = 604800000000
    norm_num [dayLength]
  simp only [trialLeft, weekOfTrial, hlength]
  norm_num

/-- A starter month, then a pro month, during a trial. -/
theorem credits_worth_trial :
    (∃ s, renewal (catalog defaultPrices) (samplePayment .starter 0) (some weekOfTrial) 0 =
        .ok s ∧
      worth (catalog defaultPrices) (some s) .starter 0 =
        worth (catalog defaultPrices) (some weekOfTrial) .starter 0 +
          (catalog defaultPrices .starter).price * period) ∧
    ∃ s s', renewedTwice (catalog defaultPrices) (samplePayment .starter 0)
        (samplePayment .pro 0) (some weekOfTrial) 0 = .ok s ∧
      renewedTwice (catalog defaultPrices) (samplePayment .pro 0)
        (samplePayment .starter 0) (some weekOfTrial) 0 = .ok s' ∧
      ∀ plan, worth (catalog defaultPrices) (some s) plan 0 -
          worth (catalog defaultPrices) (some s') plan 0 =
        trialLeft (some weekOfTrial) 0 *
          ((catalog defaultPrices .starter).price - (catalog defaultPrices .pro).price) :=
  credits_worth sold_defaultPrices (p := samplePayment .starter 0)
    (q := samplePayment .pro 0) (by decide) (by decide) (some weekOfTrial) 0

/-- The same two payments in the other order leave another value. -/
theorem trial_days_follow_first_plan :
    ∃ s s', renewedTwice (catalog defaultPrices) (samplePayment .starter 0)
        (samplePayment .pro 0) (some weekOfTrial) 0 = .ok s ∧
      renewedTwice (catalog defaultPrices) (samplePayment .pro 0)
        (samplePayment .starter 0) (some weekOfTrial) 0 = .ok s' ∧
      worth (catalog defaultPrices) (some s) .pro 0 ≠
        worth (catalog defaultPrices) (some s') .pro 0 := by
  obtain ⟨s, s', hs, hs', hdiff⟩ := renewedTwice_swap sold_defaultPrices
    (p := samplePayment .starter 0) (q := samplePayment .pro 0) (by decide) (by decide)
    (some weekOfTrial) 0
  refine ⟨s, s', hs, hs', fun heq => ?_⟩
  have hzero := hdiff .pro
  have hstarter : (catalog defaultPrices .starter).price = 490000 := rfl
  have hpro : (catalog defaultPrices .pro).price = 2990000 := rfl
  simp only [heq, trialLeft_weekOfTrial, samplePayment, hstarter, hpro] at hzero
  norm_num at hzero

end Exact

/-! ## What Python computes -/

section Bounded
variable {prices : Prices} {plans : PlanId → Plan} {plan : PlanId} {now : Int}

/-- The subscription runs, and its time has to be converted to another plan. -/
def Converts (s : Subscription Int) (plan : PlanId) (now : Int) : Prop :=
  now < s.endsAt ∧ s.plan ≠ plan ∧ s.plan ≠ .trial

instance (s : Subscription Int) (plan : PlanId) (now : Int) :
    Decidable (Converts s plan now) := by
  unfold Converts
  infer_instance

/-- The time left times the price of its plan is a span, and the new end is a time. -/
def Fits (plans : PlanId → Plan) (current : Option (Subscription Int)) (plan : PlanId)
    (now : Int) : Prop :=
  match current with
  | none => now + period ≤ timeMax
  | some s =>
      if Converts s plan now then
        (s.endsAt - now) * (plans s.plan).price ≤ spanMax ∧
        now + divideNearest ((s.endsAt - now) * (plans s.plan).price) (plans plan).price +
          period ≤ timeMax
      else max s.endsAt now + period ≤ timeMax

theorem period_int : (period : Int) = 30 * dayLength := rfl

/-- A time moved forward by some span and then by a period. -/
theorem shift_period_ok_iff {r : Int} (hnow : timeMin ≤ now) (hr : 0 ≤ r) :
    (∃ e : Int, (shift now r >>= fun moved => shift moved period) = .ok e) ↔
      now + r + period ≤ timeMax := by
  simp only [bind_eq_ok, shift_eq_ok_iff, period_int, dayLength]
  constructor
  · rintro ⟨e, _, ⟨rfl, -, -⟩, rfl, -, he⟩
    exact he
  · intro he
    exact ⟨_, _, ⟨rfl, by omega, by omega⟩, rfl, by omega, he⟩

/-- Converting the time left succeeds when the product is a span. -/
theorem convert_ok_iff {left : Int} {n d : Nat} (hleft : 0 ≤ left) (hd : 0 < d) {r : Int} :
    (times left n >>= fun worth => divided worth d) = .ok r ↔
      left * n ≤ spanMax ∧ divideNearest (left * n) d = r := by
  have hprod : 0 ≤ left * (n : Int) := mul_nonneg hleft (Int.natCast_nonneg n)
  have hmin : spanMin ≤ 0 := by decide
  simp only [bind_eq_ok, times_eq_ok_iff, divided_eq_ok_iff]
  constructor
  · rintro ⟨_, ⟨rfl, -, hmax⟩, -, hr, -⟩
    exact ⟨hmax, hr⟩
  · rintro ⟨hmax, hr⟩
    have hnonneg := divideNearest_nonneg (b := d) hprod
    have hle := divideNearest_le hprod hd
    exact ⟨_, ⟨rfl, by omega, hmax⟩, hd.ne', hr, by omega, by omega⟩

theorem renewedEnd_of_remaining {current : Option (Subscription Int)} {r : Int}
    (hr : remainingIn plans current plan now = .ok r) :
    renewedEnd plans current plan now =
      (shift now r >>= fun moved => shift moved period) := by
  simp only [renewedEnd, hr]
  rfl

/-- One credit gets through exactly when its numbers fit. -/
theorem renewal_ok_iff (hs : Sold prices) {payment : Payment Int}
    (hplan : payment.plan ≠ .trial) (hnow : timeMin ≤ now)
    (current : Option (Subscription Int)) :
    (∃ s, renewal (catalog prices) payment current now = .ok s) ↔
      Fits (catalog prices) current payment.plan now := by
  rw [renewal_isOk]
  cases current with
  | none =>
      rw [renewedEnd_of_remaining (r := 0) rfl, shift_period_ok_iff hnow le_rfl, add_zero]
      rfl
  | some s =>
      by_cases hend : s.endsAt ≤ now
      · have hkept : ¬Converts s payment.plan now := fun h => absurd h.1 (not_lt.mpr hend)
        have hr : remainingIn (catalog prices) (some s) payment.plan now = .ok 0 := by
          simp [remainingIn, hend]
        rw [renewedEnd_of_remaining hr, shift_period_ok_iff hnow le_rfl, add_zero]
        simp only [Fits, if_neg hkept, max_eq_right hend]
      have hrun : now < s.endsAt := not_le.mp hend
      by_cases hsame : s.plan = payment.plan ∨ s.plan = .trial
      · have hkept : ¬Converts s payment.plan now := fun h =>
          hsame.elim h.2.1 h.2.2
        have hr : remainingIn (catalog prices) (some s) payment.plan now =
            .ok (s.endsAt - now) := by
          simp [remainingIn, hend, hsame]
        rw [renewedEnd_of_remaining hr, shift_period_ok_iff hnow (by omega)]
        simp only [Fits, if_neg hkept, max_eq_left hrun.le, add_sub_cancel]
      · have hconv : Converts s payment.plan now := ⟨hrun, not_or.mp hsame⟩
        have hpos := catalog_price_pos hs hplan
        have hleft : 0 ≤ s.endsAt - now := by omega
        have hprod : 0 ≤ (s.endsAt - now) * ((catalog prices s.plan).price : Int) :=
          mul_nonneg hleft (Int.natCast_nonneg _)
        have hremain : remainingIn (catalog prices) (some s) payment.plan now =
            (times (s.endsAt - now) (catalog prices s.plan).price >>= fun worth =>
              divided worth (catalog prices payment.plan).price) := by
          simp only [remainingIn, if_neg hend, if_neg hsame]
        simp only [Fits, if_pos hconv]
        constructor
        · rintro ⟨e, he⟩
          obtain ⟨r, hr, hshift⟩ := bind_eq_ok.mp he
          obtain ⟨hmax, rfl⟩ := (convert_ok_iff hleft hpos).mp (hremain.symm.trans hr)
          exact ⟨hmax, (shift_period_ok_iff hnow (divideNearest_nonneg hprod)).mp ⟨e, hshift⟩⟩
        · rintro ⟨hmax, htime⟩
          have hr := hremain.trans ((convert_ok_iff hleft hpos).mpr ⟨hmax, rfl⟩)
          rw [renewedEnd_of_remaining hr]
          exact (shift_period_ok_iff hnow (divideNearest_nonneg hprod)).mpr htime

/-! ### Histories of purchases -/

/-- Payments credited one after the other, each at its clock reading. -/
def credited (plans : PlanId → Plan) :
    Option (Subscription Int) → List (Payment Int × Int) →
      Except ArithmeticError (Option (Subscription Int))
  | current, [] => .ok current
  | current, (payment, now) :: rest => do
      let s ← renewal plans payment current now
      credited plans (some s) rest

/-- At every credit of a history the numbers fit. -/
def AllFit (plans : PlanId → Plan) :
    Option (Subscription Int) → List (Payment Int × Int) → Prop
  | _, [] => True
  | current, (payment, now) :: rest =>
      Fits plans current payment.plan now ∧
        ∀ s, renewal plans payment current now = .ok s → AllFit plans (some s) rest

/-- A history of purchases gets through, from any subscription, exactly when at every
credit the numbers fit. -/
theorem credited_ok_iff (hs : Sold prices) {credits : List (Payment Int × Int)}
    (hsold : ∀ c ∈ credits, c.1.plan ≠ .trial) (hclock : ∀ c ∈ credits, timeMin ≤ c.2)
    (current : Option (Subscription Int)) :
    (∃ s, credited (catalog prices) current credits = .ok s) ↔
      AllFit (catalog prices) current credits := by
  induction credits generalizing current with
  | nil => exact ⟨fun _ => trivial, fun _ => ⟨current, rfl⟩⟩
  | cons c rest ih =>
      have hone := renewal_ok_iff hs (hsold c List.mem_cons_self)
        (hclock c List.mem_cons_self) current
      have hrest := ih (fun x hx => hsold x (List.mem_cons_of_mem _ hx))
        fun x hx => hclock x (List.mem_cons_of_mem _ hx)
      constructor
      · rintro ⟨final, hfinal⟩
        obtain ⟨s, hrenew, hfinal⟩ := bind_eq_ok.mp hfinal
        refine ⟨hone.mp ⟨s, hrenew⟩, fun s' hs' => ?_⟩
        obtain rfl := Except.ok.inj (hrenew.symm.trans hs')
        exact (hrest (some s)).mp ⟨final, hfinal⟩
      · rintro ⟨hfits, hall⟩
        obtain ⟨s, hrenew⟩ := hone.mpr hfits
        obtain ⟨final, hfinal⟩ := (hrest (some s)).mpr (hall s hrenew)
        exact ⟨final, bind_eq_ok.mpr ⟨s, hrenew, hfinal⟩⟩

/-- The first of January 2026. -/
def newYear : Int := 1767225600000000

/-- A purchase during a trial. -/
theorem credited_ok_iff_trial :
    (∃ s, credited (catalog defaultPrices) (startedTrial "t-1" newYear).toOption
        [(samplePayment .pro newYear, newYear)] = .ok s) ↔
      AllFit (catalog defaultPrices) (startedTrial "t-1" newYear).toOption
        [(samplePayment .pro newYear, newYear)] :=
  credited_ok_iff sold_defaultPrices (by decide) (by decide) _

/-- After a trial and twelve months of the dearest plan, a month of the cheapest one
cannot be credited: the product of the time left and the price is no `timedelta`. -/
theorem year_of_pro_cannot_switch :
    ∃ trial s, startedTrial "t-1" newYear = .ok trial ∧
      credited (catalog defaultPrices) (some trial)
        (List.replicate 12 (samplePayment .pro newYear, newYear)) = .ok (some s) ∧
      renewal (catalog defaultPrices) (samplePayment .starter newYear) (some s) newYear =
        .error .overflow :=
  ⟨_, _, rfl, rfl, rfl⟩

/-! ### How far the two readings are apart -/

/-- A subscription with its times read exactly, and without the history, which the
arithmetic does not read. -/
def exactly (s : Subscription Int) : Subscription ℚ where
  tenantId := s.tenantId
  plan := s.plan
  startedAt := s.startedAt
  endsAt := s.endsAt

/-- What Python computes is within half a microsecond of what the rule means. -/
theorem remainingIn_rounding {current : Option (Subscription Int)} {r : Int}
    (hr : remainingIn plans current plan now = .ok r) :
    ∃ q, remainingIn plans (current.map exactly) plan (now : ℚ) = .ok q ∧
      |(r : ℚ) - q| ≤ 1 / 2 := by
  cases current with
  | none =>
      obtain rfl := Except.ok.inj hr
      exact ⟨0, rfl, by simp⟩
  | some s =>
      have hcast : (exactly s).endsAt ≤ (now : ℚ) ↔ s.endsAt ≤ now := Int.cast_le
      simp only [remainingIn, Option.map_some, hcast] at hr ⊢
      by_cases hend : s.endsAt ≤ now
      · rw [if_pos hend] at hr ⊢
        obtain rfl := Except.ok.inj hr
        exact ⟨0, rfl, by simp⟩
      rw [if_neg hend] at hr ⊢
      have hplan : (exactly s).plan = s.plan := rfl
      rw [hplan]
      by_cases hsame : s.plan = plan ∨ s.plan = .trial
      · rw [if_pos hsame] at hr ⊢
        obtain rfl := Except.ok.inj hr
        refine ⟨_, rfl, ?_⟩
        simp [exactly]
      · rw [if_neg hsame] at hr ⊢
        obtain ⟨w, hw, ho⟩ := bind_eq_ok.mp hr
        obtain ⟨rfl, -, -⟩ := times_eq_ok_iff.mp hw
        obtain ⟨hd, rfl, -, -⟩ := divided_eq_ok_iff.mp ho
        refine ⟨_, divided_rat hd _, ?_⟩
        have herr := abs_divideNearest_sub_le ((s.endsAt - now) * (plans s.plan).price)
          (Nat.pos_of_ne_zero hd)
        simpa [exactly] using herr

end Bounded

end SeoAgent.Billing
