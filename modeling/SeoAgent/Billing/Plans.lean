import Mathlib.Logic.Function.Basic
import SeoAgent.Verified.Prog
import SeoAgent.Verified.Text
import SeoAgent.Verified.TimeArith

/-!
# The plans and their prices

What a customer can buy (`app/billing/plans.py`). Prices are a setting: a text such
as `starter=490000,growth=1290000` that `parsePrices` reads over the defaults. How
Python's `int` reads a numeral is a parameter of it, because nothing here depends
on which numerals there are.

## Main results

* `parsePrices_minPrice` — an accepted setting prices every plan on sale at the
  minimum or more.
-/

namespace SeoAgent.Billing

open SeoAgent.Verified

/-! ## Plans -/

inductive PlanId
  | trial
  | starter
  | growth
  | pro
  deriving DecidableEq, Repr

namespace PlanId

def value : PlanId → String
  | trial => "trial"
  | starter => "starter"
  | growth => "growth"
  | pro => "pro"

/-- `PlanId(value)`. -/
def ofValue? (s : String) : Option PlanId :=
  [trial, starter, growth, pro].find? fun plan => plan.value == s

end PlanId

/-- A plan: how many sites it has room for, and its price in tomans for one period. -/
structure Plan where
  planId : PlanId
  sites : Nat
  price : Nat
  deriving DecidableEq, Repr

section Lengths
variable {τ : Type} [TimeArith τ]

/-- Seven days. -/
def trialLength : τ := TimeArith.span (7 * TimeArith.dayLength)

/-- Thirty days. -/
def period : τ := TimeArith.span (30 * TimeArith.dayLength)

end Lengths

/-! ## Prices -/

/-- The price of each plan; what it says of the trial is not used. -/
abbrev Prices : Type := PlanId → Nat

def defaultPrices : Prices
  | .trial => 0
  | .starter => 490000
  | .growth => 1290000
  | .pro => 2990000

def siteRoom : PlanId → Nat
  | .trial => 1
  | .starter => 1
  | .growth => 3
  | .pro => 10

/-- The gateway takes no less. -/
def minPrice : Int := 1000

/-- Why a setting is refused; each is a `ValueError`. -/
inductive PriceError
  | unknownPlan (name : String)
  | trialHasNoPrice
  | notANumber (value : String)
  | belowMinimum (plan : PlanId)
  deriving DecidableEq, Repr

/-- `part.partition("=")`, without the separator. -/
def partition (part : String) : String × String :=
  let cs := part.toList
  (String.ofList (cs.takeWhile (· != '=')),
    String.ofList ((cs.dropWhile (· != '=')).drop 1))

/-- One part of the setting. `Char.toLower` changes ASCII letters only, which is what
can make a plan's name of a text. -/
def parsePart (int : String → Option Int) (prices : Prices) (part : String) :
    Except PriceError Prices :=
  if Text.strip part = "" then .ok prices
  else
    let name := String.ofList ((Text.strip (partition part).1).toList.map Char.toLower)
    let value := Text.strip (partition part).2
    match PlanId.ofValue? name with
    | none => .error (.unknownPlan name)
    | some plan =>
        if plan = .trial then .error .trialHasNoPrice
        else
          match int value with
          | none => .error (.notANumber value)
          | some price =>
              if price < minPrice then .error (.belowMinimum plan)
              else .ok (Function.update prices plan price.toNat)

/-- Reads the setting; plans left out keep their default. -/
def parsePrices (int : String → Option Int) (text : Option String) :
    Except PriceError Prices :=
  (((text.getD "").toList.splitOn ',').map String.ofList).foldlM (parsePart int)
    defaultPrices

/-- What is on sale costs the minimum or more. -/
def Sold (prices : Prices) : Prop :=
  ∀ plan, plan ≠ .trial → minPrice ≤ prices plan

theorem sold_defaultPrices : Sold defaultPrices := by
  intro plan hplan
  cases plan with
  | trial => exact absurd rfl hplan
  | starter => decide
  | growth => decide
  | pro => decide

theorem Sold.update {prices : Prices} (h : Sold prices) {plan : PlanId} {price : Int}
    (hprice : minPrice ≤ price) : Sold (Function.update prices plan price.toNat) := by
  intro p hp
  by_cases heq : p = plan
  · subst heq
    rw [Function.update_self]
    simp only [minPrice] at hprice ⊢
    omega
  · rw [Function.update_of_ne heq]
    exact h p hp

theorem parsePart_sold {int : String → Option Int} {prices prices' : Prices}
    {part : String} (h : Sold prices) (hp : parsePart int prices part = .ok prices') :
    Sold prices' := by
  simp only [parsePart] at hp
  split at hp
  · cases hp
    exact h
  split at hp
  · cases hp
  split at hp
  · cases hp
  split at hp
  · cases hp
  split at hp
  · cases hp
  · next hprice =>
      cases hp
      exact h.update (not_lt.mp hprice)

/-- An accepted setting prices what is on sale at the minimum or more. -/
theorem parsePrices_minPrice {int : String → Option Int} {text : Option String}
    {prices : Prices} (h : parsePrices int text = .ok prices) : Sold prices := by
  have key : ∀ (parts : List String) (p p' : Prices), Sold p →
      parts.foldlM (parsePart int) p = .ok p' → Sold p' := by
    intro parts
    induction parts with
    | nil =>
        intro p p' hp h
        cases h
        exact hp
    | cons part parts ih =>
        intro p p' hp h
        rw [List.foldlM_cons] at h
        obtain ⟨q, hq, h⟩ := bind_eq_ok.mp h
        exact ih q p' (parsePart_sold hp hq) h
  exact key _ _ _ sold_defaultPrices h

/-- The plans at some prices. -/
def catalog (prices : Prices) (plan : PlanId) : Plan where
  planId := plan
  sites := siteRoom plan
  price := if plan = .trial then 0 else prices plan

theorem catalog_price_pos {prices : Prices} (h : Sold prices) {plan : PlanId}
    (hplan : plan ≠ .trial) : 0 < (catalog prices plan).price := by
  have hmin := h plan hplan
  simp only [catalog, if_neg hplan, minPrice] at hmin ⊢
  omega

example : ((parsePrices (fun _ => some 1000) (some "starter=1000, PRO =1000,")).map
    fun prices => [prices .starter, prices .growth, prices .pro]) =
      .ok [1000, 1290000, 1000] := by
  decide

end SeoAgent.Billing
