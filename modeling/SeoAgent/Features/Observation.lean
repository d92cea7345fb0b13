import Mathlib
import SeoAgent.Verified.Text
import SeoAgent.Ports.Exceptions

/-!
# Daily observations

What is known of one page and query on one day. A day is observed, known to be without
impressions, or unknown; the statuses of a day that is known are the usable ones. A date
is the number of its day.

## Main results

* `sum_clicks_le` — over any days there are no more clicks than impressions.
-/

namespace SeoAgent.Features

open Verified Ports

/-- `DataStatus`. -/
inductive DataStatus
  | observed
  | missingExpectedZero
  | missingUnknown
  deriving DecidableEq, Repr

/-- Whether a day with this status is known. -/
def DataStatus.usable (status : DataStatus) : Bool :=
  status ∈ [.observed, .missingExpectedZero]

/-- The texts of an observation are stripped and say something. -/
structure TextsValid (siteId normalizedUrl normalizedQuery : String) : Prop where
  siteId : Text.strip siteId = siteId ∧ siteId ≠ "" ∧ siteId.length ≤ 50
  normalizedUrl : Text.strip normalizedUrl = normalizedUrl ∧ normalizedUrl ≠ ""
  normalizedQuery : Text.strip normalizedQuery = normalizedQuery ∧ normalizedQuery ≠ ""

/-- `DailyObservation`, with what its validators demand. -/
structure DailyObservation where
  siteId : String
  normalizedUrl : String
  normalizedQuery : String
  date : Int
  impressions : Nat
  clicks : Nat
  avgPosition : Option Rat
  dataStatus : DataStatus
  texts : TextsValid siteId normalizedUrl normalizedQuery
  clicks_le : clicks ≤ impressions
  position_nonneg : ∀ p ∈ avgPosition, 0 ≤ p

/-- The sum of a count over some days. -/
def total (count : DailyObservation → Nat) (observations : List DailyObservation) : Nat :=
  (observations.map count).sum

variable {observations : List DailyObservation}

theorem sum_clicks_le :
    total DailyObservation.clicks observations ≤
      total DailyObservation.impressions observations := by
  unfold total
  induction observations with
  | nil => exact Nat.le_refl 0
  | cons o observations ih =>
      have ho := o.clicks_le
      simp only [List.map_cons, List.sum_cons]
      omega

end SeoAgent.Features
