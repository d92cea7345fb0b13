import SeoAgent.Verified.Json

/-!
# Outcomes and feedback events

What a measurement concludes about an action and what is kept of it for the
tenant's learning. The measured windows are kept only as the detail they leave
in the action's history.
-/

namespace SeoAgent.Ports

open Verified

/-- `OutcomeStatus`. -/
inductive OutcomeStatus
  | success
  | failure
  | inconclusive
  deriving DecidableEq, Repr

def OutcomeStatus.value : OutcomeStatus → String
  | success => "success"
  | failure => "failure"
  | inconclusive => "inconclusive"

/-- `OutcomeMetric`. -/
inductive OutcomeMetric
  | ctr
  | position
  | clicks
  | impressions
  deriving DecidableEq, Repr

def OutcomeMetric.value : OutcomeMetric → String
  | ctr => "ctr"
  | position => "position"
  | clicks => "clicks"
  | impressions => "impressions"

/-- The measurement an outcome was evaluated from. -/
structure Measurement where
  measurementId : String
  actionId : String
  status : String
  /-- `_measurement_detail`: the two windows, as the history shows them. -/
  detail : Dict
  deriving DecidableEq

/-- The outcome of the primary metric. -/
structure PrimaryOutcome where
  relativeChange : Option Rat
  improved : Bool
  regressed : Bool
  deriving DecidableEq

/-- `OutcomeEvaluationResult`. -/
structure Outcome where
  outcomeId : String
  actionId : String
  siteId : String
  normalizedUrl : String
  normalizedQuery : String
  status : OutcomeStatus
  primaryMetric : OutcomeMetric
  primary : Option PrimaryOutcome
  reasons : List String
  measurement : Measurement
  deriving DecidableEq

/-- `FeedbackEvent`. -/
structure FeedbackEvent where
  feedbackId : String
  actionId : String
  siteId : String
  normalizedUrl : String
  normalizedQuery : String
  outcomeStatus : OutcomeStatus
  primaryMetric : OutcomeMetric
  relativeChange : Option Rat
  improved : Option Bool
  regressed : Option Bool
  evidence : Dict
  deriving DecidableEq

end SeoAgent.Ports
