import SeoAgent.Features.Observation
import SeoAgent.Ports.DecisionEngine
import SeoAgent.Verified.Median

/-!
# Features and detectors

What the decision engine makes of the evidence before it decides anything: the features
of both windows, the quality gate, and the signals of the four detectors. Scores stand as
the rationals they denote. The trend of the positions and the evidence dictionaries of the
signals are only shown and left out.

## Main results

* `extractFeatureSet_isOk_iff` — evidence has features unless its query was seen more often
  than its page.
* `passes_windows` — behind the gate both windows are complete enough for every detector.
-/

namespace SeoAgent.Features

open Verified Ports

/-! ## Shares -/

/-- A number from zero to one, as `Field(ge=0, le=1)` takes it. -/
structure Share where
  value : Rat
  nonneg : 0 ≤ value
  le_one : value ≤ 1

/-- One count over another one that is no smaller; zero over nothing. -/
def Share.of (part whole : Nat) (h : part ≤ whole) : Share where
  value := if whole = 0 then 0 else part / whole
  nonneg := by
    split
    · exact le_rfl
    · exact div_nonneg (Nat.cast_nonneg _) (Nat.cast_nonneg _)
  le_one := by
    split
    · exact zero_le_one
    · exact div_le_one_of_le₀ (by exact_mod_cast h) (Nat.cast_nonneg _)

/-! ## Evidence -/

/-- `URLDailyMetric`, as far as the features are made of it. -/
structure UrlDailyMetric where
  totalImpressions : Nat
  totalClicks : Nat
  dataStatus : DataStatus
  clicks_le : totalClicks ≤ totalImpressions

/-- `ReconciliationStatus`. -/
inductive ReconciliationStatus
  | matched
  | partialMatch
  | invalid
  deriving DecidableEq, Repr

/-- `DecisionEvidence`, as far as the features are made of it. -/
structure DecisionEvidence where
  baselineObservations : List DailyObservation
  currentObservations : List DailyObservation
  currentUrlMetrics : List UrlDailyMetric
  baselineDailyStatus : List (Int × DataStatus)
  currentDailyStatus : List (Int × DataStatus)
  impressionStatus : ReconciliationStatus
  clickStatus : ReconciliationStatus

/-! ## Features -/

/-- `calculate_completeness` and `calculate_window_completeness`: how many of the days
are usable. -/
def calculateCompleteness (statuses : List DataStatus) : Share :=
  .of (statuses.filter DataStatus.usable).length statuses.length (List.length_filter_le _ _)

/-- Half of a status's score. -/
def halfScore : ReconciliationStatus → Rat
  | .matched => 1 / 2
  | .partialMatch => 1 / 4
  | .invalid => 0

/-- `calculate_reconciliation_completeness`. -/
def calculateReconciliationCompleteness (impressions clicks : ReconciliationStatus) : Rat :=
  halfScore impressions + halfScore clicks

/-- `_usable_observations`. -/
def usableObservations (observations : List DailyObservation) : List DailyObservation :=
  observations.filter fun o => o.dataStatus.usable

/-- `calculate_ctr`. -/
def calculateCtr (observations : List DailyObservation) : Share :=
  .of (total DailyObservation.clicks (usableObservations observations))
    (total DailyObservation.impressions (usableObservations observations)) sum_clicks_le

/-- `_valid_positions`: the positions of the usable days that have one. -/
def validPositions (observations : List DailyObservation) : List Rat :=
  (usableObservations observations).filterMap DailyObservation.avgPosition

/-- `calculate_median_position`: zero when no position is known. -/
def calculateMedianPosition (observations : List DailyObservation) : Rat :=
  median (validPositions observations)

/-- `calculate_mad`. -/
def calculateMad (observations : List DailyObservation) : Rat :=
  median ((validPositions observations).map fun position =>
    |position - calculateMedianPosition observations|)

/-- `DataQualityMatrix`. -/
structure DataQualityMatrix where
  urlLevelCompleteness : Share
  queryLevelCompleteness : Share
  currentWindowCompleteness : Share
  baselineWindowCompleteness : Share
  reconciliationCompleteness : Rat

/-- `FeatureSet`. -/
structure FeatureSet where
  currentImpressions : Nat
  baselineCtr : Share
  currentCtr : Share
  baselineMedian : Rat
  currentMedian : Rat
  madCurrent : Rat
  queryVisibilityShare : Share
  dataQuality : DataQualityMatrix
  baselineMedian_nonneg : 0 ≤ baselineMedian
  currentMedian_nonneg : 0 ≤ currentMedian
  madCurrent_nonneg : 0 ≤ madCurrent

/-- `PositionFeatures.delta`, by `calculate_position_delta`. -/
def FeatureSet.positionDelta (features : FeatureSet) : Rat :=
  features.currentMedian - features.baselineMedian

/-- `CTRFeatures.absolute_delta`, by `calculate_ctr_delta`. -/
def FeatureSet.ctrDelta (features : FeatureSet) : Rat :=
  features.currentCtr.value - features.baselineCtr.value

variable {observations : List DailyObservation} {evidence : DecisionEvidence}

theorem mem_validPositions {p : Rat} : p ∈ validPositions observations ↔
    ∃ o ∈ observations, o.dataStatus.usable = true ∧ o.avgPosition = some p := by
  unfold validPositions usableObservations
  simp only [List.mem_filterMap, List.mem_filter]
  constructor
  · rintro ⟨o, ⟨ho, hu⟩, hp⟩
    exact ⟨o, ho, hu, hp⟩
  · rintro ⟨o, ho, hu, hp⟩
    exact ⟨o, ⟨ho, hu⟩, hp⟩

theorem calculateMedianPosition_nonneg : 0 ≤ calculateMedianPosition observations := by
  refine median_nonneg fun p hp => ?_
  obtain ⟨o, -, -, ho⟩ := mem_validPositions.mp hp
  exact o.position_nonneg p ho

theorem calculateMad_nonneg : 0 ≤ calculateMad observations := by
  refine median_nonneg fun d hd => ?_
  obtain ⟨p, -, rfl⟩ := List.mem_map.mp hd
  exact abs_nonneg _

/-- How often the current window's query was seen, and how often its page. -/
def queryImpressions (evidence : DecisionEvidence) : Nat :=
  total DailyObservation.impressions evidence.currentObservations

def urlImpressions (evidence : DecisionEvidence) : Nat :=
  (evidence.currentUrlMetrics.map UrlDailyMetric.totalImpressions).sum

/-- `VisibilityFeatures.query_visibility_share`, when it is a share. -/
def queryVisibilityShare (evidence : DecisionEvidence) : Option Share :=
  if h : queryImpressions evidence ≤ urlImpressions evidence then some (.of _ _ h)
  else if urlImpressions evidence = 0 then some ⟨0, le_rfl, zero_le_one⟩
  else none

/-- `extract_feature_set`, with the arguments `run_decision_engine` gives it. -/
def extractFeatureSet (evidence : DecisionEvidence) : Except Exc FeatureSet :=
  match queryVisibilityShare evidence with
  | none => .error ⟨.validationError, "validation error for VisibilityFeatures"⟩
  | some share => .ok
      { currentImpressions := queryImpressions evidence
        baselineCtr := calculateCtr evidence.baselineObservations
        currentCtr := calculateCtr evidence.currentObservations
        baselineMedian := calculateMedianPosition evidence.baselineObservations
        currentMedian := calculateMedianPosition evidence.currentObservations
        madCurrent := calculateMad evidence.currentObservations
        queryVisibilityShare := share
        dataQuality :=
          { urlLevelCompleteness :=
              calculateCompleteness (evidence.currentUrlMetrics.map UrlDailyMetric.dataStatus)
            queryLevelCompleteness := calculateCompleteness
              (evidence.currentObservations.map DailyObservation.dataStatus)
            currentWindowCompleteness :=
              calculateCompleteness (evidence.currentDailyStatus.map Prod.snd)
            baselineWindowCompleteness :=
              calculateCompleteness (evidence.baselineDailyStatus.map Prod.snd)
            reconciliationCompleteness := calculateReconciliationCompleteness
              evidence.impressionStatus evidence.clickStatus }
        baselineMedian_nonneg := calculateMedianPosition_nonneg
        currentMedian_nonneg := calculateMedianPosition_nonneg
        madCurrent_nonneg := calculateMad_nonneg }

theorem queryVisibilityShare_isSome_iff : (queryVisibilityShare evidence).isSome = true ↔
    queryImpressions evidence ≤ urlImpressions evidence ∨ urlImpressions evidence = 0 := by
  unfold queryVisibilityShare
  by_cases hle : queryImpressions evidence ≤ urlImpressions evidence
  · rw [dif_pos hle]
    exact iff_of_true rfl (.inl hle)
  · rw [dif_neg hle]
    by_cases hzero : urlImpressions evidence = 0
    · rw [if_pos hzero]
      exact iff_of_true rfl (.inr hzero)
    · rw [if_neg hzero]
      exact iff_of_false Bool.false_ne_true (not_or.mpr ⟨hle, hzero⟩)

/-- Evidence has features unless its query was seen more often than its page. -/
theorem extractFeatureSet_isOk_iff : (∃ features, extractFeatureSet evidence = .ok features) ↔
    queryImpressions evidence ≤ urlImpressions evidence ∨ urlImpressions evidence = 0 := by
  rw [← queryVisibilityShare_isSome_iff]
  unfold extractFeatureSet
  cases queryVisibilityShare evidence with
  | none => simp
  | some share => simp

/-! ## The gate -/

/-- How complete the data has to be. -/
def minCompleteness : Rat := 4 / 5

/-- `passes_data_quality_gate`. -/
def passesDataQualityGate (quality : DataQualityMatrix) : Bool :=
  minCompleteness ≤ quality.queryLevelCompleteness.value &&
    minCompleteness ≤ quality.urlLevelCompleteness.value &&
    minCompleteness ≤ quality.currentWindowCompleteness.value &&
    minCompleteness ≤ quality.baselineWindowCompleteness.value &&
    1 / 2 ≤ quality.reconciliationCompleteness

/-- What every detector asks of both windows. -/
def enoughData (features : FeatureSet) : Bool :=
  minCompleteness ≤ features.dataQuality.baselineWindowCompleteness.value &&
    minCompleteness ≤ features.dataQuality.currentWindowCompleteness.value

/-- Behind the gate both windows are complete enough for every detector. -/
theorem passes_windows {features : FeatureSet}
    (h : passesDataQualityGate features.dataQuality = true) : enoughData features = true := by
  unfold passesDataQualityGate at h
  unfold enoughData
  simp only [Bool.and_eq_true] at h ⊢
  exact ⟨h.1.2, h.1.1.2⟩

/-! ## Detectors -/

/-- The confidence of a signal that is detected. -/
def confidenceOf (features : FeatureSet) : Rat :=
  min 1 (features.dataQuality.baselineWindowCompleteness.value *
    features.dataQuality.currentWindowCompleteness.value)

/-- A signal, detected when there is enough data and what it looks for is found. -/
def signalWhen (signalType : SignalType) (features : FeatureSet) (found : Bool) : Signal :=
  if enoughData features && found then ⟨signalType, true, confidenceOf features⟩
  else ⟨signalType, false, 0⟩

/-- `detect_ctr_drop`; a change from nothing is no drop. -/
def detectCtrDrop (features : FeatureSet) : Signal :=
  signalWhen .ctrDrop features
    (features.baselineCtr.value ≠ 0 && features.ctrDelta ≤ -(2 / 100))

/-- `min_position_drop`. -/
def minPositionDrop : Rat := 3 / 2

/-- `detect_position_decline`. -/
def detectPositionDecline (features : FeatureSet) : Signal :=
  signalWhen .positionDecline features (minPositionDrop ≤ features.positionDelta)

/-- `detect_high_value_opportunity`. -/
def detectHighValueOpportunity (features : FeatureSet) : Signal :=
  signalWhen .highValueOpportunity features
    (100 ≤ features.currentImpressions && 4 ≤ features.currentMedian &&
      features.currentMedian ≤ 20 && features.currentCtr.value ≤ 8 / 100)

/-- `detect_position_volatility`. -/
def detectPositionVolatility (features : FeatureSet) : Signal :=
  signalWhen .volatility features (3 / 2 ≤ features.madCurrent)

/-- The detectors of `_detect_all_signals`; the pipeline adds the risks. -/
def detectors (features : FeatureSet) : List Signal :=
  [detectCtrDrop features, detectPositionDecline features,
    detectHighValueOpportunity features, detectPositionVolatility features]

/-- `_detect_all_signals`. -/
def detectAllSignals (features : FeatureSet) : List Signal :=
  detectors features ++ detectSignalRisks (detectors features)

/-- The signals of `run_decision_engine`: none of evidence that does not pass the gate. -/
def engineSignals (evidence : DecisionEvidence) : Except Exc (List Signal) :=
  match extractFeatureSet evidence with
  | .error exc => .error exc
  | .ok features =>
      .ok (if passesDataQualityGate features.dataQuality then detectAllSignals features else [])

@[simp] theorem signalWhen_type {signalType : SignalType} {features : FeatureSet}
    {found : Bool} : (signalWhen signalType features found).signalType = signalType := by
  unfold signalWhen
  split <;> rfl

@[simp] theorem signalWhen_detected {signalType : SignalType} {features : FeatureSet}
    {found : Bool} :
    (signalWhen signalType features found).detected = (enoughData features && found) := by
  unfold signalWhen
  split
  · next h => exact h.symm
  · next h => exact (Bool.not_eq_true _ ▸ h).symm

end SeoAgent.Features
