import SeoAgent.Features.Extraction

/-!
# What the decision engine reports of its evidence

The features and signals with everything their records hold. The numbers and detections
that anything depends on are those of the extraction; on top of them stand the counts, the
trend of the positions, and the severity and evidence of each signal.

## Main results

* `detectAllSignals_toSignal` — the reported signals are the detected ones.
-/

namespace SeoAgent.Decision

open Verified Ports

/-! ## Evidence and features -/

/-- `SnapshotMetadata`. -/
structure SnapshotMetadata where
  snapshotId : String
  dataSnapshotId : String
  ruleVersion : String
  configVersion : String
  generatedAt : Int
  deriving DecidableEq

/-- `DecisionEvidence`. -/
structure DecisionEvidence extends Features.DecisionEvidence where
  siteId : String
  normalizedUrl : String
  normalizedQuery : String
  snapshot : SnapshotMetadata

/-- `FeatureSet`. -/
structure FeatureSet extends Features.FeatureSet where
  currentClicks : Nat
  baselineImpressions : Nat
  baselineClicks : Nat
  trendSlope : Rat
  urlTotalImpressions : Nat

/-- `CTRFeatures.baseline_ctr_zero`. -/
def FeatureSet.baselineCtrZero (features : FeatureSet) : Bool := features.baselineCtr.value = 0

/-- `CTRFeatures.relative_change`, by `calculate_relative_ctr_change`. -/
def FeatureSet.relativeChange (features : FeatureSet) : Rat :=
  if features.baselineCtr.value = 0 then 0 else features.ctrDelta / features.baselineCtr.value

/-- `PositionFeatures.trend_direction`, by `classify_trend`. -/
def FeatureSet.trendDirection (features : FeatureSet) : String :=
  if 5 / 100 < features.trendSlope then "declining"
  else if features.trendSlope < -(5 / 100) then "improving"
  else "stable"

/-- The slope of the least squares line through the values at 0, 1, 2 and so on. -/
def leastSquaresSlope (ys : List Rat) : Rat :=
  let xs : List Rat := (List.range ys.length).map fun x => (x : Rat)
  let meanX := xs.sum / ys.length
  let meanY := ys.sum / ys.length
  (List.zipWith (fun x y => (x - meanX) * (y - meanY)) xs ys).sum /
    (xs.map fun x => (x - meanX) * (x - meanX)).sum

/-- `_valid_positions`: the known positions in the order of their dates. -/
def datedPositions (observations : List Features.DailyObservation) : List (Int × Rat) :=
  ((Features.usableObservations observations).filterMap fun o =>
    o.avgPosition.map fun position => (o.date, position)).insertionSort fun a b => a.1 ≤ b.1

/-- `calculate_trend_slope`. -/
def calculateTrendSlope (observations : List Features.DailyObservation) : Rat :=
  let positions := (datedPositions observations).map Prod.snd
  if positions.length < 2 then 0 else leastSquaresSlope positions

/-- `extract_feature_set`, with the arguments `run_decision_engine` gives it. -/
def extractFeatureSet (evidence : DecisionEvidence) : Except Exc FeatureSet :=
  (Features.extractFeatureSet evidence.toDecisionEvidence).map fun features =>
    { toFeatureSet := features
      currentClicks := Features.total (·.clicks) evidence.currentObservations
      baselineImpressions := Features.total (·.impressions) evidence.baselineObservations
      baselineClicks := Features.total (·.clicks) evidence.baselineObservations
      trendSlope := calculateTrendSlope evidence.currentObservations
      urlTotalImpressions := Features.urlImpressions evidence.toDecisionEvidence }

/-! ## Signals -/

/-- `SignalSeverity`. -/
inductive SignalSeverity
  | info
  | warning
  | critical
  deriving DecidableEq, Repr

/-- The stored text of a signal type. -/
def signalValue : SignalType → String
  | .ctrDrop => "CTR_DROP"
  | .positionDecline => "POSITION_DECLINE"
  | .highValueOpportunity => "HIGH_VALUE_OPPORTUNITY"
  | .volatility => "VOLATILITY"
  | .ctrDropUnderVolatility => "CTR_DROP_UNDER_VOLATILITY"
  | .positionDeclineUnderVolatility => "POSITION_DECLINE_UNDER_VOLATILITY"

/-- Whether `_UNDER_` is in the text of a signal type. -/
def isRisk (signalType : SignalType) : Bool :=
  signalType ∈ [.ctrDropUnderVolatility, .positionDeclineUnderVolatility]

/-- `Signal`. -/
structure Signal extends Ports.Signal where
  severity : SignalSeverity
  evidence : Dict
  deriving DecidableEq

/-- A detector's signal, with the reason it ends at after the rest of its evidence. -/
def report (signal : Ports.Signal) (severity : SignalSeverity) (evidence : Dict)
    (reason : String) : Signal :=
  { toSignal := signal, severity, evidence := evidence.set "reason" (.str reason) }

/-- The completeness of both windows, as every detector shows it. -/
def windowEvidence (features : FeatureSet) : Dict :=
  [("baseline_window_completeness",
      .number features.dataQuality.baselineWindowCompleteness.value),
    ("current_window_completeness",
      .number features.dataQuality.currentWindowCompleteness.value)]

/-- `detect_ctr_drop`. -/
def detectCtrDrop (features : FeatureSet) : Signal :=
  let signal := Features.detectCtrDrop features.toFeatureSet
  let evidence : Dict :=
    [("baseline_ctr", .number features.baselineCtr.value),
      ("current_ctr", .number features.currentCtr.value),
      ("absolute_delta", .number features.ctrDelta),
      ("relative_change", .number features.relativeChange),
      ("baseline_ctr_zero", .bool features.baselineCtrZero)] ++
    windowEvidence features ++
    [("min_absolute_drop", .number (2 / 100)), ("critical_absolute_drop", .number (5 / 100)),
      ("min_data_completeness", .number (8 / 10))]
  if features.baselineCtrZero then report signal .info evidence "baseline_ctr_zero"
  else if !Features.enoughData features.toFeatureSet then
    report signal .info evidence "insufficient_data_completeness"
  else if !signal.detected then report signal .info evidence "drop_below_threshold"
  else report signal (if features.ctrDelta ≤ -(5 / 100) then .critical else .warning) evidence
    "meaningful_ctr_drop"

/-- `detect_position_decline`. -/
def detectPositionDecline (features : FeatureSet) : Signal :=
  let signal := Features.detectPositionDecline features.toFeatureSet
  let evidence : Dict :=
    [("baseline_median", .number features.baselineMedian),
      ("current_median", .number features.currentMedian),
      ("position_delta", .number features.positionDelta),
      ("trend_slope", .number features.trendSlope),
      ("trend_direction", .str features.trendDirection)] ++
    windowEvidence features ++
    [("min_position_drop", .number (3 / 2)), ("critical_position_drop", .number 3),
      ("min_data_completeness", .number (8 / 10))]
  if !Features.enoughData features.toFeatureSet then
    report signal .info evidence "insufficient_data_completeness"
  else if !signal.detected then report signal .info evidence "position_drop_below_threshold"
  else report signal (if 3 ≤ features.positionDelta then .critical else .warning) evidence
    "meaningful_position_decline"

/-- `detect_high_value_opportunity`. -/
def detectHighValueOpportunity (features : FeatureSet) : Signal :=
  let signal := Features.detectHighValueOpportunity features.toFeatureSet
  let evidence : Dict :=
    [("current_impressions", .int features.currentImpressions),
      ("current_position", .number features.currentMedian),
      ("current_ctr", .number features.currentCtr.value),
      ("baseline_ctr", .number features.baselineCtr.value),
      ("ctr_absolute_delta", .number features.ctrDelta)] ++
    windowEvidence features ++
    [("min_impressions", .int 100), ("min_position", .number 4), ("max_position", .number 20),
      ("max_current_ctr", .number (8 / 100)), ("min_data_completeness", .number (8 / 10))]
  if !Features.enoughData features.toFeatureSet then
    report signal .info evidence "insufficient_data_completeness"
  else if features.currentImpressions < 100 then
    report signal .info evidence "insufficient_impressions"
  else if features.currentMedian < 4 ∨ 20 < features.currentMedian then
    report signal .info evidence "position_outside_opportunity_range"
  else if 8 / 100 < features.currentCtr.value then
    report signal .info evidence "ctr_not_low_enough"
  else
    let declined : Bool := features.ctrDelta < 0
    let found := report signal (if declined then .warning else .info) evidence
      "high_value_opportunity"
    { found with evidence := found.evidence.set "ctr_decline_support" (.bool declined) }

/-- `detect_position_volatility`. -/
def detectPositionVolatility (features : FeatureSet) : Signal :=
  let signal := Features.detectPositionVolatility features.toFeatureSet
  let evidence : Dict :=
    [("mad_current", .number features.madCurrent), ("trend_slope", .number features.trendSlope),
      ("trend_direction", .str features.trendDirection)] ++
    windowEvidence features ++
    [("min_mad", .number (3 / 2)), ("critical_mad", .number 3),
      ("min_data_completeness", .number (8 / 10))]
  if !Features.enoughData features.toFeatureSet then
    report signal .info evidence "insufficient_data_completeness"
  else if !signal.detected then report signal .info evidence "volatility_below_threshold"
  else report signal (if 3 ≤ features.madCurrent then .critical else .warning) evidence
    "high_position_volatility"

/-- The risk signal of one detected signal. -/
def underVolatility (signals : List Signal) (original risk : SignalType) (reason : String) :
    List Signal :=
  match signals.find? fun signal => signal.signalType = original && signal.detected with
  | some signal =>
      [{ signalType := risk
         detected := true
         confidence := min signal.confidence (4 / 5)
         severity := .warning
         evidence :=
           [("original_signal", .str (signalValue original)),
             ("risk_signal", .str (signalValue .volatility)),
             ("original_confidence", .number signal.confidence), ("reason", .str reason)] }]
  | none => []

/-- `detect_signal_risks`. -/
def detectSignalRisks (signals : List Signal) : List Signal :=
  if .volatility ∈ detectedTypes (signals.map Signal.toSignal) then
    underVolatility signals .ctrDrop .ctrDropUnderVolatility
        "ctr_drop_occurs_during_high_volatility" ++
      underVolatility signals .positionDecline .positionDeclineUnderVolatility
        "position_decline_occurs_during_high_volatility"
  else []

/-- `_detect_all_signals`. -/
def detectAllSignals (features : FeatureSet) : List Signal :=
  let signals := [detectCtrDrop features, detectPositionDecline features,
    detectHighValueOpportunity features, detectPositionVolatility features]
  signals ++ detectSignalRisks signals

/-! ## The reported signals are the detected ones -/

@[simp] theorem report_toSignal (signal : Ports.Signal) (severity : SignalSeverity)
    (evidence : Dict) (reason : String) :
    (report signal severity evidence reason).toSignal = signal := rfl

@[simp] theorem detectCtrDrop_toSignal (features : FeatureSet) :
    (detectCtrDrop features).toSignal = Features.detectCtrDrop features.toFeatureSet := by
  unfold detectCtrDrop
  dsimp only
  split
  · rfl
  split
  · rfl
  split <;> rfl

@[simp] theorem detectPositionDecline_toSignal (features : FeatureSet) :
    (detectPositionDecline features).toSignal =
      Features.detectPositionDecline features.toFeatureSet := by
  unfold detectPositionDecline
  dsimp only
  split
  · rfl
  split <;> rfl

@[simp] theorem detectHighValueOpportunity_toSignal (features : FeatureSet) :
    (detectHighValueOpportunity features).toSignal =
      Features.detectHighValueOpportunity features.toFeatureSet := by
  unfold detectHighValueOpportunity
  dsimp only
  split
  · rfl
  split
  · rfl
  split
  · rfl
  split <;> rfl

@[simp] theorem detectPositionVolatility_toSignal (features : FeatureSet) :
    (detectPositionVolatility features).toSignal =
      Features.detectPositionVolatility features.toFeatureSet := by
  unfold detectPositionVolatility
  dsimp only
  split
  · rfl
  split <;> rfl

theorem underVolatility_toSignal (signals : List Signal) (original risk : SignalType)
    (reason : String) :
    (underVolatility signals original risk reason).map Signal.toSignal =
      Ports.underVolatility (signals.map Signal.toSignal) original risk := by
  unfold underVolatility Ports.underVolatility
  rw [List.find?_map]
  cases h : signals.find? fun signal => signal.signalType = original && signal.detected with
  | none =>
      rw [show signals.find? ((fun signal => decide (signal.signalType = original) &&
        signal.detected) ∘ Signal.toSignal) = none from h]
      rfl
  | some signal =>
      rw [show signals.find? ((fun signal => decide (signal.signalType = original) &&
        signal.detected) ∘ Signal.toSignal) = some signal from h]
      rfl

theorem detectSignalRisks_toSignal (signals : List Signal) :
    (detectSignalRisks signals).map Signal.toSignal =
      Ports.detectSignalRisks (signals.map Signal.toSignal) := by
  unfold detectSignalRisks Ports.detectSignalRisks
  split
  · rw [List.map_append, underVolatility_toSignal, underVolatility_toSignal]
  · rfl

/-- The reported signals are the detected ones. -/
theorem detectAllSignals_toSignal (features : FeatureSet) :
    (detectAllSignals features).map Signal.toSignal =
      Features.detectAllSignals features.toFeatureSet := by
  unfold detectAllSignals Features.detectAllSignals Features.detectors
  rw [List.map_append, detectSignalRisks_toSignal]
  simp only [List.map_cons, List.map_nil, detectCtrDrop_toSignal, detectPositionDecline_toSignal,
    detectHighValueOpportunity_toSignal, detectPositionVolatility_toSignal]

end SeoAgent.Decision
