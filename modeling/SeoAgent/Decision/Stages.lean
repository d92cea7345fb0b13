import SeoAgent.Decision.Signals
import SeoAgent.Verified.Decimal

/-!
# The stages of a decision

Classification, candidate, opportunity, strategy and action with everything their records
hold. Scores stand as the rationals they denote; how a number is printed into a reason is
given (`shown`).

## Main results

* `buildOpportunity_toOpportunity`, `buildStrategy_toStrategy`, `buildAction_toAction` — what
  the runs know of each stage is part of it.
* `buildStrategy_priority` — the priority of a strategy is between zero and one, and has six
  decimals.
-/

namespace SeoAgent.Decision

open Verified Ports

/-! ## The classification -/

/-- `ClassificationResult`. -/
structure ClassificationResult where
  status : ClassificationStatus
  confidence : Rat
  reasons : List String
  signalCount : Nat
  riskCount : Nat
  deriving DecidableEq

/-- `classify_signals`. -/
def classifySignals (signals : List Ports.Signal) (quality : Features.DataQualityMatrix) :
    ClassificationResult :=
  let detected := signals.filter Ports.Signal.detected
  if !Features.passesDataQualityGate quality then
    ⟨.reject, 0, ["insufficient_data_quality"], detected.length,
      (detected.filter fun signal => isRisk signal.signalType).length⟩
  else
    let classification := Ports.classifySignals signals
    let types := (actionable signals ++ risksOf signals).map fun signal =>
      signalValue signal.signalType
    let reasons := match classification.1 with
      | .pass => if detected = [] then ["no_actionable_signal"] else ["only_risk_signals_present"]
      | .reject => "confidence_below_threshold" :: types
      | .investigate => types
    ⟨classification.1, classification.2, reasons, detected.length, (risksOf signals).length⟩

/-! ## The candidate -/

/-- `Candidate`. -/
structure Candidate where
  candidateId : String
  siteId : String
  normalizedUrl : String
  normalizedQuery : String
  status : ClassificationStatus
  confidence : Rat
  priorityScore : Rat
  signalTypes : List String
  riskTypes : List String
  reasons : List String
  snapshot : SnapshotMetadata
  deriving DecidableEq

/-- `_detected_signal_types`. -/
def detectedSignalTypes (signals : List Ports.Signal) : List String :=
  (detectedTypes signals).map signalValue

/-- `_risk_types`. -/
def riskTypes (signals : List Ports.Signal) : List String :=
  ((detectedTypes signals).filter isRisk).map signalValue

/-- `build_candidate`; its texts have to say something. -/
def buildCandidate (subject : Subject) (features : FeatureSet) (signals : List Ports.Signal)
    (classification : ClassificationResult) (snapshot : SnapshotMetadata) :
    Except Exc Candidate :=
  if "" ∈ [subject.candidateId, subject.siteId, subject.normalizedUrl,
      subject.normalizedQuery] then
    .error ⟨.validationError, "validation error for Candidate"⟩
  else .ok
    { candidateId := subject.candidateId
      siteId := subject.siteId
      normalizedUrl := subject.normalizedUrl
      normalizedQuery := subject.normalizedQuery
      status := classification.status
      confidence := classification.confidence
      priorityScore := min ((features.currentImpressions : Rat) / 1000) 10 *
        min (detectedTypes signals).length 5 * classification.confidence
      signalTypes := detectedSignalTypes signals
      riskTypes := riskTypes signals
      reasons := classification.reasons
      snapshot }

/-- `build_investigation_queue`, of no clusters. -/
def buildInvestigationQueue (candidates : List Candidate) : List Candidate :=
  ((candidates.filter fun candidate => candidate.status = .investigate).insertionSort
    fun a b => b.priorityScore < a.priorityScore ∨
      b.priorityScore = a.priorityScore ∧ b.confidence ≤ a.confidence).take 50

/-! ## The opportunity -/

/-- `Opportunity`; its status is `qualified`. -/
structure Opportunity extends Ports.Opportunity where
  candidateId : String
  impactScore : Rat
  confidenceScore : Rat
  businessValueScore : Rat
  trafficPotentialScore : Rat
  effortScore : Rat
  riskScore : Rat
  priorityScore : Rat
  riskTypes : List String
  reasons : List String
  evidence : Dict
  snapshot : SnapshotMetadata
  deriving DecidableEq

/-- A score cut off at zero and one, to six decimals. -/
def clampedScore (score : Rat) : Rat := roundTo 6 (min (max score 0) 1)

/-- `_traffic_potential_score`. -/
def trafficPotentialScore (position : Rat) : Rat :=
  if position ≤ 3 then 35 / 100
  else if position ≤ 10 then 1
  else if position ≤ 20 then 7 / 10
  else 3 / 10

/-- `_effort_score`. -/
def effortScore : OpportunityType → Rat
  | .ctrRecovery => 3 / 10
  | .positionRecovery => 6 / 10
  | .visibilityGrowth => 4 / 10
  | .mixedRecovery => 7 / 10

variable (shown : Rat → String)

/-- `build_opportunity`. -/
def buildOpportunity (subject : Subject) (features : FeatureSet) (signals : List Ports.Signal)
    (classification : ClassificationStatus) (confidence : Rat) (snapshot : SnapshotMetadata) :
    Option Opportunity :=
  let signalTypes := detectedTypes signals
  if classification ≠ .investigate then none
  else if signalTypes = [] then none
  else
    let opportunityType := resolveOpportunityType signalTypes
    let impact := min ((features.currentImpressions : Rat) / 5000) 1
    let businessValue := min ((features.currentClicks : Rat) / 500) 1
    let trafficPotential := trafficPotentialScore features.currentMedian
    let effort := effortScore opportunityType
    let risk := min (((riskTypes signals).length : Rat) * (1 / 4)) 1
    let priority := clampedScore (30 / 100 * impact + 20 / 100 * confidence +
      15 / 100 * businessValue + 15 / 100 * trafficPotential + 10 / 100 * (1 - effort) +
      10 / 100 * (1 - risk))
    some
      { opportunityId := s!"opportunity-{subject.candidateId}"
        candidateId := subject.candidateId
        siteId := subject.siteId
        normalizedUrl := subject.normalizedUrl
        normalizedQuery := subject.normalizedQuery
        opportunityType
        qualified := true
        impactScore := impact
        confidenceScore := confidence
        businessValueScore := businessValue
        trafficPotentialScore := trafficPotential
        effortScore := effort
        riskScore := risk
        priorityScore := priority
        signalTypes
        riskTypes := riskTypes signals
        reasons := ["signals=" ++ String.intercalate "," (detectedSignalTypes signals),
          s!"priority_score={shown priority}"]
        evidence :=
          [("current_impressions", .int features.currentImpressions),
            ("current_clicks", .int features.currentClicks),
            ("current_ctr", .number features.currentCtr.value),
            ("ctr_delta", .number features.ctrDelta),
            ("current_position", .number features.currentMedian),
            ("position_delta", .number features.positionDelta),
            ("query_visibility_share", .number features.queryVisibilityShare.value)]
        snapshot }

/-! ## The strategy -/

/-- `StrategyStatus`. -/
inductive StrategyStatus
  | recommended
  | rejected
  deriving DecidableEq, Repr

/-- `Strategy`. -/
structure Strategy extends Ports.Strategy where
  opportunityType : OpportunityType
  status : StrategyStatus
  confidenceScore : Rat
  expectedImpactScore : Rat
  effortScore : Rat
  priorityScore : Rat
  snapshot : SnapshotMetadata
  deriving DecidableEq

/-- `_strategy_effort`; a description strategy has no entry. -/
def strategyEffort : StrategyType → Except Exc Rat
  | .serpTitleOptimization => .ok (25 / 100)
  | .cannibalizationInvestigation => .ok (60 / 100)
  | .internalLinking => .ok (45 / 100)
  | .contentDepthImprovement => .ok (70 / 100)
  | .monitorOnly => .ok (5 / 100)
  | .metaDescriptionOptimization =>
      .error (.keyError (StrategyType.value .metaDescriptionOptimization))

/-- The multipliers of `_expected_impact`; a description strategy has no entry. -/
def impactMultiplier : StrategyType → Except Exc Rat
  | .serpTitleOptimization => .ok (95 / 100)
  | .cannibalizationInvestigation => .ok (80 / 100)
  | .internalLinking => .ok (75 / 100)
  | .contentDepthImprovement => .ok (70 / 100)
  | .monitorOnly => .ok (20 / 100)
  | .metaDescriptionOptimization =>
      .error (.keyError (StrategyType.value .metaDescriptionOptimization))

/-- `_priority_score` of a strategy. -/
def strategyPriority (impact confidence effort risk : Rat) : Rat :=
  clampedScore (40 / 100 * impact + 35 / 100 * confidence + 15 / 100 * (1 - effort) +
    10 / 100 * (1 - risk))

/-- What a strategy keeps of its opportunity. -/
def strategyEvidence (opportunity : Opportunity) : Dict :=
  [("opportunity_priority_score", .number opportunity.priorityScore),
    ("opportunity_impact_score", .number opportunity.impactScore),
    ("opportunity_confidence_score", .number opportunity.confidenceScore),
    ("opportunity_risk_score", .number opportunity.riskScore),
    ("signal_types", .list (opportunity.signalTypes.map fun t => .str (signalValue t))),
    ("risk_types", .list (opportunity.riskTypes.map .str))]

/-- `build_strategy`. -/
def buildStrategy (subject : Subject) (opportunity : Opportunity) :
    Except Exc (Option Strategy) :=
  if opportunity.qualified then do
    let strategyType := recommendStrategyType opportunity.toOpportunity
    let effort ← strategyEffort strategyType
    let risk ← strategyRisk strategyType
    let multiplier ← impactMultiplier strategyType
    let impact := roundTo 6 (min (opportunity.impactScore * multiplier) 1)
    let confidence := roundTo 6 opportunity.confidenceScore
    let priority := strategyPriority impact confidence effort risk
    return some
      { strategyId := s!"strategy-{subject.candidateId}"
        opportunityId := opportunity.opportunityId
        siteId := opportunity.siteId
        normalizedUrl := opportunity.normalizedUrl
        normalizedQuery := opportunity.normalizedQuery
        opportunityType := opportunity.opportunityType
        strategyType
        status := .recommended
        confidenceScore := confidence
        expectedImpactScore := impact
        effortScore := effort
        riskScore := risk
        priorityScore := priority
        reasons := [s!"opportunity_type={opportunity.opportunityType.value}",
          s!"strategy_type={strategyType.value}", s!"priority_score={shown priority}"]
        evidence := strategyEvidence opportunity
        snapshot := opportunity.snapshot }
  else return none

/-! ## The action -/

/-- `ActionRiskLevel`. -/
inductive ActionRiskLevel
  | low
  | medium
  | high
  deriving DecidableEq, Repr

/-- `Action`. -/
structure Action extends Ports.Action where
  strategyId : String
  opportunityId : String
  strategyType : StrategyType
  riskLevel : ActionRiskLevel
  confidenceScore : Rat
  expectedImpactScore : Rat
  priorityScore : Rat
  snapshot : SnapshotMetadata
  deriving DecidableEq

/-- `_risk_level`. -/
def riskLevel (strategy : Strategy) : ActionRiskLevel :=
  if 65 / 100 ≤ strategy.riskScore then .high
  else if 35 / 100 ≤ strategy.riskScore then .medium
  else .low

/-- `_requires_approval`. -/
def requiresApproval (actionType : ActionType) (level : ActionRiskLevel) : Bool :=
  actionType ∈ [.optimizeTitle, .optimizeMetaDescription, .improveContentDepth] ||
    level ∈ [.medium, .high]

/-- What an action keeps of the scores of its strategy. -/
def actionEvidence (strategy : Strategy) : Dict :=
  [("strategy_priority_score", .number strategy.priorityScore),
    ("strategy_confidence_score", .number strategy.confidenceScore),
    ("strategy_risk_score", .number strategy.riskScore),
    ("strategy_type", .str strategy.strategyType.value),
    ("action_type", .str (strategyToAction strategy.strategyType).value)]

/-- `build_action`; every strategy type has its action. -/
def buildAction (actionId : String) (strategy : Strategy) : Action :=
  let actionType := strategyToAction strategy.strategyType
  let level := riskLevel strategy
  let approval := requiresApproval actionType level
  { actionId
    strategyId := strategy.strategyId
    opportunityId := strategy.opportunityId
    siteId := strategy.siteId
    normalizedUrl := strategy.normalizedUrl
    normalizedQuery := strategy.normalizedQuery
    strategyType := strategy.strategyType
    actionType
    status := if approval then .awaitingApproval else .planned
    riskLevel := level
    confidenceScore := strategy.confidenceScore
    expectedImpactScore := strategy.expectedImpactScore
    priorityScore := strategy.priorityScore
    requiresApproval := approval
    reasons := strategy.reasons
    parameters := []
    evidence := actionEvidence strategy
    snapshot := strategy.snapshot }

/-! ## What the runs know of each stage -/

theorem clampedScore_nonneg (score : Rat) : 0 ≤ clampedScore score :=
  roundTo_nonneg (le_min (le_max_right _ _) zero_le_one)

theorem clampedScore_le_one (score : Rat) : clampedScore score ≤ 1 :=
  roundTo_le_one (min_le_right _ _)

/-- Whether there is an opportunity, and for what, is what the runs see of it. -/
theorem buildOpportunity_toOpportunity (subject : Subject) (features : FeatureSet)
    (signals : List Ports.Signal) (classification : ClassificationStatus) (confidence : Rat)
    (snapshot : SnapshotMetadata) :
    (buildOpportunity shown subject features signals classification confidence snapshot).map
        Opportunity.toOpportunity =
      Ports.buildOpportunity subject signals classification := by
  unfold buildOpportunity Ports.buildOpportunity
  dsimp only
  split
  · rfl
  split <;> rfl

/-- The strategy of an opportunity is the one the runs propose, with its scores printed. -/
theorem buildStrategy_toStrategy (subject : Subject) (opportunity : Opportunity)
    (actionEvidence : Dict) :
    ∃ priority, (buildStrategy shown subject opportunity).map
        (Option.map Strategy.toStrategy) =
      Ports.buildStrategy subject opportunity.toOpportunity
        ⟨shown priority, strategyEvidence opportunity, actionEvidence⟩ := by
  unfold buildStrategy Ports.buildStrategy
  have hne := recommendStrategyType_ne opportunity.toOpportunity
  by_cases hq : opportunity.qualified = true
  · rw [if_pos hq]
    simp only [if_pos hq]
    cases htype : recommendStrategyType opportunity.toOpportunity with
    | metaDescriptionOptimization => exact absurd htype hne
    | _ => exact ⟨_, rfl⟩
  · rw [if_neg hq]
    simp only [if_neg hq]
    exact ⟨0, rfl⟩

/-- The priority of a strategy is between zero and one, and has six decimals. -/
theorem buildStrategy_priority {subject : Subject} {opportunity : Opportunity}
    {strategy : Strategy} (h : buildStrategy shown subject opportunity = .ok (some strategy)) :
    0 ≤ strategy.priorityScore ∧ strategy.priorityScore ≤ 1 ∧
      roundTo 6 strategy.priorityScore = strategy.priorityScore := by
  obtain ⟨score, hscore⟩ : ∃ score, strategy.priorityScore = clampedScore score := by
    unfold buildStrategy at h
    have hne := recommendStrategyType_ne opportunity.toOpportunity
    by_cases hq : opportunity.qualified = true
    · rw [if_pos hq] at h
      cases htype : recommendStrategyType opportunity.toOpportunity with
      | metaDescriptionOptimization => exact absurd htype hne
      | _ =>
          rw [htype] at h
          obtain rfl := Option.some.inj (Except.ok.inj h)
          exact ⟨_, rfl⟩
    · rw [if_neg hq] at h
      cases h
  rw [hscore]
  exact ⟨clampedScore_nonneg score, clampedScore_le_one score, roundTo_roundTo 6 _⟩

theorem requiresApproval_eq (actionType : ActionType) (strategy : Strategy) :
    requiresApproval actionType (riskLevel strategy) =
      Ports.requiresApproval actionType strategy.riskScore := by
  have hlevel : riskLevel strategy ∈ [.medium, .high] ↔ 35 / 100 ≤ strategy.riskScore := by
    unfold riskLevel
    split
    · next h => exact iff_of_true (by simp) (le_trans (by norm_num) h)
    split
    · next h => exact iff_of_true (by simp) h
    · next h => exact iff_of_false (by simp) h
  unfold requiresApproval Ports.requiresApproval
  rw [decide_eq_decide.mpr hlevel]

/-- The action of a strategy is the one the runs propose. -/
theorem buildAction_toAction (actionId : String) (strategy : Strategy) :
    (buildAction actionId strategy).toAction =
      Ports.buildAction actionId strategy.toStrategy (actionEvidence strategy) := by
  unfold buildAction Ports.buildAction
  dsimp only
  rw [requiresApproval_eq]

end SeoAgent.Decision
