import Mathlib.Data.Rat.Init
import Mathlib.Order.Lattice
import Mathlib.Algebra.Order.Ring.Rat
import SeoAgent.Ports.ManagedAction

/-!
# The decision engine

From the signals the detectors give to what a run proposes: risks, the
classification, the opportunity, the strategy and the action. Confidences stand
as the rationals they denote; the texts and the evidence made of the other
scores are given with the signals (`Analysis`), as is what `model_dump` makes of
the whole result.

## Main results

* `runDecisionPipeline_ok` — the pipeline always gives a result, whose strategy is
  about its subject and comes with the action of its type.
-/

namespace SeoAgent.Ports

open Verified

/-! ## Signals -/

/-- `SignalType`. -/
inductive SignalType
  | ctrDrop
  | positionDecline
  | highValueOpportunity
  | volatility
  | ctrDropUnderVolatility
  | positionDeclineUnderVolatility
  deriving DecidableEq, Repr

/-- `Signal`. -/
structure Signal where
  signalType : SignalType
  detected : Bool
  confidence : Rat
  deriving DecidableEq

/-- The types of the detected signals. -/
def detectedTypes (signals : List Signal) : List SignalType :=
  (signals.filter Signal.detected).map Signal.signalType

/-- The risk signal of one detected signal. -/
def underVolatility (signals : List Signal) (original risk : SignalType) : List Signal :=
  match signals.find? fun signal => signal.signalType = original && signal.detected with
  | some signal => [⟨risk, true, min signal.confidence (4 / 5)⟩]
  | none => []

/-- `detect_signal_risks`. -/
def detectSignalRisks (signals : List Signal) : List Signal :=
  if .volatility ∈ detectedTypes signals then
    underVolatility signals .ctrDrop .ctrDropUnderVolatility ++
      underVolatility signals .positionDecline .positionDeclineUnderVolatility
  else []

/-! ## The classification -/

/-- `ClassificationStatus`. -/
inductive ClassificationStatus
  | pass
  | investigate
  | reject
  deriving DecidableEq, Repr

/-- The signals that are reason enough to act. -/
def actionable (signals : List Signal) : List Signal :=
  (signals.filter Signal.detected).filter fun signal =>
    signal.signalType ∈ [.ctrDrop, .positionDecline, .highValueOpportunity]

/-- The detected risks. -/
def risksOf (signals : List Signal) : List Signal :=
  (signals.filter Signal.detected).filter fun signal =>
    signal.signalType ∈ [.ctrDropUnderVolatility, .positionDeclineUnderVolatility]

/-- `classify_signals`, of data that is good enough: the status and the
confidence. -/
def classifySignals (signals : List Signal) : ClassificationStatus × Rat :=
  match (actionable signals).map Signal.confidence with
  | [] => (.pass, if signals.filter Signal.detected = [] then 1 else 0)
  | confidence :: others =>
      let strongest := others.foldl max confidence
      let adjusted := if risksOf signals = [] then strongest else strongest * (4 / 5)
      if adjusted < 1 / 2 then (.reject, adjusted) else (.investigate, adjusted)

/-! ## The opportunity -/

/-- `OpportunityType`. -/
inductive OpportunityType
  | ctrRecovery
  | positionRecovery
  | visibilityGrowth
  | mixedRecovery
  deriving DecidableEq, Repr

/-- The stored text of an opportunity type. -/
def OpportunityType.value : OpportunityType → String
  | .ctrRecovery => "ctr_recovery"
  | .positionRecovery => "position_recovery"
  | .visibilityGrowth => "visibility_growth"
  | .mixedRecovery => "mixed_recovery"

/-- `Opportunity`. -/
structure Opportunity where
  opportunityId : String
  siteId : String
  normalizedUrl : String
  normalizedQuery : String
  opportunityType : OpportunityType
  qualified : Bool
  signalTypes : List SignalType
  deriving DecidableEq

/-- `_resolve_opportunity_type`. -/
def resolveOpportunityType (signalTypes : List SignalType) : OpportunityType :=
  if .ctrDrop ∈ signalTypes ∧ .positionDecline ∈ signalTypes then .mixedRecovery
  else if .ctrDrop ∈ signalTypes then .ctrRecovery
  else if .positionDecline ∈ signalTypes then .positionRecovery
  else .visibilityGrowth

/-- What an analysis is about. -/
structure Subject where
  siteId : String
  normalizedUrl : String
  normalizedQuery : String
  candidateId : String
  deriving DecidableEq

/-- `build_opportunity`. -/
def buildOpportunity (subject : Subject) (signals : List Signal)
    (classification : ClassificationStatus) : Option Opportunity :=
  let signalTypes := detectedTypes signals
  if classification ≠ .investigate then none
  else if signalTypes = [] then none
  else some
    { opportunityId := s!"opportunity-{subject.candidateId}"
      siteId := subject.siteId
      normalizedUrl := subject.normalizedUrl
      normalizedQuery := subject.normalizedQuery
      opportunityType := resolveOpportunityType signalTypes
      qualified := true
      signalTypes }

/-! ## The strategy -/

/-- `StrategyType`. -/
inductive StrategyType
  | serpTitleOptimization
  | metaDescriptionOptimization
  | cannibalizationInvestigation
  | internalLinking
  | contentDepthImprovement
  | monitorOnly
  deriving DecidableEq, Repr

/-- The stored text of a strategy type. -/
def StrategyType.value : StrategyType → String
  | .serpTitleOptimization => "serp_title_optimization"
  | .metaDescriptionOptimization => "meta_description_optimization"
  | .cannibalizationInvestigation => "cannibalization_investigation"
  | .internalLinking => "internal_linking"
  | .contentDepthImprovement => "content_depth_improvement"
  | .monitorOnly => "monitor_only"

/-- `Strategy`. -/
structure Strategy where
  strategyId : String
  opportunityId : String
  siteId : String
  normalizedUrl : String
  normalizedQuery : String
  strategyType : StrategyType
  riskScore : Rat
  reasons : List String
  evidence : Dict
  deriving DecidableEq

/-- `_recommend_strategy_type`. -/
def recommendStrategyType (opportunity : Opportunity) : StrategyType :=
  match opportunity.opportunityType with
  | .ctrRecovery => .serpTitleOptimization
  | .positionRecovery =>
      if .positionDeclineUnderVolatility ∈ opportunity.signalTypes then .monitorOnly
      else .internalLinking
  | .mixedRecovery =>
      if .positionDeclineUnderVolatility ∈ opportunity.signalTypes then
        .cannibalizationInvestigation
      else .serpTitleOptimization
  | .visibilityGrowth => .contentDepthImprovement

/-- `_strategy_risk`; a description strategy has no entry. -/
def strategyRisk : StrategyType → Except Exc Rat
  | .serpTitleOptimization => .ok (30 / 100)
  | .cannibalizationInvestigation => .ok (20 / 100)
  | .internalLinking => .ok (35 / 100)
  | .contentDepthImprovement => .ok (45 / 100)
  | .monitorOnly => .ok (5 / 100)
  | .metaDescriptionOptimization =>
      .error (.keyError (StrategyType.value .metaDescriptionOptimization))

/-- What the scores of an analysis are printed as. -/
structure Scores where
  priorityScore : String
  strategyEvidence : Dict
  actionEvidence : Dict
  deriving DecidableEq

/-- `build_strategy`, with the learning's advice in its evidence. -/
def buildStrategy (subject : Subject) (opportunity : Opportunity) (scores : Scores) :
    Except Exc (Option Strategy) :=
  if opportunity.qualified then do
    let strategyType := recommendStrategyType opportunity
    let riskScore ← strategyRisk strategyType
    return some
      { strategyId := s!"strategy-{subject.candidateId}"
        opportunityId := opportunity.opportunityId
        siteId := opportunity.siteId
        normalizedUrl := opportunity.normalizedUrl
        normalizedQuery := opportunity.normalizedQuery
        strategyType, riskScore
        reasons := [s!"opportunity_type={opportunity.opportunityType.value}",
          s!"strategy_type={strategyType.value}",
          s!"priority_score={scores.priorityScore}"]
        evidence := scores.strategyEvidence }
  else return none

/-! ## The action -/

/-- `STRATEGY_TO_ACTION`. -/
def strategyToAction : StrategyType → ActionType
  | .serpTitleOptimization => .optimizeTitle
  | .metaDescriptionOptimization => .optimizeMetaDescription
  | .cannibalizationInvestigation => .investigateCannibalization
  | .internalLinking => .improveInternalLinking
  | .contentDepthImprovement => .improveContentDepth
  | .monitorOnly => .monitor

/-- `_requires_approval`; a risk of medium level starts at 0.35. -/
def requiresApproval (actionType : ActionType) (riskScore : Rat) : Bool :=
  actionType ∈ [.optimizeTitle, .optimizeMetaDescription, .improveContentDepth] ||
    35 / 100 ≤ riskScore

/-- `build_action`. -/
def buildAction (actionId : String) (strategy : Strategy) (evidence : Dict) : Action :=
  let actionType := strategyToAction strategy.strategyType
  let approval := requiresApproval actionType strategy.riskScore
  { actionId
    siteId := strategy.siteId
    normalizedUrl := strategy.normalizedUrl
    normalizedQuery := strategy.normalizedQuery
    actionType
    status := if approval then .awaitingApproval else .planned
    requiresApproval := approval
    reasons := strategy.reasons
    parameters := []
    evidence }

/-! ## The pipeline -/

/-- What the data of a site says: the ingestion does not add up, there is too
little of it, or these are the detectors' signals. -/
inductive Analysis
  | invalidReconciliation (dumped : Dict)
  | insufficientQuality (dumped : Dict)
  | detected (signals : List Signal) (scores : Scores) (dumped : Dict)
  deriving DecidableEq

/-- `PipelineStatus`. -/
inductive PipelineStatus
  | completed
  | rejectedReconciliation
  | rejectedDataQuality
  deriving DecidableEq, Repr

/-- The stored text of a pipeline status. -/
def PipelineStatus.value : PipelineStatus → String
  | .completed => "completed"
  | .rejectedReconciliation => "rejected_reconciliation"
  | .rejectedDataQuality => "rejected_data_quality"

/-- `DecisionPipelineResult`, and what `model_dump` makes of it. -/
structure PipelineResult where
  status : PipelineStatus
  strategy : Option Strategy
  action : Option Action
  dumped : Dict
  deriving DecidableEq

/-- `run_decision_pipeline`, with `run_decision_engine`. -/
def runDecisionPipeline (subject : Subject) : Analysis → Except Exc PipelineResult
  | .invalidReconciliation dumped => .ok ⟨.rejectedReconciliation, none, none, dumped⟩
  | .insufficientQuality dumped => .ok ⟨.rejectedDataQuality, none, none, dumped⟩
  | .detected detectors scores dumped => do
      let signals := detectors ++ detectSignalRisks detectors
      let classification := (classifySignals signals).1
      match buildOpportunity subject signals classification with
      | none => return ⟨.completed, none, none, dumped⟩
      | some opportunity => do
          let strategy ← buildStrategy subject opportunity scores
          return ⟨.completed, strategy,
            strategy.map fun strategy =>
              buildAction s!"action-{subject.candidateId}" strategy scores.actionEvidence,
            dumped⟩

/-! ## What the pipeline yields -/

theorem recommendStrategyType_ne (opportunity : Opportunity) :
    recommendStrategyType opportunity ≠ .metaDescriptionOptimization := by
  unfold recommendStrategyType
  split
  · simp
  · split <;> simp
  · split <;> simp
  · simp

/-- An opportunity the engine builds gets a strategy. -/
theorem buildStrategy_ok (subject : Subject) (opportunity : Opportunity)
    (scores : Scores) (h : opportunity.qualified = true) :
    ∃ strategy, buildStrategy subject opportunity scores = .ok (some strategy) ∧
      strategy.strategyType = recommendStrategyType opportunity ∧
      strategy.siteId = opportunity.siteId ∧
      strategy.normalizedUrl = opportunity.normalizedUrl ∧
      strategy.normalizedQuery = opportunity.normalizedQuery := by
  obtain ⟨risk, hrisk⟩ : ∃ risk, strategyRisk (recommendStrategyType opportunity) =
      .ok risk := by
    have hne := recommendStrategyType_ne opportunity
    cases htype : recommendStrategyType opportunity with
    | metaDescriptionOptimization => exact absurd htype hne
    | _ => exact ⟨_, rfl⟩
  unfold buildStrategy
  rw [if_pos h]
  dsimp only
  rw [hrisk]
  exact ⟨_, rfl, rfl, rfl, rfl, rfl⟩

/-- What a result of the pipeline consists of. -/
structure PipelineResult.WellFormed (subject : Subject) (result : PipelineResult) :
    Prop where
  siteId : ∀ s ∈ result.strategy, s.siteId = subject.siteId
  normalizedUrl : ∀ s ∈ result.strategy, s.normalizedUrl = subject.normalizedUrl
  normalizedQuery : ∀ s ∈ result.strategy, s.normalizedQuery = subject.normalizedQuery
  action : ∀ s ∈ result.strategy, ∃ action, result.action = some action ∧
    action.actionType = strategyToAction s.strategyType
  noAction : result.strategy = none → result.action = none

theorem buildOpportunity_some {subject : Subject} {signals : List Signal}
    {classification : ClassificationStatus} {opportunity : Opportunity}
    (h : buildOpportunity subject signals classification = some opportunity) :
    opportunity.qualified = true ∧ opportunity.siteId = subject.siteId ∧
      opportunity.normalizedUrl = subject.normalizedUrl ∧
      opportunity.normalizedQuery = subject.normalizedQuery := by
  unfold buildOpportunity at h
  dsimp only at h
  split at h
  · cases h
  split at h
  · cases h
  · obtain rfl := Option.some.inj h
    exact ⟨rfl, rfl, rfl, rfl⟩

/-- The pipeline always gives a result, whose strategy is about the subject and
comes with its action. -/
theorem runDecisionPipeline_ok (subject : Subject) (analysis : Analysis) :
    ∃ result, runDecisionPipeline subject analysis = .ok result ∧
      result.WellFormed subject := by
  have hempty : ∀ status dumped,
      (⟨status, none, none, dumped⟩ : PipelineResult).WellFormed subject :=
    fun _ _ => ⟨nofun, nofun, nofun, nofun, fun _ => rfl⟩
  cases analysis with
  | invalidReconciliation dumped => exact ⟨_, rfl, hempty _ _⟩
  | insufficientQuality dumped => exact ⟨_, rfl, hempty _ _⟩
  | detected detectors scores dumped =>
      unfold runDecisionPipeline
      dsimp only
      split
      · exact ⟨_, rfl, hempty _ _⟩
      next opportunity hopp =>
      obtain ⟨hq, hsite, hurl, hquery⟩ := buildOpportunity_some hopp
      obtain ⟨strategy, hs, -, hs₁, hs₂, hs₃⟩ :=
        buildStrategy_ok subject opportunity scores hq
      rw [hs]
      refine ⟨_, rfl, ?_, ?_, ?_, ?_, nofun⟩
      · rintro s ⟨⟩
        exact hs₁.trans hsite
      · rintro s ⟨⟩
        exact hs₂.trans hurl
      · rintro s ⟨⟩
        exact hs₃.trans hquery
      · rintro s ⟨⟩
        exact ⟨_, rfl, rfl⟩

end SeoAgent.Ports
