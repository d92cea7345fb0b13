import SeoAgent.Learning.Advice

/-!
# The decision engine and what is learned

One run of the decision engine, from the evidence to the action, with the advice of a
learning context in between. Two runs of the same evidence decide the same whatever was
learned before either.

## Main results

* `buildAction_withoutPriority` — the action of a strategy depends on what is learned only in
  the scores and reasons it copies.
* `learning_decides_nothing` — the results of two runs are equal but for what is echoed of the
  contexts, the strategy's priority, reasons and advice, and the action's copies of them.
-/

namespace SeoAgent.Decision

open Verified Learning
open Ports (Exc Subject)

/-- `DecisionEngineResult`. -/
structure DecisionEngineResult where
  features : FeatureSet
  signals : List Signal
  classification : ClassificationResult
  candidate : Option Candidate
  opportunity : Option Opportunity
  strategy : Option Strategy
  action : Option Action
  investigationQueue : List Candidate
  learningContext : Option LearningContext

/-- What an engine run is about. -/
def subjectOf (evidence : DecisionEvidence) (candidateId : String) : Subject where
  siteId := evidence.siteId
  normalizedUrl := evidence.normalizedUrl
  normalizedQuery := evidence.normalizedQuery
  candidateId := candidateId

variable (shown : Rat → String)

/-- The strategy of an opportunity, before anything is learned. -/
def strategyOf (subject : Subject) : Option Opportunity → Except Exc (Option Strategy)
  | none => .ok none
  | some opportunity => buildStrategy shown subject opportunity

/-- `run_decision_engine`. -/
def runDecisionEngine (evidence : DecisionEvidence) (candidateId : String)
    (learningContext : Option LearningContext) : Except Exc DecisionEngineResult := do
  let features ← extractFeatureSet evidence
  if !Features.passesDataQualityGate features.dataQuality then
    .ok
      { features
        signals := []
        classification := classifySignals [] features.dataQuality
        candidate := none
        opportunity := none
        strategy := none
        action := none
        investigationQueue := []
        learningContext }
  else
    let subject := subjectOf evidence candidateId
    let signals := detectAllSignals features
    let detected := signals.map Signal.toSignal
    let classification := classifySignals detected features.dataQuality
    let candidate ← buildCandidate subject features detected classification evidence.snapshot
    let opportunity := buildOpportunity shown subject features detected classification.status
      classification.confidence evidence.snapshot
    let strategy ← strategyOf shown subject opportunity
    let strategy := strategy.map fun strategy =>
      applyLearningToStrategy shown strategy learningContext .default
    .ok
      { features
        signals
        classification
        candidate := some candidate
        opportunity
        strategy
        action := strategy.map (buildAction s!"action-{candidateId}")
        investigationQueue := buildInvestigationQueue [candidate]
        learningContext }

/-! ## Two runs -/

/-- An action without what it copies of what is learned. -/
def withoutPriority (action : Action) : Action :=
  { action with
    priorityScore := 0
    reasons := []
    evidence := action.evidence.filter fun entry => entry.1 ≠ "strategy_priority_score" }

/-- A result without what is learned. -/
def DecisionEngineResult.withoutLearning (result : DecisionEngineResult) :
    DecisionEngineResult :=
  { result with
    strategy := result.strategy.map withoutAdvice
    action := result.action.map withoutPriority
    learningContext := none }

/-- The action of a strategy depends on what is learned only in what it copies. -/
theorem buildAction_withoutPriority (actionId : String) (strategy : Strategy) :
    withoutPriority (buildAction actionId strategy) =
      withoutPriority (buildAction actionId (withoutAdvice strategy)) := by
  unfold withoutPriority buildAction actionEvidence withoutAdvice riskLevel
  simp

/-- Strategies that differ in what is learned have actions that differ in its copies. -/
theorem buildAction_congr {actionId : String} {a b : Strategy}
    (h : withoutAdvice a = withoutAdvice b) :
    withoutPriority (buildAction actionId a) = withoutPriority (buildAction actionId b) := by
  rw [buildAction_withoutPriority, h, ← buildAction_withoutPriority]

/-- Learning changes nothing that is decided: two runs of the same evidence, with any two
learning contexts or none, fail alike or give the same features, signals, classification,
candidate, opportunity and queue, strategies equal but for priority, reasons and advice, and
actions equal but for their copies of them. -/
theorem learning_decides_nothing (evidence : DecisionEvidence) (candidateId : String)
    (context context' : Option LearningContext) :
    (runDecisionEngine shown evidence candidateId context).map
        DecisionEngineResult.withoutLearning =
      (runDecisionEngine shown evidence candidateId context').map
        DecisionEngineResult.withoutLearning := by
  unfold runDecisionEngine
  cases extractFeatureSet evidence with
  | error exc => rfl
  | ok features =>
  simp only [bind, Except.bind]
  split
  · rfl
  cases buildCandidate (subjectOf evidence candidateId) features
      ((detectAllSignals features).map Signal.toSignal)
      (classifySignals ((detectAllSignals features).map Signal.toSignal) features.dataQuality)
      evidence.snapshot with
  | error exc => rfl
  | ok candidate =>
  dsimp only
  split
  · rfl
  next strategy _ =>
  cases strategy with
  | none => rfl
  | some strategy =>
      -- Both strategies are the one strategy but for the advice.
      have hstrategy := (applyLearning_withoutAdvice shown strategy context .default).trans
        (applyLearning_withoutAdvice shown strategy context' .default).symm
      simp only [Except.map, DecisionEngineResult.withoutLearning, Option.map_some, hstrategy,
        buildAction_congr hstrategy]

end SeoAgent.Decision
