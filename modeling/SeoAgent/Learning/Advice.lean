import SeoAgent.Learning.Feedback

/-!
# Learned advice

What a learning context changes about a strategy: the priority is moved by the change that
the one eligible signal stands for, within bounds, and the strategy tells about it. Nothing
else of the strategy is touched.

## Main results

* `applyLearning_withoutAdvice` — advice changes the priority, the reasons and the evidence,
  and of the evidence only what is under `learning`.
-/

namespace SeoAgent.Learning

open Verified Decision
open Ports hiding Strategy

/-! ## The policy -/

/-- `LearningDecisionPolicy`. -/
structure LearningDecisionPolicy where
  minSamples : Int
  minConfidence : Rat
  maxPriorityAdjustment : Rat
  adjustmentScale : Rat
  deriving DecidableEq

/-- `LearningDecisionPolicy()`. -/
def LearningDecisionPolicy.default : LearningDecisionPolicy where
  minSamples := 5
  minConfidence := 5 / 10
  maxPriorityAdjustment := 10 / 100
  adjustmentScale := 25 / 100

/-- What `__post_init__` demands of a policy. -/
structure LearningDecisionPolicy.Valid (policy : LearningDecisionPolicy) : Prop where
  minSamples : 1 ≤ policy.minSamples
  minConfidence : 0 ≤ policy.minConfidence ∧ policy.minConfidence ≤ 1
  maxPriorityAdjustment : 0 < policy.maxPriorityAdjustment ∧ policy.maxPriorityAdjustment ≤ 1
  adjustmentScale : 0 < policy.adjustmentScale ∧ policy.adjustmentScale ≤ 1

theorem LearningDecisionPolicy.default_valid : LearningDecisionPolicy.default.Valid := by
  constructor <;> simp only [LearningDecisionPolicy.default] <;> norm_num

/-! ## The adjustment -/

/-- `LearningDecisionAdjustment`. -/
structure LearningDecisionAdjustment where
  applied : Bool
  adjustment : Rat
  confidence : Rat
  reason : String
  signalId : Option String
  deriving DecidableEq

/-- Whether a signal may advise about a strategy. -/
def eligible (strategyType : StrategyType) (policy : LearningDecisionPolicy)
    (signal : LearningSignal) : Bool :=
  signal.strategyType = strategyType && signal.actionType = strategyToAction strategyType &&
    signal.maturity = .established && policy.minSamples ≤ (signal.sampleSize : Int) &&
    policy.minConfidence ≤ signal.confidence

/-- `_find_matching_signal`: the first eligible one by its id. -/
def findMatchingSignal (strategyType : StrategyType) (context : LearningContext)
    (policy : LearningDecisionPolicy) : Option LearningSignal :=
  ((context.signals.filter (eligible strategyType policy)).insertionSort
    fun a b => a.signalId ≤ b.signalId).head?

/-- No adjustment, and why. -/
def noAdjustment (confidence : Rat) (reason : String) (signalId : Option String) :
    LearningDecisionAdjustment :=
  ⟨false, 0, confidence, reason, signalId⟩

/-- The adjustment of an average change, before it is bounded. -/
def rawAdjustment (policy : LearningDecisionPolicy) (signal : LearningSignal)
    (change : Rat) : Rat :=
  benefitChange signal.primaryMetric change * signal.confidence * policy.adjustmentScale

/-- The adjustment within the bounds of the policy. -/
def boundedAdjustment (policy : LearningDecisionPolicy) (raw : Rat) : Rat :=
  max (-policy.maxPriorityAdjustment) (min policy.maxPriorityAdjustment raw)

/-- `calculate_learning_adjustment`. -/
def calculateLearningAdjustment (strategyType : StrategyType)
    (context : Option LearningContext) (policy : LearningDecisionPolicy) :
    LearningDecisionAdjustment :=
  match context with
  | none => noAdjustment 0 "no_learning_context" none
  | some context =>
      match findMatchingSignal strategyType context policy with
      | none => noAdjustment 0 "no_eligible_learning_signal" none
      | some signal =>
          if signal.direction ∉ ["positive", "negative"] then
            noAdjustment signal.confidence "learning_signal_not_directional" signal.signalId
          else
            match signal.averageRelativeChange with
            | none => noAdjustment signal.confidence "learning_signal_missing_average_change"
                signal.signalId
            | some change =>
                ⟨true, roundTo 6 (boundedAdjustment policy (rawAdjustment policy signal change)),
                  signal.confidence, "established_directional_learning_signal", signal.signalId⟩

/-! ## The strategy with its advice -/

variable (shown : Rat → String)

/-- An optional text as a JSON value. -/
def textOrNull : Option String → Json
  | none => .null
  | some text => .str text

/-- The adjusted priority. -/
def adjustedPriority (priority adjustment : Rat) : Rat := clampedScore (priority + adjustment)

/-- `apply_learning_to_strategy`. -/
def applyLearningToStrategy (strategy : Strategy) (context : Option LearningContext)
    (policy : LearningDecisionPolicy) : Strategy :=
  let adjustment := calculateLearningAdjustment strategy.strategyType context policy
  if !adjustment.applied then
    { strategy with
      evidence := strategy.evidence.set "learning" (.dict
        [("applied", .bool false), ("adjustment", .number 0),
          ("confidence", .number adjustment.confidence), ("reason", .str adjustment.reason),
          ("signal_id", textOrNull adjustment.signalId)]) }
  else
    { strategy with
      priorityScore := adjustedPriority strategy.priorityScore adjustment.adjustment
      reasons := strategy.reasons ++ [s!"learning_adjustment={shown adjustment.adjustment}"]
      evidence := strategy.evidence.set "learning" (.dict
        [("applied", .bool true), ("adjustment", .number adjustment.adjustment),
          ("confidence", .number adjustment.confidence), ("reason", .str adjustment.reason),
          ("signal_id", textOrNull adjustment.signalId),
          ("learning_context_id", textOrNull (context.map LearningContext.contextId)),
          ("rules_were_not_mutated", .bool true)]) }

/-! ## What advice leaves alone -/

/-- A strategy without what is learned: no priority, no reasons, and no evidence under
`learning`. -/
def withoutAdvice (strategy : Strategy) : Strategy :=
  { strategy with
    priorityScore := 0
    reasons := []
    evidence := strategy.evidence.filter fun entry => entry.1 ≠ "learning" }

theorem filter_set (evidence : Dict) (key : String) (value : Json) :
    (evidence.set key value).filter (fun entry => entry.1 ≠ key) =
      evidence.filter fun entry => entry.1 ≠ key := by
  induction evidence with
  | nil => simp [Dict.set]
  | cons entry evidence ih =>
      unfold Dict.set
      split
      · next h => simp [h]
      · simp only [List.filter_cons, ih]

/-- Advice changes the priority, the reasons and what is under `learning`. -/
theorem applyLearning_withoutAdvice (strategy : Strategy) (context : Option LearningContext)
    (policy : LearningDecisionPolicy) :
    withoutAdvice (applyLearningToStrategy shown strategy context policy) =
      withoutAdvice strategy := by
  unfold applyLearningToStrategy withoutAdvice
  dsimp only
  split
  · simp only [filter_set]
  · simp only [filter_set]

end SeoAgent.Learning
