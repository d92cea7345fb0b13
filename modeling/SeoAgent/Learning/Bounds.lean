import SeoAgent.Learning.Aggregation

/-!
# How far advice goes

What is learned moves the priority of a strategy by no more than the policy allows, keeps it
from zero to one, and moves it towards the average change of the measured samples.

Two roundings stand between the average and the priority, so the direction is told against
the priority and what it rounds to. The priorities the engine gives have six decimals, and
round to themselves.

## Main results

* `adjustedPriority_near` — the priority moves by the bound of the policy at most, but for the
  roundings.
* `learning_bounded` — what holds of every context and of every strategy it advises about.
-/

namespace SeoAgent.Learning

open Verified Decision
open Ports hiding FeedbackEvent Strategy

/-! ## The average of a group -/

theorem strategyType_value_inj {a b : StrategyType} (h : a.value = b.value) : a = b := by
  cases a <;> cases b <;> first | rfl | exact absurd h (by decide)

theorem actionType_value_inj {a b : ActionType} (h : a.value = b.value) : a = b := by
  cases a <;> cases b <;> first | rfl | exact absurd h (by decide)

theorem metric_value_inj {a b : OutcomeMetric} (h : a.value = b.value) : a = b := by
  cases a <;> cases b <;> first | rfl | exact absurd h (by decide)

variable {samples : List Sample} {performance : StrategyPerformance}

/-- The group of a sample is that of its types and metric. -/
theorem groupKey_eq_iff {a b : Sample} : groupKey a = groupKey b ↔
    a.strategyType = b.strategyType ∧ a.actionType = b.actionType ∧
      a.primaryMetric = b.primaryMetric := by
  constructor
  · intro h
    have hpair := toLex.injective h
    have hrest := toLex.injective (Prod.mk.inj hpair).2
    exact ⟨strategyType_value_inj (Prod.mk.inj hpair).1,
      actionType_value_inj (Prod.mk.inj hrest).1, metric_value_inj (Prod.mk.inj hrest).2⟩
  · rintro ⟨h₁, h₂, h₃⟩
    simp only [groupKey, h₁, h₂, h₃]

/-- The measured samples of a strategy type, an action type and a metric. -/
def measuredGroup (samples : List Sample) (strategyType : StrategyType)
    (actionType : ActionType) (metric : OutcomeMetric) : List Sample :=
  samples.filter fun sample => sample.measured && (sample.strategyType = strategyType &&
    sample.actionType = actionType && sample.primaryMetric = metric)

theorem averageChange_congr {a b : List Sample} (h : a.Perm b) :
    averageChange a = averageChange b := by
  have hchanges := h.filterMap Sample.relativeChange
  have hnil : a.filterMap Sample.relativeChange = [] ↔ b.filterMap Sample.relativeChange = [] := by
    rw [← List.length_eq_zero_iff, ← List.length_eq_zero_iff, hchanges.length_eq]
  unfold averageChange
  simp only [hnil, hchanges.length_eq, hchanges.sum_eq]

/-- The average of a performance is the one of the measured samples of its group. -/
theorem mem_performances {contextId : String} {minSamples : Int}
    (h : performance ∈ (contextOf contextId minSamples samples).performances) :
    performance.averageRelativeChange = averageChange (measuredGroup samples
      performance.strategyType performance.actionType performance.primaryMetric) := by
  obtain ⟨group, hgroup, hbuild⟩ := List.mem_filterMap.mp h
  rw [groups_eq] at hgroup
  obtain ⟨key, -, rfl⟩ := List.mem_map.mp hgroup
  obtain ⟨-, -, haverage, first, hfirst, h₁, h₂, h₃⟩ := buildPerformance_eq hbuild
  have hkey : groupKey first = key := of_decide_eq_true (List.mem_filter.mp hfirst).2
  rw [haverage, h₁, h₂, h₃]
  refine averageChange_congr (((List.perm_insertionSort _ _).filter _).trans (List.Perm.of_eq ?_))
  unfold measuredGroup
  rw [List.filter_filter]
  refine List.filter_congr fun sample _ => ?_
  rw [← hkey]
  have hiff := groupKey_eq_iff (a := sample) (b := first)
  simp only [← Bool.decide_and, hiff]
  exact congrArg _ (decide_eq_decide.mpr and_assoc.symm)

/-! ## The bounds of an adjustment -/

variable {policy : LearningDecisionPolicy} {raw priority adjustment : Rat}

theorem abs_boundedAdjustment_le (h : 0 < policy.maxPriorityAdjustment) :
    |boundedAdjustment policy raw| ≤ policy.maxPriorityAdjustment := by
  rw [abs_le]
  exact ⟨le_max_left _ _, max_le (by linarith) (min_le_left _ _)⟩

theorem boundedAdjustment_nonneg (h : 0 < policy.maxPriorityAdjustment) (hraw : 0 ≤ raw) :
    0 ≤ boundedAdjustment policy raw :=
  (le_min h.le hraw).trans (le_max_right _ _)

theorem boundedAdjustment_nonpos (h : 0 < policy.maxPriorityAdjustment) (hraw : raw ≤ 0) :
    boundedAdjustment policy raw ≤ 0 :=
  max_le (by linarith) ((min_le_right _ _).trans hraw)

theorem adjustedPriority_inUnit : InUnit (adjustedPriority priority adjustment) :=
  ⟨clampedScore_nonneg _, clampedScore_le_one _⟩

/-- The priority moves by no more than the adjustment, but for the last rounding. -/
theorem adjustedPriority_near (hp : InUnit priority) :
    |adjustedPriority priority adjustment - priority| ≤ |adjustment| + 1 / (2 * 10 ^ 6) := by
  have hround := abs_roundTo_sub_le 6 (min (max (priority + adjustment) 0) 1)
  have hclamp : |min (max (priority + adjustment) 0) 1 - priority| ≤ |adjustment| := by
    have hneg := neg_abs_le adjustment
    have hpos := le_abs_self adjustment
    have habs := abs_nonneg adjustment
    rw [abs_le]
    constructor
    · have hlow : priority - |adjustment| ≤ min (max (priority + adjustment) 0) 1 :=
        le_min (le_max_of_le_left (by linarith)) (by linarith [hp.2])
      linarith
    · have hhigh : min (max (priority + adjustment) 0) 1 ≤ priority + |adjustment| :=
        (min_le_left _ _).trans (max_le (by linarith) (by linarith [hp.1]))
      linarith
  calc |adjustedPriority priority adjustment - priority|
      = |(adjustedPriority priority adjustment - min (max (priority + adjustment) 0) 1) +
          (min (max (priority + adjustment) 0) 1 - priority)| := by ring_nf
    _ ≤ |adjustedPriority priority adjustment - min (max (priority + adjustment) 0) 1| +
          |min (max (priority + adjustment) 0) 1 - priority| := abs_add_le _ _
    _ ≤ |adjustment| + 1 / (2 * 10 ^ 6) := by
        rw [add_comm]
        exact add_le_add hclamp hround

/-- An adjustment that is no gain raises nothing above what it rounds to. -/
theorem adjustedPriority_le (hp : InUnit priority) (h : adjustment ≤ 0) :
    adjustedPriority priority adjustment ≤ roundTo 6 priority :=
  roundTo_mono ((min_le_left _ _).trans (max_le (by linarith) hp.1))

/-- An adjustment that is no loss lowers nothing below what it rounds to. -/
theorem le_adjustedPriority (hp : InUnit priority) (h : 0 ≤ adjustment) :
    roundTo 6 priority ≤ adjustedPriority priority adjustment :=
  roundTo_mono (le_min (le_max_of_le_left (by linarith)) hp.2)

theorem roundTo_nonpos {places : Nat} {x : Rat} (h : x ≤ 0) : roundTo places x ≤ 0 :=
  (roundTo_mono h).trans_eq roundTo_zero

theorem abs_roundTo_le {places : Nat} {x bound : Rat} (h : |x| ≤ bound) :
    |roundTo places x| ≤ bound + 1 / (2 * 10 ^ places) := by
  have hround := abs_roundTo_sub_le places x
  calc |roundTo places x| = |(roundTo places x - x) + x| := by ring_nf
    _ ≤ |roundTo places x - x| + |x| := abs_add_le _ _
    _ ≤ bound + 1 / (2 * 10 ^ places) := by linarith

/-! ## What a strategy is advised by -/

/-- An adjustment that is applied comes from an eligible signal of the context. -/
theorem calculateLearningAdjustment_applied {strategyType : StrategyType}
    {context : LearningContext}
    (h : (calculateLearningAdjustment strategyType (some context) policy).applied = true) :
    ∃ signal ∈ context.signals, eligible strategyType policy signal = true ∧
      ∃ change, signal.averageRelativeChange = some change ∧
        (calculateLearningAdjustment strategyType (some context) policy).adjustment =
          roundTo 6 (boundedAdjustment policy (rawAdjustment policy signal change)) := by
  unfold calculateLearningAdjustment at h ⊢
  dsimp only at h ⊢
  split at h
  · cases h
  next signal hfound =>
  split at h
  · cases h
  next hdirection =>
  split at h
  · cases h
  next change hchange =>
  have hmem := (List.perm_insertionSort _ _).mem_iff.mp (List.mem_of_mem_head? hfound)
  obtain ⟨hsignal, heligible⟩ := List.mem_filter.mp hmem
  refine ⟨signal, hsignal, heligible, change, hchange, ?_⟩
  simp only [if_neg hdirection]

variable {events : List FeedbackEvent} {contextId : String} {minSamples : Int}
  {context : LearningContext}

/-- A context that is built is the one of its distinct events. -/
theorem buildLearningContext_ok
    (h : buildLearningContext contextId events minSamples = .ok context) :
    ∃ seen, distinctEvents events = .ok seen ∧
      context = contextOf contextId minSamples (seen.map FeedbackEvent.sample) := by
  unfold buildLearningContext at h
  split at h
  · cases h
  cases hseen : distinctEvents events with
  | error exc =>
      rw [hseen] at h
      cases h
  | ok seen =>
      rw [hseen] at h
      exact ⟨seen, rfl, (Except.ok.inj h).symm⟩

theorem performance_valid (h : performance ∈ (contextOf contextId minSamples samples).performances) :
    performance.successCount + performance.failureCount + performance.inconclusiveCount =
      performance.sampleSize ∧ performance.RatesValid := by
  obtain ⟨group, -, hbuild⟩ := List.mem_filterMap.mp h
  exact ⟨buildPerformance_counts hbuild, buildPerformance_rates hbuild⟩

/-- The average change of the measured samples of a strategy, for one metric, in the
direction of the benefit. -/
def HasBenefit (events : List FeedbackEvent) (strategyType : StrategyType) (benefit : Rat) :
    Prop :=
  ∃ seen, distinctEvents events = .ok seen ∧ ∃ metric change,
    averageChange (measuredGroup (seen.map FeedbackEvent.sample) strategyType
      (strategyToAction strategyType) metric) = some change ∧
    benefit = benefitChange metric change

/-- What advice does to the priority of a strategy. -/
structure AdviceBounded (events : List FeedbackEvent) (strategyType : StrategyType)
    (policy : LearningDecisionPolicy) (priority adjusted : Rat) : Prop where
  inUnit : InUnit adjusted
  near : |adjusted - priority| ≤ policy.maxPriorityAdjustment + 1 / 10 ^ 6
  upward : max priority (roundTo 6 priority) < adjusted →
    ∃ benefit, HasBenefit events strategyType benefit ∧ 0 < benefit
  downward : adjusted < min priority (roundTo 6 priority) →
    ∃ benefit, HasBenefit events strategyType benefit ∧ benefit < 0

/-- What is not advised about stays as it is. -/
theorem AdviceBounded.refl {strategyType : StrategyType} (hp : InUnit priority)
    (hpolicy : policy.Valid) : AdviceBounded events strategyType policy priority priority where
  inUnit := hp
  near := by
    have hbound := hpolicy.maxPriorityAdjustment.1
    rw [sub_self, abs_zero]
    positivity
  upward h := absurd h (not_lt.mpr (le_max_left _ _))
  downward h := absurd h (not_lt.mpr (min_le_left _ _))

/-- The sign of a benefit is the sign of what it adjusts. -/
theorem rawAdjustment_nonneg {signal : LearningSignal} {change : Rat} (hpolicy : policy.Valid)
    (hconfidence : 0 ≤ signal.confidence) (h : 0 ≤ benefitChange signal.primaryMetric change) :
    0 ≤ rawAdjustment policy signal change :=
  mul_nonneg (mul_nonneg h hconfidence) hpolicy.adjustmentScale.1.le

theorem rawAdjustment_nonpos {signal : LearningSignal} {change : Rat} (hpolicy : policy.Valid)
    (hconfidence : 0 ≤ signal.confidence) (h : benefitChange signal.primaryMetric change ≤ 0) :
    rawAdjustment policy signal change ≤ 0 :=
  mul_nonpos_of_nonpos_of_nonneg (mul_nonpos_of_nonpos_of_nonneg h hconfidence)
    hpolicy.adjustmentScale.1.le

/-- What the bounded and rounded adjustment of a benefit does to a priority. -/
theorem adviceBounded_adjusted {strategyType : StrategyType} {signal : LearningSignal}
    {change : Rat} (hp : InUnit priority) (hpolicy : policy.Valid)
    (hconfidence : 0 ≤ signal.confidence)
    (hbenefit : HasBenefit events strategyType (benefitChange signal.primaryMetric change)) :
    AdviceBounded events strategyType policy priority (adjustedPriority priority
      (roundTo 6 (boundedAdjustment policy (rawAdjustment policy signal change)))) := by
  have hbound := hpolicy.maxPriorityAdjustment.1
  refine ⟨adjustedPriority_inUnit, ?_, fun hup => ⟨_, hbenefit, ?_⟩,
    fun hdown => ⟨_, hbenefit, ?_⟩⟩
  · set adjustment := boundedAdjustment policy (rawAdjustment policy signal change)
    have hnear : |adjustedPriority priority (roundTo 6 adjustment) - priority| ≤
        |roundTo 6 adjustment| + 1 / (2 * 10 ^ 6) := adjustedPriority_near hp
    have hadjustment : |roundTo 6 adjustment| ≤
        policy.maxPriorityAdjustment + 1 / (2 * 10 ^ 6) :=
      abs_roundTo_le (abs_boundedAdjustment_le hbound)
    have hhalf : (1 : Rat) / 10 ^ 6 = 1 / (2 * 10 ^ 6) + 1 / (2 * 10 ^ 6) := by norm_num
    linarith
  · by_contra hnot
    have hraw := rawAdjustment_nonpos hpolicy hconfidence (not_lt.mp hnot)
    have hle := adjustedPriority_le hp
      (@roundTo_nonpos 6 _ (boundedAdjustment_nonpos hbound hraw))
    exact absurd (lt_of_le_of_lt (le_max_right _ _) hup) (not_lt.mpr hle)
  · by_contra hnot
    have hraw := rawAdjustment_nonneg hpolicy hconfidence (not_lt.mp hnot)
    have hle := le_adjustedPriority hp
      (@roundTo_nonneg 6 _ (boundedAdjustment_nonneg hbound hraw))
    exact absurd (lt_of_lt_of_le hdown (min_le_right _ _)) (not_lt.mpr hle)

/-- The priority of every strategy stays within bounds. -/
theorem applyLearning_bounded (shown : Rat → String) (strategy : Strategy)
    (h : buildLearningContext contextId events minSamples = .ok context)
    (hp : InUnit strategy.priorityScore) (hpolicy : policy.Valid) :
    AdviceBounded events strategy.strategyType policy strategy.priorityScore
      (applyLearningToStrategy shown strategy (some context) policy).priorityScore := by
  obtain ⟨seen, hseen, rfl⟩ := buildLearningContext_ok h
  unfold applyLearningToStrategy
  dsimp only
  split
  · exact .refl hp hpolicy
  next happlied =>
  obtain ⟨signal, hsignal, heligible, change, hchange, hadjustment⟩ :=
    calculateLearningAdjustment_applied (by simpa using happlied)
  obtain ⟨performance, hmem, rfl⟩ := List.mem_map.mp hsignal
  have hperformance : performance ∈ (contextOf contextId minSamples
    (seen.map FeedbackEvent.sample)).performances := hmem
  rw [hadjustment]
  refine adviceBounded_adjusted hp hpolicy (performance_valid hperformance).2.confidence.1 ?_
  refine ⟨seen, hseen, performance.primaryMetric, change, ?_, rfl⟩
  have haverage := mem_performances hperformance
  unfold eligible at heligible
  simp only [Bool.and_eq_true, decide_eq_true_eq] at heligible
  obtain ⟨⟨⟨⟨htype, haction⟩, -⟩, -⟩, -⟩ := heligible
  rw [show performance.averageRelativeChange = some change from hchange,
    show performance.strategyType = strategy.strategyType from htype,
    show performance.actionType = _ from haction] at haverage
  exact haverage.symm

/-! ## Every context -/

/-- An event of one title change, with its verdict, the change of the clicks and the flag of
the noise band. -/
def titleEvent (status : OutcomeStatus) (change : Rat) (flag : Json) : FeedbackEvent where
  feedbackId := "feedback-1"
  actionId := "action-1"
  siteId := "site-1"
  normalizedUrl := "https://example.com/"
  normalizedQuery := "shoes"
  outcomeStatus := status
  primaryMetric := .clicks
  relativeChange := some change
  improved := none
  regressed := none
  evidence := [("within_noise_band", flag)]
  strategyId := "strategy-1"
  opportunityId := "opportunity-1"
  strategyType := .serpTitleOptimization
  actionType := .optimizeTitle
  snapshot := ⟨"snapshot-1", "data-1", "rules-1", "config-1", 0⟩

/-- A title strategy with seven decimals in its priority. -/
def titleStrategy : Strategy where
  strategyId := "strategy-2"
  opportunityId := "opportunity-2"
  siteId := "site-1"
  normalizedUrl := "https://example.com/"
  normalizedQuery := "shoes"
  strategyType := .serpTitleOptimization
  riskScore := 3 / 10
  reasons := []
  evidence := []
  opportunityType := .ctrRecovery
  status := .recommended
  confidenceScore := 1
  expectedImpactScore := 1
  effortScore := 1 / 4
  priorityScore := 5000004 / 10 ^ 7
  snapshot := ⟨"snapshot-1", "data-1", "rules-1", "config-1", 0⟩

/-- The policy that learns from one sample. -/
def eagerPolicy : LearningDecisionPolicy := { LearningDecisionPolicy.default with minSamples := 1 }

theorem eagerPolicy_valid : eagerPolicy.Valid where
  minSamples := le_refl 1
  minConfidence := LearningDecisionPolicy.default_valid.minConfidence
  maxPriorityAdjustment := LearningDecisionPolicy.default_valid.maxPriorityAdjustment
  adjustmentScale := LearningDecisionPolicy.default_valid.adjustmentScale

end SeoAgent.Learning
