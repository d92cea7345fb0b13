import SeoAgent.Decision.Stages
import SeoAgent.Ports.Outcomes
import SeoAgent.Verified.Merge

/-!
# The learning context

What the feedback events of past actions add up to. Repeated events count once, the others
are grouped by strategy type, action type and primary metric, and each group gives its
counts, rates and average change, and one signal.

Events are compared as the program compares them: numbers by value whatever their type, and
dictionaries whatever the order of their keys. The first of several equal events is kept.

## Main results

* `buildPerformance_counts` — the verdicts partition the sample.
* `buildPerformance_rates` — all rates and the confidence are from zero to one.
-/

namespace SeoAgent.Learning

open Verified Ports Decision

/-! ## Feedback events -/

/-- `FeedbackEvent`. -/
structure FeedbackEvent extends Ports.FeedbackEvent where
  strategyId : String
  opportunityId : String
  strategyType : StrategyType
  actionType : ActionType
  snapshot : SnapshotMetadata
  deriving DecidableEq

mutual

/-- One value for all that are equal to each other. -/
def canonical : Json → Json
  | .null => .null
  | .bool b => .number (if b then 1 else 0)
  | .int n => .number n
  | .number q => .number q
  | .str s => .str s
  | .list xs => .list (canonicalList xs)
  | .dict entries =>
      .dict ((canonicalEntries entries).insertionSort fun a b => a.1.toList ≤ b.1.toList)

def canonicalList : List Json → List Json
  | [] => []
  | x :: xs => canonical x :: canonicalList xs

def canonicalEntries : List (String × Json) → List (String × Json)
  | [] => []
  | (k, x) :: entries => (k, canonical x) :: canonicalEntries entries

end

/-- One event for all that are equal to each other. -/
def FeedbackEvent.canonical (event : FeedbackEvent) : FeedbackEvent :=
  { event with
    evidence := (canonicalEntries event.evidence).insertionSort fun a b =>
      a.1.toList ≤ b.1.toList }

/-- What the learning reads of an event. -/
structure Sample where
  feedbackId : String
  strategyType : StrategyType
  actionType : ActionType
  primaryMetric : OutcomeMetric
  outcomeStatus : OutcomeStatus
  relativeChange : Option Rat
  improved : Option Bool
  regressed : Option Bool
  /-- No verdict, for a change that was measured to be within the noise. -/
  withinNoiseBand : Bool
  deriving DecidableEq

/-- `_measured`: a verdict, or a change within the noise. -/
def Sample.measured (sample : Sample) : Bool :=
  sample.outcomeStatus ∈ [.success, .failure] || sample.withinNoiseBand

/-- The sample of an event. -/
def FeedbackEvent.sample (event : FeedbackEvent) : Sample where
  feedbackId := event.feedbackId
  strategyType := event.strategyType
  actionType := event.actionType
  primaryMetric := event.primaryMetric
  outcomeStatus := event.outcomeStatus
  relativeChange := event.relativeChange
  improved := event.improved
  regressed := event.regressed
  withinNoiseBand := event.outcomeStatus = .inconclusive &&
    event.evidence.get? "within_noise_band" = some (.bool true)

/-- The events seen so far with one more; an equal one is dropped, a conflicting one
refused. -/
def addEvent (seen : List FeedbackEvent) (event : FeedbackEvent) :
    Except Exc (List FeedbackEvent) :=
  match seen.find? fun other => other.feedbackId = event.feedbackId with
  | some other =>
      if other.canonical = event.canonical then .ok seen
      else .error (.valueError "Conflicting duplicate feedback_id.")
  | none => .ok (seen ++ [event])

/-- The events with each feedback id once. -/
def distinctEvents (events : List FeedbackEvent) : Except Exc (List FeedbackEvent) :=
  events.foldlM addEvent []

/-! ## The performance of a group -/

/-- `LearningMaturity`. -/
inductive LearningMaturity
  | exploration
  | established
  deriving DecidableEq, Repr

/-- `StrategyPerformance`. -/
structure StrategyPerformance where
  strategyType : StrategyType
  actionType : ActionType
  primaryMetric : OutcomeMetric
  sampleSize : Nat
  usableSampleSize : Nat
  successCount : Nat
  failureCount : Nat
  inconclusiveCount : Nat
  successRate : Option Rat
  averageRelativeChange : Option Rat
  improvementRate : Option Rat
  regressionRate : Option Rat
  maturity : LearningMaturity
  confidence : Rat
  feedbackIds : List String
  deriving DecidableEq

/-- `_group_key`. -/
def groupKey (sample : Sample) : String ×ₗ String ×ₗ String :=
  toLex (sample.strategyType.value, toLex (sample.actionType.value, sample.primaryMetric.value))

/-- In the order of the feedback ids. -/
def byFeedbackId (samples : List Sample) : List Sample :=
  samples.insertionSort fun a b => a.feedbackId ≤ b.feedbackId

/-- The measured samples. -/
def measuredOf (samples : List Sample) : List Sample := samples.filter Sample.measured

/-- How many samples have a verdict. -/
def countOf (status : OutcomeStatus) (samples : List Sample) : Nat :=
  (samples.filter fun sample => sample.outcomeStatus = status).length

/-- A part of the usable samples; nothing of none. -/
def rateOf (part usable : Nat) : Option Rat :=
  if usable = 0 then none else some ((part : Rat) / usable)

/-- The average of the changes that are known; nothing of none. -/
def averageChange (samples : List Sample) : Option Rat :=
  let changes := samples.filterMap Sample.relativeChange
  if changes = [] then none else some (changes.sum / changes.length)

/-- `_build_performance`, of the group of `first`. -/
def buildPerformance (minSamples : Nat) (samples : List Sample) : Option StrategyPerformance :=
  let ordered := byFeedbackId samples
  let measured := measuredOf ordered
  let usable := measured.length
  ordered.head?.map fun first =>
    { strategyType := first.strategyType
      actionType := first.actionType
      primaryMetric := first.primaryMetric
      sampleSize := ordered.length
      usableSampleSize := usable
      successCount := countOf .success ordered
      failureCount := countOf .failure ordered
      inconclusiveCount := countOf .inconclusive ordered
      successRate := rateOf (countOf .success ordered) usable
      averageRelativeChange := averageChange measured
      improvementRate := rateOf (measured.filter fun s => s.improved = some true).length usable
      regressionRate := rateOf (measured.filter fun s => s.regressed = some true).length usable
      maturity := if minSamples ≤ usable then .established else .exploration
      confidence := min 1 ((usable : Rat) / minSamples) * ((usable : Rat) / ordered.length)
      feedbackIds := ordered.map Sample.feedbackId }

/-! ## The signal of a group -/

/-- `benefit_change`: a smaller position is a better one. -/
def benefitChange (metric : OutcomeMetric) (change : Rat) : Rat :=
  if metric = .position then -change else change

/-- `LearningSignal`. -/
structure LearningSignal where
  signalId : String
  strategyType : StrategyType
  actionType : ActionType
  primaryMetric : OutcomeMetric
  maturity : LearningMaturity
  confidence : Rat
  sampleSize : Nat
  successRate : Option Rat
  averageRelativeChange : Option Rat
  direction : String
  evidence : Dict
  deriving DecidableEq

/-- Which way a group points. -/
def directionOf (performance : StrategyPerformance) : String :=
  let benefit := performance.averageRelativeChange.map (benefitChange performance.primaryMetric)
  if performance.maturity = .exploration then "insufficient_sample"
  else if benefit.any (0 < ·) then "positive"
  else if benefit.any (· < 0) then "negative"
  else "neutral"

/-- The id of the signal of a group. -/
def signalIdOf (performance : StrategyPerformance) : String :=
  s!"learning:{performance.strategyType.value}:{performance.actionType.value}:" ++
    performance.primaryMetric.value

/-- `_build_signal`. -/
def buildSignal (performance : StrategyPerformance) : LearningSignal where
  signalId := signalIdOf performance
  strategyType := performance.strategyType
  actionType := performance.actionType
  primaryMetric := performance.primaryMetric
  maturity := performance.maturity
  confidence := performance.confidence
  sampleSize := performance.sampleSize
  successRate := performance.successRate
  averageRelativeChange := performance.averageRelativeChange
  direction := directionOf performance
  evidence :=
    [("learning_only", .bool true), ("does_not_mutate_rules", .bool true),
      ("feedback_ids", .list (performance.feedbackIds.map .str))]

/-! ## The context -/

/-- `LearningContext`. -/
structure LearningContext where
  contextId : String
  minSamplesForLearning : Int
  performances : List StrategyPerformance
  signals : List LearningSignal
  evidence : Dict
  deriving DecidableEq

/-- The samples of each group, in the order of the group keys. -/
def groups (samples : List Sample) : List (List Sample) :=
  (groupsOf (samples.map fun sample => (groupKey sample, sample))).map Prod.snd

/-- The context of the samples of distinct events. -/
def contextOf (contextId : String) (minSamples : Int) (samples : List Sample) :
    LearningContext :=
  let performances := (groups samples).filterMap (buildPerformance minSamples.toNat)
  { contextId
    minSamplesForLearning := minSamples
    performances
    signals := performances.map buildSignal
    evidence :=
      [("feedback_count", .int samples.length), ("learning_is_advisory_only", .bool true),
        ("rules_were_not_mutated", .bool true)] }

/-- `build_learning_context`. -/
def buildLearningContext (contextId : String) (events : List FeedbackEvent) (minSamples : Int) :
    Except Exc LearningContext :=
  if minSamples < 1 then .error (.valueError "min_samples_for_learning must be >= 1.")
  else (distinctEvents events).map fun seen =>
    contextOf contextId minSamples (seen.map FeedbackEvent.sample)

/-! ## Counts and rates -/

variable {samples : List Sample} {minSamples : Nat} {performance : StrategyPerformance}

/-- The verdicts partition any samples. -/
theorem countOf_add (samples : List Sample) :
    countOf .success samples + countOf .failure samples + countOf .inconclusive samples =
      samples.length := by
  unfold countOf
  induction samples with
  | nil => rfl
  | cons sample samples ih =>
      cases h : sample.outcomeStatus with
      | success => simp only [List.filter_cons, h]; simp; omega
      | failure => simp only [List.filter_cons, h]; simp; omega
      | inconclusive => simp only [List.filter_cons, h]; simp; omega

theorem length_byFeedbackId (samples : List Sample) :
    (byFeedbackId samples).length = samples.length :=
  (List.perm_insertionSort _ _).length_eq

/-- What the performance of a group is. -/
theorem buildPerformance_eq (h : buildPerformance minSamples samples = some performance) :
    performance.sampleSize = samples.length ∧
      performance.usableSampleSize = (measuredOf (byFeedbackId samples)).length ∧
      performance.averageRelativeChange = averageChange (measuredOf (byFeedbackId samples)) ∧
      ∃ first ∈ samples, performance.strategyType = first.strategyType ∧
        performance.actionType = first.actionType ∧
        performance.primaryMetric = first.primaryMetric := by
  obtain ⟨first, hfirst, rfl⟩ := Option.map_eq_some_iff.mp h
  have hmem : first ∈ byFeedbackId samples := List.mem_of_mem_head? hfirst
  exact ⟨length_byFeedbackId samples, rfl, rfl, first,
    (List.perm_insertionSort _ _).mem_iff.mp hmem, rfl, rfl, rfl⟩

/-- The verdicts partition the sample. -/
theorem buildPerformance_counts (h : buildPerformance minSamples samples = some performance) :
    performance.successCount + performance.failureCount + performance.inconclusiveCount =
      performance.sampleSize := by
  obtain ⟨first, -, rfl⟩ := Option.map_eq_some_iff.mp h
  exact countOf_add _

theorem rateOf_bounds {part usable : Nat} (hle : part ≤ usable) :
    ∀ rate ∈ rateOf part usable, 0 ≤ rate ∧ rate ≤ 1 := by
  intro rate hrate
  unfold rateOf at hrate
  split at hrate
  · cases hrate
  · obtain rfl := Option.some.inj hrate
    exact ⟨div_nonneg (Nat.cast_nonneg _) (Nat.cast_nonneg _),
      div_le_one_of_le₀ (by exact_mod_cast hle) (Nat.cast_nonneg _)⟩

theorem measured_of_success {sample : Sample} (h : sample.outcomeStatus = .success) :
    sample.measured = true := by
  simp [Sample.measured, h]

/-- Every success is measured. -/
theorem countOf_success_le (samples : List Sample) :
    countOf .success samples ≤ (measuredOf samples).length := by
  have hsub : (samples.filter fun sample => sample.outcomeStatus = .success).Sublist
      (samples.filter Sample.measured) :=
    List.monotone_filter_right samples fun _ h =>
      measured_of_success (of_decide_eq_true h)
  exact hsub.length_le

/-- The confidence of a group. -/
theorem confidence_bounds {usable size : Nat} (hle : usable ≤ size) :
    0 ≤ min 1 ((usable : Rat) / minSamples) * ((usable : Rat) / size) ∧
      min 1 ((usable : Rat) / minSamples) * ((usable : Rat) / size) ≤ 1 := by
  have hmin : 0 ≤ min 1 ((usable : Rat) / minSamples) :=
    le_min zero_le_one (div_nonneg (Nat.cast_nonneg _) (Nat.cast_nonneg _))
  have hpart : 0 ≤ (usable : Rat) / size := div_nonneg (Nat.cast_nonneg _) (Nat.cast_nonneg _)
  have hone : (usable : Rat) / size ≤ 1 :=
    div_le_one_of_le₀ (by exact_mod_cast hle) (Nat.cast_nonneg _)
  exact ⟨mul_nonneg hmin hpart, mul_le_one₀ (min_le_left _ _) hpart hone⟩

/-- A number from zero to one. -/
def InUnit (x : Rat) : Prop := 0 ≤ x ∧ x ≤ 1

/-- All rates of a performance and its confidence are from zero to one. -/
structure StrategyPerformance.RatesValid (performance : StrategyPerformance) : Prop where
  success : ∀ rate ∈ performance.successRate, InUnit rate
  improvement : ∀ rate ∈ performance.improvementRate, InUnit rate
  regression : ∀ rate ∈ performance.regressionRate, InUnit rate
  confidence : InUnit performance.confidence

/-- All rates and the confidence are from zero to one. -/
theorem buildPerformance_rates (h : buildPerformance minSamples samples = some performance) :
    performance.RatesValid := by
  obtain ⟨first, -, rfl⟩ := Option.map_eq_some_iff.mp h
  refine ⟨?_, ?_, ?_, ?_⟩
  · exact rateOf_bounds (countOf_success_le _)
  · exact rateOf_bounds (List.length_filter_le _ _)
  · exact rateOf_bounds (List.length_filter_le _ _)
  · exact confidence_bounds (List.length_filter_le _ _)

end SeoAgent.Learning
