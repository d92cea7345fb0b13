import SeoAgent.Features.Extraction

/-!
# Declines of the position

A window in which no position is known has the median zero, and zero is better than every
position there is. So evidence without a baseline position looks like a decline as soon as
the current positions are far enough from zero.

## Main results

* `detected_decline_iff` — when the engine sees a decline.
* `declines_known_iff` — when every decline it sees is one between known positions.
-/

namespace SeoAgent.Features

open Verified Ports

variable {evidence : DecisionEvidence} {observations : List DailyObservation}

/-- Whether some usable day has a known position. -/
def PositionKnown (observations : List DailyObservation) : Prop :=
  ∃ o ∈ observations, o.dataStatus.usable = true ∧ o.avgPosition.isSome = true

instance : Decidable (PositionKnown observations) := by
  unfold PositionKnown
  infer_instance

/-- Whether the evidence has features that pass the quality gate. -/
def ReachesDetectors (evidence : DecisionEvidence) : Prop :=
  ∃ features, extractFeatureSet evidence = .ok features ∧
    passesDataQualityGate features.dataQuality = true

/-- The engine sees a decline of the position. -/
def DeclineDetected (evidence : DecisionEvidence) : Prop :=
  ∃ signals, engineSignals evidence = .ok signals ∧
    ∃ signal ∈ signals, signal.signalType = .positionDecline ∧ signal.detected = true

/-- A decline is only seen from one known position to another, by the threshold. -/
def DeclinesKnown (evidence : DecisionEvidence) : Prop :=
  DeclineDetected evidence →
    PositionKnown evidence.baselineObservations ∧ PositionKnown evidence.currentObservations ∧
      median (validPositions evidence.baselineObservations) + minPositionDrop ≤
        median (validPositions evidence.currentObservations)

theorem validPositions_ne_nil_iff :
    validPositions observations ≠ [] ↔ PositionKnown observations := by
  constructor
  · intro hne
    obtain ⟨p, hp⟩ := List.exists_mem_of_ne_nil _ hne
    obtain ⟨o, ho, hu, hop⟩ := mem_validPositions.mp hp
    exact ⟨o, ho, hu, by rw [hop]; rfl⟩
  · rintro ⟨o, ho, hu, hsome⟩
    obtain ⟨p, hp⟩ := Option.isSome_iff_exists.mp hsome
    exact List.ne_nil_of_mem (mem_validPositions.mpr ⟨o, ho, hu, hp⟩)

/-- A window without a known position has the median zero. -/
theorem median_of_unknown (h : ¬PositionKnown observations) :
    median (validPositions observations) = 0 := by
  have hnil : validPositions observations = [] := by
    by_contra hne
    exact h (validPositions_ne_nil_iff.mp hne)
  rw [hnil, median_nil]

theorem medians_of_features {features : FeatureSet}
    (h : extractFeatureSet evidence = .ok features) :
    features.baselineMedian = median (validPositions evidence.baselineObservations) ∧
      features.currentMedian = median (validPositions evidence.currentObservations) := by
  unfold extractFeatureSet at h
  split at h
  · cases h
  · obtain rfl := Except.ok.inj h
    exact ⟨rfl, rfl⟩

/-- The risks that are added to the detectors' signals are no declines. -/
theorem type_of_risk {signals : List Signal} {signal : Signal}
    (h : signal ∈ detectSignalRisks signals) : signal.signalType ≠ .positionDecline := by
  have under : ∀ {original risk : SignalType}, signal ∈ underVolatility signals original risk →
      signal.signalType = risk := by
    intro original risk hmem
    unfold underVolatility at hmem
    split at hmem
    · rw [List.mem_singleton.mp hmem]
    · cases hmem
  unfold detectSignalRisks at h
  split at h
  · rcases List.mem_append.mp h with h | h
    · rw [under h]
      exact SignalType.noConfusion
    · rw [under h]
      exact SignalType.noConfusion
  · cases h

/-- The only decline among the signals is the detector's. -/
theorem decline_mem_iff {features : FeatureSet} :
    (∃ signal ∈ detectAllSignals features,
      signal.signalType = .positionDecline ∧ signal.detected = true) ↔
      (detectPositionDecline features).detected = true := by
  constructor
  · rintro ⟨signal, hmem, htype, hdetected⟩
    rcases List.mem_append.mp hmem with hmem | hmem
    · unfold detectors at hmem
      simp only [List.mem_cons, List.not_mem_nil, or_false] at hmem
      rcases hmem with rfl | rfl | rfl | rfl
      · simp [detectCtrDrop] at htype
      · exact hdetected
      · simp [detectHighValueOpportunity] at htype
      · simp [detectPositionVolatility] at htype
    · exact absurd htype (type_of_risk hmem)
  · intro hdetected
    refine ⟨detectPositionDecline features, ?_, signalWhen_type, hdetected⟩
    exact List.mem_append_left _ (List.mem_cons_of_mem _ List.mem_cons_self)

/-- The engine sees a decline when the evidence gets as far as the detectors and the two
medians, known or not, are the threshold apart. -/
theorem detected_decline_iff : DeclineDetected evidence ↔
    ReachesDetectors evidence ∧
      median (validPositions evidence.baselineObservations) + minPositionDrop ≤
        median (validPositions evidence.currentObservations) := by
  have drop : ∀ {features}, extractFeatureSet evidence = .ok features →
      (minPositionDrop ≤ features.positionDelta ↔
        median (validPositions evidence.baselineObservations) + minPositionDrop ≤
          median (validPositions evidence.currentObservations)) := by
    intro features hfeatures
    obtain ⟨hbase, hcurrent⟩ := medians_of_features hfeatures
    unfold FeatureSet.positionDelta
    rw [hbase, hcurrent, le_sub_iff_add_le']
  constructor
  · rintro ⟨signals, hsignals, hdecline⟩
    unfold engineSignals at hsignals
    split at hsignals
    · cases hsignals
    · next features hfeatures =>
        obtain rfl := Except.ok.inj hsignals
        by_cases hgate : passesDataQualityGate features.dataQuality = true
        · rw [if_pos hgate, decline_mem_iff] at hdecline
          refine ⟨⟨features, hfeatures, hgate⟩, (drop hfeatures).mp ?_⟩
          unfold detectPositionDecline at hdecline
          exact of_decide_eq_true (Bool.and_eq_true_iff.mp (signalWhen_detected ▸ hdecline)).2
        · rw [if_neg hgate] at hdecline
          simp at hdecline
  · rintro ⟨⟨features, hfeatures, hgate⟩, hmedians⟩
    refine ⟨detectAllSignals features, ?_, decline_mem_iff.mpr ?_⟩
    · unfold engineSignals
      simp only [hfeatures, if_pos hgate]
    · unfold detectPositionDecline
      rw [signalWhen_detected, passes_windows hgate, Bool.true_and]
      exact decide_eq_true ((drop hfeatures).mpr hmedians)

/-- Every decline the engine sees is one between known positions just when the baseline has
one, or the evidence does not get as far as the detectors, or the current positions are
within the threshold of zero. -/
theorem declines_known_iff (evidence : DecisionEvidence) : DeclinesKnown evidence ↔
    PositionKnown evidence.baselineObservations ∨ ¬ReachesDetectors evidence ∨
      median (validPositions evidence.currentObservations) < minPositionDrop := by
  constructor
  · intro hknown
    by_cases hbase : PositionKnown evidence.baselineObservations
    · exact .inl hbase
    by_cases hreaches : ReachesDetectors evidence
    · refine .inr (.inr (not_le.mp fun hle => hbase (hknown ?_).1))
      refine detected_decline_iff.mpr ⟨hreaches, ?_⟩
      rw [median_of_unknown hbase, zero_add]
      exact hle
    · exact .inr (.inl hreaches)
  · intro hcondition hdetected
    obtain ⟨hreaches, hmedians⟩ := detected_decline_iff.mp hdetected
    have hnonneg : 0 ≤ median (validPositions evidence.baselineObservations) :=
      calculateMedianPosition_nonneg
    have hdrop : minPositionDrop ≤ median (validPositions evidence.currentObservations) :=
      le_trans (le_add_of_nonneg_left hnonneg) hmedians
    have hbase : PositionKnown evidence.baselineObservations := by
      rcases hcondition with hbase | hnot | hlt
      · exact hbase
      · exact absurd hreaches hnot
      · exact absurd hdrop (not_le.mpr hlt)
    refine ⟨hbase, ?_, hmedians⟩
    by_contra hcurrent
    rw [median_of_unknown hcurrent] at hdrop
    exact absurd hdrop (by decide +kernel)

theorem seenTexts : TextsValid "s" "https://s/a" "q" :=
  ⟨by decide +kernel, by decide +kernel, by decide +kernel⟩

theorem eight_nonneg : (0 : Rat) ≤ 8 := by decide +kernel

theorem noClicks_le : (0 : Nat) ≤ 0 := Nat.le_refl 0

theorem noPosition_nonneg : ∀ p, (none : Option Rat) = some p → 0 ≤ p := nofun

theorem noClicks_le_ten : (0 : Nat) ≤ 10 := Nat.zero_le 10

/-- One day of a page that was seen ten times and never clicked. -/
def seenAt (date : Int) (position : Rat) (h : 0 ≤ position) : DailyObservation :=
  { siteId := "s", normalizedUrl := "https://s/a", normalizedQuery := "q", date
    impressions := 10, clicks := 0, avgPosition := some position, dataStatus := .observed
    texts := seenTexts
    clicks_le := noClicks_le_ten
    position_nonneg := by
      intro p hp
      rw [← Option.some.inj hp]
      exact h }

/-- A baseline day without impressions, and a current day at position eight. -/
def newlySeen : DecisionEvidence :=
  { baselineObservations :=
      [{ siteId := "s", normalizedUrl := "https://s/a", normalizedQuery := "q", date := 1
         impressions := 0, clicks := 0, avgPosition := none
         dataStatus := .missingExpectedZero
         texts := seenTexts
         clicks_le := noClicks_le
         position_nonneg := noPosition_nonneg }]
    currentObservations := [seenAt 2 8 eight_nonneg]
    currentUrlMetrics := [⟨10, 0, .observed, noClicks_le_ten⟩]
    baselineDailyStatus := [(1, .missingExpectedZero)]
    currentDailyStatus := [(2, .observed)]
    impressionStatus := .matched
    clickStatus := .matched }

/-- A query that comes up for the first time, at position eight, is taken for a decline. -/
theorem newlySeen_declines : ¬DeclinesKnown newlySeen := by
  intro hknown
  have hdetected : DeclineDetected newlySeen := by
    refine detected_decline_iff.mpr ⟨⟨_, rfl, by decide +kernel⟩, by decide +kernel⟩
  have hbase : ¬PositionKnown newlySeen.baselineObservations := by decide +kernel
  exact hbase (hknown hdetected).1

end SeoAgent.Features
