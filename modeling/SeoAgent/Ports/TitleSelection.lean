import SeoAgent.Ports.TitleWorkflow
import SeoAgent.Verified.Best

/-!
# Which title is proposed

The model's candidates are checked, the most confident of those that passed is
selected, and its id is what the proposal is made from: the title is that of the
first candidate with the id. Ids are the model's own and may repeat.

## Main results

* `generateTitleReasoning_best` — the selected id is that of the best candidate.
* `proposed_title_best` — when the title of a completed proposal is the best one's.
-/

namespace SeoAgent.Ports

open Verified

variable {maps : CaseMaps} {input : TitleReasoningInput} {raw : List TitleCandidate}

/-- Whether a candidate passed validation. -/
def TitleCandidate.passes (maps : CaseMaps) (input : TitleReasoningInput)
    (candidate : TitleCandidate) : Bool :=
  validateTitleCandidate maps candidate input = []

/-- The candidates that passed, in the model's order. -/
def passed (maps : CaseMaps) (input : TitleReasoningInput) (raw : List TitleCandidate) :
    List TitleCandidate :=
  raw.filter (TitleCandidate.passes maps input)

/-- A candidate of the model's that passed, more confident than those that passed
before it and no less than those that passed after it. -/
def BestCandidate (maps : CaseMaps) (input : TitleReasoningInput)
    (raw : List TitleCandidate) (c : TitleCandidate) : Prop :=
  ∃ before after, raw = before ++ c :: after ∧ c.passes maps input = true ∧
    (∀ d ∈ before, d.passes maps input = true → d.confidenceScore < c.confidenceScore) ∧
    ∀ d ∈ after, d.passes maps input = true → d.confidenceScore ≤ c.confidenceScore

/-- The first of the candidates that passed with the id of the best one has its
title. -/
def TitledLikeBest (maps : CaseMaps) (input : TitleReasoningInput)
    (raw : List TitleCandidate) : Prop :=
  ∀ c d, BestCandidate maps input raw c →
    (passed maps input raw).find? (fun e => c.candidateId = e.candidateId) = some d →
    d.title = c.title

theorem bestCandidate_iff {c : TitleCandidate} : BestCandidate maps input raw c ↔
    EarliestBest TitleCandidate.confidenceScore (passed maps input raw) c :=
  earliestBest_filter.symm

variable (maps input raw) in
/-- What is selected is the id of the best of the candidates that passed. -/
theorem generateTitleReasoning_best :
    (passed maps input raw = [] ∧ (generateTitleReasoning maps input raw).candidates = []) ∨
      ∃ c, BestCandidate maps input raw c ∧
        (generateTitleReasoning maps input raw).candidates = passed maps input raw ∧
        (generateTitleReasoning maps input raw).selectedCandidateId = some c.candidateId := by
  unfold generateTitleReasoning
  split
  · next hnil => exact .inl ⟨hnil, rfl⟩
  · next candidate others hpassed =>
      refine .inr ⟨mostConfident candidate others, bestCandidate_iff.mpr ?_, ?_, rfl⟩
      · show EarliestBest _ (passed maps input raw) _
        rw [show passed maps input raw = candidate :: others from hpassed]
        exact earliestBest_best TitleCandidate.confidenceScore candidate others
      · exact hpassed.symm

section Proposal
variable {runId tenantId : String} {strategy : Strategy} {provider : Option String}
  {recommendation : TitleRecommendation} {investigation : SerpInvestigation}
  {decision : SerpDecision} {proposal : TitleProposal}

/-- The title of a completed proposal is that of the first candidate with the best
one's id. -/
theorem selectedTitle_eq
    (h : proposalOf runId tenantId strategy recommendation investigation decision
      (orchestrated maps input ⟨provider, .ok raw⟩) = .ok proposal)
    (hcompleted : proposal.status = .completed) :
    ∃ c d, BestCandidate maps input raw c ∧
      (passed maps input raw).find? (fun e => c.candidateId = e.candidateId) = some d ∧
      proposal.selectedTitle = some d.title := by
  have new_status : ∀ {status reasoning title providerId reasons},
      TitleProposal.new runId tenantId strategy status recommendation investigation decision
        reasoning title providerId reasons = .ok proposal →
      proposal.status = status ∧ proposal.selectedTitle = title := by
    intro status reasoning title providerId reasons hnew
    unfold TitleProposal.new at hnew
    split at hnew
    · obtain rfl := Except.ok.inj hnew
      exact ⟨rfl, rfl⟩
    · cases hnew
  unfold proposalOf at h
  split at h
  · have hstatus := (new_status h).1
    rw [hcompleted] at hstatus
    cases hstatus
  · next hne =>
      rcases generateTitleReasoning_best maps input raw with
        ⟨-, hnil⟩ | ⟨c, hbest, hcandidates, hselected⟩
      · exact absurd hnil hne
      split at h
      · cases h
      · next d hfound =>
          refine ⟨c, d, hbest, ?_, (new_status h).2⟩
          have hfind : (generateTitleReasoning maps input raw).candidates.find? (fun e =>
              (generateTitleReasoning maps input raw).selectedCandidateId =
                some e.candidateId) = some d := hfound
          rw [hcandidates, hselected] at hfind
          simpa using hfind

/-- The title of a completed proposal is that of the candidate that passed with the
highest confidence, the earliest of several, just when the first candidate with its id
has its title. -/
theorem proposed_title_best
    (h : proposalOf runId tenantId strategy recommendation investigation decision
      (orchestrated maps input ⟨provider, .ok raw⟩) = .ok proposal)
    (hcompleted : proposal.status = .completed) :
    (∃ c, BestCandidate maps input raw c ∧ proposal.selectedTitle = some c.title) ↔
      TitledLikeBest maps input raw := by
  obtain ⟨c, d, hbest, hfound, htitle⟩ := selectedTitle_eq h hcompleted
  have only : ∀ {c'}, BestCandidate maps input raw c' → c' = c := fun hc' =>
    (bestCandidate_iff.mp hc').unique (bestCandidate_iff.mp hbest)
  constructor
  · rintro ⟨c', hc', hc'title⟩ c₁ d₁ hc₁ hd₁
    rw [only hc₁] at hd₁ ⊢
    obtain rfl := Option.some.inj (hfound.symm.trans hd₁)
    rw [only hc'] at hc'title
    exact Option.some.inj (htitle.symm.trans hc'title)
  · intro hlike
    exact ⟨c, hbest, htitle.trans (congrArg some (hlike c d hbest hfound))⟩

end Proposal

/-- Upper and lower case of the Latin letters. -/
def latinMaps : CaseMaps :=
  ⟨fun s => String.ofList (s.toList.map Char.toLower),
    fun s => String.ofList (s.toList.map Char.toLower)⟩

/-- A page about shoes without a title of its own and without competitors. -/
def shoesInput : TitleReasoningInput :=
  { siteId := "s", normalizedUrl := "https://s/shoes", primaryQuery := "shoes"
    currentTitle := none, targetPosition := none, competitorTitles := [] }

/-- The proposal made for it from the model's candidates. -/
def shoesProposal (raw : List TitleCandidate) : Except Exc TitleProposal :=
  proposalOf "r" "t" ⟨"y", "o", "s", "https://s/shoes", "shoes", .serpTitleOptimization, 0,
      [], []⟩
    ⟨"r", "shoes", true, none, 1, []⟩
    ⟨"i", "s", "https://s/shoes", .completed, ["shoes"], [], none, true⟩
    ⟨"d", .pass, 1, []⟩ (orchestrated latinMaps shoesInput ⟨some "p", .ok raw⟩)

theorem proposed_title_best_distinct :
    ∃ proposal, shoesProposal [⟨"a", "Shoes", 6 / 10⟩, ⟨"b", "Red shoes", 9 / 10⟩] =
        .ok proposal ∧
      ((∃ c, BestCandidate latinMaps shoesInput
          [⟨"a", "Shoes", 6 / 10⟩, ⟨"b", "Red shoes", 9 / 10⟩] c ∧
        proposal.selectedTitle = some c.title) ↔
        TitledLikeBest latinMaps shoesInput
          [⟨"a", "Shoes", 6 / 10⟩, ⟨"b", "Red shoes", 9 / 10⟩]) := by
  have h : (shoesProposal [⟨"a", "Shoes", 6 / 10⟩, ⟨"b", "Red shoes", 9 / 10⟩]).toOption.map
      TitleProposal.status = some .completed := by decide +kernel
  cases hproposal : shoesProposal [⟨"a", "Shoes", 6 / 10⟩, ⟨"b", "Red shoes", 9 / 10⟩] with
  | error e => rw [hproposal] at h; cases h
  | ok proposal =>
      rw [hproposal] at h
      exact ⟨proposal, rfl, proposed_title_best hproposal (Option.some.inj h)⟩

/-- Two candidates with one id: the less confident one comes first, and is proposed. -/
theorem repeated_id_titled :
    ∃ proposal, shoesProposal [⟨"a", "Shoes", 6 / 10⟩, ⟨"a", "Red shoes", 9 / 10⟩] =
        .ok proposal ∧ proposal.status = .completed ∧
      ¬∃ c, BestCandidate latinMaps shoesInput
          [⟨"a", "Shoes", 6 / 10⟩, ⟨"a", "Red shoes", 9 / 10⟩] c ∧
        proposal.selectedTitle = some c.title := by
  have h : (shoesProposal [⟨"a", "Shoes", 6 / 10⟩, ⟨"a", "Red shoes", 9 / 10⟩]).toOption.map
      (fun proposal => (proposal.status, proposal.selectedTitle)) =
        some (.completed, some "Shoes") := by decide +kernel
  have hbest : BestCandidate latinMaps shoesInput
      [⟨"a", "Shoes", 6 / 10⟩, ⟨"a", "Red shoes", 9 / 10⟩] ⟨"a", "Red shoes", 9 / 10⟩ :=
    ⟨[⟨"a", "Shoes", 6 / 10⟩], [], rfl, by decide +kernel, by decide +kernel, by simp⟩
  cases hproposal : shoesProposal [⟨"a", "Shoes", 6 / 10⟩, ⟨"a", "Red shoes", 9 / 10⟩] with
  | error e => rw [hproposal] at h; cases h
  | ok proposal =>
      rw [hproposal] at h
      obtain ⟨hstatus, htitle⟩ := Prod.mk.inj (Option.some.inj h)
      refine ⟨proposal, rfl, hstatus, ?_⟩
      rintro ⟨c, hc, hctitle⟩
      have hce := (bestCandidate_iff.mp hc).unique (bestCandidate_iff.mp hbest)
      rw [htitle, hce] at hctitle
      exact absurd hctitle (by decide)

end SeoAgent.Ports
