import SeoAgent.Ports.DecisionEngine

/-!
# Title proposals

What a title proposal is made of: the comparison with the search results, the
decision whether that is evidence enough, the recommendation, and the model's
candidates with the checks each has to pass. The statistics of title lengths
and the evidence dictionaries are left out: they are only shown.

## Main results

* `buildSerpInvestigation_ok` — a snapshot of the one query asked is a complete
  investigation.
* `generateTitleReasoning_selected` — the selected candidate is one that passed.
-/

namespace SeoAgent.Ports

open Verified

/-! ## Search results -/

/-- `SERPResultItem`. -/
structure SerpResult where
  position : Nat
  url : String
  title : String
  isTarget : Bool
  deriving DecidableEq

/-- `SERPQuerySnapshot`. -/
structure SerpSnapshot where
  query : String
  results : List SerpResult
  deriving DecidableEq

/-- `SERPQueryEvidence`. -/
structure SerpEvidence where
  query : String
  targetFound : Bool
  targetPosition : Option Nat
  competitorCount : Nat
  competitorTitles : List String
  deriving DecidableEq

/-- `_build_query_evidence`. -/
def buildQueryEvidence (snapshot : SerpSnapshot) (targetUrl : String) : SerpEvidence :=
  let target := snapshot.results.find? fun result =>
    result.isTarget || result.url = targetUrl
  let competitors := snapshot.results.filter fun result =>
    result.url ≠ targetUrl && !result.isTarget
  { query := snapshot.query
    targetFound := target.isSome
    targetPosition := target.map SerpResult.position
    competitorCount := competitors.length
    competitorTitles := (competitors.filter fun result =>
      Text.strip result.title ≠ "").map fun result => Text.normal result.title }

/-- `SERPInvestigationStatus`, as far as it is used. -/
inductive InvestigationStatus
  | notRequired
  | completed
  | incomplete
  deriving DecidableEq, Repr

/-- `SERPInvestigation`. -/
structure SerpInvestigation where
  investigationId : String
  siteId : String
  normalizedUrl : String
  status : InvestigationStatus
  primaryQueries : List String
  queryEvidence : List SerpEvidence
  targetTitle : Option String
  targetFoundInAnyQuery : Bool
  deriving DecidableEq

/-- `MAX_PRIMARY_QUERIES`. -/
def maxPrimaryQueries : Nat := 2

/-- `_normalize_title(title) if title else None`. -/
def normalizedTitle (title : String) : Option String :=
  if title = "" then none else some (Text.normal title)

/-- `build_serp_investigation`. -/
def buildSerpInvestigation (strategy : Strategy) (primaryQueries : List String)
    (snapshots : List SerpSnapshot) (investigationId targetTitle : String) :
    Except Exc SerpInvestigation :=
  if strategy.strategyType ≠ .serpTitleOptimization then
    .ok
      { investigationId
        siteId := strategy.siteId
        normalizedUrl := strategy.normalizedUrl
        status := .notRequired
        primaryQueries := []
        queryEvidence := []
        targetTitle := some targetTitle
        targetFoundInAnyQuery := false }
  else if primaryQueries = [] then
    .error (.valueError "SERP title optimization requires at least one primary query.")
  else if maxPrimaryQueries < primaryQueries.length then
    .error (.valueError "SERP investigation supports at most 2 primary queries.")
  else if snapshots.length ≠ primaryQueries.length then
    .error (.valueError "Number of SERP snapshots must match number of primary queries.")
  else if ¬primaryQueries.Nodup then
    .error (.valueError "Primary queries must be unique.")
  else if snapshots.map SerpSnapshot.query ≠ primaryQueries then
    .error (.valueError
      "SERP snapshot queries must match primary_queries order exactly.")
  else
    let queryEvidence := snapshots.map fun snapshot =>
      buildQueryEvidence snapshot strategy.normalizedUrl
    .ok
      { investigationId
        siteId := strategy.siteId
        normalizedUrl := strategy.normalizedUrl
        status := if queryEvidence = [] then .incomplete else .completed
        primaryQueries, queryEvidence
        targetTitle := normalizedTitle targetTitle
        targetFoundInAnyQuery :=
          !(queryEvidence.filterMap SerpEvidence.targetPosition).isEmpty }

/-! ## The decision -/

/-- `SERPDecisionStatus`. -/
inductive SerpDecisionStatus
  | pass
  | investigate
  | reject
  deriving DecidableEq, Repr

/-- `SERPDecision`. -/
structure SerpDecision where
  decisionId : String
  status : SerpDecisionStatus
  confidenceScore : Rat
  reasons : List String
  deriving DecidableEq

/-- `MIN_COMPETITOR_EVIDENCE`. -/
def minCompetitorEvidence : Nat := 3

/-- `TARGET_KEYWORD_ORIGIN`. -/
def targetKeywordOrigin : String := "target_keyword"

/-- Which parts of the evidence are missing. -/
def missingEvidence (targetFound chosenWord titlePresent enoughCompetitors : Bool) :
    List String :=
  (if !targetFound && !chosenWord then ["target_not_found_in_serp"] else []) ++
    (if !titlePresent then ["target_title_missing"] else []) ++
    (if !enoughCompetitors then ["insufficient_competitor_evidence"] else [])

/-- `build_serp_decision`. -/
def buildSerpDecision (strategy : Strategy) (investigation : SerpInvestigation)
    (decisionId : String) : SerpDecision :=
  if strategy.strategyType ≠ .serpTitleOptimization then
    ⟨decisionId, .reject, 1, ["serp_title_optimization_not_required"]⟩
  else if investigation.status ≠ .completed then
    ⟨decisionId, .investigate, 1 / 4, ["serp_investigation_incomplete"]⟩
  else
    let targetFound := investigation.targetFoundInAnyQuery
    let titlePresent := investigation.targetTitle.any fun title => Text.strip title ≠ ""
    let competitors := investigation.queryEvidence.foldl
      (fun most evidence => max most evidence.competitorCount) 0
    let enoughCompetitors := minCompetitorEvidence ≤ competitors
    let confidence : Rat :=
      ([true, targetFound, titlePresent, enoughCompetitors].count true : Rat) / 4
    let chosenWord := strategy.evidence.get? "origin" = some (.str targetKeywordOrigin)
    match missingEvidence targetFound chosenWord titlePresent enoughCompetitors with
    | [] => ⟨decisionId, .pass, confidence,
        ["sufficient_serp_evidence_for_title_recommendation"]⟩
    | reasons => ⟨decisionId, .investigate, confidence, reasons⟩

/-! ## The recommendation -/

/-- `TitleRecommendation`; no title is recommended at this stage. -/
structure TitleRecommendation where
  recommendationId : String
  primaryQuery : String
  recommended : Bool
  currentTitle : Option String
  confidenceScore : Rat
  reasons : List String
  deriving DecidableEq

/-- Whether one piece of evidence comes before another: by the position of the
target, then by the number of competitors. -/
def ranksBefore (a b : SerpEvidence) : Bool :=
  let x := a.targetPosition.getD 999999
  let y := b.targetPosition.getD 999999
  x < y || (x = y && b.competitorCount < a.competitorCount)

/-- `_select_primary_evidence`: the first of the best. -/
def selectPrimaryEvidence (investigation : SerpInvestigation) : Option SerpEvidence :=
  match investigation.queryEvidence with
  | [] => none
  | evidence :: others =>
      some (others.foldl (fun best e => if ranksBefore e best then e else best) evidence)

/-- `build_title_recommendation`. -/
def buildTitleRecommendation (investigation : SerpInvestigation) (decision : SerpDecision)
    (recommendationId : String) : TitleRecommendation :=
  if decision.status ≠ .pass then
    { recommendationId
      primaryQuery := investigation.primaryQueries.head?.getD ""
      recommended := false
      currentTitle := investigation.targetTitle
      confidenceScore := decision.confidenceScore
      reasons := ["serp_decision_not_pass"] }
  else
    match selectPrimaryEvidence investigation with
    | none =>
        { recommendationId
          primaryQuery := ""
          recommended := false
          currentTitle := investigation.targetTitle
          confidenceScore := 0
          reasons := ["no_serp_query_evidence"] }
    | some evidence =>
        { recommendationId
          primaryQuery := evidence.query
          recommended := true
          currentTitle := investigation.targetTitle.bind normalizedTitle
          confidenceScore := decision.confidenceScore
          reasons := ["serp_evidence_passed",
            "title_generation_deferred_to_strategic_reasoning"] }

/-! ## Candidates -/

/-- `str.lower` and `str.casefold`. -/
structure CaseMaps where
  lower : String → String
  casefold : String → String

/-- `TitleReasoningCandidate`. -/
structure TitleCandidate where
  candidateId : String
  title : String
  confidenceScore : Rat
  deriving DecidableEq

/-- `TitleReasoningInput`: what the model is asked. -/
structure TitleReasoningInput where
  siteId : String
  normalizedUrl : String
  primaryQuery : String
  currentTitle : Option String
  targetPosition : Option Nat
  competitorTitles : List String
  deriving DecidableEq

/-- What the router answers: the provider it used last, and the candidates it
gave unless it failed. -/
structure RouterAnswer where
  providerId : Option String
  candidates : Except Exc (List TitleCandidate)

/-- `TitleReasoningResult`, as far as it is kept. -/
structure TitleReasoning where
  candidates : List TitleCandidate
  selectedCandidateId : Option String
  reasons : List String
  deriving DecidableEq

/-- `build_title_reasoning_input`. -/
def buildTitleReasoningInput (recommendation : TitleRecommendation)
    (investigation : SerpInvestigation) (decision : SerpDecision) :
    Except Exc TitleReasoningInput :=
  if decision.status ≠ .pass then
    .error (.valueError "Strategic title reasoning requires a PASS SERP decision.")
  else if !recommendation.recommended then
    .error (.valueError
      "Strategic title reasoning requires a recommended title recommendation.")
  else
    match investigation.queryEvidence.find? fun evidence =>
        evidence.query = recommendation.primaryQuery with
    | none => .error (.valueError
        "Primary SERP evidence is required for strategic title reasoning.")
    | some evidence =>
        .ok
          { siteId := investigation.siteId
            normalizedUrl := investigation.normalizedUrl
            primaryQuery := recommendation.primaryQuery
            currentTitle := recommendation.currentTitle
            targetPosition := evidence.targetPosition
            competitorTitles := evidence.competitorTitles }

/-- Whether a text is part of another one. -/
def isPartOf (part text : String) : Bool :=
  (List.range (text.length + 1)).any fun n => part.toList.isPrefixOf (text.toList.drop n)

/-- `validate_title_candidate`: what is wrong with a candidate. -/
def validateTitleCandidate (maps : CaseMaps) (candidate : TitleCandidate)
    (input : TitleReasoningInput) : List String :=
  let title := Text.normal candidate.title
  let query := Text.normal input.primaryQuery
  (if title = "" then ["empty_title"] else []) ++
    (if query = "" then ["empty_primary_query"] else []) ++
    (if 200 < title.length then ["title_too_long"] else []) ++
    (if maps.lower title = maps.lower (Text.normal (input.currentTitle.getD "")) then
      ["title_identical_to_current"] else []) ++
    (if isPartOf (maps.casefold query) (maps.casefold title) then []
      else ["primary_query_not_present_in_title"]) ++
    (if maps.casefold title ∈ input.competitorTitles.map fun t =>
        maps.casefold (Text.normal t) then ["title_matches_competitor_title"] else [])

/-- The candidate with the greatest confidence, the first of several. -/
def mostConfident (candidate : TitleCandidate) (others : List TitleCandidate) :
    TitleCandidate :=
  others.foldl (fun best c => if best.confidenceScore < c.confidenceScore then c else best)
    candidate

/-- The end of `generate_title_reasoning`, from what the model gave. -/
def generateTitleReasoning (maps : CaseMaps) (input : TitleReasoningInput)
    (raw : List TitleCandidate) : TitleReasoning :=
  match raw.filter fun candidate => validateTitleCandidate maps candidate input = [] with
  | [] => ⟨[], none, ["all_llm_candidates_failed_validation"]⟩
  | candidate :: others =>
      ⟨candidate :: others, some (mostConfident candidate others).candidateId,
        ["validated_strategic_reasoning_candidates"]⟩

/-! ## Proposals -/

/-- `TitleProposalStatus`. -/
inductive TitleProposalStatus
  | completed
  | blocked
  | failed
  deriving DecidableEq, Repr

/-- The stored text of a proposal's status. -/
def TitleProposalStatus.value : TitleProposalStatus → String
  | .completed => "completed"
  | .blocked => "blocked"
  | .failed => "failed"

/-- `TitleProposal`; its `min_length` constraints are fields. -/
structure TitleProposal where
  proposalId : String
  runId : String
  tenantId : Option String
  siteId : String
  normalizedUrl : String
  primaryQuery : String
  status : TitleProposalStatus
  recommendation : TitleRecommendation
  investigation : SerpInvestigation
  decision : SerpDecision
  reasoning : Option TitleReasoning
  selectedTitle : Option String
  providerId : Option String
  reasons : List String
  texts_ne : proposalId ≠ "" ∧ runId ≠ "" ∧ siteId ≠ "" ∧ normalizedUrl ≠ "" ∧
    primaryQuery ≠ ""
  deriving DecidableEq

/-! ## What is selected -/

section
variable {maps : CaseMaps} {input : TitleReasoningInput} {raw : List TitleCandidate}
  {strategy : Strategy} {snapshot : SerpSnapshot} {id title : String}

/-- A snapshot of the one query asked is a complete investigation of it. -/
theorem buildSerpInvestigation_ok (ht : strategy.strategyType = .serpTitleOptimization)
    (hq : snapshot.query = strategy.normalizedQuery) :
    ∃ investigation, buildSerpInvestigation strategy [strategy.normalizedQuery] [snapshot]
        id title = .ok investigation ∧
      investigation.targetTitle = normalizedTitle title := by
  unfold buildSerpInvestigation
  rw [if_neg (not_not.mpr ht), if_neg (List.cons_ne_nil _ _),
    if_neg (by unfold maxPrimaryQueries; simp), if_neg (by simp), if_neg (by simp),
    if_neg (by simp [hq])]
  exact ⟨_, rfl, rfl⟩

theorem mostConfident_mem (candidate : TitleCandidate) (others : List TitleCandidate) :
    mostConfident candidate others ∈ candidate :: others := by
  unfold mostConfident
  induction others generalizing candidate with
  | nil => exact List.mem_singleton.mpr rfl
  | cons c others ih =>
      rw [List.foldl_cons]
      rcases List.mem_cons.mp (ih (if candidate.confidenceScore < c.confidenceScore then c
        else candidate)) with h | h
      · rw [h]
        split
        · exact .tail _ (.head _)
        · exact .head _
      · exact .tail _ (.tail _ h)

/-- What passed, and that the selected one is among it. -/
theorem generateTitleReasoning_selected {reasoning : TitleReasoning}
    (h : generateTitleReasoning maps input raw = reasoning) :
    (∀ c ∈ reasoning.candidates, validateTitleCandidate maps c input = []) ∧
      (reasoning.candidates ≠ [] → ∃ c ∈ reasoning.candidates,
        reasoning.selectedCandidateId = some c.candidateId) := by
  subst h
  unfold generateTitleReasoning
  split
  · exact ⟨nofun, fun h => absurd rfl h⟩
  next candidate others hfilter =>
  refine ⟨fun c hc => ?_, fun _ => ?_⟩
  · have hmem := hfilter ▸ hc
    simpa using (List.mem_filter.mp hmem).2
  · exact ⟨_, mostConfident_mem candidate others, rfl⟩

/-- A candidate that passed has a title that can be proposed. -/
theorem title_of_valid {candidate : TitleCandidate}
    (h : validateTitleCandidate maps candidate input = []) :
    Text.normal candidate.title ≠ "" ∧ (Text.normal candidate.title).length ≤ 200 := by
  unfold validateTitleCandidate at h
  dsimp only at h
  simp only [List.append_eq_nil_iff, ite_eq_right_iff] at h
  obtain ⟨⟨⟨⟨⟨htitle, -⟩, hlen⟩, -⟩, -⟩, -⟩ := h
  refine ⟨fun he => absurd (htitle he) (List.cons_ne_nil _ _), ?_⟩
  by_contra hlong
  exact absurd (hlen (by omega)) (List.cons_ne_nil _ _)

end

end SeoAgent.Ports
