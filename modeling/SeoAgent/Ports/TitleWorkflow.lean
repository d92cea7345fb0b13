import SeoAgent.Ports.Aggregates

/-!
# The title workflow

`TitleRecommendationWorkflow.run`: from a strategy to a stored title proposal. It
reads the page, compares it with the search results, and asks the model for
candidates only when the evidence suffices. The other outcomes are proposals
too, blocked or failed; a proposal is stored under an id made of its run's.

What a run asks of the outside is here as well: the site, the analysis of its
data, the page, the search results and the model.

## Main results

* `titleWorkflow_wp` — the one record a workflow stores, and what is seen of it.
-/

namespace SeoAgent.Ports

open Verified

/-! ## The outside of a run -/

/-- `Site`, as far as a run reads it: whether Search Console is connected stands
for its connection. -/
structure RunSite where
  siteId : String
  principalId : String
  gsc : Bool
  deriving DecidableEq

/-- What runs ask for beside the stores. -/
inductive RunOp
  | site (siteId : String)
  | mayRun (siteId principalId : String)
  | analyse (siteId startDate endDate normalizedUrl normalizedQuery : String)
  | readPage (siteId normalizedUrl : String)
  | search (query : String)
  | reason (input : TitleReasoningInput)
  | lastProviderId

/-- What each of them answers. Every provider answers a search with the query it
was asked, so only the results are left to it. -/
@[reducible] def RunOp.Res : RunOp → Type
  | .site _ => RunSite
  | .mayRun _ _ => Unit
  | .analyse _ _ _ _ _ => Analysis
  | .readPage _ _ => String
  | .search _ => List SerpResult
  | .reason _ => RouterAnswer
  | .lastProviderId => Option String

/-- How the outside answers at one moment. A router's failure is part of its
answer. -/
structure RunAnswers where
  site : String → Except Exc RunSite
  mayRun : String → String → Except Exc Unit
  analyse : String → String → String → String → String → Except Exc Analysis
  readPage : String → String → Except Exc String
  search : String → Except Exc (List SerpResult)
  reason : TitleReasoningInput → RouterAnswer
  lastProviderId : Option String

/-- The answer to one of them. -/
def RunAnswers.to (answers : RunAnswers) : (o : RunOp) → Except Exc o.Res
  | .site siteId => answers.site siteId
  | .mayRun siteId principalId => answers.mayRun siteId principalId
  | .analyse siteId startDate endDate url query =>
      answers.analyse siteId startDate endDate url query
  | .readPage siteId url => answers.readPage siteId url
  | .search query => answers.search query
  | .reason input => .ok (answers.reason input)
  | .lastProviderId => .ok answers.lastProviderId

/-- The outside of a run, free to answer anything at any time. -/
@[reducible] def runWorld : Outside Exc where
  Op := RunOp
  Res := RunOp.Res
  State := Unit
  Choice := RunAnswers
  Env := Empty
  exec := fun s o answers => some (answers.to o, s)
  change := fun _ e => nomatch e

/-- A process of the run machine. -/
abbrev RunProc (α : Type) : Type := Proc runWorld α

/-- What a process of the run machine has asked and been answered. -/
abbrev RunPast : Type := ProcPast runWorld

/-! ## Proposals -/

/-- `TitleProposal(...)`, with what every outcome of the workflow takes from the
strategy. -/
def TitleProposal.new (runId : String) (tenantId : String) (strategy : Strategy)
    (status : TitleProposalStatus) (recommendation : TitleRecommendation)
    (investigation : SerpInvestigation) (decision : SerpDecision)
    (reasoning : Option TitleReasoning) (selectedTitle providerId : Option String)
    (reasons : List String) : Except Exc TitleProposal :=
  if h : s!"proposal:{runId}" ≠ "" ∧ runId ≠ "" ∧ strategy.siteId ≠ "" ∧
      strategy.normalizedUrl ≠ "" ∧ strategy.normalizedQuery ≠ "" then
    .ok
      { proposalId := s!"proposal:{runId}"
        runId
        tenantId := some tenantId
        siteId := strategy.siteId
        normalizedUrl := strategy.normalizedUrl
        primaryQuery := strategy.normalizedQuery
        status, recommendation, investigation, decision, reasoning, selectedTitle,
        providerId, reasons
        texts_ne := h }
  else .error ⟨.validationError, "validation error for TitleProposal"⟩

/-- `TitleProposalStore.create`. -/
def createTitleProposal (proposal : TitleProposal) : RunProc TitleProposal := do
  commit [.create .titleProposal proposal.proposalId proposal]
  return proposal

/-! ## The workflow -/

/-- `TitleWorkflowError(message)`. -/
def titleWorkflowError (message : String) : Exc := ⟨.other "TitleWorkflowError", message⟩

/-- `SERPProviderError` and the classes derived from it. -/
def serpProviderErrors : List String :=
  ["SERPProviderError", "SERPBudgetSpentError", "SERPAuthError", "SERPQuotaError",
    "SERPRateLimitedError", "SERPUnavailableError"]

/-- The search results, or none with the reason when the provider cannot answer. -/
def searchResults (query : String) : RunProc (SerpSnapshot × List String) :=
  tryCatch
    (do
      let results ← ext (X := runWorld) (.search query)
      return (⟨query, results⟩, []))
    (fun exc =>
      if exc.type.name ∈ serpProviderErrors then
        return (⟨query, []⟩, [s!"serp_unavailable:{exc.type.name}"])
      else throw exc)

/-- `TitleReasoningOrchestrationResult`, as far as the workflow reads it. -/
structure Orchestration where
  reasoning : Option TitleReasoning
  providerId : Option String
  reasons : List String
  deriving DecidableEq

/-- What the orchestration makes of the router's answer. -/
def orchestrated (maps : CaseMaps) (input : TitleReasoningInput) (answer : RouterAnswer) :
    Orchestration :=
  match answer.candidates with
  | .error exc => ⟨none, answer.providerId, ["strategic_reasoning_failed", exc.message]⟩
  | .ok raw =>
      let reasoning := generateTitleReasoning maps input raw
      ⟨some reasoning, answer.providerId, reasoning.reasons⟩

/-- `run_title_reasoning_orchestration`, of a decision that passed. -/
def orchestrate (maps : CaseMaps) (recommendation : TitleRecommendation)
    (investigation : SerpInvestigation) (decision : SerpDecision) : RunProc Orchestration :=
  match buildTitleReasoningInput recommendation investigation decision with
  | .error exc => do
      let providerId ← ext (X := runWorld) .lastProviderId
      return ⟨none, providerId, ["strategic_reasoning_failed", exc.message]⟩
  | .ok input => do
      let answer ← ext (X := runWorld) (.reason input)
      return orchestrated maps input answer

/-- The candidates of an orchestration. -/
def Orchestration.candidates (orchestration : Orchestration) : List TitleCandidate :=
  (orchestration.reasoning.map TitleReasoning.candidates).getD []

/-- The proposal of a decision that passed, from what the model said. -/
def proposalOf (runId tenantId : String) (strategy : Strategy)
    (recommendation : TitleRecommendation) (investigation : SerpInvestigation)
    (decision : SerpDecision) (orchestration : Orchestration) : Except Exc TitleProposal :=
  if orchestration.candidates = [] then
    TitleProposal.new runId tenantId strategy .failed recommendation investigation decision
      orchestration.reasoning none orchestration.providerId orchestration.reasons
  else
    match orchestration.candidates.find? fun candidate =>
        orchestration.reasoning.bind TitleReasoning.selectedCandidateId =
          some candidate.candidateId with
    | none => .error (titleWorkflowError
        "Reasoning selected candidate is not present in validated candidates.")
    | some selected =>
        TitleProposal.new runId tenantId strategy .completed recommendation investigation
          decision orchestration.reasoning (some selected.title) orchestration.providerId
          ("title_proposal_generated" :: orchestration.reasons)

/-- `TitleRecommendationWorkflow.run`. -/
def titleWorkflow (maps : CaseMaps) (runId : String) (site : RunSite) (strategy : Strategy) :
    RunProc TitleProposal := do
  if strategy.strategyType ≠ .serpTitleOptimization then
    throw (titleWorkflowError "Title proposal requires SERP title optimization strategy.")
  let title ← ext (X := runWorld) (.readPage strategy.siteId strategy.normalizedUrl)
  let (snapshot, serpReasons) ← searchResults strategy.normalizedQuery
  let investigation ← Prog.ofExcept (buildSerpInvestigation strategy
    [strategy.normalizedQuery] [snapshot] s!"investigation:{runId}" title)
  let decision := buildSerpDecision strategy investigation s!"serp-decision:{runId}"
  let recommendation :=
    buildTitleRecommendation investigation decision s!"recommendation:{runId}"
  if decision.status ≠ .pass then do
    let proposal ← Prog.ofExcept (TitleProposal.new runId site.principalId strategy .blocked
      recommendation investigation decision none none none
      ("serp_decision_not_pass" :: (serpReasons ++ decision.reasons)))
    createTitleProposal proposal
  else do
    let orchestration ← orchestrate maps recommendation investigation decision
    let proposal ← Prog.ofExcept (proposalOf runId site.principalId strategy recommendation
      investigation decision orchestration)
    createTitleProposal proposal

end SeoAgent.Ports
