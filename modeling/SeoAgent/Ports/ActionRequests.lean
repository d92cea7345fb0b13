import SeoAgent.Ports.ActionExecutor
import SeoAgent.Ports.JobScheduler

/-!
# Proposing, deciding and measuring an action

The other writers of an action: the proposals, the requests of the API, and the
measurement round. A decision and the job that carries it out are one commit;
so are an outcome, the settled action and what it taught.
-/

namespace SeoAgent.Ports

open Verified

/-! ## Proposals -/

/-- `_queue_for_approval`, from the proposal and its selected title. -/
def queueTitleForApproval (action : Action)
    (runId tenantId proposalId proposedTitle : String)
    (currentTitle providerId : Option String) (alternatives : List String) :
    ActionProc ManagedAction := do
  let at_ ← now
  let managed ← Prog.ofExcept (proposeTitleChange at_ action runId tenantId
    proposalId proposedTitle currentTitle providerId alternatives)
  match ← ActionStore.find managed.actionId with
  | some existing => return existing
  | none => ActionStore.create managed

/-- The end of `build_description_handler`, from what the scan and the writer
gave. -/
def proposeDescription (siteId tenantId jobId url : String)
    (metaDescription keyword : Option String) (choices : List String)
    (providerId : String) : ActionProc Dict := do
  match ← ActionStore.find s!"action:{jobId}" with
  | some _ => return [("job_id", .str jobId), ("skipped", .bool true)]
  | none => do
      let at_ ← now
      let managed ← Prog.ofExcept (proposeDescriptionChange at_ siteId tenantId
        jobId url metaDescription keyword choices providerId)
      let managed ← ActionStore.create managed
      return [("job_id", .str jobId), ("status", .str "proposed"),
        ("action_id", .str managed.actionId)]

/-! ## Requests -/

/-- `_get_action`. -/
def getAction (actionId : String) : ActionProc ManagedAction :=
  tryCatch (ActionStore.get actionId) fun exc =>
    if exc.isA .persistenceNotFoundError then throw (Exc.http 404 "Action not found.")
    else throw exc

/-- `_action_job`. -/
def actionJob (jobType : String) (managed : ManagedAction) (principal : String) :
    ActionProc Job := do
  let jobId ← newId
  let at_ ← now
  Prog.ofExcept (Job.new jobId jobType principal
    [("action_id", .str managed.actionId), ("actor", .str principal)] 3 at_)

/-- The answer to a request whose write found another version. -/
def changedMeanwhile : Exc :=
  Exc.http 409
    "The action changed while this request was being handled; reload and try again."

/-- `_save_with_job`. -/
def saveWithJob (managed : ManagedAction) (job : Job) : ActionProc ManagedAction :=
  tryCatch (ActionStore.updateWith [] managed (.ok [.create .job job.jobId job]))
    fun exc =>
      if exc.isA .persistenceConflictError then throw changedMeanwhile
      else throw exc

/-- `except ApprovalError as exc: raise HTTPException(409, str(exc))`. -/
def orConflict {α : Type} : Except Exc α → Except Exc α
  | .ok a => .ok a
  | .error exc =>
      if exc.isA .approvalError then .error (.http 409 exc.message) else .error exc

/-- The check of `approve_action` that the site is connected. -/
def requireConnected (site : Site) : Except Exc Unit :=
  if site.adapterType.isNone then
    .error (.http 409
      "Connect the site (PUT /v1/sites/\x7bsite_id\x7d/connections/site-adapter) before approving changes to it.")
  else .ok ()

/-- `approve_action`. -/
def approveAction (actionId principalId : String) (title note : Option String) :
    ActionProc ManagedAction := do
  let managed ← getAction actionId
  Prog.ofExcept (ensureOwner managed.tenantId principalId)
  ext (X := actionSite) (.requirePlan principalId)
  let site ← ext (X := actionSite) (.getSite managed.siteId)
  Prog.ofExcept (requireConnected site)
  let at_ ← now
  let approved ← Prog.ofExcept
    (orConflict (approve managed at_ principalId title note))
  let job ← actionJob executeActionJobType approved principalId
  saveWithJob approved job

/-- The checks of `report_applied`: a manual site, and an action that waits to
be applied or whose check after it ran out of attempts. -/
def requireReportable (managed : ManagedAction) (site : Site) : Except Exc Unit :=
  if site.adapterType ≠ some "manual" then
    .error (.http 409
      "This site applies changes itself; there is nothing to report.")
  else if managed.status ∉ [ActionStatus.approved, .executed] then
    .error (.http 409
      s!"An action in status {managed.status.value} is not waiting to be applied.")
  else .ok ()

/-- `report_applied`. -/
def reportApplied (actionId principalId : String) : ActionProc ManagedAction := do
  let managed ← getAction actionId
  Prog.ofExcept (ensureOwner managed.tenantId principalId)
  let site ← ext (X := actionSite) (.getSite managed.siteId)
  Prog.ofExcept (requireReportable managed site)
  let reported ← recorded managed managed.action principalId
    "customer_reported_applied" [] {}
  let job ← actionJob executeActionJobType reported principalId
  saveWithJob reported job

/-- `reject_action`. -/
def rejectAction (actionId principalId : String) (reason : Option String) :
    ActionProc ManagedAction := do
  let managed ← getAction actionId
  Prog.ofExcept (ensureOwner managed.tenantId principalId)
  let at_ ← now
  let rejected ← Prog.ofExcept (orConflict (reject managed at_ principalId reason))
  tryCatch (ActionStore.update rejected) fun exc =>
    if exc.isA .actionChangedError then throw changedMeanwhile else throw exc

/-- `rollback_action`. -/
def rollbackAction (actionId principalId : String) (reason : Option String) :
    ActionProc ManagedAction := do
  let managed ← getAction actionId
  Prog.ofExcept (ensureOwner managed.tenantId principalId)
  Prog.ofExcept (orConflict (checkRollback managed))
  let requested ← recorded managed managed.action principalId
    "rollback_requested" (noteDetail reason) {}
  let job ← actionJob rollbackActionJobType requested principalId
  saveWithJob requested job

/-! ## Measuring -/

/-- `POLICIES`: the action types that are measured. -/
def hasPolicy : ActionType → Bool
  | .optimizeTitle | .optimizeMetaDescription => true
  | _ => false

/-- `PAGE_LEVEL`. -/
def pageLevel : ActionType → Bool
  | .optimizeMetaDescription => true
  | _ => false

/-- `_ROLLBACK_GAVE_UP`. -/
def rollbackGaveUp : List String :=
  ["rollback_refused", "rollback_refused_page_changed", "rollback_failed",
    "rollback_not_verified"]

/-- The scan of `rollback_pending`, newest event first. -/
def pendingAmong : List ActionEvent → Bool
  | [] => false
  | event :: events =>
      if event.reason = "rollback_requested" then true
      else if event.reason ∈ rollbackGaveUp then false
      else pendingAmong events

/-- `rollback_pending`. -/
def rollbackPending (managed : ManagedAction) : Bool :=
  pendingAmong managed.history.reverse

/-- `mark_evaluating`. -/
def markEvaluating (action : Action) (measurement : Measurement) :
    Except Exc Action :=
  if measurement.actionId ≠ action.actionId then
    .error (.valueError "Measurement action_id does not match action.")
  else
    transitionAction action .evaluating "measurement_ready_for_evaluation"
      [("measurement_id", .str measurement.measurementId),
        ("measurement_status", .str measurement.status)]

/-- `_OUTCOME_TO_ACTION_STATUS`. -/
def outcomeToActionStatus : OutcomeStatus → ActionStatus
  | .success => .succeeded
  | .failure => .failed
  | .inconclusive => .inconclusive

/-- `apply_outcome`. -/
def applyOutcome (action : Action) (outcome : Outcome) : Except Exc Action :=
  if action.status ≠ .evaluating then
    .error (.valueError
      "Outcome can only be applied when action is in EVALUATING state.")
  else if outcome.actionId ≠ action.actionId then
    .error (.valueError "Outcome action_id does not match action.")
  else
    transitionAction action (outcomeToActionStatus outcome.status)
      s!"outcome_{outcome.status.value}"
      [("outcome_id", .str outcome.outcomeId),
        ("outcome_status", .str outcome.status.value),
        ("primary_metric", .str outcome.primaryMetric.value)]

/-- The first half of `_apply`: the action being evaluated. -/
def evaluating (managed : ManagedAction) (outcome : Outcome) (at_ : Int) :
    Except Exc ManagedAction :=
  if managed.status = .measurementWindowActive then do
    let action ← markEvaluating managed.action outcome.measurement
    managed.record at_ action systemActor "measurement_ready_for_evaluation"
      outcome.measurement.detail
  else return managed

/-- A relative change as a value of a detail. -/
def optionalNumber : Option Rat → Json
  | some q => .number q
  | none => .null

/-- `_apply`. -/
def applySettlement (managed : ManagedAction) (outcome : Outcome)
    (evaluatingAt settledAt : Int) : Except Exc ManagedAction := do
  let managed ← evaluating managed outcome evaluatingAt
  let settled ← applyOutcome managed.action outcome
  managed.record settledAt settled systemActor s!"outcome_{outcome.status.value}"
    [("outcome_id", .str outcome.outcomeId),
      ("outcome_status", .str outcome.status.value),
      ("primary_metric", .str outcome.primaryMetric.value),
      ("relative_change", optionalNumber (outcome.primary.bind (·.relativeChange))),
      ("reasons", .list (outcome.reasons.map .str))]

/-- `NOISE_BAND_REASON`. -/
def noiseBandReason : String := "primary_metric_change_within_noise_band"

/-- `build_feedback_event`. -/
def buildFeedbackEvent (feedbackId : String) (action : Action)
    (outcome : Outcome) : Except Exc FeedbackEvent :=
  if outcome.actionId ≠ action.actionId then
    .error (.valueError "Outcome action_id does not match action.")
  else if outcome.siteId ≠ action.siteId then
    .error (.valueError "Outcome site_id does not match action.")
  else if outcome.normalizedUrl ≠ action.normalizedUrl then
    .error (.valueError "Outcome normalized_url does not match action.")
  else if outcome.normalizedQuery ≠ action.normalizedQuery then
    .error (.valueError "Outcome normalized_query does not match action.")
  else
    .ok {
      feedbackId
      actionId := action.actionId
      siteId := action.siteId
      normalizedUrl := action.normalizedUrl
      normalizedQuery := action.normalizedQuery
      outcomeStatus := outcome.status
      primaryMetric := outcome.primaryMetric
      relativeChange := outcome.primary.bind (·.relativeChange)
      improved := outcome.primary.map (·.improved)
      regressed := outcome.primary.map (·.regressed)
      evidence :=
        [("outcome_id", .str outcome.outcomeId),
          ("outcome_status", .str outcome.status.value),
          ("measurement_id", .str outcome.measurement.measurementId),
          ("learning_safe", .bool true),
          ("within_noise_band", .bool (outcome.reasons.contains noiseBandReason))] }

/-- `feedback_id_for`. -/
def feedbackIdFor (actionId : String) : String := s!"feedback:{actionId}"

/-- What is written after the settled action: nothing for a page-level change,
whose outcome has nothing to teach a query. -/
def feedbackWrites (managed settled : ManagedAction) (outcome : Outcome) :
    Except Exc (List (Repository.Write AggregateType AggregateType.Payload)) :=
  if pageLevel managed.action.actionType then .ok []
  else do
    let event ← buildFeedbackEvent (feedbackIdFor managed.actionId)
      settled.action outcome
    return [.ensure .learningFeedback event.feedbackId event]

/-- The outcome an action is settled with: the stored one, or what its data
says by now. -/
def outcomeOf (managed : ManagedAction) : ActionProc (Option Outcome) := do
  match ← find .actionOutcome managed.actionId with
  | some (outcome, _) => return some outcome
  | none => ext (X := actionSite) (.evaluate managed)

/-- `MeasurementRunner.settle`. -/
def settle (managed : ManagedAction) : ActionProc Bool := do
  if hasPolicy managed.action.actionType = false ∨ managed.applied = none then
    return false
  if rollbackPending managed then return false
  match ← outcomeOf managed with
  | none => return false
  | some outcome => do
      let evaluatingAt ← now
      let settledAt ← now
      let settled ← Prog.ofExcept
        (applySettlement managed outcome evaluatingAt settledAt)
      let _ ← ActionStore.updateWith
        [.ensure .actionOutcome managed.actionId outcome] settled
        (feedbackWrites managed settled outcome)
      return true

/-- `_WATCHED`. -/
def watched (managed : ManagedAction) : Bool :=
  managed.status = .measurementWindowActive ∨ managed.status = .evaluating

/-- How one action of a round ended. -/
inductive Settlement
  | settled
  | waiting
  | skipped
  | failed
  deriving DecidableEq, Repr

/-- One action of a round: no exception leaves it. -/
def settleOne (managed : ManagedAction) : ActionProc Settlement :=
  tryCatch
    (do return if ← settle managed then .settled else .waiting)
    (fun exc => return if exc.isA .persistenceConflictError then .skipped else .failed)

/-- The loop of `MeasurementRunner.run_round` over the listed actions. -/
def settleAll : List (String × ManagedAction × Nat) → ActionProc (List Settlement)
  | [] => return []
  | (_, managed, _) :: records =>
      if watched managed then do
        let one ← settleOne managed
        let more ← settleAll records
        return one :: more
      else settleAll records

/-- `MeasurementRunner.run_round`. -/
def runRound : ActionProc (List Settlement) := do
  let _ ← now
  let records ← list .managedAction
  settleAll records.entries

end SeoAgent.Ports
