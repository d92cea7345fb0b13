import SeoAgent.Ports.ActionStore

/-!
# Carrying out an action and undoing it

The handlers of the execute and rollback jobs. A delivery claims the action by
recording it as EXECUTING, reads the page, writes it under a key made from the
action's id, records what was applied, and reads the page back. A delivery may
stop anywhere and be made again, so every part starts from the stored record.

The two handlers are written in the parts the source has; the branches a `try`
guards are definitions of their own.
-/

namespace SeoAgent.Ports

open Verified

/-- `EXECUTE_ACTION_JOB_TYPE`. -/
def executeActionJobType : String := "execute_action"

/-- `ROLLBACK_ACTION_JOB_TYPE`. -/
def rollbackActionJobType : String := "rollback_action"

/-- The idempotency key an action is written under. -/
def executeKey (actionId : String) : String := "action:" ++ actionId

/-- The idempotency key an action is undone under. -/
def rollbackKey (actionId : String) : String := "rollback:" ++ actionId

/-- `_norm`. -/
def norm (text : Option String) : String := Text.normal (text.getD "")

/-- `_read`. -/
def readPage (managed : ManagedAction) : ActionProc SitePage :=
  ext (X := actionSite) (.readPage managed.siteId managed.action.normalizedUrl)

/-- `Field.write`. -/
def PageField.write (field : PageField) (managed : ManagedAction)
    (value key : String) : ActionProc OperationResult :=
  ext (X := actionSite)
    (.write managed.siteId managed.action.normalizedUrl field value key)

/-- `adapter_factory.build(site_store.get(site_id))`. -/
def buildAdapter (siteId : String) : ActionProc Adapter :=
  ext (X := actionSite) (.buildAdapter siteId)

/-- The text under a key of a job's payload. -/
def payloadText (payload : Dict) (key : String) : Except Exc String :=
  match payload.get? key with
  | some (.str s) => .ok s
  | _ => .error (.keyError key)

/-! ## Noting errors -/

/-- `_note_error`: never raises. -/
def noteError (actionId reason : String) (exc : Exc) : ActionProc Unit :=
  tryCatch
    (do
      let current ← ActionStore.get actionId
      let noted ← recorded current current.action systemActor reason
        [("type", .str exc.type.name)] (setError (Text.cut 500 exc.message))
      let _ ← ActionStore.update noted)
    (fun _ => return ())

/-- `try: … except Exception: _note_error(…); raise`. -/
def noting {α : Type} (actionId reason : String) (p : ActionProc α) :
    ActionProc α :=
  tryCatch p fun exc => do
    noteError actionId reason exc
    throw exc

/-! ## Verification -/

/-- `VerificationStatus`. -/
inductive VerificationStatus
  | verified
  | notVerified
  | inconclusive
  deriving DecidableEq, Repr

def VerificationStatus.value : VerificationStatus → String
  | verified => "verified"
  | notVerified => "not_verified"
  | inconclusive => "inconclusive"

/-- `VerificationResult`, with the fields the executor reads. -/
structure VerificationResult where
  verificationId : String
  actionId : String
  status : VerificationStatus
  deriving DecidableEq

/-- `build_verification_request`: the expected state. -/
def buildVerificationRequest (action : Action) : Except Exc Dict :=
  if action.parameters.isEmpty then
    .error (.valueError "Action has no expected execution state.")
  else
    let expected := action.parameters.filterMap fun x =>
      (Text.dropPrefix? "expected_" x.1).map fun key => (key, x.2)
    if expected.isEmpty then
      .error (.valueError "Action has no expected_* parameters for verification.")
    else .ok expected

/-- What comparing an observed state with the expected one says. -/
def verificationStatus (expected observed : Dict) : VerificationStatus :=
  if expected.isEmpty then .inconclusive
  else if expected.any fun x => (observed.get? x.1).isNone then .inconclusive
  else if expected.any fun x => observed.get? x.1 ≠ some x.2 then .notVerified
  else .verified

/-- `verify_action_state`. -/
def verifyActionState (action : Action) (verificationId : String)
    (observed : Dict) : Except Exc VerificationResult := do
  if action.status ≠ .waitingForRecrawl then
    throw (Exc.valueError "Verification requires action state WAITING_FOR_RECRAWL.")
  let expected ← buildVerificationRequest action
  return {
    verificationId
    actionId := action.actionId
    status := verificationStatus expected observed }

/-- `mark_measurement_window_active`. -/
def markMeasurementWindowActive (action : Action) (verificationId : String) :
    Except Exc Action :=
  transitionAction action .measurementWindowActive "post_execution_change_verified"
    [("verification_id", .str verificationId)]

/-- `mark_execution_failed`. -/
def markExecutionFailed (action : Action) (executionId reason : String) :
    Except Exc Action :=
  transitionAction action .failed "execution_failed"
    [("execution_id", .str executionId), ("failure_reason", .str reason)]

/-- `apply_verification`. -/
def applyVerification (action : Action) (verification : VerificationResult) :
    Except Exc Action :=
  if verification.actionId ≠ action.actionId then
    .error (.valueError "Verification action_id does not match action.")
  else
    match verification.status with
    | .verified => markMeasurementWindowActive action verification.verificationId
    | .notVerified => markExecutionFailed action verification.verificationId
        "post_execution_verification_failed"
    | .inconclusive =>
        .ok { action with
          reasons := action.reasons ++ ["verification_inconclusive"]
          evidence := action.evidence.merge
            [("verification_id", .str verification.verificationId),
              ("verification_status", .str verification.status.value)] }

/-- The value a page reports to store for a field. -/
def storedValue (field : PageField) (page : SitePage) : Option String :=
  (page.metadata.lookup field.storedKey).join

/-- Whether a page shows a value in a field. -/
def shows (field : PageField) (page : SitePage) (value : Option String) : Bool :=
  norm (some (field.onPage page)) = norm value

/-- Whether a page reports that it stores a value for a field. -/
def stores (field : PageField) (page : SitePage) (value : String) : Bool :=
  match storedValue field page with
  | some stored => norm (some stored) = norm (some value)
  | none => false

/-- The second half of `_verify`: what reading the page back says. -/
def verified (managed : ManagedAction) (page : SitePage) :
    Except Exc (Action × VerificationResult × Dict × Changes) := do
  let field ← fieldOf managed.action
  let target ← field.expected managed.action
  let renderedOk := shows field page (some target)
  let storedOk := stores field page target
  let observed := if renderedOk || storedOk then target else field.onPage page
  let verification ← verifyActionState managed.action
    s!"verification:{managed.actionId}" [(field.name, .str observed)]
  let action ← applyVerification managed.action verification
  let error := if action.status = .failed then
      setError s!"The {field.label} was written but the page does not show it."
    else clearError
  let detail : Dict := [(s!"rendered_{field.name}", .str (field.onPage page))]
  let detail := if storedOk && !renderedOk then
      detail.set "note" (.str "stored on the site; the public page is still cached")
    else detail
  return (action, verification, detail, error)

/-- `_verify`. -/
def verify (managed : ManagedAction) : ActionProc ManagedAction := do
  let waiting ← move managed .waitingForRecrawl "waiting_for_recrawl" [] {}
  let page ← readPage waiting
  let (action, verification, detail, changes) ←
    Prog.ofExcept (verified waiting page)
  recorded waiting action systemActor
    s!"verification_{verification.status.value}" detail changes

/-- Verifies and stores. -/
def verifyAndUpdate (managed : ManagedAction) : ActionProc ManagedAction := do
  let verified ← verify managed
  ActionStore.update verified

/-! ## Executing -/

/-- Fails an action and stores it. -/
def failAction (managed : ManagedAction) (reason : String) (detail : Dict)
    (error : String) : ActionProc ManagedAction := do
  let failed ← move managed .failed reason detail (setError error)
  ActionStore.update failed

/-- The texts of the capabilities in the order of their texts. -/
def capabilityTexts (capabilities : List ExecutionCapability) : List Json :=
  ((capabilities.map ExecutionCapability.value).dedup.insertionSort (· ≤ ·)).map .str

/-- The value a change replaces, as `_carry_out` reconstructs it. -/
def previousValue (observed : Option String) (onPage : String)
    (alreadyThere : Bool) : String :=
  if alreadyThere then Text.orElse (observed.getD "") onPage else onPage

/-- The part of `_carry_out` after the site accepted the write. -/
def recordApplied (managed : ManagedAction) (adapter : Adapter)
    (target previous : String) (alreadyThere : Bool) (changeId : Option String) :
    ActionProc ManagedAction := do
  let appliedAt ← now
  let change ← Prog.ofExcept
    (AppliedChange.new adapter.adapterId changeId previous target appliedAt)
  let executed ← move managed .executed
    (if alreadyThere then "already_applied" else "execution_succeeded")
    [("adapter_id", .str adapter.adapterId)]
    { applied := some change, error := some none }
  let managed ← ActionStore.update executed
  verifyAndUpdate managed

/-- Whether the page shows neither the target nor what the proposal observed. -/
def pageChanged (field : PageField) (page : SitePage) (target : String)
    (observed : Option String) : Bool :=
  !shows field page (some target) && observed.isSome && !shows field page observed

/-- The part of `_carry_out` that writes the page. -/
def writeTarget (managed : ManagedAction) (adapter : Adapter)
    (field : PageField) (target : String) (page : SitePage) :
    ActionProc ManagedAction := do
  let operation ← field.write managed target (executeKey managed.actionId)
  if !operation.success then
    failAction managed "execution_failed" [("adapter_id", .str adapter.adapterId)]
      (Text.orElse operation.message "The site refused the change.")
  else
    let alreadyThere := shows field page (some target)
    recordApplied managed adapter target
      (previousValue managed.observedValue (field.onPage page) alreadyThere)
      alreadyThere operation.changeId

/-- `_carry_out`. -/
def carryOut (managed : ManagedAction) (adapter : Adapter) :
    ActionProc ManagedAction := do
  let field ← Prog.ofExcept (fieldOf managed.action)
  let target ← Prog.ofExcept (field.recommended managed.action)
  if missingCapabilities managed.action adapter ≠ [] then
    failAction managed "adapter_cannot_apply"
      [("missing", .list (capabilityTexts (missingCapabilities managed.action adapter)))]
      s!"This site connection cannot change the page's {field.label}."
  else
    let page ← readPage managed
    if pageChanged field page target managed.observedValue then
      failAction managed "page_changed_since_proposal"
        [("expected_current", optionalText managed.observedValue),
          ("found", .str (field.onPage page))]
        s!"The page's {field.label} changed after this proposal was made; nothing was written."
    else writeTarget managed adapter field target page

/-- The claim of a manual site's action that the page was seen to show. -/
def recordAppliedByCustomer (managed : ManagedAction) (adapter : Adapter)
    (target : String) : ActionProc ManagedAction := do
  let claimed ← move managed .executing "execution_started" [] {}
  let managed ← ActionStore.update claimed
  let appliedAt ← now
  let change ← Prog.ofExcept (AppliedChange.new adapter.adapterId none
    (managed.observedValue.getD "") target appliedAt)
  let executed ← move managed .executed "applied_by_customer"
    [("adapter_id", .str adapter.adapterId)]
    { applied := some change, error := some none }
  let managed ← ActionStore.update executed
  verifyAndUpdate managed

/-- `_check_applied_by_customer`. -/
def checkAppliedByCustomer (managed : ManagedAction) (adapter : Adapter) :
    ActionProc ManagedAction := do
  let field ← Prog.ofExcept (fieldOf managed.action)
  let target ← Prog.ofExcept (field.recommended managed.action)
  let page ← readPage managed
  if !shows field page (some target) then do
    let waiting ← recorded managed managed.action systemActor
      "waiting_for_customer_to_apply"
      [(s!"apply_{field.name}", .str target), ("found", .str (field.onPage page))]
      clearError
    ActionStore.update waiting
  else recordAppliedByCustomer managed adapter target

/-- A delivery to a manual site. -/
def deliverByCustomer (managed : ManagedAction) (adapter : Adapter) :
    ActionProc Dict :=
  if managed.status = .executed then do
    let verified ← verifyAndUpdate managed
    return summary verified false
  else if managed.status ≠ .approved then return summary managed true
  else do
    let checked ← checkAppliedByCustomer managed adapter
    return summary checked false

/-- The guarded first part of a delivery: the adapter, and on a manual site the
delivery itself. -/
def prepare (managed : ManagedAction) : ActionProc (Adapter × Option Dict) := do
  let adapter ← buildAdapter managed.siteId
  if adapter.manualApply then do
    let result ← deliverByCustomer managed adapter
    return (adapter, some result)
  else return (adapter, none)

/-- The claim of an approved action. -/
def claim (managed : ManagedAction) : ActionProc ManagedAction :=
  if managed.status = .approved then do
    let claimed ← move managed .executing "execution_started" [] {}
    ActionStore.update claimed
  else return managed

/-- The guarded last part of a delivery. -/
def deliver (managed : ManagedAction) (adapter : Adapter) : ActionProc Dict :=
  if managed.status = .executed then do
    let verified ← verifyAndUpdate managed
    return summary verified false
  else do
    let carried ← carryOut managed adapter
    return summary carried false

/-- The delivery of an action that is still to be carried out. -/
def execute (actionId : String) (managed : ManagedAction) : ActionProc Dict := do
  let (adapter, result?) ← noting actionId "execution_error" (prepare managed)
  match result? with
  | some result => return result
  | none => do
      let managed ← claim managed
      noting actionId "execution_error" (deliver managed adapter)

/-- `build_execute_action_handler`. -/
def executeActionHandler (payload : Dict) : ActionProc Dict := do
  let actionId ← Prog.ofExcept (payloadText payload "action_id")
  let managed ← ActionStore.get actionId
  if managed.status ∉ [ActionStatus.approved, .executing, .executed] then
    return summary managed true
  else execute actionId managed

/-! ## Rolling back -/

/-- Records an event without a change of status, and stores it. -/
def recordAndUpdate (managed : ManagedAction) (actor reason : String)
    (detail : Dict) (changes : Changes) : ActionProc ManagedAction := do
  let next ← recorded managed managed.action actor reason detail changes
  ActionStore.update next

/-- `_rolled_back`, stored. -/
def storeRolledBack (managed : ManagedAction) (applied : AppliedChange)
    (adapter : Adapter) (actor reason : String) (changeId : Option String)
    (detail : Dict) : ActionProc ManagedAction := do
  let moved ← Prog.ofExcept
    (transitionAction managed.action .rolledBack reason [])
  let at_ ← now
  let change ← Prog.ofExcept (AppliedChange.new adapter.adapterId changeId
    applied.newValue applied.previousValue at_)
  let next ← recorded managed moved actor reason detail
    { rolledBack := some change, error := some none }
  ActionStore.update next

/-- `_rollback_by_customer`. -/
def rollbackByCustomer (managed : ManagedAction) (applied : AppliedChange)
    (adapter : Adapter) (actor : String) : ActionProc ManagedAction := do
  let field ← Prog.ofExcept (fieldOf managed.action)
  -- A title is never empty, so an empty one was not known before the change.
  if Text.strip applied.previousValue = "" ∧ field.name = "title" then
    recordAndUpdate managed actor "rollback_refused" []
      (setError s!"The {field.label} before this change is not known; restore it by hand on your site.")
  else
    let page ← readPage managed
    if shows field page (some applied.previousValue) then
      storeRolledBack managed applied adapter actor "restored_by_customer" none []
    else
      recordAndUpdate managed actor "waiting_for_customer_to_restore"
        [(s!"restore_{field.name}", .str applied.previousValue),
          ("found", .str (field.onPage page))] clearError

/-- `_rollback_exactly`. -/
def rollbackExactly (managed : ManagedAction) (applied : AppliedChange)
    (changeId : String) (adapter : Adapter) (actor : String) :
    ActionProc ManagedAction := do
  let operation ← ext (X := actionSite) (.rollbackChange managed.siteId
    managed.action.normalizedUrl changeId (rollbackKey managed.actionId))
  if !operation.success then
    recordAndUpdate managed actor "rollback_refused" []
      (setError (Text.orElse operation.message "The site refused the rollback."))
  else
    let page ← readPage managed
    let field ← Prog.ofExcept (fieldOf managed.action)
    storeRolledBack managed applied adapter actor "rolled_back" operation.changeId
      [(s!"rendered_{field.name}", .str (field.onPage page)),
        ("rendered_matches", .bool (shows field page (some applied.previousValue)))]

/-- The part of `_rollback_by_rewriting` that writes the page. -/
def writePrevious (managed : ManagedAction) (applied : AppliedChange)
    (adapter : Adapter) (actor : String) (field : PageField) :
    ActionProc ManagedAction := do
  let operation ← field.write managed applied.previousValue
    (rollbackKey managed.actionId)
  if !operation.success then
    recordAndUpdate managed actor "rollback_failed" []
      (setError (Text.orElse operation.message "The site refused the rollback."))
  else
    let restored ← readPage managed
    if !shows field restored (some applied.previousValue) then
      recordAndUpdate managed actor "rollback_not_verified"
        [("expected", .str applied.previousValue),
          ("found", .str (field.onPage restored))]
        (setError s!"The previous {field.label} was written but the page does not show it.")
    else
      storeRolledBack managed applied adapter actor "rolled_back"
        operation.changeId []

/-- `_rollback_by_rewriting`. -/
def rollbackByRewriting (managed : ManagedAction) (applied : AppliedChange)
    (adapter : Adapter) (actor : String) : ActionProc ManagedAction := do
  let field ← Prog.ofExcept (fieldOf managed.action)
  let page ← readPage managed
  if shows field page (some applied.previousValue) then
    storeRolledBack managed applied adapter actor "already_rolled_back" none []
  else if !shows field page (some applied.newValue) then
    -- Someone edited the page after the change; their edit stays.
    recordAndUpdate managed actor "rollback_refused_page_changed"
      [("expected_current", .str applied.newValue),
        ("found", .str (field.onPage page))]
      (setError s!"The page's {field.label} was changed after this action; rollback did not overwrite it.")
  else writePrevious managed applied adapter actor field

/-- How an adapter undoes a change. -/
def rollbackThrough (managed : ManagedAction) (applied : AppliedChange)
    (adapter : Adapter) (actor : String) : ActionProc ManagedAction :=
  if adapter.manualApply then rollbackByCustomer managed applied adapter actor
  else
    match adapter.exactRollback, applied.changeId with
    | true, some changeId =>
        if changeId = "" then rollbackByRewriting managed applied adapter actor
        else rollbackExactly managed applied changeId adapter actor
    | _, _ => rollbackByRewriting managed applied adapter actor

/-- The change a rollback undoes: `check_rollback` has seen that there is one. -/
def changeToUndo (managed : ManagedAction) : Except Exc AppliedChange := do
  checkRollback managed
  match managed.applied with
  | some applied => return applied
  | none =>
      throw (⟨.other "AttributeError",
        "'NoneType' object has no attribute 'change_id'"⟩ : Exc)

/-- The guarded part of a rollback. -/
def rollback (managed : ManagedAction) (actor : String) : ActionProc Dict := do
  let applied ← Prog.ofExcept (changeToUndo managed)
  let adapter ← buildAdapter managed.siteId
  let undone ← rollbackThrough managed applied adapter actor
  return summary undone false

/-- `str(payload.get("actor") or SYSTEM_ACTOR)`. -/
def payloadActor (payload : Dict) : String :=
  match payload.get? "actor" with
  | some (.str actor) => Text.orElse actor systemActor
  | _ => systemActor

/-- `build_rollback_action_handler`. -/
def rollbackActionHandler (payload : Dict) : ActionProc Dict := do
  let actionId ← Prog.ofExcept (payloadText payload "action_id")
  let managed ← ActionStore.get actionId
  if managed.rolledBack.isSome then return summary managed true
  else noting actionId "rollback_error" (rollback managed (payloadActor payload))

end SeoAgent.Ports
