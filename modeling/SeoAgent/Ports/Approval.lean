import SeoAgent.Ports.ManagedAction

/-!
# Proposals and decisions

The pure functions a proposal is made by and decided with: the two proposals,
`approve`, `reject` and `checkRollback`. An approval may carry the reviewer's
text; the parameters it leaves are a function of the parameters it found and
of the detail it records (`approve_ok`), which is what lets a later reader of
the history say what was approved.
-/

namespace SeoAgent.Ports

open Verified

def systemActor : String := "system"

/-- `MAX_TITLE_LENGTH`. -/
def maxTitleLength : Nat := 300

/-- `ApprovalError(message)`. -/
def approvalError (message : String) : Exc := ⟨.approvalError, message⟩

/-! ## Proposals -/

/-- `_clean_title`. -/
def cleanTitle (title : String) : Except Exc String :=
  let cleaned := Text.normal title
  if cleaned = "" then .error (approvalError "The title must not be empty.")
  else if maxTitleLength < cleaned.length then
    .error (approvalError
      s!"The title must be at most {maxTitleLength} characters.")
  else .ok cleaned

/-- The other candidates offered beside a proposed title. -/
def otherTitles (title : String) (alternatives : List String) : List String :=
  alternatives.foldl
    (fun others candidate =>
      let cleaned := Text.normal candidate
      if cleaned ≠ "" ∧ cleaned ≠ title ∧ cleaned ∉ others ∧
          cleaned.length ≤ maxTitleLength then
        others ++ [cleaned]
      else others) []

/-- A text or null as a value of a detail. -/
def optionalText : Option String → Json
  | some s => .str s
  | none => .null

/-- The history a proposal starts with. -/
def proposalHistory (at_ : Int) (reason : String) (detail : Dict)
    (h : reason ≠ "") : List ActionEvent :=
  [{ at_, status := .awaitingApproval, actor := systemActor, reason, detail,
     actor_ne := by decide, reason_ne := h }]

/-- `propose_title_change`. -/
def proposeTitleChange (at_ : Int) (action : Action) (runId tenantId proposalId
    proposedTitle : String) (currentTitle providerId : Option String)
    (alternatives : List String) : Except Exc ManagedAction := do
  if action.actionType ≠ .optimizeTitle then
    throw (approvalError
      s!"A title proposal needs an optimize_title action, got {action.actionType.value}.")
  let title ← cleanTitle proposedTitle
  let pending := { action with
    actionId := s!"action:{runId}"
    status := .awaitingApproval
    requiresApproval := true
    parameters := action.parameters.merge
      [("recommended_title", .str title), ("expected_title", .str title),
        ("proposal_id", .str proposalId),
        ("alternative_titles",
          .list ((otherTitles title alternatives).map .str))] }
  return {
    action := pending
    tenantId, runId
    proposalId := some proposalId
    observedValue := currentTitle
    applied := none
    rolledBack := none
    error := none
    history := proposalHistory at_ "title_proposal_generated"
      [("proposal_id", .str proposalId), ("provider_id", optionalText providerId)]
      (by decide) }

/-- `propose_description_change`; the page's address as `canonicalize_url`
gives it, and its description as the scan read it. -/
def proposeDescriptionChange (at_ : Int) (siteId tenantId jobId normalizedUrl :
    String) (metaDescription keyword : Option String) (choices : List String)
    (providerId : String) : Except Exc ManagedAction :=
  match choices with
  | [] => .error (.valueError
      "not enough values to unpack (expected at least 1, got 0)")
  | best :: others =>
      .ok {
        action := {
          actionId := s!"action:{jobId}"
          siteId, normalizedUrl
          normalizedQuery := keyword.getD ""
          actionType := PageField.description.actionType
          status := .awaitingApproval
          requiresApproval := true
          reasons := ["meta_description_requested"]
          parameters :=
            [("field", .str PageField.description.name),
              (s!"recommended_{PageField.description.name}", .str best),
              (s!"expected_{PageField.description.name}", .str best),
              ("alternative_titles", .list (others.map .str))]
          evidence := [("origin", .str "meta_description"),
            ("provider_id", .str providerId)] }
        tenantId
        runId := jobId
        proposalId := none
        observedValue := some (metaDescription.getD "")
        applied := none
        rolledBack := none
        error := none
        history := proposalHistory at_ "description_proposal_generated"
          [("provider_id", .str providerId)] (by decide) }

/-! ## Decisions -/

/-- `_require_status`. -/
def requireStatus (managed : ManagedAction) (allowed : List ActionStatus)
    (verb : String) : Except Exc Unit :=
  if managed.status ∈ allowed then .ok ()
  else .error (approvalError
    s!"An action in status {managed.status.value} cannot be {verb}.")

/-- `_clean`. -/
def clean (value : String) (field : PageField) : Except Exc String :=
  let cleaned := Text.normal value
  if cleaned = "" then
    .error (approvalError s!"The {field.label} must not be empty.")
  else if field.maxLength < cleaned.length then
    .error (approvalError
      s!"The {field.label} must be at most {field.maxLength} characters.")
  else .ok cleaned

/-- Whether a text is among the model's other candidates. -/
def isAlternative (action : Action) (text : String) : Bool :=
  match action.parameters.get? "alternative_titles" with
  | some (.list xs) => xs.contains (.str text)
  | _ => false

/-- The parameters of an action whose field was given another text. -/
def revised (parameters : Dict) (field : PageField) (text : String)
    (chosen : Bool) : Dict :=
  parameters.merge
    [(s!"recommended_{field.name}", .str text),
      (s!"expected_{field.name}", .str text),
      ("edited_by_reviewer", .bool (!chosen)),
      ("chosen_alternative", .bool chosen)]

/-- The key the detail of an approval records another text under. -/
def revisionKey (field : PageField) (chosen : Bool) : String :=
  if chosen then "chosen_alternative" else s!"edited_{field.name}"

/-- The reviewer's text in an approval: the action with it, and what the
approval's detail records of it. -/
def applyReview (action : Action) (detail : Dict) (title : String) :
    Except Exc (Action × Dict) := do
  let field ← fieldOf action
  let edited ← clean title field
  let recommended ← field.recommended action
  if edited ≠ recommended then
    -- One of the model's own other candidates is a choice, not an edit.
    let chosen := isAlternative action edited
    return ({ action with parameters := revised action.parameters field edited chosen },
      (detail.set s!"proposed_{field.name}" (.str recommended)).set
        (revisionKey field chosen) (.str edited))
  else return (action, detail)

/-- The detail an approval or a rejection starts with. -/
def noteDetail : Option String → Dict
  | some note => if note = "" then [] else [("note", .str note)]
  | none => []

/-- The action an approval approves, with the detail it records. -/
def review (action : Action) (note : Option String) :
    Option String → Except Exc (Action × Dict)
  | some title => applyReview action (noteDetail note) title
  | none => .ok (action, noteDetail note)

/-- `approve`: as proposed, or with an edited text in its place. -/
def approve (managed : ManagedAction) (at_ : Int) (actor : String)
    (title note : Option String) : Except Exc ManagedAction := do
  requireStatus managed [.awaitingApproval] "approved"
  let (action, detail) ← review managed.action note title
  let moved ← transitionAction action .approved "approved" []
  managed.record at_ moved actor "approved" detail

/-- `reject`. -/
def reject (managed : ManagedAction) (at_ : Int) (actor : String)
    (reason : Option String) : Except Exc ManagedAction := do
  requireStatus managed [.awaitingApproval, .approved] "rejected"
  let moved ← transitionAction managed.action .rejected "rejected" []
  managed.record at_ moved actor "rejected" (noteDetail reason)

/-- `ROLLBACKABLE_STATUSES`. -/
def rollbackableStatuses : List ActionStatus :=
  [.executed, .waitingForRecrawl, .measurementWindowActive, .evaluating,
    .failed, .succeeded, .inconclusive]

/-- `check_rollback`: raises unless there is an applied change that can still
be undone. -/
def checkRollback (managed : ManagedAction) : Except Exc Unit :=
  if managed.applied = none then
    .error (approvalError
      "Nothing was applied to the site, so there is nothing to roll back.")
  else if managed.rolledBack ≠ none then
    .error (approvalError "This change has already been rolled back.")
  else if managed.status ∉ rollbackableStatuses then
    .error (approvalError
      s!"An action in status {managed.status.value} cannot be rolled back.")
  else .ok ()

/-! ## What a decision leaves -/

/-- The parameters an approval leaves, read from those it found and from the
detail it recorded. -/
def approvedParameters (action : Action) (detail : Dict) : Dict :=
  match fieldOf action with
  | .error _ => action.parameters
  | .ok field =>
      match detail.get? (revisionKey field true) with
      | some (.str text) => revised action.parameters field text true
      | _ =>
          match detail.get? (revisionKey field false) with
          | some (.str text) => revised action.parameters field text false
          | _ => action.parameters

theorem requireStatus_ok {m : ManagedAction} {allowed : List ActionStatus}
    {verb : String} {u : Unit} (h : requireStatus m allowed verb = .ok u) :
    m.status ∈ allowed := by
  unfold requireStatus at h
  split at h
  · assumption
  · cases h

private theorem noteDetail_get? {note : Option String} {k : String}
    (h : k ≠ "note") : (noteDetail note).get? k = none := by
  unfold noteDetail
  split
  · split
    · rfl
    · simp [Dict.get?_cons, h]
  · rfl

private theorem revisionKey_ne_note (field : PageField) (chosen : Bool) :
    revisionKey field chosen ≠ "note" := by
  cases field <;> cases chosen <;> decide

private theorem revisionKey_ne_proposed (field : PageField) (chosen : Bool) :
    revisionKey field chosen ≠ s!"proposed_{field.name}" := by
  cases field <;> cases chosen <;> decide

private theorem revisionKey_true_ne_false (field : PageField) :
    revisionKey field true ≠ revisionKey field false := by
  cases field <;> decide

theorem approvedParameters_note (action : Action) (note : Option String) :
    approvedParameters action (noteDetail note) = action.parameters := by
  unfold approvedParameters
  split
  · rfl
  · rw [noteDetail_get? (revisionKey_ne_note _ true),
      noteDetail_get? (revisionKey_ne_note _ false)]

private theorem applyReview_ok {action action' : Action} {note : Option String}
    {title : String} {detail : Dict}
    (h : applyReview action (noteDetail note) title = .ok (action', detail)) :
    action' = { action with parameters := approvedParameters action detail } := by
  obtain ⟨field, hf, h⟩ := bind_eq_ok.mp h
  obtain ⟨edited, -, h⟩ := bind_eq_ok.mp h
  obtain ⟨recommended, -, h⟩ := bind_eq_ok.mp h
  split at h
  · obtain ⟨rfl, rfl⟩ := Prod.mk.inj (Except.ok.inj h)
    cases isAlternative action edited
    · simp [approvedParameters, hf, Dict.get?_set_of_ne,
        revisionKey_true_ne_false, revisionKey_ne_proposed,
        noteDetail_get? (revisionKey_ne_note field true)]
    · simp [approvedParameters, hf]
  · obtain ⟨rfl, rfl⟩ := Prod.mk.inj (Except.ok.inj h)
    rw [approvedParameters_note]

/-- An approval that was not refused: one event, the approved status, and
parameters that are a function of those before and of the event's detail. -/
theorem approve_ok {m v : ManagedAction} {at_ : Int} {actor : String}
    {title note : Option String} (h : approve m at_ actor title note = .ok v) :
    m.status = .awaitingApproval ∧ v.status = .approved ∧
      ∃ e : ActionEvent, e.status = .approved ∧ e.reason = "approved" ∧
        v = { m with action := v.action, history := m.history ++ [e] } ∧
        Action.SameProposal
          { m.action with parameters := approvedParameters m.action e.detail }
          v.action := by
  obtain ⟨u, hs, h⟩ := bind_eq_ok.mp h
  obtain ⟨⟨action, detail⟩, hrev, h⟩ := bind_eq_ok.mp h
  obtain ⟨moved, ht, h⟩ := bind_eq_ok.mp h
  have hact : action = { m.action with
      parameters := approvedParameters m.action detail } := by
    cases title with
    | none =>
        obtain ⟨rfl, rfl⟩ := Prod.mk.inj (Except.ok.inj hrev)
        rw [approvedParameters_note]
    | some t => exact applyReview_ok hrev
  obtain ⟨hmoved, -, hsame⟩ := transitionAction_ok ht
  obtain ⟨e, he, hr, hd, rfl⟩ := record_ok h
  refine ⟨List.mem_singleton.mp (requireStatus_ok hs), hmoved, e,
    he.trans hmoved, hr, rfl, ?_⟩
  rw [hd, ← hact]
  exact hsame

/-- A rejection that was not refused: one event and the rejected status. -/
theorem reject_ok {m v : ManagedAction} {at_ : Int} {actor : String}
    {reason : Option String} (h : reject m at_ actor reason = .ok v) :
    (m.status = .awaitingApproval ∨ m.status = .approved) ∧
      v.status = .rejected ∧ m.action.SameProposal v.action ∧
      ∃ e : ActionEvent, e.status = .rejected ∧ e.reason = "rejected" ∧
        v = { m with action := v.action, history := m.history ++ [e] } := by
  obtain ⟨u, hs, h⟩ := bind_eq_ok.mp h
  obtain ⟨moved, ht, h⟩ := bind_eq_ok.mp h
  obtain ⟨hmoved, -, hsame⟩ := transitionAction_ok ht
  obtain ⟨e, he, hr, -, rfl⟩ := record_ok h
  exact ⟨by simpa using requireStatus_ok hs, hmoved, hsame, e,
    he.trans hmoved, hr, rfl⟩

theorem checkRollback_ok {m : ManagedAction} {u : Unit}
    (h : checkRollback m = .ok u) :
    m.applied ≠ none ∧ m.rolledBack = none ∧ m.status ∈ rollbackableStatuses := by
  unfold checkRollback at h
  split at h
  · cases h
  · next ha =>
      split at h
      · cases h
      · next hr =>
          split at h
          · cases h
          · next hs => exact ⟨ha, Decidable.not_not.mp hr, Decidable.not_not.mp hs⟩

end SeoAgent.Ports
