import SeoAgent.Ports.Exceptions
import SeoAgent.Verified.Json
import SeoAgent.Verified.Prog
import SeoAgent.Verified.Text

/-!
# Actions, their statuses and their history

`Action` is what the decision engine proposes; `ManagedAction` wraps it with
its owner, the page's value when it was proposed, what was applied, and the
append-only history of every decision. `transitionAction` is the only way a
status changes and `ManagedAction.record` the only way a history grows.

## Main results

* `transitionAction_ok` — a transition that was not refused is an allowed one
  and leaves the parameters alone.
* `record_ok` — a record keeps everything but the action and the history.
-/

namespace SeoAgent.Ports

open Verified

/-! ## Statuses -/

/-- `ActionStatus`. -/
inductive ActionStatus
  | planned
  | awaitingApproval
  | approved
  | rejected
  | executing
  | executed
  | waitingForRecrawl
  | measurementWindowActive
  | evaluating
  | succeeded
  | failed
  | inconclusive
  | rolledBack
  deriving DecidableEq, Repr

namespace ActionStatus

/-- The stored text of a status. -/
def value : ActionStatus → String
  | planned => "planned"
  | awaitingApproval => "awaiting_approval"
  | approved => "approved"
  | rejected => "rejected"
  | executing => "executing"
  | executed => "executed"
  | waitingForRecrawl => "waiting_for_recrawl"
  | measurementWindowActive => "measurement_window_active"
  | evaluating => "evaluating"
  | succeeded => "succeeded"
  | failed => "failed"
  | inconclusive => "inconclusive"
  | rolledBack => "rolled_back"

end ActionStatus

open ActionStatus in
/-- `ALLOWED_TRANSITIONS`. -/
def allowedTransitions : ActionStatus → List ActionStatus
  | planned => [awaitingApproval, rejected]
  | awaitingApproval => [approved, rejected]
  | approved => [executing, rejected]
  | executing => [executed, failed]
  | executed => [waitingForRecrawl, failed, rolledBack]
  | waitingForRecrawl => [measurementWindowActive, failed, rolledBack]
  | measurementWindowActive => [evaluating, failed, rolledBack]
  | evaluating => [succeeded, failed, inconclusive, rolledBack]
  | failed => [rolledBack]
  | succeeded => [rolledBack]
  | inconclusive => [rolledBack]
  | rolledBack => []
  | rejected => []

/-- `can_transition`. -/
def canTransition (current target : ActionStatus) : Bool :=
  (allowedTransitions current).contains target

/-- `transition`. -/
def transition (current target : ActionStatus) : Except Exc ActionStatus :=
  if canTransition current target then .ok target
  else .error (.valueError
    s!"Invalid action transition: {current.value} -> {target.value}")

/-! ## Actions -/

/-- `ActionType`. -/
inductive ActionType
  | optimizeTitle
  | optimizeMetaDescription
  | investigateCannibalization
  | improveInternalLinking
  | improveContentDepth
  | monitor
  deriving DecidableEq, Repr

/-- The stored text of an action type. -/
def ActionType.value : ActionType → String
  | .optimizeTitle => "optimize_title"
  | .optimizeMetaDescription => "optimize_meta_description"
  | .investigateCannibalization => "investigate_cannibalization"
  | .improveInternalLinking => "improve_internal_linking"
  | .improveContentDepth => "improve_content_depth"
  | .monitor => "monitor"

/-- `Action`, with the fields the modelled code reads or writes. -/
structure Action where
  actionId : String
  siteId : String
  normalizedUrl : String
  normalizedQuery : String
  actionType : ActionType
  status : ActionStatus
  requiresApproval : Bool
  reasons : List String
  parameters : Dict
  evidence : Dict
  deriving DecidableEq

/-- `transition_action`: the action of the lifecycle result. -/
def transitionAction (action : Action) (target : ActionStatus) (reason : String)
    (evidence : Dict) : Except Exc Action := do
  let newStatus ← transition action.status target
  return { action with
    status := newStatus
    reasons := action.reasons ++ [reason]
    evidence := (action.evidence.merge evidence).merge
      [("previous_status", .str action.status.value),
        ("current_status", .str newStatus.value),
        ("transition_reason", .str reason)] }

/-- What identifies an action and what it proposes: everything a transition
leaves alone. -/
structure Action.SameProposal (a b : Action) : Prop where
  actionId : b.actionId = a.actionId
  siteId : b.siteId = a.siteId
  normalizedUrl : b.normalizedUrl = a.normalizedUrl
  actionType : b.actionType = a.actionType
  parameters : b.parameters = a.parameters

theorem Action.SameProposal.refl (a : Action) : a.SameProposal a :=
  ⟨rfl, rfl, rfl, rfl, rfl⟩

theorem Action.SameProposal.trans {a b c : Action} (h₁ : a.SameProposal b)
    (h₂ : b.SameProposal c) : a.SameProposal c :=
  ⟨h₂.1.trans h₁.1, h₂.2.trans h₁.2, h₂.3.trans h₁.3, h₂.4.trans h₁.4,
    h₂.5.trans h₁.5⟩

theorem transitionAction_ok {a b : Action} {target : ActionStatus}
    {reason : String} {evidence : Dict}
    (h : transitionAction a target reason evidence = .ok b) :
    b.status = target ∧ target ∈ allowedTransitions a.status ∧
      a.SameProposal b := by
  unfold transitionAction transition at h
  split at h
  · next hc =>
      cases h
      exact ⟨rfl, by simpa [canTransition] using hc, rfl, rfl, rfl, rfl, rfl⟩
  · cases h

/-! ## Fields of a page -/

/-- The part of a page a change is about: `TITLE` or `DESCRIPTION`. -/
inductive PageField
  | title
  | description
  deriving DecidableEq, Repr

/-- `SitePage`, with the fields the modelled code reads. A metadata value is a
text or null. -/
structure SitePage where
  title : String
  metaDescription : String
  metadata : List (String × Option String)
  deriving DecidableEq

namespace PageField

def name : PageField → String
  | title => "title"
  | description => "description"

def actionType : PageField → ActionType
  | title => .optimizeTitle
  | description => .optimizeMetaDescription

/-- The longest value accepted from a proposal or a reviewer's edit. -/
def maxLength : PageField → Nat
  | title => 300
  | description => 170

/-- What the connector reports as the value it stores for the field. -/
def storedKey : PageField → String
  | title => "override_title"
  | description => "override_description"

def label : PageField → String
  | title => "title"
  | description => "meta description"

/-- `FIELDS`. -/
def ofName? : String → Option PageField
  | "title" => some title
  | "description" => some description
  | _ => none

/-- `BY_ACTION_TYPE`. -/
def ofActionType? : ActionType → Option PageField
  | .optimizeTitle => some title
  | .optimizeMetaDescription => some description
  | _ => none

/-- The text parameter under a key. A parameter that is not a text makes the
first text operation on it fail. -/
def textParameter (action : Action) (key : String) : Except Exc String :=
  match action.parameters.get? key with
  | some (.str s) => .ok s
  | some _ => .error ⟨.typeError, s!"{key} is not a text"⟩
  | none => .error (.keyError key)

/-- `Field.recommended`. -/
def recommended (field : PageField) (action : Action) : Except Exc String :=
  textParameter action s!"recommended_{field.name}"

/-- `Field.expected`. -/
def expected (field : PageField) (action : Action) : Except Exc String :=
  textParameter action s!"expected_{field.name}"

/-- `Field.on_page`. -/
def onPage (field : PageField) (page : SitePage) : String :=
  match field with
  | title => page.title
  | description => page.metaDescription

end PageField

/-- `field_of`: by the action's type, else by the field its parameters name. -/
def fieldOf (action : Action) : Except Exc PageField :=
  match PageField.ofActionType? action.actionType with
  | some field => .ok field
  | none =>
      match action.parameters.getD "field" (.str PageField.title.name) with
      | .str s =>
          match PageField.ofName? s with
          | some field => .ok field
          | none => .error (.keyError s)
      | _ => .error (.keyError "field")

theorem fieldOf_congr {a b : Action} (h : a.SameProposal b) :
    fieldOf b = fieldOf a := by
  unfold fieldOf
  rw [h.actionType, h.parameters]

theorem recommended_congr {a b : Action} (h : a.SameProposal b)
    (field : PageField) : field.recommended b = field.recommended a := by
  unfold PageField.recommended PageField.textParameter
  rw [h.parameters]

/-! ## Managed actions -/

/-- `ActionEvent`; its `min_length` constraints are fields. -/
structure ActionEvent where
  at_ : Int
  status : ActionStatus
  actor : String
  reason : String
  detail : Dict
  actor_ne : actor ≠ ""
  reason_ne : reason ≠ ""
  deriving DecidableEq

/-- `ActionEvent(...)`. -/
def ActionEvent.new (at_ : Int) (status : ActionStatus) (actor reason : String)
    (detail : Dict) : Except Exc ActionEvent :=
  if h : actor ≠ "" ∧ reason ≠ "" then
    .ok { at_, status, actor, reason, detail, actor_ne := h.1, reason_ne := h.2 }
  else .error ⟨.validationError, "validation error for ActionEvent"⟩

/-- `AppliedChange`: what was written to the site, and what it replaced. -/
structure AppliedChange where
  adapterId : String
  changeId : Option String
  previousValue : String
  newValue : String
  appliedAt : Int
  adapterId_ne : adapterId ≠ ""
  deriving DecidableEq

/-- `AppliedChange(...)`. -/
def AppliedChange.new (adapterId : String) (changeId : Option String)
    (previousValue newValue : String) (appliedAt : Int) :
    Except Exc AppliedChange :=
  if h : adapterId ≠ "" then
    .ok { adapterId, changeId, previousValue, newValue, appliedAt,
          adapterId_ne := h }
  else .error ⟨.validationError, "validation error for AppliedChange"⟩

/-- `ManagedAction`. -/
structure ManagedAction where
  action : Action
  tenantId : String
  runId : String
  proposalId : Option String
  observedValue : Option String
  applied : Option AppliedChange
  rolledBack : Option AppliedChange
  error : Option String
  history : List ActionEvent
  deriving DecidableEq

namespace ManagedAction

def actionId (managed : ManagedAction) : String := managed.action.actionId
def siteId (managed : ManagedAction) : String := managed.action.siteId
def status (managed : ManagedAction) : ActionStatus := managed.action.status

/-- `ManagedAction.record` without further changes: the action and one more
history entry. -/
def record (managed : ManagedAction) (at_ : Int) (action : Action)
    (actor reason : String) (detail : Dict) : Except Exc ManagedAction := do
  let event ← ActionEvent.new at_ action.status actor reason detail
  return { managed with action, history := managed.history ++ [event] }

end ManagedAction

/-- What an event made by `ActionEvent.new` says. -/
theorem ActionEvent.new_ok {at_ : Int} {status : ActionStatus}
    {actor reason : String} {detail : Dict} {e : ActionEvent}
    (h : ActionEvent.new at_ status actor reason detail = .ok e) :
    e.at_ = at_ ∧ e.status = status ∧ e.actor = actor ∧ e.reason = reason ∧
      e.detail = detail := by
  unfold ActionEvent.new at h
  split at h
  · cases h; exact ⟨rfl, rfl, rfl, rfl, rfl⟩
  · cases h

theorem AppliedChange.new_ok {adapterId : String} {changeId : Option String}
    {previousValue newValue : String} {appliedAt : Int} {c : AppliedChange}
    (h : AppliedChange.new adapterId changeId previousValue newValue appliedAt
      = .ok c) :
    c.previousValue = previousValue ∧ c.newValue = newValue ∧
      c.changeId = changeId ∧ c.appliedAt = appliedAt := by
  unfold AppliedChange.new at h
  split at h
  · cases h; exact ⟨rfl, rfl, rfl, rfl⟩
  · cases h

/-- A record that was not refused: one more event, everything else kept. -/
theorem record_ok {m n : ManagedAction} {at_ : Int} {action : Action}
    {actor reason : String} {detail : Dict}
    (h : m.record at_ action actor reason detail = .ok n) :
    ∃ e : ActionEvent, e.status = action.status ∧ e.reason = reason ∧
      e.detail = detail ∧
      n = { m with action := action, history := m.history ++ [e] } := by
  obtain ⟨e, he, h⟩ := bind_eq_ok.mp h
  obtain ⟨-, hs, -, hr, hd⟩ := ActionEvent.new_ok he
  exact ⟨e, hs, hr, hd, (Except.ok.inj h).symm⟩

end SeoAgent.Ports
