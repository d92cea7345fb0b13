import SeoAgent.Ports.ActionSite
import SeoAgent.Ports.Approval

/-!
# The action store

`ManagedActionStore` over the repository. An action's history doubles as the
version its writer read: `update` refuses a write whose history does not extend
the stored one, and replaces the version it compared with.
-/

namespace SeoAgent.Ports

open Verified

/-- A process of the action machine. -/
abbrev ActionProc (α : Type) : Type := Proc actionSite α

/-- What a process of the action machine has asked and been answered. -/
abbrev ActionPast : Type := ProcPast actionSite

/-- An operation of a process of the action machine. -/
abbrev ActionOp : Type := Service.Op backend actionSite

/-- How one of them comes out. -/
abbrev ActionChoice : Type := ProcChoice actionSite

namespace ActionStore

/-- `ManagedActionStore.create`. -/
def create (managed : ManagedAction) : ActionProc ManagedAction := do
  commit [.create .managedAction managed.actionId managed]
  return managed

/-- `ManagedActionStore.find`. -/
def find (actionId : String) : ActionProc (Option ManagedAction) := do
  return (← Ports.find .managedAction actionId).map Prod.fst

/-- `ManagedActionStore.get`. -/
def get (actionId : String) : ActionProc ManagedAction := do
  match ← Ports.find .managedAction actionId with
  | some (managed, _) => return managed
  | none =>
      throw (⟨.persistenceNotFoundError, s!"action not found: {actionId}"⟩ : Exc)

/-- The check of `update`: the history to be written extends the stored one. -/
def extendsStored (managed current : ManagedAction) : Bool :=
  managed.history.take current.history.length = current.history

/-- `ManagedActionStore.update`, inside a transaction that writes other records
before it and after it. -/
def updateWith (before : List (Repository.Write AggregateType AggregateType.Payload))
    (managed : ManagedAction)
    (after : Except Exc (List (Repository.Write AggregateType AggregateType.Payload))) :
    ActionProc ManagedAction := do
  match ← Ports.find .managedAction managed.actionId with
  | none =>
      throw (⟨.persistenceNotFoundError,
        s!"action not found: {managed.actionId}"⟩ : Exc)
  | some (current, version) =>
      if extendsStored managed current then do
        let after ← Prog.ofExcept after
        commit (before ++
          .replace .managedAction managed.actionId managed version :: after)
        return managed
      else throw (⟨.actionChangedError,
        s!"action changed since it was read: {managed.actionId}"⟩ : Exc)

/-- `ManagedActionStore.update`. -/
def update (managed : ManagedAction) : ActionProc ManagedAction :=
  updateWith [] managed (.ok [])

theorem extendsStored_iff {managed current : ManagedAction} :
    extendsStored managed current = true ↔
      current.history <+: managed.history := by
  rw [extendsStored, decide_eq_true_iff, eq_comm, List.prefix_iff_eq_take]

end ActionStore

/-! ## Recording -/

/-- The fields `record` is given beside the action: what was applied or rolled
back, and an error set or cleared. -/
structure Changes where
  applied : Option AppliedChange := none
  rolledBack : Option AppliedChange := none
  error : Option (Option String) := none

/-- The record with its changes. -/
def Changes.on (changes : Changes) (managed : ManagedAction) : ManagedAction :=
  { managed with
    applied := changes.applied.or managed.applied
    rolledBack := changes.rolledBack.or managed.rolledBack
    error := changes.error.getD managed.error }

/-- `error=None`. -/
def clearError : Changes := { error := some none }

/-- `error=message`. -/
def setError (message : String) : Changes := { error := some (some message) }

/-- `ManagedAction.record`, at the time the clock shows. -/
def recorded (managed : ManagedAction) (action : Action) (actor reason : String)
    (detail : Dict) (changes : Changes) : ActionProc ManagedAction := do
  let at_ ← now
  let next ← Prog.ofExcept (managed.record at_ action actor reason detail)
  return changes.on next

/-- `_move`. -/
def move (managed : ManagedAction) (target : ActionStatus) (reason : String)
    (detail : Dict) (changes : Changes) : ActionProc ManagedAction := do
  let moved ← Prog.ofExcept (transitionAction managed.action target reason detail)
  recorded managed moved systemActor reason detail changes

/-- `_summary`. -/
def summary (managed : ManagedAction) (skipped : Bool) : Dict :=
  [("action_id", .str managed.actionId), ("status", .str managed.status.value)] ++
    (if skipped then [("skipped", .bool true)] else []) ++
    (match managed.error with
      | some error => if error = "" then [] else [("error", .str error)]
      | none => [])

end SeoAgent.Ports
