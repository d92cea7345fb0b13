import Mathlib.Data.List.Chain
import SeoAgent.Ports.ActionRequests

/-!
# What one write does to an action

Every write of an action adds one or two events to the version its writer had
read. `ActionStep` says what one event may do, with what the writer had been
answered by the site when it made it; `ActionWrite` puts the one or two
together. `Lifecycle` is what holds of every stored action.

## Main results

* `Lifecycle.write` — a write keeps the lifecycle.
* `ActionWrite.history` — a write only appends to the history.
-/

namespace SeoAgent.Ports

open Verified
open Service (Op iface)

/-! ## What a delivery was answered -/

/-- An adapter as it was built. -/
structure BuiltAdapter where
  siteId : String
  adapter : Adapter
  deriving DecidableEq

/-- A page as it was read. -/
structure PageRead where
  siteId : String
  url : String
  page : SitePage
  deriving DecidableEq

/-- A write the site was asked for. -/
structure SiteWrite where
  siteId : String
  url : String
  field : PageField
  value : String
  key : String
  deriving DecidableEq

def adapterBuilt : (iface backend actionSite).Event → Option BuiltAdapter
  | ⟨.ext (.buildAdapter siteId), .ok adapter⟩ => some ⟨siteId, adapter⟩
  | _ => none

def pageRead : (iface backend actionSite).Event → Option PageRead
  | ⟨.ext (.readPage siteId url), .ok page⟩ => some ⟨siteId, url, page⟩
  | _ => none

/-- A write with its result; none when the answer was an exception. -/
def siteWritten :
    (iface backend actionSite).Event → Option (SiteWrite × Option OperationResult)
  | ⟨.ext (.write siteId url field value key), .ok result⟩ =>
      some (⟨siteId, url, field, value, key⟩, some result)
  | ⟨.ext (.write siteId url field value key), .error _⟩ =>
      some (⟨siteId, url, field, value, key⟩, none)
  | _ => none

def lastAdapter (past : ActionPast) : Option BuiltAdapter :=
  past.findSome? adapterBuilt

def lastPage (past : ActionPast) : Option PageRead := past.findSome? pageRead

def lastWritten (past : ActionPast) : Option (SiteWrite × Option OperationResult) :=
  past.findSome? siteWritten

/-! ## What a job in hand is for -/

/-- A job that carries out an action. -/
def Executes (job : Job) (actionId : String) : Prop :=
  job.jobType = executeActionJobType ∧
    payloadText job.payload "action_id" = .ok actionId

/-- A job that undoes an action. -/
def Undoes (job : Job) (actionId : String) : Prop :=
  job.jobType = rollbackActionJobType ∧
    payloadText job.payload "action_id" = .ok actionId

/-- A process has a job of a kind in hand for an action. -/
def HasInHand (kind : Job → String → Prop) (past : ActionPast) (actionId : String) :
    Prop :=
  ∃ job n, inHand past = some (job, n) ∧ kind job actionId

/-! ## What an entry says -/

/-- What an entry of the history says about a rollback or a measurement: a
rollback was asked for, gave up or waits for the customer, or the action was
settled. -/
inductive EntryMark
  | asked
  | gaveUp
  | waits
  | settled
  deriving DecidableEq, Repr

/-- The reasons a settlement is recorded with. -/
def settlementReasons : List String :=
  ["outcome_success", "outcome_failure", "outcome_inconclusive"]

/-- What an entry with a reason says. -/
def entryMark (reason : String) : Option EntryMark :=
  if reason = "rollback_requested" then some .asked
  else if reason ∈ rollbackGaveUp then some .gaveUp
  else if reason = "waiting_for_customer_to_restore" then some .waits
  else if reason ∈ settlementReasons then some .settled
  else none

/-- Who adds an entry, and with which job in hand. -/
def EntryBy (role : JobRole) (past : ActionPast) (before : ManagedAction)
    (e : ActionEvent) : Prop :=
  match entryMark e.reason with
  | none => True
  | some .asked => role = .request
  | some .gaveUp | some .waits =>
      role = .worker ∧ HasInHand Undoes past before.actionId
  | some .settled => role = .measurement ∧ before.status = .evaluating ∧
      e.status ∈ [ActionStatus.succeeded, .failed, .inconclusive]

theorem EntryBy.of_unmarked {role : JobRole} {past : ActionPast}
    {before : ManagedAction} {e : ActionEvent} {reason : String}
    (he : e.reason = reason) (h : entryMark reason = none) :
    EntryBy role past before e := by
  unfold EntryBy
  rw [he, h]
  trivial

section
variable {role : JobRole} {past : ActionPast} {before : ManagedAction} {e : ActionEvent}

theorem EntryBy.of_asked (h : EntryBy role past before e)
    (hm : entryMark e.reason = some .asked) : role = .request := by
  unfold EntryBy at h
  rwa [hm] at h

theorem EntryBy.of_gaveUp (h : EntryBy role past before e)
    (hm : entryMark e.reason = some .gaveUp) :
    role = .worker ∧ HasInHand Undoes past before.actionId := by
  unfold EntryBy at h
  rwa [hm] at h

theorem EntryBy.of_settled (h : EntryBy role past before e)
    (hm : entryMark e.reason = some .settled) :
    role = .measurement ∧ before.status = .evaluating ∧
      e.status ∈ [ActionStatus.succeeded, .failed, .inconclusive] := by
  unfold EntryBy at h
  rwa [hm] at h

end

/-! ## Why an action was changed -/

/-- What the writer of an action's change was answered: on a manual site it saw
the target, elsewhere the site accepted the target after the page was read. -/
inductive AppliedAs (past : ActionPast) (managed : ManagedAction)
    (change : AppliedChange) : Prop
  | byCustomer (adapter : Adapter)
      (built : lastAdapter past = some ⟨managed.siteId, adapter⟩)
      (manual : adapter.manualApply = true)
      (field : PageField) (about : fieldOf managed.action = .ok field)
      (target : field.recommended managed.action = .ok change.newValue)
      (previous : change.previousValue = managed.observedValue.getD "")
  | written (adapter : Adapter)
      (built : lastAdapter past = some ⟨managed.siteId, adapter⟩)
      (automatic : adapter.manualApply = false)
      (field : PageField) (about : fieldOf managed.action = .ok field)
      (target : field.recommended managed.action = .ok change.newValue)
      (page : SitePage)
      (read : lastPage past =
        some ⟨managed.siteId, managed.action.normalizedUrl, page⟩)
      (result : OperationResult)
      (wrote : lastWritten past =
        some (⟨managed.siteId, managed.action.normalizedUrl, field,
          change.newValue, executeKey managed.actionId⟩, some result))
      (accepted : result.success = true)
      (previous : change.previousValue = previousValue managed.observedValue
        (field.onPage page) (shows field page (some change.newValue)))

/-- Why an action under way was failed. -/
inductive FailedFor (past : ActionPast) (managed : ManagedAction) : Prop
  | cannotApply (adapter : Adapter)
      (built : lastAdapter past = some ⟨managed.siteId, adapter⟩)
      (missing : missingCapabilities managed.action adapter ≠ [])
  | pageChanged (field : PageField) (about : fieldOf managed.action = .ok field)
      (target : String) (is_target : field.recommended managed.action = .ok target)
      (page : SitePage)
      (read : lastPage past =
        some ⟨managed.siteId, managed.action.normalizedUrl, page⟩)
      (changed : pageChanged field page target managed.observedValue = true)
  | refused (write : SiteWrite) (result : OperationResult)
      (wrote : lastWritten past = some (write, some result))
      (key : write.key = executeKey managed.actionId)
      (refused : result.success = false)

/-! ## Steps -/

/-- The proposal an event leaves: an approval may put the reviewer's text in
place of the proposed one. -/
def proposalAfter (managed : ManagedAction) (event : ActionEvent) : Action :=
  if managed.status = .awaitingApproval ∧ event.status = .approved then
    { managed.action with
      parameters := approvedParameters managed.action event.detail }
  else managed.action

/-- One event added to an action. -/
structure ActionStep (role : JobRole) (past : ActionPast)
    (before after : ManagedAction) : Prop where
  event : ∃ e : ActionEvent, e.status = after.status ∧
    after.history = before.history ++ [e] ∧
    (proposalAfter before e).SameProposal after.action ∧ EntryBy role past before e
  observedValue : after.observedValue = before.observedValue
  moves : after.status = before.status ∨
    after.status ∈ allowedTransitions before.status
  underWay : role ≠ .worker → ∀ s ∈ [ActionStatus.executing, .executed],
    (after.status = s ↔ before.status = s)
  begun : after.status ∈ [ActionStatus.executing, .executed] →
    after.status = before.status ∨
      role = .worker ∧ HasInHand Executes past before.actionId
  applied : (after.applied = before.applied ∧
      (after.status = .executed → before.status = .executed)) ∨
    (before.status = .executing ∧ after.status = .executed ∧
      ∃ change, after.applied = some change ∧ AppliedAs past before change)
  rolledBack : (after.rolledBack = before.rolledBack ∧
      (after.status = .rolledBack → before.status = .rolledBack)) ∨
    (after.rolledBack.isSome ∧ after.status = .rolledBack)
  failed : before.status = .executing → after.status = .failed →
    FailedFor past before

/-- One write: one event, or a second one right after the change was recorded
or its evaluation began. -/
inductive ActionWrite (role : JobRole) (past : ActionPast)
    (before after : ManagedAction) : Prop
  | one (step : ActionStep role past before after)
  | two {between : ManagedAction} (first : ActionStep role past before between)
      (second : ActionStep role past between after)
      (started : between.status = .waitingForRecrawl ∨
        between.status = .evaluating)

/-! ## Lifecycle -/

/-- The statuses of an action's events. -/
def ManagedAction.statuses (managed : ManagedAction) : List ActionStatus :=
  managed.history.map ActionEvent.status

/-- A status repeated or changed as the state machine allows. -/
def Follows (a b : ActionStatus) : Prop := b = a ∨ b ∈ allowedTransitions a

/-- What holds of every stored action. -/
structure Lifecycle (managed : ManagedAction) : Prop where
  last : managed.statuses.getLast? = some managed.status
  moves : managed.statuses.IsChain Follows
  applied : managed.applied.isSome = true ↔ .executed ∈ managed.statuses
  rolledBack : managed.rolledBack.isSome = true ↔ managed.status = .rolledBack

section Steps
variable {role : JobRole} {past : ActionPast} {b m v : ManagedAction}

theorem ActionStep.statuses (h : ActionStep role past b v) :
    v.statuses = b.statuses ++ [v.status] := by
  obtain ⟨e, he, hh, -⟩ := h.event
  rw [ManagedAction.statuses, hh, List.map_append, List.map_singleton, he]
  rfl

theorem ActionStep.actionId (h : ActionStep role past b v) :
    v.actionId = b.actionId := by
  obtain ⟨e, -, -, hs, -⟩ := h.event
  rw [ManagedAction.actionId, hs.actionId]
  unfold proposalAfter
  split <;> rfl

theorem ActionStep.siteId (h : ActionStep role past b v) : v.siteId = b.siteId := by
  obtain ⟨e, -, -, hs, -⟩ := h.event
  rw [ManagedAction.siteId, hs.siteId]
  unfold proposalAfter
  split <;> rfl

theorem Lifecycle.step (hb : Lifecycle b) (h : ActionStep role past b v) :
    Lifecycle v where
  last := by rw [h.statuses, List.getLast?_concat]
  moves := by
    rw [h.statuses]
    refine List.isChain_append.mpr ⟨hb.moves, .singleton _, fun s hs t ht => ?_⟩
    obtain rfl := Option.some.inj (hb.last.symm.trans hs)
    obtain rfl := Option.mem_some_iff.mp ht
    exact h.moves
  applied := by
    rw [h.statuses, List.mem_append, List.mem_singleton]
    rcases h.applied with ⟨heq, hst⟩ | ⟨-, hst, change, hc, -⟩
    · rw [heq, hb.applied]
      refine ⟨.inl, fun ho => ho.elim id fun he => ?_⟩
      exact List.mem_of_getLast? (hst he.symm ▸ hb.last)
    · rw [hc, hst]
      simp
  rolledBack := by
    rcases h.rolledBack with ⟨heq, hst⟩ | ⟨hsome, hst⟩
    · rw [heq, hb.rolledBack]
      refine ⟨fun hr => ?_, hst⟩
      rcases h.moves with hm | hm
      · rw [hm, hr]
      · rw [hr] at hm
        cases hm
    · simp [hsome, hst]

/-- A write keeps the lifecycle. -/
theorem Lifecycle.write (hb : Lifecycle b) (h : ActionWrite role past b v) :
    Lifecycle v := by
  cases h with
  | one step => exact hb.step step
  | two first second => exact (hb.step first).step second

theorem ActionWrite.actionId (h : ActionWrite role past b v) :
    v.actionId = b.actionId := by
  cases h with
  | one step => exact step.actionId
  | two first second => exact second.actionId.trans first.actionId

theorem ActionWrite.siteId (h : ActionWrite role past b v) :
    v.siteId = b.siteId := by
  cases h with
  | one step => exact step.siteId
  | two first second => exact second.siteId.trans first.siteId

/-- A write only appends to the history. -/
theorem ActionWrite.history (h : ActionWrite role past b v) :
    b.history <+: v.history := by
  have hstep : ∀ {x y : ManagedAction}, ActionStep role past x y →
      x.history <+: y.history := by
    intro x y hxy
    obtain ⟨e, -, hh, -⟩ := hxy.event
    exact hh ▸ List.prefix_append _ _
  cases h with
  | one step => exact hstep step
  | two first second => exact (hstep first).trans (hstep second)

/-- Between a version and what is written from it, every version is being
carried out, or executed, exactly when the first one is, unless a worker
writes. -/
theorem ActionWrite.underWay_between (hrole : role ≠ .worker) {s : ActionStatus}
    (hs : s ∈ [ActionStatus.executing, .executed]) (hb : Lifecycle b) (hm : Lifecycle m) (h : ActionWrite role past b v)
    (hbm : b.history <+: m.history) (hmv : m.history <+: v.history) :
    m.status = s ↔ b.status = s := by
  have hlast : ∀ {x y : ManagedAction}, Lifecycle x → Lifecycle y →
      x.history = y.history → x.status = y.status := by
    intro x y hx hy he
    have := hx.last.symm.trans ((congrArg List.getLast?
      (congrArg (List.map ActionEvent.status) he)).trans hy.last)
    exact Option.some.inj this
  -- A history between one and the same with one more event is one of the two.
  have hstep : ∀ {x y : ManagedAction}, ActionStep role past x y →
      x.history <+: m.history → m.history <+: y.history →
      m.history = x.history ∨ m.history = y.history := by
    intro x y hxy hxm hmy
    obtain ⟨e, -, hh, -⟩ := hxy.event
    have hl₁ := hxm.length_le
    have hl₂ := hmy.length_le
    rw [hh, List.length_append, List.length_singleton] at hl₂
    rcases Nat.lt_or_ge x.history.length m.history.length with hl | hl
    · refine .inr (hmy.eq_of_length_le ?_)
      rwa [hh, List.length_append]
    · exact .inl (hxm.eq_of_length_le hl).symm
  cases h with
  | one step =>
      rcases hstep step hbm hmv with he | he
      · rw [hlast hm hb he]
      · rw [hlast hm (hb.step step) he]
        exact step.underWay hrole s hs
  | @two mid first second =>
      have hmid := hb.step first
      rcases List.prefix_or_prefix_of_prefix hmv
          (ActionWrite.history (.one second)) with hle | hle
      · rcases hstep first hbm hle with he | he
        · rw [hlast hm hb he]
        · rw [hlast hm hmid he]
          exact first.underWay hrole s hs
      · rcases hstep second hle hmv with he | he
        · rw [hlast hm hmid he]
          exact first.underWay hrole s hs
        · rw [hlast hm (hmid.step second) he]
          exact (second.underWay hrole s hs).trans (first.underWay hrole s hs)

end Steps

/-! ## How steps are made -/

section Making
variable {role : JobRole} {past : ActionPast} {b v : ManagedAction}
  {e : ActionEvent} {d : Changes}

/-- An event that leaves the status and the proposal as they are. -/
theorem ActionStep.of_recorded {action : Action} (hst : action.status = b.status)
    (hsame : b.action.SameProposal action) (he : e.status = action.status)
    (hentry : EntryBy role past b e)
    (hv : v = d.on { b with action := action, history := b.history ++ [e] })
    (happlied : d.applied = none) (hrolled : d.rolledBack = none) :
    ActionStep role past b v := by
  subst hv
  have hstatus : (d.on { b with
      action := action, history := b.history ++ [e] }).status = b.status := hst
  refine
    { event := ⟨e, he, rfl, ?_, hentry⟩
      observedValue := rfl
      moves := .inl hstatus
      underWay := fun _ s _ => by rw [hstatus]
      begun := fun _ => .inl hstatus
      applied := .inl ⟨by simp [Changes.on, happlied], hstatus.symm.trans⟩
      rolledBack := .inl ⟨by simp [Changes.on, hrolled], hstatus.symm.trans⟩
      failed := fun h₁ h₂ =>
        absurd (h₁.symm.trans (hstatus.symm.trans h₂)) (by decide) }
  rw [proposalAfter, if_neg]
  · exact hsame
  · rintro ⟨h₁, h₂⟩
    rw [he, hst, h₁] at h₂
    cases h₂

/-- An event that moves the action, not by an approval. -/
theorem ActionStep.of_moved {moved : Action} {target : ActionStatus}
    {reason : String} {detail : Dict}
    (ht : transitionAction b.action target reason detail = .ok moved)
    (he : e.status = moved.status) (hentry : EntryBy role past b e)
    (hv : v = d.on { b with action := moved, history := b.history ++ [e] })
    (happroved : target ≠ .approved)
    (hunder : role ≠ .worker → target ∉ [ActionStatus.executing, .executed] ∧
      b.status ∉ [ActionStatus.executing, .executed])
    (hbegun : target ∈ [ActionStatus.executing, .executed] →
      HasInHand Executes past b.actionId)
    (happlied : (d.applied = none ∧ target ≠ .executed) ∨
      (b.status = .executing ∧ target = .executed ∧
        ∃ change, d.applied = some change ∧ AppliedAs past b change))
    (hrolled : (d.rolledBack = none ∧ target ≠ .rolledBack) ∨
      (d.rolledBack.isSome ∧ target = .rolledBack))
    (hfailed : b.status = .executing → target = .failed → FailedFor past b) :
    ActionStep role past b v := by
  obtain ⟨hmoved, hmem, hsame⟩ := transitionAction_ok ht
  subst hv
  have hstatus : (d.on { b with
      action := moved, history := b.history ++ [e] }).status = target := hmoved
  refine
    { event := ⟨e, he, rfl, ?_, hentry⟩
      observedValue := rfl
      moves := .inr (hstatus ▸ hmem)
      underWay := fun hr s hs => ?_
      begun := fun h => .inr ⟨by_contra fun hr => (hunder hr).1 (hstatus ▸ h),
        hbegun (hstatus ▸ h)⟩
      applied := ?_
      rolledBack := ?_
      failed := fun h₁ h₂ => hfailed h₁ (hstatus.symm.trans h₂) }
  · rw [proposalAfter, if_neg]
    · exact hsame
    · rintro ⟨-, h₂⟩
      exact happroved (hmoved.symm.trans (he.symm.trans h₂))
  · rw [hstatus]
    exact iff_of_false (fun h => (hunder hr).1 (h ▸ hs))
      fun h => (hunder hr).2 (h ▸ hs)
  · rcases happlied with ⟨hnone, hne⟩ | ⟨hb, ht, change, hc, has⟩
    · refine .inl ⟨by simp [Changes.on, hnone], fun h => ?_⟩
      exact absurd (hstatus.symm.trans h) hne
    · exact .inr ⟨hb, hstatus.trans ht, change, by simp [Changes.on, hc], has⟩
  · rcases hrolled with ⟨hnone, hne⟩ | ⟨hsome, ht⟩
    · refine .inl ⟨by simp [Changes.on, hnone], fun h => ?_⟩
      exact absurd (hstatus.symm.trans h) hne
    · refine .inr ⟨?_, hstatus.trans ht⟩
      obtain ⟨change, hc⟩ := Option.isSome_iff_exists.mp hsome
      simp [Changes.on, hc]

/-- A move that neither begins nor undoes anything: it is made after the change
was applied. -/
theorem ActionStep.of_later {moved : Action} {target : ActionStatus}
    {reason : String} {detail : Dict}
    (ht : transitionAction b.action target reason detail = .ok moved)
    (he : e.status = moved.status) (hentry : EntryBy role past b e)
    (hv : v = d.on { b with action := moved, history := b.history ++ [e] })
    (htarget : target ∉ [ActionStatus.approved, .executing, .executed, .rolledBack])
    (hb : b.status ≠ .executing) (hrole : role ≠ .worker → b.status ≠ .executed)
    (happlied : d.applied = none) (hrolled : d.rolledBack = none) :
    ActionStep role past b v := by
  simp only [List.mem_cons, List.not_mem_nil, or_false, not_or] at htarget
  obtain ⟨h₁, h₂, h₃, h₄⟩ := htarget
  refine .of_moved ht he hentry hv h₁ (fun hr => ⟨?_, ?_⟩) (fun h => ?_)
    (.inl ⟨happlied, h₃⟩) (.inl ⟨hrolled, h₄⟩) fun h => absurd h hb
  · simp [h₂, h₃]
  · simp [hb, hrole hr]
  · simp [h₂, h₃] at h

/-- An approval. -/
theorem ActionStep.of_approve {at_ : Int} {actor : String}
    {title note : Option String} (h : approve b at_ actor title note = .ok v) :
    ActionStep role past b v := by
  obtain ⟨hb, hv, e, he, hr, heq, hsame⟩ := approve_ok h
  refine
    { event := ⟨e, he.trans hv.symm, by rw [heq], ?_, .of_unmarked hr (by decide)⟩
      observedValue := by rw [heq]
      moves := .inr (by rw [hv, hb]; decide)
      underWay := fun _ s hs => by rw [hv, hb]; revert hs; cases s <;> decide
      begun := fun h => by rw [hv] at h; simp at h
      applied := .inl ⟨by rw [heq], by rw [hv]; nofun⟩
      rolledBack := .inl ⟨by rw [heq], by rw [hv]; nofun⟩
      failed := fun h₁ => by rw [hb] at h₁; cases h₁ }
  rw [proposalAfter, if_pos ⟨hb, he⟩]
  exact hsame

/-- A rejection. -/
theorem ActionStep.of_reject {at_ : Int} {actor : String}
    {reason : Option String} (h : reject b at_ actor reason = .ok v) :
    ActionStep role past b v := by
  obtain ⟨hb, hv, hsame, e, he, hr, heq⟩ := reject_ok h
  have hne : b.status ∉ [ActionStatus.executing, .executed] := by
    rcases hb with hb | hb <;> rw [hb] <;> decide
  refine
    { event := ⟨e, he.trans hv.symm, by rw [heq], ?_, .of_unmarked hr (by decide)⟩
      observedValue := by rw [heq]
      moves := .inr (by rw [hv]; rcases hb with hb | hb <;> rw [hb] <;> decide)
      underWay := fun _ s hs => by
        rw [hv]
        refine iff_of_false (fun h => ?_) fun h => hne (h ▸ hs)
        rw [← h] at hs
        simp at hs
      begun := fun h => by rw [hv] at h; simp at h
      applied := .inl ⟨by rw [heq], by rw [hv]; nofun⟩
      rolledBack := .inl ⟨by rw [heq], by rw [hv]; nofun⟩
      failed := fun h₁ => absurd (by simp [h₁]) hne }
  rw [proposalAfter, if_neg]
  · exact hsame
  · rintro ⟨-, h₂⟩
    rw [he] at h₂
    cases h₂

/-- Reading a page back after it was written. -/
theorem ActionStep.of_verified {page : SitePage} {action : Action}
    {verification : VerificationResult} {detail : Dict}
    (hver : verified b page = .ok (action, verification, detail, d))
    (hb : b.status = .waitingForRecrawl) (he : e.status = action.status)
    (hr : e.reason = s!"verification_{verification.status.value}")
    (hv : v = d.on { b with action := action, history := b.history ++ [e] }) :
    ActionStep role past b v := by
  obtain ⟨field, -, hver⟩ := bind_eq_ok.mp hver
  obtain ⟨target, -, hver⟩ := bind_eq_ok.mp hver
  obtain ⟨result, -, hver⟩ := bind_eq_ok.mp hver
  obtain ⟨action', hact, hver⟩ := bind_eq_ok.mp hver
  obtain ⟨rfl, -, -, hch⟩ : action' = action ∧ result = verification ∧ _ ∧
      (if action'.status = .failed then setError _ else clearError) = d := by
    simpa only [Prod.mk.injEq] using Except.ok.inj hver
  have hnone : d.applied = none ∧ d.rolledBack = none := by
    rw [← hch]
    split <;> exact ⟨rfl, rfl⟩
  have hentry : EntryBy role past b e :=
    .of_unmarked hr (by cases verification.status <;> decide)
  have hne : b.status ≠ .executing ∧ b.status ≠ .executed := by
    rw [hb]
    decide
  unfold applyVerification at hact
  split at hact
  · cases hact
  · split at hact
    · exact .of_later hact he hentry hv (by decide) hne.1 (fun _ => hne.2) hnone.1
        hnone.2
    · exact .of_later hact he hentry hv (by decide) hne.1 (fun _ => hne.2) hnone.1
        hnone.2
    · have haction := Except.ok.inj hact
      refine .of_recorded ?_ ?_ he hentry hv hnone.1 hnone.2
      · rw [← haction]; rfl
      · rw [← haction]; exact ⟨rfl, rfl, rfl, rfl, rfl⟩

/-- Settling an action that was measured. -/
theorem ActionWrite.of_settlement {outcome : Outcome} {t₁ t₂ : Int}
    (h : applySettlement b outcome t₁ t₂ = .ok v) :
    ActionWrite .measurement past b v := by
  obtain ⟨m, hm, h⟩ := bind_eq_ok.mp h
  obtain ⟨settled, hs, h⟩ := bind_eq_ok.mp h
  obtain ⟨e, he, hr, -, hv⟩ := record_ok h
  have hlast : m.status = .evaluating ∧ ActionStep .measurement past m v := by
    unfold applyOutcome at hs
    split at hs
    · cases hs
    · next hst =>
        have hev : m.status = .evaluating := Decidable.not_not.mp hst
        split at hs
        · cases hs
        · have hentry : EntryBy .measurement past m e := by
            unfold EntryBy
            rw [hr, he, (transitionAction_ok hs).1]
            cases outcome.status <;> exact ⟨rfl, hev, by decide⟩
          refine ⟨hev, .of_later (d := {}) hs he hentry hv ?_ ?_ (fun _ => ?_) rfl rfl⟩
          · cases outcome.status <;> decide
          · rw [hev]; decide
          · rw [hev]; decide
  unfold evaluating at hm
  split at hm
  · next hst =>
      obtain ⟨action, ha, hm⟩ := bind_eq_ok.mp hm
      obtain ⟨e', he', hr', -, hm'⟩ := record_ok hm
      refine .two ?_ hlast.2 (.inr hlast.1)
      unfold markEvaluating at ha
      split at ha
      · cases ha
      · refine .of_later (d := {}) ha he' (.of_unmarked hr' (by decide)) hm'
          (by decide) ?_ (fun _ => ?_) rfl rfl
        · rw [hst]; decide
        · rw [hst]; decide
  · cases hm
    exact .one hlast.2

end Making

end SeoAgent.Ports
