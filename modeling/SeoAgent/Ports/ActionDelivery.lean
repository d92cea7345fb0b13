import SeoAgent.Ports.ActionSteps

/-!
# What the executor asks for

The contract of the action processes and the proof that the two handlers keep
it: every write of an action is a step from the version last seen, the site is
written only for an action seen under way right after its page was read, and a
delivery that returns has seen its action past being carried out, or found a
manual site.

`Quiet` and `Aside` say what a part of a handler leaves as it was seen.

## Main results

* `executeActionHandler_wp`, `rollbackActionHandler_wp` — the handlers keep the
  contract of a worker.
-/

namespace SeoAgent.Ports

open Verified
open Service (Op iface)

/-! ## The contract -/

/-- A write of the page by the execute handler. -/
structure ExecuteWrite (past : ActionPast) (write : SiteWrite)
    (managed : ManagedAction) (version : Nat) (page : SitePage) : Prop where
  seen : seen .managedAction managed.actionId past = some (managed, version)
  underWay : managed.status = .executing
  siteId : write.siteId = managed.siteId
  url : write.url = managed.action.normalizedUrl
  key : write.key = executeKey managed.actionId
  about : fieldOf managed.action = .ok write.field
  target : write.field.recommended managed.action = .ok write.value
  read : past.head? = some ⟨.ext (.readPage write.siteId write.url), .ok page⟩
  unchanged : pageChanged write.field page write.value managed.observedValue = false
  capable : ∃ adapter, lastAdapter past = some ⟨managed.siteId, adapter⟩ ∧
    adapter.manualApply = false ∧ missingCapabilities managed.action adapter = []
  inHand : HasInHand Executes past managed.actionId

/-- A change of the page by the rollback handler. -/
structure UndoWrite (past : ActionPast) (siteId url key : String)
    (managed : ManagedAction) (version : Nat) : Prop where
  seen : seen .managedAction managed.actionId past = some (managed, version)
  applied : managed.applied.isSome = true
  siteId : siteId = managed.siteId
  url : url = managed.action.normalizedUrl
  key : key = rollbackKey managed.actionId
  inHand : HasInHand Undoes past managed.actionId

/-- The entries one write adds to a history. -/
def addedEntries (before after : ManagedAction) : List ActionEvent :=
  after.history.drop before.history.length

/-- A rollback has been asked for. -/
def Asked (managed : ManagedAction) : Prop :=
  ∃ e ∈ managed.history, entryMark e.reason = some .asked

/-- A job made together with a write of its action. -/
structure JobBeside (managed : ManagedAction) (job : Job) : Prop where
  fresh : job.status = .queued
  untried : job.attemptCount = 0
  what : Executes job managed.actionId ∨
    Undoes job managed.actionId ∧ rollbackPending managed = true

/-- The last entry about a rollback. -/
def lastRollbackMark (history : List ActionEvent) : Option EntryMark :=
  history.reverse.findSome? fun e => (entryMark e.reason).filter (· ≠ .settled)

/-- A rollback was asked for and no delivery has recorded how it went. -/
def rollbackOwed (managed : ManagedAction) : Bool :=
  managed.rolledBack.isNone && lastRollbackMark managed.history = some .asked

/-- The adapter of a manual site was built for an action found under way: such a
delivery is skipped. -/
def FoundUnderWay (past : ActionPast) (actionId : String) : Prop :=
  ∃ managed n adapter rest,
    (⟨.ext (.buildAdapter managed.siteId), .ok adapter⟩ :: rest) <:+ past ∧
    seen .managedAction actionId rest = some (managed, n) ∧
    managed.status = .executing ∧ adapter.manualApply = true

/-- What a delivery of an execute job that ends well has seen: its action is
neither being carried out nor waits for its check, or the delivery was
skipped. -/
def Carried (past : ActionPast) (actionId : String) : Prop :=
  (∃ managed n, seen .managedAction actionId past = some (managed, n) ∧
    managed.status ∉ [ActionStatus.executing, .executed]) ∨
  FoundUnderWay past actionId

/-- What a delivery of a rollback job that ends well has seen: how the rollback
went is recorded. -/
def Undone (past : ActionPast) (actionId : String) : Prop :=
  ∃ managed n, seen .managedAction actionId past = some (managed, n) ∧
    rollbackOwed managed = false

/-- A job has done what it is for. -/
structure Finished (past : ActionPast) (job : Job) : Prop where
  carried : ∀ actionId, Executes job actionId → Carried past actionId
  undone : ∀ actionId, Undoes job actionId → Undone past actionId

/-- The writes of a transaction. -/
abbrev Writes : Type :=
  List (Repository.Write AggregateType AggregateType.Payload)

/-- An action is replaced as `ManagedActionStore.update` does: over the version
`current` it has just found, by what is written from `basis`. -/
structure Replacing (role : JobRole) (past rest : ActionPast)
    (basis current managed : ManagedAction) (version : Nat) : Prop where
  found : past =
    ⟨.find .managedAction managed.actionId, .ok (some (current, version))⟩ :: rest
  seen : ∃ n, seen .managedAction managed.actionId rest = some (basis, n)
  extended : current.history <+: managed.history
  write : ActionWrite role rest basis managed

/-- The commits of the action processes. -/
inductive ActionCommit (role : JobRole) (past : ActionPast) : Writes → Prop
  | propose {managed : ManagedAction} (status : managed.status = .awaitingApproval)
      (history : managed.statuses = [.awaitingApproval])
      (unmarked : ∀ e ∈ managed.history, entryMark e.reason = none)
      (applied : managed.applied = none) (rolledBack : managed.rolledBack = none) :
      ActionCommit role past [.create .managedAction managed.actionId managed]
  | update {rest : ActionPast} {basis current managed : ManagedAction} {version : Nat}
      (moves : role ≠ .measurement)
      (replacing : Replacing role past rest basis current managed version)
      (unasked : ∀ e ∈ addedEntries basis managed, entryMark e.reason ≠ some .asked) :
      ActionCommit role past
        [.replace .managedAction managed.actionId managed version]
  | updateWithJob {rest : ActionPast} {basis current managed : ManagedAction}
      {version : Nat} {job : Job} (asks : role = .request)
      (replacing : Replacing role past rest basis current managed version)
      (beside : JobBeside managed job)
      (asked : ∀ e ∈ addedEntries basis managed,
        entryMark e.reason = some .asked → Undoes job managed.actionId) :
      ActionCommit role past
        [.replace .managedAction managed.actionId managed version,
          .create .job job.jobId job]
  | settle {rest : ActionPast} {basis current managed : ManagedAction} {version : Nat}
      {outcome : Outcome} {t₁ t₂ : Int} {ws : Writes} (measures : role = .measurement)
      (replacing : Replacing role past rest basis current managed version)
      (settles : applySettlement basis outcome t₁ t₂ = .ok managed)
      (free : rollbackPending basis = false)
      (feedback : feedbackWrites basis managed outcome = .ok ws) :
      ActionCommit role past
        (.ensure .actionOutcome basis.actionId outcome ::
          .replace .managedAction managed.actionId managed version :: ws)
  | job {ws : Writes} (write : JobWrite (completing Finished) role past ws)
      (updates : ∀ job : Job, ws ≠ [.create .job job.jobId job]) :
      ActionCommit role past ws

/-- What a process of a role may ask for. -/
def actionPermits (role : JobRole) (past : ActionPast) :
    Op backend actionSite → Prop
  | .commit ws => ActionCommit role past ws
  | .ext (.write siteId url field value key) =>
      role = .worker ∧
        ((∃ managed n page,
          ExecuteWrite past ⟨siteId, url, field, value, key⟩ managed n page) ∨
        ∃ managed n, UndoWrite past siteId url key managed n)
  | .ext (.rollbackChange siteId url _ key) =>
      role = .worker ∧ ∃ managed n, UndoWrite past siteId url key managed n
  | _ => True

/-- The contract of a role; records are stored under their own ids. -/
@[reducible] def actionContract (role : JobRole) :
    Prog.Contract (iface backend actionSite) where
  permits past o := actionPermits role past o ∧
    Service.writesValid storedUnderItsId o
  trusts := Service.readsValid storedUnderItsId

/-! ## What an operation leaves as it was seen -/

/-- What a process knows beside its action. -/
structure Aside (past past' : ActionPast) : Prop where
  adapter : lastAdapter past' = lastAdapter past
  page : lastPage past' = lastPage past
  written : lastWritten past' = lastWritten past
  hand : inHand past' = inHand past
  jobs : ∀ i, seen .job i past' = seen .job i past

/-- Everything a process knows of the records and the site. -/
structure Quiet (past past' : ActionPast) : Prop extends Aside past past' where
  actions : ∀ i, seen .managedAction i past' = seen .managedAction i past

section Frames
variable {past past' past'' : ActionPast}

theorem Aside.refl (past : ActionPast) : Aside past past :=
  ⟨rfl, rfl, rfl, rfl, fun _ => rfl⟩

theorem Aside.trans (h₁ : Aside past past') (h₂ : Aside past' past'') :
    Aside past past'' :=
  ⟨h₂.1.trans h₁.1, h₂.2.trans h₁.2, h₂.3.trans h₁.3, h₂.4.trans h₁.4,
    fun i => (h₂.5 i).trans (h₁.5 i)⟩

theorem Quiet.refl (past : ActionPast) : Quiet past past :=
  ⟨.refl past, fun _ => rfl⟩

theorem Quiet.trans (h₁ : Quiet past past') (h₂ : Quiet past' past'') :
    Quiet past past'' :=
  ⟨h₁.toAside.trans h₂.toAside, fun i => (h₂.2 i).trans (h₁.2 i)⟩

theorem Quiet.now (r : Except Exc Int) : Quiet past (⟨.now, r⟩ :: past) := by
  cases r <;> exact ⟨⟨rfl, rfl, rfl, rfl, fun _ => rfl⟩, fun _ => rfl⟩

theorem Aside.find (i : String) (r : Except Exc (Option (ManagedAction × Nat))) :
    Aside past (⟨.find .managedAction i, r⟩ :: past) := by
  refine ⟨by cases r <;> rfl, by cases r <;> rfl, by cases r <;> rfl,
    by cases r <;> rfl, fun j => ?_⟩
  cases r with
  | error e => rfl
  | ok x => exact seen_find_of_ne (u := .managedAction) x nofun

theorem Aside.replace (i : String) (managed : ManagedAction) (n : Nat)
    (r : Except Exc Unit) :
    Aside past (⟨.commit [.replace .managedAction i managed n], r⟩ :: past) := by
  refine ⟨by cases r <;> rfl, by cases r <;> rfl, by cases r <;> rfl,
    by cases r <;> rfl, fun j => seen_commit_of_ne fun w hw => ?_⟩
  obtain rfl := List.mem_singleton.mp hw
  nofun

theorem Aside.holding (h : Aside past past') {running : Job} {n : Nat}
    (hh : Holding running n past) : Holding running n past' :=
  ⟨(h.jobs _).trans hh.1, h.hand.trans hh.2⟩

theorem AppliedAs.aside {managed : ManagedAction} {change : AppliedChange}
    (h : Aside past past') (ha : AppliedAs past managed change) :
    AppliedAs past' managed change := by
  cases ha with
  | byCustomer adapter built manual field about target previous =>
      exact .byCustomer adapter (h.adapter.trans built) manual field about target
        previous
  | written adapter built automatic field about target page read result wrote
      accepted previous =>
      exact .written adapter (h.adapter.trans built) automatic field about target
        page (h.page.trans read) result (h.written.trans wrote) accepted previous

theorem FailedFor.aside {managed : ManagedAction} (h : Aside past past')
    (hf : FailedFor past managed) : FailedFor past' managed := by
  cases hf with
  | cannotApply adapter built missing =>
      exact .cannotApply adapter (h.adapter.trans built) missing
  | pageChanged field about target is_target page read changed =>
      exact .pageChanged field about target is_target page (h.page.trans read)
        changed
  | refused write result wrote key refused =>
      exact .refused write result (h.written.trans wrote) key refused

end Frames

/-! ## Recording and storing -/

section Store
variable {role : JobRole} {α : Type} {past : ActionPast}
  {Q : ActionPast → Except Exc α → Prop} {b v : ManagedAction} {k : Nat}

/-- Recording an event reads the clock. -/
theorem recorded_bind {action : Action} {actor reason : String} {detail : Dict}
    {d : Changes} {f : ManagedAction → ActionProc α}
    (hok : ∀ (t : Int) (e : ActionEvent) (v : ManagedAction),
      e.status = action.status → e.reason = reason →
      v = d.on { b with action := action, history := b.history ++ [e] } →
        Prog.wp (actionContract role) Q (f v) (⟨.now, .ok t⟩ :: past))
    (herr : ∀ past' e, Quiet past past' → Q past' (.error e)) :
    Prog.wp (actionContract role) Q
      (recorded b action actor reason detail d >>= f) past := by
  rw [Prog.wp_bind]
  refine now_bind ⟨trivial, trivial⟩ (fun t => ?_) fun e => herr _ e (.now _)
  refine Prog.wp_ofExcept_bind (fun n hn => ?_) fun e _ => herr _ e (.now _)
  obtain ⟨e, he, hr, -, rfl⟩ := record_ok hn
  exact hok t e _ he hr rfl

/-- A move reads the clock, after the transition was found to be allowed. -/
theorem move_bind {target : ActionStatus} {reason : String} {detail : Dict}
    {d : Changes} {f : ManagedAction → ActionProc α}
    (hok : ∀ (t : Int) (moved : Action) (e : ActionEvent) (v : ManagedAction),
      transitionAction b.action target reason detail = .ok moved →
      e.status = moved.status → e.reason = reason →
      v = d.on { b with action := moved, history := b.history ++ [e] } →
        Prog.wp (actionContract role) Q (f v) (⟨.now, .ok t⟩ :: past))
    (herr : ∀ past' e, Quiet past past' → Q past' (.error e)) :
    Prog.wp (actionContract role) Q (move b target reason detail d >>= f) past := by
  rw [Prog.wp_bind]
  refine Prog.wp_ofExcept_bind (fun moved hm => ?_) fun e _ => herr _ e (.refl _)
  exact (Prog.wp_bind _ _).mp
    (recorded_bind (fun t e v he hr hv => hok t moved e v hm he hr hv) herr)

/-- `ManagedActionStore.update` in a transaction that is permitted. -/
theorem updateWith_wp {ws : Writes} {ws' : Except Exc Writes}
    {Q : ActionPast → Except Exc ManagedAction → Prop}
    (hperm : ∀ after current n, ws' = .ok after → current.history <+: v.history →
      ActionCommit role
        (⟨.find .managedAction v.actionId, .ok (some (current, n))⟩ :: past)
        (ws ++ .replace .managedAction v.actionId v n :: after))
    (hvalid : ∀ after, ws' = .ok after →
      ∀ w ∈ ws ++ after, w.Carries storedUnderItsId)
    (hfound : ∀ x e,
      Q (⟨.find .managedAction v.actionId, x⟩ :: past) (.error e))
    (hdone : ∀ after current n r, ws' = .ok after →
      Q (⟨.commit (ws ++ .replace .managedAction v.actionId v n :: after), r⟩ ::
          ⟨.find .managedAction v.actionId, .ok (some (current, n))⟩ :: past)
        (r.map fun _ => v)) :
    Prog.wp (actionContract role) Q (ActionStore.updateWith ws v ws') past := by
  refine find_bind ⟨trivial, trivial⟩ (fun current n _ => ?_) (hfound _ _)
    fun e => hfound _ e
  dsimp only
  split
  case isFalse => exact hfound _ _
  next hext =>
  refine Prog.wp_ofExcept_bind (fun after hafter => ?_) fun e _ => hfound _ e
  refine commit_bind ⟨hperm after current n hafter (ActionStore.extendsStored_iff.mp hext),
      fun w hmem => ?_⟩
    (hdone after current n (.ok ()) hafter)
    fun e => hdone after current n (.error e) hafter
  rcases List.mem_append.mp hmem with hmem | hmem
  · exact hvalid after hafter w (List.mem_append_left _ hmem)
  · rcases List.mem_cons.mp hmem with rfl | hmem
    · rfl
    · exact hvalid after hafter w (List.mem_append_right _ hmem)

/-- Who adds an entry is known of every entry a write adds. -/
theorem ActionWrite.entries (hw : ActionWrite role past b v) :
    ∀ e ∈ addedEntries b v, ∃ x : ManagedAction, x.actionId = b.actionId ∧
      EntryBy role past x e := by
  unfold addedEntries
  cases hw with
  | one step =>
      obtain ⟨e, -, hh, -, hby⟩ := step.event
      intro e' he'
      rw [hh, List.drop_left] at he'
      rw [List.mem_singleton.mp he']
      exact ⟨b, rfl, hby⟩
  | two first second =>
      obtain ⟨e₁, -, hh₁, -, hby₁⟩ := first.event
      obtain ⟨e₂, -, hh₂, -, hby₂⟩ := second.event
      intro e' he'
      rw [hh₂, hh₁, List.append_assoc, List.drop_left] at he'
      rcases List.mem_cons.mp he' with rfl | he'
      · exact ⟨b, rfl, hby₁⟩
      · rw [List.mem_singleton.mp he']
        exact ⟨_, first.actionId, hby₂⟩

/-- Only a request asks for a rollback. -/
theorem ActionWrite.unasked (hw : ActionWrite role past b v) (hr : role ≠ .request) :
    ∀ e ∈ addedEntries b v, entryMark e.reason ≠ some .asked := by
  intro e he hm
  obtain ⟨x, -, hby⟩ := hw.entries e he
  exact hr (hby.of_asked hm)

/-- Only a worker that has a job that undoes the action in hand records that the
rollback gave up. -/
theorem ActionWrite.gaveUp (hw : ActionWrite role past b v) {e : ActionEvent}
    (he : e ∈ addedEntries b v) (hm : entryMark e.reason = some .gaveUp) :
    role = .worker ∧ HasInHand Undoes past b.actionId := by
  obtain ⟨x, hid, hby⟩ := hw.entries e he
  exact hid ▸ hby.of_gaveUp hm

/-- Only a measurement round records a settlement. -/
theorem ActionWrite.settled (hw : ActionWrite role past b v) {e : ActionEvent}
    (he : e ∈ addedEntries b v) (hm : entryMark e.reason = some .settled) :
    role = .measurement := by
  obtain ⟨x, -, hby⟩ := hw.entries e he
  exact (hby.of_settled hm).1

/-- `ManagedActionStore.update`: a step from what was seen. -/
theorem actionUpdate_wp {Q : ActionPast → Except Exc ManagedAction → Prop}
    (hs : seen .managedAction b.actionId past = some (b, k))
    (hw : ActionWrite role past b v) (hrole : role ≠ .measurement)
    (hunasked : ∀ e ∈ addedEntries b v, entryMark e.reason ≠ some .asked)
    (hok : ∀ past' n, Aside past past' →
      seen .managedAction v.actionId past' = some (v, n) → Q past' (.ok v))
    (herr : ∀ past' e, Aside past past' → Q past' (.error e)) :
    Prog.wp (actionContract role) Q (ActionStore.update v) past := by
  refine updateWith_wp ?_ ?_ (fun x e => herr _ e (.find _ x)) ?_
  · rintro after current n ⟨⟩ hext
    exact .update hrole ⟨rfl, ⟨k, hw.actionId ▸ hs⟩, hext, hw⟩ hunasked
  · rintro after ⟨⟩ w hw
    cases hw
  · rintro after current n r ⟨⟩
    have haside := (@Aside.find past v.actionId (.ok (some (current, n)))).trans
      (.replace v.actionId v n r)
    cases r with
    | error e => exact herr _ e haside
    | ok u => exact hok _ (n + 1) haside (seen_replace (t := .managedAction) v n)

/-- `ManagedActionStore.update`, by a worker. -/
theorem workerUpdate_wp {Q : ActionPast → Except Exc ManagedAction → Prop}
    (hs : seen .managedAction b.actionId past = some (b, k))
    (hw : ActionWrite .worker past b v)
    (hok : ∀ past' n, Aside past past' →
      seen .managedAction v.actionId past' = some (v, n) → Q past' (.ok v))
    (herr : ∀ past' e, Aside past past' → Q past' (.error e)) :
    Prog.wp (actionContract .worker) Q (ActionStore.update v) past :=
  actionUpdate_wp hs hw nofun (hw.unasked nofun) hok herr

theorem update_bind {f : ManagedAction → ActionProc α}
    (hs : seen .managedAction b.actionId past = some (b, k))
    (hw : ActionWrite .worker past b v)
    (hok : ∀ past' n, Aside past past' →
      seen .managedAction v.actionId past' = some (v, n) →
        Prog.wp (actionContract .worker) Q (f v) past')
    (herr : ∀ past' e, Aside past past' → Q past' (.error e)) :
    Prog.wp (actionContract .worker) Q (ActionStore.update v >>= f) past :=
  (Prog.wp_bind _ _).mpr (workerUpdate_wp hs hw hok herr)

/-- `ManagedActionStore.get` leaves the action seen under its id. -/
theorem get_bind {actionId : String} {f : ManagedAction → ActionProc α}
    (hok : ∀ (m : ManagedAction) (n : Nat), m.actionId = actionId →
      Prog.wp (actionContract role) Q (f m)
        (⟨.find .managedAction actionId, .ok (some (m, n))⟩ :: past))
    (herr : ∀ x e, Q (⟨.find .managedAction actionId, x⟩ :: past) (.error e)) :
    Prog.wp (actionContract role) Q (ActionStore.get actionId >>= f) past := by
  rw [Prog.wp_bind]
  exact find_bind ⟨trivial, trivial⟩ (fun m n hm => hok m n hm) (herr _ _)
    fun e => herr _ e

/-- `_note_error` raises nothing and writes an event of the status it finds. -/
theorem noteError_wp {actionId reason : String} {exc : Exc}
    (hreason : entryMark reason = none) :
    Prog.wp (actionContract .worker) (fun past' r => Aside past past' ∧ r = .ok ())
      (noteError actionId reason exc) past := by
  unfold noteError
  rw [Prog.wp_tryCatch]
  refine get_bind (fun m n hm => ?_) fun x e => ⟨.find _ x, rfl⟩
  have hfind : Aside past (⟨.find .managedAction actionId, .ok (some (m, n))⟩ :: past) :=
    .find _ _
  refine recorded_bind (fun t e v he hr hv => ?_)
    fun past' e hq => ⟨hfind.trans hq.toAside, rfl⟩
  have hseen : seen .managedAction m.actionId (⟨.now, .ok t⟩ ::
      ⟨.find .managedAction actionId, .ok (some (m, n))⟩ :: past) = some (m, n) := by
    rw [hm]
    exact seen_find (t := .managedAction) (some (m, n))
  have haside := hfind.trans (Quiet.now (.ok t)).toAside
  exact update_bind hseen
    (.one (.of_recorded rfl (.refl _) he (.of_unmarked hr hreason) hv rfl rfl))
    (fun past' n' hq _ => ⟨haside.trans hq, rfl⟩)
    fun past' e hq => ⟨haside.trans hq, rfl⟩

/-- A guarded part: an exception of it is noted and raised again. -/
theorem noting_wp {actionId reason : String} {p : ActionProc α}
    {Q' : ActionPast → Except Exc α → Prop} (hreason : entryMark reason = none)
    (hp : Prog.wp (actionContract .worker) Q p past)
    (hok : ∀ past' a, Q past' (.ok a) → Q' past' (.ok a))
    (herr : ∀ past' past'' e, Q past' (.error e) → Aside past' past'' →
      Q' past'' (.error e)) :
    Prog.wp (actionContract .worker) Q' (noting actionId reason p) past := by
  refine Prog.wp_try hp (fun past' a _ h => hok past' a h) fun past' e _ h => ?_
  refine Prog.wp_seq (noteError_wp hreason) (fun past'' u _ hq => ?_) fun past'' e' _ hq => ?_
  · exact herr past' past'' e h hq.1
  · exact absurd hq.2 nofun

end Store

/-! ## Carrying out -/

/-- A delivery has its job in hand and the adapter of a site built. -/
structure Doing (running : Job) (n : Nat) (siteId : String) (adapter : Adapter)
    (past : ActionPast) : Prop where
  holding : Holding running n past
  adapter : lastAdapter past = some ⟨siteId, adapter⟩

/-- How a part of a delivery ends: still in hand, and past carrying out the
action when it returned. -/
structure Delivers {α : Type} (running : Job) (n : Nat) (actionId : String)
    (past : ActionPast) (r : Except Exc α) : Prop where
  holding : Holding running n past
  carried : ∀ a, r = .ok a → Carried past actionId

section Delivery
variable {running : Job} {n : Nat} {siteId : String} {adapter : Adapter}
  {past past' : ActionPast}
  {m v : ManagedAction} {k : Nat}

theorem Doing.aside (hd : Doing running n siteId adapter past) (h : Aside past past') :
    Doing running n siteId adapter past' :=
  ⟨h.holding hd.holding, h.adapter.trans hd.adapter⟩

theorem Doing.readPage (hd : Doing running n siteId adapter past) (site url : String)
    (r : Except Exc SitePage) :
    Doing running n siteId adapter (⟨.ext (.readPage site url), r⟩ :: past) := by
  cases r <;> exact ⟨⟨hd.holding.1, hd.holding.2⟩, hd.adapter⟩

theorem Doing.write (hd : Doing running n siteId adapter past) (site url : String)
    (field : PageField) (value key : String) (r : Except Exc OperationResult) :
    Doing running n siteId adapter
      (⟨.ext (.write site url field value key), r⟩ :: past) := by
  cases r <;> exact ⟨⟨hd.holding.1, hd.holding.2⟩, hd.adapter⟩

theorem Doing.rollbackChange (hd : Doing running n siteId adapter past)
    (site url changeId key : String) (r : Except Exc OperationResult) :
    Doing running n siteId adapter
      (⟨.ext (.rollbackChange site url changeId key), r⟩ :: past) := by
  cases r <;> exact ⟨⟨hd.holding.1, hd.holding.2⟩, hd.adapter⟩

theorem Delivers.failed {α : Type} {exc : Exc} {actionId : String}
    (hd : Doing running n siteId adapter past) :
    Delivers running n actionId past (.error exc : Except Exc α) :=
  ⟨hd.holding, nofun⟩

/-- The last update of a part: of a version past being carried out. -/
theorem last_update_wp (hd : Doing running n m.siteId adapter past)
    (hs : seen .managedAction m.actionId past = some (m, k))
    (hw : ActionWrite .worker past m v)
    (hv : v.status ∉ [ActionStatus.executing, .executed]) :
    Prog.wp (actionContract .worker) (Delivers running n m.actionId)
      (ActionStore.update v) past :=
  workerUpdate_wp hs hw (fun _ j h hseen =>
      ⟨(hd.aside h).holding, fun _ _ => .inl ⟨v, j, hw.actionId ▸ hseen, hv⟩⟩)
    fun _ _ h => .failed (hd.aside h)

/-- Fails an action under way, for a reason the delivery was given. -/
theorem failAction_wp {reason error : String} {detail : Dict}
    (hreason : entryMark reason = none) (hd : Doing running n m.siteId adapter past)
    (hs : seen .managedAction m.actionId past = some (m, k))
    (hf : FailedFor past m) :
    Prog.wp (actionContract .worker) (Delivers running n m.actionId)
      (failAction m reason detail error) past := by
  refine move_bind (fun t moved e v ht he hr hv => ?_)
    fun past' e h => .failed (hd.aside h.toAside)
  have hquiet := @Quiet.now past (.ok t)
  have hstep : ActionStep .worker (⟨.now, .ok t⟩ :: past) m v :=
    .of_moved ht he (.of_unmarked hr hreason) hv (by decide) (absurd rfl)
      (fun h => absurd h (by decide)) (.inl ⟨rfl, by decide⟩)
      (.inl ⟨rfl, by decide⟩) fun _ _ => hf.aside hquiet.toAside
  have hfailed : v.status = .failed := hv ▸ (transitionAction_ok ht).1
  exact last_update_wp (hd.aside hquiet.toAside) ((hquiet.actions _).trans hs)
    (.one hstep) (by rw [hfailed]; decide)

/-- Reading an executed action's page back, and storing what it showed. -/
theorem verifyAndUpdate_wp (hd : Doing running n m.siteId adapter past)
    (hs : seen .managedAction m.actionId past = some (m, k))
    (hm : m.status = .executed) :
    Prog.wp (actionContract .worker) (Delivers running n m.actionId)
      (verifyAndUpdate m) past := by
  unfold verifyAndUpdate
  rw [Prog.wp_bind]
  refine move_bind (fun t moved e waiting ht he hr hw => ?_)
    fun past' e h => .failed (hd.aside h.toAside)
  have hd₁ : Doing running n m.siteId adapter (⟨.now, .ok t⟩ :: past) :=
    hd.aside (Quiet.now _).toAside
  have hst : waiting.status = .waitingForRecrawl :=
    hw ▸ (transitionAction_ok ht).1
  refine ext_bind (X := actionSite) ⟨trivial, trivial⟩ (fun page => ?_)
    fun e => .failed (hd₁.readPage _ _ _)
  have hd₂ := hd₁.readPage waiting.siteId waiting.action.normalizedUrl (.ok page)
  refine Prog.wp_ofExcept_bind (fun x hver => ?_) fun e _ => .failed hd₂
  obtain ⟨action, verification, detail, d⟩ := x
  refine (Prog.wp_bind _ _).mp (recorded_bind (fun t' e' v he' hr' hv => ?_)
    fun past' e h => .failed (hd₂.aside h.toAside))
  have hsecond : ActionStep .worker (⟨.now, .ok t'⟩ ::
      ⟨.ext (.readPage waiting.siteId waiting.action.normalizedUrl), .ok page⟩ ::
        ⟨.now, .ok t⟩ :: past) waiting v :=
    .of_verified hver hst he' hr' hv
  have hlater : v.status ∉ [ActionStatus.executing, .executed] := by
    have hmoves := hsecond.moves
    rw [hst] at hmoves
    revert hmoves
    generalize v.status = status
    cases status <;> decide
  have hs₃ : seen (X := actionSite) .managedAction m.actionId (⟨.now, .ok t'⟩ ::
      ⟨.ext (.readPage waiting.siteId waiting.action.normalizedUrl), .ok page⟩ ::
        ⟨.now, .ok t⟩ :: past) = some (m, k) := hs
  exact last_update_wp (hd₂.aside (Quiet.now _).toAside) hs₃
    (.two (.of_later ht he (.of_unmarked hr (by decide)) hw (by decide)
      (by rw [hm]; decide) (absurd rfl) rfl rfl) hsecond (.inl hst)) hlater

/-- Recording what was applied, and reading the page back. -/
theorem applied_wp {changeId : Option String} {previous target reason : String}
    {detail : Dict} (hd : Doing running n m.siteId adapter past)
    (hs : seen .managedAction m.actionId past = some (m, k))
    (hm : m.status = .executing) (hex : Executes running m.actionId)
    (hreason : entryMark reason = none)
    (happlied : ∀ change : AppliedChange, change.newValue = target →
      change.previousValue = previous → AppliedAs past m change) :
    Prog.wp (actionContract .worker) (Delivers running n m.actionId)
      (do let appliedAt ← now
          let change ← Prog.ofExcept
            (AppliedChange.new adapter.adapterId changeId previous target appliedAt)
          let executed ← move m .executed reason detail
            { applied := some change, error := some none }
          let managed ← ActionStore.update executed
          verifyAndUpdate managed) past := by
  refine now_bind ⟨trivial, trivial⟩ (fun t => ?_)
    fun e => .failed (hd.aside (Quiet.now _).toAside)
  have hq₁ := @Quiet.now past (.ok t)
  refine Prog.wp_ofExcept_bind (fun change hc => ?_)
    fun e _ => .failed (hd.aside hq₁.toAside)
  obtain ⟨hprev, hnew, -⟩ := AppliedChange.new_ok hc
  refine move_bind (fun t' moved e v ht he hr hv => ?_)
    fun past' e h => .failed (hd.aside (hq₁.trans h).toAside)
  have hq₂ := hq₁.trans (Quiet.now (.ok t'))
  have hstep : ActionStep .worker (⟨.now, .ok t'⟩ :: ⟨.now, .ok t⟩ :: past) m v :=
    .of_moved ht he (.of_unmarked hr hreason) hv (by decide) (absurd rfl)
      (fun _ => ⟨running, n, (hd.aside hq₂.toAside).holding.2, hex⟩)
      (.inr ⟨hm, rfl, change, rfl, (happlied change hnew hprev).aside hq₂.toAside⟩)
      (.inl ⟨rfl, by decide⟩) (by nofun)
  refine update_bind ((hq₂.actions _).trans hs) (.one hstep)
    (fun past' j h hseen => ?_) fun past' e h => .failed (hd.aside (hq₂.toAside.trans h))
  have hd₁ : Doing running n v.siteId adapter past' :=
    hstep.siteId ▸ hd.aside (hq₂.toAside.trans h)
  rw [← hstep.actionId]
  exact verifyAndUpdate_wp hd₁ hseen (hv ▸ (transitionAction_ok ht).1)

/-- The write of the page, right after it was read. -/
theorem writeTarget_wp {field : PageField} {target : String} {page : SitePage}
    (hd : Doing running n m.siteId adapter past) (hauto : adapter.manualApply = false)
    (hcap : missingCapabilities m.action adapter = [])
    (hs : seen .managedAction m.actionId past = some (m, k))
    (hm : m.status = .executing) (hex : Executes running m.actionId)
    (hfield : fieldOf m.action = .ok field)
    (htarget : field.recommended m.action = .ok target)
    (hpage : pageChanged field page target m.observedValue = false) :
    Prog.wp (actionContract .worker) (Delivers running n m.actionId)
      (writeTarget m adapter field target page)
      (⟨.ext (.readPage m.siteId m.action.normalizedUrl), .ok page⟩ :: past) := by
  have hd₁ := hd.readPage m.siteId m.action.normalizedUrl (.ok page)
  refine ext_bind (X := actionSite)
    ⟨⟨rfl, .inl ⟨m, k, page, ?_⟩⟩, trivial⟩ (fun result => ?_)
    fun e => .failed (hd₁.write _ _ _ _ _ _)
  · exact
      { seen := hs
        underWay := hm
        siteId := rfl
        url := rfl
        key := rfl
        about := hfield
        target := htarget
        read := rfl
        unchanged := hpage
        capable := ⟨adapter, hd₁.adapter, hauto, hcap⟩
        inHand := ⟨running, n, hd₁.holding.2, hex⟩ }
  have hd₂ := hd₁.write m.siteId m.action.normalizedUrl field target
    (executeKey m.actionId) (.ok result)
  split
  · next hfail =>
      exact failAction_wp (by decide) hd₂ hs
        (.refused _ result rfl rfl (by simpa using hfail))
  · next hok =>
      refine applied_wp hd₂ hs hm hex (by split <;> decide) fun change hnew hprev => ?_
      subst hnew
      exact .written adapter hd₂.adapter hauto field hfield htarget page rfl result
        rfl (by simpa using hok) hprev

/-- `_carry_out`, of an action under way. -/
theorem carryOut_wp (hd : Doing running n m.siteId adapter past)
    (hauto : adapter.manualApply = false)
    (hs : seen .managedAction m.actionId past = some (m, k))
    (hm : m.status = .executing) (hex : Executes running m.actionId) :
    Prog.wp (actionContract .worker) (Delivers running n m.actionId)
      (carryOut m adapter) past := by
  refine Prog.wp_ofExcept_bind (fun field hfield => ?_) fun e _ => .failed hd
  refine Prog.wp_ofExcept_bind (fun target htarget => ?_) fun e _ => .failed hd
  split
  · next hmiss => exact failAction_wp (by decide) hd hs (.cannotApply adapter hd.adapter hmiss)
  · next hcap =>
      have hcap := Decidable.not_not.mp hcap
      refine ext_bind (X := actionSite) ⟨trivial, trivial⟩ (fun page => ?_)
        fun e => .failed (hd.readPage _ _ _)
      have hd₁ := hd.readPage m.siteId m.action.normalizedUrl (.ok page)
      split
      · next hch =>
          exact failAction_wp (by decide) hd₁ hs
            (.pageChanged field hfield target htarget page rfl hch)
      · next hch =>
          exact writeTarget_wp hd hauto hcap hs hm hex hfield htarget
            (by simpa using hch)

/-- A move to being carried out. -/
theorem claimed_step {moved : Action} {e : ActionEvent}
    (ht : transitionAction m.action .executing "execution_started" [] = .ok moved)
    (he : e.status = moved.status) (hr : e.reason = "execution_started")
    (hv : v = Changes.on {} { m with action := moved, history := m.history ++ [e] })
    (hhand : HasInHand Executes past m.actionId) : ActionStep .worker past m v :=
  .of_moved ht he (.of_unmarked hr (by decide)) hv (by decide) (absurd rfl)
    (fun _ => hhand) (.inl ⟨rfl, by decide⟩) (.inl ⟨rfl, by decide⟩) (by nofun)

/-- `_check_applied_by_customer`, of an approved action. -/
theorem checkAppliedByCustomer_wp (hd : Doing running n m.siteId adapter past)
    (hmanual : adapter.manualApply = true)
    (hs : seen .managedAction m.actionId past = some (m, k))
    (hm : m.status = .approved) (hex : Executes running m.actionId) :
    Prog.wp (actionContract .worker) (Delivers running n m.actionId)
      (checkAppliedByCustomer m adapter) past := by
  refine Prog.wp_ofExcept_bind (fun field hfield => ?_) fun e _ => .failed hd
  refine Prog.wp_ofExcept_bind (fun target htarget => ?_) fun e _ => .failed hd
  refine ext_bind (X := actionSite) ⟨trivial, trivial⟩ (fun page => ?_)
    fun e => .failed (hd.readPage _ _ _)
  have hd₁ := hd.readPage m.siteId m.action.normalizedUrl (.ok page)
  split
  · refine recorded_bind (fun t e v he hr hv => ?_)
      fun past' e h => .failed (hd₁.aside h.toAside)
    refine last_update_wp (hd₁.aside (Quiet.now _).toAside) hs
      (.one (.of_recorded rfl (.refl _) he (.of_unmarked hr (by decide)) hv rfl rfl)) ?_
    have hst : v.status = m.status := by rw [hv]; rfl
    rw [hst, hm]
    decide
  · refine move_bind (fun t moved e v ht he hr hv => ?_)
      fun past' e h => .failed (hd₁.aside h.toAside)
    have hd₂ := hd₁.aside (Quiet.now (.ok t)).toAside
    have hstep : ActionStep .worker (⟨.now, .ok t⟩ ::
        ⟨.ext (.readPage m.siteId m.action.normalizedUrl), .ok page⟩ :: past) m v :=
      claimed_step ht he hr hv ⟨running, n, hd₂.holding.2, hex⟩
    refine update_bind hs (.one hstep) (fun past' j h hseen => ?_)
      fun past' e h => .failed (hd₂.aside h)
    have hsame := (transitionAction_ok ht).2.2
    have haction : v.action = moved := by rw [hv]; rfl
    have hobserved : v.observedValue = m.observedValue := hstep.observedValue
    have hd₃ : Doing running n v.siteId adapter past' := hstep.siteId ▸ hd₂.aside h
    rw [← hstep.actionId]
    refine applied_wp hd₃ hseen (hv ▸ (transitionAction_ok ht).1)
      (hstep.actionId ▸ hex) (by decide) fun change hnew hprev => ?_
    subst hnew
    refine .byCustomer adapter hd₃.adapter hmanual field ?_ ?_ hprev
    · rw [haction, fieldOf_congr hsame, hfield]
    · rw [haction, recommended_congr hsame, htarget]

/-- A part whose version is summed up. -/
theorem summary_wp {actionId : String} {p : ActionProc ManagedAction}
    {skipped : Bool}
    (hp : Prog.wp (actionContract .worker) (Delivers running n actionId)
      p past) :
    Prog.wp (actionContract .worker) (Delivers running n actionId)
      (do let v ← p; return summary v skipped) past :=
  Prog.wp_seq hp (fun _ v _ h => ⟨h.holding, fun _ _ => h.carried v rfl⟩)
    fun _ _ _ h => ⟨h.holding, nofun⟩

/-- A delivery to a manual site, right after its adapter was built. -/
theorem deliverByCustomer_wp (hh : Holding running n past)
    (hmanual : adapter.manualApply = true)
    (hs : seen .managedAction m.actionId past = some (m, k))
    (hex : Executes running m.actionId) :
    Prog.wp (actionContract .worker) (Delivers running n m.actionId)
      (deliverByCustomer m adapter)
      (⟨.ext (.buildAdapter m.siteId), .ok adapter⟩ :: past) := by
  have hd : Doing running n m.siteId adapter
      (⟨.ext (.buildAdapter m.siteId), .ok adapter⟩ :: past) := ⟨hh, rfl⟩
  unfold deliverByCustomer
  split
  · next hm => exact summary_wp (verifyAndUpdate_wp hd hs hm)
  next hne =>
  split
  · next hskip =>
      refine ⟨hh, fun _ _ => ?_⟩
      by_cases hm : m.status = .executing
      · exact .inr ⟨m, k, adapter, past, List.suffix_refl _, hs, hm, hmanual⟩
      · exact .inl ⟨m, k, hs, by simp [hm, hne]⟩
  · next hm =>
      exact summary_wp (checkAppliedByCustomer_wp hd hmanual hs
        (Decidable.not_not.mp hm) hex)

/-- The guarded last part of a delivery. -/
theorem deliver_wp (hd : Doing running n m.siteId adapter past)
    (hauto : adapter.manualApply = false)
    (hs : seen .managedAction m.actionId past = some (m, k))
    (hm : m.status = .executing ∨ m.status = .executed)
    (hex : Executes running m.actionId) :
    Prog.wp (actionContract .worker) (Delivers running n m.actionId)
      (deliver m adapter) past := by
  unfold deliver
  split
  · next h => exact summary_wp (verifyAndUpdate_wp hd hs h)
  · next h => exact summary_wp (carryOut_wp hd hauto hs (hm.resolve_right h) hex)

/-- How the first part of a delivery ends: with an adapter that applies changes
itself, or with a delivery to a manual site. -/
structure Prepares (running : Job) (n : Nat) (managed : ManagedAction) (k : Nat)
    (past : ActionPast) (r : Except Exc (Adapter × Option Dict)) : Prop where
  holding : Holding running n past
  adapter : ∀ adapter, r = .ok (adapter, none) →
    Doing running n managed.siteId adapter past ∧ adapter.manualApply = false ∧
      seen .managedAction managed.actionId past = some (managed, k)
  delivered : ∀ adapter result, r = .ok (adapter, some result) →
    Carried past managed.actionId

theorem Prepares.failed {e : Exc} (h : Holding running n past) :
    Prepares running n m k past (.error e) :=
  ⟨h, nofun, nofun⟩

theorem prepare_wp (hh : Holding running n past)
    (hs : seen .managedAction m.actionId past = some (m, k))
    (hex : Executes running m.actionId) :
    Prog.wp (actionContract .worker) (Prepares running n m k) (prepare m) past := by
  refine ext_bind (X := actionSite) ⟨trivial, trivial⟩ (fun adapter => ?_)
    fun e => .failed hh
  have hd : Doing running n m.siteId adapter
      (⟨.ext (.buildAdapter m.siteId), .ok adapter⟩ :: past) := ⟨hh, rfl⟩
  split
  · next hmanual =>
      refine Prog.wp_seq (deliverByCustomer_wp hh hmanual hs hex)
        (fun past' result _ h => ⟨h.holding, nofun, ?_⟩)
        fun past' e _ h => .failed h.holding
      intro adapter' result' _
      exact h.carried result rfl
  · next hauto =>
      refine ⟨hh, fun adapter' he => ?_, nofun⟩
      obtain rfl : adapter = adapter' := (Prod.mk.inj (Except.ok.inj he)).1
      exact ⟨hd, by simpa using hauto, hs⟩

/-- The claim of an approved action; one under way or executed is kept. -/
theorem claim_bind {α : Type} {Q : ActionPast → Except Exc α → Prop}
    {f : ManagedAction → ActionProc α} (hh : Holding running n past)
    (hs : seen .managedAction m.actionId past = some (m, k))
    (hex : Executes running m.actionId)
    (hm : m.status ∈ [ActionStatus.approved, .executing, .executed])
    (hok : ∀ past' v j, Aside past past' → v.actionId = m.actionId →
      v.siteId = m.siteId → seen .managedAction v.actionId past' = some (v, j) →
      v.status = .executing ∨ v.status = .executed →
        Prog.wp (actionContract .worker) Q (f v) past')
    (herr : ∀ past' e, Aside past past' → Q past' (.error e)) :
    Prog.wp (actionContract .worker) Q (claim m >>= f) past := by
  rw [Prog.wp_bind]
  unfold claim
  split
  · refine move_bind (fun t moved e v ht he hr hv => ?_)
      fun past' e h => herr past' e h.toAside
    have hstep : ActionStep .worker (⟨.now, .ok t⟩ :: past) m v :=
      claimed_step ht he hr hv
        ⟨running, n, (Quiet.now _).toAside.holding hh |>.2, hex⟩
    refine workerUpdate_wp hs (.one hstep) (fun past' j h hseen => ?_)
      fun past' e h => herr past' e ((Quiet.now _).toAside.trans h)
    exact hok past' v j ((Quiet.now _).toAside.trans h) hstep.actionId
      hstep.siteId hseen (.inl (hv ▸ (transitionAction_ok ht).1))
  · next hne =>
      refine hok past m k (.refl _) rfl rfl hs ?_
      simpa [hne] using hm

/-- The execute handler keeps the contract of a worker: it ends with its job in
hand, and past carrying out the action when it returns. -/
theorem executeActionHandler_wp (hh : Holding running n past)
    (hrun : running.jobType = executeActionJobType) :
    Prog.wp (actionContract .worker)
      (fun past' r => Holding running n past' ∧
        ∀ a, r = .ok a → Finished past' running)
      (executeActionHandler running.payload) past := by
  refine Prog.wp_ofExcept_bind (fun actionId hid => ?_) fun e _ => ⟨hh, nofun⟩
  have hfinished : ∀ {past' : ActionPast}, Carried past' actionId →
      Finished past' running := by
    refine fun hc => ⟨fun actionId' hex => ?_, fun _ hun => ?_⟩
    · obtain rfl : actionId = actionId' := Except.ok.inj (hid.symm.trans hex.2)
      exact hc
    · exact absurd (hrun.symm.trans hun.1) (by decide)
  refine get_bind (fun m k hm => ?_)
    fun x e => ⟨(Aside.find _ x).holding hh, nofun⟩
  subst hm
  have hex : Executes running m.actionId := ⟨hrun, hid⟩
  have hh₁ := (@Aside.find past m.actionId (.ok (some (m, k)))).holding hh
  have hs : seen (X := actionSite) .managedAction m.actionId
      (⟨.find .managedAction m.actionId, .ok (some (m, k))⟩ :: past) = some (m, k) :=
    seen_find (t := .managedAction) (some (m, k))
  split
  · next hskip =>
      refine ⟨hh₁, fun _ _ => hfinished (.inl ⟨m, k, hs, fun hmem => hskip ?_⟩)⟩
      exact List.mem_cons_of_mem _ hmem
  next hgo =>
  have hgo := Decidable.not_not.mp hgo
  unfold execute
  rw [Prog.wp_bind]
  refine noting_wp (by decide) (prepare_wp hh₁ hs hex) (fun past' x hp => ?_)
    fun past' past'' e hp h => ⟨h.holding hp.holding, nofun⟩
  obtain ⟨adapter, result?⟩ := x
  cases result? with
  | some result =>
      exact ⟨hp.holding, fun _ _ => hfinished (hp.delivered adapter result rfl)⟩
  | none =>
      obtain ⟨hd, hauto, hs'⟩ := hp.adapter adapter rfl
      refine claim_bind hp.holding hs' hex hgo
        (fun past'' v j h hid' hsite hseen hv => ?_)
        fun past'' e h => ⟨h.holding hp.holding, nofun⟩
      refine noting_wp (by decide)
        (deliver_wp (hsite ▸ hd.aside h) hauto hseen hv (hid' ▸ hex))
        (fun past₃ a hdel => ⟨hdel.holding, fun _ _ => ?_⟩)
        fun past₃ past₄ e hdel h' => ⟨h'.holding hdel.holding, nofun⟩
      exact hfinished (hid' ▸ hdel.carried a rfl)

/-! ## Rolling back -/

/-- How a part of a rollback ends: still in hand, and with how it went recorded
when it returned. -/
structure Undoing {α : Type} (running : Job) (n : Nat) (actionId : String)
    (past : ActionPast) (r : Except Exc α) : Prop where
  holding : Holding running n past
  undone : ∀ a, r = .ok a → Undone past actionId

theorem Undoing.failed {α : Type} {exc : Exc} {actionId : String}
    (hh : Holding running n past) :
    Undoing running n actionId past (.error exc : Except Exc α) :=
  ⟨hh, nofun⟩

/-- After an entry about how a rollback went, none is owed. -/
theorem rollbackOwed_of_entry {e : ActionEvent}
    (hm : entryMark e.reason = some .gaveUp ∨ entryMark e.reason = some .waits)
    (hv : v.history = m.history ++ [e]) : rollbackOwed v = false := by
  have hmark : lastRollbackMark v.history = entryMark e.reason := by
    unfold lastRollbackMark
    rw [hv, List.reverse_append, List.reverse_singleton, List.singleton_append,
      List.findSome?_cons]
    rcases hm with hm | hm <;> rw [hm] <;> rfl
  unfold rollbackOwed
  rw [hmark]
  rcases hm with hm | hm <;> rw [hm] <;> simp

theorem recordAndUpdate_wp {actor reason : String} {detail : Dict} {d : Changes}
    (hreason : entryMark reason = some .gaveUp ∨ entryMark reason = some .waits)
    (hh : Holding running n past) (hun : Undoes running m.actionId)
    (hs : seen .managedAction m.actionId past = some (m, k))
    (happlied : d.applied = none) (hrolled : d.rolledBack = none) :
    Prog.wp (actionContract .worker) (Undoing running n m.actionId)
      (recordAndUpdate m actor reason detail d) past := by
  refine recorded_bind (fun t e v he hr hv => ?_)
    fun past' e h => .failed (h.holding hh)
  have hq := @Quiet.now past (.ok t)
  have hmark : entryMark e.reason = some .gaveUp ∨ entryMark e.reason = some .waits :=
    hr ▸ hreason
  have hentry : EntryBy .worker (⟨.now, .ok t⟩ :: past) m e := by
    unfold EntryBy
    rcases hmark with hm | hm <;> rw [hm] <;>
      exact ⟨rfl, running, n, (hq.holding hh).2, hun⟩
  have hstep : ActionStep .worker (⟨.now, .ok t⟩ :: past) m v :=
    .of_recorded rfl (.refl _) he hentry hv happlied hrolled
  refine workerUpdate_wp ((hq.actions _).trans hs) (.one hstep)
    (fun past' j h hseen => ⟨(hq.toAside.trans h).holding hh, fun _ _ => ?_⟩)
    fun past' e h => .failed ((hq.toAside.trans h).holding hh)
  exact ⟨v, j, hstep.actionId ▸ hseen, rollbackOwed_of_entry hmark (by rw [hv]; rfl)⟩

theorem storeRolledBack_wp {applied : AppliedChange} {actor reason : String}
    {changeId : Option String} {detail : Dict} (hreason : entryMark reason = none)
    (hh : Holding running n past)
    (hs : seen .managedAction m.actionId past = some (m, k)) :
    Prog.wp (actionContract .worker) (Undoing running n m.actionId)
      (storeRolledBack m applied adapter actor reason changeId detail) past := by
  refine Prog.wp_ofExcept_bind (fun moved ht => ?_) fun e _ => .failed hh
  refine now_bind ⟨trivial, trivial⟩ (fun t => ?_)
    fun e => .failed ((Quiet.now _).holding hh)
  have hq₁ := @Quiet.now past (.ok t)
  refine Prog.wp_ofExcept_bind (fun change _ => ?_)
    fun e _ => .failed (hq₁.holding hh)
  refine recorded_bind (fun t' e v he hr hv => ?_)
    fun past' e h => .failed ((hq₁.trans h).holding hh)
  have hq₂ := hq₁.trans (Quiet.now (.ok t'))
  have hstep : ActionStep .worker (⟨.now, .ok t'⟩ :: ⟨.now, .ok t⟩ :: past) m v :=
    .of_moved ht he (.of_unmarked hr hreason) hv (by decide) (absurd rfl)
      (fun h => absurd h (by decide)) (.inl ⟨rfl, by decide⟩) (.inr ⟨rfl, rfl⟩)
      (by nofun)
  refine workerUpdate_wp ((hq₂.actions _).trans hs) (.one hstep)
    (fun past' j h hseen => ⟨(hq₂.toAside.trans h).holding hh, fun _ _ => ?_⟩)
    fun past' e h => .failed ((hq₂.toAside.trans h).holding hh)
  refine ⟨v, j, hstep.actionId ▸ hseen, ?_⟩
  rw [rollbackOwed, hv]
  rfl

/-- How an adapter undoes a change that was applied. -/
theorem rollbackThrough_wp {applied : AppliedChange} {actor : String}
    (hh : Holding running n past) (hun : Undoes running m.actionId)
    (hs : seen .managedAction m.actionId past = some (m, k))
    (happlied : m.applied.isSome = true) :
    Prog.wp (actionContract .worker) (Undoing running n m.actionId)
      (rollbackThrough m applied adapter actor) past := by
  have hundo : ∀ past' : ActionPast, Holding running n past' →
      seen .managedAction m.actionId past' = some (m, k) →
      UndoWrite past' m.siteId m.action.normalizedUrl (rollbackKey m.actionId) m k :=
    fun past' hh' hs' => ⟨hs', happlied, rfl, rfl, rfl, running, n, hh'.2, hun⟩
  have hrewrite : Prog.wp (actionContract .worker) (Undoing running n m.actionId)
      (rollbackByRewriting m applied adapter actor) past := by
    refine Prog.wp_ofExcept_bind (fun field _ => ?_) fun e _ => .failed hh
    refine ext_bind (X := actionSite) ⟨trivial, trivial⟩ (fun page => ?_)
      fun e => .failed hh
    split
    · exact storeRolledBack_wp (by decide) hh hs
    split
    · exact recordAndUpdate_wp (by decide) hh hun hs rfl rfl
    refine ext_bind (X := actionSite)
      ⟨⟨rfl, .inr ⟨m, k, hundo _ hh hs⟩⟩, trivial⟩ (fun result => ?_)
      fun e => .failed hh
    split
    · exact recordAndUpdate_wp (by decide) hh hun hs rfl rfl
    refine ext_bind (X := actionSite) ⟨trivial, trivial⟩ (fun restored => ?_)
      fun e => .failed hh
    split
    · exact recordAndUpdate_wp (by decide) hh hun hs rfl rfl
    · exact storeRolledBack_wp (by decide) hh hs
  unfold rollbackThrough
  split
  · refine Prog.wp_ofExcept_bind (fun field _ => ?_) fun e _ => .failed hh
    split
    · exact recordAndUpdate_wp (by decide) hh hun hs rfl rfl
    refine ext_bind (X := actionSite) ⟨trivial, trivial⟩ (fun page => ?_)
      fun e => .failed hh
    split
    · exact storeRolledBack_wp (by decide) hh hs
    · exact recordAndUpdate_wp (by decide) hh hun hs rfl rfl
  split
  case h_2 => exact hrewrite
  split
  · exact hrewrite
  refine ext_bind (X := actionSite)
    ⟨⟨rfl, m, k, hundo _ hh hs⟩, trivial⟩ (fun result => ?_) fun e => .failed hh
  split
  · exact recordAndUpdate_wp (by decide) hh hun hs rfl rfl
  refine ext_bind (X := actionSite) ⟨trivial, trivial⟩ (fun page => ?_)
    fun e => .failed hh
  refine Prog.wp_ofExcept_bind (fun field _ => ?_) fun e _ => .failed hh
  exact storeRolledBack_wp (by decide) hh hs

/-- The rollback handler keeps the contract of a worker: it ends with its job in
hand, and with how the rollback went recorded when it returns. -/
theorem rollbackActionHandler_wp (hh : Holding running n past)
    (hrun : running.jobType = rollbackActionJobType) :
    Prog.wp (actionContract .worker)
      (fun past' r => Holding running n past' ∧
        ∀ a, r = .ok a → Finished past' running)
      (rollbackActionHandler running.payload) past := by
  refine Prog.wp_ofExcept_bind (fun actionId hid => ?_) fun e _ => ⟨hh, nofun⟩
  have hfinished : ∀ {past' : ActionPast}, Undone past' actionId →
      Finished past' running := by
    refine fun hu => ⟨fun _ hex => ?_, fun actionId' hun => ?_⟩
    · exact absurd (hrun.symm.trans hex.1) (by decide)
    · obtain rfl : actionId = actionId' := Except.ok.inj (hid.symm.trans hun.2)
      exact hu
  refine get_bind (fun m k hm => ?_)
    fun x e => ⟨(Aside.find _ x).holding hh, nofun⟩
  subst hm
  have hun : Undoes running m.actionId := ⟨hrun, hid⟩
  have hh₁ := (@Aside.find past m.actionId (.ok (some (m, k)))).holding hh
  have hs : seen (X := actionSite) .managedAction m.actionId
      (⟨.find .managedAction m.actionId, .ok (some (m, k))⟩ :: past) = some (m, k) :=
    seen_find (t := .managedAction) (some (m, k))
  split
  · next hrolled =>
      refine ⟨hh₁, fun _ _ => hfinished ⟨m, k, hs, ?_⟩⟩
      rw [rollbackOwed, Option.isNone_eq_false_iff.mpr hrolled]
      rfl
  refine noting_wp (Q := Undoing running n m.actionId) (by decide) ?_
    (fun _ a h => ⟨h.holding, fun _ _ => hfinished (h.undone a rfl)⟩)
    fun _ _ _ h ha => ⟨ha.holding h.holding, nofun⟩
  refine Prog.wp_ofExcept_bind (fun applied happlied => ?_) fun e _ => .failed hh₁
  obtain ⟨u, hcheck, -⟩ := bind_eq_ok.mp happlied
  have hsome := Option.isSome_iff_ne_none.mpr (checkRollback_ok hcheck).1
  refine ext_bind (X := actionSite) ⟨trivial, trivial⟩ (fun adapter => ?_)
    fun e => .failed hh₁
  exact Prog.wp_seq (rollbackThrough_wp hh₁ hun hs hsome)
    (fun _ a _ h => ⟨h.holding, fun _ _ => h.undone a rfl⟩)
    fun _ _ _ h => .failed h.holding

end Delivery

end SeoAgent.Ports
