import SeoAgent.Ports.ActionDelivery

/-!
# The action machine

Every process that reads or writes an action, beside each other: proposals,
the four requests, cancellation of a job, measurement rounds, and one worker at
a time, which delivers or recovers jobs. Each runs one operation at a move and
may stop at any point.

## Main results

* `actionTerms_kept` — every process keeps the contract of its role.
-/

namespace SeoAgent.Ports

open Verified Verified.Machine
open Service (Op iface World Processes Terms)

/-! ## Requests keep the contract -/

section Requests
variable {α : Type} {past : ActionPast} {Q : ActionPast → Except Exc α → Prop}
  {b v : ManagedAction} {k : Nat}

/-- What a proposal starts with. -/
structure Proposed (managed : ManagedAction) : Prop where
  status : managed.status = .awaitingApproval
  statuses : managed.statuses = [.awaitingApproval]
  unmarked : ∀ e ∈ managed.history, entryMark e.reason = none
  applied : managed.applied = none
  rolledBack : managed.rolledBack = none

private theorem unmarked_of_proposal {at_ : Int} {reason : String} {detail : Dict}
    {hr : reason ≠ ""} (hm : entryMark reason = none)
    (hv : v.history = proposalHistory at_ reason detail hr) :
    ∀ e ∈ v.history, entryMark e.reason = none := by
  intro e he
  rw [hv] at he
  rwa [List.mem_singleton.mp he]

theorem proposeTitleChange_ok {at_ : Int} {action : Action}
    {runId tenantId proposalId proposedTitle : String}
    {currentTitle providerId : Option String} {alternatives : List String}
    (h : proposeTitleChange at_ action runId tenantId proposalId proposedTitle
      currentTitle providerId alternatives = .ok v) : Proposed v := by
  unfold proposeTitleChange at h
  split at h
  · cases h
  · obtain ⟨title, -, h⟩ := bind_eq_ok.mp h
    cases h
    exact ⟨rfl, rfl, unmarked_of_proposal (by decide) rfl, rfl, rfl⟩

theorem proposeDescriptionChange_ok {at_ : Int}
    {siteId tenantId jobId url : String} {metaDescription keyword : Option String}
    {choices : List String} {providerId : String}
    (h : proposeDescriptionChange at_ siteId tenantId jobId url metaDescription
      keyword choices providerId = .ok v) : Proposed v := by
  unfold proposeDescriptionChange at h
  split at h
  · cases h
  · cases h
    exact ⟨rfl, rfl, unmarked_of_proposal (by decide) rfl, rfl, rfl⟩

theorem create_wp (hv : Proposed v) :
    Prog.wp (actionContract .request) (fun _ _ => True) (ActionStore.create v)
      past :=
  commit_bind ⟨.propose hv.status hv.statuses hv.unmarked hv.applied hv.rolledBack,
    fun w hw => by rw [List.mem_singleton.mp hw]; rfl⟩ trivial fun _ => trivial

theorem queueTitleForApproval_wp {action : Action}
    {runId tenantId proposalId proposedTitle : String}
    {currentTitle providerId : Option String} {alternatives : List String} :
    Prog.wp (actionContract .request) (fun _ _ => True)
      (queueTitleForApproval action runId tenantId proposalId proposedTitle
        currentTitle providerId alternatives) past := by
  refine now_bind ⟨trivial, trivial⟩ (fun at_ => ?_) fun _ => trivial
  refine Prog.wp_ofExcept_bind (fun v hv => ?_) fun _ _ => trivial
  rw [Prog.wp_bind]
  exact find_bind ⟨trivial, trivial⟩ (fun _ _ _ => trivial)
    (create_wp (proposeTitleChange_ok hv)) fun _ => trivial

theorem proposeDescription_wp {siteId tenantId jobId url : String}
    {metaDescription keyword : Option String} {choices : List String}
    {providerId : String} :
    Prog.wp (actionContract .request) (fun _ _ => True)
      (proposeDescription siteId tenantId jobId url metaDescription keyword
        choices providerId) past := by
  unfold proposeDescription
  rw [Prog.wp_bind]
  refine find_bind ⟨trivial, trivial⟩ (fun _ _ _ => trivial) ?_ fun _ => trivial
  refine now_bind ⟨trivial, trivial⟩ (fun at_ => ?_) fun _ => trivial
  refine Prog.wp_ofExcept_bind (fun v hv => ?_) fun _ _ => trivial
  exact Prog.wp_seq (create_wp (proposeDescriptionChange_ok hv))
    (fun _ _ _ _ => trivial) fun _ _ _ _ => trivial

/-- `_get_action` leaves the action seen. -/
theorem getAction_bind {actionId : String} {f : ManagedAction → ActionProc α}
    (hok : ∀ past' (m : ManagedAction) (n : Nat),
      seen .managedAction m.actionId past' = some (m, n) →
        Prog.wp (actionContract .request) Q (f m) past')
    (herr : ∀ past' e, Q past' (.error e)) :
    Prog.wp (actionContract .request) Q (getAction actionId >>= f) past := by
  rw [Prog.wp_bind]
  unfold getAction
  rw [Prog.wp_tryCatch]
  refine find_bind ⟨trivial, trivial⟩ (fun m n hm => ?_) ?_ fun e => ?_
  · refine hok _ m n ?_
    rw [show m.actionId = actionId from hm]
    exact seen_find (t := .managedAction) (some (m, n))
  · exact herr _ _
  · change Prog.wp _ _
      (if _ then throw _ else throw e : ActionProc ManagedAction) _
    split <;> exact herr _ _

/-- `_action_job` makes a fresh job. -/
theorem actionJob_bind {jobType principal : String} {f : Job → ActionProc α}
    (hok : ∀ past' job, Quiet past past' → job.status = .queued →
      job.attemptCount = 0 → job.jobType = jobType →
      payloadText job.payload "action_id" = .ok v.actionId →
        Prog.wp (actionContract .request) Q (f job) past')
    (herr : ∀ past' e, Q past' (.error e)) :
    Prog.wp (actionContract .request) Q (actionJob jobType v principal >>= f)
      past := by
  rw [Prog.wp_bind]
  refine newId_bind ⟨trivial, trivial⟩ (fun jobId => ?_) fun e => herr _ e
  refine now_bind ⟨trivial, trivial⟩ (fun at_ => ?_) fun e => herr _ e
  rw [Prog.wp_ofExcept]
  cases hjob : Job.new jobId jobType principal _ 3 at_ with
  | error e => exact herr _ e
  | ok job =>
      obtain ⟨hq, ha, -, htype, hpayload, -⟩ := Job.new_ok hjob
      refine hok _ job ⟨⟨rfl, rfl, rfl, rfl, fun _ => rfl⟩, fun _ => rfl⟩ hq ha htype ?_
      rw [hpayload]
      simp [payloadText, Dict.get?_cons]

/-- A decision saved with the job that carries it out. -/
theorem saveWithJob_wp {job : Job}
    (hs : seen .managedAction b.actionId past = some (b, k))
    (hw : ActionStep .request past b v) (hjob : JobBeside v job)
    (hasked : ∀ e ∈ addedEntries b v, entryMark e.reason = some .asked →
      Undoes job v.actionId) :
    Prog.wp (actionContract .request) (fun _ _ => True) (saveWithJob v job) past := by
  refine Prog.wp_try (Q := fun _ _ => True) ?_ (fun _ _ _ _ => trivial)
    fun past' exc _ _ => by split <;> trivial
  refine updateWith_wp ?_ ?_ (fun _ _ => trivial) fun _ _ _ _ _ => trivial
  · rintro after current n ⟨⟩ hext
    exact .updateWithJob rfl ⟨rfl, ⟨k, hw.actionId ▸ hs⟩, hext, .one hw⟩ hjob hasked
  · rintro after ⟨⟩ w hmem
    obtain rfl := List.mem_singleton.mp hmem
    rfl

/-- A decision that asks for no rollback, saved with an execute job. -/
theorem saveWithExecuteJob_wp {job : Job} {e : ActionEvent}
    (hs : seen .managedAction b.actionId past = some (b, k))
    (hw : ActionStep .request past b v) (hq : job.status = .queued)
    (ha : job.attemptCount = 0) (hex : Executes job v.actionId)
    (hh : v.history = b.history ++ [e]) (hm : entryMark e.reason = none) :
    Prog.wp (actionContract .request) (fun _ _ => True) (saveWithJob v job) past := by
  refine saveWithJob_wp hs hw ⟨hq, ha, .inl hex⟩ fun e' he' hm' => ?_
  rw [addedEntries, hh, List.drop_left] at he'
  rw [List.mem_singleton.mp he', hm] at hm'
  cases hm'

theorem orConflict_ok {x : Except Exc α} {a : α} (h : orConflict x = .ok a) :
    x = .ok a := by
  unfold orConflict at h
  split at h
  · exact h
  · split at h <;> cases h

theorem approveAction_wp {actionId principalId : String}
    {title note : Option String} :
    Prog.wp (actionContract .request) (fun _ _ => True)
      (approveAction actionId principalId title note) past := by
  refine getAction_bind (fun past' m n hs => ?_) fun _ _ => trivial
  refine Prog.wp_ofExcept_bind (fun _ _ => ?_) fun _ _ => trivial
  refine ext_bind (X := actionSite) ⟨trivial, trivial⟩ (fun _ => ?_)
    fun _ => trivial
  refine ext_bind (X := actionSite) ⟨trivial, trivial⟩ (fun site => ?_)
    fun _ => trivial
  refine Prog.wp_ofExcept_bind (fun _ _ => ?_) fun _ _ => trivial
  refine now_bind ⟨trivial, trivial⟩ (fun at_ => ?_) fun _ => trivial
  refine Prog.wp_ofExcept_bind (fun v hv => ?_) fun _ _ => trivial
  refine actionJob_bind (fun past'' job hquiet hq ha htype hid => ?_)
    fun _ _ => trivial
  obtain ⟨-, -, e, -, hr, heq, -⟩ := approve_ok (orConflict_ok hv)
  exact saveWithExecuteJob_wp ((hquiet.actions _).trans hs)
    (.of_approve (orConflict_ok hv)) hq ha ⟨htype, hid⟩
    (e := e) (by rw [heq]) (by rw [hr]; decide)

theorem reportApplied_wp {actionId principalId : String} :
    Prog.wp (actionContract .request) (fun _ _ => True)
      (reportApplied actionId principalId) past := by
  refine getAction_bind (fun past' m n hs => ?_) fun _ _ => trivial
  refine Prog.wp_ofExcept_bind (fun _ _ => ?_) fun _ _ => trivial
  refine ext_bind (X := actionSite) ⟨trivial, trivial⟩ (fun site => ?_)
    fun _ => trivial
  refine Prog.wp_ofExcept_bind (fun _ _ => ?_) fun _ _ => trivial
  refine recorded_bind (fun t e v he hr hv => ?_) fun _ _ _ => trivial
  refine actionJob_bind (fun past'' job hquiet hq ha htype hid => ?_)
    fun _ _ => trivial
  have hm : entryMark e.reason = none := hr ▸ by decide
  exact saveWithExecuteJob_wp ((hquiet.actions _).trans hs)
    (.of_recorded rfl (.refl _) he (.of_unmarked rfl hm) hv rfl rfl) hq ha
    ⟨htype, hid⟩ (by rw [hv]; rfl) hm

theorem rejectAction_wp {actionId principalId : String} {reason : Option String} :
    Prog.wp (actionContract .request) (fun _ _ => True)
      (rejectAction actionId principalId reason) past := by
  refine getAction_bind (fun past' m n hs => ?_) fun _ _ => trivial
  refine Prog.wp_ofExcept_bind (fun _ _ => ?_) fun _ _ => trivial
  refine now_bind ⟨trivial, trivial⟩ (fun at_ => ?_) fun _ => trivial
  refine Prog.wp_ofExcept_bind (fun v hv => ?_) fun _ _ => trivial
  refine Prog.wp_try (Q := fun _ _ => True) ?_ (fun _ _ _ _ => trivial)
    fun past' exc _ _ => by split <;> trivial
  obtain ⟨-, -, -, e, -, hr, heq⟩ := reject_ok (orConflict_ok hv)
  refine actionUpdate_wp hs (.one (.of_reject (orConflict_ok hv))) nofun
    (fun e' he' => ?_) (fun _ _ _ _ => trivial) fun _ _ _ => trivial
  rw [addedEntries, heq, List.drop_left] at he'
  rw [List.mem_singleton.mp he', hr]
  decide

theorem rollbackAction_wp {actionId principalId : String} {reason : Option String} :
    Prog.wp (actionContract .request) (fun _ _ => True)
      (rollbackAction actionId principalId reason) past := by
  refine getAction_bind (fun past' m n hs => ?_) fun _ _ => trivial
  refine Prog.wp_ofExcept_bind (fun _ _ => ?_) fun _ _ => trivial
  refine Prog.wp_ofExcept_bind (fun _ _ => ?_) fun _ _ => trivial
  refine recorded_bind (fun t e v he hr hv => ?_) fun _ _ _ => trivial
  refine actionJob_bind (fun past'' job hquiet hq ha htype hid => ?_)
    fun _ _ => trivial
  have hm : entryMark e.reason = some .asked := hr ▸ by decide
  have hpending : rollbackPending v = true := by
    rw [rollbackPending, show v.history = m.history ++ [e] by rw [hv]; rfl,
      List.reverse_append, List.reverse_singleton, List.singleton_append, pendingAmong,
      if_pos hr]
  have hun : Undoes job v.actionId := ⟨htype, hid⟩
  have hstep : ActionStep .request past'' m v :=
    .of_recorded rfl (.refl _) he (by unfold EntryBy; rw [hm]) hv rfl rfl
  exact saveWithJob_wp ((hquiet.actions _).trans hs) hstep
    ⟨hq, ha, .inr ⟨hun, hpending⟩⟩ fun _ _ _ => hun

/-! ## Measurement rounds keep the contract -/

/-- What is seen of other actions does not change. -/
def OthersSeen (actionId : String) (past past' : ActionPast) : Prop :=
  ∀ i, i ≠ actionId →
    seen .managedAction i past' = seen .managedAction i past

/-- What is written after a settled action is feedback. -/
theorem feedbackWrites_mem {settled : ManagedAction} {outcome : Outcome}
    {after : List (Repository.Write AggregateType AggregateType.Payload)}
    (h : feedbackWrites b settled outcome = .ok after) :
    ∀ w ∈ after, ∃ event : FeedbackEvent,
      w = .ensure .learningFeedback event.feedbackId event := by
  unfold feedbackWrites at h
  split at h
  · cases h
    exact fun w hw => nomatch hw
  · obtain ⟨event, -, h⟩ := bind_eq_ok.mp h
    cases h
    exact fun w hw => ⟨event, List.mem_singleton.mp hw⟩

/-- Storing a settlement: the outcome, the action and the feedback. -/
theorem storeSettlement_wp {outcome : Outcome} {t₁ t₂ : Int}
    (hs : seen .managedAction b.actionId past = some (b, k))
    (hv : applySettlement b outcome t₁ t₂ = .ok v)
    (hfree : rollbackPending b = false) :
    Prog.wp (actionContract .measurement)
      (fun past' _ => OthersSeen b.actionId past past')
      (ActionStore.updateWith [.ensure .actionOutcome b.actionId outcome] v
        (feedbackWrites b v outcome)) past := by
  have hid : v.actionId = b.actionId :=
    (@ActionWrite.of_settlement past _ _ _ _ _ hv).actionId
  have hfind : ∀ x : Except Exc (Option (ManagedAction × Nat)),
      OthersSeen b.actionId past (⟨.find .managedAction v.actionId, x⟩ :: past) := by
    intro x i hi
    cases x with
    | error e => rfl
    | ok x =>
        refine seen_find_of_ne (u := .managedAction) x fun h => hi ?_
        exact (Prod.mk.inj h).2.trans hid
  have hbeside : ∀ after, feedbackWrites b v outcome = .ok after →
      ∀ w ∈ [.ensure .actionOutcome b.actionId outcome] ++ after,
        w.Carries storedUnderItsId ∧
          ∀ i, (AggregateType.managedAction, i) ≠ w.target := by
    intro after hafter w hmem
    rcases List.mem_cons.mp hmem with rfl | hmem
    · exact ⟨trivial, fun i => nofun⟩
    · obtain ⟨event, rfl⟩ := feedbackWrites_mem hafter w hmem
      exact ⟨trivial, fun i => nofun⟩
  refine updateWith_wp
    (fun after current n hafter hext =>
      .settle rfl ⟨rfl, ⟨k, hid ▸ hs⟩, hext, .of_settlement hv⟩ hv hfree hafter)
    (fun after ha w hm => (hbeside after ha w hm).1) (fun x _ => hfind x)
    fun after current n r hafter i hi => ?_
  rw [seen_commit_of_ne fun w hmem => ?_]
  · exact hfind (.ok (some (current, n))) i hi
  · rcases List.mem_append.mp hmem with hmem | hmem
    · exact (hbeside after hafter w (List.mem_append_left _ hmem)).2 i
    rcases List.mem_cons.mp hmem with rfl | hmem
    · exact fun h => hi ((Prod.mk.inj h).2.trans hid)
    · exact (hbeside after hafter w (List.mem_append_right _ hmem)).2 i

theorem OthersSeen.of_quiet {actionId : String} {past' past'' : ActionPast}
    (h : Quiet past past') (ho : OthersSeen actionId past' past'') :
    OthersSeen actionId past past'' :=
  fun i hi => (ho i hi).trans (h.actions i)

/-- A settlement leaves what is seen of other actions alone. -/
theorem settle_wp (hs : seen .managedAction b.actionId past = some (b, k)) :
    Prog.wp (actionContract .measurement)
      (fun past' _ => OthersSeen b.actionId past past') (settle b) past := by
  have hquiet : ∀ {past'}, Quiet past past' → OthersSeen b.actionId past past' :=
    fun h i _ => h.actions i
  unfold settle
  split
  · exact hquiet (.refl _)
  split
  · exact hquiet (.refl _)
  next hfree =>
  refine Prog.wp_seq (Q := fun past' _ => Quiet past past') ?_ (fun past' x _ h => ?_)
    fun past' e _ h => hquiet h
  · have hfound : ∀ x : Except Exc (Option (Outcome × Nat)),
        Quiet past (⟨.find .actionOutcome b.actionId, x⟩ :: past) := by
      intro x
      cases x with
      | error e => exact ⟨⟨rfl, rfl, rfl, rfl, fun _ => rfl⟩, fun _ => rfl⟩
      | ok x =>
          exact ⟨⟨rfl, rfl, rfl, rfl,
            fun _ => seen_find_of_ne (u := .actionOutcome) x nofun⟩,
            fun _ => seen_find_of_ne (u := .actionOutcome) x nofun⟩
    refine find_bind ⟨trivial, trivial⟩ (fun outcome n _ => hfound _) ?_
      fun e => hfound _
    refine ext_wp (X := actionSite) ⟨trivial, trivial⟩ fun r => (hfound (.ok none)).trans ?_
    cases r <;> exact ⟨⟨rfl, rfl, rfl, rfl, fun _ => rfl⟩, fun _ => rfl⟩
  cases x with
  | none => exact hquiet h
  | some outcome =>
      refine now_bind ⟨trivial, trivial⟩ (fun t₁ => ?_)
        fun _ => hquiet (h.trans (.now _))
      have h₁ := h.trans (Quiet.now (.ok t₁))
      refine now_bind ⟨trivial, trivial⟩ (fun t₂ => ?_)
        fun _ => hquiet (h₁.trans (.now _))
      have h₂ := h₁.trans (Quiet.now (.ok t₂))
      refine Prog.wp_ofExcept_bind (fun v hv => ?_) fun _ _ => hquiet h₂
      exact Prog.wp_seq
        (storeSettlement_wp ((h₂.actions _).trans hs) hv (by simpa using hfree))
        (fun _ _ _ ho => ho.of_quiet h₂) fun _ _ _ ho => ho.of_quiet h₂

theorem settleOne_wp (hs : seen .managedAction b.actionId past = some (b, k)) :
    Prog.wp (actionContract .measurement)
      (fun past' _ => OthersSeen b.actionId past past') (settleOne b) past := by
  have hsettle := settle_wp hs
  unfold settleOne
  rw [Prog.wp_tryCatch, Prog.wp_bind]
  refine Prog.wp_mono (fun past' r _ h => ?_) hsettle
  cases r <;> exact h

theorem settleAll_wp (records : List (String × ManagedAction × Nat))
    (hn : (records.map Prod.fst).Nodup)
    (hs : ∀ e ∈ records, seen .managedAction e.1 past = some e.2 ∧
      e.2.1.actionId = e.1) :
    Prog.wp (actionContract .measurement) (fun _ _ => True) (settleAll records) past := by
  induction records generalizing past with
  | nil => trivial
  | cons e records ih =>
      obtain ⟨i, m, n⟩ := e
      rw [List.map_cons, List.nodup_cons] at hn
      have hrest : ∀ e ∈ records, seen .managedAction e.1 past = some e.2 ∧
          e.2.1.actionId = e.1 := fun e he => hs e (List.mem_cons_of_mem _ he)
      unfold settleAll
      split
      case isFalse => exact ih hn.2 hrest
      obtain ⟨hseen, hid⟩ := hs _ List.mem_cons_self
      refine Prog.wp_seq (settleOne_wp (hid ▸ hseen))
        (fun past' _ _ h => ?_) fun _ _ _ _ => trivial
      refine Prog.wp_seq (ih hn.2 fun e he => ⟨?_, (hrest e he).2⟩)
        (fun _ _ _ _ => trivial) fun _ _ _ _ => trivial
      have hne : e.1 ≠ m.actionId := fun hei =>
        hn.1 (hei.trans hid ▸ List.mem_map.mpr ⟨_, he, rfl⟩)
      exact (h e.1 hne).trans (hrest e he).1

theorem runRound_wp :
    Prog.wp (actionContract .measurement) (fun _ _ => True) runRound past := by
  refine now_bind ⟨trivial, trivial⟩ (fun t => ?_) fun _ => trivial
  refine list_bind ⟨trivial, trivial⟩ (fun xs hxs => ?_) fun _ => trivial
  refine settleAll_wp _ xs.nodup fun e he => ⟨?_, hxs e he⟩
  exact (seen_list (t := .managedAction) xs).trans
    (Service.Listing.lookup_of_mem xs.nodup he)

end Requests

/-! ## The machine -/

/-- The processes that read or write actions. -/
inductive ActionKind
  | proposeTitle (action : Action) (runId tenantId proposalId title : String)
      (currentTitle providerId : Option String) (alternatives : List String)
  | proposeDescription (siteId tenantId jobId url : String)
      (metaDescription keyword : Option String) (choices : List String)
      (providerId : String)
  | approve (actionId principalId : String) (title note : Option String)
  | reportApplied (actionId principalId : String)
  | reject (actionId principalId : String) (reason : Option String)
  | rollback (actionId principalId : String) (reason : Option String)
  | cancelJob (jobId principalId : String)
  | measure
  | runOnce
  | recover

namespace ActionKind

/-- What a process does to jobs. -/
def role : ActionKind → JobRole
  | runOnce => .worker
  | recover => .recovery
  | measure => .measurement
  | _ => .request

/-- Whether a process is the worker's: it delivers jobs or recovers them. -/
def works (k : ActionKind) : Bool := k.role = .worker || k.role = .recovery

end ActionKind

/-- The registered handlers. -/
def actionHandlers : Handlers actionSite := fun jobType =>
  if jobType = executeActionJobType then some executeActionHandler
  else if jobType = rollbackActionJobType then some rollbackActionHandler
  else none

/-- The body of a process. -/
def actionBody : ActionKind → ActionProc Unit
  | .proposeTitle action runId tenantId proposalId title currentTitle providerId
      alternatives =>
      (queueTitleForApproval action runId tenantId proposalId title currentTitle
        providerId alternatives).void
  | .proposeDescription siteId tenantId jobId url metaDescription keyword choices
      providerId =>
      (proposeDescription siteId tenantId jobId url metaDescription keyword
        choices providerId).void
  | .approve actionId principalId title note =>
      (approveAction actionId principalId title note).void
  | .reportApplied actionId principalId => (reportApplied actionId principalId).void
  | .reject actionId principalId reason =>
      (rejectAction actionId principalId reason).void
  | .rollback actionId principalId reason =>
      (rollbackAction actionId principalId reason).void
  | .cancelJob jobId principalId =>
      (cancelJob (X := actionSite) jobId principalId).void
  | .measure => runRound.void
  | .runOnce => (Ports.runOnce actionHandlers).void
  | .recover => (Ports.recover (X := actionSite)).void

/-- Any number of requests and rounds, and at most one worker. -/
@[reducible] def actionProcesses : Processes backend actionSite where
  Kind := ActionKind
  body := actionBody
  admits := fun ks k => !k.works || ks.all fun k' => !k'.works

@[reducible] def actionMachine : Machine (iface backend actionSite) :=
  Service.machine actionProcesses

/-- No records, no processes, and sites nobody has changed. -/
def untouchedSites (pages : String → String → SitePage) :
    World backend actionSite :=
  ⟨Repository.empty, .untouched pages⟩

/-! ## Terms -/

/-- What the processes may ask for, by their roles. -/
@[reducible] def actionTerms : Terms actionProcesses where
  Valid := storedUnderItsId
  permits := fun k => actionPermits k.role

theorem jobTerms_actionContract (role : JobRole) :
    JobTerms (actionContract role) (completing Finished) role where
  reads := by
    intro past o ho
    cases o <;> first | exact ⟨trivial, trivial⟩ | exact ho.elim
  updates := by
    intro past ws hw hne
    refine ⟨.job hw hne, fun w hmem => ?_⟩
    cases hw with
    | create => exact List.mem_singleton.mp hmem ▸ rfl
    | update => exact List.mem_singleton.mp hmem ▸ rfl
  found := fun h => h
  listed := fun h => h
  finishedNow := by
    intro past job status r hf hcompleted
    have hf := hf hcompleted
    have hq := @Quiet.now past r
    refine ⟨fun actionId hex => ?_, fun actionId hun => ?_⟩
    · rcases hf.carried actionId hex with ⟨m, n, hs, hm⟩ | ⟨m, n, a, rest, hsuf, h⟩
      · exact .inl ⟨m, n, (hq.actions _).trans hs, hm⟩
      · exact .inr ⟨m, n, a, rest, hsuf.trans (List.suffix_cons _ _), h⟩
    · obtain ⟨m, n, hs, hm⟩ := hf.undone actionId hun
      exact ⟨m, n, (hq.actions _).trans hs, hm⟩

/-- Every process keeps the contract of its role. -/
theorem actionTerms_kept : actionTerms.Kept := by
  intro k
  change Prog.wp (actionContract k.role) _ (actionBody k) []
  cases k with
  | proposeTitle => exact Prog.wp_void queueTitleForApproval_wp
  | proposeDescription => exact Prog.wp_void proposeDescription_wp
  | approve => exact Prog.wp_void approveAction_wp
  | reportApplied => exact Prog.wp_void reportApplied_wp
  | reject => exact Prog.wp_void rejectAction_wp
  | rollback => exact Prog.wp_void rollbackAction_wp
  | measure => exact Prog.wp_void runRound_wp
  | cancelJob =>
      exact Prog.wp_void (cancelJob_wp (jobTerms_actionContract .request) rfl)
  | recover => exact Prog.wp_void (recover_wp (jobTerms_actionContract .recovery) rfl)
  | runOnce =>
      refine Prog.wp_void (runOnce_wp (jobTerms_actionContract .worker) rfl
        (fun _ _ _ _ _ _ hne hc => absurd hc hne) ?_)
      intro past running n handler hold _ hreg
      unfold actionHandlers at hreg
      split at hreg
      · next htype =>
          obtain rfl := Option.some.inj hreg
          exact Prog.wp_mono (fun _ _ _ => .of_completing) (executeActionHandler_wp hold htype)
      split at hreg
      · next htype =>
          obtain rfl := Option.some.inj hreg
          exact Prog.wp_mono (fun _ _ _ => .of_completing) (rollbackActionHandler_wp hold htype)
      · cases hreg

end SeoAgent.Ports
