import SeoAgent.Ports.RunHandler

/-!
# The machine of runs

Requests that make runs and cancel their jobs, the worker that delivers the jobs,
and its recovery, split at every read and write. At most one worker or recovery
is there at a time, as the lock of the embedded scheduler has it; a process may
stop at any point.

`RunCommit` says which transactions the processes make and what they were
answered before; `runTerms_kept` proves it of every body once, and the later
modules argue from it alone.

## Main results

* `runTerms_kept` — every process keeps the terms.
* `seen_run_current` — what a worker has seen of a run is how it is stored.
-/

namespace SeoAgent.Ports

open Verified Verified.Machine
open Service (Op iface World Processes Terms)

/-! ## What a delivery knows -/

/-- A job that delivers a run. -/
def RunsFor (job : Job) (runId : String) : Prop :=
  job.jobType = seoRunJobType ∧ payloadText job.payload "run_id" = .ok runId

instance (job : Job) (runId : String) : Decidable (RunsFor job runId) := by
  unfold RunsFor
  infer_instance

/-- A process has the job of a run in hand. -/
def HasRun (past : RunPast) (runId : String) : Prop :=
  ∃ job n, inHand past = some (job, n) ∧ RunsFor job runId

/-- What an answer says of the run a job delivers: whether reading it, reading its
site or writing it was answered as it should. -/
def runAnswered : (iface backend runWorld).Event → Option Bool
  | ⟨.find .seoRun _, .ok (some _)⟩ => some true
  | ⟨.find .seoRun _, _⟩ => some false
  | ⟨.commit [.replace .seoRun _ _ _], .ok _⟩ => some true
  | ⟨.commit [.replace .seoRun _ _ _], .error _⟩ => some false
  | ⟨.ext (.site _), .ok _⟩ => some true
  | ⟨.ext (.site _), .error _⟩ => some false
  | ⟨.now, .error _⟩ => some false
  | _ => none

/-- The last request about the run was not answered as it should. -/
def Unanswered (past : RunPast) : Bool := past.findSome? runAnswered = some false

/-- A process has last seen a run that has ended. -/
def SeenEnded (past : RunPast) (runId : String) : Prop :=
  ∃ run n, seen .seoRun runId past = some (run, n) ∧ run.status.terminal = true

/-- What an attempt at the job of a run has seen when it ends. -/
def runEnds : EndRule runWorld := fun past job status =>
  ∀ runId, RunsFor job runId →
    SeenEnded past runId ∨ status ≠ .completed ∧ Unanswered past = true

/-- An analysis leads to a new title. -/
def SerpAnalysis (analysis : Analysis) : Prop :=
  ∀ subject, runStrategy subject analysis = some .serpTitleOptimization

/-- Every analysis a process was given leads to a new title. -/
def SerpOnly (past : RunPast) : Prop :=
  ∀ siteId startDate endDate url query analysis,
    ⟨.ext (.analyse siteId startDate endDate url query), .ok analysis⟩ ∈ past →
      SerpAnalysis analysis

/-- The id of the proposal of a run. -/
def proposalIdOf (runId : String) : String := s!"proposal:{runId}"

/-- The id of the action of a run. -/
def actionIdOf (runId : String) : String := s!"action:{runId}"

/-- A process has seen the proposal of a run, and its action if it is complete. -/
def SeenProposed (past : RunPast) (runId : String) : Prop :=
  ∃ proposal n, seen .titleProposal (proposalIdOf runId) past = some (proposal, n) ∧
    (proposal.status = .completed →
      ∃ managed k, seen .managedAction (actionIdOf runId) past = some (managed, k))

/-! ## The machine -/

/-- The processes that read or write runs. -/
inductive RunKind
  | createRun (siteId principalId : String) (request : CreateRunRequest)
  | cancelJob (jobId principalId : String)
  | runOnce
  | recover

namespace RunKind

/-- What a process does to jobs. -/
def role : RunKind → JobRole
  | createRun _ _ _ | cancelJob _ _ => .request
  | runOnce => .worker
  | recover => .recovery

/-- Whether a process is the worker's: it delivers jobs or recovers them. -/
def works (k : RunKind) : Bool := k.role = .worker || k.role = .recovery

end RunKind

/-- The body of a process. -/
def runBody (settings : RunSettings) : RunKind → RunProc Unit
  | .createRun siteId principalId request => (createRun siteId principalId request).void
  | .cancelJob jobId principalId => (cancelJob (X := runWorld) jobId principalId).void
  | .runOnce => (Ports.runOnce (runHandlers settings)).void
  | .recover => (Ports.recover (X := runWorld)).void

/-- Any number of requests, and at most one worker. -/
@[reducible] def runProcesses (settings : RunSettings) : Processes backend runWorld where
  Kind := RunKind
  body := runBody settings
  admits := fun ks k => !k.works || ks.all fun k' => !k'.works

@[reducible] def runMachine (settings : RunSettings) :
    Machine (iface backend runWorld) :=
  Service.machine (runProcesses settings)

/-- No records and no processes. -/
def noRuns : World backend runWorld := ⟨Repository.empty, ()⟩

/-! ## Terms -/

/-- What may be stored under an id. -/
def runValid : (t : AggregateType) → String → t.Payload → Prop
  | .job, i, job => job.jobId = i
  | .seoRun, i, run => run.runId = i ∧ run.status ≠ .cancelled
  | .titleProposal, i, proposal => proposal.proposalId = i ∧ i = proposalIdOf proposal.runId
  | .managedAction, i, managed => managed.actionId = i ∧ i = actionIdOf managed.runId ∧
      managed.status = .awaitingApproval
  | _, _, _ => True

/-- The commits of the processes. -/
inductive RunCommit (settings : RunSettings) (role : JobRole) (past : RunPast) :
    List (Repository.Write AggregateType AggregateType.Payload) → Prop
  | request {run : SeoRun} {job : Job} (asks : role = .request)
      (queued : run.status = .queued) (fresh : job.status = .queued)
      (delivers : RunsFor job run.runId) :
      RunCommit settings role past
        [.create .seoRun run.runId run, .create .job job.jobId job]
  | job {ws : List (Repository.Write AggregateType AggregateType.Payload)}
      (write : JobWrite runEnds role past ws)
      (updates : ∀ job : Job, ws ≠ [.create .job job.jobId job]) :
      RunCommit settings role past ws
  | run {rest : RunPast} {current run : SeoRun} {version : Nat} (works : role = .worker)
      (hand : HasRun past run.runId)
      (found : past = ⟨.find .seoRun run.runId, .ok (some (current, version))⟩ :: rest)
      (moved : run.status ≠ .queued)
      (completes : run.status = .completed → settings.titleWorkflow = true →
        SerpOnly past → SeenProposed past run.runId) :
      RunCommit settings role past [.replace .seoRun run.runId run version]
  | proposal {proposal : TitleProposal} (works : role = .worker)
      (started : ∃ run n, seen .seoRun proposal.runId past = some (run, n) ∧
        run.status = .running) :
      RunCommit settings role past
        [.create .titleProposal proposal.proposalId proposal]
  | action {managed : ManagedAction} (works : role = .worker)
      (proposed : ∃ proposal n, proposal.status = .completed ∧
        seen .titleProposal (proposalIdOf managed.runId) past = some (proposal, n)) :
      RunCommit settings role past [.create .managedAction managed.actionId managed]

/-- What a process of a role may ask for. -/
def runPermits (settings : RunSettings) (role : JobRole) (past : RunPast) :
    Op backend runWorld → Prop
  | .commit ws => RunCommit settings role past ws
  | _ => True

@[reducible] def runTerms (settings : RunSettings) : Terms (runProcesses settings) where
  Valid := runValid
  permits := fun k => runPermits settings k.role

/-- The contract of a role. -/
@[reducible] def runContract (settings : RunSettings) (role : JobRole) :
    Prog.Contract (iface backend runWorld) where
  permits past o := runPermits settings role past o ∧ Service.writesValid runValid o
  trusts := Service.readsValid runValid

/-! ## What a part of the handler leaves as it was seen -/

/-- What was seen of the records of other types, and the job in hand, are as they
were. -/
structure Apart (types : List AggregateType) (past past' : RunPast) : Prop where
  hand : inHand past' = inHand past
  seen : ∀ t i, t ∉ types → seen t i past' = seen t i past

namespace Apart

variable {types : List AggregateType} {past past' past'' : RunPast}

theorem refl (past : RunPast) : Apart types past past := ⟨rfl, fun _ _ _ => rfl⟩

theorem trans (h₁ : Apart types past past') (h₂ : Apart types past' past'') :
    Apart types past past'' :=
  ⟨h₂.hand.trans h₁.hand, fun t i ht => (h₂.seen t i ht).trans (h₁.seen t i ht)⟩

theorem mono {more : List AggregateType} (h : Apart types past past')
    (hsub : ∀ t ∈ types, t ∈ more) : Apart more past past' :=
  ⟨h.hand, fun t i ht => h.seen t i fun hmem => ht (hsub t hmem)⟩

theorem now (r : Except Exc Int) : Apart types past (⟨.now, r⟩ :: past) :=
  ⟨inHand_now r, fun _ _ _ => seen_now r⟩

theorem ext {x : RunOp} (r : Except Exc x.Res) :
    Apart types past (⟨.ext x, r⟩ :: past) :=
  ⟨inHand_ext (X := runWorld) r, fun _ _ _ => seen_ext (X := runWorld) r⟩

theorem find {t : AggregateType} (ht : t ∈ types) (i : String)
    (r : Except Exc (Option (t.Payload × Nat))) :
    Apart types past (⟨.find t i, r⟩ :: past) := by
  refine ⟨inHand_find r, fun u j hu => ?_⟩
  cases r with
  | error e => rfl
  | ok x => exact seen_find_of_ne x fun h => hu ((Prod.mk.inj h).1 ▸ ht)

/-- A transaction that writes no job leaves the job in hand. -/
theorem commit {ws : List (Repository.Write AggregateType AggregateType.Payload)}
    (hw : ∀ w ∈ ws, w.target.1 ∈ types) (hjob : .job ∉ types) (r : Except Exc Unit) :
    Apart types past (⟨.commit ws, r⟩ :: past) := by
  refine ⟨inHand_of_not_written ?_, fun t i ht => seen_commit_of_ne fun w hmem h => ?_⟩
  · unfold jobWritten
    split
    · next heq =>
        cases heq
        exact absurd (hw _ List.mem_cons_self) hjob
    · next heq =>
        cases heq
        exact absurd (hw _ List.mem_cons_self) hjob
    · rfl
  · exact ht ((Prod.mk.inj h).1 ▸ hw w hmem)

theorem hasRun (h : Apart types past past') {runId : String} (hh : HasRun past runId) :
    HasRun past' runId :=
  let ⟨job, n, hhand, hfor⟩ := hh
  ⟨job, n, h.hand.trans hhand, hfor⟩

theorem holding (h : Apart types past past') (hjob : .job ∉ types) {running : Job} {n : Nat}
    (hh : Holding running n past) : Holding running n past' :=
  ⟨(h.seen _ _ hjob).trans hh.1, h.hand.trans hh.2⟩

end Apart

/-! ## The parts of the handler -/

section Handler
variable {settings : RunSettings} {past : RunPast}

/-- The contract of the worker. -/
abbrev runWorker (settings : RunSettings) : Prog.Contract (iface backend runWorld) :=
  runContract settings .worker

theorem runSeoRun_wp {site : RunSite} {run : SeoRun} :
    Prog.wp (runWorker settings) (fun past' r => Apart [] past past' ∧
        ∀ result, r = .ok result → result.WellFormed (run.subject site) ∧
          (SerpOnly past' → ∃ strategy, result.strategy = some strategy ∧
            strategy.strategyType = .serpTitleOptimization))
      (runSeoRun site run) past := by
  unfold runSeoRun
  split
  · exact ⟨.refl _, fun _ h => by cases h⟩
  refine ext_bind ⟨trivial, trivial⟩ (fun analysis => ?_) fun e =>
    ⟨.ext _, fun _ h => by cases h⟩
  rw [Prog.wp_ofExcept]
  refine ⟨.ext _, fun result hresult => ?_⟩
  obtain ⟨result', hresult', hwell⟩ := runDecisionPipeline_ok (run.subject site) analysis
  obtain rfl := Except.ok.inj (hresult'.symm.trans hresult)
  refine ⟨hwell, fun hserp => ?_⟩
  have hstrategy := hserp _ _ _ _ _ analysis List.mem_cons_self (run.subject site)
  unfold runStrategy at hstrategy
  rw [hresult'] at hstrategy
  obtain ⟨strategy, hs, ht⟩ := Option.map_eq_some_iff.mp hstrategy
  exact ⟨strategy, hs, ht⟩

/-- What a proposal of the workflow is. -/
structure RunProposal (runId : String) (proposal : TitleProposal) : Prop where
  id : proposal.proposalId = proposalIdOf runId
  run : proposal.runId = runId
  title : proposal.status = .completed → ∃ title, proposal.selectedTitle = some title ∧
    Text.normal title ≠ "" ∧ (Text.normal title).length ≤ 200

theorem TitleProposal.new_ok {runId tenantId : String} {strategy : Strategy}
    {status : TitleProposalStatus} {recommendation : TitleRecommendation}
    {investigation : SerpInvestigation} {decision : SerpDecision}
    {reasoning : Option TitleReasoning} {selectedTitle providerId : Option String}
    {reasons : List String} {proposal : TitleProposal}
    (h : TitleProposal.new runId tenantId strategy status recommendation investigation
      decision reasoning selectedTitle providerId reasons = .ok proposal) :
    proposal.proposalId = proposalIdOf runId ∧ proposal.runId = runId ∧
      proposal.status = status ∧ proposal.selectedTitle = selectedTitle := by
  unfold TitleProposal.new at h
  split at h
  · obtain rfl := Except.ok.inj h
    exact ⟨rfl, rfl, rfl, rfl⟩
  · cases h

/-- The candidates of an orchestration passed the checks. -/
structure Checked (maps : CaseMaps) (orchestration : Orchestration) : Prop where
  valid : ∀ c ∈ orchestration.candidates, ∃ input, validateTitleCandidate maps c input = []
  selected : orchestration.candidates ≠ [] → ∃ c ∈ orchestration.candidates,
    orchestration.reasoning.bind TitleReasoning.selectedCandidateId = some c.candidateId

theorem orchestrated_checked (maps : CaseMaps) (input : TitleReasoningInput)
    (answer : RouterAnswer) : Checked maps (orchestrated maps input answer) := by
  unfold orchestrated
  cases answer.candidates with
  | error exc => exact ⟨nofun, fun h => absurd rfl h⟩
  | ok raw =>
      obtain ⟨hvalid, hselected⟩ := generateTitleReasoning_selected
        (rfl : generateTitleReasoning maps input raw = _)
      exact ⟨fun c hc => ⟨input, hvalid c hc⟩, hselected⟩

theorem proposalOf_ok {maps : CaseMaps} {runId tenantId : String} {strategy : Strategy}
    {recommendation : TitleRecommendation} {investigation : SerpInvestigation}
    {decision : SerpDecision} {orchestration : Orchestration} {proposal : TitleProposal}
    (hchecked : Checked maps orchestration)
    (h : proposalOf runId tenantId strategy recommendation investigation decision
      orchestration = .ok proposal) : RunProposal runId proposal := by
  unfold proposalOf at h
  split at h
  · obtain ⟨hid, hrun, hstatus, -⟩ := TitleProposal.new_ok h
    exact ⟨hid, hrun, fun hc => by rw [hstatus] at hc; cases hc⟩
  split at h
  · cases h
  next selected hfound =>
    obtain ⟨hid, hrun, -, htitle⟩ := TitleProposal.new_ok h
    obtain ⟨input, hvalid⟩ := hchecked.valid selected (List.mem_of_find?_eq_some hfound)
    exact ⟨hid, hrun, fun _ => ⟨selected.title, htitle, title_of_valid hvalid⟩⟩

theorem searchResults_wp {query : String} :
    Prog.wp (runWorker settings) (fun past' _ => Apart [] past past')
      (searchResults query) past := by
  unfold searchResults
  rw [Prog.wp_tryCatch]
  refine ext_bind ⟨trivial, trivial⟩ (fun _ => .ext _) fun e => ?_
  rw [Prog.recovering_error]
  split
  · exact Apart.ext _
  · exact Apart.ext _

theorem orchestrate_wp {maps : CaseMaps} {recommendation : TitleRecommendation}
    {investigation : SerpInvestigation} {decision : SerpDecision} :
    Prog.wp (runWorker settings) (fun past' r => Apart [] past past' ∧
        ∀ orchestration, r = .ok orchestration → Checked maps orchestration)
      (orchestrate maps recommendation investigation decision) past := by
  unfold orchestrate
  split
  · refine ext_bind ⟨trivial, trivial⟩ (fun _ => ⟨.ext _, ?_⟩) fun _ =>
      ⟨.ext _, fun _ h => by cases h⟩
    rintro _ ⟨⟩
    exact ⟨nofun, fun h => absurd rfl h⟩
  · refine ext_bind ⟨trivial, trivial⟩ (fun answer => ⟨.ext _, ?_⟩) fun _ =>
      ⟨.ext _, fun _ h => by cases h⟩
    rintro _ ⟨⟩
    exact orchestrated_checked maps _ answer

/-- A stored proposal is the one record of its run. -/
theorem createTitleProposal_wp {runId : String} {proposal : TitleProposal}
    (hp : RunProposal runId proposal)
    (hs : ∃ run n, seen .seoRun runId past = some (run, n) ∧ run.status = .running) :
    Prog.wp (runWorker settings) (fun past' r => Apart [.titleProposal] past past' ∧
        ∀ made, r = .ok made → RunProposal runId made ∧
          ∃ n, seen .titleProposal (proposalIdOf runId) past' = some (made, n))
      (createTitleProposal proposal) past := by
  have hpermits : (runWorker settings).permits past
      (.commit [.create .titleProposal proposal.proposalId proposal]) := by
    refine ⟨.proposal rfl (hp.run ▸ hs), fun w hw => ?_⟩
    obtain rfl := List.mem_singleton.mp hw
    exact ⟨rfl, hp.id.trans (hp.run ▸ rfl)⟩
  have happart : ∀ r : Except Exc Unit, Apart [.titleProposal] past
      (⟨.commit [.create .titleProposal proposal.proposalId proposal], r⟩ :: past) :=
    fun r => .commit (fun w hw => by
      obtain rfl := List.mem_singleton.mp hw
      exact List.mem_cons_self) (by decide) r
  refine commit_bind hpermits ⟨happart _, ?_⟩ fun e => ⟨happart _, fun _ h => by cases h⟩
  rintro made ⟨⟩
  refine ⟨hp, 1, ?_⟩
  rw [← hp.id]
  simp [seen, Service.seen, Service.tells, Service.lastWrite, Service.writeTells]

/-- The workflow of a run that is under way stores one proposal. -/
theorem titleWorkflow_wp {maps : CaseMaps} {runId : String} {site : RunSite}
    {strategy : Strategy}
    (hs : ∃ run n, seen .seoRun runId past = some (run, n) ∧ run.status = .running) :
    Prog.wp (runWorker settings) (fun past' r => Apart [.titleProposal] past past' ∧
        ∀ made, r = .ok made → RunProposal runId made ∧
          ∃ n, seen .titleProposal (proposalIdOf runId) past' = some (made, n))
      (titleWorkflow maps runId site strategy) past := by
  have hcreate : ∀ {past' : RunPast} {proposal : TitleProposal}, Apart [] past past' →
      RunProposal runId proposal →
      Prog.wp (runWorker settings) (fun past'' r => Apart [.titleProposal] past past'' ∧
          ∀ made, r = .ok made → RunProposal runId made ∧
            ∃ n, seen .titleProposal (proposalIdOf runId) past'' = some (made, n))
        (createTitleProposal proposal) past' := by
    intro past' proposal happart hp
    have hs' : ∃ run n, seen .seoRun runId past' = some (run, n) ∧ run.status = .running := by
      rw [happart.seen .seoRun runId List.not_mem_nil]
      exact hs
    refine Prog.wp_mono (fun past'' r _ hQ => ⟨?_, hQ.2⟩) (createTitleProposal_wp hp hs')
    exact (happart.mono fun _ h => absurd h List.not_mem_nil).trans hQ.1
  have hraise : ∀ {past' : RunPast} {e : Exc}, Apart [] past past' →
      (fun (past'' : RunPast) (r : Except Exc TitleProposal) =>
        Apart [.titleProposal] past past'' ∧ ∀ made, r = .ok made → RunProposal runId made ∧
          ∃ n, seen .titleProposal (proposalIdOf runId) past'' = some (made, n))
        past' (.error e) := by
    intro past' e happart
    exact ⟨happart.mono fun _ h => absurd h List.not_mem_nil, fun _ h => by cases h⟩
  unfold titleWorkflow
  split
  · exact hraise (.refl _)
  refine ext_bind ⟨trivial, trivial⟩ (fun title => ?_) fun _ => hraise (.ext _)
  refine Prog.wp_seq searchResults_wp (fun past₁ found _ h₁ => ?_) fun past₁ e _ h₁ =>
    hraise ((Apart.ext _).trans h₁)
  obtain ⟨snapshot, serpReasons⟩ := found
  have hbefore : Apart [] past past₁ := (Apart.ext _).trans h₁
  refine Prog.wp_ofExcept_bind (fun investigation _ => ?_) fun _ _ => hraise hbefore
  dsimp only
  split
  · refine Prog.wp_ofExcept_bind (fun proposal hp => ?_) fun _ _ => hraise hbefore
    obtain ⟨hid, hrun, hstatus, -⟩ := TitleProposal.new_ok hp
    exact hcreate hbefore ⟨hid, hrun, fun hc => by rw [hstatus] at hc; cases hc⟩
  · refine Prog.wp_seq orchestrate_wp (fun past₂ orchestration _ h₂ => ?_)
      fun past₂ e _ h₂ => hraise (hbefore.trans h₂.1)
    have hafter : Apart [] past past₂ := hbefore.trans h₂.1
    refine Prog.wp_ofExcept_bind (fun proposal hp => ?_) fun _ _ => hraise hafter
    exact hcreate hafter (proposalOf_ok (h₂.2 orchestration rfl) hp)

/-- What identifies the action a proposal waits with. -/
theorem proposeTitleChange_ids {at_ : Int} {action : Action}
    {runId tenantId proposalId proposedTitle : String}
    {currentTitle providerId : Option String} {alternatives : List String}
    {managed : ManagedAction}
    (h : proposeTitleChange at_ action runId tenantId proposalId proposedTitle currentTitle
      providerId alternatives = .ok managed) :
    managed.actionId = actionIdOf runId ∧ managed.runId = runId ∧
      managed.status = .awaitingApproval := by
  unfold proposeTitleChange at h
  split at h
  · cases h
  obtain ⟨title, -, h⟩ := bind_eq_ok.mp h
  obtain rfl := Except.ok.inj h
  exact ⟨rfl, rfl, rfl⟩

/-- The action of a complete proposal is there afterwards. -/
theorem queueForApproval_wp {run : SeoRun} {action : Option Action}
    {proposal : TitleProposal} {n : Nat}
    (hs : seen .titleProposal (proposalIdOf run.runId) past = some (proposal, n)) :
    Prog.wp (runWorker settings) (fun past' r => Apart [.managedAction] past past' ∧
        ∀ pending, r = .ok pending → proposal.status = .completed → action.isSome →
          ∃ managed k, seen .managedAction (actionIdOf run.runId) past' = some (managed, k))
      (queueForApproval run action proposal) past := by
  cases action with
  | none => exact ⟨.refl _, fun _ _ _ h => by cases h⟩
  | some action =>
      unfold queueForApproval
      dsimp only
      split
      · next hne => exact ⟨.refl _, fun _ _ hc _ => absurd hc hne⟩
      next hcompleted =>
      refine now_bind ⟨trivial, trivial⟩ (fun at_ => ?_) fun _ =>
        ⟨.now _, fun _ h => by cases h⟩
      refine Prog.wp_ofExcept_bind (fun managed hm => ?_) fun _ _ =>
        ⟨.now _, fun _ h => by cases h⟩
      obtain ⟨hid, hrun, hstatus⟩ := proposeTitleChange_ids hm
      have hlooked : ∀ r : Except Exc (Option (ManagedAction × Nat)),
          Apart [.managedAction] past
            (⟨.find .managedAction managed.actionId, r⟩ :: ⟨.now, .ok at_⟩ :: past) :=
        fun r => (Apart.now _).trans (.find (t := .managedAction) List.mem_cons_self _ r)
      refine find_bind ⟨trivial, trivial⟩ (fun existing k _ => ⟨hlooked _, ?_⟩) ?_ fun _ =>
        ⟨hlooked _, fun _ h => by cases h⟩
      · intro _ _ _ _
        exact ⟨existing, k, hid ▸ seen_find (t := .managedAction) (some (existing, k))⟩
      have hwrite : ∀ r : Except Exc Unit, Apart [.managedAction] past
          (⟨.commit [.create .managedAction managed.actionId managed], r⟩ ::
            ⟨.find .managedAction managed.actionId, .ok none⟩ :: ⟨.now, .ok at_⟩ :: past) :=
        fun r => (hlooked _).trans (.commit (fun w hw => by
          obtain rfl := List.mem_singleton.mp hw
          exact List.mem_cons_self) (by decide) r)
      refine commit_bind ⟨.action rfl ⟨proposal, n, not_not.mp hcompleted, ?_⟩, ?_⟩
        ⟨hwrite _, ?_⟩ fun _ => ⟨hwrite _, fun _ h => by cases h⟩
      · rw [hrun, (hlooked _).seen _ _ (by decide)]
        exact hs
      · intro w hw
        obtain rfl := List.mem_singleton.mp hw
        exact ⟨rfl, hid.trans (hrun ▸ rfl), hstatus⟩
      · intro _ _ _ _
        refine ⟨managed, 1, ?_⟩
        rw [← hid]
        simp [seen, Service.seen, Service.tells, Service.lastWrite, Service.writeTells]

/-! ## Reading and writing the run -/

theorem SerpOnly.of_suffix {past' : RunPast} (h : SerpOnly past') (hs : past <:+ past') :
    SerpOnly past := fun siteId startDate endDate url query analysis hmem =>
  h siteId startDate endDate url query analysis (hs.subset hmem)

theorem SeenProposed.apart {types : List AggregateType} {past' : RunPast}
    {runId : String} (h : SeenProposed past runId) (ha : Apart types past past')
    (hp : .titleProposal ∉ types) (hm : .managedAction ∉ types) :
    SeenProposed past' runId := by
  obtain ⟨proposal, n, hs, hc⟩ := h
  refine ⟨proposal, n, (ha.seen _ _ hp).trans hs, fun hdone => ?_⟩
  obtain ⟨managed, k, hsm⟩ := hc hdone
  exact ⟨managed, k, (ha.seen _ _ hm).trans hsm⟩

theorem SeenEnded.apart {types : List AggregateType} {past' : RunPast}
    {runId : String} (h : SeenEnded past runId) (ha : Apart types past past')
    (hr : .seoRun ∉ types) : SeenEnded past' runId :=
  let ⟨run, n, hs, ht⟩ := h
  ⟨run, n, (ha.seen _ _ hr).trans hs, ht⟩

theorem unanswered_of_event {ev : (iface backend runWorld).Event}
    (h : runAnswered ev = some false) : Unanswered (ev :: past) = true := by
  simp [Unanswered, h]

theorem getRun_wp {runId : String} :
    Prog.wp (runWorker settings) (fun past' r => Apart [.seoRun] past past' ∧
        (∀ run, r = .ok run → run.runId = runId ∧ run.status ≠ .cancelled ∧
          ∃ n, seen .seoRun runId past' = some (run, n)) ∧
        ∀ e, r = .error e → Unanswered past' = true)
      (RunStore.get runId) past := by
  have hlooked : ∀ r : Except Exc (Option (SeoRun × Nat)),
      Apart [.seoRun] past (⟨.find .seoRun runId, r⟩ :: past) :=
    fun r => .find (t := .seoRun) List.mem_cons_self _ r
  refine find_bind ⟨trivial, trivial⟩ (fun run n htrusts => ⟨hlooked _, ?_, ?_⟩)
    ⟨hlooked _, ?_, ?_⟩ fun e => ⟨hlooked _, ?_, ?_⟩
  · rintro _ ⟨⟩
    exact ⟨htrusts.1, htrusts.2, n, seen_find (t := .seoRun) (some (run, n))⟩
  · intro _ h
    cases h
  · intro _ h
    cases h
  · exact fun _ _ => unanswered_of_event rfl
  · intro _ h
    cases h
  · exact fun _ _ => unanswered_of_event rfl

theorem updateRun_wp {run : SeoRun} (hand : HasRun past run.runId)
    (hq : run.status ≠ .queued) (hx : run.status ≠ .cancelled)
    (hc : run.status = .completed → settings.titleWorkflow = true → SerpOnly past →
      SeenProposed past run.runId) :
    Prog.wp (runWorker settings) (fun past' r => Apart [.seoRun] past past' ∧
        (∀ made, r = .ok made → ∃ n, seen .seoRun run.runId past' = some (run, n)) ∧
        ∀ e, r = .error e → Unanswered past' = true)
      (RunStore.update run) past := by
  have hlooked : ∀ r : Except Exc (Option (SeoRun × Nat)),
      Apart [.seoRun] past (⟨.find .seoRun run.runId, r⟩ :: past) :=
    fun r => .find (t := .seoRun) List.mem_cons_self _ r
  refine find_bind ⟨trivial, trivial⟩ (fun current version _ => ?_)
    ⟨hlooked _, fun _ h => (by cases h), fun _ _ => unanswered_of_event rfl⟩
    fun e => ⟨hlooked _, fun _ h => (by cases h), fun _ _ => unanswered_of_event rfl⟩
  have hwritten : ∀ r : Except Exc Unit, Apart [.seoRun] past
      (⟨.commit [.replace .seoRun run.runId run version], r⟩ ::
        ⟨.find .seoRun run.runId, .ok (some (current, version))⟩ :: past) := fun r =>
    (hlooked _).trans (.commit (fun w hw => by
      obtain rfl := List.mem_singleton.mp hw
      exact List.mem_cons_self) (by decide) r)
  refine commit_bind ⟨.run rfl ((hlooked _).hasRun hand) rfl hq ?_, ?_⟩
    ⟨hwritten _, fun _ _ => ⟨version + 1, seen_replace (t := .seoRun) run version⟩,
      fun _ h => (by cases h)⟩
    fun e => ⟨hwritten _, fun _ h => (by cases h), fun _ _ => unanswered_of_event rfl⟩
  · intro hcompleted hworkflow hserp
    exact (hc hcompleted hworkflow (hserp.of_suffix (List.suffix_cons _ _))).apart
      (hlooked _) (by decide) (by decide)
  · intro w hw
    obtain rfl := List.mem_singleton.mp hw
    exact ⟨rfl, hx⟩

/-! ## The handler -/

/-- The types of the records a handler writes. -/
abbrev runTypes : List AggregateType := [.seoRun, .titleProposal, .managedAction]

/-- A run with a strategy is given a proposal, which has been seen. -/
def GivenProposal (settings : RunSettings) (runId : String) (result : PipelineResult)
    (past : RunPast) (made : Option TitleProposal) : Prop :=
  (settings.titleWorkflow = true → made = none → result.strategy = none) ∧
    ∀ proposal, made = some proposal →
      ∃ n, seen .titleProposal (proposalIdOf runId) past = some (proposal, n)

/-- What the guarded part has proposed when it completes the run. -/
theorem proposeTitle_wp {run : SeoRun} {site : RunSite} {result : PipelineResult}
    (hs : ∃ started n, seen .seoRun run.runId past = some (started, n) ∧
      started.status = .running) :
    Prog.wp (runWorker settings) (fun past' r => Apart [.titleProposal] past past' ∧
        ∀ made, r = .ok made → GivenProposal settings run.runId result past' made)
      (proposeTitle settings run site result) past := by
  unfold proposeTitle
  cases hstrategy : result.strategy with
  | none =>
      rw [Prog.wp_pure]
      refine ⟨.refl _, fun made hmade => ?_⟩
      obtain rfl : none = made := Except.ok.inj hmade
      exact ⟨fun _ _ => hstrategy, fun _ h => (by cases h)⟩
  | some strategy =>
      dsimp only
      cases hworkflow : settings.titleWorkflow with
      | false =>
          rw [if_neg Bool.false_ne_true, Prog.wp_pure]
          refine ⟨.refl _, fun made hmade => ?_⟩
          obtain rfl : none = made := Except.ok.inj hmade
          refine ⟨fun h => ?_, fun _ h => (by cases h)⟩
          rw [hworkflow] at h
          cases h
      | true =>
          rw [if_pos rfl]
          refine Prog.wp_seq (titleWorkflow_wp hs) (fun past' proposal _ hQ => ?_)
            fun past' e _ hQ => ⟨hQ.1, fun _ h => by cases h⟩
          rw [Prog.wp_pure]
          refine ⟨hQ.1, fun made hmade => ?_⟩
          obtain rfl : some proposal = made := Except.ok.inj hmade
          refine ⟨fun _ h => (by cases h), fun proposal' hp => ?_⟩
          obtain rfl := Option.some.inj hp
          exact (hQ.2 proposal rfl).2

/-- The action is queued, and what was proposed is still what was seen last. -/
theorem queueProposal_wp {subject : Subject} {run : SeoRun} {result : PipelineResult}
    {made : Option TitleProposal} {rest : RunPast} (hwell : result.WellFormed subject)
    (hserp : SerpOnly rest → ∃ strategy, result.strategy = some strategy ∧
      strategy.strategyType = .serpTitleOptimization)
    (hgiven : GivenProposal settings run.runId result past made) :
    Prog.wp (runWorker settings) (fun past' r => Apart [.managedAction] past past' ∧
        ∀ pending, r = .ok pending → settings.titleWorkflow = true → SerpOnly rest →
          SeenProposed past' run.runId)
      (queueProposal run result.action made) past := by
  cases made with
  | none =>
      refine ⟨.refl _, fun _ _ hworkflow honly => ?_⟩
      obtain ⟨strategy, hstrategy, -⟩ := hserp honly
      rw [hgiven.1 hworkflow rfl] at hstrategy
      cases hstrategy
  | some proposal =>
      obtain ⟨n, hp⟩ := hgiven.2 proposal rfl
      refine Prog.wp_mono (fun past' r _ hQ => ⟨hQ.1, fun pending hr _ honly => ?_⟩)
        (queueForApproval_wp hp)
      refine ⟨proposal, n, (hQ.1.seen _ _ (by decide)).trans hp, fun hdone => ?_⟩
      obtain ⟨strategy, hstrategy, -⟩ := hserp honly
      obtain ⟨action, haction, -⟩ := hwell.action strategy hstrategy
      exact hQ.2 pending hr hdone (by rw [haction]; rfl)

theorem carryOutRun_wp {run running : SeoRun} {site : RunSite} {k : Nat}
    (hand : HasRun past running.runId) (hid : run.runId = running.runId)
    (hs : seen .seoRun running.runId past = some (running, k))
    (hran : running.status = .running) :
    Prog.wp (runWorker settings) (fun past' r => Apart runTypes past past' ∧
        ∀ a, r = .ok a → SeenEnded past' running.runId)
      (carryOutRun settings run running site) past := by
  unfold carryOutRun
  refine Prog.wp_seq runSeoRun_wp (fun past₁ result hsuf₁ h₁ => ?_) fun past₁ e _ h₁ =>
    ⟨h₁.1.mono nofun, fun _ h => by cases h⟩
  obtain ⟨hapart₁, hresult⟩ := h₁
  obtain ⟨hwell, hserp⟩ := hresult result rfl
  have hs₁ : ∃ started n, seen .seoRun run.runId past₁ = some (started, n) ∧
      started.status = .running :=
    ⟨running, k, by rw [hapart₁.seen _ _ List.not_mem_nil, hid]; exact hs, hran⟩
  refine Prog.wp_seq (proposeTitle_wp hs₁) (fun past₂ made hsuf₂ h₂ => ?_)
    fun past₂ e _ h₂ => ⟨(hapart₁.mono nofun).trans (h₂.1.mono (by decide)),
      fun _ h => by cases h⟩
  obtain ⟨hapart₂, hmade⟩ := h₂
  have hbefore : Apart runTypes past past₂ :=
    (hapart₁.mono nofun).trans (hapart₂.mono (by decide))
  refine Prog.wp_seq (queueProposal_wp hwell hserp (hmade made rfl))
    (fun past₃ pending hsuf₃ h₃ => ?_) fun past₃ e _ h₃ =>
    ⟨hbefore.trans (h₃.1.mono (by decide)), fun _ h => by cases h⟩
  have hafter : Apart runTypes past past₃ := hbefore.trans (h₃.1.mono (by decide))
  refine now_bind ⟨trivial, trivial⟩ (fun at_ => ?_) fun _ =>
    ⟨hafter.trans (.now _), fun _ h => by cases h⟩
  refine Prog.wp_ofExcept_bind (fun completed hcomp => ?_) fun _ _ =>
    ⟨hafter.trans (.now _), fun _ h => by cases h⟩
  obtain ⟨hdone, -, hsame⟩ := SeoRun.complete_ok hcomp
  have hnow : Apart runTypes past (⟨.now, .ok at_⟩ :: past₃) := hafter.trans (.now _)
  refine Prog.wp_seq (updateRun_wp (hsame.runId ▸ hnow.hasRun hand) (by rw [hdone]; nofun)
      (by rw [hdone]; nofun) fun _ hworkflow honly => ?_)
    (fun past₄ a _ hQ => ⟨hnow.trans (hQ.1.mono (by decide)), ?_⟩)
    fun past₄ e _ hQ => ⟨hnow.trans (hQ.1.mono (by decide)), fun _ h => by cases h⟩
  · rw [hsame.runId]
    have honly₁ : SerpOnly past₁ :=
      honly.of_suffix ((hsuf₂.trans hsuf₃).trans (List.suffix_cons _ _))
    have hproposed := h₃.2 pending rfl hworkflow honly₁
    rw [hid] at hproposed
    exact hproposed.apart (.now _) List.not_mem_nil List.not_mem_nil
  · intro _ _
    obtain ⟨n, hn⟩ := hQ.2.1 a rfl
    exact ⟨completed, n, hsame.runId ▸ hn, by rw [hdone]; rfl⟩

theorem failRun_wp {running : SeoRun} {exc : Exc} (hand : HasRun past running.runId)
    (hran : running.status = .running) :
    Prog.wp (runWorker settings) (fun past' r => Apart [.seoRun] past past' ∧
        (∀ a, r ≠ .ok a) ∧ (SeenEnded past' running.runId ∨ Unanswered past' = true))
      (failRun running exc) past := by
  refine now_bind ⟨trivial, trivial⟩ (fun at_ => ?_) fun _ =>
    ⟨.now _, fun _ h => (by cases h), .inr (unanswered_of_event rfl)⟩
  refine Prog.wp_ofExcept_bind (fun failed hfail => ?_) fun e he => ?_
  case refine_2 =>
    obtain ⟨failed, hfail⟩ : ∃ failed, running.fail exc.message at_ = .ok failed :=
      SeoRun.fail_of_running hran exc.message
    rw [hfail] at he
    cases he
  obtain ⟨hfailed, hsame⟩ := SeoRun.fail_ok hfail
  have hnow : Apart [.seoRun] past (⟨.now, .ok at_⟩ :: past) := .now _
  refine Prog.wp_seq (updateRun_wp (hsame.runId ▸ hnow.hasRun hand) (by rw [hfailed]; nofun)
      (by rw [hfailed]; nofun) fun h => by rw [hfailed] at h; cases h)
    (fun past' a _ hQ => ⟨hnow.trans hQ.1, fun _ h => (by cases h), .inl ?_⟩)
    fun past' e _ hQ => ⟨hnow.trans hQ.1, fun _ h => (by cases h), .inr (hQ.2.2 e rfl)⟩
  obtain ⟨n, hn⟩ := hQ.2.1 a rfl
  exact ⟨failed, n, hsame.runId ▸ hn, by rw [hfailed]; rfl⟩

/-- How the handler of a run leaves its attempt. -/
structure RunDelivered (running : Job) (n : Nat) (runId : String) (past : RunPast)
    (r : Except Exc Dict) : Prop where
  holding : Holding running n past
  returned : ∀ a, r = .ok a → SeenEnded past runId
  raised : ∀ e, r = .error e → SeenEnded past runId ∨ Unanswered past = true

theorem handleSeoRun_wp {payload : Dict} {job : Job} {n : Nat} {runId : String}
    (hold : Holding job n past) (hfor : RunsFor job runId)
    (hpayload : payloadText payload "run_id" = .ok runId) :
    Prog.wp (runWorker settings) (RunDelivered job n runId)
      (handleSeoRun settings payload) past := by
  have holding : ∀ {past'}, Apart runTypes past past' → Holding job n past' :=
    fun h => h.holding (by decide) hold
  have hasRun : ∀ {past'}, Apart runTypes past past' → HasRun past' runId :=
    fun h => ⟨job, n, (holding h).2, hfor⟩
  unfold handleSeoRun
  refine Prog.wp_ofExcept_bind (fun runId' hrun => ?_) fun e he => by
    rw [hpayload] at he
    cases he
  obtain rfl : runId' = runId := Except.ok.inj (hrun.symm.trans hpayload)
  refine Prog.wp_seq getRun_wp (fun past₁ run _ h₁ => ?_) fun past₁ e _ h₁ =>
    ⟨holding (h₁.1.mono (by decide)), fun _ h => (by cases h), fun _ _ =>
      .inr (h₁.2.2 e rfl)⟩
  obtain ⟨hapart₁, hfound, -⟩ := h₁
  obtain ⟨hid, hnever, k, hseen⟩ := hfound run rfl
  have hone : Apart runTypes past past₁ := hapart₁.mono (by decide)
  refine ext_bind ⟨trivial, trivial⟩ (fun site => ?_) fun e =>
    ⟨holding (hone.trans (.ext _)), fun _ h => (by cases h), fun _ _ =>
      .inr (unanswered_of_event rfl)⟩
  have htwo : Apart runTypes past (⟨.ext (.site run.siteId), .ok site⟩ :: past₁) :=
    hone.trans (.ext _)
  split
  · next hdone =>
    refine ⟨holding htwo, fun _ _ => ?_, fun _ h => (by cases h)⟩
    exact ⟨run, k, (seen_ext (X := runWorld) _).trans hseen, by rw [hdone]; rfl⟩
  next hopen =>
  refine now_bind ⟨trivial, trivial⟩ (fun at_ => ?_) fun e =>
    ⟨holding (htwo.trans (.now _)), fun _ h => (by cases h), fun _ _ =>
      .inr (unanswered_of_event rfl)⟩
  have hthree := htwo.trans (Apart.now (.ok at_))
  refine Prog.wp_ofExcept_bind (fun running hstart => ?_) fun e he => ?_
  case refine_2 =>
    obtain ⟨running, hrunning⟩ : ∃ running, run.requeued.start at_ = .ok running :=
      SeoRun.start_requeued hopen hnever
    rw [hrunning] at he
    cases he
  obtain ⟨hran, hstarted⟩ := SeoRun.start_ok hstart
  have hsame : running.runId = runId' := (hstarted.runId.trans run.requeued_same.runId).trans hid
  refine Prog.wp_seq (updateRun_wp (hsame ▸ hasRun hthree) (by rw [hran]; nofun)
      (by rw [hran]; nofun) fun h => by rw [hran] at h; cases h)
    (fun past₂ a _ h₂ => ?_) fun past₂ e _ h₂ =>
      ⟨holding (hthree.trans (h₂.1.mono (by decide))), fun _ h => (by cases h), fun _ _ =>
        .inr (h₂.2.2 e rfl)⟩
  have hfour := hthree.trans (h₂.1.mono (by decide))
  obtain ⟨m, hm⟩ := h₂.2.1 a rfl
  refine Prog.wp_try (carryOutRun_wp (hsame ▸ hasRun hfour) hstarted.runId.symm hm hran)
    (fun past₃ a' _ h₃ => ?_) fun past₃ e _ h₃ => ?_
  · exact ⟨holding (hfour.trans h₃.1), fun _ _ => hsame ▸ h₃.2 a' rfl,
      fun _ h => (by cases h)⟩
  · have hfive := hfour.trans h₃.1
    refine Prog.wp_mono (fun past₄ r _ h₄ => ?_) (failRun_wp (hsame ▸ hasRun hfive) hran)
    exact ⟨holding (hfive.trans (h₄.1.mono (by decide))),
      fun a' h => absurd h (h₄.2.1 a'), fun _ _ => hsame ▸ h₄.2.2⟩

theorem seoRunHandler_wp {payload : Dict} {job : Job} {n : Nat} {runId : String}
    (hold : Holding job n past) (hfor : RunsFor job runId)
    (hpayload : payloadText payload "run_id" = .ok runId) :
    Prog.wp (runWorker settings) (RunDelivered job n runId)
      (seoRunHandler settings payload) past := by
  unfold seoRunHandler
  cases settings.observed with
  | false =>
      rw [if_neg Bool.false_ne_true]
      exact handleSeoRun_wp hold hfor hpayload
  | true =>
      rw [if_pos rfl, hpayload]
      refine Prog.wp_ofExcept_bind (fun runId' hrun => ?_) fun e he => by cases he
      obtain rfl := Except.ok.inj hrun
      refine Prog.wp_seq getRun_wp (fun past₁ run _ h₁ => ?_) fun past₁ e _ h₁ =>
        ⟨h₁.1.holding (by decide) hold, fun _ h => (by cases h), fun _ _ =>
          .inr (h₁.2.2 e rfl)⟩
      exact handleSeoRun_wp (h₁.1.holding (by decide) hold) hfor hpayload

end Handler

/-! ## Every process keeps the terms -/

section Kept
variable {settings : RunSettings}

theorem runEnds_now {past : RunPast} {job : Job} {status : JobStatus}
    {r : Except Exc Int} (h : runEnds past job status) :
    runEnds (⟨.now, r⟩ :: past) job status := by
  intro runId hfor
  rcases h runId hfor with hended | ⟨hne, hun⟩
  · have hnow : Apart [] past (⟨.now, r⟩ :: past) := .now r
    exact .inl (hended.apart hnow List.not_mem_nil)
  · refine .inr ⟨hne, ?_⟩
    cases r with
    | error e => exact unanswered_of_event rfl
    | ok t => exact hun

theorem jobTerms_runContract (role : JobRole) :
    JobTerms (runContract settings role) runEnds role where
  reads := by
    intro past o ho
    cases o <;> first | exact ⟨trivial, trivial⟩ | exact ho.elim
  updates := by
    intro past ws hw hne
    refine ⟨.job hw hne, fun w hmem => ?_⟩
    cases hw with
    | create => exact List.mem_singleton.mp hmem ▸ rfl
    | update => exact List.mem_singleton.mp hmem ▸ rfl
  found := fun h => h
  listed := fun h => h
  finishedNow := runEnds_now

theorem createRun_wp {siteId principalId : String} {request : CreateRunRequest} :
    Prog.wp (runContract settings .request) (fun _ _ => True)
      (createRun siteId principalId request) [] := by
  unfold createRun
  split
  · trivial
  refine Prog.wp_seq (Q := fun _ _ => True) ?_ (fun past site _ _ => ?_) fun _ _ _ _ => trivial
  · unfold getRunSite
    rw [Prog.wp_tryCatch]
    refine ext_wp (X := runWorld) ⟨trivial, trivial⟩ fun r => ?_
    cases r with
    | ok a => trivial
    | error e =>
        rw [Prog.recovering_error]
        split <;> trivial
  refine Prog.wp_ofExcept_bind (fun _ _ => ?_) fun _ _ => trivial
  refine ext_bind ⟨trivial, trivial⟩ (fun _ => ?_) fun _ => trivial
  split
  · trivial
  refine newId_bind ⟨trivial, trivial⟩ (fun jobId => ?_) fun _ => trivial
  refine newId_bind ⟨trivial, trivial⟩ (fun runId => ?_) fun _ => trivial
  refine now_bind ⟨trivial, trivial⟩ (fun jobAt => ?_) fun _ => trivial
  refine Prog.wp_ofExcept_bind (fun job hj => ?_) fun _ _ => trivial
  refine now_bind ⟨trivial, trivial⟩ (fun runAt => ?_) fun _ => trivial
  refine Prog.wp_ofExcept_bind (fun run hr => ?_) fun _ _ => trivial
  obtain ⟨hjq, -, -, htype, hpay, -⟩ := Job.new_ok hj
  obtain ⟨hid, hrq, -⟩ := SeoRun.new_ok hr
  have hfor : RunsFor job run.runId := ⟨htype, by rw [hpay, hid]; rfl⟩
  rw [Prog.wp_tryCatch]
  refine commit_bind ⟨.request rfl hrq hjq hfor, fun w hw => ?_⟩ trivial fun _ => trivial
  rcases List.mem_cons.mp hw with rfl | hw
  · exact ⟨rfl, by rw [hrq]; nofun⟩
  · exact List.mem_singleton.mp hw ▸ rfl

/-- Every process keeps the contract of its role. -/
theorem runTerms_kept : (runTerms settings).Kept := by
  intro k
  change Prog.wp (runContract settings k.role) _ (runBody settings k) []
  cases k with
  | createRun => exact Prog.wp_void createRun_wp
  | cancelJob => exact Prog.wp_void (cancelJob_wp (jobTerms_runContract .request) rfl)
  | recover => exact Prog.wp_void (recover_wp (jobTerms_runContract .recovery) rfl)
  | runOnce =>
      refine Prog.wp_void (runOnce_wp (jobTerms_runContract .worker) rfl ?_ ?_)
      · intro past running n _ hreg status _ runId hfor
        simp [runHandlers, hfor.1] at hreg
      · intro past running n handler hold _ hreg
        unfold runHandlers at hreg
        split at hreg
        case isFalse => cases hreg
        next htype =>
        obtain rfl := Option.some.inj hreg
        cases hpay : payloadText running.payload "run_id" with
        | ok runId =>
            refine Prog.wp_mono (fun past' r _ hQ => ⟨hQ.holding, ?_, ?_⟩)
              (seoRunHandler_wp hold ⟨htype, hpay⟩ hpay)
            · intro a ha status runId' hfor
              obtain rfl := Except.ok.inj (hpay.symm.trans hfor.2)
              exact .inl (hQ.returned a ha)
            · intro e he status hne runId' hfor
              obtain rfl := Except.ok.inj (hpay.symm.trans hfor.2)
              exact (hQ.raised e he).imp_right fun h => ⟨hne, h⟩
        | error e =>
            have hraised : Handled runEnds running n past (.error e) :=
              ⟨hold, fun _ h => (by cases h), fun _ _ status _ runId hfor => by
                cases hpay.symm.trans hfor.2⟩
            unfold seoRunHandler handleSeoRun
            cases settings.observed with
            | false =>
                rw [if_neg Bool.false_ne_true, hpay]
                exact hraised
            | true =>
                rw [if_pos rfl, hpay]
                exact hraised

/-- The worker is the one writer of runs. -/
theorem runs_soleWriter : Service.SoleWriter (runTerms settings) .seoRun
    fun k => k.role = .worker where
  alone := by
    intro ks k hadm hk k' hk' hw
    have hworks : k.works = true := by simp [RunKind.works, hk]
    have hworks' : k'.works = true := by simp [RunKind.works, hw]
    simp only [hworks, Bool.not_true, Bool.false_or, List.all_eq_true] at hadm
    have := hadm k' hk'
    rw [hworks'] at this
    cases this
  others := by
    intro k past ws hperm hk w hw i ht
    have hcommit : RunCommit settings k.role past ws := hperm
    cases hcommit with
    | @request run job =>
        rcases List.mem_cons.mp hw with rfl | hw
        · obtain ⟨-, rfl⟩ := Prod.mk.inj ht
          exact ⟨run, rfl⟩
        · obtain rfl := List.mem_singleton.mp hw
          cases (Prod.mk.inj ht).1
    | job write =>
        cases write with
        | create =>
            obtain rfl := List.mem_singleton.mp hw
            cases (Prod.mk.inj ht).1
        | update =>
            obtain rfl := List.mem_singleton.mp hw
            cases (Prod.mk.inj ht).1
    | run works => exact absurd works hk
    | proposal works => exact absurd works hk
    | action works => exact absurd works hk

/-- What a worker has seen of a run is how the run is stored. -/
theorem seen_run_current {good : Condition (runMachine settings)}
    {c : Config (runMachine settings)} (hr : Run good ⟨noRuns, []⟩ c)
    {th : (runMachine settings).Thread} (hth : th ∈ c.pool)
    (hk : th.kind.role = .worker) {runId : String} {run : SeoRun} {n : Nat}
    (hs : seen .seoRun runId th.past = some (run, n)) :
    c.shared.records.current .seoRun runId = some (run, n) :=
  Service.seen_current runTerms_kept (fun _ _ _ hv => absurd hv List.not_mem_nil)
    runs_soleWriter hr th hth hk hs

end Kept

end SeoAgent.Ports
