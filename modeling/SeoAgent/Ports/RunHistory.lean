import SeoAgent.Ports.RunWorld

/-!
# Runs and their jobs

A job ends in one of four ways: its worker completes it or gives it up, a
recovery fails it, or a request cancels it. Only the handler writes the run, so
only the worker's ends can leave a run that has ended. A cancel request never
looks at the run, nor does a recovery; and a worker gives a job up after its
handler raised, whether or not the handler could say so in the run.

`RunsAttended` excludes the ends that leave a run behind; under it a job that
has ended has a run that has.

## Main results

* `linked_of_run` — every job delivers one stored run, and no two deliver the same.
* `attended_runs_agree` — over every run of the machine whose steps are attended.
* `cancelled_job_leaves_run` — a run whose job was cancelled waits for ever.
-/

namespace SeoAgent.Ports

open Verified Verified.Machine
open Service (Op iface World)

/-! ## What is claimed -/

/-- A stored run has ended. -/
def runEnded (r : Records) (runId : String) : Bool :=
  (r.latest .seoRun runId).any fun run => run.status.terminal

/-- The run a job delivers has ended. -/
def jobRunEnded (r : Records) (job : Job) : Bool :=
  match payloadText job.payload "run_id" with
  | .ok runId => runEnded r runId
  | .error _ => true

/-- A job that has ended has a run that has ended. -/
def RunsAgree (r : Records) : Prop :=
  ∀ jobId job, r.latest .job jobId = some job → job.status.terminal = true →
    ∀ runId, RunsFor job runId → runEnded r runId = true

/-! ## Jobs and runs are linked -/

/-- Every job delivers a stored run, and no two deliver the same. -/
structure Linked (r : Records) : Prop where
  delivers : ∀ i, ∀ job ∈ r.versions .job i, ∃ runId, RunsFor job runId ∧
    r.versions .seoRun runId ≠ []
  own : ∀ i i' job job' runId, job ∈ r.versions .job i → job' ∈ r.versions .job i' →
    RunsFor job runId → RunsFor job' runId → i = i'

theorem RunsFor.unique {job : Job} {runId runId' : String} (h : RunsFor job runId)
    (h' : RunsFor job runId') : runId = runId' :=
  Except.ok.inj (h.2.symm.trans h'.2)

theorem RunsFor.step {job next : Job} {runId : String} (ht : Job.Transition job next) :
    RunsFor next runId ↔ RunsFor job runId := by
  unfold RunsFor
  rw [ht.jobType, ht.payload]

section Linked
variable {settings : RunSettings} {good : Condition (runMachine settings)}
  {c : Config (runMachine settings)} {r r' : Records}

/-- Jobs that are written from jobs that were there stay linked. -/
private theorem Linked.of_written (h : Linked r) (hg : r.Grows r')
    (hjobs : ∀ i, ∀ job ∈ r'.versions .job i, ∃ basis ∈ r.versions .job i,
      ∀ runId, RunsFor job runId ↔ RunsFor basis runId) : Linked r' where
  delivers i job hjob := by
    obtain ⟨basis, hbasis, hsame⟩ := hjobs i job hjob
    obtain ⟨runId, hfor, hne⟩ := h.delivers i basis hbasis
    exact ⟨runId, (hsame runId).mpr hfor,
      fun hnil => hne (List.prefix_nil.mp (hnil ▸ hg _ _))⟩
  own i i' job job' runId hjob hjob' hfor hfor' := by
    obtain ⟨basis, hbasis, hsame⟩ := hjobs i job hjob
    obtain ⟨basis', hbasis', hsame'⟩ := hjobs i' job' hjob'
    exact h.own i i' basis basis' runId hbasis hbasis' ((hsame runId).mp hfor)
      ((hsame' runId).mp hfor')

/-- What the request for a run commits: a fresh run, and a fresh job. -/
private theorem request_commit {run : SeoRun} {job : Job}
    (hc : r.commit [.create .seoRun run.runId run, .create .job job.jobId job] = .ok r') :
    r.versions .seoRun run.runId = [] ∧ r.versions .job job.jobId = [] ∧
      r' = (r.append .seoRun run.runId run).append .job job.jobId job := by
  obtain ⟨u, hu, hc⟩ := Repository.commit_cons.mp hc
  obtain ⟨hrun, rfl⟩ := Repository.apply_create hu
  obtain ⟨hjob, rfl⟩ := Repository.apply_create (Repository.commit_singleton.mp hc)
  rw [Repository.versions_append_of_ne_type _ _ _ _ (by decide)] at hjob
  exact ⟨hrun, hjob, rfl⟩

/-- What one commit of a run process does to jobs and runs. -/
inductive RunEffect (role : JobRole) (past : RunPast)
    (ws : List (Repository.Write AggregateType AggregateType.Payload)) (r r' : Records) : Prop
  | request (run : SeoRun) (job : Job) (asks : role = .request)
      (queued : job.status = .queued) (delivers : RunsFor job run.runId)
      (freshRun : r.versions .seoRun run.runId = [])
      (freshJob : r.versions .job job.jobId = [])
      (made : r' = (r.append .seoRun run.runId run).append .job job.jobId job)
  | job (rest : RunPast) (basis job : Job) (seenAt n : Nat)
      (stored : basis ∈ r.versions .job job.jobId) (step : Job.Transition basis job)
      (write : ws = [.replace .job job.jobId job n])
      (found : ∃ x : Except Exc (Option (Job × Nat)),
        past = ⟨.find .job job.jobId, x⟩ :: rest)
      (cause : JobCause runEnds role rest basis seenAt job)
      (made : r' = r.append .job job.jobId job)
  | run (run : SeoRun) (works : role = .worker) (hand : HasRun past run.runId)
      (moved : run.status ≠ .queued) (present : r.versions .seoRun run.runId ≠ [])
      (made : r' = r.append .seoRun run.runId run)
  | aside (works : role = .worker)
      (jobs : ∀ i, r'.versions .job i = r.versions .job i)
      (runs : ∀ i, r'.versions .seoRun i = r.versions .seoRun i)

theorem run_effect {role : JobRole} {past : RunPast}
    {ws : List (Repository.Write AggregateType AggregateType.Payload)}
    (hp : RunCommit settings role past ws) (htold : Service.Told r past)
    (hc : r.commit ws = .ok r') : RunEffect role past ws r r' := by
  cases hp with
  | request asks queued fresh delivers =>
      obtain ⟨hrun, hjob, hmade⟩ := request_commit hc
      exact .request _ _ asks fresh delivers hrun hjob hmade
  | job write updates =>
      cases write with
      | create => exact absurd rfl (updates _)
      | @update rest current version basis seenAt job found hseen step cause =>
          obtain ⟨hlen, hmade⟩ :=
            Repository.apply_replace (Repository.commit_singleton.mp hc)
          rw [found] at htold
          exact .job rest basis job seenAt version
            (Repository.mem_of_versionAt (htold.tail.seen hseen)) step rfl ⟨_, found⟩ cause
            hmade
  | @run rest current run version works hand found moved =>
      have happly := Repository.commit_singleton.mp hc
      obtain ⟨hlen, hmade⟩ := Repository.apply_replace happly
      have hcur : seen .seoRun run.runId past = some (current, version) := by
        rw [found]
        exact seen_find (t := .seoRun) _
      exact .run run works hand moved
        (List.ne_nil_of_mem (Repository.mem_of_versionAt (htold.seen hcur))) hmade
  | proposal works =>
      refine .aside works (fun i => ?_) fun i => ?_
      all_goals
        exact Repository.commit_versions_of_ne hc fun w hw => by
          rw [List.mem_singleton.mp hw]
          nofun
  | action works =>
      refine .aside works (fun i => ?_) fun i => ?_
      all_goals
        exact Repository.commit_versions_of_ne hc fun w hw => by
          rw [List.mem_singleton.mp hw]
          nofun

theorem RunEffect.linked {role : JobRole} {past : RunPast}
    {ws : List (Repository.Write AggregateType AggregateType.Payload)} (h : Linked r)
    (hg : r.Grows r') (he : RunEffect role past ws r r') : Linked r' := by
  cases he with
  | request run job asks queued delivers freshRun freshJob made =>
      have hrun : r'.versions .seoRun run.runId = [run] := by
        rw [made, Repository.versions_append_of_ne_type _ _ _ _ (by decide),
          Repository.versions_append_self, freshRun]
        rfl
      have hnew : r'.versions .job job.jobId = [job] := by
        rw [made, Repository.versions_append_self,
          Repository.versions_append_of_ne_type _ _ _ _ (by decide), freshJob]
        rfl
      have hold : ∀ i ≠ job.jobId, r'.versions .job i = r.versions .job i := by
        intro i hi
        rw [made, Repository.versions_append_of_ne _ _ _ _ hi,
          Repository.versions_append_of_ne_type _ _ _ _ (by decide)]
      -- An old job delivers a stored run, and the new one a fresh run.
      have hother : ∀ i ≠ job.jobId, ∀ x ∈ r'.versions .job i, ¬RunsFor x run.runId := by
        intro i hi x hx hfor
        obtain ⟨runId, hfor', hne⟩ := h.delivers i x (hold i hi ▸ hx)
        exact hne (hfor.unique hfor' ▸ freshRun)
      refine ⟨fun i x hx => ?_, fun i i' x x' runId hx hx' hfor hfor' => ?_⟩
      · by_cases hi : i = job.jobId
        · subst hi
          rw [hnew] at hx
          obtain rfl := List.mem_singleton.mp hx
          exact ⟨run.runId, delivers, by rw [hrun]; exact List.cons_ne_nil _ _⟩
        · obtain ⟨runId, hfor, hne⟩ := h.delivers i x (hold i hi ▸ hx)
          exact ⟨runId, hfor, fun hnil => hne (List.prefix_nil.mp (hnil ▸ hg _ _))⟩
      · have hmine : ∀ {x : Job}, x ∈ r'.versions .job job.jobId → RunsFor x runId →
            runId = run.runId := by
          intro x hx hfor
          rw [hnew] at hx
          obtain rfl := List.mem_singleton.mp hx
          exact hfor.unique delivers
        by_cases hi : i = job.jobId
        · by_cases hi' : i' = job.jobId
          · exact hi.trans hi'.symm
          · exact absurd (hmine (hi ▸ hx) hfor ▸ hfor') (hother i' hi' x' hx')
        · by_cases hi' : i' = job.jobId
          · exact absurd (hmine (hi' ▸ hx') hfor' ▸ hfor) (hother i hi x hx)
          · exact h.own i i' x x' runId (hold i hi ▸ hx) (hold i' hi' ▸ hx') hfor hfor'
  | job rest basis job seenAt n stored step write found cause made =>
      refine h.of_written hg fun i x hx => ?_
      by_cases hi : i = job.jobId
      · subst hi
        rw [made, Repository.versions_append_self] at hx
        rcases List.mem_append.mp hx with hx | hx
        · exact ⟨x, hx, fun _ => .rfl⟩
        · obtain rfl := List.mem_singleton.mp hx
          exact ⟨basis, stored, fun _ => RunsFor.step step⟩
      · rw [made, Repository.versions_append_of_ne _ _ _ _ hi] at hx
        exact ⟨x, hx, fun _ => .rfl⟩
  | run run works hand moved present made =>
      refine h.of_written hg fun i x hx => ⟨x, ?_, fun _ => .rfl⟩
      rwa [made, Repository.versions_append_of_ne_type _ _ _ _ (by decide)] at hx
  | aside works jobs =>
      exact h.of_written hg fun i x hx => ⟨x, jobs i ▸ hx, fun _ => .rfl⟩

theorem linked_of_run (hr : Run good ⟨noRuns, []⟩ c) : Linked c.shared.records := by
  refine Service.repository_invariant runTerms_kept
    (fun t i v hv => absurd hv List.not_mem_nil) (fun hcom hinv hc => ?_)
    ⟨fun i x hx => absurd hx List.not_mem_nil,
      fun i i' x x' runId hx => absurd hx List.not_mem_nil⟩ hr
  exact (run_effect hcom.permitted hcom.told hc).linked hinv (Repository.commit_grows hc)

end Linked

/-! ## The condition -/

section Attended
variable {settings : RunSettings}

/-- A job is stored waiting. -/
def storedQueued (r : Records) (jobId : String) : Bool :=
  (r.latest .job jobId).any fun job => job.status = .queued

/-- A job that is cancelled is stored waiting, and its run has ended; one that is
given up or failed has a run that has ended, or the worker's last request about the
run was answered. -/
def RunAttendedOp (c : Config (runMachine settings)) (k : RunKind) (past : RunPast) :
    Op backend runWorld → Prop
  | .commit [.replace .job jobId job _] =>
      (job.status = .cancelled → storedQueued c.shared.records jobId = true ∧
        jobRunEnded c.shared.records job = true) ∧
      (job.status = .failed → jobRunEnded c.shared.records job = true ∨
        k.role = .worker ∧ Unanswered past = false)
  | _ => True

/-- Every end of a job but its completion is an attended one. -/
def RunsAttended : Condition (runMachine settings) :=
  eachOp fun c k past o _ => RunAttendedOp c k past o

instance (c : Config (runMachine settings)) (k : RunKind) (past : RunPast)
    (o : Op backend runWorld) : Decidable (RunAttendedOp c k past o) := by
  unfold RunAttendedOp
  split <;> infer_instance

instance (c : Config (runMachine settings)) (m : Move (M := runMachine settings)) :
    Decidable (RunsAttended c m) :=
  inferInstanceAs (Decidable (eachOp _ c m))

/-! ## The job in hand -/

/-- The job a worker has in hand is stored as it left it. -/
@[reducible] def runHandDiscipline : Discipline (runMachine settings) where
  inv := fun _ => True
  knows := fun k w past => k.role = .worker → ∀ job n, inHand past = some (job, n) →
    w.records.current .job job.jobId = some (job, n)
  contract := (runTerms settings).contract
  coexist := fun k _ k' _ => ¬(k.works = true ∧ k'.works = true)

private theorem works_of_worker {k : RunKind} (h : k.role = .worker) : k.works = true := by
  simp [RunKind.works, h]

private theorem request_of_idle {k : RunKind} (h : ¬k.works = true) : k.role = .request := by
  cases k <;> first | rfl | exact absurd rfl h

section Acting
variable {c : Config (runMachine settings)} {t : Nat} {ch : ProcChoice runWorld}
  {k : RunKind} {o : Op backend runWorld} {f : Except Exc o.Res → RunProc Unit}
  {past : RunPast} {r : Except Exc o.Res} {s : World backend runWorld}

/-- A worker's own operation leaves the job it still has in hand. -/
private theorem runHand_own
    (ha : runHandDiscipline.Acting RunsAttended ⟨noRuns, []⟩ c t ch k o f past r s)
    (hk : k.role = .worker) {job : Job} {n : Nat}
    (hhand : inHand (⟨o, r⟩ :: past) = some (job, n)) :
    s.records.current .job job.jobId = some (job, n) := by
  rcases inHand_cons hhand with ⟨hnot, hhand⟩ | ⟨i, version, hev, rfl⟩
  · have hcur := ha.knows hk job n hhand
    suffices hsame : s.records.versions .job job.jobId =
        c.shared.records.versions .job job.jobId by
      rw [Repository.current_congr hsame]
      exact hcur
    rcases Service.exec_records ha.exec with he | ⟨ws, rfl, hc⟩
    · rw [he]
    have hcommit : RunCommit settings k.role past ws := ha.permitted.1
    cases hcommit with
    | request asks => rw [hk] at asks; cases asks
    | job write updates =>
        cases write with
        | create => exact absurd rfl (updates _)
        | update => cases r <;> cases hnot
    | run =>
        exact Repository.commit_versions_of_ne hc fun w hw => by
          rw [List.mem_singleton.mp hw]
          nofun
    | proposal =>
        exact Repository.commit_versions_of_ne hc fun w hw => by
          rw [List.mem_singleton.mp hw]
          nofun
    | action =>
        exact Repository.commit_versions_of_ne hc fun w hw => by
          rw [List.mem_singleton.mp hw]
          nofun
  · cases hev
    obtain ⟨hlen, hm⟩ := Repository.apply_replace
      (Repository.commit_singleton.mp (Service.exec_commit_ok ha.exec).1)
    have hid : job.jobId = i := by
      have hcommit : RunCommit settings k.role past [.replace .job i job version] :=
        ha.permitted.1
      cases hcommit with
      | job write => cases write; rfl
    rw [hid, hm, Repository.current_append_self, hlen]

/-- A request leaves the job a worker has in hand. -/
private theorem runHand_frame
    (ha : runHandDiscipline.Acting RunsAttended ⟨noRuns, []⟩ c t ch k o f past r s)
    (hk : ¬k.works = true) {held : Job} {n : Nat} (hran : held.status = .running)
    (hcur : c.shared.records.current .job held.jobId = some (held, n)) :
    s.records.current .job held.jobId = some (held, n) := by
  have hrole := request_of_idle hk
  have hlast := Repository.getLast?_of_current hcur
  suffices hsame : s.records.versions .job held.jobId =
      c.shared.records.versions .job held.jobId by
    rw [Repository.current_congr hsame]
    exact hcur
  rcases Service.exec_records ha.exec with he | ⟨ws, rfl, hc⟩
  · rw [he]
  have hatt : RunAttendedOp c k past (.commit ws) := eachOp_act ha.ok ha.here
  have htold := Service.told_of_run ha.reached _ (List.mem_of_getElem? ha.here)
  have hcommit : RunCommit settings k.role past ws := ha.permitted.1
  cases hcommit with
  | @request run job =>
      obtain ⟨-, hfresh, hmade⟩ := request_commit hc
      have hne : held.jobId ≠ job.jobId := by
        intro h
        rw [h, hfresh] at hlast
        cases hlast
      rw [hmade, Repository.versions_append_of_ne _ _ _ _ hne,
        Repository.versions_append_of_ne_type _ _ _ _ (by decide)]
  | job write updates =>
      cases write with
      | create => exact absurd rfl (updates _)
      | @update rest current version basis seenAt job found hseen step cause =>
          refine Repository.commit_versions_of_ne hc fun w hw ht => ?_
          obtain rfl := List.mem_singleton.mp hw
          have hcancel : job.status = .cancelled := by
            cases cause with
            | start works => rw [hrole] at works; cases works
            | finish works => rw [hrole] at works; cases works
            | recover recovers => rw [hrole] at recovers; cases recovers
            | cancel _ cancels => exact cancels
          -- What is cancelled is stored waiting, and the job in hand is not.
          have hqueued := (hatt.1 hcancel).1
          rw [(Prod.mk.inj ht).2] at hqueued
          unfold storedQueued Repository.latest at hqueued
          rw [hlast] at hqueued
          simp [hran] at hqueued
  | run works => rw [hrole] at works; cases works
  | proposal works => rw [hrole] at works; cases works
  | action works => rw [hrole] at works; cases works

end Acting

private theorem runHandDiscipline_sound :
    (@runHandDiscipline settings).Sound RunsAttended ⟨noRuns, []⟩ where
  symm h := fun hk => h hk.symm
  admits hadm k' hk' _ := by
    rintro ⟨hw', hw⟩
    simp only [hw, Bool.not_true, Bool.false_or, List.all_eq_true] at hadm
    have := hadm k' hk'
    rw [hw'] at this
    cases this
  body := runTerms_kept
  start _ _ := fun _ _ _ h => by cases h
  trusted ha := (Service.valid_of_run runTerms_kept
    (fun _ _ _ hv => absurd hv List.not_mem_nil) ha.reached).reads ha.exec
  inv _ := trivial
  own ha := fun hk _ _ hhand => runHand_own ha hk hhand
  frame ha _ _ hco hknows := fun hk job n hhand =>
    runHand_frame ha (fun hw => hco ⟨hw, works_of_worker hk⟩) (inHand_running hhand)
      (hknows hk job n hhand)
  together _ _ _ hco _ := hco
  envInv _ _ _ _ := trivial
  envFrame _ _ _ hs := by
    obtain ⟨s, hs, -⟩ := Service.change_cases hs
    nomatch hs

theorem runHand_current {c : Config (runMachine settings)}
    (hr : Run RunsAttended ⟨noRuns, []⟩ c) {th : (runMachine settings).Thread}
    (hth : th ∈ c.pool) (hk : th.kind.role = .worker) {job : Job} {n : Nat}
    (hhand : inHand th.past = some (job, n)) :
    c.shared.records.current .job job.jobId = some (job, n) :=
  ((runHandDiscipline_sound.sound (.of_no_process trivial) hr).threads th hth).knows
    hk job n hhand

/-! ## Over every run -/

private theorem runEnded_congr {r r' : Records} {runId : String}
    (h : r'.versions .seoRun runId = r.versions .seoRun runId) :
    runEnded r' runId = runEnded r runId := by
  unfold runEnded Repository.latest
  rw [h]

private theorem runEnded_of_jobRunEnded {r : Records} {job : Job} {runId : String}
    (h : jobRunEnded r job = true) (hfor : RunsFor job runId) : runEnded r runId = true := by
  unfold jobRunEnded at h
  rw [hfor.2] at h
  exact h

/-- What a worker has seen ended has ended. -/
private theorem runEnded_of_seen {good : Condition (runMachine settings)}
    {c : Config (runMachine settings)} (hr : Run good ⟨noRuns, []⟩ c)
    {th : (runMachine settings).Thread} (hth : th ∈ c.pool)
    (hk : th.kind.role = .worker) {runId : String} (hs : SeenEnded th.past runId) :
    runEnded c.shared.records runId = true := by
  obtain ⟨run, n, hseen, hterm⟩ := hs
  have hlast := Repository.getLast?_of_current (seen_run_current hr hth hk hseen)
  unfold runEnded Repository.latest
  rw [hlast]
  exact hterm

/-- The job a commit ends has a run that has ended. -/
private theorem runEnded_of_end {c : Config (runMachine settings)}
    (hr : Run RunsAttended ⟨noRuns, []⟩ c) {th : (runMachine settings).Thread}
    (hth : th ∈ c.pool) {rest : RunPast} {basis job : Job} {seenAt n : Nat}
    (hatt : RunAttendedOp c th.kind th.past (.commit [.replace .job job.jobId job n]))
    (hop : ∃ x : Except Exc (Option (Job × Nat)),
      th.past = ⟨.find .job job.jobId, x⟩ :: rest)
    (hstep : Job.Transition basis job)
    (hcause : JobCause runEnds th.kind.role rest basis seenAt job)
    (hterm : job.status.terminal = true) {runId : String} (hfor : RunsFor job runId) :
    runEnded c.shared.records runId = true := by
  obtain ⟨x, hpast⟩ := hop
  have hbasis : RunsFor basis runId := (RunsFor.step hstep).mp hfor
  have hsuffix : SeenEnded rest runId → SeenEnded th.past runId := fun h => by
    have happart : Apart [.job] rest (⟨.find .job job.jobId, x⟩ :: rest) :=
      .find (t := .job) List.mem_cons_self _ x
    rw [hpast]
    exact h.apart happart (by decide)
  have hfind : Unanswered th.past = Unanswered rest := by
    rw [hpast]
    rfl
  cases hcause with
  | start _ starts => rw [starts] at hterm; cases hterm
  | finish works hand ends finished =>
      rcases finished runId hbasis with hended | ⟨hne, hun⟩
      · exact runEnded_of_seen hr hth works (hsuffix hended)
      · have hfailed : job.status = .failed ∨ job.status = .cancelled := by
          revert hterm hne
          cases job.status <;> simp [JobStatus.terminal]
        rcases hfailed with hfailed | hcancelled
        · rcases hatt.2 hfailed with h | ⟨-, hanswered⟩
          · exact runEnded_of_jobRunEnded h hfor
          · rw [hfind, hun] at hanswered
            cases hanswered
        · exact runEnded_of_jobRunEnded (hatt.1 hcancelled).2 hfor
  | recover recovers _ hst =>
      rcases hst with hst | hst
      · rw [hst] at hterm
        cases hterm
      · rcases hatt.2 hst with h | ⟨works, -⟩
        · exact runEnded_of_jobRunEnded h hfor
        · rw [recovers] at works
          cases works
  | cancel _ cancels => exact runEnded_of_jobRunEnded (hatt.1 cancels).2 hfor

/-- A commit of an attended step keeps jobs and runs in agreement. -/
private theorem runsAgree_commit {c : Config (runMachine settings)}
    {ch : ProcChoice runWorld} {k : RunKind} {past : RunPast}
    {ws : List (Repository.Write AggregateType AggregateType.Payload)} {r : Records}
    (hcom : Service.Committing (runTerms settings) RunsAttended noRuns c ch k past ws)
    (hinv : RunsAgree c.shared.records)
    (hc : c.shared.records.commit ws = .ok r) : RunsAgree r := by
  obtain ⟨t, hgood, f, hpool⟩ := hcom.ok
  have hth := List.mem_of_getElem? hpool
  have hlinked := linked_of_run hcom.reached
  have hatt : RunAttendedOp c k past (.commit ws) := eachOp_act hgood hpool
  intro jobId x hlatest hterm runId hfor
  cases run_effect hcom.permitted hcom.told hc with
  | request run job asks queued delivers freshRun freshJob made =>
      by_cases hi : jobId = job.jobId
      · subst hi
        rw [made, Repository.latest, Repository.versions_append_self,
          List.getLast?_concat] at hlatest
        obtain rfl := Option.some.inj hlatest
        rw [queued] at hterm
        cases hterm
      · have hold : r.versions .job jobId = c.shared.records.versions .job jobId := by
          rw [made, Repository.versions_append_of_ne _ _ _ _ hi,
            Repository.versions_append_of_ne_type _ _ _ _ (by decide)]
        rw [Repository.latest, hold] at hlatest
        obtain ⟨runId', hfor', hne⟩ :=
          hlinked.delivers jobId x (List.mem_of_getLast? hlatest)
        obtain rfl := hfor.unique hfor'
        rw [runEnded_congr (r := c.shared.records)]
        · exact hinv jobId x hlatest hterm _ hfor
        · rw [made, Repository.versions_append_of_ne_type _ _ _ _ (by decide),
            Repository.versions_append_of_ne _ _ _ _ fun h : runId = run.runId =>
              hne (h ▸ freshRun)]
  | job rest basis job seenAt n stored step write found cause made =>
      have hruns : r.versions .seoRun runId = c.shared.records.versions .seoRun runId := by
        rw [made, Repository.versions_append_of_ne_type _ _ _ _ (by decide)]
      rw [runEnded_congr hruns]
      by_cases hi : jobId = job.jobId
      · subst hi
        rw [made, Repository.latest, Repository.versions_append_self,
          List.getLast?_concat] at hlatest
        obtain rfl := Option.some.inj hlatest
        exact runEnded_of_end hcom.reached hth (write ▸ hatt) found step cause hterm hfor
      · rw [made, Repository.latest, Repository.versions_append_of_ne _ _ _ _ hi] at hlatest
        exact hinv jobId x hlatest hterm _ hfor
  | run run works hand moved present made =>
      have hjobs : r.latest .job jobId = c.shared.records.latest .job jobId := by
        rw [made, Repository.latest, Repository.versions_append_of_ne_type _ _ _ _ (by decide)]
        rfl
      rw [hjobs] at hlatest
      by_cases hi : runId = run.runId
      · -- The job of this run is in hand, and stored running.
        subst hi
        obtain ⟨held, n, hhand, hheld⟩ := hand
        have hcur := runHand_current hcom.reached hth works hhand
        have hlast := Repository.getLast?_of_current hcur
        obtain rfl := hlinked.own jobId held.jobId x held _ (List.mem_of_getLast? hlatest)
          (List.mem_of_getLast? hlast) hfor hheld
        obtain rfl := Option.some.inj (hlatest.symm.trans hlast)
        rw [inHand_running hhand] at hterm
        cases hterm
      · rw [runEnded_congr (r := c.shared.records)]
        · exact hinv jobId x hlatest hterm _ hfor
        · rw [made, Repository.versions_append_of_ne _ _ _ _ hi]
  | aside works jobs runs =>
      rw [Repository.latest, jobs] at hlatest
      rw [runEnded_congr (runs runId)]
      exact hinv jobId x hlatest hterm _ hfor

/-- In every run whose steps are attended, a job that has ended has a run that has
ended. -/
theorem attended_runs_agree {c : Config (runMachine settings)}
    (hr : Run RunsAttended ⟨noRuns, []⟩ c) : RunsAgree c.shared.records := by
  refine Service.repository_invariant runTerms_kept
    (fun t i v hv => absurd hv List.not_mem_nil)
    (fun hcom hinv hc => runsAgree_commit hcom hinv hc) (fun jobId job h => by cases h) hr

end Attended

/-! ## Two runs -/

/-- Runs without a title workflow. -/
def plainRuns : RunSettings := ⟨⟨id, id⟩, false, false⟩

/-- A connected site whose data is not enough to say anything. -/
def quietSite : RunAnswers where
  site siteId := .ok ⟨siteId, "tenant", true⟩
  mayRun _ _ := .ok ()
  analyse _ _ _ _ _ := .ok (.insufficientQuality [])
  readPage _ _ := .ok ""
  search _ := .ok []
  reason _ := ⟨none, .ok []⟩
  lastProviderId := none

/-- The request for run `r1` with job `j1`. -/
def requestedRun : List (Move (M := runMachine plainRuns)) :=
  [.spawn (.createRun "site" "tenant"
      ⟨"2026-01-01", "2026-01-31", "https://example.com/", "word", "candidate", 1⟩),
    .act 0 (.ext quietSite), .act 0 (.ext quietSite), .act 0 (.name "j1"),
    .act 0 (.name "r1"), .act 0 (.clock 0), .act 0 (.clock 0), .act 0 .done]

/-- Its job is cancelled while it waits. -/
def cancelledRun : List (Move (M := runMachine plainRuns)) :=
  requestedRun ++
    [.spawn (.cancelJob "j1" "tenant"), .act 1 .done, .act 1 (.clock 1), .act 1 .done,
      .act 1 .done]

/-- Its job is delivered. -/
def deliveredRun : List (Move (M := runMachine plainRuns)) :=
  requestedRun ++
    [.spawn .runOnce, .act 1 .done, .act 1 (.clock 1), .act 1 .done, .act 1 .done,
      .act 1 .done, .act 1 (.ext quietSite), .act 1 (.clock 2), .act 1 .done, .act 1 .done,
      .act 1 (.ext quietSite), .act 1 (.clock 3), .act 1 .done, .act 1 .done,
      .act 1 (.clock 4), .act 1 .done, .act 1 .done]

/-- The status of a job and of a run. -/
def statusesAt (r : Records) (jobId runId : String) : Option JobStatus × Option SeoRunStatus :=
  ((r.latest .job jobId).map Job.status, (r.latest .seoRun runId).map SeoRun.status)

set_option maxRecDepth 10000 in
theorem attended_runs_agree_deliveredRun : ∃ c : Config (runMachine plainRuns),
    statusesAt c.shared.records "j1" "r1" = (some .completed, some .completed) ∧
      RunsAgree c.shared.records := by
  have h : (firesIf RunsAttended ⟨noRuns, []⟩ deliveredRun).map (fun c =>
      statusesAt c.shared.records "j1" "r1") = some (some .completed, some .completed) := by
    decide
  obtain ⟨c, hc, hs⟩ := Option.map_eq_some_iff.mp h
  exact ⟨c, hs, attended_runs_agree (Run.of_good_moves hc)⟩

set_option maxRecDepth 10000 in
/-- The run of a job that is cancelled while it waits goes on waiting. -/
theorem cancelled_job_leaves_run : ∃ c : Config (runMachine plainRuns),
    Run anyMove ⟨noRuns, []⟩ c ∧
      statusesAt c.shared.records "j1" "r1" = (some .cancelled, some .queued) ∧
      ¬RunsAgree c.shared.records := by
  have h : (fires ⟨noRuns, []⟩ cancelledRun).map (fun c =>
      (statusesAt c.shared.records "j1" "r1",
        (c.shared.records.latest .job "j1").map fun job => decide (RunsFor job "r1"))) =
      some ((some .cancelled, some .queued), some true) := by decide
  obtain ⟨c, hc, hs⟩ := Option.map_eq_some_iff.mp h
  obtain ⟨hs, hfor⟩ := Prod.mk.inj hs
  obtain ⟨job, hjob, hfor⟩ := Option.map_eq_some_iff.mp hfor
  refine ⟨c, Run.of_moves hc, hs, fun hagree => ?_⟩
  obtain ⟨hj, hrun⟩ := Prod.mk.inj hs
  rw [hjob] at hj
  have hended := hagree "j1" job hjob (by rw [Option.some.inj hj]; rfl) "r1"
    (of_decide_eq_true hfor)
  obtain ⟨run, hr, hqueued⟩ := Option.map_eq_some_iff.mp hrun
  unfold runEnded at hended
  rw [hr, Option.any_some, hqueued] at hended
  cases hended

end SeoAgent.Ports
