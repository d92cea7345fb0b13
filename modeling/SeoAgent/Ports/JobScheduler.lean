import Mathlib.Data.List.Sort
import SeoAgent.Ports.Aggregates

/-!
# The job store and the scheduler

`JobStore` reads and writes jobs; `update` reads the stored version only to
replace it, whatever it holds. `runOnce` takes the oldest queued job, marks it
running, calls its handler and stores how it ended; `recover` requeues or
fails what a stopped worker left running; `cancelJob` is the request.

The handler of a job type is a parameter: `runOnce` is used both with handlers
that are left open and with the handlers of the action executor.

## Main results

* `update_wp` — the one commit of `JobStore.update`, from what was read before.
* `runOnce_wp`, `recover_wp`, `cancelJob_wp`, `createJob_wp` — the job writes
  each process makes.
-/

namespace SeoAgent.Ports

open Verified
open Service (Op iface)

variable {X : Outside Exc}

/-! ## JobStore -/

namespace JobStore

/-- `JobStore.create`. -/
def create (job : Job) : Proc X Job := do
  commit [.create .job job.jobId job]
  return job

/-- `JobStore.get`. -/
def get (jobId : String) : Proc X Job := do
  match ← find .job jobId with
  | some (job, _) => return job
  | none => throw (⟨.persistenceNotFoundError, s!"job not found: {jobId}"⟩ : Exc)

/-- `JobStore.update`: replaces whatever version is stored. -/
def update (job : Job) : Proc X Job := do
  match ← find .job job.jobId with
  | none =>
      throw (⟨.persistenceNotFoundError, s!"job not found: {job.jobId}"⟩ : Exc)
  | some (_, version) => do
      commit [.replace .job job.jobId job version]
      return job

/-- `JobStore.list_queued`: the oldest queued jobs. -/
def listQueued (limit : Nat) : Proc X (List Job) := do
  let records ← list .job
  let queued := (records.entries.map fun e => e.2.1).filter fun job =>
    job.status = .queued
  return (queued.insertionSort fun a b => a.createdAt ≤ b.createdAt).take limit

/-- The message a recovered job is requeued or failed with. -/
def recoveryMessage (job : Job) : String :=
  if job.attemptCount < job.maxAttempts then "Recovered after worker restart."
  else "Worker restarted after maximum attempts were exhausted."

/-- The loop of `JobStore.recover_running_jobs` over the listed records. -/
def recoverRunningJobs : List (String × Job × Nat) → Proc X (List Job)
  | [] => return []
  | (_, job, _) :: records =>
      if job.status ≠ .running then recoverRunningJobs records
      else do
        let at_ ← now
        let recovered ← Prog.ofExcept (job.retryOrFail (recoveryMessage job) at_)
        let _ ← update recovered
        let more ← recoverRunningJobs records
        return recovered :: more

end JobStore

/-! ## JobScheduler -/

/-- The registered handlers, by job type. -/
abbrev Handlers (X : Outside Exc) : Type := String → Option (Dict → Proc X Dict)

/-- `JobHandlerRegistry.resolve`. -/
def resolve (handlers : Handlers X) (jobType : String) :
    Except Exc (Dict → Proc X Dict) :=
  match handlers jobType with
  | some handler => .ok handler
  | none => .error (.keyError s!"No handler registered for job type: {jobType}")

/-- The attempt at a job that has been marked running: its handler, and the
job as it ended. -/
def attempt (handlers : Handlers X) (running : Job) : Proc X Job :=
  tryCatch
    (do
      let handler ← Prog.ofExcept (resolve handlers running.jobType)
      let result ← handler running.payload
      let at_ ← now
      Prog.ofExcept (running.complete result at_))
    (fun exc => do
      let at_ ← now
      Prog.ofExcept (running.retryOrFail exc.message at_))

/-- `JobScheduler.run_once`. -/
def runOnce (handlers : Handlers X) : Proc X (Option Job) := do
  match ← JobStore.listQueued 1 with
  | [] => return none
  | job :: _ => do
      let at_ ← now
      let running ← Prog.ofExcept (job.transitionRunning at_)
      let _ ← JobStore.update running
      let completed ← attempt handlers running
      let _ ← JobStore.update completed
      return some completed

/-- `JobScheduler.recover`. -/
def recover : Proc X (List Job) := do
  let records ← list .job
  JobStore.recoverRunningJobs records.entries

/-! ## Requests -/

/-- `_ensure_owner`. -/
def ensureOwner (ownerId principalId : String) : Except Exc Unit :=
  if ownerId ≠ principalId then .error (.http 404 "Resource not found.") else .ok ()

/-- `_get_job`: every failure to read is a 404. -/
def getJob (jobId : String) : Proc X Job :=
  tryCatch (JobStore.get jobId) fun _ => throw (Exc.http 404 "Job not found.")

/-- `cancel_job`. -/
def cancelJob (jobId principalId : String) : Proc X Job := do
  let job ← getJob jobId
  Prog.ofExcept (ensureOwner job.principalId principalId)
  tryCatch
    (do
      let at_ ← now
      let cancelled ← Prog.ofExcept (job.cancel at_)
      JobStore.update cancelled)
    (fun exc =>
      if exc.isA .valueError then throw (Exc.http 409 exc.message) else throw exc)

/-- The job types `create_job` refuses. -/
abbrev ReservedJobTypes : Type := List String

/-- `create_job`. -/
def createJob (reserved : ReservedJobTypes) (jobType principalId : String)
    (payload : Dict) (maxAttempts : Nat) : Proc X Job := do
  if Text.strip jobType ∈ reserved then
    throw (Exc.http 422 "This job type is created through its own endpoint only.")
  let jobId ← newId
  let at_ ← now
  let job ← Prog.ofExcept
    (Job.new jobId jobType principalId payload maxAttempts at_)
  tryCatch (JobStore.create job) fun _ =>
    throw (Exc.http 409 "Unable to create job.")

/-! ## What the processes write -/

/-- The job write one answered operation made, as the version it left;
`some none` when its answer was an exception. -/
def jobWritten : (iface backend X).Event → Option (Option (Job × Nat))
  | ⟨.commit [.replace .job _ job version], .ok _⟩ => some (some (job, version + 1))
  | ⟨.commit [.replace .job _ _ _], .error _⟩ => some none
  | _ => none

/-- The job a process has in hand: the one it wrote last, while it left it
running. -/
def inHand (past : ProcPast X) : Option (Job × Nat) :=
  ((past.findSome? jobWritten).getD none).filter fun x => x.1.status = .running

/-- What a process does to jobs: it makes requests about them, delivers them,
recovers those a stopped worker left, or only measures what they did. -/
inductive JobRole
  | request
  | worker
  | recovery
  | measurement
  deriving DecidableEq, Repr

/-- What a scheduler asks for before it starts a job. -/
def looksForJobs : Op backend X → Prop
  | .list .job | .find .job _ | .now => True
  | _ => False

/-- A process has only looked for jobs so far. -/
def Opening (past : ProcPast X) : Prop := ∀ ev ∈ past, looksForJobs ev.op

/-- What a process may have to have been answered before it ends its attempt at a
job with a status. -/
abbrev EndRule (X : Outside Exc) := ProcPast X → Job → JobStatus → Prop

/-- The rule under which only the completion of an attempt needs something. -/
def completing (P : ProcPast X → Job → Prop) : EndRule X := fun past job status =>
  status = .completed → P past job

/-- Why a process may write a transition of a job: to start it before it has asked
for anything else, to end its own attempt, to recover it, or to cancel it.
Ending an attempt may need `Finished` of it. -/
inductive JobCause (Finished : EndRule X) (role : JobRole)
    (rest : ProcPast X) (basis : Job) (seenAt : Nat) (job : Job) : Prop
  | start (works : role = .worker) (starts : job.status = .running)
      (opening : Opening rest)
  | finish (works : role = .worker) (hand : inHand rest = some (basis, seenAt))
      (ends : job.status ≠ .running)
      (finished : Finished rest basis job.status)
  | recover (recovers : role = .recovery) (ran : basis.status = .running)
      (ends : job.status = .queued ∨ job.status = .failed)
  | cancel (asks : role = .request) (cancels : job.status = .cancelled)

/-- The job writes: a new job, or a transition of what was read before the
write's own read. -/
inductive JobWrite (Finished : EndRule X) (role : JobRole)
    (past : ProcPast X) :
    List (Repository.Write AggregateType AggregateType.Payload) → Prop
  | create {job : Job} (fresh : job.status = .queued)
      (untried : job.attemptCount = 0) :
      JobWrite Finished role past [.create .job job.jobId job]
  | update {rest : ProcPast X} {current : Job} {version : Nat} {basis : Job}
      {seenAt : Nat} {job : Job}
      (found : past =
        ⟨.find .job job.jobId, .ok (some (current, version))⟩ :: rest)
      (seen : seen .job job.jobId rest = some (basis, seenAt))
      (step : Job.Transition basis job)
      (cause : JobCause Finished role rest basis seenAt job) :
      JobWrite Finished role past [.replace .job job.jobId job version]

/-- Operations that change nothing. -/
def isRead : Op backend X → Prop
  | .find _ _ | .list _ | .now | .newId => True
  | .commit _ | .ext _ => False

/-- A contract under which the job processes can be written: they may read,
update jobs, and trust that a job is stored under its own id. -/
structure JobTerms (C : Prog.Contract (iface backend X))
    (Finished : EndRule X) (role : JobRole) : Prop where
  reads : ∀ {past o}, isRead o → C.permits past o
  updates : ∀ {past ws}, JobWrite Finished role past ws →
    (∀ job : Job, ws ≠ [.create .job job.jobId job]) → C.permits past (.commit ws)
  found : ∀ {i : String} {job : Job} {n : Nat},
    C.trusts (.find .job i) (.ok (some (job, n))) → job.jobId = i
  listed : ∀ {xs : Listing (Job × Nat)}, C.trusts (.list .job) (.ok xs) →
    ∀ e ∈ xs.entries, e.2.1.jobId = e.1
  finishedNow : ∀ {past job status r}, Finished past job status →
    Finished (⟨.now, r⟩ :: past) job status

section Hand
variable {past : ProcPast X}

/-- A process that has only looked for jobs has seen nothing else. -/
theorem Opening.unread (h : Opening past) {t : AggregateType} (i : String)
    (ht : t ≠ .job) : seen t i past = none := by
  induction past with
  | nil => rfl
  | cons ev past ih =>
      have hrest := ih fun ev' hev => h ev' (List.mem_cons_of_mem _ hev)
      have hev := h ev List.mem_cons_self
      obtain ⟨o, r⟩ := ev
      cases o with
      | find u j =>
          obtain rfl : u = .job := by
            cases u <;> first | rfl | exact hev.elim
          cases r with
          | error e => exact hrest
          | ok x =>
              refine (seen_find_of_ne (u := .job) x fun he => ?_).trans hrest
              exact ht (Prod.mk.inj he).1
      | list u =>
          obtain rfl : u = .job := by
            cases u <;> first | rfl | exact hev.elim
          exact (seen_list_of_ne (u := .job) r ht).trans hrest
      | now => exact (seen_now r).trans hrest
      | commit ws => exact hev.elim
      | newId => exact hev.elim
      | ext x => exact hev.elim

@[simp] theorem inHand_now (r : Except Exc Int) :
    inHand (⟨.now, r⟩ :: past) = inHand past := by
  cases r <;> rfl

@[simp] theorem inHand_find {t : AggregateType} {i : String}
    (r : Except Exc (Option (t.Payload × Nat))) :
    inHand (⟨.find t i, r⟩ :: past) = inHand past := by
  cases r <;> rfl

@[simp] theorem inHand_ext {x : X.Op} (r : Except Exc (X.Res x)) :
    inHand (⟨.ext x, r⟩ :: past) = inHand past := by
  cases r <;> rfl

@[simp] theorem inHand_replace (i : String) (job : Job) (n : Nat) :
    inHand (⟨.commit [.replace .job i job n], .ok ()⟩ :: past) =
      if job.status = .running then some (job, n + 1) else none := by
  simp only [inHand, jobWritten, List.findSome?_cons]
  split <;> simp_all

@[simp] theorem inHand_replace_error (i : String) (job : Job) (n : Nat)
    (e : Exc) :
    inHand (⟨.commit [.replace .job i job n], .error e⟩ :: past) = none := rfl

theorem inHand_of_not_written {ev : (iface backend X).Event}
    (h : jobWritten ev = none) : inHand (ev :: past) = inHand past := by
  simp only [inHand, List.findSome?_cons, h]

/-- A job in hand was in hand before, or it was just written. -/
theorem inHand_cons {ev : (iface backend X).Event} {job : Job} {n : Nat}
    (h : inHand (ev :: past) = some (job, n)) :
    (jobWritten ev = none ∧ inHand past = some (job, n)) ∨
      ∃ i version, ev = ⟨.commit [.replace .job i job version], .ok ()⟩ ∧
        n = version + 1 := by
  cases hev : jobWritten ev with
  | none => exact .inl ⟨rfl, (inHand_of_not_written hev).symm.trans h⟩
  | some x =>
      obtain rfl : x = some (job, n) := by
        simp only [inHand, List.findSome?_cons, hev] at h
        exact (Option.filter_eq_some_iff.mp h).1
      unfold jobWritten at hev
      split at hev
      · next i job' version r =>
          simp only [Option.some.injEq, Prod.mk.injEq] at hev
          obtain ⟨rfl, rfl⟩ := hev
          exact .inr ⟨i, version, rfl, rfl⟩
      · cases hev
      · cases hev

/-- A job in hand was seen as it was written. -/
theorem inHand_seen {job : Job} {n : Nat} (h : inHand past = some (job, n)) :
    ∃ rest i, rest <:+ past ∧ seen .job i rest = some (job, n) := by
  induction past with
  | nil => cases h
  | cons ev past ih =>
      rcases inHand_cons h with ⟨-, h⟩ | ⟨i, version, rfl, rfl⟩
      · obtain ⟨rest, i, hsuf, hseen⟩ := ih h
        exact ⟨rest, i, hsuf.trans (List.suffix_cons _ _), hseen⟩
      · exact ⟨_, i, List.suffix_refl _, seen_replace (t := .job) job version⟩

theorem inHand_running {job : Job} {n : Nat}
    (h : inHand past = some (job, n)) : job.status = .running := by
  simpa using (Option.filter_eq_some_iff.mp h).2

end Hand

section Writes

variable {C : Prog.Contract (iface backend X)}
  {Finished : EndRule X} {role : JobRole}
  (hC : JobTerms C Finished role)
include hC

/-- What is seen of other records does not change. -/
def SameBut (jobId : String) (past past' : ProcPast X) : Prop :=
  ∀ t i, (t, i) ≠ (AggregateType.job, jobId) → seen t i past' = seen t i past

/-- How an update of a job ends: nothing else was learned, and the job is the
last seen of its record when the update returned. -/
structure Updated (job : Job) (past past' : ProcPast X) (r : Except Exc Job) :
    Prop where
  others : SameBut job.jobId past past'
  made : ∀ job', r = .ok job' → ∃ n, seen .job job.jobId past' = some (job, n) ∧
    (job.status = .running → inHand past' = some (job, n))

omit hC in
theorem Updated.failed {job : Job} {past past' : ProcPast X} {e : Exc}
    (h : SameBut job.jobId past past') : Updated job past past' (.error e) :=
  ⟨h, fun _ he => by cases he⟩

/-- `JobStore.update` commits one transition of what was seen before. -/
theorem update_wp {past : ProcPast X} {job basis : Job} {seenAt : Nat}
    (hs : seen .job job.jobId past = some (basis, seenAt))
    (ht : Job.Transition basis job)
    (hc : JobCause Finished role past basis seenAt job) :
    Prog.wp C (Updated job past) (JobStore.update job) past := by
  have hfound : ∀ x : Option (Job × Nat), SameBut job.jobId past
      (⟨.find .job job.jobId, .ok x⟩ :: past) :=
    fun x t i hne => seen_find_of_ne (u := .job) x hne
  refine find_bind (hC.reads trivial) (fun current version _ => ?_)
    (Updated.failed (hfound none)) fun e => Updated.failed fun t i _ => rfl
  have hcommit : ∀ r : Except Exc Unit, SameBut job.jobId past
      (⟨.commit [.replace .job job.jobId job version], r⟩ ::
        ⟨.find .job job.jobId, .ok (some (current, version))⟩ :: past) := by
    intro r t i hne
    rw [seen_commit_of_ne fun w hw => List.mem_singleton.mp hw ▸ hne]
    exact hfound _ t i hne
  refine commit_bind (hC.updates (.update rfl hs ht hc) fun _ he => by cases he) ?_
    fun e => Updated.failed (hcommit _)
  refine ⟨hcommit _, fun _ _ => ⟨version + 1,
    seen_replace (t := .job) job version, fun hr => ?_⟩⟩
  rw [inHand_replace, if_pos hr]

/-- A running job in hand, also the last seen of its record. -/
def Holding (running : Job) (n : Nat) (past : ProcPast X) : Prop :=
  seen .job running.jobId past = some (running, n) ∧
    inHand past = some (running, n)

omit hC in
theorem Holding.now {running : Job} {n : Nat} {past : ProcPast X}
    (h : Holding running n past) (r : Except Exc Int) :
    Holding running n (⟨.now, r⟩ :: past) :=
  ⟨(seen_now (t := .job) _).trans h.1, (inHand_now _).trans h.2⟩

omit hC in
theorem Holding.ext {running : Job} {n : Nat} {past : ProcPast X}
    (h : Holding running n past) {x : X.Op} (r : Except Exc (X.Res x)) :
    Holding running n (⟨.ext x, r⟩ :: past) :=
  ⟨(seen_ext (t := .job) _).trans h.1, (inHand_ext _).trans h.2⟩

/-- How a handler leaves its attempt: the job is still in hand, a result allows
every end of the attempt and an exception every end but completion. -/
structure Handled (Finished : EndRule X) (running : Job) (n : Nat) (past : ProcPast X)
    (r : Except Exc Dict) : Prop where
  holding : Holding running n past
  returned : ∀ a, r = .ok a → ∀ status, Finished past running status
  raised : ∀ e, r = .error e → ∀ status, status ≠ .completed →
    Finished past running status

omit hC in
/-- Where only completion needs something, a result has to bring it. -/
theorem Handled.of_completing {P : ProcPast X → Job → Prop} {running : Job} {n : Nat}
    {past : ProcPast X} {r : Except Exc Dict}
    (h : Holding running n past ∧ ∀ a, r = .ok a → P past running) :
    Handled (completing P) running n past r where
  holding := h.1
  returned a ha _ _ := h.2 a ha
  raised _ _ _ hne hc := absurd hc hne

/-- The attempt at a job writes no job of its own and ends in a transition of
the running job. -/
theorem attempt_wp {past : ProcPast X} {handlers : Handlers X} {running : Job}
    {n : Nat} (hs : Holding running n past)
    (hN : handlers running.jobType = none → ∀ status, status ≠ .completed →
      Finished past running status)
    (hH : ∀ handler, handlers running.jobType = some handler →
      Prog.wp C (Handled Finished running n) (handler running.payload) past) :
    Prog.wp C (fun past' r => ∀ job, r = .ok job →
      Holding running n past' ∧ Job.Transition running job ∧
        Finished past' running job.status)
      (attempt handlers running) past := by
  have hretry : ∀ past' (exc : Exc), Holding running n past' →
      (∀ status, status ≠ .completed → Finished past' running status) →
      Prog.wp C (fun past'' r => ∀ job, r = .ok job →
        Holding running n past'' ∧ Job.Transition running job ∧
          Finished past'' running job.status)
        (do let at_ ← now
            Prog.ofExcept (running.retryOrFail exc.message at_)) past' := by
    intro past' exc hs' hfin
    refine now_bind (hC.reads trivial) (fun at_ => ?_) fun e _ he => by cases he
    rw [Prog.wp_ofExcept]
    intro job hj
    obtain ⟨ht, hst⟩ := Job.retryOrFail_ok hj
    refine ⟨hs'.now _, ht, hC.finishedNow (hfin _ fun hc => ?_)⟩
    rcases hst with ⟨h, -⟩ | ⟨h, -⟩ <;> rw [h] at hc <;> cases hc
  unfold attempt
  rw [Prog.wp_tryCatch]
  refine Prog.wp_ofExcept_bind (fun handler hh => ?_) fun e he => ?_
  · have hreg : handlers running.jobType = some handler := by
      unfold resolve at hh
      split at hh
      · next h => rw [h, Except.ok.inj hh]
      · cases hh
    refine Prog.wp_seq (hH handler hreg) (fun past' result _ hQ => ?_)
      fun past' e _ hQ => hretry past' e hQ.holding (hQ.raised e rfl)
    have hreturned := hQ.returned result rfl
    refine now_bind (hC.reads trivial) (fun at_ => ?_) fun e =>
      hretry _ e (hQ.holding.now _) fun status _ => hC.finishedNow (hreturned status)
    rw [Prog.wp_ofExcept]
    cases hcomp : running.complete result at_ with
    | error e =>
        exact hretry _ e (hQ.holding.now _) fun status _ => hC.finishedNow (hreturned status)
    | ok job =>
        intro job' hj
        cases hj
        exact ⟨hQ.holding.now _, (Job.complete_ok hcomp).1, hC.finishedNow (hreturned _)⟩
  · refine hretry past e hs (hN ?_)
    unfold resolve at he
    split at he
    · cases he
    · next h => exact h

/-- A job that `listQueued` gave was seen in the listing. -/
theorem listQueued_wp {limit : Nat} :
    Prog.wp C (fun past' r => Opening past' ∧ ∀ jobs, r = .ok jobs → ∀ job ∈ jobs,
      ∃ n, seen .job job.jobId past' = some (job, n))
      (JobStore.listQueued limit) [] := by
  have hopening : ∀ r : Except Exc (Listing (Job × Nat)),
      Opening (X := X) [⟨.list .job, r⟩] := fun r ev hev => by
    rw [List.mem_singleton.mp hev]
    trivial
  refine list_bind (hC.reads trivial) (fun xs hxs => ?_) fun e =>
    ⟨hopening _, fun _ he => by cases he⟩
  refine ⟨hopening _, ?_⟩
  rintro jobs ⟨⟩ job hjob
  have hmem := (List.mem_filter.mp ((List.perm_insertionSort _ _).mem_iff.mp
    (List.mem_of_mem_take hjob))).1
  obtain ⟨⟨i, job', n⟩, he, rfl⟩ := List.mem_map.mp hmem
  obtain rfl : job'.jobId = i := hC.listed hxs _ he
  exact ⟨n, (seen_list (t := .job) xs).trans
    (Service.Listing.lookup_of_mem xs.nodup he)⟩

/-- `runOnce`: a start and an end of one job, both from what was seen of it. -/
theorem runOnce_wp (hrole : role = .worker) {handlers : Handlers X}
    (hN : ∀ past (running : Job) n, Holding running n past →
      handlers running.jobType = none → ∀ status, status ≠ .completed →
      Finished past running status)
    (hH : ∀ past (running : Job) n handler, Holding running n past →
      running.status = .running → handlers running.jobType = some handler →
      Prog.wp C (Handled Finished running n) (handler running.payload) past) :
    Prog.wp C (fun _ _ => True) (runOnce handlers) [] := by
  refine Prog.wp_seq (listQueued_wp hC) (fun past queued _ hQ => ?_)
    fun _ _ _ _ => trivial
  split
  · trivial
  next job queue =>
  obtain ⟨n, hs⟩ := hQ.2 _ rfl job List.mem_cons_self
  refine now_bind (hC.reads trivial) (fun at_ => ?_) fun _ => trivial
  refine Prog.wp_ofExcept_bind (fun running hrun => ?_) fun _ _ => trivial
  obtain ⟨ht, hst⟩ := Job.transitionRunning_ok hrun
  have hopening : Opening (⟨.now, .ok at_⟩ :: past) := by
    intro ev hev
    rcases List.mem_cons.mp hev with rfl | hev
    · trivial
    · exact hQ.1 ev hev
  refine Prog.wp_seq (update_wp hC (ht.jobId ▸ hs) ht (.start hrole hst hopening))
    (fun past' a _ hQ => ?_) fun _ _ _ _ => trivial
  obtain ⟨m, hm, hhand⟩ := hQ.made a rfl
  have hhold : Holding running m past' := ⟨hm, hhand hst⟩
  refine Prog.wp_seq (attempt_wp hC hhold (hN past' running m hhold)
    fun handler hh => hH past' running m handler hhold hst hh)
    (fun past'' completed _ hQ' => ?_) fun _ _ _ _ => trivial
  obtain ⟨hs'', ht'', hf''⟩ := hQ' completed rfl
  have hends : completed.status ≠ .running := by
    have hmoves := ht''.moves
    rw [hst] at hmoves
    intro h
    rw [h] at hmoves
    cases hmoves
  exact Prog.wp_seq
    (update_wp hC (ht''.jobId ▸ hs''.1) ht'' (.finish hrole hs''.2 hends hf''))
    (fun _ _ _ _ => trivial) fun _ _ _ _ => trivial

/-- The recovery loop, while the listing is still what was seen last. -/
theorem recoverRunningJobs_wp (hrole : role = .recovery)
    (records : List (String × Job × Nat)) {past : ProcPast X} (hn : (records.map Prod.fst).Nodup)
    (hs : ∀ e ∈ records, seen .job e.1 past = some e.2 ∧ e.2.1.jobId = e.1) :
    Prog.wp C (fun _ _ => True) (JobStore.recoverRunningJobs records) past := by
  induction records generalizing past with
  | nil => trivial
  | cons e records ih =>
      obtain ⟨i, job, n⟩ := e
      rw [List.map_cons, List.nodup_cons] at hn
      have hrest : ∀ e ∈ records, seen .job e.1 past = some e.2 ∧
          e.2.1.jobId = e.1 := fun e he => hs e (List.mem_cons_of_mem _ he)
      unfold JobStore.recoverRunningJobs
      split
      · exact ih hn.2 hrest
      next hran =>
      refine now_bind (hC.reads trivial) (fun at_ => ?_) fun _ => trivial
      refine Prog.wp_ofExcept_bind (fun recovered hret => ?_) fun _ _ => trivial
      obtain ⟨ht, hst⟩ := Job.retryOrFail_ok hret
      obtain ⟨hseen, hid⟩ := hs _ List.mem_cons_self
      have hrid : recovered.jobId = i := ht.jobId.trans hid
      have hends : recovered.status = .queued ∨ recovered.status = .failed :=
        hst.imp And.left And.left
      refine Prog.wp_seq (update_wp hC (hrid ▸ hseen) ht
          (.recover hrole (Decidable.not_not.mp hran) hends))
        (fun past' _ _ hQ => ?_) fun _ _ _ _ => trivial
      refine Prog.wp_seq (ih hn.2 fun e he => ⟨?_, (hrest e he).2⟩)
        (fun _ _ _ _ => trivial) fun _ _ _ _ => trivial
      have hne : e.1 ≠ i := fun h => hn.1 (h ▸ List.mem_map.mpr ⟨_, he, rfl⟩)
      rw [hQ.others .job e.1 fun h => hne ((Prod.mk.inj h).2.trans hrid)]
      exact (hrest e he).1

theorem recover_wp (hrole : role = .recovery) :
    Prog.wp C (fun _ _ => True) recover [] := by
  refine list_bind (hC.reads trivial) (fun xs hxs => ?_) fun _ => trivial
  refine recoverRunningJobs_wp hC hrole _ xs.nodup fun e he =>
    ⟨?_, hC.listed hxs e he⟩
  exact (seen_list (t := .job) xs).trans
    (Service.Listing.lookup_of_mem xs.nodup he)

/-- `getJob` leaves the job seen under its id. -/
theorem getJob_wp {jobId : String} {past : ProcPast X} :
    Prog.wp C (fun past' r => ∀ job, r = .ok job →
      ∃ n, seen .job job.jobId past' = some (job, n)) (getJob jobId) past := by
  unfold getJob
  rw [Prog.wp_tryCatch]
  refine find_bind (hC.reads trivial) (fun job n htr => ?_)
    (fun _ he => by cases he) fun e _ he => by cases he
  rintro job' ⟨⟩
  exact ⟨n, hC.found htr ▸ seen_find (t := .job) (some (job, n))⟩

theorem cancelJob_wp (hrole : role = .request) {jobId principalId : String} :
    Prog.wp C (fun _ _ => True) (cancelJob jobId principalId) [] := by
  refine Prog.wp_seq (getJob_wp hC) (fun past job _ hQ => ?_)
    fun _ _ _ _ => trivial
  obtain ⟨n, hs⟩ := hQ job rfl
  refine Prog.wp_ofExcept_bind (fun _ _ => ?_) fun _ _ => trivial
  refine Prog.wp_try (Q := fun _ _ => True) ?_ (fun _ _ _ _ => trivial)
    fun past' exc _ _ => by split <;> trivial
  refine now_bind (hC.reads trivial) (fun at_ => ?_) fun _ => trivial
  refine Prog.wp_ofExcept_bind (fun cancelled hc => ?_) fun _ _ => trivial
  obtain ⟨ht, hst⟩ := Job.cancel_ok hc
  exact Prog.wp_mono (fun _ _ _ _ => trivial)
    (update_wp hC (ht.jobId ▸ hs) ht (.cancel hrole hst))

theorem createJob_wp
    (hcreate : ∀ {past ws}, JobWrite Finished role past ws →
      C.permits past (.commit ws)) {reserved : ReservedJobTypes} {jobType principalId : String}
    {payload : Dict} {maxAttempts : Nat} :
    Prog.wp C (fun _ _ => True)
      (createJob reserved jobType principalId payload maxAttempts) [] := by
  unfold createJob
  split
  · trivial
  refine newId_bind (hC.reads trivial) (fun jobId => ?_) fun _ => trivial
  refine now_bind (hC.reads trivial) (fun at_ => ?_) fun _ => trivial
  refine Prog.wp_ofExcept_bind (fun job hj => ?_) fun _ _ => trivial
  obtain ⟨hq, ha, -⟩ := Job.new_ok hj
  rw [Prog.wp_tryCatch]
  exact commit_bind (hcreate (.create hq ha)) trivial fun _ => trivial

end Writes

end SeoAgent.Ports
