import SeoAgent.Ports.Exceptions
import SeoAgent.Verified.Json
import SeoAgent.Verified.Text

/-!
# Jobs and their transitions

`Job` with its pure transitions. Each transition is guarded by the status it
starts from and copies the job with some fields changed; the stored bounds of
`max_attempts` are fields of the structure.

## Main results

* `Job.transitionRunning_ok` and its siblings — what a transition that was not
  refused did.
* `Moves` — the transitions as a relation on statuses.
-/

namespace SeoAgent.Ports

open Verified

/-- `JobStatus`. -/
inductive JobStatus
  | queued
  | running
  | completed
  | failed
  | cancelled
  deriving DecidableEq, Repr

namespace JobStatus

/-- The stored text of a status. -/
def value : JobStatus → String
  | queued => "queued"
  | running => "running"
  | completed => "completed"
  | failed => "failed"
  | cancelled => "cancelled"

/-- The statuses nothing is meant to lead out of. -/
def terminal : JobStatus → Bool
  | completed | failed | cancelled => true
  | queued | running => false

/-- The status changes the transitions of a job make. -/
inductive Moves : JobStatus → JobStatus → Prop
  | start : Moves queued running
  | requeue : Moves running queued
  | complete : Moves running completed
  | fail : Moves running failed
  | cancel : Moves queued cancelled

theorem Moves.not_terminal {a b : JobStatus} (h : Moves a b) :
    a.terminal = false := by
  cases h <;> rfl

end JobStatus

/-- `Job`. Times are microseconds. -/
structure Job where
  jobId : String
  jobType : String
  principalId : String
  payload : Dict
  status : JobStatus
  result : Option Dict
  error : Option String
  attemptCount : Nat
  maxAttempts : Nat
  createdAt : Int
  startedAt : Option Int
  completedAt : Option Int
  one_le_maxAttempts : 1 ≤ maxAttempts
  maxAttempts_le : maxAttempts ≤ 10
  deriving DecidableEq

namespace Job

/-- `Job(...)` with the defaults of the fields that are not given. -/
def new (jobId jobType principalId : String) (payload : Dict)
    (maxAttempts : Nat) (now : Int) : Except Exc Job :=
  if h : jobId ≠ "" ∧ jobType ≠ "" ∧ principalId ≠ "" ∧ 1 ≤ maxAttempts ∧
      maxAttempts ≤ 10 then
    .ok
      { jobId, jobType, principalId, payload, maxAttempts
        status := .queued
        result := none
        error := none
        attemptCount := 0
        createdAt := now
        startedAt := none
        completedAt := none
        one_le_maxAttempts := h.2.2.2.1
        maxAttempts_le := h.2.2.2.2 }
  else .error ⟨.validationError, "validation error for Job"⟩

/-- `Job.transition_running`. -/
def transitionRunning (job : Job) (now : Int) : Except Exc Job :=
  if job.status ≠ .queued then
    .error (.valueError "Only queued jobs can start running.")
  else if job.maxAttempts ≤ job.attemptCount then
    .error (.valueError "Job has exhausted its maximum attempts.")
  else
    .ok
      { job with
        status := .running
        attemptCount := job.attemptCount + 1
        startedAt := some now
        error := none }

/-- `Job.complete`. -/
def complete (job : Job) (result : Dict) (now : Int) : Except Exc Job :=
  if job.status ≠ .running then
    .error (.valueError "Only running jobs can complete.")
  else
    .ok
      { job with
        status := .completed
        result := some result
        error := none
        completedAt := some now }

/-- The text an error is stored with. -/
def normalizedError (error : String) : String :=
  Text.orElse (Text.strip error) "Job failed."

/-- `Job.fail`. -/
def fail (job : Job) (error : String) (now : Int) : Except Exc Job :=
  if job.status ≠ .running then
    .error (.valueError "Only running jobs can fail.")
  else
    .ok
      { job with
        status := .failed
        result := none
        error := some (Text.cut 2000 (normalizedError error))
        completedAt := some now }

/-- `Job.retry_or_fail`: requeue while attempts remain, otherwise fail. -/
def retryOrFail (job : Job) (error : String) (now : Int) : Except Exc Job :=
  if job.status ≠ .running then
    .error (.valueError "Only running jobs can be retried or failed.")
  else if job.attemptCount < job.maxAttempts then
    .ok
      { job with
        status := .queued
        result := none
        error := some (Text.cut 2000 (normalizedError error))
        startedAt := none
        completedAt := none }
  else job.fail (normalizedError error) now

/-- `Job.cancel`. -/
def cancel (job : Job) (now : Int) : Except Exc Job :=
  if job.status ≠ .queued then
    .error (.valueError "Only queued jobs can be cancelled.")
  else .ok { job with status := .cancelled, completedAt := some now }

/-! ## What a transition does -/

/-- One transition of a job: the status moves, the attempts are counted at the
start, a job is requeued only while attempts remain, and the rest of what
identifies it stays. -/
structure Transition (job next : Job) : Prop where
  moves : JobStatus.Moves job.status next.status
  jobId : next.jobId = job.jobId
  jobType : next.jobType = job.jobType
  payload : next.payload = job.payload
  maxAttempts : next.maxAttempts = job.maxAttempts
  attempts : next.attemptCount =
    if next.status = .running then job.attemptCount + 1 else job.attemptCount
  room : next.status = .running ∨ next.status = .queued →
    job.attemptCount < job.maxAttempts

section
variable {job next : Job} {now : Int}

theorem transitionRunning_ok (h : job.transitionRunning now = .ok next) :
    Transition job next ∧ next.status = .running := by
  unfold transitionRunning at h
  split at h
  · cases h
  · next hs =>
      split at h
      · cases h
      · next ha =>
          cases h
          refine ⟨{ moves := ?_, jobId := rfl, jobType := rfl, payload := rfl,
                    maxAttempts := rfl, attempts := rfl, room := fun _ => ?_ }, rfl⟩
          · rw [Decidable.not_not.mp hs]; exact .start
          · omega

theorem complete_ok {result : Dict} (h : job.complete result now = .ok next) :
    Transition job next ∧ next.status = .completed := by
  unfold complete at h
  split at h
  · cases h
  · next hs =>
      cases h
      refine ⟨{ moves := ?_, jobId := rfl, jobType := rfl, payload := rfl,
                maxAttempts := rfl, attempts := rfl, room := by simp }, rfl⟩
      rw [Decidable.not_not.mp hs]; exact .complete

theorem fail_ok {error : String} (h : job.fail error now = .ok next) :
    Transition job next ∧ next.status = .failed := by
  unfold fail at h
  split at h
  · cases h
  · next hs =>
      cases h
      refine ⟨{ moves := ?_, jobId := rfl, jobType := rfl, payload := rfl,
                maxAttempts := rfl, attempts := rfl, room := by simp }, rfl⟩
      rw [Decidable.not_not.mp hs]; exact .fail

/-- A failed attempt is requeued or fails, by whether attempts remain. -/
theorem retryOrFail_ok {error : String}
    (h : job.retryOrFail error now = .ok next) :
    Transition job next ∧
      (next.status = .queued ∧ job.attemptCount < job.maxAttempts ∨
        next.status = .failed ∧ job.maxAttempts ≤ job.attemptCount) := by
  unfold retryOrFail at h
  split at h
  · cases h
  · next hs =>
      split at h
      · next ha =>
          cases h
          refine ⟨{ moves := ?_, jobId := rfl, jobType := rfl, payload := rfl,
                    maxAttempts := rfl, attempts := rfl, room := fun _ => ha },
            .inl ⟨rfl, ha⟩⟩
          rw [Decidable.not_not.mp hs]; exact .requeue
      · next ha => exact ⟨(fail_ok h).1, .inr ⟨(fail_ok h).2, by omega⟩⟩

/-- A queued job with attempts left starts. -/
theorem transitionRunning_of_queued (hs : job.status = .queued)
    (ha : job.attemptCount < job.maxAttempts) :
    ∃ running, job.transitionRunning now = .ok running := by
  unfold transitionRunning
  rw [if_neg (not_not_intro hs), if_neg (Nat.not_le.mpr ha)]
  exact ⟨_, rfl⟩

/-- A running job completes. -/
theorem complete_of_running (hs : job.status = .running) (result : Dict) :
    ∃ completed, job.complete result now = .ok completed := by
  unfold complete
  rw [if_neg (not_not_intro hs)]
  exact ⟨_, rfl⟩

/-- A running job is requeued or fails. -/
theorem retryOrFail_of_running (hs : job.status = .running) (error : String) :
    ∃ ended, job.retryOrFail error now = .ok ended := by
  unfold retryOrFail fail
  rw [if_neg (not_not_intro hs)]
  split
  · exact ⟨_, rfl⟩
  · rw [if_neg (not_not_intro hs)]
    exact ⟨_, rfl⟩

theorem cancel_ok (h : job.cancel now = .ok next) :
    Transition job next ∧ next.status = .cancelled := by
  unfold cancel at h
  split at h
  · cases h
  · next hs =>
      cases h
      refine ⟨{ moves := ?_, jobId := rfl, jobType := rfl, payload := rfl,
                maxAttempts := rfl, attempts := rfl, room := by simp }, rfl⟩
      rw [Decidable.not_not.mp hs]; exact .cancel

theorem new_ok {jobId jobType principalId : String} {payload : Dict}
    {maxAttempts : Nat}
    (h : Job.new jobId jobType principalId payload maxAttempts now = .ok job) :
    job.status = .queued ∧ job.attemptCount = 0 ∧ job.jobId = jobId ∧
      job.jobType = jobType ∧ job.payload = payload ∧
      job.maxAttempts = maxAttempts := by
  unfold Job.new at h
  split at h
  · cases h; exact ⟨rfl, rfl, rfl, rfl, rfl, rfl⟩
  · cases h

end

end Job

end SeoAgent.Ports
