import SeoAgent.Ports.Exceptions
import SeoAgent.Verified.Json
import SeoAgent.Verified.Text

/-!
# Runs and their transitions

`SeoRun` is what a customer asked to be analysed, with the result. Its
transitions are guarded by the status they start from. Nothing moves a run to
`cancelled`.

## Main results

* `SeoRun.start_ok`, `SeoRun.complete_ok`, `SeoRun.fail_ok` — what a transition
  that was not refused did.
-/

namespace SeoAgent.Ports

open Verified

/-- `SEORunStatus`. -/
inductive SeoRunStatus
  | queued
  | running
  | completed
  | failed
  | cancelled
  deriving DecidableEq, Repr

namespace SeoRunStatus

/-- The stored text of a status. -/
def value : SeoRunStatus → String
  | queued => "queued"
  | running => "running"
  | completed => "completed"
  | failed => "failed"
  | cancelled => "cancelled"

/-- The statuses in which nothing is left to do. -/
def terminal : SeoRunStatus → Bool
  | completed | failed | cancelled => true
  | queued | running => false

end SeoRunStatus

/-- `SEORun`. Times are microseconds, dates the texts they are stored as. -/
structure SeoRun where
  runId : String
  siteId : String
  principalId : String
  jobId : String
  status : SeoRunStatus
  startDate : String
  endDate : String
  normalizedUrl : String
  normalizedQuery : String
  candidateId : String
  result : Option Dict
  error : Option String
  createdAt : Int
  startedAt : Option Int
  completedAt : Option Int
  texts_ne : runId ≠ "" ∧ siteId ≠ "" ∧ principalId ≠ "" ∧ jobId ≠ "" ∧
    normalizedUrl ≠ "" ∧ normalizedQuery ≠ "" ∧ candidateId ≠ ""
  deriving DecidableEq

namespace SeoRun

/-- `SEORun(...)` with the defaults of the fields that are not given. -/
def new (runId siteId principalId jobId startDate endDate normalizedUrl
    normalizedQuery candidateId : String) (now : Int) : Except Exc SeoRun :=
  if h : runId ≠ "" ∧ siteId ≠ "" ∧ principalId ≠ "" ∧ jobId ≠ "" ∧
      normalizedUrl ≠ "" ∧ normalizedQuery ≠ "" ∧ candidateId ≠ "" then
    .ok
      { runId, siteId, principalId, jobId, startDate, endDate, normalizedUrl,
        normalizedQuery, candidateId
        status := .queued
        result := none
        error := none
        createdAt := now
        startedAt := none
        completedAt := none
        texts_ne := h }
  else .error ⟨.validationError, "validation error for SEORun"⟩

/-- `SEORun.start`. -/
def start (run : SeoRun) (now : Int) : Except Exc SeoRun :=
  if run.status ≠ .queued then .error (.valueError "Only queued runs can start.")
  else .ok { run with status := .running, startedAt := some now, error := none }

/-- `SEORun.complete`. -/
def complete (run : SeoRun) (result : Dict) (now : Int) : Except Exc SeoRun :=
  if run.status ≠ .running then .error (.valueError "Only running runs can complete.")
  else .ok
    { run with
      status := .completed
      result := some result
      error := none
      completedAt := some now }

/-- `SEORun.fail`. -/
def fail (run : SeoRun) (error : String) (now : Int) : Except Exc SeoRun :=
  if run.status ≠ .running then .error (.valueError "Only running runs can fail.")
  else .ok
    { run with
      status := .failed
      result := none
      error := some (Text.orElse (Text.cut 2000 (Text.strip error)) "Run failed.")
      completedAt := some now }

/-- The copy of a run a redelivered job starts from. -/
def requeued (run : SeoRun) : SeoRun :=
  if run.status = .failed ∨ run.status = .running then
    { run with status := .queued, completedAt := none, error := none }
  else run

/-! ## What a transition did -/

/-- What names a run and what it is about: everything a transition leaves alone. -/
structure SameRequest (a b : SeoRun) : Prop where
  runId : b.runId = a.runId
  siteId : b.siteId = a.siteId
  principalId : b.principalId = a.principalId
  jobId : b.jobId = a.jobId
  normalizedUrl : b.normalizedUrl = a.normalizedUrl
  normalizedQuery : b.normalizedQuery = a.normalizedQuery
  candidateId : b.candidateId = a.candidateId

section
variable {run run' : SeoRun} {now : Int}

theorem new_ok {runId siteId principalId jobId startDate endDate normalizedUrl
    normalizedQuery candidateId : String}
    (h : new runId siteId principalId jobId startDate endDate normalizedUrl
      normalizedQuery candidateId now = .ok run) :
    run.runId = runId ∧ run.status = .queued ∧ run.jobId = jobId := by
  unfold new at h
  split at h
  · obtain rfl := Except.ok.inj h
    exact ⟨rfl, rfl, rfl⟩
  · cases h

theorem start_ok (h : run.start now = .ok run') :
    run'.status = .running ∧ run.SameRequest run' := by
  unfold start at h
  split at h
  · cases h
  · obtain rfl := Except.ok.inj h
    exact ⟨rfl, rfl, rfl, rfl, rfl, rfl, rfl, rfl⟩

theorem complete_ok {result : Dict} (h : run.complete result now = .ok run') :
    run'.status = .completed ∧ run'.result = some result ∧ run.SameRequest run' := by
  unfold complete at h
  split at h
  · cases h
  · obtain rfl := Except.ok.inj h
    exact ⟨rfl, rfl, rfl, rfl, rfl, rfl, rfl, rfl, rfl⟩

theorem fail_ok {error : String} (h : run.fail error now = .ok run') :
    run'.status = .failed ∧ run.SameRequest run' := by
  unfold fail at h
  split at h
  · cases h
  · obtain rfl := Except.ok.inj h
    exact ⟨rfl, rfl, rfl, rfl, rfl, rfl, rfl, rfl⟩

theorem complete_of_running (h : run.status = .running) (result : Dict) :
    ∃ run', run.complete result now = .ok run' := by
  unfold complete
  rw [if_neg (not_not_intro h)]
  exact ⟨_, rfl⟩

theorem fail_of_running (h : run.status = .running) (error : String) :
    ∃ run', run.fail error now = .ok run' := by
  unfold fail
  rw [if_neg (not_not_intro h)]
  exact ⟨_, rfl⟩

theorem requeued_same (run : SeoRun) : run.SameRequest run.requeued := by
  unfold requeued
  split <;> exact ⟨rfl, rfl, rfl, rfl, rfl, rfl, rfl⟩

/-- A run that is neither completed nor cancelled can be started again. -/
theorem start_requeued (hc : run.status ≠ .completed) (hx : run.status ≠ .cancelled) :
    ∃ run', run.requeued.start now = .ok run' := by
  have hq : run.requeued.status = .queued := by
    unfold requeued
    split
    · rfl
    · cases hs : run.status <;> simp_all
  unfold start
  rw [if_neg (not_not_intro hq)]
  exact ⟨_, rfl⟩

end

end SeoRun

end SeoAgent.Ports
