import Mathlib.Data.List.Chain
import SeoAgent.Ports.JobScheduler

/-!
# The persisted history of jobs

Any number of schedulers, recoveries and requests over one job store, with the
handlers left open: a handler is an outside operation that may return anything
or raise anything. The machine splits `runOnce`, `recover`, `cancelJob` and
`createJob` at every store read and write.

`JobStore.update` replaces whatever version is stored when it writes, not the
version its job was computed from, so two processes that read the same version
can both write. `cancelled_job_runs` is such a run. `Orderly` is the condition
under which no job write takes effect over a version the writer had not seen,
and no recovery takes a job a live `runOnce` has in hand; under it every job's
versions are a run of the state machine (`orderly_histories`).

## Main results

* `cancelled_job_runs` — a cancel request lands between a start and the call of
  the handler.
* `orderly_histories` — under `Orderly` the persisted history follows the
  transitions of `Job`, and no handler of a cancelled job is called.
-/

namespace SeoAgent.Ports

open Verified Verified.Machine
open Service (Op iface World Processes Terms)

/-! ## The machine -/

/-- A call of a handler: the registered job type and the payload it is given. -/
structure HandlerCall where
  jobType : String
  payload : Dict

/-- Handlers left open: a call returns or raises anything. -/
@[reducible] def openHandlers : Outside Exc where
  Op := HandlerCall
  Res := fun _ => Dict
  State := Unit
  Choice := Except Exc Dict
  Env := Unit
  exec := fun s _ r => some (r, s)
  change := fun _ _ => none

/-- A registry whose handlers are left open. -/
def registry (registered : List String) : Handlers openHandlers := fun jobType =>
  if jobType ∈ registered then
    some fun payload => ext (X := openHandlers) ⟨jobType, payload⟩
  else none

/-- The processes that read and write jobs. -/
inductive JobKind
  | create (jobType principalId : String) (payload : Dict) (maxAttempts : Nat)
  | cancel (jobId principalId : String)
  | runOnce
  | recover

/-- The body of a process. -/
def jobBody (reserved : ReservedJobTypes) (registered : List String) :
    JobKind → Proc openHandlers Unit
  | .create jobType principalId payload maxAttempts =>
      (createJob reserved jobType principalId payload maxAttempts).void
  | .cancel jobId principalId => (cancelJob jobId principalId).void
  | .runOnce => (runOnce (registry registered)).void
  | .recover => recover.void

/-- Any number of them, beside each other. -/
@[reducible] def jobProcesses (reserved : ReservedJobTypes)
    (registered : List String) : Processes backend openHandlers where
  Kind := JobKind
  body := jobBody reserved registered
  admits := fun _ _ => true

@[reducible] def jobMachine (reserved : ReservedJobTypes)
    (registered : List String) : Machine (iface backend openHandlers) :=
  Service.machine (jobProcesses reserved registered)

/-- No records and no processes. -/
def noJobs : World backend openHandlers := ⟨Repository.empty, ()⟩

/-! ## What is claimed of a history -/

/-- The versions of a job, oldest first, follow the transitions of `Job`. -/
structure JobHistory (versions : List Job) : Prop where
  moves : versions.IsChain fun a b => JobStatus.Moves a.status b.status
  absorbing : ∀ n a b, versions[n]? = some a → a.status.terminal = true →
    versions[n + 1]? ≠ some b
  attempts_mono : versions.IsChain fun a b => a.attemptCount ≤ b.attemptCount
  attempts_le : ∀ v ∈ versions, v.attemptCount ≤ v.maxAttempts
  queued_lt : ∀ v ∈ versions, v.status = .queued →
    v.attemptCount < v.maxAttempts

section Claims
variable {reserved : ReservedJobTypes} {registered : List String}

/-- Every job's persisted versions follow the transitions. -/
def LawfulHistories (c : Config (jobMachine reserved registered)) : Prop :=
  ∀ jobId, JobHistory (c.shared.records.versions .job jobId)

/-- The handler call a process is about to make. -/
def callOf : Proc openHandlers Unit → Option HandlerCall
  | .call (.ext call) _ => some call
  | _ => none

/-- A process about to call a handler calls that of the job it has in hand,
and no cancelled version of that job has been committed. -/
def CallsNoCancelledJob (c : Config (jobMachine reserved registered)) : Prop :=
  ∀ th ∈ c.pool, ∀ call, callOf th.rest = some call →
    ∃ job n, inHand th.past = some (job, n) ∧
      call = ⟨job.jobType, job.payload⟩ ∧
      ∀ v ∈ c.shared.records.versions .job job.jobId, v.status ≠ .cancelled

end Claims

/-! ## Terms -/

/-- What a process does to jobs. -/
def JobKind.role : JobKind → JobRole
  | create _ _ _ _ | cancel _ _ => .request
  | runOnce => .worker
  | recover => .recovery

/-- What the processes may ask for: job writes, and the handler of the job in
hand. -/
def jobPermits (k : JobKind) (past : ProcPast openHandlers) :
    Op backend openHandlers → Prop
  | .commit ws => JobWrite (fun _ _ _ => True) k.role past ws
  | .ext call => ∃ job n, inHand past = some (job, n) ∧
      job.status = .running ∧ call = ⟨job.jobType, job.payload⟩
  | _ => True

section Terms
variable (reserved : ReservedJobTypes) (registered : List String)

@[reducible] def jobTerms : Terms (jobProcesses reserved registered) where
  Valid := storedUnderItsId
  permits := jobPermits

variable {reserved registered}

private theorem jobTerms_writes (k : JobKind)
    {past : ProcPast openHandlers}
    {ws : List (Repository.Write AggregateType AggregateType.Payload)}
    (hw : JobWrite (fun _ _ _ => True) k.role past ws) :
    ((jobTerms reserved registered).contract k).permits past (.commit ws) := by
  refine ⟨hw, fun w hmem => ?_⟩
  cases hw with
  | create => exact List.mem_singleton.mp hmem ▸ rfl
  | update => exact List.mem_singleton.mp hmem ▸ rfl

private theorem jobTerms_terms (k : JobKind) :
    JobTerms ((jobTerms reserved registered).contract k) (fun _ _ _ => True)
      k.role where
  reads := by
    intro past o ho
    cases o <;> first | exact ⟨trivial, trivial⟩ | exact ho.elim
  updates := fun hw _ => jobTerms_writes k hw
  found := fun h => h
  listed := fun h => h
  finishedNow := fun _ => trivial

theorem jobTerms_kept : (jobTerms reserved registered).Kept := by
  intro k
  have hT : JobTerms ((jobTerms reserved registered).contract k)
      (fun _ _ _ => True) k.role := jobTerms_terms k
  cases k with
  | create => exact Prog.wp_void (createJob_wp hT (jobTerms_writes (.create _ _ _ _)))
  | cancel => exact Prog.wp_void (cancelJob_wp hT rfl)
  | recover => exact Prog.wp_void (recover_wp hT rfl)
  | runOnce =>
      refine Prog.wp_void (runOnce_wp hT rfl (fun _ _ _ _ _ _ _ => trivial) ?_)
      intro past running n handler hold hrun hreg
      unfold registry at hreg
      split at hreg
      · obtain rfl := Option.some.inj hreg
        refine ext_wp (X := openHandlers) ⟨⟨running, n, hold.2, hrun, rfl⟩, trivial⟩
          fun r => ⟨hold.ext r, fun _ _ _ => trivial, fun _ _ _ _ => trivial⟩
      · cases hreg

end Terms

/-! ## Histories that are runs of the state machine -/

/-- Every version is a transition of the one before, from a fresh job. -/
structure JobRun (versions : List Job) : Prop where
  chain : versions.IsChain Job.Transition
  fresh : ∀ v ∈ versions.head?, v.status = .queued ∧ v.attemptCount = 0

/-- What holds of the first element of a chain and is passed on holds of all. -/
private theorem forall_of_isChain {α : Type} {R : α → α → Prop} {P : α → Prop}
    {l : List α} (hc : l.IsChain R) (h₀ : ∀ a ∈ l.head?, P a)
    (hs : ∀ a b, R a b → P a → P b) : ∀ a ∈ l, P a := by
  induction l with
  | nil => exact fun a ha => absurd ha List.not_mem_nil
  | cons a l ih =>
      have ha : P a := h₀ a rfl
      intro x hx
      rcases List.mem_cons.mp hx with rfl | hx
      · exact ha
      · refine ih hc.tail (fun b hb => ?_) x hx
        obtain ⟨l', rfl⟩ : ∃ l', l = b :: l' := by
          cases l with
          | nil => cases hb
          | cons c l' => exact ⟨l', by rw [Option.mem_some_iff.mp hb]⟩
        exact hs a b (List.isChain_cons_cons.mp hc).1 ha

theorem JobRun.append {versions : List Job} {job basis : Job}
    (h : JobRun versions) (hl : versions.getLast? = some basis)
    (ht : Job.Transition basis job) : JobRun (versions ++ [job]) where
  chain := by
    refine List.isChain_append.mpr ⟨h.chain, .singleton _, fun a ha b hb => ?_⟩
    obtain rfl := Option.mem_some_iff.mp hb
    obtain rfl := Option.some.inj (hl.symm.trans ha)
    exact ht
  fresh := by
    cases versions with
    | nil => cases hl
    | cons v versions => exact h.fresh

/-- A run of transitions keeps the bound on the attempts. -/
theorem JobRun.attempts {versions : List Job} (h : JobRun versions) :
    ∀ v ∈ versions, v.attemptCount ≤ v.maxAttempts ∧
      (v.status = .queued → v.attemptCount < v.maxAttempts) := by
  refine forall_of_isChain h.chain (fun v hv => ?_) fun a b hab ha => ?_
  · obtain ⟨-, h0⟩ := h.fresh v hv
    have := v.one_le_maxAttempts
    omega
  · have hroom := hab.room
    rw [hab.attempts, hab.maxAttempts]
    constructor
    · split
      · next hr => have := hroom (.inl hr); omega
      · exact ha.1
    · intro hq
      rw [if_neg (by rw [hq]; decide)]
      exact hroom (.inr hq)

theorem JobRun.history {versions : List Job} (h : JobRun versions) :
    JobHistory versions where
  moves := h.chain.imp fun _ _ ht => ht.moves
  absorbing := by
    intro n a b ha hterm hb
    obtain ⟨hlt, -⟩ := List.getElem?_eq_some_iff.mp hb
    obtain ⟨hlt', han⟩ := List.getElem?_eq_some_iff.mp ha
    have ht := (List.isChain_iff_getElem.mp h.chain n hlt).moves.not_terminal
    rw [han, hterm] at ht
    cases ht
  attempts_mono := h.chain.imp fun a b ht => by rw [ht.attempts]; split <;> omega
  attempts_le := fun v hv => (h.attempts v hv).1
  queued_lt := fun v hv => (h.attempts v hv).2

/-- In a run of transitions a terminal version is the last one. -/
theorem JobRun.not_terminal_of_last {versions : List Job} (h : JobRun versions)
    {last : Job} (hl : versions.getLast? = some last)
    (hr : last.status.terminal = false) : ∀ v ∈ versions, v.status.terminal = false := by
  intro v hv
  obtain ⟨n, hn, rfl⟩ := List.getElem_of_mem hv
  by_cases hlast : n + 1 < versions.length
  · exact (List.isChain_iff_getElem.mp h.chain n hlast).moves.not_terminal
  · rw [List.getLast?_eq_getElem?] at hl
    have hidx : versions.length - 1 = n := by omega
    rw [hidx, List.getElem?_eq_getElem hn] at hl
    rw [Option.some.inj hl]
    exact hr

/-! ## The condition -/

section Orderly
variable {reserved : ReservedJobTypes} {registered : List String}

/-- A write of version `n` of a job replaces the version the job was computed
from, and a recovery takes no job that a live process has in hand. -/
def OrderlyWrite (c : Config (jobMachine reserved registered)) (k : JobKind)
    (past : ProcPast openHandlers) (jobId : String) (n : Nat) : Prop :=
  (∀ x ∈ seen .job jobId past.tail, x.2 = n) ∧
    (k.role = .recovery → ∀ th ∈ c.pool, ∀ x ∈ inHand th.past,
      x.1.jobId ≠ jobId)

/-- Every job write that takes effect is an orderly one. -/
def Orderly : Condition (jobMachine reserved registered)
  | c, .act t _ =>
      match c.pool[t]? with
      | some ⟨k, .call (.commit [.replace .job jobId _ n]) _, past⟩ =>
          (c.shared.records.versions .job jobId).length = n →
            OrderlyWrite c k past jobId n
      | _ => True
  | _, _ => True

instance (c : Config (jobMachine reserved registered)) (k : JobKind)
    (past : ProcPast openHandlers) (jobId : String) (n : Nat) :
    Decidable (OrderlyWrite c k past jobId n) := by
  unfold OrderlyWrite
  infer_instance

instance (c : Config (jobMachine reserved registered))
    (m : Move (M := jobMachine reserved registered)) :
    Decidable (Orderly c m) := by
  unfold Orderly
  split
  · split <;> infer_instance
  · infer_instance

/-- A job write that is about to take effect, under `Orderly`: a transition of
the version it replaces. -/
private theorem orderly_write {c : Config (jobMachine reserved registered)}
    {t : Nat} {ch : ProcChoice openHandlers} {k : JobKind}
    {past : ProcPast openHandlers} {jobId : String} {job : Job} {n : Nat}
    {f : Except Exc Unit → Proc openHandlers Unit}
    (hgood : Orderly c (.act (M := jobMachine reserved registered) t ch))
    (hpool : c.pool[t]? =
      some ⟨k, .call (.commit [.replace .job jobId job n]) f, past⟩)
    (htold : Service.Told c.shared.records past)
    (hw : JobWrite (fun _ _ _ => True) k.role past [.replace .job jobId job n])
    (hlen : (c.shared.records.versions .job jobId).length = n) :
    jobId = job.jobId ∧ ∃ basis,
      (c.shared.records.versions .job jobId).getLast? = some basis ∧
      Job.Transition basis job ∧
      JobCause (fun _ _ _ => True) k.role past.tail basis n job ∧
      (k.role = .recovery → ∀ th ∈ c.pool, ∀ held m,
        inHand th.past = some (held, m) → held.jobId ≠ jobId) := by
  cases hw with
  | @update rest current version basis seenAt job found hseen step cause =>
      have hwrite : OrderlyWrite c k past job.jobId n := by
        simp only [Orderly, hpool] at hgood
        exact hgood hlen
      subst found
      obtain rfl : seenAt = n := hwrite.1 (basis, seenAt) hseen
      refine ⟨rfl, basis, ?_, step, cause,
        fun hk th hth held m hm => hwrite.2 hk th hth (held, m) hm⟩
      exact Repository.getLast?_of_current
        (Repository.current_eq_some_iff.mpr ⟨htold.tail.seen hseen, hlen⟩)

/-- Under `Orderly`, every job's versions are a run of the state machine. -/
theorem orderly_runs {c : Config (jobMachine reserved registered)}
    (hr : Run Orderly ⟨noJobs, []⟩ c) :
    ∀ jobId, JobRun (c.shared.records.versions .job jobId) := by
  have hempty : JobRun [] := ⟨.nil, fun v hv => by cases hv⟩
  refine Service.record_invariant (t := AggregateType.job) jobTerms_kept
    (fun t i v hv => absurd hv List.not_mem_nil) ⟨?_, ?_⟩ (fun _ => hempty) hr
  · intro c ch k past ws i v hc hw
    have hperm : JobWrite _ _ past ws := hc.permitted
    cases hperm with
    | create fresh untried =>
        rcases hw with hw | hw
        · cases List.mem_singleton.mp hw
          refine ⟨.singleton _, fun w hw => ?_⟩
          rw [← Option.some.inj hw]
          exact ⟨fresh, untried⟩
        · cases List.mem_singleton.mp hw
    | update => rcases hw with hw | hw <;> cases List.mem_singleton.mp hw
  · intro c ch k past ws i v vs hc hw hne hp hg
    have hperm : JobWrite _ _ past ws := hc.permitted
    obtain ⟨t, hgood, f, hpool⟩ := hc.ok
    cases hperm with
    | create => cases List.mem_singleton.mp hw
    | @update rest current version basis seenAt job found hseen step cause =>
        obtain ⟨rfl, rfl, rfl⟩ : i = job.jobId ∧ v = job ∧ vs.length = version := by
          cases List.mem_singleton.mp hw
          exact ⟨rfl, rfl, rfl⟩
        -- The update's own read found as many versions as there are now.
        have hcur : seen .job v.jobId past = some (current, vs.length) := by
          rw [found]
          exact seen_find (t := .job) _
        have hle := Repository.le_length_of_versionAt (hc.told.seen hcur)
        obtain rfl := hp.eq_of_length_le hle
        obtain ⟨-, b, hb, hstep, -⟩ := orderly_write hgood hpool hc.told
          (.update found hseen step cause) rfl
        exact hg.append hb hstep

/-! ## Handlers of cancelled jobs -/

/-- The job a process has in hand is stored as the process left it. -/
def HandCurrent (w : World backend openHandlers)
    (past : ProcPast openHandlers) : Prop :=
  ∀ job n, inHand past = some (job, n) →
    w.records.current .job job.jobId = some (job, n)

/-- Two processes have different jobs in hand. -/
def HandsApart (past past' : ProcPast openHandlers) : Prop :=
  ∀ job n job' n', inHand past = some (job, n) →
    inHand past' = some (job', n') → job.jobId ≠ job'.jobId

/-- What is known of the jobs in hand, under `Orderly`. -/
@[reducible] def handDiscipline : Discipline (jobMachine reserved registered) where
  inv := fun _ => True
  knows := fun _ w past => HandCurrent w past
  contract := (jobTerms reserved registered).contract
  coexist := fun _ past _ past' => HandsApart past past'

/-- What one operation of a process does to the jobs: nothing, or one new job,
or a transition of the version that was current. -/
inductive JobEffect (c : Config (jobMachine reserved registered)) (k : JobKind)
    (past past' : ProcPast openHandlers)
    (after : Repository AggregateType AggregateType.Payload) : Prop
  | nothing (same : after = c.shared.records)
      (hand : inHand past' = inHand past ∨ inHand past' = none)
  | create (job : Job) (fresh : c.shared.records.versions .job job.jobId = [])
      (made : after = c.shared.records.append .job job.jobId job)
      (hand : inHand past' = inHand past)
  | update (basis job : Job) (n : Nat)
      (current : c.shared.records.current .job job.jobId = some (basis, n))
      (made : after = c.shared.records.append .job job.jobId job)
      (step : Job.Transition basis job)
      (cause : JobCause (fun _ _ _ => True) k.role past.tail basis n job)
      (handPast : inHand past.tail = inHand past)
      (notTaken : k.role = .recovery → ∀ th ∈ c.pool, ∀ held m,
        inHand th.past = some (held, m) → held.jobId ≠ job.jobId)
      (hand : inHand past' = none ∨
        job.status = .running ∧ inHand past' = some (job, n + 1))

section Acting
variable {c : Config (jobMachine reserved registered)} {t : Nat}
  {ch : ProcChoice openHandlers} {k : JobKind} {o : Op backend openHandlers}
  {f : Except Exc o.Res → Proc openHandlers Unit} {past : ProcPast openHandlers}
  {r : Except Exc o.Res} {s : World backend openHandlers}

private theorem acting_jobs
    (ha : handDiscipline.Acting Orderly ⟨noJobs, []⟩ c t ch k o f past r s) :
    JobEffect c k past (⟨o, r⟩ :: past) s.records := by
  have htold := Service.told_of_run ha.reached _ (List.mem_of_getElem? ha.here)
  cases o with
  | commit ws =>
      have hw : JobWrite (fun _ _ _ => True) k.role past ws := ha.permitted.1
      have hmade : s.records = c.shared.records ∨
          c.shared.records.commit ws = .ok s.records := by
        rcases Service.exec_records ha.exec with h | ⟨ws', h, hc⟩
        · exact .inl h
        · cases h
          exact .inr hc
      cases hw with
      | @create job fresh untried =>
          have hhand : inHand (⟨.commit [.create .job job.jobId job], r⟩ :: past)
              = inHand past := inHand_of_not_written (by cases r <;> rfl)
          rcases hmade with h | h
          · exact .nothing h (.inl hhand)
          · obtain ⟨hf, hm⟩ :=
              Repository.apply_create (Repository.commit_singleton.mp h)
            exact .create job hf hm hhand
      | @update rest current version basis seenAt job found hseen step cause =>
          -- A write whose answer was lost leaves the hand empty.
          by_cases hnone : s.records = c.shared.records ∧ ∃ e, r = .error e
          · obtain ⟨hsame, e, rfl⟩ := hnone
            exact .nothing hsame (.inr (inHand_replace_error _ _ _ e))
          have hc : c.shared.records.commit
              [.replace .job job.jobId job version] = .ok s.records := by
            rcases hmade with h | h
            · cases r with
              | error e => exact absurd ⟨h, e, rfl⟩ hnone
              | ok u => exact (Service.exec_commit_ok ha.exec).1
            · exact h
          obtain ⟨hlen, hm⟩ :=
            Repository.apply_replace (Repository.commit_singleton.mp hc)
          obtain ⟨-, b, hb, hstep, hcause, hnot⟩ := orderly_write ha.ok ha.here
            htold (.update found hseen step cause) hlen
          refine .update b job version ?_ hm hstep hcause ?_ hnot ?_
          · simp only [Repository.current, hb, hlen, Option.map_some]
          · rw [found]; rfl
          · cases r with
            | error e => exact .inl (inHand_replace_error _ _ _ e)
            | ok u =>
                have hr := @inHand_replace _ past job.jobId job version
                by_cases hrun : job.status = .running
                · exact .inr ⟨hrun, hr.trans (if_pos hrun)⟩
                · exact .inl (hr.trans (if_neg hrun))
  | _ =>
      have hsame : s.records = c.shared.records := by
        rcases Service.exec_records ha.exec with h | ⟨ws', h, -⟩
        · exact h
        · cases h
      exact .nothing hsame (.inl (inHand_of_not_written (by cases r <;> rfl)))

/-- A running job that another process has in hand is not written. -/
private theorem not_in_other_hand
    {th : (jobMachine reserved registered).Thread} (hth : th ∈ c.pool)
    (hne : HandsApart past th.past) (hk : HandCurrent c.shared th.past)
    {held : Job} {m : Nat} (hm : inHand th.past = some (held, m))
    {basis job : Job} {n : Nat}
    (current : c.shared.records.current .job job.jobId = some (basis, n))
    (step : Job.Transition basis job)
    (cause : JobCause (fun _ _ _ => True) k.role past.tail basis n job)
    (handPast : inHand past.tail = inHand past)
    (notTaken : k.role = .recovery → ∀ th ∈ c.pool, ∀ held m,
      inHand th.past = some (held, m) → held.jobId ≠ job.jobId) :
    held.jobId ≠ job.jobId := by
  intro hid
  have hcur := hk held m hm
  rw [hid, current] at hcur
  obtain ⟨rfl, rfl⟩ := Prod.mk.inj (Option.some.inj hcur)
  have hrun : basis.status = .running := inHand_running hm
  have hmoves := step.moves
  rw [hrun] at hmoves
  cases cause with
  | start _ hs => rw [hs] at hmoves; cases hmoves
  | cancel _ hs => rw [hs] at hmoves; cases hmoves
  | finish _ hand => exact hne basis n basis n (handPast ▸ hand) hm rfl
  | recover hrec => exact notTaken hrec th hth basis n hm hid

/-- What another process has in hand stays as it was. -/
private theorem hand_frame
    (ha : handDiscipline.Acting Orderly ⟨noJobs, []⟩ c t ch k o f past r s)
    {th : (jobMachine reserved registered).Thread} (hth : th ∈ c.pool)
    (hne : HandsApart past th.past) (hk : HandCurrent c.shared th.past) :
    HandCurrent s th.past := by
  intro held m hm
  have hcur := hk held m hm
  have hkeep : ∀ job : Job, held.jobId ≠ job.jobId →
      s.records = c.shared.records.append .job job.jobId job →
      s.records.current .job held.jobId = some (held, m) := by
    intro job hid hs
    rw [hs, Repository.current_congr
      (Repository.versions_append_of_ne _ _ _ _ hid)]
    exact hcur
  cases acting_jobs ha with
  | nothing same => exact same ▸ hcur
  | create job fresh made =>
      refine hkeep job (fun hid => ?_) made
      rw [hid, Repository.current_eq_none_iff.mpr fresh] at hcur
      cases hcur
  | update basis job n current made step cause handPast notTaken =>
      exact hkeep job (not_in_other_hand hth hne hk hm current step cause
        handPast notTaken) made

/-- What a process has in hand after its own operation is current. -/
private theorem hand_own
    (ha : handDiscipline.Acting Orderly ⟨noJobs, []⟩ c t ch k o f past r s) :
    HandCurrent s (⟨o, r⟩ :: past) := by
  intro held m hm
  cases acting_jobs ha with
  | nothing same hand =>
      rcases hand with hand | hand
      · exact same ▸ ha.knows held m (hand ▸ hm)
      · rw [hand] at hm; cases hm
  | create job fresh made hand =>
      have hcur := ha.knows held m (hand ▸ hm)
      have hid : held.jobId ≠ job.jobId := by
        intro hid
        rw [hid, Repository.current_eq_none_iff.mpr fresh] at hcur
        cases hcur
      rw [made, Repository.current_congr
        (Repository.versions_append_of_ne _ _ _ _ hid)]
      exact hcur
  | update basis job n current made step cause handPast notTaken hand =>
      rcases hand with hand | ⟨-, hand⟩
      · rw [hand] at hm; cases hm
      · rw [hand] at hm
        obtain ⟨rfl, rfl⟩ := Prod.mk.inj (Option.some.inj hm)
        rw [made, Repository.current_append_self,
          (Repository.current_eq_some_iff.mp current).2]

/-- A process takes no job in hand that another one has. -/
private theorem hands_together
    (ha : handDiscipline.Acting Orderly ⟨noJobs, []⟩ c t ch k o f past r s)
    {th : (jobMachine reserved registered).Thread} (hth : th ∈ c.pool)
    (hne : HandsApart past th.past) (hk : HandCurrent c.shared th.past) :
    HandsApart (⟨o, r⟩ :: past) th.past := by
  intro job' m held n hm hheld
  cases acting_jobs ha with
  | nothing same hand =>
      rcases hand with hand | hand
      · exact hne job' m held n (hand ▸ hm) hheld
      · rw [hand] at hm; cases hm
  | create job fresh made hand => exact hne job' m held n (hand ▸ hm) hheld
  | update basis job v current made step cause handPast notTaken hand =>
      rcases hand with hand | ⟨-, hand⟩
      · rw [hand] at hm; cases hm
      · rw [hand] at hm
        obtain ⟨rfl, -⟩ := Prod.mk.inj (Option.some.inj hm)
        exact (not_in_other_hand hth hne hk hheld current step cause
          handPast notTaken).symm

end Acting

private theorem handDiscipline_sound :
    (@handDiscipline reserved registered).Sound
      Orderly ⟨noJobs, []⟩ where
  symm h := fun job n job' n' h₁ h₂ => (h job' n' job n h₂ h₁).symm
  admits _ _ _ _ := fun _ _ _ _ _ h => nomatch h
  body := jobTerms_kept
  start _ _ := fun _ _ h => nomatch h
  trusted ha :=
    (Service.valid_of_run jobTerms_kept (fun _ _ _ hv => absurd hv List.not_mem_nil)
      ha.reached).reads ha.exec
  inv _ := trivial
  own := hand_own
  frame ha _ hth hne hk := hand_frame ha hth hne hk
  together ha _ hth hne hk := hands_together ha hth hne hk
  envInv _ _ _ _ := trivial
  envFrame _ _ _ hs := nomatch hs

/-- In every run whose job writes that take effect are orderly, the persisted
versions of each job follow the transitions of `Job`, and a handler is called
only for the job in hand, of which no version is cancelled. -/
theorem orderly_histories {c : Config (jobMachine reserved registered)}
    (hr : Run Orderly ⟨noJobs, []⟩ c) :
    LawfulHistories c ∧ CallsNoCancelledJob c := by
  have hruns := orderly_runs hr
  refine ⟨fun jobId => (hruns jobId).history, fun th hth call hcall => ?_⟩
  have hold := (handDiscipline_sound.sound
    (Discipline.Holds.of_no_process trivial) hr).threads th hth
  obtain ⟨kind, rest, past⟩ := th
  obtain ⟨f, rfl⟩ : ∃ f, rest = .call (.ext call) f := by
    unfold callOf at hcall
    split at hcall
    · next f hrest => cases hcall; exact ⟨f, hrest⟩
    · cases hcall
  obtain ⟨job, n, hhand, hrun, rfl⟩ : ∃ job n, inHand past = some (job, n) ∧
      job.status = .running ∧ call = ⟨job.jobType, job.payload⟩ :=
    hold.permitted.1
  refine ⟨job, n, hhand, rfl, fun v hv hcancelled => ?_⟩
  have hlast := Repository.getLast?_of_current (hold.knows job n hhand)
  have := (hruns job.jobId).not_terminal_of_last hlast (by rw [hrun]; rfl) v hv
  rw [hcancelled] at this
  cases this

end Orderly

/-! ## Two runs -/

/-- One job, taken by a worker that has not written yet. -/
def takenJob : List (Move (M := jobMachine [] ["seo_run"])) :=
  [.spawn (.create "seo_run" "tenant" [] 1), .act 0 (.name "j1"),
    .act 0 (.clock 0), .act 0 .done,
    .spawn .runOnce, .act 1 .done, .act 1 (.clock 1)]

/-- A worker starts, runs and completes one job. -/
def oneJob : List (Move (M := jobMachine [] ["seo_run"])) :=
  takenJob ++
    [.act 1 .done, .act 1 .done, .act 1 (.ext (.ok [])), .act 1 (.clock 2),
      .act 1 .done, .act 1 .done]

/-- A cancel request reads the job before the worker starts it and writes it
after. -/
def cancelRace : List (Move (M := jobMachine [] ["seo_run"])) :=
  takenJob ++
    [.spawn (.cancel "j1" "tenant"), .act 2 .done,
      .act 1 .done, .act 1 .done,
      .act 2 (.clock 2), .act 2 .done, .act 2 .done]

/-- The statuses of a job's versions. -/
def statusesOf {reserved : ReservedJobTypes} {registered : List String}
    (c : Config (jobMachine reserved registered)) (jobId : String) :
    List JobStatus :=
  (c.shared.records.versions .job jobId).map Job.status

/-- The job each process about to call a handler has in hand. -/
def callers {reserved : ReservedJobTypes} {registered : List String}
    (c : Config (jobMachine reserved registered)) : List (Option String) :=
  (c.pool.filter fun th => (callOf th.rest).isSome).map fun th =>
    (inHand th.past).map fun x => x.1.jobId

set_option maxRecDepth 10000 in
theorem orderly_histories_oneJob :
    ∃ c : Config (jobMachine [] ["seo_run"]),
      statusesOf c "j1" = [.queued, .running, .completed] ∧
        LawfulHistories c ∧ CallsNoCancelledJob c := by
  have h : (firesIf Orderly ⟨noJobs, []⟩ oneJob).map (statusesOf · "j1") =
      some [.queued, .running, .completed] := by decide
  obtain ⟨c, hc, hs⟩ := Option.map_eq_some_iff.mp h
  exact ⟨c, hs, orderly_histories (Run.of_good_moves hc)⟩

set_option maxRecDepth 10000 in
/-- A cancel request that read the job before its start is written after it:
the versions go from running to cancelled, and the handler is still called. -/
theorem cancelled_job_runs :
    ∃ c : Config (jobMachine [] ["seo_run"]), Run anyMove ⟨noJobs, []⟩ c ∧
      ¬ LawfulHistories c ∧ ¬ CallsNoCancelledJob c := by
  have h : (fires ⟨noJobs, []⟩ cancelRace).map
        (fun c => (statusesOf c "j1", callers c)) =
      some ([.queued, .running, .cancelled], [some "j1"]) := by decide
  obtain ⟨c, hc, hview⟩ := Option.map_eq_some_iff.mp h
  obtain ⟨hs, hcallers⟩ := Prod.mk.inj hview
  refine ⟨c, Run.of_moves hc, fun hlaw => ?_, fun hcalls => ?_⟩
  · have hmoves := (List.isChain_map Job.status).mpr (hlaw "j1").moves
    rw [show (c.shared.records.versions .job "j1").map Job.status = _ from hs] at hmoves
    have := (List.isChain_cons_cons.mp (List.isChain_cons_cons.mp hmoves).2).1
    cases this
  · obtain ⟨th, hth, hjob⟩ := List.mem_map.mp
      (show some "j1" ∈ callers c by rw [hcallers]; exact List.mem_cons_self)
    obtain ⟨hmem, hsome⟩ := List.mem_filter.mp hth
    obtain ⟨call, hcall⟩ := Option.isSome_iff_exists.mp hsome
    obtain ⟨job, n, hhand, -, hnot⟩ := hcalls th hmem call hcall
    rw [hhand] at hjob
    have hid : job.jobId = "j1" := Option.some.inj hjob
    have hcan : JobStatus.cancelled ∈ statusesOf c job.jobId := by
      rw [hid, hs]
      decide
    obtain ⟨v, hv, hst⟩ := List.mem_map.mp hcan
    exact hnot v hv hst

end SeoAgent.Ports
