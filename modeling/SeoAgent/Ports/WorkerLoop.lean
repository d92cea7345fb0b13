import SeoAgent.Ports.JobHistory

/-!
# What ends the worker

`runOnce` catches what a handler raises, and writes the job twice with
`JobStore.update`: before its handler is called and after it. Each of the two
reads the stored version and replaces it. A cancel request may commit in
between, and the replacement is refused: the exception leaves `runOnce`, and
with it the loop of the worker.

`UpdatesUndisturbed` excludes exactly this; under it `runOnce` returns after
any handler, beside any requests, schedulers and recoveries, and leaves the job
it picked up in another state than running.

## Main results

* `run_once_survives` — what a `runOnce` that ends has done, over every run
  whose updates are undisturbed.
* `cancelled_while_started` — a cancel request between the read and the write of
  a start makes `runOnce` raise.
-/

namespace SeoAgent.Ports

open Verified Verified.Machine
open Service (Op iface World)

/-! ## How a `runOnce` ends -/

/-- The jobs a process has replaced, newest first. -/
def replacedJobs (past : ProcPast openHandlers) : List String :=
  past.filterMap fun
    | ⟨.commit [.replace .job jobId _ _], .ok _⟩ => some jobId
    | _ => none

/-- A process found no job under an id it had seen one under. -/
def JobMissing (past : ProcPast openHandlers) : Prop :=
  ∃ rest jobId, (⟨.find .job jobId, .ok none⟩ :: rest) <:+ past ∧
    (seen .job jobId rest).isSome

/-- How a `runOnce` ends: it replaced no job, or last the one it picked up, which
it left in another state than running. It raises only when a job is missing. -/
def RunOnceEnd (past : ProcPast openHandlers) : Except Exc Unit → Prop
  | .ok _ => replacedJobs past = [] ∨ ∃ jobId job n rest,
      past = ⟨.commit [.replace .job jobId job n], .ok ()⟩ :: rest ∧
        job.status ≠ .running ∧ ∀ i ∈ replacedJobs past, i = jobId
  | .error _ => JobMissing past

section Replaced
variable {past : ProcPast openHandlers}

theorem replacedJobs_cons_of_none {ev : (iface backend openHandlers).Event}
    (h : jobWritten ev = none) : replacedJobs (ev :: past) = replacedJobs past := by
  unfold replacedJobs
  rw [List.filterMap_cons]
  unfold jobWritten at h
  split at h
  · cases h
  · cases h
  · next hno _ =>
      split
      · rfl
      · next hsome =>
          split at hsome
          · exact absurd rfl (hno _ _ _ _)
          · cases hsome

theorem replacedJobs_replace (jobId : String) (job : Job) (n : Nat) :
    replacedJobs (⟨.commit [.replace .job jobId job n], .ok ()⟩ :: past) =
      jobId :: replacedJobs past := rfl

end Replaced

/-! ## The contract of a worker whose store answers -/

/-- An operation of the store came out, and was not refused. -/
def answered : (o : Op backend openHandlers) → Except Exc o.Res → Prop
  | .ext _, _ => True
  | _, r => ∃ a, r = .ok a

/-- Jobs are stored under their ids, and wait only with attempts left. -/
def deliverable : (t : AggregateType) → String → t.Payload → Prop
  | .job, i, job => job.jobId = i ∧
      (job.status = .queued → job.attemptCount < job.maxAttempts)
  | _, _, _ => True

/-- A transaction makes a job. -/
def makesJob : Op backend openHandlers → Prop
  | .commit [.create .job _ _] => True
  | _ => False

/-- A worker is answered, and makes no job. -/
@[reducible] def answeredContract (k : JobKind) :
    Prog.Contract (iface backend openHandlers) where
  permits past o := jobPermits k past o ∧
    (k.role = .worker → ¬makesJob o)
  trusts o r := Service.readsValid deliverable o r ∧ (k.role = .worker → answered o r)

private theorem answered_terms (k : JobKind) :
    JobTerms (answeredContract k) (fun _ _ _ => True) k.role where
  reads := by
    intro past o ho
    cases o <;> first | exact ⟨trivial, fun _ => id⟩ | exact ho.elim
  updates := by
    intro past ws hw hne
    refine ⟨hw, fun _ => ?_⟩
    cases hw with
    | create => exact absurd rfl (hne _)
    | update => exact id
  found := fun h => h.1.1
  listed := fun h e he => (h.1 e he).1
  finishedNow := fun _ => trivial

section Worker
variable {past : ProcPast openHandlers} {α : Type}
  {Q : ProcPast openHandlers → Except Exc α → Prop}

/-- The contract of the worker. -/
abbrev workerContract : Prog.Contract (iface backend openHandlers) :=
  answeredContract .runOnce

private theorem not_error {o : Op backend openHandlers} {e : Exc}
    (h : workerContract.trusts o (.error e)) (ho : isRead o ∨ ∃ ws, o = .commit ws) :
    False := by
  have hanswered := h.2 rfl
  cases o with
  | ext x => rcases ho with ho | ⟨ws, ho⟩ <;> cases ho
  | _ =>
      obtain ⟨a, ha⟩ := hanswered
      cases ha

/-- The clock answers. -/
private theorem now_answered {f : Int → Proc openHandlers α}
    (h : ∀ t : Int, Prog.wp workerContract Q (f t) (⟨.now, .ok t⟩ :: past)) :
    Prog.wp workerContract Q (now >>= f) past :=
  Prog.wp_ask_bind ⟨trivial, fun _ => id⟩ (fun t _ => h t)
    fun _ he => (not_error he (.inl trivial)).elim

/-- What a process saw last of a job that is not missing can be replaced. -/
private theorem update_answered {job basis : Job} {seenAt : Nat}
    {f : Job → Proc openHandlers α}
    (hs : seen .job job.jobId past = some (basis, seenAt))
    (ht : Job.Transition basis job)
    (hc : JobCause (fun _ _ _ => True) .worker past basis seenAt job)
    (hmissing : ∀ past' e, JobMissing past' → Q past' (.error e))
    (hdone : ∀ current version, Prog.wp workerContract Q (f job)
      (⟨.commit [.replace .job job.jobId job version], .ok ()⟩ ::
        ⟨.find .job job.jobId, .ok (some (current, version))⟩ :: past)) :
    Prog.wp workerContract Q (JobStore.update job >>= f) past := by
  unfold JobStore.update
  rw [Prog.wp_bind]
  refine Prog.wp_ask_bind ⟨trivial, fun _ => id⟩ (fun x _ => ?_)
    fun _ he => (not_error he (.inl trivial)).elim
  rcases x with _ | ⟨current, version⟩
  · exact hmissing _ _ ⟨past, job.jobId, List.suffix_refl _, by rw [hs]; rfl⟩
  · refine Prog.wp_ask_bind ⟨.update rfl hs ht hc, fun _ => id⟩ (fun _ _ => ?_)
      fun _ he => (not_error he (.inr ⟨_, rfl⟩)).elim
    exact hdone current version

/-- The attempt at a running job ends, whatever its handler does. -/
private theorem attempt_answered {registered : List String} {running : Job} {n : Nat}
    (hran : running.status = .running) (hold : Holding running n past) :
    Prog.wp workerContract (fun past' r => ∃ job, r = .ok job ∧ Holding running n past' ∧
        Job.Transition running job ∧ replacedJobs past' = replacedJobs past)
      (attempt (registry registered) running) past := by
  have hretry : ∀ past' (exc : Exc), Holding running n past' →
      replacedJobs past' = replacedJobs past →
      Prog.wp workerContract (fun past' r => ∃ job, r = .ok job ∧
          Holding running n past' ∧ Job.Transition running job ∧
          replacedJobs past' = replacedJobs past)
        (do let at_ ← now
            Prog.ofExcept (running.retryOrFail exc.message at_)) past' := by
    intro past' exc hold' hsame
    refine now_answered fun t => ?_
    rw [Prog.wp_ofExcept]
    obtain ⟨ended, hended⟩ : ∃ job, running.retryOrFail exc.message t = .ok job :=
      Job.retryOrFail_of_running hran exc.message
    exact ⟨ended, hended, hold'.now _, (Job.retryOrFail_ok hended).1, hsame⟩
  unfold attempt
  rw [Prog.wp_tryCatch]
  refine Prog.wp_ofExcept_bind (fun handler hh => ?_)
    fun e _ => hretry past e hold rfl
  obtain rfl : handler = fun payload =>
      ext (X := openHandlers) ⟨running.jobType, payload⟩ := by
    unfold resolve registry at hh
    split at hh
    · next h =>
        split at h
        · rw [← Except.ok.inj hh, ← Option.some.inj h]
        · cases h
    · cases hh
  refine Prog.wp_ask_bind ⟨⟨running, n, hold.2, hran, rfl⟩, fun _ => id⟩
    (fun result _ => ?_) fun e _ => ?_
  · refine now_answered fun t => ?_
    rw [Prog.wp_ofExcept]
    obtain ⟨completed, hcomp⟩ : ∃ job, running.complete result t = .ok job :=
      Job.complete_of_running hran result
    rw [hcomp]
    exact ⟨completed, rfl, (hold.ext _).now _, (Job.complete_ok hcomp).1, rfl⟩
  · exact hretry _ e (hold.ext _) rfl

/-- The oldest waiting job was seen, and can be started. -/
private theorem listQueued_answered {f : List Job → Proc openHandlers α}
    (h : ∀ (xs : Listing (Job × Nat)) (jobs : List Job),
      (∀ job ∈ jobs, (∃ n, seen (X := openHandlers) .job job.jobId [⟨.list .job, .ok xs⟩] = some (job, n)) ∧
        job.status = .queued ∧ job.attemptCount < job.maxAttempts) →
      Prog.wp workerContract Q (f jobs) [⟨.list .job, .ok xs⟩]) (limit : Nat) :
    Prog.wp workerContract Q (JobStore.listQueued limit >>= f) [] := by
  unfold JobStore.listQueued
  rw [Prog.wp_bind]
  refine Prog.wp_ask_bind ⟨trivial, fun _ => id⟩ (fun xs hxs => h xs _ fun job hjob => ?_)
    fun _ he => (not_error he (.inl trivial)).elim
  obtain ⟨hmem, hst⟩ := List.mem_filter.mp
    ((List.perm_insertionSort _ _).mem_iff.mp (List.mem_of_mem_take hjob))
  obtain ⟨⟨i, job', n⟩, he, rfl⟩ := List.mem_map.mp hmem
  obtain ⟨rfl, hroom⟩ : job'.jobId = i ∧ _ := hxs.1 _ he
  have hqueued : job'.status = .queued := by simpa using hst
  exact ⟨⟨n, (seen_list (t := .job) xs).trans
    (Service.Listing.lookup_of_mem xs.nodup he)⟩, hqueued, hroom hqueued⟩

private theorem runOnce_answered {registered : List String} :
    Prog.wp workerContract RunOnceEnd (runOnce (registry registered)).void [] := by
  unfold runOnce
  refine (Prog.wp_bind _ _).mpr (listQueued_answered (fun xs jobs hjobs => ?_) 1)
  cases jobs with
  | nil => exact .inl rfl
  | cons job jobs =>
      obtain ⟨⟨n, hseen⟩, hqueued, hroom⟩ := hjobs job List.mem_cons_self
      refine now_answered fun t => ?_
      obtain ⟨running, hrunning⟩ : ∃ running, job.transitionRunning t = .ok running :=
        Job.transitionRunning_of_queued hqueued hroom
      obtain ⟨hstep, hran⟩ := Job.transitionRunning_ok hrunning
      rw [hrunning]
      have hopening : Opening (X := openHandlers) [⟨.now, .ok t⟩, ⟨.list .job, .ok xs⟩] := by
        intro ev hev
        rcases List.mem_cons.mp hev with rfl | hev
        · trivial
        · rw [List.mem_singleton.mp hev]
          trivial
      refine update_answered (hstep.jobId ▸ hseen) hstep (.start rfl hran hopening)
        (fun _ _ h => h) fun current version => ?_
      have hhold : Holding (X := openHandlers) running (version + 1)
          (⟨.commit [.replace .job running.jobId running version], .ok ()⟩ ::
            ⟨.find .job running.jobId, .ok (some (current, version))⟩ ::
            [⟨.now, .ok t⟩, ⟨.list .job, .ok xs⟩]) :=
        ⟨seen_replace (t := .job) running version, by rw [inHand_replace, if_pos hran]⟩
      refine Prog.wp_seq (attempt_answered hran hhold) (fun past' completed _ hQ => ?_)
        fun past' e _ hQ => ?_
      · obtain ⟨_, heq, hhold', hstep', hsame⟩ := hQ
        obtain rfl := Except.ok.inj heq
        have hends : completed.status ≠ .running := by
          intro h
          have hmoves := hstep'.moves
          rw [hran, h] at hmoves
          cases hmoves
        refine update_answered (hstep'.jobId ▸ hhold'.1) hstep'
          (.finish rfl hhold'.2 hends trivial) (fun _ _ h => h)
          fun current' version' => ?_
        refine .inr ⟨completed.jobId, completed, version', _, rfl, hends, fun i hi => ?_⟩
        rw [hstep'.jobId] at hi ⊢
        have hlist : replacedJobs past' = [running.jobId] := hsame
        rcases List.mem_cons.mp hi with hi | hi
        · exact hi
        · exact List.mem_singleton.mp (hlist ▸ hi)
      · obtain ⟨_, h, -⟩ := hQ
        cases h

end Worker

/-! ## The conditions -/

/-- The database could be reached. -/
def reachable : ProcChoice openHandlers → Bool
  | .fail _ | .lost _ => false
  | _ => true

section Runs
variable {reserved : ReservedJobTypes} {registered : List String}

/-- The database answers the worker. -/
def StoreAnswers : Condition (jobMachine reserved registered) :=
  eachOp fun _ k _ _ ch => JobKind.role k = .worker → reachable ch = true

/-- A job replaced by a worker is the version the update has just read. -/
def UndisturbedOp (c : Config (jobMachine reserved registered)) (k : JobKind) :
    Op backend openHandlers → Prop
  | .commit [.replace .job jobId _ n] => k.role = .worker →
      (c.shared.records.versions .job jobId).length = n
  | _ => True

/-- No other write of a job is committed between the read and the write of one
update of a worker. -/
def UpdatesUndisturbed : Condition (jobMachine reserved registered) :=
  eachOp fun c k _ o _ => UndisturbedOp c k o

/-- Both. -/
def Undisturbed : Condition (jobMachine reserved registered) :=
  fun c m => StoreAnswers c m ∧ UpdatesUndisturbed c m

instance (c : Config (jobMachine reserved registered)) (k : JobKind)
    (o : Op backend openHandlers) : Decidable (UndisturbedOp c k o) := by
  unfold UndisturbedOp
  split <;> infer_instance

instance (c : Config (jobMachine reserved registered))
    (m : Move (M := jobMachine reserved registered)) : Decidable (StoreAnswers c m) :=
  inferInstanceAs (Decidable (eachOp _ c m))

instance (c : Config (jobMachine reserved registered))
    (m : Move (M := jobMachine reserved registered)) : Decidable (Undisturbed c m) :=
  inferInstanceAs (Decidable (StoreAnswers c m ∧ eachOp _ c m))

/-! ## Over every run -/

/-- A stored job that waits has attempts left. -/
private theorem deliverable_of_run {good : Condition (jobMachine reserved registered)}
    {c : Config (jobMachine reserved registered)} (hr : Run good ⟨noJobs, []⟩ c) :
    Service.AllValid deliverable c.shared.records := by
  have hvalid := Service.valid_of_run (T := jobTerms reserved registered) jobTerms_kept
    (fun _ _ _ hv => absurd hv List.not_mem_nil) hr
  have hrule : Service.RecordRule (jobTerms reserved registered) good noJobs
      AggregateType.job fun _ versions => ∀ job ∈ versions, job.status = .queued →
        job.attemptCount < job.maxAttempts := by
    refine ⟨?_, ?_⟩
    · intro c ch k past ws i v hc hw job hjob _
      have hperm : JobWrite _ _ past ws := hc.permitted
      obtain rfl := List.mem_singleton.mp hjob
      cases hperm with
      | create fresh untried =>
          have := job.one_le_maxAttempts
          rcases hw with hw | hw <;> cases List.mem_singleton.mp hw
          omega
      | update => rcases hw with hw | hw <;> cases List.mem_singleton.mp hw
    · intro c ch k past ws i v vs hc hw _ _ hg job hjob hqueued
      have hperm : JobWrite _ _ past ws := hc.permitted
      rcases List.mem_append.mp hjob with hjob | hjob
      · exact hg job hjob hqueued
      obtain rfl := List.mem_singleton.mp hjob
      cases hperm with
      | create => cases List.mem_singleton.mp hw
      | update found hseen step cause =>
          cases List.mem_singleton.mp hw
          rw [step.attempts, if_neg (by rw [hqueued]; nofun), step.maxAttempts]
          exact step.room (.inr hqueued)
  have hroom := Service.record_invariant jobTerms_kept
    (fun t i v hv => absurd hv List.not_mem_nil) hrule
    (fun _ job hjob => absurd hjob List.not_mem_nil) hr
  intro t i v hv
  cases t with
  | job => exact ⟨hvalid .job i v hv, hroom i v hv⟩
  | _ => trivial

/-- What a worker has seen is never missing. -/
@[reducible] def answeredDiscipline : Discipline (jobMachine reserved registered) where
  inv := fun _ => True
  knows := fun _ _ past => ¬JobMissing past
  contract := answeredContract
  coexist := fun _ _ _ _ => True

private theorem answered_of_acting {c : Config (jobMachine reserved registered)} {t : Nat}
    {ch : ProcChoice openHandlers} {k : JobKind} {o : Op backend openHandlers}
    {f : Except Exc o.Res → Proc openHandlers Unit} {past : ProcPast openHandlers}
    {r : Except Exc o.Res} {s : World backend openHandlers}
    (ha : answeredDiscipline.Acting Undisturbed ⟨noJobs, []⟩ c t ch k o f past r s)
    (hworks : k.role = .worker) : answered o r := by
  have hreach : reachable ch = true := eachOp_act ha.ok.1 ha.here hworks
  cases r with
  | ok a => cases o <;> first | exact ⟨a, rfl⟩ | trivial
  | error e =>
      rcases Service.exec_error ha.exec with ⟨m, rfl⟩ | ⟨m, rfl⟩ | ⟨x, rfl⟩ |
        ⟨ws, rfl, hc⟩
      · cases hreach
      · cases hreach
      · trivial
      · have hop := eachOp_act ha.ok.2 ha.here
        have hw : JobWrite _ _ past ws := ha.permitted.1
        cases hw with
        | create => exact (ha.permitted.2 hworks trivial).elim
        | @update rest current version basis seenAt job found hseen =>
            -- The version the update read is there, and is still the last one.
            have hlen : (c.shared.records.versions .job job.jobId).length = version :=
              hop hworks
            have hcur : seen .job job.jobId past = some (current, version) := by
              rw [found]
              exact seen_find (t := .job) _
            have htold := Service.told_of_run ha.reached _ (List.mem_of_getElem? ha.here)
            have hne := List.ne_nil_of_mem (Repository.mem_of_versionAt (htold.seen hcur))
            simp only [Service.commitOr, Repository.apply, if_neg hne, if_pos hlen] at hc
            cases hc

theorem answeredDiscipline_sound :
    (@answeredDiscipline reserved registered).Sound Undisturbed ⟨noJobs, []⟩ where
  symm _ := trivial
  admits _ _ _ _ := trivial
  body k := by
    have hT := answered_terms k
    cases k with
    | create => exact Prog.wp_void (createJob_wp hT fun hw => ⟨hw, nofun⟩)
    | cancel => exact Prog.wp_void (cancelJob_wp hT rfl)
    | recover => exact Prog.wp_void (recover_wp hT rfl)
    | runOnce => exact Prog.wp_mono (fun _ _ _ _ => trivial) runOnce_answered
  start _ _ := by
    rintro ⟨rest, jobId, hsuf, -⟩
    cases List.suffix_nil.mp hsuf
  trusted ha := ⟨(deliverable_of_run ha.reached).reads ha.exec, answered_of_acting ha⟩
  inv _ := trivial
  own {c t ch k o f past r s} ha := by
    rintro ⟨rest, jobId, hsuf, hseen⟩
    rcases List.suffix_cons_iff.mp hsuf with heq | hsuf
    · cases heq
      obtain ⟨⟨v, n⟩, hv⟩ := Option.isSome_iff_exists.mp hseen
      have htold := Service.told_of_run ha.reached _ (List.mem_of_getElem? ha.here)
      have hne := List.ne_nil_of_mem (Repository.mem_of_versionAt (htold.seen hv))
      exact hne (Repository.current_eq_none_iff.mp (Service.exec_find_ok ha.exec).1)
    · exact ha.knows ⟨rest, jobId, hsuf, hseen⟩
  frame _ _ _ _ hk := hk
  together _ _ _ _ _ := trivial
  envInv _ _ _ _ := trivial
  envFrame _ _ _ hs := nomatch hs

/-- A `runOnce` that ended returned, and left each job it wrote in another state
than running. -/
structure Survived (r : Repository AggregateType AggregateType.Payload)
    (th : (jobMachine reserved registered).Thread) : Prop where
  returned : ∀ e, th.rest ≠ .raise e
  left : th.rest = .ret () → ∀ jobId ∈ replacedJobs th.past, ∃ job,
    r.latest .job jobId = some job ∧ job.status ≠ .running

/-- However a `runOnce` moves, it has not ended or has survived. -/
def Survives (good : Condition (jobMachine reserved registered))
    (c : Config (jobMachine reserved registered)) : Prop :=
  ∀ t ch c' th, good c (.act t ch) → fire c (.act t ch) = some c' →
    c'.pool[t]? = some th → th.kind = .runOnce → Survived c'.shared.records th

/-- While no other write of a job is committed between the read and the write of
one of its updates, a `runOnce` returns, whatever its handler does and whatever
runs beside it, and leaves the job it picked up in another state than running. -/
theorem run_once_survives {c : Config (jobMachine reserved registered)}
    (hr : Run Undisturbed ⟨noJobs, []⟩ c) : Survives Undisturbed c := by
  intro t ch c' th hgood hfire hth hkind
  have hr' : Run Undisturbed ⟨noJobs, []⟩ c' := .move (.act t ch) hr hgood hfire
  have h₀ : (@answeredDiscipline reserved registered).Holds ⟨noJobs, []⟩ :=
    .of_no_process trivial
  have hmem := List.mem_of_getElem? hth
  have hknows := ((answeredDiscipline_sound.sound h₀ hr').threads th hmem).knows
  have hend := answeredDiscipline_sound.ends h₀
    (Q := fun k past r => k = .runOnce → RunOnceEnd past r)
    (fun k => by
      by_cases hk : k = .runOnce
      · subst hk
        exact Prog.wp_mono (fun _ _ _ h _ => h) runOnce_answered
      · exact Prog.wp_mono (fun _ _ _ _ h => absurd h hk)
          (answeredDiscipline_sound.body k)) hr' th hmem
  refine ⟨fun e he => ?_, fun he jobId hjob => ?_⟩
  · rw [he] at hend
    exact hknows (hend hkind)
  · rw [he] at hend
    rcases hend hkind with hnone | ⟨i, job, n, rest, hpast, hended, hall⟩
    · rw [hnone] at hjob
      cases hjob
    · obtain ⟨k, o, f, past, r, s, hp, hx, rfl⟩ := fire_act hfire
      have hlt := (List.getElem?_eq_some_iff.mp hp).1
      simp only [Config.answered, List.getElem?_set_self hlt] at hth
      obtain rfl := Option.some.inj hth
      cases hpast
      obtain ⟨-, hm⟩ := Repository.apply_replace
        (Repository.commit_singleton.mp (Service.exec_commit_ok hx).1)
      refine ⟨job, ?_, hended⟩
      rw [hall jobId hjob, Repository.latest, Config.answered, hm,
        Repository.versions_append_self, List.getLast?_concat]

end Runs

/-! ## A cancellation in between -/

/-- The job of a worker that has not written yet is cancelled after the worker
has read it again. -/
def cancelledBetween : List (Move (M := jobMachine [] ["seo_run"])) :=
  takenJob ++
    [.act 1 .done,
      .spawn (.cancel "j1" "tenant"), .act 2 .done, .act 2 (.clock 2), .act 2 .done,
      .act 2 .done]

/-- Whether a process delivers a job. -/
def isRunOnce : JobKind → Bool
  | .runOnce => true
  | _ => false

theorem isRunOnce_iff {k : JobKind} : isRunOnce k = true ↔ k = .runOnce := by
  cases k <;> simp [isRunOnce]

/-- Whether a process has ended with an exception. -/
def hasRaised {reserved : ReservedJobTypes} {registered : List String}
    (th : (jobMachine reserved registered).Thread) : Bool :=
  match th.rest with
  | .raise _ => true
  | _ => false

theorem hasRaised_iff {reserved : ReservedJobTypes} {registered : List String}
    {th : (jobMachine reserved registered).Thread} :
    hasRaised th = true ↔ ∃ e, th.rest = .raise e := by
  unfold hasRaised
  split
  · next e he => simp [he]
  · next hno =>
      refine ⟨nofun, ?_⟩
      rintro ⟨e, he⟩
      exact absurd he (hno e)

set_option maxRecDepth 10000 in
theorem run_once_survives_oneJob : ∃ c : Config (jobMachine [] ["seo_run"]),
    statusesOf c "j1" = [.queued, .running, .completed] ∧ Survives Undisturbed c := by
  have h : (firesIf Undisturbed ⟨noJobs, []⟩ oneJob).map (statusesOf · "j1") =
      some [.queued, .running, .completed] := by decide
  obtain ⟨c, hc, hs⟩ := Option.map_eq_some_iff.mp h
  exact ⟨c, hs, run_once_survives (Run.of_good_moves hc)⟩

set_option maxRecDepth 10000 in
/-- A cancel request between the read and the write of a start makes `runOnce`
raise. -/
theorem cancelled_while_started : ∃ c : Config (jobMachine [] ["seo_run"]),
    Run StoreAnswers ⟨noJobs, []⟩ c ∧ ¬Survives StoreAnswers c := by
  have h : (firesIf StoreAnswers ⟨noJobs, []⟩ cancelledBetween).map (fun c =>
      (decide (StoreAnswers c (.act 1 .done)),
        (fire c (.act 1 .done)).map fun c' =>
          (c'.pool[1]?).map fun th => (isRunOnce th.kind, hasRaised th))) =
      some (true, some (some (true, true))) := by decide
  obtain ⟨c, hc, hs⟩ := Option.map_eq_some_iff.mp h
  obtain ⟨hgood, hs⟩ := Prod.mk.inj hs
  obtain ⟨c', hfire, hs⟩ := Option.map_eq_some_iff.mp hs
  obtain ⟨th, hth, hs⟩ := Option.map_eq_some_iff.mp hs
  obtain ⟨hkind, hraised⟩ := Prod.mk.inj hs
  obtain ⟨e, he⟩ := hasRaised_iff.mp hraised
  refine ⟨c, Run.of_good_moves hc, fun hsurvives => ?_⟩
  have hsurvived := hsurvives 1 .done c' th (of_decide_eq_true hgood) hfire hth
    (isRunOnce_iff.mp hkind)
  exact hsurvived.returned e he

end SeoAgent.Ports
