import SeoAgent.Ports.ActionHistory
import SeoAgent.Ports.ActionJobs

/-!
# Rollbacks that were asked for

A request to undo a change adds an entry to the history and makes a job; a
delivery of the job that does not undo the change adds an entry that says why.
`rollbackPending` reads the entries only. This module relates it to the jobs: a
rollback that is owed has a job still to be delivered, as long as no such job is
cancelled or runs out of attempts, and a job still to be delivered leaves the
rollback pending until a delivery has recorded that it gave up.

## Main results

* `rollback_flags` — the pending flag against the jobs, over every run in which
  rollback jobs finish.
* `rolled_back_pending` — an action that was rolled back keeps the flag.
-/

namespace SeoAgent.Ports

open Verified Verified.Machine
open Service (Op iface World)

/-! ## What the history says of a rollback -/

/-- Whether the newest answer about a rollback in a history, newest first, is
that it gave up. -/
def gaveUpAmong : List ActionEvent → Bool
  | [] => false
  | event :: events =>
      if event.reason = "rollback_requested" then false
      else if event.reason ∈ rollbackGaveUp then true
      else gaveUpAmong events

/-- A delivery has recorded that it gave up since the last request. -/
def gaveUpSince (managed : ManagedAction) : Bool :=
  gaveUpAmong managed.history.reverse

/-- The customer of a manual site still has to restore the text. -/
def waitsForCustomer (managed : ManagedAction) : Prop :=
  lastRollbackMark managed.history = some .waits

theorem entryMark_asked_iff {reason : String} :
    entryMark reason = some .asked ↔ reason = "rollback_requested" := by
  unfold entryMark
  constructor
  · intro h
    by_contra hne
    rw [if_neg hne] at h
    split at h
    · cases h
    split at h
    · cases h
    split at h <;> cases h
  · rintro rfl
    rfl

theorem entryMark_gaveUp {reason : String} (h : reason ∈ rollbackGaveUp) :
    entryMark reason = some .gaveUp := by
  unfold entryMark
  rw [if_neg, if_pos h]
  rintro rfl
  revert h
  decide

theorem pending_or_gaveUp {events : List ActionEvent}
    (h : ∃ e ∈ events, entryMark e.reason = some .asked) :
    pendingAmong events = true ∨ gaveUpAmong events = true := by
  induction events with
  | nil => simp at h
  | cons event events ih =>
      unfold pendingAmong gaveUpAmong
      by_cases hreq : event.reason = "rollback_requested"
      · simp [hreq]
      by_cases hgave : event.reason ∈ rollbackGaveUp
      · simp [hreq, hgave]
      · rw [if_neg hreq, if_neg hgave, if_neg hreq, if_neg hgave]
        obtain ⟨e, he, hm⟩ := h
        refine ih ⟨e, ?_, hm⟩
        rcases List.mem_cons.mp he with rfl | he
        · exact absurd (entryMark_asked_iff.mp hm) hreq
        · exact he

/-- What was asked for is pending, or a delivery gave it up. -/
theorem Asked.pending_or_gaveUp {m : ManagedAction} (h : Asked m) :
    rollbackPending m = true ∨ gaveUpSince m = true := by
  obtain ⟨e, he, hm⟩ := h
  exact Ports.pending_or_gaveUp ⟨e, List.mem_reverse.mpr he, hm⟩

theorem asked_of_pending {events : List ActionEvent} (h : pendingAmong events = true) :
    ∃ e ∈ events, entryMark e.reason = some .asked := by
  induction events with
  | nil => cases h
  | cons event events ih =>
      unfold pendingAmong at h
      by_cases hreq : event.reason = "rollback_requested"
      · exact ⟨event, List.mem_cons_self, entryMark_asked_iff.mpr hreq⟩
      rw [if_neg hreq] at h
      split at h
      · cases h
      · obtain ⟨e, he, hm⟩ := ih h
        exact ⟨e, List.mem_cons_of_mem _ he, hm⟩

/-- What is pending was asked for. -/
theorem Asked.of_pending {m : ManagedAction} (h : rollbackPending m = true) : Asked m :=
  let ⟨e, he, hm⟩ := asked_of_pending h
  ⟨e, List.mem_reverse.mp he, hm⟩

theorem mark_of_pending {events : List ActionEvent} (h : pendingAmong events = true) :
    events.findSome? (fun e => (entryMark e.reason).filter (· ≠ .settled)) ∈
      [some .asked, some .waits] := by
  induction events with
  | nil => cases h
  | cons event events ih =>
      unfold pendingAmong at h
      rw [List.findSome?_cons]
      by_cases hreq : event.reason = "rollback_requested"
      · rw [entryMark_asked_iff.mpr hreq]
        exact List.mem_cons_self
      rw [if_neg hreq] at h
      by_cases hgave : event.reason ∈ rollbackGaveUp
      · rw [if_pos hgave] at h
        cases h
      rw [if_neg hgave] at h
      unfold entryMark
      rw [if_neg hreq, if_neg hgave]
      by_cases hwaits : event.reason = "waiting_for_customer_to_restore"
      · rw [if_pos hwaits]
        exact List.mem_cons_of_mem _ List.mem_cons_self
      rw [if_neg hwaits]
      by_cases hsettled : event.reason ∈ settlementReasons
      · rw [if_pos hsettled]
        exact ih h
      · rw [if_neg hsettled]
        exact ih h

/-- A pending rollback that was not made is owed, or waits for the customer. -/
theorem owed_of_pending {m : ManagedAction} (h : rollbackPending m = true)
    (hr : m.rolledBack = none) : rollbackOwed m = true ∨ waitsForCustomer m := by
  have hmark := mark_of_pending h
  unfold rollbackOwed waitsForCustomer lastRollbackMark
  rcases List.mem_cons.mp hmark with hm | hm
  · refine .inl ?_
    rw [hm, hr]
    rfl
  · exact .inr (List.mem_singleton.mp hm)

/-! ## The condition -/

/-- A write that cancels or fails a job is not about a job that undoes the
action. -/
def FinishingOp (actionId : String) (c : Config actionMachine) (_ : ActionKind)
    (_ : ActionPast) : Op backend actionSite → ProcChoice actionSite → Prop
  | .commit [.replace .job jobId job n], _ =>
      (c.shared.records.versions .job jobId).length = n → gaveOut job = true →
        ∀ x ∈ c.shared.records.latest .job jobId, ¬Undoes x actionId
  | _, _ => True

/-- No job that undoes the action is cancelled or ends failed. -/
def RollbacksFinish (actionId : String) : Condition actionMachine :=
  eachOp (FinishingOp actionId)

instance (actionId : String) (c : Config actionMachine) (k : ActionKind)
    (past : ActionPast) (o : ActionOp) (ch : ActionChoice) :
    Decidable (FinishingOp actionId c k past o ch) := by
  unfold FinishingOp
  split <;> infer_instance

instance (actionId : String) (c : Config actionMachine)
    (m : Move (M := actionMachine)) : Decidable (RollbacksFinish actionId c m) :=
  inferInstanceAs (Decidable (eachOp _ c m))

/-! ## What one operation does to a rollback that is owed -/

/-- What is written over the current version adds some of the entries its writer
added. -/
theorem Replacing.added {role : JobRole} {past rest : ActionPast}
    {basis current managed : ManagedAction} {version : Nat}
    (h : Replacing role past rest basis current managed version)
    (hb : basis.history <+: current.history) :
    ∃ new, managed.history = current.history ++ new ∧
      ∀ e ∈ new, e ∈ addedEntries basis managed := by
  obtain ⟨new, hnew⟩ := h.extended
  obtain ⟨between, hbetween⟩ := hb
  refine ⟨new, hnew.symm, fun e he => ?_⟩
  unfold addedEntries
  rw [← hnew, ← hbetween, List.append_assoc, List.drop_left]
  exact List.mem_append_right _ he

theorem lastRollbackMark_append (old new : List ActionEvent) :
    lastRollbackMark (old ++ new) =
      (lastRollbackMark new).or (lastRollbackMark old) := by
  unfold lastRollbackMark
  rw [List.reverse_append, List.findSome?_append]

/-- What a history says last of a rollback stands in it. -/
theorem mem_of_lastRollbackMark {events : List ActionEvent} {mark : EntryMark}
    (h : lastRollbackMark events = some mark) :
    ∃ e ∈ events, entryMark e.reason = some mark := by
  obtain ⟨e, he, hm⟩ := List.exists_of_findSome?_eq_some h
  exact ⟨e, List.mem_reverse.mp he, (Option.filter_eq_some_iff.mp hm).1⟩

theorem Asked.mono {m v : ManagedAction} (h : Asked m) (hp : m.history <+: v.history) :
    Asked v :=
  let ⟨e, he, hm⟩ := h
  ⟨e, hp.subset he, hm⟩

/-- What was not rolled back has not been before. -/
theorem rolledBack_of_prefix {m v : ManagedAction} (hm : Lifecycle m)
    (hv : Lifecycle v) (hp : m.history <+: v.history) (hr : v.rolledBack = none) :
    m.rolledBack = none := by
  by_contra hne
  have hst := hm.rolledBack.mp (Option.isSome_iff_ne_none.mpr hne)
  have hmem : ActionStatus.rolledBack ∈ v.statuses :=
    (prefix_statuses hp).subset (hst ▸ hm.mem_statuses)
  have := hv.rolledBack.mpr (hv.absorbed rfl hmem)
  rw [hr] at this
  cases this

/-- A rollback that is owed after an operation was owed before, or the operation
asks for it and makes its job. -/
theorem ActionEffect.owed {role : JobRole} {past : ActionPast}
    {o : Op backend actionSite} {actionId : String} {before after : List ManagedAction}
    (hrec : ActionRecord before)
    (he : ActionEffect role past o actionId before after) {m' : ManagedAction}
    (hm : after.getLast? = some m') (howed : rollbackOwed m' = true) :
    (∃ m, before.getLast? = some m ∧ rollbackOwed m = true) ∨
      ∃ (managed : ManagedAction) (version : Nat) (job : Job), Undoes job actionId ∧
        job.status = .queued ∧ o = .commit [.replace .managedAction managed.actionId managed version,
          .create .job job.jobId job] := by
  have hrec' := hrec.effect he
  obtain ⟨hnone, hmark⟩ : m'.rolledBack = none ∧
      lastRollbackMark m'.history = some .asked := by
    simpa [rollbackOwed, Option.isNone_iff_eq_none] using howed
  cases he with
  | same same => exact .inl ⟨m', same ▸ hm, howed⟩
  | propose fresh id proposed made =>
      rw [made] at hm
      obtain rfl := Option.some.inj hm
      obtain ⟨e, he, hasked⟩ := mem_of_lastRollbackMark hmark
      rw [proposed.unmarked e he] at hasked
      cases hasked
  | @update rest basis current managed replacing stored last id made plain asked =>
      rw [made, List.getLast?_concat] at hm
      obtain rfl := Option.some.inj hm
      obtain ⟨new, hnew, hadded⟩ := replacing.added (hrec.prefix_last stored last)
      by_cases hasked : ∃ e ∈ new, entryMark e.reason = some .asked
      · obtain ⟨e, he, hm⟩ := hasked
        obtain ⟨job, hun, hq, ho⟩ := asked ⟨e, hadded e he, hm⟩
        exact .inr ⟨managed, before.length, job, id ▸ hun, hq, ho⟩
      · refine .inl ⟨current, last, ?_⟩
        have hcurrent := hrec.lawful current (List.mem_of_getLast? last)
        have hmanaged := hrec'.lawful managed (by rw [made]; simp)
        rw [hnew, lastRollbackMark_append] at hmark
        rcases Option.or_eq_some_iff.mp hmark with hm | ⟨-, hm⟩
        · exact absurd (mem_of_lastRollbackMark hm) hasked
        · rw [rollbackOwed, hm,
            rolledBack_of_prefix hcurrent hmanaged replacing.extended hnone]
          rfl

/-! ## The discipline -/

/-- What is owed has its job, and what has a job was asked for. -/
structure RollbacksHeld (actionId : String) (r : Records) : Prop where
  owed : ∀ m, r.latest .managedAction actionId = some m → rollbackOwed m = true →
    LiveJob Undoes r actionId
  asked : ∀ jobId, ∀ job ∈ r.versions .job jobId, Undoes job actionId →
    ∃ m, r.latest .managedAction actionId = some m ∧ Asked m

/-- When a worker's copy of the action owes nothing while the stored action does,
another job than the one in its hand is to be delivered. -/
def OwedElsewhere (actionId : String) (r : Records) (past : ActionPast) : Prop :=
  ∀ job n copy j m, inHand past = some (job, n) →
    seen .managedAction actionId past = some (copy, j) → rollbackOwed copy = false →
    r.latest .managedAction actionId = some m → rollbackOwed m = true →
    LiveBeside Undoes r job.jobId actionId

@[reducible] def rollbackDiscipline (actionId : String) : Discipline actionMachine where
  inv := fun w => RollbacksHeld actionId w.records
  knows := fun k w past => k.role = .worker → OwedElsewhere actionId w.records past
  contract := actionTerms.contract
  coexist := fun k _ k' _ => ¬(k.works = true ∧ k'.works = true)

section Acting
variable {actionId : String} {pages : String → String → SitePage}
  {c : Config actionMachine} {t : Nat} {ch : ProcChoice actionSite} {k : ActionKind}
  {o : Op backend actionSite} {f : Except Exc o.Res → ActionProc Unit}
  {past : ActionPast} {r : Except Exc o.Res} {s : World backend actionSite}

private theorem rollback_jobs
    (ha : (rollbackDiscipline actionId).Acting (RollbacksFinish actionId)
      ⟨untouchedSites pages, []⟩ c t ch k o f past r s) (jobId : String) :
    ActionJobEffect k.role past o jobId (c.shared.records.versions .job jobId)
      (s.records.versions .job jobId) :=
  action_job_effect (Service.told_of_run ha.reached _ (List.mem_of_getElem? ha.here))
    ha.permitted.1 ha.exec jobId

private theorem rollback_actions
    (ha : (rollbackDiscipline actionId).Acting (RollbacksFinish actionId)
      ⟨untouchedSites pages, []⟩ c t ch k o f past r s) :
    ActionEffect k.role past o actionId
      (c.shared.records.versions .managedAction actionId)
      (s.records.versions .managedAction actionId) :=
  action_effect (Service.told_of_run ha.reached _ (List.mem_of_getElem? ha.here))
    ha.permitted.1 ha.exec actionId

/-- A job that undoes the action ends only completed, by the worker that has it
in hand. -/
private theorem rollback_ending
    (ha : (rollbackDiscipline actionId).Acting (RollbacksFinish actionId)
      ⟨untouchedSites pages, []⟩ c t ch k o f past r s)
    {rest : ActionPast} {basis job : Job} {seenAt : Nat}
    (hend : JobEnding Undoes k.role past o c.shared.records actionId rest basis seenAt
      job) :
    k.role = .worker ∧ inHand past = some (basis, seenAt) ∧
      ∃ copy n, seen .managedAction actionId past = some (copy, n) ∧
        rollbackOwed copy = false := by
  obtain ⟨x, hx, hun, -⟩ := hend.live
  have hgave : gaveOut job = false := by
    have hop := eachOp_act ha.ok ha.here
    have ho := hend.op
    subst ho
    by_contra hne
    exact hop rfl (by simpa using hne) x hx hun
  obtain ⟨works, hhand, finished⟩ := hend.cause.of_completed (hend.completed hgave)
  obtain ⟨copy, n, hseen, howed⟩ := finished.undone actionId hend.basisKind
  obtain ⟨y, found⟩ := hend.found
  refine ⟨works, ?_, copy, n, ?_, howed⟩
  · rw [found, inHand_find]
    exact hhand
  · rw [found]
    cases y with
    | error e => exact hseen
    | ok y =>
        exact (seen_find_of_ne (t := .managedAction) (u := .job) y nofun).trans hseen

/-- A rollback owed after an operation was owed before, or its job was made. -/
private theorem owed_step
    (ha : (rollbackDiscipline actionId).Acting (RollbacksFinish actionId)
      ⟨untouchedSites pages, []⟩ c t ch k o f past r s) {m' : ManagedAction}
    (hm : s.records.latest .managedAction actionId = some m')
    (howed : rollbackOwed m' = true) :
    (∃ m, c.shared.records.latest .managedAction actionId = some m ∧
      rollbackOwed m = true) ∨
    ∃ job, Undoes job actionId ∧ c.shared.records.versions .job job.jobId = [] ∧
      s.records.latest .job job.jobId = some job ∧ job.status.terminal = false := by
  rcases (rollback_actions ha).owed ((actions_in_order ha.reached).inv actionId) hm
    howed with hbefore | ⟨managed, version, job, hun, hq, ho⟩
  · exact .inl hbefore
  · have hexec := ha.exec
    subst ho
    rcases job_of_decision hexec with heq | ⟨hfresh, hl, -⟩
    · exact .inl ⟨m', heq ▸ hm, howed⟩
    · exact .inr ⟨job, hun, hfresh, hl, by rw [hq]; rfl⟩

private theorem owed_inv
    (ha : (rollbackDiscipline actionId).Acting (RollbacksFinish actionId)
      ⟨untouchedSites pages, []⟩ c t ch k o f past r s) {m' : ManagedAction}
    (hm : s.records.latest .managedAction actionId = some m')
    (howed : rollbackOwed m' = true) : LiveJob Undoes s.records actionId := by
  rcases owed_step ha hm howed with ⟨m, hmb, hob⟩ | ⟨job, hun, -, hl, hlive⟩
  case inr => exact .of_latest hl hun hlive
  rcases (ha.holds.inv.owed m hmb hob).step kindOfJob_undoes (rollback_jobs ha)
      (job_kinds_kept ha.reached) with hlive | ⟨rest, basis, seenAt, job, hend⟩
  · exact hlive
  · -- The job was completed over a copy that owes nothing: there is another one.
    obtain ⟨works, hhand, copy, n, hseen, hcopy⟩ := rollback_ending ha hend
    have hbeside := ha.knows works basis seenAt copy n m hhand hseen hcopy hmb hob
    rw [hend.basisId] at hbeside
    exact hbeside.of_versions (hend.others (rollback_jobs ha))

private theorem asked_inv
    (ha : (rollbackDiscipline actionId).Acting (RollbacksFinish actionId)
      ⟨untouchedSites pages, []⟩ c t ch k o f past r s) (jobId : String) (job : Job)
    (hjob : job ∈ s.records.versions .job jobId) (hun : Undoes job actionId) :
    ∃ m, s.records.latest .managedAction actionId = some m ∧ Asked m := by
  have hkeep : ∀ m, c.shared.records.latest .managedAction actionId = some m →
      Asked m → ∃ m', s.records.latest .managedAction actionId = some m' ∧ Asked m' := by
    intro m hm hasked
    cases rollback_actions ha with
    | same same => exact ⟨m, by rw [Repository.latest, same]; exact hm, hasked⟩
    | propose fresh =>
        rw [Repository.latest, fresh] at hm
        cases hm
    | @update rest basis current managed replacing stored last id made =>
        obtain rfl : current = m := Option.some.inj (last.symm.trans hm)
        refine ⟨managed, ?_, hasked.mono replacing.extended⟩
        rw [Repository.latest, made, List.getLast?_concat]
  cases rollback_jobs ha jobId with
  | same same =>
      obtain ⟨m, hm, hasked⟩ := ha.holds.inv.asked jobId job (same ▸ hjob) hun
      exact hkeep m hm hasked
  | @create managed version job' op fresh id beside made =>
      obtain rfl : job = job' := List.mem_singleton.mp (made ▸ hjob)
      rcases beside.what with hex | ⟨hun', hpending⟩
      · exact absurd (hex.1.symm.trans hun.1) (by decide)
      · have hexec := ha.exec
        subst op id
        have hid : managed.actionId = actionId :=
          Except.ok.inj (hun'.2.symm.trans hun.2)
        rcases job_of_decision hexec with heq | ⟨-, -, hl⟩
        · rw [heq, fresh] at hjob
          cases hjob
        · exact ⟨managed, hid ▸ hl, .of_pending hpending⟩
  | @update rest current basis job' seenAt op found hseen stored last id step cause made =>
      rw [made] at hjob
      rcases List.mem_append.mp hjob with hold | hnew
      · obtain ⟨m, hm, hasked⟩ := ha.holds.inv.asked jobId job hold hun
        exact hkeep m hm hasked
      · obtain rfl := List.mem_singleton.mp hnew
        have hun' : Undoes basis actionId :=
          kindOfJob_undoes _ _ _ step.jobType.symm step.payload.symm hun
        obtain ⟨m, hm, hasked⟩ := ha.holds.inv.asked jobId basis stored hun'
        exact hkeep m hm hasked

/-- Another job that undoes the action stays so under an operation that ends
none. -/
private theorem beside_kept
    (ha : (rollbackDiscipline actionId).Acting (RollbacksFinish actionId)
      ⟨untouchedSites pages, []⟩ c t ch k o f past r s) {jobId : String}
    (h : LiveBeside Undoes c.shared.records jobId actionId)
    (hidle : k.role = .worker → jobWritten ⟨o, r⟩ = none) :
    LiveBeside Undoes s.records jobId actionId := by
  rcases h.step kindOfJob_undoes (rollback_jobs ha) (job_kinds_kept ha.reached) with
    hlive | ⟨rest, basis, seenAt, job, -, hend⟩
  · exact hlive
  · have hop := hend.op
    subst hop
    have hnone := hidle (rollback_ending ha hend).1
    cases r <;> cases hnone

private theorem elsewhere_frame
    (ha : (rollbackDiscipline actionId).Acting (RollbacksFinish actionId)
      ⟨untouchedSites pages, []⟩ c t ch k o f past r s) (hk : k.role ≠ .worker)
    {th : actionMachine.Thread} (hth : th ∈ c.pool)
    (h : OwedElsewhere actionId c.shared.records th.past) :
    OwedElsewhere actionId s.records th.past := by
  intro job n copy j m' hhand hseen hcopy hm howed
  rcases owed_step ha hm howed with ⟨m, hmb, hob⟩ | ⟨job', hun, hfresh, hl, hlive⟩
  · exact beside_kept ha (h job n copy j m hhand hseen hcopy hmb hob)
      fun hw => absurd hw hk
  · refine .of_latest (fun he => ?_) hl hun hlive
    rw [he] at hfresh
    exact hand_stored ha.reached hth hhand hfresh

/-- A job that was just written running was started, by a worker that has read no
action. -/
private theorem unread_of_started
    (ha : (rollbackDiscipline actionId).Acting (RollbacksFinish actionId)
      ⟨untouchedSites pages, []⟩ c t ch k o f past r s) {i : String} {job : Job}
    {version : Nat} (ho : o = .commit [.replace .job i job version])
    (hran : job.status = .running) :
    seen .managedAction actionId (⟨o, r⟩ :: past) = none := by
  subst ho
  have hperm : ActionCommit k.role past [.replace .job i job version] :=
    ha.permitted.1
  cases hperm with
  | job write =>
      cases write with
      | @update rest current version basis seenAt job found hseen step cause =>
          rw [seen_commit_of_ne fun w hw => by
            obtain rfl := List.mem_singleton.mp hw
            nofun]
          rw [found]
          refine (seen_find_of_ne (t := .managedAction) (u := .job) _ nofun).trans ?_
          cases cause with
          | start _ _ opening => exact opening.unread _ nofun
          | finish _ _ ends => exact absurd hran ends
          | recover _ _ ends =>
              rcases ends with ends | ends <;> rw [ends] at hran <;> cases hran
          | cancel _ ends => rw [ends] at hran; cases hran

private theorem elsewhere_own
    (ha : (rollbackDiscipline actionId).Acting (RollbacksFinish actionId)
      ⟨untouchedSites pages, []⟩ c t ch k o f past r s)
    (h : OwedElsewhere actionId c.shared.records past) :
    OwedElsewhere actionId s.records (⟨o, r⟩ :: past) := by
  intro job n copy j m' hhand hseen hcopy hm howed
  rcases Service.seen_step (t := AggregateType.managedAction) ha.exec hseen with
    hnow | ⟨hold, hsame⟩
  · have hlast := Repository.getLast?_of_current hnow
    rw [Option.some.inj (hm.symm.trans hlast), hcopy] at howed
    cases howed
  · rcases inHand_cons hhand with ⟨hidle, hhand⟩ | ⟨i, version, hev, -⟩
    · have hmb : c.shared.records.latest .managedAction actionId = some m' := by
        rw [Repository.latest, ← hsame]
        exact hm
      exact beside_kept ha (h job n copy j m' hhand hold hcopy hmb howed)
        fun _ => hidle
    · cases hev
      rw [unread_of_started ha rfl (inHand_running hhand)] at hseen
      cases hseen

end Acting

theorem rollbackDiscipline_sound {actionId : String}
    {pages : String → String → SitePage} :
    (rollbackDiscipline actionId).Sound (RollbacksFinish actionId)
      ⟨untouchedSites pages, []⟩ where
  symm h := fun ⟨h₁, h₂⟩ => h ⟨h₂, h₁⟩
  admits h _ hk' _ := ActionKind.one_worker h hk'
  body := actionTerms_kept
  start _ _ _ := fun _ _ _ _ _ h => by cases h
  trusted ha := (Service.valid_of_run actionTerms_kept
    (fun _ _ _ hv => absurd hv List.not_mem_nil) ha.reached).reads ha.exec
  inv ha := ⟨fun _ => owed_inv ha, asked_inv ha⟩
  own ha hrole := elsewhere_own ha (ha.knows hrole)
  frame ha _ hth hco hk hrole := elsewhere_frame ha
    (ActionKind.not_worker fun hw => hco ⟨hw, ActionKind.works_of_worker hrole⟩) hth
    (hk hrole)
  together _ _ _ hco _ := hco
  envInv _ hh _ hs := by
    obtain ⟨s, -, rfl⟩ := Service.change_cases hs
    exact hh.inv
  envFrame _ _ _ hs _ _ hk := by
    obtain ⟨s, -, rfl⟩ := Service.change_cases hs
    exact hk

/-! ## The flag and the jobs -/

/-- The pending flag of an action against the jobs that undo it. -/
structure RollbackFlag (actionId : String) (r : Records) : Prop where
  awaited : ∀ m, r.latest .managedAction actionId = some m → m.rolledBack = none →
    rollbackPending m = true → LiveJob Undoes r actionId ∨ waitsForCustomer m
  announced : LiveJob Undoes r actionId → ∃ m,
    r.latest .managedAction actionId = some m ∧
      (rollbackPending m = true ∨ gaveUpSince m = true)

/-- A description is proposed, approved and written, and its job is completed. -/
def appliedDescription : List (Move (M := actionMachine)) :=
  approvedDescription (some "Old") "New" ++ claimedByWorker 2 ++ readByWorker 2 ++
    writtenByWorker 2 ++ [.stop 2]

/-- The owner asks for a rollback. -/
def askedByOwner (t : Nat) (jobId : String) : List (Move (M := actionMachine)) :=
  [.spawn (.rollback "action:j0" "t" none), .act t .done, .act t (.clock 7),
    .act t (.name jobId), .act t (.clock 7), .act t .done, .act t .done]

/-- The worker takes the job and the site undoes the change. -/
def undoneByWorker (t : Nat) : List (Move (M := actionMachine)) :=
  [.spawn .runOnce, .act t .done, .act t (.clock 8), .act t .done, .act t .done,
    .act t .done, .act t (.ext (.adapter connector)),
    .act t (.ext (.accepts (some "c2"))), .act t (.ext (.shows 0 [])),
    .act t (.clock 9), .act t (.clock 9), .act t .done, .act t .done,
    .act t (.clock 9), .act t .done, .act t .done]

/-- The flag of a stored action, what its history says last of a rollback, and
whether it has a job that undoes it. -/
def flagOf (c : Config actionMachine) (actionId : String) :
    Option (Bool × Option EntryMark) × Bool :=
  ((c.shared.records.latest .managedAction actionId).map fun m =>
      (rollbackPending m, lastRollbackMark m.history),
    decide (LiveJob Undoes c.shared.records actionId))

end SeoAgent.Ports
