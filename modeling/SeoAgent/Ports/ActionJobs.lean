import SeoAgent.Ports.ActionRuns

/-!
# The jobs of an action

The records of jobs and of actions are written by different commits, and only a
decision writes both. This module says what one operation of any process does
to the versions of a job, that all versions of a job are for one action, and
what it takes for an action to have a job that is still to be delivered.

## Main results

* `action_job_effect` — what one operation does to the versions of a job.
* `job_kinds_kept` — all versions of a job have one type and one payload.
* `LiveJob.step` — a live job of an action stays live, or the operation is the
  write that ends it.
-/

namespace SeoAgent.Ports

open Verified Verified.Machine
open Service (Op iface World)

/-! ## What one operation does to a job -/

/-- What one operation does to the versions of a job: nothing, or it makes the
job together with a decision, or it adds a transition of some earlier
version. -/
inductive ActionJobEffect (role : JobRole) (past : ActionPast)
    (o : Op backend actionSite) (jobId : String) (before after : List Job) : Prop
  | same (same : after = before)
  | create {managed : ManagedAction} {version : Nat} {job : Job}
      (op : o = .commit [.replace .managedAction managed.actionId managed version,
        .create .job jobId job])
      (fresh : before = []) (id : job.jobId = jobId) (beside : JobBeside managed job)
      (made : after = [job])
  | update {rest : ActionPast} {current basis job : Job} {seenAt : Nat}
      (op : o = .commit [.replace .job jobId job before.length])
      (found : past =
        ⟨.find .job jobId, .ok (some (current, before.length))⟩ :: rest)
      (seen : seen .job jobId rest = some (basis, seenAt)) (stored : basis ∈ before)
      (last : before.getLast? = some current) (id : job.jobId = jobId)
      (step : Job.Transition basis job)
      (cause : JobCause (completing Finished) role rest basis seenAt job)
      (made : after = before ++ [job])

section Effect
variable {w w' : World backend actionSite} {role : JobRole} {past : ActionPast}

private theorem commit_job_effect {ws : Writes}
    (htold : Service.Told w.records past) (hp : ActionCommit role past ws)
    (hc : w.records.commit ws = .ok w'.records) (jobId : String) :
    ActionJobEffect role past (.commit ws) jobId (w.records.versions .job jobId)
      (w'.records.versions .job jobId) := by
  cases hp with
  | propose =>
      exact .same (Repository.commit_versions_of_ne hc fun x hx =>
        List.mem_singleton.mp hx ▸ nofun)
  | update =>
      exact .same (Repository.commit_versions_of_ne hc fun x hx =>
        List.mem_singleton.mp hx ▸ nofun)
  | @updateWithJob rest basis current managed version job moves replacing beside
      asked =>
      obtain ⟨u, hu, hc'⟩ := Repository.commit_cons.mp hc
      obtain ⟨hf, hm⟩ := Repository.apply_create (Repository.commit_singleton.mp hc')
      have hkeep : ∀ i, u.versions .job i = w.records.versions .job i := fun i =>
        Repository.apply_versions_of_ne hu nofun
      by_cases hid : jobId = job.jobId
      · subst hid
        refine .create rfl (hkeep _ ▸ hf) rfl beside ?_
        rw [hm, Repository.versions_append_self, hf]
        rfl
      · refine .same ?_
        rw [hm, Repository.versions_append_of_ne _ _ _ _ hid, hkeep]
  | settle measures replacing settles free feedback =>
      refine .same (Repository.commit_versions_of_ne hc fun x hx => ?_)
      rcases List.mem_cons.mp hx with rfl | hx
      · nofun
      rcases List.mem_cons.mp hx with rfl | hx
      · nofun
      · obtain ⟨event, rfl⟩ := feedbackWrites_mem feedback x hx
        nofun
  | job write updates =>
      cases write with
      | create fresh untried => exact absurd rfl (updates _)
      | @update rest current version basis seenAt job found hseen step cause =>
          obtain ⟨hlen, hm⟩ :=
            Repository.apply_replace (Repository.commit_singleton.mp hc)
          by_cases hid : jobId = job.jobId
          · subst hid
            have hcur : seen .job job.jobId past = some (current, version) := by
              rw [found]
              exact seen_find (t := .job) _
            subst hlen
            refine .update rfl found hseen ?_ ?_ rfl step cause ?_
            · rw [found] at htold
              exact Repository.mem_of_versionAt (htold.tail.seen hseen)
            · exact Repository.getLast?_of_current
                (Repository.current_eq_some_iff.mpr ⟨htold.seen hcur, rfl⟩)
            · rw [hm, Repository.versions_append_self]
          · exact .same (by rw [hm, Repository.versions_append_of_ne _ _ _ _ hid])

/-- One permitted operation, for every job. -/
theorem action_job_effect {o : Op backend actionSite} {ch : ProcChoice actionSite}
    {r : Except Exc o.Res} (htold : Service.Told w.records past)
    (hp : actionPermits role past o) (he : Service.exec w o ch = some (r, w'))
    (jobId : String) :
    ActionJobEffect role past o jobId (w.records.versions .job jobId)
      (w'.records.versions .job jobId) := by
  rcases Service.exec_records he with heq | ⟨ws, rfl, hc⟩
  · exact .same (by rw [heq])
  · exact commit_job_effect htold hp hc jobId

/-- A write of a job leaves actions alone. -/
theorem action_versions_of_job_write {ch : ProcChoice actionSite}
    {jobId : String} {job : Job} {n : Nat} {r : Except Exc Unit}
    (he : Service.exec w (.commit [.replace .job jobId job n]) ch = some (r, w'))
    (actionId : String) :
    w'.records.versions .managedAction actionId =
      w.records.versions .managedAction actionId := by
  rcases Service.exec_records he with heq | ⟨ws, hws, hc⟩
  · rw [heq]
  · cases hws
    exact Repository.commit_versions_of_ne hc fun x hx =>
      List.mem_singleton.mp hx ▸ nofun

/-- A decision and the job it makes are written together. -/
theorem job_of_decision {managed : ManagedAction} {version : Nat} {job : Job}
    {ch : ProcChoice actionSite} {r : Except Exc Unit}
    (he : Service.exec w (.commit
      [.replace .managedAction managed.actionId managed version,
        .create .job job.jobId job]) ch = some (r, w')) :
      w'.records = w.records ∨ w.records.versions .job job.jobId = [] ∧
      w'.records.latest .job job.jobId = some job ∧
      w'.records.latest .managedAction managed.actionId = some managed := by
  rcases Service.exec_records he with heq | ⟨ws, hws, hc⟩
  · exact .inl heq
  · cases hws
    obtain ⟨u, hu, hc⟩ := Repository.commit_cons.mp hc
    obtain ⟨-, hu'⟩ := Repository.apply_replace hu
    have happly := Repository.commit_singleton.mp hc
    obtain ⟨hf, hs⟩ := Repository.apply_create happly
    have hkept : u.versions .job job.jobId = w.records.versions .job job.jobId :=
      Repository.apply_versions_of_ne hu nofun
    have hdecided : w'.records.versions .managedAction managed.actionId =
        u.versions .managedAction managed.actionId :=
      Repository.apply_versions_of_ne happly nofun
    refine .inr ⟨hkept ▸ hf, ?_, ?_⟩
    · rw [Repository.latest, hs, Repository.versions_append_self, List.getLast?_concat]
    · rw [Repository.latest, hdecided, hu', Repository.versions_append_self,
        List.getLast?_concat]

end Effect

/-! ## One action for all versions of a job -/

/-- All versions of a job have one type and one payload. -/
def OneKind (versions : List Job) : Prop :=
  ∀ x ∈ versions, ∀ y ∈ versions, x.jobType = y.jobType ∧ x.payload = y.payload

section Runs
variable {good : Condition actionMachine} {pages : String → String → SitePage}
  {c : Config actionMachine}

theorem job_kinds_kept (hr : Run good ⟨untouchedSites pages, []⟩ c) :
    ∀ jobId, OneKind (c.shared.records.versions .job jobId) := by
  have hrule : Service.RecordRule actionTerms good (untouchedSites pages) .job
      fun _ => OneKind := ⟨?_, ?_⟩
  · exact Service.record_invariant actionTerms_kept
      (fun t i v hv => absurd hv List.not_mem_nil) hrule
      (fun _ x hx => absurd hx List.not_mem_nil) hr
  · intro c ch k past ws i v _ _ x hx y hy
    rw [List.mem_singleton.mp hx, List.mem_singleton.mp hy]
    exact ⟨rfl, rfl⟩
  · intro c ch k past ws i v vs hc hw hne hp hg
    have hperm : ActionCommit k.role past ws := hc.permitted
    obtain ⟨b, hb, htype, hpayload⟩ : ∃ b ∈ vs, v.jobType = b.jobType ∧
        v.payload = b.payload := by
      cases hperm with
      | propose => cases List.mem_singleton.mp hw
      | update => cases List.mem_singleton.mp hw
      | updateWithJob =>
          rcases List.mem_cons.mp hw with hw | hw
          · cases hw
          · cases List.mem_singleton.mp hw
      | settle measures replacing settles free feedback =>
          rcases List.mem_cons.mp hw with hw | hw
          · cases hw
          rcases List.mem_cons.mp hw with hw | hw
          · cases hw
          · obtain ⟨event, hevent⟩ := feedbackWrites_mem feedback _ hw
            cases hevent
      | job write updates =>
          cases write with
          | create => exact absurd rfl (updates _)
          | @update rest current version basis seenAt job found hseen step cause =>
              obtain ⟨rfl, rfl⟩ : i = job.jobId ∧ v = job := by
                cases List.mem_singleton.mp hw
                exact ⟨rfl, rfl⟩
              have htold := hc.told
              rw [found] at htold
              have hmem := Repository.mem_of_versionAt (htold.tail.seen hseen)
              exact ⟨basis, hp.subset hmem, step.jobType, step.payload⟩
    intro x hx y hy
    have hall : ∀ z ∈ vs ++ [v], z.jobType = b.jobType ∧ z.payload = b.payload := by
      intro z hz
      rcases List.mem_append.mp hz with hz | hz
      · exact hg z hz b hb
      · rw [List.mem_singleton.mp hz]
        exact ⟨htype, hpayload⟩
    exact ⟨(hall x hx).1.trans (hall y hy).1.symm,
      (hall x hx).2.trans (hall y hy).2.symm⟩

/-- A job in the hand of a process is stored. -/
theorem hand_stored (hr : Run good ⟨untouchedSites pages, []⟩ c)
    {th : actionMachine.Thread} (hth : th ∈ c.pool) {job : Job} {n : Nat}
    (hhand : inHand th.past = some (job, n)) :
    c.shared.records.versions .job job.jobId ≠ [] := by
  obtain ⟨rest, i, hsuf, hseen⟩ := inHand_seen hhand
  have hmem := Repository.mem_of_versionAt
    (Service.told_of_run hr th hth rest hsuf .job i job n hseen)
  have hvalid := Service.valid_of_run actionTerms_kept
    (fun _ _ _ hv => absurd hv List.not_mem_nil) hr
  obtain rfl : job.jobId = i := hvalid .job i job hmem
  exact List.ne_nil_of_mem hmem

end Runs

/-! ## Jobs still to be delivered -/

theorem HasInHand.cons_find {kind : Job → String → Prop} {past : ActionPast}
    {t : AggregateType} {i : String} {x : Except Exc (Option (t.Payload × Nat))}
    {actionId : String} (h : HasInHand kind past actionId) :
    HasInHand kind (⟨.find t i, x⟩ :: past) actionId :=
  let ⟨job, n, hhand, hk⟩ := h
  ⟨job, n, (inHand_find x).trans hhand, hk⟩

instance (job : Job) (actionId : String) : Decidable (Executes job actionId) := by
  unfold Executes
  infer_instance

instance (job : Job) (actionId : String) : Decidable (Undoes job actionId) := by
  unfold Undoes
  infer_instance

/-- A job of a kind for an action is queued or running. -/
def LiveJob (kind : Job → String → Prop) (r : Records) (actionId : String) : Prop :=
  ∃ e ∈ (r.list .job).entries, kind e.2.1 actionId ∧ e.2.1.status.terminal = false

/-- Another job than a given one is. -/
def LiveBeside (kind : Job → String → Prop) (r : Records) (jobId actionId : String) :
    Prop :=
  ∃ e ∈ (r.list .job).entries, e.1 ≠ jobId ∧ kind e.2.1 actionId ∧
    e.2.1.status.terminal = false

instance (kind : Job → String → Prop) [∀ job i, Decidable (kind job i)] (r : Records)
    (jobId actionId : String) : Decidable (LiveBeside kind r jobId actionId) := by
  unfold LiveBeside
  infer_instance

instance (kind : Job → String → Prop) [∀ job i, Decidable (kind job i)] (r : Records)
    (actionId : String) : Decidable (LiveJob kind r actionId) := by
  unfold LiveJob
  infer_instance

section Live
variable {kind : Job → String → Prop} {r r' : Records} {actionId jobId : String}
  {job : Job}

theorem mem_list_of_latest (h : r.latest .job jobId = some job) :
    ∃ n, (jobId, job, n) ∈ (r.list .job).entries :=
  ⟨_, Repository.mem_list_iff.mpr
    (Option.map_eq_some_iff.mpr ⟨job, h, rfl⟩)⟩

theorem latest_of_mem_list {e : String × Job × Nat} (h : e ∈ (r.list .job).entries) :
    r.latest .job e.1 = some e.2.1 :=
  Repository.getLast?_of_current (Repository.mem_list_iff.mp h)

theorem LiveJob.of_latest (h : r.latest .job jobId = some job)
    (hk : kind job actionId) (hl : job.status.terminal = false) :
    LiveJob kind r actionId :=
  let ⟨_, hm⟩ := mem_list_of_latest h
  ⟨_, hm, hk, hl⟩

theorem LiveBeside.live (h : LiveBeside kind r jobId actionId) :
    LiveJob kind r actionId :=
  let ⟨e, he, _, hk⟩ := h
  ⟨e, he, hk⟩

/-- A job that is not written stays as live as it was. -/
theorem LiveBeside.of_versions (h : LiveBeside kind r jobId actionId)
    (hs : ∀ i ≠ jobId, r'.versions .job i = r.versions .job i) :
    LiveJob kind r' actionId := by
  obtain ⟨e, he, hne, hk, hl⟩ := h
  have hlatest : r'.latest .job e.1 = some e.2.1 := by
    rw [Repository.latest, hs e.1 hne]
    exact latest_of_mem_list he
  exact .of_latest hlatest hk hl

theorem LiveBeside.of_latest {x : String} (hne : jobId ≠ x)
    (h : r.latest .job jobId = some job) (hk : kind job actionId)
    (hl : job.status.terminal = false) : LiveBeside kind r x actionId :=
  let ⟨_, hm⟩ := mem_list_of_latest h
  ⟨_, hm, hne, hk, hl⟩

end Live

/-! ## How a live job ends -/

/-- The end of a job other than its completion. -/
def gaveOut (job : Job) : Bool := job.status = .cancelled || job.status = .failed

/-- Only the worker that has a job in hand completes it, once it has finished. -/
theorem JobCause.of_completed {role : JobRole} {rest : ActionPast} {basis job : Job}
    {seenAt : Nat} (h : JobCause (completing Finished) role rest basis seenAt job)
    (hdone : job.status = .completed) :
    role = .worker ∧ inHand rest = some (basis, seenAt) ∧ Finished rest basis := by
  cases h with
  | start _ hst => rw [hst] at hdone; cases hdone
  | finish works hand ends finished => exact ⟨works, hand, finished hdone⟩
  | recover _ _ hst =>
      rcases hst with hst | hst <;> rw [hst] at hdone <;> cases hdone
  | cancel _ hst => rw [hst] at hdone; cases hdone

/-- A kind that the type and the payload of a job decide. -/
def KindOfJob (kind : Job → String → Prop) : Prop :=
  ∀ (a b : Job) (actionId : String), a.jobType = b.jobType → a.payload = b.payload →
    kind b actionId → kind a actionId

theorem kindOfJob_executes : KindOfJob Executes := fun _ _ _ ht hp hb =>
  ⟨ht.trans hb.1, hp ▸ hb.2⟩

theorem kindOfJob_undoes : KindOfJob Undoes := fun _ _ _ ht hp hb =>
  ⟨ht.trans hb.1, hp ▸ hb.2⟩

/-- The write that ends a live job of an action, with what it was made from. -/
structure JobEnding (kind : Job → String → Prop) (role : JobRole) (past : ActionPast)
    (o : Op backend actionSite) (r : Records) (actionId : String)
    (rest : ActionPast) (basis : Job) (seenAt : Nat) (job : Job) : Prop where
  op : o = .commit [.replace .job job.jobId job (r.versions .job job.jobId).length]
  found : ∃ x, past = ⟨.find .job job.jobId, x⟩ :: rest
  live : ∃ current, r.latest .job job.jobId = some current ∧ kind current actionId ∧
    current.status.terminal = false
  basisKind : kind basis actionId
  basisId : basis.jobId = job.jobId
  terminal : job.status.terminal = true
  cause : JobCause (completing Finished) role rest basis seenAt job

section Ending
variable {kind : Job → String → Prop} {role : JobRole} {past rest : ActionPast}
  {o : Op backend actionSite} {r r' : Records} {actionId jobId : String}
  {basis job x : Job} {seenAt : Nat}

/-- A live job stays live, or the operation ends it. -/
theorem live_or_ended (hkind : KindOfJob kind)
    (heff : ActionJobEffect role past o jobId (r.versions .job jobId)
      (r'.versions .job jobId))
    (hkinds : OneKind (r.versions .job jobId)) (hx : r.latest .job jobId = some x)
    (hk : kind x actionId) (hl : x.status.terminal = false) :
    (∃ y, r'.latest .job jobId = some y ∧ kind y actionId ∧
      y.status.terminal = false) ∨
    ∃ rest basis seenAt job, job.jobId = jobId ∧
      JobEnding kind role past o r actionId rest basis seenAt job := by
  cases heff with
  | same same =>
      refine .inl ⟨x, ?_, hk, hl⟩
      rw [Repository.latest, same]
      exact hx
  | create op fresh =>
      rw [Repository.latest, fresh] at hx
      cases hx
  | @update rest current basis job seenAt op found hseen stored last id step cause made =>
      subst id
      have hcommon := hkinds basis stored x (List.mem_of_getLast? hx)
      have hkb : kind basis actionId := hkind _ _ _ hcommon.1 hcommon.2 hk
      cases hterm : job.status.terminal with
      | false =>
          refine .inl ⟨job, ?_, hkind _ _ _ step.jobType step.payload hkb, hterm⟩
          rw [Repository.latest, made, List.getLast?_concat]
      | true =>
          exact .inr ⟨rest, basis, seenAt, job, rfl,
            { op := op, found := ⟨_, found⟩, live := ⟨x, hx, hk, hl⟩, basisKind := hkb
              basisId := step.jobId.symm, terminal := hterm, cause := cause }⟩

theorem LiveJob.step (hkind : KindOfJob kind)
    (heff : ∀ i, ActionJobEffect role past o i (r.versions .job i)
      (r'.versions .job i))
    (hkinds : ∀ i, OneKind (r.versions .job i)) (h : LiveJob kind r actionId) :
    LiveJob kind r' actionId ∨ ∃ rest basis seenAt job,
      JobEnding kind role past o r actionId rest basis seenAt job := by
  obtain ⟨e, he, hk, hl⟩ := h
  rcases live_or_ended hkind (heff e.1) (hkinds e.1) (latest_of_mem_list he) hk hl with
    ⟨y, hy, hky, hly⟩ | ⟨rest, basis, seenAt, job, -, hend⟩
  · exact .inl (.of_latest hy hky hly)
  · exact .inr ⟨rest, basis, seenAt, job, hend⟩

theorem LiveBeside.step (hkind : KindOfJob kind)
    (heff : ∀ i, ActionJobEffect role past o i (r.versions .job i)
      (r'.versions .job i))
    (hkinds : ∀ i, OneKind (r.versions .job i)) (h : LiveBeside kind r jobId actionId) :
    LiveBeside kind r' jobId actionId ∨ ∃ rest basis seenAt job, job.jobId ≠ jobId ∧
      JobEnding kind role past o r actionId rest basis seenAt job := by
  obtain ⟨e, he, hne, hk, hl⟩ := h
  rcases live_or_ended hkind (heff e.1) (hkinds e.1) (latest_of_mem_list he) hk hl with
    ⟨y, hy, hky, hly⟩ | ⟨rest, basis, seenAt, job, hid, hend⟩
  · exact .inl (.of_latest hne hy hky hly)
  · exact .inr ⟨rest, basis, seenAt, job, hid ▸ hne, hend⟩

theorem JobEnding.completed
    (h : JobEnding kind role past o r actionId rest basis seenAt job)
    (hgave : gaveOut job = false) : job.status = .completed := by
  have hterm := h.terminal
  revert hterm hgave
  unfold gaveOut
  cases job.status <;> simp [JobStatus.terminal]

/-- The write that ends a job writes no other job. -/
theorem JobEnding.others (h : JobEnding kind role past o r actionId rest basis seenAt job)
    (heff : ∀ i, ActionJobEffect role past o i (r.versions .job i)
      (r'.versions .job i)) :
    ∀ i ≠ job.jobId, r'.versions .job i = r.versions .job i := by
  intro i hi
  cases heff i with
  | same same => exact same
  | create op => cases h.op.symm.trans op
  | update op _ _ _ _ id =>
      cases h.op.symm.trans op
      exact absurd rfl hi

end Ending

end SeoAgent.Ports
