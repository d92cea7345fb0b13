import Mathlib
import SeoAgent.Ports.ActionHistory
import SeoAgent.Ports.ActionJobs

/-!
# Actions that a job has to finish

An action that is being carried out, or that its site has executed and nobody
has checked, can be neither rejected nor measured: only a delivery of an execute
job takes it further. Such a job can end without one, when its attempts run
out, when it is cancelled, or when the adapter of a manual site is built for an
action found under way. `Attended` is the condition under which none of this
happens to the last job of an action.

## Main results

* `held_actions_attended` — under `Attended` an action that is held has an
  execute job that is queued or running.
* `cancelled_while_held` — a cancellation leaves an action held for ever.
-/

namespace SeoAgent.Ports

open Verified Verified.Machine
open Service (Op iface World)

/-! ## Held actions -/

/-- The customer of a manual site was seen to have applied the change. -/
def appliedByCustomer (managed : ManagedAction) : Bool :=
  managed.history.any fun e => e.reason = "applied_by_customer"

/-- Being carried out, or executed by the site itself and not checked yet. -/
def held (managed : ManagedAction) : Bool :=
  managed.status = .executing ||
    (managed.status = .executed && !appliedByCustomer managed)

/-- An action that is held has an execute job that is queued or running. -/
def HeldAttended (actionId : String) (r : Records) : Prop :=
  ∀ m, r.latest .managedAction actionId = some m → held m = true →
    LiveJob Executes r actionId

theorem held_status {m : ManagedAction} (h : held m = true) :
    m.status ∈ [ActionStatus.executing, .executed] := by
  simp only [held, Bool.or_eq_true, Bool.and_eq_true, decide_eq_true_eq] at h
  rcases h with h | h
  · simp [h]
  · simp [h.1]

/-- What was held is held with a shorter history and the same status. -/
theorem held_of_prefix {m v : ManagedAction} (hv : held v = true)
    (hs : m.status = v.status) (hp : m.history <+: v.history) : held m = true := by
  have hc : appliedByCustomer m = true → appliedByCustomer v = true := by
    unfold appliedByCustomer
    rw [List.any_eq_true, List.any_eq_true]
    exact fun ⟨e, he, hr⟩ => ⟨e, hp.subset he, hr⟩
  unfold held at hv ⊢
  rw [hs]
  cases hm : appliedByCustomer m
  · simp only [Bool.not_false, Bool.and_true, Bool.or_eq_true, decide_eq_true_eq]
    simp only [Bool.or_eq_true, Bool.and_eq_true, decide_eq_true_eq] at hv
    exact hv.imp_right And.left
  · simpa [hc hm] using hv

/-! ## The condition -/

/-- A write that cancels or fails an execute job of an action neither cancels it
while it runs nor is the end of the last job of a held action; and no adapter of
a manual site is built for the action while it is being carried out. -/
def AttendedOp (actionId : String) (c : Config actionMachine) (_ : ActionKind)
    (_ : ActionPast) : Op backend actionSite → ProcChoice actionSite → Prop
  | .commit [.replace .job jobId job n], _ =>
      (c.shared.records.versions .job jobId).length = n → gaveOut job = true →
        ∀ x ∈ c.shared.records.latest .job jobId, Executes x actionId →
          (job.status = .cancelled → x.status ≠ .running) ∧
            ∀ m ∈ c.shared.records.latest .managedAction actionId, held m = true →
              LiveBeside Executes c.shared.records jobId actionId
  | .ext (.buildAdapter siteId), .ext (.adapter adapter) =>
      ∀ m ∈ c.shared.records.latest .managedAction actionId,
        m.siteId = siteId → m.status = .executing → adapter.manualApply = false
  | _, _ => True

/-- Every operation attends to an action. -/
def Attended (actionId : String) : Condition actionMachine :=
  eachOp (AttendedOp actionId)

instance (actionId : String) (c : Config actionMachine) (k : ActionKind)
    (past : ActionPast) (o : Op backend actionSite) (ch : ProcChoice actionSite) :
    Decidable (AttendedOp actionId c k past o ch) := by
  unfold AttendedOp
  split <;> infer_instance

instance (actionId : String) (c : Config actionMachine)
    (m : Move (M := actionMachine)) : Decidable (Attended actionId c m) :=
  inferInstanceAs (Decidable (eachOp _ c m))

/-! ## What one operation does to a held action -/

/-- A status an action has after a write it had before, or the writer has an
execute job for it in hand. -/
theorem ActionWrite.status_between {role : JobRole} {past : ActionPast}
    {b m v : ManagedAction} (h : ActionWrite role past b v)
    (hb : Lifecycle b) (hm : Lifecycle m) (hbm : b.history <+: m.history)
    (hmv : m.history <+: v.history)
    (hv : v.status ∈ [ActionStatus.executing, .executed]) :
    m.status = v.status ∨ role = .worker ∧ HasInHand Executes past b.actionId := by
  have hlast : ∀ {x y : ManagedAction}, Lifecycle x → Lifecycle y →
      x.history = y.history → x.status = y.status := fun hx hy he =>
    Option.some.inj (hx.last.symm.trans ((congrArg List.getLast?
      (congrArg (List.map ActionEvent.status) he)).trans hy.last))
  cases h with
  | one step =>
      rcases step.begun hv with hst | hhand
      · obtain ⟨e, -, hh, -⟩ := step.event
        have hl := hmv.length_le
        rw [hh, List.length_append, List.length_singleton] at hl
        rcases Nat.lt_or_ge b.history.length m.history.length with hlt | hge
        · refine .inl (hlast hm (hb.step step) (hmv.eq_of_length_le ?_))
          rwa [hh, List.length_append]
        · exact .inl ((hlast hm hb (hbm.eq_of_length_le hge).symm).trans hst.symm)
      · exact .inr hhand
  | two first second started =>
      rcases second.begun hv with hst | hhand
      · rw [hst] at hv
        rcases started with hs | hs <;> rw [hs] at hv <;> simp at hv
      · exact .inr ⟨hhand.1, first.actionId ▸ hhand.2⟩

/-- An action that is held after an operation was held before, or its writer has
an execute job for it in hand. -/
theorem ActionEffect.held {role : JobRole} {past : ActionPast}
    {o : Op backend actionSite} {actionId : String} {before after : List ManagedAction} (hrec : ActionRecord before)
    (he : ActionEffect role past o actionId before after) {m' : ManagedAction}
    (hm : after.getLast? = some m') (hup : held m' = true) :
    (∃ m, before.getLast? = some m ∧ Ports.held m = true) ∨
      role = .worker ∧ HasInHand Executes past actionId := by
  cases he with
  | same same => exact .inl ⟨m', same ▸ hm, hup⟩
  | @propose managed fresh id proposed made =>
      rw [made] at hm
      have heq : managed = m' := Option.some.inj hm
      have := held_status (heq ▸ hup)
      rw [proposed.status] at this
      simp at this
  | @update rest basis current managed replacing stored last id made =>
      rw [made, List.getLast?_concat] at hm
      obtain rfl := Option.some.inj hm
      have hbasis := hrec.lawful basis stored
      rcases replacing.write.status_between hbasis
          (hrec.lawful current (List.mem_of_getLast? last))
          (hrec.prefix_last stored last) replacing.extended (held_status hup) with
        hst | hhand
      · exact .inl ⟨current, last, held_of_prefix hup hst replacing.extended⟩
      · have hid : basis.actionId = actionId := replacing.write.actionId.symm.trans id
        exact .inr ⟨hhand.1, replacing.found ▸ (hid ▸ hhand.2).cons_find⟩

/-! ## The discipline -/

/-- The execute job of an action in a worker's hand is stored as the worker left
it, and no adapter of a manual site was built for the action under way. -/
structure Attending (actionId : String) (r : Records) (past : ActionPast) : Prop where
  hand : ∀ job n, inHand past = some (job, n) → Executes job actionId →
    r.latest .job job.jobId = some job
  automatic : ¬FoundUnderWay past actionId

/-- Held actions have their job, and the worker has it in hand. -/
@[reducible] def attendedDiscipline (actionId : String) : Discipline actionMachine where
  inv := fun w => HeldAttended actionId w.records
  knows := fun k w past => k.role = .worker → Attending actionId w.records past
  contract := actionTerms.contract
  coexist := fun k _ k' _ => ¬(k.works = true ∧ k'.works = true)

section Acting
variable {actionId : String} {pages : String → String → SitePage}
  {c : Config actionMachine} {t : Nat} {ch : ProcChoice actionSite} {k : ActionKind}
  {o : Op backend actionSite} {f : Except Exc o.Res → ActionProc Unit}
  {past : ActionPast} {r : Except Exc o.Res} {s : World backend actionSite}

private theorem attended_op
    (ha : (attendedDiscipline actionId).Acting (Attended actionId)
      ⟨untouchedSites pages, []⟩ c t ch k o f past r s) :
    AttendedOp actionId c k past o ch :=
  eachOp_act ha.ok ha.here

/-- What holds of the job writes of an operation that attends to an action. -/
private theorem attended_job
    (ha : (attendedDiscipline actionId).Acting (Attended actionId)
      ⟨untouchedSites pages, []⟩ c t ch k o f past r s) {jobId : String}
    {job x : Job} (hgave : gaveOut job = true)
    (op : o = .commit [.replace .job jobId job
      (c.shared.records.versions .job jobId).length])
    (hx : c.shared.records.latest .job jobId = some x) (hex : Executes x actionId) :
    (job.status = .cancelled → x.status ≠ .running) ∧
      ∀ m, c.shared.records.latest .managedAction actionId = some m →
        held m = true → LiveBeside Executes c.shared.records jobId actionId := by
  have hop := attended_op ha
  subst op
  exact hop rfl hgave x hx hex

private theorem job_effect_of
    (ha : (attendedDiscipline actionId).Acting (Attended actionId)
      ⟨untouchedSites pages, []⟩ c t ch k o f past r s) (jobId : String) :
    ActionJobEffect k.role past o jobId (c.shared.records.versions .job jobId)
      (s.records.versions .job jobId) :=
  action_job_effect (Service.told_of_run ha.reached _ (List.mem_of_getElem? ha.here))
    ha.permitted.1 ha.exec jobId

/-- A delivery that ended well leaves no action held. -/
private theorem not_held_of_carried
    (ha : (attendedDiscipline actionId).Acting (Attended actionId)
      ⟨untouchedSites pages, []⟩ c t ch k o f past r s) (hrole : k.role = .worker)
    {jobId : String} {x : Except Exc (Option (Job × Nat))} {rest : ActionPast}
    (found : past = ⟨.find .job jobId, x⟩ :: rest) (hc : Carried rest actionId)
    {m : ManagedAction} (hm : c.shared.records.latest .managedAction actionId = some m) :
    held m = false := by
  have hmem := List.mem_of_getElem? ha.here
  rcases hc with ⟨copy, n, hseen, hst⟩ | hfound
  · have hcopies := ((actions_in_order ha.reached).threads _ hmem).knows hrole actionId
      copy n m (by
        change seen .managedAction actionId past = some (copy, n)
        rw [found]
        cases x with
        | error e => exact hseen
        | ok x =>
            exact (seen_find_of_ne (t := .managedAction) (u := .job) x nofun).trans
              hseen) hm
    by_contra hheld
    have hms := held_status (by simpa using hheld)
    exact hst ((hcopies m.status hms).mp rfl ▸ hms)
  · obtain ⟨managed, n, adapter, pre, hsuf, hrest⟩ := hfound
    refine absurd ⟨managed, n, adapter, pre, ?_, hrest⟩ (ha.knows hrole).automatic
    rw [found]
    exact hsuf.trans (List.suffix_cons _ _)

/-- A live execute job of a held action stays live, or another one does. -/
private theorem live_step
    (ha : (attendedDiscipline actionId).Acting (Attended actionId)
      ⟨untouchedSites pages, []⟩ c t ch k o f past r s)
    (hlive : LiveJob Executes c.shared.records actionId)
    {m : ManagedAction} (hm : s.records.latest .managedAction actionId = some m)
    (hup : held m = true) : LiveJob Executes s.records actionId := by
  rcases hlive.step kindOfJob_executes (job_effect_of ha) (job_kinds_kept ha.reached) with
    hlive | ⟨rest, basis, seenAt, job, hend⟩
  · exact hlive
  obtain ⟨x, hx, hex, -⟩ := hend.live
  have hmb : c.shared.records.latest .managedAction actionId = some m := by
    have hexec := ha.exec
    have hop := hend.op
    subst hop
    rw [Repository.latest, ← action_versions_of_job_write hexec]
    exact hm
  by_cases hgave : gaveOut job = true
  · exact ((attended_job ha hgave hend.op hx hex).2 m hmb hup).of_versions
      (hend.others (job_effect_of ha))
  · -- The job was completed: the action is past being carried out.
    have hdone := hend.completed (by simpa using hgave)
    obtain ⟨y, found⟩ := hend.found
    obtain ⟨works, -, finished⟩ := hend.cause.of_completed hdone
    have hheld : held m = false :=
      not_held_of_carried ha works found (finished.carried actionId hend.basisKind) hmb
    rw [hheld] at hup
    cases hup

private theorem held_inv
    (ha : (attendedDiscipline actionId).Acting (Attended actionId)
      ⟨untouchedSites pages, []⟩ c t ch k o f past r s) :
    HeldAttended actionId s.records := by
  intro m hm hup
  have hmem := List.mem_of_getElem? ha.here
  have heff := action_effect (Service.told_of_run ha.reached _ hmem)
    ha.permitted.1 ha.exec actionId
  refine live_step ha ?_ hm hup
  rcases heff.held ((actions_in_order ha.reached).inv actionId) hm hup with
    ⟨m', hm', hup'⟩ | ⟨hrole, job, n, hhand, hex⟩
  · exact ha.holds.inv m' hm' hup'
  · refine .of_latest ((ha.knows hrole).hand job n hhand hex) hex ?_
    rw [inHand_running hhand]
    rfl

/-- A write of a process that is not the worker's leaves a running execute job
of the action alone. -/
private theorem kept_by_others
    (ha : (attendedDiscipline actionId).Acting (Attended actionId)
      ⟨untouchedSites pages, []⟩ c t ch k o f past r s) (hk : k.works = false)
    {job : Job} (hex : Executes job actionId) (hran : job.status = .running)
    (hl : c.shared.records.latest .job job.jobId = some job) :
    s.records.latest .job job.jobId = some job := by
  cases job_effect_of ha job.jobId with
  | same same => rw [Repository.latest, same]; exact hl
  | create op fresh =>
      rw [Repository.latest, fresh] at hl
      cases hl
  | @update rest current basis job' seenAt op found hseen stored last id step cause =>
      rw [ActionKind.works, Bool.or_eq_false_iff, decide_eq_false_iff_not,
        decide_eq_false_iff_not] at hk
      cases cause with
      | start works => exact absurd works hk.1
      | finish works => exact absurd works hk.1
      | recover recovers => exact absurd recovers hk.2
      | cancel _ hst =>
          have hgave : gaveOut job' = true := by simp [gaveOut, hst]
          exact absurd hran ((attended_job ha hgave op hl hex).1 hst)

/-- The job a process has in hand is stored as it left it. -/
private theorem attended_hand_own
    (ha : (attendedDiscipline actionId).Acting (Attended actionId)
      ⟨untouchedSites pages, []⟩ c t ch k o f past r s)
    (hold : ∀ job n, inHand past = some (job, n) → Executes job actionId →
      c.shared.records.latest .job job.jobId = some job)
    {job : Job} {n : Nat} (hhand : inHand (⟨o, r⟩ :: past) = some (job, n))
    (hex : Executes job actionId) : s.records.latest .job job.jobId = some job := by
  rcases inHand_cons hhand with ⟨hev, hhand⟩ | ⟨i, version, hev, -⟩
  · have hl := hold job n hhand hex
    cases job_effect_of ha job.jobId with
    | same same => rw [Repository.latest, same]; exact hl
    | create op fresh =>
        rw [Repository.latest, fresh] at hl
        cases hl
    | update op =>
        subst op
        cases r <;> cases hev
  · cases hev
    obtain ⟨hc, -⟩ := Service.exec_commit_ok ha.exec
    obtain ⟨-, hs⟩ := Repository.apply_replace (Repository.commit_singleton.mp hc)
    obtain rfl : job.jobId = i := ha.permitted.2 _ List.mem_cons_self
    rw [Repository.latest, hs, Repository.versions_append_self, List.getLast?_concat]

/-- No adapter of a manual site is built for the action under way. -/
private theorem attended_automatic_own
    (ha : (attendedDiscipline actionId).Acting (Attended actionId)
      ⟨untouchedSites pages, []⟩ c t ch k o f past r s) (hrole : k.role = .worker) :
    ¬FoundUnderWay (⟨o, r⟩ :: past) actionId := by
  rintro ⟨managed, n, adapter, rest, hsuf, hseen, hst, hmanual⟩
  rcases List.suffix_cons_iff.mp hsuf with heq | hsuf
  case inr =>
    exact (ha.knows hrole).automatic
      ⟨managed, n, adapter, rest, hsuf, hseen, hst, hmanual⟩
  cases heq
  have hmem := List.mem_of_getElem? ha.here
  have horder := actions_in_order ha.reached
  have hcopy := Repository.mem_of_versionAt
    ((Service.told_of_run ha.reached _ hmem).seen hseen)
  obtain ⟨m, hm⟩ : ∃ m, c.shared.records.latest .managedAction actionId = some m :=
    Option.isSome_iff_exists.mp (List.getLast?_isSome.mpr (List.ne_nil_of_mem hcopy))
  have hway := ((horder.threads _ hmem).knows hrole actionId managed n m hseen hm
    .executing (by simp)).mpr hst
  obtain ⟨x, rfl, hx, -⟩ := Service.exec_ext ha.exec
  cases x with
  | adapter a =>
      obtain ⟨rfl, -⟩ : a = adapter ∧ c.shared.outside = s.outside := by
        simpa [siteExec] using hx
      have hop := attended_op ha m hm
        ((horder.inv actionId).siteId hcopy (List.mem_of_getLast? hm)) hway
      rw [hop] at hmanual
      cases hmanual
  | _ => cases hx

end Acting

theorem attendedDiscipline_sound {actionId : String}
    {pages : String → String → SitePage} :
    (attendedDiscipline actionId).Sound (Attended actionId)
      ⟨untouchedSites pages, []⟩ where
  symm h := fun ⟨h₁, h₂⟩ => h ⟨h₂, h₁⟩
  admits h _ hk' _ := ActionKind.one_worker h hk'
  body := actionTerms_kept
  start _ _ _ := ⟨fun _ _ h => (by cases h), fun ⟨_, _, _, _, hsuf, _⟩ => by
    cases List.suffix_nil.mp hsuf⟩
  trusted ha := (Service.valid_of_run actionTerms_kept
    (fun _ _ _ hv => absurd hv List.not_mem_nil) ha.reached).reads ha.exec
  inv := held_inv
  own ha hrole := ⟨fun _ _ => attended_hand_own ha (ha.knows hrole).hand,
    attended_automatic_own ha hrole⟩
  frame ha th hth hco hk hrole := by
    refine ⟨fun job n hhand hex => ?_, (hk hrole).automatic⟩
    refine kept_by_others ha ?_ hex (inHand_running hhand)
      ((hk hrole).hand job n hhand hex)
    exact Bool.eq_false_of_not_eq_true fun h =>
      hco ⟨h, ActionKind.works_of_worker hrole⟩
  together _ _ _ hco _ := hco
  envInv _ hh _ hs := by
    obtain ⟨s, -, rfl⟩ := Service.change_cases hs
    exact hh.inv
  envFrame _ _ _ hs _ _ hk := by
    obtain ⟨s, -, rfl⟩ := Service.change_cases hs
    exact hk

/-- While every operation attends to an action, the action has, whenever it is
held, an execute job that is queued or running. -/
theorem held_actions_attended {actionId : String}
    {pages : String → String → SitePage} {c : Config actionMachine}
    (hr : Run (Attended actionId) ⟨untouchedSites pages, []⟩ c) :
    HeldAttended actionId c.shared.records :=
  (attendedDiscipline_sound.sound (.of_no_process (D := attendedDiscipline actionId)
    fun _ h => (by cases h)) hr).inv

/-! ## A cancellation in between -/

/-- The page cannot be read: the delivery fails and its job is requeued. -/
def unreadByWorker (t : Nat) : List (Move (M := actionMachine)) :=
  [.act t (.ext (.raises ⟨.other "TimeoutError", "timed out"⟩)), .act t .done,
    .act t (.clock 4), .act t .done, .act t .done, .act t (.clock 5), .act t .done,
    .act t .done]

/-- The request to cancel the job. -/
def cancelled (t : Nat) : List (Move (M := actionMachine)) :=
  [.spawn (.cancelJob "j1" "t"), .act t .done, .act t (.clock 6), .act t .done,
    .act t .done]

/-- The status of a held action, and whether it has its job. -/
def heldStatus (c : Config actionMachine) (actionId : String) :
    Option ActionStatus × Bool :=
  (((c.shared.records.latest .managedAction actionId).filter held).map
    ManagedAction.status, decide (LiveJob Executes c.shared.records actionId))

theorem heldStatus_mem {c : Config actionMachine} {actionId : String}
    {st : ActionStatus} {live : Bool} (h : heldStatus c actionId = (some st, live)) :
    ∃ m, c.shared.records.latest .managedAction actionId = some m ∧ held m = true ∧
      m.status = st := by
  obtain ⟨m, hm, hst⟩ := Option.map_eq_some_iff.mp (Prod.mk.inj h).1
  obtain ⟨hl, hup⟩ := Option.filter_eq_some_iff.mp hm
  exact ⟨m, hl, hup, hst⟩

set_option maxRecDepth 20000 in
theorem held_actions_attended_retried : ∃ c : Config actionMachine,
    (heldStatus c "action:j0").1 = some .executing ∧
      HeldAttended "action:j0" c.shared.records := by
  have h : (firesIf (Attended "action:j0")
      ⟨untouchedSites (sameEverywhere "T" "Old"), []⟩
      (approvedDescription (some "Old") "New" ++ claimedByWorker 2 ++
        unreadByWorker 2)).map (fun c => (heldStatus c "action:j0").1) =
      some (some .executing) := by decide
  obtain ⟨c, hc, hs⟩ := Option.map_eq_some_iff.mp h
  exact ⟨c, hs, held_actions_attended (Run.of_good_moves hc)⟩

set_option maxRecDepth 20000 in
/-- A job cancelled between two deliveries leaves its action under way. -/
theorem cancelled_while_held : ∃ c : Config actionMachine,
    Run anyMove ⟨untouchedSites (sameEverywhere "T" "Old"), []⟩ c ∧
      ¬HeldAttended "action:j0" c.shared.records := by
  have h : (fires ⟨untouchedSites (sameEverywhere "T" "Old"), []⟩
      (approvedDescription (some "Old") "New" ++ claimedByWorker 2 ++
        unreadByWorker 2 ++ cancelled 3)).map (heldStatus · "action:j0") =
      some (some .executing, false) := by decide
  obtain ⟨c, hc, hs⟩ := Option.map_eq_some_iff.mp h
  obtain ⟨m, hm, hup, -⟩ := heldStatus_mem hs
  exact ⟨c, Run.of_moves hc, fun hheld =>
    of_decide_eq_false (Prod.mk.inj hs).2 (hheld m hm hup)⟩

end SeoAgent.Ports
