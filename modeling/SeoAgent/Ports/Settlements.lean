import SeoAgent.Ports.Rollbacks

/-!
# Settling an action that was measured

A measurement round reads an action, decides what its change did, and commits
the outcome, the action and what is to be learned in one transaction. Several
rounds may have read the same version, and a rollback may be asked for in
between: the transaction is refused unless the history it extends is still the
stored one, and the outcome and the event are made once.

A round settles nothing while a rollback is pending. A pending rollback is
cleared by the delivery that gives it up, also when another rollback job of the
action is still to come; `RollbacksAlone` is the condition that excludes this.

## Main results

* `settlements` — settlement happens once, with its records, over every run in
  which a rollback is given up only when it is the last one.
* `settled_while_asked` — a round settles an action with a rollback to come.
-/

namespace SeoAgent.Ports

open Verified Verified.Machine
open Service (Op iface World)

/-! ## What a settlement leaves -/

/-- The entries of a history that record a settlement. -/
def settledEntries (managed : ManagedAction) : List ActionEvent :=
  managed.history.filter fun e => entryMark e.reason = some .settled

/-- An action was settled. -/
def Settled (managed : ManagedAction) : Prop :=
  ∃ e ∈ managed.history, entryMark e.reason = some .settled

/-- The stored action was settled. -/
def SettledNow (r : Records) (actionId : String) : Prop :=
  ∃ m, r.latest .managedAction actionId = some m ∧ Settled m

instance (managed : ManagedAction) : Decidable (Settled managed) := by
  unfold Settled
  infer_instance

/-- The statuses an action has from its settlement on. -/
def concludedStatuses : List ActionStatus :=
  [.succeeded, .failed, .inconclusive, .rolledBack]

/-- A settlement is recorded once, with what it concluded. -/
structure SettledOnce (managed : ManagedAction) : Prop where
  concluded : ∀ e ∈ managed.history, entryMark e.reason = some .settled →
    e.status ∈ [ActionStatus.succeeded, .failed, .inconclusive]
  once : (settledEntries managed).length ≤ 1

theorem Follows.concluded {a b : ActionStatus} (h : Follows a b)
    (ha : a ∈ concludedStatuses) : b ∈ concludedStatuses := by
  rcases h with rfl | h
  · exact ha
  · revert ha h
    unfold concludedStatuses
    cases a <;> cases b <;> decide

theorem settledEntries_eq_nil {m : ManagedAction} (h : ¬Settled m) :
    settledEntries m = [] := by
  rw [settledEntries, List.filter_eq_nil_iff]
  intro e he hm
  exact h ⟨e, he, by simpa using hm⟩

section Steps
variable {role : JobRole} {past : ActionPast} {b v : ManagedAction}

/-- What is being evaluated was not settled. -/
theorem SettledOnce.evaluating (h : SettledOnce b) (hb : Lifecycle b)
    (hst : b.status = .evaluating) : ¬Settled b := by
  rintro ⟨e, he, hm⟩
  have hmem : e.status ∈ b.statuses := List.mem_map.mpr ⟨e, he, rfl⟩
  have hconcluded : e.status ∈ concludedStatuses := by
    have := h.concluded e he hm
    unfold concludedStatuses
    simp only [List.mem_cons, List.not_mem_nil, or_false] at this ⊢
    rcases this with this | this | this <;> simp [this]
  have hlast := getLast?_of_isChain (P := fun s => s ∈ concludedStatuses)
    (fun _ _ h ha => h.concluded ha) hb.moves hmem hconcluded b.status hb.last
  rw [hst] at hlast
  revert hlast
  decide

theorem SettledOnce.step (h : SettledOnce b) (hb : Lifecycle b)
    (hs : ActionStep role past b v) : SettledOnce v := by
  obtain ⟨e, he, hh, -, hby⟩ := hs.event
  by_cases hm : entryMark e.reason = some .settled
  · obtain ⟨-, hst, hconcluded⟩ := hby.of_settled hm
    refine ⟨fun e' he' hm' => ?_, ?_⟩
    · rw [hh] at he'
      rcases List.mem_append.mp he' with he' | he'
      · exact h.concluded e' he' hm'
      · exact List.mem_singleton.mp he' ▸ hconcluded
    · have hnone := settledEntries_eq_nil (h.evaluating hb hst)
      unfold settledEntries at hnone ⊢
      rw [hh, List.filter_append, hnone]
      exact List.length_filter_le _ _
  · refine ⟨fun e' he' hm' => ?_, ?_⟩
    · rw [hh] at he'
      rcases List.mem_append.mp he' with he' | he'
      · exact h.concluded e' he' hm'
      · exact absurd (List.mem_singleton.mp he' ▸ hm') hm
    · unfold settledEntries
      rw [hh, List.filter_append, List.filter_cons_of_neg (by simpa using hm)]
      simpa [settledEntries] using h.once

theorem SettledOnce.write (h : SettledOnce b) (hb : Lifecycle b)
    (hw : ActionWrite role past b v) : SettledOnce v := by
  cases hw with
  | one step => exact h.step hb step
  | two first second => exact (h.step hb first).step (hb.step first) second

theorem SettledOnce.of_unmarked (h : ∀ e ∈ v.history, entryMark e.reason = none) :
    SettledOnce v where
  concluded e he hm := by
    rw [h e he] at hm
    cases hm
  once := by
    rw [settledEntries_eq_nil fun ⟨e, he, hm⟩ => by rw [h e he] at hm; cases hm]
    exact Nat.zero_le _

end Steps

/-- What is settled was not rolled back, and no rollback is pending for it. -/
theorem settled_of_settlement {b v : ManagedAction} {outcome : Outcome} {t₁ t₂ : Int}
    (h : applySettlement b outcome t₁ t₂ = .ok v) :
    ∃ e ∈ addedEntries b v, entryMark e.reason = some .settled := by
  obtain ⟨m, hm, h⟩ := bind_eq_ok.mp h
  obtain ⟨settled, -, h⟩ := bind_eq_ok.mp h
  obtain ⟨e, he, hr, -, hv⟩ := record_ok h
  refine ⟨e, ?_, by rw [hr]; cases outcome.status <;> decide⟩
  have hmh : b.history <+: m.history := by
    unfold evaluating at hm
    split at hm
    · obtain ⟨action, -, hm⟩ := bind_eq_ok.mp hm
      obtain ⟨e', -, -, -, hm'⟩ := record_ok hm
      rw [hm']
      exact List.prefix_append _ _
    · cases hm
      exact List.prefix_refl _
  obtain ⟨between, hbetween⟩ := hmh
  have hvh : v.history = b.history ++ (between ++ [e]) := by
    rw [hv, ← List.append_assoc, hbetween]
  rw [addedEntries, hvh, List.drop_left]
  simp

/-! ## What a round commits -/

/-- What one operation does to outcomes and feedback: nothing, or it settles an
action, with the transaction of a round. -/
inductive RoundEffect (role : JobRole) (past : ActionPast)
    (o : Op backend actionSite) (before after : Records) : Prop
  | same (outcomes : ∀ i, after.versions .actionOutcome i =
        before.versions .actionOutcome i)
      (feedback : ∀ i, after.versions .learningFeedback i =
        before.versions .learningFeedback i)
      (idle : ∀ i outcome ws, o = .commit (.ensure .actionOutcome i outcome :: ws) →
        after = before)
  | settle {rest : ActionPast} {basis current managed : ManagedAction} {version : Nat}
      {outcome : Outcome} {t₁ t₂ : Int} {ws : Writes}
      (replacing : Replacing role past rest basis current managed version)
      (settles : applySettlement basis outcome t₁ t₂ = .ok managed)
      (feedback : feedbackWrites basis managed outcome = .ok ws)
      (committed : before.commit (.ensure .actionOutcome basis.actionId outcome ::
        .replace .managedAction managed.actionId managed version :: ws) = .ok after)

theorem round_effect {w w' : World backend actionSite} {role : JobRole}
    {past : ActionPast} {o : Op backend actionSite} {ch : ProcChoice actionSite}
    {r : Except Exc o.Res} (hp : actionPermits role past o)
    (he : Service.exec w o ch = some (r, w')) :
    RoundEffect role past o w.records w'.records := by
  rcases Service.exec_records he with heq | ⟨ws, rfl, hc⟩
  · exact .same (fun i => by rw [heq]) (fun i => by rw [heq]) fun _ _ _ _ => heq
  have hsame : (∀ x ∈ ws, ∀ i, x.target ≠ (.actionOutcome, i) ∧
      x.target ≠ (.learningFeedback, i)) →
      RoundEffect role past (.commit ws) w.records w'.records := by
    refine fun h => .same
      (fun i => Repository.commit_versions_of_ne hc fun x hx => (h x hx i).1)
      (fun i => Repository.commit_versions_of_ne hc fun x hx => (h x hx i).2)
      fun i outcome ws' ho => ?_
    cases ho
    exact absurd rfl (h _ List.mem_cons_self i).1
  have hcommit : ActionCommit role past ws := hp
  cases hcommit with
  | propose =>
      refine hsame fun x hx i => ?_
      obtain rfl := List.mem_singleton.mp hx
      exact ⟨nofun, nofun⟩
  | update =>
      refine hsame fun x hx i => ?_
      obtain rfl := List.mem_singleton.mp hx
      exact ⟨nofun, nofun⟩
  | updateWithJob =>
      refine hsame fun x hx i => ?_
      rcases List.mem_cons.mp hx with rfl | hx
      · exact ⟨nofun, nofun⟩
      · obtain rfl := List.mem_singleton.mp hx
        exact ⟨nofun, nofun⟩
  | settle measures replacing settles free feedback =>
      exact .settle replacing settles feedback hc
  | job write =>
      refine hsame fun x hx i => ?_
      cases write with
      | create => obtain rfl := List.mem_singleton.mp hx; exact ⟨nofun, nofun⟩
      | update => obtain rfl := List.mem_singleton.mp hx; exact ⟨nofun, nofun⟩

section Round
variable {r s : Records} {b m v : ManagedAction} {n : Nat} {outcome : Outcome}
  {ws : Writes}

/-- The records after the transaction of a round. -/
structure RoundMade (r s : Records) (actionId : String) (managed : ManagedAction)
    (ws : Writes) : Prop where
  outcome : s.versions .actionOutcome actionId ≠ []
  outcomes : ∀ i ≠ actionId, s.versions .actionOutcome i = r.versions .actionOutcome i
  action : s.latest .managedAction managed.actionId = some managed
  actions : ∀ i ≠ managed.actionId,
    s.versions .managedAction i = r.versions .managedAction i
  feedback : ∀ i, s.versions .learningFeedback i = r.versions .learningFeedback i ∨
    ∃ event, ws = [.ensure .learningFeedback i event] ∧
      r.versions .learningFeedback i = [] ∧ s.versions .learningFeedback i = [event]

theorem roundMade_of_commit (hf : feedbackWrites b m outcome = .ok ws)
    (hc : r.commit (.ensure .actionOutcome b.actionId outcome ::
      .replace .managedAction m.actionId m n :: ws) = .ok s) :
    RoundMade r s b.actionId m ws := by
  obtain ⟨u, hu, hc⟩ := Repository.commit_cons.mp hc
  obtain ⟨u', hu', hc⟩ := Repository.commit_cons.mp hc
  have hws := feedbackWrites_mem hf
  have hlater : ∀ t i, t ≠ .learningFeedback → s.versions t i = u'.versions t i := by
    intro t i ht
    refine Repository.commit_versions_of_ne hc fun x hx he => ht ?_
    obtain ⟨event, rfl⟩ := hws x hx
    exact (Prod.mk.inj he).1.symm
  have houtcomes : ∀ i, s.versions .actionOutcome i = u.versions .actionOutcome i := by
    intro i
    rw [hlater .actionOutcome i (by simp)]
    exact Repository.apply_versions_of_ne hu' (by simp [Repository.Write.target])
  have hfeedback : ∀ i, u'.versions .learningFeedback i =
      r.versions .learningFeedback i := by
    intro i
    have hkept : u.versions .learningFeedback i = r.versions .learningFeedback i :=
      Repository.apply_versions_of_ne hu (by simp [Repository.Write.target])
    rw [← hkept]
    exact Repository.apply_versions_of_ne hu' (by simp [Repository.Write.target])
  refine ⟨?_, fun i hi => ?_, ?_, fun i hi => ?_, fun i => ?_⟩
  · rw [houtcomes]
    cases Repository.applied_of_apply hu with
    | ensure fresh => rw [Repository.versions_append_self]; simp
    | same there =>
        intro hnil
        rw [hnil] at there
        cases there
  · rw [houtcomes]
    refine Repository.apply_versions_of_ne hu fun he => hi ?_
    exact (Prod.mk.inj he).2.symm
  · obtain ⟨-, hm⟩ := Repository.apply_replace hu'
    rw [Repository.latest, hlater .managedAction _ (by simp), hm, Repository.versions_append_self,
      List.getLast?_concat]
  · rw [hlater .managedAction i (by simp)]
    refine (Repository.apply_versions_of_ne hu' fun he => hi ?_).trans
      (Repository.apply_versions_of_ne hu (by simp [Repository.Write.target]))
    exact (Prod.mk.inj he).2.symm
  · unfold feedbackWrites at hf
    split at hf
    · cases hf
      cases hc
      exact .inl (hfeedback i)
    · obtain ⟨event, -, hf⟩ := bind_eq_ok.mp hf
      cases hf
      have happly := Repository.commit_singleton.mp hc
      by_cases hi : event.feedbackId = i
      · subst hi
        rw [← hfeedback]
        cases Repository.applied_of_apply happly with
        | ensure fresh =>
            refine .inr ⟨event, rfl, fresh, ?_⟩
            rw [Repository.versions_append_self, fresh]
            rfl
        | same there => exact .inl rfl
      · refine .inl ((Repository.apply_versions_of_ne happly fun he => hi ?_).trans
          (hfeedback i))
        exact (Prod.mk.inj he).2

/-- What a round keeps for learning is about the action it settles, under one
id, and nothing for a page-level change. -/
theorem feedback_of_round {event : FeedbackEvent} {i : String}
    (hf : feedbackWrites b m outcome = .ok [.ensure .learningFeedback i event]) :
    i = feedbackIdFor b.actionId ∧ event.actionId = m.actionId ∧
      pageLevel b.action.actionType = false := by
  unfold feedbackWrites at hf
  split at hf
  · cases hf
  next hpage =>
  obtain ⟨event', he, hf⟩ := bind_eq_ok.mp hf
  obtain ⟨rfl, rfl⟩ : event'.feedbackId = i ∧ event' = event := by
    have := Except.ok.inj hf
    simp only [List.cons.injEq, Repository.Write.ensure.injEq, heq_eq_eq, true_and,
      and_true] at this
    exact this
  unfold buildFeedbackEvent at he
  split at he
  · cases he
  split at he
  · cases he
  split at he
  · cases he
  split at he
  · cases he
  · cases he
    exact ⟨rfl, rfl, by simpa using hpage⟩

end Round

/-! ## Rollbacks to come -/

/-- A rollback of the stored action is pending. -/
def Pending (r : Records) (actionId : String) : Prop :=
  ∃ m, r.latest .managedAction actionId = some m ∧ rollbackPending m = true

/-- A stored job that undoes the action is queued or running. -/
def Unfinished (r : Records) (actionId i : String) (job : Job) : Prop :=
  r.latest .job i = some job ∧ Undoes job actionId ∧ job.status.terminal = false

/-- A rollback that was asked for is still to come: its job is queued or running,
and the rollback is pending, the job was never started, or it is not the only
one. The job of a delivery that gave up is the only one, was started, and is
not pending. -/
def OpenRollback (r : Records) (actionId : String) : Prop :=
  ∃ i job, Unfinished r actionId i job ∧ (Pending r actionId ∨ job.attemptCount = 0 ∨
    ∃ j other, Unfinished r actionId j other ∧ j ≠ i)

/-- The entries a write adds to the stored history. -/
def newEntries (r : Records) (managed : ManagedAction) : List ActionEvent :=
  managed.history.drop
    (((r.latest .managedAction managed.actionId).map fun m => m.history.length).getD 0)

/-- A delivery that records that a rollback of the action gave up has the only job
in hand that undoes it. -/
def AloneOp (actionId : String) (c : Config actionMachine) (_ : ActionKind)
    (past : ActionPast) : Op backend actionSite → ProcChoice actionSite → Prop
  | .commit [.replace .managedAction i managed n], _ =>
      managed.actionId = actionId → (c.shared.records.versions .managedAction i).length = n →
        (∃ e ∈ newEntries c.shared.records managed, entryMark e.reason = some .gaveUp) →
          ∀ x ∈ inHand past, ¬LiveBeside Undoes c.shared.records x.1.jobId actionId
  | _, _ => True

/-- A rollback of the action is given up only when no other one is to come. -/
def RollbacksAlone (actionId : String) : Condition actionMachine :=
  eachOp (AloneOp actionId)

instance (actionId : String) (c : Config actionMachine) (k : ActionKind)
    (past : ActionPast) (o : (Service.iface backend actionSite).Op)
    (ch : Service.Choice (B := backend) actionSite) :
    Decidable (AloneOp actionId c k past o ch) := by
  unfold AloneOp
  split <;> infer_instance

instance (actionId : String) (c : Config actionMachine)
    (m : Move (M := actionMachine)) : Decidable (RollbacksAlone actionId c m) :=
  inferInstanceAs (Decidable (eachOp _ c m))

theorem pendingAmong_append {new old : List ActionEvent}
    (hnew : ∀ e ∈ new, entryMark e.reason ≠ some .gaveUp)
    (h : pendingAmong old = true) : pendingAmong (new ++ old) = true := by
  induction new with
  | nil => exact h
  | cons e new ih =>
      rw [List.cons_append, pendingAmong]
      by_cases hreq : e.reason = "rollback_requested"
      · rw [if_pos hreq]
      rw [if_neg hreq, if_neg fun hg => hnew e List.mem_cons_self (entryMark_gaveUp hg)]
      exact ih fun e' he' => hnew e' (List.mem_cons_of_mem _ he')

theorem pendingAmong_append_of_settling {new old : List ActionEvent}
    (hnew : ∀ e ∈ new, entryMark e.reason ≠ some .gaveUp ∧
      entryMark e.reason ≠ some .asked) :
    pendingAmong (new ++ old) = pendingAmong old := by
  induction new with
  | nil => rfl
  | cons e new ih =>
      obtain ⟨hg, ha⟩ := hnew e List.mem_cons_self
      rw [List.cons_append, pendingAmong, if_neg fun h => ha (entryMark_asked_iff.mpr h),
        if_neg fun h => hg (entryMark_gaveUp h)]
      exact ih fun e' he' => hnew e' (List.mem_cons_of_mem _ he')

/-- A pending rollback stays pending, or the operation is the write of a worker
that records that it gave up. -/
theorem Pending.step {role : JobRole} {past : ActionPast} {o : Op backend actionSite}
    {actionId : String} {r s : Records}
    (hrec : ActionRecord (r.versions .managedAction actionId))
    (he : ActionEffect role past o actionId (r.versions .managedAction actionId)
      (s.versions .managedAction actionId)) (h : Pending r actionId) :
    Pending s actionId ∨
      role = .worker ∧ HasInHand Undoes past actionId ∧
        ∃ managed : ManagedAction, managed.actionId = actionId ∧
          (∃ e ∈ newEntries r managed, entryMark e.reason = some .gaveUp) ∧
          o = .commit [.replace .managedAction managed.actionId managed
            (r.versions .managedAction actionId).length] := by
  obtain ⟨m, hm, hp⟩ := h
  cases he with
  | same same => exact .inl ⟨m, by rw [Repository.latest, same]; exact hm, hp⟩
  | propose fresh =>
      rw [Repository.latest, fresh] at hm
      cases hm
  | @update rest basis current managed replacing stored last id made plain =>
      obtain rfl : current = m := Option.some.inj (last.symm.trans hm)
      obtain ⟨new, hnew, hadded⟩ := replacing.added (hrec.prefix_last stored last)
      by_cases hgave : ∃ e ∈ new, entryMark e.reason = some .gaveUp
      · obtain ⟨e, he, hmark⟩ := hgave
        obtain ⟨hrole, hhand⟩ := replacing.write.gaveUp (hadded e he) hmark
        refine .inr ⟨hrole, ?_, managed, id, ⟨e, ?_, hmark⟩, plain hrole⟩
        · rw [← replacing.write.actionId, id] at hhand
          exact replacing.found ▸ hhand.cons_find
        · rw [newEntries, id, hm, Option.map_some, Option.getD_some, hnew,
            List.drop_left]
          exact he
      · refine .inl ⟨managed, ?_, ?_⟩
        · rw [Repository.latest, made, List.getLast?_concat]
        · rw [rollbackPending, hnew, List.reverse_append]
          refine pendingAmong_append (fun e he hm => hgave ⟨e, ?_, hm⟩) hp
          exact List.mem_reverse.mp he

/-- An action is settled by the transaction of a round, or it was before. -/
theorem ActionEffect.settledNow {role : JobRole} {past : ActionPast}
    {o : Op backend actionSite} {actionId : String} {r s : Records}
    (hrec : ActionRecord (r.versions .managedAction actionId))
    (he : ActionEffect role past o actionId (r.versions .managedAction actionId)
      (s.versions .managedAction actionId)) :
    (SettledNow s actionId ↔ SettledNow r actionId) ∨
      role = .measurement ∧ ∃ rest basis current managed,
        Replacing role past rest basis current managed
          (r.versions .managedAction actionId).length ∧
        basis ∈ r.versions .managedAction actionId ∧
        r.latest .managedAction actionId = some current ∧
        s.latest .managedAction actionId = some managed ∧
        Settling o basis managed (r.versions .managedAction actionId).length := by
  cases he with
  | same same =>
      refine .inl ?_
      rw [SettledNow, SettledNow, Repository.latest, Repository.latest, same]
  | propose fresh id proposed made =>
      refine .inl ⟨fun h => ?_, fun h => ?_⟩
      · obtain ⟨m, hm, e, he, hmark⟩ := h
        rw [Repository.latest, made] at hm
        obtain rfl := Option.some.inj hm
        rw [proposed.unmarked e he] at hmark
        cases hmark
      · obtain ⟨m, hm, -⟩ := h
        rw [Repository.latest, fresh] at hm
        cases hm
  | @update rest basis current managed replacing stored last id made plain asked settling =>
      have hnow : s.latest .managedAction actionId = some managed := by
        rw [Repository.latest, made, List.getLast?_concat]
      by_cases hrole : role = .measurement
      · exact .inr ⟨hrole, rest, basis, current, managed, replacing, stored, last, hnow,
          settling hrole⟩
      refine .inl ⟨fun h => ?_, fun h => ?_⟩
      · obtain ⟨m, hm, e, he, hmark⟩ := h
        obtain rfl := Option.some.inj (hnow.symm.trans hm)
        obtain ⟨new, hnew, hadded⟩ := replacing.added (hrec.prefix_last stored last)
        rw [hnew] at he
        rcases List.mem_append.mp he with he | he
        · exact ⟨current, last, e, he, hmark⟩
        · exact absurd (replacing.write.settled (hadded e he) hmark) hrole
      · obtain ⟨m, hm, e, he, hmark⟩ := h
        obtain rfl := Option.some.inj (last.symm.trans hm)
        exact ⟨managed, hnow, e, replacing.extended.subset he, hmark⟩

/-! ## The discipline -/

/-- A process has seen a job that undoes the action queued or running. -/
def SeenUnfinished (past : ActionPast) (actionId i : String) (job : Job) : Prop :=
  ∃ rest n, rest <:+ past ∧ seen .job i rest = some (job, n) ∧ Undoes job actionId ∧
    job.status.terminal = false

/-- At most one job is there, and it was started. -/
def AtMostOne (jobs : String → Job → Prop) : Prop :=
  ∃ i, ∀ j job, jobs j job → j = i ∧ job.attemptCount ≠ 0

/-- Settlements are recorded once, with their outcome and what was learned, and
when no rollback is pending at most one is unfinished. -/
structure SettlementsHeld (actionId : String) (r : Records) : Prop where
  once : ∀ v ∈ r.versions .managedAction actionId, SettledOnce v
  outcome : r.versions .actionOutcome actionId ≠ [] ↔ SettledNow r actionId
  feedback : ∀ i, ∀ event ∈ r.versions .learningFeedback i, event.actionId = actionId →
    i = feedbackIdFor actionId ∧ ∃ m ∈ r.versions .managedAction actionId,
      pageLevel m.action.actionType = false
  feedbackOnce : ∀ i, (r.versions .learningFeedback i).length ≤ 1
  jobs : Pending r actionId ∨ AtMostOne (Unfinished r actionId)

/-- What a worker or a recovery knows of the jobs it may write. -/
structure RollbackKnown (actionId : String) (role : JobRole) (r : Records)
    (past : ActionPast) : Prop where
  hand : role = .worker → ∀ job n, inHand past = some (job, n) → Undoes job actionId →
    job.attemptCount ≠ 0 ∧
      (∀ x, Unfinished r actionId job.jobId x → x.attemptCount ≠ 0) ∧
      (Pending r actionId ∨ ∀ i x, Unfinished r actionId i x → i = job.jobId)
  opening : role = .recovery ∨ Opening past → Pending r actionId ∨
    AtMostOne fun i x => Unfinished r actionId i x ∨ SeenUnfinished past actionId i x

@[reducible] def settlementDiscipline (actionId : String) : Discipline actionMachine where
  inv := fun w => SettlementsHeld actionId w.records
  knows := fun k w past => k.works = true → RollbackKnown actionId k.role w.records past
  contract := actionTerms.contract
  coexist := fun k _ k' _ => ¬(k.works = true ∧ k'.works = true)

/-- A process writes a job that undoes the action from what it has seen of it. -/
structure Rewrites (actionId : String) (role : JobRole) (past : ActionPast)
    (o : Op backend actionSite) (i : String) (job : Job) (rest : ActionPast)
    (basis : Job) (seenAt : Nat) : Prop where
  op : ∃ n, o = .commit [.replace .job job.jobId job n]
  id : job.jobId = i
  suffix : rest <:+ past
  hand : inHand past = inHand rest
  opening : Opening rest → Opening past
  seen : seen .job i rest = some (basis, seenAt)
  kind : Undoes basis actionId
  step : Job.Transition basis job
  cause : JobCause (completing Finished) role rest basis seenAt job

/-- One operation writes one job. -/
theorem Rewrites.only {actionId i j : String} {role : JobRole} {past : ActionPast}
    {o : Op backend actionSite} {x y basis basis' : Job} {rest rest' : ActionPast}
    {n m : Nat} (h : Rewrites actionId role past o j y rest basis n)
    (h' : Rewrites actionId role past o i x rest' basis' m) : j = i ∧ y = x := by
  obtain ⟨v, ho⟩ := h.op
  obtain ⟨v', ho'⟩ := h'.op
  have heq := ho.symm.trans ho'
  simp only [Op.commit.injEq, List.cons.injEq, Repository.Write.replace.injEq,
    heq_eq_eq, true_and, and_true] at heq
  obtain ⟨-, rfl, -⟩ := heq
  exact ⟨h.id.symm.trans h'.id, rfl⟩

section Acting
variable {actionId : String} {pages : String → String → SitePage}
  {c : Config actionMachine} {t : Nat} {ch : ProcChoice actionSite} {k : ActionKind}
  {o : Op backend actionSite} {f : Except Exc o.Res → ActionProc Unit}
  {past : ActionPast} {r : Except Exc o.Res} {s : World backend actionSite}

private theorem settlement_jobs
    (ha : (settlementDiscipline actionId).Acting (RollbacksAlone actionId)
      ⟨untouchedSites pages, []⟩ c t ch k o f past r s) (jobId : String) :
    ActionJobEffect k.role past o jobId (c.shared.records.versions .job jobId)
      (s.records.versions .job jobId) :=
  action_job_effect (Service.told_of_run ha.reached _ (List.mem_of_getElem? ha.here))
    ha.permitted.1 ha.exec jobId

private theorem settlement_actions
    (ha : (settlementDiscipline actionId).Acting (RollbacksAlone actionId)
      ⟨untouchedSites pages, []⟩ c t ch k o f past r s) :
    ActionEffect k.role past o actionId
      (c.shared.records.versions .managedAction actionId)
      (s.records.versions .managedAction actionId) :=
  action_effect (Service.told_of_run ha.reached _ (List.mem_of_getElem? ha.here))
    ha.permitted.1 ha.exec actionId

/-- A pending rollback stays pending, or a worker gave it up and it had the only
job that undoes the action in hand. -/
private theorem pending_step
    (ha : (settlementDiscipline actionId).Acting (RollbacksAlone actionId)
      ⟨untouchedSites pages, []⟩ c t ch k o f past r s)
    (h : Pending c.shared.records actionId) :
    Pending s.records actionId ∨
      k.role = .worker ∧
      (∃ managed : ManagedAction, ∃ n,
        o = .commit [.replace .managedAction managed.actionId managed n]) ∧
      ∃ job n, inHand past = some (job, n) ∧ Undoes job actionId ∧
        ∀ i x, Unfinished c.shared.records actionId i x → i = job.jobId := by
  rcases h.step ((actions_in_order ha.reached).inv actionId) (settlement_actions ha) with
    h | ⟨hrole, ⟨job, n, hhand, hun⟩, managed, hid, hnew, ho⟩
  · exact .inl h
  · refine .inr ⟨hrole, ⟨managed, _, ho⟩, job, n, hhand, hun, fun i x hx => ?_⟩
    have hop := eachOp_act ha.ok ha.here
    subst ho
    by_contra hne
    exact hop hid (by rw [hid]) hnew (job, n) hhand (.of_latest hne hx.1 hx.2.1 hx.2.2)

/-- How a job comes to be unfinished: it is not written, it is made with its
request, or it is written by a process that had seen it so. -/
private theorem unfinished_written
    (ha : (settlementDiscipline actionId).Acting (RollbacksAlone actionId)
      ⟨untouchedSites pages, []⟩ c t ch k o f past r s) {i : String} {x : Job}
    (hx : Unfinished s.records actionId i x) :
    s.records.versions .job i = c.shared.records.versions .job i ∨
      (c.shared.records.versions .job i = [] ∧ Pending s.records actionId) ∨
      ∃ rest basis seenAt, Rewrites actionId k.role past o i x rest basis seenAt := by
  obtain ⟨hl, hun, hlive⟩ := hx
  cases settlement_jobs ha i with
  | same same => exact .inl same
  | @create managed version job op fresh id beside made =>
      refine .inr (.inl ?_)
      obtain rfl : job = x := by
        rw [Repository.latest, made] at hl
        exact Option.some.inj hl
      rcases beside.what with hex | ⟨hun', hpending⟩
      · exact absurd (hex.1.symm.trans hun.1) (by decide)
      · have hexec := ha.exec
        subst op id
        have hid : managed.actionId = actionId :=
          Except.ok.inj (hun'.2.symm.trans hun.2)
        rcases job_of_decision hexec with heq | ⟨-, -, hm⟩
        · rw [heq, Repository.latest, fresh] at hl
          cases hl
        · exact ⟨fresh, managed, hid ▸ hm, hpending⟩
  | @update rest current basis job seenAt op found hseen stored last id step cause made =>
      obtain rfl : job = x := by
        rw [Repository.latest, made, List.getLast?_concat] at hl
        exact Option.some.inj hl
      exact .inr (.inr ⟨rest, basis, seenAt,
        { op := ⟨_, op.trans (by rw [id])⟩
          id := id
          suffix := found ▸ List.suffix_cons _ _
          hand := by rw [found, inHand_find]
          opening := fun hopening ev hev => by
            rw [found] at hev
            rcases List.mem_cons.mp hev with rfl | hev
            · trivial
            · exact hopening ev hev
          seen := hseen
          kind := kindOfJob_undoes _ _ _ step.jobType.symm step.payload.symm hun
          step := step
          cause := cause }⟩)

private theorem unfinished_after
    (ha : (settlementDiscipline actionId).Acting (RollbacksAlone actionId)
      ⟨untouchedSites pages, []⟩ c t ch k o f past r s) {i : String} {x : Job}
    (hx : Unfinished s.records actionId i x) :
    Unfinished c.shared.records actionId i x ∨
      (c.shared.records.versions .job i = [] ∧ Pending s.records actionId) ∨
      ∃ rest basis seenAt, Rewrites actionId k.role past o i x rest basis seenAt := by
  refine (unfinished_written ha hx).imp_left fun hsame => ?_
  obtain ⟨hl, hrest⟩ := hx
  rw [Repository.latest, hsame] at hl
  exact ⟨hl, hrest⟩

/-- What a process writes unfinished is the only job that undoes the action. -/
private theorem writer_alone
    (ha : (settlementDiscipline actionId).Acting (RollbacksAlone actionId)
      ⟨untouchedSites pages, []⟩ c t ch k o f past r s)
    (hfree : ¬Pending c.shared.records actionId) {i : String} {x : Job}
    {rest : ActionPast} {basis : Job} {seenAt : Nat}
    (hw : Rewrites actionId k.role past o i x rest basis seenAt)
    (hlive : x.status.terminal = false) :
    x.attemptCount ≠ 0 ∧
      ∀ j y, Unfinished c.shared.records actionId j y → j = i ∧ y.attemptCount ≠ 0 := by
  have hbasis : basis.status.terminal = false := hw.step.moves.not_terminal
  have hseen : SeenUnfinished past actionId i basis :=
    ⟨rest, seenAt, hw.suffix, hw.seen, hw.kind, hbasis⟩
  -- Whoever starts or recovers a job has seen it among all that are unfinished.
  have hopening : k.works = true → k.role = .recovery ∨ Opening past →
      basis.attemptCount ≠ 0 ∧
        ∀ j y, Unfinished c.shared.records actionId j y → j = i ∧ y.attemptCount ≠ 0 := by
    intro works hopen
    rcases (ha.knows works).opening hopen with hp | ⟨id, hall⟩
    · exact absurd hp hfree
    · obtain ⟨hid, hatt⟩ := hall i basis (.inr hseen)
      refine ⟨hatt, fun j y hy => ?_⟩
      obtain ⟨hj, hy⟩ := hall j y (.inl hy)
      exact ⟨hj.trans hid.symm, hy⟩
  have hattempts := hw.step.attempts
  cases hw.cause with
  | start works starts opening =>
      obtain ⟨-, hall⟩ := hopening (ActionKind.works_of_worker works)
        (.inr (hw.opening opening))
      rw [if_pos starts] at hattempts
      exact ⟨by omega, hall⟩
  | finish works hand ends =>
      obtain ⟨hatt, hstored, hlone⟩ := (ha.knows (ActionKind.works_of_worker works)).hand
        works basis seenAt (hw.hand.trans hand) hw.kind
      have hid : basis.jobId = i := hw.step.jobId.symm.trans hw.id
      rw [if_neg ends] at hattempts
      refine ⟨by omega, fun j y hy => ?_⟩
      have hj := (hlone.resolve_left hfree) j y hy
      refine ⟨hj.trans hid, hstored y ?_⟩
      rw [← hj]
      exact hy
  | recover recovers ran ends =>
      have hworks : k.works = true := by simp [ActionKind.works, recovers]
      obtain ⟨hatt, hall⟩ := hopening hworks (.inl recovers)
      rw [if_neg (by rcases ends with h | h <;> simp [h])] at hattempts
      exact ⟨by omega, hall⟩
  | cancel asks cancels =>
      rw [cancels] at hlive
      cases hlive

private theorem jobs_inv
    (ha : (settlementDiscipline actionId).Acting (RollbacksAlone actionId)
      ⟨untouchedSites pages, []⟩ c t ch k o f past r s) :
    Pending s.records actionId ∨ AtMostOne (Unfinished s.records actionId) := by
  by_cases hafter : Pending s.records actionId
  · exact .inl hafter
  refine .inr ?_
  by_cases hp : Pending c.shared.records actionId
  · -- The pending rollback was given up by the delivery of the only job.
    obtain ⟨hrole, ⟨managed, n, ho⟩, job, m, hhand, hun, hall⟩ :=
      (pending_step ha hp).resolve_left hafter
    obtain ⟨-, hstored, -⟩ := (ha.knows (ActionKind.works_of_worker hrole)).hand hrole
      job m hhand hun
    refine ⟨job.jobId, fun i x hx => ?_⟩
    rcases unfinished_after ha hx with hx | hpend | ⟨rest, basis, seenAt, hw⟩
    · have hi := hall i x hx
      exact ⟨hi, hstored x (hi ▸ hx)⟩
    · exact absurd hpend.2 hafter
    · obtain ⟨n', ho'⟩ := hw.op
      cases ho.symm.trans ho'
  · obtain ⟨id, hall⟩ := ha.holds.inv.jobs.resolve_left hp
    by_cases hwrites : ∃ i x rest basis seenAt, Unfinished s.records actionId i x ∧
        Rewrites actionId k.role past o i x rest basis seenAt
    · obtain ⟨i, x, rest, basis, seenAt, hx, hw⟩ := hwrites
      obtain ⟨hatt, hothers⟩ := writer_alone ha hp hw hx.2.2
      refine ⟨i, fun j y hy => ?_⟩
      rcases unfinished_after ha hy with hy | hpend | ⟨rest', basis', seenAt', hw'⟩
      · exact hothers j y hy
      · exact absurd hpend.2 hafter
      · obtain ⟨hid, rfl⟩ := hw'.only hw
        exact ⟨hid, hatt⟩
    · refine ⟨id, fun i x hx => ?_⟩
      rcases unfinished_after ha hx with hx' | hpend | ⟨rest, basis, seenAt, hw⟩
      · exact hall i x hx'
      · exact absurd hpend.2 hafter
      · exact absurd ⟨i, x, rest, basis, seenAt, hx, hw⟩ hwrites

/-- A process that is not the worker's leaves what others know of the jobs. -/
private theorem known_frame
    (ha : (settlementDiscipline actionId).Acting (RollbacksAlone actionId)
      ⟨untouchedSites pages, []⟩ c t ch k o f past r s) (hk : k.works = false)
    {th : actionMachine.Thread} (hth : th ∈ c.pool)
    (h : RollbackKnown actionId th.kind.role c.shared.records th.past) :
    RollbackKnown actionId th.kind.role s.records th.past := by
  have hrole : k.role ≠ .worker ∧ k.role ≠ .recovery := by
    rw [ActionKind.works, Bool.or_eq_false_iff] at hk
    simpa using hk
  have hpending : Pending c.shared.records actionId → Pending s.records actionId :=
    fun hp => (pending_step ha hp).resolve_right fun h => hrole.1 h.1
  have hafter : ∀ {i x}, Unfinished s.records actionId i x →
      Unfinished c.shared.records actionId i x ∨
        (c.shared.records.versions .job i = [] ∧ Pending s.records actionId) := by
    intro i x hx
    rcases unfinished_after ha hx with hx' | hp | ⟨rest, basis, seenAt, hw⟩
    · exact .inl hx'
    · exact .inr hp
    · cases hw.cause with
      | start works => exact absurd works hrole.1
      | finish works => exact absurd works hrole.1
      | recover recovers => exact absurd recovers hrole.2
      | cancel _ cancels =>
          have hlive := hx.2.2
          rw [cancels] at hlive
          cases hlive
  refine ⟨fun hworker job n hhand hun => ?_, fun hopening => ?_⟩
  · obtain ⟨hatt, hstored, hlone⟩ := h.hand hworker job n hhand hun
    refine ⟨hatt, fun x hx => ?_, ?_⟩
    · rcases hafter hx with hx' | ⟨hfresh, -⟩
      · exact hstored x hx'
      · exact absurd hfresh (hand_stored ha.reached hth hhand)
    · by_cases hp : Pending s.records actionId
      · exact .inl hp
      · refine .inr fun i x hx => ?_
        have hx' := (hafter hx).resolve_right fun h => hp h.2
        exact (hlone.resolve_left fun h => hp (hpending h)) i x hx'
  · by_cases hp : Pending s.records actionId
    · exact .inl hp
    · obtain ⟨id, hall⟩ := (h.opening hopening).resolve_left fun h => hp (hpending h)
      refine .inr ⟨id, fun i x hx => hall i x ?_⟩
      exact hx.imp_left fun hx => (hafter hx).resolve_right fun h => hp h.2

/-- An operation that writes no job leaves jobs unfinished as they were, but for
one made with its request. -/
private theorem unfinished_same
    (ha : (settlementDiscipline actionId).Acting (RollbacksAlone actionId)
      ⟨untouchedSites pages, []⟩ c t ch k o f past r s) (hrole : k.role = .worker)
    (hidle : jobWritten ⟨o, r⟩ = none) {i : String} {x : Job}
    (hx : Unfinished s.records actionId i x) :
    Unfinished c.shared.records actionId i x := by
  obtain ⟨hl, hun, hlive⟩ := hx
  cases settlement_jobs ha i with
  | same same => exact ⟨by rw [Repository.latest, ← same]; exact hl, hun, hlive⟩
  | @create managed version job op fresh id beside made =>
      obtain ⟨ws, rfl, hws⟩ : ∃ ws, o = .commit ws ∧
          ws = [.replace .managedAction managed.actionId managed version,
            .create .job i job] := ⟨_, op, rfl⟩
      have hp : ActionCommit k.role past ws := ha.permitted.1
      cases hp with
      | updateWithJob asks => rw [hrole] at asks; cases asks
      | job write updates => cases write <;> cases congrArg List.length hws
      | settle => cases hws
      | _ => cases congrArg List.length hws
  | update op =>
      subst op
      cases r <;> cases hidle

/-- A job that was just put in hand is stored, over what was stored before. -/
private theorem started_here
    (ha : (settlementDiscipline actionId).Acting (RollbacksAlone actionId)
      ⟨untouchedSites pages, []⟩ c t ch k o f past r s) {i : String} {job : Job}
    {version : Nat}
    (hev : (⟨o, r⟩ : (iface backend actionSite).Event) =
      ⟨.commit [.replace .job i job version], .ok ()⟩) :
    (job.jobId = i ∧ ∃ basis, Job.Transition basis job) ∧
      s.records.latest .job i = some job ∧
      s.records.versions .job i ≠ c.shared.records.versions .job i := by
  cases hev
  have hperm : ActionCommit k.role past [.replace .job i job version] := ha.permitted.1
  obtain ⟨hcommit, -⟩ := Service.exec_commit_ok ha.exec
  obtain ⟨-, hm⟩ := Repository.apply_replace (Repository.commit_singleton.mp hcommit)
  refine ⟨?_, ?_, ?_⟩
  · cases hperm with
    | job write =>
        cases write with
        | update found hseen step => exact ⟨rfl, _, step⟩
  · rw [Repository.latest, hm, Repository.versions_append_self, List.getLast?_concat]
  · rw [hm, Repository.versions_append_self]
    simp

/-- What a worker knows of the job in its hand, once it has started it. -/
private theorem hand_started
    (ha : (settlementDiscipline actionId).Acting (RollbacksAlone actionId)
      ⟨untouchedSites pages, []⟩ c t ch k o f past r s) {i : String} {job : Job}
    {version : Nat}
    (hev : (⟨o, r⟩ : (iface backend actionSite).Event) =
      ⟨.commit [.replace .job i job version], .ok ()⟩)
    (hran : job.status = .running) (hun : Undoes job actionId) :
    job.attemptCount ≠ 0 ∧
      (∀ x, Unfinished s.records actionId job.jobId x → x.attemptCount ≠ 0) ∧
      (Pending s.records actionId ∨
        ∀ j x, Unfinished s.records actionId j x → j = job.jobId) := by
  obtain ⟨⟨rfl, basis, step⟩, hl, hne⟩ := started_here ha hev
  have hlive : job.status.terminal = false := by rw [hran]; rfl
  have hstored : Unfinished s.records actionId job.jobId job := ⟨hl, hun, hlive⟩
  have hatt : job.attemptCount ≠ 0 := by
    rw [step.attempts, if_pos hran]
    exact Nat.succ_ne_zero _
  refine ⟨hatt, fun x hx => ?_, ?_⟩
  · rw [Option.some.inj (hx.1.symm.trans hl)]
    exact hatt
  by_cases hafter : Pending s.records actionId
  · exact .inl hafter
  refine .inr fun j x hx => ?_
  have hbefore : ¬Pending c.shared.records actionId := by
    intro hp
    obtain ⟨-, ⟨managed, n, ho⟩, -⟩ := (pending_step ha hp).resolve_left hafter
    cases ho.symm.trans (congrArg (·.op) hev)
  rcases unfinished_written ha hstored with hsame | hfresh | ⟨rest, basis, seenAt, hw⟩
  · exact absurd hsame hne
  · exact absurd hfresh.2 hafter
  have hothers := (writer_alone ha hbefore hw hlive).2
  rcases unfinished_after ha hx with hx' | hfresh | ⟨rest', basis', seenAt', hw'⟩
  · exact (hothers j x hx').1
  · exact absurd hfresh.2 hafter
  · exact (hw'.only hw).1

private theorem known_own
    (ha : (settlementDiscipline actionId).Acting (RollbacksAlone actionId)
      ⟨untouchedSites pages, []⟩ c t ch k o f past r s) (works : k.works = true) :
    RollbackKnown actionId k.role s.records (⟨o, r⟩ :: past) := by
  have hknown := ha.knows works
  refine ⟨fun hrole job n hhand hun => ?_, fun hopen => ?_⟩
  · rcases inHand_cons hhand with ⟨hidle, hhand⟩ | ⟨i, version, hev, -⟩
    · obtain ⟨hatt, hstored, hlone⟩ := hknown.hand hrole job n hhand hun
      have hsame : ∀ {i x}, Unfinished s.records actionId i x →
          Unfinished c.shared.records actionId i x := unfinished_same ha hrole hidle
      refine ⟨hatt, fun x hx => hstored x (hsame hx), ?_⟩
      rcases hlone with hp | hlone
      · refine (pending_step ha hp).imp_right fun ⟨_, _, job', n', hhand', _, hall⟩ => ?_
        intro i x hx
        have heq := Option.some.inj (hhand.symm.trans hhand')
        rw [(Prod.mk.inj heq).1]
        exact hall i x (hsame hx)
      · exact .inr fun i x hx => hlone i x (hsame hx)
    · exact hand_started ha hev (inHand_running hhand) hun
  · by_cases hafter : Pending s.records actionId
    · exact .inl hafter
    have hopen' : k.role = .recovery ∨ Opening past :=
      hopen.imp_right fun h ev hev => h ev (List.mem_cons_of_mem _ hev)
    have hbefore : ¬Pending c.shared.records actionId := by
      intro hp
      obtain ⟨hrole, ⟨managed, n, ho⟩, -⟩ := (pending_step ha hp).resolve_left hafter
      rcases hopen with h | h
      · rw [hrole] at h
        cases h
      · have hlooks := h _ List.mem_cons_self
        subst ho
        exact hlooks
    obtain ⟨id, hall⟩ := (hknown.opening hopen').resolve_left hbefore
    have hnew : ∀ i x, Unfinished s.records actionId i x →
        i = id ∧ x.attemptCount ≠ 0 := by
      intro i x hx
      rcases unfinished_after ha hx with hx' | hfresh | ⟨rest, basis, seenAt, hw⟩
      · exact hall i x (.inl hx')
      · exact absurd hfresh.2 hafter
      · have hseen : SeenUnfinished past actionId i basis :=
          ⟨rest, seenAt, hw.suffix, hw.seen, hw.kind, hw.step.moves.not_terminal⟩
        exact ⟨(hall i basis (.inr hseen)).1, (writer_alone ha hbefore hw hx.2.2).1⟩
    refine .inr ⟨id, fun i x hx => ?_⟩
    rcases hx with hx | ⟨rest, n, hsuf, hseen, hun, hlive⟩
    · exact hnew i x hx
    rcases List.suffix_cons_iff.mp hsuf with rfl | hsuf
    · rcases Service.seen_step (t := AggregateType.job) ha.exec hseen with hnow | ⟨hold, -⟩
      · exact hnew i x ⟨Repository.getLast?_of_current hnow, hun, hlive⟩
      · exact hall i x (.inr ⟨past, n, List.suffix_refl _, hold, hun, hlive⟩)
    · exact hall i x (.inr ⟨rest, n, hsuf, hseen, hun, hlive⟩)

private theorem settlement_round
    (ha : (settlementDiscipline actionId).Acting (RollbacksAlone actionId)
      ⟨untouchedSites pages, []⟩ c t ch k o f past r s) :
    RoundEffect k.role past o c.shared.records s.records :=
  round_effect ha.permitted.1 ha.exec

private theorem once_inv
    (ha : (settlementDiscipline actionId).Acting (RollbacksAlone actionId)
      ⟨untouchedSites pages, []⟩ c t ch k o f past r s) :
    ∀ v ∈ s.records.versions .managedAction actionId, SettledOnce v := by
  have hrec := (actions_in_order ha.reached).inv actionId
  intro v hv
  cases settlement_actions ha with
  | same same => exact ha.holds.inv.once v (same ▸ hv)
  | propose fresh id proposed made =>
      obtain rfl := List.mem_singleton.mp (made ▸ hv)
      exact .of_unmarked proposed.unmarked
  | @update rest basis current managed replacing stored last id made =>
      rw [made] at hv
      rcases List.mem_append.mp hv with hv | hv
      · exact ha.holds.inv.once v hv
      · obtain rfl := List.mem_singleton.mp hv
        exact (ha.holds.inv.once basis stored).write (hrec.lawful basis stored)
          replacing.write

private theorem outcome_inv
    (ha : (settlementDiscipline actionId).Acting (RollbacksAlone actionId)
      ⟨untouchedSites pages, []⟩ c t ch k o f past r s) :
    s.records.versions .actionOutcome actionId ≠ [] ↔ SettledNow s.records actionId := by
  have hrec := (actions_in_order ha.reached).inv actionId
  have hbefore := ha.holds.inv.outcome
  have hactions := settlement_actions ha
  cases settlement_round ha with
  | same outcomes feedback idle =>
      rw [outcomes]
      rcases hactions.settledNow hrec with hiff | ⟨hrole, rest, basis, current, managed,
        -, -, -, -, hsettling⟩
      · exact hbefore.trans hiff.symm
      · obtain ⟨outcome, t₁, t₂, ws, -, -, ho⟩ := hsettling.settles
        rw [idle _ _ _ ho]
        exact hbefore
  | @settle rest basis current managed version outcome t₁ t₂ ws replacing settles
      feedback committed =>
      have hmade := roundMade_of_commit feedback committed
      have hid : managed.actionId = basis.actionId := replacing.write.actionId
      by_cases hown : actionId = basis.actionId
      · subst hown
        refine iff_of_true hmade.outcome ⟨managed, hid ▸ hmade.action, ?_⟩
        obtain ⟨e, he, hm⟩ := settled_of_settlement settles
        exact ⟨e, List.mem_of_mem_drop he, hm⟩
      · rw [hmade.outcomes _ hown, SettledNow, Repository.latest,
          hmade.actions _ (hid ▸ hown)]
        exact hbefore

/-- What is learned from an action is kept under one id, and only of a change
that is not page-level. -/
private theorem feedback_inv
    (ha : (settlementDiscipline actionId).Acting (RollbacksAlone actionId)
      ⟨untouchedSites pages, []⟩ c t ch k o f past r s) {i : String}
    {event : FeedbackEvent}
    (hevent : event ∈ s.records.versions .learningFeedback i)
    (hid : event.actionId = actionId) :
    i = feedbackIdFor actionId ∧
      ∃ m ∈ s.records.versions .managedAction actionId,
        pageLevel m.action.actionType = false := by
  have hold : event ∈ c.shared.records.versions .learningFeedback i →
      i = feedbackIdFor actionId ∧
        ∃ m ∈ s.records.versions .managedAction actionId,
          pageLevel m.action.actionType = false := by
    intro h
    obtain ⟨hi, m, hm, hpage⟩ := ha.holds.inv.feedback i event h hid
    exact ⟨hi, m, (Service.exec_grows ha.exec _ _).subset hm, hpage⟩
  cases settlement_round ha with
  | same outcomes feedback => exact hold (feedback i ▸ hevent)
  | @settle rest basis current managed version outcome t₁ t₂ ws replacing settles
      feedback committed =>
      rcases (roundMade_of_commit feedback committed).feedback i with
        hsame | ⟨event', rfl, -, hnew⟩
      · exact hold (hsame ▸ hevent)
      · obtain rfl := List.mem_singleton.mp (hnew ▸ hevent)
        obtain ⟨hi, hmanaged, hpage⟩ := feedback_of_round feedback
        have hbasis : basis.actionId = actionId :=
          replacing.write.actionId.symm.trans (hmanaged.symm.trans hid)
        refine ⟨hbasis ▸ hi, basis, ?_, hpage⟩
        obtain ⟨n, hseen⟩ := replacing.seen
        have htold := Service.told_of_run ha.reached _ (List.mem_of_getElem? ha.here)
        have hpast : past = _ := replacing.found
        have hsuf : rest <:+ past := hpast ▸ List.suffix_cons _ _
        rw [replacing.write.actionId, hbasis] at hseen
        have hmem := Repository.mem_of_versionAt (htold rest hsuf _ _ _ _ hseen)
        exact (Service.exec_grows ha.exec _ _).subset hmem

private theorem feedbackOnce_inv
    (ha : (settlementDiscipline actionId).Acting (RollbacksAlone actionId)
      ⟨untouchedSites pages, []⟩ c t ch k o f past r s) (i : String) :
    (s.records.versions .learningFeedback i).length ≤ 1 := by
  have hbefore := ha.holds.inv.feedbackOnce i
  cases settlement_round ha with
  | same outcomes feedback => exact (feedback i).symm ▸ hbefore
  | settle replacing settles feedback committed =>
      rcases (roundMade_of_commit feedback committed).feedback i with
        hsame | ⟨event, -, -, hnew⟩
      · exact hsame.symm ▸ hbefore
      · rw [hnew]
        exact le_rfl

end Acting

theorem settlementDiscipline_sound {actionId : String}
    {pages : String → String → SitePage} :
    (settlementDiscipline actionId).Sound (RollbacksAlone actionId)
      ⟨untouchedSites pages, []⟩ where
  symm h := fun ⟨h₁, h₂⟩ => h ⟨h₂, h₁⟩
  admits h _ hk' _ := ActionKind.one_worker h hk'
  body := actionTerms_kept
  start _ hinv _ :=
    { hand := fun _ _ _ h => by cases h
      opening := fun _ => hinv.jobs.imp_right fun ⟨id, hall⟩ =>
        ⟨id, fun j x hx => hall j x (hx.resolve_right fun ⟨rest, n, hsuf, hseen, _⟩ => by
          rw [List.suffix_nil.mp hsuf] at hseen
          cases hseen)⟩ }
  trusted ha := (Service.valid_of_run actionTerms_kept
    (fun _ _ _ hv => absurd hv List.not_mem_nil) ha.reached).reads ha.exec
  inv ha :=
    { once := once_inv ha
      outcome := outcome_inv ha
      feedback := fun _ _ => feedback_inv ha
      feedbackOnce := feedbackOnce_inv ha
      jobs := jobs_inv ha }
  own ha := known_own ha
  frame ha th hth hco hk works := by
    refine known_frame ha ?_ hth (hk works)
    rw [← Bool.not_eq_true]
    exact fun hw => hco ⟨hw, works⟩
  together _ _ _ hco _ := hco
  envInv _ hh _ hs := by
    obtain ⟨s, -, rfl⟩ := Service.change_cases hs
    exact hh.inv
  envFrame _ _ _ hs _ _ hk := by
    obtain ⟨s, -, rfl⟩ := Service.change_cases hs
    exact hk

/-! ## Settlements over every run -/

/-- An action is settled at most once, with its outcome and at most one event,
and without one for a page-level change. -/
structure SettlementRecords (actionId : String) (r : Records) : Prop where
  once : ∀ v ∈ r.versions .managedAction actionId, (settledEntries v).length ≤ 1
  outcome : r.versions .actionOutcome actionId ≠ [] ↔ SettledNow r actionId
  feedback : ∀ i, ∀ event ∈ r.versions .learningFeedback i, event.actionId = actionId →
    i = feedbackIdFor actionId ∧ r.versions .learningFeedback i = [event]
  unlearned : ∀ m ∈ r.versions .managedAction actionId,
    pageLevel m.action.actionType = true →
      ∀ i, ∀ event ∈ r.versions .learningFeedback i, event.actionId ≠ actionId

section Runs
variable {actionId : String} {pages : String → String → SitePage}
  {c c' : Config actionMachine} {m : Move (M := actionMachine)}

private theorem settlements_held
    (hr : Run (RollbacksAlone actionId) ⟨untouchedSites pages, []⟩ c) :
    (settlementDiscipline actionId).Holds c := by
  have hnone : ∀ i, ¬∃ x, (untouchedSites pages).records.latest .job i = some x :=
    fun i ⟨_, h⟩ => by cases h
  refine settlementDiscipline_sound.sound
    (.of_no_process (D := settlementDiscipline actionId) ?_) hr
  exact
    { once := fun v hv => absurd hv List.not_mem_nil
      outcome := iff_of_false (fun h => h rfl) fun ⟨_, hm, _⟩ => by cases hm
      feedback := fun _ event hevent => absurd hevent List.not_mem_nil
      feedbackOnce := fun _ => Nat.zero_le _
      jobs := .inr ⟨"", fun j x hx => absurd ⟨x, hx.1⟩ (hnone j)⟩ }

private theorem settlementRecords_of_held {r : Records}
    (h : SettlementsHeld actionId r)
    (hrec : ActionRecord (r.versions .managedAction actionId)) :
    SettlementRecords actionId r where
  once v hv := (h.once v hv).once
  outcome := h.outcome
  feedback i event hevent hid := by
    refine ⟨(h.feedback i event hevent hid).1, ?_⟩
    have hlen := h.feedbackOnce i
    match hv : r.versions .learningFeedback i with
    | [] => rw [hv] at hevent; cases hevent
    | [x] =>
        rw [hv] at hevent
        rw [List.mem_singleton.mp hevent]
    | _ :: _ :: _ =>
        rw [hv] at hlen
        simp at hlen
  unlearned m hm hpage i event hevent hid := by
    obtain ⟨-, m', hm', hpage'⟩ := h.feedback i event hevent hid
    rw [hrec.actionType hm' hm, hpage'] at hpage
    cases hpage

/-- A round settles an action only from a version without a pending rollback, and
then none is pending for the stored version. -/
theorem free_of_settling {role : JobRole} {past rest : ActionPast}
    {o : Op backend actionSite} {basis current managed : ManagedAction} {n : Nat}
    (hrole : role = .measurement)
    (h : Replacing role past rest basis current managed n)
    (hb : basis.history <+: current.history)
    (hsettling : Settling o basis managed n) : rollbackPending current = false := by
  obtain ⟨between, hbetween⟩ := hb
  have hmine : ∀ e ∈ between, e ∈ addedEntries basis managed := by
    obtain ⟨new, hnew⟩ := h.extended
    intro e he
    rw [addedEntries, ← hnew, ← hbetween, List.append_assoc, List.drop_left]
    exact List.mem_append_left _ he
  rw [rollbackPending, ← hbetween, List.reverse_append, pendingAmong_append_of_settling]
  · exact hsettling.free
  · intro e he
    have hadded := hmine e (List.mem_reverse.mp he)
    refine ⟨fun hm => ?_, h.write.unasked (by simp [hrole]) e hadded⟩
    have hworker := (h.write.gaveUp hadded hm).1
    rw [hrole] at hworker
    cases hworker

private theorem not_open_of_settled
    (hr : Run (RollbacksAlone actionId) ⟨untouchedSites pages, []⟩ c)
    (hm : fire c m = some c') (hafter : SettledNow c'.shared.records actionId)
    (hbefore : ¬SettledNow c.shared.records actionId) :
    ¬OpenRollback c.shared.records actionId := by
  have hheld := settlements_held hr
  have hrec := (actions_in_order hr).inv actionId
  rcases fire_cases hm with ⟨k, -, -, rfl⟩ | ⟨t, ch, k, o, f, past, r, s, -, hp, he, rfl⟩ |
    ⟨t, -, rfl⟩ | ⟨e, s, -, hs, rfl⟩
  · exact absurd hafter hbefore
  · have hmem := List.mem_of_getElem? hp
    have hperm := (hheld.threads _ hmem).permitted.1
    rcases (action_effect (Service.told_of_run hr _ hmem) hperm he actionId).settledNow
      hrec with hiff | ⟨hrole, rest, basis, current, managed, replacing, stored, last, -,
        hsettling⟩
    · exact absurd (hiff.mp hafter) hbefore
    have hfree := free_of_settling hrole replacing (hrec.prefix_last stored last) hsettling
    have hnone : ¬Pending c.shared.records actionId := by
      rintro ⟨x, hx, hpending⟩
      rw [← Option.some.inj (last.symm.trans hx), hfree] at hpending
      cases hpending
    obtain ⟨id, hall⟩ := hheld.inv.jobs.resolve_left hnone
    rintro ⟨i, job, hjob, hpending | huntried | ⟨j, other, hother, hne⟩⟩
    · exact hnone hpending
    · exact (hall i job hjob).2 huntried
    · exact hne ((hall j other hother).1.trans (hall i job hjob).1.symm)
  · exact absurd hafter hbefore
  · obtain ⟨s, -, rfl⟩ := Service.change_cases hs
    exact absurd hafter hbefore

end Runs

/-! ## A refusal and a round -/

/-- The worker takes a job and the site refuses to undo the change. -/
def refusedByWorker (t : Nat) : List (Move (M := actionMachine)) :=
  [.spawn .runOnce, .act t .done, .act t (.clock 8), .act t .done, .act t .done,
    .act t .done, .act t (.ext (.adapter connector)),
    .act t (.ext (.refuses "a later change")), .act t (.clock 9), .act t .done,
    .act t .done, .act t (.clock 9), .act t .done, .act t .done]

/-- A description that made no difference. -/
def noDifference : Outcome where
  outcomeId := "o1"
  actionId := "action:j0"
  siteId := "s1"
  normalizedUrl := "u"
  normalizedQuery := "(all queries)"
  status := .inconclusive
  primaryMetric := .ctr
  primary := none
  reasons := []
  measurement := ⟨"m1", "action:j0", "completed", []⟩

/-- A round that measures the action, up to its transaction. -/
def measuredRound (t : Nat) : List (Move (M := actionMachine)) :=
  [.spawn .measure, .act t (.clock 10), .act t .done, .act t .done,
    .act t (.ext (.evaluated (some noDifference))), .act t (.clock 11),
    .act t (.clock 11), .act t .done]

/-- Whether a stored action was settled. -/
def settledOf (c : Config actionMachine) (actionId : String) : Option Bool :=
  (c.shared.records.latest .managedAction actionId).map fun m => decide (Settled m)

/-- Whether a stored job undoes the action, and how far it got. -/
def undoingOf (c : Config actionMachine) (actionId jobId : String) :
    Option (Bool × JobStatus × Nat) :=
  (c.shared.records.latest .job jobId).map fun job =>
    (decide (Undoes job actionId), job.status, job.attemptCount)

theorem settledNow_iff {c : Config actionMachine} {actionId : String} :
    SettledNow c.shared.records actionId ↔ settledOf c actionId = some true := by
  unfold SettledNow settledOf
  rw [Option.map_eq_some_iff]
  simp only [decide_eq_true_eq]

theorem openRollback_of_queued {c : Config actionMachine} {actionId jobId : String}
    (h : undoingOf c actionId jobId = some (true, .queued, 0)) :
    OpenRollback c.shared.records actionId := by
  obtain ⟨job, hl, hjob⟩ := Option.map_eq_some_iff.mp h
  obtain ⟨hun, hrest⟩ := Prod.mk.inj hjob
  obtain ⟨hst, hatt⟩ := Prod.mk.inj hrest
  refine ⟨jobId, job, ⟨hl, of_decide_eq_true hun, ?_⟩, .inr (.inl hatt)⟩
  rw [hst]
  rfl

end SeoAgent.Ports
