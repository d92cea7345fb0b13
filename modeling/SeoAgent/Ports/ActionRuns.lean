import SeoAgent.Ports.ActionRecord

/-!
# Actions over every run

One operation of any process leaves the versions of an action alone, adds a
proposal, or adds a write from some earlier version to the current one
(`ActionEffect`). `actionDiscipline` carries the record of every action over
every run, together with the one thing a worker knows about a copy however
old: it is being carried out, or executed, exactly when the stored action is.

## Main results

* `actions_in_order` — in every reachable state the versions of every action are
  an `ActionRecord`, and a worker's copies are under way as the stored actions.
-/

namespace SeoAgent.Ports

open Verified Verified.Machine
open Service (Op iface World)

/-! ## What one operation does to an action -/

/-- A rollback is asked for only together with the job that carries it out. -/
def AskedWithJob (o : Op backend actionSite) (basis managed : ManagedAction)
    (version : Nat) : Prop :=
  (∃ e ∈ addedEntries basis managed, entryMark e.reason = some .asked) →
    ∃ job : Job, Undoes job managed.actionId ∧ job.status = .queued ∧
      o = .commit [.replace .managedAction managed.actionId managed version,
        .create .job job.jobId job]

/-- A round writes what it concluded beside the action it settles, and settles
only what no rollback is pending for. -/
structure Settling (o : Op backend actionSite) (basis managed : ManagedAction)
    (version : Nat) : Prop where
  settles : ∃ outcome t₁ t₂ ws, applySettlement basis outcome t₁ t₂ = .ok managed ∧
    feedbackWrites basis managed outcome = .ok ws ∧
    o = .commit (.ensure .actionOutcome basis.actionId outcome ::
      .replace .managedAction managed.actionId managed version :: ws)
  free : rollbackPending basis = false

/-- What one operation does to the versions of an action. -/
inductive ActionEffect (role : JobRole) (past : ActionPast)
    (o : Op backend actionSite) (actionId : String)
    (before after : List ManagedAction) : Prop
  | same (same : after = before)
  | propose {managed : ManagedAction} (fresh : before = [])
      (id : managed.actionId = actionId) (proposed : Proposed managed)
      (made : after = [managed])
  | update {rest : ActionPast} {basis current managed : ManagedAction}
      (replacing : Replacing role past rest basis current managed before.length)
      (stored : basis ∈ before) (last : before.getLast? = some current)
      (id : managed.actionId = actionId) (made : after = before ++ [managed])
      (plain : role = .worker →
        o = .commit [.replace .managedAction managed.actionId managed before.length])
      (asked : AskedWithJob o basis managed before.length)
      (settling : role = .measurement → Settling o basis managed before.length)

section Effect
variable {w w' : World backend actionSite} {role : JobRole} {past : ActionPast}

/-- A transaction that replaces an action, between writes of other records. -/
private theorem replace_effect (ws ws' : Writes) {rest : ActionPast}
    {basis current managed : ManagedAction} {version : Nat}
    (htold : Service.Told w.records past)
    (hrep : Replacing role past rest basis current managed version)
    (hne : ∀ i, ∀ x ∈ ws ++ ws', x.target ≠ (.managedAction, i))
    (hc : w.records.commit
      (ws ++ .replace .managedAction managed.actionId managed version :: ws') =
        .ok w'.records)
    (hplain : role = .worker → ws = [] ∧ ws' = [])
    (hasked : AskedWithJob
      (.commit (ws ++ .replace .managedAction managed.actionId managed version :: ws'))
      basis managed version)
    (hsettling : role = .measurement → Settling
      (.commit (ws ++ .replace .managedAction managed.actionId managed version :: ws'))
      basis managed version) (actionId : String) :
    ActionEffect role past
      (.commit (ws ++ .replace .managedAction managed.actionId managed version :: ws'))
      actionId (w.records.versions .managedAction actionId)
      (w'.records.versions .managedAction actionId) := by
  obtain ⟨u, hu, hc⟩ := Repository.commit_append.mp hc
  obtain ⟨u', happly, hc⟩ := Repository.commit_cons.mp hc
  obtain ⟨hlen, hu'⟩ := Repository.apply_replace happly
  have hbefore : ∀ i, u.versions .managedAction i =
      w.records.versions .managedAction i := fun i =>
    Repository.commit_versions_of_ne hu fun x hx =>
      hne i x (List.mem_append_left _ hx)
  have hafter : ∀ i, w'.records.versions .managedAction i =
      u'.versions .managedAction i := fun i =>
    Repository.commit_versions_of_ne hc fun x hx =>
      hne i x (List.mem_append_right _ hx)
  by_cases hid : actionId = managed.actionId
  · subst hid
    rw [hbefore] at hlen
    have hbasis : basis ∈ w.records.versions .managedAction managed.actionId := by
      obtain ⟨n, hseen⟩ := hrep.seen
      rw [hrep.found] at htold
      exact Repository.mem_of_versionAt (htold.tail.seen hseen)
    have hcurrent : seen .managedAction managed.actionId past =
        some (current, version) := by
      rw [hrep.found]
      exact seen_find (t := .managedAction) _
    subst hlen
    refine .update hrep hbasis ?_ rfl ?_ (fun hr => ?_) hasked hsettling
    · exact Repository.getLast?_of_current
        (Repository.current_eq_some_iff.mpr ⟨htold.seen hcurrent, rfl⟩)
    · rw [hafter, hu', Repository.versions_append_self, hbefore]
    · obtain ⟨rfl, rfl⟩ := hplain hr
      rfl
  · refine .same ?_
    rw [hafter, hu', Repository.versions_append_of_ne _ _ _ _ hid, hbefore]

private theorem commit_effect {ws : Writes}
    (htold : Service.Told w.records past) (hp : ActionCommit role past ws)
    (hc : w.records.commit ws = .ok w'.records) (actionId : String) :
    ActionEffect role past (.commit ws) actionId
      (w.records.versions .managedAction actionId)
      (w'.records.versions .managedAction actionId) := by
  cases hp with
  | @propose managed status statuses unmarked applied rolledBack =>
      obtain ⟨hf, hm⟩ := Repository.apply_create (Repository.commit_singleton.mp hc)
      by_cases hid : actionId = managed.actionId
      · subst hid
        refine .propose hf rfl ⟨status, statuses, unmarked, applied, rolledBack⟩ ?_
        rw [hm, Repository.versions_append_self, hf]
        rfl
      · exact .same (by rw [hm, Repository.versions_append_of_ne _ _ _ _ hid])
  | update moves replacing unasked =>
      exact replace_effect [] [] htold replacing (fun i x hx => nomatch hx) hc
        (fun _ => ⟨rfl, rfl⟩) (fun ⟨e, he, hm⟩ => absurd hm (unasked e he)) (fun h => absurd h moves)
        actionId
  | @updateWithJob rest basis current managed version job asks replacing beside
      asked =>
      subst asks
      refine replace_effect [] _ htold replacing (fun i x hx => ?_) hc nofun
        (fun ⟨e, he, hm⟩ => ⟨job, asked e he hm, beside.fresh, rfl⟩) nofun actionId
      obtain rfl := List.mem_singleton.mp hx
      nofun
  | settle measures replacing settles free feedback =>
      subst measures
      refine replace_effect [_] _ htold replacing (fun i x hx => ?_) hc nofun
        (fun ⟨e, he, hm⟩ => ?_)
        (fun _ => ⟨⟨_, _, _, _, settles, feedback, rfl⟩, free⟩) actionId
      · rcases List.mem_cons.mp hx with rfl | hx
        · nofun
        · obtain ⟨event, rfl⟩ := feedbackWrites_mem feedback x hx
          nofun
      · exact absurd hm (replacing.write.unasked nofun e he)
  | job write updates =>
      refine .same (Repository.commit_versions_of_ne hc fun x hx => ?_)
      cases write with
      | create => exact List.mem_singleton.mp hx ▸ nofun
      | update => exact List.mem_singleton.mp hx ▸ nofun

/-- One permitted operation, for every action. -/
theorem action_effect {o : Op backend actionSite}
    {ch : ProcChoice actionSite} {r : Except Exc o.Res}
    (htold : Service.Told w.records past) (hp : actionPermits role past o)
    (he : Service.exec w o ch = some (r, w')) (actionId : String) :
    ActionEffect role past o actionId (w.records.versions .managedAction actionId)
      (w'.records.versions .managedAction actionId) := by
  rcases Service.exec_records he with heq | ⟨ws, rfl, hc⟩
  · exact .same (by rw [heq])
  · exact commit_effect htold hp hc actionId

end Effect

/-- One operation keeps the record of an action. -/
theorem ActionRecord.effect {role : JobRole} {past : ActionPast}
    {o : Op backend actionSite} {actionId : String} {before after : List ManagedAction} (h : ActionRecord before)
    (he : ActionEffect role past o actionId before after) : ActionRecord after := by
  cases he with
  | same same => exact same ▸ h
  | propose fresh id proposed made =>
      exact made ▸ .single proposed.status proposed.statuses proposed.applied
        proposed.rolledBack
  | update replacing stored last id made =>
      exact made ▸ h.append stored last replacing.extended replacing.write

/-! ## The discipline -/

/-- A copy seen is being carried out, or executed, exactly when the stored action
is. -/
def CopiesUnderWay (w : World backend actionSite) (past : ActionPast) : Prop :=
  ∀ actionId copy n stored,
    seen .managedAction actionId past = some (copy, n) →
    (w.records.versions .managedAction actionId).getLast? = some stored →
    ∀ st ∈ [ActionStatus.executing, .executed],
      (stored.status = st ↔ copy.status = st)

/-- The record of every action, and what the worker knows of its copies. -/
@[reducible] def actionDiscipline : Discipline actionMachine where
  inv := fun w => ∀ actionId, ActionRecord (w.records.versions .managedAction actionId)
  knows := fun k w past => k.role = .worker → CopiesUnderWay w past
  contract := actionTerms.contract
  coexist := fun k _ k' _ => ¬(k.works = true ∧ k'.works = true)

section Acting
variable {good : Condition actionMachine} {c₀ c : Config actionMachine} {t : Nat}
  {ch : ProcChoice actionSite} {k : ActionKind} {o : Op backend actionSite}
  {f : Except Exc o.Res → ActionProc Unit} {past : ActionPast}
  {r : Except Exc o.Res} {s : World backend actionSite}

theorem ActionKind.works_of_worker (h : k.role = .worker) : k.works = true := by
  rw [ActionKind.works, h]
  rfl

theorem ActionKind.not_worker (h : ¬k.works = true) : k.role ≠ .worker :=
  fun hr => h (works_of_worker hr)

/-- A worker starts beside no other. -/
theorem ActionKind.one_worker {ks : List ActionKind} {k k' : ActionKind}
    (h : actionProcesses.admits ks k = true) (hk : k' ∈ ks) :
    ¬(k'.works = true ∧ k.works = true) := by
  rintro ⟨h₁, h₂⟩
  simp only [h₂, Bool.not_true, Bool.false_or, List.all_eq_true] at h
  simpa [h₁] using h k' hk

/-- A request leaves a stored action under way, or not, as it found it. -/
private theorem effect_under_way (hrole : k.role ≠ .worker) {st : ActionStatus}
    (hst : st ∈ [ActionStatus.executing, .executed]) {actionId : String} {stored stored' : ManagedAction}
    {before after : List ManagedAction} (hrec : ActionRecord before)
    (he : ActionEffect k.role past o actionId before after)
    (hb : before.getLast? = some stored) (ha : after.getLast? = some stored') :
    stored'.status = st ↔ stored.status = st := by
  cases he with
  | same same =>
      rw [same, hb] at ha
      rw [Option.some.inj ha]
  | propose fresh =>
      rw [fresh] at hb
      cases hb
  | @update rest basis current managed replacing hstored last id made =>
      rw [made, List.getLast?_concat] at ha
      obtain rfl := Option.some.inj ha
      obtain rfl := Option.some.inj (hb.symm.trans last)
      have hb := hrec.lawful basis hstored
      have hbs := hrec.prefix_last hstored last
      have hlawful := hrec.lawful stored (List.mem_of_getLast? last)
      have write := replacing.write
      rw [write.underWay_between hrole hst hb (hb.write write) write.history
          (List.prefix_refl _),
        write.underWay_between hrole hst hb hlawful hbs replacing.extended]

private theorem copies_frame
    (ha : actionDiscipline.Acting good c₀ c t ch k o f past r s)
    {w₀ : World backend actionSite} (hc₀ : c₀ = ⟨w₀, []⟩) {th : actionMachine.Thread} (hth : th ∈ c.pool)
    (hco : ¬(k.works = true ∧ th.kind.works = true))
    (hk : th.kind.role = .worker → CopiesUnderWay c.shared th.past) :
    th.kind.role = .worker → CopiesUnderWay s th.past := by
  subst hc₀
  intro hrole actionId copy n stored hseen hlast' st hst
  have hreq : k.role ≠ .worker := ActionKind.not_worker fun hw =>
    hco ⟨hw, ActionKind.works_of_worker hrole⟩
  have htold := Service.told_of_run ha.reached _ (List.mem_of_getElem? ha.here)
  have heff := action_effect htold ha.permitted.1 ha.exec actionId
  have hthTold := Service.told_of_run ha.reached th hth
  have hmem := Repository.mem_of_versionAt (hthTold.seen hseen)
  obtain ⟨last, hlast⟩ : ∃ last,
      (c.shared.records.versions .managedAction actionId).getLast? = some last :=
    Option.isSome_iff_exists.mp (List.getLast?_isSome.mpr (List.ne_nil_of_mem hmem))
  rw [effect_under_way hreq hst (ha.holds.inv actionId) heff hlast hlast']
  exact hk hrole actionId copy n last hseen hlast st hst

private theorem copies_own
    (ha : actionDiscipline.Acting good c₀ c t ch k o f past r s) :
    k.role = .worker → CopiesUnderWay s (⟨o, r⟩ :: past) := by
  intro hrole actionId copy n stored hseen hlast st hst
  rcases Service.seen_step (t := AggregateType.managedAction) ha.exec hseen with
    hnow | ⟨hold, hsame⟩
  · rw [Option.some.inj (hlast.symm.trans (Repository.getLast?_of_current hnow))]
  · exact ha.knows hrole actionId copy n stored hold (hsame ▸ hlast) st hst

end Acting

theorem actionDiscipline_sound {good : Condition actionMachine}
    {pages : String → String → SitePage} :
    actionDiscipline.Sound good ⟨untouchedSites pages, []⟩ where
  symm h := fun ⟨h₁, h₂⟩ => h ⟨h₂, h₁⟩
  admits h _ hk' _ := ActionKind.one_worker h hk'
  body := actionTerms_kept
  start _ _ := fun _ _ _ _ _ h => nomatch h
  trusted ha :=
    (Service.valid_of_run actionTerms_kept
      (fun _ _ _ hv => absurd hv List.not_mem_nil) ha.reached).reads ha.exec
  inv ha := fun actionId =>
    (ha.holds.inv actionId).effect (action_effect
      (Service.told_of_run ha.reached _ (List.mem_of_getElem? ha.here))
      ha.permitted.1 ha.exec actionId)
  own := copies_own
  frame ha _ hth hco hk := copies_frame ha rfl hth hco hk
  together _ _ _ hco _ := hco
  envInv _ hh _ hs := by
    obtain ⟨s, -, rfl⟩ := Service.change_cases hs
    exact hh.inv
  envFrame _ _ _ hs _ _ hk := by
    obtain ⟨s, -, rfl⟩ := Service.change_cases hs
    exact hk

/-- No action, from which every run starts. -/
theorem actionRecord_nil : ActionRecord [] where
  appended := .nil
  lawful := fun _ h => nomatch h
  proposed := fun _ h => nomatch h
  decided := fun _ h => nomatch h
  approved := fun _ h => nomatch h

section Runs
variable {good : Condition actionMachine} {pages : String → String → SitePage}
  {c : Config actionMachine}

/-- In every reachable state the discipline holds. -/
theorem actions_in_order (hr : Run good ⟨untouchedSites pages, []⟩ c) :
    actionDiscipline.Holds c :=
  actionDiscipline_sound.sound
    (.of_no_process (D := actionDiscipline) fun _ => actionRecord_nil) hr

end Runs

end SeoAgent.Ports
