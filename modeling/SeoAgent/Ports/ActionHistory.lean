import SeoAgent.Ports.ActionRuns

/-!
# The history of an action and the writes made for it

Over any interleaving of proposals, requests, deliveries, recoveries and
measurement rounds, with one worker at a time and a crash anywhere, the stored
versions of an action follow the state machine, and a delivery of an execute job
writes the page only as it was approved, over a page it has just read.

## Main results

* `action_histories` — the lifecycle of every action.
* `execute_writes_approved` — what holds when the execute handler writes.
-/

namespace SeoAgent.Ports

open Verified Verified.Machine
open Service (Op iface World)

/-! ## What is claimed of a history -/

/-- The versions of an action, oldest first, follow the lifecycle. -/
structure ActionHistory (versions : List ManagedAction) : Prop where
  appended : versions.Pairwise fun a b => a.history <+: b.history
  last : ∀ v ∈ versions, v.statuses.getLast? = some v.status
  moves : ∀ v ∈ versions, v.statuses.IsChain fun a b =>
    b = a ∨ b ∈ allowedTransitions a
  absorbing : versions.Pairwise fun a b =>
    a.status = .rejected ∨ a.status = .rolledBack → b.status = a.status
  applied : ∀ v ∈ versions, v.applied.isSome = true ↔ .executed ∈ v.statuses
  rolledBack : ∀ v ∈ versions, v.rolledBack.isSome = true ↔ v.status = .rolledBack

theorem ActionRecord.history {versions : List ManagedAction}
    (h : ActionRecord versions) : ActionHistory versions where
  appended := h.appended
  last := fun v hv => (h.lawful v hv).last
  moves := fun v hv => (h.lawful v hv).moves
  absorbing := by
    refine h.appended.imp_of_mem fun {a b} ha hb hp hst => ?_
    refine (h.lawful b hb).absorbed ?_
      ((prefix_statuses hp).subset (h.lawful a ha).mem_statuses)
    rcases hst with hst | hst <;> rw [hst] <;> rfl
  applied := fun v hv => (h.lawful v hv).applied
  rolledBack := fun v hv => (h.lawful v hv).rolledBack

/-! ## What is claimed of a write -/

/-- The write of the page a process is about to ask for. -/
def writeOf : ActionProc Unit → Option SiteWrite
  | .call (.ext (.write siteId url field value key)) _ =>
      some ⟨siteId, url, field, value, key⟩
  | _ => none

/-- A write made for an action as it was approved: `stored` is the stored action
and `page` what the process read right before. -/
structure ApprovedWrite (versions : List ManagedAction) (past : ActionPast)
    (write : SiteWrite) (stored : ManagedAction) (page : SitePage) : Prop where
  underWay : stored.status = .executing
  approved : .approved ∈ stored.statuses
  notRejected : .rejected ∉ stored.statuses
  siteId : write.siteId = stored.siteId
  url : write.url = stored.action.normalizedUrl
  key : write.key = executeKey stored.actionId
  about : fieldOf stored.action = .ok write.field
  approval : ∃ v ∈ versions, v.status = .approved
  asApproved : ∀ v ∈ versions, v.status = .approved →
    write.field.recommended v.action = .ok write.value
  read : past.head? = some ⟨.ext (.readPage write.siteId write.url), .ok page⟩
  unchanged : shows write.field page (some write.value) = true ∨
    stored.observedValue = none ∨
      shows write.field page stored.observedValue = true

theorem pageChanged_eq_false {field : PageField} {page : SitePage}
    {target : String} {observed : Option String} :
    pageChanged field page target observed = false ↔
      shows field page (some target) = true ∨ observed = none ∨
        shows field page observed = true := by
  unfold pageChanged
  cases shows field page (some target) <;> cases observed <;> simp

section Runs
variable {good : Condition actionMachine} {pages : String → String → SitePage}
  {c : Config actionMachine}

/-- In every reachable state the versions of every action follow the
lifecycle. -/
theorem action_histories (hr : Run anyMove ⟨untouchedSites pages, []⟩ c) :
    ∀ actionId, ActionHistory (c.shared.records.versions .managedAction actionId) :=
  fun actionId => ((actions_in_order hr).inv actionId).history

/-- A write by the execute handler, from the copy its process has. -/
theorem ExecuteWrite.approved (hr : Run good ⟨untouchedSites pages, []⟩ c)
    {th : actionMachine.Thread} (hth : th ∈ c.pool)
    (hrole : th.kind.role = .worker) {write : SiteWrite} {copy : ManagedAction}
    {n : Nat} {page : SitePage} (hw : ExecuteWrite th.past write copy n page) :
    ∃ stored, (c.shared.records.versions .managedAction copy.actionId).getLast? =
        some stored ∧
      ApprovedWrite (c.shared.records.versions .managedAction copy.actionId)
        th.past write stored page := by
  have hold := actions_in_order hr
  have hrec := hold.inv copy.actionId
  have hcopy := Repository.mem_of_versionAt ((Service.told_of_run hr th hth).seen hw.seen)
  obtain ⟨stored, hlast⟩ : ∃ stored,
      (c.shared.records.versions .managedAction copy.actionId).getLast? = some stored :=
    Option.isSome_iff_exists.mp (List.getLast?_isSome.mpr (List.ne_nil_of_mem hcopy))
  have hstored := List.mem_of_getLast? hlast
  have hunder : stored.status = .executing :=
    ((hold.threads th hth).knows hrole _ copy n stored hw.seen hlast .executing
      (by simp)).mpr hw.underWay
  have happroved : ∀ v ∈ c.shared.records.versions .managedAction copy.actionId,
      v.status = .executing → .approved ∈ v.statuses := by
    intro v hv hst
    obtain ⟨a, ha, hap, hp⟩ := hrec.approved v hv hst
    exact (prefix_statuses hp).subset (hap ▸ (hrec.lawful a ha).mem_statuses)
  have hsame := hrec.sameProposal hcopy hstored (happroved _ hcopy hw.underWay)
    (happroved _ hstored hunder)
  obtain ⟨a, ha, hap, -⟩ := hrec.approved stored hstored hunder
  refine ⟨stored, hlast, ?_⟩
  have hobserved : stored.observedValue = copy.observedValue := by
    obtain ⟨g, hg⟩ : ∃ g,
        (c.shared.records.versions .managedAction copy.actionId).head? = some g :=
      Option.isSome_iff_exists.mp
        (List.isSome_head?.mpr (List.ne_nil_of_mem hcopy))
    rw [(hrec.decided g hg stored hstored).2, (hrec.decided g hg copy hcopy).2]
  exact
    { underWay := hunder
      approved := happroved _ hstored hunder
      notRejected := fun hrej => by
        rw [(hrec.lawful stored hstored).absorbed rfl hrej] at hunder
        cases hunder
      siteId := hw.siteId.trans hsame.siteId.symm
      url := hw.url.trans hsame.normalizedUrl.symm
      key := hw.key.trans (congrArg executeKey hsame.actionId.symm)
      about := (fieldOf_congr hsame).trans hw.about
      approval := ⟨a, ha, hap⟩
      asApproved := fun v hv hst => by
        have hvs := hrec.sameProposal hcopy hv (happroved _ hcopy hw.underWay)
          (hst ▸ (hrec.lawful v hv).mem_statuses)
        exact (recommended_congr hvs write.field).trans hw.target
      read := hw.read
      unchanged := hobserved ▸ pageChanged_eq_false.mp hw.unchanged }

/-- In every reachable state, a process that delivers an execute job and is
about to write a page writes what was approved, while the stored action is under
way, over a page it has just read. -/
theorem execute_writes_approved (hr : Run anyMove ⟨untouchedSites pages, []⟩ c)
    {th : actionMachine.Thread} (hth : th ∈ c.pool) {write : SiteWrite}
    (hwrite : writeOf th.rest = some write) {job : Job} {n : Nat}
    (hjob : inHand th.past = some (job, n))
    (htype : job.jobType = executeActionJobType) :
    ∃ actionId stored page, Executes job actionId ∧
      (c.shared.records.versions .managedAction actionId).getLast? = some stored ∧
      ApprovedWrite (c.shared.records.versions .managedAction actionId) th.past
        write stored page := by
  obtain ⟨kind, rest, past⟩ := th
  obtain ⟨f, rfl⟩ : ∃ f, rest = .call (.ext (.write write.siteId write.url
      write.field write.value write.key)) f := by
    unfold writeOf at hwrite
    split at hwrite
    · next f hrest => cases hwrite; exact ⟨f, hrest⟩
    · cases hwrite
  have hpermitted := ((actions_in_order hr).threads _ hth).permitted.1
  obtain ⟨hrole, ⟨copy, m, page, hw⟩ | ⟨copy, m, hw⟩⟩ := hpermitted
  · obtain ⟨job', n', hjob', hex⟩ := hw.inHand
    obtain ⟨stored, hlast, happ⟩ := hw.approved hr hth hrole
    obtain rfl := (Prod.mk.inj (Option.some.inj (hjob.symm.trans hjob'))).1
    exact ⟨copy.actionId, stored, page, hex, hlast, happ⟩
  · obtain ⟨job', n', hjob', hback⟩ := hw.inHand
    obtain rfl := (Prod.mk.inj (Option.some.inj (hjob.symm.trans hjob'))).1
    exact absurd (htype.symm.trans hback.1) (by decide)

end Runs

/-! ## One delivery -/

/-- A site whose pages all have the same title and description. -/
def sameEverywhere (title description : String) : String → String → SitePage :=
  fun _ _ => ⟨title, description, []⟩

/-- An adapter that changes descriptions. -/
def connector : Adapter := ⟨"hoshyarseo:s1", [.updateMetaDescription], false, true⟩

/-- A proposal for a description is made and approved. -/
def approvedDescription (observed : Option String) (target : String) :
    List (Move (M := actionMachine)) :=
  [.spawn (.proposeDescription "s1" "t" "j0" "u" observed none [target] "model"),
    .act 0 .done, .act 0 (.clock 0), .act 0 .done,
    .spawn (.approve "action:j0" "t" none none),
    .act 1 .done, .act 1 (.ext .allowed),
    .act 1 (.ext (.site ⟨"s1", some "hoshyarseo"⟩)), .act 1 (.clock 1),
    .act 1 (.name "j1"), .act 1 (.clock 1), .act 1 .done, .act 1 .done]

/-- A worker takes the job and claims the action. -/
def claimedByWorker (t : Nat) : List (Move (M := actionMachine)) :=
  [.spawn .runOnce, .act t .done, .act t (.clock 2), .act t .done, .act t .done,
    .act t .done, .act t (.ext (.adapter connector)), .act t (.clock 3),
    .act t .done, .act t .done]

/-- The worker reads the page, up to its write. -/
def readByWorker (t : Nat) : List (Move (M := actionMachine)) :=
  [.act t (.ext (.shows 0 []))]

/-- The worker's write is accepted, recorded and verified. -/
def writtenByWorker (t : Nat) : List (Move (M := actionMachine)) :=
  [.act t (.ext (.accepts (some "c1"))), .act t (.clock 4), .act t (.clock 4),
    .act t .done, .act t .done, .act t (.clock 5), .act t (.ext (.shows 0 [])),
    .act t (.clock 5), .act t .done, .act t .done, .act t (.clock 6),
    .act t .done, .act t .done]

/-- The statuses in the history of a stored action. -/
def historyOf (c : Config actionMachine) (actionId : String) : List ActionStatus :=
  ((c.shared.records.versions .managedAction actionId).getLast?.map
    ManagedAction.statuses).getD []

set_option maxRecDepth 20000 in
theorem action_histories_delivered : ∃ c : Config actionMachine,
    historyOf c "action:j0" = [.awaitingApproval, .approved, .executing, .executed,
      .waitingForRecrawl, .measurementWindowActive] ∧
    ∀ actionId, ActionHistory (c.shared.records.versions .managedAction actionId) := by
  have h : (fires ⟨untouchedSites (sameEverywhere "T" "Old"), []⟩
      (approvedDescription (some "Old") "New" ++ claimedByWorker 2 ++
        readByWorker 2 ++ writtenByWorker 2)).map (historyOf · "action:j0") =
      some [.awaitingApproval, .approved, .executing, .executed,
        .waitingForRecrawl, .measurementWindowActive] := by decide
  obtain ⟨c, hc, hs⟩ := Option.map_eq_some_iff.mp h
  exact ⟨c, hs, action_histories (Run.of_moves hc)⟩

/-- What each process about to write would write, with its job. -/
def writers (c : Config actionMachine) : List (Option SiteWrite × Option String) :=
  c.pool.map fun th => (writeOf th.rest, (inHand th.past).map fun x => x.1.jobType)

set_option maxRecDepth 20000 in
theorem execute_writes_approved_once : ∃ (c : Config actionMachine)
    (th : actionMachine.Thread) (actionId : String) (stored : ManagedAction)
    (page : SitePage), th ∈ c.pool ∧
      ApprovedWrite (c.shared.records.versions .managedAction actionId) th.past
        ⟨"s1", "u", .description, "New", "action:action:j0"⟩ stored page := by
  have h : (fires ⟨untouchedSites (sameEverywhere "T" "Old"), []⟩
      (approvedDescription (some "Old") "New" ++ claimedByWorker 2 ++
        readByWorker 2)).map writers =
      some [(none, none), (none, none),
        (some ⟨"s1", "u", .description, "New", "action:action:j0"⟩,
          some "execute_action")] := by decide
  obtain ⟨c, hc, hw⟩ := Option.map_eq_some_iff.mp h
  obtain ⟨th, hth, he⟩ := List.mem_map.mp
    (show (some ⟨"s1", "u", .description, "New", "action:action:j0"⟩,
      some "execute_action") ∈ writers c by
        rw [hw]
        exact List.mem_of_getElem? (i := 2) rfl)
  obtain ⟨hwrite, hjob⟩ := Prod.mk.inj he
  obtain ⟨⟨job, n⟩, hjob, htype⟩ := Option.map_eq_some_iff.mp hjob
  obtain ⟨actionId, stored, page, -, -, happ⟩ :=
    execute_writes_approved (Run.of_moves hc) hth hwrite hjob htype
  exact ⟨c, th, actionId, stored, page, hth, happ⟩

end SeoAgent.Ports
