import SeoAgent.Scan.Writes
import SeoAgent.Verified.Does

/-!
# One round of the monthly rescan

What a round (`MonthlyRescan.run_round` of `app/scan/monthly.py`) and the queueing of a scan
do to the records when nothing else acts on them. Reads bring what is stored; a scan is
queued with its job in one transaction, or not at all. A round may be cut short by a fault,
and a fault while a scan is queued is logged.

## Main results

* `does_queueScan` — what is stored of a queued scan.
* `does_runRound` — which sites a round queues scans for, and in what order.
-/

namespace SeoAgent.Scan

open SeoAgent.Verified Service

/-! ## What is stored of a site -/

section Stored
variable (r : ScanRecords) (siteId : String)

/-- The latest attempt, as `SiteScanStore.find` reads it. -/
def attemptOf : Option SiteScan := r.latest .siteScan siteId

/-- The finished scan that has a record of its own. -/
def keptOf : Option SiteScan := r.latest .siteScanCompleted siteId

/-- The last finished scan, as `SiteScanStore.completed` reads it. -/
def finishedOf : Option SiteScan :=
  match keptOf r siteId with
  | some scan => some scan
  | none => (attemptOf r siteId).filter (·.status = .completed)

/-- When the site's last finished scan was, if it is time for another: `due`. -/
def dueOf (at_ : Int) (site : ScannedSite) : Option Int :=
  if site.removed then none
  else (finishedOf r site.siteId).bind fun done => dueAfter done (attemptOf r site.siteId) at_

/-- The sites that are due. -/
def dueList (at_ : Int) (sites : List ScannedSite) : List (Int × ScannedSite) :=
  sites.filterMap fun site => (dueOf r at_ site).map fun last => (last, site)

/-- Whether a scan of the tenant is on its way. -/
def tenantOnItsWay (at_ : Int) (tenantId : String) : Bool :=
  (((r.list .siteScan).entries.map fun entry => entry.2.1).filter
    (·.tenantId = tenantId)).any (onItsWay · at_)

variable {r} in
theorem tenantOnItsWay_iff {at_ : Int} {tenantId : String} :
    tenantOnItsWay r at_ tenantId = true ↔ ∃ siteId scan, attemptOf r siteId = some scan ∧
      scan.tenantId = tenantId ∧ onItsWay scan at_ = true := by
  unfold tenantOnItsWay
  rw [List.any_eq_true]
  constructor
  · rintro ⟨scan, hscan, hway⟩
    obtain ⟨hmem, htenant⟩ := List.mem_filter.mp hscan
    obtain ⟨⟨i, x⟩, hentry, rfl⟩ := List.mem_map.mp hmem
    refine ⟨i, x.1, ?_, of_decide_eq_true htenant, hway⟩
    exact Repository.getLast?_of_current (Repository.mem_list_iff.mp hentry)
  · rintro ⟨i, scan, hscan, htenant, hway⟩
    refine ⟨scan, List.mem_filter.mpr ⟨List.mem_map.mpr ?_, decide_eq_true htenant⟩, hway⟩
    refine ⟨(i, scan, (r.versions .siteScan i).length), Repository.mem_list_iff.mpr ?_, rfl⟩
    unfold attemptOf Repository.latest at hscan
    rw [Repository.current, hscan]
    rfl

end Stored

theorem current_map_fst {r : ScanRecords} {t : ScanType} {i : String} :
    (r.current t i).map Prod.fst = r.latest t i := by
  rw [Repository.current, Repository.latest]
  cases (r.versions t i).getLast? with
  | none => rfl
  | some v => rfl

/-! ## Reads -/

section Reads
variable {G : Type} {oracle : Oracle scanBackend scanOutside G} {F : Prop} {r : ScanRecords}
  {at_ : Int}

theorem does_findScan (siteId : String) :
    Does oracle F (findScan siteId) r (Brings F r (attemptOf r siteId)) := by
  have hlatest : (r.current .siteScan siteId).map Prod.fst = attemptOf r siteId := current_map_fst
  exact brings_then (brings_find _ _) (hlatest ▸ brings_pure _)

theorem does_completedScan (siteId : String) :
    Does oracle F (completedScan siteId) r (Brings F r (finishedOf r siteId)) := by
  refine brings_then (brings_find _ _) ?_
  have hkept : (r.current .siteScanCompleted siteId).map Prod.fst = keptOf r siteId :=
    current_map_fst
  unfold finishedOf
  rw [← hkept]
  cases r.current .siteScanCompleted siteId with
  | some found => exact brings_pure _
  | none => exact brings_then (does_findScan siteId) (brings_pure _)

theorem does_due (site : ScannedSite) :
    Does oracle F (due site at_) r (Brings F r (dueOf r at_ site)) := by
  unfold due dueOf
  split
  · exact brings_pure _
  · refine brings_then (does_completedScan site.siteId) ?_
    cases finishedOf r site.siteId with
    | none => exact brings_pure _
    | some done => exact brings_then (does_findScan site.siteId) (brings_pure _)

theorem does_dueSites (sites : List ScannedSite) :
    Does oracle F (dueSites at_ sites) r (Brings F r (dueList r at_ sites)) := by
  induction sites with
  | nil => exact brings_pure _
  | cons site rest ih =>
      refine brings_then (does_due site) (brings_then ih ?_)
      unfold dueList
      rw [List.filterMap_cons]
      cases dueOf r at_ site with
      | none => exact brings_pure _
      | some last => exact brings_pure _

theorem does_scansForTenant (tenantId : String) :
    Does oracle F (scansForTenant tenantId) r
      (Brings F r (((r.list .siteScan).entries.map fun entry => entry.2.1).filter
        (·.tenantId = tenantId))) :=
  brings_then (brings_list _) (brings_pure _)

/-- Whether a tenant was found busy: noted before, or looked up. -/
def busyOf (r : ScanRecords) (at_ : Int) (round : Round) (tenantId : String) : Bool :=
  (round.busy.lookup tenantId).getD (tenantOnItsWay r at_ tenantId)

theorem does_tenantBusy (round : Round) (tenantId : String) :
    Does oracle F (tenantBusy round tenantId at_) r (Brings F r (busyOf r at_ round tenantId)) := by
  unfold tenantBusy busyOf
  cases round.busy.lookup tenantId with
  | some isBusy => exact brings_pure _
  | none => exact brings_then (does_scansForTenant tenantId) (brings_pure _)

end Reads

/-! ## Queueing a scan -/

/-- An oracle for what happens at one time: it reads the clock there, lists these sites and
says which tenants are active, or fails; it loses no answer to a commit and gives names that
are not empty. -/
structure Steady {G : Type} (at_ : Int) (sites : List ScannedSite) (active : String → Bool)
    (oracle : Oracle scanBackend scanOutside G) : Prop where
  now : ∀ g, (oracle g .now).1 = .clock at_
  notLost : ∀ g ws m, (oracle g (.commit ws)).1 ≠ .lost m
  named : ∀ g name, (oracle g .newId).1 = .name name → name ≠ ""
  listed : ∀ g c, (oracle g (.ext .sites)).1 = .ext c → c = .sites sites ∨ ∃ m, c = .fails m
  entitled : ∀ g tenantId c, (oracle g (.ext (.active tenantId))).1 = .ext c →
    c = .flag (active tenantId) ∨ ∃ m, c = .fails m

/-- What a queued scan says. -/
def queuedScan (r : ScanRecords) (site : ScannedSite) (jobId : String) (at_ : Int)
    (trigger : ScanTrigger) : SiteScan where
  siteId := site.siteId
  tenantId := site.principalId
  jobId := jobId
  host := site.host
  requestedAt := at_
  trigger := trigger
  monthlyFailures := failuresBefore trigger (attemptOf r site.siteId)
  previousIssues := (finishedOf r site.siteId).map fun done =>
    issueKeysOf ((done.report.map (·.issues)).getD [])

/-- One more attempt is stored, and nothing else of any scan. -/
structure Queued (r r' : ScanRecords) (scan : SiteScan) : Prop where
  attempts : ∀ siteId, r'.versions .siteScan siteId =
    r.versions .siteScan siteId ++ if siteId = scan.siteId then [scan] else []
  kept : ∀ siteId, r'.versions .siteScanCompleted siteId = r.versions .siteScanCompleted siteId

/-- A finished latest attempt has a record of its own. -/
def HasOwn (r : ScanRecords) (siteId : String) : Prop :=
  ∀ scan, attemptOf r siteId = some scan → scan.status = .completed → keptOf r siteId ≠ none

/-- The job of a scan needs a name and somebody to work for. -/
theorem newJob_cases {jobId principalId : String} {payload : Dict} {at_ : Int} :
    (∃ job, newJob jobId "site_scan" principalId payload at_ = .ok job) ∨
      (∃ e, newJob jobId "site_scan" principalId payload at_ = .error e) ∧
        (jobId = "" ∨ principalId = "") := by
  unfold newJob Ports.Job.new
  by_cases h : jobId ≠ "" ∧ "site_scan" ≠ "" ∧ principalId ≠ "" ∧ 1 ≤ 2 ∧ 2 ≤ 10
  · rw [dif_pos h]
    exact .inl ⟨_, rfl⟩
  · rw [dif_neg h]
    refine .inr ⟨⟨_, rfl⟩, ?_⟩
    by_contra hnames
    rw [not_or] at hnames
    exact h ⟨hnames.1, by decide, hnames.2, by decide, by decide⟩

theorem queued_of_commit {r r' : ScanRecords} {scan : SiteScan} {job : Ports.Job}
    {current : Option (SiteScan × Nat)}
    (h : r.commit [writeOver .siteScan scan.siteId scan current, .create .job job.jobId job] =
      .ok r') : Queued r r' scan := by
  obtain ⟨mid, hscan, hjob⟩ := Repository.commit_cons.mp h
  have hmid : mid = r.append .siteScan scan.siteId scan :=
    append_of_overWrite (B := scanBackend) (Repository.commit_singleton.mpr hscan)
  obtain ⟨-, rfl⟩ := Repository.apply_create (Repository.commit_singleton.mp hjob)
  subst hmid
  refine ⟨fun siteId => ?_, fun siteId => ?_⟩
  · rw [Repository.versions_append_of_ne_type _ _ _ _ (by decide), Repository.versions_append]
    split
    · rfl
    · rw [List.append_nil]
  · rw [Repository.versions_append_of_ne_type _ _ _ _ (by decide),
      Repository.versions_append_of_ne_type _ _ _ _ (by decide)]

section Queueing
variable {G : Type} {oracle : Oracle scanBackend scanOutside G} {F : Prop} {r : ScanRecords}
  {at_ : Int} {sites : List ScannedSite} {active : String → Bool}

theorem does_unkeptScan {scan : SiteScan} (h : HasOwn r scan.siteId) :
    Does oracle F (unkeptScan scan) r (Brings F r none) := by
  refine brings_then (brings_find _ _) ?_
  have hkept : (r.current .siteScanCompleted scan.siteId).map Prod.fst = keptOf r scan.siteId :=
    current_map_fst
  cases hfound : r.current .siteScanCompleted scan.siteId with
  | some found => exact brings_pure _
  | none =>
      refine brings_then (does_findScan scan.siteId) ?_
      rw [hfound] at hkept
      have hunfinished : (attemptOf r scan.siteId).filter (fun current =>
          current.status = .completed ∧ current.jobId ≠ scan.jobId) = none := by
        refine Option.filter_eq_none_iff.mpr fun current hcurrent hdone => ?_
        exact h current hcurrent (of_decide_eq_true hdone).1 hkept.symm
      rw [hunfinished]
      exact brings_pure _

/-- A scan that is queued is stored, or nothing is. -/
theorem does_queueScan (hsteady : Steady at_ sites active oracle) {site : ScannedSite}
    (h : HasOwn r site.siteId) (jobId principalId : String) (trigger : ScanTrigger) :
    Does oracle F (queueScan site jobId principalId at_ trigger) r fun x r' =>
      (x = .ok () ∧ Queued r r' (queuedScan r site jobId at_ trigger)) ∨
        (∃ e, x = .error e) ∧ r' = r ∧ (F ∨ jobId = "" ∨ principalId = "") := by
  have hfault : ∀ e : ScanExc, F → ((Except.error e : Except ScanExc Unit) = .ok () ∧
      Queued r r (queuedScan r site jobId at_ trigger)) ∨
        (∃ e', (Except.error e : Except ScanExc Unit) = .error e') ∧ r = r ∧
          (F ∨ jobId = "" ∨ principalId = "") :=
    fun e hF => .inr ⟨⟨e, rfl⟩, rfl, .inl hF⟩
  refine brings_bind (does_completedScan site.siteId) ?_ hfault
  refine Prog.does_bind (Q := fun x r' => r' = r ∧
    ((∃ job, x = .ok job) ∨ (∃ e, x = .error e) ∧ (jobId = "" ∨ principalId = "")))
    (Prog.does_ofExcept ⟨rfl, newJob_cases⟩) (fun job r' hjob => ?_) fun e r' he => ?_
  · obtain ⟨rfl, -⟩ := hjob
    refine brings_bind (does_findScan site.siteId) ?_ hfault
    refine brings_bind (does_unkeptScan h) ?_ hfault
    refine brings_bind (brings_find _ _) ?_ hfault
    refine brings_bind (brings_find _ _) ?_ hfault
    exact does_commit (fun g m => hsteady.notLost g _ m)
      (fun r' hr' => .inl ⟨rfl, queued_of_commit hr'⟩) hfault
  · obtain ⟨rfl, ⟨job, hjob⟩ | ⟨⟨e', he'⟩, hempty⟩⟩ := he
    · cases hjob
    · exact .inr ⟨⟨e, rfl⟩, rfl, .inr hempty⟩

/-- Whether a scan of a site that is due is queued. -/
theorem does_mayQueue (hsteady : Steady at_ sites active oracle) (site : ScannedSite)
    (isBusy : Bool) :
    Does oracle F (mayQueue site isBusy at_) r
      (Brings F r (!isBusy && (active site.principalId && (dueOf r at_ site).isSome))) := by
  unfold mayQueue
  cases isBusy with
  | true => exact brings_pure _
  | false =>
      refine brings_then (a := active site.principalId) (does_ext ?_ brings_error) ?_
      · intro s g c a s' hc hanswer
        rcases hsteady.entitled g _ c hc with rfl | ⟨m, rfl⟩
        · cases hanswer
          exact brings_ok _
        · cases hanswer
      · cases active site.principalId with
        | true => exact brings_then (does_due site) (brings_pure _)
        | false => exact brings_pure _

/-- A scan of one site is queued, or nothing is and it is logged. -/
theorem does_queueOne (hsteady : Steady at_ sites active oracle) {site : ScannedSite}
    (h : HasOwn r site.siteId) :
    Does oracle F (queueOne site at_) r fun x r' =>
      (x = .ok true ∧ ∃ jobId, Queued r r' (queuedScan r site jobId at_ .monthly)) ∨
        x = .ok false ∧ r' = r ∧ (F ∨ site.principalId = "") := by
  refine Prog.does_tryCatch (Q := fun x r' =>
    (x = .ok true ∧ ∃ jobId, Queued r r' (queuedScan r site jobId at_ .monthly)) ∨
      (∃ e, x = .error e) ∧ r' = r ∧ (F ∨ site.principalId = "")) ?_ ?_ ?_
  · refine Prog.does_bind (Q := fun x r' => r' = r ∧
      ((∃ jobId, x = .ok jobId ∧ jobId ≠ "") ∨ (∃ e, x = .error e) ∧ F))
      (does_newId (fun g name hname => ⟨rfl, .inl ⟨name, rfl, hsteady.named g name hname⟩⟩)
        fun e hF => ⟨rfl, .inr ⟨⟨e, rfl⟩, hF⟩⟩) (fun name r' hname => ?_) fun e r' he => ?_
    · obtain ⟨rfl, ⟨jobId, hjob, hne⟩ | ⟨⟨e, he⟩, -⟩⟩ := hname
      · obtain rfl := Except.ok.inj hjob
        refine Prog.does_bind (does_queueScan hsteady h name site.principalId .monthly)
          (fun _ r'' hqueued => Prog.does_pure ?_) fun e r'' he => ?_
        · rcases hqueued with ⟨-, hqueued⟩ | ⟨⟨e, he⟩, -⟩
          · exact .inl ⟨rfl, name, hqueued⟩
          · cases he
        · rcases he with ⟨he, -⟩ | ⟨-, hsame, hwhy⟩
          · cases he
          · exact .inr ⟨⟨e, rfl⟩, hsame, hwhy.imp id fun hnames => hnames.resolve_left hne⟩
      · cases he
    · obtain ⟨rfl, ⟨_, he, -⟩ | ⟨-, hF⟩⟩ := he
      · cases he
      · exact .inr ⟨⟨e, rfl⟩, rfl, .inl hF⟩
  · rintro a r' (⟨ha, hqueued⟩ | ⟨⟨e, he⟩, -⟩)
    · obtain rfl := Except.ok.inj ha
      exact .inl ⟨rfl, hqueued⟩
    · cases he
  · rintro e r' (⟨he, -⟩ | ⟨-, rfl, hwhy⟩)
    · cases he
    · exact Prog.does_pure (.inr ⟨rfl, rfl, hwhy⟩)

end Queueing

/-! ## A round under way -/

/-- A site a scan was queued for, when its last finished scan was, and the job. -/
structure Pick where
  last : Int
  site : ScannedSite
  jobId : String

/-- The scan that was queued, from what was stored when the round began. -/
def Pick.scan (r₀ : ScanRecords) (at_ : Int) (pick : Pick) : SiteScan :=
  queuedScan r₀ pick.site pick.jobId at_ .monthly

def Pick.entry (pick : Pick) : Int × ScannedSite := (pick.last, pick.site)

def Pick.tenantId (pick : Pick) : String := pick.site.principalId

/-- What a round that began at `r₀` has queued. -/
structure Progress (r₀ : ScanRecords) (at_ : Int) (active : String → Bool) (perRound : Nat)
    (picks : List Pick) (r : ScanRecords) : Prop where
  attempts : ∀ siteId, r.versions .siteScan siteId = r₀.versions .siteScan siteId ++
    (picks.map (Pick.scan r₀ at_)).filter (·.siteId = siteId)
  kept : ∀ siteId, r.versions .siteScanCompleted siteId = r₀.versions .siteScanCompleted siteId
  due : ∀ pick ∈ picks, dueOf r₀ at_ pick.site = some pick.last
  idle : ∀ pick ∈ picks, tenantOnItsWay r₀ at_ pick.tenantId = false
  entitled : ∀ pick ∈ picks, active pick.tenantId = true
  tenants : (picks.map Pick.tenantId).Nodup
  sites : (picks.map (·.site.siteId)).Nodup
  few : picks.length ≤ perRound

section Rounds
variable {r₀ r r' : ScanRecords} {at_ : Int} {active : String → Bool} {perRound : Nat}
  {picks : List Pick} {site : ScannedSite}

/-- A site that is due has no scan on its way. -/
theorem not_onItsWay_of_dueOf {last : Int} (h : dueOf r at_ site = some last) {attempt : SiteScan}
    (hattempt : attemptOf r site.siteId = some attempt) : onItsWay attempt at_ = false := by
  by_contra hway
  rw [Bool.not_eq_false] at hway
  unfold dueOf at h
  split at h
  · cases h
  · obtain ⟨done, -, hafter⟩ := Option.bind_eq_some_iff.mp h
    rw [hattempt, dueAfter, if_pos hway] at hafter
    cases hafter

theorem onItsWay_queuedScan {jobId : String} {trigger : ScanTrigger} :
    onItsWay (queuedScan r site jobId at_ trigger) at_ = true := by
  simp [onItsWay, queuedScan, staleAfter]

/-- The latest attempt after a round: a scan it queued, or what it was. -/
theorem Progress.attemptOf_cases (h : Progress r₀ at_ active perRound picks r) (siteId : String) :
    (∃ pick ∈ picks, pick.site.siteId = siteId ∧ attemptOf r siteId = some (pick.scan r₀ at_)) ∨
      (∀ pick ∈ picks, pick.site.siteId ≠ siteId) ∧ attemptOf r siteId = attemptOf r₀ siteId := by
  unfold attemptOf Repository.latest
  rw [h.attempts siteId]
  by_cases hany : ∃ pick ∈ picks, pick.site.siteId = siteId
  · left
    have hne : (picks.map (Pick.scan r₀ at_)).filter (·.siteId = siteId) ≠ [] := by
      obtain ⟨pick, hpick, hsite⟩ := hany
      exact List.ne_nil_of_mem (List.mem_filter.mpr
        ⟨List.mem_map_of_mem hpick, decide_eq_true hsite⟩)
    rw [List.getLast?_append_of_ne_nil _ hne, List.getLast?_eq_getLast_of_ne_nil hne]
    have hmem := List.getLast_mem hne
    obtain ⟨hscan, hsite⟩ := List.mem_filter.mp hmem
    obtain ⟨pick, hpick, heq⟩ := List.mem_map.mp hscan
    rw [← heq] at hsite ⊢
    exact ⟨pick, hpick, of_decide_eq_true hsite, rfl⟩
  · right
    have hnone : (picks.map (Pick.scan r₀ at_)).filter (·.siteId = siteId) = [] := by
      refine List.filter_eq_nil_iff.mpr fun scan hscan hsite => hany ?_
      obtain ⟨pick, hpick, rfl⟩ := List.mem_map.mp hscan
      exact ⟨pick, hpick, of_decide_eq_true hsite⟩
    rw [hnone, List.append_nil]
    exact ⟨fun pick hpick hsite => hany ⟨pick, hpick, hsite⟩, rfl⟩

theorem Progress.keptOf_eq (h : Progress r₀ at_ active perRound picks r) (siteId : String) :
    keptOf r siteId = keptOf r₀ siteId := by
  unfold keptOf Repository.latest
  rw [h.kept siteId]

theorem Progress.hasOwn (h : Progress r₀ at_ active perRound picks r)
    (hown : ∀ siteId, HasOwn r₀ siteId) (siteId : String) : HasOwn r siteId := by
  intro scan hscan hdone
  rw [h.keptOf_eq siteId]
  rcases h.attemptOf_cases siteId with ⟨pick, -, -, hpick⟩ | ⟨-, hsame⟩
  · obtain rfl := Option.some.inj (hpick.symm.trans hscan)
    cases hdone
  · exact hown siteId scan (hsame ▸ hscan) hdone

/-- What is due after some scans were queued was due before, and none was queued for it. -/
theorem Progress.dueOf_some (h : Progress r₀ at_ active perRound picks r) {last : Int}
    (hdue : dueOf r at_ site = some last) :
    (∀ pick ∈ picks, pick.site.siteId ≠ site.siteId) ∧
      attemptOf r site.siteId = attemptOf r₀ site.siteId ∧
      finishedOf r site.siteId = finishedOf r₀ site.siteId := by
  rcases h.attemptOf_cases site.siteId with ⟨pick, -, -, hpick⟩ | ⟨hnone, hsame⟩
  · have hidle := not_onItsWay_of_dueOf hdue hpick
    rw [Pick.scan, onItsWay_queuedScan] at hidle
    cases hidle
  · refine ⟨hnone, hsame, ?_⟩
    unfold finishedOf
    rw [h.keptOf_eq, hsame]

/-- A tenant no scan was queued for is as busy as it was. -/
theorem Progress.tenantOnItsWay_eq (h : Progress r₀ at_ active perRound picks r)
    {tenantId : String} (htenant : tenantId ∉ picks.map Pick.tenantId) :
    tenantOnItsWay r at_ tenantId = tenantOnItsWay r₀ at_ tenantId := by
  refine Bool.eq_iff_iff.mpr ?_
  rw [tenantOnItsWay_iff, tenantOnItsWay_iff]
  constructor
  · rintro ⟨siteId, scan, hscan, hof, hway⟩
    rcases h.attemptOf_cases siteId with ⟨pick, hpick, -, heq⟩ | ⟨-, hsame⟩
    · obtain rfl := Option.some.inj (heq.symm.trans hscan)
      exact absurd (List.mem_map.mpr ⟨pick, hpick, hof⟩) htenant
    · exact ⟨siteId, scan, hsame ▸ hscan, hof, hway⟩
  · rintro ⟨siteId, scan, hscan, hof, hway⟩
    rcases h.attemptOf_cases siteId with ⟨pick, hpick, rfl, -⟩ | ⟨-, hsame⟩
    · rw [not_onItsWay_of_dueOf (h.due pick hpick) hscan] at hway
      cases hway
    · exact ⟨siteId, scan, hsame.trans hscan, hof, hway⟩

/-- One more scan is queued. -/
theorem Progress.snoc (h : Progress r₀ at_ active perRound picks r) {last : Int} {jobId : String}
    (hdue₀ : dueOf r₀ at_ site = some last) (hdue : (dueOf r at_ site).isSome)
    (hidle : tenantOnItsWay r₀ at_ site.principalId = false)
    (hactive : active site.principalId = true)
    (htenant : site.principalId ∉ picks.map Pick.tenantId) (hfew : picks.length < perRound)
    (hqueued : Queued r r' (queuedScan r site jobId at_ .monthly)) :
    Progress r₀ at_ active perRound (picks ++ [⟨last, site, jobId⟩]) r' := by
  obtain ⟨last', hlast'⟩ := Option.isSome_iff_exists.mp hdue
  obtain ⟨hnew, hattempt, hfinished⟩ := h.dueOf_some hlast'
  have hscan : queuedScan r site jobId at_ .monthly = Pick.scan r₀ at_ ⟨last, site, jobId⟩ := by
    unfold Pick.scan queuedScan
    rw [hattempt, hfinished]
  rw [hscan] at hqueued
  have hall {P : Pick → Prop} (hold : ∀ pick ∈ picks, P pick) (hnew : P ⟨last, site, jobId⟩) :
      ∀ pick ∈ picks ++ [⟨last, site, jobId⟩], P pick := by
    intro pick hpick
    rcases List.mem_append.mp hpick with hpick | hpick
    · exact hold pick hpick
    · exact List.mem_singleton.mp hpick ▸ hnew
  refine
    { attempts := fun siteId => ?_
      kept := fun siteId => (hqueued.kept siteId).trans (h.kept siteId)
      due := hall h.due hdue₀
      idle := hall h.idle hidle
      entitled := hall h.entitled hactive
      tenants := ?_
      sites := ?_
      few := by
        rw [List.length_append, List.length_singleton]
        exact hfew }
  · rw [hqueued.attempts siteId, h.attempts siteId, List.map_append, List.filter_append,
      List.append_assoc]
    congr 2
    rw [List.map_singleton, List.filter_singleton]
    by_cases hsite : siteId = (Pick.scan r₀ at_ ⟨last, site, jobId⟩).siteId
    · rw [if_pos hsite, decide_eq_true hsite.symm]
      rfl
    · rw [if_neg hsite, decide_eq_false (Ne.symm hsite)]
      rfl
  · rw [List.map_append, List.map_singleton]
    refine List.nodup_append.mpr ⟨h.tenants, List.nodup_singleton _, fun a ha b hb hab => ?_⟩
    have hb' : b = site.principalId := List.mem_singleton.mp hb
    rw [hab, hb'] at ha
    exact htenant ha
  · rw [List.map_append, List.map_singleton]
    refine List.nodup_append.mpr ⟨h.sites, List.nodup_singleton _, fun a ha b hb hab => ?_⟩
    obtain ⟨pick, hpick, rfl⟩ := List.mem_map.mp ha
    exact hnew pick hpick (hab.trans (List.mem_singleton.mp hb))

/-! ## The loop -/

/-- Why no scan is queued for a site that is due: there is one for it or for its tenant, the
tenant had one on its way or may have none, or there was a fault. -/
def PassedOver (F : Prop) (r₀ : ScanRecords) (at_ : Int) (active : String → Bool)
    (picks : List Pick) (site : ScannedSite) : Prop :=
  (∃ pick ∈ picks, pick.site.siteId = site.siteId) ∨
    site.principalId ∈ picks.map Pick.tenantId ∨
    tenantOnItsWay r₀ at_ site.principalId = true ∨ active site.principalId = false ∨
    site.principalId = "" ∨ F

theorem PassedOver.mono {F : Prop} {picks' : List Pick} (hsub : picks ⊆ picks')
    (h : PassedOver F r₀ at_ active picks site) : PassedOver F r₀ at_ active picks' site :=
  h.imp (fun ⟨pick, hpick, hsite⟩ => ⟨pick, hsub hpick, hsite⟩)
    (Or.imp_left fun htenant => List.map_subset _ hsub htenant)

/-- What the loop notes of what it has done. -/
structure Notes (r₀ : ScanRecords) (at_ : Int) (picks : List Pick) (round : Round) : Prop where
  queued : round.queued = picks.length
  tenants : ∀ tenantId, tenantId ∈ round.tenants ↔ tenantId ∈ picks.map Pick.tenantId
  busy : ∀ tenantId isBusy, round.busy.lookup tenantId = some isBusy →
    isBusy = tenantOnItsWay r₀ at_ tenantId

/-- How the loop over `rest` comes out, when `picks` were queued before: a first part of it
was worked off. -/
structure WorkedOff (F : Prop) (r₀ : ScanRecords) (at_ : Int) (active : String → Bool)
    (perRound : Nat) (picks : List Pick) (rest : List (Int × ScannedSite)) (r' : ScanRecords)
    (new : List Pick) (done left : List (Int × ScannedSite)) : Prop where
  split : rest = done ++ left
  progress : Progress r₀ at_ active perRound (picks ++ new) r'
  order : (new.map Pick.entry).Sublist done
  full : left = [] ∨ perRound ≤ (picks ++ new).length ∨ F
  passed : ∀ entry ∈ done, PassedOver F r₀ at_ active (picks ++ new) entry.2

variable {F : Prop} {rest : List (Int × ScannedSite)} {entry : Int × ScannedSite}

/-- The loop ends before `rest`. -/
theorem WorkedOff.stop (h : Progress r₀ at_ active perRound picks r)
    (hwhy : rest = [] ∨ perRound ≤ picks.length ∨ F) :
    WorkedOff F r₀ at_ active perRound picks rest r [] [] rest where
  split := rfl
  progress := by rwa [List.append_nil]
  order := List.Sublist.refl _
  full := by rwa [List.append_nil]
  passed := fun _ hentry => absurd hentry List.not_mem_nil

/-- The loop passes over a site. -/
theorem WorkedOff.pass {new : List Pick} {done left : List (Int × ScannedSite)}
    (h : WorkedOff F r₀ at_ active perRound picks rest r' new done left)
    (hpassed : PassedOver F r₀ at_ active (picks ++ new) entry.2) :
    WorkedOff F r₀ at_ active perRound picks (entry :: rest) r' new (entry :: done) left where
  split := by rw [h.split, List.cons_append]
  progress := h.progress
  order := h.order.cons entry
  full := h.full
  passed := List.forall_mem_cons.mpr ⟨hpassed, h.passed⟩

/-- The loop queues a scan of a site. -/
theorem WorkedOff.pick {pick : Pick} {new : List Pick} {done left : List (Int × ScannedSite)}
    (h : WorkedOff F r₀ at_ active perRound (picks ++ [pick]) rest r' new done left) :
    WorkedOff F r₀ at_ active perRound picks (pick.entry :: rest) r' (pick :: new)
      (pick.entry :: done) left := by
  have hlist : picks ++ [pick] ++ new = picks ++ pick :: new := by
    rw [List.append_assoc, List.singleton_append]
  refine
    { split := by rw [h.split, List.cons_append]
      progress := hlist ▸ h.progress
      order := by
        rw [List.map_cons]
        exact h.order.cons_cons _
      full := hlist ▸ h.full
      passed := List.forall_mem_cons.mpr ⟨.inl ⟨pick, ?_, rfl⟩, hlist ▸ h.passed⟩ }
  exact List.mem_append_right _ List.mem_cons_self

variable {round : Round}

theorem Notes.nil : Notes r₀ at_ [] {} :=
  ⟨rfl, fun _ => ⟨fun h => absurd h List.not_mem_nil, fun h => absurd h List.not_mem_nil⟩,
    fun _ _ h => (Option.some_ne_none _ h.symm).elim⟩

/-- What is found of a tenant no scan was queued for is noted. -/
theorem Notes.found (h : Notes r₀ at_ picks round) (tenantId : String) :
    Notes r₀ at_ picks
      { round with busy := (tenantId, tenantOnItsWay r₀ at_ tenantId) :: round.busy } := by
  refine ⟨h.queued, h.tenants, fun other isBusy hlookup => ?_⟩
  rw [List.lookup_cons] at hlookup
  split at hlookup
  · next hsame =>
      rw [eq_of_beq hsame]
      exact (Option.some.inj hlookup).symm
  · exact h.busy other isBusy hlookup

theorem Notes.busyOf_eq (h : Notes r₀ at_ picks round)
    (hprogress : Progress r₀ at_ active perRound picks r) {tenantId : String}
    (htenant : tenantId ∉ round.tenants) :
    busyOf r at_ round tenantId = tenantOnItsWay r₀ at_ tenantId := by
  unfold busyOf
  rw [h.tenants] at htenant
  cases hlookup : round.busy.lookup tenantId with
  | some isBusy => exact h.busy tenantId isBusy hlookup
  | none => exact hprogress.tenantOnItsWay_eq htenant

theorem Notes.snoc (h : Notes r₀ at_ picks round) (pick : Pick) :
    Notes r₀ at_ (picks ++ [pick])
      { round with queued := round.queued + 1, tenants := pick.tenantId :: round.tenants } where
  queued := by rw [List.length_append, List.length_singleton, h.queued]
  tenants := fun tenantId => by
    rw [List.mem_cons, h.tenants, List.map_append, List.mem_append, List.map_singleton,
      List.mem_singleton, or_comm]
  busy := h.busy

/-- A site that may have no scan is passed over. -/
theorem passedOver_of_not_may (hprogress : Progress r₀ at_ active perRound picks r)
    (hdue : dueOf r₀ at_ site = some last)
    (hmay : (!tenantOnItsWay r₀ at_ site.principalId &&
      (active site.principalId && (dueOf r at_ site).isSome)) = false) :
    PassedOver F r₀ at_ active picks site := by
  rw [Bool.and_eq_false_iff, Bool.not_eq_false', Bool.and_eq_false_iff] at hmay
  rcases hmay with hbusy | hinactive | hnotdue
  · exact .inr (.inr (.inl hbusy))
  · exact .inr (.inr (.inr (.inl hinactive)))
  · rcases hprogress.attemptOf_cases site.siteId with ⟨pick, hpick, hsite, -⟩ | ⟨-, hsame⟩
    · exact .inl ⟨pick, hpick, hsite⟩
    · have hsame' : dueOf r at_ site = dueOf r₀ at_ site := by
        unfold dueOf finishedOf
        rw [hprogress.keptOf_eq, hsame]
      rw [hsame', hdue] at hnotdue
      cases hnotdue

/-- The loop works off a first part of the sites that are due. -/
theorem does_queueDue {G : Type} {oracle : Oracle scanBackend scanOutside G}
    {sites : List ScannedSite} (hsteady : Steady at_ sites active oracle)
    (hown : ∀ siteId, HasOwn r₀ siteId) (hprogress : Progress r₀ at_ active perRound picks r)
    (hnotes : Notes r₀ at_ picks round)
    (hdue : ∀ entry ∈ rest, dueOf r₀ at_ entry.2 = some entry.1) :
    Does oracle F (queueDue perRound at_ rest round) r fun _ r' =>
      ∃ new done left, WorkedOff F r₀ at_ active perRound picks rest r' new done left := by
  induction rest generalizing picks round r with
  | nil => exact Prog.does_pure ⟨_, _, _, .stop hprogress (.inl rfl)⟩
  | cons entry rest ih =>
      obtain ⟨last, site⟩ := entry
      obtain ⟨hfirst, hrest⟩ := List.forall_mem_cons.mp hdue
      have hfault : ∀ e : ScanExc, F → ∃ new done left, WorkedOff F r₀ at_ active perRound picks
          ((last, site) :: rest) r new done left :=
        fun _ hF => ⟨_, _, _, .stop hprogress (.inr (.inr hF))⟩
      unfold queueDue
      split
      · next hfull => exact Prog.does_pure ⟨_, _, _, .stop hprogress (.inr (.inl (hnotes.queued ▸ hfull)))⟩
      · next hroom =>
          split
          · next htenant =>
              refine (ih hprogress hnotes hrest).mono ?_
              rintro _ r' ⟨new, done, left, hdone⟩
              have hserved : PassedOver F r₀ at_ active picks site :=
                .inr (.inl ((hnotes.tenants _).mp htenant))
              exact ⟨new, _, left, hdone.pass (hserved.mono (List.subset_append_left _ _))⟩
          · next htenant =>
              refine brings_bind (does_tenantBusy round site.principalId) ?_ hfault
              rw [hnotes.busyOf_eq hprogress htenant]
              refine brings_bind (does_mayQueue hsteady site _) ?_ hfault
              have hnoted := hnotes.found site.principalId
              split
              · next hmay =>
                  rw [Bool.not_eq_true'] at hmay
                  refine (ih hprogress hnoted hrest).mono ?_
                  rintro _ r' ⟨new, done, left, hdone⟩
                  have hpassed : PassedOver F r₀ at_ active picks site :=
                    passedOver_of_not_may hprogress hfirst hmay
                  exact ⟨new, _, left, hdone.pass (hpassed.mono (List.subset_append_left _ _))⟩
              · next hmay =>
                  rw [Bool.not_eq_true', Bool.not_eq_false, Bool.and_eq_true, Bool.not_eq_true',
                    Bool.and_eq_true] at hmay
                  refine Prog.does_bind (does_queueOne hsteady (hprogress.hasOwn hown site.siteId))
                    (fun queued r' hqueued => ?_) fun e r' he => ?_
                  · rcases hqueued with ⟨hok, jobId, hqueued⟩ | ⟨hok, rfl, hwhy⟩
                    · obtain rfl := Except.ok.inj hok
                      have hmore := hprogress.snoc hfirst hmay.2.2 hmay.1 hmay.2.1
                        (fun hin => htenant ((hnotes.tenants _).mpr hin))
                        (hnotes.queued ▸ not_le.mp hroom) hqueued
                      refine (ih hmore (hnoted.snoc ⟨last, site, jobId⟩) hrest).mono ?_
                      rintro _ r'' ⟨new, done, left, hdone⟩
                      exact ⟨_, _, left, hdone.pick⟩
                    · obtain rfl := Except.ok.inj hok
                      refine (ih hprogress hnoted hrest).mono ?_
                      rintro _ r'' ⟨new, done, left, hdone⟩
                      have hpassed : PassedOver F r₀ at_ active picks site := by
                        rcases hwhy with hF | hnobody
                        · exact .inr (.inr (.inr (.inr (.inr hF))))
                        · exact .inr (.inr (.inr (.inr (.inl hnobody))))
                      exact ⟨new, _, left, hdone.pass (hpassed.mono (List.subset_append_left _ _))⟩
                  · rcases he with ⟨he, -⟩ | ⟨he, -⟩
                    · cases he
                    · cases he

/-- The sites that are due, the longest waiting first. -/
def dueInOrder (r : ScanRecords) (at_ : Int) (sites : List ScannedSite) :
    List (Int × ScannedSite) :=
  (dueList r at_ sites).mergeSort fun a b => a.1 ≤ b.1

theorem mem_dueInOrder {sites : List ScannedSite} {entry : Int × ScannedSite} :
    entry ∈ dueInOrder r at_ sites ↔ entry.2 ∈ sites ∧ dueOf r at_ entry.2 = some entry.1 := by
  unfold dueInOrder dueList
  rw [List.mem_mergeSort, List.mem_filterMap]
  constructor
  · rintro ⟨site, hsite, hmap⟩
    obtain ⟨last, hlast, rfl⟩ := Option.map_eq_some_iff.mp hmap
    exact ⟨hsite, hlast⟩
  · rintro ⟨hsite, hlast⟩
    exact ⟨entry.2, hsite, Option.map_eq_some_iff.mpr ⟨entry.1, hlast, rfl⟩⟩

theorem dueInOrder_pairwise (r : ScanRecords) (at_ : Int) (sites : List ScannedSite) :
    (dueInOrder r at_ sites).Pairwise fun a b => a.1 ≤ b.1 := by
  refine (List.pairwise_mergeSort (fun a b c hab hbc => ?_) (fun a b => ?_) _).imp
    of_decide_eq_true
  · exact decide_eq_true ((of_decide_eq_true hab).trans (of_decide_eq_true hbc))
  · rw [Bool.or_eq_true, decide_eq_true_iff, decide_eq_true_iff]
    exact le_total _ _

/-- A round works off a first part of the sites that are due, in their order. -/
theorem does_runRound {G : Type} {oracle : Oracle scanBackend scanOutside G}
    {sites : List ScannedSite} (perRound : Nat) (hsteady : Steady at_ sites active oracle)
    (hown : ∀ siteId, HasOwn r siteId) :
    Does oracle F (runRound perRound) r fun _ r' =>
      ∃ new done left, WorkedOff F r at_ active perRound [] (dueInOrder r at_ sites) r'
        new done left := by
  have hstart : Progress r at_ active perRound [] r :=
    { attempts := fun _ => (List.append_nil _).symm
      kept := fun _ => rfl
      due := fun _ h => absurd h List.not_mem_nil
      idle := fun _ h => absurd h List.not_mem_nil
      entitled := fun _ h => absurd h List.not_mem_nil
      tenants := List.nodup_nil
      sites := List.nodup_nil
      few := Nat.zero_le _ }
  have hfault : ∀ e : ScanExc, F → ∃ new done left, WorkedOff F r at_ active perRound []
      (dueInOrder r at_ sites) r new done left :=
    fun _ hF => ⟨_, _, _, .stop hstart (.inr (.inr hF))⟩
  refine brings_bind (a := at_) (does_now hsteady.now (brings_ok _) brings_error) ?_ hfault
  refine brings_bind (a := sites) (does_ext ?_ brings_error) ?_ hfault
  · intro s g c a s' hc hanswer
    rcases hsteady.listed g c hc with rfl | ⟨m, rfl⟩
    · cases hanswer
      exact brings_ok _
    · cases hanswer
  · refine brings_bind (does_dueSites sites) ?_ hfault
    exact does_queueDue hsteady hown hstart .nil fun entry hentry => (mem_dueInOrder.mp hentry).2

end Rounds

end SeoAgent.Scan
