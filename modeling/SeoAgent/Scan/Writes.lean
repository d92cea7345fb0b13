import SeoAgent.Verified.Asks
import SeoAgent.Scan.Requests

/-!
# What scans and requests write

Every transaction of the requests and the jobs: a file change computed from a copy that
was read before, the latest attempt of a site with or without its job, or the last
finished scan.

## Main results

* `scan_kept` — every request and every job writes only these.
-/

namespace SeoAgent.Scan

open SeoAgent.Verified Service Prog

abbrev ScanRecords : Type := Repository ScanType ScanType.Payload

/-! ## The terms -/

/-- A file change was read. -/
abbrev ReadFile (past : ScanPast) (key : String) (copy : Option (StoredFile × Nat)) : Prop :=
  (⟨.find .siteFileChange key, .ok copy⟩ : (iface scanBackend scanOutside).Event) ∈ past

/-- The transactions, and what was read before. -/
inductive ScanCommit (past : ScanPast) : ScanWrites → Prop
  | file {key : String} {v : StoredFile} {current copy : Option (StoredFile × Nat)}
      {jobs : ScanWrites} (read : ReadFile past key copy) (basis : v.basis = copyVersion copy)
      (keeps : copyHistory copy <+: v.change.history)
      (decides : v.decision = true → copyHistory copy ≠ v.change.history)
      (onlyJobs : ∀ w ∈ jobs, w.target.1 = .job) :
      ScanCommit past (writeOver .siteFileChange key v current :: jobs)
  | finished {key : String} {scan : SiteScan} {current : Option (SiteScan × Nat)} :
      ScanCommit past [writeOver .siteScanCompleted key scan current]
  | attempt {key : String} {scan : SiteScan} {current : Option (SiteScan × Nat)} :
      ScanCommit past [writeOver .siteScan key scan current]
  | queued {key : String} {scan : SiteScan} {current : Option (SiteScan × Nat)} {job : Ports.Job}
      {kept : ScanWrites} (named : job.jobId = scan.jobId)
      (onlyFinished : ∀ w ∈ kept, w.target.1 = .siteScanCompleted) :
      ScanCommit past (kept ++ [writeOver .siteScan key scan current, .create .job job.jobId job])

def scanPermits (past : ScanPast) : Op scanBackend scanOutside → Prop
  | .commit ws => ScanCommit past ws
  | _ => True

/-- What may be stored. -/
def scanValid : (t : ScanType) → String → t.Payload → Prop
  | .siteFileChange, i, v => i = fileKey v.change.siteId v.change.kind
  | _, _, _ => True

@[reducible] def scanContract : Contract (iface scanBackend scanOutside) where
  permits past o := scanPermits past o ∧ writesValid scanValid o
  trusts := readsValid scanValid

/-- A part of which nothing is said. -/
abbrev Keeps {α : Type} (p : ScanProc α) : Prop := Gives scanContract (fun _ => True) p

/-- A part that keeps the terms after `past`. -/
abbrev KeepsFrom {α : Type} (past : ScanPast) (p : ScanProc α) : Prop :=
  wp scanContract (Returns fun _ _ => True) p past

section Terms
variable (locations : String → List String)

@[reducible] def scanTerms : Terms (scanProcesses locations) where
  Valid := scanValid
  permits := fun _ => scanPermits

end Terms

/-! ## Operations -/

theorem findRecord_keeps {t : ScanType} {i : String} : Keeps (findRecord t i) :=
  gives_ask (fun _ => ⟨trivial, trivial⟩) fun _ _ => trivial

theorem askOutside_keeps {x : ScanOp} : Keeps (askOutside x) :=
  gives_ask (fun _ => ⟨trivial, trivial⟩) fun _ _ => trivial

theorem readClock_keeps : Keeps readClock :=
  gives_ask (fun _ => ⟨trivial, trivial⟩) fun _ _ => trivial

theorem makeId_keeps : Keeps makeId :=
  gives_ask (fun _ => ⟨trivial, trivial⟩) fun _ _ => trivial

theorem commitAll_keeps {ws : ScanWrites} {past : ScanPast} (h : ScanCommit past ws)
    (hvalid : ∀ w ∈ ws, w.Carries scanValid) : KeepsFrom past (commitAll ws) :=
  wp_ask ⟨h, hvalid⟩ fun r _ => by cases r <;> trivial

theorem writeOver_carries (t : ScanType) {i : String} {v : t.Payload} (h : scanValid t i v)
    (current : Option (t.Payload × Nat)) : (writeOver t i v current).Carries scanValid :=
  overWrite_carries (B := scanBackend) h current

/-- What a write over a record is about. -/
theorem writeOver_type (t : ScanType) {i : String} {v : t.Payload}
    {current : Option (t.Payload × Nat)} : (writeOver t i v current).target.1 = t :=
  congrArg Prod.fst (overWrite_target (B := scanBackend))

/-! ## The scan store -/

theorem findScan_keeps {siteId : String} : Keeps (findScan siteId) :=
  gives_bind findRecord_keeps fun _ _ => gives_pure trivial

theorem completedScan_keeps {siteId : String} : Keeps (completedScan siteId) := by
  refine gives_bind findRecord_keeps fun found _ => ?_
  rcases found with _ | ⟨scan, n⟩
  · exact gives_bind findScan_keeps fun _ _ => gives_pure trivial
  · exact gives_pure trivial

theorem unkeptScan_keeps {scan : SiteScan} : Keeps (unkeptScan scan) := by
  refine gives_bind findRecord_keeps fun found _ => ?_
  rcases found with _ | ⟨kept, n⟩
  · exact gives_bind findScan_keeps fun _ _ => gives_pure trivial
  · exact gives_pure trivial

theorem saveCompleted_keeps {scan : Option SiteScan} : Keeps (saveCompleted scan) := by
  cases scan with
  | none => exact gives_pure trivial
  | some scan =>
      refine gives_bind findRecord_keeps fun current _ past => ?_
      refine commitAll_keeps .finished fun w hw => ?_
      rw [List.mem_singleton.mp hw]
      exact writeOver_carries .siteScanCompleted trivial current

theorem saveAttempt_keeps {scan : SiteScan} : Keeps (saveOver .siteScan scan.siteId scan) := by
  refine gives_bind findRecord_keeps fun current _ past => ?_
  refine commitAll_keeps .attempt fun w hw => ?_
  rw [List.mem_singleton.mp hw]
  exact writeOver_carries .siteScan trivial current

theorem saveScan_keeps {scan : SiteScan} : Keeps (saveScan scan) :=
  gives_bind unkeptScan_keeps fun _ _ => gives_bind saveCompleted_keeps fun _ _ =>
    gives_bind saveAttempt_keeps fun _ _ => saveCompleted_keeps

theorem saveQueued_keeps {scan : SiteScan} {job : Ports.Job} (h : job.jobId = scan.jobId) :
    Keeps (saveQueued scan job) := by
  refine gives_bind unkeptScan_keeps fun unkept _ => ?_
  refine gives_bind findRecord_keeps fun kept _ => ?_
  refine gives_bind findRecord_keeps fun latest _ past => ?_
  have hkept : ∀ w ∈ unkept.toList.map (writeOver .siteScanCompleted scan.siteId · kept),
      w.target.1 = .siteScanCompleted ∧ w.Carries scanValid := by
    intro w hw
    obtain ⟨finished, -, rfl⟩ := List.mem_map.mp hw
    exact ⟨writeOver_type .siteScanCompleted, writeOver_carries .siteScanCompleted trivial kept⟩
  refine commitAll_keeps (.queued h fun w hw => (hkept w hw).1) fun w hw => ?_
  rcases List.mem_append.mp hw with hw | hw
  · exact (hkept w hw).2
  · rcases List.mem_cons.mp hw with rfl | hw
    · exact writeOver_carries .siteScan trivial latest
    · rw [List.mem_singleton.mp hw]
      trivial

theorem scansForTenant_keeps {tenantId : String} : Keeps (scansForTenant tenantId) :=
  gives_bind (gives_ask (fun _ => ⟨trivial, trivial⟩) fun _ _ => trivial) fun _ _ =>
    gives_pure trivial

/-! ## Queueing -/

theorem newJob_jobId {jobId jobType principalId : String} {payload : Dict} {at_ : Int}
    {job : Ports.Job} (h : newJob jobId jobType principalId payload at_ = .ok job) :
    job.jobId = jobId := by
  unfold newJob Ports.Job.new at h
  split at h
  · next made hmade =>
      split at hmade
      · cases hmade
        cases h
        rfl
      · cases hmade
  · cases h

theorem queueScan_keeps {site : ScannedSite} {jobId principalId : String} {at_ : Int}
    {trigger : ScanTrigger} : Keeps (queueScan site jobId principalId at_ trigger) := by
  refine gives_bind completedScan_keeps fun done _ => ?_
  refine gives_bind (gives_ofExcept fun _ h => newJob_jobId h) fun job hjob => ?_
  exact gives_bind findScan_keeps fun attempt _ => saveQueued_keeps hjob

theorem due_keeps {site : ScannedSite} {at_ : Int} : Keeps (due site at_) := by
  unfold due
  split
  · exact gives_pure trivial
  · refine gives_bind completedScan_keeps fun done _ => ?_
    cases done with
    | none => exact gives_pure trivial
    | some done => exact gives_bind findScan_keeps fun _ _ => gives_pure trivial

theorem dueSites_keeps {at_ : Int} {sites : List ScannedSite} : Keeps (dueSites at_ sites) := by
  induction sites with
  | nil => exact gives_pure trivial
  | cons site rest ih =>
      exact gives_bind due_keeps fun _ _ => gives_bind ih fun _ _ => gives_pure trivial

theorem tenantBusy_keeps {round : Round} {tenantId : String} {at_ : Int} :
    Keeps (tenantBusy round tenantId at_) := by
  unfold tenantBusy
  split
  · exact gives_pure trivial
  · exact gives_bind scansForTenant_keeps fun _ _ => gives_pure trivial

theorem mayQueue_keeps {site : ScannedSite} {isBusy : Bool} {at_ : Int} :
    Keeps (mayQueue site isBusy at_) := by
  unfold mayQueue
  split
  · exact gives_pure trivial
  · refine gives_bind askOutside_keeps fun active _ => ?_
    split
    · exact gives_bind due_keeps fun _ _ => gives_pure trivial
    · exact gives_pure trivial

theorem queueOne_keeps {site : ScannedSite} {at_ : Int} : Keeps (queueOne site at_) :=
  gives_tryCatch (gives_bind makeId_keeps fun _ _ => gives_bind queueScan_keeps fun _ _ =>
    gives_pure trivial) fun _ => gives_pure trivial

theorem queueDue_keeps {perRound : Nat} {at_ : Int} {found : List (Int × ScannedSite)} :
    ∀ {round : Round}, Keeps (queueDue perRound at_ found round) := by
  induction found with
  | nil => exact gives_pure trivial
  | cons first rest ih =>
      intro round
      unfold queueDue
      split
      · exact gives_pure trivial
      · split
        · exact ih
        · refine gives_bind tenantBusy_keeps fun isBusy _ => ?_
          refine gives_bind mayQueue_keeps fun may _ => ?_
          split
          · exact ih
          · exact gives_bind queueOne_keeps fun _ _ => ih

theorem runRound_keeps {perRound : Nat} : Keeps (runRound perRound) :=
  gives_bind readClock_keeps fun _ _ => gives_bind askOutside_keeps fun _ _ =>
    gives_bind dueSites_keeps fun _ _ => queueDue_keeps

theorem ownedSite_keeps {siteId principalId : String} : Keeps (ownedSite siteId principalId) := by
  refine gives_bind (gives_tryCatch askOutside_keeps fun e => ?_) fun site _ => ?_
  · cases e <;> exact gives_throw
  · split
    · exact gives_throw
    · split
      · exact gives_throw
      · exact gives_pure trivial

theorem startScan_keeps {siteId principalId : String} : Keeps (startScan siteId principalId) := by
  refine gives_bind ownedSite_keeps fun site _ => gives_bind askOutside_keeps fun _ _ => ?_
  split
  · exact gives_throw
  · refine gives_bind readClock_keeps fun at_ _ => gives_bind scansForTenant_keeps fun mine _ => ?_
    refine gives_bind (gives_ofExcept fun _ _ => trivial) fun _ _ => ?_
    exact gives_bind makeId_keeps fun jobId _ => queueScan_keeps

/-! ## File changes -/

/-- A change was computed from a copy that was read. -/
structure FromCopy (past : ScanPast) (copy : Option (StoredFile × Nat)) (change : SiteFileChange) :
    Prop where
  read : ReadFile past (fileKey change.siteId change.kind) copy
  keeps : copyHistory copy <+: change.history

theorem FromCopy.mono {past past' : ScanPast} {copy : Option (StoredFile × Nat)}
    {change : SiteFileChange} (h : FromCopy past copy change) (hs : past <:+ past') :
    FromCopy past' copy change := ⟨hs.subset h.read, h.keeps⟩

theorem saveFileWith_keeps {jobs : ScanWrites} {copy : Option (StoredFile × Nat)}
    {change : SiteFileChange} {decision : Bool} {past : ScanPast} (h : FromCopy past copy change)
    (hdecides : decision = true → copyHistory copy ≠ change.history)
    (hjobs : ∀ w ∈ jobs, ∃ i job, w = .create .job i job) :
    KeepsFrom past (saveFileWith jobs copy change decision) := by
  have hvalid : scanValid .siteFileChange (fileKey change.siteId change.kind)
      (computedFrom copy change decision) := rfl
  refine returns_bind (findRecord_keeps past) fun past' current hs _ => ?_
  refine commitAll_keeps (.file (h.mono hs).read rfl h.keeps hdecides fun w hw => ?_) fun w hw => ?_
  · obtain ⟨i, job, rfl⟩ := hjobs w hw
    rfl
  · rcases List.mem_cons.mp hw with rfl | hw
    · exact writeOver_carries .siteFileChange hvalid current
    · obtain ⟨i, job, rfl⟩ := hjobs w hw
      trivial

theorem record_ne {change : SiteFileChange} {copy : Option (StoredFile × Nat)} {at_ : Int}
    {actor reason : String} (h : copyHistory copy <+: change.history) :
    copyHistory copy <+: (change.record at_ actor reason).history ∧
      copyHistory copy ≠ (change.record at_ actor reason).history := by
  refine ⟨h.trans (List.prefix_append _ _), fun heq => ?_⟩
  have hlength := congrArg List.length heq
  have hle := h.length_le
  simp only [SiteFileChange.record, List.length_append, List.length_singleton] at hlength
  omega

theorem saveBySystem_keeps {copy : Option (StoredFile × Nat)} {change : SiteFileChange}
    {reason : String} {past : ScanPast} (h : FromCopy past copy change) :
    KeepsFrom past (saveBySystem copy change reason) := by
  refine returns_bind (readClock_keeps past) fun past' at_ hs _ => ?_
  exact saveFileWith_keeps ⟨(h.mono hs).read, (record_ne h.keeps).1⟩ (fun hfalse => by cases hfalse)
    fun _ hw => absurd hw List.not_mem_nil

theorem saveByCustomer_keeps {copy : StoredFile × Nat} {change : SiteFileChange}
    {principalId reason : String} {decision : Bool} {jobs : ScanWrites} {past : ScanPast}
    (h : FromCopy past (some copy) change) (hjobs : ∀ w ∈ jobs, ∃ i job, w = .create .job i job) :
    KeepsFrom past (saveByCustomer copy change principalId reason decision jobs) := by
  refine returns_bind (readClock_keeps past) fun past' at_ hs _ => ?_
  exact saveFileWith_keeps ⟨(h.mono hs).read, (record_ne h.keeps).1⟩
    (fun _ => (record_ne h.keeps).2) hjobs

/-- What a copy that was found is of. -/
def IsOf (siteId : String) (kind : SiteFileKind) (copy : Option (StoredFile × Nat)) : Prop :=
  ∀ stored n, copy = some (stored, n) →
    fileKey siteId kind = fileKey stored.change.siteId stored.change.kind

theorem findFile_keeps {siteId : String} {kind : SiteFileKind} {past : ScanPast} :
    wp scanContract (Returns fun past' copy =>
      ReadFile past' (fileKey siteId kind) copy ∧ IsOf siteId kind copy)
      (findFile siteId kind) past := by
  refine wp_ask ⟨trivial, trivial⟩ fun r hr => ?_
  cases r with
  | error e => trivial
  | ok copy =>
      refine ⟨List.mem_cons_self, fun stored n heq => ?_⟩
      subst heq
      exact hr

/-- A change of the copy's own site and kind. -/
theorem fromCopy_of_read {siteId : String} {kind : SiteFileKind} {past : ScanPast}
    {copy : StoredFile × Nat} {change : SiteFileChange}
    (hread : ReadFile past (fileKey siteId kind) (some copy)) (hof : IsOf siteId kind (some copy))
    (hsite : change.siteId = copy.1.change.siteId) (hkind : change.kind = copy.1.change.kind)
    (hhistory : change.history = copy.1.change.history) : FromCopy past (some copy) change := by
  refine ⟨?_, ?_⟩
  · rw [hsite, hkind, ← hof copy.1 copy.2 rfl]
    exact hread
  · rw [hhistory]
    exact List.prefix_refl _

/-! ## The jobs -/

section Locations
variable {locations : String → List String}

theorem refreshSitemapText_keeps {siteId : String} {kind : SiteFileKind} {copy : StoredFile × Nat}
    {plan : FilePlan} {past : ScanPast} (hread : ReadFile past (fileKey siteId kind) (some copy))
    (hof : IsOf siteId kind (some copy)) :
    KeepsFrom past (refreshSitemapText locations copy plan) := by
  unfold refreshSitemapText
  dsimp only
  split
  · trivial
  · split
    · split
      · trivial
      · exact saveBySystem_keeps (fromCopy_of_read hread hof rfl rfl rfl)
    · exact saveFileWith_keeps (fromCopy_of_read hread hof rfl rfl rfl)
        (fun hfalse => by cases hfalse) fun _ hw => absurd hw List.not_mem_nil

theorem mergeProposal_keeps {site : ScannedSite} {report : CrawlReport} {plan : FilePlan} :
    Keeps (mergeProposal locations site report plan) := by
  intro past
  refine returns_bind findFile_keeps fun past' copy hs ⟨hread, hof⟩ => ?_
  dsimp only
  split
  · next found hfound =>
      obtain rfl : copy = some found := (Option.filter_eq_some_iff.mp hfound).1
      split
      · exact refreshSitemapText_keeps hread hof
      · trivial
  · exact saveBySystem_keeps ⟨hread, List.prefix_refl _⟩

theorem mergeProposals_keeps {site : ScannedSite} {report : CrawlReport} {plans : List FilePlan} :
    Keeps (mergeProposals locations site report plans) := by
  induction plans with
  | nil => exact gives_pure trivial
  | cons plan rest ih => exact gives_bind mergeProposal_keeps fun _ _ => ih

theorem withdraw_keeps {siteId : String} {kind : SiteFileKind} : Keeps (withdraw siteId kind) := by
  intro past
  refine returns_bind findFile_keeps fun past' copy hs ⟨hread, hof⟩ => ?_
  cases copy with
  | none => trivial
  | some copy =>
      dsimp only
      split
      · exact saveBySystem_keeps (fromCopy_of_read hread hof rfl rfl rfl)
      · trivial

theorem withdrawAll_keeps {siteId : String} {kinds : List SiteFileKind} :
    Keeps (withdrawAll siteId kinds) := by
  induction kinds with
  | nil => exact gives_pure trivial
  | cons kind rest ih => exact gives_bind withdraw_keeps fun _ _ => ih

theorem refreshProposals_keeps {site : ScannedSite} {report : CrawlReport} :
    Keeps (refreshProposals locations site report) := by
  refine gives_bind findRecord_keeps fun copy _ => ?_
  refine gives_bind mergeProposals_keeps fun _ _ => ?_
  split
  · exact gives_pure trivial
  · exact withdrawAll_keeps

theorem replaced_keeps {running : SiteScan} : Keeps (replaced running) :=
  gives_bind findScan_keeps fun _ _ => gives_pure trivial

theorem unreachable_keeps {running : SiteScan} {report : CrawlReport} :
    Keeps (unreachable running report) := by
  unfold unreachable
  split
  · exact gives_bind completedScan_keeps fun _ _ => gives_pure trivial
  · exact gives_pure trivial

theorem readSite_keeps {site : ScannedSite} {running : SiteScan} :
    Keeps (readSite site running) := by
  refine gives_bind askOutside_keeps fun report _ => ?_
  refine gives_bind unreachable_keeps fun silent _ => gives_bind replaced_keeps fun isReplaced _ => ?_
  split
  · exact gives_pure trivial
  · split
    · exact gives_bind saveScan_keeps fun _ _ => gives_pure trivial
    · exact gives_bind readClock_keeps fun at_ _ =>
        gives_bind saveScan_keeps fun _ _ => gives_pure trivial

theorem failScan_keeps {running : SiteScan} {e : ScanExc} : Keeps (failScan running e) := by
  refine gives_bind replaced_keeps fun isReplaced _ => ?_
  split
  · exact gives_pure trivial
  · exact gives_bind saveScan_keeps fun _ _ => gives_throw

theorem siteScanHandler_keeps {siteId jobId : String} :
    Keeps (siteScanHandler locations siteId jobId) := by
  refine gives_bind findScan_keeps fun found _ => ?_
  dsimp only
  split
  · exact gives_pure trivial
  · refine gives_bind askOutside_keeps fun site _ => ?_
    split
    · exact saveScan_keeps
    · refine gives_bind saveScan_keeps fun _ _ => ?_
      refine gives_bind (gives_tryCatch readSite_keeps fun e => failScan_keeps) fun report _ => ?_
      cases report with
      | none => exact gives_pure trivial
      | some report => exact refreshProposals_keeps

theorem siteFileHandler_keeps {siteId : String} {kind : SiteFileKind} :
    Keeps (siteFileHandler siteId kind) := by
  intro past
  refine returns_bind findFile_keeps fun past₁ found _ ⟨hread, hof⟩ => ?_
  dsimp only
  split
  · trivial
  · next copy hcopy =>
      obtain rfl : found = some copy := (Option.filter_eq_some_iff.mp hcopy).1
      refine returns_bind (askOutside_keeps past₁) fun past₂ site hs₂ _ => ?_
      split
      · trivial
      · refine returns_bind (askOutside_keeps past₂) fun past₃ ⟨shown, seen⟩ hs₃ _ => ?_
        have hread' : ReadFile past₃ (fileKey siteId kind) (some copy) :=
          (hs₂.trans hs₃).subset hread
        dsimp only
        split
        · exact saveBySystem_keeps (fromCopy_of_read hread' hof rfl rfl rfl)
        · exact saveBySystem_keeps (fromCopy_of_read hread' hof rfl rfl rfl)

end Locations

/-! ## The requests about files -/

theorem getChange_keeps {siteId : String} {kind : SiteFileKind} {past : ScanPast} :
    wp scanContract (Returns fun past' copy =>
      ReadFile past' (fileKey siteId kind) (some copy) ∧ IsOf siteId kind (some copy))
      (getChange siteId kind) past := by
  refine returns_bind findFile_keeps fun past' copy _ hcopy => ?_
  cases copy with
  | none => trivial
  | some copy => exact hcopy

theorem approveFile_keeps {siteId : String} {kind : SiteFileKind} {principalId : String} :
    Keeps (approveFile siteId kind principalId) := by
  refine gives_bind ownedSite_keeps fun site _ past => ?_
  refine returns_bind getChange_keeps fun past' copy _ ⟨hread, hof⟩ => ?_
  split
  · trivial
  · exact saveByCustomer_keeps (fromCopy_of_read hread hof rfl rfl rfl)
      fun _ hw => absurd hw List.not_mem_nil

theorem rejectFile_keeps {siteId : String} {kind : SiteFileKind} {principalId : String} :
    Keeps (rejectFile siteId kind principalId) := by
  refine gives_bind ownedSite_keeps fun site _ past => ?_
  refine returns_bind getChange_keeps fun past' copy _ ⟨hread, hof⟩ => ?_
  split
  · trivial
  · exact saveByCustomer_keeps (fromCopy_of_read hread hof rfl rfl rfl)
      fun _ hw => absurd hw List.not_mem_nil

theorem checkFile_keeps {siteId : String} {kind : SiteFileKind} {principalId : String} :
    Keeps (checkFile siteId kind principalId) := by
  refine gives_bind ownedSite_keeps fun site _ past => ?_
  refine returns_bind getChange_keeps fun past₁ copy _ ⟨hread, hof⟩ => ?_
  split
  · trivial
  · refine returns_bind (readClock_keeps past₁) fun past₂ at_ hs₂ _ => ?_
    split
    · trivial
    · refine returns_bind (makeId_keeps past₂) fun past₃ jobId hs₃ _ => ?_
      refine returns_ofExcept_bind fun job _ => ?_
      refine saveByCustomer_keeps (fromCopy_of_read ((hs₂.trans hs₃).subset hread) hof rfl rfl rfl)
        fun w hw => ?_
      exact ⟨_, job, List.mem_singleton.mp hw⟩

/-- Every request and every job keeps the terms. -/
theorem scan_kept (locations : String → List String) : (scanTerms locations).Kept := by
  intro k
  cases k with
  | startScan siteId principalId => exact startScan_keeps.keeps
  | monthlyRound perRound => exact runRound_keeps.keeps
  | siteScan siteId jobId => exact siteScanHandler_keeps.keeps
  | siteFile siteId kind => exact siteFileHandler_keeps.keeps
  | approveFile siteId kind principalId => exact approveFile_keeps.keeps
  | checkFile siteId kind principalId => exact checkFile_keeps.keeps
  | rejectFile siteId kind principalId => exact rejectFile_keeps.keeps

end SeoAgent.Scan
