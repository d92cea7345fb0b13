import SeoAgent.Scan.Writes

/-!
# The order of a site's scans

Each request for a scan takes the place of the one before it: `queue_scan` commits the new
attempt with its job, and the delivery of an older job asks `replaced` before it saves. The
question and the save are steps of their own, and the save goes over whatever is stored, so
the order holds while the answer to that question does not change in between.

## Main results

* `OneScanAtATime.append_same`, `OneScanAtATime.append_new` — a save of the latest scan's
  progress, and a new scan.
* `newest_scan_stays` — in every run whose saves find their own scan still the latest, no
  scan comes back after another.
* `older_scan_returns` — in other runs one does.
-/

namespace SeoAgent.Scan

open SeoAgent.Verified Service Machine

/-! ## The attempts of a site -/

/-- Once another job's scan has taken the place of a job's scan, no later version is of the
first job. -/
def NewestStays (vs : List SiteScan) : Prop :=
  ∀ (i j k : Nat) (older newer later : SiteScan), i < j → j < k → vs[i]? = some older →
    vs[j]? = some newer → vs[k]? = some later → older.jobId ≠ newer.jobId →
    later.jobId ≠ older.jobId

section Attempts
variable {vs : List SiteScan} {v : SiteScan}

/-- A scan of a job that had none. -/
theorem NewestStays.append_new (h : NewestStays vs) (hnew : ∀ w ∈ vs, w.jobId ≠ v.jobId) :
    NewestStays (vs ++ [v]) := by
  intro i j k older newer later hij hjk holder hnewer hlater hne
  have hk : k < (vs ++ [v]).length := (List.getElem?_eq_some_iff.mp hlater).1
  rw [List.length_append, List.length_singleton] at hk
  rw [List.getElem?_append_left (by omega)] at holder hnewer
  by_cases hlt : k < vs.length
  · rw [List.getElem?_append_left hlt] at hlater
    exact h i j k older newer later hij hjk holder hnewer hlater hne
  · obtain rfl : k = vs.length := by omega
    rw [List.getElem?_concat_length] at hlater
    obtain rfl := Option.some.inj hlater
    exact fun heq => hnew older (List.mem_of_getElem? holder) heq.symm

/-- The progress of the latest scan. -/
theorem NewestStays.append_same {last : SiteScan} (h : NewestStays vs)
    (hlast : vs.getLast? = some last) (hsame : last.jobId = v.jobId) :
    NewestStays (vs ++ [v]) := by
  intro i j k older newer later hij hjk holder hnewer hlater hne
  have hk : k < (vs ++ [v]).length := (List.getElem?_eq_some_iff.mp hlater).1
  rw [List.length_append, List.length_singleton] at hk
  rw [List.getElem?_append_left (by omega)] at holder hnewer
  by_cases hlt : k < vs.length
  · rw [List.getElem?_append_left hlt] at hlater
    exact h i j k older newer later hij hjk holder hnewer hlater hne
  · obtain rfl : k = vs.length := by omega
    rw [List.getElem?_concat_length] at hlater
    obtain rfl := Option.some.inj hlater
    rw [List.getLast?_eq_getElem?] at hlast
    rw [← hsame]
    by_cases hj : j = vs.length - 1
    · subst hj
      obtain rfl := Option.some.inj (hnewer.symm.trans hlast)
      exact hne.symm
    · exact h i j (vs.length - 1) older newer last hij (by omega) holder hnewer hlast hne

end Attempts

/-! ## The condition -/

/-- The scan a write stores as the latest attempt. -/
def attemptWrite : Repository.Write ScanType ScanType.Payload → Option (String × SiteScan)
  | .create .siteScan key scan => some (key, scan)
  | .replace .siteScan key scan _ => some (key, scan)
  | _ => none

/-- `replaced` would still answer no: the latest attempt is of the scan's own job. -/
def stillLatest (r : ScanRecords) (key : String) (scan : SiteScan) : Bool :=
  (r.current .siteScan key).any fun latest => latest.1.jobId == scan.jobId

/-- A job is made with it, as by `queue_scan`. -/
def makesJob (ws : ScanWrites) : Bool := ws.any fun w => w.target.1 = .job

def attemptIsLatest (r : ScanRecords) : Op scanBackend scanOutside → Bool
  | .commit ws => makesJob ws || (ws.filterMap attemptWrite).all fun x => stillLatest r x.1 x.2
  | _ => true

section Runs
variable (locations : String → List String)

/-- No scan of a site is queued between the last time a delivery compared the latest attempt
with its own job and its save. -/
def NotReplaced : Condition (scanMachine locations) :=
  eachOp fun c _ _ o _ => attemptIsLatest c.shared.records o = true

instance (c : Config (scanMachine locations)) (m : Move (M := scanMachine locations)) :
    Decidable (NotReplaced locations c m) :=
  inferInstanceAs (Decidable (eachOp _ c m))

variable {locations}

/-! ## Every run -/

/-- The attempts of a site, and their jobs. -/
structure AttemptRecord (r : ScanRecords) (key : String) : Prop where
  stays : NewestStays (r.versions .siteScan key)
  jobs : ∀ scan ∈ r.versions .siteScan key, r.versions .job scan.jobId ≠ []

/-- A transaction that leaves the attempts of a site as they are. -/
theorem AttemptRecord.of_other {r s : ScanRecords} {key : String} (h : AttemptRecord r key)
    (hg : r.Grows s) (hsame : s.versions .siteScan key = r.versions .siteScan key) :
    AttemptRecord s key := by
  refine ⟨hsame ▸ h.stays, fun scan hscan hnone => h.jobs scan (hsame ▸ hscan) ?_⟩
  exact List.eq_nil_of_prefix_nil (hnone ▸ hg .job scan.jobId)

/-- A new scan with its job, which none of the attempts before it had. -/
theorem queued_step {r u s : ScanRecords} {key key' : String} {scan : SiteScan}
    {current : Option (SiteScan × Nat)} {job : Ports.Job} (h : AttemptRecord r key)
    (hu : r.commit [writeOver .siteScan key' scan current] = .ok u)
    (hs : u.apply (.create .job job.jobId job) = .ok s) (named : job.jobId = scan.jobId) :
    AttemptRecord s key := by
  have hu' : u = r.append .siteScan key' scan := append_of_overWrite (B := scanBackend) hu
  obtain ⟨hfresh, hs'⟩ := Repository.apply_create hs
  have hjobs (jobId : String) : u.versions .job jobId = r.versions .job jobId := by
    rw [hu']
    exact Repository.versions_append_of_ne_type _ _ _ _ (fun heq => by cases heq) _
  have hgrows : u.Grows s := Repository.apply_grows hs
  have hmade : s.versions .job scan.jobId ≠ [] := by
    rw [hs', ← named, Repository.versions_append_self]
    exact List.append_ne_nil_of_right_ne_nil _ (List.cons_ne_nil _ _)
  have hkept : AttemptRecord u key → AttemptRecord s key := fun hu =>
    hu.of_other hgrows (Repository.apply_versions_of_ne hs fun heq => by cases heq)
  have hversions := Repository.versions_append r .siteScan key' scan key
  rw [← hu'] at hversions
  have hsame : s.versions .siteScan key = u.versions .siteScan key :=
    Repository.apply_versions_of_ne hs fun heq => by cases heq
  split at hversions
  · refine ⟨?_, fun w hw => ?_⟩
    · rw [hsame, hversions]
      refine h.stays.append_new fun w hw heq => h.jobs w hw ?_
      rw [← hjobs, heq, ← named]
      exact hfresh
    · rw [hsame, hversions] at hw
      rcases List.mem_append.mp hw with hw | hw
      · intro hnone
        refine h.jobs w hw ?_
        rw [← hjobs]
        exact List.eq_nil_of_prefix_nil (hnone ▸ hgrows .job w.jobId)
      · rw [List.mem_singleton.mp hw]
        exact hmade
  · exact hkept (h.of_other (hu' ▸ Repository.grows_append r .siteScan key' scan) hversions)

/-- The progress of the latest attempt. -/
theorem attempt_step {r s : ScanRecords} {key key' : String} {scan : SiteScan}
    {current : Option (SiteScan × Nat)} (h : AttemptRecord r key)
    (hs : r.commit [writeOver .siteScan key' scan current] = .ok s)
    (hlatest : stillLatest r key' scan = true) : AttemptRecord s key := by
  have hs' : s = r.append .siteScan key' scan := append_of_overWrite (B := scanBackend) hs
  have hversions := Repository.versions_append r .siteScan key' scan key
  have hgrows : r.Grows s := Repository.commit_grows hs
  rw [← hs'] at hversions
  split at hversions
  · next hkey =>
      subst hkey
      rw [stillLatest, Option.any_eq_true] at hlatest
      obtain ⟨⟨latest, n⟩, hcurrent, hsame⟩ := hlatest
      have hlast := Repository.getLast?_of_current hcurrent
      have hjob : latest.jobId = scan.jobId := beq_iff_eq.mp hsame
      refine ⟨hversions ▸ h.stays.append_same hlast hjob, fun w hw hnone => ?_⟩
      have hnone' := List.eq_nil_of_prefix_nil (hnone ▸ hgrows .job w.jobId)
      rw [hversions] at hw
      rcases List.mem_append.mp hw with hw | hw
      · exact h.jobs w hw hnone'
      · obtain rfl := List.mem_singleton.mp hw
        exact h.jobs latest (List.mem_of_getLast? hlast) (hjob ▸ hnone')
  · exact h.of_other hgrows hversions

/-- The attempts of a site after a transaction of the requests and jobs. -/
theorem scan_step {past : ScanPast} {r s : ScanRecords} {ws : ScanWrites} {key : String}
    (hcommit : ScanCommit past ws) (hlatest : attemptIsLatest r (.commit ws) = true)
    (hs : r.commit ws = .ok s) (h : AttemptRecord r key) : AttemptRecord s key := by
  have hgrows : r.Grows s := Repository.commit_grows hs
  have hother (hne : ∀ w ∈ ws, w.target.1 ≠ .siteScan) : AttemptRecord s key :=
    h.of_other hgrows
      (Repository.commit_versions_of_ne hs fun w hw htarget => hne w hw (by rw [htarget]))
  cases hcommit with
  | @file key' v current copy jobs read basis keeps decides onlyJobs =>
      refine hother fun w hw => ?_
      rcases List.mem_cons.mp hw with rfl | hw
      · exact fun heq => by cases (writeOver_type .siteFileChange).symm.trans heq
      · exact fun heq => by cases (onlyJobs w hw).symm.trans heq
  | @finished key' scan current =>
      exact hother fun w hw => by
        rw [List.mem_singleton.mp hw]
        exact fun heq => by cases (writeOver_type .siteScanCompleted).symm.trans heq
  | @attempt key' scan current =>
      refine attempt_step h hs ?_
      rcases current with _ | ⟨_, _⟩ <;> exact (Bool.and_eq_true_iff.mp hlatest).1
  | @queued key' scan current job kept named onlyFinished =>
      obtain ⟨m, hkept, hrest⟩ := Repository.commit_append.mp hs
      obtain ⟨u, hu, hjob⟩ := Repository.commit_cons.mp hrest
      have hm : AttemptRecord m key := h.of_other (Repository.commit_grows hkept)
        (Repository.commit_versions_of_ne hkept fun w hw htarget => by
          have hfinished := onlyFinished w hw
          rw [htarget] at hfinished
          cases hfinished)
      exact queued_step hm (Repository.commit_singleton.mpr hu)
        (Repository.commit_singleton.mp hjob) named

/-- In every run in which no delivery saves after its scan was replaced, the newest scan of
each site stays. -/
theorem newest_scan_stays {c : Config (scanMachine locations)}
    (hr : Run (NotReplaced locations) ⟨nothingScanned, []⟩ c) (siteId : String) :
    NewestStays (c.shared.records.versions .siteScan siteId) := by
  have hstart : AllValid (scanTerms locations).Valid nothingScanned.records :=
    fun _ _ _ h => absurd h List.not_mem_nil
  have hempty : AttemptRecord nothingScanned.records siteId := by
    refine ⟨fun i j k older newer later _ _ holder => ?_, fun _ hscan => absurd hscan List.not_mem_nil⟩
    cases holder
  have hinv : AttemptRecord c.shared.records siteId := by
    refine repository_invariant (K := fun r => AttemptRecord r siteId) (scan_kept locations)
      hstart (fun hcom hold hs => ?_) hempty hr
    obtain ⟨t, hgood, f, hp⟩ := hcom.ok
    exact scan_step hcom.permitted (eachOp_act hgood hp) hs hold
  exact hinv.stays

end Runs

/-! ## Two runs -/

/-- A delivery of a first scan until it runs. -/
def beginScan (t : Nat) (jobId : String) : List ScanMove :=
  [.spawn (.siteScan "s-1" jobId), .act t .done, .act t (.ext (.site shop))] ++ answers t 4

/-- It reads the site and finds that it was not replaced. -/
def readsSite (t : Nat) : List ScanMove :=
  [.act t (.ext (.report { homeStatus := some 200 })), .act t .done, .act t (.clock 1)]

def attemptsOf (c : Config (scanMachine fun text => [text])) : List (String × ScanStatus) :=
  (c.shared.records.versions .siteScan "s-1").map fun scan => (scan.jobId, scan.status)

set_option maxRecDepth 20000 in
theorem newest_scan_stays_completed : ∃ c : Config (scanMachine fun text => [text]),
    attemptsOf c = [("j-1", .queued), ("j-1", .running), ("j-1", .completed)] ∧
      NewestStays (c.shared.records.versions .siteScan "s-1") := by
  have h : (firesIf (NotReplaced fun text => [text]) ⟨nothingScanned, []⟩
      (requestScan 0 8 "j-1" 0 ++ beginScan 1 "j-1" ++ readsSite 1 ++ answers 1 6)).map
      attemptsOf = some [("j-1", .queued), ("j-1", .running), ("j-1", .completed)] := by
    decide +kernel
  obtain ⟨c, hc, hs⟩ := Option.map_eq_some_iff.mp h
  exact ⟨c, hs, newest_scan_stays (Run.of_good_moves hc) "s-1"⟩

set_option maxRecDepth 20000 in
/-- A second scan is queued after the first one asked whether it was replaced: the first
one's result goes over the second one's record, whose delivery then finds another job. -/
theorem older_scan_returns : ∃ c : Config (scanMachine fun text => [text]),
    Run anyMove ⟨nothingScanned, []⟩ c ∧
      ¬NewestStays (c.shared.records.versions .siteScan "s-1") := by
  have h : (fires ⟨nothingScanned, []⟩ (requestScan 0 8 "j-1" 0 ++ beginScan 1 "j-1" ++
      readsSite 1 ++ requestScan 2 8 "j-2" 2000000000 ++ answers 1 6)).map attemptsOf =
      some [("j-1", .queued), ("j-1", .running), ("j-2", .queued), ("j-1", .completed)] := by
    decide +kernel
  obtain ⟨c, hc, hs⟩ := Option.map_eq_some_iff.mp h
  refine ⟨c, Run.of_moves hc, fun hstays => ?_⟩
  have hjobs : (c.shared.records.versions .siteScan "s-1").map (·.jobId) =
      ["j-1", "j-1", "j-2", "j-1"] := by
    have hfirst := congrArg (List.map Prod.fst) hs
    rwa [attemptsOf, List.map_map] at hfirst
  have hjob (k : Nat) : (c.shared.records.versions .siteScan "s-1")[k]?.map (·.jobId) =
      ["j-1", "j-1", "j-2", "j-1"][k]? := by
    rw [← hjobs, List.getElem?_map]
  obtain ⟨older, holder, hold⟩ := Option.map_eq_some_iff.mp (hjob 1)
  obtain ⟨newer, hnewer, hnew⟩ := Option.map_eq_some_iff.mp (hjob 2)
  obtain ⟨later, hlater, hlate⟩ := Option.map_eq_some_iff.mp (hjob 3)
  refine hstays 1 2 3 older newer later (by omega) (by omega) holder hnewer hlater ?_ ?_
  · rw [hold, hnew]
    decide
  · rw [hold, hlate]

end SeoAgent.Scan
