import Mathlib
import SeoAgent.Scan.Store

/-!
# Queueing scans

`queue_scan` and the monthly rescan (`app/scan/monthly.py`).
-/

namespace SeoAgent.Scan

open SeoAgent.Verified Service

/-- A day, in microseconds. -/
def day : Int := 86400000000

/-- Microseconds of `RESCAN_EVERY`, `STALE_AFTER`, `RETRY_FAILED_AFTER` and `MAX_RETRY_WAIT`. -/
def rescanEvery : Int := 30 * day
def staleAfter : Int := 900000000
def retryFailedAfter : Int := day
def maxRetryWait : Int := 8 * day

/-- `Job(...)` of a scan or a look. -/
def newJob (jobId jobType principalId : String) (payload : Dict) (at_ : Int) :
    Except ScanExc Ports.Job :=
  match Ports.Job.new jobId jobType principalId payload 2 at_ with
  | .ok job => .ok job
  | .error e => .error (.validationError e.message)

/-- Monthly tries that failed in a row before a scan. -/
def failuresBefore (trigger : ScanTrigger) : Option SiteScan → Nat
  | some attempt =>
      if trigger = .monthly ∧ attempt.trigger = .monthly ∧ attempt.status = .failed then
        attempt.monthlyFailures + 1
      else 0
  | none => 0

/-- `queue_scan`. -/
def queueScan (site : ScannedSite) (jobId principalId : String) (at_ : Int)
    (trigger : ScanTrigger) : ScanProc Unit := do
  let done ← completedScan site.siteId
  let job ← Prog.ofExcept (newJob jobId "site_scan" principalId
    [("site_id", .str site.siteId), ("job_id", .str jobId)] at_)
  let attempt ← findScan site.siteId
  saveQueued
    { siteId := site.siteId, tenantId := site.principalId, jobId, host := site.host
      requestedAt := at_, trigger, monthlyFailures := failuresBefore trigger attempt
      previousIssues := done.map fun done => issueKeysOf ((done.report.map (·.issues)).getD []) }
    job

/-! ## The monthly rescan -/

/-- `_on_its_way`. -/
def onItsWay (attempt : SiteScan) (at_ : Int) : Bool :=
  (attempt.status = .queued || attempt.status = .running) && at_ - attempt.requestedAt < staleAfter

/-- When the last finished scan was, if the latest attempt leaves it time for another. -/
def dueAfter (done : SiteScan) (attempt : Option SiteScan) (at_ : Int) : Option Int :=
  let last := done.completedAt.getD done.requestedAt
  match attempt with
  | none => if rescanEvery ≤ at_ - last then some last else none
  | some attempt =>
      if onItsWay attempt at_ then none
      else if attempt.status = .failed ∧ attempt.trigger = .monthly then
        let wait := min (retryFailedAfter * 2 ^ min attempt.monthlyFailures 3) maxRetryWait
        if at_ - attempt.requestedAt < wait then none else some last
      else if rescanEvery ≤ at_ - last then some last
      else none

/-- `due`. -/
def due (site : ScannedSite) (at_ : Int) : ScanProc (Option Int) :=
  if site.removed then pure none
  else do
    match ← completedScan site.siteId with
    | none => pure none
    | some done => do
        let attempt ← findScan site.siteId
        pure (dueAfter done attempt at_)

def dueSites (at_ : Int) : List ScannedSite → ScanProc (List (Int × ScannedSite))
  | [] => pure []
  | site :: rest => do
      let last ← due site at_
      let others ← dueSites at_ rest
      pure ((last.map fun last => (last, site)).toList ++ others)

/-- What a round has queued, for whom, and which tenants it found busy. -/
structure Round where
  queued : Nat := 0
  tenants : List String := []
  busy : List (String × Bool) := []

def tenantBusy (round : Round) (tenantId : String) (at_ : Int) : ScanProc Bool :=
  match round.busy.lookup tenantId with
  | some isBusy => pure isBusy
  | none => do
      let scans ← scansForTenant tenantId
      pure (scans.any (onItsWay · at_))

/-- Whether a tenant may have a scan, and the site still wants one. -/
def mayQueue (site : ScannedSite) (isBusy : Bool) (at_ : Int) : ScanProc Bool :=
  if isBusy then pure false
  else do
    let active ← askOutside (.active site.principalId)
    if active then do
      let last ← due site at_
      pure last.isSome
    else pure false

/-- A scan of one site; what it raises is logged. -/
def queueOne (site : ScannedSite) (at_ : Int) : ScanProc Bool :=
  tryCatch (do
    let jobId ← makeId
    queueScan site jobId site.principalId at_ .monthly
    pure true) fun _ => pure false

/-- The loop over the sites that are due. -/
def queueDue (perRound : Nat) (at_ : Int) : List (Int × ScannedSite) → Round → ScanProc Unit
  | [], _ => pure ()
  | (_, site) :: rest, round =>
      if perRound ≤ round.queued then pure ()
      else if site.principalId ∈ round.tenants then queueDue perRound at_ rest round
      else do
        let isBusy ← tenantBusy round site.principalId at_
        let noted := { round with busy := (site.principalId, isBusy) :: round.busy }
        let may ← mayQueue site isBusy at_
        if !may then queueDue perRound at_ rest noted
        else do
          let queued ← queueOne site at_
          queueDue perRound at_ rest
            (if queued then
              { noted with queued := noted.queued + 1, tenants := site.principalId :: noted.tenants }
            else noted)

/-- `run_round`. -/
def runRound (perRound : Nat) : ScanProc Unit := do
  let at_ ← readClock
  let sites ← askOutside .sites
  let found ← dueSites at_ sites
  queueDue perRound at_ (found.mergeSort fun a b => a.1 ≤ b.1) {}

end SeoAgent.Scan
