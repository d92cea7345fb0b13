import SeoAgent.Scan.Store

/-!
# The two jobs

A site is scanned and its proposals are refreshed; an approved file is looked for at its
public address (`app/scan/handler.py`).
-/

namespace SeoAgent.Scan

open SeoAgent.Verified Service

def systemActor : String := "system"

/-- `_OPEN` and `_SETTLED_ON_SAME_PLAN`, which are the same statuses. -/
def SiteFileStatus.isOpen : SiteFileStatus → Bool
  | proposed | waitingForCustomer | rejected => true
  | applied | notNeeded => false

/-- A change by the system. -/
def saveBySystem (copy : Option (StoredFile × Nat)) (change : SiteFileChange) (reason : String) :
    ScanProc Unit := do
  let at_ ← readClock
  saveFileWith [] copy (change.record at_ systemActor reason) false

/-! ## Refreshing the proposals -/

/-- `_same_plan`. -/
def samePlan (existing : SiteFileChange) (plan : FilePlan) (currentRobots : Option String) : Bool :=
  if existing.changes ≠ plan.changes ∨ existing.publicUrl ≠ plan.publicUrl then false
  else if plan.kind = .sitemap then true
  else existing.proposedText = plan.text && existing.previousText = currentRobots

section Locations
-- `_locations`: the addresses a sitemap lists.
variable (locations : String → List String)

/-- `_refresh_sitemap_text`. -/
def refreshSitemapText (copy : StoredFile × Nat) (plan : FilePlan) : ScanProc Unit :=
  let existing := copy.1.change
  let refreshed := { existing with proposedText := plan.text, dropped := plan.dropped }
  if existing.proposedText = plan.text then pure ()
  else if existing.status = .waitingForCustomer then
    -- Pages added since make the file the customer has short.
    if (locations plan.text).all (· ∈ locations existing.proposedText) then pure ()
    else saveBySystem (some copy) { refreshed with status := .proposed } "proposed"
  else saveFileWith [] (some copy) refreshed false

/-- The proposal of a plan. -/
def proposal (site : ScannedSite) (plan : FilePlan) (previous : Option String)
    (copy : Option (StoredFile × Nat)) : SiteFileChange where
  siteId := site.siteId
  tenantId := site.principalId
  kind := plan.kind
  publicUrl := plan.publicUrl
  proposedText := plan.text
  previousText := previous
  changes := plan.changes
  dropped := plan.dropped
  history := copyHistory copy

/-- `_merge_proposal`. -/
def mergeProposal (site : ScannedSite) (report : CrawlReport) (plan : FilePlan) : ScanProc Unit := do
  let copy ← findFile site.siteId plan.kind
  let previous := if plan.kind = .robots then report.robotsText else none
  match copy.filter fun copy =>
      copy.1.change.status.isOpen && samePlan copy.1.change plan previous with
  | some copy => if plan.kind = .sitemap then refreshSitemapText locations copy plan else pure ()
  | none => saveBySystem copy (proposal site plan previous copy) "proposed"

def mergeProposals (site : ScannedSite) (report : CrawlReport) : List FilePlan → ScanProc Unit
  | [] => pure ()
  | plan :: rest => do
      mergeProposal locations site report plan
      mergeProposals site report rest

/-- A proposal that the scan asks for no more. -/
def withdraw (siteId : String) (kind : SiteFileKind) : ScanProc Unit := do
  match ← findFile siteId kind with
  | none => pure ()
  | some copy =>
      if copy.1.change.status.isOpen then
        saveBySystem (some copy) { copy.1.change with status := .notNeeded } "not_needed"
      else pure ()

def withdrawAll (siteId : String) : List SiteFileKind → ScanProc Unit
  | [] => pure ()
  | kind :: rest => do
      withdraw siteId kind
      withdrawAll siteId rest

/-- Whether the scan could judge what it planned nothing for. -/
def judged (report : CrawlReport) (sitemap : Option SiteFileChange) : SiteFileKind → Bool
  | .robots => report.robotsJudged
  | .sitemap => report.sitemapJudged &&
      match sitemap.filter (·.status = .rejected) with
      | none => true
      | some declined => "created" ∈ declined.changes && !report.sitemapUrls.isEmpty

/-- `_refresh_proposals`. -/
def refreshProposals (site : ScannedSite) (report : CrawlReport) : ScanProc Unit := do
  let copy ← findFile site.siteId .sitemap
  let sitemap := copy.map fun copy => copy.1.change
  let plans := report.plans (sitemap.any (·.status = .rejected))
  mergeProposals locations site report plans
  if report.homeStatus ≠ some 200 then pure ()
  else
    withdrawAll site.siteId ([SiteFileKind.robots, .sitemap].filter fun kind =>
      !(plans.any (·.kind = kind)) && judged report sitemap kind)

/-! ## The scan -/

/-- `replaced`: another scan was queued while this one read the site. -/
def replaced (running : SiteScan) : ScanProc Bool := do
  let latest ← findScan running.siteId
  pure (latest.all (·.jobId ≠ running.jobId))

/-- How many issues are new against the last finished scan. -/
def newIssueCount (running : SiteScan) (issues : List ScanIssue) : Option Nat :=
  running.previousIssues.map fun previous =>
    ((issueKeysOf issues).filter (· ∉ previous)).length

/-- Whether a monthly scan of a site that did not answer has a finished scan before it. -/
def unreachable (running : SiteScan) (report : CrawlReport) : ScanProc Bool :=
  if report.homeStatus ≠ some 200 ∧ running.trigger = .monthly then do
    let done ← completedScan running.siteId
    pure done.isSome
  else pure false

/-- The part of the handler whose exceptions make the scan a failed one; the result is what
proposals are refreshed from. -/
def readSite (site : ScannedSite) (running : SiteScan) : ScanProc (Option CrawlReport) := do
  let report ← askOutside (.crawl site.baseUrl)
  let silent ← unreachable running report
  let isReplaced ← replaced running
  if isReplaced then pure none
  else if silent then do
    saveScan { running with status := .failed, error := some "site_unreachable" }
    pure none
  else do
    let at_ ← readClock
    saveScan
      { running with
        status := .completed, completedAt := some at_, report := some report
        newIssueCount := newIssueCount running report.issues }
    pure (some report)

/-- What becomes of a scan that raised. -/
def failScan (running : SiteScan) (e : ScanExc) : ScanProc (Option CrawlReport) := do
  let isReplaced ← replaced running
  if isReplaced then pure none
  else do
    saveScan { running with status := .failed, error := some e.typeName }
    throw e

/-- The handler of `site_scan` jobs. -/
def siteScanHandler (siteId jobId : String) : ScanProc Unit := do
  match (← findScan siteId).filter fun scan => scan.status ≠ .completed ∧ scan.jobId = jobId with
  | none => pure ()
  | some scan => do
      let site ← askOutside (.site siteId)
      if site.removed then saveScan { scan with status := .failed, error := some "site_removed" }
      else do
        let running := { scan with status := .running, error := none }
        saveScan running
        match ← tryCatch (readSite site running) (failScan running) with
        | none => pure ()
        | some report => refreshProposals locations site report

end Locations

/-! ## The look -/

/-- The handler of `site_file` jobs. -/
def siteFileHandler (siteId : String) (kind : SiteFileKind) : ScanProc Unit := do
  match (← findFile siteId kind).filter (·.1.change.status = .waitingForCustomer) with
  | none => pure ()
  | some copy => do
      let site ← askOutside (.site siteId)
      if site.removed then pure ()
      else do
        let (shown, seen) ← askOutside (.look copy.1.change)
        if shown then
          saveBySystem (some copy) { copy.1.change with status := .applied, note := none }
            "seen_on_site"
        else saveBySystem (some copy) { copy.1.change with note := seen } "not_seen_yet"

end SeoAgent.Scan
