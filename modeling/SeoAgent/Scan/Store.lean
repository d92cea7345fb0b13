import SeoAgent.Ports.Job
import SeoAgent.Verified.Overwrite

/-!
# The records of site scans

The latest scan of a site, its last finished scan and its two file changes
(`app/scan/store.py`, `app/models/site_scan.py`, `app/models/site_files.py`), over one
repository. Sites, the crawler and the public address of a file are outside.

Every save of a scan or a file reads the version it writes over inside the write
(`_Latest._write`), whatever copy its caller worked on. `StoredFile` therefore keeps two
things that the record does not have and that no request reads: the version of the copy a
change was computed from, and whether the customer decided with it.
-/

namespace SeoAgent.Scan

open SeoAgent.Verified Service

/-! ## File changes -/

/-- `SiteFileKind`. -/
inductive SiteFileKind
  | robots
  | sitemap
  deriving DecidableEq, Repr

def SiteFileKind.value : SiteFileKind → String
  | robots => "robots"
  | sitemap => "sitemap"

/-- `SiteFileStatus`. -/
inductive SiteFileStatus
  | proposed
  | waitingForCustomer
  | applied
  | rejected
  | notNeeded
  deriving DecidableEq, Repr

/-- `SiteFileEvent`; times in microseconds. -/
structure SiteFileEvent where
  at_ : Int
  actor : String
  reason : String
  deriving DecidableEq, Repr

/-- `SiteFileChange`. -/
structure SiteFileChange where
  siteId : String
  tenantId : String
  kind : SiteFileKind
  status : SiteFileStatus := .proposed
  publicUrl : String
  proposedText : String
  previousText : Option String := none
  changes : List String := []
  dropped : List String := []
  note : Option String := none
  history : List SiteFileEvent := []
  deriving DecidableEq, Repr

/-- `SiteFileChange.record`, of a change that has its new fields already. -/
def SiteFileChange.record (change : SiteFileChange) (at_ : Int) (actor reason : String) :
    SiteFileChange :=
  { change with history := change.history ++ [{ at_, actor, reason }] }

/-- `FilePlan`. -/
structure FilePlan where
  kind : SiteFileKind
  publicUrl : String
  text : String
  changes : List String
  dropped : List String := []
  deriving DecidableEq, Repr

/-- A change as it is stored. -/
structure StoredFile where
  change : SiteFileChange
  basis : Nat
  decision : Bool := false
  deriving DecidableEq, Repr

/-! ## Scans -/

/-- `ScanStatus`. -/
inductive ScanStatus
  | queued
  | running
  | completed
  | failed
  deriving DecidableEq, Repr

/-- `ScanTrigger`. -/
inductive ScanTrigger
  | customer
  | monthly
  deriving DecidableEq, Repr

/-- `IssueSeverity`. -/
inductive IssueSeverity
  | critical
  | warning
  | info
  deriving DecidableEq, Repr

/-- `ScanIssue`. -/
structure ScanIssue where
  code : String
  severity : IssueSeverity
  url : Option String := none
  deriving DecidableEq, Repr

/-- What a crawl found, with what `app/scan/files.py` and `issues.py` make of it:
`plan_site_files` with and without a sitemap the customer said no to. -/
structure CrawlReport where
  homeStatus : Option Nat
  robotsText : Option String := none
  sitemapUrls : List String := []
  issues : List ScanIssue := []
  robotsJudged : Bool := true
  sitemapJudged : Bool := true
  plansDeclined : List FilePlan := []
  plansOpen : List FilePlan := []
  deriving DecidableEq, Repr

def CrawlReport.plans (report : CrawlReport) (declined : Bool) : List FilePlan :=
  if declined then report.plansDeclined else report.plansOpen

/-- `SiteScan`, with what it took from its crawl in one field. -/
structure SiteScan where
  siteId : String
  tenantId : String
  jobId : String
  host : String := ""
  status : ScanStatus := .queued
  requestedAt : Int
  completedAt : Option Int := none
  report : Option CrawlReport := none
  trigger : ScanTrigger := .customer
  monthlyFailures : Nat := 0
  previousIssues : Option (List String) := none
  newIssueCount : Option Nat := none
  error : Option String := none
  deriving DecidableEq, Repr

/-- `issue_keys_of`. -/
def issueKeysOf (issues : List ScanIssue) : List String :=
  ((issues.filter (·.severity ≠ .info)).map fun issue =>
    issue.code ++ "|" ++ issue.url.getD "").dedup.mergeSort (· ≤ ·)

/-- A site as its record says. -/
structure ScannedSite where
  siteId : String
  principalId : String
  baseUrl : String
  host : String
  webPort : Bool := true
  removed : Bool := false
  deriving DecidableEq, Repr

/-! ## Backend -/

inductive ScanType
  | siteScan
  | siteScanCompleted
  | siteFileChange
  | job
  deriving DecidableEq, Repr

@[reducible] def ScanType.Payload : ScanType → Type
  | siteScan => SiteScan
  | siteScanCompleted => SiteScan
  | siteFileChange => StoredFile
  | job => Ports.Job

instance ScanType.decidableEqPayload : (t : ScanType) → DecidableEq t.Payload
  | siteScan => inferInstanceAs (DecidableEq SiteScan)
  | siteScanCompleted => inferInstanceAs (DecidableEq SiteScan)
  | siteFileChange => inferInstanceAs (DecidableEq StoredFile)
  | job => inferInstanceAs (DecidableEq Ports.Job)

inductive ScanExc
  | persistenceConflictError
  | persistenceNotFoundError (message : String)
  | databaseError (message : String)
  | validationError (message : String)
  | httpException (status : Nat) (detail : String)
  /-- Whatever the outside raises. -/
  | raised (name : String)
  deriving DecidableEq, Repr

/-- The class of an exception. -/
def ScanExc.typeName : ScanExc → String
  | persistenceConflictError => "PersistenceConflictError"
  | persistenceNotFoundError _ => "PersistenceNotFoundError"
  | databaseError _ => "OperationalError"
  | validationError _ => "ValidationError"
  | httpException _ _ => "HTTPException"
  | raised name => name

def ScanExc.refused (_ : ScanType) (i : String) : Repository.Refusal → ScanExc
  | .notFound => persistenceNotFoundError i
  | _ => persistenceConflictError

@[reducible] def scanBackend : Backend where
  T := ScanType
  Payload := ScanType.Payload
  Exn := ScanExc
  refused := ScanExc.refused
  broken := .databaseError

/-! ## The outside -/

inductive ScanOp
  /-- `SiteStore.get`. -/
  | site (siteId : String)
  /-- `SiteStore.list_all`. -/
  | sites
  /-- `require_plan`. -/
  | requirePlan (tenantId : String)
  /-- Whether a tenant's subscription runs. -/
  | active (tenantId : String)
  | crawl (baseUrl : String)
  /-- `public_file_matches`. -/
  | look (change : SiteFileChange)
  deriving DecidableEq

@[reducible] def ScanOp.Res : ScanOp → Type
  | .site _ => ScannedSite
  | .sites => List ScannedSite
  | .requirePlan _ => Unit
  | .active _ => Bool
  | .crawl _ => CrawlReport
  | .look _ => Bool × Option String

/-- How the outside answers. -/
inductive ScanChoice
  | fails (name : String)
  | done
  | site (found : ScannedSite)
  | missing
  | sites (found : List ScannedSite)
  | flag (b : Bool)
  | report (found : CrawlReport)
  | seen (shown : Bool) (note : Option String)

def scanExec : (o : ScanOp) → ScanChoice → Option (Except ScanExc o.Res)
  | _, .fails name => some (.error (.raised name))
  | .site siteId, .site found => some (.ok { found with siteId })
  | .site siteId, .missing =>
      some (.error (.persistenceNotFoundError s!"site not found: {siteId}"))
  | .sites, .sites found => some (.ok found)
  | .requirePlan _, .done => some (.ok ())
  | .active _, .flag b => some (.ok b)
  | .crawl _, .report found => some (.ok found)
  | .look _, .seen shown note => some (.ok (shown, note))
  | _, _ => none

@[reducible] def scanOutside : Outside ScanExc where
  Op := ScanOp
  Res := ScanOp.Res
  State := Unit
  Choice := ScanChoice
  Env := Empty
  exec := fun s o ch => (scanExec o ch).map fun r => (r, s)
  change := fun _ e => nomatch e

abbrev ScanProc (α : Type) : Type := Proc scanBackend scanOutside α

abbrev ScanPast : Type := Past scanBackend scanOutside

abbrev ScanWrites : Type := Writes scanBackend

abbrev findRecord (t : ScanType) (i : String) : ScanProc (Option (t.Payload × Nat)) :=
  Service.find (B := scanBackend) (X := scanOutside) t i

abbrev commitAll (ws : ScanWrites) : ScanProc Unit :=
  Service.commit (B := scanBackend) (X := scanOutside) ws

abbrev writeOver (t : ScanType) (i : String) (v : t.Payload) (current : Option (t.Payload × Nat)) :
    Repository.Write ScanType ScanType.Payload :=
  Service.overWrite (B := scanBackend) t i v current

abbrev saveOver (t : ScanType) (i : String) (v : t.Payload) : ScanProc Unit :=
  Service.saveLatest (B := scanBackend) (X := scanOutside) t i v

abbrev askOutside (x : ScanOp) : ScanProc x.Res :=
  Service.ext (B := scanBackend) (X := scanOutside) x

abbrev readClock : ScanProc Int := Service.now (B := scanBackend) (X := scanOutside)

abbrev makeId : ScanProc String := Service.newId (B := scanBackend) (X := scanOutside)

/-! ## Scan store -/

/-- `SiteScanStore.find`. -/
def findScan (siteId : String) : ScanProc (Option SiteScan) := do
  let found ← findRecord .siteScan siteId
  pure (found.map Prod.fst)

/-- `SiteScanStore.completed`. -/
def completedScan (siteId : String) : ScanProc (Option SiteScan) := do
  match ← findRecord .siteScanCompleted siteId with
  | some (scan, _) => pure (some scan)
  | none => do
      let latest ← findScan siteId
      pure (latest.filter (·.status = .completed))

/-- The finished scan that is about to be written over and has no record of its own. -/
def unkeptScan (scan : SiteScan) : ScanProc (Option SiteScan) := do
  match ← findRecord .siteScanCompleted scan.siteId with
  | some _ => pure none
  | none => do
      let current ← findScan scan.siteId
      pure (current.filter fun current =>
        current.status = .completed ∧ current.jobId ≠ scan.jobId)

/-- `_write` of finished scans, when there is one. -/
def saveCompleted : Option SiteScan → ScanProc Unit
  | none => pure ()
  | some scan => saveOver .siteScanCompleted scan.siteId scan

/-- `SiteScanStore.save`. -/
def saveScan (scan : SiteScan) : ScanProc Unit := do
  let unkept ← unkeptScan scan
  saveCompleted unkept
  saveOver .siteScan scan.siteId scan
  saveCompleted (if scan.status = .completed then some scan else none)

/-- `SiteScanStore.save` of a queued scan with its job, in one transaction. -/
def saveQueued (scan : SiteScan) (job : Ports.Job) : ScanProc Unit := do
  let unkept ← unkeptScan scan
  let kept ← findRecord .siteScanCompleted scan.siteId
  let latest ← findRecord .siteScan scan.siteId
  commitAll (unkept.toList.map (writeOver .siteScanCompleted scan.siteId · kept) ++
    [writeOver .siteScan scan.siteId scan latest, .create .job job.jobId job])

/-- `SiteScanStore.for_tenant`. -/
def scansForTenant (tenantId : String) : ScanProc (List SiteScan) := do
  let found ← Service.list (B := scanBackend) (X := scanOutside) .siteScan
  pure ((found.entries.map fun entry => entry.2.1).filter (·.tenantId = tenantId))

/-! ## File store -/

def fileKey (siteId : String) (kind : SiteFileKind) : String := siteId ++ ":" ++ kind.value

/-- `SiteFileStore.find`, with the version of the copy. -/
def findFile (siteId : String) (kind : SiteFileKind) : ScanProc (Option (StoredFile × Nat)) :=
  findRecord .siteFileChange (fileKey siteId kind)

/-- The version of a copy; 0 when nothing was found. -/
def copyVersion (copy : Option (StoredFile × Nat)) : Nat := (copy.map Prod.snd).getD 0

/-- The history of a copy. -/
def copyHistory (copy : Option (StoredFile × Nat)) : List SiteFileEvent :=
  (copy.map fun copy => copy.1.change.history).getD []

/-- What is stored of a change that was computed from a copy. -/
def computedFrom (copy : Option (StoredFile × Nat)) (change : SiteFileChange) (decision : Bool) :
    StoredFile :=
  { change, basis := copyVersion copy, decision }

/-- `SiteFileStore.save`, in a transaction that makes the writes `more` too. -/
def saveFileWith (more : ScanWrites) (copy : Option (StoredFile × Nat)) (change : SiteFileChange)
    (decision : Bool) : ScanProc Unit := do
  let key := fileKey change.siteId change.kind
  let current ← findRecord .siteFileChange key
  commitAll (writeOver .siteFileChange key (computedFrom copy change decision) current :: more)

end SeoAgent.Scan
