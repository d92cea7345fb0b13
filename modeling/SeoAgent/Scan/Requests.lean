import SeoAgent.Scan.Handler
import SeoAgent.Scan.Monthly

/-!
# The requests about scans and files

`app/api/scan_routes.py`, with the two job handlers and the monthly rescan as one machine.
-/

namespace SeoAgent.Scan

open SeoAgent.Verified Service

/-- Microseconds of `SCAN_COOLDOWN`, `SCAN_STALE_AFTER` and `CHECK_COOLDOWN`. -/
def scanCooldown : Int := 300000000
def scanStaleAfter : Int := 900000000
def checkCooldown : Int := 30000000

def scansPerTenantPerDay : Nat := 20

/-- `owned_site`. -/
def ownedSite (siteId principalId : String) : ScanProc ScannedSite := do
  let site ← tryCatch (askOutside (.site siteId)) fun
    | .persistenceNotFoundError _ => throw (.httpException 404 "Site not found.")
    | e => throw e
  if site.removed then throw (.httpException 404 "Site not found.")
  else if site.principalId ≠ principalId then throw (.httpException 404 "Resource not found.")
  else pure site

/-! ## Starting a scan -/

/-- Why a scan of a host is refused beside one other scan of the tenant. -/
def scanRefusal (host : String) (at_ : Int) (other : SiteScan) : Option ScanExc :=
  if other.trigger = .monthly ∧ other.status = .queued then none
  else if (other.status = .queued ∨ other.status = .running) ∧
      at_ - other.requestedAt < scanStaleAfter then
    some (.httpException 409 "A scan of one of your sites is already running.")
  else if other.host = host ∧ at_ - other.requestedAt < scanCooldown then
    some (.httpException 429 "This site was scanned a moment ago.")
  else none

/-- `check_scan_limits`. -/
def checkScanLimits (mine : List SiteScan) (host : String) (at_ : Int) : Except ScanExc Unit :=
  match mine.findSome? (scanRefusal host at_) with
  | some e => .error e
  | none =>
      if scansPerTenantPerDay ≤ (mine.filter (·.trigger ≠ .monthly)).countP
          (at_ - ·.requestedAt < day) then
        .error (.httpException 429 "Too many sites scanned today.")
      else .ok ()

/-- `start_scan`. -/
def startScan (siteId principalId : String) : ScanProc Unit := do
  let site ← ownedSite siteId principalId
  askOutside (.requirePlan principalId)
  if !site.webPort then
    throw (.httpException 422 "Only sites on the usual web ports can be scanned.")
  else do
    let at_ ← readClock
    let mine ← scansForTenant site.principalId
    Prog.ofExcept (checkScanLimits mine site.host at_)
    let jobId ← makeId
    queueScan site jobId principalId at_ .customer

/-! ## Decisions on files -/

/-- `get_change`. -/
def getChange (siteId : String) (kind : SiteFileKind) : ScanProc (StoredFile × Nat) := do
  match ← findFile siteId kind with
  | none => throw (.httpException 404 "No such proposal.")
  | some copy => pure copy

/-- A change by the customer, with the job that it starts. -/
def saveByCustomer (copy : StoredFile × Nat) (change : SiteFileChange)
    (principalId reason : String) (decision : Bool) (jobs : ScanWrites) : ScanProc Unit := do
  let at_ ← readClock
  saveFileWith jobs (some copy) (change.record at_ principalId reason) decision

/-- `approve_file`. -/
def approveFile (siteId : String) (kind : SiteFileKind) (principalId : String) : ScanProc Unit := do
  let _ ← ownedSite siteId principalId
  let copy ← getChange siteId kind
  if copy.1.change.status ≠ .proposed ∧ copy.1.change.status ≠ .rejected then
    throw (.httpException 409 "This file change cannot be approved now.")
  else
    saveByCustomer copy { copy.1.change with status := .waitingForCustomer, note := none }
      principalId "approved" true []

/-- Whether the customer reported the file a moment ago. -/
def checkedAMomentAgo (change : SiteFileChange) (at_ : Int) : Bool :=
  match (change.history.filter (·.reason = "customer_reported_applied")).getLast? with
  | some event => at_ - event.at_ < checkCooldown
  | none => false

/-- `check_file`. -/
def checkFile (siteId : String) (kind : SiteFileKind) (principalId : String) : ScanProc Unit := do
  let site ← ownedSite siteId principalId
  let copy ← getChange siteId kind
  if copy.1.change.status ≠ .waitingForCustomer then
    throw (.httpException 409 "This file change is not waiting to be checked.")
  else do
    let at_ ← readClock
    if checkedAMomentAgo copy.1.change at_ then
      throw (.httpException 429 "This was checked a moment ago.")
    else do
      let jobId ← makeId
      let job ← Prog.ofExcept (newJob jobId "site_file" site.principalId
        [("site_id", .str site.siteId), ("kind", .str kind.value)] at_)
      saveByCustomer copy copy.1.change principalId "customer_reported_applied" false
        [.create .job job.jobId job]

/-- `reject_file`. -/
def rejectFile (siteId : String) (kind : SiteFileKind) (principalId : String) : ScanProc Unit := do
  let _ ← ownedSite siteId principalId
  let copy ← getChange siteId kind
  if copy.1.change.status ≠ .proposed ∧ copy.1.change.status ≠ .waitingForCustomer then
    throw (.httpException 409 "This file change cannot be rejected now.")
  else
    saveByCustomer copy { copy.1.change with status := .rejected } principalId "rejected" true []

/-! ## The machine -/

inductive ScanKind
  | startScan (siteId principalId : String)
  | monthlyRound (perRound : Nat)
  | siteScan (siteId jobId : String)
  | siteFile (siteId : String) (kind : SiteFileKind)
  | approveFile (siteId : String) (kind : SiteFileKind) (principalId : String)
  | checkFile (siteId : String) (kind : SiteFileKind) (principalId : String)
  | rejectFile (siteId : String) (kind : SiteFileKind) (principalId : String)

section Locations
variable (locations : String → List String)

def scanBody : ScanKind → ScanProc Unit
  | .startScan siteId principalId => Scan.startScan siteId principalId
  | .monthlyRound perRound => runRound perRound
  | .siteScan siteId jobId => siteScanHandler locations siteId jobId
  | .siteFile siteId kind => siteFileHandler siteId kind
  | .approveFile siteId kind principalId => Scan.approveFile siteId kind principalId
  | .checkFile siteId kind principalId => Scan.checkFile siteId kind principalId
  | .rejectFile siteId kind principalId => Scan.rejectFile siteId kind principalId

/-- Any number of requests and deliveries at once. -/
@[reducible] def scanProcesses : Processes scanBackend scanOutside where
  Kind := ScanKind
  body := scanBody locations
  admits := fun _ _ => true

@[reducible] def scanMachine : Machine (iface scanBackend scanOutside) :=
  Service.machine (scanProcesses locations)

/-- No scan and no file is stored. -/
def nothingScanned : World scanBackend scanOutside := ⟨Repository.empty, ()⟩

end Locations

/-! ## Moves -/

abbrev ScanMove : Type := Machine.Move (M := scanMachine fun text => [text])

def shop : ScannedSite :=
  { siteId := "s-1", principalId := "t-1", baseUrl := "https://shop.example/"
    host := "shop.example" }

/-- The answers of the store to `n` operations of the process `t`. -/
def answers (t n : Nat) : List ScanMove := List.replicate n (.act t .done)

/-- The customer asks for a scan, and its job is made. -/
def requestScan (t n : Nat) (jobId : String) (clock : Int) : List ScanMove :=
  [.spawn (.startScan "s-1" "t-1"), .act t (.ext (.site shop)), .act t (.ext .done),
    .act t (.clock clock), .act t .done, .act t (.name jobId)] ++ answers t n

end SeoAgent.Scan
