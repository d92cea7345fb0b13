import Mathlib.Logic.Function.Basic
import SeoAgent.Warehouse.Planner

/-!
# Rounds of the warehouse sync

`WarehouseSyncRunner.run_round` of `app/warehouse/runner.py`, with
`DaySync.sync_day` and the two writes of the sync ledger. What Search Console
and the warehouse answer for a day is an `Answer` of the round: the day was
stored, it is not final yet, its fetch failed (perhaps because the credential
was refused), or the warehouse itself raised and nothing was recorded.

A round knows the sites it is given, in order; the ledger of each site is read
when the site's turn comes. What the round asks for is kept beside the report,
as the list of days whose `sync_day` was called.
-/

namespace SeoAgent.Warehouse

/-! ## The ledger writes -/

/-- The ledger entry of `replace_day`. -/
def Ledger.replaceDay (entries : Ledger) (day : Int) (propertyUrl : String) (fetchedAt : Int) :
    Ledger :=
  Function.update entries day (some ⟨propertyUrl, .synced, fetchedAt⟩)

/-- `record_failure`: a good copy from the same property is left as it is. -/
def Ledger.recordFailure (entries : Ledger) (day : Int) (propertyUrl : String) (fetchedAt : Int) :
    Ledger :=
  let failure := Function.update entries day (some ⟨propertyUrl, .failed, fetchedAt⟩)
  match entries day with
  | none => failure
  | some entry =>
      if entry.status = .failed ∨ entry.propertyUrl ≠ propertyUrl then failure else entries

/-! ## The outside of a round -/

/-- A site as the round sees it: its property, whether it is eligible, and
whether a query function can be had for it. -/
structure Site where
  siteId : String
  gsc : Option String
  eligible : Bool
  queryable : Bool
deriving DecidableEq

inductive Answer
  | stored
  | notFinal
  | failed (refused : Bool)
  | lost
deriving DecidableEq

structure Round where
  now : Int
  sites : List Site
  answer : String → Int → Answer
  /-- The store's clock when the outcome of a day is recorded. -/
  recordedAt : String → Int → Int

structure RoundReport where
  synced : Nat := 0
  failed : Nat := 0
  notFinal : Nat := 0
  sites : Nat := 0
  sitesStopped : List String := []
deriving DecidableEq

/-- The runner's settings; `window` is `sync_window`. -/
structure Runner where
  daysPerRound : Nat
  retryAfter : Int
  window : Int → Int × Int

/-- `DAYS_PER_ROUND` and `RETRY_AFTER`. -/
def Runner.standard : Runner := ⟨10, 6 * hour, syncWindow⟩

/-! ## One site -/

/-- What a site's turn leaves: its ledger, the days it asked for, the report. -/
structure Turn where
  entries : Ledger
  fetched : List Int
  report : RoundReport

/-- The days of the plan, one by one; a refused credential ends the turn. -/
def syncDays (round : Round) (siteId propertyUrl : String) : List Int → Turn → Turn
  | [], t => t
  | day :: days, t =>
      let t := { t with fetched := t.fetched ++ [day] }
      match round.answer siteId day with
      | .stored => syncDays round siteId propertyUrl days { t with
          entries := t.entries.replaceDay day propertyUrl (round.recordedAt siteId day),
          report.synced := t.report.synced + 1 }
      | .notFinal => syncDays round siteId propertyUrl days { t with
          report.notFinal := t.report.notFinal + 1 }
      | .lost => syncDays round siteId propertyUrl days { t with
          report.failed := t.report.failed + 1 }
      | .failed refused =>
          let t := { t with
            entries := t.entries.recordFailure day propertyUrl (round.recordedAt siteId day),
            report.failed := t.report.failed + 1 }
          if refused then
            { t with report.sitesStopped := t.report.sitesStopped ++ [siteId] }
          else syncDays round siteId propertyUrl days t

/-- One site of a round. -/
def Runner.turn (runner : Runner) (round : Round) (site : Site) (entries : Ledger)
    (report : RoundReport) : Turn :=
  match site.gsc with
  | none => ⟨entries, [], report⟩
  | some propertyUrl =>
      if site.eligible then
        let report := { report with sites := report.sites + 1 }
        let days := planDays (runner.window round.now) propertyUrl entries round.now
          runner.retryAfter runner.daysPerRound
        if days = [] then ⟨entries, [], report⟩
        else if site.queryable then
          syncDays round site.siteId propertyUrl days ⟨entries, [], report⟩
        else ⟨entries, [], { report with sitesStopped := report.sitesStopped ++ [site.siteId] }⟩
      else ⟨entries, [], report⟩

/-! ## A round, and rounds -/

/-- The ledgers of all sites, the days asked for so far, and the report. -/
structure RoundResult where
  ledgers : String → Ledger
  fetched : List (String × Int)
  report : RoundReport

/-- A site's turn within a round. -/
def Runner.visit (runner : Runner) (round : Round) (r : RoundResult) (site : Site) :
    RoundResult :=
  let t := runner.turn round site (r.ledgers site.siteId) r.report
  ⟨Function.update r.ledgers site.siteId t.entries,
    r.fetched ++ t.fetched.map fun day => (site.siteId, day), t.report⟩

def Runner.runRound (runner : Runner) (round : Round) (ledgers : String → Ledger) : RoundResult :=
  round.sites.foldl (runner.visit round) ⟨ledgers, [], {}⟩

/-- The days a site asked for, in order. -/
def RoundResult.fetchedOf (r : RoundResult) (siteId : String) : List Int :=
  (r.fetched.filter fun f => f.1 = siteId).map Prod.snd

/-- The ledgers after rounds. -/
def Runner.runRounds (runner : Runner) : (String → Ledger) → List Round → String → Ledger
  | ledgers, [] => ledgers
  | ledgers, round :: rounds => runner.runRounds (runner.runRound round ledgers).ledgers rounds

/-- What a site asked for, round by round. -/
def Runner.fetchedOver (runner : Runner) (siteId : String) :
    (String → Ledger) → List Round → List (List Int)
  | _, [] => []
  | ledgers, round :: rounds =>
      let r := runner.runRound round ledgers
      r.fetchedOf siteId :: runner.fetchedOver siteId r.ledgers rounds

end SeoAgent.Warehouse
