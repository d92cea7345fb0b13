import Mathlib.Order.WithBot
import Mathlib.Data.List.Lex
import SeoAgent.Verified.Aggregate
import SeoAgent.Warehouse.PageSearch
import SeoAgent.Warehouse.Tables

/-!
# Reading the warehouse for the dashboard

`WarehouseReports` (`app/warehouse/reports.py`): the chart and the two tables, over the days of
the ledger that are synced from the property asked for.

The averages are exact: a ratio of sums is the rational it is. `NULLS LAST` is an order in which
what has no value comes after what has one, and descending is ascending in the negative.
`collate` gives the sort key of a text in the database's collation, which no two texts share, and
`dateTrunc` the first day of a day's period.
-/

namespace SeoAgent.Warehouse

open SeoAgent.Verified Like

/-! ## Metrics -/

structure MetricValues where
  clicks : Nat
  impressions : Nat
  ctr : Option Rat
  position : Option Rat
deriving DecidableEq

/-- `_metrics`. -/
def metrics (sums : Sums) : MetricValues where
  clicks := sums.1
  impressions := sums.2.1
  ctr := if sums.2.1 = 0 then none else some (sums.1 / sums.2.1)
  position := if sums.2.1 = 0 then none else some (sums.2.2 / sums.2.1)

/-- The days of a range. -/
def daysOf (start end_ : Int) : List Int :=
  (List.range (end_ - start + 1).toNat).map fun (i : Nat) => start + (i : Int)

/-- `previous_range`. -/
def previousRange (start end_ : Int) : Int × Int := (start - (end_ - start + 1), start - 1)

/-- How many days of a range are synced from a property. -/
def Store.daysCovered (s : Store) (siteId propertyUrl : String) (start end_ : Int) : Nat :=
  ((daysOf start end_).filter (s.syncedDays siteId propertyUrl start end_)).length

/-! ## The chart -/

inductive Interval
  | day
  | week
  | month
deriving DecidableEq

structure SeriesPoint where
  periodStart : Int
  values : MetricValues
  daysCovered : Nat
deriving DecidableEq

structure PerformanceRequest where
  siteId : String
  propertyUrl : String
  start : Int
  end_ : Int
  interval : Interval
  device : Option Device

structure PerformanceReport where
  totals : MetricValues
  daysCovered : Nat
  daysInRange : Int
  series : List SeriesPoint
deriving DecidableEq

variable (dateTrunc : Interval → Int → Int)

/-- A synced day in its period, joined with its totals: their sum, and one day. -/
def Store.periodRows (s : Store) (r : PerformanceRequest) : List (Int × Sums × Nat) :=
  ((daysOf r.start r.end_).filter (s.syncedDays r.siteId r.propertyUrl r.start r.end_)).map
    fun day => (dateTrunc r.interval day,
      (((s.dayTotals r.siteId day).filter fun row => r.device.all fun device => device = row.1).map
        Prod.snd).sum, 1)

/-- `performance`. -/
def Store.performance (s : Store) (r : PerformanceRequest) : PerformanceReport :=
  let raw := (aggregate (s.periodRows dateTrunc r)).insertionSort fun a b => a.1 ≤ b.1
  { totals := metrics (raw.map fun row => row.2.1).sum
    daysCovered := s.daysCovered r.siteId r.propertyUrl r.start r.end_
    daysInRange := r.end_ - r.start + 1
    series := raw.map fun row => ⟨row.1, metrics row.2.1, row.2.2⟩ }

/-! ## Ordering -/

inductive SortKey
  | clicks
  | impressions
  | ctr
  | position
deriving DecidableEq

inductive SortOrder
  | asc
  | desc
deriving DecidableEq

/-- `SORTS`: the column or the ratio that orders the rows. -/
def SortKey.value (sort : SortKey) (sums : Sums) : Option Rat :=
  match sort with
  | .clicks => some sums.1
  | .impressions => some sums.2.1
  | .ctr => if sums.2.1 = 0 then none else some (sums.1 / sums.2.1)
  | .position => if sums.2.1 = 0 then none else some (sums.2.2 / sums.2.1)

/-- `ORDERS`: what has no value is last in both. -/
def SortOrder.place (order : SortOrder) : Option Rat → WithTop Rat
  | none => ⊤
  | some value => match order with
      | .asc => (value : Rat)
      | .desc => (-value : Rat)

variable (collate : String ↪ List Nat)

/-- Where a row stands: by its value, and then by its label. -/
def rankOf (order : SortOrder) (value : Option Rat) (label : String) :
    WithTop Rat ×ₗ List Nat :=
  toLex (order.place value, collate label)

/-! ## The tables -/

structure TableRequest where
  kind : Kind
  siteId : String
  propertyUrl : String
  start : Int
  end_ : Int
  device : Option Device
  pageUrl : Option String
  sort : SortKey
  order : SortOrder
  limit : Int
  offset : Int
  compare : Bool
  contains : Option (List Char)

structure TableRow where
  key : String
  current : MetricValues
  previous : Option MetricValues
deriving DecidableEq

structure TableReport where
  rows : List TableRow
  nextOffset : Option Nat
  comparedWith : Option (Int × Int)
  previousDaysCovered : Option Nat
  previousDaysInRange : Option Int
deriving DecidableEq

/-- `MAX_LIMIT`. -/
def maxLimit : Int := 500

/-- A row of the table that is asked for: its own number and that of its page. -/
structure Cell where
  id : Nat
  pageId : Nat
  device : Device
  day : Int
  sums : Sums
deriving DecidableEq

def pageCell (row : DailyRow (Nat × Device)) : Cell :=
  ⟨row.key.1, row.key.1, row.key.2, row.day, row.sums⟩

def queryCell (row : DailyRow (Nat × Nat × Device)) : Cell :=
  ⟨row.key.2.1, row.key.1, row.key.2.2, row.day, row.sums⟩

/-- The rows of a site. -/
def Store.cells (s : Store) (kind : Kind) (siteId : String) : List Cell :=
  match kind with
  | .page => (s.dailyPages.filter fun row => row.siteId = siteId).map pageCell
  | .query => (s.dailyQueries.filter fun row => row.siteId = siteId).map queryCell

/-- The label of a number. -/
def Store.labelOf (s : Store) (kind : Kind) (id : Nat) : Option String :=
  match kind with
  | .page => (s.pages.valueOf id).map Prod.snd
  | .query => (s.queries.valueOf id).map Prod.snd

/-- The filters on the device and on the page. -/
def Store.asked (s : Store) (r : TableRequest) (c : Cell) : Bool :=
  (r.device.all fun device => device = c.device) &&
    r.pageUrl.all fun url => s.pages.idOf (r.siteId, url) = some c.pageId

/-- The rows of a range that are asked for, of days synced from the property. -/
def Store.inRange (s : Store) (r : TableRequest) (start end_ : Int) : List Cell :=
  (s.cells r.kind r.siteId).filter fun c =>
    s.syncedDays r.siteId r.propertyUrl start end_ c.day && s.asked r c

variable (C : CaseFold)

/-- The rows of the range under their numbers and labels, as far as the label is searched for. -/
def Store.labelled (s : Store) (r : TableRequest) : List ((Nat × String) × Sums) :=
  (s.inRange r r.start r.end_).filterMap fun c =>
    ((s.labelOf r.kind c.id).filter fun label => labelFilter C r.kind r.contains label.toList).map
      fun label => ((c.id, label), c.sums)

/-- The groups in their order. -/
def Store.ordered (s : Store) (r : TableRequest) : List ((Nat × String) × Sums) :=
  (aggregate (s.labelled C r)).insertionSort fun a b =>
    rankOf collate r.order (r.sort.value a.2) a.1.2 ≤
      rankOf collate r.order (r.sort.value b.2) b.1.2

/-- The sums of the numbers in the range before. -/
def Store.previous (s : Store) (r : TableRequest) (ids : List Nat) : List (Nat × Sums) :=
  let range := previousRange r.start r.end_
  aggregate (((s.inRange r range.1 range.2).filter fun c => ids.contains c.id).map fun c =>
    (c.id, c.sums))

/-- `_table`. -/
def Store.table (s : Store) (r : TableRequest) : TableReport :=
  let limit := (max 1 (min r.limit maxLimit)).toNat
  let offset := (max 0 r.offset).toNat
  let page := pageOf (s.ordered collate C r) limit offset
  let range := previousRange r.start r.end_
  let previous := if r.compare then s.previous r (page.1.map fun g => g.1.1) else []
  { rows := page.1.map fun g => ⟨g.1.2, metrics g.2, (previous.lookup g.1.1).map metrics⟩
    nextOffset := page.2
    comparedWith := if r.compare then some range else none
    previousDaysCovered :=
      if r.compare then some (s.daysCovered r.siteId r.propertyUrl range.1 range.2) else none
    previousDaysInRange := if r.compare then some (r.end_ - r.start + 1) else none }

end SeoAgent.Warehouse
