import Mathlib.Data.List.Nodup
import Mathlib.Data.List.Sort
import Mathlib.Data.List.Dedup
import SeoAgent.Verified.Intern
import SeoAgent.Warehouse.Fetch
import SeoAgent.Warehouse.Planner
import SeoAgent.Warehouse.Runner

/-!
# The warehouse

`PostgresWarehouse` (`app/warehouse/store.py`) over the tables of `004_gsc_warehouse.sql`: pages
and queries under their numbers, three tables of a day's rows that refer to them, and the sync
ledger. Each method is one transaction, and two of the same day take turns, so each is one step
here; a transaction that breaks a constraint of the tables changes nothing.

`day_totals` and the joins of `query_days`, `page_totals` and `page_days` are read through the
rows of one day: `dayTotals`, `dayPages` and `dayQueries`.

## Main results

* `replaceDay_reads` — a day that was replaced reads as what replaced it, and no other day reads
  differently.
* `replaceDay_sound` — rows keep referring to pages and queries of their own site.
* `ledgerOf_replaceDay`, `ledgerOf_recordFailure` — what the planner sees of the ledger.
-/

namespace SeoAgent.Warehouse

open SeoAgent.Verified

/-! ## The tables -/

/-- A row of a day: its key without the site and the day, and its sums. -/
structure DailyRow (κ : Type) where
  siteId : String
  day : Int
  key : κ
  sums : Sums
deriving DecidableEq

/-- A row of `gsc_sync_days`. -/
structure SyncDay where
  propertyUrl : String
  status : SyncStatus
  totalsRows : Nat := 0
  pageRows : Nat := 0
  queryRows : Nat := 0
  pageRowsCapped : Bool := false
  queryRowsCapped : Bool := false
  fetchedAt : Int
  error : Option String := none
deriving DecidableEq

/-- Pages and queries are values of a site. -/
structure Store where
  pages : Interned (String × String)
  queries : Interned (String × String)
  dailyTotals : List (DailyRow Device)
  dailyPages : List (DailyRow (Nat × Device))
  dailyQueries : List (DailyRow (Nat × Nat × Device))
  syncDays : String → Int → Option SyncDay

def Store.empty : Store where
  pages := .empty
  queries := .empty
  dailyTotals := []
  dailyPages := []
  dailyQueries := []
  syncDays := fun _ _ => none

/-! ## Writing -/

/-- The rows without those of a day. -/
def deleteDay {κ : Type} (rows : List (DailyRow κ)) (siteId : String) (day : Int) :
    List (DailyRow κ) :=
  rows.filter fun row => !(row.siteId = siteId && row.day = day)

/-- The rows of a day in place of those it had; none when two have one key, or when positions
sum up to less than nothing. -/
def replaceRows {κ : Type} [DecidableEq κ] (rows : List (DailyRow κ)) (siteId : String) (day : Int)
    (new : List (κ × Sums)) : Option (List (DailyRow κ)) :=
  if (new.map Prod.fst).Nodup ∧ ∀ entry ∈ new, 0 ≤ entry.2.2.2 then
    some (deleteDay rows siteId day ++ new.map fun entry => ⟨siteId, day, entry.1, entry.2⟩)
  else none

/-- `_ids`: the values of a site, in order, with those that are new. -/
def ids (t : Interned (String × String)) (siteId : String) (values : List String) :
    Interned (String × String) :=
  t.insertAll ((values.dedup.insertionSort (· ≤ ·)).map fun value => (siteId, value))

/-- The rows of the pages under their numbers. -/
def pageEntries (pages : Interned (String × String)) (data : GSCDay) :
    Option (List ((Nat × Device) × Sums)) :=
  data.pages.mapM fun row =>
    (pages.idOf (data.siteId, row.url)).map fun pageId => ((pageId, row.device), row.sums)

/-- The rows of the queries under their numbers. -/
def queryEntries (pages queries : Interned (String × String)) (data : GSCDay) :
    Option (List ((Nat × Nat × Device) × Sums)) :=
  data.queries.mapM fun row =>
    (pages.idOf (data.siteId, row.url)).bind fun pageId =>
      (queries.idOf (data.siteId, row.query)).map fun queryId =>
        ((pageId, queryId, row.device), row.sums)

/-- The row of the ledger that `replace_day` writes. -/
def syncedDay (data : GSCDay) (fetchedAt : Int) : SyncDay where
  propertyUrl := data.propertyUrl
  status := .synced
  totalsRows := data.totals.length
  pageRows := data.pages.length
  queryRows := data.queries.length
  pageRowsCapped := data.pageRowsCapped
  queryRowsCapped := data.queryRowsCapped
  fetchedAt

/-- One row of the ledger. -/
def Store.setSyncDay (s : Store) (siteId : String) (day : Int) (entry : SyncDay) : Store :=
  let days := Function.update (s.syncDays siteId) day (some entry)
  { s with syncDays := Function.update s.syncDays siteId days }

/-- `replace_day`; none when the transaction fails. -/
def Store.replaceDay (s : Store) (data : GSCDay) (fetchedAt : Int) : Option Store := do
  let pages := ids s.pages data.siteId
    (data.pages.map (·.url) ++ data.queries.map (·.url))
  let queries := ids s.queries data.siteId (data.queries.map (·.query))
  let totalsRows := data.totals.map fun row => (row.device, row.sums)
  let pageRows ← pageEntries pages data
  let queryRows ← queryEntries pages queries data
  let dailyTotals ← replaceRows s.dailyTotals data.siteId data.day totalsRows
  let dailyPages ← replaceRows s.dailyPages data.siteId data.day pageRows
  let dailyQueries ← replaceRows s.dailyQueries data.siteId data.day queryRows
  let written : Store :=
    { pages, queries, dailyTotals, dailyPages, dailyQueries, syncDays := s.syncDays }
  some (written.setSyncDay data.siteId data.day (syncedDay data fetchedAt))

/-- `record_failure`: a good copy from the same property stays as it is. -/
def Store.recordFailure (s : Store) (siteId : String) (day : Int) (propertyUrl : String)
    (fetchedAt : Int) (error : String) : Store :=
  let error := some (error.take 500).toString
  match s.syncDays siteId day with
  | none => s.setSyncDay siteId day { propertyUrl, status := .failed, fetchedAt, error }
  | some entry =>
      if entry.status = .failed ∨ entry.propertyUrl ≠ propertyUrl then
        s.setSyncDay siteId day { entry with propertyUrl, status := .failed, fetchedAt, error }
      else s

/-! ## Reading -/

/-- The rows of a day. -/
def dayRows {κ : Type} (rows : List (DailyRow κ)) (siteId : String) (day : Int) :
    List (DailyRow κ) :=
  rows.filter fun row => row.siteId = siteId && row.day = day

/-- `day_totals`. -/
def Store.dayTotals (s : Store) (siteId : String) (day : Int) : List (Device × Sums) :=
  (dayRows s.dailyTotals siteId day).map fun row => (row.key, row.sums)

/-- A row joined with its page. -/
def joinPage (pages : Interned (String × String)) (row : DailyRow (Nat × Device)) :
    Option (String × Device × Sums) :=
  (pages.valueOf row.key.1).map fun page => (page.2, row.key.2, row.sums)

/-- A row joined with its page and its query. -/
def joinQuery (pages queries : Interned (String × String))
    (row : DailyRow (Nat × Nat × Device)) : Option ((String × String) × Device × Sums) :=
  (pages.valueOf row.key.1).bind fun page =>
    (queries.valueOf row.key.2.1).map fun query => ((page.2, query.2), row.key.2.2, row.sums)

/-- The pages of a day. -/
def Store.dayPages (s : Store) (siteId : String) (day : Int) : List (String × Device × Sums) :=
  (dayRows s.dailyPages siteId day).filterMap (joinPage s.pages)

/-- The pages and queries of a day. -/
def Store.dayQueries (s : Store) (siteId : String) (day : Int) :
    List ((String × String) × Device × Sums) :=
  (dayRows s.dailyQueries siteId day).filterMap (joinQuery s.pages s.queries)

/-- The sums of a group, devices added up: none when it has no row. -/
def groupSum {label : Type} [DecidableEq label] (rows : List (label × Device × Sums))
    (l : label) : Option Sums :=
  let group := rows.filter fun row => row.1 = l
  if group = [] then none else some (group.map fun row => row.2.2).sum

/-- `query_days`, at a day. -/
def Store.queryDays (s : Store) (siteId url query : String) (start end_ day : Int) : Option Sums :=
  if start ≤ day ∧ day ≤ end_ then groupSum (s.dayQueries siteId day) (url, query) else none

/-- `page_totals`, at a day. -/
def Store.pageTotals (s : Store) (siteId url : String) (start end_ day : Int) : Option Sums :=
  if start ≤ day ∧ day ≤ end_ then groupSum (s.dayPages siteId day) url else none

/-- `page_days`. -/
def Store.pageDays (s : Store) (siteId url : String) (start end_ day : Int) : Bool :=
  match s.pageTotals siteId url start end_ day with
  | some sums => 0 < sums.2.1
  | none => false

/-- `synced_days`. -/
def Store.syncedDays (s : Store) (siteId propertyUrl : String) (start end_ day : Int) : Bool :=
  match s.syncDays siteId day with
  | some entry => entry.propertyUrl = propertyUrl && entry.status = .synced && start ≤ day &&
      day ≤ end_
  | none => false

/-- What is read of a day. -/
structure DayView where
  totals : List (Device × Sums)
  pages : List (String × Device × Sums)
  queries : List ((String × String) × Device × Sums)
deriving DecidableEq

def Store.view (s : Store) (siteId : String) (day : Int) : DayView :=
  ⟨s.dayTotals siteId day, s.dayPages siteId day, s.dayQueries siteId day⟩

/-- A day as it reads once it is stored. -/
def GSCDay.view (data : GSCDay) : DayView where
  totals := data.totals.map fun row => (row.device, row.sums)
  pages := data.pages.map fun row => (row.url, row.device, row.sums)
  queries := data.queries.map fun row => ((row.url, row.query), row.device, row.sums)

/-- A day that was never stored. -/
def DayView.empty : DayView := ⟨[], [], []⟩

/-! ## What the planner sees -/

/-- The ledger of a site, as the planner reads it. -/
def Store.ledgerOf (s : Store) (siteId : String) : Ledger := fun day =>
  (s.syncDays siteId day).map fun entry => ⟨entry.propertyUrl, entry.status, entry.fetchedAt⟩

theorem setSyncDay_syncDays (s : Store) (siteId site : String) (day d : Int) (entry : SyncDay) :
    (s.setSyncDay siteId day entry).syncDays site d =
      if site = siteId ∧ d = day then some entry else s.syncDays site d := by
  unfold Store.setSyncDay
  by_cases hs : site = siteId
  · subst hs
    by_cases hd : d = day
    · subst hd
      simp
    · simp [hd]
  · simp [hs]

theorem ledgerOf_setSyncDay (s : Store) (siteId : String) (day : Int) (entry : SyncDay) :
    (s.setSyncDay siteId day entry).ledgerOf siteId =
      Function.update (s.ledgerOf siteId) day
        (some ⟨entry.propertyUrl, entry.status, entry.fetchedAt⟩) := by
  funext d
  by_cases hd : d = day
  · subst hd
    simp [Store.ledgerOf, setSyncDay_syncDays]
  · simp [Store.ledgerOf, setSyncDay_syncDays, hd]

theorem ledgerOf_recordFailure (s : Store) (siteId : String) (day : Int) (propertyUrl : String)
    (fetchedAt : Int) (error : String) :
    (s.recordFailure siteId day propertyUrl fetchedAt error).ledgerOf siteId =
      (s.ledgerOf siteId).recordFailure day propertyUrl fetchedAt := by
  unfold Store.recordFailure Ledger.recordFailure
  have hsame : s.ledgerOf siteId day = (s.syncDays siteId day).map fun entry =>
      ⟨entry.propertyUrl, entry.status, entry.fetchedAt⟩ := rfl
  rw [hsame]
  cases hentry : s.syncDays siteId day with
  | none => exact ledgerOf_setSyncDay s siteId day _
  | some entry =>
      dsimp only [Option.map_some]
      split
      · exact ledgerOf_setSyncDay s siteId day _
      · rfl

/-! ## Rows of a day -/

section
variable {κ : Type} [DecidableEq κ] {rows rows' : List (DailyRow κ)} {new : List (κ × Sums)}
  {siteId site : String} {day d : Int}

omit [DecidableEq κ] in
theorem mem_dayRows {row : DailyRow κ} :
    row ∈ dayRows rows siteId day ↔ row ∈ rows ∧ row.siteId = siteId ∧ row.day = day := by
  simp [dayRows]

theorem replaceRows_eq (h : replaceRows rows siteId day new = some rows') :
    rows' = deleteDay rows siteId day ++
      new.map fun entry => (⟨siteId, day, entry.1, entry.2⟩ : DailyRow κ) := by
  unfold replaceRows at h
  split at h
  · exact (Option.some.inj h).symm
  · cases h

/-- The day is replaced whole, and no other day changes. -/
theorem dayRows_replaceRows (h : replaceRows rows siteId day new = some rows') :
    dayRows rows' site d =
      if site = siteId ∧ d = day then
        new.map fun entry => (⟨siteId, day, entry.1, entry.2⟩ : DailyRow κ)
      else dayRows rows site d := by
  rw [replaceRows_eq h, dayRows, List.filter_append, deleteDay, List.filter_filter]
  split
  · next hday =>
      obtain ⟨rfl, rfl⟩ := hday
      have hold : (rows.filter fun row => (row.siteId = site && row.day = d) &&
          !(row.siteId = site && row.day = d)) = [] := by
        rw [List.filter_eq_nil_iff]
        intro row _
        simp
      rw [hold, List.nil_append, List.filter_eq_self]
      intro row hrow
      obtain ⟨entry, -, rfl⟩ := List.mem_map.mp hrow
      simp
  · next hday =>
      have hnew : (new.map fun entry => (⟨siteId, day, entry.1, entry.2⟩ : DailyRow κ)).filter
          (fun row => row.siteId = site && row.day = d) = [] := by
        rw [List.filter_eq_nil_iff]
        intro row hrow
        obtain ⟨entry, -, rfl⟩ := List.mem_map.mp hrow
        simp only [Bool.and_eq_true, decide_eq_true_eq]
        exact fun hsame => hday ⟨hsame.1.symm, hsame.2.symm⟩
      rw [hnew, List.append_nil, dayRows]
      refine List.filter_congr fun row _ => Bool.and_eq_left_iff_imp.mpr fun hrow => ?_
      simp only [Bool.and_eq_true, decide_eq_true_eq] at hrow
      rw [hrow.1, hrow.2]
      simpa only [Bool.not_eq_true', Bool.and_eq_false_iff, decide_eq_false_iff_not, not_and_or]
        using hday

theorem mem_replaceRows {row : DailyRow κ} (h : replaceRows rows siteId day new = some rows')
    (hrow : row ∈ rows') :
    row ∈ rows ∨ ∃ entry ∈ new, row = ⟨siteId, day, entry.1, entry.2⟩ := by
  rw [replaceRows_eq h, List.mem_append] at hrow
  rcases hrow with hrow | hrow
  · exact .inl (List.mem_filter.mp hrow).1
  · obtain ⟨entry, hentry, rfl⟩ := List.mem_map.mp hrow
    exact .inr ⟨entry, hentry, rfl⟩

end

/-! ## Numbers of pages and queries -/

/-- What `mapM` gives, when each result says what it came from. -/
theorem map_of_mapM {α β γ : Type} {f : α → Option β} {g : β → γ} {h : α → γ}
    (hf : ∀ x y, f x = some y → g y = h x) {xs : List α} {ys : List β}
    (hmap : xs.mapM f = some ys) : ys.map g = xs.map h := by
  induction xs generalizing ys with
  | nil =>
      cases hmap
      rfl
  | cons x xs ih =>
      rw [List.mapM_cons] at hmap
      obtain ⟨y, hy, hmap⟩ := Option.bind_eq_some_iff.mp hmap
      obtain ⟨rest, hrest, hmap⟩ := Option.bind_eq_some_iff.mp hmap
      cases hmap
      rw [List.map_cons, List.map_cons, hf x y hy, ih hrest]

/-- Every value has a result when each has. -/
theorem mapM_isSome {α β : Type} {f : α → Option β} {xs : List α}
    (h : ∀ x ∈ xs, ∃ y, f x = some y) : ∃ ys, xs.mapM f = some ys := by
  induction xs with
  | nil => exact ⟨[], rfl⟩
  | cons x xs ih =>
      obtain ⟨y, hy⟩ := h x List.mem_cons_self
      obtain ⟨ys, hys⟩ := ih fun x' hx' => h x' (List.mem_cons_of_mem _ hx')
      exact ⟨y :: ys, by rw [List.mapM_cons, hy, hys]; rfl⟩

/-- Every value asked for has a number. -/
theorem idOf_ids {t : Interned (String × String)} {siteId value : String} {values : List String}
    (h : value ∈ values) : ∃ n, (ids t siteId values).idOf (siteId, value) = some n := by
  refine Interned.idOf_insertAll (List.mem_map.mpr ⟨value, ?_, rfl⟩)
  exact (List.mem_insertionSort _).mpr (List.mem_dedup.mpr h)

theorem valueOf_ids {t : Interned (String × String)} {siteId : String} {values : List String}
    {n : Nat} {x : String × String} (h : t.valueOf n = some x) :
    (ids t siteId values).valueOf n = some x :=
  Interned.valueOf_insertAll h

section
variable {pages queries : Interned (String × String)} {data : GSCDay}

/-- The rows of the pages say which pages they are of. -/
theorem pageEntries_map {rows : List ((Nat × Device) × Sums)}
    (h : pageEntries pages data = some rows) :
    (rows.map fun entry => (pages.valueOf entry.1.1, entry.1.2, entry.2)) =
      data.pages.map fun row => (some (data.siteId, row.url), row.device, row.sums) := by
  refine map_of_mapM (fun row entry hrow => ?_) h
  obtain ⟨n, hn, rfl⟩ := Option.map_eq_some_iff.mp hrow
  rw [Interned.valueOf_idOf hn]

/-- The rows of the queries say which pages and queries they are of. -/
theorem queryEntries_map {rows : List ((Nat × Nat × Device) × Sums)}
    (h : queryEntries pages queries data = some rows) :
    (rows.map fun entry => (pages.valueOf entry.1.1, queries.valueOf entry.1.2.1, entry.1.2.2,
        entry.2)) =
      data.queries.map fun row => (some (data.siteId, row.url), some (data.siteId, row.query),
        row.device, row.sums) := by
  refine map_of_mapM (fun row entry hrow => ?_) h
  obtain ⟨n, hn, hrow⟩ := Option.bind_eq_some_iff.mp hrow
  obtain ⟨m, hm, rfl⟩ := Option.map_eq_some_iff.mp hrow
  rw [Interned.valueOf_idOf hn, Interned.valueOf_idOf hm]

theorem pageEntries_known {rows : List ((Nat × Device) × Sums)}
    (h : pageEntries pages data = some rows) {entry : (Nat × Device) × Sums} (he : entry ∈ rows) :
    ∃ url, pages.valueOf entry.1.1 = some (data.siteId, url) := by
  have hmem := List.mem_map_of_mem (f := fun entry : (Nat × Device) × Sums =>
    (pages.valueOf entry.1.1, entry.1.2, entry.2)) he
  rw [pageEntries_map h] at hmem
  obtain ⟨row, -, hrow⟩ := List.mem_map.mp hmem
  exact ⟨row.url, (congrArg Prod.fst hrow).symm⟩

theorem queryEntries_known {rows : List ((Nat × Nat × Device) × Sums)}
    (h : queryEntries pages queries data = some rows) {entry : (Nat × Nat × Device) × Sums}
    (he : entry ∈ rows) :
    (∃ url, pages.valueOf entry.1.1 = some (data.siteId, url)) ∧
      ∃ query, queries.valueOf entry.1.2.1 = some (data.siteId, query) := by
  have hmem := List.mem_map_of_mem (f := fun entry : (Nat × Nat × Device) × Sums =>
    (pages.valueOf entry.1.1, queries.valueOf entry.1.2.1, entry.1.2.2, entry.2)) he
  rw [queryEntries_map h] at hmem
  obtain ⟨row, -, hrow⟩ := List.mem_map.mp hmem
  exact ⟨⟨row.url, (congrArg Prod.fst hrow).symm⟩,
    row.query, (congrArg (fun x => x.2.1) hrow).symm⟩

end

/-! ## A day replaced -/

/-- Rows refer to pages and queries of their own site. -/
structure Store.Sound (s : Store) : Prop where
  pages : ∀ row ∈ s.dailyPages, ∃ url, s.pages.valueOf row.key.1 = some (row.siteId, url)
  queries : ∀ row ∈ s.dailyQueries,
    (∃ url, s.pages.valueOf row.key.1 = some (row.siteId, url)) ∧
      ∃ query, s.queries.valueOf row.key.2.1 = some (row.siteId, query)

theorem Store.empty_sound : Store.empty.Sound :=
  ⟨fun _ h => absurd h List.not_mem_nil, fun _ h => absurd h List.not_mem_nil⟩

/-- The pages of a day with their numbers. -/
abbrev pagesOf (s : Store) (data : GSCDay) : Interned (String × String) :=
  ids s.pages data.siteId (data.pages.map (·.url) ++ data.queries.map (·.url))

/-- The queries of a day with their numbers. -/
abbrev queriesOf (s : Store) (data : GSCDay) : Interned (String × String) :=
  ids s.queries data.siteId (data.queries.map (·.query))

/-- What a transaction that went through wrote. -/
structure Replaced (s : Store) (data : GSCDay) (fetchedAt : Int) (s' : Store) where
  pageRows : List ((Nat × Device) × Sums)
  queryRows : List ((Nat × Nat × Device) × Sums)
  pageEntries : pageEntries (pagesOf s data) data = some pageRows
  queryEntries : queryEntries (pagesOf s data) (queriesOf s data) data = some queryRows
  totals : replaceRows s.dailyTotals data.siteId data.day
    (data.totals.map fun row => (row.device, row.sums)) = some s'.dailyTotals
  dailyPages : replaceRows s.dailyPages data.siteId data.day pageRows = some s'.dailyPages
  dailyQueries : replaceRows s.dailyQueries data.siteId data.day queryRows = some s'.dailyQueries
  pages : s'.pages = pagesOf s data
  queries : s'.queries = queriesOf s data
  syncDays : ∀ site d, s'.syncDays site d =
    if site = data.siteId ∧ d = data.day then some (syncedDay data fetchedAt)
    else s.syncDays site d

variable {s s' : Store} {data : GSCDay} {fetchedAt : Int} {site : String} {d : Int}

theorem replaced (h : s.replaceDay data fetchedAt = some s') :
    Nonempty (Replaced s data fetchedAt s') := by
  obtain ⟨pageRows, hpages, h⟩ := Option.bind_eq_some_iff.mp h
  obtain ⟨queryRows, hqueries, h⟩ := Option.bind_eq_some_iff.mp h
  obtain ⟨dailyTotals, htotals, h⟩ := Option.bind_eq_some_iff.mp h
  obtain ⟨dailyPages, hdailyPages, h⟩ := Option.bind_eq_some_iff.mp h
  obtain ⟨dailyQueries, hdailyQueries, h⟩ := Option.bind_eq_some_iff.mp h
  cases h
  exact ⟨⟨pageRows, queryRows, hpages, hqueries, htotals, hdailyPages, hdailyQueries, rfl, rfl,
    fun site d => setSyncDay_syncDays _ _ _ _ _ _⟩⟩

theorem replaceDay_sound (hs : s.Sound) (h : s.replaceDay data fetchedAt = some s') :
    s'.Sound := by
  obtain ⟨r⟩ := replaced h
  constructor
  · intro row hrow
    rw [r.pages]
    rcases mem_replaceRows r.dailyPages hrow with hold | ⟨entry, hentry, rfl⟩
    · exact (hs.pages row hold).imp fun url hurl => valueOf_ids hurl
    · exact pageEntries_known r.pageEntries hentry
  · intro row hrow
    rw [r.pages, r.queries]
    rcases mem_replaceRows r.dailyQueries hrow with hold | ⟨entry, hentry, rfl⟩
    · exact ⟨(hs.queries row hold).1.imp fun url hurl => valueOf_ids hurl,
        (hs.queries row hold).2.imp fun query hquery => valueOf_ids hquery⟩
    · exact queryEntries_known r.queryEntries hentry

/-- The totals of a day. -/
theorem dayTotals_replaceDay (r : Replaced s data fetchedAt s') :
    s'.dayTotals site d =
      if site = data.siteId ∧ d = data.day then data.view.totals else s.dayTotals site d := by
  rw [Store.dayTotals, dayRows_replaceRows r.totals]
  split
  · rw [List.map_map, List.map_map]
    rfl
  · rfl

/-- The pages of a day: the new ones are those of the day, the others are joined as before. -/
theorem dayPages_replaceDay (hs : s.Sound) (r : Replaced s data fetchedAt s') :
    s'.dayPages site d =
      if site = data.siteId ∧ d = data.day then data.view.pages else s.dayPages site d := by
  rw [Store.dayPages, dayRows_replaceRows r.dailyPages, r.pages]
  split
  · have hrows := congrArg (List.filterMap fun x : Option (String × String) × Device × Sums =>
      x.1.map fun page => (page.2, x.2)) (pageEntries_map r.pageEntries)
    rw [List.filterMap_map, List.filterMap_map] at hrows
    rw [List.filterMap_map]
    exact hrows.trans (congrFun List.filterMap_eq_map' _)
  · refine List.filterMap_congr fun row hrow => ?_
    obtain ⟨url, hurl⟩ := hs.pages row (mem_dayRows.mp hrow).1
    rw [joinPage, joinPage, hurl, valueOf_ids hurl]

/-- The pages and queries of a day. -/
theorem dayQueries_replaceDay (hs : s.Sound) (r : Replaced s data fetchedAt s') :
    s'.dayQueries site d =
      if site = data.siteId ∧ d = data.day then data.view.queries else s.dayQueries site d := by
  rw [Store.dayQueries, dayRows_replaceRows r.dailyQueries, r.pages, r.queries]
  split
  · have hrows := congrArg (List.filterMap fun x : Option (String × String) ×
      Option (String × String) × Device × Sums =>
        x.1.bind fun page => x.2.1.map fun query => ((page.2, query.2), x.2.2))
      (queryEntries_map r.queryEntries)
    rw [List.filterMap_map, List.filterMap_map] at hrows
    rw [List.filterMap_map]
    exact hrows.trans (congrFun List.filterMap_eq_map' _)
  · refine List.filterMap_congr fun row hrow => ?_
    obtain ⟨⟨url, hurl⟩, query, hquery⟩ := hs.queries row (mem_dayRows.mp hrow).1
    rw [joinQuery, joinQuery, hurl, hquery, valueOf_ids hurl, valueOf_ids hquery]

/-- The day reads as what replaced it, and no other day reads differently. -/
theorem replaceDay_view (hs : s.Sound) (h : s.replaceDay data fetchedAt = some s') :
    s'.view site d =
      if site = data.siteId ∧ d = data.day then data.view else s.view site d := by
  obtain ⟨r⟩ := replaced h
  rw [Store.view, dayTotals_replaceDay r, dayPages_replaceDay hs r, dayQueries_replaceDay hs r]
  split <;> rfl

theorem ledgerOf_replaceDay (h : s.replaceDay data fetchedAt = some s') :
    s'.ledgerOf data.siteId =
      (s.ledgerOf data.siteId).replaceDay data.day data.propertyUrl fetchedAt := by
  obtain ⟨r⟩ := replaced h
  funext d
  rw [Ledger.replaceDay, Store.ledgerOf, r.syncDays]
  by_cases hd : d = data.day
  · subst hd
    rw [if_pos ⟨rfl, rfl⟩, Function.update_self]
    rfl
  · rw [if_neg fun hsame => hd hsame.2, Function.update_of_ne hd]
    rfl

/-! ## A day that can be replaced -/

/-- Each key once, and no negative sum of positions: what the tables' constraints ask for. -/
structure GSCDay.Storable (data : GSCDay) : Prop where
  totals : (data.totals.map (·.device)).Nodup
  pages : (data.pages.map fun row => (row.url, row.device)).Nodup
  queries : (data.queries.map fun row => (row.url, row.query, row.device)).Nodup
  totalsSums : ∀ row ∈ data.totals, 0 ≤ row.sums.2.2
  pagesSums : ∀ row ∈ data.pages, 0 ≤ row.sums.2.2
  queriesSums : ∀ row ∈ data.queries, 0 ≤ row.sums.2.2

theorem replaceRows_isSome {κ : Type} [DecidableEq κ] (rows : List (DailyRow κ))
    (site : String) (d : Int) {new : List (κ × Sums)}
    (h : (new.map Prod.fst).Nodup ∧ ∀ entry ∈ new, 0 ≤ entry.2.2.2) :
    ∃ rows', replaceRows rows site d new = some rows' :=
  ⟨_, if_pos h⟩

section
variable {pages queries : Interned (String × String)}

/-- The rows of the pages keep the constraints: what the numbers stand for is distinct, so the
numbers are. -/
theorem pageEntries_storable (h : data.Storable) {rows : List ((Nat × Device) × Sums)}
    (hrows : pageEntries pages data = some rows) :
    (rows.map Prod.fst).Nodup ∧ ∀ entry ∈ rows, 0 ≤ entry.2.2.2 := by
  have hmap := pageEntries_map hrows
  constructor
  · have hkeys := congrArg (List.map fun x : Option (String × String) × Device × Sums =>
      (x.1, x.2.1)) hmap
    rw [List.map_map, List.map_map] at hkeys
    have hnodup : ((rows.map Prod.fst).map fun key => (pages.valueOf key.1, key.2)).Nodup := by
      rw [List.map_map]
      refine (congrArg List.Nodup hkeys).mpr ?_
      have hinj := h.pages.map (f := fun x : String × Device =>
        (some (data.siteId, x.1), x.2)) fun a b hab => by
          simp only [Prod.mk.injEq, Option.some.injEq, true_and] at hab
          exact Prod.ext hab.1 hab.2
      rwa [List.map_map] at hinj
    exact hnodup.of_map
  · intro entry hentry
    have hmem := List.mem_map_of_mem (f := fun entry : (Nat × Device) × Sums =>
      (pages.valueOf entry.1.1, entry.1.2, entry.2)) hentry
    rw [hmap] at hmem
    obtain ⟨row, hrow, heq⟩ := List.mem_map.mp hmem
    have hsums : row.sums = entry.2 := congrArg (fun x => x.2.2) heq
    exact hsums ▸ h.pagesSums row hrow

theorem queryEntries_storable (h : data.Storable) {rows : List ((Nat × Nat × Device) × Sums)}
    (hrows : queryEntries pages queries data = some rows) :
    (rows.map Prod.fst).Nodup ∧ ∀ entry ∈ rows, 0 ≤ entry.2.2.2 := by
  have hmap := queryEntries_map hrows
  constructor
  · have hkeys := congrArg (List.map fun x : Option (String × String) ×
      Option (String × String) × Device × Sums => (x.1, x.2.1, x.2.2.1)) hmap
    rw [List.map_map, List.map_map] at hkeys
    have hnodup : ((rows.map Prod.fst).map fun key =>
        (pages.valueOf key.1, queries.valueOf key.2.1, key.2.2)).Nodup := by
      rw [List.map_map]
      refine (congrArg List.Nodup hkeys).mpr ?_
      have hinj := h.queries.map (f := fun x : String × String × Device =>
        (some (data.siteId, x.1), some (data.siteId, x.2.1), x.2.2)) fun a b hab => by
          simp only [Prod.mk.injEq, Option.some.injEq, true_and] at hab
          exact Prod.ext hab.1 (Prod.ext hab.2.1 hab.2.2)
      rwa [List.map_map] at hinj
    exact hnodup.of_map
  · intro entry hentry
    have hmem := List.mem_map_of_mem (f := fun entry : (Nat × Nat × Device) × Sums =>
      (pages.valueOf entry.1.1, queries.valueOf entry.1.2.1, entry.1.2.2, entry.2)) hentry
    rw [hmap] at hmem
    obtain ⟨row, hrow, heq⟩ := List.mem_map.mp hmem
    have hsums : row.sums = entry.2 := congrArg (fun x => x.2.2.2) heq
    exact hsums ▸ h.queriesSums row hrow

/-- Every page has a number, so each row is written. -/
theorem pageEntries_isSome (h : ∀ row ∈ data.pages, ∃ n, pages.idOf (data.siteId, row.url) = some n) :
    ∃ rows, pageEntries pages data = some rows := by
  refine mapM_isSome fun row hrow => ?_
  obtain ⟨n, hn⟩ := h row hrow
  exact ⟨_, Option.map_eq_some_iff.mpr ⟨n, hn, rfl⟩⟩

theorem queryEntries_isSome
    (h : ∀ row ∈ data.queries, (∃ n, pages.idOf (data.siteId, row.url) = some n) ∧
      ∃ m, queries.idOf (data.siteId, row.query) = some m) :
    ∃ rows, queryEntries pages queries data = some rows := by
  refine mapM_isSome fun row hrow => ?_
  obtain ⟨⟨n, hn⟩, m, hm⟩ := h row hrow
  exact ⟨_, Option.bind_eq_some_iff.mpr ⟨n, hn, Option.map_eq_some_iff.mpr ⟨m, hm, rfl⟩⟩⟩

end

theorem totals_storable (h : data.Storable) :
    ((data.totals.map fun row => (row.device, row.sums)).map Prod.fst).Nodup ∧
      ∀ entry ∈ data.totals.map fun row => (row.device, row.sums), 0 ≤ entry.2.2.2 := by
  constructor
  · rw [List.map_map]
    exact h.totals
  · intro entry hentry
    obtain ⟨row, hrow, rfl⟩ := List.mem_map.mp hentry
    exact h.totalsSums row hrow

/-- A storable day is stored, whatever was there before. -/
theorem replaceDay_isSome (h : data.Storable) (s : Store) (fetchedAt : Int) :
    ∃ s', s.replaceDay data fetchedAt = some s' := by
  obtain ⟨pageRows, hpages⟩ : ∃ rows, pageEntries (pagesOf s data) data = some rows :=
    pageEntries_isSome fun row hrow =>
      idOf_ids (List.mem_append_left _ (List.mem_map_of_mem hrow))
  obtain ⟨queryRows, hqueries⟩ :
      ∃ rows, queryEntries (pagesOf s data) (queriesOf s data) data = some rows :=
    queryEntries_isSome fun row hrow =>
      ⟨idOf_ids (List.mem_append_right _ (List.mem_map_of_mem hrow)),
        idOf_ids (List.mem_map_of_mem hrow)⟩
  obtain ⟨dailyTotals, htotals⟩ := replaceRows_isSome s.dailyTotals data.siteId data.day
    (totals_storable h)
  obtain ⟨dailyPages, hdailyPages⟩ := replaceRows_isSome s.dailyPages data.siteId data.day
    (pageEntries_storable h hpages)
  obtain ⟨dailyQueries, hdailyQueries⟩ := replaceRows_isSome s.dailyQueries data.siteId data.day
    (queryEntries_storable h hqueries)
  exact ⟨_, Option.bind_eq_some_iff.mpr ⟨pageRows, hpages, Option.bind_eq_some_iff.mpr
    ⟨queryRows, hqueries, Option.bind_eq_some_iff.mpr ⟨dailyTotals, htotals,
      Option.bind_eq_some_iff.mpr ⟨dailyPages, hdailyPages, Option.bind_eq_some_iff.mpr
        ⟨dailyQueries, hdailyQueries, rfl⟩⟩⟩⟩⟩⟩

end SeoAgent.Warehouse
