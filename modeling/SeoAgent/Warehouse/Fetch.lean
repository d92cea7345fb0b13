import SeoAgent.Verified.Prog
import SeoAgent.Warehouse.Rows

/-!
# Fetching one settled day

`fetch_day` of `app/warehouse/fetch.py`: the two checks that the day is final, the
three requests, and the three tables. The query function is what the caller
gives; it answers a request with rows and perhaps the first incomplete date, or
raises.

## Main results

* `fetchDay_isOk_iff` — when a day is returned.
* `fetchDay_tables` — what the returned day holds.
* `fetchDay_conserves` — the day is conserved, order-blind and final.
-/

namespace SeoAgent.Warehouse

open SeoAgent.Verified

/-! ## The day -/

structure Metrics where
  device : Device
  clicks : Nat
  impressions : Nat
  positionSum : Rat
deriving DecidableEq

structure PageMetrics extends Metrics where
  url : String
deriving DecidableEq

structure QueryMetrics extends Metrics where
  url : String
  query : String
deriving DecidableEq

structure GSCDay where
  siteId : String
  day : Int
  propertyUrl : String
  totals : List Metrics
  pages : List PageMetrics
  queries : List QueryMetrics
  pageRowsCapped : Bool
  queryRowsCapped : Bool
deriving DecidableEq

def dailyRowCap : Nat := 50000

/-- A row of a table as the model that stores it. -/
def Metrics.ofRow (r : Device × Sums) : Metrics := ⟨r.1, r.2.1, r.2.2.1, r.2.2.2⟩

def PageMetrics.ofRow (r : (Device ×ₗ String) × Sums) : PageMetrics :=
  ⟨Metrics.ofRow ((ofLex r.1).1, r.2), (ofLex r.1).2⟩

def QueryMetrics.ofRow (r : (Device ×ₗ String ×ₗ String) × Sums) : QueryMetrics :=
  ⟨Metrics.ofRow ((ofLex r.1).1, r.2), (ofLex (ofLex r.1).2).1, (ofLex (ofLex r.1).2).2⟩

def Metrics.sums (m : Metrics) : Sums := (m.clicks, m.impressions, m.positionSum)

/-! ## The fetch -/

inductive Dimensions
  | totals
  | pages
  | queries
deriving DecidableEq

/-- `TOTALS_DIMENSIONS`, `PAGE_DIMENSIONS` and `QUERY_DIMENSIONS`. -/
def Dimensions.names : Dimensions → List String
  | .totals => ["date", "device"]
  | .pages => ["date", "page", "device"]
  | .queries => ["date", "page", "query", "device"]

inductive DataState
  | final
  | all
deriving DecidableEq

structure QueryAnswer where
  rows : List Row
  firstIncompleteDate : Option Int

abbrev QueryFn : Type := Dimensions → Int → DataState → Except FetchException QueryAnswer

variable (lib : Normalisers)

def fetchDay (siteId propertyUrl : String) (day finalThrough : Int) (query : QueryFn) :
    Except FetchException GSCDay :=
  if finalThrough < day then
    .error (.dayNotFinal (lib.isoformat day ++ " is after the newest settled day, " ++
      lib.isoformat finalThrough ++ "."))
  else do
    let totalsAnswer ← query .totals day .all
    match totalsAnswer.firstIncompleteDate.filter fun incomplete => incomplete ≤ day with
    | some incomplete =>
        .error (.dayNotFinal ("Search Console is still collecting " ++ lib.isoformat day ++
          " (incomplete from " ++ lib.isoformat incomplete ++ ")."))
    | none =>
        let pageRows ← query .pages day .final
        let queryRows ← query .queries day .final
        let totals ← table lib (totalsKey lib) Dimensions.totals.names day totalsAnswer.rows
        let pages ← table lib (pageKey lib) Dimensions.pages.names day pageRows.rows
        let queries ← table lib (queryKey lib) Dimensions.queries.names day queryRows.rows
        .ok {
          siteId := siteId
          day := day
          propertyUrl := propertyUrl
          totals := totals.1.map Metrics.ofRow
          pages := pages.1.map PageMetrics.ofRow
          queries := queries.1.map QueryMetrics.ofRow
          pageRowsCapped := dailyRowCap ≤ pages.2
          queryRowsCapped := dailyRowCap ≤ queries.2 }

/-! ## What is returned -/

/-- The three answers of a fetch. -/
structure Answers where
  totals : QueryAnswer
  pages : QueryAnswer
  queries : QueryAnswer

/-- The query function gives these answers, and the day is final. -/
structure Answered (day finalThrough : Int) (query : QueryFn) (a : Answers) : Prop where
  settled : day ≤ finalThrough
  complete : ∀ incomplete ∈ a.totals.firstIncompleteDate, day < incomplete
  asked : query .totals day .all = .ok a.totals ∧ query .pages day .final = .ok a.pages ∧
    query .queries day .final = .ok a.queries

variable {lib} {siteId propertyUrl : String} {day finalThrough : Int} {query : QueryFn} {d : GSCDay}

/-- A day is returned for final answers that all give their tables, and holds
these tables. -/
theorem fetchDay_ok_iff : fetchDay lib siteId propertyUrl day finalThrough query = .ok d ↔
    ∃ a t p q, Answered day finalThrough query a ∧
      table lib (totalsKey lib) Dimensions.totals.names day a.totals.rows = .ok t ∧
      table lib (pageKey lib) Dimensions.pages.names day a.pages.rows = .ok p ∧
      table lib (queryKey lib) Dimensions.queries.names day a.queries.rows = .ok q ∧
      d = ⟨siteId, day, propertyUrl, t.1.map Metrics.ofRow, p.1.map PageMetrics.ofRow,
        q.1.map QueryMetrics.ofRow, dailyRowCap ≤ p.2, dailyRowCap ≤ q.2⟩ := by
  unfold fetchDay
  by_cases hsettled : finalThrough < day
  · rw [if_pos hsettled]
    constructor
    · intro h
      cases h
    · rintro ⟨_, _, _, _, ha, -⟩
      exact absurd ha.settled (Int.not_le.mpr hsettled)
  rw [if_neg hsettled, bind_eq_ok]
  constructor
  · rintro ⟨totals, htotals, h⟩
    split at h
    · cases h
    next hcomplete =>
    obtain ⟨pages, hpages, h⟩ := bind_eq_ok.mp h
    obtain ⟨queries, hqueries, h⟩ := bind_eq_ok.mp h
    obtain ⟨t, ht, h⟩ := bind_eq_ok.mp h
    obtain ⟨p, hp, h⟩ := bind_eq_ok.mp h
    obtain ⟨q, hq, h⟩ := bind_eq_ok.mp h
    refine ⟨⟨totals, pages, queries⟩, t, p, q,
      ⟨Int.not_lt.mp hsettled, fun incomplete hin => ?_, htotals, hpages, hqueries⟩, ht, hp, hq,
      (Except.ok.inj h).symm⟩
    rw [Option.mem_def.mp hin] at hcomplete
    simpa using hcomplete
  · rintro ⟨a, t, p, q, ha, ht, hp, hq, rfl⟩
    refine ⟨a.totals, ha.asked.1, ?_⟩
    have hcomplete :
        a.totals.firstIncompleteDate.filter (fun incomplete => incomplete ≤ day) = none := by
      rw [Option.filter_eq_none_iff]
      intro incomplete hin
      have hlt := ha.complete incomplete hin
      simpa using hlt
    rw [hcomplete]
    simp only [ha.asked.2.1, ha.asked.2.2, ht, hp, hq, bind, Except.bind]

/-- A day is returned exactly for final answers whose rows can all be read and do
not conflict. -/
theorem fetchDay_isOk_iff :
    (∃ d, fetchDay lib siteId propertyUrl day finalThrough query = .ok d) ↔
      ∃ a, Answered day finalThrough query a ∧
        Readable lib (totalsKey lib) Dimensions.totals.names day a.totals.rows ∧
        Readable lib (pageKey lib) Dimensions.pages.names day a.pages.rows ∧
        Readable lib (queryKey lib) Dimensions.queries.names day a.queries.rows := by
  constructor
  · rintro ⟨d, h⟩
    obtain ⟨a, t, p, q, ha, ht, hp, hq, -⟩ := fetchDay_ok_iff.mp h
    exact ⟨a, ha, table_isOk_iff.mp ⟨t, ht⟩, table_isOk_iff.mp ⟨p, hp⟩, table_isOk_iff.mp ⟨q, hq⟩⟩
  · rintro ⟨a, ha, ht, hp, hq⟩
    obtain ⟨t, ht⟩ := table_isOk_iff.mpr ht
    obtain ⟨p, hp⟩ := table_isOk_iff.mpr hp
    obtain ⟨q, hq⟩ := table_isOk_iff.mpr hq
    exact ⟨_, fetchDay_ok_iff.mpr ⟨a, t, p, q, ha, ht, hp, hq, rfl⟩⟩

theorem Answered.unique {a a' : Answers} (h : Answered day finalThrough query a)
    (h' : Answered day finalThrough query a') : a = a' := by
  cases a
  cases a'
  obtain ⟨ht, hp, hq⟩ := h.asked
  obtain ⟨ht', hp', hq'⟩ := h'.asked
  cases ht.symm.trans ht'
  cases hp.symm.trans hp'
  cases hq.symm.trans hq'
  rfl

/-- The rows of the stored models are the tables. -/
theorem fetchDay_tables {a : Answers} (ha : Answered day finalThrough query a)
    (h : fetchDay lib siteId propertyUrl day finalThrough query = .ok d) :
    IsGroupSum (d.totals.map fun m => (m.device, m.sums))
        (distinctRows lib (totalsKey lib) Dimensions.totals.names day a.totals.rows)
        (fun e => e.2.1) Entry.sums ∧
      IsGroupSum (d.pages.map fun m => (toLex (m.device, m.url), m.sums))
        (distinctRows lib (pageKey lib) Dimensions.pages.names day a.pages.rows)
        (fun e => e.2.1) Entry.sums ∧
      IsGroupSum (d.queries.map fun m => (toLex (m.device, toLex (m.url, m.query)), m.sums))
        (distinctRows lib (queryKey lib) Dimensions.queries.names day a.queries.rows)
        (fun e => e.2.1) Entry.sums := by
  obtain ⟨a', t, p, q, ha', ht, hp, hq, rfl⟩ := fetchDay_ok_iff.mp h
  obtain rfl := ha.unique ha'
  simp only [List.map_map]
  refine ⟨?_, ?_, ?_⟩
  · have hrows : t.1.map ((fun m : Metrics => (m.device, m.sums)) ∘ Metrics.ofRow) = t.1 :=
      List.map_id t.1
    rw [hrows]
    exact (table_isGroupSum ht).1
  · have hrows : p.1.map ((fun m : PageMetrics => (toLex (m.device, m.url), m.sums)) ∘
        PageMetrics.ofRow) = p.1 := List.map_id p.1
    rw [hrows]
    exact (table_isGroupSum hp).1
  · have hrows : q.1.map ((fun m : QueryMetrics =>
        (toLex (m.device, toLex (m.url, m.query)), m.sums)) ∘ QueryMetrics.ofRow) = q.1 :=
      List.map_id q.1
    rw [hrows]
    exact (table_isGroupSum hq).1

/-- What is stored of a page or query has no more clicks than impressions. -/
theorem fetchDay_sumsOk (h : fetchDay lib siteId propertyUrl day finalThrough query = .ok d) :
    (∀ m ∈ d.pages, SumsOk m.sums) ∧ ∀ m ∈ d.queries, SumsOk m.sums := by
  obtain ⟨a, t, p, q, -, -, hp, hq, rfl⟩ := fetchDay_ok_iff.mp h
  constructor
  · intro m hm
    obtain ⟨r, hr, rfl⟩ := List.mem_map.mp hm
    exact table_sumsOk hp hr
  · intro m hm
    obtain ⟨r, hr, rfl⟩ := List.mem_map.mp hm
    exact table_sumsOk hq hr

/-! ## Order and repeats -/

/-- Two query functions that answer with the same rows, in any order and number. -/
def SameRows (query query' : QueryFn) : Prop :=
  ∀ dimensions day state, match query dimensions day state, query' dimensions day state with
    | .ok a, .ok a' => a.firstIncompleteDate = a'.firstIncompleteDate ∧
        ∀ row, row ∈ a.rows ↔ row ∈ a'.rows
    | .error exc, .error exc' => exc = exc'
    | _, _ => False

theorem SameRows.symm {query' : QueryFn} (h : SameRows query query') : SameRows query' query := by
  intro dimensions day state
  have hsame := h dimensions day state
  cases hq : query dimensions day state with
  | error exc =>
      cases hq' : query' dimensions day state with
      | error exc' =>
          rw [hq, hq'] at hsame
          exact hsame.symm
      | ok a' => rw [hq, hq'] at hsame; exact hsame
  | ok a =>
      cases hq' : query' dimensions day state with
      | error exc' => rw [hq, hq'] at hsame; exact hsame
      | ok a' =>
          rw [hq, hq'] at hsame
          exact ⟨hsame.1.symm, fun row => (hsame.2 row).symm⟩

theorem SameRows.ok {query' : QueryFn} (h : SameRows query query') {dimensions : Dimensions}
    {state : DataState} {a : QueryAnswer} (ha : query dimensions day state = .ok a) :
    ∃ a', query' dimensions day state = .ok a' ∧
      a.firstIncompleteDate = a'.firstIncompleteDate ∧ ∀ row, row ∈ a.rows ↔ row ∈ a'.rows := by
  have hsame := h dimensions day state
  cases hq' : query' dimensions day state with
  | error exc =>
      rw [ha, hq'] at hsame
      exact hsame.elim
  | ok a' =>
      rw [ha, hq'] at hsame
      exact ⟨a', rfl, hsame⟩

/-- The day depends on the rows of the answers, not on their order or number. -/
theorem fetchDay_sameRows {query' : QueryFn} (hsame : SameRows query query')
    (h : fetchDay lib siteId propertyUrl day finalThrough query = .ok d) :
    fetchDay lib siteId propertyUrl day finalThrough query' = .ok d := by
  obtain ⟨a, t, p, q, ha, ht, hp, hq, rfl⟩ := fetchDay_ok_iff.mp h
  obtain ⟨totals, htotals, hincomplete, hrows⟩ := hsame.ok ha.asked.1
  obtain ⟨pages, hpages, -, hpageRows⟩ := hsame.ok ha.asked.2.1
  obtain ⟨queries, hqueries, -, hqueryRows⟩ := hsame.ok ha.asked.2.2
  refine fetchDay_ok_iff.mpr ⟨⟨totals, pages, queries⟩, t, p, q,
    ⟨ha.settled, ?_, htotals, hpages, hqueries⟩, table_congr hrows ht,
    table_congr hpageRows hp, table_congr hqueryRows hq, rfl⟩
  exact hincomplete ▸ ha.complete

/-! ## Conflicts -/

variable (lib) in
/-- Two rows of an answer have the same raw keys and say different things. -/
def Conflicting (dimensions : List String) (day : Int) (rows : List Row) : Prop :=
  ∃ row ∈ rows, ∃ row' ∈ rows, ∃ keys counts counts',
    readCounts lib dimensions day row = .ok (keys, counts) ∧
      readCounts lib dimensions day row' = .ok (keys, counts') ∧ counts ≠ counts'

theorem Conflicting.not_readable {κ : Type} [LinearOrder κ]
    {keyOf : (String → String) → Except FetchException (Option κ)} {dimensions : List String}
    {rows : List Row} (h : Conflicting lib dimensions day rows) :
    ¬ Readable lib keyOf dimensions day rows := by
  intro hreadable
  obtain ⟨row, hrow, row', hrow', keys, counts, counts', hread, hread', hne⟩ := h
  obtain ⟨e, he⟩ := hreadable.each row hrow
  obtain ⟨e', he'⟩ := hreadable.each row' hrow'
  have hkeys : ∀ {r : Row} {c : Counts} {e : Entry κ}, readCounts lib dimensions day r = .ok (keys, c) →
      readRow lib keyOf dimensions day r = .ok e → e.1 = keys ∧ e.2.2 = c := by
    intro r c e hr he
    rw [readRow, hr] at he
    dsimp only at he
    split at he
    · cases he
    · cases he
      exact ⟨rfl, rfl⟩
  obtain ⟨hk, hc⟩ := hkeys hread he
  obtain ⟨hk', hc'⟩ := hkeys hread' he'
  have heq := hreadable.same (Finset.mem_coe.mpr (mem_distinctRows.mpr ⟨row, hrow, he⟩))
    (Finset.mem_coe.mpr (mem_distinctRows.mpr ⟨row', hrow', he'⟩)) (hk.trans hk'.symm)
  exact hne (by rw [← hc, ← hc', heq])

/-! ## The fetch as a whole -/

/-- For every query function.

A day is returned exactly when it is final and every row can be read without a
conflict; its three tables have each key once, with the sums over the distinct
rows that belong under the key, and only rows whose page is no URL or whose query
is empty belong under none; a returned day is not after `final_through` and
is before the first incomplete date; rows in another order, or repeated, give
the same day; and two rows with the same raw keys and different numbers are an
error. -/
theorem fetchDay_conserves (lib : Normalisers) (siteId propertyUrl : String)
    (day finalThrough : Int) (query : QueryFn) :
    ((∃ d, fetchDay lib siteId propertyUrl day finalThrough query = .ok d) ↔
      ∃ a, Answered day finalThrough query a ∧
        Readable lib (totalsKey lib) Dimensions.totals.names day a.totals.rows ∧
        Readable lib (pageKey lib) Dimensions.pages.names day a.pages.rows ∧
        Readable lib (queryKey lib) Dimensions.queries.names day a.queries.rows) ∧
    (∀ d a, fetchDay lib siteId propertyUrl day finalThrough query = .ok d →
      Answered day finalThrough query a →
        IsGroupSum (d.totals.map fun m => (m.device, m.sums))
          (distinctRows lib (totalsKey lib) Dimensions.totals.names day a.totals.rows)
          (fun e => e.2.1) Entry.sums ∧
        IsGroupSum (d.pages.map fun m => (toLex (m.device, m.url), m.sums))
          (distinctRows lib (pageKey lib) Dimensions.pages.names day a.pages.rows)
          (fun e => e.2.1) Entry.sums ∧
        IsGroupSum (d.queries.map fun m => (toLex (m.device, toLex (m.url, m.query)), m.sums))
          (distinctRows lib (queryKey lib) Dimensions.queries.names day a.queries.rows)
          (fun e => e.2.1) Entry.sums) ∧
    (∀ name, (pageKey lib name = .ok none ↔ urlOf lib (name "page") = "") ∧
      (queryKey lib name = .ok none ↔
        urlOf lib (name "page") = "" ∨ lib.normalizeQuery (name "query") = "")) ∧
    (∀ d, fetchDay lib siteId propertyUrl day finalThrough query = .ok d →
      d.day = day ∧ day ≤ finalThrough ∧ ∀ totals, query .totals day .all = .ok totals →
        ∀ incomplete ∈ totals.firstIncompleteDate, day < incomplete) ∧
    (∀ query' d, SameRows query query' →
      (fetchDay lib siteId propertyUrl day finalThrough query = .ok d ↔
        fetchDay lib siteId propertyUrl day finalThrough query' = .ok d)) ∧
    (∀ a, Answered day finalThrough query a →
      Conflicting lib Dimensions.totals.names day a.totals.rows ∨
        Conflicting lib Dimensions.pages.names day a.pages.rows ∨
        Conflicting lib Dimensions.queries.names day a.queries.rows →
      ∀ d, fetchDay lib siteId propertyUrl day finalThrough query ≠ .ok d) := by
  refine ⟨fetchDay_isOk_iff, fun d a h ha => fetchDay_tables ha h,
    fun name => ⟨pageKey_none_iff, queryKey_none_iff⟩, fun d h => ?_,
    fun query' d hsame => ⟨fetchDay_sameRows hsame, fetchDay_sameRows hsame.symm⟩,
    fun a ha hconflict d h => ?_⟩
  · obtain ⟨a, t, p, q, ha, -, -, -, rfl⟩ := fetchDay_ok_iff.mp h
    refine ⟨rfl, ha.settled, fun totals htotals incomplete hin => ?_⟩
    cases htotals.symm.trans ha.asked.1
    exact ha.complete incomplete hin
  · obtain ⟨a', ha', ht, hp, hq⟩ := fetchDay_isOk_iff.mp ⟨d, h⟩
    obtain rfl := ha.unique ha'
    rcases hconflict with hconflict | hconflict | hconflict
    · exact hconflict.not_readable ht
    · exact hconflict.not_readable hp
    · exact hconflict.not_readable hq

end SeoAgent.Warehouse
