import SeoAgent.Measurement.Engine
import SeoAgent.Verified.Best
import SeoAgent.Warehouse.Fetch
import SeoAgent.Warehouse.Planner

/-!
# What a measurement round makes of one action

`MeasurementRunner.settle` of `app/measurement/runner.py` up to the transaction that
records the outcome: the windows around the day of the change, which days of the
ledger count, whether the data is there, and the evaluation. `Look` is what a round
reads for one action. Instants are microseconds and days ordinals; the ends of the
calendar are not modelled.

The observations carry the texts of the action as `DailyObservation` strips them,
and `measure_action` compares them with the texts as they are. So an action whose
texts the validator changes is never measured.

## Main results

* `WindowsOk.of_settings` — the windows of a change.
* `Look.evaluate_isOk_iff` — when the evaluation does not raise.
* `Look.settle_error_iff` — when a round raises.
* `Look.settle_congr` — rows of other days make no difference.
-/

namespace SeoAgent.Measurement

open Verified Ports Features
open Warehouse (SyncStatus Device searchConsoleToday)

/-! ## Windows -/

structure MeasurementWindows extends Windows where
  changeDay : Int

/-- `measurement_windows`. -/
def measurementWindows (appliedAt : Int) (windowDays settleDays : Nat) : MeasurementWindows :=
  let changeDay := searchConsoleToday appliedAt
  let baselineEnd := changeDay - 1
  let currentStart := changeDay + (1 + settleDays)
  { changeDay, baselineEnd, currentStart
    baselineStart := baselineEnd - (windowDays - 1)
    currentEnd := currentStart + (windowDays - 1) }

def MeasurementWindows.comparedDays (w : MeasurementWindows) : List Int :=
  windowDays w.baselineStart w.baselineEnd ++ windowDays w.currentStart w.currentEnd

/-- What the runner is made with. -/
structure Settings where
  lagDays : Nat := 3
  windowDays : Nat := 28
  settleDays : Nat := 7
  deadlineDays : Nat := 14
  windowDays_pos : 1 ≤ windowDays := by decide

/-- The windows are of one length and have no day in common; the day of the change and
the settle days after it lie between them. -/
structure WindowsOk (settings : Settings) (w : MeasurementWindows) : Prop where
  nonempty : w.baselineStart ≤ w.baselineEnd
  sameLength : w.baselineEnd - w.baselineStart = w.currentEnd - w.currentStart
  apart : ∀ day, ¬ ((w.baselineStart ≤ day ∧ day ≤ w.baselineEnd) ∧
    (w.currentStart ≤ day ∧ day ≤ w.currentEnd))
  between : ∀ n : Nat, n ≤ settings.settleDays →
    w.baselineEnd < w.changeDay + n ∧ w.changeDay + n < w.currentStart

variable {settings : Settings} {appliedAt : Int}

theorem WindowsOk.of_settings : WindowsOk settings
    (measurementWindows appliedAt settings.windowDays settings.settleDays) := by
  have hpos := settings.windowDays_pos
  unfold measurementWindows
  constructor
  · dsimp only
    omega
  · dsimp only
    omega
  · intro day
    dsimp only
    omega
  · intro n hn
    dsimp only
    omega

theorem WindowsOk.before {w : MeasurementWindows} (h : WindowsOk settings w) :
    w.baselineEnd < w.currentStart := by
  have := h.between 0 (Nat.zero_le _)
  omega

/-! ## The ledger and the rows -/

/-- A row of `gsc_sync_days`. -/
structure SyncDay where
  propertyUrl : String
  status : SyncStatus
  fetchedAt : Int
  pageRowsCapped : Bool
deriving DecidableEq

/-- A row of `gsc_daily_pages`. -/
structure PageRow where
  day : Int
  url : String
  device : Device
  metrics : DayMetrics

/-- A row of `gsc_daily_queries`. -/
structure QueryRow extends PageRow where
  query : String

/-- Every page of a day that was fetched has its row. -/
theorem exists_pageRow {lib : Warehouse.Normalisers} {siteId propertyUrl : String}
    {day finalThrough : Int} {query : Warehouse.QueryFn} {d : Warehouse.GSCDay}
    (h : Warehouse.fetchDay lib siteId propertyUrl day finalThrough query = .ok d)
    {m : Warehouse.PageMetrics} (hm : m ∈ d.pages) :
    ∃ r : PageRow, r.day = d.day ∧ r.url = m.url ∧ r.device = m.device ∧
      (r.metrics.clicks, r.metrics.impressions, r.metrics.positionSum) = m.sums := by
  have hsums := (Warehouse.fetchDay_sumsOk h).1 m hm
  exact ⟨⟨d.day, m.url, m.device, ⟨m.clicks, m.impressions, m.positionSum, hsums.1, hsums.2⟩⟩,
    rfl, rfl, rfl, rfl⟩

/-- Every query of a day that was fetched has its row. -/
theorem exists_queryRow {lib : Warehouse.Normalisers} {siteId propertyUrl : String}
    {day finalThrough : Int} {query : Warehouse.QueryFn} {d : Warehouse.GSCDay}
    (h : Warehouse.fetchDay lib siteId propertyUrl day finalThrough query = .ok d)
    {m : Warehouse.QueryMetrics} (hm : m ∈ d.queries) :
    ∃ r : QueryRow, r.day = d.day ∧ r.url = m.url ∧ r.query = m.query ∧ r.device = m.device ∧
      (r.metrics.clicks, r.metrics.impressions, r.metrics.positionSum) = m.sums := by
  have hsums := (Warehouse.fetchDay_sumsOk h).2 m hm
  exact ⟨⟨⟨d.day, m.url, m.device, ⟨m.clicks, m.impressions, m.positionSum, hsums.1, hsums.2⟩⟩,
    m.query⟩, rfl, rfl, rfl, rfl, rfl⟩

/-- What a round reads for one action: the clock, the action, the site (nothing when
it is gone) with the property it is connected to, and what the warehouse keeps. -/
structure Look where
  now : Int
  managed : ManagedAction
  site : Option (Option String)
  ledger : Int → Option SyncDay
  pageRows : List PageRow
  queryRows : List QueryRow

namespace Look

variable (look : Look)

/-- `ledger`: the entries of a range, oldest first. -/
def entries (w : Windows) : List (Int × SyncDay) :=
  (windowDays w.baselineStart w.currentEnd).filterMap fun day =>
    (look.ledger day).map fun entry => (day, entry)

/-- `_property_of`. -/
def propertyOf (entries : List (Int × SyncDay)) : Option String :=
  match look.site with
  | some (some propertyUrl) => some propertyUrl
  | _ =>
      match entries.filter fun e => e.2.status = .synced with
      | [] => none
      | e :: es => some (best (fun e : Int × SyncDay => e.2.fetchedAt) e es).2.propertyUrl

/-- The entries from the site's property. -/
def own (w : Windows) : List (Int × SyncDay) :=
  (look.entries w).filter fun e => look.propertyOf (look.entries w) = some e.2.propertyUrl

def storedDays (w : Windows) : List Int :=
  ((look.own w).filter fun e => e.2.status = .synced).map Prod.fst

def cappedDays (w : Windows) : List Int :=
  ((look.own w).filter fun e => e.2.pageRowsCapped).map Prod.fst

/-- Every day of both windows is stored. -/
def complete (w : MeasurementWindows) : Bool :=
  w.comparedDays.all fun day => day ∈ look.storedDays w.toWindows

/-- `sync_window(now)[1]`. -/
def newestFinal (settings : Settings) : Int := searchConsoleToday look.now - settings.lagDays

/-- `GROUP BY day`: a day without rows is not among the groups. -/
def group : List DayMetrics → Option DayMetrics
  | [] => none
  | row :: rows => some (.sum (row :: rows))

/-- The rows of a page on a day. -/
def pageRowsOn (url : String) (day : Int) : List DayMetrics :=
  ((look.pageRows.filter fun r => r.day = day).filter fun r => r.url = url).map PageRow.metrics

/-- The rows of a page and query on a day. -/
def queryRowsOn (url query : String) (day : Int) : List DayMetrics :=
  ((look.queryRows.filter fun r => r.day = day).filter fun r =>
    r.url = url ∧ r.query = query).map fun r => r.metrics

/-- `page_days`. -/
def pageDays (url : String) (day : Int) : Bool :=
  0 < (DayMetrics.sum (look.pageRowsOn url day)).impressions

/-! ## The evaluation -/

/-- What a page-level measurement is recorded under in place of one query. -/
def allQueries : String := "(all queries)"

/-- What of an action is measured. -/
def target : Target where
  siteId := look.managed.siteId
  normalizedUrl := look.managed.action.normalizedUrl
  normalizedQuery :=
    if pageLevel look.managed.action.actionType then allQueries
    else look.managed.action.normalizedQuery

/-- The rows that are measured: `page_totals` or `query_days`. -/
def rows (day : Int) : Option DayMetrics :=
  if pageLevel look.managed.action.actionType then
    group (look.pageRowsOn look.target.normalizedUrl day)
  else group (look.queryRowsOn look.target.normalizedUrl look.target.normalizedQuery day)

/-- The observations from the first day of the baseline to the last current day. -/
def observations (w : Windows) : Except Exc (List DailyObservation) :=
  buildObservations look.target w.baselineStart w.currentEnd
    (fun day => day ∈ look.storedDays w) (fun day => day ∈ look.cappedDays w) look.rows
    (look.pageDays look.target.normalizedUrl)

end Look

/-- What is recorded: the outcome, and what was added to its evidence. -/
structure MeasuredOutcome where
  evaluation : OutcomeEvaluation
  changeDay : Int
  settleDays : Nat
  dataComplete : Bool

/-- `POLICIES`. -/
def policies : ActionType → Option OutcomeEvaluationPolicy
  | .optimizeTitle | .optimizeMetaDescription =>
      some
        { primaryMetric := .ctr
          minRelativeImprovement := 1 / 10
          maxRelativeRegression := 1 / 10
          inconclusiveWithinBand := true }
  | _ => none

namespace Look

/-- `_evaluate`. -/
def evaluate (settings : Settings) (look : Look) (w : MeasurementWindows)
    (policy : OutcomeEvaluationPolicy) : Except Exc MeasuredOutcome := do
  let observations ← look.observations w.toWindows
  let measurement ← measureAction s!"measurement:{look.managed.actionId}" look.managed.actionId
    look.target (observations.filter fun o => o.date ≤ w.baselineEnd)
    (observations.filter fun o => w.currentStart ≤ o.date) w.toWindows (8 / 10) look.now
  return {
    evaluation := evaluateOutcome s!"outcome:{look.managed.actionId}" measurement policy
    changeDay := w.changeDay
    settleDays := settings.settleDays
    dataComplete := look.complete w }

/-- `settle`, up to its transaction: the outcome that is to be recorded, or nothing when
the action has to wait. `stored` is the outcome that is recorded already. -/
def settle (settings : Settings) (stored : Option MeasuredOutcome) (look : Look) :
    Except Exc (Option MeasuredOutcome) :=
  match policies look.managed.action.actionType, look.managed.applied with
  | some policy, some applied =>
      if rollbackPending look.managed then .ok none
      else
        match stored with
        | some outcome => .ok (some outcome)
        | none =>
            let w := measurementWindows applied.appliedAt settings.windowDays settings.settleDays
            if look.newestFinal settings < w.currentEnd then .ok none
            else if look.complete w = false ∧
                look.newestFinal settings < w.currentEnd + settings.deadlineDays then
              .ok none
            else (look.evaluate settings w policy).map some
  | _, _ => .ok none

end Look

/-! ## Which days count -/

variable {look other : Look} {w : MeasurementWindows} {policy : OutcomeEvaluationPolicy}
  {observations : List DailyObservation} {day : Int} {stored : Option MeasuredOutcome}

theorem Look.mem_entries {w : Windows} {entry : SyncDay} :
    (day, entry) ∈ look.entries w ↔
      (w.baselineStart ≤ day ∧ day ≤ w.currentEnd) ∧ look.ledger day = some entry := by
  unfold Look.entries
  rw [List.mem_filterMap]
  constructor
  · rintro ⟨d, hd, hentry⟩
    obtain ⟨e, he, hpair⟩ := Option.map_eq_some_iff.mp hentry
    cases hpair
    exact ⟨mem_windowDays.mp hd, he⟩
  · rintro ⟨hd, he⟩
    exact ⟨day, mem_windowDays.mpr hd, by rw [he]; rfl⟩

/-- A day is stored when the ledger has it as synced, from the site's property. -/
theorem Look.mem_storedDays {w : Windows} : day ∈ look.storedDays w ↔
    (w.baselineStart ≤ day ∧ day ≤ w.currentEnd) ∧ ∃ entry, look.ledger day = some entry ∧
      entry.status = .synced ∧ look.propertyOf (look.entries w) = some entry.propertyUrl := by
  unfold Look.storedDays Look.own
  rw [List.mem_map]
  constructor
  · rintro ⟨⟨d, entry⟩, hentry, rfl⟩
    obtain ⟨hown, hsynced⟩ := List.mem_filter.mp hentry
    obtain ⟨hmem, hproperty⟩ := List.mem_filter.mp hown
    obtain ⟨hd, he⟩ := Look.mem_entries.mp hmem
    exact ⟨hd, entry, he, of_decide_eq_true hsynced, of_decide_eq_true hproperty⟩
  · rintro ⟨hd, entry, he, hsynced, hproperty⟩
    exact ⟨(day, entry), List.mem_filter.mpr ⟨List.mem_filter.mpr
      ⟨Look.mem_entries.mpr ⟨hd, he⟩, decide_eq_true hproperty⟩, decide_eq_true hsynced⟩, rfl⟩

/-! ## When the evaluation raises -/

/-- What a round can measure an action by: texts that an observation leaves as they are. -/
def Target.Clean (t : Target) : Prop := t.Accepted ∧ t.Stripped

instance (t : Target) : Decidable t.Clean := inferInstanceAs (Decidable (_ ∧ _))

/-- Of each day there is one observation, and it matches a target that is stripped. -/
theorem agreeing_observations (h : look.observations w.toWindows = .ok observations)
    {fewer : List DailyObservation} (hfewer : ∀ o ∈ fewer, o ∈ observations) :
    Agreeing fewer := by
  intro o ho o' ho' hdate
  obtain ⟨hday, -⟩ := mem_buildObservations h (hfewer o ho)
  obtain ⟨hday', -⟩ := mem_buildObservations h (hfewer o' ho')
  rw [hdate, hday'] at hday
  rw [Except.ok.inj hday]

theorem matches_observations (h : look.observations w.toWindows = .ok observations)
    (hstripped : look.target.Stripped) : ∀ o ∈ observations, Matches look.target o := by
  intro o ho
  obtain ⟨hday, -⟩ := mem_buildObservations h ho
  obtain ⟨hsite, hurl, hquery, -⟩ := dayObservation_ok hday
  exact ⟨hsite.trans hstripped.1, hurl.trans hstripped.2.1, hquery.trans hstripped.2.2⟩

/-- The evaluation of a change does not raise exactly when its target is clean. -/
theorem Look.evaluate_isOk_iff (hw : WindowsOk settings w) :
    (∃ outcome, look.evaluate settings w policy = .ok outcome) ↔ look.target.Clean := by
  have hbefore := hw.before
  have hnonempty := hw.nonempty
  have hlength := hw.sameLength
  have hdays : w.baselineStart ≤ w.currentEnd := by omega
  have hbuilt : (∃ observations, look.observations w.toWindows = .ok observations) ↔
      look.target.Accepted := buildObservations_isOk_iff hdays
  unfold Look.evaluate
  rw [bind_isOk_iff]
  simp only [bind_isOk_iff]
  constructor
  · rintro ⟨observations, hobservations, measurement, hmeasured, -⟩
    have haccepted := hbuilt.mp ⟨observations, hobservations⟩
    obtain ⟨-, -, ⟨hmatches, -⟩, -⟩ := measureAction_isOk_iff.mp ⟨measurement, hmeasured⟩
    -- The observation of the first day of the baseline is among those compared.
    obtain ⟨o, ho⟩ : ∃ o, dayObservation look.target
        (fun day => day ∈ look.storedDays w.toWindows)
        (fun day => day ∈ look.cappedDays w.toWindows) look.rows
        (look.pageDays look.target.normalizedUrl) w.baselineStart = .ok o :=
      dayObservation_isOk_iff.mpr haccepted
    obtain ⟨hsite, hurl, hquery, hdate, -⟩ := dayObservation_ok ho
    have hmem : o ∈ observations := (mem_collect hobservations).mpr
      ⟨w.baselineStart, mem_windowDays.mpr ⟨Int.le_refl _, hdays⟩, ho⟩
    have hbaseline : o.date ≤ w.baselineEnd := by omega
    obtain ⟨hsite', hurl', hquery'⟩ := hmatches o
      (List.mem_filter.mpr ⟨hmem, decide_eq_true hbaseline⟩)
    exact ⟨haccepted, hsite.symm.trans hsite', hurl.symm.trans hurl', hquery.symm.trans hquery'⟩
  · rintro ⟨haccepted, hstripped⟩
    obtain ⟨observations, hobservations⟩ := hbuilt.mpr haccepted
    have hmatches := matches_observations hobservations hstripped
    have hsub : ∀ (p : DailyObservation → Bool), ∀ o ∈ observations.filter p, o ∈ observations :=
      fun _ _ ho => List.mem_of_mem_filter ho
    obtain ⟨measurement, hmeasured⟩ := measureAction_isOk_iff.mpr
      ⟨(by norm_num : (0 : Rat) ≤ 8 / 10 ∧ (8 / 10 : Rat) ≤ 1),
        ⟨hnonempty, (by omega : w.currentStart ≤ w.currentEnd), hbefore, hlength⟩,
        ⟨fun o ho => hmatches o (hsub _ o ho), fun o ho => hmatches o (hsub _ o ho)⟩,
        agreeing_observations hobservations
          fun o ho => hsub _ o (mem_inWindow.mp ho).1,
        agreeing_observations hobservations
          fun o ho => hsub _ o (mem_inWindow.mp ho).1⟩
    exact ⟨observations, hobservations, measurement, hmeasured, _, rfl⟩

/-! ## When a round raises -/

def Look.windows (settings : Settings) (look : Look) : Option MeasurementWindows :=
  look.managed.applied.map fun applied =>
    measurementWindows applied.appliedAt settings.windowDays settings.settleDays

/-- The data of both windows is there, or the deadline has passed. -/
def Look.Accounted (settings : Settings) (look : Look) (w : MeasurementWindows) : Prop :=
  w.currentEnd ≤ look.newestFinal settings ∧ (look.complete w = true ∨
    w.currentEnd + settings.deadlineDays ≤ look.newestFinal settings)

/-- A round without a recorded outcome goes on to evaluate. -/
def Look.Ready (settings : Settings) (look : Look) : Prop :=
  (policies look.managed.action.actionType).isSome = true ∧
    rollbackPending look.managed = false ∧
    ∃ w ∈ look.windows settings, look.Accounted settings w

theorem WindowsOk.of_look (h : w ∈ look.windows settings) : WindowsOk settings w := by
  obtain ⟨applied, -, rfl⟩ := Option.map_eq_some_iff.mp h
  exact .of_settings

theorem Look.settle_of_ready (h : look.Ready settings) : ∃ w policy,
    w ∈ look.windows settings ∧ look.Accounted settings w ∧
      look.settle settings none = (look.evaluate settings w policy).map some := by
  obtain ⟨hpolicy, hfree, w, hw, haccounted⟩ := h
  obtain ⟨policy, hpolicy⟩ := Option.isSome_iff_exists.mp hpolicy
  obtain ⟨applied, happlied, rfl⟩ := Option.map_eq_some_iff.mp hw
  refine ⟨_, policy, hw, haccounted, ?_⟩
  have hdue : ¬ (look.complete (measurementWindows applied.appliedAt settings.windowDays
      settings.settleDays) = false ∧ look.newestFinal settings <
        (measurementWindows applied.appliedAt settings.windowDays settings.settleDays).currentEnd +
          settings.deadlineDays) := by
    rintro ⟨hincomplete, hearly⟩
    rcases haccounted.2 with hcomplete | hlate
    · rw [hcomplete] at hincomplete
      cases hincomplete
    · omega
  unfold Look.settle
  simp only [hpolicy, happlied, hfree, Bool.false_eq_true, if_false]
  rw [if_neg (by have := haccounted.1; omega), if_neg hdue]

theorem Look.settle_of_not_ready (h : ¬ look.Ready settings) :
    look.settle settings none = .ok none := by
  unfold Look.settle
  split
  · next policy applied hpolicy happlied =>
      split
      · rfl
      · next hfree =>
          dsimp only
          split
          · rfl
          · next hfinal =>
              split
              · rfl
              · next hdue =>
                  refine absurd ⟨by rw [hpolicy]; rfl, Bool.eq_false_iff.mpr hfree,
                    measurementWindows applied.appliedAt settings.windowDays settings.settleDays,
                    by rw [Look.windows, happlied]; rfl, by omega, ?_⟩ h
                  by_contra hnot
                  rw [not_or] at hnot
                  exact hdue ⟨Bool.eq_false_iff.mpr hnot.1, by omega⟩
  · rfl

variable (settings look) in
theorem Look.settle_stored (outcome : MeasuredOutcome) :
    look.settle settings (some outcome) = .ok none ∨
      look.settle settings (some outcome) = .ok (some outcome) := by
  unfold Look.settle
  split
  · split
    · exact .inl rfl
    · exact .inr rfl
  · exact .inl rfl

/-- A round raises exactly when it evaluates a target that is not clean. -/
theorem Look.settle_error_iff : (∃ exc, look.settle settings stored = .error exc) ↔
    stored.isNone = true ∧ look.Ready settings ∧ ¬ look.target.Clean := by
  cases stored with
  | some outcome =>
      refine iff_of_false ?_ (fun h => by cases h.1)
      rintro ⟨exc, h⟩
      rcases look.settle_stored settings outcome with hs | hs
      · rw [hs] at h
        cases h
      · rw [hs] at h
        cases h
  | none =>
      by_cases hready : look.Ready settings
      · obtain ⟨w, policy, hw, -, hsettle⟩ := Look.settle_of_ready hready
        have hok : (∃ outcome, look.evaluate settings w policy = .ok outcome) ↔
            look.target.Clean := Look.evaluate_isOk_iff (WindowsOk.of_look hw)
        rw [hsettle, ← hok]
        cases look.evaluate settings w policy with
        | error exc => simp [hready, Except.map]
        | ok outcome => simp [Except.map]
      · rw [Look.settle_of_not_ready hready]
        simp [hready]

/-! ## Which rows are read -/

/-- A day that the ledger has as synced from the site's property, from the first day of
the baseline to the last current day. -/
def Look.OwnDay (settings : Settings) (look : Look) (day : Int) : Prop :=
  ∃ w ∈ look.windows settings, (w.baselineStart ≤ day ∧ day ≤ w.currentEnd) ∧
    ∃ entry, look.ledger day = some entry ∧ entry.status = .synced ∧
      look.propertyOf (look.entries w.toWindows) = some entry.propertyUrl

/-- Two looks differ at most in the rows of days that do not count. -/
structure SameOwnDays (settings : Settings) (look other : Look) : Prop where
  now : other.now = look.now
  managed : other.managed = look.managed
  site : other.site = look.site
  ledger : other.ledger = look.ledger
  pageRows : ∀ day, look.OwnDay settings day →
    other.pageRows.filter (fun r => r.day = day) = look.pageRows.filter fun r => r.day = day
  queryRows : ∀ day, look.OwnDay settings day →
    other.queryRows.filter (fun r => r.day = day) = look.queryRows.filter fun r => r.day = day

theorem Look.observations_congr (h : SameOwnDays settings look other)
    (hw : w ∈ look.windows settings) :
    other.observations w.toWindows = look.observations w.toWindows := by
  obtain ⟨hnow, hmanaged, hsite, hledger, hpages, hqueries⟩ := h
  obtain ⟨now, managed, site, ledger, pageRows, queryRows⟩ := look
  obtain ⟨now', managed', site', ledger', pageRows', queryRows'⟩ := other
  subst hnow hmanaged hsite hledger
  refine buildObservations_congr fun day hday => ?_
  have hown := Look.mem_storedDays.mp (of_decide_eq_true hday)
  have hpage := hpages day ⟨w, hw, hown⟩
  have hquery := hqueries day ⟨w, hw, hown⟩
  constructor
  · unfold Look.rows Look.pageRowsOn Look.queryRowsOn
    dsimp only at hpage hquery ⊢
    rw [hpage, hquery]
    rfl
  · unfold Look.pageDays Look.pageRowsOn
    dsimp only at hpage ⊢
    rw [hpage]
    rfl

/-- What the warehouse has of other days makes no difference to a round. -/
theorem Look.settle_congr (h : SameOwnDays settings look other) :
    other.settle settings stored = look.settle settings stored := by
  have hobservations := fun w (hw : w ∈ look.windows settings) => Look.observations_congr h hw
  obtain ⟨hnow, hmanaged, hsite, hledger, -, -⟩ := h
  obtain ⟨now, managed, site, ledger, pageRows, queryRows⟩ := look
  obtain ⟨now', managed', site', ledger', pageRows', queryRows'⟩ := other
  subst hnow hmanaged hsite hledger
  unfold Look.settle
  dsimp only
  split
  · next policy applied hpolicy happlied =>
      refine if_congr Iff.rfl rfl ?_
      cases stored with
      | some outcome => rfl
      | none =>
          refine if_congr Iff.rfl rfl (if_congr Iff.rfl rfl (congrArg (Except.map some) ?_))
          unfold Look.evaluate
          rw [hobservations _ (by rw [Look.windows, happlied]; rfl)]
          rfl
  · rfl

end SeoAgent.Measurement
