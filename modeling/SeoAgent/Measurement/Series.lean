import Mathlib.Algebra.Order.Field.Rat
import Mathlib.Data.Nat.Cast.Order.Ring
import SeoAgent.Features.Observation
import SeoAgent.Verified.Outcome

/-!
# The daily observations of a page and query

`build_observations` of `app/measurement/series.py`, with what the constructor of
`DailyObservation` checks and strips. The rows are the sums the warehouse keeps of
one day; they have no more clicks than impressions, which the fetch checks row by
row. Days are ordinals.

A day that is not stored from the site's property says nothing, whatever rows are
there of it.

## Main results

* `newObservation_isOk_iff` — when an observation is accepted.
* `buildObservations_isOk_iff` — when all of a window are.
* `buildObservations_congr` — the observations depend on the stored days only.
-/

namespace SeoAgent.Measurement

open Verified Ports Features

/-! ## Rows of a day -/

/-- Clicks, impressions and the sum of positions of some rows of a day. -/
structure DayMetrics where
  clicks : Nat
  impressions : Nat
  positionSum : Rat
  clicks_le : clicks ≤ impressions
  positionSum_nonneg : 0 ≤ positionSum

/-- The sum of the rows. -/
def DayMetrics.sum : List DayMetrics → DayMetrics
  | [] => ⟨0, 0, 0, Nat.le_refl 0, Rat.le_refl⟩
  | row :: rows =>
      let rest := sum rows
      { clicks := row.clicks + rest.clicks
        impressions := row.impressions + rest.impressions
        positionSum := row.positionSum + rest.positionSum
        clicks_le := Nat.add_le_add row.clicks_le rest.clicks_le
        positionSum_nonneg := add_nonneg row.positionSum_nonneg rest.positionSum_nonneg }

/-! ## Observations -/

/-- What is measured. -/
structure Target where
  siteId : String
  normalizedUrl : String
  normalizedQuery : String
deriving DecidableEq

/-- What the validators of an observation ask of its texts: they are not blank, and
the id of the site has at most 50 characters. -/
def Target.Accepted (t : Target) : Prop :=
  (Text.strip t.siteId ≠ "" ∧ t.siteId.length ≤ 50) ∧ Text.strip t.normalizedUrl ≠ "" ∧
    Text.strip t.normalizedQuery ≠ ""

/-- The texts are what an observation makes of them. -/
def Target.Stripped (t : Target) : Prop :=
  Text.strip t.siteId = t.siteId ∧ Text.strip t.normalizedUrl = t.normalizedUrl ∧
    Text.strip t.normalizedQuery = t.normalizedQuery

instance (t : Target) : Decidable t.Accepted := inferInstanceAs (Decidable ((_ ∧ _) ∧ _ ∧ _))

instance (t : Target) : Decidable t.Stripped := inferInstanceAs (Decidable (_ ∧ _ ∧ _))

theorem Target.Accepted.texts {t : Target} (h : t.Accepted) :
    TextsValid (Text.strip t.siteId) (Text.strip t.normalizedUrl)
      (Text.strip t.normalizedQuery) where
  siteId := ⟨Text.strip_strip _, h.1.1, (Text.length_strip_le _).trans h.1.2⟩
  normalizedUrl := ⟨Text.strip_strip _, h.2.1⟩
  normalizedQuery := ⟨Text.strip_strip _, h.2.2⟩

/-- `DailyObservation(...)`. -/
def newObservation (t : Target) (date : Int) (impressions clicks : Nat)
    (avgPosition : Option Rat) (dataStatus : DataStatus) : Except Exc DailyObservation :=
  if h : t.Accepted ∧ clicks ≤ impressions ∧ ∀ p ∈ avgPosition, 0 ≤ p then
    .ok
      { siteId := Text.strip t.siteId
        normalizedUrl := Text.strip t.normalizedUrl
        normalizedQuery := Text.strip t.normalizedQuery
        date, impressions, clicks, avgPosition, dataStatus
        texts := h.1.texts
        clicks_le := h.2.1
        position_nonneg := h.2.2 }
  else .error ⟨.validationError, "validation error for DailyObservation"⟩

def windowDays (start end_ : Int) : List Int :=
  (List.range (end_ - start + 1).toNat).map fun offset : Nat => start + offset

/-- The observation of a day without a row that counts. -/
def missingObservation (t : Target) (stored capped pageDays : Int → Bool) (day : Int) :
    Except Exc DailyObservation :=
  newObservation t day 0 0 none
    (if stored day && !capped day && !pageDays day then .missingExpectedZero
     else .missingUnknown)

/-- The observation of one day. -/
def dayObservation (t : Target) (stored capped : Int → Bool)
    (queryRows : Int → Option DayMetrics) (pageDays : Int → Bool) (day : Int) :
    Except Exc DailyObservation :=
  match queryRows day with
  | some row =>
      if stored day = true ∧ 0 < row.impressions then
        newObservation t day row.impressions row.clicks
          (some (row.positionSum / row.impressions)) .observed
      else missingObservation t stored capped pageDays day
  | none => missingObservation t stored capped pageDays day

/-- `build_observations`. -/
def buildObservations (t : Target) (start end_ : Int) (stored capped : Int → Bool)
    (queryRows : Int → Option DayMetrics) (pageDays : Int → Bool) :
    Except Exc (List DailyObservation) :=
  collect (dayObservation t stored capped queryRows pageDays) (windowDays start end_)

/-! ## When they are accepted -/

variable {t : Target} {date day start end_ : Int} {impressions clicks : Nat}
  {avgPosition : Option Rat} {dataStatus : DataStatus} {o : DailyObservation}
  {stored capped pageDays : Int → Bool} {queryRows : Int → Option DayMetrics}
  {observations : List DailyObservation}

theorem newObservation_isOk_iff :
    (∃ o, newObservation t date impressions clicks avgPosition dataStatus = .ok o) ↔
      t.Accepted ∧ clicks ≤ impressions ∧ ∀ p ∈ avgPosition, 0 ≤ p := by
  unfold newObservation
  constructor
  · rintro ⟨o, h⟩
    split at h
    · next hvalid => exact hvalid
    · cases h
  · intro h
    exact ⟨_, dif_pos h⟩

/-- An accepted observation is for the stripped target, and of its day. -/
theorem newObservation_ok
    (h : newObservation t date impressions clicks avgPosition dataStatus = .ok o) :
    o.siteId = Text.strip t.siteId ∧ o.normalizedUrl = Text.strip t.normalizedUrl ∧
      o.normalizedQuery = Text.strip t.normalizedQuery ∧ o.date = date ∧
      o.dataStatus = dataStatus := by
  unfold newObservation at h
  split at h
  · cases h
    exact ⟨rfl, rfl, rfl, rfl, rfl⟩
  · cases h

theorem mem_windowDays : day ∈ windowDays start end_ ↔ start ≤ day ∧ day ≤ end_ := by
  unfold windowDays
  rw [List.mem_map]
  constructor
  · rintro ⟨offset, hoffset, rfl⟩
    have := List.mem_range.mp hoffset
    omega
  · rintro ⟨hstart, hend⟩
    exact ⟨(day - start).toNat, List.mem_range.mpr (by omega), by omega⟩

/-- What a day's observation is, when it is accepted. -/
theorem dayObservation_ok (h : dayObservation t stored capped queryRows pageDays day = .ok o) :
    o.siteId = Text.strip t.siteId ∧ o.normalizedUrl = Text.strip t.normalizedUrl ∧
      o.normalizedQuery = Text.strip t.normalizedQuery ∧ o.date = day ∧
      (o.dataStatus.usable = true → stored day = true) := by
  have hmissing : missingObservation t stored capped pageDays day = .ok o →
      o.siteId = Text.strip t.siteId ∧ o.normalizedUrl = Text.strip t.normalizedUrl ∧
      o.normalizedQuery = Text.strip t.normalizedQuery ∧ o.date = day ∧
      (o.dataStatus.usable = true → stored day = true) := by
    intro hnew
    obtain ⟨hsite, hurl, hquery, hdate, hstatus⟩ := newObservation_ok hnew
    refine ⟨hsite, hurl, hquery, hdate, fun husable => ?_⟩
    by_contra hnot
    rw [hstatus, if_neg (by simp [hnot])] at husable
    cases husable
  unfold dayObservation at h
  split at h
  · split at h
    · next hstored =>
        obtain ⟨hsite, hurl, hquery, hdate, -⟩ := newObservation_ok h
        exact ⟨hsite, hurl, hquery, hdate, fun _ => hstored.1⟩
    · exact hmissing h
  · exact hmissing h

theorem dayObservation_isOk_iff :
    (∃ o, dayObservation t stored capped queryRows pageDays day = .ok o) ↔ t.Accepted := by
  have hmissing : (∃ o, missingObservation t stored capped pageDays day = .ok o) ↔
      t.Accepted := by
    unfold missingObservation
    rw [newObservation_isOk_iff]
    simp
  unfold dayObservation
  split
  · next row _ =>
      split
      · rw [newObservation_isOk_iff]
        refine ⟨And.left, fun h => ⟨h, row.clicks_le, fun p hp => ?_⟩⟩
        rw [← Option.some.inj hp]
        exact div_nonneg row.positionSum_nonneg (Nat.cast_nonneg _)
      · exact hmissing
  · exact hmissing

/-- The observations of a window with a day in it are made exactly when its target
is accepted. -/
theorem buildObservations_isOk_iff (hdays : start ≤ end_) :
    (∃ observations, buildObservations t start end_ stored capped queryRows pageDays =
      .ok observations) ↔ t.Accepted := by
  unfold buildObservations
  rw [collect_isOk_iff]
  constructor
  · intro h
    exact dayObservation_isOk_iff.mp (h start (mem_windowDays.mpr ⟨Int.le_refl _, hdays⟩))
  · exact fun h day _ => dayObservation_isOk_iff.mpr h

/-- There is one observation for each day, and one that says anything is of a stored day. -/
theorem mem_buildObservations
    (h : buildObservations t start end_ stored capped queryRows pageDays = .ok observations)
    (ho : o ∈ observations) :
    dayObservation t stored capped queryRows pageDays o.date = .ok o ∧
      start ≤ o.date ∧ o.date ≤ end_ := by
  obtain ⟨day, hday, hobservation⟩ := (mem_collect h).mp ho
  obtain ⟨-, -, -, hdate, -⟩ := dayObservation_ok hobservation
  rw [hdate]
  exact ⟨hobservation, mem_windowDays.mp hday⟩

/-- What is there of a day that is not stored makes no difference. -/
theorem buildObservations_congr {queryRows' : Int → Option DayMetrics} {pageDays' : Int → Bool}
    (h : ∀ day, stored day = true → queryRows day = queryRows' day ∧
      pageDays day = pageDays' day) :
    buildObservations t start end_ stored capped queryRows pageDays =
      buildObservations t start end_ stored capped queryRows' pageDays' := by
  refine collect_congr fun day _ => ?_
  cases hstored : stored day with
  | true =>
      obtain ⟨hrow, hseen⟩ := h day hstored
      unfold dayObservation missingObservation
      rw [hrow, hseen]
  | false =>
      have hunknown : ∀ rows seen, dayObservation t stored capped rows seen day =
          newObservation t day 0 0 none .missingUnknown := by
        intro rows seen
        unfold dayObservation missingObservation
        simp only [hstored, Bool.false_eq_true, false_and, if_false, Bool.false_and]
        split <;> rfl
      rw [hunknown, hunknown]

end SeoAgent.Measurement
