import Mathlib.Data.List.Sort
import Mathlib.Algebra.Order.Ring.Int

/-!
# Which days to fetch next

`plan_days` and `sync_window` of `app/warehouse/planner.py`. Days are counted as
ordinals and instants in microseconds from the start of day 0 in UTC; the ends
of the calendar are not modelled.

The planner walks the window from its newest day back and stops when it has
enough days. `planDays_eq` says what it returns without the walk: the first
`limit` of the due days of the window, newest first.

## Main results

* `planDays_eq` — the plan as the beginning of the list of due days.
* `dueDays_sorted` — the due days are strictly descending.
-/

namespace SeoAgent.Warehouse

/-! ## The ledger -/

inductive SyncStatus
  | synced
  | failed
deriving DecidableEq

structure LedgerEntry where
  propertyUrl : String
  status : SyncStatus
  fetchedAt : Int
deriving DecidableEq

/-- The rows of `gsc_sync_days` of one site. -/
abbrev Ledger : Type := Int → Option LedgerEntry

/-! ## The window -/

def hour : Int := 3600 * 1000000

/-- `GSC_DATA_LAG_DAYS`. -/
def dataLagDays : Int := 3

/-- `WINDOW_DAYS`. -/
def windowDays : Int := 480

/-- The date in Pacific standard time. -/
def searchConsoleToday (now : Int) : Int := (now - 8 * hour) / (24 * hour)

/-- The oldest and the newest day the warehouse should hold. -/
def syncWindow (now : Int) : Int × Int :=
  let newest := searchConsoleToday now - dataLagDays
  (newest - (windowDays - 1), newest)

/-! ## The plan -/

/-- Whether a day is to be fetched from a property. -/
def IsDue (propertyUrl : String) (entries : Ledger) (now retryAfter : Int) (day : Int) : Prop :=
  match entries day with
  | none => True
  | some entry => entry.propertyUrl ≠ propertyUrl ∨
      (entry.status = .failed ∧ retryAfter ≤ now - entry.fetchedAt)

instance (propertyUrl : String) (entries : Ledger) (now retryAfter : Int) :
    DecidablePred (IsDue propertyUrl entries now retryAfter) := fun day =>
  match h : entries day with
  | none => .isTrue (by simp only [IsDue, h])
  | some entry => decidable_of_iff (entry.propertyUrl ≠ propertyUrl ∨
      (entry.status = .failed ∧ retryAfter ≤ now - entry.fetchedAt)) (by simp only [IsDue, h])

/-- The loop of `plan_days` when the days from `oldest` to `oldest + n - 1` are
still to be looked at and `limit` more days may be taken. -/
def planFrom (due : Int → Prop) [DecidablePred due] (oldest : Int) : Nat → Nat → List Int
  | 0, _ => []
  | _ + 1, 0 => []
  | n + 1, limit + 1 =>
      if due (oldest + n) then (oldest + n) :: planFrom due oldest n limit
      else planFrom due oldest n (limit + 1)

/-- The number of days of a window. -/
def daysIn (window : Int × Int) : Nat := (window.2 - window.1 + 1).toNat

/-- The next days to fetch, newest first, at most `limit`. -/
def planDays (window : Int × Int) (propertyUrl : String) (entries : Ledger)
    (now retryAfter : Int) (limit : Nat) : List Int :=
  planFrom (IsDue propertyUrl entries now retryAfter) window.1 (daysIn window) limit

/-! ## What is due -/

/-- `n` days up to `oldest + n - 1`, newest first. -/
def daysDown (oldest : Int) : Nat → List Int
  | 0 => []
  | n + 1 => (oldest + n) :: daysDown oldest n

/-- The due days of a window, newest first. -/
def dueDays (window : Int × Int) (propertyUrl : String) (entries : Ledger)
    (now retryAfter : Int) : List Int :=
  (daysDown window.1 (daysIn window)).filter fun day =>
    IsDue propertyUrl entries now retryAfter day

variable {window : Int × Int} {propertyUrl : String} {entries : Ledger} {now retryAfter : Int}

theorem mem_daysDown {oldest day : Int} {n : Nat} :
    day ∈ daysDown oldest n ↔ oldest ≤ day ∧ day < oldest + n := by
  induction n with
  | zero =>
      simp only [daysDown, List.not_mem_nil, false_iff]
      omega
  | succ n ih =>
      rw [daysDown, List.mem_cons, ih]
      omega

theorem daysDown_sorted (oldest : Int) (n : Nat) : (daysDown oldest n).Pairwise (· > ·) := by
  induction n with
  | zero => exact List.Pairwise.nil
  | succ n ih =>
      refine List.pairwise_cons.mpr ⟨fun day hday => ?_, ih⟩
      exact (mem_daysDown.mp hday).2

theorem mem_window {day : Int} :
    day ∈ daysDown window.1 (daysIn window) ↔ window.1 ≤ day ∧ day ≤ window.2 := by
  rw [mem_daysDown, daysIn]
  omega

theorem mem_dueDays {day : Int} : day ∈ dueDays window propertyUrl entries now retryAfter ↔
    (window.1 ≤ day ∧ day ≤ window.2) ∧ IsDue propertyUrl entries now retryAfter day := by
  rw [dueDays, List.mem_filter, mem_window, decide_eq_true_eq]

theorem dueDays_sorted : (dueDays window propertyUrl entries now retryAfter).Pairwise (· > ·) :=
  (daysDown_sorted _ _).filter _

theorem dueDays_nodup : (dueDays window propertyUrl entries now retryAfter).Nodup :=
  dueDays_sorted.imp fun h => (Int.ne_of_lt h).symm

theorem planFrom_eq (due : Int → Prop) [DecidablePred due] (oldest : Int) (n limit : Nat) :
    planFrom due oldest n limit = ((daysDown oldest n).filter fun day => due day).take limit := by
  induction n generalizing limit with
  | zero => rw [planFrom, daysDown, List.filter_nil, List.take_nil]
  | succ n ih =>
      cases limit with
      | zero => rw [planFrom, List.take_zero]
      | succ limit =>
          rw [planFrom, daysDown, List.filter_cons]
          by_cases h : due (oldest + n)
          · rw [if_pos h, if_pos (decide_eq_true h), List.take_succ_cons, ih]
          · rw [if_neg h, if_neg (by simp [h]), ih]

/-- The plan is the first `limit` of the due days, newest first. -/
theorem planDays_eq (limit : Nat) : planDays window propertyUrl entries now retryAfter limit =
    (dueDays window propertyUrl entries now retryAfter).take limit :=
  planFrom_eq _ _ _ _

end SeoAgent.Warehouse
