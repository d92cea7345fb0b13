import Mathlib.Data.Nat.Digits.Defs
import Mathlib.Order.Basic

/-!
# Times as ISO 8601 texts

A time in UTC by its calendar fields, in chronological order. `isoformat` is Python's:
the microseconds are written when there are any. `fromIsoformat` reads the texts
`isoformat` writes.

## Main results

* `fromIsoformat_isoformat` — reading gives back the time that was written.
-/

namespace SeoAgent.Verified

/-! ## Times -/

/-- The calendar fields of a time. -/
structure TimeFields where
  year : Nat
  month : Nat
  day : Nat
  hour : Nat
  minute : Nat
  second : Nat
  microsecond : Nat
  deriving DecidableEq, Repr

namespace TimeFields

def leap (year : Nat) : Bool := year % 4 = 0 && (year % 100 != 0 || year % 400 = 0)

/-- The days of a month. -/
def monthLength (year month : Nat) : Nat :=
  if month = 2 then (if leap year then 29 else 28)
  else if month = 4 ∨ month = 6 ∨ month = 9 ∨ month = 11 then 30 else 31

/-- The fields `datetime` accepts. -/
def Valid (t : TimeFields) : Prop :=
  (1 ≤ t.year ∧ t.year < 10000) ∧ (1 ≤ t.month ∧ t.month ≤ 12) ∧
    (1 ≤ t.day ∧ t.day ≤ monthLength t.year t.month) ∧ t.hour < 24 ∧ t.minute < 60 ∧
    t.second < 60 ∧ t.microsecond < 1000000

instance (t : TimeFields) : Decidable t.Valid := by
  unfold Valid
  infer_instance

theorem Valid.day_lt {t : TimeFields} (h : t.Valid) : t.day < 32 := by
  have hday := h.2.2.1.2
  unfold monthLength at hday
  split at hday
  · split at hday <;> omega
  · split at hday <;> omega

/-- A number that orders the times of the calendar. -/
def ordinal (t : TimeFields) : Nat :=
  (((((t.year * 13 + t.month) * 32 + t.day) * 24 + t.hour) * 60 + t.minute) * 60 +
    t.second) * 1000000 + t.microsecond

theorem ordinal_injective {t u : TimeFields} (ht : t.Valid) (hu : u.Valid)
    (h : t.ordinal = u.ordinal) : t = u := by
  have htday := ht.day_lt
  have huday := hu.day_lt
  obtain ⟨-, ⟨-, htm⟩, -, hth, htmi, hts, htus⟩ := ht
  obtain ⟨-, ⟨-, hum⟩, -, huh, humi, hus, huus⟩ := hu
  unfold ordinal at h
  have hus' : t.microsecond = u.microsecond := by omega
  have hs : t.second = u.second := by omega
  have hmi : t.minute = u.minute := by omega
  have hh : t.hour = u.hour := by omega
  have hd : t.day = u.day := by omega
  have hm : t.month = u.month := by omega
  have hy : t.year = u.year := by omega
  cases t
  cases u
  simp_all

end TimeFields

/-- A `datetime` in UTC. -/
structure Datetime where
  fields : TimeFields
  valid : fields.Valid
  deriving DecidableEq

namespace Datetime

theorem ordinal_injective : Function.Injective fun t : Datetime => t.fields.ordinal := by
  rintro ⟨t, ht⟩ ⟨u, hu⟩ h
  obtain rfl := TimeFields.ordinal_injective ht hu h
  rfl

instance : LinearOrder Datetime :=
  LinearOrder.lift' (fun t : Datetime => t.fields.ordinal) ordinal_injective

/-- The time of some fields, when there is one. -/
def ofFields? (t : TimeFields) : Option Datetime :=
  if h : t.Valid then some ⟨t, h⟩ else none

@[simp] theorem ofFields?_fields (t : Datetime) : ofFields? t.fields = some t :=
  dif_pos t.valid

end Datetime

/-! ## Numbers of a fixed width -/

namespace IsoTime

def digitChar (n : Nat) : Char := "0123456789".toList.getD n '0'

def digitVal (c : Char) : Option Nat := "0123456789".toList.idxOf? c

set_option maxRecDepth 4000 in
theorem digitVal_digitChar : ∀ n < 10, digitVal (digitChar n) = some n := by decide

/-- The last digits of a number, most significant first. -/
def padded : (width n : Nat) → List Char
  | 0, _ => []
  | width + 1, n => padded width (n / 10) ++ [digitChar (n % 10)]

/-- Reads so many digits: the number, and what follows. -/
def readPadded : (width value : Nat) → List Char → Option (Nat × List Char)
  | 0, value, cs => some (value, cs)
  | _ + 1, _, [] => none
  | width + 1, value, c :: cs =>
      match digitVal c with
      | none => none
      | some d => readPadded width (value * 10 + d) cs

theorem readPadded_append (width n : Nat) {k : Nat} (value : Nat) (rest : List Char) :
    readPadded (width + k) value (padded width n ++ rest) =
      readPadded k (value * 10 ^ width + n % 10 ^ width) rest := by
  induction width generalizing n k rest with
  | zero => simp [padded, Nat.mod_one]
  | succ width ih =>
      have hstep : readPadded (k + 1) (value * 10 ^ width + n / 10 % 10 ^ width)
          (digitChar (n % 10) :: rest) =
          readPadded k ((value * 10 ^ width + n / 10 % 10 ^ width) * 10 + n % 10) rest := by
        rw [readPadded, digitVal_digitChar _ (Nat.mod_lt n (by decide))]
      have hwidth : width + 1 + k = width + (k + 1) := by omega
      rw [hwidth, padded, List.append_assoc, List.singleton_append, ih, hstep]
      have hvalue : (value * 10 ^ width + n / 10 % 10 ^ width) * 10 + n % 10 =
          value * 10 ^ (width + 1) + n % 10 ^ (width + 1) := by
        have hmod : n % 10 ^ (width + 1) = n / 10 % 10 ^ width * 10 + n % 10 := by
          rw [pow_succ, Nat.mul_comm (10 ^ width) 10, Nat.mod_mul]
          omega
        rw [hmod, pow_succ]
        ring
      rw [hvalue]

/-- A number that fits is read as it was written. -/
theorem readPadded_padded {width n : Nat} (h : n < 10 ^ width) (rest : List Char) :
    readPadded width 0 (padded width n ++ rest) = some (n, rest) := by
  have hread := readPadded_append width n (k := 0) 0 rest
  rw [Nat.add_zero, Nat.zero_mul, Nat.zero_add, Nat.mod_eq_of_lt h] at hread
  rw [hread, readPadded]

/-- One given character. -/
def literal (c : Char) : List Char → Option (List Char)
  | d :: cs => if d = c then some cs else none
  | [] => none

@[simp] theorem literal_self (c : Char) (cs : List Char) : literal c (c :: cs) = some cs :=
  if_pos rfl

/-! ## Times as texts -/

/-- The offset of UTC. -/
def utc : List Char := "+00:00".toList

/-- The microseconds, when there are any. -/
def fraction (microsecond : Nat) : List Char :=
  if microsecond = 0 then [] else '.' :: padded 6 microsecond

/-- `datetime.isoformat()`. -/
def isoformat (t : Datetime) : List Char :=
  let t := t.fields
  padded 4 t.year ++ '-' :: (padded 2 t.month ++ '-' :: (padded 2 t.day ++ 'T' ::
    (padded 2 t.hour ++ ':' :: (padded 2 t.minute ++ ':' :: (padded 2 t.second ++
      (fraction t.microsecond ++ utc))))))

def readFraction : List Char → Option (Nat × List Char)
  | '.' :: cs => readPadded 6 0 cs
  | cs => some (0, cs)

/-- `datetime.fromisoformat(text)`, of the texts `isoformat` writes. -/
def fromIsoformat (cs : List Char) : Option Datetime := do
  let (year, cs) ← readPadded 4 0 cs
  let cs ← literal '-' cs
  let (month, cs) ← readPadded 2 0 cs
  let cs ← literal '-' cs
  let (day, cs) ← readPadded 2 0 cs
  let cs ← literal 'T' cs
  let (hour, cs) ← readPadded 2 0 cs
  let cs ← literal ':' cs
  let (minute, cs) ← readPadded 2 0 cs
  let cs ← literal ':' cs
  let (second, cs) ← readPadded 2 0 cs
  let (microsecond, cs) ← readFraction cs
  if cs = utc then
    Datetime.ofFields? { year, month, day, hour, minute, second, microsecond }
  else none

theorem readFraction_fraction {microsecond : Nat} (h : microsecond < 1000000) :
    readFraction (fraction microsecond ++ utc) = some (microsecond, utc) := by
  unfold fraction
  split
  · next hzero => rw [hzero]; rfl
  · exact readPadded_padded (show microsecond < 10 ^ 6 from h) utc

/-- Reading gives back the time that was written. -/
theorem fromIsoformat_isoformat (t : Datetime) : fromIsoformat (isoformat t) = some t := by
  have hday := t.valid.day_lt
  obtain ⟨⟨-, hyear⟩, ⟨-, hmonth⟩, -, hhour, hminute, hsecond, hus⟩ := t.valid
  have hyear' : t.fields.year < 10 ^ 4 := hyear
  have hmonth' : t.fields.month < 10 ^ 2 := by omega
  have hday' : t.fields.day < 10 ^ 2 := by omega
  have hhour' : t.fields.hour < 10 ^ 2 := by omega
  have hminute' : t.fields.minute < 10 ^ 2 := by omega
  have hsecond' : t.fields.second < 10 ^ 2 := by omega
  simp only [fromIsoformat, isoformat, readPadded_padded hyear', readPadded_padded hmonth',
    readPadded_padded hday', readPadded_padded hhour', readPadded_padded hminute',
    readPadded_padded hsecond', readFraction_fraction hus, literal_self,
    Option.bind_eq_bind, Option.bind_some, if_true]
  exact t.ofFields?_fields

end IsoTime

end SeoAgent.Verified
