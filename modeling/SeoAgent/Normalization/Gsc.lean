import SeoAgent.Warehouse.Rows

/-!
# The shared Search Console normaliser

`_groups` at query level and `normalize_gsc_response` of
`app/normalization/gsc.py`: the rows of one response are validated, repeats are
dropped and conflicts refused, and the rows of one canonical page, normalised
query and day are added up. The payload's rows are objects in a list.

The row rules are those of the module, not of the warehouse: counts are integers
and nothing else, a position may be null, and a page that is no URL is refused
with the whole response, as is a query that is empty once it is normalised.

## Main results

* `normalizeGscResponse_ok_iff` — what is accepted, and what comes of it.
* `sum_normalized` — the rows of some pages and queries add up to what was read.
-/

namespace SeoAgent.Normalization

open SeoAgent.Verified
open SeoAgent.Warehouse (Value Row Normalisers)

structure RawGSCResponse where
  siteId : String
  fetchDate : Int
  dimensions : Option (List String)
  rows : List Row

structure NormalizedGSCRow where
  siteId : String
  date : Int
  normalizedUrl : String
  normalizedQuery : String
  impressions : Nat
  clicks : Nat
  avgPosition : Option Rat
deriving DecidableEq

/-- A `ValueError` of the module or of what it calls, and pydantic's own. -/
inductive NormalizationError
  | value (text : String)
  | url (value : String)
  | date (value : String)
  | validation
deriving DecidableEq

variable (lib : Normalisers) (fromisoformat : String → Option Int)

def expected : List String := ["page", "query", "date"]

/-- The numbers of keys a row may have. -/
def lengths (dimensions : Option (List String)) : List Nat :=
  if dimensions = some expected then [3] else [2, 3]

/-- A non-negative integer: `type(value) is int`. -/
def countOf : Value → Option Nat
  | .int n => if 0 ≤ n then some n.toNat else none
  | _ => none

def positionOrNull : Value → Except NormalizationError (Option Rat)
  | .null => .ok none
  | .int n => if 0 ≤ n then .ok (some n)
      else .error (.value "GSC position must be finite, non-negative or null")
  | .float q => if 0 ≤ q then .ok (some q)
      else .error (.value "GSC position must be finite, non-negative or null")
  | _ => .error (.value "GSC position must be finite, non-negative or null")

/-- Impressions, clicks and position of a row. -/
abbrev Values : Type := Nat × Nat × Option Rat

/-- Canonical page, normalised query and day. -/
abbrev GroupKey : Type := String ×ₗ String ×ₗ Int

def readValues (row : Row) : Except NormalizationError Values :=
  match countOf row.impressions, countOf row.clicks with
  | some impressions, some clicks =>
      if impressions < clicks then .error (.value "GSC clicks exceed impressions")
      else (positionOrNull row.position).map fun position => (impressions, clicks, position)
  | _, _ => .error (.value "GSC counts must be non-negative integers")

/-- The day of a row: its last key when it has three. -/
def dayOf (response : RawGSCResponse) (keys : List String) : Except NormalizationError Int :=
  if keys.length = 3 then
    match fromisoformat (keys.getLastD "") with
    | some day => .ok day
    | none => .error (.date (keys.getLastD ""))
  else .ok response.fetchDate

def groupKey (response : RawGSCResponse) (keys : List String) :
    Except NormalizationError GroupKey :=
  match dayOf fromisoformat response keys with
  | .error exc => .error exc
  | .ok day =>
      match lib.canonicalizeUrl (keys.getD 0 "") with
      | none => .error (.url (keys.getD 0 ""))
      | some url => .ok (toLex (url, toLex (lib.normalizeQuery (keys.getD 1 ""), day)))

/-- A row of the response: its raw keys, its group and its values. -/
def readRow (response : RawGSCResponse) (row : Row) :
    Except NormalizationError (List String × GroupKey × Values) :=
  match row.keys.bind fun keys => keys.mapM id with
  | none => .error (.value "Invalid GSC row keys")
  | some keys =>
      if keys.length ∉ lengths response.dimensions then .error (.value "Invalid GSC row keys")
      else
        match readValues row with
        | .error exc => .error exc
        | .ok values =>
            match groupKey lib fromisoformat response keys with
            | .error exc => .error exc
            | .ok key => .ok (keys, key, values)

def conflictingRow : NormalizationError := .value "Conflicting duplicate GSC row"

/-- `_groups`: the distinct rows of the response, with their groups. -/
def groups (response : RawGSCResponse) :
    Except NormalizationError (List (List String × GroupKey × Values)) :=
  match response.dimensions with
  | none => readDistinct conflictingRow (readRow lib fromisoformat response) response.rows
  | some dimensions =>
      if dimensions ≠ expected ∧ dimensions ≠ ["page", "query"] then
        .error (.value "Unexpected GSC dimensions")
      else readDistinct conflictingRow (readRow lib fromisoformat response) response.rows

/-- The average position of a group. -/
def averagePosition : List Values → Option Rat
  | [v] => v.2.2
  | values =>
      let impressions := (values.map fun v => v.1).sum
      let shown := values.filter fun v => v.1 ≠ 0
      if impressions ≠ 0 ∧ shown.all (fun v => v.2.2.isSome) then
        some ((shown.map fun v => (v.1 : Rat) * v.2.2.getD 0).sum / impressions)
      else none

/-- The row of a group. -/
def rowOf (siteId : String) (g : GroupKey × List Values) : NormalizedGSCRow where
  siteId := siteId
  date := (ofLex (ofLex g.1).2).2
  normalizedUrl := (ofLex g.1).1
  normalizedQuery := (ofLex (ofLex g.1).2).1
  impressions := (g.2.map fun v => v.1).sum
  clicks := (g.2.map fun v => v.2.1).sum
  avgPosition := averagePosition g.2

/-- What the model of a row asks for: a page and a query that are not empty. -/
def Valid (key : GroupKey) : Prop := (ofLex key).1 ≠ "" ∧ (ofLex (ofLex key).2).1 ≠ ""

instance (key : GroupKey) : Decidable (Valid key) :=
  inferInstanceAs (Decidable (_ ≠ "" ∧ _ ≠ ""))

/-- The groups of the distinct rows. -/
def grouped (es : List (List String × GroupKey × Values)) : List (GroupKey × List Values) :=
  groupsOf (es.map Prod.snd)

def normalizeGscResponse (response : RawGSCResponse) :
    Except NormalizationError (List NormalizedGSCRow) :=
  match groups lib fromisoformat response with
  | .error exc => .error exc
  | .ok es =>
      if ∀ g ∈ grouped es, Valid g.1 then .ok ((grouped es).map (rowOf response.siteId))
      else .error .validation

variable {lib fromisoformat} {response : RawGSCResponse} {s : List NormalizedGSCRow}

/-- A response is accepted when its rows are and every group has a page and a
query, and gives one row for each group. -/
theorem normalizeGscResponse_ok_iff : normalizeGscResponse lib fromisoformat response = .ok s ↔
    ∃ es, groups lib fromisoformat response = .ok es ∧ (∀ e ∈ es, Valid e.2.1) ∧
      s = (grouped es).map (rowOf response.siteId) := by
  unfold normalizeGscResponse
  cases groups lib fromisoformat response with
  | error exc =>
      constructor
      · intro h
        cases h
      · rintro ⟨es, h, -⟩
        cases h
  | ok es =>
      have hvalid : (∀ g ∈ grouped es, Valid g.1) ↔ ∀ e ∈ es, Valid e.2.1 := by
        constructor
        · intro h e he
          have hin : e.2.1 ∈ (es.map Prod.snd).map Prod.fst :=
            List.mem_map_of_mem (List.mem_map_of_mem he)
          obtain ⟨g, hg, hkey⟩ := List.mem_map.mp (mem_groupsOf_keys.mpr hin)
          exact hkey ▸ h g hg
        · intro h g hg
          have hin := mem_groupsOf_keys.mp (List.mem_map_of_mem (f := Prod.fst) hg)
          obtain ⟨e', he', hkey⟩ := List.mem_map.mp hin
          obtain ⟨e, he, rfl⟩ := List.mem_map.mp he'
          exact hkey ▸ h e he
      dsimp only
      by_cases h : ∀ g ∈ grouped es, Valid g.1
      · rw [if_pos h]
        constructor
        · intro hs
          exact ⟨es, rfl, hvalid.mp h, (Except.ok.inj hs).symm⟩
        · rintro ⟨es', hes, -, rfl⟩
          cases hes
          rfl
      · rw [if_neg h]
        constructor
        · intro hs
          cases hs
        · rintro ⟨es', hes, hall, -⟩
          cases hes
          exact absurd (hvalid.mpr hall) h

/-- What the rows of some pages and queries add up to: clicks and impressions. -/
def totalOf (s : List NormalizedGSCRow) (url query : String) : Nat × Nat :=
  ((s.filter fun row => row.normalizedUrl = url ∧ row.normalizedQuery = query).map fun row =>
    (row.clicks, row.impressions)).sum

/-- The normalised rows add up to what was read. -/
theorem sum_normalized (es : List (List String × GroupKey × Values)) (siteId url query : String) :
    totalOf ((grouped es).map (rowOf siteId)) url query =
      ((es.filter fun e => (ofLex e.2.1).1 = url ∧ (ofLex (ofLex e.2.1).2).1 = query).map fun e =>
        (e.2.2.2.1, e.2.2.1)).sum := by
  have hpair : ∀ vs : List Values, ((vs.map fun v => v.2.1).sum, (vs.map fun v => v.1).sum) =
      (vs.map fun v => (v.2.1, v.1)).sum := by
    intro vs
    induction vs with
    | nil => rfl
    | cons v vs ih =>
        rw [List.map_cons, List.map_cons, List.map_cons, List.sum_cons, List.sum_cons,
          List.sum_cons, ← ih]
        rfl
  have hsum := sum_groupsOf (es.map Prod.snd) (fun v : Values => (v.2.1, v.1))
    fun k => decide ((ofLex k).1 = url ∧ (ofLex (ofLex k).2).1 = query)
  rw [List.filter_map, List.map_map] at hsum
  rw [totalOf, List.filter_map, List.map_map]
  refine Eq.trans (congrArg List.sum (List.map_congr_left fun g _ => ?_)) hsum
  exact hpair g.2

end SeoAgent.Normalization
