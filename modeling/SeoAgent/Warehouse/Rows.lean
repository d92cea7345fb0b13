import Mathlib.Data.Prod.Lex
import Mathlib.Data.String.Basic
import Mathlib.Algebra.Order.Ring.Rat
import Mathlib.Algebra.Order.Ring.Cast
import SeoAgent.Verified.Distinct
import SeoAgent.Verified.Merge
import SeoAgent.Verified.Prog

/-!
# Rows of Search Console

`_rows`, `_count`, `_device`, `_url` and `_add` of `app/warehouse/fetch.py`. The
rows of one answer are read into distinct entries, an entry for each tuple of raw
keys, and the entries are merged under the key of the table they are for: the
device, the device and the page, or the device, the page and the query. A row
that belongs under no key of the table (its page is no URL or its query is empty)
is read like the others and left out of the table only.

Numbers are exact: a float is the rational it denotes, and the sum of positions
is a rational. `Normalisers` holds what the module takes from elsewhere: the ISO
form of a date, the upper case of a text, and the two shared normalisers, of
which `canonicalize_url` gives nothing where it raises `ValueError`.

## Main results

* `table_isOk_iff` — an answer is read unless a row is faulty or two rows conflict.
* `table_isGroupSum` — what is read is the table of sums over the distinct rows.
* `table_congr` — neither the order of the rows nor repeats matter.
-/

namespace SeoAgent.Warehouse

open SeoAgent.Verified

/-! ## Rows -/

/-- A value of a row, as far as the fetch looks at it. -/
inductive Value
  | null
  | bool (b : Bool)
  | int (n : Int)
  | float (q : Rat)
  | nonFinite
  | other
deriving DecidableEq

/-- A row. `keys` is nothing when it is no list, and a key is nothing when it is
no text. -/
structure Row where
  keys : Option (List (Option String))
  clicks : Value
  impressions : Value
  position : Value
deriving DecidableEq

inductive FetchException
  | dayNotFinal (text : String)
  | fetchError (text : String)
  | unknownDevice (value : String)
  | query (text : String)
deriving DecidableEq

inductive Device
  | desktop
  | mobile
  | tablet
deriving DecidableEq

def Device.value : Device → String
  | .desktop => "DESKTOP"
  | .mobile => "MOBILE"
  | .tablet => "TABLET"

def Device.rank : Device → Nat
  | .desktop => 0
  | .mobile => 1
  | .tablet => 2

/-- Devices in the order of their values. -/
instance : LinearOrder Device :=
  LinearOrder.lift' Device.rank fun a b h => by cases a <;> cases b <;> first | rfl | cases h

structure Normalisers where
  isoformat : Int → String
  upper : String → String
  canonicalizeUrl : String → Option String
  normalizeQuery : String → String

variable (lib : Normalisers)

def invalidCount : FetchException := .fetchError "A Search Console row has an invalid count."

def count : Value → Except FetchException Nat
  | .int n => if 0 ≤ n then .ok n.toNat else .error invalidCount
  | .float q => if 0 ≤ q ∧ q.den = 1 then .ok q.num.toNat else .error invalidCount
  | _ => .error invalidCount

def invalidPosition : FetchException :=
  .fetchError "A Search Console row has an invalid position."

def positionOf : Value → Except FetchException Rat
  | .int n => if 0 ≤ n then .ok n else .error invalidPosition
  | .float q => if 0 ≤ q then .ok q else .error invalidPosition
  | _ => .error invalidPosition

def deviceOf (value : String) : Except FetchException Device :=
  if lib.upper value = "DESKTOP" then .ok .desktop
  else if lib.upper value = "MOBILE" then .ok .mobile
  else if lib.upper value = "TABLET" then .ok .tablet
  else .error (.unknownDevice value)

/-- The canonical URL, or the empty text for what is no page URL. -/
def urlOf (value : String) : String := (lib.canonicalizeUrl value).getD ""

/-- The key of a dimension: `dict(zip(dimensions, keys))`. -/
def named (dimensions keys : List String) (dimension : String) : String :=
  ((dimensions.zip keys).lookup dimension).getD ""

/-- What a row says: clicks, impressions and position. -/
abbrev Counts : Type := Nat × Nat × Rat

/-- One row as `_rows` reads it: its raw keys and what it says. -/
def readCounts (dimensions : List String) (day : Int) (row : Row) :
    Except FetchException (List String × Counts) :=
  match row.keys.bind fun keys => keys.mapM id with
  | none => .error (.fetchError "A Search Console row does not match the requested dimensions.")
  | some keys =>
      if keys.length ≠ dimensions.length then
        .error (.fetchError "A Search Console row does not match the requested dimensions.")
      else if named dimensions keys "date" ≠ lib.isoformat day then
        .error (.fetchError ("A Search Console row is for " ++ named dimensions keys "date" ++
          ", not " ++ lib.isoformat day ++ "."))
      else do
        let clicks ← count row.clicks
        let impressions ← count row.impressions
        if impressions < clicks then
          .error (.fetchError "A Search Console row has more clicks than impressions.")
        else
          let position ← positionOf row.position
          .ok (keys, clicks, impressions, position)

/-! ## Tables -/

/-- A distinct row of an answer: its raw keys, the key of the table it belongs
under, and what it says. -/
abbrev Entry (κ : Type) : Type := List String × Option κ × Counts

variable {κ : Type} (keyOf : (String → String) → Except FetchException (Option κ))

/-- A row with the key of the table it belongs under. -/
def readRow (dimensions : List String) (day : Int) (row : Row) :
    Except FetchException (Entry κ) :=
  match readCounts lib dimensions day row with
  | .error exc => .error exc
  | .ok (keys, counts) =>
      match keyOf (named dimensions keys) with
      | .error exc => .error exc
      | .ok key => .ok (keys, key, counts)

/-- Clicks, impressions, and position times impressions. -/
abbrev Sums : Type := Nat × Nat × Rat

/-- What a row adds to the sums of its key. -/
def Entry.sums (e : Entry κ) : Sums :=
  (e.2.2.1, e.2.2.2.1, e.2.2.2.2 * (e.2.2.2.1 : Rat))

def repeatedRow : FetchException :=
  .fetchError "Search Console sent the same row twice with different numbers."

variable [LinearOrder κ]

/-- `_rows`: the distinct rows of an answer, in the order in which they first come. -/
def entries (dimensions : List String) (day : Int) (rows : List Row) :
    Except FetchException (List (Entry κ)) :=
  readDistinct repeatedRow (readRow lib keyOf dimensions day) rows

/-- The table of an answer, and the number of its distinct rows. -/
def table (dimensions : List String) (day : Int) (rows : List Row) :
    Except FetchException (List (κ × Sums) × Nat) :=
  (entries lib keyOf dimensions day rows).map fun es =>
    (merged (entriesOf (fun e : Entry κ => e.2.1) Entry.sums es), es.length)

/-! ## The keys of the three tables -/

def totalsKey (name : String → String) : Except FetchException (Option Device) :=
  (deviceOf lib (name "device")).map some

def pageKey (name : String → String) : Except FetchException (Option (Device ×ₗ String)) :=
  let url := urlOf lib (name "page")
  if url = "" then .ok none
  else (deviceOf lib (name "device")).map fun device => some (toLex (device, url))

def queryKey (name : String → String) :
    Except FetchException (Option (Device ×ₗ String ×ₗ String)) :=
  let url := urlOf lib (name "page")
  let text := lib.normalizeQuery (name "query")
  if url = "" ∨ text = "" then .ok none
  else (deviceOf lib (name "device")).map fun device => some (toLex (device, toLex (url, text)))

variable {lib} in
/-- A row belongs under no page exactly when its page is no URL. -/
theorem pageKey_none_iff {name : String → String} :
    pageKey lib name = .ok none ↔ urlOf lib (name "page") = "" := by
  unfold pageKey
  dsimp only
  by_cases h : urlOf lib (name "page") = ""
  · simp [h]
  · rw [if_neg h]
    cases deviceOf lib (name "device") <;> simp [Except.map, h]

variable {lib} in
/-- A row belongs under no query exactly when its page is no URL or its query
is empty. -/
theorem queryKey_none_iff {name : String → String} : queryKey lib name = .ok none ↔
    urlOf lib (name "page") = "" ∨ lib.normalizeQuery (name "query") = "" := by
  unfold queryKey
  dsimp only
  by_cases h : urlOf lib (name "page") = "" ∨ lib.normalizeQuery (name "query") = ""
  · simp [h]
  · rw [if_neg h]
    cases deviceOf lib (name "device") <;> simp [Except.map, h]

/-! ## What a table says -/

/-- The distinct rows of an answer. -/
def distinctRows (dimensions : List String) (day : Int) (rows : List Row) : Finset (Entry κ) :=
  (rows.filterMap fun row => (readRow lib keyOf dimensions day row).toOption).toFinset

/-- Every row can be read, and rows with the same raw keys say the same. -/
structure Readable (dimensions : List String) (day : Int) (rows : List Row) : Prop where
  each : ∀ row ∈ rows, ∃ e, readRow lib keyOf dimensions day row = .ok e
  same : Set.InjOn Prod.fst (distinctRows lib keyOf dimensions day rows : Set (Entry κ))

variable {lib keyOf} {dimensions : List String} {day : Int} {rows rows' : List Row}
  {t : List (κ × Sums) × Nat}

theorem mem_distinctRows {e : Entry κ} : e ∈ distinctRows lib keyOf dimensions day rows ↔
    Says (readRow lib keyOf dimensions day) rows e := by
  rw [distinctRows, List.mem_toFinset, List.mem_filterMap, Says]
  refine exists_congr fun row => and_congr_right fun _ => ?_
  cases readRow lib keyOf dimensions day row with
  | error exc => simp [Except.toOption]
  | ok e' => simp [Except.toOption]

/-- What is kept is what the rows say, each tuple of raw keys once. -/
theorem entries_ok {es : List (Entry κ)} (h : entries lib keyOf dimensions day rows = .ok es) :
    (es.map Prod.fst).Nodup ∧ (∀ e, e ∈ es ↔ Says (readRow lib keyOf dimensions day) rows e) ∧
      ∀ row ∈ rows, ∃ e, readRow lib keyOf dimensions day row = .ok e :=
  readDistinct_ok h

theorem entries_isOk_iff : (∃ es, entries lib keyOf dimensions day rows = .ok es) ↔
    (∀ row ∈ rows, ∃ e, readRow lib keyOf dimensions day row = .ok e) ∧
      Consistent (Says (readRow lib keyOf dimensions day) rows) :=
  readDistinct_isOk_iff

theorem table_ok_iff : table lib keyOf dimensions day rows = .ok t ↔
    ∃ es, entries lib keyOf dimensions day rows = .ok es ∧
      t = (merged (entriesOf (fun e : Entry κ => e.2.1) Entry.sums es), es.length) := by
  rw [table]
  cases entries lib keyOf dimensions day rows with
  | error exc => simp [Except.map]
  | ok es => simp [Except.map, eq_comm]

/-- An answer is read unless a row is faulty or two rows conflict. -/
theorem table_isOk_iff : (∃ t, table lib keyOf dimensions day rows = .ok t) ↔
    Readable lib keyOf dimensions day rows := by
  have hmap : (∃ t, table lib keyOf dimensions day rows = .ok t) ↔
      ∃ es, entries lib keyOf dimensions day rows = .ok es := by
    simp only [table_ok_iff]
    exact ⟨fun ⟨_, es, hes, _⟩ => ⟨es, hes⟩, fun ⟨es, hes⟩ => ⟨_, es, hes, rfl⟩⟩
  rw [hmap, entries_isOk_iff]
  constructor
  · rintro ⟨hrows, hsame⟩
    refine ⟨hrows, fun d hd e he hkey => ?_⟩
    have hvalue := hsame d e (mem_distinctRows.mp (Finset.mem_coe.mp hd))
      (mem_distinctRows.mp (Finset.mem_coe.mp he)) hkey
    exact Prod.ext hkey hvalue
  · rintro ⟨hrows, hsame⟩
    refine ⟨hrows, fun d e hd he hkey => ?_⟩
    exact congrArg Prod.snd (hsame (Finset.mem_coe.mpr (mem_distinctRows.mpr hd))
      (Finset.mem_coe.mpr (mem_distinctRows.mpr he)) hkey)

/-- The table is the table of sums over the distinct rows. -/
theorem table_isGroupSum (h : table lib keyOf dimensions day rows = .ok t) :
    IsGroupSum t.1 (distinctRows lib keyOf dimensions day rows) (fun e => e.2.1) Entry.sums ∧
      t.1.Pairwise (fun a b => a.1 ≤ b.1) ∧
      t.2 = (distinctRows lib keyOf dimensions day rows).card := by
  obtain ⟨es, hes, rfl⟩ := table_ok_iff.mp h
  obtain ⟨hnodup, hmem, -⟩ := entries_ok hes
  have hset : distinctRows lib keyOf dimensions day rows = es.toFinset := by
    ext e
    rw [mem_distinctRows, List.mem_toFinset, hmem]
  rw [hset]
  exact ⟨isGroupSum_merged hnodup.of_map, merged_sorted,
    (List.toFinset_card_of_nodup hnodup.of_map).symm⟩

/-- No more clicks than impressions, and no negative sum of positions. -/
def SumsOk (sums : Sums) : Prop := sums.1 ≤ sums.2.1 ∧ 0 ≤ sums.2.2

omit [LinearOrder κ] in
theorem readRow_sumsOk {row : Row} {e : Entry κ}
    (h : readRow lib keyOf dimensions day row = .ok e) : SumsOk e.sums := by
  have hposition : ∀ {value : Value} {position : Rat}, positionOf value = .ok position →
      0 ≤ position := by
    intro value position hp
    cases value with
    | int n =>
        simp only [positionOf] at hp
        split at hp
        · next hn =>
            cases hp
            exact Int.cast_nonneg hn
        · cases hp
    | float q =>
        simp only [positionOf] at hp
        split at hp
        · next hq =>
            cases hp
            exact hq
        · cases hp
    | null => cases hp
    | bool b => cases hp
    | nonFinite => cases hp
    | other => cases hp
  unfold readRow at h
  split at h
  · cases h
  · next keys counts hcounts =>
      split at h
      · cases h
      · next key hkey =>
          cases h
          unfold readCounts at hcounts
          split at hcounts
          · cases hcounts
          · split at hcounts
            · cases hcounts
            · split at hcounts
              · cases hcounts
              · obtain ⟨clicks, -, hcounts⟩ := bind_eq_ok.mp hcounts
                obtain ⟨impressions, -, hcounts⟩ := bind_eq_ok.mp hcounts
                split at hcounts
                · cases hcounts
                · next hle =>
                    obtain ⟨position, hp, hcounts⟩ := bind_eq_ok.mp hcounts
                    cases hcounts
                    exact ⟨Nat.le_of_not_lt hle, mul_nonneg (hposition hp) (Nat.cast_nonneg _)⟩

theorem table_sumsOk (h : table lib keyOf dimensions day rows = .ok t) {k : κ} {sums : Sums}
    (hk : (k, sums) ∈ t.1) : SumsOk sums := by
  refine (table_isGroupSum h).1.all ⟨Nat.le_refl 0, le_refl _⟩
    (fun a b ha hb => ⟨Nat.add_le_add ha.1 hb.1, add_nonneg ha.2 hb.2⟩) (fun e he => ?_) hk
  obtain ⟨row, -, hrow⟩ := mem_distinctRows.mp he
  exact readRow_sumsOk hrow

/-- Rows in another order, or some of them again, give the same table. -/
theorem table_congr (hrows : ∀ row, row ∈ rows ↔ row ∈ rows')
    (h : table lib keyOf dimensions day rows = .ok t) :
    table lib keyOf dimensions day rows' = .ok t := by
  have hset : distinctRows lib keyOf dimensions day rows =
      distinctRows lib keyOf dimensions day rows' := by
    ext e
    rw [mem_distinctRows, mem_distinctRows, says_congr hrows]
  have hreadable := table_isOk_iff.mp ⟨t, h⟩
  obtain ⟨t', h'⟩ := table_isOk_iff.mpr (show Readable lib keyOf dimensions day rows' from
    ⟨fun row hrow => hreadable.each row ((hrows row).mpr hrow), hset ▸ hreadable.same⟩)
  obtain ⟨hsum, hsorted, hcard⟩ := table_isGroupSum h
  obtain ⟨hsum', hsorted', hcard'⟩ := table_isGroupSum h'
  rw [h', show t = t' from Prod.ext (hsum.unique (hset ▸ hsum') hsorted hsorted')
    (hcard.trans (hset ▸ hcard'.symm))]

end SeoAgent.Warehouse
