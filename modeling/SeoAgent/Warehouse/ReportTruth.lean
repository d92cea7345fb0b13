import SeoAgent.Verified.Groups
import SeoAgent.Warehouse.LedgerTruth
import SeoAgent.Warehouse.Reports

/-!
# What the reports say is true

The reports read the tables through numbers of pages and queries, join them with the ledger, and
group by number and label. What comes out is what one gets from the days that Search Console
answered with: from the labels of those days that are synced from the property asked for.

## Main results

* `performance_adds_up` — the chart divides the synced days into periods, and adds up.
* `table_reads_answers` — page by page, a table lists the labels of the synced days once, in the
  order asked for, each with its sums and those of the range before.
-/

namespace SeoAgent.Warehouse

open SeoAgent.Verified Like

variable {s : Store} {siteId propertyUrl : String} {start end_ d : Int} {r : TableRequest}

/-! ## Days -/

theorem mem_daysOf : d ∈ daysOf start end_ ↔ start ≤ d ∧ d ≤ end_ := by
  simp only [daysOf, List.mem_map, List.mem_range]
  constructor
  · rintro ⟨i, hi, rfl⟩
    omega
  · intro h
    exact ⟨(d - start).toNat, by omega, by omega⟩

theorem nodup_daysOf : (daysOf start end_).Nodup :=
  List.Nodup.map (fun i j h => by simpa using h) List.nodup_range

/-- The days of a range that are synced from a property. -/
def Store.syncedIn (s : Store) (siteId propertyUrl : String) (start end_ : Int) : List Int :=
  (daysOf start end_).filter (s.syncedDays siteId propertyUrl start end_)

/-- Whether a day is synced, and whether it is in the range. -/
theorem syncedDays_range : s.syncedDays siteId propertyUrl start end_ d = true ↔
    (start ≤ d ∧ d ≤ end_) ∧ s.syncedDays siteId propertyUrl d d d = true := by
  simp only [syncedDays_iff]
  constructor
  · rintro ⟨entry, hentry, hfrom, hsynced, hrange⟩
    exact ⟨hrange, entry, hentry, hfrom, hsynced, le_refl d, le_refl d⟩
  · rintro ⟨hrange, entry, hentry, hfrom, hsynced, -⟩
    exact ⟨entry, hentry, hfrom, hsynced, hrange⟩

theorem mem_syncedIn : d ∈ s.syncedIn siteId propertyUrl start end_ ↔
    s.syncedDays siteId propertyUrl start end_ d = true := by
  rw [Store.syncedIn, List.mem_filter, mem_daysOf]
  exact ⟨And.right, fun h => ⟨(syncedDays_range.mp h).1, h⟩⟩

/-! ## The labels of a day -/

/-- The labels of a day that a request asks for, with their sums. -/
def DayView.labelled (view : DayView) (r : TableRequest) : List (String × Sums) :=
  match r.kind with
  | .page => (view.pages.filter fun row => (r.device.all fun device => device = row.2.1) &&
      r.pageUrl.all fun url => url = row.1).map fun row => (row.1, row.2.2)
  | .query => (view.queries.filter fun row => (r.device.all fun device => device = row.2.1) &&
      r.pageUrl.all fun url => url = row.1.1).map fun row => (row.1.2, row.2.2)

/-- The labels of the days of a range that are synced from the property. -/
def labelsIn (s : Store) (view : Int → DayView) (r : TableRequest) (start end_ : Int) :
    List (String × Sums) :=
  (s.syncedIn r.siteId r.propertyUrl start end_).flatMap fun d => (view d).labelled r

/-- The number of a label of a site. -/
def Store.numberOf (s : Store) (kind : Kind) (siteId label : String) : Option Nat :=
  match kind with
  | .page => s.pages.idOf (siteId, label)
  | .query => s.queries.idOf (siteId, label)

/-- A row is listed before it is filtered, or the other way round. -/
theorem map_filter_filterMap {α β γ : Type} {xs : List α} {asked : α → Bool} {f : α → γ}
    {join : α → Option β} {kept : β → Bool} {g : β → γ}
    (h : ∀ x ∈ xs, ∃ y, join x = some y ∧ asked x = kept y ∧ f x = g y) :
    (xs.filter asked).map f = ((xs.filterMap join).filter kept).map g := by
  induction xs with
  | nil => rfl
  | cons x xs ih =>
      obtain ⟨y, hy, hasked, hf⟩ := h x List.mem_cons_self
      have hrest := ih fun x' hx' => h x' (List.mem_cons_of_mem _ hx')
      rw [List.filterMap_cons, hy, List.filter_cons, List.filter_cons, hasked]
      by_cases hkept : kept y = true
      · rw [if_pos hkept, if_pos hkept, List.map_cons, List.map_cons, hf, hrest]
      · rw [if_neg hkept, if_neg hkept, hrest]

/-- The page a number stands for is the one whose number it is. -/
theorem idOf_known (t : Interned (String × String)) {n : Nat} {url label : String}
    (h : t.valueOf n = some (siteId, label)) :
    (decide (t.idOf (siteId, url) = some n)) = decide (url = label) := by
  rw [decide_eq_decide, Interned.idOf_eq_some_iff, ← Interned.valueOf_eq_some_iff, h]
  simp [eq_comm]

theorem asked_page (hs : s.Sound) {row : DailyRow (Nat × Device)} (hrow : row ∈ s.dailyPages)
    (hsite : row.siteId = r.siteId) (hkind : r.kind = .page) :
    ∃ y, joinPage s.pages row = some y ∧
      s.asked r (pageCell row) = ((r.device.all fun device => device = y.2.1) &&
        r.pageUrl.all fun url => url = y.1) ∧
      (s.labelOf r.kind (pageCell row).id, (pageCell row).sums) = (some y.1, y.2.2) := by
  obtain ⟨url, hurl⟩ := hs.pages row hrow
  rw [hsite] at hurl
  refine ⟨(url, row.key.2, row.sums), by rw [joinPage, hurl]; rfl, ?_, ?_⟩
  · exact congrArg (fun page => _ && r.pageUrl.all page)
      (funext fun url => idOf_known s.pages hurl)
  · simp only [hkind, Store.labelOf, pageCell, hurl, Option.map_some]

theorem asked_query (hs : s.Sound) {row : DailyRow (Nat × Nat × Device)}
    (hrow : row ∈ s.dailyQueries) (hsite : row.siteId = r.siteId) (hkind : r.kind = .query) :
    ∃ y, joinQuery s.pages s.queries row = some y ∧
      s.asked r (queryCell row) = ((r.device.all fun device => device = y.2.1) &&
        r.pageUrl.all fun url => url = y.1.1) ∧
      (s.labelOf r.kind (queryCell row).id, (queryCell row).sums) = (some y.1.2, y.2.2) := by
  obtain ⟨⟨url, hurl⟩, query, hquery⟩ := hs.queries row hrow
  rw [hsite] at hurl hquery
  refine ⟨((url, query), row.key.2.2, row.sums), by rw [joinQuery, hurl, hquery]; rfl, ?_, ?_⟩
  · exact congrArg (fun page => _ && r.pageUrl.all page)
      (funext fun url => idOf_known s.pages hurl)
  · simp only [hkind, Store.labelOf, queryCell, hquery, Option.map_some]

/-- The rows of a day under their labels are the labels of the day. -/
theorem cells_day (hs : s.Sound) (d : Int) :
    (((s.cells r.kind r.siteId).filter fun c => c.day = d && s.asked r c).map fun c =>
        (s.labelOf r.kind c.id, c.sums)) =
      ((s.view r.siteId d).labelled r).map fun row => (some row.1, row.2) := by
  cases hkind : r.kind with
  | page =>
      have hcells : ((s.cells .page r.siteId).filter fun c => c.day = d && s.asked r c) =
          ((dayRows s.dailyPages r.siteId d).filter fun row => s.asked r (pageCell row)).map
            pageCell := by
        rw [Store.cells, List.filter_map, List.filter_filter, dayRows, List.filter_filter]
        refine congrArg _ (List.filter_congr fun row _ => ?_)
        rw [Function.comp_apply, Bool.and_comm, Bool.and_comm (s.asked _ _), ← Bool.and_assoc]
        rfl
      rw [hcells, List.map_map, DayView.labelled, hkind, List.map_map]
      refine map_filter_filterMap fun row hrow => ?_
      obtain ⟨hin, hsite, -⟩ := mem_dayRows.mp hrow
      exact hkind ▸ asked_page hs hin hsite hkind
  | query =>
      have hcells : ((s.cells .query r.siteId).filter fun c => c.day = d && s.asked r c) =
          ((dayRows s.dailyQueries r.siteId d).filter fun row => s.asked r (queryCell row)).map
            queryCell := by
        rw [Store.cells, List.filter_map, List.filter_filter, dayRows, List.filter_filter]
        refine congrArg _ (List.filter_congr fun row _ => ?_)
        rw [Function.comp_apply, Bool.and_comm, Bool.and_comm (s.asked _ _), ← Bool.and_assoc]
        rfl
      rw [hcells, List.map_map, DayView.labelled, hkind, List.map_map]
      refine map_filter_filterMap fun row hrow => ?_
      obtain ⟨hin, hsite, -⟩ := mem_dayRows.mp hrow
      exact hkind ▸ asked_query hs hin hsite hkind

/-- The rows of a range under their labels are the labels of its synced days. -/
theorem inRange_perm (hs : s.Sound) (start end_ : Int) :
    ((s.inRange r start end_).map fun c => (s.labelOf r.kind c.id, c.sums)).Perm
      ((labelsIn s (s.view r.siteId) r start end_).map fun row => (some row.1, row.2)) := by
  have hall : ∀ c ∈ s.inRange r start end_,
      c.day ∈ s.syncedIn r.siteId r.propertyUrl start end_ := by
    intro c hc
    have hsynced := (List.mem_filter.mp hc).2
    rw [Bool.and_eq_true] at hsynced
    exact mem_syncedIn.mpr hsynced.1
  have hdays := perm_classes Cell.day (nodup_daysOf.filter _) (s.inRange r start end_) hall
  refine (hdays.symm.map _).trans (List.Perm.of_eq ?_)
  rw [List.map_flatMap, labelsIn, List.map_flatMap]
  refine List.flatMap_congr fun d hd => ?_
  have hclass : ofKey Cell.day (s.inRange r start end_) d =
      (s.cells r.kind r.siteId).filter fun c => c.day = d && s.asked r c := by
    rw [ofKey, Store.inRange, List.filter_filter]
    refine List.filter_congr fun c _ => ?_
    by_cases hday : c.day = d
    · rw [hday, mem_syncedIn.mp hd]
      simp
    · simp [hday]
  rw [hclass]
  exact cells_day hs d

theorem numberOf_labelOf {kind : Kind} {label : String} {id : Nat}
    (h : s.numberOf kind siteId label = some id) : s.labelOf kind id = some label := by
  cases kind with
  | page => exact Option.map_eq_some_iff.mpr ⟨_, Interned.valueOf_idOf h, rfl⟩
  | query => exact Option.map_eq_some_iff.mpr ⟨_, Interned.valueOf_idOf h, rfl⟩

/-- A row of the range has a label, and the number of the label is its own. -/
theorem inRange_known (hs : s.Sound) {c : Cell} (hc : c ∈ s.inRange r start end_) :
    ∃ label, s.labelOf r.kind c.id = some label ∧
      s.numberOf r.kind r.siteId label = some c.id := by
  have hcell := (List.mem_filter.mp hc).1
  cases hkind : r.kind with
  | page =>
      rw [hkind] at hcell
      obtain ⟨row, hrow, rfl⟩ := List.mem_map.mp hcell
      obtain ⟨hin, hsite⟩ := List.mem_filter.mp hrow
      obtain ⟨url, hurl⟩ := hs.pages row hin
      rw [of_decide_eq_true hsite] at hurl
      exact ⟨url, by rw [Store.labelOf, pageCell, hurl]; rfl,
        Interned.idOf_eq_some_iff.mpr (Interned.valueOf_eq_some_iff.mp hurl)⟩
  | query =>
      rw [hkind] at hcell
      obtain ⟨row, hrow, rfl⟩ := List.mem_map.mp hcell
      obtain ⟨hin, hsite⟩ := List.mem_filter.mp hrow
      obtain ⟨-, query, hquery⟩ := hs.queries row hin
      rw [of_decide_eq_true hsite] at hquery
      exact ⟨query, by rw [Store.labelOf, queryCell, hquery]; rfl,
        Interned.idOf_eq_some_iff.mpr (Interned.valueOf_eq_some_iff.mp hquery)⟩

/-! ## Groups are labels -/

/-- A label of the range has a number. -/
theorem numbered (hs : s.Sound) {label : String}
    (h : label ∈ (labelsIn s (s.view r.siteId) r start end_).map Prod.fst) :
    ∃ id, s.numberOf r.kind r.siteId label = some id := by
  obtain ⟨row, hrow, rfl⟩ := List.mem_map.mp h
  have hin := (inRange_perm hs start end_).mem_iff.mpr
    (List.mem_map_of_mem (f := fun row : String × Sums => (some row.1, row.2)) hrow)
  obtain ⟨c, hc, heq⟩ := List.mem_map.mp hin
  obtain ⟨label, hlabel, hnumber⟩ := inRange_known hs hc
  cases hlabel.symm.trans (congrArg Prod.fst heq)
  exact ⟨c.id, hnumber⟩

section
variable {C : CaseFold} {collate : String ↪ List Nat}

theorem mem_labelled {id : Nat} {label : String} {sums : Sums} :
    ((id, label), sums) ∈ s.labelled C r ↔ ∃ c ∈ s.inRange r r.start r.end_,
      s.labelOf r.kind c.id = some label ∧
        labelFilter C r.kind r.contains label.toList = true ∧ c.id = id ∧ c.sums = sums := by
  simp only [Store.labelled, List.mem_filterMap, Option.map_eq_some_iff, Option.filter_eq_some_iff]
  constructor
  · rintro ⟨c, hc, l, ⟨hl, hfilter⟩, heq⟩
    cases heq
    exact ⟨c, hc, hl, hfilter, rfl, rfl⟩
  · rintro ⟨c, hc, hl, hfilter, rfl, rfl⟩
    exact ⟨c, hc, label, ⟨hl, hfilter⟩, rfl⟩

theorem labelled_known (hs : s.Sound) {g : (Nat × String) × Sums} (hg : g ∈ s.labelled C r) :
    s.numberOf r.kind r.siteId g.1.2 = some g.1.1 ∧
      labelFilter C r.kind r.contains g.1.2.toList = true := by
  obtain ⟨c, hc, hlabel, hfilter, hid, -⟩ := mem_labelled.mp hg
  obtain ⟨label, hlabel', hnumber⟩ := inRange_known hs hc
  cases hlabel.symm.trans hlabel'
  exact ⟨hid ▸ hnumber, hfilter⟩

/-- The rows without their numbers are the labels that are searched for. -/
theorem labelled_perm (hs : s.Sound) :
    ((s.labelled C r).map fun g => (g.1.2, g.2)).Perm
      ((labelsIn s (s.view r.siteId) r r.start r.end_).filter fun row =>
        labelFilter C r.kind r.contains row.1.toList) := by
  have hperm := (inRange_perm (r := r) hs r.start r.end_).filterMap fun row =>
    (row.1.filter fun label => labelFilter C r.kind r.contains label.toList).map fun label =>
      (label, row.2)
  rw [List.filterMap_map, List.filterMap_map] at hperm
  have hleft : (s.labelled C r).map (fun g => (g.1.2, g.2)) =
      (s.inRange r r.start r.end_).filterMap ((fun row : Option String × Sums =>
        (row.1.filter fun label => labelFilter C r.kind r.contains label.toList).map fun label =>
          (label, row.2)) ∘ fun c => (s.labelOf r.kind c.id, c.sums)) := by
    rw [Store.labelled, List.map_filterMap]
    refine List.filterMap_congr fun c _ => ?_
    rw [Option.map_map]
    rfl
  have hright : ∀ rows : List (String × Sums), rows.filterMap ((fun row : Option String × Sums =>
      (row.1.filter fun label => labelFilter C r.kind r.contains label.toList).map fun label =>
        (label, row.2)) ∘ fun row => (some row.1, row.2)) =
      rows.filter fun row => labelFilter C r.kind r.contains row.1.toList := by
    intro rows
    rw [← List.filterMap_eq_filter]
    refine List.filterMap_congr fun row _ => ?_
    simp only [Function.comp_apply, Option.filter, Option.guard]
    split <;> rfl
  rw [hleft]
  exact hperm.trans (List.Perm.of_eq (hright _))

/-- The groups are the labels of the synced days that are searched for, each with its number and
its sums. -/
theorem mem_groups (hs : s.Sound) {g : (Nat × String) × Sums} :
    g ∈ aggregate (s.labelled C r) ↔
      (g.1.2 ∈ (labelsIn s (s.view r.siteId) r r.start r.end_).map Prod.fst ∧
        labelFilter C r.kind r.contains g.1.2.toList = true) ∧
      s.numberOf r.kind r.siteId g.1.2 = some g.1.1 ∧
      g.2 = sumUnder (labelsIn s (s.view r.siteId) r r.start r.end_) g.1.2 := by
  obtain ⟨⟨id, label⟩, sums⟩ := g
  have hperm := labelled_perm (C := C) (r := r) hs
  have hkeys : label ∈ ((s.labelled C r).map fun g => (g.1.2, g.2)).map Prod.fst ↔
      label ∈ (labelsIn s (s.view r.siteId) r r.start r.end_).map Prod.fst ∧
        labelFilter C r.kind r.contains label.toList = true := by
    rw [(hperm.map Prod.fst).mem_iff]
    simp only [List.mem_map, List.mem_filter]
    constructor
    · rintro ⟨row, ⟨hrow, hfilter⟩, rfl⟩
      exact ⟨⟨row, hrow, rfl⟩, hfilter⟩
    · rintro ⟨⟨row, hrow, rfl⟩, hfilter⟩
      exact ⟨row, ⟨hrow, hfilter⟩, rfl⟩
  rw [mem_aggregate, ← hkeys]
  dsimp only
  have hnumber : ∀ row ∈ s.labelled C r, s.numberOf r.kind r.siteId label = some id →
      row.1.2 = label → row.1 = (id, label) := by
    rintro row hrow hid rfl
    have hknown := (labelled_known hs hrow).1
    rw [hid] at hknown
    exact Prod.ext (Option.some.inj hknown).symm rfl
  have hsums : s.numberOf r.kind r.siteId label = some id →
      labelFilter C r.kind r.contains label.toList = true →
        sumUnder (s.labelled C r) (id, label) =
          sumUnder (labelsIn s (s.view r.siteId) r r.start r.end_) label := by
    intro hid hfilter
    rw [← sumUnder_filter (fun l : String => labelFilter C r.kind r.contains l.toList) _ hfilter,
      ← sumUnder_perm hperm]
    exact (sumUnder_map Prod.snd _ (id, label) fun row hrow heq => hnumber row hrow hid heq).symm
  constructor
  · rintro ⟨hin, hv⟩
    obtain ⟨row, hrow, heq⟩ := List.mem_map.mp hin
    obtain ⟨hid, hfilter⟩ := labelled_known hs hrow
    rw [heq] at hid hfilter
    have hlabel : label ∈ ((s.labelled C r).map fun g => (g.1.2, g.2)).map Prod.fst := by
      rw [List.map_map]
      exact List.mem_map.mpr ⟨row, hrow, congrArg Prod.snd heq⟩
    exact ⟨hlabel, hid, hv.trans (hsums hid hfilter)⟩
  · rintro ⟨hlabel, hid, hv⟩
    have hfilter := (hkeys.mp hlabel).2
    rw [List.map_map] at hlabel
    obtain ⟨row, hrow, heq⟩ := List.mem_map.mp hlabel
    have hkey := hnumber row hrow hid heq
    exact ⟨hkey ▸ List.mem_map_of_mem hrow, hv.trans (hsums hid hfilter).symm⟩

/-- Where a group stands. -/
def rankOfGroup (collate : String ↪ List Nat) (r : TableRequest) (g : (Nat × String) × Sums) :
    WithTop Rat ×ₗ List Nat :=
  rankOf collate r.order (r.sort.value g.2) g.1.2

/-- No two groups stand in one place, as no two have one label. -/
theorem ordered_strict (hs : s.Sound) :
    (s.ordered collate C r).Pairwise fun a b =>
      rankOfGroup collate r a < rankOfGroup collate r b := by
  have hsorted : (s.ordered collate C r).Pairwise fun a b =>
      rankOfGroup collate r a ≤ rankOfGroup collate r b :=
    List.pairwise_insertionSort (fun a b => rankOfGroup collate r a ≤ rankOfGroup collate r b) _
  have hperm : (s.ordered collate C r).Perm (aggregate (s.labelled C r)) :=
    List.perm_insertionSort _ _
  have hnodup : (s.ordered collate C r).Pairwise (· ≠ ·) :=
    hperm.nodup_iff.mpr (nodup_aggregate (s.labelled C r)).of_map
  refine List.Pairwise.imp_of_mem (fun {a b} ha hb hab => ?_) (hsorted.and hnodup)
  refine lt_of_le_of_ne hab.1 fun heq => hab.2 ?_
  have hlabel : a.1.2 = b.1.2 := collate.injective (congrArg (fun rank => (ofLex rank).2) heq)
  obtain ⟨-, hida, hsumsa⟩ := (mem_groups hs).mp (hperm.mem_iff.mp ha)
  obtain ⟨-, hidb, hsumsb⟩ := (mem_groups hs).mp (hperm.mem_iff.mp hb)
  rw [← hlabel] at hidb hsumsb
  exact Prod.ext (Prod.ext (Option.some.inj (hida.symm.trans hidb)) hlabel)
    (hsumsa.trans hsumsb.symm)

/-- The sums of a label in the range before. -/
theorem lookup_previous (hs : s.Sound) {ids : List Nat} {id : Nat} {label : String}
    (hid : s.numberOf r.kind r.siteId label = some id) (hin : id ∈ ids) :
    (s.previous r ids).lookup id =
      (aggregate (labelsIn s (s.view r.siteId) r (previousRange r.start r.end_).1
        (previousRange r.start r.end_).2)).lookup label := by
  set range := previousRange r.start r.end_
  set rows := labelsIn s (s.view r.siteId) r range.1 range.2
  let cells := (s.inRange r range.1 range.2).map fun c => (c.id, c.sums)
  have hlabel := numberOf_labelOf hid
  have hcells : ((s.inRange r range.1 range.2).filter fun c => ids.contains c.id).map
      (fun c => (c.id, c.sums)) = cells.filter fun row => ids.contains row.1 := by
    rw [List.filter_map]
    rfl
  have hperm : (cells.map fun row => (s.labelOf r.kind row.1, row.2)).Perm
      (rows.map fun row => (some row.1, row.2)) := by
    rw [List.map_map]
    exact inRange_perm hs range.1 range.2
  have hsame : ∀ row ∈ cells, s.labelOf r.kind row.1 = s.labelOf r.kind id → row.1 = id := by
    intro row hrow heq
    obtain ⟨c, hc, rfl⟩ := List.mem_map.mp hrow
    obtain ⟨label', hlabel', hnumber⟩ := inRange_known hs hc
    cases hlabel'.symm.trans (heq.trans hlabel)
    exact Option.some.inj (hnumber.symm.trans hid)
  have hkeys : id ∈ (cells.filter fun row => ids.contains row.1).map Prod.fst ↔
      label ∈ rows.map Prod.fst := by
    have hnames : (cells.map fun row => s.labelOf r.kind row.1).Perm
        (rows.map fun row => some row.1) :=
      (List.Perm.of_eq List.map_map.symm).trans
        ((hperm.map Prod.fst).trans (List.Perm.of_eq List.map_map))
    have hsome := hnames.mem_iff (a := some label)
    simp only [List.mem_map, Option.some.injEq] at hsome
    simp only [List.mem_map, List.mem_filter]
    rw [← hsome]
    constructor
    · rintro ⟨row, ⟨hrow, -⟩, rfl⟩
      exact ⟨row, hrow, hlabel⟩
    · rintro ⟨row, hrow, heq⟩
      have hrowId := hsame row hrow (heq.trans hlabel.symm)
      exact ⟨row, ⟨hrow, by rw [hrowId]; exact List.contains_iff_mem.mpr hin⟩, hrowId⟩
  have hsums : sumUnder (cells.filter fun row => ids.contains row.1) id = sumUnder rows label := by
    have hnumbers := sumUnder_map (s.labelOf r.kind) cells id hsame
    have hlabels := sumUnder_map some rows label fun row _ heq => Option.some.inj heq
    rw [sumUnder_filter ids.contains cells (List.contains_iff_mem.mpr hin), ← hnumbers, hlabel,
      sumUnder_perm hperm, hlabels]
  rw [Store.previous, hcells, lookup_aggregate, lookup_aggregate, hsums]
  exact if_congr hkeys rfl rfl

end

/-! ## The reports -/

/-- The days that are synced hold what Search Console answered with. -/
theorem synced_data (lib : Normalisers) (text : FetchException → String) (syncs : List Sync)
    (siteId propertyUrl : String) : ∃ dataOf : Int → GSCDay, ∀ d,
      (runSyncs lib text syncs).syncedDays siteId propertyUrl d d d = true →
        (∃ sync ∈ syncs, sync.Of siteId d ∧ sync.propertyUrl = propertyUrl ∧
          sync.fetched lib = .ok (dataOf d)) ∧
        (runSyncs lib text syncs).view siteId d = (dataOf d).view := by
  have hday : ∀ d, ∃ data : GSCDay,
      (runSyncs lib text syncs).syncedDays siteId propertyUrl d d d = true →
        (∃ sync ∈ syncs, sync.Of siteId d ∧ sync.propertyUrl = propertyUrl ∧
          sync.fetched lib = .ok data) ∧
        (runSyncs lib text syncs).view siteId d = data.view := by
    intro d
    by_cases hsynced : (runSyncs lib text syncs).syncedDays siteId propertyUrl d d d = true
    · obtain ⟨entry, hentry, hfrom, hstatus, -⟩ := syncedDays_iff.mp hsynced
      obtain ⟨sync, data, later, hlast, hview, rfl, hproperty, -⟩ :=
        (runSyncs_dayState lib text syncs siteId d).2.of_synced hentry hstatus
      obtain ⟨past, hrun⟩ := hlast.run
      refine ⟨data, fun _ => ⟨⟨sync, ?_, hlast.of, hproperty.symm.trans hfrom, hlast.fetched⟩,
        hview⟩⟩
      rw [hrun]
      exact List.mem_append_right _ List.mem_cons_self
    · exact ⟨⟨siteId, d, propertyUrl, [], [], [], false, false⟩, fun h => absurd h hsynced⟩
  choose dataOf hdataOf using hday
  exact ⟨dataOf, hdataOf⟩

/-- The totals of a day on a device, or on all. -/
def DayView.totalsOn (view : DayView) (device : Option Device) : Sums :=
  ((view.totals.filter fun row => device.all fun device => device = row.1).map Prod.snd).sum

/-- All days together: their sums, and how many they are. -/
theorem sum_days (days : List Int) (totalsOn : Int → Sums) :
    (days.map fun d => (totalsOn d, 1)).sum = ((days.map totalsOn).sum, days.length) := by
  induction days with
  | nil => rfl
  | cons d days ih =>
      rw [List.map_cons, List.sum_cons, ih, List.map_cons, List.sum_cons, List.length_cons,
        Prod.mk_add_mk, Nat.add_comm 1]

/-- The days of a period. -/
theorem sumUnder_days (trunc : Int → Int) (days : List Int) (totalsOn : Int → Sums) (p : Int) :
    sumUnder (days.map fun d => (trunc d, totalsOn d, 1)) p =
      (((days.filter fun d => trunc d = p).map totalsOn).sum,
        (days.filter fun d => trunc d = p).length) := by
  rw [sumUnder, List.filter_map, List.map_map, ← sum_days]
  rfl

/-- For syncs in any order and any request for a chart: the days that are synced from the
property are divided into periods, each period once and in order, with the sums of what Search
Console answered for the property on its days and their number; the totals are the sums over all
the days, not over the periods' averages, and the periods' days add up to the days covered. -/
theorem performance_adds_up (dateTrunc : Interval → Int → Int) (lib : Normalisers)
    (text : FetchException → String) (syncs : List Sync) (r : PerformanceRequest) :
    ∃ dataOf : Int → GSCDay,
      (∀ d, (runSyncs lib text syncs).syncedDays r.siteId r.propertyUrl d d d = true →
        ∃ sync ∈ syncs, sync.Of r.siteId d ∧ sync.propertyUrl = r.propertyUrl ∧
          sync.fetched lib = .ok (dataOf d)) ∧
      let report := (runSyncs lib text syncs).performance dateTrunc r
      let days := (runSyncs lib text syncs).syncedIn r.siteId r.propertyUrl r.start r.end_
      let totalsOn := fun d => (dataOf d).view.totalsOn r.device
      report.totals = metrics (days.map totalsOn).sum ∧
        report.daysCovered = days.length ∧
        (report.series.map SeriesPoint.daysCovered).sum = report.daysCovered ∧
        report.series.Pairwise (fun a b => a.periodStart < b.periodStart) ∧
        ∀ point, point ∈ report.series ↔
          let period := days.filter fun d => dateTrunc r.interval d = point.periodStart
          period ≠ [] ∧ point.values = metrics (period.map totalsOn).sum ∧
            point.daysCovered = period.length := by
  obtain ⟨dataOf, hdata⟩ := synced_data lib text syncs r.siteId r.propertyUrl
  set s := runSyncs lib text syncs
  refine ⟨dataOf, fun d hd => (hdata d hd).1, ?_⟩
  dsimp only
  set days := s.syncedIn r.siteId r.propertyUrl r.start r.end_ with hdays
  set totalsOn := fun d => (dataOf d).view.totalsOn r.device
  set rows := days.map fun d => (dateTrunc r.interval d, totalsOn d, 1) with hrows
  set raw := (aggregate rows).insertionSort fun a b => a.1 ≤ b.1 with hraw
  have hperiods : s.periodRows dateTrunc r = rows := by
    refine List.map_congr_left fun d hd => ?_
    have hview := (hdata d (syncedDays_range.mp (mem_syncedIn.mp hd)).2).2
    show (_, ((s.view r.siteId d).totalsOn r.device, 1)) = _
    rw [hview]
  have hreport : s.performance dateTrunc r = ⟨metrics (raw.map fun row => row.2.1).sum,
      days.length, r.end_ - r.start + 1,
      raw.map fun row => ⟨row.1, metrics row.2.1, row.2.2⟩⟩ := by
    rw [hraw, ← hperiods]
    rfl
  have hperm : raw.Perm (aggregate rows) := List.perm_insertionSort _ _
  have hall : (raw.map Prod.snd).sum = ((days.map totalsOn).sum, days.length) := by
    rw [(hperm.map Prod.snd).sum_eq, sum_aggregate, hrows, List.map_map, ← sum_days]
    rfl
  have hkeys : (raw.map Prod.fst).Nodup := (hperm.map Prod.fst).nodup_iff.mpr (nodup_aggregate rows)
  have hsorted : raw.Pairwise fun a b => a.1 ≤ b.1 := List.pairwise_insertionSort _ _
  rw [hreport]
  refine ⟨congrArg metrics ?_, rfl, ?_, ?_, fun point => ?_⟩
  · have hfirst := map_list_sum (AddMonoidHom.fst Sums Nat) (raw.map Prod.snd)
    rw [List.map_map, hall] at hfirst
    exact hfirst.symm
  · have hsecond := map_list_sum (AddMonoidHom.snd Sums Nat) (raw.map Prod.snd)
    rw [List.map_map, hall] at hsecond
    rw [List.map_map]
    exact hsecond.symm
  · rw [List.pairwise_map]
    exact (hsorted.and (List.pairwise_map.mp hkeys)).imp fun hab => lt_of_le_of_ne hab.1 hab.2
  · have hmem : ∀ p v, (p, v) ∈ raw ↔ (days.filter fun d => dateTrunc r.interval d = p) ≠ [] ∧
        v = (((days.filter fun d => dateTrunc r.interval d = p).map totalsOn).sum,
          (days.filter fun d => dateTrunc r.interval d = p).length) := by
      intro p v
      rw [hperm.mem_iff, mem_aggregate, hrows, sumUnder_days]
      refine and_congr_left fun _ => ?_
      rw [ne_eq, List.filter_eq_nil_iff, List.map_map]
      simp
    dsimp only
    rw [List.mem_map]
    constructor
    · rintro ⟨⟨p, v⟩, hin, rfl⟩
      obtain ⟨hperiod, rfl⟩ := (hmem p v).mp hin
      exact ⟨hperiod, rfl, rfl⟩
    · rintro ⟨hperiod, hvalues, hcovered⟩
      refine ⟨_, (hmem point.periodStart _).mpr ⟨hperiod, rfl⟩, ?_⟩
      rw [← hvalues, ← hcovered]

theorem labelsIn_congr {view view' : Int → DayView}
    (h : ∀ d, s.syncedDays r.siteId r.propertyUrl d d d = true → view d = view' d)
    (start end_ : Int) : labelsIn s view r start end_ = labelsIn s view' r start end_ :=
  List.flatMap_congr fun d hd => by
    rw [h d (syncedDays_range.mp (mem_syncedIn.mp hd)).2]

/-- The page of a table at an offset. -/
def Store.pageAt (s : Store) (collate : String ↪ List Nat) (C : CaseFold) (r : TableRequest)
    (offset : Nat) : List TableRow × Option Nat :=
  let report := s.table collate C { r with offset := offset }
  (report.rows, report.nextOffset)

/-- A group as a row, with the range before. -/
def rowOf (before : List (String × Sums)) (compare : Bool) (g : (Nat × String) × Sums) :
    TableRow :=
  ⟨g.1.2, metrics g.2, if compare then (before.lookup g.1.2).map metrics else none⟩

theorem pageAt_eq (hs : s.Sound) (collate : String ↪ List Nat) (C : CaseFold)
    (offset : Nat) : s.pageAt collate C r offset =
      pageOf ((s.ordered collate C r).map (rowOf (aggregate (labelsIn s (s.view r.siteId) r
        (previousRange r.start r.end_).1 (previousRange r.start r.end_).2)) r.compare))
        (max 1 (min r.limit maxLimit)).toNat offset := by
  rw [pageOf_map]
  have hoffset : (max 0 (offset : Int)).toNat = offset := by omega
  have hpage : s.pageAt collate C r offset =
      (let page := pageOf (s.ordered collate C r) (max 1 (min r.limit maxLimit)).toNat
          (max 0 (offset : Int)).toNat
        let previous := if r.compare then s.previous r (page.1.map fun g => g.1.1) else []
        (page.1.map fun g => ⟨g.1.2, metrics g.2, (previous.lookup g.1.1).map metrics⟩,
          page.2)) := rfl
  rw [hpage, hoffset]
  dsimp only
  refine Prod.ext (List.map_congr_left fun g hg => ?_) rfl
  have hordered : g ∈ s.ordered collate C r := by
    rw [pageOf_fst] at hg
    exact List.mem_of_mem_drop (List.mem_of_mem_take hg)
  have hgroup := (mem_groups hs).mp ((List.perm_insertionSort _ _).mem_iff.mp hordered)
  unfold rowOf
  cases r.compare with
  | false => rfl
  | true =>
      rw [if_pos rfl, if_pos rfl, lookup_previous hs hgroup.2.1
        (List.mem_map_of_mem (f := fun g : (Nat × String) × Sums => g.1.1) hg)]

/-- Where a row of a table stands. -/
def TableRow.rank (collate : String ↪ List Nat) (sort : SortKey) (order : SortOrder)
    (row : TableRow) : WithTop Rat ×ₗ List Nat :=
  rankOf collate order (match sort with
    | .clicks => some (row.current.clicks : Rat)
    | .impressions => some (row.current.impressions : Rat)
    | .ctr => row.current.ctr
    | .position => row.current.position) row.key

/-- For syncs in any order and any request for a table: page by page, from the first offset and
then at the one each page names, a reader gets one list of rows, in the order asked for and with
no two in one place. Its rows are the labels that are searched for of the days that are synced
from the property, each once, with the sums of what Search Console answered for the property on
these days; and with those of the range before, if the label has a row there. -/
theorem table_reads_answers (collate : String ↪ List Nat) (C : CaseFold) (lib : Normalisers)
    (text : FetchException → String) (syncs : List Sync) (r : TableRequest) :
    ∃ dataOf : Int → GSCDay,
      (∀ d, (runSyncs lib text syncs).syncedDays r.siteId r.propertyUrl d d d = true →
        ∃ sync ∈ syncs, sync.Of r.siteId d ∧ sync.propertyUrl = r.propertyUrl ∧
          sync.fetched lib = .ok (dataOf d)) ∧
      ∃ rows : List TableRow,
        (∀ read, Walk ((runSyncs lib text syncs).pageAt collate C r) 0 read ↔ read = rows) ∧
        rows.Pairwise (fun a b =>
          a.rank collate r.sort r.order < b.rank collate r.sort r.order) ∧
        ∀ row, row ∈ rows ↔
          let labels := labelsIn (runSyncs lib text syncs) (fun d => (dataOf d).view) r
          let before := aggregate (labels (previousRange r.start r.end_).1
            (previousRange r.start r.end_).2)
          row.key ∈ (labels r.start r.end_).map Prod.fst ∧
            labelFilter C r.kind r.contains row.key.toList = true ∧
            row.current = metrics (sumUnder (labels r.start r.end_) row.key) ∧
            row.previous = if r.compare then (before.lookup row.key).map metrics else none := by
  obtain ⟨dataOf, hdata⟩ := synced_data lib text syncs r.siteId r.propertyUrl
  have hs := (runSyncs_dayState lib text syncs r.siteId r.start).1
  set s := runSyncs lib text syncs
  have hlabels := labelsIn_congr fun d hd => (hdata d hd).2
  set before := aggregate (labelsIn s (fun d => (dataOf d).view) r
    (previousRange r.start r.end_).1 (previousRange r.start r.end_).2) with hbefore
  have hpages : s.pageAt collate C r = pageOf ((s.ordered collate C r).map
      (rowOf before r.compare)) (max 1 (min r.limit maxLimit)).toNat := by
    funext offset
    rw [pageAt_eq hs, hlabels]
  have hrank : ∀ g, (rowOf before r.compare g).rank collate r.sort r.order =
      rankOfGroup collate r g := by
    intro g
    unfold TableRow.rank rankOfGroup rowOf
    cases r.sort <;> rfl
  refine ⟨dataOf, fun d hd => (hdata d hd).1, (s.ordered collate C r).map (rowOf before r.compare),
    fun read => ?_, ?_, fun row => ?_⟩
  · rw [hpages]
    exact walk_iff (by omega)
  · rw [List.pairwise_map]
    refine (ordered_strict hs).imp fun {a b} hab => ?_
    rw [hrank, hrank]
    exact hab
  · dsimp only
    rw [List.mem_map]
    have hgroups : ∀ g, g ∈ s.ordered collate C r ↔ g ∈ aggregate (s.labelled C r) := fun g =>
      (List.perm_insertionSort _ _).mem_iff
    constructor
    · rintro ⟨g, hg, rfl⟩
      obtain ⟨⟨hlabel, hfilter⟩, -, hsums⟩ := (mem_groups hs).mp ((hgroups g).mp hg)
      rw [hlabels] at hlabel hsums
      exact ⟨hlabel, hfilter, congrArg metrics hsums, rfl⟩
    · rintro ⟨hlabel, hfilter, hcurrent, hprevious⟩
      rw [← hlabels] at hlabel hcurrent
      obtain ⟨id, hid⟩ := numbered hs hlabel
      refine ⟨((id, row.key), sumUnder (labelsIn s (s.view r.siteId) r r.start r.end_) row.key),
        (hgroups _).mpr ((mem_groups hs).mpr
        ⟨⟨hlabel, hfilter⟩, hid, rfl⟩), ?_⟩
      cases row
      simp only [rowOf, TableRow.mk.injEq, true_and]
      exact ⟨hcurrent.symm, hprevious.symm⟩

end SeoAgent.Warehouse
