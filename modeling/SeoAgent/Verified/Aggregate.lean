import Mathlib.Algebra.BigOperators.Group.List.Basic
import Mathlib.Data.List.Dedup
import Mathlib.Data.List.Perm.Basic
import SeoAgent.Verified.Groups

/-!
# Groups of rows, page by page

What `GROUP BY` with sums and `LIMIT … OFFSET …` do. A group has a key that a row has, once, and
the sum of the rows with that key. A reader who asks for one page after the other, at the offset
each page names for the next one, reads everything once, in order.

## Main results

* `mem_aggregate`, `nodup_aggregate` — the groups of rows.
* `aggregate_perm` — the order of the rows does not matter.
* `walk_iff` — what is read page by page.
-/

namespace SeoAgent.Verified

variable {α β κ M : Type} [DecidableEq κ] [AddCommMonoid M]

/-! ## Groups -/

/-- The sum of the rows under a key. -/
def sumUnder (rows : List (κ × M)) (k : κ) : M :=
  ((rows.filter fun row => row.1 = k).map Prod.snd).sum

/-- `GROUP BY` the key, with the sums. -/
def aggregate (rows : List (κ × M)) : List (κ × M) :=
  (rows.map Prod.fst).dedup.map fun k => (k, sumUnder rows k)

variable {rows rows' : List (κ × M)} {k : κ} {v : M}

theorem sumUnder_perm (h : rows.Perm rows') : sumUnder rows k = sumUnder rows' k :=
  ((h.filter _).map _).sum_eq

theorem keys_aggregate (rows : List (κ × M)) :
    (aggregate rows).map Prod.fst = (rows.map Prod.fst).dedup := by
  rw [aggregate, List.map_map]
  exact List.map_id _

theorem nodup_aggregate (rows : List (κ × M)) : ((aggregate rows).map Prod.fst).Nodup := by
  rw [keys_aggregate]
  exact List.nodup_dedup _

theorem mem_aggregate :
    (k, v) ∈ aggregate rows ↔ k ∈ rows.map Prod.fst ∧ v = sumUnder rows k := by
  rw [aggregate, List.mem_map]
  constructor
  · rintro ⟨k', hk', heq⟩
    cases heq
    exact ⟨List.mem_dedup.mp hk', rfl⟩
  · rintro ⟨hk, rfl⟩
    exact ⟨k, List.mem_dedup.mpr hk, rfl⟩

/-- The order of the rows does not matter. -/
theorem aggregate_perm (h : rows.Perm rows') : (aggregate rows).Perm (aggregate rows') := by
  have hsums : (fun k => (k, sumUnder rows k)) = fun k => (k, sumUnder rows' k) :=
    funext fun k => by rw [sumUnder_perm h]
  rw [aggregate, aggregate, hsums]
  exact ((h.map Prod.fst).dedup).map _

theorem lookup_aggregate (rows : List (κ × M)) (k : κ) :
    (aggregate rows).lookup k =
      if k ∈ rows.map Prod.fst then some (sumUnder rows k) else none := by
  split
  · next hk => exact Table.get?_of_mem (nodup_aggregate rows) (mem_aggregate.mpr ⟨hk, rfl⟩)
  · next hk =>
      cases hfound : (aggregate rows).lookup k with
      | none => rfl
      | some v => exact absurd (mem_aggregate.mp (Table.mem_of_get? hfound)).1 hk

/-- All groups together are all rows together. -/
theorem sum_aggregate (rows : List (κ × M)) :
    ((aggregate rows).map Prod.snd).sum = (rows.map Prod.snd).sum := by
  have hclasses := perm_classes Prod.fst (List.nodup_dedup (rows.map Prod.fst)) rows
    fun row hrow => List.mem_dedup.mpr (List.mem_map_of_mem hrow)
  rw [← (hclasses.map Prod.snd).sum_eq, List.map_flatMap, List.flatMap_def, List.sum_flatten,
    List.map_map, aggregate, List.map_map]
  rfl

/-- The sum under a key, when the rows get other keys that tell it apart. -/
theorem sumUnder_map {ι : Type} [DecidableEq ι] (f : κ → ι) (rows : List (κ × M)) (k : κ)
    (h : ∀ row ∈ rows, f row.1 = f k → row.1 = k) :
    sumUnder (rows.map fun row => (f row.1, row.2)) (f k) = sumUnder rows k := by
  rw [sumUnder, List.filter_map, List.map_map, sumUnder]
  have hsame : rows.filter ((fun row : ι × M => decide (row.1 = f k)) ∘ fun row =>
      (f row.1, row.2)) = rows.filter fun row => row.1 = k := by
    refine List.filter_congr fun row hrow => ?_
    by_cases hk : row.1 = k
    · simp [hk]
    · have hne : ¬ f row.1 = f k := fun heq => hk (h row hrow heq)
      simp [hk, hne]
  rw [hsame]
  rfl

/-- The sum under a key that is kept. -/
theorem sumUnder_filter (p : κ → Bool) (rows : List (κ × M)) {k : κ} (hk : p k = true) :
    sumUnder (rows.filter fun row => p row.1) k = sumUnder rows k := by
  rw [sumUnder, List.filter_filter, sumUnder]
  have hsame : (rows.filter fun row => decide (row.1 = k) && p row.1) =
      rows.filter fun row => row.1 = k := by
    refine List.filter_congr fun row _ => ?_
    by_cases hrow : row.1 = k
    · simp [hrow, hk]
    · simp [hrow]
  rw [hsame]

/-! ## Pages -/

/-- One page of a list, and the offset of the next one. -/
def pageOf (xs : List α) (limit offset : Nat) : List α × Option Nat :=
  let fetched := (xs.drop offset).take (limit + 1)
  (fetched.take limit, if limit < fetched.length then some (offset + limit) else none)

/-- Reading one page after the other, at the offset the page before named. -/
inductive Walk (page : Nat → List α × Option Nat) : Nat → List α → Prop
  | last {offset : Nat} (h : (page offset).2 = none) : Walk page offset (page offset).1
  | next {offset offset' : Nat} {rest : List α} (h : (page offset).2 = some offset')
      (hrest : Walk page offset' rest) : Walk page offset ((page offset).1 ++ rest)

theorem pageOf_fst (xs : List α) (limit offset : Nat) :
    (pageOf xs limit offset).1 = (xs.drop offset).take limit := by
  rw [pageOf, List.take_take, Nat.min_eq_left (Nat.le_succ limit)]

theorem pageOf_map (f : α → β) (xs : List α) (limit offset : Nat) :
    pageOf (xs.map f) limit offset =
      ((pageOf xs limit offset).1.map f, (pageOf xs limit offset).2) := by
  simp only [pageOf, ← List.map_drop, ← List.map_take, List.length_map]

theorem pageOf_snd (xs : List α) (limit offset : Nat) :
    (pageOf xs limit offset).2 =
      if offset + limit < xs.length then some (offset + limit) else none := by
  have hlength : limit < ((xs.drop offset).take (limit + 1)).length ↔
      offset + limit < xs.length := by
    rw [List.length_take, List.length_drop]
    omega
  simp only [pageOf, hlength]

theorem walk_drop (xs : List α) {limit : Nat} (hlimit : 0 < limit) (offset : Nat) :
    Walk (pageOf xs limit) offset (xs.drop offset) := by
  by_cases hmore : offset + limit < xs.length
  · have hnext : (pageOf xs limit offset).2 = some (offset + limit) := by
      rw [pageOf_snd, if_pos hmore]
    have hrest := walk_drop xs hlimit (offset + limit)
    have hsplit : xs.drop offset = (pageOf xs limit offset).1 ++ xs.drop (offset + limit) := by
      rw [pageOf_fst, ← List.drop_drop, List.take_append_drop]
    rw [hsplit]
    exact .next hnext hrest
  · have hlast : (pageOf xs limit offset).2 = none := by rw [pageOf_snd, if_neg hmore]
    have hall : xs.drop offset = (pageOf xs limit offset).1 := by
      rw [pageOf_fst, List.take_of_length_le]
      rw [List.length_drop]
      omega
    rw [hall]
    exact .last hlast
termination_by xs.length - offset
decreasing_by omega

theorem Walk.unique {page : Nat → List α × Option Nat} {offset : Nat} {ys zs : List α}
    (h : Walk page offset ys) (h' : Walk page offset zs) : ys = zs := by
  induction h generalizing zs with
  | last h =>
      cases h' with
      | last _ => rfl
      | next h' _ => cases h.symm.trans h'
  | next h _ ih =>
      cases h' with
      | last h' => cases h'.symm.trans h
      | next h' hrest =>
          cases h.symm.trans h'
          rw [ih hrest]

/-- Page by page, everything is read once and in order. -/
theorem walk_iff {xs ys : List α} {limit : Nat} (hlimit : 0 < limit) :
    Walk (pageOf xs limit) 0 ys ↔ ys = xs :=
  ⟨fun h => h.unique (walk_drop xs hlimit 0), fun h => h ▸ walk_drop xs hlimit 0⟩

end SeoAgent.Verified
