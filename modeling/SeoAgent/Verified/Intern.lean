import Mathlib.Data.List.Basic
import Mathlib.Data.List.Nodup

/-!
# Values under numbers

A table that gives each value a number, once: a value that is there keeps its number, and one
that is not gets the next. Every insertion uses a number up, so numbers have gaps. What was
given a number keeps it for good, so rows that refer to values by their numbers can be read
however many values come later.

## Main results

* `idOf_eq_some_iff`, `valueOf_eq_some_iff` — the two directions of the table.
* `idOf_insertAll` — every value inserted has a number, and `valueOf_insertAll` — nothing that
  had one loses it.
-/

namespace SeoAgent.Verified

/-- Values with their numbers, each once. -/
structure Interned (α : Type) where
  rows : List (Nat × α)
  next : Nat
  below : ∀ row ∈ rows, row.1 < next
  numbers : (rows.map Prod.fst).Nodup
  values : (rows.map Prod.snd).Nodup

namespace Interned

variable {α : Type} [DecidableEq α]

/-- No values, and the first number. -/
def empty : Interned α where
  rows := []
  next := 1
  below := fun _ h => absurd h List.not_mem_nil
  numbers := List.nodup_nil
  values := List.nodup_nil

/-- One value, which keeps the number it has. -/
def insert (t : Interned α) (x : α) : Interned α :=
  if h : x ∈ t.rows.map Prod.snd then
    { t with next := t.next + 1, below := fun row hrow => Nat.lt_succ_of_lt (t.below row hrow) }
  else
    { rows := t.rows ++ [(t.next, x)]
      next := t.next + 1
      below := fun row hrow => by
        rcases List.mem_append.mp hrow with hrow | hrow
        · exact Nat.lt_succ_of_lt (t.below row hrow)
        · rw [List.mem_singleton.mp hrow]
          exact Nat.lt_succ_self _
      numbers := by
        rw [List.map_append]
        refine List.nodup_append.mpr ⟨t.numbers, List.nodup_singleton _, fun a ha b hb => ?_⟩
        obtain ⟨row, hrow, rfl⟩ := List.mem_map.mp ha
        rw [List.mem_singleton.mp hb]
        exact Nat.ne_of_lt (t.below row hrow)
      values := by
        rw [List.map_append]
        refine List.nodup_append.mpr ⟨t.values, List.nodup_singleton _, fun a ha b hb => ?_⟩
        have hx : b = x := List.mem_singleton.mp hb
        exact fun heq => h (heq.trans hx ▸ ha) }

def insertAll (t : Interned α) (xs : List α) : Interned α := xs.foldl insert t

/-- The number of a value. -/
def idOf (t : Interned α) (x : α) : Option Nat :=
  (t.rows.find? fun row => row.2 = x).map Prod.fst

/-- The value under a number. -/
def valueOf (t : Interned α) (n : Nat) : Option α :=
  (t.rows.find? fun row => row.1 = n).map Prod.snd

variable {t : Interned α} {x : α} {n : Nat} {xs : List α}

theorem idOf_eq_some_iff : t.idOf x = some n ↔ (n, x) ∈ t.rows := by
  constructor
  · intro h
    obtain ⟨row, hrow, rfl⟩ := Option.map_eq_some_iff.mp h
    have hx : row.2 = x := by simpa using List.find?_some hrow
    exact hx ▸ List.mem_of_find?_eq_some hrow
  · intro h
    cases hfind : t.rows.find? fun row => row.2 = x with
    | none => simpa using List.find?_eq_none.mp hfind _ h
    | some row =>
        have hx : row.2 = x := by simpa using List.find?_some hfind
        have hsame : row = (n, x) := List.inj_on_of_nodup_map t.values
          (List.mem_of_find?_eq_some hfind) h hx
        simp [idOf, hfind, hsame]

omit [DecidableEq α] in
theorem valueOf_eq_some_iff : t.valueOf n = some x ↔ (n, x) ∈ t.rows := by
  constructor
  · intro h
    obtain ⟨row, hrow, rfl⟩ := Option.map_eq_some_iff.mp h
    have hn : row.1 = n := by simpa using List.find?_some hrow
    exact hn ▸ List.mem_of_find?_eq_some hrow
  · intro h
    cases hfind : t.rows.find? fun row => row.1 = n with
    | none => simpa using List.find?_eq_none.mp hfind _ h
    | some row =>
        have hn : row.1 = n := by simpa using List.find?_some hfind
        have hsame : row = (n, x) := List.inj_on_of_nodup_map t.numbers
          (List.mem_of_find?_eq_some hfind) h hn
        simp [valueOf, hfind, hsame]

/-- What has a number is the value under it. -/
theorem valueOf_idOf (h : t.idOf x = some n) : t.valueOf n = some x :=
  valueOf_eq_some_iff.mpr (idOf_eq_some_iff.mp h)

/-- No row is lost. -/
theorem subset_insert (t : Interned α) (x : α) : t.rows ⊆ (t.insert x).rows := by
  unfold insert
  split
  · exact List.Subset.refl _
  · exact List.subset_append_left _ _

theorem mem_insert (t : Interned α) (x : α) : ∃ n, (n, x) ∈ (t.insert x).rows := by
  unfold insert
  split
  · next h =>
      obtain ⟨row, hrow, rfl⟩ := List.mem_map.mp h
      exact ⟨row.1, hrow⟩
  · exact ⟨t.next, List.mem_append_right _ List.mem_cons_self⟩

theorem subset_insertAll (t : Interned α) (xs : List α) : t.rows ⊆ (t.insertAll xs).rows := by
  induction xs generalizing t with
  | nil => exact List.Subset.refl _
  | cons x xs ih => exact List.Subset.trans (subset_insert t x) (ih (t.insert x))

/-- Every value inserted has a number. -/
theorem idOf_insertAll (h : x ∈ xs) : ∃ n, (t.insertAll xs).idOf x = some n := by
  induction xs generalizing t with
  | nil => cases h
  | cons y xs ih =>
      rcases List.mem_cons.mp h with rfl | h
      · obtain ⟨n, hn⟩ := mem_insert t x
        exact ⟨n, idOf_eq_some_iff.mpr (subset_insertAll (t.insert x) xs hn)⟩
      · exact ih (t := t.insert y) h

/-- What had a number keeps it. -/
theorem valueOf_insertAll (h : t.valueOf n = some x) : (t.insertAll xs).valueOf n = some x :=
  valueOf_eq_some_iff.mpr (subset_insertAll t xs (valueOf_eq_some_iff.mp h))

end Interned

end SeoAgent.Verified
