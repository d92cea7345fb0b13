import Mathlib.Algebra.Order.BigOperators.Group.Finset
import Mathlib.Data.List.Sort

/-!
# Tables in insertion order

A table is the list of its entries in insertion order. `put` overwrites an entry in its
place or adds one at the end, as assignment to a key of a dictionary does, `drop` deletes
one, and `dropAll` deletes those of a list of keys.

## Main results

* `get?_put`, `get?_drop`, `get?_dropAll` — what is found after each.
* `length_put_le`, `length_dropAll_take_le` — how long a table gets.
* `sum_le_sum` — a table that has no less under every key has no smaller sum.
-/

namespace SeoAgent.Verified

/-- Entries in insertion order. -/
abbrev Table (κ β : Type) : Type := List (κ × β)

namespace Table

variable {κ β : Type} [DecidableEq κ]

/-- The value under a key. -/
def get? (t : Table κ β) (k : κ) : Option β := List.lookup k t

/-- Assigns one key. -/
def put : Table κ β → κ → β → Table κ β
  | [], k, v => [(k, v)]
  | (l, w) :: t, k, v => if l = k then (k, v) :: t else (l, w) :: put t k v

/-- Deletes a key. -/
def drop (t : Table κ β) (k : κ) : Table κ β := t.filter fun entry => entry.1 ≠ k

/-- Deletes keys. -/
def dropAll (t : Table κ β) (ks : List κ) : Table κ β := t.filter fun entry => entry.1 ∉ ks

section Lemmas
variable {t : Table κ β} {k l : κ} {v : β}

theorem get?_cons (l k : κ) (v : β) (t : Table κ β) :
    get? ((l, v) :: t) k = if k = l then some v else get? t k := by
  unfold get?
  rw [List.lookup_cons]
  by_cases h : k = l
  · simp [h]
  · simp [h, beq_false_of_ne h]

theorem get?_put (t : Table κ β) (k l : κ) (v : β) :
    (t.put k v).get? l = if l = k then some v else t.get? l := by
  induction t with
  | nil => rw [put, get?_cons]
  | cons entry t ih =>
      obtain ⟨m, w⟩ := entry
      unfold put
      split
      · next hm =>
          subst hm
          rw [get?_cons, get?_cons]
          split <;> rfl
      · next hm =>
          rw [get?_cons, get?_cons, ih]
          by_cases hl : l = m
          · subst hl
            simp [hm]
          · simp [hl]

theorem get?_filter (p : κ → Bool) (t : Table κ β) (l : κ) :
    get? (t.filter fun entry => p entry.1) l = if p l then t.get? l else none := by
  induction t with
  | nil => simp [get?]
  | cons entry t ih =>
      obtain ⟨m, w⟩ := entry
      rw [List.filter_cons]
      by_cases hl : l = m
      · subst hl
        split
        · simp [get?_cons]
        · next hp =>
            have hp' : ¬p l = true := hp
            simp [ih, hp']
      · split
        · rw [get?_cons, get?_cons, if_neg hl, if_neg hl, ih]
        · rw [get?_cons, if_neg hl, ih]

theorem get?_drop (t : Table κ β) (k l : κ) :
    (t.drop k).get? l = if l = k then none else t.get? l := by
  unfold drop
  rw [get?_filter fun m => decide (m ≠ k)]
  by_cases h : l = k <;> simp [h]

theorem get?_dropAll (t : Table κ β) (ks : List κ) (l : κ) :
    (t.dropAll ks).get? l = if l ∈ ks then none else t.get? l := by
  unfold dropAll
  rw [get?_filter fun m => decide (m ∉ ks)]
  by_cases h : l ∈ ks <;> simp [h]

theorem mem_of_get? (h : t.get? k = some v) : (k, v) ∈ t := by
  induction t with
  | nil => cases h
  | cons entry t ih =>
      obtain ⟨m, w⟩ := entry
      rw [get?_cons] at h
      split at h
      · next hk =>
          obtain rfl := Option.some.inj h
          rw [hk]
          exact List.mem_cons_self
      · exact List.mem_cons_of_mem _ (ih h)

theorem mem_put {entry : κ × β} (h : entry ∈ t.put k v) : entry = (k, v) ∨ entry ∈ t := by
  induction t with
  | nil => exact .inl (List.mem_singleton.mp h)
  | cons first t ih =>
      unfold put at h
      split at h
      · exact (List.mem_cons.mp h).imp_right (List.mem_cons_of_mem _)
      · rcases List.mem_cons.mp h with rfl | h
        · exact .inr List.mem_cons_self
        · exact (ih h).imp_right (List.mem_cons_of_mem _)

theorem length_put_le (t : Table κ β) (k : κ) (v : β) : (t.put k v).length ≤ t.length + 1 := by
  induction t with
  | nil => exact Nat.le_refl 1
  | cons entry t ih =>
      unfold put
      split
      · exact Nat.le_succ _
      · exact Nat.succ_le_succ ih

/-- A key that is there is overwritten in its place. -/
theorem length_put_of_get? {w : β} (h : t.get? k = some w) (v : β) :
    (t.put k v).length = t.length := by
  induction t with
  | nil => cases h
  | cons entry t ih =>
      obtain ⟨m, w'⟩ := entry
      unfold put
      split
      · rfl
      · next hm =>
          rw [get?_cons, if_neg (Ne.symm hm)] at h
          exact congrArg Nat.succ (ih h)

/-- The first entries of a table in whatever order go with their keys. -/
theorem length_dropAll_take_le {t : Table κ β} {sorted : List (κ × β)} (hperm : sorted.Perm t)
    (n : Nat) :
    (t.dropAll ((sorted.take n).map Prod.fst)).length ≤ t.length - n := by
  let kept : κ × β → Bool := fun entry => entry.1 ∉ (sorted.take n).map Prod.fst
  have hnone : (sorted.take n).filter kept = [] := by
    rw [List.filter_eq_nil_iff]
    intro entry hentry hkept
    exact of_decide_eq_true hkept (List.mem_map_of_mem hentry)
  calc (t.filter kept).length
      = (sorted.filter kept).length := (hperm.filter kept).length_eq.symm
    _ = ((sorted.take n ++ sorted.drop n).filter kept).length := by rw [List.take_append_drop]
    _ = ((sorted.drop n).filter kept).length := by rw [List.filter_append, hnone, List.nil_append]
    _ ≤ (sorted.drop n).length := List.length_filter_le _ _
    _ = t.length - n := by rw [List.length_drop, hperm.length_eq]

end Lemmas

/-! ## Keys and sums -/

section Sums
variable {t t' : Table κ β} {k : κ} {v : β}

theorem keys_put (t : Table κ β) (k : κ) (v : β) :
    (t.put k v).map Prod.fst = if k ∈ t.map Prod.fst then t.map Prod.fst
      else t.map Prod.fst ++ [k] := by
  induction t with
  | nil => rfl
  | cons entry t ih =>
      obtain ⟨l, w⟩ := entry
      unfold put
      by_cases hl : l = k
      · subst hl
        simp
      · rw [if_neg hl, List.map_cons, ih, List.map_cons]
        by_cases hk : k ∈ t.map Prod.fst
        · simp [hk]
        · rw [if_neg hk, if_neg (by simp [hk, Ne.symm hl])]
          rfl

theorem nodup_put (h : (t.map Prod.fst).Nodup) : ((t.put k v).map Prod.fst).Nodup := by
  rw [keys_put]
  split
  · exact h
  · next hk => exact List.nodup_append.mpr ⟨h, List.nodup_singleton k, fun l hl m hm hlm =>
      hk (List.mem_singleton.mp hm ▸ hlm ▸ hl)⟩

theorem get?_of_mem (hnodup : (t.map Prod.fst).Nodup) (h : (k, v) ∈ t) : t.get? k = some v := by
  induction t with
  | nil => cases h
  | cons entry t ih =>
      obtain ⟨l, w⟩ := entry
      obtain ⟨hl, hnodup⟩ := List.nodup_cons.mp hnodup
      rw [get?_cons]
      rcases List.mem_cons.mp h with heq | h
      · obtain ⟨rfl, rfl⟩ := Prod.mk.inj heq
        exact if_pos rfl
      · have hin : k ∈ t.map Prod.fst := List.mem_map_of_mem h
        have hkl : k ≠ l := fun heq => hl (heq ▸ hin)
        rw [if_neg hkl, ih hnodup h]

variable {M : Type} [AddCommMonoid M]

/-- A sum over the entries is one over the keys. -/
theorem sum_values (hnodup : (t.map Prod.fst).Nodup) (f : β → M) :
    (t.map fun entry => f entry.2).sum =
      ∑ k ∈ (t.map Prod.fst).toFinset, ((t.get? k).map f).getD 0 := by
  rw [List.sum_toFinset _ hnodup, List.map_map]
  refine congrArg List.sum (List.map_congr_left fun entry hentry => ?_)
  rw [Function.comp_apply, get?_of_mem hnodup hentry]
  rfl

variable [PartialOrder M] [IsOrderedAddMonoid M]

/-- A table that has no less under every key has no smaller sum. -/
theorem sum_le_sum (ht : (t.map Prod.fst).Nodup) (ht' : (t'.map Prod.fst).Nodup) (f : β → M)
    (hnonneg : ∀ v, 0 ≤ f v)
    (h : ∀ k v, t.get? k = some v → ∃ v', t'.get? k = some v' ∧ f v ≤ f v') :
    (t.map fun entry => f entry.2).sum ≤ (t'.map fun entry => f entry.2).sum := by
  rw [sum_values ht, sum_values ht']
  refine (Finset.sum_le_sum fun k hk => ?_).trans
    (Finset.sum_le_sum_of_subset_of_nonneg (fun k hk => ?_) fun k _ _ => ?_)
  · obtain ⟨entry, hentry, rfl⟩ := List.mem_map.mp (List.mem_toFinset.mp hk)
    obtain ⟨v', hv', hle⟩ := h entry.1 entry.2 (get?_of_mem ht hentry)
    rw [get?_of_mem ht hentry, hv']
    exact hle
  · obtain ⟨entry, hentry, rfl⟩ := List.mem_map.mp (List.mem_toFinset.mp hk)
    obtain ⟨v', hv', -⟩ := h entry.1 entry.2 (get?_of_mem ht hentry)
    exact List.mem_toFinset.mpr (List.mem_map.mpr ⟨(entry.1, v'), mem_of_get? hv', rfl⟩)
  · cases t'.get? k with
    | none => exact le_refl _
    | some v => exact hnonneg v

end Sums

end Table

end SeoAgent.Verified
