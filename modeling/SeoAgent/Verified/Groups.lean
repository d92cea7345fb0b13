import SeoAgent.Verified.Table
import Mathlib.Data.List.Perm.Lattice

/-!
# Groups

A loop that gathers items under a key, as a `defaultdict(list)` does. What a reader of the groups
says of each item depends on its group alone, so all of it together is what is said of the items,
in another order.

## Main results

* `groups_eq` — under every key stands what the items of that key bring, in their order.
* `flatMap_groups` — what is said group by group is what is said item by item.
-/

namespace SeoAgent.Verified

variable {α β γ κ : Type} [DecidableEq κ]

/-- One more item under its key. -/
def addToGroup (key : α → κ) (value : α → β) (t : Table κ (List β)) (x : α) : Table κ (List β) :=
  t.put (key x) ((t.get? (key x)).getD [] ++ [value x])

/-- The values of items, under their keys. -/
def groups (key : α → κ) (value : α → β) (xs : List α) : Table κ (List β) :=
  xs.foldl (addToGroup key value) []

section Groups
variable (key : α → κ) (value : α → β)

/-- The items with a key. -/
def ofKey (xs : List α) (k : κ) : List α := xs.filter fun x => key x = k

theorem groups_append (xs : List α) (x : α) :
    groups key value (xs ++ [x]) = addToGroup key value (groups key value xs) x := by
  rw [groups, List.foldl_append]
  rfl

theorem nodup_groups (xs : List α) : ((groups key value xs).map Prod.fst).Nodup := by
  induction xs using List.reverseRecOn with
  | nil => exact List.nodup_nil
  | append_singleton xs x ih =>
      rw [groups_append]
      exact Table.nodup_put ih

theorem mem_keys_groups (xs : List α) (k : κ) :
    k ∈ (groups key value xs).map Prod.fst ↔ ∃ x ∈ xs, key x = k := by
  induction xs using List.reverseRecOn with
  | nil => exact ⟨nofun, nofun⟩
  | append_singleton xs x ih =>
      have hlast : (∃ y ∈ xs ++ [x], key y = k) ↔ (∃ y ∈ xs, key y = k) ∨ key x = k := by
        simp only [List.mem_append, List.mem_singleton, or_and_right, exists_or, exists_eq_left]
      rw [groups_append, addToGroup, Table.keys_put, hlast, ← ih]
      split
      · next hold => exact ⟨.inl, fun h => h.elim id fun hkey => hkey ▸ hold⟩
      · rw [List.mem_append, List.mem_singleton, eq_comm (a := k)]

theorem get?_groups (xs : List α) (k : κ) :
    ((groups key value xs).get? k).getD [] = (ofKey key xs k).map value := by
  induction xs using List.reverseRecOn with
  | nil => rfl
  | append_singleton xs x ih =>
      rw [groups_append, addToGroup, Table.get?_put, ofKey, List.filter_append, List.map_append]
      split
      · next hk =>
          subst hk
          simp [ih, ofKey]
      · next hk => simp [ih, ofKey, Ne.symm hk]

/-- Under every key stands what the items of that key bring, in their order. -/
theorem groups_eq (xs : List α) : groups key value xs =
    ((groups key value xs).map Prod.fst).map fun k => (k, (ofKey key xs k).map value) := by
  rw [List.map_map]
  refine (List.map_id _).symm.trans (List.map_congr_left fun entry hentry => ?_)
  have hfound := Table.get?_of_mem (nodup_groups key value xs) (k := entry.1) (v := entry.2) hentry
  show entry = (entry.1, (ofKey key xs entry.1).map value)
  rw [← get?_groups, hfound]
  rfl

/-- The items are those of each key together. -/
theorem perm_classes {ks : List κ} (hks : ks.Nodup) (xs : List α) (hall : ∀ x ∈ xs, key x ∈ ks) :
    (ks.flatMap (ofKey key xs)).Perm xs := by
  induction ks generalizing xs with
  | nil =>
      cases xs with
      | nil => exact List.Perm.refl _
      | cons x xs => cases hall x List.mem_cons_self
  | cons k ks ih =>
      obtain ⟨hk, hks⟩ := List.nodup_cons.mp hks
      have hrest := ih hks (xs.filter fun x => ¬key x = k) fun x hx => by
        obtain ⟨hx, hne⟩ := List.mem_filter.mp hx
        exact ((List.mem_cons.mp (hall x hx)).resolve_left (of_decide_eq_true hne))
      have hsame : ks.flatMap (ofKey key (xs.filter fun x => ¬key x = k)) =
          ks.flatMap (ofKey key xs) := by
        refine List.flatMap_congr fun other hother => ?_
        rw [ofKey, List.filter_filter]
        refine List.filter_congr fun x _ => ?_
        by_cases hx : key x = other
        · have hne : other ≠ k := fun heq => hk (heq ▸ hother)
          simp [hx, hne]
        · simp [hx]
      rw [hsame] at hrest
      rw [List.flatMap_cons]
      refine (hrest.append_left _).trans ?_
      have hparts := List.filter_append_perm (fun x => decide (key x = k)) xs
      simpa [ofKey] using hparts

/-- What is said group by group is what is said item by item. -/
theorem flatMap_groups (f : List β → β → List γ) (xs : List α) :
    ((groups key value xs).flatMap fun entry => entry.2.flatMap (f entry.2)).Perm
      (xs.flatMap fun x => f ((ofKey key xs (key x)).map value) (value x)) := by
  have hclasses := perm_classes key (nodup_groups key value xs) xs fun x hx =>
    (mem_keys_groups key value xs (key x)).mpr ⟨x, hx, rfl⟩
  refine List.Perm.trans (List.Perm.of_eq ?_) (hclasses.flatMap_right _)
  have hgroups := groups_eq key value xs
  generalize hks : (groups key value xs).map Prod.fst = ks at hgroups ⊢
  rw [hgroups, List.flatMap_map, List.flatMap_assoc]
  refine List.flatMap_congr fun k _ => ?_
  show ((ofKey key xs k).map value).flatMap _ = _
  rw [List.flatMap_map]
  refine List.flatMap_congr fun x hx => ?_
  have hkey : key x = k := of_decide_eq_true (List.mem_filter.mp hx).2
  rw [hkey]

end Groups

end SeoAgent.Verified
