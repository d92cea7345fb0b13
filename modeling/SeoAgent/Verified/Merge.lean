import Mathlib.Algebra.BigOperators.Group.Finset.Basic
import Mathlib.Data.List.Sort
import Mathlib.Data.Finset.Dedup

/-!
# Sums by key

A table holds one value for each key. Entries are merged into it one by one, by
addition to the value their key has, and the table is read out in ascending
order of its keys. What is read out depends on the entries only up to their
order.

`IsGroupSum` says what such a table is for a finite set: each key once, and
under it the sum of the values that belong to it.

## Main results

* `merged_perm` — the order of the entries does not matter.
* `isGroupSum_merged` — the merged table is the table of sums.
* `IsGroupSum.unique` — a sorted table of sums is determined by the set.
-/

namespace SeoAgent.Verified

variable {κ M ε : Type} [LinearOrder κ] [AddCommMonoid M]

/-! ## Merging -/

/-- Adds a value under a key, which starts from zero. -/
def addTo : List (κ × M) → κ → M → List (κ × M)
  | [], k, v => [(k, 0 + v)]
  | (l, w) :: m, k, v => if l = k then (l, w + v) :: m else (l, w) :: addTo m k v

/-- The table of all the entries, in the order in which the keys first come. -/
def mergeAll (entries : List (κ × M)) : List (κ × M) :=
  entries.foldl (fun m e => addTo m e.1 e.2) []

/-- The table in ascending order of its keys. -/
def merged (entries : List (κ × M)) : List (κ × M) :=
  (mergeAll entries).insertionSort fun a b => a.1 ≤ b.1

/-- The sum of the values under a key. -/
def sumAt (entries : List (κ × M)) (k : κ) : M :=
  ((entries.filter fun e => e.1 = k).map Prod.snd).sum

variable {m m' entries entries' : List (κ × M)} {k l : κ} {v : M}

theorem sumAt_nil (k : κ) : sumAt ([] : List (κ × M)) k = 0 := rfl

theorem sumAt_cons (e : κ × M) (k : κ) :
    sumAt (e :: m) k = (if e.1 = k then e.2 else 0) + sumAt m k := by
  unfold sumAt
  rw [List.filter_cons]
  by_cases h : e.1 = k
  · rw [if_pos (decide_eq_true h), if_pos h, List.map_cons, List.sum_cons]
  · rw [if_neg (by simp [h]), if_neg h, zero_add]

theorem sumAt_addTo : sumAt (addTo m k v) l = sumAt m l + if k = l then v else 0 := by
  induction m with
  | nil => rw [addTo, sumAt_cons, zero_add, add_comm]
  | cons e m ih =>
      rw [addTo]
      by_cases h : e.1 = k
      · rw [if_pos h, sumAt_cons, sumAt_cons]
        by_cases hl : e.1 = l
        · rw [if_pos hl, if_pos hl, if_pos (h ▸ hl), add_right_comm]
        · rw [if_neg hl, if_neg hl, if_neg (fun hk => hl (h.trans hk)), add_zero]
      · rw [if_neg h, sumAt_cons, sumAt_cons, ih, add_assoc]

theorem mem_keys_addTo : l ∈ (addTo m k v).map Prod.fst ↔ l = k ∨ l ∈ m.map Prod.fst := by
  induction m with
  | nil => simp [addTo]
  | cons e m ih =>
      rw [addTo]
      by_cases h : e.1 = k
      · rw [if_pos h, List.map_cons, List.map_cons, List.mem_cons, h]
        tauto
      · rw [if_neg h, List.map_cons, List.mem_cons, ih, List.map_cons, List.mem_cons]
        tauto

theorem nodup_addTo (h : (m.map Prod.fst).Nodup) : ((addTo m k v).map Prod.fst).Nodup := by
  induction m with
  | nil => exact List.nodup_singleton _
  | cons e m ih =>
      rw [List.map_cons, List.nodup_cons] at h
      rw [addTo]
      by_cases hk : e.1 = k
      · rw [if_pos hk, List.map_cons, List.nodup_cons]
        exact h
      · rw [if_neg hk, List.map_cons, List.nodup_cons, mem_keys_addTo, not_or]
        exact ⟨⟨hk, h.1⟩, ih h.2⟩

variable (entries) in
/-- Entries that are merged into a table add to the sums there. -/
theorem foldl_addTo (m : List (κ × M)) (h : (m.map Prod.fst).Nodup) :
    let t := entries.foldl (fun m e => addTo m e.1 e.2) m
    (t.map Prod.fst).Nodup ∧
      (∀ k, k ∈ t.map Prod.fst ↔ k ∈ m.map Prod.fst ∨ k ∈ entries.map Prod.fst) ∧
      ∀ k, sumAt t k = sumAt m k + sumAt entries k := by
  induction entries generalizing m with
  | nil => exact ⟨h, fun k => by simp, fun k => by rw [List.foldl_nil, sumAt_nil, add_zero]⟩
  | cons e entries ih =>
      obtain ⟨hnodup, hkeys, hsum⟩ := ih (addTo m e.1 e.2) (nodup_addTo h)
      refine ⟨hnodup, fun k => ?_, fun k => ?_⟩
      · rw [List.foldl_cons, hkeys, mem_keys_addTo, List.map_cons, List.mem_cons]
        tauto
      · rw [List.foldl_cons, hsum, sumAt_addTo, sumAt_cons, add_assoc]

theorem nodup_mergeAll : ((mergeAll entries).map Prod.fst).Nodup :=
  (foldl_addTo entries [] List.nodup_nil).1

theorem mem_keys_mergeAll :
    k ∈ (mergeAll entries).map Prod.fst ↔ k ∈ entries.map Prod.fst := by
  have h := (foldl_addTo entries [] List.nodup_nil).2.1 k
  rwa [List.map_nil, List.mem_nil_iff, false_or] at h

theorem sumAt_mergeAll : sumAt (mergeAll entries) k = sumAt entries k := by
  have h := (foldl_addTo entries [] List.nodup_nil).2.2 k
  rwa [sumAt_nil, zero_add] at h

/-- In a table with each key once the sum under a key is its value. -/
theorem sumAt_eq (h : (m.map Prod.fst).Nodup) (he : (k, v) ∈ m) : sumAt m k = v := by
  induction m with
  | nil => cases he
  | cons e m ih =>
      rw [List.map_cons, List.nodup_cons] at h
      rw [sumAt_cons]
      rcases List.mem_cons.mp he with rfl | he
      · have hnone : sumAt m k = 0 := by
          rw [sumAt, List.filter_eq_nil_iff.mpr, List.map_nil, List.sum_nil]
          intro e' he' hk
          exact h.1 (List.mem_map.mpr ⟨e', he', of_decide_eq_true hk⟩)
        rw [if_pos rfl, hnone, add_zero]
      · have hne : e.1 ≠ k := fun hk => h.1 (List.mem_map.mpr ⟨(k, v), he, hk.symm⟩)
        rw [if_neg hne, zero_add, ih h.2 he]

omit [LinearOrder κ] in
theorem sum_map_single [DecidableEq κ] {keys : List κ} (h : keys.Nodup) (a : κ) (v : M) :
    (keys.map fun k => if a = k then v else 0).sum = if a ∈ keys then v else 0 := by
  induction keys with
  | nil => rfl
  | cons k keys ih =>
      obtain ⟨hk, hnodup⟩ := List.nodup_cons.mp h
      rw [List.map_cons, List.sum_cons, ih hnodup]
      by_cases hak : a = k
      · subst hak
        rw [if_pos rfl, if_neg hk, if_pos List.mem_cons_self, add_zero]
      · rw [if_neg hak, zero_add]
        simp only [List.mem_cons, hak, false_or]

/-- The sums under some of the keys are together the sum of the entries that
belong to these. -/
theorem sum_sumAt {keys : List κ} (hnodup : keys.Nodup) (hkeys : ∀ e ∈ entries, e.1 ∈ keys)
    (p : κ → Bool) : ((keys.filter p).map (sumAt entries)).sum =
      ((entries.filter fun e => p e.1).map Prod.snd).sum := by
  induction entries with
  | nil =>
      have hzero : sumAt ([] : List (κ × M)) = fun _ => 0 := rfl
      rw [hzero]
      exact List.sum_eq_zero fun x hx => by
        obtain ⟨_, -, rfl⟩ := List.mem_map.mp hx
        rfl
  | cons e entries ih =>
      have hfirst : sumAt (e :: entries) = fun k => (if e.1 = k then e.2 else 0) + sumAt entries k :=
        funext fun k => sumAt_cons e k
      rw [hfirst, List.sum_map_add, ih fun d hd => hkeys d (List.mem_cons_of_mem _ hd),
        sum_map_single (hnodup.filter p), List.filter_cons]
      by_cases hp : p e.1 = true
      · rw [if_pos (List.mem_filter.mpr ⟨hkeys e List.mem_cons_self, hp⟩), if_pos hp,
          List.map_cons, List.sum_cons]
      · rw [if_neg fun hin => hp (List.mem_filter.mp hin).2, if_neg hp, zero_add]

/-- The rows of some keys of a merged table add up to what their entries do. -/
theorem sum_merged (entries : List (κ × M)) (p : κ → Bool) :
    (((merged entries).filter fun e => p e.1).map Prod.snd).sum =
      ((entries.filter fun e => p e.1).map Prod.snd).sum := by
  have hperm : (merged entries).Perm (mergeAll entries) := List.perm_insertionSort _ _
  have hvalue : ∀ e ∈ (mergeAll entries).filter fun e => p e.1, e.2 = sumAt entries e.1 := by
    intro e he
    rw [← sumAt_mergeAll]
    exact (sumAt_eq nodup_mergeAll (List.mem_of_mem_filter he)).symm
  have hkeys : ((mergeAll entries).filter fun e => p e.1).map Prod.fst =
      ((mergeAll entries).map Prod.fst).filter p := by
    rw [List.filter_map]
    rfl
  calc (((merged entries).filter fun e => p e.1).map Prod.snd).sum
      = (((mergeAll entries).filter fun e => p e.1).map Prod.snd).sum :=
        ((hperm.filter _).map _).sum_eq
    _ = ((((mergeAll entries).filter fun e => p e.1).map Prod.fst).map (sumAt entries)).sum := by
        rw [List.map_map]
        exact congrArg List.sum (List.map_congr_left hvalue)
    _ = ((entries.filter fun e => p e.1).map Prod.snd).sum := by
        rw [hkeys]
        exact sum_sumAt nodup_mergeAll (fun e he => mem_keys_mergeAll.mpr (List.mem_map_of_mem he)) p

/-! ## Groups -/

/-- The values under each key in the order of the entries, in ascending order of
the keys. -/
def groupsOf {V : Type} (entries : List (κ × V)) : List (κ × List V) :=
  ((entries.map Prod.fst).dedup.insertionSort (· ≤ ·)).map fun k =>
    (k, (entries.filter fun e => e.1 = k).map Prod.snd)

omit [AddCommMonoid M] in
theorem mem_groupsOf_keys {V : Type} {entries : List (κ × V)} :
    k ∈ (groupsOf entries).map Prod.fst ↔ k ∈ entries.map Prod.fst := by
  rw [groupsOf, List.map_map]
  have hid : (Prod.fst ∘ fun k => (k, (entries.filter fun e => e.1 = k).map Prod.snd)) = id := rfl
  rw [hid, List.map_id, List.mem_insertionSort, List.mem_dedup]

/-- What the groups of some keys add up to is what their entries add up to. -/
theorem sum_groupsOf {V : Type} (entries : List (κ × V)) (f : V → M) (p : κ → Bool) :
    (((groupsOf entries).filter fun g => p g.1).map fun g => (g.2.map f).sum).sum =
      ((entries.filter fun e => p e.1).map fun e => f e.2).sum := by
  have hsum : ∀ k, (((entries.filter fun e => e.1 = k).map Prod.snd).map f).sum =
      sumAt (entries.map fun e => (e.1, f e.2)) k := by
    intro k
    rw [sumAt, List.filter_map, List.map_map, List.map_map]
    rfl
  have hnodup : ((entries.map Prod.fst).dedup.insertionSort (· ≤ ·)).Nodup :=
    (List.perm_insertionSort _ _).nodup_iff.mpr (List.nodup_dedup _)
  have hkeys : ∀ e ∈ entries.map fun e => (e.1, f e.2),
      e.1 ∈ (entries.map Prod.fst).dedup.insertionSort (· ≤ ·) := by
    intro e he
    obtain ⟨e', he', rfl⟩ := List.mem_map.mp he
    rw [List.mem_insertionSort, List.mem_dedup]
    exact List.mem_map_of_mem he'
  have h := sum_sumAt hnodup hkeys p
  rw [List.filter_map, List.map_map] at h
  rw [groupsOf, List.filter_map, List.map_map]
  refine Eq.trans ?_ h
  refine congrArg List.sum (List.map_congr_left fun k _ => ?_)
  exact hsum k

/-! ## Sums over a set -/

/-- The table has each key that an element of the set belongs to, once, and
under it the sum over the elements that belong to it. -/
structure IsGroupSum (table : List (κ × M)) (s : Finset ε) (key : ε → Option κ)
    (value : ε → M) : Prop where
  nodup : (table.map Prod.fst).Nodup
  mem_keys : ∀ k, k ∈ table.map Prod.fst ↔ ∃ e ∈ s, key e = some k
  sum : ∀ k v, (k, v) ∈ table → v = ∑ e ∈ s with key e = some k, value e

variable {table table' : List (κ × M)} {s : Finset ε} {key : ε → Option κ} {value : ε → M}

/-- What holds of every value and is kept by sums holds of what is under every key. -/
theorem IsGroupSum.all {P : M → Prop} (h : IsGroupSum table s key value) (hzero : P 0)
    (hadd : ∀ a b, P a → P b → P (a + b)) (hvalue : ∀ e ∈ s, P (value e)) {k : κ} {v : M}
    (hkv : (k, v) ∈ table) : P v := by
  rw [h.sum k v hkv]
  exact Finset.sum_induction value P hadd hzero fun e he => hvalue e (Finset.mem_filter.mp he).1

/-- Two tables of sums over one set have the same rows. -/
theorem IsGroupSum.perm (h : IsGroupSum table s key value) (h' : IsGroupSum table' s key value) :
    table.Perm table' := by
  have hsub : ∀ {t t' : List (κ × M)}, IsGroupSum t s key value → IsGroupSum t' s key value →
      ∀ e ∈ t, e ∈ t' := by
    intro t t' ht ht' e he
    have hk : e.1 ∈ t'.map Prod.fst :=
      (ht'.mem_keys e.1).mpr ((ht.mem_keys e.1).mp (List.mem_map_of_mem he))
    obtain ⟨e', he', hkey⟩ := List.mem_map.mp hk
    have hv : e.2 = e'.2 := by
      rw [ht.sum e.1 e.2 he, ht'.sum e'.1 e'.2 he', hkey]
    rwa [show e = e' from Prod.ext hkey.symm hv]
  exact (List.perm_ext_iff_of_nodup h.nodup.of_map h'.nodup.of_map).mpr fun e =>
    ⟨hsub h h' e, hsub h' h e⟩

/-- Sorted by key there is only one table of sums. -/
theorem IsGroupSum.unique (h : IsGroupSum table s key value)
    (h' : IsGroupSum table' s key value)
    (hsorted : table.Pairwise fun a b => a.1 ≤ b.1)
    (hsorted' : table'.Pairwise fun a b => a.1 ≤ b.1) : table = table' := by
  have hperm := h.perm h'
  have hkeys : table.map Prod.fst = table'.map Prod.fst :=
    (hperm.map Prod.fst).eq_of_pairwise (fun a b _ _ => le_antisymm)
      (List.pairwise_map.mpr hsorted) (List.pairwise_map.mpr hsorted')
  refine hperm.eq_of_pairwise (fun a b ha hb (hab : a.1 ≤ b.1) (hba : b.1 ≤ a.1) => ?_)
    hsorted hsorted'
  have hk : a.1 = b.1 := le_antisymm hab hba
  have ha' : (b.1, a.2) ∈ table := by
    rw [← hk]
    exact ha
  have hb' : (b.1, b.2) ∈ table := hperm.mem_iff.mpr hb
  exact Prod.ext hk ((h.sum _ _ ha').trans (h.sum _ _ hb').symm)

/-- The sum under some keys is the sum of what belongs to them. -/
theorem IsGroupSum.sum_filter (h : IsGroupSum table s key value) (p : κ → Bool) :
    ((table.filter fun row => p row.1).map Prod.snd).sum =
      ∑ e ∈ s with (key e).any p, value e := by
  set under := table.filter fun row => p row.1 with hunder
  have hnodup : (under.map Prod.fst).Nodup :=
    h.nodup.sublist (List.filter_sublist.map Prod.fst)
  have hvalues : under.map Prod.snd =
      (under.map Prod.fst).map fun k => ∑ e ∈ s with key e = some k, value e := by
    rw [List.map_map]
    exact List.map_congr_left fun row hrow => h.sum row.1 row.2 (List.mem_filter.mp hrow).1
  have hmaps : ∀ e ∈ s.filter fun e => (key e).any p,
      key e ∈ (under.map Prod.fst).toFinset.image some := by
    intro e he
    obtain ⟨hin, hany⟩ := Finset.mem_filter.mp he
    obtain ⟨k, hk, hp⟩ := (Option.any_eq_true p _).mp hany
    have hkey := (h.mem_keys k).mpr ⟨e, hin, hk⟩
    obtain ⟨row, hrow, rfl⟩ := List.mem_map.mp hkey
    refine Finset.mem_image.mpr ⟨row.1, List.mem_toFinset.mpr (List.mem_map_of_mem
      (List.mem_filter.mpr ⟨hrow, hp⟩)), hk.symm⟩
  rw [hvalues, ← List.sum_toFinset _ hnodup, ← Finset.sum_fiberwise_of_maps_to hmaps,
    Finset.sum_image fun a _ b _ hab => Option.some.inj hab]
  refine Finset.sum_congr rfl fun k hk => Finset.sum_congr ?_ fun _ _ => rfl
  rw [Finset.filter_filter]
  refine Finset.filter_congr fun e _ => ⟨fun he => ⟨?_, he⟩, And.right⟩
  obtain ⟨row, hrow, rfl⟩ := List.mem_map.mp (List.mem_toFinset.mp hk)
  exact he ▸ (List.mem_filter.mp hrow).2

/-- Nothing is under some keys when nothing belongs to them. -/
theorem IsGroupSum.filter_eq_nil_iff (h : IsGroupSum table s key value) (p : κ → Bool) :
    (table.filter fun row => p row.1) = [] ↔ (s.filter fun e => (key e).any p) = ∅ := by
  rw [List.filter_eq_nil_iff, Finset.filter_eq_empty_iff]
  constructor
  · intro hnone e he hany
    obtain ⟨k, hk, hp⟩ := (Option.any_eq_true p _).mp hany
    obtain ⟨row, hrow, rfl⟩ := List.mem_map.mp ((h.mem_keys k).mpr ⟨e, he, hk⟩)
    exact hnone row hrow hp
  · intro hnone row hrow hp
    obtain ⟨e, he, hk⟩ := (h.mem_keys row.1).mp (List.mem_map_of_mem hrow)
    exact hnone he (hk ▸ hp)

theorem merged_sorted : (merged entries).Pairwise fun a b => a.1 ≤ b.1 :=
  List.pairwise_insertionSort _ _

variable [DecidableEq ε]

/-- The entries of the elements that belong to a key. -/
def entriesOf (key : ε → Option κ) (value : ε → M) (es : List ε) : List (κ × M) :=
  es.filterMap fun e => (key e).map fun k => (k, value e)

omit [LinearOrder κ] [AddCommMonoid M] [DecidableEq ε] in
theorem mem_keys_entriesOf {es : List ε} :
    k ∈ (entriesOf key value es).map Prod.fst ↔ ∃ e ∈ es, key e = some k := by
  simp only [entriesOf, List.mem_map, List.mem_filterMap, Option.map_eq_some_iff]
  constructor
  · rintro ⟨_, ⟨e, he, k', hk, rfl⟩, rfl⟩
    exact ⟨e, he, hk⟩
  · rintro ⟨e, he, hk⟩
    exact ⟨_, ⟨e, he, k, hk, rfl⟩, rfl⟩

omit [DecidableEq ε] in
theorem sumAt_entriesOf (es : List ε) (k : κ) : sumAt (entriesOf key value es) k =
    ((es.filter fun e => key e = some k).map value).sum := by
  induction es with
  | nil => rfl
  | cons e es ih =>
      rw [entriesOf, List.filterMap_cons]
      cases hk : key e with
      | none =>
          rw [List.filter_cons, if_neg (by simp [hk])]
          exact ih
      | some k' =>
          rw [Option.map_some, sumAt_cons, List.filter_cons]
          change _ + sumAt (entriesOf key value es) k = _
          rw [ih]
          by_cases h : k' = k
          · rw [if_pos h, if_pos (by simp [hk, h]), List.map_cons, List.sum_cons]
          · rw [if_neg h, if_neg (by simp [hk, h]), zero_add]

omit [LinearOrder κ] [AddCommMonoid M] [DecidableEq ε] in
/-- The values of the entries under some keys. -/
theorem values_entriesOf (es : List ε) (p : κ → Bool) :
    ((entriesOf key value es).filter fun e => p e.1).map Prod.snd =
      (es.filter fun e => (key e).any p).map value := by
  induction es with
  | nil => rfl
  | cons e es ih =>
      rw [entriesOf, List.filterMap_cons]
      cases hk : key e with
      | none =>
          rw [List.filter_cons, if_neg (by simp [hk])]
          exact ih
      | some k =>
          rw [Option.map_some, List.filter_cons, List.filter_cons]
          change List.map _ (if p k = true then
            (k, value e) :: (entriesOf key value es).filter _ else _) = _
          by_cases h : p k = true
          · rw [if_pos h, if_pos (by simp [hk, h]), List.map_cons, List.map_cons, ih]
          · rw [if_neg h, if_neg (by simp [hk, h])]
            exact ih

/-- Merging the entries of a list gives the table of sums over its elements. -/
theorem isGroupSum_merged {es : List ε} (hnodup : es.Nodup) :
    IsGroupSum (merged (entriesOf key value es)) es.toFinset key value := by
  have hperm : (merged (entriesOf key value es)).Perm (mergeAll (entriesOf key value es)) :=
    List.perm_insertionSort _ _
  constructor
  · exact (hperm.map Prod.fst).nodup_iff.mpr nodup_mergeAll
  · intro k
    rw [(hperm.map Prod.fst).mem_iff, mem_keys_mergeAll, mem_keys_entriesOf]
    simp only [List.mem_toFinset]
  · intro k v he
    rw [← sumAt_eq nodup_mergeAll (hperm.mem_iff.mp he), sumAt_mergeAll, sumAt_entriesOf,
      ← List.sum_toFinset _ (hnodup.filter _), List.toFinset_filter]
    simp only [decide_eq_true_eq]

/-- The order of the entries does not matter. -/
theorem merged_perm {es es' : List ε} (hnodup : es.Nodup) (h : es.Perm es') :
    merged (entriesOf key value es) = merged (entriesOf key value es') := by
  have hset : es'.toFinset = es.toFinset := List.toFinset_eq_of_perm _ _ h.symm
  exact (isGroupSum_merged hnodup).unique (hset ▸ isGroupSum_merged (h.nodup_iff.mp hnodup))
    merged_sorted merged_sorted

end SeoAgent.Verified
