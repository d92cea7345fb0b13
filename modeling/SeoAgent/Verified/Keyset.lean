import Mathlib.Data.List.Sort
import Mathlib.Order.Lattice

/-!
# Keyset pagination

A listing is shown newest first in pages. A page carries the key of its last item, and
the next one shows what is below that key: there is no offset, so what is added above
the key between two pages neither moves nor repeats anything.

`page` is one page of a listing, `follow` asks page after page while the listing
changes in between. The keys are from any linear order, and a cursor may carry a key in
any encoding.

## Main results

* `page_items_pairwise`, `mem_page_items` — a page is in strictly descending order, and
  what it leaves out is below its cursor or not below the one before.
* `mem_take_newestFirst_iff` — what the first page shows has fewer above it than its limit.
* `follow_complete` — following the cursors ends, and shows every item that stays in
  the listing exactly once, in strictly descending order.
-/

namespace SeoAgent.Verified.Keyset

variable {α κ : Type} [LinearOrder κ] (key : α → κ)

/-! ## One page -/

/-- Newest first; items of one key stay in their order. -/
def newestFirst (xs : List α) : List α := xs.insertionSort fun a b => key b ≤ key a

/-- What is below a cursor, if there is one. -/
def below (cursor : Option κ) (xs : List α) : List α :=
  match cursor with
  | none => xs
  | some k => xs.filter fun x => key x < k

/-- One page of a listing, and the key the next one starts below. -/
def page (limit : Nat) (cursor : Option κ) (xs : List α) : List α × Option κ :=
  let rest := below key cursor (newestFirst key xs)
  (rest.take limit, if limit < rest.length then (rest.take limit).getLast?.map key else none)

section Page
variable {key} {xs : List α} {cursor : Option κ} {limit : Nat}

theorem mem_below {x : α} :
    x ∈ below key cursor xs ↔ x ∈ xs ∧ ∀ k, cursor = some k → key x < k := by
  cases cursor with
  | none => simp [below]
  | some k => simp [below, List.mem_filter]

theorem mem_newestFirst {x : α} : x ∈ newestFirst key xs ↔ x ∈ xs := List.mem_insertionSort _

theorem below_sublist : (below key cursor xs).Sublist xs := by
  cases cursor with
  | none => exact List.Sublist.refl _
  | some k => exact List.filter_sublist

/-- Items whose keys differ are in strictly descending order. -/
theorem newestFirst_pairwise (h : (xs.map key).Nodup) :
    (newestFirst key xs).Pairwise fun a b => key b < key a := by
  have hle : (newestFirst key xs).Pairwise fun a b => key b ≤ key a :=
    haveI : Std.Total fun a b : α => key b ≤ key a := ⟨fun a b => le_total (key b) (key a)⟩
    haveI : IsTrans α fun a b => key b ≤ key a := ⟨fun _ _ _ hab hbc => hbc.trans hab⟩
    List.pairwise_insertionSort _ xs
  have hne : (newestFirst key xs).Pairwise fun a b => key a ≠ key b := by
    rw [← List.pairwise_map (R := fun a b : κ => a ≠ b)]
    exact (((List.perm_insertionSort _ xs).map key).nodup_iff).mpr h
  exact (hle.and hne).imp fun ⟨hle, hne⟩ => lt_of_le_of_ne hle (Ne.symm hne)

/-- What is shown at a cursor, all pages together. -/
theorem below_pairwise (h : (xs.map key).Nodup) :
    (below key cursor (newestFirst key xs)).Pairwise fun a b => key b < key a :=
  (newestFirst_pairwise h).sublist below_sublist

/-- Cutting at the cursor before sorting, from any order, makes no difference. -/
theorem newestFirst_below {ys : List α} (hperm : ys.Perm (below key cursor xs))
    (h : (xs.map key).Nodup) : newestFirst key ys = below key cursor (newestFirst key xs) := by
  have hys : (ys.map key).Nodup :=
    ((hperm.map key).nodup_iff).mpr (h.sublist (below_sublist.map key))
  have hcut : (below key cursor (newestFirst key xs)).Perm (below key cursor xs) := by
    cases cursor with
    | none => exact List.perm_insertionSort _ xs
    | some k => exact (List.perm_insertionSort _ xs).filter _
  have hsame : (newestFirst key ys).Perm (below key cursor (newestFirst key xs)) :=
    ((List.perm_insertionSort _ ys).trans hperm).trans hcut.symm
  exact List.Perm.eq_of_pairwise (fun a b _ _ hab hba => absurd hab (lt_asymm hba))
    (newestFirst_pairwise hys) (below_pairwise h) hsame

theorem page_items_pairwise (h : (xs.map key).Nodup) :
    (page key limit cursor xs).1.Pairwise fun a b => key b < key a :=
  (below_pairwise h).sublist (List.take_sublist _ _)

/-- What is among the first few of a descending list has fewer above it. -/
theorem mem_take_iff_of_pairwise {n : Nat} {x : α}
    (h : xs.Pairwise fun a b => key b < key a) :
    x ∈ xs.take n ↔ x ∈ xs ∧ (xs.filter fun y => key x < key y).length < n := by
  induction xs generalizing n with
  | nil => simp
  | cons first rest ih =>
      obtain ⟨hfirst, hrest⟩ := List.pairwise_cons.mp h
      cases n with
      | zero => simp
      | succ n =>
          rw [List.take_succ_cons, List.mem_cons, List.mem_cons, ih hrest, List.filter_cons]
          constructor
          · rintro (rfl | ⟨hin, hlt⟩)
            · have hnone : rest.filter (fun y => key x < key y) = [] :=
                List.filter_eq_nil_iff.mpr fun y hy hlt =>
                  lt_asymm (hfirst y hy) (of_decide_eq_true hlt)
              rw [hnone, if_neg (by simp)]
              exact ⟨Or.inl rfl, Nat.succ_pos n⟩
            · rw [if_pos (decide_eq_true (hfirst x hin)), List.length_cons]
              exact ⟨Or.inr hin, Nat.succ_lt_succ hlt⟩
          · rintro ⟨rfl | hin, hlt⟩
            · exact Or.inl rfl
            · rw [if_pos (decide_eq_true (hfirst x hin)), List.length_cons] at hlt
              exact Or.inr ⟨hin, Nat.lt_of_succ_lt_succ hlt⟩

/-- The newest few of items whose keys differ. -/
theorem mem_take_newestFirst_iff {n : Nat} {x : α} (h : (xs.map key).Nodup) :
    x ∈ (newestFirst key xs).take n ↔
      x ∈ xs ∧ (xs.filter fun y => key x < key y).length < n := by
  have hperm : (newestFirst key xs).Perm xs := List.perm_insertionSort _ xs
  rw [mem_take_iff_of_pairwise (newestFirst_pairwise h), mem_newestFirst,
    (hperm.filter _).length_eq]

/-- The last page shows everything that is left. -/
theorem page_last (h : (page key limit cursor xs).2 = none) (hlimit : 0 < limit) {x : α}
    (hx : x ∈ xs) (hbelow : ∀ k, cursor = some k → key x < k) :
    x ∈ (page key limit cursor xs).1 := by
  have hmem : x ∈ below key cursor (newestFirst key xs) :=
    mem_below.mpr ⟨mem_newestFirst.mpr hx, hbelow⟩
  simp only [page] at h ⊢
  split at h
  · next hlt =>
      have hnil : (below key cursor (newestFirst key xs)).take limit = [] :=
        List.getLast?_eq_none_iff.mp (Option.map_eq_none_iff.mp h)
      rcases List.take_eq_nil_iff.mp hnil with hzero | hempty
      · omega
      · rw [hempty] at hmem
        cases hmem
  · next hle => rwa [List.take_of_length_le (not_lt.mp hle)]

theorem page_items_below {x : α} (hx : x ∈ (page key limit cursor xs).1) :
    x ∈ xs ∧ ∀ k, cursor = some k → key x < k := by
  obtain ⟨hmem, hbelow⟩ := mem_below.mp (List.mem_of_mem_take hx)
  exact ⟨mem_newestFirst.mp hmem, hbelow⟩

/-- A page that is not the last one ends at its cursor, and shows what is above it. -/
theorem page_next {k : κ} (h : (page key limit cursor xs).2 = some k)
    (hkeys : (xs.map key).Nodup) :
    (∃ x ∈ (page key limit cursor xs).1, key x = k) ∧
      (∀ x ∈ (page key limit cursor xs).1, k ≤ key x) ∧
      ∀ x ∈ xs, (∀ k', cursor = some k' → key x < k') → k ≤ key x →
        x ∈ (page key limit cursor xs).1 := by
  have hsorted : (below key cursor (newestFirst key xs)).Pairwise fun a b => key b < key a :=
    below_pairwise hkeys
  simp only [page] at h ⊢
  split at h
  case isFalse => cases h
  obtain ⟨last, hlast, rfl⟩ := Option.map_eq_some_iff.mp h
  generalize hrest : below key cursor (newestFirst key xs) = rest at *
  obtain ⟨front, hfront⟩ := List.getLast?_eq_some_iff.mp hlast
  have hsplit : rest = front ++ ([last] ++ rest.drop limit) := by
    rw [← List.append_assoc, ← hfront, List.take_append_drop]
  rw [hsplit, List.pairwise_append] at hsorted
  obtain ⟨-, htail, hacross⟩ := hsorted
  rw [hfront]
  refine ⟨⟨last, by simp, rfl⟩, fun x hx => ?_, fun x hx hbelow hle => ?_⟩
  · rcases List.mem_append.mp hx with hx | hx
    · exact (hacross x hx last (by simp)).le
    · rw [List.mem_singleton.mp hx]
  · have hmem : x ∈ rest := hrest ▸ mem_below.mpr ⟨mem_newestFirst.mpr hx, hbelow⟩
    rw [hsplit, ← List.append_assoc] at hmem
    rcases List.mem_append.mp hmem with hmem | hmem
    · exact hmem
    · rw [List.singleton_append, List.pairwise_cons] at htail
      exact absurd (htail.1 x hmem) (not_lt.mpr hle)

end Page

/-! ## Page after page -/

section Follow
variable {ε γ : Type}

/-- Asks for the next page as long as there is a cursor, the `i`-th time of the `i`-th
listing; `none` when that has not ended after so many pages. -/
def follow (query : Nat → Option γ → Except ε (List α × Option γ)) :
    (fuel i : Nat) → Option γ → Except ε (Option (List α))
  | 0, _, _ => .ok none
  | fuel + 1, i, cursor =>
      (query i cursor).bind fun p =>
        match p.2 with
        | none => .ok (some p.1)
        | some next => (follow query fuel (i + 1) (some next)).map (Option.map (p.1 ++ ·))

variable {key} {encode : κ → γ} {listing : Nat → List α} {limit : Nat}
  {query : Nat → Option γ → Except ε (List α × Option γ)}

/-- A cursor that is the key of an item. -/
def Carries (key : α → κ) (listing : Nat → List α) (cursor : Option κ) : Prop :=
  ∀ k, cursor = some k → ∃ i, ∃ x ∈ listing i, key x = k

/-- The queries show the pages of the listings, with the keys of items encoded. -/
def Shows (key : α → κ) (encode : κ → γ) (limit : Nat) (listing : Nat → List α)
    (query : Nat → Option γ → Except ε (List α × Option γ)) : Prop :=
  ∀ i cursor, Carries key listing cursor →
    query i (cursor.map encode) =
      .ok ((page key limit cursor (listing i)).1,
        (page key limit cursor (listing i)).2.map encode)

/-- Between two pages nothing is added but what is newer than all that was there. -/
def OnlyNewer (key : α → κ) (listing : Nat → List α) : Prop :=
  ∀ i, ∀ x ∈ listing (i + 1), x ∈ listing i ∨ ∀ y ∈ listing i, key y < key x

/-- What is left below the end of a page is fewer. -/
theorem below_length_lt {cursor : Option κ} {i : Nat} {k : κ}
    (hkeys : ∀ i, ((listing i).map key).Nodup) (hnewer : OnlyNewer key listing)
    (h : (page key limit cursor (listing i)).2 = some k) :
    (below key (some k) (listing (i + 1))).length < (below key cursor (listing i)).length := by
  obtain ⟨⟨last, hlast, hk⟩, -, -⟩ := page_next h (hkeys i)
  obtain ⟨hmem, hbelow⟩ := page_items_below hlast
  have hnodup : (last :: below key (some k) (listing (i + 1))).Nodup := by
    refine List.nodup_cons.mpr ⟨fun hin => ?_, ?_⟩
    · exact absurd ((mem_below.mp hin).2 k rfl) (not_lt.mpr hk.ge)
    · exact (List.Nodup.of_map key (hkeys (i + 1))).sublist below_sublist
  have hsub : last :: below key (some k) (listing (i + 1)) ⊆ below key cursor (listing i) := by
    intro x hx
    rcases List.mem_cons.mp hx with rfl | hx
    · exact mem_below.mpr ⟨hmem, hbelow⟩
    · obtain ⟨hx, hlt⟩ := mem_below.mp hx
      have hxk : key x < k := hlt k rfl
      rcases hnewer i x hx with hold | hnew
      · exact mem_below.mpr ⟨hold, fun k' hk' => hxk.trans (hk ▸ hbelow k' hk')⟩
      · exact absurd (hk ▸ hnew last hmem) (not_lt.mpr hxk.le)
  exact (List.subperm_of_subset hnodup hsub).length_le

/-- Following the cursors from one page on. -/
theorem follow_from (hlimit : 0 < limit) (hkeys : ∀ i, ((listing i).map key).Nodup)
    (hnewer : OnlyNewer key listing) (hshows : Shows key encode limit listing query)
    (fuel i : Nat) (cursor : Option κ) (hcarries : Carries key listing cursor)
    (hfuel : (below key cursor (listing i)).length < fuel) :
    ∃ all, follow query fuel i (cursor.map encode) = .ok (some all) ∧
      all.Pairwise (fun a b => key b < key a) ∧
      (∀ x ∈ all, (∀ k, cursor = some k → key x < k) ∧ ∃ j, x ∈ listing j) ∧
      ∀ x, (∀ j, i ≤ j → x ∈ listing j) → (∀ k, cursor = some k → key x < k) → x ∈ all := by
  induction fuel generalizing i cursor with
  | zero => exact absurd hfuel (Nat.not_lt_zero _)
  | succ fuel ih =>
      have hquery := hshows i cursor hcarries
      cases hnext : (page key limit cursor (listing i)).2 with
      | none =>
          refine ⟨(page key limit cursor (listing i)).1, ?_, page_items_pairwise (hkeys i),
            fun x hx => ?_, fun x hx hbelow => ?_⟩
          · rw [follow, hquery, hnext]
            rfl
          · obtain ⟨hmem, hbelow⟩ := page_items_below hx
            exact ⟨hbelow, i, hmem⟩
          · exact page_last hnext hlimit (hx i le_rfl) hbelow
      | some k =>
          obtain ⟨⟨last, hlast, hk⟩, hends, habove⟩ := page_next hnext (hkeys i)
          obtain ⟨hmem, hbelow⟩ := page_items_below hlast
          have hlt := below_length_lt hkeys hnewer hnext
          have hcarries' : Carries key listing (some k) := fun k' hk' =>
            ⟨i, last, hmem, hk.trans (Option.some.inj hk')⟩
          obtain ⟨rest, hrest, hsorted, hfound, hall⟩ :=
            ih (i + 1) (some k) hcarries' (by omega)
          refine ⟨(page key limit cursor (listing i)).1 ++ rest, ?_, ?_, fun x hx => ?_,
            fun x hx hxbelow => ?_⟩
          · rw [follow, hquery, hnext]
            simp only [Except.bind, Option.map_some]
            rw [show some (encode k) = (some k).map encode from rfl, hrest]
            rfl
          · refine List.pairwise_append.mpr ⟨page_items_pairwise (hkeys i), hsorted, ?_⟩
            exact fun a ha b hb => ((hfound b hb).1 k rfl).trans_le (hends a ha)
          · rcases List.mem_append.mp hx with hx | hx
            · obtain ⟨hmem, hbelow⟩ := page_items_below hx
              exact ⟨hbelow, i, hmem⟩
            · obtain ⟨hxk, hin⟩ := hfound x hx
              exact ⟨fun k' hk' => (hxk k rfl).trans (hk ▸ hbelow k' hk'), hin⟩
          · rcases lt_or_ge (key x) k with hxk | hxk
            · refine List.mem_append_right _ (hall x (fun j hj => hx j (by omega)) ?_)
              exact fun k' hk' => Option.some.inj hk' ▸ hxk
            · exact List.mem_append_left _ (habove x (hx i le_rfl) hxbelow hxk)

/-- Following the cursors ends, whatever newer items are added between the pages: what
is shown is in strictly descending order, and has every item that stays. -/
theorem follow_complete (hlimit : 0 < limit) (hkeys : ∀ i, ((listing i).map key).Nodup)
    (hnewer : OnlyNewer key listing) (hshows : Shows key encode limit listing query) :
    ∃ fuel all, follow query fuel 0 none = .ok (some all) ∧
      all.Pairwise (fun a b => key b < key a) ∧ (∀ x ∈ all, ∃ i, x ∈ listing i) ∧
      ∀ x, (∀ i, x ∈ listing i) → x ∈ all := by
  obtain ⟨all, hall, hsorted, hfound, hcomplete⟩ := follow_from hlimit hkeys hnewer hshows
    ((below key none (listing 0)).length + 1) 0 none (fun _ h => by cases h) (by omega)
  exact ⟨_, all, hall, hsorted, fun x hx => (hfound x hx).2,
    fun x hx => hcomplete x (fun j _ => hx j) fun _ h => by cases h⟩

end Follow

end SeoAgent.Verified.Keyset
