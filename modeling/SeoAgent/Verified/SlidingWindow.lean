import Mathlib.Algebra.Order.Group.Defs
import Mathlib.Data.List.Pairwise
import Mathlib.Data.List.TakeWhile

/-!
# Times in a sliding window

A list of entries `StandsFor` a list of times from a time on when, counted from any later
time, there are at least as many entries. Whoever lets something through only while few
entries are left keeps the times `Bounded`: few of them in every window of a length.

## Main results

* `StandsFor.expire`, `StandsFor.add`, `StandsFor.pop` — entries that go or come.
* `Bounded.add` — a time is let through while few entries are left.
-/

namespace SeoAgent.Verified.SlidingWindow

section Order
variable {α : Type} [LinearOrder α] {cut cut' t x : α} {entries times : List α}

/-- How many are at or after a time. -/
def since (t : α) (l : List α) : Nat := l.countP (t ≤ ·)

theorem since_append (t : α) (l m : List α) : since t (l ++ m) = since t l + since t m :=
  List.countP_append

theorem since_le_length (t : α) (l : List α) : since t l ≤ l.length := List.countP_le_length

/-- Counted from any time from `cut` on, there are at least as many entries. -/
def StandsFor (cut : α) (entries times : List α) : Prop :=
  ∀ t, cut ≤ t → since t times ≤ since t entries

theorem StandsFor.nil (entries : List α) : StandsFor cut entries [] :=
  fun _ _ => Nat.zero_le _

theorem StandsFor.later (h : StandsFor cut entries times) (hcut : cut ≤ cut') :
    StandsFor cut' entries times :=
  fun t ht => h t (hcut.trans ht)

/-- An entry comes. -/
theorem StandsFor.entry (h : StandsFor cut entries times) (x : α) :
    StandsFor cut (entries ++ [x]) times := by
  intro t ht
  rw [since_append]
  exact (h t ht).trans (Nat.le_add_right _ _)

/-- An entry comes for a time. -/
theorem StandsFor.add (h : StandsFor cut entries times) (x : α) :
    StandsFor cut (entries ++ [x]) (times ++ [x]) := by
  intro t ht
  rw [since_append, since_append]
  exact Nat.add_le_add_right (h t ht) _

/-- Entries before the cut go. -/
theorem StandsFor.expire {old : α → Bool} (h : StandsFor cut entries times)
    (hold : ∀ x, old x = true → x < cut) : StandsFor cut (entries.dropWhile old) times := by
  intro t ht
  have hgone : since t (entries.takeWhile old) = 0 := by
    refine List.countP_eq_zero.mpr fun x hx htx => ?_
    have hlt : x < cut := hold x (List.mem_takeWhile_imp hx)
    exact absurd ((of_decide_eq_true htx).trans_lt hlt) ht.not_gt
  have hsplit : since t entries = since t (entries.dropWhile old) := by
    conv_lhs => rw [← List.takeWhile_append_dropWhile (p := old) (l := entries)]
    rw [since_append, hgone, Nat.zero_add]
  exact hsplit ▸ h t ht

/-- The last entry goes, and with it the latest time. -/
theorem StandsFor.pop (h : StandsFor cut entries times) (hx : x ∈ times)
    (hlatest : ∀ t ∈ times, t ≤ x) : StandsFor cut entries.dropLast (times.erase x) := by
  intro t ht
  rcases le_or_gt t x with htx | hxt
  · have htimes : since t times = since t (times.erase x) + 1 := by
      have hperm : since t times = since t (x :: times.erase x) :=
        (List.perm_cons_erase hx).countP_eq _
      rw [hperm]
      exact List.countP_cons_of_pos (decide_eq_true htx)
    have hentries : since t entries ≤ since t entries.dropLast + 1 := by
      rcases entries.eq_nil_or_concat with rfl | ⟨front, last, rfl⟩
      · exact Nat.zero_le _
      · rw [List.concat_eq_append, List.dropLast_concat, since_append]
        exact Nat.add_le_add_left (since_le_length t [last]) _
    have hle := h t ht
    omega
  · have hnone : since t (times.erase x) = 0 := by
      refine List.countP_eq_zero.mpr fun y hy hty => ?_
      have hyx := hlatest y (List.mem_of_mem_erase hy)
      exact absurd ((of_decide_eq_true hty).trans hyx) hxt.not_ge
    rw [hnone]
    exact Nat.zero_le _

end Order

section Windows
variable {α : Type} [LinearOrder α] [AddCommGroup α] [IsOrderedAddMonoid α]
variable {n : Int} {length now : α} {times less : List α}

/-- How many are in the window that starts at a time. -/
def inWindow (length start : α) (l : List α) : Nat :=
  l.countP fun t => start ≤ t ∧ t ≤ start + length

/-- No window of the length has more than `n`. -/
def Bounded (n : Int) (length : α) (times : List α) : Prop :=
  ∀ start, (inWindow length start times : Int) ≤ n

omit [IsOrderedAddMonoid α] in
theorem Bounded.nil (hn : 0 ≤ n) : Bounded n length [] := fun _ => hn

omit [IsOrderedAddMonoid α] in
theorem Bounded.sublist (h : Bounded n length times) (hsub : less.Sublist times) :
    Bounded n length less := by
  intro start
  have hle : inWindow length start less ≤ inWindow length start times := hsub.countP_le
  exact le_trans (Int.ofNat_le.mpr hle) (h start)

/-- One more, when there are fewer than `n` within the length before it. -/
theorem Bounded.add (h : Bounded n length times) (hfew : (since (now - length) times : Int) < n) :
    Bounded n length (times ++ [now]) := by
  intro start
  have hsplit : inWindow length start (times ++ [now]) =
      inWindow length start times + inWindow length start [now] := List.countP_append
  rw [hsplit]
  by_cases hin : start ≤ now ∧ now ≤ start + length
  · have hone : inWindow length start [now] = 1 := by simp [inWindow, hin]
    have hle : inWindow length start times ≤ since (now - length) times := by
      refine List.countP_mono_left fun t _ ht => ?_
      have hstart : now - length ≤ start := sub_le_iff_le_add.mpr hin.2
      exact decide_eq_true (hstart.trans (of_decide_eq_true ht).1)
    rw [hone]
    omega
  · have hnone : inWindow length start [now] = 0 := by simp [inWindow, hin]
    rw [hnone, Nat.add_zero]
    exact h start

end Windows

end SeoAgent.Verified.SlidingWindow
