import Mathlib

/-!
# The earliest of the best

Which element of a list has the greatest score, and of several of them stands first:
`max` with a key, in one pass over the list.

## Main results

* `earliestBest_best` — the pass finds it.
* `EarliestBest.unique` — a list has one at most.
-/

namespace SeoAgent.Verified

variable {α R : Type*} [LinearOrder R] {score : α → R} {l : List α} {a c : α}

/-- The element with the greatest score, the first of several. -/
def best (score : α → R) (a : α) (l : List α) : α :=
  l.foldl (fun best c => if score best < score c then c else best) a

/-- Everything before `c` has a smaller score, and nothing after it a greater one. -/
def EarliestBest (score : α → R) (l : List α) (c : α) : Prop :=
  ∃ before after, l = before ++ c :: after ∧ (∀ d ∈ before, score d < score c) ∧
    ∀ d ∈ after, score d ≤ score c

theorem EarliestBest.mem (h : EarliestBest score l c) : c ∈ l := by
  obtain ⟨before, after, rfl, -⟩ := h
  simp

theorem EarliestBest.le (h : EarliestBest score l c) (ha : a ∈ l) : score a ≤ score c := by
  obtain ⟨before, after, rfl, hbefore, hafter⟩ := h
  rcases List.mem_append.mp ha with hmem | hmem
  · exact (hbefore a hmem).le
  · rcases List.mem_cons.mp hmem with rfl | hmem
    · exact le_rfl
    · exact hafter a hmem

/-- The pass keeps the best of what it has seen, which stands before the rest. -/
theorem earliestBest_best (score : α → R) (a : α) (l : List α) :
    EarliestBest score (a :: l) (best score a l) := by
  induction l generalizing a with
  | nil => exact ⟨[], [], rfl, by simp, by simp⟩
  | cons b l ih =>
      show EarliestBest score (a :: b :: l) (best score (if score a < score b then b else a) l)
      by_cases hlt : score a < score b
      · rw [if_pos hlt]
        have hbest := (ih b).le (List.mem_cons_self ..)
        obtain ⟨before, after, hl, hbefore, hafter⟩ := ih b
        refine ⟨a :: before, after, by rw [hl, List.cons_append], ?_, hafter⟩
        intro d hd
        rcases List.mem_cons.mp hd with rfl | hd
        · exact hlt.trans_le hbest
        · exact hbefore d hd
      · rw [if_neg hlt]
        have hba : score b ≤ score a := not_lt.mp hlt
        have hbest := (ih a).le (List.mem_cons_self ..)
        obtain ⟨before, after, hl, hbefore, hafter⟩ := ih a
        cases before with
        | nil =>
            -- `a` itself is the best so far: `b` comes after it and is no better.
            obtain ⟨hc, rfl⟩ := List.cons.inj hl
            refine ⟨[], b :: l, by rw [← hc]; rfl, by simp, ?_⟩
            intro d hd
            rcases List.mem_cons.mp hd with rfl | hd
            · exact hba.trans hbest
            · exact hafter d hd
        | cons x before =>
            obtain ⟨rfl, htail⟩ := List.cons.inj hl
            have hx := hbefore a (List.mem_cons_self ..)
            refine ⟨a :: b :: before, after, congrArg (a :: b :: ·) htail, ?_, hafter⟩
            intro d hd
            rcases List.mem_cons.mp hd with rfl | hd
            · exact hx
            rcases List.mem_cons.mp hd with rfl | hd
            · exact hba.trans_lt hx
            · exact hbefore d (List.mem_cons_of_mem _ hd)

theorem EarliestBest.unique (h : EarliestBest score l a) (h' : EarliestBest score l c) :
    a = c := by
  obtain ⟨before, after, hl, hbefore, hafter⟩ := h
  obtain ⟨before', after', hl', hbefore', hafter'⟩ := h'
  rcases List.append_eq_append_iff.mp (hl.symm.trans hl') with ⟨t, ht, hrest⟩ | ⟨t, ht, hrest⟩
  · cases t with
    | nil => exact (List.cons.inj hrest).1
    | cons x t =>
        obtain ⟨rfl, htail⟩ := List.cons.inj hrest
        have hlt : score a < score c := hbefore' a (by rw [ht]; simp)
        have hle : score c ≤ score a := hafter c (by rw [htail]; simp)
        exact absurd hle (not_le.mpr hlt)
  · cases t with
    | nil => exact (List.cons.inj hrest).1.symm
    | cons x t =>
        obtain ⟨rfl, htail⟩ := List.cons.inj hrest
        have hlt : score c < score a := hbefore c (by rw [ht]; simp)
        have hle : score a ≤ score c := hafter' a (by rw [htail]; simp)
        exact absurd hle (not_le.mpr hlt)

/-- The earliest of the best of the elements that pass a test, said of the whole list. -/
theorem earliestBest_filter {p : α → Bool} :
    EarliestBest score (l.filter p) c ↔ ∃ before after, l = before ++ c :: after ∧
      p c = true ∧ (∀ d ∈ before, p d = true → score d < score c) ∧
      ∀ d ∈ after, p d = true → score d ≤ score c := by
  constructor
  · rintro ⟨before, after, hl, hbefore, hafter⟩
    obtain ⟨l₁, l₂, rfl, hl₁, hl₂⟩ := List.filter_eq_append_iff.mp hl
    obtain ⟨m₁, m₂, rfl, hm₁, hpc, hm₂⟩ := List.filter_eq_cons_iff.mp hl₂
    refine ⟨l₁ ++ m₁, m₂, by simp, hpc, ?_, ?_⟩
    · intro d hd hpd
      rcases List.mem_append.mp hd with hd | hd
      · exact hbefore d (hl₁ ▸ List.mem_filter.mpr ⟨hd, hpd⟩)
      · exact absurd hpd (hm₁ d hd)
    · intro d hd hpd
      exact hafter d (hm₂ ▸ List.mem_filter.mpr ⟨hd, hpd⟩)
  · rintro ⟨before, after, rfl, hpc, hbefore, hafter⟩
    refine ⟨before.filter p, after.filter p, by simp [hpc], ?_, ?_⟩
    · intro d hd
      obtain ⟨hd, hpd⟩ := List.mem_filter.mp hd
      exact hbefore d hd hpd
    · intro d hd
      obtain ⟨hd, hpd⟩ := List.mem_filter.mp hd
      exact hafter d hd hpd

end SeoAgent.Verified
