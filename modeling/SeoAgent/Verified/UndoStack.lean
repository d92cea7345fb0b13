import Mathlib.Data.List.Nodup

/-!
# Changes of a value that can be taken back

A change has a value it found and a value it left. Changes are stacked when the
first found a base value, every next one found what the one before it left, and
the value is what the last one left. The last one can be taken back, which
leaves what it found; when the values the changes left are different, the value
alone tells which change is the last.

## Main results

* `Stacked.push`, `Stacked.pop` — a change on top, and taking it back.
* `Stacked.top` — the change that left the value is the last one.
* `Stacked.replay` — the changes in order lead to the value.
-/

namespace SeoAgent.Verified

/-- The changes `cs`, oldest first, lead from `base` to a value. -/
def Stacked {C α : Type} (found left : C → α) (base : α) : List C → α → Prop
  | [], v => v = base
  | c :: cs, v => found c = base ∧ Stacked found left (left c) cs v

namespace Stacked

variable {C α : Type} {found left : C → α} {base v : α} {c : C} {cs ds : List C}

/-- A change of the value goes on top. -/
theorem push (h : Stacked found left base cs v) (hc : found c = v) :
    Stacked found left base (cs ++ [c]) (left c) := by
  induction cs generalizing base with
  | nil => exact ⟨hc.trans h, rfl⟩
  | cons d cs ih => exact ⟨h.1, ih h.2⟩

/-- The last change left the value, and without it the value is what it found. -/
theorem pop (h : Stacked found left base (cs ++ [c]) v) :
    v = left c ∧ Stacked found left base cs (found c) := by
  induction cs generalizing base with
  | nil => exact ⟨h.2, h.1⟩
  | cons d cs ih => exact ⟨(ih h.2).1, h.1, (ih h.2).2⟩

/-- The later changes are stacked on what the earlier ones led to. -/
theorem of_append (h : Stacked found left base (cs ++ ds) v) :
    ∃ mid, Stacked found left base cs mid ∧ Stacked found left mid ds v := by
  induction cs generalizing base with
  | nil => exact ⟨base, rfl, h⟩
  | cons d cs ih =>
      obtain ⟨mid, h₁, h₂⟩ := ih h.2
      exact ⟨mid, ⟨h.1, h₁⟩, h₂⟩

theorem of_suffix (h : Stacked found left base cs v) (hs : ds <:+ cs) :
    ∃ mid, Stacked found left mid ds v := by
  obtain ⟨front, rfl⟩ := hs
  obtain ⟨mid, -, hds⟩ := h.of_append
  exact ⟨mid, hds⟩

/-- When all changes left different values, the one that left the present value
is the last. -/
theorem top (h : Stacked found left base cs v) (hn : (cs.map left).Nodup) (hc : c ∈ cs)
    (hv : left c = v) : ∃ front, cs = front ++ [c] := by
  rcases List.eq_nil_or_concat cs with rfl | ⟨front, d, rfl⟩
  · cases hc
  · obtain ⟨hd, -⟩ := pop (by rwa [List.concat_eq_append] at h)
    rw [List.concat_eq_append] at hn hc ⊢
    have hd' : d ∈ front ++ [d] := by simp
    obtain rfl := List.inj_on_of_nodup_map hn hc hd' (hv.trans hd)
    exact ⟨front, rfl⟩

/-- The changes in order lead from the base to the value. -/
theorem replay (h : Stacked found left base cs v) :
    cs.foldl (fun _ c => left c) base = v := by
  induction cs generalizing base with
  | nil => exact h.symm
  | cons d cs ih => exact ih h.2

end Stacked

end SeoAgent.Verified
