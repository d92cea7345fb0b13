import Mathlib.Data.List.Basic

/-!
# Versions in order

The versions of a record are a list to which each write adds one at the end. Where each new
version is related to the last one, and the relation carries over, all of them are related in
their order; a version that is not before the last one is then the last one itself.

## Main results

* `pairwise_concat` — one more version keeps the order.
* `eq_last` — what is not before the last version.
-/

namespace SeoAgent.Verified.Versions

variable {α : Type} {R : α → α → Prop} {vs : List α} {u v x : α}

/-- Every version but the last is before it. -/
theorem before_last (h : vs.Pairwise R) (hlast : vs.getLast? = some u) (hx : x ∈ vs) :
    R x u ∨ x = u := by
  obtain ⟨front, rfl⟩ := List.getLast?_eq_some_iff.mp hlast
  rcases List.mem_append.mp hx with hx | hx
  · exact .inl ((List.pairwise_append.mp h).2.2 x hx u List.mem_cons_self)
  · exact .inr (List.mem_singleton.mp hx)

/-- One more version, related to the last one, keeps the order. -/
theorem pairwise_concat (h : vs.Pairwise R) (hlast : vs.getLast? = some u) (huv : R u v)
    (hcarry : ∀ x, R x u → R x v) : (vs ++ [v]).Pairwise R := by
  refine List.pairwise_append.mpr ⟨h, List.pairwise_singleton _ _, fun x hx y hy => ?_⟩
  rw [List.mem_singleton.mp hy]
  rcases before_last h hlast hx with hbefore | rfl
  · exact hcarry x hbefore
  · exact huv

/-- What is not before the last version is the last one. -/
theorem eq_last (h : vs.Pairwise R) (hlast : vs.getLast? = some u) (hx : x ∈ vs)
    (hnot : ¬R x u) : x = u :=
  (before_last h hlast hx).resolve_left hnot

end SeoAgent.Verified.Versions
