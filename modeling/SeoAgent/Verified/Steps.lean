/-!
# Runs of a partial step function

A system with one step function `step : σ → α → Option σ`, deterministic once
the action is chosen: which party moves, what the outside answers and where
something fails are all part of the action. `Steps step good s₀ s` says that `s`
is reached from `s₀` by steps that each meet `good`, a condition on the state
before the step and on the action.

## Main results

* `Steps.of_stepsIf` — a list of actions that evaluates is a run.
* `Steps.invariant` — what every step preserves holds of every reachable state.
* `Steps.related` — a reflexive and transitive relation that every step
  satisfies relates the two ends of a run.
-/

namespace SeoAgent.Verified

variable {σ α : Type} {step : σ → α → Option σ} {good : σ → α → Prop} {s₀ s t : σ}

/-- `s` is reached from `s₀` by steps that each meet `good`. -/
inductive Steps (step : σ → α → Option σ) (good : σ → α → Prop) (s₀ : σ) : σ → Prop
  | start : Steps step good s₀ s₀
  | next {s s' : σ} (a : α) (before : Steps step good s₀ s) (ok : good s a)
      (stepped : step s a = some s') : Steps step good s₀ s'

/-- No condition. -/
def anyStep : σ → α → Prop := fun _ _ => True

instance (s : σ) (a : α) : Decidable (anyStep s a) := .isTrue trivial

/-- The state after a list of actions that each meet a condition. -/
def stepsIf (step : σ → α → Option σ) (good : σ → α → Prop) [∀ s a, Decidable (good s a)] :
    σ → List α → Option σ
  | s, [] => some s
  | s, a :: as =>
      if good s a then (step s a).bind fun s' => stepsIf step good s' as else none

namespace Steps

theorem trans (h₁ : Steps step good s₀ s) (h₂ : Steps step good s t) : Steps step good s₀ t := by
  induction h₂ with
  | start => exact h₁
  | next a _ ok stepped ih => exact .next a ih ok stepped

/-- Actions that evaluate and each meet the condition make a run. -/
theorem of_stepsIf [∀ s a, Decidable (good s a)] {as : List α}
    (h : stepsIf step good s as = some t) : Steps step good s t := by
  induction as generalizing s with
  | nil =>
      cases h
      exact .start
  | cons a as ih =>
      simp only [stepsIf] at h
      split at h
      · next hg =>
          obtain ⟨s', hs, ht⟩ := Option.bind_eq_some_iff.mp h
          exact (Steps.next a .start hg hs).trans (ih ht)
      · cases h

/-- What holds at the start and is preserved by every step holds throughout. -/
theorem invariant {P : σ → Prop} (h₀ : P s₀)
    (hstep : ∀ s a s', P s → good s a → step s a = some s' → P s')
    (h : Steps step good s₀ s) : P s := by
  induction h with
  | start => exact h₀
  | next a _ ok stepped ih => exact hstep _ a _ ih ok stepped

/-- What relates the state before a step to the state after it relates the ends
of a run. -/
theorem related {R : σ → σ → Prop} (hrefl : ∀ s, R s s) (htrans : ∀ a b c, R a b → R b c → R a c)
    (hstep : ∀ s a s', step s a = some s' → R s s') (h : Steps step good s₀ s) : R s₀ s := by
  induction h with
  | start => exact hrefl _
  | next a _ _ stepped ih => exact htrans _ _ _ ih (hstep _ a _ stepped)

end Steps

end SeoAgent.Verified
