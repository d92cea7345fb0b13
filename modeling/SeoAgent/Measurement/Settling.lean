import SeoAgent.Measurement.Runner
import SeoAgent.Verified.Steps

/-!
# Rounds of measurement

Rounds of one or several servers look at actions, and each that has an outcome goes
on to record it in one transaction, which others may have forestalled. What a round
looked at (the clock, the action, the ledger, the rows) is arbitrary, and so is what
has become of them by the next round.

An outcome that is recorded already is recorded again without a look at the data. It
was worked out by an earlier round, so every settlement goes back to a round whose
data was there or whose deadline had passed.

## Main results

* `Inv.next` — what is recorded was worked out by a round.
* `settles_iff` — when a round does what it is meant to, in every reachable state.
-/

namespace SeoAgent.Measurement

open Verified Ports Features

/-! ## Rounds -/

structure State where
  outcomes : String → Option MeasuredOutcome := fun _ => none
  /-- The transactions under way: an action and the outcome it is settled with. -/
  recording : List (String × MeasuredOutcome) := []
  /-- What the rounds so far looked at, the last one first. -/
  looks : List Look := []

inductive Action
  | round (look : Look)
  | commit (k : Nat)
  /-- The transaction is refused, or its process goes. -/
  | abandon (k : Nat)

def State.outcomeOf (s : State) (look : Look) : Option MeasuredOutcome :=
  s.outcomes look.managed.actionId

/-- `_save_outcome`: what is recorded stays. -/
def State.record (s : State) (actionId : String) (outcome : MeasuredOutcome) : State :=
  { s with outcomes := fun i =>
      if i = actionId then some ((s.outcomes actionId).getD outcome) else s.outcomes i }

def step (settings : Settings) (s : State) : Action → Option State
  | .round look =>
      match look.settle settings (s.outcomeOf look) with
      | .ok (some outcome) =>
          some { s with
            recording := s.recording ++ [(look.managed.actionId, outcome)]
            looks := look :: s.looks }
      | _ => some { s with looks := look :: s.looks }
  | .commit k =>
      match s.recording[k]? with
      | none => none
      | some (actionId, outcome) =>
          some { s.record actionId outcome with recording := s.recording.eraseIdx k }
  | .abandon k =>
      if k < s.recording.length then some { s with recording := s.recording.eraseIdx k }
      else none

/-! ## Where an outcome comes from -/

variable {settings : Settings} {s s' : State} {look : Look} {looks : List Look}
  {actionId : String} {outcome : MeasuredOutcome}

/-- A round worked the outcome out, with the data there or the deadline passed. -/
def WorkedOut (settings : Settings) (looks : List Look) (actionId : String)
    (outcome : MeasuredOutcome) : Prop :=
  ∃ look ∈ looks, look.managed.actionId = actionId ∧
    (∃ w ∈ look.windows settings, look.Accounted settings w) ∧
    look.settle settings none = .ok (some outcome)

theorem WorkedOut.cons (h : WorkedOut settings looks actionId outcome) (look : Look) :
    WorkedOut settings (look :: looks) actionId outcome := by
  obtain ⟨earlier, hmem, hrest⟩ := h
  exact ⟨earlier, List.mem_cons_of_mem _ hmem, hrest⟩

/-- What is recorded or being recorded was worked out. -/
structure Inv (settings : Settings) (s : State) : Prop where
  outcomes : ∀ actionId, ∀ outcome ∈ s.outcomes actionId,
    WorkedOut settings s.looks actionId outcome
  recording : ∀ r ∈ s.recording, WorkedOut settings s.looks r.1 r.2

theorem Inv.start : Inv settings {} :=
  ⟨fun _ _ h => absurd h (Option.not_mem_none _), fun _ h => absurd h List.not_mem_nil⟩

/-- What a round settles with was worked out, by itself or by an earlier round. -/
theorem Inv.settle (h : Inv settings s)
    (hsettle : look.settle settings (s.outcomeOf look) = .ok (some outcome)) :
    WorkedOut settings (look :: s.looks) look.managed.actionId outcome := by
  cases hstored : s.outcomeOf look with
  | some earlier =>
      rw [hstored] at hsettle
      have hsame : earlier = outcome := by
        rcases look.settle_stored settings earlier with hnone | hsome
        · rw [hnone] at hsettle
          cases hsettle
        · rw [hsome] at hsettle
          exact Option.some.inj (Except.ok.inj hsettle)
      exact hsame ▸ (h.outcomes _ earlier hstored).cons look
  | none =>
      rw [hstored] at hsettle
      by_cases hready : look.Ready settings
      · exact ⟨look, List.mem_cons_self, rfl, hready.2.2, hsettle⟩
      · rw [Look.settle_of_not_ready hready] at hsettle
        cases hsettle

theorem Inv.next {a : Action} (h : Inv settings s) (hstep : step settings s a = some s') :
    Inv settings s' := by
  cases a with
  | round look =>
      unfold step at hstep
      dsimp only at hstep
      split at hstep
      · next outcome hsettle =>
          cases hstep
          refine ⟨fun i o ho => (h.outcomes i o ho).cons look, fun r hr => ?_⟩
          rcases List.mem_append.mp hr with hold | hnew
          · exact (h.recording r hold).cons look
          · rw [List.mem_singleton.mp hnew]
            exact h.settle hsettle
      · cases hstep
        exact ⟨fun i o ho => (h.outcomes i o ho).cons look,
          fun r hr => (h.recording r hr).cons look⟩
  | commit k =>
      unfold step at hstep
      dsimp only at hstep
      split at hstep
      · cases hstep
      · next actionId outcome hk =>
          cases hstep
          have hnew := h.recording _ (List.mem_of_getElem? hk)
          refine ⟨fun i o ho => ?_, fun r hr => h.recording r (List.mem_of_mem_eraseIdx hr)⟩
          replace ho : (if i = actionId then some ((s.outcomes actionId).getD outcome)
            else s.outcomes i) = some o := ho
          split at ho
          · next hi =>
              rw [hi, ← Option.some.inj ho]
              cases hold : s.outcomes actionId with
              | none => exact hnew
              | some earlier => exact h.outcomes actionId earlier hold
          · exact h.outcomes i o ho
  | abandon k =>
      simp only [step, Option.ite_none_right_eq_some, Option.some.injEq] at hstep
      rw [← hstep.2]
      exact ⟨h.outcomes, fun r hr => h.recording r (List.mem_of_mem_eraseIdx hr)⟩

/-! ## What a round is meant to do -/

/-- The windows lie apart around the change, rows of days that do not count make no
difference, an action is settled only by an outcome that was worked out when its data
was there or its deadline had passed, and nothing raises. -/
structure Settles (settings : Settings) (s : State) (look : Look) : Prop where
  windows : ∀ w ∈ look.windows settings, WindowsOk settings w
  ownDays : ∀ other, SameOwnDays settings look other →
    other.settle settings (s.outcomeOf look) = look.settle settings (s.outcomeOf look)
  timely : ∀ outcome, look.settle settings (s.outcomeOf look) = .ok (some outcome) →
    WorkedOut settings (look :: s.looks) look.managed.actionId outcome
  sound : ∀ exc, look.settle settings (s.outcomeOf look) ≠ .error exc

/-- In every state that any rounds lead to, a round does what it is meant to exactly
when the target is clean, should it come to evaluate it. -/
theorem settles_iff (h : Steps (step settings) anyStep {} s) (look : Look) :
    Settles settings s look ↔
      ((s.outcomeOf look).isNone = true → look.Ready settings → look.target.Clean) := by
  have hinv : Inv settings s := h.invariant Inv.start fun _ _ _ hinv _ hstep => hinv.next hstep
  constructor
  · intro hsettles hnone hready
    by_contra hunclean
    obtain ⟨exc, hexc⟩ := Look.settle_error_iff.mpr ⟨hnone, hready, hunclean⟩
    exact hsettles.sound exc hexc
  · intro hclean
    refine ⟨fun w hw => .of_look hw, fun other hsame => Look.settle_congr hsame,
      fun outcome hsettle => hinv.settle hsettle, fun exc hexc => ?_⟩
    obtain ⟨hnone, hready, hunclean⟩ := Look.settle_error_iff.mp ⟨exc, hexc⟩
    exact hunclean (hclean hnone hready)

/-- A title that was changed on day 100, as a round of day 139 sees it: all days are
stored, and the page was seen on some of them. -/
def titleLook (normalizedUrl : String) : Look where
  now := 139 * 24 * Warehouse.hour + 12 * Warehouse.hour
  managed :=
    { action :=
        { actionId := "action-1", siteId := "site-1", normalizedUrl
          normalizedQuery := "shoes", actionType := .optimizeTitle
          status := .measurementWindowActive, requiresApproval := true
          reasons := [], parameters := [], evidence := [] }
      tenantId := "tenant-1", runId := "run-1", proposalId := none, observedValue := none
      applied := some
        { adapterId := "generic_rest", changeId := none, previousValue := "a"
          newValue := "b", appliedAt := 100 * 24 * Warehouse.hour + 12 * Warehouse.hour
          adapterId_ne := by decide }
      rolledBack := none, error := none, history := [] }
  site := some (some "sc-domain:shop.ir")
  ledger := fun day => if day ≤ 136 then some ⟨"sc-domain:shop.ir", .synced, 0, false⟩ else none
  pageRows := []
  queryRows :=
    [⟨⟨90, normalizedUrl, .mobile, ⟨2, 40, 200, by decide, by decide +kernel⟩⟩, "shoes"⟩,
      ⟨⟨120, normalizedUrl, .mobile, ⟨6, 50, 200, by decide, by decide +kernel⟩⟩, "shoes"⟩]

/-- A round that settles, in the state it starts in and when its outcome is recorded. -/
theorem settles_of_titleLook : ∃ s, Steps (step {}) anyStep {} s ∧
    (s.outcomes "action-1").map (fun outcome => (outcome.evaluation.status, outcome.dataComplete)) =
      some (.success, true) ∧
    Settles {} s (titleLook "https://shop.ir/a") := by
  have h : (stepsIf (step {}) anyStep {}
      [.round (titleLook "https://shop.ir/a"), .commit 0]).map (fun s =>
        (s.outcomes "action-1").map fun outcome =>
          (outcome.evaluation.status, outcome.dataComplete)) =
      some (some (.success, true)) := by decide +kernel
  obtain ⟨s, hs, houtcome⟩ := Option.map_eq_some_iff.mp h
  exact ⟨s, Steps.of_stepsIf hs, houtcome,
    (settles_iff (Steps.of_stepsIf hs) (titleLook "https://shop.ir/a")).mpr
      fun _ _ => by decide +kernel⟩

/-- `https://shop.ir/a ?utm_source=news` is `https://shop.ir/a ` in its canonical form.
No round ever measures a change of that page. -/
theorem neverMeasured :
    (titleLook "https://shop.ir/a ").settle {} none =
      .error (.valueError "observation normalized_url does not match target") ∧
    ¬ ∀ s, Steps (step {}) anyStep {} s → Settles {} s (titleLook "https://shop.ir/a ") := by
  have hraised : (match (titleLook "https://shop.ir/a ").settle {} none with
      | .ok _ => none
      | .error exc => some exc) =
      some (.valueError "observation normalized_url does not match target") := by decide +kernel
  have herror : (titleLook "https://shop.ir/a ").settle {} none =
      .error (.valueError "observation normalized_url does not match target") := by
    cases hsettle : (titleLook "https://shop.ir/a ").settle {} none with
    | ok outcome =>
        rw [hsettle] at hraised
        cases hraised
    | error exc =>
        rw [hsettle] at hraised
        exact congrArg Except.error (Option.some.inj hraised)
  exact ⟨herror, fun hclaim => (hclaim {} .start).sound _ herror⟩

end SeoAgent.Measurement
