import Mathlib.Data.List.Sort
import Mathlib.Data.Prod.Lex
import Mathlib.Data.String.Basic

/-!
# Reasoning providers

The providers of title candidates (`app/reasoning/contracts.py`, `app/reasoning/registry.py`)
and what a provider tells the context of a call while it works (`app/reasoning/context.py`).

## Main results

* `get_eq_ok_iff` — a provider is found by its id if and only if it is registered and enabled.
* `selectDefault_rank_le` — the default provider is ranked before every other enabled one.
* `enabled_eq_ranked_iff` — the enabled providers stand in the order of their ranks if and
  only if they were registered in it.
-/

namespace SeoAgent.Reasoning

/-! ## Providers -/

/-- `LLMFailureType`. -/
inductive LLMFailureType
  | transport
  | timeout
  | rateLimit
  | authentication
  | invalidJson
  | invalidSchema
  | emptyOutput
  deriving DecidableEq, Repr

/-- `TitleReasoningCandidate`. -/
structure TitleReasoningCandidate where
  candidateId : String
  title : String
  rationale : String
  confidenceScore : Rat
  deriving DecidableEq

/-- `TitleReasoningInput`, as far as a call is recorded with it. -/
structure TitleReasoningInput where
  recommendationId : String
  ruleVersion : String
  configVersion : String
  deriving DecidableEq

/-- An exception of a provider, with its `failure_type` if it has one. -/
structure ProviderFailure where
  failureType : Option LLMFailureType
  message : String
  deriving DecidableEq

/-- A value in the usage of a response. -/
inductive UsageValue
  | int (n : Int)
  | other
  deriving DecidableEq

/-- The usage of a response, as far as it is read. -/
structure Usage where
  promptTokens : Option UsageValue := none
  inputTokens : Option UsageValue := none
  completionTokens : Option UsageValue := none
  outputTokens : Option UsageValue := none
  totalTokens : Option UsageValue := none
  deriving DecidableEq

/-- What a provider tells the context of the call it is part of. -/
inductive Observation
  | nextAttempt
  | input (contents : List String)
  | attemptUsage (usage : Usage)
  | success (candidates : List TitleReasoningCandidate) (finishReason : Option String)
  | failure (failureType : LLMFailureType)

/-- What a provider comes to, after so much time. -/
structure Reply where
  answer : Except ProviderFailure (List TitleReasoningCandidate)
  observed : List Observation := []
  took : Nat := 0

/-- `StrategicReasoner`, over the state of the world it works in. Whether it takes a context
shows in `contextAware`. -/
structure StrategicReasoner (W : Type) where
  providerId : String
  model : Option String := none
  contextAware : Bool := false
  generateTitleCandidates : TitleReasoningInput → W → Reply × W

/-! ## Registry -/

/-- `ProviderRegistration`. -/
structure ProviderRegistration where
  providerId : String
  displayName : String
  enabled : Bool := true
  priority : Int
  model : String
  configVersion : String
  deriving DecidableEq

/-- What is raised. -/
inductive Raised
  | valueError (text : String)
  | runtimeError (text : String)
  | provider (failure : ProviderFailure)
  deriving DecidableEq

/-- The providers in the order in which they were registered, each under its own id. -/
structure ProviderRegistry (W : Type) where
  providers : List (ProviderRegistration × StrategicReasoner W)
  nodup : (providers.map (·.1.providerId)).Nodup

variable {W : Type}

theorem nodup_register {providers : List (ProviderRegistration × StrategicReasoner W)}
    {registration : ProviderRegistration} (reasoner : StrategicReasoner W)
    (hnodup : (providers.map (·.1.providerId)).Nodup)
    (hnew : registration.providerId ∉ providers.map (·.1.providerId)) :
    ((providers ++ [(registration, reasoner)]).map (·.1.providerId)).Nodup := by
  rw [List.map_append, List.nodup_append]
  refine ⟨hnodup, List.nodup_singleton _, fun id hid other hother heq => hnew ?_⟩
  have hsame : id = registration.providerId := heq.trans (List.mem_singleton.mp hother)
  rwa [← hsame]

namespace ProviderRegistry

/-- An empty registry. -/
def empty : ProviderRegistry W := ⟨[], List.nodup_nil⟩

def register (registry : ProviderRegistry W) (registration : ProviderRegistration)
    (reasoner : StrategicReasoner W) : Except Raised (ProviderRegistry W) :=
  if registration.providerId ≠ reasoner.providerId then
    .error (.valueError "Provider registration ID must match the reasoner provider ID.")
  else if hnew : registration.providerId ∈ registry.providers.map (·.1.providerId) then
    .error (.valueError s!"Provider is already registered: {registration.providerId}")
  else .ok ⟨registry.providers ++ [(registration, reasoner)],
    nodup_register reasoner registry.nodup hnew⟩

def get (registry : ProviderRegistry W) (providerId : String) :
    Except Raised (StrategicReasoner W) :=
  match registry.providers.find? fun item => item.1.providerId = providerId with
  | none => .error (.valueError s!"Provider is not registered: {providerId}")
  | some (registration, reasoner) =>
      if registration.enabled then .ok reasoner
      else .error (.valueError s!"Provider is disabled: {providerId}")

/-- The enabled providers, in the order in which they were registered. -/
def enabled (registry : ProviderRegistry W) :
    List (ProviderRegistration × StrategicReasoner W) :=
  registry.providers.filter (·.1.enabled)

/-- What `select_default` sorts by. -/
def rank (item : ProviderRegistration × StrategicReasoner W) : ℤ ×ₗ String :=
  toLex (item.1.priority, item.1.providerId)

/-- The enabled providers, sorted. -/
def ranked (registry : ProviderRegistry W) :
    List (ProviderRegistration × StrategicReasoner W) :=
  registry.enabled.mergeSort fun a b => rank a ≤ rank b

def selectDefault (registry : ProviderRegistry W) : Except Raised (StrategicReasoner W) :=
  match registry.ranked with
  | [] => .error (.valueError "No enabled reasoning provider is registered.")
  | item :: _ => .ok item.2

def registrations (registry : ProviderRegistry W) : List ProviderRegistration :=
  registry.providers.map (·.1)

/-- The ids of the enabled registrations. -/
def enabledIds (registry : ProviderRegistry W) : List String :=
  (registry.registrations.filter (·.enabled)).map (·.providerId)

section Lemmas
variable {registry : ProviderRegistry W} {providerId : String}
  {item : ProviderRegistration × StrategicReasoner W} {reasoner : StrategicReasoner W}

theorem find_of_mem (hmem : item ∈ registry.providers) :
    registry.providers.find? (fun other => other.1.providerId = item.1.providerId) =
      some item := by
  have hnodup := registry.nodup
  revert hmem hnodup
  generalize registry.providers = providers
  intro hmem hnodup
  induction providers with
  | nil => cases hmem
  | cons first rest ih =>
      obtain ⟨hfirst, hrest⟩ := List.nodup_cons.mp hnodup
      rw [List.find?_cons]
      rcases List.mem_cons.mp hmem with rfl | hin
      · rw [decide_eq_true rfl]
      · have hne : ¬first.1.providerId = item.1.providerId := fun heq =>
          hfirst (List.mem_map.mpr ⟨item, hin, heq.symm⟩)
        rw [decide_eq_false hne]
        exact ih hin hrest

/-- A provider is found by its id if and only if it is registered and enabled. -/
theorem get_eq_ok_iff : registry.get providerId = .ok reasoner ↔
    ∃ registration, (registration, reasoner) ∈ registry.providers ∧
      registration.providerId = providerId ∧ registration.enabled = true := by
  unfold get
  constructor
  · intro h
    split at h
    · cases h
    · next registration found hfind =>
        split at h
        · next henabled =>
            obtain rfl : found = reasoner := by injection h
            exact ⟨registration, List.mem_of_find?_eq_some hfind,
              by simpa using List.find?_some hfind, henabled⟩
        · cases h
  · rintro ⟨registration, hmem, rfl, henabled⟩
    rw [find_of_mem hmem]
    exact if_pos henabled

theorem get_error {raised : Raised} (h : registry.get providerId = .error raised) :
    ∃ text, raised = .valueError text := by
  unfold get at h
  split at h
  · exact ⟨_, (Except.error.inj h).symm⟩
  · split at h
    · cases h
    · exact ⟨_, (Except.error.inj h).symm⟩

theorem enabledIds_eq : registry.enabledIds = registry.enabled.map (·.1.providerId) := by
  unfold enabledIds registrations enabled
  rw [List.filter_map, List.map_map]
  rfl

theorem mem_enabledIds : providerId ∈ registry.enabledIds ↔
    ∃ reasoner, registry.get providerId = .ok reasoner := by
  rw [enabledIds_eq]
  simp only [get_eq_ok_iff, enabled, List.mem_map, List.mem_filter, Prod.exists]
  constructor
  · rintro ⟨registration, reasoner, ⟨hmem, henabled⟩, heq⟩
    exact ⟨reasoner, registration, hmem, heq, henabled⟩
  · rintro ⟨reasoner, registration, hmem, heq, henabled⟩
    exact ⟨registration, reasoner, ⟨hmem, henabled⟩, heq⟩

theorem pairwise_ranked : registry.ranked.Pairwise fun a b => rank a ≤ rank b := by
  have hsorted : registry.ranked.Pairwise fun a b => decide (rank a ≤ rank b) = true :=
    List.pairwise_mergeSort (fun a b c hab hbc => decide_eq_true
      ((of_decide_eq_true hab).trans (of_decide_eq_true hbc)))
      (fun a b => by simpa using le_total (rank a) (rank b)) registry.enabled
  exact hsorted.imp of_decide_eq_true

/-- The default provider is ranked before every other enabled one. -/
theorem selectDefault_rank_le (h : registry.selectDefault = .ok reasoner) :
    ∃ item ∈ registry.enabled, item.2 = reasoner ∧
      ∀ other ∈ registry.enabled, rank item ≤ rank other := by
  have hmem : ∀ other, other ∈ registry.enabled ↔ other ∈ registry.ranked :=
    fun other => (List.mergeSort_perm registry.enabled _).mem_iff.symm
  have hsorted := registry.pairwise_ranked
  unfold selectDefault at h
  split at h
  · cases h
  · next first rest hranked =>
      rw [hranked] at hsorted
      refine ⟨first, (hmem first).mpr (hranked ▸ List.mem_cons_self), by injection h,
        fun other hother => ?_⟩
      rw [hmem, hranked] at hother
      rcases List.mem_cons.mp hother with rfl | hin
      · exact le_refl _
      · exact List.rel_of_pairwise_cons hsorted hin

/-- The enabled providers stand in the order of their ranks if and only if they were registered
in it. -/
theorem enabled_eq_ranked_iff : registry.enabled = registry.ranked ↔
    registry.enabled.Pairwise fun a b => rank a ≤ rank b := by
  constructor
  · intro h
    rw [h]
    exact registry.pairwise_ranked
  · intro hsorted
    exact (List.mergeSort_of_pairwise (hsorted.imp decide_eq_true)).symm

end Lemmas

end ProviderRegistry

end SeoAgent.Reasoning
