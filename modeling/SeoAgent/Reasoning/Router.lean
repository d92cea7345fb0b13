import Mathlib
import SeoAgent.Reasoning.Registry

/-!
# Provider fallback

`ReasoningRouter.generate_title_candidates` of `app/reasoning/router.py`, with
`app/reasoning/fallback.py` and the part of `app/reasoning/context.py` that it keeps: the
providers are tried one after the other, a failure is passed on to the next one as far as the
policy allows it, and the call is recorded where it ends.

## Main results

* `tryFrom_spec` — the loop ends where the replies settle, and records that.
* `settle_eq_some_iff` — the replies settle at the first one that is not passed on.
* `generate_spec` — which answer is returned, after how many switches, and what is recorded.
-/

namespace SeoAgent.Reasoning

/-! ## Policy and context -/

/-- `FallbackPolicyMode`. -/
inductive FallbackPolicyMode
  | disabled
  | nextProvider
  deriving DecidableEq, Repr

/-- `ProviderFallbackPolicy`; at most ten switches can be allowed. -/
structure ProviderFallbackPolicy where
  mode : FallbackPolicyMode := .nextProvider
  maxProviderSwitches : Fin 11 := 1
  fallbackFailureTypes : List LLMFailureType := [.timeout, .rateLimit, .transport]

def shouldFallback (failureType : LLMFailureType) (policy : ProviderFallbackPolicy) : Bool :=
  if policy.mode = .disabled then false else failureType ∈ policy.fallbackFailureTypes

def canSwitchProvider (switchCount : Nat) (policy : ProviderFallbackPolicy) : Bool :=
  switchCount < policy.maxProviderSwitches.val

/-- `ReasoningExecutionContext`. -/
structure ReasoningExecutionContext where
  logicalCallId : String
  attemptNumber : Nat := 0
  providerSwitchCount : Nat := 0
  currentProviderId : Option String := none
  inputMessageCount : Nat := 0
  inputCharacterCount : Nat := 0
  outputCharacterCount : Nat := 0
  candidateCount : Nat := 0
  inputTokens : Nat := 0
  outputTokens : Nat := 0
  totalTokens : Nat := 0
  lastFailureType : Option LLMFailureType := none
  lastFinishReason : Option String := none

namespace ReasoningExecutionContext

def selectProvider (context : ReasoningExecutionContext) (providerId : String) :
    ReasoningExecutionContext :=
  match context.currentProviderId with
  | none => { context with currentProviderId := some providerId }
  | some current =>
      if current ≠ providerId then
        { context with
          providerSwitchCount := context.providerSwitchCount + 1
          currentProviderId := some providerId }
      else context

def nextAttempt (context : ReasoningExecutionContext) : ReasoningExecutionContext :=
  { context with attemptNumber := context.attemptNumber + 1 }

def observeInput (context : ReasoningExecutionContext) (contents : List String) :
    ReasoningExecutionContext :=
  if context.inputMessageCount ≠ 0 then context
  else
    { context with
      inputMessageCount := contents.length
      inputCharacterCount := (contents.map String.length).sum }

/-- What a value of the usage adds. -/
def tokens : Option UsageValue → Nat
  | some (.int n) => n.toNat
  | _ => 0

def observeAttemptUsage (context : ReasoningExecutionContext) (usage : Usage) :
    ReasoningExecutionContext :=
  { context with
    inputTokens := context.inputTokens + tokens (usage.promptTokens.or usage.inputTokens)
    outputTokens := context.outputTokens + tokens (usage.completionTokens.or usage.outputTokens)
    totalTokens := context.totalTokens + tokens usage.totalTokens }

def observeSuccess (context : ReasoningExecutionContext)
    (candidates : List TitleReasoningCandidate) (finishReason : Option String) :
    ReasoningExecutionContext :=
  { context with
    outputCharacterCount := (candidates.map (·.title.length)).sum
    candidateCount := candidates.length
    lastFinishReason := finishReason
    lastFailureType := none }

def observeFailure (context : ReasoningExecutionContext) (failureType : LLMFailureType) :
    ReasoningExecutionContext :=
  { context with lastFailureType := some failureType }

def observe (context : ReasoningExecutionContext) : Observation → ReasoningExecutionContext
  | .nextAttempt => context.nextAttempt
  | .input contents => context.observeInput contents
  | .attemptUsage usage => context.observeAttemptUsage usage
  | .success candidates finishReason => context.observeSuccess candidates finishReason
  | .failure failureType => context.observeFailure failureType

end ReasoningExecutionContext

/-! ## Call records -/

/-- `LLMCallStatus`. -/
inductive LLMCallStatus
  | success
  | failed
  deriving DecidableEq, Repr

/-- `LLMCallTelemetry`; it is completed `latency` after it was started. -/
structure LLMCallTelemetry where
  eventId : String
  logicalCallId : String
  providerId : String
  model : String
  promptVersion : String
  ruleVersion : String
  configVersion : String
  startedAt : Nat
  latency : Nat
  attemptCount : Nat
  providerSwitchCount : Nat
  status : LLMCallStatus
  failureType : Option LLMFailureType
  inputMessageCount : Nat
  inputCharacterCount : Nat
  outputCharacterCount : Nat
  candidateCount : Nat
  inputTokens : Option Nat
  outputTokens : Option Nat
  totalTokens : Option Nat
  deriving DecidableEq

def PROMPT_VERSION : String := "title-reasoning-v2"

/-! ## The router -/

/-- `ReasoningRouter`; a telemetry recorder is what makes its event ids. -/
structure ReasoningRouter (W : Type) where
  registry : ProviderRegistry W
  fallbackPolicy : ProviderFallbackPolicy := {}
  telemetry : Option (W → String × W) := none

/-- What a call comes to, and the records that it writes. -/
structure Call (W : Type) where
  result : Except Raised (List TitleReasoningCandidate)
  world : W
  records : List LLMCallTelemetry := []
  lastProviderId : Option String := none

variable {W : Type}

def modelForReasoner (reasoner : StrategicReasoner W) (providerId : String) : String :=
  match reasoner.model with
  | none => providerId
  | some model => if model = "" then providerId else model

/-- `or None`: no tokens count as an unknown number. -/
def known (tokens : Nat) : Option Nat := if tokens = 0 then none else some tokens

/-- `_record_call`. -/
def recordCall (router : ReasoningRouter W) (context : ReasoningExecutionContext)
    (input : TitleReasoningInput) (providerId model : String) (startedAt latency : Nat)
    (status : LLMCallStatus) (failureType : Option LLMFailureType)
    (candidates : List TitleReasoningCandidate) (world : W) : List LLMCallTelemetry × W :=
  match router.telemetry with
  | none => ([], world)
  | some eventIdFactory =>
      match eventIdFactory world with
      | (eventId, world) =>
          ([{ eventId
              logicalCallId := context.logicalCallId
              providerId
              model
              promptVersion := PROMPT_VERSION
              ruleVersion := input.ruleVersion
              configVersion := input.configVersion
              startedAt
              latency
              attemptCount := max context.attemptNumber 1
              providerSwitchCount := context.providerSwitchCount
              status
              failureType
              inputMessageCount := context.inputMessageCount
              inputCharacterCount := context.inputCharacterCount
              outputCharacterCount := context.outputCharacterCount
              candidateCount := candidates.length
              inputTokens := known context.inputTokens
              outputTokens := known context.outputTokens
              totalTokens := known context.totalTokens }], world)

/-- The context while a provider works, and after it. -/
def working (reasoner : StrategicReasoner W) (context : ReasoningExecutionContext)
    (reply : Reply) : ReasoningExecutionContext :=
  if reasoner.contextAware then
    reply.observed.foldl ReasoningExecutionContext.observe context
  else context.nextAttempt

/-- The loop over the providers. -/
def tryFrom (router : ReasoningRouter W) (input : TitleReasoningInput) (startedAt : Nat) :
    List String → ReasoningExecutionContext → Nat → W → Call W
  | [], _, _, world =>
      { result := .error (.runtimeError "Reasoning router failed unexpectedly."), world }
  | providerId :: rest, context, latency, world =>
      match router.registry.get providerId with
      | .error raised => { result := .error raised, world }
      | .ok reasoner =>
          let selected := context.selectProvider providerId
          let model := modelForReasoner reasoner providerId
          match reasoner.generateTitleCandidates input world with
          | (reply, world) =>
              let context := working reasoner selected reply
              let latency := latency + reply.took
              match reply.answer with
              | .ok candidates =>
                  match recordCall router context input providerId model startedAt latency
                      .success none candidates world with
                  | (records, world) =>
                      { result := .ok candidates, world, records
                        lastProviderId := some providerId }
              | .error failure =>
                  match failure.failureType with
                  | none =>
                      match recordCall router context input providerId model startedAt latency
                          .failed none [] world with
                      | (records, world) =>
                          { result := .error (.provider failure), world, records }
                  | some failureType =>
                      let context := context.observeFailure failureType
                      if shouldFallback failureType router.fallbackPolicy &&
                          canSwitchProvider selected.providerSwitchCount router.fallbackPolicy &&
                          !rest.isEmpty then
                        tryFrom router input startedAt rest context latency world
                      else
                        match recordCall router context input providerId model startedAt latency
                            .failed (some failureType) [] world with
                        | (records, world) =>
                            { result := .error (.provider failure), world, records }

/-- The ids that are tried: the given ones, or those of all enabled registrations. -/
def ReasoningRouter.providers (router : ReasoningRouter W) (providerIds : Option (List String)) :
    List String :=
  providerIds.getD router.registry.enabledIds

/-- `generate_title_candidates`, from the provider that answered last. -/
def generateTitleCandidates (router : ReasoningRouter W) (input : TitleReasoningInput)
    (providerIds : Option (List String)) (logicalCallId : Option String)
    (lastProviderId : Option String) (startedAt : Nat) (world : W) : Call W :=
  if router.providers providerIds = [] then
    { result := .error (.valueError "No reasoning providers are available.")
      world
      lastProviderId }
  else
    tryFrom router input startedAt (router.providers providerIds)
      { logicalCallId := logicalCallId.getD s!"reasoning:{input.recommendationId}" } 0 world

/-! ## Switches -/

/-- How often the provider changes along a list of ids. -/
def switches : List String → Nat
  | [] => 0
  | [_] => 0
  | first :: second :: rest =>
      (if first = second then 0 else 1) + switches (second :: rest)

section Switches
variable {seen : List String} {id : String} {context : ReasoningExecutionContext}

theorem switches_append_singleton (seen : List String) (last id : String) :
    switches (seen ++ [last] ++ [id]) =
      switches (seen ++ [last]) + if last = id then 0 else 1 := by
  induction seen with
  | nil => rw [List.nil_append, List.singleton_append, switches, switches, Nat.add_comm, switches]
  | cons first seen ih =>
      cases seen with
      | nil =>
          have hpair : ∀ a b : String, switches [a, b] = if a = b then 0 else 1 := fun _ _ => rfl
          have hthree : switches [first, last, id] =
              (if first = last then 0 else 1) + switches [last, id] := rfl
          rw [List.singleton_append, List.cons_append, List.singleton_append, hthree, hpair, hpair]
      | cons second seen =>
          have hstep : ∀ rest, switches (first :: second :: rest) =
              (if first = second then 0 else 1) + switches (second :: rest) := fun _ => rfl
          simp only [List.cons_append] at ih ⊢
          rw [hstep, hstep, ih, Nat.add_assoc]

/-- One more provider is at most one more switch. -/
theorem switches_append_le (seen : List String) (id : String) :
    switches seen ≤ switches (seen ++ [id]) ∧ switches (seen ++ [id]) ≤ switches seen + 1 := by
  cases seen using List.reverseRecOn with
  | nil => exact ⟨le_refl _, Nat.zero_le _⟩
  | append_singleton seen last =>
      rw [switches_append_singleton]
      split
      · exact ⟨le_refl _, Nat.le_succ _⟩
      · exact ⟨Nat.le_succ _, le_refl _⟩

theorem switches_le_append (seen ids : List String) :
    switches seen ≤ switches (seen ++ ids) := by
  induction ids using List.reverseRecOn with
  | nil => rw [List.append_nil]
  | append_singleton ids id ih =>
      rw [← List.append_assoc]
      exact ih.trans (switches_append_le _ id).1

/-- The context counts the switches along the providers that were selected. -/
def Counts (seen : List String) (context : ReasoningExecutionContext) : Prop :=
  context.providerSwitchCount = switches seen ∧ context.currentProviderId = seen.getLast?

theorem counts_start (logicalCallId : String) : Counts [] { logicalCallId } := ⟨rfl, rfl⟩

theorem Counts.select (h : Counts seen context) (id : String) :
    Counts (seen ++ [id]) (context.selectProvider id) := by
  obtain ⟨hcount, hcurrent⟩ := h
  unfold ReasoningExecutionContext.selectProvider
  cases seen using List.reverseRecOn with
  | nil =>
      rw [hcurrent]
      exact ⟨hcount, rfl⟩
  | append_singleton seen last =>
      rw [List.getLast?_concat] at hcurrent
      rw [hcurrent]
      by_cases hsame : last = id
      · subst hsame
        rw [Counts, switches_append_singleton, if_pos rfl, List.getLast?_concat]
        simpa using ⟨hcount, hcurrent⟩
      · rw [Counts, switches_append_singleton, if_neg hsame, List.getLast?_concat]
        simpa [hsame] using hcount

/-- What a provider tells the context leaves the switches alone. -/
theorem Counts.observe (h : Counts seen context) (observation : Observation) :
    Counts seen (context.observe observation) := by
  cases observation with
  | input contents =>
      have hinput : context.observe (.input contents) = context.observeInput contents := rfl
      rw [hinput, ReasoningExecutionContext.observeInput]
      split
      · exact h
      · exact h
  | nextAttempt => exact h
  | attemptUsage usage => exact h
  | success candidates finishReason => exact h
  | failure failureType => exact h

theorem Counts.working (h : Counts seen context) (reasoner : StrategicReasoner W)
    (reply : Reply) : Counts seen (working reasoner context reply) := by
  unfold Reasoning.working
  split
  · generalize reply.observed = observed
    induction observed generalizing context with
    | nil => exact h
    | cons observation observed ih => exact ih (h.observe observation)
  · exact h

end Switches

/-! ## Replies -/

/-- What the providers of a list come to, when each is asked after the one before. -/
def replies (registry : ProviderRegistry W) (input : TitleReasoningInput) :
    List String → W → List (String × Except Raised (List TitleReasoningCandidate))
  | [], _ => []
  | providerId :: rest, world =>
      match registry.get providerId with
      | .error raised => [(providerId, .error raised)]
      | .ok reasoner =>
          match reasoner.generateTitleCandidates input world with
          | (reply, world) =>
              (providerId, reply.answer.mapError .provider) :: replies registry input rest world

/-- A failure that the policy allows to fall back on. -/
def Allowed (policy : ProviderFallbackPolicy)
    (reply : Except Raised (List TitleReasoningCandidate)) : Prop :=
  ∃ failureType message, reply = .error (.provider ⟨some failureType, message⟩) ∧
    shouldFallback failureType policy = true

/-- Whether a reply is passed on to the next provider, if there is one. -/
def passes (policy : ProviderFallbackPolicy) (seen : List String)
    (reply : Except Raised (List TitleReasoningCandidate)) : Bool :=
  match reply with
  | .error (.provider ⟨some failureType, _⟩) =>
      shouldFallback failureType policy && canSwitchProvider (switches seen) policy
  | _ => false

/-- The reply that a call ends with. -/
def settle (policy : ProviderFallbackPolicy) (seen : List String) :
    List (String × Except Raised (List TitleReasoningCandidate)) →
      Option (String × Except Raised (List TitleReasoningCandidate))
  | [] => none
  | reply :: rest =>
      if passes policy (seen ++ [reply.1]) reply.2 && !rest.isEmpty then
        settle policy (seen ++ [reply.1]) rest
      else some reply

/-- All of these are passed on: the policy allows to fall back on each of them, and there is
room for one more switch. -/
structure FallsBack (policy : ProviderFallbackPolicy) (seen : List String)
    (passed : List (String × Except Raised (List TitleReasoningCandidate))) : Prop where
  allowed : ∀ reply ∈ passed, Allowed policy reply.2
  room : passed ≠ [] → switches (seen ++ passed.map (·.1)) < policy.maxProviderSwitches.val

theorem isEmpty_replies (registry : ProviderRegistry W) (input : TitleReasoningInput)
    (ids : List String) (world : W) :
    (replies registry input ids world).isEmpty = ids.isEmpty := by
  cases ids with
  | nil => rfl
  | cons id ids =>
      rw [replies]
      split
      · rfl
      · rfl

section Settling
variable {policy : ProviderFallbackPolicy} {seen : List String}
  {answers passed : List (String × Except Raised (List TitleReasoningCandidate))}
  {reply : String × Except Raised (List TitleReasoningCandidate)}

theorem passes_iff (seen : List String) (reply : Except Raised (List TitleReasoningCandidate)) :
    passes policy seen reply = true ↔
      Allowed policy reply ∧ switches seen < policy.maxProviderSwitches.val := by
  unfold passes Allowed
  constructor
  · intro h
    split at h
    · next failureType message =>
        rw [Bool.and_eq_true] at h
        exact ⟨⟨failureType, message, rfl, h.1⟩, of_decide_eq_true h.2⟩
    · cases h
  · rintro ⟨⟨failureType, message, rfl, hallowed⟩, hroom⟩
    rw [Bool.and_eq_true]
    exact ⟨hallowed, decide_eq_true hroom⟩

theorem fallsBack_nil : FallsBack policy seen [] := ⟨fun _ h => (List.not_mem_nil h).elim, fun h => (h rfl).elim⟩

theorem fallsBack_cons : FallsBack policy seen (reply :: passed) ↔
    passes policy (seen ++ [reply.1]) reply.2 = true ∧
      FallsBack policy (seen ++ [reply.1]) passed := by
  rw [passes_iff]
  have hlist : seen ++ (reply :: passed).map (·.1) = seen ++ [reply.1] ++ passed.map (·.1) := by
    rw [List.map_cons, List.append_assoc, List.singleton_append]
  constructor
  · rintro ⟨hallowed, hroom⟩
    have hlt := hroom (List.cons_ne_nil _ _)
    rw [hlist] at hlt
    exact ⟨⟨hallowed reply List.mem_cons_self, (switches_le_append _ _).trans_lt hlt⟩,
      fun other hin => hallowed other (List.mem_cons_of_mem _ hin), fun _ => hlt⟩
  · rintro ⟨⟨hfirst, hlt⟩, hallowed, hroom⟩
    refine ⟨fun other hin => ?_, fun _ => ?_⟩
    · rcases List.mem_cons.mp hin with rfl | hin
      · exact hfirst
      · exact hallowed other hin
    · rw [hlist]
      cases passed with
      | nil => simpa using hlt
      | cons next rest => exact hroom (List.cons_ne_nil _ _)

/-- What is reached after replies that were passed on is within the limit. -/
theorem FallsBack.switches_le (h : FallsBack policy [] passed) (id : String) :
    switches (passed.map (·.1) ++ [id]) ≤ policy.maxProviderSwitches.val := by
  cases passed with
  | nil => exact Nat.zero_le _
  | cons first rest =>
      have hlt := h.room (List.cons_ne_nil _ _)
      rw [List.nil_append] at hlt
      exact (switches_append_le _ id).2.trans hlt

/-- The replies settle at the first one that is not passed on, or at the last one. -/
theorem settle_eq_some_iff : settle policy seen answers = some reply ↔
    ∃ passed rest, answers = passed ++ reply :: rest ∧ FallsBack policy seen passed ∧
      (passes policy (seen ++ passed.map (·.1) ++ [reply.1]) reply.2 = true → rest = []) := by
  induction answers generalizing seen with
  | nil =>
      refine iff_of_false (fun h => nomatch h) ?_
      rintro ⟨passed, rest, hnil, -⟩
      exact List.append_ne_nil_of_right_ne_nil passed (List.cons_ne_nil reply rest) hnil.symm
  | cons first answers ih =>
      rw [settle]
      constructor
      · intro h
        split at h
        · next hpassed =>
            rw [Bool.and_eq_true] at hpassed
            obtain ⟨passed, rest, rfl, hfalls, hstop⟩ := ih.mp h
            refine ⟨first :: passed, rest, rfl, fallsBack_cons.mpr ⟨hpassed.1, hfalls⟩, ?_⟩
            simpa using hstop
        · next hstop =>
            obtain rfl : first = reply := Option.some.inj h
            refine ⟨[], answers, rfl, fallsBack_nil, fun hpass => ?_⟩
            by_contra hne
            refine hstop ?_
            rw [List.map_nil, List.append_nil] at hpass
            rw [hpass, Bool.true_and, Bool.not_eq_true', List.isEmpty_eq_false_iff]
            exact hne
      · rintro ⟨passed, rest, hsplit, hfalls, hstop⟩
        cases passed with
        | nil =>
            obtain ⟨rfl, rfl⟩ := List.cons_eq_cons.mp hsplit
            rw [if_neg]
            rw [List.map_nil, List.append_nil] at hstop
            intro hpass
            rw [Bool.and_eq_true] at hpass
            rw [hstop hpass.1] at hpass
            exact Bool.false_ne_true hpass.2
        | cons second passed =>
            rw [List.cons_append] at hsplit
            obtain ⟨rfl, rfl⟩ := List.cons_eq_cons.mp hsplit
            obtain ⟨hpass, hfalls⟩ := fallsBack_cons.mp hfalls
            have hmore : (passed ++ reply :: rest).isEmpty = false := by
              cases passed with
              | nil => rfl
              | cons _ _ => rfl
            rw [hpass, hmore, if_pos (by rfl)]
            refine ih.mpr ⟨passed, rest, rfl, hfalls, ?_⟩
            simpa using hstop

end Settling

/-! ## The call -/

/-- The status that a result is recorded with. -/
def statusOf (result : Except Raised (List TitleReasoningCandidate)) : LLMCallStatus :=
  match result with
  | .ok _ => .success
  | .error _ => .failed

/-- The failure that a result is recorded with. -/
def failureOf (result : Except Raised (List TitleReasoningCandidate)) :
    Option LLMFailureType :=
  match result with
  | .error (.provider failure) => failure.failureType
  | _ => none

/-- Whether a result is what a provider came to. -/
def fromProvider (result : Except Raised (List TitleReasoningCandidate)) : Bool :=
  match result with
  | .ok _ => true
  | .error (.provider _) => true
  | .error _ => false

/-- A call that ends with a reply: it is recorded if the provider was asked. -/
structure Ends (router : ReasoningRouter W)
    (reply : String × Except Raised (List TitleReasoningCandidate)) (call : Call W) : Prop where
  result : call.result = reply.2
  once : call.records.length =
    if router.telemetry.isSome && fromProvider reply.2 then 1 else 0
  matching : ∀ record ∈ call.records, record.providerId = reply.1 ∧
    record.status = statusOf reply.2 ∧ record.failureType = failureOf reply.2
  last : call.lastProviderId = if reply.2.isOk then some reply.1 else none

section Loop
variable {seen ids : List String} {context : ReasoningExecutionContext}

theorem recordCall_spec (router : ReasoningRouter W) (input : TitleReasoningInput)
    (providerId : String) (context : ReasoningExecutionContext) (model : String)
    (startedAt latency : Nat) (status : LLMCallStatus) (failureType : Option LLMFailureType)
    (candidates : List TitleReasoningCandidate) (world : W) :
    (recordCall router context input providerId model startedAt latency status failureType
        candidates world).1.length = (if router.telemetry.isSome then 1 else 0) ∧
      ∀ record ∈ (recordCall router context input providerId model startedAt latency status
          failureType candidates world).1,
        record.providerId = providerId ∧ record.status = status ∧
          record.failureType = failureType := by
  unfold recordCall
  cases router.telemetry with
  | none => exact ⟨rfl, fun record h => (List.not_mem_nil h).elim⟩
  | some eventIdFactory =>
      refine ⟨rfl, fun record h => ?_⟩
      rw [List.mem_singleton.mp h]
      exact ⟨rfl, rfl, rfl⟩

/-- The loop ends where the replies settle, and records that. -/
theorem tryFrom_spec (router : ReasoningRouter W) (input : TitleReasoningInput) (startedAt latency : Nat) (world : W) (hids : ids ≠ [])
    (hcounts : Counts seen context) :
    ∃ reply, settle router.fallbackPolicy seen (replies router.registry input ids world) =
        some reply ∧
      Ends router reply (tryFrom router input startedAt ids context latency world) := by
  induction ids generalizing seen context latency world with
  | nil => exact (hids rfl).elim
  | cons id ids ih =>
      have hselected := hcounts.select id
      cases hget : router.registry.get id with
      | error raised =>
          obtain ⟨text, rfl⟩ := ProviderRegistry.get_error hget
          simp only [replies, tryFrom, hget]
          refine ⟨(id, .error (.valueError text)), rfl, rfl, ?_, fun record h => ?_, rfl⟩
          · simp [fromProvider]
          · exact (List.not_mem_nil h).elim
      | ok reasoner =>
          cases hcome : reasoner.generateTitleCandidates input world with
          | mk reply world' =>
              obtain ⟨answer, observed, took⟩ := reply
              have hworking := hselected.working reasoner ⟨answer, observed, took⟩
              simp only [replies, tryFrom, hget, hcome]
              generalize working reasoner (context.selectProvider id) ⟨answer, observed, took⟩ =
                worked at hworking
              cases answer with
              | ok found =>
                  obtain ⟨honce, hmatching⟩ := recordCall_spec router input id worked
                    (modelForReasoner reasoner id) startedAt (latency + took) .success none found world'
                  exact ⟨(id, .ok found), rfl, rfl, by simpa [fromProvider] using honce,
                    hmatching, rfl⟩
              | error failure =>
                  obtain ⟨failureType, message⟩ := failure
                  cases failureType with
                  | none =>
                      obtain ⟨honce, hmatching⟩ := recordCall_spec router input id worked
                        (modelForReasoner reasoner id) startedAt (latency + took) .failed none []
                        world'
                      exact ⟨(id, .error (.provider ⟨none, message⟩)), rfl, rfl,
                        by simpa [fromProvider] using honce, hmatching, rfl⟩
                  | some failureType =>
                      have hpasses : passes router.fallbackPolicy (seen ++ [id])
                          (.error (.provider ⟨some failureType, message⟩)) =
                            (shouldFallback failureType router.fallbackPolicy &&
                              canSwitchProvider (switches (seen ++ [id]))
                                router.fallbackPolicy) := rfl
                      have hempty := isEmpty_replies router.registry input ids world'
                      dsimp only [Except.mapError]
                      rw [hselected.1, settle, hpasses, hempty]
                      split
                      · next hgo =>
                          rw [Bool.and_eq_true, Bool.not_eq_true', List.isEmpty_eq_false_iff]
                            at hgo
                          exact ih _ world' hgo.2 (hworking.observe (.failure failureType))
                      · obtain ⟨honce, hmatching⟩ := recordCall_spec router input id
                          (worked.observeFailure failureType)
                          (modelForReasoner reasoner id) startedAt (latency + took) .failed
                          (some failureType) [] world'
                        exact ⟨_, rfl, rfl, by simpa [fromProvider] using honce, hmatching, rfl⟩

end Loop

/-- Which answer is returned, after how many switches, and what is recorded. -/
structure Settles (router : ReasoningRouter W)
    (answers : List (String × Except Raised (List TitleReasoningCandidate)))
    (call : Call W) : Prop where
  /-- The answer is the first one, where every reply before it was passed on. -/
  answered : ∀ found, call.result = .ok found ↔ ∃ passed id rest,
    answers = passed ++ (id, .ok found) :: rest ∧ FallsBack router.fallbackPolicy [] passed ∧
      switches (passed.map (·.1) ++ [id]) ≤ router.fallbackPolicy.maxProviderSwitches.val
  /-- A failure is raised as it is, after replies that were all passed on. -/
  failed : ∀ failure, call.result = .error (.provider failure) → ∃ passed id rest,
    answers = passed ++ (id, .error (.provider failure)) :: rest ∧
      FallsBack router.fallbackPolicy [] passed ∧
      switches (passed.map (·.1) ++ [id]) ≤ router.fallbackPolicy.maxProviderSwitches.val
  /-- What a provider came to is recorded once, and nothing else is. -/
  once : call.records.length =
    if router.telemetry.isSome && fromProvider call.result then 1 else 0
  matching : ∀ record ∈ call.records, ∃ passed rest,
    answers = passed ++ (record.providerId, call.result) :: rest ∧
      FallsBack router.fallbackPolicy [] passed ∧ record.status = statusOf call.result ∧
      record.failureType = failureOf call.result
  /-- `last_provider_id` is the provider that answered. -/
  last : call.result.isOk = true → ∃ passed id rest, call.lastProviderId = some id ∧
    answers = passed ++ (id, call.result) :: rest ∧ FallsBack router.fallbackPolicy [] passed

theorem Ends.settles {router : ReasoningRouter W}
    {answers : List (String × Except Raised (List TitleReasoningCandidate))} {call : Call W}
    {reply : String × Except Raised (List TitleReasoningCandidate)}
    (h : Ends router reply call) (hsettle : settle router.fallbackPolicy [] answers = some reply) :
    Settles router answers call := by
  obtain ⟨passed, rest, hsplit, hfalls, -⟩ := settle_eq_some_iff.mp hsettle
  refine ⟨fun found => ⟨fun hfound => ?_, ?_⟩, fun failure hfailure => ?_, ?_,
    fun record hrecord => ?_, fun hok => ?_⟩
  · rw [← hfound, h.result]
    exact ⟨passed, reply.1, rest, hsplit, hfalls, hfalls.switches_le reply.1⟩
  · -- An answer is not passed on, so the replies settle at it.
    rintro ⟨before, id, after, hfound, hbefore, -⟩
    have hat : settle router.fallbackPolicy [] answers = some (id, .ok found) :=
      settle_eq_some_iff.mpr ⟨before, after, hfound, hbefore, fun hpass => nomatch hpass⟩
    rw [h.result, Option.some.inj (hsettle.symm.trans hat)]
  · rw [← hfailure, h.result]
    exact ⟨passed, reply.1, rest, hsplit, hfalls, hfalls.switches_le reply.1⟩
  · rw [h.result]
    exact h.once
  · obtain ⟨hid, hstatus, hfailure⟩ := h.matching record hrecord
    rw [h.result, hid]
    exact ⟨passed, rest, hsplit, hfalls, hstatus, hfailure⟩
  · have hlast := h.last
    rw [h.result] at hok ⊢
    rw [hok, if_pos rfl] at hlast
    exact ⟨passed, reply.1, rest, hlast, hsplit, hfalls⟩

/-- Without a provider nothing is asked and nothing recorded. -/
theorem settles_nil (router : ReasoningRouter W) {call : Call W} {text : String}
    (hresult : call.result = .error (.valueError text)) (hrecords : call.records = []) :
    Settles router [] call := by
  refine ⟨fun found => iff_of_false ?_ ?_, fun failure hfailure => ?_, ?_, fun record h => ?_,
    fun hok => ?_⟩
  · rw [hresult]
    exact fun h => nomatch h
  · rintro ⟨passed, id, rest, hsplit, -⟩
    exact List.append_ne_nil_of_right_ne_nil passed (List.cons_ne_nil _ rest) hsplit.symm
  · rw [hresult] at hfailure
    cases hfailure
  · rw [hresult, hrecords]
    simp [fromProvider]
  · rw [hrecords] at h
    cases h
  · rw [hresult] at hok
    cases hok

theorem generate_spec (router : ReasoningRouter W) (input : TitleReasoningInput)
    (providerIds : Option (List String)) (logicalCallId lastProviderId : Option String)
    (startedAt : Nat) (world : W) :
    Settles router (replies router.registry input (router.providers providerIds) world)
      (generateTitleCandidates router input providerIds logicalCallId lastProviderId startedAt
        world) := by
  unfold generateTitleCandidates
  split
  · next hnone =>
      rw [hnone]
      exact settles_nil router rfl rfl
  · next hsome =>
      obtain ⟨reply, hsettle, hends⟩ := tryFrom_spec router input startedAt 0 world hsome (counts_start (logicalCallId.getD s!"reasoning:{input.recommendationId}"))
      exact hends.settles hsettle

/-! ## Calls that are not recorded, and another order -/

section Samples

def answering (id : String) (answer : Except ProviderFailure (List TitleReasoningCandidate)) :
    StrategicReasoner Unit where
  providerId := id
  generateTitleCandidates := fun _ world => (⟨answer, [], 0⟩, world)

def registered (id : String) (priority : Int) (enabled : Bool) : ProviderRegistration where
  providerId := id
  displayName := id
  enabled := enabled
  priority := priority
  model := "m"
  configVersion := "v1"

theorem nodup_slowThenDisabled :
    ([(registered "slow" 1 true, answering "slow" (.error ⟨some .timeout, ""⟩)),
      (registered "off" 2 false, answering "off" (.ok []))].map (·.1.providerId)).Nodup := by
  decide

/-- A provider that takes too long, before one that is disabled. -/
def slowThenDisabled : ProviderRegistry Unit where
  providers := [(registered "slow" 1 true, answering "slow" (.error ⟨some .timeout, ""⟩)),
    (registered "off" 2 false, answering "off" (.ok []))]
  nodup := nodup_slowThenDisabled

theorem nodup_secondFirst : ([(registered "b" 2 true, answering "b" (.ok [])),
    (registered "a" 1 true, answering "a" (.ok []))].map (·.1.providerId)).Nodup := by
  decide

/-- Two providers that answer, the second one with the better rank. -/
def secondFirst : ProviderRegistry Unit where
  providers := [(registered "b" 2 true, answering "b" (.ok [])),
    (registered "a" 1 true, answering "a" (.ok []))]
  nodup := nodup_secondFirst

def sampleInput : TitleReasoningInput := ⟨"1", "rules-v1", "config-v1"⟩

/-- A call that answers is not recorded without a recorder, a call that reaches a disabled
provider is not recorded with one, and the provider of the better rank is not asked first. -/
theorem not_recorded_not_ranked :
    (generateTitleCandidates { registry := secondFirst } sampleInput none none none 0 ()).records
        = [] ∧
      (generateTitleCandidates
          { registry := slowThenDisabled, telemetry := some fun world => ("e", world) }
          sampleInput (some ["slow", "off"]) none none 0 ()).records = [] ∧
      (generateTitleCandidates { registry := secondFirst } sampleInput none none none 0
          ()).lastProviderId = some "b" ∧
      secondFirst.selectDefault.map (·.providerId) = .ok "a" := by
  refine ⟨rfl, rfl, rfl, ?_⟩
  simp [ProviderRegistry.selectDefault, ProviderRegistry.ranked, ProviderRegistry.enabled,
    ProviderRegistry.rank, secondFirst, registered, answering, Prod.Lex.le_iff, List.mergeSort,
    Except.map]

end Samples

end SeoAgent.Reasoning
