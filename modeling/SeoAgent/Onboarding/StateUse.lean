import SeoAgent.Onboarding.GoogleGrant
import SeoAgent.Onboarding.Parts
import SeoAgent.Verified.Tickets

/-!
# The state of a Search Console sign-in

A sign-in has three versions of its state: as it was started, begun, and spent. Each is
written over the one before it, which was read in the same request, so each is written
once, and the request that wrote the last one is the only one to exchange a code.

## Main results

* `state_kept` — what each request writes of states, and when it exchanges a code.
* `state_lives` — the versions of a state.
* `connection_single_use` — over every run.
-/

namespace SeoAgent.Onboarding

open SeoAgent.Verified Prog Machine
open Service (iface World Terms Told justWrote)

/-! ## The life of a state -/

def OAuthState.asBegun (state : OAuthState) : OAuthState := { state with begun := true }

def OAuthState.asSpent (state : OAuthState) : OAuthState := { state with used := true }

/-- As `start` makes a state. -/
def OAuthState.fresh (state : OAuthState) : Prop := state.begun = false ∧ state.used = false

/-- The versions of a state: started, begun and spent. -/
def StateLife (vs : List OAuthState) : Prop :=
  ∃ state : OAuthState, state.fresh ∧ vs <+: [state, state.asBegun, state.asBegun.asSpent]

section Life
variable {vs : List OAuthState} {first state : OAuthState} {n : Nat}

/-- The version before the next one, and all of them. -/
theorem life_at (h : vs <+: [first, first.asBegun, first.asBegun.asSpent]) (hn : vs.length = n + 1)
    (hget : vs[n]? = some state) :
    [first, first.asBegun, first.asBegun.asSpent][n]? = some state ∧
      vs = [first, first.asBegun, first.asBegun.asSpent].take (n + 1) := by
  refine ⟨?_, hn ▸ List.prefix_iff_eq_take.mp h⟩
  obtain ⟨rest, hrest⟩ := h
  rw [← hrest, List.getElem?_append_left (by omega)]
  exact hget

/-- A state begins once: over the version it was started with. -/
theorem StateLife.begun (h : StateLife vs) (hn : vs.length = n + 1) (hget : vs[n]? = some state)
    (hbegun : state.begun = false) : n = 0 ∧ StateLife (vs ++ [state.asBegun]) := by
  obtain ⟨first, hfresh, hprefix⟩ := h
  obtain ⟨hat, hvs⟩ := life_at hprefix hn hget
  match n, hat with
  | 0, hat =>
      obtain rfl := Option.some.inj hat
      exact ⟨rfl, first, hfresh, hvs ▸ ⟨[first.asBegun.asSpent], rfl⟩⟩
  | 1, hat =>
      obtain rfl := Option.some.inj hat
      cases hbegun
  | 2, hat =>
      obtain rfl := Option.some.inj hat
      cases hbegun

/-- A state is spent once: over the version it was begun with. -/
theorem StateLife.spent (h : StateLife vs) (hn : vs.length = n + 1) (hget : vs[n]? = some state)
    (hbegun : state.begun = true) (hunused : state.used = false) :
    n = 1 ∧ StateLife (vs ++ [state.asSpent]) := by
  obtain ⟨first, hfresh, hprefix⟩ := h
  obtain ⟨hat, hvs⟩ := life_at hprefix hn hget
  match n, hat with
  | 0, hat =>
      obtain rfl := Option.some.inj hat
      cases hfresh.1.symm.trans hbegun
  | 1, hat =>
      obtain rfl := Option.some.inj hat
      exact ⟨rfl, first, hfresh, hvs ▸ List.prefix_rfl⟩
  | 2, hat =>
      obtain rfl := Option.some.inj hat
      cases hunused

/-- A state that was spent has had its whole life. -/
theorem StateLife.whole (h : StateLife vs) (hget : vs[n]? = some state) (hbegun : state.begun = true)
    (hunused : state.used = false) (hnext : n + 1 < vs.length) :
    n = 1 ∧ ∃ first : OAuthState, first.fresh ∧ state = first.asBegun ∧
      vs = [first, first.asBegun, first.asBegun.asSpent] := by
  obtain ⟨first, hfresh, hprefix⟩ := h
  have hat : [first, first.asBegun, first.asBegun.asSpent][n]? = some state := by
    obtain ⟨rest, hrest⟩ := hprefix
    rw [← hrest, List.getElem?_append_left (by omega)]
    exact hget
  match n, hat with
  | 0, hat =>
      obtain rfl := Option.some.inj hat
      cases hfresh.1.symm.trans hbegun
  | 1, hat => exact ⟨rfl, first, hfresh, (Option.some.inj hat).symm, hprefix.eq_of_length_le hnext⟩
  | 2, hat =>
      obtain rfl := Option.some.inj hat
      cases hunused

end Life

/-! ## The terms -/

/-- The state that a request names. -/
def stateKey (stateId : String) : String := Text.orElse stateId "-"

/-- A request has read this state, and then that it is within its time. -/
def ReadLive (past : OnboardingPast) (stateId : String) (state : OAuthState) (n : Nat) : Prop :=
  ∃ at_ : Int, past = [⟨.now, .ok at_⟩,
      ⟨.find .googleOauthState (stateKey stateId), .ok (some (state, n))⟩] ∧
    at_ - state.createdAt ≤ stateTtl ∧ state.stateId = stateKey stateId

/-- The browser that a redirect of Google comes from began the sign-in. -/
def SameBrowser (state : OAuthState) (browserNonce : Option String) : Prop :=
  browserNonce = some state.browserNonce ∧ state.browserNonce ≠ ""

/-- The transactions about states, and what was read before. -/
inductive StateCommit (k : GrantKind) (past : OnboardingPast) : OnboardingWrites → Prop
  | other {ws : OnboardingWrites} (notBegin : ∀ stateId, k ≠ .begin stateId)
      (leaves : ∀ w ∈ ws, w.target.1 ≠ .googleOauthState) : StateCommit k past ws
  | started (state : OAuthState) (notBegin : ∀ stateId, k ≠ .begin stateId)
      (fresh : state.fresh) :
      StateCommit k past [.create .googleOauthState state.stateId state]
  | begun {stateId : String} {state : OAuthState} {n : Nat} (kind : k = .begin stateId)
      (read : ReadLive past stateId state n) (first : state.begun = false) :
      StateCommit k past [.replace .googleOauthState state.stateId state.asBegun n]
  | spent {stateId : String} {code error browserNonce : Option String} {state : OAuthState}
      {n : Nat} (kind : k = .complete stateId code error browserNonce)
      (read : ReadLive past stateId state n) (begun : state.begun = true)
      (unused : state.used = false) (browser : SameBrowser state browserNonce) :
      StateCommit k past [.replace .googleOauthState state.stateId state.asSpent n]

/-- A code is exchanged right after the state was spent. -/
def MayExchange (k : GrantKind) (past : OnboardingPast) : Prop :=
  ∃ (stateId : String) (code error browserNonce : Option String) (state : OAuthState) (n : Nat)
    (before : OnboardingPast), k = .complete stateId code error browserNonce ∧
    past = ⟨.commit [.replace .googleOauthState state.stateId state.asSpent n], .ok ()⟩ :: before ∧
    ReadLive before stateId state n ∧ state.begun = true ∧ state.used = false ∧
    SameBrowser state browserNonce

def statePermits (k : GrantKind) (past : OnboardingPast) : GrantOp → Prop
  | .commit ws => StateCommit k past ws
  | .ext (.exchange _ _) => MayExchange k past
  | _ => True

/-- What may be stored. -/
def stateValid : (t : OnboardingType) → String → t.Payload → Prop
  | .googleOauthState, i, state => state.stateId = i
  | _, _, _ => True

@[reducible] def stateTerms : Terms grantProcesses where
  Valid := stateValid
  permits := statePermits

@[reducible] def stateContract (k : GrantKind) :
    Contract (iface onboardingBackend onboardingOutside) where
  permits past o := statePermits k past o ∧ Service.writesValid stateValid o
  trusts := Service.readsValid stateValid

/-- A part that is not about states and exchanges no code. -/
abbrev Aside {α : Type} (p : OnboardingProc α) : Prop :=
  Touches (· ≠ .googleOauthState) (fun x => ∀ code verifier, x ≠ .exchange code verifier) p

theorem Aside.keeps {α : Type} {p : OnboardingProc α} (h : Aside p) {k : GrantKind}
    (hk : ∀ stateId, k ≠ .begin stateId) (past : OnboardingPast) :
    wp (stateContract k) (Returns fun _ _ => True) p past := by
  refine wp_mono_contract (fun past o ho => ⟨?_, ?_⟩) (fun _ _ _ => trivial) (h past)
  · cases o with
    | commit ws => exact .other hk ho
    | ext x => cases x <;> first | exact absurd rfl (ho _ _) | trivial
    | _ => trivial
  · cases o with
    | commit ws =>
        intro w hw
        have hne := ho w hw
        cases w with
        | create t i v => cases t <;> first | exact absurd rfl hne | trivial
        | replace t i v n => cases t <;> first | exact absurd rfl hne | trivial
        | ensure t i v => cases t <;> first | exact absurd rfl hne | trivial
    | _ => trivial

/-! ## The requests -/

theorem oauthStart_states {tenantId : String} :
    wp (stateContract (.start tenantId)) (fun _ _ => True) (oauthStart tenantId) [] := by
  have hk : ∀ stateId, GrantKind.start tenantId ≠ .begin stateId := fun _ h => by cases h
  have hmake : ∀ past, wp (stateContract (.start tenantId)) (Returns fun _ _ => True) makeId past :=
    Aside.keeps makeId_touches hk
  have h : wp (stateContract (.start tenantId)) (Returns fun _ _ => True)
      (oauthStart tenantId) [] := by
    refine returns_bind (hmake []) fun past₁ stateId _ _ => ?_
    refine returns_bind (hmake past₁) fun past₂ codeVerifier _ _ => ?_
    refine returns_bind (hmake past₂) fun past₃ browserNonce _ _ => ?_
    refine returns_bind (Aside.keeps readClock_touches hk past₃) fun past₄ at_ _ _ => ?_
    let state : OAuthState := { stateId, tenantId, codeVerifier, browserNonce, createdAt := at_ }
    refine wp_ask ⟨.started state hk ⟨rfl, rfl⟩, fun w hw => ?_⟩ fun r _ => ?_
    · rw [List.mem_singleton.mp hw]
      rfl
    · cases r <;> trivial
  exact wp_mono (fun _ _ _ _ => trivial) h

/-- A state that was read and found live. -/
theorem readState_live {k : GrantKind} {stateId : String} :
    wp (stateContract k) (Returns fun past read => ReadLive past stateId read.1 read.2)
      (readState stateId) [] := by
  refine returns_bind (P := fun (past : OnboardingPast) (found : Option (OAuthState × Nat)) => past =
      [⟨.find .googleOauthState (stateKey stateId), .ok found⟩] ∧
    ∀ state n, found = some (state, n) → state.stateId = stateKey stateId) ?_
    fun past found _ ⟨hpast, hvalid⟩ => ?_
  · refine wp_ask ⟨trivial, trivial⟩ fun r hr => ?_
    cases r with
    | error e => trivial
    | ok found =>
        refine ⟨rfl, fun state n heq => ?_⟩
        subst heq
        exact hr
  · rcases found with _ | ⟨state, n⟩
    · trivial
    · refine returns_bind (P := fun past' at_ => past' = ⟨.now, .ok at_⟩ :: past) ?_
        fun past' at_ _ hpast' => ?_
      · exact wp_ask ⟨trivial, trivial⟩ fun r _ => by cases r <;> trivial
      · split
        · trivial
        · next hlive => exact ⟨at_, hpast ▸ hpast', Int.not_lt.mp hlive, hvalid state n rfl⟩

theorem oauthBegin_states {stateId : String} :
    wp (stateContract (.begin stateId)) (Returns fun _ _ => True) (oauthBegin stateId) [] := by
  refine returns_bind readState_live fun past ⟨state, n⟩ _ hread => ?_
  dsimp only
  split
  · trivial
  · next hbegun =>
      have hfirst : state.begun = false := Bool.not_eq_true _ ▸ hbegun
      refine wp_ask ⟨.begun rfl hread hfirst, fun w hw => ?_⟩ fun r _ => ?_
      · rw [List.mem_singleton.mp hw]
        rfl
      · cases r <;> trivial

theorem completeRefusal_none {state : OAuthState} {browserNonce : Option String}
    (h : completeRefusal state browserNonce = none) :
    state.begun = true ∧ state.used = false ∧ SameBrowser state browserNonce := by
  unfold completeRefusal at h
  split at h
  · cases h
  · next hlive =>
      split at h
      · cases h
      · next hbrowser =>
          simp only [Bool.or_eq_true, Bool.not_eq_true', decide_eq_true_eq, not_or] at hlive hbrowser
          obtain ⟨hbegun, hused⟩ := hlive
          obtain ⟨hempty, hsame⟩ := hbrowser
          have hnonce : browserNonce = some state.browserNonce := not_not.mp hsame
          rw [hnonce] at hempty
          exact ⟨by simpa using hbegun, by simpa using hused, hnonce, hempty⟩

/-- A code was exchanged. -/
def HasExchanged (past : OnboardingPast) : Prop :=
  ∃ (code verifier : String)
    (r : (iface onboardingBackend onboardingOutside).Answer (.ext (.exchange code verifier))),
    (⟨.ext (.exchange code verifier), r⟩ : (iface onboardingBackend onboardingOutside).Event) ∈ past

/-- A redirect that is not refused has exchanged a code. -/
theorem oauthComplete_states {stateId : String} {code error browserNonce : Option String} :
    wp (stateContract (.complete stateId code error browserNonce))
      (Returns fun past _ => HasExchanged past)
      (oauthComplete stateId code error browserNonce) [] := by
  have hk : ∀ stateId', GrantKind.complete stateId code error browserNonce ≠ .begin stateId' :=
    fun _ h => by cases h
  refine returns_bind readState_live fun past ⟨state, n⟩ _ hread => ?_
  dsimp only
  split
  · trivial
  · next hrefusal =>
      obtain ⟨hbegun, hunused, hbrowser⟩ := completeRefusal_none hrefusal
      refine returns_bind (P := fun past' _ => past' = ⟨.commit
        [.replace .googleOauthState state.stateId state.asSpent n], .ok ()⟩ :: past) ?_
        fun past' _ _ hpast' => ?_
      · refine wp_ask ⟨.spent rfl hread hbegun hunused hbrowser, fun w hw => ?_⟩ fun r _ => ?_
        · rw [List.mem_singleton.mp hw]
          rfl
        · cases r <;> trivial
      · split
        · trivial
        · split
          · trivial
          · refine returns_bind (P := fun past'' _ => HasExchanged past'') ?_
              fun past'' ⟨status, body⟩ _ hexchanged => ?_
            · refine wp_ask ⟨⟨stateId, code, error, browserNonce, state, n, past, rfl, hpast',
                hread, hbegun, hunused, hbrowser⟩, trivial⟩ fun r _ => ?_
              cases r with
              | error e => trivial
              | ok answer => exact ⟨_, _, _, List.mem_cons_self⟩
            · refine returns_ofExcept_bind fun ⟨token, granted⟩ _ => ?_
              refine wp_mono (fun past₃ r hs _ => ?_)
                (Aside.keeps (connect_touches (by decide) (by decide)) hk past'')
              cases r with
              | error e => trivial
              | ok u =>
                  obtain ⟨code', verifier, r, hmem⟩ := hexchanged
                  exact ⟨code', verifier, r, hs.subset hmem⟩

theorem oauthDisconnect_states {tenantId : String} :
    wp (stateContract (.disconnect tenantId)) (fun _ _ => True) (oauthDisconnect tenantId).void [] := by
  have hk : ∀ stateId, GrantKind.disconnect tenantId ≠ .begin stateId := fun _ h => by cases h
  have h : Aside (oauthDisconnect tenantId) := oauthDisconnect_touches (by decide) (by decide)
    (fun _ _ _ h => by cases h) fun _ _ _ h => by cases h
  exact wp_void (wp_mono (fun _ _ _ _ => trivial) (h.keeps hk []))

/-- What each request writes of states, and when it exchanges a code. -/
theorem state_kept : stateTerms.Kept := by
  intro k
  cases k with
  | start tenantId => exact oauthStart_states
  | begin stateId => exact wp_mono (fun _ _ _ _ => trivial) oauthBegin_states
  | complete stateId code error browserNonce =>
      exact wp_mono (fun _ _ _ _ => trivial) oauthComplete_states
  | disconnect tenantId => exact oauthDisconnect_states

/-- A redirect that ends without an error has exchanged a code. -/
theorem complete_exchanges (k : GrantKind) :
    wp (stateTerms.contract k) (fun past r => ∀ stateId code error browserNonce,
      k = .complete stateId code error browserNonce → r = .ok () → HasExchanged past)
      (grantBody k) [] := by
  have hother (hk : ∀ stateId code error browserNonce,
      k ≠ .complete stateId code error browserNonce) :
      wp (stateTerms.contract k) (fun past r => ∀ stateId code error browserNonce,
        k = .complete stateId code error browserNonce → r = .ok () → HasExchanged past)
        (grantBody k) [] :=
    wp_mono (fun _ _ _ _ stateId code error nonce heq => absurd heq (hk stateId code error nonce))
      (state_kept k)
  cases k with
  | start tenantId => exact hother fun _ _ _ _ h => by cases h
  | begin stateId => exact hother fun _ _ _ _ h => by cases h
  | disconnect tenantId => exact hother fun _ _ _ _ h => by cases h
  | complete stateId code error browserNonce =>
      refine wp_mono (fun past r _ hr _ _ _ _ _ hok => ?_) oauthComplete_states
      rw [hok] at hr
      exact hr

/-! ## Every run -/

theorem stateValid_nothing : Service.AllValid stateTerms.Valid noGrants.records :=
  fun _ _ _ h => absurd h List.not_mem_nil

/-- A state that was read is a stored version. -/
theorem ReadLive.version {r : OnboardingRecords} {past : OnboardingPast} {stateId : String}
    {state : OAuthState} {n : Nat} (htold : Told r past) (h : ReadLive past stateId state n) :
    r.versionAt .googleOauthState state.stateId n = some state := by
  obtain ⟨at_, rfl, -, hkey⟩ := h
  rw [hkey]
  exact htold.found (List.mem_cons_of_mem _ List.mem_cons_self)

/-- The versions of states after a transaction of the requests. -/
theorem state_step {k : GrantKind} {past : OnboardingPast} {r s : OnboardingRecords}
    {ws : OnboardingWrites} (htold : Told r past) (hcommit : StateCommit k past ws)
    (hs : r.commit ws = .ok s) (h : ∀ i, StateLife (r.versions .googleOauthState i)) (i : String) :
    StateLife (s.versions .googleOauthState i) := by
  cases hcommit with
  | other _ leaves =>
      rw [Repository.commit_versions_of_ne hs fun w hw htarget => leaves w hw (by rw [htarget])]
      exact h i
  | started state _ fresh =>
      obtain ⟨hnone, rfl⟩ := Repository.apply_create (Repository.commit_singleton.mp hs)
      rw [Repository.versions_append]
      split
      · next hi =>
          rw [hi, hnone]
          exact ⟨state, fresh, [state.asBegun, state.asBegun.asSpent], rfl⟩
      · exact h i
  | @begun stateId state n _ read first =>
      obtain ⟨hn, rfl⟩ := Repository.apply_replace (Repository.commit_singleton.mp hs)
      rw [Repository.versions_append]
      split
      · next hi =>
          rw [hi]
          cases n with
          | zero => cases read.version htold
          | succ n => exact ((h state.stateId).begun hn (read.version htold) first).2
      · exact h i
  | @spent stateId code error browserNonce state n _ read began unused _ =>
      obtain ⟨hn, rfl⟩ := Repository.apply_replace (Repository.commit_singleton.mp hs)
      rw [Repository.versions_append]
      split
      · next hi =>
          rw [hi]
          cases n with
          | zero => cases read.version htold
          | succ n => exact ((h state.stateId).spent hn (read.version htold) began unused).2
      · exact h i

/-- In every reachable state the versions of a sign-in's state are its life so far. -/
theorem state_lives {c : Config grantMachine} (hr : Run anyMove ⟨noGrants, []⟩ c) (i : String) :
    StateLife (c.shared.records.versions .googleOauthState i) := by
  have hempty : ∀ i, StateLife (noGrants.records.versions .googleOauthState i) := fun i =>
    ⟨{ stateId := i, tenantId := "", codeVerifier := "", browserNonce := "", createdAt := 0 },
      ⟨rfl, rfl⟩, List.nil_prefix⟩
  exact Service.repository_invariant
    (K := fun r => ∀ i, StateLife (r.versions .googleOauthState i)) state_kept stateValid_nothing
    (fun hcom hold hs => state_step hcom.told hcom.permitted hs hold) hempty hr i

/-- A redirect of Google that is about to exchange a code, for a state. -/
def Exchanging (c : Config grantMachine) (t : Nat) (i : String) : Prop :=
  ∃ (stateId : String) (code error browserNonce : Option String) (code' verifier : String)
    (f : Except OnboardingExc (Nat × TokenBody) → OnboardingProc Unit) (past : OnboardingPast),
    c.pool[t]? = some ⟨.complete stateId code error browserNonce,
      .call (.ext (.exchange code' verifier)) f, past⟩ ∧ stateKey stateId = i

/-- A request to begin a sign-in that is about to be recorded, and that the store accepts. -/
def Beginning (c : Config grantMachine) (t : Nat) (i : String) : Prop :=
  ∃ (stateId : String) (ws : OnboardingWrites)
    (f : Except OnboardingExc Unit → OnboardingProc Unit) (past : OnboardingPast)
    (r : OnboardingRecords), c.pool[t]? = some ⟨.begin stateId, .call (.commit ws) f, past⟩ ∧
    stateKey stateId = i ∧ c.shared.records.commit ws = .ok r

/-- What is so when a code is about to be exchanged. -/
def ExchangeAllowed (c : Config grantMachine) : Prop :=
  ∀ (t : Nat) (k : GrantKind) (code' verifier : String)
    (f : Except OnboardingExc (Nat × TokenBody) → OnboardingProc Unit) (past : OnboardingPast),
    c.pool[t]? = some ⟨k, .call (.ext (.exchange code' verifier)) f, past⟩ →
    ∃ (stateId : String) (code error browserNonce : Option String) (state : OAuthState) (at_ : Int),
      k = .complete stateId code error browserNonce ∧ state.fresh ∧
      c.shared.records.versions .googleOauthState (stateKey stateId) =
        [state, state.asBegun, state.asBegun.asSpent] ∧
      (⟨.now, .ok at_⟩ : (iface onboardingBackend onboardingOutside).Event) ∈ past ∧
      at_ - state.createdAt ≤ stateTtl ∧ SameBrowser state browserNonce ∧
      justWrote past = some (.googleOauthState, stateKey stateId, 3)

theorem exchange_allowed {c : Config grantMachine} (hr : Run anyMove ⟨noGrants, []⟩ c) :
    ExchangeAllowed c := by
  intro t k code' verifier f past hp
  obtain ⟨stateId, code, error, browserNonce, state, n, before, rfl, rfl, hread, hbegun, hunused,
    hbrowser⟩ := (Service.permitted_of_run state_kept stateValid_nothing hr hp).1
  have htold := Service.told_of_run hr _ (List.mem_of_getElem? hp)
  have hversion := hread.version htold.tail
  have hwritten := (Service.holders_apart hr).stored _ (List.mem_of_getElem? hp) _ rfl
  cases n with
  | zero => cases hversion
  | succ n =>
      obtain ⟨rfl, first, hfresh, rfl, hvs⟩ :=
        (state_lives hr state.stateId).whole hversion hbegun hunused hwritten
      obtain ⟨at_, rfl, httl, hkey⟩ := hread
      have hkey' : first.stateId = stateKey stateId := hkey
      refine ⟨stateId, code, error, browserNonce, first, at_, rfl, hfresh, hkey' ▸ hvs,
        List.mem_cons_of_mem _ List.mem_cons_self, httl, hbrowser, ?_⟩
      rw [← hkey']
      rfl

/-- The records of what is exchanged and begun. -/
structure SingleUse (c : Config grantMachine) : Prop where
  allowed : ExchangeAllowed c
  alone : ∀ t t' i, Exchanging c t i → Exchanging c t' i → t = t'
  once : ∀ t i, Exchanging c t i → ∀ ch c', fire c (.act t ch) = some c' →
    ∀ c'', Run anyMove c' c'' → ∀ t', ¬Exchanging c'' t' i
  begunOnce : ∀ t i, Beginning c t i → ∀ ch c', fire c (.act t ch) = some c' →
    c'.shared.records ≠ c.shared.records → ∀ c'', Run anyMove c' c'' → ∀ t', ¬Beginning c'' t' i
  refused : ∀ th ∈ c.pool, ∀ stateId code error browserNonce,
    th.kind = .complete stateId code error browserNonce → th.rest = .ret () → HasExchanged th.past

/-- The ticket of a redirect that exchanges a code. -/
theorem Exchanging.ticket {c : Config grantMachine} (hr : Run anyMove ⟨noGrants, []⟩ c) {t : Nat}
    {i : String} (h : Exchanging c t i) :
    ∃ th, c.pool[t]? = some th ∧ justWrote th.past = some (.googleOauthState, i, 3) := by
  obtain ⟨stateId, code, error, browserNonce, code', verifier, f, past, hp, rfl⟩ := h
  obtain ⟨stateId', _, _, _, _, _, hkind, -, -, -, -, -, hticket⟩ :=
    exchange_allowed hr t _ code' verifier f past hp
  cases hkind
  exact ⟨_, hp, hticket⟩

/-- A sign-in is begun over its first version. -/
theorem begin_commit {past : OnboardingPast} {r s : OnboardingRecords} {ws : OnboardingWrites}
    {stateId : String} (htold : Told r past) (hcommit : StateCommit (.begin stateId) past ws)
    (hlife : ∀ i, StateLife (r.versions .googleOauthState i)) (hs : r.commit ws = .ok s) :
    (r.versions .googleOauthState (stateKey stateId)).length = 1 ∧
      (s.versions .googleOauthState (stateKey stateId)).length = 2 := by
  cases hcommit with
  | other notBegin _ => exact absurd rfl (notBegin stateId)
  | started _ notBegin _ => exact absurd rfl (notBegin stateId)
  | @begun stateId' state n kind read first =>
      cases kind
      obtain ⟨hn, rfl⟩ := Repository.apply_replace (Repository.commit_singleton.mp hs)
      have hversion := read.version htold
      obtain ⟨at_, rfl, -, hkey⟩ := read
      cases n with
      | zero => cases hversion
      | succ n =>
          obtain ⟨rfl, -⟩ := (hlife state.stateId).begun hn hversion first
          rw [← hkey, Repository.versions_append_self, List.length_append, hn]
          exact ⟨rfl, rfl⟩
  | spent kind => cases kind

/-- The sign-in a request is about to begin has its first version, and two when it has
begun. -/
theorem Beginning.versions {c : Config grantMachine} (hr : Run anyMove ⟨noGrants, []⟩ c) {t : Nat}
    {i : String} (h : Beginning c t i) :
    (c.shared.records.versions .googleOauthState i).length = 1 ∧
      ∀ ch c', fire c (.act t ch) = some c' → c'.shared.records ≠ c.shared.records →
        (c'.shared.records.versions .googleOauthState i).length = 2 := by
  obtain ⟨stateId, ws, f, past, r, hp, rfl, hs⟩ := h
  have htold := Service.told_of_run hr _ (List.mem_of_getElem? hp)
  have hcommit := (Service.permitted_of_run state_kept stateValid_nothing hr hp).1
  refine ⟨(begin_commit htold hcommit (state_lives hr) hs).1, fun ch c' hf hmade => ?_⟩
  obtain ⟨k', o, f', past', answer, w, hp', hx, rfl⟩ := fire_act hf
  cases hp.symm.trans hp'
  obtain ⟨-, ⟨hsame, -⟩ | ⟨hcommitted, -⟩⟩ := Service.exec_commit hx
  · exact absurd (congrArg World.records hsame) hmade
  · exact (begin_commit htold hcommit (state_lives hr) hcommitted).2

/-- In every run of requests to start, begin, complete and disconnect. -/
theorem connection_single_use {c : Config grantMachine} (hr : Run anyMove ⟨noGrants, []⟩ c) :
    SingleUse c where
  allowed := exchange_allowed hr
  alone t t' i h h' := by
    obtain ⟨th, hp, hmine⟩ := h.ticket hr
    obtain ⟨th', hp', hother⟩ := h'.ticket hr
    by_contra hne
    exact (Service.holders_apart hr).apart hne hp hp' _ hmine hother
  once t i h ch c' hf c'' hr' t' h' := by
    obtain ⟨th, hp, hmine⟩ := h.ticket hr
    have hr'' := (Run.move (.act t ch) hr trivial hf).trans hr'
    obtain ⟨th', hp', hother⟩ := h'.ticket hr''
    exact Service.ticket_once hr hp hmine hf hr' th' (List.mem_of_getElem? hp') hother
  begunOnce t i h ch c' hf hmade c'' hr' t' h' := by
    have htwo := (h.versions hr).2 ch c' hf hmade
    have hone := (h'.versions ((Run.move (.act t ch) hr trivial hf).trans hr')).1
    have hgrows := (Service.grows_of_run hr' .googleOauthState i).length_le
    omega
  refused th hth stateId code error browserNonce hkind hrest := by
    have hends := Service.ends_of_run (Q := fun k past r => ∀ stateId code error browserNonce,
      k = .complete stateId code error browserNonce → r = .ok () → HasExchanged past)
      state_kept stateValid_nothing complete_exchanges hr th hth
    rw [hrest] at hends
    exact hends stateId code error browserNonce hkind rfl

end SeoAgent.Onboarding
