import SeoAgent.Onboarding.StateUse

/-!
# Signing in with Google

`GoogleLogin` (`app/accounts/google_login.py`): a browser is sent to Google with a state,
and Google's redirect is completed once. The limiter of starts and Google are outside; the
claims of an identity token come with Google's answer, already decoded.

## Main results

* `login_kept` — what each request writes of states, and when it exchanges a code.
* `login_single_use` — a state is spent by one redirect, over every run.
* `oauth_state_single_use` — the same of this sign-in and of the connection to Search
  Console.
-/

namespace SeoAgent.GoogleLogin

open SeoAgent.Verified Service Prog Machine

/-! ## The records and the outside -/

/-- `STATE_TTL`, ten minutes. -/
def stateTtl : Int := 600000000

/-- `LoginState`; times in microseconds. -/
structure LoginState where
  stateId : String
  codeVerifier : String
  browserNonce : String
  createdAt : Int
  used : Bool := false
  deriving DecidableEq, Repr

structure GoogleIdentity where
  subject : String
  email : Option String
  emailVerified : Bool
  deriving DecidableEq, Repr

inductive LoginType
  | loginState
  deriving DecidableEq, Repr

inductive LoginExc
  | persistenceConflictError
  | persistenceNotFoundError (message : String)
  | databaseError (message : String)
  | googleLoginError (message : String)
  /-- Whatever the outside raises. -/
  | raised (message : String)
  deriving DecidableEq, Repr

def LoginExc.refused (_ : LoginType) (i : String) : Repository.Refusal → LoginExc
  | .notFound => persistenceNotFoundError i
  | _ => persistenceConflictError

@[reducible] def loginBackend : Backend where
  T := LoginType
  Payload := fun _ => LoginState
  Exn := LoginExc
  refused := LoginExc.refused
  broken := .databaseError

/-- `_claims` of an identity token, as far as they are strings and flags. -/
structure Claims where
  sub : Option String := none
  email : Option String := none
  emailVerified : Bool := false
  deriving DecidableEq, Repr

inductive LoginOp
  /-- The limiter of starts. -/
  | attempt (address : String)
  | exchange (code codeVerifier : String)
  deriving DecidableEq

@[reducible] def LoginOp.Res : LoginOp → Type
  | .attempt _ => Bool
  | .exchange _ _ => Nat × Claims

inductive LoginAnswer
  | fails (message : String)
  | flag (b : Bool)
  | claims (status : Nat) (claims : Claims)

def loginExec : (o : LoginOp) → LoginAnswer → Option (Except LoginExc o.Res)
  | _, .fails message => some (.error (.raised message))
  | .attempt _, .flag b => some (.ok b)
  | .exchange _ _, .claims status claims => some (.ok (status, claims))
  | _, _ => none

@[reducible] def loginOutside : Outside LoginExc where
  Op := LoginOp
  Res := LoginOp.Res
  State := Unit
  Choice := LoginAnswer
  Env := Empty
  exec := fun s o ch => (loginExec o ch).map fun r => (r, s)
  change := fun _ e => nomatch e

abbrev LoginProc (α : Type) : Type := Proc loginBackend loginOutside α

abbrev LoginPast : Type := Past loginBackend loginOutside

abbrev LoginWrites : Type := Writes loginBackend

abbrev LoginRecords : Type := Repository LoginType fun _ => LoginState

abbrev findState (i : String) : LoginProc (Option (LoginState × Nat)) :=
  Service.find (B := loginBackend) (X := loginOutside) .loginState i

abbrev commitOne (w : Repository.Write LoginType fun _ => LoginState) : LoginProc Unit :=
  Service.commit (B := loginBackend) (X := loginOutside) [w]

abbrev askOutside (x : LoginOp) : LoginProc x.Res :=
  Service.ext (B := loginBackend) (X := loginOutside) x

abbrev readClock : LoginProc Int := Service.now (B := loginBackend) (X := loginOutside)

abbrev makeId : LoginProc String := Service.newId (B := loginBackend) (X := loginOutside)

/-! ## Start and complete -/

/-- `start`, from the key of the address. -/
def start (address : String) : LoginProc Unit := do
  let allowed ← askOutside (.attempt address)
  if allowed then do
    let stateId ← makeId
    let codeVerifier ← makeId
    let browserNonce ← makeId
    let at_ ← readClock
    commitOne (.create .loginState stateId { stateId, codeVerifier, browserNonce, createdAt := at_ })
  else throw (.googleLoginError "Too many sign-in attempts. Wait a few minutes and try again.")

/-- Why a redirect is refused before the state is spent. -/
def completeRefusal (state : LoginState) (at_ : Int) (browserNonce : Option String) :
    Option LoginExc :=
  if at_ - state.createdAt > stateTtl then
    some (.googleLoginError "This sign-in took too long. Try again.")
  else if browserNonce.getD "" = "" || browserNonce ≠ some state.browserNonce then
    some (.googleLoginError "This sign-in was started in another browser. Try again.")
  else none

/-- Who signed in. -/
def identity (status : Nat) (claims : Claims) : Except LoginExc GoogleIdentity :=
  if status ≠ 200 then .error (.googleLoginError "Google refused the sign-in. Try again.")
  else if claims.sub.getD "" = "" then
    .error (.googleLoginError "Google did not say who signed in.")
  else
    .ok { subject := claims.sub.getD "", email := claims.email
          emailVerified := claims.emailVerified }

/-- `complete`. -/
def complete (stateId : String) (code error browserNonce : Option String) :
    LoginProc GoogleIdentity := do
  match ← findState (Text.orElse stateId "-") with
  | none => throw (.googleLoginError "This sign-in link is not valid. Try again.")
  | some (state, version) =>
      if state.used then
        throw (.googleLoginError "This sign-in was already used. Try again.")
      else do
        let at_ ← readClock
        match completeRefusal state at_ browserNonce with
        | some e => throw e
        | none => do
            commitOne (.replace .loginState state.stateId { state with used := true } version)
            if error.getD "" ≠ "" || code.getD "" = "" then
              throw (.googleLoginError "Google sign-in was cancelled.")
            else do
              let (status, claims) ← tryCatch
                (askOutside (.exchange (code.getD "") state.codeVerifier)) fun _ =>
                  throw (.googleLoginError "Google could not be reached. Try again.")
              Prog.ofExcept (identity status claims)

/-! ## The machine -/

inductive LoginKind
  | start (address : String)
  | complete (stateId : String) (code error browserNonce : Option String)

def loginBody : LoginKind → LoginProc Unit
  | .start address => GoogleLogin.start address
  | .complete stateId code error browserNonce =>
      (GoogleLogin.complete stateId code error browserNonce).void

@[reducible] def loginProcesses : Service.Processes loginBackend loginOutside where
  Kind := LoginKind
  body := loginBody
  admits := fun _ _ => true

@[reducible] def loginMachine : Machine (iface loginBackend loginOutside) :=
  Service.machine loginProcesses

/-- Nobody has started to sign in. -/
def noLogins : World loginBackend loginOutside := ⟨Repository.empty, ()⟩

/-! ## The life of a state -/

def LoginState.asSpent (state : LoginState) : LoginState := { state with used := true }

/-- The versions of a state: started and spent. -/
def StateLife (vs : List LoginState) : Prop :=
  ∃ state : LoginState, state.used = false ∧ vs <+: [state, state.asSpent]

section Life
variable {vs : List LoginState} {state : LoginState} {n : Nat}

/-- An unused version of a state is its first. -/
theorem StateLife.unused (h : StateLife vs) (hget : vs[n]? = some state)
    (hunused : state.used = false) :
    n = 0 ∧ vs <+: [state, state.asSpent] := by
  obtain ⟨first, hfirst, hprefix⟩ := h
  have hat : [first, first.asSpent][n]? = some state := by
    obtain ⟨rest, hrest⟩ := hprefix
    rw [← hrest, List.getElem?_append_left (List.getElem?_eq_some_iff.mp hget).1]
    exact hget
  match n, hat with
  | 0, hat =>
      obtain rfl := Option.some.inj hat
      exact ⟨rfl, hprefix⟩
  | 1, hat =>
      obtain rfl := Option.some.inj hat
      cases hunused

/-- A state is spent once: over the version it was started with. -/
theorem StateLife.spent (h : StateLife vs) (hn : vs.length = n + 1) (hget : vs[n]? = some state)
    (hunused : state.used = false) : StateLife (vs ++ [state.asSpent]) := by
  obtain ⟨rfl, hprefix⟩ := h.unused hget hunused
  have hvs : vs = [state] := by
    rw [List.prefix_iff_eq_take.mp hprefix, hn]
    rfl
  exact ⟨state, hunused, hvs ▸ List.prefix_rfl⟩

end Life

/-! ## The terms -/

/-- The state that a redirect names. -/
def stateKey (stateId : String) : String := Text.orElse stateId "-"

/-- The browser that a redirect comes from started the sign-in. -/
def SameBrowser (state : LoginState) (browserNonce : Option String) : Prop :=
  browserNonce = some state.browserNonce ∧ state.browserNonce ≠ ""

/-- A redirect has read this state unused, and then that it is within its time and its
browser's. -/
def ReadLive (past : LoginPast) (stateId : String) (browserNonce : Option String)
    (state : LoginState) (n : Nat) : Prop :=
  ∃ at_ : Int, past = [⟨.now, .ok at_⟩,
      ⟨.find .loginState (stateKey stateId), .ok (some (state, n))⟩] ∧
    at_ - state.createdAt ≤ stateTtl ∧ state.stateId = stateKey stateId ∧
    state.used = false ∧ SameBrowser state browserNonce

/-- The transactions, and what was read before. -/
inductive LoginCommit (k : LoginKind) (past : LoginPast) : LoginWrites → Prop
  | started (state : LoginState) (unused : state.used = false) :
      LoginCommit k past [.create .loginState state.stateId state]
  | spent {stateId : String} {code error browserNonce : Option String} {state : LoginState}
      {n : Nat} (kind : k = .complete stateId code error browserNonce)
      (read : ReadLive past stateId browserNonce state n) :
      LoginCommit k past [.replace .loginState state.stateId state.asSpent n]

/-- A code is exchanged right after the state was spent. -/
def MayExchange (k : LoginKind) (past : LoginPast) : Prop :=
  ∃ (stateId : String) (code error browserNonce : Option String) (state : LoginState) (n : Nat)
    (before : LoginPast), k = .complete stateId code error browserNonce ∧
    past = ⟨.commit [.replace .loginState state.stateId state.asSpent n], .ok ()⟩ :: before ∧
    ReadLive before stateId browserNonce state n

abbrev LoginOperation : Type := Service.Op loginBackend loginOutside

def loginPermits (k : LoginKind) (past : LoginPast) : LoginOperation → Prop
  | .commit ws => LoginCommit k past ws
  | .ext (.exchange _ _) => MayExchange k past
  | _ => True

/-- What may be stored. -/
def loginValid : LoginType → String → LoginState → Prop
  | .loginState, i, state => state.stateId = i

@[reducible] def loginTerms : Terms loginProcesses where
  Valid := loginValid
  permits := loginPermits

/-! ## The requests -/

theorem start_keeps {address : String} :
    wp (loginTerms.contract (.start address)) (fun _ _ => True) (start address) [] := by
  have hmake : Gives (loginTerms.contract (.start address)) (fun _ => True) makeId :=
    gives_ask (fun _ => ⟨trivial, trivial⟩) fun _ _ => trivial
  have hattempt : Gives (loginTerms.contract (.start address)) (fun _ => True)
      (askOutside (.attempt address)) :=
    gives_ask (fun _ => ⟨trivial, trivial⟩) fun _ _ => trivial
  have hclock : Gives (loginTerms.contract (.start address)) (fun _ => True) readClock :=
    gives_ask (fun _ => ⟨trivial, trivial⟩) fun _ _ => trivial
  have h : Gives (loginTerms.contract (.start address)) (fun _ => True) (start address) := by
    refine gives_bind hattempt fun allowed _ => ?_
    split
    · refine gives_bind hmake fun stateId _ => gives_bind hmake fun codeVerifier _ => ?_
      refine gives_bind hmake fun browserNonce _ => gives_bind hclock fun at_ _ => ?_
      let state : LoginState := { stateId, codeVerifier, browserNonce, createdAt := at_ }
      refine gives_ask (fun _ => ⟨.started state rfl, fun w hw => ?_⟩) fun _ _ => trivial
      rw [List.mem_singleton.mp hw]
      rfl
    · exact gives_throw
  exact (h.keeps)

theorem completeRefusal_none {state : LoginState} {at_ : Int} {browserNonce : Option String}
    (h : completeRefusal state at_ browserNonce = none) :
    at_ - state.createdAt ≤ stateTtl ∧ SameBrowser state browserNonce := by
  unfold completeRefusal at h
  split at h
  · cases h
  · next hlive =>
      split at h
      · cases h
      · next hbrowser =>
          simp only [Bool.or_eq_true, decide_eq_true_eq, not_or] at hbrowser
          obtain ⟨hempty, hsame⟩ := hbrowser
          have hnonce : browserNonce = some state.browserNonce := not_not.mp hsame
          rw [hnonce] at hempty
          exact ⟨Int.not_lt.mp hlive, hnonce, hempty⟩

/-- A code was exchanged. -/
def HasExchanged (past : LoginPast) : Prop :=
  ∃ (code verifier : String)
    (r : (iface loginBackend loginOutside).Answer (.ext (.exchange code verifier))),
    (⟨.ext (.exchange code verifier), r⟩ : (iface loginBackend loginOutside).Event) ∈ past

/-- A redirect that is not refused has exchanged a code. -/
theorem complete_keeps {stateId : String} {code error browserNonce : Option String} :
    wp (loginTerms.contract (.complete stateId code error browserNonce))
      (Returns fun past _ => HasExchanged past) (complete stateId code error browserNonce) [] := by
  refine returns_bind (P := fun (past : LoginPast) (found : Option (LoginState × Nat)) => past =
      [⟨.find .loginState (stateKey stateId), .ok found⟩] ∧
    ∀ state n, found = some (state, n) → state.stateId = stateKey stateId) ?_
    fun past found _ ⟨hpast, hvalid⟩ => ?_
  · refine wp_ask ⟨trivial, trivial⟩ fun r hr => ?_
    cases r with
    | error e => trivial
    | ok found =>
        refine ⟨rfl, fun state n heq => ?_⟩
        subst heq
        exact hr
  · rcases found with _ | ⟨state, n⟩
    · trivial
    · dsimp only
      split
      · trivial
      · next hused =>
          refine returns_bind (P := fun past' at_ => past' = ⟨.now, .ok at_⟩ :: past) ?_
            fun past₁ at_ _ hpast₁ => ?_
          · exact wp_ask ⟨trivial, trivial⟩ fun r _ => by cases r <;> trivial
          · split
            · trivial
            · next hrefusal =>
                obtain ⟨httl, hbrowser⟩ := completeRefusal_none hrefusal
                have hread : ReadLive past₁ stateId browserNonce state n :=
                  ⟨at_, hpast ▸ hpast₁, httl, hvalid state n rfl, by simpa using hused, hbrowser⟩
                refine returns_bind (P := fun past' _ => past' = ⟨.commit
                  [.replace .loginState state.stateId state.asSpent n], .ok ()⟩ :: past₁) ?_
                  fun past₂ _ _ hpast₂ => ?_
                · refine wp_ask ⟨.spent rfl hread, fun w hw => ?_⟩ fun r _ => ?_
                  · rw [List.mem_singleton.mp hw]
                    rfl
                  · cases r <;> trivial
                · split
                  · trivial
                  · have hexchange : wp (loginTerms.contract
                        (.complete stateId code error browserNonce))
                        (Returns fun past' _ => HasExchanged past') (tryCatch
                          (askOutside (.exchange (code.getD "") state.codeVerifier)) fun _ =>
                          throw (.googleLoginError "Google could not be reached. Try again.")) past₂ := by
                      refine wp_try (wp_ask ⟨⟨stateId, code, error, browserNonce, state, n, past₁,
                        rfl, hpast₂, hread⟩, trivial⟩ fun r _ => ?_) (fun _ _ _ h => h)
                        fun _ _ _ _ => trivial
                      cases r with
                      | error e => trivial
                      | ok answer => exact ⟨_, _, _, List.mem_cons_self⟩
                    refine returns_bind hexchange fun past₃ ⟨status, claims⟩ _ hexchanged => ?_
                    dsimp only
                    rw [wp_ofExcept]
                    cases identity status claims with
                    | error e => trivial
                    | ok who => exact hexchanged

theorem void_keeps {stateId : String} {code error browserNonce : Option String} :
    wp (loginTerms.contract (.complete stateId code error browserNonce))
      (Returns fun past _ => HasExchanged past)
      (complete stateId code error browserNonce).void [] :=
  wp_seq (f := fun _ => Prog.ret ()) complete_keeps (fun _ _ _ h => h) fun _ _ _ _ => trivial

/-- What each request writes of states, and when it exchanges a code. -/
theorem login_kept : loginTerms.Kept := by
  intro k
  cases k with
  | start address => exact start_keeps
  | complete stateId code error browserNonce => exact wp_mono (fun _ _ _ _ => trivial) void_keeps

/-! ## Every run -/

theorem loginValid_nothing : AllValid loginTerms.Valid noLogins.records :=
  fun _ _ _ h => absurd h List.not_mem_nil

/-- A state that was read is a stored version. -/
theorem ReadLive.version {r : LoginRecords} {past : LoginPast} {stateId : String}
    {browserNonce : Option String} {state : LoginState} {n : Nat} (htold : Told r past)
    (h : ReadLive past stateId browserNonce state n) :
    r.versionAt .loginState state.stateId n = some state := by
  obtain ⟨at_, rfl, -, hkey, -⟩ := h
  rw [hkey]
  exact htold.found (List.mem_cons_of_mem _ List.mem_cons_self)

theorem state_step {k : LoginKind} {past : LoginPast} {r s : LoginRecords} {ws : LoginWrites}
    (htold : Told r past) (hcommit : LoginCommit k past ws) (hs : r.commit ws = .ok s)
    (h : ∀ i, StateLife (r.versions .loginState i)) (i : String) :
    StateLife (s.versions .loginState i) := by
  cases hcommit with
  | started state unused =>
      obtain ⟨hnone, rfl⟩ := Repository.apply_create (Repository.commit_singleton.mp hs)
      rw [Repository.versions_append]
      split
      · next hi =>
          rw [hi, hnone]
          exact ⟨state, unused, [state.asSpent], rfl⟩
      · exact h i
  | @spent stateId code error browserNonce state n _ read =>
      obtain ⟨hn, rfl⟩ := Repository.apply_replace (Repository.commit_singleton.mp hs)
      have hversion := read.version htold
      obtain ⟨-, -, -, -, hunused, -⟩ := read
      rw [Repository.versions_append]
      split
      · next hi =>
          rw [hi]
          cases n with
          | zero => cases hversion
          | succ n => exact (h state.stateId).spent hn hversion hunused
      · exact h i

theorem state_lives {c : Config loginMachine} (hr : Run anyMove ⟨noLogins, []⟩ c) (i : String) :
    StateLife (c.shared.records.versions .loginState i) := by
  have hempty : ∀ i, StateLife (noLogins.records.versions .loginState i) := fun i =>
    ⟨{ stateId := i, codeVerifier := "", browserNonce := "", createdAt := 0 }, rfl,
      List.nil_prefix⟩
  exact repository_invariant (K := fun r => ∀ i, StateLife (r.versions .loginState i)) login_kept
    loginValid_nothing (fun hcom hold hs => state_step hcom.told hcom.permitted hs hold) hempty hr i

/-- A redirect of Google that is about to exchange a code, for a state. -/
def Exchanging (c : Config loginMachine) (t : Nat) (i : String) : Prop :=
  ∃ (stateId : String) (code error browserNonce : Option String) (code' verifier : String)
    (f : Except LoginExc (Nat × Claims) → LoginProc Unit) (past : LoginPast),
    c.pool[t]? = some ⟨.complete stateId code error browserNonce,
      .call (.ext (.exchange code' verifier)) f, past⟩ ∧ stateKey stateId = i

/-- What is so when a code is about to be exchanged. -/
def ExchangeAllowed (c : Config loginMachine) : Prop :=
  ∀ (t : Nat) (k : LoginKind) (code' verifier : String)
    (f : Except LoginExc (Nat × Claims) → LoginProc Unit) (past : LoginPast),
    c.pool[t]? = some ⟨k, .call (.ext (.exchange code' verifier)) f, past⟩ →
    ∃ (stateId : String) (code error browserNonce : Option String) (state : LoginState) (at_ : Int),
      k = .complete stateId code error browserNonce ∧ state.used = false ∧
      c.shared.records.versions .loginState (stateKey stateId) = [state, state.asSpent] ∧
      (⟨.now, .ok at_⟩ : (iface loginBackend loginOutside).Event) ∈ past ∧
      at_ - state.createdAt ≤ stateTtl ∧ SameBrowser state browserNonce ∧
      justWrote past = some (.loginState, stateKey stateId, 2)

theorem exchange_allowed {c : Config loginMachine} (hr : Run anyMove ⟨noLogins, []⟩ c) :
    ExchangeAllowed c := by
  intro t k code' verifier f past hp
  obtain ⟨stateId, code, error, browserNonce, state, n, before, rfl, rfl, hread⟩ :=
    (permitted_of_run login_kept loginValid_nothing hr hp).1
  have htold := told_of_run hr _ (List.mem_of_getElem? hp)
  have hversion := hread.version htold.tail
  have hwritten := (holders_apart hr).stored _ (List.mem_of_getElem? hp) _ rfl
  obtain ⟨at_, rfl, httl, hkey, hunused, hbrowser⟩ := hread
  cases n with
  | zero => cases hversion
  | succ n =>
      obtain ⟨rfl, hprefix⟩ := (state_lives hr state.stateId).unused hversion hunused
      refine ⟨stateId, code, error, browserNonce, state, at_, rfl, hunused,
        hkey ▸ hprefix.eq_of_length_le hwritten, List.mem_cons_of_mem _ List.mem_cons_self, httl,
        hbrowser, ?_⟩
      rw [← hkey]
      rfl

structure SingleUse (c : Config loginMachine) : Prop where
  allowed : ExchangeAllowed c
  alone : ∀ t t' i, Exchanging c t i → Exchanging c t' i → t = t'
  once : ∀ t i, Exchanging c t i → ∀ ch c', fire c (.act t ch) = some c' →
    ∀ c'', Run anyMove c' c'' → ∀ t', ¬Exchanging c'' t' i
  refused : ∀ th ∈ c.pool, ∀ stateId code error browserNonce,
    th.kind = .complete stateId code error browserNonce → th.rest = .ret () → HasExchanged th.past

theorem Exchanging.ticket {c : Config loginMachine} (hr : Run anyMove ⟨noLogins, []⟩ c) {t : Nat}
    {i : String} (h : Exchanging c t i) :
    ∃ th, c.pool[t]? = some th ∧ justWrote th.past = some (.loginState, i, 2) := by
  obtain ⟨stateId, code, error, browserNonce, code', verifier, f, past, hp, rfl⟩ := h
  obtain ⟨stateId', _, _, _, _, _, hkind, -, -, -, -, -, hticket⟩ :=
    exchange_allowed hr t _ code' verifier f past hp
  cases hkind
  exact ⟨_, hp, hticket⟩

/-- A redirect that ends without an error has exchanged a code. -/
theorem complete_exchanges (k : LoginKind) :
    wp (loginTerms.contract k) (fun past r => ∀ stateId code error browserNonce,
      k = .complete stateId code error browserNonce → r = .ok () → HasExchanged past)
      (loginBody k) [] := by
  cases k with
  | start address => exact wp_mono (fun _ _ _ _ _ _ _ _ h => by cases h) start_keeps
  | complete stateId code error browserNonce =>
      refine wp_mono (fun past r _ hr _ _ _ _ _ hok => ?_) void_keeps
      rw [hok] at hr
      exact hr

/-- In every run of requests to start and complete. -/
theorem login_single_use {c : Config loginMachine} (hr : Run anyMove ⟨noLogins, []⟩ c) :
    SingleUse c where
  allowed := exchange_allowed hr
  alone t t' i h h' := by
    obtain ⟨th, hp, hmine⟩ := h.ticket hr
    obtain ⟨th', hp', hother⟩ := h'.ticket hr
    by_contra hne
    exact (holders_apart hr).apart hne hp hp' _ hmine hother
  once t i h ch c' hf c'' hr' t' h' := by
    obtain ⟨th, hp, hmine⟩ := h.ticket hr
    have hr'' := (Run.move (.act t ch) hr trivial hf).trans hr'
    obtain ⟨th', hp', hother⟩ := h'.ticket hr''
    exact ticket_once hr hp hmine hf hr' th' (List.mem_of_getElem? hp') hother
  refused th hth stateId code error browserNonce hkind hrest := by
    have hends := ends_of_run (Q := fun k past r => ∀ stateId code error browserNonce,
      k = .complete stateId code error browserNonce → r = .ok () → HasExchanged past)
      login_kept loginValid_nothing complete_exchanges hr th hth
    rw [hrest] at hends
    exact hends stateId code error browserNonce hkind rfl

/-- A state of either flow is used once. The flows share no record and no operation, so an
interleaving of their requests is a run of each. -/
theorem oauth_state_single_use {c : Config Onboarding.grantMachine}
    (hr : Run anyMove ⟨Onboarding.noGrants, []⟩ c) {d : Config loginMachine}
    (hl : Run anyMove ⟨noLogins, []⟩ d) : Onboarding.SingleUse c ∧ SingleUse d :=
  ⟨Onboarding.connection_single_use hr, login_single_use hl⟩

/-! ## A run -/

/-- A sign-in up to the exchange of its code. -/
def signsIn : List (Move (M := loginMachine)) :=
  [.spawn (.start "a"), .act 0 (.ext (.flag true)), .act 0 (.name "s-1"), .act 0 (.name "v"),
    .act 0 (.name "n"), .act 0 (.clock 0), .act 0 .done,
    .spawn (.complete "s-1" (some "code") none (some "n")), .act 1 .done, .act 1 (.clock 1),
    .act 1 .done]

/-- The process that is about to exchange a code, with its ticket. -/
def exchangerOf (c : Config loginMachine) (t : Nat) : Option (String × Option (String × Nat)) :=
  match c.pool[t]? with
  | some ⟨_, .call (.ext (.exchange code _)) _, past⟩ =>
      some (code, (justWrote past).map fun ticket => (ticket.2.1, ticket.2.2))
  | _ => none

set_option maxRecDepth 20000 in
theorem oauth_state_single_use_signed_in :
    ∃ (c : Config Onboarding.grantMachine) (d : Config loginMachine),
      Onboarding.slotsOf c = [("r-1", false)] ∧ exchangerOf d 1 = some ("code", some ("s-1", 2)) ∧
        Onboarding.SingleUse c ∧ SingleUse d := by
  have h : (fires ⟨Onboarding.noGrants, []⟩ (Onboarding.signIn 0 "s-1" "r-1")).map
      Onboarding.slotsOf = some [("r-1", false)] := by
    decide +kernel
  have hl : (fires ⟨noLogins, []⟩ signsIn).map (exchangerOf · 1) =
      some (some ("code", some ("s-1", 2))) := by
    decide +kernel
  obtain ⟨c, hc, hs⟩ := Option.map_eq_some_iff.mp h
  obtain ⟨d, hd, hd'⟩ := Option.map_eq_some_iff.mp hl
  exact ⟨c, d, hs, hd', oauth_state_single_use (Run.of_moves hc) (Run.of_moves hd)⟩

end SeoAgent.GoogleLogin
