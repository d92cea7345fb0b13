import Mathlib.Data.List.Chain
import SeoAgent.Onboarding.GoogleOAuth

/-!
# Refresh tokens between sign-in and disconnection

Sign-ins and disconnections of all tenants at once. A sign-in stores its token and then
records the connection; a disconnection revokes the token it has read and then erases the
slot it was in, whatever is there by then, and records the disconnection. `owing` is the
tenant whose token a sign-in has stored with the connection still to record, and
`exposed` says that a tenant has a token Google honours and no connection to it.

## Main results

* `grant_kept` — what every request writes, and that none ends with something to record.
* `kept_step` — one undisturbed step keeps the tokens.
* `tokens_kept` — every run of undisturbed steps does.
* `token_erased` — another run does not.
-/

namespace SeoAgent.Onboarding

open SeoAgent.Verified Machine
open Service (iface World Terms)

/-! ## The machine -/

inductive GrantKind
  | start (tenantId : String)
  | begin (stateId : String)
  | complete (stateId : String) (code error browserNonce : Option String)
  | disconnect (tenantId : String)

def grantBody : GrantKind → OnboardingProc Unit
  | .start tenantId => oauthStart tenantId
  | .begin stateId => oauthBegin stateId
  | .complete stateId code error browserNonce => oauthComplete stateId code error browserNonce
  | .disconnect tenantId => (oauthDisconnect tenantId).void

@[reducible] def grantProcesses : Service.Processes onboardingBackend onboardingOutside where
  Kind := GrantKind
  body := grantBody
  admits := fun _ _ => true

@[reducible] def grantMachine : Machine (iface onboardingBackend onboardingOutside) :=
  Service.machine grantProcesses

abbrev GrantWorld : Type := World onboardingBackend onboardingOutside

abbrev GrantOp : Type := Service.Op onboardingBackend onboardingOutside

abbrev GrantChoice : Type := Service.Choice (B := onboardingBackend) onboardingOutside

/-- No tenant has signed in. -/
def noGrants : GrantWorld := ⟨Repository.empty, {}⟩

/-! ## What is at stake -/

/-- The token in the slot of a tenant that Google still honours. -/
def honoured (w : GrantWorld) (tenantId : String) : Option String :=
  match w.records.current .siteSecret (tokenKey tenantId) with
  | some (stored, _) =>
      if stored.erased || w.outside.revoked.contains stored.sealedValue then none
      else some stored.sealedValue
  | none => none

def connectionOf (w : GrantWorld) (tenantId : String) : Option GoogleConnection :=
  liveConnection (w.records.current .googleConnection tenantId)

/-- A token that Google honours, behind no connection in use. -/
def exposed (w : GrantWorld) (tenantId : String) : Bool :=
  (honoured w tenantId).isSome && (connectionOf w tenantId).isNone

/-- The tenant a transaction stores a token for. -/
def storedFor : OnboardingWrites → Option String
  | [.create .siteSecret _ v] => if v.erased then none else some v.tenantId
  | [.replace .siteSecret _ v _] => if v.erased then none else some v.tenantId
  | _ => none

/-- The slot a transaction erases. -/
def erasedAt : OnboardingWrites → Option String
  | [.replace .siteSecret i v _] => if v.erased then some i else none
  | _ => none

/-- The tenant a transaction disconnects. -/
def disconnectedFor : OnboardingWrites → Option String
  | [.create .googleConnection _ v] => if v.disconnectedAt = none then none else some v.tenantId
  | [.replace .googleConnection _ v _] => if v.disconnectedAt = none then none else some v.tenantId
  | _ => none

/-- The tenant whose token a sign-in has stored, with the connection still to record. -/
def owing : OnboardingPast → Option String
  | ⟨.commit ws, .ok ()⟩ :: _ => storedFor ws
  | ⟨_, .ok _⟩ :: past => owing past
  | ⟨_, .error _⟩ :: _ => none
  | [] => none

/-- The tokens whose revocation a disconnection was told of. -/
def revokedBy : OnboardingPast → List String
  | ⟨.ext (.revoke token), .ok status⟩ :: past =>
      if confirmsRevocation status then token :: revokedBy past else revokedBy past
  | _ :: past => revokedBy past
  | [] => []

/-! ## Undisturbed steps -/

/-- The operation of a sign-in goes through. -/
def goesThrough (w : GrantWorld) : GrantOp → GrantChoice → Bool
  | .find _ _, .fail _ => false
  | .commit _, .fail _ => false
  | .commit ws, _ => (Service.commitOr w.records ws).toOption.isSome
  | _, _ => true

/-- A process does not owe a connection that matters. -/
def settled (w : GrantWorld) (past : OnboardingPast) : Bool :=
  (owing past).all fun tenantId => !exposed w tenantId

/-- An erasure is of what the disconnection has revoked, or of nothing. -/
def erasesRevoked (past : OnboardingPast) (ws : OnboardingWrites) : Bool :=
  (erasedAt ws).all fun i =>
    (Service.seen (B := onboardingBackend) (X := onboardingOutside) .siteSecret i past).all
      fun stored => stored.1.erased || (revokedBy past).contains stored.1.sealedValue

/-- A disconnection is recorded over no honoured token, or over one whose sign-in has
still to record its connection. -/
def disconnectsNothing (c : Config grantMachine) (ws : OnboardingWrites) : Bool :=
  (disconnectedFor ws).all fun tenantId =>
    (honoured c.shared tenantId).isNone || c.pool.any fun th => owing th.past = some tenantId

/-- A stored token is answered for, or behind a connection in use. -/
def storesAnswered (w : GrantWorld) (ws : OnboardingWrites) : GrantChoice → Bool
  | .lost _ => (storedFor ws).all fun tenantId => (connectionOf w tenantId).isSome
  | _ => true

/-- What one transaction must not do. -/
def writesUndisturbed (c : Config grantMachine) (past : OnboardingPast) (ch : GrantChoice) :
    GrantOp → Bool
  | .commit ws =>
      erasesRevoked past ws && disconnectsNothing c ws && storesAnswered c.shared ws ch
  | _ => true

/-- A step that neither cuts a sign-in short nor lets a disconnection act on a token it
has not revoked. -/
def Undisturbed : Condition grantMachine
  | c, .stop t => ∀ th ∈ c.pool[t]?, settled c.shared th.past = true
  | c, .act t ch =>
      match c.pool[t]? with
      | some ⟨_, .call o _, past⟩ =>
          (settled c.shared past || goesThrough c.shared o ch) = true ∧
            writesUndisturbed c past ch o = true
      | _ => True
  | _, _ => True

instance (c : Config grantMachine) (m : Move (M := grantMachine)) :
    Decidable (Undisturbed c m) := by
  unfold Undisturbed
  split
  · infer_instance
  · split <;> infer_instance
  · infer_instance

/-! ## What the requests write -/

/-- What may be stored. -/
def grantValid : (t : OnboardingType) → String → t.Payload → Prop
  | .site, _, _ => True
  | .siteSecret, i, stored => i = tokenKey stored.tenantId
  | .googleOauthState, i, state => state.stateId = i
  | .googleConnection, i, connection =>
      connection.tenantId = i ∧ connection.credentialRef = tenantCredentialRef i

abbrev seenSecret (i : String) (past : OnboardingPast) : Option (StoredSecret × Nat) :=
  Service.seen (B := onboardingBackend) (X := onboardingOutside) .siteSecret i past

abbrev overWritten (t : OnboardingType) (i : String) (v : t.Payload)
    (current : Option (t.Payload × Nat)) : OnboardingWrites :=
  [Service.overWrite (B := onboardingBackend) t i v current]

/-- The transactions of the requests, and what was read before. -/
inductive GrantCommit (past : OnboardingPast) : OnboardingWrites → Prop
  | state {w : Repository.Write OnboardingType OnboardingType.Payload} {i : String}
      (idle : owing past = none) (target : w.target = (.googleOauthState, i)) :
      GrantCommit past [w]
  | stored {tenantId token : String} {current : Option (StoredSecret × Nat)}
      (idle : owing past = none) :
      GrantCommit past (overWritten .siteSecret (tokenKey tenantId)
        (newSecret tenantId (tenantSlot tenantId) refreshTokenName token) current)
  | connected {connection : GoogleConnection} {current : Option (GoogleConnection × Nat)}
      (owes : owing past = some connection.tenantId) (live : connection.disconnectedAt = none) :
      GrantCommit past (overWritten .googleConnection connection.tenantId connection current)
  | erased {tenantId : String} {stored : StoredSecret} {version : Nat} (idle : owing past = none)
      (read : seenSecret (tokenKey tenantId) past = some (stored, version)) :
      GrantCommit past [.replace .siteSecret (tokenKey tenantId) stored.tombstone version]
  | disconnected {connection : GoogleConnection} {current : Option (GoogleConnection × Nat)}
      (idle : owing past = none) (off : connection.disconnectedAt ≠ none) :
      GrantCommit past (overWritten .googleConnection connection.tenantId connection current)

def grantPermits (past : OnboardingPast) : GrantOp → Prop
  | .commit ws => GrantCommit past ws
  | .ext _ => owing past = none
  | .list _ => False
  | _ => True

@[reducible] def grantTerms : Terms grantProcesses where
  Valid := grantValid
  permits := fun _ => grantPermits

@[reducible] def grantContract : Prog.Contract (iface onboardingBackend onboardingOutside) where
  permits past o := grantPermits past o ∧ Service.writesValid grantValid o
  trusts := Service.readsValid grantValid

/-- A part that begins and ends with nothing to record, and what its value has. -/
def Idle {α : Type} (G : α → Prop) (p : OnboardingProc α) : Prop :=
  ∀ past, owing past = none →
    Prog.wp grantContract (fun past' r => owing past' = none ∧ ∀ a, r = .ok a → G a) p past

section Idle
variable {α β : Type} {G : α → Prop} {H : β → Prop}

theorem idle_bind {p : OnboardingProc α} {f : α → OnboardingProc β} (hp : Idle G p)
    (hf : ∀ a, G a → Idle H (f a)) : Idle H (p >>= f) := fun past hpast =>
  Prog.wp_seq (hp past hpast) (fun past' a _ ⟨hidle, ha⟩ => hf a (ha a rfl) past' hidle)
    fun _ _ _ ⟨hidle, _⟩ => ⟨hidle, fun _ h => by cases h⟩

theorem idle_pure {a : α} (h : G a) : Idle G (pure a) :=
  fun _ hpast => ⟨hpast, fun _ heq => Except.ok.inj heq ▸ h⟩

theorem idle_throw {e : OnboardingExc} : Idle G (throw e) :=
  fun _ hpast => ⟨hpast, fun _ heq => by cases heq⟩

theorem idle_ofExcept {x : Except OnboardingExc α} : Idle (fun _ => True)
    (Prog.ofExcept x : OnboardingProc α) := fun _ hpast => by
  rw [Prog.wp_ofExcept]
  exact ⟨hpast, fun _ _ => trivial⟩

theorem idle_tryCatch {p : OnboardingProc α} {h : OnboardingExc → OnboardingProc α}
    (hp : Idle G p) (hh : ∀ e, Idle G (h e)) : Idle G (tryCatch p h) := fun past hpast =>
  Prog.wp_try (hp past hpast) (fun _ _ _ hq => hq) fun past' e _ ⟨hidle, _⟩ => hh e past' hidle

theorem idle_find {t : OnboardingType} {i : String} :
    Idle (fun found : Option (t.Payload × Nat) => ∀ v n, found = some (v, n) → grantValid t i v)
      (findRecord t i) := by
  intro past hpast
  refine Prog.wp_ask ⟨trivial, trivial⟩ fun r hr => ?_
  cases r with
  | ok found =>
      refine ⟨hpast, fun a ha v n heq => ?_⟩
      obtain rfl := Except.ok.inj ha
      rw [heq] at hr
      exact hr
  | error e => exact ⟨rfl, fun a ha => by cases ha⟩

theorem idle_now : Idle (fun _ => True) readClock := by
  intro past hpast
  refine Prog.wp_ask ⟨trivial, trivial⟩ fun r _ => ?_
  cases r with
  | ok at_ => exact ⟨hpast, fun _ _ => trivial⟩
  | error e => exact ⟨rfl, fun _ _ => trivial⟩

theorem idle_newId : Idle (fun _ => True) makeId := by
  intro past hpast
  refine Prog.wp_ask ⟨trivial, trivial⟩ fun r _ => ?_
  cases r with
  | ok i => exact ⟨hpast, fun _ _ => trivial⟩
  | error e => exact ⟨rfl, fun _ _ => trivial⟩

theorem idle_ext {x : OnboardingOp} : Idle (fun _ => True) (askOutside x) := by
  intro past hpast
  refine Prog.wp_ask ⟨hpast, trivial⟩ fun r _ => ?_
  cases r with
  | ok a => exact ⟨hpast, fun _ _ => trivial⟩
  | error e => exact ⟨rfl, fun _ _ => trivial⟩

/-- A transaction that stores no token. -/
theorem idle_commit {w : Repository.Write OnboardingType OnboardingType.Payload}
    (hstored : storedFor [w] = none) (hcarries : w.Carries grantValid)
    (hpermits : ∀ past, owing past = none → GrantCommit past [w]) :
    Idle (fun _ => True) (commitAll [w]) := by
  intro past hpast
  refine Prog.wp_ask ⟨hpermits past hpast, fun w' hw => List.mem_singleton.mp hw ▸ hcarries⟩
    fun r _ => ?_
  cases r with
  | ok a => exact ⟨hstored, fun _ _ => trivial⟩
  | error e => exact ⟨rfl, fun _ _ => trivial⟩

end Idle

/-! ## The requests keep the terms -/

theorem readState_idle {stateId : String} : Idle (fun _ => True) (readState stateId) := by
  refine idle_bind idle_find fun found _ => ?_
  rcases found with _ | ⟨state, version⟩
  · exact idle_throw
  · refine idle_bind idle_now fun at_ _ => ?_
    split
    · exact idle_throw
    · exact idle_pure trivial

theorem commitState_idle (state : OAuthState)
    {w : Repository.Write OnboardingType OnboardingType.Payload}
    (h : w = .create .googleOauthState state.stateId state ∨
      ∃ version, w = .replace .googleOauthState state.stateId state version) :
    Idle (fun _ => True) (commitAll [w]) := by
  rcases h with rfl | ⟨version, rfl⟩
  · exact idle_commit rfl rfl fun _ hidle => .state hidle rfl
  · exact idle_commit rfl rfl fun _ hidle => .state hidle rfl

theorem oauthStart_idle {tenantId : String} : Idle (fun _ => True) (oauthStart tenantId) :=
  idle_bind idle_newId fun stateId _ => idle_bind idle_newId fun codeVerifier _ =>
    idle_bind idle_newId fun browserNonce _ => idle_bind idle_now fun createdAt _ =>
      commitState_idle { stateId, tenantId, codeVerifier, browserNonce, createdAt } (.inl rfl)

theorem oauthBegin_idle {stateId : String} : Idle (fun _ => True) (oauthBegin stateId) := by
  refine idle_bind readState_idle fun ⟨state, version⟩ _ => ?_
  dsimp only
  split
  · exact idle_throw
  · exact commitState_idle { state with begun := true } (.inr ⟨version, rfl⟩)

/-- The connection is recorded by the sign-in that stored the token. -/
theorem saveConnection_owing (connection : GoogleConnection) {past : OnboardingPast}
    (howes : owing past = some connection.tenantId) (hlive : connection.disconnectedAt = none)
    (hvalid : grantValid .googleConnection connection.tenantId connection) :
    Prog.wp grantContract (fun past' _ => owing past' = none)
      (saveOver .googleConnection connection.tenantId connection) past := by
  refine Prog.wp_ask_bind ⟨trivial, trivial⟩ (fun current _ => ?_) fun _ _ => rfl
  refine Prog.wp_ask ⟨.connected howes hlive, fun w hw => ?_⟩ fun r _ => ?_
  · exact List.mem_singleton.mp hw ▸ Service.overWrite_carries (B := onboardingBackend) hvalid current
  · cases r with
    | ok a =>
        show storedFor [_] = none
        rcases current with _ | ⟨_, _⟩ <;> rfl
    | error e => rfl

theorem connect_idle {tenantId token : String} {email : Option String} {scopes : List String} :
    Idle (fun _ => True) (connect tenantId token email scopes) := by
  intro past hpast
  unfold connect vaultPut
  split
  · exact ⟨hpast, fun _ _ => trivial⟩
  · refine Prog.wp_mono (Q := fun past' _ => owing past' = none)
      (fun _ _ _ h => ⟨h, fun _ _ => trivial⟩) ?_
    rw [Prog.wp_bind, Prog.wp_bind]
    refine Prog.wp_ask_bind ⟨trivial, trivial⟩ (fun current _ => ?_) fun _ _ => rfl
    refine Prog.wp_ask ⟨.stored hpast, fun w hw => ?_⟩ fun r _ => ?_
    · exact List.mem_singleton.mp hw ▸ Service.overWrite_carries (B := onboardingBackend) rfl current
    · cases r with
      | error e => rfl
      | ok a =>
          refine Prog.wp_ask_bind ⟨trivial, trivial⟩ (fun at_ _ => ?_) fun _ _ => rfl
          refine saveConnection_owing
            { tenantId, email, scopes, credentialRef := _, connectedAt := at_ } ?_ rfl ⟨rfl, rfl⟩
          show storedFor _ = some tenantId
          rcases current with _ | ⟨_, _⟩ <;> rfl

theorem oauthComplete_idle {stateId : String} {code error browserNonce : Option String} :
    Idle (fun _ => True) (oauthComplete stateId code error browserNonce) := by
  refine idle_bind readState_idle fun ⟨state, version⟩ _ => ?_
  dsimp only
  split
  · exact idle_throw
  · refine idle_bind (commitState_idle { state with used := true } (.inr ⟨version, rfl⟩)) fun _ _ => ?_
    split
    · exact idle_throw
    · split
      · exact idle_throw
      · exact idle_bind idle_ext fun _ _ => idle_bind idle_ofExcept fun _ _ => connect_idle

/-- The connection of a tenant is its own, with its own slot. -/
theorem readConnection_idle {tenantId : String} :
    Idle (fun found => ∀ connection, found = some connection →
      grantValid .googleConnection tenantId connection) (readConnection tenantId) := by
  refine idle_bind idle_find fun found hfound => idle_pure fun connection heq => ?_
  rcases found with _ | ⟨stored, n⟩
  · cases heq
  · simp only [liveConnection] at heq
    split at heq
    · cases heq
      exact hfound _ n rfl
    · cases heq

theorem vaultGet_idle {aggregateId : String} : Idle (fun _ => True) (vaultGet aggregateId) := by
  refine idle_bind idle_find fun found _ => ?_
  rcases found with _ | ⟨stored, n⟩
  · exact idle_throw
  · dsimp only
    split
    · exact idle_throw
    · exact idle_ext

theorem revokeHeld_idle {key : String} {held : Bool} :
    Idle (fun _ => True) (revokeHeld key held) := by
  cases held with
  | false => exact idle_pure trivial
  | true =>
      refine idle_bind (idle_tryCatch vaultGet_idle fun _ => idle_throw) fun token _ => ?_
      refine idle_bind (idle_tryCatch idle_ext fun _ => idle_throw) fun status _ => ?_
      split
      · exact idle_pure trivial
      · exact idle_throw

/-- What is erased is what was just read. -/
theorem vaultErase_idle {tenantId : String} :
    Idle (fun _ => True) (vaultErase (tokenKey tenantId)) := by
  intro past hpast
  refine Prog.wp_ask_bind ⟨trivial, trivial⟩ (fun found hfound => ?_) fun _ _ =>
    ⟨rfl, fun _ _ => trivial⟩
  rcases found with _ | ⟨stored, version⟩
  · exact ⟨hpast, fun _ _ => trivial⟩
  · have hread : seenSecret (tokenKey tenantId)
        (⟨.find .siteSecret (tokenKey tenantId), .ok (some (stored, version))⟩ :: past) =
          some (stored, version) := Service.seen_find (B := onboardingBackend) _
    refine Prog.wp_ask ⟨.erased hpast hread, fun w hw => List.mem_singleton.mp hw ▸ hfound⟩
      fun r _ => ?_
    cases r with
    | ok a => exact ⟨rfl, fun _ _ => trivial⟩
    | error e => exact ⟨rfl, fun _ _ => trivial⟩

theorem saveDisconnected_idle (connection : GoogleConnection)
    (hoff : connection.disconnectedAt ≠ none)
    (hvalid : grantValid .googleConnection connection.tenantId connection) :
    Idle (fun _ => True) (saveOver .googleConnection connection.tenantId connection) := by
  refine idle_bind idle_find fun current _ => idle_commit ?_ ?_ fun _ hidle => .disconnected hidle hoff
  · rcases current with _ | ⟨_, _⟩ <;> rfl
  · exact Service.overWrite_carries (B := onboardingBackend) hvalid current

theorem oauthDisconnect_idle {tenantId : String} :
    Idle (fun _ => True) (oauthDisconnect tenantId) := by
  refine idle_bind readConnection_idle fun found hfound => ?_
  cases found with
  | none => exact idle_pure trivial
  | some connection =>
      obtain ⟨rfl, href⟩ := hfound connection rfl
      have hkey : connection.credentialRef.key = tokenKey connection.tenantId :=
        congrArg SecretRef.key href
      have hholds : Idle (fun _ => True) (vaultHolds connection.credentialRef.key) :=
        idle_bind idle_find fun _ _ => idle_pure trivial
      refine idle_bind hholds fun held _ => idle_bind revokeHeld_idle fun revoked _ => ?_
      rw [hkey]
      refine idle_bind vaultErase_idle fun _ _ => idle_bind idle_now fun at_ _ => ?_
      have hsave := saveDisconnected_idle { connection with disconnectedAt := some at_ }
        (Option.some_ne_none at_) ⟨rfl, href⟩
      exact idle_bind hsave fun _ _ => idle_pure trivial

/-- No request ends with a connection to record. -/
theorem grant_ends (k : GrantKind) :
    Prog.wp (grantTerms.contract k) (fun past _ => owing past = none) (grantBody k) [] := by
  have hends : ∀ {p : OnboardingProc Unit}, Idle (fun _ => True) p →
      Prog.wp (grantTerms.contract k) (fun past _ => owing past = none) p [] :=
    fun h => Prog.wp_mono (fun _ _ _ hq => hq.1) (h [] rfl)
  cases k with
  | start tenantId => exact hends oauthStart_idle
  | begin stateId => exact hends oauthBegin_idle
  | complete stateId code error browserNonce => exact hends oauthComplete_idle
  | disconnect tenantId =>
      exact hends (idle_bind oauthDisconnect_idle fun _ _ => idle_pure trivial)

theorem grant_kept : grantTerms.Kept := fun k =>
  Prog.wp_mono (fun _ _ _ _ => trivial) (grant_ends k)

/-! ## Facts about the records -/

/-- No slot is erased before the token in it was revoked. -/
def RevokedFirst (revoked : List String) (old new : StoredSecret) : Prop :=
  new.erased = true → old.erased = true ∨ old.sealedValue ∈ revoked

theorem tokenKey_inj {t t' : String} (h : tokenKey t = tokenKey t') : t = t' := by
  have hlists := congrArg String.toList h
  simp only [tokenKey, tenantSlot, String.toList_append] at hlists
  exact String.toList_inj.mp (List.append_cancel_left (List.append_cancel_right
    (List.append_cancel_right hlists)))

/-- A token that is exposed was exposed before, when nothing of its tenant was written. -/
theorem exposed_mono {w w' : GrantWorld} {tenantId : String}
    (hsecret : w'.records.versions .siteSecret (tokenKey tenantId) =
      w.records.versions .siteSecret (tokenKey tenantId))
    (hconnection : w'.records.versions .googleConnection tenantId =
      w.records.versions .googleConnection tenantId)
    (hrevoked : w.outside.revoked ⊆ w'.outside.revoked) (h : exposed w' tenantId = true) :
    exposed w tenantId = true := by
  simp only [exposed, Bool.and_eq_true] at h ⊢
  obtain ⟨hhonoured, hnone⟩ := h
  rw [connectionOf, Repository.current_congr hconnection] at hnone
  refine ⟨?_, hnone⟩
  rw [honoured, Repository.current_congr hsecret] at hhonoured
  rw [honoured]
  split
  · next stored n hcurrent =>
      rw [hcurrent] at hhonoured
      split
      · next hgone =>
          simp only [Bool.or_eq_true, List.contains_iff_mem] at hgone
          have hgone' : stored.erased = true ∨ stored.sealedValue ∈ w'.outside.revoked :=
            hgone.imp_right fun hmem => hrevoked hmem
          simp [hgone'] at hhonoured
      · rfl
  · next hcurrent =>
      rw [hcurrent] at hhonoured
      cases hhonoured

theorem honoured_append {w : GrantWorld} {tenantId : String} {v : StoredSecret} :
    honoured ⟨w.records.append .siteSecret (tokenKey tenantId) v, w.outside⟩ tenantId =
      if v.erased || w.outside.revoked.contains v.sealedValue then none
      else some v.sealedValue := by
  simp only [honoured, Repository.current_append_self]

theorem revokedBy_error {o : GrantOp} {e : OnboardingExc} {past : OnboardingPast} :
    revokedBy (⟨o, .error e⟩ :: past) = revokedBy past := by
  cases o with
  | ext x => cases x <;> rfl
  | _ => rfl

/-- What Google confirmed stays confirmed, and a confirmed answer is kept. -/
theorem onboardingExec_revoked {s s' : OnboardingState} {x : OnboardingOp}
    {ch : OnboardingChoice} {r : Except OnboardingExc x.Res}
    (he : onboardingExec s x ch = some (r, s')) :
    s.revoked ⊆ s'.revoked ∧ ∀ past, ∀ token ∈ revokedBy (⟨.ext x, r⟩ :: past),
      token ∈ s'.revoked ∨ token ∈ revokedBy past := by
  unfold onboardingExec at he
  split at he
  case h_1 message =>
      cases he
      exact ⟨List.Subset.refl _, fun past token hmem => .inr (by rwa [revokedBy_error] at hmem)⟩
  case h_3 token n =>
      cases he
      refine ⟨?_, fun past token' hmem => ?_⟩
      · split
        · exact List.subset_cons_self _ _
        · exact List.Subset.refl _
      · simp only [revokedBy] at hmem
        split at hmem
        · next hconfirmed =>
            simp only [hconfirmed, if_true, List.mem_cons] at hmem ⊢
            tauto
        · exact .inr hmem
  all_goals
    cases he
    try exact ⟨List.Subset.refl _, fun _ _ hmem => .inr hmem⟩

/-! ## The invariant -/

/-- Every erasure came after the revocation of what it erased, every exposed token has a
process that is to record its connection, and disconnections know of what was revoked. -/
structure Kept (c : Config grantMachine) : Prop where
  erased : ∀ tenantId, (c.shared.records.versions .siteSecret (tokenKey tenantId)).IsChain
    (RevokedFirst c.shared.outside.revoked)
  attended : ∀ tenantId, exposed c.shared tenantId = true →
    ∃ th ∈ c.pool, owing th.past = some tenantId
  told : ∀ th ∈ c.pool, revokedBy th.past ⊆ c.shared.outside.revoked

/-- An operation of a sign-in that goes through leaves it on its way, or records. -/
theorem owing_kept {w s : GrantWorld} {o : GrantOp} {ch : GrantChoice}
    {r : Except OnboardingExc o.Res} {past : OnboardingPast} {tenantId : String}
    (hgo : goesThrough w o ch = true) (hx : Service.exec w o ch = some (r, s))
    (hpermits : grantPermits past o) (howes : owing past = some tenantId)
    (hmade : ∀ ws, o ≠ .commit ws) : owing (⟨o, r⟩ :: past) = some tenantId := by
  cases o with
  | ext x => exact absurd (howes.symm.trans hpermits) (by simp)
  | list t => exact hpermits.elim
  | commit ws => exact absurd rfl (hmade ws)
  | _ =>
      cases r with
      | ok a => exact howes
      | error e =>
          obtain ⟨m, rfl⟩ | ⟨m, rfl⟩ | ⟨x, hext⟩ | ⟨ws, hcommit, -⟩ := Service.exec_error hx
          · cases hgo <;> cases hx
          · cases hx
          · cases hext
          · cases hcommit

section Step
variable {c : Config grantMachine} {t : Nat} {ch : GrantChoice} {k : GrantKind} {o : GrantOp}
  {f : Except OnboardingExc o.Res → OnboardingProc Unit} {past : OnboardingPast}
  {r : Except OnboardingExc o.Res} {s : GrantWorld} {tenantId : String}

/-- A process that owes another connection, or none, is not the one that is waited for. -/
theorem waited_for (hp : c.pool[t]? = some ⟨k, .call o f, past⟩)
    (hother : owing past ≠ some tenantId) {th : Thread grantMachine} (hth : th ∈ c.pool)
    (howes : owing th.past = some tenantId) :
    ∃ th ∈ c.pool.set t ⟨k, f r, ⟨o, r⟩ :: past⟩, owing th.past = some tenantId := by
  obtain ⟨t', ht'⟩ := List.mem_iff_getElem?.mp hth
  have hne : t ≠ t' := by
    rintro rfl
    rw [hp] at ht'
    cases ht'
    exact hother howes
  refine ⟨th, List.mem_of_getElem? (i := t') ?_, howes⟩
  rw [List.getElem?_set_ne hne]
  exact ht'

theorem answered_mem (hp : c.pool[t]? = some ⟨k, .call o f, past⟩) :
    (⟨k, f r, ⟨o, r⟩ :: past⟩ : Thread grantMachine) ∈ c.pool.set t ⟨k, f r, ⟨o, r⟩ :: past⟩ :=
  List.mem_set (List.getElem?_eq_some_iff.mp hp).1 _

theorem told_answered (hK : Kept c) (hp : c.pool[t]? = some ⟨k, .call o f, past⟩)
    (hx : Service.exec c.shared o ch = some (r, s)) :
    c.shared.outside.revoked ⊆ s.outside.revoked ∧
      ∀ th ∈ c.pool.set t ⟨k, f r, ⟨o, r⟩ :: past⟩, revokedBy th.past ⊆ s.outside.revoked := by
  have hpast : revokedBy past ⊆ c.shared.outside.revoked :=
    hK.told _ (List.mem_of_getElem? hp)
  have hkey : c.shared.outside.revoked ⊆ s.outside.revoked ∧
      revokedBy (⟨o, r⟩ :: past) ⊆ s.outside.revoked := by
    cases o with
    | ext x =>
        obtain ⟨xc, -, hex, -⟩ := Service.exec_ext hx
        obtain ⟨hgrows, htold⟩ := onboardingExec_revoked hex
        exact ⟨hgrows, fun token hmem =>
          (htold past token hmem).elim id fun hold => hgrows (hpast hold)⟩
    | _ =>
        rcases Service.exec_outside hx with hsame | ⟨x, xc, hext, -⟩
        · rw [hsame]
          exact ⟨List.Subset.refl _, hpast⟩
        · cases hext
  refine ⟨hkey.1, fun th hth => ?_⟩
  rcases List.mem_or_eq_of_mem_set hth with hth | rfl
  · exact fun token hmem => hkey.1 (hK.told th hth hmem)
  · exact hkey.2

/-- Every other slot is as it was. -/
theorem erased_append (hK : Kept c) {v : StoredSecret}
    (hlast : ∀ old, (c.shared.records.versions .siteSecret (tokenKey tenantId)).getLast? =
      some old → RevokedFirst c.shared.outside.revoked old v) (other : String) :
    ((c.shared.records.append .siteSecret (tokenKey tenantId) v).versions .siteSecret
      (tokenKey other)).IsChain (RevokedFirst c.shared.outside.revoked) := by
  rw [Repository.versions_append]
  split
  · next hkey =>
      rw [hkey]
      refine List.isChain_append.mpr ⟨hK.erased tenantId, .singleton _, fun old hold new hnew => ?_⟩
      obtain rfl := Option.some.inj hnew
      exact hlast old hold
  · exact hK.erased other

end Step

/-! ## One step -/

/-- A write over a record is about no other one. -/
theorem overWritten_target {t t' : OnboardingType} {i i' : String} {v : t.Payload}
    {current : Option (t.Payload × Nat)} (hne : (t, i) ≠ (t', i')) :
    ∀ w ∈ overWritten t i v current, w.target ≠ (t', i') := by
  intro w hw
  rw [List.mem_singleton.mp hw]
  exact fun h => hne ((Service.overWrite_target (B := onboardingBackend)).symm.trans h)

section Made
variable {c : Config grantMachine} {t : Nat} {ch : GrantChoice} {k : GrantKind}
  {ws : OnboardingWrites} {past : OnboardingPast} {s : GrantWorld}
  {f : (iface onboardingBackend onboardingOutside).Answer (.commit ws) → OnboardingProc Unit}
  {r : (iface onboardingBackend onboardingOutside).Answer (.commit ws)}

theorem erased_made (hK : Kept c) (hpast : revokedBy past ⊆ c.shared.outside.revoked)
    (htold : Service.Told c.shared.records past) (hu : erasesRevoked past ws = true)
    (hpermits : GrantCommit past ws) (hmade : c.shared.records.commit ws = .ok s.records)
    (tenantId : String) :
    (s.records.versions .siteSecret (tokenKey tenantId)).IsChain
      (RevokedFirst c.shared.outside.revoked) := by
  cases hpermits with
  | state idle target =>
      rw [Repository.commit_versions_of_ne hmade (by simp [target])]
      exact hK.erased tenantId
  | stored idle =>
      rw [Service.append_of_overWrite hmade]
      exact erased_append hK (fun _ _ hgone => absurd hgone Bool.false_ne_true) tenantId
  | connected owes live =>
      rw [Service.append_of_overWrite hmade,
        Repository.versions_append_of_ne_type _ _ _ _ (by simp)]
      exact hK.erased tenantId
  | @erased tenantId' stored version idle read =>
      obtain ⟨hlength, happend⟩ := Repository.apply_replace (Repository.commit_singleton.mp hmade)
      rw [happend]
      refine erased_append hK (fun old hold _ => ?_) tenantId
      -- What is erased is what the disconnection read, and what it read was revoked.
      have hcurrent : c.shared.records.current .siteSecret (tokenKey tenantId') =
          some (stored, version) :=
        Repository.current_eq_some_iff.mpr ⟨htold.seen read, hlength⟩
      rw [Repository.getLast?_of_current hcurrent] at hold
      obtain rfl := Option.some.inj hold
      have hrevoked : stored.erased = true ∨ stored.sealedValue ∈ revokedBy past := by
        simpa [erasesRevoked, erasedAt, StoredSecret.tombstone, read] using hu
      exact hrevoked.imp_right fun hmem => hpast hmem
  | disconnected idle off =>
      rw [Service.append_of_overWrite hmade,
        Repository.versions_append_of_ne_type _ _ _ _ (by simp)]
      exact hK.erased tenantId

theorem attended_made (hK : Kept c) (hp : c.pool[t]? = some ⟨k, .call (.commit ws) f, past⟩)
    (hu : writesUndisturbed c past ch (.commit ws) = true) (hpermits : GrantCommit past ws)
    (hmade : c.shared.records.commit ws = .ok s.records)
    (hanswer : r = .ok () ∨ ∃ m, ch = .lost m) (houtside : s.outside = c.shared.outside)
    {tenantId : String} (hexposed : exposed s tenantId = true) :
    ∃ th ∈ c.pool.set t ⟨k, f r, ⟨.commit ws, r⟩ :: past⟩, owing th.past = some tenantId := by
  simp only [writesUndisturbed, Bool.and_eq_true] at hu
  obtain ⟨⟨-, hdisconnects⟩, hanswered⟩ := hu
  obtain ⟨hhonoured, hnone⟩ : (honoured s tenantId).isSome = true ∧
      (connectionOf s tenantId).isNone = true := by simpa [exposed] using hexposed
  -- A tenant that the transaction is not about was exposed before, and is waited for.
  have hothers : (∀ w ∈ ws, w.target ≠ (.siteSecret, tokenKey tenantId)) →
      (∀ w ∈ ws, w.target ≠ (.googleConnection, tenantId)) → owing past ≠ some tenantId →
      ∃ th ∈ c.pool.set t ⟨k, f r, ⟨.commit ws, r⟩ :: past⟩, owing th.past = some tenantId := by
    intro hsecret hconnection hne
    obtain ⟨th, hth, howes⟩ := hK.attended tenantId
      (exposed_mono (Repository.commit_versions_of_ne hmade hsecret)
        (Repository.commit_versions_of_ne hmade hconnection)
        (houtside ▸ List.Subset.refl _) hexposed)
    exact waited_for hp hne hth howes
  cases hpermits with
  | state idle target =>
      refine hothers ?_ ?_ (by simp [idle])
      · simp [target]
      · simp [target]
  | @stored tenantId' token current idle =>
      by_cases heq : tenantId = tenantId'
      · subst heq
        have hstored : storedFor (overWritten .siteSecret (tokenKey tenantId)
            (newSecret tenantId (tenantSlot tenantId) refreshTokenName token) current) =
              some tenantId := by
          rcases current with _ | ⟨_, _⟩ <;> rfl
        rcases hanswer with rfl | ⟨m, rfl⟩
        · exact ⟨_, answered_mem hp, hstored⟩
        · -- The answer is lost, over a connection in use.
          rw [storesAnswered, hstored] at hanswered
          have hsame : connectionOf s tenantId = connectionOf c.shared tenantId :=
            congrArg liveConnection (Repository.current_congr
              (Repository.commit_versions_of_ne hmade (overWritten_target (by simp))))
          rw [hsame, Option.isNone_iff_eq_none] at hnone
          simp [hnone] at hanswered
      · refine hothers (overWritten_target fun h => heq ?_) (overWritten_target (by simp))
          (by simp [idle])
        exact (tokenKey_inj (Prod.mk.inj h).2).symm
  | @connected connection current owes live =>
      by_cases heq : tenantId = connection.tenantId
      · subst heq
        rw [connectionOf, Service.append_of_overWrite hmade, Repository.current_append_self,
          liveConnection, if_pos live] at hnone
        cases hnone
      · refine hothers (overWritten_target (by simp))
          (overWritten_target fun h => heq (Prod.mk.inj h).2.symm) ?_
        rw [owes]
        exact fun h => heq (Option.some.inj h).symm
  | @erased tenantId' stored version idle read =>
      by_cases heq : tenantId = tenantId'
      · subst heq
        have happend := (Repository.apply_replace (Repository.commit_singleton.mp hmade)).2
        rw [honoured, happend, Repository.current_append_self] at hhonoured
        simp [StoredSecret.tombstone] at hhonoured
      · refine hothers ?_ (by simp [Repository.Write.target]) (by simp [idle])
        simpa [Repository.Write.target] using fun h => heq (tokenKey_inj h).symm
  | @disconnected connection current idle off =>
      by_cases heq : tenantId = connection.tenantId
      · subst heq
        have hoff : disconnectedFor (overWritten .googleConnection connection.tenantId connection
            current) = some connection.tenantId := by
          rcases current with _ | ⟨_, _⟩ <;> exact if_neg off
        have hsame : honoured s connection.tenantId = honoured c.shared connection.tenantId := by
          rw [honoured, honoured, houtside, Repository.current_congr
            (Repository.commit_versions_of_ne hmade (overWritten_target (by simp)))]
        rw [disconnectsNothing, hoff, Option.all_some, Bool.or_eq_true, ← hsame,
          Option.isNone_iff_eq_none, List.any_eq_true] at hdisconnects
        rcases hdisconnects with hnothing | ⟨th, hth, howes⟩
        · rw [hnothing] at hhonoured
          cases hhonoured
        · exact waited_for hp (by simp [idle]) hth (of_decide_eq_true howes)
      · exact hothers (overWritten_target (by simp))
          (overWritten_target fun h => heq (Prod.mk.inj h).2.symm) (by simp [idle])

end Made

/-- An answered process: the records are as they were, or its transaction was made. -/
theorem kept_answered {c : Config grantMachine} {t : Nat} {ch : GrantChoice} {k : GrantKind}
    {o : GrantOp} {f : Except OnboardingExc o.Res → OnboardingProc Unit} {past : OnboardingPast}
    {r : Except OnboardingExc o.Res} {s : GrantWorld} (hK : Kept c)
    (hp : c.pool[t]? = some ⟨k, .call o f, past⟩) (htold : Service.Told c.shared.records past)
    (hgo : (settled c.shared past || goesThrough c.shared o ch) = true)
    (hu : writesUndisturbed c past ch o = true) (hpermits : grantPermits past o)
    (hx : Service.exec c.shared o ch = some (r, s)) : Kept (c.answered t k past r f s) := by
  obtain ⟨hgrows, hrevoked⟩ := told_answered (f := f) hK hp hx
  -- With the records as they were, who was waited for still is.
  have hsame (hrecords : s.records = c.shared.records)
      (howing : ∀ tenantId, exposed c.shared tenantId = true → owing past = some tenantId →
        owing (⟨o, r⟩ :: past) = some tenantId) : Kept (c.answered t k past r f s) := by
    refine ⟨fun tenantId => ?_, fun tenantId hexposed => ?_, hrevoked⟩
    · show (s.records.versions .siteSecret (tokenKey tenantId)).IsChain
        (RevokedFirst s.outside.revoked)
      rw [hrecords]
      exact (hK.erased tenantId).imp fun old new h hgone => (h hgone).imp_right fun hm => hgrows hm
    · have hbefore : exposed c.shared tenantId = true :=
        exposed_mono (by rw [← hrecords]) (by rw [← hrecords]) hgrows
          (show exposed s tenantId = true from hexposed)
      obtain ⟨th, hth, howes⟩ := hK.attended tenantId hbefore
      by_cases h : owing past = some tenantId
      · exact ⟨_, answered_mem hp, howing tenantId hbefore h⟩
      · exact waited_for hp h hth howes
  have hthrough : ∀ tenantId, exposed c.shared tenantId = true → owing past = some tenantId →
      goesThrough c.shared o ch = true := by
    intro tenantId hexposed howes
    simpa [settled, howes, hexposed] using hgo
  by_cases hcommit : ∃ ws, o = .commit ws
  · obtain ⟨ws, rfl⟩ := hcommit
    obtain ⟨houtside, ⟨rfl, hwhy⟩ | ⟨hmade, hanswer⟩⟩ := Service.exec_commit hx
    · refine hsame rfl fun tenantId hexposed howes => ?_
      have hgo' := hthrough tenantId hexposed howes
      rcases hwhy with hnone | ⟨m, rfl⟩
      · cases ch <;> simp [goesThrough, hnone] at hgo'
      · cases hgo'
    · refine ⟨fun tenantId => ?_, fun tenantId hexposed => ?_, hrevoked⟩
      · show (s.records.versions .siteSecret (tokenKey tenantId)).IsChain
          (RevokedFirst s.outside.revoked)
        rw [houtside]
        simp only [writesUndisturbed, Bool.and_eq_true] at hu
        exact erased_made hK (hK.told _ (List.mem_of_getElem? hp)) htold hu.1.1 hpermits hmade
          tenantId
      · exact attended_made hK hp hu hpermits hmade hanswer houtside hexposed
  · have hnot : ∀ ws, o ≠ .commit ws := fun ws h => hcommit ⟨ws, h⟩
    refine hsame ?_ fun tenantId hexposed howes =>
      owing_kept (hthrough tenantId hexposed howes) hx hpermits howes hnot
    rcases Service.exec_records hx with hrecords | ⟨ws, rfl, -⟩
    · exact hrecords
    · exact absurd rfl (hnot ws)

theorem kept_step {c c' : Config grantMachine} {m : Move (M := grantMachine)}
    (hr : Run Undisturbed ⟨noGrants, []⟩ c) (hK : Kept c) (hu : Undisturbed c m)
    (hf : fire c m = some c') : Kept c' := by
  obtain ⟨k, rfl, -, rfl⟩ | ⟨t, ch, k, o, f, past, r, s, rfl, hp, hx, rfl⟩ | ⟨t, rfl, rfl⟩ |
    ⟨e, -⟩ := fire_cases hf
  · refine ⟨hK.erased, fun tenantId hexposed => ?_, fun th hth => ?_⟩
    · obtain ⟨th, hth, howes⟩ := hK.attended tenantId hexposed
      exact ⟨th, List.mem_append_left _ hth, howes⟩
    · rcases List.mem_append.mp hth with hth | hth
      · exact hK.told th hth
      · rw [List.mem_singleton.mp hth]
        exact List.nil_subset _
  · have hstart : Service.AllValid grantTerms.Valid noGrants.records :=
      fun _ _ _ h => absurd h List.not_mem_nil
    simp only [Undisturbed, hp] at hu
    exact kept_answered hK hp (Service.told_of_run hr _ (List.mem_of_getElem? hp)) hu.1 hu.2
      (Service.permitted_of_run grant_kept hstart hr hp).1 hx
  · refine ⟨hK.erased, fun tenantId hexposed => ?_, fun th hth =>
      hK.told th (List.mem_of_mem_eraseIdx hth)⟩
    obtain ⟨th, hth, howes⟩ := hK.attended tenantId hexposed
    obtain ⟨t', ht'⟩ := List.mem_iff_getElem?.mp hth
    have hne : t' ≠ t := by
      rintro rfl
      have hsettled := hu th (by rw [ht']; rfl)
      simp [settled, howes, hexposed] at hsettled
    exact ⟨th, List.mem_eraseIdx_iff_getElem?.mpr ⟨t', hne, ht'⟩, howes⟩
  · exact e.elim

/-! ## Every run -/

/-- No token is lost: every erasure came after the revocation of what it erased, and a token
that Google honours is behind a connection in use or a sign-in is under way that is to
record the connection. -/
structure TokensKept (c : Config grantMachine) : Prop where
  erased : ∀ tenantId, (c.shared.records.versions .siteSecret (tokenKey tenantId)).IsChain
    (RevokedFirst c.shared.outside.revoked)
  attended : ∀ tenantId, exposed c.shared tenantId = true →
    ∃ th ∈ c.pool, owing th.past = some tenantId ∧ ∃ o f, th.rest = .call o f

/-- In every run of undisturbed steps no token is lost. -/
theorem tokens_kept {c : Config grantMachine} (hr : Run Undisturbed ⟨noGrants, []⟩ c) :
    TokensKept c := by
  have hstart : Service.AllValid grantTerms.Valid noGrants.records :=
    fun _ _ _ h => absurd h List.not_mem_nil
  have hK : Kept c := by
    refine Run.invariant ⟨fun _ => .nil, fun tenantId h => ?_, fun th hth => ?_⟩
      (fun _ _ _ hr hK hu hf => kept_step hr hK hu hf) hr
    · cases h
    · cases hth
  refine ⟨hK.erased, fun tenantId hexposed => ?_⟩
  obtain ⟨th, hth, howes⟩ := hK.attended tenantId hexposed
  refine ⟨th, hth, howes, ?_⟩
  have hends := Service.ends_of_run grant_kept hstart grant_ends hr th hth
  cases hrest : th.rest with
  | call o f => exact ⟨o, f, rfl⟩
  | ret a =>
      rw [hrest, Prog.wp_ret, howes] at hends
      cases hends
  | raise e =>
      rw [hrest, Prog.wp_raise, howes] at hends
      cases hends

/-! ## Two runs -/

/-- A sign-in of one tenant from its start to Google's answer, as the process `t` and the two
after it; the state has the id `i`. -/
def signIn (t : Nat) (i token : String) : List (Move (M := grantMachine)) :=
  [.spawn (.start "t-1"), .act t (.name i), .act t (.name "v"), .act t (.name "n"),
    .act t (.clock 0), .act t .done,
    .spawn (.begin i), .act (t + 1) .done, .act (t + 1) (.clock 1), .act (t + 1) .done,
    .spawn (.complete i (some "code") none (some "n")), .act (t + 2) .done,
    .act (t + 2) (.clock 2), .act (t + 2) .done,
    .act (t + 2) (.ext (.tokens 200 { scope := searchConsoleReadonly, refreshToken := some token })),
    .act (t + 2) .done, .act (t + 2) .done, .act (t + 2) (.clock 3), .act (t + 2) .done,
    .act (t + 2) .done]

/-- A disconnection of the tenant up to Google's confirmation. -/
def revoke (t : Nat) : List (Move (M := grantMachine)) :=
  [.spawn (.disconnect "t-1"), .act t .done, .act t .done, .act t .done, .act t (.ext .done),
    .act t (.ext (.status 200))]

/-- The rest of it. -/
def erase (t : Nat) : List (Move (M := grantMachine)) :=
  [.act t .done, .act t .done, .act t (.clock 4), .act t .done, .act t .done]

def slotsOf (c : Config grantMachine) : List (String × Bool) :=
  (c.shared.records.versions .siteSecret (tokenKey "t-1")).map fun stored =>
    (stored.sealedValue, stored.erased)

set_option maxRecDepth 20000 in
theorem tokens_kept_disconnected : ∃ c : Config grantMachine,
    slotsOf c = [("r-1", false), ("", true)] ∧ TokensKept c := by
  have h : (firesIf Undisturbed ⟨noGrants, []⟩ (signIn 0 "s-1" "r-1" ++ revoke 3 ++ erase 3)).map
      slotsOf = some [("r-1", false), ("", true)] := by
    decide +kernel
  obtain ⟨c, hc, hs⟩ := Option.map_eq_some_iff.mp h
  exact ⟨c, hs, tokens_kept (Run.of_good_moves hc)⟩

set_option maxRecDepth 20000 in
/-- A tenant signs in again while its disconnection waits for Google: the new token is
erased, and only the old one was revoked. -/
theorem token_erased : ∃ c : Config grantMachine,
    Run anyMove ⟨noGrants, []⟩ c ∧ ¬TokensKept c := by
  have h : (fires ⟨noGrants, []⟩ (signIn 0 "s-1" "r-1" ++ revoke 3 ++ signIn 4 "s-2" "r-2" ++
      erase 3)).map (fun c => (c.shared.records.versions .siteSecret (tokenKey "t-1"),
        c.shared.outside.revoked)) =
      some ([newSecret "t-1" (tenantSlot "t-1") refreshTokenName "r-1",
        newSecret "t-1" (tenantSlot "t-1") refreshTokenName "r-2",
        (newSecret "t-1" (tenantSlot "t-1") refreshTokenName "r-2").tombstone], ["r-1"]) := by
    decide +kernel
  obtain ⟨c, hc, hs⟩ := Option.map_eq_some_iff.mp h
  obtain ⟨hversions, hrevoked⟩ := Prod.mk.inj hs
  refine ⟨c, Run.of_moves hc, fun hkept => ?_⟩
  have herased := hkept.erased "t-1"
  rw [hversions, hrevoked] at herased
  have hlast := List.rel_of_isChain_cons_cons (List.IsChain.tail herased)
  simp [RevokedFirst, newSecret, StoredSecret.tombstone] at hlast

end SeoAgent.Onboarding
